import Mathlib.Tactic.NormNum
import TokenMaster.Git.LogSound

/-!
# TokenMaster.Git.LogRecords — commits, their encodings and what a scan makes of them

A `CommitRecord` is a commit as `git log` knows it.  A section describes it when its fields spell the
record: raw entries for all changes, then numstat entries for all changes, line ends anywhere between
items and a closing NUL or none.  Reading such a section gives the commit with its exact counts.
-/

namespace TokenMaster.Git

open TokenMaster.Domain GitLogStreamParser TokenMaster.Except List

/-! ### Records -/

inductive ChangeStatus where
  | plain (letter : UInt8)
  | renamed (letter : UInt8) (score source : Bytes)

namespace ChangeStatus

def bytes : ChangeStatus → Bytes
  | .plain letter => [letter]
  | .renamed letter score _ => letter :: score

def source? : ChangeStatus → Option Bytes
  | .plain _ => none
  | .renamed _ _ source => some source

def Valid : ChangeStatus → Prop
  | .plain letter => plainStatuses.contains letter
  | .renamed letter score source =>
    renameStatuses.contains letter ∧ (score ≠ [] ∧ score.length ≤ 3 ∧ score.all isAsciiDigit) ∧
      ∃ category, classifyDestinationPath source = .ok category

end ChangeStatus

/-- A changed path; `lines` is none for a binary file. -/
structure PathChange where
  oldMode : Bytes
  newMode : Bytes
  oldObject : Bytes
  newObject : Bytes
  status : ChangeStatus
  path : Bytes
  category : GitOutputCategory
  lines : Option GitLineMetrics
  modes_valid : validMode oldMode ∧ validMode newMode
  objects_valid : validObject oldObject ∧ validObject newObject
  status_valid : status.Valid
  path_category : classifyDestinationPath path = .ok category
  lines_fit : ∀ l ∈ lines, l.Fits

namespace PathChange

def rawKind (change : PathChange) : RawKind :=
  if change.oldMode = submoduleMode ∨ change.newMode = submoduleMode then .submodule
  else .textOrBinary

def kind (change : PathChange) : GitPathStatKind :=
  match change.rawKind, change.lines with
  | .submodule, _ => .submodule
  | .textOrBinary, none => .binary
  | .textOrBinary, some lines => .text lines

def stat (change : PathChange) : GitPathStat := ⟨change.category, change.kind⟩

/-- The lines that count. -/
def textLines (change : PathChange) : GitLineMetrics :=
  match change.kind with
  | .text lines => lines
  | .binary | .submodule => 0

end PathChange

open PathChange

/-- The lines of the changes of one category. -/
def linesIn (changes : List PathChange) (category : GitOutputCategory) : GitLineMetrics :=
  ((changes.filter (·.category = category)).map PathChange.textLines).sum

/-- A merge has no changes: the log is taken with `--diff-merges=off`. -/
structure CommitRecord where
  objectId : Bytes
  timestamp : ℤ
  rawAuthor : Bytes
  canonicalAuthor : Bytes
  parents : List Bytes
  changes : List PathChange
  objectId_valid : IsObjectId objectId
  day_valid : GitDayValid (timestamp / 86400)
  authors_text : (0 : UInt8) ∉ rawAuthor ∧ (0 : UInt8) ∉ canonicalAuthor
  parents_valid : ∀ parent ∈ parents, IsObjectId parent
  parents_le : parents.length ≤ maxParentCount
  merge_empty : 1 < parents.length → changes = []
  lines_fit : (changes.map PathChange.textLines).sum.Fits

/-! ### Counts -/

theorem linesIn_append (a b : List PathChange) (category : GitOutputCategory) :
    linesIn (a ++ b) category = linesIn a category + linesIn b category := by
  simp [linesIn]

theorem linesIn_singleton (ch : PathChange) (cat : GitOutputCategory) :
    linesIn [ch] cat = if ch.category = cat then ch.textLines else 0 := by
  unfold linesIn
  by_cases h : ch.category = cat <;> simp [h]

theorem sum_single (cat : GitOutputCategory) (lines : GitLineMetrics) :
    (GitOutputCategory.all.map fun c => if cat = c then lines else 0).sum = lines := by
  cases cat <;> simp [GitOutputCategory.all]

/-- The categories share the lines out. -/
theorem sum_linesIn (chs : List PathChange) :
    (GitOutputCategory.all.map (linesIn chs)).sum = (chs.map textLines).sum := by
  induction chs with
  | nil => rfl
  | cons ch chs ih =>
    have hcons : linesIn (ch :: chs) = fun c =>
        (if ch.category = c then ch.textLines else 0) + linesIn chs c := by
      funext category
      rw [← singleton_append, linesIn_append, linesIn_singleton]
    rw [hcons, sum_map_add, sum_single, ih, map_cons, sum_cons]

/-- The lines of a category are part of the total. -/
theorem linesIn_add_others (chs : List PathChange) (cat : GitOutputCategory) :
    ∃ others, (chs.map textLines).sum = linesIn chs cat + others := by
  induction chs with
  | nil => exact ⟨0, rfl⟩
  | cons ch chs ih =>
    obtain ⟨others, hos⟩ := ih
    rw [map_cons, sum_cons, hos, ← singleton_append, linesIn_append, linesIn_singleton]
    by_cases h : ch.category = cat
    · refine ⟨others, ?_⟩
      rw [if_pos h, add_assoc]
    · refine ⟨ch.textLines + others, ?_⟩
      rw [if_neg h, zero_add, add_left_comm]

def CommitRecord.aggregate (ext : Externals) (salt : Bytes32) (record : CommitRecord) :
    GitCommitAggregate where
  fingerprint := (commitFingerprint ext salt record.objectId).asBytes
  dayIndex := record.timestamp / 86400
  parentCount := record.parents.length
  lines := (record.changes.map PathChange.textLines).sum
  categories := linesIn record.changes
  binaryFiles := record.changes.countP (·.kind = .binary)
  submoduleChanges := record.changes.countP (·.kind = .submodule)
  changedPaths := record.changes.length
  dayIndex_valid := record.day_valid
  lines_eq := (sum_linesIn record.changes).symm

/-! ### The accumulator -/

namespace GitCommitAccumulator

/-- The accumulator after some changes. -/
def adding (acc : GitCommitAccumulator) (changes : List PathChange) : GitCommitAccumulator :=
  { acc with
    categories := acc.categories + linesIn changes
    binaryFiles := acc.binaryFiles + changes.countP (·.kind = .binary)
    submoduleChanges := acc.submoduleChanges + changes.countP (·.kind = .submodule)
    changedPaths := acc.changedPaths + changes.length }

theorem adding_nil (acc : GitCommitAccumulator) : acc.adding [] = acc := by
  have hls : linesIn [] = 0 := rfl
  simp [adding, hls]

theorem adding_adding (acc : GitCommitAccumulator) (a b : List PathChange) :
    (acc.adding a).adding b = acc.adding (a ++ b) := by
  have hls : linesIn (a ++ b) = linesIn a + linesIn b := funext (linesIn_append a b)
  simp [adding, hls, add_assoc]

variable {acc : GitCommitAccumulator} {ch : PathChange}

theorem record_eq_adding (hpare : acc.parentCount ≤ 1)
    (hpas : acc.changedPaths < maxGitPathsPerCommit)
    (hbi : acc.binaryFiles ≤ acc.changedPaths)
    (hsub : acc.submoduleChanges ≤ acc.changedPaths)
    (hfit : (acc.categories ch.category + ch.textLines).Fits) :
    acc.record ch.stat = .ok (acc.adding [ch]) := by
  have hmax : maxGitPathsPerCommit = 4096 := rfl
  have hup : Function.update acc.categories ch.category
      (acc.categories ch.category + ch.textLines) = acc.categories + linesIn [ch] := by
    funext category
    rw [Pi.add_apply, linesIn_singleton]
    by_cases h : ch.category = category
    · rw [if_pos h, ← h, Function.update_self]
    · rw [if_neg h, Function.update_of_ne (Ne.symm h), add_zero]
  have hct : checkedAdd acc.changedPaths 1 = .ok (acc.changedPaths + 1) :=
    checkedAdd_eq_ok.mpr ⟨by omega, rfl⟩
  rw [record, require_pos hpare, ok_bind, require_pos (by omega), ok_bind, hct, ok_bind]
  cases hkd : ch.kind with
  | text lines =>
    have htext : ch.textLines = lines := by rw [textLines, hkd]
    rw [htext] at hfit hup
    have hls := checkedAddLines_eq_ok.mpr ⟨hfit, rfl⟩
    simp only [stat, hkd, hls, ok_bind, hup]
    simp [adding, hkd, pure, Except.pure]
  | binary =>
    have hz : ch.textLines = 0 := by rw [textLines, hkd]
    rw [hz, add_zero, Function.update_eq_self] at hup
    have hbi : checkedAdd acc.binaryFiles 1 = .ok (acc.binaryFiles + 1) :=
      checkedAdd_eq_ok.mpr ⟨by omega, rfl⟩
    simp only [stat, hkd, hbi, ok_bind]
    simp [adding, hkd, pure, Except.pure, ← hup]
  | submodule =>
    have hz : ch.textLines = 0 := by rw [textLines, hkd]
    rw [hz, add_zero, Function.update_eq_self] at hup
    have hsub : checkedAdd acc.submoduleChanges 1 = .ok (acc.submoduleChanges + 1) :=
      checkedAdd_eq_ok.mpr ⟨by omega, rfl⟩
    simp only [stat, hkd, hsub, ok_bind]
    simp [adding, hkd, pure, Except.pure, ← hup]

theorem sumLines_eq_ok {categories : CategoryLines}
    (hfit : (GitOutputCategory.all.map categories).sum.Fits) :
    sumLines categories = .ok (GitOutputCategory.all.map categories).sum := by
  have hlp : ∀ (l : List GitOutputCategory) (start : GitLineMetrics),
      (start + (l.map categories).sum).Fits →
      l.foldlM (fun lines cat => checkedAddLines lines (categories cat)) start =
        .ok (start + (l.map categories).sum) := by
    intro l
    induction l with
    | nil =>
      intro start _
      rfl
    | cons cat l ih =>
      intro start hfit
      rw [map_cons, sum_cons, ← add_assoc] at hfit
      rw [foldlM_cons, checkedAddLines_eq_ok.mpr ⟨hfit.of_add, rfl⟩, ok_bind, ih _ hfit,
        map_cons, sum_cons, add_assoc]
  have h := hlp GitOutputCategory.all 0 (by rwa [zero_add])
  rwa [zero_add] at h

theorem finish_eq_ok {commit : GitCommitAggregate}
    (hfit : (GitOutputCategory.all.map acc.categories).sum.Fits)
    (hfing : commit.fingerprint = acc.fingerprint) (hday : commit.dayIndex = acc.dayIndex)
    (hpare : commit.parentCount = acc.parentCount)
    (hcate : commit.categories = acc.categories)
    (hbi : commit.binaryFiles = acc.binaryFiles)
    (hsub : commit.submoduleChanges = acc.submoduleChanges)
    (hpas : commit.changedPaths = acc.changedPaths) : acc.finish = .ok commit := by
  have hsum := sumLines_eq_ok hfit
  obtain ⟨fingerprint, day, parents, lines, categories, binary, submodule, paths, hv, hls⟩ :=
    commit
  subst hfing hday hpare hcate hbi hsub hpas
  unfold finish
  split
  · rename_i error herr
    rw [hsum] at herr
    cases herr
  · rename_i total htot
    rw [hsum] at htot
    cases htot
    simp only [hls]

/-- The accumulator can take these changes. -/
structure Takes (acc : GitCommitAccumulator) (changes : List PathChange) : Prop where
  parents : changes ≠ [] → acc.parentCount ≤ 1
  paths : acc.changedPaths + changes.length ≤ maxGitPathsPerCommit
  binary : acc.binaryFiles ≤ acc.changedPaths
  submodule : acc.submoduleChanges ≤ acc.changedPaths
  fits : ∀ category, (acc.categories category + linesIn changes category).Fits

theorem Takes.record {changes : List PathChange} (h : acc.Takes (ch :: changes)) :
    acc.record ch.stat = .ok (acc.adding [ch]) ∧ (acc.adding [ch]).Takes changes := by
  have hpare := h.parents (cons_ne_nil _ _)
  have hpas := h.paths
  have hbi := h.binary
  have hsub := h.submodule
  rw [length_cons] at hpas
  have hspl : ∀ category, acc.categories category + linesIn (ch :: changes) category =
      acc.categories category + linesIn [ch] category + linesIn changes category := by
    intro category
    rw [← singleton_append, linesIn_append, add_assoc]
  have hfit : (acc.categories ch.category + ch.textLines).Fits := by
    have hall := h.fits ch.category
    rw [hspl, linesIn_singleton, if_pos rfl] at hall
    exact hall.of_add
  refine ⟨record_eq_adding hpare (by omega) hbi hsub hfit, ?_⟩
  refine ⟨fun _ => hpare, ?_, ?_, ?_, ?_⟩
  · simp only [adding, length_singleton]
    omega
  · have hone : [ch].countP (·.kind = .binary) ≤ 1 := countP_le_length
    simp only [adding, length_singleton]
    omega
  · have hone : [ch].countP (·.kind = .submodule) ≤ 1 := countP_le_length
    simp only [adding, length_singleton]
    omega
  · intro category
    have hall := h.fits category
    rw [hspl] at hall
    exact hall

end GitCommitAccumulator

/-! ### Encodings -/

def PathChange.rawHeader (change : PathChange) : Bytes :=
  58 :: (change.oldMode ++ 32 :: (change.newMode ++ 32 :: (change.oldObject ++
    32 :: (change.newObject ++ 32 :: change.status.bytes))))

def PathChange.rawItem (change : PathChange) : LogItem :=
  .raw change.rawHeader change.status.source? change.path

/-- A numstat entry of the change: its lines in decimal, or `-` for a binary file. -/
def PathChange.NumstatItem (change : PathChange) (item : LogItem) : Prop :=
  ∃ added removed, item = .numstat added removed change.status.source? change.path ∧
    match change.lines with
    | none => added = [45] ∧ removed = [45]
    | some lines => Spells added lines.added ∧ Spells removed lines.removed

def LogItem.isBlank : LogItem → Bool
  | .blank _ => true
  | _ => false

/-- An encoding of a record in the format of the log. -/
structure Describes (s : LogSection) (record : CommitRecord) : Prop where
  objectId : s.header.objectId = record.objectId
  timestamp : SpellsInt s.header.timestamp record.timestamp
  rawAuthor : s.header.rawAuthor = record.rawAuthor
  canonicalAuthor : s.header.canonicalAuthor = record.canonicalAuthor
  parents : s.header.parents = [32].intercalate record.parents
  /-- Raw entries, then numstat entries, and at most one NUL after them. -/
  body : ∃ entries numstats tail, s.items = entries ++ tail ∧
    (tail = [] ∨ tail = [LogItem.terminator]) ∧
    entries.filter (fun item => !item.isBlank) = record.changes.map PathChange.rawItem ++ numstats ∧
    List.Forall₂ PathChange.NumstatItem record.changes numstats
  blanks : ∀ byte, LogItem.blank byte ∈ s.items → byte = 10 ∨ byte = 13

/-! ### Raw headers -/

theorem no_whitespace {p : UInt8 → Bool} {field : Bytes} (hall : field.all p)
    (hp : ([32, 9, 10, 12, 13] : Bytes).any p = false) :
    ∀ b ∈ field, isAsciiWhitespace b = false := by
  intro b hb
  have hpb := all_eq_true.mp hall b hb
  by_contra hspace
  have hmem : b ∈ ([32, 9, 10, 12, 13] : Bytes) := by
    simp only [Bool.not_eq_false, isAsciiWhitespace, Bool.or_eq_true, decide_eq_true_eq] at hspace
    simpa [or_assoc] using hspace
  exact any_eq_false.mp hp b hmem hpb

theorem mode_no_whitespace {mode : Bytes} (h : validMode mode) :
    mode ≠ [] ∧ ∀ b ∈ mode, isAsciiWhitespace b = false := by
  simp only [validMode, Bool.and_eq_true, decide_eq_true_eq] at h
  refine ⟨?_, no_whitespace h.2 (by decide)⟩
  rintro rfl
  exact absurd h.1 (by decide)

theorem object_no_whitespace {object : Bytes} (h : validObject object) :
    object ≠ [] ∧ ∀ b ∈ object, isAsciiWhitespace b = false := by
  simp only [validObject, Bool.and_eq_true] at h
  refine ⟨?_, no_whitespace h.2 (by decide)⟩
  rintro rfl
  exact absurd h.1.1 (by decide)

namespace ChangeStatus

variable {status : ChangeStatus}

theorem Valid.bytes_no_whitespace (h : status.Valid) :
    status.bytes ≠ [] ∧ ∀ b ∈ status.bytes, isAsciiWhitespace b = false := by
  cases status with
  | plain letter =>
    refine ⟨cons_ne_nil _ _, ?_⟩
    have hletter : [letter].all plainStatuses.contains := by
      rw [all_cons, all_nil, Bool.and_true]
      exact h
    exact no_whitespace hletter (by decide)
  | renamed letter score src =>
    refine ⟨cons_ne_nil _ _, ?_⟩
    have hletter : [letter].all renameStatuses.contains := by
      rw [all_cons, all_nil, Bool.and_true]
      exact h.1
    intro b hb
    rcases mem_cons.mp hb with rfl | hb
    · exact no_whitespace hletter (by decide) b (mem_cons_self ..)
    · exact no_whitespace h.2.1.2.2 (by decide) b hb

theorem Valid.validStatus (h : status.Valid) : Git.validStatus status.bytes = true := by
  cases status with
  | plain letter => exact h
  | renamed letter score src =>
    obtain ⟨hletter, ⟨hne, hlen, hdigits⟩, -⟩ := h
    cases score with
    | nil => exact absurd rfl hne
    | cons digit score =>
      show (renameStatuses.contains letter && decide ((digit :: score).length ≤ 3) &&
        (digit :: score).all isAsciiDigit) = true
      rw [hletter, decide_eq_true hlen, hdigits]
      rfl

theorem Valid.renamed (h : status.Valid) :
    (status.bytes.head?.any renameStatuses.contains) = status.source?.isSome := by
  cases status with
  | plain letter =>
    have hplain : plainStatuses.any renameStatuses.contains = false := by decide
    have hletter : letter ∈ plainStatuses := contains_iff_mem.mp h
    simpa [bytes, source?] using any_eq_false.mp hplain letter hletter
  | renamed letter score source => simpa [bytes, source?] using h.1

theorem Valid.readSource (h : status.Valid) :
    Git.readSource status.source?.isSome status.source? = .ok () := by
  cases status with
  | plain letter => rfl
  | renamed letter score src =>
    obtain ⟨cat, hcat⟩ := h.2.2
    exact bind_eq_ok.mpr ⟨_, rfl, bind_eq_ok.mpr ⟨cat, hcat, rfl⟩⟩

end ChangeStatus

/-- **A raw header** is read back: the kind from its modes, the rename from its status. -/
theorem PathChange.parseRawHeader_eq (ch : PathChange) :
    parseRawHeader ch.rawHeader = .ok ⟨ch.rawKind, ch.status.source?.isSome⟩ := by
  obtain ⟨hold, holdS⟩ := mode_no_whitespace ch.modes_valid.1
  obtain ⟨hnew, hnewS⟩ := mode_no_whitespace ch.modes_valid.2
  obtain ⟨hoO, hoS⟩ := object_no_whitespace ch.objects_valid.1
  obtain ⟨hnO, hnS⟩ := object_no_whitespace ch.objects_valid.2
  obtain ⟨hsta, hstaS⟩ := ch.status_valid.bytes_no_whitespace
  have hfs : (ch.rawHeader.tail.splitOnP isAsciiWhitespace).filter (· ≠ []) =
      [ch.oldMode, ch.newMode, ch.oldObject, ch.newObject, ch.status.bytes] := by
    rw [rawHeader, tail_cons,
      splitOnP_append_cons_of_forall_mem holdS _ (by decide),
      splitOnP_append_cons_of_forall_mem hnewS _ (by decide),
      splitOnP_append_cons_of_forall_mem hoS _ (by decide),
      splitOnP_append_cons_of_forall_mem hnS _ (by decide),
      splitOnP_eq_singleton hstaS]
    simp [hold, hnew, hoO, hnO, hsta]
  have hv : (validMode ch.oldMode && validMode ch.newMode &&
      validObject ch.oldObject && validObject ch.newObject) = true := by
    simp [ch.modes_valid.1, ch.modes_valid.2, ch.objects_valid.1, ch.objects_valid.2]
  have hcolon : ch.rawHeader.head? = some 58 := rfl
  rw [parseRawHeader, require_pos hcolon, ok_bind, hfs]
  simp only [require_pos hv, ok_bind,
    require_pos ch.status_valid.validStatus, ch.status_valid.renamed]
  rfl

end TokenMaster.Git
