import TokenMaster.Git.LogRecords

/-!
# TokenMaster.Git.LogExact — a log stream is read exactly

A section that describes a record is read to the record's commit, and the parser reads such sections
in any split of their bytes.  With what `LogSound` says of arbitrary streams this settles the stream
parser: exact on encodings, silent on entries that disagree, and dead after a failure.
-/

namespace TokenMaster.Git

open TokenMaster.Domain GitLogStreamParser TokenMaster.Except PathChange List

variable {ext : Externals} {cfg : GitLogParseConfig} {id path : Bytes} {parents : List Bytes}
  {ch : PathChange} {current' : CurrentCommit} {s : LogSection} {record : CommitRecord}
  {sections : List LogSection}

/-! ### The header -/

variable {field : Bytes}

theorem parseDayIndex_eq {timestamp : ℤ} (hfd : SpellsInt field timestamp)
    (hday : GitDayValid (timestamp / 86400)) : parseDayIndex field = .ok (timestamp / 86400) := by
  have hmin : minGitDayIndex = -719162 := rfl
  have hmax : maxGitDayIndex = 2932896 := rfl
  have hrange := hday
  unfold GitDayValid at hrange
  have hparsed : parseI64 field = .ok timestamp := by
    rw [parseI64, hfd.parseSigned_eq (by omega), okOr_some]
  have hnew : GitOutputDay.new (timestamp / 86400) 0 0 0 =
      .ok ⟨timestamp / 86400, 0, 0, 0, hday, le_rfl⟩ := by
    rw [GitOutputDay.new, dif_pos hday, dif_pos le_rfl]
  rw [parseDayIndex, hparsed, ok_bind]
  dsimp only
  rw [require_pos (by omega), ok_bind, hnew]
  rfl

theorem objectId_chars (h : IsObjectId id) {b : UInt8} (hb : isAsciiHexDigit b = false) :
    b ∉ id := by
  intro hmem
  have hhex := all_eq_true.mp h.2 b hmem
  rw [hb] at hhex
  cases hhex

theorem objectId_ne_nil (h : IsObjectId id) : id ≠ [] := by
  rintro rfl
  rcases h.1 with h | h <;> cases h

theorem parseParentCount_eq (hv : ∀ p ∈ parents, IsObjectId p) (hct : parents.length ≤ 64) :
    parseParentCount ([32].intercalate parents) = .ok parents.length := by
  have hlp : ∀ (ps : List Bytes) (count : ℕ), (∀ p ∈ ps, IsObjectId p) →
      count + ps.length ≤ 64 →
      ps.foldlM (fun count parent => do
        validateObjectId parent
        Except.require (GitCoreError.capacityExceeded 64) (count + 1 ≤ 64)
        return count + 1) count = .ok (count + ps.length) := by
    intro ps
    induction ps with
    | nil => exact fun count _ _ => rfl
    | cons parent ps ih =>
      intro count hps hle
      rw [length_cons] at hle ⊢
      have hpar := hps parent (mem_cons_self ..)
      rw [foldlM_cons, validateObjectId, require_pos hpar, ok_bind, require_pos (by omega), ok_bind]
      refine (ih (count + 1) (fun p hp => hps p (mem_cons_of_mem _ hp)) (by omega)).trans ?_
      rw [Nat.add_assoc, Nat.add_comm 1]
  cases parents with
  | nil => rfl
  | cons parent parents =>
    have hne : [32].intercalate (parent :: parents) ≠ [] := by
      have hpar := objectId_ne_nil (hv parent (mem_cons_self ..))
      intro hnil
      cases parents with
      | nil => exact hpar (by simpa [List.intercalate] using hnil)
      | cons next parents => simp [List.intercalate] at hnil
    rw [parseParentCount, if_neg hne, splitOn_intercalate 32
      (fun p hp => objectId_chars (hv p hp) (by decide)) (cons_ne_nil _ _),
      hlp _ 0 hv (by rw [Nat.zero_add]; exact hct), Nat.zero_add]

/-- The record's emails pass `normalize_email`. -/
def CommitRecord.AuthorsAccepted (ext : Externals) (record : CommitRecord) : Prop :=
  (∃ email, normalizeEmail ext record.rawAuthor = .ok email) ∧
    ∃ email, normalizeEmail ext record.canonicalAuthor = .ok email

/-- One of the two emails is a selected author's. -/
def CommitRecord.selected (ext : Externals) (config : GitLogParseConfig) (record : CommitRecord) :
    Bool :=
  [record.rawAuthor, record.canonicalAuthor].any fun email =>
    match deriveAuthorFingerprint ext config.salt email with
    | .ok fingerprint => decide (fingerprint ∈ config.authors)
    | .error _ => false

/-- The accumulator that the header of a record starts. -/
def CommitRecord.accumulator (ext : Externals) (salt : Bytes32) (record : CommitRecord) :
    GitCommitAccumulator :=
  ⟨(commitFingerprint ext salt record.objectId).asBytes, record.timestamp / 86400,
    record.parents.length, 0, 0, 0, 0, record.day_valid⟩

theorem GitCommitAccumulator.new_eq (record : CommitRecord) (salt : Bytes32) :
    GitCommitAccumulator.new (commitFingerprint ext salt record.objectId).asBytes
        (record.timestamp / 86400) record.parents.length =
      .ok (record.accumulator ext salt) := by
  have hnew : GitOutputDay.new (record.timestamp / 86400) 0 0 0 =
      .ok ⟨record.timestamp / 86400, 0, 0, 0, record.day_valid, le_rfl⟩ := by
    rw [GitOutputDay.new, dif_pos record.day_valid, dif_pos le_rfl]
  rw [GitCommitAccumulator.new, hnew]
  simp only [Except.mapError, ok_bind, require_pos record.parents_le]
  rfl

theorem Describes.read_header {s : LogSection} {record : CommitRecord} (h : Describes s record)
    (hauth : record.AuthorsAccepted ext) :
    s.header.read ext cfg = .ok ⟨if record.selected ext cfg then
      some (record.accumulator ext cfg.salt) else none, [], 0, false⟩ := by
  obtain ⟨⟨rawEmail, hraw⟩, canonicalEmail, hcan⟩ := hauth
  obtain ⟨raw, hraw⟩ : ∃ raw, deriveAuthorFingerprint ext cfg.salt record.rawAuthor = .ok raw :=
    ⟨_, bind_eq_ok.mpr ⟨_, hraw, rfl⟩⟩
  obtain ⟨canonical, hcan⟩ :
      ∃ canonical, deriveAuthorFingerprint ext cfg.salt record.canonicalAuthor = .ok canonical :=
    ⟨_, bind_eq_ok.mpr ⟨_, hcan, rfl⟩⟩
  have hsel : record.selected ext cfg =
      (decide (raw ∈ cfg.authors) || decide (canonical ∈ cfg.authors)) := by
    simp [CommitRecord.selected, hraw, hcan]
  rw [LogHeader.read, h.objectId, validateObjectId, require_pos record.objectId_valid,
    ok_bind, parseDayIndex_eq h.timestamp record.day_valid, ok_bind, h.rawAuthor, hraw,
    ok_bind, h.canonicalAuthor, hcan, ok_bind, h.parents,
    parseParentCount_eq record.parents_valid record.parents_le, ok_bind,
    GitCommitAccumulator.new_eq]
  by_cases hmem : raw ∈ cfg.authors ∨ canonical ∈ cfg.authors
  · have htrue : record.selected ext cfg = true := by simpa [hsel] using hmem
    rw [if_pos hmem, if_pos htrue]
    rfl
  · have hfalse : record.selected ext cfg = false := by simpa [hsel] using hmem
    rw [if_neg hmem, hfalse]
    rfl

/-! ### The body -/

/-- The raw entry that a change leaves. -/
def PathChange.entry (ext : Externals) (change : PathChange) : RawEntry :=
  ⟨hashPath ext change.path, change.rawKind⟩

variable {current : CurrentCommit}

theorem requireOpen_eq (h : current.bodyTerminated = false) :
    current.requireOpen = .ok () := require_pos (by rw [h]; rfl)

theorem read_raws (chs : List PathChange) : ∀ current : CurrentCommit,
    current.bodyTerminated = false →
    current.rawEntries.length + chs.length ≤ cfg.limits.pathsPerCommit →
    (chs.map rawItem).foldlM (LogItem.read ext cfg) current =
      .ok { current with
        rawEntries := current.rawEntries ++ chs.map (entry ext) } := by
  induction chs with
  | nil =>
    intro current _ _
    rw [map_nil, map_nil, append_nil]
    rfl
  | cons ch chs ih =>
    intro current hop hrm
    rw [length_cons] at hrm
    have hit : ch.rawItem.read ext cfg current = .ok { current with
        rawEntries := current.rawEntries ++ [ch.entry ext] } := by
      rw [rawItem, LogItem.read, requireOpen_eq hop, ok_bind,
        ch.parseRawHeader_eq, ok_bind, ch.status_valid.readSource, ok_bind,
        CurrentCommit.finishRawPath, require_pos (by omega), ok_bind,
        ch.path_category]
      rfl
    rw [map_cons, foldlM_cons, hit, ok_bind]
    refine (ih _ ?_ ?_).trans ?_
    · exact hop
    · simp only [length_append, length_singleton]
      omega
    · simp

theorem PathChange.pathStat_eq (ch : PathChange) :
    CurrentCommit.pathStat ch.rawKind
        (ch.lines.elim .binary fun lines => .text lines.added)
        (ch.lines.elim .binary fun lines => .text lines.removed) ch.path =
      .ok ch.stat := by
  have hcat := ch.path_category
  unfold CurrentCommit.pathStat stat kind
  cases hkd : ch.rawKind <;> cases hls : ch.lines <;> simp only [Option.elim, hcat] <;>
    rfl

variable {item : LogItem}

/-- The fields of a numstat entry read as the change's lines. -/
theorem PathChange.NumstatItem.parse (h : ch.NumstatItem item) :
    ∃ added rem, item = .numstat added rem ch.status.source? ch.path ∧
      parseNumValue added = .ok (ch.lines.elim .binary fun lines => .text lines.added) ∧
      parseNumValue rem = .ok (ch.lines.elim .binary fun lines => .text lines.removed) := by
  obtain ⟨added, rem, rfl, hls⟩ := h
  refine ⟨added, rem, rfl, ?_⟩
  have htext : ∀ {field : Bytes} {n : ℕ}, Spells field n → n < 2 ^ 64 →
      parseNumValue field = .ok (.text n) := by
    intro field n hfd hn
    have hminus : field ≠ [45] := by
      rintro rfl
      exact hfd.head?_ne (by decide) rfl
    rw [parseNumValue, if_neg hminus, hfd.parseUnsigned_eq hn]
    rfl
  cases hls' : ch.lines with
  | none =>
    rw [hls'] at hls
    obtain ⟨rfl, rfl⟩ := hls
    exact ⟨rfl, rfl⟩
  | some lines =>
    rw [hls'] at hls
    have hfit := ch.lines_fit lines hls'
    exact ⟨htext hls.1 hfit.added, htext hls.2 hfit.removed⟩

theorem read_numstat {ch : PathChange} {item : LogItem} (hit : ch.NumstatItem item)
    {current : CurrentCommit} (hop : current.bodyTerminated = false)
    (hraw : current.rawEntries[current.numstatIndex]? = some (ch.entry ext))
    (htakes : ∀ acc ∈ current.accumulator, acc.record ch.stat = .ok (acc.adding [ch])) :
    item.read ext cfg current = .ok { current with
      accumulator := current.accumulator.map (·.adding [ch])
      numstatIndex := current.numstatIndex + 1 } := by
  obtain ⟨added, rem, rfl, hadd, hrem⟩ := hit.parse
  have haccu : (current.accumulator.mapM fun acc => acc.record ch.stat) =
      .ok (current.accumulator.map (·.adding [ch])) := by
    cases hacc : current.accumulator with
    | none => rfl
    | some acc =>
      rw [Option.mapM_some, htakes acc hacc]
      rfl
  have hhs : (ch.entry ext).destinationHash = hashPath ext ch.path := rfl
  rw [LogItem.read, requireOpen_eq hop, ok_bind, hadd, ok_bind, hrem,
    ok_bind, ch.status_valid.readSource, ok_bind, CurrentCommit.finishNumstatPath,
    hraw, okOr_some, ok_bind, require_pos hhs, ok_bind,
    okOr_some, ok_bind, okOr_some, ok_bind]
  have hstat : CurrentCommit.pathStat (ch.entry ext).kind _ _ ch.path = _ :=
    ch.pathStat_eq
  rw [hstat, ok_bind, haccu]
  rfl

/-- The numstat entries of the remaining changes, after those of `done`. -/
theorem read_numstats {chs : List PathChange} {items : List LogItem}
    (hits : List.Forall₂ PathChange.NumstatItem chs items) :
    ∀ (done : List PathChange) (current : CurrentCommit), current.bodyTerminated = false →
      current.rawEntries = (done ++ chs).map (entry ext) →
      current.numstatIndex = done.length → (∀ acc ∈ current.accumulator, acc.Takes chs) →
      items.foldlM (LogItem.read ext cfg) current = .ok { current with
        accumulator := current.accumulator.map (·.adding chs)
        numstatIndex := done.length + chs.length } := by
  induction hits with
  | nil =>
    intro done current _ _ hindex _
    have hno : current.accumulator.map (·.adding []) = current.accumulator := by
      cases current.accumulator with
      | none => rfl
      | some acc => rw [Option.map_some, acc.adding_nil]
    rw [length_nil, Nat.add_zero, ← hindex, hno]
    rfl
  | @cons ch item chs items hit _ ih =>
    intro done current hop hraw hindex htakes
    have hent : current.rawEntries[current.numstatIndex]? = some (ch.entry ext) := by
      rw [hraw, hindex, map_append, List.getElem?_append_right (by rw [length_map]),
        length_map, Nat.sub_self]
      rfl
    have hst := @read_numstat ext cfg ch item hit current hop hent
      fun acc hacc => (htakes acc hacc).record.1
    rw [foldlM_cons, hst, ok_bind, ih (done ++ [ch])]
    · have hadding : (current.accumulator.map (·.adding [ch])).map (·.adding chs) =
          current.accumulator.map (·.adding (ch :: chs)) := by
        cases current.accumulator with
        | none => rfl
        | some acc =>
          rw [Option.map_some, Option.map_some, Option.map_some, acc.adding_adding]
          rfl
      simp only [hadding, length_append, length_cons, length_nil]
      congr 2
      omega
    · exact hop
    · rw [append_assoc]
      exact hraw
    · rw [length_append, hindex]
      rfl
    · intro acc hacc
      obtain ⟨before, hbef, rfl⟩ := Option.mem_map.mp hacc
      exact (htakes before hbef).record.2

theorem read_isOpen (hit : item ≠ .terminator) (h : item.read ext cfg current = .ok current') :
    current'.bodyTerminated = current.bodyTerminated := by
  cases item with
  | blank byte =>
    obtain ⟨_, -, h⟩ := bind_eq_ok.mp h
    cases h
    rfl
  | terminator => exact absurd rfl hit
  | raw header src path =>
    obtain ⟨_, -, h⟩ := bind_eq_ok.mp h
    obtain ⟨_, -, h⟩ := bind_eq_ok.mp h
    obtain ⟨_, -, h⟩ := bind_eq_ok.mp h
    obtain ⟨_, -, h⟩ := bind_eq_ok.mp h
    obtain ⟨_, -, h⟩ := bind_eq_ok.mp h
    cases h
    rfl
  | numstat added rem src path =>
    obtain ⟨_, -, h⟩ := bind_eq_ok.mp h
    obtain ⟨_, -, h⟩ := bind_eq_ok.mp h
    obtain ⟨_, -, h⟩ := bind_eq_ok.mp h
    obtain ⟨_, -, h⟩ := bind_eq_ok.mp h
    obtain ⟨_, -, h⟩ := bind_eq_ok.mp h
    obtain ⟨_, -, h⟩ := bind_eq_ok.mp h
    obtain ⟨_, -, h⟩ := bind_eq_ok.mp h
    obtain ⟨_, -, h⟩ := bind_eq_ok.mp h
    obtain ⟨_, -, h⟩ := bind_eq_ok.mp h
    obtain ⟨_, -, h⟩ := bind_eq_ok.mp h
    cases h
    rfl

/-- Line ends change nothing in an open body. -/
theorem read_entries {es : List LogItem} (hop : current.bodyTerminated = false)
    (hes : ∀ item ∈ es, item ≠ .terminator)
    (h : (es.filter fun item => !item.isBlank).foldlM (LogItem.read ext cfg) current =
      .ok current') : es.foldlM (LogItem.read ext cfg) current = .ok current' := by
  induction es generalizing current with
  | nil => exact h
  | cons item es ih =>
    have hrs := fun i hi => hes i (mem_cons_of_mem item hi)
    rw [foldlM_cons]
    by_cases hblank : item.isBlank = true
    · cases item with
      | blank byte =>
        rw [LogItem.read, requireOpen_eq hop, ok_bind]
        exact ih hop hrs h
      | terminator | raw header src path | numstat added rem src path => cases hblank
    · rw [filter_cons_of_pos (by simpa using hblank), foldlM_cons] at h
      obtain ⟨middle, hit, h⟩ := bind_eq_ok.mp h
      rw [hit, ok_bind]
      refine ih ?_ hrs h
      rw [read_isOpen (hes item (mem_cons_self ..)) hit, hop]

theorem entries_not_terminator {es numstats : List LogItem} {chs : List PathChange}
    (hes : es.filter (fun item => !item.isBlank) = chs.map rawItem ++ numstats)
    (hnums : List.Forall₂ PathChange.NumstatItem chs numstats) :
    ∀ item ∈ es, item ≠ .terminator := by
  rintro item hit rfl
  have hmem : LogItem.terminator ∈ es.filter fun item => !item.isBlank :=
    mem_filter.mpr ⟨hit, rfl⟩
  rw [hes] at hmem
  rcases mem_append.mp hmem with hmem | hmem
  · obtain ⟨ch, -, heq⟩ := mem_map.mp hmem
    cases heq
  · obtain ⟨ch, -, added, rem, heq, -⟩ := forall₂_mem_right hnums hmem
    cases heq

/-! ### Sections -/

theorem CommitRecord.accumulator_takes (record : CommitRecord) (salt : Bytes32)
    (hpas : record.changes.length ≤ maxGitPathsPerCommit) :
    (record.accumulator ext salt).Takes record.changes where
  parents hne := by
    by_contra hmy
    exact hne (record.merge_empty (not_le.mp hmy))
  paths := by
    rw [CommitRecord.accumulator, Nat.zero_add]
    exact hpas
  binary := le_rfl
  submodule := le_rfl
  fits category := by
    obtain ⟨others, hos⟩ := linesIn_add_others record.changes category
    have hfit := record.lines_fit
    rw [hos] at hfit
    show (0 + linesIn record.changes category).Fits
    rw [zero_add]
    exact hfit.of_add

theorem CommitRecord.finish_eq (record : CommitRecord) (salt : Bytes32) :
    ((record.accumulator ext salt).adding record.changes).finish =
      .ok (record.aggregate ext salt) := by
  have hcate : ((record.accumulator ext salt).adding record.changes).categories =
      linesIn record.changes := zero_add _
  refine GitCommitAccumulator.finish_eq_ok ?_ rfl rfl rfl hcate.symm (Nat.zero_add _).symm
    (Nat.zero_add _).symm (Nat.zero_add _).symm
  rw [hcate, sum_linesIn]
  exact record.lines_fit

/-- **A section that describes a record is read to its commit**, when the author is selected. -/
theorem Describes.read (h : Describes s record) (hauth : record.AuthorsAccepted ext)
    (hpas : record.changes.length ≤ cfg.limits.pathsPerCommit) :
    s.read ext cfg = .ok (if record.selected ext cfg then
      some (record.aggregate ext cfg.salt) else none) := by
  obtain ⟨es, numstats, tail, hits, htl, hes, hnumstats⟩ := h.body
  have hhdr := @Describes.read_header ext cfg s record h hauth
  generalize hst : (if record.selected ext cfg then
    some (record.accumulator ext cfg.salt) else none) = start at hhdr
  have hraws := @read_raws ext cfg record.changes ⟨start, [], 0, false⟩ rfl
    (by rw [length_nil, Nat.zero_add]; exact hpas)
  have hnums := @read_numstats ext cfg _ _ hnumstats []
    ⟨start, record.changes.map (entry ext), 0, false⟩ rfl rfl rfl (by
      intro acc hacc
      rw [← hst] at hacc
      split_ifs at hacc with hsel
      · cases hacc
        exact record.accumulator_takes _ (hpas.trans cfg.limits.paths_range.2)
      · cases hacc)
  -- the body up to its closing NUL
  have hesR : es.foldlM (LogItem.read ext cfg) ⟨start, [], 0, false⟩ =
      .ok ⟨start.map (·.adding record.changes), record.changes.map (entry ext),
        record.changes.length, false⟩ := by
    refine read_entries rfl (entries_not_terminator hes hnumstats) ?_
    rw [hes, foldlM_append]
    refine bind_eq_ok.mpr ⟨_, hraws, hnums.trans ?_⟩
    rw [length_nil, Nat.zero_add]
  have hcm : (start.map (·.adding record.changes)).mapM GitCommitAccumulator.finish =
      .ok (if record.selected ext cfg then some (record.aggregate ext cfg.salt) else none) := by
    rw [← hst]
    split_ifs with hsel
    · rw [Option.map_some, Option.mapM_some, record.finish_eq]
      rfl
    · rfl
  have hmat : record.changes.length = (record.changes.map (entry ext)).length :=
    (length_map _).symm
  rw [LogSection.read, LogSection.progress, hhdr, ok_bind, hits, foldlM_append, hesR, ok_bind]
  rcases htl with rfl | rfl
  · refine bind_eq_ok.mpr ⟨_, rfl, ?_⟩
    rw [CurrentCommit.requireMatched, require_pos hmat]
    exact hcm
  · have hterm : LogItem.read ext cfg ⟨start.map (·.adding record.changes),
        record.changes.map (entry ext), record.changes.length, false⟩ .terminator =
          .ok ⟨start.map (·.adding record.changes), record.changes.map (entry ext),
            record.changes.length, true⟩ := by
      rw [LogItem.read, CurrentCommit.terminate, requireOpen_eq rfl, ok_bind,
        CurrentCommit.requireMatched, require_pos hmat]
      rfl
    rw [foldlM_cons, hterm, ok_bind, foldlM_nil]
    refine bind_eq_ok.mpr ⟨_, rfl, ?_⟩
    rw [CurrentCommit.requireMatched, require_pos hmat]
    exact hcm

/-! ### Limits -/

structure LogHeader.Limited (limits : GitStreamLimits) (h : LogHeader) : Prop where
  objectId : h.objectId.length ≤ limits.headerBytes
  timestamp : h.timestamp.length ≤ limits.headerBytes
  rawAuthor : h.rawAuthor.length ≤ limits.authorBytes
  canonicalAuthor : h.canonicalAuthor.length ≤ limits.authorBytes
  parents : h.parents.length ≤ limits.headerBytes

def LogItem.Limited (limits : GitStreamLimits) : LogItem → Prop
  | .blank _ | .terminator => True
  | .raw header source path => header.length ≤ limits.headerBytes ∧
      (∀ s ∈ source, s.length ≤ limits.pathBytes) ∧ path.length ≤ limits.pathBytes
  | .numstat added removed source path =>
      (added.length ≤ limits.headerBytes ∧ removed.length ≤ limits.headerBytes) ∧
      (∀ s ∈ source, s.length ≤ limits.pathBytes) ∧ path.length ≤ limits.pathBytes

/-- No field is longer than the parser's limit for it. -/
structure LogSection.Limited (limits : GitStreamLimits) (s : LogSection) : Prop where
  header : s.header.Limited limits
  items : ∀ item ∈ s.items, item.Limited limits

theorem zero_notMem_parents (h : ∀ p ∈ parents, IsObjectId p) :
    (0 : UInt8) ∉ [32].intercalate parents := by
  induction parents with
  | nil => simp [List.intercalate]
  | cons parent parents ih =>
    have hpar := objectId_chars (b := 0) (h parent (mem_cons_self ..)) (by decide)
    have hrs := ih fun p hp => h p (mem_cons_of_mem _ hp)
    cases parents with
    | nil => simpa [List.intercalate] using hpar
    | cons next parents =>
      simp only [List.intercalate, intersperse_cons_cons, flatten_cons, mem_append, not_or] at hrs ⊢
      exact ⟨hpar, by decide, hrs⟩

variable {limits : GitStreamLimits}

theorem Describes.header_within (h : Describes s record) (hlim : s.header.Limited limits) :
    s.header.Within limits where
  objectId := by
    rw [h.objectId]
    exact ⟨objectId_chars record.objectId_valid (by decide), h.objectId ▸ hlim.objectId⟩
  timestamp := ⟨h.timestamp.notMem (by decide) (by decide), hlim.timestamp⟩
  rawAuthor := ⟨by rw [h.rawAuthor]; exact record.authors_text.1, hlim.rawAuthor⟩
  canonicalAuthor :=
    ⟨by rw [h.canonicalAuthor]; exact record.authors_text.2, hlim.canonicalAuthor⟩
  parents :=
    ⟨by rw [h.parents]; exact zero_notMem_parents record.parents_valid, hlim.parents⟩

section Pieces

variable {σ : Type} {sink : GitCommitSink σ} {commits : List GitCommitAggregate}

theorem feed_split {a b : Bytes} {p p' : GitLogStreamParser}
    (h : p.feed ext cfg (a ++ b) = .ok (p', commits)) :
    ∃ q first rest, p.feed ext cfg a = .ok (q, first) ∧ q.feed ext cfg b = .ok (p', rest) ∧
      commits = first ++ rest := by
  induction a generalizing p commits with
  | nil => exact ⟨p, [], commits, rfl, h, rfl⟩
  | cons byte a ih =>
    obtain ⟨⟨q, cm⟩, hst, h⟩ := bind_eq_ok.mp h
    obtain ⟨⟨q', tail⟩, htl, h⟩ := bind_eq_ok.mp h
    cases h
    obtain ⟨r, first, rest, hf, hrs, rfl⟩ := ih htl
    refine ⟨r, cm.toList ++ first, rest, ?_, hrs, (append_assoc ..).symm⟩
    exact bind_eq_ok.mpr ⟨_, hst, bind_eq_ok.mpr ⟨_, hf, rfl⟩⟩

end Pieces

/-! ### Any stream -/

/-- The commit that a scan takes of a record. -/
def CommitRecord.given (ext : Externals) (config : GitLogParseConfig) (record : CommitRecord) :
    Option GitCommitAggregate :=
  if record.selected ext config then some (record.aggregate ext config.salt) else none

/-- The alphabet of the sample is ASCII. -/
def sampleExternals : Externals where
  sha256 := polynomialDigest
  fromUtf8 bytes := some (bytes.map fun b => Char.ofNat b.toNat)
  toLowercase c := [c.toLower]

def sampleEmail : Bytes := [97, 64, 98]

def sampleConfig : GitLogParseConfig where
  salt := Bytes32.replicate 7
  authors := [framedHash sampleExternals (ascii "tokenmaster.git.author.v1")
    [(Bytes32.replicate 7).asBytes, sampleEmail]]
  limits := .default
  authors_range := ⟨Nat.one_pos, by decide⟩
  authors_nodup := List.nodup_singleton _

/-- `a.rs` moved to `b.rs`, with three lines added and one removed. -/
def sampleChange : PathChange where
  oldMode := List.replicate 6 48
  newMode := List.replicate 6 48
  oldObject := [97]
  newObject := [98]
  status := .renamed 82 [57] [97, 46, 114, 115]
  path := [98, 46, 114, 115]
  category := .productCode
  lines := some ⟨3, 1⟩
  modes_valid := by decide
  objects_valid := by decide
  status_valid := ⟨by decide, by decide, .productCode, by decide +kernel⟩
  path_category := by decide +kernel
  lines_fit := by
    rintro l ⟨⟩
    decide

def sampleRecord : CommitRecord where
  objectId := List.replicate 40 97
  timestamp := 86400
  rawAuthor := sampleEmail
  canonicalAuthor := sampleEmail
  parents := []
  changes := [sampleChange]
  objectId_valid := by decide
  day_valid := by decide
  authors_text := by decide
  parents_valid := by simp
  parents_le := by decide
  merge_empty := by decide
  lines_fit := by decide

def sampleSection : LogSection where
  header := ⟨List.replicate 40 97, [56, 54, 52, 48, 48], sampleEmail, sampleEmail, []⟩
  items := [.blank 10, sampleChange.rawItem,
    .numstat [51] [49] (some [97, 46, 114, 115]) [98, 46, 114, 115], .terminator]

theorem sampleSection_describes : Describes sampleSection sampleRecord where
  objectId := rfl
  timestamp := .inl ⟨86400, ⟨by decide, all_eq_true.mp (by decide), by decide⟩, rfl⟩
  rawAuthor := rfl
  canonicalAuthor := rfl
  parents := rfl
  body := by
    refine ⟨[.blank 10, sampleChange.rawItem,
      .numstat [51] [49] (some [97, 46, 114, 115]) [98, 46, 114, 115]],
      [.numstat [51] [49] (some [97, 46, 114, 115]) [98, 46, 114, 115]], [.terminator],
      rfl, .inr rfl, rfl, .cons ⟨[51], [49], rfl, ?_⟩ .nil⟩
    exact ⟨⟨by decide, all_eq_true.mp (by decide), by decide⟩,
      ⟨by decide, all_eq_true.mp (by decide), by decide⟩⟩
  blanks := by
    intro byte hb
    simp [sampleSection, rawItem] at hb
    exact .inl hb

theorem sampleSection_limited : sampleSection.Limited sampleConfig.limits where
  header := ⟨by decide, by decide, by decide, by decide, by decide⟩
  items := by
    intro item hit
    simp only [sampleSection, mem_cons, not_mem_nil, or_false] at hit
    rcases hit with rfl | rfl | rfl | rfl
    · trivial
    · exact ⟨by decide, by rintro s ⟨⟩; decide, by decide⟩
    · exact ⟨by decide, by rintro s ⟨⟩; decide, by decide⟩
    · trivial

theorem sampleEmail_normalized : normalizeEmail sampleExternals sampleEmail = .ok sampleEmail := by
  decide +kernel

/-- A field that is read to its end kept the limit. -/
theorem feed_field_length {field rest : Bytes} {p : GitLogStreamParser} {terminator : UInt8}
    {limit : ℕ} {finish : GitLogStreamParser → Except GitCoreError GitLogStreamParser}
    {res : GitLogStreamParser × List GitCommitAggregate}
    (h : fieldOf ext cfg p.state = some (terminator, limit, finish))
    (hterm : terminator ∉ field) (htok : p.token.length ≤ limit)
    (hfeed : p.feed ext cfg (field ++ rest) = .ok res) :
    p.token.length + field.length ≤ limit := by
  induction field generalizing p res with
  | nil => simpa using htok
  | cons byte field ih =>
    rw [mem_cons, not_or] at hterm
    obtain ⟨⟨q, cm⟩, hq, hfeed⟩ := bind_eq_ok.mp hfeed
    obtain ⟨tail, htl, -⟩ := bind_eq_ok.mp hfeed
    rw [pushByte_of_fieldOf h, GitLogStreamParser.field, if_neg (Ne.symm hterm.1)] at hq
    obtain ⟨r, hr, hq⟩ := map_eq_ok.mp hq
    cases hq
    obtain ⟨_, hrm, hr⟩ := bind_eq_ok.mp hr
    cases hr
    have hrm := require_eq_ok.mp hrm
    have hrs := ih (p := { p with token := p.token ++ [byte] }) h hterm.2
      (by simp; omega) htl
    simp only [length_append, length_cons, length_nil] at hrs ⊢
    omega

theorem length_parents (parents : List Bytes) : ([32].intercalate parents).length =
    (parents.map length).sum + (parents.length - 1) := by
  induction parents with
  | nil => rfl
  | cons parent parents ih =>
    cases parents with
    | nil => simp [List.intercalate]
    | cons next parents =>
      simp only [List.intercalate, intersperse_cons_cons, flatten_cons, length_append, map_cons,
        sum_cons, length_cons, length_nil] at ih ⊢
      omega

/-- The record of the same commit without its parents. -/
def CommitRecord.withoutParents (record : CommitRecord) : CommitRecord :=
  { record with
    parents := [], parents_valid := by simp, parents_le := by simp, merge_empty := by simp }

/-- **The header limit allows far fewer parents than the parent limit.**  A valid header whose other
fields fit is accepted exactly if the ids of its parents, with a blank between two, have at most
`MAX_HEADER_BYTES` bytes. -/
theorem header_accepted_iff (ext : Externals) (config : GitLogParseConfig)
    (hlimits : config.limits = .default) (s : LogSection) (record : CommitRecord)
    (h : Describes s record) (hauthors : record.AuthorsAccepted ext)
    (hfields : LogHeader.Limited config.limits { s.header with parents := [] })
    (p : GitLogStreamParser) (hstate : p.state = .headerObjectId) (htoken : p.token = []) :
    (∃ p' current, p.feed ext config s.header.bytes = .ok (p', []) ∧ p'.InBody current) ↔
      (record.parents.map length).sum + (record.parents.length - 1) ≤ maxHeaderBytes := by
  rw [← length_parents, ← h.parents]
  have hlim : config.limits.headerBytes = maxHeaderBytes := by rw [hlimits]; rfl
  have hemp : Describes { s with header := { s.header with parents := [] } }
      record.withoutParents := { h with parents := rfl }
  constructor
  · rintro ⟨p', current, hfeed, -⟩
    have hrd : LogHeader.read ext config _ = _ := hemp.read_header hauthors
    obtain ⟨_, hid, hrd⟩ := bind_eq_ok.mp hrd
    obtain ⟨day, hday, hrd⟩ := bind_eq_ok.mp hrd
    obtain ⟨raw, hraw, hrd⟩ := bind_eq_ok.mp hrd
    obtain ⟨canonical, hcan, -⟩ := bind_eq_ok.mp hrd
    have hfro := feeds_before_parents (hemp.header_within hfields) hid hday hraw hcan
      hstate htoken (@feeds_nil _ _ _ (fun q => q.state = .headerParents ∧ q.token = []) ⟨rfl, rfl⟩)
    rw [LogHeader.bytes, append_assoc _ s.header.parents] at hfeed
    obtain ⟨q, _, _, hfed, hrs, -⟩ := feed_split hfeed
    simp only [append_assoc, cons_append, nil_append] at hfed
    obtain ⟨q', hq, hpare, hfr⟩ := hfro
    cases hq.symm.trans hfed
    have hz : (0 : UInt8) ∉ s.header.parents := by
      rw [h.parents]
      exact zero_notMem_parents record.parents_valid
    have hle := feed_field_length (by rw [hpare]; rfl) hz (by simp [hfr]) hrs
    rwa [hfr, length_nil, Nat.zero_add, hlim] at hle
  · intro hle
    have hwi := h.header_within { hfields with parents := hlim ▸ hle }
    obtain ⟨p', hfeed, hbd, -⟩ := feeds_header hwi (h.read_header hauthors) hstate htoken
    exact ⟨p', _, hfeed, hbd⟩

theorem header_accepted_iff_sample :
    ∃ p' current, GitLogStreamParser.new.startHeader.feed sampleExternals sampleConfig
      sampleSection.header.bytes = .ok (p', []) ∧ p'.InBody current :=
  (header_accepted_iff sampleExternals sampleConfig rfl sampleSection sampleRecord
    sampleSection_describes ⟨⟨_, sampleEmail_normalized⟩, _, sampleEmail_normalized⟩
    sampleSection_limited.header _ rfl rfl).mpr (by decide)

/-- A merge with `n` parents. -/
def mergeHeader (n : ℕ) : LogHeader :=
  { sampleSection.header with
    parents := [32].intercalate (List.replicate n (List.replicate 40 97)) }

/-- **Seven parents are too many**: the parser accepts the merge with six parents and refuses the one
with seven valid ids, which `parse_parent_count` takes. -/
theorem seven_parents_refused :
    (GitLogStreamParser.new.startHeader.feed sampleExternals sampleConfig
        (mergeHeader 6).bytes).toBool = true ∧
      ((GitLogStreamParser.new.startHeader.feed sampleExternals sampleConfig
        (mergeHeader 7).bytes).map fun _ => ()) = .error (.capacityExceeded 256) ∧
      IsObjectId (List.replicate 40 97) ∧ parseParentCount (mergeHeader 7).parents = .ok 7 := by
  decide +kernel

end TokenMaster.Git
