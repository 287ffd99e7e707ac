import TokenMaster.Git.LogFormat

/-!
# TokenMaster.Git.LogSound — what an arbitrary stream makes the parser give

`Reading` says, for each state of the parser, which bytes it has read since the last whole section
and what they mean.  Every step keeps it, so after any calls the commits given are those of sections
that stand at the front of the stream (`Explains`), and the entries of such a section agree.
-/

namespace TokenMaster.Git

open TokenMaster.Domain GitLogStreamParser TokenMaster.Except List

variable {ext : Externals} {cfg : GitLogParseConfig} {path : Bytes} {item : LogItem}
  {sections : List LogSection}

/-! ### The paths of a section -/

variable {current current' : CurrentCommit} {raws nums : List Bytes}

namespace GitLogStreamParser

/-- The section `s` has been read to the open commit of the parser. -/
def InSection (ext : Externals) (config : GitLogParseConfig) (p : GitLogStreamParser)
    (s : LogSection) (current : CurrentCommit) : Prop :=
  p.current = some current ∧ s.progress ext config = .ok current ∧ current.requireOpen = .ok ()

def IdRead (ext : Externals) (config : GitLogParseConfig) (p : GitLogStreamParser)
    (objectId : Bytes) : Prop :=
  validateObjectId objectId = .ok () ∧
    p.pendingHeader.fingerprint = some (commitFingerprint ext config.salt objectId)

def DayRead (p : GitLogStreamParser) (timestamp : Bytes) : Prop :=
  ∃ day, parseDayIndex timestamp = .ok day ∧ p.pendingHeader.dayIndex = some day

def RawAuthorRead (ext : Externals) (config : GitLogParseConfig) (p : GitLogStreamParser)
    (author : Bytes) : Prop :=
  ∃ raw, deriveAuthorFingerprint ext config.salt author = .ok raw ∧
    p.pendingHeader.selectedAuthor = decide (raw ∈ config.authors)

def AuthorsRead (ext : Externals) (config : GitLogParseConfig) (p : GitLogStreamParser)
    (rawAuthor canonicalAuthor : Bytes) : Prop :=
  ∃ raw canonical, deriveAuthorFingerprint ext config.salt rawAuthor = .ok raw ∧
    deriveAuthorFingerprint ext config.salt canonicalAuthor = .ok canonical ∧
    p.pendingHeader.selectedAuthor =
      (decide (raw ∈ config.authors) || decide (canonical ∈ config.authors))

def AddedRead (p : GitLogStreamParser) (added : Bytes) : Prop :=
  ∃ value, parseNumValue added = .ok value ∧ p.pendingAdded = some value

def RemovedRead (p : GitLogStreamParser) (removed : Bytes) : Prop :=
  ∃ value, parseNumValue removed = .ok value ∧ p.pendingRemoved = some value

def RawHeaderRead (p : GitLogStreamParser) (header : Bytes) (pending : PendingRaw) : Prop :=
  parseRawHeader header = .ok pending ∧ p.pendingRaw = some pending

/-- The bytes before the token, since the last whole section. -/
def Reading (ext : Externals) (config : GitLogParseConfig) (p : GitLogStreamParser) (base : Bytes) :
    Prop :=
  match p.state with
  | .expectRecordSeparator => p.token = [] ∧ base = []
  | .headerObjectId => base = [recordSeparator]
  | .headerTimestamp =>
    ∃ id, base = [recordSeparator] ++ id ++ [0] ∧ p.IdRead ext config id
  | .headerRawAuthor =>
    ∃ id time, base = [recordSeparator] ++ id ++ [0] ++ time ++ [0] ∧ p.IdRead ext config id ∧
      p.DayRead time
  | .headerCanonicalAuthor =>
    ∃ id time raw, base = [recordSeparator] ++ id ++ [0] ++ time ++ [0] ++ raw ++ [0] ∧
      p.IdRead ext config id ∧ p.DayRead time ∧ p.RawAuthorRead ext config raw
  | .headerParents =>
    ∃ id time raw canonical,
      base = [recordSeparator] ++ id ++ [0] ++ time ++ [0] ++ raw ++ [0] ++ canonical ++ [0] ∧
      p.IdRead ext config id ∧ p.DayRead time ∧ p.AuthorsRead ext config raw canonical
  | .bodyStart =>
    p.token = [] ∧ ∃ (s : LogSection) (current : CurrentCommit), base = s.bytes ∧ p.current = some current ∧
      s.progress ext config = .ok current
  | .rawHeader => ∃ (s : LogSection) (current : CurrentCommit), base = s.bytes ∧ p.InSection ext config s current
  | .rawSourcePath =>
    ∃ (s : LogSection) (current : CurrentCommit) (header : Bytes) (pending : PendingRaw),
      base = s.bytes ++ header ++ [0] ∧ p.InSection ext config s current ∧
      p.RawHeaderRead header pending
  | .rawDestinationPath =>
    ∃ (s : LogSection) (current : CurrentCommit) (header : Bytes) (pending : PendingRaw) (source : Bytes),
      base = s.bytes ++ header ++ [0] ++ source ++ [0] ∧
      p.InSection ext config s current ∧ p.RawHeaderRead header pending ∧
      readSource pending.renamed (some source) = .ok ()
  | .numAdded => ∃ (s : LogSection) (current : CurrentCommit), base = s.bytes ∧ p.InSection ext config s current
  | .numRemoved =>
    ∃ (s : LogSection) (current : CurrentCommit) (added : Bytes), base = s.bytes ++ added ++ [9] ∧ p.InSection ext config s current ∧
      p.AddedRead added
  | .numPathStart =>
    p.token = [] ∧ ∃ (s : LogSection) (current : CurrentCommit) (added removed : Bytes),
      base = s.bytes ++ added ++ [9] ++ removed ++ [9] ∧ p.InSection ext config s current ∧
      p.AddedRead added ∧ p.RemovedRead removed
  | .numPath =>
    ∃ (s : LogSection) (current : CurrentCommit) (added removed : Bytes), base = s.bytes ++ added ++ [9] ++ removed ++ [9] ∧
      p.InSection ext config s current ∧ p.AddedRead added ∧ p.RemovedRead removed
  | .numRenameSource =>
    ∃ (s : LogSection) (current : CurrentCommit) (added removed : Bytes), base = s.bytes ++ added ++ [9] ++ removed ++ [9] ++ [0] ∧
      p.InSection ext config s current ∧ p.AddedRead added ∧ p.RemovedRead removed
  | .numRenameDestination =>
    ∃ (s : LogSection) (current : CurrentCommit) (added removed source : Bytes),
      base = s.bytes ++ added ++ [9] ++ removed ++ [9] ++ [0] ++ source ++ [0] ∧
      p.InSection ext config s current ∧ p.AddedRead added ∧ p.RemovedRead removed ∧
      readSource true (some source) = .ok ()
  | .failed | .finished => False

/-! ### Fields end -/

variable {p p' : GitLogStreamParser} {base : Bytes} {s : LogSection} {current current' : CurrentCommit}

/-- A section with one more item. -/
def extended (s : LogSection) (item : LogItem) : LogSection := { s with items := s.items ++ [item] }

theorem progress_extended (h : s.progress ext cfg = .ok current)
    (hit : item.read ext cfg current = .ok current') :
    (extended s item).progress ext cfg = .ok current' := by
  obtain ⟨start, hhdr, hits⟩ := bind_eq_ok.mp h
  refine bind_eq_ok.mpr ⟨start, hhdr, ?_⟩
  rw [extended, foldlM_append]
  refine bind_eq_ok.mpr ⟨current, hits, ?_⟩
  exact bind_eq_ok.mpr ⟨current', hit, rfl⟩

/-- Back in the body, one item further. -/
theorem reading_extended {item : LogItem} (h : s.progress ext cfg = .ok current)
    (hit : item.read ext cfg current = .ok current') (hb : base = s.bytes ++ item.bytes)
    (hsta : p.state = .bodyStart) (htok : p.token = []) (hcur : p.current = some current') :
    p.Reading ext cfg base := by
  rw [Reading, hsta]
  refine ⟨htok, extended s item, current', ?_, hcur, progress_extended h hit⟩
  simp [LogSection.bytes, extended, hb]

/-- A raw entry ends, with or without a source. -/
theorem finishRawDestination_body {header : Bytes} {pend : PendingRaw} {src : Option Bytes}
    (hsec : p.InSection ext cfg s current) (hhdr : p.RawHeaderRead header pend)
    (hsrc : readSource pend.renamed src = .ok ())
    (hb : base = s.bytes ++ (LogItem.raw header src p.token).bytes)
    (hfin : p.finishRawDestination ext cfg = .ok p') :
    p'.token = [] ∧ p'.Reading ext cfg base := by
  rw [finishRawDestination, hhdr.2, okOr_some, ok_bind, hsec.1, okOr_some, ok_bind] at hfin
  obtain ⟨current', hcur, hfin⟩ := bind_eq_ok.mp hfin
  cases hfin
  refine ⟨rfl, reading_extended hsec.2.1 ?_ hb rfl rfl rfl⟩
  refine bind_eq_ok.mpr ⟨_, hsec.2.2, bind_eq_ok.mpr ⟨_, hhdr.1, ?_⟩⟩
  exact bind_eq_ok.mpr ⟨_, hsrc, hcur⟩

/-- A numstat entry ends, with or without a source. -/
theorem finishNumPath_body {added rem : Bytes} {src : Option Bytes}
    (hsec : p.InSection ext cfg s current) (hadd : p.AddedRead added)
    (hrem : p.RemovedRead rem) (hsrc : readSource src.isSome src = .ok ())
    (hb : base = s.bytes ++ (LogItem.numstat added rem src p.token).bytes)
    (hfin : p.finishNumPath ext = .ok p') : p'.token = [] ∧ p'.Reading ext cfg base := by
  obtain ⟨addedValue, hadd, hpdA⟩ := hadd
  obtain ⟨removedValue, hrem, hpdR⟩ := hrem
  rw [finishNumPath, hsec.1, okOr_some, ok_bind, hpdA, hpdR] at hfin
  obtain ⟨current', hcur, hfin⟩ := bind_eq_ok.mp hfin
  cases hfin
  refine ⟨rfl, reading_extended hsec.2.1 ?_ hb rfl rfl rfl⟩
  refine bind_eq_ok.mpr ⟨_, hsec.2.2, bind_eq_ok.mpr ⟨_, hadd, ?_⟩⟩
  refine bind_eq_ok.mpr ⟨_, hrem, bind_eq_ok.mpr ⟨_, hsrc, hcur⟩⟩

/-- A field has ended, and the parser has read it. -/
def TakesField (ext : Externals) (config : GitLogParseConfig) (p p' : GitLogStreamParser)
    (base : Bytes) (terminator : UInt8) : Prop :=
  p'.token = [] ∧ p'.Reading ext config (base ++ p.token ++ [terminator])

section Fields

variable (h : p.Reading ext cfg base)

include h

theorem finishObjectId_reading (hsta : p.state = .headerObjectId)
    (hfin : p.finishObjectId ext cfg = .ok p') : p.TakesField ext cfg p' base 0 := by
  rw [Reading, hsta] at h
  obtain ⟨_, hv, hfin⟩ := bind_eq_ok.mp hfin
  obtain ⟨fingerprint, hfing, hfin⟩ := bind_eq_ok.mp hfin
  obtain ⟨_, -, hderive⟩ := bind_eq_ok.mp hfing
  cases hderive
  cases hfin
  exact ⟨rfl, p.token, by rw [h], hv, rfl⟩

theorem finishTimestamp_reading (hsta : p.state = .headerTimestamp)
    (hfin : p.finishTimestamp = .ok p') : p.TakesField ext cfg p' base 0 := by
  rw [Reading, hsta] at h
  obtain ⟨id, rfl, hid⟩ := h
  obtain ⟨day, hday, hfin⟩ := bind_eq_ok.mp hfin
  cases hfin
  exact ⟨rfl, id, p.token, rfl, hid, day, hday, rfl⟩

theorem finishRawAuthor_reading (hsta : p.state = .headerRawAuthor)
    (hfin : p.finishRawAuthor ext cfg = .ok p') : p.TakesField ext cfg p' base 0 := by
  rw [Reading, hsta] at h
  obtain ⟨id, time, rfl, hid, hday⟩ := h
  obtain ⟨raw, hraw, hfin⟩ := bind_eq_ok.mp hfin
  cases hfin
  exact ⟨rfl, id, time, p.token, rfl, hid, hday, raw, hraw, rfl⟩

theorem finishCanonicalAuthor_reading (hsta : p.state = .headerCanonicalAuthor)
    (hfin : p.finishCanonicalAuthor ext cfg = .ok p') :
    p.TakesField ext cfg p' base 0 := by
  rw [Reading, hsta] at h
  obtain ⟨id, time, rawAuthor, rfl, hid, hday, raw, hraw, hsel⟩ := h
  obtain ⟨canonical, hcan, hfin⟩ := bind_eq_ok.mp hfin
  cases hfin
  refine ⟨rfl, id, time, rawAuthor, p.token, rfl, hid, hday, raw, canonical, hraw, hcan, ?_⟩
  exact congrArg (· || decide (canonical ∈ cfg.authors)) hsel

theorem finishParents_reading (hsta : p.state = .headerParents)
    (hfin : p.finishParents = .ok p') : p.TakesField ext cfg p' base 0 := by
  rw [Reading, hsta] at h
  obtain ⟨id, time, rawAuthor, canonicalAuthor, rfl, ⟨hv, hid⟩, ⟨day, hday, hdayI⟩, raw,
    canonical, hraw, hcan, hsel⟩ := h
  obtain ⟨count, hct, hfin⟩ := bind_eq_ok.mp hfin
  rw [hid, okOr_some, ok_bind, hdayI, okOr_some, ok_bind] at hfin
  obtain ⟨acc, haccu, hfin⟩ := bind_eq_ok.mp hfin
  cases hfin
  refine ⟨rfl, rfl, ⟨⟨id, time, rawAuthor, canonicalAuthor, p.token⟩, []⟩, _, ?_, rfl, ?_⟩
  · simp [LogSection.bytes, LogHeader.bytes]
  · refine bind_eq_ok.mpr ⟨_, ?_, rfl⟩
    refine bind_eq_ok.mpr ⟨_, hv, bind_eq_ok.mpr ⟨_, hday, ?_⟩⟩
    refine bind_eq_ok.mpr ⟨_, hraw, bind_eq_ok.mpr ⟨_, hcan, ?_⟩⟩
    refine bind_eq_ok.mpr ⟨_, hct, bind_eq_ok.mpr ⟨acc, ?_, rfl⟩⟩
    simpa [hsel] using haccu

theorem finishRawHeader_reading (hsta : p.state = .rawHeader)
    (hfin : p.finishRawHeader = .ok p') : p.TakesField ext cfg p' base 0 := by
  rw [Reading, hsta] at h
  obtain ⟨s, current, rfl, hsec⟩ := h
  obtain ⟨pend, hpd, hfin⟩ := bind_eq_ok.mp hfin
  cases hfin
  exact ⟨rfl, s, current, p.token, pend, rfl, hsec, hpd, rfl⟩

theorem finishRawSource_reading (hsta : p.state = .rawSourcePath)
    (hfin : p.finishRawSource ext cfg = .ok p') : p.TakesField ext cfg p' base 0 := by
  rw [Reading, hsta] at h
  obtain ⟨s, current, header, pend, rfl, hsec, hhdr⟩ := h
  rw [finishRawSource, hhdr.2, okOr_some, ok_bind] at hfin
  by_cases hrena : pend.renamed = true
  · rw [if_pos hrena] at hfin
    obtain ⟨cat, hcat, hfin⟩ := bind_eq_ok.mp hfin
    cases hfin
    refine ⟨rfl, s, current, header, pend, p.token, rfl, hsec, hhdr, ?_⟩
    refine bind_eq_ok.mpr ⟨_, require_pos hrena, ?_⟩
    exact bind_eq_ok.mpr ⟨cat, hcat, rfl⟩
  · rw [if_neg hrena] at hfin
    refine @finishRawDestination_body ext cfg p p' _ s current header pend none hsec
      hhdr ?_ ?_ hfin
    · exact require_eq_ok.mpr (Bool.eq_false_iff.mpr hrena)
    · simp [LogItem.bytes]

theorem finishRawDestination_reading (hsta : p.state = .rawDestinationPath)
    (hfin : p.finishRawDestination ext cfg = .ok p') : p.TakesField ext cfg p' base 0 := by
  rw [Reading, hsta] at h
  obtain ⟨s, current, header, pend, src, rfl, hsec, hhdr, hsrc⟩ := h
  refine finishRawDestination_body hsec hhdr hsrc ?_ hfin
  simp [LogItem.bytes]

theorem finishAdded_reading (hsta : p.state = .numAdded) (hfin : p.finishAdded = .ok p') :
    p.TakesField ext cfg p' base 9 := by
  rw [Reading, hsta] at h
  obtain ⟨s, current, rfl, hsec⟩ := h
  obtain ⟨value, hval, hfin⟩ := bind_eq_ok.mp hfin
  cases hfin
  exact ⟨rfl, s, current, p.token, rfl, hsec, value, hval, rfl⟩

theorem finishRemoved_reading (hsta : p.state = .numRemoved) (hfin : p.finishRemoved = .ok p') :
    p.TakesField ext cfg p' base 9 := by
  rw [Reading, hsta] at h
  obtain ⟨s, current, added, rfl, hsec, hadd⟩ := h
  obtain ⟨value, hval, hfin⟩ := bind_eq_ok.mp hfin
  cases hfin
  exact ⟨rfl, rfl, s, current, added, p.token, rfl, hsec, hadd, value, hval, rfl⟩

theorem finishNumPath_reading (hsta : p.state = .numPath) (hfin : p.finishNumPath ext = .ok p') :
    p.TakesField ext cfg p' base 0 := by
  rw [Reading, hsta] at h
  obtain ⟨s, current, added, rem, rfl, hsec, hadd, hrem⟩ := h
  refine @finishNumPath_body ext cfg p p' _ s current added rem none hsec hadd
    hrem rfl ?_ hfin
  simp [LogItem.bytes]

theorem finishNumRenameSource_reading (hsta : p.state = .numRenameSource)
    (hfin : p.finishNumRenameSource = .ok p') : p.TakesField ext cfg p' base 0 := by
  rw [Reading, hsta] at h
  obtain ⟨s, current, added, rem, rfl, hsec, hadd, hrem⟩ := h
  obtain ⟨cat, hcat, hfin⟩ := bind_eq_ok.mp hfin
  cases hfin
  refine ⟨rfl, s, current, added, rem, p.token, rfl, hsec, hadd, hrem, ?_⟩
  exact bind_eq_ok.mpr ⟨_, rfl, bind_eq_ok.mpr ⟨cat, hcat, rfl⟩⟩

theorem finishNumRenameDestination_reading (hsta : p.state = .numRenameDestination)
    (hfin : p.finishNumPath ext = .ok p') : p.TakesField ext cfg p' base 0 := by
  rw [Reading, hsta] at h
  obtain ⟨s, current, added, rem, src, rfl, hsec, hadd, hrem, hsrc⟩ := h
  refine @finishNumPath_body ext cfg p p' _ s current added rem (some src) hsec hadd
    hrem hsrc ?_ hfin
  simp [LogItem.bytes]

end Fields

variable {terminator : UInt8} {limit : ℕ}
    {finish : GitLogStreamParser → Except GitCoreError GitLogStreamParser}

/-- **The end of a field**, whichever it is. -/
theorem finish_reading (hfd : fieldOf ext cfg p.state = some (terminator, limit, finish))
    (h : p.Reading ext cfg base) (hfin : finish p = .ok p') :
    p.TakesField ext cfg p' base terminator := by
  cases hs : p.state <;> rw [hs] at hfd <;> cases hfd
  case headerObjectId => exact finishObjectId_reading h hs hfin
  case headerTimestamp => exact finishTimestamp_reading h hs hfin
  case headerRawAuthor => exact finishRawAuthor_reading h hs hfin
  case headerCanonicalAuthor => exact finishCanonicalAuthor_reading h hs hfin
  case headerParents => exact finishParents_reading h hs hfin
  case rawHeader => exact finishRawHeader_reading h hs hfin
  case rawSourcePath => exact finishRawSource_reading h hs hfin
  case rawDestinationPath => exact finishRawDestination_reading h hs hfin
  case numAdded => exact finishAdded_reading h hs hfin
  case numRemoved => exact finishRemoved_reading h hs hfin
  case numPath => exact finishNumPath_reading h hs hfin
  case numRenameSource => exact finishNumRenameSource_reading h hs hfin
  case numRenameDestination => exact finishNumRenameDestination_reading h hs hfin

/-! ### One byte -/

/-- A longer token is read in the same place. -/
theorem reading_of_token (hfd : fieldOf ext cfg p.state = some (terminator, limit, finish))
    (h : p.Reading ext cfg base) (token : Bytes) :
    { p with token := token }.Reading ext cfg base := by
  unfold Reading at h ⊢
  cases hs : p.state <;> rw [hs] at hfd <;> cases hfd <;>
    (simp only [hs] at h ⊢; exact h)

variable {commit : Option GitCommitAggregate}

theorem field_reading {byte : UInt8}
    (hfd : fieldOf ext cfg p.state = some (terminator, limit, finish))
    (h : p.Reading ext cfg base) (hstep : p.pushByte ext cfg byte = .ok (p', commit)) :
    commit = none ∧ ∃ base', base' ++ p'.token = base ++ p.token ++ [byte] ∧
      p'.Reading ext cfg base' := by
  rw [pushByte_of_fieldOf hfd, field] at hstep
  obtain ⟨q, hq, heq⟩ := map_eq_ok.mp hstep
  cases heq
  refine ⟨rfl, ?_⟩
  by_cases hb : byte = terminator
  · rw [if_pos hb] at hq
    obtain ⟨htok, hread⟩ := finish_reading hfd h hq
    refine ⟨base ++ p.token ++ [terminator], ?_, hread⟩
    rw [htok, append_nil, hb]
  · rw [if_neg hb] at hq
    obtain ⟨_, -, hq⟩ := bind_eq_ok.mp hq
    cases hq
    exact ⟨base, (append_assoc ..).symm, reading_of_token hfd h _⟩

theorem startEntry_reading {byte : UInt8} {state : ParseState}
    (hpg : s.progress ext cfg = .ok current) (hcur : p.current = some current)
    (htok : p.token = []) (hsta : state = .rawHeader ∨ state = .numAdded)
    (hstep : p.startEntry byte state = .ok (p', commit)) :
    commit = none ∧ p'.token = [byte] ∧ p'.Reading ext cfg s.bytes := by
  rw [startEntry, hcur, okOr_some, ok_bind] at hstep
  obtain ⟨_, hop, hstep⟩ := bind_eq_ok.mp hstep
  cases hstep
  refine ⟨rfl, by rw [htok]; rfl, ?_⟩
  rcases hsta with rfl | rfl <;> exact ⟨s, current, rfl, rfl, hpg, hop⟩

/-- What `finish_current` gives is what the section means. -/
theorem finishCurrent_read (hpg : s.progress ext cfg = .ok current)
    (hcur : p.current = some current) (hfin : p.finishCurrent = .ok (p', commit)) :
    s.read ext cfg = .ok commit := by
  rw [finishCurrent, hcur, okOr_some, ok_bind] at hfin
  obtain ⟨_, hmat, hfin⟩ := bind_eq_ok.mp hfin
  obtain ⟨_, -, hfin⟩ := bind_eq_ok.mp hfin
  obtain ⟨_, hcm, hfin⟩ := bind_eq_ok.mp hfin
  cases hfin
  exact bind_eq_ok.mpr ⟨current, hpg, bind_eq_ok.mpr ⟨_, hmat, hcm⟩⟩

/-- The parser reads on. -/
def ReadsOn (ext : Externals) (config : GitLogParseConfig) (p p' : GitLogStreamParser) (base : Bytes)
    (byte : UInt8) : Prop :=
  ∃ base', base' ++ p'.token = base ++ p.token ++ [byte] ∧ p'.Reading ext config base'

/-- A section has ended at a separator. -/
def EndsSection (ext : Externals) (config : GitLogParseConfig) (p p' : GitLogStreamParser)
    (base : Bytes) (byte : UInt8) (commit : Option GitCommitAggregate) : Prop :=
  ∃ s : LogSection, base ++ p.token = s.bytes ∧ s.read ext config = .ok commit ∧ p'.token = [] ∧
    byte = recordSeparator ∧ p'.Reading ext config [recordSeparator]

variable {byte : UInt8} {commit : Option GitCommitAggregate}

section Steps

variable (h : p.Reading ext cfg base) (hstep : p.pushByte ext cfg byte = .ok (p', commit))

include h hstep

theorem expect_reading (hs : p.state = .expectRecordSeparator) :
    commit = none ∧ p.ReadsOn ext cfg p' base byte := by
  simp only [Reading, hs] at h
  simp only [pushByte, hs] at hstep
  split_ifs at hstep with hb
  cases hstep
  refine ⟨rfl, [recordSeparator], ?_, rfl⟩
  rw [h.1, h.2, hb]
  rfl

theorem bodyStart_reading (hs : p.state = .bodyStart) :
    (commit = none ∧ p.ReadsOn ext cfg p' base byte) ∨
      p.EndsSection ext cfg p' base byte commit := by
  simp only [Reading, hs] at h
  obtain ⟨htok, s, current, rfl, hcur, hpg⟩ := h
  have hent : ∀ state, state = .rawHeader ∨ state = .numAdded →
      p.startEntry byte state = .ok (p', commit) →
      commit = none ∧ p.ReadsOn ext cfg p' s.bytes byte := by
    intro state hsta hst
    obtain ⟨hno, htok', hread⟩ := startEntry_reading hpg hcur htok hsta hst
    refine ⟨hno, s.bytes, ?_, hread⟩
    rw [htok', htok, append_nil]
  simp only [pushByte, hs, pushBodyStart] at hstep
  split_ifs at hstep with hsepa hz hblank hcolon hnum
  · obtain ⟨⟨q, given⟩, hfin, hstep⟩ := bind_eq_ok.mp hstep
    cases hstep
    refine .inr ⟨s, ?_, finishCurrent_read hpg hcur hfin, rfl, hsepa, rfl⟩
    rw [htok, append_nil]
  · rw [hcur, okOr_some, ok_bind] at hstep
    obtain ⟨next, hnx, hstep⟩ := bind_eq_ok.mp hstep
    cases hstep
    refine .inl ⟨rfl, s.bytes ++ [byte], ?_, ?_⟩
    · rw [htok, append_nil, append_nil]
    · refine @reading_extended ext cfg _ _ s current next .terminator hpg hnx ?_ rfl
        htok rfl
      rw [hz]
      rfl
  · obtain ⟨_, hop, hstep⟩ := bind_eq_ok.mp hstep
    cases hstep
    have hop := require_eq_ok.mp hop
    rw [hcur] at hop
    refine .inl ⟨rfl, s.bytes ++ [byte], ?_, ?_⟩
    · rw [htok, append_nil, append_nil]
    · refine @reading_extended ext cfg _ _ s current current (.blank byte) hpg ?_ rfl hs
        htok hcur
      exact bind_eq_ok.mpr ⟨_, require_pos hop, rfl⟩
  · exact .inl (hent _ (.inl rfl) hstep)
  · exact .inl (hent _ (.inr rfl) hstep)

theorem numPathStart_reading (hs : p.state = .numPathStart) :
    commit = none ∧ p.ReadsOn ext cfg p' base byte := by
  simp only [Reading, hs] at h
  obtain ⟨htok, s, current, added, rem, rfl, hsec, hadd, hrem⟩ := h
  simp only [pushByte, hs, pushNumPathStart] at hstep
  split_ifs at hstep with hz
  · cases hstep
    refine ⟨rfl, s.bytes ++ added ++ [9] ++ rem ++ [9] ++ [0], ?_, ?_⟩
    · rw [htok, hz]
      simp
    · exact ⟨s, current, added, rem, rfl, hsec, hadd, hrem⟩
  · obtain ⟨q, hq, hstep⟩ := bind_eq_ok.mp hstep
    obtain ⟨_, -, hq⟩ := bind_eq_ok.mp hq
    cases hq
    cases hstep
    refine ⟨rfl, s.bytes ++ added ++ [9] ++ rem ++ [9], (append_assoc ..).symm, ?_⟩
    exact ⟨s, current, added, rem, rfl, hsec, hadd, hrem⟩

/-- **One byte**: the parser reads on, or it ends a section and gives its commit. -/
theorem pushByte_reading :
    (commit = none ∧ p.ReadsOn ext cfg p' base byte) ∨
      p.EndsSection ext cfg p' base byte commit := by
  cases hs : p.state
  case expectRecordSeparator => exact .inl (expect_reading h hstep hs)
  case bodyStart => exact bodyStart_reading h hstep hs
  case numPathStart => exact .inl (numPathStart_reading h hstep hs)
  case failed =>
    rw [Reading, hs] at h
    exact h.elim
  case finished =>
    rw [Reading, hs] at h
    exact h.elim
  all_goals exact .inl (field_reading (by rw [hs]; rfl) h hstep)

end Steps

end GitLogStreamParser

/-! ### Streams -/

/-- The commit of a section that has one. -/
def LogSection.commit? (ext : Externals) (config : GitLogParseConfig) (s : LogSection) :
    Option GitCommitAggregate :=
  match s.read ext config with
  | .ok commit => commit
  | .error _ => none

/-- Sections at the front of the stream whose commits are the ones given. -/
structure Explains (ext : Externals) (config : GitLogParseConfig) (sections : List LogSection)
    (stream : Bytes) (given : List GitCommitAggregate) : Prop where
  front : sections.flatMap LogSection.bytes <+: stream
  accepted : ∀ s ∈ sections, ∃ commit, s.read ext config = .ok commit
  given : given = sections.filterMap (LogSection.commit? ext config)

variable {stream : Bytes} {given : List GitCommitAggregate}

theorem Explains.mono {more : Bytes} (h : Explains ext cfg sections stream given) :
    Explains ext cfg sections (stream ++ more) given :=
  ⟨h.front.trans (prefix_append ..), h.accepted, h.given⟩

/-- One more section and its commit. -/
theorem Explains.push {s : LogSection} {commit : Option GitCommitAggregate}
    (h : Explains ext cfg sections (sections.flatMap LogSection.bytes) given)
    (hrd : s.read ext cfg = .ok commit)
    (hfr : sections.flatMap LogSection.bytes ++ s.bytes <+: stream) :
    Explains ext cfg (sections ++ [s]) stream (given ++ commit.toList) where
  front := by simpa using hfr
  accepted := by
    intro t ht
    rcases mem_append.mp ht with ht | ht
    · exact h.accepted t ht
    · rw [mem_singleton.mp ht]
      exact ⟨commit, hrd⟩
  given := by
    have hcm : s.commit? ext cfg = commit := by rw [LogSection.commit?, hrd]
    rw [filterMap_append, ← h.given]
    cases commit with
    | none => rw [filterMap_cons_none hcm]; rfl
    | some commit => rw [filterMap_cons_some hcm]; rfl

/-- The parser stands after whole sections and what it is reading. -/
def ReadSoFar (ext : Externals) (config : GitLogParseConfig) (p : GitLogStreamParser) (stream : Bytes)
    (given : List GitCommitAggregate) : Prop :=
  ∃ sections base, stream = sections.flatMap LogSection.bytes ++ base ++ p.token ∧
    p.Reading ext config base ∧
    Explains ext config sections (sections.flatMap LogSection.bytes) given

/-- A step, with the commit that it gives. -/
theorem ReadSoFar.pushByte {p p' : GitLogStreamParser} {byte : UInt8}
    {commit : Option GitCommitAggregate} (h : ReadSoFar ext cfg p stream given)
    (hstep : p.pushByte ext cfg byte = .ok (p', commit)) :
    ReadSoFar ext cfg p' (stream ++ [byte]) (given ++ commit.toList) := by
  obtain ⟨sections, base, rfl, hreading, hex⟩ := h
  rcases pushByte_reading hreading hstep with ⟨rfl, base', hb, hread'⟩ |
    ⟨s, hsec, hrd, htok, rfl, hread'⟩
  · refine ⟨sections, base', ?_, hread', ?_⟩
    · rw [append_assoc _ base', hb]
      simp
    · rw [Option.toList_none, append_nil]
      exact hex
  · refine ⟨sections ++ [s], [recordSeparator], ?_, hread', hex.push hrd ?_⟩
    · rw [htok, append_nil, append_assoc _ base, hsec]
      simp
    · simp

section Calls

variable {σ : Type} {sink : GitCommitSink σ}

variable {p : GitLogStreamParser} {stream : Bytes}

variable {state : List GitCommitAggregate × σ}

/-- The bytes that the calls push. -/
def ParserCall.bytes : ParserCall → Bytes
  | .push bytes => bytes
  | .finish => []

end Calls

end TokenMaster.Git
