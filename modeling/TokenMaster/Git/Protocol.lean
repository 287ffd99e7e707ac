import TokenMaster.Git.Classify
import TokenMaster.Git.Identity
import TokenMaster.Lib.Decimal

/-!
# TokenMaster.Git.Protocol — the parser of a `git log` stream

`crates/git/src/protocol.rs`.  The parser takes one byte at a time.  A step that ends a record gives
the commit to the sink; a step that fails leaves the parser in `failed`, so an error carries no state.
`emitted_commits`, which only `Debug` shows, is left out.
-/

namespace TokenMaster.Git

open TokenMaster.Domain

def recordSeparator : UInt8 := 0x1e
def maxHeaderBytes : ℕ := 256
def maxAuthors : ℕ := 16
def maxGitScannedCommits : ℕ := 200000

/-! ### Configuration -/

structure GitStreamLimits where
  headerBytes : ℕ
  authorBytes : ℕ
  pathBytes : ℕ
  pathsPerCommit : ℕ
  header_range : 0 < headerBytes ∧ headerBytes ≤ maxHeaderBytes
  author_range : 0 < authorBytes ∧ authorBytes ≤ maxGitAuthorBytes
  path_range : 0 < pathBytes ∧ pathBytes ≤ maxGitPathBytes
  paths_range : 0 < pathsPerCommit ∧ pathsPerCommit ≤ maxGitPathsPerCommit

def GitStreamLimits.new (headerBytes authorBytes pathBytes pathsPerCommit : ℕ) :
    Except GitCoreError GitStreamLimits :=
  if h : (0 < headerBytes ∧ headerBytes ≤ maxHeaderBytes) ∧
      (0 < authorBytes ∧ authorBytes ≤ maxGitAuthorBytes) ∧
      (0 < pathBytes ∧ pathBytes ≤ maxGitPathBytes) ∧
      0 < pathsPerCommit ∧ pathsPerCommit ≤ maxGitPathsPerCommit then
    .ok ⟨headerBytes, authorBytes, pathBytes, pathsPerCommit, h.1, h.2.1, h.2.2.1, h.2.2.2⟩
  else .error .invalidLimit

def GitStreamLimits.default : GitStreamLimits where
  headerBytes := maxHeaderBytes
  authorBytes := maxGitAuthorBytes
  pathBytes := maxGitPathBytes
  pathsPerCommit := maxGitPathsPerCommit
  header_range := by decide
  author_range := by decide
  path_range := by decide
  paths_range := by decide

/-- The authors are kept sorted for a binary search, which is membership here. -/
structure GitLogParseConfig where
  salt : Bytes32
  authors : List Bytes32
  limits : GitStreamLimits
  authors_range : 0 < authors.length ∧ authors.length ≤ maxAuthors
  authors_nodup : authors.Nodup

def GitLogParseConfig.new (salt : Bytes32) (authors : List Bytes32) (limits : GitStreamLimits) :
    Except GitCoreError GitLogParseConfig :=
  if hrange : 0 < authors.length ∧ authors.length ≤ maxAuthors then
    if hnodup : authors.Nodup then .ok ⟨salt, authors, limits, hrange, hnodup⟩
    else .error .duplicateValue
  else .error (.capacityExceeded maxAuthors)

/-! ### Fields of a record -/

inductive RawKind where
  | textOrBinary
  | submodule

structure RawEntry where
  destinationHash : Bytes32
  kind : RawKind

structure PendingRaw where
  kind : RawKind
  renamed : Bool

inductive NumValue where
  | text (lines : ℕ)
  | binary

def parseI64 (value : Bytes) : Except GitCoreError ℤ :=
  Except.okOr .invalidTimestamp (parseSigned (2 ^ 63) value)

/-- The day of a timestamp, checked as an `i32` and as a day of the projection. -/
def parseDayIndex (value : Bytes) : Except GitCoreError ℤ := do
  let timestamp ← parseI64 value
  let day := timestamp / 86400
  Except.require .invalidTimestamp (-2 ^ 31 ≤ day ∧ day < 2 ^ 31)
  let day ← (GitOutputDay.new day 0 0 0).mapError fun _ => GitCoreError.invalidTimestamp
  return day.dayIndex

def parseParentCount (value : Bytes) : Except GitCoreError ℕ :=
  if value = [] then .ok 0
  else (value.splitOn 32).foldlM (fun count parent => do
    validateObjectId parent
    Except.require (.capacityExceeded 64) (count + 1 ≤ 64)
    return count + 1) 0

def validMode (value : Bytes) : Bool :=
  value.length = 6 && value.all fun byte => 48 ≤ byte && byte ≤ 55

def validObject (value : Bytes) : Bool :=
  !value.isEmpty && value.length ≤ 64 && value.all isAsciiHexDigit

/-- The letters of a status without a score. -/
def plainStatuses : Bytes := ascii "ADMTUXB"

/-- The letters of a rename and of a copy. -/
def renameStatuses : Bytes := ascii "RC"

def validStatus : Bytes → Bool
  | [letter] => plainStatuses.contains letter
  | letter :: score =>
    renameStatuses.contains letter && score.length ≤ 3 && score.all isAsciiDigit
  | [] => false

def submoduleMode : Bytes := ascii "160000"

def parseRawHeader (value : Bytes) : Except GitCoreError PendingRaw := do
  Except.require .invalidProtocol (value.head? = some 58)
  match (value.tail.splitOnP isAsciiWhitespace).filter (· ≠ []) with
  | [oldMode, newMode, oldObject, newObject, status] =>
    Except.require .invalidProtocol
      (validMode oldMode && validMode newMode && validObject oldObject && validObject newObject)
    Except.require .invalidProtocol (validStatus status)
    return {
      kind := if oldMode = submoduleMode ∨ newMode = submoduleMode then .submodule
        else .textOrBinary
      renamed := status.head?.any renameStatuses.contains }
  | _ => .error .invalidProtocol

def parseNumValue (value : Bytes) : Except GitCoreError NumValue :=
  if value = [45] then .ok .binary
  else Except.okOr .invalidProtocol ((parseUnsigned (2 ^ 64) value).map .text)

/-! ### The commit being read -/

structure CurrentCommit where
  accumulator : Option GitCommitAccumulator
  rawEntries : List RawEntry
  numstatIndex : ℕ
  bodyTerminated : Bool

namespace CurrentCommit

/-- `require_open_body`, once there is a commit. -/
def requireOpen (current : CurrentCommit) : Except GitCoreError Unit :=
  Except.require .invalidProtocol (!current.bodyTerminated)

def finishRawPath (ext : Externals) (limits : GitStreamLimits) (current : CurrentCommit)
    (kind : RawKind) (path : Bytes) : Except GitCoreError CurrentCommit := do
  Except.require (.capacityExceeded limits.pathsPerCommit)
    (current.rawEntries.length ≠ limits.pathsPerCommit)
  let _ ← classifyDestinationPath path
  return { current with rawEntries := current.rawEntries ++ [⟨hashPath ext path, kind⟩] }

/-- `GitPathStat::{text, binary, submodule}`. -/
def pathStat (kind : RawKind) (added removed : NumValue) (path : Bytes) :
    Except GitCoreError GitPathStat :=
  match kind, added, removed with
  | .submodule, _, _ => (classifyDestinationPath path).map fun category => ⟨category, .submodule⟩
  | .textOrBinary, .binary, .binary =>
    (classifyDestinationPath path).map fun category => ⟨category, .binary⟩
  | .textOrBinary, .text added, .text removed =>
    (classifyDestinationPath path).map fun category => ⟨category, .text ⟨added, removed⟩⟩
  | .textOrBinary, _, _ => .error .invalidProtocol

def finishNumstatPath (ext : Externals) (current : CurrentCommit)
    (pendingAdded pendingRemoved : Option NumValue) (path : Bytes) :
    Except GitCoreError CurrentCommit := do
  let raw ← Except.okOr .protocolMismatch current.rawEntries[current.numstatIndex]?
  Except.require .protocolMismatch (raw.destinationHash = hashPath ext path)
  let added ← Except.okOr .incoherentState pendingAdded
  let removed ← Except.okOr .incoherentState pendingRemoved
  let stat ← pathStat raw.kind added removed path
  let accumulator ← current.accumulator.mapM fun accumulator => accumulator.record stat
  return { current with accumulator := accumulator, numstatIndex := current.numstatIndex + 1 }

/-- The check of `finish_current` on the entries. -/
def requireMatched (current : CurrentCommit) : Except GitCoreError Unit :=
  Except.require .protocolMismatch (current.numstatIndex = current.rawEntries.length)

/-- A NUL where an entry could start. -/
def terminate (current : CurrentCommit) : Except GitCoreError CurrentCommit := do
  current.requireOpen
  current.requireMatched
  return { current with bodyTerminated := true }

/-- The commit of a selected author. -/
def commit (current : CurrentCommit) : Except GitCoreError (Option GitCommitAggregate) :=
  current.accumulator.mapM fun accumulator => accumulator.finish

end CurrentCommit

/-! ### The parser -/

inductive ParseState where
  | expectRecordSeparator
  | headerObjectId
  | headerTimestamp
  | headerRawAuthor
  | headerCanonicalAuthor
  | headerParents
  | bodyStart
  | rawHeader
  | rawSourcePath
  | rawDestinationPath
  | numAdded
  | numRemoved
  | numPathStart
  | numPath
  | numRenameSource
  | numRenameDestination
  | failed
  | finished
  deriving DecidableEq

structure PendingHeader where
  fingerprint : Option Bytes32
  dayIndex : Option ℤ
  selectedAuthor : Bool

def PendingHeader.new : PendingHeader := ⟨none, none, false⟩

structure GitLogStreamParser where
  state : ParseState
  token : Bytes
  pendingHeader : PendingHeader
  pendingRaw : Option PendingRaw
  pendingAdded : Option NumValue
  pendingRemoved : Option NumValue
  current : Option CurrentCommit
  processedCommits : ℕ

namespace GitLogStreamParser

def new : GitLogStreamParser :=
  ⟨.expectRecordSeparator, [], .new, none, none, none, none, 0⟩

def fail (p : GitLogStreamParser) : GitLogStreamParser :=
  { p with
    token := [], pendingRaw := none, pendingAdded := none, pendingRemoved := none, current := none,
    state := .failed }

def startHeader (p : GitLogStreamParser) : GitLogStreamParser :=
  { p with pendingHeader := .new, token := [], state := .headerObjectId }

def pushToken (p : GitLogStreamParser) (byte : UInt8) (limit : ℕ) :
    Except GitCoreError GitLogStreamParser := do
  Except.require (.capacityExceeded limit) (p.token.length ≠ limit)
  return { p with token := p.token ++ [byte] }

/-- The token is taken: the next state starts with an empty one. -/
def next (p : GitLogStreamParser) (state : ParseState) : GitLogStreamParser :=
  { p with token := [], state := state }

section Steps

variable (ext : Externals) (config : GitLogParseConfig) (p : GitLogStreamParser)

def finishObjectId : Except GitCoreError GitLogStreamParser := do
  validateObjectId p.token
  let fingerprint ← deriveCommitFingerprint ext config.salt p.token
  return { p.next .headerTimestamp with
    pendingHeader := { p.pendingHeader with fingerprint := some fingerprint } }

def finishTimestamp : Except GitCoreError GitLogStreamParser := do
  let dayIndex ← parseDayIndex p.token
  return { p.next .headerRawAuthor with
    pendingHeader := { p.pendingHeader with dayIndex := some dayIndex } }

def finishRawAuthor : Except GitCoreError GitLogStreamParser := do
  let fingerprint ← deriveAuthorFingerprint ext config.salt p.token
  return { p.next .headerCanonicalAuthor with
    pendingHeader := { p.pendingHeader with
      selectedAuthor := decide (fingerprint ∈ config.authors) } }

def finishCanonicalAuthor : Except GitCoreError GitLogStreamParser := do
  let fingerprint ← deriveAuthorFingerprint ext config.salt p.token
  return { p.next .headerParents with
    pendingHeader := { p.pendingHeader with
      selectedAuthor := p.pendingHeader.selectedAuthor || decide (fingerprint ∈ config.authors) } }

def finishParents : Except GitCoreError GitLogStreamParser := do
  let parentCount ← parseParentCount p.token
  let fingerprint ← Except.okOr .incoherentState p.pendingHeader.fingerprint
  let dayIndex ← Except.okOr .incoherentState p.pendingHeader.dayIndex
  let accumulator ← (if p.pendingHeader.selectedAuthor then
      (GitCommitAccumulator.new fingerprint.asBytes dayIndex parentCount).map some
    else pure none)
  return { p.next .bodyStart with current := some ⟨accumulator, [], 0, false⟩ }

def finishRawHeader : Except GitCoreError GitLogStreamParser := do
  let pending ← parseRawHeader p.token
  return { p.next .rawSourcePath with pendingRaw := some pending }

def finishRawDestination : Except GitCoreError GitLogStreamParser := do
  let pending ← Except.okOr .incoherentState p.pendingRaw
  let current ← Except.okOr .invalidProtocol p.current
  let current ← current.finishRawPath ext config.limits pending.kind p.token
  return { p.next .bodyStart with current := some current, pendingRaw := none }

def finishRawSource : Except GitCoreError GitLogStreamParser := do
  let pending ← Except.okOr .incoherentState p.pendingRaw
  if pending.renamed then do
    let _ ← classifyDestinationPath p.token
    return p.next .rawDestinationPath
  else p.finishRawDestination ext config

def finishAdded : Except GitCoreError GitLogStreamParser := do
  let added ← parseNumValue p.token
  return { p.next .numRemoved with pendingAdded := some added }

def finishRemoved : Except GitCoreError GitLogStreamParser := do
  let removed ← parseNumValue p.token
  return { p.next .numPathStart with pendingRemoved := some removed }

def finishNumPath : Except GitCoreError GitLogStreamParser := do
  let current ← Except.okOr .invalidProtocol p.current
  let current ← current.finishNumstatPath ext p.pendingAdded p.pendingRemoved p.token
  return { p.next .bodyStart with
    current := some current, pendingAdded := none, pendingRemoved := none }

def finishNumRenameSource : Except GitCoreError GitLogStreamParser := do
  let _ ← classifyDestinationPath p.token
  return p.next .numRenameDestination

/-- `finish_current`, with the commit for the sink; `processed_commits` does not overflow a `usize`. -/
def finishCurrent : Except GitCoreError (GitLogStreamParser × Option GitCommitAggregate) := do
  let current ← Except.okOr .invalidProtocol p.current
  current.requireMatched
  Except.require (.capacityExceeded maxGitScannedCommits)
    (p.processedCommits ≠ maxGitScannedCommits)
  let commit ← current.commit
  return ({ p with current := none, processedCommits := p.processedCommits + 1 }, commit)

/-- A byte of a token, or the terminator that ends it. -/
def field (byte terminator : UInt8) (limit : ℕ) (finish : Except GitCoreError GitLogStreamParser) :
    Except GitCoreError (GitLogStreamParser × Option GitCommitAggregate) :=
  (if byte = terminator then finish else p.pushToken byte limit).map fun p => (p, none)

/-- The first byte of an entry. -/
def startEntry (byte : UInt8) (state : ParseState) :
    Except GitCoreError (GitLogStreamParser × Option GitCommitAggregate) := do
  let current ← Except.okOr .invalidProtocol p.current
  current.requireOpen
  return ({ p with token := p.token ++ [byte], state := state }, none)

def pushBodyStart (byte : UInt8) :
    Except GitCoreError (GitLogStreamParser × Option GitCommitAggregate) :=
  if byte = recordSeparator then do
    let (p, commit) ← p.finishCurrent
    return (p.startHeader, commit)
  else if byte = 0 then do
    let current ← Except.okOr .invalidProtocol p.current
    let current ← current.terminate
    return ({ p with current := some current }, none)
  else if byte = 10 ∨ byte = 13 then do
    Except.require .invalidProtocol (!p.current.any (·.bodyTerminated))
    return (p, none)
  else if byte = 58 then p.startEntry byte .rawHeader
  else if byte = 45 ∨ isAsciiDigit byte then p.startEntry byte .numAdded
  else .error .invalidProtocol

def pushNumPathStart (byte : UInt8) :
    Except GitCoreError (GitLogStreamParser × Option GitCommitAggregate) :=
  if byte = 0 then .ok ({ p with state := .numRenameSource }, none)
  else do
    let p ← p.pushToken byte config.limits.pathBytes
    return ({ p with state := .numPath }, none)

def pushByte (byte : UInt8) :
    Except GitCoreError (GitLogStreamParser × Option GitCommitAggregate) :=
  let limits := config.limits
  match p.state with
  | .expectRecordSeparator =>
    if byte = recordSeparator then .ok (p.startHeader, none) else .error .invalidProtocol
  | .headerObjectId => p.field byte 0 limits.headerBytes (p.finishObjectId ext config)
  | .headerTimestamp => p.field byte 0 limits.headerBytes p.finishTimestamp
  | .headerRawAuthor => p.field byte 0 limits.authorBytes (p.finishRawAuthor ext config)
  | .headerCanonicalAuthor => p.field byte 0 limits.authorBytes (p.finishCanonicalAuthor ext config)
  | .headerParents => p.field byte 0 limits.headerBytes p.finishParents
  | .bodyStart => p.pushBodyStart byte
  | .rawHeader => p.field byte 0 limits.headerBytes p.finishRawHeader
  | .rawSourcePath => p.field byte 0 limits.pathBytes (p.finishRawSource ext config)
  | .rawDestinationPath => p.field byte 0 limits.pathBytes (p.finishRawDestination ext config)
  | .numAdded => p.field byte 9 limits.headerBytes p.finishAdded
  | .numRemoved => p.field byte 9 limits.headerBytes p.finishRemoved
  | .numPathStart => p.pushNumPathStart config byte
  | .numPath => p.field byte 0 limits.pathBytes (p.finishNumPath ext)
  | .numRenameSource => p.field byte 0 limits.pathBytes p.finishNumRenameSource
  | .numRenameDestination => p.field byte 0 limits.pathBytes (p.finishNumPath ext)
  | .failed | .finished => .error .invalidProtocol

/-- The step of `finish` that can give a commit. -/
def finishStream : Except GitCoreError (GitLogStreamParser × Option GitCommitAggregate) :=
  if p.state = .expectRecordSeparator ∧ p.current.isNone then .ok (p, none)
  else if p.state = .bodyStart ∧ p.token = [] then p.finishCurrent
  else .error .incompleteProtocol

end Steps

end GitLogStreamParser

/-! ### Calls -/

/-- `GitCommitSink::push_commit`. -/
abbrev GitCommitSink (σ : Type) : Type :=
  σ → GitCommitAggregate → Except GitCoreError Unit × σ

/-- What a call returns, and the parser and the sink after it. -/
structure CallResult (σ : Type) where
  result : Except GitCoreError Unit
  parser : GitLogStreamParser
  sink : σ

section Calls

variable {σ : Type} (ext : Externals) (config : GitLogParseConfig) (sink : GitCommitSink σ)

/-- A commit that a step gives, if it does, goes to the sink. -/
def GitCommitSink.take (s : σ) : Option GitCommitAggregate → Except GitCoreError Unit × σ
  | none => (.ok (), s)
  | some commit => sink s commit

/-- The loop of `push`. -/
def pushBytes (p : GitLogStreamParser) (s : σ) : Bytes → CallResult σ
  | [] => ⟨.ok (), p, s⟩
  | byte :: bytes =>
    match p.pushByte ext config byte with
    | .error error => ⟨.error error, p.fail, s⟩
    | .ok (p', commit) =>
      match GitCommitSink.take sink s commit with
      | (.error error, s') => ⟨.error error, p'.fail, s'⟩
      | (.ok (), s') => pushBytes p' s' bytes

section Loop

variable {ext config sink} {p p' : GitLogStreamParser} {s s' : σ} {byte : UInt8} {bytes : Bytes}
  {error : GitCoreError} {commit : Option GitCommitAggregate}

end Loop

def push (p : GitLogStreamParser) (s : σ) (bytes : Bytes) : CallResult σ :=
  if p.state = .failed ∨ p.state = .finished then ⟨.error .invalidProtocol, p, s⟩
  else pushBytes ext config sink p s bytes

def finish (p : GitLogStreamParser) (s : σ) : CallResult σ :=
  if p.state = .failed ∨ p.state = .finished then ⟨.error .invalidProtocol, p, s⟩
  else
    match p.finishStream with
    | .error error => ⟨.error error, p.fail, s⟩
    | .ok (p', commit) =>
      match GitCommitSink.take sink s commit with
      | (.error error, s') => ⟨.error error, p'.fail, s'⟩
      | (.ok (), s') => ⟨.ok (), { p' with state := .finished }, s'⟩

inductive ParserCall where
  | push (bytes : Bytes)
  | finish

def call (p : GitLogStreamParser) (s : σ) : ParserCall → CallResult σ
  | .push bytes => push ext config sink p s bytes
  | .finish => finish sink p s

end Calls

end TokenMaster.Git
