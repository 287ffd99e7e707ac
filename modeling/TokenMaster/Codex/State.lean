import TokenMaster.Codex.Wire

/-!
# TokenMaster.Codex.State — the parser state and its resume snapshot

`crates/codex/src/parser/state.rs` with the models and timestamps of `value.rs`.  `Externals` are the
crates and the platform that the parser calls.  The diagnostic counters are left out: they are
written and never read by the parser.
-/

namespace TokenMaster.Codex

open Domain
open Text (isControl)

def parserSchemaVersion : ℕ := 2
def maxToolNames : ℕ := 64
def maxToolNameBytes : ℕ := 80
def maxContextWindowTokens : ℕ := 10000000
def maxRetainedTextBytes : ℕ := 15232

/-- `i64::MAX`. -/
def maxOrdinal : ℕ := 2 ^ 63 - 1

/-- A `chrono` time in UTC. -/
structure DateTime where
  year : ℤ
  timestamp : ℤ
  subsecNanos : ℕ

/-- A directory that was found to exist when its line was parsed. -/
structure RepositoryCandidatePath where
  path : Text
  deriving DecidableEq

/-- What the parser calls outside the repository: `serde_json`, `chrono`, `sha2` and the path rules of
the platform. -/
structure Externals where
  fromSlice : Bytes → Option Json
  parseFromRfc3339 : Text → Option DateTime
  fromTimestamp : ℤ → ℕ → Option DateTime
  sha256 : Bytes → Bytes32
  /-- `validate_local_root_namespace(path).is_ok()`. -/
  isLocalRoot : Text → Bool
  /-- Some component of the path is `.` or `..`. -/
  hasDotComponent : Text → Bool
  fileName : Text → Option Text

/-! ### Timestamps -/

def normalizedTimestamp (value : DateTime) : Option UtcTimestamp :=
  if 0 ≤ value.year ∧ value.year ≤ 9999 then UtcTimestamp.new value.timestamp value.subsecNanos
  else none

def numericTimestamp (ext : Externals) (number : ℤ) : Option UtcTimestamp :=
  if number > 1000000000000 then
    (ext.fromTimestamp (number / 1000) ((number % 1000).toNat * 1000000)).bind normalizedTimestamp
  else (ext.fromTimestamp number 0).bind normalizedTimestamp

def timestampValue (ext : Externals) : TimestampScalar → Option UtcTimestamp
  | .text value => (ext.parseFromRfc3339 value).bind normalizedTimestamp
  | .signed number => numericTimestamp ext number
  | .unsigned number => if number < 2 ^ 63 then numericTimestamp ext number else none
  | .missing | .invalid => none

def firstTimestamp (ext : Externals) (values : List TimestampScalar) : Option UtcTimestamp :=
  values.findSome? (timestampValue ext)

/-! ### Models -/

structure ResolvedModel where
  key : ModelKey
  raw : Option MetadataValue
  fallback : Bool

/-- `ModelKey::new`. -/
def modelKey? (value : Text) : Option ModelKey := AsciiText.ofText? _ _ value

/-- Two lower-case digits for each byte. -/
def pushHex (bytes : Bytes) : Text :=
  bytes.flatMap fun b => [Nat.digitChar (b.toNat / 16), Nat.digitChar (b.toNat % 16)]

def normalizeExplicitModel (ext : Externals) (value : Text) : Option ResolvedModel :=
  match TrimmedText.ofText? maxMetadataBytes value with
  | none => none
  | some raw =>
    if raw.text.byteLength > maxRawModelBytes then none
    else match modelKey? raw.text with
      | some key => some ⟨key, some raw, false⟩
      | none =>
        (modelKey? ("unknown_".toList ++ pushHex ((ext.sha256 raw.text.utf8).asBytes.take 16))).map
          fun key => ⟨key, some raw, false⟩

/-- The model of a usage line without any. -/
def unknownModelKey : ModelKey :=
  ⟨[117, 110, 107, 110, 111, 119, 110], by decide, by decide, by decide⟩

/-- The invalid aliases are only counted. -/
def resolveModel (ext : Externals) (explicit : Option Text) (current : Option ResolvedModel) :
    Option ResolvedModel :=
  match explicit.bind (normalizeExplicitModel ext) with
  | some resolved => some resolved
  | none =>
    match current with
    | some value => some value
    | none => some ⟨unknownModelKey, none, true⟩

/-! ### States -/

structure ToolCountEntry where
  name : Text
  count : ℕ

structure RepositoryActivityHint where
  providerId : UsageProviderId
  profileId : UsageProfileId
  sourceId : UsageSourceId
  sessionId : UsageSessionId
  observedAt : UtcTimestamp
  project : Option ProjectAlias
  candidate : RepositoryCandidatePath

structure ParserState where
  currentModel : Option ResolvedModel
  previousTotals : Option TokenUsage
  serviceTier : Option MetadataValue
  sessionId : Option UsageSessionId
  parentSessionId : Option UsageSessionId
  lineageConflict : Bool
  nextUsageOrdinal : ℕ
  project : Option ProjectAlias
  repositoryCandidate : Option RepositoryCandidatePath
  repositoryProject : Option ProjectAlias
  latestRepositoryActivityHint : Option RepositoryActivityHint
  originator : Option MetadataValue
  sourceAlias : Option MetadataValue
  gitBranch : Option MetadataValue
  contextWindow : Option ℕ
  pendingActivity : ActivityCounts
  aggregateActivity : ActivityCounts
  toolCounts : List ToolCountEntry
  otherTools : ℕ

def ParserState.new : ParserState :=
  ⟨none, none, none, none, none, false, 0, none, none, none, none, none, none, none, none, .zero,
    .zero, [], 0⟩

structure ParserResumeState where
  version : ℕ
  currentModel : Option ResolvedModel
  previousTotals : Option TokenUsage
  serviceTier : Option MetadataValue
  sessionId : Option UsageSessionId
  parentSessionId : Option UsageSessionId
  lineageConflict : Bool
  nextUsageOrdinal : ℕ
  project : Option ProjectAlias
  originator : Option MetadataValue
  sourceAlias : Option MetadataValue
  gitBranch : Option MetadataValue
  contextWindow : Option ℕ
  pendingActivity : ActivityCounts
  aggregateActivity : ActivityCounts
  toolCounts : List ToolCountEntry
  otherTools : ℕ

inductive ParserResumeErrorCode where
  | unsupportedVersion
  | invalidState

def ParserState.snapshot (state : ParserState) : ParserResumeState where
  version := parserSchemaVersion
  currentModel := state.currentModel
  previousTotals := state.previousTotals
  serviceTier := state.serviceTier
  sessionId := state.sessionId
  parentSessionId := state.parentSessionId
  lineageConflict := state.lineageConflict
  nextUsageOrdinal := state.nextUsageOrdinal
  project := state.project
  originator := state.originator
  sourceAlias := state.sourceAlias
  gitBranch := state.gitBranch
  contextWindow := state.contextWindow
  pendingActivity := state.pendingActivity
  aggregateActivity := state.aggregateActivity
  toolCounts := state.toolCounts
  otherTools := state.otherTools

def validToolName (value : Text) : Bool :=
  !value.isEmpty && decide (value.byteLength ≤ maxToolNameBytes) && !value.any isControl

/-- Neighbours of the list are in strictly ascending order. -/
def ascendingNames : List ToolCountEntry → Bool
  | [] => true
  | [_] => true
  | a :: b :: entries => decide (a.name < b.name) && ascendingNames (b :: entries)

def validToolEntries (entries : List ToolCountEntry) : Bool :=
  decide (entries.length ≤ maxToolNames) &&
    entries.all (fun entry => validToolName entry.name && decide (0 < entry.count)) &&
    ascendingNames entries

def validPreviousTotals (usage : TokenUsage) : Bool :=
  match usage.input, usage.cached with
  | .available input, .available cached => decide (cached ≤ input)
  | _, .unavailable => true
  | .unavailable, .available _ => false

def validActivityRelation (pending aggregate : ActivityCounts) : Bool :=
  decide (∀ kind, pending.get kind ≤ aggregate.get kind)

def resolvedModelFromResume (ext : Externals) (value : ResolvedModel) :
    Except ParserResumeErrorCode ResolvedModel :=
  if value.fallback then
    if value.key = unknownModelKey ∧ value.raw = none then .ok value else .error .invalidState
  else match value.raw with
    | none => .error .invalidState
    | some raw =>
      match normalizeExplicitModel ext raw.text with
      | none => .error .invalidState
      | some normalized =>
        if normalized.key ≠ value.key ∨ normalized.fallback then .error .invalidState
        else .ok value

def optionModelFromResume (ext : Externals) :
    Option ResolvedModel → Except ParserResumeErrorCode (Option ResolvedModel)
  | none => .ok none
  | some value => (resolvedModelFromResume ext value).map some

def textLength {max : ℕ} (value : Option (TrimmedText max)) : ℕ :=
  (value.map fun value => value.text.byteLength).getD 0

def projectLength (value : Option ProjectAlias) : ℕ :=
  (value.map fun value => value.text.byteLength).getD 0

def modelLength (model : Option ResolvedModel) : ℕ :=
  (model.map fun model => model.key.bytes.length + textLength model.raw).getD 0

def hintLength (hint : Option RepositoryActivityHint) : ℕ :=
  (hint.map fun hint => hint.providerId.bytes.length + hint.profileId.bytes.length +
    hint.sourceId.bytes.length + hint.sessionId.text.byteLength + projectLength hint.project).getD 0

def ParserState.retainedTextBytes (state : ParserState) : ℕ :=
  modelLength state.currentModel + textLength state.serviceTier + textLength state.sessionId +
    textLength state.parentSessionId + projectLength state.project +
    (state.repositoryCandidate.map fun candidate => candidate.path.byteLength).getD 0 +
    projectLength state.repositoryProject + hintLength state.latestRepositoryActivityHint +
    textLength state.originator + textLength state.sourceAlias + textLength state.gitBranch +
    (state.toolCounts.map fun entry => entry.name.byteLength).sum

/-- The checks of `from_resume` before the model is looked at. -/
def ParserResumeState.isValid (value : ParserResumeState) : Bool :=
  !value.contextWindow.any (fun window => !(decide (1 ≤ window) &&
      decide (window ≤ maxContextWindowTokens))) &&
    !value.previousTotals.any (fun usage => !validPreviousTotals usage) &&
    validToolEntries value.toolCounts &&
    !(decide (0 < value.otherTools) && decide (value.toolCounts.length < maxToolNames)) &&
    validActivityRelation value.pendingActivity value.aggregateActivity &&
    decide (value.nextUsageOrdinal ≤ maxOrdinal) &&
    !(!value.lineageConflict && value.parentSessionId.isSome &&
      value.parentSessionId == value.sessionId)

/-- The state of a snapshot with its model. -/
def ParserResumeState.restored (value : ParserResumeState) (currentModel : Option ResolvedModel) :
    ParserState where
  currentModel := currentModel
  previousTotals := value.previousTotals
  serviceTier := value.serviceTier
  sessionId := value.sessionId
  parentSessionId := value.parentSessionId
  lineageConflict := value.lineageConflict
  nextUsageOrdinal := value.nextUsageOrdinal
  project := value.project
  repositoryCandidate := none
  repositoryProject := none
  latestRepositoryActivityHint := none
  originator := value.originator
  sourceAlias := value.sourceAlias
  gitBranch := value.gitBranch
  contextWindow := value.contextWindow
  pendingActivity := value.pendingActivity
  aggregateActivity := value.aggregateActivity
  toolCounts := value.toolCounts
  otherTools := value.otherTools

def ParserState.fromResume (ext : Externals) (value : ParserResumeState) :
    Except ParserResumeErrorCode ParserState :=
  if value.version ≠ parserSchemaVersion then .error .unsupportedVersion
  else if !value.isValid then .error .invalidState
  else do
    let currentModel ← optionModelFromResume ext value.currentModel
    if (value.restored currentModel).retainedTextBytes > maxRetainedTextBytes then
      .error .invalidState
    else return value.restored currentModel

/-! ### Tools -/

/-- The binary search of `record_tool` in the sorted entries: the entry with the name is counted, or
a new one is inserted in its place. -/
def countTool (name : Text) : List ToolCountEntry → List ToolCountEntry
  | [] => [⟨name, 1⟩]
  | entry :: entries =>
    if entry.name = name then { entry with count := saturatingAdd entry.count 1 } :: entries
    else if name < entry.name then ⟨name, 1⟩ :: entry :: entries
    else entry :: countTool name entries

def ParserState.recordTool (state : ParserState) (name : Text) (activity : ActivityKind) :
    ParserState :=
  let counted := { state with
    pendingActivity := state.pendingActivity.increment activity
    aggregateActivity := state.aggregateActivity.increment activity }
  if state.toolCounts.any (fun entry => entry.name == name) ||
      decide (state.toolCounts.length < maxToolNames) then
    { counted with toolCounts := countTool name state.toolCounts }
  else { counted with otherTools := saturatingAdd state.otherTools 1 }

end TokenMaster.Codex
