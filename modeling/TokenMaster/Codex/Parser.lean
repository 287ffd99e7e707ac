import TokenMaster.Codex.State

/-!
# TokenMaster.Codex.Parser — one line of a session file

`crates/codex/src/parser/effects.rs` and `mod.rs`.  `parseLine` takes the state and a complete line
to the next state and an outcome.  `Directories` is what the file system answers about a working
directory while the line is parsed; it only reaches the repository hint.
-/

namespace TokenMaster.Codex

open Domain

def maxLineBytes : ℕ := 16 * 2 ^ 20
def longContextThreshold : ℕ := 272000

/-- `RepositoryCandidatePath::new` at the time of the call. -/
abbrev Directories := Text → Option RepositoryCandidatePath

structure ParseContext where
  profileId : UsageProfileId
  sourceId : UsageSourceId
  filenameSessionHint : Option UsageSessionId
  hashedSessionHint : UsageSessionId
  sourceVerification : ObservationVerification

/-- The provider id `codex`. -/
def codexProviderId : UsageProviderId := ⟨[99, 111, 100, 101, 120], by decide, by decide, by decide⟩

inductive ParserDiagnosticCode where
  | lineTooLarge
  | malformedJson
  | invalidTimestamp
  | invalidModel
  | invalidMetadata

inductive ParseOutcome where
  | emitted (event : ObservationDraft)
  | sessionRelation (relation : SessionRelationDraft)
  | metadataOnly
  | toolOnly
  | skipped
  | rejected (code : ParserDiagnosticCode)

/-! ### Metadata -/

inductive RepositoryCandidateUpdate where
  | missing
  | set (candidate : RepositoryCandidatePath)
  | clear
  deriving DecidableEq

structure MetadataUpdate where
  currentModel : Option ResolvedModel
  serviceTier : Option MetadataValue
  sessionId : Option UsageSessionId
  project : Option ProjectAlias
  repositoryCandidate : RepositoryCandidateUpdate
  originator : Option MetadataValue
  sourceAlias : Option MetadataValue
  gitBranch : Option MetadataValue
  contextWindow : Option ℕ
  parentSessionId : Option UsageSessionId
  lineageConflict : Bool

namespace MetadataUpdate

/-- `MetadataUpdate::default()`. -/
def none_ : MetadataUpdate :=
  ⟨none, none, none, none, .missing, none, none, none, none, none, false⟩

def hasUpdates (update : MetadataUpdate) : Bool :=
  update.currentModel.isSome || update.serviceTier.isSome || update.sessionId.isSome ||
    update.project.isSome || update.repositoryCandidate != .missing || update.originator.isSome ||
    update.sourceAlias.isSome || update.gitBranch.isSome || update.contextWindow.isSome ||
    update.parentSessionId.isSome || update.lineageConflict

end MetadataUpdate

/-- The first alias with a value. -/
def firstModel (values : List RawText) : Option Text := values.findSome? BoundedText.value

/-- One candidate for the parent session: the first one counts, a different later one is a
conflict. -/
def addParent (found : Option UsageSessionId × Bool) (candidate : RawText) :
    Option UsageSessionId × Bool :=
  match candidate.value.bind (TrimmedText.ofText? maxSessionIdBytes) with
  | none => found
  | some candidate =>
    match found.1 with
    | none => (some candidate, found.2)
    | some existing => if existing = candidate then found else (some existing, true)

def lineageMetadata (raw : RawLine) (payload : RawPayload) : Option UsageSessionId × Bool :=
  [raw.forkedFromId, raw.parentThreadId, payload.forkedFromId, payload.parentThreadId,
    payload.source.structuredParentThreadId].foldl addParent (none, false)

def displayMetadata (raw : RawDisplayText) : Option MetadataValue :=
  match raw.value with
  | none => none
  | some value =>
    if value.trim.isEmpty then none
    else TrimmedText.ofText? maxMetadataBytes (value.trim.truncate maxMetadataBytes)

def sessionIdentity (raw : RawText) : Option UsageSessionId :=
  raw.value.bind (TrimmedText.ofText? maxSessionIdBytes)

def sessionMetadata (lineKind : Option Text) (payload : RawPayload) : Option UsageSessionId :=
  if lineKind = some "session_meta".toList ∨ lineKind = some "sessionMeta".toList then
    (sessionIdentity payload.id).or (sessionIdentity payload.sessionId)
  else sessionIdentity payload.sessionId

/-- The working directory as a path that both repository fields accept. -/
def localPath (ext : Externals) (value : Text) : Bool :=
  !value.isEmpty && ext.isLocalRoot value && !ext.hasDotComponent value

def projectAlias (ext : Externals) (raw : RawPathText) : Option ProjectAlias :=
  match raw.value with
  | none => none
  | some value =>
    if localPath ext value.trim then
      (ext.fileName value.trim).bind fun name => ProjectAlias.ofText? (name.truncate maxMetadataBytes)
    else none

def repositoryCandidate (ext : Externals) (directories : Directories) (raw : RawPathText) :
    RepositoryCandidateUpdate :=
  if raw.isMissing then .missing
  else match raw.value with
    | none => .clear
    | some value =>
      if localPath ext value.trim then
        match directories value.trim with
        | some candidate => .set candidate
        | none => .clear
      else .clear

def contextWindow : LenientU64 → Option ℕ
  | .valid value => if 1 ≤ value ∧ value ≤ maxContextWindowTokens then some value else none
  | _ => none

def metadataUpdate (ext : Externals) (directories : Directories) (raw : RawLine)
    (includeModel : Bool) : MetadataUpdate :=
  match raw.payload with
  | none => .none_
  | some payload =>
    { currentModel :=
        if includeModel then
          (firstModel [payload.model, payload.modelName, payload.modelSlug, payload.modelId,
            payload.requestedModel, payload.defaultModel]).bind (normalizeExplicitModel ext)
        else none
      serviceTier := displayMetadata payload.serviceTier
      sessionId := sessionMetadata raw.kind.value payload
      project := projectAlias ext payload.cwd
      repositoryCandidate := repositoryCandidate ext directories payload.cwd
      originator := displayMetadata payload.originator
      sourceAlias := displayMetadata payload.source.display
      gitBranch := displayMetadata payload.git.branch
      contextWindow := contextWindow payload.modelContextWindow
      parentSessionId := (lineageMetadata raw payload).1
      lineageConflict := (lineageMetadata raw payload).2 }

/-! ### Tools -/

def containsAsciiCaseInsensitive (value : Text) (needle : String) : Bool :=
  Text.occursBy (fun a b => Text.asciiLower a == Text.asciiLower b) (Text.utf8 needle.toList)
    value.utf8

def classifyTool (name : Text) : ActivityKind :=
  let matchesAny := fun (markers : List String) => markers.any (containsAsciiCaseInsensitive name)
  if matchesAny ["read", "cat", "view"] then .read
  else if matchesAny ["write", "edit", "patch", "create"] then .editWrite
  else if matchesAny ["search", "grep", "find"] then .search
  else if matchesAny ["git"] then .git
  else if matchesAny ["test", "build", "compile"] then .buildTest
  else if matchesAny ["web", "browser", "http"] then .web
  else if matchesAny ["agent", "delegate", "spawn"] then .subagents
  else .terminal

structure ToolUpdate where
  name : Text
  activity : ActivityKind

/-- The name under which a tool is counted. -/
def safeToolName (payload : RawPayload) : Text :=
  let rawName := ((payload.name.value.filter fun name => !name.isEmpty).or payload.kind.value).getD
    "unknown".toList
  Text.truncate maxToolNameBytes (if rawName.trim.isEmpty then "unknown".toList else rawName.trim)

def toolUpdate (raw : RawLine) : Option ToolUpdate :=
  match raw.payload with
  | none => none
  | some payload =>
    match payload.kind.value.or raw.kind.value with
    | none => none
    | some discriminator =>
      if ["function_call", "tool_call", "exec_command", "mcp"].any
            (containsAsciiCaseInsensitive discriminator) ||
          (raw.kind.value == some "response_item".toList &&
            payload.name.value.any fun name => !name.isEmpty) then
        some ⟨safeToolName payload, classifyTool (safeToolName payload)⟩
      else none

/-! ### Updates of the state -/

/-- The lineage part of `apply_metadata`. -/
def applyLineage (state : ParserState) (update : MetadataUpdate) : Option UsageSessionId × Bool :=
  match update.parentSessionId with
  | none => (state.parentSessionId, state.lineageConflict || update.lineageConflict)
  | some parent =>
    match state.parentSessionId with
    | none => (some parent, state.lineageConflict || update.lineageConflict)
    | some existing =>
      (some existing, (state.lineageConflict || existing != parent) || update.lineageConflict)

/-- The repository part of `apply_metadata`. -/
def applyRepository (state : ParserState) (update : MetadataUpdate) :
    Option RepositoryCandidatePath × Option ProjectAlias :=
  match update.repositoryCandidate with
  | .missing => (state.repositoryCandidate, state.repositoryProject)
  | .set candidate => (some candidate, update.project)
  | .clear => (none, none)

def applyMetadata (state : ParserState) (update : MetadataUpdate) : ParserState :=
  { state with
    parentSessionId := (applyLineage state update).1
    lineageConflict := (applyLineage state update).2
    currentModel := update.currentModel.or state.currentModel
    serviceTier := update.serviceTier.or state.serviceTier
    sessionId := update.sessionId.or state.sessionId
    project := update.project.or state.project
    repositoryCandidate := (applyRepository state update).1
    repositoryProject := (applyRepository state update).2
    originator := update.originator.or state.originator
    sourceAlias := update.sourceAlias.or state.sourceAlias
    gitBranch := update.gitBranch.or state.gitBranch
    contextWindow := update.contextWindow.or state.contextWindow }

def recordToolUpdate (state : ParserState) : Option ToolUpdate → ParserState
  | none => state
  | some tool => state.recordTool tool.name tool.activity

def resolvedSessionId (context : ParseContext) (state : ParserState) (metadata : MetadataUpdate) :
    UsageSessionId :=
  ((metadata.sessionId.or state.sessionId).or context.filenameSessionHint).getD
    context.hashedSessionHint

def normalizeLineageConflict (state : ParserState) (metadata : MetadataUpdate)
    (sessionId : UsageSessionId) : MetadataUpdate :=
  let effectiveParent := metadata.parentSessionId.or state.parentSessionId
  { metadata with
    lineageConflict := metadata.lineageConflict || (state.lineageConflict ||
      effectiveParent.any (fun parent => parent == sessionId) ||
      metadata.parentSessionId.any fun parent =>
        state.parentSessionId.any fun existing => existing != parent) }

def sessionRelationDraft (context : ParseContext) (metadata : MetadataUpdate)
    (sessionId : UsageSessionId) (sourceOffset : ℕ) : Option SessionRelationDraft :=
  match metadata.parentSessionId with
  | none => none
  | some parentSessionId =>
    SessionRelationDraft.new
      { providerId := codexProviderId
        profileId := context.profileId
        sessionId := sessionId
        parentSessionId := parentSessionId
        declaredConflict := metadata.lineageConflict
        sourceId := context.sourceId
        sourceOffset := sourceOffset }

/-- The candidate and the project of a hint. -/
def hintedRepository (state : ParserState) (metadata : MetadataUpdate) :
    Option (RepositoryCandidatePath × Option ProjectAlias) :=
  match metadata.repositoryCandidate with
  | .missing => state.repositoryCandidate.map fun candidate => (candidate, state.repositoryProject)
  | .set candidate => some (candidate, metadata.project)
  | .clear => none

def recordRepositoryActivityHint (context : ParseContext) (state : ParserState)
    (metadata : MetadataUpdate) (sessionId : UsageSessionId) (observedAt : Option UtcTimestamp) :
    ParserState :=
  match observedAt, hintedRepository state metadata with
  | some observedAt, some (candidate, project) =>
    { state with
      latestRepositoryActivityHint := some
        { providerId := codexProviderId
          profileId := context.profileId
          sourceId := context.sourceId
          sessionId := sessionId
          observedAt := observedAt
          project := project
          candidate := candidate } }
  | _, _ => state

/-! ### Usage -/

def firstToken : List LenientU64 → TokenCount
  | [] => .unavailable
  | .valid value :: _ => .available value
  | .missing :: values => firstToken values
  | .invalid :: values => firstToken values

/-- Cached tokens are at most the input. -/
def boundedCached : TokenCount → TokenCount → TokenCount
  | .available input, .available cached => .available (min cached input)
  | _, _ => .unavailable

/-- The reported total, or the sum of the parts. -/
def totalTokens (providerTotal input output reasoning : TokenCount) : TokenCount :=
  match providerTotal with
  | .available (value + 1) => .available (value + 1)
  | _ =>
    match input, output, reasoning with
    | .available input, .available output, .available reasoning =>
      .available (saturatingAdd (saturatingAdd input output) reasoning)
    | _, _, _ => .unavailable

def normalizeUsage (raw : RawUsage) : TokenUsage :=
  let input := firstToken [raw.inputTokens, raw.promptTokens, raw.input]
  let cached := firstToken [raw.cachedInputTokens, raw.cacheReadInputTokens, raw.cachedTokens]
  let output := firstToken [raw.outputTokens, raw.completionTokens, raw.output]
  let reasoning := firstToken [raw.reasoningOutputTokens, raw.reasoningTokens]
  TokenUsage.new input (boundedCached input cached) output reasoning
    (totalTokens (firstToken [raw.totalTokens]) input output reasoning)

def TokenCount.isPositive : TokenCount → Bool
  | .available count => decide (0 < count)
  | .unavailable => false

def usageIsPositive (usage : TokenUsage) : Bool :=
  [usage.input, usage.cached, usage.output, usage.reasoning, usage.total].any TokenCount.isPositive

def subtractCount : TokenCount → TokenCount → TokenCount
  | .available current, .available previous =>
    if current ≥ previous then .available (current - previous) else .available current
  | .available current, .unavailable => .available current
  | .unavailable, _ => .unavailable

def subtractUsage (current : TokenUsage) : Option TokenUsage → TokenUsage
  | none => current
  | some previous =>
    TokenUsage.new (subtractCount current.input previous.input)
      (subtractCount current.cached previous.cached)
      (subtractCount current.output previous.output)
      (subtractCount current.reasoning previous.reasoning)
      (subtractCount current.total previous.total)

structure LineEffect where
  timestamp : Option UtcTimestamp
  model : Option Text
  usage : TokenUsage
  baselineUpdate : Option TokenUsage
  modelIncludesPayload : Bool

/-- The effect of a `token_count` event. -/
def tokenCountEffect (ext : Externals) (raw : RawLine) (payload : RawPayload)
    (previousTotals : Option TokenUsage) : Option LineEffect :=
  match payload.info with
  | none => none
  | some info =>
    let baselineUpdate := info.totalTokenUsage.map normalizeUsage
    let usage := match info.lastTokenUsage with
      | some usage => some (normalizeUsage usage)
      | none => baselineUpdate.map fun baseline => subtractUsage baseline previousTotals
    usage.map fun usage =>
      { timestamp := firstTimestamp ext [raw.timestamp, raw.createdAt, raw.createdAtV2]
        model := firstModel [payload.model, payload.modelName, payload.modelSlug, payload.modelId,
          info.model, info.modelName, payload.requestedModel, payload.defaultModel]
        usage := usage
        baselineUpdate := baselineUpdate
        modelIncludesPayload := true }

def effectFromResult (ext : Externals) (raw : RawLine) (result : RawResult) (usage : RawUsage) :
    LineEffect where
  timestamp := firstTimestamp ext [result.timestamp, result.createdAt, result.createdAtV2,
    raw.timestamp, raw.createdAt, raw.createdAtV2]
  model := firstModel [result.model, result.modelName, raw.model, raw.modelName]
  usage := normalizeUsage usage
  baselineUpdate := none
  modelIncludesPayload := false

/-- The effect of a line that is not a `token_count` event. -/
def plainEffect (ext : Externals) (raw : RawLine) : Option LineEffect :=
  match ((raw.data.or raw.result).or raw.response).bind fun result =>
      result.usage.map fun usage => (result, usage) with
  | some (result, usage) => some (effectFromResult ext raw result usage)
  | none => raw.usage.map fun usage =>
    { timestamp := firstTimestamp ext [raw.timestamp, raw.createdAt, raw.createdAtV2]
      model := firstModel [raw.model, raw.modelName]
      usage := normalizeUsage usage
      baselineUpdate := none
      modelIncludesPayload := false }

def lineEffect (ext : Externals) (raw : RawLine) (previousTotals : Option TokenUsage) :
    Option LineEffect :=
  match raw.payload with
  | some payload =>
    if raw.kind.value = some "event_msg".toList ∧ payload.kind.value = some "token_count".toList then
      tokenCountEffect ext raw payload previousTotals
    else plainEffect ext raw
  | none => plainEffect ext raw

/-! ### Lines -/

def relevanceMarkers : List Bytes :=
  ["token_count", "turn_context", "session_meta", "sessionMeta", "\"usage\"", "function_call",
    "tool_call", "exec_command", "mcp"].map ascii

def looksRelevant (line : Bytes) : Bool :=
  line.contains 92 || relevanceMarkers.any fun marker => Text.occursBy (· == ·) marker line

/-- A line without usage. -/
def parseMetadataLine (ext : Externals) (directories : Directories) (context : ParseContext)
    (state : ParserState) (sourceOffset : ℕ) (raw : RawLine) : ParserState × ParseOutcome :=
  let update := metadataUpdate ext directories raw true
  let sessionId := resolvedSessionId context state update
  let metadata := normalizeLineageConflict state update sessionId
  let relation := sessionRelationDraft context metadata sessionId sourceOffset
  let tool := toolUpdate raw
  let hinted := recordRepositoryActivityHint context state metadata sessionId
    (firstTimestamp ext [raw.timestamp, raw.createdAt, raw.createdAtV2])
  (recordToolUpdate (applyMetadata hinted metadata) tool,
    match relation with
    | some relation => .sessionRelation relation
    | none =>
      if tool.isSome then .toolOnly
      else if metadata.hasUpdates then .metadataOnly
      else .skipped)

/-- A line whose counters are all zero or missing. -/
def parseZeroUsage (context : ParseContext) (state : ParserState) (update : MetadataUpdate)
    (tool : Option ToolUpdate) (baselineUpdate : Option TokenUsage) : ParserState × ParseOutcome :=
  let metadata := normalizeLineageConflict state update (resolvedSessionId context state update)
  let next := recordToolUpdate (applyMetadata state metadata) tool
  ({ next with previousTotals := baselineUpdate.or next.previousTotals }, .skipped)

def longContext : TokenCount → LongContextState
  | .available value => if value > longContextThreshold then .yes else .no
  | .unavailable => .unavailable

/-- The draft of a usage line. -/
def observationParts (context : ParseContext) (state : ParserState) (sourceOffset : ℕ)
    (timestamp : UtcTimestamp) (effect : LineEffect) (metadata : MetadataUpdate)
    (tool : Option ToolUpdate) (model : ResolvedModel) (sessionId : UsageSessionId) :
    ObservationDraftParts where
  providerId := codexProviderId
  profileId := context.profileId
  sessionId := sessionId
  parentSessionId := metadata.parentSessionId.or state.parentSessionId
  sessionOrdinal := state.nextUsageOrdinal
  lineageConflict := metadata.lineageConflict || state.lineageConflict
  sourceId := context.sourceId
  sourceOffset := sourceOffset
  sourceVerification := context.sourceVerification
  timestamp := timestamp
  model := model.key
  rawModel := model.raw
  deltaUsage := effect.usage
  cumulativeUsage := effect.baselineUpdate
  fallbackModel := model.fallback
  longContext := longContext effect.usage.input
  serviceTier := metadata.serviceTier.or state.serviceTier
  reportedCost := none
  project := metadata.project.or state.project
  originator := metadata.originator.or state.originator
  activity := match tool with
    | some tool => state.pendingActivity.increment tool.activity
    | none => state.pendingActivity

/-- A line with positive usage and a timestamp. -/
def parseUsage (ext : Externals) (context : ParseContext) (state : ParserState) (sourceOffset : ℕ)
    (timestamp : UtcTimestamp) (effect : LineEffect) (update : MetadataUpdate)
    (tool : Option ToolUpdate) : ParserState × ParseOutcome :=
  match resolveModel ext effect.model (update.currentModel.or state.currentModel) with
  | none => (state, .rejected .invalidModel)
  | some model =>
    let sessionId := resolvedSessionId context state update
    let metadata := normalizeLineageConflict state update sessionId
    match ObservationDraft.new (observationParts context state sourceOffset timestamp effect metadata
        tool model sessionId) with
    | none => (state, .rejected .invalidMetadata)
    | some event =>
      let hinted := recordRepositoryActivityHint context state metadata sessionId (some timestamp)
      let next := recordToolUpdate (applyMetadata hinted metadata) tool
      ({ next with
          previousTotals := effect.baselineUpdate.or next.previousTotals
          currentModel := some model
          sessionId := next.sessionId.or (some sessionId)
          nextUsageOrdinal := saturatingAdd next.nextUsageOrdinal 1
          pendingActivity := .zero },
        .emitted event)

/-- A line with usage. -/
def parseEffect (ext : Externals) (directories : Directories) (context : ParseContext)
    (state : ParserState) (sourceOffset : ℕ) (raw : RawLine) (effect : LineEffect) :
    ParserState × ParseOutcome :=
  match effect.timestamp with
  | none => (state, .rejected .invalidTimestamp)
  | some timestamp =>
    let positive := usageIsPositive effect.usage
    let update := metadataUpdate ext directories raw
      (!positive || (!effect.modelIncludesPayload && effect.model.isNone))
    let tool := toolUpdate raw
    if !positive then parseZeroUsage context state update tool effect.baselineUpdate
    else parseUsage ext context state sourceOffset timestamp effect update tool

def parseLine (ext : Externals) (directories : Directories) (context : ParseContext)
    (state : ParserState) (sourceOffset : ℕ) (completeLine : Bytes) : ParserState × ParseOutcome :=
  if completeLine.length > maxLineBytes then (state, .rejected .lineTooLarge)
  else if !looksRelevant completeLine then (state, .skipped)
  else match (ext.fromSlice completeLine).bind RawLine.deserialize with
    | none => (state, .rejected .malformedJson)
    | some raw =>
      match lineEffect ext raw state.previousTotals with
      | none => parseMetadataLine ext directories context state sourceOffset raw
      | some effect => parseEffect ext directories context state sourceOffset raw effect

end TokenMaster.Codex
