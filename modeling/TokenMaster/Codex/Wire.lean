import TokenMaster.Domain.Usage

/-!
# TokenMaster.Codex.Wire — JSON lines and what the parser reads of them

`crates/codex/src/parser/wire.rs` and the scalars of `value.rs`.  A `Json` is what `serde_json` sees
in a line; `deserialize` is the derived or hand-written `Deserialize` of each type, with `none` for an
error.  A field that is absent takes its default.  Borrowed and owned text are one constructor.
-/

namespace TokenMaster.Codex

open Domain

/-! ### JSON values -/

inductive JsonNumber where
  | unsigned (value : ℕ) (value_le : value ≤ u64Max)
  | negative (value : ℤ)
  | float
  /-- A number that `serde_json` refuses where it is read. -/
  | outOfRange

/-- A JSON value.  `string none` is a text with an invalid escape or encoding: an error where it is
read, skipped where it is ignored. -/
inductive Json where
  | null
  | bool (value : Bool)
  | number (value : JsonNumber)
  | string (value : Option Text)
  | array (items : List Json)
  | object (entries : List (Option Text × Json))

/-- The fields of a derived struct: of an object by name, each known name at most once, or of an array
by position. -/
def Json.structFields (names : List Text) : Json → Option (Text → Option Json)
  | .object entries =>
    if entries.all (fun entry => entry.1.isSome) &&
        names.all (fun name => decide ((entries.countP fun entry => entry.1 == some name) ≤ 1)) then
      some fun name => (entries.find? fun entry => entry.1 == some name).map (·.2)
    else none
  | .array items =>
    if items.length ≤ names.length then some fun name => items[names.idxOf name]? else none
  | _ => none

/-- A field with `#[serde(default)]`. -/
def fieldOr {α : Type} (default : α) (deserialize : Json → Option α) : Option Json → Option α
  | none => some default
  | some value => deserialize value

/-- A field of type `Option`, where `null` is `None`. -/
def optionField {α : Type} (deserialize : Json → Option α) : Option Json → Option (Option α)
  | none => some none
  | some .null => some none
  | some value => (deserialize value).map some

/-! ### Scalars -/

inductive LenientU64 where
  | missing
  | valid (value : ℕ)
  | invalid

def parseDecimal (value : Text) : LenientU64 :=
  let digits := value.trim
  if digits.isEmpty || decide (digits.byteLength > 20) || !digits.all Char.isDigit then .invalid
  else
    let number := digits.foldl (fun n c => n * 10 + (c.toNat - 48)) 0
    if number ≤ u64Max then .valid number else .invalid

def LenientU64.deserialize : Json → Option LenientU64
  | .number (.unsigned value _) => some (.valid value)
  | .number .outOfRange => none
  | .string (some value) => some (parseDecimal value)
  | .string none => none
  | _ => some .invalid

def validBoundedText (maxBytes : ℕ) (value : Text) : Bool :=
  decide (value.byteLength ≤ maxBytes) && !value.any Text.isControl

/-- A text that was checked when it was read. -/
inductive BoundedText (maxBytes : ℕ) where
  | missing
  | valid (value : Text) (bounded : validBoundedText maxBytes value = true)
  | invalid

namespace BoundedText

variable {maxBytes : ℕ}

def value : BoundedText maxBytes → Option Text
  | valid value _ => some value
  | _ => none

def isInvalid : BoundedText maxBytes → Bool
  | invalid => true
  | _ => false

def isMissing : BoundedText maxBytes → Bool
  | missing => true
  | _ => false

def classify (value : Text) : BoundedText maxBytes :=
  if h : validBoundedText maxBytes value = true then valid value h else invalid

def deserialize : Json → Option (BoundedText maxBytes)
  | .string (some value) => some (classify value)
  | .string none => none
  | .number .outOfRange => none
  | _ => some invalid

/-- The value that a checked text holds passed the check. -/
theorem validBoundedText_value {text : BoundedText maxBytes} {value : Text}
    (h : text.value = some value) : validBoundedText maxBytes value = true := by
  cases text with
  | missing | invalid => cases h
  | valid held bounded =>
    cases h
    exact bounded

end BoundedText

inductive TimestampScalar where
  | missing
  | text (value : Text)
  | signed (value : ℤ)
  | unsigned (value : ℕ)
  | invalid

def maxTimestampBytes : ℕ := 64
def maxRawModelBytes : ℕ := 512

def validTimestampText (value : Text) : Bool :=
  !value.isEmpty && decide (value.byteLength ≤ maxTimestampBytes) && !value.any Text.isControl

def TimestampScalar.deserialize : Json → Option TimestampScalar
  | .string (some value) => some (if validTimestampText value then .text value else .invalid)
  | .string none => none
  | .number (.unsigned value _) => some (.unsigned value)
  | .number (.negative value) => some (.signed value)
  | .number .outOfRange => none
  | _ => some .invalid

/-! ### Records -/

abbrev RawText := BoundedText maxRawModelBytes
abbrev RawDisplayText := BoundedText 4096
abbrev RawPathText := BoundedText 4096

structure RawSource where
  display : RawDisplayText
  structuredParentThreadId : RawText

/-- `RawThreadSpawn`. -/
def threadSpawnParent (json : Json) : Option RawText := do
  let get ← json.structFields ["parent_thread_id".toList]
  fieldOr .missing BoundedText.deserialize (get "parent_thread_id".toList)

/-- `RawSubagent`. -/
def subagentParent (json : Json) : Option RawText := do
  let get ← json.structFields ["thread_spawn".toList]
  fieldOr .missing threadSpawnParent (get "thread_spawn".toList)

def RawSource.deserialize : Json → Option RawSource
  | .string (some value) => some ⟨.classify value, .missing⟩
  | .string none => none
  | .number .outOfRange => none
  | .object entries => do
    let get ← (Json.object entries).structFields ["subagent".toList]
    let parent ← fieldOr .missing subagentParent (get "subagent".toList)
    return ⟨.missing, parent⟩
  | _ => some ⟨.invalid, .missing⟩

structure RawUsage where
  inputTokens : LenientU64
  promptTokens : LenientU64
  input : LenientU64
  cachedInputTokens : LenientU64
  cacheReadInputTokens : LenientU64
  cachedTokens : LenientU64
  outputTokens : LenientU64
  completionTokens : LenientU64
  output : LenientU64
  reasoningOutputTokens : LenientU64
  reasoningTokens : LenientU64
  totalTokens : LenientU64

def usageNames : List Text :=
  ["input_tokens", "prompt_tokens", "input", "cached_input_tokens", "cache_read_input_tokens",
    "cached_tokens", "output_tokens", "completion_tokens", "output", "reasoning_output_tokens",
    "reasoning_tokens", "total_tokens"].map String.toList

def RawUsage.deserialize (json : Json) : Option RawUsage := do
  let get ← json.structFields usageNames
  let count := fun (name : String) => fieldOr .missing LenientU64.deserialize (get name.toList)
  return {
    inputTokens := ← count "input_tokens"
    promptTokens := ← count "prompt_tokens"
    input := ← count "input"
    cachedInputTokens := ← count "cached_input_tokens"
    cacheReadInputTokens := ← count "cache_read_input_tokens"
    cachedTokens := ← count "cached_tokens"
    outputTokens := ← count "output_tokens"
    completionTokens := ← count "completion_tokens"
    output := ← count "output"
    reasoningOutputTokens := ← count "reasoning_output_tokens"
    reasoningTokens := ← count "reasoning_tokens"
    totalTokens := ← count "total_tokens" }

structure RawInfo where
  lastTokenUsage : Option RawUsage
  totalTokenUsage : Option RawUsage
  model : RawText
  modelName : RawText

def RawInfo.deserialize (json : Json) : Option RawInfo := do
  let get ← json.structFields
    (["last_token_usage", "total_token_usage", "model", "model_name"].map String.toList)
  return {
    lastTokenUsage := ← optionField RawUsage.deserialize (get "last_token_usage".toList)
    totalTokenUsage := ← optionField RawUsage.deserialize (get "total_token_usage".toList)
    model := ← fieldOr .missing BoundedText.deserialize (get "model".toList)
    modelName := ← fieldOr .missing BoundedText.deserialize (get "model_name".toList) }

structure RawGit where
  branch : RawDisplayText

def RawGit.deserialize (json : Json) : Option RawGit := do
  let get ← json.structFields ["branch".toList]
  return { branch := ← fieldOr .missing BoundedText.deserialize (get "branch".toList) }

structure RawPayload where
  kind : RawText
  model : RawText
  modelName : RawText
  modelSlug : RawText
  modelId : RawText
  requestedModel : RawText
  defaultModel : RawText
  serviceTier : RawDisplayText
  modelContextWindow : LenientU64
  name : RawDisplayText
  cwd : RawPathText
  originator : RawDisplayText
  source : RawSource
  sessionId : RawText
  id : RawText
  forkedFromId : RawText
  parentThreadId : RawText
  git : RawGit
  info : Option RawInfo

def payloadNames : List Text :=
  ["type", "model", "model_name", "model_slug", "model_id", "requested_model", "default_model",
    "service_tier", "model_context_window", "name", "cwd", "originator", "source", "session_id",
    "id", "forked_from_id", "parent_thread_id", "git", "info"].map String.toList

def RawPayload.deserialize (json : Json) : Option RawPayload := do
  let get ← json.structFields payloadNames
  let text := fun (name : String) =>
    fieldOr (.missing : RawText) BoundedText.deserialize (get name.toList)
  let display := fun (name : String) =>
    fieldOr (.missing : RawDisplayText) BoundedText.deserialize (get name.toList)
  return {
    kind := ← text "type"
    model := ← text "model"
    modelName := ← text "model_name"
    modelSlug := ← text "model_slug"
    modelId := ← text "model_id"
    requestedModel := ← text "requested_model"
    defaultModel := ← text "default_model"
    serviceTier := ← display "service_tier"
    modelContextWindow := ← fieldOr .missing LenientU64.deserialize
      (get "model_context_window".toList)
    name := ← display "name"
    cwd := ← display "cwd"
    originator := ← display "originator"
    source := ← fieldOr ⟨.missing, .missing⟩ RawSource.deserialize (get "source".toList)
    sessionId := ← text "session_id"
    id := ← text "id"
    forkedFromId := ← text "forked_from_id"
    parentThreadId := ← text "parent_thread_id"
    git := ← fieldOr ⟨.missing⟩ RawGit.deserialize (get "git".toList)
    info := ← optionField RawInfo.deserialize (get "info".toList) }

structure RawResult where
  timestamp : TimestampScalar
  createdAt : TimestampScalar
  createdAtV2 : TimestampScalar
  usage : Option RawUsage
  model : RawText
  modelName : RawText

def RawResult.deserialize (json : Json) : Option RawResult := do
  let get ← json.structFields
    (["timestamp", "created_at", "createdAt", "usage", "model", "model_name"].map String.toList)
  return {
    timestamp := ← fieldOr .missing TimestampScalar.deserialize (get "timestamp".toList)
    createdAt := ← fieldOr .missing TimestampScalar.deserialize (get "created_at".toList)
    createdAtV2 := ← fieldOr .missing TimestampScalar.deserialize (get "createdAt".toList)
    usage := ← optionField RawUsage.deserialize (get "usage".toList)
    model := ← fieldOr .missing BoundedText.deserialize (get "model".toList)
    modelName := ← fieldOr .missing BoundedText.deserialize (get "model_name".toList) }

structure RawLine where
  kind : RawText
  timestamp : TimestampScalar
  createdAt : TimestampScalar
  createdAtV2 : TimestampScalar
  payload : Option RawPayload
  usage : Option RawUsage
  model : RawText
  modelName : RawText
  forkedFromId : RawText
  parentThreadId : RawText
  data : Option RawResult
  result : Option RawResult
  response : Option RawResult

def lineNames : List Text :=
  ["type", "timestamp", "created_at", "createdAt", "payload", "usage", "model", "model_name",
    "forked_from_id", "parent_thread_id", "data", "result", "response"].map String.toList

def RawLine.deserialize (json : Json) : Option RawLine := do
  let get ← json.structFields lineNames
  let text := fun (name : String) =>
    fieldOr (.missing : RawText) BoundedText.deserialize (get name.toList)
  return {
    kind := ← text "type"
    timestamp := ← fieldOr .missing TimestampScalar.deserialize (get "timestamp".toList)
    createdAt := ← fieldOr .missing TimestampScalar.deserialize (get "created_at".toList)
    createdAtV2 := ← fieldOr .missing TimestampScalar.deserialize (get "createdAt".toList)
    payload := ← optionField RawPayload.deserialize (get "payload".toList)
    usage := ← optionField RawUsage.deserialize (get "usage".toList)
    model := ← text "model"
    modelName := ← text "model_name"
    forkedFromId := ← text "forked_from_id"
    parentThreadId := ← text "parent_thread_id"
    data := ← optionField RawResult.deserialize (get "data".toList)
    result := ← optionField RawResult.deserialize (get "result".toList)
    response := ← optionField RawResult.deserialize (get "response".toList) }

end TokenMaster.Codex
