import Mathlib.Data.Fintype.Pi
import TokenMaster.Domain.Text
import TokenMaster.Lib.Text

/-!
# TokenMaster.Domain.Usage — usage observations and session relations

`crates/domain/src/usage.rs`: bounded texts, token counts, activity counts and the two drafts that a
parser emits.  A draft carries the check of its constructor as a field.
-/

namespace TokenMaster.Domain

/-! ### Bounded texts -/

/-- `validate_ascii_value` of a text. -/
def AsciiText.ofText? (max : ℕ) (allowed : UInt8 → Bool) (value : Text) :
    Option (AsciiText max allowed) :=
  if h : value.utf8 ≠ [] ∧ value.utf8.length ≤ max ∧ value.utf8.all allowed = true then
    some ⟨value.utf8, h.1, h.2.1, h.2.2⟩
  else none

/-- What `validate_trimmed_value` accepts, after trimming. -/
structure TrimmedText (max : ℕ) where
  text : Text
  trimmed : text.trim = text
  nonempty : text ≠ []
  byteLength_le : text.byteLength ≤ max
  noControl : text.any Text.isControl = false
  deriving DecidableEq

def TrimmedText.ofText? (max : ℕ) (value : Text) : Option (TrimmedText max) :=
  if h : value.trim ≠ [] ∧ value.trim.byteLength ≤ max ∧
      value.trim.any Text.isControl = false then
    some ⟨value.trim, value.trim_trim, h.1, h.2.1, h.2.2⟩
  else none

/-- A stored value passes its own check. -/
@[simp] theorem TrimmedText.ofText?_text {max : ℕ} (value : TrimmedText max) :
    TrimmedText.ofText? max value.text = some value := by
  unfold TrimmedText.ofText?
  rw [dif_pos]
  · simp only [trimmed]
  · rw [value.trimmed]
    exact ⟨value.nonempty, value.byteLength_le, value.noControl⟩

abbrev UsageSessionId := TrimmedText maxSessionIdBytes
abbrev MetadataValue := TrimmedText maxMetadataBytes

structure ProjectAlias extends TrimmedText maxMetadataBytes where
  noSeparator : text.any (fun c => c == '/' || c == '\\') = false

def ProjectAlias.ofText? (value : Text) : Option ProjectAlias :=
  match TrimmedText.ofText? maxMetadataBytes value with
  | none => none
  | some text =>
    if h : text.text.any (fun c => c == '/' || c == '\\') = false then some ⟨text, h⟩ else none

/-! ### Counts -/

def u64Max : ℕ := 2 ^ 64 - 1

/-- `u64::saturating_add`. -/
def saturatingAdd (a b : ℕ) : ℕ := min (a + b) u64Max

inductive TokenCount where
  | available (value : ℕ)
  | unavailable
  deriving DecidableEq

structure TokenUsage where
  input : TokenCount
  cached : TokenCount
  output : TokenCount
  reasoning : TokenCount
  total : TokenCount
  cacheWrite5m : TokenCount
  cacheWrite1h : TokenCount
  deriving DecidableEq

def TokenUsage.new (input cached output reasoning total : TokenCount) : TokenUsage :=
  ⟨input, cached, output, reasoning, total, .unavailable, .unavailable⟩

inductive LongContextState where
  | yes
  | no
  | unavailable
  deriving DecidableEq

inductive ActivityKind where
  | read
  | editWrite
  | search
  | git
  | buildTest
  | web
  | subagents
  | terminal
  deriving DecidableEq

instance : Fintype ActivityKind where
  elems := {.read, .editWrite, .search, .git, .buildTest, .web, .subagents, .terminal}
  complete := by
    intro kind
    cases kind <;> decide

structure ActivityCounts where
  get : ActivityKind → ℕ

namespace ActivityCounts

/-- `ActivityCounts::default()`. -/
def zero : ActivityCounts := ⟨fun _ => 0⟩

def add (counts : ActivityCounts) (kind : ActivityKind) (count : ℕ) : ActivityCounts :=
  ⟨Function.update counts.get kind (saturatingAdd (counts.get kind) count)⟩

def increment (counts : ActivityCounts) (kind : ActivityKind) : ActivityCounts := counts.add kind 1

/-- Counting once more on both sides keeps one count below the other. -/
theorem increment_mono {a b : ActivityCounts} (h : ∀ kind, a.get kind ≤ b.get kind)
    (counted : ActivityKind) (kind : ActivityKind) :
    (a.increment counted).get kind ≤ (b.increment counted).get kind := by
  by_cases hkd : kind = counted
  · subst hkd
    have hle := h kind
    simp only [increment, add, Function.update_self, saturatingAdd]
    omega
  · simp only [increment, add, Function.update_of_ne hkd]
    exact h kind

end ActivityCounts

structure UtcTimestamp where
  unixSeconds : ℤ
  subsecNanos : ℕ
  nanos_lt : subsecNanos < 1000000000

def UtcTimestamp.new (unixSeconds : ℤ) (subsecNanos : ℕ) : Option UtcTimestamp :=
  if h : subsecNanos < 1000000000 then some ⟨unixSeconds, subsecNanos, h⟩ else none

/-! ### Drafts -/

inductive ObservationVerification where
  | incremental
  | fullPrefix

structure SessionRelationDraftParts where
  providerId : UsageProviderId
  profileId : UsageProfileId
  sessionId : UsageSessionId
  parentSessionId : UsageSessionId
  declaredConflict : Bool
  sourceId : UsageSourceId
  sourceOffset : ℕ

structure SessionRelationDraft extends SessionRelationDraftParts where
  consistent : declaredConflict = true ∨ parentSessionId ≠ sessionId

def SessionRelationDraft.new (parts : SessionRelationDraftParts) : Option SessionRelationDraft :=
  if h : parts.declaredConflict = true ∨ parts.parentSessionId ≠ parts.sessionId then
    some ⟨parts, h⟩
  else none

structure ObservationDraftParts where
  providerId : UsageProviderId
  profileId : UsageProfileId
  sessionId : UsageSessionId
  parentSessionId : Option UsageSessionId
  sessionOrdinal : ℕ
  lineageConflict : Bool
  sourceId : UsageSourceId
  sourceOffset : ℕ
  sourceVerification : ObservationVerification
  timestamp : UtcTimestamp
  model : ModelKey
  rawModel : Option MetadataValue
  deltaUsage : TokenUsage
  cumulativeUsage : Option TokenUsage
  fallbackModel : Bool
  longContext : LongContextState
  serviceTier : Option MetadataValue
  reportedCost : Option ℕ
  project : Option ProjectAlias
  originator : Option MetadataValue
  activity : ActivityCounts

structure ObservationDraft extends ObservationDraftParts where
  consistent : lineageConflict = true ∨ parentSessionId ≠ some sessionId

def ObservationDraft.new (parts : ObservationDraftParts) : Option ObservationDraft :=
  if h : parts.lineageConflict = true ∨ parts.parentSessionId ≠ some parts.sessionId then
    some ⟨parts, h⟩
  else none

end TokenMaster.Domain
