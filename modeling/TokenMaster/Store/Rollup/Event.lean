import Mathlib.Algebra.Ring.Int.Defs
import Mathlib.Algebra.Group.Int.Defs
import Mathlib.Algebra.Group.Pi.Basic
import Mathlib.Data.Prod.Lex
import TokenMaster.Domain.Usage

/-!
# TokenMaster.Store.Rollup.Event — rows of `usage_event` and what they count

The columns that the rollups of `crates/store/src/usage/{schema,price_schema,aggregate}.rs` read, the
metrics of an event, and the keys under which it is counted.  A fingerprint or file key is a blob of
32 bytes and is compared as its big-endian number; texts are their UTF-8 bytes.
-/

namespace TokenMaster.Store

open TokenMaster.Domain (LongContextState ActivityKind)

/-! ### Rows -/

inductive TokenKind where
  | input
  | cached
  | output
  | reasoning
  | total
  deriving DecidableEq

instance : Fintype TokenKind where
  elems := {.input, .cached, .output, .reasoning, .total}
  complete := by
    intro kind
    cases kind <;> decide

/-- The columns that `usage_event` and `usage_legacy_event` share. -/
structure UsageFacts where
  profileId : Bytes
  sessionId : Bytes
  timestampSeconds : ℤ
  timestampNanos : ℕ
  model : Bytes
  projectAlias : Option Bytes
  tokens : TokenKind → Option ℕ
  fallbackModel : Bool
  longContext : LongContextState
  serviceTier : Option Bytes
  activity : ActivityKind → ℕ
  reportedCostUsdMicros : Option ℕ

structure UsageEvent extends UsageFacts where
  fingerprint : ℕ
  providerId : Bytes

structure LegacyEvent extends UsageFacts where
  fingerprint : ℕ
  selectedFileKey : ℕ

/-- What a page of legacy rows reads of `usage_source`. -/
structure UsageSource where
  fileKey : ℕ
  providerId : Bytes
  profileId : Bytes

/-- The provider column of `LEGACY_PAGE`. -/
def LegacyEvent.resolve (sources : List UsageSource) (event : LegacyEvent) : UsageEvent where
  toUsageFacts := event.toUsageFacts
  fingerprint := event.fingerprint
  providerId :=
    match sources.find? fun source => source.fileKey = event.selectedFileKey with
    | none => ascii "unknown"
    | some source => if source.profileId = event.profileId then source.providerId else ascii "unknown"

/-! ### Metrics -/

/-- The counters of a time or session rollup. -/
inductive UsageMetric where
  | eventCount
  | knownCount (kind : TokenKind)
  | knownSum (kind : TokenKind)
  | fallbackModelCount
  | longContextCount (state : LongContextState)
  | activity (kind : ActivityKind)
  deriving DecidableEq

def UsageMetric.all : List UsageMetric :=
  let kinds := [TokenKind.input, .cached, .output, .reasoning, .total]
  let states := [LongContextState.yes, .no, .unavailable]
  let activities := [ActivityKind.read, .editWrite, .search, .git, .buildTest, .web, .subagents,
    .terminal]
  .eventCount :: kinds.map .knownCount ++ kinds.map .knownSum ++ [.fallbackModelCount] ++
    states.map .longContextCount ++ activities.map .activity

instance : Fintype UsageMetric where
  elems := UsageMetric.all.toFinset
  complete := by
    intro metric
    cases metric with
    | eventCount | fallbackModelCount => decide
    | knownCount kind | knownSum kind | activity kind => cases kind <;> decide
    | longContextCount state => cases state <;> decide

abbrev UsageMetrics : Type := UsageMetric → ℤ

/-- The values that a row is counted with. -/
def UsageFacts.metrics (facts : UsageFacts) : UsageMetrics
  | .eventCount => 1
  | .knownCount kind => if facts.tokens kind = none then 0 else 1
  | .knownSum kind => (facts.tokens kind).getD 0
  | .fallbackModelCount => if facts.fallbackModel then 1 else 0
  | .longContextCount state => if facts.longContext = state then 1 else 0
  | .activity kind => facts.activity kind

/-- A counter that is at most `event_count`. -/
def UsageMetric.IsCount : UsageMetric → Prop
  | .knownCount _ => True
  | .fallbackModelCount => True
  | .longContextCount _ => True
  | _ => False

instance (metric : UsageMetric) : Decidable metric.IsCount := by
  cases metric <;> unfold UsageMetric.IsCount <;> infer_instance

/-- The counters of a price rollup. -/
inductive PriceMetric where
  | eventCount
  | calculableEventCount
  | uncachedInputSum
  | cachedInputSum
  | billableOutputSum
  | reportedCostCount
  | reportedCostSum
  deriving DecidableEq

instance : Fintype PriceMetric where
  elems := {.eventCount, .calculableEventCount, .uncachedInputSum, .cachedInputSum,
    .billableOutputSum, .reportedCostCount, .reportedCostSum}
  complete := by
    intro metric
    cases metric <;> decide

abbrev PriceMetrics : Type := PriceMetric → ℤ

/-- `NEW_CALCULABLE`, with the uncached input, the cached input and the billable output. -/
def UsageFacts.priceBasis (facts : UsageFacts) : Option (ℕ × ℕ × ℕ) :=
  match facts.tokens .input, facts.tokens .cached with
  | some input, some cached =>
    if cached ≤ input then
      match facts.tokens .total, facts.tokens .output, facts.tokens .reasoning with
      | some total, some output, some reasoning =>
        if input ≤ total ∧ output ≤ total - input ∧ reasoning = total - input - output then
          some (input - cached, cached, total - input)
        else none
      | some total, _, _ =>
        if input ≤ total then some (input - cached, cached, total - input) else none
      | none, some output, some reasoning =>
        if output + reasoning < 2 ^ 63 then some (input - cached, cached, output + reasoning) else none
      | none, _, _ => none
    else none
  | _, _ => none

def UsageFacts.priceMetrics (facts : UsageFacts) : PriceMetrics
  | .eventCount => 1
  | .calculableEventCount => if facts.priceBasis = none then 0 else 1
  | .uncachedInputSum => (facts.priceBasis.map (·.1)).getD 0
  | .cachedInputSum => (facts.priceBasis.map (·.2.1)).getD 0
  | .billableOutputSum => (facts.priceBasis.map (·.2.2)).getD 0
  | .reportedCostCount => if facts.reportedCostUsdMicros = none then 0 else 1
  | .reportedCostSum => facts.reportedCostUsdMicros.getD 0

/-! ### Keys -/

inductive DatasetKind where
  | current
  | legacy
  deriving DecidableEq

inductive BucketWidth where
  | minute
  | hour
  deriving DecidableEq

def BucketWidth.seconds : BucketWidth → ℤ
  | .minute => 60
  | .hour => 3600

/-- `timestamp_seconds - (((timestamp_seconds % s) + s) % s)`; the remainder has the sign of the
dividend. -/
def bucketStart (width : BucketWidth) (timestampSeconds : ℤ) : ℤ :=
  timestampSeconds - (timestampSeconds.tmod width.seconds + width.seconds).tmod width.seconds

/-- `dimension_kind` with its `dimension_value`. -/
inductive Dimension where
  | all
  | model (name : Bytes)
  | project (key : Bytes)
  deriving DecidableEq

def UsageFacts.projectKey (facts : UsageFacts) : Bytes := facts.projectAlias.getD []

def UsageFacts.dimensions (facts : UsageFacts) : List Dimension :=
  [.all, .model facts.model, .project facts.projectKey]

structure TimeKey where
  width : BucketWidth
  start : ℤ
  providerId : Bytes
  profileId : Bytes
  dimension : Dimension
  deriving DecidableEq

structure SessionKey where
  providerId : Bytes
  profileId : Bytes
  sessionId : Bytes
  dimension : Dimension
  deriving DecidableEq

inductive PriceTier where
  | standardAssumed
  | standardReported
  | priority
  | unknown
  deriving DecidableEq

/-- `NEW_TIER`; `lower` changes ASCII letters only. -/
def UsageFacts.priceTier (facts : UsageFacts) : PriceTier :=
  match facts.serviceTier with
  | none => .standardAssumed
  | some tier =>
    let lower := tier.map Text.asciiLower
    if lower = ascii "standard" ∨ lower = ascii "default" then .standardReported
    else if lower = ascii "priority" ∨ lower = ascii "fast" then .priority
    else .unknown

inductive ReportedState where
  | present
  | missing
  deriving DecidableEq

/-- The part of the two price keys that says how an event is priced. -/
structure PriceKey where
  model : Bytes
  projectKey : Bytes
  tier : PriceTier
  longContext : LongContextState
  reported : ReportedState
  deriving DecidableEq

def UsageFacts.priceKey (facts : UsageFacts) : PriceKey where
  model := facts.model
  projectKey := facts.projectKey
  tier := facts.priceTier
  longContext := facts.longContext
  reported := if facts.reportedCostUsdMicros = none then .missing else .present

structure PriceTimeKey where
  width : BucketWidth
  start : ℤ
  providerId : Bytes
  profileId : Bytes
  price : PriceKey
  deriving DecidableEq

structure PriceSessionKey where
  providerId : Bytes
  profileId : Bytes
  sessionId : Bytes
  price : PriceKey
  deriving DecidableEq

namespace UsageEvent

variable (event : UsageEvent)

def widths : List BucketWidth := [.minute, .hour]

def timeKeys : List TimeKey :=
  widths.flatMap fun width => event.dimensions.map fun dimension =>
    ⟨width, bucketStart width event.timestampSeconds, event.providerId, event.profileId, dimension⟩

def sessionKeys : List SessionKey :=
  event.dimensions.map fun dimension =>
    ⟨event.providerId, event.profileId, event.sessionId, dimension⟩

def priceTimeKeys : List PriceTimeKey :=
  widths.map fun width =>
    ⟨width, bucketStart width event.timestampSeconds, event.providerId, event.profileId,
      event.priceKey⟩

def priceSessionKeys : List PriceSessionKey :=
  [⟨event.providerId, event.profileId, event.sessionId, event.priceKey⟩]

end UsageEvent

/-! ### Timestamps of a session -/

/-- Seconds and nanoseconds, compared as a row value. -/
abbrev Instant : Type := ℤ ×ₗ ℕ

def UsageFacts.instant (facts : UsageFacts) : Instant :=
  toLex (facts.timestampSeconds, facts.timestampNanos)

/-- `first_timestamp_*` and `last_timestamp_*`. -/
@[ext] structure Span where
  first : Instant
  last : Instant

/-- The `CASE`s of the upsert: an earlier first, a later last. -/
instance : Add Span := ⟨fun a b => ⟨min a.first b.first, max a.last b.last⟩⟩

instance : AddCommSemigroup Span where
  add_assoc _ _ _ := Span.ext (min_assoc ..) (max_assoc ..)
  add_comm _ _ := Span.ext (min_comm ..) (max_comm ..)

theorem Span.add_self (a : Span) : a + a = a := Span.ext (min_self _) (max_self _)

def UsageFacts.span (facts : UsageFacts) : Span := ⟨facts.instant, facts.instant⟩

/-- A session rollup; rows of one model or project have no timestamps. -/
@[ext] structure SessionCell where
  metrics : UsageMetrics
  span : WithZero Span

instance : Add SessionCell := ⟨fun a b => ⟨a.metrics + b.metrics, a.span + b.span⟩⟩

theorem SessionCell.add_metrics (a b : SessionCell) : (a + b).metrics = a.metrics + b.metrics := rfl
theorem SessionCell.add_span (a b : SessionCell) : (a + b).span = a.span + b.span := rfl

instance : AddCommSemigroup SessionCell where
  add_assoc _ _ _ := SessionCell.ext (add_assoc ..) (add_assoc ..)
  add_comm _ _ := SessionCell.ext (add_comm ..) (add_comm ..)

end TokenMaster.Store
