import Mathlib.Algebra.BigOperators.Group.List.Basic
import Mathlib.Algebra.Order.Floor.Ring
import Mathlib.Algebra.Order.Floor.Semifield
import Mathlib.Data.List.Destutter
import Mathlib.Data.Rat.Floor
import TokenMaster.Pricing.Overrides

/-!
# TokenMaster.Pricing.Selection — the cost of a list of price rows

`crates/pricing/src/selection.rs`.  Each row is counted as reported, calculated or unpriced; the costs
are added as numerators over a million in `u128` and rounded once.
-/

namespace TokenMaster.Pricing

def maxPriceBasisRows : ℕ := 512
def maxMissingCostDetails : ℕ := 32
def catalogId : Bytes := ascii "openai-api-2026-07-16-v1"

inductive CostMode where
  | auto
  | calculated
  | reported
  deriving DecidableEq

inductive CostAvailability where
  | complete
  | partial_
  | unavailable
  | zero

inductive CostComposition where
  | none
  | calculated
  | reported
  | mixed

structure PriceBasisRow where
  model : Bytes
  tier : ServiceTier
  context : ContextClass
  eventCount : UInt64
  calculableEventCount : UInt64
  basis : TokenPriceBasis
  reportedEventCount : UInt64
  reportedCost : Option UsdMicros

inductive MissingReasonCode where
  | modelUnpriced
  | tierUnknown
  | contextUnavailable
  | tierContextUnsupported
  | tokenBasisUnavailable
  | reportedCostMissing
  | keyLimitReached
  | arithmeticOverflow
  deriving DecidableEq

structure MissingCost where
  reason : MissingReasonCode
  key : Option Bytes
  deriving DecidableEq

structure CostCounters where
  totalEvents : ℕ
  pricedEvents : ℕ
  reportedEvents : ℕ
  assumedEvents : ℕ
  unpricedEvents : ℕ
  omittedEvents : ℕ
  conflictEvents : ℕ

structure CostResult where
  mode : CostMode
  availability : CostAvailability
  amount : Option UsdMicros
  composition : CostComposition
  counters : CostCounters
  missing : List MissingCost
  omittedMissingDetails : ℕ
  calculatedCatalogId : Option Bytes
  overrideRevision : Option Bytes32
  usedOverride : Bool

/-! ### One row -/

structure CalculatedRow where
  numerator : ℕ
  rounded : Option UsdMicros
  source : RuleSource
  assumedStandard : Bool

def calculateRow (engine : PricingEngine) (row : PriceBasisRow) :
    Except PriceErrorCode CalculatedRow := do
  Except.require .tokenBasisUnavailable (row.calculableEventCount ≠ 0)
  let resolved ← engine.resolve row.model row.tier row.context
  let numerator ← calculateNumerator resolved.rates row.basis
  return ⟨numerator, (roundNumerator numerator).toOption, resolved.source, resolved.assumedStandard⟩

def reportedIsCoherent (row : PriceBasisRow) : Bool :=
  match row.reportedCost with
  | none => row.reportedEventCount = 0
  | some _ => row.reportedEventCount = row.eventCount

/-- What `validate_row` accepts. -/
def PriceBasisRow.Valid (row : PriceBasisRow) : Prop :=
  isValidModelKey row.model ∧ row.eventCount ≠ 0 ∧ row.calculableEventCount ≤ row.eventCount ∧
    reportedIsCoherent row

instance (row : PriceBasisRow) : Decidable row.Valid :=
  inferInstanceAs (Decidable (_ ∧ _ ∧ _ ∧ _))

def validateRow (row : PriceBasisRow) : Except PriceErrorCode Unit :=
  Except.require .invalidPriceRow row.Valid

def missingReason : PriceErrorCode → MissingReasonCode
  | .modelUnpriced => .modelUnpriced
  | .tierUnknown => .tierUnknown
  | .contextUnavailable => .contextUnavailable
  | .tierContextUnsupported => .tierContextUnsupported
  | .tokenBasisUnavailable | .inconsistentTokenBasis => .tokenBasisUnavailable
  | .invalidRate | .arithmeticOverflow | .invalidPriceRow | .tooManyPriceRows => .arithmeticOverflow

def costValuesConflict (left right : UsdMicros) : Bool :=
  let delta := max left.get right.get - min left.get right.get
  delta > 10000 && delta * 100 > max left.get right.get * 2

/-- The condition under which a row counts as a conflict. -/
def rowConflicts (row : PriceBasisRow) (calculated : Except PriceErrorCode CalculatedRow) : Bool :=
  row.reportedEventCount = row.eventCount && row.calculableEventCount = row.eventCount &&
    match row.reportedCost, calculated with
    | some reported, .ok calculated => calculated.rounded.any (costValuesConflict reported)
    | _, _ => false

def selectReported (mode : CostMode) (row : PriceBasisRow) : Bool :=
  mode = .reported || (mode = .auto && row.reportedCost.isSome)

/-! ### The loop -/

structure Selection where
  counters : CostCounters
  selectedNumerator : ℕ
  missing : List MissingCost
  usedCalculated : Bool
  usedOverride : Bool
  numericFailure : Bool

/-- `checked_add` on `u64`. -/
def checkedAddEvents (left right : ℕ) : Except PriceErrorCode ℕ := do
  Except.require .arithmeticOverflow (left + right < 2 ^ 64)
  return left + right

/-- A row whose reported cost is selected. -/
def addReported (state : Selection) (row : PriceBasisRow) : Except PriceErrorCode Selection :=
  match row.reportedCost with
  | some amount => do
    Except.require .arithmeticOverflow (amount.get * tokensPerMillion < 2 ^ 128)
    let sum := state.selectedNumerator + amount.get * tokensPerMillion
    if sum < 2 ^ 128 then do
      let reportedEvents ← checkedAddEvents state.counters.reportedEvents row.reportedEventCount.toNat
      return { state with
        selectedNumerator := sum
        counters := { state.counters with reportedEvents := reportedEvents } }
    else return { state with numericFailure := true }
  | none => do
    let unpricedEvents ← checkedAddEvents state.counters.unpricedEvents row.eventCount.toNat
    return { state with
      counters := { state.counters with unpricedEvents := unpricedEvents }
      missing := state.missing ++ [⟨.reportedCostMissing, some row.model⟩] }

/-- A row whose calculated cost is selected. -/
def addCalculated (state : Selection) (row : PriceBasisRow) :
    Except PriceErrorCode CalculatedRow → Except PriceErrorCode Selection
  | .ok calculated =>
    if state.selectedNumerator + calculated.numerator < 2 ^ 128 then do
      let pricedEvents ← checkedAddEvents state.counters.pricedEvents row.calculableEventCount.toNat
      let assumedEvents ← (if calculated.assumedStandard then
          checkedAddEvents state.counters.assumedEvents row.calculableEventCount.toNat
        else pure state.counters.assumedEvents)
      let unpricedEvents ← (if row.calculableEventCount < row.eventCount then
          checkedAddEvents state.counters.unpricedEvents
            (row.eventCount.toNat - row.calculableEventCount.toNat)
        else pure state.counters.unpricedEvents)
      return { state with
        selectedNumerator := state.selectedNumerator + calculated.numerator
        counters := { state.counters with
          pricedEvents := pricedEvents
          assumedEvents := assumedEvents
          unpricedEvents := unpricedEvents }
        missing := state.missing ++ (if row.calculableEventCount < row.eventCount then
          [⟨.tokenBasisUnavailable, some row.model⟩] else [])
        usedCalculated := true
        usedOverride := state.usedOverride || calculated.source = .override }
    else return { state with numericFailure := true }
  | .error code => do
    let unpricedEvents ← checkedAddEvents state.counters.unpricedEvents row.eventCount.toNat
    return { state with
      counters := { state.counters with unpricedEvents := unpricedEvents }
      missing := state.missing ++ [⟨missingReason code, some row.model⟩] }

def selectRow (engine : PricingEngine) (mode : CostMode) (state : Selection) (row : PriceBasisRow) :
    Except PriceErrorCode Selection := do
  validateRow row
  let totalEvents ← checkedAddEvents state.counters.totalEvents row.eventCount.toNat
  let calculated := calculateRow engine row
  let conflictEvents ← (if rowConflicts row calculated then
      checkedAddEvents state.counters.conflictEvents row.eventCount.toNat
    else pure state.counters.conflictEvents)
  let state := { state with
    counters := { state.counters with totalEvents := totalEvents, conflictEvents := conflictEvents } }
  if selectReported mode row then addReported state row else addCalculated state row calculated

def Selection.start (omittedEventCount : UInt64) : Selection where
  counters := ⟨omittedEventCount.toNat, 0, 0, 0, 0, omittedEventCount.toNat, 0⟩
  selectedNumerator := 0
  missing := if omittedEventCount > 0 then [⟨.keyLimitReached, none⟩] else []
  usedCalculated := false
  usedOverride := false
  numericFailure := false

/-! ### The result -/

def MissingReasonCode.index : MissingReasonCode → ℕ
  | .modelUnpriced => 0
  | .tierUnknown => 1
  | .contextUnavailable => 2
  | .tierContextUnsupported => 3
  | .tokenBasisUnavailable => 4
  | .reportedCostMissing => 5
  | .keyLimitReached => 6
  | .arithmeticOverflow => 7

/-- The order by reason and then by key, where no key comes first. -/
def MissingCost.order (missing : MissingCost) : List ℕ :=
  missing.reason.index :: match missing.key with
    | none => []
    | some key => 0 :: keyOrder key

/-- `sort_unstable_by` and `dedup`. -/
def sortedMissing (missing : List MissingCost) : List MissingCost :=
  (sortBy MissingCost.order missing).destutter (· ≠ ·)

/-- The amount, and whether it does not fit. -/
def roundSelected (counters : CostCounters) (selectedNumerator : ℕ) (numericFailure : Bool) :
    Option UsdMicros × Bool :=
  if counters.pricedEvents + counters.reportedEvents > 0 ∨ counters.totalEvents = 0 then
    match roundNumerator selectedNumerator with
    | .ok amount => (some amount, numericFailure)
    | .error _ => (none, true)
  else (none, numericFailure)

/-- The resets after a numeric failure. -/
def failSelection (state : Selection) : Selection where
  counters := { state.counters with
    pricedEvents := 0
    reportedEvents := 0
    assumedEvents := 0
    unpricedEvents := state.counters.totalEvents - state.counters.omittedEvents }
  selectedNumerator := state.selectedNumerator
  missing := state.missing ++ [⟨.arithmeticOverflow, none⟩]
  usedCalculated := false
  usedOverride := false
  numericFailure := true

def costAvailability (counters : CostCounters) (numericFailure : Bool) (amount : Option UsdMicros) :
    CostAvailability :=
  if numericFailure then .unavailable
  else if counters.totalEvents = 0 then .zero
  else if counters.pricedEvents + counters.reportedEvents = 0 then .unavailable
  else if counters.unpricedEvents = 0 ∧ counters.omittedEvents = 0 then
    if amount.any (·.get = 0) then .zero else .complete
  else .partial_

def costComposition (counters : CostCounters) : CostComposition :=
  match decide (counters.pricedEvents > 0), decide (counters.reportedEvents > 0) with
  | false, false => .none
  | true, false => .calculated
  | false, true => .reported
  | true, true => .mixed

/-- What the end of `select_cost` makes of the state and the amount. -/
def resultOf (engine : PricingEngine) (mode : CostMode) (state : Selection)
    (amount : Option UsdMicros) : CostResult :=
  let missing := sortedMissing state.missing
  { mode := mode
    availability := costAvailability state.counters state.numericFailure amount
    amount := amount
    composition := costComposition state.counters
    counters := state.counters
    missing := missing.take maxMissingCostDetails
    omittedMissingDetails := missing.length - maxMissingCostDetails
    calculatedCatalogId := if state.usedCalculated then some catalogId else none
    overrideRevision := if state.usedCalculated then some engine.overrides.revision else none
    usedOverride := state.usedOverride }

def Selection.rounded (state : Selection) : Option UsdMicros × Bool :=
  roundSelected state.counters state.selectedNumerator state.numericFailure

/-- The state that the result is made of. -/
def finalState (state : Selection) : Selection :=
  if state.rounded.2 then failSelection state else state

def finalAmount (state : Selection) : Option UsdMicros :=
  if state.rounded.2 then none else state.rounded.1

def finishSelection (engine : PricingEngine) (mode : CostMode) (state : Selection) :
    Except PriceErrorCode CostResult := do
  let _ ← checkedAddEvents state.counters.pricedEvents state.counters.reportedEvents
  let final := finalState state
  let _ ← checkedAddEvents final.counters.pricedEvents final.counters.reportedEvents
  return resultOf engine mode final (finalAmount state)

def selectCost (engine : PricingEngine) (mode : CostMode) (rows : List PriceBasisRow)
    (omittedEventCount : UInt64) : Except PriceErrorCode CostResult := do
  Except.require .tooManyPriceRows (rows.length ≤ maxPriceBasisRows)
  let state ← rows.foldlM (selectRow engine mode) (.start omittedEventCount)
  finishSelection engine mode state

end TokenMaster.Pricing
