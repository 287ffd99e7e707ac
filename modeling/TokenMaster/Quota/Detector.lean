import TokenMaster.Lib.Except
import TokenMaster.Quota.Identity

/-!
# TokenMaster.Quota.Detector — epoch states, transitions and `evaluate_sample`

`crates/quota/src/detector.rs`.  The detector builds epoch states and transitions directly; the
store rebuilds them from their parts through `restore`, which checks the relations between the
parts.  Both constructions are modelled as they are in the source.
-/

namespace TokenMaster.Quota

open Domain

inductive QuotaErrorCode where
  | unexpectedPrevious
  | missingPrevious
  | sampleWindowMismatch
  | stateWindowMismatch
  | previousWindowMismatch
  | statePreviousMismatch
  | definitionRevisionRegressed
  | duplicateConflict
  | invalidTransitionSequence
  | transitionSequenceOverflow
  | invalidEpochState
  | invalidTransitionState

inductive QuotaTransitionKind where
  | scheduledReset
  | earlyReset
  | manualOrBankedReset
  | unknownReset
  | allowanceChanged
  deriving DecidableEq

def QuotaTransitionKind.identityCode : QuotaTransitionKind → UInt8
  | .scheduledReset => 1
  | .earlyReset => 2
  | .manualOrBankedReset => 3
  | .unknownReset => 4
  | .allowanceChanged => 5

inductive QuotaAllowanceChangeKind where
  | increased
  | decreased
  | unitChanged

structure QuotaAllowanceChange where
  kind : QuotaAllowanceChangeKind
  oldUnits : QuotaUnits
  newUnits : QuotaUnits

/-- `QuotaAllowanceChange::restore`. -/
def QuotaAllowanceChange.restore (kind : QuotaAllowanceChangeKind) (oldUnits newUnits : QuotaUnits) :
    Except QuotaErrorCode QuotaAllowanceChange :=
  match oldUnits.capacity, newUnits.capacity with
  | some oldCapacity, some newCapacity =>
    let valid : Bool := match kind with
      | .increased => oldUnits.unitId = newUnits.unitId ∧ newCapacity > oldCapacity
      | .decreased => oldUnits.unitId = newUnits.unitId ∧ newCapacity < oldCapacity
      | .unitChanged => oldUnits.unitId ≠ newUnits.unitId
    if valid then .ok ⟨kind, oldUnits, newUnits⟩ else .error .invalidTransitionState
  | _, _ => .error .invalidTransitionState

inductive QuotaDetectionTime where
  | exact (atMs : ℤ)
  | interval (afterMs atOrBeforeMs : ℤ)

/-! ### Epoch states -/

/-- The fields of `QuotaEpochStateParts`. -/
structure QuotaEpochStateParts where
  key : QuotaWindowKey
  epochDefinitionRevision : ℕ
  definitionRevision : ℕ
  epochId : QuotaEpochId
  firstObservationId : QuotaObservationId
  lastObservationId : QuotaObservationId
  firstObservedAtMs : ℤ
  lastObservedAtMs : ℤ
  maximumUsedRatio : Option QuotaRatio
  maximumUsedRatioObservationId : Option QuotaObservationId
  maximumUsedUnits : Option QuotaUnits
  maximumUsedUnitsObservationId : Option QuotaObservationId
  providerEpochId : Option QuotaProviderEpochId
  advertisedResetsAtMs : Option ℤ
  lastTransitionSequence : ℕ

/-- An epoch state: the same fields behind a private constructor. -/
structure QuotaEpochState where
  toParts : QuotaEpochStateParts

/-- The condition under which `QuotaEpochState::restore` rejects its parts. -/
def QuotaEpochStateParts.incoherent (sha256 : Bytes → Bytes32) (p : QuotaEpochStateParts) : Bool :=
  p.epochDefinitionRevision == 0
    || p.definitionRevision < p.epochDefinitionRevision
    || p.firstObservedAtMs ≤ 0
    || p.firstObservedAtMs > p.lastObservedAtMs
    || p.advertisedResetsAtMs.any (· ≤ 0)
    || p.maximumUsedRatio.isSome != p.maximumUsedRatioObservationId.isSome
    || p.maximumUsedUnits.isSome != p.maximumUsedUnitsObservationId.isSome
    || p.maximumUsedUnits.any (·.used.isNone)
    || p.epochId != quotaEpochId sha256 p.key p.epochDefinitionRevision p.firstObservationId

def QuotaEpochState.restore (sha256 : Bytes → Bytes32) (parts : QuotaEpochStateParts) :
    Except QuotaErrorCode QuotaEpochState :=
  if parts.incoherent sha256 then .error .invalidEpochState else .ok ⟨parts⟩

/-! ### Transitions -/

/-- The fields of `QuotaTransitionParts`. -/
structure QuotaTransitionParts where
  id : QuotaTransitionId
  definitionRevision : ℕ
  sequence : ℕ
  key : QuotaWindowKey
  kind : QuotaTransitionKind
  previousEpochId : QuotaEpochId
  currentEpochId : QuotaEpochId
  preObservationId : QuotaObservationId
  postObservationId : QuotaObservationId
  maximumUsedRatioBefore : Option QuotaRatio
  maximumUsedRatioObservationIdBefore : Option QuotaObservationId
  maximumUsedUnitsBefore : Option QuotaUnits
  maximumUsedUnitsObservationIdBefore : Option QuotaObservationId
  oldResetsAtMs : Option ℤ
  newResetsAtMs : Option ℤ
  allowanceChange : Option QuotaAllowanceChange
  source : QuotaEvidenceSource
  confidence : QuotaConfidence
  detectionTime : QuotaDetectionTime

/-- A transition: the same fields behind a private constructor. -/
structure QuotaTransition where
  toParts : QuotaTransitionParts

/-- The identity input that a transition's own fields give. -/
def QuotaTransitionParts.identityInput (p : QuotaTransitionParts) : TransitionIdentityInput where
  key := p.key
  definitionRevision := p.definitionRevision
  sequence := p.sequence
  kindCode := p.kind.identityCode
  previousEpochId := p.previousEpochId
  currentEpochId := p.currentEpochId
  preObservationId := p.preObservationId
  postObservationId := p.postObservationId

def QuotaDetectionTime.isValid : QuotaDetectionTime → Bool
  | .exact atMs => atMs > 0
  | .interval afterMs atOrBeforeMs => afterMs > 0 && afterMs < atOrBeforeMs

/-- The condition under which `QuotaTransition::restore` rejects its parts. -/
def QuotaTransitionParts.incoherent (sha256 : Bytes → Bytes32) (p : QuotaTransitionParts) : Bool :=
  let resetEpochShape := p.previousEpochId != p.currentEpochId
  let allowanceShape := p.kind == .allowanceChanged && !resetEpochShape && p.allowanceChange.isSome
  let resetShape := p.kind != .allowanceChanged && resetEpochShape
  p.definitionRevision == 0
    || p.sequence == 0
    || (!allowanceShape && !resetShape)
    || p.preObservationId == p.postObservationId
    || p.maximumUsedRatioBefore.isSome != p.maximumUsedRatioObservationIdBefore.isSome
    || p.maximumUsedUnitsBefore.isSome != p.maximumUsedUnitsObservationIdBefore.isSome
    || p.maximumUsedUnitsBefore.any (·.used.isNone)
    || p.oldResetsAtMs.any (· ≤ 0)
    || p.newResetsAtMs.any (· ≤ 0)
    || !p.detectionTime.isValid
    || p.id != quotaTransitionId sha256 p.identityInput

def QuotaTransition.restore (sha256 : Bytes → Bytes32) (parts : QuotaTransitionParts) :
    Except QuotaErrorCode QuotaTransition :=
  if parts.incoherent sha256 then .error .invalidTransitionState else .ok ⟨parts⟩

/-! ### Evaluation -/

inductive QuotaEvaluation where
  | started (state : QuotaEpochState)
  | duplicate
  | stale
  | advanced (state : QuotaEpochState)
  | allowanceChanged (state : QuotaEpochState) (transition : QuotaTransition)
  | reset (state : QuotaEpochState) (transition : QuotaTransition)

inductive ResetSignal where
  | manualOrBanked
  | providerEpoch
  | explicit
  | thresholdAdvanced
  | thresholdUnknown
  deriving DecidableEq

/-- The units of a sample when they state a used amount. -/
def usedUnits (units : Option QuotaUnits) : Option QuotaUnits :=
  units.filter (·.used.isSome)

def startEpochWithSequence (sha256 : Bytes → Bytes32) (definition : QuotaWindowDefinition)
    (sample : QuotaSample) (lastTransitionSequence : ℕ) : QuotaEpochState where
  toParts :=
    { key := sample.key
      epochDefinitionRevision := definition.revision
      definitionRevision := definition.revision
      epochId := quotaEpochId sha256 sample.key definition.revision sample.observationId
      firstObservationId := sample.observationId
      lastObservationId := sample.observationId
      firstObservedAtMs := sample.observedAtMs
      lastObservedAtMs := sample.observedAtMs
      maximumUsedRatio := sample.usedRatio
      maximumUsedRatioObservationId := sample.usedRatio.map fun _ => sample.observationId
      maximumUsedUnits := usedUnits sample.units
      maximumUsedUnitsObservationId := (usedUnits sample.units).map fun _ => sample.observationId
      providerEpochId := sample.providerEpochId
      advertisedResetsAtMs := sample.advertisedResetsAtMs
      lastTransitionSequence := lastTransitionSequence }

def startEpoch (sha256 : Bytes → Bytes32) (definition : QuotaWindowDefinition)
    (sample : QuotaSample) : QuotaEpochState :=
  startEpochWithSequence sha256 definition sample 0

def maximumRatio (current : Option QuotaRatio) (currentObservationId : Option QuotaObservationId)
    (sample : Option QuotaRatio) (sampleObservationId : QuotaObservationId) :
    Option QuotaRatio × Option QuotaObservationId :=
  match current, sample with
  | some current, some sample =>
    if sample.partsPerMillion > current.partsPerMillion then
      (some sample, some sampleObservationId)
    else (some current, currentObservationId)
  | some current, none => (some current, currentObservationId)
  | none, some sample => (some sample, some sampleObservationId)
  | none, none => (none, none)

/-- `sample.used() > current.used()` on options: `None` is below every `Some`. -/
def optionGt : Option ℕ → Option ℕ → Bool
  | some a, some b => a > b
  | some _, none => true
  | none, _ => false

def maximumUnits (current : Option QuotaUnits) (currentObservationId : Option QuotaObservationId)
    (sample : Option QuotaUnits) (sampleObservationId : QuotaObservationId) :
    Option QuotaUnits × Option QuotaObservationId :=
  match current, usedUnits sample with
  | some current, some sample =>
    if current.unitId = sample.unitId then
      if optionGt sample.used current.used then (some sample, some sampleObservationId)
      else (some current, currentObservationId)
    else (none, none)
  | some current, none => (some current, currentObservationId)
  | none, some sample => (some sample, some sampleObservationId)
  | none, none => (none, none)

def advanceEpoch (definition : QuotaWindowDefinition) (current : QuotaEpochState)
    (sample : QuotaSample) : QuotaEpochState :=
  let cur := current.toParts
  let ratio := maximumRatio cur.maximumUsedRatio cur.maximumUsedRatioObservationId
    sample.usedRatio sample.observationId
  let units := maximumUnits cur.maximumUsedUnits cur.maximumUsedUnitsObservationId
    sample.units sample.observationId
  ⟨{ cur with
      definitionRevision := definition.revision
      lastObservationId := sample.observationId
      lastObservedAtMs := sample.observedAtMs
      maximumUsedRatio := ratio.1
      maximumUsedRatioObservationId := ratio.2
      maximumUsedUnits := units.1
      maximumUsedUnitsObservationId := units.2
      providerEpochId := sample.providerEpochId
      advertisedResetsAtMs := sample.advertisedResetsAtMs }⟩

/-- `Option::zip(..).is_some_and(..)`. -/
def zipAny {α β : Type} (a : Option α) (b : Option β) (p : α → β → Bool) : Bool :=
  match a, b with
  | some a, some b => p a b
  | _, _ => false

def thresholdTransition (thresholds : QuotaResetThresholds) (previous sample : QuotaSample) : Bool :=
  let usedBoundary := match thresholds.maximumPostResetUsedRatio with
    | none => true
    | some maximum => sample.usedRatio.any fun used => used.partsPerMillion ≤ maximum.partsPerMillion
  let remainingBoundary := match thresholds.minimumPostResetRemainingRatio with
    | none => true
    | some minimum => sample.remainingRatio.any fun remaining =>
        remaining.partsPerMillion ≥ minimum.partsPerMillion
  let dropBoundary := match thresholds.minimumUsedRatioDrop with
    | none => true
    | some minimum => zipAny previous.usedRatio sample.usedRatio fun previous current =>
        -- `checked_sub` is `None` when the ratio did not drop
        previous.partsPerMillion ≥ current.partsPerMillion &&
          previous.partsPerMillion - current.partsPerMillion ≥ minimum.partsPerMillion
  let directionalRecovery :=
    (zipAny previous.usedRatio sample.usedRatio fun previous current =>
      current.partsPerMillion < previous.partsPerMillion) ||
    (zipAny previous.remainingRatio sample.remainingRatio fun previous current =>
      current.partsPerMillion > previous.partsPerMillion)
  usedBoundary && remainingBoundary && dropBoundary && directionalRecovery

def detectResetSignal (definition : QuotaWindowDefinition) (previous sample : QuotaSample) :
    Option ResetSignal :=
  if sample.resetEvidence = .manualOrBanked then some .manualOrBanked
  else if zipAny previous.providerEpochId sample.providerEpochId (fun p c => p != c) then
    some .providerEpoch
  else if sample.resetEvidence = .explicitProvider ∨ sample.resetEvidence = .explicitLocal then
    some .explicit
  else if definition.semantics ≠ .fixed ∨
      (sample.quality = .conflict ∨ sample.quality = .unknown) ∨
      (sample.confidence = .low ∨ sample.confidence = .unknown) then none
  else
    match definition.resetThresholds with
    | none => none
    | some thresholds =>
      if !thresholdTransition thresholds previous sample then none
      else match previous.advertisedResetsAtMs, sample.advertisedResetsAtMs with
        | some previous, some current =>
          if current > previous then some .thresholdAdvanced else none
        | _, _ => some .thresholdUnknown

def detectAllowanceChange (previous sample : QuotaSample) : Option QuotaAllowanceChange := do
  let oldUnits ← previous.units
  let newUnits ← sample.units
  let oldCapacity ← oldUnits.capacity
  let newCapacity ← newUnits.capacity
  if oldUnits.unitId ≠ newUnits.unitId then some ⟨.unitChanged, oldUnits, newUnits⟩
  else if newCapacity > oldCapacity then some ⟨.increased, oldUnits, newUnits⟩
  else if newCapacity < oldCapacity then some ⟨.decreased, oldUnits, newUnits⟩
  else none

def exactNextSequence (current : QuotaEpochState) (nextTransitionSequence : ℕ) :
    Except QuotaErrorCode ℕ :=
  if current.toParts.lastTransitionSequence + 1 < 2 ^ 64 then
    if nextTransitionSequence ≠ current.toParts.lastTransitionSequence + 1 then
      .error .invalidTransitionSequence
    else .ok (current.toParts.lastTransitionSequence + 1)
  else .error .transitionSequenceOverflow

/-- The exact reset time of a sample when it lies after the previous observation. -/
def occurredAfter (previous sample : QuotaSample) : Option ℤ :=
  sample.resetOccurredAtMs.filter (· > previous.observedAtMs)

def resetKind (signal : ResetSignal) (previous sample : QuotaSample) : QuotaTransitionKind :=
  if signal = .manualOrBanked then .manualOrBankedReset
  else if signal = .thresholdUnknown then .unknownReset
  else match previous.advertisedResetsAtMs with
    | none => .unknownReset
    | some boundary =>
      let comparisonTime := (occurredAfter previous sample).getD sample.observedAtMs
      if comparisonTime ≥ boundary then .scheduledReset else .earlyReset

def resetConfidence (signal : ResetSignal) (sample : QuotaSample) : QuotaConfidence :=
  match signal with
  | .thresholdUnknown => .low
  | .thresholdAdvanced => if sample.quality = .partial_ then .low else sample.confidence
  | .manualOrBanked | .providerEpoch | .explicit => sample.confidence

def resetDetectionTime (previous sample : QuotaSample) : QuotaDetectionTime :=
  match occurredAfter previous sample with
  | some occurredAtMs => .exact occurredAtMs
  | none => .interval previous.observedAtMs sample.observedAtMs

def makeTransition (sha256 : Bytes → Bytes32) (definition : QuotaWindowDefinition)
    (previousState currentState : QuotaEpochState) (previous sample : QuotaSample) (sequence : ℕ)
    (kind : QuotaTransitionKind) (allowanceChange : Option QuotaAllowanceChange)
    (confidence : QuotaConfidence) (detectionTime : QuotaDetectionTime) : QuotaTransition where
  toParts :=
    { id := quotaTransitionId sha256
        { key := definition.key
          definitionRevision := definition.revision
          sequence := sequence
          kindCode := kind.identityCode
          previousEpochId := previousState.toParts.epochId
          currentEpochId := currentState.toParts.epochId
          preObservationId := previous.observationId
          postObservationId := sample.observationId }
      definitionRevision := definition.revision
      sequence := sequence
      key := definition.key
      kind := kind
      previousEpochId := previousState.toParts.epochId
      currentEpochId := currentState.toParts.epochId
      preObservationId := previous.observationId
      postObservationId := sample.observationId
      maximumUsedRatioBefore := previousState.toParts.maximumUsedRatio
      maximumUsedRatioObservationIdBefore := previousState.toParts.maximumUsedRatioObservationId
      maximumUsedUnitsBefore := previousState.toParts.maximumUsedUnits
      maximumUsedUnitsObservationIdBefore := previousState.toParts.maximumUsedUnitsObservationId
      oldResetsAtMs := previous.advertisedResetsAtMs
      newResetsAtMs := sample.advertisedResetsAtMs
      allowanceChange := allowanceChange
      source := sample.source
      confidence := confidence
      detectionTime := detectionTime }

/-- The part of `evaluate_sample` after its consistency checks: `sample` is newer than
`previous`. -/
def evaluateNewer (sha256 : Bytes → Bytes32) (definition : QuotaWindowDefinition)
    (current : QuotaEpochState) (previous sample : QuotaSample) (nextTransitionSequence : ℕ) :
    Except QuotaErrorCode QuotaEvaluation := do
  let allowanceChange := detectAllowanceChange previous sample
  match detectResetSignal definition previous sample with
  | some signal =>
    let sequence ← exactNextSequence current nextTransitionSequence
    let nextState := startEpochWithSequence sha256 definition sample sequence
    return .reset nextState (makeTransition sha256 definition current nextState previous sample
      sequence (resetKind signal previous sample) allowanceChange (resetConfidence signal sample)
      (resetDetectionTime previous sample))
  | none =>
    let nextState := advanceEpoch definition current sample
    match allowanceChange with
    | some allowanceChange =>
      let sequence ← exactNextSequence current nextTransitionSequence
      let nextState : QuotaEpochState :=
        ⟨{ nextState.toParts with lastTransitionSequence := sequence }⟩
      return .allowanceChanged nextState (makeTransition sha256 definition current nextState previous
        sample sequence .allowanceChanged (some allowanceChange) sample.confidence
        (.interval previous.observedAtMs sample.observedAtMs))
    | none => return .advanced nextState

def evaluateSample (sha256 : Bytes → Bytes32) (definition : QuotaWindowDefinition)
    (current : Option QuotaEpochState) (previous : Option QuotaSample) (sample : QuotaSample)
    (nextTransitionSequence : ℕ) : Except QuotaErrorCode QuotaEvaluation :=
  if sample.key ≠ definition.key then .error .sampleWindowMismatch
  else match current with
  | none =>
    if previous.isSome then .error .unexpectedPrevious
    else .ok (.started (startEpoch sha256 definition sample))
  | some current =>
    if current.toParts.key ≠ definition.key then .error .stateWindowMismatch
    else if definition.revision < current.toParts.definitionRevision then
      .error .definitionRevisionRegressed
    else match previous with
    | none => .error .missingPrevious
    | some previous =>
      if previous.key ≠ definition.key then .error .previousWindowMismatch
      else if current.toParts.lastObservationId ≠ previous.observationId ∨
          current.toParts.lastObservedAtMs ≠ previous.observedAtMs ∨
          current.toParts.providerEpochId ≠ previous.providerEpochId ∨
          current.toParts.advertisedResetsAtMs ≠ previous.advertisedResetsAtMs then
        .error .statePreviousMismatch
      else if sample.observationId = previous.observationId then
        if sample = previous then .ok .duplicate else .error .duplicateConflict
      else if sample.observedAtMs ≤ previous.observedAtMs then .ok .stale
      else evaluateNewer sha256 definition current previous sample nextTransitionSequence

end TokenMaster.Quota
