import TokenMaster.Quota.Detector
import TokenMaster.Store.Error

/-!
# TokenMaster.Quota.Store — the quota tables and `apply_quota_observation`

`crates/store/src/usage/quota_write.rs` over the tables of `quota_schema.rs`.  A table is a list of
rows; a row's columns are kept in their domain types (the text columns of enumerations and
identifiers are read back by the same functions that wrote them).  A window is addressed by the
digest of its scope and its window id, and a row does not store the window key: loading puts the
key of the call into the loaded value.

Constraints are modelled where they can decide an outcome: primary keys, unique indexes and the
foreign keys to samples and definitions.  A violation is a `database` error.  An error rolls the
transaction back, so a failed call leaves the store as it was.
-/

namespace TokenMaster.Quota

open Domain Store

def defaultQuotaSamplesPerWindow : ℕ := 512
def maxQuotaSamplesPerWindow : ℕ := 2048
def maxQuotaEpochsPerWindow : ℕ := 1024
def maxQuotaTransitionsPerWindow : ℕ := 1024
def maxQuotaMaintenancePageSize : ℕ := 256

/-- The pair of columns that addresses a window in every table. -/
structure WindowRef where
  scopeId : QuotaScopeId
  windowId : QuotaWindowId
  deriving DecidableEq

def windowRef (sha256 : Bytes → Bytes32) (key : QuotaWindowKey) : WindowRef :=
  ⟨quotaScopeId sha256 key.scope, key.windowId⟩

/-! ### Rows -/

structure DefinitionRow where
  window : WindowRef
  definition : QuotaWindowDefinition

structure SampleRow where
  window : WindowRef
  definitionRevision : ℕ
  sample : QuotaSample

/-- A row of `quota_epoch_current`. -/
structure EpochRow where
  window : WindowRef
  parts : QuotaEpochStateParts

/-- A row of `quota_epoch_history`. -/
structure EpochHistoryRow where
  window : WindowRef
  parts : QuotaEpochStateParts
  closingTransitionSequence : ℕ

structure TransitionRow where
  window : WindowRef
  definitionRevision : ℕ
  transition : QuotaTransition

/-- A row of `quota_window_current`. -/
structure WindowCurrentRow where
  window : WindowRef
  definitionRevision : ℕ
  sampleObservationId : QuotaObservationId
  epochId : QuotaEpochId
  observedAtMs : ℤ
  freshUntilMs : ℤ
  staleAfterMs : ℤ
  quality : QuotaSampleQuality
  source : QuotaEvidenceSource
  confidence : QuotaConfidence
  lastTransitionSequence : ℕ

/-- The one row of `quota_state`. -/
structure QuotaState where
  revision : ℕ
  retainedSampleCount : ℕ
  retainedEpochCount : ℕ
  retainedTransitionCount : ℕ
  lastPublishedAtMs : Option ℤ

structure QuotaStore where
  state : QuotaState
  definitions : List DefinitionRow
  samples : List SampleRow
  epochCurrent : List EpochRow
  epochHistory : List EpochHistoryRow
  transitions : List TransitionRow
  windowCurrent : List WindowCurrentRow

/-- The schema's initial content. -/
def QuotaStore.empty : QuotaStore := ⟨⟨0, 0, 0, 0, none⟩, [], [], [], [], [], []⟩

/-! ### References to samples -/

/-- The observation ids that an epoch row names. -/
def QuotaEpochStateParts.mentions (p : QuotaEpochStateParts) (id : QuotaObservationId) : Bool :=
  p.firstObservationId == id || p.lastObservationId == id ||
    p.maximumUsedRatioObservationId == some id || p.maximumUsedUnitsObservationId == some id

/-- The observation ids that a transition row names. -/
def QuotaTransition.mentions (t : QuotaTransition) (id : QuotaObservationId) : Bool :=
  t.toParts.preObservationId == id || t.toParts.postObservationId == id ||
    t.toParts.maximumUsedRatioObservationIdBefore == some id ||
    t.toParts.maximumUsedUnitsObservationIdBefore == some id

namespace QuotaStore

/-- Some row of the window names the sample: the negated `EXISTS` conditions of
`delete_unprotected_sample`. -/
def references (db : QuotaStore) (window : WindowRef) (id : QuotaObservationId) : Bool :=
  db.windowCurrent.any (fun r => r.window == window && r.sampleObservationId == id) ||
    db.epochCurrent.any (fun r => r.window == window && r.parts.mentions id) ||
    db.epochHistory.any (fun r => r.window == window && r.parts.mentions id) ||
    db.transitions.any (fun r => r.window == window && r.transition.mentions id)

/-- A sample row of the window with this id. -/
def sampleStored (db : QuotaStore) (window : WindowRef) (id : QuotaObservationId) : Bool :=
  db.samples.any fun r => r.window == window && r.sample.observationId == id

/-- A sample row of the window with this id and definition revision. -/
def sampleStoredAt (db : QuotaStore) (window : WindowRef) (revision : ℕ)
    (id : QuotaObservationId) : Bool :=
  db.samples.any fun r => r.window == window && r.definitionRevision == revision &&
    r.sample.observationId == id

def optionSampleStored (db : QuotaStore) (window : WindowRef) : Option QuotaObservationId → Bool
  | none => true
  | some id => db.sampleStored window id

def definitionStored (db : QuotaStore) (window : WindowRef) (revision : ℕ) : Bool :=
  db.definitions.any fun r => r.window == window && r.definition.revision == revision

/-- The foreign keys of an epoch row. -/
def epochReferencesHold (db : QuotaStore) (window : WindowRef) (p : QuotaEpochStateParts) : Bool :=
  db.definitionStored window p.epochDefinitionRevision &&
    db.definitionStored window p.definitionRevision &&
    db.sampleStoredAt window p.epochDefinitionRevision p.firstObservationId &&
    db.sampleStoredAt window p.definitionRevision p.lastObservationId &&
    db.optionSampleStored window p.maximumUsedRatioObservationId &&
    db.optionSampleStored window p.maximumUsedUnitsObservationId

/-- The foreign keys of a transition row. -/
def transitionReferencesHold (db : QuotaStore) (window : WindowRef) (revision : ℕ)
    (p : QuotaTransitionParts) : Bool :=
  db.definitionStored window revision && db.sampleStored window p.preObservationId &&
    db.sampleStoredAt window revision p.postObservationId &&
    db.optionSampleStored window p.maximumUsedRatioObservationIdBefore &&
    db.optionSampleStored window p.maximumUsedUnitsObservationIdBefore

end QuotaStore

/-- A statement whose constraints hold. -/
def constrained (holds : Bool) (db : QuotaStore) : Except StoreError QuotaStore :=
  if holds then .ok db else .error (.new .database)

/-- `input_optional_i64` on the three amounts of a unit value. -/
def unitsFit (units : Option QuotaUnits) : Bool :=
  match units with
  | none => true
  | some units =>
    optionFitsI64 units.used && optionFitsI64 units.remaining && optionFitsI64 units.capacity

def requireInput (holds : Bool) : Except StoreError Unit :=
  if holds then .ok () else .error (.new .invalidValue)

/-! ### Reads -/

def loadQuotaState (db : QuotaStore) : Except StoreError QuotaState :=
  if (db.state.revision == 0) != db.state.lastPublishedAtMs.isNone then
    .error (.new .invalidStoredValue)
  else .ok db.state

/-- `validate_definition`: whether the definition revision is already stored, with equal content. -/
def validateDefinition (db : QuotaStore) (window : WindowRef) (definition : QuotaWindowDefinition) :
    Except StoreError Bool :=
  if db.definitions.any fun r => r.window == window &&
      decide (definition.revision < r.definition.revision) then .error (.new .staleRevision)
  else if !db.definitionStored window definition.revision then .ok false
  else do
    requireInput (optionFitsI64 definition.nominalDurationSeconds)
    if db.definitions.any fun r => r.window == window && r.definition == definition then .ok true
    else .error (.new .invalidValue)

/-- The columns of a sample row agree with a sample: everything but the window key. -/
def SampleRow.agrees (r : SampleRow) (window : WindowRef) (sample : QuotaSample) : Bool :=
  r.window == window &&
    { r.sample.toQuotaSampleParts with key := sample.key } == sample.toQuotaSampleParts

def validateObservationIdentity (db : QuotaStore) (window : WindowRef) (sample : QuotaSample) :
    Except StoreError Bool :=
  if !db.samples.any fun r => r.sample.observationId == sample.observationId then .ok false
  else do
    requireInput (unitsFit sample.units)
    if db.samples.any fun r => r.agrees window sample then .ok true
    else .error (.new .invalidValue)

/-- `restore_epoch`: the identity is recomputed from the key of the call. -/
def restoreEpoch (sha256 : Bytes → Bytes32) (key : QuotaWindowKey) (stored : QuotaEpochStateParts) :
    Except StoreError QuotaEpochState :=
  let parts := { stored with key := key }
  if quotaEpochId sha256 key parts.epochDefinitionRevision parts.firstObservationId ≠
      parts.epochId then .error (.new .invalidStoredValue)
  else match QuotaEpochState.restore sha256 parts with
    | .ok state => .ok state
    | .error _ => .error (.new .invalidStoredValue)

def loadCurrentEpoch (sha256 : Bytes → Bytes32) (db : QuotaStore) (key : QuotaWindowKey)
    (window : WindowRef) : Except StoreError (Option QuotaEpochState) :=
  match db.epochCurrent.find? (fun r => r.window == window) with
  | none => .ok none
  | some row => (restoreEpoch sha256 key row.parts).map some

def restoreSample (key : QuotaWindowKey) (stored : QuotaSample) : Except StoreError QuotaSample :=
  match QuotaSample.new { stored.toQuotaSampleParts with key := key } with
  | .ok sample => .ok sample
  | .error _ => .error (.new .invalidStoredValue)

def loadPreviousSample (db : QuotaStore) (key : QuotaWindowKey) (window : WindowRef)
    (current : QuotaEpochState) : Except StoreError QuotaSample :=
  match db.samples.find? (fun r =>
      r.window == window && r.sample.observationId == current.toParts.lastObservationId) with
  | none => .error (.new .invalidStoredValue)
  | some row =>
    if row.definitionRevision ≠ current.toParts.definitionRevision then
      .error (.new .invalidStoredValue)
    else restoreSample key row.sample

/-- The projection row agrees with the loaded epoch and sample. -/
def WindowCurrentRow.agrees (r : WindowCurrentRow) (current : QuotaEpochState)
    (previous : QuotaSample) : Bool :=
  r.definitionRevision == current.toParts.definitionRevision &&
    r.sampleObservationId == previous.observationId &&
    r.epochId == current.toParts.epochId &&
    r.observedAtMs == previous.observedAtMs &&
    r.freshUntilMs == previous.freshUntilMs &&
    r.staleAfterMs == previous.staleAfterMs &&
    r.quality == previous.quality &&
    r.source == previous.source &&
    r.confidence == previous.confidence &&
    r.lastTransitionSequence == current.toParts.lastTransitionSequence

def validateCurrentProjection (db : QuotaStore) (window : WindowRef)
    (current : Option QuotaEpochState) (previous : Option QuotaSample) : Except StoreError Unit :=
  match db.windowCurrent.find? (fun r => r.window == window), current, previous with
  | none, none, none => .ok ()
  | some stored, some current, some previous =>
    if stored.agrees current previous then .ok () else .error (.new .invalidStoredValue)
  | _, _, _ => .error (.new .invalidStoredValue)

def mapQuotaError : QuotaErrorCode → StoreError
  | .sampleWindowMismatch => .new .invalidValue
  | .definitionRevisionRegressed => .new .staleRevision
  | .duplicateConflict => .new .invalidValue
  | .transitionSequenceOverflow => .new .capacityExceeded
  | .unexpectedPrevious | .missingPrevious | .stateWindowMismatch | .previousWindowMismatch
  | .statePreviousMismatch | .invalidTransitionSequence | .invalidEpochState
  | .invalidTransitionState => .new .invalidStoredValue

/-! ### Writes -/

def insertDefinition (db : QuotaStore) (window : WindowRef) (definition : QuotaWindowDefinition) :
    Except StoreError QuotaStore := do
  requireInput (optionFitsI64 definition.nominalDurationSeconds)
  constrained (!db.definitionStored window definition.revision)
    { db with definitions := db.definitions ++ [⟨window, definition⟩] }

def insertSample (db : QuotaStore) (window : WindowRef) (revision : ℕ) (sample : QuotaSample) :
    Except StoreError QuotaStore := do
  requireInput (unitsFit sample.units)
  constrained (db.definitionStored window revision &&
      !db.samples.any fun r => r.sample.observationId == sample.observationId)
    { db with samples := db.samples ++ [⟨window, revision, sample⟩] }

/-- The delete of the window's projection row. -/
def deleteWindowCurrent (db : QuotaStore) (window : WindowRef) : QuotaStore :=
  { db with windowCurrent := db.windowCurrent.filter fun r => r.window != window }

def insertEpochHistory (db : QuotaStore) (window : WindowRef) (state : QuotaEpochState)
    (closingTransitionSequence : ℕ) : Except StoreError QuotaStore := do
  let p := state.toParts
  requireInput (decide (p.epochDefinitionRevision ≤ i64Max) && decide (p.definitionRevision ≤ i64Max))
  requireInput (unitsFit p.maximumUsedUnits)
  checkI64 .capacityExceeded closingTransitionSequence
  constrained (db.epochReferencesHold window p &&
      !db.epochHistory.any fun r => r.parts.epochId == p.epochId || (r.window == window &&
        r.closingTransitionSequence == closingTransitionSequence))
    { db with epochHistory := db.epochHistory ++ [⟨window, p, closingTransitionSequence⟩] }

/-- `write_current_epoch`: an upsert on the window; `epoch_id` is unique over all windows. -/
def writeCurrentEpoch (db : QuotaStore) (window : WindowRef) (state : QuotaEpochState) :
    Except StoreError QuotaStore := do
  let p := state.toParts
  requireInput (decide (p.epochDefinitionRevision ≤ i64Max) && decide (p.definitionRevision ≤ i64Max))
  requireInput (unitsFit p.maximumUsedUnits)
  checkI64 .capacityExceeded p.lastTransitionSequence
  constrained (db.epochReferencesHold window p &&
      !db.epochCurrent.any fun r => r.window != window && r.parts.epochId == p.epochId)
    { db with
      epochCurrent := (db.epochCurrent.filter fun r => r.window != window) ++ [⟨window, p⟩] }

def insertTransition (db : QuotaStore) (window : WindowRef) (revision : ℕ)
    (transition : QuotaTransition) : Except StoreError QuotaStore := do
  let p := transition.toParts
  checkI64 .capacityExceeded p.sequence
  requireInput (unitsFit p.maximumUsedUnitsBefore)
  requireInput (unitsFit (p.allowanceChange.map (·.oldUnits)) &&
    unitsFit (p.allowanceChange.map (·.newUnits)))
  constrained (db.transitionReferencesHold window revision p &&
      !db.transitions.any fun r => r.transition.toParts.id == p.id || (r.window == window &&
        r.transition.toParts.sequence == p.sequence))
    { db with transitions := db.transitions ++ [⟨window, revision, transition⟩] }

def insertWindowCurrent (db : QuotaStore) (window : WindowRef) (revision : ℕ) (sample : QuotaSample)
    (state : QuotaEpochState) : Except StoreError QuotaStore := do
  checkI64 .capacityExceeded state.toParts.lastTransitionSequence
  constrained (db.definitionStored window revision &&
      db.sampleStoredAt window revision sample.observationId &&
      (db.epochCurrent.any fun r => r.window == window && r.parts.definitionRevision == revision &&
        r.parts.epochId == state.toParts.epochId) &&
      !db.windowCurrent.any fun r => r.window == window)
    { db with
      windowCurrent := db.windowCurrent ++
        [{ window := window
           definitionRevision := revision
           sampleObservationId := sample.observationId
           epochId := state.toParts.epochId
           observedAtMs := sample.observedAtMs
           freshUntilMs := sample.freshUntilMs
           staleAfterMs := sample.staleAfterMs
           quality := sample.quality
           source := sample.source
           confidence := sample.confidence
           lastTransitionSequence := state.toParts.lastTransitionSequence }] }

def samplesAreRedundant (previous next : QuotaSample) : Bool :=
  previous.key == next.key &&
    previous.providerEpochId == next.providerEpochId &&
    previous.usedRatio == next.usedRatio &&
    previous.remainingRatio == next.remainingRatio &&
    previous.units == next.units &&
    previous.advertisedResetsAtMs == next.advertisedResetsAtMs &&
    previous.quality == next.quality &&
    previous.source == next.source &&
    previous.confidence == next.confidence &&
    previous.resetEvidence == next.resetEvidence &&
    previous.resetOccurredAtMs == next.resetOccurredAtMs

/-- The row that `delete_unprotected_sample` deletes. -/
def SampleRow.addressedBy (r : SampleRow) (window : WindowRef) (id : QuotaObservationId) : Bool :=
  r.window == window && r.sample.observationId == id

/-- `delete_unprotected_sample`: the new store and whether a row was deleted. -/
def deleteUnprotectedSample (db : QuotaStore) (window : WindowRef) (id : QuotaObservationId) :
    QuotaStore × Bool :=
  if db.references window id then (db, false)
  else ({ db with samples := db.samples.filter fun r => !r.addressedBy window id },
    db.sampleStored window id)

structure QuotaWindowCounts where
  samples : ℕ
  closedEpochs : ℕ
  transitions : ℕ

def quotaWindowCounts (db : QuotaStore) (window : WindowRef) : QuotaWindowCounts where
  samples := db.samples.countP fun r => r.window == window
  closedEpochs := db.epochHistory.countP fun r => r.window == window
  transitions := db.transitions.countP fun r => r.window == window

def enforceQuotaWindowHardCaps (db : QuotaStore) (window : WindowRef) : Except StoreError Unit :=
  let counts := quotaWindowCounts db window
  if counts.samples > maxQuotaSamplesPerWindow then
    .error (.withLimit .capacityExceeded maxQuotaSamplesPerWindow)
  else if counts.transitions > maxQuotaTransitionsPerWindow then
    .error (.withLimit .capacityExceeded maxQuotaTransitionsPerWindow)
  else if counts.closedEpochs > maxQuotaEpochsPerWindow then
    .error (.withLimit .capacityExceeded maxQuotaEpochsPerWindow)
  else .ok ()

/-- `QuotaRevision::next`. -/
def nextQuotaRevision (revision : ℕ) : Except StoreError ℕ :=
  if revision + 1 ≤ i64Max then .ok (revision + 1) else .error (.new .capacityExceeded)

/-- `checked_count`. -/
def checkedCount (current increment : ℕ) : Except StoreError ℕ :=
  if current + increment ≤ i64Max then .ok (current + increment)
  else .error (.new .capacityExceeded)

def publishQuotaState (db : QuotaStore) (state : QuotaState) (nextRevision : ℕ) (observedAtMs : ℤ)
    (sampleCountDelta : ℕ) (epochClosed transitionInserted : Bool) : Except StoreError QuotaStore := do
  let retainedSampleCount ← checkedCount state.retainedSampleCount sampleCountDelta
  let retainedEpochCount ← checkedCount state.retainedEpochCount epochClosed.toNat
  let retainedTransitionCount ←
    checkedCount state.retainedTransitionCount transitionInserted.toNat
  let lastPublishedAtMs := match state.lastPublishedAtMs with
    | none => observedAtMs
    | some current => max current observedAtMs
  return { db with
    state := ⟨nextRevision, retainedSampleCount, retainedEpochCount, retainedTransitionCount,
      some lastPublishedAtMs⟩ }

/-! ### Applying an observation -/

inductive QuotaApplyStatus where
  | started
  | duplicate
  | stale
  | advanced
  | allowanceChanged
  | reset
  deriving DecidableEq

structure QuotaApplyResult where
  status : QuotaApplyStatus
  quotaRevision : ℕ
  transitionSequence : ℕ
  transitionId : Option QuotaTransitionId

/-- What an accepted evaluation writes: the status, the next state, its transition and whether the
epoch before it is closed. -/
structure AcceptedEvaluation where
  status : QuotaApplyStatus
  nextState : QuotaEpochState
  transition : Option QuotaTransition
  closesEpoch : Bool

def QuotaEvaluation.accepted? : QuotaEvaluation → Option AcceptedEvaluation
  | .started state => some ⟨.started, state, none, false⟩
  | .advanced state => some ⟨.advanced, state, none, false⟩
  | .allowanceChanged state transition => some ⟨.allowanceChanged, state, some transition, false⟩
  | .reset state transition => some ⟨.reset, state, some transition, true⟩
  | .duplicate | .stale => none

/-- The status of an evaluation that writes nothing. -/
def QuotaEvaluation.noOpStatus : QuotaEvaluation → QuotaApplyStatus
  | .duplicate => .duplicate
  | _ => .stale

/-- What `apply_quota_observation` has read before it evaluates the sample. -/
structure LoadedWindow where
  state : QuotaState
  definitionExists : Bool
  observationExists : Bool
  current : Option QuotaEpochState
  previous : Option QuotaSample

/-- The previous sample is the last one of the current epoch. -/
def loadPrevious (db : QuotaStore) (key : QuotaWindowKey) (window : WindowRef) :
    Option QuotaEpochState → Except StoreError (Option QuotaSample)
  | some current => (loadPreviousSample db key window current).map some
  | none => .ok none

def loadWindow (sha256 : Bytes → Bytes32) (db : QuotaStore) (window : WindowRef)
    (definition : QuotaWindowDefinition) (sample : QuotaSample) : Except StoreError LoadedWindow := do
  let state ← loadQuotaState db
  let definitionExists ← validateDefinition db window definition
  let observationExists ← validateObservationIdentity db window sample
  let current ← loadCurrentEpoch sha256 db definition.key window
  let previous ← loadPrevious db definition.key window current
  validateCurrentProjection db window current previous
  return ⟨state, definitionExists, observationExists, current, previous⟩

/-- `saturating_add(1)` on the last transition sequence, zero without an epoch. -/
def nextTransitionSequence : Option QuotaEpochState → ℕ
  | none => 0
  | some current => min (current.toParts.lastTransitionSequence + 1) (2 ^ 64 - 1)

def lastTransitionSequence : Option QuotaEpochState → ℕ
  | none => 0
  | some current => current.toParts.lastTransitionSequence

def ensureDefinition (db : QuotaStore) (window : WindowRef) (definition : QuotaWindowDefinition)
    (definitionExists : Bool) : Except StoreError QuotaStore :=
  if definitionExists then .ok db else insertDefinition db window definition

/-- A reset moves the epoch before it to the history. -/
def closePriorEpoch (db : QuotaStore) (window : WindowRef) (prior : Option QuotaEpochState)
    (accepted : AcceptedEvaluation) : Except StoreError QuotaStore :=
  if accepted.closesEpoch then
    match prior, accepted.transition with
    | some prior, some transition => insertEpochHistory db window prior transition.toParts.sequence
    | _, _ => .error (.new .invalidStoredValue)
  else .ok db

def storeTransition (db : QuotaStore) (window : WindowRef) (revision : ℕ) :
    Option QuotaTransition → Except StoreError QuotaStore
  | some transition => insertTransition db window revision transition
  | none => .ok db

/-- The rows of an accepted evaluation: definition, sample, closed epoch, current epoch,
transition and projection, in the source's order. -/
def writeAccepted (db : QuotaStore) (window : WindowRef) (definition : QuotaWindowDefinition)
    (sample : QuotaSample) (loaded : LoadedWindow) (accepted : AcceptedEvaluation) :
    Except StoreError QuotaStore := do
  let db ← ensureDefinition db window definition loaded.definitionExists
  let db ← insertSample db window definition.revision sample
  let db ← closePriorEpoch (deleteWindowCurrent db window) window loaded.current accepted
  let db ← writeCurrentEpoch db window accepted.nextState
  let db ← storeTransition db window definition.revision accepted.transition
  insertWindowCurrent db window definition.revision sample accepted.nextState

/-- Whether the previous sample is pruned, and the store after that. -/
def prunePrevious (db : QuotaStore) (window : WindowRef) (definition : QuotaWindowDefinition)
    (sample : QuotaSample) (loaded : LoadedWindow) (accepted : AcceptedEvaluation) :
    QuotaStore × Bool :=
  match loaded.current, loaded.previous with
  | some current, some previous =>
    if accepted.status == .advanced && current.toParts.definitionRevision == definition.revision &&
        samplesAreRedundant previous sample then
      deleteUnprotectedSample db window previous.observationId
    else (db, false)
  | _, _ => (db, false)

/-- The caps and the state row, after the pruning of the previous sample. -/
def publishAccepted (pruned : QuotaStore × Bool) (window : WindowRef) (sample : QuotaSample)
    (loaded : LoadedWindow) (accepted : AcceptedEvaluation) :
    Except StoreError (QuotaStore × QuotaApplyResult) := do
  enforceQuotaWindowHardCaps pruned.1 window
  let nextRevision ← nextQuotaRevision loaded.state.revision
  let published ← publishQuotaState pruned.1 loaded.state nextRevision sample.observedAtMs
    (1 - pruned.2.toNat) accepted.closesEpoch accepted.transition.isSome
  return (published, ⟨accepted.status, nextRevision,
    accepted.nextState.toParts.lastTransitionSequence, accepted.transition.map (·.toParts.id)⟩)

/-- The write phase of an accepted evaluation. -/
def commitAccepted (db : QuotaStore) (window : WindowRef) (definition : QuotaWindowDefinition)
    (sample : QuotaSample) (loaded : LoadedWindow) (accepted : AcceptedEvaluation) :
    Except StoreError (QuotaStore × QuotaApplyResult) := do
  let written ← writeAccepted db window definition sample loaded accepted
  publishAccepted (prunePrevious written window definition sample loaded accepted) window sample
    loaded accepted

def applyQuotaObservation (sha256 : Bytes → Bytes32) (db : QuotaStore)
    (definition : QuotaWindowDefinition) (sample : QuotaSample) :
    Except StoreError (QuotaStore × QuotaApplyResult) :=
  if definition.key ≠ sample.key then .error (.new .invalidValue)
  else do
    checkI64 .invalidValue definition.revision
    let window := windowRef sha256 definition.key
    let loaded ← loadWindow sha256 db window definition sample
    let evaluation ← (evaluateSample sha256 definition loaded.current loaded.previous sample
      (nextTransitionSequence loaded.current)).mapError mapQuotaError
    match evaluation.accepted? with
    | none =>
      .ok (db, ⟨evaluation.noOpStatus, loaded.state.revision,
        lastTransitionSequence loaded.current, none⟩)
    | some accepted =>
      if loaded.observationExists then .error (.new .invalidValue)
      else commitAccepted db window definition sample loaded accepted

end TokenMaster.Quota
