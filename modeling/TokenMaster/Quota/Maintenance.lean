import TokenMaster.Quota.Store

/-!
# TokenMaster.Quota.Maintenance — retention pages and mixed runs

`crates/store/src/usage/quota_maintenance.rs`: a page deletes up to its budget of sample rows that
a newer row of the same window repeats and that no other table names.  `runQuota` is a history of
one store in which observations and pages come in any order; a failed call rolls back.
-/

namespace TokenMaster.Quota

open Domain Store

structure QuotaMaintenanceResult where
  examinedSamples : ℕ
  deletedSamples : ℕ
  remainingSamples : ℕ
  remainingClosedEpochs : ℕ
  remainingTransitions : ℕ

/-- The order of retention: observation time, then observation id. -/
def SampleRow.before (a b : SampleRow) : Bool :=
  decide (a.sample.observedAtMs < b.sample.observedAtMs) ||
    (a.sample.observedAtMs == b.sample.observedAtMs &&
      decide (a.sample.observationId.asBytes < b.sample.observationId.asBytes))

/-- `newer` repeats the facts of `older` in the same window and definition revision. -/
def SampleRow.supersededBy (older newer : SampleRow) : Bool :=
  newer.window == older.window && newer.definitionRevision == older.definitionRevision &&
    older.before newer &&
    newer.sample.providerEpochId == older.sample.providerEpochId &&
    newer.sample.usedRatio == older.sample.usedRatio &&
    newer.sample.remainingRatio == older.sample.remainingRatio &&
    newer.sample.units == older.sample.units &&
    newer.sample.advertisedResetsAtMs == older.sample.advertisedResetsAtMs &&
    newer.sample.quality == older.sample.quality &&
    newer.sample.source == older.sample.source &&
    newer.sample.confidence == older.sample.confidence &&
    newer.sample.resetEvidence == older.sample.resetEvidence &&
    newer.sample.resetOccurredAtMs == older.sample.resetOccurredAtMs

def redundantSampleCandidates (db : QuotaStore) (window : WindowRef) (limit : ℕ) :
    List QuotaObservationId :=
  let rows := db.samples.filter fun older => older.window == window &&
    (db.samples.any fun newer => older.supersededBy newer) &&
    !db.references window older.sample.observationId
  ((rows.mergeSort fun a b => !b.before a).take limit).map (·.sample.observationId)

/-- The delete loop of a page: a candidate that cannot be deleted is an error. -/
def deleteCandidates (db : QuotaStore) (window : WindowRef) :
    List QuotaObservationId → Except StoreError QuotaStore
  | [] => .ok db
  | id :: ids =>
    let (next, deleted) := deleteUnprotectedSample db window id
    if deleted then deleteCandidates next window ids else .error (.new .invalidStoredValue)

/-- The guarded update of the sample counter. -/
def subtractSampleCount (db : QuotaStore) (deleted : ℕ) : Except StoreError QuotaStore :=
  if db.state.retainedSampleCount < deleted then .error (.new .invalidStoredValue)
  else .ok { db with
    state := { db.state with retainedSampleCount := db.state.retainedSampleCount - deleted } }

def maintainQuotaHistoryPage (sha256 : Bytes → Bytes32) (db : QuotaStore) (key : QuotaWindowKey)
    (pageSize : ℕ) : Except StoreError (QuotaStore × QuotaMaintenanceResult) :=
  if pageSize = 0 then .error (.new .invalidValue)
  else if pageSize > maxQuotaMaintenancePageSize then
    .error (.withLimit .capacityExceeded maxQuotaMaintenancePageSize)
  else do
    let window := windowRef sha256 key
    let budget := min ((quotaWindowCounts db window).samples - defaultQuotaSamplesPerWindow) pageSize
    let candidates := redundantSampleCandidates db window budget
    let deleted ← deleteCandidates db window candidates
    let next ← subtractSampleCount deleted candidates.length
    let remaining := quotaWindowCounts next window
    return (next, ⟨candidates.length, candidates.length, remaining.samples, remaining.closedEpochs,
      remaining.transitions⟩)

/-! ### Histories -/

/-- The two calls that change the quota tables. -/
inductive QuotaCall where
  | observe (definition : QuotaWindowDefinition) (sample : QuotaSample)
  | maintain (key : QuotaWindowKey) (pageSize : ℕ)

def QuotaCall.isObserve : QuotaCall → Bool
  | .observe _ _ => true
  | .maintain _ _ => false

/-- What the caller of `apply_quota_observation` sees. -/
abbrev QuotaOutcome := Except StoreError QuotaApplyResult

/-- One call: the store after it, and the outcome when it was an observation. -/
def stepQuota (sha256 : Bytes → Bytes32) (db : QuotaStore) :
    QuotaCall → QuotaStore × List QuotaOutcome
  | .observe definition sample =>
    match applyQuotaObservation sha256 db definition sample with
    | .ok (next, result) => (next, [.ok result])
    | .error error => (db, [.error error])
  | .maintain key pageSize =>
    match maintainQuotaHistoryPage sha256 db key pageSize with
    | .ok (next, _) => (next, [])
    | .error _ => (db, [])

def runQuota (sha256 : Bytes → Bytes32) (db : QuotaStore) :
    List QuotaCall → QuotaStore × List QuotaOutcome
  | [] => (db, [])
  | call :: calls =>
    let (next, outcome) := stepQuota sha256 db call
    let (last, outcomes) := runQuota sha256 next calls
    (last, outcome ++ outcomes)

end TokenMaster.Quota
