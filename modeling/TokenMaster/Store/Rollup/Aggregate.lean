import TokenMaster.Lib.Paging
import TokenMaster.Store.Error
import TokenMaster.Store.Rollup.Rollups

/-!
# TokenMaster.Store.Rollup.Aggregate — triggers of `usage_event` and the paged rebuild

The part of the usage database that the rollups depend on, statements on `usage_event` with their
triggers (`crates/store/src/usage/{schema,price_schema}.rs`), and `rebuild_aggregates_page`
(`crates/store/src/usage/aggregate.rs`).  A statement that is refused and a transaction that fails
leave the database as it was.
-/

namespace TokenMaster.Store

open TokenMaster.Domain (LongContextState ActivityKind)
open Rollup

/-! ### The database -/

/-- `usage_aggregate_state.state`. -/
inductive AggregatePhase where
  | ready
  | rebuildRequired
  | rebuilding
  | failed
  deriving DecidableEq

/-- `rebuild_dataset_kind`. -/
inductive RebuildDataset where
  | cleanup
  | dataset (kind : DatasetKind)

/-- The row of `usage_aggregate_state`. -/
structure AggregateState where
  state : AggregatePhase
  expectedDatasetGeneration : ℕ
  activeAggregateGeneration : ℕ
  rebuildAggregateGeneration : Option ℕ
  currentEventCount : ℕ
  legacyEventCount : ℕ
  rebuildDatasetKind : Option RebuildDataset
  rebuildCursorFingerprint : Option ℕ
  rebuildProcessedEvents : ℕ
  rebuildTotalEvents : ℕ

structure UsageDb where
  events : List UsageEvent
  legacy : List LegacyEvent
  sources : List UsageSource
  datasetGeneration : ℕ
  aggregate : AggregateState
  rollups : Rollups

/-- The rows that a page of a dataset is read from. -/
def UsageDb.datasetRows (db : UsageDb) : DatasetKind → List UsageEvent
  | .current => db.events
  | .legacy => db.legacy.map (LegacyEvent.resolve db.sources)

/-! ### Triggers -/

namespace UsageDb

variable (db : UsageDb)

/-- What the two updates of a dataset trigger store; `count` is the new `current_event_count`. -/
def touched (count : ℕ) : UsageDb :=
  { db with
    datasetGeneration := db.datasetGeneration + 1
    aggregate := {
      state := if db.aggregate.state = .ready then .ready else .rebuildRequired
      expectedDatasetGeneration := db.datasetGeneration + 1
      activeAggregateGeneration := db.aggregate.activeAggregateGeneration
      rebuildAggregateGeneration := none
      currentEventCount := count
      legacyEventCount := db.aggregate.legacyEventCount
      rebuildDatasetKind := none
      rebuildCursorFingerprint := none
      rebuildProcessedEvents := 0
      rebuildTotalEvents := count + db.aggregate.legacyEventCount } }

/-- The sum of the two counts has to be in range. -/
def touch (count : ℕ) : Except TriggerAbort UsageDb := do
  Except.require .constraint (count + db.aggregate.legacyEventCount ≤ i64Max)
  .ok (db.touched count)

/-- `usage_event_dataset_generation_after_insert`. -/
def datasetInsertTrigger : Except TriggerAbort UsageDb := do
  Except.require .datasetGenerationExhausted (db.datasetGeneration ≠ i64Max)
  Except.require .eventCountExhausted (db.aggregate.currentEventCount ≠ i64Max)
  db.touch (db.aggregate.currentEventCount + 1)

/-- `usage_event_dataset_generation_after_update`. -/
def datasetUpdateTrigger : Except TriggerAbort UsageDb := do
  Except.require .datasetGenerationExhausted (db.datasetGeneration ≠ i64Max)
  db.touch db.aggregate.currentEventCount

/-- `usage_event_dataset_generation_after_delete`. -/
def datasetDeleteTrigger : Except TriggerAbort UsageDb := do
  Except.require .datasetGenerationExhausted (db.datasetGeneration ≠ i64Max)
  Except.require .eventCountUnderflow (db.aggregate.currentEventCount ≠ 0)
  db.touch (db.aggregate.currentEventCount - 1)

/-- The rollup triggers run `WHEN` the state is `ready`. -/
def rollupTriggers (body : (name : RollupName) → ℕ → Rows name.Key name.Cell →
    Except TriggerAbort (Rows name.Key name.Cell)) : Except TriggerAbort UsageDb :=
  if db.aggregate.state = .ready then do
    let rollups ← db.rollups.change fun name => body name db.aggregate.activeAggregateGeneration
    .ok { db with rollups := rollups }
  else .ok db

end UsageDb

/-! ### Statements -/

/-- The columns are in range, and the nanoseconds pass their `CHECK`. -/
def UsageEvent.Storable (event : UsageEvent) : Prop :=
  fitsI64 event.timestampSeconds ∧ event.timestampNanos ≤ 999999999 ∧
    (∀ kind, optionFitsI64 (event.tokens kind) = true) ∧ (∀ kind, event.activity kind ≤ i64Max) ∧
    optionFitsI64 event.reportedCostUsdMicros = true

instance (event : UsageEvent) : Decidable event.Storable := inferInstanceAs (Decidable (_ ∧ _))

inductive StatementError where
  | primaryKey
  | row
  | trigger (abort : TriggerAbort)
  deriving DecidableEq

/-- A statement that inserts, updates or deletes one row of `usage_event`. -/
inductive Modification where
  | insert (new : UsageEvent)
  | update (fingerprint : ℕ) (new : UsageEvent)
  | delete (fingerprint : ℕ)

namespace UsageDb

variable (db : UsageDb)

/-- The rows with another fingerprint. -/
def otherEvents (fingerprint : ℕ) : List UsageEvent :=
  db.events.filter fun event => event.fingerprint ≠ fingerprint

def insertEvent (new : UsageEvent) : Except StatementError UsageDb := do
  Except.require .primaryKey (∀ event ∈ db.events, event.fingerprint ≠ new.fingerprint)
  Except.require .row new.Storable
  (do
    let db ← { db with events := new :: db.events }.datasetInsertTrigger
    db.rollupTriggers fun name active => name.table.insertTrigger active new).mapError .trigger

def updateEvent (old new : UsageEvent) : Except StatementError UsageDb := do
  let events := new :: db.otherEvents old.fingerprint
  Except.require .primaryKey
    (∀ event ∈ db.otherEvents old.fingerprint, event.fingerprint ≠ new.fingerprint)
  Except.require .row new.Storable
  (do
    let db ← { db with events := events }.datasetUpdateTrigger
    db.rollupTriggers fun name active => name.table.updateTrigger active events old new).mapError
      .trigger

def deleteEvent (old : UsageEvent) : Except StatementError UsageDb :=
  (do
    let events := db.otherEvents old.fingerprint
    let db ← { db with events := events }.datasetDeleteTrigger
    db.rollupTriggers fun name active => name.table.deleteTrigger active events old).mapError .trigger

end UsageDb

/-- A row that is not there is neither updated nor deleted. -/
def Modification.apply : Modification → UsageDb → Except StatementError UsageDb
  | insert new, db => db.insertEvent new
  | update fingerprint new, db =>
    match db.events.find? fun event => event.fingerprint == fingerprint with
    | none => .ok db
    | some old => db.updateEvent old new
  | delete fingerprint, db =>
    match db.events.find? fun event => event.fingerprint == fingerprint with
    | none => .ok db
    | some old => db.deleteEvent old

/-! ### The rebuild -/

def maxAggregateRebuildPageSize : ℕ := 2048

inductive AggregateRebuildStatus where
  | ready
  | rebuilding
  | restarted

structure AggregateRebuildProgress where
  status : AggregateRebuildStatus
  processedEvents : ℕ
  totalEvents : ℕ

instance : Fintype RollupName where
  elems := {.time, .session, .priceTime, .priceSession}
  complete := by
    intro name
    cases name <;> decide

namespace UsageDb

variable (db : UsageDb)

def resetRebuild : Except StoreError UsageDb := do
  let aggregate := db.aggregate
  let total := aggregate.currentEventCount + aggregate.legacyEventCount
  Except.require (.new .invalidStoredValue) (total ≤ i64Max)
  .ok { db with aggregate := { aggregate with
    state := .rebuildRequired
    expectedDatasetGeneration := db.datasetGeneration
    rebuildAggregateGeneration := none
    rebuildDatasetKind := none
    rebuildCursorFingerprint := none
    rebuildProcessedEvents := 0
    rebuildTotalEvents := total } }

/-- The update that starts a rebuild, with the cleanup first. -/
def beginRebuild : Except StoreError UsageDb := do
  let aggregate := db.aggregate
  let total := aggregate.currentEventCount + aggregate.legacyEventCount
  let target := if aggregate.activeAggregateGeneration = i64Max then 0
    else aggregate.activeAggregateGeneration + 1
  Except.require (.new .database) (total ≤ i64Max)
  .ok { db with aggregate := { aggregate with
    state := .rebuilding
    expectedDatasetGeneration := db.datasetGeneration
    rebuildAggregateGeneration := some target
    rebuildDatasetKind := some .cleanup
    rebuildCursorFingerprint := none
    rebuildProcessedEvents := 0
    rebuildTotalEvents := total } }

def finishRebuild (generation processed : ℕ) : Except StoreError UsageDb := do
  let aggregate := db.aggregate
  Except.require (.new .staleRevision) (aggregate.state = .rebuilding ∧
    aggregate.rebuildAggregateGeneration = some generation ∧
    aggregate.expectedDatasetGeneration = db.datasetGeneration ∧
    aggregate.rebuildTotalEvents = processed)
  .ok { db with aggregate := { aggregate with
    state := .ready
    activeAggregateGeneration := generation
    rebuildAggregateGeneration := none
    rebuildDatasetKind := none
    rebuildCursorFingerprint := none
    rebuildProcessedEvents := 0 } }

/-- `cleanup`: at most `12 * limit` rows of each table are removed. -/
def cleanupPage (generation limit : ℕ) (status : AggregateRebuildStatus) :
    Except StoreError (AggregateRebuildProgress × UsageDb) := do
  let aggregate := db.aggregate
  let cleared := { db with rollups := fun name => (db.rollups name).drop (12 * limit) }
  if ∀ name, min (12 * limit) (db.rollups name).length = 0 then
    if aggregate.rebuildTotalEvents = 0 then
      let finished ← cleared.finishRebuild generation 0
      .ok (⟨.ready, 0, 0⟩, finished)
    else
      let first := if aggregate.currentEventCount = 0 then .legacy else .current
      .ok (⟨status, 0, aggregate.rebuildTotalEvents⟩, { cleared with aggregate := { aggregate with
        rebuildDatasetKind := some (.dataset first)
        rebuildCursorFingerprint := none } })
  else .ok (⟨status, 0, aggregate.rebuildTotalEvents⟩, cleared)

/-- `materialize_page`. -/
def materializePage (generation : ℕ) (dataset : DatasetKind) (page : List UsageEvent) :
    Except StoreError UsageDb := do
  let rollups ← (db.rollups.change fun name => name.table.materialize generation dataset page).mapError
    fun _ => .new .database
  .ok { db with rollups := rollups }

/-- A page of `current` or `legacy`. -/
def datasetPage (dataset : DatasetKind) (generation limit : ℕ) (status : AggregateRebuildStatus) :
    Except StoreError (AggregateRebuildProgress × UsageDb) := do
  let aggregate := db.aggregate
  let page := Paging.page (fun event : UsageEvent => event.fingerprint)
    aggregate.rebuildCursorFingerprint limit (db.datasetRows dataset)
  let db ← (if 0 < page.length then db.materializePage generation dataset page else .ok db)
  let processed := aggregate.rebuildProcessedEvents + page.length
  Except.require (.new .invalidStoredValue) (processed ≤ i64Max)
  Except.require (.new .invalidStoredValue) (processed ≤ aggregate.rebuildTotalEvents)
  if page.length < limit ∧ dataset = .current ∧ 0 < aggregate.legacyEventCount then
    .ok (⟨status, processed, aggregate.rebuildTotalEvents⟩, { db with aggregate := { aggregate with
      rebuildDatasetKind := some (.dataset .legacy)
      rebuildCursorFingerprint := none
      rebuildProcessedEvents := processed } })
  else if page.length < limit then
    Except.require (.new .invalidStoredValue) (processed = aggregate.rebuildTotalEvents)
    let finished ← db.finishRebuild generation processed
    .ok (⟨.ready, processed, aggregate.rebuildTotalEvents⟩, finished)
  else
    let last ← Except.okOr (.new .invalidStoredValue)
      (Paging.lastKey (fun event : UsageEvent => event.fingerprint) page)
    .ok (⟨status, processed, aggregate.rebuildTotalEvents⟩, { db with aggregate := { aggregate with
      rebuildCursorFingerprint := some last
      rebuildProcessedEvents := processed } })

/-- The rebuild that a page works on: a stale one is reset, and one that is required is started. -/
def openRebuild : Except StoreError UsageDb := do
  let db ← (if db.aggregate.state = .rebuilding ∧
      db.datasetGeneration ≠ db.aggregate.expectedDatasetGeneration then db.resetRebuild else .ok db)
  if db.aggregate.state = .rebuildRequired ∨ db.aggregate.state = .failed then db.beginRebuild
  else .ok db

/-- `rebuild_aggregates_page_inner`. -/
def rebuildAggregatesPage (maxEvents : ℕ) :
    Except StoreError (AggregateRebuildProgress × UsageDb) := do
  Except.require (.withLimit .capacityExceeded maxAggregateRebuildPageSize)
    (maxEvents ≠ 0 ∧ maxEvents ≤ maxAggregateRebuildPageSize)
  if db.aggregate.state = .ready then
    .ok (⟨.ready, db.aggregate.rebuildTotalEvents, db.aggregate.rebuildTotalEvents⟩, db)
  else
    let status := if db.aggregate.state = .rebuilding ∧
      db.datasetGeneration ≠ db.aggregate.expectedDatasetGeneration then .restarted else .rebuilding
    let db ← db.openRebuild
    Except.require (.new .invalidStoredValue) (db.aggregate.state = .rebuilding)
    let generation ← Except.okOr (.new .invalidStoredValue) db.aggregate.rebuildAggregateGeneration
    match db.aggregate.rebuildDatasetKind with
    | none => .error (.new .invalidStoredValue)
    | some .cleanup => db.cleanupPage generation maxEvents status
    | some (.dataset dataset) => db.datasetPage dataset generation maxEvents status

end UsageDb

end TokenMaster.Store
