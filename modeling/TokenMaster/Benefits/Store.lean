import TokenMaster.Benefits.Reconcile

/-!
# TokenMaster.Benefits.Store — the benefit tables, observations and reminder profiles

`crates/store/src/usage/benefit_write.rs` over the tables of `benefit_schema.rs`.  A table is a list
of rows; a row's columns are kept in their domain types.  A lot is addressed by the digest of its
scope and its lot id.

Constraints are modelled where they can decide an outcome: primary keys, unique indexes, foreign
keys, the checks on change, due and delivery rows (fields of these rows) and the check on the label
column, whose alphabet is smaller than the one of `BenefitLabelKey`.  A violation is a `database`
error.  An error rolls the transaction back.
Counts are returned as numbers: a scope has at most `maxScheduledReminders` due rows, so the
conversions to `u16` do not fail.
-/

namespace TokenMaster.Benefits

open Domain Store

def defaultBenefitChangesPerScope : ℕ := 512
def maxBenefitChangesPerScope : ℕ := 2048
def defaultBenefitDeliveriesPerScope : ℕ := 256
def maxBenefitDeliveriesPerScope : ℕ := 1024
def maxBenefitMaintenancePageSize : ℕ := 256
def maxBenefitCurrentLots : ℕ := maxBenefitLotsPerObservation
def maxBenefitOverviewScopes : ℕ := 32
def maxBenefitOverviewLots : ℕ := 256

/-- The columns `scope_id` and `lot_id`. -/
structure LotRef where
  scopeId : BenefitScopeId
  lotId : BenefitLotId
  deriving DecidableEq

/-- The columns `scope_id`, `lot_id` and `lot_revision`. -/
structure RevisionRef where
  lot : LotRef
  revision : ℕ
  deriving DecidableEq

/-! ### Rows -/

/-- The columns of a scope that are all null or all set. -/
structure ScopeObservation where
  observationId : BenefitObservationId
  observedAtMs : ℤ
  freshUntilMs : ℤ
  staleAfterMs : ℤ
  completeness : BenefitInventoryCompleteness
  observed_pos : 0 < observedAtMs

structure ScopeRow where
  scopeId : BenefitScopeId
  scope : BenefitScope
  inventoryRevision : ℕ
  lastChangeSequence : ℕ
  observation : Option ScopeObservation
  currentLotCount : ℕ

structure LotRevisionRow where
  scopeId : BenefitScopeId
  revision : ℕ
  lot : BenefitLotObservation
  revision_pos : 0 < revision

theorem LotRevisionRow.data_injective :
    Function.Injective fun row : LotRevisionRow => (row.scopeId, row.revision, row.lot) := by
  rintro ⟨⟩ ⟨⟩ ⟨⟩
  rfl

instance : DecidableEq LotRevisionRow := LotRevisionRow.data_injective.decidableEq

def LotRevisionRow.ref (row : LotRevisionRow) : RevisionRef :=
  ⟨⟨row.scopeId, row.lot.lotId⟩, row.revision⟩

/-- A row of `benefit_lot_current`. -/
structure CurrentRow where
  ref : RevisionRef
  kind : BenefitKind
  quantity : ℕ
  state : BenefitState
  detailKind : BenefitDetailKind
  conservativeExpiryAtMs : Option ℤ

structure ChangeRow where
  changeId : BenefitChangeId
  sequence : ℕ
  lot : LotRef
  lotRevision : ℕ
  kind : BenefitChangeKind
  beforeRevision : Option ℕ
  afterRevision : Option ℕ
  observedAtMs : ℤ
  lotRevision_pos : 0 < lotRevision
  shape : afterRevision = some lotRevision ∨
    afterRevision = none ∧ beforeRevision.map (· + 1) = some lotRevision

theorem ChangeRow.data_injective : Function.Injective fun row : ChangeRow =>
    ((row.changeId, row.sequence, row.lot, row.lotRevision),
      (row.kind, row.beforeRevision, row.afterRevision, row.observedAtMs)) := by
  rintro ⟨⟩ ⟨⟩ ⟨⟩
  rfl

instance : DecidableEq ChangeRow := ChangeRow.data_injective.decidableEq

/-- The columns `profile_kind` and `profile_scope_id`. -/
inductive ProfileKey where
  | global
  | scope (scopeId : BenefitScopeId)
  deriving DecidableEq

/-- A row of `benefit_reminder_profile` with its thresholds. -/
structure ProfileRow where
  key : ProfileKey
  profile : ReminderProfile

structure DueRow where
  deliveryId : ReminderDeliveryId
  ref : RevisionRef
  threshold : ReminderLeadTime
  channel : NotificationChannel
  dueAtMs : ℤ
  expiryAtMs : ℤ
  profileRevision : ℕ
  due_lt_expiry : dueAtMs < expiryAtMs
  expiry_pos : 0 < expiryAtMs

structure DeliveryRow where
  deliveryId : ReminderDeliveryId
  ref : RevisionRef
  threshold : ReminderLeadTime
  channel : NotificationChannel
  dueAtMs : ℤ
  expiryAtMs : ℤ
  deliveredAtMs : ℤ
  due_lt_expiry : dueAtMs < expiryAtMs
  expiry_pos : 0 < expiryAtMs
  delivered_pos : 0 < deliveredAtMs

structure AckRow where
  deliveryId : ReminderDeliveryId
  acknowledgedAtMs : ℤ

/-- The one row of `benefit_state`. -/
structure GlobalBenefitState where
  revision : ℕ
  currentLotCount : ℕ
  retainedChangeCount : ℕ
  pendingDueCount : ℕ
  retainedDeliveryCount : ℕ
  lastPublishedAtMs : Option ℤ

structure BenefitStore where
  state : GlobalBenefitState
  scopes : List ScopeRow
  lotRevisions : List LotRevisionRow
  current : List CurrentRow
  changes : List ChangeRow
  profiles : List ProfileRow
  due : List DueRow
  deliveries : List DeliveryRow
  acks : List AckRow

/-- The profile that the schema inserts. -/
def initialProfile : ReminderProfile where
  revision := 1
  leadTimes := [⟨604800, by decide, by decide⟩, ⟨86400, by decide, by decide⟩,
    ⟨43200, by decide, by decide⟩, ⟨21600, by decide, by decide⟩, ⟨3600, by decide, by decide⟩]
  channels := [.inApp]
  revision_pos := Nat.one_pos
  revision_le := one_le_i64Max
  leadTimes_length_le := by decide
  leadTimes_descending := by decide
  channels_ascending := by decide

/-- The schema's initial content. -/
def BenefitStore.empty : BenefitStore :=
  ⟨⟨0, 0, 0, 0, 0, none⟩, [], [], [], [], [⟨.global, initialProfile⟩], [], [], []⟩

namespace BenefitStore

def scopeStored (db : BenefitStore) (scopeId : BenefitScopeId) : Bool :=
  db.scopes.any fun row => row.scopeId == scopeId

def revisionStored (db : BenefitStore) (ref : RevisionRef) : Bool :=
  db.lotRevisions.any fun row => row.ref == ref

def optionRevisionStored (db : BenefitStore) (lot : LotRef) : Option ℕ → Bool
  | none => true
  | some revision => db.revisionStored ⟨lot, revision⟩

def countDue (db : BenefitStore) (scopeId : BenefitScopeId) : ℕ :=
  db.due.countP fun row => row.ref.lot.scopeId == scopeId

def countChanges (db : BenefitStore) (scopeId : BenefitScopeId) : ℕ :=
  db.changes.countP fun row => row.lot.scopeId == scopeId

def deleteDue (db : BenefitStore) (scopeId : BenefitScopeId) : BenefitStore :=
  { db with due := db.due.filter fun row => row.ref.lot.scopeId != scopeId }

def deleteCurrent (db : BenefitStore) (scopeId : BenefitScopeId) : BenefitStore :=
  { db with current := db.current.filter fun row => row.ref.lot.scopeId != scopeId }

def deleteProfile (db : BenefitStore) (key : ProfileKey) : BenefitStore :=
  { db with profiles := db.profiles.filter fun row => row.key != key }

end BenefitStore

/-! ### Reads -/

def loadGlobalState (db : BenefitStore) : Except StoreError GlobalBenefitState := do
  ensure .invalidStoredValue ((db.state.revision == 0) == db.state.lastPublishedAtMs.isNone)
  return db.state

def LotRevisionRow.toCurrent (row : LotRevisionRow) : BenefitCurrentLot :=
  ⟨row.lot, row.revision, row.revision_pos⟩

/-- The current rows of a scope joined with their revisions. -/
def loadCurrentLots (db : BenefitStore) (scopeId : BenefitScopeId) : List BenefitCurrentLot :=
  (db.current.filter fun row => row.ref.lot.scopeId == scopeId).filterMap fun row =>
    (db.lotRevisions.find? fun revision => revision.ref == row.ref).map (·.toCurrent)

/-- The latest change of a lot, if it is a retirement. -/
def ChangeRow.endsLot (terminal : ChangeRow) (db : BenefitStore) (lot : LotRef) : Bool :=
  terminal.lot == lot && terminal.kind == .retiredTerminal && terminal.afterRevision == none &&
    db.changes.all fun latest => latest.lot != lot || decide (latest.sequence ≤ terminal.sequence)

/-- The query of `hydrate_retired_observed_lots`: the content before the retirement, in the state
`ambiguous` and at the revision of the retirement, for which there is no revision row. -/
def retiredLot? (db : BenefitStore) (lot : LotRef) : Option BenefitCurrentLot :=
  if db.current.any fun row => row.ref.lot == lot then none
  else (db.changes.filter fun change => change.endsLot db lot).findSome? fun terminal =>
    (db.lotRevisions.find? fun row =>
      row.ref.lot == lot && some row.revision == terminal.beforeRevision).map fun row =>
        ⟨row.lot.withState .ambiguous, terminal.lotRevision, terminal.lotRevision_pos⟩

/-- The retired lot that one observed lot brings back into the loaded inventory. -/
def rehydrated? (db : BenefitStore) (scopeId : BenefitScopeId) (loaded : List BenefitCurrentLot)
    (observed : BenefitLotObservation) : Option BenefitCurrentLot :=
  if loaded.any fun current => current.lot.lotId == observed.lotId then none
  else retiredLot? db ⟨scopeId, observed.lotId⟩

/-- `hydrate_retired_observed_lots`.  Observed ids are distinct, so it does not matter that the
source also looks among the lots that it has just added. -/
def hydrateRetiredObservedLots (db : BenefitStore) (scopeId : BenefitScopeId)
    (observed : List BenefitLotObservation) (loaded : List BenefitCurrentLot) :
    List BenefitCurrentLot := loaded ++ observed.filterMap (rehydrated? db scopeId loaded)

def mapCoreError : BenefitCoreError → StoreError
  | .capacityExceeded | .invalidRevision | .invalidSequence => .new .capacityExceeded
  | .scopeMismatch | .conflictingObservationIdentity | .invalidTime => .new .invalidValue

/-- The inventory of a scope; `observed` are the lots whose retired predecessors are loaded too. -/
def loadInventoryState (sha256 : Bytes → Bytes32) (db : BenefitStore)
    (expectedScope : BenefitScope) (scopeId : BenefitScopeId)
    (observed : List BenefitLotObservation) : Except StoreError BenefitInventoryState :=
  match db.scopes.find? fun row => row.scopeId == scopeId with
  | none => .error (.new .invalidStoredValue)
  | some row => do
    ensure .invalidStoredValue (row.scope == expectedScope)
    let loaded := loadCurrentLots db scopeId
    ensure .invalidStoredValue (loaded.length == row.currentLotCount)
    (BenefitInventoryState.fromParts sha256 row.scope row.inventoryRevision row.lastChangeSequence
      (row.observation.map (·.observationId)) (row.observation.map (·.observedAtMs))
      (hydrateRetiredObservedLots db scopeId observed loaded)).mapError mapCoreError

def loadActiveProfile (db : BenefitStore) (scopeId : BenefitScopeId) :
    Except StoreError ReminderProfile :=
  match db.profiles.find? fun row => row.key == .scope scopeId with
  | some row => .ok row.profile
  | none =>
    match db.profiles.find? fun row => row.key == .global with
    | some row => .ok row.profile
    | none => .error (.new .invalidStoredValue)

/-! ### Writes -/

def ensureScope (db : BenefitStore) (scope : BenefitScope) (scopeId : BenefitScopeId) :
    Except StoreError BenefitStore :=
  match db.scopes.find? fun row => row.scopeId == scopeId with
  | none => .ok { db with scopes := db.scopes ++ [⟨scopeId, scope, 0, 0, none, 0⟩] }
  | some row => do
    ensure .invalidValue (row.scope == scope)
    return db

/-- The check on `label_key`, which has no `+` in its alphabet. -/
def labelColumnAccepts (label : BenefitLabelKey) : Bool := label.bytes.all isUsageIdByte

def insertLotRevision (db : BenefitStore) (scopeId : BenefitScopeId) (current : BenefitCurrentLot) :
    Except StoreError BenefitStore := do
  ensure .database (db.scopeStored scopeId && labelColumnAccepts current.lot.labelKey &&
    !db.revisionStored ⟨⟨scopeId, current.lot.lotId⟩, current.revision⟩)
  return { db with
    lotRevisions := db.lotRevisions ++
      [⟨scopeId, current.revision, current.lot, current.revision_pos⟩] }

/-- `resolve_material_before_revision`: the greatest stored revision up to the logical one. -/
def resolveMaterialBeforeRevision (db : BenefitStore) (lot : LotRef) (logicalPrevious : ℕ) :
    Except StoreError ℕ :=
  match ((db.lotRevisions.filter fun row => row.ref.lot == lot &&
      decide (row.revision ≤ logicalPrevious)).map (·.revision)).max? with
  | some revision => .ok revision
  | none => .error (.new .invalidStoredValue)

def changeBeforeRevision (db : BenefitStore) (lot : LotRef) (change : BenefitChange) :
    Except StoreError (Option ℕ) :=
  match change.before with
  | none => .ok none
  | some _ => do
    ensure .invalidValue (decide (1 < change.lotRevision))
    let revision ← resolveMaterialBeforeRevision db lot (change.lotRevision - 1)
    return some revision

/-- The row of a change, if it passes the checks of the table. -/
def changeRow? (lot : LotRef) (observedAtMs : ℤ) (change : BenefitChange)
    (beforeRevision : Option ℕ) : Except StoreError ChangeRow :=
  if h : 0 < change.lotRevision ∧ (change.after.map (fun _ => change.lotRevision) =
      some change.lotRevision ∨ change.after.map (fun _ => change.lotRevision) = none ∧
        beforeRevision.map (· + 1) = some change.lotRevision) then
    .ok ⟨change.id, change.sequence, lot, change.lotRevision, change.kind, beforeRevision,
      change.after.map fun _ => change.lotRevision, observedAtMs, h.1, h.2⟩
  else .error (.new .database)

def insertChange (db : BenefitStore) (scopeId : BenefitScopeId) (observedAtMs : ℤ)
    (change : BenefitChange) : Except StoreError BenefitStore := do
  let lot : LotRef := ⟨scopeId, change.lotId⟩
  let beforeRevision ← changeBeforeRevision db lot change
  let row ← changeRow? lot observedAtMs change beforeRevision
  ensure .database (db.scopeStored scopeId && db.optionRevisionStored lot row.beforeRevision &&
    db.optionRevisionStored lot row.afterRevision &&
    !db.changes.any fun other => other.changeId == row.changeId ||
      (other.lot.scopeId == scopeId && other.sequence == row.sequence))
  return { db with changes := db.changes ++ [row] }

/-- The revision row of a change that leaves the lot with content. -/
def insertAfter (db : BenefitStore) (scopeId : BenefitScopeId) (change : BenefitChange) :
    Except StoreError BenefitStore :=
  match change.after with
  | none => .ok db
  | some after =>
    if h : 0 < change.lotRevision then insertLotRevision db scopeId ⟨after, change.lotRevision, h⟩
    else .error (.new .database)

def writeChange (scopeId : BenefitScopeId) (observedAtMs : ℤ) (db : BenefitStore)
    (change : BenefitChange) : Except StoreError BenefitStore := do
  let db ← insertAfter db scopeId change
  insertChange db scopeId observedAtMs change

def currentRow (scopeId : BenefitScopeId) (current : BenefitCurrentLot) : CurrentRow where
  ref := ⟨⟨scopeId, current.lot.lotId⟩, current.revision⟩
  kind := current.lot.kind
  quantity := current.lot.quantity
  state := current.lot.state
  detailKind := current.lot.detailKind
  conservativeExpiryAtMs := current.lot.expiry.conservativeUtcMs

def insertCurrentLot (scopeId : BenefitScopeId) (db : BenefitStore) (current : BenefitCurrentLot) :
    Except StoreError BenefitStore := do
  let row := currentRow scopeId current
  ensure .database (db.revisionStored row.ref &&
    !db.current.any fun other => other.ref.lot == row.ref.lot)
  return { db with current := db.current ++ [row] }

/-- The columns that an observation leaves in the scope row. -/
def scopeObservation (observation : BenefitInventoryObservation) : ScopeObservation :=
  ⟨observation.observationId, observation.observedAtMs, observation.freshUntilMs,
    observation.staleAfterMs, observation.completeness, observation.observed_pos⟩

def updateScope (db : BenefitStore) (scopeId : BenefitScopeId) (state : BenefitInventoryState)
    (observation : BenefitInventoryObservation) : Except StoreError BenefitStore := do
  ensure .invalidStoredValue (db.scopeStored scopeId)
  return { db with
    scopes := db.scopes.map fun row =>
      if row.scopeId == scopeId then
        { row with
          inventoryRevision := state.revision
          lastChangeSequence := state.lastChangeSequence
          observation := some (scopeObservation observation)
          currentLotCount := state.lots.length }
      else row }

def insertProfile (db : BenefitStore) (key : ProfileKey) (profile : ReminderProfile) :
    Except StoreError BenefitStore := do
  ensure .database (!db.profiles.any fun row => row.key == key)
  return { db with profiles := db.profiles ++ [⟨key, profile⟩] }

/-- A receipt for the same lot revision and channel that is at least as urgent. -/
def BenefitStore.hasReceipt (db : BenefitStore) (ref : RevisionRef) (channel : NotificationChannel)
    (threshold : ReminderLeadTime) : Bool :=
  db.deliveries.any fun row => row.ref == ref && row.channel == channel &&
    decide (row.threshold.seconds ≤ threshold.seconds)

/-- The guarded insert of `rebuild_due`. -/
def insertDue (scopeId : BenefitScopeId) (profileRevision : ℕ) (db : BenefitStore)
    (due : ReminderDue) : Except StoreError BenefitStore :=
  let ref : RevisionRef := ⟨⟨scopeId, due.lotId⟩, due.lotRevision⟩
  if db.hasReceipt ref due.channel due.leadTime then .ok db
  else if h : due.dueAtMs < due.expiryAtMs ∧ 0 < due.expiryAtMs then do
    ensure .database (db.revisionStored ref &&
      !db.due.any fun row => row.deliveryId == due.deliveryId)
    return { db with
      due := db.due ++ [⟨due.deliveryId, ref, due.leadTime, due.channel, due.dueAtMs,
        due.expiryAtMs, profileRevision, h.1, h.2⟩] }
  else .error (.new .database)

def rebuildDue (sha256 : Bytes → Bytes32) (db : BenefitStore) (scope : BenefitScope)
    (scopeId : BenefitScopeId) (lots : List BenefitCurrentLot) (profile : ReminderProfile) :
    Except StoreError BenefitStore := do
  let scheduled ← (scheduleReminders sha256 scope lots profile).mapError mapCoreError
  scheduled.foldlM (insertDue scopeId profile.revision) db

/-- `BenefitInventoryRevision::next`. -/
def nextInventoryRevision (revision : ℕ) : Except StoreError ℕ :=
  if revision + 1 ≤ i64Max then .ok (revision + 1) else .error (.new .capacityExceeded)

def checkedReplaceCount (total old new : ℕ) : Except StoreError ℕ :=
  if old ≤ total + new ∧ total + new - old ≤ i64Max then .ok (total + new - old)
  else .error (.new .invalidStoredValue)

/-- The checked addition of new changes to the retained ones. -/
def addChangeCount (total new : ℕ) : Except StoreError ℕ :=
  if total + new ≤ i64Max then .ok (total + new) else .error (.new .capacityExceeded)

def updateGlobalState (db : BenefitStore) (state : GlobalBenefitState) :
    Except StoreError BenefitStore := do
  ensure .invalidStoredValue (state.lastPublishedAtMs.any (0 < ·))
  return { db with state := state }

/-! ### Observations -/

structure BenefitApplyResult where
  status : BenefitReconciliationStatus
  benefitRevision : ℕ
  changeCount : ℕ
  pendingDueCount : ℕ

/-- The rows of a reconciliation: history, current lots, the scope and its due reminders. -/
def writeReconciliation (sha256 : Bytes → Bytes32) (db : BenefitStore) (scopeId : BenefitScopeId)
    (reconciliation : BenefitReconciliation) (observation : BenefitInventoryObservation) :
    Except StoreError BenefitStore := do
  let db ← reconciliation.changes.foldlM (writeChange scopeId observation.observedAtMs) db
  let db ← reconciliation.state.lots.foldlM (insertCurrentLot scopeId)
    ((db.deleteDue scopeId).deleteCurrent scopeId)
  let db ← updateScope db scopeId reconciliation.state observation
  let profile ← loadActiveProfile db scopeId
  rebuildDue sha256 db observation.scope scopeId reconciliation.state.lots profile

/-- The counters after an observation.  `priorCurrentCount` is the length of the loaded inventory,
`priorDueCount` the number of due rows before. -/
def publishObservation (db : BenefitStore) (global : GlobalBenefitState) (scopeId : BenefitScopeId)
    (priorCurrentCount priorDueCount : ℕ) (reconciliation : BenefitReconciliation)
    (observation : BenefitInventoryObservation) :
    Except StoreError (BenefitStore × BenefitApplyResult) := do
  let nextRevision ← nextInventoryRevision global.revision
  let currentLotCount ← checkedReplaceCount global.currentLotCount priorCurrentCount
    reconciliation.state.lots.length
  let pendingDueCount ← checkedReplaceCount global.pendingDueCount priorDueCount
    (db.countDue scopeId)
  let retainedChangeCount ← addChangeCount global.retainedChangeCount reconciliation.changes.length
  let published ← updateGlobalState db ⟨nextRevision, currentLotCount, retainedChangeCount,
    pendingDueCount, global.retainedDeliveryCount, some observation.observedAtMs⟩
  return (published, ⟨reconciliation.status, nextRevision, reconciliation.changes.length,
    db.countDue scopeId⟩)

/-- The part of `apply_benefit_observation` after the reconciliation. -/
def commitReconciliation (sha256 : Bytes → Bytes32) (db : BenefitStore)
    (global : GlobalBenefitState) (scopeId : BenefitScopeId) (current : BenefitInventoryState)
    (observation : BenefitInventoryObservation) (reconciliation : BenefitReconciliation) :
    Except StoreError (BenefitStore × BenefitApplyResult) :=
  match reconciliation.status with
  | .duplicate | .stale =>
    .ok (db, ⟨reconciliation.status, global.revision, 0, db.countDue scopeId⟩)
  | .freshnessOnly | .changed =>
    if db.countChanges scopeId + reconciliation.changes.length > maxBenefitChangesPerScope then
      .error (.withLimit .capacityExceeded maxBenefitChangesPerScope)
    else do
      let written ← writeReconciliation sha256 db scopeId reconciliation observation
      publishObservation written global scopeId current.lots.length (db.countDue scopeId)
        reconciliation observation

def applyBenefitObservation (sha256 : Bytes → Bytes32) (db : BenefitStore)
    (observation : BenefitInventoryObservation) :
    Except StoreError (BenefitStore × BenefitApplyResult) := do
  let global ← loadGlobalState db
  let scopeId := benefitScopeId sha256 observation.scope
  let db ← ensureScope db observation.scope scopeId
  let current ← loadInventoryState sha256 db observation.scope scopeId observation.lots
  let reconciliation ← (reconcileInventory sha256 current observation).mapError mapCoreError
  commitReconciliation sha256 db global scopeId current observation reconciliation

/-! ### Reminder profiles -/

structure BenefitProfileApplyResult where
  benefitRevision : ℕ
  pendingDueCount : ℕ

/-- The override of a scope, or none. -/
def insertProfileOverride (db : BenefitStore) (scopeId : BenefitScopeId) :
    Option ReminderProfile → Except StoreError BenefitStore
  | none => .ok db
  | some profile => insertProfile db (.scope scopeId) profile

def setBenefitReminderOverride (sha256 : Bytes → Bytes32) (db : BenefitStore)
    (scope : BenefitScope) (profile : Option ReminderProfile) :
    Except StoreError (BenefitStore × BenefitProfileApplyResult) := do
  let global ← loadGlobalState db
  ensure .invalidValue (global.revision != 0 && global.lastPublishedAtMs.isSome)
  let scopeId := benefitScopeId sha256 scope
  let state ← loadInventoryState sha256 db scope scopeId []
  let next ← insertProfileOverride ((db.deleteDue scopeId).deleteProfile (.scope scopeId)) scopeId
    profile
  let active ← loadActiveProfile next scopeId
  let next ← rebuildDue sha256 next scope scopeId state.lots active
  let nextRevision ← nextInventoryRevision global.revision
  let pendingDueCount ← checkedReplaceCount global.pendingDueCount (db.countDue scopeId)
    (next.countDue scopeId)
  let published ← updateGlobalState next
    { global with revision := nextRevision, pendingDueCount := pendingDueCount }
  return (published, ⟨nextRevision, next.countDue scopeId⟩)

structure GlobalProfileScope where
  scopeId : BenefitScopeId
  scope : BenefitScope
  lots : List BenefitCurrentLot

/-- The loop of `load_benefit_scopes_for_global_profile`, with the lots counted so far. -/
def loadProfileScopes (sha256 : Bytes → Bytes32) (db : BenefitStore) :
    ℕ → List ScopeRow → Except StoreError (List GlobalProfileScope)
  | _, [] => .ok []
  | totalLots, row :: rows =>
    if benefitScopeId sha256 row.scope ≠ row.scopeId then .error (.new .invalidStoredValue)
    else if row.currentLotCount > maxBenefitCurrentLots then
      .error (.withLimit .capacityExceeded maxBenefitCurrentLots)
    else if totalLots + row.currentLotCount > maxBenefitOverviewLots then
      .error (.withLimit .capacityExceeded maxBenefitOverviewLots)
    else do
      let state ← loadInventoryState sha256 db row.scope row.scopeId []
      let rest ← loadProfileScopes sha256 db (totalLots + row.currentLotCount) rows
      return ⟨row.scopeId, row.scope, state.lots⟩ :: rest

def loadBenefitScopesForGlobalProfile (sha256 : Bytes → Bytes32) (db : BenefitStore) :
    Except StoreError (List GlobalProfileScope) :=
  let rows := ((db.scopes.filter fun row =>
      !db.profiles.any fun profile => profile.key == .scope row.scopeId).insertionSort fun a b =>
        a.scopeId.asBytes ≤ b.scopeId.asBytes).take (maxBenefitOverviewScopes + 1)
  if rows.length > maxBenefitOverviewScopes then
    .error (.withLimit .capacityExceeded maxBenefitOverviewScopes)
  else loadProfileScopes sha256 db 0 rows

/-- One scope of the global change: its due rows are rebuilt and the counter follows. -/
def rebuildProfileScope (sha256 : Bytes → Bytes32) (profile : ReminderProfile)
    (progress : BenefitStore × ℕ) (scope : GlobalProfileScope) :
    Except StoreError (BenefitStore × ℕ) := do
  let next ← rebuildDue sha256 (progress.1.deleteDue scope.scopeId) scope.scope scope.scopeId
    scope.lots profile
  let pendingDueCount ← checkedReplaceCount progress.2 (progress.1.countDue scope.scopeId)
    (next.countDue scope.scopeId)
  return (next, pendingDueCount)

/-- The state row after a change of the global profile; before the first observation there is
nothing to publish. -/
def publishGlobalProfile (db : BenefitStore) (global : GlobalBenefitState) (pendingDueCount : ℕ) :
    Except StoreError (BenefitStore × BenefitProfileApplyResult) :=
  if global.revision = 0 then do
    ensure .invalidStoredValue (global.currentLotCount == 0 && global.retainedChangeCount == 0 &&
      pendingDueCount == 0 && global.retainedDeliveryCount == 0)
    return (db, ⟨global.revision, 0⟩)
  else do
    let nextRevision ← nextInventoryRevision global.revision
    let published ← updateGlobalState db
      { global with revision := nextRevision, pendingDueCount := pendingDueCount }
    return (published, ⟨nextRevision, pendingDueCount⟩)

def setBenefitReminderGlobalProfile (sha256 : Bytes → Bytes32) (db : BenefitStore)
    (profile : ReminderProfile) :
    Except StoreError (BenefitStore × BenefitProfileApplyResult) := do
  let global ← loadGlobalState db
  let current ← loadActiveProfile db (Bytes32.replicate 0)
  if profile.revision < current.revision then .error (.new .staleRevision)
  else if profile = current then do
    ensure .invalidStoredValue (db.due.length == global.pendingDueCount)
    return (db, ⟨global.revision, db.due.length⟩)
  else if profile.revision = current.revision then .error (.new .invalidValue)
  else do
    let scopes ← loadBenefitScopesForGlobalProfile sha256 db
    let next ← insertProfile (db.deleteProfile .global) .global profile
    let (next, pendingDueCount) ← scopes.foldlM (rebuildProfileScope sha256 profile)
      (next, global.pendingDueCount)
    publishGlobalProfile next global pendingDueCount

end TokenMaster.Benefits
