import TokenMaster.Benefits.Store

/-!
# TokenMaster.Benefits.Reminder — deliveries, acknowledgements, retention and mixed runs

`crates/store/src/usage/benefit_reminder.rs` and `benefit_maintenance.rs`.  `runBenefit` is a history
of one store in which all calls come in any order; a failed call rolls back.  A history also lists
its events: the receipts that were inserted and the deliveries that were acknowledged.
-/

namespace TokenMaster.Benefits

open Domain Store

/-! ### Due reminders -/

/-- A due row joined with the content of its lot revision. -/
structure StoredDue where
  row : DueRow
  lot : BenefitLotObservation

structure BenefitReminderDelivery where
  deliveryId : ReminderDeliveryId
  kind : BenefitKind
  quantity : ℕ
  labelKey : BenefitLabelKey
  leadTime : ReminderLeadTime
  channel : NotificationChannel
  dueAtMs : ℤ
  expiryAtMs : ℤ
  deliveredAtMs : ℤ

structure BenefitReminderProcessResult where
  examinedCount : ℕ
  expiredCount : ℕ
  suppressedCount : ℕ
  deliveries : List BenefitReminderDelivery
  pendingDueCount : ℕ
  retainedDeliveryCount : ℕ
  nearestDueAtMs : Option ℤ

def revisionLot? (db : BenefitStore) (ref : RevisionRef) : Option BenefitLotObservation :=
  (db.lotRevisions.find? fun row => row.ref == ref).map (·.lot)

def BenefitStore.acknowledged (db : BenefitStore) (deliveryId : ReminderDeliveryId) : Bool :=
  db.acks.any fun ack => ack.deliveryId == deliveryId

/-- The order of unacknowledged deliveries: expiry, delivery time, delivery id. -/
def DeliveryRow.notAfter (a b : DeliveryRow) : Bool :=
  decide (a.expiryAtMs < b.expiryAtMs) || (a.expiryAtMs == b.expiryAtMs &&
    (decide (a.deliveredAtMs < b.deliveredAtMs) || (a.deliveredAtMs == b.deliveredAtMs &&
      decide (a.deliveryId.asBytes ≤ b.deliveryId.asBytes))))

/-- What a delivery row with its lot reports to the caller. -/
def DeliveryRow.report (row : DeliveryRow) (lot : BenefitLotObservation) : BenefitReminderDelivery where
  deliveryId := row.deliveryId
  kind := lot.kind
  quantity := lot.quantity
  labelKey := lot.labelKey
  leadTime := row.threshold
  channel := row.channel
  dueAtMs := row.dueAtMs
  expiryAtMs := row.expiryAtMs
  deliveredAtMs := row.deliveredAtMs

/-- The delivery rows of a channel without acknowledgement. -/
def unacknowledgedRows (db : BenefitStore) (channel : NotificationChannel) : List DeliveryRow :=
  db.deliveries.filter fun row => row.channel == channel && !db.acknowledged row.deliveryId

def loadUnacknowledgedDeliveries (db : BenefitStore) (channel : NotificationChannel)
    (maxRows : ℕ) : List BenefitReminderDelivery :=
  (((unacknowledgedRows db channel).insertionSort fun a b => a.notAfter b).filterMap fun row =>
    (revisionLot? db row.ref).map row.report).take maxRows

/-- The order of a due page: expiry, scope, lot, revision, channel, threshold. -/
def DueRow.notAfter (a b : DueRow) : Bool :=
  decide (a.expiryAtMs < b.expiryAtMs) || (a.expiryAtMs == b.expiryAtMs &&
    (decide (a.ref.lot.scopeId.asBytes < b.ref.lot.scopeId.asBytes) ||
      (a.ref.lot.scopeId == b.ref.lot.scopeId &&
        (decide (a.ref.lot.lotId.asBytes < b.ref.lot.lotId.asBytes) ||
          (a.ref.lot.lotId == b.ref.lot.lotId &&
            (decide (a.ref.revision < b.ref.revision) || (a.ref.revision == b.ref.revision &&
              (decide (a.channel.code < b.channel.code) || (a.channel == b.channel &&
                decide (a.threshold.seconds ≤ b.threshold.seconds))))))))))

def loadDuePage (db : BenefitStore) (deliveredAtMs : ℤ) (channel : NotificationChannel)
    (maxRows : ℕ) : List StoredDue :=
  (((db.due.filter fun row => row.channel == channel &&
      decide (row.dueAtMs ≤ deliveredAtMs)).insertionSort fun a b => a.notAfter b).filterMap fun row =>
    (revisionLot? db row.ref).map (StoredDue.mk row)).take maxRows

/-- Two due rows of one lot revision and channel. -/
def StoredDue.competes (a b : StoredDue) : Bool :=
  a.row.ref == b.row.ref && a.row.channel == b.row.channel

/-- One row of the page: of competing rows the one with the smaller lead time is kept. -/
def keepMostUrgent (candidates : List StoredDue) (due : StoredDue) : List StoredDue :=
  match candidates.find? fun current => current.competes due with
  | none => candidates ++ [due]
  | some current =>
    if current.row.threshold.seconds ≤ due.row.threshold.seconds then candidates
    else candidates.map fun candidate => if candidate.competes due then due else candidate

/-- The order of the candidates' keys: scope, lot, revision, channel. -/
def StoredDue.keyNotAfter (a b : StoredDue) : Bool :=
  decide (a.row.ref.lot.scopeId.asBytes < b.row.ref.lot.scopeId.asBytes) ||
    (a.row.ref.lot.scopeId == b.row.ref.lot.scopeId &&
      (decide (a.row.ref.lot.lotId.asBytes < b.row.ref.lot.lotId.asBytes) ||
        (a.row.ref.lot.lotId == b.row.ref.lot.lotId &&
          (decide (a.row.ref.revision < b.row.ref.revision) ||
            (a.row.ref.revision == b.row.ref.revision &&
              decide (a.row.channel.code ≤ b.row.channel.code))))))

/-- The candidates of a page in the order of their keys. -/
def dueCandidates (selected : List StoredDue) (deliveredAtMs : ℤ) : List StoredDue :=
  ((selected.filter fun due => decide (deliveredAtMs < due.row.expiryAtMs)).foldl keepMostUrgent
    []).insertionSort fun a b => a.keyNotAfter b

def BenefitStore.countDeliveries (db : BenefitStore) (scopeId : BenefitScopeId) : ℕ :=
  db.deliveries.countP fun row => row.ref.lot.scopeId == scopeId

/-- The receipt of a candidate. -/
def StoredDue.receipt (due : StoredDue) (deliveredAtMs : ℤ) (h : 0 < deliveredAtMs) : DeliveryRow :=
  ⟨due.row.deliveryId, due.row.ref, due.row.threshold, due.row.channel, due.row.dueAtMs,
    due.row.expiryAtMs, deliveredAtMs, due.row.due_lt_expiry, due.row.expiry_pos, h⟩

def insertReceipt (db : BenefitStore) (receipt : DeliveryRow) : Except StoreError BenefitStore := do
  ensure .database (db.revisionStored receipt.ref &&
    !db.deliveries.any fun row => row.deliveryId == receipt.deliveryId)
  return { db with deliveries := db.deliveries ++ [receipt] }

/-- One candidate: the store and the candidates delivered so far.  The source keeps the number of
deliveries of a scope in a map that follows the inserts. -/
def deliverCandidate (deliveredAtMs : ℤ) (h : 0 < deliveredAtMs)
    (progress : BenefitStore × List StoredDue) (candidate : StoredDue) :
    Except StoreError (BenefitStore × List StoredDue) :=
  if progress.1.hasReceipt candidate.row.ref candidate.row.channel candidate.row.threshold then
    .ok progress
  else if progress.1.countDeliveries candidate.row.ref.lot.scopeId + 1 >
      maxBenefitDeliveriesPerScope then
    .error (.withLimit .capacityExceeded maxBenefitDeliveriesPerScope)
  else do
    let next ← insertReceipt progress.1 (candidate.receipt deliveredAtMs h)
    return (next, progress.2 ++ [candidate])

/-- A loop of deletes, each of which has to hit exactly one row. -/
def deleteEach {α β : Type} (hit : β → α → Bool) : List β → List α → Except StoreError (List α)
  | [], rows => .ok rows
  | victim :: victims, rows => do
    ensure .invalidStoredValue (rows.countP (hit victim) == 1)
    deleteEach hit victims (rows.filter fun row => !hit victim row)

def updateGlobalCounts (db : BenefitStore) (deletedDueCount insertedDeliveryCount : ℕ) :
    Except StoreError BenefitStore := do
  ensure .invalidStoredValue (decide (deletedDueCount ≤ db.state.pendingDueCount))
  ensure .capacityExceeded
    (decide (db.state.retainedDeliveryCount + insertedDeliveryCount ≤ i64Max))
  return { db with
    state := { db.state with
      pendingDueCount := db.state.pendingDueCount - deletedDueCount
      retainedDeliveryCount := db.state.retainedDeliveryCount + insertedDeliveryCount } }

def nearestDueAtMs (db : BenefitStore) (channel : NotificationChannel) : Option ℤ :=
  ((db.due.filter fun row => row.channel == channel).map (·.dueAtMs)).min?

/-- A call of `process_due_benefit_reminders`: the store after it, the candidates for which it
inserted receipts, and what it returns. -/
structure ProcessedReminders where
  db : BenefitStore
  delivered : List StoredDue
  result : BenefitReminderProcessResult

/-- The call while earlier deliveries of the channel wait for acknowledgement. -/
def repeatDeliveries (db : BenefitStore) (channel : NotificationChannel)
    (pending : List BenefitReminderDelivery) : ProcessedReminders :=
  ⟨db, [], ⟨0, 0, 0, pending, db.state.pendingDueCount, db.state.retainedDeliveryCount,
    nearestDueAtMs db channel⟩⟩

def deliverPage (db : BenefitStore) (deliveredAtMs : ℤ) (h : 0 < deliveredAtMs)
    (channel : NotificationChannel) (selected : List StoredDue) :
    Except StoreError ProcessedReminders := do
  let (next, delivered) ← (dueCandidates selected deliveredAtMs).foldlM
    (deliverCandidate deliveredAtMs h) (db, [])
  let due ← deleteEach (fun due row => row.deliveryId == due.row.deliveryId) selected next.due
  let next ← updateGlobalCounts { next with due := due } selected.length delivered.length
  let expiredCount := selected.countP fun due => decide (due.row.expiryAtMs ≤ deliveredAtMs)
  ensure .invalidStoredValue (decide (expiredCount + delivered.length ≤ selected.length))
  return ⟨next, delivered, ⟨selected.length, expiredCount,
    selected.length - expiredCount - delivered.length,
    delivered.map fun due => (due.receipt deliveredAtMs h).report due.lot,
    next.state.pendingDueCount, next.state.retainedDeliveryCount, nearestDueAtMs next channel⟩⟩

def processDueBenefitReminders (db : BenefitStore) (deliveredAtMs : ℤ)
    (channel : NotificationChannel) (maxRows : ℕ) : Except StoreError ProcessedReminders :=
  if h : 0 < deliveredAtMs then
    if maxRows = 0 ∨ maxRows > maxDueReminderPageSize then
      .error (.withLimit .capacityExceeded maxDueReminderPageSize)
    else match loadUnacknowledgedDeliveries db channel maxRows with
      | [] => deliverPage db deliveredAtMs h channel (loadDuePage db deliveredAtMs channel maxRows)
      | pending => .ok (repeatDeliveries db channel pending)
  else .error (.new .invalidValue)

/-! ### Acknowledgements -/

structure BenefitReminderAcknowledgeResult where
  acknowledged : ℕ
  alreadyAcknowledged : ℕ

/-- The stored columns agree with the delivery that the caller presents. -/
def DeliveryRow.agrees (row : DeliveryRow) (delivery : BenefitReminderDelivery) : Bool :=
  row.threshold == delivery.leadTime && row.channel == delivery.channel &&
    row.dueAtMs == delivery.dueAtMs && row.expiryAtMs == delivery.expiryAtMs &&
    row.deliveredAtMs == delivery.deliveredAtMs

/-- One delivery: the store and the ids acknowledged so far. -/
def acknowledgeDelivery (acknowledgedAtMs : ℤ) (progress : BenefitStore × List ReminderDeliveryId)
    (delivery : BenefitReminderDelivery) :
    Except StoreError (BenefitStore × List ReminderDeliveryId) :=
  match progress.1.deliveries.find? fun row => row.deliveryId == delivery.deliveryId with
  | none => .error (.new .invalidStoredValue)
  | some row =>
    if !row.agrees delivery then .error (.new .invalidStoredValue)
    else if progress.1.acknowledged delivery.deliveryId then .ok progress
    else .ok ({ progress.1 with
      acks := progress.1.acks ++ [⟨delivery.deliveryId, acknowledgedAtMs⟩] },
        progress.2 ++ [delivery.deliveryId])

/-- A call of `acknowledge_benefit_reminders`: the store, the newly acknowledged ids, the result. -/
structure AcknowledgedReminders where
  db : BenefitStore
  acknowledged : List ReminderDeliveryId
  result : BenefitReminderAcknowledgeResult

def acknowledgeBenefitReminders (db : BenefitStore) (deliveries : List BenefitReminderDelivery)
    (acknowledgedAtMs : ℤ) : Except StoreError AcknowledgedReminders :=
  if acknowledgedAtMs ≤ 0 then .error (.new .invalidValue)
  else if deliveries.length > maxDueReminderPageSize then
    .error (.withLimit .capacityExceeded maxDueReminderPageSize)
  else do
    ensure .invalidValue ((deliveries.all fun delivery => delivery.channel == .inApp &&
      decide (delivery.deliveredAtMs ≤ acknowledgedAtMs)) &&
      decide ((deliveries.map (·.deliveryId)).Nodup))
    let (next, acknowledged) ← deliveries.foldlM (acknowledgeDelivery acknowledgedAtMs) (db, [])
    return ⟨next, acknowledged, ⟨acknowledged.length, deliveries.length - acknowledged.length⟩⟩

/-! ### Retention -/

structure BenefitMaintenanceResult where
  examinedChanges : ℕ
  deletedChanges : ℕ
  deletedLotRevisions : ℕ
  examinedDeliveries : ℕ
  deletedDeliveries : ℕ
  remainingChanges : ℕ
  remainingDeliveries : ℕ

/-- The changes of a scope that a later change of the same lot follows, oldest first. -/
def removableChangeCandidates (db : BenefitStore) (scopeId : BenefitScopeId) (limit : ℕ) :
    List ChangeRow :=
  ((db.changes.filter fun older => older.lot.scopeId == scopeId && db.changes.any fun newer =>
    newer.lot == older.lot && decide (older.sequence < newer.sequence)).insertionSort
      fun a b => a.sequence < b.sequence ∨ a.sequence = b.sequence ∧
        a.changeId.asBytes ≤ b.changeId.asBytes).take limit

/-- Some row of another table names the revision. -/
def BenefitStore.references (db : BenefitStore) (ref : RevisionRef) : Bool :=
  (db.current.any fun row => row.ref == ref) ||
    (db.changes.any fun row => row.lot == ref.lot &&
      (row.beforeRevision == some ref.revision || row.afterRevision == some ref.revision)) ||
    (db.due.any fun row => row.ref == ref) || (db.deliveries.any fun row => row.ref == ref)

def orphanRevisionCandidates (db : BenefitStore) (scopeId : BenefitScopeId) (limit : ℕ) :
    List LotRevisionRow :=
  ((db.lotRevisions.filter fun row =>
    row.scopeId == scopeId && !db.references row.ref).insertionSort
      fun a b => a.lot.lotId.asBytes < b.lot.lotId.asBytes ∨ a.lot.lotId = b.lot.lotId ∧
        a.revision ≤ b.revision).take limit

/-- The acknowledged deliveries of revisions that are not current, oldest first. -/
def removableDeliveryCandidates (db : BenefitStore) (scopeId : BenefitScopeId) (limit : ℕ) :
    List DeliveryRow :=
  ((db.deliveries.filter fun row => row.ref.lot.scopeId == scopeId &&
    db.acknowledged row.deliveryId &&
      !db.current.any fun current => current.ref == row.ref).insertionSort
        fun a b => a.deliveredAtMs < b.deliveredAtMs ∨ a.deliveredAtMs = b.deliveredAtMs ∧
          a.deliveryId.asBytes ≤ b.deliveryId.asBytes).take limit

/-- `update_benefit_state`: the counters after a page that deleted changes or deliveries.  The
table does not take a positive revision without a publication time. -/
def updateBenefitState (db : BenefitStore) (deletedChanges deletedDeliveries : ℕ) :
    Except StoreError BenefitStore :=
  if deletedChanges = 0 ∧ deletedDeliveries = 0 then .ok db
  else do
    let revision ← nextInventoryRevision db.state.revision
    ensure .invalidStoredValue (decide (deletedChanges ≤ db.state.retainedChangeCount))
    ensure .invalidStoredValue (decide (deletedDeliveries ≤ db.state.retainedDeliveryCount))
    ensure .database db.state.lastPublishedAtMs.isSome
    return { db with
      state := { db.state with
        revision := revision
        retainedChangeCount := db.state.retainedChangeCount - deletedChanges
        retainedDeliveryCount := db.state.retainedDeliveryCount - deletedDeliveries } }

def maintainBenefitHistoryPage (sha256 : Bytes → Bytes32) (db : BenefitStore)
    (scope : BenefitScope) (pageSize : ℕ) :
    Except StoreError (BenefitStore × BenefitMaintenanceResult) :=
  if pageSize = 0 then .error (.new .invalidValue)
  else if pageSize > maxBenefitMaintenancePageSize then
    .error (.withLimit .capacityExceeded maxBenefitMaintenancePageSize)
  else do
    let scopeId := benefitScopeId sha256 scope
    let changes := removableChangeCandidates db scopeId
      (min (db.countChanges scopeId - defaultBenefitChangesPerScope) pageSize)
    let keptChanges ← deleteEach (fun change row =>
      row.lot.scopeId == scopeId && row.changeId == change.changeId) changes db.changes
    let pruned := { db with changes := keptChanges }
    let revisions := orphanRevisionCandidates pruned scopeId (pageSize - changes.length)
    let keptRevisions ← deleteEach (fun revision row => row.ref == revision.ref) revisions
      pruned.lotRevisions
    let pruned := { pruned with lotRevisions := keptRevisions }
    let deliveries := removableDeliveryCandidates pruned scopeId
      (min (db.countDeliveries scopeId - defaultBenefitDeliveriesPerScope)
        (pageSize - changes.length - revisions.length))
    let keptDeliveries ← deleteEach (fun delivery row => row.ref.lot.scopeId == scopeId &&
      row.deliveryId == delivery.deliveryId) deliveries pruned.deliveries
    -- the delete of a delivery takes its acknowledgement with it
    let pruned := { pruned with
      deliveries := keptDeliveries
      acks := pruned.acks.filter fun ack =>
        !deliveries.any fun delivery => delivery.deliveryId == ack.deliveryId }
    let next ← updateBenefitState pruned changes.length deliveries.length
    return (next, ⟨changes.length, changes.length, revisions.length, deliveries.length,
      deliveries.length, next.countChanges scopeId, next.countDeliveries scopeId⟩)

/-! ### Histories -/

/-- The calls that change the benefit tables. -/
inductive BenefitCall where
  | observe (observation : BenefitInventoryObservation)
  | setOverride (scope : BenefitScope) (profile : Option ReminderProfile)
  | setGlobalProfile (profile : ReminderProfile)
  | processDue (deliveredAtMs : ℤ) (channel : NotificationChannel) (maxRows : ℕ)
  | acknowledge (deliveries : List BenefitReminderDelivery) (acknowledgedAtMs : ℤ)
  | maintain (scope : BenefitScope) (pageSize : ℕ)

/-- What happened to a reminder: a receipt was inserted at a time, or it was acknowledged. -/
inductive ReminderEvent where
  | delivered (due : StoredDue) (deliveredAtMs : ℤ)
  | acknowledged (deliveryId : ReminderDeliveryId)

/-- One call that commits: the store after it and its events. -/
def callBenefit (sha256 : Bytes → Bytes32) (db : BenefitStore) :
    BenefitCall → Except StoreError (BenefitStore × List ReminderEvent)
  | .observe observation => (applyBenefitObservation sha256 db observation).map fun r => (r.1, [])
  | .setOverride scope profile =>
    (setBenefitReminderOverride sha256 db scope profile).map fun r => (r.1, [])
  | .setGlobalProfile profile =>
    (setBenefitReminderGlobalProfile sha256 db profile).map fun r => (r.1, [])
  | .processDue deliveredAtMs channel maxRows =>
    (processDueBenefitReminders db deliveredAtMs channel maxRows).map fun r =>
      (r.db, r.delivered.map fun due => .delivered due deliveredAtMs)
  | .acknowledge deliveries acknowledgedAtMs =>
    (acknowledgeBenefitReminders db deliveries acknowledgedAtMs).map fun r =>
      (r.db, r.acknowledged.map .acknowledged)
  | .maintain scope pageSize =>
    (maintainBenefitHistoryPage sha256 db scope pageSize).map fun r => (r.1, [])

/-- One call: an error leaves the store as it was. -/
def stepBenefit (sha256 : Bytes → Bytes32) (db : BenefitStore) (call : BenefitCall) :
    BenefitStore × List ReminderEvent :=
  match callBenefit sha256 db call with
  | .ok result => result
  | .error _ => (db, [])

def runBenefit (sha256 : Bytes → Bytes32) (db : BenefitStore) :
    List BenefitCall → BenefitStore × List ReminderEvent
  | [] => (db, [])
  | call :: calls =>
    let (next, events) := stepBenefit sha256 db call
    let (last, later) := runBenefit sha256 next calls
    (last, events ++ later)

/-! ### An example inventory -/

def exampleScope : BenefitScope := ⟨letterId _ maxProviderIdBytes_pos,
  letterId _ maxQuotaIdBytes_pos, none⟩

/-- One credit in the given state that expires at a known time. -/
def exampleLot (state : BenefitState) : BenefitLotObservation where
  lotId := Bytes32.replicate 1
  kind := .usageCredit
  quantity := 1
  state := state
  target := .provider
  grantedAtMs := none
  expiry := .exactUtc 10000000000 (by decide)
  source := .manual
  confidence := .high
  detailKind := .manual
  labelKey := ⟨[97], letter_ne_nil, by decide, by decide⟩
  quantity_pos := Nat.one_pos
  quantity_le := one_le_i64Max
  granted_pos := by simp

/-- A complete observation of at most one lot. -/
def exampleObservation (id : UInt8) (observedAtMs : ℕ) (lot : Option BenefitLotObservation) :
    BenefitInventoryObservation where
  scope := exampleScope
  observationId := Bytes32.replicate id
  observedAtMs := observedAtMs + 1
  freshUntilMs := observedAtMs + 1
  staleAfterMs := observedAtMs + 1
  completeness := .complete
  lots := lot.toList
  observed_pos := by omega
  observed_le_fresh := le_refl _
  fresh_le_stale := le_refl _
  lots_length_le := by cases lot <;> simp [maxBenefitLotsPerObservation]
  lots_nodup := by cases lot <;> simp

end TokenMaster.Benefits
