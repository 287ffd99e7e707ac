import Mathlib.Data.List.Sort
import TokenMaster.Domain.Benefit
import TokenMaster.Store.Error

/-!
# TokenMaster.Benefits.Reconcile — identities, reconciliation and reminder schedules

`crates/benefits/src/identity.rs`, `reconcile.rs` and the schedule of `reminder.rs`.  The source
keeps lots in maps ordered by lot id; here they are lists of lots with distinct ids, sorted where the
source reads a map back.  `sha256` is a parameter.
-/

namespace TokenMaster.Benefits

open Domain
open Store (i64Max)

/-! ### Identities -/

def scopeDomain : Bytes := ascii "tokenmaster.benefit.scope.v1"
def changeDomain : Bytes := ascii "tokenmaster.benefit.change.v1"
def deliveryDomain : Bytes := ascii "tokenmaster.benefit.delivery.v1"

abbrev BenefitScopeId := Bytes32
abbrev BenefitChangeId := Bytes32
abbrev ReminderDeliveryId := Bytes32

/-- The byte string that `benefit_scope_id` hashes. -/
def benefitScopeIdInput (scope : BenefitScope) : Bytes :=
  encodeFields ([scopeDomain, scope.providerId.bytes, scope.accountId.bytes] ++
    match scope.workspaceId with
    | some workspaceId => [[1], workspaceId.bytes]
    | none => [[0]])

def benefitScopeId (sha256 : Bytes → Bytes32) (scope : BenefitScope) : BenefitScopeId :=
  sha256 (benefitScopeIdInput scope)

/-- The byte string that `benefit_change_id` hashes. -/
def benefitChangeIdInput (scopeId : BenefitScopeId) (sequence : ℕ) (lotId : BenefitLotId)
    (revision : ℕ) (kindCode : UInt8) : Bytes :=
  encodeFields [changeDomain, scopeId.asBytes, beBytes 8 sequence, lotId.asBytes,
    beBytes 8 revision, [kindCode]]

def benefitChangeId (sha256 : Bytes → Bytes32) (scopeId : BenefitScopeId) (sequence : ℕ)
    (lotId : BenefitLotId) (revision : ℕ) (kindCode : UInt8) : BenefitChangeId :=
  sha256 (benefitChangeIdInput scopeId sequence lotId revision kindCode)

/-- The byte string that `reminder_delivery_id` hashes. -/
def reminderDeliveryIdInput (scopeId : BenefitScopeId) (lotId : BenefitLotId) (revision : ℕ)
    (leadTime : ReminderLeadTime) (channel : NotificationChannel) : Bytes :=
  encodeFields [deliveryDomain, scopeId.asBytes, lotId.asBytes, beBytes 8 revision,
    beBytes 4 leadTime.seconds, [UInt8.ofNat channel.code]]

def reminderDeliveryId (sha256 : Bytes → Bytes32) (scope : BenefitScope) (lotId : BenefitLotId)
    (revision : ℕ) (leadTime : ReminderLeadTime) (channel : NotificationChannel) :
    ReminderDeliveryId :=
  sha256 (reminderDeliveryIdInput (benefitScopeId sha256 scope) lotId revision leadTime channel)

/-! ### Inventory states -/

inductive BenefitCoreError where
  | scopeMismatch
  | conflictingObservationIdentity
  | invalidRevision
  | invalidSequence
  | capacityExceeded
  | invalidTime

structure BenefitCurrentLot where
  lot : BenefitLotObservation
  revision : ℕ
  revision_pos : 0 < revision

/-- The lot with new content at the next revision. -/
theorem BenefitCurrentLot.succ_pos (prev : BenefitCurrentLot) : 0 < prev.revision + 1 :=
  Nat.succ_pos _

def BenefitCurrentLot.succeed (previous : BenefitCurrentLot) (lot : BenefitLotObservation) :
    Except BenefitCoreError BenefitCurrentLot :=
  if previous.revision + 1 ≤ i64Max then
    .ok ⟨lot, previous.revision + 1, previous.succ_pos⟩
  else .error .invalidRevision

structure BenefitInventoryState where
  scope : BenefitScope
  scopeId : BenefitScopeId
  revision : ℕ
  lastChangeSequence : ℕ
  lastObservationId : Option BenefitObservationId
  lastObservedAtMs : Option ℤ
  lots : List BenefitCurrentLot

/-- The values of a map keyed by lot id. -/
def sortByLotId (lots : List BenefitCurrentLot) : List BenefitCurrentLot :=
  lots.insertionSort fun a b => a.lot.lotId.asBytes ≤ b.lot.lotId.asBytes

def BenefitInventoryState.fromParts (sha256 : Bytes → Bytes32) (scope : BenefitScope)
    (revision lastChangeSequence : ℕ) (lastObservationId : Option BenefitObservationId)
    (lastObservedAtMs : Option ℤ) (lots : List BenefitCurrentLot) :
    Except BenefitCoreError BenefitInventoryState :=
  if lots.length > maxBenefitLotsPerObservation then .error .capacityExceeded
  else if lastObservedAtMs.any (· ≤ 0) || lastObservationId.isSome != lastObservedAtMs.isSome then
    .error .invalidTime
  else if ¬ (lots.map (·.lot.lotId)).Nodup then .error .capacityExceeded
  else .ok ⟨scope, benefitScopeId sha256 scope, revision, lastChangeSequence, lastObservationId,
    lastObservedAtMs, sortByLotId lots⟩

/-! ### Reconciliation -/

inductive BenefitChangeKind where
  | awarded
  | quantityChanged
  | stateChanged
  | expiryChanged
  | corrected
  | disappearedAmbiguous
  | reappeared
  | retiredTerminal
  deriving DecidableEq

def BenefitChangeKind.code : BenefitChangeKind → UInt8
  | .awarded => 1
  | .quantityChanged => 2
  | .stateChanged => 3
  | .expiryChanged => 4
  | .corrected => 5
  | .disappearedAmbiguous => 6
  | .reappeared => 7
  | .retiredTerminal => 8

/-- A change before it has a sequence number. -/
structure PendingChange where
  lotId : BenefitLotId
  lotRevision : ℕ
  kind : BenefitChangeKind
  before : Option BenefitLotObservation
  after : Option BenefitLotObservation

structure BenefitChange extends PendingChange where
  id : BenefitChangeId
  sequence : ℕ

inductive BenefitReconciliationStatus where
  | duplicate
  | stale
  | freshnessOnly
  | changed
  deriving DecidableEq

structure BenefitReconciliation where
  status : BenefitReconciliationStatus
  state : BenefitInventoryState
  changes : List BenefitChange

def classifyChange (before after : BenefitLotObservation) : BenefitChangeKind :=
  if before.state = .ambiguous ∧ after.state ≠ .ambiguous then .reappeared
  else
    let quantityChanged := before.quantity != after.quantity
    let stateChanged := before.state != after.state
    let expiryChanged := before.expiry != after.expiry
    let otherChanged := before.kind != after.kind || before.target != after.target ||
      before.grantedAtMs != after.grantedAtMs || before.source != after.source ||
      before.confidence != after.confidence || before.detailKind != after.detailKind ||
      before.labelKey != after.labelKey
    match quantityChanged, stateChanged, expiryChanged, otherChanged with
    | true, false, false, false => .quantityChanged
    | false, true, false, false => .stateChanged
    | false, false, true, false => .expiryChanged
    | _, _, _, _ => .corrected

def isTerminal : BenefitState → Bool
  | .activated | .expired | .revoked => true
  | _ => false

/-- One observed lot: its entry in the next inventory and its change.  Observed ids are distinct, so
a lookup in the prior inventory is what the source's `prior.remove` finds. -/
def observeLot (prior : List BenefitCurrentLot) (lot : BenefitLotObservation) :
    Except BenefitCoreError (BenefitCurrentLot × Option PendingChange) :=
  match prior.find? fun previous => previous.lot.lotId == lot.lotId with
  | none => .ok (⟨lot, 1, Nat.one_pos⟩, some ⟨lot.lotId, 1, .awarded, none, some lot⟩)
  | some previous =>
    if previous.lot = lot then .ok (previous, none)
    else do
      let current ← previous.succeed lot
      return (current, some ⟨lot.lotId, current.revision, classifyChange previous.lot lot,
        some previous.lot, some lot⟩)

/-- One prior lot that the observation does not mention. -/
def departLot (complete : Bool) (previous : BenefitCurrentLot) :
    Except BenefitCoreError (Option BenefitCurrentLot × Option PendingChange) :=
  if !complete then .ok (some previous, none)
  else if isTerminal previous.lot.state then do
    let retired ← previous.succeed previous.lot
    return (none, some ⟨previous.lot.lotId, retired.revision, .retiredTerminal, some previous.lot,
      none⟩)
  else if previous.lot.state = .ambiguous then .ok (some previous, none)
  else do
    let current ← previous.succeed (previous.lot.withState .ambiguous)
    return (some current, some ⟨previous.lot.lotId, current.revision, .disappearedAmbiguous,
      some previous.lot, some current.lot⟩)

/-- The changes in order, each with the next sequence number and its identity. -/
def numberChanges (sha256 : Bytes → Bytes32) (scopeId : BenefitScopeId) :
    ℕ → List PendingChange → Except BenefitCoreError (List BenefitChange)
  | _, [] => .ok []
  | sequence, change :: changes =>
    if sequence + 1 ≤ i64Max then do
      let rest ← numberChanges sha256 scopeId (sequence + 1) changes
      return ⟨change, benefitChangeId sha256 scopeId (sequence + 1) change.lotId change.lotRevision
        change.kind.code, sequence + 1⟩ :: rest
    else .error .invalidSequence

/-- What remains to do once every lot is decided. -/
def finishReconciliation (sha256 : Bytes → Bytes32) (current : BenefitInventoryState)
    (observation : BenefitInventoryObservation) (next : List BenefitCurrentLot)
    (pending : List PendingChange) : Except BenefitCoreError BenefitReconciliation :=
  if next.length > maxBenefitLotsPerObservation then .error .capacityExceeded
  else if current.lastObservationId = some observation.observationId then
    if pending = [] then .ok ⟨.duplicate, current, []⟩ else .error .conflictingObservationIdentity
  else do
    let changes ← numberChanges sha256 current.scopeId current.lastChangeSequence pending
    if current.revision + 1 ≤ i64Max then
      return ⟨if changes = [] then .freshnessOnly else .changed,
        { current with
          revision := current.revision + 1
          lastChangeSequence := current.lastChangeSequence + changes.length
          lastObservationId := some observation.observationId
          lastObservedAtMs := some observation.observedAtMs
          lots := sortByLotId next }, changes⟩
    else .error .invalidRevision

/-- The observed lots in the order of their ids. -/
def sortObserved (lots : List BenefitLotObservation) : List BenefitLotObservation :=
  lots.insertionSort fun a b => a.lotId.asBytes ≤ b.lotId.asBytes

def reconcileInventory (sha256 : Bytes → Bytes32) (current : BenefitInventoryState)
    (observation : BenefitInventoryObservation) : Except BenefitCoreError BenefitReconciliation :=
  if current.scope ≠ observation.scope then .error .scopeMismatch
  else if current.lastObservedAtMs.any (observation.observedAtMs < ·) then
    .ok ⟨.stale, current, []⟩
  else do
    let observed ← (sortObserved observation.lots).mapM (observeLot current.lots)
    let departed ← (current.lots.filter fun previous => !observation.mentions previous.lot.lotId).mapM
      (departLot (observation.completeness != .partial_))
    finishReconciliation sha256 current observation
      (observed.map (·.1) ++ departed.filterMap (·.1))
      (observed.filterMap (·.2) ++ departed.filterMap (·.2))

/-! ### Schedules -/

def maxScheduledReminders : ℕ := maxBenefitLotsPerObservation * maxReminderThresholds * 2
def maxDueReminderPageSize : ℕ := 256

structure ReminderDue where
  deliveryId : ReminderDeliveryId
  lotId : BenefitLotId
  lotRevision : ℕ
  leadTime : ReminderLeadTime
  channel : NotificationChannel
  dueAtMs : ℤ
  expiryAtMs : ℤ

/-- `expiry_at_ms.checked_sub(lead_millis).unwrap_or(i64::MIN)`. -/
def dueAtMs (expiryAtMs : ℤ) (leadTime : ReminderLeadTime) : ℤ :=
  max (expiryAtMs - leadTime.seconds * 1000) (-2 ^ 63)

/-- The reminders of one lot: only an available lot with a known expiry has any. -/
def scheduleLot (sha256 : Bytes → Bytes32) (scope : BenefitScope) (profile : ReminderProfile)
    (current : BenefitCurrentLot) : List ReminderDue :=
  if current.lot.state ≠ .available then []
  else match current.lot.expiry.conservativeUtcMs with
    | none => []
    | some expiryAtMs =>
      profile.leadTimes.flatMap fun leadTime => profile.channels.map fun channel =>
        { deliveryId := reminderDeliveryId sha256 scope current.lot.lotId current.revision leadTime
            channel
          lotId := current.lot.lotId
          lotRevision := current.revision
          leadTime := leadTime
          channel := channel
          dueAtMs := dueAtMs expiryAtMs leadTime
          expiryAtMs := expiryAtMs }

/-- The order of a schedule: due time, expiry, lot id, channel. -/
def ReminderDue.notAfter (a b : ReminderDue) : Bool :=
  decide (a.dueAtMs < b.dueAtMs) || (a.dueAtMs == b.dueAtMs &&
    (decide (a.expiryAtMs < b.expiryAtMs) || (a.expiryAtMs == b.expiryAtMs &&
      (decide (a.lotId.asBytes < b.lotId.asBytes) || (a.lotId == b.lotId &&
        decide (a.channel.code ≤ b.channel.code))))))

def scheduleReminders (sha256 : Bytes → Bytes32) (scope : BenefitScope)
    (lots : List BenefitCurrentLot) (profile : ReminderProfile) :
    Except BenefitCoreError (List ReminderDue) :=
  if lots.length * profile.leadTimes.length * profile.channels.length > maxScheduledReminders then
    .error .capacityExceeded
  else .ok ((lots.flatMap (scheduleLot sha256 scope profile)).insertionSort fun a b => a.notAfter b)

end TokenMaster.Benefits
