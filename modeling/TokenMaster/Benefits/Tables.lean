import TokenMaster.Lib.Except
import TokenMaster.Lib.Keyed
import TokenMaster.Benefits.Reminder

/-!
# TokenMaster.Benefits.Tables — what each call does to the tables

Inversion of the writes: what the tables hold after a write that returns, first for single rows, then
for whole calls.  The invariants in the other modules are proved from these statements.
-/

namespace TokenMaster.Benefits

open Domain Store TokenMaster.Except List

variable {sha : Bytes → Bytes32} {db next : BenefitStore} {scopeId : BenefitScopeId} {lot : LotRef}
  {row : ChangeRow} {current : BenefitCurrentLot} {profileRevision : ℕ} {sched : List ReminderDue}
  {processed : ProcessedReminders} {acknowledged : AcknowledgedReminders}
  {res : BenefitProfileApplyResult}

/-! ### References -/

theorem scopeStored_iff :
    db.scopeStored scopeId = true ↔ ∃ row ∈ db.scopes, row.scopeId = scopeId := by
  simp [BenefitStore.scopeStored]

variable {ref : RevisionRef}

theorem revisionStored_iff :
    db.revisionStored ref = true ↔ ∃ row ∈ db.lotRevisions, row.ref = ref := by
  simp [BenefitStore.revisionStored]

theorem not_revisionStored_iff :
    db.revisionStored ref = false ↔ ∀ row ∈ db.lotRevisions, row.ref ≠ ref := by
  simp [BenefitStore.revisionStored]

theorem optionRevisionStored_iff {rev : Option ℕ} :
    db.optionRevisionStored lot rev = true ↔
      ∀ r, rev = some r → db.revisionStored ⟨lot, r⟩ = true := by
  cases rev with
  | none | some r => simp [BenefitStore.optionRevisionStored]

variable {channel : NotificationChannel}

theorem hasReceipt_iff {thr : ReminderLeadTime} :
    db.hasReceipt ref channel thr = true ↔ ∃ row ∈ db.deliveries, row.ref = ref ∧
      row.channel = channel ∧ row.threshold.seconds ≤ thr.seconds := by
  simp [BenefitStore.hasReceipt, and_assoc]

theorem acknowledged_iff {deliveryId : ReminderDeliveryId} :
    db.acknowledged deliveryId = true ↔ ∃ ack ∈ db.acks, ack.deliveryId = deliveryId := by
  simp [BenefitStore.acknowledged]

/-! ### Scopes -/

/-- The row of a scope that was not there before. -/
def freshScopeRow (scopeId : BenefitScopeId) (scope : BenefitScope) : ScopeRow :=
  ⟨scopeId, scope, 0, 0, none, 0⟩

variable {scope : BenefitScope}

theorem ensureScope_ok (h : ensureScope db scope scopeId = .ok next) :
    (next = db ∧ ∃ row ∈ db.scopes, row.scopeId = scopeId ∧ row.scope = scope) ∨
      (db.scopeStored scopeId = false ∧
        next = { db with scopes := db.scopes ++ [freshScopeRow scopeId scope] }) := by
  unfold ensureScope at h
  cases hf : db.scopes.find? fun row => row.scopeId == scopeId with
  | none =>
    rw [hf] at h
    cases h
    refine .inr ⟨?_, rfl⟩
    simpa [BenefitStore.scopeStored] using hf
  | some row =>
    rw [hf] at h
    obtain ⟨_, hsc, h⟩ := bind_eq_ok.mp h
    cases h
    have hid : row.scopeId = scopeId := by simpa using List.find?_some hf
    have hsm : row.scope = scope := by simpa using hsc
    exact .inl ⟨rfl, row, mem_of_find?_eq_some hf, hid, hsm⟩

/-- Only the scopes change. -/
theorem ensureScope_frame (h : ensureScope db scope scopeId = .ok next) :
    next = { db with scopes := next.scopes } := by
  rcases ensureScope_ok h with ⟨rfl, _⟩ | ⟨_, rfl⟩
  · rfl
  · rfl

/-! ### History -/

/-- The revision row that a change leaves. -/
def revisionRow? (scopeId : BenefitScopeId) (change : BenefitChange) : Option LotRevisionRow :=
  match change.after with
  | none => none
  | some after =>
    if h : 0 < change.lotRevision then some ⟨scopeId, change.lotRevision, after, h⟩ else none

/-- A row says what a change says. -/
structure ChangeRow.Records (scopeId : BenefitScopeId) (change : BenefitChange) (row : ChangeRow) :
    Prop where
  changeId : row.changeId = change.id
  sequence : row.sequence = change.sequence
  lot : row.lot = ⟨scopeId, change.lotId⟩
  lotRevision : row.lotRevision = change.lotRevision
  kind : row.kind = change.kind
  afterRevision : row.afterRevision = change.after.map fun _ => change.lotRevision

variable {change : BenefitChange}

theorem insertAfter_ok (h : insertAfter db scopeId change = .ok next) :
    next = { db with lotRevisions := db.lotRevisions ++ (revisionRow? scopeId change).toList } ∧
      (∀ row ∈ revisionRow? scopeId change, db.scopeStored scopeId = true ∧
        labelColumnAccepts row.lot.labelKey = true ∧ db.revisionStored row.ref = false) ∧
      (change.after.isSome = true → (revisionRow? scopeId change).isSome = true) := by
  unfold insertAfter at h
  unfold revisionRow?
  cases haft : change.after with
  | none =>
    rw [haft] at h
    cases h
    simp
  | some after =>
    rw [haft] at h
    simp only at h ⊢
    split_ifs at h with hpos
    · rw [dif_pos hpos]
      obtain ⟨_, hck, h⟩ := bind_eq_ok.mp h
      cases h
      rw [ensure_eq_ok] at hck
      simp only [Bool.and_eq_true, Bool.not_eq_true'] at hck
      refine ⟨rfl, ?_, fun _ => rfl⟩
      intro row hrow
      cases hrow
      exact ⟨hck.1.1, hck.1.2, hck.2⟩

variable {observedAtMs deliveredAtMs acknowledgedAtMs : ℤ} {hpos : 0 < deliveredAtMs}

theorem changeRow?_ok {before : Option ℕ} (h : changeRow? lot observedAtMs change before = .ok row)
    :
    row.changeId = change.id ∧ row.sequence = change.sequence ∧ row.lot = lot ∧
      row.lotRevision = change.lotRevision ∧ row.kind = change.kind ∧
      row.beforeRevision = before ∧
      row.afterRevision = change.after.map fun _ => change.lotRevision := by
  unfold changeRow? at h
  split_ifs at h
  cases h
  exact ⟨rfl, rfl, rfl, rfl, rfl, rfl, rfl⟩

theorem insertChange_ok (h : insertChange db scopeId observedAtMs change = .ok next) :
    ∃ row : ChangeRow, next = { db with changes := db.changes ++ [row] } ∧
      row.Records scopeId change ∧ db.scopeStored scopeId = true ∧
      (∀ r, row.beforeRevision = some r → db.revisionStored ⟨row.lot, r⟩ = true) ∧
      (∀ r, row.afterRevision = some r → db.revisionStored ⟨row.lot, r⟩ = true) ∧
      ∀ other ∈ db.changes, other.changeId ≠ row.changeId ∧
        (other.lot.scopeId, other.sequence) ≠ (row.lot.scopeId, row.sequence) := by
  obtain ⟨before, _, h⟩ := bind_eq_ok.mp h
  obtain ⟨row, hrow, h⟩ := bind_eq_ok.mp h
  obtain ⟨_, hck, h⟩ := bind_eq_ok.mp h
  cases h
  obtain ⟨h1, h2, h3, h4, h5, _, h7⟩ := changeRow?_ok hrow
  rw [ensure_eq_ok] at hck
  simp only [Bool.and_eq_true, Bool.not_eq_true', optionRevisionStored_iff] at hck
  obtain ⟨⟨⟨hsc, hbef⟩, haft⟩, hfr⟩ := hck
  refine ⟨row, rfl, ⟨h1, h2, h3, h4, h5, h7⟩, hsc, ?_, ?_, ?_⟩
  · rwa [h3]
  · rwa [h3]
  · intro other hoth
    have hno := any_eq_false.mp hfr other hoth
    simp only [Bool.or_eq_true, Bool.and_eq_true, beq_iff_eq, not_or] at hno
    refine ⟨hno.1, ?_⟩
    intro heq
    rw [Prod.mk.injEq] at heq
    refine hno.2 ⟨?_, heq.2⟩
    rw [heq.1, h3]

/-- The tables after the history of a reconciliation. -/
theorem writeChanges_ok {changes : List BenefitChange}
    (h : changes.foldlM (writeChange scopeId observedAtMs) db = .ok next) :
    ∃ rows, List.Forall₂ (ChangeRow.Records scopeId) changes rows ∧
      next = { db with
        lotRevisions := db.lotRevisions ++ changes.filterMap (revisionRow? scopeId)
        changes := db.changes ++ rows } := by
  induction changes generalizing db with
  | nil =>
    cases h
    exact ⟨[], .nil, by simp⟩
  | cons change changes ih =>
    obtain ⟨mid, hmid, h⟩ := bind_eq_ok.mp h
    obtain ⟨mid', hmid', hmid⟩ := bind_eq_ok.mp hmid
    obtain ⟨row, rfl, hrow, _⟩ := insertChange_ok hmid
    obtain ⟨rfl, _, _⟩ := insertAfter_ok hmid'
    obtain ⟨rows, hrs, rfl⟩ := ih h
    refine ⟨row :: rows, .cons hrow hrs, ?_⟩
    cases hrev : revisionRow? scopeId change with
    | none | some rev => simp [hrev]

/-! ### Current lots -/

theorem insertCurrentLot_ok (h : insertCurrentLot scopeId db current = .ok next) :
    next = { db with current := db.current ++ [currentRow scopeId current] } ∧
      db.revisionStored (currentRow scopeId current).ref = true ∧
      ∀ other ∈ db.current, other.ref.lot ≠ (currentRow scopeId current).ref.lot := by
  obtain ⟨_, hck, h⟩ := bind_eq_ok.mp h
  cases h
  rw [ensure_eq_ok] at hck
  simp only [Bool.and_eq_true, Bool.not_eq_true'] at hck
  refine ⟨rfl, hck.1, ?_⟩
  intro other hoth
  simpa using any_eq_false.mp hck.2 other hoth

variable {lots : List BenefitCurrentLot}

theorem insertCurrentLots_ok (h : lots.foldlM (insertCurrentLot scopeId) db = .ok next) :
    next = { db with current := db.current ++ lots.map (currentRow scopeId) } := by
  induction lots generalizing db with
  | nil =>
    cases h
    simp
  | cons lot lots ih =>
    obtain ⟨mid, hmid, h⟩ := bind_eq_ok.mp h
    obtain ⟨rfl, _, _⟩ := insertCurrentLot_ok hmid
    rw [ih h]
    simp

/-- The scope row after an observation. -/
def observedScopeRow (state : BenefitInventoryState) (observation : BenefitInventoryObservation)
    (row : ScopeRow) : ScopeRow :=
  { row with
    inventoryRevision := state.revision
    lastChangeSequence := state.lastChangeSequence
    observation := some (scopeObservation observation)
    currentLotCount := state.lots.length }

variable {state : BenefitInventoryState} {observation : BenefitInventoryObservation}

theorem updateScope_ok (h : updateScope db scopeId state observation = .ok next) :
    next = { db with scopes := db.scopes.map fun row =>
      if row.scopeId == scopeId then observedScopeRow state observation row else row } := by
  obtain ⟨_, _, h⟩ := bind_eq_ok.mp h
  cases h
  rfl

/-! ### Due rows -/

/-- A due row that a schedule asks for. -/
structure DueRow.Schedules (scopeId : BenefitScopeId) (due : ReminderDue) (row : DueRow) : Prop where
  deliveryId : row.deliveryId = due.deliveryId
  ref : row.ref = ⟨⟨scopeId, due.lotId⟩, due.lotRevision⟩
  threshold : row.threshold = due.leadTime
  channel : row.channel = due.channel
  dueAtMs : row.dueAtMs = due.dueAtMs
  expiryAtMs : row.expiryAtMs = due.expiryAtMs

theorem insertDue_ok {due : ReminderDue} (h : insertDue scopeId profileRevision db due = .ok next) :
    next = db ∨ ∃ row : DueRow, next = { db with due := db.due ++ [row] } ∧
      row.Schedules scopeId due ∧ db.revisionStored row.ref = true ∧
      ∀ other ∈ db.due, other.deliveryId ≠ row.deliveryId := by
  unfold insertDue at h
  simp only at h
  split_ifs at h with hsent hck
  · cases h
    exact .inl rfl
  · obtain ⟨_, hks, h⟩ := bind_eq_ok.mp h
    cases h
    rw [ensure_eq_ok] at hks
    simp only [Bool.and_eq_true, Bool.not_eq_true'] at hks
    refine .inr ⟨_, rfl, ⟨rfl, rfl, rfl, rfl, rfl, rfl⟩, hks.1, ?_⟩
    intro other hoth
    simpa using any_eq_false.mp hks.2 other hoth

theorem insertDues_ok (h : sched.foldlM (insertDue scopeId profileRevision) db = .ok next) :
    ∃ added : List DueRow, next = { db with due := db.due ++ added } ∧
      (∀ row ∈ added, ∃ due ∈ sched, row.Schedules scopeId due) ∧
      added.length ≤ sched.length := by
  induction sched generalizing db with
  | nil =>
    cases h
    exact ⟨[], by simp, by simp, le_refl _⟩
  | cons due sched ih =>
    obtain ⟨mid, hmid, h⟩ := bind_eq_ok.mp h
    obtain ⟨added, rfl, hadd, hlen⟩ := ih h
    rcases insertDue_ok hmid with rfl | ⟨row, rfl, hrow, _, _⟩
    · refine ⟨added, rfl, ?_, hlen.trans (Nat.le_succ _)⟩
      intro row hrow
      obtain ⟨due', hdue', hsched⟩ := hadd row hrow
      exact ⟨due', mem_cons_of_mem _ hdue', hsched⟩
    · refine ⟨row :: added, by simp, ?_, Nat.succ_le_succ hlen⟩
      intro row' hrow'
      rcases mem_cons.mp hrow' with rfl | hmem
      · exact ⟨due, mem_cons_self .., hrow⟩
      · obtain ⟨due', hdue', hsched⟩ := hadd row' hmem
        exact ⟨due', mem_cons_of_mem _ hdue', hsched⟩

theorem length_scheduleLot (scope : BenefitScope) (profile : ReminderProfile)
    (lot : BenefitCurrentLot) : (scheduleLot sha scope profile lot).length ≤
      profile.leadTimes.length * profile.channels.length := by
  unfold scheduleLot
  split_ifs
  · exact Nat.zero_le _
  · split
    · exact Nat.zero_le _
    · simp [length_flatMap]

variable {profile : ReminderProfile}

/-- A schedule is bounded by the check that admits it. -/
theorem length_scheduleReminders (h : scheduleReminders sha scope lots profile = .ok sched) :
    sched.length ≤ maxScheduledReminders := by
  have hls : (lots.flatMap (scheduleLot sha scope profile)).length ≤
      lots.length * (profile.leadTimes.length * profile.channels.length) := by
    clear h
    induction lots with
    | nil => exact Nat.zero_le _
    | cons lot lots ih =>
      have hlot := @length_scheduleLot sha scope profile lot
      rw [flatMap_cons, length_append, length_cons, Nat.succ_mul]
      omega
  unfold scheduleReminders at h
  split_ifs at h with hcapa
  cases h
  rw [length_insertionSort]
  rw [← Nat.mul_assoc] at hls
  omega

/-- Due rows that a new schedule for the lots of a scope adds. -/
structure Rebuilds (sha256 : Bytes → Bytes32) (scope : BenefitScope) (scopeId : BenefitScopeId)
    (lots : List BenefitCurrentLot) (profile : ReminderProfile) (added : List DueRow) : Prop where
  schedules : ∀ row ∈ added, ∃ lot ∈ lots, ∃ due ∈ scheduleLot sha256 scope profile lot,
    row.Schedules scopeId due
  length_le : added.length ≤ maxScheduledReminders

variable {added : List DueRow}

theorem rebuildDue_ok (h : rebuildDue sha db scope scopeId lots profile = .ok next) :
    ∃ added, next = { db with due := db.due ++ added } ∧
      Rebuilds sha scope scopeId lots profile added := by
  obtain ⟨sched, hsch, h⟩ := bind_eq_ok.mp h
  rw [mapError_eq_ok] at hsch
  obtain ⟨added, hnx, hadd, hlen⟩ := insertDues_ok h
  refine ⟨added, hnx, ?_, hlen.trans (length_scheduleReminders hsch)⟩
  intro row hrow
  obtain ⟨due, hdue, hsched⟩ := hadd row hrow
  unfold scheduleReminders at hsch
  split_ifs at hsch
  cases hsch
  have hmem := (perm_insertionSort _ _).mem_iff.mp hdue
  obtain ⟨lot, hlot, hdue⟩ := mem_flatMap.mp hmem
  exact ⟨lot, hlot, due, hdue, hsched⟩

/-- Rows that were added for one scope to a table without rows of the scope. -/
theorem Rebuilds.countDue_eq (h : Rebuilds sha scope scopeId lots profile added)
    (hdue : next.due = (db.due.filter fun row => row.ref.lot.scopeId != scopeId) ++ added) :
    next.countDue scopeId = added.length := by
  have hold : (db.due.filter fun row => row.ref.lot.scopeId != scopeId).countP
      (fun row => row.ref.lot.scopeId == scopeId) = 0 := by
    rw [countP_eq_zero]
    intro row hrow
    simpa using (mem_filter.mp hrow).2
  have hnew : added.countP (fun row => row.ref.lot.scopeId == scopeId) = added.length := by
    rw [countP_eq_length]
    intro row hrow
    obtain ⟨_, _, due, _, hsched⟩ := h.schedules row hrow
    rw [hsched.ref, beq_self_eq_true]
  rw [BenefitStore.countDue, hdue, countP_append, hold, hnew, Nat.zero_add]

/-- A schedule that replaces the one of the scope, with its counter. -/
theorem rebuildDue_replaces {base rebuilt : BenefitStore} {pend pending' : ℕ}
    (hb : base.due = db.due.filter fun row => row.ref.lot.scopeId != scopeId)
    (h : rebuildDue sha base scope scopeId lots profile = .ok rebuilt)
    (hpd : checkedReplaceCount pend (db.countDue scopeId) (rebuilt.countDue scopeId) =
      .ok pending') :
    ∃ added, rebuilt = { base with due := base.due ++ added } ∧
      Rebuilds sha scope scopeId lots profile added ∧
      db.countDue scopeId ≤ pend + added.length ∧
      pending' = pend + added.length - db.countDue scopeId := by
  obtain ⟨added, hreb, hadd⟩ := rebuildDue_ok h
  have hdue : rebuilt.due = (db.due.filter fun row => row.ref.lot.scopeId != scopeId) ++ added := by
    rw [hreb, ← hb]
  rw [hadd.countDue_eq hdue] at hpd
  unfold checkedReplaceCount at hpd
  split_ifs at hpd with hle
  cases hpd
  exact ⟨added, hreb, hadd, hle.1, rfl⟩

/-- The table loses the due rows of the scope and gains the added ones. -/
theorem length_due_rebuilt
    (hdue : next.due = (db.due.filter fun row => row.ref.lot.scopeId != scopeId) ++ added) :
    next.due.length + db.countDue scopeId = db.due.length + added.length := by
  have hspl := db.due.length_eq_length_filter_add fun row => row.ref.lot.scopeId == scopeId
  have hrs : (db.due.filter fun row => row.ref.lot.scopeId != scopeId) =
    db.due.filter fun row => !(row.ref.lot.scopeId == scopeId) := rfl
  rw [hdue, length_append, hrs, BenefitStore.countDue, countP_eq_length_filter]
  omega

/-! ### Loaded inventories -/

theorem mem_loadCurrentLots :
    current ∈ loadCurrentLots db scopeId ↔ ∃ row ∈ db.current, row.ref.lot.scopeId = scopeId ∧
      ∃ rev, (db.lotRevisions.find? fun rev => rev.ref == row.ref) = some rev ∧
        rev.toCurrent = current := by
  simp [loadCurrentLots, and_assoc]

/-- A loaded lot is the content of the revision that its current row names. -/
theorem loaded_row {lot : BenefitCurrentLot} (h : lot ∈ loadCurrentLots db scopeId) :
    ∃ row ∈ db.current, ∃ rev ∈ db.lotRevisions, rev.scopeId = scopeId ∧
      rev.toCurrent = lot ∧ row.ref = rev.ref := by
  obtain ⟨row, hrow, hsc, rev, hf, hlot⟩ := mem_loadCurrentLots.mp h
  have href : rev.ref = row.ref := by simpa using List.find?_some hf
  refine ⟨row, hrow, rev, mem_of_find?_eq_some hf, ?_, hlot, href.symm⟩
  rw [← hsc, ← href]
  rfl

/-- A lot with a current row is not retired, so looking among the loaded lots first changes
nothing. -/
theorem rehydrated?_eq {observed : BenefitLotObservation} :
    rehydrated? db scopeId (loadCurrentLots db scopeId) observed =
      retiredLot? db ⟨scopeId, observed.lotId⟩ := by
  unfold rehydrated?
  split_ifs with hld
  · obtain ⟨current, hcur, hid⟩ := any_eq_true.mp hld
    obtain ⟨row, hrow, rev, _, rfl, rfl, href⟩ := loaded_row hcur
    have hlot : row.ref.lot = ⟨rev.scopeId, observed.lotId⟩ := by
      rw [href, ← beq_iff_eq.mp hid]
      rfl
    rw [retiredLot?, if_pos (any_eq_true.mpr ⟨row, hrow, by simpa using hlot⟩)]
  · rfl

variable {observed : List BenefitLotObservation}

theorem mem_hydrated {lot : BenefitCurrentLot} :
    lot ∈ hydrateRetiredObservedLots db scopeId observed (loadCurrentLots db scopeId) ↔
      lot ∈ loadCurrentLots db scopeId ∨
        ∃ seen ∈ observed, retiredLot? db ⟨scopeId, seen.lotId⟩ = some lot := by
  simp only [hydrateRetiredObservedLots, mem_append, mem_filterMap, rehydrated?_eq]

section

variable (h : loadInventoryState sha db scope scopeId observed = .ok state)

include h

/-- The checks of a load, up to those of `from_parts`. -/
theorem loadInventoryState_fromParts :
    ∃ row ∈ db.scopes, row.scopeId = scopeId ∧ row.scope = scope ∧
      (loadCurrentLots db scopeId).length = row.currentLotCount ∧
      BenefitInventoryState.fromParts sha row.scope row.inventoryRevision row.lastChangeSequence
        (row.observation.map (·.observationId)) (row.observation.map (·.observedAtMs))
        (hydrateRetiredObservedLots db scopeId observed (loadCurrentLots db scopeId)) =
          .ok state := by
  unfold loadInventoryState at h
  cases hf : db.scopes.find? fun row => row.scopeId == scopeId with
  | none =>
    rw [hf] at h
    cases h
  | some row =>
    rw [hf] at h
    obtain ⟨_, hsc, h⟩ := bind_eq_ok.mp h
    obtain ⟨_, hlen, h⟩ := bind_eq_ok.mp h
    rw [ensure_eq_ok, beq_iff_eq] at hsc hlen
    have hid : row.scopeId = scopeId := by simpa using List.find?_some hf
    exact ⟨row, mem_of_find?_eq_some hf, hid, hsc, hlen, mapError_eq_ok.mp h⟩

theorem loadInventoryState_ok :
    ∃ row ∈ db.scopes, row.scopeId = scopeId ∧ row.scope = scope ∧
      (loadCurrentLots db scopeId).length = row.currentLotCount ∧
      state.scope = scope ∧ state.scopeId = benefitScopeId sha scope ∧
      state.revision = row.inventoryRevision ∧ state.lastChangeSequence = row.lastChangeSequence ∧
      state.lastObservationId = row.observation.map (·.observationId) ∧
      state.lastObservedAtMs = row.observation.map (·.observedAtMs) := by
  obtain ⟨row, hmem, hid, hsc, hlen, h⟩ := loadInventoryState_fromParts h
  unfold BenefitInventoryState.fromParts at h
  split_ifs at h
  cases h
  refine ⟨row, hmem, hid, hsc, hlen, hsc, ?_, rfl, rfl, rfl, rfl⟩
  rw [hsc]

/-- The lots that are loaded. -/
theorem loadInventoryState_lots :
    Keyed (fun current => current.lot.lotId) state.lots ∧
      state.lots.Perm
        (hydrateRetiredObservedLots db scopeId observed (loadCurrentLots db scopeId)) ∧
      state.lots.length ≤ maxBenefitLotsPerObservation := by
  obtain ⟨_, _, _, _, _, h⟩ := loadInventoryState_fromParts h
  unfold BenefitInventoryState.fromParts at h
  split_ifs at h with h1 h2 h3
  cases h
  have hp := perm_insertionSort
    (fun a b : BenefitCurrentLot => a.lot.lotId.asBytes ≤ b.lot.lotId.asBytes)
    (hydrateRetiredObservedLots db scopeId observed (loadCurrentLots db scopeId))
  refine ⟨(hp.map _).nodup_iff.mpr h3, hp, ?_⟩
  rw [sortByLotId, hp.length_eq]
  omega

end

/-! ### Observations and profiles -/

/-- The tables after the rows of a reconciliation were written. -/
structure Written (sha256 : Bytes → Bytes32) (db : BenefitStore) (scopeId : BenefitScopeId)
    (reconciliation : BenefitReconciliation) (observation : BenefitInventoryObservation)
    (next : BenefitStore) : Prop where
  scopes : next.scopes = db.scopes.map fun row => if row.scopeId == scopeId then
    observedScopeRow reconciliation.state observation row else row
  lotRevisions : next.lotRevisions =
    db.lotRevisions ++ reconciliation.changes.filterMap (revisionRow? scopeId)
  current : next.current = (db.current.filter fun row => row.ref.lot.scopeId != scopeId) ++
    reconciliation.state.lots.map (currentRow scopeId)
  changes : ∃ rows, List.Forall₂ (ChangeRow.Records scopeId) reconciliation.changes rows ∧
    next.changes = db.changes ++ rows
  profiles : next.profiles = db.profiles
  due : ∃ added profile,
    next.due = (db.due.filter fun row => row.ref.lot.scopeId != scopeId) ++ added ∧
      Rebuilds sha256 observation.scope scopeId reconciliation.state.lots profile added
  deliveries : next.deliveries = db.deliveries
  acks : next.acks = db.acks

variable {recn : BenefitReconciliation}

theorem writeReconciliation_ok
    (h : writeReconciliation sha db scopeId recn observation = .ok next) :
    Written sha db scopeId recn observation next := by
  obtain ⟨db₁, h₁, h⟩ := bind_eq_ok.mp h
  obtain ⟨db₂, h₂, h⟩ := bind_eq_ok.mp h
  obtain ⟨db₃, h₃, h⟩ := bind_eq_ok.mp h
  obtain ⟨profile, _, h⟩ := bind_eq_ok.mp h
  obtain ⟨rows, hrs, rfl⟩ := writeChanges_ok h₁
  cases insertCurrentLots_ok h₂
  cases updateScope_ok h₃
  obtain ⟨added, rfl, hadd⟩ := rebuildDue_ok h
  exact ⟨rfl, rfl, rfl, ⟨rows, hrs, rfl⟩, rfl, ⟨added, profile, rfl, hadd⟩, rfl, rfl⟩

theorem publishObservation_ok {global : GlobalBenefitState} {priorCurrent priorDue : ℕ}
    {res : BenefitApplyResult}
    (h : publishObservation db global scopeId priorCurrent priorDue recn observation =
      .ok (next, res)) :
    res.status = recn.status ∧
      priorCurrent ≤ global.currentLotCount + recn.state.lots.length ∧
      priorDue ≤ global.pendingDueCount + db.countDue scopeId ∧
      next = { db with
        state := ⟨global.revision + 1,
          global.currentLotCount + recn.state.lots.length - priorCurrent,
          global.retainedChangeCount + recn.changes.length,
          global.pendingDueCount + db.countDue scopeId - priorDue,
          global.retainedDeliveryCount, some observation.observedAtMs⟩ } := by
  obtain ⟨rev, hrev, h⟩ := bind_eq_ok.mp h
  obtain ⟨lots, hls, h⟩ := bind_eq_ok.mp h
  obtain ⟨due, hdue, h⟩ := bind_eq_ok.mp h
  obtain ⟨changes, hchs, h⟩ := bind_eq_ok.mp h
  obtain ⟨published, hpub, h⟩ := bind_eq_ok.mp h
  obtain ⟨_, _, hpub⟩ := bind_eq_ok.mp hpub
  unfold nextInventoryRevision at hrev
  unfold checkedReplaceCount at hls hdue
  unfold addChangeCount at hchs
  split_ifs at hrev hls hdue hchs with h1 h2 h3 h4
  cases hrev
  cases hls
  cases hdue
  cases hchs
  cases hpub
  cases h
  exact ⟨rfl, h2.1, h3.1, rfl⟩

/-- The store after an observation that was written and published. -/
structure Published (sha256 : Bytes → Bytes32) (db : BenefitStore) (prior : BenefitInventoryState)
    (reconciliation : BenefitReconciliation) (observation : BenefitInventoryObservation)
    (next : BenefitStore) : Prop extends
    Written sha256 db (benefitScopeId sha256 observation.scope) reconciliation observation next where
  lots_le : prior.lots.length ≤ db.state.currentLotCount + reconciliation.state.lots.length
  due_le : db.countDue (benefitScopeId sha256 observation.scope) ≤
    db.state.pendingDueCount + next.countDue (benefitScopeId sha256 observation.scope)
  state : next.state = ⟨db.state.revision + 1,
    db.state.currentLotCount + reconciliation.state.lots.length - prior.lots.length,
    db.state.retainedChangeCount + reconciliation.changes.length,
    db.state.pendingDueCount + next.countDue (benefitScopeId sha256 observation.scope) -
      db.countDue (benefitScopeId sha256 observation.scope),
    db.state.retainedDeliveryCount, some observation.observedAtMs⟩
  rows : ∃ written, writeReconciliation sha256 db (benefitScopeId sha256 observation.scope)
    reconciliation observation = .ok written ∧ next = { written with state := next.state }

/-- What an observation that returns went through: either nothing was written beyond the scope row,
or the reconciliation was written and published. -/
theorem applyBenefitObservation_ok {res : BenefitApplyResult}
    (h : applyBenefitObservation sha db observation = .ok (next, res)) :
    ∃ ensured current recn,
      ensureScope db observation.scope (benefitScopeId sha observation.scope) = .ok ensured ∧
      loadInventoryState sha ensured observation.scope (benefitScopeId sha observation.scope)
        observation.lots = .ok current ∧
      reconcileInventory sha current observation = .ok recn ∧
      res.status = recn.status ∧
      (((recn.status = .duplicate ∨ recn.status = .stale) ∧ next = ensured) ∨
        ((recn.status = .freshnessOnly ∨ recn.status = .changed) ∧
          Published sha ensured current recn observation next)) := by
  obtain ⟨global, hgl, h⟩ := bind_eq_ok.mp h
  obtain ⟨ensured, hens, h⟩ := bind_eq_ok.mp h
  obtain ⟨current, hcur, h⟩ := bind_eq_ok.mp h
  obtain ⟨recn, hrec, h⟩ := bind_eq_ok.mp h
  obtain ⟨_, _, hgl⟩ := bind_eq_ok.mp hgl
  cases hgl
  rw [mapError_eq_ok] at hrec
  refine ⟨ensured, current, recn, hens, hcur, hrec, ?_⟩
  have hstate : db.state = ensured.state := by rw [ensureScope_frame hens]
  rw [hstate] at h
  unfold commitReconciliation at h
  cases hsta : recn.status with
  | duplicate | stale =>
    rw [hsta] at h
    cases h
    exact ⟨rfl, .inl ⟨by simp, rfl⟩⟩
  | freshnessOnly | changed =>
    rw [hsta] at h
    split_ifs at h
    obtain ⟨written, hwrt, h⟩ := bind_eq_ok.mp h
    obtain ⟨hres, hls, hdue, rfl⟩ := publishObservation_ok h
    exact ⟨hsta ▸ hres, .inr ⟨by simp,
      { writeReconciliation_ok hwrt with
        lots_le := hls
        due_le := hdue
        state := rfl
        rows := ⟨written, hwrt, rfl⟩ }⟩⟩

/-- The profile rows of an override. -/
def overrideRows (scopeId : BenefitScopeId) : Option ReminderProfile → List ProfileRow
  | none => []
  | some profile => [⟨.scope scopeId, profile⟩]

theorem setBenefitReminderOverride_ok {profile : Option ReminderProfile}
    (h : setBenefitReminderOverride sha db scope profile = .ok (next, res)) :
    ∃ state added active,
      loadInventoryState sha db scope (benefitScopeId sha scope) [] = .ok state ∧
      Rebuilds sha scope (benefitScopeId sha scope) state.lots active added ∧
      db.countDue (benefitScopeId sha scope) ≤ db.state.pendingDueCount + added.length ∧
      db.state.lastPublishedAtMs.isSome = true ∧
      next = { db with
        state := { db.state with
          revision := db.state.revision + 1
          pendingDueCount := db.state.pendingDueCount + added.length -
            db.countDue (benefitScopeId sha scope) }
        profiles := (db.profiles.filter fun row =>
          row.key != .scope (benefitScopeId sha scope)) ++
            overrideRows (benefitScopeId sha scope) profile
        due := (db.due.filter fun row =>
          row.ref.lot.scopeId != benefitScopeId sha scope) ++ added } := by
  obtain ⟨global, hgl, h⟩ := bind_eq_ok.mp h
  obtain ⟨_, hpub, h⟩ := bind_eq_ok.mp h
  obtain ⟨state, hsta, h⟩ := bind_eq_ok.mp h
  obtain ⟨replaced, hrep, h⟩ := bind_eq_ok.mp h
  obtain ⟨active, _, h⟩ := bind_eq_ok.mp h
  obtain ⟨rebuilt, hreb, h⟩ := bind_eq_ok.mp h
  obtain ⟨revision, hrev, h⟩ := bind_eq_ok.mp h
  obtain ⟨pend, hpd, h⟩ := bind_eq_ok.mp h
  obtain ⟨published, hup, h⟩ := bind_eq_ok.mp h
  obtain ⟨_, _, hgl⟩ := bind_eq_ok.mp hgl
  obtain ⟨_, _, hup⟩ := bind_eq_ok.mp hup
  cases hgl
  cases hup
  cases h
  have hprof : replaced = { (db.deleteDue (benefitScopeId sha scope)).deleteProfile
      (.scope (benefitScopeId sha scope)) with
      profiles := (db.profiles.filter fun row =>
        row.key != .scope (benefitScopeId sha scope)) ++
          overrideRows (benefitScopeId sha scope) profile } := by
    cases profile with
    | none =>
      cases hrep
      simp [overrideRows, BenefitStore.deleteProfile, BenefitStore.deleteDue]
    | some profile =>
      obtain ⟨_, _, hrep⟩ := bind_eq_ok.mp hrep
      cases hrep
      rfl
  subst hprof
  obtain ⟨added, rfl, hadd, hle, rfl⟩ := rebuildDue_replaces rfl hreb hpd
  unfold nextInventoryRevision at hrev
  split_ifs at hrev
  cases hrev
  rw [ensure_eq_ok, Bool.and_eq_true] at hpub
  exact ⟨state, added, active, hsta, hadd, hle, hpub.2, rfl⟩

theorem rebuildProfileScope_ok {prog after : BenefitStore × ℕ} {scope : GlobalProfileScope}
    (h : rebuildProfileScope sha profile prog scope = .ok after) :
    ∃ added, Rebuilds sha scope.scope scope.scopeId scope.lots profile added ∧
      prog.1.countDue scope.scopeId ≤ prog.2 + added.length ∧
      after = ({ prog.1 with
        due := (prog.1.due.filter fun row => row.ref.lot.scopeId != scope.scopeId) ++ added },
        prog.2 + added.length - prog.1.countDue scope.scopeId) := by
  obtain ⟨rebuilt, hreb, h⟩ := bind_eq_ok.mp h
  obtain ⟨pend, hpd, h⟩ := bind_eq_ok.mp h
  cases h
  obtain ⟨added, rfl, hadd, hle, rfl⟩ := rebuildDue_replaces rfl hreb hpd
  exact ⟨added, hadd, hle, rfl⟩

variable {scopes : List GlobalProfileScope}

theorem loadProfileScopes_ok {totalLots : ℕ} {rows : List ScopeRow}
    (h : loadProfileScopes sha db totalLots rows = .ok scopes) :
    (∀ scope ∈ scopes, benefitScopeId sha scope.scope = scope.scopeId ∧ ∃ state,
      loadInventoryState sha db scope.scope scope.scopeId [] = .ok state ∧
        scope.lots = state.lots) ∧ scopes.length = rows.length := by
  induction rows generalizing totalLots scopes with
  | nil =>
    cases h
    simp
  | cons row rows ih =>
    unfold loadProfileScopes at h
    split_ifs at h with h1 h2 h3
    obtain ⟨state, hsta, h⟩ := bind_eq_ok.mp h
    obtain ⟨rest, hrs, h⟩ := bind_eq_ok.mp h
    cases h
    obtain ⟨hld, hlen⟩ := ih hrs
    refine ⟨forall_mem_cons.mpr ⟨?_, hld⟩, congrArg Nat.succ hlen⟩
    exact ⟨not_not.mp h1, state, hsta, rfl⟩

/-- Rebuilding the schedules of scopes changes only the due table, and adds to it at most one full
schedule for each scope. -/
theorem rebuildProfileScopes_ok {pend pending' : ℕ}
    (h : scopes.foldlM (rebuildProfileScope sha profile) (db, pend) = .ok (next, pending')) :
    next = { db with due := next.due } ∧
      next.due.length ≤ db.due.length + scopes.length * maxScheduledReminders := by
  induction scopes generalizing db pend with
  | nil =>
    cases h
    exact ⟨rfl, by simp⟩
  | cons scope scopes ih =>
    obtain ⟨after, haft, h⟩ := bind_eq_ok.mp h
    obtain ⟨added, hadd, _, rfl⟩ := rebuildProfileScope_ok haft
    have hlength := hadd.length_le
    obtain ⟨hnx, hbd⟩ := ih h
    refine ⟨hnx.trans rfl, ?_⟩
    have hkp := length_filter_le (fun row : DueRow => row.ref.lot.scopeId != scope.scopeId)
      db.due
    simp only [length_append] at hbd
    rw [length_cons, Nat.succ_mul]
    omega

/-- The store with another global profile. -/
def BenefitStore.withGlobalProfile (db : BenefitStore) (profile : ReminderProfile) : BenefitStore :=
  { db with
    profiles := (db.profiles.filter fun row => row.key != .global) ++ [⟨.global, profile⟩] }

theorem setBenefitReminderGlobalProfile_ok
    (h : setBenefitReminderGlobalProfile sha db profile = .ok (next, res)) :
    next = db ∨ ∃ (scopes : List GlobalProfileScope) (rebuilt : BenefitStore) (pend : ℕ),
      (∀ scope ∈ scopes, benefitScopeId sha scope.scope = scope.scopeId ∧ ∃ state,
        loadInventoryState sha db scope.scope scope.scopeId [] = .ok state ∧
          scope.lots = state.lots) ∧
      scopes.length ≤ maxBenefitOverviewScopes ∧
      scopes.foldlM (rebuildProfileScope sha profile)
        (db.withGlobalProfile profile, db.state.pendingDueCount) = .ok (rebuilt, pend) ∧
      ((db.state.revision = 0 ∧ pend = 0 ∧ next = rebuilt) ∨
        (db.state.revision ≠ 0 ∧ next = { rebuilt with
          state := { db.state with
            revision := db.state.revision + 1
            pendingDueCount := pend } })) := by
  obtain ⟨global, hgl, h⟩ := bind_eq_ok.mp h
  obtain ⟨current, _, h⟩ := bind_eq_ok.mp h
  obtain ⟨_, _, hgl⟩ := bind_eq_ok.mp hgl
  cases hgl
  split_ifs at h with h1 h2 h3
  · obtain ⟨_, _, h⟩ := bind_eq_ok.mp h
    cases h
    exact .inl rfl
  · obtain ⟨scopes, hscs, h⟩ := bind_eq_ok.mp h
    obtain ⟨replaced, hrep, h⟩ := bind_eq_ok.mp h
    obtain ⟨⟨rebuilt, pend⟩, hreb, hpub⟩ := bind_eq_ok.mp h
    obtain ⟨_, _, hrep⟩ := bind_eq_ok.mp hrep
    cases hrep
    unfold loadBenefitScopesForGlobalProfile at hscs
    simp only at hscs
    split_ifs at hscs with hmy
    obtain ⟨hld, hlen⟩ := loadProfileScopes_ok hscs
    refine .inr ⟨scopes, rebuilt, pend, hld, ?_, hreb, ?_⟩
    · rw [hlen]
      exact not_lt.mp hmy
    · simp only [publishGlobalProfile] at hpub
      split_ifs at hpub with hrev
      · obtain ⟨_, hz, hpub⟩ := bind_eq_ok.mp hpub
        cases hpub
        rw [ensure_eq_ok] at hz
        simp only [Bool.and_eq_true, beq_iff_eq] at hz
        exact .inl ⟨hrev, hz.1.2, rfl⟩
      · obtain ⟨revision, hrevi, hpub⟩ := bind_eq_ok.mp hpub
        obtain ⟨published, hpubl, hpub⟩ := bind_eq_ok.mp hpub
        obtain ⟨_, _, hpubl⟩ := bind_eq_ok.mp hpubl
        unfold nextInventoryRevision at hrevi
        split_ifs at hrevi
        cases hrevi
        cases hpubl
        cases hpub
        exact .inr ⟨hrev, rfl⟩

/-! ### Deliveries and acknowledgements -/

theorem deleteEach_ok {α β : Type} {hit : β → α → Bool} {victims : List β} {rows kept : List α}
    (h : deleteEach hit victims rows = .ok kept) :
    kept = rows.filter (fun row => victims.all fun victim => !hit victim row) ∧
      kept.length + victims.length = rows.length := by
  induction victims generalizing rows with
  | nil =>
    cases h
    simp
  | cons victim victims ih =>
    obtain ⟨_, hone, h⟩ := bind_eq_ok.mp h
    obtain ⟨hkp, hlen⟩ := ih h
    rw [ensure_eq_ok, beq_iff_eq] at hone
    constructor
    · rw [hkp, filter_filter]
      refine filter_congr fun row _ => ?_
      rw [all_cons, Bool.and_comm]
    · have hspl := rows.length_eq_length_filter_add (hit victim)
      rw [countP_eq_length_filter] at hone
      rw [length_cons]
      omega

theorem deliverCandidate_ok {prog after : BenefitStore × List StoredDue} {cand : StoredDue}
    (h : deliverCandidate deliveredAtMs hpos prog cand = .ok after) :
    after = prog ∨
      (prog.1.hasReceipt cand.row.ref cand.row.channel cand.row.threshold = false ∧
      prog.1.revisionStored cand.row.ref = true ∧
      (∀ row ∈ prog.1.deliveries, row.deliveryId ≠ cand.row.deliveryId) ∧
      after = ({ prog.1 with
        deliveries := prog.1.deliveries ++ [cand.receipt deliveredAtMs hpos] },
          prog.2 ++ [cand])) := by
  unfold deliverCandidate at h
  split_ifs at h with h1 h2
  · cases h
    exact .inl rfl
  · obtain ⟨inserted, hinse, h⟩ := bind_eq_ok.mp h
    obtain ⟨_, hck, hinse⟩ := bind_eq_ok.mp hinse
    cases hinse
    cases h
    rw [ensure_eq_ok] at hck
    simp only [Bool.and_eq_true, Bool.not_eq_true'] at hck
    refine .inr ⟨by simpa using h1, hck.1, ?_, rfl⟩
    intro row hrow
    simpa [StoredDue.receipt] using any_eq_false.mp hck.2 row hrow

theorem deliverCandidates_ok {cands delivered : List StoredDue}
    (h : cands.foldlM (deliverCandidate deliveredAtMs hpos) (db, []) = .ok (next, delivered)) :
    next = { db with
      deliveries := db.deliveries ++ delivered.map fun due => due.receipt deliveredAtMs hpos } := by
  refine @foldlM_keeps _ _ _ (fun prog => prog.1 = { db with
    deliveries := db.deliveries ++ prog.2.map fun due => due.receipt deliveredAtMs hpos })
    _ _ _ _ h (by simp) ?_
  intro cand _ before after hbef hst
  rcases deliverCandidate_ok hst with rfl | ⟨_, _, _, rfl⟩
  · exact hbef
  · simp [hbef]

theorem deliverPage_ok {sel : List StoredDue}
    (h : deliverPage db deliveredAtMs hpos channel sel = .ok processed) :
    ∃ delivered kept, (dueCandidates sel deliveredAtMs).foldlM
        (deliverCandidate deliveredAtMs hpos) (db, []) = .ok (delivered, processed.delivered) ∧
      kept = delivered.due.filter (fun row =>
        sel.all fun due => !(row.deliveryId == due.row.deliveryId)) ∧
      kept.length + sel.length = delivered.due.length ∧
      sel.length ≤ delivered.state.pendingDueCount ∧
      processed.db = { delivered with
        due := kept
        state := { delivered.state with
          pendingDueCount := delivered.state.pendingDueCount - sel.length
          retainedDeliveryCount :=
            delivered.state.retainedDeliveryCount + processed.delivered.length } } := by
  obtain ⟨⟨delivered, sent⟩, hdeli, h⟩ := bind_eq_ok.mp h
  obtain ⟨kept, hkp, h⟩ := bind_eq_ok.mp h
  obtain ⟨updated, hupd, h⟩ := bind_eq_ok.mp h
  obtain ⟨_, _, h⟩ := bind_eq_ok.mp h
  cases h
  obtain ⟨_, hpd, hupd⟩ := bind_eq_ok.mp hupd
  obtain ⟨_, _, hupd⟩ := bind_eq_ok.mp hupd
  cases hupd
  obtain ⟨hrs, hlen⟩ := deleteEach_ok hkp
  rw [ensure_eq_ok, decide_eq_true_iff] at hpd
  exact ⟨delivered, kept, hdeli, hrs, hlen, hpd, rfl⟩

theorem processDueBenefitReminders_ok {maxRows : ℕ}
    (h : processDueBenefitReminders db deliveredAtMs channel maxRows = .ok processed) :
    (processed.db = db ∧ processed.delivered = []) ∨
      (0 < maxRows ∧ maxRows ≤ maxDueReminderPageSize ∧
        loadUnacknowledgedDeliveries db channel maxRows = [] ∧ ∃ hpos : 0 < deliveredAtMs,
          deliverPage db deliveredAtMs hpos channel
            (loadDuePage db deliveredAtMs channel maxRows) = .ok processed) := by
  unfold processDueBenefitReminders at h
  split_ifs at h with hpos hrs
  cases hld : loadUnacknowledgedDeliveries db channel maxRows with
  | nil =>
    rw [hld] at h
    exact .inr ⟨by omega, by omega, rfl, hpos, h⟩
  | cons first rest =>
    rw [hld] at h
    cases h
    exact .inl ⟨rfl, rfl⟩

theorem acknowledgeDelivery_ok {prog after : BenefitStore × List ReminderDeliveryId}
    {delivery : BenefitReminderDelivery}
    (h : acknowledgeDelivery acknowledgedAtMs prog delivery = .ok after) :
    after = prog ∨ ((∃ row ∈ prog.1.deliveries, row.deliveryId = delivery.deliveryId) ∧
      prog.1.acknowledged delivery.deliveryId = false ∧
      after = ({ prog.1 with
        acks := prog.1.acks ++ [⟨delivery.deliveryId, acknowledgedAtMs⟩] },
          prog.2 ++ [delivery.deliveryId])) := by
  unfold acknowledgeDelivery at h
  cases hf : prog.1.deliveries.find? fun row => row.deliveryId == delivery.deliveryId with
  | none =>
    rw [hf] at h
    cases h
  | some row =>
    rw [hf] at h
    simp only at h
    split_ifs at h with h1 h2
    · cases h
      exact .inl rfl
    · cases h
      refine .inr ⟨⟨row, mem_of_find?_eq_some hf, ?_⟩, by simpa using h2, rfl⟩
      simpa using List.find?_some hf

/-- An acknowledgement changes no other table. -/
theorem acknowledgeDeliveries_ok {deliveries : List BenefitReminderDelivery}
    {ids : List ReminderDeliveryId}
    (h : deliveries.foldlM (acknowledgeDelivery acknowledgedAtMs) (db, []) = .ok (next, ids)) :
    next = { db with acks := next.acks } := by
  refine @foldlM_keeps _ _ _ (fun prog => prog.1 = { db with acks := prog.1.acks })
    _ _ _ _ h rfl ?_
  intro delivery _ before after hbef hst
  rcases acknowledgeDelivery_ok hst with rfl | ⟨_, _, rfl⟩
  · exact hbef
  · rw [hbef]

theorem acknowledgeBenefitReminders_ok {deliveries : List BenefitReminderDelivery}
    (h : acknowledgeBenefitReminders db deliveries acknowledgedAtMs = .ok acknowledged) :
    deliveries.foldlM (acknowledgeDelivery acknowledgedAtMs) (db, []) =
      .ok (acknowledged.db, acknowledged.acknowledged) := by
  unfold acknowledgeBenefitReminders at h
  split_ifs at h
  obtain ⟨_, _, h⟩ := bind_eq_ok.mp h
  obtain ⟨⟨next, ids⟩, hfo, h⟩ := bind_eq_ok.mp h
  cases h
  exact hfo

/-! ### Retention -/

/-- The state row after a page that deleted so many changes and deliveries. -/
def MaintainedState (state : GlobalBenefitState) (deletedChanges deletedDeliveries : ℕ)
    (after : GlobalBenefitState) : Prop :=
  (deletedChanges = 0 ∧ deletedDeliveries = 0 ∧ after = state) ∨
    (state.lastPublishedAtMs.isSome = true ∧ deletedChanges ≤ state.retainedChangeCount ∧
      deletedDeliveries ≤ state.retainedDeliveryCount ∧ after = { state with
        revision := state.revision + 1
        retainedChangeCount := state.retainedChangeCount - deletedChanges
        retainedDeliveryCount := state.retainedDeliveryCount - deletedDeliveries })

/-- The tables after a page that deleted these changes, revisions and deliveries. -/
structure Maintained (scopeId : BenefitScopeId) (db : BenefitStore) (oldChanges : List ChangeRow)
    (oldRevisions : List LotRevisionRow) (oldDeliveries : List DeliveryRow) (next : BenefitStore) :
    Prop where
  changes_followed : ∀ change ∈ oldChanges, change ∈ db.changes ∧ ∃ newer ∈ db.changes,
    newer.lot = change.lot ∧ change.sequence < newer.sequence
  revisions_orphan : ∀ revision ∈ oldRevisions,
    ({ db with changes := next.changes } : BenefitStore).references revision.ref = false
  deliveries_done : ∀ delivery ∈ oldDeliveries, delivery ∈ db.deliveries ∧
    db.acknowledged delivery.deliveryId = true ∧ ∀ row ∈ db.current, row.ref ≠ delivery.ref
  deliveries_scope : ∀ delivery ∈ oldDeliveries, delivery.ref.lot.scopeId = scopeId
  changes : next.changes = db.changes.filter fun row => oldChanges.all fun change =>
    !(row.lot.scopeId == scopeId && row.changeId == change.changeId)
  changes_length : next.changes.length + oldChanges.length = db.changes.length
  lotRevisions : next.lotRevisions = db.lotRevisions.filter fun row =>
    oldRevisions.all fun revision => !(row.ref == revision.ref)
  deliveries : next.deliveries = db.deliveries.filter fun row => oldDeliveries.all fun delivery =>
    !(row.ref.lot.scopeId == scopeId && row.deliveryId == delivery.deliveryId)
  deliveries_length : next.deliveries.length + oldDeliveries.length = db.deliveries.length
  acks : next.acks = db.acks.filter fun ack =>
    !oldDeliveries.any fun delivery => delivery.deliveryId == ack.deliveryId
  scopes : next.scopes = db.scopes
  current : next.current = db.current
  profiles : next.profiles = db.profiles
  due : next.due = db.due
  state : MaintainedState db.state oldChanges.length oldDeliveries.length next.state

section Maintained

variable {changes : List ChangeRow} {revisions : List LotRevisionRow} {deliveries : List DeliveryRow}
  (h : Maintained scopeId db changes revisions deliveries next)

include h

theorem Maintained.mem_changes (hrow : row ∈ next.changes) : row ∈ db.changes := by
  rw [h.changes] at hrow
  exact mem_of_mem_filter hrow

theorem Maintained.mem_lotRevisions {row : LotRevisionRow} (hrow : row ∈ next.lotRevisions) :
    row ∈ db.lotRevisions := by
  rw [h.lotRevisions] at hrow
  exact mem_of_mem_filter hrow

theorem Maintained.mem_deliveries {row : DeliveryRow} (hrow : row ∈ next.deliveries) :
    row ∈ db.deliveries := by
  rw [h.deliveries] at hrow
  exact mem_of_mem_filter hrow

end Maintained

variable {limit : ℕ}

theorem mem_removableChangeCandidates {change : ChangeRow}
    (h : change ∈ removableChangeCandidates db scopeId limit) :
    change ∈ db.changes ∧ ∃ newer ∈ db.changes,
      newer.lot = change.lot ∧ change.sequence < newer.sequence := by
  have hmem := (perm_insertionSort _ _).mem_iff.mp (mem_of_mem_take h)
  obtain ⟨hmem, hcond⟩ := mem_filter.mp hmem
  rw [Bool.and_eq_true, any_eq_true] at hcond
  obtain ⟨_, newer, hnw, hlat⟩ := hcond
  rw [Bool.and_eq_true, beq_iff_eq, decide_eq_true_iff] at hlat
  exact ⟨hmem, newer, hnw, hlat.1, hlat.2⟩

theorem mem_orphanRevisionCandidates {rev : LotRevisionRow}
    (h : rev ∈ orphanRevisionCandidates db scopeId limit) :
    db.references rev.ref = false := by
  have hmem := (perm_insertionSort _ _).mem_iff.mp (mem_of_mem_take h)
  obtain ⟨_, hcond⟩ := mem_filter.mp hmem
  rw [Bool.and_eq_true, Bool.not_eq_true'] at hcond
  exact hcond.2

theorem mem_removableDeliveryCandidates {delivery : DeliveryRow}
    (h : delivery ∈ removableDeliveryCandidates db scopeId limit) :
    delivery.ref.lot.scopeId = scopeId ∧ delivery ∈ db.deliveries ∧
      db.acknowledged delivery.deliveryId = true ∧ ∀ row ∈ db.current, row.ref ≠ delivery.ref := by
  have hmem := (perm_insertionSort _ _).mem_iff.mp (mem_of_mem_take h)
  obtain ⟨hmem, hcond⟩ := mem_filter.mp hmem
  simp only [Bool.and_eq_true, beq_iff_eq, Bool.not_eq_true'] at hcond
  refine ⟨hcond.1.1, hmem, hcond.1.2, ?_⟩
  intro row hrow
  simpa using any_eq_false.mp hcond.2 row hrow

theorem updateBenefitState_ok {deletedChanges deletedDeliveries : ℕ}
    (h : updateBenefitState db deletedChanges deletedDeliveries = .ok next) :
    next = { db with state := next.state } ∧
      MaintainedState db.state deletedChanges deletedDeliveries next.state := by
  unfold updateBenefitState at h
  split_ifs at h with hno
  · cases h
    exact ⟨rfl, .inl ⟨hno.1, hno.2, rfl⟩⟩
  · obtain ⟨rev, hrev, h⟩ := bind_eq_ok.mp h
    obtain ⟨_, hchs, h⟩ := bind_eq_ok.mp h
    obtain ⟨_, hds, h⟩ := bind_eq_ok.mp h
    obtain ⟨_, hpub, h⟩ := bind_eq_ok.mp h
    unfold nextInventoryRevision at hrev
    split_ifs at hrev
    cases hrev
    cases h
    rw [ensure_eq_ok, decide_eq_true_iff] at hchs hds
    rw [ensure_eq_ok] at hpub
    exact ⟨rfl, .inr ⟨hpub, hchs, hds, rfl⟩⟩

theorem maintainBenefitHistoryPage_ok {size : ℕ} {res : BenefitMaintenanceResult}
    (h : maintainBenefitHistoryPage sha db scope size = .ok (next, res)) :
    ∃ changes revisions deliveries,
      Maintained (benefitScopeId sha scope) db changes revisions deliveries next := by
  unfold maintainBenefitHistoryPage at h
  split_ifs at h
  obtain ⟨keptChanges, hchs, h⟩ := bind_eq_ok.mp h
  obtain ⟨keptRevisions, hrevs, h⟩ := bind_eq_ok.mp h
  obtain ⟨keptDeliveries, hds, h⟩ := bind_eq_ok.mp h
  obtain ⟨updated, hupd, h⟩ := bind_eq_ok.mp h
  cases h
  obtain ⟨hchs, hchsL⟩ := deleteEach_ok hchs
  obtain ⟨hrevs, _⟩ := deleteEach_ok hrevs
  obtain ⟨hds, hdsL⟩ := deleteEach_ok hds
  obtain ⟨hnx, hsta⟩ := updateBenefitState_ok hupd
  rw [hnx]
  exact ⟨_, _, _,
    { changes_followed := fun _ => mem_removableChangeCandidates
      revisions_orphan := fun _ => mem_orphanRevisionCandidates
      deliveries_done := fun _ h => (mem_removableDeliveryCandidates h).2
      deliveries_scope := fun _ h => (mem_removableDeliveryCandidates h).1
      changes := hchs
      changes_length := hchsL
      lotRevisions := hrevs
      deliveries := hds
      deliveries_length := hdsL
      acks := rfl
      scopes := rfl
      current := rfl
      profiles := rfl
      due := rfl
      state := hsta }⟩

/-! ### Calls -/

/-- What a call that commits has done. -/
inductive Committed (sha256 : Bytes → Bytes32) (db : BenefitStore) :
    BenefitCall → BenefitStore → List ReminderEvent → Prop where
  | observe {observation next result}
    (h : applyBenefitObservation sha256 db observation = .ok (next, result)) :
    Committed sha256 db (.observe observation) next []
  | setOverride {scope profile next result}
    (h : setBenefitReminderOverride sha256 db scope profile = .ok (next, result)) :
    Committed sha256 db (.setOverride scope profile) next []
  | setGlobalProfile {profile next result}
    (h : setBenefitReminderGlobalProfile sha256 db profile = .ok (next, result)) :
    Committed sha256 db (.setGlobalProfile profile) next []
  | processDue {deliveredAtMs channel maxRows processed}
    (h : processDueBenefitReminders db deliveredAtMs channel maxRows = .ok processed) :
    Committed sha256 db (.processDue deliveredAtMs channel maxRows) processed.db
      (processed.delivered.map fun due => .delivered due deliveredAtMs)
  | acknowledge {deliveries acknowledgedAtMs acknowledged}
    (h : acknowledgeBenefitReminders db deliveries acknowledgedAtMs = .ok acknowledged) :
    Committed sha256 db (.acknowledge deliveries acknowledgedAtMs) acknowledged.db
      (acknowledged.acknowledged.map .acknowledged)
  | maintain {scope pageSize changes revisions deliveries next}
    (h : Maintained (benefitScopeId sha256 scope) db changes revisions deliveries next) :
    Committed sha256 db (.maintain scope pageSize) next []

theorem callBenefit_ok {call : BenefitCall} {events : List ReminderEvent}
    (hok : callBenefit sha db call = .ok (next, events)) : Committed sha db call next events := by
  cases call with
  | maintain scope size =>
    obtain ⟨_, hcl, heq⟩ := map_eq_ok.mp hok
    cases heq
    obtain ⟨_, _, _, hpg⟩ := maintainBenefitHistoryPage_ok hcl
    exact .maintain hpg
  | _ =>
    obtain ⟨_, hcl, heq⟩ := map_eq_ok.mp hok
    cases heq
    constructor
    exact hcl

/-- An override changes the profiles, the schedule and its counters only. -/
theorem setBenefitReminderOverride_frame {profile : Option ReminderProfile}
    (h : setBenefitReminderOverride sha db scope profile = .ok (next, res)) :
    next = { db with state := next.state, profiles := next.profiles, due := next.due } := by
  obtain ⟨_, _, _, _, _, _, _, rfl⟩ := setBenefitReminderOverride_ok h
  rfl

theorem setBenefitReminderGlobalProfile_frame
    (h : setBenefitReminderGlobalProfile sha db profile = .ok (next, res)) :
    next = { db with state := next.state, profiles := next.profiles, due := next.due } := by
  rcases setBenefitReminderGlobalProfile_ok h with rfl | ⟨_, _, _, _, _, hfo, hend⟩
  · rfl
  · rw [(rebuildProfileScopes_ok hfo).1] at hend
    rcases hend with ⟨_, _, rfl⟩ | ⟨_, rfl⟩
    · rfl
    · rfl

/-- A page of deliveries leaves due rows out and changes the deliveries and the counters. -/
theorem processDueBenefitReminders_frame {maxRows : ℕ}
    (h : processDueBenefitReminders db deliveredAtMs channel maxRows = .ok processed) :
    processed.db.due.Sublist db.due ∧ processed.db = { db with
      state := processed.db.state, due := processed.db.due, deliveries := processed.db.deliveries } := by
  rcases processDueBenefitReminders_ok h with ⟨hsm, _⟩ | ⟨_, _, _, _, hpg⟩
  · rw [hsm]
    exact ⟨List.Sublist.refl _, rfl⟩
  · obtain ⟨_, _, hfo, hkp, _, _, hnx⟩ := deliverPage_ok hpg
    rw [deliverCandidates_ok hfo] at hkp hnx
    rw [hnx]
    refine ⟨?_, rfl⟩
    rw [hkp]
    exact filter_sublist

theorem acknowledgeBenefitReminders_frame {deliveries : List BenefitReminderDelivery}
    (h : acknowledgeBenefitReminders db deliveries acknowledgedAtMs = .ok acknowledged) :
    acknowledged.db = { db with acks := acknowledged.db.acks } :=
  acknowledgeDeliveries_ok (acknowledgeBenefitReminders_ok h)

end TokenMaster.Benefits
