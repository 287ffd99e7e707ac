import TokenMaster.Benefits.Writes

/-!
# TokenMaster.Benefits.Storable — observations that can always be stored

`Storable` lists what an observation needs so that it is applied: it is not older than the last one,
its identity is not that of a different observation, and the inventory, the loaded inventory and the
history of the scope stay inside their capacities.  Three further conditions exclude inputs on which
the code fails although nothing is out of bounds: a re-hydrated lot that is observed exactly as it was
re-hydrated, a label that the label column does not take, and a counter of current lots that would
become negative.  The digests that the call compares must not collide.
-/

namespace TokenMaster.Benefits

open Domain Store TokenMaster.Except List

variable {sha : Bytes → Bytes32} {db next : BenefitStore}
  {observation : BenefitInventoryObservation}

/-! ### The plan of an observation -/

/-- The inventory that the observation is compared with. -/
def priorLots (sha256 : Bytes → Bytes32) (db : BenefitStore)
    (observation : BenefitInventoryObservation) : List BenefitCurrentLot :=
  sortByLotId (hydrateRetiredObservedLots db (benefitScopeId sha256 observation.scope)
    observation.lots (loadCurrentLots db (benefitScopeId sha256 observation.scope)))

def inventorySteps (sha256 : Bytes → Bytes32) (db : BenefitStore)
    (observation : BenefitInventoryObservation) : List LotStep :=
  plannedSteps (priorLots sha256 db observation) observation

/-- The reconciled inventory. -/
def nextLots (sha256 : Bytes → Bytes32) (db : BenefitStore)
    (observation : BenefitInventoryObservation) : List BenefitCurrentLot :=
  (inventorySteps sha256 db observation).filterMap LotStep.next

def newChanges (sha256 : Bytes → Bytes32) (db : BenefitStore)
    (observation : BenefitInventoryObservation) : List PendingChange :=
  (inventorySteps sha256 db observation).filterMap LotStep.pending

/-- The sequence number of the last change of the scope. -/
def lastSequence (db : BenefitStore) (scopeId : BenefitScopeId) : ℕ :=
  ((db.scopes.find? fun row => row.scopeId == scopeId).map (·.lastChangeSequence)).getD 0

/-- The changes with their sequence numbers and identities. -/
def plannedChanges (sha256 : Bytes → Bytes32) (db : BenefitStore)
    (observation : BenefitInventoryObservation) : List BenefitChange :=
  ((numberChanges sha256 (benefitScopeId sha256 observation.scope)
    (lastSequence db (benefitScopeId sha256 observation.scope))
    (newChanges sha256 db observation)).toOption).getD []

/-- The schedule of the reconciled inventory. -/
def plannedReminders (sha256 : Bytes → Bytes32) (db : BenefitStore)
    (observation : BenefitInventoryObservation) : List ReminderDue :=
  ((loadActiveProfile db (benefitScopeId sha256 observation.scope)).toOption.bind fun profile =>
    (scheduleReminders sha256 observation.scope (sortByLotId (nextLots sha256 db observation))
      profile).toOption).getD []

/-- The byte strings whose digests the store holds or the observation adds. -/
def hashedInputs (sha256 : Bytes → Bytes32) (db : BenefitStore)
    (observation : BenefitInventoryObservation) : List Bytes :=
  benefitScopeIdInput observation.scope :: (db.scopes.map fun row => benefitScopeIdInput row.scope) ++
    (db.changes.map fun row => benefitChangeIdInput row.lot.scopeId row.sequence row.lot.lotId
      row.lotRevision row.kind.code) ++
    ((plannedChanges sha256 db observation).map fun change => benefitChangeIdInput
      (benefitScopeId sha256 observation.scope) change.sequence change.lotId change.lotRevision
      change.kind.code) ++
    (db.due.map fun row => reminderDeliveryIdInput row.ref.lot.scopeId row.ref.lot.lotId
      row.ref.revision row.threshold row.channel) ++
    ((plannedReminders sha256 db observation).map fun due => reminderDeliveryIdInput
      (benefitScopeId sha256 observation.scope) due.lotId due.lotRevision due.leadTime due.channel)

/-- The publications after which the numbers of a store could leave the range of its integers. -/
def maxPublications : ℕ := 2 ^ 40

structure Storable (sha256 : Bytes → Bytes32) (db : BenefitStore)
    (observation : BenefitInventoryObservation) : Prop where
  notStale : ∀ row ∈ db.scopes, row.scopeId = benefitScopeId sha256 observation.scope →
    ∀ last ∈ row.observation, last.observedAtMs ≤ observation.observedAtMs
  identity : ∀ row ∈ db.scopes, row.scopeId = benefitScopeId sha256 observation.scope →
    ∀ last ∈ row.observation, last.observationId = observation.observationId →
      newChanges sha256 db observation = []
  capacity : (nextLots sha256 db observation).length ≤ maxBenefitLotsPerObservation
  history : db.countChanges (benefitScopeId sha256 observation.scope) +
    (newChanges sha256 db observation).length ≤ maxBenefitChangesPerScope
  loaded : (priorLots sha256 db observation).length ≤ maxBenefitLotsPerObservation
  rehydrated : ∀ lot ∈ observation.lots,
    ∀ retired ∈ retiredLot? db ⟨benefitScopeId sha256 observation.scope, lot.lotId⟩,
      retired.lot ≠ lot
  labels : ∀ lot ∈ observation.lots, labelColumnAccepts lot.labelKey = true
  counter : (priorLots sha256 db observation).length ≤
    db.state.currentLotCount + (nextLots sha256 db observation).length
  publications : db.state.revision < maxPublications
  noCollision : Set.InjOn sha256 {input | input ∈ hashedInputs sha256 db observation}

/-! ### Loading -/

/-- The scope row that an observation adds leaves the plan as it was. -/
theorem Storable.ensureScope (hs : Storable sha db observation)
    (hok : ensureScope db observation.scope (benefitScopeId sha observation.scope) = .ok next) :
    Storable sha next observation := by
  rcases ensureScope_ok hok with ⟨rfl, _⟩ | ⟨hfr, rfl⟩
  · exact hs
  · have hl : lastSequence { db with scopes := db.scopes ++
          [freshScopeRow (benefitScopeId sha observation.scope) observation.scope] }
        (benefitScopeId sha observation.scope) =
          lastSequence db (benefitScopeId sha observation.scope) := by
      have hno : db.scopes.find? (fun row =>
          row.scopeId == benefitScopeId sha observation.scope) = none := by
        simpa [BenefitStore.scopeStored] using hfr
      simp [lastSequence, List.find?_append, hno, freshScopeRow]
    have hpl : plannedChanges sha { db with scopes := db.scopes ++
          [freshScopeRow (benefitScopeId sha observation.scope) observation.scope] } observation =
        plannedChanges sha db observation := by
      unfold plannedChanges
      rw [hl]
      rfl
    refine { hs with
      notStale := forall_mem_append_one hs.notStale (by rintro _ last ⟨⟩)
      identity := forall_mem_append_one hs.identity (by rintro _ last ⟨⟩)
      noCollision := hs.noCollision.mono ?_ }
    intro input hin
    simp only [hashedInputs, hpl, map_append, map_cons, map_nil, mem_append,
      mem_cons, not_mem_nil, or_false, Set.mem_ofPred_eq] at hin ⊢
    rcases hin with (((h | h) | h) | h) | h
    · rcases h with h | h | h
      · exact .inl (.inl (.inl (.inl (.inl h))))
      · exact .inl (.inl (.inl (.inl (.inr h))))
      · exact .inl (.inl (.inl (.inl (.inl h))))
    · exact .inl (.inl (.inl (.inr h)))
    · exact .inl (.inl (.inr h))
    · exact .inl (.inr h)
    · exact .inr h

theorem Reached.ensureScope (h : Reached sha db) {scope : BenefitScope}
    (hok : ensureScope db scope (benefitScopeId sha scope) = .ok next) :
    Reached sha next := by
  obtain ⟨drift, hctd⟩ := h.counted
  refine ⟨h.constraints.ensureScope hok, h.history.ensureScope h.constraints hok, ?_, ⟨drift, ?_⟩,
    h.limits.ensureScope h.constraints hok⟩
  · rw [ensureScope_frame hok]
    exact h.scheduled
  · rw [ensureScope_frame hok]
    exact { hctd with }

/-- The scope of the observation has a row of its own, or gets one. -/
theorem ensureScope_returns (h : Reached sha db) (hs : Storable sha db observation) :
    ∃ ensured, ensureScope db observation.scope (benefitScopeId sha observation.scope) =
      .ok ensured ∧ ∃ row ∈ ensured.scopes,
        row.scopeId = benefitScopeId sha observation.scope ∧ row.scope = observation.scope := by
  unfold Benefits.ensureScope
  cases hf : db.scopes.find? fun row =>
      row.scopeId == benefitScopeId sha observation.scope with
  | none => exact ⟨_, rfl, _, mem_append_right _ (mem_singleton_self _), rfl, rfl⟩
  | some row =>
    have hrow := mem_of_find?_eq_some hf
    have hid : row.scopeId = benefitScopeId sha observation.scope := by
      simpa using List.find?_some hf
    have hsc : row.scope = observation.scope := by
      refine benefitScopeIdInput_inj (hs.noCollision ?_ ?_ ?_)
      · simp only [hashedInputs, Set.mem_ofPred_eq, mem_append, mem_cons, mem_map]
        exact .inl (.inl (.inl (.inl (.inr ⟨row, hrow, rfl⟩))))
      · simp [hashedInputs]
      · exact (h.limits.scopeIds row hrow).trans hid
    refine ⟨db, bind_eq_ok.mpr ⟨(), ?_, rfl⟩, row, hrow, hid, hsc⟩
    rw [ensure_eq_ok, beq_iff_eq]
    exact hsc

theorem keyed_loadCurrentLots (hc : Constraints db) (sid : BenefitScopeId) :
    Keyed (fun lot => lot.lot.lotId) (loadCurrentLots db sid) := by
  have hrs : Keyed (fun row => row.ref.lot.lotId)
      (db.current.filter fun row => row.ref.lot.scopeId == sid) := by
    refine (hc.current.filter _).of_imp ?_
    intro a ha b hb hid
    have hsc : a.ref.lot.scopeId = b.ref.lot.scopeId :=
      (beq_iff_eq.mp (mem_filter.mp ha).2).trans (beq_iff_eq.mp (mem_filter.mp hb).2).symm
    exact congrArg₂ LotRef.mk hsc hid
  refine hrs.filterMap ?_
  intro row lot hlot
  obtain ⟨rev, hf, rfl⟩ := Option.map_eq_some_iff.mp hlot
  have href : rev.ref = row.ref := by simpa using List.find?_some hf
  rw [← href]
  rfl

/-- No lot is loaded and re-hydrated at once. -/
theorem keyed_priorLots (hc : Constraints db) (observation : BenefitInventoryObservation) :
    Keyed (fun lot => lot.lot.lotId)
      (hydrateRetiredObservedLots db (benefitScopeId sha observation.scope) observation.lots
        (loadCurrentLots db (benefitScopeId sha observation.scope))) := by
  have hid : ∀ seen lot, rehydrated? db (benefitScopeId sha observation.scope)
      (loadCurrentLots db (benefitScopeId sha observation.scope)) seen = some lot →
        lot.lot.lotId = seen.lotId ∧
        ∀ other ∈ loadCurrentLots db (benefitScopeId sha observation.scope),
          other.lot.lotId ≠ seen.lotId := by
    intro seen lot hfd
    unfold rehydrated? at hfd
    split_ifs at hfd with hld
    refine ⟨retiredLot?_lotId hfd, ?_⟩
    intro other hoth heq
    exact hld (any_eq_true.mpr ⟨other, hoth, by simpa using heq⟩)
  have hobs : Keyed (fun lot : BenefitLotObservation => lot.lotId) observation.lots :=
    observation.lots_nodup
  refine (keyed_loadCurrentLots hc _).append (hobs.filterMap fun seen lot h => (hid seen lot h).1) ?_
  intro loaded hld lot hlot heq
  obtain ⟨seen, _, hfd⟩ := mem_filterMap.mp hlot
  obtain ⟨hlotId, hoth⟩ := hid seen lot hfd
  exact hoth loaded hld (heq.trans hlotId)

/-- The inventory that the observation is reconciled with. -/
def loadedState (sha256 : Bytes → Bytes32) (db : BenefitStore)
    (observation : BenefitInventoryObservation) (row : ScopeRow) : BenefitInventoryState where
  scope := observation.scope
  scopeId := benefitScopeId sha256 observation.scope
  revision := row.inventoryRevision
  lastChangeSequence := row.lastChangeSequence
  lastObservationId := row.observation.map (·.observationId)
  lastObservedAtMs := row.observation.map (·.observedAtMs)
  lots := priorLots sha256 db observation

/-- The assumptions of this development about one observation: its scope has the row `row`. -/
structure Admitted (sha256 : Bytes → Bytes32) (db : BenefitStore)
    (observation : BenefitInventoryObservation) (row : ScopeRow) : Prop where
  reached : Reached sha256 db
  storable : Storable sha256 db observation
  row_mem : row ∈ db.scopes
  row_id : row.scopeId = benefitScopeId sha256 observation.scope
  row_scope : row.scope = observation.scope

variable {row : ScopeRow}

theorem plannedReminders_eq {reconciliation : BenefitReconciliation} {prof : ReminderProfile}
    {scheduled : List ReminderDue}
    (hrec : Reconciled sha (loadedState sha db observation row) observation
      (inventorySteps sha db observation) reconciliation)
    (hprf : loadActiveProfile db (benefitScopeId sha observation.scope) = .ok prof)
    (hsch : scheduleReminders sha observation.scope reconciliation.state.lots prof =
      .ok scheduled) : plannedReminders sha db observation = scheduled := by
  rw [hrec.lots_eq] at hsch
  unfold plannedReminders nextLots
  rw [hprf]
  simp only [Except.toOption, Option.bind_some]
  rw [hsch]
  rfl

theorem reminder_input_mem {due : ReminderDue}
    (hdue : due ∈ plannedReminders sha db observation) :
    reminderDeliveryIdInput (benefitScopeId sha observation.scope) due.lotId due.lotRevision
      due.leadTime due.channel ∈ hashedInputs sha db observation := by
  simp only [hashedInputs, mem_append]
  exact .inr (mem_map_of_mem hdue)

namespace Admitted

variable (h : Admitted sha db observation row) {step : LotStep} {lot : BenefitCurrentLot}

include h

theorem loadInventoryState :
    loadInventoryState sha db observation.scope (benefitScopeId sha observation.scope)
      observation.lots = .ok (loadedState sha db observation row) := by
  have hf := h.reached.constraints.scopes.find?_eq h.row_mem h.row_id
  have hld := h.storable.loaded
  rw [priorLots, sortByLotId, length_insertionSort] at hld
  have hpos : (row.observation.map (·.observedAtMs)).any (· ≤ 0) = false := by
    cases row.observation with
    | none => rfl
    | some last => simpa using last.observed_pos
  unfold Benefits.loadInventoryState
  rw [hf]
  refine bind_eq_ok.mpr ⟨(), by rw [ensure_eq_ok, beq_iff_eq]; exact h.row_scope, ?_⟩
  refine bind_eq_ok.mpr ⟨(), ?_, ?_⟩
  · rw [ensure_eq_ok, beq_iff_eq, h.reached.constraints.length_loadCurrentLots, ← h.row_id]
    exact h.reached.limits.lots row h.row_mem
  · rw [mapError_eq_ok]
    unfold BenefitInventoryState.fromParts
    have hkd := @keyed_priorLots sha db h.reached.constraints observation
    unfold Keyed at hkd
    rw [if_neg (not_lt.mpr hld), if_neg, if_neg (not_not.mpr hkd), h.row_scope]
    · rfl
    · rw [hpos]
      cases row.observation <;> simp

/-! ### Reconciling -/

/-- The publications bound the sequence numbers of every scope. -/
theorem lastChangeSequence_le {other : ScopeRow} (hoth : other ∈ db.scopes) :
    other.lastChangeSequence ≤ maxChangesPerObservation * maxPublications := by
  have hseq := h.reached.limits.sequence other hoth
  have hinve := h.reached.limits.inventory other hoth
  have hpubl := h.storable.publications
  exact hseq.trans (Nat.mul_le_mul_left _ (by omega))

/-- No lot of the scope is at a revision beyond the sequence numbers. -/
theorem latestRevision_le (lotId : BenefitLotId) :
    latestRevision db.changes ⟨benefitScopeId sha observation.scope, lotId⟩ ≤
      row.lastChangeSequence := by
  rw [latestRevision_le_iff]
  intro change hch hlot
  refine (h.reached.limits.lotRevision change hch).trans ?_
  refine h.reached.history.numbered change hch row h.row_mem ?_
  rw [h.row_id, hlot]

theorem length_newChanges_le :
    (newChanges sha db observation).length ≤ maxChangesPerObservation :=
  (length_filterMap_le _ _).trans
    (@length_plannedSteps_le (loadedState sha db observation row) observation h.storable.loaded)

theorem reconcileInventory :
    ∃ reconciliation, reconcileInventory sha (loadedState sha db observation row) observation =
      .ok reconciliation := by
  have hl := h.lastChangeSequence_le h.row_mem
  have hlength := h.length_newChanges_le
  have hinve := h.reached.limits.inventory row h.row_mem
  have hpubl := h.storable.publications
  have hrange : maxChangesPerObservation * maxPublications + maxChangesPerObservation ≤ i64Max := by
    decide
  have hpub : maxPublications ≤ i64Max := by decide
  refine reconcileInventory_returns rfl ?_ h.storable.capacity ?_ ?_ ?_
  · intro prev hprev
    have hone : 1 ≤ maxChangesPerObservation := by decide
    rw [prior_revision h.loadInventoryState h.reached.constraints h.reached.history hprev]
    have hle := h.latestRevision_le prev.lot.lotId
    omega
  · intro hsm
    obtain ⟨last, hl, hid⟩ := Option.map_eq_some_iff.mp hsm
    exact h.storable.identity row h.row_mem h.row_id last hl hid
  · show row.lastChangeSequence + (newChanges sha db observation).length ≤ i64Max
    omega
  · show row.inventoryRevision + 1 ≤ i64Max
    omega

/-! ### The steps of the observation -/

/-- A prior lot without current row is observed and changes. -/
theorem previous_loaded (hst : step ∈ inventorySteps sha db observation)
    (hprev : step.previous = some lot) (hpr : lot ∈ priorLots sha db observation) :
    lot ∈ loadCurrentLots db (benefitScopeId sha observation.scope) ∨
      (observation.mentions lot.lot.lotId = true ∧
        retiredLot? db ⟨benefitScopeId sha observation.scope, lot.lot.lotId⟩ = some lot ∧
        step.pending.isSome = true ∧ step.next.isSome = true) := by
  rcases prior_cases h.loadInventoryState hpr with hld | ⟨seen, hsn, hid, hret⟩
  · exact .inl hld
  · have hment := observation.mentions_iff.mpr ⟨seen, hsn, hid⟩
    refine .inr ⟨hment, hret, ?_⟩
    rcases mem_plannedSteps.mp hst with ⟨observed, hobs, rfl⟩ | ⟨prev, _, hno, rfl⟩
    · obtain ⟨cur, hnx, hcon⟩ :=
        observeStep_next (priorLots sha db observation) observed
      refine ⟨(LotStep.keep_or_changes _).resolve_left ?_, by rw [hnx]; rfl⟩
      -- a kept lot would be observed as it was re-hydrated
      rintro ⟨kept, hkp⟩
      rw [hkp] at hprev hnx
      cases hprev
      cases hnx
      rw [hcon] at hret
      exact h.storable.rehydrated observed hobs _ hret hcon
    · rw [departStep_previous] at hprev
      cases hprev
      rw [hment] at hno
      cases hno

theorem label (hst : step ∈ inventorySteps sha db observation) (hnx : step.next = some lot) :
    labelColumnAccepts lot.lot.labelKey = true := by
  rcases mem_plannedSteps.mp hst with ⟨seen, hsn, rfl⟩ | ⟨prev, hpr, hno, rfl⟩
  · obtain ⟨cur, hcur, rfl⟩ := observeStep_next (priorLots sha db observation) seen
    cases hcur.symm.trans hnx
    exact h.storable.labels _ hsn
  · rw [departStep_label hnx]
    rcases h.previous_loaded hst (departStep_previous _ _) hpr with hld | ⟨hment, _⟩
    · obtain ⟨_, _, rev, hrev, _, rfl, _⟩ := loaded_row hld
      exact h.reached.constraints.labels rev hrev
    · rw [hment] at hno
      cases hno

/-! ### Writing -/

theorem stored_sequence_le {change : ChangeRow} (hch : change ∈ db.changes)
    (hsc : change.lot.scopeId = benefitScopeId sha observation.scope) :
    change.sequence ≤ row.lastChangeSequence :=
  h.reached.history.numbered change hch row h.row_mem (h.row_id.trans hsc.symm)

theorem stored_sequence_lt {change : ChangeRow} (hch : change ∈ db.changes) :
    change.sequence < 2 ^ 64 := by
  obtain ⟨other, hoth, hid⟩ :=
    scopeStored_iff.mp (h.reached.constraints.change_scope change hch)
  have hle := h.reached.history.numbered change hch other hoth hid
  have hl := h.lastChangeSequence_le hoth
  have hrange : maxChangesPerObservation * maxPublications < 2 ^ 64 := by decide
  omega

theorem loadActiveProfile :
    ∃ profile, loadActiveProfile db (benefitScopeId sha observation.scope) = .ok profile := by
  obtain ⟨_, hctd⟩ := h.reached.counted
  unfold Benefits.loadActiveProfile
  cases db.profiles.find? fun row =>
      row.key == .scope (benefitScopeId sha observation.scope) with
  | some override => exact ⟨override.profile, rfl⟩
  | none =>
    cases hgl : db.profiles.find? fun row => row.key == .global with
    | some row => exact ⟨row.profile, rfl⟩
    | none =>
      have hz : (db.profiles.countP fun row => row.key == .global) = 0 := by
        rw [countP_eq_zero]
        exact List.find?_eq_none.mp hgl
      rw [hctd.globalProfile] at hz
      cases hz

section Written

variable {reconciliation : BenefitReconciliation} {change : BenefitChange}

variable (hrec : Reconciled sha (loadedState sha db observation row) observation
  (inventorySteps sha db observation) reconciliation)

include hrec

theorem plannedChanges_eq : plannedChanges sha db observation = reconciliation.changes := by
  have hl : lastSequence db (benefitScopeId sha observation.scope) = row.lastChangeSequence := by
    unfold lastSequence
    rw [h.reached.constraints.scopes.find?_eq h.row_mem h.row_id]
    rfl
  have hnum := hrec.numbered
  unfold plannedChanges
  rw [hl]
  simp only [loadedState] at hnum
  rw [newChanges, hnum]
  rfl

/-- The sequence numbers of the new changes are in range and after the stored ones. -/
theorem sequence_bounds (hch : change ∈ reconciliation.changes) :
    row.lastChangeSequence < change.sequence ∧ change.sequence < 2 ^ 64 := by
  have hnum := numberChanges_ok hrec.numbered
  have hlength := hrec.length_changes_le.trans
    (@length_plannedSteps_le (loadedState sha db observation row) observation h.storable.loaded)
  have hl := h.lastChangeSequence_le h.row_mem
  have haft : row.lastChangeSequence < change.sequence := hnum.after change hch
  have hupTo : change.sequence ≤ row.lastChangeSequence + reconciliation.changes.length :=
    hnum.upTo change hch
  have hrange : maxChangesPerObservation * maxPublications + maxChangesPerObservation < 2 ^ 64 := by
    decide
  exact ⟨haft, by omega⟩

/-- The input of a new change's identity is among the ones that do not collide. -/
theorem change_input_mem (hch : change ∈ reconciliation.changes) :
    benefitChangeIdInput (benefitScopeId sha observation.scope) change.sequence change.lotId
      change.lotRevision change.kind.code ∈ hashedInputs sha db observation := by
  simp only [hashedInputs, h.plannedChanges_eq hrec, mem_append]
  exact .inl (.inl (.inr (mem_map_of_mem hch)))

theorem insertable (hch : change ∈ reconciliation.changes) :
    Insertable db (benefitScopeId sha observation.scope) change := by
  obtain ⟨step, hst, hpd⟩ := hrec.change_step hch
  obtain ⟨hlotId, hrev, hbef, haft, _⟩ := LotStep.pending_eq hpd
  have hso : step.pending.isSome = true := by rw [hpd]; rfl
  have hgrowth := (stepsFrom_prior h.reached.constraints h.reached.history h.loadInventoryState
    hrec).growth step hst hso
  have hcon : ∀ after ∈ change.after, ∃ lot, step.next = some lot ∧ lot.lot = after := by
    intro content hmem
    rw [haft] at hmem
    exact Option.map_eq_some_iff.mp hmem
  refine ⟨scopeStored_iff.mpr ⟨row, h.row_mem, h.row_id⟩, by omega, ?_, ?_, ?_, ?_, ?_, ?_, ?_⟩
  · intro content hmem
    obtain ⟨lot, hnx, rfl⟩ := hcon content hmem
    exact h.label hst hnx
  · intro rev hmem href
    have hle := h.reached.history.revision_le rev hmem
    rw [href, hlotId] at hle
    omega
  · intro content hmem
    obtain ⟨lot, hnx, rfl⟩ := hcon content hmem
    rw [LotStep.next_lotId hnx, hlotId]
  · intro hchd
    rw [hbef, Option.isSome_map] at hchd
    obtain ⟨lot, hprev⟩ := Option.isSome_iff_exists.mp hchd
    have hid : lot.lot.lotId = change.lotId := (LotStep.previous_lotId hprev).trans hlotId.symm
    have hpos := lot.revision_pos
    have hsucc : step.revision = lot.revision + 1 := by
      rcases LotStep.previous_revision hprev with rfl | ⟨_, hsucc⟩
      · cases hso
      · exact hsucc
    refine ⟨by omega, ?_⟩
    rcases h.previous_loaded hst hprev (hrec.stepsOf.previous_mem step hst lot hprev) with
      hld | ⟨_, hret, _, hleaves⟩
    · obtain ⟨_, _, rev, hmem, hsc, rfl, _⟩ := loaded_row hld
      refine ⟨rev, hmem, ?_, fun _ => (hrev.trans hsucc).symm⟩
      rw [← hid, ← hsc]
      rfl
    · obtain ⟨_, _, _, _, _, rev, hmem, hlot, _⟩ := retiredLot?_some hret
      refine ⟨rev, hmem, hid ▸ hlot, ?_⟩
      intro hno
      rw [haft, Option.map_eq_none_iff] at hno
      rw [hno] at hleaves
      cases hleaves
  · intro hno
    rw [haft, Option.map_eq_none_iff] at hno
    rw [hbef, Option.isSome_map]
    exact (LotStep.next_none hno).2
  · intro stored hsto hsm
    have hbounds := h.sequence_bounds hrec hch
    rw [h.reached.limits.changeIds stored hsto,
      (numberChanges_ok hrec.numbered).ids change hch] at hsm
    have hin := h.storable.noCollision (by
      simp only [hashedInputs, Set.mem_ofPred_eq, mem_append]
      exact .inl (.inl (.inl (.inr (mem_map_of_mem hsto)))))
      (h.change_input_mem hrec hch) hsm
    obtain ⟨hsc, hseq⟩ :=
      benefitChangeIdInput_inj (h.stored_sequence_lt hsto) hbounds.2 hin
    have hle := h.stored_sequence_le hsto hsc
    omega
  · intro stored hsto hsc hsm
    have hbounds := h.sequence_bounds hrec hch
    have hle := h.stored_sequence_le hsto hsc
    omega

theorem independent : reconciliation.changes.Pairwise Independent := by
  have hnum := numberChanges_ok hrec.numbered
  have hkd := hrec.changes_keyed
  unfold Keyed List.Nodup at hkd
  rw [pairwise_map] at hkd
  refine (hkd.and hnum.ascending).imp_of_mem ?_
  rintro a b ha hb ⟨hlot, hseq⟩
  refine ⟨hlot, ?_, hseq.ne⟩
  intro hsm
  rw [hnum.ids a ha, hnum.ids b hb] at hsm
  have hin := h.storable.noCollision (h.change_input_mem hrec ha) (h.change_input_mem hrec hb) hsm
  have hequal := (benefitChangeIdInput_inj (h.sequence_bounds hrec ha).2
    (h.sequence_bounds hrec hb).2 hin).2
  omega

/-- Every lot of the new inventory has its revision row once the changes are written. -/
theorem revisions_stored (hlot : lot ∈ reconciliation.state.lots) :
    ∃ rev ∈ db.lotRevisions ++ reconciliation.changes.filterMap
        (revisionRow? (benefitScopeId sha observation.scope)),
      rev.scopeId = benefitScopeId sha observation.scope ∧ rev.toCurrent = lot := by
  obtain ⟨step, hst, hnx⟩ := mem_filterMap.mp (hrec.lots.mem_iff.mp hlot)
  rcases hrec.keep_or_change hst with ⟨kept, rfl⟩ | ⟨change, hch, hpd⟩
  · obtain rfl : kept = lot := Option.some.inj hnx
    rcases h.previous_loaded hst rfl (hrec.stepsOf.previous_mem _ hst kept rfl) with
      hld | ⟨_, _, hchd, _⟩
    · obtain ⟨_, _, rev, hrev, hsc, hcon, _⟩ := loaded_row hld
      exact ⟨rev, mem_append_left _ hrev, hsc, hcon⟩
    · cases hchd
  · refine ⟨⟨_, lot.revision, lot.lot, lot.revision_pos⟩, mem_append_right _
      (mem_filterMap.mpr ⟨change, hch, ?_⟩), rfl, rfl⟩
    rw [LotStep.revisionRow?_eq hpd, hnx]
    rfl

theorem rebuildDue {prof : ReminderProfile}
    (hprf : Benefits.loadActiveProfile db (benefitScopeId sha observation.scope) = .ok prof)
    (hsto : ∀ lot ∈ reconciliation.state.lots, next.revisionStored (currentRow (benefitScopeId
      sha observation.scope) lot).ref = true)
    (hdue : next.due = db.due.filter fun row => row.ref.lot.scopeId != benefitScopeId sha
      observation.scope) :
    ∃ rebuilt, rebuildDue sha next observation.scope (benefitScopeId sha observation.scope)
      reconciliation.state.lots prof = .ok rebuilt := by
  obtain ⟨sched, hsch⟩ :=
    @scheduleReminders_returns sha observation.scope _ prof hrec.lots_length_le
  obtain ⟨hkd, hof⟩ := keyed_scheduleReminders hrec.lots_keyed hsch
  have hpl := plannedReminders_eq hrec hprf hsch
  have hid : ∀ due ∈ sched, due.deliveryId = sha (reminderDeliveryIdInput
      (benefitScopeId sha observation.scope) due.lotId due.lotRevision due.leadTime
      due.channel) := by
    intro due hmem
    obtain ⟨lot, _, hdueOf⟩ := hof due hmem
    rw [hdueOf.deliveryId, hdueOf.lotId, hdueOf.lotRevision]
    rfl
  have hinsert : ∃ rebuilt, sched.foldlM (insertDue
      (benefitScopeId sha observation.scope) prof.revision) next = .ok rebuilt := by
    refine insertDues_returns ?_ (hkd.of_imp ?_)
    · intro due hmem
      obtain ⟨lot, hlot, hdueOf⟩ := hof due hmem
      refine ⟨hdueOf.before_expiry, hdueOf.expiry_pos, ?_, ?_⟩
      · rw [hdueOf.lotId, hdueOf.lotRevision]
        exact hsto lot hlot
      · -- a due row of another scope has another identity
        intro stored hrow hsm
        rw [hdue] at hrow
        obtain ⟨hrow, hoth⟩ := mem_filter.mp hrow
        rw [(h.reached.scheduled stored hrow).deliveryId, hid due hmem] at hsm
        have hin := h.storable.noCollision (by
          simp only [hashedInputs, Set.mem_ofPred_eq, mem_append]
          exact .inl (.inr (mem_map_of_mem hrow)))
          (reminder_input_mem (hpl ▸ hmem)) hsm
        have hsc := (reminderDeliveryIdInput_inj hin).1
        simp [hsc] at hoth
    · intro a ha b hb hsm
      rw [hid a ha, hid b hb] at hsm
      have hin := h.storable.noCollision (reminder_input_mem (hpl ▸ ha))
        (reminder_input_mem (hpl ▸ hb)) hsm
      obtain ⟨_, hlotId, hseco, hch⟩ := reminderDeliveryIdInput_inj hin
      exact congrArg₂ Prod.mk hlotId (congrArg₂ Prod.mk hseco hch)
  obtain ⟨rebuilt, hreb⟩ := hinsert
  exact ⟨rebuilt, bind_eq_ok.mpr ⟨sched, mapError_eq_ok.mpr hsch, hreb⟩⟩

theorem writeReconciliation :
    ∃ written, writeReconciliation sha db (benefitScopeId sha observation.scope)
      reconciliation observation = .ok written := by
  obtain ⟨db₁, h₁⟩ := @writeChanges_returns db (benefitScopeId sha observation.scope) _
    observation.observedAtMs (fun change hch => h.insertable hrec hch) (h.independent hrec)
  obtain ⟨rows, _, hdb₁⟩ := writeChanges_ok h₁
  have hrevs : ∀ lot ∈ reconciliation.state.lots, db₁.revisionStored
      (currentRow (benefitScopeId sha observation.scope) lot).ref = true := by
    intro lot hlot
    obtain ⟨rev, hrev, hsc, rfl⟩ := h.revisions_stored hrec hlot
    rw [hdb₁]
    refine revisionStored_iff.mpr ⟨rev, hrev, ?_⟩
    rw [← hsc]
    rfl
  obtain ⟨db₂, h₂⟩ := @insertCurrentLots_returns
    ((db₁.deleteDue (benefitScopeId sha observation.scope)).deleteCurrent
      (benefitScopeId sha observation.scope)) (benefitScopeId sha observation.scope)
    reconciliation.state.lots hrevs hrec.lots_keyed (by
      intro row hrow
      simpa using (mem_filter.mp hrow).2)
  have hdb₂ := insertCurrentLots_ok h₂
  have hscs : db₂.scopes = db.scopes := by
    rw [hdb₂, hdb₁]
    rfl
  obtain ⟨db₃, h₃⟩ : ∃ db₃, updateScope db₂ (benefitScopeId sha observation.scope)
      reconciliation.state observation = .ok db₃ := by
    refine ⟨_, bind_eq_ok.mpr ⟨(), ?_, rfl⟩⟩
    rw [ensure_eq_ok, scopeStored_iff, hscs]
    exact ⟨row, h.row_mem, h.row_id⟩
  have hdb₃ := updateScope_ok h₃
  obtain ⟨profile, hprf⟩ := h.loadActiveProfile
  obtain ⟨written, hwrt⟩ := @rebuildDue sha db db₃ observation row h reconciliation hrec
    profile hprf (by
      intro lot hlot
      rw [hdb₃, hdb₂]
      exact hrevs lot hlot) (by
      rw [hdb₃, hdb₂, hdb₁]
      rfl)
  have hsm : Benefits.loadActiveProfile db₃ (benefitScopeId sha observation.scope) =
      .ok profile := by
    rw [← hprf, hdb₃, hdb₂, hdb₁]
    rfl
  exact ⟨written, bind_eq_ok.mpr ⟨db₁, h₁, bind_eq_ok.mpr ⟨db₂, h₂,
    bind_eq_ok.mpr ⟨db₃, h₃, bind_eq_ok.mpr ⟨profile, hsm, hwrt⟩⟩⟩⟩⟩

theorem publishObservation
    (hw : Written sha db (benefitScopeId sha observation.scope) reconciliation observation next) :
    ∃ published, publishObservation next db.state (benefitScopeId sha observation.scope)
      (priorLots sha db observation).length
      (db.countDue (benefitScopeId sha observation.scope)) reconciliation observation =
        .ok published := by
  obtain ⟨_, hctd⟩ := h.reached.counted
  have hpubl := h.storable.publications
  have hlimits := h.reached.limits
  have hls : reconciliation.state.lots.length = (nextLots sha db observation).length :=
    hrec.lots.length_eq
  have hchs := hrec.length_changes_le.trans
    (@length_plannedSteps_le (loadedState sha db observation row) observation h.storable.loaded)
  obtain ⟨added, _, hdue, hadd⟩ := hw.due
  have haddL := hadd.length_le
  have hctD := hadd.countDue_eq hdue
  have hold : db.countDue (benefitScopeId sha observation.scope) ≤ db.due.length :=
    countP_le_length
  have hrev : nextInventoryRevision db.state.revision = .ok (db.state.revision + 1) := by
    refine if_pos ?_
    have hrange : maxPublications ≤ i64Max := by decide
    omega
  have hcurL : checkedReplaceCount db.state.currentLotCount
      (priorLots sha db observation).length reconciliation.state.lots.length =
        .ok (db.state.currentLotCount + reconciliation.state.lots.length -
          (priorLots sha db observation).length) := by
    have hbd := hlimits.currentLots.trans (Nat.mul_le_mul_left _ hpubl.le)
    have hcapa := hrec.lots_length_le
    have hrange : maxBenefitLotsPerObservation * maxPublications + maxBenefitLotsPerObservation ≤
        i64Max := by decide
    have hcoun := h.storable.counter
    exact if_pos ⟨by omega, by omega⟩
  have hdueC : checkedReplaceCount db.state.pendingDueCount
      (db.countDue (benefitScopeId sha observation.scope))
      (next.countDue (benefitScopeId sha observation.scope)) =
        .ok (db.state.pendingDueCount + next.countDue (benefitScopeId sha observation.scope) -
          db.countDue (benefitScopeId sha observation.scope)) := by
    have hbd := hlimits.due.trans (Nat.mul_le_mul_left _ hpubl.le)
    have hrange : maxDueGrowth * maxPublications + maxScheduledReminders ≤ i64Max := by decide
    rw [hctd.due, hctD]
    exact if_pos ⟨by omega, by omega⟩
  have hchC : addChangeCount db.state.retainedChangeCount reconciliation.changes.length =
      .ok (db.state.retainedChangeCount + reconciliation.changes.length) := by
    have hbd := hlimits.changes.trans (Nat.mul_le_mul_left _ hpubl.le)
    have hrange : maxChangesPerObservation * maxPublications + maxChangesPerObservation ≤ i64Max := by
      decide
    exact if_pos (by omega)
  refine ⟨_, bind_eq_ok.mpr ⟨_, hrev, bind_eq_ok.mpr ⟨_, hcurL,
    bind_eq_ok.mpr ⟨_, hdueC, bind_eq_ok.mpr ⟨_, hchC,
    bind_eq_ok.mpr ⟨_, bind_eq_ok.mpr ⟨(), ?_, rfl⟩, rfl⟩⟩⟩⟩⟩⟩
  rw [ensure_eq_ok]
  simpa using observation.observed_pos

end Written

/-- Nothing changes: every lot of the plan is a current one. -/
theorem unchanged_current (hno : newChanges sha db observation = [])
    (hlot : lot ∈ nextLots sha db observation) :
    lot ∈ loadCurrentLots db (benefitScopeId sha observation.scope) := by
  obtain ⟨step, hst, hnx⟩ := mem_filterMap.mp hlot
  have hpd : step.pending = none := filterMap_eq_nil_iff.mp hno step hst
  obtain ⟨kept, rfl⟩ := LotStep.pending_none hpd
  obtain rfl : kept = lot := Option.some.inj hnx
  have hkd : Keyed (fun lot => lot.lot.lotId) (priorLots sha db observation) :=
    (loadInventoryState_lots h.loadInventoryState).1
  rcases h.previous_loaded hst rfl ((stepsOf_planned hkd).previous_mem _ hst kept rfl) with
    hld | ⟨_, _, hchd, _⟩
  · exact hld
  · cases hchd

/-- An admitted observation is applied. -/
theorem applied :
    ∃ reconciliation next res,
      Benefits.reconcileInventory sha (loadedState sha db observation row) observation =
        .ok reconciliation ∧
      commitReconciliation sha db db.state (benefitScopeId sha observation.scope)
        (loadedState sha db observation row) observation reconciliation = .ok (next, res) ∧
      ∀ lot ∈ nextLots sha db observation,
        currentRow (benefitScopeId sha observation.scope) lot ∈ next.current ∧
        ∃ rev ∈ next.lotRevisions,
          rev.scopeId = benefitScopeId sha observation.scope ∧ rev.toCurrent = lot := by
  obtain ⟨reconciliation, hreco⟩ := h.reconcileInventory
  obtain ⟨hkd, _⟩ := loadInventoryState_lots h.loadInventoryState
  refine ⟨reconciliation, ?_⟩
  unfold commitReconciliation
  rcases reconcileInventory_ok hkd hreco with ⟨hnoth, _⟩ | ⟨hsta, hrec⟩
  · rcases hnoth with ⟨hsta, hno⟩ | ⟨_, hstl⟩
    · rw [hsta]
      refine ⟨db, _, hreco, rfl, ?_⟩
      intro lot hlot
      have hld := h.unchanged_current hno hlot
      obtain ⟨_, _, rev, hrev, hsc, hcon, _⟩ := loaded_row hld
      exact ⟨currentRow_loaded h.reached.constraints h.reached.history hld, rev, hrev, hsc, hcon⟩
    · -- the observation is not older than the last one
      obtain ⟨observedAtMs, hl, hlt⟩ := (Option.any_eq_true ..).mp hstl
      obtain ⟨last, hmem, rfl⟩ := Option.map_eq_some_iff.mp hl
      have hle := h.storable.notStale row h.row_mem h.row_id last hmem
      exact absurd (of_decide_eq_true hlt) (not_lt.mpr hle)
  · obtain ⟨written, hwrt⟩ := h.writeReconciliation hrec
    have hw := writeReconciliation_ok hwrt
    obtain ⟨⟨next, res⟩, hpub⟩ := h.publishObservation hrec hw
    have hhist : db.countChanges (benefitScopeId sha observation.scope) +
        reconciliation.changes.length ≤ maxBenefitChangesPerScope := by
      rw [← length_map (·.toPendingChange), (numberChanges_ok hrec.numbered).pending]
      exact h.storable.history
    obtain ⟨_, _, _, hnx⟩ := publishObservation_ok hpub
    refine ⟨next, res, hreco, ?_, ?_⟩
    · rcases hsta with hsta | hsta
      all_goals
        rw [hsta]
        simp only
        rw [if_neg (not_lt.mpr hhist)]
        exact bind_eq_ok.mpr ⟨written, hwrt, hpub⟩
    · intro lot hlot
      have hmem : lot ∈ reconciliation.state.lots := hrec.lots.mem_iff.mpr hlot
      rw [hnx]
      refine ⟨?_, ?_⟩
      · show currentRow _ lot ∈ written.current
        rw [hw.current]
        exact mem_append_right _ (mem_map_of_mem hmem)
      · show ∃ rev ∈ written.lotRevisions, _
        rw [hw.lotRevisions]
        exact h.revisions_stored hrec hmem

end Admitted

/-- In every store that a run from the empty one reaches, an observation that is `Storable` is applied,
and every current lot then refers to a stored revision with exactly that lot's content. -/
theorem observation_storable (sha256 : Bytes → Bytes32) (calls : List BenefitCall)
    (observation : BenefitInventoryObservation)
    (hs : Storable sha256 (runBenefit sha256 .empty calls).1 observation) :
    ∃ next result,
      applyBenefitObservation sha256 (runBenefit sha256 .empty calls).1 observation =
        .ok (next, result) ∧
      (∀ row ∈ next.current, ∃ revision ∈ next.lotRevisions,
        row = currentRow revision.scopeId revision.toCurrent) ∧
      (∀ lot ∈ nextLots sha256 (runBenefit sha256 .empty calls).1 observation,
        currentRow (benefitScopeId sha256 observation.scope) lot ∈ next.current ∧
        ∃ revision ∈ next.lotRevisions,
          revision.scopeId = benefitScopeId sha256 observation.scope ∧ revision.toCurrent = lot) ∧
      ∀ lot ∈ observation.lots, ∃ current ∈
        nextLots sha256 (runBenefit sha256 .empty calls).1 observation, current.lot = lot := by
  have hrea := reached_run sha256 calls
  generalize (runBenefit sha256 .empty calls).1 = db at hs hrea ⊢
  obtain ⟨ensured, hens, row, hrow, hid, hsc⟩ := ensureScope_returns hrea hs
  have hadm : Admitted sha256 ensured observation row :=
    ⟨hrea.ensureScope hens, hs.ensureScope hens, hrow, hid, hsc⟩
  obtain ⟨reconciliation, next, result, hreco, hcm, hls⟩ := hadm.applied
  obtain ⟨hsta, hpl⟩ : ensured.state = db.state ∧
      nextLots sha256 ensured observation = nextLots sha256 db observation := by
    rw [ensureScope_frame hens]
    exact ⟨rfl, rfl⟩
  have hgl : loadGlobalState db = .ok db.state := by
    obtain ⟨_, hctd⟩ := hrea.counted
    refine bind_eq_ok.mpr ⟨(), ?_, rfl⟩
    have hpub := hctd.published
    rw [← Option.isNone_iff_eq_none] at hpub
    rw [ensure_eq_ok, beq_iff_eq, Bool.eq_iff_iff, beq_iff_eq]
    exact hpub
  have hap : applyBenefitObservation sha256 db observation = .ok (next, result) := by
    refine bind_eq_ok.mpr ⟨_, hgl, bind_eq_ok.mpr ⟨ensured, hens,
      bind_eq_ok.mpr ⟨_, hadm.loadInventoryState, bind_eq_ok.mpr
        ⟨reconciliation, mapError_eq_ok.mpr hreco, ?_⟩⟩⟩⟩
    rw [← hsta]
    exact hcm
  refine ⟨next, result, hap, ?_, hpl ▸ hls, ?_⟩
  · exact (hrea.history.applyBenefitObservation hrea.constraints hap).content
  · intro lot hlot
    obtain ⟨current, hcur, hcon⟩ := observeStep_next (priorLots sha256 db observation) lot
    refine ⟨current, mem_filterMap.mpr ⟨_, mem_append_left _ (mem_map_of_mem ?_), hcur⟩, hcon⟩
    exact (perm_sortObserved _).mem_iff.mpr hlot

/-- The retired lot is observed again, with other content than the re-hydrated one. -/
def exampleReturn : BenefitInventoryObservation := exampleObservation 4 3 (some (exampleLot .available))

set_option maxRecDepth 20000 in
/-- The scope of the observation is stored already, so its input is hashed twice. -/
theorem exampleReturn_storable :
    Storable polynomialDigest (runBenefit polynomialDigest .empty exampleHistory).1
      exampleReturn where
  notStale := by decide +kernel
  identity := by decide +kernel
  capacity := by decide +kernel
  history := by decide +kernel
  loaded := by decide +kernel
  rehydrated := by decide +kernel
  labels := by decide +kernel
  counter := by decide +kernel
  publications := by decide +kernel
  noCollision := by
    unfold Set.InjOn
    simp only [Set.mem_ofPred_eq]
    decide +kernel

set_option maxRecDepth 20000 in
theorem observation_storable_example :
    (priorLots polynomialDigest (runBenefit polynomialDigest .empty exampleHistory).1
      exampleReturn).map (·.lot.state) = [.ambiguous] ∧
    ∃ next result, applyBenefitObservation polynomialDigest
        (runBenefit polynomialDigest .empty exampleHistory).1 exampleReturn = .ok (next, result) ∧
      ∃ row ∈ next.current, row.state = .available := by
  refine ⟨by decide +kernel, ?_⟩
  obtain ⟨next, result, hap, _, hls, hobs⟩ :=
    observation_storable polynomialDigest exampleHistory exampleReturn exampleReturn_storable
  obtain ⟨cur, hcur, hlot⟩ := hobs (exampleLot .available) (by decide)
  refine ⟨next, result, hap, _, (hls cur hcur).1, ?_⟩
  show cur.lot.state = .available
  rw [hlot]
  rfl

set_option maxRecDepth 20000 in
/-- Two observations of one lot that are not applied.  The first one repeats the identity of the last
observation with other content.  The second one is the re-hydrated lot itself, which has no revision
row, so that its current row breaks a foreign key. -/
theorem observation_refused :
    (∀ row ∈ (runBenefit polynomialDigest .empty (exampleHistory.take 1)).1.scopes,
      ∀ last ∈ row.observation, last.observedAtMs ≤ 2) ∧
    (nextLots polynomialDigest (runBenefit polynomialDigest .empty (exampleHistory.take 1)).1
      (exampleObservation 1 1 (some (exampleLot .activated)))).length = 1 ∧
    applyBenefitObservation polynomialDigest
      (runBenefit polynomialDigest .empty (exampleHistory.take 1)).1
      (exampleObservation 1 1 (some (exampleLot .activated))) = .error (.new .invalidValue) ∧
    (∀ row ∈ (runBenefit polynomialDigest .empty exampleHistory).1.scopes,
      ∀ last ∈ row.observation, last.observedAtMs ≤ 4) ∧
    (nextLots polynomialDigest (runBenefit polynomialDigest .empty exampleHistory).1
      (exampleObservation 4 3 (some (exampleLot .ambiguous)))).length = 1 ∧
    applyBenefitObservation polynomialDigest (runBenefit polynomialDigest .empty exampleHistory).1
      (exampleObservation 4 3 (some (exampleLot .ambiguous))) = .error (.new .database) := by
  decide +kernel

end TokenMaster.Benefits
