import TokenMaster.Benefits.LotSteps
import TokenMaster.Benefits.Reminder

/-!
# TokenMaster.Benefits.Reapply — the same observation again

On the inventory that a reconciliation leaves, every lot keeps under the same observation; so the
observation is a duplicate there.  The order of its lots does not matter.
-/

namespace TokenMaster.Benefits

open TokenMaster.Except List

open Domain

variable {sha256 : Bytes → Bytes32} {current : BenefitInventoryState}
  {observation observation' : BenefitInventoryObservation} {first : BenefitReconciliation}
  {lot : BenefitCurrentLot}

/-- The inventories that the source can hold. -/
inductive InventoryReached (sha256 : Bytes → Bytes32) : BenefitInventoryState → Prop
  | fromParts {scope revision sequence id time lots state}
      (h : BenefitInventoryState.fromParts sha256 scope revision sequence id time lots = .ok state) :
      InventoryReached sha256 state
  | reconcile {current observation result} (hc : InventoryReached sha256 current)
      (h : reconcileInventory sha256 current observation = .ok result) :
      InventoryReached sha256 result.state

theorem InventoryReached.keyed (h : InventoryReached sha256 current) :
    Keyed (fun lot => lot.lot.lotId) current.lots := by
  induction h with
  | fromParts h =>
    unfold BenefitInventoryState.fromParts at h
    split_ifs at h with h1 h2 h3
    cases h
    exact ((perm_insertionSort _ _).map _).nodup_iff.mpr h3
  | reconcile _ h ih =>
    rcases reconcileInventory_ok ih h with ⟨-, hst, -⟩ | ⟨-, hrec⟩
    · rw [hst]
      exact ih
    · exact hrec.lots_keyed

/-! ### Lots that keep -/

theorem observeLot_keep {prior : List BenefitCurrentLot}
    (hkd : Keyed (fun lot => lot.lot.lotId) prior) (hlot : lot ∈ prior) :
    observeLot prior lot.lot = .ok (lot, none) := by
  have hf := hkd.find?_eq hlot rfl
  simp only [observeLot, hf, if_pos]

/-- What a departure leaves does not depart again. -/
theorem departLot_keep {complete : Bool} {prev : BenefitCurrentLot}
    (h : (departStep complete prev).next = some lot) :
    departLot complete lot = .ok (some lot, none) := by
  unfold departStep at h
  unfold departLot
  split_ifs at h with h1 h2 h3
  · rw [if_pos h1]
  · cases h
  · cases h
    rw [if_neg h1, if_neg h2, if_pos h3]
  · cases h
    rw [if_neg h1]
    rfl

variable (hrec : Reconciled sha256 current observation
  (plannedSteps current.lots observation) first)

include hrec

/-- The inventory after an observation keeps under it. -/
theorem Reconciled.observe_again {lot : BenefitLotObservation} (hlot : lot ∈ observation.lots) :
    ∃ res, observeLot first.state.lots lot = .ok res ∧ res.1 ∈ first.state.lots ∧ res.2 = none := by
  obtain ⟨step, hst, kept, hnx, rfl⟩ := hrec.observed lot hlot
  have hmem := hrec.lots.mem_iff.mpr (mem_filterMap.mpr ⟨step, hst, hnx⟩)
  exact ⟨_, observeLot_keep hrec.lots_keyed hmem, hmem, rfl⟩

theorem Reconciled.depart_again (hlot : lot ∈ first.state.lots)
    (hment : observation.mentions lot.lot.lotId = false) :
    departLot (observation.completeness != .partial_) lot = .ok (some lot, none) := by
  obtain ⟨step, hst, hnx⟩ := mem_filterMap.mp (hrec.lots.mem_iff.mp hlot)
  rcases mem_plannedSteps.mp hst with ⟨seen, hseen, rfl⟩ | ⟨prev, -, -, rfl⟩
  · rw [LotStep.next_lotId hnx, observeStep_lotId,
      observation.mentions_iff.mpr ⟨seen, hseen, rfl⟩] at hment
    cases hment
  · exact departLot_keep hnx

theorem Reconciled.duplicate (hsc : first.state.scope = observation.scope)
    (hid : first.state.lastObservationId = some observation.observationId)
    (ht : first.state.lastObservedAtMs = some observation.observedAtMs) :
    reconcileInventory sha256 first.state observation = .ok ⟨.duplicate, first.state, []⟩ := by
  obtain ⟨obs, hobs, hobsK⟩ := mapM_returns_all fun lot hlot =>
    hrec.observe_again ((perm_sortObserved _).mem_iff.mp hlot)
  obtain ⟨dep, hdep, hdepK⟩ := @mapM_returns_all _ _ _
    (departLot (observation.completeness != .partial_))
    (first.state.lots.filter fun prev => !observation.mentions prev.lot.lotId)
    (fun res => (∃ lot ∈ first.state.lots, res.1 = some lot) ∧ res.2 = none) fun lot hlot =>
      ⟨_, hrec.depart_again (mem_of_mem_filter hlot) (by simpa using of_mem_filter hlot),
        ⟨lot, mem_of_mem_filter hlot, rfl⟩, rfl⟩
  have hpend : obs.filterMap (·.2) ++ dep.filterMap (·.2) = [] := by
    rw [append_eq_nil_iff, filterMap_eq_nil_iff, filterMap_eq_nil_iff]
    exact ⟨fun res h => (hobsK res h).2, fun res h => (hdepK res h).2⟩
  have hlen : (obs.map (·.1) ++ dep.filterMap (·.1)).length ≤ maxBenefitLotsPerObservation := by
    have hkd : Keyed (fun lot => lot.lot.lotId) (obs.map (·.1) ++ dep.filterMap (·.1)) := by
      rw [planned_next hobs hdep]
      exact (stepsOf_planned hrec.lots_keyed).keyed.filterMap fun _ _ h => LotStep.next_lotId h
    have hsub : obs.map (·.1) ++ dep.filterMap (·.1) ⊆ first.state.lots := by
      intro lot hlot
      rcases mem_append.mp hlot with h | h
      · obtain ⟨res, hres, rfl⟩ := mem_map.mp h
        exact (hobsK res hres).1
      · obtain ⟨res, hres, heq⟩ := mem_filterMap.mp h
        obtain ⟨lot', hmem, hlot'⟩ := (hdepK res hres).1
        cases hlot'.symm.trans heq
        exact hmem
    exact (subperm_of_subset hkd.of_map hsub).length_le.trans hrec.lots_length_le
  unfold reconcileInventory
  rw [if_neg (not_not.mpr hsc), if_neg (by simp [ht])]
  refine bind_eq_ok.mpr ⟨obs, hobs, bind_eq_ok.mpr ⟨dep, hdep, ?_⟩⟩
  unfold finishReconciliation
  rw [if_neg (not_lt.mpr hlen), if_pos hid, if_pos hpend]

omit hrec

/-- What is published carries the observation. -/
theorem reconcileInventory_stamp (h : reconcileInventory sha256 current observation = .ok first)
    (hst : first.status = .freshnessOnly ∨ first.status = .changed) :
    first.state.scope = observation.scope ∧
      first.state.lastObservationId = some observation.observationId ∧
      first.state.lastObservedAtMs = some observation.observedAtMs := by
  unfold reconcileInventory at h
  split_ifs at h with h1 h2
  · cases h
    simp at hst
  · obtain ⟨obs, -, h⟩ := bind_eq_ok.mp h
    obtain ⟨dep, -, h⟩ := bind_eq_ok.mp h
    unfold finishReconciliation at h
    split_ifs at h with h3 h4 h5 h6
    · cases h
      simp at hst
    · obtain ⟨chs, -, h⟩ := bind_eq_ok.mp h
      cases h
      exact ⟨not_not.mp h1, rfl, rfl⟩
    · obtain ⟨_, _, h⟩ := bind_eq_ok.mp h
      cases h

/-! ### The order of the lots -/

/-- The same observation with its lots in another order. -/
structure Reordered (observation observation' : BenefitInventoryObservation) : Prop where
  scope : observation'.scope = observation.scope
  observationId : observation'.observationId = observation.observationId
  observedAtMs : observation'.observedAtMs = observation.observedAtMs
  completeness : observation'.completeness = observation.completeness
  lots : observation'.lots.Perm observation.lots

theorem sorted_sortObserved (lots : List BenefitLotObservation) :
    (sortObserved lots).Pairwise fun a b => a.lotId.asBytes ≤ b.lotId.asBytes := by
  exact pairwise_insertionSort _ lots

theorem Reordered.sortObserved (h : Reordered observation observation') :
    sortObserved observation'.lots = sortObserved observation.lots := by
  have hp := ((perm_sortObserved _).trans h.lots).trans (perm_sortObserved _).symm
  refine hp.eq_of_pairwise (fun a b ha hb hab hba => ?_) (sorted_sortObserved _)
    (sorted_sortObserved _)
  exact inj_on_of_nodup_map observation.lots_nodup (h.lots.mem_iff.mp ((perm_sortObserved _).mem_iff.mp
    ha)) ((perm_sortObserved _).mem_iff.mp hb) (Bytes32.asBytes_injective (List.le_antisymm hab hba))

theorem Reordered.mentions (h : Reordered observation observation') :
    observation'.mentions = observation.mentions := by
  funext id
  rw [Bool.eq_iff_iff, observation'.mentions_iff, observation.mentions_iff]
  simp only [h.lots.mem_iff]

theorem Reordered.reconcileInventory (h : Reordered observation observation') :
    reconcileInventory sha256 current observation' =
      reconcileInventory sha256 current observation := by
  simp only [Benefits.reconcileInventory, finishReconciliation, h.scope, h.observedAtMs,
    h.observationId, h.completeness, h.sortObserved, h.mentions]

/-- A published observation is a duplicate the second time, a stale one stays stale, and neither
changes anything; the order of the lots is without effect. -/
theorem reconciliation_idempotent (hc : InventoryReached sha256 current) :
    (∀ first, reconcileInventory sha256 current observation = .ok first →
      reconcileInventory sha256 first.state observation =
        .ok ⟨if first.status = .stale then .stale else .duplicate, first.state, []⟩) ∧
    ∀ observation', Reordered observation observation' →
      reconcileInventory sha256 current observation' =
        reconcileInventory sha256 current observation := by
  refine ⟨fun first h => ?_, fun _ h => h.reconcileInventory⟩
  rcases reconcileInventory_ok hc.keyed h with ⟨hsta, hst, hchs⟩ | ⟨hsta, hrec⟩
  · obtain ⟨status, st, chs⟩ := first
    cases hst
    cases hchs
    rcases hsta with ⟨rfl, -⟩ | ⟨rfl, -⟩ <;> exact h
  · obtain ⟨hsc, hid, ht⟩ := reconcileInventory_stamp h hsta
    rw [hrec.duplicate hsc hid ht, if_neg (by rcases hsta with h | h <;> simp [h])]

def emptyInventory : BenefitInventoryState :=
  ⟨exampleScope, benefitScopeId lastBytes exampleScope, 0, 0, none, none, []⟩

theorem emptyInventory_reached : InventoryReached lastBytes emptyInventory :=
  @InventoryReached.fromParts _ exampleScope 0 0 none none [] _ rfl

theorem reconciliation_idempotent_award :
    InventoryReached lastBytes emptyInventory ∧ ∀ first,
      reconcileInventory lastBytes emptyInventory
        (exampleObservation 1 9 (some (exampleLot .available))) = .ok first →
      reconcileInventory lastBytes first.state
        (exampleObservation 1 9 (some (exampleLot .available))) =
        .ok ⟨if first.status = .stale then .stale else .duplicate, first.state, []⟩ :=
  ⟨emptyInventory_reached, (reconciliation_idempotent emptyInventory_reached).1⟩

/-- A stale observation is not a duplicate, however often it is applied. -/
theorem stale_observation_again :
    ∃ current, InventoryReached lastBytes current ∧
      reconcileInventory lastBytes current (exampleObservation 2 4 none) =
        .ok ⟨.stale, current, []⟩ :=
  ⟨_, @InventoryReached.reconcile _ _ (exampleObservation 1 9 none) _ emptyInventory_reached rfl, rfl⟩

end TokenMaster.Benefits
