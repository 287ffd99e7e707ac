import TokenMaster.Benefits.LotSteps
import TokenMaster.Benefits.Reminder

/-!
# TokenMaster.Benefits.EventLog — the changes of a reconciliation are an event log

A change says which lot it is about, at which revision, and what the lot is afterwards.  `replay`
applies changes to an inventory and knows nothing else.  The changes of a reconciliation lead from the
old inventory to the new one (`EventLog`), with one change for each lot whose content differs.

Both inventories are strictly ascending by lot id, so each is known by its members
(`ascending_ext`), and every lot is decided by its one `LotStep`.
-/

namespace TokenMaster.Benefits

open Domain LotStep List
open Store (i64Max)

variable {sha : Bytes → Bytes32} {state : BenefitInventoryState} {change : PendingChange}
  {chs : List BenefitChange} {lotId : BenefitLotId}

/-! ### Inventories -/

def BenefitInventoryState.empty (sha256 : Bytes → Bytes32) (scope : BenefitScope) :
    BenefitInventoryState := ⟨scope, benefitScopeId sha256 scope, 0, 0, none, none, []⟩

/-- The inventories that the constructors build and that reconciliations lead to. -/
inductive ReachableInventory (sha256 : Bytes → Bytes32) : BenefitInventoryState → Prop
  | empty (scope : BenefitScope) : ReachableInventory sha256 (.empty sha256 scope)
  | fromParts {scope : BenefitScope} {revision lastChangeSequence : ℕ}
      {lastObservationId : Option BenefitObservationId} {lastObservedAtMs : Option ℤ}
      {lots : List BenefitCurrentLot} {state : BenefitInventoryState}
      (h : BenefitInventoryState.fromParts sha256 scope revision lastChangeSequence
        lastObservationId lastObservedAtMs lots = .ok state) : ReachableInventory sha256 state
  | reconcile {current : BenefitInventoryState} {observation : BenefitInventoryObservation}
      {reconciliation : BenefitReconciliation} (hcurrent : ReachableInventory sha256 current)
      (h : reconcileInventory sha256 current observation = .ok reconciliation) :
      ReachableInventory sha256 reconciliation.state

/-- Strictly ascending by lot id. -/
def Ascending (lots : List BenefitCurrentLot) : Prop :=
  lots.Pairwise fun a b => a.lot.lotId.asBytes < b.lot.lotId.asBytes

theorem Ascending.keyed {lots : List BenefitCurrentLot} (h : Ascending lots) :
    Keyed (fun lot => lot.lot.lotId) lots := by
  unfold Keyed List.Nodup
  rw [pairwise_map]
  refine h.imp fun hlt heq => ?_
  rw [heq] at hlt
  exact List.lt_irrefl _ hlt

theorem ascending_sortByLotId {lots : List BenefitCurrentLot}
    (h : Keyed (fun lot => lot.lot.lotId) lots) : Ascending (sortByLotId lots) := by
  have hso : (sortByLotId lots).Pairwise fun a b =>
      a.lot.lotId.asBytes ≤ b.lot.lotId.asBytes := by
    exact pairwise_insertionSort _ lots
  have hkd : Keyed (fun lot => lot.lot.lotId) (sortByLotId lots) :=
    ((perm_insertionSort _ lots).map _).nodup_iff.mpr h
  unfold Keyed List.Nodup at hkd
  rw [pairwise_map] at hkd
  refine hso.imp₂ (fun a b hle hne => ?_) hkd
  by_contra hnot
  exact hne (Bytes32.asBytes_injective (List.le_antisymm hle hnot))

/-- Ascending inventories with the same lots are equal. -/
theorem ascending_ext {a b : List BenefitCurrentLot} (ha : Ascending a) (hb : Ascending b)
    (h : ∀ lot, lot ∈ a ↔ lot ∈ b) : a = b := by
  have hp : a.Perm b := (perm_ext_iff_of_nodup (List.Nodup.of_map _ ha.keyed)
    (List.Nodup.of_map _ hb.keyed)).mpr h
  refine hp.eq_of_pairwise ?_ ha hb
  intro x y _ _ hxy hyx
  exact absurd hyx (List.lt_asymm hxy)

/-- What a reachable inventory satisfies. -/
structure InventorySound (state : BenefitInventoryState) : Prop where
  ascending : Ascending state.lots
  length_le : state.lots.length ≤ maxBenefitLotsPerObservation

theorem inventorySound_fromParts {scope : BenefitScope} {rev lastChangeSequence : ℕ}
    {lastObservationId : Option BenefitObservationId} {lastObservedAtMs : Option ℤ}
    {lots : List BenefitCurrentLot}
    (h : BenefitInventoryState.fromParts sha scope rev lastChangeSequence lastObservationId
      lastObservedAtMs lots = .ok state) : InventorySound state := by
  unfold BenefitInventoryState.fromParts at h
  split_ifs at h with hlength htime hnd
  cases h
  refine ⟨ascending_sortByLotId hnd, ?_⟩
  simp only [sortByLotId, length_insertionSort]
  omega

theorem InventorySound.reconcile {cur : BenefitInventoryState}
    {obs : BenefitInventoryObservation} {reconciliation : BenefitReconciliation}
    (hcur : InventorySound cur)
    (h : reconcileInventory sha cur obs = .ok reconciliation) :
    InventorySound reconciliation.state := by
  rcases reconcileInventory_ok hcur.ascending.keyed h with ⟨_, hsta, _⟩ | ⟨_, hrec⟩
  · rw [hsta]
    exact hcur
  · refine ⟨?_, hrec.lots_length_le⟩
    rw [hrec.lots_eq]
    exact ascending_sortByLotId (hrec.stepsOf.keyed.filterMap fun step lot h => next_lotId h)

theorem ReachableInventory.sound (h : ReachableInventory sha state) : InventorySound state := by
  induction h with
  | empty scope => exact ⟨.nil, Nat.zero_le _⟩
  | fromParts h => exact inventorySound_fromParts h
  | reconcile _ h ih => exact ih.reconcile h

/-! ### Replay -/

/-- The inventory after a change: the lot of the change is replaced, or removed if it has no content
afterwards. -/
def applyChange (lots : List BenefitCurrentLot) (change : PendingChange) : List BenefitCurrentLot :=
  let rest := lots.filter fun lot => lot.lot.lotId != change.lotId
  match change.after with
  | none => rest
  | some after =>
    if h : 0 < change.lotRevision then sortByLotId (⟨after, change.lotRevision, h⟩ :: rest) else rest

def replay (lots : List BenefitCurrentLot) (changes : List BenefitChange) : List BenefitCurrentLot :=
  changes.foldl (fun lots change => applyChange lots change.toPendingChange) lots

/-- A change as a reconciliation makes it. -/
structure WellFormedChange (change : PendingChange) : Prop where
  revision_pos : 0 < change.lotRevision
  after_lotId : ∀ after, change.after = some after → after.lotId = change.lotId

section Replay

variable {lots : List BenefitCurrentLot} {lot : BenefitCurrentLot}

theorem mem_applyChange (hch : WellFormedChange change) :
    lot ∈ applyChange lots change ↔ lot ∈ lots ∧ lot.lot.lotId ≠ change.lotId ∨
      change.after = some lot.lot ∧ change.lotRevision = lot.revision := by
  unfold applyChange
  cases haft : change.after with
  | none => simp
  | some after =>
    simp only [dif_pos hch.revision_pos, sortByLotId, mem_insertionSort, mem_cons,
      mem_filter, bne_iff_ne, Option.some.injEq]
    constructor
    · rintro (rfl | hold)
      · exact .inr ⟨rfl, rfl⟩
      · exact .inl hold
    · rintro (hold | ⟨rfl, hrev⟩)
      · exact .inr hold
      · left
        cases lot
        cases hrev
        rfl

theorem Ascending.applyChange (h : Ascending lots) (hch : WellFormedChange change) :
    Ascending (applyChange lots change) := by
  have hrs : Ascending (lots.filter fun lot => lot.lot.lotId != change.lotId) :=
    List.Pairwise.filter _ h
  unfold Benefits.applyChange
  cases haft : change.after with
  | none => exact hrs
  | some after =>
    simp only [dif_pos hch.revision_pos]
    refine ascending_sortByLotId (nodup_cons.mpr ⟨?_, hrs.keyed⟩)
    intro hmem
    obtain ⟨other, hoth, hid⟩ := mem_map.mp hmem
    have hne := (mem_filter.mp hoth).2
    rw [bne_iff_ne] at hne
    exact hne (hid.trans (hch.after_lotId after haft))

theorem Ascending.replay (h : Ascending lots)
    (hchs : ∀ change ∈ chs, WellFormedChange change.toPendingChange) :
    Ascending (replay lots chs) := by
  induction chs generalizing lots with
  | nil => exact h
  | cons change chs ih =>
    obtain ⟨hf, hrs⟩ := forall_mem_cons.mp hchs
    exact ih (h.applyChange hf) hrs

/-- Changes of different lots do not touch each other's lots. -/
theorem mem_replay (hchs : ∀ change ∈ chs, WellFormedChange change.toPendingChange)
    (hkd : Keyed (fun change => change.lotId) chs) :
    lot ∈ replay lots chs ↔ lot ∈ lots ∧ (∀ change ∈ chs, lot.lot.lotId ≠ change.lotId) ∨
      ∃ change ∈ chs, change.after = some lot.lot ∧ change.lotRevision = lot.revision := by
  induction chs generalizing lots with
  | nil => simp [replay]
  | cons change chs ih =>
    obtain ⟨hf, hrs⟩ := forall_mem_cons.mp hchs
    obtain ⟨hfr, hkd'⟩ := nodup_cons.mp hkd
    -- the lot of the first change is that of no later one
    have hoth : change.after = some lot.lot → ∀ later ∈ chs, lot.lot.lotId ≠ later.lotId := by
      intro haft later hlat hid
      refine hfr (mem_map.mpr ⟨later, hlat, ?_⟩)
      rw [← hid, hf.after_lotId _ haft]
    show lot ∈ replay (applyChange lots change.toPendingChange) chs ↔ _
    rw [ih hrs hkd', mem_applyChange hf]
    simp only [forall_mem_cons, exists_mem_cons_iff]
    constructor
    · rintro (⟨⟨hmem, hne⟩ | hnew, hlat⟩ | hlat)
      · exact .inl ⟨hmem, hne, hlat⟩
      · exact .inr (.inl hnew)
      · exact .inr (.inr hlat)
    · rintro (⟨hmem, hne, hlat⟩ | hnew | hlat)
      · exact .inl ⟨.inl ⟨hmem, hne⟩, hlat⟩
      · exact .inl ⟨.inr hnew, hoth hnew.1⟩
      · exact .inr hlat

end Replay

/-! ### What a reconciliation does to one lot -/

/-- The lot with this id. -/
def lotAt (lots : List BenefitCurrentLot) (lotId : BenefitLotId) : Option BenefitCurrentLot :=
  lots.find? fun lot => lot.lot.lotId == lotId

def contentAt (lots : List BenefitCurrentLot) (lotId : BenefitLotId) :
    Option BenefitLotObservation := (lotAt lots lotId).map (·.lot)

/-- The revision of the lot with this id, 0 if there is none. -/
def revisionAt (lots : List BenefitCurrentLot) (lotId : BenefitLotId) : ℕ :=
  ((lotAt lots lotId).map (·.revision)).getD 0

theorem lotAt_eq_some_iff {lots : List BenefitCurrentLot}
    (h : Keyed (fun lot => lot.lot.lotId) lots) {lot : BenefitCurrentLot} :
    lotAt lots lotId = some lot ↔ lot ∈ lots ∧ lot.lot.lotId = lotId := by
  constructor
  · intro hf
    exact ⟨mem_of_find?_eq_some hf, by simpa using List.find?_some hf⟩
  · rintro ⟨hlot, hid⟩
    exact h.find?_eq hlot hid

theorem lotAt_self {lots : List BenefitCurrentLot} (h : Keyed (fun lot => lot.lot.lotId) lots)
    {lot : BenefitCurrentLot} (hlot : lot ∈ lots) : lotAt lots lot.lot.lotId = some lot :=
  (lotAt_eq_some_iff h).mpr ⟨hlot, rfl⟩

section Steps

variable {prior : List BenefitCurrentLot} {steps : List LotStep} {step : LotStep}

/-- The lots of the two inventories with the id of a step are those of the step. -/
theorem StepsOf.lotAt_previous (h : StepsOf prior steps)
    (hkd : Keyed (fun lot => lot.lot.lotId) prior) (hst : step ∈ steps) :
    lotAt prior step.lotId = step.previous := by
  refine Option.ext fun lot => ?_
  rw [lotAt_eq_some_iff hkd]
  constructor
  · rintro ⟨hlot, hid⟩
    obtain ⟨other, hoth, hprev⟩ := h.covers lot hlot
    have hsm : other = step :=
      h.keyed.eq_of_key hoth hst ((previous_lotId hprev).symm.trans hid)
    rw [← hsm]
    exact hprev
  · intro hprev
    exact ⟨h.previous_mem step hst lot hprev, previous_lotId hprev⟩

theorem StepsOf.lotAt_next (h : StepsOf prior steps) {lots : List BenefitCurrentLot}
    (hls : lots.Perm (steps.filterMap next))
    (hkd : Keyed (fun lot => lot.lot.lotId) lots) (hst : step ∈ steps) :
    lotAt lots step.lotId = step.next := by
  refine Option.ext fun lot => ?_
  rw [lotAt_eq_some_iff hkd, hls.mem_iff, mem_filterMap]
  constructor
  · rintro ⟨⟨other, hoth, hnx⟩, hid⟩
    have hsm : other = step := h.keyed.eq_of_key hoth hst ((next_lotId hnx).symm.trans hid)
    rw [← hsm]
    exact hnx
  · intro hnx
    exact ⟨⟨step, hst, hnx⟩, next_lotId hnx⟩

/-- A lot without a step is in neither inventory. -/
theorem StepsOf.lotAt_none (h : StepsOf prior steps) {lots : List BenefitCurrentLot}
    (hls : lots.Perm (steps.filterMap next)) (hno : ∀ step ∈ steps, step.lotId ≠ lotId) :
    lotAt prior lotId = none ∧ lotAt lots lotId = none := by
  constructor
  · refine List.find?_eq_none.mpr fun lot hlot hid => ?_
    obtain ⟨step, hst, hprev⟩ := h.covers lot hlot
    refine hno step hst ?_
    rw [← previous_lotId hprev]
    simpa using hid
  · refine List.find?_eq_none.mpr fun lot hlot hid => ?_
    obtain ⟨step, hst, hnx⟩ := mem_filterMap.mp (hls.mem_iff.mp hlot)
    refine hno step hst ?_
    rw [← next_lotId hnx]
    simpa using hid

end Steps

variable {step : LotStep}

theorem LotStep.revision_succ (h : step.pending = some change) :
    step.revision = (step.previous.map (·.revision)).getD 0 + 1 := by
  cases hprev : step.previous with
  | none => exact (previous_none hprev).2
  | some prev =>
    rcases previous_revision hprev with rfl | ⟨_, hrev⟩
    · cases h
    · exact hrev

variable {obs : BenefitInventoryObservation}

/-- A planned step with a change changes the content. -/
theorem planned_content {prior : List BenefitCurrentLot}
    (hst : step ∈ plannedSteps prior obs) (hch : step.pending = some change) :
    step.previous.map (·.lot) ≠ step.next.map (·.lot) := by
  rcases mem_plannedSteps.mp hst with ⟨lot, _, rfl⟩ | ⟨prev, _, _, rfl⟩
  · unfold observeStep at hch ⊢
    split
    · rintro ⟨⟩
    · rename_i prev hf
      split at hch
      · rename_i hno
        rw [hf] at hno
        cases hno
      · rename_i other hoth
        cases hf.symm.trans hoth
        split_ifs at hch ⊢ with hsm
        · cases hch
        · exact fun h => hsm (Option.some.inj h)
  · unfold departStep at hch ⊢
    split_ifs at hch ⊢ with hpart hter hambi
    · cases hch
    · rintro ⟨⟩
    · cases hch
    · intro h
      have hsta := congrArg BenefitLotObservation.state (Option.some.inj h)
      exact hambi hsta

/-- Only a non-partial observation retires a lot: a terminal one that it leaves out. -/
theorem planned_retires {prior : List BenefitCurrentLot}
    (hst : step ∈ plannedSteps prior obs) (hno : step.next = none)
    {lot : BenefitCurrentLot} (hprev : step.previous = some lot) :
    obs.completeness ≠ .partial_ ∧ obs.mentions lot.lot.lotId = false ∧
      isTerminal lot.lot.state = true := by
  rcases mem_plannedSteps.mp hst with ⟨seen, _, rfl⟩ | ⟨prev, _, hment, rfl⟩
  · obtain ⟨cur, hnx, _⟩ := observeStep_next prior seen
    rw [hnx] at hno
    cases hno
  · rw [departStep_previous] at hprev
    cases hprev
    have hreti := departStep_retires (obs.completeness != .partial_) lot
    rw [hno, Option.isNone_none, eq_comm, Bool.and_eq_true, bne_iff_ne] at hreti
    exact ⟨hreti.1, hment, hreti.2⟩

theorem numberChanges_sequences {sid : BenefitScopeId} {seq : ℕ}
    {pend : List PendingChange} (h : numberChanges sha sid seq pend = .ok chs)
    :
    chs.map (·.sequence) = List.range' (seq + 1) chs.length := by
  induction pend generalizing seq chs with
  | nil =>
    cases h
    rfl
  | cons change pend ih =>
    unfold numberChanges at h
    split_ifs at h
    obtain ⟨rest, hrs, h⟩ := Except.bind_eq_ok.mp h
    cases h
    rw [map_cons, ih hrs, length_cons, range'_succ]

/-! ### The event log -/

/-- The changes of a reconciliation as an event log between two inventories. -/
structure EventLog (current : BenefitInventoryState) (observation : BenefitInventoryObservation)
    (reconciliation : BenefitReconciliation) : Prop where
  replayed : replay current.lots reconciliation.changes = reconciliation.state.lots
  one_change : ∀ lotId,
    contentAt current.lots lotId ≠ contentAt reconciliation.state.lots lotId →
      ∃ change, (reconciliation.changes.filter fun change => change.lotId == lotId) = [change] ∧
        change.before = contentAt current.lots lotId ∧
        change.after = contentAt reconciliation.state.lots lotId ∧
        change.lotRevision = revisionAt current.lots lotId + 1
  no_change : ∀ lotId,
    contentAt current.lots lotId = contentAt reconciliation.state.lots lotId →
      (reconciliation.changes.filter fun change => change.lotId == lotId) = []
  sequences : reconciliation.changes.map (·.sequence) =
    List.range' (current.lastChangeSequence + 1) reconciliation.changes.length
  lastChangeSequence : reconciliation.state.lastChangeSequence =
    current.lastChangeSequence + reconciliation.changes.length
  revisions : ∀ lot ∈ reconciliation.state.lots, lot.revision =
    if contentAt current.lots lot.lot.lotId = some lot.lot then revisionAt current.lots lot.lot.lotId
    else revisionAt current.lots lot.lot.lotId + 1
  ascending : Ascending reconciliation.state.lots
  length_le : reconciliation.state.lots.length ≤ 64
  leaves : ∀ lot ∈ current.lots, lotAt reconciliation.state.lots lot.lot.lotId = none →
    observation.completeness ≠ .partial_ ∧ observation.mentions lot.lot.lotId = false ∧
      isTerminal lot.lot.state = true
  partial_keeps : observation.completeness = .partial_ →
    ∀ lot ∈ current.lots, ∃ kept ∈ reconciliation.state.lots, kept.lot.lotId = lot.lot.lotId

/-- An unchanged inventory. -/
theorem eventLog_same {cur : BenefitInventoryState} {reconciliation : BenefitReconciliation}
    (hsd : InventorySound cur) (hsta : reconciliation.state = cur)
    (hchs : reconciliation.changes = []) : EventLog cur obs reconciliation := by
  refine ⟨?_, ?_, ?_, ?_, ?_, ?_, ?_, ?_, ?_, ?_⟩
  · rw [hchs, hsta]
    rfl
  · intro lotId hne
    rw [hsta] at hne
    exact absurd rfl hne
  · intro lotId _
    rw [hchs]
    rfl
  · rw [hchs]
    rfl
  · rw [hchs, hsta]
    rfl
  · intro lot hlot
    rw [hsta] at hlot
    simp [contentAt, revisionAt, lotAt_self hsd.ascending.keyed hlot]
  · rw [hsta]
    exact hsd.ascending
  · rw [hsta]
    exact hsd.length_le
  · intro lot hlot hno
    rw [hsta, lotAt_self hsd.ascending.keyed hlot] at hno
    cases hno
  · intro _ lot hlot
    rw [hsta]
    exact ⟨lot, hlot, rfl⟩

section Reconciled

variable {cur : BenefitInventoryState} {obs : BenefitInventoryObservation}
  {reconciliation : BenefitReconciliation}

theorem Reconciled.wellFormed {steps : List LotStep}
    (hrec : Reconciled sha cur obs steps reconciliation) :
    ∀ change ∈ reconciliation.changes, WellFormedChange change.toPendingChange := by
  intro change hch
  obtain ⟨step, _, hpd⟩ := hrec.change_step hch
  have hdes := pending_eq hpd
  constructor
  · rw [hdes.lotRevision, revision_succ hpd]
    exact Nat.succ_pos _
  · intro after hso
    rw [hdes.after] at hso
    obtain ⟨next, hnx, rfl⟩ := Option.map_eq_some_iff.mp hso
    rw [next_lotId hnx, hdes.lotId]

/-- The changes lead from the old inventory to the new one. -/
theorem Reconciled.replayed {steps : List LotStep} (hsd : InventorySound cur)
    (hrec : Reconciled sha cur obs steps reconciliation) :
    replay cur.lots reconciliation.changes = reconciliation.state.lots := by
  have hnew : Ascending reconciliation.state.lots := by
    rw [hrec.lots_eq]
    exact ascending_sortByLotId (hrec.stepsOf.keyed.filterMap fun step lot h => next_lotId h)
  refine ascending_ext (hsd.ascending.replay hrec.wellFormed) hnew ?_
  intro lot
  rw [mem_replay hrec.wellFormed hrec.changes_keyed, hrec.lots.mem_iff, mem_filterMap]
  constructor
  · rintro (⟨hlot, hno⟩ | ⟨change, hch, haft, hrev⟩)
    · obtain ⟨step, hst, hprev⟩ := hrec.stepsOf.covers lot hlot
      refine ⟨step, hst, ?_⟩
      rcases hrec.keep_or_change hst with ⟨kept, rfl⟩ | ⟨change, hch, hpd⟩
      · exact hprev
      · refine absurd ?_ (hno change hch)
        rw [previous_lotId hprev, (pending_eq hpd).lotId]
    · obtain ⟨step, hst, hpd⟩ := hrec.change_step hch
      refine ⟨step, hst, ?_⟩
      rw [(pending_eq hpd).after] at haft
      obtain ⟨next, hnx, hlot⟩ := Option.map_eq_some_iff.mp haft
      have hsm : next.revision = lot.revision := by
        rw [next_revision hnx, ← (pending_eq hpd).lotRevision, hrev]
      rw [hnx]
      cases lot
      cases hlot
      cases hsm
      rfl
  · rintro ⟨step, hst, hnx⟩
    rcases hrec.keep_or_change hst with ⟨kept, rfl⟩ | ⟨change, hch, hpd⟩
    · cases hnx
      refine .inl ⟨hrec.stepsOf.previous_mem _ hst lot rfl, ?_⟩
      intro change hch hid
      obtain ⟨other, hoth, hchd⟩ := hrec.change_step hch
      have hsm : other = .keep lot := by
        refine hrec.stepsOf.keyed.eq_of_key hoth hst ?_
        rw [← (pending_eq hchd).lotId, ← hid]
        rfl
      rw [hsm] at hchd
      cases hchd
    · refine .inr ⟨change, hch, ?_, ?_⟩
      · rw [(pending_eq hpd).after, hnx]
        rfl
      · rw [(pending_eq hpd).lotRevision, next_revision hnx]

theorem filter_eq_singleton {α κ : Type} [DecidableEq κ] {key : α → κ} {rows : List α}
    (h : Keyed key rows) {row : α} (hrow : row ∈ rows) :
    (rows.filter fun other => key other == key row) = [row] := by
  induction rows with
  | nil => cases hrow
  | cons first rows ih =>
    obtain ⟨hfr, hrs⟩ := nodup_cons.mp h
    rcases mem_cons.mp hrow with rfl | hmem
    · rw [filter_cons_of_pos (by simp), filter_eq_nil_iff.mpr]
      intro other hoth hsm
      exact hfr (mem_map.mpr ⟨other, hoth, by simpa using hsm⟩)
    · have hne : key first ≠ key row := fun heq =>
        hfr (mem_map.mpr ⟨row, hmem, heq.symm⟩)
      rw [filter_cons_of_neg (by simpa using hne), ih hrs hmem]

theorem Reconciled.eventLog (hsd : InventorySound cur)
    (hrec : Reconciled sha cur obs (plannedSteps cur.lots obs)
      reconciliation) : EventLog cur obs reconciliation := by
  have hkd := hsd.ascending.keyed
  have hprev : ∀ step ∈ plannedSteps cur.lots obs,
      lotAt cur.lots step.lotId = step.previous := fun step hst =>
    hrec.stepsOf.lotAt_previous hkd hst
  have hnx : ∀ step ∈ plannedSteps cur.lots obs,
      lotAt reconciliation.state.lots step.lotId = step.next := fun step hst =>
    hrec.stepsOf.lotAt_next hrec.lots hrec.lots_keyed hst
  -- a lot that leaves has a retiring step
  have hleaves : ∀ lot ∈ cur.lots, lotAt reconciliation.state.lots lot.lot.lotId = none →
      obs.completeness ≠ .partial_ ∧ obs.mentions lot.lot.lotId = false ∧
        isTerminal lot.lot.state = true := by
    intro lot hlot hno
    obtain ⟨step, hst, hlotS⟩ := hrec.stepsOf.covers lot hlot
    rw [previous_lotId hlotS, hnx step hst] at hno
    exact planned_retires hst hno hlotS
  refine ⟨hrec.replayed hsd, ?_, ?_, numberChanges_sequences hrec.numbered,
    hrec.lastChangeSequence, ?_, ?_, hrec.lots_length_le, hleaves, ?_⟩
  · intro lotId hne
    by_cases hst : ∃ step ∈ plannedSteps cur.lots obs, step.lotId = lotId
    · obtain ⟨step, hst, rfl⟩ := hst
      rw [contentAt, contentAt, hprev step hst, hnx step hst] at hne
      rw [contentAt, contentAt, revisionAt, hprev step hst, hnx step hst]
      rcases hrec.keep_or_change hst with ⟨kept, rfl⟩ | ⟨change, hch, hpd⟩
      · exact absurd rfl hne
      · have hdes := pending_eq hpd
        refine ⟨change, ?_, hdes.before, hdes.after, ?_⟩
        · rw [← hdes.lotId]
          exact filter_eq_singleton hrec.changes_keyed hch
        · rw [hdes.lotRevision, revision_succ hpd]
    · push Not at hst
      obtain ⟨hold, hnew⟩ := hrec.stepsOf.lotAt_none hrec.lots hst
      rw [contentAt, contentAt, hold, hnew] at hne
      exact absurd rfl hne
  · intro lotId hsm
    rw [filter_eq_nil_iff]
    intro change hch hid
    obtain ⟨step, hst, hpd⟩ := hrec.change_step hch
    have hlotId : step.lotId = lotId := by
      rw [← (pending_eq hpd).lotId]
      simpa using hid
    rw [← hlotId, contentAt, contentAt, hprev step hst, hnx step hst] at hsm
    exact planned_content hst hpd hsm
  · intro lot hlot
    obtain ⟨step, hst, hlotS⟩ := mem_filterMap.mp (hrec.lots.mem_iff.mp hlot)
    rw [next_lotId hlotS, contentAt, revisionAt, hprev step hst]
    rcases hrec.keep_or_change hst with ⟨kept, rfl⟩ | ⟨change, _, hpd⟩
    · cases hlotS
      exact (if_pos rfl).symm
    · have hcon := planned_content hst hpd
      rw [hlotS, Option.map_some] at hcon
      rw [if_neg hcon, ← revision_succ hpd, next_revision hlotS]
  · rw [← hrec.replayed hsd]
    exact hsd.ascending.replay hrec.wellFormed
  · intro hpart lot hlot
    cases hf : lotAt reconciliation.state.lots lot.lot.lotId with
    | none => exact absurd hpart (hleaves lot hlot hf).1
    | some kept => exact ⟨kept, (lotAt_eq_some_iff hrec.lots_keyed).mp hf⟩

end Reconciled

/-- An observation with the identity of the last one is accepted only if it changes nothing. -/
theorem reconcileInventory_same_identity {cur : BenefitInventoryState}
    {obs : BenefitInventoryObservation} {reconciliation : BenefitReconciliation}
    (h : reconcileInventory sha cur obs = .ok reconciliation)
    (hiden : cur.lastObservationId = some obs.observationId) :
    reconciliation.state = cur ∧ reconciliation.changes = [] := by
  unfold reconcileInventory at h
  split_ifs at h with hsc hstl
  · cases h
    exact ⟨rfl, rfl⟩
  · obtain ⟨seen, _, h⟩ := Except.bind_eq_ok.mp h
    obtain ⟨gone, _, h⟩ := Except.bind_eq_ok.mp h
    unfold finishReconciliation at h
    split_ifs at h with hcapa hpd
    cases h
    exact ⟨rfl, rfl⟩

/-- **Inventory changes are an event log.**  On every reachable inventory an accepted observation
yields changes that replay to the new inventory; an outdated observation, one with the identity of
the last one, and every one that is called stale or duplicate leave the inventory as it was. -/
theorem reconciliation_event_log (sha256 : Bytes → Bytes32) (current : BenefitInventoryState)
    (observation : BenefitInventoryObservation) (reconciliation : BenefitReconciliation)
    (hcurrent : ReachableInventory sha256 current)
    (h : reconcileInventory sha256 current observation = .ok reconciliation) :
    EventLog current observation reconciliation ∧
      (current.lastObservedAtMs.any (observation.observedAtMs < ·) = true ∨
        current.lastObservationId = some observation.observationId ∨
        reconciliation.status = .stale ∨ reconciliation.status = .duplicate →
          reconciliation.state = current ∧ reconciliation.changes = []) := by
  have hsd := hcurrent.sound
  rcases reconcileInventory_ok hsd.ascending.keyed h with
    ⟨_, hsta, hchs⟩ | ⟨hpub, hrec⟩
  · exact ⟨eventLog_same hsd hsta hchs, fun _ => ⟨hsta, hchs⟩⟩
  · refine ⟨hrec.eventLog hsd, ?_⟩
    rintro (hlat | hiden | hstl | hdupl)
    · rw [reconcileInventory_stale h hlat]
      exact ⟨rfl, rfl⟩
    · exact reconcileInventory_same_identity h hiden
    · rw [hstl] at hpub
      rcases hpub with h | h <;> cases h
    · rw [hdupl] at hpub
      rcases hpub with h | h <;> cases h

/-- An empty inventory and an observation of one lot, which is awarded. -/
theorem reconciliation_event_log_award :
    ∃ reconciliation, reconcileInventory lastBytes (.empty lastBytes exampleScope)
        (exampleObservation 1 0 (some (exampleLot .available))) = .ok reconciliation ∧
      reconciliation.changes.length = 1 ∧
      replay [] reconciliation.changes = reconciliation.state.lots := by
  have hok : ∃ reconciliation, reconcileInventory lastBytes (.empty lastBytes exampleScope)
      (exampleObservation 1 0 (some (exampleLot .available))) = .ok reconciliation ∧
        reconciliation.changes.length = 1 := ⟨_, rfl, rfl⟩
  obtain ⟨reconciliation, hrec, hlen⟩ := hok
  exact ⟨reconciliation, hrec, hlen, (reconciliation_event_log lastBytes _ _ reconciliation
    (.empty exampleScope) hrec).1.replayed⟩

end TokenMaster.Benefits
