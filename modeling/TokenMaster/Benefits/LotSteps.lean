import TokenMaster.Lib.Except
import TokenMaster.Lib.Keyed
import TokenMaster.Benefits.Reconcile

/-!
# TokenMaster.Benefits.LotSteps — what a reconciliation does to each lot

A reconciliation decides every lot on its own: a lot is awarded, kept, changed or retired (`LotStep`).
`reconcileInventory_ok` says that a reconciliation which publishes is one step for each prior or
observed lot, and that its inventory and its changes are those of the steps.
-/

namespace TokenMaster.Benefits

open TokenMaster.Except List

open Domain
open Store (i64Max)

variable {sha : Bytes → Bytes32}

/-! ### Steps -/

inductive LotStep where
  | award (lot : BenefitLotObservation)
  | keep (previous : BenefitCurrentLot)
  | change (previous : BenefitCurrentLot) (lot : BenefitLotObservation) (kind : BenefitChangeKind)
      (same : lot.lotId = previous.lot.lotId)
  | retire (previous : BenefitCurrentLot)

namespace LotStep

def lotId : LotStep → BenefitLotId
  | award lot => lot.lotId
  | keep previous => previous.lot.lotId
  | change previous _ _ _ => previous.lot.lotId
  | retire previous => previous.lot.lotId

/-- The lot in the prior inventory. -/
def previous : LotStep → Option BenefitCurrentLot
  | award _ => none
  | keep previous => some previous
  | change previous _ _ _ => some previous
  | retire previous => some previous

/-- The lot in the next inventory. -/
def next : LotStep → Option BenefitCurrentLot
  | award lot => some ⟨lot, 1, Nat.one_pos⟩
  | keep previous => some previous
  | change previous lot _ _ => some ⟨lot, previous.revision + 1, previous.succ_pos⟩
  | retire _ => none

def pending : LotStep → Option PendingChange
  | award lot => some ⟨lot.lotId, 1, .awarded, none, some lot⟩
  | keep _ => none
  | change previous lot kind _ =>
    some ⟨lot.lotId, previous.revision + 1, kind, some previous.lot, some lot⟩
  | retire previous =>
    some ⟨previous.lot.lotId, previous.revision + 1, .retiredTerminal, some previous.lot, none⟩

/-- The revision of the lot after the step. -/
def revision : LotStep → ℕ
  | award _ => 1
  | keep previous => previous.revision
  | change previous _ _ _ => previous.revision + 1
  | retire previous => previous.revision + 1

variable {step : LotStep} {current : BenefitCurrentLot}

theorem previous_lotId (h : step.previous = some current) : current.lot.lotId = step.lotId := by
  cases step with
  | award lot => cases h
  | keep previous | change previous lot kind same | retire previous =>
    cases h
    rfl

theorem next_lotId (h : step.next = some current) : current.lot.lotId = step.lotId := by
  cases step with
  | award lot | keep previous =>
    cases h
    rfl
  | change previous lot kind same =>
    cases h
    exact same
  | retire previous => cases h

theorem next_revision (h : step.next = some current) : current.revision = step.revision := by
  cases step with
  | award lot | keep previous | change previous lot kind same =>
    cases h
    rfl
  | retire previous => cases h

variable {change : PendingChange}

/-- The change says what the step does. -/
structure Describes (step : LotStep) (change : PendingChange) : Prop where
  lotId : change.lotId = step.lotId
  lotRevision : change.lotRevision = step.revision
  before : change.before = step.previous.map (·.lot)
  after : change.after = step.next.map (·.lot)
  retired : step.next = none → change.kind = .retiredTerminal

theorem pending_eq (h : step.pending = some change) : step.Describes change := by
  cases step with
  | award lot =>
    cases h
    exact ⟨rfl, rfl, rfl, rfl, nofun⟩
  | keep previous => cases h
  | change previous lot kind same =>
    cases h
    exact ⟨same, rfl, rfl, rfl, nofun⟩
  | retire previous =>
    cases h
    exact ⟨rfl, rfl, rfl, rfl, fun _ => rfl⟩

/-- A step without a change keeps the lot. -/
theorem keep_or_changes (step : LotStep) :
    (∃ current, step = .keep current) ∨ step.pending.isSome = true := by
  cases step with
  | award lot | change previous lot kind same | retire previous => exact .inr rfl
  | keep previous => exact .inl ⟨previous, rfl⟩

theorem pending_none (h : step.pending = none) : ∃ current, step = .keep current :=
  step.keep_or_changes.resolve_right (by simp [h])

/-- A change follows the revision that the lot had before. -/
theorem previous_revision (h : step.previous = some current) :
    step = .keep current ∨ step.pending.isSome = true ∧ step.revision = current.revision + 1 := by
  cases step with
  | award lot => cases h
  | keep previous =>
    cases h
    exact .inl rfl
  | change previous lot kind same | retire previous =>
    cases h
    exact .inr ⟨rfl, rfl⟩

theorem previous_none (h : step.previous = none) :
    step.pending.isSome = true ∧ step.revision = 1 := by
  cases step with
  | award lot => exact ⟨rfl, rfl⟩
  | keep previous | change previous lot kind same | retire previous => cases h

/-- Only a retirement leaves no lot, and it has a prior one. -/
theorem next_none (h : step.next = none) :
    step.pending.isSome = true ∧ step.previous.isSome = true := by
  cases step with
  | award lot | keep previous | change previous lot kind same => cases h
  | retire previous => exact ⟨rfl, rfl⟩

end LotStep

variable {lot : BenefitLotObservation}

theorem BenefitCurrentLot.succeed_ok {previous current : BenefitCurrentLot}
    (h : previous.succeed lot = .ok current) :
    current = ⟨lot, previous.revision + 1, Nat.succ_pos _⟩ := by
  unfold BenefitCurrentLot.succeed at h
  split_ifs at h
  cases h
  rfl

theorem BenefitCurrentLot.succeed_returns {previous : BenefitCurrentLot}
    (lot : BenefitLotObservation) (h : previous.revision + 1 ≤ i64Max) :
    previous.succeed lot = .ok ⟨lot, previous.revision + 1, Nat.succ_pos _⟩ :=
  if_pos h

/-- The step of an observed lot. -/
def observeStep (prior : List BenefitCurrentLot) (lot : BenefitLotObservation) : LotStep :=
  match hfind : prior.find? fun previous => previous.lot.lotId == lot.lotId with
  | none => .award lot
  | some previous =>
    if previous.lot = lot then .keep previous
    else .change previous lot (classifyChange previous.lot lot)
      (by rw [eq_comm]; simpa using List.find?_some hfind)

/-- The step of a prior lot that was not observed. -/
def departStep (complete : Bool) (previous : BenefitCurrentLot) : LotStep :=
  if !complete then .keep previous
  else if isTerminal previous.lot.state then .retire previous
  else if previous.lot.state = .ambiguous then .keep previous
  else .change previous (previous.lot.withState .ambiguous) .disappearedAmbiguous rfl

/-- What an observation does to the lots of an inventory. -/
def plannedSteps (prior : List BenefitCurrentLot) (observation : BenefitInventoryObservation) :
    List LotStep :=
  (sortObserved observation.lots).map (observeStep prior) ++
    (prior.filter fun previous => !observation.mentions previous.lot.lotId).map
      (departStep (observation.completeness != .partial_))

theorem observeStep_previous (prior : List BenefitCurrentLot) (lot : BenefitLotObservation) :
    (observeStep prior lot).previous =
      prior.find? fun previous => previous.lot.lotId == lot.lotId := by
  unfold observeStep
  split
  · rename_i hf
    rw [hf]
    rfl
  · rename_i previous hf
    refine Eq.trans ?_ hf.symm
    split_ifs <;> rfl

/-- The content of an observed lot is the observed one. -/
theorem observeStep_next (prior : List BenefitCurrentLot) (lot : BenefitLotObservation) :
    ∃ current, (observeStep prior lot).next = some current ∧ current.lot = lot := by
  unfold observeStep
  split
  · exact ⟨_, rfl, rfl⟩
  · split_ifs with hsm
    · exact ⟨_, rfl, hsm⟩
    · exact ⟨_, rfl, rfl⟩

@[simp] theorem observeStep_lotId (prior : List BenefitCurrentLot) (lot : BenefitLotObservation) :
    (observeStep prior lot).lotId = lot.lotId := by
  obtain ⟨current, hnx, hlot⟩ := observeStep_next prior lot
  rw [← LotStep.next_lotId hnx, hlot]

@[simp] theorem departStep_previous (complete : Bool) (previous : BenefitCurrentLot) :
    (departStep complete previous).previous = some previous := by
  unfold departStep
  split_ifs <;> rfl

variable {complete : Bool}

/-- A departure does not touch the label. -/
theorem departStep_label {previous lot : BenefitCurrentLot}
    (h : (departStep complete previous).next = some lot) :
    lot.lot.labelKey = previous.lot.labelKey := by
  unfold departStep at h
  split_ifs at h
  · cases h
    rfl
  · cases h
  · cases h
    rfl
  · cases h
    rfl

@[simp] theorem departStep_lotId (complete : Bool) (previous : BenefitCurrentLot) :
    (departStep complete previous).lotId = previous.lot.lotId :=
  (LotStep.previous_lotId (departStep_previous complete previous)).symm

/-- An unobserved lot leaves if the observation is not partial and the lot is terminal. -/
theorem departStep_retires (complete : Bool) (previous : BenefitCurrentLot) :
    (departStep complete previous).next.isNone = (complete && isTerminal previous.lot.state) := by
  unfold departStep
  cases complete with
  | false => rfl
  | true =>
    cases hter : isTerminal previous.lot.state with
    | true => rfl
    | false =>
      rw [if_neg (by decide), if_neg (by decide)]
      split_ifs <;> rfl

/-- An observed lot takes its step, if it returns. -/
theorem observeLot_ok {prior : List BenefitCurrentLot}
    {res : BenefitCurrentLot × Option PendingChange} (h : observeLot prior lot = .ok res) :
    ((observeStep prior lot).next, (observeStep prior lot).pending) = (some res.1, res.2) := by
  unfold observeLot at h
  unfold observeStep
  split
  · rename_i hf
    rw [hf] at h
    cases h
    rfl
  · rename_i previous hf
    rw [hf] at h
    simp only at h
    split_ifs at h ⊢ with hsm
    · cases h
      rfl
    · obtain ⟨current, hcur, h⟩ := bind_eq_ok.mp h
      cases BenefitCurrentLot.succeed_ok hcur
      cases h
      rfl

theorem departLot_ok {previous : BenefitCurrentLot}
    {result : Option BenefitCurrentLot × Option PendingChange}
    (h : departLot complete previous = .ok result) :
    ((departStep complete previous).next, (departStep complete previous).pending) = result := by
  unfold departLot at h
  unfold departStep
  split_ifs at h ⊢ with h1 h2 h3
  · cases h
    rfl
  · obtain ⟨retired, hret, h⟩ := bind_eq_ok.mp h
    cases BenefitCurrentLot.succeed_ok hret
    cases h
    rfl
  · cases h
    rfl
  · obtain ⟨current, hcur, h⟩ := bind_eq_ok.mp h
    cases BenefitCurrentLot.succeed_ok hcur
    cases h
    rfl

/-- A lot whose next revision is in range takes its step. -/
theorem observeLot_returns {prior : List BenefitCurrentLot}
    (h : ∀ previous ∈ prior, previous.revision + 1 ≤ i64Max) :
    ∃ result, observeLot prior lot = .ok result := by
  unfold observeLot
  cases hf : prior.find? fun previous => previous.lot.lotId == lot.lotId with
  | none => exact ⟨_, rfl⟩
  | some previous =>
    simp only
    split_ifs with hsm
    · exact ⟨_, rfl⟩
    · rw [previous.succeed_returns lot (h previous (mem_of_find?_eq_some hf))]
      exact ⟨_, rfl⟩

theorem departLot_returns {previous : BenefitCurrentLot} (h : previous.revision + 1 ≤ i64Max) :
    ∃ result, departLot complete previous = .ok result := by
  unfold departLot
  rw [previous.succeed_returns _ h, previous.succeed_returns _ h]
  split_ifs with h1 h2 h3
  · exact ⟨_, rfl⟩
  · exact ⟨_, rfl⟩
  · exact ⟨_, rfl⟩
  · exact ⟨_, rfl⟩

/-! ### Numbered changes -/

/-- The changes are the pending ones in order, with the sequence numbers after `sequence`. -/
structure Numbered (sha256 : Bytes → Bytes32) (scopeId : BenefitScopeId) (sequence : ℕ)
    (pending : List PendingChange) (changes : List BenefitChange) : Prop where
  ids : ∀ change ∈ changes, change.id = benefitChangeId sha256 scopeId change.sequence change.lotId
    change.lotRevision change.kind.code
  pending : changes.map (·.toPendingChange) = pending
  ascending : changes.Pairwise fun a b => a.sequence < b.sequence
  after : ∀ change ∈ changes, sequence < change.sequence
  upTo : ∀ change ∈ changes, change.sequence ≤ sequence + changes.length

theorem numberChanges_ok {sid : BenefitScopeId} {seq : ℕ} {pend : List PendingChange}
    {changes : List BenefitChange} (h : numberChanges sha sid seq pend = .ok changes) :
    Numbered sha sid seq pend changes := by
  induction pend generalizing seq changes with
  | nil =>
    cases h
    exact ⟨by simp, rfl, .nil, by simp, by simp⟩
  | cons change pend ih =>
    unfold numberChanges at h
    split_ifs at h with hseq
    obtain ⟨rest, hrs, h⟩ := bind_eq_ok.mp h
    cases h
    have hih := ih hrs
    refine ⟨?_, ?_, ?_, ?_, ?_⟩
    · exact forall_mem_cons.mpr ⟨rfl, hih.ids⟩
    · rw [map_cons, hih.pending]
    · exact pairwise_cons.mpr ⟨fun later hlat => hih.after later hlat, hih.ascending⟩
    · intro later hlat
      rcases mem_cons.mp hlat with rfl | hlat
      · exact Nat.lt_succ_self _
      · exact Nat.lt_of_succ_lt (hih.after later hlat)
    · intro later hlat
      rw [length_cons]
      rcases mem_cons.mp hlat with rfl | hlat
      · show seq + 1 ≤ _
        omega
      · have := hih.upTo later hlat
        omega

theorem numberChanges_returns {sid : BenefitScopeId} {seq : ℕ}
    {pend : List PendingChange} (h : seq + pend.length ≤ i64Max) :
    ∃ changes, numberChanges sha sid seq pend = .ok changes := by
  induction pend generalizing seq with
  | nil => exact ⟨[], rfl⟩
  | cons change pend ih =>
    rw [length_cons] at h
    obtain ⟨rest, hrs⟩ := @ih (seq + 1) (by omega)
    unfold numberChanges
    rw [if_pos (by omega)]
    exact ⟨_, bind_eq_ok.mpr ⟨rest, hrs, rfl⟩⟩

/-! ### Reconciliations -/

/-- One step for each lot of the prior inventory and each new lot. -/
structure StepsOf (prior : List BenefitCurrentLot) (steps : List LotStep) : Prop where
  keyed : Keyed LotStep.lotId steps
  previous_mem : ∀ step ∈ steps, ∀ lot, step.previous = some lot → lot ∈ prior
  covers : ∀ lot ∈ prior, ∃ step ∈ steps, step.previous = some lot
  fresh : ∀ step ∈ steps, step.previous = none → ∀ lot ∈ prior, lot.lot.lotId ≠ step.lotId

/-- What a reconciliation that publishes has computed. -/
structure Reconciled (sha256 : Bytes → Bytes32) (current : BenefitInventoryState)
    (observation : BenefitInventoryObservation) (steps : List LotStep)
    (reconciliation : BenefitReconciliation) : Prop where
  stepsOf : StepsOf current.lots steps
  lots_eq : reconciliation.state.lots = sortByLotId (steps.filterMap LotStep.next)
  lots_length_le : reconciliation.state.lots.length ≤ maxBenefitLotsPerObservation
  numbered : numberChanges sha256 current.scopeId current.lastChangeSequence
    (steps.filterMap LotStep.pending) = .ok reconciliation.changes
  revision : reconciliation.state.revision = current.revision + 1
  lastChangeSequence : reconciliation.state.lastChangeSequence =
    current.lastChangeSequence + reconciliation.changes.length
  observed : ∀ lot ∈ observation.lots, ∃ step ∈ steps, ∃ current, step.next = some current ∧
    current.lot = lot
  new_observed : ∀ step ∈ steps, step.previous = none → ∃ lot ∈ observation.lots,
    lot.lotId = step.lotId

variable {current : BenefitInventoryState} {obs : BenefitInventoryObservation}
    {steps : List LotStep} {reconciliation : BenefitReconciliation}

section Reconciled

variable (hrec : Reconciled sha current obs steps reconciliation)

include hrec

theorem Reconciled.lots : reconciliation.state.lots.Perm (steps.filterMap LotStep.next) := by
  rw [hrec.lots_eq]
  exact perm_insertionSort _ _

theorem Reconciled.lots_keyed : Keyed (fun lot => lot.lot.lotId) reconciliation.state.lots := by
  unfold Keyed
  rw [(hrec.lots.map _).nodup_iff]
  exact hrec.stepsOf.keyed.filterMap fun step lot h => LotStep.next_lotId h

/-- Each change of a reconciliation is the pending one of a step. -/
theorem Reconciled.change_step {change : BenefitChange} (hch : change ∈ reconciliation.changes) :
    ∃ step ∈ steps, step.pending = some change.toPendingChange := by
  refine mem_filterMap.mp ?_
  rw [← (numberChanges_ok hrec.numbered).pending]
  exact mem_map_of_mem hch

theorem Reconciled.step_change {step : LotStep} (hst : step ∈ steps)
    (hpd : step.pending.isSome = true) :
    ∃ change ∈ reconciliation.changes, step.pending = some change.toPendingChange := by
  obtain ⟨pend, hpd⟩ := Option.isSome_iff_exists.mp hpd
  have hmap : pend ∈ reconciliation.changes.map (·.toPendingChange) := by
    rw [(numberChanges_ok hrec.numbered).pending]
    exact mem_filterMap.mpr ⟨step, hst, hpd⟩
  obtain ⟨change, hch, rfl⟩ := mem_map.mp hmap
  exact ⟨change, hch, hpd⟩

theorem Reconciled.keep_or_change {step : LotStep} (hst : step ∈ steps) :
    (∃ kept, step = .keep kept) ∨
      ∃ change ∈ reconciliation.changes, step.pending = some change.toPendingChange :=
  step.keep_or_changes.imp_right (hrec.step_change hst)

theorem Reconciled.changes_keyed : Keyed (fun change => change.lotId) reconciliation.changes := by
  have hpd : Keyed (fun change : PendingChange => change.lotId)
      (reconciliation.changes.map (·.toPendingChange)) := by
    rw [(numberChanges_ok hrec.numbered).pending]
    exact hrec.stepsOf.keyed.filterMap fun step change h => (LotStep.pending_eq h).lotId
  unfold Keyed at hpd
  rw [map_map] at hpd
  exact hpd

end Reconciled

theorem perm_sortObserved (lots : List BenefitLotObservation) : (sortObserved lots).Perm lots :=
  perm_insertionSort _ _

section Planned

variable {prior : List BenefitCurrentLot} {obs : BenefitInventoryObservation}
  {observed : List (BenefitCurrentLot × Option PendingChange)}
  {departed : List (Option BenefitCurrentLot × Option PendingChange)}

variable (hobs : (sortObserved obs.lots).mapM (observeLot prior) = .ok observed)
  (hdep : (prior.filter fun previous => !obs.mentions previous.lot.lotId).mapM
    (departLot (obs.completeness != .partial_)) = .ok departed)

include hobs hdep

/-- What the two loops of a reconciliation return are the planned steps. -/
theorem planned_results :
    (plannedSteps prior obs).map (fun step => (step.next, step.pending)) =
      observed.map (fun res => (some res.1, res.2)) ++ departed := by
  rw [plannedSteps, map_append, map_map, map_map]
  congr 1
  · rw [← forall₂_eq_eq_eq, forall₂_map_left_iff, forall₂_map_right_iff]
    exact (mapM_eq_ok hobs).imp fun lot res h => observeLot_ok h
  · rw [← forall₂_eq_eq_eq, forall₂_map_left_iff]
    exact (mapM_eq_ok hdep).imp fun lot res h => departLot_ok h

theorem planned_next :
    observed.map (·.1) ++ departed.filterMap (·.1) =
      (plannedSteps prior obs).filterMap LotStep.next := by
  have hmap := congrArg (List.filterMap Prod.fst) (planned_results hobs hdep)
  simpa [filterMap_map, Function.comp_def] using hmap.symm

theorem planned_pending :
    observed.filterMap (·.2) ++ departed.filterMap (·.2) =
      (plannedSteps prior obs).filterMap LotStep.pending := by
  have hmap := congrArg (List.filterMap Prod.snd) (planned_results hobs hdep)
  simpa [filterMap_map, Function.comp_def] using hmap.symm

end Planned

variable {prior : List BenefitCurrentLot} {obs : BenefitInventoryObservation}

theorem mem_plannedSteps {step : LotStep} :
    step ∈ plannedSteps prior obs ↔
      (∃ lot ∈ obs.lots, observeStep prior lot = step) ∨
      ∃ lot ∈ prior, obs.mentions lot.lot.lotId = false ∧
        departStep (obs.completeness != .partial_) lot = step := by
  simp only [plannedSteps, mem_append, mem_map, (perm_sortObserved _).mem_iff, mem_filter,
    Bool.not_eq_true', and_assoc]

/-- The planned steps are one for each lot. -/
theorem stepsOf_planned (hkd : Keyed (fun lot => lot.lot.lotId) prior) :
    StepsOf prior (plannedSteps prior obs) := by
  refine ⟨?_, ?_, ?_, ?_⟩
  · refine Keyed.append ?_ ?_ ?_
    · have hobs : Keyed (fun lot => lot.lotId) (sortObserved obs.lots) :=
        ((perm_sortObserved obs.lots).map _).nodup_iff.mpr obs.lots_nodup
      exact hobs.map_of_key (observeStep_lotId prior)
    · exact (hkd.filter _).map_of_key (departStep_lotId _)
    · intro step hst other hoth hid
      obtain ⟨lot, hlot, rfl⟩ := mem_map.mp hst
      obtain ⟨previous, hprev, rfl⟩ := mem_map.mp hoth
      rw [observeStep_lotId, departStep_lotId] at hid
      have hmentions :=
        obs.mentions_iff.mpr ⟨lot, (perm_sortObserved _).mem_iff.mp hlot, hid⟩
      simp [hmentions] at hprev
  · intro step hst lot hprev
    rcases mem_plannedSteps.mp hst with ⟨seen, _, rfl⟩ | ⟨previous, hmem, _, rfl⟩
    · rw [observeStep_previous] at hprev
      exact mem_of_find?_eq_some hprev
    · rw [departStep_previous] at hprev
      cases hprev
      exact hmem
  · intro lot hlot
    cases hment : obs.mentions lot.lot.lotId with
    | true =>
      obtain ⟨seen, hsn, hid⟩ := obs.mentions_iff.mp hment
      refine ⟨observeStep prior seen, mem_plannedSteps.mpr (.inl ⟨seen, hsn, rfl⟩), ?_⟩
      rw [observeStep_previous]
      exact hkd.find?_eq hlot hid.symm
    | false =>
      exact ⟨_, mem_plannedSteps.mpr (.inr ⟨lot, hlot, hment, rfl⟩), departStep_previous _ lot⟩
  · intro step hst hno lot hlot hid
    rcases mem_plannedSteps.mp hst with ⟨seen, _, rfl⟩ | ⟨previous, _, _, rfl⟩
    · rw [observeStep_previous] at hno
      exact List.find?_eq_none.mp hno lot hlot (by simpa using hid)
    · rw [departStep_previous] at hno
      cases hno

variable {current : BenefitInventoryState}

/-- A reconciliation that returns: nothing new, or the planned steps. -/
theorem reconcileInventory_ok {reconciliation : BenefitReconciliation}
    (hkd : Keyed (fun lot => lot.lot.lotId) current.lots)
    (h : reconcileInventory sha current obs = .ok reconciliation) :
    ((reconciliation.status = .duplicate ∧
        (plannedSteps current.lots obs).filterMap LotStep.pending = [] ∨
      reconciliation.status = .stale ∧ current.lastObservedAtMs.any (obs.observedAtMs < ·) = true) ∧
      reconciliation.state = current ∧ reconciliation.changes = []) ∨
    ((reconciliation.status = .freshnessOnly ∨ reconciliation.status = .changed) ∧
      Reconciled sha current obs (plannedSteps current.lots obs)
        reconciliation) := by
  unfold reconcileInventory at h
  split_ifs at h with h1 h2
  · cases h
    exact .inl ⟨.inr ⟨rfl, h2⟩, rfl, rfl⟩
  · obtain ⟨observed, hobs, h⟩ := bind_eq_ok.mp h
    obtain ⟨departed, hdep, h⟩ := bind_eq_ok.mp h
    rw [planned_next hobs hdep, planned_pending hobs hdep] at h
    unfold finishReconciliation at h
    split_ifs at h with h3 h4 h5 h6
    · cases h
      exact .inl ⟨.inl ⟨rfl, h5⟩, rfl, rfl⟩
    · obtain ⟨chs, hchs, h⟩ := bind_eq_ok.mp h
      cases h
      refine .inr ⟨?_, stepsOf_planned hkd, rfl, ?_, hchs, rfl, rfl, ?_, ?_⟩
      · by_cases hno : chs = []
        · exact .inl (if_pos hno)
        · exact .inr (if_neg hno)
      · simp only [sortByLotId, length_insertionSort]
        omega
      · intro lot hlot
        exact ⟨_, mem_plannedSteps.mpr (.inl ⟨lot, hlot, rfl⟩), observeStep_next _ lot⟩
      · intro step hst hno
        rcases mem_plannedSteps.mp hst with ⟨lot, hlot, rfl⟩ | ⟨lot, _, _, rfl⟩
        · exact ⟨lot, hlot, (observeStep_lotId _ lot).symm⟩
        · rw [departStep_previous] at hno
          cases hno
    · obtain ⟨_, _, h⟩ := bind_eq_ok.mp h
      cases h

theorem reconcileInventory_stale {reconciliation : BenefitReconciliation}
    (h : reconcileInventory sha current obs = .ok reconciliation)
    (hlat : current.lastObservedAtMs.any (obs.observedAtMs < ·) = true) :
    reconciliation = ⟨.stale, current, []⟩ := by
  unfold reconcileInventory at h
  split_ifs at h
  cases h
  rfl

/-- A reconciliation whose numbers are in range returns. -/
theorem reconcileInventory_returns (hsc : current.scope = obs.scope)
    (hls : ∀ previous ∈ current.lots, previous.revision + 1 ≤ i64Max)
    (hcapa : ((plannedSteps current.lots obs).filterMap LotStep.next).length ≤
      maxBenefitLotsPerObservation)
    (hiden : current.lastObservationId = some obs.observationId →
      (plannedSteps current.lots obs).filterMap LotStep.pending = [])
    (hseq : current.lastChangeSequence +
      ((plannedSteps current.lots obs).filterMap LotStep.pending).length ≤ i64Max)
    (hrev : current.revision + 1 ≤ i64Max) :
    ∃ reconciliation, reconcileInventory sha current obs = .ok reconciliation := by
  unfold reconcileInventory
  rw [if_neg (not_not.mpr hsc)]
  split_ifs with hstl
  · exact ⟨_, rfl⟩
  · obtain ⟨observed, hobs⟩ := mapM_returns (f := observeLot current.lots)
      (l := sortObserved obs.lots) fun lot _ => observeLot_returns hls
    obtain ⟨departed, hdep⟩ := mapM_returns
      (f := departLot (obs.completeness != .partial_))
      fun previous hprev => departLot_returns (hls previous (mem_of_mem_filter hprev))
    obtain ⟨chs, hchs⟩ := @numberChanges_returns sha current.scopeId _ _ hseq
    have hfin : ∃ reconciliation, finishReconciliation sha current obs
        ((plannedSteps current.lots obs).filterMap LotStep.next)
        ((plannedSteps current.lots obs).filterMap LotStep.pending) = .ok reconciliation := by
      unfold finishReconciliation
      rw [if_neg (not_lt.mpr hcapa)]
      by_cases hsm : current.lastObservationId = some obs.observationId
      · rw [if_pos hsm, if_pos (hiden hsm)]
        exact ⟨_, rfl⟩
      · rw [if_neg hsm]
        exact ⟨_, bind_eq_ok.mpr ⟨chs, hchs, if_pos hrev⟩⟩
    obtain ⟨reconciliation, hreco⟩ := hfin
    refine ⟨reconciliation, bind_eq_ok.mpr ⟨observed, hobs,
      bind_eq_ok.mpr ⟨departed, hdep, ?_⟩⟩⟩
    rw [planned_next hobs hdep, planned_pending hobs hdep]
    exact hreco

end TokenMaster.Benefits
