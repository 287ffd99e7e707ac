import TokenMaster.Benefits.Counters
import TokenMaster.Benefits.Urgency

/-!
# TokenMaster.Benefits.Limits — how large the numbers of a store get

Every publication raises the revision of the state row by one and everything else by a bounded amount,
so the revision bounds all numbers that the code checks against the range of its integers.  `Limits`
also records how the stored identities were hashed.
-/

namespace TokenMaster.Benefits

open Domain Store List

variable {sha : Bytes → Bytes32} {db next : BenefitStore} {sid : BenefitScopeId}
  {steps : List LotStep} {drift : ℕ}

/-- At most one change for each observed lot and each prior one. -/
def maxChangesPerObservation : ℕ := 2 * maxBenefitLotsPerObservation

/-- At most one full schedule for each scope of a global profile change. -/
def maxDueGrowth : ℕ := maxBenefitOverviewScopes * maxScheduledReminders

structure Limits (sha256 : Bytes → Bytes32) (db : BenefitStore) : Prop where
  scopeIds : ∀ row ∈ db.scopes, benefitScopeId sha256 row.scope = row.scopeId
  changeIds : ∀ row ∈ db.changes, row.changeId = benefitChangeId sha256 row.lot.scopeId row.sequence
    row.lot.lotId row.lotRevision row.kind.code
  inventory : ∀ row ∈ db.scopes, row.inventoryRevision ≤ db.state.revision
  sequence : ∀ row ∈ db.scopes, row.lastChangeSequence ≤
    maxChangesPerObservation * row.inventoryRevision
  lotRevision : ∀ change ∈ db.changes, change.lotRevision ≤ change.sequence
  lots : ∀ row ∈ db.scopes, (db.current.countP fun current =>
    current.ref.lot.scopeId == row.scopeId) = row.currentLotCount
  currentLots : db.state.currentLotCount ≤ maxBenefitLotsPerObservation * db.state.revision
  changes : db.state.retainedChangeCount ≤ maxChangesPerObservation * db.state.revision
  due : db.due.length ≤ maxDueGrowth * db.state.revision

theorem limits_empty : Limits sha .empty where
  scopeIds := by simp [BenefitStore.empty]
  changeIds := by simp [BenefitStore.empty]
  inventory := by simp [BenefitStore.empty]
  sequence := by simp [BenefitStore.empty]
  lotRevision := by simp [BenefitStore.empty]
  lots := by simp [BenefitStore.empty]
  currentLots := by simp [BenefitStore.empty]
  changes := by simp [BenefitStore.empty]
  due := by simp [BenefitStore.empty]

/-! ### Observations -/

theorem Limits.ensureScope (hc : Constraints db) (h : Limits sha db) {scope : BenefitScope}
    (hok : ensureScope db scope (benefitScopeId sha scope) = .ok next) : Limits sha next := by
  rcases ensureScope_ok hok with ⟨rfl, _⟩ | ⟨hfr, rfl⟩
  · exact h
  · refine { h with
      scopeIds := forall_mem_append_one h.scopeIds rfl
      inventory := forall_mem_append_one h.inventory (Nat.zero_le _)
      sequence := forall_mem_append_one h.sequence (Nat.zero_le _)
      lots := forall_mem_append_one h.lots ?_ }
    -- a current row needs a revision row, and that needs its scope
    rw [freshScopeRow, countP_eq_zero]
    intro row hrow hsc
    obtain ⟨rev, hrev, href⟩ := revisionStored_iff.mp (hc.current_stored row hrow)
    have hsto := hc.revision_scope rev hrev
    have hrowS : row.ref.lot.scopeId = benefitScopeId sha scope := beq_iff_eq.mp hsc
    have hid : rev.scopeId = benefitScopeId sha scope := by
      rw [← hrowS, ← href]
      rfl
    rw [hid, hfr] at hsto
    cases hsto

theorem length_plannedSteps_le {cur : BenefitInventoryState}
    {obs : BenefitInventoryObservation}
    (hls : cur.lots.length ≤ maxBenefitLotsPerObservation) :
    (plannedSteps cur.lots obs).length ≤ maxChangesPerObservation := by
  have hfilter := length_filter_le
    (fun prev : BenefitCurrentLot => !obs.mentions prev.lot.lotId) cur.lots
  have hsn := obs.lots_length_le
  rw [plannedSteps, length_append, length_map, length_map,
    (perm_sortObserved _).length_eq, maxChangesPerObservation]
  omega

variable {obs : BenefitInventoryObservation} {recn : BenefitReconciliation}

/-- The changes of a reconciliation are bounded by its steps. -/
theorem Reconciled.length_changes_le {cur : BenefitInventoryState}
    (hrec : Reconciled sha cur obs steps recn) :
    recn.changes.length ≤ steps.length := by
  rw [← length_map (·.toPendingChange), (numberChanges_ok hrec.numbered).pending]
  exact length_filterMap_le _ _

/-- A scope row after an observation: the observed one or another. -/
theorem Written.scope_row (hw : Written sha db sid recn obs next)
    {row : ScopeRow} (hrow : row ∈ next.scopes) : (row ∈ db.scopes ∧ row.scopeId ≠ sid) ∨
      ∃ old ∈ db.scopes, old.scopeId = sid ∧ row = observedScopeRow recn.state obs old := by
  rw [hw.scopes] at hrow
  obtain ⟨old, hold, rfl⟩ := mem_map.mp hrow
  by_cases hsm : old.scopeId = sid
  · rw [if_pos (by simpa using hsm)]
    exact .inr ⟨old, hold, hsm, rfl⟩
  · rw [if_neg (by simpa using hsm)]
    exact .inl ⟨hold, hsm⟩

/-- The current rows of each scope after an observation. -/
theorem Written.countP_current (hw : Written sha db sid recn obs next)
    (id : BenefitScopeId) :
    (next.current.countP fun row => row.ref.lot.scopeId == id) =
      if id = sid then recn.state.lots.length
      else db.current.countP fun row => row.ref.lot.scopeId == id := by
  rw [hw.current, countP_append, countP_filter, countP_map]
  by_cases hsm : id = sid
  · rw [if_pos hsm, hsm]
    have hold : (db.current.countP fun row =>
        row.ref.lot.scopeId == sid && row.ref.lot.scopeId != sid) = 0 := by
      simp
    rw [hold, Nat.zero_add, countP_eq_length]
    simp [currentRow]
  · rw [if_neg hsm]
    have hnew : (recn.state.lots.countP
        ((fun row => row.ref.lot.scopeId == id) ∘ currentRow sid)) = 0 := by
      rw [countP_eq_zero]
      intro lot _
      simpa [currentRow] using Ne.symm hsm
    rw [hnew, Nat.add_zero]
    refine countP_congr fun row _ => ?_
    by_cases hid : row.ref.lot.scopeId = id
    · simp [hid, hsm]
    · simp [hid]

/-- The revision of a new change is at most its sequence number. -/
theorem Limits.stepped_lotRevision (hh : History db) (h : Limits sha db) {rows : List ChangeRow}
    {last : ℕ} (hs : Stepped db sid steps rows next) (hfrom : StepsFrom db sid steps)
    {scopeRow : ScopeRow} (hscR : scopeRow ∈ db.scopes) (hscI : scopeRow.scopeId = sid)
    (hl : last = scopeRow.lastChangeSequence) {row : ChangeRow} (hrow : row ∈ rows)
    (hseq : last < row.sequence) :
    row.lotRevision ≤ row.sequence := by
  obtain ⟨step, hst, hlog⟩ := hs.row_step row hrow
  have hadv := hfrom.advances step hst hlog.pending
  rw [hlog.lotRevision]
  by_cases hno : latestRevision db.changes ⟨sid, step.lotId⟩ = 0
  · omega
  · obtain ⟨latest, hlat, hlot, hrev⟩ := exists_latestRevision hno
    have hle := h.lotRevision latest hlat
    have hbd := hh.numbered latest hlat scopeRow hscR (by rw [hscI, hlot])
    omega

theorem Limits.applyBenefitObservation (hc : Constraints db) (hh : History db)
    (h : Limits sha db) {res : BenefitApplyResult}
    (hok : applyBenefitObservation sha db obs = .ok (next, res)) :
    Limits sha next := by
  obtain ⟨ensured, cur, recn, hens, hld, hreco, _, hwr⟩ :=
    applyBenefitObservation_ok hok
  have hb := h.ensureScope hc hens
  have hcbase := hc.ensureScope hens
  have hhbase := hh.ensureScope hc hens
  rcases hwr with ⟨_, rfl⟩ | ⟨hsta, hw⟩
  · exact hb
  obtain ⟨scopeRow, hscR, hscI, _, _, _, hstaI, hrev, hl, _⟩ :=
    loadInventoryState_ok hld
  have hrec := published_reconciled hld hreco hsta
  have hfrom := stepsFrom_prior hcbase hhbase hld hrec
  obtain ⟨rows, hs, hseq⟩ := written_stepped hrec hw.toWritten
  obtain ⟨recorded, hrecorded, hchs⟩ := hw.changes
  obtain ⟨added, _, hdue, _, hadd⟩ := hw.due
  have hct := hrec.length_changes_le.trans
    (length_plannedSteps_le (loadInventoryState_lots hld).2.2)
  refine ⟨?_, ?_, ?_, ?_, ?_, ?_, ?_, ?_, ?_⟩
  · intro row hrow
    rcases hw.scope_row hrow with ⟨hold, _⟩ | ⟨old, hold, _, rfl⟩
    · exact hb.scopeIds row hold
    · exact hb.scopeIds old hold
  · intro row hrow
    simp only [hchs, mem_append] at hrow
    rcases hrow with hrow | hrow
    · exact hb.changeIds row hrow
    · obtain ⟨ch, hch, hrow⟩ := forall₂_mem_right hrecorded hrow
      rw [hrow.changeId, (numberChanges_ok hrec.numbered).ids ch hch, hrow.lot,
        hrow.sequence, hrow.lotRevision, hrow.kind, hstaI]
  · intro row hrow
    rw [hw.state]
    rcases hw.scope_row hrow with ⟨hold, _⟩ | ⟨old, hold, hid, rfl⟩
    · exact (hb.inventory row hold).trans (Nat.le_succ _)
    · have hbd := hb.inventory scopeRow hscR
      simp only [observedScopeRow, hrec.revision, hrev]
      omega
  · intro row hrow
    rcases hw.scope_row hrow with ⟨hold, _⟩ | ⟨old, hold, hid, rfl⟩
    · exact hb.sequence row hold
    · have hbd := hb.sequence scopeRow hscR
      simp only [observedScopeRow, hrec.revision, hrev, hrec.lastChangeSequence, hl,
        Nat.mul_add, Nat.mul_one]
      omega
  · intro row hrow
    simp only [hs.changes, mem_append] at hrow
    rcases hrow with hrow | hrow
    · exact hb.lotRevision row hrow
    · exact hb.stepped_lotRevision hhbase hs hfrom hscR hscI hl hrow
        (hseq row hrow).1
  · intro row hrow
    rw [hw.countP_current]
    rcases hw.scope_row hrow with ⟨hold, hoth⟩ | ⟨old, hold, hid, rfl⟩
    · rw [if_neg hoth]
      exact hb.lots row hold
    · exact if_pos hid
  · have hbd := hb.currentLots
    have hls := hrec.lots_length_le
    simp only [hw.state, Nat.mul_add, Nat.mul_one]
    omega
  · have hbd := hb.changes
    simp only [hw.state, Nat.mul_add, Nat.mul_one]
    omega
  · have hbd := hb.due
    have hkp := length_filter_le (fun row : DueRow =>
      row.ref.lot.scopeId != benefitScopeId sha obs.scope) ensured.due
    have hgrowth : maxScheduledReminders ≤ maxDueGrowth := by decide
    simp only [hw.state, hdue, length_append, Nat.mul_add, Nat.mul_one]
    omega

/-! ### The other calls -/

/-- A call that leaves scopes, changes and current lots alone. -/
theorem Limits.publish (h : Limits sha db) (hscs : next.scopes = db.scopes)
    (hchs : ∀ row ∈ next.changes, row ∈ db.changes) (hcur : next.current = db.current)
    (hrev : db.state.revision ≤ next.state.revision)
    (hlotC : next.state.currentLotCount = db.state.currentLotCount)
    (hchC : next.state.retainedChangeCount ≤ db.state.retainedChangeCount)
    (hdue : next.due.length ≤ maxDueGrowth * next.state.revision) : Limits sha next where
  scopeIds := by
    rw [hscs]
    exact h.scopeIds
  changeIds := fun row hrow => h.changeIds row (hchs row hrow)
  inventory := by
    rw [hscs]
    exact fun row hrow => (h.inventory row hrow).trans hrev
  sequence := by
    rw [hscs]
    exact h.sequence
  lotRevision := fun row hrow => h.lotRevision row (hchs row hrow)
  lots := by
    rw [hscs, hcur]
    exact h.lots
  currentLots := by
    rw [hlotC]
    exact h.currentLots.trans (Nat.mul_le_mul_left _ hrev)
  changes := hchC.trans (h.changes.trans (Nat.mul_le_mul_left _ hrev))
  due := hdue

theorem Limits.setBenefitReminderGlobalProfile (h : Limits sha db) {prof : ReminderProfile}
    {res : BenefitProfileApplyResult} (hctd : Counted drift next)
    (hok : setBenefitReminderGlobalProfile sha db prof = .ok (next, res)) :
    Limits sha next := by
  rcases setBenefitReminderGlobalProfile_ok hok with rfl | ⟨scopes, rebuilt, _, _, hmy, hfo, hend⟩
  · exact h
  obtain ⟨hreb, hbd⟩ := rebuildProfileScopes_ok hfo
  rcases hend with ⟨hz, _, rfl⟩ | ⟨_, rfl⟩
  · -- before the first publication there is nothing to remind of
    have hsta : next.state = db.state := by
      rw [hreb]
      rfl
    have hno : next.due = [] := hctd.unpublished (by rw [hsta]; exact hz)
    rw [hreb, hno]
    exact h.publish rfl (fun _ hrow => hrow) rfl (le_refl _) rfl (le_refl _) (Nat.zero_le _)
  · rw [hreb]
    refine h.publish rfl (fun _ hrow => hrow) rfl (Nat.le_succ _) rfl (le_refl _) ?_
    have hold := h.due
    have hgrowth : scopes.length * maxScheduledReminders ≤ maxDueGrowth :=
      Nat.mul_le_mul_right _ hmy
    have hsm : (db.withGlobalProfile prof).due = db.due := rfl
    rw [hsm] at hbd
    simp only [Nat.mul_add, Nat.mul_one]
    omega

theorem Limits.maintained (h : Limits sha db) {chs : List ChangeRow}
    {revs : List LotRevisionRow} {dels : List DeliveryRow}
    (hm : Maintained sid db chs revs dels next) : Limits sha next := by
  obtain ⟨hrev, hls, hct⟩ : db.state.revision ≤ next.state.revision ∧
      next.state.currentLotCount = db.state.currentLotCount ∧
      next.state.retainedChangeCount ≤ db.state.retainedChangeCount := by
    rcases hm.state with ⟨_, _, hsta⟩ | ⟨_, _, _, hsta⟩
    · rw [hsta]
      exact ⟨le_refl _, rfl, le_refl _⟩
    · rw [hsta]
      exact ⟨Nat.le_succ _, rfl, Nat.sub_le _ _⟩
  refine h.publish hm.scopes (fun _ => hm.mem_changes) hm.current hrev hls hct ?_
  rw [hm.due]
  exact h.due.trans (Nat.mul_le_mul_left _ hrev)

/-- Every call that commits keeps the limits. -/
theorem Limits.call (hc : Constraints db) (hh : History db) (h : Limits sha db)
    (hctd : Counted drift next) {call : BenefitCall} {evs : List ReminderEvent}
    (hok : callBenefit sha db call = .ok (next, evs)) : Limits sha next := by
  cases callBenefit_ok hok with
  | observe hcl => exact h.applyBenefitObservation hc hh hcl
  | @setOverride scope _ _ _ hcl =>
    obtain ⟨_, added, _, _, ⟨_, hadd⟩, _, _, hnx⟩ := setBenefitReminderOverride_ok hcl
    rw [hnx]
    refine h.publish rfl (fun _ hrow => hrow) rfl (Nat.le_succ _) rfl (le_refl _) ?_
    have hold := h.due
    have hkp := length_filter_le (fun row : DueRow =>
      row.ref.lot.scopeId != benefitScopeId sha scope) db.due
    have hgrowth : maxScheduledReminders ≤ maxDueGrowth := by decide
    simp only [length_append, Nat.mul_add, Nat.mul_one]
    omega
  | setGlobalProfile hcl => exact h.setBenefitReminderGlobalProfile hctd hcl
  | processDue hcl =>
    rcases processDueBenefitReminders_ok hcl with ⟨hsm, _⟩ | ⟨_, _, _, _, hpg⟩
    · rw [hsm]
      exact h
    · obtain ⟨delivered, kept, hfo, hkp, _, _, hnx⟩ := deliverPage_ok hpg
      rw [deliverCandidates_ok hfo] at hkp hnx
      rw [hnx]
      refine h.publish rfl (fun _ hrow => hrow) rfl (le_refl _) rfl (le_refl _) ?_
      refine le_trans ?_ h.due
      rw [hkp]
      exact length_filter_le _ _
  | acknowledge hcl =>
    rw [acknowledgeBenefitReminders_frame hcl]
    exact { h with }
  | maintain hpg => exact h.maintained hpg

/-! ### Runs -/

/-- The invariants of a store that a run from the empty one reaches. -/
structure Reached (sha256 : Bytes → Bytes32) (db : BenefitStore) : Prop where
  constraints : Constraints db
  history : History db
  scheduled : AllScheduled sha256 db
  counted : ∃ drift, Counted drift db
  limits : Limits sha256 db

theorem Reached.step (h : Reached sha db) (call : BenefitCall) :
    Reached sha (stepBenefit sha db call).1 := by
  unfold stepBenefit
  cases hcl : callBenefit sha db call with
  | error e => exact h
  | ok res =>
    obtain ⟨drift, hctd⟩ := h.counted
    obtain ⟨more, _, hctd⟩ := hctd.call h.constraints hcl
    exact ⟨h.constraints.call hcl, h.history.call h.constraints hcl,
      h.scheduled.call h.constraints h.history hcl, ⟨drift + more, hctd⟩,
      h.limits.call h.constraints h.history hctd hcl⟩

theorem Reached.run (h : Reached sha db) (calls : List BenefitCall) :
    Reached sha (runBenefit sha db calls).1 := by
  induction calls generalizing db with
  | nil => exact h
  | cons call calls ih => exact ih (h.step call)

theorem reached_run (sha : Bytes → Bytes32) (calls : List BenefitCall) :
    Reached sha (runBenefit sha .empty calls).1 :=
  Reached.run ⟨constraints_empty, history_empty, by simp [AllScheduled, BenefitStore.empty],
    ⟨0, counted_empty⟩, limits_empty⟩ calls

/-- **The benefit tables keep their integrity.**  Whatever has been called, keys are unique and
references resolve, every due row is one that the schedule of a current lot gives, ids are those of
their rows, and the revision of the store bounds what it holds. -/
theorem benefit_store_integrity (sha256 : Bytes → Bytes32) (calls : List BenefitCall) :
    Constraints (runBenefit sha256 .empty calls).1 ∧
      AllScheduled sha256 (runBenefit sha256 .empty calls).1 ∧
      Limits sha256 (runBenefit sha256 .empty calls).1 := by
  have hrun := reached_run sha256 calls
  exact ⟨hrun.constraints, hrun.scheduled, hrun.limits⟩

end TokenMaster.Benefits
