import TokenMaster.Benefits.Constraints
import TokenMaster.Benefits.LotSteps

/-!
# TokenMaster.Benefits.History — revisions of a lot only grow

The latest change of a lot is never deleted, and its revision is the logical revision of the lot
(`latestRevision`).  `History` ties the tables to it: a current row is at the logical revision, a lot
without current row was retired at it, and no revision row is beyond it.  A retirement leaves no
revision row, so the logical revision of a retired lot has none.

Every call keeps `History`.  The only call that changes it is an observation; there each lot makes one
`LotStep` from its logical revision.
-/

namespace TokenMaster.Benefits

open Domain Store List

variable {sha : Bytes → Bytes32} {db next : BenefitStore} {scopeId : BenefitScopeId}
  {change terminal : ChangeRow} {row : CurrentRow} {step : LotStep}
  {obs : BenefitInventoryObservation} {reconciliation : BenefitReconciliation}

/-! ### The logical revision of a lot -/

/-- The greatest revision among the changes of a lot, 0 if there is none. -/
def latestRevision : List ChangeRow → LotRef → ℕ
  | [], _ => 0
  | change :: changes, lot =>
    if change.lot = lot then max change.lotRevision (latestRevision changes lot)
    else latestRevision changes lot

section

variable {changes : List ChangeRow} {lot : LotRef}

theorem latestRevision_le_iff {n : ℕ} :
    latestRevision changes lot ≤ n ↔ ∀ change ∈ changes, change.lot = lot → change.lotRevision ≤ n := by
  induction changes with
  | nil => simp [latestRevision]
  | cons change changes ih =>
    unfold latestRevision
    by_cases h : change.lot = lot
    · rw [if_pos h, max_le_iff, ih, forall_mem_cons]
      exact and_congr_left fun _ => ⟨fun hle _ => hle, fun hle => hle h⟩
    · rw [if_neg h, ih, forall_mem_cons]
      exact ⟨fun hle => ⟨fun heq => absurd heq h, hle⟩, fun hle => hle.2⟩

theorem le_latestRevision (h : change ∈ changes) :
    change.lotRevision ≤ latestRevision changes change.lot :=
  latestRevision_le_iff.mp (le_refl _) change h rfl

theorem exists_latestRevision (h : latestRevision changes lot ≠ 0) :
    ∃ change ∈ changes, change.lot = lot ∧ change.lotRevision = latestRevision changes lot := by
  by_contra hno
  push Not at hno
  have hle : latestRevision changes lot ≤ latestRevision changes lot - 1 := by
    rw [latestRevision_le_iff]
    intro change hch hlot
    have hne := hno change hch hlot
    have hle := le_latestRevision hch
    rw [hlot] at hle
    omega
  omega

theorem latestRevision_append (added : List ChangeRow) :
    latestRevision (changes ++ added) lot =
      max (latestRevision changes lot) (latestRevision added lot) := by
  refine eq_of_forall_ge_iff fun n => ?_
  simp only [max_le_iff, latestRevision_le_iff, mem_append, or_imp, forall_and]

end

/-- What the tables say about the revisions of the lots. -/
structure History (db : BenefitStore) : Prop where
  ordered : ∀ a ∈ db.changes, ∀ b ∈ db.changes, a.lot = b.lot → a.sequence < b.sequence →
    a.lotRevision < b.lotRevision
  numbered : ∀ change ∈ db.changes, ∀ row ∈ db.scopes, row.scopeId = change.lot.scopeId →
    change.sequence ≤ row.lastChangeSequence
  current_latest : ∀ row ∈ db.current, row.ref.revision = latestRevision db.changes row.ref.lot
  retired_latest : ∀ change ∈ db.changes,
    change.lotRevision = latestRevision db.changes change.lot →
    (∀ row ∈ db.current, row.ref.lot ≠ change.lot) →
      change.kind = .retiredTerminal ∧ change.afterRevision = none
  revision_le : ∀ row ∈ db.lotRevisions, row.revision ≤ latestRevision db.changes row.ref.lot
  revision_current : ∀ row ∈ db.lotRevisions,
    row.revision = latestRevision db.changes row.ref.lot → ∃ current ∈ db.current,
      current.ref = row.ref
  content : ∀ row ∈ db.current, ∃ revision ∈ db.lotRevisions,
    row = currentRow revision.scopeId revision.toCurrent

theorem history_empty : History .empty where
  ordered := by simp [BenefitStore.empty]
  numbered := by simp [BenefitStore.empty]
  current_latest := by simp [BenefitStore.empty]
  retired_latest := by simp [BenefitStore.empty]
  revision_le := by simp [BenefitStore.empty]
  revision_current := by simp [BenefitStore.empty]
  content := by simp [BenefitStore.empty]

/-! ### Loaded and re-hydrated lots -/

theorem row_loaded (hc : Constraints db) (hrow : row ∈ db.current)
    (hsc : row.ref.lot.scopeId = scopeId) :
    ∃ lot ∈ loadCurrentLots db scopeId, (currentRow scopeId lot).ref = row.ref := by
  obtain ⟨rev, hrev, href⟩ := revisionStored_iff.mp (hc.current_stored row hrow)
  refine ⟨rev.toCurrent, mem_loadCurrentLots.mpr ⟨row, hrow, hsc, rev,
    hc.lotRevisions.find?_eq hrev href, rfl⟩, ?_⟩
  rw [← href, ← hsc, ← href]
  rfl

/-- The current row of a loaded lot repeats its content. -/
theorem currentRow_loaded (hc : Constraints db) (h : History db) {lot : BenefitCurrentLot}
    (hlot : lot ∈ loadCurrentLots db scopeId) : currentRow scopeId lot ∈ db.current := by
  obtain ⟨row, hrow, revision, hrev, rfl, rfl, href⟩ := loaded_row hlot
  obtain ⟨stored, hsto, hcon⟩ := h.content row hrow
  have hsm : stored = revision := by
    refine hc.lotRevisions.eq_of_key hsto hrev ?_
    rw [← href, hcon]
    rfl
  rw [← hsm, ← hcon]
  exact hrow

/-- What the query for a retired lot finds. -/
theorem retiredLot?_some {lot : LotRef} {current : BenefitCurrentLot}
    (h : retiredLot? db lot = some current) :
    (∀ row ∈ db.current, row.ref.lot ≠ lot) ∧ ∃ terminal ∈ db.changes, terminal.lot = lot ∧
      (∀ change ∈ db.changes, change.lot = lot → change.sequence ≤ terminal.sequence) ∧
      ∃ row ∈ db.lotRevisions, row.ref.lot = lot ∧ terminal.beforeRevision = some row.revision ∧
        current.lot = row.lot.withState .ambiguous ∧ current.revision = terminal.lotRevision := by
  unfold retiredLot? at h
  split_ifs at h with hcur
  obtain ⟨terminal, hter, h⟩ := exists_of_findSome?_eq_some h
  obtain ⟨hmem, hends⟩ := mem_filter.mp hter
  obtain ⟨row, hrow, rfl⟩ := Option.map_eq_some_iff.mp h
  have hfd := List.find?_some hrow
  simp only [ChangeRow.endsLot, Bool.and_eq_true, beq_iff_eq, all_eq_true, Bool.or_eq_true,
    bne_iff_ne, decide_eq_true_iff] at hends hfd
  refine ⟨?_, terminal, hmem, hends.1.1.1, ?_, row, mem_of_find?_eq_some hrow, hfd.1,
    hfd.2.symm, rfl, rfl⟩
  · intro row hrow heq
    exact hcur (any_eq_true.mpr ⟨row, hrow, by simpa using heq⟩)
  · intro change hch hlot
    rcases hends.2 change hch with hne | hle
    · exact absurd hlot hne
    · exact hle

theorem retiredLot?_lotId {lot : LotRef} {current : BenefitCurrentLot}
    (h : retiredLot? db lot = some current) : current.lot.lotId = lot.lotId := by
  obtain ⟨_, _, _, _, _, row, _, href, _, hcon, _⟩ := retiredLot?_some h
  rw [hcon]
  exact congrArg LotRef.lotId href

/-- A change of a lot with the greatest sequence number has its logical revision. -/
theorem History.latest_of_sequence (h : History db) (hter : terminal ∈ db.changes)
    (hl : ∀ change ∈ db.changes, change.lot = terminal.lot →
      change.sequence ≤ terminal.sequence) (hc : Constraints db) :
    terminal.lotRevision = latestRevision db.changes terminal.lot := by
  refine le_antisymm (le_latestRevision hter) (latestRevision_le_iff.mpr ?_)
  intro change hch hlot
  rcases Nat.lt_or_eq_of_le (hl change hch hlot) with hlt | heq
  · exact (h.ordered change hch terminal hter hlot hlt).le
  · have hsm : change = terminal :=
      hc.sequences.eq_of_key hch hter (Prod.ext (by rw [hlot]) heq)
    rw [hsm]

/-- The converse: the change at the logical revision is the last one. -/
theorem History.sequence_of_latest (h : History db) (hter : terminal ∈ db.changes)
    (hlat : terminal.lotRevision = latestRevision db.changes terminal.lot) :
    ∀ change ∈ db.changes, change.lot = terminal.lot → change.sequence ≤ terminal.sequence := by
  intro change hch hlot
  by_contra hlt
  have hless := h.ordered terminal hter change hch hlot.symm (by omega)
  have hle := le_latestRevision hch
  rw [hlot] at hle
  omega

/-- A lot with a history but no current row can be re-hydrated. -/
theorem retiredLot?_isSome (hc : Constraints db) (h : History db) {lot : LotRef}
    (hcur : ∀ row ∈ db.current, row.ref.lot ≠ lot) (hchs : latestRevision db.changes lot ≠ 0) :
    ∃ current, retiredLot? db lot = some current := by
  obtain ⟨terminal, hter, rfl, hlat⟩ := exists_latestRevision hchs
  obtain ⟨hkd, haft⟩ := h.retired_latest terminal hter hlat hcur
  have hl := h.sequence_of_latest hter hlat
  -- the check on the row says that a retirement names the revision before it
  obtain ⟨before, hbef⟩ : ∃ before, terminal.beforeRevision = some before := by
    rcases terminal.shape with hsh | ⟨_, hsh⟩
    · rw [haft] at hsh
      cases hsh
    · obtain ⟨before, hbef, _⟩ := Option.map_eq_some_iff.mp hsh
      exact ⟨before, hbef⟩
  obtain ⟨row, hrow, href⟩ := revisionStored_iff.mp (hc.before_stored terminal hter _ hbef)
  unfold retiredLot?
  rw [if_neg]
  · rw [← Option.isSome_iff_exists, List.findSome?_isSome_iff]
    refine ⟨terminal, mem_filter.mpr ⟨hter, ?_⟩, ?_⟩
    · simp only [ChangeRow.endsLot, Bool.and_eq_true, beq_iff_eq, all_eq_true, Bool.or_eq_true,
        bne_iff_ne, decide_eq_true_iff]
      refine ⟨⟨⟨trivial, hkd⟩, haft⟩, ?_⟩
      intro change hch
      by_cases hlot : change.lot = terminal.lot
      · exact .inr (hl change hch hlot)
      · exact .inl hlot
    · rw [Option.isSome_map, List.find?_isSome]
      refine ⟨row, hrow, ?_⟩
      have hrev : row.revision = before := congrArg RevisionRef.revision href
      simp [hbef, href, hrev]
  · rw [any_eq_true]
    rintro ⟨row, hrow, heq⟩
    exact hcur row hrow (by simpa using heq)

section Prior

variable {scope : BenefitScope} {observed : List BenefitLotObservation}
  {current : BenefitInventoryState} {lot : BenefitCurrentLot}
  (hload : loadInventoryState sha db scope scopeId observed = .ok current)

include hload

/-- The lots of a loaded inventory: those with a current row, and re-hydrated ones. -/
theorem prior_iff : lot ∈ current.lots ↔ lot ∈ loadCurrentLots db scopeId ∨
    ∃ seen ∈ observed, retiredLot? db ⟨scopeId, seen.lotId⟩ = some lot := by
  rw [(loadInventoryState_lots hload).2.1.mem_iff, mem_hydrated]

theorem prior_cases (hlot : lot ∈ current.lots) :
    lot ∈ loadCurrentLots db scopeId ∨
      ∃ seen ∈ observed, seen.lotId = lot.lot.lotId ∧
        retiredLot? db ⟨scopeId, lot.lot.lotId⟩ = some lot := by
  refine ((prior_iff hload).mp hlot).imp_right fun ⟨seen, hsn, hfd⟩ => ?_
  have hid : lot.lot.lotId = seen.lotId := retiredLot?_lotId hfd
  exact ⟨seen, hsn, hid.symm, hid ▸ hfd⟩

theorem loaded_prior (hlot : lot ∈ loadCurrentLots db scopeId) : lot ∈ current.lots :=
  (prior_iff hload).mpr (.inl hlot)

/-- Every lot of a loaded inventory is at its logical revision. -/
theorem prior_revision (hc : Constraints db) (h : History db) (hlot : lot ∈ current.lots) :
    lot.revision = latestRevision db.changes ⟨scopeId, lot.lot.lotId⟩ := by
  rcases prior_cases hload hlot with hld | ⟨_, _, _, hret⟩
  · obtain ⟨row, hrow, rev, _, rfl, rfl, href⟩ := loaded_row hld
    have hlat := h.current_latest row hrow
    rw [href] at hlat
    exact hlat
  · obtain ⟨_, terminal, hter, hterL, hl, _, _, _, _, _, hrev⟩ :=
      retiredLot?_some hret
    rw [hrev, ← hterL]
    exact h.latest_of_sequence hter (hterL ▸ hl) hc

/-- An observed lot that was not loaded has no history. -/
theorem new_latestRevision (hc : Constraints db) (h : History db) {seen : BenefitLotObservation}
    (hsn : seen ∈ observed) (hnew : ∀ lot ∈ current.lots, lot.lot.lotId ≠ seen.lotId) :
    latestRevision db.changes ⟨scopeId, seen.lotId⟩ = 0 := by
  by_contra hchs
  have hcur : ∀ row ∈ db.current, row.ref.lot ≠ ⟨scopeId, seen.lotId⟩ := by
    intro row hrow heq
    obtain ⟨lot, hlot, href⟩ := row_loaded hc hrow (congrArg LotRef.scopeId heq)
    refine hnew lot (loaded_prior hload hlot) ?_
    exact congrArg LotRef.lotId ((congrArg RevisionRef.lot href).trans heq)
  obtain ⟨lot, hret⟩ := retiredLot?_isSome hc h hcur hchs
  exact hnew lot ((prior_iff hload).mpr (.inr ⟨seen, hsn, hret⟩)) (retiredLot?_lotId hret)

end Prior

/-! ### Observations -/

open LotStep

/-- A change row of a step. -/
structure LotStep.Logged (scopeId : BenefitScopeId) (step : LotStep) (row : ChangeRow) : Prop where
  pending : step.pending.isSome = true
  lot : row.lot = ⟨scopeId, step.lotId⟩
  lotRevision : row.lotRevision = step.revision
  retired : step.next = none → row.kind = .retiredTerminal ∧ row.afterRevision = none

/-- What an observation that publishes did to the tables of a scope, lot by lot. -/
structure Stepped (db : BenefitStore) (scopeId : BenefitScopeId) (steps : List LotStep)
    (rows : List ChangeRow) (next : BenefitStore) : Prop where
  keyed : Keyed LotStep.lotId steps
  changes : next.changes = db.changes ++ rows
  rows_keyed : Keyed (fun row => row.lot) rows
  row_step : ∀ row ∈ rows, ∃ step ∈ steps, step.Logged scopeId row
  step_row : ∀ step ∈ steps, step.pending.isSome = true → ∃ row ∈ rows, step.Logged scopeId row
  lotRevisions : ∀ row, row ∈ next.lotRevisions ↔ row ∈ db.lotRevisions ∨ ∃ step ∈ steps,
    step.pending.isSome = true ∧ row.scopeId = scopeId ∧ step.next = some row.toCurrent
  current : ∀ row, row ∈ next.current ↔ (row ∈ db.current ∧ row.ref.lot.scopeId ≠ scopeId) ∨
    ∃ lot, (∃ step ∈ steps, step.next = some lot) ∧ currentRow scopeId lot = row

theorem LotStep.logged_of_records {change : BenefitChange} {row : ChangeRow}
    (hpd : step.pending = some change.toPendingChange) (hrow : row.Records scopeId change) :
    step.Logged scopeId row := by
  have hdes := pending_eq hpd
  refine ⟨by rw [hpd]; rfl, ?_, hrow.lotRevision.trans hdes.lotRevision, ?_⟩
  · rw [hrow.lot, ← hdes.lotId]
  · intro hno
    refine ⟨hrow.kind.trans (hdes.retired hno), ?_⟩
    rw [hrow.afterRevision, hdes.after, hno]
    rfl

/-- The revision row of a step is the lot that it leaves. -/
theorem LotStep.revisionRow?_eq {change : BenefitChange}
    (hpd : step.pending = some change.toPendingChange) :
    revisionRow? scopeId change = step.next.map fun lot =>
      ⟨scopeId, lot.revision, lot.lot, lot.revision_pos⟩ := by
  have hdes := pending_eq hpd
  unfold revisionRow?
  cases hnx : step.next with
  | none =>
    rw [hdes.after, hnx]
    rfl
  | some lot =>
    have hsm := hdes.lotRevision.trans (next_revision hnx).symm
    rw [hdes.after, hnx]
    simp [hsm, lot.revision_pos]

theorem written_stepped {current : BenefitInventoryState} {steps : List LotStep}
    (hrec : Reconciled sha current obs steps reconciliation)
    (hw : Written sha db scopeId reconciliation obs next) :
    ∃ rows, Stepped db scopeId steps rows next ∧
      ∀ row ∈ rows, current.lastChangeSequence < row.sequence ∧
        row.sequence ≤ reconciliation.state.lastChangeSequence := by
  obtain ⟨rows, hrs, hchs⟩ := hw.changes
  have hnum := numberChanges_ok hrec.numbered
  refine ⟨rows, ⟨hrec.stepsOf.keyed, hchs, ?_, ?_, ?_, ?_, ?_⟩, ?_⟩
  · have hids : reconciliation.changes.map (fun change => (⟨scopeId, change.lotId⟩ : LotRef)) =
        rows.map (·.lot) := by
      rw [← forall₂_eq_eq_eq, forall₂_map_left_iff, forall₂_map_right_iff]
      exact hrs.imp fun change row h => h.lot.symm
    have hkd := hrec.changes_keyed
    unfold Keyed at hkd ⊢
    rw [← hids]
    refine List.Nodup.of_map LotRef.lotId ?_
    rw [map_map]
    exact hkd
  · intro row hrow
    obtain ⟨change, hmem, hrcs⟩ := forall₂_mem_right hrs hrow
    obtain ⟨step, hst, hpd⟩ := hrec.change_step hmem
    exact ⟨step, hst, logged_of_records hpd hrcs⟩
  · intro step hst hso
    obtain ⟨change, hmem, hpd⟩ := hrec.step_change hst hso
    obtain ⟨row, hrow, hrcs⟩ := forall₂_mem_left hrs hmem
    exact ⟨row, hrow, logged_of_records hpd hrcs⟩
  · intro row
    rw [hw.lotRevisions, mem_append, mem_filterMap]
    refine or_congr_right ⟨?_, ?_⟩
    · rintro ⟨change, hmem, hfd⟩
      obtain ⟨step, hst, hpd⟩ := hrec.change_step hmem
      rw [revisionRow?_eq hpd] at hfd
      obtain ⟨lot, hnx, rfl⟩ := Option.map_eq_some_iff.mp hfd
      exact ⟨step, hst, by rw [hpd]; rfl, rfl, hnx⟩
    · rintro ⟨step, hst, hso, rfl, hnx⟩
      obtain ⟨change, hmem, hpd⟩ := hrec.step_change hst hso
      refine ⟨change, hmem, ?_⟩
      rw [revisionRow?_eq hpd, hnx]
      rfl
  · intro row
    simp only [hw.current, mem_append, mem_filter, bne_iff_ne, mem_map, hrec.lots.mem_iff,
      mem_filterMap]
  · intro row hrow
    obtain ⟨change, hmem, hrcs⟩ := forall₂_mem_right hrs hrow
    rw [hrcs.sequence, hrec.lastChangeSequence]
    exact ⟨hnum.after change hmem, hnum.upTo change hmem⟩

/-- The steps start from the logical revisions of the lots and cover the current rows. -/
structure StepsFrom (db : BenefitStore) (scopeId : BenefitScopeId) (steps : List LotStep) :
    Prop where
  advances : ∀ step ∈ steps, step.pending.isSome = true →
    step.revision = latestRevision db.changes ⟨scopeId, step.lotId⟩ + 1
  kept : ∀ lot, LotStep.keep lot ∈ steps →
    lot.revision = latestRevision db.changes ⟨scopeId, lot.lot.lotId⟩
  kept_row : ∀ lot, LotStep.keep lot ∈ steps →
    (∃ revision ∈ db.lotRevisions, revision.scopeId = scopeId ∧ revision.toCurrent = lot) ∨
      ∀ row ∈ db.current, row.ref.lot ≠ ⟨scopeId, lot.lot.lotId⟩
  covers : ∀ row ∈ db.current, row.ref.lot.scopeId = scopeId → ∃ step ∈ steps,
    row.ref.lot = ⟨scopeId, step.lotId⟩ ∧ step.previous.map (·.revision) = some row.ref.revision

theorem StepsFrom.growth {steps : List LotStep} (h : StepsFrom db scopeId steps) (step : LotStep)
    (hst : step ∈ steps) (hso : step.pending.isSome = true) :
    latestRevision db.changes ⟨scopeId, step.lotId⟩ < step.revision := by
  rw [h.advances step hst hso]
  exact Nat.lt_succ_self _

theorem stepsFrom_prior (hc : Constraints db) (h : History db) {current : BenefitInventoryState}
    {steps : List LotStep}
    (hload : loadInventoryState sha db obs.scope scopeId obs.lots = .ok current)
    (hrec : Reconciled sha current obs steps reconciliation) :
    StepsFrom db scopeId steps := by
  refine ⟨?_, ?_, ?_, ?_⟩
  · intro step hst hpd
    cases hprev : step.previous with
    | none =>
      obtain ⟨seen, hsn, hid⟩ := hrec.new_observed step hst hprev
      have hnew : ∀ lot ∈ current.lots, lot.lot.lotId ≠ seen.lotId :=
        hid ▸ hrec.stepsOf.fresh step hst hprev
      rw [← hid, new_latestRevision hload hc h hsn hnew, (previous_none hprev).2]
    | some lot =>
      have hrev := prior_revision hload hc h (hrec.stepsOf.previous_mem step hst lot hprev)
      rw [previous_lotId hprev] at hrev
      rcases previous_revision hprev with rfl | ⟨_, hsucc⟩
      · cases hpd
      · rw [hsucc, ← hrev]
  · intro lot hkp
    exact prior_revision hload hc h (hrec.stepsOf.previous_mem _ hkp lot rfl)
  · intro lot hkp
    rcases prior_cases hload (hrec.stepsOf.previous_mem _ hkp lot rfl) with
      hld | ⟨_, _, _, hret⟩
    · obtain ⟨_, _, rev, hrev, hsc, hlot, _⟩ := loaded_row hld
      exact .inl ⟨rev, hrev, hsc, hlot⟩
    · exact .inr (retiredLot?_some hret).1
  · intro row hrow hsc
    obtain ⟨lot, hlot, href⟩ := row_loaded hc hrow hsc
    obtain ⟨step, hst, hprev⟩ := hrec.stepsOf.covers lot (loaded_prior hload hlot)
    refine ⟨step, hst, ?_, ?_⟩
    · rw [← href, ← previous_lotId hprev]
      rfl
    · rw [hprev, ← href]
      rfl

section Stepped

variable {steps : List LotStep} {rows : List ChangeRow}

/-- The lot that a change or a current row is about has a step or not. -/
theorem step_or_other (scopeId : BenefitScopeId) (steps : List LotStep) (lot : LotRef) :
    (∃ step ∈ steps, lot = ⟨scopeId, step.lotId⟩) ∨ ∀ step ∈ steps, lot ≠ ⟨scopeId, step.lotId⟩ := by
  by_cases hst : ∃ step ∈ steps, lot = ⟨scopeId, step.lotId⟩
  · exact .inl hst
  · exact .inr fun step hmem heq => hst ⟨step, hmem, heq⟩

variable (hs : Stepped db scopeId steps rows next)

include hs

/-- The row of a step, found by the lot. -/
theorem Stepped.row_of_lot {row : ChangeRow} (hrow : row ∈ rows) (hst : step ∈ steps)
    (hlot : row.lot = ⟨scopeId, step.lotId⟩) : step.Logged scopeId row := by
  obtain ⟨other, hoth, hlog⟩ := hs.row_step row hrow
  have hid : other.lotId = step.lotId := congrArg LotRef.lotId (hlog.lot.symm.trans hlot)
  rwa [hs.keyed.eq_of_key hoth hst hid] at hlog

/-- A step leaves its lot at the revision of the step. -/
theorem Stepped.latest_step (hfrom : StepsFrom db scopeId steps) (hst : step ∈ steps) :
    latestRevision next.changes ⟨scopeId, step.lotId⟩ = step.revision := by
  rw [hs.changes, latestRevision_append]
  have hrs : latestRevision rows ⟨scopeId, step.lotId⟩ ≤ step.revision := by
    rw [latestRevision_le_iff]
    intro row hrow hlot
    exact (hs.row_of_lot hrow hst hlot).lotRevision.le
  rcases step.keep_or_changes with ⟨lot, rfl⟩ | hso
  · have hkp : lot.revision = latestRevision db.changes ⟨scopeId, (keep lot).lotId⟩ :=
      hfrom.kept lot hst
    rw [← hkp]
    exact max_eq_left hrs
  · obtain ⟨row, hrow, hlog⟩ := hs.step_row step hst hso
    have hge := le_latestRevision hrow
    rw [hlog.lot, hlog.lotRevision] at hge
    have hgrowth := hfrom.growth step hst hso
    omega

theorem Stepped.step_current (hst : step ∈ steps) {lot : BenefitCurrentLot}
    (hnx : step.next = some lot) : currentRow scopeId lot ∈ next.current :=
  (hs.current _).mpr (.inr ⟨lot, ⟨step, hst, hnx⟩, rfl⟩)

/-- The lots without a step keep their logical revision. -/
theorem Stepped.latest_other {lot : LotRef} (hoth : ∀ step ∈ steps, lot ≠ ⟨scopeId, step.lotId⟩) :
    latestRevision next.changes lot = latestRevision db.changes lot := by
  have hno : latestRevision rows lot ≤ 0 := by
    rw [latestRevision_le_iff]
    intro row hrow hlot
    obtain ⟨step, hst, hlog⟩ := hs.row_step row hrow
    exact absurd (hlot.symm.trans hlog.lot) (hoth step hst)
  rw [hs.changes, latestRevision_append]
  omega

theorem Stepped.latest_le (lot : LotRef) :
    latestRevision db.changes lot ≤ latestRevision next.changes lot := by
  rw [hs.changes, latestRevision_append]
  exact le_max_left _ _

/-- The current row of a lot without a step stays. -/
theorem Stepped.current_kept (hfrom : StepsFrom db scopeId steps) (hrow : row ∈ db.current)
    (hoth : ∀ step ∈ steps, row.ref.lot ≠ ⟨scopeId, step.lotId⟩) :
    row ∈ next.current := by
  refine (hs.current row).mpr (.inl ⟨hrow, fun hsc => ?_⟩)
  obtain ⟨step, hst, hlot, _⟩ := hfrom.covers row hrow hsc
  exact hoth step hst hlot

variable (h : History db) (hfrom : StepsFrom db scopeId steps)

include h hfrom

theorem History.stepped_retired (hch : change ∈ next.changes)
    (hlat : change.lotRevision = latestRevision next.changes change.lot)
    (hgo : ∀ row ∈ next.current, row.ref.lot ≠ change.lot) :
    change.kind = .retiredTerminal ∧ change.afterRevision = none := by
  rw [hs.changes, mem_append] at hch
  rcases step_or_other scopeId steps change.lot with ⟨step, hst, hlot⟩ | hoth
  · -- a step that leaves no current row is a retirement, and its change is the latest one
    have hnx : step.next = none := by
      cases hnx : step.next with
      | none => rfl
      | some lot =>
        refine absurd ?_ (hgo _ (hs.step_current hst hnx))
        rw [hlot, ← next_lotId hnx]
        rfl
    rw [hlot, hs.latest_step hfrom hst] at hlat
    rcases hch with hold | hnew
    · have hle := le_latestRevision hold
      have hpd : step.pending.isSome = true := by
        cases step with
        | award lot | change lot lot' kind same | retire lot => rfl
        | keep lot => cases hnx
      have hgrowth := hfrom.growth step hst hpd
      rw [hlot] at hle
      omega
    · exact (hs.row_of_lot hnew hst hlot).retired hnx
  · rcases hch with hold | hnew
    · rw [hs.latest_other hoth] at hlat
      refine h.retired_latest change hold hlat ?_
      intro row hrow heq
      exact hgo row (hs.current_kept hfrom hrow (heq ▸ hoth)) heq
    · obtain ⟨step, hst, hlog⟩ := hs.row_step change hnew
      exact absurd hlog.lot (hoth step hst)

theorem History.stepped_revision_current {row : LotRevisionRow} (hrow : row ∈ next.lotRevisions)
    (hlat : row.revision = latestRevision next.changes row.ref.lot) :
    ∃ current ∈ next.current, current.ref = row.ref := by
  rcases (hs.lotRevisions row).mp hrow with hold | ⟨step, hst, _, hsc, hnx⟩
  · rcases step_or_other scopeId steps row.ref.lot with ⟨step, hst, hlot⟩ | hoth
    · have hle := h.revision_le row hold
      rw [hlot, hs.latest_step hfrom hst] at hlat
      rw [hlot] at hle
      rcases step.keep_or_changes with ⟨lot, rfl⟩ | hso
      · refine ⟨_, hs.step_current hst rfl, ?_⟩
        have href : row.ref = ⟨row.ref.lot, row.revision⟩ := rfl
        rw [href, hlot, hlat]
        rfl
      · have hgrowth := hfrom.growth step hst hso
        omega
    · rw [hs.latest_other hoth] at hlat
      obtain ⟨current, hcur, href⟩ := h.revision_current row hold hlat
      refine ⟨current, hs.current_kept hfrom hcur ?_, href⟩
      rw [href]
      exact hoth
  · refine ⟨_, hs.step_current hst hnx, ?_⟩
    rw [← hsc]
    rfl

/-- The lot that a step leaves is stored with its content. -/
theorem History.stepped_lot (hnx : Constraints next) (hst : step ∈ steps)
    {lot : BenefitCurrentLot} (hlot : step.next = some lot) :
    ∃ rev ∈ next.lotRevisions, rev.scopeId = scopeId ∧ rev.toCurrent = lot := by
  rcases step.keep_or_changes with ⟨kept, rfl⟩ | hso
  · -- a kept lot was not re-hydrated: there is no revision row at a retirement
    obtain rfl : kept = lot := Option.some.inj hlot
    rcases hfrom.kept_row kept hst with ⟨rev, hrev, hrow⟩ | hret
    · exact ⟨rev, (hs.lotRevisions _).mpr (.inl hrev), hrow⟩
    · have hsto := hnx.current_stored _ (hs.step_current hst rfl)
      obtain ⟨rev, hrev, href⟩ := revisionStored_iff.mp hsto
      have hlot : rev.ref.lot = ⟨scopeId, kept.lot.lotId⟩ := congrArg RevisionRef.lot href
      have hkp : rev.revision = kept.revision := congrArg RevisionRef.revision href
      rcases (hs.lotRevisions _).mp hrev with hold | ⟨step, hmem, hso, _, hl⟩
      · have hlat : rev.revision = latestRevision db.changes rev.ref.lot := by
          rw [hkp, hlot]
          exact hfrom.kept kept hst
        obtain ⟨current, hcur, hsm⟩ := h.revision_current rev hold hlat
        exact absurd (hsm ▸ hlot) (hret current hcur)
      · have hid : step.lotId = (keep kept).lotId := by
          rw [← next_lotId hl]
          exact congrArg LotRef.lotId hlot
        rw [hs.keyed.eq_of_key hmem hst hid] at hso
        cases hso
  · exact ⟨⟨scopeId, lot.revision, lot.lot, lot.revision_pos⟩,
      (hs.lotRevisions _).mpr (.inr ⟨step, hst, hso, rfl, hlot⟩), rfl, rfl⟩

theorem History.stepped_content (hnx : Constraints next) (hrow : row ∈ next.current) :
    ∃ rev ∈ next.lotRevisions, row = currentRow rev.scopeId rev.toCurrent := by
  rcases (hs.current row).mp hrow with ⟨hold, _⟩ | ⟨lot, ⟨step, hst, hlot⟩, rfl⟩
  · obtain ⟨rev, hrev, hcon⟩ := h.content row hold
    exact ⟨rev, (hs.lotRevisions _).mpr (.inl hrev), hcon⟩
  · obtain ⟨rev, hrev, rfl, rfl⟩ := h.stepped_lot hs hfrom hnx hst hlot
    exact ⟨rev, hrev, rfl⟩

end Stepped

/-- An observation that publishes keeps the history. -/
theorem History.written (hc : Constraints db) (h : History db) {current : BenefitInventoryState}
    {steps : List LotStep}
    (hload : loadInventoryState sha db obs.scope scopeId obs.lots = .ok current)
    (hrec : Reconciled sha current obs steps reconciliation)
    (hw : Written sha db scopeId reconciliation obs next) (hnx : Constraints next) :
    History next := by
  have hfrom := stepsFrom_prior hc h hload hrec
  obtain ⟨rows, hs, hseq⟩ := written_stepped hrec hw
  -- the sequence numbers of the scope continue after the stored ones
  obtain ⟨scopeRow, hscR, hscI, _, _, _, _, _, hl, _⟩ := loadInventoryState_ok hload
  have hsto : ∀ change ∈ db.changes, change.lot.scopeId = scopeId →
      change.sequence ≤ current.lastChangeSequence := by
    intro change hch hsc
    rw [hl]
    exact h.numbered change hch scopeRow hscR (hscI.trans hsc.symm)
  have hgrows : current.lastChangeSequence ≤ reconciliation.state.lastChangeSequence := by
    rw [hrec.lastChangeSequence]
    exact Nat.le_add_right _ _
  refine
    { ordered := ?_
      numbered := ?_
      current_latest := ?_
      retired_latest := fun change hch => h.stepped_retired hs hfrom hch
      revision_le := ?_
      revision_current := fun row hrow => h.stepped_revision_current hs hfrom hrow
      content := fun row hrow => h.stepped_content hs hfrom hnx hrow }
  · intro a ha b hb hlot hlt
    rw [hs.changes, mem_append] at ha hb
    rcases ha with ha | ha
    · rcases hb with hb | hb
      · exact h.ordered a ha b hb hlot hlt
      · obtain ⟨step, hst, hlog⟩ := hs.row_step b hb
        have hle := le_latestRevision ha
        rw [hlot, hlog.lot] at hle
        rw [hlog.lotRevision]
        exact lt_of_le_of_lt hle (hfrom.growth step hst hlog.pending)
    · rcases hb with hb | hb
      · obtain ⟨step, _, hlog⟩ := hs.row_step a ha
        have hsc : b.lot.scopeId = scopeId := by rw [← hlot, hlog.lot]
        have hbef := hsto b hb hsc
        have haft := (hseq a ha).1
        omega
      · rw [hs.rows_keyed.eq_of_key ha hb hlot] at hlt
        exact absurd hlt (lt_irrefl _)
  · intro change hch row hrow hsc
    rw [hw.scopes] at hrow
    obtain ⟨old, hold, rfl⟩ := mem_map.mp hrow
    rw [hs.changes, mem_append] at hch
    by_cases hsm : old.scopeId = scopeId
    · simp only [hsm, beq_self_eq_true, if_true, observedScopeRow] at hsc ⊢
      rcases hch with hch | hch
      · exact (hsto change hch hsc.symm).trans hgrows
      · exact (hseq change hch).2
    · simp only [beq_iff_eq, hsm, if_false] at hsc ⊢
      rcases hch with hch | hch
      · exact h.numbered change hch old hold hsc
      · obtain ⟨step, _, hlog⟩ := hs.row_step change hch
        refine absurd ?_ hsm
        rw [hsc, hlog.lot]
  · intro row hrow
    rcases (hs.current row).mp hrow with ⟨hold, hsc⟩ | ⟨lot, ⟨step, hst, hlot⟩, rfl⟩
    · rw [h.current_latest row hold, hs.latest_other]
      intro step _ heq
      exact hsc (congrArg LotRef.scopeId heq)
    · have hlat := hs.latest_step hfrom hst
      rw [← next_lotId hlot, ← next_revision hlot] at hlat
      exact hlat.symm
  · intro row hrow
    rcases (hs.lotRevisions row).mp hrow with hold | ⟨step, hst, _, hsc, hlot⟩
    · exact (h.revision_le row hold).trans (hs.latest_le _)
    · have hlat := hs.latest_step hfrom hst
      rw [← next_lotId hlot, ← next_revision hlot, ← hsc] at hlat
      exact hlat.ge

theorem History.ensureScope (hc : Constraints db) (h : History db) {scope : BenefitScope}
    (hok : ensureScope db scope scopeId = .ok next) : History next := by
  rcases ensureScope_ok hok with ⟨rfl, _⟩ | ⟨hfr, rfl⟩
  · exact h
  · refine { h with numbered := ?_ }
    intro change hch row hrow hsc
    rcases mem_append.mp hrow with hrow | hrow
    · exact h.numbered change hch row hrow hsc
    · have hsto := hc.change_scope change hch
      rw [mem_singleton.mp hrow, freshScopeRow] at hsc
      rw [← hsc, hfr] at hsto
      cases hsto

/-- An observation that is published was reconciled with the loaded lots. -/
theorem published_reconciled {current : BenefitInventoryState} {scope : BenefitScope}
    (hload : loadInventoryState sha db scope scopeId obs.lots = .ok current)
    (hreco : reconcileInventory sha current obs = .ok reconciliation)
    (hsta : reconciliation.status = .freshnessOnly ∨ reconciliation.status = .changed) :
    Reconciled sha current obs (plannedSteps current.lots obs)
      reconciliation := by
  rcases reconcileInventory_ok (loadInventoryState_lots hload).1 hreco with
    ⟨hno, _⟩ | ⟨_, hrec⟩
  · rcases hsta with hsta | hsta <;> rw [hsta] at hno <;> simp at hno
  · exact hrec

theorem History.applyBenefitObservation (hc : Constraints db) (h : History db)
    {res : BenefitApplyResult}
    (hok : applyBenefitObservation sha db obs = .ok (next, res)) : History next := by
  obtain ⟨ensured, current, reconciliation, hens, hload, hrec, _, hwr⟩ :=
    applyBenefitObservation_ok hok
  have hb := h.ensureScope hc hens
  rcases hwr with ⟨_, rfl⟩ | ⟨hsta, hpub⟩
  · exact hb
  · exact hb.written (hc.ensureScope hens) hload
      (published_reconciled hload hrec hsta) hpub.toWritten
      (hc.applyBenefitObservation hok)

/-! ### The other calls -/

section Maintained

variable {changes : List ChangeRow} {revs : List LotRevisionRow} {dels : List DeliveryRow}
  (hc : Constraints db) (h : History db)
  (hm : Maintained scopeId db changes revs dels next)

include hc h hm

/-- A page deletes no change at a logical revision. -/
theorem Maintained.latestRevision_eq (lot : LotRef) :
    latestRevision next.changes lot = latestRevision db.changes lot := by
  refine le_antisymm ?_ ?_
  · rw [latestRevision_le_iff, hm.changes]
    rintro change hch rfl
    exact le_latestRevision (mem_of_mem_filter hch)
  · by_contra hlt
    obtain ⟨latest, hmem, rfl, hlate⟩ := @exists_latestRevision db.changes lot (by omega)
    have hkp : latest ∈ next.changes := by
      rw [hm.changes, mem_filter, all_eq_true]
      refine ⟨hmem, ?_⟩
      intro old hold
      rw [Bool.not_eq_true', ← Bool.not_eq_true, Bool.and_eq_true, beq_iff_eq, beq_iff_eq]
      rintro ⟨_, hid⟩
      obtain ⟨holdM, newer, hnw, hlot, hlat⟩ := hm.changes_followed old hold
      rw [← hc.changes.eq_of_key hmem holdM hid] at hlot hlat
      have hgrea := h.ordered latest hmem newer hnw hlot.symm hlat
      have hle := le_latestRevision hnw
      rw [hlot] at hle
      omega
    have hle := le_latestRevision hkp
    omega

theorem History.maintained : History next := by
  have hlat := hm.latestRevision_eq hc h
  refine ⟨?_, ?_, ?_, ?_, ?_, ?_, ?_⟩
  · exact fun a ha b hb => h.ordered a (hm.mem_changes ha) b (hm.mem_changes hb)
  · rw [hm.scopes]
    exact fun change hmem => h.numbered change (hm.mem_changes hmem)
  · intro row hrow
    rw [hm.current] at hrow
    rw [hlat]
    exact h.current_latest row hrow
  · intro change hmem
    rw [hlat, hm.current]
    exact h.retired_latest change (hm.mem_changes hmem)
  · intro row hrow
    rw [hlat]
    exact h.revision_le row (hm.mem_lotRevisions hrow)
  · intro row hrow
    rw [hlat, hm.current]
    exact h.revision_current row (hm.mem_lotRevisions hrow)
  · intro row hrow
    have hsto := (Constraints.maintained hm hc).current_stored row hrow
    rw [hm.current] at hrow
    obtain ⟨revision, hmem, hcon⟩ := h.content row hrow
    obtain ⟨kept, hkp, href⟩ := revisionStored_iff.mp hsto
    have hsm : kept = revision := by
      refine hc.lotRevisions.eq_of_key (hm.mem_lotRevisions hkp) hmem ?_
      rw [href, hcon]
      rfl
    exact ⟨kept, hkp, hsm ▸ hcon⟩

end Maintained

/-- Every call that commits keeps the history. -/
theorem History.call (hc : Constraints db) (h : History db) {call : BenefitCall}
    {evs : List ReminderEvent} (hok : callBenefit sha db call = .ok (next, evs)) :
    History next := by
  cases callBenefit_ok hok with
  | observe hcl => exact h.applyBenefitObservation hc hcl
  | setOverride hcl =>
    rw [setBenefitReminderOverride_frame hcl]
    exact { h with }
  | setGlobalProfile hcl =>
    rw [setBenefitReminderGlobalProfile_frame hcl]
    exact { h with }
  | processDue hcl =>
    rw [(processDueBenefitReminders_frame hcl).2]
    exact { h with }
  | acknowledge hcl =>
    rw [acknowledgeBenefitReminders_frame hcl]
    exact { h with }
  | maintain hpg => exact h.maintained hc hpg

end TokenMaster.Benefits
