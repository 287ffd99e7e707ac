import TokenMaster.Benefits.History

/-!
# TokenMaster.Benefits.Revisions — revisions are never used twice

Two tables hold revisions: a change row has the revision that it leads to, also for a retirement, and
a revision row has the content at its revision.  Old rows of both are deleted by maintenance.  Still, over a
whole run the revisions that are written for a lot strictly increase, because every written revision
is beyond the logical revision of its lot and the logical revision never falls.
-/

namespace TokenMaster.Benefits

open Domain Store List

variable {sha : Bytes → Bytes32} {db next : BenefitStore} {sid : BenefitScopeId}
  {calls : List BenefitCall}

def ChangeRow.ref (row : ChangeRow) : RevisionRef := ⟨row.lot, row.lotRevision⟩

/-! ### One call -/

/-- What a call adds to a table of revisions: at most one row for a lot, beyond its logical revision,
which never falls. -/
structure RevisionsGrow {α : Type} (rows : BenefitStore → List α) (ref : α → RevisionRef)
    (db next : BenefitStore) : Prop where
  latest_le : ∀ lot, latestRevision db.changes lot ≤ latestRevision next.changes lot
  keyed : Keyed ref (rows next)
  fresh : ∀ row ∈ rows next, row ∉ rows db →
    latestRevision db.changes (ref row).lot < (ref row).revision ∧
      (ref row).revision = latestRevision next.changes (ref row).lot

/-- Changes of a lot have different revisions. -/
theorem History.changes_keyed (hc : Constraints db) (h : History db) :
    Keyed ChangeRow.ref db.changes := by
  refine hc.sequences.of_imp ?_
  intro a ha b hb href
  have hlot : a.lot = b.lot := congrArg RevisionRef.lot href
  have hrev : a.lotRevision = b.lotRevision := congrArg RevisionRef.revision href
  have hseq : a.sequence = b.sequence := by
    rcases Nat.lt_trichotomy a.sequence b.sequence with hlt | heq | hgt
    · have hless := h.ordered a ha b hb hlot hlt
      omega
    · exact heq
    · have hless := h.ordered b hb a ha hlot.symm hgt
      omega
  rw [hlot, hseq]

section Growth

variable {α : Type} {rows : BenefitStore → List α} {ref : α → RevisionRef}

/-- A call that writes no row of the table and no change. -/
theorem revisionsGrow_subset (hkd : Keyed ref (rows next))
    (hrs : ∀ row ∈ rows next, row ∈ rows db)
    (hlat : ∀ lot, latestRevision next.changes lot = latestRevision db.changes lot) :
    RevisionsGrow rows ref db next :=
  ⟨fun lot => (hlat lot).ge, hkd, fun row hrow hnew => absurd (hrs row hrow) hnew⟩

end Growth

/-- A call makes both tables of revisions grow. -/
structure CallGrows (db next : BenefitStore) : Prop where
  changes : RevisionsGrow (·.changes) ChangeRow.ref db next
  lotRevisions : RevisionsGrow (·.lotRevisions) LotRevisionRow.ref db next

theorem callGrows_same (hc : Constraints next) (h : History next)
    (hchs : next.changes = db.changes) (hrevs : next.lotRevisions = db.lotRevisions) :
    CallGrows db next := by
  constructor
  · exact revisionsGrow_subset (h.changes_keyed hc) (fun row hrow => hchs ▸ hrow)
      fun lot => by rw [hchs]
  · exact revisionsGrow_subset hc.lotRevisions (fun row hrow => hrevs ▸ hrow)
      fun lot => by rw [hchs]

theorem callGrows_stepped {steps : List LotStep} {rows : List ChangeRow}
    (hs : Stepped db sid steps rows next) (hfrom : StepsFrom db sid steps)
    (hc : Constraints next) (h : History next) : CallGrows db next := by
  constructor
  · refine ⟨hs.latest_le, h.changes_keyed hc, ?_⟩
    intro row hrow hnew
    rw [hs.changes] at hrow
    obtain ⟨step, hst, hlog⟩ := hs.row_step row ((mem_append.mp hrow).resolve_left hnew)
    show latestRevision db.changes row.lot < row.lotRevision ∧
      row.lotRevision = latestRevision next.changes row.lot
    rw [hlog.lot, hlog.lotRevision, hs.latest_step hfrom hst]
    exact ⟨hfrom.growth step hst hlog.pending, rfl⟩
  · refine ⟨hs.latest_le, hc.lotRevisions, ?_⟩
    intro row hrow hnew
    obtain ⟨step, hst, hpd, hsc, hnx⟩ := 
      ((hs.lotRevisions row).mp hrow).resolve_left hnew
    have hlot : row.ref.lot = ⟨sid, step.lotId⟩ := by
      rw [← LotStep.next_lotId hnx, ← hsc]
      rfl
    have hrev : row.ref.revision = step.revision := LotStep.next_revision hnx
    rw [hlot, hrev, hs.latest_step hfrom hst]
    exact ⟨hfrom.growth step hst hpd, rfl⟩

section

variable (hc : Constraints db) (h : History db) {obs : BenefitInventoryObservation}
  {res : BenefitApplyResult}

include hc h

/-- What an observation writes, lot by lot. -/
theorem applyBenefitObservation_stepped
    (hok : applyBenefitObservation sha db obs = .ok (next, res)) :
    (next.changes = db.changes ∧ next.lotRevisions = db.lotRevisions) ∨
      ∃ ensured steps rows, ensured.changes = db.changes ∧ ensured.lotRevisions = db.lotRevisions ∧
        Stepped ensured (benefitScopeId sha obs.scope) steps rows next ∧
        StepsFrom ensured (benefitScopeId sha obs.scope) steps := by
  obtain ⟨ensured, cur, recn, hens, hld, hreco, _, hwr⟩ :=
    applyBenefitObservation_ok hok
  have htb : ensured.changes = db.changes ∧ ensured.lotRevisions = db.lotRevisions := by
    rw [ensureScope_frame hens]
    exact ⟨rfl, rfl⟩
  rcases hwr with ⟨_, rfl⟩ | ⟨hsta, hpub⟩
  · exact .inl htb
  · have hrec := published_reconciled hld hreco hsta
    obtain ⟨rows, hs, _⟩ := written_stepped hrec hpub.toWritten
    exact .inr ⟨ensured, _, rows, htb.1, htb.2, hs,
      stepsFrom_prior (hc.ensureScope hens) (h.ensureScope hc hens) hld hrec⟩

theorem callGrows_observe (hok : applyBenefitObservation sha db obs = .ok (next, res))
    (hnx : Constraints next ∧ History next) : CallGrows db next := by
  rcases applyBenefitObservation_stepped hc h hok with
    ⟨hchs, hrevs⟩ | ⟨ensured, steps, rows, hchs, hrevs, hs, hfrom⟩
  · exact callGrows_same hnx.1 hnx.2 hchs hrevs
  · have hgrows := callGrows_stepped hs hfrom hnx.1 hnx.2
    obtain ⟨⟨hle, hkd, hfr⟩, ⟨hle', hkd', hfr'⟩⟩ := hgrows
    simp only [hchs, hrevs] at hle hfr hle' hfr'
    exact ⟨⟨hle, hkd, hfr⟩, ⟨hle', hkd', hfr'⟩⟩

theorem callGrows_maintained {chs : List ChangeRow} {revs : List LotRevisionRow}
    {dels : List DeliveryRow} (hm : Maintained sid db chs revs dels next) :
    CallGrows db next := by
  have hlat := hm.latestRevision_eq hc h
  constructor
  · exact revisionsGrow_subset ((h.maintained hc hm).changes_keyed (.maintained hm hc))
      (fun _ => hm.mem_changes) hlat
  · exact revisionsGrow_subset (Constraints.maintained hm hc).lotRevisions
      (fun _ => hm.mem_lotRevisions) hlat

/-- Every call that commits makes the tables grow. -/
theorem callGrows_call {call : BenefitCall} {evs : List ReminderEvent}
    (hok : callBenefit sha db call = .ok (next, evs)) : CallGrows db next := by
  have hnx : Constraints next ∧ History next := ⟨hc.call hok, h.call hc hok⟩
  cases callBenefit_ok hok with
  | observe hcl => exact callGrows_observe hc h hcl hnx
  | setOverride hcl =>
    have hend := setBenefitReminderOverride_frame hcl
    exact callGrows_same hnx.1 hnx.2 (by rw [hend]) (by rw [hend])
  | setGlobalProfile hcl =>
    have hend := setBenefitReminderGlobalProfile_frame hcl
    exact callGrows_same hnx.1 hnx.2 (by rw [hend]) (by rw [hend])
  | processDue hcl =>
    have hend := (processDueBenefitReminders_frame hcl).2
    exact callGrows_same hnx.1 hnx.2 (by rw [hend]) (by rw [hend])
  | acknowledge hcl =>
    have hend := acknowledgeBenefitReminders_frame hcl
    exact callGrows_same hnx.1 hnx.2 (by rw [hend]) (by rw [hend])
  | maintain hpg => exact callGrows_maintained hc h hpg

theorem callGrows_step (call : BenefitCall) :
    CallGrows db (stepBenefit sha db call).1 ∧ Constraints (stepBenefit sha db call).1 ∧
      History (stepBenefit sha db call).1 := by
  unfold stepBenefit
  cases hcl : callBenefit sha db call with
  | error error => exact ⟨callGrows_same hc h rfl rfl, hc, h⟩
  | ok res => exact ⟨callGrows_call hc h hcl, hc.call hcl, h.call hc hcl⟩

end

/-! ### Runs -/

section Runs

variable {α : Type} [DecidableEq α] (rows : BenefitStore → List α)

/-- The rows of a table that the calls of a run write, in the order of the calls. -/
def rowsWritten (sha256 : Bytes → Bytes32) : BenefitStore → List BenefitCall → List α
  | _, [] => []
  | db, call :: calls =>
    ((rows (stepBenefit sha256 db call).1).filter fun row => decide (row ∉ rows db)) ++
      rowsWritten sha256 (stepBenefit sha256 db call).1 calls

theorem rowsWritten_append (db : BenefitStore) (calls later : List BenefitCall) :
    rowsWritten rows sha db (calls ++ later) = rowsWritten rows sha db calls ++
      rowsWritten rows sha (runBenefit sha db calls).1 later := by
  induction calls generalizing db with
  | nil => rfl
  | cons call calls ih =>
    rw [cons_append, rowsWritten, rowsWritten, ih, append_assoc]
    rfl

/-- A row that a run leaves was there before or was written. -/
theorem mem_rowsWritten {row : α} (h : row ∈ rows (runBenefit sha db calls).1) :
    row ∈ rows db ∨ row ∈ rowsWritten rows sha db calls := by
  induction calls generalizing db with
  | nil => exact .inl h
  | cons call calls ih =>
    rw [rowsWritten, mem_append, mem_filter, decide_eq_true_iff]
    by_cases hold : row ∈ rows db
    · exact .inl hold
    · rcases @ih (stepBenefit sha db call).1 h with hnx | hlat
      · exact .inr (.inl ⟨hnx, hold⟩)
      · exact .inr (.inr hlat)

variable {rows} {ref : α → RevisionRef}

/-- Over a run the written revisions of a lot increase, from its logical revision on. -/
theorem rowsWritten_increasing
    (hgrows : ∀ {db next : BenefitStore}, CallGrows db next → RevisionsGrow rows ref db next)
    (hc : Constraints db) (h : History db) (calls : List BenefitCall) :
    (∀ row ∈ rowsWritten rows sha db calls,
        latestRevision db.changes (ref row).lot < (ref row).revision) ∧
      (rowsWritten rows sha db calls).Pairwise fun a b =>
        (ref a).lot = (ref b).lot → (ref a).revision < (ref b).revision := by
  induction calls generalizing db with
  | nil => exact ⟨by simp [rowsWritten], .nil⟩
  | cons call calls ih =>
    obtain ⟨hcl, hc', h'⟩ := @callGrows_step sha db hc h call
    have hgr := hgrows hcl
    obtain ⟨hbeyond, hpw⟩ := ih hc' h'
    have hfr : ∀ row ∈ (rows (stepBenefit sha db call).1).filter
        (fun row => decide (row ∉ rows db)),
        latestRevision db.changes (ref row).lot < (ref row).revision ∧ (ref row).revision =
          latestRevision (stepBenefit sha db call).1.changes (ref row).lot := by
      intro row hrow
      rw [mem_filter, decide_eq_true_iff] at hrow
      exact hgr.fresh row hrow.1 hrow.2
    constructor
    · intro row hrow
      rcases mem_append.mp hrow with hnow | hlat
      · exact (hfr row hnow).1
      · exact lt_of_le_of_lt (hgr.latest_le _) (hbeyond row hlat)
    · refine pairwise_append.mpr ⟨?_, hpw, ?_⟩
      · -- one call writes at most one revision of a lot
        have hkd := hgr.keyed.filter fun row => decide (row ∉ rows db)
        unfold Keyed List.Nodup at hkd
        rw [pairwise_map] at hkd
        refine hkd.imp_of_mem ?_
        intro a b ha hb hne hlot
        refine absurd ?_ hne
        have hrev : (ref a).revision = (ref b).revision := by
          rw [(hfr a ha).2, (hfr b hb).2, hlot]
        calc ref a = ⟨(ref a).lot, (ref a).revision⟩ := rfl
          _ = ⟨(ref b).lot, (ref b).revision⟩ := by rw [hlot, hrev]
          _ = ref b := rfl
      · intro a ha b hb hlot
        rw [(hfr a ha).2, hlot]
        exact hbeyond b hb

end Runs

theorem history_run (sha : Bytes → Bytes32) (calls : List BenefitCall) :
    History (runBenefit sha .empty calls).1 := by
  suffices h : ∀ db, Constraints db → History db → History (runBenefit sha db calls).1 from
    h .empty constraints_empty history_empty
  induction calls with
  | nil => exact fun db _ h => h
  | cons call calls ih =>
    intro db hc h
    obtain ⟨_, hc', h'⟩ := @callGrows_step sha db hc h call
    exact ih _ hc' h'

/-- The revisions that the changes of a run write. -/
def revisionsWritten (sha256 : Bytes → Bytes32) (calls : List BenefitCall) : List RevisionRef :=
  (rowsWritten (·.changes) sha256 .empty calls).map ChangeRow.ref

/-- The revision rows, so the contents of lots, that a run writes. -/
def contentsWritten (sha256 : Bytes → Bytes32) (calls : List BenefitCall) : List LotRevisionRow :=
  rowsWritten (·.lotRevisions) sha256 .empty calls

theorem contentsWritten_increasing (sha : Bytes → Bytes32) (calls : List BenefitCall) :
    (contentsWritten sha calls).Pairwise fun a b =>
      a.ref.lot = b.ref.lot → a.revision < b.revision :=
  (rowsWritten_increasing CallGrows.lotRevisions constraints_empty history_empty calls).2

/-- Every revision row of every state of a run is written once in the run. -/
theorem mem_contentsWritten {n : ℕ} {row : LotRevisionRow}
    (h : row ∈ (runBenefit sha .empty (calls.take n)).1.lotRevisions) :
    row ∈ contentsWritten sha calls := by
  rcases mem_rowsWritten (·.lotRevisions) h with hold | hwrt
  · cases hold
  · rw [contentsWritten, ← take_append_drop n calls, rowsWritten_append]
    exact mem_append_left _ hwrt

theorem contentsWritten_keyed (sha : Bytes → Bytes32) (calls : List BenefitCall) :
    Keyed LotRevisionRow.ref (contentsWritten sha calls) := by
  unfold Keyed List.Nodup
  rw [pairwise_map]
  refine (contentsWritten_increasing sha calls).imp ?_
  intro a b hless heq
  have hlt := hless (congrArg RevisionRef.lot heq)
  have hrev : a.revision = b.revision := congrArg RevisionRef.revision heq
  omega

/-- **Revisions are never reused.**  Over every run the revisions that changes write for a lot strictly
increase, and so do those of the written contents.  In any two states of the run, two revision rows
or two current rows with the same scope, lot and revision are equal. -/
theorem benefit_revisions_never_reused (sha256 : Bytes → Bytes32) (calls : List BenefitCall) :
    ((revisionsWritten sha256 calls).Pairwise fun a b => a.lot = b.lot → a.revision < b.revision) ∧
    ((contentsWritten sha256 calls).Pairwise fun a b =>
      a.ref.lot = b.ref.lot → a.revision < b.revision) ∧
    ∀ m n,
      (∀ a ∈ (runBenefit sha256 .empty (calls.take m)).1.lotRevisions,
        ∀ b ∈ (runBenefit sha256 .empty (calls.take n)).1.lotRevisions, a.ref = b.ref → a = b) ∧
      ∀ a ∈ (runBenefit sha256 .empty (calls.take m)).1.current,
        ∀ b ∈ (runBenefit sha256 .empty (calls.take n)).1.current, a.ref = b.ref → a = b := by
  refine ⟨?_, contentsWritten_increasing sha256 calls, ?_⟩
  · unfold revisionsWritten
    rw [pairwise_map]
    exact (rowsWritten_increasing CallGrows.changes constraints_empty history_empty calls).2
  · intro m n
    have hrs : ∀ a ∈ (runBenefit sha256 .empty (calls.take m)).1.lotRevisions,
        ∀ b ∈ (runBenefit sha256 .empty (calls.take n)).1.lotRevisions, a.ref = b.ref → a = b := by
      intro a ha b hb href
      exact (contentsWritten_keyed sha256 calls).eq_of_key (mem_contentsWritten ha)
        (mem_contentsWritten hb) href
    refine ⟨hrs, ?_⟩
    intro a ha b hb href
    obtain ⟨contentA, hconA, rfl⟩ := (history_run sha256 (calls.take m)).content a ha
    obtain ⟨contentB, hconB, rfl⟩ := (history_run sha256 (calls.take n)).content b hb
    rw [hrs contentA hconA contentB hconB href]

/-- A lot is awarded, used, retired and observed again. -/
example :
    (revisionsWritten lastBytes [
      .observe (exampleObservation 1 0 (some (exampleLot .available))),
      .observe (exampleObservation 2 1 (some (exampleLot .activated))),
      .observe (exampleObservation 3 2 none),
      .observe (exampleObservation 4 3 (some (exampleLot .available)))]).map (·.revision) =
        [1, 2, 3, 4] := by
  decide +kernel

end TokenMaster.Benefits
