import TokenMaster.Benefits.Tables

/-!
# TokenMaster.Benefits.Constraints — the keys and references of the benefit schema

`Constraints` lists the primary keys, unique indexes, foreign keys and the check on labels.  An insert checks the ones it
could break and a delete only removes rows that nothing refers to, so every call keeps them.
-/

namespace TokenMaster.Benefits

open Domain Store TokenMaster.Except List

variable {sha : Bytes → Bytes32} {db next : BenefitStore} {scopeId id : BenefitScopeId}
  {ref : RevisionRef}

structure Constraints (db : BenefitStore) : Prop where
  scopes : Keyed (fun row => row.scopeId) db.scopes
  lotRevisions : Keyed (fun row => row.ref) db.lotRevisions
  revision_scope : ∀ row ∈ db.lotRevisions, db.scopeStored row.scopeId = true
  labels : ∀ row ∈ db.lotRevisions, labelColumnAccepts row.lot.labelKey = true
  current : Keyed (fun row => row.ref.lot) db.current
  current_stored : ∀ row ∈ db.current, db.revisionStored row.ref = true
  changes : Keyed (fun row => row.changeId) db.changes
  sequences : Keyed (fun row => (row.lot.scopeId, row.sequence)) db.changes
  change_scope : ∀ row ∈ db.changes, db.scopeStored row.lot.scopeId = true
  before_stored : ∀ row ∈ db.changes, ∀ r, row.beforeRevision = some r →
    db.revisionStored ⟨row.lot, r⟩ = true
  after_stored : ∀ row ∈ db.changes, ∀ r, row.afterRevision = some r →
    db.revisionStored ⟨row.lot, r⟩ = true
  profiles : Keyed (fun row => row.key) db.profiles
  due : Keyed (fun row => row.deliveryId) db.due
  due_stored : ∀ row ∈ db.due, db.revisionStored row.ref = true
  deliveries : Keyed (fun row => row.deliveryId) db.deliveries
  delivery_stored : ∀ row ∈ db.deliveries, db.revisionStored row.ref = true
  ack_stored : ∀ ack ∈ db.acks, ∃ row ∈ db.deliveries, row.deliveryId = ack.deliveryId

theorem constraints_empty : Constraints .empty where
  scopes := .nil
  lotRevisions := .nil
  revision_scope := by simp [BenefitStore.empty]
  labels := by simp [BenefitStore.empty]
  current := .nil
  current_stored := by simp [BenefitStore.empty]
  changes := .nil
  sequences := .nil
  change_scope := by simp [BenefitStore.empty]
  before_stored := by simp [BenefitStore.empty]
  after_stored := by simp [BenefitStore.empty]
  profiles := nodup_singleton _
  due := .nil
  due_stored := by simp [BenefitStore.empty]
  deliveries := .nil
  delivery_stored := by simp [BenefitStore.empty]
  ack_stored := by simp [BenefitStore.empty]

theorem forall_mem_append_one {α : Type} {p : α → Prop} {l : List α} {b : α} (h : ∀ a ∈ l, p a)
    (hb : p b) : ∀ a ∈ l ++ [b], p a := by
  intro a ha
  rcases mem_append.mp ha with ha | ha
  · exact h a ha
  · rw [mem_singleton.mp ha]
    exact hb

/-- Rows that stay references when the revision table grows. -/
theorem revisionStored_append {added : List LotRevisionRow} (h : db.revisionStored ref = true) :
    ({ db with lotRevisions := db.lotRevisions ++ added } : BenefitStore).revisionStored ref =
      true := by
  obtain ⟨row, hrow, href⟩ := revisionStored_iff.mp h
  exact revisionStored_iff.mpr ⟨row, mem_append_left _ hrow, href⟩

theorem scopeStored_append {added : List ScopeRow} (h : db.scopeStored id = true) :
    ({ db with scopes := db.scopes ++ added } : BenefitStore).scopeStored id = true := by
  obtain ⟨row, hrow, hid⟩ := scopeStored_iff.mp h
  exact scopeStored_iff.mpr ⟨row, mem_append_left _ hrow, hid⟩

namespace Constraints

variable {scope : BenefitScope}

section

variable (h : Constraints db) {ch : BenefitChange} {observedAtMs : ℤ}

include h

/-- The state row is not part of any key or reference. -/
theorem withState (state : GlobalBenefitState) : Constraints { db with state := state } := { h with }

theorem ensureScope (hok : ensureScope db scope scopeId = .ok next) :
    Constraints next := by
  rcases ensureScope_ok hok with ⟨rfl, _⟩ | ⟨hfr, rfl⟩
  · exact h
  · refine { h with
      scopes := h.scopes.append_one ?_
      revision_scope := fun row hrow => scopeStored_append (h.revision_scope row hrow)
      change_scope := fun row hrow => scopeStored_append (h.change_scope row hrow) }
    intro row hrow heq
    rw [BenefitStore.scopeStored, any_eq_false] at hfr
    exact hfr row hrow (by simpa [freshScopeRow] using heq)

theorem insertAfter (hok : insertAfter db scopeId ch = .ok next) :
    Constraints next := by
  obtain ⟨rfl, hfr, _⟩ := insertAfter_ok hok
  cases hrow : revisionRow? scopeId ch with
  | none => simpa [hrow] using h
  | some row =>
    obtain ⟨hsc, hlabel, hnew⟩ := hfr row hrow
    have hscI : row.scopeId = scopeId := by
      unfold revisionRow? at hrow
      split at hrow
      · cases hrow
      · split_ifs at hrow
        cases hrow
        rfl
    exact { h with
      lotRevisions := h.lotRevisions.append_one (not_revisionStored_iff.mp hnew)
      revision_scope := forall_mem_append_one h.revision_scope (hscI ▸ hsc)
      labels := forall_mem_append_one h.labels hlabel
      current_stored := fun r hr => revisionStored_append (h.current_stored r hr)
      before_stored := fun c hc r hr => revisionStored_append (h.before_stored c hc r hr)
      after_stored := fun c hc r hr => revisionStored_append (h.after_stored c hc r hr)
      due_stored := fun r hr => revisionStored_append (h.due_stored r hr)
      delivery_stored := fun r hr => revisionStored_append (h.delivery_stored r hr) }

theorem insertChange (hok : insertChange db scopeId observedAtMs ch = .ok next) :
    Constraints next := by
  obtain ⟨row, rfl, hrow, hsc, hbef, haft, hfr⟩ := insertChange_ok hok
  have hid : row.lot.scopeId = scopeId := by rw [hrow.lot]
  exact { h with
    changes := h.changes.append_one fun other hoth => (hfr other hoth).1
    sequences := h.sequences.append_one fun other hoth => (hfr other hoth).2
    change_scope := forall_mem_append_one h.change_scope (hid ▸ hsc)
    before_stored := forall_mem_append_one h.before_stored hbef
    after_stored := forall_mem_append_one h.after_stored haft }

theorem writeChanges {changes : List BenefitChange}
    (hok : changes.foldlM (writeChange scopeId observedAtMs) db = .ok next) : Constraints next := by
  refine foldlM_keeps hok h ?_
  intro ch _ before after hbef hst
  obtain ⟨mid, hmid, hst⟩ := bind_eq_ok.mp hst
  exact (hbef.insertAfter hmid).insertChange hst

theorem deleteDue (scopeId : BenefitScopeId) : Constraints (db.deleteDue scopeId) :=
  { h with
    due := h.due.filter _
    due_stored := fun row hrow => h.due_stored row (mem_of_mem_filter hrow) }

theorem deleteCurrent (scopeId : BenefitScopeId) : Constraints (db.deleteCurrent scopeId) :=
  { h with
    current := h.current.filter _
    current_stored := fun row hrow => h.current_stored row (mem_of_mem_filter hrow) }

theorem insertCurrentLots {lots : List BenefitCurrentLot}
    (hok : lots.foldlM (insertCurrentLot scopeId) db = .ok next) : Constraints next := by
  refine foldlM_keeps hok h ?_
  intro lot _ before after hbef hst
  obtain ⟨rfl, hsto, hfr⟩ := insertCurrentLot_ok hst
  exact { hbef with
    current := hbef.current.append_one hfr
    current_stored := forall_mem_append_one hbef.current_stored hsto }

end

theorem scopeStored_map {f : ScopeRow → ScopeRow} (hf : ∀ row, (f row).scopeId = row.scopeId)
    (h : db.scopeStored id = true) :
    ({ db with scopes := db.scopes.map f } : BenefitStore).scopeStored id = true := by
  obtain ⟨row, hrow, hid⟩ := scopeStored_iff.mp h
  exact scopeStored_iff.mpr ⟨f row, mem_map_of_mem hrow, (hf row).trans hid⟩

variable {obs : BenefitInventoryObservation} {res : BenefitProfileApplyResult}

theorem updateScope (h : Constraints db) {st : BenefitInventoryState}
    (hok : updateScope db scopeId st obs = .ok next) : Constraints next := by
  rw [updateScope_ok hok]
  have hkey : ∀ row : ScopeRow, (if row.scopeId == scopeId then
      observedScopeRow st obs row else row).scopeId = row.scopeId := by
    intro row
    split <;> rfl
  exact { h with
    scopes := h.scopes.map_of_key hkey
    revision_scope := fun row hrow => scopeStored_map hkey (h.revision_scope row hrow)
    change_scope := fun row hrow => scopeStored_map hkey (h.change_scope row hrow) }

theorem rebuildDue (h : Constraints db) {scope : BenefitScope} {lots : List BenefitCurrentLot}
    {prof : ReminderProfile} (hok : rebuildDue sha db scope scopeId lots prof = .ok next) :
    Constraints next := by
  obtain ⟨sched, _, hok⟩ := bind_eq_ok.mp hok
  refine foldlM_keeps hok h ?_
  intro due _ before after hbef hst
  rcases insertDue_ok hst with rfl | ⟨row, rfl, _, hsto, hfr⟩
  · exact hbef
  · exact { hbef with
      due := hbef.due.append_one hfr
      due_stored := forall_mem_append_one hbef.due_stored hsto }

theorem writeReconciliation (h : Constraints db) {recn : BenefitReconciliation}
    (hok : writeReconciliation sha db scopeId recn obs = .ok next) :
    Constraints next := by
  obtain ⟨db₁, h₁, hok⟩ := bind_eq_ok.mp hok
  obtain ⟨db₂, h₂, hok⟩ := bind_eq_ok.mp hok
  obtain ⟨db₃, h₃, hok⟩ := bind_eq_ok.mp hok
  obtain ⟨prof, _, hok⟩ := bind_eq_ok.mp hok
  have hclr := ((h.writeChanges h₁).deleteDue scopeId).deleteCurrent scopeId
  exact ((hclr.insertCurrentLots h₂).updateScope h₃).rebuildDue hok

theorem applyBenefitObservation (h : Constraints db) {res : BenefitApplyResult}
    (hok : applyBenefitObservation sha db obs = .ok (next, res)) :
    Constraints next := by
  obtain ⟨ensured, cur, recn, hens, _, _, _, hwr⟩ :=
    applyBenefitObservation_ok hok
  have hb := h.ensureScope hens
  rcases hwr with ⟨_, rfl⟩ | ⟨_, hpub⟩
  · exact hb
  · obtain ⟨written, hwrt, hnx⟩ := hpub.rows
    rw [hnx]
    exact (hb.writeReconciliation hwrt).withState _

theorem deleteProfile (h : Constraints db) (key : ProfileKey) :
    Constraints (db.deleteProfile key) :=
  { h with profiles := h.profiles.filter _ }

variable {prof : ReminderProfile}

theorem insertProfile (h : Constraints db) {key : ProfileKey}
    (hok : insertProfile db key prof = .ok next) : Constraints next := by
  obtain ⟨_, hfr, hok⟩ := bind_eq_ok.mp hok
  cases hok
  rw [ensure_eq_ok, Bool.not_eq_true', any_eq_false] at hfr
  exact { h with profiles := h.profiles.append_one fun row hrow => by simpa using hfr row hrow }

theorem setBenefitReminderOverride (h : Constraints db) {prof : Option ReminderProfile}
    (hok : setBenefitReminderOverride sha db scope prof = .ok (next, res)) :
    Constraints next := by
  obtain ⟨global, _, hok⟩ := bind_eq_ok.mp hok
  obtain ⟨_, _, hok⟩ := bind_eq_ok.mp hok
  obtain ⟨st, _, hok⟩ := bind_eq_ok.mp hok
  obtain ⟨replaced, hrep, hok⟩ := bind_eq_ok.mp hok
  obtain ⟨active, _, hok⟩ := bind_eq_ok.mp hok
  obtain ⟨rebuilt, hreb, hok⟩ := bind_eq_ok.mp hok
  obtain ⟨rev, _, hok⟩ := bind_eq_ok.mp hok
  obtain ⟨pend, _, hok⟩ := bind_eq_ok.mp hok
  obtain ⟨published, hpub, hok⟩ := bind_eq_ok.mp hok
  obtain ⟨_, _, hpub⟩ := bind_eq_ok.mp hpub
  have hb := (h.deleteDue (benefitScopeId sha scope)).deleteProfile
    (.scope (benefitScopeId sha scope))
  have hover : Constraints replaced := by
    cases prof with
    | none =>
      cases hrep
      exact hb
    | some prof => exact hb.insertProfile hrep
  cases hpub
  cases hok
  exact (hover.rebuildDue hreb).withState _

theorem rebuildProfileScopes (h : Constraints db) {pend pending' : ℕ}
    {scopes : List GlobalProfileScope}
    (hok : scopes.foldlM (rebuildProfileScope sha prof) (db, pend) = .ok (next, pending')) :
    Constraints next := by
  refine @foldlM_keeps _ _ _ (fun prog => Constraints prog.1) _ _ _ _ hok h ?_
  intro scope _ before after hbef hst
  obtain ⟨rebuilt, hreb, hst⟩ := bind_eq_ok.mp hst
  obtain ⟨count, _, hst⟩ := bind_eq_ok.mp hst
  cases hst
  exact (hbef.deleteDue scope.scopeId).rebuildDue hreb

theorem setBenefitReminderGlobalProfile (h : Constraints db)
    (hok : setBenefitReminderGlobalProfile sha db prof = .ok (next, res)) :
    Constraints next := by
  rcases setBenefitReminderGlobalProfile_ok hok with rfl | ⟨scopes, rebuilt, pend, _, _, hfo, hend⟩
  · exact h
  · have hrep : Constraints (db.withGlobalProfile prof) := by
      refine { h with profiles := (h.profiles.filter _).append_one ?_ }
      intro row hrow
      simpa using (mem_filter.mp hrow).2
    have hreb := hrep.rebuildProfileScopes hfo
    rcases hend with ⟨_, _, rfl⟩ | ⟨_, rfl⟩
    · exact hreb
    · exact hreb.withState _

variable {atMs : ℤ} {hpos : 0 < atMs}

theorem deliverCandidate {prog after : BenefitStore × List StoredDue} {cand : StoredDue}
    (h : Constraints prog.1)
    (hok : deliverCandidate atMs hpos prog cand = .ok after) :
    Constraints after.1 := by
  rcases deliverCandidate_ok hok with rfl | ⟨_, hsto, hfr, rfl⟩
  · exact h
  · exact { h with
      deliveries := h.deliveries.append_one hfr
      delivery_stored := forall_mem_append_one h.delivery_stored hsto
      ack_stored := by
        intro ack hack
        obtain ⟨row, hrow, hid⟩ := h.ack_stored ack hack
        exact ⟨row, mem_append_left _ hrow, hid⟩ }

theorem deliverCandidates (h : Constraints db) {cands delivered : List StoredDue}
    (hok : cands.foldlM (Benefits.deliverCandidate atMs hpos) (db, []) =
      .ok (next, delivered)) : Constraints next :=
  @foldlM_keeps _ _ _ (fun prog => Constraints prog.1) _ _ _ _ hok h
    fun _ _ _ _ hbef hst => hbef.deliverCandidate hst

theorem processDueBenefitReminders (h : Constraints db) {chan : NotificationChannel}
    {maxRows : ℕ} {done : ProcessedReminders}
    (hok : processDueBenefitReminders db atMs chan maxRows = .ok done) :
    Constraints done.db := by
  rcases processDueBenefitReminders_ok hok with ⟨hsm, _⟩ | ⟨_, _, _, hpos, hpg⟩
  · rw [hsm]
    exact h
  · obtain ⟨delivered, kept, hfo, hkp, _, _, hnx⟩ := deliverPage_ok hpg
    have hdeli := h.deliverCandidates hfo
    rw [hnx]
    refine { hdeli with
      due := hkp ▸ hdeli.due.filter _
      due_stored := ?_ }
    intro row hrow
    rw [hkp] at hrow
    exact hdeli.due_stored row (mem_of_mem_filter hrow)

theorem acknowledgeBenefitReminders (h : Constraints db) {deliveries : List BenefitReminderDelivery}
    {acknowledgedAtMs : ℤ} {acked : AcknowledgedReminders}
    (hok : acknowledgeBenefitReminders db deliveries acknowledgedAtMs = .ok acked) :
    Constraints acked.db := by
  refine @foldlM_keeps _ _ _ (fun prog => Constraints prog.1) _ _ _ _
    (acknowledgeBenefitReminders_ok hok) h ?_
  intro delivery _ before after hbef hst
  rcases acknowledgeDelivery_ok hst with rfl | ⟨hrow, _, rfl⟩
  · exact hbef
  · exact { hbef with ack_stored := forall_mem_append_one hbef.ack_stored hrow }

end Constraints

section Maintained

variable {changes : List ChangeRow} {revs : List LotRevisionRow} {deliveries : List DeliveryRow}
  (h : Maintained scopeId db changes revs deliveries next)

include h

/-- What names a revision keeps it through a page. -/
theorem Maintained.revisionStored (hsto : db.revisionStored ref = true)
    (hnmd : ({ db with changes := next.changes } : BenefitStore).references ref = true) :
    next.revisionStored ref = true := by
  obtain ⟨row, hrow, href⟩ := revisionStored_iff.mp hsto
  refine revisionStored_iff.mpr ⟨row, ?_, href⟩
  rw [h.lotRevisions, mem_filter, all_eq_true]
  refine ⟨hrow, ?_⟩
  intro rev hrev
  have horphan := h.revisions_orphan rev hrev
  have hne : row.ref ≠ rev.ref := by
    intro heq
    rw [← heq, href, hnmd] at horphan
    cases horphan
  simpa using hne

theorem Constraints.maintained (hdb : Constraints db) : Constraints next := by
  have hsc : ∀ id, db.scopeStored id = true → next.scopeStored id = true := by
    intro id hid
    rwa [BenefitStore.scopeStored, h.scopes]
  exact
    { scopes := h.scopes ▸ hdb.scopes
      lotRevisions := h.lotRevisions ▸ hdb.lotRevisions.filter _
      revision_scope := fun row hrow => hsc _ (hdb.revision_scope row (h.mem_lotRevisions hrow))
      labels := fun row hrow => hdb.labels row (h.mem_lotRevisions hrow)
      current := h.current ▸ hdb.current
      current_stored := by
        intro row hrow
        rw [h.current] at hrow
        refine h.revisionStored (hdb.current_stored row hrow) ?_
        simp only [BenefitStore.references, Bool.or_eq_true, any_eq_true]
        exact .inl (.inl (.inl ⟨row, hrow, by simp⟩))
      changes := h.changes ▸ hdb.changes.filter _
      sequences := h.changes ▸ hdb.sequences.filter _
      change_scope := fun row hrow => hsc _ (hdb.change_scope row (h.mem_changes hrow))
      before_stored := by
        intro row hrow r hr
        refine h.revisionStored (hdb.before_stored row (h.mem_changes hrow) r hr) ?_
        simp only [BenefitStore.references, Bool.or_eq_true, any_eq_true]
        exact .inl (.inl (.inr ⟨row, hrow, by simp [hr]⟩))
      after_stored := by
        intro row hrow r hr
        refine h.revisionStored (hdb.after_stored row (h.mem_changes hrow) r hr) ?_
        simp only [BenefitStore.references, Bool.or_eq_true, any_eq_true]
        exact .inl (.inl (.inr ⟨row, hrow, by simp [hr]⟩))
      profiles := h.profiles ▸ hdb.profiles
      due := h.due ▸ hdb.due
      due_stored := by
        intro row hrow
        rw [h.due] at hrow
        refine h.revisionStored (hdb.due_stored row hrow) ?_
        simp only [BenefitStore.references, Bool.or_eq_true, any_eq_true]
        exact .inl (.inr ⟨row, hrow, by simp⟩)
      deliveries := h.deliveries ▸ hdb.deliveries.filter _
      delivery_stored := by
        intro row hrow
        refine h.revisionStored (hdb.delivery_stored row (h.mem_deliveries hrow)) ?_
        simp only [BenefitStore.references, Bool.or_eq_true, any_eq_true]
        exact .inr ⟨row, h.mem_deliveries hrow, by simp⟩
      ack_stored := by
        intro ack hack
        rw [h.acks, mem_filter, Bool.not_eq_true', any_eq_false] at hack
        obtain ⟨row, hrow, hid⟩ := hdb.ack_stored ack hack.1
        refine ⟨row, ?_, hid⟩
        rw [h.deliveries, mem_filter, all_eq_true]
        refine ⟨hrow, ?_⟩
        intro delivery hdeli
        have hne := hack.2 delivery hdeli
        rw [beq_iff_eq, ← hid] at hne
        have hne' : ¬ row.deliveryId = delivery.deliveryId := fun heq => hne heq.symm
        simp [hne'] }

end Maintained

/-- Every call that commits keeps the constraints. -/
theorem Constraints.call (h : Constraints db) {call : BenefitCall} {evs : List ReminderEvent}
    (hok : callBenefit sha db call = .ok (next, evs)) : Constraints next := by
  cases callBenefit_ok hok with
  | observe hcl => exact h.applyBenefitObservation hcl
  | setOverride hcl => exact h.setBenefitReminderOverride hcl
  | setGlobalProfile hcl => exact h.setBenefitReminderGlobalProfile hcl
  | processDue hcl => exact h.processDueBenefitReminders hcl
  | acknowledge hcl => exact h.acknowledgeBenefitReminders hcl
  | maintain hpg => exact .maintained hpg h

end TokenMaster.Benefits
