import TokenMaster.Benefits.Constraints

/-!
# TokenMaster.Benefits.Counters — the counters of the state row and the rows they count

An observation replaces the current lots of its scope and moves the counter by the difference
between the new inventory and the loaded one.  The loaded inventory also holds the retired lots that
the observation mentions, and those have no current row: for each of them the counter falls one
behind the table.  All other counters follow their tables through every call.
-/

namespace TokenMaster.Benefits

open Domain Store List

variable {sha : Bytes → Bytes32} {db next : BenefitStore} {sid : BenefitScopeId}

/-! ### The checks -/

/-- The comparison of the counters with the tables, as the backup makes it. -/
def backupCountsAgree (db : BenefitStore) : Bool :=
  db.state.currentLotCount == db.current.length &&
    db.state.retainedChangeCount == db.changes.length &&
    db.state.pendingDueCount == db.due.length &&
    db.state.retainedDeliveryCount == db.deliveries.length

/-- `validate_benefit_state`, which runs when an archive is opened. -/
def validateBenefitState (db : BenefitStore) : Except StoreError Unit := do
  ensure .invalidStoredValue (db.state.currentLotCount == db.current.length &&
    db.state.retainedChangeCount == db.changes.length &&
    db.state.pendingDueCount == db.due.length &&
    db.state.retainedDeliveryCount == db.deliveries.length &&
    ((db.state.revision == 0 && db.state.lastPublishedAtMs.isNone) ||
      (decide (0 < db.state.revision) && db.state.lastPublishedAtMs.isSome)))
  ensure .invalidStoredValue ((db.profiles.countP fun row => row.key == .global) == 1 &&
    !db.profiles.any fun row => decide (maxReminderThresholds < row.profile.leadTimes.length))

/-- The counters agree with their tables, that of the current lots up to a drift. -/
structure Counted (drift : ℕ) (db : BenefitStore) : Prop where
  currentLots : db.state.currentLotCount + drift = db.current.length
  changes : db.state.retainedChangeCount = db.changes.length
  due : db.state.pendingDueCount = db.due.length
  deliveries : db.state.retainedDeliveryCount = db.deliveries.length
  published : db.state.revision = 0 ↔ db.state.lastPublishedAtMs = none
  unpublished : db.state.revision = 0 → db.due = []
  globalProfile : (db.profiles.countP fun row => row.key == .global) = 1

theorem counted_empty : Counted 0 .empty :=
  ⟨rfl, rfl, rfl, rfl, by decide, fun _ => rfl, by decide⟩

theorem Counted.backupCountsAgree (h : Counted 0 db) : backupCountsAgree db = true := by
  have hcur : db.state.currentLotCount = db.current.length := h.currentLots
  simp [Benefits.backupCountsAgree, hcur, h.changes, h.due, h.deliveries]

theorem Counted.validateBenefitState (h : Counted 0 db) : validateBenefitState db = .ok () := by
  have hcur : db.state.currentLotCount = db.current.length := h.currentLots
  have hpub : ((db.state.revision == 0 && db.state.lastPublishedAtMs.isNone) ||
      (decide (0 < db.state.revision) && db.state.lastPublishedAtMs.isSome)) = true := by
    by_cases hrev : db.state.revision = 0
    · simp [hrev, h.published.mp hrev]
    · have hso : db.state.lastPublishedAtMs ≠ none := fun hno => hrev (h.published.mpr hno)
      simp [hrev, Option.isSome_iff_ne_none, hso]
      omega
  have hprof : (db.profiles.any fun row =>
      decide (maxReminderThresholds < row.profile.leadTimes.length)) = false := by
    rw [any_eq_false]
    intro row _
    simpa using row.profile.leadTimes_length_le
  refine Except.bind_eq_ok.mpr ⟨(), ?_, ?_⟩
  · rw [ensure_eq_ok, hpub]
    simp [hcur, h.changes, h.due, h.deliveries]
  · rw [ensure_eq_ok, h.globalProfile, hprof]
    rfl

/-! ### Observations -/

theorem length_filterMap_of_isSome {α β : Type} {f : α → Option β} {l : List α}
    (h : ∀ a ∈ l, (f a).isSome = true) : (l.filterMap f).length = l.length := by
  induction l with
  | nil => rfl
  | cons a l ih =>
    obtain ⟨b, hb⟩ := Option.isSome_iff_exists.mp (h a (mem_cons_self ..))
    rw [filterMap_cons_some hb, length_cons, length_cons, ih fun x hx => h x (mem_cons_of_mem _ hx)]

/-- Every current row of a scope is loaded. -/
theorem Constraints.length_loadCurrentLots (h : Constraints db) (scopeId : BenefitScopeId) :
    (loadCurrentLots db scopeId).length =
      db.current.countP fun row => row.ref.lot.scopeId == scopeId := by
  rw [loadCurrentLots, length_filterMap_of_isSome, ← countP_eq_length_filter]
  intro row hrow
  obtain ⟨rev, hrev, href⟩ :=
    revisionStored_iff.mp (h.current_stored row (mem_of_mem_filter hrow))
  rw [Option.isSome_map, List.find?_isSome]
  exact ⟨rev, hrev, by simpa using href⟩

/-- The number of observed lots that the store has retired. -/
def retiredMentions (sha256 : Bytes → Bytes32) (db : BenefitStore)
    (observation : BenefitInventoryObservation) : ℕ :=
  observation.lots.countP fun lot =>
    (retiredLot? db ⟨benefitScopeId sha256 observation.scope, lot.lotId⟩).isSome

theorem length_hydrated (h : Constraints db) {seen : List BenefitLotObservation} :
    (hydrateRetiredObservedLots db sid seen (loadCurrentLots db sid)).length =
      (db.current.countP fun row => row.ref.lot.scopeId == sid) +
        seen.countP fun lot => (retiredLot? db ⟨sid, lot.lotId⟩).isSome := by
  have hfun : rehydrated? db sid (loadCurrentLots db sid) =
      fun seen => retiredLot? db ⟨sid, seen.lotId⟩ :=
    funext fun seen => rehydrated?_eq
  rw [hydrateRetiredObservedLots, length_append, h.length_loadCurrentLots, hfun,
    length_filterMap_eq_countP]

/-- A table loses the rows of one scope and gains others. -/
theorem length_replaced {α : Type} {p : α → Bool} {rows added : List α} :
    ((rows.filter fun row => !p row) ++ added).length + rows.countP p =
      rows.length + added.length := by
  have hspl := length_eq_countP_add_countP p (l := rows)
  have hrs : (rows.filter fun row => !p row).length = rows.countP fun row => ¬ p row = true := by
    rw [← countP_eq_length_filter]
    exact countP_congr fun row _ => by simp
  rw [length_append, hrs]
  omega

variable {drift : ℕ}

section

variable (hdb : Counted drift db) {result : BenefitProfileApplyResult}

include hdb

/-- **One observation.**  A written observation moves the counter of current lots away from the table
by the number of retired lots that it mentions; the other counters agree with their tables. -/
theorem Counted.applyBenefitObservation (hks : Constraints db)
    {observation : BenefitInventoryObservation} {result : BenefitApplyResult}
    (hok : applyBenefitObservation sha db observation = .ok (next, result)) :
    Counted (drift + if result.status = .duplicate ∨ result.status = .stale then 0
      else retiredMentions sha db observation) next := by
  obtain ⟨ensured, cur, recn, hens, hld, _, hsta, hwr⟩ :=
    applyBenefitObservation_ok hok
  have hks' := hks.ensureScope hens
  obtain ⟨hctd, hment⟩ : Counted drift ensured ∧
      retiredMentions sha ensured observation = retiredMentions sha db observation := by
    rw [ensureScope_frame hens]
    exact ⟨{ hdb with }, rfl⟩
  rw [hsta]
  rcases hwr with ⟨hnoop, rfl⟩ | ⟨hwrt, htb⟩
  · rw [if_pos hnoop, Nat.add_zero]
    exact hctd
  · have hnot : ¬ (recn.status = .duplicate ∨ recn.status = .stale) := by
      rcases hwrt with h | h <;> simp [h]
    obtain ⟨_, hp, _⟩ := loadInventoryState_lots hld
    obtain ⟨added, prof, hadd, hsch⟩ := htb.due
    have hpr : cur.lots.length = (ensured.current.countP fun row =>
          row.ref.lot.scopeId == benefitScopeId sha observation.scope) +
            retiredMentions sha db observation := by
      rw [hp.length_eq, length_hydrated hks', ← hment]
      rfl
    have hcur : next.current.length + (ensured.current.countP fun row =>
          row.ref.lot.scopeId == benefitScopeId sha observation.scope) =
        ensured.current.length + recn.state.lots.length := by
      rw [htb.current, ← length_map (currentRow (benefitScopeId sha observation.scope))]
      exact length_replaced
    have hrs := length_due_rebuilt hadd
    have hct := hsch.countDue_eq hadd
    obtain ⟨rows, hreco, hchs⟩ := htb.changes
    have hls := htb.lots_le
    have hcurL := hctd.currentLots
    have hpd := hctd.due
    rw [if_neg hnot]
    refine ⟨?_, ?_, ?_, ?_, ?_, ?_, htb.profiles ▸ hctd.globalProfile⟩ <;>
      simp only [htb.state]
    · omega
    · rw [hchs, length_append, ← hreco.length_eq, hctd.changes]
    · omega
    · rw [hctd.deliveries, htb.deliveries]
    · simp
    · exact fun h => absurd h (Nat.succ_ne_zero _)

/-! ### The other calls -/

theorem Counted.setBenefitReminderOverride {scope : BenefitScope} {prof : Option ReminderProfile}
    (hok : setBenefitReminderOverride sha db scope prof = .ok (next, result)) :
    Counted drift next := by
  obtain ⟨st, added, active, _, _, hle, hpub, rfl⟩ := setBenefitReminderOverride_ok hok
  have hrs := @length_due_rebuilt db { db with
    due := (db.due.filter fun row => row.ref.lot.scopeId != benefitScopeId sha scope) ++ added }
    _ added rfl
  have hpd := hdb.due
  refine ⟨hdb.currentLots, hdb.changes, ?_, hdb.deliveries, ?_, ?_, ?_⟩
  · change _ + _ - _ = _
    simp only at hrs ⊢
    omega
  · rw [Option.isSome_iff_ne_none] at hpub
    simp [hpub]
  · exact fun h => absurd h (Nat.succ_ne_zero _)
  · have hoth : ((db.profiles.filter fun row =>
        row.key != .scope (benefitScopeId sha scope)).countP fun row => row.key == .global) = 1 := by
      rw [countP_filter, ← hdb.globalProfile]
      refine countP_congr fun row _ => ?_
      by_cases hgl : row.key = .global <;> simp [hgl]
    have hsc : ((overrideRows (benefitScopeId sha scope) prof).countP fun row =>
        row.key == .global) = 0 := by
      cases prof <;> rfl
    rw [countP_append, hoth, hsc]

theorem Counted.setBenefitReminderGlobalProfile {prof : ReminderProfile}
    (hok : setBenefitReminderGlobalProfile sha db prof = .ok (next, result)) :
    Counted drift next := by
  rcases setBenefitReminderGlobalProfile_ok hok with rfl | ⟨scopes, rebuilt, pend, _, _, hfo, hend⟩
  · exact hdb
  -- the loop keeps the count equal to the table and changes no other table
  have hkp : rebuilt = { db.withGlobalProfile prof with due := rebuilt.due } ∧
      pend = rebuilt.due.length := by
    refine @Except.foldlM_keeps _ _ _ (fun prog : BenefitStore × ℕ =>
      prog.1 = { db.withGlobalProfile prof with due := prog.1.due } ∧
        prog.2 = prog.1.due.length) _ _ _ _ hfo ⟨rfl, hdb.due⟩ ?_
    rintro scope _ ⟨before, count⟩ after ⟨hbef, hct⟩ hst
    obtain ⟨added, _, hle, rfl⟩ := rebuildProfileScope_ok hst
    have hrs := @length_due_rebuilt before { before with
      due := (before.due.filter fun row => row.ref.lot.scopeId != scope.scopeId) ++ added }
      _ added rfl
    constructor
    · rw [hbef]
    · simp only at hrs hct hle ⊢
      omega
  have hgl : ((db.withGlobalProfile prof).profiles.countP fun row =>
      row.key == .global) = 1 := by
    have hno : ((db.profiles.filter fun row => row.key != .global).countP fun row =>
        row.key == .global) = 0 := by
      rw [countP_eq_zero]
      intro row hrow
      simpa using (mem_filter.mp hrow).2
    rw [BenefitStore.withGlobalProfile, countP_append, hno]
    rfl
  obtain ⟨hreb, hpd⟩ := hkp
  rcases hend with ⟨hrev, hz, rfl⟩ | ⟨hrev, rfl⟩
  · have hno : next.due = [] := eq_nil_of_length_eq_zero (hpd.symm.trans hz)
    rw [hreb, hno]
    refine ⟨hdb.currentLots, hdb.changes, ?_, hdb.deliveries, hdb.published, fun _ => rfl, hgl⟩
    have hpd := hdb.due
    rw [hdb.unpublished hrev] at hpd
    exact hpd
  · rw [hreb]
    refine ⟨hdb.currentLots, hdb.changes, hpd, hdb.deliveries, ?_, ?_, hgl⟩
    · have hno : db.state.lastPublishedAtMs ≠ none := fun h => hrev (hdb.published.mpr h)
      simp [hno]
    · exact fun h => absurd h (Nat.succ_ne_zero _)

theorem Counted.processDueBenefitReminders {atMs : ℤ} {chan : NotificationChannel}
    {maxRows : ℕ} {done : ProcessedReminders}
    (hok : processDueBenefitReminders db atMs chan maxRows = .ok done) :
    Counted drift done.db := by
  rcases processDueBenefitReminders_ok hok with ⟨hsm, _⟩ | ⟨_, _, _, hpos, hpg⟩
  · rw [hsm]
    exact hdb
  obtain ⟨delivered, kept, hfo, hkp, hlen, hle, hnx⟩ := deliverPage_ok hpg
  have hdeli := deliverCandidates_ok hfo
  subst hdeli
  rw [hnx]
  refine ⟨hdb.currentLots, hdb.changes, ?_, ?_, hdb.published, ?_, hdb.globalProfile⟩
  · have hpd := hdb.due
    simp only at hlen hle ⊢
    omega
  · simp only [length_append, length_map, hdb.deliveries]
  · intro hrev
    rw [hkp]
    simp only [hdb.unpublished hrev, filter_nil]

theorem Counted.acknowledgeBenefitReminders {dels : List BenefitReminderDelivery}
    {acknowledgedAtMs : ℤ} {acked : AcknowledgedReminders}
    (hok : acknowledgeBenefitReminders db dels acknowledgedAtMs = .ok acked) :
    Counted drift acked.db := by
  rw [acknowledgeDeliveries_ok (acknowledgeBenefitReminders_ok hok)]
  exact { hdb with }

theorem Counted.maintained {chs : List ChangeRow} {revs : List LotRevisionRow}
    {dels : List DeliveryRow} (h : Maintained sid db chs revs dels next) :
    Counted drift next := by
  have hchs := h.changes_length
  have hds := h.deliveries_length
  have hreta := hdb.changes
  have hsent := hdb.deliveries
  rcases h.state with ⟨hnoC, hnoD, hsta⟩ | ⟨hpub, hle, hle', hsta⟩
  · refine ⟨?_, ?_, ?_, ?_, ?_, ?_, h.profiles ▸ hdb.globalProfile⟩ <;>
      simp only [hsta, h.current, h.due]
    · exact hdb.currentLots
    · omega
    · exact hdb.due
    · omega
    · exact hdb.published
    · exact hdb.unpublished
  · refine ⟨?_, ?_, ?_, ?_, ?_, ?_, h.profiles ▸ hdb.globalProfile⟩ <;>
      simp only [hsta, h.current, h.due]
    · exact hdb.currentLots
    · omega
    · exact hdb.due
    · omega
    · rw [Option.isSome_iff_ne_none] at hpub
      simp [hpub]
    · exact fun hz => absurd hz (Nat.succ_ne_zero _)

/-! ### Runs -/

/-- An observation in this call mentions no lot that the store has retired. -/
def mentionsNoRetiredLot (sha256 : Bytes → Bytes32) (db : BenefitStore) : BenefitCall → Bool
  | .observe observation => retiredMentions sha256 db observation == 0
  | _ => true

/-- A condition on every call of a run and the store before it. -/
def eachCall (sha256 : Bytes → Bytes32) (condition : BenefitStore → BenefitCall → Bool) :
    BenefitStore → List BenefitCall → Bool
  | _, [] => true
  | db, call :: calls => condition db call &&
    eachCall sha256 condition (stepBenefit sha256 db call).1 calls

/-- Every call moves the counter of current lots away from the table by a number of its own, which is
0 for a call that mentions no retired lot. -/
theorem Counted.call (hks : Constraints db) {call : BenefitCall} {evs : List ReminderEvent}
    (hok : callBenefit sha db call = .ok (next, evs)) :
    ∃ more, (mentionsNoRetiredLot sha db call = true → more = 0) ∧ Counted (drift + more) next := by
  cases callBenefit_ok hok with
  | observe hcl =>
    refine ⟨_, ?_, hdb.applyBenefitObservation hks hcl⟩
    intro hcond
    rw [mentionsNoRetiredLot, beq_iff_eq] at hcond
    rw [hcond, ite_self]
  | setOverride hcl => exact ⟨0, fun _ => rfl, hdb.setBenefitReminderOverride hcl⟩
  | setGlobalProfile hcl => exact ⟨0, fun _ => rfl, hdb.setBenefitReminderGlobalProfile hcl⟩
  | processDue hcl => exact ⟨0, fun _ => rfl, hdb.processDueBenefitReminders hcl⟩
  | acknowledge hcl => exact ⟨0, fun _ => rfl, hdb.acknowledgeBenefitReminders hcl⟩
  | maintain hpg => exact ⟨0, fun _ => rfl, hdb.maintained hpg⟩

end

theorem counted_step (hdb : Counted 0 db ∧ Constraints db) {call : BenefitCall}
    (hcond : mentionsNoRetiredLot sha db call = true) :
    Counted 0 (stepBenefit sha db call).1 ∧ Constraints (stepBenefit sha db call).1 := by
  unfold stepBenefit
  cases hcl : callBenefit sha db call with
  | error error => exact hdb
  | ok result =>
    obtain ⟨more, hno, hctd⟩ := hdb.1.call hdb.2 hcl
    rw [hno hcond] at hctd
    exact ⟨hctd, hdb.2.call hcl⟩

theorem counted_run (hdb : Counted 0 db ∧ Constraints db) {calls : List BenefitCall}
    (hcond : eachCall sha (mentionsNoRetiredLot sha) db calls = true) :
    Counted 0 (runBenefit sha db calls).1 ∧ Constraints (runBenefit sha db calls).1 := by
  induction calls generalizing db with
  | nil => exact hdb
  | cons call calls ih =>
    rw [eachCall, Bool.and_eq_true] at hcond
    exact ih (counted_step hdb hcond.1) hcond.2

/-- **The counters match the rows** after every run whose observations mention no retired lot, and
both checks accept the store.  The first written observation that does mention retired lots leaves
the counter of current lots behind the table by their number. -/
theorem benefit_counters_match_rows (sha256 : Bytes → Bytes32) (calls : List BenefitCall)
    (hcond : eachCall sha256 (mentionsNoRetiredLot sha256) .empty calls = true) :
    Counted 0 (runBenefit sha256 .empty calls).1 ∧
      validateBenefitState (runBenefit sha256 .empty calls).1 = .ok () ∧
      backupCountsAgree (runBenefit sha256 .empty calls).1 = true ∧
      ∀ observation next result, applyBenefitObservation sha256
          (runBenefit sha256 .empty calls).1 observation = .ok (next, result) →
        result.status ≠ .duplicate → result.status ≠ .stale →
          next.state.currentLotCount + retiredMentions sha256
            (runBenefit sha256 .empty calls).1 observation = next.current.length := by
  obtain ⟨hctd, hks⟩ := counted_run ⟨counted_empty, constraints_empty⟩ hcond
  refine ⟨hctd, hctd.validateBenefitState, hctd.backupCountsAgree, ?_⟩
  intro observation next result hok hdupl hstl
  have hct := (hctd.applyBenefitObservation hks hok).currentLots
  rwa [if_neg (not_or.mpr ⟨hdupl, hstl⟩), Nat.zero_add] at hct

/-- A lot is observed, a reminder of it is delivered, and the lot is used and retired. -/
def exampleHistory : List BenefitCall :=
  [.observe (exampleObservation 1 0 (some (exampleLot .available))),
    .processDue 9999000000 .inApp 8,
    .observe (exampleObservation 2 1 (some (exampleLot .activated))),
    .observe (exampleObservation 3 2 none)]

set_option maxRecDepth 8000 in
theorem benefit_counters_match_rows_example :
    eachCall lastBytes (mentionsNoRetiredLot lastBytes) .empty exampleHistory = true ∧
      (runBenefit lastBytes .empty exampleHistory).1.state.retainedDeliveryCount = 1 ∧
      validateBenefitState (runBenefit lastBytes .empty exampleHistory).1 = .ok () :=
  ⟨by decide +kernel, by decide +kernel,
    (benefit_counters_match_rows lastBytes exampleHistory (by decide +kernel)).2.1⟩

/-- The retired lot is observed again: one current row, but the counter says none, and the store is
refused when it is opened next. -/
theorem benefit_counters_rehydrated :
    (runBenefit lastBytes .empty (exampleHistory ++
        [.observe (exampleObservation 4 3 (some (exampleLot .available)))])).1.current.length = 1 ∧
      (runBenefit lastBytes .empty (exampleHistory ++
        [.observe (exampleObservation 4 3 (some (exampleLot .available)))])).1.state.currentLotCount =
          0 ∧
      validateBenefitState (runBenefit lastBytes .empty (exampleHistory ++
        [.observe (exampleObservation 4 3 (some (exampleLot .available)))])).1 =
          .error (.new .invalidStoredValue) := by
  decide +kernel

end TokenMaster.Benefits
