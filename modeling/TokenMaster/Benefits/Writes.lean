import TokenMaster.Benefits.Limits

/-!
# TokenMaster.Benefits.Writes — when the writes of an observation succeed

The converse of the inversion lemmas: what the tables have to hold so that a write returns.  Each loop
is carried by what the elements still to come need from the tables.
-/

namespace TokenMaster.Benefits

open Domain Store TokenMaster.Except List

variable {sha : Bytes → Bytes32} {db next : BenefitStore} {sid scopeId' : BenefitScopeId}
  {scheduled : List ReminderDue} {scope : BenefitScope} {prof : ReminderProfile}

/-! ### Changes -/

/-- What a change needs from the tables. -/
structure Insertable (db : BenefitStore) (scopeId : BenefitScopeId) (change : BenefitChange) :
    Prop where
  scope : db.scopeStored scopeId = true
  revision_pos : 0 < change.lotRevision
  label : ∀ after ∈ change.after, labelColumnAccepts after.labelKey = true
  fresh : ∀ row ∈ db.lotRevisions, row.ref.lot = ⟨scopeId, change.lotId⟩ →
    row.revision < change.lotRevision
  lot : ∀ after ∈ change.after, after.lotId = change.lotId
  before : change.before.isSome = true → 1 < change.lotRevision ∧ ∃ row ∈ db.lotRevisions,
    row.ref.lot = ⟨scopeId, change.lotId⟩ ∧
      (change.after = none → row.revision + 1 = change.lotRevision)
  retirement : change.after = none → change.before.isSome = true
  id : ∀ row ∈ db.changes, row.changeId ≠ change.id
  sequence : ∀ row ∈ db.changes, row.lot.scopeId = scopeId → row.sequence ≠ change.sequence

/-- Two changes that do not hinder each other. -/
structure Independent (a b : BenefitChange) : Prop where
  lotId : a.lotId ≠ b.lotId
  id : a.id ≠ b.id
  sequence : a.sequence ≠ b.sequence

/-- The greatest stored revision below the change. -/
theorem resolveMaterialBeforeRevision_returns {lot : LotRef} {logicalPrevious : ℕ}
    {row : LotRevisionRow} (hrow : row ∈ db.lotRevisions) (hlot : row.ref.lot = lot)
    (hle : row.revision ≤ logicalPrevious) :
    ∃ rev, resolveMaterialBeforeRevision db lot logicalPrevious = .ok rev ∧
      row.revision ≤ rev ∧ rev ≤ logicalPrevious ∧
      db.revisionStored ⟨lot, rev⟩ = true := by
  have hmem : row.revision ∈ (db.lotRevisions.filter fun row => row.ref.lot == lot &&
      decide (row.revision ≤ logicalPrevious)).map (·.revision) := by
    refine mem_map_of_mem (mem_filter.mpr ⟨hrow, ?_⟩)
    simp [hlot, hle]
  unfold resolveMaterialBeforeRevision
  cases hmax : ((db.lotRevisions.filter fun row => row.ref.lot == lot &&
      decide (row.revision ≤ logicalPrevious)).map (·.revision)).max? with
  | none =>
    rw [List.max?_eq_none_iff.mp hmax] at hmem
    cases hmem
  | some rev =>
    obtain ⟨hfd, hgrea⟩ := List.max?_eq_some_iff.mp hmax
    obtain ⟨best, hbest, rfl⟩ := mem_map.mp hfd
    obtain ⟨hsto, hcond⟩ := mem_filter.mp hbest
    rw [Bool.and_eq_true, beq_iff_eq, decide_eq_true_iff] at hcond
    refine ⟨best.revision, rfl, hgrea _ hmem, hcond.2, revisionStored_iff.mpr ⟨best, hsto, ?_⟩⟩
    rw [← hcond.1]
    rfl

theorem insertAfter_returns {ch : BenefitChange} (h : Insertable db sid ch) :
    insertAfter db sid ch = .ok { db with
      lotRevisions := db.lotRevisions ++ (revisionRow? sid ch).toList } := by
  unfold insertAfter revisionRow?
  cases haft : ch.after with
  | none => simp
  | some after =>
    have hfr : db.revisionStored ⟨⟨sid, after.lotId⟩, ch.lotRevision⟩ = false := by
      rw [not_revisionStored_iff]
      intro row hrow href
      have hlt := h.fresh row hrow (by rw [href, h.lot after haft])
      have hsm : row.revision = ch.lotRevision := congrArg RevisionRef.revision href
      omega
    simp only [dif_pos h.revision_pos, insertLotRevision, Option.toList_some]
    refine bind_eq_ok.mpr ⟨(), ?_, rfl⟩
    rw [ensure_eq_ok, h.scope, h.label after haft, hfr]
    rfl

/-- A change that the tables admit is written. -/
theorem writeChange_returns {ch : BenefitChange} {observedAtMs : ℤ}
    (h : Insertable db sid ch) :
    ∃ next, writeChange sid observedAtMs db ch = .ok next := by
  set after : BenefitStore := { db with
    lotRevisions := db.lotRevisions ++ (revisionRow? sid ch).toList } with haftD
  -- the revision before the change
  obtain ⟨before, hbef, hbefS, hsh⟩ : ∃ before,
      changeBeforeRevision after ⟨sid, ch.lotId⟩ ch = .ok before ∧
      (∀ r, before = some r → after.revisionStored ⟨⟨sid, ch.lotId⟩, r⟩ = true) ∧
      (ch.after = none → before.map (· + 1) = some ch.lotRevision) := by
    unfold changeBeforeRevision
    cases hso : ch.before with
    | none =>
      refine ⟨none, rfl, by simp, ?_⟩
      intro hno
      have hret := h.retirement hno
      rw [hso] at hret
      cases hret
    | some prev =>
      obtain ⟨hone, row, hrow, hlot, hex⟩ := h.before (by rw [hso]; rfl)
      have hlt := h.fresh row hrow hlot
      obtain ⟨rev, hrev, hge, hle, hsto⟩ :=
        @resolveMaterialBeforeRevision_returns after ⟨sid, ch.lotId⟩ (ch.lotRevision - 1)
          row (mem_append_left _ hrow) hlot (by omega)
      refine ⟨some rev, ?_, ?_, ?_⟩
      · refine bind_eq_ok.mpr ⟨(), by rw [ensure_eq_ok, decide_eq_true_iff]; exact hone, ?_⟩
        exact bind_eq_ok.mpr ⟨rev, hrev, rfl⟩
      · intro r hr
        cases hr
        exact hsto
      · intro hno
        have hl := hex hno
        rw [Option.map_some]
        congr 1
        omega
  have hrow : ∃ row, changeRow? ⟨sid, ch.lotId⟩ observedAtMs ch before = .ok row := by
    unfold changeRow?
    rw [dif_pos]
    · exact ⟨_, rfl⟩
    · refine ⟨h.revision_pos, ?_⟩
      cases haft : ch.after with
      | none => exact .inr ⟨rfl, hsh haft⟩
      | some content => exact .inl rfl
  obtain ⟨row, hrow⟩ := hrow
  obtain ⟨hid, hseq, _, _, _, hrowB, hrowA⟩ := changeRow?_ok hrow
  have haftS : ∀ r, row.afterRevision = some r →
      after.revisionStored ⟨⟨sid, ch.lotId⟩, r⟩ = true := by
    intro r hr
    rw [hrowA] at hr
    obtain ⟨content, hcon, rfl⟩ := Option.map_eq_some_iff.mp hr
    have hrevR : revisionRow? sid ch = some ⟨sid, ch.lotRevision, content, h.revision_pos⟩ := by
      unfold revisionRow?
      rw [hcon]
      exact dif_pos h.revision_pos
    refine revisionStored_iff.mpr ⟨⟨sid, ch.lotRevision, content, h.revision_pos⟩, ?_, ?_⟩
    · rw [haftD, hrevR]
      exact mem_append_right _ (mem_singleton_self _)
    · rw [LotRevisionRow.ref, h.lot content hcon]
  refine ⟨{ after with changes := after.changes ++ [row] }, ?_⟩
  refine bind_eq_ok.mpr ⟨after, insertAfter_returns h, ?_⟩
  refine bind_eq_ok.mpr ⟨before, hbef, ?_⟩
  refine bind_eq_ok.mpr ⟨row, hrow, ?_⟩
  refine bind_eq_ok.mpr ⟨(), ?_, rfl⟩
  rw [ensure_eq_ok]
  simp only [Bool.and_eq_true, Bool.not_eq_true', optionRevisionStored_iff, hrowB]
  refine ⟨⟨⟨h.scope, hbefS⟩, haftS⟩, ?_⟩
  rw [any_eq_false]
  intro other hoth
  simp only [Bool.or_eq_true, Bool.and_eq_true, beq_iff_eq, not_or, not_and]
  refine ⟨?_, ?_⟩
  · rw [hid]
    exact h.id other hoth
  · rw [hseq]
    exact h.sequence other hoth

/-- A written change does not hinder an independent one. -/
theorem Insertable.after_write {ch other : BenefitChange} {observedAtMs : ℤ}
    (h : Insertable db sid other) (hinde : Independent ch other)
    (hok : writeChange sid observedAtMs db ch = .ok next) (hlot : ∀ after ∈ ch.after,
      after.lotId = ch.lotId) : Insertable next sid other := by
  obtain ⟨mid, hmid, hok⟩ := bind_eq_ok.mp hok
  obtain ⟨row, rfl, hrow, _⟩ := insertChange_ok hok
  obtain ⟨rfl, _, _⟩ := insertAfter_ok hmid
  refine { h with
    fresh := ?_
    before := ?_
    id := forall_mem_append_one h.id (by rw [hrow.changeId]; exact hinde.id)
    sequence := forall_mem_append_one h.sequence
      (fun _ => by rw [hrow.sequence]; exact hinde.sequence) }
  · intro rev hrev hsm
    rcases mem_append.mp hrev with hold | hnew
    · exact h.fresh rev hold hsm
    · -- the new revision belongs to another lot
      rw [Option.mem_toList, revisionRow?] at hnew
      split at hnew
      · cases hnew
      · rename_i after haft
        split_ifs at hnew
        cases hnew
        have hid : after.lotId = other.lotId := congrArg LotRef.lotId hsm
        exact absurd ((hlot after haft).symm.trans hid) hinde.lotId
  · intro hbef
    obtain ⟨hone, rev, hrev, hrs⟩ := h.before hbef
    exact ⟨hone, rev, mem_append_left _ hrev, hrs⟩

/-- Independent changes that the tables admit are all written. -/
theorem writeChanges_returns {chs : List BenefitChange} {observedAtMs : ℤ}
    (hinse : ∀ ch ∈ chs, Insertable db sid ch)
    (hinde : chs.Pairwise Independent) :
    ∃ next, chs.foldlM (writeChange sid observedAtMs) db = .ok next := by
  obtain ⟨next, hnx, _⟩ := @foldlM_returns _ _ _ (fun rest db =>
      (∀ ch ∈ rest, Insertable db sid ch) ∧ rest.Pairwise Independent)
    (writeChange sid observedAtMs) chs db ⟨hinse, hinde⟩ (by
      rintro ch rest db ⟨hall, hpw⟩
      obtain ⟨hf, hrs⟩ := forall_mem_cons.mp hall
      obtain ⟨hos, hpw⟩ := pairwise_cons.mp hpw
      obtain ⟨next, hnx⟩ := @writeChange_returns db sid ch observedAtMs hf
      refine ⟨next, hnx, ?_, hpw⟩
      intro other hoth
      exact (hrs other hoth).after_write (hos other hoth) hnx hf.lot)
  exact ⟨next, hnx⟩

/-! ### Current lots and reminders -/

theorem insertCurrentLots_returns {lots : List BenefitCurrentLot}
    (hsto : ∀ lot ∈ lots, db.revisionStored (currentRow sid lot).ref = true)
    (hkd : Keyed (fun lot => lot.lot.lotId) lots)
    (hfr : ∀ row ∈ db.current, row.ref.lot.scopeId ≠ sid) :
    ∃ next, lots.foldlM (insertCurrentLot sid) db = .ok next := by
  have hst : ∀ lot ∈ lots, db.revisionStored (currentRow sid lot).ref = true ∧
      ∀ row ∈ db.current, row.ref.lot ≠ (currentRow sid lot).ref.lot := by
    intro lot hlot
    refine ⟨hsto lot hlot, ?_⟩
    intro row hrow hsm
    exact hfr row hrow (congrArg LotRef.scopeId hsm)
  obtain ⟨next, hnx, _⟩ := @foldlM_returns _ _ _ (fun rest db =>
      (∀ lot ∈ rest, db.revisionStored (currentRow sid lot).ref = true ∧
        ∀ row ∈ db.current, row.ref.lot ≠ (currentRow sid lot).ref.lot) ∧
      Keyed (fun lot => lot.lot.lotId) rest)
    (insertCurrentLot sid) lots db ⟨hst, hkd⟩ (by
      rintro lot rest db ⟨hall, hkd⟩
      obtain ⟨⟨hsto, hfr⟩, hrs⟩ := forall_mem_cons.mp hall
      obtain ⟨hnew, hkd⟩ := nodup_cons.mp hkd
      refine ⟨{ db with current := db.current ++ [currentRow sid lot] }, ?_, ?_, hkd⟩
      · refine bind_eq_ok.mpr ⟨(), ?_, rfl⟩
        rw [ensure_eq_ok, hsto, Bool.true_and, Bool.not_eq_true', any_eq_false]
        intro row hrow
        simpa using hfr row hrow
      · intro other hoth
        refine ⟨(hrs other hoth).1, forall_mem_append_one (hrs other hoth).2 ?_⟩
        intro hsm
        exact hnew (mem_map.mpr ⟨other, hoth, (congrArg LotRef.lotId hsm).symm⟩))
  exact ⟨next, hnx⟩

/-- What a scheduled reminder needs from the tables. -/
structure Remindable (db : BenefitStore) (scopeId : BenefitScopeId) (due : ReminderDue) : Prop where
  before_expiry : due.dueAtMs < due.expiryAtMs
  expiry_pos : 0 < due.expiryAtMs
  stored : db.revisionStored ⟨⟨scopeId, due.lotId⟩, due.lotRevision⟩ = true
  fresh : ∀ row ∈ db.due, row.deliveryId ≠ due.deliveryId

theorem insertDues_returns {profileRevision : ℕ}
    (hremi : ∀ due ∈ scheduled, Remindable db sid due)
    (hkd : Keyed (fun due => due.deliveryId) scheduled) :
    ∃ next, scheduled.foldlM (insertDue sid profileRevision) db = .ok next := by
  obtain ⟨next, hnx, _⟩ := @foldlM_returns _ _ _ (fun rest db =>
      (∀ due ∈ rest, Remindable db sid due) ∧ Keyed (fun due => due.deliveryId) rest)
    (insertDue sid profileRevision) scheduled db ⟨hremi, hkd⟩ (by
      rintro due rest db ⟨hall, hkd⟩
      obtain ⟨hf, hrs⟩ := forall_mem_cons.mp hall
      obtain ⟨hnew, hkd⟩ := nodup_cons.mp hkd
      unfold insertDue
      simp only
      split_ifs with hsent htime
      · exact ⟨db, rfl, hrs, hkd⟩
      · have hinsert : ensure .database (db.revisionStored ⟨⟨sid, due.lotId⟩, due.lotRevision⟩ &&
            !db.due.any fun row => row.deliveryId == due.deliveryId) = .ok () := by
          rw [ensure_eq_ok, hf.stored, Bool.true_and, Bool.not_eq_true', any_eq_false]
          intro row hrow
          simpa using hf.fresh row hrow
        refine ⟨_, bind_eq_ok.mpr ⟨(), hinsert, rfl⟩, ?_, hkd⟩
        intro other hoth
        refine { hrs other hoth with
          fresh := forall_mem_append_one (hrs other hoth).fresh ?_ }
        intro hsm
        exact hnew (mem_map.mpr ⟨other, hoth, hsm.symm⟩)
      · exact absurd ⟨hf.before_expiry, hf.expiry_pos⟩ htime)
  exact ⟨next, hnx⟩

theorem length_channels_le (prof : ReminderProfile) : prof.channels.length ≤ 2 := by
  have hasce := prof.channels_ascending
  match prof.channels, hasce with
  | [], _ => exact Nat.zero_le _
  | [_], _ => exact Nat.le_succ _
  | [_, _], _ => exact le_refl _
  | a :: b :: c :: _, h =>
    -- three ascending channels would need three codes
    obtain ⟨ha, h⟩ := pairwise_cons.mp h
    obtain ⟨hb, _⟩ := pairwise_cons.mp h
    have hab := ha b (by simp)
    have hbc := hb c (by simp)
    cases a <;> cases b <;> cases c <;> simp [NotificationChannel.code] at hab hbc

theorem scheduleReminders_returns {scope : BenefitScope} {lots : List BenefitCurrentLot}
    {prof : ReminderProfile} (hls : lots.length ≤ maxBenefitLotsPerObservation) :
    ∃ scheduled, scheduleReminders sha scope lots prof = .ok scheduled := by
  have hleads := prof.leadTimes_length_le
  have hchan := length_channels_le prof
  have hbd : lots.length * prof.leadTimes.length * prof.channels.length ≤
      maxScheduledReminders := Nat.mul_le_mul (Nat.mul_le_mul hls hleads) hchan
  unfold scheduleReminders
  rw [if_neg (not_lt.mpr hbd)]
  exact ⟨_, rfl⟩

/-- What a reminder of a schedule says about its lot. -/
structure ReminderDue.Of (sha256 : Bytes → Bytes32) (scope : BenefitScope)
    (lot : BenefitCurrentLot) (due : ReminderDue) : Prop where
  lotId : due.lotId = lot.lot.lotId
  lotRevision : due.lotRevision = lot.revision
  deliveryId : due.deliveryId = reminderDeliveryId sha256 scope lot.lot.lotId lot.revision
    due.leadTime due.channel
  before_expiry : due.dueAtMs < due.expiryAtMs
  expiry_pos : 0 < due.expiryAtMs

theorem mem_scheduleLot {lot : BenefitCurrentLot} {due : ReminderDue}
    (h : due ∈ scheduleLot sha scope prof lot) : due.Of sha scope lot := by
  unfold scheduleLot at h
  split_ifs at h
  · cases h
  cases hex : lot.lot.expiry.conservativeUtcMs with
  | none =>
    rw [hex] at h
    cases h
  | some expiryAtMs =>
    rw [hex] at h
    obtain ⟨leadTime, _, h⟩ := mem_flatMap.mp h
    obtain ⟨chan, _, rfl⟩ := mem_map.mp h
    have hpos := BenefitExpiry.conservativeUtcMs_pos hex
    have hld : 60 ≤ leadTime.seconds := leadTime.min_le
    refine ⟨rfl, rfl, rfl, ?_, hpos⟩
    show dueAtMs expiryAtMs leadTime < expiryAtMs
    unfold dueAtMs
    omega

/-- What tells the reminders of one scope apart. -/
def ReminderDue.key (due : ReminderDue) : BenefitLotId × ℕ × NotificationChannel :=
  (due.lotId, due.leadTime.seconds, due.channel)

theorem keyed_scheduleLot (scope : BenefitScope) (prof : ReminderProfile)
    (lot : BenefitCurrentLot) : Keyed ReminderDue.key (scheduleLot sha scope prof lot) := by
  unfold scheduleLot
  split_ifs
  · exact .nil
  · split
    · exact .nil
    · unfold Keyed List.Nodup
      rw [pairwise_map, pairwise_flatMap]
      refine ⟨?_, ?_⟩
      · intro leadTime _
        rw [pairwise_map]
        refine prof.channels_ascending.imp ?_
        intro a b hlt hsm
        have hch : a = b := (Prod.mk.inj (Prod.mk.inj hsm).2).2
        rw [hch] at hlt
        exact absurd hlt (lt_irrefl _)
      · refine prof.leadTimes_descending.imp ?_
        intro a b hlt x hx y hy hsm
        obtain ⟨_, _, rfl⟩ := mem_map.mp hx
        obtain ⟨_, _, rfl⟩ := mem_map.mp hy
        have hseco : a.seconds = b.seconds := (Prod.mk.inj (Prod.mk.inj hsm).2).1
        omega

/-- The reminders of a schedule are told apart by lot, lead time and channel. -/
theorem keyed_scheduleReminders {lots : List BenefitCurrentLot}
    (hls : Keyed (fun lot => lot.lot.lotId) lots)
    (h : scheduleReminders sha scope lots prof = .ok scheduled) :
    Keyed ReminderDue.key scheduled ∧ ∀ due ∈ scheduled, ∃ lot ∈ lots, due.Of sha scope lot := by
  unfold scheduleReminders at h
  split_ifs at h
  cases h
  refine ⟨?_, ?_⟩
  · unfold Keyed
    rw [((perm_insertionSort _ _).map _).nodup_iff]
    unfold List.Nodup
    rw [pairwise_map, pairwise_flatMap]
    refine ⟨?_, ?_⟩
    · intro lot _
      have hkd := @keyed_scheduleLot sha scope prof lot
      unfold Keyed List.Nodup at hkd
      rwa [pairwise_map] at hkd
    · unfold Keyed List.Nodup at hls
      rw [pairwise_map] at hls
      refine hls.imp ?_
      intro a b hne x hx y hy hsm
      have hid : x.lotId = y.lotId := (Prod.mk.inj hsm).1
      rw [(mem_scheduleLot hx).lotId, (mem_scheduleLot hy).lotId] at hid
      exact hne hid
  · intro due hdue
    obtain ⟨lot, hlot, hdue⟩ := mem_flatMap.mp ((perm_insertionSort _ _).mem_iff.mp hdue)
    exact ⟨lot, hlot, mem_scheduleLot hdue⟩

/-! ### Identities -/

theorem benefitScopeIdInput_inj {scope' : BenefitScope}
    (h : benefitScopeIdInput scope = benefitScopeIdInput scope') : scope = scope' := by
  have input : ∀ scope : BenefitScope, benefitScopeIdInput scope = encodeFields ([scopeDomain,
      scope.providerId.bytes, scope.accountId.bytes] ++
        scope.workspaceId.elim [[0]] fun workspaceId => [[1], workspaceId.bytes]) := by
    intro scope
    unfold benefitScopeIdInput
    cases scope.workspaceId <;> rfl
  have bound : ∀ scope : BenefitScope, ∀ f ∈ [scopeDomain, scope.providerId.bytes,
      scope.accountId.bytes] ++ scope.workspaceId.elim [[0]] fun workspaceId =>
        [[1], workspaceId.bytes], f.length < 2 ^ 64 := by
    intro scope f hf
    have hprov := scope.providerId.length_le
    have hacco := scope.accountId.length_le
    rcases mem_append.mp hf with hf | hf
    · simp only [mem_cons, not_mem_nil, or_false] at hf
      obtain rfl | rfl | rfl := hf
      · decide
      · exact lt_of_le_of_lt hprov (by decide)
      · exact lt_of_le_of_lt hacco (by decide)
    · cases hwork : scope.workspaceId with
      | none =>
        rw [hwork] at hf
        rw [mem_singleton.mp hf]
        decide
      | some workspaceId =>
        rw [hwork, Option.elim_some] at hf
        simp only [mem_cons, not_mem_nil, or_false] at hf
        obtain rfl | rfl := hf
        · decide
        · exact lt_of_le_of_lt workspaceId.length_le (by decide)
  rw [input, input] at h
  have hfs := encodeFields_inj (bound scope) (bound scope') h
  obtain ⟨provider, acct, workspace⟩ := scope
  obtain ⟨provider', account', workspace'⟩ := scope'
  cases workspace with
  | none =>
    cases workspace' with
    | none =>
      simp only [Option.elim, cons_append, nil_append, List.cons.injEq, and_true, true_and] at hfs
      rw [AsciiText.ext hfs.1, AsciiText.ext hfs.2]
    | some workspaceId' => simp at hfs
  | some workspaceId =>
    cases workspace' with
    | none => simp at hfs
    | some workspaceId' =>
      simp only [Option.elim, cons_append, nil_append, List.cons.injEq, and_true, true_and] at hfs
      rw [AsciiText.ext hfs.1, AsciiText.ext hfs.2.1, AsciiText.ext hfs.2.2]

theorem benefitChangeIdInput_inj {sid : BenefitScopeId} {seq sequence' : ℕ}
    {lotId lotId' : BenefitLotId} {rev rev' : ℕ} {kindCode kindCode' : UInt8} (hseq : seq < 2 ^ 64)
    (hseq' : sequence' < 2 ^ 64) (h : benefitChangeIdInput sid seq lotId rev kindCode =
      benefitChangeIdInput scopeId' sequence' lotId' rev' kindCode') :
    sid = scopeId' ∧ seq = sequence' := by
  have bound : ∀ (sid : BenefitScopeId) (seq : ℕ) (lotId : BenefitLotId) (rev : ℕ)
      (kindCode : UInt8), ∀ f ∈ [changeDomain, sid.asBytes, beBytes 8 seq, lotId.asBytes,
        beBytes 8 rev, [kindCode]], f.length < 2 ^ 64 := by
    intro sid seq lotId rev kindCode f hf
    simp only [mem_cons, not_mem_nil, or_false] at hf
    obtain rfl | rfl | rfl | rfl | rfl | rfl := hf
    · decide
    · rw [Bytes32.length_asBytes]; decide
    · rw [length_beBytes]; decide
    · rw [Bytes32.length_asBytes]; decide
    · rw [length_beBytes]; decide
    · exact Nat.one_lt_two_pow (by decide)
  have hfs := encodeFields_inj (bound _ _ _ _ _) (bound _ _ _ _ _) h
  simp only [List.cons.injEq, and_true, true_and] at hfs
  exact ⟨Bytes32.asBytes_injective hfs.1, beBytes_inj hseq hseq' hfs.2.1⟩

theorem reminderDeliveryIdInput_inj {sid : BenefitScopeId} {lotId lotId' : BenefitLotId}
    {rev rev' : ℕ} {leadTime leadTime' : ReminderLeadTime} {chan channel' : NotificationChannel}
    (h : reminderDeliveryIdInput sid lotId rev leadTime chan =
      reminderDeliveryIdInput scopeId' lotId' rev' leadTime' channel') :
    sid = scopeId' ∧ lotId = lotId' ∧ leadTime.seconds = leadTime'.seconds ∧ chan = channel' := by
  have bound : ∀ (sid : BenefitScopeId) (lotId : BenefitLotId) (rev : ℕ)
      (leadTime : ReminderLeadTime) (chan : NotificationChannel), ∀ f ∈ [deliveryDomain,
        sid.asBytes, lotId.asBytes, beBytes 8 rev, beBytes 4 leadTime.seconds,
        [UInt8.ofNat chan.code]], f.length < 2 ^ 64 := by
    intro sid lotId rev leadTime chan f hf
    simp only [mem_cons, not_mem_nil, or_false] at hf
    obtain rfl | rfl | rfl | rfl | rfl | rfl := hf
    · decide
    · rw [Bytes32.length_asBytes]; decide
    · rw [Bytes32.length_asBytes]; decide
    · rw [length_beBytes]; decide
    · rw [length_beBytes]; decide
    · exact Nat.one_lt_two_pow (by decide)
  have hfs := encodeFields_inj (bound _ _ _ _ _) (bound _ _ _ _ _) h
  simp only [List.cons.injEq, and_true, true_and] at hfs
  have hld : leadTime.seconds < 256 ^ 4 := lt_of_le_of_lt leadTime.le_max (by decide)
  have hld' : leadTime'.seconds < 256 ^ 4 := lt_of_le_of_lt leadTime'.le_max (by decide)
  refine ⟨Bytes32.asBytes_injective hfs.1, Bytes32.asBytes_injective hfs.2.1,
    beBytes_inj hld hld' hfs.2.2.2.1, ?_⟩
  have hcode := hfs.2.2.2.2
  cases chan <;> cases channel' <;> first | rfl | exact absurd hcode (by decide)

end TokenMaster.Benefits
