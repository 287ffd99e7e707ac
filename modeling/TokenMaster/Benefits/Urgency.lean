import TokenMaster.Benefits.History

/-!
# TokenMaster.Benefits.Urgency — reminders only get more urgent

Due rows are rebuilt by every observation and profile change, and receipts decide what is not
scheduled or delivered again.  A page deletes receipts, but only of lot revisions that are not
current; by `History` such a revision never becomes current again, so no receipt that still matters
is lost.

The events of a run are the specification: `leadTimes` are the delivered lead times of a lot revision
and channel in order, `waiting` the deliveries that were not acknowledged.
-/

namespace TokenMaster.Benefits

open Domain Store TokenMaster.Except List

variable {sha : Bytes → Bytes32} {db next : BenefitStore} {sid : BenefitScopeId}
  {lot : BenefitCurrentLot} {obs : BenefitInventoryObservation}
  {res : BenefitApplyResult} {deliveries : List BenefitReminderDelivery} {acknowledgedAtMs : ℤ}
  {acked : AcknowledgedReminders} {candidates selected : List StoredDue}
  {done : ProcessedReminders} {chs : List ChangeRow} {revs : List LotRevisionRow}
  {added : List ReminderEvent}

/-! ### Due rows -/

/-- A due row belongs to the current revision of an available lot and has its due time. -/
structure Scheduled (sha256 : Bytes → Bytes32) (current : List CurrentRow) (row : DueRow) :
    Prop where
  current : ∃ lot ∈ current, lot.ref = row.ref ∧ lot.state = .available ∧
    lot.conservativeExpiryAtMs = some row.expiryAtMs
  dueAtMs : row.dueAtMs = Benefits.dueAtMs row.expiryAtMs row.threshold
  deliveryId : row.deliveryId = sha256 (reminderDeliveryIdInput row.ref.lot.scopeId
    row.ref.lot.lotId row.ref.revision row.threshold row.channel)

def AllScheduled (sha256 : Bytes → Bytes32) (db : BenefitStore) : Prop :=
  ∀ row ∈ db.due, Scheduled sha256 db.current row

variable {scope : BenefitScope} {prof : ReminderProfile}

theorem scheduled_of_lot {due : ReminderDue} {row : DueRow} {cur : List CurrentRow}
    (hsc : benefitScopeId sha scope = sid) (hlot : currentRow sid lot ∈ cur)
    (hdue : due ∈ scheduleLot sha scope prof lot) (hrow : row.Schedules sid due) :
    Scheduled sha cur row := by
  unfold scheduleLot at hdue
  split_ifs at hdue with hsta
  · cases hdue
  cases hex : lot.lot.expiry.conservativeUtcMs with
  | none =>
    rw [hex] at hdue
    cases hdue
  | some expiryAtMs =>
    rw [hex] at hdue
    obtain ⟨leadTime, _, hdue⟩ := mem_flatMap.mp hdue
    obtain ⟨channel, _, rfl⟩ := mem_map.mp hdue
    refine ⟨⟨currentRow sid lot, hlot, hrow.ref.symm, not_not.mp hsta, ?_⟩, ?_, ?_⟩
    · rw [hrow.expiryAtMs]
      exact hex
    · rw [hrow.dueAtMs, hrow.expiryAtMs, hrow.threshold]
    · rw [hrow.deliveryId, hrow.ref, hrow.threshold, hrow.channel, ← hsc]
      rfl

/-- Due rows that a rebuild of one scope leaves. -/
theorem AllScheduled.rebuilt (h : AllScheduled sha db) {lots : List BenefitCurrentLot}
    {added : List DueRow} (hsc : benefitScopeId sha scope = sid)
    (hcur : ∀ row ∈ db.current, row.ref.lot.scopeId ≠ sid → row ∈ next.current)
    (hls : ∀ lot ∈ lots, currentRow sid lot ∈ next.current)
    (hdue : next.due = (db.due.filter fun row => row.ref.lot.scopeId != sid) ++ added)
    (hadd : Rebuilds sha scope sid lots prof added) : AllScheduled sha next := by
  intro row hrow
  rw [hdue] at hrow
  rcases mem_append.mp hrow with hrow | hrow
  · obtain ⟨hmem, hoth⟩ := mem_filter.mp hrow
    obtain ⟨⟨lot, hlot, href, hcon⟩, htime, hid⟩ := h row hmem
    refine ⟨⟨lot, hcur lot hlot ?_, href, hcon⟩, htime, hid⟩
    rw [href]
    simpa using hoth
  · obtain ⟨lot, hlot, due, hdue, hsched⟩ := hadd.schedules row hrow
    exact scheduled_of_lot hsc (hls lot hlot) hdue hsched

/-- Deleting due rows keeps the others scheduled. -/
theorem AllScheduled.subset (h : AllScheduled sha db) (hcur : next.current = db.current)
    (hdue : ∀ row ∈ next.due, row ∈ db.due) : AllScheduled sha next := by
  intro row hrow
  rw [hcur]
  exact h row (hdue row hrow)

/-- The lots of an inventory that was loaded without an observation. -/
theorem loaded_current (hc : Constraints db) (hh : History db) {st : BenefitInventoryState}
    (hload : loadInventoryState sha db scope sid [] = .ok st) (hlot : lot ∈ st.lots) :
    currentRow sid lot ∈ db.current := by
  rcases prior_cases hload hlot with hld | ⟨seen, hsn, _⟩
  · exact currentRow_loaded hc hh hld
  · cases hsn

theorem AllScheduled.applyBenefitObservation (h : AllScheduled sha db)
    (hok : applyBenefitObservation sha db obs = .ok (next, res)) :
    AllScheduled sha next := by
  obtain ⟨ensured, cur, recn, hens, _, _, _, hwr⟩ :=
    applyBenefitObservation_ok hok
  have hb : AllScheduled sha ensured := by
    rw [ensureScope_frame hens]
    exact h
  rcases hwr with ⟨_, rfl⟩ | ⟨_, hw⟩
  · exact hb
  · obtain ⟨added, prof, hdue, hadd⟩ := hw.due
    refine hb.rebuilt rfl ?_ ?_ hdue hadd
    · intro row hrow hoth
      rw [hw.current]
      exact mem_append_left _ (mem_filter.mpr ⟨hrow, by simpa using hoth⟩)
    · intro lot hlot
      rw [hw.current]
      exact mem_append_right _ (mem_map_of_mem hlot)

theorem AllScheduled.setBenefitReminderGlobalProfile (hc : Constraints db) (hh : History db)
    (h : AllScheduled sha db) {res : BenefitProfileApplyResult}
    (hok : setBenefitReminderGlobalProfile sha db prof = .ok (next, res)) :
    AllScheduled sha next := by
  rcases setBenefitReminderGlobalProfile_ok hok with
    rfl | ⟨scopes, rebuilt, pend, hscs, _, hfo, hend⟩
  · exact h
  · have hreb : rebuilt.current = db.current ∧ AllScheduled sha rebuilt := by
      refine @foldlM_keeps _ _ _ (fun prog : BenefitStore × ℕ =>
        prog.1.current = db.current ∧ AllScheduled sha prog.1) _ _ _ _ hfo ⟨rfl, h⟩ ?_
      rintro scope hsc before after ⟨hcur, hbef⟩ hst
      obtain ⟨added, hadd, _, rfl⟩ := rebuildProfileScope_ok hst
      obtain ⟨hid, st, hld, hls⟩ := hscs scope hsc
      refine ⟨hcur, hbef.rebuilt hid (fun _ hrow _ => hrow) ?_ rfl hadd⟩
      intro lot hlot
      show currentRow _ lot ∈ before.1.current
      rw [hcur]
      exact loaded_current hc hh hld (hls ▸ hlot)
    rcases hend with ⟨_, _, rfl⟩ | ⟨_, rfl⟩
    · exact hreb.2
    · exact hreb.2

/-- Every call that commits keeps the due rows scheduled. -/
theorem AllScheduled.call (hc : Constraints db) (hh : History db) (h : AllScheduled sha db)
    {call : BenefitCall} {events : List ReminderEvent}
    (hok : callBenefit sha db call = .ok (next, events)) : AllScheduled sha next := by
  cases callBenefit_ok hok with
  | observe hcl => exact h.applyBenefitObservation hcl
  | setOverride hcl =>
    obtain ⟨st, added, active, hld, hadd, _, _, hnx⟩ := setBenefitReminderOverride_ok hcl
    rw [hnx]
    exact h.rebuilt rfl (fun _ hrow _ => hrow) (fun _ => loaded_current hc hh hld) rfl hadd
  | setGlobalProfile hcl => exact h.setBenefitReminderGlobalProfile hc hh hcl
  | processDue hcl =>
    obtain ⟨hdue, hnx⟩ := processDueBenefitReminders_frame hcl
    exact h.subset (by rw [hnx]) hdue.subset
  | acknowledge hcl =>
    rw [acknowledgeBenefitReminders_frame hcl]
    exact h
  | maintain hpg =>
    refine h.subset hpg.current ?_
    rw [hpg.due]
    exact fun _ hrow => hrow

/-! ### Events -/

/-- The lead time of a delivery for a lot revision and channel. -/
def ReminderEvent.leadTime? (ref : RevisionRef) (channel : NotificationChannel) :
    ReminderEvent → Option ℕ
  | .delivered due _ =>
    if due.row.ref = ref ∧ due.row.channel = channel then some due.row.threshold.seconds else none
  | .acknowledged _ => none

/-- The delivered lead times of a lot revision and channel, in the order of delivery. -/
def leadTimes (events : List ReminderEvent) (ref : RevisionRef) (channel : NotificationChannel) :
    List ℕ := events.filterMap (ReminderEvent.leadTime? ref channel)

/-- The deliveries that wait for acknowledgement after one more event. -/
def waitingAfter (pending : List (StoredDue × ℤ)) : ReminderEvent → List (StoredDue × ℤ)
  | .delivered due deliveredAtMs => pending ++ [(due, deliveredAtMs)]
  | .acknowledged deliveryId => pending.filter fun entry => entry.1.row.deliveryId != deliveryId

/-- The deliveries of a run that were not acknowledged since. -/
def waiting (events : List ReminderEvent) : List (StoredDue × ℤ) := events.foldl waitingAfter []

/-- A delivery inside the time span of its lot. -/
structure InTime (due : StoredDue) (deliveredAtMs : ℤ) : Prop where
  available : due.lot.state = .available
  expiry : due.lot.expiry.conservativeUtcMs = some due.row.expiryAtMs
  dueAtMs : due.row.dueAtMs = Benefits.dueAtMs due.row.expiryAtMs due.row.threshold
  notBefore : due.row.dueAtMs ≤ deliveredAtMs
  notExpired : deliveredAtMs < due.row.expiryAtMs

/-- What the store knows about the events of a run. -/
structure Delivered (db : BenefitStore) (events : List ReminderEvent) : Prop where
  decreasing : ∀ ref channel, (leadTimes events ref channel).Pairwise (· > ·)
  inTime : ∀ due deliveredAtMs, .delivered due deliveredAtMs ∈ events → InTime due deliveredAtMs
  receipt : ∀ due deliveredAtMs, .delivered due deliveredAtMs ∈ events →
    db.hasReceipt due.row.ref due.row.channel due.row.threshold = true ∨
      due.row.ref.revision < latestRevision db.changes due.row.ref.lot
  waiting : ∀ entry ∈ Benefits.waiting events, ∃ hpos : 0 < entry.2,
    entry.1.receipt entry.2 hpos ∈ db.deliveries ∧
      db.acknowledged entry.1.row.deliveryId = false ∧
      ∃ revision ∈ db.lotRevisions, revision.ref = entry.1.row.ref ∧ revision.lot = entry.1.lot

theorem delivered_empty : Delivered .empty [] where
  decreasing := fun _ _ => .nil
  inTime := by simp
  receipt := by simp
  waiting := by simp [waiting]

section Delivered

variable {events : List ReminderEvent} {ref : RevisionRef}

/-- Receipts and acknowledgements stay, revisions and changes are only added. -/
theorem Delivered.frame (h : Delivered db events) (hds : next.deliveries = db.deliveries)
    (hacks : next.acks = db.acks) (hrevs : ∀ row ∈ db.lotRevisions, row ∈ next.lotRevisions)
    (hlat : ∀ lot, latestRevision db.changes lot ≤ latestRevision next.changes lot) :
    Delivered next events := by
  refine { h with receipt := ?_, waiting := ?_ }
  · intro due deliveredAtMs hev
    rcases h.receipt due deliveredAtMs hev with hrec | hpast
    · refine .inl ?_
      rwa [BenefitStore.hasReceipt, hds]
    · exact .inr (lt_of_lt_of_le hpast (hlat _))
  · intro e hent
    obtain ⟨hpos, hrec, hack, rev, hrev, hcon⟩ := h.waiting e hent
    refine ⟨hpos, hds ▸ hrec, ?_, rev, hrevs rev hrev, hcon⟩
    rwa [BenefitStore.acknowledged, hacks]

theorem leadTimes_append (events added : List ReminderEvent) (ref : RevisionRef)
    (channel : NotificationChannel) : leadTimes (events ++ added) ref channel =
      leadTimes events ref channel ++ leadTimes added ref channel :=
  filterMap_append

variable {channel : NotificationChannel}

theorem mem_leadTimes {seconds : ℕ} (h : seconds ∈ leadTimes events ref channel) :
    ∃ due deliveredAtMs,
      .delivered due deliveredAtMs ∈ events ∧ due.row.ref = ref ∧ due.row.channel = channel ∧
        due.row.threshold.seconds = seconds := by
  obtain ⟨ev, hev, hld⟩ := mem_filterMap.mp h
  cases ev with
  | delivered due deliveredAtMs =>
    simp only [ReminderEvent.leadTime?] at hld
    split_ifs at hld with hsm
    exact ⟨due, deliveredAtMs, hev, hsm.1, hsm.2, Option.some.inj hld⟩
  | acknowledged deliveryId => cases hld

theorem waiting_append (added : List ReminderEvent) :
    waiting (events ++ added) = added.foldl waitingAfter (waiting events) := foldl_append

/-- An acknowledgement ends the wait for one delivery and touches no other. -/
theorem Delivered.acknowledge (h : Delivered db events) (deliveryId : ReminderDeliveryId)
    (acknowledgedAtMs : ℤ) :
    Delivered { db with acks := db.acks ++ [⟨deliveryId, acknowledgedAtMs⟩] }
      (events ++ [.acknowledged deliveryId]) := by
  have hold : ∀ due deliveredAtMs,
      .delivered due deliveredAtMs ∈ events ++ [.acknowledged deliveryId] →
        .delivered due deliveredAtMs ∈ events := by
    intro due deliveredAtMs hev
    rcases mem_append.mp hev with hev | hev
    · exact hev
    · cases mem_singleton.mp hev
  refine ⟨?_, ?_, ?_, ?_⟩
  · intro ref channel
    have hnone : leadTimes [.acknowledged deliveryId] ref channel = [] := rfl
    rw [leadTimes_append, hnone, append_nil]
    exact h.decreasing ref channel
  · exact fun due deliveredAtMs hev => h.inTime due deliveredAtMs (hold due deliveredAtMs hev)
  · exact fun due deliveredAtMs hev => h.receipt due deliveredAtMs (hold due deliveredAtMs hev)
  · intro e hent
    rw [waiting_append] at hent
    obtain ⟨hmem, hne⟩ := mem_filter.mp hent
    obtain ⟨hpos, hrec, hack, hrev⟩ := h.waiting e hmem
    refine ⟨hpos, hrec, ?_, hrev⟩
    rw [bne_iff_ne] at hne
    have hno : (deliveryId == e.1.row.deliveryId) = false := by simpa using hne.symm
    rw [BenefitStore.acknowledged, any_append, any_cons, any_nil, hno]
    simpa [BenefitStore.acknowledged] using hack

theorem Delivered.acknowledgeBenefitReminders (h : Delivered db events)
    (hok : acknowledgeBenefitReminders db deliveries acknowledgedAtMs = .ok acked) :
    Delivered acked.db (events ++ acked.acknowledged.map .acknowledged) := by
  refine @foldlM_keeps _ _ _ (fun prog : BenefitStore × List ReminderDeliveryId =>
    Delivered prog.1 (events ++ prog.2.map .acknowledged)) _ _ _ _
    (acknowledgeBenefitReminders_ok hok) (by simpa using h) ?_
  intro delivery _ before after hbef hst
  rcases acknowledgeDelivery_ok hst with rfl | ⟨_, _, rfl⟩
  · exact hbef
  · rw [map_append, ← append_assoc]
    exact hbef.acknowledge delivery.deliveryId acknowledgedAtMs

/-- What is known about a due row when its page is delivered. -/
structure Candidate (db : BenefitStore) (due : StoredDue) (deliveredAtMs : ℤ) : Prop where
  inTime : InTime due deliveredAtMs
  latest : latestRevision db.changes due.row.ref.lot = due.row.ref.revision
  content : ∃ revision ∈ db.lotRevisions, revision.ref = due.row.ref ∧ revision.lot = due.lot

variable {due : StoredDue} {deliveredAtMs : ℤ}

/-- A receipt is more urgent than every earlier one of its lot revision and channel. -/
theorem Delivered.deliver (hc : Constraints db) (h : Delivered db events)
    (hpos : 0 < deliveredAtMs) (hcand : Candidate db due deliveredAtMs)
    (hunsent : db.hasReceipt due.row.ref due.row.channel due.row.threshold = false)
    (hfr : ∀ row ∈ db.deliveries, row.deliveryId ≠ due.row.deliveryId) :
    Delivered { db with deliveries := db.deliveries ++ [due.receipt deliveredAtMs hpos] }
      (events ++ [.delivered due deliveredAtMs]) := by
  have hkp : ∀ ref channel thr, db.hasReceipt ref channel thr = true →
      ({ db with deliveries := db.deliveries ++ [due.receipt deliveredAtMs hpos] } :
        BenefitStore).hasReceipt ref channel thr = true := by
    intro ref channel thr hrec
    obtain ⟨row, hrow, hmatch⟩ := hasReceipt_iff.mp hrec
    exact hasReceipt_iff.mpr ⟨row, mem_append_left _ hrow, hmatch⟩
  refine ⟨?_, ?_, ?_, ?_⟩
  · intro ref channel
    rw [leadTimes_append, pairwise_append]
    refine ⟨h.decreasing ref channel, ?_, ?_⟩
    · exact (pairwise_singleton (fun _ _ => False) _).filterMap _ fun _ _ hno => hno.elim
    · intro earlier hearl later hlat
      obtain ⟨old, oldAtMs, hold, href, hch, rfl⟩ := mem_leadTimes hearl
      obtain ⟨new, newAtMs, hnew, href', hch', rfl⟩ := mem_leadTimes hlat
      cases mem_singleton.mp hnew
      rcases h.receipt old oldAtMs hold with hrec | hpast
      · -- a receipt that is as urgent as the new delivery would have suppressed it
        obtain ⟨row, hrow, hrowR, hrowC, hle⟩ := hasReceipt_iff.mp hrec
        by_contra hge
        have hsent : db.hasReceipt due.row.ref due.row.channel due.row.threshold = true := by
          refine hasReceipt_iff.mpr ⟨row, hrow, ?_, ?_, by omega⟩
          · rw [hrowR, href, href']
          · rw [hrowC, hch, hch']
        rw [hunsent] at hsent
        cases hsent
      · rw [href, ← href', hcand.latest] at hpast
        exact absurd hpast (lt_irrefl _)
  · intro other otherAtMs hev
    rcases mem_append.mp hev with hev | hev
    · exact h.inTime other otherAtMs hev
    · cases mem_singleton.mp hev
      exact hcand.inTime
  · intro other otherAtMs hev
    rcases mem_append.mp hev with hev | hev
    · rcases h.receipt other otherAtMs hev with hrec | hpast
      · exact .inl (hkp _ _ _ hrec)
      · exact .inr hpast
    · cases mem_singleton.mp hev
      exact .inl (hasReceipt_iff.mpr ⟨_, mem_append_right _ (mem_singleton_self _),
        rfl, rfl, le_refl _⟩)
  · intro e hent
    rw [waiting_append] at hent
    rcases mem_append.mp hent with hent | hent
    · obtain ⟨hpos', hrec, hrs⟩ := h.waiting e hent
      exact ⟨hpos', mem_append_left _ hrec, hrs⟩
    · cases mem_singleton.mp hent
      refine ⟨hpos, mem_append_right _ (mem_singleton_self _), ?_, hcand.content⟩
      -- an acknowledgement needs a stored delivery
      cases hack : db.acknowledged due.row.deliveryId with
      | false => exact hack
      | true =>
        obtain ⟨ack, hmem, hid⟩ := acknowledged_iff.mp hack
        obtain ⟨row, hrow, hrowId⟩ := hc.ack_stored ack hmem
        exact absurd (hrowId.trans hid) (hfr row hrow)

/-! ### Pages of due reminders -/

theorem revisionLot?_some {lot : BenefitLotObservation} (h : revisionLot? db ref = some lot) :
    ∃ rev ∈ db.lotRevisions, rev.ref = ref ∧ rev.lot = lot := by
  obtain ⟨rev, hf, hlot⟩ := Option.map_eq_some_iff.mp h
  exact ⟨rev, mem_of_find?_eq_some hf, by simpa using List.find?_some hf, hlot⟩

variable {maxRows : ℕ}

theorem mem_loadDuePage (h : due ∈ loadDuePage db deliveredAtMs channel maxRows) :
    due.row ∈ db.due ∧ due.row.channel = channel ∧ due.row.dueAtMs ≤ deliveredAtMs ∧
      revisionLot? db due.row.ref = some due.lot := by
  obtain ⟨row, hrow, hlot⟩ := mem_filterMap.mp (mem_of_mem_take h)
  obtain ⟨hmem, hcond⟩ := mem_filter.mp ((perm_insertionSort _ _).mem_iff.mp hrow)
  obtain ⟨lot, hfd, rfl⟩ := Option.map_eq_some_iff.mp hlot
  rw [Bool.and_eq_true, beq_iff_eq, decide_eq_true_iff] at hcond
  exact ⟨hmem, hcond.1, hcond.2, hfd⟩

theorem mem_keepMostUrgent {other : StoredDue} (h : other ∈ keepMostUrgent candidates due) :
    other ∈ candidates ∨ other = due := by
  unfold keepMostUrgent at h
  split at h
  · rcases mem_append.mp h with h | h
    · exact .inl h
    · exact .inr (mem_singleton.mp h)
  · split_ifs at h with hlt
    · exact .inl h
    · obtain ⟨cand, hcand, heq⟩ := mem_map.mp h
      split_ifs at heq with hcomp
      · exact .inr heq.symm
      · exact .inl (heq ▸ hcand)

theorem mem_foldl_keepMostUrgent (h : due ∈ selected.foldl keepMostUrgent candidates) :
    due ∈ candidates ∨ due ∈ selected := by
  induction selected generalizing candidates with
  | nil => exact .inl h
  | cons first rest ih =>
    rcases ih h with hmem | hmem
    · rcases mem_keepMostUrgent hmem with hmem | rfl
      · exact .inl hmem
      · exact .inr (mem_cons_self ..)
    · exact .inr (mem_cons_of_mem _ hmem)

theorem mem_dueCandidates (h : due ∈ dueCandidates selected deliveredAtMs) :
    due ∈ selected ∧ deliveredAtMs < due.row.expiryAtMs := by
  have hmem := (perm_insertionSort _ _).mem_iff.mp h
  rcases mem_foldl_keepMostUrgent hmem with hmem | hmem
  · cases hmem
  · obtain ⟨hsel, hex⟩ := mem_filter.mp hmem
    exact ⟨hsel, of_decide_eq_true hex⟩

/-- A row of a page that is not expired belongs to the current revision of its lot. -/
theorem candidate_of_page (hc : Constraints db) (hh : History db) (hs : AllScheduled sha db)
    (h : due ∈ dueCandidates (loadDuePage db deliveredAtMs channel maxRows) deliveredAtMs) :
    Candidate db due deliveredAtMs := by
  obtain ⟨hpg, hex⟩ := mem_dueCandidates h
  obtain ⟨hrow, _, hdue, hlot⟩ := mem_loadDuePage hpg
  obtain ⟨⟨cur, hcur, href, hsta, hexA⟩, htime, _⟩ := hs due.row hrow
  obtain ⟨revision, hrev, hrevR, hcon⟩ := revisionLot?_some hlot
  obtain ⟨stored, hsto, rfl⟩ := hh.content cur hcur
  obtain rfl : stored = revision := hc.lotRevisions.eq_of_key hsto hrev
    (href.trans hrevR.symm)
  refine ⟨⟨?_, ?_, htime, hdue, hex⟩, ?_, stored, hrev, hrevR, hcon⟩
  · rw [← hcon]
    exact hsta
  · rw [← hcon]
    exact hexA
  · rw [← href]
    exact (hh.current_latest _ hcur).symm

theorem Delivered.processDueBenefitReminders (hc : Constraints db) (hh : History db)
    (hs : AllScheduled sha db) (h : Delivered db events)
    (hok : processDueBenefitReminders db deliveredAtMs channel maxRows = .ok done) :
    Delivered done.db
      (events ++ done.delivered.map fun due => .delivered due deliveredAtMs) := by
  rcases processDueBenefitReminders_ok hok with ⟨hsm, hno⟩ | ⟨_, _, _, hpos, hpg⟩
  · rw [hsm, hno]
    simpa using h
  · obtain ⟨sent, kept, hfo, _, _, _, hnx⟩ := deliverPage_ok hpg
    have hsent : Delivered sent
        (events ++ done.delivered.map fun due => .delivered due deliveredAtMs) := by
      refine (@foldlM_keeps _ _ _ (fun prog : BenefitStore × List StoredDue =>
        prog.1.changes = db.changes ∧ prog.1.lotRevisions = db.lotRevisions ∧
          Constraints prog.1 ∧ Delivered prog.1
            (events ++ prog.2.map fun due => .delivered due deliveredAtMs)) _ _ _ _ hfo
        ⟨rfl, rfl, hc, by simpa using h⟩ ?_).2.2.2
      rintro due hdue before after ⟨hchs, hrevs, hcbef, hbef⟩ hst
      have hcafter := hcbef.deliverCandidate hst
      rcases deliverCandidate_ok hst with rfl | ⟨hunsent, _, hfr, rfl⟩
      · exact ⟨hchs, hrevs, hcbef, hbef⟩
      · obtain ⟨hinT, hlat, hcon⟩ := candidate_of_page hc hh hs hdue
        have hcand : Candidate before.1 due deliveredAtMs :=
          ⟨hinT, hchs ▸ hlat, hrevs ▸ hcon⟩
        refine ⟨hchs, hrevs, hcafter, ?_⟩
        rw [map_append, ← append_assoc]
        exact hbef.deliver hcbef hpos hcand hunsent hfr
    rw [hnx]
    exact hsent.frame rfl rfl (fun _ hrow => hrow) fun _ => le_refl _

/-! ### The other calls -/

/-- A page keeps the receipts that can still suppress a reminder and the deliveries that wait. -/
theorem Delivered.maintained (hc : Constraints db) (hh : History db) (h : Delivered db events)
    {deliveries : List DeliveryRow} (hm : Maintained sid db chs revs deliveries next) :
    Delivered next events := by
  have hlat := hm.latestRevision_eq hc hh
  have hkp : ∀ row ∈ db.deliveries, row ∉ deliveries → row ∈ next.deliveries := by
    intro row hrow hstays
    rw [hm.deliveries, mem_filter, all_eq_true]
    refine ⟨hrow, ?_⟩
    intro old hold
    rw [Bool.not_eq_true', ← Bool.not_eq_true, Bool.and_eq_true, beq_iff_eq, beq_iff_eq]
    rintro ⟨_, hid⟩
    have hsm := hc.deliveries.eq_of_key hrow (hm.deliveries_done old hold).1 hid
    exact hstays (hsm ▸ hold)
  refine { h with receipt := ?_, waiting := ?_ }
  · intro due deliveredAtMs hev
    rw [hlat]
    rcases h.receipt due deliveredAtMs hev with hrec | hpast
    · obtain ⟨row, hrow, href, hch, hle⟩ := hasReceipt_iff.mp hrec
      by_cases hold : row ∈ deliveries
      · -- the receipt goes because its revision is not the current one
        obtain ⟨_, _, hnotC⟩ := hm.deliveries_done row hold
        obtain ⟨revision, hrev, hrevR⟩ :=
          revisionStored_iff.mp (hc.delivery_stored row hrow)
        have hbd := hh.revision_le revision hrev
        have hlt : revision.revision ≠ latestRevision db.changes revision.ref.lot := by
          intro heq
          obtain ⟨cur, hcur, hsm⟩ := hh.revision_current revision hrev heq
          exact hnotC cur hcur (hsm.trans hrevR)
        have heq : revision.ref = due.row.ref := hrevR.trans href
        refine .inr ?_
        rw [← heq]
        exact lt_of_le_of_ne hbd hlt
      · exact .inl (hasReceipt_iff.mpr ⟨row, hkp row hrow hold, href, hch, hle⟩)
    · exact .inr hpast
  · intro e hent
    obtain ⟨hpos, hrec, hack, revision, hrev, href, hlot⟩ := h.waiting e hent
    have hstays : e.1.receipt e.2 hpos ∉ deliveries := by
      intro hold
      have hacked := (hm.deliveries_done _ hold).2.1
      rw [StoredDue.receipt, hack] at hacked
      cases hacked
    have hrecN := hkp _ hrec hstays
    refine ⟨hpos, hrecN, ?_, ?_⟩
    · rw [BenefitStore.acknowledged, any_eq_false] at hack ⊢
      intro ack hmem
      rw [hm.acks] at hmem
      exact hack ack (mem_of_mem_filter hmem)
    · obtain ⟨stored, hsto, hstoR⟩ :=
        revisionStored_iff.mp ((Constraints.maintained hm hc).delivery_stored _ hrecN)
      have hsm : stored = revision :=
        hc.lotRevisions.eq_of_key (hm.mem_lotRevisions hsto) hrev (hstoR.trans href.symm)
      exact ⟨stored, hsto, hstoR, hsm ▸ hlot⟩

theorem Delivered.applyBenefitObservation (h : Delivered db events)
    (hok : applyBenefitObservation sha db obs = .ok (next, res)) :
    Delivered next events := by
  obtain ⟨ensured, cur, recn, hens, _, _, _, hwr⟩ :=
    applyBenefitObservation_ok hok
  have hb : Delivered ensured events := by
    rw [ensureScope_frame hens]
    exact h.frame rfl rfl (fun _ hrow => hrow) fun _ => le_refl _
  rcases hwr with ⟨_, rfl⟩ | ⟨_, hw⟩
  · exact hb
  · obtain ⟨rows, _, hchs⟩ := hw.changes
    refine hb.frame hw.deliveries hw.acks ?_ ?_
    · intro row hrow
      rw [hw.lotRevisions]
      exact mem_append_left _ hrow
    · intro lot
      rw [hchs, latestRevision_append]
      exact le_max_left _ _

/-- Every call that commits keeps the receipts that its events and the earlier ones need. -/
theorem Delivered.call (hc : Constraints db) (hh : History db) (hs : AllScheduled sha db)
    (h : Delivered db events) {call : BenefitCall}
    (hok : callBenefit sha db call = .ok (next, added)) : Delivered next (events ++ added) := by
  cases callBenefit_ok hok with
  | observe hcl =>
    rw [append_nil]
    exact h.applyBenefitObservation hcl
  | setOverride hcl =>
    rw [append_nil, setBenefitReminderOverride_frame hcl]
    exact h.frame rfl rfl (fun _ hrow => hrow) fun _ => le_refl _
  | setGlobalProfile hcl =>
    rw [append_nil, setBenefitReminderGlobalProfile_frame hcl]
    exact h.frame rfl rfl (fun _ hrow => hrow) fun _ => le_refl _
  | processDue hcl => exact h.processDueBenefitReminders hc hh hs hcl
  | acknowledge hcl => exact h.acknowledgeBenefitReminders hcl
  | maintain hpg =>
    rw [append_nil]
    exact h.maintained hc hh hpg

end Delivered

/-! ### The deliveries that wait fit one page -/

/-- No channel has more unacknowledged deliveries than the largest page. -/
def FewWaiting (db : BenefitStore) : Prop :=
  ∀ channel, (unacknowledgedRows db channel).length ≤ maxDueReminderPageSize

/-- Rows that still wait have waited before. -/
theorem FewWaiting.mono (h : FewWaiting db)
    (hrs : ∀ channel, (unacknowledgedRows next channel).length ≤
      (unacknowledgedRows db channel).length) : FewWaiting next :=
  fun channel => (hrs channel).trans (h channel)

theorem FewWaiting.frame (h : FewWaiting db) (hds : next.deliveries = db.deliveries)
    (hacks : next.acks = db.acks) : FewWaiting next := by
  refine h.mono fun channel => ?_
  simp only [unacknowledgedRows, BenefitStore.acknowledged, hds, hacks, le_refl]

variable {channel : NotificationChannel} {maxRows : ℕ}

theorem unacknowledgedRows_nil (hc : Constraints db) (hmax : 0 < maxRows)
    (h : loadUnacknowledgedDeliveries db channel maxRows = []) :
    unacknowledgedRows db channel = [] := by
  rw [eq_nil_iff_forall_not_mem]
  intro row hrow
  have hsto := hc.delivery_stored row (mem_of_mem_filter hrow)
  obtain ⟨rev, hrev, href⟩ := revisionStored_iff.mp hsto
  unfold loadUnacknowledgedDeliveries at h
  rw [take_eq_nil_iff, filterMap_eq_nil_iff] at h
  rcases h with hz | hno
  · omega
  · have hlot := hno row ((perm_insertionSort _ _).mem_iff.mpr hrow)
    rw [revisionLot?, hc.lotRevisions.find?_eq hrev href] at hlot
    cases hlot

variable {deliveredAtMs : ℤ}

theorem deliverPage_length {hpos : 0 < deliveredAtMs}
    (h : deliverPage db deliveredAtMs hpos channel selected = .ok done) :
    done.delivered.length ≤ selected.length := by
  obtain ⟨⟨delivered, sent⟩, _, h⟩ := bind_eq_ok.mp h
  obtain ⟨kept, _, h⟩ := bind_eq_ok.mp h
  obtain ⟨updated, _, h⟩ := bind_eq_ok.mp h
  obtain ⟨_, hct, h⟩ := bind_eq_ok.mp h
  cases h
  rw [ensure_eq_ok, decide_eq_true_iff] at hct
  exact (Nat.le_add_left _ _).trans hct

/-- Only rows of the page are delivered. -/
theorem deliverCandidates_mem {hpos : 0 < deliveredAtMs} {delivered : List StoredDue}
    (h : candidates.foldlM (deliverCandidate deliveredAtMs hpos) (db, []) =
      .ok (next, delivered)) : ∀ due ∈ delivered, due ∈ candidates := by
  refine @foldlM_keeps _ _ _ (fun prog : BenefitStore × List StoredDue =>
    ∀ due ∈ prog.2, due ∈ candidates) _ _ _ _ h (by simp) ?_
  intro cand hcand before after hbef hst
  rcases deliverCandidate_ok hst with rfl | ⟨_, _, _, rfl⟩
  · exact hbef
  · exact forall_mem_append_one hbef hcand

theorem FewWaiting.processDueBenefitReminders (hc : Constraints db) (h : FewWaiting db)
    (hok : processDueBenefitReminders db deliveredAtMs channel maxRows = .ok done) :
    FewWaiting done.db := by
  rcases processDueBenefitReminders_ok hok with ⟨hsm, _⟩ | ⟨hmax, hpg, hno, hpos, hdeli⟩
  · rw [hsm]
    exact h
  · obtain ⟨sent, kept, hfo, _, _, _, hnx⟩ := deliverPage_ok hdeli
    have hlength : done.delivered.length ≤ maxRows :=
      (deliverPage_length hdeli).trans (length_take_le _ _)
    have hch : ∀ due ∈ done.delivered, due.row.channel = channel := by
      intro due hdue
      exact (mem_loadDuePage (mem_dueCandidates (deliverCandidates_mem hfo due hdue)).1).2.1
    intro other
    have hrs : unacknowledgedRows done.db other = unacknowledgedRows db other ++
        (done.delivered.map fun due => due.receipt deliveredAtMs hpos).filter fun row =>
          row.channel == other && !db.acknowledged row.deliveryId := by
      rw [hnx, deliverCandidates_ok hfo]
      exact filter_append ..
    rw [hrs, length_append]
    by_cases hsm : other = channel
    · have hemp : unacknowledgedRows db other = [] := by
        rw [hsm]
        exact unacknowledgedRows_nil hc hmax hno
      rw [hemp, length_nil, Nat.zero_add]
      refine (length_filter_le _ _).trans ?_
      rw [length_map]
      omega
    · have hemp : ((done.delivered.map fun due => due.receipt deliveredAtMs hpos).filter
          fun row => row.channel == other && !db.acknowledged row.deliveryId) = [] := by
        rw [filter_eq_nil_iff]
        intro row hrow
        obtain ⟨due, hdue, rfl⟩ := mem_map.mp hrow
        have hne : ((due.receipt deliveredAtMs hpos).channel == other) = false := by
          rw [StoredDue.receipt, hch due hdue]
          simpa using Ne.symm hsm
        simp [hne]
      rw [hemp, length_nil, Nat.add_zero]
      exact h other

theorem FewWaiting.acknowledgeBenefitReminders (h : FewWaiting db)
    (hok : acknowledgeBenefitReminders db deliveries acknowledgedAtMs = .ok acked) :
    FewWaiting acked.db := by
  refine @foldlM_keeps _ _ _ (fun prog : BenefitStore × List ReminderDeliveryId =>
    FewWaiting prog.1) _ _ _ _ (acknowledgeBenefitReminders_ok hok) h ?_
  intro delivery _ before after hbef hst
  rcases acknowledgeDelivery_ok hst with rfl | ⟨_, _, rfl⟩
  · exact hbef
  · refine hbef.mono fun channel => ?_
    unfold unacknowledgedRows
    rw [← countP_eq_length_filter, ← countP_eq_length_filter]
    refine countP_mono_left fun row _ hrow => ?_
    simp only [BenefitStore.acknowledged, any_append, Bool.not_or, Bool.and_eq_true] at hrow ⊢
    exact ⟨hrow.1, hrow.2.1⟩

theorem FewWaiting.maintained (hc : Constraints db) (h : FewWaiting db)
    {deliveries : List DeliveryRow} (hm : Maintained sid db chs revs deliveries next) :
    FewWaiting next := by
  refine h.mono fun channel => ?_
  unfold unacknowledgedRows
  rw [hm.deliveries, filter_filter, ← countP_eq_length_filter, ← countP_eq_length_filter]
  refine countP_mono_left fun row hrow hkp => ?_
  simp only [Bool.and_eq_true, Bool.not_eq_true', all_eq_true] at hkp ⊢
  refine ⟨hkp.1.1, ?_⟩
  -- an acknowledgement goes only together with its delivery
  cases hack : db.acknowledged row.deliveryId with
  | false => rfl
  | true =>
    obtain ⟨ack, hmem, hid⟩ := acknowledged_iff.mp hack
    have hgo : ack ∉ next.acks := by
      intro hstays
      have hacked := acknowledged_iff.mpr ⟨ack, hstays, hid⟩
      rw [hkp.1.2] at hacked
      cases hacked
    rw [hm.acks, mem_filter, not_and, Bool.not_eq_true', Bool.not_eq_false, any_eq_true] at hgo
    obtain ⟨old, hold, holdId⟩ := hgo hmem
    rw [beq_iff_eq, hid] at holdId
    have hsm := hc.deliveries.eq_of_key hrow (hm.deliveries_done old hold).1 holdId.symm
    have hstays := hkp.2 old hold
    rw [hsm, hm.deliveries_scope old hold] at hstays
    simp at hstays

theorem FewWaiting.call (hc : Constraints db) (h : FewWaiting db) {call : BenefitCall}
    (hok : callBenefit sha db call = .ok (next, added)) :
    FewWaiting next := by
  cases callBenefit_ok hok with
  | observe hcl =>
    obtain ⟨ensured, _, _, hens, _, _, _, hwr⟩ := applyBenefitObservation_ok hcl
    have hb : FewWaiting ensured := by
      rw [ensureScope_frame hens]
      exact h.frame rfl rfl
    rcases hwr with ⟨_, hsm⟩ | ⟨_, hw⟩
    · rw [hsm]
      exact hb
    · exact hb.frame hw.deliveries hw.acks
  | setOverride hcl =>
    rw [setBenefitReminderOverride_frame hcl]
    exact h.frame rfl rfl
  | setGlobalProfile hcl =>
    rw [setBenefitReminderGlobalProfile_frame hcl]
    exact h.frame rfl rfl
  | processDue hcl => exact h.processDueBenefitReminders hc hcl
  | acknowledge hcl => exact h.acknowledgeBenefitReminders hcl
  | maintain hpg => exact h.maintained hc hpg

/-! ### Runs -/

/-- The invariants of a store together with the events of the run that led to it. -/
structure Sound (sha256 : Bytes → Bytes32) (db : BenefitStore) (events : List ReminderEvent) :
    Prop where
  constraints : Constraints db
  history : History db
  scheduled : AllScheduled sha256 db
  delivered : Delivered db events
  fewWaiting : FewWaiting db

theorem sound_empty : Sound sha .empty [] where
  constraints := constraints_empty
  history := history_empty
  scheduled := by simp [AllScheduled, BenefitStore.empty]
  delivered := delivered_empty
  fewWaiting := by simp [FewWaiting, unacknowledgedRows, BenefitStore.empty]

theorem Sound.step {events : List ReminderEvent} (h : Sound sha db events) (call : BenefitCall) :
    Sound sha (stepBenefit sha db call).1 (events ++ (stepBenefit sha db call).2) := by
  unfold stepBenefit
  cases hcl : callBenefit sha db call with
  | error e => simpa using h
  | ok res =>
    exact ⟨h.constraints.call hcl, h.history.call h.constraints hcl,
      h.scheduled.call h.constraints h.history hcl,
      h.delivered.call h.constraints h.history h.scheduled hcl,
      h.fewWaiting.call h.constraints hcl⟩

theorem Sound.run {events : List ReminderEvent} (h : Sound sha db events)
    (calls : List BenefitCall) :
    Sound sha (runBenefit sha db calls).1 (events ++ (runBenefit sha db calls).2) := by
  induction calls generalizing db events with
  | nil => simpa [runBenefit] using h
  | cons call calls ih =>
    have hnx := ih (h.step call)
    rw [append_assoc] at hnx
    exact hnx

/-- A delivery that waits is in every page that has room for all deliveries of its channel. -/
theorem Sound.waiting_loaded {events : List ReminderEvent} (h : Sound sha db events)
    {due : StoredDue} (hwait : (due, deliveredAtMs) ∈ waiting events)
    (hrm : (unacknowledgedRows db due.row.channel).length ≤ maxRows) :
    ∃ hpos : 0 < deliveredAtMs, (due.receipt deliveredAtMs hpos).report due.lot ∈
      loadUnacknowledgedDeliveries db due.row.channel maxRows := by
  obtain ⟨hpos, hrec, hack, rev, hrev, href, hlot⟩ := h.delivered.waiting _ hwait
  refine ⟨hpos, ?_⟩
  unfold loadUnacknowledgedDeliveries
  rw [take_of_length_le]
  · refine mem_filterMap.mpr ⟨due.receipt deliveredAtMs hpos, ?_, ?_⟩
    · rw [(perm_insertionSort _ _).mem_iff]
      refine mem_filter.mpr ⟨hrec, ?_⟩
      simp [StoredDue.receipt, hack]
    · have hf : revisionLot? db (due.receipt deliveredAtMs hpos).ref = some due.lot := by
        have hsto : rev.ref = (due.receipt deliveredAtMs hpos).ref := href
        rw [revisionLot?, h.constraints.lotRevisions.find?_eq hrev hsto]
        exact congrArg some hlot
      rw [hf]
      rfl
  · refine (length_filterMap_le _ _).trans ?_
    rwa [length_insertionSort]

/-- **Reminders only get more urgent.**  In every run the lead times delivered for a lot revision and
channel decrease, so a threshold that was passed over for a more urgent one never follows; every
delivery falls between its due time and the expiry of its lot; and a delivery that was not
acknowledged is in every page of unacknowledged deliveries with room for all of its channel, of which
there are never more than fit the largest page. -/
theorem reminders_more_urgent (sha256 : Bytes → Bytes32) (calls : List BenefitCall) :
    (∀ ref channel,
      (leadTimes (runBenefit sha256 .empty calls).2 ref channel).Pairwise (· > ·)) ∧
    (∀ more due deliveredAtMs due' deliveredAtMs',
      .delivered due deliveredAtMs ∈ (runBenefit sha256 .empty calls).2 →
      .delivered due' deliveredAtMs' ∈
        (runBenefit sha256 (runBenefit sha256 .empty calls).1 more).2 →
      due'.row.ref = due.row.ref → due'.row.channel = due.row.channel →
        due'.row.threshold.seconds < due.row.threshold.seconds) ∧
    (∀ due deliveredAtMs, .delivered due deliveredAtMs ∈ (runBenefit sha256 .empty calls).2 →
      InTime due deliveredAtMs) ∧
    (∀ due deliveredAtMs, (due, deliveredAtMs) ∈ waiting (runBenefit sha256 .empty calls).2 →
      ∀ maxRows, (unacknowledgedRows (runBenefit sha256 .empty calls).1
          due.row.channel).length ≤ maxRows →
        ∃ hpos : 0 < deliveredAtMs, (due.receipt deliveredAtMs hpos).report due.lot ∈
          loadUnacknowledgedDeliveries (runBenefit sha256 .empty calls).1 due.row.channel
            maxRows) ∧
    ∀ channel, (unacknowledgedRows (runBenefit sha256 .empty calls).1 channel).length ≤
      maxDueReminderPageSize := by
  have hsd := (@sound_empty sha256).run calls
  refine ⟨hsd.delivered.decreasing, ?_, hsd.delivered.inTime, ?_, hsd.fewWaiting⟩
  · intro more due deliveredAtMs due' deliveredAtMs' hearl hlat href hch
    have hdecr := (hsd.run more).delivered.decreasing due.row.ref due.row.channel
    rw [leadTimes_append, pairwise_append] at hdecr
    refine hdecr.2.2 _ ?_ _ ?_
    · exact mem_filterMap.mpr ⟨_, hearl, if_pos ⟨rfl, rfl⟩⟩
    · exact mem_filterMap.mpr ⟨_, hlat, if_pos ⟨href, hch⟩⟩
  · intro due deliveredAtMs hwait maxRows hrm
    exact hsd.waiting_loaded hwait hrm

/-- A lot is observed and a reminder of it is delivered. -/
def exampleReminder : List BenefitCall :=
  [.observe (exampleObservation 1 0 (some (exampleLot .available))),
    .processDue 9950000000 .inApp 8]

/-- The reminder is acknowledged, and a more urgent one follows. -/
def exampleReminders : List BenefitCall :=
  exampleReminder ++
    [.acknowledge (loadUnacknowledgedDeliveries
      (runBenefit polynomialDigest .empty exampleReminder).1 .inApp 8) 9950000001,
    .processDue 9999000000 .inApp 8]

set_option maxRecDepth 20000 in
theorem reminders_more_urgent_example :
    leadTimes (runBenefit polynomialDigest .empty exampleReminders).2
        ⟨⟨benefitScopeId polynomialDigest exampleScope, Bytes32.replicate 1⟩, 1⟩ .inApp =
      [86400, 3600] ∧
    (waiting (runBenefit polynomialDigest .empty exampleReminders).2).length = 1 ∧
    ∀ entry ∈ waiting (runBenefit polynomialDigest .empty exampleReminders).2,
      ∃ hpos : 0 < entry.2, (entry.1.receipt entry.2 hpos).report entry.1.lot ∈
        loadUnacknowledgedDeliveries (runBenefit polynomialDigest .empty exampleReminders).1
          entry.1.row.channel maxDueReminderPageSize := by
  refine ⟨by decide +kernel, by decide +kernel, ?_⟩
  intro entry hent
  obtain ⟨_, _, _, hld, hfew⟩ := reminders_more_urgent polynomialDigest exampleReminders
  exact hld entry.1 entry.2 hent _ (hfew _)

/-- Two lots in one observation. -/
def exampleTwoLots : BenefitInventoryObservation :=
  { exampleObservation 1 0 none with
    lots := [exampleLot .available, { exampleLot .available with lotId := Bytes32.replicate 2 }]
    lots_length_le := by decide
    lots_nodup := by decide }

set_option maxRecDepth 20000 in
/-- Both lots are reminded of in one page; a later page of one row returns only one of them. -/
theorem reminder_outside_page :
    ∃ entry ∈ waiting (runBenefit polynomialDigest .empty
        [.observe exampleTwoLots, .processDue 9950000000 .inApp 8]).2,
      (∃ row ∈ (runBenefit polynomialDigest .empty
        [.observe exampleTwoLots, .processDue 9950000000 .inApp 8]).1.current,
          row.ref = entry.1.row.ref) ∧
      ∀ delivery ∈ loadUnacknowledgedDeliveries (runBenefit polynomialDigest .empty
        [.observe exampleTwoLots, .processDue 9950000000 .inApp 8]).1 .inApp 1,
          delivery.deliveryId ≠ entry.1.row.deliveryId := by
  decide +kernel

end TokenMaster.Benefits
