import Mathlib.Data.List.ProdSigma
import TokenMaster.Benefits.Reapply
import TokenMaster.Benefits.Writes

/-!
# TokenMaster.Benefits.Collapse — one due reminder for a lot and a channel

`collapse_due_reminders` of `crates/benefits/src/reminder.rs` after `schedule_reminders`.  The map of
the source is a list with one entry for each lot and channel.
-/

namespace TokenMaster.Benefits

open TokenMaster.Except List

open Domain

/-! ### The model -/

/-- Reminders for one lot over one channel replace each other. -/
def ReminderDue.slot (entry : ReminderDue) : BenefitLotId × NotificationChannel :=
  (entry.lotId, entry.channel)

def selectDue (selected : List ReminderDue) (entry : ReminderDue) : List ReminderDue :=
  if selected.any fun current =>
      current.slot = entry.slot ∧ current.leadTime.seconds ≤ entry.leadTime.seconds then selected
  else entry :: selected.filter fun current => current.slot ≠ entry.slot

/-- The order of the result: expiry, lot id, channel. -/
def ReminderDue.compare : ReminderDue → ReminderDue → Ordering :=
  compareLex (compareOn (·.expiryAtMs))
    (compareLex (compareOn (·.lotId.asBytes)) (compareOn (·.channel.code)))

def ReminderDue.isDue (nowMs : ℤ) (entry : ReminderDue) : Bool :=
  entry.dueAtMs ≤ nowMs ∧ nowMs < entry.expiryAtMs

/-- The due entries, one for each slot, in order. -/
def collapsed (scheduled : List ReminderDue) (nowMs : ℤ) : List ReminderDue :=
  ((scheduled.filter (·.isDue nowMs)).foldl selectDue []).insertionSort fun a b =>
    (a.compare b).isLE

/-- One entry for each slot, with the least lead time. -/
structure Selects (entries selected : List ReminderDue) : Prop where
  keyed : Keyed ReminderDue.slot selected
  least : ∀ e ∈ selected, e ∈ entries ∧
    ∀ o ∈ entries, o.slot = e.slot → e.leadTime.seconds ≤ o.leadTime.seconds
  covers : ∀ o ∈ entries, ∃ e ∈ selected, e.slot = o.slot

variable {entries selected : List ReminderDue}

theorem Selects.step (h : Selects entries selected) (entry : ReminderDue) :
    Selects (entries ++ [entry]) (selectDue selected entry) := by
  unfold selectDue
  split_ifs with hany
  · obtain ⟨c, hc, hle⟩ := any_eq_true.mp hany
    obtain ⟨hslot, hle⟩ := of_decide_eq_true hle
    refine ⟨h.keyed, fun e he => ⟨mem_append_left _ (h.least e he).1, ?_⟩, ?_⟩
    · refine forall_mem_append_one (h.least e he).2 fun heq => ?_
      rw [h.keyed.eq_of_key he hc (heq.symm.trans hslot.symm)]
      exact hle
    · exact forall_mem_append_one h.covers ⟨c, hc, hslot⟩
  · have hlt : ∀ e ∈ selected, e.slot = entry.slot →
        entry.leadTime.seconds < e.leadTime.seconds := by
      simpa using hany
    have hne : ∀ e ∈ selected.filter fun current => current.slot ≠ entry.slot,
        e.slot ≠ entry.slot := fun e he => by simpa using of_mem_filter he
    refine ⟨?_, ?_, ?_⟩
    · refine nodup_cons.mpr ⟨fun hmem => ?_, h.keyed.filter _⟩
      obtain ⟨e, he, heq⟩ := mem_map.mp hmem
      exact hne e he heq
    · refine forall_mem_cons.mpr ⟨⟨mem_append_right _ (mem_singleton_self _), ?_⟩, ?_⟩
      · refine forall_mem_append_one (fun o ho heq => ?_) fun _ => le_rfl
        obtain ⟨e, he, hes⟩ := h.covers o ho
        exact (hlt e he (hes.trans heq)).le.trans ((h.least e he).2 o ho hes.symm)
      · intro e he
        obtain ⟨hmem, hle⟩ := h.least e (mem_of_mem_filter he)
        refine ⟨mem_append_left _ hmem, forall_mem_append_one hle fun heq => ?_⟩
        exact absurd heq.symm (hne e he)
    · refine forall_mem_append_one (fun o ho => ?_) ⟨entry, mem_cons_self .., rfl⟩
      by_cases heq : o.slot = entry.slot
      · exact ⟨entry, mem_cons_self .., heq.symm⟩
      · obtain ⟨e, he, hes⟩ := h.covers o ho
        exact ⟨e, mem_cons_of_mem _ (mem_filter.mpr ⟨he, decide_eq_true (hes ▸ heq)⟩), hes⟩

variable {sha256 : Bytes → Bytes32} {scope : BenefitScope} {profile profile' : ReminderProfile}
  {nowMs : ℤ} {lot : BenefitCurrentLot} {entry : ReminderDue}

instance : Std.TransCmp ReminderDue.compare := by
  unfold ReminderDue.compare
  infer_instance

variable {scheduled : List ReminderDue}

variable {current : BenefitInventoryState}

theorem InventoryReached.length_le (h : InventoryReached sha256 current) :
    current.lots.length ≤ maxBenefitLotsPerObservation := by
  induction h with
  | fromParts h =>
    unfold BenefitInventoryState.fromParts at h
    split_ifs at h with h1 h2 h3
    cases h
    exact (perm_insertionSort _ _).length_eq.trans_le (not_lt.mp h1)
  | reconcile hc h ih =>
    rcases reconcileInventory_ok hc.keyed h with ⟨-, hst, -⟩ | ⟨-, hrec⟩
    · rw [hst]
      exact ih
    · exact hrec.lots_length_le

end TokenMaster.Benefits
