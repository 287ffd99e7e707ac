import Mathlib.Algebra.BigOperators.Group.List.Basic
import Mathlib.Tactic.SplitIfs
import TokenMaster.State.Settings

/-!
# TokenMaster.State.Retention — planning which backups to delete

`plan_facts` of `crates/state/src/retention.rs`.  The facts are sorted, newest first.  The vectors
`protected` and `keep` of the source, which are indexed by the sorted facts and set for verified facts
only, are flags beside the verified facts (`RetentionSlot`).  Each stage of the plan is a function on the
slots:

* `protectSlots`: the candidate, the pinned backup, the two newest and the newest unresolved
  pre-migration backup;
* `keepNewest` and two runs of `keepBuckets`: further backups by age, up to 15;
* `trim`: kept backups are given up, oldest first, until the rest fits the budget.

Every stage but the last only adds to what is kept, and the last gives up nothing protected.
-/

namespace TokenMaster.State

open TokenMaster.Except List

def retentionNewestPoints : ℕ := 4
def retentionDailyPoints : ℕ := 7
def retentionWeeklyPoints : ℕ := 4
def maxRetainedVerifiedPoints : ℕ := 15
def utcDayMilliseconds : ℤ := 86400000

/-! ### Facts -/

structure CatalogSelection where
  generation : ℕ
  ordinal : ℕ
  deriving DecidableEq

structure RetentionPolicy where
  budgetBytes : ℕ
  min_le : backupRetentionMinBytes ≤ budgetBytes
  le_max : budgetBytes ≤ backupRetentionMaxBytes

/-- A `u64` size. -/
structure RetentionFact where
  key : Bytes32
  createdAtUtcMs : Option ℤ
  purpose : Option BackupPurpose
  sizeBytes : ℕ
  verified : Bool
  candidate : Bool
  selection : Option CatalogSelection
  size_lt : sizeBytes < 2 ^ 64

/-- `created_at_utc_ms.unwrap_or(i64::MIN)`. -/
def RetentionFact.sortTime (fact : RetentionFact) : ℤ := fact.createdAtUtcMs.getD (-2 ^ 63)

/-- Newest first, then by key. -/
def RetentionFact.Before (left right : RetentionFact) : Prop :=
  right.sortTime < left.sortTime ∨
    right.sortTime = left.sortTime ∧ left.key.asBytes ≤ right.key.asBytes

instance : DecidableRel RetentionFact.Before := fun left right =>
  inferInstanceAs (Decidable (right.sortTime < left.sortTime ∨
    right.sortTime = left.sortTime ∧ left.key.asBytes ≤ right.key.asBytes))

def sortFacts (facts : List RetentionFact) : List RetentionFact :=
  facts.insertionSort RetentionFact.Before

/-- Comparison of two optional times; an absent one is the least. -/
def laterThan : Option ℤ → Option ℤ → Bool
  | some left, some right => decide (right < left)
  | some _, none => true
  | none, _ => false

def utcDayBucket (createdAtUtcMs : ℤ) : ℤ := createdAtUtcMs.tdiv utcDayMilliseconds

def utcWeekBucket (createdAtUtcMs : ℤ) : ℤ := (utcDayBucket createdAtUtcMs + 3).tdiv 7

/-! ### Slots -/

/-- A verified fact with its entries in `protected` and `keep`. -/
structure RetentionSlot where
  fact : RetentionFact
  isProtected : Bool
  keep : Bool

def RetentionSlot.kept (slot : RetentionSlot) : RetentionSlot := { slot with keep := true }
def RetentionSlot.dropped (slot : RetentionSlot) : RetentionSlot := { slot with keep := false }

/-- `retained_verified_count`. -/
def retainedVerifiedCount (slots : List RetentionSlot) : ℕ := slots.countP (·.keep)

/-- A pre-migration backup without a later verified post-migration backup. -/
def isUnresolved (verified : List RetentionFact) (fact : RetentionFact) : Bool :=
  fact.purpose == some .preMigration && !verified.any fun post =>
    post.purpose == some .postMigration && laterThan post.createdAtUtcMs fact.createdAtUtcMs

/-- The candidate and the pinned backup. -/
def protectMarked (protectedHash : Option Bytes32) (verified : List RetentionFact) : List RetentionSlot :=
  verified.map fun fact => ⟨fact, fact.candidate || protectedHash == some fact.key, false⟩

/-- The first `count` slots. -/
def protectNewest : ℕ → List RetentionSlot → List RetentionSlot
  | 0, slots => slots
  | _ + 1, [] => []
  | count + 1, slot :: slots => { slot with isProtected := true } :: protectNewest count slots

/-- The first slot that satisfies a condition. -/
def protectFirst (condition : RetentionFact → Bool) : List RetentionSlot → List RetentionSlot
  | [] => []
  | slot :: slots =>
    if condition slot.fact then { slot with isProtected := true } :: slots
    else slot :: protectFirst condition slots

def protectSlots (protectedHash : Option Bytes32) (verified : List RetentionFact) : List RetentionSlot :=
  protectFirst (isUnresolved verified) (protectNewest 2 (protectMarked protectedHash verified))

def keepProtected (slots : List RetentionSlot) : List RetentionSlot :=
  slots.map fun slot => { slot with keep := slot.isProtected }

/-- The loop over the newest points with `add_if_capacity`; `count` is the number of slots kept. -/
def keepNewest : ℕ → ℕ → List RetentionSlot → List RetentionSlot
  | 0, _, slots => slots
  | _ + 1, _, [] => []
  | points + 1, count, slot :: slots =>
    if count < maxRetainedVerifiedPoints then
      slot.kept :: keepNewest points (if slot.keep then count else count + 1) slots
    else slot :: keepNewest points count slots

/-- The buckets of the kept slots. -/
def representedBuckets (bucket : ℤ → ℤ) (slots : List RetentionSlot) : List ℤ :=
  (slots.filter (·.keep)).filterMap fun slot => slot.fact.createdAtUtcMs.map bucket

/-- The daily and the weekly loop: a slot is kept if no kept one is in its bucket.  `points` is what
may still be added and `count` the number of slots kept. -/
def keepBuckets (bucket : ℤ → ℤ) : ℕ → ℕ → List ℤ → List RetentionSlot → List RetentionSlot
  | _, _, _, [] => []
  | points, count, represented, slot :: slots =>
    if points = 0 ∨ maxRetainedVerifiedPoints ≤ count then slot :: slots
    else match slot.fact.createdAtUtcMs with
      | none => slot :: keepBuckets bucket points count represented slots
      | some time =>
        if !slot.keep && !represented.contains (bucket time) then
          slot.kept :: keepBuckets bucket (points - 1) (count + 1) (bucket time :: represented) slots
        else slot :: keepBuckets bucket points count represented slots

/-- One of the two loops, started on all slots. -/
def keepByAge (bucket : ℤ → ℤ) (points : ℕ) (slots : List RetentionSlot) : List RetentionSlot :=
  keepBuckets bucket points (retainedVerifiedCount slots) (representedBuckets bucket slots) slots

/-- What is kept before the budget is looked at. -/
def keepPoints (slots : List RetentionSlot) : List RetentionSlot :=
  let protectedOnly := keepProtected slots
  let newest := keepNewest retentionNewestPoints (retainedVerifiedCount protectedOnly) protectedOnly
  keepByAge utcWeekBucket retentionWeeklyPoints (keepByAge utcDayBucket retentionDailyPoints newest)

/-! ### The budget -/

/-- A sum with `checked_add`. -/
def checkedSum : ℕ → List ℕ → Except StateErrorCode ℕ
  | total, [] => .ok total
  | total, size :: sizes =>
    if total + size < 2 ^ 64 then checkedSum (total + size) sizes else .error .capacityExceeded

def sizes (facts : List RetentionFact) : List ℕ := facts.map (·.sizeBytes)

def keptFacts (slots : List RetentionSlot) : List RetentionFact := (slots.filter (·.keep)).map (·.fact)

/-- The loop on `kept_bytes`, with the slots oldest first.  The search for the next removable slot goes
on where the last one ended: what it has passed stays as it is. -/
def trim (budget : ℕ) : ℕ → List RetentionSlot → Except StateErrorCode (List RetentionSlot)
  | bytes, [] => if bytes ≤ budget then .ok [] else .error .capacityExceeded
  | bytes, slot :: slots =>
    if bytes ≤ budget then .ok (slot :: slots)
    else if slot.keep && !slot.isProtected then
      if slot.fact.sizeBytes ≤ bytes then
        (trim budget (bytes - slot.fact.sizeBytes) slots).map (slot.dropped :: ·)
      else .error .internalInvariant
    else (trim budget bytes slots).map (slot :: ·)

/-! ### The plan -/

structure RetentionOutcome where
  deletions : List CatalogSelection
  retainedKeys : List Bytes32
  deriving DecidableEq

/-- `Vec::dedup`. -/
def dedupAdjacent : List CatalogSelection → List CatalogSelection
  | [] => []
  | first :: rest =>
    match dedupAdjacent rest with
    | [] => [first]
    | second :: others => if first = second then second :: others else first :: second :: others

/-- The facts that the source finds at the indices in `verified`. -/
def verifiedFacts (facts : List RetentionFact) : List RetentionFact :=
  (sortFacts facts).filter (·.verified)

def unverifiedFacts (facts : List RetentionFact) : List RetentionFact :=
  (sortFacts facts).filter (!·.verified)

/-- The flags at the end of `plan_facts`.  The source adds up unverified and kept sizes in sorted
order; the order does not matter for a checked sum of natural numbers. -/
def planSlots (facts : List RetentionFact) (protectedHash : Option Bytes32)
    (policy : RetentionPolicy) : Except StateErrorCode (List RetentionSlot) :=
  let slots := protectSlots protectedHash (verifiedFacts facts)
  if maxRetainedVerifiedPoints < slots.countP (·.isProtected) then .error .capacityExceeded
  else do
    let bytes ← checkedSum 0 (sizes (unverifiedFacts facts) ++ sizes (keptFacts (keepPoints slots)))
    (trim policy.budgetBytes bytes (keepPoints slots).reverse).map List.reverse

/-- The selections of the slots that are given up, oldest first. -/
def plannedDeletions (slots : List RetentionSlot) : List CatalogSelection :=
  dedupAdjacent (slots.reverse.filterMap fun slot => if slot.keep then none else slot.fact.selection)

def planFacts (facts : List RetentionFact) (protectedHash : Option Bytes32)
    (policy : RetentionPolicy) : Except StateErrorCode RetentionOutcome :=
  (planSlots facts protectedHash policy).map fun slots =>
    ⟨plannedDeletions slots, (keptFacts slots).map (·.key)⟩

/-! ### The stages keep the facts and what is protected -/

open RetentionSlot

/-- What no stage changes. -/
def RetentionSlot.mark (slot : RetentionSlot) : RetentionFact × Bool := (slot.fact, slot.isProtected)

/-- What is protected is kept. -/
def Protects (slots : List RetentionSlot) : Prop :=
  ∀ slot ∈ slots, slot.isProtected = true → slot.keep = true

theorem protects_cons {slot : RetentionSlot} {slots : List RetentionSlot} :
    Protects (slot :: slots) ↔ (slot.isProtected = true → slot.keep = true) ∧ Protects slots :=
  forall_mem_cons

theorem keepProtected_marks (slots : List RetentionSlot) :
    (keepProtected slots).map mark = slots.map mark := by
  simp [keepProtected, mark]

theorem protects_keepProtected (slots : List RetentionSlot) : Protects (keepProtected slots) := by
  intro slot hsl hpro
  obtain ⟨before, _, rfl⟩ := mem_map.mp hsl
  exact hpro

/-- A stage changes the flags only, and gives up nothing that is protected. -/
def Adjusts : List RetentionSlot → List RetentionSlot → Prop :=
  Forall₂ fun slot after => after.mark = slot.mark ∧
    (slot.isProtected = true → slot.keep = true → after.keep = true)

namespace Adjusts

variable {slots next : List RetentionSlot} {slot : RetentionSlot}

theorem same (h : Adjusts slots next) : Adjusts (slot :: slots) (slot :: next) :=
  .cons ⟨rfl, fun _ hkp => hkp⟩ h

theorem kept (h : Adjusts slots next) : Adjusts (slot :: slots) (slot.kept :: next) :=
  .cons ⟨rfl, fun _ _ => rfl⟩ h

protected theorem refl (slots : List RetentionSlot) : Adjusts slots slots := by
  induction slots with
  | nil => exact .nil
  | cons slot slots ih => exact same ih

theorem marks (h : Adjusts slots next) : next.map mark = slots.map mark := by
  induction h with
  | nil => rfl
  | cons hsl _ ih => rw [map_cons, map_cons, hsl.1, ih]

theorem protects (h : Adjusts slots next) (hprot : Protects slots) : Protects next := by
  induction h with
  | nil => exact hprot
  | cons hsl _ ih =>
    obtain ⟨hf, hrs⟩ := protects_cons.mp hprot
    refine protects_cons.mpr ⟨?_, ih hrs⟩
    intro hpro
    have hbef := (congrArg Prod.snd hsl.1).symm.trans hpro
    exact hsl.2 hbef (hf hbef)

end Adjusts

theorem keepNewest_adjusts (points count : ℕ) (slots : List RetentionSlot) :
    Adjusts slots (keepNewest points count slots) := by
  induction slots generalizing points count with
  | nil => cases points <;> exact .nil
  | cons slot slots ih =>
    cases points with
    | zero => exact .refl _
    | succ points =>
      unfold keepNewest
      split_ifs
      · exact (ih ..).kept
      · exact (ih ..).kept
      · exact (ih ..).same

/-- The newest points do not exceed the capacity. -/
theorem keepNewest_count {points count : ℕ} {slots : List RetentionSlot}
    (hct : count ≤ maxRetainedVerifiedPoints) :
    retainedVerifiedCount (keepNewest points count slots) + count ≤
      maxRetainedVerifiedPoints + retainedVerifiedCount slots := by
  induction slots generalizing points count with
  | nil =>
    cases points <;> simpa [keepNewest, retainedVerifiedCount] using hct
  | cons slot slots ih =>
    cases points with
    | zero =>
      simp only [keepNewest]
      omega
    | succ points =>
      unfold keepNewest
      by_cases hlt : count < maxRetainedVerifiedPoints
      · rw [if_pos hlt]
        cases hkp : slot.keep with
        | true =>
          have hrs := @ih points count hct
          simp only [if_true, retainedVerifiedCount, countP_cons, kept, hkp]
            at hrs ⊢
          omega
        | false =>
          have hrs := @ih points (count + 1) hlt
          simp only [Bool.false_eq_true, if_false, retainedVerifiedCount, countP_cons,
            kept, hkp, if_true] at hrs ⊢
          omega
      · rw [if_neg hlt]
        have hrs := @ih points count hct
        simp only [retainedVerifiedCount, countP_cons] at hrs ⊢
        omega

section BucketSteps

variable {bucket : ℤ → ℤ} {points count : ℕ} {represented : List ℤ} {slot : RetentionSlot}

theorem keepBuckets_end (h : points = 0 ∨ maxRetainedVerifiedPoints ≤ count)
    (slots : List RetentionSlot) : keepBuckets bucket points count represented slots = slots := by
  cases slots with
  | nil => rfl
  | cons slot slots => rw [keepBuckets, if_pos h]

theorem keepBuckets_pass (hgo : ¬ (points = 0 ∨ maxRetainedVerifiedPoints ≤ count))
    (hps : slot.keep = true ∨
      ∀ time, slot.fact.createdAtUtcMs = some time → bucket time ∈ represented)
    (slots : List RetentionSlot) :
    keepBuckets bucket points count represented (slot :: slots) =
      slot :: keepBuckets bucket points count represented slots := by
  rw [keepBuckets, if_neg hgo]
  cases htime : slot.fact.createdAtUtcMs with
  | none => rfl
  | some time =>
    rcases hps with hkp | hin
    · simp [hkp]
    · simp [hin time htime]

theorem keepBuckets_add (hgo : ¬ (points = 0 ∨ maxRetainedVerifiedPoints ≤ count))
    (hkp : slot.keep = false) {time : ℤ} (htime : slot.fact.createdAtUtcMs = some time)
    (hnew : bucket time ∉ represented) (slots : List RetentionSlot) :
    keepBuckets bucket points count represented (slot :: slots) =
      slot.kept :: keepBuckets bucket (points - 1) (count + 1) (bucket time :: represented) slots := by
  rw [keepBuckets, if_neg hgo, htime]
  exact if_pos (by simp [hkp, hnew])

/-- What the loops by age do with the next slot: they end, pass the slot or keep it. -/
theorem keepBuckets_cases (bucket : ℤ → ℤ) (points count : ℕ) (represented : List ℤ)
    (slot : RetentionSlot) :
    (points = 0 ∨ maxRetainedVerifiedPoints ≤ count) ∨
    (¬ (points = 0 ∨ maxRetainedVerifiedPoints ≤ count) ∧ (slot.keep = true ∨
      ∀ time, slot.fact.createdAtUtcMs = some time → bucket time ∈ represented)) ∨
    (¬ (points = 0 ∨ maxRetainedVerifiedPoints ≤ count) ∧ slot.keep = false ∧
      ∃ time, slot.fact.createdAtUtcMs = some time ∧ bucket time ∉ represented) := by
  by_cases hend : points = 0 ∨ maxRetainedVerifiedPoints ≤ count
  · exact .inl hend
  right
  cases hkp : slot.keep with
  | true => exact .inl ⟨hend, .inl rfl⟩
  | false =>
    by_cases hin : ∀ time, slot.fact.createdAtUtcMs = some time → bucket time ∈ represented
    · exact .inl ⟨hend, .inr hin⟩
    · push Not at hin
      exact .inr ⟨hend, rfl, hin⟩

end BucketSteps

section Buckets

variable (bucket : ℤ → ℤ)

theorem keepBuckets_adjusts (points count : ℕ) (represented : List ℤ)
    (slots : List RetentionSlot) : Adjusts slots (keepBuckets bucket points count represented slots) := by
  induction slots generalizing points count represented with
  | nil => exact .nil
  | cons slot slots ih =>
    rcases keepBuckets_cases bucket points count represented slot with
      hend | ⟨hgo, hps⟩ | ⟨hgo, hkp, time, htime, hnew⟩
    · rw [keepBuckets_end hend]
      exact .refl _
    · rw [keepBuckets_pass hgo hps]
      exact (ih ..).same
    · rw [keepBuckets_add hgo hkp htime hnew]
      exact (ih ..).kept

theorem keepBuckets_count {points count : ℕ} {represented : List ℤ} {slots : List RetentionSlot}
    (hct : count ≤ maxRetainedVerifiedPoints) :
    retainedVerifiedCount (keepBuckets bucket points count represented slots) + count ≤
      maxRetainedVerifiedPoints + retainedVerifiedCount slots := by
  induction slots generalizing points count represented with
  | nil => simpa [keepBuckets, retainedVerifiedCount] using hct
  | cons slot slots ih =>
    rcases keepBuckets_cases bucket points count represented slot with
      hend | ⟨hgo, hps⟩ | ⟨hgo, hkp, time, htime, hnew⟩
    · rw [keepBuckets_end hend]
      omega
    · have hrs := @ih points count represented hct
      rw [keepBuckets_pass hgo hps]
      simp only [retainedVerifiedCount, countP_cons] at hrs ⊢
      omega
    · have hrs := @ih (points - 1) (count + 1) (bucket time :: represented) (by omega)
      rw [keepBuckets_add hgo hkp htime hnew]
      simp only [retainedVerifiedCount, countP_cons, kept, hkp, if_true,
        Bool.false_eq_true, if_false] at hrs ⊢
      omega

theorem keepByAge_adjusts (points : ℕ) (slots : List RetentionSlot) :
    Adjusts slots (keepByAge bucket points slots) :=
  keepBuckets_adjusts bucket points _ _ slots

theorem keepByAge_count {points : ℕ} {slots : List RetentionSlot}
    (h : retainedVerifiedCount slots ≤ maxRetainedVerifiedPoints) :
    retainedVerifiedCount (keepByAge bucket points slots) ≤ maxRetainedVerifiedPoints := by
  have hct := @keepBuckets_count bucket points _ (representedBuckets bucket slots) slots h
  rw [keepByAge]
  omega

end Buckets

theorem keepPoints_marks (slots : List RetentionSlot) :
    (keepPoints slots).map mark = slots.map mark := by
  rw [keepPoints, (keepByAge_adjusts ..).marks, (keepByAge_adjusts ..).marks,
    (keepNewest_adjusts ..).marks, keepProtected_marks]

theorem protects_keepPoints (slots : List RetentionSlot) : Protects (keepPoints slots) :=
  (keepByAge_adjusts ..).protects ((keepByAge_adjusts ..).protects
    ((keepNewest_adjusts ..).protects (protects_keepProtected slots)))

variable {slots : List RetentionSlot} {error : StateErrorCode} {verified : List RetentionFact}
  {selection : CatalogSelection}

theorem keepPoints_count (h : slots.countP (·.isProtected) ≤ maxRetainedVerifiedPoints) :
    retainedVerifiedCount (keepPoints slots) ≤ maxRetainedVerifiedPoints := by
  have hpro : retainedVerifiedCount (keepProtected slots) ≤ maxRetainedVerifiedPoints := by
    simpa [retainedVerifiedCount, keepProtected, countP_map, Function.comp_def] using h
  refine keepByAge_count _ (keepByAge_count _ ?_)
  have hct := @keepNewest_count retentionNewestPoints _ (keepProtected slots) hpro
  omega

/-! ### The budget loop -/

theorem checkedSum_eq {total : ℕ} (htot : total < 2 ^ 64) (sizes : List ℕ) :
    checkedSum total sizes =
      if total + sizes.sum < 2 ^ 64 then .ok (total + sizes.sum) else .error .capacityExceeded := by
  induction sizes generalizing total with
  | nil =>
    rw [checkedSum, sum_nil, Nat.add_zero, if_pos htot]
  | cons size sizes ih =>
    rw [checkedSum, sum_cons, ← Nat.add_assoc]
    by_cases hsize : total + size < 2 ^ 64
    · rw [if_pos hsize, ih hsize]
    · rw [if_neg hsize, if_neg (by omega)]

def keptBytes (slots : List RetentionSlot) : ℕ := (sizes (keptFacts slots)).sum

def protectedBytes (slots : List RetentionSlot) : ℕ :=
  (sizes ((slots.filter (·.isProtected)).map (·.fact))).sum

theorem keptBytes_cons (slot : RetentionSlot) (slots : List RetentionSlot) :
    keptBytes (slot :: slots) =
      (if slot.keep then slot.fact.sizeBytes else 0) + keptBytes slots := by
  cases hkp : slot.keep <;> simp [keptBytes, keptFacts, sizes, hkp]

theorem protectedBytes_cons (slot : RetentionSlot) (slots : List RetentionSlot) :
    protectedBytes (slot :: slots) =
      (if slot.isProtected then slot.fact.sizeBytes else 0) + protectedBytes slots := by
  cases hpro : slot.isProtected <;> simp [protectedBytes, sizes, hpro]

theorem Protects.protectedBytes_le (h : Protects slots) :
    protectedBytes slots ≤ keptBytes slots := by
  induction slots with
  | nil => exact le_refl _
  | cons slot slots ih =>
    obtain ⟨hsl, hsls⟩ := protects_cons.mp h
    have hrs := ih hsls
    rw [keptBytes_cons, protectedBytes_cons]
    cases hpro : slot.isProtected with
    | false =>
      simp only [Bool.false_eq_true, if_false]
      omega
    | true =>
      rw [hsl hpro]
      omega

variable {budget other i : ℕ}

/-- One step of the budget loop, when the bytes are those of the slots and of other files. -/
theorem trim_cons {slot : RetentionSlot} :
    trim budget (other + keptBytes (slot :: slots)) (slot :: slots) =
      if other + keptBytes (slot :: slots) ≤ budget then .ok (slot :: slots)
      else if slot.keep = true ∧ slot.isProtected = false then
        (trim budget (other + keptBytes slots) slots).map (slot.dropped :: ·)
      else (trim budget (other + (if slot.keep then slot.fact.sizeBytes else 0) + keptBytes slots)
        slots).map (slot :: ·) := by
  rw [trim]
  by_cases hfit : other + keptBytes (slot :: slots) ≤ budget
  · rw [if_pos hfit, if_pos hfit]
  · rw [if_neg hfit, if_neg hfit]
    by_cases hrem : slot.keep = true ∧ slot.isProtected = false
    · have hbs : keptBytes (slot :: slots) = slot.fact.sizeBytes + keptBytes slots := by
        rw [keptBytes_cons, hrem.1, if_pos rfl]
      have hrs : other + keptBytes (slot :: slots) - slot.fact.sizeBytes =
          other + keptBytes slots := by
        omega
      rw [if_pos (by simp [hrem.1, hrem.2]), if_pos (by omega), hrs, if_pos hrem]
    · rw [if_neg (by simpa using hrem), if_neg hrem, keptBytes_cons, Nat.add_assoc]

/-- What the budget loop returns: nothing protected is given up, the rest fits. -/
structure Trimmed (budget other : ℕ) (slots trimmed : List RetentionSlot) : Prop where
  adjusts : Adjusts slots trimmed
  count_le : retainedVerifiedCount trimmed ≤ retainedVerifiedCount slots
  fits : other + keptBytes trimmed ≤ budget

theorem trim_ok {trimmed : List RetentionSlot}
    (h : trim budget (other + keptBytes slots) slots = .ok trimmed) :
    Trimmed budget other slots trimmed := by
  induction slots generalizing other trimmed with
  | nil =>
    rw [trim] at h
    split_ifs at h with hfit
    cases h
    exact ⟨.nil, le_refl _, hfit⟩
  | cons slot slots ih =>
    rw [trim_cons] at h
    by_cases hfit : other + keptBytes (slot :: slots) ≤ budget
    · rw [if_pos hfit] at h
      cases h
      exact ⟨.refl _, le_refl _, hfit⟩
    rw [if_neg hfit] at h
    by_cases hrem : slot.keep = true ∧ slot.isProtected = false
    · rw [if_pos hrem] at h
      obtain ⟨rest, hrs, rfl⟩ := map_eq_ok.mp h
      obtain ⟨hadju, hct, hrsF⟩ := ih hrs
      refine ⟨.cons ⟨rfl, ?_⟩ hadju, ?_, ?_⟩
      · intro hpro
        exact absurd (hrem.2.symm.trans hpro) (by decide)
      · simp only [retainedVerifiedCount, countP_cons, dropped,
          Bool.false_eq_true, if_false] at hct ⊢
        omega
      · rw [keptBytes_cons]
        simpa [dropped] using hrsF
    · rw [if_neg hrem] at h
      obtain ⟨rest, hrs, rfl⟩ := map_eq_ok.mp h
      obtain ⟨hadju, hct, hrsF⟩ := ih hrs
      refine ⟨hadju.same, ?_, ?_⟩
      · simp only [retainedVerifiedCount, countP_cons] at hct ⊢
        omega
      · rw [keptBytes_cons, ← Nat.add_assoc]
        exact hrsF

/-- The loop returns if what is protected fits. -/
theorem trim_returns (hprot : Protects slots) (h : other + protectedBytes slots ≤ budget) :
    ∃ trimmed, trim budget (other + keptBytes slots) slots = .ok trimmed := by
  induction slots generalizing other with
  | nil => exact ⟨[], if_pos h⟩
  | cons slot slots ih =>
    obtain ⟨hsl, hsls⟩ := protects_cons.mp hprot
    rw [trim_cons]
    rw [protectedBytes_cons] at h
    by_cases hfit : other + keptBytes (slot :: slots) ≤ budget
    · exact ⟨_, if_pos hfit⟩
    rw [if_neg hfit]
    by_cases hrem : slot.keep = true ∧ slot.isProtected = false
    · obtain ⟨rest, hrs⟩ := @ih other hsls (by omega)
      rw [if_pos hrem, hrs]
      exact ⟨_, rfl⟩
    · -- a slot that stays is protected or was not kept
      have hstays : slot.keep = slot.isProtected := by
        cases hpro : slot.isProtected with
        | true => exact hsl hpro
        | false =>
          cases hkp : slot.keep with
          | true => exact absurd ⟨hkp, hpro⟩ hrem
          | false => rfl
      obtain ⟨rest, hrs⟩ := @ih (other + if slot.keep then slot.fact.sizeBytes else 0) hsls (by
        rw [hstays]
        omega)
      rw [if_neg hrem, hrs]
      exact ⟨_, rfl⟩

theorem trim_error (h : trim budget (other + keptBytes slots) slots = .error error) :
    error = .capacityExceeded := by
  induction slots generalizing other with
  | nil =>
    rw [trim] at h
    split_ifs at h
    cases h
    rfl
  | cons slot slots ih =>
    rw [trim_cons] at h
    by_cases hfit : other + keptBytes (slot :: slots) ≤ budget
    · rw [if_pos hfit] at h
      cases h
    rw [if_neg hfit] at h
    by_cases hrem : slot.keep = true ∧ slot.isProtected = false
    · rw [if_pos hrem] at h
      exact ih (map_eq_error.mp h)
    · rw [if_neg hrem] at h
      exact ih (map_eq_error.mp h)

/-! ### What is protected -/

/-- The verified backups that no plan may give up: the candidate, the pinned one, the two newest and
the newest unresolved pre-migration backup; `index` is the position of the fact, newest first. -/
def MustKeep (protectedHash : Option Bytes32) (verified : List RetentionFact) (index : ℕ)
    (fact : RetentionFact) : Prop :=
  fact.candidate = true ∨ protectedHash = some fact.key ∨ index < 2 ∨
    isUnresolved verified fact = true ∧
      ∀ newer ∈ verified.take index, isUnresolved verified newer = false

theorem protectMarked_get {ph : Option Bytes32} :
    (protectMarked ph verified)[i]? = verified[i]?.map fun fact =>
      ⟨fact, fact.candidate || ph == some fact.key, false⟩ := by
  rw [protectMarked, List.getElem?_map]

theorem protectNewest_get {count : ℕ} :
    (protectNewest count slots)[i]? = slots[i]?.map fun slot =>
      { slot with isProtected := decide (i < count) || slot.isProtected } := by
  induction slots generalizing count i with
  | nil => cases count <;> rfl
  | cons slot slots ih =>
    cases count with
    | zero =>
      rw [protectNewest]
      simp
    | succ count =>
      rw [protectNewest]
      cases i with
      | zero => simp
      | succ i => simpa using ih

/-- The first slot with the condition is protected, the others stay. -/
theorem protectFirst_get {condition : RetentionFact → Bool} :
    (protectFirst condition slots)[i]? = slots[i]?.map fun slot =>
      { slot with isProtected := (condition slot.fact &&
        (slots.take i).all fun newer => !condition newer.fact) || slot.isProtected } := by
  induction slots generalizing i with
  | nil => rfl
  | cons first slots ih =>
    rw [protectFirst]
    cases hf : condition first.fact with
    | true =>
      cases i with
      | zero | succ i => simp [hf]
    | false =>
      cases i with
      | zero => simp [hf]
      | succ i => simpa [hf] using ih

theorem protectNewest_facts (count : ℕ) (slots : List RetentionSlot) :
    (protectNewest count slots).map (·.fact) = slots.map (·.fact) := by
  refine List.ext_getElem? fun i => ?_
  rw [List.getElem?_map, List.getElem?_map, protectNewest_get, Option.map_map]
  rfl

theorem protectFirst_facts (condition : RetentionFact → Bool) (slots : List RetentionSlot) :
    (protectFirst condition slots).map (·.fact) = slots.map (·.fact) := by
  refine List.ext_getElem? fun i => ?_
  rw [List.getElem?_map, List.getElem?_map, protectFirst_get, Option.map_map]
  rfl

theorem protectMarked_facts (ph : Option Bytes32) (verified : List RetentionFact) :
    (protectMarked ph verified).map (·.fact) = verified := by
  rw [protectMarked, map_map]
  exact map_id verified

theorem protectSlots_facts (ph : Option Bytes32) (verified : List RetentionFact) :
    (protectSlots ph verified).map (·.fact) = verified := by
  rw [protectSlots, protectFirst_facts, protectNewest_facts, protectMarked_facts]

/-- Exactly what must be kept is protected. -/
theorem protectSlots_get {ph : Option Bytes32} {slot : RetentionSlot}
    (h : (protectSlots ph verified)[i]? = some slot) :
    slot.isProtected = true ↔ MustKeep ph verified i slot.fact := by
  have hnw : ((protectNewest 2 (protectMarked ph verified)).take i).map (·.fact) =
      verified.take i := by
    rw [map_take, protectNewest_facts, protectMarked_facts]
  rw [protectSlots, protectFirst_get, protectNewest_get, protectMarked_get] at h
  obtain ⟨marked, hmarked, rfl⟩ := Option.map_eq_some_iff.mp h
  obtain ⟨newest, hnewest, rfl⟩ := Option.map_eq_some_iff.mp hmarked
  obtain ⟨fact, _, rfl⟩ := Option.map_eq_some_iff.mp hnewest
  have hall : ((protectNewest 2 (protectMarked ph verified)).take i).all
      (fun newer => !isUnresolved verified newer.fact) = true ↔
        ∀ newer ∈ verified.take i, isUnresolved verified newer = false := by
    rw [← hnw, all_eq_true, forall_mem_map]
    simp
  simp only [MustKeep, Bool.or_eq_true, Bool.and_eq_true, hall, decide_eq_true_iff, beq_iff_eq]
  tauto

/-! ### Plans -/

section Plans

variable {facts : List RetentionFact} {ph : Option Bytes32} {policy : RetentionPolicy}
  {slots : List RetentionSlot}

def otherBytes (facts : List RetentionFact) : ℕ := (sizes (unverifiedFacts facts)).sum

theorem keptBytes_reverse (slots : List RetentionSlot) :
    keptBytes slots.reverse = keptBytes slots := by
  rw [keptBytes, keptBytes, keptFacts, keptFacts, sizes, sizes, filter_reverse, map_reverse,
    map_reverse, sum_reverse]

theorem protectedBytes_congr {slots slots' : List RetentionSlot}
    (h : slots.map mark = slots'.map mark) :
    protectedBytes slots = protectedBytes slots' := by
  have hmarks : ∀ slots : List RetentionSlot, protectedBytes slots =
      (((slots.map mark).filter (·.2)).map fun mark => mark.1.sizeBytes).sum := by
    intro slots
    simp only [protectedBytes, sizes, filter_map, map_map]
    rfl
  rw [hmarks, hmarks, h]

theorem protectedBytes_reverse (slots : List RetentionSlot) :
    protectedBytes slots.reverse = protectedBytes slots := by
  rw [protectedBytes, protectedBytes, sizes, sizes, filter_reverse, map_reverse,
    map_reverse, sum_reverse]

theorem protects_reverse {slots : List RetentionSlot} (h : Protects slots) :
    Protects slots.reverse :=
  fun slot hsl => h slot (mem_reverse.mp hsl)

/-- The plan in two steps: is there room for what is protected, and the budget loop. -/
theorem planSlots_eq : planSlots facts ph policy =
    if maxRetainedVerifiedPoints <
        (protectSlots ph (verifiedFacts facts)).countP (·.isProtected) ∨
      2 ^ 64 ≤ otherBytes facts + keptBytes (keepPoints (protectSlots ph (verifiedFacts facts)))
    then .error .capacityExceeded
    else (trim policy.budgetBytes (otherBytes facts + keptBytes
      (keepPoints (protectSlots ph (verifiedFacts facts))).reverse)
        (keepPoints (protectSlots ph (verifiedFacts facts))).reverse).map List.reverse := by
  have hsum : (sizes (unverifiedFacts facts) ++ sizes (keptFacts
      (keepPoints (protectSlots ph (verifiedFacts facts))))).sum = otherBytes facts +
        keptBytes (keepPoints (protectSlots ph (verifiedFacts facts))) := sum_append
  rw [planSlots, checkedSum_eq (by decide), Nat.zero_add, hsum, keptBytes_reverse]
  by_cases hct : maxRetainedVerifiedPoints <
      (protectSlots ph (verifiedFacts facts)).countP (·.isProtected)
  · rw [if_pos hct, if_pos (.inl hct)]
  rw [if_neg hct]
  by_cases hbs : 2 ^ 64 ≤ otherBytes facts +
      keptBytes (keepPoints (protectSlots ph (verifiedFacts facts)))
  · rw [if_neg (not_lt.mpr hbs), if_pos (.inr hbs)]
    rfl
  · rw [if_pos (not_le.mp hbs), if_neg (not_or.mpr ⟨hct, hbs⟩)]
    rfl

/-- What a plan that succeeds has computed. -/
structure Planned (facts : List RetentionFact) (protectedHash : Option Bytes32)
    (policy : RetentionPolicy) (slots : List RetentionSlot) : Prop where
  marks : slots.map RetentionSlot.mark =
    (protectSlots protectedHash (verifiedFacts facts)).map RetentionSlot.mark
  protects : Protects slots
  count_le : retainedVerifiedCount slots ≤ maxRetainedVerifiedPoints
  fits : otherBytes facts + keptBytes slots ≤ policy.budgetBytes

theorem planSlots_ok (h : planSlots facts ph policy = .ok slots) :
    Planned facts ph policy slots := by
  rw [planSlots_eq] at h
  split_ifs at h with hrm
  obtain ⟨trimmed, htrim, rfl⟩ := map_eq_ok.mp h
  have hct := not_lt.mp (not_or.mp hrm).1
  obtain ⟨hadju, hlt, hfit⟩ := trim_ok htrim
  refine ⟨?_, ?_, ?_, ?_⟩
  · rw [map_reverse, hadju.marks, map_reverse, reverse_reverse, keepPoints_marks]
  · exact protects_reverse (hadju.protects (protects_reverse (protects_keepPoints _)))
  · simp only [retainedVerifiedCount, countP_reverse] at hlt ⊢
    exact hlt.trans (keepPoints_count hct)
  · rw [keptBytes_reverse]
    exact hfit

/-- What must be kept, newest first. -/
def mustKeepFacts (facts : List RetentionFact) (protectedHash : Option Bytes32) :
    List RetentionFact :=
  ((protectSlots protectedHash (verifiedFacts facts)).filter (·.isProtected)).map (·.fact)

/-- What must be kept and the unverified files fit. -/
structure MustKeepFits (facts : List RetentionFact) (protectedHash : Option Bytes32)
    (policy : RetentionPolicy) : Prop where
  count_le : (mustKeepFacts facts protectedHash).length ≤ maxRetainedVerifiedPoints
  bytes_le : otherBytes facts + (sizes (mustKeepFacts facts protectedHash)).sum ≤ policy.budgetBytes

/-- The bytes that are added up before the budget is looked at: unverified files and everything kept
so far, also what may be given up again. -/
def firstSum (facts : List RetentionFact) (protectedHash : Option Bytes32) : ℕ :=
  otherBytes facts + keptBytes (keepPoints (protectSlots protectedHash (verifiedFacts facts)))

theorem planSlots_returns_iff :
    (∃ slots, planSlots facts ph policy = .ok slots) ↔
      MustKeepFits facts ph policy ∧ firstSum facts ph < 2 ^ 64 := by
  have hlength : (mustKeepFacts facts ph).length =
      (protectSlots ph (verifiedFacts facts)).countP (·.isProtected) := by
    rw [mustKeepFacts, length_map, countP_eq_length_filter]
  constructor
  · rintro ⟨slots, h⟩
    have hpl := planSlots_ok h
    rw [planSlots_eq] at h
    split_ifs at h with hrm
    rw [not_or, not_lt, not_le, ← hlength] at hrm
    refine ⟨⟨hrm.1, ?_⟩, hrm.2⟩
    have hle := hpl.protects.protectedBytes_le
    rw [protectedBytes_congr hpl.marks] at hle
    exact (Nat.add_le_add_left hle _).trans hpl.fits
  · rintro ⟨⟨hct, hbs⟩, hsum⟩
    rw [hlength] at hct
    rw [firstSum] at hsum
    have hpro : otherBytes facts + protectedBytes
        (keepPoints (protectSlots ph (verifiedFacts facts))).reverse ≤ policy.budgetBytes := by
      rw [protectedBytes_reverse, protectedBytes_congr (keepPoints_marks _)]
      exact hbs
    obtain ⟨trimmed, htrim⟩ := trim_returns (protects_reverse (protects_keepPoints _)) hpro
    rw [planSlots_eq, if_neg (not_or.mpr ⟨not_lt.mpr hct, not_le.mpr hsum⟩), htrim]
    exact ⟨_, rfl⟩

theorem planSlots_error (h : planSlots facts ph policy = .error error) :
    error = .capacityExceeded := by
  rw [planSlots_eq] at h
  split_ifs at h
  · cases h
    rfl
  · exact trim_error (map_eq_error.mp h)

end Plans

theorem mem_dedupAdjacent {selections : List CatalogSelection} :
    selection ∈ dedupAdjacent selections ↔ selection ∈ selections := by
  induction selections with
  | nil => rfl
  | cons first rest ih =>
    rw [mem_cons, ← ih, dedupAdjacent]
    cases hrs : dedupAdjacent rest with
    | nil => simp
    | cons second others =>
      by_cases hsm : first = second
      · simp [hsm]
      · simp [hsm]

theorem mem_plannedDeletions {slots : List RetentionSlot} :
    selection ∈ plannedDeletions slots ↔
      ∃ slot ∈ slots, slot.keep = false ∧ slot.fact.selection = some selection := by
  rw [plannedDeletions, mem_dedupAdjacent, mem_filterMap]
  simp only [mem_reverse]
  refine exists_congr fun slot => and_congr_right fun _ => ?_
  cases slot.keep <;> simp

/-! ### The plan is safe and exact -/

/-- What a plan guarantees.  `slots` are the verified facts, newest first, with their flags; a fact is
named by its position, as two facts could be equal.  If the facts have different selections, no
selection of a fact that must be kept is among the deletions. -/
structure PlanSafe (facts : List RetentionFact) (protectedHash : Option Bytes32)
    (policy : RetentionPolicy) (slots : List RetentionSlot) (outcome : RetentionOutcome) : Prop where
  facts_eq : slots.map (·.fact) = verifiedFacts facts
  mustKeep : ∀ i slot, slots[i]? = some slot →
    MustKeep protectedHash (verifiedFacts facts) i slot.fact → slot.keep = true
  deletions : ∀ selection, selection ∈ outcome.deletions ↔
    ∃ slot ∈ slots, slot.keep = false ∧ slot.fact.selection = some selection
  never_deleted : (facts.filterMap (·.selection)).Nodup → ∀ fact ∈ facts, ∀ selection,
    fact.selection = some selection → selection ∈ outcome.deletions → fact.verified = true ∧
      ∀ i, (verifiedFacts facts)[i]? = some fact → ¬ MustKeep protectedHash (verifiedFacts facts) i fact
  retainedKeys : outcome.retainedKeys = (keptFacts slots).map (·.key)
  retained_le : outcome.retainedKeys.length ≤ 15
  budget : (sizes (keptFacts slots)).sum + (sizes (unverifiedFacts facts)).sum ≤ policy.budgetBytes

/-- A value that occurs once among the results names one position. -/
theorem index_unique {α β : Type} {f : α → Option β} {l : List α} (h : (l.filterMap f).Nodup)
    {i j : ℕ} {a a' : α} {b : β} (hi : l[i]? = some a) (hj : l[j]? = some a') (ha : f a = some b)
    (ha' : f a' = some b) : i = j := by
  unfold List.Nodup at h
  rw [pairwise_filterMap, pairwise_iff_getElem] at h
  obtain ⟨hilt, hieq⟩ := List.getElem?_eq_some_iff.mp hi
  obtain ⟨hjlt, hjeq⟩ := List.getElem?_eq_some_iff.mp hj
  rcases Nat.lt_trichotomy i j with hlt | heq | hgt
  · exact absurd rfl (h i j hilt hjlt hlt b (hieq ▸ ha) b (hjeq ▸ ha'))
  · exact heq
  · exact absurd rfl (h j i hjlt hilt hgt b (hjeq ▸ ha') b (hieq ▸ ha))

theorem perm_sortFacts (facts : List RetentionFact) : (sortFacts facts).Perm facts :=
  perm_insertionSort _ facts

theorem mem_verifiedFacts {facts : List RetentionFact} {fact : RetentionFact} :
    fact ∈ verifiedFacts facts ↔ fact ∈ facts ∧ fact.verified = true := by
  rw [verifiedFacts, mem_filter, (perm_sortFacts facts).mem_iff]

theorem nodup_verifiedSelections {facts : List RetentionFact}
    (h : (facts.filterMap (·.selection)).Nodup) :
    ((verifiedFacts facts).filterMap (·.selection)).Nodup := by
  have hso : ((sortFacts facts).filterMap (·.selection)).Nodup :=
    ((perm_sortFacts facts).filterMap _).nodup_iff.mpr h
  exact hso.sublist (filter_sublist.filterMap _)

theorem planned_safe {facts : List RetentionFact} {ph : Option Bytes32}
    {policy : RetentionPolicy} {slots : List RetentionSlot}
    (h : Planned facts ph policy slots) :
    PlanSafe facts ph policy slots
      ⟨plannedDeletions slots, (keptFacts slots).map (·.key)⟩ := by
  have hfs : slots.map (·.fact) = verifiedFacts facts := by
    have hmarks := congrArg (List.map Prod.fst) h.marks
    rw [map_map, map_map] at hmarks
    exact hmarks.trans (protectSlots_facts ph (verifiedFacts facts))
  have hmust : ∀ i slot, slots[i]? = some slot →
      MustKeep ph (verifiedFacts facts) i slot.fact → slot.keep = true := by
    intro i slot hsl hkp
    have hmark : (slots.map mark)[i]? = some slot.mark := by
      rw [List.getElem?_map, hsl]
      rfl
    rw [h.marks, List.getElem?_map] at hmark
    obtain ⟨planned, hpl, hsm⟩ := Option.map_eq_some_iff.mp hmark
    have hf : planned.fact = slot.fact := congrArg Prod.fst hsm
    have hpro : planned.isProtected = slot.isProtected := congrArg Prod.snd hsm
    refine h.protects slot (mem_of_getElem? hsl) ?_
    rw [← hpro, protectSlots_get hpl, hf]
    exact hkp
  have hget : ∀ i : ℕ, (verifiedFacts facts)[i]? = slots[i]?.map fact := by
    intro i
    rw [← hfs, List.getElem?_map]
  refine ⟨hfs, hmust, fun selection => mem_plannedDeletions, ?_, rfl, ?_, ?_⟩
  · intro hnd fact hf selection hsele hdele
    obtain ⟨slot, hsl, hdrop, hsm⟩ := mem_plannedDeletions.mp hdele
    obtain ⟨j, hj⟩ := mem_iff_getElem?.mp hsl
    have hslF : slot.fact ∈ facts ∧ slot.fact.verified = true := by
      rw [← mem_verifiedFacts, ← hfs]
      exact mem_map_of_mem hsl
    -- the selection tells the two facts apart, so the deleted one is this one
    have hequal : slot.fact = fact := by
      obtain ⟨m, hm⟩ := mem_iff_getElem?.mp hslF.1
      obtain ⟨n, hn⟩ := mem_iff_getElem?.mp hf
      rw [index_unique hnd hm hn hsm hsele] at hm
      exact Option.some.inj (hm.symm.trans hn)
    refine ⟨hequal ▸ hslF.2, ?_⟩
    intro i hi hkp
    have hposi : (verifiedFacts facts)[j]? = some fact := by
      rw [hget, hj, Option.map_some, hequal]
    have hindex := index_unique (nodup_verifiedSelections hnd) hi hposi hsele hsele
    subst hindex
    rw [hmust i slot hj (hequal.symm ▸ hkp)] at hdrop
    cases hdrop
  · rw [length_map, keptFacts, length_map, ← countP_eq_length_filter]
    exact h.count_le
  · rw [Nat.add_comm]
    exact h.fits

theorem keptBytes_le (slots : List RetentionSlot) :
    keptBytes slots ≤ (sizes (slots.map (·.fact))).sum := by
  induction slots with
  | nil => exact le_refl _
  | cons slot slots ih =>
    rw [keptBytes_cons]
    simp only [sizes, map_cons, sum_cons] at ih ⊢
    split_ifs <;> omega

theorem keepPoints_facts (slots : List RetentionSlot) :
    (keepPoints slots).map (·.fact) = slots.map (·.fact) := by
  have hmarks := congrArg (List.map Prod.fst) (keepPoints_marks slots)
  rw [map_map, map_map] at hmarks
  exact hmarks

theorem sum_sizes_filter (p : RetentionFact → Bool) (facts : List RetentionFact) :
    (sizes (facts.filter (!p ·))).sum + (sizes (facts.filter p)).sum = (sizes facts).sum := by
  induction facts with
  | nil => rfl
  | cons fact facts ih =>
    simp only [sizes] at ih ⊢
    cases hp : p fact <;> simp [hp] <;> omega

/-- The first sum is part of the sum of all sizes. -/
theorem firstSum_le (facts : List RetentionFact) (ph : Option Bytes32) :
    firstSum facts ph ≤ (sizes facts).sum := by
  have hkp := keptBytes_le (keepPoints (protectSlots ph (verifiedFacts facts)))
  rw [keepPoints_facts, protectSlots_facts] at hkp
  have hspl := sum_sizes_filter (·.verified) (sortFacts facts)
  have hp : (sizes (sortFacts facts)).sum = (sizes facts).sum :=
    ((perm_sortFacts facts).map _).sum_eq
  rw [← hp, ← hspl]
  exact Nat.add_le_add_left hkp _

/-- **Retention plans are safe and exact.**  A plan that succeeds deletes nothing that must be kept and
no unverified file, keeps at most 15 verified backups and fits the budget.  A plan fails only with a
capacity error, exactly if what must be kept and the unverified files do not fit or if the first sum
of sizes overflows; the latter cannot happen while all sizes together are below `2 ^ 64`. -/
theorem retention_plan_safe_exact (facts : List RetentionFact) (protectedHash : Option Bytes32)
    (policy : RetentionPolicy) :
    (∀ outcome, planFacts facts protectedHash policy = .ok outcome →
      ∃ slots, PlanSafe facts protectedHash policy slots outcome) ∧
    (∀ error, planFacts facts protectedHash policy = .error error ↔ error = .capacityExceeded ∧
      (¬ MustKeepFits facts protectedHash policy ∨ 2 ^ 64 ≤ firstSum facts protectedHash)) ∧
    ((sizes facts).sum < 2 ^ 64 → firstSum facts protectedHash < 2 ^ 64) := by
  refine ⟨?_, ?_, fun hsum => lt_of_le_of_lt (firstSum_le facts protectedHash) hsum⟩
  · intro outcome h
    obtain ⟨slots, hsls, rfl⟩ := map_eq_ok.mp h
    exact ⟨slots, planned_safe (planSlots_ok hsls)⟩
  · intro error
    rw [planFacts, map_eq_error]
    constructor
    · intro h
      refine ⟨planSlots_error h, ?_⟩
      have hnot : ¬ ∃ slots, planSlots facts protectedHash policy = .ok slots := by
        rintro ⟨slots, hsls⟩
        rw [hsls] at h
        cases h
      rw [planSlots_returns_iff, not_and_or, not_lt] at hnot
      exact hnot
    · rintro ⟨rfl, hnot⟩
      cases hpl : planSlots facts protectedHash policy with
      | error error => rw [planSlots_error hpl]
      | ok slots =>
        have hfit := planSlots_returns_iff.mp ⟨slots, hpl⟩
        rcases hnot with hnot | hsum
        · exact absurd hfit.1 hnot
        · exact absurd hfit.2 (not_lt.mpr hsum)

theorem one_lt_u64 : 1 < 2 ^ 64 := by decide

/-- Four verified backups, one a millisecond, of which only the two newest are small. -/
def hugeFacts : List RetentionFact :=
  [⟨Bytes32.replicate 1, some 4, some .manual, 1, true, true, some ⟨1, 0⟩, one_lt_u64⟩,
    ⟨Bytes32.replicate 2, some 3, some .manual, 1, true, false, some ⟨1, 1⟩, one_lt_u64⟩,
    ⟨Bytes32.replicate 3, some 2, some .manual, 2 ^ 63, true, false, some ⟨1, 2⟩, by decide⟩,
    ⟨Bytes32.replicate 4, some 1, some .manual, 2 ^ 63, true, false, some ⟨1, 3⟩, by decide⟩]

def smallestPolicy : RetentionPolicy := ⟨backupRetentionMinBytes, le_refl _, by decide⟩

/-- The two newest are all that must be kept, and they fit; the plan fails because the sizes of the
four newest do not fit into 64 bits. -/
theorem retention_plan_sum_overflow :
    planFacts hugeFacts none smallestPolicy = .error .capacityExceeded ∧
      (mustKeepFacts hugeFacts none).length = 2 ∧
      otherBytes hugeFacts + (sizes (mustKeepFacts hugeFacts none)).sum = 2 ∧
      2 ≤ smallestPolicy.budgetBytes := by
  decide +kernel

end TokenMaster.State
