import TokenMaster.State.RetentionCycle

/-!
# TokenMaster.State.Replan — a plan recomputed after a deletion is the rest of the plan

The oldest backup that a plan gives up is deleted, and the plan is computed again without it.
Nothing else changes (`planVerified_remove`):

* a backup that no stage kept has not influenced the others;
* a backup that a stage kept and the budget loop gave up was the first one it gave up, because
  everything older is protected.  The stage that kept it comes to nothing else instead: older
  backups are kept anyway, and newer ones were passed because of other backups.
-/

namespace TokenMaster.State

open TokenMaster.Except RetentionSlot List

theorem exists_split {α : Type} {l : List α} {n : ℕ} (h : n < l.length) :
    ∃ a x b, l = a ++ x :: b ∧ a.length = n := by
  refine ⟨l.take n, l[n], l.drop (n + 1), ?_, by simp; omega⟩
  rw [← drop_eq_getElem_cons h, take_append_drop]

theorem split_inj {α : Type} {a a' b b' : List α} {x x' : α} (h : a ++ x :: b = a' ++ x' :: b')
    (hlen : a.length = a'.length) : a = a' ∧ x = x' ∧ b = b' := by
  obtain ⟨ha, hrs⟩ := append_inj h hlen
  obtain ⟨hx, hb⟩ := List.cons.inj hrs
  exact ⟨ha, hx, hb⟩

def AllKept (slots : List RetentionSlot) : Prop := ∀ slot ∈ slots, slot.keep = true

variable {fact : RetentionFact} {ph : Option Bytes32} {rep : List ℤ}
  {slot : RetentionSlot}

section Stages

variable {a b : List RetentionSlot} {d : RetentionSlot}

/-- What a stage gives for `a ++ d :: b` and for `a ++ b`: it passes `d`, or it keeps `d`, and then
comes to nothing else where everything older is kept. -/
def Splits (newer : List RetentionSlot → Prop) (a b : List RetentionSlot) (d : RetentionSlot)
    (full less : List RetentionSlot) : Prop :=
  ∃ ra, ra.length = a.length ∧ ((∃ rb, full = ra ++ d :: rb ∧ less = ra ++ rb) ∨
    (∃ rb, full = ra ++ d.kept :: rb) ∧ newer ra ∧
      (AllKept b → full = ra ++ d.kept :: b ∧ less = ra ++ b))

theorem Splits.same (newer : List RetentionSlot → Prop) :
    Splits newer a b d (a ++ d :: b) (a ++ b) := ⟨a, rfl, .inl ⟨b, rfl, rfl⟩⟩

theorem Splits.cons {newer newer' : List RetentionSlot → Prop} {full less : List RetentionSlot}
    {first after : RetentionSlot} (h : Splits newer a b d full less)
    (hnw : ∀ ra, newer ra → newer' (after :: ra)) :
    Splits newer' (first :: a) b d (after :: full) (after :: less) := by
  obtain ⟨ra, hlen, ⟨rb, rfl, rfl⟩ | ⟨⟨rb, hfu⟩, hra, hrs⟩⟩ := h
  · exact ⟨after :: ra, congrArg Nat.succ hlen, .inl ⟨rb, rfl, rfl⟩⟩
  · refine ⟨after :: ra, congrArg Nat.succ hlen,
      .inr ⟨⟨rb, congrArg _ hfu⟩, hnw ra hra, fun hb => ?_⟩⟩
    obtain ⟨hone, htwo⟩ := hrs hb
    exact ⟨congrArg _ hone, congrArg _ htwo⟩

/-! ### Protection -/

variable {count pts : ℕ}

theorem protectNewest_append (h : count ≤ a.length) :
    protectNewest count (a ++ b) = protectNewest count a ++ b := by
  induction a generalizing count with
  | nil =>
    obtain rfl : count = 0 := by simpa using h
    rfl
  | cons slot a ih =>
    cases count with
    | zero => rfl
    | succ count =>
      rw [cons_append, protectNewest, protectNewest, ih (by simpa using h), cons_append]

theorem protectFirst_append (condition : RetentionFact → Bool) :
    protectFirst condition (a ++ b) =
      if a.any (fun slot => condition slot.fact) then protectFirst condition a ++ b
      else a ++ protectFirst condition b := by
  induction a with
  | nil => rfl
  | cons slot a ih =>
    rw [cons_append, protectFirst, protectFirst, any_cons]
    cases hsl : condition slot.fact with
    | true => rfl
    | false =>
      simp only [Bool.false_or, Bool.false_eq_true, if_false, ih]
      split_ifs <;> rfl

/-- A backup that is not a post-migration one resolves nothing. -/
theorem isUnresolved_remove {x y : List RetentionFact} (h : fact.purpose ≠ some .postMigration) :
    isUnresolved (x ++ fact :: y) = isUnresolved (x ++ y) := by
  funext other
  have hnot : (fact.purpose == some BackupPurpose.postMigration) = false := by simpa using h
  rw [isUnresolved, isUnresolved, any_append, any_append, any_cons, hnot]
  simp

/-- Without a backup that is not protected, the same others are protected. -/
theorem protectSlots_remove {x y : List RetentionFact} (hpo : fact.purpose ≠ some .postMigration)
    (h : protectSlots ph (x ++ fact :: y) = a ++ d :: b) (hlen : a.length = x.length)
    (hd : d.isProtected = false) : protectSlots ph (x ++ y) = a ++ b := by
  -- the two newest are others
  have htwo : 2 ≤ x.length := by
    by_contra hlt
    have hget : (protectSlots ph (x ++ fact :: y))[a.length]? = some d := by
      rw [h]
      simp
    have hpro := (protectSlots_get hget).mpr (.inr (.inr (.inl (by omega))))
    rw [hd] at hpro
    cases hpro
  have hmarked : ∀ z, protectMarked ph (x ++ z) =
      protectMarked ph x ++ protectMarked ph z := fun z => map_append
  have hnewest : ∀ z, protectNewest 2 (protectMarked ph (x ++ z)) =
      protectNewest 2 (protectMarked ph x) ++ protectMarked ph z := by
    intro z
    rw [hmarked, protectNewest_append (by simpa [protectMarked] using htwo)]
  have hlens : (protectNewest 2 (protectMarked ph x)).length = a.length := by
    rw [hlen, ← length_map RetentionSlot.fact, protectNewest_facts, protectMarked_facts]
  rw [protectSlots, hnewest, isUnresolved_remove hpo, protectFirst_append] at h
  rw [protectSlots, hnewest, protectFirst_append]
  split_ifs at h ⊢ with hany
  · have hf : (protectFirst (isUnresolved (x ++ y))
        (protectNewest 2 (protectMarked ph x))).length = a.length := by
      rw [← hlens, ← length_map RetentionSlot.fact, protectFirst_facts, length_map]
    obtain ⟨ha, _, hb⟩ := split_inj h hf
    rw [ha, ← hb]
    rfl
  · have hcons : protectMarked ph (fact :: y) =
        ⟨fact, fact.candidate || ph == some fact.key, false⟩ :: protectMarked ph y := rfl
    rw [hcons, protectFirst] at h
    split_ifs at h
    · obtain ⟨_, rfl, _⟩ := split_inj h hlens
      cases hd
    · obtain ⟨ha, _, hb⟩ := split_inj h hlens
      rw [ha, hb]

/-! ### The newest points -/

variable {slots : List RetentionSlot}

theorem keepNewest_full (h : maxRetainedVerifiedPoints ≤ count) :
    keepNewest pts count slots = slots := by
  induction slots generalizing pts with
  | nil => cases pts <;> rfl
  | cons slot slots ih =>
    cases pts with
    | zero => rfl
    | succ pts => rw [keepNewest, if_neg (not_lt.mpr h), ih]

theorem RetentionSlot.kept_eq (h : slot.keep = true) : slot.kept = slot := by
  cases slot
  cases h
  rfl

theorem keepNewest_allKept (h : AllKept slots) : keepNewest pts count slots = slots := by
  induction slots generalizing pts count with
  | nil => cases pts <;> rfl
  | cons slot slots ih =>
    obtain ⟨hsl, hsls⟩ := forall_mem_cons.mp h
    cases pts with
    | zero => rfl
    | succ pts =>
      rw [keepNewest, ih hsls, ih hsls, slot.kept_eq hsl]
      split_ifs <;> rfl

/-- A slot that is not kept yet is passed, or it is kept together with all newer ones. -/
theorem keepNewest_split (pts count : ℕ) (hd : d.keep = false) :
    Splits AllKept a b d (keepNewest pts count (a ++ d :: b))
      (keepNewest pts count (a ++ b)) := by
  induction a generalizing pts count with
  | nil =>
    cases pts with
    | zero => exact .same _
    | succ pts =>
      rw [nil_append, nil_append, keepNewest, hd]
      by_cases hct : count < maxRetainedVerifiedPoints
      · rw [if_pos hct]
        refine ⟨[], rfl, .inr ⟨⟨_, rfl⟩, by simp [AllKept], fun hb => ?_⟩⟩
        rw [keepNewest_allKept hb, keepNewest_allKept hb]
        exact ⟨rfl, rfl⟩
      · rw [if_neg hct, keepNewest_full (not_lt.mp hct), keepNewest_full (not_lt.mp hct)]
        exact .same _
  | cons slot a ih =>
    cases pts with
    | zero => exact .same _
    | succ pts =>
      rw [cons_append, cons_append, keepNewest, keepNewest]
      by_cases hct : count < maxRetainedVerifiedPoints
      · rw [if_pos hct, if_pos hct]
        exact (ih pts _).cons fun ra hkp => forall_mem_cons.mpr ⟨rfl, hkp⟩
      · rw [if_neg hct, if_neg hct, keepNewest_full (not_lt.mp hct),
          keepNewest_full (not_lt.mp hct)]
        exact .same _

/-! ### The points by age -/

variable (bucket : ℤ → ℤ)

/-- Nothing is left to keep. -/
def Idle (represented : List ℤ) (slots : List RetentionSlot) : Prop :=
  ∀ slot ∈ slots, slot.keep = false → ∀ time, slot.fact.createdAtUtcMs = some time →
    bucket time ∈ represented

theorem AllKept.idle (h : AllKept slots) (rep : List ℤ) :
    Idle bucket rep slots := by
  intro slot hsl hkp
  rw [h slot hsl] at hkp
  cases hkp

theorem keepBuckets_idle (h : Idle bucket rep slots) :
    keepBuckets bucket pts count rep slots = slots := by
  induction slots with
  | nil => rfl
  | cons slot slots ih =>
    obtain ⟨hsl, hsls⟩ := forall_mem_cons.mp h
    rcases keepBuckets_cases bucket pts count rep slot with
      hend | ⟨hgo, hps⟩ | ⟨_, hkp, time, htime, hnew⟩
    · exact keepBuckets_end hend _
    · rw [keepBuckets_pass hgo hps, ih hsls]
    · exact absurd (hsl hkp time htime) hnew

theorem mem_representedBuckets {value : ℤ} :
    value ∈ representedBuckets bucket slots ↔ ∃ slot ∈ slots, slot.keep = true ∧
      ∃ time, slot.fact.createdAtUtcMs = some time ∧ bucket time = value := by
  simp [representedBuckets, and_assoc]

/-- What is kept stays represented behind a further slot. -/
theorem Idle.cons {rep : List ℤ} {slot : RetentionSlot} {slots : List RetentionSlot}
    (h : Idle bucket (representedBuckets bucket slots ++ rep) slots)
    (hsl : slot.keep = true ∨ ∀ time, slot.fact.createdAtUtcMs = some time → bucket time ∈ rep) :
    Idle bucket (representedBuckets bucket (slot :: slots) ++ rep) (slot :: slots) := by
  refine forall_mem_cons.mpr ⟨?_, ?_⟩
  · intro hkp time htime
    rcases hsl with hkept | hin
    · rw [hkp] at hkept
      cases hkept
    · exact mem_append_right _ (hin time htime)
  · intro other hoth hkp time htime
    have hin := h other hoth hkp time htime
    rw [mem_append, mem_representedBuckets] at hin ⊢
    rcases hin with ⟨kept, hmem, hrep⟩ | hin
    · exact .inl ⟨kept, mem_cons_of_mem _ hmem, hrep⟩
    · exact .inr hin

/-- A slot stays as it is, or it is kept; then all newer slots that are not kept were passed because of
other slots. -/
theorem keepBuckets_split (pts count : ℕ) (rep : List ℤ) :
    Splits (fun ra => Idle bucket (representedBuckets bucket ra ++ rep) ra) a b d
      (keepBuckets bucket pts count rep (a ++ d :: b))
      (keepBuckets bucket pts count rep (a ++ b)) := by
  induction a generalizing pts count rep with
  | nil =>
    rw [nil_append, nil_append]
    rcases keepBuckets_cases bucket pts count rep d with
      hend | ⟨hgo, hps⟩ | ⟨hgo, hkp, time, htime, hnew⟩
    · rw [keepBuckets_end hend, keepBuckets_end hend]
      exact .same _
    · rw [keepBuckets_pass hgo hps]
      exact ⟨[], rfl, .inl ⟨_, rfl, rfl⟩⟩
    · rw [keepBuckets_add hgo hkp htime hnew]
      refine ⟨[], rfl, .inr ⟨⟨_, rfl⟩, by simp [Idle], fun hb => ?_⟩⟩
      rw [keepBuckets_idle bucket (hb.idle bucket _), keepBuckets_idle bucket (hb.idle bucket _)]
      exact ⟨rfl, rfl⟩
  | cons slot a ih =>
    rw [cons_append, cons_append]
    rcases keepBuckets_cases bucket pts count rep slot with
      hend | ⟨hgo, hps⟩ | ⟨hgo, hkp, time, htime, hnew⟩
    · rw [keepBuckets_end hend, keepBuckets_end hend]
      exact .same _
    · rw [keepBuckets_pass hgo hps, keepBuckets_pass hgo hps]
      exact (ih pts count rep).cons fun ra hidle => hidle.cons bucket hps
    · rw [keepBuckets_add hgo hkp htime hnew, keepBuckets_add hgo hkp htime hnew]
      refine (ih (pts - 1) (count + 1) (bucket time :: rep)).cons fun ra hidle => ?_
      -- the bucket of the slot is now that of a kept slot
      intro other hoth hunkept time' ht'
      have hin := hidle.cons bucket (.inl rfl) other hoth hunkept time' ht'
      rw [mem_append, mem_cons] at hin
      rcases hin with hin | hsm | hin
      · exact mem_append_left _ hin
      · exact mem_append_left _ ((mem_representedBuckets bucket).mpr
          ⟨slot.kept, mem_cons_self .., rfl, time, htime, hsm.symm⟩)
      · exact mem_append_right _ hin

theorem keepByAge_idle (h : Idle bucket (representedBuckets bucket slots) slots) :
    keepByAge bucket pts slots = slots := keepBuckets_idle bucket h

theorem retainedVerifiedCount_remove (hd : d.keep = false) :
    retainedVerifiedCount (a ++ d :: b) = retainedVerifiedCount (a ++ b) := by
  simp [retainedVerifiedCount, hd]

theorem representedBuckets_remove (hd : d.keep = false) :
    representedBuckets bucket (a ++ d :: b) = representedBuckets bucket (a ++ b) := by
  simp [representedBuckets, hd]

theorem mem_keepBuckets (h : slot ∈ slots) (hkp : slot.keep = true) :
    slot ∈ keepBuckets bucket pts count rep slots := by
  induction slots generalizing pts count rep with
  | nil => cases h
  | cons first slots ih =>
    rcases keepBuckets_cases bucket pts count rep first with
      hend | ⟨hgo, hps⟩ | ⟨hgo, hunkept, time, htime, hnew⟩
    · rw [keepBuckets_end hend]
      exact h
    · rw [keepBuckets_pass hgo hps]
      rcases mem_cons.mp h with rfl | hmem
      · exact mem_cons_self ..
      · exact mem_cons_of_mem _ (ih hmem)
    · rw [keepBuckets_add hgo hunkept htime hnew]
      rcases mem_cons.mp h with rfl | hmem
      · rw [hkp] at hunkept
        cases hunkept
      · exact mem_cons_of_mem _ (ih hmem)

/-- The loops by age with and without a slot that is not kept yet. -/
theorem keepByAge_split (pts : ℕ) (hd : d.keep = false) :
    Splits (fun ra => AllKept b → Idle bucket (representedBuckets bucket (ra ++ b)) ra) a b d
      (keepByAge bucket pts (a ++ d :: b)) (keepByAge bucket pts (a ++ b)) := by
  rw [keepByAge, keepByAge, retainedVerifiedCount_remove hd, representedBuckets_remove bucket hd]
  obtain ⟨ra, hlen, hleft | ⟨hkept, hidle, hrs⟩⟩ := @keepBuckets_split a b d bucket pts
    (retainedVerifiedCount (a ++ b)) (representedBuckets bucket (a ++ b))
  · exact ⟨ra, hlen, .inl hleft⟩
  refine ⟨ra, hlen, .inr ⟨hkept, fun hb => ?_, hrs⟩⟩
  -- what was represented at the start is represented by slots that are still kept
  have hst : ∀ value ∈ representedBuckets bucket (a ++ b),
      value ∈ representedBuckets bucket (ra ++ b) := by
    intro value hval
    obtain ⟨slot, hsl, hkp, hrep⟩ := (mem_representedBuckets bucket).mp hval
    refine (mem_representedBuckets bucket).mpr ⟨slot, ?_, hkp, hrep⟩
    rw [← (hrs hb).2]
    exact mem_keepBuckets bucket hsl hkp
  intro slot hsl hunkept time htime
  rcases mem_append.mp (hidle slot hsl hunkept time htime) with hin | hin
  · obtain ⟨other, hoth, hrep⟩ := (mem_representedBuckets bucket).mp hin
    exact (mem_representedBuckets bucket).mpr ⟨other, mem_append_left _ hoth, hrep⟩
  · exact hst _ hin

end Stages

/-! ### What is kept before the budget -/

section KeepPoints

variable {a b : List RetentionSlot} {d rd : RetentionSlot}

/-- The slots behind a position have the marks of the slots that were there. -/
theorem marks_behind {slots ra rb : List RetentionSlot}
    (hmarks : slots.map mark = (a ++ d :: b).map mark) (hsls : slots = ra ++ rd :: rb)
    (hlen : ra.length = a.length) :
    rd.mark = d.mark ∧ rb.map mark = b.map mark := by
  rw [hsls, map_append, map_append, map_cons, map_cons] at hmarks
  exact (split_inj hmarks (by simpa using hlen)).2

/-- What is protected is a matter of the marks. -/
theorem protected_of_marks {x y : List RetentionSlot} (h : x.map mark = y.map mark)
    (hx : ∀ slot ∈ x, slot.isProtected = true) : ∀ slot ∈ y, slot.isProtected = true := by
  intro slot hsl
  have hmark : slot.mark ∈ x.map mark := h ▸ mem_map_of_mem hsl
  obtain ⟨marked, hmarked, hsm⟩ := mem_map.mp hmark
  have hpro : marked.isProtected = slot.isProtected := congrArg Prod.snd hsm
  exact hpro ▸ hx marked hmarked

theorem allKept_behind {slots ra rb : List RetentionSlot} (hprot : Protects slots)
    (hmarks : slots.map mark = (a ++ d :: b).map mark) (hsls : slots = ra ++ rd :: rb)
    (hlen : ra.length = a.length) (hb : ∀ slot ∈ b, slot.isProtected = true) : AllKept rb := by
  intro slot hsl
  refine hprot slot ?_
    (protected_of_marks (marks_behind hmarks hsls hlen).2.symm hb slot hsl)
  rw [hsls]
  exact mem_append_right _ (mem_cons_of_mem _ hsl)

/-- A week consists of whole days. -/
theorem idle_week {slots kept : List RetentionSlot}
    (h : Idle utcDayBucket (representedBuckets utcDayBucket kept) slots) :
    Idle utcWeekBucket (representedBuckets utcWeekBucket kept) slots := by
  intro slot hsl hkp time htime
  obtain ⟨other, hoth, hothK, otherTime, hothT, hday⟩ :=
    (mem_representedBuckets utcDayBucket).mp (h slot hsl hkp time htime)
  refine (mem_representedBuckets utcWeekBucket).mpr
    ⟨other, hoth, hothK, otherTime, hothT, ?_⟩
  rw [utcWeekBucket, utcWeekBucket, hday]

theorem Idle.append {bucket : ℤ → ℤ} (ha : Idle bucket rep a) (hb : AllKept b) :
    Idle bucket rep (a ++ b) := by
  intro slot hsl
  rcases mem_append.mp hsl with hsl | hsl
  · exact ha slot hsl
  · exact hb.idle bucket rep slot hsl

/-- More kept slots represent more. -/
theorem Idle.insert {bucket : ℤ → ℤ} {slots : List RetentionSlot}
    (h : Idle bucket (representedBuckets bucket (a ++ b)) slots) :
    Idle bucket (representedBuckets bucket (a ++ d :: b)) slots := by
  intro slot hsl hkp time htime
  obtain ⟨other, hoth, hrep⟩ := (mem_representedBuckets bucket).mp (h slot hsl hkp time htime)
  refine (mem_representedBuckets bucket).mpr ⟨other, ?_, hrep⟩
  rcases mem_append.mp hoth with hoth | hoth
  · exact mem_append_left _ hoth
  · exact mem_append_right _ (mem_cons_of_mem _ hoth)

/-- A kept slot stays where it is. -/
theorem keepByAge_kept (bucket : ℤ → ℤ) (pts : ℕ) (hd : d.keep = true) :
    ∃ ra rb, keepByAge bucket pts (a ++ d :: b) = ra ++ d :: rb ∧ ra.length = a.length := by
  obtain ⟨ra, hlen, ⟨rb, heq, _⟩ | ⟨⟨rb, heq⟩, _⟩⟩ := @keepBuckets_split a b d bucket pts
    (retainedVerifiedCount (a ++ d :: b)) (representedBuckets bucket (a ++ d :: b))
  · exact ⟨ra, rb, heq, hlen⟩
  · rw [d.kept_eq hd] at heq
    exact ⟨ra, rb, heq, hlen⟩

/-- **Without a slot that is given up, the stages keep the same others**, if no stage kept it or if
everything older is protected. -/
theorem keepPoints_remove {ka kb : List RetentionSlot} {kd : RetentionSlot}
    (hd : d.isProtected = false) (h : keepPoints (a ++ d :: b) = ka ++ kd :: kb)
    (hlen : ka.length = a.length)
    (hcase : kd.keep = false ∨ ∀ slot ∈ b, slot.isProtected = true) :
    keepPoints (a ++ b) = ka ++ kb := by
  set xa := keepProtected a with hxa
  set xb := keepProtected b with hxb
  set xd : RetentionSlot := { d with keep := d.isProtected } with hxd
  have hkp : xd.keep = false := hd
  have hX : keepProtected (a ++ d :: b) = xa ++ xd :: xb := by
    simp [keepProtected, hxa, hxb, hxd]
  have hX' : keepProtected (a ++ b) = xa ++ xb := map_append
  have hlenX : xa.length = a.length := length_map _
  rw [keepPoints, hX, retainedVerifiedCount_remove hkp] at h
  rw [keepPoints, hX']
  have hprotX : Protects (xa ++ xd :: xb) := hX ▸ protects_keepProtected _
  have hmarksX : (xa ++ xd :: xb).map mark = (a ++ d :: b).map mark := hX ▸ keepProtected_marks _
  have hnewest := keepNewest_adjusts retentionNewestPoints (retainedVerifiedCount (xa ++ xb))
    (xa ++ xd :: xb)
  have hprotN := hnewest.protects hprotX
  have hmarksN := hnewest.marks.trans hmarksX
  obtain ⟨na, hna, ⟨nb, hN, hN'⟩ | ⟨⟨nb, hN⟩, hnaK, hrs⟩⟩ :=
    @keepNewest_split xa xb xd retentionNewestPoints (retainedVerifiedCount (xa ++ xb)) hkp
  · rw [hN] at h hprotN hmarksN
    rw [hN']
    have hdaily := keepByAge_adjusts utcDayBucket retentionDailyPoints (na ++ xd :: nb)
    have hprotY := hdaily.protects hprotN
    have hmarksY := hdaily.marks.trans hmarksN
    obtain ⟨ya, hya, ⟨yb, hY, hY'⟩ | ⟨⟨yb, hY⟩, hidle, hrs⟩⟩ :=
      @keepByAge_split na nb xd utcDayBucket retentionDailyPoints hkp
    · rw [hY] at h hprotY hmarksY
      rw [hY']
      obtain ⟨wa, hwa, ⟨wb, hW, hW'⟩ | ⟨⟨wb, hW⟩, _, hrs⟩⟩ :=
        @keepByAge_split ya yb xd utcWeekBucket retentionWeeklyPoints hkp
      · obtain ⟨rfl, _, rfl⟩ := split_inj (hW.symm.trans h) (by omega)
        exact hW'
      · -- kept by the weekly loop: everything older is protected
        obtain ⟨rfl, rfl, rfl⟩ := split_inj (hW.symm.trans h) (by omega)
        have hb := hcase.resolve_left Bool.noConfusion
        have hyb := allKept_behind hprotY hmarksY rfl (by omega) hb
        obtain ⟨hW, hW'⟩ := hrs hyb
        obtain ⟨_, _, rfl⟩ := split_inj (hW.symm.trans h) rfl
        exact hW'
    · -- kept by the daily loop: then the weekly loop has nothing left to keep
      obtain ⟨wa, wb, hW, hwa⟩ := @keepByAge_kept ya yb xd.kept utcWeekBucket
        retentionWeeklyPoints rfl
      rw [hY, hW] at h
      obtain ⟨rfl, rfl, rfl⟩ := split_inj h (by omega)
      have hb := hcase.resolve_left Bool.noConfusion
      have hnb := allKept_behind hprotN hmarksN rfl (by omega) hb
      obtain ⟨hY', hY''⟩ := hrs hnb
      obtain ⟨_, _, rfl⟩ := split_inj (hY.symm.trans hY') rfl
      rw [keepByAge_idle] at hW
      · obtain ⟨rfl, _, rfl⟩ := split_inj hW hwa.symm
        rw [hY'', keepByAge_idle]
        exact (idle_week (hidle hnb)).append hnb
      · exact (idle_week (hidle hnb)).insert.append (forall_mem_cons.mpr ⟨rfl, hnb⟩)
  · -- kept as one of the newest: then everything is kept
    obtain ⟨ya, yb, hY, hya⟩ := @keepByAge_kept na nb xd.kept utcDayBucket retentionDailyPoints rfl
    obtain ⟨wa, wb, hW, hwa⟩ := @keepByAge_kept ya yb xd.kept utcWeekBucket retentionWeeklyPoints rfl
    rw [hN, hY, hW] at h
    obtain ⟨rfl, rfl, rfl⟩ := split_inj h (by omega)
    have hb := hcase.resolve_left Bool.noConfusion
    have hxbK := allKept_behind hprotX hmarksX rfl (by omega) hb
    obtain ⟨hN', hN''⟩ := hrs hxbK
    obtain ⟨_, _, rfl⟩ := split_inj (hN.symm.trans hN') rfl
    have hall : AllKept (na ++ xd.kept :: xb) :=
      forall_mem_append.mpr ⟨hnaK, forall_mem_cons.mpr ⟨rfl, hxbK⟩⟩
    have hall' : AllKept (na ++ xb) := forall_mem_append.mpr ⟨hnaK, hxbK⟩
    rw [keepByAge_idle utcDayBucket (hall.idle _ _)] at hY
    obtain ⟨rfl, _, rfl⟩ := split_inj hY hya.symm
    rw [keepByAge_idle utcWeekBucket (hall.idle _ _)] at hW
    obtain ⟨rfl, _, rfl⟩ := split_inj hW hwa.symm
    rw [hN'', keepByAge_idle utcDayBucket (hall'.idle _ _),
      keepByAge_idle utcWeekBucket (hall'.idle _ _)]

end KeepPoints

/-! ### The budget loop -/

theorem trim_fits {budget bytes : ℕ} {slots : List RetentionSlot} (h : bytes ≤ budget) :
    trim budget bytes slots = .ok slots := by
  cases slots with
  | nil | cons slot slots => exact if_pos h

theorem keptBytes_append (a b : List RetentionSlot) :
    keptBytes (a ++ b) = keptBytes a + keptBytes b := by
  induction a with
  | nil => simp [keptBytes, keptFacts, sizes]
  | cons slot a ih =>
    rw [cons_append, keptBytes_cons, keptBytes_cons, ih, Nat.add_assoc]

/-- **Without the first slot that is not kept at the end, the loop does the same to the others.** If
the loop itself has given that slot up, it has found nothing but protected slots before. -/
theorem trim_remove {budget other : ℕ} {x z tx tz : List RetentionSlot} {w t : RetentionSlot}
    (h : trim budget (other + keptBytes (x ++ w :: z)) (x ++ w :: z) = .ok (tx ++ t :: tz))
    (hlen : tx.length = x.length) (ht : t.keep = false) (htx : AllKept tx) :
    (w.keep = false ∨ ∀ slot ∈ x, slot.isProtected = true) ∧
      trim budget (other + keptBytes (x ++ z)) (x ++ z) = .ok (tx ++ tz) := by
  induction x generalizing other tx with
  | nil =>
    obtain rfl : tx = [] := eq_nil_of_length_eq_zero hlen
    refine ⟨.inr (by simp), ?_⟩
    rw [nil_append, nil_append] at h
    rw [nil_append, nil_append]
    rw [trim_cons] at h
    by_cases hfit : other + keptBytes (w :: z) ≤ budget
    · rw [if_pos hfit] at h
      cases h
      rw [keptBytes_cons] at hfit
      exact trim_fits (by omega)
    rw [if_neg hfit] at h
    by_cases hrem : w.keep = true ∧ w.isProtected = false
    · rw [if_pos hrem] at h
      obtain ⟨rest, hrs, hcons⟩ := map_eq_ok.mp h
      cases hcons
      exact hrs
    · rw [if_neg hrem] at h
      obtain ⟨rest, hrs, hcons⟩ := map_eq_ok.mp h
      cases hcons
      simpa [ht] using hrs
  | cons slot x ih =>
    obtain ⟨ts, tx, rfl⟩ := exists_cons_of_length_eq_add_one hlen
    obtain ⟨htsK, htxK⟩ := forall_mem_cons.mp htx
    rw [cons_append, cons_append, trim_cons] at h
    by_cases hfit : other + keptBytes (slot :: (x ++ w :: z)) ≤ budget
    · rw [if_pos hfit] at h
      obtain ⟨hsame, rfl, rfl⟩ : slot :: x = ts :: tx ∧ w = t ∧ z = tz :=
        split_inj (Except.ok.inj h) hlen.symm
      rw [← hsame]
      refine ⟨.inl ht, trim_fits ?_⟩
      rw [keptBytes_cons, keptBytes_append, keptBytes_cons] at hfit
      rw [cons_append, keptBytes_cons, keptBytes_append]
      omega
    rw [if_neg hfit] at h
    by_cases hrem : slot.keep = true ∧ slot.isProtected = false
    · -- the loop would have given up something older
      rw [if_pos hrem] at h
      obtain ⟨rest, _, hcons⟩ := map_eq_ok.mp h
      obtain ⟨rfl, _⟩ := List.cons.inj hcons
      cases htsK
    · rw [if_neg hrem] at h
      obtain ⟨rest, hrs, hcons⟩ := map_eq_ok.mp h
      obtain ⟨rfl, rfl⟩ := List.cons.inj hcons
      obtain ⟨hcase, hskip⟩ := ih hrs (Nat.succ.inj hlen) htxK
      refine ⟨hcase.imp_right fun hall => ?_, ?_⟩
      · refine forall_mem_cons.mpr ⟨?_, hall⟩
        cases hpro : slot.isProtected with
        | true => rfl
        | false => exact absurd ⟨htsK, hpro⟩ hrem
      · rw [cons_append, trim_cons, if_neg hrem]
        by_cases hfitN : other + keptBytes (slot :: (x ++ z)) ≤ budget
        · rw [if_pos hfitN]
          rw [keptBytes_cons, ← Nat.add_assoc] at hfitN
          obtain hsame := Except.ok.inj ((trim_fits hfitN).symm.trans hskip)
          rw [hsame]
          rfl
        · rw [if_neg hfitN, hskip]
          rfl

/-! ### The plan -/

/-- The plan for verified backups in order, beside `other` bytes of unverified files. -/
def planVerified (verified : List RetentionFact) (other : ℕ) (protectedHash : Option Bytes32)
    (policy : RetentionPolicy) : Except StateErrorCode (List RetentionSlot) :=
  let slots := keepPoints (protectSlots protectedHash verified)
  if maxRetainedVerifiedPoints < (protectSlots protectedHash verified).countP (·.isProtected) ∨
      2 ^ 64 ≤ other + keptBytes slots then .error .capacityExceeded
  else (trim policy.budgetBytes (other + keptBytes slots.reverse) slots.reverse).map List.reverse

theorem planSlots_verified (facts : List RetentionFact) (ph : Option Bytes32)
    (policy : RetentionPolicy) :
    planSlots facts ph policy =
      planVerified (verifiedFacts facts) (otherBytes facts) ph policy := planSlots_eq

/-- **A plan recomputed without the oldest backup that it gives up is the same plan for the
others**, unless that backup is a post-migration one. -/
theorem planVerified_remove {ver verified' : List RetentionFact} {other : ℕ}
    {policy : RetentionPolicy} {fa fb : List RetentionSlot} {fd : RetentionSlot}
    (h : planVerified (ver ++ fact :: verified') other ph policy =
      .ok (fa ++ fd :: fb)) (hlen : fa.length = ver.length) (hfd : fd.keep = false)
    (hfb : AllKept fb) (hpo : fact.purpose ≠ some .postMigration) :
    planVerified (ver ++ verified') other ph policy = .ok (fa ++ fb) := by
  set slots := protectSlots ph (ver ++ fact :: verified') with hsls
  have hslsL : slots.length = (ver ++ fact :: verified').length := by
    rw [← length_map RetentionSlot.fact, hsls, protectSlots_facts]
  obtain ⟨a, d, b, hspl, ha⟩ := @exists_split _ slots ver.length (by
    rw [hslsL]
    simp)
  have hkpL : (keepPoints slots).length = slots.length := by
    rw [← length_map mark, keepPoints_marks, length_map]
  obtain ⟨ka, kd, kb, hkpS, hka⟩ := @exists_split _ (keepPoints slots) ver.length (by
    rw [hkpL, hslsL]
    simp)
  rw [planVerified, ← hsls, hkpS] at h
  split_ifs at h with hrm
  obtain ⟨trimmed, htrim, htrimmed⟩ := map_eq_ok.mp h
  have hreve : trimmed = fb.reverse ++ fd :: fa.reverse := by
    rw [← reverse_reverse trimmed, htrimmed]
    simp
  have hkpR : (ka ++ kd :: kb).reverse = kb.reverse ++ kd :: ka.reverse := by simp
  have hmarks : (fa ++ fd :: fb).map mark = (a ++ d :: b).map mark := by
    rw [← htrimmed, map_reverse, (trim_ok htrim).adjusts.marks, map_reverse, reverse_reverse,
      ← hkpS, keepPoints_marks, hspl]
  have hkpM : (ka ++ kd :: kb).map mark = (a ++ d :: b).map mark := by
    rw [← hkpS, keepPoints_marks, hspl]
  have hprot : Protects (fa ++ fd :: fb) := by
    rw [← htrimmed]
    refine protects_reverse ((trim_ok htrim).adjusts.protects (protects_reverse ?_))
    rw [← hkpS]
    exact protects_keepPoints _
  have hd : d.isProtected = false := by
    have hsm : fd.isProtected = d.isProtected :=
      congrArg Prod.snd (marks_behind hmarks rfl (by omega)).1
    rw [← hsm]
    cases hpro : fd.isProtected with
    | false => rfl
    | true => exact absurd (hprot fd (by simp) hpro) (by simp [hfd])
  rw [hreve, hkpR] at htrim
  have hfbL : fb.length = kb.length := by
    have hall := congrArg List.length (hmarks.trans hkpM.symm)
    simp only [length_map, length_append, length_cons] at hall
    omega
  obtain ⟨hcase, hrs⟩ := trim_remove htrim (by simpa using hfbL) hfd (by
    intro slot hsl
    exact hfb slot (mem_reverse.mp hsl))
  have hcaseB : kd.keep = false ∨ ∀ slot ∈ b, slot.isProtected = true :=
    hcase.imp_right fun hall => protected_of_marks (marks_behind hkpM rfl (by omega)).2
      fun slot hsl => hall slot (mem_reverse.mpr hsl)
  have hsls' : protectSlots ph (ver ++ verified') = a ++ b :=
    protectSlots_remove hpo (hsls.symm.trans hspl) ha hd
  have hkp' : keepPoints (a ++ b) = ka ++ kb :=
    keepPoints_remove hd (hspl ▸ hkpS) (by omega) hcaseB
  rw [planVerified, hsls', hkp']
  rw [if_neg]
  · rw [reverse_append, hrs]
    show Except.ok _ = Except.ok _
    simp
  · rw [hspl, countP_append, countP_cons, keptBytes_append, keptBytes_cons] at hrm
    rw [countP_append, keptBytes_append]
    omega

end TokenMaster.State
