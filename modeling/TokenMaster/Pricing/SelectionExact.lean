import Mathlib.Algebra.Order.BigOperators.Group.List
import TokenMaster.Pricing.Selection

/-!
# TokenMaster.Pricing.SelectionExact — cost selection adds exactly and in any order

What each row does to the counters is a function of the row alone, and the state of the loop is the
sum over the rows.  No sum but the number of events can leave its range: the counters are parts of it,
and 512 numerators of bounded rates fit `u128`.
-/

namespace TokenMaster.Pricing

open TokenMaster.Except List

/-! ### What a row does -/

structure RowEffect where
  conflictEvents : ℕ
  pricedEvents : ℕ
  reportedEvents : ℕ
  assumedEvents : ℕ
  unpricedEvents : ℕ
  numerator : ℕ
  missing : List MissingCost
  usedCalculated : Bool
  usedOverride : Bool

section Effect

variable (engine : PricingEngine) (mode : CostMode) (row : PriceBasisRow)

/-- A row without a cost. -/
def unpricedEffect (conflictEvents : ℕ) (reason : MissingReasonCode) : RowEffect where
  conflictEvents := conflictEvents
  pricedEvents := 0
  reportedEvents := 0
  assumedEvents := 0
  unpricedEvents := row.eventCount.toNat
  numerator := 0
  missing := [⟨reason, some row.model⟩]
  usedCalculated := false
  usedOverride := false

def reportedEffect (conflictEvents : ℕ) (amount : UsdMicros) : RowEffect where
  conflictEvents := conflictEvents
  pricedEvents := 0
  reportedEvents := row.reportedEventCount.toNat
  assumedEvents := 0
  unpricedEvents := 0
  numerator := amount.get * tokensPerMillion
  missing := []
  usedCalculated := false
  usedOverride := false

def pricedEffect (conflictEvents : ℕ) (calculated : CalculatedRow) : RowEffect where
  conflictEvents := conflictEvents
  pricedEvents := row.calculableEventCount.toNat
  reportedEvents := 0
  assumedEvents := if calculated.assumedStandard then row.calculableEventCount.toNat else 0
  unpricedEvents := row.eventCount.toNat - row.calculableEventCount.toNat
  numerator := calculated.numerator
  missing := if row.calculableEventCount < row.eventCount then
    [⟨.tokenBasisUnavailable, some row.model⟩] else []
  usedCalculated := true
  usedOverride := calculated.source = .override

def conflictCount : ℕ :=
  if rowConflicts row (calculateRow engine row) then row.eventCount.toNat else 0

def effect : RowEffect :=
  if selectReported mode row then
    match row.reportedCost with
    | some amount => reportedEffect row (conflictCount engine row) amount
    | none => unpricedEffect row (conflictCount engine row) .reportedCostMissing
  else
    match calculateRow engine row with
    | .ok calculated => pricedEffect row (conflictCount engine row) calculated
    | .error code => unpricedEffect row (conflictCount engine row) (missingReason code)

/-- The three kinds of effect. -/
theorem effect_cases :
    (∃ amount, selectReported mode row = true ∧ row.reportedCost = some amount ∧
      effect engine mode row = reportedEffect row (conflictCount engine row) amount) ∨
    (∃ calculated, selectReported mode row = false ∧ calculateRow engine row = .ok calculated ∧
      effect engine mode row = pricedEffect row (conflictCount engine row) calculated) ∨
    ∃ reason, effect engine mode row = unpricedEffect row (conflictCount engine row) reason := by
  unfold effect
  cases hselect : selectReported mode row with
  | true =>
    cases hco : row.reportedCost with
    | some amount => exact .inl ⟨amount, rfl, rfl, rfl⟩
    | none => exact .inr (.inr ⟨_, rfl⟩)
  | false =>
    cases hcalc : calculateRow engine row with
    | ok calculated => exact .inr (.inl ⟨calculated, rfl, rfl, rfl⟩)
    | error code => exact .inr (.inr ⟨_, rfl⟩)

end Effect

variable {row : PriceBasisRow} {calculated : CalculatedRow} {amount : UsdMicros}
  {rows' : List PriceBasisRow} {missing : List MissingCost}

theorem calculateRow_eq_ok {engine : PricingEngine} (h : calculateRow engine row = .ok calculated) :
    row.calculableEventCount ≠ 0 ∧ ∃ resolved,
      engine.resolve row.model row.tier row.context = .ok resolved ∧
      calculated.numerator = exactNumerator resolved.rates row.basis := by
  obtain ⟨hcalc, h⟩ := require_bind.mp h
  obtain ⟨resolved, hres, h⟩ := bind_eq_ok.mp h
  obtain ⟨numerator, hnume, h⟩ := bind_eq_ok.mp h
  cases h
  rw [calculateNumerator_ok] at hnume
  cases hnume
  exact ⟨hcalc, resolved, hres, rfl⟩

theorem conflictCount_le (engine : PricingEngine) (row : PriceBasisRow) :
    conflictCount engine row ≤ row.eventCount.toNat := by
  unfold conflictCount
  split_ifs
  · exact le_refl _
  · exact Nat.zero_le _

/-- A valid row with a reported cost has reported all of its events. -/
theorem reportedCount_eq (hvalid : row.Valid) (hco : row.reportedCost = some amount) :
    row.reportedEventCount.toNat = row.eventCount.toNat := by
  have hcohe := hvalid.2.2.2
  unfold reportedIsCoherent at hcohe
  rw [hco] at hcohe
  rw [of_decide_eq_true hcohe]

/-- The parts of a row are its events, and its numerator is bounded. -/
structure RowEffect.Sound (e : RowEffect) (row : PriceBasisRow) : Prop where
  parts : e.pricedEvents + e.reportedEvents + e.unpricedEvents = row.eventCount.toNat
  assumed_le : e.assumedEvents ≤ e.pricedEvents
  conflict_le : e.conflictEvents ≤ row.eventCount.toNat
  numerator_le : e.numerator ≤ 3 * maxComponent

theorem effect_sound (engine : PricingEngine) (mode : CostMode) (hvalid : row.Valid) :
    (effect engine mode row).Sound row := by
  have hcf := conflictCount_le engine row
  rcases effect_cases engine mode row with
    ⟨amount, _, hco, hef⟩ | ⟨calculated, _, hcalc, hef⟩ | ⟨reason, hef⟩
  · rw [hef]
    refine ⟨?_, Nat.le_refl 0, hcf, ?_⟩
    · show 0 + row.reportedEventCount.toNat + 0 = _
      rw [reportedCount_eq hvalid hco, Nat.zero_add, Nat.add_zero]
    · have hamount : amount.get * tokensPerMillion ≤ 2 ^ 64 * tokensPerMillion :=
        Nat.mul_le_mul_right _ amount.get_lt.le
      exact hamount.trans (by decide)
  · rw [hef]
    have hct : row.calculableEventCount.toNat ≤ row.eventCount.toNat :=
      UInt64.le_iff_toNat_le.mp hvalid.2.2.1
    obtain ⟨_, resolved, _, hnume⟩ := calculateRow_eq_ok hcalc
    refine ⟨?_, ?_, hcf, ?_⟩
    · show row.calculableEventCount.toNat + 0 +
        (row.eventCount.toNat - row.calculableEventCount.toNat) = _
      omega
    · show (if calculated.assumedStandard then row.calculableEventCount.toNat else 0) ≤
        row.calculableEventCount.toNat
      split_ifs
      · exact le_refl _
      · exact Nat.zero_le _
    · show calculated.numerator ≤ _
      rw [hnume]
      exact exactNumerator_le ..
  · rw [hef]
    exact ⟨Nat.zero_add _, Nat.le_refl 0, hcf, Nat.zero_le _⟩

/-! ### One round of the loop -/

def Selection.add (state : Selection) (row : PriceBasisRow) (e : RowEffect) : Selection where
  counters := {
    totalEvents := state.counters.totalEvents + row.eventCount.toNat
    pricedEvents := state.counters.pricedEvents + e.pricedEvents
    reportedEvents := state.counters.reportedEvents + e.reportedEvents
    assumedEvents := state.counters.assumedEvents + e.assumedEvents
    unpricedEvents := state.counters.unpricedEvents + e.unpricedEvents
    omittedEvents := state.counters.omittedEvents
    conflictEvents := state.counters.conflictEvents + e.conflictEvents }
  selectedNumerator := state.selectedNumerator + e.numerator
  missing := state.missing ++ e.missing
  usedCalculated := state.usedCalculated || e.usedCalculated
  usedOverride := state.usedOverride || e.usedOverride
  numericFailure := state.numericFailure

/-- The sums that one row must not take out of range. -/
structure Room (state : Selection) (e : RowEffect) : Prop where
  conflict : state.counters.conflictEvents + e.conflictEvents < 2 ^ 64
  priced : state.counters.pricedEvents + e.pricedEvents < 2 ^ 64
  reported : state.counters.reportedEvents + e.reportedEvents < 2 ^ 64
  assumed : state.counters.assumedEvents + e.assumedEvents < 2 ^ 64
  unpriced : state.counters.unpricedEvents + e.unpricedEvents < 2 ^ 64
  numerator : state.selectedNumerator + e.numerator < 2 ^ 128

variable {left right : ℕ}

theorem checkedAddEvents_eq_ok {sum : ℕ} :
    checkedAddEvents left right = .ok sum ↔ left + right < 2 ^ 64 ∧ sum = left + right := by
  constructor
  · intro h
    obtain ⟨_, hlt, h⟩ := bind_eq_ok.mp h
    cases h
    exact ⟨require_eq_ok.mp hlt, rfl⟩
  · rintro ⟨hlt, rfl⟩
    exact require_bind.mpr ⟨hlt, rfl⟩

theorem checkedAddEvents_ok (h : left + right < 2 ^ 64) :
    checkedAddEvents left right = .ok (left + right) := checkedAddEvents_eq_ok.mpr ⟨h, rfl⟩

/-- The addition that a branch makes only on a condition. -/
theorem checkedAddEvents_if {p : Prop} [Decidable p]
    (h : left + (if p then right else 0) < 2 ^ 64) :
    (if p then checkedAddEvents left right else pure left) =
      .ok (left + if p then right else 0) := by
  by_cases hp : p
  · rw [if_pos hp] at h ⊢
    rw [if_pos hp, checkedAddEvents_ok h]
  · rw [if_neg hp, if_neg hp, Nat.add_zero]
    rfl

variable {state : Selection}

theorem addReported_ok (hco : row.reportedCost = some amount)
    (hsum : state.selectedNumerator + amount.get * tokensPerMillion < 2 ^ 128)
    (hevs : state.counters.reportedEvents + row.reportedEventCount.toNat < 2 ^ 64) :
    addReported state row = .ok { state with
      selectedNumerator := state.selectedNumerator + amount.get * tokensPerMillion
      counters := { state.counters with
        reportedEvents := state.counters.reportedEvents + row.reportedEventCount.toNat } } := by
  have hprod : amount.get * tokensPerMillion < 2 ^ 128 := by omega
  unfold addReported
  rw [hco]
  simp only [require_pos hprod, ok_bind, if_pos hsum, checkedAddEvents_ok hevs]
  rfl

theorem addReported_missing (hco : row.reportedCost = none)
    (hrm : state.counters.unpricedEvents + row.eventCount.toNat < 2 ^ 64) :
    addReported state row = .ok { state with
      counters := { state.counters with
        unpricedEvents := state.counters.unpricedEvents + row.eventCount.toNat }
      missing := state.missing ++ [⟨.reportedCostMissing, some row.model⟩] } := by
  unfold addReported
  rw [hco]
  simp only [checkedAddEvents_ok hrm]
  rfl

theorem addCalculated_ok (hnume : state.selectedNumerator + calculated.numerator < 2 ^ 128)
    (hpriced : state.counters.pricedEvents + row.calculableEventCount.toNat < 2 ^ 64)
    (hassu : state.counters.assumedEvents +
      (if calculated.assumedStandard then row.calculableEventCount.toNat else 0) < 2 ^ 64)
    (hrs : state.counters.unpricedEvents +
      (row.eventCount.toNat - row.calculableEventCount.toNat) < 2 ^ 64) :
    addCalculated state row (.ok calculated) = .ok { state with
      selectedNumerator := state.selectedNumerator + calculated.numerator
      counters := { state.counters with
        pricedEvents := state.counters.pricedEvents + row.calculableEventCount.toNat
        assumedEvents := state.counters.assumedEvents +
          (if calculated.assumedStandard then row.calculableEventCount.toNat else 0)
        unpricedEvents := state.counters.unpricedEvents +
          (row.eventCount.toNat - row.calculableEventCount.toNat) }
      missing := state.missing ++ (if row.calculableEventCount < row.eventCount then
        [⟨.tokenBasisUnavailable, some row.model⟩] else [])
      usedCalculated := true
      usedOverride := state.usedOverride || calculated.source = .override } := by
  have hunpr : (if row.calculableEventCount < row.eventCount then
        row.eventCount.toNat - row.calculableEventCount.toNat else 0) =
      row.eventCount.toNat - row.calculableEventCount.toNat := by
    by_cases hlt : row.calculableEventCount < row.eventCount
    · rw [if_pos hlt]
    · rw [if_neg hlt]
      have hle : ¬ row.calculableEventCount.toNat < row.eventCount.toNat :=
        fun h => hlt (UInt64.lt_iff_toNat_lt.mpr h)
      omega
  have hrmU : state.counters.unpricedEvents +
      (if row.calculableEventCount < row.eventCount then
        row.eventCount.toNat - row.calculableEventCount.toNat else 0) < 2 ^ 64 := by
    rw [hunpr]
    exact hrs
  unfold addCalculated
  simp only [if_pos hnume, checkedAddEvents_ok hpriced, checkedAddEvents_if hassu,
    checkedAddEvents_if hrmU, hunpr, ok_bind]
  rfl

theorem addCalculated_missing {code : PriceErrorCode}
    (hrm : state.counters.unpricedEvents + row.eventCount.toNat < 2 ^ 64) :
    addCalculated state row (.error code) = .ok { state with
      counters := { state.counters with
        unpricedEvents := state.counters.unpricedEvents + row.eventCount.toNat }
      missing := state.missing ++ [⟨missingReason code, some row.model⟩] } := by
  unfold addCalculated
  simp only [checkedAddEvents_ok hrm]
  rfl

theorem selectRow_ok {engine : PricingEngine} {mode : CostMode} (hvalid : row.Valid)
    (htot : state.counters.totalEvents + row.eventCount.toNat < 2 ^ 64)
    (hrm : Room state (effect engine mode row)) :
    selectRow engine mode state row = .ok (state.add row (effect engine mode row)) := by
  have hcf : state.counters.conflictEvents +
      (if rowConflicts row (calculateRow engine row) then row.eventCount.toNat else 0) < 2 ^ 64 := by
    have h := hrm.conflict
    rcases effect_cases engine mode row with ⟨_, _, _, he⟩ | ⟨_, _, _, he⟩ | ⟨_, he⟩
    · rw [he] at h
      exact h
    · rw [he] at h
      exact h
    · rw [he] at h
      exact h
  unfold selectRow validateRow
  rw [require_pos hvalid, ok_bind, checkedAddEvents_ok htot, ok_bind]
  simp only [checkedAddEvents_if hcf, ok_bind]
  cases hselect : selectReported mode row with
  | true =>
    cases hco : row.reportedCost with
    | some amount =>
      have hef : effect engine mode row = reportedEffect row (conflictCount engine row) amount := by
        unfold effect
        rw [hselect, if_pos rfl, hco]
      rw [hef] at hrm ⊢
      rw [addReported_ok hco]
      · simp [Selection.add, reportedEffect, conflictCount]
      · exact hrm.numerator
      · exact hrm.reported
    | none =>
      have hef : effect engine mode row =
          unpricedEffect row (conflictCount engine row) .reportedCostMissing := by
        unfold effect
        rw [hselect, if_pos rfl, hco]
      rw [hef] at hrm ⊢
      rw [addReported_missing hco]
      · simp [Selection.add, unpricedEffect, conflictCount]
      · exact hrm.unpriced
  | false =>
    cases hcalc : calculateRow engine row with
    | ok calculated =>
      have hef : effect engine mode row =
          pricedEffect row (conflictCount engine row) calculated := by
        unfold effect
        rw [hselect, if_neg Bool.false_ne_true, hcalc]
      rw [hef] at hrm ⊢
      rw [addCalculated_ok]
      · simp [Selection.add, pricedEffect, conflictCount, hcalc]
      · exact hrm.numerator
      · exact hrm.priced
      · exact hrm.assumed
      · exact hrm.unpriced
    | error code =>
      have hef : effect engine mode row =
          unpricedEffect row (conflictCount engine row) (missingReason code) := by
        unfold effect
        rw [hselect, if_neg Bool.false_ne_true, hcalc]
      rw [hef] at hrm ⊢
      rw [addCalculated_missing]
      · simp [Selection.add, unpricedEffect, conflictCount, hcalc]
      · exact hrm.unpriced

/-! ### All rows -/

section Rows

variable (engine : PricingEngine) (mode : CostMode) (omitted : UInt64)

def eventTotal (rows : List PriceBasisRow) : ℕ := (rows.map (·.eventCount.toNat)).sum

/-- The sum of one part over the rows. -/
def effectSum (part : RowEffect → ℕ) (rows : List PriceBasisRow) : ℕ :=
  (rows.map fun row => part (effect engine mode row)).sum

/-- The state of the loop as a function of the rows it has seen. -/
def afterRows (rows : List PriceBasisRow) : Selection where
  counters := {
    totalEvents := omitted.toNat + eventTotal rows
    pricedEvents := effectSum engine mode (·.pricedEvents) rows
    reportedEvents := effectSum engine mode (·.reportedEvents) rows
    assumedEvents := effectSum engine mode (·.assumedEvents) rows
    unpricedEvents := effectSum engine mode (·.unpricedEvents) rows
    omittedEvents := omitted.toNat
    conflictEvents := effectSum engine mode (·.conflictEvents) rows }
  selectedNumerator := effectSum engine mode (·.numerator) rows
  missing := (Selection.start omitted).missing ++ rows.flatMap fun row => (effect engine mode row).missing
  usedCalculated := rows.any fun row => (effect engine mode row).usedCalculated
  usedOverride := rows.any fun row => (effect engine mode row).usedOverride
  numericFailure := false

theorem afterRows_nil : afterRows engine mode omitted [] = .start omitted := by
  simp [afterRows, Selection.start, eventTotal, effectSum]

theorem afterRows_append (rows : List PriceBasisRow) (row : PriceBasisRow) :
    afterRows engine mode omitted (rows ++ [row]) =
      (afterRows engine mode omitted rows).add row (effect engine mode row) := by
  simp [afterRows, Selection.add, eventTotal, effectSum, Nat.add_assoc]

/-- Rows that are all valid, with the events they stand for. -/
structure Admitted (rows : List PriceBasisRow) : Prop where
  valid : ∀ row ∈ rows, row.Valid
  total_lt : omitted.toNat + eventTotal rows < 2 ^ 64

variable {engine mode omitted}

variable {rows : List PriceBasisRow}

theorem Admitted.of_append (h : Admitted omitted (rows ++ rows')) :
    Admitted omitted rows where
  valid row hrow := h.valid row (mem_append_left _ hrow)
  total_lt := by
    have htot := h.total_lt
    simp only [eventTotal, map_append, sum_append] at htot ⊢
    omega

section

variable (hvalid : ∀ row ∈ rows, row.Valid)

include hvalid

/-- The parts of valid rows are their events. -/
theorem effectSum_parts :
    effectSum engine mode (·.pricedEvents) rows + effectSum engine mode (·.reportedEvents) rows +
      effectSum engine mode (·.unpricedEvents) rows = eventTotal rows := by
  unfold effectSum eventTotal
  rw [← sum_map_add, ← sum_map_add]
  refine congrArg List.sum (map_congr_left fun row hrow => ?_)
  exact (effect_sound engine mode (hvalid row hrow)).parts

theorem effectSum_numerator_le :
    effectSum engine mode (·.numerator) rows ≤ rows.length * (3 * maxComponent) := by
  have h := sum_le_card_nsmul (rows.map fun row => (effect engine mode row).numerator)
    (3 * maxComponent) fun n hn => by
      obtain ⟨row, hrow, rfl⟩ := mem_map.mp hn
      exact (effect_sound engine mode (hvalid row hrow)).numerator_le
  simpa [effectSum] using h

/-- 512 numerators and the rounding fit `u128`. -/
theorem numerator_lt (hlen : rows.length ≤ maxPriceBasisRows) :
    effectSum engine mode (·.numerator) rows + halfTokenMillion < 2 ^ 128 := by
  have hsum : effectSum engine mode (·.numerator) rows ≤ rows.length * (3 * maxComponent) :=
    effectSum_numerator_le hvalid
  have hmost : rows.length * (3 * maxComponent) ≤ maxPriceBasisRows * (3 * maxComponent) :=
    Nat.mul_le_mul_right _ hlen
  have hbd : maxPriceBasisRows * (3 * maxComponent) + halfTokenMillion < 2 ^ 128 := by decide
  omega

end

theorem room_append {row : PriceBasisRow} (h : Admitted omitted (rows ++ [row]))
    (hlen : (rows ++ [row]).length ≤ maxPriceBasisRows) :
    Room (afterRows engine mode omitted rows) (effect engine mode row) := by
  have hps : effectSum engine mode (·.pricedEvents) (rows ++ [row]) +
      effectSum engine mode (·.reportedEvents) (rows ++ [row]) +
      effectSum engine mode (·.unpricedEvents) (rows ++ [row]) = eventTotal (rows ++ [row]) :=
    effectSum_parts h.valid
  have hassu : effectSum engine mode (·.assumedEvents) (rows ++ [row]) ≤
      effectSum engine mode (·.pricedEvents) (rows ++ [row]) :=
    List.sum_le_sum fun row hrow => (effect_sound engine mode (h.valid row hrow)).assumed_le
  have hcf : effectSum engine mode (·.conflictEvents) (rows ++ [row]) ≤
      eventTotal (rows ++ [row]) :=
    List.sum_le_sum fun row hrow => (effect_sound engine mode (h.valid row hrow)).conflict_le
  have hnume : effectSum engine mode (·.numerator) (rows ++ [row]) + halfTokenMillion < 2 ^ 128 :=
    numerator_lt h.valid hlen
  have htot := h.total_lt
  have happend : ∀ part : RowEffect → ℕ, effectSum engine mode part (rows ++ [row]) =
      effectSum engine mode part rows + part (effect engine mode row) := by
    simp [effectSum]
  simp only [happend] at hps hassu hcf hnume
  constructor <;> simp only [afterRows] <;> omega

/-- One row more. -/
theorem selectRow_afterRows_eq_ok {row : PriceBasisRow} {state : Selection}
    (hbef : Admitted omitted rows) (hlen : (rows ++ [row]).length ≤ maxPriceBasisRows) :
    selectRow engine mode (afterRows engine mode omitted rows) row = .ok state ↔
      Admitted omitted (rows ++ [row]) ∧ state = afterRows engine mode omitted (rows ++ [row]) := by
  have hevs : omitted.toNat + eventTotal (rows ++ [row]) =
      (afterRows engine mode omitted rows).counters.totalEvents + row.eventCount.toNat := by
    simp [eventTotal, afterRows, Nat.add_assoc]
  have hok (hadm : Admitted omitted (rows ++ [row])) :
      selectRow engine mode (afterRows engine mode omitted rows) row =
        .ok (afterRows engine mode omitted (rows ++ [row])) := by
    have hvalid := hadm.valid row (mem_append_right _ (mem_singleton_self row))
    have htot := hadm.total_lt
    rw [hevs] at htot
    rw [selectRow_ok hvalid htot (room_append hadm hlen), afterRows_append]
  constructor
  · intro h
    have hadm : Admitted omitted (rows ++ [row]) := by
      have h' := h
      obtain ⟨_, hvalid, h'⟩ := bind_eq_ok.mp h'
      obtain ⟨total, htot, h'⟩ := bind_eq_ok.mp h'
      refine ⟨fun other hoth => ?_, ?_⟩
      · rcases mem_append.mp hoth with hoth | hoth
        · exact hbef.valid other hoth
        · rw [mem_singleton.mp hoth]
          exact require_eq_ok.mp hvalid
      · rw [hevs]
        exact (checkedAddEvents_eq_ok.mp htot).1
    refine ⟨hadm, ?_⟩
    rw [hok hadm] at h
    exact (Except.ok.inj h).symm
  · rintro ⟨hadm, rfl⟩
    exact hok hadm

theorem foldlM_selectRow_eq_ok {state : Selection} (hlen : rows.length ≤ maxPriceBasisRows) :
    rows.foldlM (selectRow engine mode) (.start omitted) = .ok state ↔
      Admitted omitted rows ∧ state = afterRows engine mode omitted rows := by
  induction rows using List.reverseRecOn generalizing state with
  | nil =>
    have hadm : Admitted omitted [] := by
      refine ⟨fun row hrow => absurd hrow not_mem_nil, ?_⟩
      simpa [eventTotal] using omitted.toNat_lt
    rw [foldlM_nil, afterRows_nil]
    constructor
    · intro h
      cases h
      exact ⟨hadm, rfl⟩
    · rintro ⟨_, rfl⟩
      rfl
  | append_singleton rows row ih =>
    have hshor : rows.length ≤ maxPriceBasisRows := by
      rw [length_append] at hlen
      omega
    rw [foldlM_append]
    simp only [foldlM_cons, foldlM_nil, bind_pure]
    constructor
    · intro h
      obtain ⟨before, hbef, h⟩ := bind_eq_ok.mp h
      obtain ⟨hadm, rfl⟩ := (ih hshor).mp hbef
      exact (selectRow_afterRows_eq_ok hadm hlen).mp h
    · rintro ⟨hadm, rfl⟩
      have hbef : Admitted omitted rows := hadm.of_append
      refine bind_eq_ok.mpr
        ⟨afterRows engine mode omitted rows, (ih hshor).mpr ⟨hbef, rfl⟩, ?_⟩
      exact (selectRow_afterRows_eq_ok hbef hlen).mpr ⟨hadm, rfl⟩

end Rows

/-! ### The end of the loop -/

variable {engine : PricingEngine} {mode : CostMode}

theorem finishSelection_ok {state : Selection}
    (h : state.counters.pricedEvents + state.counters.reportedEvents < 2 ^ 64) :
    finishSelection engine mode state =
      .ok (resultOf engine mode (finalState state) (finalAmount state)) := by
  have hfi : (finalState state).counters.pricedEvents + (finalState state).counters.reportedEvents <
      2 ^ 64 := by
    unfold finalState
    split_ifs
    · exact Nat.two_pow_pos 64
    · exact h
  unfold finishSelection
  rw [checkedAddEvents_ok h, ok_bind]
  dsimp only
  rw [checkedAddEvents_ok hfi, ok_bind]
  rfl

variable {rows : List PriceBasisRow} {omitted : UInt64}

theorem selectCost_eq_ok {res : CostResult} :
    selectCost engine mode rows omitted = .ok res ↔
      (rows.length ≤ maxPriceBasisRows ∧ Admitted omitted rows) ∧
        res = resultOf engine mode (finalState (afterRows engine mode omitted rows))
          (finalAmount (afterRows engine mode omitted rows)) := by
  have hfin (hadm : Admitted omitted rows) :
      finishSelection engine mode (afterRows engine mode omitted rows) =
        .ok (resultOf engine mode (finalState (afterRows engine mode omitted rows))
          (finalAmount (afterRows engine mode omitted rows))) := by
    refine finishSelection_ok ?_
    have hps : effectSum engine mode (·.pricedEvents) rows +
        effectSum engine mode (·.reportedEvents) rows +
        effectSum engine mode (·.unpricedEvents) rows = eventTotal rows :=
      effectSum_parts hadm.valid
    have htot := hadm.total_lt
    simp only [afterRows]
    omega
  constructor
  · intro h
    obtain ⟨_, hlen, h⟩ := bind_eq_ok.mp h
    obtain ⟨state, hsta, h⟩ := bind_eq_ok.mp h
    have hlen := require_eq_ok.mp hlen
    obtain ⟨hadm, rfl⟩ := (foldlM_selectRow_eq_ok hlen).mp hsta
    rw [hfin hadm] at h
    exact ⟨⟨hlen, hadm⟩, (Except.ok.inj h).symm⟩
  · rintro ⟨⟨hlen, hadm⟩, rfl⟩
    refine require_bind.mpr ⟨hlen, ?_⟩
    exact bind_eq_ok.mpr
      ⟨_, (foldlM_selectRow_eq_ok hlen).mpr ⟨hadm, rfl⟩, hfin hadm⟩

/-! ### Any order of the rows -/

theorem missingOrder_injective : Function.Injective MissingCost.order := by
  rintro ⟨reason, key⟩ ⟨reason', key'⟩ h
  obtain ⟨hreason, hkey⟩ := List.cons.inj h
  have hreason : reason = reason' := by
    cases reason <;> cases reason' <;> first | rfl | cases hreason
  subst hreason
  cases key with
  | none =>
    cases key' with
    | none => rfl
    | some key' => cases hkey
  | some key =>
    cases key' with
    | none => cases hkey
    | some key' => rw [keyOrder_injective (List.cons.inj hkey).2]

theorem sortedMissing_perm {missing' : List MissingCost} (h : missing.Perm missing') :
    sortedMissing missing = sortedMissing missing' := by
  unfold sortedMissing
  rw [sortBy_congr h fun _ _ _ _ heq => missingOrder_injective heq]

/-- The result does not depend on the order in which details were found missing. -/
theorem resultOf_perm {state : Selection} (h : state.missing.Perm missing) :
    resultOf engine mode (finalState { state with missing := missing })
        (finalAmount { state with missing := missing }) =
      resultOf engine mode (finalState state) (finalAmount state) := by
  have hround : Selection.rounded { state with missing := missing } = state.rounded := by
    simp only [Selection.rounded]
  unfold finalState finalAmount
  rw [hround]
  by_cases hfail : state.rounded.2
  · have hso := sortedMissing_perm (h.append_right [⟨.arithmeticOverflow, none⟩])
    simp only [if_pos hfail, resultOf, failSelection, hso]
  · simp only [if_neg hfail, resultOf, sortedMissing_perm h]

theorem afterRows_perm (h : rows.Perm rows') :
    ∃ missing, (afterRows engine mode omitted rows).missing.Perm missing ∧
      afterRows engine mode omitted rows' =
        { afterRows engine mode omitted rows with missing := missing } := by
  refine ⟨(afterRows engine mode omitted rows').missing, ?_, ?_⟩
  · exact (h.flatMap_right _).append_left _
  · have hsum : ∀ part, effectSum engine mode part rows' = effectSum engine mode part rows :=
      fun part => ((h.map _).sum_eq).symm
    have htot : eventTotal rows' = eventTotal rows := ((h.map _).sum_eq).symm
    unfold afterRows
    simp only [hsum, htot, h.any_eq]

theorem Admitted.perm (hp : rows.Perm rows') (h : Admitted omitted rows) :
    Admitted omitted rows' where
  valid row hrow := h.valid row (hp.mem_iff.mpr hrow)
  total_lt := by
    have htot : eventTotal rows' = eventTotal rows := ((hp.map _).sum_eq).symm
    rw [htot]
    exact h.total_lt

/-! ### Exact costs -/

section Costs

variable (engine : PricingEngine) (mode : CostMode)

/-- The cost that is selected for a row, in millionths of a dollar. -/
def selectedCost? (row : PriceBasisRow) : Option ℚ :=
  if selectReported mode row then row.reportedCost.map fun amount => (amount.get : ℚ)
  else if row.calculableEventCount = 0 then none
  else
    match engine.resolve row.model row.tier row.context with
    | .error _ => none
    | .ok resolved => some ((row.basis.uncachedInputTokens.toNat * resolved.rates.uncachedInput.micros +
        row.basis.cachedInputTokens.toNat * resolved.rates.cachedInput.micros +
        row.basis.billableOutputTokens.toNat * resolved.rates.billableOutput.micros : ℚ) / 1000000)

/-- The exact sum of the selected costs. -/
def exactCost (rows : List PriceBasisRow) : ℚ := (rows.filterMap (selectedCost? engine mode)).sum

/-- There is something to give an amount for. -/
def HasCost (omitted : UInt64) (rows : List PriceBasisRow) : Prop :=
  (∃ row ∈ rows, (selectedCost? engine mode row).isSome) ∨ (rows = [] ∧ omitted = 0)

variable {engine mode}

theorem calculateRow_ok {row : PriceBasisRow} {resolved : ResolvedPriceRule}
    (hcalc : row.calculableEventCount ≠ 0)
    (hres : engine.resolve row.model row.tier row.context = .ok resolved) :
    ∃ calculated, calculateRow engine row = .ok calculated := by
  unfold calculateRow
  rw [require_pos hcalc, ok_bind, hres, ok_bind, calculateNumerator_ok, ok_bind]
  exact ⟨_, rfl⟩

/-- A row has events with a cost just when a cost is selected for it, and its numerator is that cost
in parts of a million. -/
theorem effect_selectedCost {row : PriceBasisRow} (hvalid : row.Valid) :
    (0 < (effect engine mode row).pricedEvents + (effect engine mode row).reportedEvents ↔
        (selectedCost? engine mode row).isSome) ∧
      ((effect engine mode row).numerator : ℚ) / 1000000 =
        (selectedCost? engine mode row).getD 0 := by
  have hevs : 0 < row.eventCount.toNat := by
    refine Nat.pos_of_ne_zero fun hz => hvalid.2.1 ?_
    exact UInt64.toNat_inj.mp hz
  unfold effect selectedCost?
  cases hselect : selectReported mode row with
  | true =>
    rw [if_pos rfl, if_pos rfl]
    cases hco : row.reportedCost with
    | none => simp [unpricedEffect]
    | some amount =>
      have hrepo := reportedCount_eq hvalid hco
      refine ⟨?_, ?_⟩
      · simp only [reportedEffect, Option.map_some, Option.isSome_some, iff_true]
        omega
      · simp only [reportedEffect, Option.map_some, Option.getD_some, tokensPerMillion]
        push_cast
        rw [mul_div_assoc, div_self (by norm_num), mul_one]
  | false =>
    rw [if_neg Bool.false_ne_true, if_neg Bool.false_ne_true]
    by_cases hcalc : row.calculableEventCount = 0
    · rw [if_pos hcalc]
      have herr : calculateRow engine row = .error .tokenBasisUnavailable := by
        unfold calculateRow
        rw [require_neg (not_not.mpr hcalc)]
        rfl
      rw [herr]
      simp [unpricedEffect]
    · rw [if_neg hcalc]
      have hct : 0 < row.calculableEventCount.toNat := by
        refine Nat.pos_of_ne_zero fun hz => hcalc ?_
        exact UInt64.toNat_inj.mp hz
      cases hres : engine.resolve row.model row.tier row.context with
      | error code =>
        have herr : calculateRow engine row = .error code := by
          unfold calculateRow
          rw [require_pos hcalc, ok_bind, hres]
          rfl
        rw [herr]
        simp [unpricedEffect]
      | ok resolved =>
        obtain ⟨calculated, hcalculated⟩ := calculateRow_ok hcalc hres
        obtain ⟨_, resolved', hres', hnume⟩ := calculateRow_eq_ok hcalculated
        obtain rfl : resolved' = resolved := Except.ok.inj (hres'.symm.trans hres)
        rw [hcalculated]
        refine ⟨?_, ?_⟩
        · simp only [pricedEffect, Option.isSome_some, iff_true]
          omega
        · simp only [pricedEffect, Option.getD_some, hnume, exactNumerator]
          push_cast
          rfl

theorem exactCost_eq {rows : List PriceBasisRow} (hvalid : ∀ row ∈ rows, row.Valid) :
    exactCost engine mode rows = (effectSum engine mode (·.numerator) rows : ℚ) / 1000000 := by
  induction rows with
  | nil => simp [exactCost, effectSum]
  | cons row rows ih =>
    have hrs := ih fun other hoth => hvalid other (mem_cons_of_mem _ hoth)
    have hrow : ((effect engine mode row).numerator : ℚ) / 1000000 =
        (selectedCost? engine mode row).getD 0 :=
      (effect_selectedCost (hvalid row (mem_cons_self ..))).2
    have hsum : effectSum engine mode (·.numerator) (row :: rows) =
        (effect engine mode row).numerator + effectSum engine mode (·.numerator) rows := by
      simp [effectSum]
    rw [hsum, Nat.cast_add, add_div, hrow, ← hrs]
    unfold exactCost
    cases hco : selectedCost? engine mode row with
    | none => rw [filterMap_cons_none hco, Option.getD_none, zero_add]
    | some cost => rw [filterMap_cons_some hco, sum_cons, Option.getD_some]

/-- Half up is what the integer division does. -/
theorem floor_half (numerator : ℕ) :
    ⌊(numerator : ℚ) / 1000000 + 1 / 2⌋₊ = (numerator + halfTokenMillion) / tokensPerMillion := by
  have hspl : (numerator : ℚ) / 1000000 + 1 / 2 =
      ((numerator + halfTokenMillion : ℕ) : ℚ) / (tokensPerMillion : ℕ) := by
    unfold halfTokenMillion tokensPerMillion
    push_cast
    ring
  rw [hspl, Nat.floor_div_eq_div]

theorem hasCost_iff {omitted : UInt64} {rows : List PriceBasisRow} (hvalid : ∀ row ∈ rows, row.Valid) :
    HasCost engine mode omitted rows ↔
      (afterRows engine mode omitted rows).counters.pricedEvents +
          (afterRows engine mode omitted rows).counters.reportedEvents > 0 ∨
        (afterRows engine mode omitted rows).counters.totalEvents = 0 := by
  have hsum : (afterRows engine mode omitted rows).counters.pricedEvents +
      (afterRows engine mode omitted rows).counters.reportedEvents =
      (rows.map fun row => (effect engine mode row).pricedEvents +
        (effect engine mode row).reportedEvents).sum := by
    rw [sum_map_add]
    rfl
  have htot : (afterRows engine mode omitted rows).counters.totalEvents =
      omitted.toNat + eventTotal rows := rfl
  rw [hsum, htot]
  refine or_congr ?_ ?_
  · constructor
    · rintro ⟨row, hrow, hso⟩
      have hposi := (effect_selectedCost (hvalid row hrow)).1.mpr hso
      have hmem : (effect engine mode row).pricedEvents + (effect engine mode row).reportedEvents ∈
          rows.map fun row => (effect engine mode row).pricedEvents +
            (effect engine mode row).reportedEvents := mem_map.mpr ⟨row, hrow, rfl⟩
      exact lt_of_lt_of_le hposi (le_sum_of_mem hmem)
    · intro hposi
      by_contra hno
      push Not at hno
      have hz : ∀ n ∈ rows.map fun row => (effect engine mode row).pricedEvents +
          (effect engine mode row).reportedEvents, n = 0 := by
        intro n hn
        obtain ⟨row, hrow, rfl⟩ := mem_map.mp hn
        refine Nat.eq_zero_of_not_pos fun hpos => ?_
        exact absurd ((effect_selectedCost (hvalid row hrow)).1.mp hpos) (by simp [hno row hrow])
      rw [sum_eq_zero hz] at hposi
      exact lt_irrefl _ hposi
  · constructor
    · rintro ⟨rfl, rfl⟩
      rfl
    · intro hz
      have homit : omitted = 0 := UInt64.toNat_inj.mp (by simpa using (by omega : omitted.toNat = 0))
      cases rows with
      | nil => exact ⟨rfl, homit⟩
      | cons row rows =>
        have hevs : 0 < row.eventCount.toNat := by
          refine Nat.pos_of_ne_zero fun h => (hvalid row (mem_cons_self ..)).2.1 ?_
          exact UInt64.toNat_inj.mp h
        simp only [eventTotal, map_cons, sum_cons] at hz
        omega

end Costs

/-! ### The selected cost -/

section Result

variable {engine : PricingEngine} {mode : CostMode} {rows : List PriceBasisRow} {omitted : UInt64}

theorem UsdMicros.ofNat?_eq_ok {n : ℕ} :
    UsdMicros.ofNat? n = .ok amount ↔ amount.get = n := by
  unfold UsdMicros.ofNat?
  constructor
  · intro h
    split_ifs at h
    cases h
    rfl
  · rintro rfl
    rw [dif_pos amount.get_lt]

/-- The amount of a state whose sum rounds to `n`. -/
theorem finalAmount_of_round {state : Selection} {n : ℕ} (hfail : state.numericFailure = false)
    (hround : roundNumerator state.selectedNumerator = UsdMicros.ofNat? n) (amount : UsdMicros) :
    finalAmount state = some amount ↔
      (state.counters.pricedEvents + state.counters.reportedEvents > 0 ∨
        state.counters.totalEvents = 0) ∧ amount.get = n := by
  unfold finalAmount Selection.rounded roundSelected
  by_cases hco : state.counters.pricedEvents + state.counters.reportedEvents > 0 ∨
      state.counters.totalEvents = 0
  · rw [if_pos hco, hround]
    cases hfit : UsdMicros.ofNat? n with
    | ok rounded =>
      simp only [hfail, hco, true_and, Bool.false_eq_true, if_false, Option.some.injEq]
      rw [← UsdMicros.ofNat?_eq_ok, hfit, Except.ok.injEq]
    | error code =>
      simp only [hco, true_and, if_true, reduceCtorEq, false_iff]
      intro hamount
      have hok := UsdMicros.ofNat?_eq_ok.mpr hamount
      rw [hfit] at hok
      cases hok
  · simp only [hfail, Bool.false_eq_true, if_false, reduceCtorEq, hco, false_and]

theorem finalAmount_eq_some (hadm : Admitted omitted rows)
    (hlen : rows.length ≤ maxPriceBasisRows) (amount : UsdMicros) :
    finalAmount (afterRows engine mode omitted rows) = some amount ↔
      HasCost engine mode omitted rows ∧ amount.get = ⌊exactCost engine mode rows + 1 / 2⌋₊ := by
  have hround : roundNumerator (afterRows engine mode omitted rows).selectedNumerator =
      UsdMicros.ofNat? ⌊exactCost engine mode rows + 1 / 2⌋₊ := by
    show roundNumerator (effectSum engine mode (·.numerator) rows) = _
    rw [roundNumerator, require_pos (numerator_lt hadm.valid hlen), ok_bind,
      exactCost_eq hadm.valid, floor_half]
  rw [finalAmount_of_round rfl hround amount, hasCost_iff hadm.valid]

theorem finalState_counters (hadm : Admitted omitted rows) :
    (finalState (afterRows engine mode omitted rows)).counters.omittedEvents = omitted.toNat ∧
      (finalState (afterRows engine mode omitted rows)).counters.totalEvents =
        omitted.toNat + eventTotal rows ∧
      (finalState (afterRows engine mode omitted rows)).counters.totalEvents =
        (finalState (afterRows engine mode omitted rows)).counters.pricedEvents +
          (finalState (afterRows engine mode omitted rows)).counters.reportedEvents +
          (finalState (afterRows engine mode omitted rows)).counters.unpricedEvents +
          (finalState (afterRows engine mode omitted rows)).counters.omittedEvents := by
  have hps : effectSum engine mode (·.pricedEvents) rows +
      effectSum engine mode (·.reportedEvents) rows +
      effectSum engine mode (·.unpricedEvents) rows = eventTotal rows :=
    effectSum_parts hadm.valid
  unfold finalState
  split_ifs
  · simp only [failSelection, afterRows]
    refine ⟨trivial, trivial, ?_⟩
    omega
  · simp only [afterRows]
    refine ⟨trivial, trivial, ?_⟩
    omega

end Result

/-- Selection fails for too many rows, an invalid row or too many events, and for nothing else.
Otherwise all events are accounted for, the numerators never overflow, the amount is the exact sum of
the selected costs rounded half up where there is one that fits, and the order of the rows does not
matter. -/
theorem select_cost_exact (engine : PricingEngine) (mode : CostMode) (rows : List PriceBasisRow)
    (omitted : UInt64) :
    ((∃ result, selectCost engine mode rows omitted = .ok result) ↔
        rows.length ≤ maxPriceBasisRows ∧ (∀ row ∈ rows, row.Valid) ∧
          omitted.toNat + (rows.map (·.eventCount.toNat)).sum < 2 ^ 64) ∧
      ∀ result, selectCost engine mode rows omitted = .ok result →
        (result.counters.omittedEvents = omitted.toNat ∧
          result.counters.totalEvents = omitted.toNat + (rows.map (·.eventCount.toNat)).sum ∧
          result.counters.totalEvents = result.counters.pricedEvents +
            result.counters.reportedEvents + result.counters.unpricedEvents +
            result.counters.omittedEvents) ∧
        (∀ amount, result.amount = some amount ↔
          HasCost engine mode omitted rows ∧ amount.get = ⌊exactCost engine mode rows + 1 / 2⌋₊) ∧
        (∀ k state, (rows.take k).foldlM (selectRow engine mode) (.start omitted) = .ok state →
          state.numericFailure = false ∧ state.selectedNumerator + halfTokenMillion < 2 ^ 128) ∧
        ∀ rows', rows.Perm rows' → selectCost engine mode rows' omitted = .ok result := by
  refine ⟨⟨?_, ?_⟩, fun result h => ?_⟩
  · rintro ⟨result, h⟩
    obtain ⟨⟨hlen, hadm⟩, _⟩ := selectCost_eq_ok.mp h
    exact ⟨hlen, hadm.valid, hadm.total_lt⟩
  · rintro ⟨hlen, hvalid, htot⟩
    exact ⟨_, selectCost_eq_ok.mpr ⟨⟨hlen, hvalid, htot⟩, rfl⟩⟩
  · obtain ⟨⟨hlen, hadm⟩, rfl⟩ := selectCost_eq_ok.mp h
    refine ⟨finalState_counters hadm, finalAmount_eq_some hadm hlen, ?_, ?_⟩
    · intro k state hsta
      have htk : (rows.take k).length ≤ maxPriceBasisRows :=
        (length_take_le' k rows).trans hlen
      obtain ⟨hbef, rfl⟩ := (foldlM_selectRow_eq_ok htk).mp hsta
      exact ⟨rfl, numerator_lt hbef.valid htk⟩
    · intro rows' hp
      obtain ⟨missing, hmiss, haft⟩ := afterRows_perm hp
      refine selectCost_eq_ok.mpr ⟨⟨hp.length_eq ▸ hlen, hadm.perm hp⟩, ?_⟩
      rw [haft, resultOf_perm hmiss]

/-- As many uncached tokens as a row can have. -/
def hugeRow : PriceBasisRow where
  model := ascii "gpt-5.6-sol"
  tier := .standardReported
  context := .short
  eventCount := 1
  calculableEventCount := 1
  basis := ⟨18446744073709551615, 0, 0⟩
  reportedEventCount := 0
  reportedCost := none

/-- A valid row whose cost exceeds `u64`: the selection succeeds without an amount. -/
theorem huge_cost_has_no_amount :
    hugeRow.Valid ∧
      selectedCost? (.embedded polynomialDigest) .calculated hugeRow = some 92233720368547758075 ∧
      (selectCost (.embedded polynomialDigest) .calculated [hugeRow] 0).toOption.map
        (fun result => (result.amount, result.counters.pricedEvents)) = some (none, 0) := by
  decide +kernel

end TokenMaster.Pricing
