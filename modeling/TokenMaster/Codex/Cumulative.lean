import TokenMaster.Codex.ReaderRun

/-!
# TokenMaster.Codex.Cumulative — deltas of cumulative totals

A `token_count` line without `last_token_usage` reports totals since the start of its session, and the
parser emits their difference to the totals of the line before.  `previous_totals` is replaced as a
whole: a counter that a line lacks has no baseline on the next line, where all of it is emitted again.
What is emitted again is exactly what the deltas have too much (`deltaSum_eq`).
-/

namespace TokenMaster.Codex

open Domain List

/-! ### One counter -/

def amount : TokenCount → ℕ
  | .available value => value
  | .unavailable => 0

/-- The totals of a counter on the lines that report it. -/
def reportedValues : List TokenCount → List ℕ
  | [] => []
  | .available value :: counts => value :: reportedValues counts
  | .unavailable :: counts => reportedValues counts

/-- The deltas of a counter along the lines, added up. -/
def deltaSum : TokenCount → List TokenCount → ℕ
  | _, [] => 0
  | previous, count :: counts => amount (subtractCount count previous) + deltaSum count counts

/-- What is emitted again: the total held so far, at each report behind a line without the counter. -/
def recounted : ℕ → TokenCount → List TokenCount → ℕ
  | _, _, [] => 0
  | held, _, .unavailable :: counts => recounted held .unavailable counts
  | held, .unavailable, .available value :: counts =>
    held + recounted value (.available value) counts
  | _, .available _, .available value :: counts => recounted value (.available value) counts

theorem deltaSum_eq {held : ℕ} {prev : TokenCount} {counts : List TokenCount}
    (hprev : ∀ value, prev = .available value → held = value)
    (hgrows : (held :: reportedValues counts).Pairwise (· ≤ ·)) :
    held + deltaSum prev counts =
      (reportedValues counts).getLastD held + recounted held prev counts := by
  induction counts generalizing held prev with
  | nil => rfl
  | cons count counts ih =>
    cases count with
    | unavailable =>
      have hrs := @ih held .unavailable (fun _ h => by cases h) hgrows
      simp only [deltaSum, subtractCount, amount, reportedValues, recounted, Nat.zero_add]
      exact hrs
    | available value =>
      obtain ⟨hle, hrs⟩ := pairwise_cons.mp hgrows
      have hval : held ≤ value := hle value (mem_cons_self ..)
      have hl := ih (fun _ h => TokenCount.available.inj h) hrs
      cases prev with
      | unavailable =>
        simp only [deltaSum, subtractCount, amount, reportedValues, recounted, getLastD_cons]
        omega
      | available old =>
        obtain rfl := hprev old rfl
        simp only [deltaSum, subtractCount, if_pos hval, amount, reportedValues, recounted,
          getLastD_cons]
        omega

/-- No line lacks the counter between one with a positive total and one that reports it again. -/
def Unbroken (counts : List TokenCount) : Prop :=
  ∀ before after, counts = before ++ .unavailable :: after →
    (∃ value ∈ reportedValues before, 0 < value) → reportedValues after = []

/-- `Unbroken` with a total that is held already. -/
def UnbrokenFrom (held : ℕ) (counts : List TokenCount) : Prop :=
  ∀ before after, counts = before ++ .unavailable :: after →
    (∃ value ∈ held :: reportedValues before, 0 < value) → reportedValues after = []

section Unbroken

variable {held value : ℕ} {counts : List TokenCount}

theorem unbrokenFrom_unavailable :
    UnbrokenFrom held (.unavailable :: counts) ↔
      (0 < held → reportedValues counts = []) ∧ UnbrokenFrom held counts := by
  constructor
  · intro h
    refine ⟨fun hpos => h [] counts rfl ⟨held, mem_cons_self .., hpos⟩, ?_⟩
    intro before after hspl hval
    exact h (.unavailable :: before) after (by rw [hspl, cons_append]) hval
  · rintro ⟨hno, hrs⟩ before after hspl ⟨value, hmem, hpos⟩
    cases before with
    | nil =>
      cases hspl
      rw [mem_singleton.mp hmem] at hpos
      exact hno hpos
    | cons count before =>
      obtain ⟨rfl, htl⟩ := List.cons.inj hspl
      exact hrs before after htl ⟨value, hmem, hpos⟩

theorem unbrokenFrom_available (hle : held ≤ value) :
    UnbrokenFrom held (.available value :: counts) ↔ UnbrokenFrom value counts := by
  constructor
  · intro h before after hspl hval
    obtain ⟨v, hmem, hpos⟩ := hval
    exact h (.available value :: before) after (by rw [hspl, cons_append])
      ⟨v, mem_cons_of_mem _ hmem, hpos⟩
  · rintro h before after hspl ⟨v, hmem, hpos⟩
    cases before with
    | nil => cases hspl
    | cons count before =>
      obtain ⟨rfl, htl⟩ := List.cons.inj hspl
      refine h before after htl ?_
      rcases mem_cons.mp hmem with rfl | hmem
      · exact ⟨value, mem_cons_self .., by omega⟩
      · exact ⟨v, hmem, hpos⟩

theorem recounted_eq_zero {prev : TokenCount}
    (hgrows : (held :: reportedValues counts).Pairwise (· ≤ ·)) :
    recounted held prev counts = 0 ↔
      (prev = .unavailable → 0 < held → reportedValues counts = []) ∧ UnbrokenFrom held counts := by
  induction counts generalizing held prev with
  | nil =>
    refine ⟨fun _ => ⟨fun _ _ => rfl, ?_⟩, fun _ => by cases prev <;> rfl⟩
    intro before after hspl
    cases before <;> cases hspl
  | cons count counts ih =>
    cases count with
    | unavailable =>
      have hst : recounted held prev (.unavailable :: counts) =
          recounted held .unavailable counts := by cases prev <;> rfl
      rw [hst, ih hgrows, unbrokenFrom_unavailable]
      simp only [true_implies, reportedValues]
      exact ⟨fun h => ⟨fun _ => h.1, h⟩, fun h => h.2⟩
    | available value =>
      obtain ⟨hle, hrs⟩ := pairwise_cons.mp hgrows
      have hih := @ih value (.available value) hrs
      rw [unbrokenFrom_available (hle value (mem_cons_self ..))]
      cases prev with
      | unavailable =>
        rw [recounted, Nat.add_eq_zero_iff, hih]
        simp [reportedValues, Nat.pos_iff_ne_zero]
      | available old =>
        rw [recounted, hih]
        simp

/-- **The deltas of a growing counter add up to its last total exactly if it is unbroken.** -/
theorem deltaSum_eq_last_iff (hgrows : (reportedValues counts).Pairwise (· ≤ ·)) :
    deltaSum .unavailable counts = (reportedValues counts).getLastD 0 ↔ Unbroken counts := by
  have hz : (0 :: reportedValues counts).Pairwise (· ≤ ·) :=
    pairwise_cons.mpr ⟨fun _ _ => Nat.zero_le _, hgrows⟩
  have hsum := @deltaSum_eq 0 .unavailable counts (fun _ h => by cases h) hz
  have hreco := @recounted_eq_zero 0 counts .unavailable hz
  have hunbr : UnbrokenFrom 0 counts ↔ Unbroken counts := by simp [UnbrokenFrom, Unbroken]
  rw [hunbr] at hreco
  constructor
  · intro heq
    exact (hreco.mp (by omega)).2
  · intro h
    have := hreco.mpr ⟨fun _ hpos => absurd hpos (lt_irrefl 0), h⟩
    omega

end Unbroken

/-! ### Lines -/

inductive Counter where
  | input
  | cached
  | output
  | reasoning
  | total

def Counter.of : Counter → TokenUsage → TokenCount
  | input, usage => usage.input
  | cached, usage => usage.cached
  | output, usage => usage.output
  | reasoning, usage => usage.reasoning
  | total, usage => usage.total

/-- The counter of the last totals. -/
def Counter.baseline (counter : Counter) : Option TokenUsage → TokenCount
  | none => .unavailable
  | some usage => counter.of usage

theorem Counter.of_subtractUsage (counter : Counter) (totals : TokenUsage)
    (prev : Option TokenUsage) :
    counter.of (subtractUsage totals prev) =
      subtractCount (counter.of totals) (counter.baseline prev) := by
  have hno : ∀ count : TokenCount, count = subtractCount count .unavailable := by
    intro count
    cases count <;> rfl
  cases prev with
  | none => exact hno _
  | some usage => cases counter <;> rfl

/-- The totals of a `token_count` record that carries nothing else. -/
def cumulativeTotals (raw : RawLine) : Option TokenUsage :=
  match raw.payload with
  | none => none
  | some payload =>
    if raw.kind.value = some "event_msg".toList ∧ payload.kind.value = some "token_count".toList then
      payload.info.bind fun info =>
        if info.lastTokenUsage.isSome then none else info.totalTokenUsage.map normalizeUsage
    else none

/-- If usage is read from the line, it is cumulative totals. -/
def CumulativeOnly (ext : Externals) (line : Bytes) : Prop :=
  ∀ raw ∈ rawLine ext line, ∀ previous, (lineEffect ext raw previous).isSome →
    (cumulativeTotals raw).isSome

/-- The totals that a line reports; a line without a valid timestamp is rejected. -/
def reportedTotals (ext : Externals) (line : Bytes) : Option TokenUsage :=
  (rawLine ext line).bind fun raw =>
    if (firstTimestamp ext [raw.timestamp, raw.createdAt, raw.createdAtV2]).isSome then
      cumulativeTotals raw
    else none

theorem lineEffect_totals (ext : Externals) {raw : RawLine} {totals : TokenUsage}
    (h : cumulativeTotals raw = some totals) (prev : Option TokenUsage) :
    ∃ effect, lineEffect ext raw prev = some effect ∧
      effect.timestamp = firstTimestamp ext [raw.timestamp, raw.createdAt, raw.createdAtV2] ∧
      effect.usage = subtractUsage totals prev ∧ effect.baselineUpdate = some totals := by
  unfold cumulativeTotals at h
  cases hpay : raw.payload with
  | none => simp [hpay] at h
  | some payload =>
    simp only [hpay] at h
    split_ifs at h with hkd
    obtain ⟨info, hinfo, htots⟩ := Option.bind_eq_some_iff.mp h
    split_ifs at htots with hl
    rw [Bool.not_eq_true, Option.isSome_eq_false_iff, Option.isNone_iff_eq_none] at hl
    rw [lineEffect, hpay]
    simp only [if_pos hkd, tokenCountEffect, hinfo, hl, htots, Option.map_some]
    exact ⟨_, rfl, rfl, rfl, rfl⟩

/-- The delta of a counter that an outcome emits. -/
def emitted (counter : Counter) (outcome : ParseOutcome) : ℕ :=
  (outcome.event?.map fun event => amount (counter.of event.deltaUsage)).getD 0

section Step

variable (ext : Externals) (dirs : Directories) (ctx : ParseContext) (st : ParserState) (off : ℕ)
  {line : Bytes} {raw : RawLine}

/-- Usage that is read from a line is its totals. -/
theorem reportedTotals_of_effect {effect : LineEffect} (hln : CumulativeOnly ext line)
    (hr : rawLine ext line = some raw) (he : lineEffect ext raw st.previousTotals = some effect) :
    ∃ totals, effect.usage = subtractUsage totals st.previousTotals ∧
      effect.baselineUpdate = some totals ∧
      reportedTotals ext line = if effect.timestamp.isSome then some totals else none := by
  have honly := hln raw hr st.previousTotals (by rw [he]; rfl)
  obtain ⟨totals, htots⟩ := Option.isSome_iff_exists.mp honly
  obtain ⟨effect', he', hts, husage, hbl⟩ := lineEffect_totals ext htots st.previousTotals
  obtain rfl := Option.some.inj (he'.symm.trans he)
  exact ⟨totals, husage, hbl, by rw [reportedTotals, hr, Option.bind_some, htots, hts]⟩

theorem amount_of_zero {usage : TokenUsage} (hz : usageIsPositive usage = false)
    (counter : Counter) : amount (counter.of usage) = 0 := by
  have hcount : ∀ count ∈ [usage.input, usage.cached, usage.output, usage.reasoning, usage.total],
      amount count = 0 := by
    intro count hct
    have hnot := any_eq_false.mp hz count hct
    cases count with
    | available value => simpa [TokenCount.isPositive, amount] using hnot
    | unavailable => rfl
  cases counter <;> exact hcount _ (by simp [Counter.of])

/-- **One line**: the baseline becomes the totals of the line, and their difference to the old one is
emitted. -/
theorem parseLine_totals (hln : CumulativeOnly ext line) (counter : Counter) :
    let parsed := parseLine ext dirs ctx st off line
    parsed.1.previousTotals = (reportedTotals ext line).or st.previousTotals ∧
      emitted counter parsed.2 = ((reportedTotals ext line).map fun totals =>
        amount (subtractCount (counter.of totals) (counter.baseline st.previousTotals))).getD 0 := by
  have hst := parseLine_step ext dirs ctx st off line
  generalize parseLine ext dirs ctx st off line = parsed at hst ⊢
  cases hst with
  | unread h ho =>
    rw [reportedTotals, h]
    rcases ho with rfl | ⟨_, rfl⟩ <;> exact ⟨rfl, rfl⟩
  | untimed h he ht =>
    obtain ⟨_, -, -, hrep⟩ := reportedTotals_of_effect ext st hln h he
    rw [hrep, ht]
    exact ⟨rfl, rfl⟩
  | @metadata raw h he =>
    have hno : cumulativeTotals raw = none := by
      cases htots : cumulativeTotals raw with
      | none => rfl
      | some totals =>
        obtain ⟨_, he', -⟩ := lineEffect_totals ext htots st.previousTotals
        rw [he] at he'
        cases he'
    rw [reportedTotals, h, Option.bind_some, hno, ite_self]
    unfold parseMetadataLine
    dsimp only
    refine ⟨?_, ?_⟩
    · exact (lineUpdate (forget_hint ..) _ _).previousTotals
    · split
      · rfl
      · split_ifs <;> rfl
  | zeroUsage h he ht hz =>
    obtain ⟨totals, husage, hbl, hrep⟩ := reportedTotals_of_effect ext st hln h he
    have hnone := amount_of_zero hz counter
    rw [husage, counter.of_subtractUsage] at hnone
    rw [hrep, ht, hbl]
    exact ⟨rfl, hnone.symm⟩
  | usage h he ht =>
    obtain ⟨totals, husage, hbl, hrep⟩ := reportedTotals_of_effect ext st hln h he
    obtain ⟨_, ev, _, hps, heq⟩ := parseUsage_eq ext ctx st off _ _ _ _
    have hdelta : ev.deltaUsage = _ := congrArg ObservationDraftParts.deltaUsage hps
    rw [heq, hrep, ht, hbl]
    refine ⟨rfl, ?_⟩
    show amount (counter.of ev.deltaUsage) = amount (subtractCount _ _)
    rw [hdelta, ← counter.of_subtractUsage, ← husage]
    rfl

end Step

/-! ### Files -/

/-- What the lines report of a counter. -/
def reportedCounts (ext : Externals) (counter : Counter) (inputs : List LineInput) : List TokenCount :=
  inputs.filterMap fun input => (reportedTotals ext input.completeLine).map counter.of

/-- The deltas of a counter over the events, added up. -/
def emittedTokens (counter : Counter) (events : List ObservationDraft) : ℕ :=
  (events.map fun event => amount (counter.of event.deltaUsage)).sum

theorem feed_deltaSum (ext : Externals) (counter : Counter) {inputs : List LineInput}
    (honly : ∀ input ∈ inputs, CumulativeOnly ext input.completeLine) (st : ParserState) :
    emittedTokens counter (eventsOf (feed ext st inputs).2) =
      deltaSum (counter.baseline st.previousTotals) (reportedCounts ext counter inputs) := by
  induction inputs generalizing st with
  | nil => rfl
  | cons input inputs ih =>
    obtain ⟨hin, hinputs⟩ := forall_mem_cons.mp honly
    obtain ⟨hnx, hemit⟩ := parseLine_totals ext input.directories input.context st
      input.sourceOffset hin counter
    have hcons : ∀ out outcomes, emittedTokens counter (eventsOf (out :: outcomes)) =
        emitted counter out + emittedTokens counter (eventsOf outcomes) := by
      intro out outcomes
      simp only [emittedTokens, eventsOf, emitted, filterMap_cons]
      cases out.event? <;> simp
    rw [feed, hcons, hemit, ih hinputs, hnx]
    cases htots : reportedTotals ext input.completeLine with
    | none => simp [reportedCounts, htots]
    | some totals => simp [reportedCounts, htots, deltaSum, Counter.baseline]

/-- **Cumulative deltas conserve tokens exactly where no line interrupts a counter.**  For every file
whose usage lines carry cumulative totals only, and every counter that does not fall from one report to
the next: the deltas of all emitted events add up to the last reported total if and only if no line
lacks the counter between a positive report and a later one. -/
theorem cumulative_deltas_conserved (ext : Externals) (inputs : List LineInput) (counter : Counter)
    (honly : ∀ input ∈ inputs, CumulativeOnly ext input.completeLine)
    (hgrows : (reportedValues (reportedCounts ext counter inputs)).Pairwise (· ≤ ·)) :
    emittedTokens counter (eventsOf (feed ext .new inputs).2) =
        (reportedValues (reportedCounts ext counter inputs)).getLastD 0 ↔
      Unbroken (reportedCounts ext counter inputs) := by
  rw [feed_deltaSum ext counter honly, ← deltaSum_eq_last_iff hgrows]
  rfl

/-- Lines with totals of the input, or of the output only. -/
def totalsExternals : Externals where
  fromSlice line :=
    let totals := fun (name : String) (value : ℕ) (h : value ≤ u64Max) =>
      Json.object [(some "type".toList, .string (some "event_msg".toList)),
        (some "timestamp".toList, .string (some "now".toList)),
        (some "payload".toList, .object [(some "type".toList, .string (some "token_count".toList)),
          (some "info".toList, .object [(some "total_token_usage".toList,
            .object [(some name.toList, .number (.unsigned value h))])])])]
    if line = [92, 1] then some (totals "input_tokens" 100 (by decide))
    else if line = [92, 2] then some (totals "input_tokens" 130 (by decide))
    else if line = [92, 3] then some (totals "output_tokens" 20 (by decide))
    else none
  parseFromRfc3339 _ := some ⟨2026, 1000, 0⟩
  fromTimestamp _ _ := none
  sha256 := lastBytes
  isLocalRoot _ := false
  hasDotComponent _ := false
  fileName _ := none

def totalsInputs (lines : List UInt8) : List LineInput :=
  lines.map fun line => ⟨fun _ => none, sampleContext, 0, [92, line]⟩

theorem cumulativeOnly_totals {lines : List UInt8}
    (h : lines.all (fun line => (rawLine totalsExternals [92, line]).all
      fun raw => (cumulativeTotals raw).isSome) = true) :
    ∀ input ∈ totalsInputs lines, CumulativeOnly totalsExternals input.completeLine := by
  intro input hin raw hraw _ _
  obtain ⟨line, hln, rfl⟩ := mem_map.mp hin
  have hall := all_eq_true.mp h line hln
  rw [Option.all_eq_true] at hall
  exact hall raw hraw

/-- Totals of 100 and of 130, and then a line without the input. -/
theorem cumulative_deltas_conserved_tail :
    Unbroken (reportedCounts totalsExternals .input (totalsInputs [1, 2, 3])) ∧
      emittedTokens .input (eventsOf (feed totalsExternals .new (totalsInputs [1, 2, 3])).2) = 130 := by
  have hcts : reportedCounts totalsExternals .input (totalsInputs [1, 2, 3]) =
      [.available 100, .available 130, .unavailable] := by decide +kernel
  have hiff := cumulative_deltas_conserved totalsExternals (totalsInputs [1, 2, 3]) .input
    (cumulativeOnly_totals (by decide +kernel)) (by rw [hcts]; decide)
  have hsum : emittedTokens .input
      (eventsOf (feed totalsExternals .new (totalsInputs [1, 2, 3])).2) = 130 := by decide +kernel
  exact ⟨hiff.mp (by rw [hsum, hcts]; rfl), hsum⟩

/-- **A line without a counter makes its tokens count twice.**  The input is reported as 100, then not,
then as 100 again: 200 input tokens are emitted. -/
theorem cumulative_deltas_recounted :
    (∀ input ∈ totalsInputs [1, 3, 1], CumulativeOnly totalsExternals input.completeLine) ∧
      reportedCounts totalsExternals .input (totalsInputs [1, 3, 1]) =
        [.available 100, .unavailable, .available 100] ∧
      emittedTokens .input (eventsOf (feed totalsExternals .new (totalsInputs [1, 3, 1])).2) = 200 :=
  ⟨cumulativeOnly_totals (by decide +kernel), by decide +kernel, by decide +kernel⟩

end TokenMaster.Codex
