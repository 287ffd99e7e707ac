import TokenMaster.Store.Rollup.Tables

/-!
# TokenMaster.Store.Rollup.Rollups — the four rollup tables

The tables of `crates/store/src/usage/{schema,price_schema}.rs` as instances of `RollupTable`, with
the proof that each of them is lawful, and `Rollups`, the four of them together.
-/

namespace TokenMaster.Store

open TokenMaster.Except

open TokenMaster.Domain (LongContextState ActivityKind)
open Rollup

/-! ### Time and session rollups -/

def fitsI64 (n : ℤ) : Prop := -2 ^ 63 ≤ n ∧ n < 2 ^ 63

instance (n : ℤ) : Decidable (fitsI64 n) := inferInstanceAs (Decidable (_ ∧ _))

/-- The `CHECK`s on the counters of a time or session rollup. -/
structure UsageMetricsSound (v : UsageMetrics) : Prop where
  count_pos : 0 < v .eventCount
  nonneg : ∀ metric, 0 ≤ v metric
  le_count : ∀ metric, metric.IsCount → v metric ≤ v .eventCount

instance (v : UsageMetrics) : Decidable (UsageMetricsSound v) :=
  decidable_of_iff (0 < v .eventCount ∧ (∀ metric, 0 ≤ v metric) ∧
    ∀ metric, metric.IsCount → v metric ≤ v .eventCount)
    ⟨fun ⟨h₁, h₂, h₃⟩ => ⟨h₁, h₂, h₃⟩, fun ⟨h₁, h₂, h₃⟩ => ⟨h₁, h₂, h₃⟩⟩

def MetricsFit {ι : Type} (v : ι → ℤ) : Prop := ∀ metric, v metric < 2 ^ 63

instance {ι : Type} [Fintype ι] (v : ι → ℤ) : Decidable (MetricsFit v) :=
  inferInstanceAs (Decidable (∀ _, _))

def timeRollup : RollupTable TimeKey UsageMetrics where
  keys := UsageEvent.timeKeys
  value event _ := event.metrics
  count v := v .eventCount
  sub v w := v - w
  settle _ _ _ v := v
  keyFits key := fitsI64 key.start
  sound key v := key.start.tmod key.width.seconds = 0 ∧ UsageMetricsSound v
  fits v := MetricsFit v
  unavailable := .timeRowsUnavailable

/-- The constraint on the timestamps: for all events of a session, and only there. -/
def SpanSound (dimension : Dimension) (span : WithZero Span) : Prop :=
  match dimension, span with
  | .all, some span => span.first ≤ span.last
  | .all, none => False
  | _, some _ => False
  | _, none => True

instance (dimension : Dimension) (span : WithZero Span) : Decidable (SpanSound dimension span) :=
  match dimension, span with
  | .all, some span => inferInstanceAs (Decidable (span.first ≤ span.last))
  | .all, none => inferInstanceAs (Decidable False)
  | .model _, some _ => inferInstanceAs (Decidable False)
  | .project _, some _ => inferInstanceAs (Decidable False)
  | .model _, none => inferInstanceAs (Decidable True)
  | .project _, none => inferInstanceAs (Decidable True)

/-- The first and the last event of the session of `old` among some events. -/
def sessionSpan (events : List UsageEvent) (old : UsageEvent) : WithZero Span :=
  ((events.filter fun event => event.providerId = old.providerId ∧ event.profileId = old.profileId ∧
    event.sessionId = old.sessionId).map fun event => (event.span : WithZero Span)).sum

def sessionRollup : RollupTable SessionKey SessionCell where
  keys := UsageEvent.sessionKeys
  value event key := ⟨event.metrics, if key.dimension = .all then event.span else 0⟩
  count v := v.metrics .eventCount
  sub v w := ⟨v.metrics - w.metrics, v.span⟩
  settle events old key v := if key.dimension = .all then ⟨v.metrics, sessionSpan events old⟩ else v
  keyFits _ := True
  sound key v := SpanSound key.dimension v.span ∧ UsageMetricsSound v.metrics
  fits v := MetricsFit v.metrics
  unavailable := .sessionRowsUnavailable

/-! ### Price rollups -/

/-- The `CHECK`s on the counters of a price rollup. -/
structure PriceMetricsSound (key : PriceKey) (v : PriceMetrics) : Prop where
  count_pos : 0 < v .eventCount
  nonneg : ∀ metric, 0 ≤ v metric
  calculable_le : v .calculableEventCount ≤ v .eventCount
  reported_le : v .reportedCostCount ≤ v .eventCount
  calculable : 0 < v .calculableEventCount ∨
    v .uncachedInputSum = 0 ∧ v .cachedInputSum = 0 ∧ v .billableOutputSum = 0
  reported : key.reported = .present ∧ v .reportedCostCount = v .eventCount ∨
    key.reported = .missing ∧ v .reportedCostCount = 0 ∧ v .reportedCostSum = 0

instance (key : PriceKey) (v : PriceMetrics) : Decidable (PriceMetricsSound key v) :=
  decidable_of_iff (0 < v .eventCount ∧ (∀ metric, 0 ≤ v metric) ∧
    v .calculableEventCount ≤ v .eventCount ∧ v .reportedCostCount ≤ v .eventCount ∧
    (0 < v .calculableEventCount ∨
      v .uncachedInputSum = 0 ∧ v .cachedInputSum = 0 ∧ v .billableOutputSum = 0) ∧
    (key.reported = .present ∧ v .reportedCostCount = v .eventCount ∨
      key.reported = .missing ∧ v .reportedCostCount = 0 ∧ v .reportedCostSum = 0))
    ⟨fun ⟨h₁, h₂, h₃, h₄, h₅, h₆⟩ => ⟨h₁, h₂, h₃, h₄, h₅, h₆⟩,
      fun ⟨h₁, h₂, h₃, h₄, h₅, h₆⟩ => ⟨h₁, h₂, h₃, h₄, h₅, h₆⟩⟩

def priceTimeRollup : RollupTable PriceTimeKey PriceMetrics where
  keys := UsageEvent.priceTimeKeys
  value event _ := event.priceMetrics
  count v := v .eventCount
  sub v w := v - w
  settle _ _ _ v := v
  keyFits key := fitsI64 key.start
  sound key v := key.start.tmod key.width.seconds = 0 ∧ PriceMetricsSound key.price v
  fits v := MetricsFit v
  unavailable := .priceTimeRowsUnavailable

def priceSessionRollup : RollupTable PriceSessionKey PriceMetrics where
  keys := UsageEvent.priceSessionKeys
  value event _ := event.priceMetrics
  count v := v .eventCount
  sub v w := v - w
  settle _ _ _ v := v
  keyFits _ := True
  sound key v := PriceMetricsSound key.price v
  fits v := MetricsFit v
  unavailable := .priceSessionRowUnavailable

instance decTimeCheck (key : RowKey TimeKey) (v : UsageMetrics) :
    Decidable (timeRollup.Check key v) :=
  inferInstanceAs (Decidable (fitsI64 key.2.2.start ∧
    (key.2.2.start.tmod key.2.2.width.seconds = 0 ∧ UsageMetricsSound v) ∧ MetricsFit v))

instance decSessionCheck (key : RowKey SessionKey) (v : SessionCell) :
    Decidable (sessionRollup.Check key v) :=
  inferInstanceAs (Decidable (True ∧ (SpanSound key.2.2.dimension v.span ∧
    UsageMetricsSound v.metrics) ∧ MetricsFit v.metrics))

instance decPriceTimeCheck (key : RowKey PriceTimeKey) (v : PriceMetrics) :
    Decidable (priceTimeRollup.Check key v) :=
  inferInstanceAs (Decidable (fitsI64 key.2.2.start ∧
    (key.2.2.start.tmod key.2.2.width.seconds = 0 ∧ PriceMetricsSound key.2.2.price v) ∧ MetricsFit v))

instance decPriceSessionCheck (key : RowKey PriceSessionKey) (v : PriceMetrics) :
    Decidable (priceSessionRollup.Check key v) :=
  inferInstanceAs (Decidable (True ∧ PriceMetricsSound key.2.2.price v ∧ MetricsFit v))

/-! ### What an event counts passes the checks -/

theorem UsageFacts.metrics_sound (facts : UsageFacts) : UsageMetricsSound facts.metrics where
  count_pos := Int.one_pos
  nonneg metric := by
    cases metric with
    | eventCount => exact Int.one_nonneg
    | knownCount kind | fallbackModelCount | longContextCount st =>
      simp only [UsageFacts.metrics]
      split_ifs <;> omega
    | knownSum kind | activity kind => exact Int.natCast_nonneg _
  le_count metric hcount := by
    cases metric with
    | eventCount => exact le_refl _
    | knownCount kind | fallbackModelCount | longContextCount st =>
      simp only [UsageFacts.metrics]
      split_ifs <;> omega
    | knownSum kind | activity kind => exact hcount.elim

theorem UsageMetricsSound.add {v w : UsageMetrics} (hv : UsageMetricsSound v)
    (hw : UsageMetricsSound w) : UsageMetricsSound (v + w) where
  count_pos := add_pos hv.count_pos hw.count_pos
  nonneg metric := add_nonneg (hv.nonneg metric) (hw.nonneg metric)
  le_count metric hcount := add_le_add (hv.le_count metric hcount) (hw.le_count metric hcount)

theorem UsageFacts.priceMetrics_sound (facts : UsageFacts) :
    PriceMetricsSound facts.priceKey facts.priceMetrics where
  count_pos := Int.one_pos
  nonneg metric := by
    cases metric with
    | eventCount => exact Int.one_nonneg
    | calculableEventCount | reportedCostCount =>
      simp only [UsageFacts.priceMetrics]
      split_ifs <;> omega
    | uncachedInputSum | cachedInputSum | billableOutputSum =>
      simp only [UsageFacts.priceMetrics]
      cases facts.priceBasis <;> simp
    | reportedCostSum => exact Int.natCast_nonneg _
  calculable_le := by
    simp only [UsageFacts.priceMetrics]
    split_ifs <;> omega
  reported_le := by
    simp only [UsageFacts.priceMetrics]
    split_ifs <;> omega
  calculable := by
    cases hbasis : facts.priceBasis with
    | none =>
      simp [UsageFacts.priceMetrics, hbasis]
    | some basis =>
      simp [UsageFacts.priceMetrics, hbasis]
  reported := by
    cases hco : facts.reportedCostUsdMicros with
    | none =>
      simp [UsageFacts.priceKey, UsageFacts.priceMetrics, hco]
    | some cost =>
      simp [UsageFacts.priceKey, UsageFacts.priceMetrics, hco]

theorem PriceMetricsSound.add {key : PriceKey} {v w : PriceMetrics} (hv : PriceMetricsSound key v)
    (hw : PriceMetricsSound key w) : PriceMetricsSound key (v + w) where
  count_pos := add_pos hv.count_pos hw.count_pos
  nonneg metric := add_nonneg (hv.nonneg metric) (hw.nonneg metric)
  calculable_le := add_le_add hv.calculable_le hw.calculable_le
  reported_le := add_le_add hv.reported_le hw.reported_le
  calculable := by
    have hv₀ := hv.nonneg .calculableEventCount
    have hw₀ := hw.nonneg .calculableEventCount
    simp only [Pi.add_apply]
    rcases hv.calculable with hpos | ⟨hv₁, hv₂, hv₃⟩
    · omega
    · rcases hw.calculable with hpos | ⟨hw₁, hw₂, hw₃⟩
      · omega
      · right
        rw [hv₁, hv₂, hv₃, hw₁, hw₂, hw₃]
        exact ⟨rfl, rfl, rfl⟩
  reported := by
    simp only [Pi.add_apply]
    rcases hv.reported with ⟨hkey, hv⟩ | ⟨hkey, hv₁, hv₂⟩
    · rcases hw.reported with ⟨_, hw⟩ | ⟨hkey', _⟩
      · left
        rw [hv, hw]
        exact ⟨hkey, rfl⟩
      · rw [hkey] at hkey'
        cases hkey'
    · rcases hw.reported with ⟨hkey', _⟩ | ⟨_, hw₁, hw₂⟩
      · rw [hkey] at hkey'
        cases hkey'
      · right
        rw [hv₁, hv₂, hw₁, hw₂]
        exact ⟨hkey, rfl, rfl⟩

/-! ### Buckets -/

theorem BucketWidth.seconds_pos (width : BucketWidth) : 0 < width.seconds := by
  cases width <;> decide

theorem bucketStart_eq (width : BucketWidth) (seconds : ℤ) :
    bucketStart width seconds = width.seconds * (seconds / width.seconds) := by
  have hpos := width.seconds_pos
  have hmod : (seconds.tmod width.seconds + width.seconds).tmod width.seconds =
      seconds % width.seconds := by
    have hlower := Int.lt_tmod_of_pos seconds hpos
    rw [Int.tmod_eq_emod_of_nonneg (by omega), Int.add_emod_right, Int.tmod_def,
      Int.sub_mul_emod_self_left]
  have hspl := Int.mul_ediv_add_emod seconds width.seconds
  unfold bucketStart
  omega

theorem bucketStart_tmod (width : BucketWidth) (seconds : ℤ) :
    (bucketStart width seconds).tmod width.seconds = 0 := by
  rw [bucketStart_eq]
  exact Int.mul_tmod_right ..

theorem bucketStart_le (width : BucketWidth) (seconds : ℤ) :
    bucketStart width seconds ≤ seconds := by
  rw [bucketStart_eq]
  exact Int.mul_ediv_self_le (ne_of_gt width.seconds_pos)

/-- The bucket of the hour starts first. -/
theorem bucketStart_hour_le (width : BucketWidth) (seconds : ℤ) :
    bucketStart .hour seconds ≤ bucketStart width seconds := by
  cases width with
  | hour => exact le_refl _
  | minute =>
    rw [bucketStart_eq, bucketStart_eq]
    simp only [BucketWidth.seconds]
    omega

/-! ### The tables are lawful -/

/-- A table of sums, with nothing that is recomputed. -/
theorem lawful_of_sums {ι κ : Type} [DecidableEq κ] {table : RollupTable κ (ι → ℤ)}
    (hsub : table.sub = fun v w => v - w) (hsettle : table.settle = fun _ _ _ v => v)
    (hfits : table.fits = MetricsFit) {counter : ι} (hct : table.count = fun v => v counter)
    (hnd : ∀ ev, (table.keys ev).Nodup)
    (hone : ∀ ev k, table.value ev k counter = 1)
    (hpos : ∀ {k v}, table.sound k v → 0 < v counter)
    (hnonneg : ∀ {k v}, table.sound k v → ∀ metric, 0 ≤ v metric)
    (hval : ∀ {ev k}, k ∈ table.keys ev → table.sound k (table.value ev k))
    (hadd : ∀ {k v w}, table.sound k v → table.sound k w → table.sound k (v + w)) :
    table.Lawful := by
  have htk : ∀ ev k v, table.taken ev k v = v := by
    intro ev k v
    unfold RollupTable.taken
    rw [hsub]
    exact add_sub_cancel_left ..
  refine {
    nodup_keys := hnd
    count_add := ?_
    count_value := ?_
    count_pos := ?_
    sound_value := hval
    sound_add := hadd
    fits_left := ?_
    taken := ?_
    settled := ?_ }
  · intro v w
    rw [hct]
    rfl
  · intro ev k
    rw [hct]
    exact hone ev k
  · intro k v hv
    rw [hct]
    exact hpos hv
  · intro k v w _ hw hfit
    rw [hfits] at hfit ⊢
    intro metric
    have hsum := hfit metric
    have hw₀ := hnonneg hw metric
    rw [Pi.add_apply] at hsum
    omega
  · intro ev k v _ hv
    rw [htk]
    exact ⟨hv, fun h => h⟩
  · intro ev k v fresh rest _ hrs
    refine ⟨v, ?_, ?_, fun h => h, rfl⟩
    · rw [hsettle, htk]
    · exact @gather_induction _ _ _ _ _ table.keys table.value table.sound rest
        (fun _ _ _ hk => hval hk) (fun _ _ _ hv hw => hadd hv hw) _ _ hrs

theorem timeRollup_lawful : timeRollup.Lawful := by
  refine lawful_of_sums rfl rfl rfl rfl ?_ (fun _ _ => rfl) (fun h => h.2.count_pos)
    (fun h => h.2.nonneg) ?_ (fun hv hw => ⟨hv.1, hv.2.add hw.2⟩)
  · simp [timeRollup, UsageEvent.timeKeys, UsageEvent.widths, UsageFacts.dimensions]
  · intro ev key hkey
    obtain ⟨width, _, hkey⟩ := List.mem_flatMap.mp hkey
    obtain ⟨dimension, _, rfl⟩ := List.mem_map.mp hkey
    exact ⟨bucketStart_tmod .., ev.metrics_sound⟩

theorem priceTimeRollup_lawful : priceTimeRollup.Lawful := by
  refine lawful_of_sums rfl rfl rfl rfl ?_ (fun _ _ => rfl) (fun h => h.2.count_pos)
    (fun h => h.2.nonneg) ?_ (fun hv hw => ⟨hv.1, hv.2.add hw.2⟩)
  · simp [priceTimeRollup, UsageEvent.priceTimeKeys, UsageEvent.widths]
  · intro ev key hkey
    obtain ⟨width, _, rfl⟩ := List.mem_map.mp hkey
    exact ⟨bucketStart_tmod .., ev.priceMetrics_sound⟩

theorem priceSessionRollup_lawful : priceSessionRollup.Lawful := by
  refine lawful_of_sums rfl rfl rfl rfl ?_ (fun _ _ => rfl) (fun h => h.count_pos)
    (fun h => h.nonneg) ?_ (fun hv hw => hv.add hw)
  · intro ev
    exact List.nodup_singleton _
  · intro ev key hkey
    rw [List.mem_singleton.mp hkey]
    exact ev.priceMetrics_sound

/-! The session rollup is the one that recomputes: the timestamps of `sessionSpan` are those of the
cell for all events of the session. -/

theorem add_self_span (span : WithZero Span) : span + span = span := by
  cases span with
  | zero => rfl
  | coe span => rw [← WithZero.coe_add, span.add_self]

theorem mem_sessionKeys {ev : UsageEvent} {key : SessionKey} :
    key ∈ ev.sessionKeys ↔ ev.providerId = key.providerId ∧ ev.profileId = key.profileId ∧
      ev.sessionId = key.sessionId ∧ key.dimension ∈ ev.dimensions := by
  constructor
  · intro h
    obtain ⟨dimension, hdime, rfl⟩ := List.mem_map.mp h
    exact ⟨rfl, rfl, rfl, hdime⟩
  · rintro ⟨h₁, h₂, h₃, h₄⟩
    refine List.mem_map.mpr ⟨key.dimension, h₄, ?_⟩
    rw [h₁, h₂, h₃]

/-- The timestamps of a cell, from scratch. -/
theorem scratch_span {evs : List UsageEvent} {old : UsageEvent} {key : SessionKey}
    (hkey : key ∈ old.sessionKeys) (hall : key.dimension = .all) :
    (sessionRollup.scratch evs key = 0 → sessionSpan evs old = 0) ∧
      ∀ v : SessionCell, sessionRollup.scratch evs key = v → sessionSpan evs old = v.span := by
  induction evs with
  | nil => exact ⟨fun _ => rfl, fun v hv => absurd hv.symm WithZero.coe_ne_zero⟩
  | cons ev evs ih =>
    obtain ⟨hprov, hprf, hses, _⟩ := mem_sessionKeys.mp hkey
    have hmem : key ∈ sessionRollup.keys ev ↔ ev.providerId = old.providerId ∧
        ev.profileId = old.profileId ∧ ev.sessionId = old.sessionId := by
      show key ∈ ev.sessionKeys ↔ _
      rw [mem_sessionKeys, hprov, hprf, hses, hall]
      simp [UsageFacts.dimensions]
    have hscra : sessionRollup.scratch (ev :: evs) key =
        contribution sessionRollup.keys sessionRollup.value ev key +
          sessionRollup.scratch evs key := rfl
    have hval : sessionRollup.value ev key = ⟨ev.metrics, ev.span⟩ := by
      simp [sessionRollup, hall]
    by_cases hsm : ev.providerId = old.providerId ∧ ev.profileId = old.profileId ∧
        ev.sessionId = old.sessionId
    · have hspan : sessionSpan (ev :: evs) old = ev.span + sessionSpan evs old := by
        simp [sessionSpan, hsm]
      have hown : contribution sessionRollup.keys sessionRollup.value ev key =
          (⟨ev.metrics, ev.span⟩ : SessionCell) := by
        rw [contribution, if_pos (hmem.mpr hsm), hval]
      rw [hscra, hspan, hown]
      cases hrs : sessionRollup.scratch evs key with
      | zero =>
        rw [add_zero, ih.1 hrs, add_zero]
        refine ⟨fun h => absurd h WithZero.coe_ne_zero, fun v hv => ?_⟩
        rw [← WithZero.coe_injective hv]
      | coe w =>
        rw [← WithZero.coe_add, ih.2 w hrs]
        refine ⟨fun h => absurd h WithZero.coe_ne_zero, fun v hv => ?_⟩
        rw [← WithZero.coe_injective hv, SessionCell.add_span]
    · have hspan : sessionSpan (ev :: evs) old = sessionSpan evs old := by
        simp [sessionSpan, hsm]
      have hown : contribution sessionRollup.keys sessionRollup.value ev key = 0 := by
        rw [contribution, if_neg fun h => hsm (hmem.mp h)]
      rw [hscra, hspan, hown, zero_add]
      exact ih

theorem SpanSound.add {dimension : Dimension} {a b : WithZero Span} (ha : SpanSound dimension a)
    (hb : SpanSound dimension b) : SpanSound dimension (a + b) := by
  cases a with
  | zero =>
    rw [zero_add]
    exact hb
  | coe a =>
    cases b with
    | zero =>
      exact ha
    | coe b =>
      cases dimension with
      | all =>
        show min a.first b.first ≤ max a.last b.last
        exact (min_le_left ..).trans (ha.trans (le_max_left ..))
      | model name | project key => exact ha.elim

theorem sessionRollup_lawful : sessionRollup.Lawful := by
  have hsd : ∀ {ev : UsageEvent} {key : SessionKey},
      sessionRollup.sound key (sessionRollup.value ev key) := by
    intro ev key
    refine ⟨?_, ev.metrics_sound⟩
    simp only [sessionRollup]
    cases key.dimension with
    | all => exact le_refl ev.instant
    | model name | project name => exact trivial
  have hadd : ∀ {key : SessionKey} {v w : SessionCell}, sessionRollup.sound key v →
      sessionRollup.sound key w → sessionRollup.sound key (v + w) :=
    fun hv hw => ⟨hv.1.add hw.1, hv.2.add hw.2⟩
  have htk : ∀ ev key v, sessionRollup.taken ev key v =
      ⟨v.metrics, (sessionRollup.value ev key + v).span⟩ := by
    intro ev key v
    simp only [RollupTable.taken, sessionRollup, SessionCell.add_metrics, add_sub_cancel_left]
  refine {
    nodup_keys := ?_
    count_add := fun _ _ => rfl
    count_value := fun _ _ => rfl
    count_pos := fun h => h.2.count_pos
    sound_value := fun _ => hsd
    sound_add := hadd
    fits_left := ?_
    taken := ?_
    settled := ?_ }
  · simp [sessionRollup, UsageEvent.sessionKeys, UsageFacts.dimensions]
  · intro key v w _ hw hfit metric
    have hsum := hfit metric
    have hw₀ := hw.2.nonneg metric
    rw [SessionCell.add_metrics, Pi.add_apply] at hsum
    omega
  · intro ev key v _ hv
    rw [htk]
    exact ⟨⟨(hadd hsd hv).1, hv.2⟩, fun h => h⟩
  · intro ev key v fresh rest hkey hrs
    have hscra : ∀ {evs : List UsageEvent} {w : SessionCell},
        sessionRollup.scratch evs key = w → sessionRollup.sound key w :=
      fun {evs} _ h => @gather_induction _ _ _ _ _ sessionRollup.keys sessionRollup.value
        sessionRollup.sound evs (fun _ _ _ _ => hsd) (fun _ _ _ hv hw => hadd hv hw) _ _ h
    have hv := hscra hrs
    by_cases hall : key.dimension = .all
    · -- what is recomputed is the span of the rest and of what replaces the event
      have hspan : sessionSpan (fresh ++ rest) ev = sessionSpan fresh ev + v.span := by
        rw [← (scratch_span hkey hall).2 v hrs]
        simp [sessionSpan]
      refine ⟨⟨v.metrics, sessionSpan fresh ev + v.span⟩, ?_, ⟨?_, hv.2⟩, fun h => h, ?_⟩
      · rw [htk, ← hspan]
        exact if_pos hall
      · cases hfr : sessionRollup.scratch fresh key with
        | zero =>
          rw [(scratch_span hkey hall).1 hfr, zero_add]
          exact hv.1
        | coe w =>
          rw [(scratch_span hkey hall).2 w hfr]
          exact (hscra hfr).1.add hv.1
      · cases hfr : sessionRollup.scratch fresh key with
        | zero =>
          rw [(scratch_span hkey hall).1 hfr, zero_add]
        | coe w =>
          rw [(scratch_span hkey hall).2 w hfr, ← WithZero.coe_add, ← WithZero.coe_add]
          congr 1
          refine SessionCell.ext rfl ?_
          rw [SessionCell.add_span, SessionCell.add_span, add_comm w.span, add_assoc, add_self_span]
    · refine ⟨v, ?_, hv, fun h => h, rfl⟩
      rw [htk]
      refine (if_neg hall).trans (SessionCell.ext rfl ?_)
      have hz : (sessionRollup.value ev key).span = 0 := if_neg hall
      rw [SessionCell.add_span, hz, zero_add]

/-! ### The four tables -/

inductive RollupName where
  | time
  | session
  | priceTime
  | priceSession
  deriving DecidableEq

namespace RollupName

def Key : RollupName → Type
  | time => TimeKey
  | session => SessionKey
  | priceTime => PriceTimeKey
  | priceSession => PriceSessionKey

def Cell : RollupName → Type
  | time => UsageMetrics
  | session => SessionCell
  | priceTime => PriceMetrics
  | priceSession => PriceMetrics

instance (name : RollupName) : DecidableEq name.Key :=
  match name with
  | time => inferInstanceAs (DecidableEq TimeKey)
  | session => inferInstanceAs (DecidableEq SessionKey)
  | priceTime => inferInstanceAs (DecidableEq PriceTimeKey)
  | priceSession => inferInstanceAs (DecidableEq PriceSessionKey)

instance (name : RollupName) : AddCommSemigroup name.Cell :=
  match name with
  | time => inferInstanceAs (AddCommSemigroup UsageMetrics)
  | session => inferInstanceAs (AddCommSemigroup SessionCell)
  | priceTime => inferInstanceAs (AddCommSemigroup PriceMetrics)
  | priceSession => inferInstanceAs (AddCommSemigroup PriceMetrics)

def table : (name : RollupName) → RollupTable name.Key name.Cell
  | time => timeRollup
  | session => sessionRollup
  | priceTime => priceTimeRollup
  | priceSession => priceSessionRollup

instance (name : RollupName) (key : RowKey name.Key) (v : name.Cell) :
    Decidable (name.table.Check key v) :=
  match name with
  | time => decTimeCheck key v
  | session => decSessionCheck key v
  | priceTime => decPriceTimeCheck key v
  | priceSession => decPriceSessionCheck key v

theorem lawful (name : RollupName) : name.table.Lawful := by
  cases name with
  | time => exact timeRollup_lawful
  | session => exact sessionRollup_lawful
  | priceTime => exact priceTimeRollup_lawful
  | priceSession => exact priceSessionRollup_lawful

end RollupName

/-- The contents of the four tables. -/
def Rollups : Type := (name : RollupName) → Rows name.Key name.Cell

/-- A change of each table, one after the other. -/
def Rollups.change (f : (name : RollupName) → Rows name.Key name.Cell →
    Except TriggerAbort (Rows name.Key name.Cell)) (rollups : Rollups) :
    Except TriggerAbort Rollups := do
  let time ← f .time (rollups .time)
  let session ← f .session (rollups .session)
  let priceTime ← f .priceTime (rollups .priceTime)
  let priceSession ← f .priceSession (rollups .priceSession)
  .ok fun
    | .time => time
    | .session => session
    | .priceTime => priceTime
    | .priceSession => priceSession

theorem Rollups.change_ok {f : (name : RollupName) → Rows name.Key name.Cell →
    Except TriggerAbort (Rows name.Key name.Cell)} {rollups rollups' : Rollups}
    (h : rollups.change f = .ok rollups') :
    ∀ name, f name (rollups name) = .ok (rollups' name) := by
  obtain ⟨time, htime, h⟩ := bind_eq_ok.mp h
  obtain ⟨ses, hses, h⟩ := bind_eq_ok.mp h
  obtain ⟨priceTime, hpriceT, h⟩ := bind_eq_ok.mp h
  obtain ⟨priceSession, hpriceS, h⟩ := bind_eq_ok.mp h
  obtain rfl := Except.ok.inj h
  intro name
  cases name with
  | time => exact htime
  | session => exact hses
  | priceTime => exact hpriceT
  | priceSession => exact hpriceS

theorem Rollups.change_total {f : (name : RollupName) → Rows name.Key name.Cell →
    Except TriggerAbort (Rows name.Key name.Cell)} {rollups : Rollups}
    (h : ∀ name, ∃ rows, f name (rollups name) = .ok rows) :
    ∃ rollups', rollups.change f = .ok rollups' := by
  obtain ⟨time, htime⟩ := h .time
  obtain ⟨ses, hses⟩ := h .session
  obtain ⟨priceTime, hpriceT⟩ := h .priceTime
  obtain ⟨priceSession, hpriceS⟩ := h .priceSession
  unfold Rollups.change
  rw [htime, ok_bind, hses, ok_bind, hpriceT, ok_bind, hpriceS]
  exact ⟨_, rfl⟩

end TokenMaster.Store
