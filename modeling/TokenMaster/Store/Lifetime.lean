import TokenMaster.Store.Rollup.Run

/-!
# TokenMaster.Store.Lifetime — totals of all events of the archive

`lifetime_totals` of `crates/store/src/usage/query/analytics.rs` sums the hour rows of the largest
generation in the table, in whatever state the aggregates are.  While they are ready that is the
generation of the present events.  Before, it is what a rebuild has not removed yet or has read so far.
-/

namespace TokenMaster.Store

open Rollup TokenMaster.Except List

structure UsageLifetimeTotals where
  eventCount : ℕ
  knownCount : ℕ
  knownSum : ℕ
  deriving DecidableEq

/-- `coalesce(max(aggregate_generation), 0)`. -/
def largestGeneration (rows : Rows TimeKey UsageMetrics) : ℕ :=
  (rows.map fun row => row.1.1).foldr max 0

/-- The `WHERE` clause. -/
def IsLifetimeKey (generation : ℕ) (key : RowKey TimeKey) : Prop :=
  key.1 = generation ∧ key.2.1 = .current ∧ key.2.2.width = .hour ∧ key.2.2.dimension = .all

instance (generation : ℕ) (key : RowKey TimeKey) : Decidable (IsLifetimeKey generation key) :=
  inferInstanceAs (Decidable (_ ∧ _))

/-- A column summed over the rows of a generation. -/
def lifetimeSum (rows : Rows TimeKey UsageMetrics) (generation : ℕ) (metric : UsageMetric) : ℤ :=
  ((rows.filter fun row => IsLifetimeKey generation row.1).map fun row => row.2 metric).sum

/-- `lifetime_totals`; a sum that is no `i64` is an error of the database. -/
def UsageDb.lifetimeTotals (db : UsageDb) : Except StoreError UsageLifetimeTotals := do
  let total := lifetimeSum (db.rollups .time) (largestGeneration (db.rollups .time))
  let columns := [UsageMetric.eventCount, .knownCount .total, .knownSum .total]
  Except.require (.new .database) (∀ metric ∈ columns, fitsI64 (total metric))
  Except.require (.new .invalidStoredValue) (∀ metric ∈ columns, 0 ≤ total metric)
  Except.require (.new .invalidStoredValue) (total (.knownCount .total) ≤ total .eventCount)
  return ⟨(total .eventCount).toNat, (total (.knownCount .total)).toNat,
    (total (.knownSum .total)).toNat⟩

/-- The totals of the rows of `usage_event`. -/
def UsageDb.presentTotals (db : UsageDb) : UsageLifetimeTotals :=
  ⟨db.events.length, db.events.countP fun event => (event.tokens .total).isSome,
    (db.events.map fun event => (event.tokens .total).getD 0).sum⟩

section Sums

variable {active : ℕ} {rows : Rows TimeKey UsageMetrics}

theorem largestGeneration_eq (h : RollupTable.Only active rows) (hne : rows ≠ []) :
    largestGeneration rows = active := by
  induction rows with
  | nil => exact absurd rfl hne
  | cons row rows ih =>
    have hrow := h row (mem_cons_self ..)
    have hrs : largestGeneration rows ≤ active := by
      by_cases hnil : rows = []
      · rw [hnil]
        exact Nat.zero_le _
      · exact (ih (fun other hoth => h other (mem_cons_of_mem _ hoth)) hnil).le
    show max row.1.1 (largestGeneration rows) = active
    omega

/-- Every event counts in one hour row for all its dimensions. -/
theorem lifetimeSum_eq {evs legacy : List UsageEvent}
    (h : timeRollup.Exact active evs legacy rows) (metric : UsageMetric) :
    lifetimeSum rows active metric = (evs.map fun ev => ev.metrics metric).sum := by
  have htot := @sum_filter_eq _ _ _ UsageEvent _ _ _ (fun v : UsageMetrics => v metric)
    (fun _ _ => rfl) (timeRollup.rowKeys active .current) timeRollup.rowValue evs
    (timeRollup_lawful.nodup_rowKeys active .current) rows h.keyed (IsLifetimeKey active) _
    fun key hkey => RollupTable.gather_of_scratch h.current hkey.1 hkey.2.1
  rw [lifetimeSum, htot]
  simp [RollupTable.rowKeys, RollupTable.rowValue, timeRollup, UsageEvent.timeKeys,
    UsageEvent.widths, UsageFacts.dimensions, IsLifetimeKey]

theorem sum_metrics (evs : List UsageEvent) :
    (evs.map fun ev => ev.metrics .eventCount).sum = evs.length ∧
      (evs.map fun ev => ev.metrics (.knownCount .total)).sum =
        evs.countP (fun ev => (ev.tokens .total).isSome) ∧
      (evs.map fun ev => ev.metrics (.knownSum .total)).sum =
        (evs.map fun ev => (ev.tokens .total).getD 0).sum := by
  simp only [UsageFacts.metrics]
  induction evs with
  | nil => exact ⟨rfl, rfl, rfl⟩
  | cons ev evs ih =>
    obtain ⟨hct, hkn, hsum⟩ := ih
    simp only [map_cons, sum_cons, hct, hkn, hsum, length_cons, countP_cons]
    refine ⟨by omega, ?_, by omega⟩
    cases ev.tokens .total <;> simp
    omega

end Sums

/-- **Lifetime totals are exact while the aggregates are ready**, after any statements and pages. -/
theorem lifetime_totals_exact (events : List UsageEvent) (legacy : List LegacyEvent)
    (sources : List UsageSource) (datasetGeneration : ℕ)
    (hevents : Keyed (fun event : UsageEvent => event.fingerprint) events)
    (hlegacy : Keyed (fun event : LegacyEvent => event.fingerprint) legacy)
    (steps : List RollupStep) (totals : UsageLifetimeTotals)
    (hready : ((UsageDb.migrated events legacy sources datasetGeneration).run
      steps).aggregate.state = .ready)
    (h : ((UsageDb.migrated events legacy sources datasetGeneration).run steps).lifetimeTotals =
      .ok totals) :
    totals = ((UsageDb.migrated events legacy sources datasetGeneration).run steps).presentTotals := by
  obtain ⟨hcon, htidy⟩ :=
    (UsageDb.seeded_migrated hevents hlegacy sources datasetGeneration).consistent.run steps
  have hpub := htidy (fun _ _ row hrow => by cases hrow) hready .time
  have hex := hcon.ready hready .time
  revert h hpub hex
  generalize (UsageDb.migrated events legacy sources datasetGeneration).run steps = db
  intro h hpub hex
  have htot : ∀ metric, lifetimeSum (db.rollups .time) (largestGeneration (db.rollups .time))
      metric = (db.events.map fun event => event.metrics metric).sum := by
    intro metric
    rw [← lifetimeSum_eq hex metric]
    by_cases hne : db.rollups .time = []
    · rw [hne]
      rfl
    · rw [largestGeneration_eq hpub hne]
  obtain ⟨hct, hkn, hsum⟩ := sum_metrics db.events
  obtain ⟨_, _, h⟩ := bind_eq_ok.mp h
  obtain ⟨_, _, h⟩ := bind_eq_ok.mp h
  obtain ⟨_, _, h⟩ := bind_eq_ok.mp h
  obtain rfl := Except.ok.inj h
  simp only [htot, hct, hkn, hsum]
  rfl

theorem lifetime_totals_exact_inserted :
    ((UsageDb.migrated [] [] [] 0).run [.modify (.insert (sampleEvent 0))]).lifetimeTotals =
      .ok ((UsageDb.migrated [] [] [] 0).run [.modify (.insert (sampleEvent 0))]).presentTotals := by
  have hrdy : ((UsageDb.migrated [] [] [] 0).run
      [.modify (.insert (sampleEvent 0))]).aggregate.state = .ready := by decide +kernel
  have hretu : ((UsageDb.migrated [] [] [] 0).run
      [.modify (.insert (sampleEvent 0))]).lifetimeTotals = .ok ⟨1, 1, 1⟩ := by decide +kernel
  rw [hretu, lifetime_totals_exact [] [] [] 0 Keyed.nil Keyed.nil _ _ hrdy hretu]

/-- **A rebuild in progress is reported as the lifetime**: of two events behind a migration none is
counted, also after the cleanup, and after a first page of one event the totals are those of one. -/
theorem lifetime_totals_partial :
    (UsageDb.migrated [sampleEvent 0, { sampleEvent 0 with fingerprint := 2 }] [] [] 0).lifetimeTotals =
        .ok ⟨0, 0, 0⟩ ∧
      ((UsageDb.migrated [sampleEvent 0, { sampleEvent 0 with fingerprint := 2 }] [] [] 0).run
        [.rebuild 1, .rebuild 1]).lifetimeTotals = .ok ⟨1, 1, 1⟩ ∧
      ((UsageDb.migrated [sampleEvent 0, { sampleEvent 0 with fingerprint := 2 }] [] [] 0).run
        [.rebuild 1, .rebuild 1]).presentTotals = ⟨2, 2, 2⟩ := by
  decide +kernel

end TokenMaster.Store
