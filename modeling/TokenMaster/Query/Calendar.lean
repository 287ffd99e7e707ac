import TokenMaster.Store.Rollup.Run

/-!
# TokenMaster.Query.Calendar — ranges of the calendar and the buckets that they address

`compose_segments` (`crates/query/src/calendar.rs`) splits a range of minutes into whole hours and the
minutes around them; the overview query of `crates/store/src/usage/query.rs` sums the buckets that the
segments address.  Seconds are `i64`, and the sums are those of the integers.
-/

namespace TokenMaster.Query

open TokenMaster.Store Rollup TokenMaster.Except List

inductive QueryErrorCode where
  | overflow
  | internal
  | unsupportedTimeBoundary
  deriving DecidableEq

/-! ### Segments -/

/-- `UsageAggregateSegment`: whole buckets, and at least one. -/
structure UsageAggregateSegment where
  bucketWidth : BucketWidth
  startSeconds : ℤ
  endSeconds : ℤ
  nonempty : startSeconds < endSeconds
  aligned_start : startSeconds % bucketWidth.seconds = 0
  aligned_end : endSeconds % bucketWidth.seconds = 0

def UsageAggregateSegment.new (bucketWidth : BucketWidth) (startSeconds endSeconds : ℤ) :
    Except StoreError UsageAggregateSegment :=
  if h : startSeconds < endSeconds ∧ startSeconds % bucketWidth.seconds = 0 ∧
      endSeconds % bucketWidth.seconds = 0 then
    .ok ⟨bucketWidth, startSeconds, endSeconds, h.1, h.2.1, h.2.2⟩
  else .error (.new .invalidValue)

/-- `checked_add` and `checked_sub` on `i64`. -/
def checkedI64 (value : ℤ) : Except QueryErrorCode ℤ :=
  if fitsI64 value then .ok value else .error .overflow

def pushSegment (segments : List UsageAggregateSegment) (bucketWidth : BucketWidth)
    (startSeconds endSeconds : ℤ) : Except QueryErrorCode (List UsageAggregateSegment) := do
  let segment ← (UsageAggregateSegment.new bucketWidth startSeconds endSeconds).mapError
    fun _ => .internal
  .ok (segments ++ [segment])

def composeSegments (startSeconds endSeconds : ℤ) :
    Except QueryErrorCode (List UsageAggregateSegment) := do
  if startSeconds = endSeconds then .ok []
  else
    let startRemainder := startSeconds % 3600
    let middleStart ← (if startRemainder = 0 then .ok startSeconds
      else checkedI64 (startSeconds + (3600 - startRemainder)))
    let middleEnd ← checkedI64 (endSeconds - endSeconds % 3600)
    if middleStart ≥ middleEnd then pushSegment [] .minute startSeconds endSeconds
    else
      let segments ← (if startSeconds < middleStart then
        pushSegment [] .minute startSeconds middleStart else .ok [])
      let segments ← pushSegment segments .hour middleStart middleEnd
      if middleEnd < endSeconds then pushSegment segments .minute middleEnd endSeconds
      else .ok segments

/-- A resolved boundary of the calendar: seconds and nanoseconds, if the zone has it. -/
abbrev Boundary : Type := Option (ℤ × ℕ)

structure CalendarBucket where
  startSeconds : ℤ
  endSeconds : ℤ
  segments : List UsageAggregateSegment

/-- `CalendarBoundaryResolver::bucket`, behind the time zone's `to_timestamp`. -/
def bucket (start stop : Boundary) : Except QueryErrorCode CalendarBucket := do
  let (startSeconds, startNanos) ← Except.okOr .unsupportedTimeBoundary start
  let (endSeconds, endNanos) ← Except.okOr .unsupportedTimeBoundary stop
  Except.require .unsupportedTimeBoundary (startNanos = 0 ∧ endNanos = 0)
  Except.require .unsupportedTimeBoundary
    (startSeconds ≤ endSeconds ∧ startSeconds % 60 = 0 ∧ endSeconds % 60 = 0)
  let segments ← composeSegments startSeconds endSeconds
  .ok ⟨startSeconds, endSeconds, segments⟩

/-! ### The sums of an overview -/

/-- A provider and a profile. -/
abbrev ScanScope : Type := Bytes × Bytes

/-- No scope is every scope. -/
def InScopes (scopes : List ScanScope) (providerId profileId : Bytes) : Prop :=
  scopes = [] ∨ (providerId, profileId) ∈ scopes

instance (scopes : List ScanScope) (providerId profileId : Bytes) :
    Decidable (InScopes scopes providerId profileId) := inferInstanceAs (Decidable (_ ∨ _))

/-- The `WHERE` of `OVERVIEW_SQL`. -/
def Addressed (active : ℕ) (dataset : DatasetKind) (scopes : List ScanScope)
    (segment : UsageAggregateSegment) (key : RowKey TimeKey) : Prop :=
  key.1 = active ∧ key.2.1 = dataset ∧ key.2.2.width = segment.bucketWidth ∧
    segment.startSeconds ≤ key.2.2.start ∧ key.2.2.start < segment.endSeconds ∧
    key.2.2.dimension = .all ∧ InScopes scopes key.2.2.providerId key.2.2.profileId

instance (active : ℕ) (dataset : DatasetKind) (scopes : List ScanScope)
    (segment : UsageAggregateSegment) (key : RowKey TimeKey) :
    Decidable (Addressed active dataset scopes segment key) := inferInstanceAs (Decidable (_ ∧ _))

/-- `OVERVIEW_SQL`. -/
def segmentMetrics (rows : Rows TimeKey UsageMetrics) (active : ℕ) (dataset : DatasetKind)
    (scopes : List ScanScope) (segment : UsageAggregateSegment) : UsageMetrics :=
  ((rows.filter fun row => Addressed active dataset scopes segment row.1).map fun row => row.2).sum

/-- `load_aggregate_metrics`. -/
def loadAggregateMetrics (rows : Rows TimeKey UsageMetrics) (active : ℕ) (dataset : DatasetKind)
    (segments : List UsageAggregateSegment) (scopes : List ScanScope) : UsageMetrics :=
  (segments.map fun segment => segmentMetrics rows active dataset scopes segment).sum

/-- What the events of a range count, from scratch. -/
def rangeMetrics (events : List UsageEvent) (scopes : List ScanScope) (startSeconds endSeconds : ℤ) :
    UsageMetrics :=
  ((events.filter fun event => startSeconds ≤ event.timestampSeconds ∧
    event.timestampSeconds < endSeconds ∧ InScopes scopes event.providerId event.profileId).map
      fun event => event.metrics).sum

/-! ### What is composed -/

/-- The first hour at or behind a range's start. -/
def nextHour (startSeconds : ℤ) : ℤ :=
  if startSeconds % 3600 = 0 then startSeconds else startSeconds + (3600 - startSeconds % 3600)

/-- The last hour at or before a range's end. -/
def lastHour (endSeconds : ℤ) : ℤ := endSeconds - endSeconds % 3600

/-- Segments that follow each other from a start to an end. -/
def Contiguous : List UsageAggregateSegment → ℤ → ℤ → Prop
  | [], startSeconds, endSeconds => startSeconds = endSeconds
  | segment :: segments, startSeconds, endSeconds =>
    segment.startSeconds = startSeconds ∧ Contiguous segments segment.endSeconds endSeconds

variable {segments : List UsageAggregateSegment} {startSeconds endSeconds : ℤ}
  {scopes : List ScanScope} {rows : Rows TimeKey UsageMetrics}

theorem Contiguous.le (h : Contiguous segments startSeconds endSeconds) :
    startSeconds ≤ endSeconds := by
  induction segments generalizing startSeconds with
  | nil => exact le_of_eq h
  | cons seg segments ih =>
    obtain ⟨hst, hrs⟩ := h
    have hlt := seg.nonempty
    have hle := ih hrs
    omega

/-- The segments do not overlap and cover the range. -/
theorem Contiguous.covers (h : Contiguous segments startSeconds endSeconds) :
    segments.Pairwise (fun a b => a.endSeconds ≤ b.startSeconds) ∧
      ∀ seconds, (∃ seg ∈ segments, seg.startSeconds ≤ seconds ∧
        seconds < seg.endSeconds) ↔ startSeconds ≤ seconds ∧ seconds < endSeconds := by
  induction segments generalizing startSeconds with
  | nil =>
    obtain rfl : startSeconds = endSeconds := h
    refine ⟨List.Pairwise.nil, fun seconds => ⟨?_, ?_⟩⟩
    · rintro ⟨seg, hmem, _⟩
      cases hmem
    · omega
  | cons seg segments ih =>
    obtain ⟨rfl, hrs⟩ := h
    obtain ⟨hpw, hcovers⟩ := ih hrs
    have hlt := seg.nonempty
    have hle := hrs.le
    refine ⟨pairwise_cons.mpr ⟨?_, hpw⟩, fun seconds => ⟨?_, ?_⟩⟩
    · intro other hoth
      exact ((hcovers other.startSeconds).mp ⟨other, hoth, le_refl _, other.nonempty⟩).1
    · rintro ⟨other, hoth, hin⟩
      rcases mem_cons.mp hoth with rfl | hoth
      · omega
      · have hrg := (hcovers seconds).mp ⟨other, hoth, hin⟩
        omega
    · intro hrg
      by_cases hown : seconds < seg.endSeconds
      · exact ⟨seg, mem_cons_self .., hrg.1, hown⟩
      · obtain ⟨other, hoth, hin⟩ := (hcovers seconds).mpr ⟨by omega, hrg.2⟩
        exact ⟨other, mem_cons_of_mem _ hoth, hin⟩

theorem pushSegment_ok {segments : List UsageAggregateSegment} {width : BucketWidth}
    {startSeconds endSeconds : ℤ} (hlt : startSeconds < endSeconds)
    (hst : startSeconds % width.seconds = 0) (hend : endSeconds % width.seconds = 0) :
    pushSegment segments width startSeconds endSeconds =
      .ok (segments ++ [⟨width, startSeconds, endSeconds, hlt, hst, hend⟩]) := by
  unfold pushSegment UsageAggregateSegment.new
  rw [dif_pos ⟨hlt, hst, hend⟩]
  rfl

theorem middleStart_eq (hnx : fitsI64 (nextHour startSeconds)) :
    (if startSeconds % 3600 = 0 then Except.ok startSeconds
      else checkedI64 (startSeconds + (3600 - startSeconds % 3600))) = .ok (nextHour startSeconds) := by
  unfold nextHour at hnx ⊢
  by_cases hz : startSeconds % 3600 = 0
  · rw [if_pos hz, if_pos hz]
  · rw [if_neg hz] at hnx
    rw [if_neg hz, if_neg hz, checkedI64, if_pos hnx]

/-- A range of minutes is composed of at most three segments, one behind the other. -/
theorem composeSegments_ok (hle : startSeconds ≤ endSeconds) (hst : startSeconds % 60 = 0)
    (hend : endSeconds % 60 = 0) (hnx : fitsI64 (nextHour startSeconds))
    (hl : fitsI64 (lastHour endSeconds)) :
    ∃ segments, composeSegments startSeconds endSeconds = .ok segments ∧ segments.length ≤ 3 ∧
      Contiguous segments startSeconds endSeconds := by
  unfold composeSegments
  by_cases hsm : startSeconds = endSeconds
  · rw [if_pos hsm]
    exact ⟨[], rfl, by decide, hsm⟩
  · rw [if_neg hsm]
    have hmiddleE : checkedI64 (endSeconds - endSeconds % 3600) = .ok (lastHour endSeconds) :=
      if_pos hl
    have hnxH : nextHour startSeconds % 3600 = 0 ∧ startSeconds ≤ nextHour startSeconds := by
      unfold nextHour
      split_ifs <;> omega
    have hlH : lastHour endSeconds % 3600 = 0 ∧ lastHour endSeconds ≤ endSeconds := by
      unfold lastHour
      omega
    simp only [middleStart_eq hnx, hmiddleE, ok_bind]
    by_cases hsh : nextHour startSeconds ≥ lastHour endSeconds
    · rw [if_pos hsh, @pushSegment_ok _ .minute _ _ (by omega) hst hend]
      exact ⟨_, rfl, by simp, rfl, rfl⟩
    · rw [if_neg hsh]
      have hminute : nextHour startSeconds % 60 = 0 ∧ lastHour endSeconds % 60 = 0 := by omega
      by_cases hbef : startSeconds < nextHour startSeconds
      · rw [if_pos hbef, @pushSegment_ok _ .minute _ _ hbef hst hminute.1, ok_bind,
          @pushSegment_ok _ .hour _ _ (by omega) hnxH.1 hlH.1, ok_bind]
        by_cases haft : lastHour endSeconds < endSeconds
        · rw [if_pos haft, @pushSegment_ok _ .minute _ _ haft hminute.2 hend]
          exact ⟨_, rfl, by simp, rfl, rfl, rfl, rfl⟩
        · rw [if_neg haft]
          have hsm : lastHour endSeconds = endSeconds := by omega
          exact ⟨_, rfl, by simp, rfl, rfl, hsm⟩
      · rw [if_neg hbef, ok_bind, @pushSegment_ok _ .hour _ _ (by omega) hnxH.1 hlH.1,
          ok_bind]
        have hsm : nextHour startSeconds = startSeconds := by omega
        by_cases haft : lastHour endSeconds < endSeconds
        · rw [if_pos haft, @pushSegment_ok _ .minute _ _ haft hminute.2 hend]
          exact ⟨_, rfl, by simp, hsm, rfl, rfl⟩
        · rw [if_neg haft]
          have hsm' : lastHour endSeconds = endSeconds := by omega
          exact ⟨_, rfl, by simp, hsm, hsm'⟩

/-- Otherwise an hour around the range is not an `i64`. -/
theorem composeSegments_overflow (hne : startSeconds ≠ endSeconds) (hfit : fitsI64 startSeconds)
    (h : ¬ (fitsI64 (nextHour startSeconds) ∧ fitsI64 (lastHour endSeconds))) :
    composeSegments startSeconds endSeconds = .error .overflow := by
  unfold composeSegments
  rw [if_neg hne]
  by_cases hnx : fitsI64 (nextHour startSeconds)
  · have hl : ¬ fitsI64 (endSeconds - endSeconds % 3600) := fun hl => h ⟨hnx, hl⟩
    have hmiddleE : checkedI64 (endSeconds - endSeconds % 3600) = .error .overflow := if_neg hl
    simp only [middleStart_eq hnx, hmiddleE, ok_bind]
    rfl
  · unfold nextHour at hnx
    have hz : startSeconds % 3600 ≠ 0 := by
      intro hz
      rw [if_pos hz] at hnx
      exact hnx hfit
    rw [if_neg hz] at hnx
    simp only [if_neg hz, checkedI64, if_neg hnx]
    rfl

/-- The segments of a bucket of the calendar, which checks its boundaries, cover the bucket. -/
theorem bucket_contiguous {start stop : Boundary} {b : CalendarBucket}
    (hfit : ∀ bnd ∈ start, fitsI64 bnd.1) (h : bucket start stop = .ok b) :
    b.segments.length ≤ 3 ∧ Contiguous b.segments b.startSeconds b.endSeconds := by
  obtain ⟨⟨startSeconds, startNanos⟩, hst, h⟩ := bind_eq_ok.mp h
  obtain ⟨⟨endSeconds, endNanos⟩, _, h⟩ := bind_eq_ok.mp h
  obtain ⟨_, _, h⟩ := bind_eq_ok.mp h
  obtain ⟨hck, h⟩ := require_bind.mp h
  obtain ⟨hle, hst₆₀, hend₆₀⟩ := hck
  obtain ⟨segments, hsegm, h⟩ := bind_eq_ok.mp h
  obtain rfl := Except.ok.inj h
  by_cases hsm : startSeconds = endSeconds
  · rw [composeSegments, if_pos hsm] at hsegm
    obtain rfl := Except.ok.inj hsegm
    exact ⟨by simp, hsm⟩
  · by_cases hhours : fitsI64 (nextHour startSeconds) ∧ fitsI64 (lastHour endSeconds)
    · obtain ⟨composed, hcomp, hall⟩ :=
        composeSegments_ok hle hst₆₀ hend₆₀ hhours.1 hhours.2
      rw [hcomp] at hsegm
      obtain rfl := Except.ok.inj hsegm
      exact hall
    · rw [composeSegments_overflow hsm (hfit _ (okOr_eq_ok.mp hst)) hhours] at hsegm
      cases hsegm

theorem bucket_contiguous_two_hours : ∃ b, bucket (some (0, 0)) (some (7200, 0)) = .ok b ∧
    Contiguous b.segments 0 7200 :=
  ⟨_, rfl, (@bucket_contiguous (some (0, 0)) (some (7200, 0)) _ (by decide) rfl).2⟩

/-! ### Sums over segments -/

theorem le_bucketStart_iff {width : BucketWidth} {startSeconds seconds : ℤ}
    (halig : startSeconds % width.seconds = 0) :
    startSeconds ≤ bucketStart width seconds ↔ startSeconds ≤ seconds := by
  rw [bucketStart_eq]
  cases width with
  | minute | hour =>
    simp only [BucketWidth.seconds] at halig ⊢
    omega

theorem bucketStart_lt_iff {width : BucketWidth} {endSeconds seconds : ℤ}
    (halig : endSeconds % width.seconds = 0) :
    bucketStart width seconds < endSeconds ↔ seconds < endSeconds := by
  rw [← not_le, ← not_le, le_bucketStart_iff halig]

variable {active : ℕ} {data : DatasetKind}

/-- The addressed rows of one event: its bucket, if it lies in the segment. -/
theorem sum_addressed {seg : UsageAggregateSegment} (ev : UsageEvent) :
    (((timeRollup.rowKeys active data ev).filter fun key =>
      Addressed active data scopes seg key).map fun key => timeRollup.rowValue ev key).sum =
    if seg.startSeconds ≤ ev.timestampSeconds ∧ ev.timestampSeconds < seg.endSeconds ∧
      InScopes scopes ev.providerId ev.profileId then ev.metrics else 0 := by
  have hst := @le_bucketStart_iff seg.bucketWidth seg.startSeconds ev.timestampSeconds
    seg.aligned_start
  have hend := @bucketStart_lt_iff seg.bucketWidth seg.endSeconds ev.timestampSeconds
    seg.aligned_end
  simp only [← hst, ← hend]
  obtain ⟨width, hwidth⟩ : ∃ width, seg.bucketWidth = width := ⟨_, rfl⟩
  by_cases hin : seg.startSeconds ≤ bucketStart width ev.timestampSeconds ∧
      bucketStart width ev.timestampSeconds < seg.endSeconds ∧
      InScopes scopes ev.providerId ev.profileId
  · cases width <;>
      simp [RollupTable.rowKeys, RollupTable.rowValue, timeRollup, UsageEvent.timeKeys,
        UsageEvent.widths, UsageFacts.dimensions, Addressed, hwidth, hin]
  · cases width <;>
      simp [RollupTable.rowKeys, RollupTable.rowValue, timeRollup, UsageEvent.timeKeys,
        UsageEvent.widths, UsageFacts.dimensions, Addressed, hwidth, hin]

theorem sum_filter_ite {α M : Type} [AddCommMonoid M] (p : α → Prop) [DecidablePred p] (f : α → M)
    (l : List α) :
    ((l.filter fun a => p a).map f).sum = (l.map fun a => if p a then f a else 0).sum := by
  induction l with
  | nil => rfl
  | cons a l ih =>
    by_cases hp : p a
    · rw [filter_cons_of_pos (by simpa using hp), map_cons, sum_cons, map_cons,
        sum_cons, if_pos hp, ih]
    · rw [filter_cons_of_neg (by simpa using hp), map_cons, sum_cons, if_neg hp, zero_add, ih]

variable {evs : List UsageEvent}

theorem segmentMetrics_eq (hkd : Keyed Prod.fst rows)
    (hrs : ∀ k, get rows (active, data, k) = timeRollup.scratch evs k)
    (scopes : List ScanScope) (seg : UsageAggregateSegment) :
    segmentMetrics rows active data scopes seg =
      rangeMetrics evs scopes seg.startSeconds seg.endSeconds := by
  have htot := @sum_filter_eq _ _ _ UsageEvent _ _ _ (fun v : UsageMetrics => v) (fun _ _ => rfl)
    (timeRollup.rowKeys active data) timeRollup.rowValue evs
    (timeRollup_lawful.nodup_rowKeys active data) rows hkd
    (Addressed active data scopes seg) _
    fun key hkey => RollupTable.gather_of_scratch hrs hkey.1 hkey.2.1
  unfold segmentMetrics rangeMetrics
  rw [htot, sum_filter_ite]
  refine congrArg List.sum (map_congr_left fun ev _ => sum_addressed ev)

theorem rangeMetrics_append {a b c : ℤ} (hab : a ≤ b) (hbc : b ≤ c) :
    rangeMetrics evs scopes a b + rangeMetrics evs scopes b c = rangeMetrics evs scopes a c := by
  unfold rangeMetrics
  simp only [sum_filter_ite]
  rw [← sum_map_add]
  refine congrArg List.sum (map_congr_left fun ev _ => ?_)
  by_cases hsc : InScopes scopes ev.providerId ev.profileId
  · simp only [hsc, and_true]
    by_cases ha : a ≤ ev.timestampSeconds
    · by_cases hb : ev.timestampSeconds < b
      · rw [if_pos ⟨ha, hb⟩, if_neg (by omega), if_pos (by omega), add_zero]
      · by_cases hc : ev.timestampSeconds < c
        · rw [if_neg (by omega), if_pos (by omega), if_pos ⟨ha, hc⟩, zero_add]
        · rw [if_neg (by omega), if_neg (by omega), if_neg (by omega), add_zero]
    · rw [if_neg (by omega), if_neg (by omega), if_neg (by omega), add_zero]
  · simp only [hsc, and_false, if_false, add_zero]

theorem loadAggregateMetrics_eq (hkd : Keyed Prod.fst rows)
    (hrows : ∀ k, get rows (active, data, k) = timeRollup.scratch evs k)
    (scopes : List ScanScope) (h : Contiguous segments startSeconds endSeconds) :
    loadAggregateMetrics rows active data segments scopes =
      rangeMetrics evs scopes startSeconds endSeconds := by
  induction segments generalizing startSeconds with
  | nil =>
    obtain rfl : startSeconds = endSeconds := h
    have hno : evs.filter (fun ev => startSeconds ≤ ev.timestampSeconds ∧
        ev.timestampSeconds < startSeconds ∧ InScopes scopes ev.providerId ev.profileId) = [] := by
      refine filter_eq_nil_iff.mpr fun ev _ => ?_
      simp only [decide_eq_true_eq]
      omega
    rw [rangeMetrics, hno]
    rfl
  | cons seg segments ih =>
    obtain ⟨rfl, hrs⟩ := h
    have hsum : loadAggregateMetrics rows active data (seg :: segments) scopes =
        segmentMetrics rows active data scopes seg +
          loadAggregateMetrics rows active data segments scopes := rfl
    rw [hsum, ih hrs, segmentMetrics_eq hkd hrows,
      rangeMetrics_append (le_of_lt seg.nonempty) hrs.le]

/-- **Range totals are exact.**  A range of minutes is composed, unless an hour around it is no `i64`,
of at most three segments that follow each other and cover it, with hours only between hours; and
over every table whose cells are those of some events, the sum over the buckets that the segments
address is the sum over the events of the range. -/
theorem range_totals_exact {startSeconds endSeconds : ℤ} (hstartFits : fitsI64 startSeconds)
    (hle : startSeconds ≤ endSeconds) (hstart : startSeconds % 60 = 0) (hend : endSeconds % 60 = 0) :
    (startSeconds ≠ endSeconds →
      ¬ (fitsI64 (nextHour startSeconds) ∧ fitsI64 (lastHour endSeconds)) →
      composeSegments startSeconds endSeconds = .error .overflow) ∧
    (startSeconds = endSeconds ∨ fitsI64 (nextHour startSeconds) ∧ fitsI64 (lastHour endSeconds) →
      ∃ segments, composeSegments startSeconds endSeconds = .ok segments ∧ segments.length ≤ 3 ∧
        Contiguous segments startSeconds endSeconds ∧
        segments.Pairwise (fun a b => a.endSeconds ≤ b.startSeconds) ∧
        (∀ seconds, (∃ segment ∈ segments, segment.startSeconds ≤ seconds ∧
          seconds < segment.endSeconds) ↔ startSeconds ≤ seconds ∧ seconds < endSeconds) ∧
        (∀ segment ∈ segments, segment.bucketWidth = .hour →
          segment.startSeconds % 3600 = 0 ∧ segment.endSeconds % 3600 = 0) ∧
        ∀ (events : List UsageEvent) (rows : Rows TimeKey UsageMetrics) (active : ℕ)
          (dataset : DatasetKind) (scopes : List ScanScope), Keyed Prod.fst rows →
          (∀ k, get rows (active, dataset, k) = timeRollup.scratch events k) →
          loadAggregateMetrics rows active dataset segments scopes =
            rangeMetrics events scopes startSeconds endSeconds) := by
  refine ⟨fun hne h => composeSegments_overflow hne hstartFits h, ?_⟩
  intro hfit
  obtain ⟨segments, hcomp, hlen, hcont⟩ : ∃ segments,
      composeSegments startSeconds endSeconds = .ok segments ∧ segments.length ≤ 3 ∧
        Contiguous segments startSeconds endSeconds := by
    rcases hfit with hsm | ⟨hnx, hl⟩
    · refine ⟨[], ?_, by decide, hsm⟩
      rw [composeSegments, if_pos hsm]
    · exact composeSegments_ok hle hstart hend hnx hl
  obtain ⟨hpw, hcovers⟩ := hcont.covers
  refine ⟨segments, hcomp, hlen, hcont, hpw, hcovers, ?_, ?_⟩
  · intro segment _ hhour
    have hstart := segment.aligned_start
    have hend := segment.aligned_end
    rw [hhour] at hstart hend
    exact ⟨hstart, hend⟩
  · intro events rows active dataset scopes hkd hrs
    exact loadAggregateMetrics_eq hkd hrs scopes hcont

/-- At the upper end of the seconds there is no next hour. -/
theorem late_range_overflows :
    fitsI64 (2 ^ 63 - 68) ∧ fitsI64 (2 ^ 63 - 8) ∧ ((2 : ℤ) ^ 63 - 68) % 60 = 0 ∧
      ((2 : ℤ) ^ 63 - 8) % 60 = 0 ∧
      composeSegments (2 ^ 63 - 68) (2 ^ 63 - 8) = .error .overflow := by decide +kernel

/-- The table of some events, grouped at once. -/
theorem get_scratchRows (active : ℕ) (data : DatasetKind) (evs : List UsageEvent) (k : TimeKey) :
    get (groups (timeRollup.rowKeys active data) timeRollup.rowValue evs) (active, data, k) =
      timeRollup.scratch evs k := by
  rw [get_groups]
  have hap := @RollupTable.cells_apply _ _ timeRollup _ _ active data evs (active, data, k)
  rw [if_pos ⟨rfl, rfl⟩] at hap
  exact hap

theorem range_totals_exact_around_epoch :
    ∃ segments, composeSegments (-5400) 3660 = .ok segments ∧ segments.length ≤ 3 ∧
      loadAggregateMetrics (groups (timeRollup.rowKeys 0 .current) timeRollup.rowValue
          [sampleEvent (-5400), sampleEvent (-1), sampleEvent 3660]) 0 .current segments [] =
        rangeMetrics [sampleEvent (-5400), sampleEvent (-1), sampleEvent 3660] [] (-5400) 3660 ∧
      rangeMetrics [sampleEvent (-5400), sampleEvent (-1), sampleEvent 3660] [] (-5400) 3660
        .eventCount = 2 := by
  obtain ⟨segments, hcomp, hlen, _, _, _, _, hsum⟩ :=
    (@range_totals_exact (-5400) 3660 (by decide) (by decide) (by decide) (by decide)).2
      (.inr (by decide))
  exact ⟨segments, hcomp, hlen,
    hsum _ _ 0 .current [] (keyed_groups _) (get_scratchRows 0 .current _), by decide +kernel⟩

/-- So the overview of a ready database is the sum over its rows, whatever has run before. -/
theorem overview_follows_rows {start : UsageDb} (hst : start.Seeded) (steps : List RollupStep)
    (hrdy : (start.run steps).aggregate.state = .ready) (scopes : List ScanScope)
    (h : Contiguous segments startSeconds endSeconds) (data : DatasetKind) :
    loadAggregateMetrics ((start.run steps).rollups .time)
        (start.run steps).aggregate.activeAggregateGeneration data segments scopes =
      rangeMetrics ((start.run steps).datasetRows data) scopes startSeconds endSeconds := by
  have hex := (hst.consistent.run steps).1.ready hrdy .time
  cases data with
  | current => exact loadAggregateMetrics_eq hex.keyed hex.current scopes h
  | legacy => exact loadAggregateMetrics_eq hex.keyed hex.legacy scopes h

theorem overview_follows_rows_inserted : ∃ segments, composeSegments 0 3660 = .ok segments ∧
    let db := (UsageDb.migrated [] [] [] 0).run [.modify (.insert (sampleEvent 0))]
    loadAggregateMetrics (db.rollups .time) db.aggregate.activeAggregateGeneration .current segments
      [] = rangeMetrics (db.datasetRows .current) [] 0 3660 := by
  obtain ⟨segments, hcomp, -, hcont⟩ := @composeSegments_ok 0 3660 (by decide) (by decide)
    (by decide) (by decide) (by decide)
  exact ⟨segments, hcomp, overview_follows_rows (UsageDb.seeded_migrated .nil .nil [] 0) _
    (by decide +kernel) [] hcont .current⟩

end TokenMaster.Query
