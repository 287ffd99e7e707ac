import TokenMaster.Git.Aggregate

/-!
# TokenMaster.Git.ScanDays — totals and newest days of a scan

`GitScanAccumulator` of `crates/git/src/aggregate.rs`.  Whatever the order of the commits, the
accumulator is a function of them: the sums of all, and the newest days with the sums of their commits.
-/

namespace TokenMaster.Git

open TokenMaster.Domain TokenMaster.Newest TokenMaster.Except List

/-! ### The accumulator -/

structure GitDayCategoryAggregate where
  dayIndex : ℤ
  category : GitOutputCategory
  lines : GitLineMetrics

structure GitScanSummary where
  totals : GitOutputTotals
  retainedDays : List GitOutputDay
  retainedDayCategories : List GitDayCategoryAggregate
  categories : List GitOutputCategoryMetrics
  dailyHistoryTruncated : Bool

/-- The first four fields are the counters that a day has as well. -/
structure GitScanAccumulator extends DayAggregate where
  binaryFiles : ℕ
  submoduleChanges : ℕ
  retainedDays : List (ℤ × DayAggregate)
  dailyHistoryTruncated : Bool

namespace GitScanAccumulator

def new : GitScanAccumulator where
  toDayAggregate := 0
  binaryFiles := 0
  submoduleChanges := 0
  retainedDays := []
  dailyHistoryTruncated := false

/-- `retained_days.entry(day).or_default()` and what follows it. -/
def recordRetained (scan : GitScanAccumulator) (commit : GitCommitAggregate) :
    Except GitCoreError GitScanAccumulator := do
  let day ← ((lookup scan.retainedDays commit.dayIndex).getD 0).record commit
  return { scan with retainedDays := put scan.retainedDays commit.dayIndex day }

def recordDay (scan : GitScanAccumulator) (commit : GitCommitAggregate) :
    Except GitCoreError GitScanAccumulator :=
  if lookup scan.retainedDays commit.dayIndex = none ∧
      scan.retainedDays.length = maxGitOutputDays then
    match scan.retainedDays with
    | [] => .error .incoherentState
    | oldest :: rest =>
      if commit.dayIndex ≤ oldest.1 then .ok { scan with dailyHistoryTruncated := true }
      else recordRetained { scan with retainedDays := rest, dailyHistoryTruncated := true } commit
  else recordRetained scan commit

def push (scan : GitScanAccumulator) (commit : GitCommitAggregate) :
    Except GitCoreError GitScanAccumulator := do
  let counts ← scan.toDayAggregate.record commit
  let binaryFiles ← checkedAdd scan.binaryFiles commit.binaryFiles
  let submoduleChanges ← checkedAdd scan.submoduleChanges commit.submoduleChanges
  recordDay { scan with
    toDayAggregate := counts
    binaryFiles := binaryFiles
    submoduleChanges := submoduleChanges } commit

def finishDay (row : ℤ × DayAggregate) : Except GitCoreError GitOutputDay :=
  (GitOutputDay.new row.1 row.2.commits row.2.mergeCommits row.2.lines).mapError
    fun _ => .incoherentState

def finish (scan : GitScanAccumulator) : Except GitCoreError GitScanSummary := do
  let totals ← (GitOutputTotals.new scan.commits scan.mergeCommits scan.lines scan.binaryFiles
    scan.submoduleChanges 0 0).mapError fun _ => .incoherentState
  let retainedDays ← scan.retainedDays.mapM finishDay
  return {
    totals := totals
    retainedDays := retainedDays
    retainedDayCategories := scan.retainedDays.flatMap fun row =>
      GitOutputCategory.all.map fun category => ⟨row.1, category, row.2.categories category⟩
    categories := GitOutputCategory.all.map fun category => ⟨category, scan.categories category⟩
    dailyHistoryTruncated := scan.dailyHistoryTruncated }

end GitScanAccumulator

/-- A scan over some commits. -/
def scanCommits (commits : List GitCommitAggregate) : Except GitCoreError GitScanSummary := do
  let scan ← commits.foldlM GitScanAccumulator.push .new
  scan.finish

/-! ### Sums of commits -/

/-- The counters of some commits. -/
def summed (commits : List GitCommitAggregate) : DayAggregate where
  commits := commits.length
  mergeCommits := commits.countP (·.isMerge)
  lines := (commits.map (·.lines)).sum
  categories := fun category => (commits.map fun commit => commit.categories category).sum

theorem sum_counts (commits : List GitCommitAggregate) :
    (commits.map (·.counts)).sum = summed commits := by
  induction commits with
  | nil => rfl
  | cons commit commits ih =>
    rw [map_cons, sum_cons, ih]
    refine DayAggregate.ext ?_ ?_ ?_ ?_
    · exact Nat.add_comm ..
    · rw [DayAggregate.add_mergeCommits, Nat.add_comm]
      exact countP_cons.symm
    · exact sum_cons.symm
    · funext category
      exact sum_cons.symm

/-- The sum over all categories is the sum of the lines. -/
theorem sum_categories (cms : List GitCommitAggregate) :
    (GitOutputCategory.all.map (summed cms).categories).sum = (summed cms).lines := by
  induction cms with
  | nil => rfl
  | cons commit cms ih =>
    have hspl : (summed (commit :: cms)).categories =
        fun category => commit.categories category + (summed cms).categories category := rfl
    rw [hspl, sum_map_add, ih, ← commit.lines_eq]
    rfl

/-- No counter of the scan exceeds `u64`. -/
structure SumsFit (commits : List GitCommitAggregate) : Prop where
  counts : (summed commits).Fits
  binaryFiles : (commits.map (·.binaryFiles)).sum < 2 ^ 64
  submoduleChanges : (commits.map (·.submoduleChanges)).sum < 2 ^ 64

theorem summed_append (cms commits' : List GitCommitAggregate) :
    summed (cms ++ commits') = summed cms + summed commits' := by
  simp only [← sum_counts, map_append, sum_append]

theorem summed_append_one (cms : List GitCommitAggregate) (commit : GitCommitAggregate) :
    summed (cms ++ [commit]) = summed cms + commit.counts := by
  rw [summed_append, ← sum_counts [commit], map_singleton, sum_singleton]

theorem SumsFit.of_append {cms commits' : List GitCommitAggregate}
    (h : SumsFit (cms ++ commits')) : SumsFit cms where
  counts := by
    have hcts := h.counts
    rw [summed_append] at hcts
    exact hcts.of_add
  binaryFiles := by
    have hbi := h.binaryFiles
    rw [map_append, sum_append] at hbi
    omega
  submoduleChanges := by
    have hsub := h.submoduleChanges
    rw [map_append, sum_append] at hsub
    omega

/-- The commits of one day. -/
def onDay (commits : List GitCommitAggregate) (day : ℤ) : List GitCommitAggregate :=
  commits.filter fun commit => commit.dayIndex = day

/-- The days of some commits with their sums. -/
def dayTable (commits : List GitCommitAggregate) : List (ℤ × DayAggregate) :=
  grouped (·.dayIndex) (·.counts) commits

theorem sumAt_day (cms : List GitCommitAggregate) (day : ℤ) :
    sumAt (·.dayIndex) (·.counts) cms day = summed (onDay cms day) := sum_counts _

/-- One day has at most what all have. -/
theorem SumsFit.onDay {cms : List GitCommitAggregate} (h : SumsFit cms) (day : ℤ) :
    (summed (onDay cms day)).Fits := by
  have hp := filter_append_perm (fun commit : GitCommitAggregate => commit.dayIndex = day)
    cms
  have hsum : summed cms =
      summed (Git.onDay cms day) + summed (cms.filter fun commit => ¬ commit.dayIndex = day) := by
    rw [← summed_append, ← sum_counts, ← sum_counts]
    refine ((List.Perm.map _ ?_).sum_eq).symm
    simpa [Git.onDay] using hp
  have hcts := h.counts
  rw [hsum] at hcts
  exact hcts.of_add

/-! ### The accumulator after some commits -/

namespace GitScanAccumulator

/-- The accumulator as a function of the commits it has seen. -/
def ofCommits (commits : List GitCommitAggregate) : GitScanAccumulator where
  toDayAggregate := summed commits
  binaryFiles := (commits.map (·.binaryFiles)).sum
  submoduleChanges := (commits.map (·.submoduleChanges)).sum
  retainedDays := newest maxGitOutputDays (dayTable commits)
  dailyHistoryTruncated := maxGitOutputDays < (dayTable commits).length

theorem ofCommits_nil : ofCommits [] = new := by
  simp [ofCommits, new, dayTable, grouped, Newest.keys, newest, summed, DayAggregate.ext_iff, funext_iff]

section Day

variable {cms : List GitCommitAggregate} {commit : GitCommitAggregate} {scan : GitScanAccumulator}

/-- Adding to a day whose sum so far is known. -/
theorem recordRetained_ok (hfit : SumsFit (cms ++ [commit]))
    (hday : (lookup scan.retainedDays commit.dayIndex).getD 0 =
      summed (onDay cms commit.dayIndex)) :
    recordRetained scan commit = .ok { scan with
      retainedDays := put scan.retainedDays commit.dayIndex
        (summed (onDay cms commit.dayIndex) + commit.counts) } := by
  have hbef := hfit.of_append.onDay commit.dayIndex
  have haft : (summed (onDay cms commit.dayIndex) + commit.counts).Fits := by
    have hall := hfit.onDay commit.dayIndex
    have hspl : onDay (cms ++ [commit]) commit.dayIndex =
        onDay cms commit.dayIndex ++ [commit] := by
      simp [onDay, filter_append]
    rwa [hspl, summed_append_one] at hall
  unfold recordRetained
  rw [hday, (DayAggregate.record_eq_ok hbef).mpr ⟨haft, rfl⟩]
  rfl

theorem dayTable_append (cms : List GitCommitAggregate) (commit : GitCommitAggregate) :
    dayTable (cms ++ [commit]) =
      put (dayTable cms) commit.dayIndex
        (summed (onDay cms commit.dayIndex) + commit.counts) := by
  unfold dayTable
  rw [grouped_append, sumAt_day]

theorem getD_lookup_dayTable (cms : List GitCommitAggregate) (day : ℤ) :
    (lookup (dayTable cms) day).getD 0 = summed (onDay cms day) := by
  unfold dayTable
  rw [getD_lookup_grouped, sumAt_day]

/-- A day that was dropped once lies below all kept days for ever, so it is never started again. -/
theorem recordDay_ok (hfit : SumsFit (cms ++ [commit]))
    (hdays : scan.retainedDays = newest maxGitOutputDays (dayTable cms))
    (htrun : scan.dailyHistoryTruncated = decide (maxGitOutputDays < (dayTable cms).length)) :
    recordDay scan commit = .ok { scan with
      retainedDays := newest maxGitOutputDays (dayTable (cms ++ [commit]))
      dailyHistoryTruncated := maxGitOutputDays < (dayTable (cms ++ [commit])).length } := by
  have hord : Ordered (dayTable cms) := ordered_grouped _
  have hsum := getD_lookup_dayTable cms commit.dayIndex
  unfold recordDay
  rw [hdays]
  by_cases hfu : lookup (newest maxGitOutputDays (dayTable cms)) commit.dayIndex = none ∧
      (newest maxGitOutputDays (dayTable cms)).length = maxGitOutputDays
  · rw [if_pos hfu]
    obtain ⟨hno, hlen⟩ := hfu
    cases hkp : newest maxGitOutputDays (dayTable cms) with
    | nil =>
      rw [hkp] at hlen
      cases hlen
    | cons oldest rest =>
      by_cases hle : commit.dayIndex ≤ oldest.1
      · obtain ⟨hsm, hmo⟩ := newest_put_of_older hord hkp hlen hno hle
          (summed (onDay cms commit.dayIndex) + commit.counts)
        simp only [if_pos hle, dayTable_append, hsm, hmo, decide_true, hkp]
      · obtain ⟨hnew, hput⟩ := newest_put_of_newer hord hkp hlen hno (not_le.mp hle)
        obtain ⟨hrs, hmo⟩ := hput (summed (onDay cms commit.dayIndex) + commit.counts)
        have hrsN : lookup rest commit.dayIndex = none := by
          rw [hkp] at hno
          refine lookup_eq_none_iff.mpr fun row hrow => ?_
          exact lookup_eq_none_iff.mp hno row (mem_cons_of_mem _ hrow)
        have hday : (lookup rest commit.dayIndex).getD 0 = summed (onDay cms commit.dayIndex) := by
          rw [hrsN, ← hsum, hnew]
        simp only [if_neg hle]
        rw [recordRetained_ok hfit hday]
        simp only [dayTable_append, hrs, hmo, decide_true]
  · rw [if_neg hfu]
    have hrm : lookup (newest maxGitOutputDays (dayTable cms)) commit.dayIndex ≠ none ∨
        (newest maxGitOutputDays (dayTable cms)).length ≠ maxGitOutputDays :=
      not_and_or.mp hfu
    obtain ⟨hsm, hput⟩ := newest_put_of_room hord hrm
    obtain ⟨hkp, hlen⟩ := hput (summed (onDay cms commit.dayIndex) + commit.counts)
    rw [← hdays] at hsm
    have hday := hsum
    rw [hsm] at hday
    rw [recordRetained_ok hfit hday, hdays]
    simp only [dayTable_append, hkp, hlen, htrun]

end Day

/-- One commit more. -/
theorem push_ofCommits_eq_ok {cms : List GitCommitAggregate} {commit : GitCommitAggregate}
    {scan : GitScanAccumulator} (hbef : SumsFit cms) :
    push (ofCommits cms) commit = .ok scan ↔
      SumsFit (cms ++ [commit]) ∧ scan = ofCommits (cms ++ [commit]) := by
  have hbina : ((cms ++ [commit]).map (·.binaryFiles)).sum =
      (cms.map (·.binaryFiles)).sum + commit.binaryFiles := by simp
  have hsubm : ((cms ++ [commit]).map (·.submoduleChanges)).sum =
      (cms.map (·.submoduleChanges)).sum + commit.submoduleChanges := by simp
  let counted : GitScanAccumulator := { ofCommits cms with
    toDayAggregate := summed cms + commit.counts
    binaryFiles := (cms.map (·.binaryFiles)).sum + commit.binaryFiles
    submoduleChanges := (cms.map (·.submoduleChanges)).sum + commit.submoduleChanges }
  have hday (hfit : SumsFit (cms ++ [commit])) :
      recordDay counted commit = .ok (ofCommits (cms ++ [commit])) := by
    have hdays : counted.retainedDays = newest maxGitOutputDays (dayTable cms) := by
      simp only [counted, ofCommits]
    rw [recordDay_ok hfit hdays rfl, ofCommits, summed_append_one, hbina, hsubm]
  constructor
  · intro h
    obtain ⟨counts, hcts, h⟩ := bind_eq_ok.mp h
    obtain ⟨binaries, hbi, h⟩ := bind_eq_ok.mp h
    obtain ⟨submodules, hsub, h⟩ := bind_eq_ok.mp h
    obtain ⟨hctsF, rfl⟩ := (DayAggregate.record_eq_ok hbef.counts).mp hcts
    obtain ⟨hbiF, rfl⟩ := checkedAdd_eq_ok.mp hbi
    obtain ⟨hsubF, rfl⟩ := checkedAdd_eq_ok.mp hsub
    have hfit : SumsFit (cms ++ [commit]) :=
      ⟨(summed_append_one cms commit).symm ▸ hctsF, hbina ▸ hbiF, hsubm ▸ hsubF⟩
    refine ⟨hfit, ?_⟩
    have hres := h.symm.trans (hday hfit)
    exact Except.ok.inj hres
  · rintro ⟨hfit, rfl⟩
    have hcts := hfit.counts
    rw [summed_append_one] at hcts
    refine bind_eq_ok.mpr
      ⟨_, (DayAggregate.record_eq_ok hbef.counts).mpr ⟨hcts, rfl⟩, ?_⟩
    refine bind_eq_ok.mpr ⟨_, checkedAdd_eq_ok.mpr ⟨hbina ▸ hfit.binaryFiles, rfl⟩, ?_⟩
    refine bind_eq_ok.mpr
      ⟨_, checkedAdd_eq_ok.mpr ⟨hsubm ▸ hfit.submoduleChanges, rfl⟩, ?_⟩
    exact hday hfit

/-- All commits. -/
theorem foldlM_push_eq_ok {commits : List GitCommitAggregate} {scan : GitScanAccumulator} :
    commits.foldlM push new = .ok scan ↔ SumsFit commits ∧ scan = ofCommits commits := by
  induction commits using List.reverseRecOn generalizing scan with
  | nil =>
    constructor
    · intro h
      cases h
      exact ⟨⟨DayAggregate.fits_zero, Nat.two_pow_pos 64, Nat.two_pow_pos 64⟩, ofCommits_nil.symm⟩
    · rintro ⟨_, rfl⟩
      rw [ofCommits_nil]
      rfl
  | append_singleton commits commit ih =>
    rw [foldlM_append]
    simp only [foldlM_cons, foldlM_nil, bind_pure]
    constructor
    · intro h
      obtain ⟨before, hbef, h⟩ := bind_eq_ok.mp h
      obtain ⟨hfit, rfl⟩ := ih.mp hbef
      exact (push_ofCommits_eq_ok hfit).mp h
    · rintro ⟨hfit, rfl⟩
      have hbef : SumsFit commits := hfit.of_append
      refine bind_eq_ok.mpr ⟨ofCommits commits, ih.mpr ⟨hbef, rfl⟩, ?_⟩
      exact (push_ofCommits_eq_ok hbef).mpr ⟨hfit, rfl⟩

end GitScanAccumulator

/-! ### The finished scan -/

open GitScanAccumulator

/-- The largest days of some commits, in order. -/
def newestDays (commits : List GitCommitAggregate) : List ℤ :=
  let days := (commits.map (·.dayIndex)).toFinset.sort (· ≤ ·)
  days.drop (days.length - maxGitOutputDays)

/-- What a summary says of the commits it was made from. -/
structure Exact (commits : List GitCommitAggregate) (summary : GitScanSummary) : Prop where
  commitCount : summary.totals.commits = commits.length
  mergeCommits : summary.totals.mergeCommits = commits.countP (·.isMerge)
  lines : summary.totals.lines = (commits.map (·.lines)).sum
  binaryFiles : summary.totals.binaryFiles = (commits.map (·.binaryFiles)).sum
  submoduleChanges : summary.totals.submoduleChanges = (commits.map (·.submoduleChanges)).sum
  omitted : summary.totals.omittedCommits = 0 ∧ summary.totals.omittedPaths = 0
  categories : summary.categories = GitOutputCategory.all.map fun category =>
    ⟨category, (commits.map fun commit => commit.categories category).sum⟩
  categories_total : (summary.categories.map (·.lines)).sum = summary.totals.lines
  days : summary.retainedDays.map (fun day =>
      (day.dayIndex, day.commits, day.mergeCommits, day.lines)) =
    (newestDays commits).map fun day => (day, (onDay commits day).length,
      (onDay commits day).countP (·.isMerge), ((onDay commits day).map (·.lines)).sum)
  dayCategories : summary.retainedDayCategories = (newestDays commits).flatMap fun day =>
    GitOutputCategory.all.map fun category =>
      ⟨day, category, ((onDay commits day).map fun commit => commit.categories category).sum⟩
  truncated : summary.dailyHistoryTruncated = true ↔
    maxGitOutputDays < (commits.map (·.dayIndex)).toFinset.card

theorem newest_dayTable (cms : List GitCommitAggregate) :
    newest maxGitOutputDays (dayTable cms) =
      (newestDays cms).map fun day => (day, summed (onDay cms day)) := by
  simp only [newest, dayTable, grouped, newestDays, Newest.keys, length_map, map_drop, sumAt_day]

variable {cms commits' : List GitCommitAggregate}

theorem valid_of_mem_newestDays {day : ℤ} (h : day ∈ newestDays cms) : GitDayValid day := by
  have hmem := mem_of_mem_drop h
  obtain ⟨commit, _, rfl⟩ := mem_map.mp (mem_toFinset.mp ((Finset.mem_sort _).mp hmem))
  exact commit.dayIndex_valid

theorem finishDay_eq_ok (cms : List GitCommitAggregate) {day : ℤ} (hday : GitDayValid day) :
    finishDay (day, summed cms) = .ok
      ⟨day, cms.length, cms.countP (·.isMerge), (cms.map (·.lines)).sum, hday,
        countP_le_length⟩ := by
  have hmerge : (summed cms).mergeCommits ≤ (summed cms).commits := countP_le_length
  unfold finishDay GitOutputDay.new
  rw [dif_pos hday, dif_pos hmerge]
  rfl

theorem finish_ofCommits (cms : List GitCommitAggregate) :
    ∃ summary, (ofCommits cms).finish = .ok summary ∧ Exact cms summary := by
  have hdays : ∀ days : List ℤ, (∀ day ∈ days, GitDayValid day) → ∃ retained,
      (days.map fun day => (day, summed (onDay cms day))).mapM finishDay = .ok retained ∧
      retained.map (fun day => (day.dayIndex, day.commits, day.mergeCommits, day.lines)) =
        days.map fun day => (day, (onDay cms day).length,
          (onDay cms day).countP (·.isMerge), ((onDay cms day).map (·.lines)).sum) := by
    intro days
    induction days with
    | nil => exact fun _ => ⟨[], rfl, rfl⟩
    | cons day days ih =>
      intro hv
      obtain ⟨retained, hreta, hmap⟩ := ih fun d hd => hv d (mem_cons_of_mem _ hd)
      have hday := finishDay_eq_ok (onDay cms day) (hv day (mem_cons_self ..))
      apply Exists.intro
      constructor
      · rw [map_cons, mapM_cons, hday, ok_bind, hreta]
        rfl
      · rw [map_cons, map_cons, hmap]
  obtain ⟨retained, hreta, hmap⟩ := hdays (newestDays cms) fun day => valid_of_mem_newestDays
  have hmerge : (summed cms).mergeCommits ≤ (summed cms).commits := countP_le_length
  have htots : GitOutputTotals.new (summed cms).commits (summed cms).mergeCommits
      (summed cms).lines (cms.map (·.binaryFiles)).sum
      (cms.map (·.submoduleChanges)).sum 0 0 = .ok ⟨_, _, _, _, _, 0, 0, hmerge⟩ := dif_pos hmerge
  apply Exists.intro
  constructor
  · unfold finish ofCommits
    rw [htots, newest_dayTable, hreta]
    rfl
  · refine ⟨rfl, rfl, rfl, rfl, rfl, ⟨rfl, rfl⟩, rfl, ?_, hmap, ?_, ?_⟩
    · exact sum_categories cms
    · simp only [flatMap_map]
      rfl
    · simp only [dayTable, grouped, Newest.keys, length_map, Finset.length_sort, decide_eq_true_iff]

/-! ### Any order of the commits -/

theorem summed_perm (h : cms.Perm commits') : summed cms = summed commits' := by
  rw [← sum_counts, ← sum_counts]
  exact (h.map _).sum_eq

theorem SumsFit.perm (h : cms.Perm commits') (hfit : SumsFit cms) : SumsFit commits' where
  counts := summed_perm h ▸ hfit.counts
  binaryFiles := (h.map (·.binaryFiles)).sum_eq ▸ hfit.binaryFiles
  submoduleChanges := (h.map (·.submoduleChanges)).sum_eq ▸ hfit.submoduleChanges

theorem ofCommits_perm (h : cms.Perm commits') :
    ofCommits cms = ofCommits commits' := by
  unfold ofCommits dayTable
  rw [summed_perm h, (h.map (·.binaryFiles)).sum_eq, (h.map (·.submoduleChanges)).sum_eq,
    grouped_perm h]

theorem scanCommits_eq_ok {summary : GitScanSummary} :
    scanCommits cms = .ok summary ↔ SumsFit cms ∧ (ofCommits cms).finish = .ok summary := by
  constructor
  · intro h
    obtain ⟨scan, hsc, h⟩ := bind_eq_ok.mp h
    obtain ⟨hfit, rfl⟩ := foldlM_push_eq_ok.mp hsc
    exact ⟨hfit, h⟩
  · rintro ⟨hfit, h⟩
    exact bind_eq_ok.mpr ⟨_, foldlM_push_eq_ok.mpr ⟨hfit, rfl⟩, h⟩

/-- A scan whose sums do not overflow finishes, with the exact sums of all commits and of the newest
days, whatever the order of the commits. -/
theorem scan_keeps_newest_days (commits : List GitCommitAggregate) :
    ((∃ summary, scanCommits commits = .ok summary) ↔ SumsFit commits) ∧
      ∀ summary, scanCommits commits = .ok summary →
        Exact commits summary ∧
          ∀ commits', commits.Perm commits' → scanCommits commits' = .ok summary := by
  obtain ⟨finished, hfin, hex⟩ := finish_ofCommits commits
  refine ⟨⟨fun h => ?_, fun h => ?_⟩, fun summary h => ?_⟩
  · obtain ⟨summary, hsumm⟩ := h
    exact (scanCommits_eq_ok.mp hsumm).1
  · exact ⟨finished, scanCommits_eq_ok.mpr ⟨h, hfin⟩⟩
  · obtain ⟨hfit, hfini⟩ := scanCommits_eq_ok.mp h
    obtain rfl : finished = summary := Except.ok.inj (hfin.symm.trans hfini)
    refine ⟨hex, fun commits' hp => ?_⟩
    refine scanCommits_eq_ok.mpr ⟨hfit.perm hp, ?_⟩
    rw [← ofCommits_perm hp]
    exact hfin

end TokenMaster.Git
