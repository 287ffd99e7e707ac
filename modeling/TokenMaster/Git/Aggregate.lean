import Mathlib.Algebra.Group.Pi.Basic
import TokenMaster.Domain.GitOutput
import TokenMaster.Lib.Bytes
import TokenMaster.Lib.Newest

/-!
# TokenMaster.Git.Aggregate — commits and the days of a scan

`crates/git/src/aggregate.rs`.  Path statistics of a commit are summed by category; a scan sums its
commits and keeps the newest days in a `BTreeMap`, here a table in the order of its keys.
-/

namespace TokenMaster.Git

open TokenMaster.Domain TokenMaster.Except

inductive GitCoreError where
  | capacityExceeded (limit : ℕ)
  | duplicateValue
  | invalidAuthor
  | invalidLimit
  | invalidObjectId
  | invalidPath
  | invalidProtocol
  | invalidRef
  | invalidTimestamp
  | incompleteProtocol
  | incoherentState
  | overflow
  | protocolMismatch
  deriving DecidableEq

def maxParentCount : ℕ := 64
def maxGitPathsPerCommit : ℕ := 4096

abbrev CategoryLines : Type := GitOutputCategory → GitLineMetrics

/-! ### Checked additions -/

/-- `checked_add` on `u64`. -/
def checkedAdd (a b : ℕ) : Except GitCoreError ℕ := do
  Except.require .overflow (a + b < 2 ^ 64)
  return a + b

def checkedAddLines (a b : GitLineMetrics) : Except GitCoreError GitLineMetrics :=
  (a.checkedAdd b).mapError fun _ => .overflow

/-- The loop that adds one array of categories to another. -/
def checkedAddCategories (a b : CategoryLines) : Except GitCoreError CategoryLines :=
  GitOutputCategory.all.foldlM (fun sums category => do
    let sum ← checkedAddLines (sums category) (b category)
    return Function.update sums category sum) a

theorem checkedAdd_eq_ok {a b sum : ℕ} :
    checkedAdd a b = .ok sum ↔ a + b < 2 ^ 64 ∧ sum = a + b := by
  unfold checkedAdd
  constructor
  · intro h
    obtain ⟨_, hlt, h⟩ := bind_eq_ok.mp h
    cases h
    exact ⟨require_eq_ok.mp hlt, rfl⟩
  · rintro ⟨hlt, rfl⟩
    rw [require_pos hlt]
    rfl

theorem checkedAddLines_eq_ok {a b sum : GitLineMetrics} :
    checkedAddLines a b = .ok sum ↔ (a + b).Fits ∧ sum = a + b :=
  mapError_eq_ok.trans GitLineMetrics.checkedAdd_eq_ok

theorem checkedAddCategories_eq_ok {a b sums : CategoryLines} :
    checkedAddCategories a b = .ok sums ↔ (∀ category, ((a + b) category).Fits) ∧ sums = a + b := by
  -- the loop over the remaining categories adds there and leaves the others
  have hlp : ∀ (l : List GitOutputCategory) (a : CategoryLines), l.Nodup →
      (l.foldlM (fun sums category => do
        let sum ← checkedAddLines (sums category) (b category)
        return Function.update sums category sum) a = .ok sums ↔
        (∀ category ∈ l, (a category + b category).Fits) ∧
          sums = fun category => if category ∈ l then a category + b category else a category) := by
    intro l
    induction l with
    | nil =>
      intro a _
      constructor
      · intro h
        cases h
        exact ⟨by simp, by simp⟩
      · rintro ⟨_, rfl⟩
        simp [pure, Except.pure]
    | cons first l ih =>
      intro a hnd
      obtain ⟨hf, hnd⟩ := List.nodup_cons.mp hnd
      have hoth : ∀ category ∈ l,
          Function.update a first (a first + b first) category = a category := by
        intro category hcat
        have hne : category ≠ first := by
          rintro rfl
          exact hf hcat
        exact Function.update_of_ne hne ..
      have hss : (fun category => if category ∈ l then
            Function.update a first (a first + b first) category + b category
          else Function.update a first (a first + b first) category) =
          fun category => if category ∈ first :: l then a category + b category else a category := by
        funext category
        by_cases hmem : category ∈ l
        · simp [hmem, hoth category hmem]
        · by_cases heq : category = first
          · subst heq
            simp [hmem]
          · simp [hmem, heq]
      constructor
      · intro h
        obtain ⟨next, hnx, h⟩ := bind_eq_ok.mp h
        obtain ⟨sum, hsum, hnx⟩ := bind_eq_ok.mp hnx
        cases hnx
        obtain ⟨hfit, rfl⟩ := checkedAddLines_eq_ok.mp hsum
        obtain ⟨hrs, hres⟩ := (ih _ hnd).mp h
        refine ⟨fun category hcat => ?_, hres.trans hss⟩
        rcases List.mem_cons.mp hcat with rfl | hcat
        · exact hfit
        · rw [← hoth category hcat]
          exact hrs category hcat
      · rintro ⟨hfit, hres⟩
        refine bind_eq_ok.mpr ⟨Function.update a first (a first + b first), ?_, ?_⟩
        · have hsum := checkedAddLines_eq_ok.mpr ⟨hfit first (List.mem_cons_self ..), rfl⟩
          exact bind_eq_ok.mpr ⟨_, hsum, rfl⟩
        · refine (ih _ hnd).mpr ⟨fun category hcat => ?_, hres.trans hss.symm⟩
          rw [hoth category hcat]
          exact hfit category (List.mem_cons_of_mem _ hcat)
  unfold checkedAddCategories
  rw [hlp _ a GitOutputCategory.nodup_all]
  simp only [GitOutputCategory.mem_all, if_true, true_implies]
  rfl

/-! ### One commit -/

inductive GitPathStatKind where
  | text (lines : GitLineMetrics)
  | binary
  | submodule
  deriving DecidableEq

structure GitPathStat where
  category : GitOutputCategory
  kind : GitPathStatKind

/-- A commit that `GitCommitAccumulator::finish` returns. -/
structure GitCommitAggregate where
  fingerprint : Bytes
  dayIndex : ℤ
  parentCount : ℕ
  lines : GitLineMetrics
  categories : CategoryLines
  binaryFiles : ℕ
  submoduleChanges : ℕ
  changedPaths : ℕ
  dayIndex_valid : GitDayValid dayIndex
  lines_eq : lines = (GitOutputCategory.all.map categories).sum

def GitCommitAggregate.isMerge (commit : GitCommitAggregate) : Bool := commit.parentCount > 1

structure GitCommitAccumulator where
  fingerprint : Bytes
  dayIndex : ℤ
  parentCount : ℕ
  categories : CategoryLines
  binaryFiles : ℕ
  submoduleChanges : ℕ
  changedPaths : ℕ
  dayIndex_valid : GitDayValid dayIndex

namespace GitCommitAccumulator

def new (fingerprint : Bytes) (dayIndex : ℤ) (parentCount : ℕ) :
    Except GitCoreError GitCommitAccumulator := do
  let day ← (GitOutputDay.new dayIndex 0 0 0).mapError fun _ => .invalidTimestamp
  Except.require (.capacityExceeded maxParentCount) (parentCount ≤ maxParentCount)
  return {
    fingerprint := fingerprint
    dayIndex := day.dayIndex
    parentCount := parentCount
    categories := 0
    binaryFiles := 0
    submoduleChanges := 0
    changedPaths := 0
    dayIndex_valid := day.dayIndex_valid }

def record (commit : GitCommitAccumulator) (stat : GitPathStat) :
    Except GitCoreError GitCommitAccumulator := do
  Except.require .incoherentState (commit.parentCount ≤ 1)
  Except.require (.capacityExceeded maxGitPathsPerCommit)
    (commit.changedPaths ≠ maxGitPathsPerCommit)
  let changedPaths ← checkedAdd commit.changedPaths 1
  match stat.kind with
  | .text lines =>
    let sum ← checkedAddLines (commit.categories stat.category) lines
    return { commit with
      changedPaths := changedPaths
      categories := Function.update commit.categories stat.category sum }
  | .binary =>
    let binaryFiles ← checkedAdd commit.binaryFiles 1
    return { commit with changedPaths := changedPaths, binaryFiles := binaryFiles }
  | .submodule =>
    let submoduleChanges ← checkedAdd commit.submoduleChanges 1
    return { commit with changedPaths := changedPaths, submoduleChanges := submoduleChanges }

/-- The loop of `finish`. -/
def sumLines (categories : CategoryLines) : Except GitCoreError GitLineMetrics :=
  GitOutputCategory.all.foldlM (fun lines category => checkedAddLines lines (categories category)) 0

theorem sumLines_eq {categories : CategoryLines} {lines : GitLineMetrics}
    (h : sumLines categories = .ok lines) : lines = (GitOutputCategory.all.map categories).sum := by
  have hlp : ∀ (l : List GitOutputCategory) (start : GitLineMetrics),
      l.foldlM (fun lines cat => checkedAddLines lines (categories cat)) start =
        .ok lines → lines = start + (l.map categories).sum := by
    intro l
    induction l with
    | nil =>
      intro start h
      cases h
      simp
    | cons cat l ih =>
      intro start h
      obtain ⟨sum, hsum, h⟩ := bind_eq_ok.mp h
      rw [ih sum h, (checkedAddLines_eq_ok.mp hsum).2, List.map_cons, List.sum_cons, add_assoc]
  rw [hlp _ _ h, zero_add]

def finish (commit : GitCommitAccumulator) : Except GitCoreError GitCommitAggregate :=
  match h : sumLines commit.categories with
  | .error error => .error error
  | .ok lines => .ok {
      fingerprint := commit.fingerprint
      dayIndex := commit.dayIndex
      parentCount := commit.parentCount
      lines := lines
      categories := commit.categories
      binaryFiles := commit.binaryFiles
      submoduleChanges := commit.submoduleChanges
      changedPaths := commit.changedPaths
      dayIndex_valid := commit.dayIndex_valid
      lines_eq := sumLines_eq h }

end GitCommitAccumulator

/-! ### Days -/

@[ext] structure DayAggregate where
  commits : ℕ
  mergeCommits : ℕ
  lines : GitLineMetrics
  categories : CategoryLines

namespace DayAggregate

instance : Zero DayAggregate := ⟨⟨0, 0, 0, 0⟩⟩
instance : Add DayAggregate := ⟨fun a b =>
  ⟨a.commits + b.commits, a.mergeCommits + b.mergeCommits, a.lines + b.lines,
    a.categories + b.categories⟩⟩

@[simp] theorem zero_commits : (0 : DayAggregate).commits = 0 := rfl
@[simp] theorem zero_mergeCommits : (0 : DayAggregate).mergeCommits = 0 := rfl
@[simp] theorem zero_lines : (0 : DayAggregate).lines = 0 := rfl
@[simp] theorem zero_categories : (0 : DayAggregate).categories = 0 := rfl

section Add

variable (a b : DayAggregate)

@[simp] theorem add_commits : (a + b).commits = a.commits + b.commits := rfl
@[simp] theorem add_mergeCommits : (a + b).mergeCommits = a.mergeCommits + b.mergeCommits := rfl
@[simp] theorem add_lines : (a + b).lines = a.lines + b.lines := rfl
@[simp] theorem add_categories : (a + b).categories = a.categories + b.categories := rfl

end Add

instance : AddCommMonoid DayAggregate where
  add_assoc _ _ _ := DayAggregate.ext (add_assoc ..) (add_assoc ..) (add_assoc ..) (add_assoc ..)
  add_comm _ _ := DayAggregate.ext (add_comm ..) (add_comm ..) (add_comm ..) (add_comm ..)
  zero_add _ := DayAggregate.ext (zero_add _) (zero_add _) (zero_add _) (zero_add _)
  add_zero _ := DayAggregate.ext (add_zero _) (add_zero _) (add_zero _) (add_zero _)
  nsmul := nsmulRec

/-- Every counter is a `u64`. -/
structure Fits (day : DayAggregate) : Prop where
  commits : day.commits < 2 ^ 64
  mergeCommits : day.mergeCommits < 2 ^ 64
  lines : day.lines.Fits
  categories : ∀ category, (day.categories category).Fits

theorem fits_zero : (0 : DayAggregate).Fits where
  commits := Nat.two_pow_pos 64
  mergeCommits := Nat.two_pow_pos 64
  lines := GitLineMetrics.fits_zero
  categories _ := GitLineMetrics.fits_zero

theorem Fits.of_add {a b : DayAggregate} (h : (a + b).Fits) : a.Fits where
  commits := lt_of_le_of_lt (Nat.le_add_right ..) h.commits
  mergeCommits := lt_of_le_of_lt (Nat.le_add_right ..) h.mergeCommits
  lines := h.lines.of_add
  categories category := (h.categories category).of_add

/-- The statements that `push` and `record_day` share. -/
def record (day : DayAggregate) (commit : GitCommitAggregate) : Except GitCoreError DayAggregate := do
  let commits ← checkedAdd day.commits 1
  let mergeCommits ←
    (if commit.isMerge then checkedAdd day.mergeCommits 1 else pure day.mergeCommits)
  let lines ← checkedAddLines day.lines commit.lines
  let categories ← checkedAddCategories day.categories commit.categories
  return ⟨commits, mergeCommits, lines, categories⟩

end DayAggregate

/-- What one commit adds to its day. -/
def GitCommitAggregate.counts (commit : GitCommitAggregate) : DayAggregate where
  commits := 1
  mergeCommits := if commit.isMerge then 1 else 0
  lines := commit.lines
  categories := commit.categories

theorem DayAggregate.record_eq_ok {day day' : DayAggregate} {cm : GitCommitAggregate}
    (hday : day.Fits) :
    day.record cm = .ok day' ↔ (day + cm.counts).Fits ∧ day' = day + cm.counts := by
  constructor
  · intro h
    obtain ⟨cms, hcomm, h⟩ := bind_eq_ok.mp h
    obtain ⟨merges, hmerges, h⟩ := bind_eq_ok.mp h
    obtain ⟨lines, hls, h⟩ := bind_eq_ok.mp h
    obtain ⟨categories, hcate, h⟩ := bind_eq_ok.mp h
    cases h
    obtain ⟨hcommF, rfl⟩ := checkedAdd_eq_ok.mp hcomm
    obtain ⟨hlsF, rfl⟩ := checkedAddLines_eq_ok.mp hls
    obtain ⟨hcateF, rfl⟩ := checkedAddCategories_eq_ok.mp hcate
    have hmerge : merges = day.mergeCommits + cm.counts.mergeCommits ∧ merges < 2 ^ 64 := by
      unfold GitCommitAggregate.counts
      by_cases hm : cm.isMerge
      · rw [if_pos hm] at hmerges ⊢
        obtain ⟨hlt, rfl⟩ := checkedAdd_eq_ok.mp hmerges
        exact ⟨rfl, hlt⟩
      · rw [if_neg hm] at hmerges ⊢
        cases hmerges
        exact ⟨rfl, hday.mergeCommits⟩
    obtain ⟨rfl, hmerge⟩ := hmerge
    exact ⟨⟨hcommF, hmerge, hlsF, hcateF⟩, rfl⟩
  · rintro ⟨hfit, rfl⟩
    refine bind_eq_ok.mpr ⟨_, checkedAdd_eq_ok.mpr ⟨hfit.commits, rfl⟩, ?_⟩
    refine bind_eq_ok.mpr ⟨day.mergeCommits + cm.counts.mergeCommits, ?_, ?_⟩
    · have hmerge := hfit.mergeCommits
      unfold GitCommitAggregate.counts at hmerge ⊢
      by_cases hm : cm.isMerge
      · rw [if_pos hm]
        rw [DayAggregate.add_mergeCommits, if_pos hm] at hmerge
        rw [if_pos hm]
        exact checkedAdd_eq_ok.mpr ⟨hmerge, rfl⟩
      · rw [if_neg hm, if_neg hm]
        rfl
    refine bind_eq_ok.mpr ⟨_, checkedAddLines_eq_ok.mpr ⟨hfit.lines, rfl⟩, ?_⟩
    refine bind_eq_ok.mpr ⟨_, checkedAddCategories_eq_ok.mpr ⟨hfit.categories, rfl⟩, ?_⟩
    rfl

end TokenMaster.Git
