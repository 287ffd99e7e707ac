import Mathlib.Algebra.BigOperators.Group.List.Basic
import Mathlib.Data.Fintype.Pi
import TokenMaster.Lib.Except

/-!
# TokenMaster.Domain.GitOutput — line counts, days and totals of a Git projection

`crates/domain/src/git_output.rs`.  Counters are natural numbers; the `u64` bound of a checked
addition is explicit.
-/

namespace TokenMaster.Domain

open TokenMaster.Except

def maxGitOutputDays : ℕ := 400
def minGitDayIndex : ℤ := -719162
def maxGitDayIndex : ℤ := 2932896

inductive GitOutputError where
  | capacityExceeded (limit : ℕ)
  | incoherentState
  | invalidOrdering
  | invalidTime
  | overflow

inductive GitOutputCategory where
  | productCode
  | test
  | docsSpec
  | configBuild
  | schemaMigration
  | vendorGenerated
  | asset
  | other
  deriving DecidableEq

namespace GitOutputCategory

/-- `all_categories`; the arrays of the source are indexed by the position in it. -/
def all : List GitOutputCategory :=
  [.productCode, .test, .docsSpec, .configBuild, .schemaMigration, .vendorGenerated, .asset, .other]

theorem mem_all (cat : GitOutputCategory) : cat ∈ all := by
  cases cat <;> decide

theorem nodup_all : all.Nodup := by decide

instance : Fintype GitOutputCategory := ⟨⟨all, nodup_all⟩, mem_all⟩

end GitOutputCategory

/-! ### Line counts -/

@[ext] structure GitLineMetrics where
  added : ℕ
  removed : ℕ
  deriving DecidableEq

namespace GitLineMetrics

instance : Zero GitLineMetrics := ⟨⟨0, 0⟩⟩
instance : Add GitLineMetrics := ⟨fun a b => ⟨a.added + b.added, a.removed + b.removed⟩⟩

instance : AddCommMonoid GitLineMetrics where
  add_assoc _ _ _ := GitLineMetrics.ext (Nat.add_assoc ..) (Nat.add_assoc ..)
  add_comm _ _ := GitLineMetrics.ext (Nat.add_comm ..) (Nat.add_comm ..)
  zero_add _ := GitLineMetrics.ext (Nat.zero_add _) (Nat.zero_add _)
  add_zero _ := GitLineMetrics.ext (Nat.add_zero _) (Nat.add_zero _)
  nsmul := nsmulRec

/-- Both counters are `u64`s. -/
structure Fits (lines : GitLineMetrics) : Prop where
  added : lines.added < 2 ^ 64
  removed : lines.removed < 2 ^ 64

instance (lines : GitLineMetrics) : Decidable lines.Fits :=
  decidable_of_iff (lines.added < 2 ^ 64 ∧ lines.removed < 2 ^ 64)
    ⟨fun h => ⟨h.1, h.2⟩, fun h => ⟨h.added, h.removed⟩⟩

theorem fits_zero : (0 : GitLineMetrics).Fits := by decide

theorem Fits.of_add {a b : GitLineMetrics} (h : (a + b).Fits) : a.Fits :=
  ⟨lt_of_le_of_lt (Nat.le_add_right ..) h.added, lt_of_le_of_lt (Nat.le_add_right ..) h.removed⟩

/-- `checked_add`. -/
def checkedAdd (a b : GitLineMetrics) : Except GitOutputError GitLineMetrics := do
  Except.require .overflow (a.added + b.added < 2 ^ 64)
  Except.require .overflow (a.removed + b.removed < 2 ^ 64)
  return ⟨a.added + b.added, a.removed + b.removed⟩

theorem checkedAdd_eq_ok {a b sum : GitLineMetrics} :
    checkedAdd a b = .ok sum ↔ (a + b).Fits ∧ sum = a + b := by
  constructor
  · intro h
    obtain ⟨hadd, h⟩ := require_bind.mp h
    obtain ⟨hrem, h⟩ := require_bind.mp h
    cases h
    exact ⟨⟨hadd, hrem⟩, rfl⟩
  · rintro ⟨hfit, rfl⟩
    refine require_bind.mpr ⟨hfit.added, ?_⟩
    exact require_bind.mpr ⟨hfit.removed, rfl⟩

end GitLineMetrics

/-! ### Days and totals -/

/-- A day that `GitOutputDay::new` accepts. -/
def GitDayValid (dayIndex : ℤ) : Prop := minGitDayIndex ≤ dayIndex ∧ dayIndex ≤ maxGitDayIndex

instance (dayIndex : ℤ) : Decidable (GitDayValid dayIndex) := inferInstanceAs (Decidable (_ ∧ _))

structure GitOutputDay where
  dayIndex : ℤ
  commits : ℕ
  mergeCommits : ℕ
  lines : GitLineMetrics
  dayIndex_valid : GitDayValid dayIndex
  mergeCommits_le : mergeCommits ≤ commits

def GitOutputDay.new (dayIndex : ℤ) (commits mergeCommits : ℕ) (lines : GitLineMetrics) :
    Except GitOutputError GitOutputDay :=
  if hday : GitDayValid dayIndex then
    if hmerge : mergeCommits ≤ commits then
      .ok ⟨dayIndex, commits, mergeCommits, lines, hday, hmerge⟩
    else .error .incoherentState
  else .error .invalidTime

structure GitOutputTotals where
  commits : ℕ
  mergeCommits : ℕ
  lines : GitLineMetrics
  binaryFiles : ℕ
  submoduleChanges : ℕ
  omittedCommits : ℕ
  omittedPaths : ℕ
  mergeCommits_le : mergeCommits ≤ commits

def GitOutputTotals.new (commits mergeCommits : ℕ) (lines : GitLineMetrics)
    (binaryFiles submoduleChanges omittedCommits omittedPaths : ℕ) :
    Except GitOutputError GitOutputTotals :=
  if hmerge : mergeCommits ≤ commits then
    .ok ⟨commits, mergeCommits, lines, binaryFiles, submoduleChanges, omittedCommits, omittedPaths,
      hmerge⟩
  else .error .incoherentState

@[ext] structure GitOutputCategoryMetrics where
  category : GitOutputCategory
  lines : GitLineMetrics

end TokenMaster.Domain
