import Mathlib.Algebra.Order.BigOperators.Group.List
import Mathlib.Data.List.Basic

/-!
# TokenMaster.Lib.Lines — terminated lines of a list

A line is what stands before a separator.  `linesFrom` gives each line with its offset; what follows
the last separator is no line.
-/

namespace TokenMaster

open List

variable {α : Type} {l p : List α}

/-- The list is empty or ends with a separator. -/
def Terminated (sep : α) (l : List α) : Prop := ∀ a, l.getLast? = some a → a = sep

variable {sep : α}

theorem terminated_nil : Terminated sep [] := by
  intro a h
  cases h

theorem terminated_concat (l : List α) : Terminated sep (l ++ [sep]) := by
  intro a h
  rw [List.getLast?_concat] at h
  exact (Option.some.inj h).symm

theorem Terminated.of_cons {a b : α} (h : Terminated sep (a :: b :: l)) :
    Terminated sep (b :: l) := by
  intro c hc
  refine h c ?_
  exact hc

variable [DecidableEq α]

/-- The lines of a list, where `acc` is what was read since offset `start`. -/
def linesFrom (sep : α) : ℕ → List α → List α → List (ℕ × List α)
  | _, _, [] => []
  | start, acc, a :: l =>
    if a = sep then (start, acc) :: linesFrom sep (start + acc.length + 1) [] l
    else linesFrom sep start (acc ++ [a]) l

theorem linesFrom_append_of_notMem (hp : sep ∉ p) (start : ℕ) (acc l : List α) :
    linesFrom sep start acc (p ++ l) = linesFrom sep start (acc ++ p) l := by
  induction p generalizing acc with
  | nil => rw [nil_append, append_nil]
  | cons a p ih =>
    rw [mem_cons, not_or] at hp
    obtain ⟨hne, hp⟩ := hp
    rw [cons_append, linesFrom, if_neg (Ne.symm hne), ih hp, append_assoc]
    rfl

theorem linesFrom_of_notMem (hp : sep ∉ p) (start : ℕ) (acc : List α) :
    linesFrom sep start acc p = [] := by
  have h := linesFrom_append_of_notMem hp start acc []
  rwa [append_nil] at h

/-- After a terminated part the lines start anew. -/
theorem linesFrom_append (start : ℕ) (acc : List α) (hl : Terminated sep l)
    (hacc : l = [] → acc = []) (rest : List α) :
    linesFrom sep start acc (l ++ rest) =
      linesFrom sep start acc l ++ linesFrom sep (start + acc.length + l.length) [] rest := by
  induction l generalizing start acc with
  | nil =>
    rw [hacc rfl]
    rfl
  | cons a l ih =>
    rw [cons_append, linesFrom, linesFrom]
    by_cases ha : a = sep
    · rw [if_pos ha, if_pos ha, cons_append]
      have htl : Terminated sep l := by
        cases l with
        | nil => exact terminated_nil
        | cons b l => exact hl.of_cons
      rw [ih _ [] htl (fun _ => rfl)]
      simp only [length_cons, length_nil]
      congr 3
      omega
    · rw [if_neg ha, if_neg ha]
      cases l with
      | nil => exact absurd (hl a rfl) ha
      | cons b l =>
        rw [ih _ _ hl.of_cons (fun h => by cases h)]
        simp only [length_append, length_cons, length_nil]
        congr 2
        omega

/-- One more line. -/
theorem linesFrom_concat (hl : Terminated sep l) (hp : sep ∉ p) :
    linesFrom sep 0 [] (l ++ p ++ [sep]) = linesFrom sep 0 [] l ++ [(l.length, p)] := by
  rw [append_assoc, linesFrom_append 0 [] hl (fun _ => rfl), linesFrom_append_of_notMem hp]
  simp [linesFrom]

/-- An unterminated rest is no line. -/
theorem linesFrom_append_tail (hl : Terminated sep l) (hp : sep ∉ p) :
    linesFrom sep 0 [] (l ++ p) = linesFrom sep 0 [] l := by
  rw [linesFrom_append 0 [] hl (fun _ => rfl), linesFrom_of_notMem hp, append_nil]

end TokenMaster
