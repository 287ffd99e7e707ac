import Mathlib.Order.Lattice
import Mathlib.Order.Defs.LinearOrder
import Mathlib.Data.List.Basic

/-!
# TokenMaster.Lib.FirstMax — the first element of greatest value

A list is read once and one element is held: an element replaces the held one when its value is
strictly greater.  Elements without a value are passed over.
-/

namespace TokenMaster

open List

variable {α β : Type} [LinearOrder β] {value : α → Option β} {l : List α} {best : Option α}

/-- The first of the elements of `l` with the greatest value; `none` when no element has a value. -/
def IsFirstMax (value : α → Option β) (l : List α) : Option α → Prop
  | none => ∀ x ∈ l, value x = none
  | some m => ∃ v a b, value m = some v ∧ l = a ++ m :: b ∧
      (∀ x ∈ a, ∀ w ∈ value x, w < v) ∧ ∀ x ∈ b, ∀ w ∈ value x, w ≤ v

/-- The element held after `x`. -/
def holdMax (value : α → Option β) (best : Option α) (x : α) : Option α :=
  match value x, best.bind value with
  | none, _ => best
  | some _, none => some x
  | some w, some v => if v < w then some x else best

theorem isFirstMax_nil : IsFirstMax value [] none := fun _ h => absurd h not_mem_nil

theorem IsFirstMax.mem {m : α} (h : IsFirstMax value l (some m)) : m ∈ l := by
  obtain ⟨_, a, b, _, rfl, _⟩ := h
  simp

theorem IsFirstMax.concat (h : IsFirstMax value l best) (x : α) :
    IsFirstMax value (l ++ [x]) (holdMax value best x) := by
  cases hx : value x with
  | none =>
    rw [holdMax, hx]
    cases best with
    | none =>
      intro y hy
      rcases mem_append.mp hy with hy | hy
      · exact h y hy
      · rw [mem_singleton.mp hy, hx]
    | some m =>
      obtain ⟨v, a, b, hv, rfl, hbef, haft⟩ := h
      refine ⟨v, a, b ++ [x], hv, by simp, hbef, ?_⟩
      intro y hy w hw
      rcases mem_append.mp hy with hy | hy
      · exact haft y hy w hw
      · rw [mem_singleton.mp hy, hx] at hw
        cases hw
  | some w =>
    cases best with
    | none =>
      rw [holdMax, hx]
      refine ⟨w, l, [], hx, rfl, fun y hy u hu => ?_, fun y hy => absurd hy not_mem_nil⟩
      rw [h y hy] at hu
      cases hu
    | some m =>
      obtain ⟨v, a, b, hv, rfl, hbef, haft⟩ := h
      rw [holdMax, hx, Option.bind_some, hv]
      dsimp only
      by_cases hlt : v < w
      · rw [if_pos hlt]
        refine ⟨w, a ++ m :: b, [], hx, rfl, ?_, fun y hy => absurd hy not_mem_nil⟩
        intro y hy u hu
        rcases mem_append.mp hy with hy | hy
        · exact lt_trans (hbef y hy u hu) hlt
        · rcases mem_cons.mp hy with rfl | hy
          · rw [hv] at hu
            exact Option.some.inj hu ▸ hlt
          · exact lt_of_le_of_lt (haft y hy u hu) hlt
      · rw [if_neg hlt]
        refine ⟨v, a, b ++ [x], hv, by simp, hbef, ?_⟩
        intro y hy u hu
        rcases mem_append.mp hy with hy | hy
        · exact haft y hy u hu
        · rw [mem_singleton.mp hy, hx] at hu
          exact Option.some.inj hu ▸ not_lt.mp hlt

end TokenMaster
