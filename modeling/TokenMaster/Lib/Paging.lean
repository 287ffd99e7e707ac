import Mathlib.Data.List.MinMax
import Mathlib.Data.List.Sort
import TokenMaster.Lib.Keyed

/-!
# TokenMaster.Lib.Paging — reading a table in pages by key

A page is what `WHERE key > cursor ORDER BY key LIMIT n` returns, and the next cursor is its greatest
key.  Reading page after page covers every row exactly once.
-/

namespace TokenMaster.Paging

open List

variable {α κ : Type} [LinearOrder κ] (key : α → κ)

/-- `?1 IS NULL OR key > ?1`. -/
def Beyond : Option κ → κ → Prop
  | none, _ => True
  | some cursor, k => cursor < k

instance (cursor : Option κ) (k : κ) : Decidable (Beyond cursor k) :=
  match cursor with
  | none => inferInstanceAs (Decidable True)
  | some cursor => inferInstanceAs (Decidable (cursor < k))

/-- The rows that a cursor has left to read. -/
def remaining (cursor : Option κ) (rows : List α) : List α :=
  rows.filter fun row => Beyond cursor (key row)

/-- The rows up to a cursor. -/
def upTo (cursor : Option κ) (rows : List α) : List α :=
  rows.filter fun row => ¬ Beyond cursor (key row)

def page (cursor : Option κ) (limit : ℕ) (rows : List α) : List α :=
  ((remaining key cursor rows).insertionSort fun a b => key a ≤ key b).take limit

/-- `max(key)` of a page. -/
def lastKey (page : List α) : Option κ := (page.map key).maximum

variable {key}

@[simp] theorem upTo_none (rows : List α) : upTo key none rows = [] := by
  simp [upTo, Beyond]

theorem perm_upTo_remaining (cursor : Option κ) (rows : List α) :
    rows.Perm (upTo key cursor rows ++ remaining key cursor rows) := by
  have hspl := filter_append_perm (fun row => decide (¬ Beyond cursor (key row))) rows
  refine hspl.symm.trans ?_
  unfold upTo remaining
  simp

/-- The rows of a page, and those behind it. -/
theorem remaining_perm_page (cursor : Option κ) (limit : ℕ) (rows : List α) :
    ∃ behind, (remaining key cursor rows).Perm (page key cursor limit rows ++ behind) ∧
      (∀ a ∈ page key cursor limit rows, ∀ b ∈ behind, key a ≤ key b) ∧
      ((page key cursor limit rows).length < limit → behind = []) := by
  refine ⟨((remaining key cursor rows).insertionSort fun a b => key a ≤ key b).drop limit, ?_, ?_, ?_⟩
  · unfold page
    rw [take_append_drop]
    exact (perm_insertionSort ..).symm
  · have hso : ((remaining key cursor rows).insertionSort fun a b => key a ≤ key b).Pairwise
        fun a b => key a ≤ key b := by
      exact pairwise_insertionSort _ _
    rw [← take_append_drop limit ((remaining key cursor rows).insertionSort _)] at hso
    intro a ha b hb
    exact (pairwise_append.mp hso).2.2 a ha b hb
  · intro hlen
    unfold page at hlen
    rw [length_take] at hlen
    exact drop_eq_nil_of_le (by omega)

variable {cursor : Option κ} {limit : ℕ} {rows : List α}

theorem mem_page {a : α} (h : a ∈ page key cursor limit rows) :
    a ∈ rows ∧ Beyond cursor (key a) := by
  have hmem := mem_of_mem_take h
  simpa [remaining] using hmem

/-- A page that is not full is all that was left. -/
theorem perm_of_last_page (hl : (page key cursor limit rows).length < limit) :
    rows.Perm (upTo key cursor rows ++ page key cursor limit rows) := by
  obtain ⟨behind, hp, _, hnil⟩ := remaining_perm_page cursor limit rows
  rw [hnil hl, append_nil] at hp
  exact (perm_upTo_remaining cursor rows).trans (hp.append_left _)

/-- The greatest key of a page is the cursor behind it. -/
theorem upTo_lastKey (hkd : Keyed key rows) {k : κ}
    (hl : lastKey key (page key cursor limit rows) = some k) :
    (upTo key (some k) rows).Perm (upTo key cursor rows ++ page key cursor limit rows) := by
  obtain ⟨behind, hp, hbehind, _⟩ := remaining_perm_page cursor limit rows
  obtain ⟨hmem, hmax⟩ := maximum_eq_coe_iff.mp hl
  obtain ⟨greatest, hgrea, rfl⟩ := mem_map.mp hmem
  have hall : rows.Perm (upTo key cursor rows ++ page key cursor limit rows ++ behind) := by
    rw [append_assoc]
    exact (perm_upTo_remaining cursor rows).trans (hp.append_left _)
  have hspl := hall.filter fun row => ¬ Beyond (some (key greatest)) (key row)
  rw [filter_append, filter_append] at hspl
  have hdn : (upTo key cursor rows).filter (fun row => ¬ Beyond (some (key greatest)) (key row)) =
      upTo key cursor rows := by
    refine filter_eq_self.mpr fun row hrow => ?_
    have hnot : ¬ Beyond cursor (key row) := by simpa using (mem_filter.mp hrow).2
    have hbeyond := (mem_page hgrea).2
    cases cursor with
    | none => exact absurd trivial hnot
    | some c =>
      have hle : key row ≤ c := not_lt.mp hnot
      have hlt : c < key greatest := hbeyond
      simpa [Beyond] using hle.trans hlt.le
  have hpg : (page key cursor limit rows).filter
      (fun row => ¬ Beyond (some (key greatest)) (key row)) = page key cursor limit rows := by
    refine filter_eq_self.mpr fun row hrow => ?_
    simpa [Beyond] using hmax (key row) (mem_map_of_mem hrow)
  have hrs : behind.filter (fun row => ¬ Beyond (some (key greatest)) (key row)) = [] := by
    refine filter_eq_nil_iff.mpr fun row hrow => ?_
    have hle := hbehind greatest hgrea row hrow
    -- the keys are unique, so a row behind the page is not the last of the page
    have hne : key greatest ≠ key row := by
      have hnd : ((upTo key cursor rows ++ page key cursor limit rows ++ behind).map key).Nodup :=
        (hall.map key).nodup_iff.mp hkd
      rw [map_append, nodup_append] at hnd
      refine hnd.2.2 _ (mem_map_of_mem (mem_append_right _ hgrea)) _
        (mem_map_of_mem hrow)
    simpa [Beyond] using lt_of_le_of_ne hle hne
  rw [hdn, hpg, hrs, append_nil] at hspl
  exact hspl

end TokenMaster.Paging
