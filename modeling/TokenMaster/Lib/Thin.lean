import Mathlib.Data.List.Nodup

/-!
# TokenMaster.Lib.Thin — searches in a thinned list

A search in a sublist gives what it gives in the whole list when the elements that the search is
looking for were all kept.
-/

namespace TokenMaster.Thin

universe u

variable {α : Type u} {thin full : List α} {p : α → Bool}

theorem any_eq (hsub : thin ⊆ full) (hkp : ∀ a ∈ full, p a = true → a ∈ thin) :
    thin.any p = full.any p := by
  rw [Bool.eq_iff_iff]
  simp only [List.any_eq_true]
  constructor
  · rintro ⟨a, ha, hp⟩
    exact ⟨a, hsub ha, hp⟩
  · rintro ⟨a, ha, hp⟩
    exact ⟨a, hkp a ha hp, hp⟩

/-- The first match is the same one when the whole list has at most one. -/
theorem find?_eq (hsub : thin ⊆ full) (hkp : ∀ a ∈ full, p a = true → a ∈ thin)
    (huniq : ∀ a ∈ full, ∀ b ∈ full, p a = true → p b = true → a = b) :
    thin.find? p = full.find? p := by
  cases hfu : full.find? p with
  | none =>
    rw [List.find?_eq_none] at hfu ⊢
    exact fun a ha => hfu a (hsub ha)
  | some a =>
    have hp := List.find?_some hfu
    have ha := List.mem_of_find?_eq_some hfu
    cases hthin : thin.find? p with
    | none => exact absurd hp (List.find?_eq_none.mp hthin a (hkp a ha hp))
    | some b =>
      rw [huniq b (hsub (List.mem_of_find?_eq_some hthin)) a ha (List.find?_some hthin) hp]

/-- Filtering out the one element with a given key shortens a list by one. -/
theorem length_filter_ne {β : Type u} [DecidableEq β] {key : α → β} {l : List α}
    (hnd : (l.map key).Nodup) {a : α} (ha : a ∈ l) :
    (l.filter fun b => !(key b == key a)).length + 1 = l.length := by
  induction l with
  | nil => simp at ha
  | cons b l ih =>
    rw [List.map_cons, List.nodup_cons] at hnd
    by_cases hb : key b = key a
    · have hrs : (l.filter fun c => !(key c == key a)) = l := by
        rw [List.filter_eq_self]
        intro c hc
        have hne : key c ≠ key a := fun h => hnd.1 (hb ▸ h ▸ List.mem_map_of_mem hc)
        simpa using hne
      simp [hb, hrs]
    · have hmem : a ∈ l := by
        rcases List.mem_cons.mp ha with h | h
        · exact absurd (congrArg key h.symm) hb
        · exact h
      have := ih hnd.2 hmem
      simp [hb, this]

end TokenMaster.Thin
