import Mathlib.Data.List.Nodup

/-!
# TokenMaster.Lib.Keyed — tables as lists with a key

`Keyed key rows` says that no two rows have the same key.  Inserting a row with a fresh key keeps
it, and so does deleting rows; a row is found by its key.
-/

namespace TokenMaster

open List

universe u v w

variable {α : Type u} {κ : Type v} {key : α → κ} {rows : List α}

/-- The keys of the rows are pairwise different. -/
def Keyed (key : α → κ) (rows : List α) : Prop := (rows.map key).Nodup

namespace Keyed

theorem nil : Keyed key ([] : List α) := nodup_nil

variable (h : Keyed key rows) {rows' : List α} {β : Type w} {key' : β → κ}

include h

theorem eq_of_key {a b : α} (ha : a ∈ rows) (hb : b ∈ rows) (hkey : key a = key b) : a = b := inj_on_of_nodup_map h ha hb hkey

theorem sublist (hsub : List.Sublist rows' rows) : Keyed key rows' :=
  List.Nodup.sublist (hsub.map key) h

theorem filter (p : α → Bool) : Keyed key (rows.filter p) :=
  h.sublist filter_sublist

theorem append (h' : Keyed key rows') (hdis : ∀ a ∈ rows, ∀ b ∈ rows', key a ≠ key b) :
    Keyed key (rows ++ rows') := by
  unfold Keyed
  rw [map_append, nodup_append]
  refine ⟨h, h', ?_⟩
  intro k hk k' hk'
  obtain ⟨a, ha, rfl⟩ := mem_map.mp hk
  obtain ⟨b, hb, rfl⟩ := mem_map.mp hk'
  exact hdis a ha b hb

theorem append_one {b : α} (hfr : ∀ a ∈ rows, key a ≠ key b) : Keyed key (rows ++ [b]) := by
  refine h.append (nodup_singleton _) ?_
  intro a ha c hc
  rw [mem_singleton.mp hc]
  exact hfr a ha

/-- An update that does not touch the keys. -/
theorem map_of_key {f : α → β} (hf : ∀ a, key' (f a) = key a) :
    Keyed key' (rows.map f) := by
  unfold Keyed
  rw [map_map]
  exact (map_congr_left fun a _ => hf a) ▸ h

/-- Another key that determines the first one. -/
theorem of_imp {κ' : Type w} {key' : α → κ'}
    (himp : ∀ a ∈ rows, ∀ b ∈ rows, key' a = key' b → key a = key b) : Keyed key' rows := by
  unfold Keyed List.Nodup at h ⊢
  rw [pairwise_map] at h ⊢
  exact h.imp_of_mem fun ha hb hne heq => hne (himp _ ha _ hb heq)

/-- A partial translation that keeps the keys. -/
theorem filterMap {f : α → Option β} (hf : ∀ a b, f a = some b → key' b = key a) :
    Keyed key' (rows.filterMap f) := by
  induction rows with
  | nil => exact nodup_nil
  | cons a rows ih =>
    obtain ⟨hfr, hrs⟩ := nodup_cons.mp h
    cases hfa : f a with
    | none =>
      rw [filterMap_cons_none hfa]
      exact ih hrs
    | some b =>
      rw [filterMap_cons_some hfa]
      refine nodup_cons.mpr ⟨?_, ih hrs⟩
      intro hmem
      obtain ⟨c, hc, hkey⟩ := mem_map.mp hmem
      obtain ⟨a', ha', hfa'⟩ := mem_filterMap.mp hc
      refine hfr (mem_map.mpr ⟨a', ha', ?_⟩)
      rw [← hf a' c hfa', hkey, hf a b hfa]

theorem find?_eq [DecidableEq κ] {a : α} (ha : a ∈ rows) {k : κ} (hk : key a = k) :
    (rows.find? fun b => key b == k) = some a := by
  subst hk
  cases hf : rows.find? fun b => key b == key a with
  | none => exact absurd (List.find?_eq_none.mp hf a ha) (by simp)
  | some b =>
    have hb : key b = key a := by simpa using List.find?_some hf
    rw [h.eq_of_key (mem_of_find?_eq_some hf) ha hb]

/-- All rows but one. -/
theorem perm_cons_filter [DecidableEq κ] {a : α} (ha : a ∈ rows) :
    rows.Perm (a :: rows.filter fun b => key b ≠ key a) := by
  induction rows with
  | nil => cases ha
  | cons b rows ih =>
    obtain ⟨hfr, hrs⟩ := nodup_cons.mp h
    rcases mem_cons.mp ha with rfl | ha
    · have hall : rows.filter (fun b => key b ≠ key a) = rows := by
        refine filter_eq_self.mpr fun b hb => ?_
        have hne : key b ≠ key a := fun heq => hfr (heq ▸ mem_map_of_mem hb)
        simpa using hne
      rw [filter_cons_of_neg (by simp), hall]
    · have hne : key b ≠ key a := fun heq => hfr (heq ▸ mem_map_of_mem ha)
      rw [filter_cons_of_pos (by simpa using hne)]
      exact ((ih hrs ha).cons b).trans (List.Perm.swap a b _)

end Keyed

end TokenMaster
