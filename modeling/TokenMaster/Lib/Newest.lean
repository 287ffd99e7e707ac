import Mathlib.Algebra.BigOperators.Group.List.Basic
import Mathlib.Data.Finset.Sort

/-!
# TokenMaster.Lib.Newest — the newest keys of a table of sums

A table is a list of rows in strictly increasing order of their keys.  `put` writes the row of a key.
Items are summed by key into the table `grouped`; a bounded table keeps the last rows of it.  What is
kept can be maintained item by item, since a key below the kept rows never comes back.
-/

namespace TokenMaster.Newest

open List

variable {κ V : Type} {row : κ × V}

/-! ### The last rows -/

/-- The rows of the newest keys. -/
def newest (limit : ℕ) (rows : List (κ × V)) : List (κ × V) := rows.drop (rows.length - limit)

variable {rows kept older : List (κ × V)}

theorem newest_of_le {limit : ℕ} (h : rows.length ≤ limit) : newest limit rows = rows := by
  rw [newest, Nat.sub_eq_zero_of_le h, drop_zero]

theorem newest_append {limit : ℕ} (older : List (κ × V)) (h : kept.length = limit) :
    newest limit (older ++ kept) = kept := by
  rw [newest, length_append, h, Nat.add_sub_cancel, drop_left]

/-- A full table is what was dropped followed by what is kept. -/
theorem exists_older (limit : ℕ) (rows : List (κ × V)) :
    ∃ older, rows = older ++ newest limit rows :=
  ⟨rows.take (rows.length - limit), (take_append_drop ..).symm⟩

variable [LinearOrder κ]

/-! ### Ordered tables -/

def Ordered (rows : List (κ × V)) : Prop := rows.Pairwise fun a b => a.1 < b.1

def lookup : List (κ × V) → κ → Option V
  | [], _ => none
  | row :: rows, k => if row.1 = k then some row.2 else lookup rows k

/-- Writes the row of a key in its place. -/
def put : List (κ × V) → κ → V → List (κ × V)
  | [], k, v => [(k, v)]
  | row :: rows, k, v =>
    if k < row.1 then (k, v) :: row :: rows
    else if row.1 = k then (k, v) :: rows
    else row :: put rows k v

variable {k : κ}

theorem lookup_eq_none_iff : lookup rows k = none ↔ ∀ row ∈ rows, row.1 ≠ k := by
  induction rows with
  | nil => simp [lookup]
  | cons row rows ih =>
    by_cases hkey : row.1 = k
    · simp [lookup, hkey]
    · simp [lookup, hkey, ih]

variable {v : V}

theorem mem_of_lookup (h : lookup rows k = some v) : (k, v) ∈ rows := by
  induction rows with
  | nil => cases h
  | cons row rows ih =>
    by_cases hkey : row.1 = k
    · rw [lookup, if_pos hkey] at h
      cases h
      rw [← hkey]
      exact mem_cons_self ..
    · rw [lookup, if_neg hkey] at h
      exact mem_cons_of_mem _ (ih h)

theorem lookup_of_mem (h : Ordered rows) (hrow : row ∈ rows) :
    lookup rows row.1 = some row.2 := by
  induction rows with
  | nil => cases hrow
  | cons first rows ih =>
    obtain ⟨hf, hrs⟩ := pairwise_cons.mp h
    rcases mem_cons.mp hrow with rfl | hrow
    · rw [lookup, if_pos rfl]
    · rw [lookup, if_neg (hf row hrow).ne]
      exact ih hrs hrow

/-- Ordered tables with the same cells are the same. -/
theorem Ordered.ext {a b : List (κ × V)} (ha : Ordered a) (hb : Ordered b)
    (h : ∀ k, lookup a k = lookup b k) : a = b := by
  have hnd : ∀ {l : List (κ × V)}, Ordered l → l.Nodup := by
    intro l hl
    refine hl.imp fun {x y} hlt => ?_
    rintro rfl
    exact lt_irrefl _ hlt
  have hmem : ∀ row, row ∈ a ↔ row ∈ b := by
    intro row
    constructor
    · intro hrow
      have hc := lookup_of_mem ha hrow
      rw [h] at hc
      exact mem_of_lookup hc
    · intro hrow
      have hc := lookup_of_mem hb hrow
      rw [← h] at hc
      exact mem_of_lookup hc
  refine List.Perm.eq_of_pairwise (fun x y _ _ hxy hyx => absurd hxy hyx.asymm) ha hb ?_
  exact (perm_ext_iff_of_nodup (hnd ha) (hnd hb)).mpr hmem

theorem mem_put (h : row ∈ put rows k v) : row = (k, v) ∨ row ∈ rows := by
  induction rows with
  | nil => exact .inl (mem_singleton.mp h)
  | cons first rows ih =>
    rw [put] at h
    by_cases hlt : k < first.1
    · rw [if_pos hlt] at h
      exact mem_cons.mp h
    · rw [if_neg hlt] at h
      by_cases hkey : first.1 = k
      · rw [if_pos hkey] at h
        rcases mem_cons.mp h with rfl | h
        · exact .inl rfl
        · exact .inr (mem_cons_of_mem _ h)
      · rw [if_neg hkey] at h
        rcases mem_cons.mp h with rfl | h
        · exact .inr (mem_cons_self ..)
        · exact (ih h).imp_right (mem_cons_of_mem _)

theorem ordered_put (h : Ordered rows) (k : κ) (v : V) : Ordered (put rows k v) := by
  induction rows with
  | nil => exact pairwise_singleton ..
  | cons first rows ih =>
    obtain ⟨hf, hrs⟩ := pairwise_cons.mp h
    rw [put]
    by_cases hlt : k < first.1
    · rw [if_pos hlt]
      refine pairwise_cons.mpr ⟨fun row hrow => ?_, h⟩
      rcases mem_cons.mp hrow with rfl | hrow
      · exact hlt
      · exact hlt.trans (hf row hrow)
    · rw [if_neg hlt]
      by_cases hkey : first.1 = k
      · rw [if_pos hkey]
        exact pairwise_cons.mpr ⟨fun row hrow => hkey ▸ hf row hrow, hrs⟩
      · rw [if_neg hkey]
        refine pairwise_cons.mpr ⟨fun row hrow => ?_, ih hrs⟩
        rcases mem_put hrow with rfl | hrow
        · exact lt_of_le_of_ne (not_lt.mp hlt) hkey
        · exact hf row hrow

theorem lookup_put (rows : List (κ × V)) (k : κ) (v : V) (key : κ) :
    lookup (put rows k v) key = if key = k then some v else lookup rows key := by
  induction rows with
  | nil => simp only [put, lookup, eq_comm]
  | cons first rows ih =>
    rw [put]
    by_cases hlt : k < first.1
    · rw [if_pos hlt, lookup]
      simp only [eq_comm]
    · rw [if_neg hlt]
      by_cases hkey : first.1 = k
      · rw [if_pos hkey, lookup, lookup]
        by_cases hk : key = k
        · rw [if_pos hk.symm, if_pos hk]
        · rw [if_neg (Ne.symm hk), if_neg hk, if_neg (hkey ▸ Ne.symm hk)]
      · rw [if_neg hkey, lookup, lookup, ih]
        by_cases hf : first.1 = key
        · rw [if_pos hf, if_pos hf, if_neg (hf ▸ hkey)]
        · rw [if_neg hf, if_neg hf]

theorem length_put (h : Ordered rows) (k : κ) (v : V) :
    (put rows k v).length = if lookup rows k = none then rows.length + 1 else rows.length := by
  induction rows with
  | nil => rfl
  | cons first rows ih =>
    obtain ⟨hf, hrs⟩ := pairwise_cons.mp h
    rw [put]
    by_cases hlt : k < first.1
    · have hnone : lookup (first :: rows) k = none := by
        refine lookup_eq_none_iff.mpr fun row hrow => ?_
        rcases mem_cons.mp hrow with rfl | hrow
        · exact hlt.ne'
        · exact (hlt.trans (hf row hrow)).ne'
      rw [if_pos hlt, if_pos hnone]
      rfl
    · rw [if_neg hlt, lookup]
      by_cases hkey : first.1 = k
      · simp [hkey]
      · rw [if_neg hkey, if_neg hkey, length_cons, ih hrs]
        split_ifs <;> rfl

/-- A key below a block is written in front of it. -/
theorem put_append_of_lt (h : ∀ row ∈ kept, k < row.1) :
    put (older ++ kept) k v = put older k v ++ kept := by
  induction older with
  | nil =>
    cases kept with
    | nil => rfl
    | cons first kept =>
      show put (first :: kept) k v = (k, v) :: first :: kept
      rw [put, if_pos (h first (mem_cons_self ..))]
  | cons first older ih =>
    rw [cons_append, put, put]
    split_ifs
    · rfl
    · rfl
    · rw [ih, cons_append]

/-- A key above a block is written behind it. -/
theorem put_append_of_gt (h : ∀ row ∈ older, row.1 < k) :
    put (older ++ kept) k v = older ++ put kept k v := by
  induction older with
  | nil => rfl
  | cons first older ih =>
    have hf := h first (mem_cons_self ..)
    rw [cons_append, put, if_neg hf.asymm, if_neg hf.ne,
      ih fun row hrow => h row (mem_cons_of_mem _ hrow)]
    rfl

/-! ### Writing into the last rows -/

theorem lt_of_older (h : Ordered (older ++ kept)) :
    ∀ a ∈ older, ∀ b ∈ kept, a.1 < b.1 := (pairwise_append.mp h).2.2

section Put

variable {limit : ℕ} {rows : List (κ × V)} {k : κ}

/-- A key that is kept, or for which there is room, is written into the kept rows. -/
theorem newest_put_of_room (hrows : Ordered rows)
    (h : lookup (newest limit rows) k ≠ none ∨ (newest limit rows).length ≠ limit) :
    lookup rows k = lookup (newest limit rows) k ∧
      ∀ v, newest limit (put rows k v) = put (newest limit rows) k v ∧
        (limit < (put rows k v).length ↔ limit < rows.length) := by
  obtain ⟨older, hol⟩ := exists_older limit rows
  by_cases hrm : rows.length < limit
  · have hall : newest limit rows = rows := newest_of_le hrm.le
    rw [hall]
    refine ⟨rfl, fun v => ?_⟩
    have hlength : (put rows k v).length ≤ limit := by
      rw [length_put hrows]
      split_ifs <;> omega
    exact ⟨newest_of_le hlength, by omega⟩
  · have hfull : (newest limit rows).length = limit := by
      rw [newest, length_drop]
      omega
    have hso := h.resolve_right (not_not.mpr hfull)
    obtain ⟨w, hw⟩ := Option.ne_none_iff_exists'.mp hso
    have hlt : ∀ row ∈ older, row.1 < k := by
      intro row hrow
      rw [hol] at hrows
      exact lt_of_older hrows row hrow _ (mem_of_lookup hw)
    have hlookup : lookup rows k = some w := by
      have hmem : (k, w) ∈ rows := by
        rw [hol]
        exact mem_append_right _ (mem_of_lookup hw)
      exact lookup_of_mem hrows hmem
    refine ⟨hlookup.trans hw.symm, fun v => ?_⟩
    have hkept : Ordered (newest limit rows) := hrows.sublist (drop_sublist ..)
    have hlength : (put (newest limit rows) k v).length = limit := by
      rw [length_put hkept, if_neg hso, hfull]
    constructor
    · conv_lhs => rw [hol, put_append_of_gt hlt]
      exact newest_append _ hlength
    · rw [length_put hrows, hlookup, if_neg (by simp)]

section Full

variable {first : κ × V} {rest : List (κ × V)} (hrows : Ordered rows)
  (hkept : newest limit rows = first :: rest) (hfull : (newest limit rows).length = limit)
  (hnone : lookup (newest limit rows) k = none)
include hrows hkept hfull hnone

/-- A key below full kept rows is dropped. -/
theorem newest_put_of_older (hlt : k ≤ first.1) (v : V) :
    newest limit (put rows k v) = newest limit rows ∧ limit < (put rows k v).length := by
  obtain ⟨older, hol⟩ := exists_older limit rows
  have hne : first.1 ≠ k := by
    refine lookup_eq_none_iff.mp hnone first ?_
    rw [hkept]
    exact mem_cons_self ..
  have hbelow : ∀ row ∈ newest limit rows, k < row.1 := by
    have hord : Ordered (newest limit rows) := hrows.sublist (drop_sublist ..)
    rw [hkept] at hord ⊢
    intro row hrow
    have hf : k < first.1 := lt_of_le_of_ne hlt hne.symm
    rcases mem_cons.mp hrow with rfl | hrow
    · exact hf
    · exact hf.trans ((pairwise_cons.mp hord).1 row hrow)
  have hput : put rows k v = put older k v ++ newest limit rows := by
    conv_lhs => rw [hol]
    exact put_append_of_lt hbelow
  rw [hput]
  refine ⟨newest_append _ hfull, ?_⟩
  have hpos : 0 < (put older k v).length := by
    cases older with
    | nil => exact Nat.one_pos
    | cons row older =>
      rw [put]
      split_ifs <;> exact Nat.succ_pos _
  rw [length_append]
  omega

/-- A key above the oldest of full kept rows takes its place. -/
theorem newest_put_of_newer (hlt : first.1 < k) :
    lookup rows k = none ∧
      ∀ v, newest limit (put rows k v) = put rest k v ∧ limit < (put rows k v).length := by
  obtain ⟨older, hol⟩ := exists_older limit rows
  rw [hkept] at hol hfull hnone
  have hord := hrows
  rw [hol] at hord
  have hbelow : ∀ row ∈ older ++ [first], row.1 < k := by
    intro row hrow
    rcases mem_append.mp hrow with hrow | hrow
    · exact (lt_of_older hord row hrow first (mem_cons_self ..)).trans hlt
    · rw [mem_singleton.mp hrow]
      exact hlt
  have hnew : lookup rows k = none := by
    refine lookup_eq_none_iff.mpr fun row hrow => ?_
    rw [hol] at hrow
    rcases mem_append.mp hrow with hrow | hrow
    · exact (hbelow row (mem_append_left _ hrow)).ne
    · exact lookup_eq_none_iff.mp hnone row hrow
  refine ⟨hnew, fun v => ?_⟩
  have hrs : Ordered rest := by
    have hright := (pairwise_append.mp hord).2.1
    exact (pairwise_cons.mp hright).2
  have hlength : (put rest k v).length = limit := by
    have hrsN : lookup rest k = none := by
      refine lookup_eq_none_iff.mpr fun row hrow => ?_
      exact lookup_eq_none_iff.mp hnone row (mem_cons_of_mem _ hrow)
    rw [length_put hrs, if_pos hrsN, ← hfull]
    rfl
  have hput : put rows k v = (older ++ [first]) ++ put rest k v := by
    have hspl : rows = (older ++ [first]) ++ rest := by
      rw [hol]
      simp
    rw [hspl]
    exact put_append_of_gt hbelow
  rw [hput]
  refine ⟨newest_append _ hlength, ?_⟩
  simp only [length_append, length_singleton]
  omega

end Full

end Put

/-! ### Sums by key -/

section Sums

variable [AddCommMonoid V] {E : Type} (key : E → κ) (value : E → V)

/-- The keys of some items, in order. -/
def keys (items : List E) : List κ := (items.map key).toFinset.sort (· ≤ ·)

/-- The sum of the values at a key. -/
def sumAt (items : List E) (k : κ) : V := ((items.filter fun item => key item = k).map value).sum

/-- The sums of some items by key. -/
def grouped (items : List E) : List (κ × V) :=
  (keys key items).map fun k => (k, sumAt key value items k)

variable {key value}

variable {items items' : List E}

theorem mem_keys {k : κ} : k ∈ keys key items ↔ ∃ item ∈ items, key item = k := by
  simp [keys]

theorem keys_perm (h : items.Perm items') : keys key items = keys key items' := by
  have hset : (items.map key).toFinset = (items'.map key).toFinset :=
    toFinset_eq_of_perm _ _ (h.map key)
  rw [keys, hset, keys]

theorem grouped_perm (h : items.Perm items') :
    grouped key value items = grouped key value items' := by
  unfold grouped
  rw [keys_perm h]
  exact map_congr_left fun k _ => Prod.ext rfl ((h.filter _).map value).sum_eq

theorem ordered_grouped (items : List E) : Ordered (grouped key value items) := by
  refine pairwise_map.mpr ?_
  exact (Finset.sortedLT_sort (items.map key).toFinset).pairwise

theorem lookup_grouped (items : List E) (k : κ) :
    lookup (grouped key value items) k =
      if k ∈ keys key items then some (sumAt key value items k) else none := by
  by_cases hk : k ∈ keys key items
  · rw [if_pos hk]
    exact lookup_of_mem (ordered_grouped items) (mem_map_of_mem hk)
  · rw [if_neg hk]
    refine lookup_eq_none_iff.mpr fun row hrow hkey => ?_
    obtain ⟨k', hk', rfl⟩ := mem_map.mp hrow
    exact hk (hkey ▸ hk')

theorem sumAt_of_lookup_none {k : κ} (h : lookup (grouped key value items) k = none) :
    sumAt key value items k = 0 := by
  rw [lookup_grouped] at h
  have hk : k ∉ keys key items := by
    intro hk
    rw [if_pos hk] at h
    cases h
  have hfilter : (items.filter fun item => key item = k) = [] := by
    refine filter_eq_nil_iff.mpr fun item hit hkey => ?_
    exact hk (mem_keys.mpr ⟨item, hit, of_decide_eq_true hkey⟩)
  rw [sumAt, hfilter]
  rfl

theorem getD_lookup_grouped (items : List E) (k : κ) :
    (lookup (grouped key value items) k).getD 0 = sumAt key value items k := by
  cases h : lookup (grouped key value items) k with
  | none => exact (sumAt_of_lookup_none h).symm
  | some v =>
    rw [lookup_grouped] at h
    split_ifs at h
    cases h
    rfl

/-- One more item changes the row of its key. -/
theorem grouped_append (items : List E) (item : E) :
    grouped key value (items ++ [item]) =
      put (grouped key value items) (key item)
        (sumAt key value items (key item) + value item) := by
  refine (ordered_grouped _).ext (ordered_put (ordered_grouped _) ..) fun k => ?_
  rw [lookup_put, lookup_grouped, lookup_grouped]
  have hks : k ∈ keys key (items ++ [item]) ↔ k ∈ keys key items ∨ key item = k := by
    simp [mem_keys, or_and_right, exists_or]
  by_cases hk : k = key item
  · subst hk
    rw [if_pos (hks.mpr (.inr rfl)), if_pos rfl]
    simp [sumAt, filter_append]
  · have hsum : sumAt key value (items ++ [item]) k = sumAt key value items k := by
      simp [sumAt, filter_append, Ne.symm hk]
    rw [if_neg hk, hsum]
    simp only [hks, Ne.symm hk, or_false]

end Sums

end TokenMaster.Newest
