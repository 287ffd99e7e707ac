import Mathlib.Algebra.BigOperators.Group.Finset.Basic
import Mathlib.Algebra.BigOperators.Group.List.Basic
import Mathlib.Algebra.Group.Pi.Basic
import Mathlib.Algebra.Group.WithOne.Defs
import Mathlib.Algebra.Order.Group.Int
import Mathlib.Data.List.Dedup
import TokenMaster.Lib.Except
import TokenMaster.Lib.Keyed

/-!
# TokenMaster.Lib.Rollup — tables of sums by key

An item counts in the rows of some keys, with a value for each.  The rollup of a list of items is, for
each key, the sum of the values that count there; a key without an item has no row, so cells live in
`WithZero V`.  A table of rows holds such cells: `upsert` adds to one, `retract` takes out what one
item has put in.
-/

namespace TokenMaster.Rollup

open TokenMaster.Except List

variable {κ V : Type} [DecidableEq κ] {v : V} {row : κ × V}

/-! ### Cells of a table -/

/-- The cell of a key. -/
def get : List (κ × V) → κ → WithZero V
  | [], _ => 0
  | row :: rows, k => if row.1 = k then (row.2 : WithZero V) else get rows k

theorem get_eq_zero_iff {rows : List (κ × V)} {k : κ} :
    get rows k = 0 ↔ ∀ row ∈ rows, row.1 ≠ k := by
  induction rows with
  | nil => simp [get]
  | cons row rows ih =>
    by_cases hkey : row.1 = k
    · simp [get, hkey]
    · simp [get, hkey, ih]

theorem mem_of_get {rows : List (κ × V)} {k : κ} (h : get rows k = v) : (k, v) ∈ rows := by
  induction rows with
  | nil => simp [get] at h
  | cons row rows ih =>
    by_cases hkey : row.1 = k
    · rw [get, if_pos hkey] at h
      have hval := WithZero.coe_injective h
      rw [← hkey, ← hval]
      exact mem_cons_self ..
    · rw [get, if_neg hkey] at h
      exact mem_cons_of_mem _ (ih h)

/-- With unique keys the cell of a row is its value. -/
theorem get_eq_coe_iff {rows : List (κ × V)} (hkd : Keyed Prod.fst rows) {k : κ} :
    get rows k = v ↔ (k, v) ∈ rows := by
  constructor
  · exact mem_of_get
  · intro hmem
    cases hc : get rows k with
    | zero => exact absurd rfl (get_eq_zero_iff.mp hc _ hmem)
    | coe v' =>
      have hsm := hkd.eq_of_key (mem_of_get hc) hmem rfl
      rw [(Prod.mk.inj hsm).2]

/-! ### Adding to cells -/

section Upsert

variable [AddCommSemigroup V]

/-- `INSERT … ON CONFLICT(key) DO UPDATE` with sums. -/
def upsert : List (κ × V) → κ → V → List (κ × V)
  | [], k, v => [(k, v)]
  | row :: rows, k, v =>
    if row.1 = k then (row.1, row.2 + v) :: rows else row :: upsert rows k v

theorem get_upsert (rows : List (κ × V)) (k : κ) (v : V) :
    get (upsert rows k v) = get rows + Pi.single k (v : WithZero V) := by
  funext k'
  rw [Pi.add_apply]
  induction rows with
  | nil =>
    by_cases hkey : k = k'
    · subst hkey
      simp [upsert, get]
    · simp [upsert, get, hkey]
  | cons row rows ih =>
    by_cases hrow : row.1 = k
    · by_cases hkey : k = k'
      · subst hkey
        simp [upsert, get, hrow]
      · simp [upsert, get, hrow, hkey]
    · by_cases hkey : row.1 = k'
      · have hne : k' ≠ k := fun h => hrow (hkey.trans h)
        rw [upsert, if_neg hrow, get, if_pos hkey, get, if_pos hkey, Pi.single_eq_of_ne hne, add_zero]
      · rw [upsert, if_neg hrow, get, if_neg hkey, get, if_neg hkey, ih]

variable {rows rows' new : List (κ × V)}

theorem mem_upsert {k : κ} (h : row ∈ upsert rows k v) :
    row ∈ rows ∨ row.1 = k := by
  induction rows with
  | nil =>
    right
    rw [mem_singleton.mp h]
  | cons row' rows ih =>
    by_cases hkey : row'.1 = k
    · rw [upsert, if_pos hkey] at h
      rcases mem_cons.mp h with rfl | h
      · exact .inr hkey
      · exact .inl (mem_cons_of_mem _ h)
    · rw [upsert, if_neg hkey] at h
      rcases mem_cons.mp h with rfl | h
      · exact .inl (mem_cons_self ..)
      · rcases ih h with h | h
        · exact .inl (mem_cons_of_mem _ h)
        · exact .inr h

theorem keyed_upsert (h : Keyed Prod.fst rows) (k : κ) (v : V) :
    Keyed Prod.fst (upsert rows k v) := by
  induction rows with
  | nil => exact nodup_singleton _
  | cons row rows ih =>
    unfold Keyed at h ih ⊢
    rw [map_cons, nodup_cons] at h
    by_cases hkey : row.1 = k
    · rw [upsert, if_pos hkey, map_cons, nodup_cons]
      exact h
    · rw [upsert, if_neg hkey, map_cons, nodup_cons]
      refine ⟨?_, ih h.2⟩
      intro hmem
      obtain ⟨row', hrow', hsm⟩ := mem_map.mp hmem
      rcases mem_upsert hrow' with hold | hnew
      · exact h.1 (mem_map.mpr ⟨row', hold, hsm⟩)
      · exact hkey (hsm.symm.trans hnew)

/-! ### Rows that are checked -/

variable {ε : Type} (refused : ε) (check : κ → V → Prop) [∀ k v, Decidable (check k v)]

/-- The proposed row is checked, and so is the row that it is added to. -/
def checkedUpsert (rows : List (κ × V)) (row : κ × V) : Except ε (List (κ × V)) := do
  Except.require refused (check row.1 row.2)
  Except.require refused (∀ old ∈ rows, old.1 = row.1 → check row.1 (old.2 + row.2))
  .ok (upsert rows row.1 row.2)

def insertRows (rows new : List (κ × V)) : Except ε (List (κ × V)) :=
  new.foldlM (checkedUpsert refused check) rows

/-- What some rows add to the cells. -/
def added : List (κ × V) → κ → WithZero V
  | [] => 0
  | row :: rows => Pi.single row.1 (row.2 : WithZero V) + added rows

variable {refused check}

theorem checkedUpsert_ok (h : checkedUpsert refused check rows row = .ok rows') :
    rows' = upsert rows row.1 row.2 := by
  obtain ⟨_, _, h⟩ := bind_eq_ok.mp h
  obtain ⟨_, _, h⟩ := bind_eq_ok.mp h
  exact (Except.ok.inj h).symm

/-- What is inserted is added to the cells, and only the keys that are inserted appear. -/
theorem insertRows_ok (hkd : Keyed Prod.fst rows)
    (h : insertRows refused check rows new = .ok rows') :
    get rows' = get rows + added new ∧ Keyed Prod.fst rows' ∧
      ∀ row ∈ rows', row ∈ rows ∨ ∃ row' ∈ new, row.1 = row'.1 := by
  induction new generalizing rows with
  | nil =>
    obtain rfl := Except.ok.inj h
    refine ⟨(add_zero _).symm, hkd, fun row hrow => .inl hrow⟩
  | cons row new ih =>
    obtain ⟨between, hrow, h⟩ := bind_eq_ok.mp h
    obtain rfl := checkedUpsert_ok hrow
    obtain ⟨hget, hkd', hrs⟩ := ih (keyed_upsert hkd _ _) h
    refine ⟨?_, hkd', ?_⟩
    · rw [hget, get_upsert, added, add_assoc]
    · intro row' hrow'
      rcases hrs row' hrow' with hbetw | ⟨other, hoth, hsm⟩
      · rcases mem_upsert hbetw with hold | hsm
        · exact .inl hold
        · exact .inr ⟨row, mem_cons_self .., hsm⟩
      · exact .inr ⟨other, mem_cons_of_mem _ hoth, hsm⟩

/-- The rows of a table pass the check. -/
def Checked (check : κ → V → Prop) (rows : List (κ × V)) : Prop := ∀ row ∈ rows, check row.1 row.2

omit [∀ k v, Decidable (check k v)] in
theorem upsert_checked {k : κ} (hrs : Checked check rows) (hv : check k v)
    (hsum : ∀ old ∈ rows, old.1 = k → check k (old.2 + v)) : Checked check (upsert rows k v) := by
  induction rows with
  | nil =>
    intro row hrow
    rw [mem_singleton.mp hrow]
    exact hv
  | cons row rows ih =>
    have hhd := hrs row (mem_cons_self ..)
    have htl : Checked check rows := fun row' hrow' => hrs row' (mem_cons_of_mem _ hrow')
    intro row' hrow'
    by_cases hkey : row.1 = k
    · rw [upsert, if_pos hkey] at hrow'
      rcases mem_cons.mp hrow' with rfl | hrow'
      · subst hkey
        exact hsum row (mem_cons_self ..) rfl
      · exact htl row' hrow'
    · rw [upsert, if_neg hkey] at hrow'
      rcases mem_cons.mp hrow' with rfl | hrow'
      · exact hhd
      · exact ih htl (fun old hold => hsum old (mem_cons_of_mem _ hold)) row' hrow'

theorem insertRows_checked (hrs : Checked check rows)
    (h : insertRows refused check rows new = .ok rows') : Checked check rows' := by
  refine foldlM_keeps h hrs ?_
  intro row _ before after hbef hst
  obtain ⟨hrow, hst⟩ := require_bind.mp hst
  obtain ⟨hsum, hst⟩ := require_bind.mp hst
  obtain rfl := Except.ok.inj hst
  exact upsert_checked hbef hrow hsum

/-- Rows with different keys are inserted if each of them and each sum passes the check. -/
theorem insertRows_total (hkd : Keyed Prod.fst rows) (hnew : Keyed Prod.fst new)
    (hck : ∀ row ∈ new, check row.1 row.2 ∧ ∀ v : V, get rows row.1 = v → check row.1 (v + row.2)) :
    ∃ rows', insertRows refused check rows new = .ok rows' := by
  induction new generalizing rows with
  | nil => exact ⟨rows, rfl⟩
  | cons row new ih =>
    obtain ⟨hrow, hsum⟩ := hck row (mem_cons_self ..)
    have hst : checkedUpsert refused check rows row = .ok (upsert rows row.1 row.2) := by
      refine require_bind.mpr ⟨hrow, ?_⟩
      refine require_bind.mpr ⟨?_, rfl⟩
      intro old hold hsm
      refine hsum old.2 ((get_eq_coe_iff hkd).mpr ?_)
      rw [← hsm]
      exact hold
    unfold Keyed at hnew
    rw [map_cons, nodup_cons] at hnew
    obtain ⟨rows', hrs'⟩ := @ih (upsert rows row.1 row.2) (keyed_upsert hkd _ _) hnew.2 (by
      intro row' hrow'
      have hne : row'.1 ≠ row.1 := fun h => hnew.1 (h ▸ mem_map_of_mem hrow')
      obtain ⟨hown, hsum'⟩ := hck row' (mem_cons_of_mem _ hrow')
      refine ⟨hown, fun v hv => hsum' v ?_⟩
      rw [get_upsert, Pi.add_apply, Pi.single_eq_of_ne hne, add_zero] at hv
      exact hv)
    exact ⟨rows', bind_eq_ok.mpr ⟨_, hst, hrs'⟩⟩

/-- With different keys each row adds to its own cell. -/
theorem added_eq (hnew : Keyed Prod.fst new) : added new = get new := by
  induction new with
  | nil =>
    rfl
  | cons row new ih =>
    unfold Keyed at hnew ih
    rw [map_cons, nodup_cons] at hnew
    funext k
    rw [added, ih hnew.2, Pi.add_apply, get]
    by_cases hkey : row.1 = k
    · subst hkey
      have hno : get new row.1 = 0 := by
        refine get_eq_zero_iff.mpr fun row' hrow' hsm => ?_
        exact hnew.1 (hsm ▸ mem_map_of_mem hrow')
      rw [if_pos rfl, Pi.single_eq_same, hno, add_zero]
    · rw [if_neg hkey, Pi.single_eq_of_ne (Ne.symm hkey), zero_add]

end Upsert

/-! ### Updates -/

section Update

variable {ε : Type} (refused : ε) (check : κ → V → Prop) [∀ k v, Decidable (check k v)]

/-- `UPDATE` of the rows for which `f` gives a value. -/
def updateRows (f : κ → V → Option V) (rows : List (κ × V)) : Except ε (List (κ × V)) := do
  Except.require refused (∀ row ∈ rows, ∀ v ∈ f row.1 row.2, check row.1 v)
  .ok (rows.map fun row => (row.1, (f row.1 row.2).getD row.2))

variable {refused check}

omit [DecidableEq κ] in
theorem updateRows_ok {f : κ → V → Option V} {rows rows' : List (κ × V)}
    (h : updateRows refused check f rows = .ok rows') :
    rows' = rows.map (fun row => (row.1, (f row.1 row.2).getD row.2)) ∧
      (Checked check rows → Checked check rows') := by
  obtain ⟨_, hck, h⟩ := bind_eq_ok.mp h
  have hck := require_eq_ok.mp hck
  obtain rfl := Except.ok.inj h
  refine ⟨rfl, fun hrs row hrow => ?_⟩
  obtain ⟨old, hold, rfl⟩ := mem_map.mp hrow
  cases hf : f old.1 old.2 with
  | none => exact hrs old hold
  | some v => exact hck old hold v hf

omit [DecidableEq κ] in
theorem updateRows_total {f : κ → V → Option V} {rows : List (κ × V)}
    (hck : ∀ row ∈ rows, ∀ v ∈ f row.1 row.2, check row.1 v) :
    updateRows refused check f rows =
      .ok (rows.map fun row => (row.1, (f row.1 row.2).getD row.2)) :=
  require_bind.mpr ⟨hck, rfl⟩

/-- The cells after a change of the values. -/
theorem get_map (f : κ → V → V) (rows : List (κ × V)) (k : κ) :
    (get rows k = 0 → get (rows.map fun row => (row.1, f row.1 row.2)) k = 0) ∧
      ∀ v : V, get rows k = v → get (rows.map fun row => (row.1, f row.1 row.2)) k = f k v := by
  induction rows with
  | nil =>
    refine ⟨fun h => h, fun v hv => absurd hv.symm WithZero.coe_ne_zero⟩
  | cons row rows ih =>
    by_cases hkey : row.1 = k
    · subst hkey
      simp only [map_cons, get, if_true]
      refine ⟨fun h => absurd h WithZero.coe_ne_zero, fun v hv => ?_⟩
      rw [WithZero.coe_injective hv]
    · simp only [map_cons, get, if_neg hkey]
      exact ih

end Update

/-! ### Taking out -/

section Retract

variable (count : V → ℤ) (sub : V → V → V)

/-- How many rows have one of these keys. -/
def present (rows : List (κ × V)) (keys : List κ) : ℕ :=
  (rows.filter fun row => row.1 ∈ keys).length

/-- `DELETE … WHERE event_count = 1` on the rows of some keys. -/
def removeSingles (rows : List (κ × V)) (keys : List κ) : List (κ × V) :=
  rows.filter fun row => ¬ (row.1 ∈ keys ∧ count row.2 = 1)

/-- `UPDATE … WHERE event_count > 1` on the rows of some keys. -/
def decrement (rows : List (κ × V)) (keys : List κ) (value : κ → V) : List (κ × V) :=
  rows.map fun row =>
    if row.1 ∈ keys ∧ 1 < count row.2 then (row.1, sub row.2 (value row.1)) else row

def retract (rows : List (κ × V)) (keys : List κ) (value : κ → V) : List (κ × V) :=
  decrement count sub (removeSingles count rows keys) keys value

variable {count sub}

variable {rows : List (κ × V)} {keys : List κ}

/-- All of some keys have a row. -/
theorem present_eq_length (hkd : Keyed Prod.fst rows) (hnd : keys.Nodup)
    (hpres : ∀ k ∈ keys, get rows k ≠ 0) : present rows keys = keys.length := by
  have hp : ((rows.filter fun row => row.1 ∈ keys).map Prod.fst).Perm keys := by
    refine (perm_ext_iff_of_nodup (hkd.filter _) hnd).mpr fun k => ?_
    constructor
    · intro hk
      obtain ⟨row, hrow, rfl⟩ := mem_map.mp hk
      simpa using (mem_filter.mp hrow).2
    · intro hk
      obtain ⟨v, hv⟩ := WithZero.ne_zero_iff_exists.mp (hpres k hk)
      refine mem_map.mpr ⟨(k, v), mem_filter.mpr ⟨mem_of_get hv.symm, ?_⟩, rfl⟩
      simpa using hk
  rw [← hp.length_eq, length_map, present]

theorem keyed_retract (h : Keyed Prod.fst rows) (keys : List κ) (value : κ → V) :
    Keyed Prod.fst (retract count sub rows keys value) := by
  refine (h.filter _).map_of_key fun row => ?_
  by_cases hrow : row.1 ∈ keys ∧ 1 < count row.2
  · rw [if_pos hrow]
  · rw [if_neg hrow]

variable {value : κ → V}

theorem mem_retract (h : row ∈ retract count sub rows keys value) :
    ∃ old ∈ rows, old.1 = row.1 := by
  obtain ⟨old, hold, rfl⟩ := mem_map.mp h
  refine ⟨old, mem_of_mem_filter hold, ?_⟩
  by_cases hrow : old.1 ∈ keys ∧ 1 < count old.2
  · rw [if_pos hrow]
  · rw [if_neg hrow]

variable {k : κ}

theorem get_retract_of_not_mem (hkd : Keyed Prod.fst rows) (hk : k ∉ keys) :
    get (retract count sub rows keys value) k = get rows k := by
  cases hc : get rows k with
  | zero =>
    refine get_eq_zero_iff.mpr fun row hrow hsm => ?_
    obtain ⟨old, hold, hkey⟩ := mem_retract hrow
    exact get_eq_zero_iff.mp hc old hold (hkey.trans hsm)
  | coe v =>
    refine (get_eq_coe_iff (keyed_retract hkd keys value)).mpr ?_
    refine mem_map.mpr ⟨(k, v), mem_filter.mpr ⟨mem_of_get hc, ?_⟩, ?_⟩
    · simp [hk]
    · rw [if_neg (fun h => hk h.1)]

theorem get_retract_single (hkd : Keyed Prod.fst rows) (hk : k ∈ keys) (hc : get rows k = v)
    (hone : count v = 1) :
    get (retract count sub rows keys value) k = 0 := by
  refine get_eq_zero_iff.mpr fun row hrow hsm => ?_
  obtain ⟨old, hold, hrow⟩ := mem_map.mp hrow
  obtain ⟨hold, hkp⟩ := mem_filter.mp hold
  have hkey : old.1 = k := by
    rw [← hsm, ← hrow]
    by_cases hupd : old.1 ∈ keys ∧ 1 < count old.2
    · rw [if_pos hupd]
    · rw [if_neg hupd]
  have hsm : old = (k, v) := hkd.eq_of_key hold (mem_of_get hc) hkey
  rw [hsm] at hkp
  simp [hk, hone] at hkp

theorem get_retract_many (hkd : Keyed Prod.fst rows) (hk : k ∈ keys) (hc : get rows k = v)
    (hmy : 1 < count v) :
    get (retract count sub rows keys value) k = sub v (value k) := by
  refine (get_eq_coe_iff (keyed_retract hkd keys value)).mpr ?_
  refine mem_map.mpr ⟨(k, v), mem_filter.mpr ⟨mem_of_get hc, ?_⟩, ?_⟩
  · simp [hk, hmy.ne']
  · rw [if_pos ⟨hk, hmy⟩]

/-- **Taking out what was put in**: the cells are those of the rest, up to what `sub` makes of a sum. -/
theorem get_retract [AddCommSemigroup V] (hct : ∀ v w, count (v + w) = count v + count w)
    {rows : List (κ × V)} (hkd : Keyed Prod.fst rows) {keys : List κ} {value : κ → V}
    {rest : κ → WithZero V}
    (hin : ∀ k ∈ keys, get rows k = value k + rest k) (hout : ∀ k ∉ keys, get rows k = rest k)
    (hone : ∀ k ∈ keys, count (value k) = 1)
    (hpos : ∀ k ∈ keys, ∀ v : V, rest k = v → 0 < count v) (k : κ) :
    (k ∉ keys → get (retract count sub rows keys value) k = rest k) ∧
    (k ∈ keys → rest k = 0 → get (retract count sub rows keys value) k = 0) ∧
    (k ∈ keys → ∀ v : V, rest k = v →
      get (retract count sub rows keys value) k = sub (value k + v) (value k)) := by
  refine ⟨?_, ?_, ?_⟩
  · intro hk
    rw [get_retract_of_not_mem hkd hk, hout k hk]
  · intro hk hz
    have hc := hin k hk
    rw [hz, add_zero] at hc
    exact get_retract_single hkd hk hc (hone k hk)
  · intro hk v hv
    have hc := hin k hk
    rw [hv, ← WithZero.coe_add] at hc
    refine get_retract_many hkd hk hc ?_
    have hle := hpos k hk v hv
    rw [hct, hone k hk]
    omega

end Retract

/-! ### The rollup of some items -/

section Gather

variable {E : Type} [AddCommSemigroup V] (keys : E → List κ) (value : E → κ → V)

/-- What one item adds to the cells. -/
def contribution (item : E) (k : κ) : WithZero V :=
  if k ∈ keys item then (value item k : WithZero V) else 0

/-- The cells of some items. -/
def gather (items : List E) (k : κ) : WithZero V :=
  (items.map fun item => contribution keys value item k).sum

@[simp] theorem gather_nil : gather keys value [] = 0 := rfl

@[simp] theorem gather_cons (item : E) (items : List E) :
    gather keys value (item :: items) = contribution keys value item + gather keys value items := rfl

theorem gather_append (items items' : List E) :
    gather keys value (items ++ items') = gather keys value items + gather keys value items' := by
  funext k
  simp [gather]

theorem gather_perm {items items' : List E} (h : items.Perm items') :
    gather keys value items = gather keys value items' := by
  funext k
  exact (h.map _).sum_eq

/-- The values that are summed in a cell. -/
def values (items : List E) (k : κ) : List V :=
  items.filterMap fun item => if k ∈ keys item then some (value item k) else none

/-- `GROUP BY key`: a row for each key that occurs. -/
def groups (items : List E) : List (κ × V) :=
  (items.flatMap keys).dedup.filterMap fun k =>
    match values keys value items k with
    | [] => none
    | v :: vs => some (k, vs.foldl (· + ·) v)

variable {keys value}

theorem gather_eq_values (items : List E) (k : κ) :
    gather keys value items k =
      ((values keys value items k).map (fun v : V => (v : WithZero V))).sum := by
  induction items with
  | nil => rfl
  | cons item items ih =>
    rw [gather_cons, Pi.add_apply, ih, contribution]
    by_cases hk : k ∈ keys item
    · simp [values, hk]
    · simp [values, hk]

theorem sum_coe (v : V) (vs : List V) :
    ((v :: vs).map (fun v : V => (v : WithZero V))).sum = (vs.foldl (· + ·) v : V) := by
  induction vs generalizing v with
  | nil => simp
  | cons w vs ih =>
    rw [foldl_cons, ← ih (v + w)]
    simp [add_assoc]

theorem keyed_groups (items : List E) : Keyed Prod.fst (groups keys value items) := by
  have hdedup : Keyed (fun k : κ => k) (items.flatMap keys).dedup := by
    unfold Keyed
    rw [map_id']
    exact nodup_dedup _
  refine hdedup.filterMap ?_
  intro k row hrow
  split at hrow
  · cases hrow
  · cases hrow
    rfl

theorem get_groups (items : List E) : get (groups keys value items) = gather keys value items := by
  funext k
  rw [gather_eq_values]
  cases hvalues : values keys value items k with
  | nil =>
    refine get_eq_zero_iff.mpr fun row hrow hsm => ?_
    obtain ⟨k', _, hrow⟩ := mem_filterMap.mp hrow
    split at hrow
    · cases hrow
    · cases hrow
      simp_all
  | cons v vs =>
    rw [sum_coe]
    refine (get_eq_coe_iff (keyed_groups items)).mpr (mem_filterMap.mpr ⟨k, ?_, ?_⟩)
    · have hmem : v ∈ values keys value items k := by
        rw [hvalues]
        exact mem_cons_self ..
      obtain ⟨item, hit, hval⟩ := mem_filterMap.mp hmem
      rw [mem_dedup, mem_flatMap]
      refine ⟨item, hit, ?_⟩
      by_contra hk
      rw [if_neg hk] at hval
      cases hval
    · rw [hvalues]

omit [AddCommSemigroup V] in
/-- The rows of one item. -/
theorem get_itemRows {item : E} (hnd : (keys item).Nodup) :
    Keyed Prod.fst ((keys item).map fun k => (k, value item k)) ∧
      get ((keys item).map fun k => (k, value item k)) = contribution keys value item := by
  have hkd : Keyed Prod.fst ((keys item).map fun k => (k, value item k)) := by
    unfold Keyed
    rw [map_map]
    exact (map_id' (keys item)).symm ▸ hnd
  refine ⟨hkd, funext fun k => ?_⟩
  by_cases hk : k ∈ keys item
  · rw [contribution, if_pos hk]
    exact (get_eq_coe_iff hkd).mpr (mem_map_of_mem hk)
  · rw [contribution, if_neg hk]
    refine get_eq_zero_iff.mpr fun row hrow hsm => hk ?_
    obtain ⟨k', hk', rfl⟩ := mem_map.mp hrow
    exact hsm ▸ hk'

/-- What holds of the value of every item and is kept by sums holds of every cell. -/
theorem gather_induction {p : κ → V → Prop} {items : List E}
    (hval : ∀ item ∈ items, ∀ k ∈ keys item, p k (value item k))
    (hadd : ∀ k v w, p k v → p k w → p k (v + w)) {k : κ} {v : V}
    (h : gather keys value items k = v) : p k v := by
  induction items generalizing v with
  | nil => exact absurd h.symm WithZero.coe_ne_zero
  | cons item items ih =>
    have ih := @ih fun item' hit' => hval item' (mem_cons_of_mem _ hit')
    have hown := hval item (mem_cons_self ..)
    rw [gather_cons, Pi.add_apply, contribution] at h
    by_cases hk : k ∈ keys item
    · rw [if_pos hk] at h
      cases hrs : gather keys value items k with
      | zero =>
        rw [hrs, add_zero] at h
        rw [← WithZero.coe_injective h]
        exact hown k hk
      | coe w =>
        rw [hrs, ← WithZero.coe_add] at h
        rw [← WithZero.coe_injective h]
        exact hadd k _ _ (hown k hk) (ih hrs)
    · rw [if_neg hk, zero_add] at h
      exact ih h

end Gather

/-! ### Totals over rows -/

section Totals

variable {E M : Type} [AddCommSemigroup V] [AddCommMonoid M] {f : V → M}

/-- A cell without a row weighs nothing. -/
def weigh (f : V → M) : WithZero V → M
  | none => 0
  | some v => f v

omit [AddCommSemigroup V] in
theorem weigh_zero : weigh f 0 = 0 := rfl

theorem weigh_add (hf : ∀ v w, f (v + w) = f v + f w) (a b : WithZero V) :
    weigh f (a + b) = weigh f a + weigh f b := by
  cases a with
  | zero => rw [zero_add, weigh_zero, zero_add]
  | coe v =>
    cases b with
    | zero => rw [add_zero, weigh_zero, add_zero]
    | coe w => exact hf v w

/-- The rows of a table, one cell after the other. -/
theorem sum_rows (hf : ∀ v w, f (v + w) = f v + f w) {rows : List (κ × V)}
    (hkd : Keyed Prod.fst rows) (all : Finset κ) (hall : ∀ row ∈ rows, row.1 ∈ all) :
    (rows.map fun row => f row.2).sum = ∑ k ∈ all, weigh f (get rows k) := by
  induction rows with
  | nil => exact (Finset.sum_eq_zero fun _ _ => rfl).symm
  | cons row rows ih =>
    have hcons : get (row :: rows) = Pi.single row.1 (row.2 : WithZero V) + get rows := by
      rw [← added_eq hkd, added, added_eq (hkd.sublist (sublist_cons_self ..))]
    have hrs := ih (hkd.sublist (sublist_cons_self ..))
      fun row' hrow' => hall row' (mem_cons_of_mem _ hrow')
    have hown : ∑ k ∈ all, weigh f ((Pi.single row.1 (row.2 : WithZero V) : κ → WithZero V) k) =
        f row.2 := by
      rw [Finset.sum_eq_single_of_mem row.1 (hall row (mem_cons_self ..))]
      · rw [Pi.single_eq_same]
        rfl
      · intro k _ hne
        rw [Pi.single_eq_of_ne hne, weigh_zero]
    rw [map_cons, sum_cons, hrs, hcons, ← hown, ← Finset.sum_add_distrib]
    exact Finset.sum_congr rfl fun k _ => (weigh_add hf _ _).symm

omit [AddCommSemigroup V] in
theorem get_filter {rows : List (κ × V)} (hkd : Keyed Prod.fst rows) (p : κ → Prop)
    [DecidablePred p] (k : κ) :
    get (rows.filter fun row => p row.1) k = if p k then get rows k else 0 := by
  by_cases hp : p k
  · rw [if_pos hp]
    cases hc : get rows k with
    | zero =>
      refine get_eq_zero_iff.mpr fun row hrow => ?_
      exact get_eq_zero_iff.mp hc row (mem_of_mem_filter hrow)
    | coe v =>
      refine (get_eq_coe_iff (hkd.filter _)).mpr (mem_filter.mpr ⟨mem_of_get hc, ?_⟩)
      simpa using hp
  · rw [if_neg hp]
    refine get_eq_zero_iff.mpr fun row hrow hkey => hp ?_
    have hrow := (mem_filter.mp hrow).2
    rw [← hkey]
    simpa using hrow

/-- **A total over some rows is the total over the items that count in them.** -/
theorem sum_filter_eq (hf : ∀ v w, f (v + w) = f v + f w) {keys : E → List κ} {value : E → κ → V}
    {items : List E} (hnd : ∀ item, (keys item).Nodup) {rows : List (κ × V)}
    (hkd : Keyed Prod.fst rows) (p : κ → Prop) [DecidablePred p]
    (hrs : ∀ k, p k → get rows k = gather keys value items k) :
    ((rows.filter fun row => p row.1).map fun row => f row.2).sum =
      (items.map fun item => (((keys item).filter fun k => p k).map fun k =>
        f (value item k)).sum).sum := by
  have hits : ∀ (items : List E) (all : Finset κ), (∀ item ∈ items, ∀ k ∈ keys item, k ∈ all) →
      ∑ k ∈ all, weigh f (if p k then gather keys value items k else 0) =
        (items.map fun item => (((keys item).filter fun k => p k).map fun k =>
          f (value item k)).sum).sum := by
    intro items all hall
    induction items with
    | nil =>
      refine Finset.sum_eq_zero fun k _ => ?_
      split_ifs <;> rfl
    | cons item items ih =>
      rw [map_cons, sum_cons, ← ih fun item' hit' =>
        hall item' (mem_cons_of_mem _ hit')]
      have hown : ∑ k ∈ all, weigh f (if p k then contribution keys value item k else 0) =
          (((keys item).filter fun k => p k).map fun k => f (value item k)).sum := by
        have hsub : ((keys item).filter fun k => p k).toFinset ⊆ all := by
          intro k hk
          rw [mem_toFinset] at hk
          exact hall item (mem_cons_self ..) k (mem_of_mem_filter hk)
        rw [← sum_toFinset _ ((hnd item).filter _), ← Finset.sum_subset hsub]
        · refine Finset.sum_congr rfl fun k hk => ?_
          rw [mem_toFinset, mem_filter] at hk
          rw [if_pos (by simpa using hk.2), contribution, if_pos hk.1]
          rfl
        · intro k _ hk
          rw [mem_toFinset, mem_filter] at hk
          by_cases hp : p k
          · rw [if_pos hp, contribution, if_neg fun hmem => hk ⟨hmem, by simpa using hp⟩, weigh_zero]
          · rw [if_neg hp, weigh_zero]
      rw [← hown, ← Finset.sum_add_distrib]
      refine Finset.sum_congr rfl fun k _ => ?_
      rw [gather_cons]
      by_cases hp : p k
      · rw [if_pos hp, if_pos hp, if_pos hp, Pi.add_apply, weigh_add hf]
      · rw [if_neg hp, if_neg hp, if_neg hp, weigh_zero, add_zero]
  have hall : ∀ row ∈ rows.filter (fun row => p row.1),
      row.1 ∈ (rows.map Prod.fst).toFinset ∪ (items.flatMap keys).toFinset := by
    intro row hrow
    refine Finset.mem_union_left _ (mem_toFinset.mpr ?_)
    exact mem_map_of_mem (mem_of_mem_filter hrow)
  rw [sum_rows hf (hkd.filter _) _ hall, ← hits items ((rows.map Prod.fst).toFinset ∪
    (items.flatMap keys).toFinset)]
  · refine Finset.sum_congr rfl fun k _ => ?_
    rw [get_filter hkd]
    by_cases hp : p k
    · rw [if_pos hp, if_pos hp, hrs k hp]
    · rw [if_neg hp, if_neg hp]
  · intro item hit k hk
    refine Finset.mem_union_right _ (mem_toFinset.mpr ?_)
    exact mem_flatMap.mpr ⟨item, hit, hk⟩

end Totals

end TokenMaster.Rollup
