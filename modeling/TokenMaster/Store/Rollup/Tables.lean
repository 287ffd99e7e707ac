import TokenMaster.Lib.Rollup
import TokenMaster.Store.Rollup.Event

/-!
# TokenMaster.Store.Rollup.Tables — what the rollup tables have in common

`usage_time_rollup`, `usage_session_rollup`, `usage_price_time_rollup` and
`usage_price_session_rollup` have one shape (`RollupTable`): the keys and values of an event, what the
delete trigger subtracts, what it recomputes, and the constraints of a row.  Triggers and pages of a
rebuild are defined once for all of them; what the proofs need of a table is `RollupTable.Lawful`.
-/

namespace TokenMaster.Store

open Rollup TokenMaster.Except

/-- Why a trigger refuses a statement.  `constraint` is a `CHECK` or the type of a strict table. -/
inductive TriggerAbort where
  | datasetGenerationExhausted
  | eventCountExhausted
  | eventCountUnderflow
  | timeRowsUnavailable
  | sessionRowsUnavailable
  | priceTimeRowsUnavailable
  | priceSessionRowUnavailable
  | constraint
  deriving DecidableEq

/-- What the primary keys of the rollups have in common: generation, dataset and the rest. -/
abbrev RowKey (κ : Type) : Type := ℕ × DatasetKind × κ

abbrev Rows (κ V : Type) : Type := List (RowKey κ × V)

structure RollupTable (κ V : Type) where
  keys : UsageEvent → List κ
  value : UsageEvent → κ → V
  /-- `event_count`. -/
  count : V → ℤ
  /-- The `SET` of the delete trigger. -/
  sub : V → V → V
  /-- What the delete trigger of `OLD` recomputes from the events that are there. -/
  settle : List UsageEvent → UsageEvent → κ → V → V
  /-- The columns of the key are in range. -/
  keyFits : κ → Prop
  /-- The `CHECK`s. -/
  sound : κ → V → Prop
  /-- The counters are in range. -/
  fits : V → Prop
  /-- The error if a row to be decremented is not there. -/
  unavailable : TriggerAbort

namespace RollupTable

variable {κ V : Type} (table : RollupTable κ V) {gen : ℕ} {data : DatasetKind}
  {key : RowKey κ} {evs : List UsageEvent}

def Check (key : RowKey κ) (v : V) : Prop :=
  table.keyFits key.2.2 ∧ table.sound key.2.2 v ∧ table.fits v

/-- The keys of the rows of an event. -/
def rowKeys (generation : ℕ) (dataset : DatasetKind) (event : UsageEvent) : List (RowKey κ) :=
  (table.keys event).map fun k => (generation, dataset, k)

def rowValue (event : UsageEvent) (key : RowKey κ) : V := table.value event key.2.2

theorem mem_rowKeys {table : RollupTable κ V} {event : UsageEvent}
    (h : key ∈ table.rowKeys gen data event) :
    key.1 = gen ∧ key.2.1 = data ∧ key.2.2 ∈ table.keys event := by
  obtain ⟨k, hk, rfl⟩ := List.mem_map.mp h
  exact ⟨rfl, rfl, hk⟩

section Triggers

variable [DecidableEq κ] [AddCommSemigroup V] [∀ key v, Decidable (table.Check key v)]

/-- The body of the insert trigger. -/
def insertTrigger (active : ℕ) (new : UsageEvent) (rows : Rows κ V) :
    Except TriggerAbort (Rows κ V) :=
  insertRows .constraint table.Check rows
    ((table.rowKeys active .current new).map fun key => (key, table.rowValue new key))

/-- The body of the delete trigger; `events` is what `usage_event` holds when it runs. -/
def deleteTrigger (active : ℕ) (events : List UsageEvent) (old : UsageEvent) (rows : Rows κ V) :
    Except TriggerAbort (Rows κ V) := do
  let keys := table.rowKeys active .current old
  Except.require table.unavailable (present rows keys = keys.length)
  let rows ← updateRows .constraint table.Check (fun key v =>
    if key ∈ keys ∧ 1 < table.count v then some (table.sub v (table.rowValue old key)) else none)
    (removeSingles table.count rows keys)
  updateRows .constraint table.Check (fun key v =>
    if key ∈ keys then some (table.settle events old key.2.2 v) else none) rows

/-- The bodies of the delete and of the insert trigger, one behind the other. -/
def updateTrigger (active : ℕ) (events : List UsageEvent) (old new : UsageEvent)
    (rows : Rows κ V) : Except TriggerAbort (Rows κ V) := do
  let rows ← table.deleteTrigger active events old rows
  table.insertTrigger active new rows

/-- One statement of `materialize_page`. -/
def materialize (generation : ℕ) (dataset : DatasetKind) (page : List UsageEvent)
    (rows : Rows κ V) : Except TriggerAbort (Rows κ V) :=
  insertRows .constraint table.Check rows
    (groups (table.rowKeys generation dataset) table.rowValue page)

end Triggers

/-! ### From scratch -/

section Scratch

variable [DecidableEq κ] [AddCommSemigroup V]

/-- The cells of some events, computed from scratch. -/
def scratch (events : List UsageEvent) : κ → WithZero V := gather table.keys table.value events

/-- The same cells as they stand in the table. -/
def cells (generation : ℕ) (dataset : DatasetKind) (events : List UsageEvent) :
    RowKey κ → WithZero V := gather (table.rowKeys generation dataset) table.rowValue events

variable {table}

omit [AddCommSemigroup V] in
theorem contribution_row (gen : ℕ) (data : DatasetKind) (event : UsageEvent)
    (key : RowKey κ) : contribution (table.rowKeys gen data) table.rowValue event key =
      if key.1 = gen ∧ key.2.1 = data then contribution table.keys table.value event key.2.2
      else 0 := by
  obtain ⟨gen', dataset', k⟩ := key
  have hmem : (gen', dataset', k) ∈ table.rowKeys gen data event ↔
      (gen' = gen ∧ dataset' = data) ∧ k ∈ table.keys event := by
    constructor
    · intro h
      obtain ⟨k', hk', heq⟩ := List.mem_map.mp h
      cases heq
      exact ⟨⟨rfl, rfl⟩, hk'⟩
    · rintro ⟨⟨rfl, rfl⟩, hk⟩
      exact List.mem_map.mpr ⟨k, hk, rfl⟩
  by_cases hown : gen' = gen ∧ dataset' = data
  · by_cases hk : k ∈ table.keys event
    · rw [contribution, if_pos (hmem.mpr ⟨hown, hk⟩), if_pos hown, contribution, if_pos hk]
      rfl
    · rw [contribution, if_neg (fun h => hk (hmem.mp h).2), if_pos hown, contribution, if_neg hk]
  · rw [contribution, if_neg (fun h => hown (hmem.mp h).1), if_neg hown]

theorem cells_apply (gen : ℕ) (data : DatasetKind) (evs : List UsageEvent)
    (key : RowKey κ) : table.cells gen data evs key =
      if key.1 = gen ∧ key.2.1 = data then table.scratch evs key.2.2 else 0 := by
  induction evs with
  | nil =>
    by_cases hown : key.1 = gen ∧ key.2.1 = data
    · rw [if_pos hown]
      rfl
    · rw [if_neg hown]
      rfl
  | cons ev evs ih =>
    unfold cells scratch at ih ⊢
    rw [gather_cons, Pi.add_apply, contribution_row, ih, gather_cons, Pi.add_apply]
    by_cases hown : key.1 = gen ∧ key.2.1 = data
    · rw [if_pos hown, if_pos hown, if_pos hown]
    · rw [if_neg hown, if_neg hown, if_neg hown, add_zero]

/-- The rows of a generation and a dataset, if their cells are those of the events. -/
theorem gather_of_scratch {rows : Rows κ V}
    (h : ∀ k, get rows (gen, data, k) = table.scratch evs k)
    (hgen : key.1 = gen) (hdata : key.2.1 = data) :
    get rows key = gather (table.rowKeys gen data) table.rowValue evs key := by
  have hap := table.cells_apply gen data evs key
  rw [if_pos ⟨hgen, hdata⟩, ← h, ← hgen, ← hdata] at hap
  subst hgen hdata
  exact hap.symm

theorem cells_nil (gen : ℕ) (data : DatasetKind) :
    table.cells gen data [] = 0 := rfl

theorem cells_cons (gen : ℕ) (data : DatasetKind) (ev : UsageEvent)
    (events : List UsageEvent) : table.cells gen data (ev :: events) =
      table.cells gen data [ev] + table.cells gen data events := by
  unfold cells
  rw [gather_cons, gather_cons, gather_nil, add_zero]

theorem cells_append (gen : ℕ) (data : DatasetKind) (evs events' : List UsageEvent) :
    table.cells gen data (evs ++ events') =
      table.cells gen data evs + table.cells gen data events' :=
  gather_append ..

theorem cells_perm {events' : List UsageEvent} (h : evs.Perm events') :
    table.cells gen data evs = table.cells gen data events' := gather_perm _ _ h

end Scratch

/-! ### What the triggers do to a lawful table -/

section Lawful

variable [DecidableEq κ] [AddCommSemigroup V]

/-- What is left of a cell of `v` and an event, once the event is subtracted. -/
def taken (event : UsageEvent) (k : κ) (v : V) : V :=
  table.sub (table.value event k + v) (table.value event k)

/-- What the triggers rely on.  `fresh` is what an update has put in the place of the event. -/
structure Lawful : Prop where
  nodup_keys : ∀ event, (table.keys event).Nodup
  count_add : ∀ v w, table.count (v + w) = table.count v + table.count w
  count_value : ∀ event k, table.count (table.value event k) = 1
  count_pos : ∀ {k v}, table.sound k v → 0 < table.count v
  sound_value : ∀ {event k}, k ∈ table.keys event → table.sound k (table.value event k)
  sound_add : ∀ {k v w}, table.sound k v → table.sound k w → table.sound k (v + w)
  fits_left : ∀ {k v w}, table.sound k v → table.sound k w → table.fits (v + w) → table.fits v
  taken : ∀ {event k v}, k ∈ table.keys event → table.sound k v →
    table.sound k (table.taken event k v) ∧ (table.fits v → table.fits (table.taken event k v))
  settled : ∀ {event k} {v : V} {fresh rest : List UsageEvent}, k ∈ table.keys event →
    table.scratch rest k = (v : WithZero V) →
    ∃ v', table.settle (fresh ++ rest) event k (table.taken event k v) = v' ∧
      table.sound k v' ∧ (table.fits v → table.fits v') ∧
      (v' : WithZero V) + table.scratch fresh k = v + table.scratch fresh k

variable {table}

theorem Lawful.fits_right (hlaw : table.Lawful) {k : κ} {v w : V} (hv : table.sound k v)
    (hw : table.sound k w) (h : table.fits (v + w)) : table.fits w := by
  rw [add_comm] at h
  exact hlaw.fits_left hw hv h

theorem Lawful.sound_scratch (hlaw : table.Lawful) {k : κ} {v : V}
    (h : table.scratch evs k = v) : table.sound k v :=
  @gather_induction _ _ _ _ _ table.keys table.value table.sound evs
    (fun _ _ _ hk => hlaw.sound_value hk) (fun _ _ _ hv hw => hlaw.sound_add hv hw) _ _ h

theorem Lawful.nodup_rowKeys (hlaw : table.Lawful) (gen : ℕ) (data : DatasetKind)
    (ev : UsageEvent) : (table.rowKeys gen data ev).Nodup := by
  refine (hlaw.nodup_keys ev).map ?_
  intro k k' h
  cases h
  rfl

variable [∀ key v, Decidable (table.Check key v)]

variable {active : ℕ} {new old : UsageEvent} {rows rows' : Rows κ V}

/-- The insert trigger adds the new event to the cells. -/
theorem insertTrigger_ok (hlaw : table.Lawful) (hkd : Keyed Prod.fst rows)
    (h : table.insertTrigger active new rows = .ok rows') :
    get rows' = get rows + table.cells active .current [new] ∧ Keyed Prod.fst rows' ∧
      (Checked table.Check rows → Checked table.Check rows') := by
  obtain ⟨hget, hkd', _⟩ := insertRows_ok hkd h
  obtain ⟨hit, hcells⟩ := @get_itemRows _ _ _ _ _ table.rowValue _
    (hlaw.nodup_rowKeys active .current new)
  refine ⟨?_, hkd', fun hrows => insertRows_checked hrows h⟩
  rw [hget, added_eq hit, hcells, cells, gather_cons, gather_nil, add_zero]

/-- A page adds its events to the cells, all under the generation of the rebuild. -/
theorem materialize_ok {page : List UsageEvent} (hkd : Keyed Prod.fst rows)
    (h : table.materialize gen data page rows = .ok rows') :
    get rows' = get rows + table.cells gen data page ∧ Keyed Prod.fst rows' ∧
      (Checked table.Check rows → Checked table.Check rows') := by
  obtain ⟨hget, hkd', _⟩ := insertRows_ok hkd h
  refine ⟨?_, hkd', fun hrows => insertRows_checked hrows h⟩
  rw [hget, added_eq (keyed_groups page), get_groups, cells]

omit [AddCommSemigroup V] in
theorem deleteTrigger_eq (h : table.deleteTrigger active evs old rows = .ok rows') :
    rows' = (retract table.count table.sub rows (table.rowKeys active .current old)
        (table.rowValue old)).map (fun row => (row.1,
          if row.1 ∈ table.rowKeys active .current old then
            table.settle evs old row.1.2.2 row.2 else row.2)) ∧
      (Checked table.Check rows → Checked table.Check rows') := by
  obtain ⟨_, _, h⟩ := bind_eq_ok.mp h
  obtain ⟨between, hsub, hsettle⟩ := bind_eq_ok.mp h
  obtain ⟨hbetw, hck⟩ := updateRows_ok hsub
  obtain ⟨hrs', hck'⟩ := updateRows_ok hsettle
  have hretr : between = retract table.count table.sub rows
      (table.rowKeys active .current old) (table.rowValue old) := by
    rw [hbetw]
    refine List.map_congr_left fun row _ => ?_
    split_ifs <;> rfl
  refine ⟨?_, fun hrows => hck' (hck fun row hrow => hrows row (List.mem_of_mem_filter hrow))⟩
  rw [hrs', hretr]
  refine List.map_congr_left fun row _ => ?_
  split_ifs <;> rfl

theorem insertTrigger_total (hlaw : table.Lawful) (hkd : Keyed Prod.fst rows)
    (hck : Checked table.Check rows) (hks : ∀ k ∈ table.keys new, table.keyFits k)
    (hfits : ∀ k ∈ table.keys new, ∀ v : V,
      (get rows + table.cells active .current [new]) (active, .current, k) = v → table.fits v) :
    ∃ rows', table.insertTrigger active new rows = .ok rows' := by
  obtain ⟨hit, _⟩ := @get_itemRows _ _ _ _ _ table.rowValue _
    (hlaw.nodup_rowKeys active .current new)
  refine insertRows_total hkd hit ?_
  intro row hrow
  obtain ⟨key, hkey, rfl⟩ := List.mem_map.mp hrow
  obtain ⟨k, hk, rfl⟩ := List.mem_map.mp hkey
  have hadd : table.cells active .current [new] (active, .current, k) = table.value new k := by
    rw [cells, gather_cons, gather_nil, add_zero, contribution, if_pos hkey]
    rfl
  have hown : table.sound k (table.value new k) := hlaw.sound_value hk
  have hsum : ∀ v : V, get rows (active, .current, k) = v →
      table.sound k v ∧ table.fits (v + table.value new k) := by
    intro v hv
    refine ⟨(hck _ (mem_of_get hv)).2.1, hfits k hk _ ?_⟩
    rw [Pi.add_apply, hv, hadd, WithZero.coe_add]
  refine ⟨⟨hks k hk, hown, ?_⟩, fun v hv => ?_⟩
  · -- a new row is the whole cell, otherwise it is a part of it
    cases hc : get rows (active, .current, k) with
    | zero =>
      refine hfits k hk (table.value new k) ?_
      rw [Pi.add_apply, hc, hadd, zero_add]
    | coe v =>
      obtain ⟨hsd, hfit⟩ := hsum v hc
      exact hlaw.fits_right hsd hown hfit
  · obtain ⟨hsd, hfit⟩ := hsum v hv
    exact ⟨hks k hk, hlaw.sound_add hsd hown, hfit⟩

section Split

variable {rest : List UsageEvent} {others : RowKey κ → WithZero V}

omit [∀ key v, Decidable (table.Check key v)] in
/-- A table with one event more than the rest. -/
theorem cells_split
    (hrows : get rows = table.cells active .current (old :: rest) + others) :
    (∀ key ∈ table.rowKeys active .current old,
      get rows key = table.rowValue old key + (table.cells active .current rest + others) key) ∧
    (∀ key ∉ table.rowKeys active .current old,
      get rows key = (table.cells active .current rest + others) key) := by
  have hc : ∀ key, get rows key = contribution (table.rowKeys active .current) table.rowValue old key +
      (table.cells active .current rest + others) key := by
    intro key
    rw [hrows, cells_cons, add_assoc, Pi.add_apply, cells, gather_cons, gather_nil, add_zero]
  refine ⟨fun key hkey => ?_, fun key hkey => ?_⟩
  · rw [hc, contribution, if_pos hkey]
  · rw [hc, contribution, if_neg hkey, zero_add]

omit [∀ key v, Decidable (table.Check key v)] in
theorem rest_apply (hothers : ∀ k, others (active, .current, k) = 0)
    (hkey : key ∈ table.rowKeys active .current old) :
    (table.cells active .current rest + others) key = table.scratch rest key.2.2 := by
  obtain ⟨hgen, hdata, _⟩ := mem_rowKeys hkey
  have hz : others key = 0 := by
    rw [← hothers key.2.2, ← hgen, ← hdata]
  rw [Pi.add_apply, hz, add_zero, cells_apply, if_pos ⟨hgen, hdata⟩]

variable (hlaw : table.Lawful) (hothers : ∀ k, others (active, .current, k) = 0)
  (hkd : Keyed Prod.fst rows)
  (hrows : get rows = table.cells active .current (old :: rest) + others)
  (fresh : List UsageEvent)

include hlaw hothers hkd hrows

/-- The delete trigger takes the old event out of the cells.  In an update the new event may already
count in what is recomputed; once it is added, the cells are those of the events. -/
theorem deleteTrigger_ok (h : table.deleteTrigger active (fresh ++ rest) old rows = .ok rows') :
    get rows' + table.cells active .current fresh =
        table.cells active .current (fresh ++ rest) + others ∧
      Keyed Prod.fst rows' ∧ (Checked table.Check rows → Checked table.Check rows') := by
  obtain ⟨hrs', hck⟩ := deleteTrigger_eq h
  subst hrs'
  refine ⟨?_, (keyed_retract hkd _ _).map_of_key fun _ => rfl, hck⟩
  obtain ⟨hin, hout⟩ := cells_split hrows
  have hrs : ∀ key ∈ table.rowKeys active .current old,
      (table.cells active .current rest + others) key = table.scratch rest key.2.2 :=
    fun key hkey => rest_apply hothers hkey
  have hpos : ∀ key ∈ table.rowKeys active .current old, ∀ v : V,
      (table.cells active .current rest + others) key = v → 0 < table.count v := by
    intro key hkey v hv
    rw [hrs key hkey] at hv
    exact hlaw.count_pos (hlaw.sound_scratch hv)
  funext key
  obtain ⟨hoth, hgo, hl⟩ := @get_retract _ _ _ table.count table.sub _ hlaw.count_add rows
    hkd (table.rowKeys active .current old) (table.rowValue old) _ hin hout
    (fun key _ => hlaw.count_value old key.2.2) hpos key
  obtain ⟨hz, hcoe⟩ := get_map (fun key v => if key ∈ table.rowKeys active .current old then
    table.settle (fresh ++ rest) old key.2.2 v else v) (retract table.count table.sub rows
      (table.rowKeys active .current old) (table.rowValue old)) key
  have hgoal : (table.cells active .current (fresh ++ rest) + others) key =
      (table.cells active .current rest + others) key + table.cells active .current fresh key := by
    simp only [cells_append, Pi.add_apply]
    rw [add_assoc, add_comm]
  rw [Pi.add_apply, hgoal]
  by_cases hkey : key ∈ table.rowKeys active .current old
  · cases hc : (table.cells active .current rest + others) key with
    | zero => rw [hz (hgo hkey hc)]
    | coe v =>
      rw [hcoe _ (hl hkey v hc), if_pos hkey]
      rw [hrs key hkey] at hc
      obtain ⟨_, rfl, _, _, hrestored⟩ := @Lawful.settled _ _ _ _ _ hlaw old key.2.2 v fresh rest
        (mem_rowKeys hkey).2.2 hc
      have hfr : table.cells active .current fresh key = table.scratch fresh key.2.2 := by
        rw [cells_apply, if_pos ⟨(mem_rowKeys hkey).1, (mem_rowKeys hkey).2.1⟩]
      rw [hfr]
      exact hrestored
  · -- a row of no key of the old event is as before
    congr 1
    rw [← hoth hkey]
    cases hc : get (retract table.count table.sub rows (table.rowKeys active .current old)
        (table.rowValue old)) key with
    | zero => exact hz hc
    | coe v => rw [hcoe v hc, if_neg hkey]

theorem deleteTrigger_total (hck : Checked table.Check rows) :
    ∃ rows', table.deleteTrigger active (fresh ++ rest) old rows = .ok rows' := by
  obtain ⟨hin, _⟩ := cells_split hrows
  have hpres : present rows (table.rowKeys active .current old) =
      (table.rowKeys active .current old).length := by
    refine present_eq_length hkd (hlaw.nodup_rowKeys ..) fun key hkey => ?_
    rw [hin key hkey]
    cases (table.cells active .current rest + others) key with
    | zero =>
      exact WithZero.coe_ne_zero
    | coe v => exact WithZero.coe_ne_zero
  -- a row that is not removed is the sum of the old event and a cell of the rest
  have hl : ∀ row ∈ removeSingles table.count rows (table.rowKeys active .current old),
      row.1 ∈ table.rowKeys active .current old →
      ∃ v : V, table.scratch rest row.1.2.2 = v ∧ row.2 = table.value old row.1.2.2 + v ∧
        1 < table.count row.2 ∧ table.keyFits row.1.2.2 ∧ table.fits v := by
    intro row hrow hkey
    obtain ⟨hrow, hkp⟩ := List.mem_filter.mp hrow
    have hmy : table.count row.2 ≠ 1 := by simpa [hkey] using hkp
    have hc := (get_eq_coe_iff hkd).mpr hrow
    rw [hin row.1 hkey, rest_apply hothers hkey] at hc
    obtain ⟨hkeyF, _, hfit⟩ := hck row hrow
    cases hrs : table.scratch rest row.1.2.2 with
    | zero =>
      rw [hrs, add_zero] at hc
      rw [← WithZero.coe_injective hc] at hmy
      exact absurd (hlaw.count_value old row.1.2.2) hmy
    | coe v =>
      rw [hrs, ← WithZero.coe_add] at hc
      have hsum : row.2 = table.value old row.1.2.2 + v := (WithZero.coe_injective hc).symm
      have hpos := hlaw.count_pos (hlaw.sound_scratch hrs)
      refine ⟨v, rfl, hsum, ?_, hkeyF, ?_⟩
      · rw [hsum, hlaw.count_add, hlaw.count_value]
        omega
      · rw [hsum] at hfit
        exact hlaw.fits_right (hlaw.sound_value (mem_rowKeys hkey).2.2)
          (hlaw.sound_scratch hrs) hfit
  apply Exists.intro
  apply bind_eq_ok.mpr
  refine ⟨(), require_pos hpres, ?_⟩
  refine bind_eq_ok.mpr ⟨_, updateRows_total ?_, updateRows_total ?_⟩
  · intro row hrow w hw
    by_cases hkey : row.1 ∈ table.rowKeys active .current old
    · obtain ⟨v, hrs, hsum, hmy, hkeyF, hfit⟩ := hl row hrow hkey
      rw [if_pos ⟨hkey, hmy⟩, hsum] at hw
      cases hw
      obtain ⟨hsd, hfit'⟩ := hlaw.taken (mem_rowKeys hkey).2.2 (hlaw.sound_scratch hrs)
      exact ⟨hkeyF, hsd, hfit' hfit⟩
    · rw [if_neg fun h => hkey h.1] at hw
      cases hw
  · intro row hrow w hw
    obtain ⟨before, hbef, rfl⟩ := List.mem_map.mp hrow
    by_cases hkey : before.1 ∈ table.rowKeys active .current old
    · obtain ⟨v, hrs, hsum, hmy, hkeyF, hfit⟩ := hl before hbef hkey
      rw [if_pos hkey] at hw
      cases hw
      rw [if_pos ⟨hkey, hmy⟩, Option.getD_some, hsum]
      obtain ⟨_, rfl, hsd, hfit', _⟩ := @Lawful.settled _ _ _ _ _ hlaw old before.1.2.2 v fresh
        rest (mem_rowKeys hkey).2.2 hrs
      exact ⟨hkeyF, hsd, hfit' hfit⟩
    · rw [if_neg hkey] at hw
      cases hw

/-- An update replaces the old event by the new one. -/
theorem updateTrigger_ok
    (h : table.updateTrigger active (new :: rest) old new rows = .ok rows') :
    get rows' = table.cells active .current (new :: rest) + others ∧
      Keyed Prod.fst rows' ∧ (Checked table.Check rows → Checked table.Check rows') := by
  obtain ⟨between, hdel, hinsert⟩ := bind_eq_ok.mp h
  obtain ⟨hget, hkd, hck⟩ := deleteTrigger_ok hlaw hothers hkd hrows [new] hdel
  obtain ⟨hget', hkd', hck'⟩ := insertTrigger_ok hlaw hkd hinsert
  exact ⟨hget'.trans hget, hkd', fun hrows => hck' (hck hrows)⟩

theorem updateTrigger_total (hck : Checked table.Check rows)
    (hks : ∀ k ∈ table.keys new, table.keyFits k)
    (hfit : ∀ k (v : V), table.scratch (new :: rest) k = v → table.fits v) :
    ∃ rows', table.updateTrigger active (new :: rest) old new rows = .ok rows' := by
  obtain ⟨between, hdel⟩ := deleteTrigger_total hlaw hothers hkd hrows [new] hck
  obtain ⟨hget, hkd', hck'⟩ := deleteTrigger_ok hlaw hothers hkd hrows [new] hdel
  obtain ⟨rows', hinsert⟩ := insertTrigger_total hlaw hkd' (hck' hck) hks (by
    intro k _ v hv
    rw [hget, Pi.add_apply, hothers, add_zero, cells_apply, if_pos ⟨rfl, rfl⟩] at hv
    exact hfit k v hv)
  exact ⟨rows', bind_eq_ok.mpr ⟨between, hdel, hinsert⟩⟩

end Split

/-! ### The active generation -/

variable (table) in
/-- A table whose cells of the active generation are those of the present rows. -/
structure Exact (active : ℕ) (current legacy : List UsageEvent) (rows : Rows κ V) : Prop where
  keyed : Keyed Prod.fst rows
  checked : Checked table.Check rows
  current : ∀ k, get rows (active, .current, k) = table.scratch current k
  legacy : ∀ k, get rows (active, .legacy, k) = table.scratch legacy k

variable (table) in
/-- The sums of some events are in range. -/
def SumsFit (events : List UsageEvent) : Prop :=
  ∀ k (v : V), table.scratch events k = v → table.fits v

/-- All rows are of one generation. -/
def Only (active : ℕ) (rows : Rows κ V) : Prop := ∀ row ∈ rows, row.1.1 = active

/-- The cells that no trigger changes. -/
def others (active : ℕ) (rows : Rows κ V) (key : RowKey κ) : WithZero V :=
  if key.1 = active ∧ key.2.1 = .current then 0 else get rows key

omit [AddCommSemigroup V] in
theorem others_current (k : κ) : others active rows (active, .current, k) = 0 := if_pos ⟨rfl, rfl⟩

namespace Exact

variable {active : ℕ} {current legacy cur' : List UsageEvent} {rows rows' : Rows κ V}

omit [∀ key v, Decidable (table.Check key v)] in
theorem split (h : table.Exact active current legacy rows) :
    get rows = table.cells active .current current + others active rows := by
  funext key
  rw [Pi.add_apply, cells_apply, others]
  by_cases hkey : key.1 = active ∧ key.2.1 = .current
  · obtain ⟨gen, data, k⟩ := key
    obtain ⟨rfl, rfl⟩ := hkey
    rw [if_pos ⟨rfl, rfl⟩, if_pos ⟨rfl, rfl⟩, add_zero]
    exact h.current k
  · rw [if_neg hkey, if_neg hkey, zero_add]

omit [∀ key v, Decidable (table.Check key v)] in
theorem of_split (h : table.Exact active current legacy rows)
    (hget : get rows' = table.cells active .current cur' + others active rows)
    (hkd : Keyed Prod.fst rows') (hck : Checked table.Check rows') :
    table.Exact active cur' legacy rows' ∧ (Only active rows → Only active rows') := by
  refine ⟨⟨hkd, hck, fun k => ?_, fun k => ?_⟩, fun honly row hrow => ?_⟩
  · rw [hget, Pi.add_apply, others_current, add_zero, cells_apply, if_pos ⟨rfl, rfl⟩]
  · have hne : ¬ (active = active ∧ DatasetKind.legacy = .current) := fun h => by cases h.2
    rw [hget, Pi.add_apply, cells_apply, if_neg hne, zero_add, others, if_neg hne]
    exact h.legacy k
  · by_contra hne
    have hc := (get_eq_coe_iff hkd).mpr hrow
    have hno : get rows row.1 = 0 :=
      get_eq_zero_iff.mpr fun old hold hkey => hne (hkey ▸ honly old hold)
    rw [hget, Pi.add_apply, cells_apply, if_neg (fun h => hne h.1), zero_add, others,
      if_neg (fun h => hne h.1), hno] at hc
    exact WithZero.coe_ne_zero hc.symm

omit [∀ key v, Decidable (table.Check key v)] in
theorem perm (h : table.Exact active current legacy rows) (hp : current.Perm cur') :
    table.Exact active cur' legacy rows where
  keyed := h.keyed
  checked := h.checked
  current k := (h.current k).trans (congrFun (gather_perm _ _ hp) k)
  legacy := h.legacy

variable {new old : UsageEvent}

section

variable (hlaw : table.Lawful)

include hlaw

/-- **Triggers keep the table exact.** -/
theorem insert (h : table.Exact active current legacy rows)
    (hrows : table.insertTrigger active new rows = .ok rows') :
    table.Exact active (new :: current) legacy rows' ∧ (Only active rows → Only active rows') := by
  obtain ⟨hget, hkd, hck⟩ := insertTrigger_ok hlaw h.keyed hrows
  refine h.of_split ?_ hkd (hck h.checked)
  rw [hget, h.split, cells_cons active .current new current, add_right_comm,
    add_comm (table.cells active .current current)]

theorem delete {old : UsageEvent} (h : table.Exact active (old :: current) legacy rows)
    (hrows : table.deleteTrigger active current old rows = .ok rows') :
    table.Exact active current legacy rows' ∧ (Only active rows → Only active rows') := by
  obtain ⟨hget, hkd, hck⟩ :=
    deleteTrigger_ok hlaw others_current h.keyed h.split [] hrows
  rw [cells_nil, add_zero] at hget
  exact h.of_split hget hkd (hck h.checked)

theorem update (h : table.Exact active (old :: current) legacy rows)
    (hrows : table.updateTrigger active (new :: current) old new rows = .ok rows') :
    table.Exact active (new :: current) legacy rows' ∧ (Only active rows → Only active rows') := by
  obtain ⟨hget, hkd, hck⟩ := updateTrigger_ok hlaw others_current h.keyed h.split hrows
  exact h.of_split hget hkd (hck h.checked)

theorem insert_total (h : table.Exact active current legacy rows)
    (hks : ∀ k ∈ table.keys new, table.keyFits k) (hfit : table.SumsFit (new :: current)) :
    ∃ rows', table.insertTrigger active new rows = .ok rows' := by
  refine insertTrigger_total hlaw h.keyed h.checked hks fun k _ v hv => hfit k v ?_
  rw [← hv, h.split, add_right_comm, add_comm (table.cells active .current current), ← cells_cons,
    Pi.add_apply, others_current, add_zero, cells_apply, if_pos ⟨rfl, rfl⟩]

end

omit [∀ key v, Decidable (table.Check key v)] in
/-- What a rebuild has put into empty tables: nothing but the rows of its generation. -/
theorem of_rebuilt (hkd : Keyed Prod.fst rows) (hck : Checked table.Check rows)
    (hget : get rows = table.cells active .current current + table.cells active .legacy legacy) :
    table.Exact active current legacy rows ∧ Only active rows := by
  refine ⟨⟨hkd, hck, fun k => ?_, fun k => ?_⟩, fun row hrow => ?_⟩
  · rw [hget, Pi.add_apply, cells_apply, cells_apply, if_pos ⟨rfl, rfl⟩, if_neg (fun h => by cases h.2),
      add_zero]
  · rw [hget, Pi.add_apply, cells_apply, cells_apply, if_neg (fun h => by cases h.2), if_pos ⟨rfl, rfl⟩,
      zero_add]
  · by_contra hne
    have hc := (get_eq_coe_iff hkd).mpr hrow
    rw [hget, Pi.add_apply, cells_apply, cells_apply, if_neg (fun h => hne h.1),
      if_neg (fun h => hne h.1), add_zero] at hc
    exact WithZero.coe_ne_zero hc.symm

end Exact

end Lawful

end RollupTable

end TokenMaster.Store
