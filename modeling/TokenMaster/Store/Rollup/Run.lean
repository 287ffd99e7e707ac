import TokenMaster.Store.Rollup.Aggregate

/-!
# TokenMaster.Store.Rollup.Run — rollups over whole runs

Statements on `usage_event` and pages of a rebuild, in any order.  `Consistent` is what they keep:
while the state is `ready` the triggers keep each table exact, and while it is `rebuilding` the tables
hold the rows up to the cursor.
-/

namespace TokenMaster.Store

open Rollup Paging TokenMaster.Except

/-- The key of the pages. -/
abbrev eventKey (event : UsageEvent) : ℕ := event.fingerprint

namespace UsageDb

variable (db : UsageDb)

/-- The current rows that are counted before a dataset is read. -/
def countedBefore : DatasetKind → List UsageEvent
  | .current => []
  | .legacy => db.events

/-- The rows of a dataset up to the cursor. -/
def rowsRead (dataset : DatasetKind) : List UsageEvent :=
  upTo eventKey db.aggregate.rebuildCursorFingerprint (db.datasetRows dataset)

/-- How far a rebuild to a generation has come. -/
def Rebuilt (generation : ℕ) : Option RebuildDataset → Prop
  | none => False
  | some .cleanup => db.aggregate.rebuildProcessedEvents = 0
  | some (.dataset dataset) =>
    (∀ name : RollupName, get (db.rollups name) =
      name.table.cells generation .current (db.countedBefore dataset) +
        name.table.cells generation dataset (db.rowsRead dataset)) ∧
    db.aggregate.rebuildProcessedEvents =
      (db.countedBefore dataset).length + (db.rowsRead dataset).length

/-- The tables of a ready database are those of its rows. -/
def Exact : Prop :=
  ∀ name : RollupName, name.table.Exact db.aggregate.activeAggregateGeneration db.events
    (db.datasetRows .legacy) (db.rollups name)

/-- What every statement and every page keeps. -/
structure Consistent : Prop where
  keyed_events : Keyed eventKey db.events
  keyed_legacy : Keyed eventKey (db.datasetRows .legacy)
  currentCount : db.aggregate.currentEventCount = db.events.length
  legacyCount : db.aggregate.legacyEventCount = (db.datasetRows .legacy).length
  expected : db.aggregate.expectedDatasetGeneration = db.datasetGeneration
  keyed : ∀ name, Keyed Prod.fst (db.rollups name)
  checked : ∀ name : RollupName, Checked name.table.Check (db.rollups name)
  ready : db.aggregate.state = .ready → db.Exact
  rebuilding : db.aggregate.state = .rebuilding →
    db.aggregate.rebuildTotalEvents = db.events.length + (db.datasetRows .legacy).length ∧
    ∃ generation, db.aggregate.rebuildAggregateGeneration = some generation ∧
      db.Rebuilt generation db.aggregate.rebuildDatasetKind

end UsageDb

/-! ### Statements -/

namespace UsageDb

/-- A rebuild publishes its generation, and no row of another one is left. -/
def Published (db : UsageDb) : Prop :=
  ∀ name, ∀ row ∈ db.rollups name, row.1.1 = db.aggregate.activeAggregateGeneration

/-- Nothing but the active generation is left while the tables are ready. -/
def Tidy (db : UsageDb) : Prop := db.aggregate.state = .ready → db.Published

variable {db db' between : UsageDb} {events' : List UsageEvent} {count limit : ℕ}
  {body : (name : RollupName) → ℕ → Rows name.Key name.Cell →
    Except TriggerAbort (Rows name.Key name.Cell)}
  {status : AggregateRebuildStatus} {dataset : DatasetKind}

/-- A fresh row keeps the fingerprints apart. -/
theorem keyed_cons {new : UsageEvent} (h : Keyed eventKey events')
    (hfr : ∀ ev ∈ events', ev.fingerprint ≠ new.fingerprint) :
    Keyed eventKey (new :: events') := by
  refine List.nodup_cons.mpr ⟨fun hmem => ?_, h⟩
  obtain ⟨ev, hev, hsm⟩ := List.mem_map.mp hmem
  exact hfr ev hev hsm

theorem touch_ok (h : db.touch count = .ok db') : db' = db.touched count := by
  obtain ⟨_, _, h⟩ := bind_eq_ok.mp h
  exact (Except.ok.inj h).symm

/-- The rows change and the triggers follow. -/
theorem Consistent.modified (h : db.Consistent) (hkd : Keyed eventKey events')
    (hct : count = events'.length)
    (hbd : ({ db with events := events' }.touched count).rollupTriggers body = .ok db')
    (hkeep : ∀ name rows rows', name.table.Exact db.aggregate.activeAggregateGeneration db.events
      (db.datasetRows .legacy) rows →
      body name db.aggregate.activeAggregateGeneration rows = .ok rows' →
      name.table.Exact db.aggregate.activeAggregateGeneration events' (db.datasetRows .legacy) rows' ∧
        (RollupTable.Only db.aggregate.activeAggregateGeneration rows →
          RollupTable.Only db.aggregate.activeAggregateGeneration rows')) :
    db'.Consistent ∧ (db.Tidy → db'.Tidy) := by
  by_cases hrdy : db.aggregate.state = .ready
  · have hsta : ({ db with events := events' }.touched count).aggregate.state = .ready := if_pos hrdy
    rw [rollupTriggers, if_pos hsta] at hbd
    obtain ⟨rollups, hch, hbd⟩ := bind_eq_ok.mp hbd
    obtain rfl := Except.ok.inj hbd
    have hkp := fun name : RollupName =>
      hkeep name _ _ (h.ready hrdy name) (Rollups.change_ok hch name)
    refine ⟨{ h with
      keyed_events := hkd
      currentCount := hct
      expected := rfl
      keyed := fun name => (hkp name).1.keyed
      checked := fun name => (hkp name).1.checked
      ready := fun _ name => (hkp name).1
      rebuilding := fun hrebu => by
        rw [hsta] at hrebu
        cases hrebu }, fun htidy _ name => (hkp name).2 (htidy hrdy name)⟩
  · have hsta : ({ db with events := events' }.touched count).aggregate.state = .rebuildRequired :=
      if_neg hrdy
    rw [rollupTriggers, if_neg (by rw [hsta]; decide)] at hbd
    obtain rfl := Except.ok.inj hbd
    have hnot : ({ db with events := events' }.touched count).aggregate.state ≠ .ready := by
      rw [hsta]
      decide
    refine ⟨{ h with
      keyed_events := hkd
      currentCount := hct
      expected := rfl
      ready := fun hrdy => absurd hrdy hnot
      rebuilding := fun hrebu => by
        rw [hsta] at hrebu
        cases hrebu }, fun _ hrdy => absurd hrdy hnot⟩

variable {old : UsageEvent}

/-- The rows with another fingerprint are all but one. -/
theorem Consistent.perm_otherEvents (h : db.Consistent) (hold : old ∈ db.events) :
    db.events.Perm (old :: db.otherEvents old.fingerprint) :=
  h.keyed_events.perm_cons_filter hold

theorem Consistent.insertEvent (h : db.Consistent) {new : UsageEvent}
    (hdb' : db.insertEvent new = .ok db') : db'.Consistent ∧ (db.Tidy → db'.Tidy) := by
  obtain ⟨_, hfr, hdb'⟩ := bind_eq_ok.mp hdb'
  obtain ⟨_, _, hdb'⟩ := bind_eq_ok.mp hdb'
  obtain ⟨between, htouch, hbd⟩ := bind_eq_ok.mp (mapError_eq_ok.mp hdb')
  obtain ⟨_, _, htouch⟩ := bind_eq_ok.mp htouch
  obtain ⟨_, _, htouch⟩ := bind_eq_ok.mp htouch
  obtain rfl := touch_ok htouch
  refine h.modified (keyed_cons h.keyed_events (require_eq_ok.mp hfr)) ?_ hbd
    fun name rows rows' hrs hrs' => hrs.insert name.lawful hrs'
  rw [List.length_cons, ← h.currentCount]

theorem Consistent.updateEvent (h : db.Consistent) {new : UsageEvent} (hold : old ∈ db.events)
    (hdb' : db.updateEvent old new = .ok db') : db'.Consistent ∧ (db.Tidy → db'.Tidy) := by
  obtain ⟨_, hfr, hdb'⟩ := bind_eq_ok.mp hdb'
  obtain ⟨_, _, hdb'⟩ := bind_eq_ok.mp hdb'
  obtain ⟨between, htouch, hbd⟩ := bind_eq_ok.mp (mapError_eq_ok.mp hdb')
  obtain ⟨_, _, htouch⟩ := bind_eq_ok.mp htouch
  obtain rfl := touch_ok htouch
  have hp := h.perm_otherEvents hold
  refine h.modified (keyed_cons (h.keyed_events.filter _) (require_eq_ok.mp hfr)) ?_ hbd
    fun name rows rows' hrs hrs' => (hrs.perm hp).update name.lawful hrs'
  show db.aggregate.currentEventCount = _
  rw [h.currentCount, hp.length_eq]
  rfl

theorem Consistent.deleteEvent (h : db.Consistent) (hold : old ∈ db.events)
    (hdb' : db.deleteEvent old = .ok db') : db'.Consistent ∧ (db.Tidy → db'.Tidy) := by
  obtain ⟨between, htouch, hbd⟩ := bind_eq_ok.mp (mapError_eq_ok.mp hdb')
  obtain ⟨_, _, htouch⟩ := bind_eq_ok.mp htouch
  obtain ⟨_, _, htouch⟩ := bind_eq_ok.mp htouch
  obtain rfl := touch_ok htouch
  have hp := h.perm_otherEvents hold
  refine h.modified (h.keyed_events.filter _) ?_ hbd fun name rows rows' hrs hrs' =>
    (hrs.perm hp).delete name.lawful hrs'
  show db.aggregate.currentEventCount - 1 = _
  rw [h.currentCount, hp.length_eq, List.length_cons, Nat.add_sub_cancel]
  rfl

/-- Statements keep the database consistent. -/
theorem Consistent.apply (h : db.Consistent) {m : Modification} (hdb' : m.apply db = .ok db') :
    db'.Consistent ∧ (db.Tidy → db'.Tidy) := by
  cases m with
  | insert new => exact h.insertEvent hdb'
  | update fingerprint new =>
    simp only [Modification.apply] at hdb'
    split at hdb'
    · cases hdb'
      exact ⟨h, id⟩
    · rename_i old hold
      exact h.updateEvent (List.mem_of_find?_eq_some hold) hdb'
  | delete fingerprint =>
    simp only [Modification.apply] at hdb'
    split at hdb'
    · cases hdb'
      exact ⟨h, id⟩
    · rename_i old hold
      exact h.deleteEvent (List.mem_of_find?_eq_some hold) hdb'

/-! ### Pages of a rebuild -/

/-- A stale rebuild is not possible here, as every statement ends the rebuild that is going on. -/
theorem Consistent.openRebuild (h : db.Consistent) (hdb' : db.openRebuild = .ok db') :
    db'.Consistent := by
  obtain ⟨opened, hop, hdb'⟩ := bind_eq_ok.mp hdb'
  rw [if_neg fun hstl => hstl.2 h.expected.symm] at hop
  obtain rfl := Except.ok.inj hop
  by_cases hrequ : db.aggregate.state = .rebuildRequired ∨ db.aggregate.state = .failed
  · rw [if_pos hrequ] at hdb'
    obtain ⟨_, _, hdb'⟩ := bind_eq_ok.mp hdb'
    obtain rfl := Except.ok.inj hdb'
    exact { h with
      expected := rfl
      ready := fun hrdy => by cases hrdy
      rebuilding := fun _ => by
        refine ⟨?_, _, rfl, rfl⟩
        show db.aggregate.currentEventCount + db.aggregate.legacyEventCount = _
        rw [h.currentCount, h.legacyCount]
        rfl }
  · rw [if_neg hrequ] at hdb'
    obtain rfl := Except.ok.inj hdb'
    exact h

variable {generation : ℕ}

theorem Consistent.finishRebuild {done : ℕ} {rollups : Rollups} (h : db.Consistent)
    (hkd : ∀ name, Keyed Prod.fst (rollups name))
    (hck : ∀ name : RollupName, Checked name.table.Check (rollups name))
    (hrs : ∀ name : RollupName, get (rollups name) =
      name.table.cells generation .current db.events +
        name.table.cells generation .legacy (db.datasetRows .legacy))
    (hdb' : { db with rollups := rollups }.finishRebuild generation done = .ok db') :
    db'.Consistent ∧ db'.Published := by
  obtain ⟨_, _, hdb'⟩ := bind_eq_ok.mp hdb'
  obtain rfl := Except.ok.inj hdb'
  have hex := fun name : RollupName =>
    RollupTable.Exact.of_rebuilt (hkd name) (hck name) (hrs name)
  refine ⟨{ h with
    keyed := hkd
    checked := hck
    ready := fun _ name => (hex name).1
    rebuilding := ?_ }, fun name => (hex name).2⟩
  intro hrebu
  cases hrebu

variable {progress : AggregateRebuildProgress}

theorem Consistent.cleanupPage (h : db.Consistent) (hsta : db.aggregate.state = .rebuilding)
    (hgeneration : db.aggregate.rebuildAggregateGeneration = some generation)
    (hkd : db.aggregate.rebuildDatasetKind = some .cleanup) (hlim : limit ≠ 0)
    (hdb' : db.cleanupPage generation limit status = .ok (progress, db')) :
    db'.Consistent ∧ (db'.aggregate.state = .ready → db'.Published) := by
  obtain ⟨htot, _, _, hpr⟩ := h.rebuilding hsta
  rw [hkd] at hpr
  have hnotR : db.aggregate.state ≠ .ready := by
    rw [hsta]
    decide
  have hclr : { db with rollups := fun name => (db.rollups name).drop (12 * limit) }.Consistent := {
    h with
    keyed := fun name => (h.keyed name).sublist (List.drop_sublist ..)
    checked := fun name row hrow => h.checked name row (List.mem_of_mem_drop hrow)
    ready := fun hrdy => absurd hrdy hnotR
    rebuilding := fun _ => by
      refine ⟨htot, generation, hgeneration, ?_⟩
      show UsageDb.Rebuilt _ _ db.aggregate.rebuildDatasetKind
      rw [hkd]
      exact hpr }
  unfold UsageDb.cleanupPage at hdb'
  by_cases hno : ∀ name, min (12 * limit) (db.rollups name).length = 0
  · have hemp : ∀ name, (db.rollups name).drop (12 * limit) = [] := by
      intro name
      have hlength := hno name
      exact List.drop_eq_nil_of_le (by omega)
    rw [if_pos hno] at hdb'
    by_cases hz : db.aggregate.rebuildTotalEvents = 0
    · rw [if_pos hz] at hdb'
      obtain ⟨finished, hfin, hdb'⟩ := bind_eq_ok.mp hdb'
      obtain ⟨_, rfl⟩ := Prod.mk.inj (Except.ok.inj hdb')
      have hevs : db.events = [] := List.eq_nil_of_length_eq_zero (by omega)
      have hleg : db.datasetRows .legacy = [] := List.eq_nil_of_length_eq_zero (by omega)
      obtain ⟨hcon, hpub⟩ := h.finishRebuild hclr.keyed hclr.checked (fun name => by
        show get ((db.rollups name).drop (12 * limit)) = _
        rw [hemp, hevs, hleg]
        rfl) hfin
      exact ⟨hcon, fun _ => hpub⟩
    · rw [if_neg hz] at hdb'
      obtain ⟨_, rfl⟩ := Prod.mk.inj (Except.ok.inj hdb')
      refine ⟨{ hclr with
        ready := fun hrdy => absurd hrdy hnotR
        rebuilding := fun _ => ⟨htot, generation, hgeneration, ?_⟩ },
        fun hrdy => absurd hrdy hnotR⟩
      -- the first dataset starts behind no row, and nothing is counted before it
      have hf : db.countedBefore (if db.aggregate.currentEventCount = 0 then .legacy else .current) =
          [] := by
        by_cases hct : db.aggregate.currentEventCount = 0
        · rw [if_pos hct]
          exact List.eq_nil_of_length_eq_zero (h.currentCount.symm.trans hct)
        · rw [if_neg hct]
          rfl
      refine ⟨fun name => ?_, ?_⟩
      · show get ((db.rollups name).drop (12 * limit)) =
          name.table.cells generation .current (db.countedBefore _) +
            name.table.cells generation _ (upTo eventKey none _)
        rw [hemp, hf, upTo_none]
        rfl
      · show db.aggregate.rebuildProcessedEvents = (db.countedBefore _).length +
          (upTo eventKey none _).length
        rw [hf, upTo_none]
        exact hpr
  · rw [if_neg hno] at hdb'
    obtain ⟨_, rfl⟩ := Prod.mk.inj (Except.ok.inj hdb')
    exact ⟨hclr, fun hrdy => absurd hrdy hnotR⟩

/-- A page adds its rows to every table. -/
theorem materializePage_ok {page : List UsageEvent} (h : db.Consistent)
    (hdb' : (if 0 < page.length then db.materializePage generation dataset page else .ok db) =
      .ok db') :
    ∃ rollups : Rollups, db' = { db with rollups := rollups } ∧ ∀ name : RollupName,
      get (rollups name) = get (db.rollups name) + name.table.cells generation dataset page ∧
        Keyed Prod.fst (rollups name) ∧ Checked name.table.Check (rollups name) := by
  by_cases hpg : 0 < page.length
  · rw [if_pos hpg] at hdb'
    obtain ⟨rollups, hch, hdb'⟩ := bind_eq_ok.mp hdb'
    have hch := Rollups.change_ok (mapError_eq_ok.mp hch)
    refine ⟨rollups, (Except.ok.inj hdb').symm, fun name => ?_⟩
    obtain ⟨hget, hkd, hck⟩ := RollupTable.materialize_ok (h.keyed name) (hch name)
    exact ⟨hget, hkd, hck (h.checked name)⟩
  · rw [if_neg hpg] at hdb'
    have hnil : page = [] := List.eq_nil_of_length_eq_zero (by omega)
    refine ⟨db.rollups, (Except.ok.inj hdb').symm, fun name => ⟨?_, h.keyed name, h.checked name⟩⟩
    rw [hnil, RollupTable.cells_nil, add_zero]

theorem Consistent.keyed_datasetRows (h : db.Consistent) (dataset : DatasetKind) :
    Keyed eventKey (db.datasetRows dataset) := by
  cases dataset with
  | current => exact h.keyed_events
  | legacy => exact h.keyed_legacy

theorem Consistent.datasetPage (h : db.Consistent) (hsta : db.aggregate.state = .rebuilding)
    (hgeneration : db.aggregate.rebuildAggregateGeneration = some generation)
    (hkd : db.aggregate.rebuildDatasetKind = some (.dataset dataset))
    (hdb' : db.datasetPage dataset generation limit status = .ok (progress, db')) :
    db'.Consistent ∧ (db'.aggregate.state = .ready → db'.Published) := by
  obtain ⟨htot, generation', hso, hreb⟩ := h.rebuilding hsta
  obtain rfl : generation = generation' := Option.some.inj (hgeneration.symm.trans hso)
  rw [hkd] at hreb
  obtain ⟨hcells, hpr⟩ := hreb
  have hnotR : db.aggregate.state ≠ .ready := by
    rw [hsta]
    decide
  obtain ⟨stored, hsto, hdb'⟩ := bind_eq_ok.mp hdb'
  obtain ⟨rollups, rfl, hroll⟩ := materializePage_ok h hsto
  obtain ⟨_, _, hdb'⟩ := bind_eq_ok.mp hdb'
  obtain ⟨_, _, hdb'⟩ := bind_eq_ok.mp hdb'
  -- what the tables hold now are the rows up to the cursor and the page
  have hnow : ∀ {read : List UsageEvent}, read.Perm (db.rowsRead dataset ++
      page eventKey db.aggregate.rebuildCursorFingerprint limit (db.datasetRows dataset)) →
      (∀ name : RollupName, get (rollups name) =
        name.table.cells generation .current (db.countedBefore dataset) +
          name.table.cells generation dataset read) ∧
      db.aggregate.rebuildProcessedEvents +
        (page eventKey db.aggregate.rebuildCursorFingerprint limit (db.datasetRows dataset)).length =
          (db.countedBefore dataset).length + read.length := by
    intro read hp
    refine ⟨fun name => ?_, ?_⟩
    · rw [(hroll name).1, hcells name, RollupTable.cells_perm hp, RollupTable.cells_append,
        add_assoc]
    · rw [hpr, hp.length_eq, List.length_append, add_assoc]
  by_cases hl : (page eventKey db.aggregate.rebuildCursorFingerprint limit
      (db.datasetRows dataset)).length < limit
  · obtain ⟨hget, hct⟩ := hnow (perm_of_last_page hl)
    by_cases hmo : dataset = .current ∧ 0 < db.aggregate.legacyEventCount
    · -- the current rows are done, and the legacy rows follow from the first one
      rw [if_pos ⟨hl, hmo⟩] at hdb'
      obtain ⟨_, rfl⟩ := Prod.mk.inj (Except.ok.inj hdb')
      obtain ⟨rfl, _⟩ := hmo
      refine ⟨{ h with
        keyed := fun name => (hroll name).2.1
        checked := fun name => (hroll name).2.2
        ready := fun hrdy => absurd hrdy hnotR
        rebuilding := fun _ => ⟨htot, generation, hgeneration, fun name => ?_, ?_⟩ },
        fun hrdy => absurd hrdy hnotR⟩
      · show get (rollups name) = name.table.cells generation .current db.events +
          name.table.cells generation .legacy (upTo eventKey none _)
        rw [hget name, upTo_none, RollupTable.cells_nil, add_zero]
        exact zero_add _
      · show _ + _ = db.events.length + (upTo eventKey none _).length
        rw [hct, upTo_none]
        exact Nat.zero_add _
    · rw [if_neg fun hall => hmo hall.2, if_pos hl] at hdb'
      obtain ⟨_, _, hdb'⟩ := bind_eq_ok.mp hdb'
      obtain ⟨finished, hfin, hdb'⟩ := bind_eq_ok.mp hdb'
      obtain ⟨_, rfl⟩ := Prod.mk.inj (Except.ok.inj hdb')
      obtain ⟨hcon, hpub⟩ := h.finishRebuild (fun name => (hroll name).2.1)
        (fun name => (hroll name).2.2) (fun name => by
          rw [hget name]
          cases dataset with
          | legacy => rfl
          | current =>
            have hleg : db.datasetRows .legacy = [] := by
              refine List.eq_nil_of_length_eq_zero ?_
              rw [← h.legacyCount]
              by_contra hne
              exact hmo ⟨rfl, Nat.pos_of_ne_zero hne⟩
            rw [hleg, RollupTable.cells_nil, add_zero]
            exact zero_add _) hfin
      exact ⟨hcon, fun _ => hpub⟩
  · rw [if_neg fun hall => hl hall.1, if_neg hl] at hdb'
    obtain ⟨last, hlK, hdb'⟩ := bind_eq_ok.mp hdb'
    obtain ⟨_, rfl⟩ := Prod.mk.inj (Except.ok.inj hdb')
    obtain ⟨hget, hct⟩ := hnow (upTo_lastKey (h.keyed_datasetRows dataset) (okOr_eq_ok.mp hlK))
    refine ⟨{ h with
      keyed := fun name => (hroll name).2.1
      checked := fun name => (hroll name).2.2
      ready := fun hrdy => absurd hrdy hnotR
      rebuilding := fun _ => ⟨htot, generation, hgeneration, ?_⟩ },
      fun hrdy => absurd hrdy hnotR⟩
    show UsageDb.Rebuilt _ _ db.aggregate.rebuildDatasetKind
    rw [hkd]
    exact ⟨hget, hct⟩

/-- Pages keep the database consistent, and nothing but the new generation is left when one of them
publishes. -/
theorem Consistent.rebuildAggregatesPage {maxEvents : ℕ} (h : db.Consistent)
    (hdb' : db.rebuildAggregatesPage maxEvents = .ok (progress, db')) :
    db'.Consistent ∧ (db.Tidy → db'.Tidy) := by
  obtain ⟨_, hlim, hdb'⟩ := bind_eq_ok.mp hdb'
  have hlim := (require_eq_ok.mp hlim).1
  by_cases hrdy : db.aggregate.state = .ready
  · rw [if_pos hrdy] at hdb'
    obtain ⟨_, rfl⟩ := Prod.mk.inj (Except.ok.inj hdb')
    exact ⟨h, id⟩
  · rw [if_neg hrdy] at hdb'
    obtain ⟨opened, hop, hdb'⟩ := bind_eq_ok.mp hdb'
    have hop := h.openRebuild hop
    obtain ⟨_, hsta, hdb'⟩ := bind_eq_ok.mp hdb'
    have hsta := require_eq_ok.mp hsta
    obtain ⟨generation, hgeneration, hdb'⟩ := bind_eq_ok.mp hdb'
    have hgeneration := okOr_eq_ok.mp hgeneration
    cases hkd : opened.aggregate.rebuildDatasetKind with
    | none =>
      rw [hkd] at hdb'
      cases hdb'
    | some kind =>
      rw [hkd] at hdb'
      cases kind with
      | cleanup =>
        obtain ⟨hcon, hpub⟩ := hop.cleanupPage hsta hgeneration hkd hlim hdb'
        exact ⟨hcon, fun _ => hpub⟩
      | dataset dataset =>
        obtain ⟨hcon, hpub⟩ := hop.datasetPage hsta hgeneration hkd hdb'
        exact ⟨hcon, fun _ => hpub⟩

end UsageDb

/-! ### When a trigger aborts -/

/-- The rows of `usage_event` once a statement is done. -/
def Modification.result : Modification → UsageDb → List UsageEvent
  | insert new, db => new :: db.events
  | update fingerprint new, db =>
    match db.events.find? fun event => event.fingerprint == fingerprint with
    | none => db.events
    | some old => new :: db.otherEvents old.fingerprint
  | delete fingerprint, db => db.otherEvents fingerprint

/-- The row that a statement writes. -/
def Modification.written : Modification → Option UsageEvent
  | insert new => some new
  | update _ new => some new
  | delete _ => none

/-- The buckets of an event can be stored. -/
def UsageEvent.Bucketable (event : UsageEvent) : Prop :=
  -2 ^ 63 ≤ bucketStart .hour event.timestampSeconds

instance (event : UsageEvent) : Decidable event.Bucketable := inferInstanceAs (Decidable (_ ≤ _))

theorem UsageEvent.Bucketable.fits {ev : UsageEvent} (h : ev.Bucketable)
    (hstor : ev.Storable) (width : BucketWidth) :
    fitsI64 (bucketStart width ev.timestampSeconds) :=
  ⟨le_trans h (bucketStart_hour_le width _), lt_of_le_of_lt (bucketStart_le width _) hstor.1.2⟩

theorem UsageEvent.Bucketable.keyFits {ev : UsageEvent} (h : ev.Bucketable)
    (hstor : ev.Storable) (name : RollupName) :
    ∀ k ∈ name.table.keys ev, name.table.keyFits k := by
  intro k hk
  cases name with
  | time =>
    obtain ⟨width, _, hk⟩ := List.mem_flatMap.mp hk
    obtain ⟨dimension, _, rfl⟩ := List.mem_map.mp hk
    exact h.fits hstor width
  | session | priceSession => exact trivial
  | priceTime =>
    obtain ⟨width, _, rfl⟩ := List.mem_map.mp hk
    exact h.fits hstor width

namespace UsageDb

variable {db : UsageDb} {events' : List UsageEvent} {count : ℕ}
  {body : (name : RollupName) → ℕ → Rows name.Key name.Cell →
    Except TriggerAbort (Rows name.Key name.Cell)}

theorem Consistent.modified_total (h : db.Consistent) (hct : count = events'.length)
    (hfit : events'.length + (db.datasetRows .legacy).length ≤ i64Max)
    (hbd : db.aggregate.state = .ready → ∀ name rows,
      name.table.Exact db.aggregate.activeAggregateGeneration db.events (db.datasetRows .legacy) rows →
      ∃ rows', body name db.aggregate.activeAggregateGeneration rows = .ok rows') :
    ∃ db', (do
      let touched ← { db with events := events' }.touch count
      touched.rollupTriggers body) = .ok db' := by
  have htouch : { db with events := events' }.touch count =
      .ok ({ db with events := events' }.touched count) := by
    refine require_bind.mpr ⟨?_, rfl⟩
    show count + db.aggregate.legacyEventCount ≤ i64Max
    rw [hct, h.legacyCount]
    exact hfit
  rw [htouch, ok_bind, rollupTriggers]
  by_cases hrdy : db.aggregate.state = .ready
  · have hsta : ({ db with events := events' }.touched count).aggregate.state = .ready := if_pos hrdy
    rw [if_pos hsta]
    obtain ⟨rollups, hch⟩ := @Rollups.change_total
      (fun name => body name db.aggregate.activeAggregateGeneration) db.rollups
      (fun name => hbd hrdy name _ (h.ready hrdy name))
    exact ⟨_, bind_eq_ok.mpr ⟨rollups, hch, rfl⟩⟩
  · have hsta : ({ db with events := events' }.touched count).aggregate.state = .rebuildRequired :=
      if_neg hrdy
    rw [if_neg (by rw [hsta]; decide)]
    exact ⟨_, rfl⟩

section NotAborted

variable {old new : UsageEvent} (h : db.Consistent) (hgeneration : db.datasetGeneration ≠ i64Max)
  (abort : TriggerAbort)

include h hgeneration

theorem Consistent.insertEvent_not_aborted
    (hbucket : db.aggregate.state = .ready → new.Bucketable)
    (hss : ∀ name : RollupName, name.table.SumsFit (new :: db.events))
    (hfit : (new :: db.events).length + (db.datasetRows .legacy).length ≤ i64Max) :
    db.insertEvent new ≠ .error (.trigger abort) := by
  unfold UsageDb.insertEvent
  by_cases hfr : ∀ ev ∈ db.events, ev.fingerprint ≠ new.fingerprint
  · by_cases hstor : new.Storable
    · rw [require_pos hfr, require_pos hstor, ok_bind, ok_bind]
      have hct : db.aggregate.currentEventCount ≠ i64Max := by
        rw [h.currentCount]
        rw [List.length_cons] at hfit
        omega
      obtain ⟨db', hdb'⟩ := @modified_total db (new :: db.events) (db.aggregate.currentEventCount + 1)
        (fun name active => name.table.insertTrigger active new) h
        (by rw [List.length_cons, h.currentCount]) hfit
        (fun hrdy name rows hrs => hrs.insert_total name.lawful
          ((hbucket hrdy).keyFits hstor name) (hss name))
      unfold datasetInsertTrigger
      rw [require_pos hgeneration, require_pos hct, ok_bind, ok_bind, hdb']
      intro herr
      cases herr
    · rw [require_pos hfr, require_neg hstor, ok_bind]
      intro herr
      cases herr
  · rw [require_neg hfr]
    intro herr
    cases herr

theorem Consistent.updateEvent_not_aborted (hold : old ∈ db.events)
    (hbucket : db.aggregate.state = .ready → new.Bucketable)
    (hss : ∀ name : RollupName, name.table.SumsFit (new :: db.otherEvents old.fingerprint))
    (hfit : (new :: db.otherEvents old.fingerprint).length + (db.datasetRows .legacy).length ≤ i64Max) :
    db.updateEvent old new ≠ .error (.trigger abort) := by
  have hp := h.perm_otherEvents hold
  unfold UsageDb.updateEvent
  by_cases hfr : ∀ ev ∈ db.otherEvents old.fingerprint, ev.fingerprint ≠ new.fingerprint
  · by_cases hstor : new.Storable
    · rw [require_pos hfr, require_pos hstor, ok_bind, ok_bind]
      obtain ⟨db', hdb'⟩ := @modified_total db (new :: db.otherEvents old.fingerprint)
        db.aggregate.currentEventCount (fun name active => name.table.updateTrigger active
          (new :: db.otherEvents old.fingerprint) old new) h
        (by rw [h.currentCount, hp.length_eq, List.length_cons, List.length_cons]) hfit
        (fun hrdy name rows hrs => RollupTable.updateTrigger_total name.lawful RollupTable.others_current hrs.keyed
          (hrs.perm hp).split hrs.checked ((hbucket hrdy).keyFits hstor name)
          (hss name))
      unfold datasetUpdateTrigger
      rw [require_pos hgeneration, ok_bind, hdb']
      intro herr
      cases herr
    · rw [require_pos hfr, require_neg hstor, ok_bind]
      intro herr
      cases herr
  · rw [require_neg hfr]
    intro herr
    cases herr

theorem Consistent.deleteEvent_not_aborted (hold : old ∈ db.events)
    (hfit : (db.otherEvents old.fingerprint).length + (db.datasetRows .legacy).length ≤ i64Max) :
    db.deleteEvent old ≠ .error (.trigger abort) := by
  have hp := h.perm_otherEvents hold
  have hlength : db.aggregate.currentEventCount = (db.otherEvents old.fingerprint).length + 1 := by
    rw [h.currentCount, hp.length_eq, List.length_cons]
  obtain ⟨db', hdb'⟩ := @modified_total db (db.otherEvents old.fingerprint)
    (db.aggregate.currentEventCount - 1) (fun name active => name.table.deleteTrigger active
      (db.otherEvents old.fingerprint) old) h (by omega) hfit
    (fun _ name rows hrs => RollupTable.deleteTrigger_total name.lawful RollupTable.others_current hrs.keyed
      (hrs.perm hp).split [] hrs.checked)
  have hso : db.aggregate.currentEventCount ≠ 0 := by omega
  unfold UsageDb.deleteEvent datasetDeleteTrigger
  dsimp only
  rw [require_pos hgeneration, require_pos hso, ok_bind, ok_bind, hdb']
  intro herr
  cases herr

/-- While the sums are in range a trigger aborts only for want of a generation or of a bucket. -/
theorem Consistent.not_aborted {m : Modification}
    (hbucket : db.aggregate.state = .ready → ∀ new ∈ m.written, new.Bucketable)
    (hss : ∀ name : RollupName, name.table.SumsFit (m.result db))
    (hfit : (m.result db).length + (db.datasetRows .legacy).length ≤ i64Max) :
    m.apply db ≠ .error (.trigger abort) := by
  cases m with
  | insert new =>
    exact h.insertEvent_not_aborted hgeneration abort (fun hrdy => hbucket hrdy new rfl) hss hfit
  | update fingerprint new =>
    simp only [Modification.apply, Modification.result] at hss hfit ⊢
    cases hf : db.events.find? fun ev => ev.fingerprint == fingerprint with
    | none =>
      intro herr
      cases herr
    | some old =>
      simp only [hf] at hss hfit
      exact h.updateEvent_not_aborted hgeneration abort (List.mem_of_find?_eq_some hf)
        (fun hrdy => hbucket hrdy new rfl) hss hfit
  | delete fingerprint =>
    simp only [Modification.apply, Modification.result] at hfit ⊢
    cases hf : db.events.find? fun ev => ev.fingerprint == fingerprint with
    | none =>
      intro herr
      cases herr
    | some old =>
      have hkey : old.fingerprint = fingerprint := by simpa using List.find?_some hf
      rw [← hkey] at hfit
      exact h.deleteEvent_not_aborted hgeneration abort (List.mem_of_find?_eq_some hf) hfit

end NotAborted

end UsageDb

/-! ### Runs -/

/-- What `migrate_v7` stores: the counts, and `ready` if there is nothing to count. -/
def UsageDb.migrated (events : List UsageEvent) (legacy : List LegacyEvent) (sources : List UsageSource)
    (datasetGeneration : ℕ) : UsageDb where
  events := events
  legacy := legacy
  sources := sources
  datasetGeneration := datasetGeneration
  aggregate := {
    state := if events.length = 0 ∧ legacy.length = 0 then .ready else .rebuildRequired
    expectedDatasetGeneration := datasetGeneration
    activeAggregateGeneration := 0
    rebuildAggregateGeneration := none
    currentEventCount := events.length
    legacyEventCount := legacy.length
    rebuildDatasetKind := none
    rebuildCursorFingerprint := none
    rebuildProcessedEvents := 0
    rebuildTotalEvents := events.length + legacy.length }
  rollups := fun _ => []

/-- A database behind a migration.  The tables may hold rows that an earlier version has left, but
none of the active generation. -/
structure UsageDb.Seeded (db : UsageDb) : Prop where
  keyed_events : Keyed (fun event : UsageEvent => event.fingerprint) db.events
  keyed_legacy : Keyed (fun event : LegacyEvent => event.fingerprint) db.legacy
  currentCount : db.aggregate.currentEventCount = db.events.length
  legacyCount : db.aggregate.legacyEventCount = db.legacy.length
  expected : db.aggregate.expectedDatasetGeneration = db.datasetGeneration
  state : db.aggregate.state =
    if db.events.length = 0 ∧ db.legacy.length = 0 then .ready else .rebuildRequired
  keyed : ∀ name, Keyed Prod.fst (db.rollups name)
  checked : ∀ name : RollupName, Checked name.table.Check (db.rollups name)
  inactive : ∀ name, ∀ row ∈ db.rollups name, row.1.1 ≠ db.aggregate.activeAggregateGeneration

theorem UsageDb.seeded_migrated {evs : List UsageEvent} {legacy : List LegacyEvent}
    (hevs : Keyed (fun ev : UsageEvent => ev.fingerprint) evs)
    (hleg : Keyed (fun ev : LegacyEvent => ev.fingerprint) legacy)
    (srcs : List UsageSource) (datasetGeneration : ℕ) :
    (UsageDb.migrated evs legacy srcs datasetGeneration).Seeded where
  keyed_events := hevs
  keyed_legacy := hleg
  currentCount := rfl
  legacyCount := rfl
  expected := rfl
  state := rfl
  keyed _ := Keyed.nil
  checked _ row hrow := by cases hrow
  inactive _ row hrow := by cases hrow

theorem UsageDb.Seeded.consistent {db : UsageDb} (h : db.Seeded) : db.Consistent where
  keyed_events := h.keyed_events
  keyed_legacy := by
    unfold Keyed UsageDb.datasetRows
    rw [List.map_map]
    exact h.keyed_legacy
  currentCount := h.currentCount
  legacyCount := by
    rw [h.legacyCount, UsageDb.datasetRows, List.length_map]
  expected := h.expected
  keyed := h.keyed
  checked := h.checked
  ready hready := by
    have hsta := h.state
    by_cases hno : db.events.length = 0 ∧ db.legacy.length = 0
    · have hevs : db.events = [] := List.eq_nil_of_length_eq_zero hno.1
      have hleg : db.datasetRows .legacy = [] := by
        rw [UsageDb.datasetRows, List.eq_nil_of_length_eq_zero hno.2, List.map_nil]
      intro name
      have hz : ∀ dataset k,
          get (db.rollups name) (db.aggregate.activeAggregateGeneration, dataset, k) = 0 := by
        intro dataset k
        refine get_eq_zero_iff.mpr fun row hrow hkey => h.inactive name row hrow ?_
        rw [hkey]
      refine ⟨h.keyed name, h.checked name, fun k => ?_, fun k => ?_⟩
      · rw [hz, hevs]
        rfl
      · rw [hz, hleg]
        rfl
    · rw [if_neg hno, hready] at hsta
      cases hsta
  rebuilding hrebuilding := by
    have hsta := h.state
    rw [hrebuilding] at hsta
    split_ifs at hsta

/-- A statement on `usage_event` or a call of `rebuild_aggregates_page`. -/
inductive RollupStep where
  | modify (m : Modification)
  | rebuild (maxEvents : ℕ)

/-- A step that fails is rolled back. -/
def UsageDb.step (db : UsageDb) : RollupStep → UsageDb
  | .modify m =>
    match m.apply db with
    | .ok db' => db'
    | .error _ => db
  | .rebuild maxEvents =>
    match db.rebuildAggregatesPage maxEvents with
    | .ok (_, db') => db'
    | .error _ => db

def UsageDb.run (db : UsageDb) (steps : List RollupStep) : UsageDb := steps.foldl UsageDb.step db

theorem UsageDb.Consistent.step {db : UsageDb} (h : db.Consistent) (step : RollupStep) :
    (db.step step).Consistent ∧ (db.Tidy → (db.step step).Tidy) := by
  cases step with
  | modify m =>
    simp only [UsageDb.step]
    cases hdb' : m.apply db with
    | error e => exact ⟨h, id⟩
    | ok db' => exact h.apply hdb'
  | rebuild maxEvents =>
    simp only [UsageDb.step]
    cases hdb' : db.rebuildAggregatesPage maxEvents with
    | error e => exact ⟨h, id⟩
    | ok res => exact h.rebuildAggregatesPage hdb'

theorem UsageDb.Consistent.run {db : UsageDb} (h : db.Consistent) (steps : List RollupStep) :
    (db.run steps).Consistent ∧ (db.Tidy → (db.run steps).Tidy) := by
  induction steps generalizing db with
  | nil => exact ⟨h, id⟩
  | cons step steps ih =>
    obtain ⟨hst, htidy⟩ := h.step step
    exact ⟨(ih hst).1, fun hdb => (ih hst).2 (htidy hdb)⟩

/-- **Rollups that triggers maintain are those of a rebuild.**  Whatever statements and pages have
run, in a ready database every cell of the active generation is the one computed from the present
rows; a page that publishes leaves no row of another generation; and a statement whose sums are in
range and whose buckets can be stored is aborted only when there is no generation left. -/
theorem rollups_follow_rows {start : UsageDb} (hstart : start.Seeded) (steps : List RollupStep) :
    ((start.run steps).aggregate.state = .ready → (start.run steps).Exact) ∧
    (∀ maxEvents progress db',
      (start.run steps).rebuildAggregatesPage maxEvents = .ok (progress, db') →
      (start.run steps).aggregate.state ≠ .ready → db'.aggregate.state = .ready → db'.Published) ∧
    ∀ (m : Modification) (abort : TriggerAbort),
      (∀ name : RollupName, name.table.SumsFit (m.result (start.run steps))) →
      (m.result (start.run steps)).length + (start.run steps).legacy.length ≤ i64Max →
      ((start.run steps).aggregate.state = .ready → ∀ new ∈ m.written, new.Bucketable) →
      m.apply (start.run steps) = .error (.trigger abort) →
      (start.run steps).datasetGeneration = i64Max := by
  have hcon := (hstart.consistent.run steps).1
  refine ⟨hcon.ready, ?_, ?_⟩
  · intro maxEvents progress db' hdb' hnot
    exact (hcon.rebuildAggregatesPage hdb').2 fun hrdy => absurd hrdy hnot
  · intro m abort hss hfit hbucket habort
    by_contra hgeneration
    refine hcon.not_aborted hgeneration abort hbucket hss ?_ habort
    rw [UsageDb.datasetRows, List.length_map]
    exact hfit

/-! An event, for concrete runs. -/

def sampleFacts (timestampSeconds : ℤ) : UsageFacts where
  profileId := ascii "p"
  sessionId := ascii "s"
  timestampSeconds := timestampSeconds
  timestampNanos := 0
  model := ascii "m"
  projectAlias := none
  tokens := fun _ => some 1
  fallbackModel := false
  longContext := .no
  serviceTier := none
  activity := fun _ => 0
  reportedCostUsdMicros := none

def sampleEvent (timestampSeconds : ℤ) : UsageEvent where
  toUsageFacts := sampleFacts timestampSeconds
  fingerprint := 1
  providerId := ascii "codex"

def sampleLegacy : LegacyEvent where
  toUsageFacts := sampleFacts 0
  fingerprint := 1
  selectedFileKey := 0

/-- One event, a legacy row, and some statements behind the migration. -/
def idleDb (generation : ℕ) : UsageDb :=
  { UsageDb.migrated [sampleEvent 0] [sampleLegacy] [] 0 with
    datasetGeneration := generation
    aggregate := { (UsageDb.migrated [sampleEvent 0] [sampleLegacy] [] 0).aggregate with
      expectedDatasetGeneration := generation } }

theorem sampleEvent_sumsFit (name : RollupName) : name.table.SumsFit [sampleEvent 0] := by
  intro k v hv
  have hfit : ∀ k, name.table.fits (name.table.value (sampleEvent 0) k) := by
    intro k
    cases name with
    | time | session => exact (by decide : MetricsFit (sampleEvent 0).metrics)
    | priceTime | priceSession => exact (by decide : MetricsFit (sampleEvent 0).priceMetrics)
  rw [RollupTable.scratch, gather_cons, gather_nil, add_zero, contribution] at hv
  split_ifs at hv with hk
  · rw [← WithZero.coe_injective hv]
    exact hfit k
  · exact absurd hv.symm WithZero.coe_ne_zero

/-- An update that changes nothing takes a generation. -/
theorem idleDb_update {generation : ℕ} (h : generation ≠ i64Max) :
    (Modification.update 1 (sampleEvent 0)).apply (idleDb generation) =
      .ok (idleDb (generation + 1)) := by
  have hf : (idleDb generation).events.find? (fun ev => ev.fingerprint == 1) =
      some (sampleEvent 0) := rfl
  have hfr : ∀ ev ∈ (idleDb generation).otherEvents (sampleEvent 0).fingerprint,
      ev.fingerprint ≠ (sampleEvent 0).fingerprint := by
    show ∀ ev ∈ [], _
    intro ev hev
    cases hev
  have hstor : (sampleEvent 0).Storable := by decide
  have hgeneration : (idleDb generation).datasetGeneration ≠ i64Max := h
  simp only [Modification.apply, hf]
  unfold UsageDb.updateEvent UsageDb.datasetUpdateTrigger UsageDb.touch
  dsimp only
  rw [require_pos hfr, require_pos hstor, require_pos hgeneration]
  rfl

theorem idleDb_run {generation steps : ℕ} (h : generation + steps ≤ i64Max) :
    (idleDb generation).run (List.replicate steps (.modify (.update 1 (sampleEvent 0)))) =
      idleDb (generation + steps) := by
  induction steps generalizing generation with
  | zero => rfl
  | succ steps ih =>
    have hst : (idleDb generation).step (.modify (.update 1 (sampleEvent 0))) =
        idleDb (generation + 1) := by
      simp only [UsageDb.step, idleDb_update (show generation ≠ i64Max by omega)]
    rw [show generation + (steps + 1) = generation + 1 + steps by omega, ← ih (by omega), ← hst]
    rfl

/-- Statements use up the generations, and then every further one is aborted, whatever its sums; and
an event at the lower end of the timestamps has no bucket that can be stored. -/
theorem generations_and_buckets_run_out :
    ((idleDb 0).Seeded ∧ ∃ steps,
      (∀ name : RollupName, name.table.SumsFit
        ((Modification.update 1 (sampleEvent 0)).result ((idleDb 0).run steps))) ∧
      (Modification.update 1 (sampleEvent 0)).apply ((idleDb 0).run steps) =
        .error (.trigger .datasetGenerationExhausted)) ∧
    ((UsageDb.migrated [] [] [] 0).Seeded ∧
      (Modification.insert (sampleEvent (-2 ^ 63))).apply (UsageDb.migrated [] [] [] 0) =
        .error (.trigger .constraint)) := by
  refine ⟨⟨?_, List.replicate i64Max (.modify (.update 1 (sampleEvent 0))), ?_, ?_⟩, ?_, ?_⟩
  · have hevs : Keyed (fun ev : UsageEvent => ev.fingerprint) [sampleEvent 0] :=
      List.nodup_singleton _
    have hleg : Keyed (fun ev : LegacyEvent => ev.fingerprint) [sampleLegacy] :=
      List.nodup_singleton _
    exact UsageDb.seeded_migrated hevs hleg [] 0
  · rw [idleDb_run (Nat.zero_add _).le]
    exact sampleEvent_sumsFit
  · rw [idleDb_run (Nat.zero_add _).le, Nat.zero_add]
    rfl
  · exact UsageDb.seeded_migrated Keyed.nil Keyed.nil [] 0
  · have habor : (match (Modification.insert (sampleEvent (-2 ^ 63))).apply
        (UsageDb.migrated [] [] [] 0) with
      | .ok _ => none
      | .error e => some e) = some (.trigger .constraint) := by decide +kernel
    cases hres : (Modification.insert (sampleEvent (-2 ^ 63))).apply
        (UsageDb.migrated [] [] [] 0) with
    | ok db' =>
      rw [hres] at habor
      cases habor
    | error e =>
      rw [hres] at habor
      rw [Option.some.inj habor]

theorem rollups_follow_rows_inserted :
    ((UsageDb.migrated [] [] [] 0).run [.modify (.insert (sampleEvent 0))]).aggregate.state = .ready ∧
    ((UsageDb.migrated [] [] [] 0).run [.modify (.insert (sampleEvent 0))]).Exact := by
  have hrdy : ((UsageDb.migrated [] [] [] 0).run
      [.modify (.insert (sampleEvent 0))]).aggregate.state = .ready := by decide +kernel
  exact ⟨hrdy, (rollups_follow_rows (UsageDb.seeded_migrated Keyed.nil Keyed.nil [] 0)
    [.modify (.insert (sampleEvent 0))]).1 hrdy⟩

end TokenMaster.Store
