import TokenMaster.Quota.DetectorRun
import TokenMaster.Quota.Thinning

/-!
# TokenMaster.Quota.MaintenanceRun — maintenance is transparent

A history with retention pages is compared with the same history without them.  `Thinned` relates
the two stores: every table but the samples is equal, and the thinner one still has each sample
row that another table names.  An observation keeps the relation and has the same outcome in both
stores; a page keeps it by changing the thinner store only.

`Sound` is what every observation keeps: counters are row numbers, an observation id has one row,
a named sample is stored, and no row is newer than the last sample of its window's epoch.  The last
point is why a deleted row cannot matter: seeing its id again is stale.
-/

namespace TokenMaster.Quota

open Domain Store TokenMaster.Except List

variable {sha : Bytes → Bytes32} {curId : Option QuotaObservationId} {newId : QuotaObservationId}
  {seq limit size next : ℕ} {c : QuotaEpochState} {current : Option QuotaEpochState} {r : SampleRow}
  {result : QuotaStore} {ids : List QuotaObservationId}

/-! ### What an accepted evaluation names -/

variable {id : QuotaObservationId}

theorem maximumRatio_id {cur : Option QuotaRatio} {new : Option QuotaRatio}
    (h : (maximumRatio cur curId new newId).2 = some id) : id = newId ∨ curId = some id := by
  unfold maximumRatio at h
  cases cur <;> cases new <;> dsimp only at h
  · cases h
  · exact .inl (Option.some.inj h).symm
  · exact .inr h
  · split_ifs at h
    · exact .inl (Option.some.inj h).symm
    · exact .inr h

theorem maximumUnits_id {cur : Option QuotaUnits} {new : Option QuotaUnits}
    (h : (maximumUnits cur curId new newId).2 = some id) : id = newId ∨ curId = some id := by
  unfold maximumUnits at h
  generalize usedUnits new = used at h
  cases cur <;> cases used <;> dsimp only at h
  · cases h
  · exact .inl (Option.some.inj h).symm
  · exact .inr h
  · split_ifs at h
    · exact .inl (Option.some.inj h).symm
    · exact .inr h

theorem mentions_iff {p : QuotaEpochStateParts} :
    p.mentions id = true ↔ p.firstObservationId = id ∨ p.lastObservationId = id ∨
      p.maximumUsedRatioObservationId = some id ∨ p.maximumUsedUnitsObservationId = some id := by
  simp [QuotaEpochStateParts.mentions, or_assoc]

theorem QuotaTransition.mentions_iff {t : QuotaTransition} :
    t.mentions id = true ↔ t.toParts.preObservationId = id ∨ t.toParts.postObservationId = id ∨
      t.toParts.maximumUsedRatioObservationIdBefore = some id ∨
      t.toParts.maximumUsedUnitsObservationIdBefore = some id := by
  simp [QuotaTransition.mentions, or_assoc]

variable {defn : QuotaWindowDefinition} {sample : QuotaSample}

theorem startEpoch_mentions
    (h : (startEpochWithSequence sha defn sample seq).toParts.mentions id = true) :
    id = sample.observationId := by
  rcases mentions_iff.mp h with h | h | h | h
  · exact h.symm
  · exact h.symm
  · obtain ⟨_, _, h⟩ := Option.map_eq_some_iff.mp h
    exact h.symm
  · obtain ⟨_, _, h⟩ := Option.map_eq_some_iff.mp h
    exact h.symm

theorem advanceEpoch_mentions {current : QuotaEpochState}
    (h : (advanceEpoch defn current sample).toParts.mentions id = true) :
    id = sample.observationId ∨ current.toParts.mentions id = true := by
  rcases mentions_iff.mp h with h | h | h | h
  · exact .inr (mentions_iff.mpr (.inl h))
  · exact .inl h.symm
  · rcases maximumRatio_id h with h | h
    · exact .inl h
    · exact .inr (mentions_iff.mpr (.inr (.inr (.inl h))))
  · rcases maximumUnits_id h with h | h
    · exact .inl h
    · exact .inr (mentions_iff.mpr (.inr (.inr (.inr h))))

theorem makeTransition_mentions {previousState currentState : QuotaEpochState}
    {prev : QuotaSample} {kind : QuotaTransitionKind} {ch : Option QuotaAllowanceChange}
    {confidence : QuotaConfidence} {time : QuotaDetectionTime}
    (hl : previousState.toParts.lastObservationId = prev.observationId)
    (h : (makeTransition sha defn previousState currentState prev sample seq kind
      ch confidence time).mentions id = true) :
    id = sample.observationId ∨ previousState.toParts.mentions id = true := by
  rcases QuotaTransition.mentions_iff.mp h with h | h | h | h
  · exact .inr (mentions_iff.mpr (.inr (.inl (hl.trans h))))
  · exact .inl h.symm
  · exact .inr (mentions_iff.mpr (.inr (.inr (.inl h))))
  · exact .inr (mentions_iff.mpr (.inr (.inr (.inr h))))

/-- What the store relies on when an evaluation is accepted. -/
structure Accepts (current : Option QuotaEpochState) (previous : Option QuotaSample)
    (sample : QuotaSample) (accepted : AcceptedEvaluation) : Prop where
  last : accepted.nextState.toParts.lastObservedAtMs = sample.observedAtMs
  newer : ∀ c ∈ current, c.toParts.lastObservedAtMs < sample.observedAtMs
  previous_last : ∀ c ∈ current, ∀ p ∈ previous, c.toParts.lastObservationId = p.observationId
  names : NamesKnownSamples sample current accepted

variable {accepted : AcceptedEvaluation}

theorem Newer.accepts {p : QuotaSample} (h : Newer defn c p sample)
    (hl : accepted.nextState.toParts.lastObservedAtMs = sample.observedAtMs)
    (hsta : ∀ id, accepted.nextState.toParts.mentions id = true →
      id = sample.observationId ∨ c.toParts.mentions id = true)
    (htran : ∀ t ∈ accepted.transition, ∀ id, t.mentions id = true →
      id = sample.observationId ∨ c.toParts.mentions id = true) :
    Accepts (some c) (some p) sample accepted := by
  have hkn : ∀ id, id = sample.observationId ∨ c.toParts.mentions id = true →
      id = sample.observationId ∨ ∃ c' ∈ some c, c'.toParts.mentions id = true := by
    rintro id (h | h)
    · exact .inl h
    · exact .inr ⟨c, rfl, h⟩
  refine ⟨hl, ?_, ?_, fun id hid => hkn id (hsta id hid),
    fun t ht id hid => hkn id (htran t ht id hid)⟩
  · rintro _ ⟨⟩
    exact h.last_time.trans_lt h.later
  · rintro _ ⟨⟩ _ ⟨⟩
    exact h.last_id

theorem evaluateSample_accepts {prev : Option QuotaSample} {e : QuotaEvaluation}
    (h : evaluateSample sha defn current prev sample next = .ok e)
    (hacc : e.accepted? = some accepted) : Accepts current prev sample accepted := by
  cases evaluateSample_ok h with
  | started =>
    cases hacc
    refine ⟨rfl, ?_, ?_, fun id hid => .inl (startEpoch_mentions hid), ?_⟩
    · rintro c ⟨⟩
    · rintro c ⟨⟩
    · rintro t ⟨⟩
  | duplicate | stale => cases hacc
  | reset hnw _ hsta =>
    subst hsta
    cases hacc
    refine hnw.accepts rfl (fun id hid => .inl (startEpoch_mentions hid)) ?_
    rintro t ⟨⟩ id hid
    exact makeTransition_mentions hnw.last_id hid
  | allowanceChanged hnw _ _ hsta =>
    subst hsta
    cases hacc
    refine hnw.accepts rfl (fun id hid => @advanceEpoch_mentions _ defn _ _ hid) ?_
    rintro t ⟨⟩ id hid
    exact makeTransition_mentions hnw.last_id hid
  | advanced hnw =>
    cases hacc
    refine hnw.accepts rfl (fun id hid => advanceEpoch_mentions hid) ?_
    rintro t ⟨⟩

/-! ### Sound stores -/

/-- The ids of the samples determine their content. -/
def ContentStable (seen : List QuotaSample) : Prop :=
  ∀ s ∈ seen, ∀ t ∈ seen, s.observationId = t.observationId → s = t

/-- A row that some observation of the history has stored. -/
structure SampleRow.Sound (sha256 : Bytes → Bytes32) (seen : List QuotaSample) (r : SampleRow) :
    Prop where
  window_eq : r.window = windowRef sha256 r.sample.key
  mem_seen : r.sample ∈ seen
  fits : unitsFit r.sample.units = true

structure QuotaStore.Sound (sha256 : Bytes → Bytes32) (seen : List QuotaSample) (db : QuotaStore) :
    Prop where
  samples_count : db.state.retainedSampleCount = db.samples.length
  epochs_count : db.state.retainedEpochCount = db.epochHistory.length
  transitions_count : db.state.retainedTransitionCount = db.transitions.length
  count_le_revision : db.samples.length ≤ db.state.revision
  nodup : (db.samples.map fun r => r.sample.observationId).Nodup
  row : ∀ r ∈ db.samples, r.Sound sha256 seen
  row_old : ∀ r ∈ db.samples, ∃ e, db.epochCurrent.find? (fun e => e.window == r.window) = some e ∧
    r.sample.observedAtMs ≤ e.parts.lastObservedAtMs
  named_stored : ∀ window id, db.references window id = true → db.sampleStored window id = true

theorem sound_empty (seen : List QuotaSample) : QuotaStore.empty.Sound sha seen where
  samples_count := rfl
  epochs_count := rfl
  transitions_count := rfl
  count_le_revision := le_rfl
  nodup := nodup_nil
  row := fun _ hr => nomatch hr
  row_old := fun _ hr => nomatch hr
  named_stored := fun _ _ h => nomatch h

variable {seen : List QuotaSample} {db full thin : QuotaStore}
  {defn : QuotaWindowDefinition} {sample : QuotaSample} {loaded : LoadedWindow}
  {window : WindowRef}

variable {key : QuotaWindowKey}

theorem restoreEpoch_ok {stored : QuotaEpochStateParts} {st : QuotaEpochState}
    (h : restoreEpoch sha key stored = .ok st) :
    st.toParts = { stored with key := key } := by
  simp only [restoreEpoch, QuotaEpochState.restore] at h
  split_ifs at h
  cases h
  rfl

/-- The loaded epoch is the stored one of the window. -/
theorem loadCurrentEpoch_parts (h : loadCurrentEpoch sha db key window = .ok current) :
    current.map (·.toParts) = (db.epochCurrent.find? fun r => r.window == window).map
      fun e => { e.parts with key := key } := by
  unfold loadCurrentEpoch at h
  cases hf : db.epochCurrent.find? (fun r => r.window == window) with
  | none =>
    rw [hf] at h
    cases h
    rfl
  | some e =>
    rw [hf] at h
    obtain ⟨st, hsta, rfl⟩ := map_eq_ok.mp h
    exact congrArg some (restoreEpoch_ok hsta)

theorem references_of_epochCurrent {e : EpochRow} (hmem : e ∈ db.epochCurrent)
    (hw : e.window = window) (hid : e.parts.mentions id = true) :
    db.references window id = true := by
  have : db.epochCurrent.any (fun r => r.window == window && r.parts.mentions id) = true :=
    any_eq_true.mpr ⟨e, hmem, by simp [hw, hid]⟩
  simp [QuotaStore.references, this]

theorem loadCurrentEpoch_mentions (h : loadCurrentEpoch sha db key window = .ok (some c))
    (hid : c.toParts.mentions id = true) : db.references window id = true := by
  obtain ⟨e, hf, hps⟩ := Option.map_eq_some_iff.mp (loadCurrentEpoch_parts h).symm
  refine references_of_epochCurrent (mem_of_find?_eq_some hf) ?_ ?_
  · simpa using List.find?_some hf
  · rw [show c.toParts = _ from hps.symm] at hid
    exact hid

/-- What the load phase has read. -/
structure Loads (sha256 : Bytes → Bytes32) (db : QuotaStore) (window : WindowRef)
    (definition : QuotaWindowDefinition) (sample : QuotaSample) (loaded : LoadedWindow) : Prop where
  state : loaded.state = db.state
  observation : validateObservationIdentity db window sample = .ok loaded.observationExists
  current : loadCurrentEpoch sha256 db definition.key window = .ok loaded.current

theorem loadWindow_ok (h : loadWindow sha db window defn sample = .ok loaded) :
    Loads sha db window defn sample loaded := by
  obtain ⟨st, hsta, h⟩ := bind_eq_ok.mp h
  obtain ⟨_, -, h⟩ := bind_eq_ok.mp h
  obtain ⟨found, hfd, h⟩ := bind_eq_ok.mp h
  obtain ⟨current, hcur, h⟩ := bind_eq_ok.mp h
  obtain ⟨_, -, h⟩ := bind_eq_ok.mp h
  obtain ⟨_, -, h⟩ := bind_eq_ok.mp h
  cases h
  refine ⟨?_, hfd, hcur⟩
  unfold loadQuotaState at hsta
  split_ifs at hsta
  cases hsta
  rfl

/-- The loaded epoch names samples that the store names. -/
theorem Loads.references_current (h : Loads sha db window defn sample loaded)
    (hc : c ∈ loaded.current) (hid : c.toParts.mentions id = true) :
    db.references window id = true := by
  have hld := h.current
  rw [Option.mem_def.mp hc] at hld
  exact loadCurrentEpoch_mentions hld hid

/-! ### Thinned stores -/

/-- `thin` is `full` without some sample rows that no other table names. -/
structure Thinned (full thin : QuotaStore) : Prop where
  eq : thin = full.keeping thin.samples thin.samples.length
  sublist : thin.samples.Sublist full.samples
  kept : ∀ r ∈ full.samples, full.references r.window r.sample.observationId = true →
    r ∈ thin.samples

theorem Thinned.refl (h : db.Sound sha seen) : Thinned db db where
  eq := by
    unfold QuotaStore.keeping
    rw [← h.samples_count]
  sublist := List.Sublist.refl _
  kept := fun _ hr _ => hr

theorem Thinned.keepsRows (h : Thinned full thin) (hid : full.references window id = true) :
    KeepsRows full.samples thin.samples window id := by
  intro r hr haddr
  simp only [SampleRow.addressedBy, Bool.and_eq_true, beq_iff_eq] at haddr
  refine h.kept r hr ?_
  rw [haddr.1, haddr.2]
  exact hid

/-- In a sound store the id of a seen sample belongs to that sample's own row. -/
theorem QuotaStore.Sound.row_of_id (h : db.Sound sha seen) (hstb : ContentStable seen)
    (hsn : sample ∈ seen) (hr : r ∈ db.samples)
    (hid : r.sample.observationId = sample.observationId) :
    r.window = windowRef sha sample.key ∧ r.sample = sample ∧ unitsFit sample.units = true := by
  have hrow := h.row r hr
  have hs : r.sample = sample := hstb _ hrow.mem_seen _ hsn hid
  rw [← hs]
  exact ⟨hrow.window_eq, rfl, hrow.fits⟩

/-- An observation of a seen sample, over a sound store and a thinner one. -/
structure Compared (sha256 : Bytes → Bytes32) (seen : List QuotaSample) (full thin : QuotaStore)
    (window : WindowRef) (definition : QuotaWindowDefinition) (sample : QuotaSample) : Prop where
  sound : full.Sound sha256 seen
  stable : ContentStable seen
  mem_seen : sample ∈ seen
  key : definition.key = sample.key
  window_eq : window = windowRef sha256 sample.key
  thinned : Thinned full thin

theorem loadWindow_thinned (h : Compared sha seen full thin window defn sample) :
    loadWindow sha thin window defn sample =
      (loadWindow sha full window defn sample).map fun loaded =>
        loaded.keeping thin.samples.length
          (thin.samples.any fun r => r.sample.observationId == sample.observationId) := by
  have hown : ∀ r ∈ full.samples, r.sample.observationId = sample.observationId →
      r.window = window ∧ r.sample = sample ∧ unitsFit sample.units = true := by
    intro r hr hid
    rw [h.window_eq]
    exact h.sound.row_of_id h.stable h.mem_seen hr hid
  have hthin := h.thinned
  have hfu : validateObservationIdentity full window sample = .ok _ :=
    validateObservationIdentity_stable rfl hown
  have hthin' : validateObservationIdentity thin window sample = .ok _ :=
    validateObservationIdentity_stable rfl fun r hr => hown r (hthin.sublist.subset hr)
  rw [hthin.eq] at hthin' ⊢
  refine bind_eq_map loadQuotaState_keeping fun st hsta => ?_
  refine bind_congr_map fun found hfd => ?_
  rw [hthin', hfu]
  refine bind_eq_map (g := fun _ => thin.samples.any fun r =>
    r.sample.observationId == sample.observationId) rfl fun _ _ => ?_
  refine bind_congr_map fun current hcur => ?_
  have hprev : loadPrevious (full.keeping thin.samples thin.samples.length) defn.key
      window current = loadPrevious full defn.key window current := by
    cases current with
    | none => rfl
    | some c =>
      have hl : full.references window c.toParts.lastObservationId = true :=
        loadCurrentEpoch_mentions hcur (mentions_iff.mpr (.inr (.inl rfl)))
      exact congrArg (Except.map some)
        (loadPreviousSample_keeping hthin.sublist.subset h.sound.nodup (hthin.keepsRows hl))
  rw [hprev]
  refine bind_congr_map fun prev hprev => ?_
  exact bind_congr_map fun _ _ => rfl

/-- An accepted sample is newer than every stored one of its window. -/
theorem QuotaStore.Sound.row_lt (hsd : db.Sound sha seen)
    (hlds : Loads sha db window defn sample loaded)
    (hacce : Accepts loaded.current loaded.previous sample accepted) (hr : r ∈ db.samples)
    (hw : r.window = window) :
    r.sample.observedAtMs < sample.observedAtMs := by
  obtain ⟨e, hf, hold⟩ := hsd.row_old r hr
  rw [hw] at hf
  have hps := loadCurrentEpoch_parts hlds.current
  rw [hf] at hps
  obtain ⟨c, hc, hps⟩ := Option.map_eq_some_iff.mp hps
  have hnw := hacce.newer c hc
  rw [hps] at hnw
  exact hold.trans_lt hnw

/-- The id of an accepted sample is not stored yet: its row would be as new as itself. -/
theorem Compared.fresh (h : Compared sha seen full thin window defn sample)
    (hlds : Loads sha full window defn sample loaded)
    (hacce : Accepts loaded.current loaded.previous sample accepted) :
    ∀ r ∈ full.samples, r.sample.observationId ≠ sample.observationId := by
  intro r hr hid
  obtain ⟨hw, hs, -⟩ := h.sound.row_of_id h.stable h.mem_seen hr hid
  rw [← h.window_eq] at hw
  have hlt := h.sound.row_lt hlds hacce hr hw
  rw [hs] at hlt
  exact lt_irrefl _ hlt

/-! ### The write phase -/

section Commit

variable {accepted : AcceptedEvaluation} {written : QuotaStore} {count : ℕ}

theorem references_iff {id : QuotaObservationId} :
    db.references window id = true ↔
      (∃ r ∈ db.windowCurrent, r.window = window ∧ r.sampleObservationId = id) ∨
      (∃ r ∈ db.epochCurrent, r.window = window ∧ r.parts.mentions id = true) ∨
      (∃ r ∈ db.epochHistory, r.window = window ∧ r.parts.mentions id = true) ∨
      ∃ r ∈ db.transitions, r.window = window ∧ r.transition.mentions id = true := by
  simp [QuotaStore.references, or_assoc]

/-- A written store names what was named before, and the new sample. -/
theorem references_written (hlds : Loads sha db window defn sample loaded)
    (hnames : NamesKnownSamples sample loaded.current accepted)
    (w : Written db window defn sample loaded accepted written)
    {window' : WindowRef} {id : QuotaObservationId}
    (h : written.references window' id = true) :
    db.references window' id = true ∨ window' = window ∧ id = sample.observationId := by
  have hkn : (id = sample.observationId ∨
      ∃ c ∈ loaded.current, c.toParts.mentions id = true) → window' = window →
      db.references window' id = true ∨ window' = window ∧ id = sample.observationId := by
    rintro (hid | ⟨c, hc, hid⟩) hwin
    · exact .inr ⟨hwin, hid⟩
    · rw [hwin]
      exact .inl (hlds.references_current hc hid)
  rw [w.eq] at h
  rcases references_iff.mp h with ⟨r, hr, hw, hid⟩ | ⟨r, hr, hw, hid⟩ | ⟨r, hr, hw, hid⟩ |
    ⟨r, hr, hw, hid⟩
  · rcases mem_append.mp hr with hr | hr
    · exact .inl (references_iff.mpr (.inl ⟨r, (mem_filter.mp hr).1, hw, hid⟩))
    · rw [mem_singleton.mp hr, w.current_window] at hw
      rw [mem_singleton.mp hr, w.current_sample] at hid
      exact .inr ⟨hw.symm, hid.symm⟩
  · rcases mem_append.mp hr with hr | hr
    · exact .inl (references_iff.mpr (.inr (.inl ⟨r, (mem_filter.mp hr).1, hw, hid⟩)))
    · rw [mem_singleton.mp hr] at hw hid
      exact hkn (hnames.state id hid) hw.symm
  · rcases mem_append.mp hr with hr | hr
    · exact .inl (references_iff.mpr (.inr (.inr (.inl ⟨r, hr, hw, hid⟩))))
    · obtain ⟨hr, c, hc, hps⟩ := w.closed_prior r hr
      rw [hps] at hid
      exact hkn (.inr ⟨c, hc, hid⟩) (hw.symm.trans hr)
  · rcases mem_append.mp hr with hr | hr
    · exact .inl (references_iff.mpr (.inr (.inr (.inr ⟨r, hr, hw, hid⟩))))
    · obtain ⟨hr, ht⟩ := w.stored_transition r hr
      exact hkn (hnames.transition _ ht id hid) (hw.symm.trans hr)

theorem written_samples (w : Written db window defn sample loaded accepted written) :
    written.samples = db.samples ++ [sampleRow window defn sample] := by
  rw [w.eq]

theorem written_nodup (hsd : db.Sound sha seen)
    (w : Written db window defn sample loaded accepted written) :
    (written.samples.map fun r => r.sample.observationId).Nodup := by
  rw [written_samples w, map_append, nodup_append]
  refine ⟨hsd.nodup, nodup_singleton _, ?_⟩
  intro a ha b hb
  obtain ⟨r, hr, rfl⟩ := mem_map.mp ha
  rw [mem_singleton.mp hb]
  exact w.fresh r hr

/-- What is left after a prune, still before the state row is written. -/
structure Committed (written : QuotaStore) (rows : List SampleRow) (deleted : Bool) : Prop where
  sublist : rows.Sublist written.samples
  kept : ∀ r ∈ written.samples, written.references r.window r.sample.observationId = true → r ∈ rows
  length : rows.length + deleted.toNat = written.samples.length

/-- What pruning does to the full store. -/
theorem prunePrevious_spec (window : WindowRef) (defn : QuotaWindowDefinition)
    (sample : QuotaSample) (loaded : LoadedWindow) (accepted : AcceptedEvaluation)
    (hnd : (written.samples.map fun r => r.sample.observationId).Nodup) :
    let pruned := prunePrevious written window defn sample loaded accepted
    ∃ rows : List SampleRow, pruned.1 = { written with samples := rows } ∧
      Committed written rows pruned.2 := by
  rcases prunePrevious_cases window defn sample loaded accepted with
    hno | ⟨c, hc, prev, hp, hdel⟩
  · rw [hno]
    exact ⟨written.samples, rfl, List.Sublist.refl _, fun r hr _ => hr, rfl⟩
  · rw [hdel, deleteUnprotectedSample_eq]
    exact ⟨_, rfl, survivors_sublist_self _, fun r hr hnmd => mem_survivors_of_named hr hnmd,
      length_survivors hnd⟩

variable {rows : List SampleRow}

/-- Pruning the thinner store takes away the same row. -/
theorem prunePrevious_keeping (window : WindowRef) (defn : QuotaWindowDefinition)
    (sample : QuotaSample) (accepted : AcceptedEvaluation) (count : ℕ) (found : Bool)
    (hsub : rows.Sublist written.samples)
    (hnd : (written.samples.map fun r => r.sample.observationId).Nodup)
    (hkp : ∀ c ∈ loaded.current, ∀ p ∈ loaded.previous,
      KeepsRows written.samples rows window p.observationId) :
    let pruned := prunePrevious written window defn sample loaded accepted
    ∃ rows' : List SampleRow,
      prunePrevious (written.keeping rows count) window defn sample
          (loaded.keeping count found) accepted = (pruned.1.keeping rows' count, pruned.2) ∧
      rows'.Sublist pruned.1.samples ∧ (∀ r ∈ rows, r ∈ pruned.1.samples → r ∈ rows') ∧
      rows'.length + pruned.2.toNat = rows.length := by
  have hsm : ∀ db, prunePrevious db window defn sample (loaded.keeping count found)
      accepted = prunePrevious db window defn sample loaded accepted := fun _ => rfl
  rw [hsm]
  rcases prunePrevious_cases window defn sample loaded accepted with
    hno | ⟨c, hc, prev, hp, hdel⟩
  · rw [hno, hno]
    exact ⟨rows, rfl, hsub, fun r hr _ => hr, rfl⟩
  · have hrs := hkp c hc prev hp
    rw [hdel, hdel, deleteUnprotectedSample_keeping hsub.subset hrs, deleteUnprotectedSample_eq]
    refine ⟨_, rfl, survivors_sublist _ hsub, ?_, ?_⟩
    · intro r hr hsurv
      exact mem_survivors.mpr ⟨hr, (mem_survivors.mp hsurv).2⟩
    · have hsto : written.sampleStored window prev.observationId =
          rows.any fun r => r.addressedBy window prev.observationId :=
        (Thin.any_eq hsub.subset hrs).symm
      rw [hsto]
      exact length_survivors (hnd.sublist (hsub.map _))

theorem publishQuotaState_ok {state : QuotaState} {delta : ℕ} {seen : ℤ} {closed inserted : Bool}
    (h : publishQuotaState db state next seen delta closed inserted = .ok result) :
    ∃ published, result = { db with
      state := ⟨next, state.retainedSampleCount + delta, state.retainedEpochCount + closed.toNat,
        state.retainedTransitionCount + inserted.toNat, published⟩ } := by
  unfold publishQuotaState checkedCount at h
  obtain ⟨samples, hss, h⟩ := bind_eq_ok.mp h
  obtain ⟨epochs, hepochs, h⟩ := bind_eq_ok.mp h
  obtain ⟨trs, htran, h⟩ := bind_eq_ok.mp h
  split_ifs at hss hepochs htran
  cases hss
  cases hepochs
  cases htran
  cases h
  exact ⟨_, rfl⟩

theorem nextQuotaRevision_ok {rev : ℕ} (h : nextQuotaRevision rev = .ok next) :
    next = rev + 1 ∧ rev + 1 ≤ i64Max := by
  unfold nextQuotaRevision at h
  split_ifs at h with hle
  exact ⟨(Except.ok.inj h).symm, hle⟩

/-- The epoch row of a window after the upsert. -/
theorem find?_upsert (rows : List EpochRow) (parts : QuotaEpochStateParts) (other : WindowRef) :
    List.find? (fun r => r.window == other)
        ((rows.filter fun r => r.window != window) ++ [(⟨window, parts⟩ : EpochRow)]) =
      if other = window then some ⟨window, parts⟩ else rows.find? fun r => r.window == other := by
  rw [List.find?_append, List.find?_filter]
  by_cases h : other = window
  · have hno : rows.find? (fun r => decide ((r.window != window) = true ∧
        (r.window == other) = true)) = none := by
      simp [h]
    rw [hno, if_pos h]
    simp [h]
  · have hsm : (fun r : EpochRow => decide ((r.window != window) = true ∧
        (r.window == other) = true)) = fun r => r.window == other := by
      funext r
      by_cases hr : r.window = other
      · simp [hr, h]
      · simp [hr]
    rw [hsm, if_neg h]
    simp [Ne.symm h]

theorem committed_sound (hsd : db.Sound sha seen) (hsn : sample ∈ seen)
    (hw : window = windowRef sha sample.key)
    (hlds : Loads sha db window defn sample loaded)
    (hacce : Accepts loaded.current loaded.previous sample accepted)
    (w : Written db window defn sample loaded accepted written) {deleted : Bool}
    {published : Option ℤ} (hrs : Committed written rows deleted) :
    QuotaStore.Sound sha seen { written with
      samples := rows
      state := ⟨db.state.revision + 1, db.state.retainedSampleCount + (1 - deleted.toNat),
        db.state.retainedEpochCount + accepted.closesEpoch.toNat,
        db.state.retainedTransitionCount + accepted.transition.isSome.toNat, published⟩ } := by
  have hss := written_samples w
  have hlength : written.samples.length = db.samples.length + 1 := by rw [hss]; simp
  have hct := hrs.length
  have hfl := Bool.toNat_le deleted
  have hle := hsd.count_le_revision
  have hmem : ∀ r ∈ rows, r ∈ db.samples ∨ r = sampleRow window defn sample := by
    intro r hr
    have := hrs.sublist.subset hr
    rw [hss] at this
    simpa using this
  have hepochs : written.epochCurrent = (db.epochCurrent.filter fun r => r.window != window) ++
      [⟨window, accepted.nextState.toParts⟩] := by rw [w.eq]
  refine ⟨?_, ?_, ?_, ?_, ?_, ?_, ?_, ?_⟩
  · show db.state.retainedSampleCount + (1 - deleted.toNat) = rows.length
    rw [hsd.samples_count]
    omega
  · show db.state.retainedEpochCount + _ = written.epochHistory.length
    rw [w.eq, hsd.epochs_count, ← w.closed_length, ← length_append]
  · show db.state.retainedTransitionCount + _ = written.transitions.length
    rw [w.eq, hsd.transitions_count, ← w.stored_length, ← length_append]
  · show rows.length ≤ db.state.revision + 1
    omega
  · exact (written_nodup hsd w).sublist (hrs.sublist.map _)
  · intro r hr
    rcases hmem r hr with hold | rfl
    · exact hsd.row r hold
    · exact ⟨hw, hsn, w.fits⟩
  · intro r hr
    show ∃ e, written.epochCurrent.find? (fun e => e.window == r.window) = some e ∧ _
    rw [hepochs, find?_upsert]
    by_cases hrw : r.window = window
    · refine ⟨_, if_pos hrw, ?_⟩
      show r.sample.observedAtMs ≤ accepted.nextState.toParts.lastObservedAtMs
      rw [hacce.last]
      rcases hmem r hr with hold | rfl
      · exact (hsd.row_lt hlds hacce hold hrw).le
      · exact le_rfl
    · rw [if_neg hrw]
      rcases hmem r hr with hold | rfl
      · exact hsd.row_old r hold
      · exact absurd rfl hrw
  · intro window' id hnmd
    refine any_eq_true.mpr ?_
    rcases references_written hlds hacce.names w hnmd with hold | ⟨rfl, rfl⟩
    · obtain ⟨r, hr, haddr⟩ := any_eq_true.mp (hsd.named_stored window' id hold)
      have hsm := haddr
      simp only [Bool.and_eq_true, beq_iff_eq] at hsm
      refine ⟨r, hrs.kept r ?_ ?_, haddr⟩
      · rw [hss]
        exact mem_append_left _ hr
      · rw [hsm.1, hsm.2]
        exact hnmd
    · refine ⟨sampleRow window' defn sample, hrs.kept _ ?_ hnmd, by simp [sampleRow]⟩
      rw [hss]
      exact mem_append_right _ (mem_singleton.mpr rfl)

/-- The outcomes of one call in two stores: equal results over related stores, or equal errors.  Once a
cap refuses the call in the first store, the second one is free. -/
inductive SameOutcome (related : QuotaStore → QuotaStore → Prop) :
    Except StoreError (QuotaStore × QuotaApplyResult) →
    Except StoreError (QuotaStore × QuotaApplyResult) → Prop
  | ok {full thin : QuotaStore} {result : QuotaApplyResult} (h : related full thin) :
    SameOutcome related (.ok (full, result)) (.ok (thin, result))
  | error (error : StoreError) : SameOutcome related (.error error) (.error error)
  | capped {error : StoreError} (h : error.limit.isSome = true)
    (other : Except StoreError (QuotaStore × QuotaApplyResult)) : SameOutcome related (.error error) other

theorem SameOutcome.imp {related related' : QuotaStore → QuotaStore → Prop}
    {x y : Except StoreError (QuotaStore × QuotaApplyResult)} (h : SameOutcome related x y)
    (himp : ∀ full thin, related full thin → related' full thin) : SameOutcome related' x y := by
  cases h with
  | ok h => exact .ok (himp _ _ h)
  | error error => exact .error error
  | capped h => exact .capped h _

theorem enforceQuotaWindowHardCaps_keeping (hsub : rows.Sublist db.samples)
    (h : enforceQuotaWindowHardCaps db window = .ok ()) :
    enforceQuotaWindowHardCaps (db.keeping rows count) window = .ok () := by
  have hle : (quotaWindowCounts (db.keeping rows count) window).samples ≤
      (quotaWindowCounts db window).samples := hsub.countP_le
  have htran : (quotaWindowCounts (db.keeping rows count) window).transitions =
      (quotaWindowCounts db window).transitions := rfl
  have hepochs : (quotaWindowCounts (db.keeping rows count) window).closedEpochs =
      (quotaWindowCounts db window).closedEpochs := rfl
  unfold enforceQuotaWindowHardCaps at h ⊢
  dsimp only at h ⊢
  split_ifs at h with h1 h2 h3
  rw [htran, hepochs, if_neg (by omega), if_neg h2, if_neg h3]

/-- A refused cap is the only error with a limit. -/
theorem enforceQuotaWindowHardCaps_error {error : StoreError}
    (h : enforceQuotaWindowHardCaps db window = .error error) : error.limit.isSome = true := by
  unfold enforceQuotaWindowHardCaps at h
  dsimp only at h
  split_ifs at h <;> cases h <;> rfl

/-- Publishing writes the state row, over a thinner store with its own count. -/
theorem publishAccepted_keeping {pruned : QuotaStore × Bool} (found : Bool)
    (hsub : rows.Sublist pruned.1.samples)
    (hfu : loaded.state.retainedSampleCount ≤ loaded.state.revision)
    (hct : count ≤ loaded.state.revision) :
    SameOutcome (fun full' thin' => thin' = full'.keeping rows (count + (1 - pruned.2.toNat)) ∧
        ∃ published, full' = { pruned.1 with
          state := ⟨loaded.state.revision + 1,
            loaded.state.retainedSampleCount + (1 - pruned.2.toNat),
            loaded.state.retainedEpochCount + accepted.closesEpoch.toNat,
            loaded.state.retainedTransitionCount + accepted.transition.isSome.toNat, published⟩ })
      (publishAccepted pruned window sample loaded accepted)
      (publishAccepted (pruned.1.keeping rows count, pruned.2) window sample
        (loaded.keeping count found) accepted) := by
  unfold publishAccepted
  dsimp only [LoadedWindow.keeping]
  cases henfo : enforceQuotaWindowHardCaps pruned.1 window with
  | error error => exact .capped (enforceQuotaWindowHardCaps_error henfo) _
  | ok _ =>
    rw [enforceQuotaWindowHardCaps_keeping hsub henfo, ok_bind, ok_bind]
    cases hnx : nextQuotaRevision loaded.state.revision with
    | error error => exact .error error
    | ok next =>
      obtain ⟨rfl, hbd⟩ := nextQuotaRevision_ok hnx
      rw [ok_bind, ok_bind, publishQuotaState_keeping]
      · cases hstore : publishQuotaState pruned.1 loaded.state (loaded.state.revision + 1)
          sample.observedAtMs (1 - pruned.2.toNat) accepted.closesEpoch
          accepted.transition.isSome with
        | error error => exact .error error
        | ok store => exact .ok ⟨rfl, publishQuotaState_ok hstore⟩
      · omega
      · omega

theorem commitAccepted_thinned (h : Compared sha seen full thin window defn sample)
    (hlds : Loads sha full window defn sample loaded)
    (hacce : Accepts loaded.current loaded.previous sample accepted) (found : Bool) :
    SameOutcome (fun full' thin' => Thinned full' thin' ∧ full'.Sound sha seen)
      (commitAccepted full window defn sample loaded accepted)
      (commitAccepted thin window defn sample
        (loaded.keeping thin.samples.length found) accepted) := by
  have hfr := h.fresh hlds hacce
  have hthin := h.thinned
  have hsd := h.sound
  have hwr : writeAccepted (full.keeping thin.samples thin.samples.length) window defn
      sample (loaded.keeping thin.samples.length found) accepted = _ :=
    writeAccepted_keeping hthin.sublist.subset hfr
      (fun c hc id hid => hthin.keepsRows (hlds.references_current hc hid)) hacce.names
  rw [← hthin.eq] at hwr
  unfold commitAccepted
  rw [hwr]
  cases hw : writeAccepted full window defn sample loaded accepted with
  | error error => exact .error error
  | ok written =>
    obtain ⟨w⟩ := writeAccepted_ok hw
    have hss := written_samples w
    have hnd := written_nodup hsd w
    have hsub : (thin.samples ++ [sampleRow window defn sample]).Sublist written.samples := by
      rw [hss]
      exact hthin.sublist.append (List.Sublist.refl _)
    have hprev : ∀ c ∈ loaded.current, ∀ p ∈ loaded.previous,
        KeepsRows written.samples (thin.samples ++ [sampleRow window defn sample]) window
          p.observationId := by
      intro c hc p hp r hr haddr
      rw [hss] at hr
      rcases mem_append.mp hr with hold | hl
      · have hnmd : full.references window p.observationId = true :=
          hlds.references_current hc
            (mentions_iff.mpr (.inr (.inl (hacce.previous_last c hc p hp))))
        exact mem_append_left _ (hthin.keepsRows hnmd r hold haddr)
      · exact mem_append_right _ hl
    obtain ⟨rows, hrs, hcom⟩ :=
      prunePrevious_spec window defn sample loaded accepted hnd
    obtain ⟨rows', hprune, hsub', hkp', hlen'⟩ :=
      prunePrevious_keeping window defn sample accepted thin.samples.length found hsub hnd
        hprev
    have hle : full.state.retainedSampleCount ≤ full.state.revision := by
      rw [hsd.samples_count]
      exact hsd.count_le_revision
    have hthinLe : thin.samples.length ≤ full.state.revision :=
      hthin.sublist.length_le.trans hsd.count_le_revision
    rw [← hlds.state] at hle hthinLe
    show SameOutcome _ (publishAccepted _ window sample loaded accepted)
      (publishAccepted _ window sample _ accepted)
    rw [hprune]
    refine (publishAccepted_keeping found hsub' hle hthinLe).imp ?_
    rintro full' thin' ⟨rfl, published, rfl⟩
    rw [hrs, hlds.state]
    refine ⟨⟨?_, ?_, ?_⟩, ?_⟩
    · have hfl := Bool.toNat_le
        (prunePrevious written window defn sample loaded accepted).2
      rw [length_append, length_singleton] at hlen'
      have hct : thin.samples.length +
          (1 - (prunePrevious written window defn sample loaded accepted).2.toNat) =
          rows'.length := by omega
      rw [hct]
      rfl
    · rw [hrs] at hsub'
      exact hsub'
    · intro r hr hnmd
      refine hkp' r ?_ (by rw [hrs]; exact hr)
      have hmem := hcom.sublist.subset hr
      rw [hss] at hmem
      rcases mem_append.mp hmem with hold | hl
      · rcases references_written hlds hacce.names w hnmd with h | ⟨-, h⟩
        · exact mem_append_left _ (hthin.kept r hold h)
        · exact absurd h (hfr r hold)
      · exact mem_append_right _ hl
    · exact committed_sound hsd h.mem_seen h.window_eq hlds hacce w hcom

end Commit

/-- **One observation over a thinner store.** -/
theorem applyQuotaObservation_thinned (hsd : full.Sound sha seen)
    (hstb : ContentStable seen) (hsn : sample ∈ seen) (hthin : Thinned full thin) :
    SameOutcome (fun full' thin' => Thinned full' thin' ∧ full'.Sound sha seen)
      (applyQuotaObservation sha full defn sample)
      (applyQuotaObservation sha thin defn sample) := by
  unfold applyQuotaObservation
  by_cases hkey : defn.key = sample.key
  · rw [if_neg (not_not.mpr hkey), if_neg (not_not.mpr hkey)]
    have hcomp : Compared sha seen full thin (windowRef sha defn.key) defn
        sample := ⟨hsd, hstb, hsn, hkey, by rw [hkey], hthin⟩
    cases hck : checkI64 .invalidValue defn.revision with
    | error error => exact .error error
    | ok _ =>
      dsimp only [bind, Except.bind]
      rw [loadWindow_thinned hcomp]
      cases hld : loadWindow sha full (windowRef sha defn.key) defn sample with
      | error error => exact .error error
      | ok loaded =>
        dsimp only [Except.map, LoadedWindow.keeping]
        cases heval : evaluateSample sha defn loaded.current loaded.previous sample
            (nextTransitionSequence loaded.current) with
        | error error => exact .error (mapQuotaError error)
        | ok evaluation =>
          dsimp only [Except.mapError]
          cases hacc : evaluation.accepted? with
          | none => exact .ok ⟨hthin, hsd⟩
          | some accepted =>
            have hlds := loadWindow_ok hld
            have hacce := evaluateSample_accepts heval hacc
            -- neither store has the id yet
            have hfr := hcomp.fresh hlds hacce
            have hno : ∀ l : List SampleRow, l ⊆ full.samples →
                (l.any fun r => r.sample.observationId == sample.observationId) = false := by
              intro l hl
              rw [any_eq_false]
              intro r hr
              simpa using hfr r (hl hr)
            have hfd : loaded.observationExists = false := by
              have hown : validateObservationIdentity full (windowRef sha defn.key) sample =
                  .ok _ :=
                validateObservationIdentity_stable rfl fun r hr hid => absurd hid (hfr r hr)
              rw [hlds.observation, hno _ (List.Subset.refl _)] at hown
              exact Except.ok.inj hown
            rw [hfd, hno _ hthin.sublist.subset]
            exact commitAccepted_thinned hcomp hlds hacce false
  · rw [if_pos hkey, if_pos hkey]
    exact .error _

/-! ### A page -/

theorem deleteCandidates_ok (hnd : (db.samples.map fun r => r.sample.observationId).Nodup)
    (h : deleteCandidates db window ids = .ok result) :
    ∃ rows : List SampleRow, result = { db with samples := rows } ∧ rows.Sublist db.samples ∧
      (∀ r ∈ db.samples, db.references r.window r.sample.observationId = true → r ∈ rows) ∧
      rows.length + ids.length = db.samples.length := by
  induction ids generalizing db with
  | nil =>
    cases h
    exact ⟨_, rfl, List.Sublist.refl _, fun r hr _ => hr, rfl⟩
  | cons id ids ih =>
    unfold deleteCandidates at h
    rw [deleteUnprotectedSample_eq] at h
    dsimp only at h
    split_ifs at h with hdele
    have hsub : (survivors db window id db.samples).Sublist db.samples := survivors_sublist_self id
    obtain ⟨rows, hres, hrs, hkp, hlen⟩ := ih (hnd.sublist (hsub.map _)) h
    have hone : (survivors db window id db.samples).length +
        (!db.references window id && db.sampleStored window id).toNat = db.samples.length :=
      length_survivors hnd
    rw [hdele, Bool.toNat_true] at hone
    refine ⟨rows, hres, hrs.trans hsub, ?_, ?_⟩
    · intro r hr hnmd
      exact hkp r (mem_survivors_of_named hr hnmd) hnmd
    · have hlen : rows.length + ids.length = (survivors db window id db.samples).length := hlen
      rw [length_cons]
      omega

theorem deleteCandidates_succeeds (hids : ids.Nodup)
    (h : ∀ id ∈ ids, db.references window id = false ∧ db.sampleStored window id = true) :
    ∃ result, deleteCandidates db window ids = .ok result := by
  induction ids generalizing db with
  | nil => exact ⟨db, rfl⟩
  | cons id ids ih =>
    obtain ⟨hfree, hsto⟩ := h id (mem_cons_self ..)
    unfold deleteCandidates
    rw [deleteUnprotectedSample_eq, hfree, hsto]
    refine ih (nodup_cons.mp hids).2 fun other hoth => ?_
    obtain ⟨hfree', hsto'⟩ := h other (mem_cons_of_mem _ hoth)
    have hne : other ≠ id := fun heq => (nodup_cons.mp hids).1 (heq ▸ hoth)
    obtain ⟨r, hr, haddr⟩ := any_eq_true.mp hsto'
    refine ⟨hfree', any_eq_true.mpr ⟨r, mem_survivors.mpr ⟨hr, .inr ?_⟩, haddr⟩⟩
    simp only [Bool.and_eq_true, beq_iff_eq] at haddr
    simp [SampleRow.addressedBy, haddr.1, haddr.2, hne]

theorem mem_redundantSampleCandidates {id : QuotaObservationId}
    (h : id ∈ redundantSampleCandidates db window limit) :
    db.references window id = false ∧ db.sampleStored window id = true := by
  obtain ⟨r, hr, rfl⟩ := mem_map.mp h
  have hr := mem_mergeSort.mp (mem_of_mem_take hr)
  obtain ⟨hr, hp⟩ := mem_filter.mp hr
  simp only [Bool.and_eq_true, beq_iff_eq, Bool.not_eq_true'] at hp
  exact ⟨hp.2, any_eq_true.mpr ⟨r, hr, by simp [hp.1.1]⟩⟩

theorem nodup_redundantSampleCandidates
    (hnd : (db.samples.map fun r => r.sample.observationId).Nodup) :
    (redundantSampleCandidates db window limit).Nodup := by
  refine List.Nodup.sublist ((take_sublist _ _).map _) ?_
  refine ((mergeSort_perm _ _).map _).nodup_iff.mpr ?_
  exact hnd.sublist (filter_sublist.map _)

/-- A page of a legal size succeeds. -/
theorem maintainQuotaHistoryPage_succeeds (hsd : full.Sound sha seen)
    (hthin : Thinned full thin) (key : QuotaWindowKey) (hpos : 0 < size)
    (hle : size ≤ maxQuotaMaintenancePageSize) :
    ∃ result, maintainQuotaHistoryPage sha thin key size = .ok result := by
  have hnd := hsd.nodup.sublist (hthin.sublist.map fun r => r.sample.observationId)
  have hsta : thin.state.retainedSampleCount = thin.samples.length := by rw [hthin.eq]; rfl
  unfold maintainQuotaHistoryPage
  rw [if_neg hpos.ne', if_neg hle.not_gt]
  dsimp only
  generalize hids : redundantSampleCandidates thin _ _ = ids
  obtain ⟨deleted, hdel⟩ := deleteCandidates_succeeds (hids ▸ nodup_redundantSampleCandidates hnd)
    fun id hid => mem_redundantSampleCandidates (hids ▸ hid)
  obtain ⟨rows, hdele, -, -, hlen⟩ := deleteCandidates_ok hnd hdel
  have hsm : deleted.state = thin.state := by rw [hdele]
  have hct : ¬ deleted.state.retainedSampleCount < ids.length := by
    rw [hsm, hsta]
    omega
  rw [hdel]
  dsimp only [bind, Except.bind]
  unfold subtractSampleCount
  rw [if_neg hct]
  exact ⟨_, rfl⟩

/-- **A page over the thinner store.** -/
theorem maintainQuotaHistoryPage_thinned (hsd : full.Sound sha seen)
    (hthin : Thinned full thin) {key : QuotaWindowKey} {next : QuotaStore}
    {result : QuotaMaintenanceResult}
    (h : maintainQuotaHistoryPage sha thin key size = .ok (next, result)) :
    Thinned full next := by
  unfold maintainQuotaHistoryPage at h
  split_ifs at h
  obtain ⟨deleted, hdel, h⟩ := bind_eq_ok.mp h
  obtain ⟨counted, hct, h⟩ := bind_eq_ok.mp h
  cases h
  have hnd := hsd.nodup.sublist (hthin.sublist.map fun r => r.sample.observationId)
  obtain ⟨rows, hdele, hsub, hkp, hlen⟩ := deleteCandidates_ok hnd hdel
  generalize redundantSampleCandidates thin _ _ = candidates at hct hlen
  unfold subtractSampleCount at hct
  split_ifs at hct
  cases hct
  have hsta : thin.state.retainedSampleCount = thin.samples.length := by rw [hthin.eq]; rfl
  subst hdele
  refine ⟨?_, hsub.trans hthin.sublist, ?_⟩
  · have hct : thin.state.retainedSampleCount - candidates.length = rows.length := by omega
    show ({ thin with
      samples := rows
      state := { thin.state with
        retainedSampleCount := thin.state.retainedSampleCount - candidates.length } } : QuotaStore) =
      full.keeping rows rows.length
    rw [hct, hthin.eq]
    rfl
  · intro r hr hnmd
    refine hkp r (hthin.kept r hr hnmd) ?_
    rw [hthin.eq]
    exact hnmd

/-! ### Histories -/

/-- The samples that a history observes. -/
def observedSamples : List QuotaCall → List QuotaSample
  | [] => []
  | .observe _ sample :: calls => sample :: observedSamples calls
  | .maintain _ _ :: calls => observedSamples calls

/-- The observation was refused by a retention cap. -/
def QuotaOutcome.hitsCap : QuotaOutcome → Bool
  | .ok _ => false
  | .error error => error.limit.isSome

/-- A page moves the thinner store only. -/
theorem stepQuota_maintain (hsd : full.Sound sha seen) (hthin : Thinned full thin)
    (key : QuotaWindowKey) (size : ℕ) :
    Thinned full (stepQuota sha thin (.maintain key size)).1 ∧
      (stepQuota sha thin (.maintain key size)).2 = [] := by
  simp only [stepQuota]
  cases hpg : maintainQuotaHistoryPage sha thin key size with
  | error error => exact ⟨hthin, rfl⟩
  | ok page => exact ⟨maintainQuotaHistoryPage_thinned hsd hthin hpg, rfl⟩

/-- An observation moves both stores, with one outcome. -/
theorem stepQuota_observe (hsd : full.Sound sha seen) (hstb : ContentStable seen)
    (hsn : sample ∈ seen) (hthin : Thinned full thin)
    (hcaps : ∀ out ∈ (stepQuota sha full (.observe defn sample)).2,
      QuotaOutcome.hitsCap out = false) :
    (stepQuota sha thin (.observe defn sample)).2 =
        (stepQuota sha full (.observe defn sample)).2 ∧
      Thinned (stepQuota sha full (.observe defn sample)).1
        (stepQuota sha thin (.observe defn sample)).1 ∧
      (stepQuota sha full (.observe defn sample)).1.Sound sha seen := by
  have hsm := @applyQuotaObservation_thinned sha _ _ _ defn _ hsd hstb hsn hthin
  simp only [stepQuota] at hcaps ⊢
  generalize applyQuotaObservation sha full defn sample = out at hsm hcaps ⊢
  generalize applyQuotaObservation sha thin defn sample = outcome' at hsm
  cases hsm with
  | ok h => exact ⟨rfl, h.1, h.2⟩
  | error error => exact ⟨rfl, hthin, hsd⟩
  | @capped error h _ =>
    have hcap := hcaps (.error error) (mem_singleton_self _)
    rw [QuotaOutcome.hitsCap, h] at hcap
    cases hcap

theorem runQuota_thinned (hstb : ContentStable seen) {calls : List QuotaCall}
    (hsd : full.Sound sha seen) (hthin : Thinned full thin)
    (hobs : observedSamples calls ⊆ seen)
    (hcaps : ∀ out ∈ (runQuota sha full (calls.filter QuotaCall.isObserve)).2,
      QuotaOutcome.hitsCap out = false) :
    (runQuota sha thin calls).2 =
        (runQuota sha full (calls.filter QuotaCall.isObserve)).2 ∧
      Thinned (runQuota sha full (calls.filter QuotaCall.isObserve)).1
        (runQuota sha thin calls).1 ∧
      (runQuota sha full (calls.filter QuotaCall.isObserve)).1.Sound sha seen := by
  induction calls generalizing full thin with
  | nil => exact ⟨rfl, hthin, hsd⟩
  | cons call calls ih =>
    cases call with
    | maintain key size =>
      obtain ⟨hnx, hsilent⟩ := stepQuota_maintain hsd hthin key size
      obtain ⟨houtc, hrs⟩ := ih hsd hnx hobs hcaps
      refine ⟨?_, hrs⟩
      show (stepQuota sha thin (.maintain key size)).2 ++ _ = _
      rw [hsilent]
      exact houtc
    | observe defn sample =>
      have hsn : sample ∈ seen := hobs (mem_cons_self ..)
      have hrs : observedSamples calls ⊆ seen := fun s hs => hobs (mem_cons_of_mem _ hs)
      obtain ⟨hout, hnx, hnxS⟩ := stepQuota_observe hsd hstb hsn hthin
        fun out hmem => hcaps out (mem_append_left _ hmem)
      obtain ⟨houts, hdn⟩ := ih hnxS hnx hrs
        fun out hmem => hcaps out (mem_append_right _ hmem)
      exact ⟨congrArg₂ (· ++ ·) hout houts, hdn⟩

theorem runQuota_cons (db : QuotaStore) (call : QuotaCall) (calls : List QuotaCall) :
    runQuota sha db (call :: calls) =
      ((runQuota sha (stepQuota sha db call).1 calls).1,
        (stepQuota sha db call).2 ++ (runQuota sha (stepQuota sha db call).1 calls).2) :=
  rfl

theorem runQuota_append (db : QuotaStore) (calls later : List QuotaCall) :
    runQuota sha db (calls ++ later) =
      ((runQuota sha (runQuota sha db calls).1 later).1,
        (runQuota sha db calls).2 ++ (runQuota sha (runQuota sha db calls).1 later).2) := by
  induction calls generalizing db with
  | nil => rfl
  | cons call calls ih =>
    rw [cons_append, runQuota_cons, runQuota_cons, ih, append_assoc]

theorem observedSamples_subset_append (calls later : List QuotaCall) :
    observedSamples calls ⊆ observedSamples (calls ++ later) := by
  induction calls with
  | nil => exact nil_subset _
  | cons call calls ih =>
    cases call with
    | observe defn sample => exact cons_subset_cons _ ih
    | maintain key size => exact ih

/-- Every sample that the projection, an epoch or a transition names is stored. -/
def QuotaStore.NamedSamplesStored (db : QuotaStore) : Prop :=
  ∀ window id, db.references window id = true → db.sampleStored window id = true

/-- The retained counters are the row numbers. -/
def QuotaStore.CountersMatch (db : QuotaStore) : Prop :=
  db.state.retainedSampleCount = db.samples.length ∧
    db.state.retainedEpochCount = db.epochHistory.length ∧
    db.state.retainedTransitionCount = db.transitions.length

theorem Thinned.namedSamplesStored (hsd : full.Sound sha seen) (hthin : Thinned full thin) :
    thin.NamedSamplesStored := by
  intro window id hnmd
  rw [hthin.eq] at hnmd
  rw [hthin.eq, sampleStored_keeping hthin.sublist.subset (hthin.keepsRows hnmd)]
  exact hsd.named_stored window id hnmd

theorem Thinned.countersMatch (hsd : full.Sound sha seen) (hthin : Thinned full thin) :
    thin.CountersMatch := by
  rw [hthin.eq]
  exact ⟨rfl, hsd.epochs_count, hsd.transitions_count⟩

/-- **Maintenance is transparent.**  Over content-stable observation ids and without a cap being
hit, a history with retention pages at any points has the outcomes, transitions and current epochs
of the history without them; at every point of it, so after every page, the named samples are
stored and the counters are the row numbers. -/
theorem maintenance_transparent (sha256 : Bytes → Bytes32) (calls : List QuotaCall)
    (hstable : ContentStable (observedSamples calls))
    (hcaps : ∀ outcome ∈ (runQuota sha256 .empty (calls.filter QuotaCall.isObserve)).2,
      QuotaOutcome.hitsCap outcome = false) :
    (runQuota sha256 .empty calls).2 =
        (runQuota sha256 .empty (calls.filter QuotaCall.isObserve)).2 ∧
      (runQuota sha256 .empty calls).1.transitions =
        (runQuota sha256 .empty (calls.filter QuotaCall.isObserve)).1.transitions ∧
      (runQuota sha256 .empty calls).1.epochCurrent =
        (runQuota sha256 .empty (calls.filter QuotaCall.isObserve)).1.epochCurrent ∧
      ∀ done, done <+: calls →
        (runQuota sha256 .empty done).1.NamedSamplesStored ∧
          (runQuota sha256 .empty done).1.CountersMatch := by
  have hemp : QuotaStore.empty.Sound sha256 (observedSamples calls) := sound_empty _
  obtain ⟨houtc, hthin, -⟩ := runQuota_thinned hstable hemp (Thinned.refl hemp)
    (List.Subset.refl _) hcaps
  refine ⟨houtc, ?_, ?_, ?_⟩
  · rw [hthin.eq]
    rfl
  · rw [hthin.eq]
    rfl
  · rintro done ⟨later, rfl⟩
    rw [filter_append, runQuota_append] at hcaps
    obtain ⟨-, hthin, hsd⟩ := runQuota_thinned hstable hemp (Thinned.refl hemp)
      (observedSamples_subset_append done later)
      fun outcome hmem => hcaps outcome (mem_append_left _ hmem)
    exact ⟨hthin.namedSamplesStored hsd, hthin.countersMatch hsd⟩

/-- A sample, a page, a manual reset, and the first sample once more. -/
def exampleCalls : List QuotaCall :=
  [.observe exampleDefinition (exampleSample 1 10 ten_pos .none),
    .maintain exampleKey 1,
    .observe exampleDefinition (exampleSample 2 20 twenty_pos .manualOrBanked),
    .observe exampleDefinition (exampleSample 1 10 ten_pos .none)]

theorem maintenance_transparent_example :
    ((runQuota lastBytes .empty (exampleCalls.filter QuotaCall.isObserve)).2.map
        fun outcome => (outcome.toOption.map fun result => result.status)) =
      [some .started, some .reset, some .stale] ∧
    (runQuota lastBytes .empty exampleCalls).2 =
      (runQuota lastBytes .empty (exampleCalls.filter QuotaCall.isObserve)).2 ∧
    (runQuota lastBytes .empty exampleCalls).1.CountersMatch := by
  have hstb : ContentStable (observedSamples exampleCalls) := by
    unfold ContentStable
    decide
  have hcaps : ∀ outcome ∈
      (runQuota lastBytes .empty (exampleCalls.filter QuotaCall.isObserve)).2,
      QuotaOutcome.hitsCap outcome = false := by decide +kernel
  obtain ⟨houtc, -, -, hdn⟩ := maintenance_transparent lastBytes exampleCalls hstb hcaps
  exact ⟨by decide +kernel, houtc, (hdn exampleCalls (prefix_refl _)).2⟩

/-- **A page never gets stuck.**  Behind every such history a page of a legal size finds each of its
candidates deletable and its counter large enough. -/
theorem maintenance_page_succeeds (sha256 : Bytes → Bytes32) (calls : List QuotaCall)
    (hstable : ContentStable (observedSamples calls))
    (hcaps : ∀ outcome ∈ (runQuota sha256 .empty (calls.filter QuotaCall.isObserve)).2,
      QuotaOutcome.hitsCap outcome = false)
    (key : QuotaWindowKey) (hpos : 0 < size) (hle : size ≤ maxQuotaMaintenancePageSize) :
    ∃ page, maintainQuotaHistoryPage sha256 (runQuota sha256 .empty calls).1 key size = .ok page := by
  have hemp : QuotaStore.empty.Sound sha256 (observedSamples calls) := sound_empty _
  obtain ⟨-, hthin, hsd⟩ := runQuota_thinned hstable hemp (Thinned.refl hemp)
    (List.Subset.refl _) hcaps
  exact maintainQuotaHistoryPage_succeeds hsd hthin key hpos hle

theorem maintenance_page_succeeds_example : ContentStable (observedSamples exampleCalls) ∧
    ∃ page, maintainQuotaHistoryPage lastBytes (runQuota lastBytes .empty exampleCalls).1
      exampleKey 1 = .ok page := by
  have hstb : ContentStable (observedSamples exampleCalls) := by
    unfold ContentStable
    decide
  exact ⟨hstb, maintenance_page_succeeds lastBytes exampleCalls hstb (by decide +kernel) exampleKey
    one_pos (by decide)⟩

end TokenMaster.Quota
