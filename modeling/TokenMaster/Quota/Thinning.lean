import TokenMaster.Lib.Thin
import TokenMaster.Quota.Maintenance

/-!
# TokenMaster.Quota.Thinning — the write path over fewer sample rows

`db.keeping rows count` is `db` with other sample rows and another sample counter.  Every read and
write of `apply_quota_observation` commutes with it as long as the rows that the call looks up by
window and observation id were kept: the equations below say so, one per function, and carry the
error cases along.
-/

namespace TokenMaster.Quota

open Domain Store TokenMaster.Except List

variable {sha : Bytes → Bytes32} {db : QuotaStore} {rows : List SampleRow} {count : ℕ}
  {win : WindowRef} {t : QuotaTransition} {holds found : Bool} {prior : Option QuotaEpochState}
  {transition : Option QuotaTransition}

namespace QuotaStore

def keeping (db : QuotaStore) (rows : List SampleRow) (count : ℕ) : QuotaStore :=
  { db with samples := rows, state := { db.state with retainedSampleCount := count } }

@[simp] theorem keeping_samples : (db.keeping rows count).samples = rows := rfl
@[simp] theorem keeping_state :
    (db.keeping rows count).state = { db.state with retainedSampleCount := count } := rfl

end QuotaStore

/-- The rows of `full` that a lookup of `id` in `window` can find are all in `thin`. -/
def KeepsRows (full thin : List SampleRow) (window : WindowRef) (id : QuotaObservationId) : Prop :=
  ∀ r ∈ full, r.addressedBy window id = true → r ∈ thin

/-! ### Lookups of samples -/

section Lookups

variable (hsub : rows ⊆ db.samples)

include hsub

theorem sampleStored_keeping {id : QuotaObservationId} (h : KeepsRows db.samples rows win id) :
    (db.keeping rows count).sampleStored win id = db.sampleStored win id :=
  Thin.any_eq hsub h

theorem sampleStoredAt_keeping {id : QuotaObservationId} (rev : ℕ)
    (h : KeepsRows db.samples rows win id) :
    (db.keeping rows count).sampleStoredAt win rev id = db.sampleStoredAt win rev id := by
  refine Thin.any_eq hsub fun r hr hp => h r hr ?_
  simp only [Bool.and_eq_true] at hp
  simp only [SampleRow.addressedBy, Bool.and_eq_true]
  exact ⟨hp.1.1, hp.2⟩

theorem optionSampleStored_keeping {id : Option QuotaObservationId}
    (h : ∀ i ∈ id, KeepsRows db.samples rows win i) :
    (db.keeping rows count).optionSampleStored win id = db.optionSampleStored win id := by
  cases id with
  | none => rfl
  | some id => exact sampleStored_keeping hsub (h id rfl)

theorem epochReferencesHold_keeping {p : QuotaEpochStateParts}
    (h : ∀ id, p.mentions id = true → KeepsRows db.samples rows win id) :
    (db.keeping rows count).epochReferencesHold win p = db.epochReferencesHold win p := by
  unfold QuotaStore.epochReferencesHold
  rw [sampleStoredAt_keeping hsub _ (h _ (by simp [QuotaEpochStateParts.mentions])),
    sampleStoredAt_keeping hsub _ (h _ (by simp [QuotaEpochStateParts.mentions])),
    optionSampleStored_keeping hsub fun i hi => h i ?_,
    optionSampleStored_keeping hsub fun i hi => h i ?_]
  · rfl
  · simp [QuotaEpochStateParts.mentions, Option.mem_def.mp hi]
  · simp [QuotaEpochStateParts.mentions, Option.mem_def.mp hi]

theorem transitionReferencesHold_keeping (rev : ℕ)
    (h : ∀ id, t.mentions id = true → KeepsRows db.samples rows win id) :
    (db.keeping rows count).transitionReferencesHold win rev t.toParts =
      db.transitionReferencesHold win rev t.toParts := by
  unfold QuotaStore.transitionReferencesHold
  rw [sampleStored_keeping hsub (h _ (by simp [QuotaTransition.mentions])),
    sampleStoredAt_keeping hsub _ (h _ (by simp [QuotaTransition.mentions])),
    optionSampleStored_keeping hsub fun i hi => h i ?_,
    optionSampleStored_keeping hsub fun i hi => h i ?_]
  · rfl
  · simp [QuotaTransition.mentions, Option.mem_def.mp hi]
  · simp [QuotaTransition.mentions, Option.mem_def.mp hi]

theorem loadPreviousSample_keeping {key : QuotaWindowKey} {current : QuotaEpochState}
    (hnd : (db.samples.map fun r => r.sample.observationId).Nodup)
    (h : KeepsRows db.samples rows win current.toParts.lastObservationId) :
    loadPreviousSample (db.keeping rows count) key win current =
      loadPreviousSample db key win current := by
  have huniq : ∀ a ∈ db.samples, ∀ b ∈ db.samples,
      a.addressedBy win current.toParts.lastObservationId = true →
      b.addressedBy win current.toParts.lastObservationId = true → a = b := by
    intro a ha b hb hpa hpb
    simp only [SampleRow.addressedBy, Bool.and_eq_true, beq_iff_eq] at hpa hpb
    exact inj_on_of_nodup_map hnd ha hb (hpa.2.trans hpb.2.symm)
  have hf : rows.find? (fun r => r.window == win &&
        r.sample.observationId == current.toParts.lastObservationId) =
      db.samples.find? (fun r => r.window == win &&
        r.sample.observationId == current.toParts.lastObservationId) :=
    Thin.find?_eq hsub h huniq
  unfold loadPreviousSample
  rw [QuotaStore.keeping_samples, hf]

end Lookups

/-! ### Statements -/

theorem constrained_keeping (holds : Bool) (next : QuotaStore) :
    constrained holds (next.keeping rows count) =
      (constrained holds next).map (·.keeping rows count) := by
  cases holds <;> rfl

theorem insertDefinition_keeping (defn : QuotaWindowDefinition) :
    insertDefinition (db.keeping rows count) win defn =
      (insertDefinition db win defn).map (·.keeping rows count) := by
  unfold insertDefinition
  rw [map_bind]
  simp only [← constrained_keeping]
  rfl

variable {rev : ℕ} {sample : QuotaSample}

/-- The primary key is checked against the kept rows. -/
theorem insertSample_keeping (hsub : rows ⊆ db.samples)
    (hnew : ∀ r ∈ db.samples, r.sample.observationId ≠ sample.observationId) :
    insertSample (db.keeping rows count) win rev sample =
      (insertSample db win rev sample).map
        (·.keeping (rows ++ [⟨win, rev, sample⟩]) count) := by
  have hno : ∀ l : List SampleRow, l ⊆ db.samples →
      (l.any fun r => r.sample.observationId == sample.observationId) = false := by
    intro l hl
    rw [any_eq_false]
    intro r hr
    simpa using hnew r (hl hr)
  unfold insertSample
  rw [map_bind]
  simp only [← constrained_keeping, QuotaStore.keeping_samples, hno rows hsub,
    hno db.samples (List.Subset.refl _)]
  rfl

variable {state : QuotaEpochState}

theorem insertEpochHistory_keeping (hsub : rows ⊆ db.samples)
    (h : ∀ id, state.toParts.mentions id = true → KeepsRows db.samples rows win id)
    (closing : ℕ) :
    insertEpochHistory (db.keeping rows count) win state closing =
      (insertEpochHistory db win state closing).map (·.keeping rows count) := by
  unfold insertEpochHistory
  simp only [map_bind, ← constrained_keeping, epochReferencesHold_keeping hsub h]
  rfl

theorem writeCurrentEpoch_keeping (hsub : rows ⊆ db.samples)
    (h : ∀ id, state.toParts.mentions id = true → KeepsRows db.samples rows win id) :
    writeCurrentEpoch (db.keeping rows count) win state =
      (writeCurrentEpoch db win state).map (·.keeping rows count) := by
  unfold writeCurrentEpoch
  simp only [map_bind, ← constrained_keeping, epochReferencesHold_keeping hsub h]
  rfl

theorem insertTransition_keeping (hsub : rows ⊆ db.samples) (rev : ℕ)
    (h : ∀ id, t.mentions id = true → KeepsRows db.samples rows win id) :
    insertTransition (db.keeping rows count) win rev t =
      (insertTransition db win rev t).map (·.keeping rows count) := by
  unfold insertTransition
  simp only [map_bind, ← constrained_keeping, transitionReferencesHold_keeping hsub rev h]
  rfl

theorem insertWindowCurrent_keeping (hsub : rows ⊆ db.samples) (rev : ℕ)
    (state : QuotaEpochState) (h : KeepsRows db.samples rows win sample.observationId) :
    insertWindowCurrent (db.keeping rows count) win rev sample state =
      (insertWindowCurrent db win rev sample state).map (·.keeping rows count) := by
  unfold insertWindowCurrent
  simp only [map_bind, ← constrained_keeping, sampleStoredAt_keeping hsub rev h]
  rfl

/-! ### What a statement that succeeds has done -/

variable {result : QuotaStore}

theorem constrained_eq_ok {next : QuotaStore} :
    constrained holds next = .ok result ↔ holds = true ∧ next = result := by
  cases holds <;> simp [constrained]

theorem requireInput_eq_ok {u : Unit} :
    requireInput holds = .ok u ↔ holds = true := by
  cases holds <;> simp [requireInput]

theorem insertDefinition_ok {defn : QuotaWindowDefinition}
    (h : insertDefinition db win defn = .ok result) :
    { db with definitions := db.definitions ++ [⟨win, defn⟩] } = result := by
  obtain ⟨-, -, h⟩ := bind_eq_ok.mp h
  exact (constrained_eq_ok.mp h).2

theorem insertSample_ok (h : insertSample db win rev sample = .ok result) :
    unitsFit sample.units = true ∧
      (∀ r ∈ db.samples, r.sample.observationId ≠ sample.observationId) ∧
      { db with samples := db.samples ++ [⟨win, rev, sample⟩] } = result := by
  obtain ⟨_, hfit, h⟩ := bind_eq_ok.mp h
  obtain ⟨hcons, h⟩ := constrained_eq_ok.mp h
  simp only [Bool.and_eq_true, Bool.not_eq_true', any_eq_false, beq_iff_eq] at hcons
  exact ⟨requireInput_eq_ok.mp hfit, hcons.2, h⟩

theorem insertEpochHistory_ok {closing : ℕ}
    (h : insertEpochHistory db win state closing = .ok result) :
    { db with epochHistory := db.epochHistory ++ [⟨win, state.toParts, closing⟩] } = result := by
  obtain ⟨-, -, h⟩ := bind_eq_ok.mp h
  obtain ⟨-, -, h⟩ := bind_eq_ok.mp h
  obtain ⟨-, -, h⟩ := bind_eq_ok.mp h
  exact (constrained_eq_ok.mp h).2

theorem writeCurrentEpoch_ok (h : writeCurrentEpoch db win state = .ok result) :
    { db with
      epochCurrent := (db.epochCurrent.filter fun r => r.window != win) ++
        [⟨win, state.toParts⟩] } = result := by
  obtain ⟨-, -, h⟩ := bind_eq_ok.mp h
  obtain ⟨-, -, h⟩ := bind_eq_ok.mp h
  obtain ⟨-, -, h⟩ := bind_eq_ok.mp h
  exact (constrained_eq_ok.mp h).2

theorem insertTransition_ok (h : insertTransition db win rev t = .ok result) :
    { db with transitions := db.transitions ++ [⟨win, rev, t⟩] } = result := by
  obtain ⟨-, -, h⟩ := bind_eq_ok.mp h
  obtain ⟨-, -, h⟩ := bind_eq_ok.mp h
  obtain ⟨-, -, h⟩ := bind_eq_ok.mp h
  exact (constrained_eq_ok.mp h).2

theorem insertWindowCurrent_ok
    (h : insertWindowCurrent db win rev sample state = .ok result) :
    ∃ row : WindowCurrentRow, row.sampleObservationId = sample.observationId ∧
      row.window = win ∧ { db with windowCurrent := db.windowCurrent ++ [row] } = result := by
  obtain ⟨-, -, h⟩ := bind_eq_ok.mp h
  exact ⟨_, rfl, rfl, (constrained_eq_ok.mp h).2⟩

/-! ### The phases of an observation -/

/-- What the load phase returns over other sample rows. -/
def LoadedWindow.keeping (loaded : LoadedWindow) (count : ℕ) (observationExists : Bool) :
    LoadedWindow :=
  { loaded with
    state := { loaded.state with retainedSampleCount := count }
    observationExists := observationExists }

theorem loadQuotaState_keeping :
    loadQuotaState (db.keeping rows count) =
      (loadQuotaState db).map fun s => { s with retainedSampleCount := count } := by
  unfold loadQuotaState
  by_cases h : ((db.state.revision == 0) != db.state.lastPublishedAtMs.isNone) = true
  · simp only [QuotaStore.keeping_state, h, if_true, Except.map]
  · simp only [QuotaStore.keeping_state, h, Except.map]
    rfl

/-- With content-stable ids the identity check is a lookup of the id. -/
theorem validateObservationIdentity_stable {l : List SampleRow} (hl : db.samples = l)
    (h : ∀ r ∈ l, r.sample.observationId = sample.observationId →
      r.window = win ∧ r.sample = sample ∧ unitsFit sample.units = true) :
    validateObservationIdentity db win sample =
      .ok (l.any fun r => r.sample.observationId == sample.observationId) := by
  unfold validateObservationIdentity
  rw [hl]
  by_cases hany : (l.any fun r => r.sample.observationId == sample.observationId) = true
  · obtain ⟨r, hr, hid⟩ := any_eq_true.mp hany
    obtain ⟨hw, hs, hfit⟩ := h r hr (by simpa using hid)
    have hagrees : (l.any fun r => r.agrees win sample) = true := by
      refine any_eq_true.mpr ⟨r, hr, ?_⟩
      simp [SampleRow.agrees, hw, hs]
    rw [if_neg (by simp [hany]), hany]
    simp only [requireInput, hfit, hagrees, if_true]
    rfl
  · rw [Bool.not_eq_true] at hany
    rw [if_pos (by simp [hany]), hany]

theorem ensureDefinition_keeping (defn : QuotaWindowDefinition) (found : Bool) :
    ensureDefinition (db.keeping rows count) win defn found =
      (ensureDefinition db win defn found).map (·.keeping rows count) := by
  cases found with
  | true => rfl
  | false => exact insertDefinition_keeping defn

theorem ensureDefinition_samples {defn : QuotaWindowDefinition}
    (h : ensureDefinition db win defn found = .ok result) :
    result = { db with definitions := result.definitions } := by
  cases found with
  | true => cases h; rfl
  | false => rw [← insertDefinition_ok h]

theorem closePriorEpoch_keeping (hsub : rows ⊆ db.samples) {accepted : AcceptedEvaluation}
    (h : ∀ c ∈ prior, ∀ id, c.toParts.mentions id = true → KeepsRows db.samples rows win id) :
    closePriorEpoch (db.keeping rows count) win prior accepted =
      (closePriorEpoch db win prior accepted).map (·.keeping rows count) := by
  unfold closePriorEpoch
  by_cases hcloses : accepted.closesEpoch = true
  · rw [if_pos hcloses, if_pos hcloses]
    cases prior with
    | none => rfl
    | some c =>
      cases accepted.transition with
      | none => rfl
      | some t => exact insertEpochHistory_keeping hsub (h c rfl) _
  · rw [if_neg hcloses, if_neg hcloses]
    rfl

theorem closePriorEpoch_ok {accepted : AcceptedEvaluation}
    (h : closePriorEpoch db win prior accepted = .ok result) :
    ∃ closed : List EpochHistoryRow, closed.length = accepted.closesEpoch.toNat ∧
      (∀ r ∈ closed, r.window = win ∧ ∃ c ∈ prior, r.parts = c.toParts) ∧
      { db with epochHistory := db.epochHistory ++ closed } = result := by
  unfold closePriorEpoch at h
  by_cases hcloses : accepted.closesEpoch = true
  · rw [if_pos hcloses] at h
    cases prior with
    | none => cases h
    | some c =>
      cases ht : accepted.transition with
      | none => rw [ht] at h; cases h
      | some t =>
        rw [ht] at h
        refine ⟨[⟨win, c.toParts, t.toParts.sequence⟩], by rw [hcloses]; rfl, ?_,
          insertEpochHistory_ok h⟩
        intro r hr
        rw [mem_singleton.mp hr]
        exact ⟨rfl, c, rfl, rfl⟩
  · rw [if_neg hcloses] at h
    cases h
    refine ⟨[], ?_, fun r hr => absurd hr (not_mem_nil), ?_⟩
    · rw [Bool.not_eq_true] at hcloses
      rw [hcloses]
      rfl
    · rw [append_nil]

theorem storeTransition_keeping (hsub : rows ⊆ db.samples) (rev : ℕ)
    (h : ∀ t ∈ transition, ∀ id, t.mentions id = true → KeepsRows db.samples rows win id) :
    storeTransition (db.keeping rows count) win rev transition =
      (storeTransition db win rev transition).map (·.keeping rows count) := by
  cases transition with
  | none => rfl
  | some t => exact insertTransition_keeping hsub rev (h t rfl)

theorem storeTransition_ok (h : storeTransition db win rev transition = .ok result) :
    ∃ stored : List TransitionRow, stored.length = transition.isSome.toNat ∧
      (∀ r ∈ stored, r.window = win ∧ r.transition ∈ transition) ∧
      { db with transitions := db.transitions ++ stored } = result := by
  cases transition with
  | none =>
    cases h
    exact ⟨[], rfl, fun r hr => absurd hr (not_mem_nil), by rw [append_nil]⟩
  | some t =>
    refine ⟨[⟨win, rev, t⟩], rfl, ?_, insertTransition_ok h⟩
    intro r hr
    rw [mem_singleton.mp hr]
    exact ⟨rfl, rfl⟩

section Accepted

variable {defn : QuotaWindowDefinition} {sample : QuotaSample} {loaded : LoadedWindow}
  {accepted : AcceptedEvaluation} {r : SampleRow}

/-- The row that an accepted sample gets. -/
def sampleRow (window : WindowRef) (definition : QuotaWindowDefinition) (sample : QuotaSample) :
    SampleRow :=
  ⟨window, definition.revision, sample⟩

/-- Everything that the write phase of an accepted evaluation changes. -/
structure Written (db : QuotaStore) (window : WindowRef) (definition : QuotaWindowDefinition)
    (sample : QuotaSample) (loaded : LoadedWindow) (accepted : AcceptedEvaluation)
    (result : QuotaStore) where
  fits : unitsFit sample.units = true
  fresh : ∀ r ∈ db.samples, r.sample.observationId ≠ sample.observationId
  closed : List EpochHistoryRow
  closed_length : closed.length = accepted.closesEpoch.toNat
  closed_prior : ∀ r ∈ closed, r.window = window ∧ ∃ c ∈ loaded.current, r.parts = c.toParts
  stored : List TransitionRow
  stored_length : stored.length = accepted.transition.isSome.toNat
  stored_transition : ∀ r ∈ stored, r.window = window ∧ r.transition ∈ accepted.transition
  current : WindowCurrentRow
  current_sample : current.sampleObservationId = sample.observationId
  current_window : current.window = window
  eq : result =
    { state := db.state
      definitions := result.definitions
      samples := db.samples ++ [sampleRow window definition sample]
      epochCurrent := (db.epochCurrent.filter fun r => r.window != window) ++
        [⟨window, accepted.nextState.toParts⟩]
      epochHistory := db.epochHistory ++ closed
      transitions := db.transitions ++ stored
      windowCurrent := (db.windowCurrent.filter fun r => r.window != window) ++ [current] }

theorem writeAccepted_ok {result : QuotaStore}
    (h : writeAccepted db win defn sample loaded accepted = .ok result) :
    Nonempty (Written db win defn sample loaded accepted result) := by
  obtain ⟨db₁, h₁, h⟩ := bind_eq_ok.mp h
  obtain ⟨db₂, h₂, h⟩ := bind_eq_ok.mp h
  obtain ⟨db₃, h₃, h⟩ := bind_eq_ok.mp h
  obtain ⟨db₄, h₄, h⟩ := bind_eq_ok.mp h
  obtain ⟨db₅, h₅, h⟩ := bind_eq_ok.mp h
  have e₁ := ensureDefinition_samples h₁
  obtain ⟨hfit, hfr, e₂⟩ := insertSample_ok h₂
  obtain ⟨closed, hclosed, hpr, e₃⟩ := closePriorEpoch_ok h₃
  have e₄ := writeCurrentEpoch_ok h₄
  obtain ⟨stored, hsto, htran, e₅⟩ := storeTransition_ok h₅
  obtain ⟨cur, hs, hw, e₆⟩ := insertWindowCurrent_ok h
  rw [e₁] at hfr e₂
  subst e₂ e₃ e₄ e₅ e₆
  exact ⟨⟨hfit, hfr, closed, hclosed, hpr, stored, hsto, htran, cur, hs, hw, rfl⟩⟩

/-- The ids that an accepted evaluation may name: its own sample and what the epoch before named. -/
structure NamesKnownSamples (sample : QuotaSample) (current : Option QuotaEpochState)
    (accepted : AcceptedEvaluation) : Prop where
  state : ∀ id, accepted.nextState.toParts.mentions id = true →
    id = sample.observationId ∨ ∃ c ∈ current, c.toParts.mentions id = true
  transition : ∀ t ∈ accepted.transition, ∀ id, t.mentions id = true →
    id = sample.observationId ∨ ∃ c ∈ current, c.toParts.mentions id = true

theorem writeAccepted_keeping (hsub : rows ⊆ db.samples)
    (hnew : ∀ r ∈ db.samples, r.sample.observationId ≠ sample.observationId)
    (hcur : ∀ c ∈ loaded.current, ∀ id, c.toParts.mentions id = true →
      KeepsRows db.samples rows win id)
    (hnames : NamesKnownSamples sample loaded.current accepted) :
    writeAccepted (db.keeping rows count) win defn sample (loaded.keeping count found)
        accepted =
      (writeAccepted db win defn sample loaded accepted).map
        (·.keeping (rows ++ [sampleRow win defn sample]) count) := by
  -- from the sample insert on, both runs look only for the new row and for kept ones
  have hsub' : rows ++ [sampleRow win defn sample] ⊆
      db.samples ++ [sampleRow win defn sample] :=
    append_subset.mpr ⟨subset_append_of_subset_left _ hsub, subset_append_right _ _⟩
  have hkp : ∀ id, (id = sample.observationId ∨
      ∃ c ∈ loaded.current, c.toParts.mentions id = true) →
      KeepsRows (db.samples ++ [sampleRow win defn sample])
        (rows ++ [sampleRow win defn sample]) win id := by
    intro id hid r hr haddr
    rcases mem_append.mp hr with hold | hl
    · rcases hid with rfl | ⟨c, hc, hid⟩
      · simp only [SampleRow.addressedBy, Bool.and_eq_true, beq_iff_eq] at haddr
        exact absurd haddr.2 (hnew r hold)
      · exact mem_append_left _ (hcur c hc id hid r hold haddr)
    · exact mem_append_right _ hl
  refine bind_eq_map (ensureDefinition_keeping defn _) fun db₁ h₁ => ?_
  have e₁ := ensureDefinition_samples h₁
  have hs₁ : db₁.samples = db.samples := by rw [e₁]
  refine bind_eq_map (insertSample_keeping (hs₁ ▸ hsub) (hs₁ ▸ hnew)) fun db₂ h₂ => ?_
  have hs₂ : db₂.samples = db.samples ++ [sampleRow win defn sample] := by
    rw [← (insertSample_ok h₂).2.2, ← hs₁]
    rfl
  rw [← hs₂] at hsub' hkp
  have hsub₂ : rows ++ [sampleRow win defn sample] ⊆
      (deleteWindowCurrent db₂ win).samples := hsub'
  refine bind_eq_map (closePriorEpoch_keeping hsub₂ fun c hc id hid =>
    hkp id (.inr ⟨c, hc, hid⟩)) fun db₃ h₃ => ?_
  obtain ⟨closed, -, -, e₃⟩ := closePriorEpoch_ok h₃
  have hs₃ : db₂.samples = db₃.samples := by rw [← e₃]; rfl
  rw [hs₃] at hsub' hkp
  refine bind_eq_map (writeCurrentEpoch_keeping hsub' fun id hid =>
    hkp id (hnames.state id hid)) fun db₄ h₄ => ?_
  have hs₄ : db₃.samples = db₄.samples := by rw [← writeCurrentEpoch_ok h₄]
  rw [hs₄] at hsub' hkp
  refine bind_eq_map (storeTransition_keeping hsub' _ fun t ht id hid =>
    hkp id (hnames.transition t ht id hid)) fun db₅ h₅ => ?_
  obtain ⟨stored, -, -, e₅⟩ := storeTransition_ok h₅
  have hs₅ : db₄.samples = db₅.samples := by rw [← e₅]
  rw [hs₅] at hsub' hkp
  exact insertWindowCurrent_keeping hsub' _ _ (hkp _ (.inl rfl))

/-! ### Pruning and publishing -/

/-- The rows that are left after `deleteUnprotectedSample`. -/
def survivors (db : QuotaStore) (window : WindowRef) (id : QuotaObservationId)
    (rows : List SampleRow) : List SampleRow :=
  if db.references window id then rows else rows.filter fun r => !r.addressedBy window id

theorem deleteUnprotectedSample_eq (id : QuotaObservationId) :
    deleteUnprotectedSample db win id =
      ({ db with samples := survivors db win id db.samples },
        !db.references win id && db.sampleStored win id) := by
  unfold deleteUnprotectedSample survivors
  cases db.references win id <;> rfl

variable {id : QuotaObservationId}

theorem deleteUnprotectedSample_keeping (hsub : rows ⊆ db.samples)
    (h : KeepsRows db.samples rows win id) :
    deleteUnprotectedSample (db.keeping rows count) win id =
      ((deleteUnprotectedSample db win id).1.keeping (survivors db win id rows) count,
        (deleteUnprotectedSample db win id).2) := by
  rw [deleteUnprotectedSample_eq, deleteUnprotectedSample_eq, sampleStored_keeping hsub h]
  rfl

theorem mem_survivors :
    r ∈ survivors db win id rows ↔
      r ∈ rows ∧ (db.references win id = true ∨ r.addressedBy win id = false) := by
  unfold survivors
  cases db.references win id with
  | true | false => simp

theorem survivors_sublist {full : List SampleRow} (id : QuotaObservationId)
    (h : rows.Sublist full) :
    (survivors db win id rows).Sublist (survivors db win id full) := by
  unfold survivors
  cases db.references win id with
  | true => exact h
  | false => exact h.filter _

theorem survivors_sublist_self (id : QuotaObservationId) :
    (survivors db win id rows).Sublist rows := by
  unfold survivors
  split_ifs
  · exact List.Sublist.refl _
  · exact filter_sublist

/-- A row that some table names is never deleted. -/
theorem mem_survivors_of_named (hr : r ∈ rows)
    (hnmd : db.references r.window r.sample.observationId = true) :
    r ∈ survivors db win id rows := by
  refine mem_survivors.mpr ⟨hr, ?_⟩
  by_cases haddr : r.addressedBy win id = true
  · simp only [SampleRow.addressedBy, Bool.and_eq_true, beq_iff_eq] at haddr
    rw [haddr.1, haddr.2] at hnmd
    exact .inl hnmd
  · exact .inr (Bool.not_eq_true _ ▸ haddr)

/-- A delete removes exactly the row that it reports. -/
theorem length_survivors (hnd : (rows.map fun r => r.sample.observationId).Nodup) :
    (survivors db win id rows).length +
      (!db.references win id && rows.any fun r => r.addressedBy win id).toNat =
      rows.length := by
  unfold survivors
  cases db.references win id with
  | true => simp
  | false =>
    by_cases hany : (rows.any fun r => r.addressedBy win id) = true
    · obtain ⟨r, hr, haddr⟩ := any_eq_true.mp hany
      simp only [SampleRow.addressedBy, Bool.and_eq_true, beq_iff_eq] at haddr
      -- an id has one row, so the window column does not matter
      have hfilter : (rows.filter fun b => !b.addressedBy win id) =
          rows.filter fun b => !(b.sample.observationId == r.sample.observationId) := by
        refine filter_congr fun b hb => ?_
        by_cases hid : b.sample.observationId = r.sample.observationId
        · have : b = r := inj_on_of_nodup_map hnd hb hr hid
          subst this
          simp [SampleRow.addressedBy, haddr.1, haddr.2]
        · have hne : b.sample.observationId ≠ id := fun h => hid (h.trans haddr.2.symm)
          simp [SampleRow.addressedBy, haddr.2, hne]
      have hlen := Thin.length_filter_ne hnd hr
      simp only [hany, hfilter, Bool.not_false, Bool.and_self, Bool.toNat_true, Bool.false_eq_true,
        if_false]
      exact hlen
    · have hall : (rows.filter fun r => !r.addressedBy win id) = rows := by
        rw [filter_eq_self]
        intro r hr
        rw [Bool.not_eq_true, any_eq_false] at hany
        simpa using hany r hr
      simp [hany, hall]

/-- The prune is one delete or nothing, whatever the store. -/
theorem prunePrevious_cases (win : WindowRef) (defn : QuotaWindowDefinition)
    (sample : QuotaSample) (loaded : LoadedWindow) (accepted : AcceptedEvaluation) :
    (∀ db, prunePrevious db win defn sample loaded accepted = (db, false)) ∨
      ∃ c ∈ loaded.current, ∃ prev ∈ loaded.previous,
        ∀ db, prunePrevious db win defn sample loaded accepted =
          deleteUnprotectedSample db win prev.observationId := by
  unfold prunePrevious
  cases loaded.current with
  | none => exact .inl fun db => rfl
  | some c =>
    cases loaded.previous with
    | none => exact .inl fun db => rfl
    | some prev =>
      by_cases hprune : (accepted.status == .advanced &&
          c.toParts.definitionRevision == defn.revision &&
          samplesAreRedundant prev sample) = true
      · exact .inr ⟨c, rfl, prev, rfl, fun db => if_pos hprune⟩
      · exact .inl fun db => if_neg hprune

theorem publishQuotaState_keeping {state : QuotaState} {next delta : ℕ} {seen : ℤ}
    {closed inserted : Bool} (hfu : state.retainedSampleCount + delta ≤ i64Max)
    (hthin : count + delta ≤ i64Max) :
    publishQuotaState (db.keeping rows count) { state with retainedSampleCount := count } next
        seen delta closed inserted =
      (publishQuotaState db state next seen delta closed inserted).map
        (·.keeping rows (count + delta)) := by
  unfold publishQuotaState
  simp only [map_bind, checkedCount, if_pos hfu, if_pos hthin]
  rfl

end Accepted

end TokenMaster.Quota
