import Mathlib.Data.List.Nodup
import Mathlib.Data.Set.Function
import TokenMaster.Quota.Detector

/-!
# TokenMaster.Quota.DetectorRun — runs of the detector are restorable

A run feeds samples one after another to `evaluateSample`, each with the state and sample of the
last accepted step.  `Coherent` is what `restore` demands of an epoch state; every branch of the
detector keeps it, and the transition of a branch is coherent because the state before it was.

Epoch identities are digests, so the one fact that is not about the detector is that two epochs of
the run do not collide: `EpochIdsSeparate`.
-/

namespace TokenMaster.Quota

open Domain List

variable {sha256 : Bytes → Bytes32} {s : QuotaEpochState} {cur new : Option QuotaUnits}
  {sequence : ℕ} {e : QuotaEvaluation}

/-! ### What `restore` demands -/

/-- The relations that `QuotaEpochState::restore` checks. -/
structure QuotaEpochStateParts.Coherent (sha256 : Bytes → Bytes32) (p : QuotaEpochStateParts) :
    Prop where
  revision_pos : 0 < p.epochDefinitionRevision
  revision_le : p.epochDefinitionRevision ≤ p.definitionRevision
  first_pos : 0 < p.firstObservedAtMs
  first_le_last : p.firstObservedAtMs ≤ p.lastObservedAtMs
  advertised_pos : ∀ t ∈ p.advertisedResetsAtMs, 0 < t
  ratio_named : p.maximumUsedRatio.isSome = p.maximumUsedRatioObservationId.isSome
  units_named : p.maximumUsedUnits.isSome = p.maximumUsedUnitsObservationId.isSome
  units_used : ∀ u ∈ p.maximumUsedUnits, u.used.isSome
  epochId_eq : p.epochId = quotaEpochId sha256 p.key p.epochDefinitionRevision p.firstObservationId

theorem any_eq_false_iff {α : Type} {o : Option α} {p : α → Bool} :
    o.any p = false ↔ ∀ a ∈ o, p a = false := by
  cases o <;> simp

theorem QuotaEpochState.restore_toParts (h : s.toParts.Coherent sha256) :
    QuotaEpochState.restore sha256 s.toParts = .ok s := by
  have hadv : s.toParts.advertisedResetsAtMs.any (· ≤ 0) = false :=
    any_eq_false_iff.mpr fun t ht => by simpa using h.advertised_pos t ht
  have hus : s.toParts.maximumUsedUnits.any (·.used.isNone) = false :=
    any_eq_false_iff.mpr fun u hu => by simpa using h.units_used u hu
  have hok : s.toParts.incoherent sha256 = false := by
    have h1 := h.revision_pos
    have h2 := h.revision_le
    have h3 := h.first_pos
    have h4 := h.first_le_last
    simp only [QuotaEpochStateParts.incoherent, hadv, hus, h.ratio_named, h.units_named,
      ← h.epochId_eq, bne_self_eq_false, Bool.or_false, Bool.or_eq_false_iff, beq_eq_false_iff_ne,
      decide_eq_false_iff_not]
    omega
  simp [QuotaEpochState.restore, hok]

/-- The relations that `QuotaTransition::restore` checks. -/
structure QuotaTransitionParts.Coherent (sha256 : Bytes → Bytes32) (p : QuotaTransitionParts) :
    Prop where
  revision_pos : 0 < p.definitionRevision
  sequence_pos : 0 < p.sequence
  shape : (p.kind = .allowanceChanged ∧ p.previousEpochId = p.currentEpochId ∧
      p.allowanceChange.isSome) ∨
    (p.kind ≠ .allowanceChanged ∧ p.previousEpochId ≠ p.currentEpochId)
  observations_ne : p.preObservationId ≠ p.postObservationId
  ratio_named :
    p.maximumUsedRatioBefore.isSome = p.maximumUsedRatioObservationIdBefore.isSome
  units_named :
    p.maximumUsedUnitsBefore.isSome = p.maximumUsedUnitsObservationIdBefore.isSome
  units_used : ∀ u ∈ p.maximumUsedUnitsBefore, u.used.isSome
  old_pos : ∀ t ∈ p.oldResetsAtMs, 0 < t
  new_pos : ∀ t ∈ p.newResetsAtMs, 0 < t
  time_valid : p.detectionTime.isValid = true
  id_eq : p.id = quotaTransitionId sha256 p.identityInput

theorem QuotaTransition.restore_toParts {t : QuotaTransition} (h : t.toParts.Coherent sha256) :
    QuotaTransition.restore sha256 t.toParts = .ok t := by
  have hold : t.toParts.oldResetsAtMs.any (· ≤ 0) = false :=
    any_eq_false_iff.mpr fun a ha => by simpa using h.old_pos a ha
  have hnew : t.toParts.newResetsAtMs.any (· ≤ 0) = false :=
    any_eq_false_iff.mpr fun a ha => by simpa using h.new_pos a ha
  have hus : t.toParts.maximumUsedUnitsBefore.any (·.used.isNone) = false :=
    any_eq_false_iff.mpr fun u hu => by simpa using h.units_used u hu
  have hsh : (!(t.toParts.kind == .allowanceChanged &&
      !(t.toParts.previousEpochId != t.toParts.currentEpochId) &&
        t.toParts.allowanceChange.isSome) &&
      !(t.toParts.kind != .allowanceChanged &&
        t.toParts.previousEpochId != t.toParts.currentEpochId)) = false := by
    obtain ⟨h1, h2, h3⟩ | ⟨h1, h2⟩ := h.shape
    · simp [h1, h2, h3]
    · simp [h1, h2]
  have hok : t.toParts.incoherent sha256 = false := by
    simp only [QuotaTransitionParts.incoherent, hold, hnew, hus, hsh, h.ratio_named,
      h.units_named, h.time_valid, ← h.id_eq, bne_self_eq_false, Bool.not_true, Bool.or_false,
      Bool.or_eq_false_iff, beq_eq_false_iff_ne]
    exact ⟨⟨h.revision_pos.ne', h.sequence_pos.ne'⟩, h.observations_ne⟩
  simp [QuotaTransition.restore, hok]

/-! ### The branches of the detector -/

theorem usedUnits_used (units : Option QuotaUnits) : ∀ u ∈ usedUnits units, u.used.isSome := by
  intro u hu
  exact (Option.mem_filter_iff.mp hu).2

variable {curId : Option QuotaObservationId} {newId : QuotaObservationId}

theorem maximumRatio_named {cur : Option QuotaRatio} {new : Option QuotaRatio}
    (h : cur.isSome = curId.isSome) :
    (maximumRatio cur curId new newId).1.isSome = (maximumRatio cur curId new newId).2.isSome := by
  unfold maximumRatio
  cases cur <;> cases new <;> dsimp only
  · rfl
  · rfl
  · exact h
  · split_ifs
    · rfl
    · exact h

theorem maximumUnits_named (h : cur.isSome = curId.isSome) :
    (maximumUnits cur curId new newId).1.isSome = (maximumUnits cur curId new newId).2.isSome := by
  unfold maximumUnits
  cases cur <;> cases usedUnits new <;> dsimp only
  · rfl
  · rfl
  · exact h
  · split_ifs
    · rfl
    · exact h
    · rfl

theorem maximumUnits_used (h : ∀ u ∈ cur, u.used.isSome) :
    ∀ u ∈ (maximumUnits cur curId new newId).1, u.used.isSome := by
  unfold maximumUnits
  cases cur with
  | none =>
    cases hn : usedUnits new with
    | none => simp
    | some n =>
      exact fun u hu => usedUnits_used new u (hn ▸ hu)
  | some c =>
    cases hn : usedUnits new with
    | none => exact h
    | some n =>
      dsimp only
      split_ifs
      · exact fun u hu => usedUnits_used new u (hn ▸ hu)
      · exact h
      · simp

theorem startEpochWithSequence_coherent (definition : QuotaWindowDefinition) (sample : QuotaSample)
    (sequence : ℕ) :
    (startEpochWithSequence sha256 definition sample sequence).toParts.Coherent sha256 where
  revision_pos := definition.revision_pos
  revision_le := le_rfl
  first_pos := sample.valid.observed_pos
  first_le_last := le_rfl
  advertised_pos := sample.valid.advertised_pos
  ratio_named := (Option.isSome_map ..).symm
  units_named := (Option.isSome_map ..).symm
  units_used := usedUnits_used sample.units
  epochId_eq := rfl

variable {definition : QuotaWindowDefinition} {cur : QuotaEpochState}
    {sample prev : QuotaSample}

/-- Advancing keeps an epoch coherent when the definition does not regress and time moves on. -/
theorem advanceEpoch_coherent (h : cur.toParts.Coherent sha256)
    (hrev : cur.toParts.definitionRevision ≤ definition.revision)
    (htime : cur.toParts.lastObservedAtMs ≤ sample.observedAtMs) :
    (advanceEpoch definition cur sample).toParts.Coherent sha256 where
  revision_pos := h.revision_pos
  revision_le := h.revision_le.trans hrev
  first_pos := h.first_pos
  first_le_last := h.first_le_last.trans htime
  advertised_pos := sample.valid.advertised_pos
  ratio_named := maximumRatio_named h.ratio_named
  units_named := maximumUnits_named h.units_named
  units_used := maximumUnits_used h.units_used
  epochId_eq := h.epochId_eq

/-- A transition sequence plays no part in coherence. -/
theorem coherent_withSequence {p : QuotaEpochStateParts} (h : p.Coherent sha256) (sequence : ℕ) :
    ({ p with lastTransitionSequence := sequence } : QuotaEpochStateParts).Coherent sha256 :=
  ⟨h.revision_pos, h.revision_le, h.first_pos, h.first_le_last, h.advertised_pos, h.ratio_named,
    h.units_named, h.units_used, h.epochId_eq⟩

theorem resetKind_ne_allowanceChanged (signal : ResetSignal) (prev sample : QuotaSample) :
    resetKind signal prev sample ≠ .allowanceChanged := by
  unfold resetKind
  split_ifs <;> first | decide | skip
  cases prev.advertisedResetsAtMs with
  | none => dsimp only; decide
  | some bnd => dsimp only; split_ifs <;> decide

theorem interval_isValid (h : prev.observedAtMs < sample.observedAtMs) :
    (QuotaDetectionTime.interval prev.observedAtMs sample.observedAtMs).isValid = true := by
  have := prev.valid.observed_pos
  simp [QuotaDetectionTime.isValid, this, h]

theorem resetDetectionTime_isValid (h : prev.observedAtMs < sample.observedAtMs) :
    (resetDetectionTime prev sample).isValid = true := by
  unfold resetDetectionTime
  cases ho : occurredAfter prev sample with
  | none => exact interval_isValid h
  | some t =>
    have hlt := (Option.filter_eq_some_iff.mp ho).2
    have hpos := prev.valid.observed_pos
    simp only [gt_iff_lt, decide_eq_true_eq] at hlt
    simp only [QuotaDetectionTime.isValid, gt_iff_lt, decide_eq_true_eq]
    omega

/-- A transition out of a coherent state is coherent when its shape and time are right. -/
theorem makeTransition_coherent {previousState currentState : QuotaEpochState}
    {kind : QuotaTransitionKind} {ch : Option QuotaAllowanceChange}
    {confidence : QuotaConfidence} {time : QuotaDetectionTime}
    (hsta : previousState.toParts.Coherent sha256) (hseq : 0 < sequence)
    (hsh : (kind = .allowanceChanged ∧
        previousState.toParts.epochId = currentState.toParts.epochId ∧ ch.isSome) ∨
      (kind ≠ .allowanceChanged ∧ previousState.toParts.epochId ≠ currentState.toParts.epochId))
    (hobs : prev.observationId ≠ sample.observationId) (htime : time.isValid = true) :
    (makeTransition sha256 definition previousState currentState prev sample sequence kind
      ch confidence time).toParts.Coherent sha256 where
  revision_pos := definition.revision_pos
  sequence_pos := hseq
  shape := hsh
  observations_ne := hobs
  ratio_named := hsta.ratio_named
  units_named := hsta.units_named
  units_used := hsta.units_used
  old_pos := prev.valid.advertised_pos
  new_pos := sample.valid.advertised_pos
  time_valid := htime
  id_eq := rfl

variable {next : ℕ}

/-! ### What an evaluation has found -/

/-- What the checks say about a sample that is newer than the last one. -/
structure Newer (definition : QuotaWindowDefinition) (current : QuotaEpochState)
    (previous sample : QuotaSample) : Prop where
  revision_le : current.toParts.definitionRevision ≤ definition.revision
  last_id : current.toParts.lastObservationId = previous.observationId
  last_time : current.toParts.lastObservedAtMs = previous.observedAtMs
  other : sample.observationId ≠ previous.observationId
  later : previous.observedAtMs < sample.observedAtMs

/-- The evaluations that `evaluate_sample` returns. -/
inductive Evaluates (sha256 : Bytes → Bytes32) (definition : QuotaWindowDefinition)
    (sample : QuotaSample) :
    Option QuotaEpochState → Option QuotaSample → QuotaEvaluation → Prop where
  | started : Evaluates sha256 definition sample none none
      (.started (startEpoch sha256 definition sample))
  | duplicate {current : QuotaEpochState} {previous : QuotaSample} :
    Evaluates sha256 definition sample (some current) (some previous) .duplicate
  | stale {current : QuotaEpochState} {previous : QuotaSample} :
    Evaluates sha256 definition sample (some current) (some previous) .stale
  | reset {current nextState : QuotaEpochState} {previous : QuotaSample} {signal sequence}
    (hnewer : Newer definition current previous sample)
    (hsequence : sequence = current.toParts.lastTransitionSequence + 1)
    (hstate : nextState = startEpochWithSequence sha256 definition sample sequence) :
    Evaluates sha256 definition sample (some current) (some previous)
      (.reset nextState (makeTransition sha256 definition current nextState previous sample sequence
        (resetKind signal previous sample) (detectAllowanceChange previous sample)
        (resetConfidence signal sample) (resetDetectionTime previous sample)))
  | allowanceChanged {current nextState : QuotaEpochState} {previous : QuotaSample} {change sequence}
    (hnewer : Newer definition current previous sample)
    (hsequence : sequence = current.toParts.lastTransitionSequence + 1)
    (hsignal : detectResetSignal definition previous sample = none)
    (hstate : nextState = ⟨{ (advanceEpoch definition current sample).toParts with
      lastTransitionSequence := sequence }⟩) :
    Evaluates sha256 definition sample (some current) (some previous)
      (.allowanceChanged nextState (makeTransition sha256 definition current nextState previous
        sample sequence .allowanceChanged (some change) sample.confidence
        (.interval previous.observedAtMs sample.observedAtMs)))
  | advanced {current : QuotaEpochState} {previous : QuotaSample}
    (hnewer : Newer definition current previous sample)
    (hsignal : detectResetSignal definition previous sample = none) :
    Evaluates sha256 definition sample (some current) (some previous)
      (.advanced (advanceEpoch definition current sample))

theorem exactNextSequence_eq (h : exactNextSequence cur next = .ok sequence) :
    sequence = cur.toParts.lastTransitionSequence + 1 := by
  unfold exactNextSequence at h
  split_ifs at h
  cases h
  rfl

theorem evaluateNewer_ok (hnw : Newer definition cur prev sample)
    (h : evaluateNewer sha256 definition cur prev sample next = .ok e) :
    Evaluates sha256 definition sample (some cur) (some prev) e := by
  unfold evaluateNewer at h
  cases hsg : detectResetSignal definition prev sample with
  | some signal =>
    simp only [hsg] at h
    obtain ⟨sequence, hseq, he⟩ := Except.bind_eq_ok.mp h
    cases he
    exact .reset hnw (exactNextSequence_eq hseq) rfl
  | none =>
    simp only [hsg] at h
    cases hch : detectAllowanceChange prev sample with
    | some ch =>
      simp only [hch] at h
      obtain ⟨sequence, hseq, he⟩ := Except.bind_eq_ok.mp h
      cases he
      exact .allowanceChanged hnw (exactNextSequence_eq hseq) hsg rfl
    | none =>
      simp only [hch] at h
      cases h
      exact .advanced hnw hsg

theorem evaluateSample_ok {cur : Option QuotaEpochState} {prev : Option QuotaSample}
    (h : evaluateSample sha256 definition cur prev sample next = .ok e) :
    Evaluates sha256 definition sample cur prev e := by
  unfold evaluateSample at h
  cases cur with
  | none =>
    split_ifs at h with hkey hprev
    cases h
    obtain rfl : prev = none := by simpa using hprev
    exact .started
  | some cur =>
    cases prev with
    | none =>
      simp only at h
      split_ifs at h
    | some prev =>
      simp only at h
      split_ifs at h with hkey hw hrev hprev hmatch hsm hdup hstl
      · cases h
        exact .duplicate
      · cases h
        exact .stale
      · simp only [not_or, ne_eq, Decidable.not_not] at hmatch
        exact evaluateNewer_ok ⟨by omega, hmatch.1, hmatch.2.1, hsm, by omega⟩ h

/-! ### One evaluation -/

def QuotaEvaluation.state? : QuotaEvaluation → Option QuotaEpochState
  | .started state | .advanced state | .allowanceChanged state _ | .reset state _ => some state
  | .duplicate | .stale => none

def QuotaEvaluation.transition? : QuotaEvaluation → Option QuotaTransition
  | .allowanceChanged _ transition | .reset _ transition => some transition
  | .started _ | .advanced _ | .duplicate | .stale => none

/-- Where the epoch of a state came from: the observation that started it. -/
structure QuotaEpochState.StartedBy (s : QuotaEpochState) (definition : QuotaWindowDefinition)
    (sample : QuotaSample) : Prop where
  key : s.toParts.key = sample.key
  revision : s.toParts.epochDefinitionRevision = definition.revision
  observation : s.toParts.firstObservationId = sample.observationId

/-- What an evaluation of `sample` gives: a coherent state of an old or a new epoch, and a coherent
transition. -/
structure QuotaEvaluation.Restorable (sha256 : Bytes → Bytes32) (e : QuotaEvaluation) : Prop where
  state : ∀ s ∈ e.state?, s.toParts.Coherent sha256
  transition : ∀ t ∈ e.transition?, t.toParts.Coherent sha256

/-- The state of an evaluation continues the current epoch or is started by the sample. -/
def QuotaEvaluation.Origin (e : QuotaEvaluation) (current : Option QuotaEpochState)
    (definition : QuotaWindowDefinition) (sample : QuotaSample) : Prop :=
  ∀ s ∈ e.state?, s.StartedBy definition sample ∨
    ∃ c ∈ current, s.toParts.key = c.toParts.key ∧
      s.toParts.epochDefinitionRevision = c.toParts.epochDefinitionRevision ∧
      s.toParts.firstObservationId = c.toParts.firstObservationId

/-- **One evaluation**: from a coherent state whose epoch identity differs from the one the sample
would start, everything produced is coherent. -/
theorem evaluateSample_restorable {cur : Option QuotaEpochState} {prev : Option QuotaSample}
    (hcur : ∀ c ∈ cur, c.toParts.Coherent sha256) (hep : ∀ c ∈ cur, c.toParts.epochId ≠
      quotaEpochId sha256 sample.key definition.revision sample.observationId)
    (h : evaluateSample sha256 definition cur prev sample next = .ok e) :
    e.Restorable sha256 ∧ e.Origin cur definition sample := by
  cases evaluateSample_ok h with
  | started =>
    refine ⟨⟨?_, ?_⟩, ?_⟩
    · rintro s ⟨⟩
      exact startEpochWithSequence_coherent ..
    · rintro t ⟨⟩
    · rintro s ⟨⟩
      exact .inl ⟨rfl, rfl, rfl⟩
  | duplicate | stale =>
    refine ⟨⟨?_, ?_⟩, ?_⟩
    · rintro s ⟨⟩
    · rintro t ⟨⟩
    · rintro s ⟨⟩
  | @reset c st p signal sequence hnw hseq hsta =>
    subst hsta
    refine ⟨⟨?_, ?_⟩, ?_⟩
    · rintro s ⟨⟩
      exact startEpochWithSequence_coherent ..
    · rintro t ⟨⟩
      exact makeTransition_coherent (hcur c rfl) (by omega)
        (.inr ⟨resetKind_ne_allowanceChanged signal p sample, hep c rfl⟩) hnw.other.symm
        (resetDetectionTime_isValid hnw.later)
    · rintro s ⟨⟩
      exact .inl ⟨rfl, rfl, rfl⟩
  | @allowanceChanged c st p ch sequence hnw hseq _ hsta =>
    have hadva := advanceEpoch_coherent (hcur c rfl) hnw.revision_le
      (hnw.last_time.trans_le hnw.later.le)
    subst hsta
    refine ⟨⟨?_, ?_⟩, ?_⟩
    · rintro s ⟨⟩
      exact coherent_withSequence hadva sequence
    · rintro t ⟨⟩
      exact makeTransition_coherent (hcur c rfl) (by omega) (.inl ⟨rfl, rfl, rfl⟩)
        hnw.other.symm (interval_isValid hnw.later)
    · rintro s ⟨⟩
      exact .inr ⟨c, rfl, rfl, rfl, rfl⟩
  | @advanced c p hnw _ =>
    refine ⟨⟨?_, ?_⟩, ?_⟩
    · rintro s ⟨⟩
      exact advanceEpoch_coherent (hcur c rfl) hnw.revision_le
        (hnw.last_time.trans_le hnw.later.le)
    · rintro t ⟨⟩
    · rintro s ⟨⟩
      exact .inr ⟨c, rfl, rfl, rfl, rfl⟩

/-! ### Runs -/

/-- One call of the detector: a definition, a sample and the sequence number offered for a
transition. -/
structure Observation where
  definition : QuotaWindowDefinition
  sample : QuotaSample
  nextTransitionSequence : ℕ

/-- The state and the sample of the last accepted step. -/
abbrev DetectorState := Option (QuotaEpochState × QuotaSample)

def observe (sha256 : Bytes → Bytes32) (st : DetectorState) (o : Observation) :
    Except QuotaErrorCode QuotaEvaluation :=
  evaluateSample sha256 o.definition (st.map Prod.fst) (st.map Prod.snd) o.sample
    o.nextTransitionSequence

/-- An evaluation with a state is accepted; a duplicate, a stale sample or an error is not. -/
def DetectorState.accept (st : DetectorState) (o : Observation)
    (result : Except QuotaErrorCode QuotaEvaluation) : DetectorState :=
  match result with
  | .ok e => (e.state?.map fun s => (s, o.sample)).or st
  | .error _ => st

/-- The results of a run, in order. -/
def runDetector (sha256 : Bytes → Bytes32) :
    DetectorState → List Observation → List (Except QuotaErrorCode QuotaEvaluation)
  | _, [] => []
  | st, o :: os =>
    let result := observe sha256 st o
    result :: runDetector sha256 (st.accept o result) os

/-- The byte string hashed for an epoch that the observation would start. -/
def Observation.epochIdInput (sha256 : Bytes → Bytes32) (o : Observation) : Bytes :=
  quotaEpochIdInput sha256 o.sample.key o.definition.revision o.sample.observationId

/-- The digest separates the epoch strings of the run's observations. -/
def EpochIdsSeparate (sha256 : Bytes → Bytes32) (os : List Observation) : Prop :=
  Set.InjOn sha256 { b | ∃ o ∈ os, b = o.epochIdInput sha256 }

/-- The run invariant: the current state is coherent and was started by an observation already
seen. -/
def RunInv (sha256 : Bytes → Bytes32) (seen : List Observation) (st : DetectorState) : Prop :=
  ∀ p ∈ st, p.1.toParts.Coherent sha256 ∧
    ∃ o ∈ seen, p.1.StartedBy o.definition o.sample

variable {os : List Observation}

/-- An epoch started by an earlier observation does not collide with one that a later observation
would start. -/
theorem epochId_ne_of_startedBy (hsep : EpochIdsSeparate sha256 os) {o o' : Observation}
    (ho : o ∈ os) (ho' : o' ∈ os) (hs : s.toParts.Coherent sha256)
    (hst : s.StartedBy o.definition o.sample)
    (hne : o.sample.observationId ≠ o'.sample.observationId) :
    s.toParts.epochId ≠
      quotaEpochId sha256 o'.sample.key o'.definition.revision o'.sample.observationId := by
  rw [hs.epochId_eq, hst.key, hst.revision, hst.observation]
  intro heq
  exact hne (quotaEpochIdInput_observation (hsep ⟨o, ho, rfl⟩ ⟨o', ho', rfl⟩ heq))

theorem observe_restorable {seen rest : List Observation} {o : Observation} {st : DetectorState}
    (hsep : EpochIdsSeparate sha256 (seen ++ o :: rest))
    (hnew : ∀ o' ∈ seen, o'.sample.observationId ≠ o.sample.observationId)
    (hinv : RunInv sha256 seen st) :
    (∀ e, observe sha256 st o = .ok e → e.Restorable sha256) ∧
      RunInv sha256 (seen ++ [o]) (st.accept o (observe sha256 st o)) := by
  have hcur : ∀ c ∈ st.map Prod.fst, c.toParts.Coherent sha256 := by
    intro c hc
    obtain ⟨p, hp, rfl⟩ := Option.mem_map.mp hc
    exact (hinv p hp).1
  have hep : ∀ c ∈ st.map Prod.fst, c.toParts.epochId ≠
      quotaEpochId sha256 o.sample.key o.definition.revision o.sample.observationId := by
    intro c hc
    obtain ⟨p, hp, rfl⟩ := Option.mem_map.mp hc
    obtain ⟨hcoh, o', ho', hst⟩ := hinv p hp
    exact epochId_ne_of_startedBy hsep (mem_append_left _ ho') (by simp) hcoh hst
      (hnew o' ho')
  have hold : RunInv sha256 (seen ++ [o]) st := fun p hp =>
    ⟨(hinv p hp).1, (hinv p hp).2.imp fun o' h => ⟨mem_append_left _ h.1, h.2⟩⟩
  refine ⟨fun e he => (evaluateSample_restorable hcur hep he).1, ?_⟩
  cases he : observe sha256 st o with
  | error code => exact hold
  | ok e =>
    obtain ⟨hrs, horigin⟩ := evaluateSample_restorable hcur hep he
    cases hs : e.state? with
    | none => simpa [DetectorState.accept, hs] using hold
    | some s =>
      intro p hp
      simp only [DetectorState.accept, hs, Option.map_some, Option.some_or, Option.mem_def,
        Option.some.injEq] at hp
      subst hp
      refine ⟨hrs.state s hs, ?_⟩
      obtain hst | ⟨c, hc, hkey, hrev, hf⟩ := horigin s hs
      · exact ⟨o, by simp, hst⟩
      · obtain ⟨p, hp, rfl⟩ := Option.mem_map.mp hc
        obtain ⟨-, o', ho', hst⟩ := hinv p hp
        exact ⟨o', mem_append_left _ ho', hkey.trans hst.key, hrev.trans hst.revision,
          hf.trans hst.observation⟩

theorem runDetector_restorable (os : List Observation) :
    ∀ {seen : List Observation} {st : DetectorState}, EpochIdsSeparate sha256 (seen ++ os) →
      ((seen ++ os).map (·.sample.observationId)).Nodup → RunInv sha256 seen st →
      ∀ e, .ok e ∈ runDetector sha256 st os → e.Restorable sha256 := by
  induction os with
  | nil => intro seen st _ _ _ e he; cases he
  | cons o os ih =>
    intro seen st hsep hnd hinv e he
    have hnew : ∀ o' ∈ seen, o'.sample.observationId ≠ o.sample.observationId := by
      intro o' ho'
      rw [map_append, nodup_append] at hnd
      exact hnd.2.2 _ (mem_map_of_mem ho') _ (by simp)
    obtain ⟨hst, hnx⟩ := observe_restorable hsep hnew hinv
    have happend : seen ++ o :: os = (seen ++ [o]) ++ os := by simp
    rw [happend] at hsep hnd
    rcases mem_cons.mp he with he | he
    · exact hst e he.symm
    · exact ih hsep hnd hnx e he

/-- **Detector runs are restorable.**  In every run over observations with pairwise distinct ids
whose epoch identities do not collide, every epoch state and every transition that a step produces
is accepted by `restore` of its own parts, which gives the value back. -/
theorem detector_run_restores (os : List Observation)
    (hsep : EpochIdsSeparate sha256 os) (hnodup : (os.map (·.sample.observationId)).Nodup)
    (e : QuotaEvaluation) (he : .ok e ∈ runDetector sha256 none os) :
    (∀ s ∈ e.state?, QuotaEpochState.restore sha256 s.toParts = .ok s) ∧
      (∀ t ∈ e.transition?, QuotaTransition.restore sha256 t.toParts = .ok t) := by
  have hinit : RunInv sha256 [] none := fun p hp => by cases hp
  have hrs := @runDetector_restorable sha256 os [] none hsep hnodup hinit e he
  exact ⟨fun s hs => QuotaEpochState.restore_toParts (hrs.state s hs),
    fun t ht => QuotaTransition.restore_toParts (hrs.transition t ht)⟩

section Witness

theorem lastBytes_epochIdInput (o : Observation) :
    lastBytes (o.epochIdInput lastBytes) = o.sample.observationId := by
  have : o.epochIdInput lastBytes = encodeFields [epochDomain,
      (quotaScopeId lastBytes o.sample.key.scope).asBytes, o.sample.key.windowId.bytes,
      beBytes 8 o.definition.revision] ++ beBytes 8 32 ++ o.sample.observationId.asBytes := by
    simp [Observation.epochIdInput, quotaEpochIdInput, encodeField]
  rw [this, lastBytes_append]

theorem epochIdsSeparate_lastBytes (hnd : (os.map (·.sample.observationId)).Nodup) :
    EpochIdsSeparate lastBytes os := by
  rintro _ ⟨o, ho, rfl⟩ _ ⟨o', ho', rfl⟩ h
  rw [lastBytes_epochIdInput, lastBytes_epochIdInput] at h
  rw [inj_on_of_nodup_map hnd ho ho' h]

def exampleKey : QuotaWindowKey :=
  ⟨⟨letterId _ maxProviderIdBytes_pos, letterId _ maxQuotaIdBytes_pos, none⟩,
    letterId _ maxQuotaIdBytes_pos⟩

def exampleDefinition : QuotaWindowDefinition where
  key := exampleKey
  revision := 1
  labelKey := letterId _ (by decide)
  presentation := .used
  semantics := .fixed
  nominalDurationSeconds := none
  resetThresholds := none
  revision_pos := Nat.one_pos
  duration_pos := by decide
  thresholds_fixed := by simp

/-- A sample with a used ratio. -/
def exampleSample (id : UInt8) (observedAtMs : ℤ) (hpos : 0 < observedAtMs)
    (evidence : QuotaResetEvidence) : QuotaSample where
  key := exampleKey
  observationId := Bytes32.replicate id
  observedAtMs := observedAtMs
  freshUntilMs := observedAtMs
  staleAfterMs := observedAtMs
  providerEpochId := none
  usedRatio := some ⟨500000, by decide⟩
  remainingRatio := none
  units := none
  advertisedResetsAtMs := none
  quality := .authoritative
  source := .providerOfficial
  confidence := .high
  resetEvidence := evidence
  resetOccurredAtMs := none
  valid :=
    { observed_pos := hpos
      observed_le_fresh := le_rfl
      fresh_le_stale := le_rfl
      advertised_pos := by simp
      observable := by simp
      occurred_evidence := by simp
      occurred_range := by simp }

/-- A first sample, then a manual reset. -/
theorem ten_pos : (0 : ℤ) < 10 := by decide

theorem twenty_pos : (0 : ℤ) < 20 := by decide

def exampleRun : List Observation :=
  [⟨exampleDefinition, exampleSample 1 10 ten_pos .none, 1⟩,
    ⟨exampleDefinition, exampleSample 2 20 twenty_pos .manualOrBanked, 1⟩]

theorem detector_run_restores_example :
    EpochIdsSeparate lastBytes exampleRun ∧
    (exampleRun.map (·.sample.observationId)).Nodup ∧
    ∃ e, .ok e ∈ runDetector lastBytes none exampleRun ∧ e.transition?.isSome ∧
      (∀ s ∈ e.state?, QuotaEpochState.restore lastBytes s.toParts = .ok s) ∧
      (∀ t ∈ e.transition?, QuotaTransition.restore lastBytes t.toParts = .ok t) := by
  have hnd : (exampleRun.map (·.sample.observationId)).Nodup := by decide
  have hsep := epochIdsSeparate_lastBytes hnd
  have hrun : ∃ e, .ok e ∈ runDetector lastBytes none exampleRun ∧ e.transition?.isSome :=
    ⟨_, mem_cons_of_mem _ mem_cons_self, rfl⟩
  obtain ⟨e, he, ht⟩ := hrun
  exact ⟨hsep, hnd, e, he, ht, detector_run_restores exampleRun hsep hnd e he⟩

end Witness

end TokenMaster.Quota
