import Mathlib.Data.List.Chain
import TokenMaster.Quota.DetectorRun

/-!
# TokenMaster.Quota.DetectorChain — the history of a window is a gapless chain

The accepted steps of a run, in order, with the transition that each of them reports.  One inversion
of `evaluateSample` says how an accepted step continues the one before it (`Follows`); numbers, links
and times of a whole run come from it by induction over the observations.

A sample that is not newer than the last accepted one is never accepted, so such samples can be
inserted anywhere in a run (`Padded`).
-/

namespace TokenMaster.Quota

open Domain List

variable {sha256 : Bytes → Bytes32}

/-! ### Accepted steps -/

/-- A step that moved the window: its state, the sample it accepted and the transition it reported. -/
structure AcceptedStep where
  state : QuotaEpochState
  sample : QuotaSample
  transition : Option QuotaTransition

def acceptedStep (o : Observation) : Except QuotaErrorCode QuotaEvaluation → Option AcceptedStep
  | .ok e => e.state?.map fun state => ⟨state, o.sample, e.transition?⟩
  | .error _ => none

/-- The accepted steps of a run, in order. -/
def history (sha256 : Bytes → Bytes32) : DetectorState → List Observation → List AcceptedStep
  | _, [] => []
  | st, o :: os =>
    let result := observe sha256 st o
    (acceptedStep o result).toList ++ history sha256 (st.accept o result) os

/-- The state after a run. -/
def stateAfter (sha256 : Bytes → Bytes32) (st : DetectorState) (os : List Observation) :
    DetectorState :=
  os.foldl (fun st o => st.accept o (observe sha256 st o)) st

/-- The transitions that a run reports, in order. -/
def reportedTransitions (sha256 : Bytes → Bytes32) (st : DetectorState) (os : List Observation) :
    List QuotaTransition :=
  (runDetector sha256 st os).filterMap fun
    | .ok e => e.transition?
    | .error _ => none

/-- The number of the last transition; a window that has not started has none. -/
def DetectorState.lastSequence (st : DetectorState) : ℕ :=
  (st.map fun p => p.1.toParts.lastTransitionSequence).getD 0

/-! ### How a step continues the one before -/

/-- The reported time lies after `lower` and not after `upper`. -/
def QuotaDetectionTime.Within (lower upper : ℤ) : QuotaDetectionTime → Prop
  | .exact atMs => lower < atMs ∧ atMs ≤ upper
  | .interval afterMs atOrBeforeMs =>
    lower ≤ afterMs ∧ afterMs < atOrBeforeMs ∧ atOrBeforeMs ≤ upper

/-- A transition between the accepted `previous`, seen in the state `current`, and the step `after`. -/
structure AcceptedStep.LinkedBy (after : AcceptedStep) (current : QuotaEpochState)
    (previous : QuotaSample) (t : QuotaTransition) : Prop where
  sequence : t.toParts.sequence = current.toParts.lastTransitionSequence + 1
  numbered : after.state.toParts.lastTransitionSequence = t.toParts.sequence
  previousEpoch : t.toParts.previousEpochId = current.toParts.epochId
  currentEpoch : t.toParts.currentEpochId = after.state.toParts.epochId
  before_sample : t.toParts.preObservationId = previous.observationId
  after_sample : t.toParts.postObservationId = after.sample.observationId
  detected : t.toParts.detectionTime.Within previous.observedAtMs after.sample.observedAtMs
  /-- A reset starts its epoch at the accepted sample. -/
  resets : t.toParts.kind ≠ .allowanceChanged →
    after.state.toParts.firstObservationId = after.sample.observationId ∧
      after.state.toParts.firstObservedAtMs = after.sample.observedAtMs
  /-- A changed allowance stays in its epoch. -/
  stays : t.toParts.kind = .allowanceChanged →
    after.state.toParts.epochId = current.toParts.epochId ∧
      after.state.toParts.firstObservationId = current.toParts.firstObservationId

/-- An accepted step after the accepted `previous`, whose state was `current`. -/
structure AcceptedStep.Follows (after : AcceptedStep) (current : QuotaEpochState)
    (previous : QuotaSample) : Prop where
  later : previous.observedAtMs < after.sample.observedAtMs
  /-- `previous` is the last sample of the epoch of `current`. -/
  last_of_epoch : current.toParts.lastObservationId = previous.observationId ∧
    current.toParts.lastObservedAtMs = previous.observedAtMs
  quiet : after.transition = none →
    after.state.toParts.epochId = current.toParts.epochId ∧
      after.state.toParts.firstObservationId = current.toParts.firstObservationId ∧
      after.state.toParts.lastTransitionSequence = current.toParts.lastTransitionSequence
  linked : ∀ t ∈ after.transition, after.LinkedBy current previous t

/-- The first accepted step of a window. -/
structure AcceptedStep.Begins (first : AcceptedStep) : Prop where
  transition : first.transition = none
  sequence : first.state.toParts.lastTransitionSequence = 0
  sample : first.state.toParts.firstObservationId = first.sample.observationId

def AcceptedStep.Extends (step : AcceptedStep) : DetectorState → Prop
  | none => step.Begins
  | some (current, previous) => step.Follows current previous

/-! ### One step -/

theorem resetDetectionTime_within {prev sample : QuotaSample}
    (htime : prev.observedAtMs < sample.observedAtMs) :
    (resetDetectionTime prev sample).Within prev.observedAtMs sample.observedAtMs := by
  unfold resetDetectionTime
  cases hoccu : occurredAfter prev sample with
  | none => exact ⟨le_rfl, htime, le_rfl⟩
  | some t =>
    obtain ⟨hmem, haft⟩ := Option.filter_eq_some_iff.mp hoccu
    exact ⟨by simpa using haft, (sample.valid.occurred_range t hmem).2⟩

variable {st : DetectorState} {o : Observation} {step : AcceptedStep}

/-- **What an accepted step can be**: the first of its window, or one that follows the last accepted
sample. -/
theorem observe_extends (h : acceptedStep o (observe sha256 st o) = some step) :
    step.sample = o.sample ∧ step.Extends st := by
  cases he : observe sha256 st o with
  | error code =>
    rw [he] at h
    cases h
  | ok e =>
    rw [he] at h
    obtain ⟨state, hs, rfl⟩ := Option.map_eq_some_iff.mp h
    refine ⟨rfl, ?_⟩
    cases st with
    | none =>
      cases evaluateSample_ok he with
      | started =>
        cases hs
        exact ⟨rfl, rfl, rfl⟩
    | some p =>
      obtain ⟨cur, prev⟩ := p
      cases evaluateSample_ok he with
      | duplicate | stale => cases hs
      | @reset _ _ _ signal sequence hnw hseq hsta =>
        subst hsta
        cases hs
        refine ⟨hnw.later, ⟨hnw.last_id, hnw.last_time⟩, nofun, ?_⟩
        rintro t ⟨⟩
        exact
          { sequence := hseq
            numbered := rfl
            previousEpoch := rfl
            currentEpoch := rfl
            before_sample := rfl
            after_sample := rfl
            detected := resetDetectionTime_within hnw.later
            resets := fun _ => ⟨rfl, rfl⟩
            stays := fun hkd => absurd hkd (resetKind_ne_allowanceChanged signal prev _) }
      | allowanceChanged hnw hseq _ hsta =>
        subst hsta
        cases hs
        refine ⟨hnw.later, ⟨hnw.last_id, hnw.last_time⟩, nofun, ?_⟩
        rintro t ⟨⟩
        exact
          { sequence := hseq
            numbered := rfl
            previousEpoch := rfl
            currentEpoch := rfl
            before_sample := rfl
            after_sample := rfl
            detected := ⟨le_rfl, hnw.later, le_rfl⟩
            resets := fun hkd => absurd rfl hkd
            stays := fun _ => ⟨rfl, rfl⟩ }
      | advanced hnw =>
        cases hs
        refine ⟨hnw.later, ⟨hnw.last_id, hnw.last_time⟩, fun _ => ⟨rfl, rfl, rfl⟩, ?_⟩
        rintro t ⟨⟩

theorem accept_eq (st : DetectorState) (o : Observation)
    (res : Except QuotaErrorCode QuotaEvaluation) :
    st.accept o res = ((acceptedStep o res).map fun step => (step.state, step.sample)).or st := by
  cases res with
  | error code => rfl
  | ok e => cases hs : e.state? <;> simp [DetectorState.accept, acceptedStep, hs]

/-- The number after an accepted step is one higher when it reports a transition. -/
theorem AcceptedStep.Extends.lastSequence (h : step.Extends st) :
    step.state.toParts.lastTransitionSequence =
        st.lastSequence + step.transition.toList.length ∧
      ∀ t ∈ step.transition, t.toParts.sequence = st.lastSequence + 1 := by
  cases st with
  | none =>
    have hbegins : step.Begins := h
    simp [hbegins.transition, hbegins.sequence, DetectorState.lastSequence]
  | some p =>
    have hfoll : step.Follows p.1 p.2 := h
    cases ht : step.transition with
    | none => simp [(hfoll.quiet ht).2.2, DetectorState.lastSequence]
    | some t =>
      have hlink := hfoll.linked t ht
      refine ⟨?_, ?_⟩
      · rw [hlink.numbered, hlink.sequence]
        rfl
      · rintro t ⟨⟩
        exact hlink.sequence

/-! ### Runs -/

variable {os : List Observation}

theorem history_cons_of_none (h : acceptedStep o (observe sha256 st o) = none) :
    history sha256 st (o :: os) = history sha256 st os := by
  rw [history, accept_eq, h]
  rfl

theorem history_cons_of_some (h : acceptedStep o (observe sha256 st o) = some step) :
    history sha256 st (o :: os) = step :: history sha256 (some (step.state, step.sample)) os := by
  rw [history, accept_eq, h]
  rfl

theorem stateAfter_cons_of_none (h : acceptedStep o (observe sha256 st o) = none) :
    stateAfter sha256 st (o :: os) = stateAfter sha256 st os := by
  rw [stateAfter, foldl_cons, accept_eq, h]
  rfl

theorem stateAfter_cons_of_some (h : acceptedStep o (observe sha256 st o) = some step) :
    stateAfter sha256 st (o :: os) = stateAfter sha256 (some (step.state, step.sample)) os := by
  rw [stateAfter, foldl_cons, accept_eq, h]
  rfl

/-- The reported transitions are those of the accepted steps. -/
theorem reportedTransitions_eq (os : List Observation) :
    ∀ st : DetectorState, reportedTransitions sha256 st os =
      (history sha256 st os).filterMap AcceptedStep.transition := by
  induction os with
  | nil => exact fun st => rfl
  | cons o os ih =>
    intro st
    have hhd : ∀ res : Except QuotaErrorCode QuotaEvaluation,
        List.filterMap (fun r : Except QuotaErrorCode QuotaEvaluation => match r with
            | .ok e => e.transition?
            | .error _ => none) [res] =
          (acceptedStep o res).toList.filterMap AcceptedStep.transition := by
      intro res
      cases res with
      | error code => rfl
      | ok e => cases e <;> rfl
    rw [history, filterMap_append, ← hhd, ← ih, reportedTransitions, runDetector,
      ← singleton_append, filterMap_append]
    rfl

/-- **The accepted steps are a chain** that starts at the state of the run. -/
theorem history_chain (os : List Observation) :
    ∀ st : DetectorState,
      (∀ step ∈ (history sha256 st os).head?, step.Extends st) ∧
        (history sha256 st os).IsChain fun before after =>
          after.Follows before.state before.sample := by
  induction os with
  | nil => exact fun st => ⟨fun step hst => (by cases hst), .nil⟩
  | cons o os ih =>
    intro st
    cases h : acceptedStep o (observe sha256 st o) with
    | none =>
      rw [history_cons_of_none h]
      exact ih st
    | some step =>
      rw [history_cons_of_some h]
      obtain ⟨hhd, hch⟩ := ih (some (step.state, step.sample))
      refine ⟨?_, hch.cons hhd⟩
      rintro a ⟨⟩
      exact (observe_extends h).2

/-- Transitions carry the numbers that follow the one at the start of the run. -/
theorem history_sequences (os : List Observation) :
    ∀ st : DetectorState,
      ((history sha256 st os).filterMap AcceptedStep.transition).map (·.toParts.sequence) =
          List.range' (st.lastSequence + 1)
            ((history sha256 st os).filterMap AcceptedStep.transition).length ∧
        (stateAfter sha256 st os).lastSequence =
          st.lastSequence + ((history sha256 st os).filterMap AcceptedStep.transition).length := by
  induction os with
  | nil => exact fun st => ⟨rfl, rfl⟩
  | cons o os ih =>
    intro st
    cases h : acceptedStep o (observe sha256 st o) with
    | none =>
      rw [history_cons_of_none h, stateAfter_cons_of_none h]
      exact ih st
    | some step =>
      rw [history_cons_of_some h, stateAfter_cons_of_some h]
      obtain ⟨hnumber, hseq⟩ := (observe_extends h).2.lastSequence
      obtain ⟨hseqs, hfi⟩ := ih (some (step.state, step.sample))
      have hnx : DetectorState.lastSequence (some (step.state, step.sample)) =
          step.state.toParts.lastTransitionSequence := rfl
      rw [hnx, hnumber] at hseqs hfi
      cases ht : step.transition with
      | none =>
        rw [filterMap_cons_none ht]
        rw [ht] at hseqs hfi
        exact ⟨hseqs, hfi⟩
      | some t =>
        rw [filterMap_cons_some ht, map_cons, length_cons, range'_succ]
        rw [ht] at hseqs hfi
        refine ⟨?_, ?_⟩
        · rw [hseq t ht, hseqs]
          rfl
        · rw [hfi, Option.toList_some, length_singleton]
          omega

/-- Accepted samples are later and later. -/
theorem history_times (os : List Observation) (st : DetectorState) :
    ((history sha256 st os).map (·.sample.observedAtMs)).Pairwise (· < ·) := by
  rw [← isChain_iff_pairwise]
  exact isChain_map_of_isChain _ (fun before after h => h.later) (history_chain os st).2

/-! ### Inserted samples -/

/-- An observation that repeats the last accepted sample or is older than it. -/
def Redundant (st : DetectorState) (o : Observation) : Prop :=
  ∃ p ∈ st, o.sample = p.2 ∨ o.sample.observedAtMs < p.2.observedAtMs

/-- `padded` is `os` with redundant observations inserted. -/
inductive Padded (sha256 : Bytes → Bytes32) :
    DetectorState → List Observation → List Observation → Prop
  | nil (st : DetectorState) : Padded sha256 st [] []
  | step {st : DetectorState} {os padded : List Observation} (o : Observation) :
      Padded sha256 (st.accept o (observe sha256 st o)) os padded →
        Padded sha256 st (o :: os) (o :: padded)
  | insert {st : DetectorState} {os padded : List Observation} {o : Observation} :
      Redundant st o → Padded sha256 st os padded → Padded sha256 st os (o :: padded)

/-- A redundant observation is a duplicate, stale or an error. -/
theorem acceptedStep_of_redundant {st : DetectorState} {o : Observation} (h : Redundant st o) :
    acceptedStep o (observe sha256 st o) = none := by
  cases hst : acceptedStep o (observe sha256 st o) with
  | none => rfl
  | some step =>
    obtain ⟨p, rfl, hold⟩ := h
    obtain ⟨hs, hexte⟩ := observe_extends hst
    have hlat : p.2.observedAtMs < o.sample.observedAtMs := by
      rw [← hs]
      exact AcceptedStep.Follows.later hexte
    rcases hold with hsm | hlt
    · rw [hsm] at hlat
      exact absurd hlat (lt_irrefl _)
    · omega

theorem padded_run {padded : List Observation} (h : Padded sha256 st os padded) :
    stateAfter sha256 st padded = stateAfter sha256 st os ∧
      history sha256 st padded = history sha256 st os := by
  induction h with
  | nil st => exact ⟨rfl, rfl⟩
  | step o _ ih =>
    refine ⟨ih.1, ?_⟩
    rw [history, history, ih.2]
  | insert hredu _ ih =>
    have hno := @acceptedStep_of_redundant sha256 _ _ hredu
    rw [stateAfter_cons_of_none hno, history_cons_of_none hno]
    exact ih

/-- **The history of a window is a gapless chain.**  For every run: the transitions are numbered
`1, 2, …` and the state carries the number of the last one; the first accepted step begins the window
and every other follows the one before it; accepted times strictly increase; and redundant
observations, inserted anywhere, change neither the state nor the transitions. -/
theorem quota_history_gapless (os : List Observation) :
    ((reportedTransitions sha256 none os).map (·.toParts.sequence) =
        List.range' 1 (reportedTransitions sha256 none os).length ∧
      (stateAfter sha256 none os).lastSequence = (reportedTransitions sha256 none os).length) ∧
    ((∀ step ∈ (history sha256 none os).head?, step.Begins) ∧
      ((history sha256 none os).IsChain fun before after =>
        after.Follows before.state before.sample) ∧
      (history sha256 none os).filterMap AcceptedStep.transition = reportedTransitions sha256 none os) ∧
    ((history sha256 none os).map (·.sample.observedAtMs)).Pairwise (· < ·) ∧
    ∀ padded, Padded sha256 none os padded →
      stateAfter sha256 none padded = stateAfter sha256 none os ∧
        reportedTransitions sha256 none padded = reportedTransitions sha256 none os := by
  have hsequ := @history_sequences sha256 os none
  refine ⟨?_, ⟨(history_chain os none).1, (history_chain os none).2, ?_⟩, history_times os none, ?_⟩
  · rw [reportedTransitions_eq]
    refine ⟨hsequ.1, ?_⟩
    rw [hsequ.2]
    exact Nat.zero_add _
  · exact (reportedTransitions_eq os none).symm
  · intro padded hpadded
    obtain ⟨hsta, hhist⟩ := padded_run hpadded
    refine ⟨hsta, ?_⟩
    rw [reportedTransitions_eq, reportedTransitions_eq, hhist]

/-- A first sample, an exact repetition of it, a manual reset and an older sample. -/
theorem quota_history_gapless_example :
    Padded lastBytes none exampleRun
        [⟨exampleDefinition, exampleSample 1 10 (by decide) .none, 1⟩,
          ⟨exampleDefinition, exampleSample 1 10 (by decide) .none, 1⟩,
          ⟨exampleDefinition, exampleSample 2 20 (by decide) .manualOrBanked, 1⟩,
          ⟨exampleDefinition, exampleSample 3 15 (by decide) .manualOrBanked, 2⟩] ∧
      (reportedTransitions lastBytes none exampleRun).map (·.toParts.sequence) = [1] := by
  refine ⟨?_, (quota_history_gapless exampleRun).1.1.trans rfl⟩
  refine .step _ (.insert ⟨_, rfl, .inl rfl⟩ (.step _ (.insert ⟨_, rfl, .inr ?_⟩ (.nil _))))
  decide

end TokenMaster.Quota
