import Mathlib.Data.List.Forall2
import TokenMaster.Lib.Bytes

/-!
# TokenMaster.Accounting.Replay — which events of a session repeat its parent

`ReplayClassifier` of `crates/accounting/src/replay.rs`.  The events of a session are classified in
order; the state that one classification returns is the prior state of the next.
-/

namespace TokenMaster.Accounting

def maxReplayDepth : ℕ := 32
def maxReplayFanout : ℕ := 256

inductive ReplayEvidence where
  | strongCumulative
  | weakUsageOnly
  deriving DecidableEq

inductive ReplayDisposition where
  | eligible
  | replay
  | pending
  | conflict
  deriving DecidableEq

inductive SessionReplayState where
  | root
  | matching
  | diverged
  | pending
  | conflict
  deriving DecidableEq

structure ReplayEventFacts where
  providerId : Bytes
  profileId : Bytes
  sessionId : Bytes
  parentSessionId : Option Bytes
  sessionOrdinal : ℕ
  replaySignature : Bytes32
  evidence : ReplayEvidence
  declaredConflict : Bool

inductive ParentOrdinal where
  | notApplicable
  | present (parent : ReplayEventFacts)
  | missingOpen
  | missingComplete

structure ReplayTraversalFacts where
  depth : ℕ
  directChildren : ℕ
  cycle : Bool
  relationConflict : Bool

def ReplayTraversalFacts.exceedsBound (traversal : ReplayTraversalFacts) : Bool :=
  traversal.depth > maxReplayDepth || traversal.directChildren > maxReplayFanout

structure ReplayClassificationInput where
  priorState : SessionReplayState
  child : ReplayEventFacts
  parent : ParentOrdinal
  traversal : ReplayTraversalFacts

@[ext] structure ReplayClassification where
  disposition : ReplayDisposition
  nextState : SessionReplayState

/-- The states of a session with a parent that has no conflict. -/
def SessionReplayState.hasParent : SessionReplayState → Bool
  | .matching | .diverged | .pending => true
  | .root | .conflict => false

def structurallyValid (input : ReplayClassificationInput) : Bool :=
  match input.child.parentSessionId, input.parent with
  | none, .notApplicable => input.priorState == .root && input.traversal.depth == 0
  | some parentSessionId, .present parent =>
    input.priorState.hasParent && !parent.declaredConflict &&
      parent.providerId == input.child.providerId && parent.profileId == input.child.profileId &&
      parent.sessionId == parentSessionId && parent.sessionOrdinal == input.child.sessionOrdinal
  | some _, .missingOpen | some _, .missingComplete => input.priorState.hasParent
  | _, _ => false

def classifyMatching (input : ReplayClassificationInput) : ReplayClassification :=
  match input.parent with
  | .present parent =>
    if input.child.evidence ≠ .strongCumulative ∨ parent.evidence ≠ .strongCumulative then
      ⟨.pending, .matching⟩
    else if input.child.replaySignature = parent.replaySignature then ⟨.replay, .matching⟩
    else ⟨.eligible, .diverged⟩
  | .missingOpen => ⟨.pending, .pending⟩
  | .missingComplete => ⟨.eligible, .diverged⟩
  | .notApplicable => ⟨.conflict, .conflict⟩

def classify (input : ReplayClassificationInput) : ReplayClassification :=
  if input.priorState = .conflict ∨ input.child.declaredConflict ∨ input.traversal.cycle ∨
      input.traversal.relationConflict ∨ ¬ structurallyValid input then ⟨.conflict, .conflict⟩
  else if input.traversal.exceedsBound then ⟨.pending, .pending⟩
  else
    match input.priorState with
    | .root => ⟨.eligible, .root⟩
    | .matching => classifyMatching input
    | .diverged => ⟨.eligible, .diverged⟩
    | .pending => ⟨.pending, .pending⟩
    | .conflict => ⟨.conflict, .conflict⟩

/-! ### One event -/

/-- What an event has in common with the parent event that it repeats. -/
structure Repeats (child parent : ReplayEventFacts) : Prop where
  childStrong : child.evidence = .strongCumulative
  parentStrong : parent.evidence = .strongCumulative
  signature : child.replaySignature = parent.replaySignature
  provider : child.providerId = parent.providerId
  profile : child.profileId = parent.profileId
  ordinal : child.sessionOrdinal = parent.sessionOrdinal
  session : child.parentSessionId = some parent.sessionId

/-- Everything a classification can be. -/
theorem classify_cases (input : ReplayClassificationInput) :
    classify input = ⟨.conflict, .conflict⟩ ∨ classify input = ⟨.pending, .pending⟩ ∨
      (input.priorState = .root ∧ classify input = ⟨.eligible, .root⟩) ∨
      (input.priorState = .diverged ∧ classify input = ⟨.eligible, .diverged⟩) ∨
      (input.priorState = .matching ∧ structurallyValid input ∧
        classify input = classifyMatching input) := by
  unfold classify
  split_ifs with hcf hbd
  · exact .inl rfl
  · exact .inr (.inl rfl)
  · have hv : structurallyValid input := by
      simp only [not_or, not_not] at hcf
      exact hcf.2.2.2.2
    cases hpr : input.priorState with
    | root => exact .inr (.inr (.inl ⟨rfl, rfl⟩))
    | matching => exact .inr (.inr (.inr (.inr ⟨rfl, hv, rfl⟩)))
    | diverged => exact .inr (.inr (.inr (.inl ⟨rfl, rfl⟩)))
    | pending => exact .inr (.inl rfl)
    | conflict => exact .inl rfl

/-- Outside of `Matching` nothing is a replay, and no event leads back there. -/
theorem classify_of_not_matching {input : ReplayClassificationInput}
    (h : input.priorState ≠ .matching) :
    (classify input).nextState ≠ .matching ∧ (classify input).disposition ≠ .replay := by
  rcases classify_cases input with hc | hc | ⟨_, hc⟩ | ⟨_, hc⟩ | ⟨hpr, _⟩
  · rw [hc]
    decide
  · rw [hc]
    decide
  · rw [hc]
    decide
  · rw [hc]
    decide
  · exact absurd hpr h

theorem repeats_of_replay {input : ReplayClassificationInput}
    (h : (classify input).disposition = .replay) :
    ∃ parent, input.parent = .present parent ∧ Repeats input.child parent := by
  rcases classify_cases input with hc | hc | ⟨_, hc⟩ | ⟨_, hc⟩ | ⟨_, hv, hc⟩
  · rw [hc] at h
    cases h
  · rw [hc] at h
    cases h
  · rw [hc] at h
    cases h
  · rw [hc] at h
    cases h
  rw [hc] at h
  unfold classifyMatching at h
  unfold structurallyValid at hv
  cases hpar : input.parent with
  | notApplicable | missingOpen | missingComplete =>
    rw [hpar] at h
    cases h
  | present parent =>
    rw [hpar] at h hv
    dsimp only at h
    split_ifs at h with hweak hsign
    obtain ⟨hchild, hstrong⟩ := not_or.mp hweak
    cases hdecl : input.child.parentSessionId with
    | none =>
      rw [hdecl] at hv
      cases hv
    | some parentSessionId =>
      rw [hdecl] at hv
      simp only [Bool.and_eq_true, beq_iff_eq] at hv
      obtain ⟨⟨⟨⟨_, hprov⟩, hprf⟩, hses⟩, hord⟩ := hv
      refine ⟨parent, rfl, not_not.mp hchild, not_not.mp hstrong, hsign, hprov.symm,
        hprf.symm, hord.symm, ?_⟩
      rw [hdecl, hses]

/-! ### The events of a session -/

/-- One event with what is known of the parent at its ordinal and of the relations. -/
structure ReplayStep where
  child : ReplayEventFacts
  parent : ParentOrdinal
  traversal : ReplayTraversalFacts

def ReplayStep.input (step : ReplayStep) (state : SessionReplayState) : ReplayClassificationInput :=
  ⟨state, step.child, step.parent, step.traversal⟩

/-- The classifications of some events, each with the state the previous one returned. -/
def classifyAll (state : SessionReplayState) : List ReplayStep → List ReplayClassification
  | [] => []
  | step :: steps =>
    let result := classify (step.input state)
    result :: classifyAll result.nextState steps

section Run

variable {I : SessionReplayState → Prop} {P : ReplayClassification → Prop}

variable (hstep : ∀ input, I input.priorState → I (classify input).nextState ∧ P (classify input))

include hstep

/-- What every event keeps from a set of states on. -/
theorem classifyAll_keeps {st : SessionReplayState} (hsta : I st) (steps : List ReplayStep) :
    ∀ result ∈ classifyAll st steps, P result := by
  induction steps generalizing st with
  | nil => simp [classifyAll]
  | cons step steps ih =>
    obtain ⟨hnx, hres⟩ := hstep (step.input st) hsta
    intro result hmem
    rcases List.mem_cons.mp hmem with rfl | hmem
    · exact hres
    · exact ih hnx result hmem

/-- Once an event leads into such a set, the later ones have the property. -/
theorem classifyAll_pairwise (st : SessionReplayState) (steps : List ReplayStep) :
    (classifyAll st steps).Pairwise fun earlier later => I earlier.nextState → P later := by
  induction steps generalizing st with
  | nil => exact .nil
  | cons step steps ih =>
    refine List.pairwise_cons.mpr ⟨fun later hlat hearl => ?_, ih _⟩
    exact classifyAll_keeps hstep hearl steps later hlat

end Run

theorem classifyAll_repeats (st : SessionReplayState) (steps : List ReplayStep) :
    List.Forall₂ (fun step res => res.disposition = .replay →
      ∃ parent, step.parent = .present parent ∧ Repeats step.child parent)
      steps (classifyAll st steps) := by
  induction steps generalizing st with
  | nil => exact .nil
  | cons step steps ih => exact .cons repeats_of_replay (ih _)

/-- A conflict stays, nothing is a replay after a divergence, and a replay has strong evidence for
the same event in the declared parent session. -/
theorem classifier_run_laws (state : SessionReplayState) (steps : List ReplayStep) :
    (classifyAll state steps).Pairwise (fun earlier later =>
        earlier.nextState = .conflict → later = ⟨.conflict, .conflict⟩) ∧
      (classifyAll state steps).Pairwise (fun earlier later =>
        earlier = ⟨.eligible, .diverged⟩ → later.disposition ≠ .replay) ∧
      List.Forall₂ (fun step result => result.disposition = .replay →
        ∃ parent, step.parent = .present parent ∧ Repeats step.child parent)
        steps (classifyAll state steps) := by
  refine ⟨?_, ?_, classifyAll_repeats state steps⟩
  · refine classifyAll_pairwise (I := (· = .conflict)) (P := (· = ⟨.conflict, .conflict⟩))
      (fun input hcf => ?_) state steps
    have hres : classify input = ⟨.conflict, .conflict⟩ := if_pos (.inl hcf)
    exact ⟨congrArg ReplayClassification.nextState hres, hres⟩
  · have hlat := classifyAll_pairwise (I := (· ≠ .matching)) (P := (·.disposition ≠ .replay))
      (fun _ hsta => classify_of_not_matching hsta) state steps
    refine hlat.imp fun {earlier later} hnever hdive => ?_
    refine hnever ?_
    rw [hdive]
    decide

end TokenMaster.Accounting
