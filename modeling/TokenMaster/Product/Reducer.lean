import Mathlib.Logic.Function.Basic
import Mathlib.Order.Basic
import Mathlib.Algebra.Order.Ring.Nat

/-!
# TokenMaster.Product.Reducer — the product snapshot

`ProductReducer` holds one snapshot made of sections; every publish or fail call replaces the snapshot
or leaves it.  `section_methods!` and `runtime_methods!` treat their sections alike, so the sections are
a family over their names here.  A new data status clears the sections of another dataset or revision.
-/

namespace TokenMaster.Product

abbrev NonZeroU64 : Type := { n : ℕ // 0 < n ∧ n < 2 ^ 64 }

/-- `ProductSection`, and `ProductRuntimeSection`, which names its fields differently. -/
structure ProductSection (E T : Type) where
  attemptGeneration : Option NonZeroU64
  payload : Option T
  failure : Option E

namespace ProductSection

variable {E T : Type}

def waiting : ProductSection E T := ⟨none, none, none⟩

def ready (generation : NonZeroU64) (payload : T) : ProductSection E T :=
  ⟨some generation, some payload, none⟩

def unavailable (generation : NonZeroU64) (code : E) : ProductSection E T :=
  ⟨some generation, none, some code⟩

def unavailableRetaining (generation : NonZeroU64) (code : E) (current : ProductSection E T) :
    ProductSection E T :=
  ⟨some generation, current.payload, some code⟩

end ProductSection

inductive SectionName where
  | dataStatus
  | lifetime
  | analytics
  | history
  | quota
  | benefit
  | git
  | activity
  | sessions
  | sessionDetail
  | usageRuntime
  | quotaRuntime
  | reminderRuntime
  | gitRuntime
  deriving DecidableEq

inductive DatasetIdentity where
  | empty
  | legacySnapshotV1
  | replayRevision (revision datasetGeneration : ℕ)
  deriving DecidableEq

/-- What the reducer reads of `ProductDataStatusEnvelope`. -/
structure DataStatus where
  datasetIdentity : DatasetIdentity
  quotaRevision : ℕ
  benefitRevision : ℕ
  gitRevision : ℕ

structure ProductSessionDetailSelection where
  generation : NonZeroU64
  rowOrdinal : Fin 256

/-- The types that the reducer does not look into. -/
structure Contents where
  rest : SectionName → Type
  queryErrorCode : Type
  staleSnapshot : queryErrorCode
  observationError : Type

variable {C : Contents} {status : DataStatus}

/-- What the reducer reads of the payload of a section. -/
abbrev Header : SectionName → Type
  | .dataStatus => DataStatus
  | .quota | .benefit | .git => ℕ
  | .analytics | .history | .activity | .sessions | .sessionDetail => DatasetIdentity
  | _ => Unit

abbrev Payload (C : Contents) (name : SectionName) : Type := Header name × C.rest name

abbrev Failure (C : Contents) : SectionName → Type
  | .usageRuntime | .quotaRuntime | .reminderRuntime | .gitRuntime => C.observationError
  | _ => C.queryErrorCode

abbrev Section (C : Contents) (name : SectionName) : Type :=
  ProductSection (Failure C name) (Payload C name)

structure ProductSnapshot (C : Contents) where
  generation : ℕ
  sections : (name : SectionName) → Section C name
  sessionDetailSelection : Option ProductSessionDetailSelection

namespace ProductSnapshot

def initial : ProductSnapshot C := ⟨0, fun _ => .waiting, none⟩

def dataStatus (s : ProductSnapshot C) : Option DataStatus :=
  (s.sections .dataStatus).payload.map Prod.fst

def replaceSection (s : ProductSnapshot C) (name : SectionName) (next : Section C name) :
    ProductSnapshot C :=
  { s with sections := Function.update s.sections name next }

end ProductSnapshot

inductive ProductPublishOutcome where
  | accepted
  | coalesced
  | rejectedOlder
  | rejectedIncompatible
  deriving DecidableEq

inductive ProductReducerError where
  | generationOverflow

def classify (current : Option NonZeroU64) (candidate : NonZeroU64) : ProductPublishOutcome :=
  match current with
  | some current =>
    if candidate < current then .rejectedOlder
    else if candidate = current then .coalesced
    else .accepted
  | none => .accepted

def classifySessionDetail (s : ProductSnapshot C) (attempt : NonZeroU64)
    (selection : ProductSessionDetailSelection) : ProductPublishOutcome :=
  match s.sessionDetailSelection with
  | some current =>
    if selection.generation < current.generation then .rejectedOlder
    else if selection.generation = current.generation then
      if selection.rowOrdinal ≠ current.rowOrdinal then .rejectedIncompatible
      else classify (s.sections .sessionDetail).attemptGeneration attempt
    else .accepted
  | none => .accepted

/-- `usage_compatible`, `quota_compatible`, `benefit_overview_compatible` and `git_compatible` with a
status that is there; the other sections are bound to none. -/
def DataStatus.compatible (status : DataStatus) : (name : SectionName) → Header name → Bool
  | .quota, revision => revision == status.quotaRevision
  | .benefit, revision => revision == status.benefitRevision
  | .git, revision => revision == status.gitRevision
  | .analytics, identity | .history, identity | .activity, identity | .sessions, identity
  | .sessionDetail, identity => identity == status.datasetIdentity
  | _, _ => true

/-- A section that is invalidated keeps its own attempt number. -/
def invalidateIf {E T : Type} (stale : E) (held : ProductSection E T) (statusAttempt : NonZeroU64)
    (incompatible : T → Bool) : ProductSection E T :=
  if held.payload.any incompatible then
    .unavailable (held.attemptGeneration.getD statusAttempt) stale
  else held

/-- The failure of a section that is invalidated; the others are bound to no status. -/
def stale (C : Contents) : (name : SectionName) → Option (Failure C name)
  | .analytics | .history | .activity | .sessions | .sessionDetail | .quota | .benefit | .git =>
    some C.staleSnapshot
  | _ => none

def invalidateIncompatibleSections (s : ProductSnapshot C) (statusAttempt : NonZeroU64) :
    ProductSnapshot C :=
  match s.dataStatus with
  | none => s
  | some status =>
    { s with
      sections := fun name => (stale C name).elim (s.sections name) fun code =>
        invalidateIf code (s.sections name) statusAttempt fun value =>
          !status.compatible name value.1 }

/-- The detail of a session is published for a selection. -/
abbrev Selection : SectionName → Type
  | .sessionDetail => ProductSessionDetailSelection
  | _ => Unit

/-- The calls: `publish_analytics` is `publish .analytics`, `fail_git_runtime_observation` is
`fail .gitRuntime`, and so on. -/
inductive ProductCall (C : Contents) where
  | publish (name : SectionName) (selection : Selection name) (attempt : NonZeroU64)
    (value : Payload C name)
  | fail (name : SectionName) (selection : Selection name) (attempt : NonZeroU64)
    (code : Failure C name)

namespace ProductCall

def target : ProductCall C → SectionName
  | publish name .. | fail name .. => name

def classified (s : ProductSnapshot C) (attempt : NonZeroU64) :
    (name : SectionName) → Selection name → ProductPublishOutcome
  | .sessionDetail, selection => classifySessionDetail s attempt selection
  | name, _ => classify (s.sections name).attemptGeneration attempt

/-- What the checks at the start of a call decide. -/
def outcome (s : ProductSnapshot C) : ProductCall C → ProductPublishOutcome
  | publish name selection attempt value =>
    if classified s attempt name selection ≠ .accepted then classified s attempt name selection
    else if s.dataStatus.all fun status => status.compatible name value.1 then .accepted
    else .rejectedIncompatible
  | fail name selection attempt _ => classified s attempt name selection

/-- The own section of an accepted call; a failed detail retains nothing. -/
def replacement (s : ProductSnapshot C) : (call : ProductCall C) → Section C call.target
  | publish _ _ attempt value => .ready attempt value
  | fail .sessionDetail _ attempt code => .unavailable attempt code
  | fail name _ attempt code => .unavailableRetaining attempt code (s.sections name)

/-- What an accepted call does after its own section: a detail belongs to its selection, and to the page
on which it was selected. -/
def follow (s : ProductSnapshot C) : ProductCall C → ProductSnapshot C
  | publish .dataStatus _ attempt _ => invalidateIncompatibleSections s attempt
  | publish .sessions .. | fail .sessions .. =>
    { s.replaceSection .sessionDetail .waiting with sessionDetailSelection := none }
  | publish .sessionDetail selection .. | fail .sessionDetail selection .. =>
    { s with sessionDetailSelection := some selection }
  | _ => s

/-- The snapshot that an accepted call builds, up to its generation. -/
def replace (s : ProductSnapshot C) (call : ProductCall C) : ProductSnapshot C :=
  call.follow (s.replaceSection call.target (call.replacement s))

end ProductCall

def checkedNext (generation : ℕ) : Except ProductReducerError ℕ :=
  if generation + 1 < 2 ^ 64 then .ok (generation + 1) else .error .generationOverflow

namespace ProductSnapshot

def call (s : ProductSnapshot C) (call : ProductCall C) :
    Except ProductReducerError (ProductSnapshot C × ProductPublishOutcome) :=
  if call.outcome s = .accepted then
    (checkedNext s.generation).map fun generation => ({ call.replace s with generation }, .accepted)
  else .ok (s, call.outcome s)

/-- The snapshot after a call; an error leaves it. -/
def after (s : ProductSnapshot C) (call : ProductCall C) : ProductSnapshot C :=
  match s.call call with
  | .ok (next, _) => next
  | .error _ => s

def run (s : ProductSnapshot C) (calls : List (ProductCall C)) : ProductSnapshot C :=
  calls.foldl after s

/-- Every payload belongs to the dataset and the revisions of the status. -/
def Matching (s : ProductSnapshot C) : Prop :=
  ∀ status ∈ s.dataStatus, ∀ name, ∀ value ∈ (s.sections name).payload,
    status.compatible name value.1 = true

end ProductSnapshot

/-! ### Sections that belong together -/

variable {s : ProductSnapshot C} {name : SectionName} {call : ProductCall C}

/-- The section holds a payload of another dataset or revision. -/
def Incompatible (status : DataStatus) (held : Section C name) : Prop :=
  ∃ value ∈ held.payload, status.compatible name value.1 = false

/-- A new status leaves a section that matches, or clears one that does not under its old attempt
number. -/
def KeptOrCleared (status : DataStatus) (statusAttempt : NonZeroU64) (held next : Section C name) :
    Prop :=
  (next = held ∧ ∀ value ∈ next.payload, status.compatible name value.1 = true) ∨
    (Incompatible status held ∧ next.payload = none ∧
      next.attemptGeneration = some (held.attemptGeneration.getD statusAttempt))

theorem invalidate_cases (hsta : s.dataStatus = some status) (statusAttempt : NonZeroU64)
    (name : SectionName) :
    KeptOrCleared status statusAttempt (s.sections name)
      ((invalidateIncompatibleSections s statusAttempt).sections name) := by
  simp only [invalidateIncompatibleSections, hsta]
  cases hstl : stale C name with
  | none =>
    refine .inl ⟨rfl, fun _ _ => ?_⟩
    cases name <;> first | rfl | cases hstl
  | some code =>
    simp only [Option.elim_some, invalidateIf]
    split_ifs with hany
    · obtain ⟨value, hval, hnot⟩ := (Option.any_eq_true _ _).mp hany
      exact .inr ⟨⟨value, hval, by simpa using hnot⟩, rfl, rfl⟩
    · refine .inl ⟨rfl, fun value hval => ?_⟩
      rw [Option.mem_def.mp hval] at hany
      simpa using hany

theorem dataStatus_invalidate (hsta : s.dataStatus = some status) (statusAttempt : NonZeroU64) :
    (invalidateIncompatibleSections s statusAttempt).dataStatus = some status := by
  unfold invalidateIncompatibleSections
  rw [hsta]
  exact hsta

theorem matching_invalidate (s : ProductSnapshot C) (statusAttempt : NonZeroU64) :
    (invalidateIncompatibleSections s statusAttempt).Matching := by
  cases hsta : s.dataStatus with
  | none => simp [ProductSnapshot.Matching, invalidateIncompatibleSections, hsta]
  | some status =>
    intro other hoth name value hval
    obtain rfl := Option.some.inj ((dataStatus_invalidate hsta statusAttempt).symm.trans hoth)
    rcases invalidate_cases hsta statusAttempt name with ⟨_, hall⟩ | ⟨_, hno, _⟩
    · exact hall value hval
    · rw [hno] at hval
      cases hval

/-- A section takes a payload that matches; the status keeps its own. -/
theorem ProductSnapshot.Matching.replaceSection (h : s.Matching) {next : Section C name}
    (hsta : name = .dataStatus → next.payload = (s.sections name).payload)
    (hnx : ∀ status ∈ s.dataStatus, ∀ value ∈ next.payload,
      status.compatible name value.1 = true) : (s.replaceSection name next).Matching := by
  have hsm : (s.replaceSection name next).dataStatus = s.dataStatus := by
    simp only [ProductSnapshot.dataStatus, ProductSnapshot.replaceSection]
    by_cases hnm : .dataStatus = name
    · subst hnm
      rw [Function.update_self, hsta rfl]
    · rw [Function.update_of_ne hnm]
  intro status hmem other value hval
  rw [hsm] at hmem
  simp only [ProductSnapshot.replaceSection] at hval
  by_cases hoth : other = name
  · subst hoth
    rw [Function.update_self] at hval
    exact hnx status hmem value hval
  · rw [Function.update_of_ne hoth] at hval
    exact h status hmem other value hval

theorem ProductSnapshot.Matching.follow (h : s.Matching) (call : ProductCall C) :
    (call.follow s).Matching := by
  unfold ProductCall.follow
  split
  · exact matching_invalidate s _
  · exact h.replaceSection (by simp) (by simp [ProductSection.waiting])
  · exact h.replaceSection (by simp) (by simp [ProductSection.waiting])
  · exact h
  · exact h
  · exact h

theorem outcome_publish {sel : Selection name} {attempt : NonZeroU64} {value : Payload C name}
    (hok : (ProductCall.publish name sel attempt value).outcome s = .accepted) :
    ProductCall.classified s attempt name sel = .accepted ∧
      ∀ status ∈ s.dataStatus, status.compatible name value.1 = true := by
  simp only [ProductCall.outcome] at hok
  split_ifs at hok with hclass hall
  · exact absurd hok hclass
  · rw [Option.all_eq_true] at hall
    exact ⟨not_not.mp hclass, hall⟩

theorem ProductSnapshot.Matching.replace (h : s.Matching) (hok : call.outcome s = .accepted) :
    (call.replace s).Matching := by
  cases call with
  | publish name sel attempt value =>
    by_cases hnm : name = .dataStatus
    · subst hnm
      exact matching_invalidate (s.replaceSection .dataStatus (.ready attempt value)) attempt
    · refine (h.replaceSection (fun heq => absurd heq hnm) ?_).follow _
      rintro status hsta v ⟨rfl⟩
      exact (outcome_publish hok).2 status hsta
  | fail name sel attempt code =>
    refine (h.replaceSection ?_ ?_).follow _
    · rintro rfl
      rfl
    · intro status hsta
      cases name with
      | sessionDetail => simp [ProductCall.replacement, ProductSection.unavailable]
      | _ => exact h status hsta _

/-! ### What a call changes -/

/-- A call is accepted and counted, or the snapshot stays as it is. -/
theorem call_cases (s : ProductSnapshot C) (call : ProductCall C) :
    (s.call call = .ok (s.after call, .accepted) ∧ call.outcome s = .accepted ∧
        s.after call = { call.replace s with generation := s.generation + 1 }) ∨
      (s.after call = s ∧ ∀ next, s.call call ≠ .ok (next, .accepted)) := by
  unfold ProductSnapshot.after ProductSnapshot.call
  by_cases hok : call.outcome s = .accepted
  · rw [if_pos hok, checkedNext]
    split_ifs
    · exact .inl ⟨rfl, hok, rfl⟩
    · exact .inr ⟨rfl, fun _ h => by cases h⟩
  · rw [if_neg hok]
    exact .inr ⟨rfl, fun _ h => hok (Prod.ext_iff.mp (Except.ok.inj h)).2⟩

theorem ProductSnapshot.Matching.after (h : s.Matching) (call : ProductCall C) :
    (s.after call).Matching := by
  rcases call_cases s call with ⟨_, hok, hnx⟩ | ⟨hsm, _⟩
  · rw [hnx]
    exact h.replace hok
  · rw [hsm]
    exact h

end TokenMaster.Product
