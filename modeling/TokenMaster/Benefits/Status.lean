import TokenMaster.Benefits.Counters
import TokenMaster.Benefits.History

/-!
# TokenMaster.Benefits.Status — reading the state row

`load_benefit_status` of `crates/store/src/usage/query/status.rs`.  It refuses a state row that counts
more than 64 current lots.  64 is the limit of one observation, so of one scope, while the row counts
the lots of all scopes; the tables and the overview query hold more.  `statusFits` is the exact condition on
an observation for the row to stay readable.
-/

namespace TokenMaster.Benefits

open Domain Store TokenMaster.Except List

variable {sha : Bytes → Bytes32} {db next : BenefitStore} {sid : BenefitScopeId}
  {steps : List LotStep}

/-! ### The reader -/

structure ProductBenefitStatus where
  revision : ℕ
  currentLotCount : ℕ
  retainedChangeCount : ℕ
  pendingDueCount : ℕ
  retainedDeliveryCount : ℕ
  lastPublishedAtMs : Option ℤ

def positiveTime : Option ℤ → Except StoreError (Option ℤ)
  | none => .ok none
  | some value => if 0 < value then .ok (some value) else .error (.new .invalidStoredValue)

def validatePublicationTime (revision : ℕ) (publishedAtMs : Option ℤ) : Except StoreError Unit :=
  ensure .invalidStoredValue ((revision == 0) == publishedAtMs.isNone)

/-- `load_benefit_status`.  The counters are natural numbers, so that `nonnegative` accepts them. -/
def loadBenefitStatus (db : BenefitStore) : Except StoreError ProductBenefitStatus := do
  let lastPublishedAtMs ← positiveTime db.state.lastPublishedAtMs
  let status : ProductBenefitStatus := ⟨db.state.revision, db.state.currentLotCount,
    db.state.retainedChangeCount, db.state.pendingDueCount, db.state.retainedDeliveryCount,
    lastPublishedAtMs⟩
  ensure .invalidStoredValue (decide (status.currentLotCount ≤ 64))
  validatePublicationTime status.revision status.lastPublishedAtMs
  return status

/-- The publication time of the state row is set once something was published. -/
structure PublicationTimed (db : BenefitStore) : Prop where
  published : db.state.revision = 0 ↔ db.state.lastPublishedAtMs = none
  positive : ∀ time, db.state.lastPublishedAtMs = some time → 0 < time

theorem PublicationTimed.positiveTime (h : PublicationTimed db) :
    positiveTime db.state.lastPublishedAtMs = .ok db.state.lastPublishedAtMs := by
  cases htime : db.state.lastPublishedAtMs with
  | none => rfl
  | some time => exact if_pos (h.positive time htime)

theorem PublicationTimed.validatePublicationTime (h : PublicationTimed db) :
    validatePublicationTime db.state.revision db.state.lastPublishedAtMs = .ok () := by
  rw [Benefits.validatePublicationTime, ensure_eq_ok, beq_iff_eq, Bool.eq_iff_iff, beq_iff_eq,
    Option.isNone_iff_eq_none]
  exact h.published

/-- Only the number of lots decides whether the row can be read. -/
theorem PublicationTimed.readable_iff (h : PublicationTimed db) :
    (∃ status, loadBenefitStatus db = .ok status) ↔ db.state.currentLotCount ≤ 64 := by
  unfold loadBenefitStatus
  rw [h.positiveTime]
  constructor
  · rintro ⟨status, hsta⟩
    obtain ⟨_, _, hsta⟩ := bind_eq_ok.mp hsta
    obtain ⟨_, hct, _⟩ := bind_eq_ok.mp hsta
    rw [ensure_eq_ok, decide_eq_true_iff] at hct
    exact hct
  · intro hct
    refine ⟨_, bind_eq_ok.mpr ⟨_, rfl, bind_eq_ok.mpr ⟨(), ?_, bind_eq_ok.mpr
      ⟨(), h.validatePublicationTime, rfl⟩⟩⟩⟩
    rw [ensure_eq_ok, decide_eq_true_iff]
    exact hct

/-! ### Lots that come and go -/

theorem length_filterMap_add_countP {α β : Type} (f : α → Option β) (l : List α) :
    (l.filterMap f).length + l.countP (fun a => (f a).isNone) = l.length := by
  rw [length_filterMap_eq_countP, length_eq_countP_add_countP fun a => (f a).isSome]
  congr 1
  refine countP_congr fun a _ => ?_
  simp

/-- The prior lots are those of the steps. -/
theorem StepsOf.perm_previous {prior : List BenefitCurrentLot} (hsteps : StepsOf prior steps)
    (hkd : Keyed (fun lot => lot.lot.lotId) prior) :
    prior.Perm (steps.filterMap LotStep.previous) := by
  have hsteps' : Keyed (fun lot : BenefitCurrentLot => lot.lot.lotId)
      (steps.filterMap LotStep.previous) :=
    hsteps.keyed.filterMap fun step lot h => LotStep.previous_lotId h
  refine (perm_ext_iff_of_nodup (List.Nodup.of_map _ hkd) (List.Nodup.of_map _ hsteps')).mpr ?_
  intro lot
  rw [mem_filterMap]
  constructor
  · exact hsteps.covers lot
  · rintro ⟨step, hst, hprev⟩
    exact hsteps.previous_mem step hst lot hprev

/-- Awards and retirements are the difference between the two inventories. -/
theorem Reconciled.length_lots {cur : BenefitInventoryState}
    {observation : BenefitInventoryObservation} {recn : BenefitReconciliation}
    (hrec : Reconciled sha cur observation steps recn)
    (hkd : Keyed (fun lot => lot.lot.lotId) cur.lots) :
    recn.state.lots.length + steps.countP (fun step => step.next.isNone) =
      cur.lots.length + steps.countP (fun step => step.previous.isNone) := by
  rw [hrec.lots.length_eq, (hrec.stepsOf.perm_previous hkd).length_eq,
    length_filterMap_add_countP, length_filterMap_add_countP]

theorem countP_awards (prior : List BenefitCurrentLot) (observation : BenefitInventoryObservation) :
    (plannedSteps prior observation).countP (fun step => step.previous.isNone) =
      observation.lots.countP fun lot =>
        (prior.find? fun prev => prev.lot.lotId == lot.lotId).isNone := by
  rw [plannedSteps, countP_append, countP_map, countP_map,
    (perm_sortObserved observation.lots).countP_eq]
  have hdepart : (List.filter (fun prev => !observation.mentions prev.lot.lotId) prior).countP
      ((fun step => step.previous.isNone) ∘ departStep (observation.completeness != .partial_)) = 0 := by
    simp
  rw [hdepart, Nat.add_zero]
  refine countP_congr fun lot _ => ?_
  rw [Function.comp_apply, observeStep_previous]

theorem countP_retirements (prior : List BenefitCurrentLot)
    (observation : BenefitInventoryObservation) :
    (plannedSteps prior observation).countP (fun step => step.next.isNone) =
      prior.countP fun lot => !observation.mentions lot.lot.lotId &&
        (observation.completeness != .partial_ && isTerminal lot.lot.state) := by
  rw [plannedSteps, countP_append, countP_map, countP_map]
  have hobse : (sortObserved observation.lots).countP
      ((fun step => step.next.isNone) ∘ observeStep prior) = 0 := by
    rw [countP_eq_zero]
    intro lot _
    obtain ⟨cur, hnx, _⟩ := observeStep_next prior lot
    simp [hnx]
  rw [hobse, Nat.zero_add, countP_filter]
  refine countP_congr fun lot _ => ?_
  rw [Function.comp_apply, departStep_retires, Bool.and_comm]

/-! ### Capacity of the reader -/

/-- The observed lots that the scope has never had. -/
def newLots (sha256 : Bytes → Bytes32) (db : BenefitStore)
    (observation : BenefitInventoryObservation) : ℕ :=
  observation.lots.countP fun lot =>
    !(db.current.any fun row => row.ref.lot == ⟨benefitScopeId sha256 observation.scope, lot.lotId⟩) &&
      (retiredLot? db ⟨benefitScopeId sha256 observation.scope, lot.lotId⟩).isNone

/-- The terminal lots of the scope that an observation, unless it is partial, leaves out. -/
def retiringLots (sha256 : Bytes → Bytes32) (db : BenefitStore)
    (observation : BenefitInventoryObservation) : ℕ :=
  (loadCurrentLots db (benefitScopeId sha256 observation.scope)).countP fun lot =>
    !observation.mentions lot.lot.lotId &&
      (observation.completeness != .partial_ && isTerminal lot.lot.state)

/-- The scope has a later observation. -/
def isOutdated (sha256 : Bytes → Bytes32) (db : BenefitStore)
    (observation : BenefitInventoryObservation) : Bool :=
  db.scopes.any fun row => row.scopeId == benefitScopeId sha256 observation.scope &&
    row.observation.any fun seen => decide (observation.observedAtMs < seen.observedAtMs)

/-- The lots of all scopes together, after this observation, are at most 64. -/
def lotsFit (sha256 : Bytes → Bytes32) (db : BenefitStore)
    (observation : BenefitInventoryObservation) : Bool :=
  decide (db.state.currentLotCount + newLots sha256 db observation ≤
    64 + retiringLots sha256 db observation)

/-- An observation in this call is outdated or leaves at most 64 lots in all scopes together. -/
def statusFits (sha256 : Bytes → Bytes32) (db : BenefitStore) : BenefitCall → Bool
  | .observe observation => isOutdated sha256 db observation || lotsFit sha256 db observation
  | _ => true

section Loaded

variable {scope : BenefitScope} {cur : BenefitInventoryState}
  {observation : BenefitInventoryObservation}

/-- The lots that are new to the loaded inventory are those that the store has never had. -/
theorem new_iff {seen : List BenefitLotObservation} (hc : Constraints db)
    (hload : loadInventoryState sha db scope sid seen = .ok cur)
    {lot : BenefitLotObservation} (hlot : lot ∈ seen) :
    (cur.lots.find? fun prev => prev.lot.lotId == lot.lotId) = none ↔
      (db.current.any fun row => row.ref.lot == ⟨sid, lot.lotId⟩) = false ∧
        retiredLot? db ⟨sid, lot.lotId⟩ = none := by
  rw [List.find?_eq_none]
  constructor
  · intro hno
    constructor
    · rw [any_eq_false]
      intro row hrow hsm
      rw [beq_iff_eq] at hsm
      obtain ⟨loaded, hld, href⟩ := row_loaded hc hrow (congrArg LotRef.scopeId hsm)
      have hid : loaded.lot.lotId = lot.lotId := by
        have hlotR : (currentRow sid loaded).ref.lot = ⟨sid, lot.lotId⟩ := by
          rw [href, hsm]
        exact congrArg LotRef.lotId hlotR
      exact hno loaded (loaded_prior hload hld) (by simpa using hid)
    · cases hret : retiredLot? db ⟨sid, lot.lotId⟩ with
      | none => rfl
      | some retired =>
        refine absurd ?_ (hno retired ((prior_iff hload).mpr (.inr ⟨lot, hlot, hret⟩)))
        rw [beq_iff_eq]
        exact retiredLot?_lotId hret
  · rintro ⟨hcur, hret⟩ prev hprev hid
    rw [beq_iff_eq] at hid
    rcases prior_cases hload hprev with hld | ⟨_, _, _, hfd⟩
    · obtain ⟨row, hrow, rev, _, rfl, rfl, href⟩ := loaded_row hld
      refine any_eq_false.mp hcur row hrow ?_
      rw [beq_iff_eq, href, ← hid]
      rfl
    · rw [hid, hret] at hfd
      cases hfd

/-- A retired lot is loaded because it is observed, so it does not retire again. -/
theorem countP_retiring
    (hld : loadInventoryState sha db scope sid observation.lots = .ok cur) :
    (cur.lots.countP fun lot => !observation.mentions lot.lot.lotId &&
        (observation.completeness != .partial_ && isTerminal lot.lot.state)) =
      (loadCurrentLots db sid).countP fun lot => !observation.mentions lot.lot.lotId &&
        (observation.completeness != .partial_ && isTerminal lot.lot.state) := by
  obtain ⟨_, hp, _⟩ := loadInventoryState_lots hld
  rw [hp.countP_eq, hydrateRetiredObservedLots, countP_append, Nat.add_eq_left, countP_eq_zero]
  intro lot hlot
  obtain ⟨seen, hsn, hfd⟩ := mem_filterMap.mp hlot
  rw [rehydrated?_eq] at hfd
  rw [observation.mentions_iff.mpr ⟨seen, hsn, (retiredLot?_lotId hfd).symm⟩]
  simp

/-- The loaded time is the one that decides whether an observation is outdated. -/
theorem isOutdated_eq {ensured : BenefitStore} (hc : Constraints ensured)
    (hens : ensureScope db observation.scope (benefitScopeId sha observation.scope) = .ok ensured)
    (hld : loadInventoryState sha ensured scope (benefitScopeId sha observation.scope)
      observation.lots = .ok cur) :
    isOutdated sha db observation = cur.lastObservedAtMs.any (observation.observedAtMs < ·) := by
  obtain ⟨row, hrow, hscI, _, _, _, _, _, _, _, hobsA⟩ := loadInventoryState_ok hld
  rw [hobsA, Option.any_map, isOutdated, Bool.eq_iff_iff, any_eq_true]
  rcases ensureScope_ok hens with ⟨rfl, _⟩ | ⟨hno, rfl⟩
  · constructor
    · rintro ⟨other, hoth, hlat⟩
      rw [Bool.and_eq_true, beq_iff_eq] at hlat
      rw [← hc.scopes.eq_of_key hoth hrow (hlat.1.trans hscI.symm)]
      exact hlat.2
    · intro hlat
      exact ⟨row, hrow, by simpa [hscI] using hlat⟩
  · -- the scope is new: its row has no observation, and no other row is of this scope
    have hnew : row = freshScopeRow (benefitScopeId sha observation.scope) observation.scope :=
      hc.scopes.eq_of_key hrow (mem_append_right _ (mem_singleton_self _)) hscI
    rw [hnew]
    constructor
    · rintro ⟨other, hoth, hlat⟩
      rw [Bool.and_eq_true] at hlat
      exact absurd hlat.1 (any_eq_false.mp hno other hoth)
    · intro hlat
      cases hlat

end Loaded

variable {observation : BenefitInventoryObservation} {result : BenefitApplyResult}

/-- **One observation.**  It keeps the state row as it was, or it moves the number of lots by the new
and the retiring ones. -/
theorem applyBenefitObservation_count (hc : Constraints db)
    (hok : applyBenefitObservation sha db observation = .ok (next, result)) :
    (next.state = db.state ∧ (isOutdated sha db observation = true ∨
      newLots sha db observation = 0 ∧ retiringLots sha db observation = 0)) ∨
    (isOutdated sha db observation = false ∧
      next.state.revision ≠ 0 ∧ next.state.lastPublishedAtMs = some observation.observedAtMs ∧
      next.state.currentLotCount + retiringLots sha db observation =
        db.state.currentLotCount + newLots sha db observation) := by
  obtain ⟨ensured, cur, recn, hens, hld, hrec, _, hwr⟩ :=
    applyBenefitObservation_ok hok
  have hc' := hc.ensureScope hens
  have houtd := isOutdated_eq hc' hens hld
  obtain ⟨hkd, _⟩ := loadInventoryState_lots hld
  obtain ⟨hnew, hretiring, hsta⟩ : newLots sha ensured observation = newLots sha db observation ∧
      retiringLots sha ensured observation = retiringLots sha db observation ∧
      ensured.state = db.state := by
    rw [ensureScope_frame hens]
    exact ⟨rfl, rfl, rfl⟩
  have hawards : (plannedSteps cur.lots observation).countP (fun step => step.previous.isNone) =
      newLots sha db observation := by
    rw [countP_awards, ← hnew, newLots]
    refine countP_congr fun lot hlot => ?_
    rw [Option.isNone_iff_eq_none, new_iff hc' hld hlot, Bool.and_eq_true, Bool.not_eq_true',
      Option.isNone_iff_eq_none]
  have hreti : (plannedSteps cur.lots observation).countP (fun step => step.next.isNone) =
      retiringLots sha db observation := by
    rw [countP_retirements, ← hretiring, retiringLots, countP_retiring hld]
  rcases hwr with ⟨hnoop, rfl⟩ | ⟨hwrt, hpub⟩
  · refine .inl ⟨hsta, ?_⟩
    rcases reconcileInventory_ok hkd hrec with ⟨⟨_, hpd⟩ | ⟨_, hlat⟩, _⟩ | ⟨hpub, _⟩
    · -- without changes every step keeps its lot
      right
      rw [← hawards, ← hreti, countP_eq_zero, countP_eq_zero]
      rw [filterMap_eq_nil_iff] at hpd
      constructor
      · intro step hst hprev
        obtain ⟨kept, rfl⟩ := LotStep.pending_none (hpd step hst)
        cases hprev
      · intro step hst hnx
        obtain ⟨kept, rfl⟩ := LotStep.pending_none (hpd step hst)
        cases hnx
    · exact .inl (houtd.trans hlat)
    · rcases hpub with h | h <;> rw [h] at hnoop <;> rcases hnoop with h | h <;> cases h
  · right
    have hcur : cur.lastObservedAtMs.any (observation.observedAtMs < ·) = false := by
      rw [← Bool.not_eq_true]
      intro hlat
      rw [reconcileInventory_stale hrec hlat] at hwrt
      rcases hwrt with h | h <;> cases h
    refine ⟨houtd.trans hcur, ?_⟩
    rcases reconcileInventory_ok hkd hrec with ⟨hnoth, _⟩ | ⟨_, hreco⟩
    · rcases hnoth with ⟨h, _⟩ | ⟨h, _⟩ <;> rw [h] at hwrt <;>
        rcases hwrt with h | h <;> cases h
    · have hle := hpub.lots_le
      have hlength := hreco.length_lots hkd
      rw [hpub.state, ← hsta]
      refine ⟨Nat.succ_ne_zero _, rfl, ?_⟩
      simp only
      omega

/-- What holds in every readable store that observations have led to. -/
structure StatusReadable (db : BenefitStore) : Prop where
  constraints : Constraints db
  timed : PublicationTimed db
  fits : db.state.currentLotCount ≤ 64

theorem statusReadable_empty : StatusReadable .empty :=
  ⟨constraints_empty, ⟨by decide, fun time h => nomatch h⟩, Nat.zero_le _⟩

theorem PublicationTimed.applyBenefitObservation (h : PublicationTimed db) (hc : Constraints db)
    (hok : applyBenefitObservation sha db observation = .ok (next, result)) :
    PublicationTimed next := by
  rcases applyBenefitObservation_count hc hok with ⟨hsm, _⟩ | ⟨_, hrev, htime, _⟩
  · constructor
    · rw [hsm]
      exact h.published
    · rw [hsm]
      exact h.positive
  · constructor
    · rw [htime]
      exact ⟨fun hz => absurd hz hrev, fun hno => nomatch hno⟩
    · intro time hso
      rw [htime] at hso
      cases hso
      exact observation.observed_pos

/-- An observation leaves a readable row if and only if it fits. -/
theorem StatusReadable.fits_iff (h : StatusReadable db)
    (hok : applyBenefitObservation sha db observation = .ok (next, result)) :
    next.state.currentLotCount ≤ 64 ↔ statusFits sha db (.observe observation) = true := by
  have hfit := h.fits
  rw [statusFits, lotsFit, Bool.or_eq_true, decide_eq_true_iff]
  rcases applyBenefitObservation_count h.constraints hok with
    ⟨hsm, houtd | ⟨hnew, hreti⟩⟩ | ⟨houtd, _, _, hct⟩
  · rw [hsm]
    exact ⟨fun _ => .inl houtd, fun _ => hfit⟩
  · rw [hsm, hnew, hreti]
    exact ⟨fun hle => .inr hle, fun _ => hfit⟩
  · rw [houtd]
    constructor
    · omega
    · rintro (hfalse | hle)
      · cases hfalse
      · omega

theorem StatusReadable.step (h : StatusReadable db) {observation : BenefitInventoryObservation}
    (hcond : statusFits sha db (.observe observation) = true) :
    StatusReadable (stepBenefit sha db (.observe observation)).1 := by
  unfold stepBenefit
  cases hcl : callBenefit sha db (.observe observation) with
  | error error => exact h
  | ok step =>
    have hcons := h.constraints.call hcl
    obtain ⟨⟨next, result⟩, hok, rfl⟩ := map_eq_ok.mp hcl
    exact ⟨hcons, h.timed.applyBenefitObservation h.constraints hok, (h.fits_iff hok).mpr hcond⟩

theorem statusReadable_run (hdb : StatusReadable db)
    {observations : List BenefitInventoryObservation}
    (hcond : eachCall sha (statusFits sha) db (observations.map .observe) = true) :
    StatusReadable (runBenefit sha db (observations.map .observe)).1 := by
  induction observations generalizing db with
  | nil => exact hdb
  | cons observation observations ih =>
    rw [map_cons, eachCall, Bool.and_eq_true] at hcond
    exact ih (hdb.step hcond.1) hcond.2

/-- **The status can be read** after every run of observations that fit, and the first applied
observation that does not fit makes it unreadable. -/
theorem benefit_status_readable (sha256 : Bytes → Bytes32)
    (observations : List BenefitInventoryObservation)
    (hcond : eachCall sha256 (statusFits sha256) .empty (observations.map .observe) = true) :
    (∃ status,
      loadBenefitStatus (runBenefit sha256 .empty (observations.map .observe)).1 = .ok status) ∧
    ∀ observation next result, applyBenefitObservation sha256
        (runBenefit sha256 .empty (observations.map .observe)).1 observation = .ok (next, result) →
      ((∃ status, loadBenefitStatus next = .ok status) ↔
        statusFits sha256 (runBenefit sha256 .empty (observations.map .observe)).1
          (.observe observation) = true) := by
  have hread := statusReadable_run statusReadable_empty hcond
  refine ⟨hread.timed.readable_iff.mpr hread.fits, ?_⟩
  intro observation next result hok
  have htimed := hread.timed.applyBenefitObservation hread.constraints hok
  rw [htimed.readable_iff]
  exact hread.fits_iff hok

/-- Lots without known expiry, with the ids from `first` on. -/
def manyLots (first count : ℕ) : List BenefitLotObservation :=
  (List.range' first count).map fun i =>
    { exampleLot .available with lotId := Bytes32.replicate (UInt8.ofNat i), expiry := .unknown }

/-- One account with 33 lots. -/
def firstObservation : BenefitInventoryObservation :=
  { exampleObservation 1 0 none with
    lots := manyLots 1 33
    lots_length_le := by decide
    lots_nodup := by decide +kernel }

/-- Another account with 32 lots. -/
def secondObservation : BenefitInventoryObservation :=
  { exampleObservation 2 1 none with
    scope := { exampleScope with accountId := otherUnitId }
    lots := manyLots 34 32
    lots_length_le := by decide
    lots_nodup := by decide +kernel }

theorem benefit_status_readable_one_account :
    eachCall lastBytes (statusFits lastBytes) .empty ([firstObservation].map .observe) = true ∧
      ∃ status, loadBenefitStatus
        (runBenefit lastBytes .empty ([firstObservation].map .observe)).1 = .ok status :=
  ⟨by decide +kernel, (benefit_status_readable lastBytes [firstObservation] (by decide +kernel)).1⟩

/-- Both accounts: the row counts 65 lots and cannot be read any more. -/
theorem benefit_status_two_accounts :
    loadBenefitStatus
      (runBenefit lastBytes .empty ([firstObservation, secondObservation].map .observe)).1 =
        .error (.new .invalidStoredValue) := by
  decide +kernel

end TokenMaster.Benefits
