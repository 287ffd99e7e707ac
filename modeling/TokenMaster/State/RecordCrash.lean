import Mathlib.Data.Nat.Basic
import Mathlib.Order.Basic
import TokenMaster.State.Record

/-!
# TokenMaster.State.RecordCrash — runs of saves with crashes

A run is a list of saves; each one returns a receipt, returns an error, or crashes while its
target slot is being written.  `History` keeps what a caller knows: the last record a receipt was
given for and the records of the saves that crashed since.  Along every run the loaded record is
one of those, and its generation never falls.
-/

namespace TokenMaster.State

variable {T H : Type} [DecidableEq H] {plan : SavePlan} {res : SaveResult T H}
  {mj : T → Except StateErrorCode H}

/-! ### One save -/

variable {s : Slots T H} {sel : SelectedRecord T H}

/-- **The peer of the target holds the loaded record**, and the plan's generation is the next
one. -/
theorem savePlan_spec (hc : s.Consistent) (hl : s.load = .ok (some sel))
    (hp : savePlan s.first s.second = .ok plan) :
    s.get plan.slot.other = .valid sel.record ∧
      plan.generation.val = sel.record.generation.val + 1 := by
  obtain ⟨first, second⟩ := s
  cases first with
  | valid r₁ =>
    cases second with
    | valid r₂ =>
      simp only [Slots.load, selectRecord, gt_iff_lt] at hl
      simp only [savePlan, ne_eq, gt_iff_lt, ite_not] at hp
      split_ifs at hl hp with h1 h2 h3 h4 h5 h6 <;> first | omega | contradiction | skip
      all_goals
        obtain ⟨g, hg, hpl⟩ := Except.bind_eq_ok.mp hp
        cases hl
        cases hpl
      · exact ⟨rfl, Generation.next_eq_ok hg⟩
      · exact ⟨rfl, Generation.next_eq_ok hg⟩
      · have hgen : r₁.generation = r₂.generation := Subtype.ext (by omega)
        rw [hc r₁ r₂ rfl rfl hgen] at hg ⊢
        exact ⟨rfl, Generation.next_eq_ok hg⟩
    | missing | invalid =>
      obtain ⟨g, hg, hpl⟩ := Except.bind_eq_ok.mp hp
      cases hl
      cases hpl
      exact ⟨rfl, Generation.next_eq_ok hg⟩
  | missing | invalid =>
    cases second with
    | valid r₂ =>
      obtain ⟨g, hg, hpl⟩ := Except.bind_eq_ok.mp hp
      cases hl
      cases hpl
      exact ⟨rfl, Generation.next_eq_ok hg⟩
    | missing | invalid => cases hl

/-- Explicit recovery only differs from a plain save when no slot is valid. -/
theorem explicitSavePlan_eq (hl : s.load = .ok (some sel)) :
    explicitSavePlan s.first s.second = savePlan s.first s.second := by
  obtain ⟨first, second⟩ := s
  cases first <;> cases second <;> first | rfl | cases hl

/-- What a save can do to the loaded record. -/
inductive Follows (before : DecodedRecord T H) : SaveResult T H → DecodedRecord T H → Prop where
  | failed (code : StateErrorCode) : Follows before (.failed code) before
  | kept {staged : DecodedRecord T H} (newer : before.generation.val < staged.generation.val) :
      Follows before (.crashed staged) before
  | inFlight {staged : DecodedRecord T H} (newer : before.generation.val < staged.generation.val) :
      Follows before (.crashed staged) staged
  | acknowledged {staged : DecodedRecord T H} (receipt : RecordSaveReceipt H)
      (newer : before.generation.val < staged.generation.val) :
      Follows before (.acknowledged staged receipt) staged

omit [DecidableEq H] in
theorem Follows.generation_le {before after : DecodedRecord T H} (h : Follows before res after) :
    before.generation.val ≤ after.generation.val := by
  cases h with
  | failed | kept => exact le_rfl
  | inFlight newer | acknowledged _ newer => exact newer.le

/-- The published record is the one the reread finds. -/
theorem rereadReceipt_newer {side : Side} {r staged : DecodedRecord T H}
    (hp : s.get side.other = .valid r) (hgen : r.generation.val < staged.generation.val) :
    rereadReceipt (s.set side (.valid staged)) staged =
      .acknowledged staged ⟨staged.generation, .complete, staged.payloadSha256⟩ := by
  simp [rereadReceipt, Slots.load_set_newer hp hgen]

/-- **One save**: the pair stays consistent and loadable, and the loaded record moves as
`Follows` says. -/
theorem saveWithPolicy_follows (mj : T → Except StateErrorCode H)
    (explicitRecovery : Bool) (crash : Option CrashResidue) (value : T) (hc : s.Consistent)
    (hl : s.load = .ok (some sel)) :
    let r := saveWithPolicy mj explicitRecovery crash value s
    r.1.Consistent ∧ ∃ sel', r.1.load = .ok (some sel') ∧ Follows sel.record r.2 sel'.record := by
  have hpl : (if explicitRecovery then explicitSavePlan s.first s.second
      else savePlan s.first s.second) = savePlan s.first s.second := by
    split_ifs
    · exact explicitSavePlan_eq hl
    · rfl
  simp only [saveWithPolicy, hpl]
  cases hp : savePlan s.first s.second with
  | error code => exact ⟨hc, sel, hl, .failed code⟩
  | ok plan =>
    cases hm : mj value with
    | error code => exact ⟨hc, sel, hl, .failed code⟩
    | ok sha =>
      obtain ⟨hpeer, hgen⟩ := savePlan_spec hc hl hp
      have hnw : sel.record.generation.val < plan.generation.val := by omega
      cases crash with
      | none =>
        have hack : rereadReceipt (s.set plan.slot (.valid ⟨plan.generation, sha, value⟩)) _ = _ :=
          rereadReceipt_newer hpeer hnw
        refine ⟨Slots.consistent_set_newer hpeer hnw, _, Slots.load_set_newer hpeer hnw, ?_⟩
        simp only [hack]
        exact .acknowledged _ hnw
      | some residue =>
        cases residue with
        | old => exact ⟨by simpa [CrashResidue.slot] using hc, sel, by
            simpa [CrashResidue.slot] using hl, .kept hnw⟩
        | missing =>
          have hsl : ∀ r', (Slot.missing : Slot T H) ≠ .valid r' := by simp
          obtain ⟨red, hld⟩ := Slots.load_set_not_valid hpeer hsl
          exact ⟨Slots.consistent_set_not_valid hsl, _, hld, .kept hnw⟩
        | invalid =>
          have hsl : ∀ r', (Slot.invalid : Slot T H) ≠ .valid r' := by simp
          obtain ⟨red, hld⟩ := Slots.load_set_not_valid hpeer hsl
          exact ⟨Slots.consistent_set_not_valid hsl, _, hld, .kept hnw⟩
        | new =>
          exact ⟨Slots.consistent_set_newer hpeer hnw, _,
            Slots.load_set_newer hpeer hnw, .inFlight hnw⟩

/-! ### Runs -/

/-- One save of a run: its value, its policy, and the crash that interrupts it, if any. -/
structure SaveRequest (T : Type) where
  value : T
  explicitRecovery : Bool
  crash : Option CrashResidue

def save (measureJson : T → Except StateErrorCode H) (s : Slots T H) (req : SaveRequest T) :
    Slots T H × SaveResult T H :=
  saveWithPolicy measureJson req.explicitRecovery req.crash req.value s

/-- The slots after a list of saves. -/
def runSaves (measureJson : T → Except StateErrorCode H) (s : Slots T H)
    (reqs : List (SaveRequest T)) : Slots T H :=
  reqs.foldl (fun s req => (save measureJson s req).1) s

/-- What the caller of a run knows: the record of the last receipt, and the records of the saves
that crashed after it. -/
structure History (T H : Type) where
  acknowledged : DecodedRecord T H
  inFlight : List (DecodedRecord T H)

def History.note (h : History T H) : SaveResult T H → History T H
  | .acknowledged staged _ => ⟨staged, []⟩
  | .failed _ => h
  | .crashed staged => ⟨h.acknowledged, staged :: h.inFlight⟩

/-- The caller's history after a list of saves. -/
def runHistory (measureJson : T → Except StateErrorCode H) :
    Slots T H → History T H → List (SaveRequest T) → History T H
  | _, h, [] => h
  | s, h, req :: reqs =>
    let r := save measureJson s req
    runHistory measureJson r.1 (h.note r.2) reqs

/-- Some save of the run got a receipt. -/
def Acknowledges (measureJson : T → Except StateErrorCode H) (s : Slots T H)
    (reqs : List (SaveRequest T)) : Prop :=
  ∃ pre req post staged receipt, reqs = pre ++ req :: post ∧
    (save measureJson (runSaves measureJson s pre) req).2 = .acknowledged staged receipt

/-- The loaded record is known to the caller and not older than the last receipt. -/
structure History.Covers (h : History T H) (r : DecodedRecord T H) : Prop where
  known : r = h.acknowledged ∨ r ∈ h.inFlight
  notOlder : h.acknowledged.generation.val ≤ r.generation.val

omit [DecidableEq H] in
theorem History.Covers.note {h : History T H} {before after : DecodedRecord T H}
    (hcov : h.Covers before) (hf : Follows before res after) :
    (h.note res).Covers after := by
  cases hf with
  | failed => exact hcov
  | kept newer =>
    exact ⟨hcov.known.imp_right (List.mem_cons_of_mem _), hcov.notOlder⟩
  | inFlight newer =>
    exact ⟨.inr List.mem_cons_self, hcov.notOlder.trans newer.le⟩
  | acknowledged receipt newer => exact ⟨.inl rfl, le_rfl⟩

@[simp] theorem runSaves_cons (mj : T → Except StateErrorCode H) (s : Slots T H)
    (req : SaveRequest T) (reqs : List (SaveRequest T)) :
    runSaves mj s (req :: reqs) = runSaves mj (save mj s req).1 reqs := rfl

theorem runSaves_append (mj : T → Except StateErrorCode H) (s : Slots T H)
    (reqs more : List (SaveRequest T)) :
    runSaves mj s (reqs ++ more) = runSaves mj (runSaves mj s reqs) more :=
  List.foldl_append

/-- **Runs**: consistency, loadability and the caller's history are kept by every run, and the
loaded generation does not fall. -/
theorem runSaves_spec (mj : T → Except StateErrorCode H) (reqs : List (SaveRequest T)) :
    ∀ {s : Slots T H} {sel : SelectedRecord T H} {h : History T H}, s.Consistent →
      s.load = .ok (some sel) → h.Covers sel.record →
      (runSaves mj s reqs).Consistent ∧
      ∃ sel', (runSaves mj s reqs).load = .ok (some sel') ∧
        (runHistory mj s h reqs).Covers sel'.record ∧
        sel.record.generation.val ≤ sel'.record.generation.val := by
  induction reqs with
  | nil => exact fun hc hl hcov => ⟨hc, _, hl, hcov, le_rfl⟩
  | cons req reqs ih =>
    intro s sel h hc hl hcov
    obtain ⟨hc1, sel1, hl1, hf⟩ :=
      saveWithPolicy_follows mj req.explicitRecovery req.crash req.value hc hl
    obtain ⟨hc', sel', hl', hcov', hle⟩ := ih hc1 hl1 (hcov.note hf)
    exact ⟨hc', sel', hl', hcov', hf.generation_le.trans hle⟩

/-- A receipt somewhere in a run raises the loaded generation. -/
theorem runSaves_lt_of_acknowledges {reqs : List (SaveRequest T)} {sel' : SelectedRecord T H}
    (hc : s.Consistent) (hl : s.load = .ok (some sel))
    (hl' : (runSaves mj s reqs).load = .ok (some sel'))
    (hack : Acknowledges mj s reqs) :
    sel.record.generation.val < sel'.record.generation.val := by
  obtain ⟨pre, req, post, staged, receipt, rfl, hres⟩ := hack
  have cover (r : DecodedRecord T H) : (History.mk r []).Covers r := ⟨.inl rfl, le_rfl⟩
  rw [runSaves_append, runSaves_cons] at hl'
  obtain ⟨hc1, sel1, hl1, -, hle1⟩ := runSaves_spec mj pre hc hl (cover _)
  obtain ⟨hc2, sel2, hl2, hf⟩ :=
    saveWithPolicy_follows mj req.explicitRecovery req.crash req.value hc1 hl1
  obtain ⟨-, sel3, hl3, -, hle3⟩ := runSaves_spec mj post hc2 hl2 (cover _)
  have heq : sel3 = sel' := by
    have := hl3.symm.trans hl'
    simpa using this
  subst heq
  change Follows sel1.record (save mj (runSaves mj s pre) req).2 sel2.record at hf
  rw [hres] at hf
  cases hf with
  | acknowledged _ newer => omega

/-- **Crash safety of the redundant record.**  From every pair of slots with a valid record in
which two valid records of one generation agree, after every run of saves with crashes: the load
succeeds; it returns the last acknowledged record or one that was in flight in a later crash, never
one older than the last acknowledged; and its generation never falls later in the run and rises
across every acknowledged save. -/
theorem load_after_saves (measureJson : T → Except StateErrorCode H) (s : Slots T H)
    (hv : s.HasValid) (hc : s.Consistent) :
    ∃ initial, s.load = .ok (some initial) ∧ ∀ reqs, ∃ sel,
      (runSaves measureJson s reqs).load = .ok (some sel) ∧
      (let h := runHistory measureJson s ⟨initial.record, []⟩ reqs
       (sel.record = h.acknowledged ∨ sel.record ∈ h.inFlight) ∧
       h.acknowledged.generation.val ≤ sel.record.generation.val) ∧
      ∀ more, ∃ later, (runSaves measureJson s (reqs ++ more)).load = .ok (some later) ∧
        sel.record.generation.val ≤ later.record.generation.val ∧
        (Acknowledges measureJson (runSaves measureJson s reqs) more →
          sel.record.generation.val < later.record.generation.val) := by
  obtain ⟨initial, hl⟩ := Slots.load_isSome hv hc
  have hcov : (History.mk initial.record []).Covers initial.record := ⟨.inl rfl, le_rfl⟩
  refine ⟨initial, hl, fun reqs => ?_⟩
  obtain ⟨hc1, sel, hl1, hcov1, -⟩ := runSaves_spec measureJson reqs hc hl hcov
  refine ⟨sel, hl1, ⟨hcov1.known, hcov1.notOlder⟩, fun more => ?_⟩
  obtain ⟨-, later, hl2, -, hle⟩ := runSaves_spec measureJson more hc1 hl1 hcov1
  exact ⟨later, by rw [runSaves_append]; exact hl2, hle, runSaves_lt_of_acknowledges hc1 hl1 hl2⟩

/-- A freshly initialised store: one record in slot `a`, nothing in slot `b`. -/
def freshSlots : Slots ℕ ℕ := ⟨.valid ⟨Generation.one, 7, 7⟩, .missing⟩

theorem load_after_saves_fresh : freshSlots.HasValid ∧ freshSlots.Consistent ∧
    ∃ initial, freshSlots.load = .ok (some initial) ∧ ∀ reqs, ∃ sel,
      (runSaves Except.ok freshSlots reqs).load = .ok (some sel) ∧
      (let h := runHistory Except.ok freshSlots ⟨initial.record, []⟩ reqs
       (sel.record = h.acknowledged ∨ sel.record ∈ h.inFlight) ∧
       h.acknowledged.generation.val ≤ sel.record.generation.val) ∧
      ∀ more, ∃ later, (runSaves Except.ok freshSlots (reqs ++ more)).load = .ok (some later) ∧
        sel.record.generation.val ≤ later.record.generation.val ∧
        (Acknowledges Except.ok (runSaves Except.ok freshSlots reqs) more →
          sel.record.generation.val < later.record.generation.val) := by
  have hv : freshSlots.HasValid := ⟨.a, _, rfl⟩
  have hc : freshSlots.Consistent := by
    intro r₁ r₂ _ h2
    cases h2
  exact ⟨hv, hc, load_after_saves Except.ok freshSlots hv hc⟩

/-- **A save is read back.**  Behind every run of saves with crashes, a save that no crash
interrupts, whose value serialises and whose generation does not overflow, is acknowledged, and the
next load returns its record. -/
theorem uninterrupted_save_loads {req : SaveRequest T} {sha : H} (hv : s.HasValid)
    (hc : s.Consistent) (reqs : List (SaveRequest T)) (hcrash : req.crash = none)
    (hm : mj req.value = .ok sha)
    (hp : savePlan (runSaves mj s reqs).first (runSaves mj s reqs).second = .ok plan) :
    (save mj (runSaves mj s reqs) req).2 = .acknowledged ⟨plan.generation, sha, req.value⟩
        ⟨plan.generation, .complete, sha⟩ ∧
      ∃ sel, (runSaves mj s (reqs ++ [req])).load = .ok (some sel) ∧
        sel.record = ⟨plan.generation, sha, req.value⟩ := by
  obtain ⟨initial, hl⟩ := Slots.load_isSome hv hc
  obtain ⟨hc, sel, hl, -⟩ := @runSaves_spec _ _ _ mj reqs _ _ ⟨initial.record, []⟩ hc hl
    ⟨.inl rfl, le_rfl⟩
  obtain ⟨hpeer, hgen⟩ := savePlan_spec hc hl hp
  have hnw : sel.record.generation.val < plan.generation.val := by omega
  have hack : rereadReceipt ((runSaves mj s reqs).set plan.slot
      (.valid ⟨plan.generation, sha, req.value⟩)) _ = _ := rereadReceipt_newer hpeer hnw
  rw [runSaves_append, runSaves_cons]
  simp only [save, saveWithPolicy, explicitSavePlan_eq hl, ite_self, hp, hm, hcrash, hack]
  exact ⟨trivial, _, Slots.load_set_newer hpeer hnw, rfl⟩

theorem uninterrupted_save_loads_after_crash : ∃ sel,
    (runSaves Except.ok freshSlots ([⟨8, false, some .invalid⟩] ++ [⟨9, false, none⟩])).load =
      .ok (some sel) ∧ sel.record.value = 9 := by
  obtain ⟨-, sel, hl, hrec⟩ := @uninterrupted_save_loads ℕ ℕ _ _ Except.ok freshSlots
    ⟨9, false, none⟩ 9 ⟨.a, _, rfl⟩ (fun _ _ _ h => by cases h) [⟨8, false, some .invalid⟩]
    rfl rfl rfl
  exact ⟨sel, hl, by rw [hrec]⟩

/-- Both slots valid, one generation, two payloads. -/
def disagreeingSlots : Slots ℕ ℕ :=
  ⟨.valid ⟨Generation.one, 7, 7⟩, .valid ⟨Generation.one, 8, 8⟩⟩

/-- A valid slot alone is not enough: when the two slots disagree at one generation, the load
reports an integrity error, and so does every save. -/
theorem load_disagreeingSlots : disagreeingSlots.HasValid ∧
    (runSaves Except.ok disagreeingSlots []).load = .error .integrity ∧
    (save Except.ok disagreeingSlots ⟨9, true, none⟩).2 = .failed .integrity :=
  ⟨⟨.a, _, rfl⟩, rfl, rfl⟩

end TokenMaster.State
