import Mathlib.Algebra.Order.Ring.Nat
import Mathlib.Data.List.Basic
import Mathlib.Tactic.Common
import TokenMaster.Lib.Except

/-!
# TokenMaster.State.Record — the redundant A/B record store

Model of `crates/state/src/record.rs` at the level of the two decoded slots.  `selectRecord`,
`savePlan` and `explicitSavePlan` are the functions of the source; `saveWithPolicy` is the save
with its publication made explicit: the staged record either reaches its slot and is reread, or a
crash leaves the one target slot in some residual state.

The crash-safety argument is one lemma about the plan (`savePlan_spec`): the slot that a save
leaves alone always holds the record that a load would return before the save.
-/

namespace TokenMaster.State

/-- `StateErrorCode` of the source. -/
inductive StateErrorCode where
  | invalidInput
  | unsupportedVersion
  | capacityExceeded
  | integrity
  | unavailable
  | busy
  | diskCapacity
  | recoveryRequired
  | internalInvariant
  deriving DecidableEq

/-- A record generation: a non-zero `u64`.  `encode_header` and `decode_record_payload` both
refuse generation zero, so no slot ever carries it. -/
def Generation : Type := { g : ℕ // 0 < g ∧ g < 2 ^ 64 }

deriving instance DecidableEq for Generation

namespace Generation

/-- The generation of the first record ever written. -/
def one : Generation := ⟨1, by decide, by decide⟩

/-- `generation.checked_add(1).ok_or_else(StateError::capacity_exceeded)`. -/
def next (g : Generation) : Except StateErrorCode Generation :=
  if h : g.val + 1 < 2 ^ 64 then .ok ⟨g.val + 1, Nat.succ_pos _, h⟩ else .error .capacityExceeded

theorem next_eq_ok {g g' : Generation} (h : g.next = .ok g') : g'.val = g.val + 1 := by
  unfold next at h
  split_ifs at h
  cases h
  rfl

end Generation

def maxRecordPayloadBytes : ℕ := 1024 * 1024

/-- `RecordRedundancy` of the source. -/
inductive RecordRedundancy where
  | complete
  | single
  | fallback

/-- A verified typed record.  `T` is the record's value type and `H` the type of payload
digests. -/
@[ext] structure DecodedRecord (T H : Type) where
  generation : Generation
  payloadSha256 : H
  value : T

/-- What `read_slot` reports about one file of the pair. -/
inductive Slot (T H : Type) where
  | missing
  | invalid
  | valid (record : DecodedRecord T H)

/-- A record together with the redundancy with which it was found. -/
structure SelectedRecord (T H : Type) where
  record : DecodedRecord T H
  redundancy : RecordRedundancy

/-- The two slots; `Side.a` is index `0` of the source's array and `Side.b` index `1`. -/
inductive Side where
  | a
  | b

/-- The peer of a slot. -/
def Side.other : Side → Side
  | .a => .b
  | .b => .a

structure SavePlan where
  slot : Side
  generation : Generation
  targetExists : Bool

section Store

variable {T H : Type} [DecidableEq H]

def selectRecord (first second : Slot T H) :
    Except StateErrorCode (Option (SelectedRecord T H)) :=
  match first, second with
  | .valid first, .valid second =>
    if first.generation.val > second.generation.val then .ok (some ⟨first, .complete⟩)
    else if second.generation.val > first.generation.val then .ok (some ⟨second, .complete⟩)
    else if first.payloadSha256 = second.payloadSha256 then .ok (some ⟨first, .complete⟩)
    else .error .integrity
  | .valid record, .missing | .missing, .valid record => .ok (some ⟨record, .single⟩)
  | .valid record, .invalid | .invalid, .valid record => .ok (some ⟨record, .fallback⟩)
  | _, _ => .ok none

/-- `!matches!(other, Slot::Missing)`. -/
def Slot.exists : Slot T H → Bool
  | .missing => false
  | _ => true

def savePlan (first second : Slot T H) : Except StateErrorCode SavePlan :=
  match first, second with
  | .missing, .missing => .ok ⟨.a, Generation.one, false⟩
  | .valid first, .valid second =>
    if first.generation.val ≠ second.generation.val then
      if first.generation.val > second.generation.val then do
        let generation ← first.generation.next
        return ⟨.b, generation, true⟩
      else do
        let generation ← second.generation.next
        return ⟨.a, generation, true⟩
    else if first.payloadSha256 ≠ second.payloadSha256 then .error .integrity
    else do
      let generation ← first.generation.next
      return ⟨.a, generation, true⟩
  | .valid record, other => do
    let generation ← record.generation.next
    return ⟨.b, generation, other.exists⟩
  | other, .valid record => do
    let generation ← record.generation.next
    return ⟨.a, generation, other.exists⟩
  | _, _ => .error .integrity

def explicitSavePlan (first second : Slot T H) : Except StateErrorCode SavePlan :=
  match first, second with
  | .missing, .invalid => .ok ⟨.a, Generation.one, false⟩
  | .invalid, .missing => .ok ⟨.b, Generation.one, false⟩
  | .invalid, .invalid => .ok ⟨.a, Generation.one, true⟩
  | first, second => savePlan first second

/-- The pair of slots of one `RedundantRecordStore`. -/
@[ext] structure Slots (T H : Type) where
  first : Slot T H
  second : Slot T H

namespace Slots

def get (s : Slots T H) : Side → Slot T H
  | .a => s.first
  | .b => s.second

def set (s : Slots T H) (side : Side) (slot : Slot T H) : Slots T H :=
  match side with
  | .a => { s with first := slot }
  | .b => { s with second := slot }

/-- `RedundantRecordStore::select_record`, which `load` returns field by field. -/
def load (s : Slots T H) : Except StateErrorCode (Option (SelectedRecord T H)) :=
  selectRecord s.first s.second

end Slots

/-- `RecordSaveReceipt` of the source. -/
structure RecordSaveReceipt (H : Type) where
  generation : Generation
  redundancy : RecordRedundancy
  payloadSha256 : H

/-- What a crash during publication leaves in the target slot. -/
inductive CrashResidue where
  | old
  | missing
  | invalid
  | new

/-- How a save ended: with a receipt, with an error returned to the caller, or with a crash
while `staged` was being published. -/
inductive SaveResult (T H : Type) where
  | acknowledged (staged : DecodedRecord T H) (receipt : RecordSaveReceipt H)
  | failed (code : StateErrorCode)
  | crashed (staged : DecodedRecord T H)

/-- The target slot after a crash. -/
def CrashResidue.slot (residue : CrashResidue) (old : Slot T H) (staged : DecodedRecord T H) :
    Slot T H :=
  match residue with
  | .old => old
  | .missing => .missing
  | .invalid => .invalid
  | .new => .valid staged

/-- The reread after publication. -/
def rereadReceipt (s : Slots T H) (staged : DecodedRecord T H) : SaveResult T H :=
  match s.load with
  | .ok (some selected) =>
    if selected.record.generation ≠ staged.generation ∨
        selected.record.payloadSha256 ≠ staged.payloadSha256 then .failed .recoveryRequired
    else .acknowledged staged
      ⟨selected.record.generation, selected.redundancy, selected.record.payloadSha256⟩
  | .ok none | .error _ => .failed .recoveryRequired

/-- `save_with_policy`.  `measureJson` serialises the value under the payload bound and hashes
it; `crash` is the residue of a crash during publication, if one happens. -/
def saveWithPolicy (measureJson : T → Except StateErrorCode H) (explicitRecovery : Bool)
    (crash : Option CrashResidue) (value : T) (s : Slots T H) : Slots T H × SaveResult T H :=
  let plan := if explicitRecovery then explicitSavePlan s.first s.second
    else savePlan s.first s.second
  match plan with
  | .error code => (s, .failed code)
  | .ok plan =>
    match measureJson value with
    | .error code => (s, .failed code)
    | .ok sha256 =>
      let staged : DecodedRecord T H := ⟨plan.generation, sha256, value⟩
      match crash with
      | some residue => (s.set plan.slot (residue.slot (s.get plan.slot) staged), .crashed staged)
      | none =>
        let published := s.set plan.slot (.valid staged)
        (published, rereadReceipt published staged)

end Store

/-! ### The two slots -/

variable {side : Side}

section Slots

variable {T H : Type}

namespace Slots

/-- Two valid records of one generation are the same record.  Without this, `load` and `save`
both report an integrity error. -/
def Consistent (s : Slots T H) : Prop :=
  ∀ r₁ r₂, s.first = .valid r₁ → s.second = .valid r₂ →
    r₁.generation = r₂.generation → r₁ = r₂

/-- At least one slot holds a verified record. -/
def HasValid (s : Slots T H) : Prop :=
  ∃ side r, s.get side = .valid r

@[simp] theorem set_get (s : Slots T H) (side : Side) : s.set side (s.get side) = s := by
  cases side <;> rfl

theorem consistent_set_not_valid {s : Slots T H} {slot : Slot T H} (hsl : ∀ r', slot ≠ .valid r')
    : (s.set side slot).Consistent := by
  intro r₁ r₂ h1 h2 _
  cases side with
  | a => exact absurd h1 (hsl r₁)
  | b => exact absurd h2 (hsl r₂)

theorem consistent_set_newer {s : Slots T H} {r staged : DecodedRecord T H}
    (hp : s.get side.other = .valid r) (hgen : r.generation.val < staged.generation.val) :
    (s.set side (.valid staged)).Consistent := by
  intro r₁ r₂ h1 h2 h
  have hval := congrArg Subtype.val h
  cases side with
  | a =>
    cases Slot.valid.inj h1
    cases Slot.valid.inj (hp.symm.trans h2)
    omega
  | b =>
    cases Slot.valid.inj h2
    cases Slot.valid.inj (hp.symm.trans h1)
    omega

end Slots

end Slots

section Plan

variable {T H : Type} [DecidableEq H]

/-! ### What a plan does -/

namespace Slots

/-- A pair with a valid record and no inconsistency loads. -/
theorem load_isSome {s : Slots T H} (hv : s.HasValid) (hc : s.Consistent) :
    ∃ sel, s.load = .ok (some sel) := by
  obtain ⟨first, second⟩ := s
  obtain ⟨side, r, hr⟩ := hv
  cases first with
  | valid r₁ =>
    cases second with
    | valid r₂ =>
      simp only [load, selectRecord]
      split_ifs with h1 h2 h3
      · exact ⟨_, rfl⟩
      · exact ⟨_, rfl⟩
      · exact ⟨_, rfl⟩
      · have hgen : r₁.generation = r₂.generation := Subtype.ext (by omega)
        exact absurd (congrArg DecodedRecord.payloadSha256 (hc r₁ r₂ rfl rfl hgen)) h3
    | missing | invalid => exact ⟨_, rfl⟩
  | missing | invalid =>
    cases second with
    | valid r₂ => exact ⟨_, rfl⟩
    | missing | invalid => cases side <;> cases hr

/-- A slot that is not valid leaves the peer's record as the loaded one. -/
theorem load_set_not_valid {s : Slots T H} {slot : Slot T H} {r : DecodedRecord T H}
    (hp : s.get side.other = .valid r) (hsl : ∀ r', slot ≠ .valid r') :
    ∃ red, (s.set side slot).load = .ok (some ⟨r, red⟩) := by
  obtain ⟨first, second⟩ := s
  cases side <;> cases slot with
  | valid r' => exact absurd rfl (hsl r')
  | missing =>
    subst hp
    exact ⟨.single, rfl⟩
  | invalid =>
    subst hp
    exact ⟨.fallback, rfl⟩

/-- A record of a higher generation than its peer is the loaded one. -/
theorem load_set_newer {s : Slots T H} {r staged : DecodedRecord T H}
    (hp : s.get side.other = .valid r) (hgen : r.generation.val < staged.generation.val) :
    (s.set side (.valid staged)).load = .ok (some ⟨staged, .complete⟩) := by
  obtain ⟨first, second⟩ := s
  cases side with
  | a =>
    subst hp
    simp only [load, set, selectRecord, gt_iff_lt, if_pos hgen]
  | b =>
    subst hp
    simp only [load, set, selectRecord, gt_iff_lt, if_pos hgen, if_neg (Nat.lt_asymm hgen)]

end Slots

end Plan

end TokenMaster.State
