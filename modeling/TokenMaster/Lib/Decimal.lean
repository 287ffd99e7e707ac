import Mathlib.Data.List.Induction
import TokenMaster.Lib.Bytes

/-!
# TokenMaster.Lib.Decimal — decimal integers in ASCII

`str::parse` for the integer types of Rust: an optional sign, at least one digit, and the range of
the type.
-/

namespace TokenMaster

def isAsciiDigit (b : UInt8) : Bool := 48 ≤ b && b ≤ 57

def digitsValue (t : Bytes) : ℕ := t.foldl (fun n b => n * 10 + (b.toNat - 48)) 0

def parseDigits (t : Bytes) : Option ℕ :=
  if t ≠ [] ∧ t.all isAsciiDigit then some (digitsValue t) else none

/-- An unsigned integer below `bound`; a leading `+` is allowed. -/
def parseUnsigned (bound : ℕ) (t : Bytes) : Option ℕ :=
  (parseDigits (if t.head? = some 43 then t.tail else t)).filter (· < bound)

/-- A signed integer in `[-bound, bound)`. -/
def parseSigned (bound : ℤ) (t : Bytes) : Option ℤ :=
  let value : Option ℤ :=
    if t.head? = some 45 then (parseDigits t.tail).map fun n => -(n : ℤ)
    else (parseDigits (if t.head? = some 43 then t.tail else t)).map fun n => (n : ℤ)
  value.filter fun n => -bound ≤ n ∧ n < bound

/-- Digits that read as `n`. -/
structure Spells (t : Bytes) (n : ℕ) : Prop where
  ne_nil : t ≠ []
  digits : ∀ b ∈ t, isAsciiDigit b
  value : digitsValue t = n

/-- Digits after an optional minus sign. -/
def SpellsInt (t : Bytes) (n : ℤ) : Prop :=
  (∃ k : ℕ, Spells t k ∧ n = k) ∨ ∃ digits k, t = 45 :: digits ∧ Spells digits k ∧ n = -(k : ℤ)

variable {t : Bytes} {n : ℕ}

theorem Spells.parseDigits_eq (h : Spells t n) : parseDigits t = some n := by
  rw [parseDigits, if_pos ⟨h.ne_nil, List.all_eq_true.mpr h.digits⟩, h.value]

theorem digitsValue_concat (t : Bytes) (b : UInt8) :
    digitsValue (t ++ [b]) = digitsValue t * 10 + (b.toNat - 48) := by
  rw [digitsValue, List.foldl_append]
  rfl

theorem Spells.lt (h : Spells t n) : n < 10 ^ t.length := by
  obtain ⟨-, hdig, rfl⟩ := h
  induction t using List.reverseRecOn with
  | nil => exact Nat.one_pos
  | append_singleton t b ih =>
    have hb : b.toNat ≤ 57 := by
      have h := hdig b (by simp)
      simp only [isAsciiDigit, Bool.and_eq_true, decide_eq_true_eq, UInt8.le_iff_toNat_le] at h
      exact h.2
    have h := ih fun b hb => hdig b (List.mem_append_left _ hb)
    rw [digitsValue_concat, List.length_append, List.length_singleton, pow_succ]
    omega

variable {b : UInt8}

theorem Spells.head?_ne (h : Spells t n) (hb : isAsciiDigit b = false) : t.head? ≠ some b := by
  intro hhd
  have hdigit := h.digits b (List.mem_of_mem_head? hhd)
  rw [hb] at hdigit
  cases hdigit

theorem Spells.parseUnsigned_eq {bound : ℕ} (h : Spells t n) (hn : n < bound) :
    parseUnsigned bound t = some n := by
  rw [parseUnsigned, if_neg (h.head?_ne (by decide)), h.parseDigits_eq]
  simp [Option.filter, hn]

theorem SpellsInt.parseSigned_eq {n bound : ℤ} (h : SpellsInt t n) (hn : -bound ≤ n ∧ n < bound) :
    parseSigned bound t = some n := by
  rcases h with ⟨k, hk, rfl⟩ | ⟨digits, k, rfl, hk, rfl⟩
  · rw [parseSigned, if_neg (hk.head?_ne (by decide)), if_neg (hk.head?_ne (by decide)),
      hk.parseDigits_eq]
    simp [Option.filter, hn]
  · rw [parseSigned, if_pos (by rfl), List.tail_cons, hk.parseDigits_eq]
    simp [Option.filter, hn]

/-- A spelling has only digits and signs, so none of the separators of a record. -/
theorem Spells.notMem (h : Spells t n) (hb : isAsciiDigit b = false) : b ∉ t := by
  intro hmem
  have hdigit := h.digits b hmem
  rw [hb] at hdigit
  cases hdigit

theorem SpellsInt.notMem {n : ℤ} (h : SpellsInt t n) (hb : isAsciiDigit b = false)
    (hminus : b ≠ 45) : b ∉ t := by
  rcases h with ⟨k, hk, -⟩ | ⟨digits, k, rfl, hk, -⟩
  · exact hk.notMem hb
  · rw [List.mem_cons, not_or]
    exact ⟨hminus, hk.notMem hb⟩

end TokenMaster
