import Mathlib.Data.Nat.Basic
import Mathlib.Data.List.Basic
import Mathlib.Tactic.Common
import Mathlib.Algebra.Order.Ring.Nat

/-!
# TokenMaster.Lib.Bytes — byte strings, big-endian numbers and length-prefixed fields

`encodeFields` writes a list of fields, each behind its eight-byte big-endian length.  The length
prefixes make the encoding injective (`encodeFields_inj`), which is what every identity that hashes
a field list relies on.
-/

namespace TokenMaster

open List

/-- Byte strings. -/
abbrev Bytes : Type := List UInt8

instance : LawfulBEq Bytes := inferInstance

/-- The bytes of an ASCII literal. -/
def ascii (s : String) : Bytes := s.toList.map fun c => UInt8.ofNat c.toNat

/-- A 32-byte value: a SHA-256 digest or an opaque identity. -/
structure Bytes32 where
  asBytes : Bytes
  length_eq : asBytes.length = 32
  deriving DecidableEq

namespace Bytes32

@[simp] theorem length_asBytes (b : Bytes32) : b.asBytes.length = 32 := b.length_eq

theorem asBytes_injective : Function.Injective asBytes := by
  rintro ⟨a, _⟩ ⟨b, _⟩ h
  cases h
  rfl

/-- The 32-byte value whose bytes are all `b`. -/
def replicate (b : UInt8) : Bytes32 := ⟨List.replicate 32 b, List.length_replicate⟩

end Bytes32

/-! ### Big-endian numbers -/

/-- The low `w` bytes of `n`, most significant first. -/
def beBytes : ℕ → ℕ → Bytes
  | 0, _ => []
  | w + 1, n => beBytes w (n / 256) ++ [UInt8.ofNat (n % 256)]

@[simp] theorem length_beBytes (w n : ℕ) : (beBytes w n).length = w := by
  induction w generalizing n with
  | zero => rfl
  | succ w ih => simp [beBytes, ih]

theorem beBytes_inj {w m n : ℕ} (hm : m < 256 ^ w) (hn : n < 256 ^ w)
    (h : beBytes w m = beBytes w n) : m = n := by
  induction w generalizing m n with
  | zero => omega
  | succ w ih =>
    obtain ⟨hhigh, hlow⟩ := append_inj' h rfl
    have hdiv : m / 256 = n / 256 := by
      apply ih _ _ hhigh
      · exact Nat.div_lt_of_lt_mul (by rw [Nat.pow_succ] at hm; omega)
      · exact Nat.div_lt_of_lt_mul (by rw [Nat.pow_succ] at hn; omega)
    have hmod : m % 256 = n % 256 := by
      have hb := congrArg UInt8.toNat (singleton_inj.mp hlow)
      simpa using hb
    omega

/-! ### Length-prefixed fields -/

/-- One field behind its length, as `update_field` feeds it to a hasher. -/
def encodeField (field : Bytes) : Bytes := beBytes 8 field.length ++ field

/-- A list of fields, each behind its length. -/
def encodeFields (fields : List Bytes) : Bytes := fields.flatMap encodeField

@[simp] theorem encodeFields_nil : encodeFields [] = [] := rfl

@[simp] theorem encodeFields_cons (field : Bytes) (fields : List Bytes) :
    encodeFields (field :: fields) = encodeField field ++ encodeFields fields := rfl

/-- A field can be read back from the front of an encoding. -/
theorem encodeField_append_inj {f g s t : Bytes} (hf : f.length < 2 ^ 64) (hg : g.length < 2 ^ 64)
    (h : encodeField f ++ s = encodeField g ++ t) : f = g ∧ s = t := by
  simp only [encodeField, append_assoc] at h
  obtain ⟨hlen, hrs⟩ := append_inj h (by simp)
  have hlen' : f.length = g.length := beBytes_inj (w := 8) (by omega) (by omega) hlen
  exact append_inj hrs hlen'

/-- **Field lists are recovered from their encoding.** -/
theorem encodeFields_inj {fs gs : List Bytes} (hf : ∀ f ∈ fs, f.length < 2 ^ 64)
    (hg : ∀ g ∈ gs, g.length < 2 ^ 64) (h : encodeFields fs = encodeFields gs) : fs = gs := by
  induction fs generalizing gs with
  | nil =>
    cases gs with
    | nil => rfl
    | cons g gs =>
      have hlen := congrArg List.length h
      simp only [encodeFields_nil, encodeFields_cons, encodeField, length_nil,
        length_append, length_beBytes] at hlen
      omega
  | cons f fs ih =>
    cases gs with
    | nil =>
      have hlen := congrArg List.length h
      simp only [encodeFields_nil, encodeFields_cons, encodeField, length_nil,
        length_append, length_beBytes] at hlen
      omega
    | cons g gs =>
      simp only [mem_cons, forall_eq_or_imp] at hf hg
      obtain ⟨rfl, hrs⟩ := encodeField_append_inj hf.1 hg.1 h
      rw [ih hf.2 hg.2 hrs]

/-! ### Stand-in digests -/

/-- A polynomial in the bytes of the input: a digest that can be evaluated. -/
def polynomialDigest (b : Bytes) : Bytes32 :=
  ⟨beBytes 32 (b.foldl (fun n c => n * 257 + c.toNat) 0), length_beBytes _ _⟩

/-- The last 32 bytes of the input: a digest that can be evaluated. -/
def lastBytes (b : Bytes) : Bytes32 :=
  if h : 32 ≤ b.length then ⟨b.drop (b.length - 32), by simp; omega⟩ else Bytes32.replicate 0

theorem lastBytes_append (b : Bytes) (id : Bytes32) : lastBytes (b ++ id.asBytes) = id := by
  have hlen : 32 ≤ (b ++ id.asBytes).length := by simp
  have hdr : (b ++ id.asBytes).drop ((b ++ id.asBytes).length - 32) = id.asBytes := by simp
  unfold lastBytes
  rw [dif_pos hlen]
  exact Bytes32.asBytes_injective hdr

end TokenMaster
