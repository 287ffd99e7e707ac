import TokenMaster.Lib.Bytes

/-!
# TokenMaster.Lib.Layout — little-endian numbers and records of fixed layout

A record of fixed layout is a list of fields of given widths.  `cut` takes a byte string apart, and
joining the fields gives it back (`flatten_cut`); fields that are joined are found again
(`cut_flatten`).  With numbers that are read back from their bytes and bytes that are read back from
their number (`leNat_leBytes`, `leBytes_leNat`), both round trips of a record are a matter of its
checks.
-/

namespace TokenMaster

open List

/-! ### Little-endian numbers -/

/-- The low `w` bytes of `n`, least significant first. -/
def leBytes : ℕ → ℕ → Bytes
  | 0, _ => []
  | w + 1, n => UInt8.ofNat (n % 256) :: leBytes w (n / 256)

def leNat : Bytes → ℕ
  | [] => 0
  | b :: bytes => b.toNat + 256 * leNat bytes

@[simp] theorem length_leBytes (w n : ℕ) : (leBytes w n).length = w := by
  induction w generalizing n with
  | zero => rfl
  | succ w ih => simp [leBytes, ih]

theorem leNat_leBytes {w n : ℕ} (h : n < 256 ^ w) : leNat (leBytes w n) = n := by
  induction w generalizing n with
  | zero =>
    rw [leBytes, leNat]
    omega
  | succ w ih =>
    have hdiv : n / 256 < 256 ^ w := by
      omega
    have hb : (UInt8.ofNat (n % 256)).toNat = n % 256 := by simp
    rw [leBytes, leNat, ih hdiv, hb]
    omega

theorem leBytes_leNat (bytes : Bytes) : leBytes bytes.length (leNat bytes) = bytes := by
  induction bytes with
  | nil => rfl
  | cons b bytes ih =>
    have hb := b.toNat_lt
    have hmod : (b.toNat + 256 * leNat bytes) % 256 = b.toNat := by omega
    have hdiv : (b.toNat + 256 * leNat bytes) / 256 = leNat bytes := by omega
    rw [length_cons, leNat, leBytes, hmod, hdiv, ih, UInt8.ofNat_toNat]

/-- A field that reads as `n` is the encoding of `n`. -/
theorem eq_leBytes {bytes : Bytes} {w n : ℕ} (hlen : bytes.length = w) (h : leNat bytes = n) :
    bytes = leBytes w n := by
  rw [← h, ← hlen, leBytes_leNat]

/-- Two's complement of 64 bits. -/
def signed64 (n : ℕ) : ℤ := if n < 2 ^ 63 then n else n - 2 ^ 64

def unsigned64 (t : ℤ) : ℕ := (t % 2 ^ 64).toNat

theorem signed64_unsigned64 {t : ℤ} (hlow : -2 ^ 63 ≤ t) (hhigh : t < 2 ^ 63) :
    signed64 (unsigned64 t) = t := by
  unfold signed64 unsigned64
  split_ifs <;> omega

theorem unsigned64_lt (t : ℤ) : unsigned64 t < 2 ^ 64 := by
  unfold unsigned64
  omega

/-! ### Fields -/

/-- The fields of these widths at the front of a byte string. -/
def cut : List ℕ → Bytes → List Bytes
  | [], _ => []
  | width :: widths, bytes => bytes.take width :: cut widths (bytes.drop width)

theorem cut_flatten (fields : List Bytes) :
    cut (fields.map List.length) fields.flatten = fields := by
  induction fields with
  | nil => rfl
  | cons field fields ih =>
    rw [map_cons, flatten_cons, cut, take_left, drop_left, ih]

theorem flatten_cut {widths : List ℕ} {bytes : Bytes} (h : bytes.length = widths.sum) :
    (cut widths bytes).flatten = bytes := by
  induction widths generalizing bytes with
  | nil =>
    exact (eq_nil_of_length_eq_zero h).symm
  | cons width widths ih =>
    rw [sum_cons] at h
    rw [cut, flatten_cons, ih (by rw [length_drop]; omega), take_append_drop]

theorem cut_lengths {widths : List ℕ} {bytes : Bytes} (h : bytes.length = widths.sum) :
    (cut widths bytes).map List.length = widths := by
  induction widths generalizing bytes with
  | nil => rfl
  | cons width widths ih =>
    rw [sum_cons] at h
    rw [cut, map_cons, ih (by rw [length_drop]; omega), length_take, Nat.min_eq_left (by omega)]

end TokenMaster
