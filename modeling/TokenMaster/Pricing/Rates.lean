import Mathlib.Algebra.Order.Field.Rat
import Mathlib.Data.List.TakeWhile
import Mathlib.Tactic.FieldSimp
import Mathlib.Tactic.NormNum
import TokenMaster.Lib.Decimal
import TokenMaster.Pricing.Catalog

/-!
# TokenMaster.Pricing.Rates — rates from decimal texts

`UsdPerMillion::parse` of `crates/pricing/src/lib.rs`, compared with the number that a text denotes.
-/

namespace TokenMaster.Pricing

open TokenMaster.Except List

/-! ### The parser -/

/-- `split_once('.')`. -/
def splitOnce (value : Bytes) : Bytes × Option Bytes :=
  match value.dropWhile (· != 46) with
  | [] => (value, none)
  | _ :: rest => (value.takeWhile (· != 46), some rest)

def pushDigit (result : ℕ) (byte : UInt8) : Except PriceErrorCode ℕ := do
  Except.require .invalidRate (result * 10 < 2 ^ 64)
  Except.require .invalidRate (result * 10 + (byte.toNat - 48) < 2 ^ 64)
  return result * 10 + (byte.toNat - 48)

def parseAsciiU64 (value : Bytes) : Except PriceErrorCode ℕ := value.foldlM pushDigit 0

def fractionalMicros : Option Bytes → Except PriceErrorCode ℕ
  | none => return 0
  | some digits => do
    let parsed ← parseAsciiU64 digits
    Except.require .invalidRate (parsed * 10 ^ (6 - digits.length) < 2 ^ 64)
    return parsed * 10 ^ (6 - digits.length)

/-- What `parse` asks of the digits behind the point. -/
def validFraction (digits : Bytes) : Bool :=
  digits ≠ [] ∧ digits.length ≤ 6 ∧ digits.all isAsciiDigit

def UsdPerMillion.ofMicros? (micros : ℕ) : Except PriceErrorCode UsdPerMillion :=
  if h : micros ≤ maxRateMicrosPerMillion then .ok ⟨micros, h⟩ else .error .invalidRate

def UsdPerMillion.parse (value : Bytes) : Except PriceErrorCode UsdPerMillion := do
  let parts := splitOnce value
  Except.require .invalidRate (parts.1 ≠ [] ∧ parts.1.all isAsciiDigit ∧ value.count 46 ≤ 1 ∧
    parts.2.all validFraction)
  let whole ← parseAsciiU64 parts.1
  Except.require .invalidRate (whole * 1000000 < 2 ^ 64)
  let fraction ← fractionalMicros parts.2
  Except.require .invalidRate (whole * 1000000 + fraction < 2 ^ 64)
  UsdPerMillion.ofMicros? (whole * 1000000 + fraction)

/-! ### The number of a text -/

/-- A digit string, with up to six digits behind a point or without one, and its number. -/
inductive Denotes : Bytes → ℚ → Prop
  | whole {t n} (ht : Spells t n) : Denotes t n
  | point {t n f k} (ht : Spells t n) (hf : Spells f k) (hle : f.length ≤ 6) :
      Denotes (t ++ 46 :: f) (n + k / 10 ^ f.length)

variable {value t f : Bytes} {n k : ℕ}

theorem splitOnce_whole (h : 46 ∉ t) : splitOnce t = (t, none) := by
  have hdrop : t.dropWhile (· != 46) = [] := by
    rw [dropWhile_eq_nil_iff]
    intro b hb
    exact bne_iff_ne.mpr fun heq => h (heq ▸ hb)
  rw [splitOnce, hdrop]

theorem splitOnce_point (h : 46 ∉ t) : splitOnce (t ++ 46 :: f) = (t, some f) := by
  have hne : ∀ b ∈ t, (b != 46) = true := fun b hb => bne_iff_ne.mpr fun heq => h (heq ▸ hb)
  have hdrop : (t ++ 46 :: f).dropWhile (· != 46) = 46 :: f := by
    rw [dropWhile_append_of_pos hne]
    rfl
  have htake : (t ++ 46 :: f).takeWhile (· != 46) = t := by
    rw [takeWhile_append_of_pos hne]
    exact append_nil t
  rw [splitOnce, hdrop, htake]

theorem splitOnce_cases (value : Bytes) :
    splitOnce value = (value, none) ∨ ∃ t f, value = t ++ 46 :: f ∧ splitOnce value = (t, some f) := by
  by_cases h : 46 ∈ value
  · obtain ⟨t, f, rfl, ht⟩ := eq_append_cons_of_mem h
    exact .inr ⟨t, f, rfl, splitOnce_point ht⟩
  · exact .inl (splitOnce_whole h)

/-! ### What the parser returns -/

theorem le_foldl_digits (t : Bytes) (r : ℕ) :
    r ≤ t.foldl (fun n b => n * 10 + (b.toNat - 48)) r := by
  induction t generalizing r with
  | nil => exact le_rfl
  | cons b t ih =>
    have h := ih (r * 10 + (b.toNat - 48))
    rw [foldl_cons]
    omega

/-- The checks fail exactly when the number does not fit: it never gets smaller. -/
theorem foldlM_pushDigit {r : ℕ} (hr : r < 2 ^ 64) :
    t.foldlM pushDigit r = .ok n ↔
      t.foldl (fun n b => n * 10 + (b.toNat - 48)) r = n ∧ n < 2 ^ 64 := by
  induction t generalizing r with
  | nil =>
    constructor
    · rintro ⟨⟩
      exact ⟨rfl, hr⟩
    · rintro ⟨rfl, -⟩
      rfl
  | cons b t ih =>
    rw [foldlM_cons, foldl_cons, pushDigit]
    by_cases hb : r * 10 + (b.toNat - 48) < 2 ^ 64
    · rw [require_pos (by omega), require_pos hb]
      exact ih hb
    · have h := le_foldl_digits t (r * 10 + (b.toNat - 48))
      constructor
      · intro hok
        obtain ⟨_, hpush, -⟩ := bind_eq_ok.mp hok
        exact absurd (require_bind.mp (require_bind.mp hpush).2).1 hb
      · omega

theorem parseAsciiU64_eq_ok : parseAsciiU64 t = .ok n ↔ digitsValue t = n ∧ n < 2 ^ 64 :=
  foldlM_pushDigit (by omega)

/-- Six digits fit. -/
theorem fractionalMicros_eq (hf : Spells f k) (hle : f.length ≤ 6) :
    fractionalMicros (some f) = .ok (k * 10 ^ (6 - f.length)) := by
  have hk : k * 10 ^ (6 - f.length) < 2 ^ 64 := by
    calc k * 10 ^ (6 - f.length) < 10 ^ f.length * 10 ^ (6 - f.length) :=
          Nat.mul_lt_mul_of_pos_right hf.lt (Nat.pow_pos (by omega))
      _ = 10 ^ 6 := by rw [← pow_add, Nat.add_sub_cancel' hle]
      _ < 2 ^ 64 := by omega
  have hfit : k < 2 ^ 64 := (Nat.le_mul_of_pos_right k (Nat.pow_pos (by omega))).trans_lt hk
  rw [fractionalMicros, parseAsciiU64_eq_ok.mpr ⟨hf.value, hfit⟩, ok_bind, require_pos hk]
  rfl

variable {rate : UsdPerMillion} {o : Option Bytes} {m : ℕ}

theorem ofMicros?_eq_ok : UsdPerMillion.ofMicros? m = .ok rate ↔ m = rate.micros := by
  unfold UsdPerMillion.ofMicros?
  constructor
  · intro h
    split_ifs at h
    cases h
    rfl
  · rintro rfl
    rw [dif_pos rate.micros_le]

/-- Behind the checks of the text, the amount alone decides. -/
theorem parse_of_parts (hs : splitOnce value = (t, o)) (ht : Spells t n)
    (hc : value.count 46 ≤ 1) (ho : o.all validFraction) (hm : fractionalMicros o = .ok m) :
    UsdPerMillion.parse value = .ok rate ↔ n * 1000000 + m = rate.micros := by
  have hv : t ≠ [] ∧ t.all isAsciiDigit ∧ value.count 46 ≤ 1 ∧ o.all validFraction :=
    ⟨ht.ne_nil, all_eq_true.mpr ht.digits, hc, ho⟩
  unfold UsdPerMillion.parse
  rw [hs]
  dsimp only
  rw [require_pos hv, ok_bind]
  constructor
  · intro h
    obtain ⟨whole, hw, h⟩ := bind_eq_ok.mp h
    obtain ⟨rfl, -⟩ := parseAsciiU64_eq_ok.mp hw
    obtain ⟨-, h⟩ := require_bind.mp h
    rw [hm, ok_bind, ht.value] at h
    exact ofMicros?_eq_ok.mp (require_bind.mp h).2
  · intro h
    have hmax : rate.micros ≤ 1000000000000 := rate.micros_le
    rw [parseAsciiU64_eq_ok.mpr ⟨ht.value, by omega⟩, ok_bind, require_pos (by omega), ok_bind, hm,
      ok_bind, require_pos (by omega), ok_bind]
    exact ofMicros?_eq_ok.mpr h

/-- Whatever is accepted denotes a number. -/
theorem denotes_of_parse (h : UsdPerMillion.parse value = .ok rate) : ∃ q, Denotes value q := by
  obtain ⟨⟨hne, hall, -, hfrac⟩, -⟩ := require_bind.mp h
  rcases splitOnce_cases value with hs | ⟨t, f, rfl, hs⟩
  · rw [hs] at hne hall
    exact ⟨_, .whole ⟨hne, all_eq_true.mp hall, rfl⟩⟩
  · rw [hs] at hne hall hfrac
    obtain ⟨hf, hle, hdig⟩ := of_decide_eq_true (by exact hfrac)
    exact ⟨_, .point ⟨hne, all_eq_true.mp hall, rfl⟩ ⟨hf, all_eq_true.mp hdig, rfl⟩ hle⟩

theorem point_micros (n k : ℕ) {len : ℕ} (h : len ≤ 6) :
    ((n : ℚ) + k / 10 ^ len) * 10 ^ 6 = ((n * 1000000 + k * 10 ^ (6 - len) : ℕ) : ℚ) := by
  have hpow : (10 : ℚ) ^ 6 = 10 ^ len * 10 ^ (6 - len) := by
    rw [← pow_add, Nat.add_sub_cancel' h]
  have hk : (k / 10 ^ len : ℚ) * 10 ^ 6 = k * 10 ^ (6 - len) := by
    rw [hpow]
    field_simp
  rw [add_mul, hk]
  norm_num

/-- A text that denotes a number is read as that number of millionths. -/
theorem parse_of_denotes {q : ℚ} (h : Denotes value q) :
    ∃ m : ℕ, q * 10 ^ 6 = m ∧ ∀ rate, UsdPerMillion.parse value = .ok rate ↔ m = rate.micros := by
  have hdot : isAsciiDigit 46 = false := rfl
  cases h with
  | @whole t n ht =>
    have hmem := ht.notMem hdot
    have hc : value.count 46 ≤ 1 := by
      rw [count_eq_zero.mpr hmem]
      omega
    refine ⟨n * 1000000 + 0, ?_, fun rate => parse_of_parts (splitOnce_whole hmem) ht hc rfl rfl⟩
    norm_num
  | @point t n f k ht hf hle =>
    have hmem := ht.notMem hdot
    have hc : (t ++ 46 :: f).count 46 ≤ 1 := by
      rw [count_append, count_eq_zero.mpr hmem, count_cons_self, count_eq_zero.mpr (hf.notMem hdot)]
    have ho : validFraction f := decide_eq_true ⟨hf.ne_nil, hle, all_eq_true.mpr hf.digits⟩
    exact ⟨_, point_micros n k hle, fun rate =>
      parse_of_parts (splitOnce_point hmem) ht hc ho (fractionalMicros_eq hf hle)⟩

/-- The parser accepts the decimal texts up to the maximum, as their number of millionths. -/
theorem rate_parse_exact (value : Bytes) :
    (∀ rate, UsdPerMillion.parse value = .ok rate ↔
      ∃ q, Denotes value q ∧ q * 10 ^ 6 = rate.micros) ∧
    ((∃ rate, UsdPerMillion.parse value = .ok rate) ↔
      ∃ q, Denotes value q ∧ q * 10 ^ 6 ≤ maxRateMicrosPerMillion) := by
  have hex : ∀ rate, UsdPerMillion.parse value = .ok rate ↔
      ∃ q, Denotes value q ∧ q * 10 ^ 6 = rate.micros := by
    intro rate
    constructor
    · intro h
      obtain ⟨q, hq⟩ := denotes_of_parse h
      obtain ⟨m, hm, hparse⟩ := parse_of_denotes hq
      exact ⟨q, hq, by rw [hm, (hparse rate).mp h]⟩
    · rintro ⟨q, hq, heq⟩
      obtain ⟨m, hm, hparse⟩ := parse_of_denotes hq
      exact (hparse rate).mpr (by exact_mod_cast hm.symm.trans heq)
  refine ⟨hex, ?_, ?_⟩
  · rintro ⟨rate, h⟩
    obtain ⟨q, hq, heq⟩ := (hex rate).mp h
    exact ⟨q, hq, by rw [heq]; exact_mod_cast rate.micros_le⟩
  · rintro ⟨q, hq, hle⟩
    obtain ⟨m, hm, hparse⟩ := parse_of_denotes hq
    have hmax : m ≤ maxRateMicrosPerMillion := by
      rw [hm] at hle
      exact_mod_cast hle
    exact ⟨⟨m, hmax⟩, (hparse _).mpr rfl⟩

end TokenMaster.Pricing
