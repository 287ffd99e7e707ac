import TokenMaster.Lib.Bytes

/-!
# TokenMaster.Domain.Text — bounded ASCII identifiers

The identifier newtypes of `crates/domain` are checked byte strings.  `AsciiText max allowed` is
the family; every identifier is a member with its own bound and alphabet.
-/

namespace TokenMaster.Domain

/-- `u8::is_ascii_alphanumeric`. -/
def isAsciiAlphanumeric (b : UInt8) : Bool :=
  (48 ≤ b && b ≤ 57) || (65 ≤ b && b ≤ 90) || (97 ≤ b && b ≤ 122)

/-- ASCII letters and digits, `.`, `_` and `-`: the bytes of usage and quota identifiers. -/
def isUsageIdByte (b : UInt8) : Bool :=
  isAsciiAlphanumeric b || b == 46 || b == 95 || b == 45

/-- `is_usage_id_byte` and `/`, `:`. -/
def isModelKeyByte (b : UInt8) : Bool :=
  isUsageIdByte b || b == 47 || b == 58

/-- A non-empty text of at most `max` bytes over an alphabet. -/
structure AsciiText (max : ℕ) (allowed : UInt8 → Bool) where
  bytes : Bytes
  nonempty : bytes ≠ []
  length_le : bytes.length ≤ max
  all_allowed : bytes.all allowed = true

namespace AsciiText

variable {max : ℕ} {allowed : UInt8 → Bool}

@[ext] theorem ext {a b : AsciiText max allowed} (h : a.bytes = b.bytes) : a = b := by
  cases b
  cases h
  rfl

instance : DecidableEq (AsciiText max allowed) := fun a b =>
  decidable_of_iff (a.bytes = b.bytes) ⟨ext, fun h => h ▸ rfl⟩

end AsciiText

theorem letter_ne_nil : ([97] : Bytes) ≠ [] := by decide

/-- A one-letter identifier. -/
def letterId (max : ℕ) (h : 1 ≤ max) : AsciiText max isUsageIdByte :=
  ⟨[97], letter_ne_nil, h, by decide⟩

def maxUsageIdBytes : ℕ := 128
def maxProviderIdBytes : ℕ := 64

theorem maxProviderIdBytes_pos : 1 ≤ maxProviderIdBytes := by decide

theorem maxUsageIdBytes_pos : 1 ≤ maxUsageIdBytes := by decide

def maxSessionIdBytes : ℕ := 512
def maxModelKeyBytes : ℕ := 64
def maxMetadataBytes : ℕ := 512

abbrev UsageProviderId := AsciiText maxProviderIdBytes isUsageIdByte
abbrev UsageProfileId := AsciiText maxUsageIdBytes isUsageIdByte
abbrev UsageSourceId := AsciiText maxUsageIdBytes isUsageIdByte
abbrev ModelKey := AsciiText maxModelKeyBytes isModelKeyByte

end TokenMaster.Domain
