import Mathlib.Data.Char
import Mathlib.Data.List.DropRight
import Mathlib.Data.List.Lex
import TokenMaster.Lib.Bytes

/-!
# TokenMaster.Lib.Text — Unicode text with byte lengths

A text is a list of scalar values; its length is that of its UTF-8 encoding.  The functions are those
of `str` and `char` that bounded values are built with: trimming, control characters, and truncation
at a character boundary.
-/

namespace TokenMaster

/-- Unicode text.  The order is by scalar values, which is the order of the UTF-8 encodings. -/
abbrev Text : Type := List Char

namespace Text

/-- The UTF-8 encoding. -/
def utf8 (t : Text) : Bytes := t.flatMap String.utf8EncodeChar

/-- The length of the UTF-8 encoding. -/
def byteLength (t : Text) : ℕ := (t.map Char.utf8Size).sum

/-- The general category `Cc`. -/
def isControl (c : Char) : Bool := c.toNat < 32 || (127 ≤ c.toNat && c.toNat < 160)

/-- The property `White_Space`. -/
def isWhitespace (c : Char) : Bool :=
  (9 ≤ c.toNat && c.toNat ≤ 13) || c.toNat == 32 || c.toNat == 0x85 || c.toNat == 0xA0 ||
    c.toNat == 0x1680 || (0x2000 ≤ c.toNat && c.toNat ≤ 0x200A) || c.toNat == 0x2028 ||
    c.toNat == 0x2029 || c.toNat == 0x202F || c.toNat == 0x205F || c.toNat == 0x3000

def trim (t : Text) : Text := (t.dropWhile isWhitespace).rdropWhile isWhitespace

/-- The longest prefix of at most `maxBytes` bytes. -/
def truncate : ℕ → Text → Text
  | _, [] => []
  | maxBytes, c :: t =>
    if c.utf8Size ≤ maxBytes then c :: truncate (maxBytes - c.utf8Size) t else []

/-- Whether `needle` occurs somewhere in `bytes`, compared byte by byte with `same`. -/
def occursBy (same : UInt8 → UInt8 → Bool) (needle : Bytes) : Bytes → Bool
  | [] => needle.isEmpty
  | b :: bytes => startsBy needle (b :: bytes) || occursBy same needle bytes
where
  startsBy : Bytes → Bytes → Bool
    | [], _ => true
    | _ :: _, [] => false
    | n :: needle, b :: bytes => same n b && startsBy needle bytes

/-- `u8::to_ascii_lowercase`. -/
def asciiLower (b : UInt8) : UInt8 := if 65 ≤ b && b ≤ 90 then b + 32 else b

theorem utf8_injective : Function.Injective utf8 := by
  intro s t h
  have hb : List.utf8Encode s = List.utf8Encode t := congrArg List.toByteArray h
  exact String.ofList_injective (String.toByteArray_inj.mp hb)

/-! ### Lengths -/

theorem length_utf8 (t : Text) : t.utf8.length = t.byteLength := by
  simp [utf8, byteLength]

@[simp] theorem byteLength_cons (c : Char) (t : Text) :
    byteLength (c :: t) = c.utf8Size + byteLength t := by
  simp [byteLength]

/-! ### Trimming -/

theorem trim_sublist (t : Text) : List.Sublist (trim t) t :=
  ( List.rdropWhile_prefix _ _).sublist.trans (List.dropWhile_sublist _)

/-- A text that ends and starts without whitespace is its own trimming. -/
theorem trim_trim (t : Text) : trim (trim t) = trim t := by
  set s := t.dropWhile isWhitespace with hs
  have hf : (s.rdropWhile isWhitespace).dropWhile isWhitespace = s.rdropWhile isWhitespace := by
    cases hr : s.rdropWhile isWhitespace with
    | nil => rfl
    | cons c r =>
      have hfr := List.rdropWhile_prefix isWhitespace s
      rw [hr] at hfr
      obtain ⟨rest, hrs⟩ := hfr
      have hhd : isWhitespace c = false := by
        have hdr := List.head?_dropWhile_not isWhitespace t
        rw [← hs, ← hrs] at hdr
        simpa using hdr
      rw [List.dropWhile_cons, hhd]
      rfl
  unfold trim
  rw [← hs, hf, List.rdropWhile_idempotent]

/-! ### Truncation -/

theorem truncate_isPrefix (maxBytes : ℕ) (t : Text) : List.IsPrefix (truncate maxBytes t) t := by
  induction t generalizing maxBytes with
  | nil => exact List.nil_prefix
  | cons c t ih =>
    unfold truncate
    split_ifs with h
    · exact (List.prefix_cons_inj c).mpr (ih _)
    · exact List.nil_prefix

theorem byteLength_truncate_le (maxBytes : ℕ) (t : Text) :
    byteLength (truncate maxBytes t) ≤ maxBytes := by
  induction t generalizing maxBytes with
  | nil => exact Nat.zero_le _
  | cons c t ih =>
    unfold truncate
    split_ifs with h
    · have hrs := ih (maxBytes - c.utf8Size)
      rw [byteLength_cons]
      omega
    · exact Nat.zero_le _

/-- Four bytes are enough for the first character. -/
theorem truncate_ne_nil {maxBytes : ℕ} {t : Text} (hmax : 4 ≤ maxBytes) (ht : t ≠ []) :
    truncate maxBytes t ≠ [] := by
  cases t with
  | nil => exact absurd rfl ht
  | cons c t =>
    unfold truncate
    rw [if_pos ((Char.utf8Size_le_four c).trans hmax)]
    exact List.cons_ne_nil _ _

end Text

end TokenMaster
