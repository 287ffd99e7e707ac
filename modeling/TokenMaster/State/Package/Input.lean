import TokenMaster.Lib.Source
import TokenMaster.State.Package.Format

/-!
# TokenMaster.State.Package.Input — the buffered, hashed and counted input of the package reader

`PackageInput` of `crates/state/src/package/reader.rs`.  Bytes are taken from a buffer of 64 KiB, and
the buffer is refilled from the source only when it is used up.  `read_exact_internal` copies as much
as is buffered at a time; here a byte is taken at a time, with a refill in front of it if the buffer
is used up.

On a source that does not fail, the input is at an offset of the stream (`PackageInput.At`), and what
is buffered there ends where the last read has ended.
-/

namespace TokenMaster.State

open List

/-- The kinds that `map_source_error` tells apart. -/
inductive IoErrorKind where
  | invalidData
  | unexpectedEof
  | outOfMemory
  | other

def mapSourceError : IoErrorKind → StateErrorCode
  | .invalidData => .integrity
  | .unexpectedEof => .integrity
  | .outOfMemory => .capacityExceeded
  | .other => .unavailable

/-- `buffered` is the buffer from `position` to `available`; the hashers are what they were fed, and
`fileHashed` is everything that was consumed. -/
structure PackageInput where
  source : Source IoErrorKind
  buffered : Bytes
  hashed : Bytes
  fileHashed : Bytes

namespace PackageInput

def new (source : Source IoErrorKind) : PackageInput := ⟨source, [], [], []⟩

def consumed (input : PackageInput) : ℕ := input.fileHashed.length

/-- What a refill asks for. -/
def request (consumed : ℕ) : ℕ := min (maxEncodedPackageBytes - consumed) packageIoBufferBytes

/-- `refill`, with the errors that `peek` makes of its failures. -/
def refill (input : PackageInput) : Except StateErrorCode PackageInput :=
  if input.buffered = [] then
    if maxEncodedPackageBytes ≤ input.consumed then .error .capacityExceeded
    else match input.source.read (request input.consumed) with
      | .error kind => .error (mapSourceError kind)
      | .ok (bytes, source) => .ok { input with buffered := bytes, source := source }
  else .ok input

def readByte (isHashed : Bool) (input : PackageInput) :
    Except StateErrorCode (UInt8 × PackageInput) := do
  let input ← input.refill
  match input.buffered with
  | [] => .error .integrity
  | byte :: buffered => .ok (byte,
      { input with
        buffered := buffered
        hashed := if isHashed then input.hashed ++ [byte] else input.hashed
        fileHashed := input.fileHashed ++ [byte] })

def readExact (isHashed : Bool) : ℕ → PackageInput → Except StateErrorCode (Bytes × PackageInput)
  | 0, input => .ok ([], input)
  | count + 1, input => do
    let (byte, input) ← input.readByte isHashed
    let (bytes, input) ← readExact isHashed count input
    .ok (byte :: bytes, input)

/-- Everything that can still be read, and why not more. -/
def drain : ℕ → PackageInput → Bytes × StateErrorCode
  | 0, _ => ([], .internalInvariant)
  | fuel + 1, input =>
    match input.readByte true with
    | .error error => ([], error)
    | .ok (byte, input) => (byte :: (drain fuel input).1, (drain fuel input).2)

def available (input : PackageInput) : Bytes × StateErrorCode :=
  drain (input.buffered.length + input.source.rest.length + 1) input

def hasTrailing (input : PackageInput) : Except StateErrorCode Bool :=
  if input.buffered ≠ [] then .ok true
  else match input.source.read 1 with
    | .error kind => .error (mapSourceError kind)
    | .ok (bytes, _) => .ok (bytes ≠ [])

/-! ### Offsets -/

/-- Where the reads of a package end. -/
def readEnd (splits : ℕ → ℕ) (total : ℕ) : ℕ → ℕ := Source.readEnd splits request total

/-- The input is at an offset of the stream, and the last read was made for that offset. -/
structure At (bytes : Bytes) (splits : ℕ → ℕ) (offset : ℕ) (input : PackageInput) : Prop where
  fileHashed : input.fileHashed = bytes.take offset
  offset_le : offset ≤ readEnd splits bytes.length input.source.reads
  outcome : input.source.outcome = fun i => .ok (splits i)
  rest : input.source.rest = bytes.drop (readEnd splits bytes.length input.source.reads)
  buffered : input.buffered =
    (bytes.take (readEnd splits bytes.length input.source.reads)).drop offset
  earlier : ∀ i < input.source.reads, readEnd splits bytes.length i ≤ offset

section Spec

variable {bytes : Bytes} {splits : ℕ → ℕ} {offset count : ℕ} {input input' : PackageInput}

theorem at_new : At bytes splits 0 (new (.split bytes splits)) := by
  refine ⟨?_, le_refl _, rfl, ?_, ?_, ?_⟩
  · exact (take_zero).symm
  · exact (drop_zero).symm
  · rfl
  · intro i hi
    exact absurd hi (Nat.not_lt_zero i)

theorem readEnd_le (i : ℕ) : readEnd splits bytes.length i ≤ bytes.length := Source.readEnd_le i

theorem At.offset_le_length (h : At bytes splits offset input) : offset ≤ bytes.length :=
  h.offset_le.trans (readEnd_le _)

theorem At.consumed (h : At bytes splits offset input) : input.consumed = offset := by
  rw [PackageInput.consumed, h.fileHashed, length_take, Nat.min_eq_left h.offset_le_length]

/-- The buffer is used up exactly when the last read has ended here. -/
theorem At.buffered_eq_nil (h : At bytes splits offset input) :
    input.buffered = [] ↔ readEnd splits bytes.length input.source.reads = offset := by
  have hle := @readEnd_le bytes splits input.source.reads
  have hoff := h.offset_le
  rw [h.buffered, drop_eq_nil_iff, length_take]
  omega

/-- The offset where the input ends: at the end of the stream, or at the limit for packages. -/
def streamEnd (bytes : Bytes) : ℕ := min bytes.length maxEncodedPackageBytes

/-- What reading on reports there. -/
def endError (bytes : Bytes) : StateErrorCode :=
  if maxEncodedPackageBytes ≤ bytes.length then .capacityExceeded else .integrity

theorem readEnd_le_streamEnd (i : ℕ) : readEnd splits bytes.length i ≤ streamEnd bytes := by
  refine le_min (readEnd_le i) ?_
  induction i with
  | zero => exact Nat.zero_le _
  | succ i ih =>
    rw [readEnd] at ih ⊢
    rw [Source.readEnd, request]
    omega

/-- No read ends strictly inside the `length` bytes at `offset`. -/
def Unsplit (splits : ℕ → ℕ) (total offset length : ℕ) : Prop :=
  ∀ i, ¬ (offset < readEnd splits total i ∧ readEnd splits total i < offset + length)

theorem unsplit_of_one_read {splits : ℕ → ℕ} {total offset length : ℕ}
    (h : readEnd splits total 1 = total) (hle : offset + length ≤ total) :
    Unsplit splits total offset length := by
  rintro i ⟨hst, hend⟩
  cases i with
  | zero => exact absurd hst (Nat.not_lt_zero _)
  | succ i =>
    have hmono : readEnd splits total 1 ≤ readEnd splits total (i + 1) :=
      Source.readEnd_mono (by omega)
    omega

section At

variable (h : At bytes splits offset input)

include h

theorem At.offset_le_streamEnd : offset ≤ streamEnd bytes :=
  h.offset_le.trans (readEnd_le_streamEnd _)

/-- A refill below the limit. -/
theorem At.refill (hmax : offset < maxEncodedPackageBytes) :
    ∃ input', input.refill = .ok input' ∧ At bytes splits offset input' ∧
      input'.hashed = input.hashed ∧
      (offset < bytes.length → offset < readEnd splits bytes.length input'.source.reads) := by
  by_cases hemp : input.buffered = []
  · have hend := h.buffered_eq_nil.mp hemp
    have hout : input.source.outcome input.source.reads = .ok (splits input.source.reads) := by
      rw [h.outcome]
    have hnx : readEnd splits bytes.length (input.source.reads + 1) =
        offset + min (min (splits input.source.reads + 1) (request offset))
          (bytes.length - offset) := by
      rw [readEnd, Source.readEnd]
      rw [readEnd] at hend
      rw [hend]
    have hrequ : 0 < request offset := by
      rw [request, packageIoBufferBytes]
      omega
    rw [PackageInput.refill, if_pos hemp, h.consumed, if_neg (not_le.mpr hmax),
      Source.read_of_outcome hout]
    refine ⟨_, rfl, ⟨h.fileHashed, ?_, h.outcome, ?_, ?_, ?_⟩, rfl, ?_⟩
    · show offset ≤ readEnd splits bytes.length (input.source.reads + 1)
      omega
    · show input.source.rest.drop _ = bytes.drop (readEnd splits bytes.length (input.source.reads + 1))
      rw [h.rest, hend, drop_drop, hnx]
      rcases Nat.le_total (min (splits input.source.reads + 1) (request offset))
        (bytes.length - offset) with hle | hle
      · rw [Nat.min_eq_left hle]
      · rw [Nat.min_eq_right hle, drop_eq_nil_of_le (by omega), drop_eq_nil_of_le (by omega)]
    · show input.source.rest.take _ =
        (bytes.take (readEnd splits bytes.length (input.source.reads + 1))).drop offset
      rw [h.rest, hend, hnx, drop_take, Nat.add_sub_cancel_left]
      rcases Nat.le_total (min (splits input.source.reads + 1) (request offset))
        (bytes.length - offset) with hle | hle
      · rw [Nat.min_eq_left hle]
      · rw [Nat.min_eq_right hle, take_of_length_le (by rw [length_drop]; omega),
          take_of_length_le (by rw [length_drop])]
    · intro i hi
      rcases Nat.lt_succ_iff_lt_or_eq.mp hi with hlt | heq
      · exact h.earlier i hlt
      · rw [heq, hend]
    · intro hmo
      show offset < readEnd splits bytes.length (input.source.reads + 1)
      omega
  · rw [PackageInput.refill, if_neg hemp]
    have hne := mt h.buffered_eq_nil.mpr hemp
    exact ⟨input, rfl, h, rfl, fun _ => lt_of_le_of_ne h.offset_le (Ne.symm hne)⟩

theorem At.refill_limit (hmax : maxEncodedPackageBytes ≤ offset) :
    input.refill = .error .capacityExceeded := by
  have hle := @readEnd_le_streamEnd bytes splits input.source.reads
  have hoff := h.offset_le
  have hemp : input.buffered = [] := by
    rw [h.buffered_eq_nil]
    rw [streamEnd] at hle
    omega
  rw [PackageInput.refill, if_pos hemp, h.consumed, if_pos hmax]

end At

/-- The input is at an offset with `ahead` before it, and `fed` went to the package digest. -/
structure Facing (bytes : Bytes) (splits : ℕ → ℕ) (offset : ℕ) (fed ahead : Bytes)
    (input : PackageInput) : Prop extends At bytes splits offset input where
  drop : bytes.drop offset = ahead
  hashed : input.hashed = fed

variable {fed rest chunk : Bytes}

theorem Facing.length_eq (h : Facing bytes splits offset fed rest input) :
    offset + rest.length = bytes.length := by
  have hle := h.offset_le_length
  rw [← h.drop, length_drop]
  omega

/-- A byte in front of the end. -/
theorem Facing.readByte (isHashed : Bool) {byte : UInt8}
    (h : Facing bytes splits offset fed (byte :: rest) input) (hmo : offset < streamEnd bytes) :
    ∃ input', input.readByte isHashed = .ok (byte, input') ∧
      Facing bytes splits (offset + 1) (if isHashed then fed ++ [byte] else fed) rest input' := by
  obtain ⟨hlen, hmax⟩ := lt_min_iff.mp hmo
  obtain ⟨filled, hfill, hat, hhs, hend⟩ := h.refill hmax
  have hend := hend hlen
  have hdr : bytes.drop (offset + 1) = rest := by
    rw [← drop_drop, h.drop]
    rfl
  have hbuff : filled.buffered = byte ::
      (bytes.take (readEnd splits bytes.length filled.source.reads)).drop (offset + 1) := by
    have hct : readEnd splits bytes.length filled.source.reads - offset =
        readEnd splits bytes.length filled.source.reads - (offset + 1) + 1 := by omega
    rw [hat.buffered, drop_take, drop_take, h.drop, hdr, hct, take_succ_cons]
  refine ⟨⟨filled.source,
    (bytes.take (readEnd splits bytes.length filled.source.reads)).drop (offset + 1),
    if isHashed then filled.hashed ++ [byte] else filled.hashed, filled.fileHashed ++ [byte]⟩,
    Except.bind_eq_ok.mpr ⟨filled, hfill, ?_⟩, ⟨?_, hend, hat.outcome, hat.rest, rfl, ?_⟩, hdr, ?_⟩
  · rw [hbuff]
  · show filled.fileHashed ++ [byte] = bytes.take (offset + 1)
    rw [hat.fileHashed, take_add, h.drop]
    rfl
  · intro i hi
    exact (hat.earlier i hi).trans (Nat.le_succ _)
  · show (if isHashed then filled.hashed ++ [byte] else filled.hashed) = _
    rw [hhs, h.hashed]

theorem At.readByte_end (h : At bytes splits offset input) (isHashed : Bool)
    (hend : offset = streamEnd bytes) : input.readByte isHashed = .error (endError bytes) := by
  have hle := h.offset_le_length
  by_cases hmax : offset < maxEncodedPackageBytes
  · obtain ⟨filled, hfill, hat, _, _⟩ := h.refill hmax
    have hlength : offset = bytes.length := by
      rw [streamEnd] at hend
      omega
    have hemp : filled.buffered = [] := by
      rw [hat.buffered, drop_eq_nil_iff, length_take]
      omega
    rw [PackageInput.readByte, hfill]
    show (match filled.buffered with
      | [] => _
      | byte :: buf => _) = _
    rw [hemp, endError, if_neg (by omega)]
  · have hlim := h.refill_limit (not_lt.mp hmax)
    rw [PackageInput.readByte, hlim, endError, if_pos (by omega)]
    rfl

/-- There is a byte in front of the end, or the end is reached. -/
theorem Facing.cases (h : Facing bytes splits offset fed rest input) :
    (offset < streamEnd bytes ∧ ∃ byte after, rest = byte :: after) ∨ offset = streamEnd bytes := by
  have hlength := h.length_eq
  have hle : streamEnd bytes ≤ bytes.length := min_le_left _ _
  rcases lt_or_eq_of_le h.offset_le_streamEnd with hlt | heq
  · refine .inl ⟨hlt, exists_cons_of_length_pos ?_⟩
    omega
  · exact .inr heq

theorem Facing.readExact (isHashed : Bool)
    (h : Facing bytes splits offset fed (chunk ++ rest) input)
    (hmo : offset + chunk.length ≤ streamEnd bytes) :
    ∃ input', input.readExact isHashed chunk.length = .ok (chunk, input') ∧
      Facing bytes splits (offset + chunk.length) (if isHashed then fed ++ chunk else fed) rest
        input' := by
  induction chunk generalizing offset fed input with
  | nil => exact ⟨input, rfl, by simpa using h⟩
  | cons byte chunk ih =>
    rw [length_cons] at hmo
    obtain ⟨next, hrd, hnx⟩ := h.readByte isHashed (by omega)
    obtain ⟨input', hrs, hin⟩ := ih hnx (by omega)
    refine ⟨input', Except.bind_eq_ok.mpr ⟨_, hrd, Except.bind_eq_ok.mpr ⟨_, hrs, rfl⟩⟩, ?_⟩
    rw [length_cons, Nat.add_comm chunk.length, ← Nat.add_assoc]
    cases isHashed <;> simpa using hin

section Facing

variable (h : Facing bytes splits offset fed rest input)

include h

theorem Facing.drain {fuel : ℕ} (hfuel : streamEnd bytes - offset < fuel) :
    input.drain fuel = (rest.take (streamEnd bytes - offset), endError bytes) := by
  induction fuel generalizing offset fed rest input with
  | zero => exact absurd hfuel (Nat.not_lt_zero _)
  | succ fuel ih =>
    rcases h.cases with ⟨hlt, byte, after, rfl⟩ | heq
    · obtain ⟨next, hrd, hnx⟩ := h.readByte true hlt
      have hct : streamEnd bytes - offset = (streamEnd bytes - (offset + 1)) + 1 := by omega
      rw [PackageInput.drain, hrd]
      simp only
      rw [ih hnx (by omega), hct, take_succ_cons]
    · rw [PackageInput.drain, h.readByte_end true heq]
      rw [heq, Nat.sub_self, take_zero]

theorem Facing.available :
    input.available = (rest.take (streamEnd bytes - offset), endError bytes) := by
  refine h.drain ?_
  have hoff := h.offset_le
  have hlength : input.buffered.length + input.source.rest.length = bytes.length - offset := by
    rw [h.buffered, h.rest, length_drop, length_take, length_drop]
    omega
  have hend : streamEnd bytes ≤ bytes.length := min_le_left _ _
  omega

theorem Facing.hasTrailing : input.hasTrailing = .ok (decide (rest ≠ [])) := by
  rw [PackageInput.hasTrailing]
  by_cases hemp : input.buffered = []
  · have hend := h.buffered_eq_nil.mp hemp
    have hout : input.source.outcome input.source.reads = .ok (splits input.source.reads) := by
      rw [h.outcome]
    rw [if_neg (not_not.mpr hemp), Source.read_of_outcome hout, h.rest, hend, h.drop,
      Nat.min_eq_right (by omega)]
    simp
  · have hne := mt h.buffered_eq_nil.mpr hemp
    have hle := @readEnd_le bytes splits input.source.reads
    have hoff := h.offset_le
    have hlength := h.length_eq
    rw [if_pos hemp, decide_eq_true (ne_nil_of_length_pos (by omega))]

/-- What a look-ahead shows: everything up to the end of the read that brings the next byte. -/
theorem Facing.lookAhead (hmo : offset < streamEnd bytes) :
    ∃ input' visible, input.refill = .ok input' ∧ Facing bytes splits offset fed rest input' ∧
      input'.buffered = rest.take visible ∧
      ∀ length, Unsplit splits bytes.length offset length ↔ length ≤ visible := by
  obtain ⟨hlen, hmax⟩ := lt_min_iff.mp hmo
  obtain ⟨filled, hfill, hat, hhs, hend⟩ := h.refill hmax
  refine ⟨filled, readEnd splits bytes.length filled.source.reads - offset, hfill,
    ⟨hat, h.drop, hhs.trans h.hashed⟩, ?_, ?_⟩
  · rw [hat.buffered, drop_take, h.drop]
  · intro length
    constructor
    · intro hunsp
      have hinside := hunsp filled.source.reads
      omega
    · intro hvisi i
      rcases Nat.lt_or_ge i filled.source.reads with hi | hi
      · have hearl := hat.earlier i hi
        omega
      · have hlat : readEnd splits bytes.length filled.source.reads ≤
            readEnd splits bytes.length i := Source.readEnd_mono hi
        omega

end Facing

end Spec

end PackageInput

end TokenMaster.State
