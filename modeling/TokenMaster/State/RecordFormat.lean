import TokenMaster.Lib.Layout
import TokenMaster.State.Record

/-!
# TokenMaster.State.RecordFormat — the bytes of a record

`encode_header`, the writer and `decode_record` of `crates/state/src/record.rs`.  What is accepted is
byte for byte what the writer makes of the decoded generation and payload (`decode_eq_some`); the
rest follows from that and from the digest at the end.
-/

namespace TokenMaster.State

open TokenMaster.Except List

def recordMagic : Bytes := ascii "TMREC001"
def recordFooterMagic : Bytes := ascii "TMEND001"
def recordFormatVersion : ℕ := 1
def recordHeaderBytes : ℕ := 64
def recordFooterBytes : ℕ := 40

/-- `max_payload_bytes`, as `RecordStore::new` bounds it. -/
abbrev PayloadLimit : Type := Fin (maxRecordPayloadBytes + 1)

/-! ### Writing -/

def headerFields (generation payloadLen : ℕ) (payloadSha256 : Bytes32) : List Bytes :=
  [recordMagic, leBytes 2 recordFormatVersion, leBytes 2 recordHeaderBytes, leBytes 4 0,
    leBytes 8 generation, leBytes 8 payloadLen, payloadSha256.asBytes]

def encodeHeader (generation payloadLen : ℕ) (payloadSha256 : Bytes32) :
    Except StateErrorCode Bytes := do
  Except.require .internalInvariant (generation ≠ 0)
  return (headerFields generation payloadLen payloadSha256).flatten

section Format

variable (sha256 : Bytes → Bytes32) (limit : PayloadLimit)

/-- The file that `save_with_policy` stages for a payload: `measure_json` holds it to the limit. -/
def encodeRecord (generation : Generation) (payload : Bytes) : Except StateErrorCode Bytes := do
  Except.require .capacityExceeded (payload.length ≤ limit)
  let header ← encodeHeader generation.val payload.length (sha256 payload)
  return header ++ payload ++ recordFooterMagic ++
    (sha256 (header ++ payload ++ recordFooterMagic)).asBytes

/-! ### Reading -/

/-- The generation of a header; zero is refused. -/
def Generation.ofNat? (n : ℕ) : Option Generation :=
  if h : 0 < n ∧ n < 2 ^ 64 then some ⟨n, h⟩ else none

/-- Offsets 0, 8, 10, 12, 16, 24, 32 and 64; then the footer. -/
def recordWidths (payloadLen : ℕ) : List ℕ := [8, 2, 2, 4, 8, 8, 32, payloadLen, 8, 32]

/-- `read_u64(bytes, 24)`. -/
def storedPayloadLen (bytes : Bytes) : ℕ := leNat ((bytes.drop 24).take 8)

/-- Every failed check rejects in the same way. -/
def decodeRecordPayload (bytes : Bytes) : Option (Generation × Bytes32 × Bytes) :=
  match cut (recordWidths (storedPayloadLen bytes)) bytes with
  | [magic, version, headerLen, reserved, generation, payloadLen, digest, payload, footer,
      recordDigest] =>
    if recordHeaderBytes + recordFooterBytes ≤ bytes.length ∧ magic = recordMagic ∧
        leNat version = recordFormatVersion ∧ leNat headerLen = recordHeaderBytes ∧
        leNat reserved = 0 ∧ leNat payloadLen ≤ limit ∧
        bytes.length = recordHeaderBytes + leNat payloadLen + recordFooterBytes ∧
        footer = recordFooterMagic ∧ digest = (sha256 payload).asBytes ∧
        recordDigest = (sha256 (bytes.take (recordHeaderBytes + leNat payloadLen + 8))).asBytes then
      (Generation.ofNat? (leNat generation)).map fun generation =>
        (generation, sha256 payload, payload)
    else none
  | _ => none

/-- `RecordValueError`. -/
inductive RecordValueError where
  | invalid
  | unsupportedVersion

variable {T : Type} (decodeJson : Bytes → Except RecordValueError T)

def decodeRecord (bytes : Bytes) : Except StateErrorCode (Option (DecodedRecord T Bytes32)) :=
  match decodeRecordPayload sha256 limit bytes with
  | none => .ok none
  | some (generation, payloadSha256, payload) =>
    match decodeJson payload with
    | .ok value => .ok (some ⟨generation, payloadSha256, value⟩)
    | .error .invalid => .ok none
    | .error .unsupportedVersion => .error .unsupportedVersion

/-! ### Canonicity -/

variable {sha256 limit decodeJson} {bytes bytes' payload : Bytes} {g : Generation} {d : Bytes32}

def recordFields (sha256 : Bytes → Bytes32) (g : Generation) (payload : Bytes) : List Bytes :=
  headerFields g.val payload.length (sha256 payload) ++ [payload, recordFooterMagic]

/-- The writer as fields; the digest is over all but itself. -/
theorem encodeRecord_eq_ok : encodeRecord sha256 limit g payload = .ok bytes ↔
    payload.length ≤ limit ∧ bytes = (recordFields sha256 g payload ++
      [(sha256 (recordFields sha256 g payload).flatten).asBytes]).flatten := by
  have hg : g.val ≠ 0 := Nat.pos_iff_ne_zero.mp g.2.1
  have hfl : (recordFields sha256 g payload).flatten =
      (headerFields g.val payload.length (sha256 payload)).flatten ++ payload ++
        recordFooterMagic := by
    simp [recordFields]
  rw [encodeRecord, encodeHeader, require_bind, require_pos hg, flatten_append, hfl]
  refine and_congr_right fun _ => ?_
  constructor
  · rintro ⟨⟩
    simp
  · rintro rfl
    simp [pure, Except.pure, bind, Except.bind]

theorem recordFields_lengths (sha256 : Bytes → Bytes32) (g : Generation) (payload : Bytes)
    (d : Bytes32) : (recordFields sha256 g payload ++ [d.asBytes]).map List.length =
      recordWidths payload.length := by
  simp [recordFields, headerFields, recordWidths, recordMagic, recordFooterMagic, ascii]

/-- The digest is over what stands before it. -/
theorem take_recordFields (sha256 : Bytes → Bytes32) (g : Generation) (payload : Bytes)
    (d : Bytes32) : (recordFields sha256 g payload ++ [d.asBytes]).flatten.take
      (recordHeaderBytes + payload.length + 8) = (recordFields sha256 g payload).flatten := by
  have hlen : (recordFields sha256 g payload).flatten.length =
      recordHeaderBytes + payload.length + 8 := by
    simp [recordFields, headerFields, recordMagic, recordFooterMagic, ascii, recordHeaderBytes]
    omega
  rw [flatten_append, ← hlen, take_left]

theorem cut_payloadLen (n : ℕ) (bytes : Bytes) :
    (cut (recordWidths n) bytes)[5]? = some ((bytes.drop 24).take 8) := by
  simp [recordWidths, cut]

theorem leNat_payloadLen (h : payload.length ≤ limit) :
    leNat (leBytes 8 payload.length) = payload.length := by
  have hlim := limit.2
  exact leNat_leBytes (by simp only [maxRecordPayloadBytes] at hlim; omega)

theorem ofNat?_eq_some {n : ℕ} : Generation.ofNat? n = some g ↔ n = g.val := by
  unfold Generation.ofNat?
  constructor
  · intro h
    split_ifs at h
    cases h
    rfl
  · rintro rfl
    rw [dif_pos g.2]
    rfl

/-- The parts of a written record, where the reader looks for them. -/
theorem encoded_parts (h : encodeRecord sha256 limit g payload = .ok bytes) :
    ∃ d, cut (recordWidths payload.length) bytes = recordFields sha256 g payload ++ [d.asBytes] ∧
      storedPayloadLen bytes = payload.length ∧
      bytes.length = recordHeaderBytes + payload.length + recordFooterBytes ∧
      d = sha256 (bytes.take (recordHeaderBytes + payload.length + 8)) := by
  obtain ⟨hle, rfl⟩ := encodeRecord_eq_ok.mp h
  have hfs := recordFields_lengths sha256 g payload (sha256 (recordFields sha256 g payload).flatten)
  have hcut := cut_flatten (recordFields sha256 g payload ++
    [(sha256 (recordFields sha256 g payload).flatten).asBytes])
  rw [hfs] at hcut
  refine ⟨_, hcut, ?_, ?_, by rw [take_recordFields]⟩
  · exact leNat_payloadLen hle
  · rw [length_flatten, hfs]
    simp [recordWidths, recordHeaderBytes, recordFooterBytes]
    omega

theorem decodeRecordPayload_encode (h : encodeRecord sha256 limit g payload = .ok bytes) :
    decodeRecordPayload sha256 limit bytes = some (g, sha256 payload, payload) := by
  obtain ⟨hle, -⟩ := encodeRecord_eq_ok.mp h
  obtain ⟨d, hcut, hpl, hlen, hd⟩ := encoded_parts h
  have hg : Generation.ofNat? (leNat (leBytes 8 g.val)) = some g := by
    rw [leNat_leBytes g.2.2, ofNat?_eq_some]
  rw [decodeRecordPayload, hpl, hcut]
  refine (if_pos ?_).trans (by rw [hg]; rfl)
  rw [leNat_payloadLen hle, hlen]
  exact ⟨by omega, rfl, by decide, by decide, by decide, hle, rfl, rfl, rfl, congrArg _ hd⟩

theorem encode_of_decodeRecordPayload
    (h : decodeRecordPayload sha256 limit bytes = some (g, d, payload)) :
    encodeRecord sha256 limit g payload = .ok bytes ∧ d = sha256 payload := by
  obtain ⟨f₀, f₁, f₂, f₃, f₄, f₅, f₆, f₇, f₈, f₉, hcut⟩ : ∃ f₀ f₁ f₂ f₃ f₄ f₅ f₆ f₇ f₈ f₉,
      cut (recordWidths (storedPayloadLen bytes)) bytes =
        [f₀, f₁, f₂, f₃, f₄, f₅, f₆, f₇, f₈, f₉] := ⟨_, _, _, _, _, _, _, _, _, _, rfl⟩
  have hn : leNat f₅ = storedPayloadLen bytes := by
    have hfive := cut_payloadLen (storedPayloadLen bytes) bytes
    rw [hcut] at hfive
    exact congrArg leNat (Option.some.inj hfive)
  rw [decodeRecordPayload, hcut] at h
  dsimp only at h
  split_ifs at h with hc
  obtain ⟨-, rfl, hver, hhdr, hres, hle, hlen, rfl, rfl, rfl⟩ := hc
  obtain ⟨g', hg, heq⟩ := Option.map_eq_some_iff.mp h
  cases heq
  have hsum : bytes.length = (recordWidths (storedPayloadLen bytes)).sum := by
    rw [hlen, hn]
    simp [recordWidths, recordHeaderBytes, recordFooterBytes]
    omega
  have hjn := flatten_cut hsum
  have hlens := cut_lengths hsum
  rw [hcut] at hjn hlens
  simp only [map_cons, map_nil, recordWidths, List.cons.injEq, and_true] at hlens
  obtain ⟨-, h₁, h₂, h₃, h₄, h₅, -, h₇, -⟩ := hlens
  rw [h₇.symm] at hn
  have hfs : [recordMagic, f₁, f₂, f₃, f₄, f₅, (sha256 payload).asBytes, payload,
      recordFooterMagic] = recordFields sha256 g payload := by
    rw [eq_leBytes h₁ hver, eq_leBytes h₂ hhdr, eq_leBytes h₃ hres,
      eq_leBytes h₄ (ofNat?_eq_some.mp hg), eq_leBytes h₅ hn]
    rfl
  have hjn : (recordFields sha256 g payload ++ [(sha256 (bytes.take
      (recordHeaderBytes + leNat f₅ + 8))).asBytes]).flatten = bytes := by
    rw [← hfs]
    exact hjn
  have htk := take_recordFields sha256 g payload
    (sha256 (bytes.take (recordHeaderBytes + leNat f₅ + 8)))
  rw [hjn, ← hn] at htk
  rw [htk] at hjn
  exact ⟨encodeRecord_eq_ok.mpr ⟨by omega, hjn.symm⟩, rfl⟩

theorem decode_eq_some : decodeRecordPayload sha256 limit bytes = some (g, d, payload) ↔
    encodeRecord sha256 limit g payload = .ok bytes ∧ d = sha256 payload := by
  constructor
  · exact encode_of_decodeRecordPayload
  · rintro ⟨h, rfl⟩
    exact decodeRecordPayload_encode h

/-! ### Altered records -/

def hashedPart (bytes : Bytes) : Bytes := bytes.take (bytes.length - 32)

def storedDigest (bytes : Bytes) : Bytes := bytes.drop (bytes.length - 32)

/-- What an accepted string says about itself: its length, and the digest of all but the end. -/
theorem accepted_spec (h : decodeRecordPayload sha256 limit bytes ≠ none) :
    bytes.length = recordHeaderBytes + storedPayloadLen bytes + recordFooterBytes ∧
      storedDigest bytes = (sha256 (hashedPart bytes)).asBytes := by
  obtain ⟨⟨g, d, payload⟩, h⟩ := Option.ne_none_iff_exists'.mp h
  obtain ⟨h, -⟩ := decode_eq_some.mp h
  obtain ⟨-, -, hpl, hlen, -⟩ := encoded_parts h
  refine ⟨by rw [hpl, hlen], ?_⟩
  obtain ⟨-, rfl⟩ := encodeRecord_eq_ok.mp h
  simp [storedDigest, hashedPart]

theorem storedPayloadLen_append (h : 32 ≤ bytes.length) (t : Bytes) :
    storedPayloadLen (bytes ++ t) = storedPayloadLen bytes := by
  rw [storedPayloadLen, drop_append_of_le_length (by omega),
    take_append_of_le_length (by rw [length_drop]; omega)]
  rfl

/-- A record is not continued by another one. -/
theorem accepted_append {t : Bytes} (h : decodeRecordPayload sha256 limit bytes ≠ none)
    (ht : decodeRecordPayload sha256 limit (bytes ++ t) ≠ none) : t = [] := by
  have hlen := (accepted_spec h).1
  have hall := (accepted_spec ht).1
  simp only [recordHeaderBytes, recordFooterBytes] at hlen hall
  rw [storedPayloadLen_append (by omega), length_append] at hall
  exact length_eq_zero_iff.mp (by omega)

theorem accepted_of_hashedPart (h : decodeRecordPayload sha256 limit bytes ≠ none)
    (h' : decodeRecordPayload sha256 limit bytes' ≠ none)
    (heq : hashedPart bytes = hashedPart bytes') : bytes = bytes' := by
  have hd : storedDigest bytes = storedDigest bytes' := by
    rw [(accepted_spec h).2, (accepted_spec h').2, heq]
  rw [← take_append_drop (bytes.length - 32) bytes, ← take_append_drop (bytes'.length - 32) bytes']
  exact congrArg₂ (· ++ ·) heq hd

theorem decodeRecord_eq_some {rcd : DecodedRecord T Bytes32} :
    decodeRecord sha256 limit decodeJson bytes = .ok (some rcd) ↔
      ∃ payload, encodeRecord sha256 limit rcd.generation payload = .ok bytes ∧
        rcd.payloadSha256 = sha256 payload ∧ decodeJson payload = .ok rcd.value := by
  simp only [decodeRecord]
  constructor
  · intro h
    split at h
    · cases h
    · rename_i g d payload hd
      split at h <;> cases h
      obtain ⟨henc, rfl⟩ := decode_eq_some.mp hd
      exact ⟨payload, henc, rfl, by assumption⟩
  · rintro ⟨payload, henc, hd, hv⟩
    rw [decodeRecordPayload_encode henc]
    dsimp only
    rw [hv, ← hd]

/-- The reader accepts exactly what the writer makes.  Another accepted string is no shorter or
longer version of a record, it differs before the digest, and keeping the digest takes a
collision. -/
theorem record_format_canonical (sha256 : Bytes → Bytes32) (limit : PayloadLimit)
    (decodeJson : Bytes → Except RecordValueError T) (bytes : Bytes) :
    (∀ g d payload, decodeRecordPayload sha256 limit bytes = some (g, d, payload) ↔
      encodeRecord sha256 limit g payload = .ok bytes ∧ d = sha256 payload) ∧
    (∀ record, decodeRecord sha256 limit decodeJson bytes = .ok (some record) ↔
      ∃ payload, encodeRecord sha256 limit record.generation payload = .ok bytes ∧
        record.payloadSha256 = sha256 payload ∧ decodeJson payload = .ok record.value) ∧
    ∀ altered, altered ≠ bytes → decodeRecordPayload sha256 limit bytes ≠ none →
      decodeRecordPayload sha256 limit altered ≠ none →
        ¬ altered <+: bytes ∧ ¬ bytes <+: altered ∧ hashedPart altered ≠ hashedPart bytes ∧
          (storedDigest altered = storedDigest bytes →
            sha256 (hashedPart altered) = sha256 (hashedPart bytes)) := by
  refine ⟨fun _ _ _ => decode_eq_some, fun _ => decodeRecord_eq_some, ?_⟩
  intro altered hne h h'
  refine ⟨?_, ?_, ?_, ?_⟩
  · rintro ⟨t, rfl⟩
    obtain rfl := accepted_append h' h
    exact hne (append_nil _).symm
  · rintro ⟨t, rfl⟩
    obtain rfl := accepted_append h h'
    exact hne (append_nil _)
  · intro heq
    exact hne (accepted_of_hashedPart h' h heq)
  · intro heq
    rw [(accepted_spec h').2, (accepted_spec h).2] at heq
    exact Bytes32.asBytes_injective heq

end Format

/-- With its digests made anew, an altered record is a record. -/
theorem record_altered_accepted :
    (do
      let one ← encodeRecord polynomialDigest 1 Generation.one [1]
      let two ← encodeRecord polynomialDigest 1 Generation.one [2]
      return (decide (one ≠ two), (decodeRecordPayload polynomialDigest 1 one).isSome,
        (decodeRecordPayload polynomialDigest 1 two).isSome)) =
        (.ok (true, true, true) : Except StateErrorCode _) ∧
      polynomialDigest [1] ≠ polynomialDigest [2] := by
  decide +kernel

end TokenMaster.State
