import TokenMaster.State.Package.Reader

/-!
# TokenMaster.State.Package.Image — what a package is

A package is given by its manifest and its entries (`PackageImage`); everything else in it is
determined: header, prefixes, suffixes and digests.  The reader accepts nothing else
(`readPackage_ok`), and it accepts such a package unless a read of the source ends inside the header
of a frame (`readPackage_image`): `decode_frame` looks at the header in what is buffered, and does not
wait for the rest.
-/

namespace TokenMaster.State

open PackageInput TokenMaster.Except List

/-! ### Frames -/

/-- The length of a frame header, as its descriptor gives it: magic and descriptor, a window byte
unless the frame is a single segment, the dictionary id and the content size. -/
def zstdHeaderLen (frame : Bytes) : ℕ :=
  let descriptor := (frame.getD 4 0).toNat
  let single := descriptor / 32 % 2
  5 + (1 - single) + [0, 1, 2, 4].getD (descriptor % 4) 0 + [single, 2, 4, 8].getD (descriptor / 64) 0

/-- A frame whose header is as the format requires: what is asked of the first bytes is answered
there, and the size is known as soon as the header is complete. -/
structure FrameHeader (zstd : Zstd) (frame : Bytes) (size : ℕ) : Prop where
  five_le : 5 ≤ zstdHeaderLen frame
  le_length : zstdHeaderLen frame ≤ frame.length
  magic : frame.take 4 = zstdMagic
  flags : FrameHeaderValid frame
  incomplete : ∀ rest n, n < zstdHeaderLen frame → zstd.contentSize ((frame ++ rest).take n) = none
  complete : ∀ rest n, zstdHeaderLen frame ≤ n →
    zstd.contentSize ((frame ++ rest).take n) = some (some size)

/-- The encoder and the decoder are inverse to each other, and frames are framed as required. -/
structure Zstd.Framed (zstd : Zstd) : Prop where
  header : ∀ compression data, data.length < 2 ^ 64 →
    FrameHeader zstd (zstd.encode compression data) data.length
  decode : ∀ compression data rest, data.length < 2 ^ 64 →
    zstd.decode (zstd.encode compression data ++ rest) =
      ⟨data, (zstd.encode compression data).length, .finished⟩

structure PackageEntry where
  kind : EntryKind
  compression : BackupCompression
  frame : Bytes
  output : Bytes

variable {entry : PackageEntry}

namespace PackageEntry

def limit : EntryKind → ℕ
  | .settings => maxSettingsPackageBytes
  | .database => maxDatabasePackageBytes

/-- The frame decodes to the output, and the output has an admissible length. -/
structure Valid (zstd : Zstd) (entry : PackageEntry) : Prop where
  output_ne : entry.output.length ≠ 0
  output_le : entry.output.length ≤ limit entry.kind
  frame_ne : entry.frame.length ≠ 0
  decodes : ∀ rest, zstd.decode (entry.frame ++ rest) = ⟨entry.output, entry.frame.length, .finished⟩

variable (sha256 : Bytes → Bytes32)

def opening (entry : PackageEntry) : EntryPrefix :=
  ⟨entry.kind, entry.compression, entry.output.length, sha256 entry.output⟩

def closing (entry : PackageEntry) : EntrySuffix := ⟨entry.frame.length, entry.output.length⟩

def bytes (entry : PackageEntry) : Bytes :=
  (entry.opening sha256).encode ++ (entry.frame ++ entry.closing.encode)

/-- What the descriptor digest covers. -/
def descriptor (entry : PackageEntry) : Bytes :=
  (entry.opening sha256).encode ++ entry.closing.encode

theorem length_bytes (entry : PackageEntry) :
    (entry.bytes sha256).length = entryPrefixBytes + (entry.frame.length + entrySuffixBytes) := by
  rw [bytes, length_append, length_append, EntryPrefix.length_encode, EntrySuffix.length_encode]

theorem limit_lt (kind : EntryKind) : limit kind < 2 ^ 64 := by cases kind <;> decide

theorem validateEntry_opening {zstd : Zstd} (h : entry.Valid zstd) :
    validateEntry (entry.opening sha256) = .ok () := by
  refine require_bind.mpr ⟨h.output_ne, require_pos ?_⟩
  have hle := h.output_le
  rw [opening]
  cases hkd : entry.kind <;> rw [hkd] at hle <;> exact hle

end PackageEntry

/-- The loop state with one more entry. -/
def EntryState.after (sha256 : Bytes → Bytes32) (state : EntryState) (entry : PackageEntry)
    (input : PackageInput) : EntryState where
  input := input
  descriptor := state.descriptor ++ entry.descriptor sha256
  settingsBytes :=
    if entry.kind = .settings then state.settingsBytes ++ entry.output else state.settingsBytes
  sink := if entry.kind = .settings then state.sink else state.sink ++ entry.output
  expandedTotal := state.expandedTotal + entry.output.length
  database := if entry.kind = .settings then state.database else some (entry.opening sha256)

variable {result : ParsedPackage × Bytes}

section Reading

variable {zstd : Zstd} {sha256 : Bytes → Bytes32} {bytes : Bytes} {splits : ℕ → ℕ} {offset : ℕ}

/-! ### One frame -/

/-- What is visible of a frame with a complete header passes the checks. -/
theorem validate_visible {frame rest : Bytes} {size n : ℕ} (h : FrameHeader zstd frame size)
    (hn : 5 ≤ n) : validateZstdFrameHeader ((frame ++ rest).take n) = .ok () := by
  have hfive : 5 ≤ frame.length := h.five_le.trans h.le_length
  have hget : ((frame ++ rest).take n).getD 4 0 = frame.getD 4 0 := by
    rw [getD_eq_getElem?_getD, getD_eq_getElem?_getD, List.getElem?_take,
      if_pos (by omega), List.getElem?_append_left (by omega)]
  refine require_bind.mpr ⟨⟨?_, ?_⟩, require_pos ?_⟩
  · rw [length_take, length_append]
    omega
  · rw [take_take, Nat.min_eq_left (by omega), take_append_of_le_length (by omega), h.magic]
  · unfold FrameHeaderValid
    rw [hget]
    exact h.flags

variable {input input' : PackageInput} {fed rest : Bytes}

/-- **A frame is decoded if its header is visible, and refused otherwise.** -/
theorem decodeFrame_eq (hat : Facing bytes splits offset fed (entry.frame ++ rest) input)
    (hfit : offset + entry.frame.length ≤ streamEnd bytes) (hv : entry.Valid zstd)
    (hhdr : FrameHeader zstd entry.frame entry.output.length) :
    (Unsplit splits bytes.length offset (zstdHeaderLen entry.frame) →
      ∃ input', decodeFrame zstd sha256 (entry.opening sha256) input = .ok (entry.output, input') ∧
        Facing bytes splits (offset + entry.frame.length) (fed ++ entry.frame) rest input') ∧
    (¬ Unsplit splits bytes.length offset (zstdHeaderLen entry.frame) →
      decodeFrame zstd sha256 (entry.opening sha256) input = .error .integrity) := by
  have hfive := hhdr.five_le
  have hle := hhdr.le_length
  obtain ⟨filled, visible, hfill, hfilled, hbuff, hunsp⟩ := hat.lookAhead (by omega)
  rw [hunsp]
  constructor
  · intro hvisi
    have hstream : filled.available.1 = entry.frame ++
        rest.take (streamEnd bytes - offset - entry.frame.length) := by
      rw [hfilled.available]
      rw [take_append, take_of_length_le (by omega)]
    obtain ⟨input', hrd, hat'⟩ := hfilled.readExact true hfit
    refine ⟨input', ?_, hat'⟩
    refine bind_eq_ok.mpr ⟨filled, hfill, ?_⟩
    refine bind_eq_ok.mpr ⟨(), ?_, ?_⟩
    · rw [hbuff]
      exact validate_visible hhdr (hfive.trans hvisi)
    refine bind_eq_ok.mpr ⟨some entry.output.length, ?_, ?_⟩
    · rw [hbuff, hhdr.complete rest visible hvisi]
      rfl
    refine require_bind.mpr ⟨rfl, ?_⟩
    simp only [hstream, hv.decodes]
    refine require_bind.mpr ⟨le_refl _, ?_⟩
    refine bind_eq_ok.mpr ⟨_, hrd, ?_⟩
    exact require_bind.mpr ⟨⟨rfl, rfl⟩, rfl⟩
  · intro hvisi
    rw [decodeFrame, hfill]
    show (validateZstdFrameHeader filled.buffered >>= _) = _
    rw [hbuff]
    rcases Nat.lt_or_ge visible 5 with hsh | hfiveV
    · -- not even the descriptor
      have hrefu : validateZstdFrameHeader ((entry.frame ++ rest).take visible) =
          .error .integrity := by
        rw [validateZstdFrameHeader, require_neg]
        · rfl
        · intro hlg
          have hlength := hlg.1
          rw [length_take] at hlength
          omega
      rw [hrefu]
      rfl
    · rw [validate_visible hhdr hfiveV]
      show (Except.okOr _ (zstd.contentSize ((entry.frame ++ rest).take visible)) >>= _) = _
      rw [hhdr.incomplete rest visible (not_le.mp hvisi)]
      rfl

variable {manifest : Manifest} {st : EntryState} {index : ℕ}

/-- **An entry is read if the header of its frame is visible, and refused otherwise.** -/
theorem readEntry_eq {entry : PackageEntry}
    (hat : Facing bytes splits offset fed (entry.bytes sha256 ++ rest) st.input)
    (hfit : offset + (entry.bytes sha256).length ≤ streamEnd bytes)
    (hkd : entry.kind = expectedEntry index) (hcmp : entry.compression = manifest.compression)
    (hv : entry.Valid zstd) (hhdr : FrameHeader zstd entry.frame entry.output.length)
    (htot : st.expandedTotal + entry.output.length < 2 ^ 64) :
    (Unsplit splits bytes.length (offset + entryPrefixBytes) (zstdHeaderLen entry.frame) →
      ∃ input', readEntry zstd sha256 manifest st index = .ok (st.after sha256 entry input') ∧
        Facing bytes splits (offset + (entry.bytes sha256).length) (fed ++ entry.bytes sha256) rest
          input') ∧
    (¬ Unsplit splits bytes.length (offset + entryPrefixBytes) (zstdHeaderLen entry.frame) →
      readEntry zstd sha256 manifest st index = .error .integrity) := by
  have hmax : streamEnd bytes ≤ maxEncodedPackageBytes := min_le_right _ _
  have hmaxLt : maxEncodedPackageBytes < 2 ^ 64 := by decide
  rw [entry.length_bytes] at hfit ⊢
  rw [PackageEntry.bytes, append_assoc, append_assoc] at hat
  obtain ⟨input₁, hrd₁, hat₁⟩ :=
    hat.readExact true (by rw [EntryPrefix.length_encode]; omega)
  rw [EntryPrefix.length_encode] at hrd₁ hat₁
  have hout := hv.output_le.trans_lt (PackageEntry.limit_lt entry.kind)
  have hopn : EntryPrefix.decode (entry.opening sha256).encode = .ok (entry.opening sha256) :=
    EntryPrefix.decode_encode hout
  obtain ⟨hdecode, hrefuse⟩ := decodeFrame_eq hat₁ (by omega) hv hhdr
  constructor
  · intro hunsp
    obtain ⟨input₂, hrd₂, hat₂⟩ := hdecode hunsp
    obtain ⟨input₃, hrd₃, hat₃⟩ :=
      hat₂.readExact true (by rw [EntrySuffix.length_encode]; omega)
    have hclos : EntrySuffix.decode entry.closing.encode = .ok entry.closing :=
      EntrySuffix.decode_encode (by show entry.frame.length < 2 ^ 64; omega) hout
    have hcomp : input₂.consumed - input₁.consumed = entry.frame.length := by
      rw [hat₂.consumed, hat₁.consumed]
      omega
    refine ⟨input₃, ?_, ?_⟩
    · refine bind_eq_ok.mpr ⟨_, hrd₁, ?_⟩
      refine bind_eq_ok.mpr ⟨_, hopn, ?_⟩
      refine require_bind.mpr ⟨⟨hkd, hcmp⟩, ?_⟩
      refine bind_eq_ok.mpr ⟨(), PackageEntry.validateEntry_opening sha256 hv, ?_⟩
      refine bind_eq_ok.mpr ⟨_, hrd₂, ?_⟩
      refine bind_eq_ok.mpr ⟨_, hrd₃, ?_⟩
      refine bind_eq_ok.mpr ⟨_, hclos, ?_⟩
      simp only [hcomp]
      refine require_bind.mpr ⟨⟨hv.frame_ne, rfl, rfl⟩, ?_⟩
      refine require_bind.mpr ⟨htot, ?_⟩
      rw [EntryState.after, PackageEntry.descriptor, append_assoc]
      rfl
    · simpa [PackageEntry.bytes, Nat.add_assoc] using hat₃
  · intro hspl
    rw [readEntry, hrd₁]
    show (EntryPrefix.decode (entry.opening sha256).encode >>= _) = _
    rw [hopn]
    show (Except.require _ (_ ∧ _) >>= _) = _
    rw [require_pos ⟨hkd, hcmp⟩]
    show (validateEntry (entry.opening sha256) >>= _) = _
    rw [PackageEntry.validateEntry_opening sha256 hv]
    show (decodeFrame zstd sha256 (entry.opening sha256) input₁ >>= _) = _
    rw [hrefuse hspl]
    rfl

/-- The digest over the descriptors and the closing magic. -/
def footer (sha256 : Bytes → Bytes32) (descriptor : Bytes) : Bytes :=
  (sha256 descriptor).asBytes ++ footerMagic

theorem length_footer (sha256 : Bytes → Bytes32) (descriptor : Bytes) :
    (footer sha256 descriptor).length = footerDigestBytes + 8 := by
  rw [footer, length_append, Bytes32.length_asBytes]
  rfl

variable {json : SettingsJson} {header : Header}

theorem readFooter_eq
    (hat : Facing bytes splits offset fed (footer sha256 st.descriptor ++
      (sha256 (fed ++ footer sha256 st.descriptor)).asBytes) st.input)
    (hlen : bytes.length ≤ maxEncodedPackageBytes)
    (htot : st.expandedTotal = header.totalExpanded) :
    readFooter sha256 json header manifest st =
      parsePackage sha256 json manifest st.settingsBytes st.sink st.database
        ⟨bytes.length, sha256 (fed ++ footer sha256 st.descriptor), sha256 bytes⟩ := by
  have hend : streamEnd bytes = bytes.length := min_eq_left hlen
  have hdig : ∀ digest : Bytes32, digest.asBytes.length = footerDigestBytes :=
    Bytes32.length_asBytes
  have hmagic : footerMagic.length = 8 := by decide
  have htotL := hat.length_eq
  rw [length_append, length_footer, hdig] at htotL
  generalize hcomp : sha256 (fed ++ footer sha256 st.descriptor) = computed at hat ⊢
  rw [footer, append_assoc] at hat
  rw [footer, ← append_assoc] at hcomp
  rw [← append_nil computed.asBytes] at hat
  obtain ⟨input₁, hrd₁, hat₁⟩ := hat.readExact true (by rw [hdig]; omega)
  rw [hdig] at hrd₁ hat₁
  obtain ⟨input₂, hrd₂, hat₂⟩ := hat₁.readExact true (by rw [hmagic]; omega)
  rw [hmagic] at hrd₂ hat₂
  obtain ⟨input₃, hrd₃, hat₃⟩ := hat₂.readExact false (by rw [hdig]; omega)
  rw [hdig] at hrd₃ hat₃
  have hhashed : sha256 input₂.hashed = computed := by
    rw [hat₂.hashed, ← hcomp]
    rfl
  have hacc : footerRejected computed.asBytes computed input₃ = .ok false := by
    rw [footerRejected, if_pos rfl, hat₃.hasTrailing]
    rfl
  have hcons : input₃.consumed = bytes.length := by
    rw [hat₃.consumed]
    omega
  have hf : input₃.fileHashed = bytes := by
    rw [hat₃.fileHashed, take_of_length_le (by omega)]
  simp only [readFooter, Except.require, if_pos htot, ok_bind, hrd₁, hrd₂, hrd₃, hhashed,
    hacc, hcons, hf, if_true]

end Reading

/-! ### Whole packages -/

structure PackageImage where
  manifest : Manifest
  settings : PackageEntry
  database : Option PackageEntry

namespace PackageImage

def entries (image : PackageImage) : List PackageEntry := image.settings :: image.database.toList

def header (image : PackageImage) : Header :=
  ⟨image.manifest.kind, image.manifest.entryCount, manifestBytes,
    (image.entries.map (·.output.length)).sum⟩

variable (sha256 : Bytes → Bytes32)

def descriptor (image : PackageImage) : Bytes :=
  image.manifest.encode ++ image.entries.flatMap (PackageEntry.descriptor sha256)

/-- What the package digest covers. -/
def hashed (image : PackageImage) : Bytes :=
  image.header.encode ++ (image.manifest.encode ++
    (image.entries.flatMap (PackageEntry.bytes sha256) ++ footer sha256 (image.descriptor sha256)))

def bytes (image : PackageImage) : Bytes :=
  image.hashed sha256 ++ (sha256 (image.hashed sha256)).asBytes

def receipt (image : PackageImage) : PackageReceipt :=
  ⟨(image.bytes sha256).length, sha256 (image.hashed sha256), sha256 (image.bytes sha256)⟩

/-- The database. -/
def sink (image : PackageImage) : Bytes := (image.database.map (·.output)).getD []

/-- What reading it gives, up to the decoding of the settings. -/
def parse (json : SettingsJson) (image : PackageImage) :
    Except StateErrorCode (ParsedPackage × Bytes) :=
  parsePackage sha256 json image.manifest image.settings.output image.sink
    (image.database.map (PackageEntry.opening sha256)) (image.receipt sha256)

structure Valid (zstd : Zstd) (image : PackageImage) : Prop where
  manifest : image.manifest.Valid
  settings : image.settings.Valid zstd ∧ image.settings.kind = .settings
  database : ∀ entry ∈ image.database, entry.Valid zstd ∧ entry.kind = .database
  database_iff : image.database.isSome = true ↔ image.manifest.kind = .backup
  compression : ∀ entry ∈ image.entries, entry.compression = image.manifest.compression
  normal : image.manifest.kind = .config → image.manifest.compression = .normal
  total_le : (image.entries.map (·.output.length)).sum ≤ maxPackageTotalExpandedBytes
  length_le : (image.bytes sha256).length ≤ maxEncodedPackageBytes

/-- The offset of the first entry. -/
def entriesStart : ℕ := headerBytes + manifestBytes

/-- No read of the source ends inside the header of a frame. -/
def HeadersUnsplit (splits : ℕ → ℕ) (image : PackageImage) : Prop :=
  Unsplit splits (image.bytes sha256).length (entriesStart + entryPrefixBytes)
    (zstdHeaderLen image.settings.frame) ∧
  ∀ entry ∈ image.database, Unsplit splits (image.bytes sha256).length
    (entriesStart + (image.settings.bytes sha256).length + entryPrefixBytes)
    (zstdHeaderLen entry.frame)

theorem header_valid {zstd : Zstd} {img : PackageImage} (h : img.Valid sha256 zstd) :
    img.header.Valid := by
  refine ⟨h.manifest.entryCount, ?_, h.total_le⟩
  show manifestBytes ≤ maxPackageManifestBytes
  decide

theorem database_of_kind {zstd : Zstd} {img : PackageImage} (h : img.Valid sha256 zstd) :
    img.header.entryCount = 1 ∧ img.database = none ∨
      img.header.entryCount = 2 ∧ ∃ entry, img.database = some entry := by
  have hct : img.header.entryCount = img.manifest.kind.entryCount := h.manifest.entryCount
  cases hkd : img.manifest.kind with
  | config =>
    left
    refine ⟨by rw [hct, hkd]; rfl, ?_⟩
    cases hdb : img.database with
    | none => rfl
    | some entry =>
      have hbackup := h.database_iff.mp (by rw [hdb]; rfl)
      rw [hkd] at hbackup
      cases hbackup
  | backup =>
    right
    exact ⟨by rw [hct, hkd]; rfl, Option.isSome_iff_exists.mp (h.database_iff.mpr hkd)⟩

theorem bytes_eq (img : PackageImage) :
    img.bytes sha256 = img.header.encode ++ (img.manifest.encode ++
      (img.entries.flatMap (PackageEntry.bytes sha256) ++
        (footer sha256 (img.descriptor sha256) ++ (sha256 (img.hashed sha256)).asBytes))) := by
  rw [bytes]
  nth_rewrite 1 [hashed]
  rw [append_assoc, append_assoc, append_assoc]

end PackageImage

section Packages

variable {zstd : Zstd} {sha256 : Bytes → Bytes32} {json : SettingsJson} {splits : ℕ → ℕ}
  {img : PackageImage}

/-- The state in front of the entries. -/
def entriesState (manifest : Manifest) (input : PackageInput) : EntryState :=
  ⟨input, manifest.encode, [], [], 0, none⟩

/-- What the loop has read of the entries of an image. -/
structure EntriesRead (sha256 : Bytes → Bytes32) (image : PackageImage) (state : EntryState) :
    Prop where
  descriptor : state.descriptor = image.descriptor sha256
  settingsBytes : state.settingsBytes = image.settings.output
  sink : state.sink = image.sink
  expandedTotal : state.expandedTotal = image.header.totalExpanded
  database : state.database = image.database.map (PackageEntry.opening sha256)

theorem entriesRead_config {manifest : Manifest} {settings : PackageEntry}
    {input input₁ : PackageInput} (hset : settings.kind = .settings) :
    EntriesRead sha256 ⟨manifest, settings, none⟩
      ((entriesState manifest input).after sha256 settings input₁) where
  descriptor := by
    simp [EntryState.after, entriesState, PackageImage.descriptor, PackageImage.entries]
  settingsBytes := by simp [EntryState.after, entriesState, hset]
  sink := by simp [EntryState.after, entriesState, hset, PackageImage.sink]
  expandedTotal := by
    simp [EntryState.after, entriesState, PackageImage.header, PackageImage.entries]
  database := by simp [EntryState.after, entriesState, hset]

theorem entriesRead_backup {manifest : Manifest} {settings database : PackageEntry}
    {input input₁ input₂ : PackageInput} (hset : settings.kind = .settings)
    (hdb : database.kind = .database) :
    EntriesRead sha256 ⟨manifest, settings, some database⟩
      (((entriesState manifest input).after sha256 settings input₁).after sha256 database
        input₂) where
  descriptor := by
    simp [EntryState.after, entriesState, PackageImage.descriptor, PackageImage.entries]
  settingsBytes := by simp [EntryState.after, entriesState, hset, hdb]
  sink := by simp [EntryState.after, entriesState, hset, hdb, PackageImage.sink]
  expandedTotal := by
    simp [EntryState.after, entriesState, PackageImage.header, PackageImage.entries]
  database := by simp [EntryState.after, entriesState, hdb]

variable {bytes fed rest : Bytes} {offset : ℕ} {input : PackageInput} {st : EntryState}

/-- The loop over the entries of an image. -/
theorem readEntries_image (h : img.Valid sha256 zstd)
    (hhead : ∀ entry ∈ img.entries, FrameHeader zstd entry.frame entry.output.length)
    (hat : Facing (img.bytes sha256) splits PackageImage.entriesStart fed
      (img.entries.flatMap (PackageEntry.bytes sha256) ++ rest) input) :
    (img.HeadersUnsplit sha256 splits → ∃ st,
      (List.range img.header.entryCount).foldlM (readEntry zstd sha256 img.manifest)
        (entriesState img.manifest input) = .ok st ∧ EntriesRead sha256 img st ∧
      Facing (img.bytes sha256) splits
        (PackageImage.entriesStart + (img.entries.flatMap (PackageEntry.bytes sha256)).length)
        (fed ++ img.entries.flatMap (PackageEntry.bytes sha256)) rest st.input) ∧
    (¬ img.HeadersUnsplit sha256 splits →
      (List.range img.header.entryCount).foldlM (readEntry zstd sha256 img.manifest)
        (entriesState img.manifest input) = .error .integrity) := by
  have hend : streamEnd (img.bytes sha256) = (img.bytes sha256).length :=
    min_eq_left h.length_le
  have hlength := hat.length_eq
  have hflat : img.entries.flatMap (PackageEntry.bytes sha256) = img.settings.bytes sha256 ++
    img.database.toList.flatMap (PackageEntry.bytes sha256) := flatMap_cons
  have htot : _ < 2 ^ 64 := h.total_le.trans_lt (by decide)
  rw [hflat, append_assoc] at hat
  rw [hflat, length_append, length_append] at hlength
  rw [PackageImage.entries, map_cons, sum_cons] at htot
  obtain ⟨indices, hrg, hcases⟩ : ∃ indices, List.range img.header.entryCount = 0 :: indices ∧
      (img.database = none ∧ indices = [] ∨ ∃ db, img.database = some db ∧ indices = [1]) := by
    rcases img.database_of_kind sha256 h with ⟨hct, hno⟩ | ⟨hct, db, hso⟩
    · exact ⟨[], by rw [hct]; rfl, .inl ⟨hno, rfl⟩⟩
    · exact ⟨[1], by rw [hct]; rfl, .inr ⟨db, hso, rfl⟩⟩
  have hset : img.settings ∈ img.entries := mem_cons_self ..
  obtain ⟨hrd, hrefuse⟩ := @readEntry_eq zstd sha256 _ splits _ fed _ img.manifest
    (entriesState img.manifest input) 0 img.settings hat (by omega) h.settings.2
    (h.compression _ hset) h.settings.1 (hhead _ hset) (by
      show 0 + img.settings.output.length < 2 ^ 64
      omega)
  rw [hrg, foldlM_cons, hflat]
  by_cases hf : Unsplit splits (img.bytes sha256).length
      (PackageImage.entriesStart + entryPrefixBytes) (zstdHeaderLen img.settings.frame)
  · obtain ⟨input₁, he₁, hat₁⟩ := hrd hf
    rw [he₁, ok_bind]
    rcases hcases with ⟨hno, rfl⟩ | ⟨db, hso, rfl⟩
    · have hone := @entriesRead_config sha256 img.manifest _ input input₁ h.settings.2
      rw [← hno] at hone
      rw [hno] at hat₁ ⊢
      exact ⟨fun _ => ⟨_, rfl, hone, by simpa [EntryState.after] using hat₁⟩,
        fun hnot => absurd ⟨hf, by simp [hno]⟩ hnot⟩
    · have hmem : db ∈ img.entries := by simp [PackageImage.entries, hso]
      obtain ⟨hv, hkd⟩ := h.database db (by rw [hso]; rfl)
      simp only [hso, Option.toList_some, flatMap_cons, flatMap_nil, append_nil,
        map_cons, map_nil, sum_cons, sum_nil] at hat₁ hlength htot ⊢
      obtain ⟨hrd₂, hrefuse₂⟩ := @readEntry_eq zstd sha256 _ splits _ _ _ img.manifest
        ((entriesState img.manifest input).after sha256 img.settings input₁) 1 db hat₁
        (by omega) hkd (h.compression _ hmem) hv (hhead _ hmem) (by
          show 0 + img.settings.output.length + db.output.length < 2 ^ 64
          omega)
      rw [foldlM_cons]
      constructor
      · intro hunsp
        obtain ⟨input₂, he₂, hat₂⟩ := hrd₂ (hunsp.2 db hso)
        have htwo := @entriesRead_backup sha256 img.manifest _ _ input input₁ input₂ h.settings.2
          hkd
        rw [← hso] at htwo
        refine ⟨_, bind_eq_ok.mpr ⟨_, he₂, rfl⟩, htwo, ?_⟩
        simpa [EntryState.after, Nat.add_assoc] using hat₂
      · intro hnot
        rw [hrefuse₂ fun hsd => hnot ⟨hf, by simpa [hso] using hsd⟩]
        rfl
  · refine ⟨fun hunsp => absurd hunsp.1 hf, fun _ => ?_⟩
    rw [hrefuse hf]
    rfl

/-- **A package is read unless a read of the source ends inside the header of a frame.** -/
theorem readPackage_image (h : img.Valid sha256 zstd)
    (hhead : ∀ entry ∈ img.entries, FrameHeader zstd entry.frame entry.output.length) :
    (img.HeadersUnsplit sha256 splits →
      readPackage zstd sha256 json img.manifest.kind (.split (img.bytes sha256) splits) =
        img.parse sha256 json) ∧
    (¬ img.HeadersUnsplit sha256 splits →
      readPackage zstd sha256 json img.manifest.kind (.split (img.bytes sha256) splits) =
        .error .integrity) := by
  have hend : streamEnd (img.bytes sha256) = (img.bytes sha256).length :=
    min_eq_left h.length_le
  have hat : Facing (img.bytes sha256) splits 0 [] _
    (new (.split (img.bytes sha256) splits)) := ⟨at_new, img.bytes_eq sha256, rfl⟩
  have hlength := hat.length_eq
  rw [length_append, length_append, Header.length_encode, Manifest.length_encode] at hlength
  obtain ⟨input₁, hrd₁, hat₁⟩ := hat.readExact true (by rw [Header.length_encode]; omega)
  rw [Header.length_encode] at hrd₁ hat₁
  obtain ⟨input₂, hrd₂, hat₂⟩ := hat₁.readExact true (by rw [Manifest.length_encode]; omega)
  rw [Manifest.length_encode] at hrd₂ hat₂
  obtain ⟨hes, hrefuse⟩ := readEntries_image h hhead hat₂
  have hnormal : ¬ (img.manifest.kind = .config ∧ img.manifest.compression ≠ .normal) :=
    fun hnot => hnot.2 (h.normal hnot.1)
  have hfr : readPackage zstd sha256 json img.manifest.kind
      (.split (img.bytes sha256) splits) =
        (List.range img.header.entryCount).foldlM (readEntry zstd sha256 img.manifest)
          (entriesState img.manifest input₂) >>=
            readFooter sha256 json img.header img.manifest := by
    rw [readPackage, hrd₁]
    simp only [ok_bind, Header.decode_encode (img.header_valid sha256 h), hrd₂,
      Manifest.decode_encode h.manifest, Except.require, if_pos hnormal]
    simp only [PackageImage.header, if_true, and_self, ok_bind]
    rfl
  rw [hfr]
  constructor
  · intro hunsp
    obtain ⟨st, hsta, hstaR, hat₃⟩ := hes hunsp
    have hfed : img.header.encode ++ img.manifest.encode ++
        img.entries.flatMap (PackageEntry.bytes sha256) ++ footer sha256 st.descriptor =
          img.hashed sha256 := by
      rw [hstaR.descriptor, PackageImage.hashed, append_assoc, append_assoc]
    rw [← hstaR.descriptor, ← hfed] at hat₃
    rw [hsta, ok_bind, readFooter_eq hat₃ h.length_le hstaR.expandedTotal]
    show parsePackage _ _ _ _ _ _ ⟨_, sha256 (img.header.encode ++ img.manifest.encode ++
      img.entries.flatMap (PackageEntry.bytes sha256) ++ footer sha256 st.descriptor), _⟩ = _
    rw [hfed, hstaR.settingsBytes, hstaR.sink, hstaR.database]
    rfl
  · intro hspl
    rw [hrefuse hspl]
    rfl

end Packages

end TokenMaster.State
