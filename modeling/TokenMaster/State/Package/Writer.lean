import TokenMaster.State.Package.Image

/-!
# TokenMaster.State.Package.Writer — writing a package, and reading it back

`write_config_stream` and `write_backup_stream` of `crates/state/src/package/writer.rs`, with a
destination that takes every byte.  What is written is an image (`writeConfigStream_ok`,
`writeBackupStream_ok`), so reading it back depends on how the reads of the source are split only
where the headers of the frames are.
-/

namespace TokenMaster.State

open PackageInput TokenMaster.Except List

/-! ### Output -/

/-- `written` went to the destination and to `file_hasher`, `hashed` to `package_hasher`. -/
structure PackageOutput where
  written : Bytes
  hashed : Bytes

namespace PackageOutput

def empty : PackageOutput := ⟨[], []⟩

def write (output : PackageOutput) (bytes : Bytes) : Except StateErrorCode PackageOutput := do
  Except.require .capacityExceeded (output.written.length + bytes.length ≤ maxEncodedPackageBytes)
  .ok ⟨output.written ++ bytes, output.hashed ++ bytes⟩

def writeUnhashed (output : PackageOutput) (bytes : Bytes) : Except StateErrorCode PackageOutput := do
  Except.require .capacityExceeded (output.written.length + bytes.length ≤ maxEncodedPackageBytes)
  .ok ⟨output.written ++ bytes, output.hashed⟩

theorem write_eq_ok {output output' : PackageOutput} {bytes : Bytes} :
    output.write bytes = .ok output' ↔
      output.written.length + bytes.length ≤ maxEncodedPackageBytes ∧
        output' = ⟨output.written ++ bytes, output.hashed ++ bytes⟩ := by
  constructor
  · intro h
    obtain ⟨_, hlen, h⟩ := bind_eq_ok.mp h
    exact ⟨require_eq_ok.mp hlen, (Except.ok.inj h).symm⟩
  · rintro ⟨hlen, rfl⟩
    exact require_bind.mpr ⟨hlen, rfl⟩

end PackageOutput

/-! ### Entries -/

/-- The loop of `write_entry` over its source; every read but the last returns something. -/
def readSource : ℕ → ℕ → Source IoErrorKind → Except StateErrorCode (Bytes × Source IoErrorKind)
  | _, 0, source => .ok ([], source)
  | 0, _ + 1, _ => .error .internalInvariant
  | fuel + 1, remaining + 1, source =>
    match source.read (min (remaining + 1) packageIoBufferBytes) with
    | .error _ => .error .unavailable
    | .ok ([], _) => .error .integrity
    | .ok (byte :: bytes, source) => do
      let (rest, source) ← readSource fuel (remaining - bytes.length) source
      .ok (byte :: bytes ++ rest, source)

/-- Exactly `expandedLen` bytes, and nothing behind them. -/
def readEntrySource (expandedLen : ℕ) (source : Source IoErrorKind) : Except StateErrorCode Bytes := do
  let (data, source) ← readSource expandedLen expandedLen source
  match source.read 1 with
  | .error _ => .error .unavailable
  | .ok ([], _) => .ok data
  | .ok (_ :: _, _) => .error .integrity

section Writer

variable (zstd : Zstd) (sha256 : Bytes → Bytes32) (json : SettingsJson)

/-- `write_entry`, with what was fed to `descriptor_hasher`. -/
def writeEntry (output : PackageOutput) (descriptor : Bytes) (entry : EntryPrefix)
    (source : Source IoErrorKind) : Except StateErrorCode (PackageOutput × Bytes) := do
  let opened ← output.write entry.encode
  let data ← readEntrySource entry.expandedLen source
  let compressed ← opened.write (zstd.encode entry.compression data)
  Except.require .integrity (data.length = entry.expandedLen ∧ sha256 data = entry.expandedSha256)
  let compressedLen := compressed.written.length - opened.written.length
  Except.require .integrity (compressedLen ≠ 0)
  let closing : EntrySuffix := ⟨compressedLen, data.length⟩
  let closed ← compressed.write closing.encode
  .ok (closed, descriptor ++ entry.encode ++ closing.encode)

def finishPackage (output : PackageOutput) (descriptor : Bytes) :
    Except StateErrorCode (PackageReceipt × Bytes) := do
  let output ← output.write (sha256 descriptor).asBytes
  let output ← output.write footerMagic
  let packageSha256 := sha256 output.hashed
  let output ← output.writeUnhashed packageSha256.asBytes
  .ok (⟨output.written.length, packageSha256, sha256 output.written⟩, output.written)

def validateSettingsLen (length : ℕ) : Except StateErrorCode Unit := do
  Except.require .invalidInput (length ≠ 0)
  Except.require .capacityExceeded (length ≤ maxSettingsPackageBytes)

def validateDatabase (length schemaVersion : ℕ) : Except StateErrorCode Unit := do
  Except.require .invalidInput (length ≠ 0 ∧ schemaVersion ≠ 0)
  Except.require .capacityExceeded (length ≤ maxDatabasePackageBytes)

/-- Header and manifest. -/
def writeOpening (header : Header) (manifest : Manifest) : Except StateErrorCode PackageOutput := do
  let output ← PackageOutput.empty.write header.encode
  output.write manifest.encode

/-- `write_config_stream`, with the bytes at the destination. -/
def writeConfigStream (settings : PortableSettingsCandidate) (createdAtUtcMs : ℤ) :
    Except StateErrorCode (PackageReceipt × Bytes) := do
  let settingsBytes ← settings.encodeJson json
  validateSettingsLen settingsBytes.length
  let manifest ← Manifest.new .config 0 .normal createdAtUtcMs none
  let header ← Header.new .config manifestBytes settingsBytes.length
  let output ← writeOpening header manifest
  let (output, descriptor) ← writeEntry zstd sha256 output manifest.encode
    ⟨.settings, .normal, settingsBytes.length, settings.digest⟩ (.whole settingsBytes)
  finishPackage sha256 output descriptor

/-- `write_backup_stream`, with the bytes at the destination. -/
def writeBackupStream (settings : PortableSettingsCandidate) (database : Source IoErrorKind)
    (databaseLen : ℕ) (databaseSha256 : Bytes32) (databaseSchemaVersion : UInt16)
    (compression : BackupCompression) (metadata : BackupMetadata) :
    Except StateErrorCode (PackageReceipt × Bytes) := do
  validateDatabase databaseLen databaseSchemaVersion.toNat
  let settingsBytes ← settings.encodeJson json
  validateSettingsLen settingsBytes.length
  Except.require .capacityExceeded (settingsBytes.length + databaseLen < 2 ^ 64 ∧
    settingsBytes.length + databaseLen ≤ maxPackageTotalExpandedBytes)
  let manifest ← Manifest.new .backup databaseSchemaVersion.toNat compression
    metadata.createdAtUtcMs (some metadata.purpose)
  let header ← Header.new .backup manifestBytes (settingsBytes.length + databaseLen)
  let output ← writeOpening header manifest
  let (output, descriptor) ← writeEntry zstd sha256 output manifest.encode
    ⟨.settings, compression, settingsBytes.length, settings.digest⟩ (.whole settingsBytes)
  let (output, descriptor) ← writeEntry zstd sha256 output descriptor
    ⟨.database, compression, databaseLen, databaseSha256⟩ database
  finishPackage sha256 output descriptor

end Writer

/-! ### What is written -/

variable {source : Source IoErrorKind}

theorem readSource_ok {fuel left : ℕ} {source' : Source IoErrorKind} {data : Bytes}
    (h : readSource fuel left source = .ok (data, source')) :
    source.rest = data ++ source'.rest := by
  induction fuel generalizing left source data with
  | zero =>
    cases left with
    | zero =>
      cases h
      rfl
    | succ left => cases h
  | succ fuel ih =>
    cases left with
    | zero =>
      cases h
      rfl
    | succ left =>
      rw [readSource] at h
      cases hout : source.outcome source.reads with
      | error kind =>
        rw [Source.read, hout] at h
        cases h
      | ok limit =>
        rw [Source.read_of_outcome hout] at h
        cases hchunk : source.rest.take (min (limit + 1) (min (left + 1) packageIoBufferBytes)) with
        | nil =>
          rw [hchunk] at h
          cases h
        | cons byte bytes =>
          rw [hchunk] at h
          obtain ⟨⟨rest, after⟩, hrs, h⟩ := bind_eq_ok.mp h
          obtain ⟨rfl, rfl⟩ := Prod.mk.inj (Except.ok.inj h)
          have htl := ih hrs
          rw [append_assoc, ← htl, ← hchunk, take_append_drop]

/-- What the writer takes from a source that it accepts is everything that the source has. -/
theorem readEntrySource_ok {expandedLen : ℕ} {data : Bytes}
    (h : readEntrySource expandedLen source = .ok data) : data = source.rest := by
  obtain ⟨⟨read, after⟩, hrd, h⟩ := bind_eq_ok.mp h
  have hrs := readSource_ok hrd
  dsimp only at h
  cases hout : after.outcome after.reads with
  | error kind =>
    rw [Source.read, hout] at h
    cases h
  | ok limit =>
    rw [Source.read_of_outcome hout, Nat.min_eq_right (by omega)] at h
    cases hl : after.rest with
    | nil =>
      rw [hl] at h
      cases h
      rw [hrs, hl, append_nil]
    | cons byte bytes =>
      rw [hl] at h
      cases h

section Written

variable {zstd : Zstd} {sha256 : Bytes → Bytes32} {json : SettingsJson} {header : Header}

/-- The entry that is written for a source. -/
def entryOf (zstd : Zstd) (kind : EntryKind) (compression : BackupCompression) (data : Bytes) :
    PackageEntry :=
  ⟨kind, compression, zstd.encode compression data, data⟩

theorem entryOf_valid (hzstd : zstd.Framed) {kind : EntryKind} {compression : BackupCompression}
    {data : Bytes} (hne : data.length ≠ 0) (hle : data.length ≤ PackageEntry.limit kind)
    (hfr : (entryOf zstd kind compression data).frame.length ≠ 0) :
    (entryOf zstd kind compression data).Valid zstd ∧
      FrameHeader zstd (entryOf zstd kind compression data).frame
        (entryOf zstd kind compression data).output.length := by
  have hlt : data.length < 2 ^ 64 := hle.trans_lt (PackageEntry.limit_lt kind)
  exact ⟨⟨hne, hle, hfr, fun rest => hzstd.decode compression data rest hlt⟩,
    hzstd.header compression data hlt⟩

theorem writeEntry_ok {output output' : PackageOutput} {descriptor descriptor' : Bytes}
    {opening : EntryPrefix} {e : PackageEntry}
    (hent : e = entryOf zstd opening.kind opening.compression source.rest)
    (h : writeEntry zstd sha256 output descriptor opening source = .ok (output', descriptor')) :
    opening = e.opening sha256 ∧ e.frame.length ≠ 0 ∧
      output' = ⟨output.written ++ e.bytes sha256, output.hashed ++ e.bytes sha256⟩ ∧
      descriptor' = descriptor ++ e.descriptor sha256 := by
  obtain ⟨opened, hop, h⟩ := bind_eq_ok.mp h
  obtain ⟨data, hdata, h⟩ := bind_eq_ok.mp h
  obtain ⟨compressed, hcomp, h⟩ := bind_eq_ok.mp h
  obtain ⟨hdig, h⟩ := require_bind.mp h
  obtain ⟨_, hnone, h⟩ := bind_eq_ok.mp h
  obtain ⟨closed, hclosed, h⟩ := bind_eq_ok.mp h
  obtain ⟨rfl, rfl⟩ := Prod.mk.inj (Except.ok.inj h)
  obtain rfl := readEntrySource_ok hdata
  obtain ⟨hlen, hsha⟩ := hdig
  obtain ⟨_, rfl⟩ := PackageOutput.write_eq_ok.mp hop
  obtain ⟨_, rfl⟩ := PackageOutput.write_eq_ok.mp hcomp
  obtain ⟨_, rfl⟩ := PackageOutput.write_eq_ok.mp hclosed
  have hopn : opening = e.opening sha256 := by
    rw [hent, PackageEntry.opening, entryOf, hlen, hsha]
  have hnone := require_eq_ok.mp hnone
  simp only [length_append, Nat.add_sub_cancel_left] at hnone ⊢
  refine ⟨hopn, ?_, ?_, ?_⟩
  · rw [hent]
    exact hnone
  · rw [PackageEntry.bytes, ← hopn, hent]
    simp [PackageEntry.closing, entryOf]
  · rw [PackageEntry.descriptor, ← hopn, append_assoc, hent]
    rfl

theorem validateSettingsLen_ok {length : ℕ} {u : Unit} (h : validateSettingsLen length = .ok u) :
    length ≠ 0 ∧ length ≤ PackageEntry.limit .settings := by
  obtain ⟨hne, hle⟩ := require_bind.mp h
  exact ⟨hne, require_eq_ok.mp hle⟩

theorem writeOpening_ok {mani : Manifest} {output : PackageOutput}
    (h : writeOpening header mani = .ok output) :
    output = ⟨header.encode ++ mani.encode, header.encode ++ mani.encode⟩ := by
  obtain ⟨opened, hop, h⟩ := bind_eq_ok.mp h
  obtain ⟨_, rfl⟩ := PackageOutput.write_eq_ok.mp hop
  obtain ⟨_, rfl⟩ := PackageOutput.write_eq_ok.mp h
  rfl

theorem Header.new_ok {kind : PackageKind} {totalExpanded : ℕ}
    (h : Header.new kind manifestBytes totalExpanded = .ok header) :
    header = ⟨kind, kind.entryCount, manifestBytes, totalExpanded⟩ ∧
      totalExpanded ≤ maxPackageTotalExpandedBytes := by
  obtain ⟨_, _, h⟩ := bind_eq_ok.mp h
  obtain ⟨_, hv, h⟩ := bind_eq_ok.mp h
  obtain rfl := Except.ok.inj h
  exact ⟨rfl, (Header.validate_eq_ok.mp hv).totalExpanded⟩

/-- The footer makes an image of what is written in front of it. -/
theorem finishPackage_ok {img : PackageImage} {output : PackageOutput} {descriptor : Bytes}
    {receipt : PackageReceipt} {bytes : Bytes}
    (hwrt : output.written = img.header.encode ++ img.manifest.encode ++
      img.entries.flatMap (PackageEntry.bytes sha256))
    (hsm : output.hashed = output.written) (hdesc : descriptor = img.descriptor sha256)
    (h : finishPackage sha256 output descriptor = .ok (receipt, bytes)) :
    receipt = img.receipt sha256 ∧ bytes = img.bytes sha256 ∧
      (img.bytes sha256).length ≤ maxEncodedPackageBytes := by
  obtain ⟨bound, hbd, h⟩ := bind_eq_ok.mp h
  obtain ⟨marked, hmarked, h⟩ := bind_eq_ok.mp h
  obtain ⟨finished, hfin, h⟩ := bind_eq_ok.mp h
  obtain ⟨_, rfl⟩ := PackageOutput.write_eq_ok.mp hbd
  obtain ⟨_, rfl⟩ := PackageOutput.write_eq_ok.mp hmarked
  obtain ⟨_, hlen, hfin⟩ := bind_eq_ok.mp hfin
  obtain rfl := Except.ok.inj hfin
  obtain ⟨rfl, rfl⟩ := Prod.mk.inj (Except.ok.inj h)
  have hlen := require_eq_ok.mp hlen
  have hhashed : output.written ++ (sha256 descriptor).asBytes ++ footerMagic =
      img.hashed sha256 := by
    rw [hwrt, hdesc, PackageImage.hashed, footer]
    simp
  simp only [hsm, hhashed] at hlen ⊢
  refine ⟨rfl, rfl, ?_⟩
  rw [PackageImage.bytes, length_append]
  exact hlen

/-- What a successful write is: the bytes and the receipt of a valid image. -/
structure Written (zstd : Zstd) (sha256 : Bytes → Bytes32) (image : PackageImage)
    (receipt : PackageReceipt) (bytes : Bytes) : Prop where
  valid : image.Valid sha256 zstd
  headers : ∀ entry ∈ image.entries, FrameHeader zstd entry.frame entry.output.length
  receipt_eq : receipt = image.receipt sha256
  bytes_eq : bytes = image.bytes sha256

def settingsBytes (json : SettingsJson) (settings : PortableSettingsCandidate) : Bytes :=
  json.render settingsSchemaVersion settings.portable.toWire

variable {settings : PortableSettingsCandidate} {bytes : Bytes}

theorem encodeJson_ok (h : settings.encodeJson json = .ok bytes) :
    bytes = settingsBytes json settings := by
  obtain ⟨_, _, h⟩ := bind_eq_ok.mp h
  exact (Except.ok.inj h).symm

def configImage (zstd : Zstd) (json : SettingsJson) (settings : PortableSettingsCandidate)
    (createdAtUtcMs : ℤ) : PackageImage where
  manifest := ⟨.config, 1, settingsSchemaVersion, 0, .normal, createdAtUtcMs, none⟩
  settings := entryOf zstd .settings .normal (settingsBytes json settings)
  database := none

def backupImage (zstd : Zstd) (json : SettingsJson) (settings : PortableSettingsCandidate)
    (database : Bytes) (databaseSchemaVersion : UInt16) (compression : BackupCompression)
    (metadata : BackupMetadata) : PackageImage where
  manifest := ⟨.backup, 2, settingsSchemaVersion, databaseSchemaVersion.toNat, compression,
    metadata.createdAtUtcMs, some metadata.purpose⟩
  settings := entryOf zstd .settings compression (settingsBytes json settings)
  database := some (entryOf zstd .database compression database)

/-- The settings come back as they were written, with the digest that was checked. -/
def SettingsWritten (sha256 : Bytes → Bytes32) (json : SettingsJson)
    (settings : PortableSettingsCandidate) : Prop :=
  settings.encodeJson json = .ok (settingsBytes json settings) ∧
    sha256 (settingsBytes json settings) = settings.digest

variable {receipt : PackageReceipt}

theorem writeConfigStream_ok (hzstd : zstd.Framed) {createdAtUtcMs : ℤ}
    (h : writeConfigStream zstd sha256 json settings createdAtUtcMs = .ok (receipt, bytes)) :
    SettingsWritten sha256 json settings ∧
      Written zstd sha256 (configImage zstd json settings createdAtUtcMs) receipt bytes := by
  obtain ⟨encoded, henco, h⟩ := bind_eq_ok.mp h
  obtain ⟨_, hlen, h⟩ := bind_eq_ok.mp h
  obtain ⟨mani, hman, h⟩ := bind_eq_ok.mp h
  obtain ⟨header, hhdr, h⟩ := bind_eq_ok.mp h
  obtain ⟨output, hopn, h⟩ := bind_eq_ok.mp h
  obtain ⟨⟨closed, descriptor⟩, hent, h⟩ := bind_eq_ok.mp h
  obtain rfl := encodeJson_ok henco
  obtain ⟨hne, hle⟩ := validateSettingsLen_ok hlen
  have hmanV := Manifest.valid_of_new (by decide) hman
  obtain ⟨_, _, _, rfl⟩ := Manifest.new_eq_ok.mp hman
  obtain ⟨rfl, htot⟩ := Header.new_ok hhdr
  obtain rfl := writeOpening_ok hopn
  obtain ⟨img, him⟩ : ∃ img, img = configImage zstd json settings createdAtUtcMs := ⟨_, rfl⟩
  have hset : img.settings = entryOf zstd .settings .normal (settingsBytes json settings) := by
    rw [him, configImage]
  have hes : img.entries = [img.settings] := by rw [him]; rfl
  obtain ⟨hfro, hfr, rfl, rfl⟩ := writeEntry_ok hset hent
  rw [← him]
  rw [hset] at hfr
  obtain ⟨hv, hhead⟩ := entryOf_valid hzstd hne hle hfr
  rw [← hset] at hv hhead
  obtain ⟨hrec, hbs, hlength⟩ := @finishPackage_ok sha256 img _ _ receipt bytes
    (by rw [hes, him]; simp; rfl) rfl
    (by rw [PackageImage.descriptor, hes, him]; simp; rfl) h
  have hdig := congrArg EntryPrefix.expandedSha256 hfro
  rw [hset] at hdig
  refine ⟨⟨henco, hdig.symm⟩, ⟨?_, ⟨hv, ?_⟩, ?_, ?_, ?_, ?_, ?_, hlength⟩, ?_, hrec, hbs⟩
  · rw [him]
    exact hmanV
  · rw [hset, entryOf]
  · simp [him, configImage]
  · simp [him, configImage]
  · intro e hmem
    rw [hes, mem_singleton] at hmem
    rw [hmem, hset, him]
    rfl
  · intro _
    rw [him, configImage]
  · rw [hes, hset]
    exact htot
  · intro e hmem
    rw [hes, mem_singleton] at hmem
    rw [hmem]
    exact hhead

theorem writeBackupStream_ok (hzstd : zstd.Framed) {db : Source IoErrorKind}
    {databaseLen : ℕ} {databaseSha256 : Bytes32} {databaseSchemaVersion : UInt16}
    {compression : BackupCompression} {metadata : BackupMetadata}
    (h : writeBackupStream zstd sha256 json settings db databaseLen databaseSha256
      databaseSchemaVersion compression metadata = .ok (receipt, bytes)) :
    SettingsWritten sha256 json settings ∧
      (databaseLen = db.rest.length ∧ databaseSha256 = sha256 db.rest) ∧
      Written zstd sha256 (backupImage zstd json settings db.rest databaseSchemaVersion
        compression metadata) receipt bytes := by
  obtain ⟨_, hdb, h⟩ := bind_eq_ok.mp h
  obtain ⟨encoded, henco, h⟩ := bind_eq_ok.mp h
  obtain ⟨_, hlen, h⟩ := bind_eq_ok.mp h
  obtain ⟨_, _, h⟩ := bind_eq_ok.mp h
  obtain ⟨mani, hman, h⟩ := bind_eq_ok.mp h
  obtain ⟨header, hhdr, h⟩ := bind_eq_ok.mp h
  obtain ⟨output, hopn, h⟩ := bind_eq_ok.mp h
  obtain ⟨⟨between, descriptor⟩, he₁, h⟩ := bind_eq_ok.mp h
  obtain ⟨⟨closed, descriptor'⟩, he₂, h⟩ := bind_eq_ok.mp h
  obtain rfl := encodeJson_ok henco
  obtain ⟨hne, hle⟩ := validateSettingsLen_ok hlen
  obtain ⟨⟨hdbN, _⟩, hlim⟩ := require_bind.mp hdb
  have hdbLe : _ ≤ PackageEntry.limit .database := require_eq_ok.mp hlim
  have hmanV := Manifest.valid_of_new databaseSchemaVersion.toNat_lt hman
  obtain ⟨_, _, _, rfl⟩ := Manifest.new_eq_ok.mp hman
  obtain ⟨rfl, htot⟩ := Header.new_ok hhdr
  obtain rfl := writeOpening_ok hopn
  obtain ⟨img, him⟩ : ∃ img, img = backupImage zstd json settings db.rest
    databaseSchemaVersion compression metadata := ⟨_, rfl⟩
  obtain ⟨second, hsd⟩ : ∃ e, e = entryOf zstd .database compression db.rest :=
    ⟨_, rfl⟩
  have hset : img.settings = entryOf zstd .settings compression (settingsBytes json settings) := by
    rw [him, backupImage]
  have hes : img.entries = [img.settings, second] := by rw [him, hsd]; rfl
  obtain ⟨hfro₁, hfr₁, rfl, rfl⟩ := writeEntry_ok hset he₁
  obtain ⟨hfro₂, hfr₂, rfl, rfl⟩ := writeEntry_ok hsd he₂
  have hdbL := congrArg EntryPrefix.expandedLen hfro₂
  have hdbS := congrArg EntryPrefix.expandedSha256 hfro₂
  have hdig := congrArg EntryPrefix.expandedSha256 hfro₁
  rw [hsd] at hdbL hdbS hfr₂
  rw [hset] at hdig hfr₁
  have hrs : databaseLen = db.rest.length := hdbL
  rw [hrs] at hdbN hdbLe
  obtain ⟨hv₁, hhead₁⟩ := entryOf_valid hzstd hne hle hfr₁
  obtain ⟨hv₂, hhead₂⟩ := entryOf_valid hzstd hdbN hdbLe hfr₂
  rw [← hset] at hv₁ hhead₁
  rw [← hsd] at hv₂ hhead₂
  rw [← him]
  obtain ⟨hrec, hbs, hlength⟩ := @finishPackage_ok sha256 img _ _ receipt bytes
    (by
      rw [hes, him]
      simp [PackageImage.header, PackageImage.entries, backupImage, entryOf, hrs]
      rfl) rfl
    (by rw [PackageImage.descriptor, hes, him]; simp; rfl) h
  have hso : img.database = some second := by rw [him, hsd]; rfl
  refine ⟨⟨henco, hdig.symm⟩, ⟨hrs, hdbS⟩,
    ⟨?_, ⟨hv₁, ?_⟩, ?_, ?_, ?_, ?_, ?_, hlength⟩, ?_, hrec, hbs⟩
  · rw [him]
    exact hmanV
  · rw [hset, entryOf]
  · intro e hmem
    rw [hso, Option.mem_some_iff] at hmem
    rw [← hmem]
    exact ⟨hv₂, by rw [hsd, entryOf]⟩
  · simp [him, backupImage]
  · intro e hmem
    rw [hes, mem_cons, mem_singleton] at hmem
    rcases hmem with rfl | rfl
    · rw [hset, him]
      rfl
    · rw [hsd, him]
      rfl
  · intro hconfig
    rw [him] at hconfig
    cases hconfig
  · rw [hes, hset, hsd]
    rw [hrs] at htot
    exact htot
  · intro e hmem
    rw [hes, mem_cons, mem_singleton] at hmem
    rcases hmem with rfl | rfl
    · exact hhead₁
    · exact hhead₂

/-! ### Reading it back -/

theorem Written.read {img : PackageImage} (h : Written zstd sha256 img receipt bytes)
    (hset : SettingsWritten sha256 json settings) (hjson : json.RoundTrips settings.portable)
    (hout : img.settings.output = settingsBytes json settings)
    (hver : img.manifest.settingsSchemaVersion = settingsSchemaVersion) (splits : ℕ → ℕ) :
    (readPackage zstd sha256 json img.manifest.kind (.split bytes splits) =
        .ok (⟨⟨settings.portable, settings.digest, settingsSchemaVersion⟩, receipt, img.manifest,
          img.database.map (PackageEntry.opening sha256)⟩, img.sink) ↔
      img.HeadersUnsplit sha256 splits) ∧
    (¬ img.HeadersUnsplit sha256 splits →
      readPackage zstd sha256 json img.manifest.kind (.split bytes splits) = .error .integrity) := by
  obtain ⟨hrd, hrefuse⟩ := @readPackage_image zstd sha256 json splits img h.valid h.headers
  rw [h.bytes_eq, h.receipt_eq]
  have hps : img.parse sha256 json =
      .ok (⟨⟨settings.portable, settings.digest, settingsSchemaVersion⟩, img.receipt sha256,
        img.manifest, img.database.map (PackageEntry.opening sha256)⟩, img.sink) := by
    rw [PackageImage.parse, hout]
    refine bind_eq_ok.mpr
      ⟨_, PortableSettingsCandidate.decode_encodeJson json sha256 hjson hset.1, ?_⟩
    rw [hset.2]
    exact require_bind.mpr ⟨hver.symm, rfl⟩
  refine ⟨⟨?_, ?_⟩, hrefuse⟩
  · intro hok
    by_contra hspl
    rw [hrefuse hspl] at hok
    cases hok
  · intro hunsp
    rw [hrd hunsp, hps]

/-- **A written package reads back exactly when no read of the source ends inside the header of a
frame**, however the reads are split elsewhere; otherwise it is refused. -/
theorem read_written_package_iff (hzstd : zstd.Framed) (settings : PortableSettingsCandidate)
    (hjson : json.RoundTrips settings.portable) (splits : ℕ → ℕ) :
    (∀ createdAtUtcMs receipt bytes,
      writeConfigStream zstd sha256 json settings createdAtUtcMs = .ok (receipt, bytes) →
      (readPackage zstd sha256 json .config (.split bytes splits) =
          .ok (⟨⟨settings.portable, settings.digest, settingsSchemaVersion⟩, receipt,
            ⟨.config, 1, settingsSchemaVersion, 0, .normal, createdAtUtcMs, none⟩, none⟩, []) ↔
        (configImage zstd json settings createdAtUtcMs).HeadersUnsplit sha256 splits) ∧
      (¬ (configImage zstd json settings createdAtUtcMs).HeadersUnsplit sha256 splits →
        readPackage zstd sha256 json .config (.split bytes splits) = .error .integrity)) ∧
    (∀ database databaseLen databaseSha256 databaseSchemaVersion compression metadata receipt bytes,
      writeBackupStream zstd sha256 json settings database databaseLen databaseSha256
        databaseSchemaVersion compression metadata = .ok (receipt, bytes) →
      (readPackage zstd sha256 json .backup (.split bytes splits) =
          .ok (⟨⟨settings.portable, settings.digest, settingsSchemaVersion⟩, receipt,
            ⟨.backup, 2, settingsSchemaVersion, databaseSchemaVersion.toNat, compression,
              metadata.createdAtUtcMs, some metadata.purpose⟩,
            some ⟨.database, compression, databaseLen, databaseSha256⟩⟩, database.rest) ↔
        (backupImage zstd json settings database.rest databaseSchemaVersion compression
          metadata).HeadersUnsplit sha256 splits) ∧
      (¬ (backupImage zstd json settings database.rest databaseSchemaVersion compression
          metadata).HeadersUnsplit sha256 splits →
        readPackage zstd sha256 json .backup (.split bytes splits) = .error .integrity)) := by
  constructor
  · intro createdAtUtcMs receipt bytes h
    obtain ⟨hset, hwrt⟩ := writeConfigStream_ok hzstd h
    exact hwrt.read hset hjson rfl rfl splits
  · intro database databaseLen databaseSha256 databaseSchemaVersion compression metadata receipt bytes h
    obtain ⟨hset, ⟨rfl, rfl⟩, hwrt⟩ := writeBackupStream_ok hzstd h
    exact hwrt.read hset hjson rfl rfl splits

end Written

/-! ### Packages that can be evaluated -/

/-- Frames that store their data: a single segment with checksum flag and an eight byte size. -/
def storedZstd : Zstd where
  encode _ data := zstdMagic ++ [0xe4] ++ leBytes 8 data.length ++ data
  contentSize bytes := if bytes.length < 13 then none else some (some (leNat ((bytes.drop 5).take 8)))
  decode stream :=
    let size := leNat ((stream.drop 5).take 8)
    if 13 + size ≤ stream.length then ⟨(stream.drop 13).take size, 13 + size, .finished⟩
    else ⟨[], 0, .starved⟩

/-- Settings in a text that says nothing. -/
def fixedJson (portable : PortableSettings) : SettingsJson where
  probe _ := some settingsSchemaVersion
  parse _ _ := some (settingsSchemaVersion, portable.toWire)
  render _ _ := ascii "\x7b\x7d"

theorem fixedJson_roundTrips (portable : PortableSettings) :
    (fixedJson portable).RoundTrips portable := ⟨rfl, rfl⟩

section Stored

variable (compression : BackupCompression) (data rest : Bytes)

theorem storedZstd_encode : storedZstd.encode compression data ++ rest =
    (zstdMagic ++ [0xe4]) ++ (leBytes 8 data.length ++ (data ++ rest)) := by
  simp [storedZstd]

theorem length_storedZstd_encode :
    (storedZstd.encode compression data).length = 13 + data.length := by
  simp [storedZstd, zstdMagic]
  omega

theorem storedZstd_contentSize (bytes : Bytes) : storedZstd.contentSize bytes =
    if bytes.length < 13 then none else some (some (leNat ((bytes.drop 5).take 8))) := rfl

theorem storedZstd_decode (stream : Bytes) : storedZstd.decode stream =
    if 13 + leNat ((stream.drop 5).take 8) ≤ stream.length then
      ⟨(stream.drop 13).take (leNat ((stream.drop 5).take 8)),
        13 + leNat ((stream.drop 5).take 8), .finished⟩
    else ⟨[], 0, .starved⟩ := rfl

theorem storedZstd_size :
    ((storedZstd.encode compression data ++ rest).drop 5).take 8 = leBytes 8 data.length := by
  rw [storedZstd_encode, show 5 = (zstdMagic ++ [0xe4]).length from rfl, drop_left,
    take_left' (length_leBytes _ _)]

theorem storedZstd_content :
    (storedZstd.encode compression data ++ rest).drop 13 = data ++ rest := by
  rfl

end Stored

theorem storedZstd_framed : storedZstd.Framed := by
  have hhdr : ∀ compression data, zstdHeaderLen (storedZstd.encode compression data) = 13 := by
    intro compression data
    have hdesc : (storedZstd.encode compression data).getD 4 0 = 0xe4 := rfl
    rw [zstdHeaderLen, hdesc]
    rfl
  constructor
  · intro compression data hlt
    have hlt' : data.length < 256 ^ 8 := hlt
    have hlength := length_storedZstd_encode compression data
    refine ⟨?_, ?_, rfl, ?_, ?_, ?_⟩
    · rw [hhdr]
      decide
    · rw [hhdr, hlength]
      omega
    · show FrameHeaderValid [0x28, 0xb5, 0x2f, 0xfd, 0xe4]
      decide
    · intro rest n hn
      rw [hhdr] at hn
      rw [storedZstd_contentSize, if_pos]
      rw [length_take]
      omega
    · intro rest n hn
      rw [hhdr] at hn
      have hlg : ¬ ((storedZstd.encode compression data ++ rest).take n).length < 13 := by
        rw [length_take, length_append, hlength]
        omega
      rw [storedZstd_contentSize, if_neg hlg, drop_take, take_take, Nat.min_eq_left (by omega), storedZstd_size,
        leNat_leBytes hlt']
  · intro compression data rest hlt
    have hlt' : data.length < 256 ^ 8 := hlt
    have hlength := length_storedZstd_encode compression data
    have hfit : 13 + data.length ≤ (storedZstd.encode compression data ++ rest).length := by
      rw [length_append, hlength]
      omega
    rw [storedZstd_decode, storedZstd_size, leNat_leBytes hlt', if_pos hfit, storedZstd_content,
      take_left, hlength]

def plainSettings : PortableSettings where
  reminders := ⟨false, [], by decide, by decide, by decide⟩
  backup := ⟨⟨true, 600, 86400, backupRetentionMinBytes⟩, by decide, by decide, by decide, by decide⟩
  presentation := .legacyDark .comfortable .refined

def plainCandidate : PortableSettingsCandidate :=
  ⟨plainSettings, lastBytes (ascii "\x7b\x7d"), settingsSchemaVersion⟩

/-- A package that is read a byte at a time is refused, though it can be read at once. -/
theorem config_read_bytewise_refused :
    storedZstd.Framed ∧ (fixedJson plainSettings).RoundTrips plainSettings ∧
    (let image := configImage storedZstd (fixedJson plainSettings) plainCandidate 0
     writeConfigStream storedZstd lastBytes (fixedJson plainSettings) plainCandidate 0 =
        .ok (image.receipt lastBytes, image.bytes lastBytes) ∧
      readPackage storedZstd lastBytes (fixedJson plainSettings) .config
        (.split (image.bytes lastBytes) fun _ => 0) = .error .integrity ∧
      readPackage storedZstd lastBytes (fixedJson plainSettings) .config
        (.whole (image.bytes lastBytes)) =
          .ok (⟨plainCandidate, image.receipt lastBytes, image.manifest, none⟩, [])) :=
  ⟨storedZstd_framed, fixedJson_roundTrips _, by decide +kernel⟩

/-- A full read of a package with a database. -/
theorem read_written_package_at_once :
    let image := backupImage storedZstd (fixedJson plainSettings) plainCandidate [1, 2, 3] 21 .compact
      ⟨0, .manual, by decide⟩
    readPackage storedZstd lastBytes (fixedJson plainSettings) .backup
      (.whole (image.bytes lastBytes)) =
        .ok (⟨plainCandidate, image.receipt lastBytes, image.manifest,
          some ⟨.database, .compact, 3, lastBytes [1, 2, 3]⟩⟩, [1, 2, 3]) := by
  intro image
  have hwr : writeBackupStream storedZstd lastBytes (fixedJson plainSettings) plainCandidate
      (.split [1, 2, 3] fun _ => 0) 3 (lastBytes [1, 2, 3]) 21 .compact ⟨0, .manual, by decide⟩ =
        .ok (image.receipt lastBytes, image.bytes lastBytes) := by decide +kernel
  have hrd : readEnd (fun _ => (image.bytes lastBytes).length)
      (image.bytes lastBytes).length 1 = (image.bytes lastBytes).length := by decide +kernel
  refine ((read_written_package_iff storedZstd_framed plainCandidate (fixedJson_roundTrips _)
    fun _ => (image.bytes lastBytes).length).2 _ _ _ _ _ _ _ _ hwr).1.mpr ⟨?_, ?_⟩
  · exact unsplit_of_one_read hrd (by decide +kernel)
  · intro e hent
    obtain rfl := Option.some.inj hent
    exact unsplit_of_one_read hrd (by decide +kernel)

end TokenMaster.State
