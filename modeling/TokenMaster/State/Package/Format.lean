import TokenMaster.Lib.Layout
import TokenMaster.State.Record

/-!
# TokenMaster.State.Package.Format — the fixed parts of a package

`header.rs`, `manifest.rs` and the wire enumerations of `mod.rs` in `crates/state/src/package`: the
header of 32 bytes, the manifest of 40 bytes, and the prefix of 64 and the suffix of 24 bytes around
each compressed entry.  What is encoded decodes to itself, and whatever is accepted is the encoding
of what it decodes to (`Header.decode_ok`, `Manifest.decode_ok`, `EntryPrefix.decode_ok`,
`EntrySuffix.decode_ok`).
-/

namespace TokenMaster.State

open TokenMaster.Except List

/-! ### Limits -/

def maxPackageEntries : ℕ := 8
def maxPackageManifestBytes : ℕ := 64 * 1024
def maxSettingsPackageBytes : ℕ := 1024 * 1024
def maxDatabasePackageBytes : ℕ := 64 * 1024 * 1024 * 1024
def maxPackageTotalExpandedBytes : ℕ := maxDatabasePackageBytes + 2 * 1024 * 1024
def packageIoBufferBytes : ℕ := 64 * 1024
def packageWindowLog : ℕ := 23
def maxEncodedPackageBytes : ℕ := maxDatabasePackageBytes + 2 * 1024 * 1024
def maxPackageUtcMs : ℤ := 253402300799999

def headerBytes : ℕ := 32
def manifestBytes : ℕ := 40
def entryPrefixBytes : ℕ := 64
def entrySuffixBytes : ℕ := 24
def footerDigestBytes : ℕ := 32

def settingsSchemaVersion : ℕ := 7
def minSupportedSettingsSchemaVersion : ℕ := 1

/-! ### Enumerations -/

inductive BackupCompression where
  | automatic
  | normal
  | compact
  deriving DecidableEq

variable {n : ℕ} {compression : BackupCompression}

namespace BackupCompression

def wire : BackupCompression → ℕ
  | automatic => 1
  | normal => 2
  | compact => 3

def fromWire : ℕ → Option BackupCompression
  | 1 => some automatic
  | 2 => some normal
  | 3 => some compact
  | _ => none

@[simp] theorem fromWire_wire (compression : BackupCompression) :
    fromWire compression.wire = some compression := by cases compression <;> rfl

theorem wire_lt (compression : BackupCompression) : compression.wire < 256 := by
  cases compression <;> decide

theorem wire_of_fromWire (h : fromWire n = some compression) : n = compression.wire := by
  unfold fromWire at h
  split at h <;> cases h <;> rfl

end BackupCompression

inductive BackupPurpose where
  | periodic
  | manual
  | preMigration
  | postMigration
  | preRestore
  | preDestructiveMaintenance
  deriving DecidableEq

namespace BackupPurpose

def wire : BackupPurpose → ℕ
  | periodic => 1
  | manual => 2
  | preMigration => 3
  | postMigration => 4
  | preRestore => 5
  | preDestructiveMaintenance => 6

def fromWire : ℕ → Option BackupPurpose
  | 1 => some periodic
  | 2 => some manual
  | 3 => some preMigration
  | 4 => some postMigration
  | 5 => some preRestore
  | 6 => some preDestructiveMaintenance
  | _ => none

@[simp] theorem fromWire_wire (purpose : BackupPurpose) : fromWire purpose.wire = some purpose := by
  cases purpose <;> rfl

theorem wire_lt (purpose : BackupPurpose) : purpose.wire < 256 := by
  cases purpose <;> decide

theorem wire_of_fromWire {purpose : BackupPurpose} (h : fromWire n = some purpose) :
    n = purpose.wire := by
  unfold fromWire at h
  split at h <;> cases h <;> rfl

end BackupPurpose

inductive PackageKind where
  | config
  | backup
  deriving DecidableEq

namespace PackageKind

def wire : PackageKind → ℕ
  | config => 1
  | backup => 2

def fromWire : ℕ → Option PackageKind
  | 1 => some config
  | 2 => some backup
  | _ => none

def entryCount : PackageKind → ℕ
  | config => 1
  | backup => 2

@[simp] theorem fromWire_wire (kind : PackageKind) : fromWire kind.wire = some kind := by
  cases kind <;> rfl

theorem wire_lt (kind : PackageKind) : kind.wire < 256 := by cases kind <;> decide

theorem wire_of_fromWire {kind : PackageKind} (h : fromWire n = some kind) :
    n = kind.wire := by
  unfold fromWire at h
  split at h <;> cases h <;> rfl

theorem entryCount_lt (kind : PackageKind) : kind.entryCount < 256 := by cases kind <;> decide

end PackageKind

inductive EntryKind where
  | settings
  | database
  deriving DecidableEq

namespace EntryKind

def wire : EntryKind → ℕ
  | settings => 1
  | database => 2

def fromWire : ℕ → Option EntryKind
  | 1 => some settings
  | 2 => some database
  | _ => none

@[simp] theorem fromWire_wire (kind : EntryKind) : fromWire kind.wire = some kind := by
  cases kind <;> rfl

theorem wire_lt (kind : EntryKind) : kind.wire < 256 := by cases kind <;> decide

theorem wire_of_fromWire {kind : EntryKind} (h : fromWire n = some kind) :
    n = kind.wire := by
  unfold fromWire at h
  split at h <;> cases h <;> rfl

end EntryKind

def validatePackageTime (createdAtUtcMs : ℤ) : Except StateErrorCode Unit :=
  Except.require .invalidInput (0 ≤ createdAtUtcMs ∧ createdAtUtcMs ≤ maxPackageUtcMs)

/-- `BackupMetadata`; the time was validated. -/
structure BackupMetadata where
  createdAtUtcMs : ℤ
  purpose : BackupPurpose
  time_valid : 0 ≤ createdAtUtcMs ∧ createdAtUtcMs ≤ maxPackageUtcMs

/-! ### Header -/

def headerMagic : Bytes := ascii "TMPKG001"
def packageVersion : ℕ := 1

structure Header where
  kind : PackageKind
  entryCount : ℕ
  manifestLen : ℕ
  totalExpanded : ℕ

variable {bytes : Bytes}

namespace Header

def validate (header : Header) : Except StateErrorCode Unit := do
  Except.require .capacityExceeded (header.entryCount ≤ maxPackageEntries)
  Except.require .invalidInput (header.entryCount = header.kind.entryCount)
  Except.require .capacityExceeded (header.manifestLen ≤ maxPackageManifestBytes)
  Except.require .capacityExceeded (header.totalExpanded ≤ maxPackageTotalExpandedBytes)

def new (kind : PackageKind) (manifestLen totalExpanded : ℕ) : Except StateErrorCode Header := do
  Except.require .capacityExceeded (manifestLen < 2 ^ 32)
  let header : Header := ⟨kind, kind.entryCount, manifestLen, totalExpanded⟩
  header.validate
  .ok header

def fields (header : Header) : List Bytes :=
  [headerMagic, leBytes 2 packageVersion, leBytes 2 headerBytes, leBytes 1 header.kind.wire,
    leBytes 1 header.entryCount, leBytes 2 0, leBytes 4 header.manifestLen,
    leBytes 8 header.totalExpanded, List.replicate 4 0]

def encode (header : Header) : Bytes := header.fields.flatten

/-- Offsets 0, 8, 10, 12, 13, 14, 16, 20 and 28. -/
def widths : List ℕ := [8, 2, 2, 1, 1, 2, 4, 8, 4]

def decode (bytes : Bytes) : Except StateErrorCode Header :=
  match cut widths bytes with
  | [magic, version, headerLen, kind, entryCount, flags, manifestLen, totalExpanded, reserved] => do
    Except.require .integrity (magic = headerMagic)
    Except.require .unsupportedVersion (leNat version = packageVersion)
    Except.require .unsupportedVersion (leNat headerLen = headerBytes)
    let kind ← Except.okOr .unsupportedVersion (PackageKind.fromWire (leNat kind))
    Except.require .unsupportedVersion (leNat flags = 0 ∧ reserved = List.replicate 4 0)
    let header : Header := ⟨kind, leNat entryCount, leNat manifestLen, leNat totalExpanded⟩
    header.validate
    .ok header
  | _ => .error .integrity

/-- What `validate` accepts. -/
structure Valid (header : Header) : Prop where
  entryCount : header.entryCount = header.kind.entryCount
  manifestLen : header.manifestLen ≤ maxPackageManifestBytes
  totalExpanded : header.totalExpanded ≤ maxPackageTotalExpandedBytes

variable {header : Header}

theorem validate_eq_ok {u : Unit} : header.validate = .ok u ↔ header.Valid := by
  constructor
  · intro h
    obtain ⟨_, _, h⟩ := bind_eq_ok.mp h
    obtain ⟨_, hct, h⟩ := bind_eq_ok.mp h
    obtain ⟨_, hman, htot⟩ := bind_eq_ok.mp h
    exact ⟨require_eq_ok.mp hct, require_eq_ok.mp hman, require_eq_ok.mp htot⟩
  · rintro ⟨hct, hman, htot⟩
    have hes : header.entryCount ≤ maxPackageEntries := by
      rw [hct]
      cases header.kind <;> decide
    refine require_bind.mpr ⟨hes, ?_⟩
    refine require_bind.mpr ⟨hct, ?_⟩
    exact require_bind.mpr ⟨hman, require_pos htot⟩

theorem fields_lengths (header : Header) : header.fields.map List.length = widths := by
  simp [fields, widths, headerMagic, ascii]

@[simp] theorem length_encode (header : Header) : header.encode.length = headerBytes := by
  rfl

theorem decode_encode (h : header.Valid) : decode header.encode = .ok header := by
  have hcut : cut widths header.encode = header.fields := by
    rw [← header.fields_lengths, encode, cut_flatten]
  have hkd : leNat (leBytes 1 header.kind.wire) = header.kind.wire :=
    leNat_leBytes header.kind.wire_lt
  have hct : leNat (leBytes 1 header.entryCount) = header.entryCount := by
    refine leNat_leBytes ?_
    rw [h.entryCount]
    exact header.kind.entryCount_lt
  have hman : leNat (leBytes 4 header.manifestLen) = header.manifestLen :=
    leNat_leBytes (h.manifestLen.trans_lt (by decide))
  have htot : leNat (leBytes 8 header.totalExpanded) = header.totalExpanded :=
    leNat_leBytes (h.totalExpanded.trans_lt (by decide))
  rw [decode, hcut, fields]
  simp only [hkd, hct, hman, htot, PackageKind.fromWire_wire, okOr_some]
  refine require_bind.mpr ⟨trivial, ?_⟩
  refine require_bind.mpr ⟨by decide, ?_⟩
  refine require_bind.mpr ⟨by decide, ?_⟩
  refine bind_eq_ok.mpr ⟨header.kind, rfl, ?_⟩
  refine require_bind.mpr ⟨by decide, ?_⟩
  exact bind_eq_ok.mpr ⟨(), validate_eq_ok.mpr h, rfl⟩

end Header

/-! ### Manifest -/

def manifestMagic : Bytes := ascii "TMMNF001"
def manifestVersion : ℕ := 1

structure Manifest where
  kind : PackageKind
  entryCount : ℕ
  settingsSchemaVersion : ℕ
  databaseSchemaVersion : ℕ
  compression : BackupCompression
  createdAtUtcMs : ℤ
  backupPurpose : Option BackupPurpose
  deriving DecidableEq

namespace Manifest

def new (kind : PackageKind) (databaseSchemaVersion : ℕ) (compression : BackupCompression)
    (createdAtUtcMs : ℤ) (backupPurpose : Option BackupPurpose) :
    Except StateErrorCode Manifest := do
  Except.require .invalidInput (¬ (kind = .config ∧ databaseSchemaVersion ≠ 0))
  Except.require .invalidInput (¬ (kind = .backup ∧ databaseSchemaVersion = 0))
  Except.require .invalidInput (¬ (kind = .config ∧ backupPurpose.isSome ∨
    kind = .backup ∧ backupPurpose.isNone))
  validatePackageTime createdAtUtcMs
  .ok ⟨kind, kind.entryCount, State.settingsSchemaVersion, databaseSchemaVersion, compression,
    createdAtUtcMs, backupPurpose⟩

def purposeWire : Option BackupPurpose → ℕ
  | none => 0
  | some purpose => purpose.wire

def fields (manifest : Manifest) : List Bytes :=
  [manifestMagic, leBytes 2 manifestVersion, leBytes 2 manifestBytes, leBytes 1 manifest.kind.wire,
    leBytes 1 manifest.entryCount, leBytes 2 manifest.settingsSchemaVersion,
    leBytes 2 manifest.databaseSchemaVersion, leBytes 1 manifest.compression.wire,
    leBytes 1 (purposeWire manifest.backupPurpose), leBytes 8 (unsigned64 manifest.createdAtUtcMs),
    List.replicate 12 0]

def encode (manifest : Manifest) : Bytes := manifest.fields.flatten

/-- Offsets 0, 8, 10, 12, 13, 14, 16, 18, 19, 20 and 28. -/
def widths : List ℕ := [8, 2, 2, 1, 1, 2, 2, 1, 1, 8, 12]

def decodePurpose (kind : PackageKind) (byte : ℕ) :
    Except StateErrorCode (Option BackupPurpose) :=
  match kind with
  | .config => if byte = 0 then .ok none else .error .unsupportedVersion
  | .backup => (Except.okOr .unsupportedVersion (BackupPurpose.fromWire byte)).map some

def decode (bytes : Bytes) : Except StateErrorCode Manifest :=
  match cut widths bytes with
  | [magic, version, length, kind, entryCount, settingsSchema, databaseSchema, compression, purpose,
      createdAt, reserved] => do
    Except.require .integrity (magic = manifestMagic)
    Except.require .unsupportedVersion (leNat version = manifestVersion ∧ leNat length = manifestBytes)
    let kind ← Except.okOr .unsupportedVersion (PackageKind.fromWire (leNat kind))
    Except.require .unsupportedVersion (minSupportedSettingsSchemaVersion ≤ leNat settingsSchema ∧
      leNat settingsSchema ≤ State.settingsSchemaVersion)
    Except.require .unsupportedVersion (reserved = List.replicate 12 0)
    let backupPurpose ← decodePurpose kind (leNat purpose)
    let compression ← Except.okOr .unsupportedVersion (BackupCompression.fromWire (leNat compression))
    let manifest : Manifest := ⟨kind, leNat entryCount, leNat settingsSchema, leNat databaseSchema,
      compression, signed64 (leNat createdAt), backupPurpose⟩
    let expected ← new kind (leNat databaseSchema) compression (signed64 (leNat createdAt)) backupPurpose
    Except.require .invalidInput (expected.entryCount = manifest.entryCount)
    .ok manifest
  | _ => .error .integrity

/-- What `decode` accepts, and what `new` produces. -/
structure Valid (manifest : Manifest) : Prop where
  entryCount : manifest.entryCount = manifest.kind.entryCount
  settingsSchema : minSupportedSettingsSchemaVersion ≤ manifest.settingsSchemaVersion ∧
    manifest.settingsSchemaVersion ≤ State.settingsSchemaVersion
  databaseSchema : manifest.databaseSchemaVersion < 2 ^ 16
  databaseSchema_eq_zero : manifest.databaseSchemaVersion = 0 ↔ manifest.kind = .config
  purpose : manifest.backupPurpose.isNone = true ↔ manifest.kind = .config
  time : 0 ≤ manifest.createdAtUtcMs ∧ manifest.createdAtUtcMs ≤ maxPackageUtcMs

variable {kind : PackageKind} {manifest : Manifest} {databaseSchemaVersion : ℕ} {createdAtUtcMs : ℤ}
  {backupPurpose : Option BackupPurpose}

theorem new_eq_ok :
    new kind databaseSchemaVersion compression createdAtUtcMs backupPurpose = .ok manifest ↔
      (databaseSchemaVersion = 0 ↔ kind = .config) ∧ (backupPurpose.isNone = true ↔ kind = .config) ∧
      (0 ≤ createdAtUtcMs ∧ createdAtUtcMs ≤ maxPackageUtcMs) ∧
      manifest = ⟨kind, kind.entryCount, State.settingsSchemaVersion, databaseSchemaVersion,
        compression, createdAtUtcMs, backupPurpose⟩ := by
  have hschema : (¬ (kind = .config ∧ databaseSchemaVersion ≠ 0)) ∧
      (¬ (kind = .backup ∧ databaseSchemaVersion = 0)) ↔
        (databaseSchemaVersion = 0 ↔ kind = .config) := by
    cases kind <;> simp
  have hpu : (¬ (kind = .config ∧ backupPurpose.isSome ∨
      kind = .backup ∧ backupPurpose.isNone)) ↔ (backupPurpose.isNone = true ↔ kind = .config) := by
    cases kind <;> cases backupPurpose <;> simp
  constructor
  · intro h
    obtain ⟨_, h₁, h⟩ := bind_eq_ok.mp h
    obtain ⟨_, h₂, h⟩ := bind_eq_ok.mp h
    obtain ⟨_, h₃, h⟩ := bind_eq_ok.mp h
    obtain ⟨h₄, h⟩ := require_bind.mp h
    exact ⟨hschema.mp ⟨require_eq_ok.mp h₁, require_eq_ok.mp h₂⟩,
      hpu.mp (require_eq_ok.mp h₃), h₄, (Except.ok.inj h).symm⟩
  · rintro ⟨h₁, h₂, h₃, rfl⟩
    refine require_bind.mpr ⟨(hschema.mpr h₁).1, ?_⟩
    refine require_bind.mpr ⟨(hschema.mpr h₁).2, ?_⟩
    refine require_bind.mpr ⟨hpu.mpr h₂, ?_⟩
    exact require_bind.mpr ⟨h₃, rfl⟩

theorem valid_of_new (hschema : databaseSchemaVersion < 2 ^ 16)
    (h : new kind databaseSchemaVersion compression createdAtUtcMs backupPurpose = .ok manifest) :
    manifest.Valid := by
  obtain ⟨hz, hpu, htime, rfl⟩ := new_eq_ok.mp h
  have hver : minSupportedSettingsSchemaVersion ≤ State.settingsSchemaVersion := by decide
  exact ⟨rfl, ⟨hver, le_rfl⟩, hschema, hz, hpu, htime⟩

theorem decodePurpose_eq_ok {byte : ℕ} {purpose : Option BackupPurpose} :
    decodePurpose kind byte = .ok purpose ↔
      byte = purposeWire purpose ∧ (purpose.isNone = true ↔ kind = .config) := by
  cases kind with
  | config =>
    rw [decodePurpose]
    constructor
    · intro h
      split_ifs at h with hz
      cases h
      exact ⟨hz, by simp⟩
    · rintro ⟨hb, hno⟩
      obtain rfl := Option.isNone_iff_eq_none.mp (hno.mpr rfl)
      exact if_pos hb
  | backup =>
    rw [decodePurpose, map_eq_ok]
    constructor
    · rintro ⟨found, hfd, rfl⟩
      exact ⟨BackupPurpose.wire_of_fromWire (okOr_eq_ok.mp hfd), by simp⟩
    · rintro ⟨hb, hno⟩
      cases purpose with
      | none => simp at hno
      | some purpose => exact ⟨purpose, by rw [hb]; simp [purposeWire], rfl⟩

theorem purposeWire_lt (purpose : Option BackupPurpose) : purposeWire purpose < 256 := by
  cases purpose with
  | none => decide
  | some purpose => exact purpose.wire_lt

theorem fields_lengths (manifest : Manifest) : manifest.fields.map List.length = widths := by
  simp [fields, widths, manifestMagic, ascii]

@[simp] theorem length_encode (manifest : Manifest) : manifest.encode.length = manifestBytes := by
  rfl

theorem decode_encode (h : manifest.Valid) : decode manifest.encode = .ok manifest := by
  have hcut : cut widths manifest.encode = manifest.fields := by
    rw [← manifest.fields_lengths, encode, cut_flatten]
  have hkd : leNat (leBytes 1 manifest.kind.wire) = manifest.kind.wire :=
    leNat_leBytes manifest.kind.wire_lt
  have hct : leNat (leBytes 1 manifest.entryCount) = manifest.entryCount := by
    refine leNat_leBytes ?_
    rw [h.entryCount]
    exact manifest.kind.entryCount_lt
  have hset : leNat (leBytes 2 manifest.settingsSchemaVersion) =
      manifest.settingsSchemaVersion := leNat_leBytes (h.settingsSchema.2.trans_lt (by decide))
  have hdb : leNat (leBytes 2 manifest.databaseSchemaVersion) =
      manifest.databaseSchemaVersion := leNat_leBytes h.databaseSchema
  have hcmp : leNat (leBytes 1 manifest.compression.wire) = manifest.compression.wire :=
    leNat_leBytes manifest.compression.wire_lt
  have hpu : leNat (leBytes 1 (purposeWire manifest.backupPurpose)) =
      purposeWire manifest.backupPurpose := leNat_leBytes (purposeWire_lt _)
  have htime : signed64 (leNat (leBytes 8 (unsigned64 manifest.createdAtUtcMs))) =
      manifest.createdAtUtcMs := by
    have hmax : maxPackageUtcMs < 2 ^ 63 := by decide
    rw [leNat_leBytes (unsigned64_lt _), signed64_unsigned64 (by have := h.time.1; omega)
      (by have := h.time.2; omega)]
  rw [decode, hcut, fields]
  simp only [hkd, hct, hset, hdb, hcmp, hpu, htime,
    PackageKind.fromWire_wire, BackupCompression.fromWire_wire, okOr_some]
  refine require_bind.mpr ⟨trivial, ?_⟩
  refine require_bind.mpr ⟨by decide, ?_⟩
  refine require_bind.mpr ⟨h.settingsSchema, ?_⟩
  refine require_bind.mpr ⟨trivial, ?_⟩
  refine bind_eq_ok.mpr
    ⟨manifest.backupPurpose, decodePurpose_eq_ok.mpr ⟨rfl, h.purpose⟩, ?_⟩
  refine bind_eq_ok.mpr ⟨manifest.compression, rfl, ?_⟩
  refine bind_eq_ok.mpr
    ⟨_, new_eq_ok.mpr ⟨h.databaseSchema_eq_zero, h.purpose, h.time, rfl⟩, ?_⟩
  exact require_bind.mpr ⟨h.entryCount.symm, rfl⟩

end Manifest

/-! ### Entry prefix -/

def entryMagic : Bytes := ascii "TMENTR01"
def codecZstd : ℕ := 1
def entryFlags : ℕ := 3

structure EntryPrefix where
  kind : EntryKind
  compression : BackupCompression
  expandedLen : ℕ
  expandedSha256 : Bytes32
  deriving DecidableEq

namespace EntryPrefix

def fields (entry : EntryPrefix) : List Bytes :=
  [entryMagic, leBytes 1 entry.kind.wire, leBytes 1 codecZstd, leBytes 1 entry.compression.wire,
    leBytes 1 entryFlags, leBytes 4 entryPrefixBytes, leBytes 8 entry.expandedLen,
    entry.expandedSha256.asBytes, leBytes 4 packageWindowLog, List.replicate 4 0]

def encode (entry : EntryPrefix) : Bytes := entry.fields.flatten

/-- Offsets 0, 8, 9, 10, 11, 12, 16, 24, 56 and 60. -/
def widths : List ℕ := [8, 1, 1, 1, 1, 4, 8, 32, 4, 4]

def digestOf (bytes : Bytes) : Option Bytes32 :=
  if h : bytes.length = 32 then some ⟨bytes, h⟩ else none

def decode (bytes : Bytes) : Except StateErrorCode EntryPrefix :=
  match cut widths bytes with
  | [magic, kind, codec, compression, flags, length, expandedLen, sha256, windowLog, reserved] => do
    Except.require .integrity (magic = entryMagic)
    let kind ← Except.okOr .unsupportedVersion (EntryKind.fromWire (leNat kind))
    Except.require .unsupportedVersion (leNat codec = codecZstd ∧ leNat flags = entryFlags ∧
      leNat length = entryPrefixBytes ∧ leNat windowLog = packageWindowLog ∧
      reserved = List.replicate 4 0)
    let compression ← Except.okOr .unsupportedVersion (BackupCompression.fromWire (leNat compression))
    let expandedSha256 ← Except.okOr .integrity (digestOf sha256)
    .ok ⟨kind, compression, leNat expandedLen, expandedSha256⟩
  | _ => .error .integrity

theorem digestOf_asBytes (digest : Bytes32) : digestOf digest.asBytes = some digest :=
  dif_pos digest.length_eq

theorem fields_lengths (entry : EntryPrefix) : entry.fields.map List.length = widths := by
  simp [fields, widths, entryMagic, ascii]

@[simp] theorem length_encode (entry : EntryPrefix) : entry.encode.length = entryPrefixBytes := by
  rw [encode, length_flatten, fields_lengths]
  rfl

variable {entry : EntryPrefix}

theorem decode_encode (h : entry.expandedLen < 2 ^ 64) :
    decode entry.encode = .ok entry := by
  have hcut : cut widths entry.encode = entry.fields := by
    rw [← entry.fields_lengths, encode, cut_flatten]
  have hkd : leNat (leBytes 1 entry.kind.wire) = entry.kind.wire := leNat_leBytes entry.kind.wire_lt
  have hcmp : leNat (leBytes 1 entry.compression.wire) = entry.compression.wire :=
    leNat_leBytes entry.compression.wire_lt
  have hlen : leNat (leBytes 8 entry.expandedLen) = entry.expandedLen := leNat_leBytes h
  rw [decode, hcut, fields]
  simp only [hkd, hcmp, hlen, EntryKind.fromWire_wire, BackupCompression.fromWire_wire,
    digestOf_asBytes, okOr_some]
  refine require_bind.mpr ⟨trivial, ?_⟩
  refine bind_eq_ok.mpr ⟨entry.kind, rfl, ?_⟩
  refine require_bind.mpr ⟨by decide, ?_⟩
  refine bind_eq_ok.mpr ⟨entry.compression, rfl, ?_⟩
  exact bind_eq_ok.mpr ⟨entry.expandedSha256, rfl, rfl⟩

end EntryPrefix

/-! ### Entry suffix and footer -/

def entryEndMagic : Bytes := ascii "TMENEND1"
def footerMagic : Bytes := ascii "TMEND001"

structure EntrySuffix where
  compressedLen : ℕ
  expandedLen : ℕ

namespace EntrySuffix

def fields (entry : EntrySuffix) : List Bytes :=
  [entryEndMagic, leBytes 8 entry.compressedLen, leBytes 8 entry.expandedLen]

def encode (entry : EntrySuffix) : Bytes := entry.fields.flatten

def widths : List ℕ := [8, 8, 8]

def decode (bytes : Bytes) : Except StateErrorCode EntrySuffix :=
  match cut widths bytes with
  | [magic, compressedLen, expandedLen] => do
    Except.require .integrity (magic = entryEndMagic)
    .ok ⟨leNat compressedLen, leNat expandedLen⟩
  | _ => .error .integrity

theorem fields_lengths (entry : EntrySuffix) : entry.fields.map List.length = widths := by
  simp [fields, widths, entryEndMagic, ascii]

@[simp] theorem length_encode (entry : EntrySuffix) : entry.encode.length = entrySuffixBytes := by
  rfl

theorem decode_encode {entry : EntrySuffix} (hcomp : entry.compressedLen < 2 ^ 64)
    (hexp : entry.expandedLen < 2 ^ 64) : decode entry.encode = .ok entry := by
  have hcut : cut widths entry.encode = entry.fields := by
    rw [← entry.fields_lengths, encode, cut_flatten]
  have hcompN : leNat (leBytes 8 entry.compressedLen) = entry.compressedLen :=
    leNat_leBytes hcomp
  have hexpN : leNat (leBytes 8 entry.expandedLen) = entry.expandedLen :=
    leNat_leBytes hexp
  rw [decode, hcut, fields]
  simp only [hcompN, hexpN]
  exact require_bind.mpr ⟨trivial, rfl⟩

end EntrySuffix

end TokenMaster.State
