import TokenMaster.State.Package.Input
import TokenMaster.State.Settings

/-!
# TokenMaster.State.Package.Reader — reading a package

`read_package` and `decode_frame` of `crates/state/src/package/reader.rs`.  The compressed frames are
`zstd`'s: `Zstd` has the encoder that the writer configures, the content size in a frame header, and
the streaming decoder, seen as a function of what is left of the stream.
-/

namespace TokenMaster.State

/-! ### Frames -/

/-- The decoder is at the end of its frame, has refused the input, or has asked for more of it. -/
inductive DecodeEnd where
  | finished
  | corrupt
  | starved

/-- What a single-frame decoder does on a stream: its output, how many bytes it has taken, and how it
has ended. -/
structure Decoded where
  output : Bytes
  consumed : ℕ
  ending : DecodeEnd

structure Zstd where
  /-- The frame of one entry: with checksum and content size, window log 23, one compression level. -/
  encode : BackupCompression → Bytes → Bytes
  /-- `get_frame_content_size`: fails if the header is incomplete; a frame need not have a size. -/
  contentSize : Bytes → Option (Option ℕ)
  decode : Bytes → Decoded

def zstdMagic : Bytes := [0x28, 0xb5, 0x2f, 0xfd]
def checksumFlag : UInt8 := 0x04
def reservedFlags : UInt8 := 0x18
def dictionaryIdFlags : UInt8 := 0x03

def FrameHeaderValid (bytes : Bytes) : Prop :=
  bytes.getD 4 0 &&& checksumFlag ≠ 0 ∧ bytes.getD 4 0 &&& reservedFlags = 0 ∧
    bytes.getD 4 0 &&& dictionaryIdFlags = 0

instance (bytes : Bytes) : Decidable (FrameHeaderValid bytes) :=
  inferInstanceAs (Decidable (_ ∧ _ ∧ _))

def validateZstdFrameHeader (bytes : Bytes) : Except StateErrorCode Unit := do
  Except.require .integrity (5 ≤ bytes.length ∧ bytes.take 4 = zstdMagic)
  Except.require .unsupportedVersion (FrameHeaderValid bytes)

/-- `validate_entry`. -/
def validateEntry (entry : EntryPrefix) : Except StateErrorCode Unit := do
  Except.require .invalidInput (entry.expandedLen ≠ 0)
  Except.require .capacityExceeded (entry.expandedLen ≤ match entry.kind with
    | .settings => maxSettingsPackageBytes
    | .database => maxDatabasePackageBytes)

/-! ### Packages -/

structure PackageReceipt where
  packageLen : ℕ
  packageSha256 : Bytes32
  fileSha256 : Bytes32
  deriving DecidableEq

structure ParsedPackage where
  settings : PortableSettingsCandidate
  receipt : PackageReceipt
  manifest : Manifest
  database : Option EntryPrefix
  deriving DecidableEq

/-- What the loop over the entries carries; `descriptor` was fed to `descriptor_hasher`, and `sink` is
the database. -/
structure EntryState where
  input : PackageInput
  descriptor : Bytes
  settingsBytes : Bytes
  sink : Bytes
  expandedTotal : ℕ
  database : Option EntryPrefix

/-- The first entry is the settings, the second the database. -/
def expectedEntry (index : ℕ) : EntryKind := if index = 0 then .settings else .database

section Reader

variable (zstd : Zstd) (sha256 : Bytes → Bytes32) (json : SettingsJson)

/-- `decode_frame`; the output goes to the sink of the caller.  The header is looked at in what is
buffered. -/
def decodeFrame (entry : EntryPrefix) (input : PackageInput) :
    Except StateErrorCode (Bytes × PackageInput) := do
  let input ← input.refill
  validateZstdFrameHeader input.buffered
  let contentSize ← Except.okOr .integrity (zstd.contentSize input.buffered)
  Except.require .integrity (contentSize = some entry.expandedLen)
  let decoded := zstd.decode input.available.1
  Except.require .integrity (decoded.output.length ≤ entry.expandedLen)
  match decoded.ending with
  | .corrupt => .error .integrity
  | .starved => .error input.available.2
  | .finished => do
    let (_, input) ← input.readExact true decoded.consumed
    Except.require .integrity (decoded.output.length = entry.expandedLen ∧
      sha256 decoded.output = entry.expandedSha256)
    .ok (decoded.output, input)

/-- One round of the loop over the entries. -/
def readEntry (manifest : Manifest) (state : EntryState) (index : ℕ) :
    Except StateErrorCode EntryState := do
  let (prefixBytes, input) ← state.input.readExact true entryPrefixBytes
  let entry ← EntryPrefix.decode prefixBytes
  Except.require .invalidInput
    (entry.kind = expectedEntry index ∧ entry.compression = manifest.compression)
  validateEntry entry
  let compressedStart := input.consumed
  let (output, input) ← decodeFrame zstd sha256 entry input
  let compressedLen := input.consumed - compressedStart
  let (suffixBytes, input) ← input.readExact true entrySuffixBytes
  let closing ← EntrySuffix.decode suffixBytes
  Except.require .integrity (compressedLen ≠ 0 ∧ closing.compressedLen = compressedLen ∧
    closing.expandedLen = entry.expandedLen)
  Except.require .capacityExceeded (state.expandedTotal + entry.expandedLen < 2 ^ 64)
  .ok
    { input := input
      descriptor := state.descriptor ++ prefixBytes ++ suffixBytes
      settingsBytes :=
        if entry.kind = .settings then state.settingsBytes ++ output else state.settingsBytes
      sink := if entry.kind = .settings then state.sink else state.sink ++ output
      expandedTotal := state.expandedTotal + entry.expandedLen
      database := if entry.kind = .settings then state.database else some entry }

/-- The settings are decoded last. -/
def parsePackage (manifest : Manifest) (settingsBytes sink : Bytes) (database : Option EntryPrefix)
    (receipt : PackageReceipt) : Except StateErrorCode (ParsedPackage × Bytes) := do
  let settings ← PortableSettingsCandidate.decode json sha256 settingsBytes
  Except.require .integrity (settings.sourceSchemaVersion = manifest.settingsSchemaVersion)
  .ok (⟨settings, receipt, manifest, database⟩, sink)

/-- `stored_package_sha256 != computed_package_sha256 || input.has_trailing()?`. -/
def footerRejected (stored : Bytes) (computed : Bytes32) (input : PackageInput) :
    Except StateErrorCode Bool :=
  if stored = computed.asBytes then input.hasTrailing else .ok true

/-- Everything behind the entries. -/
def readFooter (header : Header) (manifest : Manifest) (state : EntryState) :
    Except StateErrorCode (ParsedPackage × Bytes) := do
  Except.require .integrity (state.expandedTotal = header.totalExpanded)
  let (binding, input) ← state.input.readExact true footerDigestBytes
  Except.require .integrity (binding = (sha256 state.descriptor).asBytes)
  let (magic, input) ← input.readExact true 8
  Except.require .integrity (magic = footerMagic)
  let computed := sha256 input.hashed
  let (stored, input) ← input.readExact false footerDigestBytes
  let rejected ← footerRejected stored computed input
  Except.require .integrity (rejected = false)
  parsePackage sha256 json manifest state.settingsBytes state.sink state.database
    ⟨input.consumed, computed, sha256 input.fileHashed⟩

/-- `read_package`, with the bytes that were written to the sink. -/
def readPackage (expectedKind : PackageKind) (source : Source IoErrorKind) :
    Except StateErrorCode (ParsedPackage × Bytes) := do
  let (headerRead, input) ← (PackageInput.new source).readExact true headerBytes
  let header ← Header.decode headerRead
  Except.require .invalidInput (header.kind = expectedKind)
  Except.require .unsupportedVersion (header.manifestLen = manifestBytes)
  let (manifestRead, input) ← input.readExact true manifestBytes
  let manifest ← Manifest.decode manifestRead
  Except.require .integrity (manifest.kind = header.kind ∧ manifest.entryCount = header.entryCount)
  Except.require .unsupportedVersion
    (¬ (expectedKind = .config ∧ manifest.compression ≠ .normal))
  let state ← (List.range header.entryCount).foldlM (readEntry zstd sha256 manifest)
    ⟨input, manifestRead, [], [], 0, none⟩
  readFooter sha256 json header manifest state

end Reader

end TokenMaster.State
