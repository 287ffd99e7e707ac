import Mathlib.Data.List.Sort
import TokenMaster.State.Package.Format

/-!
# TokenMaster.State.Settings — portable settings and their encoding

The settings values of `crates/state/src/settings/value.rs`, the migrations of `migration.rs` and the
candidates of `preview.rs`.  The text layer is `serde_json`: `SettingsJson` renders and parses the wire
structs, and what the source does after parsing (bounds, policies, migrations) is modelled.  Settings
that are encoded decode to themselves (`decode_encodeJson`).
-/

namespace TokenMaster.State

open TokenMaster.Except

/-! ### Policies -/

def maxReminderThresholds : ℕ := 8
def reminderLeadMinSeconds : ℕ := 60
def reminderLeadMaxSeconds : ℕ := 365 * 24 * 60 * 60
def backupQuietMinSeconds : ℕ := 5 * 60
def backupQuietMaxSeconds : ℕ := 60 * 60
def backupIntervalMinSeconds : ℕ := 6 * 60 * 60
def backupIntervalMaxSeconds : ℕ := 7 * 24 * 60 * 60
def backupRetentionMinBytes : ℕ := 256 * 1024 * 1024
def backupRetentionMaxBytes : ℕ := 64 * 1024 * 1024 * 1024

/-- Leads that `ReminderPolicy::new` accepts, in any order. -/
structure LeadsValid (enabled : Bool) (leads : List ℕ) : Prop where
  enabled_iff : enabled ≠ leads.isEmpty
  in_range : ∀ lead ∈ leads, reminderLeadMinSeconds ≤ lead ∧ lead ≤ reminderLeadMaxSeconds
  nodup : leads.Nodup

instance (enabled : Bool) (leads : List ℕ) : Decidable (LeadsValid enabled leads) :=
  decidable_of_iff (enabled ≠ leads.isEmpty ∧
    (∀ lead ∈ leads, reminderLeadMinSeconds ≤ lead ∧ lead ≤ reminderLeadMaxSeconds) ∧ leads.Nodup)
    ⟨fun ⟨h₁, h₂, h₃⟩ => ⟨h₁, h₂, h₃⟩, fun ⟨h₁, h₂, h₃⟩ => ⟨h₁, h₂, h₃⟩⟩

/-- Leads are distinct and kept in descending order. -/
structure ReminderPolicy where
  enabled : Bool
  leadSeconds : List ℕ
  length_le : leadSeconds.length ≤ maxReminderThresholds
  valid : LeadsValid enabled leadSeconds
  descending : leadSeconds.Pairwise (· ≥ ·)
  deriving DecidableEq

theorem LeadsValid.perm {enabled : Bool} {leads leads' : List ℕ} (h : LeadsValid enabled leads)
    (hp : leads'.Perm leads) : LeadsValid enabled leads' := by
  refine ⟨?_, ?_, hp.nodup_iff.mpr h.nodup⟩
  · have hemp : leads'.isEmpty = leads.isEmpty := by
      rw [Bool.eq_iff_iff, List.isEmpty_iff, List.isEmpty_iff]
      constructor
      · rintro rfl
        exact hp.symm.eq_nil
      · rintro rfl
        exact hp.eq_nil
    rw [hemp]
    exact h.enabled_iff
  · intro lead hld
    exact h.in_range lead (hp.mem_iff.mp hld)

def ReminderPolicy.new (enabled : Bool) (leadSeconds : List ℕ) :
    Except StateErrorCode ReminderPolicy :=
  if hlength : leadSeconds.length ≤ maxReminderThresholds then
    if hvalid : LeadsValid enabled leadSeconds then
      .ok ⟨enabled, leadSeconds.insertionSort (· ≥ ·),
        by rw [List.length_insertionSort]; exact hlength,
        hvalid.perm (List.perm_insertionSort _ _), List.pairwise_insertionSort _ _⟩
    else .error .invalidInput
  else .error .capacityExceeded

/-- A policy is normalized already. -/
theorem ReminderPolicy.new_self (policy : ReminderPolicy) :
    ReminderPolicy.new policy.enabled policy.leadSeconds = .ok policy := by
  have hso : policy.leadSeconds.insertionSort (· ≥ ·) = policy.leadSeconds :=
    policy.descending.insertionSort_eq
  rw [ReminderPolicy.new, dif_pos policy.length_le, dif_pos policy.valid]
  congr

structure BackupPolicyWire where
  periodicEnabled : Bool
  quietSeconds : ℕ
  intervalSeconds : ℕ
  retentionBudgetBytes : ℕ
  deriving DecidableEq

structure BackupPolicy extends BackupPolicyWire where
  quiet_range : backupQuietMinSeconds ≤ quietSeconds ∧ quietSeconds ≤ backupQuietMaxSeconds
  interval_range : backupIntervalMinSeconds ≤ intervalSeconds ∧
    intervalSeconds ≤ backupIntervalMaxSeconds
  quiet_lt : quietSeconds < intervalSeconds
  retention_range : backupRetentionMinBytes ≤ retentionBudgetBytes ∧
    retentionBudgetBytes ≤ backupRetentionMaxBytes
  deriving DecidableEq

def BackupPolicy.new (wire : BackupPolicyWire) : Except StateErrorCode BackupPolicy :=
  if h : (backupQuietMinSeconds ≤ wire.quietSeconds ∧ wire.quietSeconds ≤ backupQuietMaxSeconds) ∧
      (backupIntervalMinSeconds ≤ wire.intervalSeconds ∧
        wire.intervalSeconds ≤ backupIntervalMaxSeconds) ∧
      wire.quietSeconds < wire.intervalSeconds ∧
      backupRetentionMinBytes ≤ wire.retentionBudgetBytes ∧
        wire.retentionBudgetBytes ≤ backupRetentionMaxBytes then
    .ok ⟨wire, h.1, h.2.1, h.2.2.1, h.2.2.2⟩
  else .error .invalidInput

theorem BackupPolicy.new_self (policy : BackupPolicy) :
    BackupPolicy.new policy.toBackupPolicyWire = .ok policy :=
  dif_pos ⟨policy.quiet_range, policy.interval_range, policy.quiet_lt, policy.retention_range⟩

/-! ### Presentation -/

inductive PresentationDensity where
  | comfortable
  | compact
  | ultraCompact
  deriving DecidableEq

inductive PresentationSkin where
  | refined
  | graphite
  | ember
  deriving DecidableEq

inductive PresentationColorScheme where
  | system
  | light
  | dark
  deriving DecidableEq

inductive PresentationLayout where
  | refined
  | controlCenter
  | workbench
  deriving DecidableEq

inductive PresentationLocale where
  | english
  | russian
  | pseudo
  deriving DecidableEq

inductive BoardSectionKey where
  | planUsage
  | codeOutput
  | trend
  | sessions
  | activity
  | models
  deriving DecidableEq

structure BoardSectionPreference where
  key : BoardSectionKey
  visible : Bool
  collapsed : Bool
  deriving DecidableEq

def boardSectionCount : ℕ := 6

/-- Six rows, one for each key, at least one of them visible. -/
structure BoardPreferences where
  rows : List BoardSectionPreference
  length_eq : rows.length = boardSectionCount
  keys : (rows.map (·.key)).Nodup
  visible : rows.any (·.visible) = true
  deriving DecidableEq

/-- With six rows, distinct keys are all keys. -/
def BoardPreferences.new (rows : List BoardSectionPreference) :
    Except StateErrorCode BoardPreferences :=
  if h : rows.length = boardSectionCount ∧ (rows.map (·.key)).Nodup ∧
      rows.any (·.visible) = true then .ok ⟨rows, h.1, h.2.1, h.2.2⟩
  else .error .invalidInput

theorem BoardPreferences.new_self (board : BoardPreferences) :
    BoardPreferences.new board.rows = .ok board :=
  dif_pos ⟨board.length_eq, board.keys, board.visible⟩

def BoardPreferences.canonical : BoardPreferences :=
  ⟨[⟨.planUsage, true, false⟩, ⟨.codeOutput, true, false⟩, ⟨.trend, true, false⟩,
    ⟨.sessions, true, false⟩, ⟨.activity, true, false⟩, ⟨.models, true, false⟩],
    by decide, by decide, by decide⟩

structure PresentationSettings where
  density : PresentationDensity
  skin : PresentationSkin
  colorScheme : PresentationColorScheme
  layout : PresentationLayout
  locale : PresentationLocale
  board : BoardPreferences
  deriving DecidableEq

structure PortableSettings where
  reminders : ReminderPolicy
  backup : BackupPolicy
  presentation : PresentationSettings
  deriving DecidableEq

/-! ### Wire structs and migrations -/

structure ReminderPolicyWire where
  enabled : Bool
  leadSeconds : List ℕ

/-- The presentation part of the seven schema versions; version 1 has none. -/
inductive PresentationWire where
  | v1
  | v2 (density : PresentationDensity)
  | v3 (density : PresentationDensity) (skin : PresentationSkin)
  | v4 (density : PresentationDensity) (skin : PresentationSkin)
    (colorScheme : PresentationColorScheme)
  | v5 (density : PresentationDensity) (skin : PresentationSkin)
    (colorScheme : PresentationColorScheme) (layout : PresentationLayout)
  | v6 (density : PresentationDensity) (skin : PresentationSkin)
    (colorScheme : PresentationColorScheme) (layout : PresentationLayout)
    (board : List BoardSectionPreference)
  | v7 (density : PresentationDensity) (skin : PresentationSkin)
    (colorScheme : PresentationColorScheme) (layout : PresentationLayout)
    (locale : PresentationLocale) (board : List BoardSectionPreference)

structure PortableWire where
  reminders : ReminderPolicyWire
  backup : BackupPolicyWire
  presentation : PresentationWire

/-- `PresentationSettings::new`: the board is the canonical one. -/
def PresentationSettings.new (density : PresentationDensity) (skin : PresentationSkin)
    (colorScheme : PresentationColorScheme) (layout : PresentationLayout)
    (locale : PresentationLocale) : PresentationSettings :=
  ⟨density, skin, colorScheme, layout, locale, .canonical⟩

def PresentationSettings.legacyDark (density : PresentationDensity) (skin : PresentationSkin) :
    PresentationSettings :=
  .new density skin .dark .refined .english

def PresentationWire.migrate : PresentationWire → Except StateErrorCode PresentationSettings
  | .v1 => .ok (.legacyDark .comfortable .refined)
  | .v2 density => .ok (.legacyDark density .refined)
  | .v3 density skin => .ok (.legacyDark density skin)
  | .v4 density skin colorScheme => .ok (.new density skin colorScheme .refined .english)
  | .v5 density skin colorScheme layout => .ok (.new density skin colorScheme layout .english)
  | .v6 density skin colorScheme layout board => do
    let board ← BoardPreferences.new board
    .ok ⟨density, skin, colorScheme, layout, .english, board⟩
  | .v7 density skin colorScheme layout locale board => do
    let board ← BoardPreferences.new board
    .ok ⟨density, skin, colorScheme, layout, locale, board⟩

/-- The `Deserialize` implementations, which run the constructors, and the migrations. -/
def PortableWire.migrate (wire : PortableWire) : Except StateErrorCode PortableSettings := do
  let reminders ← ReminderPolicy.new wire.reminders.enabled wire.reminders.leadSeconds
  let backup ← BackupPolicy.new wire.backup
  let presentation ← wire.presentation.migrate
  .ok ⟨reminders, backup, presentation⟩

/-- The `Serialize` implementations. -/
def PortableSettings.toWire (portable : PortableSettings) : PortableWire :=
  ⟨⟨portable.reminders.enabled, portable.reminders.leadSeconds⟩,
    portable.backup.toBackupPolicyWire,
    .v7 portable.presentation.density portable.presentation.skin portable.presentation.colorScheme
      portable.presentation.layout portable.presentation.locale portable.presentation.board.rows⟩

theorem PortableSettings.migrate_toWire (portable : PortableSettings) :
    portable.toWire.migrate = .ok portable := by
  refine bind_eq_ok.mpr ⟨portable.reminders, portable.reminders.new_self, ?_⟩
  refine bind_eq_ok.mpr ⟨portable.backup, portable.backup.new_self, ?_⟩
  refine bind_eq_ok.mpr ⟨portable.presentation, ?_, rfl⟩
  exact bind_eq_ok.mpr ⟨portable.presentation.board, portable.presentation.board.new_self, rfl⟩

/-! ### Candidates -/

/-- `serde_json` on the candidate structs: the version probe, parsing as the struct of one version
(which gives its `schema_version` and `portable`), and rendering. -/
structure SettingsJson where
  probe : Bytes → Option ℕ
  parse : ℕ → Bytes → Option (ℕ × PortableWire)
  render : ℕ → PortableWire → Bytes

/-- What is rendered from the current struct of these settings parses as such. -/
structure SettingsJson.RoundTrips (json : SettingsJson) (portable : PortableSettings) : Prop where
  probe : json.probe (json.render settingsSchemaVersion portable.toWire) =
    some settingsSchemaVersion
  parse : json.parse settingsSchemaVersion (json.render settingsSchemaVersion portable.toWire) =
    some (settingsSchemaVersion, portable.toWire)

structure DecodedPortableSettings where
  portable : PortableSettings
  sourceSchemaVersion : ℕ

/-- `decode_portable_v1` to `decode_portable_v7`. -/
def decodePortable (json : SettingsJson) (version : ℕ) (bytes : Bytes) :
    Except StateErrorCode DecodedPortableSettings := do
  let (schemaVersion, wire) ← Except.okOr .invalidInput (json.parse version bytes)
  let portable ← wire.migrate.mapError fun _ => StateErrorCode.invalidInput
  Except.require .unsupportedVersion (schemaVersion = version)
  .ok ⟨portable, version⟩

def decodePortableCandidate (json : SettingsJson) (bytes : Bytes) :
    Except StateErrorCode DecodedPortableSettings := do
  Except.require .capacityExceeded (bytes.length ≤ maxRecordPayloadBytes)
  let version ← Except.okOr .invalidInput (json.probe bytes)
  Except.require .unsupportedVersion (minSupportedSettingsSchemaVersion ≤ version ∧
    version ≤ settingsSchemaVersion)
  decodePortable json version bytes

def encodePortable (json : SettingsJson) (portable : PortableSettings) :
    Except StateErrorCode Bytes := do
  let bytes := json.render settingsSchemaVersion portable.toWire
  Except.require .capacityExceeded (bytes.length ≤ maxRecordPayloadBytes)
  .ok bytes

structure PortableSettingsCandidate where
  portable : PortableSettings
  digest : Bytes32
  sourceSchemaVersion : ℕ
  deriving DecidableEq

namespace PortableSettingsCandidate

variable (json : SettingsJson) (sha256 : Bytes → Bytes32)

def new (portable : PortableSettings) : Except StateErrorCode PortableSettingsCandidate := do
  let encoded ← encodePortable json portable
  .ok ⟨portable, sha256 encoded, settingsSchemaVersion⟩

def decode (bytes : Bytes) : Except StateErrorCode PortableSettingsCandidate := do
  let decoded ← decodePortableCandidate json bytes
  let candidate ← new json sha256 decoded.portable
  .ok { candidate with sourceSchemaVersion := decoded.sourceSchemaVersion }

def encodeJson (candidate : PortableSettingsCandidate) : Except StateErrorCode Bytes :=
  encodePortable json candidate.portable

/-- **Settings that are encoded decode to themselves**; the source version is the current one. -/
theorem decode_encodeJson {cand : PortableSettingsCandidate} {bytes : Bytes}
    (hjson : json.RoundTrips cand.portable) (h : cand.encodeJson json = .ok bytes) :
    decode json sha256 bytes = .ok ⟨cand.portable, sha256 bytes, settingsSchemaVersion⟩ := by
  have hencode := h
  obtain ⟨_, hlen, hbs⟩ := bind_eq_ok.mp h
  obtain rfl := Except.ok.inj hbs
  have hdeco : decodePortable json settingsSchemaVersion
      (json.render settingsSchemaVersion cand.portable.toWire) =
        .ok ⟨cand.portable, settingsSchemaVersion⟩ := by
    refine bind_eq_ok.mpr ⟨_, okOr_eq_ok.mpr hjson.parse, ?_⟩
    refine bind_eq_ok.mpr ⟨cand.portable, ?_, ?_⟩
    · exact mapError_eq_ok.mpr cand.portable.migrate_toWire
    · exact require_bind.mpr ⟨rfl, rfl⟩
  refine bind_eq_ok.mpr ⟨⟨cand.portable, settingsSchemaVersion⟩, ?_, ?_⟩
  · refine bind_eq_ok.mpr ⟨(), hlen, ?_⟩
    refine bind_eq_ok.mpr ⟨_, okOr_eq_ok.mpr hjson.probe, ?_⟩
    exact require_bind.mpr ⟨by decide, hdeco⟩
  · refine bind_eq_ok.mpr ⟨_, bind_eq_ok.mpr ⟨_, hencode, rfl⟩, rfl⟩

end PortableSettingsCandidate

end TokenMaster.State
