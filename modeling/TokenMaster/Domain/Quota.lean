import TokenMaster.Domain.Text

/-!
# TokenMaster.Domain.Quota — quota windows, definitions and samples

The types of `crates/domain/src/quota.rs`.  A value that the source only builds through a checked
constructor is a structure that carries the checks; `QuotaSample.new` is the constructor that the
store calls again when it loads a sample.
-/

namespace TokenMaster.Domain

def maxQuotaIdBytes : ℕ := 128
def maxQuotaLabelKeyBytes : ℕ := 128

/-- The errors of the quota constructors; a field is the source's field name. -/
inductive QuotaError where
  | invalidId (field : String)
  | invalidRatio
  | emptyUnits
  | unitsExceedCapacity (field : String)
  | emptyResetThresholds
  | invalidMinimumDrop
  | invalidDefinitionRevision
  | invalidLabelKey
  | invalidNominalDuration
  | thresholdsRequireFixedWindow
  | invalidSampleTimes
  | invalidAdvertisedResetTime
  | emptySample
  | resetTimeWithoutEvidence
  | invalidResetOccurredAt

/-- The `quota_id!` newtypes. -/
abbrev QuotaId := AsciiText maxQuotaIdBytes isUsageIdByte

theorem maxQuotaIdBytes_pos : 1 ≤ maxQuotaIdBytes := by decide

abbrev QuotaAccountId := QuotaId
abbrev QuotaWorkspaceId := QuotaId
abbrev QuotaWindowId := QuotaId
abbrev QuotaUnitId := QuotaId
abbrev QuotaProviderEpochId := QuotaId

abbrev QuotaObservationId := Bytes32

/-- The identifier `"b"`. -/
def otherUnitId : QuotaUnitId := ⟨[98], by decide, by decide, by decide⟩

structure QuotaScope where
  providerId : UsageProviderId
  accountId : QuotaAccountId
  workspaceId : Option QuotaWorkspaceId
  deriving DecidableEq

structure QuotaWindowKey where
  scope : QuotaScope
  windowId : QuotaWindowId
  deriving DecidableEq

/-- A ratio in parts per million. -/
structure QuotaRatio where
  partsPerMillion : ℕ
  le_million : partsPerMillion ≤ 1000000
  deriving DecidableEq

structure QuotaUnits where
  unitId : QuotaUnitId
  used : Option ℕ
  remaining : Option ℕ
  capacity : Option ℕ
  some_value : used.isSome ∨ remaining.isSome ∨ capacity.isSome
  used_le : ∀ u ∈ used, ∀ c ∈ capacity, u ≤ c
  remaining_le : ∀ r ∈ remaining, ∀ c ∈ capacity, r ≤ c
  deriving DecidableEq

inductive QuotaWindowSemantics where
  | fixed
  | rolling
  | credit
  | unknown
  deriving DecidableEq

inductive QuotaConfidence where
  | high
  | medium
  | low
  | unknown
  deriving DecidableEq

inductive QuotaSampleQuality where
  | authoritative
  | partial_
  | conflict
  | unknown
  deriving DecidableEq

inductive QuotaEvidenceSource where
  | providerLocal
  | providerOfficial
  | localResetEvent
  | manual
  | unknown
  deriving DecidableEq

inductive QuotaResetEvidence where
  | none
  | explicitProvider
  | explicitLocal
  | manualOrBanked
  deriving DecidableEq

structure QuotaResetThresholds where
  maximumPostResetUsedRatio : Option QuotaRatio
  minimumPostResetRemainingRatio : Option QuotaRatio
  minimumUsedRatioDrop : Option QuotaRatio
  has_boundary : maximumPostResetUsedRatio.isSome ∨ minimumPostResetRemainingRatio.isSome
  drop_pos : ∀ r ∈ minimumUsedRatioDrop, r.partsPerMillion ≠ 0
  deriving DecidableEq

inductive QuotaPresentationDirection where
  | used
  | remaining
  | pace
  deriving DecidableEq

/-- A window definition that passed the checks of `QuotaWindowDefinition::new`. -/
structure QuotaWindowDefinition where
  key : QuotaWindowKey
  revision : ℕ
  labelKey : AsciiText maxQuotaLabelKeyBytes isUsageIdByte
  presentation : QuotaPresentationDirection
  semantics : QuotaWindowSemantics
  nominalDurationSeconds : Option ℕ
  resetThresholds : Option QuotaResetThresholds
  revision_pos : 0 < revision
  duration_pos : nominalDurationSeconds ≠ some 0
  thresholds_fixed : resetThresholds.isSome → semantics = .fixed

theorem QuotaWindowDefinition.data_injective : Function.Injective fun d : QuotaWindowDefinition =>
    ((d.key, d.revision, d.labelKey, d.presentation),
      (d.semantics, d.nominalDurationSeconds, d.resetThresholds)) := by
  rintro ⟨⟩ ⟨⟩ ⟨⟩
  rfl

instance : DecidableEq QuotaWindowDefinition := QuotaWindowDefinition.data_injective.decidableEq

structure QuotaSampleParts where
  key : QuotaWindowKey
  observationId : QuotaObservationId
  observedAtMs : ℤ
  freshUntilMs : ℤ
  staleAfterMs : ℤ
  providerEpochId : Option QuotaProviderEpochId
  usedRatio : Option QuotaRatio
  remainingRatio : Option QuotaRatio
  units : Option QuotaUnits
  advertisedResetsAtMs : Option ℤ
  quality : QuotaSampleQuality
  source : QuotaEvidenceSource
  confidence : QuotaConfidence
  resetEvidence : QuotaResetEvidence
  resetOccurredAtMs : Option ℤ
  deriving DecidableEq

/-- The checks of `QuotaSample::new`. -/
structure QuotaSampleParts.Valid (p : QuotaSampleParts) : Prop where
  observed_pos : 0 < p.observedAtMs
  observed_le_fresh : p.observedAtMs ≤ p.freshUntilMs
  fresh_le_stale : p.freshUntilMs ≤ p.staleAfterMs
  advertised_pos : ∀ t ∈ p.advertisedResetsAtMs, 0 < t
  observable : p.providerEpochId.isSome ∨ p.usedRatio.isSome ∨ p.remainingRatio.isSome ∨
    p.units.isSome ∨ p.advertisedResetsAtMs.isSome ∨ p.resetEvidence ≠ .none
  occurred_evidence : p.resetOccurredAtMs.isSome → p.resetEvidence ≠ .none
  occurred_range : ∀ t ∈ p.resetOccurredAtMs, 0 < t ∧ t ≤ p.observedAtMs

/-- A quota sample: parts that passed every check. -/
structure QuotaSample extends QuotaSampleParts where
  valid : toQuotaSampleParts.Valid

deriving instance DecidableEq for QuotaSample

/-- `QuotaSample::new`, with the errors in the source's order. -/
def QuotaSample.new (parts : QuotaSampleParts) : Except QuotaError QuotaSample :=
  if ht : parts.observedAtMs ≤ 0 ∨ parts.observedAtMs > parts.freshUntilMs ∨
      parts.freshUntilMs > parts.staleAfterMs then .error .invalidSampleTimes
  else if ha : parts.advertisedResetsAtMs.any (· ≤ 0) then .error .invalidAdvertisedResetTime
  else if he : parts.providerEpochId.isNone ∧ parts.usedRatio.isNone ∧
      parts.remainingRatio.isNone ∧ parts.units.isNone ∧ parts.advertisedResetsAtMs.isNone ∧
      parts.resetEvidence = .none then .error .emptySample
  else if hr : parts.resetOccurredAtMs.isSome ∧ parts.resetEvidence = .none then
    .error .resetTimeWithoutEvidence
  else if ho : parts.resetOccurredAtMs.any (fun t => t ≤ 0 ∨ t > parts.observedAtMs) then
    .error .invalidResetOccurredAt
  else .ok
    { parts with
      valid :=
        { observed_pos := by omega
          observed_le_fresh := by omega
          fresh_le_stale := by omega
          advertised_pos := by
            intro t h
            rw [Option.mem_def.mp h] at ha
            simpa using ha
          observable := by
            by_contra hn
            simp only [not_or, Bool.not_eq_true, Option.isSome_eq_false_iff, ne_eq,
              Decidable.not_not] at hn
            exact he hn
          occurred_evidence := fun h1 h2 => hr ⟨h1, h2⟩
          occurred_range := by
            intro t h
            rw [Option.mem_def.mp h] at ho
            simpa using ho } }

end TokenMaster.Domain
