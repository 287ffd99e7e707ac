import Mathlib.Data.List.Lex
import TokenMaster.Lib.Keyed
import TokenMaster.Lib.PrefixCode
import TokenMaster.Lib.SortBy
import TokenMaster.Pricing.Catalog

/-!
# TokenMaster.Pricing.Overrides — override snapshots and the pricing engine

`crates/pricing/src/overrides.rs`.  Drafts are checked, merged with the embedded catalog, sorted by
their keys and hashed into a revision.  The engine looks an override up by binary search; the slices it
searches are sorted and have unique keys, so this finds the row of a key wherever there is one.
`sha2` is the parameter `sha256`.
-/

namespace TokenMaster.Pricing

def maxOverrideEntries : ℕ := 512
def maxOverrideModelBytes : ℕ := 64

inductive OverrideErrorCode where
  | tooManyEntries
  | invalidKey
  | duplicateKey
  | keyConflict
  | incompleteRule
  | aliasChain
  | aliasTargetUnknown

/-! ### Drafts -/

structure PriceRatesOverride where
  uncachedInput : Option UsdPerMillion
  cachedInput : Option UsdPerMillion
  billableOutput : Option UsdPerMillion

def PriceRatesOverride.hasValue (patch : PriceRatesOverride) : Bool :=
  patch.uncachedInput.isSome || patch.cachedInput.isSome || patch.billableOutput.isSome

structure ModelOverrideDraft where
  model : Bytes
  standardShort : Option PriceRatesOverride
  standardLong : Option PriceRatesOverride
  priorityShort : Option PriceRatesOverride
  priorityLong : Option PriceRatesOverride

structure AliasOverrideDraft where
  aliasKey : Bytes
  target : Bytes

inductive OverrideDraft where
  | model (draft : ModelOverrideDraft)
  | aliasTo (draft : AliasOverrideDraft)

namespace OverrideDraft

def key : OverrideDraft → Bytes
  | .model draft => draft.model
  | .aliasTo draft => draft.aliasKey

def model? : OverrideDraft → Option ModelOverrideDraft
  | .model draft => some draft
  | .aliasTo _ => none

def alias? : OverrideDraft → Option AliasOverrideDraft
  | .model _ => none
  | .aliasTo draft => some draft

end OverrideDraft

/-- `is_valid_model_key`. -/
def isValidModelKey (value : Bytes) : Bool :=
  value ≠ [] && value.length ≤ maxOverrideModelBytes &&
    value.all fun byte => (48 ≤ byte && byte ≤ 57) || (65 ≤ byte && byte ≤ 90) ||
      (97 ≤ byte && byte ≤ 122) || byte ∈ ascii "._-/:"

/-! ### Effective rules -/

structure EffectiveModelRule extends RateTable where
  canonicalModel : Bytes

structure AliasRule where
  aliasKey : Bytes
  target : Bytes

def mergeRates (base : Option PriceRates) (patch : Option PriceRatesOverride) :
    Except OverrideErrorCode (Option PriceRates) :=
  match patch with
  | none => .ok base
  | some patch =>
    match patch.uncachedInput.or (base.map (·.uncachedInput)),
      patch.cachedInput.or (base.map (·.cachedInput)),
      patch.billableOutput.or (base.map (·.billableOutput)) with
    | some uncachedInput, some cachedInput, some billableOutput =>
      .ok (some ⟨uncachedInput, cachedInput, billableOutput⟩)
    | _, _, _ => .error .incompleteRule

def hasPatch (draft : ModelOverrideDraft) : Bool :=
  [draft.standardShort, draft.standardLong, draft.priorityShort, draft.priorityLong].any fun patch =>
    patch.any (·.hasValue)

/-- The loop over the models of `build`, for one draft. -/
def effectiveRule (draft : ModelOverrideDraft) : Except OverrideErrorCode EffectiveModelRule := do
  Except.require .incompleteRule (hasPatch draft)
  let base := embeddedRule draft.model
  let standardShort ← mergeRates (base.map (·.standardShort)) draft.standardShort
  let standardShort ← Except.okOr .incompleteRule standardShort
  let standardLong ← mergeRates (base.bind (·.standardLong)) draft.standardLong
  let priorityShort ← mergeRates (base.bind (·.priorityShort)) draft.priorityShort
  let priorityLong ← mergeRates (base.bind (·.priorityLong)) draft.priorityLong
  return ⟨⟨standardShort, standardLong, priorityShort, priorityLong⟩, draft.model⟩

/-- The loop over the aliases of `build`, for one draft. -/
def aliasRule (aliasKeys : List Bytes) (models : List EffectiveModelRule)
    (draft : AliasOverrideDraft) : Except OverrideErrorCode AliasRule := do
  Except.require .aliasChain
    (draft.target ∉ aliasKeys ∧ embeddedAliasTarget draft.target = none)
  Except.require .aliasTargetUnknown ((embeddedRule draft.target).isSome ∨
    draft.target ∈ models.map (·.canonicalModel))
  return ⟨draft.aliasKey, draft.target⟩

/-! ### Revisions -/

def encodeString (value : Bytes) : Bytes := UInt8.ofNat value.length :: value

def encodeRates (rates : PriceRates) : Bytes :=
  leBytes 8 rates.uncachedInput.micros ++
    (leBytes 8 rates.cachedInput.micros ++ leBytes 8 rates.billableOutput.micros)

/-- `hash_rates`. -/
def encodeOptionalRates (rates : Option PriceRates) : Bytes := encodeOption encodeRates rates

def encodeModelRule (rule : EffectiveModelRule) : Bytes :=
  ascii "model\x00" ++ (encodeString rule.canonicalModel ++
    (encodeOptionalRates (some rule.standardShort) ++ (encodeOptionalRates rule.standardLong ++
      (encodeOptionalRates rule.priorityShort ++ encodeOptionalRates rule.priorityLong))))

def encodeAliasRule (rule : AliasRule) : Bytes :=
  ascii "alias\x00" ++ (encodeString rule.aliasKey ++ encodeString rule.target)

/-- What `revision_for` feeds to the hasher. -/
def encodeRules (models : List EffectiveModelRule) (aliases : List AliasRule) : Bytes :=
  ascii "tokenmaster-pricing-overrides-v1\x00" ++
    (models.flatMap encodeModelRule ++ aliases.flatMap encodeAliasRule)

structure OverrideSnapshot where
  models : List EffectiveModelRule
  aliases : List AliasRule
  entryCount : ℕ
  revision : Bytes32

section Build

variable (sha256 : Bytes → Bytes32)

def fromValidated (models : List EffectiveModelRule) (aliases : List AliasRule) (entryCount : ℕ) :
    OverrideSnapshot :=
  ⟨models, aliases, entryCount, sha256 (encodeRules models aliases)⟩

/-- The first loop of `build`; `seen` is `candidate_keys`. -/
def checkDraft (seen : List Bytes) (draft : OverrideDraft) :
    Except OverrideErrorCode (List Bytes) := do
  Except.require .invalidKey (isValidModelKey draft.key)
  Except.require .duplicateKey (draft.key ∉ seen)
  match draft with
  | .model draft => Except.require .keyConflict (embeddedAliasTarget draft.model = none)
  | .aliasTo draft =>
    Except.require .keyConflict
      (embeddedRule draft.aliasKey = none ∧ embeddedAliasTarget draft.aliasKey = none)
    Except.require .invalidKey (isValidModelKey draft.target)
  return draft.key :: seen

/-- The bytes of a key as numbers, which compare as the bytes do. -/
def keyOrder (key : Bytes) : List ℕ := key.map UInt8.toNat

theorem keyOrder_injective : Function.Injective keyOrder :=
  List.map_injective_iff.mpr fun _ _ h => UInt8.toNat_inj.mp h

def build (drafts : List OverrideDraft) : Except OverrideErrorCode OverrideSnapshot := do
  Except.require .tooManyEntries (drafts.length ≤ maxOverrideEntries)
  let _ ← drafts.foldlM checkDraft []
  let models ← (drafts.filterMap OverrideDraft.model?).mapM effectiveRule
  let models := sortBy (fun rule => keyOrder rule.canonicalModel) models
  let aliasDrafts := drafts.filterMap OverrideDraft.alias?
  let aliases ← aliasDrafts.mapM (aliasRule (aliasDrafts.map (·.aliasKey)) models)
  return fromValidated sha256 models (sortBy (fun rule => keyOrder rule.aliasKey) aliases)
    drafts.length

end Build

/-! ### The engine -/

inductive RuleSource where
  | embedded
  | override
  deriving DecidableEq

structure ResolvedPriceRule where
  canonicalModel : Bytes
  rates : PriceRates
  source : RuleSource
  assumedStandard : Bool

structure EngineQuote where
  amount : UsdMicros
  canonicalModel : Bytes
  source : RuleSource
  overrideRevision : Bytes32

structure PricingEngine where
  overrides : OverrideSnapshot

namespace PricingEngine

def embedded (sha256 : Bytes → Bytes32) : PricingEngine := ⟨fromValidated sha256 [] [] 0⟩

variable (engine : PricingEngine)

/-- The model behind a name: one override alias, then one of the catalog. -/
def canonicalModel (name : Bytes) : Bytes :=
  canonicalName (((engine.overrides.aliases.find? fun rule => rule.aliasKey = name).map
    (·.target)).getD name)

def resolve (name : Bytes) (tier : ServiceTier) (context : ContextClass) :
    Except PriceErrorCode ResolvedPriceRule :=
  let canonicalModel := engine.canonicalModel name
  match engine.overrides.models.find? fun rule => rule.canonicalModel = canonicalModel with
  | some rule => do
    let rates ← rule.select tier context
    return ⟨rule.canonicalModel, rates, .override, tier = .standardAssumed⟩
  | none => do
    let rule ← Except.okOr .modelUnpriced (embeddedRule canonicalModel)
    let rates ← rule.select tier context
    return ⟨rule.canonicalModel, rates, .embedded, tier = .standardAssumed⟩

def price (name : Bytes) (tier : ServiceTier) (context : ContextClass) (basis : TokenPriceBasis) :
    Except PriceErrorCode EngineQuote := do
  let resolved ← engine.resolve name tier context
  let amount ← calculateCost resolved.rates basis
  return ⟨amount, resolved.canonicalModel, resolved.source, engine.overrides.revision⟩

end PricingEngine

end TokenMaster.Pricing
