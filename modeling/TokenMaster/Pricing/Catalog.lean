import Mathlib.Data.List.Find
import Mathlib.Data.List.Nodup
import Mathlib.Data.List.Pairwise
import TokenMaster.Lib.Except
import TokenMaster.Lib.Layout

/-!
# TokenMaster.Pricing.Catalog — rates, costs and the embedded catalog

`crates/pricing/src/lib.rs`.  Rates are millionths of a dollar for a million tokens.  A cost is
accumulated as an exact numerator over a million in `u128` and rounded half up to millionths of a
dollar.  Inputs of type `u64` are `UInt64`; texts are their UTF-8 bytes.
-/

namespace TokenMaster.Pricing

open TokenMaster.Except List

def maxRateMicrosPerMillion : ℕ := 1000000000000
def tokensPerMillion : ℕ := 1000000
def halfTokenMillion : ℕ := tokensPerMillion / 2

inductive ServiceTier where
  | standardReported
  | standardAssumed
  | priority
  | unknown
  deriving DecidableEq

inductive ContextClass where
  | short
  | long
  | unavailable

/-- `PriceError` is one of these codes. -/
inductive PriceErrorCode where
  | modelUnpriced
  | tierUnknown
  | contextUnavailable
  | tierContextUnsupported
  | tokenBasisUnavailable
  | inconsistentTokenBasis
  | invalidRate
  | arithmeticOverflow
  | invalidPriceRow
  | tooManyPriceRows
  deriving DecidableEq

/-- A `u64` amount. -/
@[ext] structure UsdMicros where
  get : ℕ
  get_lt : get < 2 ^ 64

instance : DecidableEq UsdMicros := fun _ _ => decidable_of_iff _ UsdMicros.ext_iff.symm

/-- A rate; every constructor keeps it below the maximum. -/
@[ext] structure UsdPerMillion where
  micros : ℕ
  micros_le : micros ≤ maxRateMicrosPerMillion
  deriving DecidableEq

structure TokenPriceBasis where
  uncachedInputTokens : UInt64
  cachedInputTokens : UInt64
  billableOutputTokens : UInt64

@[ext] structure PriceRates where
  uncachedInput : UsdPerMillion
  cachedInput : UsdPerMillion
  billableOutput : UsdPerMillion
  deriving DecidableEq

/-! ### Costs -/

/-- One round of the loop of `calculate_numerator`, in `u128`. -/
def addComponent (numerator : ℕ) (part : UInt64 × UsdPerMillion) : Except PriceErrorCode ℕ := do
  Except.require .arithmeticOverflow (part.1.toNat * part.2.micros < 2 ^ 128)
  Except.require .arithmeticOverflow (numerator + part.1.toNat * part.2.micros < 2 ^ 128)
  return numerator + part.1.toNat * part.2.micros

def calculateNumerator (rates : PriceRates) (basis : TokenPriceBasis) : Except PriceErrorCode ℕ :=
  [(basis.uncachedInputTokens, rates.uncachedInput), (basis.cachedInputTokens, rates.cachedInput),
    (basis.billableOutputTokens, rates.billableOutput)].foldlM addComponent 0

/-- `u64::try_from`. -/
def UsdMicros.ofNat? (amount : ℕ) : Except PriceErrorCode UsdMicros :=
  if h : amount < 2 ^ 64 then .ok ⟨amount, h⟩ else .error .arithmeticOverflow

def roundNumerator (numerator : ℕ) : Except PriceErrorCode UsdMicros := do
  Except.require .arithmeticOverflow (numerator + halfTokenMillion < 2 ^ 128)
  UsdMicros.ofNat? ((numerator + halfTokenMillion) / tokensPerMillion)

def calculateCost (rates : PriceRates) (basis : TokenPriceBasis) : Except PriceErrorCode UsdMicros := do
  let numerator ← calculateNumerator rates basis
  roundNumerator numerator

/-- The cost of a basis in parts of a million. -/
def exactNumerator (rates : PriceRates) (basis : TokenPriceBasis) : ℕ :=
  basis.uncachedInputTokens.toNat * rates.uncachedInput.micros +
    basis.cachedInputTokens.toNat * rates.cachedInput.micros +
    basis.billableOutputTokens.toNat * rates.billableOutput.micros

/-- What a product of a `u64` and a rate can be. -/
def maxComponent : ℕ := 2 ^ 64 * maxRateMicrosPerMillion

theorem component_le (tokens : UInt64) (rate : UsdPerMillion) :
    tokens.toNat * rate.micros ≤ maxComponent :=
  Nat.mul_le_mul tokens.toNat_lt.le rate.micros_le

theorem exactNumerator_le (rates : PriceRates) (basis : TokenPriceBasis) :
    exactNumerator rates basis ≤ 3 * maxComponent := by
  have hunca := component_le basis.uncachedInputTokens rates.uncachedInput
  have hcached := component_le basis.cachedInputTokens rates.cachedInput
  have hout := component_le basis.billableOutputTokens rates.billableOutput
  unfold exactNumerator
  omega

theorem addComponent_ok {numerator : ℕ} {part : UInt64 × UsdPerMillion}
    (h : numerator + part.1.toNat * part.2.micros < 2 ^ 128) :
    addComponent numerator part = .ok (numerator + part.1.toNat * part.2.micros) := by
  have hprod : part.1.toNat * part.2.micros < 2 ^ 128 := by omega
  unfold addComponent
  rw [require_pos hprod, require_pos h]
  rfl

/-- Bounded rates keep the products and their sum within `u128`. -/
theorem calculateNumerator_ok (rates : PriceRates) (basis : TokenPriceBasis) :
    calculateNumerator rates basis = .ok (exactNumerator rates basis) := by
  have hunca := component_le basis.uncachedInputTokens rates.uncachedInput
  have hcached := component_le basis.cachedInputTokens rates.cachedInput
  have hout := component_le basis.billableOutputTokens rates.billableOutput
  have hmax : 3 * maxComponent < 2 ^ 128 := by decide
  unfold calculateNumerator exactNumerator
  rw [foldlM_cons, addComponent_ok (by dsimp only; omega), ok_bind, foldlM_cons,
    addComponent_ok (by dsimp only; omega), ok_bind, foldlM_cons,
    addComponent_ok (by dsimp only; omega), ok_bind, Nat.zero_add]
  rfl

/-! ### Rules -/

/-- The rates of a rule: `ModelRule` and `EffectiveModelRule` share them, and their two selection
functions are the same. -/
structure RateTable where
  standardShort : PriceRates
  standardLong : Option PriceRates
  priorityShort : Option PriceRates
  priorityLong : Option PriceRates
  deriving DecidableEq

/-- `select_rule_rates` and `select_effective_rates`. -/
def RateTable.select (table : RateTable) (tier : ServiceTier) (context : ContextClass) :
    Except PriceErrorCode PriceRates :=
  match tier, context with
  | .unknown, _ => .error .tierUnknown
  | _, .unavailable => .error .contextUnavailable
  | .standardReported, .short | .standardAssumed, .short => .ok table.standardShort
  | .standardReported, .long | .standardAssumed, .long =>
    Except.okOr .tierContextUnsupported table.standardLong
  | .priority, .short => Except.okOr .tierContextUnsupported table.priorityShort
  | .priority, .long => Except.okOr .tierContextUnsupported table.priorityLong

structure ModelRule extends RateTable where
  canonicalModel : Bytes
  aliases : List Bytes
  deriving DecidableEq

def rateMicros (value : Fin (maxRateMicrosPerMillion + 1)) : UsdPerMillion :=
  ⟨value.val, Nat.le_of_lt_succ value.isLt⟩

/-- `rates`; the literals of the catalog are at most the maximum. -/
def rates (input cached output : Fin (maxRateMicrosPerMillion + 1)) : PriceRates :=
  ⟨rateMicros input, rateMicros cached, rateMicros output⟩

def catalog : List ModelRule := [
  { canonicalModel := ascii "gpt-5.6-sol"
    aliases := [ascii "gpt-5.6"]
    standardShort := rates 5000000 500000 30000000
    standardLong := some (rates 10000000 1000000 45000000)
    priorityShort := some (rates 10000000 1000000 60000000)
    priorityLong := none },
  { canonicalModel := ascii "gpt-5.6-terra"
    aliases := []
    standardShort := rates 2500000 250000 15000000
    standardLong := some (rates 5000000 500000 22500000)
    priorityShort := some (rates 5000000 500000 30000000)
    priorityLong := none },
  { canonicalModel := ascii "gpt-5.6-luna"
    aliases := []
    standardShort := rates 1000000 100000 6000000
    standardLong := some (rates 2000000 200000 9000000)
    priorityShort := some (rates 2000000 200000 12000000)
    priorityLong := none },
  { canonicalModel := ascii "gpt-5.5"
    aliases := [ascii "gpt-5.5-2026-04-23"]
    standardShort := rates 5000000 500000 30000000
    standardLong := some (rates 10000000 1000000 45000000)
    priorityShort := some (rates 12500000 1250000 75000000)
    priorityLong := none },
  { canonicalModel := ascii "gpt-5.5-pro"
    aliases := [ascii "gpt-5.5-pro-2026-04-23"]
    standardShort := rates 30000000 30000000 180000000
    standardLong := none
    priorityShort := none
    priorityLong := none },
  { canonicalModel := ascii "gpt-5.4"
    aliases := [ascii "gpt-5.4-2026-03-05"]
    standardShort := rates 2500000 250000 15000000
    standardLong := some (rates 5000000 500000 22500000)
    priorityShort := some (rates 5000000 500000 30000000)
    priorityLong := none },
  { canonicalModel := ascii "gpt-5.4-pro"
    aliases := [ascii "gpt-5.4-pro-2026-03-05"]
    standardShort := rates 30000000 30000000 180000000
    standardLong := some (rates 60000000 60000000 270000000)
    priorityShort := none
    priorityLong := none },
  { canonicalModel := ascii "gpt-5.4-mini"
    aliases := [ascii "gpt-5.4-mini-2026-03-17"]
    standardShort := rates 750000 75000 4500000
    standardLong := none
    priorityShort := some (rates 1500000 150000 9000000)
    priorityLong := none },
  { canonicalModel := ascii "gpt-5.4-nano"
    aliases := [ascii "gpt-5.4-nano-2026-03-17"]
    standardShort := rates 200000 20000 1250000
    standardLong := none
    priorityShort := none
    priorityLong := none },
  { canonicalModel := ascii "gpt-5.3-codex"
    aliases := []
    standardShort := rates 1750000 175000 14000000
    standardLong := none
    priorityShort := none
    priorityLong := none },
  { canonicalModel := ascii "gpt-5.2"
    aliases := [ascii "gpt-5.2-2025-12-11", ascii "gpt-5.2-codex"]
    standardShort := rates 1750000 175000 14000000
    standardLong := none
    priorityShort := some (rates 3500000 350000 28000000)
    priorityLong := none },
  { canonicalModel := ascii "gpt-5.1"
    aliases := [ascii "gpt-5.1-codex", ascii "gpt-5.1-codex-max"]
    standardShort := rates 1250000 125000 10000000
    standardLong := none
    priorityShort := some (rates 2500000 250000 20000000)
    priorityLong := none },
  { canonicalModel := ascii "gpt-5"
    aliases := [ascii "gpt-5-2025-08-07", ascii "gpt-5-codex"]
    standardShort := rates 1250000 125000 10000000
    standardLong := none
    priorityShort := some (rates 2500000 250000 20000000)
    priorityLong := none },
  { canonicalModel := ascii "gpt-5-mini"
    aliases := [ascii "gpt-5-mini-2025-08-07"]
    standardShort := rates 250000 25000 2000000
    standardLong := none
    priorityShort := some (rates 450000 45000 3600000)
    priorityLong := none },
  { canonicalModel := ascii "gpt-5-nano"
    aliases := [ascii "gpt-5-nano-2025-08-07"]
    standardShort := rates 50000 5000 400000
    standardLong := none
    priorityShort := none
    priorityLong := none }]

/-- The names of a rule. -/
def ModelRule.names (rule : ModelRule) : List Bytes := rule.canonicalModel :: rule.aliases

/-- No name stands for two rules; the names are compared as numbers. -/
theorem catalog_names_nodup : (catalog.flatMap ModelRule.names).Nodup := by
  have hnumb : ((catalog.flatMap ModelRule.names).map leNat).Nodup := by decide +kernel
  exact hnumb.of_map leNat

structure PriceQuote where
  amount : UsdMicros
  canonicalModel : Bytes
  assumedStandard : Bool

/-- `EmbeddedCatalog::price`. -/
def embeddedPrice (model : Bytes) (tier : ServiceTier) (context : ContextClass)
    (basis : TokenPriceBasis) : Except PriceErrorCode PriceQuote := do
  let rule ← Except.okOr .modelUnpriced
    (catalog.find? fun rule => rule.canonicalModel = model ∨ model ∈ rule.aliases)
  let rates ← rule.select tier context
  let amount ← calculateCost rates basis
  return ⟨amount, rule.canonicalModel, tier = .standardAssumed⟩

/-! ### Names of the catalog -/

def embeddedRule (model : Bytes) : Option ModelRule :=
  catalog.find? fun rule => rule.canonicalModel = model

def embeddedAliasTarget (name : Bytes) : Option Bytes :=
  (catalog.find? fun rule => name ∈ rule.aliases).map (·.canonicalModel)

/-- The canonical model behind a name of the catalog. -/
def canonicalName (name : Bytes) : Bytes := (embeddedAliasTarget name).getD name

variable {rules : List ModelRule}

/-- Two rules that share a name are one. -/
theorem eq_of_shared_name (hnd : (rules.flatMap ModelRule.names).Nodup) {a b : ModelRule}
    (ha : a ∈ rules) (hb : b ∈ rules) {name : Bytes} (hnm : name ∈ a.names)
    (hnm' : name ∈ b.names) : a = b := by
  by_contra hne
  have hdisj := (nodup_flatMap.mp hnd).2
  have hsymm : Std.Symm (Function.onFun List.Disjoint ModelRule.names) :=
    ⟨fun _ _ h _ ha hb => h hb ha⟩
  exact hdisj.forall ha hb hne hnm hnm'

theorem find?_eq_of_unique {p : ModelRule → Bool} {rule : ModelRule} (hrule : rule ∈ rules)
    (hp : p rule) (hunique : ∀ other ∈ rules, p other → other = rule) :
    rules.find? p = some rule := by
  cases hf : rules.find? p with
  | none => exact absurd hp (List.find?_eq_none.mp hf rule hrule)
  | some other => rw [hunique other (mem_of_find?_eq_some hf) (List.find?_some hf)]

/-- The two steps of the engine find the rule that the catalog finds in one. -/
theorem find_embedded (name : Bytes) :
    (catalog.find? fun rule => rule.canonicalModel = name ∨ name ∈ rule.aliases) =
      embeddedRule (canonicalName name) := by
  have hshared : ∀ {a b : ModelRule}, a ∈ catalog → b ∈ catalog → ∀ {name : Bytes},
      name ∈ a.names → name ∈ b.names → a = b :=
    fun ha hb _ => eq_of_shared_name catalog_names_nodup ha hb
  unfold embeddedRule canonicalName embeddedAliasTarget
  cases halias : catalog.find? fun rule => name ∈ rule.aliases with
  | some rule =>
    have hmem := mem_of_find?_eq_some halias
    have hnm : name ∈ rule.aliases := by
      have hp := List.find?_some halias
      exact of_decide_eq_true hp
    rw [Option.map_some, Option.getD_some]
    rw [find?_eq_of_unique hmem (decide_eq_true (.inr hnm)),
      find?_eq_of_unique hmem (decide_eq_true rfl)]
    · intro other hoth hsm
      have hsm := of_decide_eq_true hsm
      exact hshared hoth hmem (hsm ▸ mem_cons_self ..) (mem_cons_self ..)
    · intro other hoth hp
      rcases of_decide_eq_true hp with rfl | hin
      · exact hshared hoth hmem (mem_cons_self ..) (mem_cons_of_mem _ hnm)
      · exact hshared hoth hmem (mem_cons_of_mem _ hin) (mem_cons_of_mem _ hnm)
  | none =>
    rw [Option.map_none, Option.getD_none]
    refine List.find?_congr fun rule hrule => ?_
    have hnot : name ∉ rule.aliases := by
      intro hin
      exact List.find?_eq_none.mp halias rule hrule (decide_eq_true hin)
    simp only [hnot, or_false]

end TokenMaster.Pricing
