import TokenMaster.Pricing.Overrides

/-!
# TokenMaster.Pricing.Snapshot — what an accepted list of overrides stands for

The checks of `OverrideSnapshot::build` do not depend on the order of the drafts, and the sorted rules
do not either.  The bytes that are hashed determine the rules, every alias leads in one step to a
rule, and a name that no override concerns is priced as in the embedded catalog.
-/

namespace TokenMaster.Pricing

open TokenMaster.Except List

/-! ### Accepted drafts -/

/-- What the first loop requires of a draft by itself. -/
def OverrideDraft.Admissible (draft : OverrideDraft) : Prop :=
  isValidModelKey draft.key ∧
    match draft with
    | .model draft => embeddedAliasTarget draft.model = none
    | .aliasTo draft =>
      (embeddedRule draft.aliasKey = none ∧ embeddedAliasTarget draft.aliasKey = none) ∧
        isValidModelKey draft.target

theorem checkDraft_eq_ok {seen seen' : List Bytes} {draft : OverrideDraft} :
    checkDraft seen draft = .ok seen' ↔
      draft.Admissible ∧ draft.key ∉ seen ∧ seen' = draft.key :: seen := by
  cases draft with
  | model draft =>
    constructor
    · intro h
      obtain ⟨_, hv, h⟩ := bind_eq_ok.mp h
      obtain ⟨_, hfr, h⟩ := bind_eq_ok.mp h
      obtain ⟨_, hcf, h⟩ := bind_eq_ok.mp h
      cases h
      exact ⟨⟨require_eq_ok.mp hv, require_eq_ok.mp hcf⟩, require_eq_ok.mp hfr, rfl⟩
    · rintro ⟨⟨hv, hcf⟩, hfr, rfl⟩
      refine require_bind.mpr ⟨hv, ?_⟩
      refine require_bind.mpr ⟨hfr, ?_⟩
      exact require_bind.mpr ⟨hcf, rfl⟩
  | aliasTo draft =>
    constructor
    · intro h
      obtain ⟨_, hv, h⟩ := bind_eq_ok.mp h
      obtain ⟨_, hfr, h⟩ := bind_eq_ok.mp h
      obtain ⟨_, hcf, h⟩ := bind_eq_ok.mp h
      obtain ⟨_, htarget, h⟩ := bind_eq_ok.mp h
      cases h
      exact ⟨⟨require_eq_ok.mp hv, require_eq_ok.mp hcf,
        require_eq_ok.mp htarget⟩, require_eq_ok.mp hfr, rfl⟩
    · rintro ⟨⟨hv, hcf, htarget⟩, hfr, rfl⟩
      refine require_bind.mpr ⟨hv, ?_⟩
      refine require_bind.mpr ⟨hfr, ?_⟩
      refine require_bind.mpr ⟨hcf, ?_⟩
      exact require_bind.mpr ⟨htarget, rfl⟩

/-- The first loop passes on admissible drafts with different keys. -/
theorem checkDrafts_ok_iff {drafts : List OverrideDraft} {seen : List Bytes} :
    (∃ seen', drafts.foldlM checkDraft seen = .ok seen') ↔
      (∀ draft ∈ drafts, draft.Admissible ∧ draft.key ∉ seen) ∧ Keyed OverrideDraft.key drafts := by
  induction drafts generalizing seen with
  | nil => simp [Keyed, pure, Except.pure]
  | cons draft drafts ih =>
    have hkd : Keyed OverrideDraft.key (draft :: drafts) ↔
        (∀ other ∈ drafts, other.key ≠ draft.key) ∧ Keyed OverrideDraft.key drafts := by
      simp [Keyed, nodup_cons]
    rw [foldlM_cons, hkd]
    constructor
    · rintro ⟨seen', h⟩
      obtain ⟨next, hnx, h⟩ := bind_eq_ok.mp h
      obtain ⟨hadmi, hfr, rfl⟩ := checkDraft_eq_ok.mp hnx
      obtain ⟨hrs, hks⟩ := ih.mp ⟨seen', h⟩
      refine ⟨fun other hoth => ?_, fun other hoth heq => ?_, hks⟩
      · rcases mem_cons.mp hoth with rfl | hoth
        · exact ⟨hadmi, hfr⟩
        · obtain ⟨hok, hnot⟩ := hrs other hoth
          exact ⟨hok, fun hin => hnot (mem_cons_of_mem _ hin)⟩
      · exact (hrs other hoth).2 (heq ▸ mem_cons_self ..)
    · rintro ⟨hall, hne, hks⟩
      obtain ⟨hadmi, hfr⟩ := hall draft (mem_cons_self ..)
      have hrs : ∀ other ∈ drafts, other.Admissible ∧ other.key ∉ draft.key :: seen := by
        intro other hoth
        obtain ⟨hok, hnot⟩ := hall other (mem_cons_of_mem _ hoth)
        refine ⟨hok, fun hin => ?_⟩
        rcases mem_cons.mp hin with heq | hin
        · exact hne other hoth heq
        · exact hnot hin
      obtain ⟨seen', hsn'⟩ := ih.mpr ⟨hrs, hks⟩
      exact ⟨seen', bind_eq_ok.mpr ⟨_, checkDraft_eq_ok.mpr ⟨hadmi, hfr, rfl⟩, hsn'⟩⟩

theorem effectiveRule_canonicalModel {draft : ModelOverrideDraft} {rule : EffectiveModelRule}
    (h : effectiveRule draft = .ok rule) : rule.canonicalModel = draft.model := by
  obtain ⟨_, _, h⟩ := bind_eq_ok.mp h
  obtain ⟨_, _, h⟩ := bind_eq_ok.mp h
  obtain ⟨_, _, h⟩ := bind_eq_ok.mp h
  obtain ⟨_, _, h⟩ := bind_eq_ok.mp h
  obtain ⟨_, _, h⟩ := bind_eq_ok.mp h
  obtain ⟨_, _, h⟩ := bind_eq_ok.mp h
  cases h
  rfl

variable {rule : AliasRule}

theorem aliasRule_eq_ok {keys : List Bytes} {models : List EffectiveModelRule}
    {draft : AliasOverrideDraft} :
    aliasRule keys models draft = .ok rule ↔
      (draft.target ∉ keys ∧ embeddedAliasTarget draft.target = none) ∧
        ((embeddedRule draft.target).isSome ∨ draft.target ∈ models.map (·.canonicalModel)) ∧
        rule = ⟨draft.aliasKey, draft.target⟩ := by
  constructor
  · intro h
    obtain ⟨_, hch, h⟩ := bind_eq_ok.mp h
    obtain ⟨_, hkn, h⟩ := bind_eq_ok.mp h
    cases h
    exact ⟨require_eq_ok.mp hch, require_eq_ok.mp hkn, rfl⟩
  · rintro ⟨hch, hkn, rfl⟩
    refine require_bind.mpr ⟨hch, ?_⟩
    exact require_bind.mpr ⟨hkn, rfl⟩

/-! ### The rules of an accepted list -/

def modelDrafts (drafts : List OverrideDraft) : List ModelOverrideDraft :=
  drafts.filterMap OverrideDraft.model?

def aliasDrafts (drafts : List OverrideDraft) : List AliasOverrideDraft :=
  drafts.filterMap OverrideDraft.alias?

def aliasKeys (drafts : List OverrideDraft) : List Bytes := (aliasDrafts drafts).map (·.aliasKey)

/-- The rules of accepted drafts before they are sorted. -/
structure Builds (drafts : List OverrideDraft) (models : List EffectiveModelRule)
    (aliases : List AliasRule) : Prop where
  length_le : drafts.length ≤ maxOverrideEntries
  admissible : ∀ draft ∈ drafts, draft.Admissible
  keyed : Keyed OverrideDraft.key drafts
  models_eq : (modelDrafts drafts).mapM effectiveRule = .ok models
  aliases_eq : (aliasDrafts drafts).mapM (aliasRule (aliasKeys drafts)
    (sortBy (fun rule => keyOrder rule.canonicalModel) models)) = .ok aliases

/-- The snapshot of some rules. -/
def snapshotOf (sha256 : Bytes → Bytes32) (models : List EffectiveModelRule)
    (aliases : List AliasRule) (entryCount : ℕ) : OverrideSnapshot :=
  fromValidated sha256 (sortBy (fun rule => keyOrder rule.canonicalModel) models)
    (sortBy (fun rule => keyOrder rule.aliasKey) aliases) entryCount

variable {sha : Bytes → Bytes32}

theorem build_eq_ok {drafts : List OverrideDraft} {snapshot : OverrideSnapshot} :
    build sha drafts = .ok snapshot ↔
      ∃ models aliases, Builds drafts models aliases ∧
        snapshot = snapshotOf sha models aliases drafts.length := by
  constructor
  · intro h
    obtain ⟨hlen, h⟩ := require_bind.mp h
    obtain ⟨seen, hsn, h⟩ := bind_eq_ok.mp h
    obtain ⟨models, hmodels, h⟩ := bind_eq_ok.mp h
    obtain ⟨aliases, halia, h⟩ := bind_eq_ok.mp h
    cases h
    obtain ⟨hall, hkd⟩ := checkDrafts_ok_iff.mp ⟨seen, hsn⟩
    exact ⟨models, aliases, ⟨hlen, fun d hd => (hall d hd).1, hkd, hmodels, halia⟩, rfl⟩
  · rintro ⟨models, aliases, hbu, rfl⟩
    obtain ⟨seen, hsn⟩ := checkDrafts_ok_iff.mpr
      ⟨fun d hd => ⟨hbu.admissible d hd, not_mem_nil⟩, hbu.keyed⟩
    refine require_bind.mpr ⟨hbu.length_le, ?_⟩
    refine bind_eq_ok.mpr ⟨seen, hsn, ?_⟩
    refine bind_eq_ok.mpr ⟨models, hbu.models_eq, ?_⟩
    exact bind_eq_ok.mpr ⟨aliases, hbu.aliases_eq, rfl⟩

namespace Builds

variable {drafts : List OverrideDraft} {models : List EffectiveModelRule} {aliases : List AliasRule}

variable (h : Builds drafts models aliases)

include h

theorem exists_model_draft {rule : EffectiveModelRule} (hrule : rule ∈ models) :
    ∃ draft, OverrideDraft.model draft ∈ drafts ∧ rule.canonicalModel = draft.model := by
  obtain ⟨draft, hdr, hok⟩ := forall₂_mem_right (mapM_eq_ok h.models_eq) hrule
  obtain ⟨e, hent, heq⟩ := mem_filterMap.mp hdr
  cases e with
  | model e =>
    cases heq
    exact ⟨draft, hent, effectiveRule_canonicalModel hok⟩
  | aliasTo e => cases heq

theorem exists_alias_draft (hrule : rule ∈ aliases) :
    ∃ draft, OverrideDraft.aliasTo draft ∈ drafts ∧
      rule = ⟨draft.aliasKey, draft.target⟩ ∧
      (draft.target ∉ aliasKeys drafts ∧ embeddedAliasTarget draft.target = none) ∧
      ((embeddedRule draft.target).isSome ∨ draft.target ∈ models.map (·.canonicalModel)) := by
  obtain ⟨draft, hdr, hok⟩ := forall₂_mem_right (mapM_eq_ok h.aliases_eq) hrule
  obtain ⟨e, hent, heq⟩ := mem_filterMap.mp hdr
  obtain ⟨hch, hkn, hrule⟩ := aliasRule_eq_ok.mp hok
  cases e with
  | model e => cases heq
  | aliasTo e =>
    cases heq
    refine ⟨draft, hent, hrule, hch, hkn.imp_right fun hin => ?_⟩
    obtain ⟨found, hfd, hnm⟩ := mem_map.mp hin
    exact mem_map.mpr ⟨found, mem_sortBy.mp hfd, hnm⟩

theorem keyed_models : Keyed EffectiveModelRule.canonicalModel models := by
  have hdrafts : Keyed ModelOverrideDraft.model (modelDrafts drafts) := by
    refine h.keyed.filterMap fun e draft hdr => ?_
    cases e with
    | model e =>
      cases hdr
      rfl
    | aliasTo e => cases hdr
  have hks : (modelDrafts drafts).map (·.model) = models.map (·.canonicalModel) :=
    map_eq_of_forall₂ (mapM_eq_ok h.models_eq)
      fun _ _ hok => (effectiveRule_canonicalModel hok).symm
  unfold Keyed at hdrafts ⊢
  rw [← hks]
  exact hdrafts

theorem keyed_aliases : Keyed AliasRule.aliasKey aliases := by
  have hdrafts : Keyed AliasOverrideDraft.aliasKey (aliasDrafts drafts) := by
    refine h.keyed.filterMap fun e draft hdr => ?_
    cases e with
    | model e => cases hdr
    | aliasTo e =>
      cases hdr
      rfl
  have hks : (aliasDrafts drafts).map (·.aliasKey) = aliases.map (·.aliasKey) := by
    refine map_eq_of_forall₂ (mapM_eq_ok h.aliases_eq) fun draft rule hok => ?_
    rw [(aliasRule_eq_ok.mp hok).2.2]
  unfold Keyed at hdrafts ⊢
  rw [← hks]
  exact hdrafts

theorem mem_aliasKeys (hrule : rule ∈ aliases) :
    rule.aliasKey ∈ aliasKeys drafts := by
  obtain ⟨draft, hdr, rfl, _⟩ := h.exists_alias_draft hrule
  exact mem_map.mpr ⟨draft, mem_filterMap.mpr ⟨_, hdr, rfl⟩, rfl⟩

end Builds

/-! ### Any order of the drafts -/

variable {models models' : List EffectiveModelRule} {eng : PricingEngine}

theorem sortBy_models (h : models.Perm models')
    (hkd : Keyed EffectiveModelRule.canonicalModel models) :
    sortBy (fun rule => keyOrder rule.canonicalModel) models =
      sortBy (fun rule => keyOrder rule.canonicalModel) models' :=
  sortBy_congr h fun _ ha _ hb heq => hkd.eq_of_key ha hb (keyOrder_injective heq)

variable {aliases : List AliasRule}

variable {drafts : List OverrideDraft}

theorem Builds.perm {drafts' : List OverrideDraft} (h : Builds drafts models aliases)
    (hp : drafts.Perm drafts') :
    ∃ models' aliases', Builds drafts' models' aliases' ∧ models.Perm models' ∧
      aliases.Perm aliases' := by
  obtain ⟨models', hmodels', hmP⟩ := mapM_perm (hp.filterMap _) h.models_eq
  obtain ⟨aliases', halia', haliasP⟩ := mapM_perm (hp.filterMap _) h.aliases_eq
  refine ⟨models', aliases', ⟨?_, ?_, ?_, hmodels', ?_⟩, hmP, haliasP⟩
  · exact hp.length_eq ▸ h.length_le
  · exact fun draft hdr => h.admissible draft (hp.mem_iff.mpr hdr)
  · exact (hp.map _).nodup_iff.mp h.keyed
  · -- the keys are the same set and the sorted models are the same list
    have hrule : aliasRule (aliasKeys drafts)
          (sortBy (fun rule => keyOrder rule.canonicalModel) models) =
        aliasRule (aliasKeys drafts')
          (sortBy (fun rule => keyOrder rule.canonicalModel) models') := by
      have hks : (aliasKeys drafts).Perm (aliasKeys drafts') := (hp.filterMap _).map _
      rw [sortBy_models hmP h.keyed_models]
      unfold aliasRule
      simp only [hks.mem_iff]
    rw [← hrule]
    exact halia'

/-! ### Hashed bytes -/

theorem prefixCode_encodeString : PrefixCode (fun b : Bytes => b.length < 256) encodeString :=
  prefixCode_shortBytes

theorem prefixCode_rate :
    PrefixCode (fun _ : UsdPerMillion => True) fun rate => leBytes 8 rate.micros := by
  intro a b s t _ _ h
  have hbd : ∀ rate : UsdPerMillion, rate.micros < 256 ^ 8 := by
    intro rate
    exact lt_of_le_of_lt rate.micros_le (by decide)
  obtain ⟨heq, hrs⟩ := prefixCode_leBytes 8 _ _ s t (hbd a) (hbd b) h
  exact ⟨UsdPerMillion.ext heq, hrs⟩

theorem prefixCode_encodeRates : PrefixCode (fun _ : PriceRates => True) encodeRates := by
  have hview : Function.Injective fun rates : PriceRates =>
      (rates.uncachedInput, rates.cachedInput, rates.billableOutput) := by
    intro a b h
    simp only [Prod.mk.injEq] at h
    exact PriceRates.ext h.1 h.2.1 h.2.2
  intro a b s t _ _ h
  exact (prefixCode_rate.append (prefixCode_rate.append prefixCode_rate)).comap hview a b s t
    ⟨trivial, trivial, trivial⟩ ⟨trivial, trivial, trivial⟩ h

theorem prefixCode_encodeOptionalRates :
    PrefixCode (fun _ : Option PriceRates => True) encodeOptionalRates :=
  fun a b s t _ _ h => prefixCode_encodeRates.option a b s t (fun _ _ => trivial)
    (fun _ _ => trivial) h

theorem prefixCode_encodeModelRule :
    PrefixCode (fun rule : EffectiveModelRule => rule.canonicalModel.length < 256)
      encodeModelRule := by
  have hview : Function.Injective fun rule : EffectiveModelRule =>
      (rule.canonicalModel, some rule.standardShort, rule.standardLong, rule.priorityShort,
        rule.priorityLong) := by
    rintro ⟨⟨_, _, _, _⟩, _⟩ ⟨⟨_, _, _, _⟩, _⟩ h
    obtain ⟨rfl, rfl, rfl, rfl, rfl⟩ := h
    rfl
  have hrates := prefixCode_encodeOptionalRates
  have hcode := ((prefixCode_encodeString.append (hrates.append (hrates.append
    (hrates.append hrates)))).comap hview).tag (ascii "model\x00")
  intro a b s t ha hb h
  exact hcode a b s t ⟨ha, trivial, trivial, trivial, trivial⟩ ⟨hb, trivial, trivial, trivial, trivial⟩ h

theorem prefixCode_encodeAliasRule :
    PrefixCode (fun rule : AliasRule => rule.aliasKey.length < 256 ∧ rule.target.length < 256)
      encodeAliasRule := by
  have hview : Function.Injective fun rule : AliasRule => (rule.aliasKey, rule.target) := by
    rintro ⟨_, _⟩ ⟨_, _⟩ h
    obtain ⟨rfl, rfl⟩ := h
    rfl
  exact ((prefixCode_encodeString.append prefixCode_encodeString).comap hview).tag (ascii "alias\x00")

/-- Names that fit the byte of their length. -/
structure ShortNames (models : List EffectiveModelRule) (aliases : List AliasRule) : Prop where
  models : ∀ rule ∈ models, rule.canonicalModel.length < 256
  aliases : ∀ rule ∈ aliases, rule.aliasKey.length < 256 ∧ rule.target.length < 256

/-- The bytes of a list of aliases do not start like a model. -/
theorem aliases_not_model (aliases : List AliasRule) (rule : EffectiveModelRule) (rest : Bytes) :
    aliases.flatMap encodeAliasRule ≠ encodeModelRule rule ++ rest := by
  cases aliases with
  | nil =>
    intro h
    have hlength := congrArg List.length h
    simp [encodeModelRule, ascii] at hlength
  | cons first aliases =>
    intro h
    have hb := congrArg List.head? h
    simp [encodeModelRule, encodeAliasRule, ascii] at hb

theorem encodeRules_inj {aliases' : List AliasRule} (hsh : ShortNames models aliases)
    (hsh' : ShortNames models' aliases')
    (h : encodeRules models aliases = encodeRules models' aliases') :
    models = models' ∧ aliases = aliases' := by
  obtain ⟨rfl, hrs⟩ := prefixCode_encodeModelRule.flatMap_append hsh.models hsh'.models
    (fun rule rest _ => aliases_not_model aliases rule rest)
    (fun rule rest _ => aliases_not_model aliases' rule rest) (append_cancel_left h)
  refine ⟨rfl, ?_⟩
  have hnil : ∀ (rule : AliasRule) (rest : Bytes), ([] : Bytes) ≠ encodeAliasRule rule ++ rest := by
    intro rule rest heq
    have hlength := congrArg List.length heq
    simp [encodeAliasRule, ascii] at hlength
  have hpad : aliases.flatMap encodeAliasRule ++ [] = aliases'.flatMap encodeAliasRule ++ [] := by
    rw [hrs]
  exact (prefixCode_encodeAliasRule.flatMap_append hsh.aliases hsh'.aliases
    (fun rule rest _ => hnil rule rest) (fun rule rest _ => hnil rule rest) hpad).1

theorem length_lt_of_valid {key : Bytes} (h : isValidModelKey key) : key.length < 256 := by
  unfold isValidModelKey at h
  simp only [Bool.and_eq_true, decide_eq_true_eq] at h
  exact lt_of_le_of_lt h.1.2 (by decide)

theorem Builds.shortNames (h : Builds drafts models aliases) :
    ShortNames (sortBy (fun rule => keyOrder rule.canonicalModel) models)
      (sortBy (fun rule => keyOrder rule.aliasKey) aliases) where
  models := by
    intro rule hrule
    obtain ⟨draft, hdr, hnm⟩ := h.exists_model_draft (mem_sortBy.mp hrule)
    rw [hnm]
    exact length_lt_of_valid (h.admissible _ hdr).1
  aliases := by
    intro rule hrule
    obtain ⟨draft, hdr, rfl, _⟩ := h.exists_alias_draft (mem_sortBy.mp hrule)
    obtain ⟨hkey, _, htarget⟩ := h.admissible _ hdr
    exact ⟨length_lt_of_valid hkey, length_lt_of_valid htarget⟩

/-! ### Prices -/

/-- A quote of the catalog as the engine gives it. -/
def PriceQuote.toEngine (quote : PriceQuote) (revision : Bytes32) : EngineQuote :=
  ⟨quote.amount, quote.canonicalModel, .embedded, revision⟩

/-- Where no override has a say the engine is the catalog. -/
theorem price_eq_embedded {name : Bytes}
    (halias : ∀ rule ∈ eng.overrides.aliases, rule.aliasKey ≠ name)
    (hm : ∀ rule ∈ eng.overrides.models, rule.canonicalModel ≠ canonicalName name)
    (tier : ServiceTier) (ctx : ContextClass) (basis : TokenPriceBasis) :
    eng.price name tier ctx basis =
      (embeddedPrice name tier ctx basis).map (·.toEngine eng.overrides.revision) := by
  have hnoA : eng.overrides.aliases.find? (fun rule => rule.aliasKey = name) = none :=
    List.find?_eq_none.mpr fun rule hrule h => halias rule hrule (of_decide_eq_true h)
  have hnm : eng.canonicalModel name = canonicalName name := by
    unfold PricingEngine.canonicalModel
    rw [hnoA]
    rfl
  have hnoM : eng.overrides.models.find?
      (fun rule => rule.canonicalModel = canonicalName name) = none :=
    List.find?_eq_none.mpr fun rule hrule h => hm rule hrule (of_decide_eq_true h)
  unfold PricingEngine.price PricingEngine.resolve embeddedPrice
  simp only [hnm, hnoM]
  rw [find_embedded]
  cases hrule : embeddedRule (canonicalName name) with
  | none => rfl
  | some rule =>
    simp only [okOr_some, ok_bind]
    cases hrates : rule.select tier ctx with
    | error code => rfl
    | ok rates =>
      simp only [ok_bind, pure, Except.pure]
      cases hco : calculateCost rates basis with
      | error code | ok amount => rfl

/-- One hop from a name to the table of rates of a model. -/
def ResolvesTo (engine : PricingEngine) (name target : Bytes) : Prop :=
  ∃ (table : RateTable) (source : RuleSource), ∀ tier context,
    engine.resolve name tier context =
      (table.select tier context).map fun rates =>
        ⟨target, rates, source, tier = .standardAssumed⟩

/-- A name that is resolved to a model with a rule of its own or of the catalog. -/
theorem resolvesTo_of_known {name target : Bytes} (hnm : eng.canonicalModel name = target)
    (hkn : (embeddedRule target).isSome ∨
      target ∈ eng.overrides.models.map (·.canonicalModel)) : ResolvesTo eng name target := by
  cases hf : eng.overrides.models.find? fun rule => rule.canonicalModel = target with
  | some rule =>
    have hrule : rule.canonicalModel = target := by
      have hp := List.find?_some hf
      exact of_decide_eq_true hp
    refine ⟨rule.toRateTable, .override, fun tier ctx => ?_⟩
    unfold PricingEngine.resolve
    simp only [hnm, hf]
    cases rule.select tier ctx with
    | error code => rfl
    | ok rates =>
      rw [hrule]
      rfl
  | none =>
    have hnotM : target ∉ eng.overrides.models.map (·.canonicalModel) := by
      intro hin
      obtain ⟨rule, hrule, heq⟩ := mem_map.mp hin
      exact List.find?_eq_none.mp hf rule hrule (decide_eq_true heq)
    obtain ⟨rule, hembe⟩ := Option.isSome_iff_exists.mp (hkn.resolve_right hnotM)
    have hrule : rule.canonicalModel = target := by
      have hp := List.find?_some hembe
      exact of_decide_eq_true hp
    refine ⟨rule.toRateTable, .embedded, fun tier ctx => ?_⟩
    unfold PricingEngine.resolve
    simp only [hnm, hf, hembe, okOr_some, ok_bind]
    cases rule.select tier ctx with
    | error code => rfl
    | ok rates =>
      rw [hrule]
      rfl

theorem Builds.resolvesTo (h : Builds drafts models aliases) (hrule : rule ∈ aliases) :
    ResolvesTo ⟨snapshotOf sha models aliases drafts.length⟩ rule.aliasKey rule.target := by
  obtain ⟨draft, _, rfl, ⟨_, hnotA⟩, hkn⟩ := h.exists_alias_draft hrule
  have hf : (sortBy (fun rule => keyOrder rule.aliasKey) aliases).find?
      (fun rule => rule.aliasKey = draft.aliasKey) = some ⟨draft.aliasKey, draft.target⟩ := by
    cases hfd : (sortBy (fun rule => keyOrder rule.aliasKey) aliases).find?
        (fun rule => rule.aliasKey = draft.aliasKey) with
    | none =>
      exact absurd (decide_eq_true rfl) (List.find?_eq_none.mp hfd _ (mem_sortBy.mpr hrule))
    | some found =>
      have hkey : found.aliasKey = draft.aliasKey := by
        have hp := List.find?_some hfd
        exact of_decide_eq_true hp
      have hmem := mem_sortBy.mp (mem_of_find?_eq_some hfd)
      rw [h.keyed_aliases.eq_of_key hmem hrule hkey]
  refine resolvesTo_of_known ?_ (hkn.imp_right fun hin => ?_)
  · show canonicalName (((sortBy _ aliases).find? _).map _ |>.getD _) = _
    rw [hf]
    show (embeddedAliasTarget draft.target).getD draft.target = draft.target
    rw [hnotA]
    rfl
  · obtain ⟨found, hfd, heq⟩ := mem_map.mp hin
    exact mem_map.mpr ⟨found, mem_sortBy.mpr hfd, heq⟩

/-! ### Accepted lists -/

/-- The normalized content of a snapshot. -/
def OverrideSnapshot.rules (snapshot : OverrideSnapshot) :
    List EffectiveModelRule × List AliasRule := (snapshot.models, snapshot.aliases)

/-- No override concerns a name: neither the name itself nor the model of the catalog behind it. -/
def Unmentioned (drafts : List OverrideDraft) (name : Bytes) : Prop :=
  ∀ draft ∈ drafts, draft.key ≠ name ∧ draft.key ≠ canonicalName name

/-- An accepted list is accepted in any order with the same snapshot; different rules have different
revisions unless the hash collides; every alias resolves in one step; names that no override
concerns, and all names where there is none, have the prices of the catalog. -/
theorem overrides_consistent (sha256 : Bytes → Bytes32) (drafts : List OverrideDraft)
    (snapshot : OverrideSnapshot) (h : build sha256 drafts = .ok snapshot) :
    (∀ drafts', drafts.Perm drafts' → build sha256 drafts' = .ok snapshot) ∧
      (∀ drafts' snapshot', build sha256 drafts' = .ok snapshot' →
        (sha256 (encodeRules snapshot.models snapshot.aliases) =
            sha256 (encodeRules snapshot'.models snapshot'.aliases) →
          encodeRules snapshot.models snapshot.aliases =
            encodeRules snapshot'.models snapshot'.aliases) →
        snapshot.rules ≠ snapshot'.rules → snapshot.revision ≠ snapshot'.revision) ∧
      (∀ rule ∈ snapshot.aliases, ResolvesTo ⟨snapshot⟩ rule.aliasKey rule.target ∧
        ∀ other ∈ snapshot.aliases, other.aliasKey ≠ rule.target) ∧
      (∀ name, Unmentioned drafts name → ∀ tier context basis,
        PricingEngine.price ⟨snapshot⟩ name tier context basis =
          (embeddedPrice name tier context basis).map (·.toEngine snapshot.revision)) ∧
      ∀ name tier context basis,
        (PricingEngine.embedded sha256).price name tier context basis =
          (embeddedPrice name tier context basis).map
            (·.toEngine (PricingEngine.embedded sha256).overrides.revision) := by
  obtain ⟨models, aliases, hbu, rfl⟩ := build_eq_ok.mp h
  refine ⟨?_, ?_, ?_, ?_, ?_⟩
  · intro drafts' hp
    obtain ⟨models', aliases', hbuilds', hmodels, halia⟩ := hbu.perm hp
    refine build_eq_ok.mpr ⟨models', aliases', hbuilds', ?_⟩
    unfold snapshotOf
    rw [sortBy_models hmodels hbu.keyed_models, hp.length_eq, sortBy_congr halia
      fun _ ha _ hb heq => hbu.keyed_aliases.eq_of_key ha hb (keyOrder_injective heq)]
  · intro drafts' snapshot' h' hhs hrules hrev
    obtain ⟨models', aliases', hbuilds', rfl⟩ := build_eq_ok.mp h'
    obtain ⟨hmodels, halia⟩ :=
      encodeRules_inj hbu.shortNames hbuilds'.shortNames (hhs hrev)
    exact hrules (Prod.ext hmodels halia)
  · intro rule hrule
    have hmem := mem_sortBy.mp hrule
    refine ⟨hbu.resolvesTo hmem, fun other hoth heq => ?_⟩
    obtain ⟨draft, _, rfl, ⟨hnotK, _⟩, _⟩ := hbu.exists_alias_draft hmem
    have hkey := hbu.mem_aliasKeys (mem_sortBy.mp hoth)
    rw [heq] at hkey
    exact hnotK hkey
  · intro name hnm tier context basis
    refine price_eq_embedded (fun rule hrule heq => ?_) (fun rule hrule heq => ?_) tier context basis
    · obtain ⟨draft, hdr, rfl, _⟩ := hbu.exists_alias_draft (mem_sortBy.mp hrule)
      exact (hnm _ hdr).1 heq
    · obtain ⟨draft, hdr, hm⟩ := hbu.exists_model_draft (mem_sortBy.mp hrule)
      exact (hnm _ hdr).2 (hm.symm.trans heq)
  · intro name tier context basis
    exact price_eq_embedded (fun _ hrule => absurd hrule not_mem_nil)
      (fun _ hrule => absurd hrule not_mem_nil) tier context basis

/-- A rate of nothing for uncached input. -/
def freeInput : PriceRatesOverride := ⟨some ⟨0, Nat.zero_le _⟩, none, none⟩

def freeSol : OverrideDraft := .model ⟨ascii "gpt-5.6-sol", some freeInput, none, none, none⟩

def solAlias : OverrideDraft := .aliasTo ⟨ascii "sol", ascii "gpt-5.6-sol"⟩

theorem overrides_consistent_sample :
    ∃ snapshot, build polynomialDigest [solAlias, freeSol] = .ok snapshot ∧
      build polynomialDigest [freeSol, solAlias] = .ok snapshot := by
  cases hbuild : build polynomialDigest [solAlias, freeSol] with
  | error code =>
    have hok : (build polynomialDigest [solAlias, freeSol]).isOk = true := by decide +kernel
    rw [hbuild] at hok
    cases hok
  | ok snapshot =>
    exact ⟨snapshot, rfl, (overrides_consistent polynomialDigest _ snapshot hbuild).1 _ (.swap ..)⟩

/-- A million uncached tokens under a name that no override mentions: the name stands for a model of
the catalog that has an override, and is priced with it. -/
theorem embedded_alias_follows_override :
    (∀ draft ∈ [freeSol], draft.key ≠ ascii "gpt-5.6") ∧
      ((build polynomialDigest [freeSol]).toOption.map fun snapshot =>
        (PricingEngine.price ⟨snapshot⟩ (ascii "gpt-5.6") .standardReported .short
          ⟨1000000, 0, 0⟩).toOption.map (·.amount.get)) = some (some 0) ∧
      (embeddedPrice (ascii "gpt-5.6") .standardReported .short ⟨1000000, 0, 0⟩).toOption.map
        (·.amount.get) = some 5000000 := by
  decide +kernel

end TokenMaster.Pricing
