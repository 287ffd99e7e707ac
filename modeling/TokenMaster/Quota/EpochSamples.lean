import TokenMaster.Lib.FirstMax
import TokenMaster.Quota.DetectorChain

/-!
# TokenMaster.Quota.EpochSamples — an epoch state and the samples of its epoch

`epochSamples` collects the accepted samples of the open epoch beside a run.  An accepted step opens
an epoch with its sample or advances the current one (`observe_epoch`).

The maxima of an epoch state are those of its samples.  For the used ratio all samples count.  Used
amounts are compared within one unit: `maximum_units` drops its maximum at a sample with another unit
and does not count that sample, so `comparableSamples` starts again behind it.

A reset signal compares a sample with its predecessor only, so an epoch keeps to one provider epoch as
far as its samples carry the identifier without a gap.
-/

namespace TokenMaster.Quota

open Domain

variable {sha256 : Bytes → Bytes32} {st : DetectorState}

/-! ### Samples of the open epoch -/

/-- Whether an accepted step opens an epoch. -/
def QuotaEvaluation.opens : QuotaEvaluation → Bool
  | .started _ | .reset _ _ => true
  | .advanced _ | .allowanceChanged _ _ | .duplicate | .stale => false

/-- The samples of the open epoch after a step. -/
def epochStep (samples : List QuotaSample) (o : Observation) :
    Except QuotaErrorCode QuotaEvaluation → List QuotaSample
  | .ok e =>
    if e.state?.isNone then samples else if e.opens then [o.sample] else samples ++ [o.sample]
  | .error _ => samples

/-- The samples of the open epoch after a run that `samples` precede. -/
def epochSamples (sha256 : Bytes → Bytes32) :
    DetectorState → List QuotaSample → List Observation → List QuotaSample
  | _, samples, [] => samples
  | st, samples, o :: os =>
    let result := observe sha256 st o
    epochSamples sha256 (st.accept o result) (epochStep samples o result) os

/-- **How a step changes the epoch**: it opens one, or advances the one of the state before. -/
theorem observe_epoch {o : Observation} {e : QuotaEvaluation} {state : QuotaEpochState}
    (h : observe sha256 st o = .ok e) (hs : e.state? = some state) :
    (e.opens = true ∧ ∃ seq, state = startEpochWithSequence sha256 o.definition o.sample seq) ∨
    (e.opens = false ∧ ∃ cur prev seq, st = some (cur, prev) ∧
      detectResetSignal o.definition prev o.sample = none ∧
      state.toParts = { (advanceEpoch o.definition cur o.sample).toParts with
        lastTransitionSequence := seq }) := by
  cases st with
  | none =>
    cases evaluateSample_ok h with
    | started =>
      cases hs
      exact .inl ⟨rfl, 0, rfl⟩
  | some p =>
    obtain ⟨cur, prev⟩ := p
    cases evaluateSample_ok h with
    | duplicate | stale => cases hs
    | @reset _ _ _ _ seq _ _ hsta =>
      cases hs
      exact .inl ⟨rfl, seq, hsta⟩
    | @allowanceChanged _ _ _ _ seq _ _ hsg hsta =>
      cases hs
      exact .inr ⟨rfl, cur, prev, seq, rfl, hsg, congrArg _ hsta⟩
    | advanced _ hsg =>
      cases hs
      exact .inr ⟨rfl, cur, prev, _, rfl, hsg, rfl⟩

/-- **Induction along a run**: what holds of an opened epoch and is kept by an advanced one holds of
the samples of the open epoch, its state and the last accepted sample, after every run. -/
theorem epoch_induction {motive : List QuotaSample → QuotaEpochState → QuotaSample → Prop}
    (opens : ∀ defn sample seq,
      motive [sample] (startEpochWithSequence sha256 defn sample seq) sample)
    (advances : ∀ {samples defn cur prev sample state seq},
      motive samples cur prev → detectResetSignal defn prev sample = none →
      state.toParts = { (advanceEpoch defn cur sample).toParts with
        lastTransitionSequence := seq } → motive (samples ++ [sample]) state sample)
    (os : List Observation) {samples : List QuotaSample} (hst : ∀ p ∈ st, motive samples p.1 p.2) :
    ∀ p ∈ stateAfter sha256 st os, motive (epochSamples sha256 st samples os) p.1 p.2 := by
  induction os generalizing st samples with
  | nil => exact hst
  | cons o os ih =>
    refine ih ?_
    intro p hp
    replace hp : p ∈ st.accept o (observe sha256 st o) := hp
    cases hres : observe sha256 st o with
    | error code =>
      rw [hres] at hp
      exact hst p hp
    | ok e =>
      rw [hres, DetectorState.accept] at hp
      rw [epochStep]
      cases hs : e.state? with
      | none =>
        rw [hs] at hp
        exact hst p hp
      | some state =>
        rw [hs] at hp
        cases hp
        rcases observe_epoch hres hs with ⟨hopens, seq, rfl⟩ |
          ⟨hopens, cur, prev, seq, rfl, hsg, hsta⟩
        · rw [hopens]
          exact opens _ _ _
        · rw [hopens]
          exact advances (hst _ rfl) hsg hsta

/-! ### Maxima -/

/-- The used ratio of a sample. -/
def usedPartsPerMillion (sample : QuotaSample) : Option ℕ :=
  sample.usedRatio.map QuotaRatio.partsPerMillion

/-- The used amount of a sample. -/
def usedAmount (sample : QuotaSample) : Option ℕ := (usedUnits sample.units).bind QuotaUnits.used

/-- The samples that count for the maximum of used amounts, after one sample more: one without a used
amount changes nothing, and one with another unit than those before it discards them and itself. -/
def compareNext (counted : List QuotaSample) (sample : QuotaSample) : List QuotaSample :=
  match usedUnits sample.units with
  | none => counted
  | some units =>
    if counted.all fun before => (usedUnits before.units).all (·.unitId = units.unitId) then
      counted ++ [sample]
    else []

/-- The samples of an epoch whose used amounts are compared. -/
def comparableSamples (samples : List QuotaSample) : List QuotaSample :=
  samples.foldl compareNext []

/-- The maxima of an epoch state, given the samples of its epoch. -/
structure EpochMaxima (samples : List QuotaSample) (p : QuotaEpochStateParts) : Prop where
  ratio : ∃ first, IsFirstMax usedPartsPerMillion samples first ∧
    p.maximumUsedRatio = first.bind (·.usedRatio) ∧
    p.maximumUsedRatioObservationId = first.map (·.observationId)
  units : ∃ first, IsFirstMax usedAmount (comparableSamples samples) first ∧
    p.maximumUsedUnits = first.bind (usedUnits ·.units) ∧
    p.maximumUsedUnitsObservationId = first.map (·.observationId)

section Steps

variable {samples : List QuotaSample} {first : Option QuotaSample}

theorem maximumRatio_hold (h : IsFirstMax usedPartsPerMillion samples first) (sample : QuotaSample) :
    maximumRatio (first.bind (·.usedRatio)) (first.map (·.observationId)) sample.usedRatio
        sample.observationId =
      ((holdMax usedPartsPerMillion first sample).bind (·.usedRatio),
        (holdMax usedPartsPerMillion first sample).map (·.observationId)) := by
  cases first with
  | none => cases hnew : sample.usedRatio <;> simp [maximumRatio, holdMax, usedPartsPerMillion, hnew]
  | some m =>
    obtain ⟨v, _, _, hv, _⟩ := h
    obtain ⟨held, hhd, rfl⟩ := Option.map_eq_some_iff.mp hv
    cases hnew : sample.usedRatio with
    | none => simp [maximumRatio, holdMax, usedPartsPerMillion, hnew, hhd]
    | some ratio =>
      simp only [maximumRatio, holdMax, usedPartsPerMillion, hnew, hhd, Option.bind_some,
        Option.map_some]
      split_ifs <;> simp [hnew, hhd]

/-- The samples that count have a used amount, all in one unit. -/
def OneUnit (counted : List QuotaSample) : Prop :=
  ∃ unitId, ∀ sample ∈ counted, ∃ units, usedUnits sample.units = some units ∧ units.unitId = unitId

theorem usedAmount_of_units {sample : QuotaSample} {units : QuotaUnits}
    (h : usedUnits sample.units = some units) :
    ∃ used, units.used = some used ∧ usedAmount sample = some used := by
  obtain ⟨used, hused⟩ := Option.isSome_iff_exists.mp (usedUnits_used sample.units units h)
  exact ⟨used, hused, by rw [usedAmount, h, Option.bind_some, hused]⟩

/-- One sample more keeps the held sample the first of the greatest amount. -/
theorem maximumUnits_hold {counted : List QuotaSample} (hu : OneUnit counted)
    (h : IsFirstMax usedAmount counted first) (sample : QuotaSample) :
    OneUnit (compareNext counted sample) ∧
    ∃ next, IsFirstMax usedAmount (compareNext counted sample) next ∧
      maximumUnits (first.bind (usedUnits ·.units)) (first.map (·.observationId)) sample.units
          sample.observationId =
        (next.bind (usedUnits ·.units), next.map (·.observationId)) := by
  cases hnew : usedUnits sample.units with
  | none =>
    have hctd : compareNext counted sample = counted := by rw [compareNext, hnew]
    rw [hctd]
    refine ⟨hu, first, h, ?_⟩
    cases first with
    | none => simp [maximumUnits, hnew]
    | some m =>
      obtain ⟨_, hm, _⟩ := hu.choose_spec m h.mem
      simp [maximumUnits, hnew, hm]
  | some units =>
    obtain ⟨used, hused, hamount⟩ := usedAmount_of_units hnew
    obtain ⟨unitId, hus⟩ := hu
    cases first with
    | none =>
      -- every counted sample has an amount, so there is none yet
      have hnil : counted = [] := by
        refine List.eq_nil_iff_forall_not_mem.mpr fun before hbef => ?_
        obtain ⟨_, hso, _⟩ := hus before hbef
        obtain ⟨_, _, hval⟩ := usedAmount_of_units hso
        rw [h before hbef] at hval
        cases hval
      subst hnil
      have hctd : compareNext [] sample = [sample] := by rw [compareNext, hnew]; rfl
      rw [hctd]
      refine ⟨⟨units.unitId, ?_⟩, some sample, ?_, ?_⟩
      · intro other hoth
        rw [List.mem_singleton.mp hoth]
        exact ⟨units, hnew, rfl⟩
      · simpa [holdMax, hamount] using h.concat sample
      · simp [maximumUnits, hnew]
    | some m =>
      obtain ⟨held, hhd, hhdU⟩ := hus m h.mem
      obtain ⟨heldU, hhdUse, hhdA⟩ := usedAmount_of_units hhd
      by_cases hsm : held.unitId = units.unitId
      · have hctd : compareNext counted sample = counted ++ [sample] := by
          rw [compareNext, hnew]
          refine if_pos (List.all_eq_true.mpr fun before hbef => ?_)
          obtain ⟨other, hoth, hothU⟩ := hus before hbef
          simp [hoth, hothU, ← hsm, hhdU]
        rw [hctd]
        refine ⟨⟨unitId, ?_⟩, _, h.concat sample, ?_⟩
        · intro other hoth
          rcases List.mem_append.mp hoth with hoth | hoth
          · exact hus other hoth
          · rw [List.mem_singleton.mp hoth]
            exact ⟨units, hnew, hsm.symm.trans hhdU⟩
        · simp only [maximumUnits, holdMax, hnew, hhd, hamount, hhdA, hsm, hused, hhdUse,
            Option.bind_some, Option.map_some, optionGt, if_true, decide_eq_true_eq]
          split_ifs <;> simp [hnew, hhd]
      · have hctd : compareNext counted sample = [] := by
          rw [compareNext, hnew]
          refine if_neg fun hall => hsm ?_
          simpa [hhd] using List.all_eq_true.mp hall m h.mem
        rw [hctd]
        refine ⟨⟨unitId, fun _ hoth => absurd hoth List.not_mem_nil⟩, none, isFirstMax_nil, ?_⟩
        simp [maximumUnits, hnew, hhd, hsm]

theorem comparableSamples_concat (samples : List QuotaSample) (sample : QuotaSample) :
    comparableSamples (samples ++ [sample]) = compareNext (comparableSamples samples) sample := by
  rw [comparableSamples, comparableSamples, List.foldl_append]
  rfl

/-- What a run keeps: the maxima, and that the counted amounts are in one unit. -/
def Tracked (samples : List QuotaSample) (p : QuotaEpochStateParts) : Prop :=
  EpochMaxima samples p ∧ OneUnit (comparableSamples samples)

theorem tracked_start (defn : QuotaWindowDefinition) (sample : QuotaSample) (seq : ℕ) :
    Tracked [sample] (startEpochWithSequence sha256 defn sample seq).toParts := by
  have hemp : OneUnit [] := ⟨sample.key.windowId, fun _ h => absurd h List.not_mem_nil⟩
  have hratio := @maximumRatio_hold [] none isFirstMax_nil sample
  obtain ⟨hu, next, hnx, hus⟩ := maximumUnits_hold hemp isFirstMax_nil sample
  have hctd : comparableSamples [sample] = compareNext [] sample := rfl
  refine ⟨⟨⟨_, isFirstMax_nil.concat sample, ?_⟩, next, hctd ▸ hnx, ?_⟩, hctd ▸ hu⟩
  · rw [← Prod.mk.injEq, ← hratio]
    cases hnew : sample.usedRatio <;> simp [startEpochWithSequence, maximumRatio, hnew]
  · rw [← Prod.mk.injEq, ← hus]
    cases hnew : usedUnits sample.units <;> simp [startEpochWithSequence, maximumUnits, hnew]

theorem Tracked.advance {cur : QuotaEpochState} (h : Tracked samples cur.toParts)
    (defn : QuotaWindowDefinition) (sample : QuotaSample) :
    Tracked (samples ++ [sample]) (advanceEpoch defn cur sample).toParts := by
  obtain ⟨⟨⟨first, hf, hratio, hratioId⟩, ⟨held, hhd, hus, husI⟩⟩, hu⟩ := h
  have hratioS := maximumRatio_hold hf sample
  obtain ⟨hu', next, hnx, husS⟩ := maximumUnits_hold hu hhd sample
  rw [← hratio, ← hratioId] at hratioS
  rw [← hus, ← husI] at husS
  rw [Tracked, comparableSamples_concat]
  refine ⟨⟨⟨_, hf.concat sample, ?_⟩, next, ?_, ?_⟩, hu'⟩
  · exact Prod.mk.inj hratioS
  · rw [comparableSamples_concat]
    exact hnx
  · exact Prod.mk.inj husS

end Steps

/-- **Quota maxima are those of the samples.**  After every run the open epoch's maximum of the used
ratio is the first sample with the greatest used ratio of the epoch, and its maximum of the used units
is the first sample with the greatest used amount among the comparable samples of the epoch. -/
theorem quota_maxima_exact (os : List Observation) :
    ∀ p ∈ stateAfter sha256 none os, EpochMaxima (epochSamples sha256 none [] os) p.1.toParts := by
  intro p hp
  refine (epoch_induction (motive := fun samples st _ => Tracked samples st.toParts)
    (fun defn sample seq => tracked_start defn sample seq) ?_ os ?_ p hp).1
  · intro samples defn cur prev sample st seq h _ hsta
    obtain ⟨⟨hratio, hus⟩, hu⟩ := h.advance defn sample
    rw [hsta]
    exact ⟨⟨hratio, hus⟩, hu⟩
  · intro p hp
    cases hp

/-- A sample with a used amount. -/
def unitSample (id : UInt8) (observedAtMs : ℤ) (hpos : 0 < observedAtMs) (unitId : QuotaUnitId)
    (used : ℕ) : QuotaSample :=
  { exampleSample id observedAtMs hpos .none with
    units := some ⟨unitId, some used, none, none, .inl rfl, nofun, nofun⟩
    valid := { (exampleSample id observedAtMs hpos .none).valid with observable := by simp } }

/-- Amounts of 10 and 30 in one unit, then of 20 and of 7 in another. -/
def unitRun : List Observation :=
  [⟨exampleDefinition, unitSample 1 10 ten_pos (letterId _ maxQuotaIdBytes_pos) 10, 1⟩,
    ⟨exampleDefinition, unitSample 2 20 twenty_pos (letterId _ maxQuotaIdBytes_pos) 30, 1⟩,
    ⟨exampleDefinition, unitSample 3 30 (by decide) otherUnitId 20, 1⟩,
    ⟨exampleDefinition, unitSample 4 40 (by decide) otherUnitId 7, 1⟩]

theorem quota_maxima_exact_units :
    ∃ p ∈ stateAfter lastBytes none unitRun,
      p.1.toParts.maximumUsedUnitsObservationId = some (Bytes32.replicate 4) ∧
        EpochMaxima (epochSamples lastBytes none [] unitRun) p.1.toParts := by
  have hrun : ∃ p ∈ stateAfter lastBytes none unitRun,
      p.1.toParts.maximumUsedUnitsObservationId = some (Bytes32.replicate 4) := ⟨_, rfl, rfl⟩
  obtain ⟨p, hp, hid⟩ := hrun
  exact ⟨p, hp, hid, quota_maxima_exact unitRun p hp⟩

/-- **The first sample with a new unit is not counted.**  The epoch has four samples, the last two of
them in a new unit with amounts 20 and 7, and its maximum is the later and smaller one. -/
theorem quota_maxima_skip_unit_change :
    (epochSamples lastBytes none [] unitRun).map usedAmount =
        [some 10, some 30, some 20, some 7] ∧
      ((epochSamples lastBytes none [] unitRun).map fun sample =>
          (usedUnits sample.units).map (·.unitId == otherUnitId)) =
        [some false, some false, some true, some true] ∧
      (stateAfter lastBytes none unitRun).map (fun p => p.1.toParts.maximumUsedUnits.bind (·.used)) =
        some (some 7) ∧
      (stateAfter lastBytes none (unitRun.take 3)).map (fun p => p.1.toParts.maximumUsedUnits) =
        some none := by
  decide +kernel

/-! ### Provider epochs -/

/-- Not two provider epochs: an identifier is missing, or both are the same. -/
def SameProviderEpoch (previous sample : QuotaSample) : Prop :=
  ∀ a ∈ previous.providerEpochId, ∀ b ∈ sample.providerEpochId, a = b

theorem sameProviderEpoch_of_signal {defn : QuotaWindowDefinition}
    {prev sample : QuotaSample} (h : detectResetSignal defn prev sample = none) :
    SameProviderEpoch prev sample := by
  intro a ha b hb
  by_contra hne
  have hdiffer : zipAny prev.providerEpochId sample.providerEpochId (· != ·) = true := by
    rw [ha, hb]
    simpa [zipAny] using hne
  rw [detectResetSignal] at h
  split_ifs at h

/-- Samples of the open epoch that follow each other are of one provider epoch, and the last of them
is the last accepted sample. -/
theorem epochSamples_chain (os : List Observation) :
    ∀ p ∈ stateAfter sha256 none os,
      (epochSamples sha256 none [] os).getLast? = some p.2 ∧
        (epochSamples sha256 none [] os).IsChain SameProviderEpoch := by
  refine epoch_induction (motive := fun samples _ prev =>
    samples.getLast? = some prev ∧ samples.IsChain SameProviderEpoch) ?_ ?_ os ?_
  · intro defn sample seq
    exact ⟨rfl, .singleton _⟩
  · intro samples defn cur prev sample st seq h hsg hsta
    refine ⟨List.getLast?_concat, h.2.append (.singleton _) ?_⟩
    intro last hl next hnx
    rw [h.1] at hl
    cases hl
    cases hnx
    exact sameProviderEpoch_of_signal hsg
  · intro p hp
    cases hp

/-- **No mixing within a stretch.**  Samples of one epoch that follow each other and all carry a
provider epoch carry the same one. -/
theorem provider_epochs_unmixed (os : List Observation) (p : QuotaEpochState × QuotaSample)
    (hp : p ∈ stateAfter sha256 none os) (stretch : List QuotaSample)
    (hstretch : stretch <:+: epochSamples sha256 none [] os)
    (hids : ∀ sample ∈ stretch, sample.providerEpochId.isSome) :
    ∀ a ∈ stretch, ∀ b ∈ stretch, a.providerEpochId = b.providerEpochId := by
  have hch := List.IsChain.infix (epochSamples_chain os p hp).2 hstretch
  have hequal : (stretch.map (·.providerEpochId)).IsChain (· = ·) := by
    refine (List.isChain_map _).mpr (hch.imp_of_mem_imp fun a b ha hb hab => ?_)
    obtain ⟨idA, hA⟩ := Option.isSome_iff_exists.mp (hids a ha)
    obtain ⟨idB, hB⟩ := Option.isSome_iff_exists.mp (hids b hb)
    rw [hA, hB, hab idA hA idB hB]
  intro a ha b hb
  exact hequal.pairwise.forall_of_forall (fun _ _ => rfl)
    (List.mem_map_of_mem ha) (List.mem_map_of_mem hb)

/-- A sample of a provider epoch. -/
def epochSample (id : UInt8) (observedAtMs : ℤ) (hpos : 0 < observedAtMs)
    (providerEpochId : Option QuotaProviderEpochId) : QuotaSample :=
  { exampleSample id observedAtMs hpos .none with
    providerEpochId
    valid := { (exampleSample id observedAtMs hpos .none).valid with
      observable := .inr (.inl rfl) } }

/-- Two samples of provider epoch `"a"`, one without the identifier and one of `"b"`. -/
def gapRun : List Observation :=
  [⟨exampleDefinition, epochSample 1 10 ten_pos (some (letterId _ maxQuotaIdBytes_pos)), 1⟩,
    ⟨exampleDefinition, epochSample 2 20 twenty_pos (some (letterId _ maxQuotaIdBytes_pos)), 1⟩,
    ⟨exampleDefinition, epochSample 3 30 (by decide) none, 1⟩,
    ⟨exampleDefinition, epochSample 4 40 (by decide) (some otherUnitId), 1⟩]

theorem provider_epochs_unmixed_gap :
    ((epochSamples lastBytes none [] gapRun).take 2).length = 2 ∧
      ∀ a ∈ (epochSamples lastBytes none [] gapRun).take 2,
        ∀ b ∈ (epochSamples lastBytes none [] gapRun).take 2,
          a.providerEpochId = b.providerEpochId := by
  have hrun : ∃ p, p ∈ stateAfter lastBytes none gapRun := ⟨_, rfl⟩
  obtain ⟨p, hp⟩ := hrun
  exact ⟨rfl, provider_epochs_unmixed gapRun p hp _ (List.take_prefix 2 _).isInfix
    (by decide +kernel)⟩

/-- **A gap hides the change of provider epoch**: all samples of the run are in one epoch, the first
two of provider epoch `"a"` and the last of `"b"`. -/
theorem provider_epochs_mix_over_gap :
    epochSamples lastBytes none [] gapRun = gapRun.map (·.sample) ∧
      (gapRun.map fun o => o.sample.providerEpochId.map (·.bytes)) =
        [some [97], some [97], none, some [98]] := by
  decide +kernel

end TokenMaster.Quota
