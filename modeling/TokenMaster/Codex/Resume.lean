import Mathlib.Algebra.Order.BigOperators.Group.List
import TokenMaster.Codex.Visible
import TokenMaster.Lib.Except

/-!
# TokenMaster.Codex.Resume — a restored parser goes on as the one it was taken from

Every check that `fromResume` makes of a snapshot is an invariant of `parseLine`
(`parseLine_restorable`), so the snapshot of a reached state is accepted, and the restored state is
the same up to the repository fields.
-/

namespace TokenMaster.Codex

open Domain TokenMaster.Except List

/-! ### The tool table -/

theorem ascendingNames_iff (es : List ToolCountEntry) :
    ascendingNames es = true ↔ es.Pairwise (fun a b => a.name < b.name) := by
  rw [← isChain_iff_pairwise]
  induction es with
  | nil => simp [ascendingNames]
  | cons a es ih =>
    cases es with
    | nil => simp [ascendingNames]
    | cons b es =>
      rw [isChain_cons_cons, ← ih]
      simp [ascendingNames]

variable {name : Text} {es : List ToolCountEntry} {raw : RawLine} {model : ResolvedModel}
  {effect : LineEffect} {tool : Option ToolUpdate} {value : ParserResumeState}

theorem name_of_mem_countTool {e : ToolCountEntry} (h : e ∈ countTool name es) :
    e.name = name ∨ ∃ held ∈ es, held.name = e.name := by
  induction es with
  | nil =>
    simp only [countTool, mem_singleton] at h
    exact .inl (by rw [h])
  | cons first es ih =>
    unfold countTool at h
    split_ifs at h with hsm hbef
    · rcases mem_cons.mp h with rfl | h
      · exact .inl hsm
      · exact .inr ⟨e, mem_cons_of_mem _ h, rfl⟩
    · rcases mem_cons.mp h with rfl | h
      · exact .inl rfl
      · exact .inr ⟨e, h, rfl⟩
    · rcases mem_cons.mp h with rfl | h
      · exact .inr ⟨e, mem_cons_self .., rfl⟩
      · rcases ih h with h | ⟨held, hhd, h⟩
        · exact .inl h
        · exact .inr ⟨held, mem_cons_of_mem _ hhd, h⟩

/-- The table stays sorted. -/
theorem pairwise_countTool (name : Text) (h : es.Pairwise (fun a b => a.name < b.name)) :
    (countTool name es).Pairwise (fun a b => a.name < b.name) := by
  induction es with
  | nil => exact pairwise_singleton _ _
  | cons first es ih =>
    obtain ⟨hf, hes⟩ := pairwise_cons.mp h
    unfold countTool
    split_ifs with hsm hbef
    · exact pairwise_cons.mpr ⟨hf, hes⟩
    · refine pairwise_cons.mpr ⟨fun e hent => ?_, h⟩
      rcases mem_cons.mp hent with rfl | hent
      · exact hbef
      · exact lt_trans hbef (hf e hent)
    · refine pairwise_cons.mpr ⟨fun e hent => ?_, ih hes⟩
      rcases name_of_mem_countTool hent with hnm | ⟨held, hhd, hnm⟩
      · rw [hnm]
        exact lt_of_le_of_ne (not_lt.mp hbef) hsm
      · rw [← hnm]
        exact hf held hhd

/-- A known name takes no new place. -/
theorem length_countTool (h : es.Pairwise (fun a b => a.name < b.name)) :
    (countTool name es).length =
      if es.any (fun e => e.name == name) then es.length
      else es.length + 1 := by
  induction es with
  | nil => rfl
  | cons first es ih =>
    obtain ⟨hf, hes⟩ := pairwise_cons.mp h
    unfold countTool
    by_cases hsm : first.name = name
    · rw [if_pos hsm, if_pos (by simp [hsm])]
      rfl
    · have hrs : (first :: es).any (fun e => e.name == name) =
          es.any (fun e => e.name == name) := by simp [hsm]
      rw [if_neg hsm, hrs]
      by_cases hbef : name < first.name
      · -- the name is before all names of a sorted table
        have hno : ¬ es.any (fun e => e.name == name) = true := by
          intro hany
          obtain ⟨e, hent, hnm⟩ := any_eq_true.mp hany
          rw [beq_iff_eq] at hnm
          exact lt_asymm hbef (hnm ▸ hf e hent)
        rw [if_pos hbef, if_neg hno]
        rfl
      · rw [if_neg hbef, length_cons, ih hes, length_cons]
        split_ifs <;> rfl

theorem count_pos_countTool (h : ∀ e ∈ es, 0 < e.count) :
    ∀ e ∈ countTool name es, 0 < e.count := by
  induction es with
  | nil =>
    intro e hent
    simp only [countTool, mem_singleton] at hent
    rw [hent]
    exact Nat.one_pos
  | cons first es ih =>
    obtain ⟨hf, hes⟩ := forall_mem_cons.mp h
    unfold countTool
    split_ifs with hsm hbef
    · refine forall_mem_cons.mpr ⟨?_, hes⟩
      show 0 < saturatingAdd first.count 1
      simp only [saturatingAdd, u64Max]
      omega
    · exact forall_mem_cons.mpr ⟨Nat.one_pos, h⟩
    · exact forall_mem_cons.mpr ⟨hf, ih hes⟩

/-- The tool table that `fromResume` accepts. -/
structure ToolTable (entries : List ToolCountEntry) : Prop where
  length_le : entries.length ≤ maxToolNames
  names : ∀ entry ∈ entries, validToolName entry.name = true
  counts : ∀ entry ∈ entries, 0 < entry.count
  sorted : entries.Pairwise (fun a b => a.name < b.name)

theorem validToolEntries_iff (entries : List ToolCountEntry) :
    validToolEntries entries = true ↔ ToolTable entries := by
  simp only [validToolEntries, Bool.and_eq_true, decide_eq_true_eq, all_eq_true, ascendingNames_iff]
  constructor
  · rintro ⟨⟨hlen, hall⟩, hso⟩
    exact ⟨hlen, fun e h => (hall e h).1, fun e h => (hall e h).2, hso⟩
  · rintro ⟨hlen, hnames, hcts, hso⟩
    exact ⟨⟨hlen, fun e h => ⟨hnames e h, hcts e h⟩⟩, hso⟩

theorem ToolTable.countTool (h : ToolTable es) (hnm : validToolName name = true)
    (hplace : (es.any (fun e => e.name == name) ||
      decide (es.length < maxToolNames)) = true) : ToolTable (countTool name es) where
  length_le := by
    rw [length_countTool h.sorted]
    have hlength := h.length_le
    by_cases hany : es.any (fun e => e.name == name) = true
    · rw [if_pos hany]
      exact hlength
    · rw [if_neg hany]
      simp only [hany, Bool.false_or, decide_eq_true_eq] at hplace
      omega
  names := by
    intro e hent
    rcases name_of_mem_countTool hent with h' | ⟨held, hhd, h'⟩
    · rw [h']
      exact hnm
    · rw [← h']
      exact h.names held hhd
  counts := count_pos_countTool h.counts
  sorted := pairwise_countTool name h.sorted

/-! ### What the updates of a line satisfy -/

theorem any_isControl_of_sublist {s t : Text} (h : List.Sublist s t)
    (ht : t.any Text.isControl = false) : s.any Text.isControl = false := by
  rw [any_eq_false] at ht ⊢
  exact fun c hc => ht c (h.subset hc)

/-- The text that a tool is named after has no control characters. -/
theorem rawName_noControl (payload : RawPayload) :
    (((payload.name.value.filter fun name => !name.isEmpty).or payload.kind.value).getD
      "unknown".toList).any Text.isControl = false := by
  have hboun : ∀ {maxBytes : ℕ} {text : BoundedText maxBytes} {value : Text},
      text.value = some value → value.any Text.isControl = false := by
    intro maxBytes text value h
    have hv := BoundedText.validBoundedText_value h
    simp only [validBoundedText, Bool.and_eq_true, Bool.not_eq_true'] at hv
    exact hv.2
  cases hnm : payload.name.value.filter (fun name => !name.isEmpty) with
  | some name =>
    obtain ⟨hval, _⟩ := Option.filter_eq_some_iff.mp hnm
    exact hboun hval
  | none =>
    cases hkd : payload.kind.value with
    | some kind => exact hboun hkd
    | none => decide

theorem validToolName_safeToolName (payload : RawPayload) :
    validToolName (safeToolName payload) = true := by
  have hctl := rawName_noControl payload
  unfold safeToolName
  generalize ((payload.name.value.filter fun name => !name.isEmpty).or payload.kind.value).getD
    "unknown".toList = rawName at hctl ⊢
  set shown : Text := if rawName.trim.isEmpty then "unknown".toList else rawName.trim with hshown
  have hne : shown ≠ [] := by
    rw [hshown]
    split_ifs with hemp
    · decide
    · simpa using hemp
  have hcl : shown.any Text.isControl = false := by
    rw [hshown]
    split_ifs with hemp
    · decide
    · exact any_isControl_of_sublist (Text.trim_sublist rawName) hctl
  have hnone : (Text.truncate maxToolNameBytes shown).isEmpty = false := by
    rw [isEmpty_eq_false_iff]
    exact Text.truncate_ne_nil (by decide) hne
  have hlength := Text.byteLength_truncate_le maxToolNameBytes shown
  have htrun := any_isControl_of_sublist
    (Text.truncate_isPrefix maxToolNameBytes shown).sublist hcl
  show validToolName (Text.truncate maxToolNameBytes shown) = true
  rw [validToolName, hnone, htrun, decide_eq_true hlength]
  rfl

theorem toolUpdate_valid {tool : ToolUpdate} (h : toolUpdate raw = some tool) :
    validToolName tool.name = true := by
  unfold toolUpdate at h
  cases hpay : raw.payload with
  | none => simp [hpay] at h
  | some payload =>
    rw [hpay] at h
    cases hdisc : payload.kind.value.or raw.kind.value with
    | none => simp [hdisc] at h
    | some discriminator =>
      simp only [hdisc] at h
      split_ifs at h
      cases h
      exact validToolName_safeToolName payload

variable {ext : Externals}

/-- A model that was normalised from its own text is accepted again. -/
theorem resolvedModelFromResume_explicit {value : Text}
    (h : normalizeExplicitModel ext value = some model) :
    resolvedModelFromResume ext model = .ok model := by
  have hsh : ∃ raw, model.raw = some raw ∧ model.fallback = false ∧
      normalizeExplicitModel ext raw.text = some model := by
    unfold normalizeExplicitModel at h
    cases hraw : TrimmedText.ofText? maxMetadataBytes value with
    | none => simp [hraw] at h
    | some raw =>
      simp only [hraw] at h
      refine ⟨raw, ?_, ?_, ?_⟩
      · split_ifs at h
        split at h
        · cases h
          rfl
        · obtain ⟨key, _, rfl⟩ := Option.map_eq_some_iff.mp h
          rfl
      · split_ifs at h
        split at h
        · cases h
          rfl
        · obtain ⟨key, _, rfl⟩ := Option.map_eq_some_iff.mp h
          rfl
      · simp only [normalizeExplicitModel, TrimmedText.ofText?_text]
        exact h
  obtain ⟨raw, hraw, hfall, hagain⟩ := hsh
  simp [resolvedModelFromResume, hraw, hfall, hagain]

theorem resolveModel_valid {explicit : Option Text} {cur : Option ResolvedModel}
    (hcur : ∀ held, cur = some held → resolvedModelFromResume ext held = .ok held)
    (h : resolveModel ext explicit cur = some model) :
    resolvedModelFromResume ext model = .ok model := by
  unfold resolveModel at h
  cases hexpl : explicit.bind (normalizeExplicitModel ext) with
  | some resolved =>
    rw [hexpl] at h
    cases h
    obtain ⟨value, _, hval⟩ := Option.bind_eq_some_iff.mp hexpl
    exact resolvedModelFromResume_explicit hval
  | none =>
    rw [hexpl] at h
    cases cur with
    | some held => exact hcur model h
    | none =>
      cases h
      simp [resolvedModelFromResume]

/-- What `metadataUpdate` puts into an update. -/
structure MetadataUpdate.Valid (ext : Externals) (update : MetadataUpdate) : Prop where
  contextWindow : ∀ window, update.contextWindow = some window →
    1 ≤ window ∧ window ≤ maxContextWindowTokens
  currentModel : ∀ model, update.currentModel = some model →
    resolvedModelFromResume ext model = .ok model

theorem metadataUpdate_valid (ext : Externals) (dirs : Directories) (raw : RawLine)
    (includeModel : Bool) : (metadataUpdate ext dirs raw includeModel).Valid ext := by
  unfold metadataUpdate
  cases raw.payload with
  | none =>
    refine ⟨?_, ?_⟩
    · intro window h
      cases h
    · intro model h
      cases h
  | some payload =>
    refine ⟨?_, ?_⟩
    · intro window h
      replace h : contextWindow payload.modelContextWindow = some window := h
      unfold contextWindow at h
      split at h
      · split_ifs at h with hrange
        cases h
        exact hrange
      · cases h
    · intro model h
      split_ifs at h
      obtain ⟨value, _, hval⟩ := Option.bind_eq_some_iff.mp h
      exact resolvedModelFromResume_explicit hval

theorem validPreviousTotals_normalizeUsage (raw : RawUsage) :
    validPreviousTotals (normalizeUsage raw) = true := by
  simp only [normalizeUsage, TokenUsage.new, validPreviousTotals]
  generalize firstToken [raw.inputTokens, raw.promptTokens, raw.input] = input
  generalize firstToken [raw.cachedInputTokens, raw.cacheReadInputTokens, raw.cachedTokens] = cached
  cases input <;> cases cached <;> simp [boundedCached]

theorem lineEffect_baseline {prev : Option TokenUsage}
    (h : lineEffect ext raw prev = some effect) (usage : TokenUsage)
    (hbl : effect.baselineUpdate = some usage) : validPreviousTotals usage = true := by
  have hplain : plainEffect ext raw = some effect → effect.baselineUpdate = none := by
    intro h
    unfold plainEffect at h
    split at h
    · cases h
      rfl
    · obtain ⟨usage, _, rfl⟩ := Option.map_eq_some_iff.mp h
      rfl
  have hno : plainEffect ext raw ≠ some effect := by
    intro hso
    rw [hplain hso] at hbl
    cases hbl
  unfold lineEffect at h
  cases hpay : raw.payload with
  | none =>
    rw [hpay] at h
    exact absurd h hno
  | some payload =>
    simp only [hpay] at h
    split_ifs at h with hkd
    · unfold tokenCountEffect at h
      cases hinfo : payload.info with
      | none => simp [hinfo] at h
      | some info =>
        simp only [hinfo] at h
        obtain ⟨delta, _, rfl⟩ := Option.map_eq_some_iff.mp h
        obtain ⟨total, _, rfl⟩ := Option.map_eq_some_iff.mp hbl
        exact validPreviousTotals_normalizeUsage total
    · exact absurd h hno

/-! ### The invariant -/

/-- What `fromResume` checks of a snapshot, except for the ordinal. -/
structure ParserState.Restorable (ext : Externals) (state : ParserState) : Prop where
  contextWindow : ∀ window, state.contextWindow = some window →
    1 ≤ window ∧ window ≤ maxContextWindowTokens
  previousTotals : ∀ usage, state.previousTotals = some usage → validPreviousTotals usage = true
  tools : ToolTable state.toolCounts
  otherTools : 0 < state.otherTools → maxToolNames ≤ state.toolCounts.length
  activity : ∀ kind, state.pendingActivity.get kind ≤ state.aggregateActivity.get kind
  lineage : state.lineageConflict = false → ∀ parent, state.parentSessionId = some parent →
    state.sessionId ≠ some parent
  currentModel : ∀ model, state.currentModel = some model →
    resolvedModelFromResume ext model = .ok model

variable {ext : Externals}

theorem restorable_new : ParserState.new.Restorable ext where
  contextWindow := fun _ h => by cases h
  previousTotals := fun _ h => by cases h
  tools := (validToolEntries_iff _).mp rfl
  otherTools := fun h => absurd h (lt_irrefl 0)
  activity := fun _ => le_refl _
  lineage := fun _ _ h => by cases h
  currentModel := fun _ h => by cases h

namespace ParserState.Restorable

variable {state : ParserState}

theorem hint (h : state.Restorable ext) (ctx : ParseContext) (md : MetadataUpdate)
    (sess : UsageSessionId) (observedAt : Option UtcTimestamp) :
    (recordRepositoryActivityHint ctx state md sess observedAt).Restorable ext := by
  unfold recordRepositoryActivityHint
  split
  · exact ⟨h.contextWindow, h.previousTotals, h.tools, h.otherTools, h.activity, h.lineage,
      h.currentModel⟩
  · exact h

theorem applyMetadata (h : state.Restorable ext) {md : MetadataUpdate}
    (hmd : md.Valid ext)
    (hline : (applyLineage state md).2 = false → ∀ parent,
      (applyLineage state md).1 = some parent → md.sessionId.or state.sessionId ≠ some parent) :
    (applyMetadata state md).Restorable ext where
  contextWindow := by
    intro win hw
    rcases Option.or_eq_some_iff.mp hw with hnew | ⟨_, hold⟩
    · exact hmd.contextWindow win hnew
    · exact h.contextWindow win hold
  previousTotals := h.previousTotals
  tools := h.tools
  otherTools := h.otherTools
  activity := h.activity
  lineage := hline
  currentModel := by
    intro model hm
    rcases Option.or_eq_some_iff.mp hm with hnew | ⟨_, hold⟩
    · exact hmd.currentModel model hnew
    · exact h.currentModel model hold

theorem recordTool (h : state.Restorable ext) {name : Text} (hnm : validToolName name = true)
    (activity : ActivityKind) : (state.recordTool name activity).Restorable ext := by
  have hacti := ActivityCounts.increment_mono h.activity activity
  unfold ParserState.recordTool
  split_ifs with hplace
  · refine ⟨h.contextWindow, h.previousTotals, h.tools.countTool hnm hplace, ?_, hacti,
      h.lineage, h.currentModel⟩
    intro hoth
    have hfu := h.otherTools hoth
    show maxToolNames ≤ (countTool name state.toolCounts).length
    rw [length_countTool h.tools.sorted]
    split_ifs <;> omega
  · refine ⟨h.contextWindow, h.previousTotals, h.tools, ?_, hacti, h.lineage, h.currentModel⟩
    intro _
    simp only [Bool.or_eq_true, decide_eq_true_eq, not_or, not_lt] at hplace
    exact hplace.2

theorem recordToolUpdate (h : state.Restorable ext)
    (htl : ∀ update, tool = some update → validToolName update.name = true) :
    (recordToolUpdate state tool).Restorable ext := by
  cases tool with
  | none => exact h
  | some update => exact h.recordTool (htl update rfl) update.activity

theorem withTotals (h : state.Restorable ext) {baseline : Option TokenUsage}
    (hbl : ∀ usage, baseline = some usage → validPreviousTotals usage = true) :
    { state with previousTotals := baseline.or state.previousTotals }.Restorable ext where
  contextWindow := h.contextWindow
  previousTotals := by
    intro usage husage
    rcases Option.or_eq_some_iff.mp husage with hnew | ⟨_, hold⟩
    · exact hbl usage hnew
    · exact h.previousTotals usage hold
  tools := h.tools
  otherTools := h.otherTools
  activity := h.activity
  lineage := h.lineage
  currentModel := h.currentModel

end ParserState.Restorable

/-! ### Lines keep the invariant -/

/-- A session without a lineage conflict is not its own parent. -/
theorem applyLineage_normalized (state : ParserState) (update : MetadataUpdate)
    (sessionId : UsageSessionId)
    (h : (applyLineage state (normalizeLineageConflict state update sessionId)).2 = false) :
    (applyLineage state (normalizeLineageConflict state update sessionId)).1 ≠ some sessionId := by
  unfold applyLineage normalizeLineageConflict at *
  cases hnew : update.parentSessionId with
  | none =>
    cases hold : state.parentSessionId with
    | none => simp
    | some existing =>
      simp_all
  | some parent =>
    cases hold : state.parentSessionId with
    | none | some existing =>
      simp_all

variable {state : ParserState} {update : MetadataUpdate}

theorem resolvedSessionId_of_known (ctx : ParseContext) {sessionId : UsageSessionId}
    (h : update.sessionId.or state.sessionId = some sessionId) :
    resolvedSessionId ctx state update = sessionId := by
  simp [resolvedSessionId, h]

/-- The update, the hint and the tool of a line. -/
theorem restorable_step (ctx : ParseContext) {hinted : ParserState}
    (hforget : hinted.forget = state.forget) (hhinted : hinted.Restorable ext)
    (hup : update.Valid ext)
    (htl : ∀ named, tool = some named → validToolName named.name = true) :
    (recordToolUpdate (applyMetadata hinted (normalizeLineageConflict state update
      (resolvedSessionId ctx state update))) tool).Restorable ext := by
  refine ParserState.Restorable.recordToolUpdate ?_ htl
  have hsm : applyLineage hinted (normalizeLineageConflict state update
      (resolvedSessionId ctx state update)) =
      applyLineage state (normalizeLineageConflict state update
        (resolvedSessionId ctx state update)) := by
    show applyLineage hinted.forget _ = applyLineage state.forget _
    rw [hforget]
  refine hhinted.applyMetadata ⟨hup.contextWindow, hup.currentModel⟩ ?_
  rw [hsm]
  intro hcf parent hpar hses
  have hkn : update.sessionId.or state.sessionId = some parent := by
    rw [← hses]
    show update.sessionId.or state.forget.sessionId = update.sessionId.or hinted.forget.sessionId
    rw [hforget]
  have hres := resolvedSessionId_of_known ctx hkn
  refine applyLineage_normalized state update _ hcf ?_
  rw [hpar, hres]

theorem parseUsage_restorable (ctx : ParseContext) (h : state.Restorable ext) (off : ℕ)
    (ts : UtcTimestamp)
    (hbl : ∀ usage, effect.baselineUpdate = some usage → validPreviousTotals usage = true)
    (hup : update.Valid ext)
    (htl : ∀ named, tool = some named → validToolName named.name = true) :
    (parseUsage ext ctx state off ts effect update tool).1.Restorable ext := by
  obtain ⟨model, _, hm, _, heq⟩ := parseUsage_eq ext ctx state off ts effect update tool
  rw [heq]
  set sessionId := resolvedSessionId ctx state update with hses
  set metadata := normalizeLineageConflict state update sessionId with hmd
  set hinted := recordRepositoryActivityHint ctx state metadata sessionId (some ts) with hhinted
  have hforget : hinted.forget = state.forget := forget_hint ..
  have hst := restorable_step ctx hforget (h.hint ctx metadata sessionId _) hup htl
  have htots := hst.withTotals hbl
  refine ⟨htots.contextWindow, htots.previousTotals, htots.tools, htots.otherTools,
    fun _ => Nat.zero_le _, ?_, ?_⟩
  · -- the session of the usage is the resolved one
    have hu := lineUpdate hforget metadata tool
    obtain ⟨hpar, hcf⟩ := Prod.ext_iff.mp hu.lineage
    intro hcl parent hpar' hsame
    have hnot := applyLineage_normalized state update sessionId (hcf.symm.trans hcl)
    have hres : (update.sessionId.or state.sessionId).or (some sessionId) = some sessionId := by
      cases hso : update.sessionId.or state.sessionId with
      | none => rfl
      | some known =>
        rw [hses, resolvedSessionId_of_known ctx hso]
        rfl
    have hid := (congrArg (Option.or · (some sessionId)) hu.sessionId).trans hres
    exact hnot (hpar.symm.trans (hpar'.trans (hsame.symm.trans hid)))
  · intro held hhd
    cases hhd
    refine resolveModel_valid ?_ hm
    intro known hkn
    rcases Option.or_eq_some_iff.mp hkn with hnew | ⟨_, hold⟩
    · exact hup.currentModel known hnew
    · exact h.currentModel known hold

theorem parseLine_restorable (dirs : Directories) (ctx : ParseContext)
    (h : state.Restorable ext) (off : ℕ) (completeLine : Bytes) :
    (parseLine ext dirs ctx state off completeLine).1.Restorable ext := by
  have htl : ∀ raw named, toolUpdate raw = some named → validToolName named.name = true :=
    fun _ _ => toolUpdate_valid
  have hst := parseLine_step ext dirs ctx state off completeLine
  generalize parseLine ext dirs ctx state off completeLine = parsed at hst ⊢
  cases hst with
  | unread | untimed => exact h
  | metadata =>
    exact restorable_step ctx (forget_hint ..) (h.hint ..) (metadataUpdate_valid ..) (htl _)
  | zeroUsage _ he =>
    exact (restorable_step ctx rfl h (metadataUpdate_valid ..) (htl _)).withTotals
      (lineEffect_baseline he)
  | usage _ he =>
    exact parseUsage_restorable ctx h _ _ (lineEffect_baseline he) (metadataUpdate_valid ..) (htl _)

/-! ### Restoring -/

theorem textLength_le {max : ℕ} (value : Option (TrimmedText max)) : textLength value ≤ max := by
  cases value with
  | none => exact Nat.zero_le _
  | some value => exact value.byteLength_le

theorem projectLength_le (value : Option ProjectAlias) :
    projectLength value ≤ maxMetadataBytes := by
  cases value with
  | none => exact Nat.zero_le _
  | some value => exact value.byteLength_le

theorem modelLength_le (model : Option ResolvedModel) :
    modelLength model ≤ maxModelKeyBytes + maxMetadataBytes := by
  cases model with
  | none => exact Nat.zero_le _
  | some model => exact Nat.add_le_add model.key.length_le (textLength_le model.raw)

theorem ToolTable.nameBytes_le {es : List ToolCountEntry} (h : ToolTable es) :
    (es.map fun e => e.name.byteLength).sum ≤ maxToolNames * maxToolNameBytes := by
  have hnm : ∀ length ∈ es.map (fun e => e.name.byteLength),
      length ≤ maxToolNameBytes := by
    intro length hlen
    obtain ⟨e, hent, rfl⟩ := mem_map.mp hlen
    have hv := h.names e hent
    simp only [validToolName, Bool.and_eq_true, decide_eq_true_eq] at hv
    exact hv.1.2
  calc (es.map fun e => e.name.byteLength).sum
      ≤ (es.map fun e => e.name.byteLength).length * maxToolNameBytes := by
        exact sum_le_card_nsmul _ _ hnm
    _ ≤ maxToolNames * maxToolNameBytes := by
        rw [length_map]
        exact Nat.mul_le_mul_right _ h.length_le

/-- The texts of a snapshot: two values of a model, seven more and the names of tools. -/
def resumeTextBytes : ℕ := 64 + 8 * 512 + 64 * 80

/-- Without the repository fields every text fits. -/
theorem ParserState.Restorable.retainedTextBytes_le (h : state.Restorable ext) :
    state.forget.retainedTextBytes ≤ resumeTextBytes := by
  have hm := modelLength_le state.currentModel
  have htier := textLength_le state.serviceTier
  have hses := textLength_le state.sessionId
  have hpar := textLength_le state.parentSessionId
  have hproj := projectLength_le state.project
  have horig := textLength_le state.originator
  have hsrc := textLength_le state.sourceAlias
  have hbranch := textLength_le state.gitBranch
  have htools := h.tools.nameBytes_le
  simp only [retainedTextBytes, forget, Option.map_none, Option.getD_none, projectLength, hintLength,
    resumeTextBytes, maxToolNames, maxToolNameBytes, maxModelKeyBytes, maxMetadataBytes,
    maxSessionIdBytes] at *
  omega

theorem ParserState.restorable_iff (ext : Externals) (state : ParserState) :
    state.Restorable ext ∧ state.nextUsageOrdinal ≤ maxOrdinal ↔
      state.snapshot.isValid = true ∧ ∀ model, state.currentModel = some model →
        resolvedModelFromResume ext model = .ok model := by
  have hline : (!(!state.lineageConflict && state.parentSessionId.isSome &&
      state.parentSessionId == state.sessionId)) = true ↔ (state.lineageConflict = false →
        ∀ parent, state.parentSessionId = some parent → state.sessionId ≠ some parent) := by
    cases state.lineageConflict <;> cases state.parentSessionId <;> simp
    exact not_congr eq_comm
  have hacti : validActivityRelation state.pendingActivity state.aggregateActivity = true ↔
      ∀ kind, state.pendingActivity.get kind ≤ state.aggregateActivity.get kind := decide_eq_true_iff
  have hw : (!state.contextWindow.any fun win => !(decide (1 ≤ win) &&
      decide (win ≤ maxContextWindowTokens))) = true ↔ ∀ win,
        state.contextWindow = some win → 1 ≤ win ∧ win ≤ maxContextWindowTokens := by
    cases state.contextWindow <;> simp
  have htots : (!state.previousTotals.any fun usage => !validPreviousTotals usage) = true ↔
      ∀ usage, state.previousTotals = some usage → validPreviousTotals usage = true := by
    cases state.previousTotals <;> simp
  have hoth : (!(decide (0 < state.otherTools) &&
      decide (state.toolCounts.length < maxToolNames))) = true ↔
        (0 < state.otherTools → maxToolNames ≤ state.toolCounts.length) := by
    simp only [Bool.not_eq_true', Bool.and_eq_false_iff, decide_eq_false_iff_not]
    omega
  unfold ParserResumeState.isValid snapshot
  simp only [Bool.and_eq_true, hline, hacti, hw, htots, hoth, validToolEntries_iff,
    decide_eq_true_eq]
  constructor
  · rintro ⟨⟨a, b, c, d, e, f, g⟩, h⟩
    exact ⟨⟨⟨⟨⟨⟨⟨a, b⟩, c⟩, d⟩, e⟩, h⟩, f⟩, g⟩
  · rintro ⟨⟨⟨⟨⟨⟨⟨a, b⟩, c⟩, d⟩, e⟩, h⟩, f⟩, g⟩
    exact ⟨⟨a, b, c, d, e, f, g⟩, h⟩

theorem ParserState.Restorable.optionModel (h : state.Restorable ext) :
    optionModelFromResume ext state.currentModel = .ok state.currentModel := by
  cases hm : state.currentModel with
  | none => rfl
  | some model =>
    show (resolvedModelFromResume ext model).map some = .ok (some model)
    rw [h.currentModel model hm]
    rfl

/-- The snapshot of a restorable state gives the state back without the repository. -/
theorem fromResume_snapshot (h : state.Restorable ext)
    (hord : state.nextUsageOrdinal ≤ maxOrdinal) :
    ParserState.fromResume ext state.snapshot = .ok state.forget := by
  have hv := ((state.restorable_iff ext).mp ⟨h, hord⟩).1
  have hbs := h.retainedTextBytes_le
  unfold ParserState.fromResume
  rw [if_neg (by simp [ParserState.snapshot]), if_neg (by simp [hv])]
  show (optionModelFromResume ext state.currentModel >>= _) = _
  rw [h.optionModel]
  exact if_neg (not_lt.mpr (hbs.trans (by decide)))

theorem resolvedModelFromResume_eq {value : ResolvedModel}
    (h : resolvedModelFromResume ext value = .ok model) : model = value := by
  unfold resolvedModelFromResume at h
  split_ifs at h
  · exact (Except.ok.inj h).symm
  · split at h
    · cases h
    · split at h
      · cases h
      · split_ifs at h
        exact (Except.ok.inj h).symm

theorem fromResume_ok {state : ParserState} (h : ParserState.fromResume ext value = .ok state) :
    value.isValid = true ∧ (∀ model, value.currentModel = some model →
      resolvedModelFromResume ext model = .ok model) ∧ state = value.restored value.currentModel := by
  unfold ParserState.fromResume at h
  split_ifs at h with hver hv
  obtain ⟨model, hm, h⟩ := bind_eq_ok.mp h
  split_ifs at h with hbs
  cases h
  refine ⟨by simpa using hv, ?_⟩
  cases hcur : value.currentModel with
  | none =>
    rw [hcur] at hm
    cases hm
    exact ⟨nofun, rfl⟩
  | some kept =>
    rw [hcur] at hm
    obtain ⟨resolved, hres, rfl⟩ := map_eq_ok.mp hm
    cases resolvedModelFromResume_eq hres
    refine ⟨?_, rfl⟩
    rintro held ⟨⟩
    exact hres

/-- What `from_resume` restores is restorable. -/
theorem fromResume_restorable (h : ParserState.fromResume ext value = .ok state) :
    state.Restorable ext ∧ state.nextUsageOrdinal = value.nextUsageOrdinal := by
  obtain ⟨hv, hm, rfl⟩ := fromResume_ok h
  exact ⟨(((value.restored value.currentModel).restorable_iff ext).mpr ⟨hv, hm⟩).1, rfl⟩

/-! ### Runs -/

/-- A call of `parse_line` with what the file system answers during it. -/
structure LineInput where
  directories : Directories
  context : ParseContext
  sourceOffset : ℕ
  completeLine : Bytes

/-- The same line, perhaps with other answers of the file system. -/
def LineInput.SameLine (a b : LineInput) : Prop :=
  a.context = b.context ∧ a.sourceOffset = b.sourceOffset ∧ a.completeLine = b.completeLine

/-- Lines fed to one state, with the outcome of each. -/
def feed (ext : Externals) : ParserState → List LineInput → ParserState × List ParseOutcome
  | state, [] => (state, [])
  | state, input :: inputs =>
    let parsed := parseLine ext input.directories input.context state input.sourceOffset
      input.completeLine
    let rest := feed ext parsed.1 inputs
    (rest.1, parsed.2 :: rest.2)

def ParseOutcome.isEmitted : ParseOutcome → Bool
  | emitted _ => true
  | _ => false

/-- Only an emitted event takes an ordinal. -/
def OrdinalStep (state : ParserState) (result : ParserState × ParseOutcome) : Prop :=
  result.1.nextUsageOrdinal =
    if result.2.isEmitted then saturatingAdd state.nextUsageOrdinal 1 else state.nextUsageOrdinal

theorem parseLine_ordinal (ext : Externals) (dirs : Directories) (ctx : ParseContext)
    (state : ParserState) (off : ℕ) (completeLine : Bytes) :
    OrdinalStep state (parseLine ext dirs ctx state off completeLine) := by
  have hst := parseLine_step ext dirs ctx state off completeLine
  generalize parseLine ext dirs ctx state off completeLine = parsed at hst ⊢
  unfold OrdinalStep
  cases hst with
  | unread _ ho => rcases ho with rfl | ⟨_, rfl⟩ <;> rfl
  | untimed => rfl
  | metadata =>
    unfold parseMetadataLine
    dsimp only
    rw [(lineUpdate (forget_hint ..) _ _).nextUsageOrdinal, if_neg]
    split
    · exact Bool.false_ne_true
    · split_ifs <;> exact Bool.false_ne_true
  | zeroUsage => exact (lineUpdate rfl _ _).nextUsageOrdinal
  | usage =>
    obtain ⟨_, _, _, _, heq⟩ := parseUsage_eq ext ctx state off _ _ _ _
    rw [heq]
    exact congrArg (saturatingAdd · 1) (lineUpdate (forget_hint ..) _ _).nextUsageOrdinal

theorem feed_ordinal_le (ext : Externals) (state : ParserState) (inputs : List LineInput) :
    (feed ext state inputs).1.nextUsageOrdinal ≤
      state.nextUsageOrdinal + (feed ext state inputs).2.countP ParseOutcome.isEmitted := by
  induction inputs generalizing state with
  | nil => exact Nat.le_refl _
  | cons input inputs ih =>
    have hst := parseLine_ordinal ext input.directories input.context state input.sourceOffset
      input.completeLine
    have hrs := ih (parseLine ext input.directories input.context state input.sourceOffset
      input.completeLine).1
    unfold OrdinalStep saturatingAdd at hst
    simp only [feed, countP_cons]
    split_ifs at hst ⊢ <;> omega

theorem feed_restorable (h : state.Restorable ext) (inputs : List LineInput) :
    (feed ext state inputs).1.Restorable ext := by
  induction inputs generalizing state with
  | nil => exact h
  | cons input inputs ih => exact ih (parseLine_restorable _ _ h _ _)

/-- **The parser keeps its tables bounded.**  After every list of lines the tool table is valid and
spills into the other tools only when it is full, the pending activity is part of the aggregate,
and a session is its own parent only in a conflict. -/
theorem parser_tables_bounded (ext : Externals) (inputs : List LineInput) :
    let state := (feed ext .new inputs).1
    ToolTable state.toolCounts ∧
      (0 < state.otherTools → state.toolCounts.length = maxToolNames) ∧
      (∀ kind, state.pendingActivity.get kind ≤ state.aggregateActivity.get kind) ∧
      (state.lineageConflict = false → ∀ parent, state.parentSessionId = some parent →
        state.sessionId ≠ some parent) := by
  have h := feed_restorable (@restorable_new ext) inputs
  exact ⟨h.tools, fun hoth => le_antisymm h.tools.length_le (h.otherTools hoth), h.activity,
    h.lineage⟩

/-- Two runs over the same lines from states that differ in the repository only. -/
theorem feed_forget {st' : ParserState} (hsta : state.forget = st'.forget)
    {inputs inputs' : List LineInput} (hinputs : List.Forall₂ LineInput.SameLine inputs inputs') :
    (feed ext state inputs).1.forget = (feed ext st' inputs').1.forget ∧
      (feed ext state inputs).2 = (feed ext st' inputs').2 := by
  induction hinputs generalizing state st' with
  | nil => exact ⟨hsta, rfl⟩
  | @cons input input' inputs inputs' hln _ ih =>
    obtain ⟨hcont, hoff, hbs⟩ := hln
    have hparsed := parseLine_forget ext input.directories input'.directories input.context hsta
      input.sourceOffset input.completeLine
    obtain ⟨hnx, hout⟩ := Prod.ext_iff.mp hparsed
    simp only [visible] at hnx hout
    rw [hcont, hoff, hbs] at hnx hout
    obtain ⟨hl, houtc⟩ := ih hnx
    simp only [feed]
    rw [hcont, hoff, hbs]
    exact ⟨hl, by rw [houtc, hout]⟩

/-- **Resume is lossless.**  The snapshot of every state that the parser reaches with fewer than
`i64::MAX` events is accepted, and whatever lines follow, the restored state gives the outcomes of
the original one. -/
theorem resume_lossless (ext : Externals) (inputs : List LineInput)
    (hcount : (feed ext .new inputs).2.countP ParseOutcome.isEmitted < 2 ^ 63 - 1) :
    ∃ restored, ParserState.fromResume ext (feed ext .new inputs).1.snapshot = .ok restored ∧
      ∀ further further', List.Forall₂ LineInput.SameLine further further' →
        (feed ext restored further').2 = (feed ext (feed ext .new inputs).1 further).2 := by
  have hord := feed_ordinal_le ext .new inputs
  have hnew : ParserState.new.nextUsageOrdinal = 0 := rfl
  refine ⟨(feed ext .new inputs).1.forget, ?_, ?_⟩
  · refine fromResume_snapshot (feed_restorable restorable_new inputs) ?_
    unfold maxOrdinal
    omega
  · intro further further' hsm
    exact (feed_forget (ParserState.forget_forget _).symm hsm).2.symm

/-- A line that reads as one usage record of five input tokens, and nothing else. -/
def sampleExternals : Externals where
  fromSlice line :=
    if line = [92] then
      some (.object [(some "timestamp".toList, .string (some "now".toList)),
        (some "usage".toList, .object [(some "input_tokens".toList,
          .number (.unsigned 5 (by decide)))])])
    else none
  parseFromRfc3339 _ := some ⟨2026, 1000, 0⟩
  fromTimestamp _ _ := none
  sha256 := lastBytes
  isLocalRoot _ := false
  hasDotComponent _ := false
  fileName _ := none

def sampleContext : ParseContext where
  profileId := letterId _ maxUsageIdBytes_pos
  sourceId := letterId _ maxUsageIdBytes_pos
  filenameSessionHint := none
  hashedSessionHint := ⟨['s'], by decide, by decide, by decide, by decide⟩
  sourceVerification := .incremental

theorem resume_lossless_example :
    let inputs : List LineInput := [⟨fun _ => none, sampleContext, 0, [92]⟩,
      ⟨fun _ => none, sampleContext, 2, [92]⟩]
    (feed sampleExternals .new inputs).2.countP ParseOutcome.isEmitted = 2 ∧
      ∃ restored, ParserState.fromResume sampleExternals
          (feed sampleExternals .new inputs).1.snapshot = .ok restored ∧
        ∀ further further', List.Forall₂ LineInput.SameLine further further' →
          (feed sampleExternals restored further').2 =
            (feed sampleExternals (feed sampleExternals .new inputs).1 further).2 := by
  intro inputs
  have hct : (feed sampleExternals .new inputs).2.countP ParseOutcome.isEmitted = 2 := by
    decide +kernel
  exact ⟨hct, resume_lossless sampleExternals inputs (by rw [hct]; decide)⟩

end TokenMaster.Codex
