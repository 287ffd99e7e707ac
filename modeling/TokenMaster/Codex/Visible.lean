import TokenMaster.Codex.Parser

/-!
# TokenMaster.Codex.Visible — what of the parser state reaches an outcome

A snapshot leaves out the repository fields of the state.  They, and what the file system answers
about a working directory, never reach an outcome or another field (`parseLine_forget`).
-/

namespace TokenMaster.Codex

open Domain

/-! ### What a snapshot leaves out -/

/-- The state without the repository fields. -/
def ParserState.forget (state : ParserState) : ParserState :=
  { state with
    repositoryCandidate := none
    repositoryProject := none
    latestRepositoryActivityHint := none }

/-- The update without its repository. -/
def MetadataUpdate.forget (update : MetadataUpdate) : MetadataUpdate :=
  { update with repositoryCandidate := .missing }

theorem ParserState.forget_forget (st : ParserState) : st.forget.forget = st.forget := rfl

theorem forget_hint (ctx : ParseContext) (st : ParserState) (md : MetadataUpdate)
    (sess : UsageSessionId) (observedAt : Option UtcTimestamp) :
    (recordRepositoryActivityHint ctx st md sess observedAt).forget = st.forget := by
  unfold recordRepositoryActivityHint
  split <;> rfl

theorem forget_applyMetadata (st : ParserState) (md : MetadataUpdate) :
    (applyMetadata st md).forget = applyMetadata st.forget md.forget := rfl

theorem forget_recordToolUpdate (st : ParserState) (tool : Option ToolUpdate) :
    (recordToolUpdate st tool).forget = recordToolUpdate st.forget tool := by
  cases tool with
  | none => rfl
  | some tool => exact apply_ite ParserState.forget _ _ _

/-- The metadata of a line, up to the repository, does not depend on the file system. -/
theorem forget_metadataUpdate (ext : Externals) (dirs dirs' : Directories)
    (raw : RawLine) (includeModel : Bool) :
    (metadataUpdate ext dirs raw includeModel).forget =
      (metadataUpdate ext dirs' raw includeModel).forget := by
  unfold metadataUpdate
  cases raw.payload with
  | none | some payload => rfl

/-- A line names a working directory or not, whatever the file system answers. -/
theorem repositoryCandidate_missing (ext : Externals) (dirs : Directories)
    (raw : RawPathText) :
    (repositoryCandidate ext dirs raw != .missing) = !raw.isMissing := by
  unfold repositoryCandidate
  cases hmiss : raw.isMissing with
  | true => rfl
  | false =>
    cases raw.value with
    | none => rfl
    | some value =>
      by_cases hlocal : localPath ext value.trim = true
      · simp only [hlocal, if_true]
        cases dirs value.trim <;> rfl
      · simp only [hlocal]
        rfl

theorem metadataUpdate_candidate (ext : Externals) (dirs dirs' : Directories)
    (raw : RawLine) (includeModel : Bool) :
    ((metadataUpdate ext dirs raw includeModel).repositoryCandidate != .missing) =
      ((metadataUpdate ext dirs' raw includeModel).repositoryCandidate != .missing) := by
  unfold metadataUpdate
  cases raw.payload with
  | none => rfl
  | some payload =>
    show (repositoryCandidate ext dirs payload.cwd != .missing) =
      (repositoryCandidate ext dirs' payload.cwd != .missing)
    rw [repositoryCandidate_missing, repositoryCandidate_missing]

theorem hasUpdates_of_forget {update update' : MetadataUpdate} (h : update.forget = update'.forget)
    (hcand : (update.repositoryCandidate != .missing) =
      (update'.repositoryCandidate != .missing)) : update.hasUpdates = update'.hasUpdates := by
  simp only [MetadataUpdate.forget, MetadataUpdate.mk.injEq] at h
  simp only [MetadataUpdate.hasUpdates, h, hcand]

/-! ### The outcome of a line -/

/-- What is visible of a parsed line: the next state without the repository, and the outcome. -/
def visible (result : ParserState × ParseOutcome) : ParserState × ParseOutcome :=
  (result.1.forget, result.2)

section Forget

variable (ext : Externals) (dirs dirs' : Directories) (ctx : ParseContext)
  {st st' : ParserState}

/-- The step of every branch: both states take the same update and the same tool. -/
theorem forget_step (hsta : st.forget = st'.forget) {md metadata' : MetadataUpdate}
    (hmd : md.forget = metadata'.forget) (tool : Option ToolUpdate) :
    (recordToolUpdate (applyMetadata st md) tool).forget =
      (recordToolUpdate (applyMetadata st' metadata') tool).forget := by
  rw [forget_recordToolUpdate, forget_recordToolUpdate, forget_applyMetadata, forget_applyMetadata,
    hsta, hmd]

variable {update update' : MetadataUpdate}

theorem normalizeLineageConflict_forget (hsta : st.forget = st'.forget)
    (hup : update.forget = update'.forget) (sess : UsageSessionId) :
    (normalizeLineageConflict st update sess).forget =
      (normalizeLineageConflict st' update' sess).forget := by
  show normalizeLineageConflict st.forget update.forget sess =
    normalizeLineageConflict st'.forget update'.forget sess
  rw [hsta, hup]

theorem resolvedSessionId_forget (hsta : st.forget = st'.forget)
    (hup : update.forget = update'.forget) :
    resolvedSessionId ctx st update = resolvedSessionId ctx st' update' := by
  show resolvedSessionId ctx st.forget update.forget =
    resolvedSessionId ctx st'.forget update'.forget
  rw [hsta, hup]

theorem sessionRelationDraft_forget {md metadata' : MetadataUpdate}
    (hmd : md.forget = metadata'.forget) (sess : UsageSessionId)
    (sourceOffset : ℕ) :
    sessionRelationDraft ctx md sess sourceOffset =
      sessionRelationDraft ctx metadata' sess sourceOffset := by
  show sessionRelationDraft ctx md.forget sess sourceOffset =
    sessionRelationDraft ctx metadata'.forget sess sourceOffset
  rw [hmd]

theorem parseMetadataLine_forget (hsta : st.forget = st'.forget) (off : ℕ)
    (raw : RawLine) :
    visible (parseMetadataLine ext dirs ctx st off raw) =
      visible (parseMetadataLine ext dirs' ctx st' off raw) := by
  have hup := forget_metadataUpdate ext dirs dirs' raw true
  have hses := resolvedSessionId_forget ctx hsta hup
  have hmd := normalizeLineageConflict_forget hsta hup
    (resolvedSessionId ctx st' (metadataUpdate ext dirs' raw true))
  simp only [visible, parseMetadataLine, hses]
  congr 1
  · refine forget_step ?_ hmd (toolUpdate raw)
    rw [forget_hint, forget_hint, hsta]
  · rw [sessionRelationDraft_forget ctx hmd, hasUpdates_of_forget hmd]
    exact metadataUpdate_candidate ext dirs dirs' raw true

theorem parseZeroUsage_forget (hsta : st.forget = st'.forget)
    (hup : update.forget = update'.forget) (tool : Option ToolUpdate)
    (baselineUpdate : Option TokenUsage) :
    visible (parseZeroUsage ctx st update tool baselineUpdate) =
      visible (parseZeroUsage ctx st' update' tool baselineUpdate) := by
  have hses := resolvedSessionId_forget ctx hsta hup
  have hst := forget_step hsta (normalizeLineageConflict_forget hsta hup
    (resolvedSessionId ctx st' update')) tool
  simp only [visible, parseZeroUsage, hses]
  congr 1
  exact congrArg (fun next : ParserState =>
    { next with previousTotals := baselineUpdate.or next.previousTotals }) hst

theorem parseUsage_forget (hsta : st.forget = st'.forget)
    (hup : update.forget = update'.forget) (off : ℕ) (ts : UtcTimestamp)
    (effect : LineEffect) (tool : Option ToolUpdate) :
    visible (parseUsage ext ctx st off ts effect update tool) =
      visible (parseUsage ext ctx st' off ts effect update' tool) := by
  have hm : update.currentModel.or st.currentModel = update'.currentModel.or st'.currentModel := by
    show update.forget.currentModel.or st.forget.currentModel =
      update'.forget.currentModel.or st'.forget.currentModel
    rw [hup, hsta]
  have hses := resolvedSessionId_forget ctx hsta hup
  have hmd := normalizeLineageConflict_forget hsta hup
    (resolvedSessionId ctx st' update')
  simp only [parseUsage, hm, hses]
  cases resolveModel ext effect.model (update'.currentModel.or st'.currentModel) with
  | none => simp only [visible, hsta]
  | some model =>
    have hps : observationParts ctx st off ts effect
          (normalizeLineageConflict st update (resolvedSessionId ctx st' update')) tool
          model (resolvedSessionId ctx st' update') =
        observationParts ctx st' off ts effect
          (normalizeLineageConflict st' update' (resolvedSessionId ctx st' update')) tool
          model (resolvedSessionId ctx st' update') := by
      show observationParts ctx st.forget off ts effect
          (normalizeLineageConflict st update (resolvedSessionId ctx st' update')).forget
          tool model (resolvedSessionId ctx st' update') =
        observationParts ctx st'.forget off ts effect
          (normalizeLineageConflict st' update' (resolvedSessionId ctx st' update')).forget
          tool model (resolvedSessionId ctx st' update')
      rw [hsta, hmd]
    simp only [hps]
    cases ObservationDraft.new (observationParts ctx st' off ts effect
        (normalizeLineageConflict st' update' (resolvedSessionId ctx st' update')) tool
        model (resolvedSessionId ctx st' update')) with
    | none => simp only [visible, hsta]
    | some ev =>
      simp only [visible]
      congr 1
      have hst := fun (hinted hinted' : ParserState) (h : hinted.forget = hinted'.forget) =>
        congrArg (fun next : ParserState =>
          { next with
            previousTotals := effect.baselineUpdate.or next.previousTotals
            currentModel := some model
            sessionId := next.sessionId.or (some (resolvedSessionId ctx st' update'))
            nextUsageOrdinal := saturatingAdd next.nextUsageOrdinal 1
            pendingActivity := .zero }) (forget_step h hmd tool)
      refine hst _ _ ?_
      rw [forget_hint, forget_hint, hsta]

/-- The repository fields of the state and the answers of the file system reach neither the outcome
nor the rest of the state. -/
theorem parseLine_forget (hsta : st.forget = st'.forget) (off : ℕ)
    (completeLine : Bytes) :
    visible (parseLine ext dirs ctx st off completeLine) =
      visible (parseLine ext dirs' ctx st' off completeLine) := by
  unfold parseLine
  have hunc : ∀ out, visible (st, out) = visible (st', out) := by
    intro out
    simp only [visible, hsta]
  have htots : st.previousTotals = st'.previousTotals := by
    show st.forget.previousTotals = st'.forget.previousTotals
    rw [hsta]
  split_ifs with hlarge hrele
  · exact hunc _
  · exact hunc _
  · cases (ext.fromSlice completeLine).bind RawLine.deserialize with
    | none => exact hunc _
    | some raw =>
      simp only [htots]
      cases lineEffect ext raw st'.previousTotals with
      | none => exact parseMetadataLine_forget ext dirs dirs' ctx hsta _ raw
      | some effect =>
        show visible (parseEffect ext dirs ctx st off raw effect) =
          visible (parseEffect ext dirs' ctx st' off raw effect)
        unfold parseEffect
        cases effect.timestamp with
        | none => exact hunc _
        | some ts =>
          have hup := forget_metadataUpdate ext dirs dirs' raw
            (!usageIsPositive effect.usage || (!effect.modelIncludesPayload && effect.model.isNone))
          dsimp only
          split_ifs with hpos
          · exact parseZeroUsage_forget ctx hsta hup _ _
          · exact parseUsage_forget ext ctx hsta hup _ _ _ _

end Forget

/-! ### The branches of a line -/

/-- The record of a line that the parser looks into. -/
def rawLine (ext : Externals) (line : Bytes) : Option RawLine :=
  if line.length > maxLineBytes ∨ looksRelevant line = false then none
  else (ext.fromSlice line).bind RawLine.deserialize

section Branches

variable (ext : Externals) (directories : Directories) (context : ParseContext)
  (state : ParserState) (sourceOffset : ℕ) (line : Bytes)

/-- What `parse_line` does with a line. -/
inductive LineStep : ParserState × ParseOutcome → Prop
  | unread {outcome} (h : rawLine ext line = none)
      (ho : outcome = .skipped ∨ ∃ code, outcome = .rejected code) : LineStep (state, outcome)
  | untimed {raw effect} (h : rawLine ext line = some raw)
      (he : lineEffect ext raw state.previousTotals = some effect)
      (ht : effect.timestamp = none) : LineStep (state, .rejected .invalidTimestamp)
  | metadata {raw} (h : rawLine ext line = some raw)
      (he : lineEffect ext raw state.previousTotals = none) :
      LineStep (parseMetadataLine ext directories context state sourceOffset raw)
  | zeroUsage {raw effect timestamp includeModel} (h : rawLine ext line = some raw)
      (he : lineEffect ext raw state.previousTotals = some effect)
      (ht : effect.timestamp = some timestamp) (hz : usageIsPositive effect.usage = false) :
      LineStep (parseZeroUsage context state (metadataUpdate ext directories raw includeModel)
        (toolUpdate raw) effect.baselineUpdate)
  | usage {raw effect timestamp includeModel} (h : rawLine ext line = some raw)
      (he : lineEffect ext raw state.previousTotals = some effect)
      (ht : effect.timestamp = some timestamp) :
      LineStep (parseUsage ext context state sourceOffset timestamp effect
        (metadataUpdate ext directories raw includeModel) (toolUpdate raw))

theorem parseLine_step : LineStep ext directories context state sourceOffset line
    (parseLine ext directories context state sourceOffset line) := by
  unfold parseLine
  split_ifs with hlg hrl
  · exact .unread (if_pos (.inl hlg)) (.inr ⟨_, rfl⟩)
  · exact .unread (if_pos (.inr (by simpa using hrl))) (.inl rfl)
  · have hraw : rawLine ext line = (ext.fromSlice line).bind RawLine.deserialize :=
      if_neg (by simp_all)
    rw [← hraw]
    split
    · exact .unread ‹_› (.inr ⟨_, rfl⟩)
    · rename_i raw hr
      split
      · exact .metadata hr ‹_›
      · rename_i effect he
        unfold parseEffect
        split
        · exact .untimed hr he ‹_›
        · dsimp only
          split_ifs with hp
          · exact .zeroUsage hr he ‹_› (by simpa using hp)
          · exact .usage hr he ‹_›

/-- The state after the metadata and the tool of a line. -/
structure LineUpdate (update : MetadataUpdate) (tool : Option ToolUpdate) (next : ParserState) :
    Prop where
  sessionId : next.sessionId = update.sessionId.or state.sessionId
  lineage : (next.parentSessionId, next.lineageConflict) = applyLineage state update
  previousTotals : next.previousTotals = state.previousTotals
  nextUsageOrdinal : next.nextUsageOrdinal = state.nextUsageOrdinal
  pendingActivity : next.pendingActivity =
    tool.elim state.pendingActivity fun tool => state.pendingActivity.increment tool.activity

variable {state} in
theorem lineUpdate {hinted : ParserState} (h : hinted.forget = state.forget) (md : MetadataUpdate)
    (tool : Option ToolUpdate) :
    LineUpdate state md tool (recordToolUpdate (applyMetadata hinted md) tool) := by
  have hforget := @forget_step _ _ h md md rfl tool
  have hself : LineUpdate state md tool (recordToolUpdate (applyMetadata state md) tool).forget := by
    cases tool with
    | none => exact ⟨rfl, rfl, rfl, rfl, rfl⟩
    | some tool =>
      unfold recordToolUpdate ParserState.recordTool
      dsimp only
      split_ifs <;> exact ⟨rfl, rfl, rfl, rfl, rfl⟩
  rw [← hforget] at hself
  exact ⟨hself.sessionId, hself.lineage, hself.previousTotals, hself.nextUsageOrdinal,
    hself.pendingActivity⟩

variable (ts : UtcTimestamp) (effect : LineEffect) (update : MetadataUpdate)
  (tool : Option ToolUpdate)

/-- The draft of a usage line is never refused: a session that is its own parent is marked as a
conflict before. -/
theorem observationDraft_isSome (model : ResolvedModel) (sess : UsageSessionId) :
    ∃ ev, ObservationDraft.new (observationParts context state sourceOffset ts effect
        (normalizeLineageConflict state update sess) tool model sess) = some ev ∧
      ev.toObservationDraftParts = observationParts context state sourceOffset ts effect
        (normalizeLineageConflict state update sess) tool model sess := by
  unfold ObservationDraft.new
  split_ifs with h
  · exact ⟨_, rfl, rfl⟩
  · rw [not_or, not_not] at h
    obtain ⟨hcf, hpar⟩ := h
    refine absurd ?_ hcf
    replace hpar : update.parentSessionId.or state.parentSessionId = some sess := hpar
    simp [observationParts, normalizeLineageConflict, hpar]

/-- A usage line emits. -/
theorem parseUsage_eq :
    let sess := resolvedSessionId context state update
    let md := normalizeLineageConflict state update sess
    let next := recordToolUpdate
      (applyMetadata (recordRepositoryActivityHint context state md sess (some ts)) md) tool
    ∃ model ev,
      resolveModel ext effect.model (update.currentModel.or state.currentModel) = some model ∧
      ev.toObservationDraftParts =
        observationParts context state sourceOffset ts effect md tool model sess ∧
      parseUsage ext context state sourceOffset ts effect update tool =
        ({ next with
            previousTotals := effect.baselineUpdate.or next.previousTotals
            currentModel := some model
            sessionId := next.sessionId.or (some sess)
            nextUsageOrdinal := saturatingAdd next.nextUsageOrdinal 1
            pendingActivity := .zero },
          .emitted ev) := by
  obtain ⟨model, hm⟩ : ∃ model,
      resolveModel ext effect.model (update.currentModel.or state.currentModel) = some model := by
    unfold resolveModel
    split
    · exact ⟨_, rfl⟩
    · split <;> exact ⟨_, rfl⟩
  obtain ⟨ev, hev, hps⟩ := observationDraft_isSome context state sourceOffset ts effect update tool
    model (resolvedSessionId context state update)
  refine ⟨model, ev, hm, hps, ?_⟩
  simp only [parseUsage, hm, hev]

end Branches

end TokenMaster.Codex
