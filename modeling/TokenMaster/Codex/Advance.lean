import TokenMaster.Codex.Reader

/-!
# TokenMaster.Codex.Advance — every batch ends further on, in a valid checkpoint

Whatever the lines say, the loop of `read_lines` keeps its offsets in order and its state restorable
(`Framing.Placed`).  So the end of a loop passes the checks of `ReaderCheckpointV1::new`, a batch that
stops before the end of the snapshot has moved on, and repeated calls come to the end.  The ordinal of
a checkpoint has to leave room: an event takes a byte and a newline, and ordinals end at `i64::MAX`.
-/

namespace TokenMaster.Codex

open Domain TokenMaster.Except List

/-! ### Buffers -/

theorem newline_notMem_lineContent (available : Bytes) : newlineByte ∉ lineContent available := by
  intro h
  have hne := mem_takeWhile_imp h
  simp at hne

variable {available : Bytes}

/-- A buffer with a newline starts with the end of a line. -/
theorem take_of_hasNewline (h : hasNewline available = true) :
    available = lineContent available ++ newlineByte :: available.drop (consumedLength available) := by
  have hlength : (lineContent available).length < available.length := by simpa [hasNewline] using h
  have hspl : lineContent available ++ available.dropWhile (· != newlineByte) = available :=
    takeWhile_append_dropWhile
  have hrs : available.drop (lineContent available).length =
      available.dropWhile (· != newlineByte) := by
    have hl : (lineContent available ++ available.dropWhile (· != newlineByte)).drop
        (lineContent available).length = available.dropWhile (· != newlineByte) := drop_left
    rwa [hspl] at hl
  cases hdr : available.dropWhile (· != newlineByte) with
  | nil =>
    rw [hdr, append_nil] at hspl
    rw [hspl] at hlength
    exact absurd hlength (lt_irrefl _)
  | cons b rest =>
    have hb : b = newlineByte := by
      have hhd := List.head?_dropWhile_not (· != newlineByte) available
      rw [hdr] at hhd
      simpa using hhd
    have htl : available.drop (consumedLength available) = rest := by
      rw [consumedLength, h, if_pos rfl, ← drop_drop, hrs, hdr]
      rfl
    rw [htl, ← hb, ← hdr, hspl]

theorem lineContent_of_not_hasNewline (h : hasNewline available = false) :
    lineContent available = available := by
  have hlength : available.length ≤ (lineContent available).length := by
    simpa [hasNewline] using h
  exact ( List.takeWhile_prefix _).eq_of_length_le hlength

theorem drop_of_not_hasNewline (h : hasNewline available = false) :
    available.drop (consumedLength available) = [] := by
  rw [consumedLength, lineContent_of_not_hasNewline h, h]
  exact drop_length

theorem flatten_consumeBuffer (available : Bytes) (rest : List Bytes) :
    (consumeBuffer available rest).flatten =
      available.drop (consumedLength available) ++ rest.flatten := by
  unfold consumeBuffer
  split
  · next h => rw [h, nil_append]
  · rfl

theorem nonempty_consumeBuffer {rest : List Bytes} (h : ∀ buffer ∈ rest, buffer ≠ []) :
    ∀ buffer ∈ consumeBuffer available rest, buffer ≠ [] := by
  unfold consumeBuffer
  split
  · exact h
  · next hne =>
    intro buffer hbuffer
    rcases mem_cons.mp hbuffer with rfl | hbuffer
    · exact hne
    · exact h buffer hbuffer

theorem consumedLength_pos (h : available ≠ []) :
    0 < consumedLength available := by
  unfold consumedLength
  cases hnl : hasNewline available with
  | true => simp
  | false =>
    rw [lineContent_of_not_hasNewline hnl]
    have hlength := length_pos_iff.mpr h
    omega

theorem consumedLength_le (available : Bytes) : consumedLength available ≤ available.length := by
  unfold consumedLength hasNewline
  have hcon := ( List.takeWhile_prefix (l := available) (· != newlineByte)).length_le
  split_ifs with hlt
  · exact of_decide_eq_true hlt
  · exact hcon

/-! ### The loop -/

variable {buffers : List Bytes}

section Loop

variable {ext : Externals} {limits : BatchLimits} {call : ℕ → Directories} {ctx : ParseContext}
  {input : FramingInput} {interrupts : ℕ → Option ReaderErrorCode} {framing last : Framing}
  {reached : Bool}

/-- **The rule of the loop.**  What an iteration keeps, of the bytes that are left and the variables,
holds when the bytes are used up, and holds before the last iteration of a batch that stops. -/
theorem readLoop_rule {P : Bytes → Framing → Prop}
    (step : ∀ {available rest framing}, available ≠ [] → P (available ++ rest) framing →
      P (available.drop (consumedLength available) ++ rest)
        (framing.iterate ext call ctx available)) {fuel iteration : ℕ}
    (hbuff : ∀ buffer ∈ buffers, buffer ≠ []) (h : P buffers.flatten framing)
    (hlp : readLoop ext limits call ctx input interrupts fuel iteration buffers framing =
      .ok (last, reached)) :
    (P [] last ∧ reached = true) ∨
      ∃ available rest before, available ≠ [] ∧ P (available ++ rest) before ∧
        last = before.iterate ext call ctx available ∧
        last.stops limits (discardReadLimit limits input) (hasNewline available) = true ∧
        reached = decide (last.absoluteOffset ≥ input.snapshotEndOffset) := by
  induction fuel generalizing iteration buffers framing with
  | zero => cases hlp
  | succ fuel ih =>
    unfold readLoop at hlp
    cases hinte : interrupts iteration with
    | some code => simp [hinte] at hlp
    | none =>
      simp only [hinte] at hlp
      cases buffers with
      | nil =>
        cases hlp
        exact .inl ⟨h, rfl⟩
      | cons available rest =>
        obtain ⟨hne, hrs⟩ := forall_mem_cons.mp hbuff
        dsimp only at hlp
        split_ifs at hlp with hstop
        · cases hlp
          exact .inr ⟨available, _, framing, hne, h, rfl, hstop, rfl⟩
        · refine ih (nonempty_consumeBuffer hrs) ?_ hlp
          rw [flatten_consumeBuffer]
          exact step hne h

/-! ### One iteration -/

theorem parse_keeps (framing : Framing) : ∃ state events relations,
    framing.parse ext call ctx = { framing with state, events, relations } ∧
      (framing.state.Restorable ext → state.Restorable ext) ∧
      2 * state.nextUsageOrdinal ≤ 2 * framing.state.nextUsageOrdinal + (framing.line.length + 1) := by
  by_cases hemp : (stripCarriageReturn framing.line).isEmpty = true
  · exact ⟨_, _, _, if_pos hemp, id, by omega⟩
  · have hpos : 0 < framing.line.length := by
      refine length_pos_iff.mpr fun hnil => hemp ?_
      rw [hnil]
      rfl
    have hord := parseLine_ordinal ext (call framing.committedOffset) ctx framing.state
      framing.committedOffset (stripCarriageReturn framing.line)
    unfold OrdinalStep saturatingAdd at hord
    obtain ⟨events, relations, hps⟩ : ∃ events relations, framing.parse ext call ctx =
        { framing with
          state := (parseLine ext (call framing.committedOffset) ctx framing.state
            framing.committedOffset (stripCarriageReturn framing.line)).1
          events, relations } := by
      rw [Framing.parse, if_neg hemp]
      dsimp only
      split <;> exact ⟨_, _, rfl⟩
    exact ⟨_, events, relations, hps, fun h => parseLine_restorable _ _ h _ _,
      by split_ifs at hord <;> omega⟩

/-- What an iteration that ends a line leaves. -/
structure EndsLine (ext : Externals) (framing : Framing) (consumed : ℕ) (next : Framing) : Prop where
  discarding : next.discardingOversizedLine = false
  line : next.line = []
  committed : next.committedOffset = next.absoluteOffset
  restorable : framing.state.Restorable ext → next.state.Restorable ext
  skipped : framing.discardingOversizedLine = true → next.state = framing.state
  ordinal : 2 * next.state.nextUsageOrdinal ≤
    2 * framing.state.nextUsageOrdinal + (framing.line.length + consumed)

/-- What an iteration within a line leaves: more of the line, or the line is oversized. -/
structure GrowsLine (framing : Framing) (available : Bytes) (next : Framing) : Prop where
  state : next.state = framing.state
  committed : next.committedOffset = framing.committedOffset
  line : next.discardingOversizedLine = true ∨ framing.discardingOversizedLine = false ∧
    next.discardingOversizedLine = false ∧ next.line = framing.line ++ available

/-- **What an iteration can do.** -/
theorem iterate_cases (framing : Framing) (available : Bytes) :
    let next := framing.iterate ext call ctx available
    next.absoluteOffset = framing.absoluteOffset + consumedLength available ∧
      (hasNewline available = true ∧ EndsLine ext framing (consumedLength available) next ∨
        hasNewline available = false ∧ GrowsLine framing available next) := by
  unfold Framing.iterate Framing.extend
  cases hnl : hasNewline available with
  | true =>
    simp only [if_true]
    split_ifs with hfl hlg
    · exact ⟨rfl, .inl ⟨trivial, rfl, rfl, rfl, id, fun _ => rfl, Nat.le_add_right ..⟩⟩
    · exact ⟨rfl, .inl ⟨trivial, rfl, rfl, rfl, id, fun _ => rfl, Nat.le_add_right ..⟩⟩
    · obtain ⟨state, events, relations, hps, hrest, hord⟩ := @parse_keeps ext call
        ctx (Framing.advance { framing with line := framing.line ++ lineContent available }
          (consumedLength available))
      unfold Framing.complete
      rw [if_neg Bool.false_ne_true, hps]
      have hkp : framing.discardingOversizedLine = false := by simpa using hfl
      refine ⟨rfl, .inl ⟨trivial, hkp, rfl, rfl, hrest,
        fun hdisc => absurd hdisc hfl, hord.trans ?_⟩⟩
      have hcons : consumedLength available = (lineContent available).length + 1 := by
        rw [consumedLength, hnl, if_pos rfl]
      simp only [Framing.advance, length_append]
      omega
  | false =>
    have hcon := lineContent_of_not_hasNewline hnl
    simp only [Bool.false_eq_true, if_false, hcon]
    split_ifs with hfl hlg
    · exact ⟨rfl, .inr ⟨trivial, rfl, rfl, .inl hfl⟩⟩
    · exact ⟨rfl, .inr ⟨trivial, rfl, rfl, .inl rfl⟩⟩
    · have hfl : framing.discardingOversizedLine = false := by simpa using hfl
      exact ⟨rfl, .inr ⟨trivial, rfl, rfl, .inr ⟨hfl, hfl, rfl⟩⟩⟩

/-! ### Offsets and ordinals in order -/

/-- The offset that a checkpoint of these variables goes on from. -/
def Framing.scan (framing : Framing) : ℕ :=
  if framing.discardingOversizedLine then framing.absoluteOffset else framing.committedOffset

/-- What the loop keeps of its offsets and its state. -/
structure Framing.Placed (ext : Externals) (input : FramingInput) (framing : Framing) : Prop where
  restorable : framing.state.Restorable ext
  ordinal : 2 * framing.state.nextUsageOrdinal + input.startOffset ≤
    2 * input.state.nextUsageOrdinal + framing.scan
  start_le : input.startOffset ≤ framing.scan
  committed_mono : input.committedOffset ≤ framing.committedOffset
  committed_le : framing.committedOffset ≤ framing.absoluteOffset
  discarding : framing.discardingOversizedLine = true →
    framing.committedOffset < framing.absoluteOffset
  line : framing.discardingOversizedLine = false →
    framing.committedOffset + framing.line.length = framing.absoluteOffset

theorem Framing.Placed.iterate (h : framing.Placed ext input) {available : Bytes}
    (hne : available ≠ []) : (framing.iterate ext call ctx available).Placed ext input := by
  have hpos := consumedLength_pos hne
  have hst := h.start_le
  have hord := h.ordinal
  have hmono := h.committed_mono
  have hle := h.committed_le
  have hln := h.line
  unfold Framing.scan at hst hord
  obtain ⟨habso, ⟨hnl, hend⟩ | ⟨hnl, hgr⟩⟩ :=
    @iterate_cases ext call ctx framing available
  · have hcom := hend.committed
    have hmo := hend.ordinal
    have hsc : (framing.iterate ext call ctx available).scan =
        framing.absoluteOffset + consumedLength available := by
      rw [Framing.scan, hend.discarding, if_neg Bool.false_ne_true, hcom, habso]
    refine ⟨hend.restorable h.restorable, ?_, ?_, ?_, ?_, ?_, ?_⟩
    · cases hfl : framing.discardingOversizedLine with
      | true =>
        rw [hend.skipped hfl]
        simp only [hfl, if_true] at hord
        omega
      | false =>
        have hlength := hln hfl
        simp only [hfl, Bool.false_eq_true, if_false] at hord
        omega
    · split_ifs at hst <;> omega
    · omega
    · omega
    · simp [hend.discarding]
    · simp [hend.line, hcom]
  · have hcom := hgr.committed
    have hcon : consumedLength available = available.length := by
      rw [consumedLength, hnl, lineContent_of_not_hasNewline hnl]
      rfl
    rcases hgr.line with hfl | ⟨hbef, hfl, hnx⟩
    · have hsc : (framing.iterate ext call ctx available).scan =
          framing.absoluteOffset + consumedLength available := by
        rw [Framing.scan, if_pos hfl, habso]
      refine ⟨hgr.state ▸ h.restorable, ?_, ?_, ?_, ?_, ?_, ?_⟩
      · rw [hsc, hgr.state]
        split_ifs at hord <;> omega
      · split_ifs at hst <;> omega
      · omega
      · omega
      · omega
      · simp [hfl]
    · have hsc : (framing.iterate ext call ctx available).scan = framing.committedOffset := by
        rw [Framing.scan, hfl, if_neg Bool.false_ne_true, hcom]
      have hlength := hln hbef
      simp only [hbef, Bool.false_eq_true, if_false] at hord hst
      refine ⟨hgr.state ▸ h.restorable, ?_, ?_, ?_, ?_, ?_, ?_⟩
      · rw [hsc, hgr.state]
        omega
      · rw [hsc]
        exact hst
      · omega
      · omega
      · simp [hfl]
      · rw [hnx, length_append]
        omega

/-- The loop is within the snapshot: `left` is still to be read, and it has not gone back behind
`start`. -/
structure Framing.Reading (ext : Externals) (input : FramingInput) (start : ℕ) (left : Bytes)
    (framing : Framing) : Prop where
  placed : framing.Placed ext input
  left : framing.absoluteOffset + left.length = input.snapshotEndOffset
  start_le : start ≤ framing.absoluteOffset

theorem Framing.Reading.iterate {start : ℕ} {available rest : Bytes}
    (h : framing.Reading ext input start (available ++ rest)) (hne : available ≠ []) :
    (framing.iterate ext call ctx available).Reading ext input start
      (available.drop (consumedLength available) ++ rest) := by
  have habso := (@iterate_cases ext call ctx framing available).1
  have hle := consumedLength_le available
  have hl := h.left
  have hst := h.start_le
  refine ⟨h.placed.iterate hne, ?_, by omega⟩
  simp only [length_append, length_drop] at hl ⊢
  omega

/-- A loop over the rest of the snapshot ends within it; one that stops early has moved on. -/
theorem Framing.Placed.readLoop (h : framing.Placed ext input) {fuel iteration : ℕ}
    (hbuff : ∀ buffer ∈ buffers, buffer ≠ [])
    (hend : framing.absoluteOffset + buffers.flatten.length = input.snapshotEndOffset)
    (hlp : readLoop ext limits call ctx input interrupts fuel iteration buffers framing =
      .ok (last, reached)) :
    last.Placed ext input ∧ last.absoluteOffset ≤ input.snapshotEndOffset ∧
      (reached = true → last.absoluteOffset = input.snapshotEndOffset) ∧
      (reached = false → framing.absoluteOffset < last.scan) := by
  have hread : framing.Reading ext input framing.absoluteOffset buffers.flatten :=
    ⟨h, hend, le_rfl⟩
  rcases readLoop_rule (fun hne hbef => hbef.iterate hne) hbuff hread hlp with
    ⟨hl, rfl⟩ | ⟨available, rest, before, hne, hbef, rfl, hstop, rfl⟩
  · exact ⟨hl.placed, hl.left.le, fun _ => hl.left, nofun⟩
  · have hl : (before.iterate ext call ctx available).Reading ext input _ _ :=
      hbef.iterate hne
    have hleft := hl.left
    obtain ⟨habso, hcases⟩ := @iterate_cases ext call ctx before available
    have hpos := consumedLength_pos hne
    have hst := hbef.start_le
    have hsc : (before.iterate ext call ctx available).scan =
        (before.iterate ext call ctx available).absoluteOffset := by
      unfold Framing.scan Framing.stops at *
      rcases hcases with ⟨_, hln⟩ | ⟨hnl, _⟩
      · rw [hln.discarding, if_neg Bool.false_ne_true, hln.committed]
      · rw [hnl, if_neg Bool.false_ne_true, Bool.and_eq_true] at hstop
        rw [if_pos hstop.1]
    refine ⟨hl.placed, by omega, fun hrea => ?_, fun _ => by omega⟩
    have hat := of_decide_eq_true hrea
    omega

/-- A loop without interrupts returns: every iteration takes a byte. -/
theorem readLoop_returns (limits : BatchLimits) (call : ℕ → Directories) (input : FramingInput)
    {interrupts : ℕ → Option ReaderErrorCode} (hinte : ∀ i, interrupts i = none) {fuel : ℕ}
    (iteration : ℕ) {buffers : List Bytes} (framing : Framing)
    (hbuff : ∀ buffer ∈ buffers, buffer ≠ []) (hfuel : buffers.flatten.length < fuel) :
    ∃ result, readLoop ext limits call ctx input interrupts fuel iteration buffers framing =
      .ok result := by
  induction fuel generalizing iteration buffers framing with
  | zero => exact absurd hfuel (Nat.not_lt_zero _)
  | succ fuel ih =>
    unfold readLoop
    rw [hinte]
    cases buffers with
    | nil => exact ⟨_, rfl⟩
    | cons available rest =>
      obtain ⟨hne, hrs⟩ := forall_mem_cons.mp hbuff
      dsimp only
      split_ifs with hstop
      · exact ⟨_, rfl⟩
      · refine ih _ _ (nonempty_consumeBuffer hrs) ?_
        have hpos := consumedLength_pos hne
        have hlength := length_pos_iff.mpr hne
        rw [flatten_consumeBuffer, length_append, length_drop]
        rw [flatten_cons, length_append] at hfuel
        omega

end Loop

/-! ### Checkpoints -/

theorem ReaderCheckpoint.new_eq_ok {parts cp : ReaderCheckpoint}
    (h : ReaderCheckpoint.new ext parts = .ok cp) : cp = parts := by
  unfold ReaderCheckpoint.new at h
  split at h
  · cases h
  · split_ifs at h
    cases h
    rfl

/-- The checkpoint that a call makes of the end of its loop. -/
def checkpointOf (framed : FramingResult) (fileLength : ℕ) (verification : ObservationVerification) :
    ReaderCheckpoint where
  committedOffset := framed.committedOffset
  scanOffset := framed.scanOffset
  observedFileLength := fileLength
  resume := framed.state.snapshot
  discardingOversizedLine := framed.discardingOversizedLine
  incompleteTail := framed.incompleteTail
  verification := verification

/-- An input that a valid checkpoint gives, with room for the events of a file of `bound` bytes. -/
structure FramingInput.Valid (ext : Externals) (bound : ℕ) (input : FramingInput) : Prop where
  restorable : input.state.Restorable ext
  committed : if input.discardingOversizedLine then input.committedOffset < input.startOffset
    else input.committedOffset = input.startOffset
  start_le : input.startOffset ≤ input.snapshotEndOffset
  end_le : input.snapshotEndOffset ≤ bound
  room : 2 * input.state.nextUsageOrdinal + (bound - input.startOffset) ≤ 2 * maxOrdinal + 1

/-- A checkpoint that passes its checks, of a file that has grown to at most `bound` bytes. -/
structure ReaderCheckpoint.Ready (ext : Externals) (bound : ℕ) (checkpoint : ReaderCheckpoint) :
    Prop where
  new_eq : ReaderCheckpoint.new ext checkpoint = .ok checkpoint
  observed_le : checkpoint.observedFileLength ≤ bound
  room : 2 * checkpoint.resume.nextUsageOrdinal + (bound - checkpoint.scanOffset) ≤
    2 * maxOrdinal + 1

/-- What a batch leaves of its input. -/
structure FramingInput.Advances (ext : Externals) (bound : ℕ) (input : FramingInput)
    (framed : FramingResult) : Prop where
  ready : ∀ verification,
    (checkpointOf framed input.snapshotEndOffset verification).Ready ext bound
  restorable : framed.state.Restorable ext
  committed_le : input.committedOffset ≤ framed.committedOffset
  start_le : input.startOffset ≤ framed.scanOffset
  moved : framed.reachedSnapshotEnd = false → input.startOffset < framed.scanOffset
  unchanged : framed.reachedSnapshotEnd = true → ∀ verification,
    (checkpointOf framed input.snapshotEndOffset verification).isUnchanged
      input.snapshotEndOffset = true

section Checkpoints

variable {ext : Externals} {bound : ℕ} {input : FramingInput}

/-- What `ReaderCheckpointV1::new` checks. -/
theorem ReaderCheckpoint.new_ok_iff {cp : ReaderCheckpoint} :
    ReaderCheckpoint.new ext cp = .ok cp ↔
      (∃ st, ParserState.fromResume ext cp.resume = .ok st) ∧
      cp.committedOffset ≤ cp.scanOffset ∧
      cp.scanOffset ≤ cp.observedFileLength ∧
      (cp.discardingOversizedLine = false → cp.scanOffset = cp.committedOffset) ∧
      (cp.discardingOversizedLine = true → cp.incompleteTail = true ∧
        cp.scanOffset ≠ cp.committedOffset) := by
  unfold ReaderCheckpoint.new
  cases ParserState.fromResume ext cp.resume with
  | error code => simp
  | ok st =>
    split_ifs with hoffs hfls
    · refine iff_of_false nofun ?_
      rintro ⟨-, hlow, hhigh, hsm, -⟩
      rcases hoffs with hlt | hgrea | ⟨hfl, hne⟩
      · omega
      · omega
      · exact hne (hsm hfl)
    · refine iff_of_false nofun ?_
      rintro ⟨-, -, -, -, hdisc⟩
      obtain ⟨htl, hne⟩ := hdisc hfls.1
      rcases hfls.2 with hfalse | hsm
      · rw [htl] at hfalse
        cases hfalse
      · exact hne hsm
    · simp only [not_or, not_and, not_lt, not_not] at hoffs hfls
      refine iff_of_true rfl ⟨⟨st, rfl⟩, hoffs.1, hoffs.2.1, hoffs.2.2, fun hfl => ?_⟩
      exact ⟨by simpa using (hfls hfl).1, (hfls hfl).2⟩

theorem FramingInput.Valid.placed (h : input.Valid ext bound) : input.framing.Placed ext input := by
  have hcom := h.committed
  have hsc : input.framing.scan = input.startOffset := by
    unfold Framing.scan FramingInput.framing
    split_ifs at hcom ⊢
    · rfl
    · exact hcom
  refine ⟨h.restorable, (congrArg _ hsc).ge, hsc.ge, le_rfl, ?_, fun hfl => ?_, fun hfl => ?_⟩
  · show input.committedOffset ≤ input.startOffset
    split_ifs at hcom <;> omega
  · rwa [if_pos (show input.discardingOversizedLine = true from hfl)] at hcom
  · rwa [if_neg (by rw [show input.discardingOversizedLine = false from hfl]; decide)] at hcom

theorem FramingInput.Valid.advances (h : input.Valid ext bound) {limits : BatchLimits}
    {dirs : ℕ → Directories} {ctx : ParseContext}
    {interrupts : ℕ → Option ReaderErrorCode} {framed : FramingResult}
    (hbuff : ∀ buffer ∈ buffers, buffer ≠ [])
    (hlength : input.startOffset + buffers.flatten.length = input.snapshotEndOffset)
    (hrd : readLines ext limits dirs ctx input interrupts buffers = .ok framed) :
    input.Advances ext bound framed := by
  obtain ⟨⟨last, reached⟩, hlp, hres⟩ := bind_eq_ok.mp hrd
  cases hres
  obtain ⟨hplaced, hend, hrea, hmoved⟩ := h.placed.readLoop hbuff hlength hlp
  have hord := hplaced.ordinal
  have hst := hplaced.start_le
  have hcom := hplaced.committed_le
  have hrm := h.room
  have hbd := h.end_le
  obtain ⟨hlow, hle⟩ : last.committedOffset ≤ last.scan ∧ last.scan ≤ last.absoluteOffset := by
    unfold Framing.scan
    split_ifs <;> omega
  have hresume := fromResume_snapshot hplaced.restorable (by omega)
  refine ⟨fun verification => ⟨?_, hbd, ?_⟩, hplaced.restorable, hplaced.committed_mono, hst,
    ?_, ?_⟩
  · refine ReaderCheckpoint.new_ok_iff.mpr ⟨⟨_, hresume⟩, hlow, hle.trans hend, fun hfl => ?_,
      fun hfl => ⟨?_, fun hsm => ?_⟩⟩
    · exact if_neg (by rw [show last.discardingOversizedLine = false from hfl]; decide)
    · simp [checkpointOf, Framing.result, show last.discardingOversizedLine = true from hfl]
    · have hlt := hplaced.discarding hfl
      have hat : last.absoluteOffset = last.committedOffset := (if_pos hfl).symm.trans hsm
      omega
  · show 2 * last.state.nextUsageOrdinal + (bound - last.scan) ≤ _
    omega
  · intro hfalse
    obtain rfl : reached = false := hfalse
    exact hmoved rfl
  · intro htrue verification
    obtain rfl : reached = true := htrue
    have hat := hrea rfl
    unfold ReaderCheckpoint.isUnchanged
    rw [Bool.and_eq_true, Bool.or_eq_true, decide_eq_true_eq, decide_eq_true_eq]
    refine ⟨rfl, ?_⟩
    by_cases hfl : last.discardingOversizedLine = true
    · exact .inr ((if_pos hfl).trans hat)
    · have hfl : last.discardingOversizedLine = false := by simpa using hfl
      have hln := hplaced.line hfl
      by_cases hemp : last.line = []
      · rw [hemp, length_nil, Nat.add_zero] at hln
        exact .inr ((if_neg (by rw [hfl]; decide)).trans (hln.trans hat))
      · simp [checkpointOf, Framing.result, hfl, hemp]

end Checkpoints

/-! ### Runs of calls -/

/-- What a caller holds: the last checkpoint, everything it was given, and the length of the file if
the last call found it read to the end. -/
structure Progress where
  checkpoint : Option ReaderCheckpoint
  events : List ObservationDraft
  relations : List SessionRelationDraft
  exhausted : Option ℕ

/-- Before the first call. -/
def Progress.start (checkpoint : Option ReaderCheckpoint) : Progress := ⟨checkpoint, [], [], none⟩

/-- The caller keeps its checkpoint when a call fails. -/
def Progress.call (ext : Externals) (limits : BatchLimits) (context : ParseContext) (file : Bytes)
    (progress : Progress) (call : Call) : Progress :=
  match readSourceBatch ext limits context file progress.checkpoint call with
  | .error _ => { progress with exhausted := none }
  | .ok .truncated => { progress with exhausted := none }
  | .ok .unchanged => { progress with exhausted := some call.fileLength }
  | .ok (.batch batch) =>
    { checkpoint := some batch.checkpoint
      events := progress.events ++ batch.events
      relations := progress.relations ++ batch.relations
      exhausted := if batch.reachedSnapshotEnd then some call.fileLength else none }

def Progress.run (ext : Externals) (limits : BatchLimits) (context : ParseContext) (file : Bytes)
    (progress : Progress) (calls : List Call) : Progress :=
  calls.foldl (fun progress call => progress.call ext limits context file call) progress

/-- The length at which the file was last observed. -/
def Progress.observed (progress : Progress) : ℕ :=
  match progress.checkpoint with
  | none => 0
  | some checkpoint => checkpoint.observedFileLength

/-- The offset at which the next call starts. -/
def Progress.scan (progress : Progress) : ℕ :=
  match progress.checkpoint with
  | none => 0
  | some checkpoint => checkpoint.scanOffset

/-! ### One call -/

section Calls

variable {ext : Externals} {bound n : ℕ} {input : FramingInput} {limits : BatchLimits}
  {ctx : ParseContext} {file : Bytes} {call : Call} {verification : ObservationVerification}

section Batch

variable (h : input.Valid ext bound) (hend : input.snapshotEndOffset = call.fileLength)
  (hlength : call.fileLength ≤ file.length)

include h hend hlength

theorem FramingInput.Valid.rest_length : input.startOffset +
    (call.chunking.split ((file.take call.fileLength).drop input.startOffset)).flatten.length =
      input.snapshotEndOffset := by
  have hst := h.start_le
  rw [call.chunking.flatten_split, length_drop, length_take]
  omega

/-- A batch is made of what the loop has read. -/
theorem FramingInput.Valid.readBatch_ok {out : ReaderOutcome}
    (hrd : readBatch ext limits ctx file call verification input = .ok out) :
    ∃ framed, readLines ext limits call.directories
        { ctx with sourceVerification := verification } input call.interrupts
        (call.chunking.split ((file.take call.fileLength).drop input.startOffset)) = .ok framed ∧
      input.Advances ext bound framed ∧
      out = .batch ⟨checkpointOf framed call.fileLength verification, framed.events,
        framed.relations, framed.bytesRead, framed.reachedSnapshotEnd⟩ := by
  obtain ⟨framed, hls, hrd⟩ := bind_eq_ok.mp hrd
  refine ⟨framed, hls, h.advances (call.chunking.nonempty _) (h.rest_length hend hlength) hls, ?_⟩
  cases hclos : call.closing with
  | some code => simp [hclos] at hrd
  | none =>
    simp only [hclos] at hrd
    obtain ⟨cp, hnew, hrd⟩ := bind_eq_ok.mp hrd
    cases hrd
    rw [ReaderCheckpoint.new_eq_ok hnew]
    rfl

theorem FramingInput.Valid.readBatch_returns (hunin : call.Uninterrupted) :
    ∃ outcome, readBatch ext limits ctx file call verification input = .ok outcome := by
  obtain ⟨_, hinte, hclos⟩ := hunin
  obtain ⟨⟨last, reached⟩, hlp⟩ := @readLoop_returns ext
    { ctx with sourceVerification := verification } limits call.directories input _ hinte _ 0 _
    input.framing (call.chunking.nonempty ((file.take call.fileLength).drop input.startOffset))
    (Nat.lt_succ_self _)
  have hrd : readLines ext limits call.directories
      { ctx with sourceVerification := verification } input call.interrupts
      (call.chunking.split ((file.take call.fileLength).drop input.startOffset)) =
        .ok (last.result reached) := bind_eq_ok.mpr ⟨(last, reached), hlp, rfl⟩
  have hnew := ((h.advances (call.chunking.nonempty _) (h.rest_length hend hlength) hrd).ready
    verification).new_eq
  rw [hend] at hnew
  unfold readBatch
  rw [hrd, ok_bind, hclos]
  exact ⟨_, bind_eq_ok.mpr ⟨_, hnew, rfl⟩⟩

end Batch

/-- The input of a call that reads. -/
def CallInput (ext : Externals) (n : ℕ) : Option ReaderCheckpoint → FramingInput → Prop
  | none, input => input = ⟨0, 0, .new, n, false⟩
  | some checkpoint, input => ∃ state, ParserState.fromResume ext checkpoint.resume = .ok state ∧
    input = ⟨checkpoint.scanOffset, checkpoint.committedOffset, state, n,
      checkpoint.discardingOversizedLine⟩

/-- The caller can go on with a file of at most `bound` bytes. -/
structure Progress.Ready (ext : Externals) (bound : ℕ) (progress : Progress) : Prop where
  fresh : progress.checkpoint = none → bound ≤ 2 * maxOrdinal + 1
  stored : ∀ checkpoint, progress.checkpoint = some checkpoint → checkpoint.Ready ext bound
  exhausted : ∀ n, progress.exhausted = some n →
    ∃ checkpoint, progress.checkpoint = some checkpoint ∧ checkpoint.isUnchanged n = true

variable {prog : Progress} (h : prog.Ready ext bound)

include h

theorem CallInput.valid (hin : CallInput ext n prog.checkpoint input)
    (hobs : prog.observed ≤ n) (hn : n ≤ bound) :
    input.Valid ext bound ∧ input.startOffset = prog.scan ∧ input.snapshotEndOffset = n := by
  rw [Progress.observed] at hobs
  rw [Progress.scan]
  cases hcp : prog.checkpoint with
  | none =>
    rw [hcp] at hin
    cases hin
    have hrm := h.fresh hcp
    exact ⟨⟨restorable_new, rfl, Nat.zero_le _, hn, by simpa [ParserState.new] using hrm⟩, rfl, rfl⟩
  | some cp =>
    rw [hcp] at hin hobs
    obtain ⟨st, hsta, rfl⟩ := hin
    have hrdy := h.stored cp hcp
    obtain ⟨hrest, hord⟩ := fromResume_restorable hsta
    obtain ⟨-, hlow, hhigh, hsm, hdisc⟩ := ReaderCheckpoint.new_ok_iff.mp hrdy.new_eq
    refine ⟨⟨hrest, ?_, hhigh.trans hobs, hn, by rw [hord]; exact hrdy.room⟩, rfl, rfl⟩
    split_ifs with hfl
    · exact lt_of_le_of_ne hlow (Ne.symm (hdisc hfl).2)
    · exact (hsm (by simpa using hfl)).symm

/-- What a call that can open the file does: the file is unchanged, or it reads on from the last
checkpoint. -/
theorem readSourceBatch_cases (hopn : call.opening = none)
    (hobs : prog.observed ≤ call.fileLength) :
    (readSourceBatch ext limits ctx file prog.checkpoint call = .ok .unchanged ∧
      ∃ cp, prog.checkpoint = some cp ∧ cp.isUnchanged call.fileLength = true) ∨
    ∃ input, CallInput ext call.fileLength prog.checkpoint input ∧
      readSourceBatch ext limits ctx file prog.checkpoint call =
        readBatch ext limits ctx file call (verificationOf prog.checkpoint) input := by
  unfold readSourceBatch
  rw [Progress.observed] at hobs
  rw [hopn]
  cases hcp : prog.checkpoint with
  | none => exact .inr ⟨_, rfl, rfl⟩
  | some cp =>
    rw [hcp] at hobs
    dsimp only
    rw [if_neg (not_lt.mpr hobs)]
    by_cases hunc : cp.isUnchanged call.fileLength = true
    · exact .inl ⟨if_pos hunc, cp, rfl, hunc⟩
    · obtain ⟨⟨st, hsta⟩, -⟩ :=
        ReaderCheckpoint.new_ok_iff.mp (h.stored cp hcp).new_eq
      rw [if_neg hunc, hsta]
      exact .inr ⟨_, ⟨st, hsta, rfl⟩, rfl⟩

/-- **A call** never goes back, and gets further unless it is interrupted or has reached the end. -/
theorem Progress.Ready.after_call (hn : call.fileLength ≤ bound) (hf : bound ≤ file.length)
    (hobs : prog.observed ≤ call.fileLength) :
    (prog.call ext limits ctx file call).Ready ext bound ∧
      (prog.call ext limits ctx file call).observed ≤ call.fileLength ∧
      prog.scan ≤ (prog.call ext limits ctx file call).scan ∧
      (call.Uninterrupted →
        (prog.call ext limits ctx file call).exhausted = some call.fileLength ∨
          prog.scan < (prog.call ext limits ctx file call).scan) := by
  have hkp : Progress.Ready ext bound { prog with exhausted := none } :=
    { h with exhausted := nofun }
  unfold Progress.call
  cases hopn : call.opening with
  | some code =>
    simp only [readSourceBatch, hopn]
    refine ⟨hkp, hobs, le_rfl, fun hunin => ?_⟩
    rw [hunin.1] at hopn
    cases hopn
  | none =>
    obtain ⟨hcl, hunc⟩ | ⟨input, hin, hcl⟩ :=
      @readSourceBatch_cases ext bound limits ctx file call prog h hopn hobs
    · rw [hcl]
      refine ⟨{ h with exhausted := ?_ }, hobs, le_rfl, fun _ => .inl rfl⟩
      rintro n ⟨⟩
      exact hunc
    obtain ⟨hv, hsc, hend⟩ := hin.valid h hobs hn
    rw [hcl, ← hsc]
    cases hrd : readBatch ext limits ctx file call (verificationOf prog.checkpoint) input with
    | error code =>
      refine ⟨hkp, hobs, hsc.le, fun hunin => ?_⟩
      obtain ⟨out, hout⟩ := @FramingInput.Valid.readBatch_returns ext bound input limits
        ctx file call (verificationOf prog.checkpoint) hv hend (hn.trans hf)
        hunin
      rw [hrd] at hout
      cases hout
    | ok out =>
      obtain ⟨framed, -, hadv, rfl⟩ := hv.readBatch_ok hend (hn.trans hf) hrd
      have hrdy := hadv.ready (verificationOf prog.checkpoint)
      rw [hend] at hrdy
      refine ⟨⟨nofun, ?_, ?_⟩, le_rfl, hadv.start_le, fun _ => ?_⟩
      · rintro cp ⟨⟩
        exact hrdy
      · intro n hn
        dsimp only at hn
        split_ifs at hn with hrea
        cases hn
        exact ⟨_, rfl, hend ▸ hadv.unchanged hrea _⟩
      · cases hrea : framed.reachedSnapshotEnd with
        | true => exact .inl rfl
        | false => exact .inr (hadv.moved hrea)

/-- At the end of the file a call changes nothing. -/
theorem Progress.Ready.call_exhausted (hexha : prog.exhausted = some call.fileLength)
    (hunin : call.Uninterrupted) :
    (prog.call ext limits ctx file call).exhausted = some call.fileLength := by
  obtain ⟨cp, hcp, hunc⟩ := h.exhausted _ hexha
  have hlength : call.fileLength = cp.observedFileLength := by
    simp only [ReaderCheckpoint.isUnchanged, Bool.and_eq_true, decide_eq_true_eq] at hunc
    exact hunc.1
  have hcl : readSourceBatch ext limits ctx file prog.checkpoint call = .ok .unchanged := by
    unfold readSourceBatch
    rw [hunin.1, hcp]
    dsimp only
    rw [if_neg (not_lt.mpr hlength.ge), if_pos hunc]
  unfold Progress.call
  rw [hcl]

omit h

/-- **Calls come to the end**: each one that is not interrupted takes a byte of the snapshot. -/
theorem Progress.Ready.run_exhausts (hf : bound ≤ file.length) (hn : n ≤ bound)
    {calls : List Call} (hcls : ∀ call ∈ calls, call.fileLength = n ∧ call.Uninterrupted)
    {prog : Progress} (h : prog.Ready ext bound) (hobs : prog.observed ≤ n)
    (henough : prog.exhausted = some n ∨ n < prog.scan + calls.length) :
    (prog.run ext limits ctx file calls).exhausted = some n := by
  induction calls generalizing prog with
  | nil =>
    rcases henough with hdn | hmo
    · exact hdn
    · have hsc : prog.scan ≤ prog.observed := by
        unfold Progress.scan Progress.observed
        cases hcp : prog.checkpoint with
        | none => exact le_rfl
        | some cp =>
          exact (ReaderCheckpoint.new_ok_iff.mp (h.stored cp hcp).new_eq).2.2.1
      simp only [length_nil] at hmo
      omega
  | cons call calls ih =>
    obtain ⟨⟨rfl, hunin⟩, hcls⟩ := forall_mem_cons.mp hcls
    obtain ⟨hnx, hnx', -, hmoved⟩ :=
      @Progress.Ready.after_call ext bound limits ctx file call prog h hn hf hobs
    refine ih hcls hnx hnx' ?_
    rcases henough with hdn | hmo
    · exact .inl (h.call_exhausted hdn hunin)
    · rcases hmoved hunin with hdn | hsc
      · exact .inl hdn
      · right
        show call.fileLength < (prog.call ext limits ctx file call).scan + calls.length
        rw [length_cons] at hmo
        omega

end Calls

/-! ### Whole reads -/

/-- Every byte in a buffer of its own. -/
def bytewise : Chunking where
  split bytes := bytes.map fun b => [b]
  flatten_split := by
    intro bytes
    induction bytes with
    | nil => rfl
    | cons b bytes ih => rw [map_cons, flatten_cons, ih, singleton_append]
  nonempty := by
    intro bytes buffer hbuffer
    obtain ⟨b, _, rfl⟩ := mem_map.mp hbuffer
    exact cons_ne_nil _ _

/-- A call at a length, byte by byte and without interrupts. -/
def bytewiseCall (fileLength : ℕ) : Call :=
  ⟨fileLength, bytewise, fun _ _ => none, none, fun _ => none, none⟩

end TokenMaster.Codex
