import TokenMaster.Codex.Advance
import TokenMaster.Lib.Lines

/-!
# TokenMaster.Codex.ReaderRun — reading in batches is reading the whole file

`wholeFile` splits a file at its newlines and feeds every line that is not oversized to one parser
state.  The loop of `read_lines` keeps what it has parsed equal to that reference on the committed
part of the file (`Framed`), a checkpoint carries this to the next call (`Sound`), and every call that
is not interrupted gets further or has reached the end.
-/

namespace TokenMaster.Codex

open Domain TokenMaster.Except List

/-! ### The reference -/

def lineInput (directories : ℕ → Directories) (context : ParseContext) (line : ℕ × Bytes) :
    LineInput :=
  ⟨directories line.1, context, line.1, stripCarriageReturn line.2⟩

/-- All complete lines of a file, without the oversized ones, fed to one parser state. -/
def wholeFile (ext : Externals) (directories : ℕ → Directories) (context : ParseContext)
    (file : Bytes) : ParserState × List ParseOutcome :=
  feed ext .new (((linesFrom newlineByte 0 [] file).filter
    fun line => decide (line.2.length ≤ maxLineBytes)).map (lineInput directories context))

def ParseOutcome.event? : ParseOutcome → Option ObservationDraft
  | emitted event => some event
  | _ => none

def ParseOutcome.relation? : ParseOutcome → Option SessionRelationDraft
  | sessionRelation relation => some relation
  | _ => none

def eventsOf (outcomes : List ParseOutcome) : List ObservationDraft :=
  outcomes.filterMap ParseOutcome.event?

def relationsOf (outcomes : List ParseOutcome) : List SessionRelationDraft :=
  outcomes.filterMap ParseOutcome.relation?

theorem eventsOf_concat (outcomes : List ParseOutcome) (out : ParseOutcome) :
    eventsOf (outcomes ++ [out]) = eventsOf outcomes ++ out.event?.toList := by
  cases out <;> simp [eventsOf, ParseOutcome.event?]

theorem relationsOf_concat (outcomes : List ParseOutcome) (out : ParseOutcome) :
    relationsOf (outcomes ++ [out]) = relationsOf outcomes ++ out.relation?.toList := by
  cases out <;> simp [relationsOf, ParseOutcome.relation?]

theorem feed_append (ext : Externals) (st : ParserState) (inputs more : List LineInput) :
    feed ext st (inputs ++ more) =
      ((feed ext (feed ext st inputs).1 more).1,
        (feed ext st inputs).2 ++ (feed ext (feed ext st inputs).1 more).2) := by
  induction inputs generalizing st with
  | nil => rfl
  | cons input inputs ih =>
    simp only [cons_append, feed, ih]

theorem parseLine_nil (ext : Externals) (dirs : Directories) (ctx : ParseContext)
    (st : ParserState) (off : ℕ) :
    parseLine ext dirs ctx st off [] = (st, .skipped) := rfl

section WholeFile

variable {ext : Externals} {dirs : ℕ → Directories} {ctx : ParseContext}
  {committed pending : Bytes} (hcom : Terminated newlineByte committed)
  (hpd : newlineByte ∉ pending)

include hcom hpd

/-- A line that is not oversized is parsed. -/
theorem wholeFile_line (hlen : pending.length ≤ maxLineBytes) :
    wholeFile ext dirs ctx (committed ++ pending ++ [newlineByte]) =
      ((parseLine ext (dirs committed.length) ctx
          (wholeFile ext dirs ctx committed).1 committed.length
          (stripCarriageReturn pending)).1,
        (wholeFile ext dirs ctx committed).2 ++
          [(parseLine ext (dirs committed.length) ctx
            (wholeFile ext dirs ctx committed).1 committed.length
            (stripCarriageReturn pending)).2]) := by
  unfold wholeFile
  rw [linesFrom_concat hcom hpd, filter_append, map_append, feed_append]
  simp only [filter_cons, hlen, decide_true, if_true, filter_nil, map_cons,
    map_nil, lineInput, feed]

/-- An oversized line is dropped. -/
theorem wholeFile_oversized (hlen : maxLineBytes < pending.length) :
    wholeFile ext dirs ctx (committed ++ pending ++ [newlineByte]) =
      wholeFile ext dirs ctx committed := by
  unfold wholeFile
  rw [linesFrom_concat hcom hpd, filter_append]
  simp only [filter_cons, not_le.mpr hlen, decide_false, Bool.false_eq_true, if_false,
    filter_nil, append_nil]

/-- An unterminated tail is ignored. -/
theorem wholeFile_tail :
    wholeFile ext dirs ctx (committed ++ pending) = wholeFile ext dirs ctx committed := by
  unfold wholeFile
  rw [linesFrom_append_tail hcom hpd]

end WholeFile

/-! ### The invariant of the loop -/

variable {limits : BatchLimits} {input : FramingInput}

section Loop

variable {ext : Externals} {dirs : ℕ → Directories} {ctx : ParseContext}
  {before : List ObservationDraft × List SessionRelationDraft} {framing : Framing}

/-- What the loop has done when it has read `committed`, which ends with a line, and `pending`, which
is the start of the next one; `before` are the results of earlier batches. -/
structure Framed (ext : Externals) (directories : ℕ → Directories) (context : ParseContext)
    (before : List ObservationDraft × List SessionRelationDraft) (committed pending : Bytes)
    (framing : Framing) : Prop where
  terminated : Terminated newlineByte committed
  clean : newlineByte ∉ pending
  committedOffset : framing.committedOffset = committed.length
  absoluteOffset : framing.absoluteOffset = committed.length + pending.length
  discarding : framing.discardingOversizedLine = decide (maxLineBytes < pending.length)
  line : framing.discardingOversizedLine = false → framing.line = pending
  state : framing.state.forget = (wholeFile ext directories context committed).1.forget
  events : before.1 ++ framing.events = eventsOf (wholeFile ext directories context committed).2
  relations : before.2 ++ framing.relations =
    relationsOf (wholeFile ext directories context committed).2

/-- Whether content was put into the line, as the length of the line decides. -/
theorem extend_eq {committed pending : Bytes}
    (h : Framed ext dirs ctx before committed pending framing) (content : Bytes)
    (newline : Bool) :
    framing.extend content newline =
      if maxLineBytes < pending.length + content.length then
        ({ framing with
            discardingOversizedLine := true
            line := if framing.discardingOversizedLine then framing.line else [] }, newline)
      else ({ framing with line := pending ++ content }, false) := by
  unfold Framing.extend
  have hdisc := h.discarding
  cases hfl : framing.discardingOversizedLine with
  | true =>
    rw [hfl] at hdisc
    have hlg : maxLineBytes < pending.length := of_decide_eq_true hdisc.symm
    rw [if_pos rfl, if_pos (by omega)]
    simp [← hfl]
  | false =>
    rw [h.line hfl, if_neg Bool.false_ne_true]
    by_cases hlg : maxLineBytes < pending.length + content.length
    · simp
    · rw [if_neg hlg, if_neg hlg]

/-- The parse of a line is the step of the reference. -/
theorem parse_eq (call : ℕ → Directories) {framing : Framing} {reference : ParserState}
    (hsta : framing.state.forget = reference.forget) (dir : Directories) :
    let parsed := parseLine ext dir ctx reference framing.committedOffset
      (stripCarriageReturn framing.line)
    ∃ state, framing.parse ext call ctx =
        { framing with
          state := state
          events := framing.events ++ parsed.2.event?.toList
          relations := framing.relations ++ parsed.2.relation?.toList } ∧
      state.forget = parsed.1.forget := by
  intro parsed
  have hparsed : visible (parseLine ext (call framing.committedOffset) ctx framing.state
      framing.committedOffset (stripCarriageReturn framing.line)) = visible parsed :=
    parseLine_forget ext _ _ ctx hsta _ _
  obtain ⟨hnx, hout⟩ := Prod.ext_iff.mp hparsed
  simp only [visible] at hnx hout
  unfold Framing.parse
  by_cases hemp : (stripCarriageReturn framing.line).isEmpty = true
  · rw [isEmpty_iff.mp hemp, parseLine_nil] at hnx hout
    refine ⟨framing.state, ?_, hnx⟩
    rw [if_pos hemp, ← hout]
    simp [ParseOutcome.event?, ParseOutcome.relation?]
  · refine ⟨_, ?_, hnx⟩
    rw [if_neg hemp]
    dsimp only
    rw [hout]
    cases parsed.2 <;> simp [ParseOutcome.event?, ParseOutcome.relation?]

/-- The end of a line. -/
theorem framed_newline {call : ℕ → Directories} {committed pending available : Bytes}
    (h : Framed ext dirs ctx before committed pending framing)
    (hnl : hasNewline available = true) :
    Framed ext dirs ctx before
      (committed ++ (pending ++ lineContent available) ++ [newlineByte]) []
      (framing.iterate ext call ctx available) := by
  have hcl : newlineByte ∉ pending ++ lineContent available := by
    rw [mem_append, not_or]
    exact ⟨h.clean, newline_notMem_lineContent available⟩
  have hcons : consumedLength available = (lineContent available).length + 1 := by
    rw [consumedLength, hnl, if_pos rfl]
  have hoff : framing.absoluteOffset + consumedLength available =
      (committed ++ (pending ++ lineContent available) ++ [newlineByte]).length := by
    rw [h.absoluteOffset, hcons]
    simp only [length_append, length_cons, length_nil]
    omega
  unfold Framing.iterate
  rw [extend_eq h, hnl, if_pos rfl]
  by_cases hlg : maxLineBytes < pending.length + (lineContent available).length
  · have hwh : wholeFile ext dirs ctx
        (committed ++ (pending ++ lineContent available) ++ [newlineByte]) =
          wholeFile ext dirs ctx committed :=
      wholeFile_oversized h.terminated hcl (by rw [length_append]; exact hlg)
    rw [if_pos hlg]
    exact
      { terminated := terminated_concat _
        clean := not_mem_nil
        committedOffset := hoff
        absoluteOffset := hoff
        discarding := rfl
        line := fun _ => rfl
        state := by rw [hwh]; exact h.state
        events := by rw [hwh]; exact h.events
        relations := by rw [hwh]; exact h.relations }
  · have hlength : (pending ++ lineContent available).length ≤ maxLineBytes := by
      rw [length_append]
      exact not_lt.mp hlg
    have hfl : framing.discardingOversizedLine = false := by
      rw [h.discarding]
      exact decide_eq_false (by omega)
    have hwh := @wholeFile_line ext dirs ctx _ _ h.terminated hcl hlength
    rw [if_neg hlg]
    -- the line is parsed from a state and an offset that the reference has too
    set advanced : Framing := Framing.advance { framing with line := pending ++ lineContent available }
      (consumedLength available) with hadva
    obtain ⟨state, hps, hsta⟩ := @parse_eq ext ctx call advanced
      (wholeFile ext dirs ctx committed).1 h.state (dirs committed.length)
    have hcom : advanced.committedOffset = committed.length := h.committedOffset
    have hln : advanced.line = pending ++ lineContent available := rfl
    rw [hcom, hln] at hps hsta
    unfold Framing.complete
    rw [if_neg Bool.false_ne_true, hps]
    exact
      { terminated := terminated_concat _
        clean := not_mem_nil
        committedOffset := hoff
        absoluteOffset := hoff
        discarding := hfl
        line := fun _ => rfl
        state := by rw [hwh]; exact hsta
        events := by rw [hwh, eventsOf_concat, ← h.events]; exact (append_assoc ..).symm
        relations := by
          rw [hwh, relationsOf_concat, ← h.relations]
          exact (append_assoc ..).symm }

/-- A buffer without a newline. -/
theorem framed_content {call : ℕ → Directories} {committed pending available : Bytes}
    (h : Framed ext dirs ctx before committed pending framing)
    (hnl : hasNewline available = false) :
    Framed ext dirs ctx before committed (pending ++ available)
      (framing.iterate ext call ctx available) := by
  have hcon := lineContent_of_not_hasNewline hnl
  have hcl : newlineByte ∉ pending ++ available := by
    rw [mem_append, not_or, ← hcon]
    exact ⟨h.clean, newline_notMem_lineContent available⟩
  have hcons : consumedLength available = available.length := by
    rw [consumedLength, hnl, hcon]
    rfl
  have hoff : framing.absoluteOffset + consumedLength available =
      committed.length + (pending ++ available).length := by
    rw [h.absoluteOffset, hcons, length_append, Nat.add_assoc]
  unfold Framing.iterate
  rw [extend_eq h, hcon, hnl, if_neg Bool.false_ne_true]
  by_cases hlg : maxLineBytes < pending.length + available.length
  · rw [if_pos hlg]
    exact
      { h with
        clean := hcl
        absoluteOffset := hoff
        discarding := by
          rw [length_append, decide_eq_true hlg]
          rfl
        line := by
          intro hfl
          cases hfl }
  · have hfl : framing.discardingOversizedLine = false := by
      rw [h.discarding]
      exact decide_eq_false (by omega)
    rw [if_neg hlg]
    exact
      { h with
        clean := hcl
        absoluteOffset := hoff
        discarding := by
          rw [length_append, decide_eq_false hlg]
          exact hfl
        line := fun _ => rfl }

/-- The loop has read all of `bytes` but `left`. -/
def FramedIn (ext : Externals) (directories : ℕ → Directories) (context : ParseContext)
    (before : List ObservationDraft × List SessionRelationDraft) (bytes left : Bytes)
    (framing : Framing) : Prop :=
  ∃ committed pending, bytes = committed ++ pending ++ left ∧
    Framed ext directories context before committed pending framing

theorem FramedIn.iterate {call : ℕ → Directories} {bytes avail rest : Bytes} {framing : Framing}
    (h : FramedIn ext dirs ctx before bytes (avail ++ rest) framing) :
    FramedIn ext dirs ctx before bytes (avail.drop (consumedLength avail) ++ rest)
      (framing.iterate ext call ctx avail) := by
  obtain ⟨committed, pending, rfl, hframed⟩ := h
  cases hnl : hasNewline avail with
  | true =>
    refine ⟨_, [], ?_, framed_newline hframed hnl⟩
    conv_lhs => rw [take_of_hasNewline hnl]
    simp only [append_assoc, cons_append, nil_append]
  | false =>
    refine ⟨_, _, ?_, framed_content hframed hnl⟩
    rw [drop_of_not_hasNewline hnl]
    simp only [append_assoc, nil_append]

/-- What a loop that returns has read. -/
theorem FramedIn.readLoop {call : ℕ → Directories} {interrupts : ℕ → Option ReaderErrorCode}
    {fuel iteration : ℕ} {buffers : List Bytes} {bytes : Bytes} {last : Framing} {reached : Bool}
    (h : FramedIn ext dirs ctx before bytes buffers.flatten framing)
    (hbuff : ∀ buffer ∈ buffers, buffer ≠ []) (hend : input.snapshotEndOffset = bytes.length)
    (hlp : readLoop ext limits call ctx input interrupts fuel iteration buffers framing =
      .ok (last, reached)) :
    ∃ left, FramedIn ext dirs ctx before bytes left last ∧ (reached = true → left = []) := by
  rcases readLoop_rule (fun _ hbef => hbef.iterate) hbuff h hlp with
    ⟨hl, -⟩ | ⟨avail, rest, framed, -, hframed, rfl, -, rfl⟩
  · exact ⟨[], hl, fun _ => rfl⟩
  · refine ⟨_, hframed.iterate, fun hrea => ?_⟩
    obtain ⟨committed, pending, hbs, hnx⟩ := @FramedIn.iterate _ _ _ _ call _ _ _ _ hframed
    have hat := of_decide_eq_true hrea
    have hlength := congrArg List.length hbs
    rw [hend, hnx.absoluteOffset] at hat
    rw [length_append, length_append] at hlength
    exact length_eq_zero_iff.mp (by omega)

end Loop

/-! ### Runs of calls -/

/-- What a checkpoint says about the part of the file before it: `committed` are the lines that were
read, `pending` is the part of an oversized line that was skipped. -/
structure CheckpointAt (ext : Externals) (directories : ℕ → Directories) (context : ParseContext)
    (file : Bytes) (checkpoint : ReaderCheckpoint) (committed pending : Bytes) : Prop where
  take : file.take checkpoint.scanOffset = committed ++ pending
  scan_le : checkpoint.scanOffset ≤ checkpoint.observedFileLength
  observed_le : checkpoint.observedFileLength ≤ file.length
  terminated : Terminated newlineByte committed
  clean : newlineByte ∉ pending
  committedOffset : checkpoint.committedOffset = committed.length
  scanOffset : checkpoint.scanOffset = committed.length + pending.length
  discarding : checkpoint.discardingOversizedLine = decide (maxLineBytes < pending.length)
  skipped : checkpoint.discardingOversizedLine = false → pending = []
  resume : checkpoint.resume = (wholeFile ext directories context committed).1.snapshot
  tail : checkpoint.incompleteTail = true → checkpoint.discardingOversizedLine = false →
    newlineByte ∉ (file.take checkpoint.observedFileLength).drop checkpoint.scanOffset

/-- The caller has the results of the committed part of the file. -/
structure Progress.Sound (ext : Externals) (directories : ℕ → Directories) (context : ParseContext)
    (file : Bytes) (committed : Bytes) (progress : Progress) : Prop where
  ready : progress.Ready ext file.length
  verification : verificationOf progress.checkpoint = context.sourceVerification
  fresh : progress.checkpoint = none → committed = []
  stored : ∀ checkpoint, progress.checkpoint = some checkpoint →
    ∃ pending, CheckpointAt ext directories context file checkpoint committed pending
  events : progress.events = eventsOf (wholeFile ext directories context committed).2
  relations : progress.relations = relationsOf (wholeFile ext directories context committed).2

section Calls

variable {ext : Externals} {dirs : ℕ → Directories} {ctx : ParseContext} {file : Bytes}
  {calls : List Call}

/-- An unchanged file has no further complete line. -/
theorem CheckpointAt.take_unchanged {cp : ReaderCheckpoint} {committed pending : Bytes}
    (h : CheckpointAt ext dirs ctx file cp committed pending) {n : ℕ}
    (hunc : cp.isUnchanged n = true) :
    ∃ rest, file.take n = committed ++ rest ∧ newlineByte ∉ rest := by
  simp only [ReaderCheckpoint.isUnchanged, Bool.and_eq_true, Bool.or_eq_true, decide_eq_true_eq,
    Bool.not_eq_true'] at hunc
  obtain ⟨hlen, ⟨htl, hfl⟩ | hsc⟩ := hunc
  · refine ⟨(file.take n).drop cp.scanOffset, ?_, ?_⟩
    · have htk : (file.take n).take cp.scanOffset = committed := by
        rw [take_take, min_eq_left (hlen ▸ h.scan_le), h.take, h.skipped hfl, append_nil]
      conv_lhs => rw [← take_append_drop cp.scanOffset (file.take n), htk]
    · rw [hlen]
      exact h.tail htl hfl
  · exact ⟨pending, by rw [← hsc, h.take], h.clean⟩

theorem Progress.Sound.whole {progress : Progress} {committed : Bytes}
    (h : progress.Sound ext dirs ctx file committed) {n : ℕ}
    (hexha : progress.exhausted = some n) :
    progress.events = eventsOf (wholeFile ext dirs ctx (file.take n)).2 ∧
      progress.relations = relationsOf (wholeFile ext dirs ctx (file.take n)).2 := by
  obtain ⟨cp, hcp, hunc⟩ := h.ready.exhausted n hexha
  obtain ⟨pending, hat⟩ := h.stored cp hcp
  obtain ⟨rest, htk, hcl⟩ := hat.take_unchanged hunc
  rw [htk, wholeFile_tail hat.terminated hcl]
  exact ⟨h.events, h.relations⟩

theorem sound_start (hf : file.length < 2 ^ 64) {cp : Option ReaderCheckpoint}
    (hst : cp = none ∨ ∃ n, n ≤ file.length ∧ cp = some (initializeSourceCheckpoint n)) :
    (Progress.start cp).Sound ext dirs
      { ctx with sourceVerification := verificationOf cp } file [] where
  ready := by
    have hrm : file.length ≤ 2 * maxOrdinal + 1 := by
      unfold maxOrdinal
      omega
    refine ⟨fun _ => hrm, fun held hhd => ?_, nofun⟩
    rcases hst with rfl | ⟨n, hn, rfl⟩
    · cases hhd
    · cases hhd
      refine ⟨ReaderCheckpoint.new_ok_iff.mpr ⟨⟨_, fromResume_snapshot restorable_new ?_⟩, le_rfl,
        Nat.zero_le _, fun _ => rfl, nofun⟩, hn, ?_⟩
      · exact Nat.zero_le _
      · show 2 * 0 + (file.length - 0) ≤ _
        omega
  verification := rfl
  fresh := fun _ => rfl
  stored := by
    intro held hhd
    rcases hst with rfl | ⟨n, hn, rfl⟩
    · cases hhd
    · cases hhd
      refine ⟨[], ?_⟩
      exact
        { take := rfl
          scan_le := Nat.zero_le _
          observed_le := hn
          terminated := terminated_nil
          clean := not_mem_nil
          committedOffset := rfl
          scanOffset := rfl
          discarding := rfl
          skipped := fun _ => rfl
          resume := rfl
          tail := by
            intro htl
            cases htl }
  events := rfl
  relations := rfl

/-! ### One call -/

section LoopEnd

variable {before : List ObservationDraft × List SessionRelationDraft} {n : ℕ} {last : Framing}
  {reached : Bool} {committed pending left : Bytes}

/-- A loop over a prefix of the file ends in a checkpoint of that prefix. -/
theorem Framed.checkpointAt (h : Framed ext dirs ctx before committed pending last)
    (hspl : file.take n = committed ++ pending ++ left) (hwh : reached = true → left = [])
    (hn : n ≤ file.length) (verification : ObservationVerification) :
    CheckpointAt ext dirs ctx file (checkpointOf (last.result reached) n verification)
      committed (if last.discardingOversizedLine then pending else []) := by
  have hlength : committed.length + pending.length + left.length = n := by
    have hlens := congrArg List.length hspl
    simp only [length_take, length_append] at hlens
    omega
  have htk : ∀ k, k ≤ n → file.take k = (committed ++ pending ++ left).take k := by
    intro k hk
    rw [← hspl, take_take, min_eq_left hk]
  have hresume : last.state.snapshot = (wholeFile ext dirs ctx committed).1.snapshot := by
    show last.state.forget.snapshot = (wholeFile ext dirs ctx committed).1.forget.snapshot
    rw [h.state]
  -- what the checkpoint holds of the pending part
  set held := if last.discardingOversizedLine then pending else [] with hhd
  obtain ⟨rest, hrs⟩ : ∃ rest, pending = held ++ rest := by
    rw [hhd]
    split_ifs
    · exact ⟨[], (append_nil _).symm⟩
    · exact ⟨pending, rfl⟩
  have hno : last.discardingOversizedLine = false → held = [] := by
    intro hfl
    rw [hhd, hfl, if_neg Bool.false_ne_true]
  have hsc : (last.result reached).scanOffset = committed.length + held.length := by
    rw [Framing.result, h.absoluteOffset, h.committedOffset, hhd]
    cases last.discardingOversizedLine <;> rfl
  have hpd := congrArg List.length hrs
  rw [length_append] at hpd
  exact
    { take := by
        show file.take (last.result reached).scanOffset = committed ++ held
        rw [htk _ (by omega), hsc, hrs, ← length_append, ← append_assoc, append_assoc, take_left]
      scan_le := by
        show (last.result reached).scanOffset ≤ n
        omega
      observed_le := hn
      terminated := h.terminated
      clean := by
        intro hmem
        exact h.clean (hrs ▸ mem_append_left rest hmem)
      committedOffset := h.committedOffset
      scanOffset := hsc
      discarding := by
        rw [hhd]
        cases hfl : last.discardingOversizedLine with
        | true => exact hfl.trans (h.discarding ▸ hfl).symm
        | false => exact hfl
      skipped := hno
      resume := hresume
      tail := by
        intro htl hfl
        replace hfl : last.discardingOversizedLine = false := hfl
        have hrea : reached = true := by
          have htl' : (last.discardingOversizedLine || (reached && !last.line.isEmpty)) = true :=
            htl
          rw [hfl, Bool.false_or, Bool.and_eq_true] at htl'
          exact htl'.1
        show newlineByte ∉ (file.take n).drop (last.result reached).scanOffset
        rw [hspl, hsc, hno hfl, append_assoc, length_nil, Nat.add_zero,
          drop_left, hwh hrea, append_nil]
        exact h.clean }

end LoopEnd

/-- The batch of a call. -/
structure BatchAt (ext : Externals) (directories : ℕ → Directories) (context : ParseContext)
    (file : Bytes) (before : List ObservationDraft × List SessionRelationDraft) (batch : ReadBatch)
    (committed pending : Bytes) : Prop where
  checkpoint : CheckpointAt ext directories context file batch.checkpoint committed pending
  verification : batch.checkpoint.verification = context.sourceVerification
  events : before.1 ++ batch.events = eventsOf (wholeFile ext directories context committed).2
  relations : before.2 ++ batch.relations =
    relationsOf (wholeFile ext directories context committed).2

/-- The input of a call's loop starts where the last checkpoint ends. -/
structure InputAt (ext : Externals) (directories : ℕ → Directories) (context : ParseContext)
    (file : Bytes) (before : List ObservationDraft × List SessionRelationDraft) (call : Call)
    (input : FramingInput) (committed pending : Bytes) : Prop where
  framed : Framed ext directories context before committed pending input.framing
  take : file.take input.startOffset = committed ++ pending
  start_le : input.startOffset ≤ call.fileLength
  snapshotEnd : input.snapshotEndOffset = call.fileLength

/-- The loop of a call reads the rest of the file as it was opened. -/
theorem InputAt.readBatch_at {call : Call}
    {before : List ObservationDraft × List SessionRelationDraft} {committed pending : Bytes}
    (hin : InputAt ext dirs ctx file before call input committed pending)
    (hlen : call.fileLength ≤ file.length) {framed : FramingResult}
    (hrd : readLines ext limits call.directories ctx input call.interrupts
      (call.chunking.split ((file.take call.fileLength).drop input.startOffset)) = .ok framed) :
    ∃ committed' pending', BatchAt ext dirs ctx file before
      ⟨checkpointOf framed call.fileLength ctx.sourceVerification, framed.events,
        framed.relations, framed.bytesRead, framed.reachedSnapshotEnd⟩ committed' pending' := by
  obtain ⟨⟨last, reached⟩, hlp, hres⟩ := bind_eq_ok.mp hrd
  cases hres
  have hbs : file.take call.fileLength = committed ++ pending ++
      (call.chunking.split ((file.take call.fileLength).drop input.startOffset)).flatten := by
    rw [call.chunking.flatten_split, ← hin.take]
    conv_lhs => rw [← take_append_drop input.startOffset (file.take call.fileLength)]
    rw [take_take, min_eq_left hin.start_le]
  obtain ⟨left, ⟨committed', pending', hspl, hframed⟩, hwh⟩ :=
    FramedIn.readLoop ⟨committed, pending, hbs, hin.framed⟩ (call.chunking.nonempty _)
      (by rw [hin.snapshotEnd, length_take, min_eq_left hlen]) hlp
  exact ⟨committed', _, hframed.checkpointAt hspl hwh hlen _, rfl, hframed.events,
    hframed.relations⟩

section Progress

variable {progress : Progress} {committed : Bytes}
  (h : progress.Sound ext dirs ctx file committed)

include h

/-- A call that reads starts where the last checkpoint ends. -/
theorem CallInput.inputAt {call : Call}
    (hin : CallInput ext call.fileLength progress.checkpoint input)
    (hobs : progress.observed ≤ call.fileLength) :
    ∃ pending, InputAt ext dirs ctx file (progress.events, progress.relations) call input
      committed pending := by
  have hevs := (append_nil _).trans h.events
  have hrel := (append_nil _).trans h.relations
  cases hcp : progress.checkpoint with
  | none =>
    rw [hcp] at hin
    cases hin
    obtain rfl := h.fresh hcp
    refine ⟨[], ⟨?_, rfl, Nat.zero_le _, rfl⟩⟩
    exact
      { terminated := terminated_nil
        clean := not_mem_nil
        committedOffset := rfl
        absoluteOffset := rfl
        discarding := rfl
        line := fun _ => rfl
        state := rfl
        events := hevs
        relations := hrel }
  | some cp =>
    obtain ⟨pending, hat⟩ := h.stored cp hcp
    rw [hcp] at hin
    rw [Progress.observed, hcp] at hobs
    obtain ⟨state, hsta, rfl⟩ := hin
    rw [hat.resume] at hsta
    refine ⟨pending, ⟨?_, hat.take, hat.scan_le.trans hobs, rfl⟩⟩
    exact
      { terminated := hat.terminated
        clean := hat.clean
        committedOffset := hat.committedOffset
        absoluteOffset := hat.scanOffset
        discarding := hat.discarding
        line := fun hfl => (hat.skipped hfl).symm
        state := by
          show state.forget = _
          rw [(fromResume_ok hsta).2.2]
          rfl
        events := hevs
        relations := hrel }

/-- A call keeps the results in step with the file. -/
theorem Progress.Sound.call (limits : BatchLimits) {call : Call}
    (hobs : progress.observed ≤ call.fileLength) (hlen : call.fileLength ≤ file.length) :
    ∃ committed', (progress.call ext limits ctx file call).Sound ext dirs ctx file
      committed' := by
  have hrdy := (@Progress.Ready.after_call ext _ limits ctx _ _ _ h.ready hlen le_rfl hobs).1
  cases hopn : call.opening with
  | some code =>
    refine ⟨committed, ?_⟩
    unfold Progress.call at hrdy ⊢
    simp only [readSourceBatch, hopn] at hrdy ⊢
    exact { h with ready := hrdy }
  | none =>
    obtain ⟨hcl, -⟩ | ⟨input, hin, hcl⟩ :=
      @readSourceBatch_cases ext _ limits ctx file _ _ h.ready hopn hobs
    · refine ⟨committed, ?_⟩
      unfold Progress.call at hrdy ⊢
      rw [hcl] at hrdy ⊢
      exact { h with ready := hrdy }
    obtain ⟨pending, hat⟩ := CallInput.inputAt h hin hobs
    obtain ⟨hv, -, hend⟩ := hin.valid h.ready hobs hlen
    unfold Progress.call at hrdy ⊢
    rw [hcl] at hrdy ⊢
    rw [h.verification] at hrdy ⊢
    cases hrd : readBatch ext limits ctx file call ctx.sourceVerification input with
    | error code =>
      rw [hrd] at hrdy
      exact ⟨committed, { h with ready := hrdy }⟩
    | ok out =>
      rw [hrd] at hrdy
      obtain ⟨framed, hls, -, rfl⟩ := hv.readBatch_ok hend hlen hrd
      obtain ⟨committed', pending', hbatch⟩ := hat.readBatch_at hlen hls
      refine ⟨committed', ⟨hrdy, hbatch.verification, ?_, ?_, hbatch.events, hbatch.relations⟩⟩
      · rintro ⟨⟩
      rintro cp ⟨⟩
      exact ⟨pending', hbatch.checkpoint⟩

/-- The results are those of a prefix of the file that ends with a line. -/
theorem Progress.Sound.prefix_of :
    Terminated newlineByte committed ∧ List.IsPrefix committed file := by
  cases hcp : progress.checkpoint with
  | none =>
    rw [h.fresh hcp]
    exact ⟨terminated_nil, List.nil_prefix⟩
  | some cp =>
    obtain ⟨pending, hat⟩ := h.stored cp hcp
    refine ⟨hat.terminated, (prefix_append committed pending).trans ?_⟩
    rw [← hat.take]
    exact List.take_prefix _ _

end Progress

/-! ### Runs -/

/-- The file is observed at growing lengths. -/
def Growing (file : Bytes) : ℕ → List Call → Prop
  | _, [] => True
  | observed, call :: calls =>
    observed ≤ call.fileLength ∧ call.fileLength ≤ file.length ∧ Growing file call.fileLength calls

theorem growing_const {n seen : ℕ} (hn : n ≤ file.length) (hobs : seen ≤ n)
    (hcls : ∀ call ∈ calls, call.fileLength = n) :
    Growing file seen calls := by
  induction calls generalizing seen with
  | nil => exact trivial
  | cons call calls ih =>
    obtain ⟨rfl, hcls⟩ := forall_mem_cons.mp hcls
    exact ⟨hobs, hn, ih (Nat.le_refl _) hcls⟩

theorem Progress.Sound.run (limits : BatchLimits) {progress : Progress} {committed : Bytes}
    (h : progress.Sound ext dirs ctx file committed) {seen : ℕ}
    (hobs : progress.observed ≤ seen) (hgrow : Growing file seen calls) :
    ∃ committed', (progress.run ext limits ctx file calls).Sound ext dirs ctx file
      committed' := by
  induction calls generalizing progress committed seen with
  | nil => exact ⟨committed, h⟩
  | cons call calls ih =>
    obtain ⟨hcl, hlen, hgrow⟩ := hgrow
    obtain ⟨committed', hnx⟩ := h.call limits (hobs.trans hcl) hlen
    exact ih hnx (h.ready.after_call hlen le_rfl (hobs.trans hcl)).2.1 hgrow

end Calls

/-- **Incremental reading is whole-file reading.**  At every point of a run of calls the events and
relations are those of the complete lines up to a line end; when a call has read the file as it was
observed to its end they are those of the whole prefix; and calls that are not interrupted get
there. -/
theorem incremental_reading (ext : Externals) (limits : BatchLimits) (context : ParseContext)
    (directories : ℕ → Directories) (file : Bytes) (hfile : file.length < 2 ^ 64)
    (start : Option ReaderCheckpoint)
    (hstart : start = none ∨ ∃ n, n ≤ file.length ∧ start = some (initializeSourceCheckpoint n))
    (calls : List Call) (hgrowing : Growing file (Progress.start start).observed calls) :
    let whole := wholeFile ext directories
      { context with sourceVerification := verificationOf start }
    let progress := (Progress.start start).run ext limits context file calls
    (∃ committed, Terminated newlineByte committed ∧ List.IsPrefix committed file ∧
      progress.events = eventsOf (whole committed).2 ∧
      progress.relations = relationsOf (whole committed).2) ∧
    (∀ n, progress.exhausted = some n →
      progress.events = eventsOf (whole (file.take n)).2 ∧
      progress.relations = relationsOf (whole (file.take n)).2) ∧
    ∀ n more, progress.observed ≤ n → n ≤ file.length →
      (∀ call ∈ more, call.fileLength = n ∧ call.Uninterrupted) → n < more.length →
      let last := progress.run ext limits context file more
      last.exhausted = some n ∧ last.events = eventsOf (whole (file.take n)).2 ∧
        last.relations = relationsOf (whole (file.take n)).2 := by
  intro whole progress
  obtain ⟨committed, hsd⟩ := Progress.Sound.run limits
    (@sound_start ext directories context file hfile start hstart) (Nat.le_refl _) hgrowing
  have hwh : ∀ {progress : Progress} {committed : Bytes} {n : ℕ}, progress.Sound ext directories
      { context with sourceVerification := verificationOf start } file committed →
      progress.exhausted = some n → progress.events = eventsOf (whole (file.take n)).2 ∧
        progress.relations = relationsOf (whole (file.take n)).2 :=
    fun h hexha => h.whole hexha
  obtain ⟨hterm, hfr⟩ := hsd.prefix_of
  refine ⟨⟨committed, hterm, hfr, hsd.events, hsd.relations⟩, fun n => hwh hsd, ?_⟩
  intro n more hobs hn hmo henough last
  have hl : last.exhausted = some n := hsd.ready.run_exhausts le_rfl hn hmo hobs
    (.inr (Nat.lt_of_lt_of_le henough (Nat.le_add_left _ _)))
  obtain ⟨_, hsd'⟩ := hsd.run limits hobs
    (growing_const hn (Nat.le_refl n) fun call hcl => (hmo call hcl).1)
  exact ⟨hl, hwh hsd' hl⟩

/-- Two usage lines, observed in the middle of the second one and at the end. -/
theorem incremental_reading_example :
    let file : Bytes := [92, 10, 92, 13, 10]
    let whole := wholeFile sampleExternals (fun _ _ => none)
      { sampleContext with sourceVerification := verificationOf none }
    let progress := (Progress.start none).run sampleExternals .codex sampleContext file
      [bytewiseCall 3, bytewiseCall 5]
    (eventsOf (whole file).2).length = 2 ∧
    (∃ committed, Terminated newlineByte committed ∧ List.IsPrefix committed file ∧
      progress.events = eventsOf (whole committed).2 ∧
      progress.relations = relationsOf (whole committed).2) ∧
    (∀ n, progress.exhausted = some n →
      progress.events = eventsOf (whole (file.take n)).2 ∧
      progress.relations = relationsOf (whole (file.take n)).2) ∧
    ∀ n more, progress.observed ≤ n → n ≤ file.length →
      (∀ call ∈ more, call.fileLength = n ∧ call.Uninterrupted) → n < more.length →
      let last := progress.run sampleExternals .codex sampleContext file more
      last.exhausted = some n ∧ last.events = eventsOf (whole (file.take n)).2 ∧
        last.relations = relationsOf (whole (file.take n)).2 :=
  ⟨by decide +kernel, incremental_reading sampleExternals .codex sampleContext (fun _ _ => none)
    [92, 10, 92, 13, 10] (by decide) none (.inl rfl) [bytewiseCall 3, bytewiseCall 5]
    ⟨by decide, by decide, by decide, by decide, trivial⟩⟩

end TokenMaster.Codex
