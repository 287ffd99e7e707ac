import TokenMaster.Codex.Resume

/-!
# TokenMaster.Codex.Reader — batches of complete lines from a growing file

`crates/codex/src/reader/framing.rs` with the checkpoint and the call around it (`checkpoint.rs`,
`mod.rs`).  A read is a list of buffers as `fill_buf` returns them.  Offsets are at most the length of
a file, so they do not overflow.  The file is one that only grows: the checks that it is still the
same file (identity, modification time, hashes of what was read) pass, and what may fail in a call is
a parameter of the call.
-/

namespace TokenMaster.Codex

open Domain

inductive ReaderErrorCode where
  | invalidDescriptor
  | nonRegular
  | reparsePoint
  | openFailed
  | readFailed
  | seekFailed
  | sourceChanged
  | checkpointInvalid
  | anchorMismatch
  | resumeInvalid
  | cancelled
  | capacityExceeded
  deriving DecidableEq

/-- The limits of a batch. -/
structure BatchLimits where
  readBufferBytes : ℕ
  maxBatchEvents : ℕ
  maxBatchCompleteBytes : ℕ

/-- `READ_BUFFER_BYTES`, `MAX_BATCH_EVENTS` and `MAX_BATCH_COMPLETE_BYTES`. -/
def BatchLimits.codex : BatchLimits := ⟨128 * 1024, 256, 2 ^ 20⟩

/-- The byte `\n`. -/
def newlineByte : UInt8 := 10

/-- The byte `\r`. -/
def carriageReturn : UInt8 := 13

/-- The line without one carriage return at its end. -/
def stripCarriageReturn (line : Bytes) : Bytes :=
  if line.getLast? = some carriageReturn then line.dropLast else line

/-! ### The loop -/

/-- The variables of the loop of `read_lines`. -/
structure Framing where
  state : ParserState
  events : List ObservationDraft
  relations : List SessionRelationDraft
  line : Bytes
  discardingOversizedLine : Bool
  absoluteOffset : ℕ
  committedOffset : ℕ
  bytesRead : ℕ
  completeBytes : ℕ
  currentLineBatchBytes : ℕ

/-- What of a buffer belongs to the current line. -/
def lineContent (available : Bytes) : Bytes := available.takeWhile (· != newlineByte)

/-- Whether the buffer has a newline. -/
def hasNewline (available : Bytes) : Bool := decide ((lineContent available).length < available.length)

/-- How much of a buffer an iteration takes. -/
def consumedLength (available : Bytes) : ℕ :=
  (lineContent available).length + if hasNewline available then 1 else 0

/-- The buffers after `consume`. -/
def consumeBuffer (available : Bytes) (rest : List Bytes) : List Bytes :=
  match available.drop (consumedLength available) with
  | [] => rest
  | left => left :: rest

namespace Framing

/-- The content goes to the line, unless the line is oversized.  The flag says that an oversized line
is complete. -/
def extend (framing : Framing) (content : Bytes) (newline : Bool) : Framing × Bool :=
  if framing.discardingOversizedLine then (framing, newline)
  else if framing.line.length + content.length > maxLineBytes then
    ({ framing with discardingOversizedLine := true, line := [] }, newline)
  else ({ framing with line := framing.line ++ content }, false)

def advance (framing : Framing) (consumed : ℕ) : Framing :=
  { framing with
    absoluteOffset := framing.absoluteOffset + consumed
    bytesRead := framing.bytesRead + consumed
    currentLineBatchBytes := framing.currentLineBatchBytes + consumed }

/-- The current line is parsed unless it is empty. -/
def parse (ext : Externals) (directories : ℕ → Directories) (context : ParseContext)
    (framing : Framing) : Framing :=
  let parseBytes := stripCarriageReturn framing.line
  if parseBytes.isEmpty then framing
  else
    let parsed := parseLine ext (directories framing.committedOffset) context framing.state
      framing.committedOffset parseBytes
    match parsed.2 with
    | .emitted event =>
      { framing with state := parsed.1, events := framing.events ++ [event] }
    | .sessionRelation relation =>
      { framing with state := parsed.1, relations := framing.relations ++ [relation] }
    | _ => { framing with state := parsed.1 }

/-- The end of a line. -/
def complete (ext : Externals) (directories : ℕ → Directories) (context : ParseContext)
    (framing : Framing) (oversized : Bool) : Framing :=
  let parsed :=
    if oversized then { framing with discardingOversizedLine := false }
    else framing.parse ext directories context
  { parsed with
    committedOffset := parsed.absoluteOffset
    completeBytes := parsed.completeBytes + parsed.currentLineBatchBytes
    currentLineBatchBytes := 0
    line := [] }

/-- An iteration on a buffer. -/
def iterate (ext : Externals) (directories : ℕ → Directories) (context : ParseContext)
    (framing : Framing) (available : Bytes) : Framing :=
  let extended := framing.extend (lineContent available) (hasNewline available)
  let advanced := extended.1.advance (consumedLength available)
  if hasNewline available then advanced.complete ext directories context extended.2 else advanced

/-- Whether the batch ends after an iteration. -/
def stops (limits : BatchLimits) (discardReadLimit : ℕ) (newline : Bool) (framing : Framing) : Bool :=
  if newline then
    decide (framing.events.length + framing.relations.length ≥ limits.maxBatchEvents) ||
      decide (framing.completeBytes ≥ limits.maxBatchCompleteBytes)
  else framing.discardingOversizedLine && decide (framing.bytesRead ≥ discardReadLimit)

end Framing

structure FramingInput where
  startOffset : ℕ
  committedOffset : ℕ
  state : ParserState
  snapshotEndOffset : ℕ
  discardingOversizedLine : Bool

def FramingInput.framing (input : FramingInput) : Framing where
  state := input.state
  events := []
  relations := []
  line := []
  discardingOversizedLine := input.discardingOversizedLine
  absoluteOffset := input.startOffset
  committedOffset := input.committedOffset
  bytesRead := 0
  completeBytes := 0
  currentLineBatchBytes := 0

def discardReadLimit (limits : BatchLimits) (input : FramingInput) : ℕ :=
  if input.discardingOversizedLine then limits.maxBatchCompleteBytes
  else maxLineBytes + limits.readBufferBytes

/-- The loop, with the flag `reached_snapshot_end`.  `interrupts` says which iteration is cancelled
or fails to read. -/
def readLoop (ext : Externals) (limits : BatchLimits) (directories : ℕ → Directories)
    (context : ParseContext) (input : FramingInput) (interrupts : ℕ → Option ReaderErrorCode) :
    ℕ → ℕ → List Bytes → Framing → Except ReaderErrorCode (Framing × Bool)
  | 0, _, _, _ => .error .readFailed
  | fuel + 1, iteration, buffers, framing =>
    match interrupts iteration with
    | some code => .error code
    | none =>
      match buffers with
      | [] => .ok (framing, true)
      | available :: rest =>
        let next := framing.iterate ext directories context available
        if next.stops limits (discardReadLimit limits input) (hasNewline available) then
          .ok (next, decide (next.absoluteOffset ≥ input.snapshotEndOffset))
        else
          readLoop ext limits directories context input interrupts fuel (iteration + 1)
            (consumeBuffer available rest) next

structure FramingResult where
  state : ParserState
  events : List ObservationDraft
  relations : List SessionRelationDraft
  committedOffset : ℕ
  scanOffset : ℕ
  bytesRead : ℕ
  reachedSnapshotEnd : Bool
  incompleteTail : Bool
  discardingOversizedLine : Bool

def Framing.result (framing : Framing) (reachedSnapshotEnd : Bool) : FramingResult where
  state := framing.state
  events := framing.events
  relations := framing.relations
  committedOffset := framing.committedOffset
  scanOffset :=
    if framing.discardingOversizedLine then framing.absoluteOffset else framing.committedOffset
  bytesRead := framing.bytesRead
  reachedSnapshotEnd := reachedSnapshotEnd
  incompleteTail := framing.discardingOversizedLine || (reachedSnapshotEnd && !framing.line.isEmpty)
  discardingOversizedLine := framing.discardingOversizedLine

/-- Every iteration takes a byte, so the loop ends within the bytes of the buffers. -/
def readLines (ext : Externals) (limits : BatchLimits) (directories : ℕ → Directories)
    (context : ParseContext) (input : FramingInput) (interrupts : ℕ → Option ReaderErrorCode)
    (buffers : List Bytes) : Except ReaderErrorCode FramingResult := do
  let (framing, reachedSnapshotEnd) ← readLoop ext limits directories context input interrupts
    (buffers.flatten.length + 1) 0 buffers input.framing
  return framing.result reachedSnapshotEnd

/-! ### Checkpoints and calls -/

/-- The fields of `ReaderCheckpointV1` that a reader of a growing file uses. -/
structure ReaderCheckpoint where
  committedOffset : ℕ
  scanOffset : ℕ
  observedFileLength : ℕ
  resume : ParserResumeState
  discardingOversizedLine : Bool
  incompleteTail : Bool
  verification : ObservationVerification

/-- `ReaderCheckpointV1::new`: the checks of the resume state, the offsets and the flags. -/
def ReaderCheckpoint.new (ext : Externals) (parts : ReaderCheckpoint) :
    Except ReaderErrorCode ReaderCheckpoint :=
  match ParserState.fromResume ext parts.resume with
  | .error _ => .error .checkpointInvalid
  | .ok _ =>
    if parts.scanOffset < parts.committedOffset ∨ parts.scanOffset > parts.observedFileLength ∨
        (parts.discardingOversizedLine = false ∧ parts.scanOffset ≠ parts.committedOffset) then
      .error .checkpointInvalid
    else if parts.discardingOversizedLine = true ∧
        (parts.incompleteTail = false ∨ parts.scanOffset = parts.committedOffset) then
      .error .checkpointInvalid
    else .ok parts

/-- `initialize_source_checkpoint`. -/
def initializeSourceCheckpoint (fileLength : ℕ) : ReaderCheckpoint where
  committedOffset := 0
  scanOffset := 0
  observedFileLength := fileLength
  resume := ParserState.new.snapshot
  discardingOversizedLine := false
  incompleteTail := false
  verification := .fullPrefix

structure ReadBatch where
  checkpoint : ReaderCheckpoint
  events : List ObservationDraft
  relations : List SessionRelationDraft
  bytesRead : ℕ
  reachedSnapshotEnd : Bool

inductive ReaderOutcome where
  | unchanged
  | batch (batch : ReadBatch)
  /-- The file is shorter than when it was observed. -/
  | truncated

/-- How a read is split into buffers. -/
structure Chunking where
  split : Bytes → List Bytes
  flatten_split : ∀ bytes, (split bytes).flatten = bytes
  nonempty : ∀ bytes, ∀ buffer ∈ split bytes, buffer ≠ []

/-- A call of the reader: the length of the file when it is opened, how the reads are split, what the
file system answers, and what fails before, in and after the loop. -/
structure Call where
  fileLength : ℕ
  chunking : Chunking
  directories : ℕ → Directories
  opening : Option ReaderErrorCode
  interrupts : ℕ → Option ReaderErrorCode
  closing : Option ReaderErrorCode

/-- Nothing fails in the call. -/
def Call.Uninterrupted (call : Call) : Prop :=
  call.opening = none ∧ (∀ iteration, call.interrupts iteration = none) ∧ call.closing = none

def ReaderCheckpoint.isUnchanged (checkpoint : ReaderCheckpoint) (fileLength : ℕ) : Bool :=
  decide (fileLength = checkpoint.observedFileLength) &&
    ((checkpoint.incompleteTail && !checkpoint.discardingOversizedLine) ||
      decide (checkpoint.scanOffset = fileLength))

/-- The verification level of a call. -/
def verificationOf : Option ReaderCheckpoint → ObservationVerification
  | none => .incremental
  | some checkpoint => checkpoint.verification

/-- The read of a call, its new checkpoint and the batch. -/
def readBatch (ext : Externals) (limits : BatchLimits) (context : ParseContext) (file : Bytes)
    (call : Call) (verification : ObservationVerification) (input : FramingInput) :
    Except ReaderErrorCode ReaderOutcome := do
  let framed ← readLines ext limits call.directories
    { context with sourceVerification := verification } input call.interrupts
    (call.chunking.split ((file.take call.fileLength).drop input.startOffset))
  match call.closing with
  | some code => .error code
  | none =>
    let checkpoint ← ReaderCheckpoint.new ext
      { committedOffset := framed.committedOffset
        scanOffset := framed.scanOffset
        observedFileLength := call.fileLength
        resume := framed.state.snapshot
        discardingOversizedLine := framed.discardingOversizedLine
        incompleteTail := framed.incompleteTail
        verification := verification }
    return .batch
      { checkpoint := checkpoint
        events := framed.events
        relations := framed.relations
        bytesRead := framed.bytesRead
        reachedSnapshotEnd := framed.reachedSnapshotEnd }

def readSourceBatch (ext : Externals) (limits : BatchLimits) (context : ParseContext) (file : Bytes)
    (checkpoint : Option ReaderCheckpoint) (call : Call) : Except ReaderErrorCode ReaderOutcome :=
  match call.opening with
  | some code => .error code
  | none =>
    match checkpoint with
    | none => readBatch ext limits context file call .incremental
        { startOffset := 0
          committedOffset := 0
          state := .new
          snapshotEndOffset := call.fileLength
          discardingOversizedLine := false }
    | some checkpoint =>
      if call.fileLength < checkpoint.observedFileLength then .ok .truncated
      else if checkpoint.isUnchanged call.fileLength then .ok .unchanged
      else match ParserState.fromResume ext checkpoint.resume with
        | .error _ => .error .resumeInvalid
        | .ok state => readBatch ext limits context file call checkpoint.verification
            { startOffset := checkpoint.scanOffset
              committedOffset := checkpoint.committedOffset
              state := state
              snapshotEndOffset := call.fileLength
              discardingOversizedLine := checkpoint.discardingOversizedLine }

end TokenMaster.Codex
