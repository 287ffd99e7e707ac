import TokenMaster.Lib.Bytes
import TokenMaster.Store.Error

/-!
# TokenMaster.Store.CurrentReplay — commits to the current replay revision

The commands of `crates/store/src/usage/replay.rs` that an incremental pass uses:
`apply_current_replay_append_batches`, `complete_current_replay_source`,
`repair_current_replay_source` and `continue_current_replay`.  Every command names the revision,
the evidence epoch and the archive generation that it expects, and every command that changes
something moves the epoch and the generation on.

What a command does to the observation, session, selection and work tables is a parameter,
`ReplayTables`: no command reads the epoch or the generation out of them.  The history of committed
batches is kept beside the archive for the statements about it.
-/

namespace TokenMaster.Store

def maxAppendEvents : ℕ := 256
def maxAppendRelations : ℕ := 256

/-- `CurrentCursor`: what a command expects of the archive. -/
structure CurrentCursor where
  revisionId : ℕ
  epoch : ℕ
  archiveGeneration : ℕ
  deriving DecidableEq

inductive ArchivePublicationQuality where
  | empty
  | partial_
  | complete
  | recoveryPending
  deriving DecidableEq

inductive StoredVerification where
  | incremental
  | fullPrefix
  deriving DecidableEq

structure StoredCheckpoint where
  parserSchemaVersion : ℕ
  physicalIdentity : Option Bytes32
  logicalIdentity : Bytes32
  committedOffset : ℕ
  scanOffset : ℕ
  observedFileLength : ℕ
  modifiedTimeNs : Option ℤ
  anchorStart : ℕ
  anchorLen : ℕ
  anchorSha256 : Bytes32
  resume : Bytes
  discardingOversizedLine : Bool
  incompleteTail : Bool
  verification : StoredVerification
  deriving DecidableEq

/-- `checkpoint_is_caught_up`. -/
def StoredCheckpoint.isCaughtUp (c : StoredCheckpoint) : Bool :=
  !c.incompleteTail && !c.discardingOversizedLine && c.committedOffset == c.scanOffset &&
    c.scanOffset == c.observedFileLength

/-- `checkpoint_matches_except_resume`. -/
def StoredCheckpoint.matchesExceptResume (expected repaired : StoredCheckpoint) : Bool :=
  { expected with resume := repaired.resume } == repaired

inductive ReplaySourceState where
  | pending
  | complete
  deriving DecidableEq

/-- A source with the checkpoint of its current generation; `replay` is its row in the revision's
manifest, if it has one. -/
structure SourceRow where
  sourceKey : Bytes32
  generation : ℕ
  checkpoint : StoredCheckpoint
  replay : Option ReplaySourceState

/-- A batch of one source, already canonical.  The two bounds are those of `CanonicalBatch::new`. -/
structure CanonicalBatch (ε ρ π : Type) where
  sourceKey : Bytes32
  events : List ε
  relations : List ρ
  chunkProofs : π
  nextCheckpoint : StoredCheckpoint
  events_le : events.length ≤ maxAppendEvents
  relations_le : relations.length ≤ maxAppendRelations

/-- `CurrentReplayAppendBatch`: a batch with the cursor and the checkpoint it was prepared for. -/
structure CurrentReplayAppendBatch (ε ρ π : Type) where
  cursor : CurrentCursor
  expectedGeneration : ℕ
  expectedCommittedOffset : ℕ
  expectedScanOffset : ℕ
  batch : CanonicalBatch ε ρ π

/-- The tables behind the cursor: the checks of the batch constructors, the ingestion of a batch's
proofs, events and relations, and the work queue. -/
structure ReplayTables (σ ε ρ π : Type) where
  validate : CurrentReplayAppendBatch ε ρ π → Except StoreError Unit
  ingest : σ → SourceRow → CurrentReplayAppendBatch ε ρ π → Except StoreError σ
  workExists : σ → Bool
  /-- One page of queued work with the number of processed rows; `none` when no row is
  actionable. -/
  continueWork : σ → List SourceRow → Except StoreError (Option (σ × ℕ))

structure Archive (σ ε ρ π : Type) where
  cursor : CurrentCursor
  quality : ArchivePublicationQuality
  /-- The revision's accounting versions are the compiled ones. -/
  versionsCompiled : Bool
  sources : List SourceRow
  tables : σ
  /-- History: every batch whose transaction committed, in that order. -/
  committed : List (CanonicalBatch ε ρ π)

structure CurrentReplayCommit where
  processedCount : ℕ
  remainingWork : Bool
  cursor : CurrentCursor
  quality : ArchivePublicationQuality

/-- A command whose cursor is not the archive's, or whose batches do not agree on one. -/
inductive CursorFault where
  | mixed
  | outdatedRevision
  | outdatedEpoch
  | outdatedGeneration

inductive CommitError where
  | cursor (fault : CursorFault)
  | store (error : StoreError)

/-- The store's own code for an error. -/
def CommitError.code : CommitError → StoreErrorCode
  | .cursor .mixed => .invalidValue
  | .cursor .outdatedRevision | .cursor .outdatedEpoch | .cursor .outdatedGeneration =>
    .staleRevision
  | .store error => error.code

section Commands

variable {σ ε ρ π : Type} (T : ReplayTables σ ε ρ π)

/-- Run a store computation inside a command. -/
def liftStore {α : Type} (x : Except StoreError α) : Except CommitError α :=
  x.mapError .store

def require (holds : Bool) (error : StoreError) : Except CommitError Unit :=
  if holds then .ok () else .error (.store error)

/-- The expected cursor against the stored revision and publication. -/
def checkCursor (archive : Archive σ ε ρ π) (versionError : StoreErrorCode)
    (expected : CurrentCursor) : Except CommitError Unit :=
  if expected.revisionId ≠ archive.cursor.revisionId then .error (.cursor .outdatedRevision)
  else if archive.versionsCompiled = false then .error (.store (.new versionError))
  else if expected.epoch ≠ archive.cursor.epoch then .error (.cursor .outdatedEpoch)
  else if expected.archiveGeneration ≠ archive.cursor.archiveGeneration then
    .error (.cursor .outdatedGeneration)
  else .ok ()

/-- `next_replay_epoch` and the next archive generation. -/
def nextCursor (cursor : CurrentCursor) : Except CommitError CurrentCursor := do
  liftStore (checkI64 .invalidValue (cursor.epoch + 1))
  liftStore (checkI64 .invalidValue (cursor.archiveGeneration + 1))
  return ⟨cursor.revisionId, cursor.epoch + 1, cursor.archiveGeneration + 1⟩

def findSource (sources : List SourceRow) (key : Bytes32) : Option SourceRow :=
  sources.find? fun s => s.sourceKey == key

/-- `load_current_replay_source`: the source's row in the revision's manifest. -/
def loadCurrentReplaySource (sources : List SourceRow) (key : Bytes32) :
    Except StoreError SourceRow :=
  match findSource sources key with
  | some source => if source.replay.isSome then .ok source else .error (.new .staleRevision)
  | none => .error (.new .staleRevision)

/-- `ReplaySource::matches_current`, with the checkpoint whose identities are compared. -/
def SourceRow.matchesCurrent (source : SourceRow) (generation committed scan : ℕ)
    (checkpoint : StoredCheckpoint) : Except StoreError Unit :=
  if source.generation ≠ generation ∨ source.checkpoint.committedOffset ≠ committed ∨
      source.checkpoint.scanOffset ≠ scan then .error (.new .staleCheckpoint)
  else if source.checkpoint.logicalIdentity ≠ checkpoint.logicalIdentity ∨
      source.checkpoint.physicalIdentity ≠ checkpoint.physicalIdentity then
    .error (.new .rebuildRequired)
  else .ok ()

def setSource (sources : List SourceRow) (row : SourceRow) : List SourceRow :=
  sources.map fun s => if s.sourceKey = row.sourceKey then row else s

def pendingSources (sources : List SourceRow) : Bool :=
  sources.any fun s => s.replay == some .pending

/-- `quality` after a command. -/
def publishedQuality (remainingWork : Bool) (sources : List SourceRow) :
    ArchivePublicationQuality :=
  if remainingWork || pendingSources sources then .partial_ else .complete

/-! ### Append batches -/

def totalEvents (batches : List (CurrentReplayAppendBatch ε ρ π)) : ℕ :=
  (batches.map fun b => b.batch.events.length).sum

def totalRelations (batches : List (CurrentReplayAppendBatch ε ρ π)) : ℕ :=
  (batches.map fun b => b.batch.relations.length).sum

/-- A partial archive takes batches of manifest sources only. -/
def checkAppendQuality (archive : Archive σ ε ρ π)
    (batches : List (CurrentReplayAppendBatch ε ρ π)) : Except CommitError Unit :=
  match archive.quality with
  | .complete => .ok ()
  | .partial_ =>
    require (batches.all fun b => archive.sources.any fun s =>
      s.sourceKey == b.batch.sourceKey && s.replay.isSome) (.new .pendingContinuation)
  | .empty | .recoveryPending => .error (.store (.new .archiveModeMismatch))

/-- The body of the batch loop. -/
def appendBatch (archive : Archive σ ε ρ π) (b : CurrentReplayAppendBatch ε ρ π) :
    Except StoreError (Archive σ ε ρ π) := do
  let source ← loadCurrentReplaySource archive.sources b.batch.sourceKey
  source.matchesCurrent b.expectedGeneration b.expectedCommittedOffset b.expectedScanOffset
    b.batch.nextCheckpoint
  let tables ← T.ingest archive.tables source b
  let state := if b.batch.nextCheckpoint.isCaughtUp then ReplaySourceState.complete else .pending
  return { archive with
    tables := tables
    sources := setSource archive.sources
      { source with checkpoint := b.batch.nextCheckpoint, replay := some state }
    committed := archive.committed ++ [b.batch] }

def appendBatches (archive : Archive σ ε ρ π) :
    List (CurrentReplayAppendBatch ε ρ π) → Except CommitError (Archive σ ε ρ π)
  | [] => .ok archive
  | b :: batches => do
    let archive ← liftStore (appendBatch T archive b)
    appendBatches archive batches

def applyCurrentReplayAppendBatches (archive : Archive σ ε ρ π)
    (batches : List (CurrentReplayAppendBatch ε ρ π)) :
    Except CommitError (Archive σ ε ρ π × CurrentReplayCommit) :=
  match batches with
  | [] => .error (.store (.withLimit .capacityExceeded maxAppendEvents))
  | first :: _ => do
    require (decide (batches.length ≤ maxAppendEvents))
      (.withLimit .capacityExceeded maxAppendEvents)
    require (decide (totalEvents batches ≤ maxAppendEvents) &&
      decide (totalRelations batches ≤ maxAppendRelations)) (.new .capacityExceeded)
    if batches.any fun b => b.cursor != first.cursor then .error (.cursor .mixed)
    else do
      checkCursor archive .accountingVersionMismatch first.cursor
      checkAppendQuality archive batches
      let cursor ← nextCursor first.cursor
      let appended ← appendBatches T archive batches
      let remainingWork := T.workExists appended.tables
      let quality := publishedQuality remainingWork appended.sources
      return ({ appended with cursor := cursor, quality := quality },
        ⟨totalEvents batches, remainingWork, cursor, quality⟩)

/-! ### Closing a source without a batch -/

/-- `CurrentReplaySourceExpectation`. -/
structure SourceExpectation where
  cursor : CurrentCursor
  sourceKey : Bytes32
  generation : ℕ

/-- `complete_current_replay_source_inner`: a source proven to be at its end; `repaired` replaces
its resume payload. -/
def completeCurrentReplaySource (archive : Archive σ ε ρ π) (expected : SourceExpectation)
    (checkpoint : StoredCheckpoint) (repaired : Option StoredCheckpoint) :
    Except CommitError (Archive σ ε ρ π × CurrentReplayCommit) := do
  require checkpoint.isCaughtUp (.new .invalidValue)
  require (repaired.all fun r => r.isCaughtUp && checkpoint.matchesExceptResume r)
    (.new .invalidValue)
  checkCursor archive .staleRevision expected.cursor
  require (archive.quality == .partial_ || archive.quality == .complete)
    (.new .archiveModeMismatch)
  let source ← liftStore (loadCurrentReplaySource archive.sources expected.sourceKey)
  liftStore (source.matchesCurrent expected.generation checkpoint.committedOffset
    checkpoint.scanOffset checkpoint)
  if source.replay = some .complete ∧ repaired = none then
    -- nothing to record: the commit carries the expected cursor back
    return (archive, ⟨0, T.workExists archive.tables, expected.cursor, archive.quality⟩)
  else do
    require (source.replay == some .complete || archive.quality == .partial_)
      (.new .invalidStoredValue)
    let cursor ← nextCursor expected.cursor
    let sources := setSource archive.sources
      { source with checkpoint := repaired.getD source.checkpoint, replay := some .complete }
    let remainingWork := T.workExists archive.tables
    let quality := publishedQuality remainingWork sources
    return ({ archive with cursor := cursor, quality := quality, sources := sources },
      ⟨0, remainingWork, cursor, quality⟩)

/-! ### Queued work -/

def continueCurrentReplay (archive : Archive σ ε ρ π) (expected : CurrentCursor) :
    Except CommitError (Archive σ ε ρ π × CurrentReplayCommit) := do
  checkCursor archive .accountingVersionMismatch expected
  require (archive.quality == .partial_) (.new .archiveModeMismatch)
  let work ← liftStore (T.continueWork archive.tables archive.sources)
  if work.isNone ∧ pendingSources archive.sources = true then
    return (archive, ⟨0, false, expected, .partial_⟩)
  else do
    let cursor ← nextCursor expected
    let (tables, processed) := work.getD (archive.tables, 0)
    let remainingWork := T.workExists tables
    let quality := publishedQuality remainingWork archive.sources
    return ({ archive with cursor := cursor, quality := quality, tables := tables },
      ⟨processed, remainingWork, cursor, quality⟩)

end Commands

end TokenMaster.Store
