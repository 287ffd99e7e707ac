import TokenMaster.Store.CurrentReplay

/-!
# TokenMaster.Runtime.ApplySink — the apply pass of an incremental refresh

`ApplySink` of `crates/runtime/src/incremental.rs` with the parts of `store_archive.rs` that it
calls.  A visit of one source is the sequence of reads its reader makes: batches with `More`, then
one read that ends the visit.  Final batches are prepared with the cursor of that moment and
queued; everything else that writes flushes the queue first.

The operation control is taken to let the pass run on: a cancelled pass returns the control's error
at its next check and commits nothing more.
-/

namespace TokenMaster.Runtime

open Store

/-- `MAX_REPLAY_CONTINUATIONS_PER_RUN`. -/
def maxReplayContinuationsPerRun : ℕ := 4096

inductive PortErrorCode where
  | busy
  | cancelled
  | deadlineExceeded
  | invalidData
  | capacityExceeded
  | staleState
  | rebuildRequired
  | unavailable
  | failed

/-- `store_port_error_code`, on the codes that the modelled commands return. -/
def storePortErrorCode : StoreErrorCode → PortErrorCode
  | .capacityExceeded => .capacityExceeded
  | .rebuildRequired => .rebuildRequired
  | .staleCheckpoint | .staleRevision | .pendingContinuation => .staleState
  | .database => .unavailable
  | .invalidValue | .invalidStoredValue | .accountingVersionMismatch | .incompleteManifest
  | .unsealedRevision | .archiveModeMismatch => .invalidData

/-- Why a pass failed: a command met another cursor than it carried, or anything else. -/
inductive PassError where
  | cursor (fault : CursorFault)
  | port (code : PortErrorCode)

/-- The code that the caller sees. -/
def PassError.code : PassError → PortErrorCode
  | .cursor fault => storePortErrorCode (CommitError.cursor fault).code
  | .port code => code

def CommitError.toPass : CommitError → PassError
  | .cursor fault => .cursor fault
  | .store error => .port (storePortErrorCode error.code)

def liftCommit {α : Type} (x : Except CommitError α) : Except PassError α :=
  x.mapError CommitError.toPass

/-- `StoreArchive`: the store, and the batches that a rebuild has queued on the archive itself. -/
structure StoreArchive (σ ε ρ π : Type) where
  store : Archive σ ε ρ π
  pendingCurrentBatches : List (CurrentReplayAppendBatch ε ρ π)

structure RefreshCounts where
  bytesRead : ℕ
  eventsObserved : ℕ
  batchesCommitted : ℕ
  diagnostics : ℕ

def RefreshCounts.zero : RefreshCounts := ⟨0, 0, 0, 0⟩

structure BatchCounters where
  bytesRead : ℕ
  eventsObserved : ℕ
  diagnostics : ℕ

/-- `checked_add` on `u64` and `usize`. -/
def checkedAdd (left right : ℕ) : Except PassError ℕ :=
  if left + right < 2 ^ 64 then .ok (left + right) else .error (.port .capacityExceeded)

/-- The counters of one read batch. -/
def RefreshCounts.add (counts : RefreshCounts) (read : BatchCounters) :
    Except PassError RefreshCounts := do
  let bytesRead ← checkedAdd counts.bytesRead read.bytesRead
  let eventsObserved ← checkedAdd counts.eventsObserved read.eventsObserved
  let diagnostics ← checkedAdd counts.diagnostics read.diagnostics
  let batchesCommitted ← checkedAdd counts.batchesCommitted 1
  return ⟨bytesRead, eventsObserved, batchesCommitted, diagnostics⟩

structure ApplySink (σ ε ρ π : Type) where
  archive : StoreArchive σ ε ρ π
  cursor : CurrentCursor
  counts : RefreshCounts
  pending : List (CurrentReplayAppendBatch ε ρ π)
  pendingEvents : ℕ
  pendingRelations : ℕ

section Archive

variable {σ ε ρ π : Type} (T : ReplayTables σ ε ρ π)

/-- The cursor after a commit: the caller's revision with the committed epoch and generation. -/
def CurrentCursor.advanced (cursor : CurrentCursor) (commit : CurrentReplayCommit) :
    CurrentCursor :=
  ⟨cursor.revisionId, commit.cursor.epoch, commit.cursor.archiveGeneration⟩

/-- `current_progress`. -/
def currentProgress (archive : StoreArchive σ ε ρ π) (key : Bytes32) :
    Except PassError SourceRow :=
  match findSource archive.store.sources key with
  | some source => .ok source
  | none => .error (.port .staleState)

/-- The expectation of a batch: the source's stored checkpoint, or that of the last batch queued
on the archive for it. -/
def expectedPosition (archive : StoreArchive σ ε ρ π) (source : SourceRow) : ℕ × ℕ × ℕ :=
  match archive.pendingCurrentBatches.reverse.find? fun b => b.batch.sourceKey == source.sourceKey with
  | some queued => (queued.expectedGeneration, queued.batch.nextCheckpoint.committedOffset,
      queued.batch.nextCheckpoint.scanOffset)
  | none => (source.generation, source.checkpoint.committedOffset, source.checkpoint.scanOffset)

/-- `prepare_current_batch`: the batch takes the cursor it is given. -/
def prepareCurrentBatch (archive : StoreArchive σ ε ρ π) (cursor : CurrentCursor)
    (batch : CanonicalBatch ε ρ π) : Except PassError (CurrentReplayAppendBatch ε ρ π) := do
  let source ← currentProgress archive batch.sourceKey
  let position := expectedPosition archive source
  let command : CurrentReplayAppendBatch ε ρ π :=
    ⟨cursor, position.1, position.2.1, position.2.2, batch⟩
  liftCommit (liftStore (T.validate command))
  return command

/-- `settle_current`: up to `fuel` pages of queued work; whether the archive is complete. -/
def settleCurrent : ℕ → StoreArchive σ ε ρ π → CurrentCursor →
    Except PassError (StoreArchive σ ε ρ π × CurrentCursor × Bool)
  | 0, _, _ => .error (.port .capacityExceeded)
  | fuel + 1, archive, cursor =>
    if archive.store.quality = .complete then .ok (archive, cursor, true)
    else if archive.store.quality ≠ .partial_ then .error (.port .staleState)
    else do
      let (store, commit) ← liftCommit (continueCurrentReplay T archive.store cursor)
      if commit.quality = .complete then
        return ({ archive with store := store }, CurrentCursor.advanced cursor commit, true)
      else if commit.remainingWork = false then
        return ({ archive with store := store }, CurrentCursor.advanced cursor commit, false)
      else settleCurrent fuel { archive with store := store } (CurrentCursor.advanced cursor commit)

namespace ApplySink

/-- After a commit: the new cursor, and a settle when work is left. -/
def committed (sink : ApplySink σ ε ρ π) (result : Archive σ ε ρ π × CurrentReplayCommit) :
    Except PassError (ApplySink σ ε ρ π) :=
  let next := { sink with
    archive := { sink.archive with store := result.1 }
    cursor := CurrentCursor.advanced sink.cursor result.2 }
  if result.2.remainingWork then do
    let settled ← settleCurrent T maxReplayContinuationsPerRun next.archive next.cursor
    return { next with archive := settled.1, cursor := settled.2.1 }
  else .ok next

/-- The queue is emptied when its batches have been applied. -/
def cleared (sink : ApplySink σ ε ρ π) : ApplySink σ ε ρ π :=
  { sink with pending := [], pendingEvents := 0, pendingRelations := 0 }

def flushPending (sink : ApplySink σ ε ρ π) : Except PassError (ApplySink σ ε ρ π) :=
  if sink.pending.isEmpty then .ok sink
  else do
    let result ← liftCommit (applyCurrentReplayAppendBatches T sink.archive.store sink.pending)
    sink.cleared.committed T result

/-- Whether a queued final batch would overflow the queue. -/
def overflows (sink : ApplySink σ ε ρ π) (b : CurrentReplayAppendBatch ε ρ π) : Bool :=
  sink.pending.length == maxAppendEvents ||
    decide (sink.pendingEvents + b.batch.events.length > maxAppendEvents) ||
    decide (sink.pendingRelations + b.batch.relations.length > maxAppendRelations)

/-- The end of `queue_final_batch`. -/
def push (sink : ApplySink σ ε ρ π) (b : CurrentReplayAppendBatch ε ρ π) :
    Except PassError (ApplySink σ ε ρ π) := do
  let events ← checkedAdd sink.pendingEvents b.batch.events.length
  let relations ← checkedAdd sink.pendingRelations b.batch.relations.length
  return { sink with
    pending := sink.pending ++ [b], pendingEvents := events, pendingRelations := relations }

def queueFinalBatch (sink : ApplySink σ ε ρ π) (b : CurrentReplayAppendBatch ε ρ π) :
    Except PassError (ApplySink σ ε ρ π) := do
  let _ ← checkedAdd sink.pendingEvents b.batch.events.length
  let _ ← checkedAdd sink.pendingRelations b.batch.relations.length
  if sink.overflows b then do
    -- the batch keeps the cursor that it was prepared with
    let flushed ← sink.flushPending T
    flushed.push b
  else sink.push b

end ApplySink

end Archive

/-! ### Visits -/

/-- One batch as the reader returned it. -/
structure ReadBatch (ε ρ π : Type) where
  batch : CanonicalBatch ε ρ π
  counters : BatchCounters

/-- How the visit of a source ends. -/
inductive SourceEnd (ε ρ π : Type) where
  /-- A batch with `SnapshotEnd`. -/
  | snapshotEnd (read : ReadBatch ε ρ π)
  /-- An unchanged source, or one whose resume payload is repaired. -/
  | closed (repaired : Option StoredCheckpoint)
  /-- The reader, or the canonical form of its batch, reports an error. -/
  | failed (code : PortErrorCode)

structure SourceVisit (ε ρ π : Type) where
  sourceKey : Bytes32
  more : List (ReadBatch ε ρ π)
  last : SourceEnd ε ρ π
  more_key : ∀ r ∈ more, r.batch.sourceKey = sourceKey
  last_key : ∀ r, last = .snapshotEnd r → r.batch.sourceKey = sourceKey

inductive SinkControl where
  | continue_
  | stop
  deriving DecidableEq

inductive CompletionQuality where
  | complete
  | partial_
  | cancelled
  | failed
  | timedOut
  deriving DecidableEq

/-- What the adapter does for one scope: the sources it visits and what it reports then. -/
structure ScopeVisit (ε ρ π : Type) where
  visits : List (SourceVisit ε ρ π)
  completion : Except PortErrorCode CompletionQuality

section Visits

variable {σ ε ρ π : Type} (T : ReplayTables σ ε ρ π)

namespace ApplySink

/-- A batch with `More`: the queue first, then this batch under the cursor of that moment. -/
def onMore (sink : ApplySink σ ε ρ π) (read : ReadBatch ε ρ π) :
    Except PassError (ApplySink σ ε ρ π) := do
  let _ ← currentProgress sink.archive read.batch.sourceKey
  let counts ← sink.counts.add read.counters
  let flushed ← ({ sink with counts := counts } : ApplySink σ ε ρ π).flushPending T
  let command ← prepareCurrentBatch T flushed.archive flushed.cursor read.batch
  let result ← liftCommit (applyCurrentReplayAppendBatches T flushed.archive.store [command])
  let next ← flushed.committed T result
  if read.batch.nextCheckpoint.isCaughtUp then .error (.port .invalidData) else .ok next

def onMores (sink : ApplySink σ ε ρ π) :
    List (ReadBatch ε ρ π) → Except PassError (ApplySink σ ε ρ π)
  | [] => .ok sink
  | read :: reads => do
    let next ← sink.onMore T read
    next.onMores reads

/-- A batch with `SnapshotEnd`. -/
def onSnapshotEnd (sink : ApplySink σ ε ρ π) (read : ReadBatch ε ρ π) :
    Except PassError (ApplySink σ ε ρ π × SinkControl) := do
  let _ ← currentProgress sink.archive read.batch.sourceKey
  let counts ← sink.counts.add read.counters
  let counted := { sink with counts := counts }
  let prepared ← prepareCurrentBatch T counted.archive counted.cursor read.batch
  if read.batch.nextCheckpoint.isCaughtUp then do
    let queued ← counted.queueFinalBatch T prepared
    return (queued, .continue_)
  else return (counted, .stop)

/-- `complete_current_source` and `repair_current_source_resume`. -/
def onClosed (sink : ApplySink σ ε ρ π) (key : Bytes32) (repaired : Option StoredCheckpoint) :
    Except PassError (ApplySink σ ε ρ π) := do
  let _ ← currentProgress sink.archive key
  let flushed ← sink.flushPending T
  let source ← currentProgress flushed.archive key
  let result ← liftCommit (completeCurrentReplaySource T flushed.archive.store
    ⟨flushed.cursor, key, source.generation⟩ source.checkpoint repaired)
  flushed.committed T result

/-- `ApplySink::on_source`. -/
def onSource (sink : ApplySink σ ε ρ π) (visit : SourceVisit ε ρ π) :
    Except PassError (ApplySink σ ε ρ π × SinkControl) := do
  let sink ← sink.onMores T visit.more
  match visit.last with
  | .snapshotEnd read => sink.onSnapshotEnd T read
  | .closed repaired => do
    let next ← sink.onClosed T visit.sourceKey repaired
    return (next, .continue_)
  | .failed code => .error (.port code)

/-- The adapter visits its sources until the sink stops it. -/
def onSources (sink : ApplySink σ ε ρ π) :
    List (SourceVisit ε ρ π) → Except PassError (ApplySink σ ε ρ π)
  | [] => .ok sink
  | visit :: visits => do
    let next ← sink.onSource T visit
    if next.2 = .stop then .ok next.1 else onSources next.1 visits

end ApplySink

/-- One scope of the apply pass: the visits, and the flush at its end. -/
def applyScope (archive : StoreArchive σ ε ρ π) (cursor : CurrentCursor) (counts : RefreshCounts)
    (scope : ScopeVisit ε ρ π) : Except PassError (ApplySink σ ε ρ π × CompletionQuality) := do
  let sink ← ApplySink.onSources T ⟨archive, cursor, counts, [], 0, 0⟩ scope.visits
  let quality ← scope.completion.mapError .port
  let flushed ← sink.flushPending T
  return (flushed, quality)

inductive IncrementalRefreshOutcome where
  | complete
  | partial_

/-- The end of a pass. -/
def settleOutcome (archive : StoreArchive σ ε ρ π) (cursor : CurrentCursor) :
    Except PassError (StoreArchive σ ε ρ π × IncrementalRefreshOutcome) := do
  let settled ← settleCurrent T maxReplayContinuationsPerRun archive cursor
  return (settled.1, if settled.2.2 then .complete else .partial_)

/-- The second loop of `run_tail_passes`. -/
def applyScopes (archive : StoreArchive σ ε ρ π) (cursor : CurrentCursor) (counts : RefreshCounts) :
    List (ScopeVisit ε ρ π) → Except PassError (StoreArchive σ ε ρ π × IncrementalRefreshOutcome)
  | [] => settleOutcome T archive cursor
  | scope :: scopes => do
    let applied ← applyScope T archive cursor counts scope
    if applied.2 = .complete then
      applyScopes applied.1.archive applied.1.cursor applied.1.counts scopes
    else return (applied.1.archive, .partial_)

/-- The apply pass of `refresh_incremental`, from the archive's own cursor. -/
def refreshIncrementalApply (archive : StoreArchive σ ε ρ π) (scopes : List (ScopeVisit ε ρ π)) :
    Except PassError (StoreArchive σ ε ρ π × IncrementalRefreshOutcome) :=
  applyScopes T archive archive.store.cursor .zero scopes

inductive TargetedRefreshOutcome where
  | applied (outcome : IncrementalRefreshOutcome)
  | reconcileRequired

/-- The apply pass of `refresh_targeted`: one visit of the changed sources. -/
def refreshTargetedApply (archive : StoreArchive σ ε ρ π) (changed : ScopeVisit ε ρ π) :
    Except PassError (StoreArchive σ ε ρ π × TargetedRefreshOutcome) := do
  let applied ← applyScope T archive archive.store.cursor .zero changed
  if applied.2 = .complete then do
    let settled ← settleOutcome T applied.1.archive applied.1.cursor
    return (settled.1, .applied settled.2)
  else return (applied.1.archive, .reconcileRequired)

end Visits

end TokenMaster.Runtime
