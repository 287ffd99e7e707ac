import TokenMaster.Lib.Except
import TokenMaster.Runtime.ApplySink

/-!
# TokenMaster.Runtime.ApplyPass — which cursors the queued batches carry

A command fails with a cursor fault when it does not carry the archive's cursor.  `InStep` says
that the sink's cursor and the cursors of all queued batches are the archive's; every step of the
pass keeps it except one: a final batch that overflows the queue is pushed behind the flush that it
causes, still with the cursor from before.  As long as no final batch overflows, no command of the
pass has a cursor fault, and the batches are committed in the order in which they were read.
-/

namespace TokenMaster.Runtime

open Store TokenMaster.Except List

section Commands

variable {σ ε ρ π : Type} {T : ReplayTables σ ε ρ π} {expected : CurrentCursor}

/-- A command that met another cursor than it carried. -/
def CommitError.IsCursor : CommitError → Prop
  | .cursor _ => True
  | .store _ => False

/-- A pass that failed on a cursor. -/
def PassError.IsCursor : PassError → Prop
  | .cursor _ => True
  | .port _ => False

variable {α : Type} {post : α → Prop}

theorem liftStore_safe (x : Except StoreError α) :
    ∀ e, liftStore x = .error e → ¬ CommitError.IsCursor e := by
  intro e he
  cases x with
  | ok a => cases he
  | error e' =>
    cases he
    exact id

theorem liftStore_avoids {x : Except StoreError α} (h : ∀ a, x = .ok a → post a) :
    Except.Avoids CommitError.IsCursor (liftStore x) post := by
  cases x with
  | ok a => exact .ok (h a rfl)
  | error e => exact .error id

theorem require_safe (holds : Bool) (error : StoreError) :
    ∀ e, Store.require holds error = .error e → ¬ CommitError.IsCursor e := by
  intro e he
  unfold Store.require at he
  split_ifs at he
  cases he
  exact id

theorem liftCommit_avoids {x : Except CommitError α} (h : Except.Avoids CommitError.IsCursor x post)
    :
    Except.Avoids PassError.IsCursor (liftCommit x) post := by
  cases x with
  | ok a => exact .ok (h.2 a rfl)
  | error e =>
    have hno := h.1 e rfl
    cases e with
    | cursor fault => exact absurd trivial hno
    | store error => exact .error id

variable {archive : Archive σ ε ρ π}

theorem checkCursor_safe {versionError : StoreErrorCode} (h : expected = archive.cursor) :
    ∀ e, checkCursor archive versionError expected = .error e → ¬ CommitError.IsCursor e := by
  intro e he
  subst h
  unfold checkCursor at he
  rw [if_neg (not_not.mpr rfl)] at he
  split_ifs at he with h1 h2 h3
  · cases he
    exact id
  · exact absurd rfl h2
  · exact absurd rfl h3

/-- The next cursor belongs to the same revision, one epoch on. -/
theorem nextCursor_avoids (cursor : CurrentCursor) :
    Except.Avoids CommitError.IsCursor (nextCursor cursor)
      fun next => next.revisionId = cursor.revisionId ∧ next.epoch = cursor.epoch + 1 := by
  refine .bind_of_safe (liftStore_safe _) fun _ => ?_
  refine .bind_of_safe (liftStore_safe _) fun _ => ?_
  exact .ok ⟨rfl, rfl⟩

/-- What a commit leaves behind: the returned cursor is the archive's, in the same revision and not
before its epoch, and `added` was committed. -/
structure Commits (archive : Archive σ ε ρ π) (added : List (CanonicalBatch ε ρ π))
    (result : Archive σ ε ρ π × CurrentReplayCommit) : Prop where
  cursor : result.2.cursor = result.1.cursor
  revision : result.1.cursor.revisionId = archive.cursor.revisionId
  epoch_le : archive.cursor.epoch ≤ result.1.cursor.epoch
  committed : result.1.committed = archive.committed ++ added

theorem appendBatch_ok {next : Archive σ ε ρ π} {b : CurrentReplayAppendBatch ε ρ π}
    (h : appendBatch T archive b = .ok next) : next.committed = archive.committed ++ [b.batch] := by
  obtain ⟨_, _, h⟩ := bind_eq_ok.mp h
  obtain ⟨_, _, h⟩ := bind_eq_ok.mp h
  obtain ⟨_, _, h⟩ := bind_eq_ok.mp h
  cases h
  rfl

theorem appendBatches_avoids (archive : Archive σ ε ρ π)
    (batches : List (CurrentReplayAppendBatch ε ρ π)) :
    Except.Avoids CommitError.IsCursor (appendBatches T archive batches)
      fun next => next.committed = archive.committed ++ batches.map (·.batch) := by
  induction batches generalizing archive with
  | nil => exact .ok (append_nil _).symm
  | cons b batches ih =>
    refine .bind (liftStore_avoids fun next => appendBatch_ok) fun next hnx => ?_
    refine (ih next).mono fun last hl => ?_
    rw [hl, hnx, map_cons, append_assoc]
    rfl

/-- Batches that carry the archive's cursor are not refused for it. -/
theorem applyCurrentReplayAppendBatches_avoids {batches : List (CurrentReplayAppendBatch ε ρ π)}
    (h : ∀ b ∈ batches, b.cursor = archive.cursor) :
    Except.Avoids CommitError.IsCursor (applyCurrentReplayAppendBatches T archive batches)
      fun res => Commits archive (batches.map (·.batch)) res ∧
        archive.cursor.epoch < res.1.cursor.epoch := by
  cases batches with
  | nil => exact .error id
  | cons first rest =>
    have hf := h first (mem_cons_self ..)
    have hsm : ((first :: rest).any fun b => b.cursor != first.cursor) = false := by
      rw [any_eq_false]
      intro b hb
      rw [h b hb, hf]
      simp
    refine .bind_of_safe (require_safe _ _) fun _ => ?_
    refine .bind_of_safe (require_safe _ _) fun _ => ?_
    rw [hsm]
    refine .bind_of_safe (checkCursor_safe hf) fun _ => ?_
    refine .bind_of_safe ?_ fun _ => ?_
    · intro e he
      unfold checkAppendQuality at he
      split at he
      · cases he
      · exact require_safe _ _ e he
      · cases he
        exact id
      · cases he
        exact id
    refine .bind (nextCursor_avoids _) fun cursor hcu => ?_
    refine .bind (appendBatches_avoids archive (first :: rest)) fun appended happe => ?_
    rw [hf] at hcu
    have hlt : archive.cursor.epoch < cursor.epoch := by omega
    exact .ok ⟨⟨rfl, hcu.1, hlt.le, happe⟩, hlt⟩

theorem completeCurrentReplaySource_avoids {expected : SourceExpectation}
    (h : expected.cursor = archive.cursor) (cp : StoredCheckpoint)
    (repaired : Option StoredCheckpoint) :
    Except.Avoids CommitError.IsCursor
      (completeCurrentReplaySource T archive expected cp repaired) (Commits archive []) := by
  refine .bind_of_safe (require_safe _ _) fun _ => ?_
  refine .bind_of_safe (require_safe _ _) fun _ => ?_
  refine .bind_of_safe (checkCursor_safe h) fun _ => ?_
  refine .bind_of_safe (require_safe _ _) fun _ => ?_
  refine .bind_of_safe (liftStore_safe _) fun src => ?_
  refine .bind_of_safe (liftStore_safe _) fun _ => ?_
  split_ifs
  · exact .ok ⟨h, rfl, le_rfl, (append_nil _).symm⟩
  · refine .bind_of_safe (require_safe _ _) fun _ => ?_
    refine .bind (nextCursor_avoids _) fun cursor hcu => ?_
    rw [h] at hcu
    exact .ok ⟨rfl, hcu.1, by show archive.cursor.epoch ≤ cursor.epoch; omega, (append_nil _).symm⟩

theorem continueCurrentReplay_avoids (h : expected = archive.cursor) :
    Except.Avoids CommitError.IsCursor (continueCurrentReplay T archive expected)
      (Commits archive []) := by
  refine .bind_of_safe (checkCursor_safe h) fun _ => ?_
  refine .bind_of_safe (require_safe _ _) fun _ => ?_
  refine .bind_of_safe (liftStore_safe _) fun work => ?_
  split_ifs
  · exact .ok ⟨h, rfl, le_rfl, (append_nil _).symm⟩
  · refine .bind (nextCursor_avoids _) fun cursor hcu => ?_
    rw [h] at hcu
    exact .ok ⟨rfl, hcu.1, by show archive.cursor.epoch ≤ cursor.epoch; omega, (append_nil _).symm⟩

/-- Two commands of one call that carry different cursors, or one that does not carry the
archive's, are refused. -/
theorem applyCurrentReplayAppendBatches_refused {first : CurrentReplayAppendBatch ε ρ π}
    {rest : List (CurrentReplayAppendBatch ε ρ π)} (h : first.cursor.epoch ≠ archive.cursor.epoch) :
    ∀ result, applyCurrentReplayAppendBatches T archive (first :: rest) ≠ .ok result := by
  intro result hok
  obtain ⟨_, _, hok⟩ := bind_eq_ok.mp hok
  obtain ⟨_, _, hok⟩ := bind_eq_ok.mp hok
  split_ifs at hok
  obtain ⟨_, hck, _⟩ := bind_eq_ok.mp hok
  unfold checkCursor at hck
  split_ifs at hck

end Commands

/-! ### The sink -/

section Sink

variable {σ ε ρ π : Type} {T : ReplayTables σ ε ρ π}

namespace ApplySink

/-- The sink and its queue carry the archive's cursor; the totals are those of the queue. -/
structure InStep (sink : ApplySink σ ε ρ π) : Prop where
  cursor : sink.cursor = sink.archive.store.cursor
  pending : ∀ b ∈ sink.pending, b.cursor = sink.cursor
  events : sink.pendingEvents = totalEvents sink.pending
  relations : sink.pendingRelations = totalRelations sink.pending

/-- What has been committed and what is queued behind it. -/
def log (sink : ApplySink σ ε ρ π) : List (CanonicalBatch ε ρ π) :=
  sink.archive.store.committed ++ sink.pending.map (·.batch)

/-- A sink with an empty queue that continues another one. -/
structure Drained (sink next : ApplySink σ ε ρ π) : Prop where
  inStep : next.InStep
  pending : next.pending = []
  log : next.log = sink.log

end ApplySink

theorem settleCurrent_avoids (fuel : ℕ) {archive : StoreArchive σ ε ρ π} {cursor : CurrentCursor}
    (h : cursor = archive.store.cursor) :
    Except.Avoids PassError.IsCursor (settleCurrent T fuel archive cursor) fun settled =>
      settled.2.1 = settled.1.store.cursor ∧
        archive.store.cursor.epoch ≤ settled.1.store.cursor.epoch ∧
        settled.1.store.committed = archive.store.committed := by
  induction fuel generalizing archive cursor with
  | zero => exact .error id
  | succ fuel ih =>
    unfold settleCurrent
    split_ifs
    · exact .ok ⟨h, le_rfl, rfl⟩
    · exact .error id
    · refine .bind (liftCommit_avoids (continueCurrentReplay_avoids h)) fun res hres => ?_
      have hcu : CurrentCursor.advanced cursor res.2 = res.1.cursor := by
        unfold CurrentCursor.advanced
        rw [hres.cursor, h, ← hres.revision]
      have hcom : res.1.committed = archive.store.committed := by
        rw [hres.committed, append_nil]
      dsimp only
      split_ifs
      · exact .ok ⟨hcu, hres.epoch_le, hcom⟩
      · exact .ok ⟨hcu, hres.epoch_le, hcom⟩
      · refine (ih hcu).mono fun settled hsett => ?_
        exact ⟨hsett.1, hres.epoch_le.trans hsett.2.1, hsett.2.2.trans hcom⟩

namespace ApplySink

/-- A commit from an empty queue, with the settle that may follow. -/
theorem committed_avoids {sink : ApplySink σ ε ρ π} (hsk : sink.InStep)
    (hpd : sink.pending = []) {added : List (CanonicalBatch ε ρ π)}
    {res : Archive σ ε ρ π × CurrentReplayCommit}
    (hres : Commits sink.archive.store added res) :
    Except.Avoids PassError.IsCursor (sink.committed T res) fun next =>
      next.InStep ∧ next.pending = [] ∧ next.log = sink.log ++ added ∧
        res.1.cursor.epoch ≤ next.archive.store.cursor.epoch := by
  have hcu : CurrentCursor.advanced sink.cursor res.2 = res.1.cursor := by
    unfold CurrentCursor.advanced
    rw [hres.cursor, hsk.cursor, ← hres.revision]
  have hevs := hsk.events
  have hrel := hsk.relations
  have hno : ∀ {cursor : CurrentCursor}, ∀ b ∈ sink.pending, b.cursor = cursor := by
    intro cursor b hb
    rw [hpd] at hb
    exact absurd hb (not_mem_nil)
  have hlog : ∀ committed, committed = sink.archive.store.committed ++ added →
      committed ++ sink.pending.map (·.batch) = sink.log ++ added := by
    intro committed h
    rw [h, log, hpd, map_nil, append_nil, append_nil]
  unfold ApplySink.committed
  split_ifs
  · refine .bind (settleCurrent_avoids _ hcu) fun settled hsett => ?_
    refine .ok ⟨⟨hsett.1, hno, hevs, hrel⟩, hpd, ?_, hsett.2.1⟩
    exact hlog _ (hsett.2.2.trans hres.committed)
  · exact .ok ⟨⟨hcu, hno, hevs, hrel⟩, hpd, hlog _ hres.committed, le_rfl⟩

/-- **A flush of a queue in step.** -/
theorem flushPending_avoids {sink : ApplySink σ ε ρ π} (hsk : sink.InStep) :
    Except.Avoids PassError.IsCursor (sink.flushPending T) fun next =>
      sink.Drained next ∧
        (sink.pending ≠ [] → sink.archive.store.cursor.epoch < next.archive.store.cursor.epoch) := by
  unfold flushPending
  by_cases hemp : sink.pending.isEmpty = true
  · rw [if_pos hemp]
    have hnil := isEmpty_iff.mp hemp
    exact .ok ⟨⟨hsk, hnil, rfl⟩, fun h => absurd hnil h⟩
  · rw [if_neg hemp]
    have hcarr : ∀ b ∈ sink.pending, b.cursor = sink.archive.store.cursor := by
      intro b hb
      rw [hsk.pending b hb, hsk.cursor]
    refine .bind (liftCommit_avoids (applyCurrentReplayAppendBatches_avoids hcarr))
      fun res hres => ?_
    have hclr : sink.cleared.InStep :=
      ⟨hsk.cursor, fun b hb => absurd hb (not_mem_nil), rfl, rfl⟩
    refine (committed_avoids hclr rfl hres.1).mono fun next hnx => ?_
    refine ⟨⟨hnx.1, hnx.2.1, ?_⟩, fun _ => hres.2.trans_le hnx.2.2.2⟩
    rw [hnx.2.2.1]
    simp [log, cleared]

end ApplySink

end Sink

/-! ### What a pass queues -/

section Load

variable {σ ε ρ π : Type}

/-- The queue between two flushes: how many final batches, with how many events and relations. -/
structure QueueLoad where
  batches : ℕ
  events : ℕ
  relations : ℕ

namespace QueueLoad

def zero : QueueLoad := ⟨0, 0, 0⟩

def add (load : QueueLoad) (b : CanonicalBatch ε ρ π) : QueueLoad :=
  ⟨load.batches + 1, load.events + b.events.length, load.relations + b.relations.length⟩

/-- There is room for one more final batch. -/
def hasRoom (load : QueueLoad) (b : CanonicalBatch ε ρ π) : Bool :=
  load.batches != maxAppendEvents &&
    decide (load.events + b.events.length ≤ maxAppendEvents) &&
    decide (load.relations + b.relations.length ≤ maxAppendRelations)

end QueueLoad

def ApplySink.load (sink : ApplySink σ ε ρ π) : QueueLoad :=
  ⟨sink.pending.length, sink.pendingEvents, sink.pendingRelations⟩

namespace SourceVisit

/-- The visit ends on a batch that does not catch up: the sink stops the adapter. -/
def stops (visit : SourceVisit ε ρ π) : Bool :=
  match visit.last with
  | .snapshotEnd read => !read.batch.nextCheckpoint.isCaughtUp
  | .closed _ | .failed _ => false

/-- The final batch of the visit, if it has one. -/
def final? (visit : SourceVisit ε ρ π) : Option (CanonicalBatch ε ρ π) :=
  match visit.last with
  | .snapshotEnd read => if read.batch.nextCheckpoint.isCaughtUp then some read.batch else none
  | .closed _ | .failed _ => none

/-- The batches of the visit in reading order. -/
def batches (visit : SourceVisit ε ρ π) : List (CanonicalBatch ε ρ π) :=
  visit.more.map (·.batch) ++ visit.final?.toList

/-- A batch with `More` flushes the queue. -/
def loadAfterMore (visit : SourceVisit ε ρ π) (load : QueueLoad) : QueueLoad :=
  if visit.more.isEmpty then load else .zero

/-- The final batch finds room in the queue. -/
def fits (visit : SourceVisit ε ρ π) (load : QueueLoad) : Bool :=
  visit.final?.all (visit.loadAfterMore load).hasRoom

def loadAfter (visit : SourceVisit ε ρ π) (load : QueueLoad) : QueueLoad :=
  match visit.last with
  | .snapshotEnd _ =>
    match visit.final? with
    | some b => (visit.loadAfterMore load).add b
    | none => visit.loadAfterMore load
  | .closed _ | .failed _ => .zero

end SourceVisit

/-- Every final batch of the visits finds room in the queue: between two flush points there are at
most `MAX_APPEND_EVENTS` final batches with at most `MAX_APPEND_EVENTS` events and
`MAX_APPEND_RELATIONS` relations. -/
def queueFits : QueueLoad → List (SourceVisit ε ρ π) → Bool
  | _, [] => true
  | load, visit :: visits =>
    visit.fits load && (visit.stops || queueFits (visit.loadAfter load) visits)

/-- The batches of the visits up to the one that stops the adapter. -/
def delivered : List (SourceVisit ε ρ π) → List (CanonicalBatch ε ρ π)
  | [] => []
  | visit :: visits => visit.batches ++ if visit.stops then [] else delivered visits

/-- The scopes that a pass reaches all fit. -/
def scopesFit : List (ScopeVisit ε ρ π) → Bool
  | [] => true
  | scope :: scopes =>
    queueFits .zero scope.visits &&
      match scope.completion with
      | .ok .complete => scopesFit scopes
      | _ => true

/-- The batches of the scopes that a pass reaches. -/
def scopesDelivered : List (ScopeVisit ε ρ π) → List (CanonicalBatch ε ρ π)
  | [] => []
  | scope :: scopes =>
    delivered scope.visits ++
      match scope.completion with
      | .ok .complete => scopesDelivered scopes
      | _ => []

end Load

/-! ### Visits in step -/

section Visits

variable {σ ε ρ π : Type} {T : ReplayTables σ ε ρ π}

theorem checkedAdd_avoids (left right : ℕ) :
    Except.Avoids PassError.IsCursor (checkedAdd left right) fun sum => sum = left + right := by
  unfold checkedAdd
  split_ifs
  · exact .ok rfl
  · exact .error id

theorem counts_avoids (counts : RefreshCounts) (read : BatchCounters) :
    Except.Avoids PassError.IsCursor (counts.add read) fun _ => True := by
  refine .bind (checkedAdd_avoids _ _) fun _ _ => ?_
  refine .bind (checkedAdd_avoids _ _) fun _ _ => ?_
  refine .bind (checkedAdd_avoids _ _) fun _ _ => ?_
  refine .bind (checkedAdd_avoids _ _) fun _ _ => ?_
  exact .ok trivial

theorem currentProgress_safe (archive : StoreArchive σ ε ρ π) (key : Bytes32) :
    ∀ e, currentProgress archive key = .error e → ¬ PassError.IsCursor e := by
  intro e he
  unfold currentProgress at he
  cases hf : findSource archive.store.sources key with
  | some src =>
    rw [hf] at he
    cases he
  | none =>
    rw [hf] at he
    cases he
    exact id

/-- A prepared batch carries the cursor that it was prepared with. -/
theorem prepareCurrentBatch_avoids (archive : StoreArchive σ ε ρ π) (cursor : CurrentCursor)
    (batch : CanonicalBatch ε ρ π) :
    Except.Avoids PassError.IsCursor (prepareCurrentBatch T archive cursor batch) fun command =>
      command.cursor = cursor ∧ command.batch = batch := by
  refine .bind_of_safe (currentProgress_safe _ _) fun src => ?_
  refine .bind (liftCommit_avoids (liftStore_avoids fun _ _ => trivial)) fun _ _ => ?_
  exact .ok ⟨rfl, rfl⟩

namespace ApplySink

variable {sink next : ApplySink σ ε ρ π} {b : CurrentReplayAppendBatch ε ρ π}

theorem push_avoids (hsk : sink.InStep) (hb : b.cursor = sink.cursor) :
    Except.Avoids PassError.IsCursor (sink.push b) fun next =>
      next.InStep ∧ next.log = sink.log ++ [b.batch] ∧ next.load = sink.load.add b.batch := by
  refine .bind (checkedAdd_avoids _ _) fun evs hevs => ?_
  refine .bind (checkedAdd_avoids _ _) fun rels hrel => ?_
  refine .ok ⟨⟨hsk.cursor, ?_, ?_, ?_⟩, ?_, ?_⟩
  · intro b' hb'
    rcases mem_append.mp hb' with h | h
    · exact hsk.pending b' h
    · rw [mem_singleton.mp h]
      exact hb
  · show evs = totalEvents (sink.pending ++ [b])
    rw [hevs, hsk.events]
    simp [totalEvents]
  · show rels = totalRelations (sink.pending ++ [b])
    rw [hrel, hsk.relations]
    simp [totalRelations]
  · show sink.archive.store.committed ++ (sink.pending ++ [b]).map (·.batch) = _
    rw [map_append, ← append_assoc]
    rfl
  · show (⟨(sink.pending ++ [b]).length, evs, rels⟩ : QueueLoad) = _
    rw [hevs, hrel, length_append]
    rfl

theorem overflows_eq (sink : ApplySink σ ε ρ π) (b : CurrentReplayAppendBatch ε ρ π) :
    sink.overflows b = !sink.load.hasRoom b.batch := by
  unfold overflows QueueLoad.hasRoom
  simp only [bne, Bool.not_and, Bool.not_not, ← decide_not, not_le]
  rfl

/-- **A final batch that fits is queued under the archive's cursor.** -/
theorem queueFinalBatch_avoids (hsk : sink.InStep) (hb : b.cursor = sink.cursor)
    (hrm : sink.load.hasRoom b.batch = true) :
    Except.Avoids PassError.IsCursor (sink.queueFinalBatch T b) fun next =>
      next.InStep ∧ next.log = sink.log ++ [b.batch] ∧ next.load = sink.load.add b.batch := by
  refine .bind (checkedAdd_avoids _ _) fun _ _ => ?_
  refine .bind (checkedAdd_avoids _ _) fun _ _ => ?_
  rw [overflows_eq, hrm]
  exact push_avoids hsk hb

/-- Counting does not touch the queue. -/
theorem InStep.counted (hsk : sink.InStep) (counts : RefreshCounts) :
    ({ sink with counts := counts } : ApplySink σ ε ρ π).InStep :=
  ⟨hsk.cursor, hsk.pending, hsk.events, hsk.relations⟩

theorem Drained.load_eq (h : sink.Drained next) : next.load = .zero := by
  unfold load
  rw [h.inStep.events, h.inStep.relations, h.pending]
  rfl

theorem onMore_avoids (hsk : sink.InStep) (read : ReadBatch ε ρ π) :
    Except.Avoids PassError.IsCursor (sink.onMore T read) fun next =>
      next.InStep ∧ next.log = sink.log ++ [read.batch] ∧ next.load = .zero := by
  refine .bind_of_safe (currentProgress_safe _ _) fun _ => ?_
  refine .bind (counts_avoids _ _) fun counts _ => ?_
  refine .bind (flushPending_avoids (hsk.counted counts)) fun flushed hflus => ?_
  refine .bind (prepareCurrentBatch_avoids _ _ _) fun command hcomm => ?_
  have hst := hflus.1.inStep
  have hcarr : ∀ b ∈ [command], b.cursor = flushed.archive.store.cursor := by
    intro b hb
    rw [mem_singleton.mp hb, hcomm.1, hst.cursor]
  refine .bind (liftCommit_avoids (applyCurrentReplayAppendBatches_avoids hcarr))
    fun res hres => ?_
  refine .bind (committed_avoids hst hflus.1.pending hres.1) fun next hnx => ?_
  split_ifs
  · exact .error id
  · have hdrai : next.Drained next := ⟨hnx.1, hnx.2.1, rfl⟩
    refine .ok ⟨hnx.1, ?_, hdrai.load_eq⟩
    rw [hnx.2.2.1, hflus.1.log, map_singleton, hcomm.2]
    rfl

theorem onMores_avoids (hsk : sink.InStep) (reads : List (ReadBatch ε ρ π)) :
    Except.Avoids PassError.IsCursor (sink.onMores T reads) fun next =>
      next.InStep ∧ next.log = sink.log ++ reads.map (·.batch) ∧
        next.load = if reads.isEmpty then sink.load else .zero := by
  induction reads generalizing sink with
  | nil => exact .ok ⟨hsk, (append_nil _).symm, rfl⟩
  | cons read reads ih =>
    refine .bind (onMore_avoids hsk read) fun next hnx => ?_
    refine (ih hnx.1).mono fun last hl => ⟨hl.1, ?_, ?_⟩
    · rw [hl.2.1, hnx.2.1, map_cons, append_assoc]
      rfl
    · rw [hl.2.2, hnx.2.2]
      cases reads <;> rfl

theorem onClosed_avoids (hsk : sink.InStep) (key : Bytes32) (repaired : Option StoredCheckpoint) :
    Except.Avoids PassError.IsCursor (sink.onClosed T key repaired) fun next =>
      sink.Drained next := by
  refine .bind_of_safe (currentProgress_safe _ _) fun _ => ?_
  refine .bind (flushPending_avoids hsk) fun flushed hflus => ?_
  refine .bind_of_safe (currentProgress_safe _ _) fun src => ?_
  have hst := hflus.1.inStep
  refine .bind (liftCommit_avoids (completeCurrentReplaySource_avoids hst.cursor _ _))
    fun res hres => ?_
  refine (committed_avoids hst hflus.1.pending hres).mono fun next hnx => ?_
  refine ⟨hnx.1, hnx.2.1, ?_⟩
  rw [hnx.2.2.1, append_nil, hflus.1.log]

variable {visit : SourceVisit ε ρ π}

/-- **One source whose final batch fits.** -/
theorem onSource_avoids (hsk : sink.InStep) (hfit : visit.fits sink.load = true) :
    Except.Avoids PassError.IsCursor (sink.onSource T visit) fun next =>
      next.1.InStep ∧ next.1.log = sink.log ++ visit.batches ∧
        next.1.load = visit.loadAfter sink.load ∧
        next.2 = if visit.stops then .stop else .continue_ := by
  refine .bind (onMores_avoids hsk visit.more) fun mid hmid => ?_
  have hld : mid.load = visit.loadAfterMore sink.load := hmid.2.2
  unfold SourceVisit.batches SourceVisit.loadAfter SourceVisit.stops
  unfold SourceVisit.fits at hfit
  cases hl : visit.last with
  | failed code => exact .error id
  | closed repaired =>
    have hno : visit.final? = none := by rw [SourceVisit.final?, hl]
    refine .bind (onClosed_avoids hmid.1 _ _) fun next hnx => .ok ⟨hnx.inStep, ?_, ?_, rfl⟩
    · rw [hnx.log, hmid.2.1, hno, Option.toList_none, append_nil]
    · exact hnx.load_eq
  | snapshotEnd read =>
    refine .bind_of_safe (currentProgress_safe _ _) fun _ => ?_
    refine .bind (counts_avoids _ _) fun counts _ => ?_
    refine .bind (prepareCurrentBatch_avoids _ _ _) fun prepared hprep => ?_
    by_cases hcaught : read.batch.nextCheckpoint.isCaughtUp = true
    · have hfi : visit.final? = some read.batch := by
        rw [SourceVisit.final?, hl]
        exact if_pos hcaught
      rw [hfi] at hfit ⊢
      rw [if_pos hcaught]
      have hrm : ({ mid with counts := counts } : ApplySink σ ε ρ π).load.hasRoom
          prepared.batch = true := by
        rw [hprep.2]
        show mid.load.hasRoom read.batch = true
        rw [hld]
        exact hfit
      refine .bind (queueFinalBatch_avoids (hmid.1.counted counts) hprep.1 hrm)
        fun next hnx => .ok ⟨hnx.1, ?_, ?_, ?_⟩
      · rw [hnx.2.1, hprep.2]
        show mid.log ++ [read.batch] = _
        rw [hmid.2.1, append_assoc]
        rfl
      · rw [hnx.2.2, hprep.2]
        show mid.load.add read.batch = _
        rw [hld]
      · simp [hcaught]
    · have hno : visit.final? = none := by
        rw [SourceVisit.final?, hl]
        exact if_neg hcaught
      rw [if_neg hcaught, hno]
      refine .ok ⟨hmid.1.counted counts, ?_, hld, ?_⟩
      · show mid.log = _
        rw [hmid.2.1, Option.toList_none, append_nil]
      · simp [hcaught]

variable {visits : List (SourceVisit ε ρ π)}

theorem onSources_avoids (hsk : sink.InStep) (hfit : queueFits sink.load visits = true) :
    Except.Avoids PassError.IsCursor (sink.onSources T visits) fun next =>
      next.InStep ∧ next.log = sink.log ++ delivered visits := by
  induction visits generalizing sink with
  | nil => exact .ok ⟨hsk, (append_nil _).symm⟩
  | cons visit visits ih =>
    unfold queueFits at hfit
    rw [Bool.and_eq_true, Bool.or_eq_true] at hfit
    unfold onSources delivered
    refine .bind (onSource_avoids hsk hfit.1) fun next hnx => ?_
    obtain ⟨hst, hlog, hld, hctl⟩ := hnx
    by_cases hstops : visit.stops = true
    · rw [if_pos hstops] at hctl ⊢
      rw [if_pos hctl]
      exact .ok ⟨hst, by rw [hlog, append_nil]⟩
    · rw [if_neg hstops] at hctl ⊢
      rw [hctl, if_neg (by decide)]
      have hrs : queueFits next.1.load visits = true := by
        rw [hld]
        exact hfit.2.resolve_left hstops
      refine (ih hst hrs).mono fun last hl => ⟨hl.1, ?_⟩
      rw [hl.2, hlog, append_assoc]

/-! ### After an overflow -/

/-- The queue starts with a batch of another epoch. -/
def Poisoned (sink : ApplySink σ ε ρ π) : Prop :=
  ∃ first rest, sink.pending = first :: rest ∧
    first.cursor.epoch ≠ sink.archive.store.cursor.epoch

theorem Poisoned.not_flushed (h : sink.Poisoned) : sink.flushPending T ≠ .ok next := by
  obtain ⟨first, rest, hpd, hep⟩ := h
  intro hflush
  unfold flushPending at hflush
  rw [hpd] at hflush
  obtain ⟨res, hres, -⟩ := bind_eq_ok.mp hflush
  cases hap : applyCurrentReplayAppendBatches T sink.archive.store (first :: rest) with
  | error e =>
    rw [hap] at hres
    cases hres
  | ok done => exact applyCurrentReplayAppendBatches_refused hep done hap

theorem Poisoned.push (h : sink.Poisoned) (hpu : sink.push b = .ok next) : next.Poisoned := by
  obtain ⟨first, rest, hpd, hep⟩ := h
  obtain ⟨_, _, hpu⟩ := bind_eq_ok.mp hpu
  obtain ⟨_, _, hpu⟩ := bind_eq_ok.mp hpu
  cases hpu
  refine ⟨first, rest ++ [b], ?_, hep⟩
  show sink.pending ++ [b] = first :: (rest ++ [b])
  rw [hpd]
  rfl

theorem Poisoned.queued (h : sink.Poisoned) (hq : sink.queueFinalBatch T b = .ok next) :
    next.Poisoned := by
  obtain ⟨_, _, hq⟩ := bind_eq_ok.mp hq
  obtain ⟨_, _, hq⟩ := bind_eq_ok.mp hq
  split_ifs at hq
  · obtain ⟨flushed, hflus, -⟩ := bind_eq_ok.mp hq
    exact absurd hflus h.not_flushed
  · exact h.push hq

theorem Poisoned.onSource {next : ApplySink σ ε ρ π × SinkControl} (h : sink.Poisoned)
    (hsrc : sink.onSource T visit = .ok next) : next.1.Poisoned := by
  obtain ⟨mid, hmid, hsrc⟩ := bind_eq_ok.mp hsrc
  have hmidP : mid.Poisoned := by
    cases hmo : visit.more with
    | nil =>
      rw [hmo] at hmid
      cases hmid
      exact h
    | cons read reads =>
      -- a batch with `More` flushes first
      rw [hmo] at hmid
      obtain ⟨_, hrd, -⟩ := bind_eq_ok.mp hmid
      obtain ⟨_, _, hrd⟩ := bind_eq_ok.mp hrd
      obtain ⟨counts, _, hrd⟩ := bind_eq_ok.mp hrd
      obtain ⟨flushed, hflus, -⟩ := bind_eq_ok.mp hrd
      have hctd : ({ sink with counts := counts } : ApplySink σ ε ρ π).Poisoned := h
      exact absurd hflus hctd.not_flushed
  cases hl : visit.last with
  | failed code =>
    rw [hl] at hsrc
    cases hsrc
  | closed repaired =>
    rw [hl] at hsrc
    obtain ⟨_, hclosed, -⟩ := bind_eq_ok.mp hsrc
    obtain ⟨_, _, hclosed⟩ := bind_eq_ok.mp hclosed
    obtain ⟨flushed, hflus, -⟩ := bind_eq_ok.mp hclosed
    exact absurd hflus hmidP.not_flushed
  | snapshotEnd read =>
    rw [hl] at hsrc
    obtain ⟨_, _, hsrc⟩ := bind_eq_ok.mp hsrc
    obtain ⟨counts, _, hsrc⟩ := bind_eq_ok.mp hsrc
    obtain ⟨prepared, _, hsrc⟩ := bind_eq_ok.mp hsrc
    have hctd : ({ mid with counts := counts } : ApplySink σ ε ρ π).Poisoned := hmidP
    split_ifs at hsrc
    · obtain ⟨queued, hqueued, hsrc⟩ := bind_eq_ok.mp hsrc
      cases hsrc
      exact hctd.queued hqueued
    · cases hsrc
      exact hctd

theorem Poisoned.onSources (h : sink.Poisoned) (hsrcs : sink.onSources T visits = .ok next) :
    next.Poisoned := by
  induction visits generalizing sink with
  | nil =>
    cases hsrcs
    exact h
  | cons visit visits ih =>
    obtain ⟨mid, hmid, hsrcs⟩ := bind_eq_ok.mp hsrcs
    split_ifs at hsrcs
    · cases hsrcs
      exact h.onSource hmid
    · exact ih (h.onSource hmid) hsrcs

/-- **A final batch that overflows the queue poisons it.** -/
theorem queueFinalBatch_poisons (hsk : sink.InStep) (hb : b.cursor = sink.cursor)
    (hrm : sink.load.hasRoom b.batch = false) (hq : sink.queueFinalBatch T b = .ok next) :
    next.Poisoned := by
  have hne : sink.pending ≠ [] := by
    intro hnil
    have hld : sink.load = .zero := by
      unfold load
      rw [hsk.events, hsk.relations, hnil]
      rfl
    have hevs := b.batch.events_le
    have hrel := b.batch.relations_le
    have hfit : QueueLoad.zero.hasRoom b.batch = true := by
      simp only [QueueLoad.hasRoom, QueueLoad.zero, zero_add, hevs, hrel]
      rfl
    rw [hld, hfit] at hrm
    cases hrm
  obtain ⟨_, _, hq⟩ := bind_eq_ok.mp hq
  obtain ⟨_, _, hq⟩ := bind_eq_ok.mp hq
  rw [overflows_eq, hrm] at hq
  obtain ⟨flushed, hflus, hpu⟩ := bind_eq_ok.mp hq
  obtain ⟨hdrai, hep⟩ := (flushPending_avoids hsk).2 flushed hflus
  have hlt := hep hne
  obtain ⟨_, _, hpu⟩ := bind_eq_ok.mp hpu
  obtain ⟨_, _, hpu⟩ := bind_eq_ok.mp hpu
  cases hpu
  refine ⟨b, [], ?_, ?_⟩
  · show flushed.pending ++ [b] = [b]
    rw [hdrai.pending]
    rfl
  · show b.cursor.epoch ≠ flushed.archive.store.cursor.epoch
    rw [hb, hsk.cursor]
    exact hlt.ne

theorem onSource_poisons (hsk : sink.InStep) (hfit : visit.fits sink.load = false)
    {next : ApplySink σ ε ρ π × SinkControl} (hsrc : sink.onSource T visit = .ok next) :
    next.1.Poisoned ∧ next.2 = .continue_ := by
  obtain ⟨mid, hmid, hsrc⟩ := bind_eq_ok.mp hsrc
  obtain ⟨hst, -, hld⟩ := (onMores_avoids hsk visit.more).2 mid hmid
  unfold SourceVisit.fits at hfit
  cases hl : visit.last with
  | failed code =>
    rw [hl] at hsrc
    cases hsrc
  | closed repaired =>
    have hno : visit.final? = none := by rw [SourceVisit.final?, hl]
    rw [hno] at hfit
    cases hfit
  | snapshotEnd read =>
    rw [hl] at hsrc
    obtain ⟨_, _, hsrc⟩ := bind_eq_ok.mp hsrc
    obtain ⟨counts, _, hsrc⟩ := bind_eq_ok.mp hsrc
    obtain ⟨prepared, hprep, hsrc⟩ := bind_eq_ok.mp hsrc
    obtain ⟨hcu, hbatch⟩ := (prepareCurrentBatch_avoids _ _ _).2 prepared hprep
    by_cases hcaught : read.batch.nextCheckpoint.isCaughtUp = true
    · have hfi : visit.final? = some read.batch := by
        rw [SourceVisit.final?, hl]
        exact if_pos hcaught
      rw [hfi] at hfit
      rw [if_pos hcaught] at hsrc
      obtain ⟨queued, hqueued, hsrc⟩ := bind_eq_ok.mp hsrc
      cases hsrc
      refine ⟨queueFinalBatch_poisons (hst.counted counts) hcu ?_ hqueued, rfl⟩
      rw [hbatch]
      show mid.load.hasRoom read.batch = false
      rw [hld]
      exact hfit
    · have hno : visit.final? = none := by
        rw [SourceVisit.final?, hl]
        exact if_neg hcaught
      rw [hno] at hfit
      cases hfit

theorem onSources_poisons (hsk : sink.InStep) (hfits : queueFits sink.load visits = false)
    (hsrcs : sink.onSources T visits = .ok next) : next.Poisoned := by
  induction visits generalizing sink with
  | nil => cases hfits
  | cons visit visits ih =>
    obtain ⟨mid, hmid, hsrcs⟩ := bind_eq_ok.mp hsrcs
    by_cases hfit : visit.fits sink.load = true
    · obtain ⟨hst, -, hld, hctl⟩ := (onSource_avoids hsk hfit).2 mid hmid
      unfold queueFits at hfits
      rw [hfit, Bool.true_and, Bool.or_eq_false_iff] at hfits
      rw [if_neg (by rw [hfits.1]; decide)] at hctl
      rw [hctl, if_neg (by decide)] at hsrcs
      exact ih hst (by rw [hld]; exact hfits.2) hsrcs
    · rw [Bool.not_eq_true] at hfit
      obtain ⟨hpois, hctl⟩ := onSource_poisons hsk hfit hmid
      rw [hctl, if_neg (by decide)] at hsrcs
      exact hpois.onSources hsrcs

end ApplySink

/-! ### Passes -/

variable {archive : StoreArchive σ ε ρ π} {cursor : CurrentCursor}

section

variable (h : cursor = archive.store.cursor) {scope : ScopeVisit ε ρ π}
  {scopes : List (ScopeVisit ε ρ π)}

include h

theorem freshSink_inStep (counts : RefreshCounts) :
    (⟨archive, cursor, counts, [], 0, 0⟩ : ApplySink σ ε ρ π).InStep :=
  ⟨h, fun _ hb => absurd hb (not_mem_nil), rfl, rfl⟩

theorem applyScope_avoids (counts : RefreshCounts) (hfit : queueFits .zero scope.visits = true) :
    Except.Avoids PassError.IsCursor (applyScope T archive cursor counts scope) fun applied =>
      applied.1.cursor = applied.1.archive.store.cursor ∧
        applied.1.archive.store.committed = archive.store.committed ++ delivered scope.visits ∧
        scope.completion = .ok applied.2 := by
  refine .bind (ApplySink.onSources_avoids (freshSink_inStep h counts) hfit) fun sink hsk => ?_
  have hcomp : Except.Avoids PassError.IsCursor (scope.completion.mapError .port)
      fun quality => scope.completion = .ok quality := by
    cases scope.completion with
    | error code => exact .error id
    | ok quality => exact .ok rfl
  refine .bind hcomp fun quality hqual => ?_
  refine .bind (ApplySink.flushPending_avoids hsk.1) fun flushed hflus => ?_
  have hdrai := hflus.1
  refine .ok ⟨hdrai.inStep.cursor, ?_, hqual⟩
  have hlog : flushed.log = archive.store.committed ++ delivered scope.visits := by
    rw [hdrai.log, hsk.2]
    simp [ApplySink.log]
  rw [← hlog, ApplySink.log, hdrai.pending]
  simp

theorem applyScope_overflow (counts : RefreshCounts) (hfit : queueFits .zero scope.visits = false)
    :
    ∀ applied, applyScope T archive cursor counts scope ≠ .ok applied := by
  intro applied hap
  obtain ⟨sink, hsk, hap⟩ := bind_eq_ok.mp hap
  obtain ⟨_, _, hap⟩ := bind_eq_ok.mp hap
  obtain ⟨flushed, hflus, _⟩ := bind_eq_ok.mp hap
  exact (ApplySink.onSources_poisons (freshSink_inStep h counts) hfit hsk).not_flushed hflus

theorem settleOutcome_avoids :
    Except.Avoids PassError.IsCursor (settleOutcome T archive cursor) fun res =>
      res.1.store.committed = archive.store.committed := by
  refine .bind (settleCurrent_avoids _ h) fun settled hsett => ?_
  exact .ok hsett.2.2

theorem applyScopes_avoids (counts : RefreshCounts) (hfit : scopesFit scopes = true) :
    Except.Avoids PassError.IsCursor (applyScopes T archive cursor counts scopes) fun res =>
      res.1.store.committed = archive.store.committed ++ scopesDelivered scopes := by
  induction scopes generalizing archive cursor counts with
  | nil =>
    refine (settleOutcome_avoids h).mono fun res hres => ?_
    rw [hres]
    exact (append_nil _).symm
  | cons scope scopes ih =>
    unfold scopesFit at hfit
    rw [Bool.and_eq_true] at hfit
    unfold applyScopes scopesDelivered
    refine .bind (applyScope_avoids h counts hfit.1) fun applied hap => ?_
    obtain ⟨hcu, hcom, hcpl⟩ := hap
    rw [hcpl] at hfit ⊢
    by_cases hcomp : applied.2 = .complete
    · rw [hcomp] at hfit ⊢
      refine (ih hcu applied.1.counts hfit.2).mono fun res hres => ?_
      rw [hres, hcom, append_assoc]
    · rw [if_neg hcomp]
      refine .ok ?_
      show applied.1.archive.store.committed = _
      rw [hcom]
      cases hq : applied.2 with
      | complete => exact absurd hq hcomp
      | partial_ | cancelled | failed | timedOut => rw [append_nil]

theorem applyScopes_overflow (counts : RefreshCounts) (hfits : scopesFit scopes = false) :
    ∀ result, applyScopes T archive cursor counts scopes ≠ .ok result := by
  induction scopes generalizing archive cursor counts with
  | nil => cases hfits
  | cons scope scopes ih =>
    intro result hres
    obtain ⟨applied, hap, hres⟩ := bind_eq_ok.mp hres
    by_cases hfit : queueFits .zero scope.visits = true
    · obtain ⟨hcu, -, hcpl⟩ := (applyScope_avoids h counts hfit).2 applied hap
      unfold scopesFit at hfits
      rw [hfit, Bool.true_and, hcpl] at hfits
      by_cases hcomp : applied.2 = .complete
      · rw [hcomp] at hfits
        rw [if_pos hcomp] at hres
        exact ih hcu applied.1.counts hfits result hres
      · cases hq : applied.2 with
        | complete => exact hcomp hq
        | _ => rw [hq] at hfits; cases hfits
    · rw [Bool.not_eq_true] at hfit
      exact applyScope_overflow h counts hfit applied hap

end

theorem refreshTargetedApply_avoids (archive : StoreArchive σ ε ρ π) {changed : ScopeVisit ε ρ π}
    (hfit : queueFits .zero changed.visits = true) :
    Except.Avoids PassError.IsCursor (refreshTargetedApply T archive changed) fun res =>
      res.1.store.committed = archive.store.committed ++ delivered changed.visits := by
  refine .bind (applyScope_avoids rfl .zero hfit) fun applied hap => ?_
  split_ifs
  · refine .bind (settleOutcome_avoids hap.1) fun settled hsett => ?_
    exact .ok (hsett.trans hap.2.1)
  · exact .ok hap.2.1

/-- **Passes without an overflow stay in step, and only those can succeed.**  When every final
batch finds room in the queue, no command of the apply pass has a cursor fault, and a pass that
returns has committed the batches of its sources once each, in reading order.  When one does not
find room, the pass fails. -/
theorem apply_pass_in_step (T : ReplayTables σ ε ρ π) (archive : StoreArchive σ ε ρ π) :
    (∀ scopes, scopesFit scopes = true →
      (∀ fault, refreshIncrementalApply T archive scopes ≠ .error (.cursor fault)) ∧
        ∀ result, refreshIncrementalApply T archive scopes = .ok result →
          result.1.store.committed = archive.store.committed ++ scopesDelivered scopes) ∧
    (∀ changed : ScopeVisit ε ρ π, queueFits .zero changed.visits = true →
      (∀ fault, refreshTargetedApply T archive changed ≠ .error (.cursor fault)) ∧
        ∀ result, refreshTargetedApply T archive changed = .ok result →
          result.1.store.committed = archive.store.committed ++ delivered changed.visits) ∧
    (∀ scopes, scopesFit scopes = false →
      ∀ result, refreshIncrementalApply T archive scopes ≠ .ok result) ∧
    ∀ changed : ScopeVisit ε ρ π, queueFits .zero changed.visits = false →
      ∀ result, refreshTargetedApply T archive changed ≠ .ok result := by
  refine ⟨?_, ?_, ?_, ?_⟩
  · intro scopes hfit
    have hsafe : Except.Avoids PassError.IsCursor (refreshIncrementalApply T archive scopes) _ :=
      applyScopes_avoids rfl .zero hfit
    exact ⟨fun fault herr => hsafe.1 _ herr trivial, hsafe.2⟩
  · intro changed hfit
    have hsafe : Except.Avoids PassError.IsCursor (refreshTargetedApply T archive changed) _ :=
      refreshTargetedApply_avoids archive hfit
    exact ⟨fun fault herr => hsafe.1 _ herr trivial, hsafe.2⟩
  · intro scopes hfit
    exact applyScopes_overflow rfl .zero hfit
  · intro changed hfit result hres
    obtain ⟨applied, hap, -⟩ := bind_eq_ok.mp hres
    exact applyScope_overflow rfl .zero hfit applied hap

end Visits

/-! ### Two sources in one scope -/

section Example

/-- Tables that accept everything and leave no work. -/
def exampleTables : ReplayTables Unit Unit Unit Unit where
  validate _ := .ok ()
  ingest _ _ _ := .ok ()
  workExists _ := false
  continueWork _ _ := .ok none

def exampleCheckpoint (offset : ℕ) : StoredCheckpoint where
  parserSchemaVersion := 2
  physicalIdentity := none
  logicalIdentity := Bytes32.replicate 0
  committedOffset := offset
  scanOffset := offset
  observedFileLength := offset
  modifiedTimeNs := none
  anchorStart := 0
  anchorLen := 0
  anchorSha256 := Bytes32.replicate 0
  resume := []
  discardingOversizedLine := false
  incompleteTail := false
  verification := .incremental

/-- A complete archive with two sources at their start. -/
def exampleArchive : StoreArchive Unit Unit Unit Unit where
  store :=
    { cursor := ⟨1, 1, 1⟩
      quality := .complete
      versionsCompiled := true
      sources := [⟨Bytes32.replicate 1, 1, exampleCheckpoint 0, some .complete⟩,
        ⟨Bytes32.replicate 2, 1, exampleCheckpoint 0, some .complete⟩]
      tables := ()
      committed := [] }
  pendingCurrentBatches := []

def exampleBatch (source : UInt8) (events : ℕ) (h : events ≤ maxAppendEvents) :
    CanonicalBatch Unit Unit Unit where
  sourceKey := Bytes32.replicate source
  events := List.replicate events ()
  relations := []
  chunkProofs := ()
  nextCheckpoint := exampleCheckpoint 1000
  events_le := by rw [List.length_replicate]; exact h
  relations_le := Nat.zero_le _

/-- A source that is read to its end in one batch. -/
def exampleVisit (batch : CanonicalBatch Unit Unit Unit) : SourceVisit Unit Unit Unit where
  sourceKey := batch.sourceKey
  more := []
  last := .snapshotEnd ⟨batch, ⟨1000, batch.events.length, 0⟩⟩
  more_key := fun _ hr => absurd hr (List.not_mem_nil)
  last_key := fun r hr => by cases hr; rfl

/-- One scope, two sources, their final batches with these numbers of events. -/
def exampleScopes (first second : ℕ) (h₁ : first ≤ maxAppendEvents)
    (h₂ : second ≤ maxAppendEvents) : List (ScopeVisit Unit Unit Unit) :=
  [⟨[exampleVisit (exampleBatch 1 first h₁), exampleVisit (exampleBatch 2 second h₂)],
    .ok .complete⟩]

theorem apply_pass_in_step_example :
    scopesFit (exampleScopes 100 100 (by decide) (by decide)) = true ∧
    ∃ result, refreshIncrementalApply exampleTables exampleArchive
        (exampleScopes 100 100 (by decide) (by decide)) = .ok result ∧
      result.1.store.committed =
        [exampleBatch 1 100 (by decide), exampleBatch 2 100 (by decide)] := by
  have hfit : scopesFit (exampleScopes 100 100 (by decide) (by decide)) = true := by
    decide +kernel
  have hrun : ∃ result, refreshIncrementalApply exampleTables exampleArchive
      (exampleScopes 100 100 (by decide) (by decide)) = .ok result := ⟨_, rfl⟩
  obtain ⟨result, hres⟩ := hrun
  refine ⟨hfit, result, hres, ?_⟩
  exact ((apply_pass_in_step exampleTables exampleArchive).1 _ hfit).2 result hres

set_option maxRecDepth 4000 in
/-- Final batches of 200 and 100 events: the second overflows the queue, is pushed behind the flush
of the first and is refused at the end of the scope for its epoch. -/
theorem apply_pass_overflow :
    refreshIncrementalApply exampleTables exampleArchive
      (exampleScopes 200 100 (by decide) (by decide)) = .error (.cursor .outdatedEpoch) := by
  rfl

end Example

end TokenMaster.Runtime
