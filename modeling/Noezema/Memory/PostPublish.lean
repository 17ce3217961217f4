import Noezema.Memory.Activation

/-! # The post-publish manifest

After the flip a follow-up question is owed for every claim that is pending under the
new snapshot. `run_post_publish` writes them in batches while the slot is held;
when its retries are exhausted the slot is cleared, and `run_activation_repair`
continues at the same cursor. Each batch reads the pending claims anew.
-/

namespace Noezema.Memory

open Noezema.Lib

/-- What one batch transaction of the two runners reports. -/
inductive BatchEnd where
  /-- The manifest is complete, the snapshot `active`. -/
  | completed (cursor : Nat)
  /-- The batch is committed; the loop goes on. -/
  | batch (cursor created : Nat)
  /-- Nothing was done: the tuple is held by another runner, a window is open, or the
  compare-and-set of the repair does not hold. -/
  | deferred (state : ActivationState)
  | superseded
deriving DecidableEq, Repr

namespace MemoryDb

/-! ## One batch -/

/-- The pending claims the next batch asks about. -/
def manifestSlice (db : MemoryDb) (c : ConfigSnapshot) (batchSize : Nat) : List ClaimId :=
  ((db.pendingClaimIds c.id).drop c.postPublishCursor).take batchSize

/-- The batch at the cursor: the questions of the slice, the cursor, the revision. -/
def manifestBatch (db : MemoryDb) (c : ConfigSnapshot) (batchSize : Nat) :
    MemoryDb × BatchEnd :=
  let slice := db.manifestSlice c batchSize
  let (know, created) := Knowledge.enqueueQuestions (.activationPending c.id) slice db.know
  let cursor := c.postPublishCursor + slice.length
  ((db.withKnow know.bumpRevision).setSnapshot { c with postPublishCursor := cursor },
    .batch cursor created)

/-- A batch rewrites its candidate's row only. -/
theorem manifestBatch_other (db : MemoryDb) {c : ConfigSnapshot} (batchSize : Nat)
    {s : SnapshotId} (hne : c.id ≠ s) :
    (db.manifestBatch c batchSize).1.snapshot? s = db.snapshot? s :=
  (snapshot?_setSnapshot _ _ s).trans (if_neg (Ne.symm hne))

/-- `_terminal_cleanup_tx` with the outcome `active`. -/
def completeManifest (db : MemoryDb) (c : ConfigSnapshot) : MemoryDb :=
  (db.setSnapshot { c with state := .active }).clearSlot

/-- One batch of `run_post_publish`, the gate acquired. -/
def runPostPublish (db : MemoryDb) (now : Nat) (r : Runner) (batchSize : Nat) :
    Except ActivationError (MemoryDb × BatchEnd) := do
  let c ← db.row r.candidate
  if c.state = .active then pure (db, .deferred .active)
  else if c.state = .superseded then pure (db, .superseded)
  else if c.state ≠ .postPublish then throw (.unexpectedState c.state)
  else if ¬ db.tupleOk now r.candidate r.fence r.owner then pure (db, .deferred c.state)
  else if c.postPublishNextAttemptAt.any fun t => now < t then pure (db, .deferred c.state)
  else if (db.pendingClaimIds c.id).length ≤ c.postPublishCursor then
    pure (db.completeManifest c, .completed c.postPublishCursor)
  else
    pure (db.manifestBatch c batchSize)

/-- `run_post_publish` after an exception: the backoff, and with the retries exhausted
the snapshot is blocked and the slot cleared. -/
def postPublishFailed (db : MemoryDb) (now : Nat) (r : Runner) (retryAt : Nat) :
    Except ActivationError MemoryDb := do
  let c ← db.row r.candidate
  if db.tupleOk now r.candidate r.fence r.owner then
    let c := { c with postPublishAttempts := c.postPublishAttempts + 1 }
    if limitOr c.maxAttempts 78 ≤ c.postPublishAttempts then
      pure (db.setSnapshot { c with
        state := .postPublishBlocked
        postPublishNextAttemptAt := some now }).clearSlot
    else pure (db.setSnapshot { c with postPublishNextAttemptAt := some retryAt })
  else pure db

/-- One batch of `run_activation_repair`, the gate acquired. -/
def runActivationRepair (db : MemoryDb) (now : Nat) (candidate : SnapshotId)
    (batchSize : Nat) : Except ActivationError (MemoryDb × BatchEnd) := do
  let c ← db.row candidate
  if db.effective ≠ candidate then
    -- a newer flip owns the pointer
    pure (if c.state = .postPublishBlocked then db.setSnapshot { c with state := .superseded }
      else db, .superseded)
  else if db.head.activating ≠ none ∨ c.mode ≠ .online ∨ c.state ≠ .postPublishBlocked ∨
      c.postPublishNextAttemptAt.all (fun t => now < t) then
    pure (db, .deferred c.state)
  else if (db.pendingClaimIds c.id).length ≤ c.postPublishCursor then
    pure (db.setSnapshot { c with state := .active }, .completed c.postPublishCursor)
  else
    pure (db.manifestBatch c batchSize)

/-- `run_activation_repair` after an exception: a permanent one parks the backlog. -/
def repairFailed (db : MemoryDb) (candidate : SnapshotId) (permanent : Bool)
    (retryAt : Nat) : Except ActivationError MemoryDb := do
  let c ← db.row candidate
  if c.state = .postPublishBlocked ∧ db.effective = candidate ∧ db.head.activating = none then
    pure (db.setSnapshot { c with
      postPublishAttempts := c.postPublishAttempts + 1
      postPublishNextAttemptAt := if permanent then none else some retryAt })
  else pure db

end MemoryDb

end Noezema.Memory
