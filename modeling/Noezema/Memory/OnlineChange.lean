import Noezema.Memory.Lane

/-! # The driver of an online change

`run_online_change` as a machine. A phase is a place between two of its transactions,
with what the run holds there; a step is the next transaction. A run that dies leaves
nothing but the database, and the next one starts over and goes by the candidate's state.
-/

namespace Noezema.Memory

open Noezema.Lib

/-- What a run raises. -/
inductive ChangeError where
  /-- Raised in a transaction. -/
  | step (e : ActivationError)
  /-- Another owner holds the live lease of the candidate. -/
  | leaseHeld
  | anotherCandidate
  | drainTimedOut (active : Nat)
  | gateTimedOut
  | cannotResume (state : ActivationState)
  | publishStopped (state : ActivationState)
  | postPublishEnded (state : ActivationState)
  /-- A failure from outside the lane. -/
  | outside
deriving DecidableEq, Repr

/-- The error of the sealed-heads trigger and what fails outside are no
`ActivationError`. -/
def ChangeError.isActivationError : ChangeError → Bool
  | .step (.sealedHeads _) => false
  | .outside => false
  | _ => true

/-- Where a run stands. -/
inductive ChangePhase where
  /-- The upsert of the candidate. -/
  | upsert
  | early (candidate : SnapshotId)
  | slot (candidate : SnapshotId) (early : ActivationState)
  /-- `publish_activation_drain`. -/
  | drain (candidate : SnapshotId)
  | drained (r : Runner)
  /-- `wait_activation_drain`. -/
  | wait (r : Runner)
  /-- `_cancel_activation_drain`, before the error is raised. -/
  | cancel (r : Runner) (e : ChangeError)
  /-- `_confirm_drain`. -/
  | confirm (r : Runner)
  | resume (r : Runner)
  | freeze (r : Runner)
  | prepare (r : Runner) (prepared : Nat)
  | verify (r : Runner)
  | sealed (r : Runner)
  | publish (r : Runner)
  | flip (r : Runner)
  /-- The writer gate of `run_post_publish`. -/
  | gate (r : Runner)
  | postPublish (r : Runner) (batches : Nat)
  /-- `run_post_publish` after an exception. -/
  | backoff (r : Runner) (e : ChangeError)
  /-- `except ActivationError`, before it has looked at the state. -/
  | handler (r : Runner) (e : ChangeError)
  | cleanup (r : Runner) (e : ChangeError)
  | returned (candidate : SnapshotId) (state : ActivationState)
  | raised (e : ChangeError)
deriving DecidableEq, Repr

/-- The arguments of a run; `lease` covers the drain wait. -/
structure ChangeOptions where
  owner : String
  prepareBatch : Nat
  lease : Nat

/-- What a transaction finds outside the database: the clock, the writer gate, whether the
deadline of its wait has passed, a fresh uuid, the end of a backoff. -/
structure ChangeTick where
  now : Nat
  gate : Bool
  late : Bool
  id : SnapshotId
  retryAt : Nat

/-- `DEFAULT_POST_PUBLISH_BATCH`. -/
def postPublishBatch : Nat := 64

/-- `DEFAULT_MAX_POST_PUBLISH_BATCHES`. -/
def maxPostPublishBatches : Nat := 32

namespace ChangePhase

/-- An error inside the `try`: its handler takes an `ActivationError` only. -/
def caught (r : Runner) (e : ChangeError) : ChangePhase :=
  if e.isActivationError then .handler r e else .raised e

/-- Where a run goes on from, with the slot in hand. -/
def ofState (r : Runner) (state : ActivationState) : ChangePhase :=
  if state ∈ MemoryDb.preparing then .freeze r
  else if state = .postPublish then .sealed r
  else caught r (.cannotResume state)

/-- Publish what is sealed, or take up the manifest of an earlier flip. -/
def ofSealed (r : Runner) (state : ActivationState) : ChangePhase :=
  if state = .ready then .publish r
  else if state = .postPublish then .gate r
  else caught r (.publishStopped state)

/-- The end of the post-publish loop. -/
def ofPublished (r : Runner) (state : ActivationState) : ChangePhase :=
  if state = .postPublish ∨ state = .active then .returned r.candidate state
  else caught r (.postPublishEnded state)

/-- Something outside fails in a transaction: `run_post_publish` alone has an answer. -/
def fault : ChangePhase → ChangePhase
  | .postPublish r _ => .backoff r .outside
  | .returned c state => .returned c state
  | .raised e => .raised e
  | _ => .raised .outside

/-- The tuple a run holds. -/
def runner? : ChangePhase → Option Runner
  | .drained r | .wait r | .cancel r _ | .confirm r | .resume r | .freeze r | .prepare r _
  | .verify r | .sealed r | .publish r | .flip r | .gate r | .postPublish r _ | .backoff r _
  | .handler r _ | .cleanup r _ => some r
  | .upsert | .early _ | .slot _ _ | .drain _ | .returned _ _ | .raised _ => none

end ChangePhase

namespace MemoryDb

/-! ## The phases -/

/-- The row `upsert_online_candidate` returns: the effective one, an unfinished one, or the
new one. -/
def onlineCandidate (db : MemoryDb) (id : SnapshotId) (q : ConfigRequest) : SnapshotId :=
  let same := fun r : ConfigSnapshot => r.payloadSha256 = q.payloadSha256
  if (db.snapshot? db.effective).any same then db.effective
  else
    match db.snapshots.find? fun r => r.baseSnapshotId = some db.effective ∧ same r ∧
        r.mode = .online ∧ r.state ∉ [.failed, .active, .superseded] with
    | some r => r.id
    | none => id

/-- What follows a transaction; one that raises is rolled back. -/
def after {α : Type} (db : MemoryDb) (tx : Except ActivationError α)
    (raised : ChangeError → ChangePhase) (next : α → MemoryDb × ChangePhase) :
    MemoryDb × ChangePhase :=
  match tx with
  | .ok a => next a
  | .error e => (db, raised (.step e))

/-- How a run comes to the slot: it reuses its own, or publishes the drain. -/
def slotPhase (db : MemoryDb) (now : Nat) (owner : String) (c : SnapshotId)
    (early : ActivationState) : ChangePhase :=
  match db.head.activating with
  | none => .drain c
  | some s =>
    if s ≠ c then .raised .anotherCandidate
    else if ¬ db.leaseLive now then .drain c
    else if db.head.leaseOwner ≠ some owner then .raised .leaseHeld
    -- a crash during the drain
    else if early = .draft then .drain c
    else .resume ⟨c, db.head.fence, owner⟩

/-- After a poll of the drain. -/
def waitPhase (db : MemoryDb) (late : Bool) (r : Runner) : ChangePhase :=
  match db.checkQuiesced with
  | .ok () => .confirm r
  | .error _ =>
    if late then
      .cancel r (.drainTimedOut (db.sessions.activeSessions + db.sessions.liveAdmissions))
    else .wait r

/-- The batch of `prepare_heads_online` after `prepared` claims. -/
def nextBatch (db : MemoryDb) (prepared batchSize : Nat) : List Claim :=
  (db.claimsById.drop prepared).take batchSize

/-- The failure a backoff records is the last one the budget allows. -/
def isLastAttempt (db : MemoryDb) (now : Nat) (r : Runner) : Bool :=
  db.tupleOk now r.candidate r.fence r.owner ∧
    (db.snapshot? r.candidate).any fun c => limitOr c.maxAttempts 78 ≤ c.postPublishAttempts + 1

/-- One transaction of `run_online_change`. -/
def changeStep (digest : List (ClaimId × Head) → String) (q : ConfigRequest)
    (o : ChangeOptions) (db : MemoryDb) (t : ChangeTick) : ChangePhase → MemoryDb × ChangePhase
  | .upsert =>
    match db.snapshot? db.effective with
    | none => (db, .raised (.step .baseMissing))
    | some base =>
      if base.payloadSha256 = q.payloadSha256 ∧ base.state = .active then
        (db, .returned base.id .active)
      else (db.upsertOnlineCandidate t.id q, .early (db.onlineCandidate t.id q))
  | .early c => db.after (db.row c) .raised fun row =>
      -- a blocked manifest is left to the repair
      (db, if row.state = .postPublishBlocked then .returned c .postPublishBlocked
        else .slot c row.state)
  | .slot c early => (db, db.slotPhase t.now o.owner c early)
  | .drain c => db.after (db.publishDrain t.now o.lease c o.owner) .raised fun db' =>
      (db', .drained ⟨c, db'.head.fence, o.owner⟩)
  | .drained r => db.after (db.row r.candidate) .raised fun row =>
      (db, if row.state = .draft then .wait r else .resume r)
  | .wait r => db.after (db.checkTuple t.now r) .raised fun _ => (db, db.waitPhase t.late r)
  | .cancel r e => db.after (db.cancelDrain t.now r) .raised fun db' => (db', .raised e)
  | .confirm r =>
    if t.gate then
      db.after (db.confirmDrain t.now r) .raised fun db' => (db', .resume r)
    else (db, if t.late then .cancel r .gateTimedOut else .confirm r)
  | .resume r => db.after (db.row r.candidate) .raised fun row => (db, .ofState r row.state)
  | .freeze r => db.after (db.freezeCohort t.now r) (.caught r) fun db' => (db', .prepare r 0)
  | .prepare r prepared =>
    db.after (db.row r.candidate >>= db.baseRow) (.caught r) fun _ =>
      if db.nextBatch prepared o.prepareBatch = [] then (db, .verify r)
      else
        db.after (db.prepareHeads t.now r prepared o.prepareBatch) (.caught r) fun db' =>
          (db', .prepare r (prepared + (db.nextBatch prepared o.prepareBatch).length))
  | .verify r => db.after (db.verifyAndSeal digest t.now r) (.caught r) fun db' =>
      (db', .sealed r)
  | .sealed r => db.after (db.row r.candidate) (.caught r) fun row =>
      (db, .ofSealed r row.state)
  | .publish r => db.after (db.publishReady t.now r) (.caught r) fun db' => (db', .flip r)
  | .flip r => db.after (db.flip t.now r) (.caught r) fun db' => (db', .gate r)
  | .gate r =>
    if t.gate then (db, .postPublish r maxPostPublishBatches)
    else db.after (db.row r.candidate) (.caught r) fun row =>
      (db, .returned r.candidate row.state)
  | .postPublish r 0 => db.after (db.row r.candidate) (.caught r) fun row =>
      (db, .ofPublished r row.state)
  | .postPublish r (n + 1) =>
    db.after (db.runPostPublish t.now r postPublishBatch) (.backoff r) fun p =>
      (p.1, match p.2 with
        | .completed _ => .returned r.candidate .active
        | .batch _ _ => .postPublish r n
        | .deferred state => .returned r.candidate state
        | .superseded => .caught r (.postPublishEnded .superseded))
  | .backoff r e => db.after (db.postPublishFailed t.now r t.retryAt) .raised fun db' =>
      (db', if db.isLastAttempt t.now r then .returned r.candidate .postPublishBlocked
        else .caught r e)
  | .handler r e => db.after (db.row r.candidate) .raised fun row =>
      (db, if row.state ∈ terminal then .raised e else .cleanup r e)
  | .cleanup r e => db.after (db.failActivation t.now r) .raised fun db' => (db', .raised e)
  | .returned c state => (db, .returned c state)
  | .raised e => (db, .raised e)

end MemoryDb

end Noezema.Memory
