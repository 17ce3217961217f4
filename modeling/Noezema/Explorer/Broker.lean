import Mathlib.Tactic.Linarith
import Noezema.Lib.CodePoints

/-! # The tool broker

`execute` hands an authorized call to the sandbox, once for each attempt the repeatability
class allows. What an attempt meets is data: the result of the command, and what the engine's
command line answers each time it is asked whether the container runs. A command line that
fails counts as "not running": the code does not tell the two apart.
-/

namespace Noezema.Explorer

open Noezema.Lib PyText

/-! ## Tools -/

inductive IdempotencyClass where
  | pure
  | observation
  | idempotent
  | nonIdempotent
deriving DecidableEq, Repr

/-- `RETRY_POLICY`: the attempts after the first. -/
def retryPolicy : IdempotencyClass → Nat
  | .pure => 2
  | .idempotent => 1
  | .observation => 0
  | .nonIdempotent => 0

/-- The names of `_TOOLS`, and any other name. -/
inductive Tool where
  | workspaceRead
  | workspaceList
  | workspaceWrite
  | pythonExecute
  | shellExecute
  | memorySearch
  | researchFetch
  | webSearch
  | questionCreate
  | messageReply
  | unknown (name : String)
deriving DecidableEq, Repr

namespace Tool

def name : Tool → String
  | .workspaceRead => "workspace.read"
  | .workspaceList => "workspace.list"
  | .workspaceWrite => "workspace.write"
  | .pythonExecute => "python.execute"
  | .shellExecute => "shell.execute"
  | .memorySearch => "memory.search"
  | .researchFetch => "research.fetch"
  | .webSearch => "web.search"
  | .questionCreate => "question.create"
  | .messageReply => "message.reply"
  | .unknown name => name

/-- The class in the tool's spec; `get_tool` finds none for an unknown name. -/
def idempotencyClass : Tool → Option IdempotencyClass
  | .workspaceRead | .workspaceList | .memorySearch => some .pure
  | .workspaceWrite | .questionCreate | .messageReply => some .idempotent
  | .pythonExecute | .shellExecute | .researchFetch => some .nonIdempotent
  | .webSearch => some .observation
  | .unknown _ => none

/-- The tools whose command runs in the container. -/
def inContainer : Tool → Bool
  | .pythonExecute | .shellExecute => true
  | _ => false

end Tool

/-! ## Observations -/

/-- `Observation`, but for its data and notes. -/
structure Observation where
  ok : Bool
  error : Option String
  transient : Bool
  resultUnknown : Bool
  idempotencyClass : Option IdempotencyClass
  attempt : Nat
deriving DecidableEq, Repr

namespace Observation

def done : Observation := ⟨true, none, false, false, none, 0⟩

def failed (error : String) : Observation := ⟨false, some error, false, false, none, 0⟩

/-- `[:500]`. -/
def cut (error : String) : String := String.ofList (error.toList.take 500)

/-- `_container_gone`. -/
def containerGone : Observation :=
  { failed "container gone mid-execution" with resultUnknown := true }

end Observation

/-- What a call raises: `SandboxError` (a health error or another), `ValueError`, or
anything else. -/
inductive Raised where
  | sandbox (health : Bool) (message : String)
  | value (message : String)
  | other (message : String)
deriving DecidableEq, Repr

/-- One call of `inspect`: its exit code and what it prints, or what it raises. -/
inductive Look where
  | answered (code : Int) (out : PyText)
  | raises (e : Raised)
deriving DecidableEq

/-- `is_running`. -/
def Look.isRunning : Look → Except Raised Bool
  | .answered code out => .ok (code = 0 && strip out = lit "true")
  | .raises e => .error e

/-- What a tool of the host returns; it knows its outcome. -/
structure HostResult where
  ok : Bool
  error : Option String
  transient : Bool
deriving DecidableEq, Repr

def HostResult.observation (r : HostResult) : Observation :=
  ⟨r.ok, r.error, r.transient, false, none, 0⟩

structure ExecResult where
  exitCode : Int
  timedOut : Bool
deriving DecidableEq, Repr

/-- What one attempt meets: the command's result, the answers of the engine in the order it
is asked, and, for a tool of the host, its result. -/
structure AttemptWorld where
  exec : Except Raised ExecResult
  look : Nat → Look
  direct : Except Raised HostResult

/-! ## One attempt -/

/-- How often `_await_container_death` asks: `0.1` added ten times stays below `1.0`. -/
def recheckLooks : Nat := 11

/-- `_await_container_death`, from the `i`-th look on. -/
def awaitContainerDeath (look : Nat → Look) (i : Nat) : Nat → Except (Raised × Nat) Bool
  | 0 => .ok false
  | n + 1 =>
    match (look i).isRunning with
    | .ok false => .ok true
    | .error e => .error (e, i + 1)
    | .ok true => awaitContainerDeath look (i + 1) n

/-- `exit_is_consistent_with_container_death`. -/
def exitIsConsistentWithContainerDeath (exitCode : Int) : Bool :=
  128 < exitCode || exitCode = 125

/-- `_sandbox_exec`. An error carries how many looks were made before it. -/
def sandboxExec (w : AttemptWorld) : Except (Raised × Nat) Observation :=
  match w.exec with
  | .error e => .error (e, 0)
  | .ok result =>
    if result.timedOut then .ok (.failed "timeout")
    else if result.exitCode = 0 then .ok .done
    else
      let failed := Observation.failed ("exit code " ++ toString result.exitCode)
      match (w.look 0).isRunning with
      | .error e => .error (e, 1)
      | .ok false => .ok .containerGone
      | .ok true =>
        if exitIsConsistentWithContainerDeath result.exitCode then
          match awaitContainerDeath w.look 1 recheckLooks with
          | .error e => .error e
          | .ok true => .ok .containerGone
          | .ok false => .ok failed
        else .ok failed

/-- After a `SandboxError`: whether the container is reported gone. A look that raises
proves nothing. -/
def goneAfterError (look : Nat → Look) (i : Nat) (health : Bool) : Bool :=
  match (look i).isRunning with
  | .ok false => true
  | .error _ => false
  | .ok true =>
    if health then false
    else
      match awaitContainerDeath look (i + 1) recheckLooks with
      | .ok gone => gone
      | .error _ => false

/-- The handlers of `_run_once`; `gone` is asked for a `SandboxError` only. -/
def handled (e : Raised) (gone : Bool → Bool) : Observation :=
  match e with
  | .sandbox health message =>
    { Observation.failed (Observation.cut ("sandbox: " ++ message)) with
      transient := !gone health
      resultUnknown := gone health }
  | .value message => .failed (Observation.cut message)
  | .other message =>
    { Observation.failed (Observation.cut ("broker: " ++ message)) with transient := true }

/-- `_run_once`. -/
def runOnce (tool : Tool) (klass : IdempotencyClass) (w : AttemptWorld) (attempt : Nat) :
    Observation :=
  let obs :=
    if tool.inContainer then
      match sandboxExec w with
      | .ok obs => obs
      | .error (e, i) => handled e (goneAfterError w.look i)
    else
      match w.direct with
      | .ok result => result.observation
      | .error e => handled e fun _ => false
  { obs with idempotencyClass := some klass, attempt := attempt }

/-! ## The attempts -/

/-- The loop of `execute`: the observations of the attempts made, at most `n`. -/
def attemptsFrom (tool : Tool) (klass : IdempotencyClass) (world : Nat → AttemptWorld)
    (k : Nat) : Nat → List Observation
  | 0 => []
  | n + 1 =>
    let obs := runOnce tool klass (world k) k
    if obs.ok || !obs.transient then [obs] else obs :: attemptsFrom tool klass world (k + 1) n

def attempts (tool : Tool) (klass : IdempotencyClass) (world : Nat → AttemptWorld) :
    List Observation :=
  attemptsFrom tool klass world 0 (retryPolicy klass + 1)

/-- `execute`. -/
def execute (tool : Tool) (world : Nat → AttemptWorld) : Observation :=
  match tool.idempotencyClass with
  | none => .failed ("unknown tool: " ++ tool.name)
  | some klass => (attempts tool klass world).getLastD (.failed "")

/-! ## What an unknown outcome rests on -/

theorem awaitContainerDeath_gone {look : Nat → Look} {n i : Nat}
    (h : awaitContainerDeath look i n = .ok true) :
    ∃ j, i ≤ j ∧ j < i + n ∧ (look j).isRunning = .ok false := by
  induction n generalizing i with
  | zero => cases h
  | succ n ih =>
    unfold awaitContainerDeath at h
    split at h
    · rename_i hlook
      exact ⟨i, le_rfl, by omega, hlook⟩
    · cases h
    · obtain ⟨j, hle, hlt, hlook⟩ := ih h
      exact ⟨j, by omega, by omega, hlook⟩

/-- No death within the window: every look of it found the container running. -/
theorem awaitContainerDeath_running {look : Nat → Look} {n i : Nat}
    (h : awaitContainerDeath look i n = .ok false) :
    ∀ j, i ≤ j → j < i + n → (look j).isRunning = .ok true := by
  induction n generalizing i with
  | zero =>
    intro j hle hlt
    omega
  | succ n ih =>
    unfold awaitContainerDeath at h
    split at h
    · cases h
    · cases h
    · rename_i hlook
      intro j hle hlt
      rcases Nat.eq_or_lt_of_le hle with rfl | hlater
      · exact hlook
      · exact ih h j hlater (by omega)

/-- Only a look that raises makes the window raise. -/
theorem awaitContainerDeath_error {look : Nat → Look} {n i : Nat} {e : Raised × Nat}
    (h : awaitContainerDeath look i n = .error e) : ∃ j, (look j).isRunning = .error e.1 := by
  induction n generalizing i with
  | zero => cases h
  | succ n ih =>
    unfold awaitContainerDeath at h
    split at h
    · cases h
    · rename_i hlook
      cases h
      exact ⟨i, hlook⟩
    · exact ih h

theorem goneAfterError_gone {look : Nat → Look} {i : Nat} {health : Bool}
    (h : goneAfterError look i health = true) : ∃ j, (look j).isRunning = .ok false := by
  unfold goneAfterError at h
  split at h
  · rename_i hlook
    exact ⟨i, hlook⟩
  · cases h
  · split at h
    · cases h
    · split at h
      · rename_i hdeath
        subst h
        obtain ⟨j, -, -, hlook⟩ := awaitContainerDeath_gone hdeath
        exact ⟨j, hlook⟩
      · cases h

/-- What `_sandbox_exec` returns: a failure that is not transient, unknown only if a look
found the container gone, or a success. -/
theorem sandboxExec_spec {w : AttemptWorld} {obs : Observation} (h : sandboxExec w = .ok obs) :
    obs.transient = false ∧
      (obs.resultUnknown = true → obs.ok = false ∧ ∃ j, (w.look j).isRunning = .ok false) := by
  unfold sandboxExec at h
  split at h
  · cases h
  · split at h
    · cases h
      exact ⟨rfl, fun hu => nomatch hu⟩
    split at h
    · cases h
      exact ⟨rfl, fun hu => nomatch hu⟩
    split at h
    · cases h
    · rename_i hlook
      cases h
      exact ⟨rfl, fun _ => ⟨rfl, 0, hlook⟩⟩
    · split at h
      · split at h
        · cases h
        · rename_i hdeath
          cases h
          obtain ⟨j, -, -, hlook⟩ := awaitContainerDeath_gone hdeath
          exact ⟨rfl, fun _ => ⟨rfl, j, hlook⟩⟩
        · cases h
          exact ⟨rfl, fun hu => nomatch hu⟩
      · cases h
        exact ⟨rfl, fun hu => nomatch hu⟩

theorem handled_spec (e : Raised) (gone : Bool → Bool) :
    (handled e gone).ok = false ∧
      ((handled e gone).resultUnknown = true →
        (handled e gone).transient = false ∧ ∃ health, gone health = true) := by
  cases e with
  | sandbox health message =>
    refine ⟨rfl, fun hu => ?_⟩
    have hgone : gone health = true := hu
    exact ⟨by simp [handled, hgone], health, hgone⟩
  | value message => exact ⟨rfl, fun hu => nomatch hu⟩
  | other message => exact ⟨rfl, fun hu => nomatch hu⟩

/-- An unknown outcome is one of the container, rests on an answer of the engine, and is
neither a success nor a failure to retry. -/
theorem runOnce_unknown {tool : Tool} {klass : IdempotencyClass} {w : AttemptWorld} {k : Nat}
    (h : (runOnce tool klass w k).resultUnknown = true) :
    tool.inContainer = true ∧ (runOnce tool klass w k).ok = false ∧
      (runOnce tool klass w k).transient = false ∧ ∃ j, (w.look j).isRunning = .ok false := by
  unfold runOnce at h ⊢
  by_cases hin : tool.inContainer = true
  · refine ⟨hin, ?_⟩
    simp only [hin, if_true] at h ⊢
    split at h
    · rename_i obs hexec
      obtain ⟨htransient, hunknown⟩ := sandboxExec_spec hexec
      obtain ⟨hok, hlook⟩ := hunknown h
      exact ⟨hok, htransient, hlook⟩
    · rename_i e i hexec
      obtain ⟨hok, hunknown⟩ := handled_spec e (goneAfterError w.look i)
      obtain ⟨htransient, health, hgone⟩ := hunknown h
      exact ⟨hok, htransient, goneAfterError_gone hgone⟩
  · simp only [hin, Bool.false_eq_true, if_false] at h
    split at h
    · cases h
    · rename_i e hdirect
      obtain ⟨-, hunknown⟩ := handled_spec e fun _ => false
      obtain ⟨-, health, hgone⟩ := hunknown h
      cases hgone

/-- The command has ended in a way a dying container explains: it failed, or the engine
did. -/
def AttemptWorld.MayHaveDied (w : AttemptWorld) : Prop :=
  (∃ health message, w.exec = .error (.sandbox health message)) ∨
    ∃ result, w.exec = .ok result ∧ result.timedOut = false ∧ result.exitCode ≠ 0

/-- A container that is gone when it is first looked at makes the outcome unknown. -/
theorem runOnce_gone {tool : Tool} {klass : IdempotencyClass} {w : AttemptWorld} {k : Nat}
    (hin : tool.inContainer = true) (hmay : w.MayHaveDied)
    (hgone : (w.look 0).isRunning = .ok false) :
    (runOnce tool klass w k).resultUnknown = true := by
  rcases hmay with ⟨health, message, hexec⟩ | ⟨result, hexec, htimed, hcode⟩
  · simp [runOnce, hin, sandboxExec, hexec, handled, goneAfterError, hgone]
  · simp [runOnce, hin, sandboxExec, hexec, htimed, hcode, hgone, Observation.containerGone]

/-- After an exit a kill explains, the outcome is unknown just when one of the looks of the
window does not find the container running. -/
theorem runOnce_killed_iff {tool : Tool} {klass : IdempotencyClass} {w : AttemptWorld}
    {k : Nat} {result : ExecResult} (hin : tool.inContainer = true)
    (hexec : w.exec = .ok result) (htimed : result.timedOut = false)
    (hcode : result.exitCode ≠ 0)
    (hkill : exitIsConsistentWithContainerDeath result.exitCode = true)
    (hlooks : ∀ j e, (w.look j).isRunning ≠ .error e) :
    (runOnce tool klass w k).resultUnknown = true ↔
      ∃ j, j < 1 + recheckLooks ∧ (w.look j).isRunning = .ok false := by
  rcases hfirst : (w.look 0).isRunning with e | running
  · exact absurd hfirst (hlooks 0 e)
  cases running with
  | false =>
    have hunknown : (runOnce tool klass w k).resultUnknown = true :=
      runOnce_gone hin (.inr ⟨result, hexec, htimed, hcode⟩) hfirst
    exact iff_of_true hunknown ⟨0, by omega, hfirst⟩
  | true =>
    cases hdeath : awaitContainerDeath w.look 1 recheckLooks with
    | error e =>
      obtain ⟨j, hj⟩ := awaitContainerDeath_error hdeath
      exact absurd hj (hlooks j e.1)
    | ok died =>
      have hunknown : (runOnce tool klass w k).resultUnknown = died := by
        cases died <;>
          simp [runOnce, hin, sandboxExec, hexec, htimed, hcode, hfirst, hkill, hdeath,
            Observation.containerGone, Observation.failed]
      rw [hunknown]
      cases died with
      | true =>
        obtain ⟨j, -, hlt, hlook⟩ := awaitContainerDeath_gone hdeath
        exact iff_of_true rfl ⟨j, hlt, hlook⟩
      | false =>
        refine iff_of_false (by decide) fun hsome => ?_
        obtain ⟨j, hlt, hlook⟩ := hsome
        rcases Nat.eq_zero_or_pos j with rfl | hpos
        · rw [hfirst] at hlook
          cases hlook
        · rw [awaitContainerDeath_running hdeath j hpos hlt] at hlook
          cases hlook

/-! ## What the attempts of a call promise -/

/-- The attempts made: those before the last one failed transiently. -/
theorem attemptsFrom_spec (tool : Tool) (klass : IdempotencyClass)
    (world : Nat → AttemptWorld) (n k : Nat) :
    ∃ init : List Observation, init.length ≤ n ∧
      (∀ o ∈ init, o.ok = false ∧ o.transient = true) ∧
      (∀ o ∈ init, ∃ i, o = runOnce tool klass (world i) i) ∧
      attemptsFrom tool klass world k (n + 1) =
        init ++ [runOnce tool klass (world (k + init.length)) (k + init.length)] := by
  induction n generalizing k with
  | zero =>
    refine ⟨[], le_rfl, by simp, by simp, ?_⟩
    simp [attemptsFrom]
  | succ n ih =>
    by_cases hstop : ((runOnce tool klass (world k) k).ok ||
        !(runOnce tool klass (world k) k).transient) = true
    · refine ⟨[], Nat.zero_le _, by simp, by simp, ?_⟩
      rw [attemptsFrom]
      simp [hstop]
    · obtain ⟨init, hlen, hfailed, hmade, heq⟩ := ih (k + 1)
      have hretry : (runOnce tool klass (world k) k).ok = false ∧
          (runOnce tool klass (world k) k).transient = true := by
        simpa using hstop
      refine ⟨runOnce tool klass (world k) k :: init, ?_, ?_, ?_, ?_⟩
      · simpa using hlen
      · intro o ho
        rcases List.mem_cons.mp ho with rfl | ho
        · exact hretry
        · exact hfailed o ho
      · intro o ho
        rcases List.mem_cons.mp ho with rfl | ho
        · exact ⟨k, rfl⟩
        · exact hmade o ho
      · rw [attemptsFrom]
        simp only [hstop, heq, List.length_cons, List.cons_append]
        have hidx : k + 1 + init.length = k + (init.length + 1) := by omega
        rw [hidx]
        rfl

/-- A command in the container is never run a second time. -/
theorem inContainer_once {tool : Tool} {klass : IdempotencyClass}
    (hin : tool.inContainer = true) (hclass : tool.idempotencyClass = some klass) :
    retryPolicy klass = 0 := by
  cases tool with
  | pythonExecute | shellExecute =>
    cases hclass
    rfl
  | workspaceRead | workspaceList | workspaceWrite | memorySearch | researchFetch | webSearch
  | questionCreate | messageReply | unknown _ => cases hin

/-- **A call is attempted at most as often as its class allows, and never after an unknown
outcome**: every attempt but the last failed transiently, with a known outcome; the outcome
is unknown only when a look came back without finding the container running, and it is
unknown whenever the first look after a command that failed does. After an exit a kill
explains, and when no look raises, the outcome is unknown just when one look of the window
does not find it running. -/
theorem execute_attempts {tool : Tool} {klass : IdempotencyClass} {world : Nat → AttemptWorld}
    (hclass : tool.idempotencyClass = some klass) :
    (attempts tool klass world).length ≤ retryPolicy klass + 1 ∧
      (∀ o ∈ (attempts tool klass world).dropLast,
        o.ok = false ∧ o.transient = true ∧ o.resultUnknown = false) ∧
      ((execute tool world).resultUnknown = true →
        tool.inContainer = true ∧ (execute tool world).ok = false ∧
          ∃ k j, k < (attempts tool klass world).length ∧ ((world k).look j).isRunning = .ok false) ∧
      (tool.inContainer = true → (world 0).MayHaveDied → ((world 0).look 0).isRunning = .ok false →
        (attempts tool klass world).length = 1 ∧ (execute tool world).resultUnknown = true) ∧
      (tool.inContainer = true → ∀ result, (world 0).exec = .ok result →
        result.timedOut = false → result.exitCode ≠ 0 →
        exitIsConsistentWithContainerDeath result.exitCode = true →
        (∀ j e, ((world 0).look j).isRunning ≠ .error e) →
        ((execute tool world).resultUnknown = true ↔
          ∃ j, j < 1 + recheckLooks ∧ ((world 0).look j).isRunning = .ok false)) := by
  obtain ⟨init, hlen, hfailed, hmade, heq⟩ :=
    attemptsFrom_spec tool klass world (retryPolicy klass) 0
  have htrace : attempts tool klass world =
      init ++ [runOnce tool klass (world init.length) init.length] := by
    rw [attempts, heq, Nat.zero_add]
  have hlast : execute tool world = runOnce tool klass (world init.length) init.length := by
    simp [execute, hclass, htrace]
  have honce : tool.inContainer = true → init = [] := by
    intro hin
    have hnone : retryPolicy klass = 0 := inContainer_once hin hclass
    exact List.eq_nil_of_length_eq_zero (by omega)
  refine ⟨?_, ?_, ?_, ?_, ?_⟩
  · simpa [htrace] using hlen
  · intro o ho
    rw [htrace, List.dropLast_concat] at ho
    obtain ⟨hok, htransient⟩ := hfailed o ho
    obtain ⟨i, rfl⟩ := hmade o ho
    refine ⟨hok, htransient, ?_⟩
    by_contra hunknown
    obtain ⟨-, -, hnot, -⟩ := runOnce_unknown (by simpa using hunknown)
    rw [htransient] at hnot
    cases hnot
  · intro hunknown
    rw [hlast] at hunknown ⊢
    obtain ⟨hin, hok, -, j, hj⟩ := runOnce_unknown hunknown
    exact ⟨hin, hok, init.length, j, by simp [htrace], hj⟩
  · intro hin hmay hgone
    have hfirst : (runOnce tool klass (world 0) 0).resultUnknown = true :=
      runOnce_gone hin hmay hgone
    have hempty := honce hin
    subst hempty
    exact ⟨by simp [htrace], by rw [hlast]; exact hfirst⟩
  · intro hin result hexec htimed hcode hkill hlooks
    have hempty := honce hin
    subst hempty
    rw [hlast]
    exact runOnce_killed_iff hin hexec htimed hcode hkill hlooks

/-- A command that exits with 137 in a container that is seen dead on the third look. -/
def killedWorld : AttemptWorld where
  exec := .ok ⟨137, false⟩
  look := fun i => .answered 0 (if i < 2 then lit "true\n" else lit "false\n")
  direct := .error (.value "")

theorem execute_attempts_killed :
    (attempts .shellExecute .nonIdempotent fun _ => killedWorld).length ≤ 1 ∧
      (execute .shellExecute fun _ => killedWorld).resultUnknown = true := by
  obtain ⟨honce, -, -, -, hkilled⟩ :=
    @execute_attempts .shellExecute .nonIdempotent (fun _ => killedWorld) rfl
  refine ⟨honce, (hkilled rfl _ rfl rfl (by decide) (by decide) ?_).mpr ⟨2, by decide, ?_⟩⟩
  · intro j e h
    cases h
  · exact congrArg Except.ok (by decide)

end Noezema.Explorer
