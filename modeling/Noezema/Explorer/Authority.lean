import Noezema.Explorer.Loop
import Noezema.Policy.Engine

/-! # The authority of a session

The loop executes a call when the policy engine has allowed it, under the profile the snapshot of
the session has narrowed. So whatever the model proposes in whatever order, what a session executes
was granted by the profile its operator named, with arguments that stay inside of it.
-/

namespace Noezema.Explorer

open Noezema.Lib
open Noezema.Memory (Text TextReader)
open Noezema.Cognition (Coverage)
open Noezema.Domain (canonicalJsonBytes)
open Noezema.Policy

section Steps

variable {fl : FloatArith} {t : UrlTables} {rd : TextReader} {actors : Text → List String}
  {maxSteps : Nat} {l l' : Loop} {u : Turn}

/-- An execution that is new answers an allowed call. -/
structure Admits (l l' : Loop) (u : Turn) : Prop where
  executed : ∀ e ∈ l'.executed, e ∈ l.executed ∨
    (u.answer = some (.tool e.call) ∧ u.evaluation.decision = .allow)

theorem Admits.kept (h : l'.executed = l.executed) : Admits l l' u :=
  ⟨fun _ he => .inl (h ▸ he)⟩

theorem evaluated_admits {call : ToolCall} (hanswer : u.answer = some (.tool call)) :
    Admits l (l.evaluated t rd actors u call) u := by
  unfold Loop.evaluated
  split
  · exact .kept rfl
  · rename_i hallow
    have happended : ∀ obs (l' : Loop), l'.executed = l.executed ++ [⟨call, obs, l.step⟩] →
        Admits l l' u := by
      intro obs l' heq
      constructor
      intro e he
      rw [heq] at he
      rcases List.mem_append.mp he with he | he
      · exact .inl he
      · rw [List.mem_singleton.mp he]
        exact .inr ⟨hanswer, not_not.mp hallow⟩
    split
    · exact .kept rfl
    · split
      · exact happended _ _ rfl
      · split
        · exact happended _ _ rfl
        · exact happended _ _ rfl

theorem body_admits : Admits l (l.body fl t rd actors u) u := by
  unfold Loop.body
  split
  · exact .kept rfl
  split
  · exact .kept rfl
  split
  · exact .kept rfl
  split
  · exact .kept rfl
  · unfold Loop.completed
    split
    · exact .kept rfl
    · exact .kept rfl
  · rename_i call hanswer
    unfold Loop.called
    split
    · exact .kept rfl
    · exact .kept rfl
    · exact evaluated_admits hanswer

/-- What an event of the loop admits. -/
theorem loopStep_admits {e : LoopEvent} (h : loopStep fl t rd actors maxSteps l e = some l') :
    ∀ x ∈ l'.executed, x ∈ l.executed ∨
      ∃ u, e = .turn u ∧ u.answer = some (.tool x.call) ∧ u.evaluation.decision = .allow := by
  cases e with
  | turn u =>
    simp only [loopStep] at h
    split at h
    · cases h
      intro x hx
      rcases (body_admits (l := { l with step := l.step + 1 })).executed x hx with hx | hx
      · exact .inl hx
      · exact .inr ⟨u, rfl, hx⟩
    · cases h
  | exhaust =>
    simp only [loopStep] at h
    split at h
    · cases h
      intro x hx
      exact .inl hx
    · cases h

end Steps

/-! ## Turns of the engine -/

section Runs

variable {φ : Type} (texts : EngineTexts) (numbers : NumberText φ)

/-- The evaluation of a call, on arguments that have its hash and the messages of the session. -/
structure Evaluates (profile : Capabilities) (messages : List PyText) (call : ToolCall)
    (evaluation : PolicyEvaluation) (arguments : Arguments φ) : Prop where
  hash : call.argumentsHash = texts.sha256 (canonicalJsonBytes numbers arguments.payload)
  evaluation_eq : evaluation =
    (evaluate texts numbers profile call.tool arguments messages).toPolicyEvaluation

/-- Every call is evaluated by the engine of a profile, against the messages of the session. -/
def EngineTurn (profile : Capabilities) (messages : List PyText) (_ : Loop) : LoopEvent → Prop
  | .turn u => ∀ call, u.answer = some (.tool call) → ∃ arguments,
      Evaluates texts numbers profile messages call u.evaluation arguments
  | .exhaust => True

/-- What an executed call was let through with. -/
structure Granted (ceiling : Capabilities) (messages : List PyText) (call : ToolCall)
    (arguments : Arguments φ) (spec : ToolSpec) : Prop where
  hash : call.argumentsHash = texts.sha256 (canonicalJsonBytes numbers arguments.payload)
  authorized : Authorized ceiling call.tool arguments messages spec
  shown : ⟨call.tool.name, spec.argsModel⟩ ∈ modelToolsSchema ceiling
  inside : ∀ arg ∈ spec.pathArgs, ∀ raw,
    (dumpArguments spec.argsModel arguments).lookup arg = some raw →
      ∃ r ∈ ceiling.roots spec.pathMode, inRoot (normpath (containerText raw)) r = true ∧
        (UnderWorkspace r → (∀ c ∈ containerPath raw, PlainName c) ∧
          normpath (containerText raw) = absoluteForm (containerPath raw))

variable {texts numbers}
variable {fl : FloatArith} {t : UrlTables} {rd : TextReader} {actors : Text → List String}
  {tracker : ActorSearchTracker} {coverage : Option Coverage} {maxSteps : Nat} {l : Loop}
  {p ceiling : Capabilities} {messages : List PyText} {files : String → Option SandboxProfile}
  {policy : SnapshotPolicy}

theorem Evaluates.granted {call : ToolCall} {evaluation : PolicyEvaluation}
    {arguments : Arguments φ} (hnarrow : Narrower p ceiling)
    (h : Evaluates texts numbers p messages call evaluation arguments)
    (hallow : evaluation.decision = .allow) :
    ∃ spec, Granted texts numbers ceiling messages call arguments spec := by
  rw [h.evaluation_eq] at hallow
  obtain ⟨spec, hp⟩ := evaluate_allow_iff.mp hallow
  have hceiling := hp.narrower hnarrow
  refine ⟨spec, h.hash, hceiling, mem_modelToolsSchema hceiling.known hceiling.granted, ?_⟩
  intro arg harg raw hraw
  obtain ⟨r, hr, hin⟩ := checkPath_root (hceiling.inRoots arg harg raw hraw)
  refine ⟨r, hr, hin, ?_⟩
  intro hunder
  obtain ⟨hplain, -, hnorm⟩ := inRoot_workspace hunder hin
  exact ⟨hplain, hnorm⟩

/-- **A session stays inside the profile its operator named**: in every run of the loop under the
engine of its narrowed profile, every executed call was granted by the whole profile, and copies
none of the messages of the session. -/
theorem session_inside_profile (hprofile : effectiveProfile files policy = .ok p)
    (hrun : Run (loopStep fl t rd actors maxSteps) (EngineTurn texts numbers p messages)
      (.start tracker coverage) l) :
    ∃ ceiling, loadProfile files (policy.accessProfile.getD "sealed") = some ceiling ∧
      ∀ e ∈ l.executed, ∃ arguments spec,
        Granted texts numbers ceiling messages e.call arguments spec := by
  obtain ⟨ceiling, hload, hnarrow⟩ := effectiveProfile_narrower hprofile
  refine ⟨ceiling, hload, ?_⟩
  induction hrun with
  | nil => exact List.forall_mem_nil _
  | snoc _ hguard hstep ih =>
    intro e he
    rcases loopStep_admits hstep e he with he | ⟨u, rfl, hanswer, hallow⟩
    · exact ih e he
    · obtain ⟨arguments, heval⟩ := hguard e.call hanswer
      obtain ⟨spec, hgranted⟩ := heval.granted hnarrow hallow
      exact ⟨arguments, spec, hgranted⟩

end Runs

/-! ## A session that writes -/

def noText (x : Empty) : List Char := x.elim

theorem noText_inj (x y : Empty) (_ : noText x = noText y) : x = y := x.elim

theorem noText_start (x : Empty) :
    ∃ c rest, noText x = c :: rest ∧ isNumberStart c = true := x.elim

theorem noText_chars (x : Empty) : ∀ c ∈ noText x, isDelimiter c = false := x.elim

theorem noText_ne (x : Empty) : ∀ n, noText x ≠ intText n := x.elim

/-- No number but the integers. -/
def noNumbers : NumberText Empty where
  text := noText
  text_inj := noText_inj
  start := noText_start
  chars := noText_chars
  not_int := noText_ne

def constantTexts : EngineTexts where
  reason _ := []
  sha256 _ := "d2c1"

/-- A snapshot that grants the shell and the writes. -/
def writerPolicy : SnapshotPolicy := ⟨none, some ["shell.execute", "workspace.write"], none⟩

def writerProfile : Capabilities :=
  { shellProfile with tools := ["shell.execute", "workspace.write"] }

theorem writerProfile_effective : effectiveProfile sealedFiles writerPolicy = .ok writerProfile :=
  rfl

def notePath : List Char := "notes/../rates.md".toList

def noteFields : JsonTerm Empty .fields :=
  .field "path".toList (.str notePath) (.field "content".toList (.str ['x']) .noField)

theorem noteFields_distinct : noteFields.Distinct := by
  refine ⟨?_, trivial, List.not_mem_nil, trivial, trivial⟩
  decide

/-- `{"path": "notes/../rates.md", "content": "x"}`. -/
def noteArguments : Arguments Empty where
  fields := noteFields
  distinct := noteFields_distinct

def noteCall : ToolCall := ⟨.workspaceWrite, "d2c1", [], []⟩

/-- The operator's message. -/
def rateMessages : List PyText := [PyText.lit "compare the key rates of the two banks for 2024"]

def noteEvents : List LoopEvent :=
  [.turn (allowedTurn noteCall "a" .done), .turn (allowedTurn noteCall "b" .done)]

theorem note_engineTurn (turnId : String) (obs : Observation) (l : Loop) :
    EngineTurn constantTexts noNumbers writerProfile rateMessages l
      (.turn (allowedTurn noteCall turnId obs)) := by
  intro call hcall
  cases hcall
  exact ⟨noteArguments, rfl, rfl⟩

theorem session_inside_profile_writer :
    ∃ l, exec (loopStep .exact asciiTables Memory.plainReaders.text (fun _ => []) 3)
        (.start ⟨[], ∅, none⟩ none) noteEvents = some l ∧ l.executed.length = 2 ∧
      ∃ ceiling, loadProfile sealedFiles "sealed" = some ceiling ∧
        ∀ e ∈ l.executed, ∃ arguments spec,
          Granted constantTexts noNumbers ceiling rateMessages e.call arguments spec := by
  have hrun : ∃ l, exec (loopStep .exact asciiTables Memory.plainReaders.text (fun _ => []) 3)
      (.start ⟨[], ∅, none⟩ none) noteEvents = some l ∧ l.executed.length = 2 := ⟨_, rfl, rfl⟩
  obtain ⟨l, hl, hlen⟩ := hrun
  have hguarded : Run (loopStep .exact asciiTables Memory.plainReaders.text (fun _ => []) 3)
      (EngineTurn constantTexts noNumbers writerProfile rateMessages)
      (.start ⟨[], ∅, none⟩ none) l := by
    apply Run.of_exec_guarded _ hl
    intro e he a
    rcases List.mem_cons.mp he with rfl | he
    · exact note_engineTurn "a" .done a
    · rw [List.mem_singleton.mp he]
      exact note_engineTurn "b" .done a
  exact ⟨l, hl, hlen, session_inside_profile writerProfile_effective hguarded⟩

end Noezema.Explorer
