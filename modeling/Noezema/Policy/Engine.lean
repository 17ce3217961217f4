import Mathlib.Data.List.Sort
import Noezema.Domain.Canonical
import Noezema.Explorer.Broker
import Noezema.Policy.Paths
import Noezema.Policy.Similarity

/-! # The policy engine

A tool call is authorized against the capability profile of the session: the tool is known and
granted, its arguments have the fields of its schema, its paths stay under the roots, no address
is in an argument where the network is off, and no argument copies an untrusted text. What is
allowed is what passed all of it (`evaluate_allow_iff`).

The profile of a session is the one of its access profile with fewer tools and fewer writable
roots. It allows nothing the whole profile would not (`snapshot_only_narrows`).

The arguments are the JSON object of the decision; one with a lone surrogate is not hashed.
-/

namespace Noezema.Policy

open Noezema.Lib
open Noezema.Domain (Payload canonicalJsonBytes)
open Noezema.Explorer (Tool)

/-! ## Tools -/

/-- A string field of an arguments model: `default` is none where it is required. -/
structure ArgField where
  name : List Char
  minLength : Nat
  maxLength : Nat
  default : Option (List Char)

/-- A required field. -/
def requiredField (name : String) (maxLength : Nat) : ArgField := ⟨name.toList, 1, maxLength, none⟩

def pathName : List Char := ['p', 'a', 't', 'h']

def workspaceReadArgs : List ArgField := [requiredField "path" 1000]

def workspaceListArgs : List ArgField := [⟨pathName, 0, 1000, some ['.']⟩]

def workspaceWriteArgs : List ArgField :=
  [requiredField "path" 1000, ⟨"content".toList, 0, 1000000, some []⟩]

def pythonExecuteArgs : List ArgField := [requiredField "code" 100000]

def shellExecuteArgs : List ArgField := [requiredField "command" 10000]

def memorySearchArgs : List ArgField := [requiredField "query" 1000]

def researchFetchArgs : List ArgField := [requiredField "url" 2000]

def webSearchArgs : List ArgField := [requiredField "query" 500]

def questionCreateArgs : List ArgField :=
  [requiredField "text" 2000, ⟨"origin".toList, 0, 50, some "model_proposal".toList⟩]

def messageReplyArgs : List ArgField := [requiredField "message_id" 64, requiredField "body" 2000]

/-- `ToolSpec`, but for its description and its repeatability class. -/
structure ToolSpec where
  argsModel : List ArgField
  pathArgs : List (List Char)
  pathMode : PathMode

/-- A tool without paths. -/
def plainSpec (argsModel : List ArgField) : ToolSpec := ⟨argsModel, [], .read⟩

/-- `get_tool`. -/
def getTool : Tool → Option ToolSpec
  | .workspaceRead => some ⟨workspaceReadArgs, [pathName], .read⟩
  | .workspaceList => some ⟨workspaceListArgs, [pathName], .read⟩
  | .workspaceWrite => some ⟨workspaceWriteArgs, [pathName], .write⟩
  | .pythonExecute => some (plainSpec pythonExecuteArgs)
  | .shellExecute => some (plainSpec shellExecuteArgs)
  | .memorySearch => some (plainSpec memorySearchArgs)
  | .researchFetch => some (plainSpec researchFetchArgs)
  | .webSearch => some (plainSpec webSearchArgs)
  | .questionCreate => some (plainSpec questionCreateArgs)
  | .messageReply => some (plainSpec messageReplyArgs)
  | .unknown _ => none

/-- `all_tools`: in the order of the names. -/
def allTools : List Tool :=
  [.memorySearch, .messageReply, .pythonExecute, .questionCreate, .researchFetch, .shellExecute,
    .webSearch, .workspaceList, .workspaceRead, .workspaceWrite]

/-! ## Profiles -/

inductive NetworkMode where
  | none
  | researchProxy
deriving DecidableEq, Repr

/-- `CapabilityProfile`, over its roots; its two fields that are always `deny` are left out. -/
structure Capabilities extends CapabilityProfile where
  name : String
  version : String
  tools : List String
  network : NetworkMode
  commandTimeoutSeconds : Nat
  workspaceQuotaMb : Nat

namespace Capabilities

variable (profile : Capabilities)

def policyVersion : String := profile.name ++ "-" ++ profile.version

def toolAllowed (tool : String) : Bool := profile.tools.contains tool

end Capabilities

/-- What a session reads of a profile's file. -/
structure SandboxProfile where
  name : String
  version : String
  network : String
  tools : List (String × Bool)
  writable : List (List Char)
  readable : List (List Char)
  timeoutSeconds : Nat
  maxFileSizeMb : Nat

/-- `NetworkMode(value)`. -/
def NetworkMode.ofValue (value : String) : Option NetworkMode :=
  if value = "none" then some .none
  else if value = "research_proxy" then some .researchProxy else Option.none

/-- `load_profile`; none where the file or its network is refused. -/
def loadProfile (files : String → Option SandboxProfile) (name : String) :
    Option Capabilities := do
  let sp ← files name
  let network ← NetworkMode.ofValue sp.network
  pure {
    name := sp.name
    version := sp.version
    tools := (sp.tools.filter (·.2)).map (·.1)
    writablePaths := sp.writable
    readablePaths := sp.readable
    network := network
    commandTimeoutSeconds := sp.timeoutSeconds
    workspaceQuotaMb := sp.maxFileSizeMb }

/-- The policy section of a config snapshot. -/
structure SnapshotPolicy where
  accessProfile : Option String
  tools : Option (List String)
  writePaths : Option (List (List Char))

inductive ProfileError where
  | unavailable (accessProfile : String)
  | toolsOutside (accessProfile : String) (extra : List String)
  | writePathOutside (path : List Char)
deriving DecidableEq

/-- `effective_profile`. -/
def effectiveProfile (files : String → Option SandboxProfile) (policy : SnapshotPolicy) :
    Except ProfileError Capabilities :=
  let accessProfile := policy.accessProfile.getD "sealed"
  match loadProfile files accessProfile with
  | none => .error (.unavailable accessProfile)
  | some ceiling =>
    let snapshotTools := policy.tools.getD []
    let extra := snapshotTools.filter fun tool => !ceiling.toolAllowed tool
    if extra ≠ [] then .error (.toolsOutside accessProfile (extra.dedup.insertionSort (· ≤ ·)))
    else
      let writePaths := policy.writePaths.getD ceiling.writablePaths
      match writePaths.find? fun p => !ceiling.writablePaths.contains p with
      | some p => .error (.writePathOutside p)
      | none =>
        .ok { ceiling with
          tools := snapshotTools
          writablePaths := ceiling.writablePaths.filter fun p => writePaths.contains p }

/-- A tool as the model is shown it. -/
structure ModelTool where
  name : String
  arguments : List ArgField

/-- `model_tools_schema`. -/
def modelToolsSchema (profile : Capabilities) : List ModelTool :=
  (allTools.filter fun tool => profile.toolAllowed tool.name).filterMap fun tool =>
    (getTool tool).map fun spec => ⟨tool.name, spec.argsModel⟩

/-! ## The checks -/

section Checks

variable {φ : Type}

/-- The arguments of a decision. -/
structure Arguments (φ : Type) where
  fields : JsonTerm φ .fields
  distinct : fields.Distinct

def Arguments.payload (arguments : Arguments φ) : Payload φ where
  tree := .obj arguments.fields
  distinct := arguments.distinct

inductive ArgumentFault where
  | missing
  | noString
  | tooShort (minLength : Nat)
  | tooLong (maxLength : Nat)
  | extraForbidden
deriving DecidableEq, Repr

/-- An error of `ValidationError.errors()`, with the field it is at. -/
structure ArgumentError where
  loc : List Char
  fault : ArgumentFault
deriving DecidableEq, Repr

/-- The validation of one field. -/
def validateField (field : ArgField) (arguments : Arguments φ) :
    Except ArgumentError (List Char) :=
  match arguments.fields.fieldValue field.name with
  | none =>
    match field.default with
    | some text => .ok text
    | none => .error ⟨field.name, .missing⟩
  | some (.str text) =>
    if text.length < field.minLength then .error ⟨field.name, .tooShort field.minLength⟩
    else if field.maxLength < text.length then .error ⟨field.name, .tooLong field.maxLength⟩
    else .ok text
  | some _ => .error ⟨field.name, .noString⟩

/-- The errors of `model_validate`: of the fields in their order, then of the keys that are no
field. -/
def argumentErrors (argsModel : List ArgField) (arguments : Arguments φ) : List ArgumentError :=
  argsModel.filterMap (fun field =>
    match validateField field arguments with
    | .error e => some e
    | .ok _ => none) ++
  (arguments.fields.keys.filter fun key => !(argsModel.map (·.name)).contains key).map
    fun key => ⟨key, .extraForbidden⟩

/-- `model_dump`. -/
def dumpArguments (argsModel : List ArgField) (arguments : Arguments φ) :
    List (List Char × List Char) :=
  argsModel.filterMap fun field =>
    match validateField field arguments with
    | .error _ => none
    | .ok text => some (field.name, text)

/-- A letter of `_URL_RE`, which ignores case. -/
def sameLetter (letter upper c : Char) : Bool := c = letter || c = upper

/-- The letter `s`, whose case the long s has too. -/
def isLetterS (c : Char) : Bool := sameLetter 's' 'S' c || c = 'ſ'

/-- A symbol of `[^\s'"<>]`. -/
def isUrlSymbol (c : Char) : Bool :=
  !((CodePoint.ofChar c).isSpace || c = '\'' || c = '"' || c = '<' || c = '>')

/-- `://` and a symbol. -/
def authorityAt : List Char → Bool
  | ':' :: '/' :: '/' :: c :: _ => isUrlSymbol c
  | _ => false

/-- `_URL_RE` at the beginning of a text. -/
def urlAt : List Char → Bool
  | h :: t :: u :: p :: rest =>
    sameLetter 'h' 'H' h && sameLetter 't' 'T' t && sameLetter 't' 'T' u && sameLetter 'p' 'P' p &&
      (authorityAt rest || (rest.head?.any isLetterS && authorityAt rest.tail))
  | _ => false

/-- `_URL_RE.search`. -/
def carriesUrl (value : List Char) : Bool := value.tails.any urlAt

/-- Why a call is denied. -/
inductive Denial where
  | unknownTool (tool : String)
  | notAllowed (profile tool : String)
  | argument (error : ArgumentError)
  | path (denied : PathDenied)
  | url (key : List Char)
deriving DecidableEq

/-- `_check_paths_and_network`. -/
def checkPathsAndNetwork (profile : Capabilities) (spec : ToolSpec)
    (args : List (List Char × List Char)) : List Denial :=
  spec.pathArgs.flatMap (fun arg =>
    match args.lookup arg with
    | some raw => (checkPath raw spec.pathMode profile.toCapabilityProfile).map .path
    | none => []) ++
  if profile.network = .none then
    match args.find? fun a => carriesUrl a.2 with
    | some a => [.url a.1]
    | none => []
  else []

/-- What is denied, and the values that are compared with the untrusted texts. -/
def checks (profile : Capabilities) (tool : Tool) (arguments : Arguments φ) :
    List Denial × List (Option PyText) :=
  match getTool tool with
  | none => ([.unknownTool tool.name], [])
  | some spec =>
    if profile.toolAllowed tool.name then
      let errors := argumentErrors spec.argsModel arguments
      if errors ≠ [] then ((errors.take 5).map .argument, [])
      else
        let args := dumpArguments spec.argsModel arguments
        (checkPathsAndNetwork profile spec args, args.map fun a => some (PyText.ofChars a.2))
    else ([.notAllowed profile.name tool.name], [])

/-- What an evaluation takes from outside: the text of a reason and the hash. -/
structure EngineTexts where
  reason : Denial → PyText
  sha256 : ByteArray → String

/-- `PolicyEvaluation` as it is recorded. -/
structure RecordedEvaluation extends PolicyEvaluation where
  tool : String
  argumentsHash : String
  profileVersion : String

/-- `evaluate`. -/
def evaluate (texts : EngineTexts) (numbers : NumberText φ) (profile : Capabilities) (tool : Tool)
    (arguments : Arguments φ) (externalTexts : List PyText) : RecordedEvaluation :=
  let found := checks profile tool arguments
  { toPolicyEvaluation := evaluateArguments (found.1.map texts.reason) found.2 externalTexts
    tool := tool.name
    argumentsHash := texts.sha256 (canonicalJsonBytes numbers arguments.payload)
    profileVersion := profile.policyVersion }

end Checks

/-! ## What is allowed -/

section Allowed

variable {φ : Type} {texts : EngineTexts} {numbers : NumberText φ} {profile p q : Capabilities}
  {tool : Tool} {arguments : Arguments φ} {externalTexts : List PyText} {spec : ToolSpec}

/-- Everything that was checked of a call. -/
structure Authorized (profile : Capabilities) (tool : Tool) (arguments : Arguments φ)
    (externalTexts : List PyText) (spec : ToolSpec) : Prop where
  known : getTool tool = some spec
  granted : tool.name ∈ profile.tools
  valid : argumentErrors spec.argsModel arguments = []
  inRoots : ∀ arg ∈ spec.pathArgs, ∀ raw,
    (dumpArguments spec.argsModel arguments).lookup arg = some raw →
      checkPath raw spec.pathMode profile.toCapabilityProfile = []
  offline : profile.network = .none →
    ∀ a ∈ dumpArguments spec.argsModel arguments, carriesUrl a.2 = false
  original : ∀ a ∈ dumpArguments spec.argsModel arguments,
    hasVerbatimOverlap (PyText.ofChars a.2) externalTexts = false

theorem toolAllowed_iff {name : String} :
    profile.toolAllowed name = true ↔ name ∈ profile.tools := List.contains_iff_mem

theorem evaluation_deny_iff {reasons : List PyText} {args : List (Option PyText)} :
    (evaluateArguments reasons args externalTexts).decision = .deny ↔ reasons ≠ [] := by
  rw [evaluateArguments, evaluation]
  dsimp only
  by_cases hreasons : reasons = []
  · rw [if_neg (not_not_intro hreasons)]
    split
    · exact iff_of_false (by decide) (not_not_intro hreasons)
    · exact iff_of_false (by decide) (not_not_intro hreasons)
  · rw [if_pos hreasons]
    exact iff_of_true rfl hreasons

theorem evaluation_allow_iff {reasons : List PyText} {args : List (Option PyText)} :
    (evaluateArguments reasons args externalTexts).decision = .allow ↔
      reasons = [] ∧ checkSimilarity args externalTexts = false := by
  rw [evaluateArguments, evaluation]
  dsimp only
  by_cases hreasons : reasons = []
  · rw [if_neg (not_not_intro hreasons)]
    cases hcopy : checkSimilarity args externalTexts with
    | true => exact iff_of_false (by decide) (fun h => by cases h.2)
    | false => exact iff_of_true rfl ⟨hreasons, rfl⟩
  · rw [if_pos hreasons]
    exact iff_of_false (by decide) fun h => hreasons h.1

theorem checkPathsAndNetwork_eq_nil_iff {args : List (List Char × List Char)} :
    checkPathsAndNetwork profile spec args = [] ↔
      (∀ arg ∈ spec.pathArgs, ∀ raw, args.lookup arg = some raw →
        checkPath raw spec.pathMode profile.toCapabilityProfile = []) ∧
      (profile.network = .none → ∀ a ∈ args, carriesUrl a.2 = false) := by
  rw [checkPathsAndNetwork, List.append_eq_nil_iff, List.flatMap_eq_nil_iff]
  apply and_congr
  · apply forall_congr'
    intro arg
    apply imp_congr_right
    intro _
    cases args.lookup arg with
    | none => simp
    | some raw => simp
  · by_cases hnet : profile.network = .none
    · rw [if_pos hnet]
      cases hfind : args.find? fun a => carriesUrl a.2 with
      | some a =>
        have hurl := List.find?_some hfind
        have hmem := List.mem_of_find?_eq_some hfind
        apply iff_of_false (by simp)
        intro h
        rw [h hnet a hmem] at hurl
        cases hurl
      | none => exact iff_of_true rfl fun _ a ha => by simpa using List.find?_eq_none.mp hfind a ha
    · rw [if_neg hnet]
      exact iff_of_true rfl fun h => absurd h hnet

/-- A call without denials, and what it was compared with. -/
theorem checks_eq_nil_iff : (checks profile tool arguments).1 = [] ↔
    ∃ spec, getTool tool = some spec ∧ tool.name ∈ profile.tools ∧
      argumentErrors spec.argsModel arguments = [] ∧
      checkPathsAndNetwork profile spec (dumpArguments spec.argsModel arguments) = [] := by
  rw [checks]
  cases getTool tool with
  | none => simp
  | some spec =>
    simp only [Option.some.injEq, exists_eq_left']
    by_cases hgranted : profile.toolAllowed tool.name = true
    · rw [if_pos hgranted]
      by_cases herrors : argumentErrors spec.argsModel arguments = []
      · rw [if_neg (not_not_intro herrors)]
        exact ⟨fun h => ⟨toolAllowed_iff.mp hgranted, herrors, h⟩, fun h => h.2.2⟩
      · rw [if_pos herrors]
        simp [herrors]
    · rw [if_neg hgranted]
      rw [toolAllowed_iff] at hgranted
      simp [hgranted]

/-- The values of a call without denials. -/
theorem checks_of_granted (hknown : getTool tool = some spec) (hgranted : tool.name ∈ profile.tools)
    (hvalid : argumentErrors spec.argsModel arguments = []) :
    checks profile tool arguments =
      (checkPathsAndNetwork profile spec (dumpArguments spec.argsModel arguments),
        (dumpArguments spec.argsModel arguments).map fun a => some (PyText.ofChars a.2)) := by
  simp only [checks, hknown, toolAllowed_iff.mpr hgranted, if_true, hvalid, ne_eq,
    not_true_eq_false, if_false]

/-- A call is allowed just when it passes every check. -/
theorem evaluate_allow_iff :
    (evaluate texts numbers profile tool arguments externalTexts).decision = .allow ↔
      ∃ spec, Authorized profile tool arguments externalTexts spec := by
  rw [evaluate, evaluation_allow_iff, List.map_eq_nil_iff, checks_eq_nil_iff]
  constructor
  · rintro ⟨⟨spec, hknown, hgranted, hvalid, hpaths⟩, hcopy⟩
    obtain ⟨hroots, hoffline⟩ := checkPathsAndNetwork_eq_nil_iff.mp hpaths
    refine ⟨spec, hknown, hgranted, hvalid, hroots, hoffline, fun a ha => ?_⟩
    rw [checks_of_granted hknown hgranted hvalid] at hcopy
    by_contra hover
    have hvalue : some (PyText.ofChars a.2) ∈
        (dumpArguments spec.argsModel arguments).map fun a => some (PyText.ofChars a.2) :=
      List.mem_map_of_mem ha
    have hsignal := checkSimilarity_iff.mpr ⟨_, hvalue, eq_true_of_ne_false hover⟩
    rw [hcopy] at hsignal
    cases hsignal
  · rintro ⟨spec, h⟩
    refine ⟨⟨spec, h.known, h.granted, h.valid,
      checkPathsAndNetwork_eq_nil_iff.mpr ⟨h.inRoots, h.offline⟩⟩, ?_⟩
    rw [checks_of_granted h.known h.granted h.valid]
    by_contra hsignal
    obtain ⟨value, hvalue, hover⟩ := checkSimilarity_iff.mp (eq_true_of_ne_false hsignal)
    obtain ⟨a, ha, heq⟩ := List.mem_map.mp hvalue
    have hclean := h.original a ha
    rw [Option.some.inj heq, hover] at hclean
    cases hclean

/-! ## Profiles that grant less -/

/-- The grants of `p` are among those of `q`. -/
structure Narrower (p q : Capabilities) : Prop where
  tools : p.tools ⊆ q.tools
  roots : ∀ mode, p.roots mode ⊆ q.roots mode
  network : q.network = .none → p.network = .none

theorem checkPath_narrower (h : Narrower p q) {raw : List Char} {mode : PathMode}
    (hp : checkPath raw mode p.toCapabilityProfile = []) :
    checkPath raw mode q.toCapabilityProfile = [] := by
  rw [checkPath] at hp ⊢
  split at hp
  · rename_i hany
    obtain ⟨r, hr, hin⟩ := List.any_eq_true.mp hany
    exact if_pos (List.any_eq_true.mpr ⟨r, h.roots mode hr, hin⟩)
  · cases hp

/-- What the narrower profile does not deny is compared alike under the other one. -/
theorem checks_narrower (h : Narrower p q) (hp : (checks p tool arguments).1 = []) :
    checks q tool arguments = checks p tool arguments := by
  obtain ⟨spec, hknown, hgranted, hvalid, hpaths⟩ := checks_eq_nil_iff.mp hp
  obtain ⟨hroots, hoffline⟩ := checkPathsAndNetwork_eq_nil_iff.mp hpaths
  have hq : checkPathsAndNetwork q spec (dumpArguments spec.argsModel arguments) = [] :=
    checkPathsAndNetwork_eq_nil_iff.mpr
      ⟨fun arg harg raw hraw => checkPath_narrower h (hroots arg harg raw hraw),
        fun hnet => hoffline (h.network hnet)⟩
  rw [checks_of_granted hknown hgranted hvalid, checks_of_granted hknown (h.tools hgranted) hvalid,
    hpaths, hq]

theorem evaluate_narrower (h : Narrower p q) :
    (evaluate texts numbers p tool arguments externalTexts).decision = .deny ∨
      (evaluate texts numbers p tool arguments externalTexts).toPolicyEvaluation =
        (evaluate texts numbers q tool arguments externalTexts).toPolicyEvaluation := by
  by_cases hp : (checks p tool arguments).1 = []
  · right
    simp only [evaluate, checks_narrower h hp]
  · left
    rw [evaluate, evaluation_deny_iff, ne_eq, List.map_eq_nil_iff]
    exact hp

theorem Authorized.narrower (h : Narrower p q)
    (hp : Authorized p tool arguments externalTexts spec) :
    Authorized q tool arguments externalTexts spec where
  known := hp.known
  granted := h.tools hp.granted
  valid := hp.valid
  inRoots arg harg raw hraw := checkPath_narrower h (hp.inRoots arg harg raw hraw)
  offline hnet := hp.offline (h.network hnet)
  original := hp.original

/-! ## The tools the model is shown -/

theorem mem_allTools (hknown : getTool tool = some spec) : tool ∈ allTools := by
  cases tool with
  | unknown name => cases hknown
  | _ => decide

theorem mem_modelToolsSchema (hknown : getTool tool = some spec)
    (hgranted : tool.name ∈ profile.tools) :
    ⟨tool.name, spec.argsModel⟩ ∈ modelToolsSchema profile := by
  rw [modelToolsSchema, List.mem_filterMap]
  refine ⟨tool, List.mem_filter.mpr ⟨mem_allTools hknown, toolAllowed_iff.mpr hgranted⟩, ?_⟩
  rw [hknown]
  rfl

/-- A tool the model is not shown is denied. -/
theorem evaluate_hidden (hidden : ∀ m ∈ modelToolsSchema profile, m.name ≠ tool.name) :
    (evaluate texts numbers profile tool arguments externalTexts).decision = .deny := by
  rw [evaluate, evaluation_deny_iff, ne_eq, List.map_eq_nil_iff]
  intro hnone
  obtain ⟨spec, hknown, hgranted, -, -⟩ := checks_eq_nil_iff.mp hnone
  exact hidden _ (mem_modelToolsSchema hknown hgranted) rfl

theorem modelToolsSchema_narrower (h : Narrower p q) :
    (modelToolsSchema p).Sublist (modelToolsSchema q) := by
  apply List.Sublist.filterMap
  apply List.monotone_filter_right
  intro tool hp
  exact toolAllowed_iff.mpr (h.tools (toolAllowed_iff.mp hp))

/-! ## The profile of a session -/

theorem effectiveProfile_narrower {files : String → Option SandboxProfile}
    {policy : SnapshotPolicy} (h : effectiveProfile files policy = .ok p) :
    ∃ ceiling, loadProfile files (policy.accessProfile.getD "sealed") = some ceiling ∧
      Narrower p ceiling := by
  rw [effectiveProfile] at h
  dsimp only at h
  split at h
  · cases h
  · rename_i ceiling hload
    split at h
    · cases h
    · rename_i hextra
      split at h
      · cases h
      · cases h
        refine ⟨ceiling, hload, ?_, ?_, id⟩
        · intro tool htool
          by_contra hout
          apply hextra
          intro hnil
          have hall := List.filter_eq_nil_iff.mp hnil tool htool
          simp only [Bool.not_eq_true', Bool.not_eq_false] at hall
          exact hout (toolAllowed_iff.mp hall)
        · intro mode
          cases mode with
          | read => exact List.Subset.refl _
          | write => exact List.filter_subset_self _

/-- **A snapshot only narrows its profile**: whatever it grants, a call is denied or evaluated as
under the whole profile, the model is shown no tool it would not be shown, and a tool it is not
shown is denied. -/
theorem snapshot_only_narrows {files : String → Option SandboxProfile} {policy : SnapshotPolicy}
    (h : effectiveProfile files policy = .ok p) :
    ∃ ceiling, loadProfile files (policy.accessProfile.getD "sealed") = some ceiling ∧
      (modelToolsSchema p).Sublist (modelToolsSchema ceiling) ∧
      ∀ (texts : EngineTexts) (numbers : NumberText φ) (tool : Tool) (arguments : Arguments φ)
        (externalTexts : List PyText),
        ((evaluate texts numbers p tool arguments externalTexts).decision = .deny ∨
          (evaluate texts numbers p tool arguments externalTexts).toPolicyEvaluation =
            (evaluate texts numbers ceiling tool arguments externalTexts).toPolicyEvaluation) ∧
        ((∀ m ∈ modelToolsSchema p, m.name ≠ tool.name) →
          (evaluate texts numbers p tool arguments externalTexts).decision = .deny) := by
  obtain ⟨ceiling, hload, hnarrow⟩ := effectiveProfile_narrower h
  refine ⟨ceiling, hload, modelToolsSchema_narrower hnarrow, ?_⟩
  intro texts numbers tool arguments externalTexts
  exact ⟨evaluate_narrower hnarrow, evaluate_hidden⟩

end Allowed

/-- The file of the sealed profile. -/
def sealedFile : SandboxProfile where
  name := "sealed"
  version := "v1"
  network := "none"
  tools := [("workspace.read", true), ("workspace.list", true), ("workspace.write", true),
    ("python.execute", true), ("shell.execute", true), ("memory.search", true),
    ("question.create", true), ("message.reply", true), ("artifact.create", true)]
  writable := [workspaceText]
  readable := [['/', 'b', 'a', 's', 'e'], workspaceText]
  timeoutSeconds := 60
  maxFileSizeMb := 50

def sealedFiles (name : String) : Option SandboxProfile :=
  if name = "sealed" then some sealedFile else none

/-- A snapshot that grants the shell only. -/
def shellPolicy : SnapshotPolicy := ⟨none, some ["shell.execute"], none⟩

def shellProfile : Capabilities where
  readablePaths := [['/', 'b', 'a', 's', 'e'], workspaceText]
  writablePaths := [workspaceText]
  name := "sealed"
  version := "v1"
  tools := ["shell.execute"]
  network := .none
  commandTimeoutSeconds := 60
  workspaceQuotaMb := 50

theorem shellProfile_effective : effectiveProfile sealedFiles shellPolicy = .ok shellProfile := rfl

theorem snapshot_only_narrows_shell :
    effectiveProfile sealedFiles shellPolicy = .ok shellProfile ∧
      ∃ ceiling, loadProfile sealedFiles "sealed" = some ceiling ∧
        (modelToolsSchema shellProfile).Sublist (modelToolsSchema ceiling) := by
  obtain ⟨ceiling, hload, hshown, -⟩ := @snapshot_only_narrows Empty _ _ _ shellProfile_effective
  exact ⟨shellProfile_effective, ceiling, hload, hshown⟩

end Noezema.Policy
