import Noezema.Lib.Entries
import Noezema.Lib.PosixPath

/-! # One path in the policy and in the broker

The policy reads a path argument as a text of the container and asks whether its normal form
lies under the roots of the profile. The broker reads the same text again and walks from the
overlay of the session on the host. The two agree where the walk leads back to the overlay.
-/

namespace Noezema.Policy

open Noezema.Lib

/-! ## The policy -/

/-- The roots of a `CapabilityProfile`. -/
structure CapabilityProfile where
  readablePaths : List (List Char)
  writablePaths : List (List Char)

inductive PathMode where
  | read | write
deriving DecidableEq, Repr

/-- A denied path: its text and the roots it is outside of. -/
structure PathDenied where
  raw : List Char
  mode : PathMode
deriving DecidableEq

def workspaceName : PathName := ['w', 'o', 'r', 'k', 's', 'p', 'a', 'c', 'e']

/-- `/workspace`. -/
def workspaceText : List Char := '/' :: workspaceName

/-- A relative text starts in the working directory of the container. -/
def containerText (raw : List Char) : List Char :=
  if raw.head? = some '/' then raw else workspaceText ++ '/' :: raw

/-- The roots of a mode. -/
def CapabilityProfile.roots (profile : CapabilityProfile) : PathMode → List (List Char)
  | .read => profile.readablePaths
  | .write => profile.writablePaths

/-- `normalized == r or normalized.startswith(r.rstrip("/") + "/")`. -/
def inRoot (normalized r : List Char) : Bool :=
  normalized = r ∨ r.rdropWhile (· = '/') ++ ['/'] <+: normalized

/-- `_check_path`: what it denies. -/
def checkPath (raw : List Char) (mode : PathMode) (profile : CapabilityProfile) :
    List PathDenied :=
  if (profile.roots mode).any (inRoot (normpath (containerText raw))) then [] else [⟨raw, mode⟩]

/-! ## The broker -/

/-- The `ValueError` of `resolve`. -/
inductive PathError where
  | outsideOverlay (raw : List Char)
  | escapesOverlay (raw : List Char)
  | nullByte
deriving DecidableEq

/-- The overlay of a session on its host: the resolved directory, and where each place of the
file system leads. -/
structure Overlay where
  root : List PathName
  follow : List PathName → List PathName
  plain : ∀ c ∈ root, PlainName c
  named : ∀ c ∈ root, nul ∉ c
  resolved : ∀ there, there <+: root → follow there = there

namespace Overlay

variable (o : Overlay)

/-- `(root / rel).resolve()`: an absolute right side discards the left. -/
def realpath (rel : List Char) : Option (List PathName) :=
  resolveLinks o.follow []
    (if rel.head? = some '/' then pathNames rel else o.root ++ pathNames rel)

/-- The candidate is refused outside of the overlay. -/
def locate (raw rel : List Char) : Except PathError (List PathName) :=
  match o.realpath rel with
  | none => .error .nullByte
  | some candidate =>
    if o.root <+: candidate then .ok candidate else .error (.escapesOverlay raw)

/-- `resolve` of the workspace tools. -/
def resolve (raw : List Char) : Except PathError (List PathName) :=
  if raw.head? = some '/' then
    if raw = workspaceText ∨ workspaceText ++ ['/'] <+: raw then
      o.locate raw (raw.drop workspaceText.length)
    else .error (.outsideOverlay raw)
  else o.locate raw raw

/-- No place of the overlay is a link. -/
def NoLinksInside : Prop := ∀ there, o.follow (o.root ++ there) = o.root ++ there

/-- No place of the host is a link. -/
def Linkless : Prop := ∀ there, o.follow there = there

/-- The places the broker's walk looks up for a text: those of a relative text from the
overlay on, those of an absolute one from the root of the host. -/
def places (raw : List Char) : List (List PathName) :=
  if raw.head? = some '/' then lookups [] (pathNames (raw.drop workspaceText.length))
  else lookups o.root (pathNames raw)

/-- None of these places is a link. -/
def MeetsNoLinks (raw : List Char) : Prop := ∀ there ∈ o.places raw, o.follow there = there

instance (raw : List Char) : Decidable (o.MeetsNoLinks raw) :=
  inferInstanceAs (Decidable (∀ there ∈ o.places raw, _))

end Overlay

/-! ## The shape of an allowed path -/

/-- A root of a profile that lies under `/workspace`. -/
def UnderWorkspace (r : List Char) : Prop :=
  r = workspaceText ∨ workspaceText ++ ['/'] <+: r

/-- The absolute form of a path under `/workspace`. -/
def absoluteForm (r : List PathName) : List Char := '/' :: joinNames (workspaceName :: r)

theorem pathNames_workspace (t : List Char) :
    pathNames (workspaceText ++ '/' :: t) = workspaceName :: pathNames t := by
  rw [workspaceText, List.cons_append, pathNames_slash, pathNames,
    List.splitOn_append_cons_self_of_not_mem (by decide), List.filter_cons_of_pos (by decide)]
  rfl

/-- Without its trailing slashes a root still begins with `/workspace`. -/
theorem rdropWhile_root {r : List Char} (hr : UnderWorkspace r) :
    workspaceText ++ ['/'] <+: r.rdropWhile (· = '/') ++ ['/'] := by
  have hkeep : ∀ u, (workspaceText ++ u).rdropWhile (· = '/') =
      workspaceText ++ u.rdropWhile (· = '/') := by
    intro u
    exact rdropWhile_append_of_neg (x := 'e') (by decide)
      ['/', 'w', 'o', 'r', 'k', 's', 'p', 'a', 'c'] u
  rcases hr with rfl | ⟨t, rfl⟩
  · have := hkeep []
    rw [List.append_nil] at this
    rw [this]
    simp
  · rw [List.append_assoc, hkeep, List.append_assoc, List.prefix_append_right_inj]
    have hbegins : (['/'] ++ t).rdropWhile (· = '/') <+: ['/'] ++ t := List.rdropWhile_prefix _ _
    cases hcut : (['/'] ++ t).rdropWhile (· = '/') with
    | nil => simp
    | cons x rest =>
      rw [hcut, List.singleton_append, List.cons_prefix_cons] at hbegins
      rw [hbegins.1]
      simp

theorem underWorkspace_of_inRoot {normalized r : List Char} (hr : UnderWorkspace r)
    (h : inRoot normalized r) : UnderWorkspace normalized := by
  simp only [inRoot, decide_eq_true_eq] at h
  rcases h with rfl | h
  · exact hr
  · exact Or.inr ((rdropWhile_root hr).trans h)

theorem containerText_eq (raw : List Char) : ∃ p, containerText raw = '/' :: p := by
  rw [containerText]
  split
  · rename_i h
    cases raw with
    | nil => simp at h
    | cons c p =>
      rw [List.head?_cons] at h
      exact ⟨p, by rw [Option.some.inj h]⟩
  · exact ⟨workspaceName ++ '/' :: raw, rfl⟩

/-- A normal form under `/workspace` is the absolute form of a path, and the walk leads there. -/
theorem normpath_under {p : List Char} (h : UnderWorkspace (normpath ('/' :: p))) :
    ∃ r, (∀ c ∈ r, PlainName c) ∧ walk [] (pathNames ('/' :: p)) = workspaceName :: r ∧
      normpath ('/' :: p) = absoluteForm r := by
  have hplain : ∀ c ∈ walk [] (pathNames ('/' :: p)), PlainName c :=
    walk_forall_plain (pathNames_forall _) (by simp)
  have hnames := pathNames_joinNames hplain
  rw [normpath_absolute] at h ⊢
  generalize walk [] (pathNames ('/' :: p)) = there at h hplain hnames ⊢
  have hlead : (splitRoot ('/' :: p)).1 = ['/'] ∨ (splitRoot ('/' :: p)).1 = ['/', '/'] := by
    unfold splitRoot
    split <;> simp_all
  -- two slashes are not the beginning of `/workspace`
  have hone : (splitRoot ('/' :: p)).1 = ['/'] := by
    rcases hlead with hlead | hlead
    · exact hlead
    · rw [hlead] at h
      rcases h with h | h
      · simp [workspaceText, workspaceName] at h
      · simp [workspaceText, workspaceName] at h
  rw [hone] at h ⊢
  have hthere : ∃ r, there = workspaceName :: r := by
    rcases h with h | h
    · have htext : joinNames there = workspaceName := by simpa [workspaceText] using h
      rw [htext] at hnames
      exact ⟨[], hnames.symm.trans (by decide)⟩
    · obtain ⟨t, ht⟩ := h
      have htext : '/' :: joinNames there = workspaceText ++ '/' :: t := by
        simpa using ht.symm
      have := pathNames_workspace t
      rw [← htext, pathNames_slash, hnames] at this
      exact ⟨_, this⟩
  obtain ⟨r, rfl⟩ := hthere
  exact ⟨r, fun c hc => hplain c (List.mem_cons_of_mem _ hc), rfl, rfl⟩

/-- Where the policy walks under `/workspace`. -/
def containerPath (raw : List Char) : List PathName :=
  (walk [] (pathNames (containerText raw))).tail

/-- An allowed path lies under a root of its mode. -/
theorem checkPath_root {raw : List Char} {mode : PathMode} {profile : CapabilityProfile}
    (hallowed : checkPath raw mode profile = []) :
    ∃ r ∈ profile.roots mode, inRoot (normpath (containerText raw)) r = true := by
  rw [checkPath] at hallowed
  split at hallowed
  · rename_i h
    exact List.any_eq_true.mp h
  · cases hallowed

/-- Under a root of the workspace it goes down by plain names. -/
theorem inRoot_workspace {raw r : List Char} (hr : UnderWorkspace r)
    (hin : inRoot (normpath (containerText raw)) r = true) :
    (∀ c ∈ containerPath raw, PlainName c) ∧
      walk [] (pathNames (containerText raw)) = workspaceName :: containerPath raw ∧
      normpath (containerText raw) = absoluteForm (containerPath raw) := by
  obtain ⟨text, htext⟩ := containerText_eq raw
  have hunder := underWorkspace_of_inRoot hr hin
  rw [htext] at hunder
  obtain ⟨cs, hcs, hwalk, hnorm⟩ := normpath_under hunder
  rw [← htext] at hwalk hnorm
  have htail : containerPath raw = cs := by rw [containerPath, hwalk, List.tail_cons]
  rw [htail]
  exact ⟨hcs, hwalk, hnorm⟩

/-- What the policy allows under `/workspace`. -/
theorem checkPath_allowed {raw : List Char} {mode : PathMode} {profile : CapabilityProfile}
    (hroots : ∀ r ∈ profile.roots mode, UnderWorkspace r)
    (hallowed : checkPath raw mode profile = []) :
    (∀ c ∈ containerPath raw, PlainName c) ∧
      walk [] (pathNames (containerText raw)) = workspaceName :: containerPath raw ∧
      normpath (containerText raw) = absoluteForm (containerPath raw) := by
  obtain ⟨r, hr, hin⟩ := checkPath_root hallowed
  exact inRoot_workspace (hroots r hr) hin

/-! ## Where the broker goes -/

namespace Overlay

variable {o : Overlay} {raw rel : List Char} {cs : List PathName}

/-- The root of the overlay leads to itself. -/
theorem resolveLinks_root (o : Overlay) : resolveLinks o.follow [] o.root = some o.root :=
  resolveLinks_resolved o.plain o.named fun there h => by simpa using o.resolved there h

theorem realpath_relative (h : rel.head? ≠ some '/') :
    o.realpath rel = resolveLinks o.follow o.root (pathNames rel) := by
  rw [realpath, if_neg h, resolveLinks_append, resolveLinks_root, Option.bind_some]

theorem realpath_absolute (t : List Char) :
    o.realpath ('/' :: t) = resolveLinks o.follow [] (pathNames t) := by
  rw [realpath, if_pos (by rfl), pathNames_slash]

theorem locate_eq_ok {file : List PathName} :
    o.locate raw rel = .ok file ↔ o.realpath rel = some file ∧ o.root <+: file := by
  rw [locate]
  cases h : o.realpath rel with
  | none => simp
  | some candidate =>
    by_cases hin : o.root <+: candidate
    · simp only [if_pos hin, Except.ok.injEq, Option.some.injEq]
      constructor
      · rintro rfl
        exact ⟨rfl, hin⟩
      · exact And.left
    · simp only [if_neg hin, reduceCtorEq, Option.some.injEq, false_iff, not_and]
      rintro rfl
      exact hin

/-- A path the broker resolves is inside the overlay. -/
theorem resolve_inside {text : List Char} {file : List PathName}
    (h : o.resolve text = .ok file) : o.root <+: file := by
  rw [resolve] at h
  split at h
  · split at h
    · exact (locate_eq_ok.mp h).2
    · cases h
  · exact (locate_eq_ok.mp h).2

theorem resolve_relative (h : raw.head? ≠ some '/') : o.resolve raw = o.locate raw raw := if_neg h

theorem resolve_workspace : o.resolve workspaceText = .ok o.root := by
  have : o.resolve workspaceText = o.locate workspaceText [] := rfl
  rw [this, locate_eq_ok, realpath_relative (by simp)]
  exact ⟨rfl, List.prefix_rfl⟩

theorem resolve_absolute (t : List Char) : o.resolve (workspaceText ++ '/' :: t) =
    o.locate (workspaceText ++ '/' :: t) ('/' :: t) := by
  have hbegins : workspaceText ++ ['/'] <+: workspaceText ++ '/' :: t :=
    (List.prefix_append_right_inj _).mpr (by simp)
  rw [resolve, if_pos (by rfl), if_pos (Or.inr hbegins), List.drop_left]

theorem resolve_elsewhere (h : raw.head? = some '/') (hraw : ¬ UnderWorkspace raw) :
    o.resolve raw = .error (.outsideOverlay raw) := by
  rw [resolve, if_pos h]
  exact if_neg hraw

/-- Where it meets no link the broker resolves a text to a place exactly when the walk leads
there. -/
theorem resolveLinks_eq_some {here there : List PathName}
    (ho : ∀ there ∈ lookups here cs, o.follow there = there) :
    resolveLinks o.follow here cs = some there ↔ (∀ c ∈ cs, nul ∉ c) ∧ walk here cs = there := by
  by_cases hnul : ∀ c ∈ cs, nul ∉ c
  · rw [resolveLinks_lookups ho hnul]
    simpa using fun _ => hnul
  · rw [resolveLinks_nul (by push Not at hnul; exact hnul)]
    simp [hnul]

end Overlay

/-! ## When the two agree -/

/-- The broker finds the file the policy has allowed, and both forms of its path name it. -/
structure PathsAgree (o : Overlay) (raw : List Char) (r : List PathName) : Prop where
  maps : o.resolve raw = .ok (o.root ++ r)
  same : ∃ file, o.resolve (absoluteForm r) = .ok file ∧ o.resolve (joinNames r) = .ok file

/-- What follows `/workspace/` in an absolute text. -/
def underText (raw : List Char) : List Char := raw.drop (workspaceText.length + 1)

/-- The walk of the broker ends under the overlay where the walk of the policy ends under
`/workspace`. A relative text may climb over the overlay only where coming down by the name
`workspace` leads to the overlay again; of an absolute text the broker walks what follows
`/workspace` from the root of the host. -/
def LeadsBack (root : List PathName) (raw : List Char) : Prop :=
  nul ∉ raw ∧
    if raw.head? = some '/' then
      raw = workspaceText ∨ (workspaceText ++ ['/'] <+: raw ∧
        root = if climb 0 (pathNames (underText raw)) = 0 then [] else [workspaceName])
    else climb 0 (pathNames raw) = 0 ∨
      root.take (root.length - climb 0 (pathNames raw)) ++ [workspaceName] = root

instance (root : List PathName) (raw : List Char) : Decidable (LeadsBack root raw) := by
  unfold LeadsBack
  infer_instance

/-- The walk of the policy after `/workspace`, by how far it climbs. -/
theorem walk_workspace {cs r : List PathName}
    (h : walk [] (workspaceName :: cs) = workspaceName :: r) :
    walk [] cs = if climb 0 cs = 0 then r else workspaceName :: r := by
  have hwalk := walk_append [workspaceName] [] cs
  rw [List.append_nil, List.length_nil, List.length_singleton] at hwalk
  rw [walk_cons, walkStep_of_ne (by decide), List.nil_append, hwalk] at h
  by_cases hclimb : climb 0 cs = 0
  · rw [hclimb] at h
    rw [if_pos hclimb]
    simpa using h
  · have hzero : 1 - climb 0 cs = 0 := by omega
    rw [hzero] at h
    rw [if_neg hclimb]
    simpa using h

theorem nul_notMem_iff (text : List Char) : (∀ c ∈ pathNames text, nul ∉ c) ↔ nul ∉ text := by
  rw [← not_iff_not]
  push Not
  exact mem_pathNames_iff (by decide) (by decide)

section Agree

variable {o : Overlay} {raw : List Char} {r : List PathName}

/-- A relative text. -/
theorem maps_relative_iff (ho : o.MeetsNoLinks raw) (hrel : raw.head? ≠ some '/')
    (hwalk : walk [] (pathNames (containerText raw)) = workspaceName :: r) :
    o.resolve raw = .ok (o.root ++ r) ↔ LeadsBack o.root raw := by
  rw [containerText, if_neg hrel, pathNames_workspace] at hwalk
  have hends := walk_workspace hwalk
  rw [Overlay.MeetsNoLinks, Overlay.places, if_neg hrel] at ho
  have hup := walk_append o.root [] (pathNames raw)
  rw [List.append_nil, List.length_nil] at hup
  rw [Overlay.resolve_relative hrel, Overlay.locate_eq_ok, Overlay.realpath_relative hrel,
    Overlay.resolveLinks_eq_some ho, nul_notMem_iff, hup, hends, LeadsBack, if_neg hrel]
  by_cases hclimb : climb 0 (pathNames raw) = 0
  · simp [hclimb]
  · rw [if_neg hclimb, ← List.singleton_append, ← List.append_assoc, List.append_cancel_right_eq]
    simp [hclimb]

/-- An absolute text. -/
theorem maps_absolute_iff (ho : o.MeetsNoLinks raw) (habs : raw.head? = some '/')
    (hwalk : walk [] (pathNames (containerText raw)) = workspaceName :: r) :
    o.resolve raw = .ok (o.root ++ r) ↔ LeadsBack o.root raw := by
  rw [containerText, if_pos habs] at hwalk
  rw [LeadsBack, if_pos habs]
  by_cases hunder : UnderWorkspace raw
  · rcases hunder with rfl | ⟨t, rfl⟩
    · have hr : r = [] := by
        have : pathNames workspaceText = [workspaceName] := by decide
        rw [this] at hwalk
        simpa [climb] using (walk_workspace hwalk).symm
      rw [hr, Overlay.resolve_workspace, List.append_nil]
      simp only [true_or, and_true, true_iff]
      decide
    · have htext : workspaceText ++ ['/'] ++ t = workspaceText ++ '/' :: t := by simp
      have hafter : underText (workspaceText ++ '/' :: t) = t := by simp [underText]
      have hnul : nul ∈ workspaceText ++ '/' :: t ↔ nul ∈ t := by
        rw [← htext, List.mem_append, or_iff_right (by decide)]
      have hne : workspaceText ++ '/' :: t ≠ workspaceText := by
        intro h
        simpa using congrArg List.length h
      have hbegins : workspaceText ++ ['/'] <+: workspaceText ++ '/' :: t := ⟨t, htext⟩
      rw [htext] at ho hwalk ⊢
      rw [Overlay.MeetsNoLinks, Overlay.places, if_pos (by rfl), List.drop_left,
        pathNames_slash] at ho
      rw [pathNames_workspace] at hwalk
      rw [Overlay.resolve_absolute, Overlay.locate_eq_ok, Overlay.realpath_absolute,
        Overlay.resolveLinks_eq_some ho, nul_notMem_iff, walk_workspace hwalk, hafter, hnul,
        or_iff_right hne, and_iff_right hbegins, and_assoc]
      refine and_congr_right fun _ => ?_
      by_cases hclimb : climb 0 (pathNames t) = 0
      · rw [if_pos hclimb, if_pos hclimb]
        constructor
        · intro h
          exact List.self_eq_append_left.mp h.1
        · intro h
          simp [h]
      · rw [if_neg hclimb, if_neg hclimb]
        constructor
        · intro h
          exact (List.append_cancel_right (h.1 : [workspaceName] ++ r = o.root ++ r)).symm
        · intro h
          simp [h]
  · rw [Overlay.resolve_elsewhere habs hunder]
    simp only [reduceCtorEq, false_iff, not_and]
    rintro - (h | h)
    · exact hunder (Or.inl h)
    · exact hunder (Or.inr h.1)

/-- The two forms of one path: the absolute one is walked from the root of the host. -/
theorem same_iff (hin : o.NoLinksInside) (ho : o.MeetsNoLinks (absoluteForm r))
    (hr : ∀ c ∈ r, PlainName c) (hnul : ∀ c ∈ r, nul ∉ c) :
    (∃ file, o.resolve (absoluteForm r) = .ok file ∧ o.resolve (joinNames r) = .ok file) ↔
      r = [] ∨ o.root = [] := by
  cases r with
  | nil =>
    have habs : absoluteForm [] = workspaceText := rfl
    have hrel : o.resolve (joinNames []) = .ok o.root := by
      rw [Overlay.resolve_relative (by decide), Overlay.locate_eq_ok,
        Overlay.realpath_relative (by decide)]
      exact ⟨rfl, List.prefix_rfl⟩
    rw [habs, Overlay.resolve_workspace, hrel]
    simp
  | cons c r =>
    have habs : absoluteForm (c :: r) = workspaceText ++ '/' :: joinNames (c :: r) := by
      rw [absoluteForm, joinNames_cons_cons]
      rfl
    have hhead := joinNames_head hr
    have hinside : ∀ there ∈ lookups o.root (c :: r), o.follow there = there := by
      intro there hthere
      obtain ⟨rest, rfl⟩ := lookups_plain hr hthere
      exact hin rest
    rw [Overlay.MeetsNoLinks, habs, Overlay.places, if_pos (by rfl), List.drop_left,
      pathNames_slash, pathNames_joinNames hr] at ho
    have hfile : ∀ file, o.resolve (joinNames (c :: r)) = .ok file ↔ file = o.root ++ (c :: r) := by
      intro file
      rw [Overlay.resolve_relative hhead, Overlay.locate_eq_ok, Overlay.realpath_relative hhead,
        pathNames_joinNames hr, Overlay.resolveLinks_eq_some hinside, walk_plain hr,
        and_iff_right hnul]
      constructor
      · intro h
        exact h.1.symm
      · rintro rfl
        exact ⟨rfl, List.prefix_append _ _⟩
    have habsFile : ∀ file, o.resolve (absoluteForm (c :: r)) = .ok file ↔
        file = c :: r ∧ o.root <+: c :: r := by
      intro file
      rw [habs, Overlay.resolve_absolute, Overlay.locate_eq_ok, Overlay.realpath_absolute,
        pathNames_joinNames hr, Overlay.resolveLinks_eq_some ho, walk_plain hr, and_iff_right hnul,
        List.nil_append]
      constructor
      · rintro ⟨rfl, h⟩
        exact ⟨rfl, h⟩
      · rintro ⟨rfl, h⟩
        exact ⟨rfl, h⟩
    constructor
    · intro h
      obtain ⟨file, habs, hrel⟩ := h
      have hroot := ((habsFile file).mp habs).1.symm.trans ((hfile file).mp hrel)
      exact Or.inr (List.self_eq_append_left.mp hroot)
    · intro h
      have hroot : o.root = [] := by simpa using h
      exact ⟨c :: r, (habsFile _).mpr ⟨rfl, by simp [hroot]⟩, (hfile _).mpr (by simp [hroot])⟩

end Agree

/-- The path of a policy that has allowed it: the broker never leaves the overlay, a relative
text that does not climb is found on every host without links in the overlay, and where the
broker's walks of the text and of its absolute form meet no link either, the two agree exactly
when the walk leads back. -/
theorem checked_path_agrees_iff (profile : CapabilityProfile) (mode : PathMode)
    (hroots : ∀ p ∈ profile.roots mode, UnderWorkspace p) (raw : List Char)
    (hallowed : checkPath raw mode profile = []) (o : Overlay) :
    normpath (containerText raw) = absoluteForm (containerPath raw) ∧
      (∀ text file, o.resolve text = .ok file → o.root <+: file) ∧
      (o.NoLinksInside → nul ∉ raw → raw.head? ≠ some '/' → climb 0 (pathNames raw) = 0 →
        o.resolve raw = .ok (o.root ++ containerPath raw)) ∧
      (o.NoLinksInside → o.MeetsNoLinks raw → o.MeetsNoLinks (absoluteForm (containerPath raw)) →
        (PathsAgree o raw (containerPath raw) ↔
          LeadsBack o.root raw ∧ (containerPath raw = [] ∨ o.root = []))) := by
  obtain ⟨hr, hwalk, hnorm⟩ := checkPath_allowed hroots hallowed
  generalize containerPath raw = r at hr hwalk hnorm ⊢
  refine ⟨hnorm, fun _ _ => Overlay.resolve_inside, ?_, ?_⟩
  · intro ho hnul hrel hclimb
    rw [containerText, if_neg hrel, pathNames_workspace] at hwalk
    have hends := walk_workspace hwalk
    rw [if_pos hclimb] at hends
    have hwithin := @resolveLinks_under _ o.root [] _ ho ((nul_notMem_iff raw).mpr hnul) hclimb
    rw [List.append_nil, hends] at hwithin
    rw [Overlay.resolve_relative hrel, Overlay.locate_eq_ok, Overlay.realpath_relative hrel]
    exact ⟨hwithin, List.prefix_append _ _⟩
  · intro hin ho habsolute
    have hmaps : o.resolve raw = .ok (o.root ++ r) ↔ LeadsBack o.root raw := by
      by_cases hrel : raw.head? = some '/'
      · exact maps_absolute_iff ho hrel hwalk
      · exact maps_relative_iff ho hrel hwalk
    have hnames : nul ∉ raw → ∀ c ∈ r, nul ∉ c := by
      intro hnul c hc
      have hcontainer : nul ∉ containerText raw := by
        rw [containerText]
        split
        · exact hnul
        · rw [List.mem_append, not_or]
          exact ⟨by decide, by simpa using ⟨by decide, hnul⟩⟩
      have hmem : c ∈ walk [] (pathNames (containerText raw)) := by
        rw [hwalk]
        exact List.mem_cons_of_mem _ hc
      rcases mem_of_mem_walk hmem with hmem | hmem
      · cases hmem
      · exact (nul_notMem_iff _).mpr hcontainer c hmem
    constructor
    · intro h
      have hback := hmaps.mp h.maps
      exact ⟨hback, (same_iff hin habsolute hr (hnames hback.1)).mp h.same⟩
    · intro h
      exact ⟨hmaps.mpr h.1, (same_iff hin habsolute hr (hnames h.1.1)).mpr h.2⟩

/-! ## An overlay on its host -/

/-- The directory `/data` on a host without links. -/
def dataOverlay : Overlay where
  root := [['d', 'a', 't', 'a']]
  follow there := there
  plain := by
    intro c hc
    rw [List.mem_singleton.mp hc]
    exact ⟨by decide, by decide, by decide, by decide⟩
  named := by decide
  resolved _ _ := rfl

def workspaceProfile : CapabilityProfile := ⟨[workspaceText], [workspaceText]⟩

theorem workspaceProfile_under (mode : PathMode) :
    ∀ p ∈ workspaceProfile.roots mode, UnderWorkspace p := by
  intro p hp
  cases mode <;> exact Or.inl (List.mem_singleton.mp hp)

/-- `/workspace/a` is allowed, and refused by the broker: the right side of the join is
absolute. -/
theorem absolute_refused :
    ¬ ∀ (profile : CapabilityProfile) (mode : PathMode) (o : Overlay) (raw : List Char),
      (∀ p ∈ profile.roots mode, UnderWorkspace p) → o.Linkless →
      checkPath raw mode profile = [] → PathsAgree o raw (containerPath raw) := by
  intro hall
  have h := hall workspaceProfile .read dataOverlay (workspaceText ++ ['/', 'a'])
    (workspaceProfile_under .read) (fun _ => rfl) (by decide)
  have hrefused : dataOverlay.resolve (workspaceText ++ ['/', 'a']) =
      .error (.escapesOverlay (workspaceText ++ ['/', 'a'])) := by decide
  rw [h.maps] at hrefused
  cases hrefused

/-- The overlay on a host whose `/tmp` is a link. -/
def linkedOverlay : Overlay where
  root := dataOverlay.root
  follow there := if there = [['t', 'm', 'p']] then [['r', 'u', 'n'], ['t', 'm', 'p']] else there
  plain := dataOverlay.plain
  named := dataOverlay.named
  resolved := by
    intro there hthere
    exact if_neg fun htmp => absurd (htmp ▸ hthere) (by decide)

/-- A path that goes down and back is the overlay in both. -/
theorem workingDirectory_agrees : ¬ linkedOverlay.Linkless ∧
    PathsAgree linkedOverlay ['b', '/', '.', '.'] [] := by
  have hinside : linkedOverlay.NoLinksInside := by
    intro there
    simp [linkedOverlay, dataOverlay]
  constructor
  · intro h
    exact absurd (h [['t', 'm', 'p']]) (by decide)
  · exact ((checked_path_agrees_iff workspaceProfile .read (workspaceProfile_under .read)
      ['b', '/', '.', '.'] (by decide) linkedOverlay).2.2.2 hinside (by decide)
        (by decide)).mpr ⟨by decide, Or.inl rfl⟩

end Noezema.Policy
