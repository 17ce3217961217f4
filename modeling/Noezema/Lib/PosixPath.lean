import Mathlib.Data.List.Basic
import Mathlib.Data.List.Infix

/-! # Paths as texts and as walks

A path is a text cut at slashes. What it names is a walk along its components: an empty
component and `.` stay, `..` goes to the parent, and the parent of the root is the root. A
walk that starts in a directory is told by two things: how many levels it climbs over the
start, and where the same walk leads from the root. Where links are followed, a walk over
places that are no links is the same walk.
-/

namespace Noezema.Lib

/-- A component of a path. -/
abbrev PathName := List Char

def dotdot : PathName := ['.', '.']

/-- The components that do something, in order. -/
def pathNames (p : List Char) : List PathName :=
  (p.splitOn '/').filter fun c => c ≠ [] ∧ c ≠ ['.']

/-- The text of components. -/
def joinNames (cs : List PathName) : List Char := ['/'].intercalate cs

/-- A component that goes down. -/
structure PlainName (c : PathName) : Prop where
  ne_nil : c ≠ []
  ne_dot : c ≠ ['.']
  ne_dotdot : c ≠ dotdot
  slash : '/' ∉ c

/-! ## Walks -/

/-- A step without links. -/
def walkStep (here : List PathName) (c : PathName) : List PathName :=
  if c = dotdot then here.dropLast else here ++ [c]

def walk (here : List PathName) (cs : List PathName) : List PathName := cs.foldl walkStep here

/-- How many levels a walk climbs over its start, `d` levels over the lowest so far. -/
def climb : Nat → List PathName → Nat
  | _, [] => 0
  | d, c :: cs =>
    if c = dotdot then
      match d with
      | 0 => climb 0 cs + 1
      | d + 1 => climb d cs
    else climb (d + 1) cs

@[simp] theorem walk_nil (here : List PathName) : walk here [] = here := rfl

theorem walk_cons (here : List PathName) (c : PathName) (cs : List PathName) :
    walk here (c :: cs) = walk (walkStep here c) cs := rfl

@[simp] theorem walkStep_dotdot (here : List PathName) : walkStep here dotdot = here.dropLast :=
  if_pos rfl

theorem walkStep_of_ne {c : PathName} (h : c ≠ dotdot) (here : List PathName) :
    walkStep here c = here ++ [c] := if_neg h

/-- A walk from a directory is the walk from the root, under the level it has climbed to. -/
theorem walk_append (base here : List PathName) (cs : List PathName) :
    walk (base ++ here) cs = base.take (base.length - climb here.length cs) ++ walk here cs := by
  induction cs generalizing base here with
  | nil => simp [climb]
  | cons c cs ih =>
    rw [walk_cons, walk_cons]
    by_cases hc : c = dotdot
    · subst hc
      rw [walkStep_dotdot, walkStep_dotdot]
      cases hhere : here with
      | nil =>
        have hup := ih base.dropLast []
        rw [List.append_nil, List.length_nil] at hup
        have hclimb : climb 0 (dotdot :: cs) = climb 0 cs + 1 := if_pos rfl
        rw [List.append_nil, List.dropLast_nil, List.length_nil, hclimb, hup,
          List.length_dropLast, List.dropLast_eq_take, List.take_take]
        congr 2
        omega
      | cons x rest =>
        have hclimb : climb (x :: rest).length (dotdot :: cs) = climb rest.length cs := if_pos rfl
        rw [List.dropLast_append_of_ne_nil (by simp), ih, hclimb, List.length_dropLast]
        rfl
    · have hclimb : climb here.length (c :: cs) = climb (here.length + 1) cs := if_neg hc
      rw [walkStep_of_ne hc, walkStep_of_ne hc, List.append_assoc, ih, hclimb, List.length_append,
        List.length_singleton]

/-- A walk leads over its components only. -/
theorem mem_of_mem_walk {here cs : List PathName} {c : PathName} (h : c ∈ walk here cs) :
    c ∈ here ∨ c ∈ cs := by
  induction cs generalizing here with
  | nil => exact Or.inl h
  | cons x cs ih =>
    rcases ih h with h | h
    · rw [walkStep] at h
      split at h
      · exact Or.inl (List.mem_of_mem_dropLast h)
      · rcases List.mem_append.mp h with h | h
        · exact Or.inl h
        · exact Or.inr (List.mem_cons.mpr (Or.inl (List.mem_singleton.mp h)))
    · exact Or.inr (List.mem_cons_of_mem x h)

/-- Plain components are walked down. -/
theorem walk_plain {cs : List PathName} (h : ∀ c ∈ cs, PlainName c) (here : List PathName) :
    walk here cs = here ++ cs := by
  induction cs generalizing here with
  | nil => simp
  | cons c cs ih =>
    obtain ⟨hc, hcs⟩ := List.forall_mem_cons.mp h
    rw [walk_cons, walkStep_of_ne hc.ne_dotdot, ih hcs, List.append_assoc, List.singleton_append]

/-- A walk leads over plain components to a plain place. -/
theorem walk_forall_plain {cs here : List PathName} (hcs : ∀ c ∈ cs, c = dotdot ∨ PlainName c)
    (hhere : ∀ c ∈ here, PlainName c) : ∀ c ∈ walk here cs, PlainName c := by
  induction cs generalizing here with
  | nil => exact hhere
  | cons c cs ih =>
    obtain ⟨hc, hrest⟩ := List.forall_mem_cons.mp hcs
    rw [walk_cons]
    apply ih hrest
    rcases hc with rfl | hc
    · rw [walkStep_dotdot]
      exact fun c hmem => hhere c (List.mem_of_mem_dropLast hmem)
    · rw [walkStep_of_ne hc.ne_dotdot]
      intro c' hmem
      rcases List.mem_append.mp hmem with hmem | hmem
      · exact hhere c' hmem
      · rw [List.mem_singleton.mp hmem]
        exact hc

/-! ## Components and their text -/

theorem slash_notMem_of_mem_splitOn {p c : List Char} (h : c ∈ p.splitOn '/') : '/' ∉ c := by
  induction p generalizing c with
  | nil =>
    rw [List.splitOn_nil, List.mem_singleton] at h
    simp [h]
  | cons x p ih =>
    rw [List.splitOn_cons_eq_if_modifyHead] at h
    by_cases hx : x = '/'
    · subst hx
      rw [if_pos (beq_self_eq_true _)] at h
      rcases List.mem_cons.mp h with rfl | h
      · simp
      · exact ih h
    · rw [if_neg (by simpa using hx)] at h
      cases hp : p.splitOn '/' with
      | nil => exact absurd hp (List.splitOn_ne_nil _ _)
      | cons y ys =>
        rw [hp, List.modifyHead_cons] at h
        rcases List.mem_cons.mp h with rfl | h
        · intro hmem
          rcases List.mem_cons.mp hmem with rfl | hmem
          · exact hx rfl
          · exact ih (hp ▸ List.mem_cons_self) hmem
        · exact ih (hp ▸ List.mem_cons_of_mem _ h)

/-- A character of a text other than the separator is one of a part. -/
theorem mem_splitOn_iff {p : List Char} {x : Char} (hx : x ≠ '/') :
    (∃ c ∈ p.splitOn '/', x ∈ c) ↔ x ∈ p := by
  induction p with
  | nil => simp
  | cons y p ih =>
    rw [List.splitOn_cons_eq_if_modifyHead, List.mem_cons]
    by_cases hy : y = '/'
    · subst hy
      rw [if_pos (beq_self_eq_true _)]
      simp [hx, ih]
    · rw [if_neg (by simpa using hy)]
      cases hp : p.splitOn '/' with
      | nil => exact absurd hp (List.splitOn_ne_nil _ _)
      | cons c cs =>
        rw [hp] at ih
        rw [List.modifyHead_cons, ← ih]
        simp [or_assoc]

theorem mem_pathNames_iff {p : List Char} {x : Char} (hx : x ≠ '/') (hdot : x ≠ '.') :
    (∃ c ∈ pathNames p, x ∈ c) ↔ x ∈ p := by
  rw [← mem_splitOn_iff hx]
  constructor
  · intro h
    obtain ⟨c, hc, hxc⟩ := h
    exact ⟨c, (List.mem_filter.mp hc).1, hxc⟩
  · intro h
    obtain ⟨c, hc, hxc⟩ := h
    refine ⟨c, List.mem_filter.mpr ⟨hc, ?_⟩, hxc⟩
    have hne : c ≠ ['.'] := by
      rintro rfl
      exact hdot (List.mem_singleton.mp hxc)
    simpa using ⟨List.ne_nil_of_mem hxc, hne⟩

theorem pathNames_forall (p : List Char) : ∀ c ∈ pathNames p, c = dotdot ∨ PlainName c := by
  intro c hc
  obtain ⟨hc, hne⟩ := List.mem_filter.mp hc
  simp only [decide_eq_true_eq] at hne
  by_cases hdd : c = dotdot
  · exact Or.inl hdd
  · exact Or.inr ⟨hne.1, hne.2, hdd, slash_notMem_of_mem_splitOn hc⟩

/-- The components of a text of plain components. -/
theorem pathNames_joinNames {cs : List PathName} (h : ∀ c ∈ cs, PlainName c) :
    pathNames (joinNames cs) = cs := by
  cases cs with
  | nil => rfl
  | cons c cs =>
    rw [pathNames, joinNames, List.splitOn_intercalate '/' (fun l hl => (h l hl).slash) (by simp)]
    apply List.filter_eq_self.mpr
    intro l hl
    simpa using ⟨(h l hl).ne_nil, (h l hl).ne_dot⟩

theorem joinNames_cons_cons (c d : PathName) (cs : List PathName) :
    joinNames (c :: d :: cs) = c ++ '/' :: joinNames (d :: cs) := by
  simp [joinNames]

/-- The text of plain components is relative. -/
theorem joinNames_head {cs : List PathName} (h : ∀ c ∈ cs, PlainName c) :
    (joinNames cs).head? ≠ some '/' := by
  cases cs with
  | nil => simp [joinNames]
  | cons c cs =>
    have hc := h c List.mem_cons_self
    cases hchars : c with
    | nil => exact absurd hchars hc.ne_nil
    | cons x rest =>
      have hx : x ≠ '/' := by
        rintro rfl
        exact hc.slash (hchars ▸ List.mem_cons_self)
      cases cs with
      | nil => simpa [joinNames] using hx
      | cons d cs =>
        rw [joinNames_cons_cons]
        simpa using hx

theorem pathNames_slash (p : List Char) : pathNames ('/' :: p) = pathNames p := by
  have : ('/' :: p).splitOn '/' = [] :: p.splitOn '/' := by
    rw [show '/' :: p = [] ++ '/' :: p from rfl, List.splitOn_append_cons_self]
    simp
  rw [pathNames, this, List.filter_cons_of_neg (by simp)]
  rfl

/-! ## The normal form of a text -/

/-- The leading slashes of a text: two are kept, three or more are one. -/
def splitRoot : List Char → List Char × List Char
  | '/' :: '/' :: '/' :: rest => (['/'], '/' :: '/' :: rest)
  | '/' :: '/' :: rest => (['/', '/'], rest)
  | '/' :: rest => (['/'], rest)
  | p => ([], p)

/-- A component of the normal form: `..` is kept only where nothing stands before it. -/
def normStep (rooted : Bool) (done : List PathName) (c : PathName) : List PathName :=
  if c = [] ∨ c = ['.'] then done
  else if c ≠ dotdot ∨ (rooted = false ∧ done = []) ∨ done.getLast? = some dotdot then done ++ [c]
  else done.dropLast

/-- `posixpath.normpath`. -/
def normpath (p : List Char) : List Char :=
  let root := (splitRoot p).1
  let done := ((splitRoot p).2.splitOn '/').foldl (normStep (root ≠ [])) []
  if root ++ joinNames done = [] then ['.'] else root ++ joinNames done

/-- Under a root the components are walked. -/
theorem foldl_normStep {cs done : List PathName} (hslash : ∀ c ∈ cs, '/' ∉ c)
    (hdone : ∀ c ∈ done, PlainName c) :
    cs.foldl (normStep true) done = walk done (cs.filter fun c => c ≠ [] ∧ c ≠ ['.']) := by
  induction cs generalizing done with
  | nil => rfl
  | cons c cs ih =>
    obtain ⟨hc, hcs⟩ := List.forall_mem_cons.mp hslash
    rw [List.foldl_cons]
    by_cases hidle : c = [] ∨ c = ['.']
    · rw [normStep, if_pos hidle, ih hcs hdone, List.filter_cons_of_neg (by simp; tauto)]
    · rw [List.filter_cons_of_pos (by simp; tauto), walk_cons]
      have hstep : normStep true done c = walkStep done c := by
        have hlast : done.getLast? ≠ some dotdot := fun h =>
          (hdone dotdot (List.mem_of_getLast? h)).ne_dotdot rfl
        rw [normStep, if_neg hidle, walkStep]
        by_cases hdd : c = dotdot
        · rw [if_neg (by simp [hdd, hlast]), if_pos hdd]
        · rw [if_pos (Or.inl hdd), if_neg hdd]
      rw [hstep]
      apply ih hcs
      rw [walkStep]
      split
      · exact fun c hmem => hdone c (List.mem_of_mem_dropLast hmem)
      · intro c' hmem
        rcases List.mem_append.mp hmem with hmem | hmem
        · exact hdone c' hmem
        · rw [List.mem_singleton.mp hmem]
          exact ⟨fun h => hidle (Or.inl h), fun h => hidle (Or.inr h), by assumption, hc⟩

/-- The normal form of an absolute text: its slashes, and where it leads. -/
theorem normpath_absolute (p : List Char) :
    normpath ('/' :: p) =
      (splitRoot ('/' :: p)).1 ++ joinNames (walk [] (pathNames ('/' :: p))) := by
  have hroot : (splitRoot ('/' :: p)).1 ≠ [] ∧
      pathNames (splitRoot ('/' :: p)).2 = pathNames ('/' :: p) := by
    rw [pathNames_slash]
    unfold splitRoot
    split <;> simp_all [pathNames_slash]
  obtain ⟨hlead, hrest⟩ := hroot
  have hdone : ((splitRoot ('/' :: p)).2.splitOn '/').foldl
      (normStep (decide ((splitRoot ('/' :: p)).1 ≠ []))) [] = walk [] (pathNames ('/' :: p)) := by
    rw [decide_eq_true hlead, foldl_normStep (fun c hc => slash_notMem_of_mem_splitOn hc) (by simp),
      ← hrest, pathNames]
  simp only [normpath, hdone]
  rw [if_neg fun h => hlead (List.append_eq_nil_iff.mp h).1]

/-! ## Links -/

/-- The character no component of a file system has. -/
def nul : Char := Char.ofNat 0

/-- A walk that goes where each place leads. It ends at a component that cannot be looked up. -/
def resolveLinks (follow : List PathName → List PathName) (here : List PathName) :
    List PathName → Option (List PathName)
  | [] => some here
  | c :: cs =>
    if c = dotdot then resolveLinks follow here.dropLast cs
    else if nul ∈ c then none
    else resolveLinks follow (follow (here ++ [c])) cs

/-- The places a walk looks up. -/
def lookups (here : List PathName) : List PathName → List (List PathName)
  | [] => []
  | c :: cs =>
    if c = dotdot then lookups here.dropLast cs else (here ++ [c]) :: lookups (here ++ [c]) cs

section Links

variable {follow : List PathName → List PathName} {base here cs ds : List PathName}

theorem resolveLinks_append : resolveLinks follow here (cs ++ ds) =
    (resolveLinks follow here cs).bind fun there => resolveLinks follow there ds := by
  induction cs generalizing here with
  | nil => rfl
  | cons c cs ih =>
    rw [List.cons_append, resolveLinks, resolveLinks]
    by_cases hc : c = dotdot
    · rw [if_pos hc, if_pos hc, ih]
    · by_cases hnul : nul ∈ c
      · rw [if_neg hc, if_neg hc, if_pos hnul, if_pos hnul, Option.bind_none]
      · rw [if_neg hc, if_neg hc, if_neg hnul, if_neg hnul, ih]

/-- A component that cannot be looked up ends the walk, also where `..` leaves it again. -/
theorem resolveLinks_nul (h : ∃ c ∈ cs, nul ∈ c) : resolveLinks follow here cs = none := by
  induction cs generalizing here with
  | nil => simp at h
  | cons c cs ih =>
    rw [resolveLinks]
    by_cases hnul : nul ∈ c
    · have hc : c ≠ dotdot := by
        rintro rfl
        exact absurd hnul (by decide)
      rw [if_neg hc, if_pos hnul]
    · have hrest : ∃ c ∈ cs, nul ∈ c := by simpa [hnul] using h
      rw [if_neg hnul, ih hrest, ih hrest, ite_self]

/-- Where no link is met, a walk that stays under a directory is the walk. -/
theorem resolveLinks_under (hfollow : ∀ there, follow (base ++ there) = base ++ there)
    (hnul : ∀ c ∈ cs, nul ∉ c) (hclimb : climb here.length cs = 0) :
    resolveLinks follow (base ++ here) cs = some (base ++ walk here cs) := by
  induction cs generalizing here with
  | nil => rfl
  | cons c cs ih =>
    obtain ⟨hc, hcs⟩ := List.forall_mem_cons.mp hnul
    rw [resolveLinks, walk_cons]
    by_cases hdd : c = dotdot
    · subst hdd
      rw [if_pos rfl, walkStep_dotdot]
      cases here with
      | nil =>
        have : climb 0 (dotdot :: cs) = climb 0 cs + 1 := if_pos rfl
        simp only [List.length_nil] at hclimb
        omega
      | cons x rest =>
        have hstep : climb (x :: rest).length (dotdot :: cs) = climb rest.length cs := if_pos rfl
        rw [List.dropLast_append_of_ne_nil (by simp), ih hcs]
        rw [List.length_dropLast, ← hclimb, hstep]
        rfl
    · rw [if_neg hdd, if_neg hc, walkStep_of_ne hdd, List.append_assoc, hfollow, ih hcs]
      have hstep : climb here.length (c :: cs) = climb (here.length + 1) cs := if_neg hdd
      rw [List.length_append, List.length_singleton, ← hstep, hclimb]

/-- Where no link is met, a resolution is the walk. -/
theorem resolveLinks_lookups (hfollow : ∀ there ∈ lookups here cs, follow there = there)
    (hnul : ∀ c ∈ cs, nul ∉ c) : resolveLinks follow here cs = some (walk here cs) := by
  induction cs generalizing here with
  | nil => rfl
  | cons c cs ih =>
    obtain ⟨hc, hcs⟩ := List.forall_mem_cons.mp hnul
    rw [lookups] at hfollow
    rw [resolveLinks, walk_cons, walkStep]
    by_cases hdd : c = dotdot
    · rw [if_pos hdd] at hfollow
      rw [if_pos hdd, if_pos hdd, ih hfollow hcs]
    · rw [if_neg hdd] at hfollow
      obtain ⟨hfirst, hrest⟩ := List.forall_mem_cons.mp hfollow
      rw [if_neg hdd, if_neg hc, if_neg hdd, hfirst, ih hrest hcs]

/-- A walk down meets places under its start. -/
theorem lookups_plain (h : ∀ c ∈ cs, PlainName c) {there : List PathName}
    (hthere : there ∈ lookups here cs) : here <+: there := by
  induction cs generalizing here with
  | nil => cases hthere
  | cons c cs ih =>
    obtain ⟨hc, hcs⟩ := List.forall_mem_cons.mp h
    rw [lookups, if_neg hc.ne_dotdot] at hthere
    rcases List.mem_cons.mp hthere with rfl | hthere
    · exact List.prefix_append _ _
    · exact (List.prefix_append _ _).trans (ih hcs hthere)

/-- A resolved path leads to itself. -/
theorem resolveLinks_resolved (hplain : ∀ c ∈ cs, PlainName c) (hnul : ∀ c ∈ cs, nul ∉ c)
    (hfollow : ∀ there, there <+: cs → follow (here ++ there) = here ++ there) :
    resolveLinks follow here cs = some (here ++ cs) := by
  induction cs generalizing here with
  | nil => simp [resolveLinks]
  | cons c cs ih =>
    obtain ⟨hc, hcs⟩ := List.forall_mem_cons.mp hplain
    obtain ⟨hn, hns⟩ := List.forall_mem_cons.mp hnul
    rw [resolveLinks, if_neg hc.ne_dotdot, if_neg hn, hfollow [c] (by simp), ih hcs hns]
    · rw [List.append_assoc, List.singleton_append]
    · intro there hthere
      have := hfollow (c :: there) (List.cons_prefix_cons.mpr ⟨rfl, hthere⟩)
      rwa [List.append_assoc, List.singleton_append]

end Links

end Noezema.Lib
