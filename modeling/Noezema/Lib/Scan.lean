import Mathlib

/-! # Tags in a text

Printed tags and texts that hold them. A tag is an opening, a body of fixed length over an
alphabet, and a closing symbol; where the first symbol of the opening is nowhere else in a
tag, tags do not overlap, and a search that goes on behind each match finds every tag of
the text. The rest is about lines: a text is cut at its line breaks, and a word without a
break is in the text exactly when it is in one of its lines.
-/

namespace Noezema.Lib

open List

variable {α : Type*}

/-! ## Words in a text -/

theorem prefix_append_cons_iff {s : α} {w a b : List α} (h : s ∉ w) :
    w <+: a ++ s :: b ↔ w <+: a := by
  induction a generalizing w with
  | nil =>
    cases w with
    | nil => simp
    | cons x w =>
      have hx : x ≠ s := fun e => h (e ▸ mem_cons_self)
      simp [cons_prefix_cons, hx]
  | cons y a ih =>
    cases w with
    | nil => simp
    | cons x w =>
      rw [cons_append, cons_prefix_cons, cons_prefix_cons, ih fun hs => h (mem_cons_of_mem _ hs)]

/-- A word without the separator is on one side of it. -/
theorem infix_append_cons_iff {s : α} {w a b : List α} (h : s ∉ w) :
    w <:+: a ++ s :: b ↔ w <:+: a ∨ w <:+: b := by
  induction a with
  | nil =>
    have hnil : w <+: s :: b ↔ w <+: [] := prefix_append_cons_iff (a := []) h
    rw [nil_append, infix_cons_iff, hnil, infix_nil, prefix_nil]
  | cons y a ih =>
    have hcons : w <+: y :: (a ++ s :: b) ↔ w <+: y :: a :=
      prefix_append_cons_iff (a := y :: a) h
    rw [cons_append, infix_cons_iff, infix_cons_iff, ih, hcons, or_assoc]

theorem infix_cons_iff_of_not_mem {s : α} {w b : List α} (hw : w ≠ []) (h : s ∉ w) :
    w <:+: s :: b ↔ w <:+: b := by
  have := infix_append_cons_iff (a := []) (b := b) h
  simpa [hw] using this

/-- A word without the separator is in a joined text exactly when it is in one part. -/
theorem infix_intercalate_iff {s : α} {w : List α} (hw : w ≠ []) (h : s ∉ w)
    (parts : List (List α)) :
    w <:+: intercalate [s] parts ↔ ∃ part ∈ parts, w <:+: part := by
  induction parts with
  | nil => simp [intercalate, hw]
  | cons a rest ih =>
    cases rest with
    | nil => simp [intercalate]
    | cons b rest =>
      rw [intercalate_cons_cons, append_assoc, singleton_append, infix_append_cons_iff h, ih]
      simp

/-- A word that ends in `s` is not completed by symbols other than `s`. -/
theorem infix_append_of_getLast {s : α} {w a b : List α} (hlast : w.getLast? = some s)
    (hb : s ∉ b) : w <:+: a ++ b ↔ w <:+: a := by
  refine ⟨fun h => ?_, fun h => h.trans (prefix_append a b).isInfix⟩
  have hend : ∀ v : List α, v ≠ [] → v <:+ w → s ∈ v := by
    intro v hv ⟨u, hu⟩
    rw [← hu, getLast?_append_of_ne_nil _ hv] at hlast
    exact mem_of_getLast? hlast
  rcases infix_append_iff_ne_nil.mp h with h | h | ⟨l₁, l₂, -, hne, rfl, -, h₂⟩
  · exact h
  · exact absurd (h.subset (hend w (by rintro rfl; simp at hlast) suffix_rfl)) hb
  · exact absurd (h₂.subset (hend l₂ hne (suffix_append l₁ l₂))) hb

/-! ## Tags -/

/-- A form of tags: `first :: opening`, then `length` symbols of the alphabet, then
`closing`. The first symbol is nowhere else in a tag. -/
structure TagForm (α : Type*) where
  first : α
  opening : List α
  alphabet : α → Bool
  length : Nat
  closing : α
  first_opening : first ∉ opening
  first_alphabet : alphabet first = false
  first_closing : first ≠ closing

namespace TagForm

variable (form : TagForm α)

/-- The tag of a body. -/
def tag (body : List α) : List α := form.first :: (form.opening ++ body ++ [form.closing])

/-- A body of the right length and alphabet. -/
def IsBody (body : List α) : Prop := body.length = form.length ∧ ∀ x ∈ body, form.alphabet x

instance (body : List α) : Decidable (form.IsBody body) := by
  unfold IsBody
  infer_instance

variable [DecidableEq α]

/-- The body of the tag that the text begins with. -/
def body? (text : List α) : Option (List α) :=
  let body := (text.drop (form.opening.length + 1)).take form.length
  if form.IsBody body ∧ form.tag body <+: text then some body else none

/-- The bodies of the tags, a match being skipped as a whole. -/
def scanFrom : Nat → List α → List (List α)
  | _, [] => []
  | skip + 1, _ :: rest => scanFrom skip rest
  | 0, x :: rest =>
    match form.body? (x :: rest) with
    | some body => body :: scanFrom (form.tag body).length.pred rest
    | none => scanFrom 0 rest

/-- The bodies of all tags of the text, from left to right. -/
def scan (text : List α) : List (List α) := form.scanFrom 0 text

variable {form}

omit [DecidableEq α] in
theorem length_tag (body : List α) :
    (form.tag body).length = form.opening.length + body.length + 2 := by
  simp only [tag, length_cons, length_append, length_nil]

omit [DecidableEq α] in
theorem length_tag_eq {body body' : List α} (h : form.IsBody body) (h' : form.IsBody body') :
    (form.tag body).length = (form.tag body').length := by
  rw [length_tag, length_tag, h.1, h'.1]

omit [DecidableEq α] in
theorem tag_injective {body body' : List α} (h : form.tag body = form.tag body') :
    body = body' := by
  simpa [tag] using h

theorem body?_eq_some_iff {text body : List α} :
    form.body? text = some body ↔ form.IsBody body ∧ form.tag body <+: text := by
  unfold body?
  constructor
  · intro h
    rw [Option.ite_none_right_eq_some] at h
    obtain ⟨h, hbody⟩ := h
    cases hbody
    exact h
  · rintro ⟨hbody, rest, rfl⟩
    have hread : ((form.tag body ++ rest).drop (form.opening.length + 1)).take form.length =
        body := by
      simp [tag, ← hbody.1]
    rw [hread]
    exact if_pos ⟨hbody, prefix_append _ _⟩

/-- A tag begins where its first symbol stands. -/
theorem body?_cons_of_ne {x : α} (hx : x ≠ form.first) (rest : List α) :
    form.body? (x :: rest) = none := by
  rw [Option.eq_none_iff_forall_ne_some]
  intro body h
  have htag := (body?_eq_some_iff.mp h).2
  rw [tag, cons_prefix_cons] at htag
  exact hx htag.1.symm

omit [DecidableEq α] in
theorem first_not_mem_tail {body : List α} (hbody : form.IsBody body) :
    form.first ∉ (form.tag body).tail := by
  intro h
  simp only [tag, tail_cons, mem_append, mem_singleton] at h
  rcases h with (h | h) | h
  · exact form.first_opening h
  · exact absurd (hbody.2 _ h) (by simp [form.first_alphabet])
  · exact form.first_closing h

/-- Nothing is missed by skipping symbols of which none opens a tag. -/
theorem scanFrom_append {skipped : List α} (h : form.first ∉ skipped) (rest : List α) :
    form.scanFrom 0 (skipped ++ rest) = form.scanFrom 0 rest := by
  induction skipped with
  | nil => rfl
  | cons x skipped ih =>
    have hx : x ≠ form.first := fun e => h (e ▸ mem_cons_self)
    rw [cons_append, scanFrom, body?_cons_of_ne hx]
    exact ih fun hs => h (mem_cons_of_mem _ hs)

theorem scanFrom_length (skipped rest : List α) :
    form.scanFrom skipped.length (skipped ++ rest) = form.scanFrom 0 rest := by
  induction skipped with
  | nil => rfl
  | cons x skipped ih => exact ih

/-- The search that does not skip. -/
theorem scan_cons (x : α) (rest : List α) :
    form.scan (x :: rest) = (form.body? (x :: rest)).toList ++ form.scan rest := by
  unfold scan
  rw [scanFrom]
  cases hb : form.body? (x :: rest) with
  | none => rfl
  | some body =>
    obtain ⟨hbody, after, htext⟩ := body?_eq_some_iff.mp hb
    have hrest : rest = (form.tag body).tail ++ after := by
      rw [tag, cons_append, cons.injEq] at htext
      exact htext.2.symm
    have hlen : (form.tag body).length.pred = (form.tag body).tail.length := by
      simp [length_tag]
    simp only [Option.toList_some, singleton_append]
    rw [hlen, hrest, scanFrom_length, scanFrom_append (first_not_mem_tail hbody)]

/-- **The search finds the tags.** -/
theorem mem_scan {text body : List α} :
    body ∈ form.scan text ↔ form.IsBody body ∧ form.tag body <:+: text := by
  induction text with
  | nil =>
    have hne : form.tag body ≠ [] := by simp [tag]
    simp [scan, scanFrom, hne]
  | cons x rest ih =>
    rw [scan_cons, mem_append, ih, Option.mem_toList, body?_eq_some_iff, infix_cons_iff,
      and_or_left]

end TagForm

/-! ## Lines -/

section Lines

/-- A line break; a return and a feed together are one. -/
def isLineBreak (c : Char) : Bool :=
  let n := c.toNat
  (10 ≤ n && n ≤ 13) || (28 ≤ n && n ≤ 30) || n = 133 || n = 8232 || n = 8233

/-- The pieces between the line breaks, an empty last one included. -/
def pieces : List Char → List (List Char)
  | [] => [[]]
  | '\r' :: '\n' :: rest => [] :: pieces rest
  | c :: rest => if isLineBreak c then [] :: pieces rest else (pieces rest).modifyHead (c :: ·)

/-- `str.splitlines()`: a break at the end opens no line. -/
def splitlines (text : List Char) : List (List Char) :=
  if (pieces text).getLast? = some [] then (pieces text).dropLast else pieces text

theorem pieces_cons_of_break {c : Char} {text : List Char} (hc : isLineBreak c)
    (hcr : ¬ (c = '\r' ∧ text.head? = some '\n')) : pieces (c :: text) = [] :: pieces text := by
  rw [pieces, if_pos hc]
  intro rest hr htext
  exact hcr ⟨hr, by simp [htext]⟩

theorem pieces_cons_of_not_break {c : Char} (text : List Char) (hc : ¬ isLineBreak c) :
    pieces (c :: text) = (pieces text).modifyHead (c :: ·) := by
  rw [pieces, if_neg hc]
  rintro rest rfl
  exact absurd (by decide) hc

theorem pieces_ne_nil (text : List Char) : pieces text ≠ [] := by
  fun_induction pieces text with
  | case1 => simp
  | case2 rest ih => simp
  | case3 c rest hcr hc ih => simp
  | case4 c rest hcr hc ih => simpa [modifyHead_eq_nil_iff] using ih

/-- Two cut texts one after the other: the last piece goes on with the first. -/
def glue : List (List Char) → List (List Char) → List (List Char)
  | [], qs => qs
  | [p], qs => qs.modifyHead (p ++ ·)
  | p :: p' :: ps, qs => p :: glue (p' :: ps) qs

theorem glue_cons {ps : List (List Char)} (h : ps ≠ []) (p : List Char)
    (qs : List (List Char)) : glue (p :: ps) qs = p :: glue ps qs := by
  obtain ⟨p', ps, rfl⟩ := exists_cons_of_ne_nil h
  rfl

theorem glue_modifyHead {ps : List (List Char)} (h : ps ≠ []) (c : Char)
    (qs : List (List Char)) :
    glue (ps.modifyHead (c :: ·)) qs = (glue ps qs).modifyHead (c :: ·) := by
  match ps, qs with
  | [p], [] => rfl
  | [p], q :: qs => rfl
  | p :: p' :: ps, qs => rfl

theorem glue_nil_cons {ps : List (List Char)} (h : ps ≠ []) (qs : List (List Char)) :
    glue ps ([] :: qs) = ps ++ qs := by
  induction ps with
  | nil => exact absurd rfl h
  | cons p ps ih =>
    cases ps with
    | nil => simp [glue]
    | cons p' ps =>
      rw [glue, ih (cons_ne_nil _ _)]
      rfl

/-- Only a return before a feed is read differently in a longer text. -/
theorem pieces_append {a b : List Char}
    (hcr : a.getLast? = some '\r' → b.head? ≠ some '\n') :
    pieces (a ++ b) = glue (pieces a) (pieces b) := by
  fun_induction pieces a with
  | case1 =>
    obtain ⟨q, qs, hq⟩ := exists_cons_of_ne_nil (pieces_ne_nil b)
    simp [hq, glue]
  | case2 rest ih =>
    rw [glue_cons (pieces_ne_nil rest), cons_append, cons_append, pieces, ih]
    intro hlast
    exact hcr (by cases rest <;> simp_all)
  | case3 c rest hfeed hc ih =>
    rw [glue_cons (pieces_ne_nil rest), cons_append, pieces_cons_of_break hc, ih]
    · intro hlast
      exact hcr (by cases rest <;> simp_all)
    · rintro ⟨rfl, hhead⟩
      cases rest with
      | nil => exact hcr rfl (by simpa using hhead)
      | cons d rest =>
        simp only [cons_append, head?_cons, Option.some.injEq] at hhead
        exact hfeed rest rfl (by rw [hhead])
  | case4 c rest hfeed hc ih =>
    rw [glue_modifyHead (pieces_ne_nil rest), cons_append, pieces_cons_of_not_break _ hc, ih]
    intro hlast
    exact hcr (by cases rest <;> simp_all)

theorem pieces_of_unbroken {a : List Char} (h : ∀ c ∈ a, ¬ isLineBreak c) : pieces a = [a] := by
  induction a with
  | nil => rfl
  | cons c a ih =>
    rw [pieces_cons_of_not_break a (h c mem_cons_self), ih fun d hd => h d (mem_cons_of_mem _ hd)]
    rfl

/-- The text ends inside a line. -/
def EndsInLine (text : List Char) : Prop := ∃ c, text.getLast? = some c ∧ ¬ isLineBreak c

theorem EndsInLine.append {b : List Char} (h : EndsInLine b) (a : List Char) :
    EndsInLine (a ++ b) := by
  obtain ⟨c, hc, hbreak⟩ := h
  refine ⟨c, ?_, hbreak⟩
  rw [getLast?_append, hc, Option.some_or]

theorem getLast?_glue {ps : List (List Char)} (h : ps ≠ []) (q : List Char) :
    ∃ p, (glue ps [q]).getLast? = some (p ++ q) := by
  induction ps with
  | nil => exact absurd rfl h
  | cons p ps ih =>
    cases ps with
    | nil => exact ⟨p, rfl⟩
    | cons p' ps =>
      obtain ⟨last, hlast⟩ := ih (cons_ne_nil _ _)
      refine ⟨last, ?_⟩
      rw [glue, getLast?_cons, hlast]
      rfl

theorem splitlines_of_endsInLine {text : List Char} (h : EndsInLine text) :
    splitlines text = pieces text := by
  obtain ⟨c, hc, hbreak⟩ := h
  obtain ⟨init, rfl⟩ := getLast?_eq_some_iff.mp hc
  have hone : pieces [c] = [[c]] := pieces_of_unbroken (by simpa using hbreak)
  have hfeed : [c].head? ≠ some '\n' := by
    rintro heq
    cases heq
    exact hbreak (by decide)
  obtain ⟨p, hp⟩ := getLast?_glue (pieces_ne_nil init) [c]
  refine if_neg ?_
  rw [pieces_append fun _ => hfeed, hone, hp]
  simp

/-! ## Words and lines -/

/-- A word without a break is at the beginning of the text or of its first piece. -/
theorem prefix_iff_pieces {w text : List Char} (hw : ∀ c ∈ w, ¬ isLineBreak c) :
    w <+: text ↔ ∃ p ∈ (pieces text).head?, w <+: p := by
  fun_induction pieces text generalizing w with
  | case1 => simp
  | case2 rest ih =>
    cases w with
    | nil => simp
    | cons c w =>
      have hc : c ≠ '\r' := fun e => hw c mem_cons_self (by rw [e]; decide)
      simp [hc]
  | case3 c rest hfeed hc ih =>
    cases w with
    | nil => simp
    | cons d w =>
      have hd : d ≠ c := fun e => hw d mem_cons_self (by rw [e]; exact hc)
      simp [hd]
  | case4 c rest hfeed hc ih =>
    cases w with
    | nil => simpa using (ih (w := []) (by simp))
    | cons d w =>
      have hrest := ih fun e he => hw e (mem_cons_of_mem _ he)
      obtain ⟨p, ps, hp⟩ := exists_cons_of_ne_nil (pieces_ne_nil rest)
      rw [hp] at hrest ⊢
      simp [cons_prefix_cons] at hrest ⊢
      intro _
      exact hrest

/-- A word without a break is in the text exactly when it is in one of the pieces. -/
theorem infix_iff_pieces {w text : List Char} (hne : w ≠ []) (hw : ∀ c ∈ w, ¬ isLineBreak c) :
    w <:+: text ↔ ∃ p ∈ pieces text, w <:+: p := by
  fun_induction pieces text with
  | case1 => simp
  | case2 rest ih =>
    have hr : '\r' ∉ w := fun h => hw _ h (by decide)
    have hn : '\n' ∉ w := fun h => hw _ h (by decide)
    rw [infix_cons_iff_of_not_mem hne hr, infix_cons_iff_of_not_mem hne hn, ih]
    simp [hne]
  | case3 c rest hfeed hc ih =>
    rw [infix_cons_iff_of_not_mem hne fun h => hw c h hc, ih]
    simp [hne]
  | case4 c rest hfeed hc ih =>
    have hhead : w <+: c :: rest ↔ ∃ p ∈ (pieces (c :: rest)).head?, w <+: p :=
      prefix_iff_pieces hw
    rw [pieces_cons_of_not_break rest hc] at hhead
    rw [infix_cons_iff, ih, hhead]
    obtain ⟨p, ps, hp⟩ := exists_cons_of_ne_nil (pieces_ne_nil rest)
    rw [hp]
    simp [infix_cons_iff, or_assoc]

theorem infix_iff_splitlines {w text : List Char} (hne : w ≠ [])
    (hw : ∀ c ∈ w, ¬ isLineBreak c) : w <:+: text ↔ ∃ l ∈ splitlines text, w <:+: l := by
  rw [infix_iff_pieces hne hw]
  unfold splitlines
  split
  · rename_i hlast
    -- the dropped line is empty
    obtain ⟨init, hinit⟩ := getLast?_eq_some_iff.mp hlast
    rw [hinit, dropLast_concat]
    simp [hne]
  · rfl

theorem forall_glue_singleton {w post : List Char} {s : Char} (hlast : w.getLast? = some s)
    (hpost : s ∉ post) {ps : List (List Char)} (hne : ps ≠ []) :
    (∀ l ∈ glue ps [post], w <:+: l) ↔ ∀ l ∈ ps, w <:+: l := by
  induction ps with
  | nil => exact absurd rfl hne
  | cons p ps ih =>
    cases ps with
    | nil => simp [glue, infix_append_of_getLast hlast hpost]
    | cons p' ps =>
      rw [glue, forall_mem_cons, forall_mem_cons, ih (cons_ne_nil _ _)]

/-- **A word at the beginning.** A text is put between two texts without a break, of which
the first has the word: every line has the word exactly when every piece of the text after
the first one has it. -/
theorem forall_splitlines_within {w pre text post : List Char} {s : Char}
    (hlast : w.getLast? = some s) (hpost : s ∉ post) (hpre : w <:+: pre)
    (hunbroken : ∀ c ∈ pre ++ post, ¬ isLineBreak c) (hne : post ≠ []) :
    (∀ l ∈ splitlines (pre ++ (text ++ post)), w <:+: l) ↔
      ∀ l ∈ (pieces text).tail, w <:+: l := by
  have hpreBreak : ∀ c ∈ pre, ¬ isLineBreak c := fun c hc => hunbroken c (mem_append_left _ hc)
  have hpostBreak : ∀ c ∈ post, ¬ isLineBreak c := fun c hc => hunbroken c (mem_append_right _ hc)
  have hends : EndsInLine (pre ++ (text ++ post)) := by
    have hend := getLast?_eq_some_getLast hne
    exact EndsInLine.append (EndsInLine.append ⟨_, hend, hpostBreak _ (getLast_mem hne)⟩ _) _
  have hreturn : pre.getLast? ≠ some '\r' := fun h =>
    hpreBreak _ (mem_of_getLast? h) (by decide)
  have hfeed : post.head? ≠ some '\n' := fun h => hpostBreak _ (mem_of_mem_head? h) (by decide)
  rw [splitlines_of_endsInLine hends, pieces_append fun h => absurd h hreturn,
    pieces_append fun _ => hfeed, pieces_of_unbroken hpreBreak, pieces_of_unbroken hpostBreak]
  obtain ⟨p, ps, hp⟩ := exists_cons_of_ne_nil (pieces_ne_nil text)
  have hfirst : ∀ q, w <:+: pre ++ q := fun q => hpre.trans (prefix_append pre q).isInfix
  rw [hp, tail_cons]
  cases ps with
  | nil => simp [glue, hfirst]
  | cons p' ps =>
    rw [glue, glue, modifyHead_cons, forall_mem_cons,
      forall_glue_singleton hlast hpost (cons_ne_nil p' ps)]
    exact and_iff_right (hfirst p)

end Lines

end Noezema.Lib
