import Mathlib.Data.List.Infix
import Noezema.Memory.Reference

/-! # The removal of a container

`rm -f` that answers zero proves nothing: the engine may still be creating the container. So the
cleanup of a container looks for it after every removal, and counts it as gone when every look says
so for a whole window. It makes one more removal when the container has appeared, stays under one
ceiling, and names the container in one warning where it could not see it gone.

Times are milliseconds. What the engine answers, how long each call takes and how much longer than
asked the pauses are is data.
-/

namespace Noezema.Sandbox

/-! ## The engine -/

/-- `_CLEANUP_CEILING_SECONDS`. -/
def cleanupCeiling : Nat := 8000

/-- `_CONFIRM_POLL_INTERVAL_SECONDS`. -/
def confirmPollInterval : Nat := 100

/-- `_CONFIRM_ABSENT_WINDOW_SECONDS`. -/
def confirmAbsentWindow : Nat := 1500

/-- `_CONFIRM_MIN_CALL_SECONDS`. -/
def confirmMinCall : Nat := 250

/-- `_MAX_REMOVE_ATTEMPTS`. -/
def maxRemoveAttempts : Nat := 2

/-- What `_run` comes back with: a `SandboxError`, or an exit code and the error output. -/
inductive EngineAnswer where
  | raises (message : String)
  | answers (rc : Int) (err : String)
deriving DecidableEq, Repr

/-- One call of the engine, and how much longer than asked the pause after it lasts. -/
structure EngineCall where
  answer : EngineAnswer
  took : Nat
  extraPause : Nat
deriving DecidableEq, Repr

/-- `text in err.lower()`. -/
def mentions (err text : String) : Bool := text.toList <:+: err.toLower.toList

/-- `err.strip()[:200] or default`. -/
def reasonText (err default : String) : String :=
  let cut := String.ofList ((Memory.strip err.toList).take 200)
  if cut = "" then default else cut

/-- What a look at the container shows. -/
inductive Sighting where
  | present
  | absent
  | unclear (detail : String)
deriving DecidableEq, Repr

/-- How `_confirm_absent` reads the answer of `inspect`. -/
def sighting : EngineAnswer → Sighting
  | .raises message => .unclear message
  | .answers rc err =>
    if rc = 0 then .present
    else if mentions err "no such" then .absent
    else .unclear (reasonText err "engine refused to answer")

/-! ## Looking for the container -/

inductive Verdict where
  | absent
  | present
  | unknown
deriving DecidableEq, Repr

/-- A look: when it began, when it was answered and what it showed. -/
structure Look where
  began : Nat
  seenAt : Nat
  seen : Sighting
deriving DecidableEq, Repr

/-- The locals of `_confirm_absent`, and the clock. -/
structure Confirming where
  now : Nat
  absentSince : Option Nat
  lastError : String
  present : Bool
deriving DecidableEq, Repr

/-- What `_confirm_absent` returns, with the looks it has made and the clock. -/
structure Confirmed where
  verdict : Verdict
  detail : String
  looks : List Look
  now : Nat
deriving DecidableEq, Repr

namespace Confirming

def start (now : Nat) : Confirming := ⟨now, none, "", false⟩

/-- The ceiling is near. -/
def expired (s : Confirming) : Confirmed where
  verdict := if s.present then .present else .unknown
  detail :=
    if s.lastError ≠ "" then s.lastError
    else if s.present then "" else "engine gave no conclusive answer within the ceiling"
  looks := []
  now := s.now

end Confirming

/-- A result with a look before it. -/
def Confirmed.after (look : Look) (c : Confirmed) : Confirmed := { c with looks := look :: c.looks }

/-- The loop of `_confirm_absent`, from the `k`-th call on. -/
def confirmFrom (world : Nat → EngineCall) (deadline : Nat) (stopOnPresent : Bool) :
    Nat → Nat → Confirming → Confirmed
  | 0, _, s => s.expired
  | fuel + 1, k, s =>
    if deadline < s.now + confirmMinCall then s.expired
    else
      let call := world k
      let seenAt := s.now + call.took
      let next := seenAt + confirmPollInterval + call.extraPause
      let look : Look := ⟨s.now, seenAt, sighting call.answer⟩
      match sighting call.answer with
      | .unclear detail =>
        (confirmFrom world deadline stopOnPresent fuel (k + 1)
          ⟨next, none, detail, s.present⟩).after look
      | .present =>
        if stopOnPresent then ⟨.present, "", [look], seenAt⟩
        else
          (confirmFrom world deadline stopOnPresent fuel (k + 1)
            ⟨next, none, s.lastError, true⟩).after look
      | .absent =>
        match s.absentSince with
        | none =>
          (confirmFrom world deadline stopOnPresent fuel (k + 1)
            ⟨next, some seenAt, s.lastError, s.present⟩).after look
        | some since =>
          if confirmAbsentWindow ≤ seenAt - since then ⟨.absent, "", [look], seenAt⟩
          else
            (confirmFrom world deadline stopOnPresent fuel (k + 1)
              ⟨next, some since, s.lastError, s.present⟩).after look

/-- The looks the ceiling leaves time for: each comes a poll interval after the one before. -/
def looksLeft (deadline now : Nat) : Nat := (deadline - now) / confirmPollInterval + 1

/-- `_confirm_absent`. -/
def confirmAbsent (world : Nat → EngineCall) (deadline : Nat) (stopOnPresent : Bool) (k now : Nat) :
    Confirmed :=
  confirmFrom world deadline stopOnPresent (looksLeft deadline now) k (.start now)

/-! ## Removing it -/

/-- A removal: when it was answered, and the looks after it. -/
structure Round where
  removedAt : Nat
  mayRemoveAgain : Bool
  confirmed : Confirmed
deriving DecidableEq, Repr

/-- The warning of a container that may be left. -/
inductive Leak where
  | stillPresent (name place : String)
  | unconfirmed (name place detail : String)
deriving DecidableEq, Repr

/-- What `_remove_and_confirm` returns, with its rounds and what it has logged. -/
structure Removal where
  removed : Bool
  leaks : List Leak
  rounds : List Round
deriving DecidableEq, Repr

/-- `answered`. -/
def EngineAnswer.answered : EngineAnswer → Bool
  | .raises _ => false
  | .answers _ _ => true

/-- `removal_underway`. -/
def EngineAnswer.underway : EngineAnswer → Bool
  | .raises _ => false
  | .answers rc err => rc ≠ 0 && mentions err "already in progress"

/-- The detail after `rm -f`. -/
def EngineAnswer.detail (detail : String) : EngineAnswer → String
  | .raises message => message
  | .answers rc err =>
    if rc ≠ 0 ∧ mentions err "already in progress" = false then reasonText err "no reason given"
    else detail

section Remove

variable (world : Nat → EngineCall) (name place : String) (deadline : Nat)

/-- The warning at the end. -/
def leaked (verdict : Verdict) (detail : String) : Removal where
  removed := false
  leaks :=
    [if verdict = .present then .stillPresent name place else .unconfirmed name place detail]
  rounds := []

/-- A removal with a round before it. -/
def Removal.after (round : Round) (r : Removal) : Removal := { r with rounds := round :: r.rounds }

/-- The loop of `_remove_and_confirm`, `left` attempts before its end. -/
def removeFrom : Nat → Nat → Nat → Verdict → String → Removal
  | 0, _, _, verdict, detail => leaked name place verdict detail
  | left + 1, k, now, verdict, detail =>
    if deadline < now + confirmMinCall then leaked name place verdict detail
    else
      let call := world k
      let removedAt := now + call.took
      let may := call.answer.answered && !call.answer.underway && decide (0 < left)
      let c := confirmAbsent world deadline may (k + 1) removedAt
      let round : Round := ⟨removedAt, may, c⟩
      let detail' := if c.detail ≠ "" then c.detail else call.answer.detail detail
      if c.verdict = .absent then ⟨true, [], [round]⟩
      else if c.verdict = .present ∧ may = true then
        (removeFrom left (k + 1 + c.looks.length) c.now c.verdict detail').after round
      else (leaked name place c.verdict detail').after round

end Remove

/-- `_remove_and_confirm`. -/
def removeAndConfirm (world : Nat → EngineCall) (name place : String) (now : Nat) : Removal :=
  removeFrom world name place (now + cleanupCeiling) maxRemoveAttempts 0 now .unknown
    "the ceiling expired before the engine was asked"

/-! ## The looks of one round -/

section Looks

variable {world : Nat → EngineCall} {deadline : Nat} {stopOnPresent : Bool}

/-- The ceiling ends the loop, not the bound on its looks. -/
theorem confirmFrom_fuel {fuel fuel' k : Nat} {s : Confirming}
    (h : looksLeft deadline s.now ≤ fuel) (h' : looksLeft deadline s.now ≤ fuel') :
    confirmFrom world deadline stopOnPresent fuel k s =
      confirmFrom world deadline stopOnPresent fuel' k s := by
  induction fuel generalizing fuel' k s with
  | zero =>
    exact absurd h (Nat.not_succ_le_zero _)
  | succ fuel ih =>
    cases fuel' with
    | zero =>
      exact absurd h' (Nat.not_succ_le_zero _)
    | succ fuel' =>
      rw [confirmFrom, confirmFrom]
      by_cases hend : deadline < s.now + confirmMinCall
      · rw [if_pos hend, if_pos hend]
      · rw [if_neg hend, if_neg hend]
        have hnext : ∀ next, s.now + confirmPollInterval ≤ next →
            looksLeft deadline next ≤ fuel ∧ looksLeft deadline next ≤ fuel' := by
          intro next hle
          simp only [looksLeft, confirmPollInterval, confirmMinCall] at h h' hend hle ⊢
          omega
        dsimp only
        have hle : s.now + confirmPollInterval ≤
            s.now + (world k).took + confirmPollInterval + (world k).extraPause := by omega
        obtain ⟨h₁, h₂⟩ := hnext _ hle
        split
        · rw [ih h₁ h₂]
        · split
          · rfl
          · rw [ih h₁ h₂]
        · split
          · rw [ih h₁ h₂]
          · split
            · rfl
            · rw [ih h₁ h₂]

/-- When looks are made. -/
structure Timed (deadline start : Nat) (c : Confirmed) : Prop where
  looks : ∀ look ∈ c.looks, start ≤ look.began ∧ look.began ≤ look.seenAt ∧
    look.began + confirmMinCall ≤ deadline ∧ look.seenAt ≤ c.now
  now : start ≤ c.now

theorem Timed.after {c : Confirmed} {start next : Nat} {look : Look} (h : Timed deadline next c)
    (hnext : look.seenAt ≤ next) (hbegan : look.began = start) (hseen : look.began ≤ look.seenAt)
    (hdeadline : start + confirmMinCall ≤ deadline) : Timed deadline start (c.after look) where
  looks x hx := by
    have hle : look.seenAt ≤ c.now := hnext.trans h.now
    rcases List.mem_cons.mp hx with rfl | hx
    · exact ⟨hbegan.ge, hseen, hbegan.symm ▸ hdeadline, hle⟩
    · obtain ⟨hstart, hrest⟩ := h.looks x hx
      exact ⟨by omega, hrest⟩
  now := by
    have := h.now
    show start ≤ c.now
    omega

theorem expired_timed (s : Confirming) : Timed deadline s.now s.expired :=
  ⟨fun _ hlook => absurd hlook List.not_mem_nil, le_rfl⟩

theorem confirmFrom_timed (fuel k : Nat) (s : Confirming) :
    Timed deadline s.now (confirmFrom world deadline stopOnPresent fuel k s) := by
  induction fuel generalizing k s with
  | zero => exact expired_timed s
  | succ fuel ih =>
    rw [confirmFrom]
    split
    · exact expired_timed s
    · rename_i hend
      have hdeadline : s.now + confirmMinCall ≤ deadline := Nat.le_of_not_lt hend
      -- one more look, and then the rest of the loop
      have hstep : ∀ (since : Option Nat) (error : String) (present : Bool),
          Timed deadline s.now ((confirmFrom world deadline stopOnPresent fuel (k + 1)
            ⟨s.now + (world k).took + confirmPollInterval + (world k).extraPause, since, error,
              present⟩).after ⟨s.now, s.now + (world k).took, sighting (world k).answer⟩) := by
        intro since error present
        refine (ih (k + 1) _).after ?_ rfl ?_ hdeadline
        · show s.now + (world k).took ≤ s.now + (world k).took + confirmPollInterval + _
          omega
        · show s.now ≤ s.now + (world k).took
          omega
      have hlast : ∀ verdict, Timed deadline s.now ⟨verdict, "",
          [⟨s.now, s.now + (world k).took, sighting (world k).answer⟩],
          s.now + (world k).took⟩ := by
        intro verdict
        refine ⟨fun look hlook => ?_, Nat.le_add_right _ _⟩
        rw [List.mem_singleton.mp hlook]
        exact ⟨le_rfl, Nat.le_add_right _ _, hdeadline, le_rfl⟩
      dsimp only
      split
      · exact hstep _ _ _
      · split
        · exact hlast .present
        · exact hstep _ _ _
      · split
        · exact hstep _ _ _
        · split
          · exact hlast .absent
          · exact hstep _ _ _

theorem confirmAbsent_timed (k now : Nat) :
    Timed deadline now (confirmAbsent world deadline stopOnPresent k now) :=
  confirmFrom_timed _ _ (.start now)

/-- The last looks all show nothing, from `since` on for a whole window. -/
structure AbsentSince (since : Nat) (stretch : List Look) (now : Nat) : Prop where
  absent : ∀ look ∈ stretch, look.seen = .absent
  ends : ∃ last, stretch.getLast? = some last ∧ last.seenAt = now
  window : since + confirmAbsentWindow ≤ now

/-- The looks at the end that show nothing, the first of them a window before the last. -/
def AbsentWindow (c : Confirmed) : Prop :=
  ∃ before first stretch, c.looks = before ++ first :: stretch ∧ first.seen = .absent ∧
    AbsentSince first.seenAt stretch c.now

theorem AbsentWindow.after {c : Confirmed} (h : AbsentWindow c) (look : Look) :
    AbsentWindow (c.after look) := by
  obtain ⟨before, first, stretch, hlooks, hfirst, hsince⟩ := h
  refine ⟨look :: before, first, stretch, ?_, hfirst, hsince.absent, hsince.ends, hsince.window⟩
  show look :: c.looks = _
  rw [hlooks]
  rfl

/-- A verdict of absence rests on a window, which may have begun before. -/
theorem confirmFrom_absent {fuel k : Nat} {s : Confirming}
    (h : (confirmFrom world deadline stopOnPresent fuel k s).verdict = .absent) :
    AbsentWindow (confirmFrom world deadline stopOnPresent fuel k s) ∨
      ∃ since, s.absentSince = some since ∧
        AbsentSince since (confirmFrom world deadline stopOnPresent fuel k s).looks
          (confirmFrom world deadline stopOnPresent fuel k s).now := by
  have hexpired : ∀ s : Confirming, s.expired.verdict ≠ .absent := by
    intro s
    show (if s.present then Verdict.present else .unknown) ≠ .absent
    split <;> decide
  induction fuel generalizing k s with
  | zero => exact absurd h (hexpired s)
  | succ fuel ih =>
    rw [confirmFrom] at h ⊢
    by_cases hend : deadline < s.now + confirmMinCall
    · rw [if_pos hend] at h
      exact absurd h (hexpired s)
    · rw [if_neg hend] at h ⊢
      dsimp only at h ⊢
      cases hseen : sighting (world k).answer with
      | unclear detail =>
        rw [hseen] at h
        rcases ih h with hwindow | ⟨since, hnone, -⟩
        · exact .inl (hwindow.after _)
        · cases hnone
      | present =>
        rw [hseen] at h
        dsimp only at h ⊢
        by_cases hstop : stopOnPresent = true
        · rw [if_pos hstop] at h
          cases h
        · rw [if_neg hstop] at h ⊢
          rcases ih h with hwindow | ⟨since, hnone, -⟩
          · exact .inl (hwindow.after _)
          · cases hnone
      | absent =>
        rw [hseen] at h
        dsimp only at h ⊢
        cases hsince : s.absentSince with
        | none =>
          rw [hsince] at h
          rcases ih h with hwindow | ⟨since, hsome, hstretch⟩
          · exact .inl (hwindow.after _)
          · cases hsome
            exact .inl ⟨[], _, _, rfl, rfl, hstretch⟩
        | some since =>
          rw [hsince] at h
          dsimp only at h ⊢
          by_cases hlong : confirmAbsentWindow ≤ s.now + (world k).took - since
          · rw [if_pos hlong]
            refine .inr ⟨since, rfl, fun look hlook => ?_, ⟨_, rfl, rfl⟩, ?_⟩
            · rw [List.mem_singleton.mp hlook]
            · show since + confirmAbsentWindow ≤ s.now + (world k).took
              have hpos : 0 < confirmAbsentWindow := by decide
              omega
          · rw [if_neg hlong] at h ⊢
            rcases ih h with hwindow | ⟨since', hsome, hstretch⟩
            · exact .inl (hwindow.after _)
            · cases hsome
              refine .inr ⟨since, rfl, fun look hlook => ?_, ?_, hstretch.window⟩
              · rcases List.mem_cons.mp hlook with rfl | hlook
                · rfl
                · exact hstretch.absent look hlook
              · obtain ⟨last, hlast, hnow⟩ := hstretch.ends
                refine ⟨last, ?_, hnow⟩
                show (_ :: _).getLast? = some last
                rw [List.getLast?_cons, hlast]
                rfl

theorem confirmAbsent_window {k now : Nat}
    (h : (confirmAbsent world deadline stopOnPresent k now).verdict = .absent) :
    AbsentWindow (confirmAbsent world deadline stopOnPresent k now) := by
  rcases confirmFrom_absent h with hwindow | ⟨since, hnone, -⟩
  · exact hwindow
  · cases hnone

/-- A verdict of presence rests on a look that showed the container. -/
theorem confirmFrom_present {fuel k : Nat} {s : Confirming}
    (h : (confirmFrom world deadline stopOnPresent fuel k s).verdict = .present) :
    s.present = true ∨
      ∃ look ∈ (confirmFrom world deadline stopOnPresent fuel k s).looks, look.seen = .present := by
  have hexpired : ∀ s : Confirming, s.expired.verdict = .present → s.present = true := by
    intro s hs
    by_contra hnot
    have hunknown : s.expired.verdict = .unknown := if_neg hnot
    rw [hunknown] at hs
    cases hs
  induction fuel generalizing k s with
  | zero => exact .inl (hexpired s h)
  | succ fuel ih =>
    rw [confirmFrom] at h ⊢
    by_cases hend : deadline < s.now + confirmMinCall
    · rw [if_pos hend] at h
      exact .inl (hexpired s h)
    · rw [if_neg hend] at h ⊢
      dsimp only at h ⊢
      -- what the rest of the loop has seen, the loop has seen
      have hafter : ∀ {c : Confirmed} {look : Look}, (∃ l ∈ c.looks, l.seen = .present) →
          ∃ l ∈ (c.after look).looks, l.seen = .present := by
        intro c look h
        obtain ⟨l, hl, hseen⟩ := h
        exact ⟨l, List.mem_cons_of_mem _ hl, hseen⟩
      cases hseen : sighting (world k).answer with
      | unclear detail =>
        rw [hseen] at h
        exact (ih h).imp id hafter
      | present =>
        right
        dsimp only
        split
        · exact ⟨_, List.mem_cons_self, rfl⟩
        · exact ⟨_, List.mem_cons_self, rfl⟩
      | absent =>
        rw [hseen] at h
        dsimp only at h ⊢
        cases hsince : s.absentSince with
        | none =>
          rw [hsince] at h
          exact (ih h).imp id hafter
        | some since =>
          rw [hsince] at h
          dsimp only at h ⊢
          by_cases hlong : confirmAbsentWindow ≤ s.now + (world k).took - since
          · rw [if_pos hlong] at h
            cases h
          · rw [if_neg hlong] at h ⊢
            exact (ih h).imp id hafter

end Looks

/-! ## The removal as a whole -/

def Leak.name : Leak → String
  | .stillPresent name _ => name
  | .unconfirmed name _ _ => name

/-- What a removal has to show: a window of absence, or one warning; and for each further `rm -f`
the container that was seen after an answered one. -/
structure Accounted (deadline left : Nat) (name : String) (r : Removal) : Prop where
  leak : r.removed = false → ∃ leak, r.leaks = [leak] ∧ leak.name = name
  quiet : r.removed = true → r.leaks = []
  absent : r.removed = true →
    ∃ round, r.rounds.getLast? = some round ∧ AbsentWindow round.confirmed
  again : ∀ round ∈ r.rounds.dropLast, round.mayRemoveAgain = true ∧
    ∃ look ∈ round.confirmed.looks, look.seen = .present
  timed : ∀ round ∈ r.rounds, Timed deadline round.removedAt round.confirmed
  bounded : r.rounds.length ≤ left

section Removals

variable {world : Nat → EngineCall} {name place : String} {deadline : Nat}

theorem leaked_accounted (left : Nat) (verdict : Verdict) (detail : String) :
    Accounted deadline left name (leaked name place verdict detail) where
  leak _ := by
    refine ⟨_, rfl, ?_⟩
    split <;> rfl
  quiet h := by cases h
  absent h := by cases h
  again _ h := absurd h List.not_mem_nil
  timed _ h := absurd h List.not_mem_nil
  bounded := Nat.zero_le _

/-- A round before what is accounted for. -/
theorem Accounted.after {left : Nat} {r : Removal} {round : Round}
    (h : Accounted deadline left name r)
    (hagain : r.rounds ≠ [] → round.mayRemoveAgain = true ∧
      ∃ look ∈ round.confirmed.looks, look.seen = .present)
    (htimed : Timed deadline round.removedAt round.confirmed) :
    Accounted deadline (left + 1) name (r.after round) where
  leak := h.leak
  quiet := h.quiet
  absent hremoved := by
    obtain ⟨last, hlast, hwindow⟩ := h.absent hremoved
    refine ⟨last, ?_, hwindow⟩
    show (round :: r.rounds).getLast? = some last
    rw [List.getLast?_cons, hlast]
    rfl
  again x hx := by
    have hx : x ∈ (round :: r.rounds).dropLast := hx
    by_cases hnil : r.rounds = []
    · rw [hnil] at hx
      exact absurd hx List.not_mem_nil
    · rw [List.dropLast_cons_of_ne_nil hnil] at hx
      rcases List.mem_cons.mp hx with rfl | hx
      · exact hagain hnil
      · exact h.again x hx
  timed x hx := by
    rcases List.mem_cons.mp hx with rfl | hx
    · exact htimed
    · exact h.timed x hx
  bounded := Nat.succ_le_succ h.bounded

theorem confirmed_accounted (left : Nat) (round : Round) (hwindow : AbsentWindow round.confirmed)
    (htimed : Timed deadline round.removedAt round.confirmed) :
    Accounted deadline (left + 1) name ⟨true, [], [round]⟩ where
  leak h := by cases h
  quiet _ := rfl
  absent _ := ⟨round, rfl, hwindow⟩
  again _ h := absurd h List.not_mem_nil
  timed x hx := by
    rw [List.mem_singleton.mp hx]
    exact htimed
  bounded := Nat.succ_le_succ (Nat.zero_le left)

theorem removeFrom_accounted (left k now : Nat) (verdict : Verdict) (detail : String) :
    Accounted deadline left name
      (removeFrom world name place deadline left k now verdict detail) := by
  induction left generalizing k now verdict detail with
  | zero => exact leaked_accounted 0 verdict detail
  | succ left ih =>
    rw [removeFrom]
    split
    · exact leaked_accounted _ verdict detail
    · dsimp only
      generalize hmay : ((world k).answer.answered && !(world k).answer.underway &&
        decide (0 < left)) = may
      generalize hc : confirmAbsent world deadline may (k + 1) (now + (world k).took) = c
      have htimed : Timed deadline (now + (world k).took) c := hc ▸ confirmAbsent_timed _ _
      split
      · rename_i habsent
        have hwindow : AbsentWindow c := hc ▸ confirmAbsent_window (hc ▸ habsent)
        exact confirmed_accounted left ⟨_, may, c⟩ hwindow htimed
      · split
        · rename_i hpresent
          refine (ih _ _ _ _).after (fun _ => ⟨hpresent.2, ?_⟩) htimed
          rcases confirmFrom_present (hc ▸ hpresent.1) with hfalse | hlook
          · cases hfalse
          · exact hc ▸ hlook
        · exact (leaked_accounted left c.verdict _).after (fun h => absurd rfl h) htimed

end Removals

/-- What the looks of a removal show is so. -/
def Honest (present : Nat → Prop) (r : Removal) : Prop :=
  ∀ round ∈ r.rounds, ∀ look ∈ round.confirmed.looks, look.seen = .absent → ¬ present look.seenAt

/-- The container does not appear later than a window after a removal call came back, answered
or not. -/
def Settles (present : Nat → Prop) (r : Removal) : Prop :=
  ∀ round ∈ r.rounds, ∀ t t', round.removedAt + confirmAbsentWindow ≤ t → t ≤ t' →
    present t' → present t

theorem AbsentWindow.gone {c : Confirmed} {deadline removedAt : Nat} (h : AbsentWindow c)
    (htimed : Timed deadline removedAt c) {present : Nat → Prop}
    (hhonest : ∀ look ∈ c.looks, look.seen = .absent → ¬ present look.seenAt)
    (hsettles : ∀ t t', removedAt + confirmAbsentWindow ≤ t → t ≤ t' → present t' → present t)
    {t : Nat} (ht : c.now ≤ t) : ¬ present t := by
  obtain ⟨before, first, stretch, hlooks, -, hsince⟩ := h
  obtain ⟨last, hlast, hnow⟩ := hsince.ends
  have hmem : last ∈ stretch := List.mem_of_getLast? hlast
  have hgone : ¬ present c.now := by
    rw [← hnow]
    apply hhonest last _ (hsince.absent last hmem)
    rw [hlooks]
    exact List.mem_append_right _ (List.mem_cons_of_mem first hmem)
  have hfirst := htimed.looks first (by
    rw [hlooks]
    exact List.mem_append_right _ List.mem_cons_self)
  have hwindow := hsince.window
  intro hpresent
  exact hgone (hsettles c.now t (by omega) ht hpresent)

/-- **A container that was confirmed gone stays gone**, whatever the engine answers and however
long it takes, provided its answers are true and a container does not appear later than a window
after a removal call came back. One that was not confirmed is named in one warning. There are two
removals at most, the second after the container was seen, and no look begins too close to the
ceiling. -/
theorem confirmed_removal_final (world : Nat → EngineCall) (name place : String) (now : Nat) :
    ((removeAndConfirm world name place now).removed = true →
      (removeAndConfirm world name place now).leaks = [] ∧
      ∃ round, (removeAndConfirm world name place now).rounds.getLast? = some round ∧
        ∀ present : Nat → Prop, Honest present (removeAndConfirm world name place now) →
          Settles present (removeAndConfirm world name place now) →
          ∀ t, round.confirmed.now ≤ t → ¬ present t) ∧
    ((removeAndConfirm world name place now).removed = false →
      ∃ leak, (removeAndConfirm world name place now).leaks = [leak] ∧ leak.name = name) ∧
    (removeAndConfirm world name place now).rounds.length ≤ maxRemoveAttempts ∧
    (∀ round ∈ (removeAndConfirm world name place now).rounds.dropLast,
      round.mayRemoveAgain = true ∧ ∃ look ∈ round.confirmed.looks, look.seen = .present) ∧
    ∀ round ∈ (removeAndConfirm world name place now).rounds,
      Timed (now + cleanupCeiling) round.removedAt round.confirmed := by
  have h : Accounted (now + cleanupCeiling) maxRemoveAttempts name
      (removeAndConfirm world name place now) := removeFrom_accounted _ _ _ _ _
  refine ⟨fun hremoved => ⟨h.quiet hremoved, ?_⟩, h.leak, h.bounded, h.again, h.timed⟩
  obtain ⟨round, hlast, hwindow⟩ := h.absent hremoved
  have hmem : round ∈ (removeAndConfirm world name place now).rounds :=
    List.mem_of_getLast? hlast
  refine ⟨round, hlast, fun present hhonest hsettles t ht => ?_⟩
  exact hwindow.gone (h.timed round hmem) (hhonest round hmem) (hsettles round hmem) ht

/-- The container appears once, after an answered removal, and is removed again. -/
def lateCreate : Nat → EngineCall
  | 0 => ⟨.answers 0 "", 100, 0⟩
  | 1 => ⟨.answers 0 "running", 50, 0⟩
  | 2 => ⟨.answers 0 "", 100, 0⟩
  | _ => ⟨.answers 1 "Error: No such object", 50, 0⟩

/-- The container is there from the answer of the first removal to that of the second. -/
def lateCreatePresent (t : Nat) : Prop := 100 ≤ t ∧ t < 250

theorem lateCreate_looks :
    ∀ round ∈ (removeAndConfirm lateCreate "sb" "close" 0).rounds, round.confirmed.now ≤ 1800 ∧
      ∀ look ∈ round.confirmed.looks, look.seen = .absent →
        ¬ (100 ≤ look.seenAt ∧ look.seenAt < 250) := by
  decide +kernel

theorem confirmed_removal_final_lateCreate :
    (removeAndConfirm lateCreate "sb" "close" 0).removed = true ∧
      (removeAndConfirm lateCreate "sb" "close" 0).rounds.length = 2 ∧
      ∀ t, 1800 ≤ t → ¬ lateCreatePresent t := by
  have hremoved : (removeAndConfirm lateCreate "sb" "close" 0).removed = true := by decide +kernel
  have hrounds : (removeAndConfirm lateCreate "sb" "close" 0).rounds.length = 2 := by
    decide +kernel
  obtain ⟨-, round, hlast, hgone⟩ :=
    (confirmed_removal_final lateCreate "sb" "close" 0).1 hremoved
  have hnow : round.confirmed.now ≤ 1800 := (lateCreate_looks round (List.mem_of_getLast? hlast)).1
  have hhonest : Honest lateCreatePresent (removeAndConfirm lateCreate "sb" "close" 0) :=
    fun round hround => (lateCreate_looks round hround).2
  have hsettles : Settles lateCreatePresent (removeAndConfirm lateCreate "sb" "close" 0) := by
    intro round _ t t' hwindow hle hpresent
    have hend : t' < 250 := hpresent.2
    simp only [confirmAbsentWindow] at hwindow
    omega
  exact ⟨hremoved, hrounds, fun t ht => hgone lateCreatePresent hhonest hsettles t (hnow.trans ht)⟩

end Noezema.Sandbox
