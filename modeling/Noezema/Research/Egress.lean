import Noezema.Research.Fetch

/-! # Every connection of a fetch

The loop of the fetch ends, within the size limit, and over all of its hops each connection is
to an address that was accepted for the host in that hop. The accepted addresses are routable
as long as none of the shared address space and no site-local one is brought before the guard.
-/

namespace Noezema.Research

open Noezema.Lib

/-! ## The loop ends -/

section Loop

variable (policy : SsrfPolicy) (t : UrlTables) (urljoin : Text → Text → Except UrlError Text)
  (inputs : Nat → HopInput)

/-- Turns of the loop, each with what its hop meets. -/
def fetchLoop : Nat → FetchState → FetchState
  | 0, s => s
  | turns + 1, s =>
    match fetchStep policy t urljoin s (inputs s.redirects) with
    | none => s
    | some s => fetchLoop turns s

/-- `FetchClient.fetch`: no fetch has more turns than redirects and one. -/
def fetch (url : Text) : FetchState :=
  fetchLoop policy t urljoin inputs (policy.maxRedirects + 1) (.start url)

variable {policy t urljoin inputs}

/-- A response that leads on has used one of the redirects. -/
theorem followResponse_next {url current next : Text} {redirects : Nat} {response : Response}
    (h : followResponse policy t urljoin url current redirects response = .ok (.inl next)) :
    redirects + 1 ≤ policy.maxRedirects := by
  unfold followResponse at h
  split at h
  · obtain ⟨_, -, h⟩ := bind_eq_ok.mp h
    obtain ⟨_, hmax, -⟩ := bind_eq_ok.mp h
    exact require_eq_ok.mp hmax
  · obtain ⟨_, -, h⟩ := bind_eq_ok.mp h
    obtain ⟨_, -, h⟩ := bind_eq_ok.mp h
    cases h

theorem readBody_le {maxResponseBytes total : Nat} {chunks : List (List UInt8)}
    {data : List UInt8} (h : readBody maxResponseBytes total chunks = .ok data)
    (htotal : total ≤ maxResponseBytes) : total + data.length ≤ maxResponseBytes := by
  induction chunks generalizing total data with
  | nil =>
    cases h
    simpa using htotal
  | cons chunk chunks ih =>
    unfold readBody at h
    split at h
    · cases h
    · rename_i hle
      obtain ⟨rest, hrest, rfl⟩ := map_eq_ok.mp h
      have := ih hrest (not_lt.mp hle)
      rw [List.length_append]
      omega

/-- A hop returns what its response makes of the fetch. -/
theorem hop_result {url current : Text} {redirects : Nat} {input : HopInput}
    {r : Text ⊕ FetchResult}
    (h : (hop policy t urljoin url current redirects input).result = .ok r) :
    ∃ response, followResponse policy t urljoin url current redirects response = .ok r := by
  unfold hop at h
  obtain ⟨_, -, h⟩ := Traced.result_bind.mp h
  obtain ⟨_, -, h⟩ := Traced.result_bind.mp h
  obtain ⟨_, -, h⟩ := Traced.result_bind.mp h
  obtain ⟨_, -, h⟩ := Traced.result_bind.mp h
  obtain ⟨_, -, h⟩ := Traced.result_bind.mp h
  obtain ⟨response, -, h⟩ := Traced.result_bind.mp h
  exact ⟨response, h⟩

/-- What a turn leaves: an end, or one redirect more within the limit. -/
theorem fetchStep_cases {s s' : FetchState} {input : HopInput}
    (h : fetchStep policy t urljoin s input = some s') :
    s.outcome = none ∧ (s'.outcome.isSome ∨
      s'.outcome = none ∧ s'.redirects = s.redirects + 1 ∧
        s'.redirects ≤ policy.maxRedirects) := by
  unfold fetchStep at h
  split at h
  · cases h
  · rename_i hopen
    refine ⟨by simpa using hopen, ?_⟩
    dsimp only at h
    split at h
    · rename_i next hresult
      obtain ⟨response, hfollow⟩ := hop_result hresult
      cases h
      exact .inr ⟨by simpa using hopen, rfl, followResponse_next hfollow⟩
    · cases h
      exact .inl rfl
    · cases h
      exact .inl rfl

/-- A fetch that has not ended makes a turn. -/
theorem fetchStep_isSome {s : FetchState} {input : HopInput} (h : s.outcome = none) :
    ∃ s', fetchStep policy t urljoin s input = some s' := by
  unfold fetchStep
  rw [if_neg (by simp [h])]
  dsimp only
  split
  · exact ⟨_, rfl⟩
  · exact ⟨_, rfl⟩
  · exact ⟨_, rfl⟩

theorem fetchLoop_of_ended {turns : Nat} {s : FetchState} (h : s.outcome.isSome) :
    fetchLoop policy t urljoin inputs turns s = s := by
  cases turns with
  | zero => rfl
  | succ turns =>
    have hstep : fetchStep policy t urljoin s (inputs s.redirects) = none := by
      rw [fetchStep, if_pos h]
    rw [fetchLoop, hstep]

theorem fetchLoop_ends {turns : Nat} {s : FetchState} (hle : s.redirects ≤ policy.maxRedirects)
    (hturns : policy.maxRedirects < turns + s.redirects) :
    (fetchLoop policy t urljoin inputs turns s).outcome.isSome := by
  induction turns generalizing s with
  | zero => omega
  | succ turns ih =>
    cases hopen : s.outcome with
    | some outcome =>
      rw [fetchLoop_of_ended (by simp [hopen])]
      simp [hopen]
    | none =>
      obtain ⟨s', hstep⟩ : ∃ s', fetchStep policy t urljoin s (inputs s.redirects) = some s' :=
        fetchStep_isSome hopen
      rw [fetchLoop, hstep]
      dsimp only
      rcases (fetchStep_cases hstep).2 with hended | ⟨-, hnext, hmax⟩
      · rwa [fetchLoop_of_ended hended]
      · exact ih hmax (by omega)

/-- The fetch ends, whatever the network does. -/
theorem fetch_ends (url : Text) : (fetch policy t urljoin inputs url).outcome.isSome :=
  fetchLoop_ends (Nat.zero_le _) (Nat.lt_succ_of_le (Nat.le_refl _))

/-- What the loop reaches is reached by hops. -/
theorem fetchLoop_run {turns : Nat} {s : FetchState} :
    Run (fetchStep policy t urljoin) anyStep s (fetchLoop policy t urljoin inputs turns s) := by
  induction turns generalizing s with
  | zero => exact .nil
  | succ turns ih =>
    unfold fetchLoop
    split
    · exact .nil
    · rename_i s' hstep
      exact (Run.snoc .nil trivial hstep).trans ih

end Loop

/-! ## The connections -/

/-- **The connections of a fetch.** In every run of hops a connection is to an address
accepted for the host in the hop, or for a host of the allowlist. Where no open address is
presented, every accepted address is routable; an open address that is accepted never is. -/
theorem egress_guarded (policy : SsrfPolicy) (t : UrlTables)
    (urljoin : Text → Text → Except UrlError Text) (url : Text) (s : FetchState) :
    (Run (fetchStep policy t urljoin) anyStep (.start url) s →
      Guarded policy (fun _ => True) s.trace) ∧
    (Run (fetchStep policy t urljoin)
        (fun s input => Presents policy t (fun ip => ¬ OpenText ip) s.current input)
        (.start url) s →
      Guarded policy RoutableText s.trace) ∧
    ∀ ip, checkAddress ip = .ok () → (RoutableText ip ↔ ¬ OpenText ip) := by
  refine ⟨fun h => ?_, fun h => ?_, fun ip => routableText_iff⟩
  · refine run_guarded (h.mono fun s input _ => ?_)
    exact ⟨fun _ _ _ _ => trivial, fun _ _ _ _ => trivial, fun _ _ _ _ _ _ _ _ _ _ => trivial⟩
  · have hguarded := run_guarded h
    refine ⟨fun k host port ip hin => ?_, hguarded.pinned⟩
    obtain ⟨hchecked, hopen⟩ := hguarded.checked k host port ip hin
    exact ⟨hchecked, (routableText_iff hchecked).mpr hopen⟩

/-! ## A fetch into the shared address space -/

def plainPolicy : SsrfPolicy := ⟨1048576, 3, [], by decide, by decide, by simp⟩

/-- A page whose host resolves to one address. -/
def resolvedTo (ip : Text) : HopInput where
  target := some ("pages.example".toList, 80)
  timeUp := false
  connects := [⟨some [ip], true⟩]
  response := .ok ⟨200, none, "http://pages.example/".toList, none, []⟩

/-- The fetch of the page. -/
def fetched (ip : Text) : FetchState where
  url := "http://pages.example/".toList
  current := "http://pages.example/".toList
  redirects := 0
  trace := [.accepted 0 "pages.example".toList 80 ip, .connected 0 "pages.example".toList 80 ip]
  outcome := some (.ok ⟨"http://pages.example/".toList, "http://pages.example/".toList, none, [], 0⟩)

theorem fetched_shared :
    fetchStep plainPolicy asciiTables (fun _ location => .ok location)
      (.start "http://pages.example/".toList) (resolvedTo "100.64.0.1".toList) =
    some (fetched "100.64.0.1".toList) := rfl

theorem fetched_public :
    fetchStep plainPolicy asciiTables (fun _ location => .ok location)
      (.start "http://pages.example/".toList) (resolvedTo "93.184.216.34".toList) =
    some (fetched "93.184.216.34".toList) := rfl

theorem presents_public :
    Presents plainPolicy asciiTables (fun ip => ¬ OpenText ip) "http://pages.example/".toList
      (resolvedTo "93.184.216.34".toList) := by
  have hname : ¬ OpenText "pages.example".toList := by
    rintro ⟨ip, hip, -⟩
    have hnone : ipAddress "pages.example".toList = none := by decide
    cases hnone.symm.trans hip
  have hpublic : ¬ OpenText "93.184.216.34".toList := by
    rintro ⟨ip, hip, hopen⟩
    have hsome : ipAddress "93.184.216.34".toList = some (.v4 1572395042) := by decide
    cases hsome.symm.trans hip
    exact absurd hopen (by decide)
  constructor
  · intro host port h _
    have hvalid : validateUrl asciiTables "http://pages.example/".toList =
        .ok ("pages.example".toList, 80) := rfl
    cases hvalid.symm.trans h
    exact hname
  · intro host port h _
    cases h
    exact hname
  · intro host port _ _ connect hconnect ips hips ip hip
    cases List.mem_singleton.mp hconnect
    cases hips
    cases List.mem_singleton.mp hip
    exact hpublic

theorem egress_guarded_public :
    Guarded plainPolicy RoutableText (fetched "93.184.216.34".toList).trace :=
  (egress_guarded plainPolicy asciiTables (fun _ location => .ok location)
    "http://pages.example/".toList (fetched "93.184.216.34".toList)).2.1
      (Run.snoc .nil presents_public fetched_public)

/-- The guard lets a fetch connect to an address that is not routable. -/
theorem egress_reaches_shared :
    ¬ ∀ (policy : SsrfPolicy) (t : UrlTables) (urljoin : Text → Text → Except UrlError Text)
      (url : Text) (s : FetchState),
      Run (fetchStep policy t urljoin) anyStep (.start url) s →
        Guarded policy RoutableText s.trace := by
  intro hall
  have hguarded : Guarded plainPolicy RoutableText (fetched "100.64.0.1".toList).trace :=
    hall _ _ _ _ _ (Run.snoc .nil trivial fetched_shared)
  have hshared : ipAddress "100.64.0.1".toList = some (.v4 1681915905) := by decide
  obtain ⟨-, ip, hip, hroutable⟩ := hguarded.checked _ _ _ _ List.mem_cons_self
  cases hshared.symm.trans hip
  exact absurd hroutable.1 (by decide)

end Noezema.Research
