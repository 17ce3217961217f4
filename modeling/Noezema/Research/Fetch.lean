import Noezema.Lib.Run
import Noezema.Lib.Traced
import Noezema.Research.SsrfGuard

/-! # The controlled fetch

One turn of the fetch loop is a hop: the address is validated, the transport connects
through the guarding backend, and the response ends the fetch or names the next address. The
network is the input of the hop, so a run takes any answers at any lookup. The trace holds
what the guard accepted and where the backend connected.
-/

namespace Noezema.Research

open Noezema.Lib

/-! ## What a hop does and meets -/

/-- What the egress does, with the hop, the host and the port it does it for. -/
inductive EgressEvent where
  /-- `check_address` returned. -/
  | accepted (hop : Nat) (host : Text) (port : Nat) (ip : Text)
  /-- The socket is connected to the address. -/
  | connected (hop : Nat) (host : Text) (port : Nat) (ip : Text)
deriving DecidableEq

/-- `FetchError`. -/
inductive FetchFailure where
  | timeBudgetExhausted
  | timeout
  | transport
  | redirectWithoutLocation
  | non200 (status : Nat)
  | tooLarge (maxResponseBytes : Nat)
deriving DecidableEq

/-- What a fetch raises. -/
inductive EgressError where
  | guard (e : GuardError)
  | failed (e : FetchFailure)
  /-- An address that `httpx` does not read, or an answer without an address. -/
  | invalid
deriving DecidableEq

def ssrf (e : SsrfError) : EgressError := .guard (.ssrf e)

abbrev Egress (α : Type) := Traced EgressEvent EgressError α

structure Response where
  status : Nat
  location : Option Text
  url : Text
  contentType : Option Text
  chunks : List (List UInt8)

/-- One call of `connect_tcp`: the answer of the resolver, `none` where it raises, and
whether the address can be connected to. -/
structure Connect where
  answer : Option (List Text)
  reachable : Bool

/-- What a hop meets: the host and the port that the transport reads in the address, `none`
where it cannot, the clock, the connections it opens, and the response. -/
structure HopInput where
  target : Option (Text × Nat)
  timeUp : Bool
  connects : List Connect
  response : Except FetchFailure Response

/-- `FetchResult`. -/
structure FetchResult where
  url : Text
  finalUrl : Text
  contentType : Option Text
  data : List UInt8
  redirects : Nat
deriving DecidableEq

/-! ## The backend -/

section Backend

variable (policy : SsrfPolicy) (hop : Nat) (host : Text) (port : Nat)

/-- `check_address` of an address of the host. -/
def accept (ip : Text) : Egress Unit := do
  Traced.lift ((checkAddress ip).mapError ssrf)
  Traced.emit (.accepted hop host port ip)

/-- The addresses to connect to: a literal is its own, a name is resolved once. -/
def targetIps (connect : Connect) : Egress (List Text) :=
  if (ipAddress host).isSome then pure [host]
  else Traced.lift (connect.answer.elim (.error (ssrf (.unresolved host))) .ok)

/-- The check of one address, unless the operator has registered the host. -/
def checkTarget (ip : Text) : Egress Unit :=
  if policy.allowsPrivate host port then pure () else accept hop host port ip

/-- The connection to the first address. -/
def connectPinned (connect : Connect) : List Text → Egress Unit
  | [] => Traced.raise .invalid
  | pinned :: _ => ⟨[.connected hop host port pinned],
      if connect.reachable then .ok () else .error (.failed .transport)⟩

/-- `SSRFSafeAsyncBackend.connect_tcp`. -/
def connectTcp (connect : Connect) : Egress Unit := do
  let ips ← targetIps host connect
  ips.forM (checkTarget policy hop host port)
  connectPinned hop host port connect ips

end Backend

/-! ## The loop -/

/-- The bytes of the response, within the limit. -/
def readBody (maxResponseBytes : Nat) : Nat → List (List UInt8) →
    Except EgressError (List UInt8)
  | _, [] => .ok []
  | total, chunk :: chunks =>
    if maxResponseBytes < total + chunk.length then .error (.failed (.tooLarge maxResponseBytes))
    else (readBody maxResponseBytes (total + chunk.length) chunks).map (chunk ++ ·)

section Loop

-- `urljoin` of the standard library
variable (policy : SsrfPolicy) (t : UrlTables) (urljoin : Text → Text → Except UrlError Text)

/-- `_precheck_ip_literal`, unless the operator has registered the host. -/
def precheckIpLiteral (hop : Nat) (host : Text) (port : Nat) : Egress Unit :=
  if ¬ policy.allowsPrivate host port ∧ (ipAddress host).isSome then accept hop host port host
  else pure ()

/-- `_resolve_location`. -/
def resolveLocation (current location : Text) : Except EgressError Text := do
  let absolute ← (urljoin current location).mapError fun e => .guard (.url e)
  let parts ← (t.urlsplit absolute).mapError fun e => .guard (.url e)
  require (parts.scheme = "http".toList ∨ parts.scheme = "https".toList)
    (ssrf (.redirectScheme parts.scheme))
  pure absolute

/-- What the response makes of the fetch: the next address, or the result. -/
def followResponse (url current : Text) (redirects : Nat) (response : Response) :
    Except EgressError (Text ⊕ FetchResult) := do
  if 300 ≤ response.status ∧ response.status < 400 then
    let location := response.location.getD []
    require (location ≠ []) (.failed .redirectWithoutLocation)
    require (redirects + 1 ≤ policy.maxRedirects)
      (ssrf (.tooManyRedirects (redirects + 1) policy.maxRedirects))
    let next ← resolveLocation t urljoin current location
    pure (.inl next)
  else
    require (response.status = 200) (.failed (.non200 response.status))
    let data ← readBody policy.maxResponseBytes 0 response.chunks
    pure (.inr ⟨url, response.url, response.contentType, data, redirects⟩)

/-- One turn of the loop of `fetch`. -/
def hop (url current : Text) (redirects : Nat) (input : HopInput) :
    Egress (Text ⊕ FetchResult) := do
  let (host, port) ← Traced.lift ((validateUrl t current).mapError .guard)
  precheckIpLiteral policy redirects host port
  let (host, port) ← Traced.lift (input.target.elim (.error .invalid) .ok)
  Traced.lift (require (¬ input.timeUp) (.failed .timeBudgetExhausted))
  input.connects.forM (connectTcp policy redirects host port)
  let response ← Traced.lift (input.response.mapError .failed)
  Traced.lift (followResponse policy t urljoin url current redirects response)

/-- A fetch between two turns; the number of redirects is that of the hop. -/
structure FetchState where
  url : Text
  current : Text
  redirects : Nat
  trace : List EgressEvent
  outcome : Option (Except EgressError FetchResult)

def FetchState.start (url : Text) : FetchState := ⟨url, url, 0, [], none⟩

/-- A turn of a fetch that has not ended. -/
def fetchStep (s : FetchState) (input : HopInput) : Option FetchState :=
  if s.outcome.isSome then none
  else
    let turn := hop policy t urljoin s.url s.current s.redirects input
    let s := { s with trace := s.trace ++ turn.trace }
    match turn.result with
    | .ok (.inl next) => some { s with current := next, redirects := s.redirects + 1 }
    | .ok (.inr result) => some { s with outcome := some (.ok result) }
    | .error e => some { s with outcome := some (.error e) }

end Loop

/-! ## The guard of a trace -/

/-- What was accepted passed the check and satisfies `Q`; what was connected to was accepted
for that host in that hop, unless the operator has registered the host. -/
structure Guarded (policy : SsrfPolicy) (Q : Text → Prop) (trace : List EgressEvent) : Prop where
  checked : ∀ k host port ip, .accepted k host port ip ∈ trace →
    checkAddress ip = .ok () ∧ Q ip
  pinned : ∀ k host port ip, .connected k host port ip ∈ trace →
    .accepted k host port ip ∈ trace ∨ policy.allowsPrivate host port

/-- Every address that the hop can bring before the guard satisfies `Q`: the host of the
address as it is validated, and the host that the transport reads with the answers of the
resolver. -/
structure Presents (policy : SsrfPolicy) (t : UrlTables) (Q : Text → Prop) (current : Text)
    (input : HopInput) : Prop where
  literal : ∀ host port, validateUrl t current = .ok (host, port) →
    policy.allowsPrivate host port = false → Q host
  target : ∀ host port, input.target = some (host, port) →
    policy.allowsPrivate host port = false → Q host
  answers : ∀ host port, input.target = some (host, port) →
    policy.allowsPrivate host port = false →
    ∀ connect ∈ input.connects, ∀ ips, connect.answer = some ips → ∀ ip ∈ ips, Q ip

section Guard

variable {policy : SsrfPolicy} {Q : Text → Prop} {k : Nat} {host : Text} {port : Nat}

theorem closed_guarded : Traced.Closed (Guarded policy Q) where
  nil := by
    constructor
    · intro k host port ip hin
      cases hin
    · intro k host port ip hin
      cases hin
  append {l l'} h h' := by
    constructor
    · intro k host port ip hin
      rcases List.mem_append.mp hin with hin | hin
      · exact h.checked k host port ip hin
      · exact h'.checked k host port ip hin
    · intro k host port ip hin
      rcases List.mem_append.mp hin with hin | hin
      · exact (h.pinned k host port ip hin).imp_left (List.mem_append_left _)
      · exact (h'.pinned k host port ip hin).imp_left (List.mem_append_right _)

/-- Nothing that was done without a trace needs a guard. -/
theorem guarded_nil : Guarded policy Q [] := closed_guarded.nil

theorem accept_guarded {ip : Text} (hQ : Q ip) : Guarded policy Q (accept k host port ip).trace := by
  refine closed_guarded.bind guarded_nil fun u hu => ?_
  have hok : checkAddress ip = .ok () := by
    rw [Traced.result_lift] at hu
    exact mapError_eq_ok.mp hu
  constructor
  · intro k' host' port' ip' hin
    cases List.mem_singleton.mp hin
    exact ⟨hok, hQ⟩
  · intro k' host' port' ip' hin
    cases List.mem_singleton.mp hin

/-- An accepted address is in the trace. -/
theorem mem_accept {ip : Text} {u : Unit} (h : (accept k host port ip).result = .ok u) :
    .accepted k host port ip ∈ (accept k host port ip).trace := by
  unfold accept at h ⊢
  cases hc : (checkAddress ip).mapError ssrf with
  | error e =>
    rw [hc] at h
    cases h
  | ok v => exact List.mem_singleton_self _

/-- The addresses that a connection is checked for satisfy what the host and the answer do. -/
theorem targetIps_mem {connect : Connect} (hhost : Q host)
    (hanswer : ∀ ips, connect.answer = some ips → ∀ ip ∈ ips, Q ip) {ips : List Text}
    (h : (targetIps host connect).result = .ok ips) : ∀ ip ∈ ips, Q ip := by
  unfold targetIps at h
  split at h
  · cases h
    intro ip hip
    rw [List.mem_singleton.mp hip]
    exact hhost
  · rw [Traced.result_lift] at h
    cases hans : connect.answer with
    | none =>
      rw [hans] at h
      cases h
    | some answer =>
      rw [hans] at h
      cases h
      exact hanswer ips hans

theorem trace_targetIps (connect : Connect) : (targetIps host connect).trace = [] := by
  unfold targetIps
  split
  · rfl
  · rfl

theorem checkTarget_guarded {ip : Text} (hQ : policy.allowsPrivate host port = false → Q ip) :
    Guarded policy Q (checkTarget policy k host port ip).trace := by
  unfold checkTarget
  split
  · exact guarded_nil
  · rename_i hallow
    exact accept_guarded (hQ (by simpa using hallow))

/-- The backend checks every address of the answer and connects to the first one. -/
theorem connectTcp_guarded {connect : Connect}
    (hhost : policy.allowsPrivate host port = false → Q host)
    (hanswer : policy.allowsPrivate host port = false →
      ∀ ips, connect.answer = some ips → ∀ ip ∈ ips, Q ip) :
    Guarded policy Q (connectTcp policy k host port connect).trace := by
  unfold connectTcp
  refine closed_guarded.bind (by rw [trace_targetIps]; exact guarded_nil) fun ips hips => ?_
  have hchecks : Guarded policy Q (ips.forM (checkTarget policy k host port)).trace :=
    closed_guarded.forM fun ip hip => checkTarget_guarded fun hallow =>
      targetIps_mem (hhost hallow) (hanswer hallow) hips ip hip
  -- the connection is guarded by what the checks have left in the trace
  refine Traced.trace_bind hchecks fun u hu => ?_
  cases ips with
  | nil =>
    rw [connectPinned, Traced.trace_raise, List.append_nil]
    exact hchecks
  | cons pinned rest =>
    constructor
    · intro k' host' port' ip hin
      rcases List.mem_append.mp hin with hin | hin
      · exact hchecks.checked k' host' port' ip hin
      · cases List.mem_singleton.mp hin
    · intro k' host' port' ip hin
      rcases List.mem_append.mp hin with hin | hin
      · exact (hchecks.pinned k' host' port' ip hin).imp_left (List.mem_append_left _)
      · cases List.mem_singleton.mp hin
        cases hallow : policy.allowsPrivate host port with
        | true => exact .inr rfl
        | false =>
          obtain ⟨⟨v, hv⟩, hkept⟩ := Traced.mem_trace_forM hu List.mem_cons_self
          have hcheck : checkTarget policy k host port pinned = accept k host port pinned := by
            rw [checkTarget, if_neg (by simp [hallow])]
          rw [hcheck] at hv hkept
          exact .inl (List.mem_append_left _ (hkept _ (mem_accept hv)))

variable {t : UrlTables} {urljoin : Text → Text → Except UrlError Text}

/-- **One hop.** -/
theorem hop_guarded {url current : Text} {input : HopInput}
    (h : Presents policy t Q current input) :
    Guarded policy Q (hop policy t urljoin url current k input).trace := by
  unfold hop
  refine closed_guarded.bind guarded_nil fun checked hchecked => ?_
  obtain ⟨host, port⟩ := checked
  refine closed_guarded.bind ?_ fun _ _ => ?_
  · unfold precheckIpLiteral
    split
    · rename_i hliteral
      rw [Traced.result_lift, mapError_eq_ok] at hchecked
      exact accept_guarded (h.literal host port hchecked (by simpa using hliteral.1))
    · exact guarded_nil
  refine closed_guarded.bind guarded_nil fun target htarget => ?_
  obtain ⟨host, port⟩ := target
  have htarget : input.target = some (host, port) := by
    rw [Traced.result_lift] at htarget
    cases ht : input.target with
    | none =>
      rw [ht] at htarget
      cases htarget
    | some target =>
      rw [ht] at htarget
      cases htarget
      rfl
  refine closed_guarded.bind guarded_nil fun _ _ => ?_
  refine closed_guarded.bind ?_ fun _ _ => ?_
  · refine closed_guarded.forM fun connect hconnect => connectTcp_guarded ?_ ?_
    · exact h.target host port htarget
    · exact fun hallow => h.answers host port htarget hallow connect hconnect
  refine closed_guarded.bind guarded_nil fun _ _ => ?_
  exact guarded_nil

/-- A turn adds the trace of its hop. -/
theorem fetchStep_trace {s s' : FetchState} {input : HopInput}
    (h : fetchStep policy t urljoin s input = some s') :
    s'.trace = s.trace ++ (hop policy t urljoin s.url s.current s.redirects input).trace := by
  unfold fetchStep at h
  split at h
  · cases h
  · dsimp only at h
    split at h
    · cases h
      rfl
    · cases h
      rfl
    · cases h
      rfl

/-- **A run of hops.** -/
theorem run_guarded {url : Text} {s : FetchState}
    (h : Run (fetchStep policy t urljoin) (fun s input => Presents policy t Q s.current input)
      (.start url) s) : Guarded policy Q s.trace := by
  refine h.invariant (I := fun s => Guarded policy Q s.trace) guarded_nil
    fun hinv hpresents hstep => ?_
  rw [fetchStep_trace hstep]
  exact closed_guarded.append hinv (hop_guarded hpresents)

end Guard

end Noezema.Research
