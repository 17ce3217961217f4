import Noezema.Lib.Except
import Noezema.Lib.IpAddress

/-! # The guard of the egress

The policy, the validation of an address line by line, and `check_address`. What the guard
passes is a routable address but for two spaces that the classes of the library leave open:
`routable_iff_of_passes` names them.
-/

namespace Noezema.Research

open Noezema.Lib

abbrev Text := List Char

/-- `SSRFError`. -/
inductive SsrfError where
  | emptyUrl
  | blockedScheme (scheme : Text)
  | credentials
  | missingHost
  | blockedPort (port : Nat)
  | unparseable (text : Text)
  | privateAddress (ip : IpAddress)
  | loopbackAddress (ip : IpAddress)
  | linkLocalAddress (ip : IpAddress)
  | reservedAddress (ip : IpAddress)
  | multicastAddress (ip : IpAddress)
  | unspecifiedAddress (ip : IpAddress)
  | unresolved (host : Text)
  | tooManyRedirects (redirects maxRedirects : Nat)
  | redirectScheme (scheme : Text)
deriving DecidableEq

/-- The `SSRFError` of the guard, or the `ValueError` of splitting. -/
inductive GuardError where
  | ssrf (e : SsrfError)
  | url (e : UrlError)
deriving DecidableEq

/-! ## The policy -/

/-- `SSRFPolicy`, with what `from_section` checks. -/
structure SsrfPolicy where
  maxResponseBytes : Nat
  maxRedirects : Nat
  privateAllowlist : List Text
  bytes_pos : 1 ≤ maxResponseBytes
  redirects_le : maxRedirects ≤ 10
  entries_ne : ∀ e ∈ privateAllowlist, e ≠ []

namespace SsrfPolicy

variable (policy : SsrfPolicy)

/-- `host:port`. -/
def endpoint (host : Text) (port : Nat) : Text := host ++ ':' :: Nat.toDigits 10 port

/-- `allows_private`. -/
def allowsPrivate (host : Text) (port : Nat) : Bool :=
  let candidates := host :: if policy.privateAllowlist.any (':' ∈ ·) then [endpoint host port]
    else []
  candidates.any policy.privateAllowlist.contains

end SsrfPolicy

/-! ## Addresses of pages -/

/-- `validate_url`. -/
def validateUrl (t : UrlTables) (url : Text) : Except GuardError (Text × Nat) := do
  require (url ≠ []) (.ssrf .emptyUrl)
  let parts ← (t.urlsplit url).mapError .url
  require (parts.scheme = "http".toList ∨ parts.scheme = "https".toList)
    (.ssrf (.blockedScheme parts.scheme))
  require (parts.username = none ∧ parts.password = none) (.ssrf .credentials)
  let host := (parts.hostname t).getD []
  require (host ≠ []) (.ssrf .missingHost)
  let port ← parts.port.mapError .url
  let port := port.getD (if parts.scheme = "https".toList then 443 else 80)
  require (1 ≤ port ∧ port ≤ 65535) (.ssrf (.blockedPort port))
  pure (host, port)

/-! ## Addresses of hosts -/

/-- The address that is judged: of a mapped one what it is mapped from. -/
def unmapped : IpAddress → IpAddress
  | .v4 ip => .v4 ip
  | .v6 ip scope =>
    match ip.ipv4Mapped with
    | some v4 => .v4 v4
    | none => .v6 ip scope

/-- The classes of an address that is not mapped. -/
structure Classes where
  isPrivate : Bool
  isLoopback : Bool
  isLinkLocal : Bool
  isReserved : Bool
  isMulticast : Bool
  isUnspecified : Bool

def classesOf : IpAddress → Classes
  | .v4 ip => ⟨ip.isPrivate, ip.isLoopback, ip.isLinkLocal, ip.isReserved, ip.isMulticast,
      ip.isUnspecified⟩
  | .v6 ip _ => ⟨ip.isPrivate, ip.isLoopback, ip.isLinkLocal, ip.isReserved, ip.isMulticast,
      ip.isUnspecified⟩

/-- The first byte of an IPv4 address is 127. -/
def isLoopbackByte : IpAddress → Bool
  | .v4 ip => ip.val / 2 ^ 24 = 127
  | .v6 _ _ => false

/-- `check_address`. -/
def checkAddress (text : Text) : Except SsrfError Unit :=
  match ipAddress text with
  | none => .error (.unparseable text)
  | some ip => do
    let ip := unmapped ip
    require (¬ (classesOf ip).isPrivate) (.privateAddress ip)
    require (¬ (classesOf ip).isLoopback) (.loopbackAddress ip)
    require (¬ (classesOf ip).isLinkLocal) (.linkLocalAddress ip)
    require (¬ (classesOf ip).isReserved) (.reservedAddress ip)
    require (¬ (classesOf ip).isMulticast) (.multicastAddress ip)
    require (¬ (classesOf ip).isUnspecified) (.unspecifiedAddress ip)
    require (¬ isLoopbackByte ip) (.loopbackAddress ip)

/-- The address is in none of the blocked classes. -/
structure Passes (ip : IpAddress) : Prop where
  notPrivate : (classesOf (unmapped ip)).isPrivate = false
  notReserved : (classesOf (unmapped ip)).isReserved = false
  notMulticast : (classesOf (unmapped ip)).isMulticast = false

theorem passes_of_checkAddress {text : Text} (h : checkAddress text = .ok ()) :
    ∃ ip, ipAddress text = some ip ∧ Passes ip := by
  unfold checkAddress at h
  split at h
  · cases h
  · rename_i ip hip
    dsimp only at h
    obtain ⟨_, hprivate, h⟩ := bind_eq_ok.mp h
    obtain ⟨_, -, h⟩ := bind_eq_ok.mp h
    obtain ⟨_, -, h⟩ := bind_eq_ok.mp h
    obtain ⟨_, hreserved, h⟩ := bind_eq_ok.mp h
    obtain ⟨_, hmulticast, h⟩ := bind_eq_ok.mp h
    refine ⟨ip, hip, ?_, ?_, ?_⟩
    · simpa using require_eq_ok.mp hprivate
    · simpa using require_eq_ok.mp hreserved
    · simpa using require_eq_ok.mp hmulticast

/-! ## What the classes leave open -/

/-- The address is of the shared address space, as it is or mapped, or a site-local one. -/
def IsOpen (ip : IpAddress) : Bool :=
  match unmapped ip with
  | .v4 ip => ip.isShared
  | .v6 ip _ => ip.isSiteLocal

/-- Of the addresses that pass, the routable ones are those of neither space. -/
theorem routable_iff_of_passes {ip : IpAddress} (h : Passes ip) :
    ip.IsRoutable ↔ ¬ IsOpen ip := by
  have hv4 : ∀ v4 : IPv4Address, v4.isPrivate = false → v4.isMulticast = false →
      (v4.IsRoutable ↔ ¬ v4.isShared) := by
    intro v4 hprivate hmulticast
    simp [IPv4Address.IsRoutable, IPv4Address.isGlobal, hprivate, hmulticast]
  obtain ⟨hprivate, hreserved, hmulticast⟩ := h
  cases ip with
  | v4 ip => exact hv4 ip hprivate hmulticast
  | v6 ip scope =>
    cases hm : ip.ipv4Mapped with
    | some v4 =>
      simp only [unmapped, hm] at hprivate hmulticast
      simpa only [IpAddress.IsRoutable, IPv6Address.IsRoutable, IsOpen, unmapped, hm]
        using hv4 v4 hprivate hmulticast
    | none =>
      simp only [unmapped, hm, classesOf] at hprivate hreserved hmulticast
      simp [IpAddress.IsRoutable, IPv6Address.IsRoutable, IsOpen, unmapped, hm, hprivate,
        hreserved, hmulticast, IPv6Address.carried_eq_nil ip hprivate hreserved]

/-- The text is one of a routable address. -/
def RoutableText (text : Text) : Prop := ∃ ip, ipAddress text = some ip ∧ ip.IsRoutable

/-- The text is one of an address that the classes leave open. -/
def OpenText (text : Text) : Prop := ∃ ip, ipAddress text = some ip ∧ IsOpen ip

/-- **What the guard accepts.** -/
theorem routableText_iff {text : Text} (h : checkAddress text = .ok ()) :
    RoutableText text ↔ ¬ OpenText text := by
  obtain ⟨ip, hip, hpass⟩ := passes_of_checkAddress h
  have hiff := routable_iff_of_passes hpass
  simp only [RoutableText, OpenText, hip, Option.some.injEq, exists_eq_left']
  exact hiff

end Noezema.Research
