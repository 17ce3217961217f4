import Noezema.Lib.UrlSplit

/-! # Addresses of the internet protocol

The classes of `ipaddress` over IPv4 and IPv6, the IPv4 addresses that an IPv6 address can
carry, and the reader of addresses. An address is a number below the power of its width, a
block the numbers with its first bits.
-/

namespace Noezema.Lib

abbrev IPv4Address := Fin (2 ^ 32)

abbrev IPv6Address := Fin (2 ^ 128)

/-- A block: the first `prefixLength` bits of `base`. -/
structure IpBlock where
  base : Nat
  prefixLength : Nat
deriving DecidableEq

/-- The address of `width` bits is in the block. -/
def IpBlock.has (block : IpBlock) (width address : Nat) : Bool :=
  address / 2 ^ (width - block.prefixLength) = block.base / 2 ^ (width - block.prefixLength)

namespace IpBlock

variable {b c : IpBlock} {width address : Nat}

/-- The first bits of an address are those of the base of its block. -/
theorem div_eq_of_has (h : b.has width address) (hb : b.prefixLength ≤ width) {length : Nat}
    (hlength : length ≤ b.prefixLength) :
    address / 2 ^ (width - length) = b.base / 2 ^ (width - length) := by
  have hsplit : 2 ^ (width - length) =
      2 ^ (width - b.prefixLength) * 2 ^ (b.prefixLength - length) := by
    rw [← pow_add]
    congr 1
    omega
  have hdiv : address / 2 ^ (width - b.prefixLength) = b.base / 2 ^ (width - b.prefixLength) := by
    simpa [has] using h
  rw [hsplit, ← Nat.div_div_eq_div_mul, hdiv, Nat.div_div_eq_div_mul]

/-- A block with the base of a smaller one has all of it. -/
theorem has_of_has_base (h : b.has width address) (hb : b.prefixLength ≤ width)
    (hlength : c.prefixLength ≤ b.prefixLength) (hbase : c.has width b.base) :
    c.has width address := by
  have hdiv := div_eq_of_has h hb hlength
  simp only [has, decide_eq_true_eq] at hbase ⊢
  rw [hdiv, hbase]

/-- Of two blocks with a common address the larger has the base of the smaller. -/
theorem has_base_of_has (h : b.has width address) (hb : b.prefixLength ≤ width)
    (hlength : c.prefixLength ≤ b.prefixLength) (hc : c.has width address) :
    c.has width b.base := by
  have hdiv := div_eq_of_has h hb hlength
  simp only [has, decide_eq_true_eq] at hc ⊢
  rw [← hdiv, hc]

end IpBlock

/-! ## IPv4 -/

namespace IPv4Address

/-- The blocks that are not globally reachable. -/
def privateNetworks : List IpBlock :=
  [⟨0, 8⟩, ⟨0x0A000000, 8⟩, ⟨0x7F000000, 8⟩, ⟨0xA9FE0000, 16⟩, ⟨0xAC100000, 12⟩,
    ⟨0xC0000000, 24⟩, ⟨0xC00000AA, 31⟩, ⟨0xC0000200, 24⟩, ⟨0xC0A80000, 16⟩, ⟨0xC6120000, 15⟩,
    ⟨0xC6336400, 24⟩, ⟨0xCB007100, 24⟩, ⟨0xF0000000, 4⟩, ⟨0xFFFFFFFF, 32⟩]

/-- Two addresses of these blocks that are. -/
def privateExceptions : List IpBlock := [⟨0xC0000009, 32⟩, ⟨0xC000000A, 32⟩]

variable (ip : IPv4Address)

def isPrivate : Bool :=
  privateNetworks.any (·.has 32 ip) && privateExceptions.all fun b => !b.has 32 ip

/-- The shared address space. -/
def isShared : Bool := IpBlock.has ⟨0x64400000, 10⟩ 32 ip

def isGlobal : Bool := !isShared ip && !isPrivate ip

def isLoopback : Bool := IpBlock.has ⟨0x7F000000, 8⟩ 32 ip

def isLinkLocal : Bool := IpBlock.has ⟨0xA9FE0000, 16⟩ 32 ip

def isReserved : Bool := IpBlock.has ⟨0xF0000000, 4⟩ 32 ip

def isMulticast : Bool := IpBlock.has ⟨0xE0000000, 4⟩ 32 ip

def isUnspecified : Bool := ip = 0

/-- A globally routable unicast address. -/
def IsRoutable : Prop := isGlobal ip ∧ ¬ isMulticast ip

end IPv4Address

/-! ## IPv6 -/

namespace IPv6Address

/-- The blocks that are not globally reachable. -/
def privateNetworks : List IpBlock :=
  [⟨1, 128⟩, ⟨0, 128⟩, ⟨0xFFFF * 2 ^ 32, 96⟩, ⟨0x64FF9B0001 * 2 ^ 80, 48⟩, ⟨0x100 * 2 ^ 112, 64⟩,
    ⟨0x2001 * 2 ^ 112, 23⟩, ⟨0x20010DB8 * 2 ^ 96, 32⟩, ⟨0x2002 * 2 ^ 112, 16⟩,
    ⟨0xFC00 * 2 ^ 112, 7⟩, ⟨0xFE80 * 2 ^ 112, 10⟩]

def privateExceptions : List IpBlock :=
  [⟨0x20010001 * 2 ^ 96 + 1, 128⟩, ⟨0x20010001 * 2 ^ 96 + 2, 128⟩, ⟨0x20010003 * 2 ^ 96, 32⟩,
    ⟨0x200100040112 * 2 ^ 80, 48⟩, ⟨0x20010020 * 2 ^ 96, 28⟩, ⟨0x20010030 * 2 ^ 96, 28⟩]

def reservedNetworks : List IpBlock :=
  [⟨0, 8⟩, ⟨0x100 * 2 ^ 112, 8⟩, ⟨0x200 * 2 ^ 112, 7⟩, ⟨0x400 * 2 ^ 112, 6⟩,
    ⟨0x800 * 2 ^ 112, 5⟩, ⟨0x1000 * 2 ^ 112, 4⟩, ⟨0x4000 * 2 ^ 112, 3⟩, ⟨0x6000 * 2 ^ 112, 3⟩,
    ⟨0x8000 * 2 ^ 112, 3⟩, ⟨0xA000 * 2 ^ 112, 3⟩, ⟨0xC000 * 2 ^ 112, 3⟩, ⟨0xE000 * 2 ^ 112, 4⟩,
    ⟨0xF000 * 2 ^ 112, 5⟩, ⟨0xF800 * 2 ^ 112, 6⟩, ⟨0xFE00 * 2 ^ 112, 9⟩]

variable (ip : IPv6Address)

/-- The last 32 bits behind `shift` ones, as an IPv4 address. -/
def word (shift : Nat) : IPv4Address :=
  ⟨ip.val / 2 ^ shift % 2 ^ 32, Nat.mod_lt _ (by norm_num)⟩

def ipv4Mapped : Option IPv4Address :=
  if ip.val / 2 ^ 32 = 0xFFFF then some (word ip 0) else none

/-- `is_private` of an address that is not mapped. -/
def isPrivate : Bool :=
  privateNetworks.any (·.has 128 ip) && privateExceptions.all fun b => !b.has 128 ip

def isLoopback : Bool := ip.val = 1

def isLinkLocal : Bool := IpBlock.has ⟨0xFE80 * 2 ^ 112, 10⟩ 128 ip

def isReserved : Bool := reservedNetworks.any (·.has 128 ip)

def isMulticast : Bool := IpBlock.has ⟨0xFF00 * 2 ^ 112, 8⟩ 128 ip

def isUnspecified : Bool := ip.val = 0

def isSiteLocal : Bool := IpBlock.has ⟨0xFEC0 * 2 ^ 112, 10⟩ 128 ip

/-- The IPv4 addresses behind the prefix of NAT64, of 6to4, and the server and the client of
Teredo. -/
def carried : List IPv4Address :=
  if IpBlock.has ⟨0x64FF9B * 2 ^ 96, 96⟩ 128 ip then [word ip 0]
  else if IpBlock.has ⟨0x2002 * 2 ^ 112, 16⟩ 128 ip then [word ip 80]
  else if IpBlock.has ⟨0x20010000 * 2 ^ 96, 32⟩ 128 ip then
    [word ip 64, ⟨2 ^ 32 - 1 - (word ip 0).val, by omega⟩]
  else []

/-- A globally routable unicast address: a mapped one is what it is mapped from, and what
any other carries is routable too. -/
def IsRoutable : Prop :=
  match ipv4Mapped ip with
  | some v4 => v4.IsRoutable
  | none => isPrivate ip = false ∧ isReserved ip = false ∧ isMulticast ip = false ∧
      isSiteLocal ip = false ∧ ∀ v4 ∈ carried ip, v4.IsRoutable

/-- An address that is neither private nor reserved carries no other. -/
theorem carried_eq_nil (hprivate : isPrivate ip = false) (hreserved : isReserved ip = false) :
    carried ip = [] := by
  have hblocks : ∀ b ∈ privateNetworks, b.has 128 ip →
      ∃ e ∈ privateExceptions, e.has 128 ip := by
    intro b hb hin
    by_contra hnone
    push Not at hnone
    have : isPrivate ip = true := by
      rw [isPrivate, Bool.and_eq_true]
      exact ⟨List.any_eq_true.mpr ⟨b, hb, hin⟩,
        List.all_eq_true.mpr fun e he => by simpa using hnone e he⟩
    rw [hprivate] at this
    cases this
  unfold carried
  split
  · rename_i hin
    have hzero : IpBlock.has ⟨0, 8⟩ 128 ip :=
      IpBlock.has_of_has_base hin (by decide) (by decide) (by decide)
    rw [isReserved, List.any_eq_false] at hreserved
    exact absurd hzero (by simpa using hreserved ⟨0, 8⟩ (by decide))
  split
  · rename_i hin
    obtain ⟨e, he, hexcept⟩ := hblocks _ (by decide) hin
    have hbase : ∀ e ∈ privateExceptions, 16 ≤ e.prefixLength ∧ e.prefixLength ≤ 128 ∧
        ¬ IpBlock.has ⟨0x2002 * 2 ^ 112, 16⟩ 128 e.base := by decide
    obtain ⟨hlong, hshort, hout⟩ := hbase e he
    exact absurd (IpBlock.has_base_of_has hexcept hshort hlong hin) hout
  split
  · rename_i hin
    have hwide : IpBlock.has ⟨0x2001 * 2 ^ 112, 23⟩ 128 ip :=
      IpBlock.has_of_has_base hin (by decide) (by decide) (by decide)
    obtain ⟨e, he, hexcept⟩ := hblocks _ (by decide) hwide
    have hbase : ∀ e ∈ privateExceptions, e.prefixLength ≤ 128 ∧
        (32 ≤ e.prefixLength → ¬ IpBlock.has ⟨0x20010000 * 2 ^ 96, 32⟩ 128 e.base) ∧
        (e.prefixLength ≤ 32 → ¬ e.has 128 (0x20010000 * 2 ^ 96)) := by decide
    obtain ⟨hshort, hsmall, hlarge⟩ := hbase e he
    rcases Nat.le_total 32 e.prefixLength with hlong | hlong
    · exact absurd (IpBlock.has_base_of_has hexcept hshort hlong hin) (hsmall hlong)
    · exact absurd (IpBlock.has_base_of_has hin (by decide) hlong hexcept) (hlarge hlong)
  · rfl

end IPv6Address

/-! ## Addresses as texts -/

/-- An address as `ip_address` returns it; an IPv6 one can have a zone. -/
inductive IpAddress where
  | v4 (ip : IPv4Address)
  | v6 (ip : IPv6Address) (scopeId : Option (List Char))
deriving DecidableEq

def IpAddress.IsRoutable : IpAddress → Prop
  | .v4 ip => ip.IsRoutable
  | .v6 ip _ => ip.IsRoutable

/-- `_parse_octet`. -/
def parseOctet (text : List Char) : Option (Fin 256) :=
  if text = [] ∨ ¬ text.all Char.isDigit ∨ 3 < text.length ∨
      (text ≠ ['0'] ∧ text.head? = some '0') then none
  else if h : SplitResult.decimalValue text < 256 then some ⟨_, h⟩ else none

/-- `IPv4Address` of a text. -/
def parseIPv4 (text : List Char) : Option IPv4Address :=
  if '/' ∈ text then none
  else
    match (text.splitOn '.').mapM parseOctet with
    | some [a, b, c, d] =>
      some ⟨((a.val * 256 + b.val) * 256 + c.val) * 256 + d.val, by omega⟩
    | _ => none

def hexDigit? (c : Char) : Option Nat :=
  if '0' ≤ c ∧ c ≤ '9' then some (c.toNat - '0'.toNat)
  else if 'a' ≤ c ∧ c ≤ 'f' then some (c.toNat - 'a'.toNat + 10)
  else if 'A' ≤ c ∧ c ≤ 'F' then some (c.toNat - 'A'.toNat + 10)
  else none

/-- `_parse_hextet`. -/
def parseHextet (text : List Char) : Option (Fin 65536) :=
  if text = [] ∨ 4 < text.length then none
  else do
    let digits ← text.mapM hexDigit?
    let value := digits.foldl (fun n d => 16 * n + d) 0
    if h : value < 65536 then some ⟨value, h⟩ else none

/-- The last part in IPv4 notation becomes two hexadecimal ones. -/
def expandSuffix (parts : List (List Char)) : Option (List (List Char)) :=
  match parts.getLast? with
  | some last =>
    if '.' ∈ last then do
      let v4 ← parseIPv4 last
      some (parts.dropLast ++ [Nat.toDigits 16 (v4.val / 65536), Nat.toDigits 16 (v4.val % 65536)])
    else some parts
  | none => some parts

/-- The parts on one side of a skip: an empty one at the end is part of the skip. -/
def besideSkip (parts : List (List Char)) (outer : Option (List Char)) :
    Option (List (List Char)) :=
  if outer = some [] then if parts.length = 1 then some [] else none else some parts

/-- The eight parts with the skipped ones as zeros. -/
def hextets (parts : List (List Char)) : Option (List (Fin 65536)) :=
  match (List.range parts.length).filter fun i =>
      0 < i ∧ i < parts.length - 1 ∧ parts[i]? = some [] with
  | [] =>
    if parts.length = 8 ∧ parts.head? ≠ some [] ∧ parts.getLast? ≠ some [] then
      parts.mapM parseHextet
    else none
  | [skip] => do
    let high ← besideSkip (parts.take skip) parts.head?
    let low ← besideSkip (parts.drop (skip + 1)) parts.getLast?
    if high.length + low.length < 8 then
      let high ← high.mapM parseHextet
      let low ← low.mapM parseHextet
      some (high ++ List.replicate (8 - (high.length + low.length)) 0 ++ low)
    else none
  | _ => none

/-- `IPv6Address` of a text without a zone. -/
def parseIPv6 (text : List Char) : Option IPv6Address := do
  let parts := text.splitOn ':'
  if parts.length < 3 then none
  else
    let parts ← expandSuffix parts
    if 9 < parts.length then none
    else
      match ← hextets parts with
      | [a, b, c, d, e, f, g, h] =>
        some ⟨((((((a.val * 65536 + b.val) * 65536 + c.val) * 65536 + d.val) * 65536 + e.val) *
          65536 + f.val) * 65536 + g.val) * 65536 + h.val, by omega⟩
      | _ => none

/-- `_split_scope_id`. -/
def splitScopeId (text : List Char) : Option (List Char × Option (List Char)) :=
  if '%' ∈ text then
    let scope := after '%' text
    if scope = [] ∨ '%' ∈ scope then none else some (before '%' text, some scope)
  else some (text, none)

/-- `ip_address`. -/
def ipAddress (text : List Char) : Option IpAddress :=
  match parseIPv4 text with
  | some ip => some (.v4 ip)
  | none =>
    if '/' ∈ text then none
    else do
      let (address, scope) ← splitScopeId text
      let ip ← parseIPv6 address
      some (.v6 ip scope)

end Noezema.Lib
