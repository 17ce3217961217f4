import Noezema.Lib.Except
import Noezema.Lib.SplitOn
import Noezema.Lib.UrlSplit
import Noezema.Memory.Reference
import Noezema.Memory.SourceGraph

/-! # The registrable domain of an address

`normalize_uri` and `registrable_domain`. Both split the address without a guard:
`normalizeUri_ok_iff` and `registrableDomain_ok_iff` say for which authorities they return.
-/

namespace Noezema.Memory

open Noezema.Lib Noezema.Lib.SplitResult

/-- `DEFAULT_PORTS`. -/
def defaultPort (scheme : List Char) : Option Nat :=
  if scheme = "http".toList then some 80
  else if scheme = "https".toList then some 443
  else if scheme = "ftp".toList then some 21
  else none

section Domains

variable (t : UrlTables) (rd : TextReader)

/-- The host of an address, without `www.`. -/
def normalizedHost (r : SplitResult) : List Char :=
  let host := (r.hostname t).elim [] t.lower
  if "www.".toList <+: host then host.drop 4 else host

/-- The text of a port that is not the default one. -/
def normalizedPort (scheme : List Char) (port : Option Nat) : List Char :=
  match port with
  | some p => if defaultPort scheme = some p ∨ p = 0 then [] else ':' :: Nat.toDigits 10 p
  | none => []

def normalizedPath (path : List Char) : List Char :=
  if 1 < path.length ∧ path.getLast? = some '/' then path.rdropWhile (· = '/') else path

/-- `normalize_uri`. -/
def normalizeUri (uri : List Char) : Except UrlError (List Char) := do
  let parts ← t.urlsplit (strip uri)
  let scheme := t.lower parts.scheme
  let port ← parts.port
  let netloc := normalizedHost t parts ++ normalizedPort scheme port
  let query := if parts.query = [] then [] else '?' :: parts.query
  pure (scheme ++ ':' :: '/' :: '/' :: (netloc ++ (normalizedPath parts.path ++ query)))

/-- `registrable_domain`: the host of the normalized address is read as the grouping reads
it. -/
def registrableDomainOf (uri : List Char) : Except UrlError (Option String) := do
  let normalized ← normalizeUri t uri
  let parts ← t.urlsplit normalized
  let host := (parts.hostname t).map String.ofList
  pure (registrableDomain { rd with hostname := fun _ => host } (String.ofList uri))

end Domains

/-! ## When the derivations return -/

/-- An authority that the derivations read: plain, and the text of its port is a port. -/
structure ReadableNetloc (t : UrlTables) (netloc : List Char) : Prop where
  plain : t.PlainNetloc netloc
  port : PortText (hostinfo netloc).2

section Returns

variable {t : UrlTables} {rd : TextReader} {uri : List Char}

theorem normalizeUri_ok_iff (hclosed : ']' ∉ (splitUrl (strip uri)).netloc) :
    (∃ n, normalizeUri t uri = .ok n) ↔ ReadableNetloc t (splitUrl (strip uri)).netloc := by
  have hsplit := @urlsplit_ok_iff t (strip uri) hclosed
  have hport := port_ok_iff (splitUrl (strip uri))
  unfold normalizeUri
  constructor
  · rintro ⟨n, h⟩
    obtain ⟨r, hr, h⟩ := bind_eq_ok.mp h
    obtain rfl := urlsplit_eq hr
    obtain ⟨p, hp, -⟩ := bind_eq_ok.mp h
    exact ⟨hsplit.mp ⟨_, hr⟩, hport.mp ⟨p, hp⟩⟩
  · rintro ⟨hplain, htext⟩
    obtain ⟨r, hr⟩ := hsplit.mpr hplain
    obtain rfl := urlsplit_eq hr
    obtain ⟨p, hp⟩ := hport.mpr htext
    exact ⟨_, bind_eq_ok.mpr ⟨_, hr, bind_eq_ok.mpr ⟨p, hp, rfl⟩⟩⟩

/-- The host is a part of a plain authority. -/
theorem mem_of_mem_host {netloc : List Char} (hopen : '[' ∉ netloc) {x : Char}
    (hx : x ∈ (hostinfo netloc).1) : x ∈ netloc ∧ x ≠ '@' ∧ x ≠ ':' := by
  have hinfo : '[' ∉ afterLast '@' netloc := fun h => hopen (mem_of_mem_afterLast h).1
  rw [hostinfo, if_neg hinfo] at hx
  obtain ⟨hx, hcolon⟩ := mem_of_mem_before hx
  obtain ⟨hx, hat⟩ := mem_of_mem_afterLast hx
  exact ⟨hx, hat, hcolon⟩

theorem mem_of_mem_normalizedHost {r : SplitResult} {x : Char} (hx : x ∈ normalizedHost t r) :
    ∃ h, r.hostname t = some h ∧ x ∈ t.lower h := by
  unfold normalizedHost at hx
  cases hh : r.hostname t with
  | none => simp [hh] at hx
  | some h =>
    refine ⟨h, rfl, ?_⟩
    simp only [hh, Option.elim_some] at hx
    split at hx
    · exact List.mem_of_mem_drop hx
    · exact hx

theorem hostname_eq_some {r : SplitResult} {h : List Char} (hh : r.hostname t = some h) :
    h = t.lower (before '%' (hostinfo r.netloc).1) ++
      (hostinfo r.netloc).1.dropWhile (· ≠ '%') := by
  unfold SplitResult.hostname at hh
  dsimp only at hh
  split at hh
  · cases hh
  · exact (Option.some.inj hh).symm

/-- Lowering brings neither a symbol nor an expansion into the host. -/
theorem normalizedHost_symbol {r : SplitResult} {c : Char} (hascii : isAscii c)
    (hlower : c.isLower = false) (hc : c ∈ normalizedHost t r) : c ∈ (hostinfo r.netloc).1 := by
  obtain ⟨h, hh, hc⟩ := mem_of_mem_normalizedHost hc
  have hc := t.lower_symbol h c hc hascii hlower
  rw [hostname_eq_some hh] at hc
  rcases List.mem_append.mp hc with hc | hc
  · exact (mem_of_mem_before (t.lower_symbol _ c hc hascii hlower)).1
  · exact (List.dropWhile_suffix _).subset hc

theorem normalizedHost_expands {r : SplitResult} {x : Char} (hx : x ∈ normalizedHost t r)
    (hexp : t.Expands x) : ∃ y ∈ (hostinfo r.netloc).1, t.Expands y := by
  obtain ⟨h, hh, hx⟩ := mem_of_mem_normalizedHost hx
  obtain ⟨d, hd, hin⟩ := hexp
  obtain ⟨y, hy, hdy⟩ := t.lower_delim h x hx d hd hin
  rw [hostname_eq_some hh] at hy
  rcases List.mem_append.mp hy with hy | hy
  · obtain ⟨z, hz, hdz⟩ := t.lower_delim _ y hy d hd hdy
    exact ⟨z, (mem_of_mem_before hz).1, d, hd, hdz⟩
  · exact ⟨y, (List.dropWhile_suffix _).subset hy, d, hd, hdy⟩

theorem mem_normalizedPort {scheme : List Char} {p : Option Nat} {x : Char}
    (hx : x ∈ normalizedPort scheme p) : x = ':' ∨ x.isDigit := by
  unfold normalizedPort at hx
  split at hx
  · split at hx
    · cases hx
    · rcases List.mem_cons.mp hx with rfl | hx
      · exact .inl rfl
      · exact .inr (Nat.isDigit_of_mem_toDigits (by decide) (by decide) hx)
  · cases hx

/-- The authority of a normalized address is plain again. -/
theorem normalizedNetloc_plain {r : SplitResult} (hplain : t.PlainNetloc r.netloc)
    (scheme : List Char) (p : Option Nat) :
    t.PlainNetloc (normalizedHost t r ++ normalizedPort scheme p) := by
  constructor
  · intro hx
    rcases List.mem_append.mp hx with hx | hx
    · have hhost := normalizedHost_symbol (by decide) (by decide) hx
      exact hplain.unbracketed (mem_of_mem_host hplain.unbracketed hhost).1
    · rcases mem_normalizedPort hx with h | h <;> revert h <;> decide
  · intro x hx
    rcases List.mem_append.mp hx with hx | hx
    · refine .inr (.inr fun hexp => ?_)
      obtain ⟨y, hy, hexp⟩ := normalizedHost_expands hx hexp
      obtain ⟨hy, hat, hcolon⟩ := mem_of_mem_host hplain.unbracketed hy
      rcases hplain.stable y hy with h | h | h
      · exact hat h
      · exact hcolon h
      · exact h hexp
    · rcases mem_normalizedPort hx with h | h
      · exact .inr (.inl h)
      · refine .inr (.inr (not_expands_of_ascii ?_ ?_))
        · exact isSchemeChar_ascii (by simp [isSchemeChar, Char.isAlphanum, h])
        · intro hreserved
          fin_cases hreserved <;> revert h <;> decide

theorem normalizedNetloc_unclosed {r : SplitResult} (hopen : '[' ∉ r.netloc)
    (hclosed : ']' ∉ r.netloc) (scheme : List Char) (p : Option Nat) :
    ']' ∉ normalizedHost t r ++ normalizedPort scheme p := by
  intro hx
  rcases List.mem_append.mp hx with hx | hx
  · have hhost := normalizedHost_symbol (by decide) (by decide) hx
    exact hclosed (mem_of_mem_host hopen hhost).1
  · rcases mem_normalizedPort hx with h | h <;> revert h <;> decide

theorem head_normalizedPath {path : List Char} {c : Char}
    (hc : c ∈ (normalizedPath path).head?) : c ∈ path.head? := by
  unfold normalizedPath at hc
  split at hc
  · obtain ⟨rest, hrest⟩ := path.rdropWhile_prefix (· = '/')
    rw [← hrest]
    exact List.mem_head?_append_of_mem_head? hc
  · exact hc

theorem lower_scheme (url : List Char) :
    t.lower (splitUrl url).scheme = (splitUrl url).scheme := by
  rcases splitUrl_scheme url with hnil | hscheme
  · rw [hnil]
    exact t.lower_ascii [] (by simp)
  · rw [t.lower_ascii _ fun c hc => isSchemeChar_ascii (hscheme.chars c hc)]
    exact hscheme.lowered

/-- What is put together again is split again: the second split adds no failure. -/
theorem registrableDomainOf_ok_iff (hclosed : ']' ∉ (splitUrl (strip uri)).netloc)
    (hrooted : (splitUrl (strip uri)).Rooted) :
    (∃ d, registrableDomainOf t rd uri = .ok d) ↔
      ReadableNetloc t (splitUrl (strip uri)).netloc := by
  rw [← normalizeUri_ok_iff hclosed]
  unfold registrableDomainOf
  constructor
  · rintro ⟨d, h⟩
    obtain ⟨n, hn, -⟩ := bind_eq_ok.mp h
    exact ⟨n, hn⟩
  · rintro ⟨n, hn⟩
    have hreadable := (normalizeUri_ok_iff hclosed).mp ⟨n, hn⟩
    obtain ⟨r, hr, hrest⟩ := bind_eq_ok.mp hn
    obtain rfl := urlsplit_eq hr
    obtain ⟨p, -, hrest⟩ := bind_eq_ok.mp hrest
    have hsplit : ∃ r, t.urlsplit n = .ok r := by
      obtain rfl := Except.ok.inj hrest
      rw [lower_scheme]
      have hparts : (splitUrl (strip uri)).scheme = [] ∨ IsScheme (splitUrl (strip uri)).scheme ∧
          ∀ c ∈ (normalizedPath (splitUrl (strip uri)).path ++
            if (splitUrl (strip uri)).query = [] then []
            else '?' :: (splitUrl (strip uri)).query).head?, c ∈ pathDelims := by
        rcases hrooted with hnil | hpath
        · exact .inl hnil
        · refine (splitUrl_scheme (strip uri)).imp_right fun hscheme => ⟨hscheme, fun c hc => ?_⟩
          rw [List.head?_append] at hc
          rcases Option.or_eq_some_iff.mp hc with hc | ⟨-, hc⟩
          · rw [hpath c (head_normalizedPath hc)]
            decide
          · split at hc
            · cases hc
            · obtain rfl : '?' = c := by simpa using hc
              decide
      have hmem := fun x => @netloc_of_parts _ (normalizedHost t (splitUrl (strip uri)) ++
        normalizedPort (splitUrl (strip uri)).scheme p) _ hparts x
      have hplain := hreadable.plain
      refine (urlsplit_ok_iff fun hx => ?_).mpr
        ((normalizedNetloc_plain hplain (splitUrl (strip uri)).scheme p).subset hmem)
      exact normalizedNetloc_unclosed hplain.unbracketed hclosed _ p (hmem _ hx)
    obtain ⟨r, hr⟩ := hsplit
    exact ⟨_, bind_eq_ok.mpr ⟨n, hn, bind_eq_ok.mpr ⟨r, hr, rfl⟩⟩⟩

end Returns

/-! ## The symbols of a domain -/

section Symbols

variable {t : UrlTables} {rd : TextReader} {uri : List Char} {x : Char}

theorem mem_of_mem_lastLabels {labels : List String} {n : Nat}
    (h : x ∈ (lastLabels labels n).toList) : x = '.' ∨ ∃ w ∈ labels, x ∈ w.toList := by
  rcases mem_of_mem_intercalate h with h | ⟨w, hw, hx⟩
  · exact .inl (by simpa using h)
  · exact .inr ⟨w, List.mem_of_mem_drop hw, hx⟩

theorem mem_of_mem_registrableDomain {u d : String} (h : registrableDomain rd u = some d)
    (hx : x ∈ d.toList) : x = '.' ∨ ∃ host, rd.hostname u = some host ∧ x ∈ host.toList := by
  unfold registrableDomain at h
  cases hhost : rd.hostname u with
  | none =>
    rw [hhost] at h
    cases h
  | some host =>
    rw [hhost] at h
    dsimp only at h
    have hlast : ∀ {n}, x ∈ (lastLabels (host.splitOn ".") n).toList →
        x = '.' ∨ x ∈ host.toList := by
      intro n hn
      refine (mem_of_mem_lastLabels hn).imp_right ?_
      rintro ⟨w, hw, hxw⟩
      exact mem_of_mem_splitOn hw hxw
    have hhere : x = '.' ∨ x ∈ host.toList := by
      split at h
      · cases h
      · split at h
        · exact .inr (Option.some.inj h ▸ hx)
        · split at h
          · exact .inr (Option.some.inj h ▸ hx)
          · split at h
            · rw [← Option.some.inj h] at hx
              split at hx
              · exact hlast hx
              · exact hlast hx
            · exact hlast (Option.some.inj h ▸ hx)
    exact hhere.imp_right fun hx => ⟨host, rfl, hx⟩

theorem mem_of_mem_hostinfo {netloc : List Char} (h : x ∈ (hostinfo netloc).1) : x ∈ netloc := by
  unfold hostinfo at h
  dsimp only at h
  split at h
  · exact (mem_of_mem_afterLast (mem_of_mem_after (mem_of_mem_before h).1)).1
  · exact (mem_of_mem_afterLast (mem_of_mem_before h).1).1

/-- A symbol that no lowering makes is in the host of the authority. -/
theorem mem_of_mem_hostname {r : SplitResult} {host : List Char} (h : r.hostname t = some host)
    (hascii : isAscii x) (hlower : x.isLower = false) (hx : x ∈ host) : x ∈ r.netloc := by
  rw [hostname_eq_some h] at hx
  rcases List.mem_append.mp hx with hx | hx
  · exact mem_of_mem_hostinfo (mem_of_mem_before (t.lower_symbol _ x hx hascii hlower)).1
  · exact mem_of_mem_hostinfo ((List.dropWhile_suffix _).subset hx)

/-- No delimiter of a path is in a domain. -/
theorem registrableDomainOf_no_delim {d : String} (h : registrableDomainOf t rd uri = .ok (some d))
    (hx : x ∈ pathDelims) : x ∉ d.toList := by
  intro hin
  obtain ⟨n, -, h⟩ := bind_eq_ok.mp h
  obtain ⟨parts, hparts, h⟩ := bind_eq_ok.mp h
  obtain rfl := urlsplit_eq hparts
  have hdelim : isAscii x ∧ x.isLower = false ∧ x ≠ '.' := by fin_cases hx <;> decide
  rcases mem_of_mem_registrableDomain (Except.ok.inj h) hin with hdot | ⟨host, hhost, hin⟩
  · exact hdelim.2.2 hdot
  · obtain ⟨name, hname, rfl⟩ := Option.map_eq_some_iff.mp hhost
    rw [String.toList_ofList] at hin
    exact netloc_no_delim (mem_of_mem_hostname hname hdelim.1 hdelim.2.1 hin) hx

end Symbols

end Noezema.Memory
