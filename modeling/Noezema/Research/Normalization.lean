import Noezema.Artifacts.Store
import Noezema.Lib.CodePoints
import Noezema.Lib.Except
import Noezema.Lib.Regex

/-! # The normalizer of fetched pages

`normalize_content`: the text of a body, the hash of the text, and the chain of what was done
to the body. Codecs, the markup parser, the JSON reader and the PDF reader are libraries and
enter as parameters. The name of the codec is the sender's, and a known name need not be one
of a text encoding (`normalizeContent_iff`).
-/

namespace Noezema.Research

open Noezema.Lib Noezema.Lib.PyText Noezema.Artifacts

/-! ## The libraries -/

/-- What the markup parser calls the extractor with. -/
inductive MarkupEvent where
  | startTag (name : PyText)
  | endTag (name : PyText)
  | data (text : PyText)

/-- What `json.loads` raises: `ValueError`, which is caught, or `RecursionError`. -/
inductive JsonError where
  | value | recursion
deriving DecidableEq

/-- `PdfReader`: what each of its calls returns, none where it raises. -/
structure PdfReader where
  isEncrypted : Option Bool
  decrypts : Option Bool
  /-- Of each page what `extract_text` returns. -/
  pages : Option (List (Option (Option PyText)))

structure Libraries where
  /-- `str.lower`. -/
  lower : PyText → PyText
  /-- `codecs.lookup`, and `bytes.decode` by the name with `errors="replace"`, none where it
  raises. -/
  codec : PyText → Option (Bytes → Option PyText)
  /-- What `HTMLParser` reads before it ends or raises. -/
  feed : PyText → List MarkupEvent
  /-- A reference to a surrogate is replaced. -/
  feed_clean : ∀ s, Clean s → ∀ d, MarkupEvent.data d ∈ feed s → Clean d
  Json : Type
  /-- `json.loads`. -/
  loads : PyText → Except JsonError Json
  /-- `json.dumps(.., ensure_ascii=False, indent=1)`, none where it raises. -/
  dumps : Json → Option PyText
  /-- `PdfReader(..)`, none where it raises. -/
  pdfReader : Bytes → Option PdfReader
  /-- The time is up behind the page. -/
  expired : Nat → Bool
  sha256 : Sha256

/-- What leaves the normalizer: a decoder that raises, a text that is not encoded, or the
depth of a JSON value. -/
inductive NormalizeError where
  | decode | encode | recursion
deriving DecidableEq

/-- `REFUSAL_*`. -/
inductive Refusal where
  | unsupportedFormat | pdfUnreadable | pdfNoTextLayer | botChallengeStub | emptyPage
deriving DecidableEq

structure NormalizedContent where
  text : Option PyText
  transformChain : List PyText
  textSha256 : Option String
  refusal : Option Refusal
deriving DecidableEq

/-! ## The declared encoding -/

/-- A small letter with `re.IGNORECASE`: the long `s`, the Kelvin sign and the letters `i`
with and without a dot match ASCII letters. -/
def foldsTo (l : Char) (c : CodePoint) : Bool :=
  c = CodePoint.ofChar l ∨ c = CodePoint.ofChar l.toUpper ∨ (l = 's' ∧ c = 0x17F) ∨
    (l = 'k' ∧ c = 0x212A) ∨ (l = 'i' ∧ (c = 0x130 ∨ c = 0x131))

def foldsToByte (l : Char) (b : UInt8) : Bool :=
  b.toNat = l.toNat ∨ b.toNat = l.toUpper.toNat

/-- `[A-Za-z0-9_.:-]`. -/
def isEncodingChar (c : Char) : Bool := c.isAlphanum ∨ c ∈ ['_', '.', ':', '-']

def isEncodingSymbol (c : CodePoint) : Bool :=
  (c.val < 128 ∧ isEncodingChar (Char.ofNat c.val)) ∨ c = 0x17F ∨ c = 0x212A ∨ c = 0x130 ∨ c = 0x131

def isEncodingByte (b : UInt8) : Bool := b.toNat < 128 ∧ isEncodingChar (Char.ofNat b.toNat)

/-- `\s` of bytes. -/
def isSpaceByte (b : UInt8) : Bool := b = 32 ∨ (9 ≤ b.toNat ∧ b.toNat ≤ 13)

section Patterns

open Regex

/-- A symbol of ASCII. -/
def sym (l : Char) : Regex CodePoint := symbol (· = CodePoint.ofChar l)

def symByte (l : Char) : Regex UInt8 := symbol (·.toNat = l.toNat)

/-- `_CHARSET_PARAM_RE`. -/
def charsetParam : Regex CodePoint :=
  seqs [word foldsTo "charset".toList, many 0 none (symbol CodePoint.isSpace), sym '=',
    many 0 none (symbol CodePoint.isSpace), optional (sym '"'),
    group 1 (many 1 none (symbol isEncodingSymbol))]

/-- `_META_CHARSET_RE`. -/
def metaCharset : Regex UInt8 :=
  seqs [word foldsToByte "<meta".toList, many 1 none (symbol (·.toNat ≠ '>'.toNat)),
    word foldsToByte "charset".toList, many 0 none (symbol isSpaceByte), symByte '=',
    many 0 none (symbol isSpaceByte), optional (alt (symByte '"') (symByte '\'')),
    group 1 (many 1 none (symbol isEncodingByte))]

/-- `_BOT_CHALLENGE_MARKERS`. -/
def botChallengeMarkers : List (Regex CodePoint) :=
  [seqs [word foldsTo "<noscript".toList, many 0 none (symbol (· ≠ CodePoint.ofChar '>')), sym '>',
      many 0 none (symbol CodePoint.isSpace), word foldsTo "<meta".toList,
      many 1 none (symbol (· ≠ CodePoint.ofChar '>')), word foldsTo "http-equiv".toList,
      many 0 none (symbol CodePoint.isSpace), sym '=', many 0 none (symbol CodePoint.isSpace),
      optional (alt (sym '"') (sym '\'')), word foldsTo "refresh".toList],
    word foldsTo "servicepipe.tech/loaders/".toList,
    word (fun l c => c = CodePoint.ofChar l) "__jhash_=".toList]

end Patterns

/-- `META_CHARSET_WINDOW_BYTES`. -/
def metaCharsetWindowBytes : Nat := 4096

/-- `_BOM_ENCODINGS`. -/
def bomEncodings : List (Bytes × PyText) :=
  [([0xEF, 0xBB, 0xBF], lit "utf-8-sig"), ([0xFF, 0xFE], lit "utf-16"),
    ([0xFE, 0xFF], lit "utf-16")]

section Normalize

variable (lib : Libraries)

/-- `(content_type or "").split(";")[0].strip().lower()`. -/
def contentTypeName (contentType : Option PyText) : PyText :=
  lib.lower (strip ((contentType.getD []).takeWhile (· ≠ CodePoint.ofChar ';')))

def isHtml (ctype : PyText) : Bool := ctype = lit "text/html" ∨ ctype = lit "application/xhtml+xml"

def isPlain (ctype : PyText) : Bool :=
  ctype ∈ [lit "text/plain", lit "text/markdown", lit "text/x-markdown"]

/-- `detect_declared_encoding`. -/
def detectDeclaredEncoding (contentType : Option PyText) (data : Bytes) : Option PyText :=
  let header := contentType.getD []
  match (charsetParam.search [] header).bind (·.groupText header 1) with
  | some name => some (lib.lower name)
  | none =>
    match bomEncodings.find? fun e => e.1.isPrefixOf data with
    | some e => some e.2
    | none =>
      if isHtml (contentTypeName lib contentType) then
        let window := data.take metaCharsetWindowBytes
        ((metaCharset.search [] window).bind (·.groupText window 1)).map fun name =>
          lib.lower (ofChars (name.map fun b => Char.ofNat b.toNat))
      else none

/-- How a body is decoded. -/
inductive Decoding where
  | utf8
  | unknown (declared : PyText)
  | declared (name : PyText)

/-- The label of the chain. -/
def Decoding.label : Decoding → List PyText
  | .utf8 => []
  | .unknown name => [lit "decode:unknown:" ++ name]
  | .declared name => [lit "decode:" ++ name]

/-- The choice of `_decode_body`. -/
def decoding (contentType : Option PyText) (data : Bytes) : Decoding :=
  match detectDeclaredEncoding lib contentType data with
  | none => .utf8
  | some name =>
    if name = lit "utf-8" then .utf8
    else if lib.codec name = none then .unknown name
    else .declared name

/-- The bytes by the codec of a name. -/
def Decoding.decode (data : Bytes) : Decoding → Option PyText
  | .declared name => (lib.codec name).bind (· data)
  | _ => some (decodeUtf8 data)

/-- `_decode_body`. -/
def decodeBody (contentType : Option PyText) (data : Bytes) :
    Except NormalizeError (PyText × List PyText) :=
  let d := decoding lib contentType data
  match d.decode lib data with
  | some decoded => .ok (decoded, d.label)
  | none => .error .decode

/-! ## PDF -/

/-- `PDF_MAX_PAGES`. -/
def pdfMaxPages : Nat := 400

/-- `PDF_MAX_TEXT_CHARS`. -/
def pdfMaxTextChars : Nat := 1000000

/-- `PDF_PAGE_SEPARATOR`. -/
def pdfPageSeparator (page : Nat) : PyText :=
  lit "\n\n<<<PAGE " ++ ofChars (Nat.toDigits 10 page) ++ lit ">>>\n\n"

/-- `PDF_TRUNCATION_MARKER`. -/
def pdfTruncationMarker : PyText :=
  lit "\n\n[... нормализация PDF остановлена: достигнут лимит ...]"

/-- Why the loop over the pages ended. -/
inductive PdfStop where
  | done | pages | chars | time

def PdfStop.label : PdfStop → List PyText
  | .done => []
  | .pages => [lit "pdf-truncated:pages:400"]
  | .chars => [lit "pdf-truncated:chars:1000000"]
  | .time => [lit "pdf-truncated:time:20"]

def PdfStop.marker : PdfStop → PyText
  | .done => []
  | _ => pdfTruncationMarker

/-- The loop over the pages, none where a page raises. -/
def readPages (index used : Nat) (pieces : List PyText) :
    List (Option (Option PyText)) → Option (List PyText × PdfStop)
  | [] => some (pieces, .done)
  | page :: rest =>
    if pdfMaxPages ≤ index then some (pieces, .pages)
    else match page with
    | none => none
    | some extracted =>
      let pageText := strip (extracted.getD [])
      if pageText = [] then
        if lib.expired index then some (pieces, .time)
        else readPages (index + 1) used pieces rest
      else
        let separator := if pieces = [] then [] else pdfPageSeparator (index + 1)
        if pdfMaxTextChars < used + (separator.length + pageText.length) then
          let room : Int := pdfMaxTextChars - used - separator.length
          let last := if 0 < room then [separator ++ pageText.take room.toNat] else []
          some (pieces ++ last, .chars)
        else if lib.expired index then some (pieces ++ [separator ++ pageText], .time)
        else readPages (index + 1) (used + (separator.length + pageText.length))
          (pieces ++ [separator ++ pageText]) rest

/-- What the guarded part of `_normalize_pdf` reads: the pieces, why they end, and the number
of pages; none where it refuses. -/
def extractPdf (data : Bytes) : Option (List PyText × PdfStop × Nat) := do
  let reader ← lib.pdfReader data
  let encrypted ← reader.isEncrypted
  let opened ← (if encrypted then reader.decrypts else some true)
  if opened then
    let pages ← reader.pages
    let read ← readPages lib 0 0 [] pages
    some (read.1, read.2, pages.length)
  else none

/-- `_pdf_refusal`. -/
def pdfRefusal (reason : Refusal) : NormalizedContent := ⟨none, [lit "fetch"], none, some reason⟩

/-- The hash of a text, where it is encoded. -/
def hashed (text : PyText) (chain : List PyText) (refusal : Option Refusal) :
    Except NormalizeError NormalizedContent :=
  match encodeUtf8 text with
  | some data => .ok ⟨some text, chain, some (lib.sha256 data), refusal⟩
  | none => .error .encode

/-- `_normalize_pdf`. -/
def normalizePdf (data : Bytes) : Except NormalizeError NormalizedContent :=
  match extractPdf lib data with
  | none => .ok (pdfRefusal .pdfUnreadable)
  | some (pieces, stop, pageCount) =>
    if pieces = [] then .ok (pdfRefusal .pdfNoTextLayer)
    else hashed lib (strip (pieces.flatten ++ stop.marker))
      ([lit "fetch", lit "normalize:pdf-text",
        lit "pdf-pages:" ++ ofChars (Nat.toDigits 10 pageCount)] ++ stop.label) none

/-! ## Markup and plain texts -/

/-- The tags whose content is not shown. -/
def hiddenTags : List PyText := [lit "script", lit "style", lit "template", lit "noscript"]

/-- `_TextExtractor`. -/
structure TextExtractor where
  pieces : List PyText
  skipDepth : Nat

def TextExtractor.handle (x : TextExtractor) : MarkupEvent → TextExtractor
  | .startTag tag => if tag ∈ hiddenTags then { x with skipDepth := x.skipDepth + 1 } else x
  | .endTag tag => if tag ∈ hiddenTags then { x with skipDepth := x.skipDepth - 1 } else x
  | .data d =>
    if x.skipDepth = 0 ∧ strip d ≠ [] then { x with pieces := x.pieces ++ [d] } else x

/-- The text a page shows. -/
def visibleText (decoded : PyText) : PyText :=
  strip (join (lit "\n") ((lib.feed decoded).foldl TextExtractor.handle ⟨[], 0⟩).pieces)

/-- `_no_text_reason`. -/
def noTextReason (decoded text : PyText) : Option Refusal :=
  if text ≠ [] then none
  else if botChallengeMarkers.any fun m => (m.search [] decoded).isSome then some .botChallengeStub
  else some .emptyPage

/-- The text of a JSON body. -/
def jsonText (data : Bytes) : Except NormalizeError PyText :=
  match decodeUtf8Strict data with
  | none => .ok (strip (decodeUtf8 data))
  | some source =>
    match lib.loads source with
    | .error .value => .ok (strip (decodeUtf8 data))
    | .error .recursion => .error .recursion
    | .ok value =>
      match lib.dumps value with
      | some text => .ok text
      | none => .error .recursion

/-- The signature `%PDF-`. -/
def pdfMagic : Bytes := [0x25, 0x50, 0x44, 0x46, 0x2D]

def isPdf (contentType : Option PyText) (data : Bytes) : Bool :=
  pdfMagic.isPrefixOf data ∨ contentTypeName lib contentType = lit "application/pdf"

/-- `normalize_content`. -/
def normalizeContent (contentType : Option PyText) (data : Bytes) :
    Except NormalizeError NormalizedContent :=
  let ctype := contentTypeName lib contentType
  if isPdf lib contentType data then normalizePdf lib data
  else if isHtml ctype then do
    let (decoded, label) ← decodeBody lib contentType data
    let text := visibleText lib decoded
    hashed lib text ([lit "fetch", lit "normalize:html-text"] ++ label) (noTextReason decoded text)
  else if isPlain ctype then do
    let (decoded, label) ← decodeBody lib contentType data
    let text := strip decoded
    hashed lib text ([lit "fetch", lit "normalize:decode-utf8"] ++ label)
      (if text = [] then some .emptyPage else none)
  else if ctype = lit "application/json" then do
    let text ← jsonText lib data
    hashed lib text [lit "fetch", lit "normalize:json-canonical"]
      (noTextReason (decodeUtf8 data) text)
  else .ok ⟨none, [lit "fetch"], none, some .unsupportedFormat⟩

end Normalize

/-! ## What a result says -/

section Honest

variable (lib : Libraries)

/-- The name of the chain is known where its codec was used, and unknown where not. -/
def Decoding.Known : Decoding → Prop
  | .utf8 => True
  | .unknown name => lib.codec name = none
  | .declared name => lib.codec name ≠ none

/-- The text was made from the body by the encoding that the chain names. -/
inductive MadeFrom (data : Bytes) (r : NormalizedContent) : Prop where
  | html (d : Decoding) (decoded : PyText) (hknown : d.Known lib)
      (hdecoded : d.decode lib data = some decoded)
      (htext : r.text = some (visibleText lib decoded))
      (hchain : r.transformChain = [lit "fetch", lit "normalize:html-text"] ++ d.label)
  | plain (d : Decoding) (decoded : PyText) (hknown : d.Known lib)
      (hdecoded : d.decode lib data = some decoded) (htext : r.text = some (strip decoded))
      (hchain : r.transformChain = [lit "fetch", lit "normalize:decode-utf8"] ++ d.label)
  /-- A JSON body is read as UTF-8, whatever is declared. -/
  | json (text : PyText) (hdecoded : jsonText lib data = .ok text) (htext : r.text = some text)
      (hchain : r.transformChain = [lit "fetch", lit "normalize:json-canonical"])
  | pdf (pieces : List PyText) (stop : PdfStop) (pages : Nat)
      (hread : extractPdf lib data = some (pieces, stop, pages))
      (htext : r.text = some (strip (pieces.flatten ++ stop.marker)))
      (hchain : r.transformChain = [lit "fetch", lit "normalize:pdf-text",
        lit "pdf-pages:" ++ ofChars (Nat.toDigits 10 pages)] ++ stop.label)
  | nothing (htext : r.text = none) (hchain : r.transformChain = [lit "fetch"])

/-- A result that says what was done: the hash is that of the text, a refusal is there exactly
where no text is, and the text was made as the chain says. -/
structure Honest (data : Bytes) (r : NormalizedContent) : Prop where
  digest : ∀ text, r.text = some text →
    ∃ bytes, encodeUtf8 text = some bytes ∧ r.textSha256 = some (lib.sha256 bytes)
  refused : r.refusal ≠ none ↔ r.text = none ∨ r.text = some []
  made : MadeFrom lib data r

/-- What keeps the libraries from failing the normalizer: a declared encoding that is known
decodes the body, a JSON value is not nested too deep, and no lone surrogate is in what the
page shows. -/
structure Readable (contentType : Option PyText) (data : Bytes) : Prop where
  pdf : isPdf lib contentType data → ∀ pieces stop pages,
    extractPdf lib data = some (pieces, stop, pages) → ∀ p ∈ pieces, Clean p
  html : isPdf lib contentType data = false → isHtml (contentTypeName lib contentType) →
    ∀ name, decoding lib contentType data = .declared name →
      ∃ decoded, (lib.codec name).bind (· data) = some decoded ∧ Clean (visibleText lib decoded)
  plain : isPdf lib contentType data = false → isPlain (contentTypeName lib contentType) →
    ∀ name, decoding lib contentType data = .declared name →
      ∃ decoded, (lib.codec name).bind (· data) = some decoded ∧ Clean decoded
  json : isPdf lib contentType data = false →
    contentTypeName lib contentType = lit "application/json" →
    ∀ source, decodeUtf8Strict data = some source → lib.loads source ≠ .error .recursion ∧
      ∀ value, lib.loads source = .ok value → ∃ text, lib.dumps value = some text ∧ Clean text

end Honest

section Results

variable {lib : Libraries} {contentType : Option PyText} {data : Bytes}

theorem decoding_known : (decoding lib contentType data).Known lib := by
  unfold decoding
  split
  · trivial
  · split
    · trivial
    · split
      · assumption
      · assumption

theorem hashed_ok_iff {text : PyText} {chain : List PyText} {refusal : Option Refusal} :
    (∃ r, hashed lib text chain refusal = .ok r) ↔ Clean text := by
  rw [← encodeUtf8_eq_some_iff, hashed]
  cases encodeUtf8 text with
  | none => simp
  | some bytes => simp

theorem hashed_spec {text : PyText} {chain : List PyText} {refusal : Option Refusal}
    {r : NormalizedContent} (h : hashed lib text chain refusal = .ok r) :
    ∃ bytes, encodeUtf8 text = some bytes ∧
      r = ⟨some text, chain, some (lib.sha256 bytes), refusal⟩ := by
  unfold hashed at h
  cases hb : encodeUtf8 text with
  | none =>
    rw [hb] at h
    cases h
  | some bytes =>
    rw [hb] at h
    exact ⟨bytes, rfl, (Except.ok.inj h).symm⟩

/-- A hashed text is honest where its refusal and its making are. -/
theorem hashed_honest {text : PyText} {chain : List PyText} {refusal : Option Refusal}
    {r : NormalizedContent} (h : hashed lib text chain refusal = .ok r)
    (hrefusal : refusal ≠ none ↔ text = [])
    (hmade : ∀ sha, MadeFrom lib data ⟨some text, chain, sha, refusal⟩) : Honest lib data r := by
  obtain ⟨bytes, hbytes, rfl⟩ := hashed_spec h
  refine ⟨?_, ?_, hmade _⟩
  · rintro t ⟨⟩
    exact ⟨bytes, hbytes, rfl⟩
  · simp only [reduceCtorEq, false_or, Option.some.injEq]
    exact hrefusal

theorem noTextReason_ne_none {decoded text : PyText} :
    noTextReason decoded text ≠ none ↔ text = [] := by
  unfold noTextReason
  split
  · simp_all
  · split <;> simp_all

/-! ### PDF -/

theorem pdfMarker_clean (stop : PdfStop) : Clean stop.marker := by
  cases stop with
  | done => exact fun c hc => (by cases hc)
  | pages => exact clean_ofChars _
  | chars => exact clean_ofChars _
  | time => exact clean_ofChars _

/-- Something is shown. -/
def Shown (pieces : List PyText) : Prop := ∃ c ∈ pieces.flatten, c.isSpace = false

theorem Shown.append_left {pieces : List PyText} (h : Shown pieces) (more : List PyText) :
    Shown (pieces ++ more) := by
  obtain ⟨c, hc, hspace⟩ := h
  refine ⟨c, ?_, hspace⟩
  rw [List.flatten_append]
  exact List.mem_append_left _ hc

/-- The pieces of the loop show something, since a page without text gives none. -/
theorem readPages_shown : ∀ {pages : List (Option (Option PyText))} {index used : Nat}
    {pieces pieces' : List PyText} {stop : PdfStop}, (pieces = [] → used = 0) →
    (pieces ≠ [] → Shown pieces) →
    readPages lib index used pieces pages = some (pieces', stop) → pieces' ≠ [] → Shown pieces'
  | [], index, used, pieces, pieces', stop, _, hshown, h, hne => by
    obtain ⟨rfl, -⟩ := Prod.mk.inj (Option.some.inj h)
    exact hshown hne
  | page :: rest, index, used, pieces, pieces', stop, hused, hshown, h, hne => by
    unfold readPages at h
    split at h
    · obtain ⟨rfl, -⟩ := Prod.mk.inj (Option.some.inj h)
      exact hshown hne
    · cases page with
      | none => cases h
      | some extracted =>
        dsimp only at h
        split at h
        · -- a page without text
          split at h
          · obtain ⟨rfl, -⟩ := Prod.mk.inj (Option.some.inj h)
            exact hshown hne
          · exact readPages_shown hused hshown h hne
        · rename_i htext
          obtain ⟨c, text, hc⟩ := List.exists_cons_of_ne_nil htext
          have hspace : c.isSpace = false := head_strip (s := extracted.getD []) (by rw [hc]; rfl)
          have hpiece : ∀ separator, Shown (pieces ++ [separator ++ strip (extracted.getD [])]) := by
            intro separator
            refine ⟨c, ?_, hspace⟩
            simp [hc]
          generalize hsep : (if pieces = [] then [] else pdfPageSeparator (index + 1)) = separator at h
          split at h
          · obtain ⟨rfl, -⟩ := Prod.mk.inj (Option.some.inj h)
            by_cases hpieces : pieces = []
            · -- the first piece has room
              subst hpieces
              obtain rfl : [] = separator := by simpa using hsep
              refine ⟨c, ?_, hspace⟩
              simp [hused rfl, hc, pdfMaxTextChars]
            · exact (hshown hpieces).append_left _
          · split at h
            · obtain ⟨rfl, -⟩ := Prod.mk.inj (Option.some.inj h)
              exact hpiece _
            · exact readPages_shown (fun hnil => absurd hnil (by simp)) (fun _ => hpiece _) h hne

theorem extractPdf_shown {pieces : List PyText} {stop : PdfStop} {pages : Nat}
    (h : extractPdf lib data = some (pieces, stop, pages)) (hne : pieces ≠ []) : Shown pieces := by
  obtain ⟨reader, -, h⟩ := Option.bind_eq_some_iff.mp h
  obtain ⟨encrypted, -, h⟩ := Option.bind_eq_some_iff.mp h
  obtain ⟨opened, -, h⟩ := Option.bind_eq_some_iff.mp h
  split at h
  · obtain ⟨ps, -, h⟩ := Option.bind_eq_some_iff.mp h
    obtain ⟨read, hread, h⟩ := Option.bind_eq_some_iff.mp h
    obtain ⟨rfl, -⟩ := Prod.mk.inj (Option.some.inj h)
    exact readPages_shown (fun _ => rfl) (fun hnil => absurd rfl hnil) hread hne
  · cases h

theorem pdfRefusal_honest (reason : Refusal) : Honest lib data (pdfRefusal reason) :=
  ⟨fun _ h => (by cases h), by simp [pdfRefusal], .nothing rfl rfl⟩

theorem normalizePdf_honest_iff : (∃ r, normalizePdf lib data = .ok r ∧ Honest lib data r) ↔
    ∀ pieces stop pages, extractPdf lib data = some (pieces, stop, pages) →
      ∀ p ∈ pieces, Clean p := by
  unfold normalizePdf
  cases hread : extractPdf lib data with
  | none => simpa using @pdfRefusal_honest lib data .pdfUnreadable
  | some read =>
    obtain ⟨pieces, stop, pages⟩ := read
    dsimp only
    by_cases hne : pieces = []
    · subst hne
      simpa using @pdfRefusal_honest lib data .pdfNoTextLayer
    · rw [if_neg hne]
      have hclean : Clean (strip (pieces.flatten ++ stop.marker)) ↔ ∀ p ∈ pieces, Clean p := by
        rw [clean_strip_iff]
        constructor
        · intro h p hp
          exact h.sublist ((List.sublist_flatten_of_mem hp).trans (List.sublist_append_left _ _))
        · intro h
          refine Clean.append (fun c hc => ?_) (pdfMarker_clean stop)
          obtain ⟨p, hp, hcp⟩ := List.mem_flatten.mp hc
          exact h p hp c hcp
      constructor
      · rintro ⟨r, hr, -⟩ pieces' stop' pages' heq
        obtain ⟨rfl, -⟩ := Prod.mk.inj (Option.some.inj heq)
        exact hclean.mp (hashed_ok_iff.mp ⟨r, hr⟩)
      · intro h
        obtain ⟨r, hr⟩ := hashed_ok_iff.mpr (hclean.mpr (h pieces stop pages rfl))
        refine ⟨r, hr, hashed_honest hr ?_ fun sha => .pdf pieces stop pages hread rfl rfl⟩
        obtain ⟨c, hc, hspace⟩ := extractPdf_shown hread hne
        have hmem := mem_strip (List.mem_append_left stop.marker hc) hspace
        simp [List.ne_nil_of_mem hmem]

/-! ### Markup and plain texts -/

theorem handle_clean {x : TextExtractor} (hx : ∀ p ∈ x.pieces, Clean p) {e : MarkupEvent}
    (he : ∀ d, e = .data d → Clean d) : ∀ p ∈ (x.handle e).pieces, Clean p := by
  unfold TextExtractor.handle
  split
  · split <;> exact hx
  · split <;> exact hx
  · rename_i d
    split
    · intro p hp
      rcases List.mem_append.mp hp with hp | hp
      · exact hx p hp
      · rw [List.mem_singleton.mp hp]
        exact he d rfl
    · exact hx

theorem foldl_handle_clean {events : List MarkupEvent} {x : TextExtractor}
    (hx : ∀ p ∈ x.pieces, Clean p) (he : ∀ d, MarkupEvent.data d ∈ events → Clean d) :
    ∀ p ∈ (events.foldl TextExtractor.handle x).pieces, Clean p := by
  induction events generalizing x with
  | nil => exact hx
  | cons e events ih =>
    refine ih (handle_clean hx fun d hd => he d (by rw [hd]; exact List.mem_cons_self)) ?_
    exact fun d hd => he d (List.mem_cons_of_mem _ hd)

/-- A clean text shows a clean text. -/
theorem visibleText_clean {decoded : PyText} (h : Clean decoded) :
    Clean (visibleText lib decoded) := by
  refine Clean.strip (Clean.join (clean_ofChars _) ?_)
  exact foldl_handle_clean (fun p hp => (by cases hp)) (lib.feed_clean decoded h)

/-- A branch that decodes the body and hashes what it makes of the text. -/
theorem decoded_honest_iff {make : PyText → PyText} {chain : List PyText}
    {reason : PyText → Option Refusal} (hclean : ∀ s, Clean s → Clean (make s))
    (hreason : ∀ s, reason s ≠ none ↔ make s = [])
    (hmade : ∀ (d : Decoding) s sha, d.Known lib → d.decode lib data = some s →
      MadeFrom lib data ⟨some (make s), chain ++ d.label, sha, reason s⟩) :
    (∃ r, (decodeBody lib contentType data >>= fun s =>
        hashed lib (make s.1) (chain ++ s.2) (reason s.1)) = .ok r ∧ Honest lib data r) ↔
      ∀ name, decoding lib contentType data = .declared name →
        ∃ decoded, (lib.codec name).bind (· data) = some decoded ∧ Clean (make decoded) := by
  have hknown := @decoding_known lib contentType data
  -- with the text decoded, the rest is the hash
  have hrest : ∀ s, (decoding lib contentType data).decode lib data = some s →
      ((∃ r, (decodeBody lib contentType data >>= fun s =>
        hashed lib (make s.1) (chain ++ s.2) (reason s.1)) = .ok r ∧ Honest lib data r) ↔
          Clean (make s)) := by
    intro s hs
    have hbody : decodeBody lib contentType data =
        .ok (s, (decoding lib contentType data).label) := by
      rw [decodeBody, hs]
    rw [hbody, ok_bind]
    refine ⟨fun ⟨r, hr, _⟩ => hashed_ok_iff.mp ⟨r, hr⟩, fun h => ?_⟩
    obtain ⟨r, hr⟩ := hashed_ok_iff.mpr h
    exact ⟨r, hr, hashed_honest hr (hreason s) fun sha => hmade _ s sha hknown hs⟩
  cases hd : decoding lib contentType data with
  | utf8 =>
    refine (hrest _ (by rw [hd]; rfl)).trans ⟨fun _ name hname => (by cases hname), fun _ => ?_⟩
    exact hclean _ (clean_decodeUtf8 data)
  | unknown name =>
    refine (hrest _ (by rw [hd]; rfl)).trans ⟨fun _ name hname => (by cases hname), fun _ => ?_⟩
    exact hclean _ (clean_decodeUtf8 data)
  | declared name =>
    cases hs : (lib.codec name).bind (· data) with
    | some s =>
      refine (hrest s (by rw [hd]; exact hs)).trans ⟨fun h => ?_, fun h => ?_⟩
      · rintro name' ⟨⟩
        exact ⟨s, hs, h⟩
      · obtain ⟨s', hs', h⟩ := h name rfl
        rwa [Option.some.inj (hs.symm.trans hs')]
    | none =>
      have hbody : decodeBody lib contentType data = .error .decode := by
        have hnone : (decoding lib contentType data).decode lib data = none := by
          rw [hd]
          exact hs
        rw [decodeBody, hnone]
      rw [hbody]
      constructor
      · rintro ⟨r, hr, -⟩
        cases hr
      · intro h
        obtain ⟨s, hs', -⟩ := h name rfl
        cases hs.symm.trans hs'

theorem jsonText_ok_iff : (∃ text, jsonText lib data = .ok text ∧ Clean text) ↔
    ∀ source, decodeUtf8Strict data = some source → lib.loads source ≠ .error .recursion ∧
      ∀ value, lib.loads source = .ok value → ∃ text, lib.dumps value = some text ∧ Clean text := by
  have hreplaced : Clean (strip (decodeUtf8 data)) := (clean_decodeUtf8 data).strip
  unfold jsonText
  cases decodeUtf8Strict data with
  | none => simpa using hreplaced
  | some source =>
    simp only [Option.some.injEq, forall_eq']
    cases lib.loads source with
    | error e =>
      cases e with
      | value => simpa using hreplaced
      | recursion => simp
    | ok value =>
      dsimp only
      cases hdumps : lib.dumps value with
      | none => simp [hdumps]
      | some text => simp [hdumps]

theorem isHtml_exclusive {ctype : PyText} (h : isHtml ctype) :
    ¬ isPlain ctype ∧ ctype ≠ lit "application/json" := by
  rw [isHtml, decide_eq_true_eq] at h
  rcases h with rfl | rfl
  · decide
  · decide

theorem isPlain_exclusive {ctype : PyText} (h : isPlain ctype) :
    ctype ≠ lit "application/json" := by
  rintro rfl
  revert h
  decide

/-- **When the normalizer returns an honest result.** What it returns is honest; it raises
where a codec of a known name does not decode, where a JSON value is nested too deep, and
where the text holds a lone surrogate. -/
theorem normalizeContent_honest_iff (lib : Libraries) (contentType : Option PyText)
    (data : Bytes) :
    (∃ r, normalizeContent lib contentType data = .ok r ∧ Honest lib data r) ↔
      Readable lib contentType data := by
  unfold normalizeContent
  dsimp only
  by_cases hpdf : isPdf lib contentType data
  · rw [if_pos hpdf, normalizePdf_honest_iff]
    refine ⟨fun h => ⟨fun _ => h, ?_, ?_, ?_⟩, fun h => h.pdf hpdf⟩
    all_goals
      intro hnot
      rw [hpdf] at hnot
      cases hnot
  rw [if_neg hpdf]
  replace hpdf : isPdf lib contentType data = false := by simpa using hpdf
  have hno : ¬ isPdf lib contentType data := by simp [hpdf]
  by_cases hhtml : isHtml (contentTypeName lib contentType)
  · obtain ⟨hplain, hjson⟩ := isHtml_exclusive hhtml
    rw [if_pos hhtml]
    have hbranch := @decoded_honest_iff lib contentType data (visibleText lib)
      [lit "fetch", lit "normalize:html-text"] (fun s => noTextReason s (visibleText lib s))
      (fun _ h => visibleText_clean h) (fun _ => noTextReason_ne_none)
      fun d s _ hknown hs => .html d s hknown hs rfl rfl
    refine hbranch.trans ⟨fun h => ⟨fun hp => absurd hp hno, fun _ _ => h, ?_, ?_⟩,
      fun h => h.html hpdf hhtml⟩
    · exact fun _ hp => absurd hp hplain
    · exact fun _ hj => absurd hj hjson
  rw [if_neg hhtml]
  by_cases hplain : isPlain (contentTypeName lib contentType)
  · have hjson := isPlain_exclusive hplain
    rw [if_pos hplain]
    have hbranch := @decoded_honest_iff lib contentType data strip
      [lit "fetch", lit "normalize:decode-utf8"]
      (fun s => if strip s = [] then some .emptyPage else none)
      (fun _ h => h.strip) (fun s => by by_cases h : strip s = [] <;> simp [h])
      fun d s _ hknown hs => .plain d s hknown hs rfl rfl
    refine hbranch.trans ⟨fun h => ⟨fun hp => absurd hp hno, ?_, fun _ _ name hname => ?_, ?_⟩,
      fun h name hname => ?_⟩
    · exact fun _ hh => absurd hh hhtml
    · obtain ⟨s, hs, hclean⟩ := h name hname
      exact ⟨s, hs, clean_strip_iff.mp hclean⟩
    · exact fun _ hj => absurd hj hjson
    · obtain ⟨s, hs, hclean⟩ := h.plain hpdf hplain name hname
      exact ⟨s, hs, hclean.strip⟩
  rw [if_neg hplain]
  by_cases hjson : contentTypeName lib contentType = lit "application/json"
  · rw [if_pos hjson]
    refine Iff.trans ⟨?_, ?_⟩ (jsonText_ok_iff.trans ⟨fun h => ⟨fun hp => absurd hp hno, ?_, ?_, ?_⟩,
      fun h => h.json hpdf hjson⟩)
    · rintro ⟨r, hr, -⟩
      obtain ⟨text, htext, hr⟩ := bind_eq_ok.mp hr
      exact ⟨text, htext, hashed_ok_iff.mp ⟨r, hr⟩⟩
    · rintro ⟨text, htext, hclean⟩
      obtain ⟨r, hr⟩ := hashed_ok_iff.mpr hclean
      refine ⟨r, bind_eq_ok.mpr ⟨text, htext, hr⟩, hashed_honest hr noTextReason_ne_none ?_⟩
      exact fun _ => .json text htext rfl rfl
    · exact fun _ hh => absurd hh hhtml
    · exact fun _ hp => absurd hp hplain
    · exact fun _ _ => h
  · rw [if_neg hjson]
    refine ⟨fun _ => ⟨fun hp => absurd hp hno, fun _ hh => absurd hh hhtml,
      fun _ hp => absurd hp hplain, fun _ hj => absurd hj hjson⟩, fun _ => ⟨_, rfl, ?_⟩⟩
    exact ⟨fun _ h => (by cases h), by simp, .nothing rfl rfl⟩

end Results

/-! ## A codec that decodes no text -/

/-- Libraries that know the codec `hex`, which makes bytes of bytes: decoding a text by it
raises. -/
def hexLibraries : Libraries where
  lower s := s.map fun c => if 65 ≤ c.val ∧ c.val ≤ 90 then c + 32 else c
  codec name := if name = lit "hex" then some fun _ => none else none
  feed s := [.data s]
  feed_clean s hs d hd := by
    obtain rfl : d = s := by simpa using hd
    exact hs
  Json := Unit
  loads _ := .error .value
  dumps _ := none
  pdfReader _ := none
  expired _ := false
  sha256 _ := ""

/-- The sender names the codec. -/
theorem hex_raises : normalizeContent hexLibraries (some (lit "text/plain; charset=hex")) [0x36] =
    .error .decode := by decide

theorem hex_not_honest :
    ¬ ∀ (lib : Libraries) (contentType : Option PyText) (data : Bytes),
      ∃ r, normalizeContent lib contentType data = .ok r ∧ Honest lib data r := by
  intro hall
  obtain ⟨r, hr, -⟩ := hall hexLibraries (some (lit "text/plain; charset=hex")) [0x36]
  rw [hex_raises] at hr
  cases hr

end Noezema.Research
