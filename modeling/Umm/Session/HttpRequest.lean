import Umm.Foundations.Http
import Umm.Foundations.JsonTexts
import Umm.PageTable.UmPgTblMgr
import Umm.Session.InvocationSession

/-!
# The requests of a session

`SendHttpRequest` sends the function and its arguments to the instance, as the JSON body of an
HTTP/1.0 request.  For `/init` and `/preInit` the payload is put between the quotation marks of a JSON
string, and for other paths it is put where a value stands.  Newlines are removed before, and nothing
is escaped.

The request is parsed back into the path, the choice of the connection, and the body.  The body is a
text that means the payload, except where the payload of `/init` or `/preInit` has characters that a
JSON string may not have as they are.
-/

namespace Umm

open Foundations

namespace InvocationSession

/-! ## The request -/

/-- `\n`. -/
def newline : UInt8 := 10

/-- `msg.erase(std::remove(msg.begin(), msg.end(), '\n'), msg.end())`. -/
def withoutNewlines (msg : Bytes) : Bytes := msg.filter fun b => b != newline

/-- `path == "/init" || path == "/preInit"`. -/
def isInit (path : Bytes) : Bool := path == Bytes.ofText "/init" || path == Bytes.ofText "/preInit"

/-- `payload.str()`: the JSON text that is sent. -/
def requestBody (path msg : Bytes) : Bytes :=
  Bytes.ofText "\x7b\"value\": " ++
    if isInit path then
      Bytes.ofText "\x7b\"main\":\"main\", \"code\":\"" ++ withoutNewlines msg ++ Bytes.ofText "\"\x7d\x7d"
    else withoutNewlines msg ++ Bytes.ofText "\x7d"

/-- `http_post_request`. -/
def httpPostRequest (path msg : Bytes) (keepAlive : Bool) : Bytes :=
  let body := requestBody path msg
  Bytes.ofText "POST " ++ path ++ Bytes.ofText " HTTP/1.0\r\n" ++
    Bytes.ofText "Content-Type: application/json\r\n" ++
    (if keepAlive then Bytes.ofText "Connection: keep-alive\r\n" else []) ++
    Bytes.ofText "content-length: " ++ Http.decimal body.length ++ Bytes.ofText "\r\n\r\n" ++ body

/-- `SendHttpRequest`, when the clock reads `now`: the bytes that are sent. -/
def sendHttpRequest (debug : Bool) (s : InvocationSession) (now : ℕ) (path payload : Bytes)
    (keepAlive : Bool) : Except Stop (InvocationSession × Bytes) :=
  if debug && payload.isEmpty then .error .kassert
  else .ok ({ s with commandClock := now }, httpPostRequest path payload keepAlive)

/-! ## The message -/

/-- A path without whitespace and control characters. -/
def PlainPath (path : Bytes) : Prop := ∀ b ∈ path, 0x20 < b ∧ b ≠ 0x7f

/-- The lines of the headers, with what they say. -/
def headerLines (keepAlive : Bool) (n : ℕ) : List (Bytes × Bytes × Bytes) :=
  [(Bytes.ofText "Content-Type: application/json",
    Bytes.ofText "content-type", Bytes.ofText "application/json")] ++
  (if keepAlive then [(Bytes.ofText "Connection: keep-alive",
    Bytes.ofText "connection", Bytes.ofText "keep-alive")] else []) ++
  [(Bytes.ofText "content-length: " ++ Http.decimal n, Bytes.ofText "content-length", Http.decimal n)]

/-- The request is a message of these lines. -/
theorem httpPostRequest_eq (path msg : Bytes) (keepAlive : Bool) :
    httpPostRequest path msg keepAlive =
      Bytes.ofText "POST" ++ Http.space :: (path ++ Http.space :: Http.ascii "HTTP/1.0") ++ Http.crlf ++
        (Http.block (headerLines keepAlive (requestBody path msg).length) ++ Http.crlf ++
          requestBody path msg) := by
  have hpost : Bytes.ofText "POST " = Bytes.ofText "POST" ++ [Http.space] := by decide
  have hversion : Bytes.ofText " HTTP/1.0\r\n" =
      Http.space :: Http.ascii "HTTP/1.0" ++ Http.crlf := by decide
  have htype : Bytes.ofText "Content-Type: application/json\r\n" =
      Bytes.ofText "Content-Type: application/json" ++ Http.crlf := by decide
  have hconnection : Bytes.ofText "Connection: keep-alive\r\n" =
      Bytes.ofText "Connection: keep-alive" ++ Http.crlf := by decide
  have hend : Bytes.ofText "\r\n\r\n" = Http.crlf ++ Http.crlf := by decide
  rw [httpPostRequest, hpost, hversion, htype, hconnection, hend]
  cases keepAlive <;> simp [Http.block, headerLines]

/-- A byte of decimal digits is neither a blank nor a carriage return. -/
theorem ne_of_isDigit {b : UInt8} (h : Http.isDigit b = true) :
    Http.isBlank b = false ∧ b ≠ Http.cr := by
  simp only [Http.isDigit, decide_eq_true_eq] at h
  refine ⟨Bool.eq_false_iff.mpr fun hblank => ?_, ?_⟩
  · simp only [Http.isBlank, Bool.or_eq_true, beq_iff_eq] at hblank
    rcases hblank with rfl | rfl
    · exact absurd h.1 (by decide)
    · exact absurd h.1 (by decide)
  · rintro rfl
    exact absurd h.1 (by decide)

theorem says_headerLines (keepAlive : Bool) (n : ℕ) : Http.Says (headerLines keepAlive n) := by
  have htype : ∀ h ∈ [(Bytes.ofText "Content-Type: application/json",
      Bytes.ofText "content-type", Bytes.ofText "application/json")],
      Http.cr ∉ h.1 ∧ h.1 ≠ [] ∧ Http.parseHeader h.1 = some h.2 := by decide
  have hconnection : ∀ h ∈ [(Bytes.ofText "Connection: keep-alive",
      Bytes.ofText "connection", Bytes.ofText "keep-alive")],
      Http.cr ∉ h.1 ∧ h.1 ≠ [] ∧ Http.parseHeader h.1 = some h.2 := by decide
  have hlength : Http.parseHeader (Bytes.ofText "content-length: " ++ Http.decimal n) =
      some (Bytes.ofText "content-length", Http.decimal n) := by
    have hname : Bytes.ofText "content-length: " =
        Bytes.ofText "content-length" ++ [Http.colon, Http.space] := by decide
    have hlower : (Bytes.ofText "content-length").map Http.toLower =
        Bytes.ofText "content-length" := by decide
    rw [hname, List.append_assoc, List.cons_append, List.singleton_append,
      Http.parseHeader_append (by decide)
        fun b hb => (ne_of_isDigit (Http.isDigit_of_mem_decimal hb)).1, hlower]
  intro h hh
  simp only [headerLines, List.mem_append] at hh
  rcases hh with (hh | hh) | hh
  · exact htype h hh
  · cases keepAlive with
    | true => exact hconnection h hh
    | false => cases hh
  · obtain rfl := List.mem_singleton.mp hh
    refine ⟨fun hcr => ?_, by simp [Http.length_decimal_pos], hlength⟩
    rcases List.mem_append.mp hcr with hname | hdigits
    · exact absurd hname (by decide)
    · exact (ne_of_isDigit (Http.isDigit_of_mem_decimal hdigits)).2 rfl

/-- The request is parsed into the path, the choice of the connection and the body, and nothing is left
over. -/
theorem parse_httpPostRequest {path : Bytes} (hpath : PlainPath path) (msg : Bytes)
    (keepAlive : Bool) :
    ∃ req, Http.parse (httpPostRequest path msg keepAlive) = some (req, []) ∧
      req.method = Bytes.ofText "POST" ∧ req.path = path ∧ req.keepAlive = keepAlive ∧
      req.body = requestBody path msg := by
  have hne : ∀ c : UInt8, c ≤ 0x20 → c ∉ path := by
    intro c hc hmem
    exact absurd (hpath c hmem).1 (UInt8.not_lt.mpr hc)
  have hline : Http.cr ∉
      Bytes.ofText "POST" ++ Http.space :: (path ++ Http.space :: Http.ascii "HTTP/1.0") := by
    simp only [List.mem_append, List.mem_cons, not_or]
    exact ⟨by decide, by decide, hne _ (by decide), by decide, by decide⟩
  have hrequest := Http.parseRequestLine_append (m := Bytes.ofText "POST") (p := path) (by decide)
    (hne _ (by decide))
  have hlength : ((headerLines keepAlive (requestBody path msg).length).map Prod.snd).lookup
      (Http.ascii "content-length") = some (Http.decimal (requestBody path msg).length) := by
    cases keepAlive <;> rfl
  have hparse := Http.parse_message hline hrequest
    (says_headerLines keepAlive (requestBody path msg).length) hlength (Http.parseDecimal_decimal _)
  refine ⟨_, (httpPostRequest_eq path msg keepAlive).symm ▸ hparse, rfl, rfl, ?_, rfl⟩
  cases keepAlive <;> rfl

/-! ## The body -/

open Json

/-- `value`, the name of the member that has the payload. -/
def valueName : List Char := "value".toList

/-- `main`, the name of the function, and of the member that has it. -/
def mainName : List Char := "main".toList

/-- `code`, the name of the member that has the function's text. -/
def codeName : List Char := "code".toList

/-- The text of an object with the member `value`, up to the value. -/
def valuePrefix : List Char := Json.openBrace :: quote :: (valueName ++ [quote, ':', ' '])

/-- The text of the object with the members `main` and `code`, up to the text of the function. -/
def actionPrefix : List Char :=
  Json.openBrace :: quote :: (mainName ++ quote :: ':' :: quote :: (mainName ++
    quote :: ',' :: ' ' :: quote :: (codeName ++ [quote, ':', quote])))

/-- The object that is sent to `/init`. -/
def actionText (text : List Char) : List Char := actionPrefix ++ (text ++ [quote, closeBrace])

/-- A text in ASCII has a byte for each character. -/
theorem map_eq_utf8Encode {s : List Char} (h : (s.all fun c => decide (c.toNat < 128)) = true) :
    (s.map fun c => UInt8.ofNat c.toNat) = utf8Encode s := by
  induction s with
  | nil => rfl
  | cons c s ih =>
    rw [List.all_cons, Bool.and_eq_true, decide_eq_true_eq] at h
    have hcons : utf8Encode (c :: s) = String.utf8EncodeChar c ++ utf8Encode s := rfl
    rw [List.map_cons, hcons, utf8EncodeChar_of_lt h.1, ih h.2]
    rfl

theorem ofText_eq_utf8Encode {text : String} {s : List Char} (htext : text.toList = s)
    (h : (s.all fun c => decide (c.toNat < 128)) = true) : Bytes.ofText text = utf8Encode s := by
  rw [Bytes.ofText, htext]
  exact map_eq_utf8Encode h

/-- The encoding of a payload, without the newlines. -/
theorem withoutNewlines_utf8Encode (text : List Char) :
    withoutNewlines (utf8Encode text) = utf8Encode (text.filter fun c => c != '\n') :=
  (utf8Encode_filter_newline text).symm

/-- The encodings of two texts, one behind the other, are the encoding of both. -/
theorem append_eq_utf8Encode {a b : Bytes} {s t : List Char} (ha : a = utf8Encode s)
    (hb : b = utf8Encode t) : a ++ b = utf8Encode (s ++ t) := by
  rw [ha, hb, utf8Encode_append]

theorem ofText_valuePrefix : Bytes.ofText "\x7b\"value\": " = utf8Encode valuePrefix :=
  ofText_eq_utf8Encode (by decide) (by decide)

theorem ofText_actionPrefix :
    Bytes.ofText "\x7b\"main\":\"main\", \"code\":\"" = utf8Encode actionPrefix :=
  ofText_eq_utf8Encode (by decide) (by decide)

/-- For `/init` and `/preInit`, the body is a text with the payload in a string. -/
theorem requestBody_of_isInit {path msg : Bytes} (hpath : isInit path = true) {text : List Char}
    (htext : withoutNewlines msg = utf8Encode text) :
    requestBody path msg = utf8Encode (valuePrefix ++ (actionText text ++ [closeBrace])) := by
  have hlast : Bytes.ofText "\"\x7d\x7d" = utf8Encode [quote, closeBrace, closeBrace] :=
    ofText_eq_utf8Encode (by decide) (by decide)
  have hbody := append_eq_utf8Encode ofText_valuePrefix
    (append_eq_utf8Encode (append_eq_utf8Encode ofText_actionPrefix htext) hlast)
  have hassoc : actionText text ++ [closeBrace] =
      actionPrefix ++ text ++ [quote, closeBrace, closeBrace] := by
    simp [actionText]
  rw [requestBody, if_pos hpath, hassoc]
  exact hbody

/-- For other paths, it is a text with the payload where a value stands. -/
theorem requestBody_of_not_isInit {path msg : Bytes} (hpath : isInit path = false)
    {text : List Char} (htext : withoutNewlines msg = utf8Encode text) :
    requestBody path msg = utf8Encode (valuePrefix ++ (text ++ [closeBrace])) := by
  have hlast : Bytes.ofText "\x7d" = utf8Encode [closeBrace] :=
    ofText_eq_utf8Encode (by decide) (by decide)
  rw [requestBody, hpath, if_neg Bool.false_ne_true]
  exact append_eq_utf8Encode ofText_valuePrefix (append_eq_utf8Encode htext hlast)

/-- The lengths of the texts before a payload. -/
theorem units_prefixes : units valuePrefix = 10 ∧ units actionPrefix = 24 := by decide

/-- The names have no characters that are escaped. -/
theorem isPlain_names : (∀ c ∈ valueName, isPlain c = true) ∧ (∀ c ∈ mainName, isPlain c = true) ∧
    ∀ c ∈ codeName, isPlain c = true :=
  ⟨List.all_eq_true.mp (by decide), List.all_eq_true.mp (by decide),
    List.all_eq_true.mp (by decide)⟩

/-- A text, changed at newlines and followed by a brace, is the value of the object that is sent. -/
theorem parseText_value {f : List Char → List Char} (hf : KeepsTokens f) (hnil : f [] = [closeBrace])
    {s : List Char} {v : Json} (h : parseText s = some v) :
    parseText (valuePrefix ++ f s) = some (.object [(utf16String valueName, v)]) := by
  obtain ⟨n, r, hvalue, hend⟩ := parseText_eq_some_iff.mp h
  have hprefix : valuePrefix ++ f s =
      Json.openBrace :: quote :: (valueName ++ quote :: ':' :: ' ' :: f s) := by
    simp [valuePrefix]
  have hunits : units (valuePrefix ++ f s) = 10 + units (f s) := by
    rw [units_append, units_prefixes.1]
  obtain ⟨m, hm⟩ : ∃ m, units (valuePrefix ++ f s) = m + 1 :=
    ⟨units (valuePrefix ++ f s) - 1, by omega⟩
  have hends : EndsAtom (f r) := by
    refine endsAtom_map hf (fun _ => ?_) fun c t hpeek => ?_
    · rw [hnil]
      rintro c hc
      cases hc
      rfl
    · rw [hend] at hpeek
      cases hpeek
  have hinner : parseValue (m + 1) (' ' :: f s) = some (v, f r) := by
    rw [parseValue_of_isWs rfl]
    exact parseValue_map hf n (m + 1) s v r hvalue hends (by omega)
  have hclose : peek (f r) = some (closeBrace, []) := by
    rw [peek_map_of_none hf hend, hnil]
    rfl
  rw [parseText, hm, hprefix, parseValue_brace_quote,
    parseMembers_close isPlain_names.1 hinner hclose]
  rfl

/-! ## The text of a function -/

section Action

variable {text t : List Char} {k n : ℕ}

/-- The member `main`, which others are behind. -/
theorem parseMembers_main :
    parseMembers (parseValue (n + 1)) (k + 1) (quote :: (mainName ++ quote :: ':' :: quote ::
      (mainName ++ quote :: ',' :: ' ' :: t))) =
      (parseMembers (parseValue (n + 1)) k t).map fun ms =>
        ((utf16String mainName, .string (utf16String mainName)) :: ms.1, ms.2) := by
  have hvalue : parseValue (n + 1) (quote :: (mainName ++ quote :: ',' :: ' ' :: t)) =
      some (.string (utf16String mainName), ',' :: ' ' :: t) := by
    rw [parseValue_quote, parseChars_of_isPlain isPlain_names.2.1, Option.map_some]
  have hcomma : peek (',' :: ' ' :: t) = some (',', ' ' :: t) := rfl
  rw [parseMembers_comma isPlain_names.2.1 hvalue hcomma, parseMembers_of_isWs rfl]

/-- The object, as far as the text of the function. -/
theorem parseValue_action :
    parseValue (n + 3) (actionPrefix ++ t) =
      (parseMembers (parseValue (n + 2)) (n + 1)
        (quote :: (codeName ++ quote :: ':' :: quote :: t))).map fun ms =>
          (.object ((utf16String mainName, .string (utf16String mainName)) :: ms.1), ms.2) := by
  have htext : actionPrefix ++ t = Json.openBrace :: quote :: (mainName ++ quote :: ':' :: quote ::
      (mainName ++ quote :: ',' :: ' ' :: quote :: (codeName ++ quote :: ':' :: quote :: t))) := by
    simp [actionPrefix]
  rw [htext, parseValue_brace_quote, parseMembers_main, Option.map_map]
  rfl

/-- A text of characters that stand for themselves is the string that is sent. -/
theorem parseText_actionText (h : ∀ c ∈ text, isPlain c = true) :
    parseText (actionText text) =
      some (.object [(utf16String mainName, .string (utf16String mainName)),
        (utf16String codeName, .string (utf16String text))]) := by
  obtain ⟨n, hn⟩ : ∃ n, units (actionText text) + 1 = n + 3 := by
    refine ⟨units (actionText text) - 2, ?_⟩
    rw [actionText, units_append, units_prefixes.2]
    omega
  have hvalue : parseValue (n + 2) (quote :: (text ++ quote :: [closeBrace])) =
      some (.string (utf16String text), [closeBrace]) := by
    rw [parseValue_quote, parseChars_of_isPlain h, Option.map_some]
  have hclose : peek [closeBrace] = some (closeBrace, []) := rfl
  rw [parseText, hn, actionText, parseValue_action,
    parseMembers_close isPlain_names.2.2 hvalue hclose]
  rfl

/-- What is parsed of the body: up to the quotation mark before the text of the function it is fixed,
and what comes from behind the string that follows is too short for this text. -/
theorem exists_of_parseText_body {v : Json}
    (h : parseText (valuePrefix ++ (actionText text ++ [closeBrace])) = some v) :
    ∃ u r ms ms', parseChars .between (text ++ [quote, closeBrace, closeBrace]) = some (u, r) ∧
      2 ≤ units r ∧
      v = .object ((utf16String valueName, .object ((utf16String mainName,
        .string (utf16String mainName)) :: (utf16String codeName, .string u) :: ms')) :: ms) ∧
      (∀ m ∈ ms, Fits m.2 (units text + 1)) ∧ ∀ m ∈ ms', Fits m.2 (units text + 1) := by
  obtain ⟨n, hn⟩ : ∃ n, units (valuePrefix ++ (actionText text ++ [closeBrace])) = n + 3 := by
    refine ⟨units (valuePrefix ++ (actionText text ++ [closeBrace])) - 3, ?_⟩
    rw [units_append, units_prefixes.1]
    omega
  have hprefix : valuePrefix ++ (actionText text ++ [closeBrace]) =
      Json.openBrace :: quote :: (valueName ++ quote :: ':' :: ' ' ::
        (actionPrefix ++ (text ++ [quote, closeBrace, closeBrace]))) := by
    simp [valuePrefix, actionText]
  rw [parseText, hn, hprefix, parseValue_brace_quote] at h
  simp only [Option.bind_eq_some_iff, Option.map_eq_some_iff] at h
  obtain ⟨p, ⟨q, hq, rfl⟩, h⟩ := h
  split_ifs at h
  cases h
  -- the members of the outer object, and then those of the inner one
  obtain ⟨v₁, ms, hv₁, hms, hlt, hfits⟩ :=
    exists_of_parseMembers (parseValue_bounded _) isPlain_names.1 hq
  rw [parseValue_of_isWs rfl, parseValue_action] at hv₁
  simp only [Option.map_eq_some_iff] at hv₁
  obtain ⟨q₁, hq₁, rfl⟩ := hv₁
  obtain ⟨v₂, ms', hv₂, hms', hlt', hfits'⟩ :=
    exists_of_parseMembers (parseValue_bounded _) isPlain_names.2.2 hq₁
  rw [parseValue_quote] at hv₂
  simp only [Option.map_eq_some_iff] at hv₂
  obtain ⟨u, hu, rfl⟩ := hv₂
  have hlt : units q.2 < units q₁.2 := hlt
  have hlt' : units q₁.2 < units u.2 := hlt'
  have hlength := length_of_parseChars hu
  have htail : units [quote, closeBrace, closeBrace] = 3 := by decide
  rw [units_append, htail] at hlength
  refine ⟨u.1, u.2, ms, ms', hu, by omega, ?_, fun m hm => ?_, fun m hm => ?_⟩
  · rw [hms, hms']
  · have hfit : Fits m.2 (units q₁.2 - 1) := hfits m hm
    exact hfit.mono (by omega)
  · have hfit : Fits m.2 (units u.2 - 1) := hfits' m hm
    exact hfit.mono (by omega)

/-- If the object that is sent has the text of the function as its value, the characters of the text
stand for themselves. -/
theorem isPlain_of_parseText {v w : Json}
    (h : parseText (valuePrefix ++ (actionText text ++ [closeBrace])) = some v)
    (hvalue : v.get? (utf16String valueName) = some w)
    (hcode : w.get? (utf16String codeName) = some (.string (utf16String text))) :
    ∀ c ∈ text, isPlain c = true := by
  obtain ⟨u, r, ms, ms', hu, hr, rfl, hfits, hfits'⟩ := exists_of_parseText_body h
  have hshort : ∀ {x : Json}, Fits x (units text + 1) → ¬ HasString (utf16String text) x := by
    intro x hx hs
    have hroom : units text + 2 ≤ units text + 1 := hx _ hs
    omega
  rcases List.mem_cons.mp (mem_of_get? hvalue) with heq | hother
  · obtain rfl : w = _ := congrArg Prod.snd heq
    rcases List.mem_cons.mp (mem_of_get? hcode) with hmain | hmem
    · have hnames : utf16String codeName ≠ utf16String mainName := by decide
      exact absurd (congrArg Prod.fst hmain) hnames
    rcases List.mem_cons.mp hmem with heq | hother
    · have hstring : utf16String text = u := by simpa using heq
      have htail : units [quote, closeBrace, closeBrace] = 3 := by decide
      refine isPlain_of_parseChars hu ?_ ?_
      · rw [← hstring]
        exact Nat.le_refl _
      · rw [htail]
        omega
    · exact absurd .self (hshort (hfits' _ hother))
  · obtain ⟨ms₁, rfl⟩ := exists_members_of_get? hcode
    exact absurd (.member ms₁ _ (mem_of_get? hcode) .self) (hshort (hfits _ hother))

end Action

/-! ## What the request decodes to -/

/-- What is parsed is what was sent. -/
structure Decoded (path payload : Bytes) (keepAlive : Bool) (req : Http.Request) : Prop where
  /-- For `/init` and `/preInit`, `value.code` is the payload without newlines. -/
  init : isInit path = true → ∃ v w text, parse req.body = some v ∧
    utf8Decode (withoutNewlines payload) = some text ∧
    v.get? (utf16String valueName) = some w ∧
    w.get? (utf16String codeName) = some (.string (utf16String text))
  /-- For other paths, `value` is the value of the payload. -/
  run : isInit path = false → ∀ w, parse payload = some w →
    ∃ v, parse req.body = some v ∧ v.get? (utf16String valueName) = some w
  /-- It is posted. -/
  method : req.method = Bytes.ofText "POST"
  /-- The path. -/
  path : req.path = path
  /-- The choice of the connection. -/
  keepAlive : req.keepAlive = keepAlive

/-- The bytes are a request, with nothing left over, that decodes to what was sent. -/
def Decodes (path payload : Bytes) (keepAlive : Bool) (bytes : Bytes) : Prop :=
  ∃ req, Http.parse bytes = some (req, []) ∧ Decoded path payload keepAlive req

/-- The bytes are a text of characters that a JSON string may have as they are. -/
def PlainText (bytes : Bytes) : Prop :=
  ∃ text, utf8Decode bytes = some text ∧ ∀ c ∈ text, isPlain c = true

/-- The body of `/init` and `/preInit` has a payload of plain text as the function. -/
theorem parse_requestBody_init {path payload : Bytes} {text : List Char}
    (hpath : isInit path = true) (htext : utf8Decode (withoutNewlines payload) = some text)
    (hplain : ∀ c ∈ text, isPlain c = true) :
    ∃ v w, parse (requestBody path payload) = some v ∧ v.get? (utf16String valueName) = some w ∧
      w.get? (utf16String codeName) = some (.string (utf16String text)) := by
  rw [requestBody_of_isInit hpath (utf8Decode_eq_some_iff.mp htext), parse_utf8Encode,
    parseText_value (keepsTokens_append [closeBrace]) rfl (parseText_actionText hplain)]
  exact ⟨_, _, rfl, get?_append_singleton [] _ _,
    get?_append_singleton [(utf16String mainName, .string (utf16String mainName))] _ _⟩

/-- The body of other paths has the value of the payload. -/
theorem parse_requestBody_run {path payload : Bytes} {w : Json} (hpath : isInit path = false)
    (hpayload : parse payload = some w) :
    parse (requestBody path payload) = some (.object [(utf16String valueName, w)]) := by
  obtain ⟨text, rfl, htext⟩ := parse_eq_some_iff.mp hpayload
  rw [requestBody_of_not_isInit hpath (withoutNewlines_utf8Encode text), parse_utf8Encode]
  exact parseText_value (keepsTokens_filter_append [closeBrace]) rfl htext

/-- The request decodes to what was sent exactly if the payload of `/init` or `/preInit`, without
newlines, is plain text. -/
theorem httpPostRequest_decodes_iff (path payload : Bytes) (keepAlive : Bool)
    (hpath : PlainPath path) :
    Decodes path payload keepAlive (httpPostRequest path payload keepAlive) ↔
      (isInit path = true → PlainText (withoutNewlines payload)) := by
  obtain ⟨req, hparse, hmethod, hreqPath, hkeep, hbody⟩ :=
    parse_httpPostRequest hpath payload keepAlive
  constructor
  · rintro ⟨req', hparse', hdecoded⟩ hinit
    obtain rfl : req = req' := by
      rw [hparse] at hparse'
      exact congrArg Prod.fst (Option.some.inj hparse')
    obtain ⟨v, w, text, hv, htext, hvalue, hcode⟩ := hdecoded.init hinit
    rw [hbody, requestBody_of_isInit hinit (utf8Decode_eq_some_iff.mp htext), parse_utf8Encode] at hv
    exact ⟨text, htext, isPlain_of_parseText hv hvalue hcode⟩
  · intro hplain
    refine ⟨req, hparse, fun hinit => ?_, fun hrun w hpayload => ?_, hmethod, hreqPath, hkeep⟩
    · obtain ⟨text, htext, hplain⟩ := hplain hinit
      obtain ⟨v, w, hv, hvalue, hcode⟩ := parse_requestBody_init hinit htext hplain
      exact ⟨v, w, text, hbody ▸ hv, htext, hvalue, hcode⟩
    · exact ⟨_, hbody ▸ parse_requestBody_run hrun hpayload, get?_append_singleton [] _ _⟩

/-- Whatever `SendHttpRequest` sends is parsed into its arguments and the body, and nothing is left
over. -/
theorem parse_sendHttpRequest {debug : Bool} {s s' : InvocationSession} {now : ℕ}
    {path payload bytes : Bytes} {keepAlive : Bool} (hpath : PlainPath path)
    (h : s.sendHttpRequest debug now path payload keepAlive = .ok (s', bytes)) :
    s' = { s with commandClock := now } ∧ ∃ req, Http.parse bytes = some (req, []) ∧
      req.path = path ∧ req.keepAlive = keepAlive ∧ req.body = requestBody path payload := by
  unfold sendHttpRequest at h
  split_ifs at h
  cases h
  obtain ⟨req, hparse, -, hreqPath, hkeep, hbody⟩ := parse_httpPostRequest hpath payload keepAlive
  exact ⟨rfl, req, hparse, hreqPath, hkeep, hbody⟩

/-! ## A function with quotation marks -/

/-- The text of a function with a string in it. -/
def quoted : String := "function main() \x7b return \x7b msg: \"hi\" \x7d; \x7d"

/-- The text of a function without. -/
def unquoted : String := "function main(args) \x7b\n  return args;\n\x7d\n"

theorem plainPath_init : PlainPath (Bytes.ofText "/init") := by
  have hall : ((Bytes.ofText "/init").all fun b => decide (0x20 < b ∧ b ≠ 0x7f)) = true := by
    decide
  exact fun b hb => of_decide_eq_true (List.all_eq_true.mp hall b hb)

/-- The body with this function is not a JSON text. -/
theorem not_decodes_quoted :
    PlainPath (Bytes.ofText "/init") ∧
    parse (requestBody (Bytes.ofText "/init") (Bytes.ofText quoted)) = none ∧
    (∀ keepAlive, ¬ Decodes (Bytes.ofText "/init") (Bytes.ofText quoted) keepAlive
      (httpPostRequest (Bytes.ofText "/init") (Bytes.ofText quoted) keepAlive)) ∧
    ¬ ∀ path payload keepAlive, PlainPath path →
      Decodes path payload keepAlive (httpPostRequest path payload keepAlive) := by
  have hinit : isInit (Bytes.ofText "/init") = true := by decide
  have htext : withoutNewlines (Bytes.ofText quoted) = utf8Encode quoted.toList := by decide
  have hnone : parse (requestBody (Bytes.ofText "/init") (Bytes.ofText quoted)) = none := by
    rw [requestBody_of_isInit hinit htext, parse_utf8Encode]
    exact Option.isNone_iff_eq_none.mp (by decide)
  have hnot : ∀ keepAlive, ¬ Decodes (Bytes.ofText "/init") (Bytes.ofText quoted) keepAlive
      (httpPostRequest (Bytes.ofText "/init") (Bytes.ofText quoted) keepAlive) := by
    rintro keepAlive ⟨req', hparse', hdecoded⟩
    obtain ⟨req, hparse, -, -, -, hbody⟩ :=
      parse_httpPostRequest plainPath_init (Bytes.ofText quoted) keepAlive
    obtain rfl : req = req' := by
      rw [hparse] at hparse'
      exact congrArg Prod.fst (Option.some.inj hparse')
    obtain ⟨v, -, -, hv, -⟩ := hdecoded.init hinit
    rw [hbody, hnone] at hv
    cases hv
  exact ⟨plainPath_init, hnone, hnot, fun hall => hnot true (hall _ _ true plainPath_init)⟩

/-- The body with the other function is. -/
theorem httpPostRequest_decodes_iff_unquoted :
    Decodes (Bytes.ofText "/init") (Bytes.ofText unquoted) true
      (httpPostRequest (Bytes.ofText "/init") (Bytes.ofText unquoted) true) := by
  refine (httpPostRequest_decodes_iff _ (Bytes.ofText unquoted) true plainPath_init).mpr fun _ =>
    ⟨unquoted.toList.filter fun c => c != '\n', utf8Decode_eq_some_iff.mpr ?_, ?_⟩
  · decide
  · exact List.all_eq_true.mp (by decide)

end InvocationSession

end Umm
