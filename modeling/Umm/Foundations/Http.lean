import Mathlib.Data.List.Basic
import Mathlib.Tactic.Common

/-!
# HTTP/1.0 requests

A parser of requests with a body: the request line, the headers up to the first empty line, and as
many bytes as `content-length` says.  What is behind them is returned.

A request that is put together from lines without a carriage return is parsed into what these lines
say (`parse_message`).
-/

namespace Foundations

namespace Http

/-! ## Requests -/

/-- The bytes of a text in ASCII. -/
def ascii (text : String) : List UInt8 := text.toList.map fun c => UInt8.ofNat c.toNat

/-- A carriage return. -/
def cr : UInt8 := 13

/-- A line feed. -/
def lf : UInt8 := 10

/-- A space. -/
def space : UInt8 := 32

/-- A colon. -/
def colon : UInt8 := 58

/-- What ends a line. -/
def crlf : List UInt8 := [cr, lf]

/-- A request. -/
structure Request where
  /-- The method. -/
  method : List UInt8
  /-- The path. -/
  path : List UInt8
  /-- The names of the headers, in lower case, with their values. -/
  headers : List (List UInt8 × List UInt8)
  /-- The body. -/
  body : List UInt8

/-- A letter in lower case. -/
def toLower (b : UInt8) : UInt8 := if 65 ≤ b ∧ b ≤ 90 then b + 32 else b

/-- The connection is to be kept. -/
def Request.keepAlive (req : Request) : Bool :=
  (req.headers.lookup (ascii "connection")).any fun v => v.map toLower == ascii "keep-alive"

/-! ## Parsing -/

/-- What is before the first such byte, and what is behind it. -/
def cut (c : UInt8) : List UInt8 → Option (List UInt8 × List UInt8)
  | [] => none
  | b :: s => if b = c then some ([], s) else (cut c s).map fun p => (b :: p.1, p.2)

/-- The first line, and what is behind it. -/
def splitLine : List UInt8 → Option (List UInt8 × List UInt8)
  | [] => none
  | b :: s =>
    if b = cr ∧ s.head? = some lf then some ([], s.tail)
    else (splitLine s).map fun p => (b :: p.1, p.2)

/-- A space or a tab. -/
def isBlank (b : UInt8) : Bool := b == 32 || b == 9

/-- Without the blanks around it. -/
def trim (s : List UInt8) : List UInt8 :=
  ((s.dropWhile isBlank).reverse.dropWhile isBlank).reverse

/-- The method and the path. -/
def parseRequestLine (line : List UInt8) : Option (List UInt8 × List UInt8) :=
  (cut space line).bind fun m =>
    (cut space m.2).bind fun p => if p.2 = ascii "HTTP/1.0" then some (m.1, p.1) else none

/-- The name of a header, in lower case, and its value. -/
def parseHeader (line : List UInt8) : Option (List UInt8 × List UInt8) :=
  (cut colon line).map fun p => (p.1.map toLower, trim p.2)

/-- The headers up to the first empty line. -/
def parseHeaders : ℕ → List UInt8 → Option (List (List UInt8 × List UInt8) × List UInt8)
  | 0, _ => none
  | n + 1, s =>
    (splitLine s).bind fun p =>
      if p.1 = [] then some ([], p.2)
      else
        (parseHeader p.1).bind fun h => (parseHeaders n p.2).map fun q => (h :: q.1, q.2)

/-- A decimal digit. -/
def isDigit (b : UInt8) : Bool := decide (48 ≤ b ∧ b ≤ 57)

/-- A number in decimal digits. -/
def parseDecimal (s : List UInt8) : Option ℕ :=
  if s ≠ [] ∧ s.all isDigit then some (s.foldl (fun n b => 10 * n + (b.toNat - 48)) 0) else none

/-- A request, and what is behind it. -/
def parse (s : List UInt8) : Option (Request × List UInt8) :=
  (splitLine s).bind fun line =>
    (parseRequestLine line.1).bind fun r =>
      (parseHeaders (s.length + 1) line.2).bind fun h =>
        ((h.1.lookup (ascii "content-length")).bind parseDecimal).bind fun n =>
          if n ≤ h.2.length then some (⟨r.1, r.2, h.1, h.2.take n⟩, h.2.drop n) else none

/-! ## Writing -/

/-- A number in decimal digits. -/
def decimal (n : ℕ) : List UInt8 := (Nat.toDigits 10 n).map fun c => UInt8.ofNat c.toNat

section Rules

variable {a s line : List UInt8} {c : UInt8}

theorem cut_append (h : c ∉ a) : cut c (a ++ c :: s) = some (a, s) := by
  induction a with
  | nil => rw [List.nil_append, cut, if_pos rfl]
  | cons b a ih =>
    rw [List.mem_cons, not_or] at h
    rw [List.cons_append, cut, if_neg (Ne.symm h.1), ih h.2, Option.map_some]

/-- A line without a carriage return is split off. -/
theorem splitLine_append (h : cr ∉ line) : splitLine (line ++ crlf ++ s) = some (line, s) := by
  induction line with
  | nil => rfl
  | cons b line ih =>
    rw [List.mem_cons, not_or] at h
    rw [List.cons_append, List.cons_append, splitLine, if_neg fun hb => h.1 hb.1.symm, ih h.2,
      Option.map_some]

theorem parseRequestLine_append {m p : List UInt8} (hm : space ∉ m) (hp : space ∉ p) :
    parseRequestLine (m ++ space :: (p ++ space :: ascii "HTTP/1.0")) = some (m, p) := by
  rw [parseRequestLine, cut_append hm, Option.bind_some, cut_append hp, Option.bind_some, if_pos rfl]

theorem trim_space (h : ∀ b ∈ s, isBlank b = false) : trim (space :: s) = s := by
  have hself : ∀ t : List UInt8, (∀ b ∈ t, isBlank b = false) → t.dropWhile isBlank = t := by
    rintro (_ | ⟨b, t⟩) ht
    · rfl
    · rw [List.dropWhile_cons, ht b List.mem_cons_self]
      rfl
  have hfirst : (space :: s).dropWhile isBlank = s := by
    have hblank : isBlank space = true := rfl
    rw [List.dropWhile_cons, if_pos hblank, hself s h]
  rw [trim, hfirst, hself s.reverse fun b hb => h b (List.mem_reverse.mp hb), List.reverse_reverse]

/-- A header line with a value that is not padded. -/
theorem parseHeader_append {name value : List UInt8} (hname : colon ∉ name)
    (hvalue : ∀ b ∈ value, isBlank b = false) :
    parseHeader (name ++ colon :: space :: value) = some (name.map toLower, value) := by
  rw [parseHeader, cut_append hname, Option.map_some, trim_space hvalue]

section Decimal

theorem length_decimal_pos (n : ℕ) : decimal n ≠ [] := by
  simp [decimal, Nat.toDigits_ne_nil]

/-- A decimal digit is its own byte. -/
theorem toNat_ofNat_of_isDigit {c : Char} (h : c.isDigit = true) :
    (UInt8.ofNat c.toNat).toNat = c.toNat ∧ 48 ≤ c.toNat ∧ c.toNat ≤ 57 := by
  simp only [Char.isDigit, Bool.and_eq_true, decide_eq_true_eq] at h
  have hlow : 48 ≤ c.toNat := h.1
  have hhigh : c.toNat ≤ 57 := h.2
  rw [UInt8.toNat_ofNat', Nat.mod_eq_of_lt (by omega)]
  exact ⟨rfl, hlow, hhigh⟩

/-- Digits are written, and no other bytes. -/
theorem isDigit_of_mem_decimal {n : ℕ} {b : UInt8} (hb : b ∈ decimal n) : isDigit b = true := by
  simp only [decimal, List.mem_map] at hb
  obtain ⟨c, hc, rfl⟩ := hb
  obtain ⟨hbyte, hlow, hhigh⟩ :=
    toNat_ofNat_of_isDigit (Nat.isDigit_of_mem_toDigits (by decide) (by decide) hc)
  rw [isDigit, decide_eq_true_eq, UInt8.le_iff_toNat_le, UInt8.le_iff_toNat_le, hbyte]
  exact ⟨hlow, hhigh⟩

/-- The digits of a number give the number. -/
theorem parseDecimal_decimal (n : ℕ) : parseDecimal (decimal n) = some n := by
  have hall : (decimal n).all isDigit = true :=
    List.all_eq_true.mpr fun b hb => isDigit_of_mem_decimal hb
  rw [parseDecimal, if_pos ⟨length_decimal_pos n, hall⟩, decimal, List.foldl_map]
  have hfold : ∀ (l : List Char) (m : ℕ), (∀ c ∈ l, c.isDigit = true) →
      l.foldl (fun n c => 10 * n + ((UInt8.ofNat c.toNat).toNat - 48)) m =
        Nat.ofDigitChars 10 l m := by
    intro l
    induction l with
    | nil => simp
    | cons c l ih =>
      intro m hl
      rw [List.forall_mem_cons] at hl
      rw [List.foldl_cons, Nat.ofDigitChars_cons, ih _ hl.2, (toNat_ofNat_of_isDigit hl.1).1]
      rfl
  rw [hfold _ 0 fun c hc => Nat.isDigit_of_mem_toDigits (by decide) (by decide) hc,
    Nat.ofDigitChars_ten_toDigits]

end Decimal

/-! ## Messages -/

variable {hs : List (List UInt8 × List UInt8 × List UInt8)} {n : ℕ}

/-- Lines with the headers that they say. -/
def Says (hs : List (List UInt8 × List UInt8 × List UInt8)) : Prop :=
  ∀ h ∈ hs, cr ∉ h.1 ∧ h.1 ≠ [] ∧ parseHeader h.1 = some h.2

/-- The lines of a block of headers. -/
def block (hs : List (List UInt8 × List UInt8 × List UInt8)) : List UInt8 :=
  hs.flatMap fun h => h.1 ++ crlf

theorem length_le_block (hs : List (List UInt8 × List UInt8 × List UInt8)) :
    hs.length ≤ (block hs).length := by
  induction hs with
  | nil => exact Nat.le_refl 0
  | cons h hs ih =>
    have hcrlf : crlf.length = 2 := rfl
    have hcons : block (h :: hs) = h.1 ++ crlf ++ block hs := rfl
    rw [hcons, List.length_append, List.length_append, List.length_cons]
    omega

/-- The headers of a block of lines. -/
theorem parseHeaders_block (h : Says hs) (hn : hs.length < n) :
    parseHeaders n (block hs ++ crlf ++ s) = some (hs.map Prod.snd, s) := by
  induction hs generalizing n with
  | nil =>
    obtain ⟨n, rfl⟩ : ∃ m, n = m + 1 := ⟨n - 1, by omega⟩
    rfl
  | cons h' hs ih =>
    rw [List.length_cons] at hn
    obtain ⟨n, rfl⟩ : ∃ m, n = m + 1 := ⟨n - 1, by omega⟩
    rw [Says, List.forall_mem_cons] at h
    obtain ⟨⟨hcr, hne, hheader⟩, hrest⟩ := h
    have hcons : block (h' :: hs) ++ crlf ++ s = h'.1 ++ crlf ++ (block hs ++ crlf ++ s) := by
      simp [block]
    rw [hcons, parseHeaders, splitLine_append hcr, Option.bind_some, if_neg hne, hheader,
      Option.bind_some, ih hrest (by omega), Option.map_some]
    rfl

/-- A request that is put together from lines, and from as many bytes as they say. -/
theorem parse_message {line m p body value : List UInt8} (hline : cr ∉ line)
    (hrequest : parseRequestLine line = some (m, p)) (h : Says hs)
    (hlength : (hs.map Prod.snd).lookup (ascii "content-length") = some value)
    (hvalue : parseDecimal value = some body.length) :
    parse (line ++ crlf ++ (block hs ++ crlf ++ body)) =
      some (⟨m, p, hs.map Prod.snd, body⟩, []) := by
  have hfuel : hs.length < (line ++ crlf ++ (block hs ++ crlf ++ body)).length + 1 := by
    have hle := length_le_block hs
    simp only [List.length_append]
    omega
  rw [parse, splitLine_append hline, Option.bind_some, hrequest, Option.bind_some,
    parseHeaders_block h hfuel, Option.bind_some, hlength, Option.bind_some, hvalue, Option.bind_some,
    if_pos (Nat.le_refl _), List.take_length, List.drop_length]

end Rules

end Http

end Foundations
