import Mathlib.Data.List.Basic
import Mathlib.Tactic.Common

/-!
# JSON texts

A parser of JSON texts.  The strings of a text are sequences of UTF-16 code units: every string of the
grammar has such a value, also one with half a surrogate pair.  A number is given by its text.

What a string holds is not longer than its text, and a text that is as long as what it holds has no
escapes (`isPlain_of_parseChars`).  The strings of a value have room in the text that it was parsed
from (`Bounded`).
-/

namespace Foundations

/-- The value of a JSON text. -/
inductive Json where
  /-- `null`. -/
  | null
  /-- `true` and `false`. -/
  | bool (b : Bool)
  /-- A number, by its text. -/
  | number (text : List Char)
  /-- A string, by its UTF-16 code units. -/
  | string (units : List UInt16)
  /-- An array. -/
  | array (elements : List Json)
  /-- An object, by its members in their order. -/
  | object (members : List (List UInt16 × Json))

namespace Json

/-! ## Characters -/

/-- The UTF-16 code units of a character. -/
def utf16 (c : Char) : List UInt16 :=
  if c.toNat < 0x10000 then [UInt16.ofNat c.toNat]
  else [UInt16.ofNat (0xD800 + (c.toNat - 0x10000) / 0x400),
    UInt16.ofNat (0xDC00 + (c.toNat - 0x10000) % 0x400)]

/-- The UTF-16 code units of a text. -/
def utf16String (s : List Char) : List UInt16 := s.flatMap utf16

/-- The length of a text in UTF-16 code units. -/
def units (s : List Char) : ℕ := (utf16String s).length

/-- A quotation mark. -/
def quote : Char := '\x22'

/-- A backslash. -/
def backslash : Char := '\x5c'

/-- The brace that opens an object. -/
def openBrace : Char := '\x7b'

/-- The brace that closes an object. -/
def closeBrace : Char := '\x7d'

/-- Insignificant whitespace. -/
def isWs (c : Char) : Bool := c == ' ' || c == '\t' || c == '\n' || c == '\r'

/-- A character that stands for itself in a string. -/
def isPlain (c : Char) : Bool := c != quote && c != backslash && decide (0x20 ≤ c.toNat)

/-- The characters of literals and numbers. -/
def isAtomChar (c : Char) : Bool := c.isAlphanum || c == '-' || c == '+' || c == '.'

/-- The value of a hexadecimal digit. -/
def hexDigit (c : Char) : Option ℕ :=
  if '0' ≤ c ∧ c ≤ '9' then some (c.toNat - 48)
  else if 'a' ≤ c ∧ c ≤ 'f' then some (c.toNat - 87)
  else if 'A' ≤ c ∧ c ≤ 'F' then some (c.toNat - 55)
  else none

/-- The code unit of an escape of two characters. -/
def simpleEscape (c : Char) : Option UInt16 :=
  if c = quote then some 0x22
  else if c = backslash then some 0x5C
  else if c = '/' then some 0x2F
  else if c = 'b' then some 0x08
  else if c = 'f' then some 0x0C
  else if c = 'n' then some 0x0A
  else if c = 'r' then some 0x0D
  else if c = 't' then some 0x09
  else none

/-! ## Strings -/

/-- Where the parser is in a string. -/
inductive CharState where
  /-- Between characters. -/
  | between
  /-- After a backslash. -/
  | escape
  /-- Before a hexadecimal digit of an escape, which `k` more follow. -/
  | hex (k : ℕ) (value : ℕ)

/-- What a character of a string does. -/
inductive CharStep where
  /-- It may not stand here. -/
  | fail
  /-- It ends the string. -/
  | close
  /-- The string goes on, with the code units. -/
  | more (units : List UInt16) (st : CharState)

/-- A character between others. -/
def charStepBetween (c : Char) : CharStep :=
  if c = quote then .close
  else if c = backslash then .more [] .escape
  else if c.toNat < 0x20 then .fail
  else .more (utf16 c) .between

/-- A character after a backslash. -/
def charStepEscape (c : Char) : CharStep :=
  if c = 'u' then .more [] (.hex 3 0)
  else
    match simpleEscape c with
    | some u => .more [u] .between
    | none => .fail

/-- A hexadecimal digit, which `k` more follow. -/
def charStepHex (k value : ℕ) (c : Char) : CharStep :=
  match hexDigit c with
  | none => .fail
  | some d =>
    match k with
    | 0 => .more [UInt16.ofNat (16 * value + d)] .between
    | k + 1 => .more [] (.hex k (16 * value + d))

/-- What a character does. -/
def charStep (st : CharState) (c : Char) : CharStep :=
  match st with
  | .between => charStepBetween c
  | .escape => charStepEscape c
  | .hex k value => charStepHex k value c

/-- The characters of a string, up to the quotation mark that ends it. -/
def parseChars : CharState → List Char → Option (List UInt16 × List Char)
  | _, [] => none
  | st, c :: s =>
    match charStep st c with
    | .fail => none
    | .close => some ([], s)
    | .more us st' => (parseChars st' s).map fun p => (us ++ p.1, p.2)

/-! ## Values -/

/-- The next character that is not whitespace, and what is behind it. -/
def peek : List Char → Option (Char × List Char)
  | [] => none
  | c :: s => if isWs c then peek s else some (c, s)

/-- Digits, at least one, and the rest. -/
def digits (s : List Char) : Option (List Char) :=
  if (s.takeWhile Char.isDigit).isEmpty then none else some (s.dropWhile Char.isDigit)

/-- The integer part of a number. -/
def intPart (s : List Char) : Option (List Char) :=
  if s.head? = some '0' then some s.tail else digits s

/-- The fraction of a number, if there is one. -/
def fraction (s : List Char) : Option (List Char) :=
  if s.head? = some '.' then digits s.tail else some s

/-- The exponent of a number, if there is one. -/
def exponent (s : List Char) : Option (List Char) :=
  if s.head? = some 'e' ∨ s.head? = some 'E' then
    if s.tail.head? = some '+' ∨ s.tail.head? = some '-' then digits s.tail.tail else digits s.tail
  else some s

/-- The text of a number. -/
def isNumber (s : List Char) : Bool :=
  let unsigned := if s.head? = some '-' then s.tail else s
  ((intPart unsigned).bind fun s => (fraction s).bind exponent) == some []

/-- The value of a literal or a number. -/
def atomValue (s : List Char) : Option Json :=
  if s = "null".toList then some .null
  else if s = "true".toList then some (.bool true)
  else if s = "false".toList then some (.bool false)
  else if isNumber s then some (.number s)
  else none

/-- A literal or a number.  It goes as far as there are characters of such, none of which may follow
it. -/
def parseAtom (s : List Char) : Option (Json × List Char) :=
  (atomValue (s.takeWhile isAtomChar)).map fun v => (v, s.dropWhile isAtomChar)

section Loops

variable (value : List Char → Option (Json × List Char))

/-- The elements of an array, with the bracket that closes it. -/
def parseElements : ℕ → List Char → Option (List Json × List Char)
  | 0, _ => none
  | k + 1, s =>
    (value s).bind fun v =>
      (peek v.2).bind fun p =>
        if p.1 = ',' then (parseElements k p.2).map fun vs => (v.1 :: vs.1, vs.2)
        else if p.1 = ']' then some ([v.1], p.2)
        else none

/-- The name of a member, with the colon. -/
def parseName (s : List Char) : Option (List UInt16 × List Char) :=
  (peek s).bind fun p =>
    if p.1 = quote then
      (parseChars .between p.2).bind fun name =>
        (peek name.2).bind fun q => if q.1 = ':' then some (name.1, q.2) else none
    else none

/-- The members of an object, with the brace that closes it. -/
def parseMembers : ℕ → List Char → Option (List (List UInt16 × Json) × List Char)
  | 0, _ => none
  | k + 1, s =>
    (parseName s).bind fun name =>
      (value name.2).bind fun v =>
        (peek v.2).bind fun p =>
          if p.1 = ',' then (parseMembers k p.2).map fun ms => ((name.1, v.1) :: ms.1, ms.2)
          else if p.1 = closeBrace then some ([(name.1, v.1)], p.2)
          else none

/-- What is behind the bracket of an array. -/
def parseArray (k : ℕ) (s : List Char) : Option (Json × List Char) :=
  (peek s).bind fun p =>
    if p.1 = ']' then some (.array [], p.2)
    else (parseElements value k s).map fun vs => (.array vs.1, vs.2)

/-- What is behind the brace of an object. -/
def parseObject (k : ℕ) (s : List Char) : Option (Json × List Char) :=
  (peek s).bind fun p =>
    if p.1 = closeBrace then some (.object [], p.2)
    else (parseMembers value k s).map fun ms => (.object ms.1, ms.2)

end Loops

/-- A value, nested no deeper than the fuel. -/
def parseValue : ℕ → List Char → Option (Json × List Char)
  | 0, _ => none
  | n + 1, s =>
    (peek s).bind fun p =>
      if p.1 = quote then (parseChars .between p.2).map fun u => (.string u.1, u.2)
      else if p.1 = '[' then parseArray (parseValue n) n p.2
      else if p.1 = openBrace then parseObject (parseValue n) n p.2
      else parseAtom (p.1 :: p.2)

/-- A text: a value, and nothing behind it. -/
def parseText (s : List Char) : Option Json :=
  (parseValue (units s + 1) s).bind fun p => if (peek p.2).isNone then some p.1 else none

/-- The member of an object.  Of members with the same name, the last one counts. -/
def get? (v : Json) (name : List UInt16) : Option Json :=
  match v with
  | .object members => (members.reverse.find? fun m => m.1 == name).map Prod.snd
  | _ => none

/-! ## Texts as bytes -/

/-- The bytes of a text in UTF-8. -/
def utf8Encode (s : List Char) : List UInt8 := s.flatMap String.utf8EncodeChar

/-- The text that bytes encode in UTF-8. -/
def utf8Decode (bs : List UInt8) : Option (List Char) :=
  bs.toByteArray.utf8Decode?.map Array.toList

/-- A text that is given by its bytes. -/
def parse (bs : List UInt8) : Option Json := (utf8Decode bs).bind parseText

/-! ## Lengths -/

section Lengths

variable {c : Char} {s t r : List Char} {st st' : CharState} {u us : List UInt16}

/-- The empty text has no code units. -/
@[simp] theorem utf16String_nil : utf16String [] = [] := rfl

/-- The code units of a text are those of its characters. -/
@[simp] theorem utf16String_cons : utf16String (c :: s) = utf16 c ++ utf16String s := rfl

/-- The empty text has no code units. -/
@[simp] theorem units_nil : units [] = 0 := rfl

/-- The code units of the characters add up. -/
@[simp] theorem units_cons : units (c :: s) = (utf16 c).length + units s := by
  rw [units, utf16String_cons, List.length_append, units]

/-- The code units of two texts add up. -/
@[simp] theorem units_append : units (s ++ t) = units s + units t := by
  induction s with
  | nil => simp
  | cons c s ih => rw [List.cons_append, units_cons, units_cons, ih, Nat.add_assoc]

/-- A character has a code unit. -/
theorem length_utf16_pos (c : Char) : 0 < (utf16 c).length := by
  unfold utf16
  split_ifs <;> simp

/-- A character of a string does not give more code units than it has. -/
theorem length_of_charStep (h : charStep st c = .more us st') : us.length ≤ (utf16 c).length := by
  have hpos := length_utf16_pos c
  cases st with
  | between =>
    simp only [charStep, charStepBetween] at h
    split_ifs at h <;> cases h
    · exact Nat.zero_le _
    · exact Nat.le_refl _
  | escape =>
    simp only [charStep, charStepEscape] at h
    split_ifs at h
    · cases h
      exact Nat.zero_le _
    · cases hescape : simpleEscape c with
      | none => simp [hescape] at h
      | some u =>
        simp only [hescape, CharStep.more.injEq] at h
        rw [← h.1]
        exact hpos
  | hex k value =>
    simp only [charStep, charStepHex] at h
    cases hdigit : hexDigit c with
    | none => simp [hdigit] at h
    | some d =>
      cases k with
      | zero =>
        simp only [hdigit, CharStep.more.injEq] at h
        rw [← h.1]
        exact hpos
      | succ k =>
        simp only [hdigit, CharStep.more.injEq] at h
        rw [← h.1]
        exact Nat.zero_le _

/-- A string is not longer than its text. -/
theorem length_of_parseChars (h : parseChars st s = some (u, r)) :
    u.length + 1 + units r ≤ units s := by
  induction s generalizing st u with
  | nil => cases h
  | cons c s ih =>
    have hpos := length_utf16_pos c
    unfold parseChars at h
    rw [units_cons]
    cases hstep : charStep st c with
    | fail => simp [hstep] at h
    | close =>
      simp only [hstep, Option.some.injEq, Prod.mk.injEq] at h
      obtain ⟨rfl, rfl⟩ := h
      simp only [List.length_nil]
      omega
    | more us st' =>
      simp only [hstep, Option.map_eq_some_iff, Prod.mk.injEq] at h
      obtain ⟨p, hp, rfl, rfl⟩ := h
      have hrest := ih hp
      have hus := length_of_charStep hstep
      rw [List.length_append]
      omega

/-- A plain character stands for itself. -/
theorem charStep_of_isPlain (h : isPlain c = true) :
    charStep .between c = .more (utf16 c) .between := by
  simp only [isPlain, Bool.and_eq_true, bne_iff_ne, ne_eq, decide_eq_true_eq] at h
  simp only [charStep, charStepBetween, if_neg h.1.1, if_neg h.1.2, if_neg (Nat.not_lt.mpr h.2)]

/-- Characters that stand for themselves are the string that they are written as. -/
theorem parseChars_of_isPlain (h : ∀ c ∈ s, isPlain c = true) :
    parseChars .between (s ++ quote :: t) = some (utf16String s, t) := by
  induction s with
  | nil => rfl
  | cons c s ih =>
    rw [List.forall_mem_cons] at h
    rw [List.cons_append, parseChars, charStep_of_isPlain h.1]
    simp only [ih h.2, Option.map_some, utf16String_cons]

/-- If a text gives a string that is as long as itself, and leaves all but one code unit of what is
behind it, its characters stand for themselves. -/
theorem isPlain_of_parseChars (h : parseChars .between (s ++ t) = some (u, r))
    (hlong : units s ≤ u.length) (hrest : units t ≤ units r + 1) : ∀ c ∈ s, isPlain c = true := by
  induction s generalizing u with
  | nil => simp
  | cons c s ih =>
    have hpos := length_utf16_pos c
    rw [units_cons] at hlong
    rw [List.cons_append, parseChars] at h
    by_cases hquote : c = quote
    · simp only [charStep, charStepBetween, if_pos hquote, Option.some.injEq, Prod.mk.injEq] at h
      rw [← h.1, List.length_nil] at hlong
      omega
    by_cases hbackslash : c = backslash
    · -- an escape is longer than what it stands for
      simp only [charStep, charStepBetween, if_neg hquote, if_pos hbackslash, List.nil_append,
        Option.map_eq_some_iff, Prod.mk.injEq] at h
      obtain ⟨p, hp, rfl, rfl⟩ := h
      have hshort := length_of_parseChars hp
      rw [units_append] at hshort
      omega
    by_cases hcontrol : c.toNat < 0x20
    · simp [charStep, charStepBetween, hquote, hbackslash, hcontrol] at h
    have hplain : isPlain c = true := by
      simp [isPlain, hquote, hbackslash, Nat.le_of_not_lt hcontrol]
    rw [charStep_of_isPlain hplain] at h
    simp only [Option.map_eq_some_iff, Prod.mk.injEq] at h
    obtain ⟨p, hp, rfl, rfl⟩ := h
    rw [List.length_append] at hlong
    rw [List.forall_mem_cons]
    exact ⟨hplain, ih hp (by omega)⟩

/-- White space is skipped. -/
theorem peek_of_isWs (h : isWs c = true) : peek (c :: s) = peek s := by
  rw [peek, if_pos h]

/-- Anything else is what comes next. -/
theorem peek_of_not_isWs (h : ¬ isWs c = true) : peek (c :: s) = some (c, s) := by
  rw [peek, if_neg h]

/-- What comes next is part of the text. -/
theorem units_of_peek (h : peek s = some (c, t)) : units (c :: t) ≤ units s := by
  induction s with
  | nil => cases h
  | cons d s ih =>
    unfold peek at h
    split_ifs at h
    · rw [units_cons (c := d)]
      exact Nat.le_trans (ih h) (Nat.le_add_left _ _)
    · cases h
      exact Nat.le_refl _

/-- What is left is shorter. -/
theorem length_of_peek (h : peek s = some (c, t)) : units t < units s := by
  have hle := units_of_peek h
  have hpos := length_utf16_pos c
  rw [units_cons] at hle
  omega

/-- A name takes some of the text. -/
theorem length_of_parseName (h : parseName s = some (u, r)) : units r < units s := by
  simp only [parseName, Option.bind_eq_some_iff] at h
  obtain ⟨p, hp, h⟩ := h
  split_ifs at h
  simp only [Option.bind_eq_some_iff] at h
  obtain ⟨name, hname, q, hq, h⟩ := h
  split_ifs at h
  cases h
  have h1 := length_of_peek hp
  have h2 := length_of_parseChars hname
  have h3 := length_of_peek hq
  omega

end Lengths

/-! ## Strings in a value -/

/-- The string is in the value, at any depth.  The names of members do not count. -/
inductive HasString (u : List UInt16) : Json → Prop where
  /-- The value is the string. -/
  | self : HasString u (.string u)
  /-- It is in an element of an array. -/
  | element (vs : List Json) (v : Json) (hv : v ∈ vs) (h : HasString u v) : HasString u (.array vs)
  /-- It is in a member of an object. -/
  | member (ms : List (List UInt16 × Json)) (m : List UInt16 × Json) (hm : m ∈ ms)
      (h : HasString u m.2) : HasString u (.object ms)

/-- The strings of a value have room in a text, with their quotation marks. -/
def Fits (v : Json) (n : ℕ) : Prop := ∀ u, HasString u v → u.length + 2 ≤ n

/-- What fits fits into more. -/
theorem Fits.mono {v : Json} {m n : ℕ} (h : Fits v m) (hmn : m ≤ n) : Fits v n :=
  fun u hu => Nat.le_trans (h u hu) hmn

/-- An array fits when its elements do. -/
theorem fits_array {vs : List Json} {n : ℕ} (h : ∀ v ∈ vs, Fits v n) : Fits (.array vs) n := by
  rintro u (_ | ⟨_, v, hv, hu⟩)
  exact h v hv u hu

/-- An object fits when its members do. -/
theorem fits_object {ms : List (List UInt16 × Json)} {n : ℕ} (h : ∀ m ∈ ms, Fits m.2 n) :
    Fits (.object ms) n := by
  rintro u (_ | _ | ⟨_, m, hm, hu⟩)
  exact h m hm u hu

/-- A parser consumes text, and what it gives fits into what it has consumed. -/
structure Bounded (value : List Char → Option (Json × List Char)) : Prop where
  /-- Text is consumed. -/
  shorter : ∀ s v r, value s = some (v, r) → units r < units s
  /-- The strings have room. -/
  fits : ∀ s v r, value s = some (v, r) → Fits v (units s - units r)

section Bounds

variable {value : List Char → Option (Json × List Char)} {k n : ℕ} {s r : List Char} {v : Json}
  {vs : List Json} {ms : List (List UInt16 × Json)}

/-- The elements of an array take some of the text, and fit into what they take. -/
theorem parseElements_bounded (hvalue : Bounded value) (h : parseElements value k s = some (vs, r)) :
    units r < units s ∧ ∀ v ∈ vs, Fits v (units s - units r) := by
  induction k generalizing s vs with
  | zero => cases h
  | succ k ih =>
    simp only [parseElements, Option.bind_eq_some_iff] at h
    obtain ⟨v, hv, p, hp, h⟩ := h
    have h1 := hvalue.shorter s v.1 v.2 hv
    have h2 := length_of_peek hp
    have hfits := hvalue.fits s v.1 v.2 hv
    split_ifs at h
    · simp only [Option.map_eq_some_iff, Prod.mk.injEq] at h
      obtain ⟨q, hq, rfl, rfl⟩ := h
      obtain ⟨h3, hrest⟩ := ih hq
      refine ⟨by omega, ?_⟩
      rw [List.forall_mem_cons]
      exact ⟨hfits.mono (by omega), fun w hw => (hrest w hw).mono (by omega)⟩
    · simp only [Option.some.injEq, Prod.mk.injEq] at h
      obtain ⟨rfl, rfl⟩ := h
      refine ⟨by omega, ?_⟩
      rw [List.forall_mem_singleton]
      exact hfits.mono (by omega)

/-- So do the members of an object. -/
theorem parseMembers_bounded (hvalue : Bounded value) (h : parseMembers value k s = some (ms, r)) :
    units r < units s ∧ ∀ m ∈ ms, Fits m.2 (units s - units r) := by
  induction k generalizing s ms with
  | zero => cases h
  | succ k ih =>
    simp only [parseMembers, Option.bind_eq_some_iff] at h
    obtain ⟨name, hname, v, hv, p, hp, h⟩ := h
    have h0 := length_of_parseName hname
    have h1 := hvalue.shorter name.2 v.1 v.2 hv
    have h2 := length_of_peek hp
    have hfits := hvalue.fits name.2 v.1 v.2 hv
    split_ifs at h
    · simp only [Option.map_eq_some_iff, Prod.mk.injEq] at h
      obtain ⟨q, hq, rfl, rfl⟩ := h
      obtain ⟨h3, hrest⟩ := ih hq
      refine ⟨by omega, ?_⟩
      rw [List.forall_mem_cons]
      exact ⟨hfits.mono (by omega), fun m hm => (hrest m hm).mono (by omega)⟩
    · simp only [Option.some.injEq, Prod.mk.injEq] at h
      obtain ⟨rfl, rfl⟩ := h
      refine ⟨by omega, ?_⟩
      rw [List.forall_mem_singleton]
      exact hfits.mono (by omega)

/-- The empty text is no atom. -/
theorem atomValue_nil : atomValue [] = none := by decide

/-- A literal or a number holds no string. -/
theorem fits_atomValue {t : List Char} (h : atomValue t = some v) : Fits v n := by
  unfold atomValue at h
  intro u hu
  split_ifs at h <;> cases h <;> cases hu

/-- An atom takes some of the text, and fits anywhere. -/
theorem parseAtom_bounded (h : parseAtom s = some (v, r)) : units r < units s ∧ Fits v n := by
  simp only [parseAtom, Option.map_eq_some_iff, Prod.mk.injEq] at h
  obtain ⟨w, hw, rfl, rfl⟩ := h
  refine ⟨?_, fits_atomValue hw⟩
  have hsplit : units s = units (s.takeWhile isAtomChar) + units (s.dropWhile isAtomChar) := by
    rw [← units_append, List.takeWhile_append_dropWhile]
  cases htake : s.takeWhile isAtomChar with
  | nil =>
    rw [htake, atomValue_nil] at hw
    cases hw
  | cons c t =>
    have hpos := length_utf16_pos c
    rw [htake, units_cons] at hsplit
    omega

/-- An array takes some of the text, and fits into what it takes. -/
theorem parseArray_bounded (hvalue : Bounded value) (h : parseArray value k s = some (v, r)) :
    units r < units s ∧ Fits v (units s - units r) := by
  simp only [parseArray, Option.bind_eq_some_iff] at h
  obtain ⟨p, hp, h⟩ := h
  split_ifs at h
  · simp only [Option.some.injEq, Prod.mk.injEq] at h
    obtain ⟨rfl, rfl⟩ := h
    exact ⟨length_of_peek hp, fits_array fun v hv => by cases hv⟩
  · simp only [Option.map_eq_some_iff, Prod.mk.injEq] at h
    obtain ⟨q, hq, rfl, rfl⟩ := h
    obtain ⟨hlt, hfits⟩ := parseElements_bounded hvalue hq
    exact ⟨hlt, fits_array hfits⟩

/-- So does an object. -/
theorem parseObject_bounded (hvalue : Bounded value) (h : parseObject value k s = some (v, r)) :
    units r < units s ∧ Fits v (units s - units r) := by
  simp only [parseObject, Option.bind_eq_some_iff] at h
  obtain ⟨p, hp, h⟩ := h
  split_ifs at h
  · simp only [Option.some.injEq, Prod.mk.injEq] at h
    obtain ⟨rfl, rfl⟩ := h
    exact ⟨length_of_peek hp, fits_object fun m hm => by cases hm⟩
  · simp only [Option.map_eq_some_iff, Prod.mk.injEq] at h
    obtain ⟨q, hq, rfl, rfl⟩ := h
    obtain ⟨hlt, hfits⟩ := parseMembers_bounded hvalue hq
    exact ⟨hlt, fits_object hfits⟩

/-- A value is not longer than its text. -/
theorem parseValue_bounded (n : ℕ) : Bounded (parseValue n) := by
  induction n with
  | zero => exact ⟨fun s v r h => (by cases h), fun s v r h => (by cases h)⟩
  | succ n ih =>
    have hboth : ∀ s v r, parseValue (n + 1) s = some (v, r) →
        units r < units s ∧ Fits v (units s - units r) := by
      intro s v r h
      simp only [parseValue, Option.bind_eq_some_iff] at h
      obtain ⟨p, hp, h⟩ := h
      have hpeek := length_of_peek hp
      split_ifs at h
      · simp only [Option.map_eq_some_iff, Prod.mk.injEq] at h
        obtain ⟨q, hq, rfl, rfl⟩ := h
        have hchars := length_of_parseChars hq
        refine ⟨by omega, ?_⟩
        rintro u ⟨⟩
        omega
      · obtain ⟨hlt, hfits⟩ := parseArray_bounded ih h
        exact ⟨by omega, hfits.mono (by omega)⟩
      · obtain ⟨hlt, hfits⟩ := parseObject_bounded ih h
        exact ⟨by omega, hfits.mono (by omega)⟩
      · obtain ⟨hlt, hfits⟩ := parseAtom_bounded h
        have hle := units_of_peek hp
        exact ⟨by omega, hfits⟩
    exact ⟨fun s v r h => (hboth s v r h).1, fun s v r h => (hboth s v r h).2⟩

end Bounds

end Json

end Foundations
