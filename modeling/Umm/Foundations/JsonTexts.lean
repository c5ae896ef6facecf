import Umm.Foundations.Json

/-!
# Changed texts, objects and encodings

A newline stands between the tokens of a JSON text only.  So a text that is changed at its newlines, or
is followed by something that does not continue a token, is parsed as it was (`KeepsTokens`).  In
particular the fuel that `parseText` takes is enough.

The other rules are about texts that are put together: objects with members of given names, and the
encoding of a text in bytes.
-/

namespace Foundations

namespace Json

/-! ## Changes between the tokens -/

/-- Texts are changed at newlines, which may go, and at their end. -/
structure KeepsTokens (f : List Char → List Char) : Prop where
  /-- Other characters stay. -/
  cons : ∀ c s, c ≠ '\n' → f (c :: s) = c :: f s
  /-- A newline goes or stays. -/
  newline : ∀ s, f ('\n' :: s) = f s ∨ f ('\n' :: s) = '\n' :: f s

/-- Something is put behind a text. -/
theorem keepsTokens_append (t : List Char) : KeepsTokens fun s => s ++ t where
  cons _ _ _ := rfl
  newline _ := Or.inr rfl

/-- The newlines are removed, and something is put behind the text. -/
theorem keepsTokens_filter_append (t : List Char) :
    KeepsTokens fun s => (s.filter fun c => c != '\n') ++ t where
  cons c s hc := by
    rw [List.filter_cons, if_pos (bne_iff_ne.mpr hc), List.cons_append]
  newline s := by
    refine Or.inl ?_
    rw [List.filter_cons, if_neg (by decide)]

/-- The text does not continue a literal or a number. -/
def EndsAtom (s : List Char) : Prop := ∀ c, s.head? = some c → isAtomChar c = false

section Changes

variable {f : List Char → List Char} (hf : KeepsTokens f) {c : Char} {s t r : List Char}
  {st : CharState} {u : List UInt16} {v : Json} {vs : List Json} {ms : List (List UInt16 × Json)}
  {value value' : List Char → Option (Json × List Char)} {k k' l n m : ℕ}

/-- No string goes over a newline. -/
theorem charStep_newline (st : CharState) : charStep st '\n' = .fail := by
  cases st with
  | between => rfl
  | escape => rfl
  | hex k value => rfl

include hf

/-- The characters of a string are not changed. -/
theorem parseChars_map (h : parseChars st s = some (u, r)) :
    parseChars st (f s) = some (u, f r) := by
  induction s generalizing st u with
  | nil => cases h
  | cons c s ih =>
    by_cases hc : c = '\n'
    · subst hc
      simp [parseChars, charStep_newline] at h
    rw [hf.cons c s hc]
    unfold parseChars at h ⊢
    cases hstep : charStep st c with
    | fail => simp [hstep] at h
    | close =>
      simp only [hstep, Option.some.injEq, Prod.mk.injEq] at h ⊢
      exact ⟨h.1, by rw [h.2]⟩
    | more us st' =>
      simp only [hstep, Option.map_eq_some_iff, Prod.mk.injEq] at h ⊢
      obtain ⟨p, hp, rfl, rfl⟩ := h
      exact ⟨_, ih hp, rfl, rfl⟩

/-- The next character is the same. -/
theorem peek_map (h : peek s = some (c, t)) : peek (f s) = some (c, f t) := by
  induction s with
  | nil => cases h
  | cons d s ih =>
    by_cases hd : d = '\n'
    · subst hd
      rw [peek_of_isWs rfl] at h
      rcases hf.newline s with hgone | hstays
      · rw [hgone]
        exact ih h
      · rw [hstays, peek_of_isWs rfl]
        exact ih h
    · rw [hf.cons d s hd]
      by_cases hws : isWs d = true
      · rw [peek_of_isWs hws] at h ⊢
        exact ih h
      · rw [peek_of_not_isWs hws] at h ⊢
        cases h
        rfl

/-- A text that holds whitespace only is like the empty one. -/
theorem peek_map_of_none (h : peek s = none) : peek (f s) = peek (f []) := by
  induction s with
  | nil => rfl
  | cons d s ih =>
    have hws : isWs d = true := by
      by_contra hws
      rw [peek_of_not_isWs hws] at h
      cases h
    rw [peek_of_isWs hws] at h
    by_cases hd : d = '\n'
    · subst hd
      rcases hf.newline s with hgone | hstays
      · rw [hgone]
        exact ih h
      · rw [hstays, peek_of_isWs rfl]
        exact ih h
    · rw [hf.cons d s hd, peek_of_isWs hws]
      exact ih h

omit hf in
/-- White space belongs to no atom. -/
theorem isAtomChar_of_isWs (h : isWs c = true) : isAtomChar c = false := by
  simp only [isWs, Bool.or_eq_true, beq_iff_eq] at h
  rcases h with ((rfl | rfl) | rfl) | rfl <;> rfl

/-- What is behind a literal or a number still ends it. -/
theorem endsAtom_map (hnil : peek s = none → EndsAtom (f []))
    (h : ∀ c t, peek s = some (c, t) → isAtomChar c = false) : EndsAtom (f s) := by
  induction s with
  | nil => exact hnil rfl
  | cons d s ih =>
    by_cases hd : d = '\n'
    · subst hd
      rw [peek_of_isWs rfl] at hnil h
      rcases hf.newline s with hgone | hstays
      · rw [hgone]
        exact ih hnil h
      · rw [hstays]
        rintro c hc
        cases hc
        rfl
    · rw [hf.cons d s hd]
      rintro c hc
      cases hc
      by_cases hws : isWs d = true
      · exact isAtomChar_of_isWs hws
      · exact h d s (peek_of_not_isWs hws)

/-- An atom ends before a character that is not part of one. -/
theorem endsAtom_of_peek (h : peek s = some (c, t)) (hc : isAtomChar c = false) : EndsAtom (f s) := by
  refine endsAtom_map hf (fun hnone => ?_) fun d t' hpeek => ?_
  · rw [hnone] at h
    cases h
  · rw [h] at hpeek
    cases hpeek
    exact hc

omit hf in
/-- Where an atom ends, no more of it can be taken. -/
theorem EndsAtom.while_eq (h : EndsAtom s) :
    s.takeWhile isAtomChar = [] ∧ s.dropWhile isAtomChar = s := by
  cases s with
  | nil => exact ⟨rfl, rfl⟩
  | cons c s =>
    have hc := h c rfl
    rw [List.takeWhile_cons, List.dropWhile_cons, hc]
    exact ⟨rfl, rfl⟩

/-- The same atom is taken from the changed text. -/
theorem while_map (h : EndsAtom (f (s.dropWhile isAtomChar))) :
    (f s).takeWhile isAtomChar = s.takeWhile isAtomChar ∧
      (f s).dropWhile isAtomChar = f (s.dropWhile isAtomChar) := by
  induction s with
  | nil => exact EndsAtom.while_eq h
  | cons c s ih =>
    rw [List.dropWhile_cons] at h ⊢
    rw [List.takeWhile_cons]
    by_cases hc : isAtomChar c = true
    · have hne : c ≠ '\n' := by
        rintro rfl
        exact absurd hc (by decide)
      rw [if_pos hc] at h ⊢
      rw [if_pos hc, hf.cons c s hne, List.takeWhile_cons, List.dropWhile_cons, if_pos hc, if_pos hc,
        (ih h).1, (ih h).2]
      exact ⟨rfl, rfl⟩
    · rw [if_neg hc] at h ⊢
      rw [if_neg hc]
      exact EndsAtom.while_eq h

/-- Atoms are parsed alike. -/
theorem parseAtom_map (h : parseAtom s = some (v, r)) (hends : EndsAtom (f r)) :
    parseAtom (f s) = some (v, f r) := by
  simp only [parseAtom, Option.map_eq_some_iff, Prod.mk.injEq] at h ⊢
  obtain ⟨w, hw, rfl, rfl⟩ := h
  obtain ⟨htake, hdrop⟩ := while_map hf hends
  exact ⟨w, by rw [htake, hw], rfl, hdrop⟩

/-- Names are parsed alike. -/
theorem parseName_map (h : parseName s = some (u, r)) : parseName (f s) = some (u, f r) := by
  simp only [parseName, Option.bind_eq_some_iff] at h ⊢
  obtain ⟨p, hp, h⟩ := h
  split_ifs at h with hquote
  simp only [Option.bind_eq_some_iff] at h
  obtain ⟨name, hname, q, hq, h⟩ := h
  split_ifs at h with hcolon
  cases h
  refine ⟨_, peek_map hf hp, ?_⟩
  rw [if_pos hquote, Option.bind_eq_some_iff]
  refine ⟨_, parseChars_map hf hname, ?_⟩
  rw [Option.bind_eq_some_iff]
  exact ⟨_, peek_map hf hq, by rw [if_pos hcolon]⟩

omit hf

/-- Of texts that are changed to shorter ones than `l`, `value'` gives what `value` gives. -/
def SameUnder (f : List Char → List Char) (l : ℕ)
    (value value' : List Char → Option (Json × List Char)) : Prop :=
  ∀ s v r, value s = some (v, r) → EndsAtom (f r) → units (f s) < l → value' (f s) = some (v, f r)

include hf

/-- The elements of an array are parsed alike, if the values are. -/
theorem parseElements_map (hsame : SameUnder f l value value') (hbounded : Bounded value')
    (h : parseElements value k s = some (vs, r)) (hl : units (f s) < l) (hk : units (f s) < k') :
    parseElements value' k' (f s) = some (vs, f r) := by
  induction k generalizing s vs k' with
  | zero => cases h
  | succ k ih =>
    obtain ⟨k', rfl⟩ : ∃ n, k' = n + 1 := ⟨k' - 1, by omega⟩
    simp only [parseElements, Option.bind_eq_some_iff] at h ⊢
    obtain ⟨v, hv, p, hp, h⟩ := h
    have hatom : isAtomChar p.1 = false := by
      split_ifs at h with hcomma hclose
      · rw [hcomma]
        rfl
      · rw [hclose]
        rfl
    have hv' := hsame s v.1 v.2 hv (endsAtom_of_peek hf hp hatom) hl
    have hp' := peek_map hf hp
    refine ⟨_, hv', _, hp', ?_⟩
    have h1 := hbounded.shorter _ _ _ hv'
    have h2 := length_of_peek hp'
    split_ifs at h ⊢
    · simp only [Option.map_eq_some_iff, Prod.mk.injEq] at h ⊢
      obtain ⟨q, hq, rfl, rfl⟩ := h
      exact ⟨_, ih hq (by omega) (by omega), rfl, rfl⟩
    · simp only [Option.some.injEq, Prod.mk.injEq] at h ⊢
      exact ⟨h.1, by rw [h.2]⟩

/-- So are the members of an object. -/
theorem parseMembers_map (hsame : SameUnder f l value value') (hbounded : Bounded value')
    (h : parseMembers value k s = some (ms, r)) (hl : units (f s) < l) (hk : units (f s) < k') :
    parseMembers value' k' (f s) = some (ms, f r) := by
  induction k generalizing s ms k' with
  | zero => cases h
  | succ k ih =>
    obtain ⟨k', rfl⟩ : ∃ n, k' = n + 1 := ⟨k' - 1, by omega⟩
    simp only [parseMembers, Option.bind_eq_some_iff] at h ⊢
    obtain ⟨name, hname, v, hv, p, hp, h⟩ := h
    have hatom : isAtomChar p.1 = false := by
      split_ifs at h with hcomma hclose
      · rw [hcomma]
        rfl
      · rw [hclose]
        rfl
    have hname' := parseName_map hf hname
    have h0 := length_of_parseName hname'
    have hv' := hsame name.2 v.1 v.2 hv (endsAtom_of_peek hf hp hatom) (by omega)
    have hp' := peek_map hf hp
    refine ⟨_, hname', _, hv', _, hp', ?_⟩
    have h1 := hbounded.shorter _ _ _ hv'
    have h2 := length_of_peek hp'
    split_ifs at h ⊢
    · simp only [Option.map_eq_some_iff, Prod.mk.injEq] at h ⊢
      obtain ⟨q, hq, rfl, rfl⟩ := h
      exact ⟨_, ih hq (by omega) (by omega), rfl, rfl⟩
    · simp only [Option.some.injEq, Prod.mk.injEq] at h ⊢
      exact ⟨h.1, by rw [h.2]⟩

/-- Arrays are parsed alike, if the values are. -/
theorem parseArray_map (hsame : SameUnder f l value value') (hbounded : Bounded value')
    (h : parseArray value k s = some (v, r)) (hl : units (f s) < l) (hk : units (f s) < k') :
    parseArray value' k' (f s) = some (v, f r) := by
  simp only [parseArray, Option.bind_eq_some_iff] at h ⊢
  obtain ⟨p, hp, h⟩ := h
  refine ⟨_, peek_map hf hp, ?_⟩
  split_ifs at h ⊢
  · cases h
    rfl
  · simp only [Option.map_eq_some_iff, Prod.mk.injEq] at h ⊢
    obtain ⟨q, hq, rfl, rfl⟩ := h
    exact ⟨_, parseElements_map hf hsame hbounded hq hl hk, rfl, rfl⟩

/-- So are objects. -/
theorem parseObject_map (hsame : SameUnder f l value value') (hbounded : Bounded value')
    (h : parseObject value k s = some (v, r)) (hl : units (f s) < l) (hk : units (f s) < k') :
    parseObject value' k' (f s) = some (v, f r) := by
  simp only [parseObject, Option.bind_eq_some_iff] at h ⊢
  obtain ⟨p, hp, h⟩ := h
  refine ⟨_, peek_map hf hp, ?_⟩
  split_ifs at h ⊢
  · cases h
    rfl
  · simp only [Option.map_eq_some_iff, Prod.mk.injEq] at h ⊢
    obtain ⟨q, hq, rfl, rfl⟩ := h
    exact ⟨_, parseMembers_map hf hsame hbounded hq hl hk, rfl, rfl⟩

/-- A value is parsed as before, with any fuel that is more than the length of the text. -/
theorem parseValue_map (n m : ℕ) : SameUnder f m (parseValue n) (parseValue m) := by
  induction n generalizing m with
  | zero => exact fun s v r h => by cases h
  | succ n ih =>
    intro s v r h hends hm
    obtain ⟨m, rfl⟩ : ∃ k, m = k + 1 := ⟨m - 1, by omega⟩
    simp only [parseValue, Option.bind_eq_some_iff] at h ⊢
    obtain ⟨p, hp, h⟩ := h
    have hp' := peek_map hf hp
    have hlt := length_of_peek hp'
    refine ⟨_, hp', ?_⟩
    split_ifs at h ⊢ with hquote hbracket hbrace
    · simp only [Option.map_eq_some_iff, Prod.mk.injEq] at h ⊢
      obtain ⟨q, hq, rfl, rfl⟩ := h
      exact ⟨_, parseChars_map hf hq, rfl, rfl⟩
    · exact parseArray_map hf (ih m) (parseValue_bounded m) h (by omega) (by omega)
    · exact parseObject_map hf (ih m) (parseValue_bounded m) h (by omega) (by omega)
    · have hne : p.1 ≠ '\n' := by
        intro hnewline
        rw [hnewline] at h
        simp [parseAtom, isAtomChar_of_isWs (c := '\n') rfl, atomValue_nil] at h
      have hatom := parseAtom_map hf h hends
      rwa [hf.cons _ _ hne] at hatom

end Changes

/-! ## Objects -/

section Objects

variable {c : Char} {s t r name : List Char} {v w : Json} {n : ℕ} {u : List UInt16}
  {ms : List (List UInt16 × Json)}

/-- White space before a value is skipped. -/
theorem parseValue_of_isWs (h : isWs c = true) : parseValue n (c :: s) = parseValue n s := by
  cases n with
  | zero => rfl
  | succ n => rw [parseValue, parseValue, peek_of_isWs h]

/-- So is that before a name. -/
theorem parseName_of_isWs (h : isWs c = true) : parseName (c :: s) = parseName s := by
  rw [parseName, parseName, peek_of_isWs h]

/-- So is that before the members of an object. -/
theorem parseMembers_of_isWs {value : List Char → Option (Json × List Char)} {k : ℕ}
    (h : isWs c = true) : parseMembers value k (c :: s) = parseMembers value k s := by
  cases k with
  | zero => rfl
  | succ k => rw [parseMembers, parseMembers, parseName_of_isWs h]

/-- A value that begins with a quotation mark is a string. -/
theorem parseValue_quote :
    parseValue (n + 1) (quote :: s) =
      (parseChars .between s).map fun u => (.string u.1, u.2) := rfl

/-- A value that begins with a brace and a quotation mark is an object with members. -/
theorem parseValue_brace_quote :
    parseValue (n + 1) (openBrace :: quote :: s) =
      (parseMembers (parseValue n) n (quote :: s)).map fun ms => (.object ms.1, ms.2) := rfl

/-- The name of a member, written without escapes. -/
theorem parseName_of_isPlain (h : ∀ c ∈ name, isPlain c = true) :
    parseName (quote :: (name ++ quote :: ':' :: s)) = some (utf16String name, s) := by
  have hpeek : peek (quote :: (name ++ quote :: ':' :: s)) =
      some (quote, name ++ quote :: ':' :: s) := rfl
  rw [parseName, hpeek, Option.bind_some, if_pos rfl, parseChars_of_isPlain h]
  rfl

/-- A member with others behind it. -/
theorem parseMembers_comma {value : List Char → Option (Json × List Char)} {k : ℕ}
    (h : ∀ c ∈ name, isPlain c = true) (hvalue : value s = some (v, r))
    (hcomma : peek r = some (',', t)) :
    parseMembers value (k + 1) (quote :: (name ++ quote :: ':' :: s)) =
      (parseMembers value k t).map fun ms => ((utf16String name, v) :: ms.1, ms.2) := by
  rw [parseMembers, parseName_of_isPlain h, Option.bind_some, hvalue, Option.bind_some, hcomma,
    Option.bind_some, if_pos rfl]

/-- A member that is the last one. -/
theorem parseMembers_close {value : List Char → Option (Json × List Char)} {k : ℕ}
    (h : ∀ c ∈ name, isPlain c = true) (hvalue : value s = some (v, r))
    (hclose : peek r = some (closeBrace, t)) :
    parseMembers value (k + 1) (quote :: (name ++ quote :: ':' :: s)) =
      some ([(utf16String name, v)], t) := by
  have hcomma : closeBrace ≠ ',' := by decide
  rw [parseMembers, parseName_of_isPlain h, Option.bind_some, hvalue, Option.bind_some, hclose,
    Option.bind_some, if_neg hcomma, if_pos rfl]

/-- The first member, and what there is room for behind it. -/
theorem exists_of_parseMembers {value : List Char → Option (Json × List Char)} {k : ℕ}
    (hbounded : Bounded value) (hname : ∀ c ∈ name, isPlain c = true)
    (h : parseMembers value k (quote :: (name ++ quote :: ':' :: s)) = some (ms, r)) :
    ∃ v ms', value s = some v ∧ ms = (utf16String name, v.1) :: ms' ∧ units r < units v.2 ∧
      ∀ m ∈ ms', Fits m.2 (units v.2 - 1) := by
  cases k with
  | zero => cases h
  | succ k =>
    rw [parseMembers, parseName_of_isPlain hname, Option.bind_some] at h
    simp only [Option.bind_eq_some_iff] at h
    obtain ⟨v, hv, p, hp, h⟩ := h
    have hpeek := length_of_peek hp
    split_ifs at h
    · simp only [Option.map_eq_some_iff, Prod.mk.injEq] at h
      obtain ⟨q, hq, rfl, rfl⟩ := h
      obtain ⟨hlt, hfits⟩ := parseMembers_bounded hbounded hq
      exact ⟨v, q.1, hv, rfl, by omega, fun m hm => (hfits m hm).mono (by omega)⟩
    · simp only [Option.some.injEq, Prod.mk.injEq] at h
      obtain ⟨rfl, rfl⟩ := h
      exact ⟨v, [], hv, rfl, by omega, fun m hm => by cases hm⟩

/-- The member that counts is one of the members. -/
theorem mem_of_get? (h : (Json.object ms).get? u = some w) : (u, w) ∈ ms := by
  simp only [get?, Option.map_eq_some_iff] at h
  obtain ⟨m, hm, rfl⟩ := h
  have hmem := List.mem_reverse.mp (List.mem_of_find?_eq_some hm)
  have hname := List.find?_some hm
  rw [beq_iff_eq] at hname
  rwa [← hname]

/-- The last member counts. -/
theorem get?_append_singleton (ms : List (List UInt16 × Json)) (u : List UInt16) (w : Json) :
    (Json.object (ms ++ [(u, w)])).get? u = some w := by
  simp [get?]

/-- Only an object has members. -/
theorem exists_members_of_get? (h : v.get? u = some w) : ∃ ms, v = .object ms := by
  cases v with
  | object ms => exact ⟨ms, rfl⟩
  | null => cases h
  | bool b => cases h
  | number t => cases h
  | string u => cases h
  | array vs => cases h

end Objects

/-! ## Texts and bytes -/

section Texts

variable {s t : List Char} {bs : List UInt8} {v : Json}

/-- A text is a value with nothing behind it.  The fuel that is taken is always enough. -/
theorem parseText_eq_some_iff :
    parseText s = some v ↔ ∃ n r, parseValue n s = some (v, r) ∧ peek r = none := by
  simp only [parseText, Option.bind_eq_some_iff]
  constructor
  · rintro ⟨p, hp, h⟩
    split_ifs at h with hnone
    cases h
    exact ⟨_, _, hp, Option.isNone_iff_eq_none.mp hnone⟩
  · rintro ⟨n, r, hvalue, hend⟩
    have hid : KeepsTokens id := ⟨fun _ _ _ => rfl, fun _ => Or.inr rfl⟩
    have hends : EndsAtom (id r) := by
      refine endsAtom_map hid (fun _ c hc => by cases hc) fun c t hpeek => ?_
      rw [hend] at hpeek
      cases hpeek
    have hfuel := parseValue_map hid n (units s + 1) s v r hvalue hends (Nat.lt_succ_self _)
    exact ⟨(v, r), hfuel, if_pos (Option.isNone_iff_eq_none.mpr hend)⟩

/-- The encoding of two texts one after the other. -/
theorem utf8Encode_append : utf8Encode (s ++ t) = utf8Encode s ++ utf8Encode t :=
  List.flatMap_append

/-- What is encoded can be decoded. -/
theorem utf8Decode_utf8Encode (s : List Char) : utf8Decode (utf8Encode s) = some s := by
  have hdecode : (utf8Encode s).toByteArray.utf8Decode? = some s.toArray :=
    List.utf8Decode?_utf8Encode
  rw [utf8Decode, hdecode]
  rfl

/-- What can be decoded has been encoded. -/
theorem utf8Decode_eq_some_iff : utf8Decode bs = some s ↔ bs = utf8Encode s := by
  constructor
  · intro h
    simp only [utf8Decode, Option.map_eq_some_iff] at h
    obtain ⟨cs, hcs, rfl⟩ := h
    have hvalid := ByteArray.isSome_utf8Decode?_iff.mp (Option.isSome_of_eq_some hcs)
    obtain ⟨t, ht⟩ := hvalid
    have hbs : bs = utf8Encode t := List.toByteArray_inj.mp ht
    subst hbs
    have hdecode : (utf8Encode t).toByteArray.utf8Decode? = some t.toArray :=
      List.utf8Decode?_utf8Encode
    rw [hdecode, Option.some.injEq] at hcs
    rw [← hcs]
  · rintro rfl
    exact utf8Decode_utf8Encode s

/-- The bytes of a text are parsed as the text. -/
@[simp] theorem parse_utf8Encode (s : List Char) : parse (utf8Encode s) = parseText s := by
  rw [parse, utf8Decode_utf8Encode, Option.bind_some]

/-- Only the bytes of texts are parsed. -/
theorem parse_eq_some_iff : parse bs = some v ↔ ∃ s, bs = utf8Encode s ∧ parseText s = some v := by
  rw [parse, Option.bind_eq_some_iff]
  simp only [utf8Decode_eq_some_iff]

/-- A character of ASCII is its own byte. -/
theorem utf8EncodeChar_of_lt {c : Char} (h : c.toNat < 128) :
    String.utf8EncodeChar c = [UInt8.ofNat c.toNat] := by
  have hle : c.val.toNat ≤ 0x7f := Nat.le_of_lt_succ h
  simp only [String.utf8EncodeChar, if_pos hle]
  rfl

/-- The bytes of other characters are not ASCII. -/
theorem le_of_mem_utf8EncodeChar {c : Char} {b : UInt8} (h : 128 ≤ c.toNat)
    (hb : b ∈ String.utf8EncodeChar c) : 128 ≤ b.toNat := by
  have hgt : ¬ c.val.toNat ≤ 0x7f := Nat.not_le.mpr h
  simp only [String.utf8EncodeChar, if_neg hgt] at hb
  split_ifs at hb <;>
  · simp only [List.mem_cons, List.not_mem_nil, or_false] at hb
    rcases hb with rfl | rfl | rfl | rfl <;>
    · simp only [UInt8.toNat_ofNat']
      omega

/-- Without the newlines, a text has the bytes that are not newlines. -/
theorem utf8Encode_filter_newline (s : List Char) :
    utf8Encode (s.filter fun c => c != '\n') = (utf8Encode s).filter fun b => b != 10 := by
  induction s with
  | nil => rfl
  | cons c s ih =>
    have hcons : utf8Encode (c :: s) = String.utf8EncodeChar c ++ utf8Encode s := rfl
    rw [hcons, List.filter_append, ← ih]
    by_cases hc : c = '\n'
    · subst hc
      rfl
    have hkeep : (c != '\n') = true := bne_iff_ne.mpr hc
    have hbytes : (String.utf8EncodeChar c).filter (fun b => b != 10) = String.utf8EncodeChar c := by
      rw [List.filter_eq_self]
      intro b hb
      rw [bne_iff_ne]
      rintro rfl
      by_cases hlt : c.toNat < 128
      · rw [utf8EncodeChar_of_lt hlt, List.mem_singleton] at hb
        have hbyte := congrArg UInt8.toNat hb
        rw [UInt8.toNat_ofNat', Nat.mod_eq_of_lt (by omega)] at hbyte
        exact hc (Char.toNat_inj.mp hbyte.symm)
      · exact absurd (le_of_mem_utf8EncodeChar (Nat.le_of_not_lt hlt) hb) (by decide)
    rw [List.filter_cons, if_pos hkeep, hbytes]
    rfl

end Texts

end Json

end Foundations
