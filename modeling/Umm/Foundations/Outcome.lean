import Mathlib.Tactic.Common

/-!
# Computations that may fail

`Outcome m Q E` says of a computation `m : Except ε α` that its result satisfies `Q` when it returns
and its error satisfies `E` when it fails.  The rules below take a computation apart along its
structure; a function that may fail gets one rule of this shape, with a premise for each thing it
can do, and everything that is later proved about it goes through that rule.

`Lockstep R m m'` says the same of two computations: they return results in `R`, or fail with the same
error.
-/

namespace Foundations

universe u

variable {ε : Type*} {α β : Type u}

/-- The computation returns a result in `Q` or fails with an error in `E`. -/
def Outcome (m : Except ε α) (Q : α → Prop) (E : ε → Prop) : Prop :=
  match m with
  | .ok a => Q a
  | .error e => E e

section Outcome

variable {m : Except ε α} {Q : α → Prop} {E : ε → Prop}

@[simp] theorem outcome_ok {a : α} : Outcome (.ok a : Except ε α) Q E ↔ Q a := Iff.rfl

@[simp] theorem outcome_error {e : ε} : Outcome (.error e : Except ε α) Q E ↔ E e := Iff.rfl

/-- The sequence of two computations: the second one starts where the first one ends. -/
theorem outcome_bind {f : α → Except ε β} {R : β → Prop} :
    Outcome (m >>= f) R E ↔ Outcome m (fun a => Outcome (f a) R E) E := by
  cases m <;> rfl

/-- When a sequence of two computations returns. -/
theorem bind_eq_ok {f : α → Except ε β} {b : β} :
    m >>= f = .ok b ↔ ∃ a, m = .ok a ∧ f a = .ok b := by
  cases m with
  | ok a =>
    refine ⟨fun h => ⟨a, rfl, h⟩, ?_⟩
    rintro ⟨_, ⟨⟩, h⟩
    exact h
  | error e =>
    refine ⟨fun h => (by cases h), ?_⟩
    rintro ⟨_, h, -⟩
    cases h

/-- A weaker postcondition follows from a stronger one. -/
theorem Outcome.mono {Q' : α → Prop} {E' : ε → Prop} (h : Outcome m Q E)
    (hQ : ∀ a, Q a → Q' a) (hE : ∀ e, E e → E' e) : Outcome m Q' E' := by
  cases m with
  | ok a => exact hQ a h
  | error e => exact hE e h

/-- Two things known of the result of one computation. -/
theorem Outcome.and {Q' : α → Prop} (h : Outcome m Q E) (h' : Outcome m Q' E) :
    Outcome m (fun a => Q a ∧ Q' a) E := by
  cases m with
  | ok a => exact ⟨h, h'⟩
  | error e => exact h

/-- The loop over a list: `Q` speaks of the elements that have been processed, which are a prefix of it. -/
theorem outcome_foldlM {κ : Type*} {f : α → κ → Except ε α} {Q : List κ → α → Prop} (ks : List κ)
    (hstep : ∀ done k a, done ++ [k] <+: ks → Q done a → Outcome (f a k) (Q (done ++ [k])) E)
    {a : α} (ha : Q [] a) : Outcome (ks.foldlM f a) (Q ks) E := by
  suffices hfrom : ∀ rest done a, done ++ rest = ks → Q done a →
      Outcome (rest.foldlM f a) (Q ks) E from hfrom ks [] a rfl ha
  intro rest
  induction rest with
  | nil =>
    rintro done a hks ha
    rwa [← hks, List.append_nil]
  | cons k rest ih =>
    rintro done a hks ha
    rw [List.append_cons] at hks
    rw [List.foldlM_cons]
    exact outcome_bind.mpr ((hstep done k a ⟨rest, hks⟩ ha).mono (fun a' ha' => ih _ a' hks ha')
      fun _ h => h)

/-- The same for a loop that does not fail. -/
theorem foldl_prefix {κ : Type*} {f : α → κ → α} {Q : List κ → α → Prop}
    (hstep : ∀ done k a, Q done a → Q (done ++ [k]) (f a k)) (ks : List κ)
    {a : α} (ha : Q [] a) : Q ks (ks.foldl f a) := by
  suffices hfrom : ∀ done a, Q done a → Q (done ++ ks) (ks.foldl f a) from hfrom [] a ha
  induction ks with
  | nil =>
    intro done a ha
    rwa [List.append_nil]
  | cons k ks ih =>
    intro done a ha
    rw [List.foldl_cons, List.append_cons]
    exact ih _ _ (hstep done k a ha)

/-- What is known of the result of a computation that returned. -/
theorem Outcome.of_eq_ok {a : α} (h : Outcome m Q E) (hm : m = .ok a) : Q a := by
  subst hm
  exact h

/-- What is known of the error of a computation that failed. -/
theorem Outcome.of_eq_error {e : ε} (h : Outcome m Q E) (hm : m = .error e) : E e := by
  subst hm
  exact h

theorem toOption_eq_some {a : α} : m.toOption = some a ↔ m = .ok a := by
  cases m <;> simp [Except.toOption]

/-- A step of a machine that is taken when it is admitted and does not fail. -/
theorem guarded_eq_some {b : Bool} {a : α} :
    (if b then m.toOption else none) = some a ↔ b = true ∧ m = .ok a := by
  cases b with
  | false => simp
  | true => simpa using toOption_eq_some

end Outcome

section Lockstep

variable {γ δ : Type u} {R : α → β → Prop} {m : Except ε α} {m' : Except ε β}

/-- The computations return results in `R` or fail with the same error. -/
def Lockstep (R : α → β → Prop) : Except ε α → Except ε β → Prop
  | .ok a, .ok b => R a b
  | .error e, .error e' => e = e'
  | _, _ => False

@[simp] theorem lockstep_ok {a : α} {b : β} :
    Lockstep R (.ok a : Except ε α) (.ok b) ↔ R a b := Iff.rfl

@[simp] theorem lockstep_ok_bind {S : γ → δ → Prop} {f : α → Except ε γ} {g : β → Except ε δ} {a : α}
    {b : β} : Lockstep S (Except.ok a >>= f) (Except.ok b >>= g) ↔ Lockstep S (f a) (g b) := Iff.rfl

/-- The sequences of related computations. -/
theorem Lockstep.bind {S : γ → δ → Prop} {f : α → Except ε γ} {g : β → Except ε δ}
    (h : Lockstep R m m') (hf : ∀ a b, R a b → Lockstep S (f a) (g b)) :
    Lockstep S (m >>= f) (m' >>= g) := by
  cases m with
  | ok a =>
    cases m' with
    | ok b => exact hf a b h
    | error e' => exact h.elim
  | error e =>
    cases m' with
    | ok b => exact h.elim
    | error e' => exact h

/-- What is known of the result of the second one. -/
theorem Lockstep.and_outcome {Q : β → Prop} {E : ε → Prop} (h : Lockstep R m m')
    (hm : Outcome m' Q E) : Lockstep (fun a b => R a b ∧ Q b) m m' := by
  cases m with
  | ok a =>
    cases m' with
    | ok b => exact ⟨h, hm⟩
    | error e' => exact h
  | error e =>
    cases m' with
    | ok b => exact h
    | error e' => exact h

/-- A computation goes along with itself. -/
theorem Outcome.lockstep {Q : α → Prop} {E : ε → Prop} (hm : Outcome m Q E) :
    Lockstep (fun a b => a = b ∧ Q b) m m := by
  cases m with
  | ok a => exact ⟨rfl, hm⟩
  | error e => rfl

/-- Two computations in lockstep, seen through a view that the relation respects. -/
theorem Lockstep.map_toOption {view : α → β} (h : Lockstep R m m')
    (hview : ∀ a b, R a b → view a = b) : m.toOption.map view = m'.toOption := by
  cases m with
  | ok a =>
    cases m' with
    | ok b => exact congrArg some (hview a b h)
    | error e' => exact h.elim
  | error e =>
    cases m' with
    | ok b => exact h.elim
    | error e' => rfl

/-- What the relation says of the result of the first one. -/
theorem Lockstep.of_eq_ok {a : α} (h : Lockstep R m m') (hm : m = .ok a) :
    ∃ b, m' = .ok b ∧ R a b := by
  subst hm
  cases m' with
  | ok b => exact ⟨b, rfl, h⟩
  | error e' => exact h.elim

end Lockstep

end Foundations
