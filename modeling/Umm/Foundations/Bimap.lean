import Mathlib.Data.List.Basic
import Mathlib.Tactic.Common

/-!
# One-to-one maps

`Bimap α β` is a finite one-to-one relation between `α` and `β`, kept as the list of its pairs
together with the two uniqueness laws.  `insert` adds a pair only when neither side is present and
otherwise leaves the map as it is, so its result is one-to-one again; `mem_insert` says exactly
which pairs it holds.
-/

namespace Foundations

/-- A finite one-to-one relation between `α` and `β`. -/
structure Bimap (α β : Type*) where
  /-- The related pairs. -/
  pairs : List (α × β)
  /-- A left element is related to at most one right element. -/
  left_unique : ∀ a b b', (a, b) ∈ pairs → (a, b') ∈ pairs → b = b'
  /-- A right element is related to at most one left element. -/
  right_unique : ∀ a a' b, (a, b) ∈ pairs → (a', b) ∈ pairs → a = a'

namespace Bimap

variable {α β : Type*}

instance : Membership (α × β) (Bimap α β) where
  mem m p := p ∈ m.pairs

/-- The map with no pairs. -/
def empty : Bimap α β where
  pairs := []
  left_unique := by simp
  right_unique := by simp

/-- The empty map relates nothing. -/
@[simp] theorem not_mem_empty (p : α × β) : p ∉ (empty : Bimap α β) :=
  List.not_mem_nil

/-- A left value is related to one right value. -/
theorem eq_right {m : Bimap α β} {a : α} {b b' : β} (h : (a, b) ∈ m) (h' : (a, b') ∈ m) : b = b' :=
  m.left_unique a b b' h h'

/-- A right value is related to one left value. -/
theorem eq_left {m : Bimap α β} {a a' : α} {b : β} (h : (a, b) ∈ m) (h' : (a', b) ∈ m) : a = a' :=
  m.right_unique a a' b h h'

section FindLeft

variable [DecidableEq α]

/-- The right element related to `a`. -/
def findLeft (m : Bimap α β) (a : α) : Option β :=
  (m.pairs.find? fun p => p.1 = a).map Prod.snd

/-- A left value is found exactly with what it is related to. -/
theorem findLeft_eq_some {m : Bimap α β} {a : α} {b : β} :
    m.findLeft a = some b ↔ (a, b) ∈ m := by
  constructor
  · intro h
    obtain ⟨p, hp, rfl⟩ := Option.map_eq_some_iff.mp h
    have hpa : p.1 = a := by simpa using List.find?_some hp
    exact hpa ▸ List.mem_of_find?_eq_some hp
  · intro h
    cases hf : m.pairs.find? fun p => p.1 = a with
    | none => exact absurd (List.find?_eq_none.mp hf (a, b) h) (by simp)
    | some p =>
      have hpa : p.1 = a := by simpa using List.find?_some hf
      have hp : (a, p.2) ∈ m := hpa ▸ List.mem_of_find?_eq_some hf
      simp [findLeft, hf, m.eq_right hp h]

/-- A left value is not found exactly when it is related to nothing. -/
theorem findLeft_eq_none {m : Bimap α β} {a : α} :
    m.findLeft a = none ↔ ∀ b, (a, b) ∉ m := by
  rw [Option.eq_none_iff_forall_ne_some]
  exact forall_congr' fun b => not_congr findLeft_eq_some

/-- In the empty map no left value is found. -/
@[simp] theorem findLeft_empty (a : α) : (empty : Bimap α β).findLeft a = none := rfl

end FindLeft

section FindRight

variable [DecidableEq β]

/-- The left element related to `b`. -/
def findRight (m : Bimap α β) (b : β) : Option α :=
  (m.pairs.find? fun p => p.2 = b).map Prod.fst

/-- A right value is found exactly with what it is related to. -/
theorem findRight_eq_some {m : Bimap α β} {a : α} {b : β} :
    m.findRight b = some a ↔ (a, b) ∈ m := by
  constructor
  · intro h
    obtain ⟨p, hp, rfl⟩ := Option.map_eq_some_iff.mp h
    have hpb : p.2 = b := by simpa using List.find?_some hp
    exact hpb ▸ List.mem_of_find?_eq_some hp
  · intro h
    cases hf : m.pairs.find? fun p => p.2 = b with
    | none => exact absurd (List.find?_eq_none.mp hf (a, b) h) (by simp)
    | some p =>
      have hpb : p.2 = b := by simpa using List.find?_some hf
      have hp : (p.1, b) ∈ m := hpb ▸ List.mem_of_find?_eq_some hf
      simp [findRight, hf, m.eq_left hp h]

/-- A right value is not found exactly when nothing is related to it. -/
theorem findRight_eq_none {m : Bimap α β} {b : β} :
    m.findRight b = none ↔ ∀ a, (a, b) ∉ m := by
  rw [Option.eq_none_iff_forall_ne_some]
  exact forall_congr' fun a => not_congr findRight_eq_some

/-- In the empty map no right value is found. -/
@[simp] theorem findRight_empty (b : β) : (empty : Bimap α β).findRight b = none := rfl

end FindRight

section Insert

variable [DecidableEq α] [DecidableEq β]

/-- Add the pair `(a, b)` unless `a` or `b` is already related to something. -/
def insert (m : Bimap α β) (a : α) (b : β) : Bimap α β :=
  if h : m.findLeft a = none ∧ m.findRight b = none then
    { pairs := (a, b) :: m.pairs
      left_unique := by
        have ha := findLeft_eq_none.mp h.1
        intro x y y' hy hy'
        rcases List.mem_cons.mp hy with hy | hy <;> rcases List.mem_cons.mp hy' with hy' | hy'
        · exact (Prod.mk.inj hy).2.trans (Prod.mk.inj hy').2.symm
        · exact absurd hy' ((Prod.mk.inj hy).1 ▸ ha y')
        · exact absurd hy ((Prod.mk.inj hy').1 ▸ ha y)
        · exact m.left_unique x y y' hy hy'
      right_unique := by
        have hb := findRight_eq_none.mp h.2
        intro x x' y hx hx'
        rcases List.mem_cons.mp hx with hx | hx <;> rcases List.mem_cons.mp hx' with hx' | hx'
        · exact (Prod.mk.inj hx).1.trans (Prod.mk.inj hx').1.symm
        · exact absurd hx' ((Prod.mk.inj hx).2 ▸ hb x')
        · exact absurd hx ((Prod.mk.inj hx').2 ▸ hb x)
        · exact m.right_unique x x' y hx hx' }
  else m

/-- The pairs after an insertion: the old ones, and the new one when both its sides were free. -/
theorem mem_insert {m : Bimap α β} {a : α} {b : β} {p : α × β} :
    p ∈ m.insert a b ↔ p ∈ m ∨ p = (a, b) ∧ m.findLeft a = none ∧ m.findRight b = none := by
  unfold insert
  split_ifs with h
  · constructor
    · intro hp
      rcases List.mem_cons.mp hp with rfl | hp
      · exact Or.inr ⟨rfl, h⟩
      · exact Or.inl hp
    · rintro (hp | ⟨rfl, -⟩)
      · exact List.mem_cons_of_mem _ hp
      · exact List.mem_cons_self
  · exact ⟨Or.inl, fun hp => hp.elim id fun hp => absurd hp.2 h⟩

/-- An insertion keeps what was related. -/
theorem mem_insert_of_mem {m : Bimap α β} {a : α} {b : β} {p : α × β} (hp : p ∈ m) :
    p ∈ m.insert a b :=
  mem_insert.mpr (Or.inl hp)

/-- With both sides free the new pair is there. -/
theorem mem_insert_self {m : Bimap α β} {a : α} {b : β} (ha : m.findLeft a = none)
    (hb : m.findRight b = none) : (a, b) ∈ m.insert a b :=
  mem_insert.mpr (Or.inr ⟨rfl, ha, hb⟩)

/-- An insertion does not change what the other left elements are related to. -/
theorem findLeft_insert_of_ne {m : Bimap α β} {a x : α} (b : β) (h : x ≠ a) :
    (m.insert a b).findLeft x = m.findLeft x := by
  ext y
  rw [findLeft_eq_some, findLeft_eq_some, mem_insert]
  exact ⟨fun hy => hy.elim id fun heq => absurd (Prod.mk.inj heq.1).1 h, Or.inl⟩

/-- An insertion after which the left element is still free has been refused. -/
theorem insert_eq_self {m : Bimap α β} {a : α} {b : β} (h : (m.insert a b).findLeft a = none) :
    m.insert a b = m := by
  by_cases hfree : m.findLeft a = none ∧ m.findRight b = none
  · exact absurd (mem_insert_self hfree.1 hfree.2) (findLeft_eq_none.mp h b)
  · rw [insert, dif_neg hfree]

end Insert

end Bimap

end Foundations
