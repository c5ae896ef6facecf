import Mathlib.Data.List.Basic
import Mathlib.Tactic.Common

/-!
# Tabulated functions

A function on machine words that is the result of many updates is evaluated through all of them, each
time it is applied.  `tabulate` makes a list of its values first, and looks them up: it is the same
function, and one that stays cheap to evaluate.  `tabulateAt` does so with the pages of a memory.
Runs of a machine whose memory is tabulated after each step can be decided.
-/

namespace Foundations

variable {n w : ℕ} {P : Type}

/-- A word is the numeral of its number. -/
theorem ofNat_eq_of_toNat_eq {x : BitVec w} {v : ℕ} (h : x.toNat = v) : BitVec.ofNat w v = x := by
  rw [← h, BitVec.ofNat_toNat, BitVec.setWidth_eq]

/-- The word itself, as a numeral. -/
def numeral (x : BitVec w) : BitVec w :=
  match x.toNat with
  | 0 => BitVec.ofNat w 0
  | v + 1 => BitVec.ofNat w (v + 1)

/-- A numeral is the word it was made of. -/
theorem numeral_eq (x : BitVec w) : numeral x = x := by
  unfold numeral
  split
  · next h => exact ofNat_eq_of_toNat_eq h
  · next v h => exact ofNat_eq_of_toNat_eq h

/-- The values of `f` at the keys that are not zero, as numerals. -/
def valuesAt (f : BitVec n → BitVec w) : List (BitVec n) → List (BitVec n × BitVec w)
  | [] => []
  | k :: ks =>
    match (f k).toNat with
    | 0 => valuesAt f ks
    | v + 1 => (k, BitVec.ofNat w (v + 1)) :: valuesAt f ks

/-- The first value listed for a key, or zero. -/
def lookupValue (k : BitVec n) : List (BitVec n × BitVec w) → BitVec w
  | [] => 0
  | (k', v) :: vs => bif Nat.beq k.toNat k'.toNat then v else lookupValue k vs

/-- Words are compared as numbers. -/
theorem beq_toNat (k k' : BitVec n) : Nat.beq k.toNat k'.toNat = decide (k = k') := by
  rw [Bool.eq_iff_iff, Nat.beq_eq, decide_eq_true_iff, BitVec.toNat_inj]

/-- At the listed keys, the values listed are those of the function. -/
theorem lookupValue_valuesAt (f : BitVec n → BitVec w) (k : BitVec n) (ks : List (BitVec n)) :
    lookupValue k (valuesAt f ks) = if k ∈ ks then f k else 0 := by
  induction ks with
  | nil => rfl
  | cons k' ks ih =>
    by_cases hkk : k = k'
    · subst hkk
      rw [if_pos List.mem_cons_self]
      unfold valuesAt
      split
      · next hv =>
        have hzero : f k = 0 := (ofNat_eq_of_toNat_eq hv).symm
        rw [ih, hzero, ite_self]
      · next v hv =>
        rw [lookupValue, beq_toNat, decide_eq_true rfl, cond_true]
        exact ofNat_eq_of_toNat_eq hv
    · have hrest : lookupValue k (valuesAt f (k' :: ks)) = lookupValue k (valuesAt f ks) := by
        rw [valuesAt]
        split
        · rfl
        · rw [lookupValue, beq_toNat, decide_eq_false hkk, cond_false]
      rw [hrest, ih]
      simp only [List.mem_cons, hkk, false_or]

/-- The function, as a table of its values at the keys. -/
def tabulate (keys : List (BitVec n)) (f : BitVec n → BitVec w) : BitVec n → BitVec w :=
  fun k => lookupValue k (valuesAt f keys)

/-- A table at all keys is the function. -/
theorem tabulate_eq {keys : List (BitVec n)} (hkeys : ∀ k, k ∈ keys) (f : BitVec n → BitVec w) :
    tabulate keys f = f :=
  funext fun k => (lookupValue_valuesAt f k keys).trans (if_pos (hkeys k))

/-- The memory whose listed pages are as `page` makes them. -/
def tabulateAt (page : P → P) (m : BitVec n → P) : List (BitVec n) → BitVec n → P
  | [], f => m f
  | g :: gs, f => bif Nat.beq f.toNat g.toNat then page (m g) else tabulateAt page m gs f

/-- When the pages stay as they are, so does the memory. -/
theorem tabulateAt_eq {page : P → P} (hpage : ∀ p, page p = p) (m : BitVec n → P)
    (frames : List (BitVec n)) : tabulateAt page m frames = m := by
  funext f
  induction frames with
  | nil => rfl
  | cons g gs ih =>
    rw [tabulateAt, beq_toNat]
    by_cases hfg : f = g
    · rw [decide_eq_true hfg, cond_true, hpage, hfg]
    · rw [decide_eq_false hfg, cond_false, ih]

end Foundations
