import Mathlib.Data.List.Basic
import Mathlib.Tactic.Common

/-!
# Fields of a buffer

A `Field` is a range of positions of a buffer.  `read` and `write` are the two accesses to it; a
write to a field that lies in the buffer keeps the length, is what a read of the field returns, and
changes no field that is apart from it.
-/

namespace Foundations

variable {α : Type*}

/-- A range of positions of a buffer. -/
structure Field where
  /-- The first position. -/
  offset : ℕ
  /-- The number of positions. -/
  size : ℕ
deriving DecidableEq, Repr

namespace Field

/-- The position after the last one. -/
def stop (f : Field) : ℕ :=
  f.offset + f.size

/-- The content of the field. -/
def read (f : Field) (b : List α) : List α :=
  (b.drop f.offset).take f.size

/-- Replace the content of the field. -/
def write (f : Field) (v b : List α) : List α :=
  b.take f.offset ++ v ++ b.drop f.stop

/-- The fields have no position in common. -/
def Apart (f g : Field) : Prop :=
  f.stop ≤ g.offset ∨ g.stop ≤ f.offset

instance (f g : Field) : Decidable (f.Apart g) :=
  inferInstanceAs (Decidable (_ ∨ _))

variable {f g : Field} {b v w : List α}

theorem Apart.symm (h : f.Apart g) : g.Apart f :=
  Or.symm h

/-- The length of a field that lies in the buffer. -/
theorem length_read (hb : f.stop ≤ b.length) : (f.read b).length = f.size := by
  rw [read, List.length_take, List.length_drop]
  rw [stop] at hb
  omega

@[simp] theorem length_write (hv : v.length = f.size) (hb : f.stop ≤ b.length) :
    (f.write v b).length = b.length := by
  rw [write, List.length_append, List.length_append, List.length_take, List.length_drop, hv]
  rw [stop] at hb ⊢
  omega

/-- The positions of a field. -/
theorem getElem?_read (i : ℕ) :
    (f.read b)[i]? = if i < f.size then b[f.offset + i]? else none := by
  rw [read, List.getElem?_take]
  split_ifs
  · rw [List.getElem?_drop]
  · rfl

/-- The positions of the buffer after a write. -/
theorem getElem?_write (hv : v.length = f.size) (hb : f.stop ≤ b.length) (i : ℕ) :
    (f.write v b)[i]? =
      if f.offset ≤ i ∧ i < f.stop then v[i - f.offset]? else b[i]? := by
  have htake : (b.take f.offset).length = f.offset := by
    rw [List.length_take]
    rw [stop] at hb
    omega
  rw [write, List.append_assoc, List.getElem?_append, htake]
  by_cases hi : i < f.offset
  · rw [if_pos hi, if_neg (by omega), List.getElem?_take_of_lt hi]
  rw [if_neg hi, List.getElem?_append, hv]
  by_cases hstop : i < f.stop
  · rw [if_pos (by rw [stop] at hstop; omega), if_pos ⟨by omega, hstop⟩]
  · rw [if_neg (by rw [stop] at hstop; omega), if_neg fun h => hstop h.2, List.getElem?_drop]
    congr 1
    rw [stop] at hstop ⊢
    omega

/-- A read of the field that has been written. -/
theorem read_write (hv : v.length = f.size) (hb : f.stop ≤ b.length) :
    f.read (f.write v b) = v := by
  apply List.ext_getElem?
  intro i
  rw [getElem?_read]
  split_ifs with hi
  · rw [getElem?_write hv hb, if_pos ⟨by omega, by rw [stop]; omega⟩, Nat.add_sub_cancel_left]
  · rw [List.getElem?_eq_none (by omega)]

/-- A read of another field. -/
theorem read_write_of_apart (h : f.Apart g) (hv : v.length = f.size) (hb : f.stop ≤ b.length) :
    g.read (f.write v b) = g.read b := by
  apply List.ext_getElem?
  intro i
  rw [getElem?_read, getElem?_read]
  split_ifs with hi
  · rw [getElem?_write hv hb, if_neg]
    rintro ⟨hle, hlt⟩
    rcases h with h | h
    · omega
    · rw [stop] at h
      omega
  · rfl

/-- A read of a part of the field that has been written. -/
theorem read_write_of_within (hle : f.offset ≤ g.offset) (hstop : g.stop ≤ f.stop)
    (hv : v.length = f.size) (hb : f.stop ≤ b.length) :
    g.read (f.write v b) = (v.drop (g.offset - f.offset)).take g.size := by
  apply List.ext_getElem?
  intro i
  rw [getElem?_read, List.getElem?_take]
  split_ifs with hi
  · have hin : f.offset ≤ g.offset + i ∧ g.offset + i < f.stop := by
      rw [stop] at hstop
      omega
    rw [getElem?_write hv hb, if_pos hin, List.getElem?_drop]
    congr 1
    omega
  · rfl

/-- Writing what is there changes nothing. -/
theorem write_read (f : Field) (b : List α) : f.write (f.read b) b = b := by
  rw [write, read, List.append_assoc, stop, ← List.drop_drop, List.take_append_drop,
    List.take_append_drop]

theorem write_of_read (h : f.read b = v) : f.write v b = b := by
  rw [← h, write_read]

/-- The second of two writes to a field counts. -/
theorem write_write (hw : w.length = f.size) (hb : f.stop ≤ b.length) :
    f.write v (f.write w b) = f.write v b := by
  have htake : (b.take f.offset).length = f.offset := by
    rw [List.length_take]
    rw [stop] at hb
    omega
  have hstop : f.stop = (b.take f.offset ++ w).length := by rw [List.length_append, htake, hw, stop]
  have hleft : (f.write w b).take f.offset = b.take f.offset := by
    rw [write, List.append_assoc]
    exact List.take_left' htake
  have hright : (f.write w b).drop f.stop = b.drop f.stop :=
    List.drop_left' hstop.symm
  rw [write, hleft, hright, write]

/-- Writes to two fields that are apart can be made in either order. -/
theorem write_comm (h : f.Apart g) (hv : v.length = f.size) (hw : w.length = g.size)
    (hf : f.stop ≤ b.length) (hg : g.stop ≤ b.length) :
    f.write v (g.write w b) = g.write w (f.write v b) := by
  have hfg : f.stop ≤ (g.write w b).length := by rwa [length_write hw hg]
  have hgf : g.stop ≤ (f.write v b).length := by rwa [length_write hv hf]
  apply List.ext_getElem?
  intro i
  rw [getElem?_write hv hfg, getElem?_write hw hg, getElem?_write hw hgf, getElem?_write hv hf]
  have hdisjoint : ¬ ((f.offset ≤ i ∧ i < f.stop) ∧ g.offset ≤ i ∧ i < g.stop) := by
    rcases h with h | h <;> omega
  split_ifs with h₁ h₂
  · exact absurd ⟨h₁, h₂⟩ hdisjoint
  · rfl
  · rfl
  · rfl

/-- What comes after the field. -/
theorem drop_write_of_le {n : ℕ} (hn : f.stop ≤ n) (hv : v.length = f.size)
    (hb : f.stop ≤ b.length) : (f.write v b).drop n = b.drop n := by
  apply List.ext_getElem?
  intro i
  rw [List.getElem?_drop, List.getElem?_drop, getElem?_write hv hb, if_neg (by omega)]

/-- The field in what is left of the buffer when its first `n` positions are gone. -/
def shift (f : Field) (n : ℕ) : Field :=
  ⟨f.offset - n, f.size⟩

theorem read_drop {n : ℕ} (hn : n ≤ f.offset) : (f.shift n).read (b.drop n) = f.read b := by
  rw [read, read, shift, List.drop_drop, Nat.add_sub_cancel' hn]

theorem drop_write {n : ℕ} (hn : n ≤ f.offset) (hv : v.length = f.size) (hb : f.stop ≤ b.length) :
    (f.write v b).drop n = (f.shift n).write v (b.drop n) := by
  have hfits : (f.shift n).stop ≤ (b.drop n).length := by
    rw [List.length_drop]
    simp only [stop, shift] at hb ⊢
    omega
  apply List.ext_getElem?
  intro i
  have hvs : v.length = (f.shift n).size := hv
  rw [List.getElem?_drop, getElem?_write hv hb, getElem?_write hvs hfits,
    List.getElem?_drop]
  have hiff : (f.offset ≤ n + i ∧ n + i < f.stop) ↔
      (f.shift n).offset ≤ i ∧ i < (f.shift n).stop := by
    simp only [stop, shift]
    omega
  by_cases hi : f.offset ≤ n + i ∧ n + i < f.stop
  · rw [if_pos hi, if_pos (hiff.mp hi)]
    congr 1
    simp only [shift]
    omega
  · rw [if_neg hi, if_neg fun h => hi (hiff.mpr h)]

/-- A field of the first part of a buffer. -/
theorem read_append (hb : f.stop ≤ b.length) (c : List α) : f.read (b ++ c) = f.read b := by
  rw [stop] at hb
  rw [read, read, List.drop_append_of_le_length (by omega),
    List.take_append_of_le_length (by rw [List.length_drop]; omega)]

/-- A write to the first part of a buffer. -/
theorem write_append (hb : f.stop ≤ b.length) (c : List α) :
    f.write v (b ++ c) = f.write v b ++ c := by
  have hoffset : f.offset ≤ b.length := Nat.le_trans (Nat.le_add_right _ _) hb
  rw [write, write, List.take_append_of_le_length hoffset, List.drop_append_of_le_length hb]
  simp only [List.append_assoc]

end Field

end Foundations
