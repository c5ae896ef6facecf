import Umm.Foundations.Field

/-!
# Ones' complement checksums

Words of 16 bits are added with the carry added at the end; the checksum of some bytes is the
complement of the sum of their words, the last one padded with zero.  Bytes that contain their own
checksum sum up to the word of ones, and `verifies_iff` says so of the plain sum: it is a multiple of
`2 ^ 16 - 1`, and not zero.  So whether bytes still verify after one of their fields has been
replaced depends only on what is added and what is taken away.
-/

namespace Foundations

/-- The greatest word. -/
def maxWord : ℕ := 65535

/-- The sum of two words, with the carry added at the end. -/
def onesAdd (x y : ℕ) : ℕ :=
  if x + y ≤ maxWord then x + y else x + y - maxWord

/-- The words of some bytes, the most significant byte first; the last one is padded with zero. -/
def words : List UInt8 → List ℕ
  | [] => []
  | [x] => [256 * x.toNat]
  | x :: y :: rest => (256 * x.toNat + y.toNat) :: words rest

/-- The ones' complement sum of the words of some bytes. -/
def onesSum (b : List UInt8) : ℕ :=
  (words b).foldl onesAdd 0

/-- The checksum of some bytes. -/
def checksum (b : List UInt8) : ℕ :=
  maxWord - onesSum b

/-- The bytes verify: with the checksum among them, they have the checksum zero. -/
def Verifies (b : List UInt8) : Prop :=
  checksum b = 0

instance (b : List UInt8) : Decidable (Verifies b) :=
  inferInstanceAs (Decidable (_ = _))

/-- The plain sum of the words of some bytes. -/
def wordSum : List UInt8 → ℕ
  | [] => 0
  | [x] => 256 * x.toNat
  | x :: y :: rest => 256 * x.toNat + y.toNat + wordSum rest

section Sums

variable {a b v : List UInt8} {f : Field}

theorem onesAdd_le {x y : ℕ} (hx : x ≤ maxWord) (hy : y ≤ maxWord) : onesAdd x y ≤ maxWord := by
  unfold onesAdd
  split_ifs <;> omega

/-- The carry does not change the remainder. -/
theorem onesAdd_mod (x y : ℕ) : onesAdd x y % maxWord = (x + y) % maxWord := by
  unfold onesAdd
  split_ifs with h
  · rfl
  · rw [← Nat.mod_eq_sub_mod (by omega)]

theorem onesAdd_eq_zero_iff {x y : ℕ} : onesAdd x y = 0 ↔ x + y = 0 := by
  unfold onesAdd
  split_ifs <;> omega

/-- A sum of words is a word, with the remainder of the plain sum; it is zero when that is. -/
theorem onesSum_spec (b : List UInt8) : onesSum b ≤ maxWord ∧
    onesSum b % maxWord = wordSum b % maxWord ∧ (onesSum b = 0 ↔ wordSum b = 0) := by
  suffices hfrom : ∀ acc ≤ maxWord, (words b).foldl onesAdd acc ≤ maxWord ∧
      (words b).foldl onesAdd acc % maxWord = (acc + wordSum b) % maxWord ∧
      ((words b).foldl onesAdd acc = 0 ↔ acc + wordSum b = 0) by
    have h := hfrom 0 (Nat.zero_le _)
    rwa [Nat.zero_add] at h
  have hstep : ∀ acc w rest, acc ≤ maxWord → w ≤ maxWord →
      (∀ acc ≤ maxWord, (words rest).foldl onesAdd acc ≤ maxWord ∧
        (words rest).foldl onesAdd acc % maxWord = (acc + wordSum rest) % maxWord ∧
        ((words rest).foldl onesAdd acc = 0 ↔ acc + wordSum rest = 0)) →
      (words rest).foldl onesAdd (onesAdd acc w) ≤ maxWord ∧
        (words rest).foldl onesAdd (onesAdd acc w) % maxWord =
          (acc + (w + wordSum rest)) % maxWord ∧
        ((words rest).foldl onesAdd (onesAdd acc w) = 0 ↔ acc + (w + wordSum rest) = 0) := by
    intro acc w rest hacc hw ih
    obtain ⟨hle, hmod, hzero⟩ := ih (onesAdd acc w) (onesAdd_le hacc hw)
    have hadd := onesAdd_eq_zero_iff (x := acc) (y := w)
    refine ⟨hle, ?_, hzero.trans (by omega)⟩
    rw [hmod, ← Nat.add_assoc, Nat.add_mod, onesAdd_mod, ← Nat.add_mod]
  have hbyte : ∀ x : UInt8, x.toNat < 256 := fun x => x.toNat_lt
  induction b using words.induct with
  | case1 =>
    intro acc hacc
    exact ⟨hacc, rfl, Iff.rfl⟩
  | case2 x =>
    intro acc hacc
    have hx := hbyte x
    exact hstep acc (256 * x.toNat) [] hacc (by unfold maxWord; omega)
      fun acc hacc => ⟨hacc, rfl, Iff.rfl⟩
  | case3 x y rest ih =>
    intro acc hacc
    have hx := hbyte x
    have hy := hbyte y
    exact hstep acc (256 * x.toNat + y.toNat) rest hacc (by unfold maxWord; omega) ih

/-- Bytes verify when the plain sum of their words is a multiple of the greatest word. -/
theorem verifies_iff : Verifies b ↔ wordSum b ≠ 0 ∧ wordSum b % maxWord = 0 := by
  obtain ⟨hle, hmod, hzero⟩ := onesSum_spec b
  unfold Verifies checksum
  rw [← hmod]
  constructor
  · intro h
    have hones : onesSum b = maxWord := by omega
    exact ⟨fun hsum => (by have := hzero.mpr hsum; unfold maxWord at hones; omega),
      by rw [hones, Nat.mod_self]⟩
  · rintro ⟨hne, hrem⟩
    have hpos : onesSum b ≠ 0 := fun h => hne (hzero.mp h)
    have hle' : maxWord ≤ onesSum b := Nat.le_of_dvd (Nat.pos_of_ne_zero hpos)
      (Nat.dvd_of_mod_eq_zero hrem)
    omega

/-- The words of two parts, the first of which has whole words. -/
theorem wordSum_append (ha : a.length % 2 = 0) : wordSum (a ++ b) = wordSum a + wordSum b := by
  induction a using words.induct with
  | case1 => simp [wordSum]
  | case2 x => simp at ha
  | case3 x y rest ih =>
    have hrest : rest.length % 2 = 0 := by
      rw [List.length_cons, List.length_cons] at ha
      omega
    simp only [List.cons_append, wordSum, ih hrest]
    omega

/-- A field of whole words adds what it holds to the sum. -/
theorem wordSum_write (hoffset : f.offset % 2 = 0) (hsize : f.size % 2 = 0)
    (hv : v.length = f.size) (hb : f.stop ≤ b.length) :
    wordSum (f.write v b) + wordSum (f.read b) = wordSum b + wordSum v := by
  have htake : (b.take f.offset).length % 2 = 0 := by
    rw [List.length_take, Nat.min_eq_left (Nat.le_trans (Nat.le_add_right _ _) hb)]
    exact hoffset
  have hread : (f.read b).length % 2 = 0 := by
    rw [Field.length_read hb]
    exact hsize
  have hsplit : ∀ w : List UInt8, w.length % 2 = 0 →
      wordSum (f.write w b) = wordSum (b.take f.offset) + wordSum w + wordSum (b.drop f.stop) := by
    intro w hw
    rw [Field.write, List.append_assoc, wordSum_append htake, wordSum_append hw, Nat.add_assoc]
  have hself := hsplit (f.read b) hread
  rw [Field.write_read] at hself
  rw [hsplit v (by rw [hv]; exact hsize), hself]
  omega

/-- Bytes verify when their checksum has been added to their sum. -/
theorem verifies_of_wordSum_eq (h : wordSum b = wordSum a + checksum a) : Verifies b := by
  obtain ⟨hle, hmod, hzero⟩ := onesSum_spec a
  rw [checksum] at h
  rw [verifies_iff, h]
  constructor
  · intro hsum
    have := hzero.mpr (by omega)
    unfold maxWord at hsum
    omega
  · rw [Nat.add_mod, ← hmod, ← Nat.add_mod, Nat.add_sub_cancel' hle, Nat.mod_self]

end Sums

end Foundations
