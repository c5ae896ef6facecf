import Mathlib.Data.BitVec
import Mathlib.Logic.Function.Basic
import Mathlib.Tactic.Common

/-!
# Changes of the privilege level in 64-bit mode

What SYSCALL, SYSRET and IRET do to the registers of an x86-64 processor in 64-bit mode.  They read
the model-specific registers and the global descriptor table, and a fault is `none`.  The stack is
in a memory of bytes.

Each instruction has a rule for when it does not fault, and the words that are pushed on the stack are
read back as long as their bytes are kept.
-/

namespace Foundations

namespace X64

/-! ## Registers -/

/-- The registers that the instructions below use. -/
structure Registers where
  /-- The address of the next instruction. -/
  rip : BitVec 64
  /-- The stack pointer. -/
  rsp : BitVec 64
  /-- The flags. -/
  rflags : BitVec 64
  /-- A general register. -/
  rcx : BitVec 64
  /-- A general register. -/
  r11 : BitVec 64
  /-- The selector of the code segment. -/
  cs : BitVec 16
  /-- The selector of the stack segment. -/
  ss : BitVec 16

/-- The current privilege level. -/
def Registers.cpl (r : Registers) : BitVec 2 :=
  r.cs.extractLsb' 0 2

/-- The bits from 47 on are equal. -/
def Canonical (a : BitVec 64) : Prop :=
  a.extractLsb' 47 17 = 0 ∨ a.extractLsb' 47 17 = BitVec.allOnes 17

instance (a : BitVec 64) : Decidable (Canonical a) :=
  inferInstanceAs (Decidable (_ ∨ _))

/-- The model-specific registers, by their numbers. -/
abbrev Msrs := BitVec 32 → BitVec 64

/-- `IA32_EFER`. -/
def ia32Efer : BitVec 32 := 0xC0000080

/-- `IA32_STAR`. -/
def ia32Star : BitVec 32 := 0xC0000081

/-- `IA32_LSTAR`. -/
def ia32Lstar : BitVec 32 := 0xC0000082

/-- `IA32_FMASK`. -/
def ia32Fmask : BitVec 32 := 0xC0000084

/-- RDMSR: the high and the low half of a register. -/
def rdmsr (m : Msrs) (i : BitVec 32) : BitVec 32 × BitVec 32 :=
  ((m i).extractLsb' 32 32, (m i).extractLsb' 0 32)

/-- WRMSR. -/
def wrmsr (m : Msrs) (i hi lo : BitVec 32) : Msrs :=
  Function.update m i (hi ++ lo)

section Msrs

variable {m : Msrs} {i j hi lo : BitVec 32}

@[simp] theorem wrmsr_self : wrmsr m i hi lo i = hi ++ lo := Function.update_self ..

theorem wrmsr_of_ne (h : j ≠ i) : wrmsr m i hi lo j = m j := Function.update_of_ne h ..

/-- What was written is read back. -/
@[simp] theorem rdmsr_wrmsr : rdmsr (wrmsr m i hi lo) i = (hi, lo) := by
  rw [rdmsr, wrmsr_self, BitVec.extractLsb'_append_eq_left, BitVec.extractLsb'_append_eq_right]

/-- The other registers are kept. -/
theorem rdmsr_wrmsr_of_ne (h : j ≠ i) : rdmsr (wrmsr m i hi lo) j = rdmsr m j := by
  rw [rdmsr, wrmsr_of_ne h, rdmsr]

end Msrs

/-! ## Segment descriptors -/

/-- The table of the segment descriptors, by their indices. -/
abbrev Gdt := BitVec 16 → BitVec 64

/-- The descriptor is that of a segment, is present and has the privilege level. -/
def IsSegmentOf (d : BitVec 64) (dpl : BitVec 2) : Prop :=
  d.getLsbD 44 = true ∧ d.extractLsb' 45 2 = dpl ∧ d.getLsbD 47 = true

/-- A code segment of 64-bit mode that is not conforming. -/
def IsCodeOf (d : BitVec 64) (dpl : BitVec 2) : Prop :=
  IsSegmentOf d dpl ∧ d.extractLsb' 42 2 = 2 ∧ d.extractLsb' 53 2 = 1

/-- A writable data segment. -/
def IsDataOf (d : BitVec 64) (dpl : BitVec 2) : Prop :=
  IsSegmentOf d dpl ∧ d.getLsbD 43 = false ∧ d.getLsbD 41 = true

instance (d : BitVec 64) (dpl : BitVec 2) : Decidable (IsSegmentOf d dpl) :=
  inferInstanceAs (Decidable (_ ∧ _ ∧ _))

instance (d : BitVec 64) (dpl : BitVec 2) : Decidable (IsCodeOf d dpl) :=
  inferInstanceAs (Decidable (_ ∧ _ ∧ _))

instance (d : BitVec 64) (dpl : BitVec 2) : Decidable (IsDataOf d dpl) :=
  inferInstanceAs (Decidable (_ ∧ _ ∧ _))

/-- The segments of a frame that IRET can load: both are in the table, with the requested privilege
level. -/
def LoadsSegments (gdt : Gdt) (f : Registers) : Prop :=
  f.cs.getLsbD 2 = false ∧ f.ss.getLsbD 2 = false ∧ f.ss.extractLsb' 0 2 = f.cpl ∧
    IsCodeOf (gdt (f.cs >>> 3)) f.cpl ∧ IsDataOf (gdt (f.ss >>> 3)) f.cpl

instance (gdt : Gdt) (f : Registers) : Decidable (LoadsSegments gdt f) :=
  inferInstanceAs (Decidable (_ ∧ _ ∧ _ ∧ _ ∧ _))

/-! ## Instructions -/

/-- SYSCALL. -/
def syscall (m : Msrs) (r : Registers) : Option Registers :=
  if (m ia32Efer).getLsbD 0 then
    let selector := (m ia32Star).extractLsb' 32 16
    some { r with
      rip := m ia32Lstar
      rflags := r.rflags &&& ~~~(m ia32Fmask)
      rcx := r.rip
      r11 := r.rflags
      cs := selector &&& 0xFFFC
      ss := selector + 8 }
  else none

/-- The flags as SYSRET restores them. -/
def sysretFlags (flags : BitVec 64) : BitVec 64 :=
  (flags &&& 0x3C7FD7) ||| 2

/-- SYSRET to 64-bit mode. -/
def sysret (m : Msrs) (r : Registers) : Option Registers :=
  if (m ia32Efer).getLsbD 0 ∧ r.cpl = 0 ∧ Canonical r.rcx then
    let selector := (m ia32Star).extractLsb' 48 16
    some { r with
      rip := r.rcx
      rflags := sysretFlags r.r11
      cs := (selector + 16) ||| 3
      ss := (selector + 8) ||| 3 }
  else none

/-- IRET from the highest privilege level, with the frame `f`. -/
def iret (gdt : Gdt) (f : Registers) : Option Registers :=
  if LoadsSegments gdt f ∧ Canonical f.rip then some f else none

section Instructions

variable {m : Msrs} {gdt : Gdt} {r q : Registers}

theorem syscall_eq_some : syscall m r = some q ↔ (m ia32Efer).getLsbD 0 = true ∧ q =
    { r with
      rip := m ia32Lstar
      rflags := r.rflags &&& ~~~(m ia32Fmask)
      rcx := r.rip
      r11 := r.rflags
      cs := (m ia32Star).extractLsb' 32 16 &&& 0xFFFC
      ss := (m ia32Star).extractLsb' 32 16 + 8 } := by
  constructor
  · intro h
    unfold syscall at h
    split_ifs at h with hsce
    exact ⟨hsce, (Option.some.inj h).symm⟩
  · rintro ⟨hsce, rfl⟩
    exact if_pos hsce

/-- The target of a SYSCALL runs with the highest privilege. -/
theorem cpl_of_syscall (h : syscall m r = some q) : q.cpl = 0 := by
  obtain ⟨-, rfl⟩ := syscall_eq_some.mp h
  change ((m ia32Star).extractLsb' 32 16 &&& 0xFFFC).extractLsb' 0 2 = 0
  rw [BitVec.extractLsb'_and]
  exact BitVec.and_zero

theorem sysret_of_canonical (hsce : (m ia32Efer).getLsbD 0 = true) (hcpl : r.cpl = 0)
    (hrcx : Canonical r.rcx) : sysret m r = some
      { r with
        rip := r.rcx
        rflags := sysretFlags r.r11
        cs := ((m ia32Star).extractLsb' 48 16 + 16) ||| 3
        ss := ((m ia32Star).extractLsb' 48 16 + 8) ||| 3 } :=
  if_pos ⟨hsce, hcpl, hrcx⟩

theorem iret_of_loads (hsegments : LoadsSegments gdt r) (hrip : Canonical r.rip) :
    iret gdt r = some r :=
  if_pos ⟨hsegments, hrip⟩

end Instructions

/-! ## The stack -/

/-- A memory of bytes. -/
abbrev Memory := BitVec 64 → BitVec 8

/-- The word at `a`, whose lowest byte comes first. -/
def readWord (mem : Memory) (a : BitVec 64) : BitVec 64 :=
  mem (a + 7) ++ mem (a + 6) ++ mem (a + 5) ++ mem (a + 4) ++ mem (a + 3) ++ mem (a + 2) ++
    mem (a + 1) ++ mem a

/-- Write the word `v` at `a`. -/
def writeWord (mem : Memory) (a v : BitVec 64) : Memory := fun x =>
  if (x - a).toNat < 8 then v.extractLsb' (8 * (x - a).toNat) 8 else mem x

/-- PUSH. -/
def push (r : Registers) (mem : Memory) (v : BitVec 64) : Registers × Memory :=
  ({ r with rsp := r.rsp - 8 }, writeWord mem (r.rsp - 8) v)

/-- POP. -/
def pop (r : Registers) (mem : Memory) : BitVec 64 × Registers :=
  (readWord mem r.rsp, { r with rsp := r.rsp + 8 })

/-- The address is one of the `n` from `a` on. -/
def Within (a : BitVec 64) (n : ℕ) (x : BitVec 64) : Prop :=
  (x - a).toNat < n

section Stack

variable {mem mem' : Memory} {a v x : BitVec 64}

/-- The upper half of sixteen bytes. -/
theorem within_add_eight (h : Within (a + 8) 8 x) : Within a 16 x ∧ ¬ Within a 8 x := by
  unfold Within at *
  have hsub : x - a = x - (a + 8) + 8 := by
    rw [← sub_sub, sub_add_cancel]
  have hadd : (x - a).toNat = (x - (a + 8)).toNat + 8 := by
    rw [hsub, BitVec.toNat_add_of_lt]
    · rfl
    · exact Nat.lt_trans (Nat.add_lt_add_right h 8) (by decide)
  omega

theorem within_sixteen (h : Within a 8 x) : Within a 16 x :=
  Nat.lt_trans h (by decide)

theorem writeWord_of_not_within (h : ¬ Within a 8 x) : writeWord mem a v x = mem x :=
  if_neg h

/-- A word is read from eight bytes. -/
theorem readWord_congr (h : ∀ x, Within a 8 x → mem x = mem' x) :
    readWord mem a = readWord mem' a := by
  have hat : ∀ i : BitVec 64, i.toNat < 8 → mem (a + i) = mem' (a + i) := by
    intro i hi
    refine h _ ?_
    rwa [Within, add_sub_cancel_left]
  have hzero := hat 0 (by decide)
  rw [add_zero] at hzero
  rw [readWord, readWord, hat 7 (by decide), hat 6 (by decide), hat 5 (by decide),
    hat 4 (by decide), hat 3 (by decide), hat 2 (by decide), hat 1 (by decide), hzero]

/-- A word that was written is read back. -/
theorem readWord_writeWord : readWord (writeWord mem a v) a = v := by
  have hat : ∀ i : BitVec 64, i.toNat < 8 →
      writeWord mem a v (a + i) = v.extractLsb' (8 * i.toNat) 8 := by
    intro i hi
    rw [writeWord, add_sub_cancel_left, if_pos hi]
  have hzero := hat 0 (by decide)
  rw [add_zero] at hzero
  rw [readWord, hat 7 (by decide), hat 6 (by decide), hat 5 (by decide), hat 4 (by decide),
    hat 3 (by decide), hat 2 (by decide), hat 1 (by decide), hzero]
  have hjoin : ∀ i n, v.extractLsb' (i + 8) n ++ v.extractLsb' i 8 = v.extractLsb' i (n + 8) :=
    fun i n => BitVec.extractLsb'_append_extractLsb'_eq_extractLsb' rfl
  change v.extractLsb' 56 8 ++ v.extractLsb' 48 8 ++ v.extractLsb' 40 8 ++ v.extractLsb' 32 8 ++
    v.extractLsb' 24 8 ++ v.extractLsb' 16 8 ++ v.extractLsb' 8 8 ++ v.extractLsb' 0 8 = v
  rw [hjoin 48 8, hjoin 40 16, hjoin 32 24, hjoin 24 32, hjoin 16 40, hjoin 8 48, hjoin 0 56]
  exact BitVec.extractLsb'_eq_self

end Stack

end X64

end Foundations
