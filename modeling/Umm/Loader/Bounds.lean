import Umm.Loader.Sections

/-!
# The section headers that are read

The inner loop of the loader increments its index before it reads, and its condition is about the
index before.  Behind the last section of the table it therefore reads one more header, and a run of
specially named sections takes it there as well.  The header of the names is read wherever
`e_shstrndx` says that it is.

`HeadersExist` says what tables must be like for the loader to read only headers that exist.
-/

namespace Umm

open Foundations

namespace ElfLoader

/-- The state in which the loader has returned or stopped. -/
def lastState {α : Type} (state : α → LoadState) : LoadResult α → LoadState
  | .ok a => state a
  | .error e => e.2

namespace Elf

variable (debug : Bool) (elf : Elf)

/-- An assertion stops the loader before it comes to the section. -/
def StopsBefore (i : ℕ) : Prop :=
  debug = true ∧ ∃ b < i, elf.GetsRegion b ∧ ¬ elf.Absorbed b ∧ ¬ elf.Aligned b

/-- What the loader needs to read only headers in the table. -/
structure HeadersExist : Prop where
  /-- If a name is looked up, the section of the names is in the table. -/
  names : ∀ i < elf.shnum, elf.LooksUp debug i → ¬ elf.StopsBefore debug i →
    elf.shstrndx < elf.shnum
  /-- If there are names, a section that gets a region is followed by one in the table that ends the
  inner loop. -/
  runs : elf.strTab ≠ 0 → ∀ b < elf.shnum, elf.GetsRegion b → ¬ elf.StopsBefore debug (b + 1) →
    ∃ i, b < i ∧ i < elf.shnum ∧ elf.special i = false

variable {debug elf}

theorem StopsBefore.mono {i j : ℕ} (h : elf.StopsBefore debug i) (hij : i ≤ j) :
    elf.StopsBefore debug j := by
  obtain ⟨hdebug, b, hb, hstops⟩ := h
  exact ⟨hdebug, b, by omega, hstops⟩

/-- The loader comes to the section behind one that it passes over or makes a region of. -/
theorem not_stopsBefore_succ {i : ℕ} (h : ¬ elf.StopsBefore debug i)
    (hi : elf.GetsRegion i → debug = true → elf.Aligned i) : ¬ elf.StopsBefore debug (i + 1) := by
  rintro ⟨hdebug, b, hb, hregion, habsorbed, haligned⟩
  rcases Nat.lt_or_eq_of_le (Nat.le_of_lt_succ hb) with hlt | rfl
  · exact h ⟨hdebug, b, hlt, hregion, habsorbed, haligned⟩
  · exact haligned (hi hregion hdebug)

end Elf

open Elf

variable {debug : Bool} {elf : Elf} {i k : ℕ} {st st' : LoadState} {r : LoadResult LoadState}

/-! ## Where the loop comes to -/

/-- Behind a run, the loop comes to a section that is not absorbed. -/
theorem Elf.SpecialRun.not_absorbed (h : elf.SpecialRun (elf.shnum - i) i k)
    (hk : i + k + 1 < elf.shnum) : ¬ elf.Absorbed (i + k + 1) := by
  intro habsorbed
  have hspecial := habsorbed.of_succ.1
  rw [h.stop (by omega)] at hspecial
  cases hspecial

/-- A run that is not ended in the table goes to its end. -/
theorem Elf.SpecialRun.lt_of_end (h : elf.SpecialRun (elf.shnum - i) i k) {j : ℕ} (hij : i < j)
    (hend : elf.special j = false) : i + k < j := by
  by_contra hle
  rw [h.special j hij (by omega)] at hend
  cases hend

/-- The section behind one that is passed over is not absorbed. -/
theorem not_absorbed_succ (h : ¬ elf.Absorbed i) (hregion : ¬ elf.GetsRegion i) :
    ¬ elf.Absorbed (i + 1) :=
  fun habsorbed => habsorbed.of_succ.2.elim hregion h

/-- Between the sections of a run, nothing stops the loader. -/
theorem Elf.SpecialRun.not_stopsBefore (h : elf.SpecialRun (elf.shnum - i) i k)
    (hregion : elf.GetsRegion i) (hstops : ¬ elf.StopsBefore debug (i + 1)) :
    ¬ elf.StopsBefore debug (i + k + 1) := by
  rintro ⟨hdebug, b, hb, hb', habsorbed, haligned⟩
  by_cases hbi : b ≤ i
  · exact hstops ⟨hdebug, b, by omega, hb', habsorbed, haligned⟩
  · exact habsorbed ⟨i, by omega, hregion, fun j h1 h2 => h.special j h1 (by omega)⟩

/-- What has been read stays in the log. -/
theorem LoopRun.reads_mono (h : LoopRun debug elf i st r) {j : ℕ} (hj : j ∈ st.reads) :
    j ∈ (lastState id r).reads := by
  induction h with
  | done i st hi => exact hj
  | stop i st e hi hstep =>
    cases hstep with
    | noNames st' _ _ hread => exact (hread.reads j).mpr (Or.inl hj)
    | misaligned st' _ _ _ hread => exact (hread.reads j).mpr (Or.inl hj)
  | next i st i' st' r hi hstep hrest ih =>
    refine ih ?_
    cases hstep with
    | skip st' _ hread => exact (hread.reads j).mpr (Or.inl hj)
    | add k st' _ _ _ _ _ _ hread => exact (hread j).mpr (Or.inl hj)

/-! ## Headers in the table -/

/-- If the headers exist, only these are read. -/
theorem LoopRun.reads_lt (h : LoopRun debug elf i st r) (hexist : elf.HeadersExist debug)
    (habsorbed : i < elf.shnum → ¬ elf.Absorbed i) (hstops : ¬ elf.StopsBefore debug i)
    (hreads : ∀ j ∈ st.reads, j < elf.shnum) : ∀ j ∈ (lastState id r).reads, j < elf.shnum := by
  induction h with
  | done i st hi => exact hreads
  | stop i st e hi hstep =>
    cases hstep with
    | noNames st' _ hlooks hread =>
      intro j hj
      rcases (hread.reads j).mp hj with hj | rfl | rfl
      · exact hreads j hj
      · exact hi
      · exact hexist.names i hi hlooks hstops
    | misaligned st' _ hregion _ hread =>
      intro j hj
      rcases (hread.reads j).mp hj with hj | rfl | ⟨htype, rfl⟩
      · exact hreads j hj
      · exact hi
      · exact hexist.names i hi ⟨hregion.1, Or.inl htype⟩ hstops
  | next i st i' st' r hi hstep hrest ih =>
    cases hstep with
    | skip st' hregion hread =>
      refine ih (fun _ => not_absorbed_succ (habsorbed hi) hregion)
        (not_stopsBefore_succ hstops fun h => absurd h hregion) fun j hj => ?_
      rcases (hread.reads j).mp hj with hj | rfl | ⟨hsize, htype, rfl⟩
      · exact hreads j hj
      · exact hi
      · exact hexist.names i hi ⟨hsize, Or.inl htype⟩ hstops
    | add k st' hnames hregion haligned hrun hlist hnext hread =>
      have hstops' := not_stopsBefore_succ hstops fun _ => haligned
      obtain ⟨e, hie, he, hend⟩ := hexist.runs hnames i hi hregion hstops'
      have hke := hrun.lt_of_end hie hend
      refine ih (fun hlt => hrun.not_absorbed hlt) (hrun.not_stopsBefore hregion hstops')
        fun j hj => ?_
      rcases (hread j).mp hj with hj | rfl | rfl | ⟨-, hj, -⟩
      · exact hreads j hj
      · exact hi
      · exact hexist.names i hi ⟨hregion.1, Or.inr ⟨hregion.2.2, haligned⟩⟩ hstops
      · omega

/-- If a name is looked up, the header of the names is read. -/
theorem LoopRun.shstrndx_mem (h : LoopRun debug elf i st r) {j : ℕ} (hij : i ≤ j)
    (hj : j < elf.shnum) (hlooks : elf.LooksUp debug j) (hstops : ¬ elf.StopsBefore debug j)
    (habsorbed : ¬ elf.Absorbed i) : elf.shstrndx ∈ (lastState id r).reads := by
  induction h with
  | done i st hi => omega
  | stop i st e hi hstep =>
    cases hstep with
    | noNames st' _ _ hread => exact (hread.reads _).mpr (Or.inr (Or.inr rfl))
    | misaligned st' hdebug hregion haligned hread =>
      rcases Nat.lt_or_eq_of_le hij with hlt | rfl
      · exact absurd ⟨hdebug, i, hlt, hregion, habsorbed, haligned⟩ hstops
      · rcases hlooks.2 with htype | ⟨-, halign⟩
        · exact (hread.reads _).mpr (Or.inr (Or.inr ⟨htype, rfl⟩))
        · exact absurd (halign hdebug) haligned
  | next i st i' st' r hi hstep hrest ih =>
    cases hstep with
    | skip st' hregion hread =>
      by_cases htype : (elf.sht i).shSize ≠ 0 ∧ elf.NamedByType i
      · exact hrest.reads_mono ((hread.reads _).mpr (Or.inr (Or.inr ⟨htype.1, htype.2, rfl⟩)))
      rcases Nat.lt_or_eq_of_le hij with hlt | rfl
      · exact ih hlt (not_absorbed_succ habsorbed hregion)
      · -- a section that is passed over without a look at its name does not look it up
        refine absurd ⟨hlooks.1, fun hsymbols => htype ⟨hlooks.1, ?_⟩, ?_⟩ hregion
        · exact hsymbols.imp And.left And.left
        · rcases hlooks.2 with htype' | ⟨halloc, -⟩
          · exact absurd ⟨hlooks.1, htype'⟩ htype
          · exact halloc
    | add k st' _ _ _ _ _ _ hread =>
      exact hrest.reads_mono ((hread _).mpr (Or.inr (Or.inr (Or.inl rfl))))

/-- If nothing ends a run, the header behind the table is read. -/
theorem LoopRun.shnum_mem (h : LoopRun debug elf i st r) (hnames : elf.strTab ≠ 0) {b : ℕ}
    (hib : i ≤ b) (hb : b < elf.shnum) (hregion : elf.GetsRegion b)
    (hstops : ¬ elf.StopsBefore debug (b + 1))
    (hend : ∀ j, b < j → j < elf.shnum → elf.special j = true) (habsorbed : ¬ elf.Absorbed i) :
    elf.shnum ∈ (lastState id r).reads := by
  induction h with
  | done i st hi => omega
  | stop i st e hi hstep =>
    cases hstep with
    | noNames st' hnone => exact absurd hnone hnames
    | misaligned st' hdebug hregion' haligned =>
      exact absurd ⟨hdebug, i, by omega, hregion', habsorbed, haligned⟩ hstops
  | next i st i' st' r hi hstep hrest ih =>
    cases hstep with
    | skip st' hskip hread =>
      refine ih ?_ (not_absorbed_succ habsorbed hskip)
      rcases Nat.lt_or_eq_of_le hib with hlt | rfl
      · exact hlt
      · exact absurd hregion hskip
    | add k st' _ _ _ hrun _ _ hread =>
      by_cases hk : i + k + 1 ≤ b
      · exact ih hk (hrun.not_absorbed (by omega))
      · -- the run reaches the section, and what is behind it in the table
        have hlong : elf.shnum ≤ i + k + 1 := by
          by_contra hlt
          have hstop := hrun.stop (by omega)
          rw [hend (i + k + 1) (by omega) (by omega)] at hstop
          cases hstop
        have hle := hrun.le
        exact hrest.reads_mono ((hread _).mpr (Or.inr (Or.inr (Or.inr (by omega)))))

/-- The section loop reads only headers in the table exactly if they exist. -/
theorem LoopRun.reads_lt_iff (h : LoopRun debug elf 0 LoadState.init r) :
    (∀ j ∈ (lastState id r).reads, j < elf.shnum) ↔ elf.HeadersExist debug := by
  have hstart : ¬ elf.StopsBefore debug 0 := by
    rintro ⟨-, b, hb, -⟩
    omega
  refine ⟨fun hreads => ⟨fun j hj hlooks hstops => ?_, fun hnames b hb hregion hstops => ?_⟩,
    fun hexist => ?_⟩
  · exact hreads _ (h.shstrndx_mem (Nat.zero_le j) hj hlooks hstops not_absorbed_zero)
  · by_contra hno
    have hend : ∀ j, b < j → j < elf.shnum → elf.special j = true := by
      intro j h1 h2
      by_contra hspecial
      exact hno ⟨j, h1, h2, Bool.eq_false_iff.mpr hspecial⟩
    exact absurd (hreads _ (h.shnum_mem hnames (Nat.zero_le b) hb hregion hstops hend
      not_absorbed_zero)) (Nat.lt_irrefl _)
  · exact h.reads_lt hexist (fun _ => not_absorbed_zero) hstart fun j hj => by cases hj

/-- After the loop, no header is read. -/
theorem createSVFromElf_of_accepted (debug : Bool)
    (haccepted : (elfCheckFile elf && elfCheckSupported elf) = true) :
    ∃ r r', LoopRun debug elf 0 LoadState.init r ∧
      (∀ fuel, elf.shnum < fuel → createSVFromElf debug elf fuel = some r') ∧
      (lastState Prod.snd r').reads = (lastState id r).reads ∧
      r' = r >>= fun st => addUsr debug st >>= fun st => .ok (elf.ehdr.eEntry, st) := by
  obtain ⟨r, hrun, hfuel⟩ := sectionLoop_total debug elf
  refine ⟨r, _, hrun, fun fuel hlt => ?_, ?_, rfl⟩
  · rw [createSVFromElf, if_pos haccepted, hfuel fuel hlt, Option.map_some]
  · cases r with
    | error e => rfl
    | ok st =>
      simp only [bind, Except.bind, addUsr]
      cases hassert : debug && st.nextPagePtr == 0 <;> rfl

/-- Whatever the table, `createSVFromElf` returns or stops, and it reads only headers in the table
exactly if they exist. -/
theorem createSVFromElf_reads_iff (debug : Bool) (elf : Elf)
    (haccepted : (elfCheckFile elf && elfCheckSupported elf) = true) :
    ∃ r, (∀ fuel, elf.shnum < fuel → createSVFromElf debug elf fuel = some r) ∧
      ((∀ j ∈ (lastState Prod.snd r).reads, j < elf.shnum) ↔ elf.HeadersExist debug) := by
  obtain ⟨r, r', hrun, hfuel, hreads, -⟩ := createSVFromElf_of_accepted debug haccepted
  refine ⟨r', hfuel, ?_⟩
  rw [hreads]
  exact hrun.reads_lt_iff

/-! ## A table that ends with `.bss` -/

/-- The header of an executable with `n` sections, whose names are in the section 1. -/
def executable (n : BitVec 16) : Ehdr where
  eIdent i := [0x7F, 0x45, 0x4C, 0x46, 2, 1, 1].getD i 0
  eType := etExec
  eEntry := slotStartVAddr
  eShnum := n
  eShstrndx := 1

/-- The section header that says nothing. -/
def nullShdr : Shdr := ⟨0, 0, 0, 0, 0, 0⟩

/-- The section of names. -/
def shstrtabShdr : Shdr where
  shName := 1
  shType := shtStrtab
  shFlags := 0
  shAddr := 0
  shOffset := 0x200
  shSize := 0x40

/-- A `.bss` section of one page. -/
def bssShdr : Shdr where
  shName := 2
  shType := shtNobits
  shFlags := shfWrite ||| shfAlloc
  shAddr := slotStartVAddr + 0x10000
  shOffset := 0x1000
  shSize := 0x1000

/-- An image whose section table ends with `.bss`. -/
def bssLast : Elf where
  eh := 0x100000
  ehdr := executable 3
  sht i := [nullShdr, shstrtabShdr, bssShdr].getD i nullShdr
  cString addr := if addr = 0x100201 then ".shstrtab" else if addr = 0x100202 then ".bss" else ""

/-- There, the header behind the table is read, in both builds. -/
theorem not_reads_lt_bssLast :
    (elfCheckFile bssLast && elfCheckSupported bssLast) = true ∧ bssLast.shnum = 3 ∧
    (∀ debug, (createSVFromElf debug bssLast 4).map (fun r => (lastState Prod.snd r).reads) =
      some [0, 1, 1, 1, 2, 1, 2, 1, 3]) ∧
    ¬ ∀ (debug : Bool) (elf : Elf), (elfCheckFile elf && elfCheckSupported elf) = true →
      ∃ r, (∀ fuel, elf.shnum < fuel → createSVFromElf debug elf fuel = some r) ∧
        ∀ j ∈ (lastState Prod.snd r).reads, j < elf.shnum := by
  have haccepted : (elfCheckFile bssLast && elfCheckSupported bssLast) = true := by decide
  have hreads : ∀ debug, (createSVFromElf debug bssLast 4).map
      (fun r => (lastState Prod.snd r).reads) = some [0, 1, 1, 1, 2, 1, 2, 1, 3] := by
    decide
  refine ⟨haccepted, by decide, hreads, fun hall => ?_⟩
  obtain ⟨r, hr, hlt⟩ := hall true bssLast haccepted
  have hread := hreads true
  rw [hr 4 (by decide), Option.map_some, Option.some.injEq] at hread
  rw [hread] at hlt
  exact absurd (hlt 3 (by simp)) (by decide)

/-- The headers of this table do not exist as the loader needs them: nothing ends the inner loop. -/
theorem createSVFromElf_reads_iff_bssLast :
    ∃ r, (∀ fuel, bssLast.shnum < fuel → createSVFromElf false bssLast fuel = some r) ∧
      ¬ ∀ j ∈ (lastState Prod.snd r).reads, j < bssLast.shnum := by
  obtain ⟨r, hr, hiff⟩ := createSVFromElf_reads_iff false bssLast (by decide)
  refine ⟨r, hr, fun hlt => ?_⟩
  have hregion : bssLast.GetsRegion 2 :=
    ⟨by decide, by rintro (⟨h, -⟩ | ⟨h, -⟩) <;> exact absurd h (by decide), by
      unfold Elf.Alloc
      decide⟩
  obtain ⟨j, h1, h2, -⟩ := (hiff.mp hlt).runs (by decide) 2 (by decide) hregion
    fun hstops => Bool.noConfusion hstops.1
  have hthree : bssLast.shnum = 3 := by decide
  omega

end ElfLoader

end Umm
