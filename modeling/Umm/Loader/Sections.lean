import Umm.Loader.Elf

/-!
# What the section loop does

`Stepped` lists what the body of the section loop can do with a section: pass over it, stop the core,
or make a region of it and of the run of specially named sections behind it.  `LoopRun` is the loop
as a sequence of such steps, and with enough fuel `sectionLoop` is a `LoopRun`.

A section is `Absorbed` if it is in the run behind a section that gets a region.  The loop never
comes to such a section.
-/

namespace Umm

open Foundations

namespace ElfLoader

namespace Elf

variable (elf : Elf)

/-! ## Sections -/

/-- The section has a name that is looked at by the inner loop. -/
def special (i : ℕ) : Bool := isSpecialName (elf.name i)

/-- The section appears in the address space. -/
def Alloc (i : ℕ) : Prop := (elf.sht i).shFlags &&& shfAlloc ≠ 0

/-- Its address is the start of a page. -/
def Aligned (i : ℕ) : Prop := (elf.sht i).shAddr % 4096 = 0

/-- It is of a type for which the loader looks at the name. -/
def NamedByType (i : ℕ) : Prop :=
  (elf.sht i).shType = shtSymtab ∨ (elf.sht i).shType = shtStrtab

/-- It is the symbol table or its string table. -/
def IsSymbols (i : ℕ) : Prop :=
  (elf.sht i).shType = shtSymtab ∧ elf.name i = ".symtab" ∨
    (elf.sht i).shType = shtStrtab ∧ elf.name i = ".strtab"

/-- It gets a region when the loop comes to it. -/
def GetsRegion (i : ℕ) : Prop := (elf.sht i).shSize ≠ 0 ∧ ¬ elf.IsSymbols i ∧ elf.Alloc i

/-- Its name is looked up when the loop comes to it. -/
def LooksUp (debug : Bool) (i : ℕ) : Prop :=
  (elf.sht i).shSize ≠ 0 ∧ (elf.NamedByType i ∨ elf.Alloc i ∧ (debug = true → elf.Aligned i))

/-- The section is in the run of specially named sections behind one that gets a region. -/
def Absorbed (i : ℕ) : Prop :=
  ∃ b < i, elf.GetsRegion b ∧ ∀ j, b < j → j ≤ i → elf.special j = true

/-- A run of `k` specially named sections behind `iPtr`, as long as the table allows that has `n`
more sections. -/
structure SpecialRun (n iPtr k : ℕ) : Prop where
  /-- It is in the table. -/
  le : k ≤ n
  /-- The names are special. -/
  special : ∀ j, iPtr < j → j ≤ iPtr + k → elf.special j = true
  /-- It is not followed by another such section. -/
  stop : k < n → elf.special (iPtr + k + 1) = false

/-- A region, extended by the `k` sections behind `iPtr`. -/
def growRun : ℕ → ℕ → Region → Region
  | 0, _, reg => reg
  | k + 1, iPtr, reg => growRun k (iPtr + 1) (growRegion reg (elf.sht (iPtr + 1)))

/-- The region of a section and the `k` sections behind it. -/
def regionOf (i k : ℕ) : Region := elf.growRun k i (newRegion elf i (elf.name i))

end Elf

variable {debug : Bool} {elf : Elf} {i j k n iPtr : ℕ} {reg : Region} {st st' : LoadState}

open Elf

/-- A section behind an absorbed one is absorbed only if it is special and so is the one before. -/
theorem Elf.Absorbed.of_succ (h : elf.Absorbed (i + 1)) :
    elf.special (i + 1) = true ∧ (elf.GetsRegion i ∨ elf.Absorbed i) := by
  obtain ⟨b, hb, hregion, hspecial⟩ := h
  refine ⟨hspecial (i + 1) (by omega) (Nat.le_refl _), ?_⟩
  rcases Nat.lt_or_eq_of_le (Nat.le_of_lt_succ hb) with hlt | rfl
  · exact Or.inr ⟨b, hlt, hregion, fun j h1 h2 => hspecial j h1 (by omega)⟩
  · exact Or.inl hregion

theorem Elf.not_absorbed_zero : ¬ elf.Absorbed 0 := by
  rintro ⟨b, hb, -⟩
  omega

/-! ## The steps -/

/-- A state differs from another one in the log only, by the headers in `s`. -/
structure ReadMore (st st' : LoadState) (s : ℕ → Prop) : Prop where
  /-- The same regions. -/
  regionList : st'.regionList = st.regionList
  /-- The same next page. -/
  nextPagePtr : st'.nextPagePtr = st.nextPagePtr
  /-- More headers have been read. -/
  reads : ∀ j, j ∈ st'.reads ↔ j ∈ st.reads ∨ s j

/-- What the body of the section loop can do with the section `i`. -/
inductive Stepped (debug : Bool) (elf : Elf) (i : ℕ) (st : LoadState) :
    LoadResult (ℕ × LoadState) → Prop where
  /-- The section gets no region. -/
  | skip (st' : LoadState) (hregion : ¬ elf.GetsRegion i)
      (hread : ReadMore st st' fun j =>
        j = i ∨ (elf.sht i).shSize ≠ 0 ∧ elf.NamedByType i ∧ j = elf.shstrndx) :
      Stepped debug elf i st (.ok (i, st'))
  /-- There are no names. -/
  | noNames (st' : LoadState) (hnames : elf.strTab = 0) (hlooks : elf.LooksUp debug i)
      (hread : ReadMore st st' fun j => j = i ∨ j = elf.shstrndx) :
      Stepped debug elf i st (.error (.nullDeref, st'))
  /-- The assertion fails. -/
  | misaligned (st' : LoadState) (hdebug : debug = true) (hregion : elf.GetsRegion i)
      (haligned : ¬ elf.Aligned i)
      (hread : ReadMore st st' fun j => j = i ∨ elf.NamedByType i ∧ j = elf.shstrndx) :
      Stepped debug elf i st (.error (.kassert, st'))
  /-- The section gets a region, together with those behind it. -/
  | add (k : ℕ) (st' : LoadState) (hnames : elf.strTab ≠ 0) (hregion : elf.GetsRegion i)
      (haligned : debug = true → elf.Aligned i) (hrun : elf.SpecialRun (elf.shnum - i) i k)
      (hlist : st'.regionList = st.regionList ++ [elf.regionOf i k])
      (hnext : st'.nextPagePtr = (noteBss (elf.regionOf i k) st).nextPagePtr)
      (hread : ∀ j, j ∈ st'.reads ↔ j ∈ st.reads ∨ j = i ∨ j = elf.shstrndx ∨
        i < j ∧ j ≤ i + k + 1 ∧ j ≤ elf.shnum) :
      Stepped debug elf i st (.ok (i + k, st'))

theorem mem_read : j ∈ (st.read i).reads ↔ j ∈ st.reads ∨ j = i := by
  simp [LoadState.read]

namespace ReadMore

variable {st₁ : LoadState} {s s' : ℕ → Prop}

/-- One more header is read. -/
theorem read (h : ReadMore st st₁ s) (i : ℕ) : ReadMore st (st₁.read i) fun j => s j ∨ j = i := by
  refine ⟨h.regionList, h.nextPagePtr, fun j => ?_⟩
  rw [mem_read, h.reads, or_assoc]

theorem congr (h : ReadMore st st₁ s) (hs : ∀ j, s j ↔ s' j) : ReadMore st st₁ s' := by
  refine ⟨h.regionList, h.nextPagePtr, fun j => ?_⟩
  rw [h.reads, hs]

/-- The tables are noted, which are not in the regions. -/
theorem note (h : ReadMore st st₁ s) (symtab strtab : Option (Word × Word)) :
    ReadMore st { st₁ with elfSymtab := symtab, elfStrtab := strtab } s :=
  ⟨h.regionList, h.nextPagePtr, h.reads⟩

end ReadMore

theorem readMore_read (st : LoadState) (i : ℕ) : ReadMore st (st.read i) fun j => j = i :=
  ⟨rfl, rfl, fun _ => mem_read⟩

theorem getSectionName_of_names (hnames : elf.strTab ≠ 0) :
    getSectionName elf i st = .ok (elf.name i, (st.read elf.shstrndx).read i) := by
  rw [getSectionName, if_neg hnames]

theorem getSectionName_of_no_names (hnames : elf.strTab = 0) :
    getSectionName elf i st = .error (.nullDeref, st.read elf.shstrndx) := by
  rw [getSectionName, if_pos hnames]

/-- The inner loop goes over the run of specially named sections, and looks at the one behind it,
wherever that is. -/
theorem absorbSections_eq (hnames : elf.strTab ≠ 0) (n iPtr i : ℕ) (reg : Region)
    (st : LoadState) :
    ∃ k reads', elf.SpecialRun n iPtr k ∧
      absorbSections elf n iPtr i reg st =
        .ok (i + k, elf.growRun k iPtr reg, { st with reads := reads' }) ∧
      ∀ j, j ∈ reads' ↔ j ∈ st.reads ∨
        0 < n ∧ (j = elf.shstrndx ∨ iPtr < j ∧ j ≤ iPtr + k + 1 ∧ j ≤ iPtr + n) := by
  induction n generalizing iPtr i reg st with
  | zero =>
    refine ⟨0, st.reads, ⟨Nat.le_refl 0, fun j h1 h2 => by omega, fun h => by omega⟩, rfl,
      fun j => by simp⟩
  | succ n ih =>
    unfold absorbSections
    rw [getSectionName_of_names hnames]
    simp only [bind, Except.bind]
    cases hspecial : isSpecialName (elf.name (iPtr + 1)) with
    | false =>
      rw [if_neg Bool.false_ne_true]
      refine ⟨0, _, ⟨Nat.zero_le _, fun j h1 h2 => by omega, fun _ => hspecial⟩, rfl, fun j => ?_⟩
      simp only [LoadState.read, List.mem_append, List.mem_singleton]
      constructor
      · rintro ((hj | hj) | hj)
        · exact Or.inl hj
        · exact Or.inr ⟨by omega, Or.inl hj⟩
        · exact Or.inr ⟨by omega, Or.inr (by omega)⟩
      · rintro (hj | ⟨-, hj | hj⟩)
        · exact Or.inl (Or.inl hj)
        · exact Or.inl (Or.inr hj)
        · exact Or.inr (by omega)
    | true =>
      rw [if_pos rfl]
      obtain ⟨k, reads', hrun, heq, hreads⟩ := ih (iPtr + 1) (i + 1)
        (growRegion reg (elf.sht (iPtr + 1)))
        (((st.read elf.shstrndx).read (iPtr + 1)).read (iPtr + 1))
      refine ⟨k + 1, reads', ⟨by have := hrun.le; omega, fun j h1 h2 => ?_, fun hk => ?_⟩, ?_,
        fun j => ?_⟩
      · rcases Nat.lt_or_eq_of_le (Nat.succ_le_of_lt h1) with hlt | rfl
        · exact hrun.special j hlt (by omega)
        · exact hspecial
      · have hstop := hrun.stop (by omega)
        rwa [show iPtr + (k + 1) + 1 = iPtr + 1 + k + 1 by omega]
      · rw [heq]
        simp only [LoadState.read, Elf.growRun, Except.ok.injEq, Prod.mk.injEq, and_true]
        omega
      · rw [hreads j, mem_read, mem_read, mem_read]
        have hle := hrun.le
        constructor
        · rintro ((((hj | hj) | hj) | hj) | ⟨hn, hj | hj⟩)
          · exact Or.inl hj
          · exact Or.inr ⟨by omega, Or.inl hj⟩
          · exact Or.inr ⟨by omega, Or.inr (by omega)⟩
          · exact Or.inr ⟨by omega, Or.inr (by omega)⟩
          · exact Or.inr ⟨by omega, Or.inl hj⟩
          · exact Or.inr ⟨by omega, Or.inr (by omega)⟩
        · rintro (hj | ⟨-, hj | hj⟩)
          · exact Or.inl (Or.inl (Or.inl (Or.inl hj)))
          · exact Or.inl (Or.inl (Or.inl (Or.inr hj)))
          · rcases Nat.lt_or_eq_of_le (Nat.succ_le_of_lt hj.1) with hlt | heq
            · exact Or.inr ⟨by omega, Or.inr (by omega)⟩
            · exact Or.inl (Or.inr (by omega))

theorem shtStrtab_ne : shtStrtab ≠ shtSymtab := by decide

theorem noteBss_nextPagePtr : (noteBss reg st).nextPagePtr =
    if reg.name == ".bss" then pageUp (reg.start + reg.length) else st.nextPagePtr := by
  unfold noteBss
  split_ifs <;> rfl

/-- What has been read before the section is known to get a region. -/
theorem addSection_stepped {st₁ : LoadState} (hi : i < elf.shnum) (hregion : elf.GetsRegion i)
    (hread : ReadMore st st₁ fun j => j = i ∨ elf.NamedByType i ∧ j = elf.shstrndx) :
    Stepped debug elf i st (addSection debug elf i st₁) := by
  unfold addSection
  by_cases hmisaligned : (debug && (elf.sht i).shAddr % 4096 != 0) = true
  · rw [if_pos hmisaligned]
    simp only [Bool.and_eq_true, bne_iff_ne, ne_eq] at hmisaligned
    exact .misaligned st₁ hmisaligned.1 hregion hmisaligned.2 hread
  rw [if_neg hmisaligned]
  have haligned : debug = true → elf.Aligned i := by
    intro hdebug
    simpa [hdebug, Elf.Aligned] using hmisaligned
  by_cases hnames : elf.strTab = 0
  · rw [getSectionName_of_no_names hnames]
    exact .noNames _ hnames ⟨hregion.1, Or.inr ⟨hregion.2.2, haligned⟩⟩
      ((hread.read elf.shstrndx).congr fun j => by tauto)
  · rw [getSectionName_of_names hnames]
    obtain ⟨k, reads', hrun, heq, hreads⟩ := absorbSections_eq hnames (elf.shnum - i) i i
      (newRegion elf i (elf.name i)) ((st₁.read elf.shstrndx).read i)
    simp only [bind, Except.bind, heq]
    have hlast : ∀ reg : Region, ∀ st : LoadState, (noteBss reg st).regionList = st.regionList ∧
        (noteBss reg st).reads = st.reads := by
      intro reg st
      unfold noteBss
      split_ifs <;> exact ⟨rfl, rfl⟩
    refine .add k _ hnames hregion haligned hrun ?_ ?_ fun j => ?_
    · simp only [(hlast _ _).1]
      exact congrArg (· ++ _) hread.regionList
    · rw [noteBss_nextPagePtr, noteBss_nextPagePtr, Elf.regionOf, ← hread.nextPagePtr]
      rfl
    · simp only [(hlast _ _).2, hreads, mem_read, hread.reads]
      have hle := hrun.le
      constructor
      · rintro (((((hj | hj) | hj) | hj)) | ⟨-, hj | hj⟩)
        · exact Or.inl hj
        · rcases hj with hj | hj
          · exact Or.inr (Or.inl hj)
          · exact Or.inr (Or.inr (Or.inl hj.2))
        · exact Or.inr (Or.inr (Or.inl hj))
        · exact Or.inr (Or.inl hj)
        · exact Or.inr (Or.inr (Or.inl hj))
        · exact Or.inr (Or.inr (Or.inr (by omega)))
      · rintro (hj | hj | hj | hj)
        · exact Or.inl (Or.inl (Or.inl (Or.inl hj)))
        · exact Or.inl (Or.inr hj)
        · exact Or.inl (Or.inl (Or.inr hj))
        · exact Or.inr ⟨by omega, Or.inr (by omega)⟩

/-- What has been read before the section is known not to be `.symtab`. -/
theorem loadOther_stepped {st₁ : LoadState} (hi : i < elf.shnum) (hsize : (elf.sht i).shSize ≠ 0)
    (hsymtab : (elf.sht i).shType = shtSymtab → elf.name i ≠ ".symtab")
    (hread : ReadMore st st₁ fun j => j = i ∨ (elf.sht i).shType = shtSymtab ∧ j = elf.shstrndx) :
    Stepped debug elf i st (loadOther debug elf i st₁) := by
  unfold loadOther isTable
  by_cases htype : (elf.sht i).shType = shtStrtab
  · have hother : (elf.sht i).shType ≠ shtSymtab := fun h => shtStrtab_ne (htype.symm.trans h)
    have hbytype : elf.NamedByType i := Or.inr htype
    rw [if_pos htype]
    by_cases hnames : elf.strTab = 0
    · rw [getSectionName_of_no_names hnames]
      exact .noNames _ hnames ⟨hsize, Or.inl hbytype⟩
        ((hread.read elf.shstrndx).congr fun j => by tauto)
    rw [getSectionName_of_names hnames]
    have hread' : ReadMore st ((st₁.read elf.shstrndx).read i)
        fun j => j = i ∨ elf.NamedByType i ∧ j = elf.shstrndx :=
      ((hread.read elf.shstrndx).read i).congr fun j => by tauto
    simp only [bind, Except.bind]
    by_cases hname : elf.name i = ".strtab"
    · rw [if_pos (beq_iff_eq.mpr hname)]
      exact .skip _ (fun hregion => hregion.2.1 (Or.inr ⟨htype, hname⟩))
        ((hread'.note _ _).congr fun j => by tauto)
    rw [if_neg fun h => hname (beq_iff_eq.mp h)]
    by_cases halloc : (elf.sht i).shFlags &&& shfAlloc = 0
    · rw [if_pos halloc]
      exact .skip _ (fun hregion => hregion.2.2 halloc) (hread'.congr fun j => by tauto)
    · rw [if_neg halloc]
      refine addSection_stepped hi ⟨hsize, ?_, halloc⟩ hread'
      rintro (⟨hsym, -⟩ | ⟨-, hstr⟩)
      · exact hother hsym
      · exact hname hstr
  · rw [if_neg htype]
    simp only [bind, Except.bind, Bool.false_eq_true, if_false]
    have hread' : ReadMore st st₁ fun j => j = i ∨ elf.NamedByType i ∧ j = elf.shstrndx :=
      hread.congr fun j => by rw [Elf.NamedByType, or_iff_left htype]
    by_cases halloc : (elf.sht i).shFlags &&& shfAlloc = 0
    · rw [if_pos halloc]
      exact .skip _ (fun hregion => hregion.2.2 halloc) (hread'.congr fun j => by tauto)
    · rw [if_neg halloc]
      refine addSection_stepped hi ⟨hsize, ?_, halloc⟩ hread'
      rintro (⟨hsym, hname⟩ | ⟨hstr, -⟩)
      · exact hsymtab hsym hname
      · exact htype hstr

/-- The body of the section loop does one of these things. -/
theorem loadSection_stepped (debug : Bool) (st : LoadState) (hi : i < elf.shnum) :
    Stepped debug elf i st (loadSection debug elf i st) := by
  unfold loadSection
  have hread := readMore_read st i
  by_cases hsize : (elf.sht i).shSize = 0
  · simp only [hsize, if_true]
    exact .skip _ (fun hregion => hregion.1 hsize) (hread.congr fun j => by tauto)
  simp only [if_neg hsize]
  unfold isTable
  by_cases htype : (elf.sht i).shType = shtSymtab
  · have hbytype : elf.NamedByType i := Or.inl htype
    rw [if_pos htype]
    by_cases hnames : elf.strTab = 0
    · rw [getSectionName_of_no_names hnames]
      exact .noNames _ hnames ⟨hsize, Or.inl hbytype⟩ (hread.read elf.shstrndx)
    rw [getSectionName_of_names hnames]
    simp only [bind, Except.bind]
    have hread' := (hread.read elf.shstrndx).read i
    by_cases hname : elf.name i = ".symtab"
    · rw [if_pos (beq_iff_eq.mpr hname)]
      exact .skip _ (fun hregion => hregion.2.1 (Or.inl ⟨htype, hname⟩))
        ((hread'.note _ _).congr fun j => by tauto)
    · rw [if_neg fun h => hname (beq_iff_eq.mp h)]
      exact loadOther_stepped hi hsize (fun _ => hname) (hread'.congr fun j => by tauto)
  · rw [if_neg htype]
    simp only [bind, Except.bind, Bool.false_eq_true, if_false]
    exact loadOther_stepped hi hsize (fun h => absurd h htype) (hread.congr fun j => by tauto)

/-! ## The loop -/

/-- The section loop from the section `i`, as a sequence of steps. -/
inductive LoopRun (debug : Bool) (elf : Elf) : ℕ → LoadState → LoadResult LoadState → Prop where
  /-- The table has come to its end. -/
  | done (i : ℕ) (st : LoadState) (hi : elf.shnum ≤ i) : LoopRun debug elf i st (.ok st)
  /-- The core has stopped. -/
  | stop (i : ℕ) (st : LoadState) (e : Stop × LoadState) (hi : i < elf.shnum)
      (hstep : Stepped debug elf i st (.error e)) : LoopRun debug elf i st (.error e)
  /-- The loop goes on. -/
  | next (i : ℕ) (st : LoadState) (i' : ℕ) (st' : LoadState) (r : LoadResult LoadState)
      (hi : i < elf.shnum) (hstep : Stepped debug elf i st (.ok (i', st')))
      (hrest : LoopRun debug elf (i' + 1) st' r) : LoopRun debug elf i st r

/-- A step does not move the index back. -/
theorem Stepped.le {i' : ℕ} (h : Stepped debug elf i st (.ok (i', st'))) : i ≤ i' := by
  cases h with
  | skip => exact Nat.le_refl i
  | add k => exact Nat.le_add_right i k

/-- The loop ends: as much fuel as there are sections, and one more, is enough. -/
theorem sectionLoop_run (debug : Bool) {fuel : ℕ} (i : ℕ) (st : LoadState)
    (hfuel : elf.shnum - i < fuel) :
    ∃ r, sectionLoop debug elf fuel i st = some r ∧ LoopRun debug elf i st r := by
  induction fuel generalizing i st with
  | zero => omega
  | succ fuel ih =>
    unfold sectionLoop
    by_cases hi : i < elf.shnum
    · rw [if_pos hi]
      have hstep := loadSection_stepped debug st hi
      cases hload : loadSection debug elf i st with
      | error e =>
        rw [hload] at hstep
        exact ⟨_, rfl, .stop i st e hi hstep⟩
      | ok p =>
        rw [hload] at hstep
        have hle : i ≤ p.1 := hstep.le
        obtain ⟨r, hr, hrest⟩ := ih (p.1 + 1) p.2 (by omega)
        exact ⟨r, hr, .next i st p.1 p.2 r hi hstep hrest⟩
    · rw [if_neg hi]
      exact ⟨_, rfl, .done i st (Nat.le_of_not_lt hi)⟩

/-- More fuel gives the same result. -/
theorem sectionLoop_mono {fuel fuel' : ℕ} {r : LoadResult LoadState} (hle : fuel ≤ fuel')
    (h : sectionLoop debug elf fuel i st = some r) : sectionLoop debug elf fuel' i st = some r := by
  induction fuel generalizing fuel' i st with
  | zero => cases h
  | succ fuel ih =>
    obtain ⟨fuel', rfl⟩ : ∃ n, fuel' = n + 1 := ⟨fuel' - 1, by omega⟩
    unfold sectionLoop at h ⊢
    by_cases hi : i < elf.shnum
    · rw [if_pos hi] at h ⊢
      cases hload : loadSection debug elf i st with
      | error e => rwa [hload] at h
      | ok p =>
        rw [hload] at h
        exact ih (by omega) h
    · rwa [if_neg hi] at h ⊢

/-- The loop returns, with any fuel that is more than the number of sections. -/
theorem sectionLoop_total (debug : Bool) (elf : Elf) : ∃ r, LoopRun debug elf 0 LoadState.init r ∧
    ∀ fuel, elf.shnum < fuel → sectionLoop debug elf fuel 0 LoadState.init = some r := by
  obtain ⟨r, hr, hrun⟩ := sectionLoop_run debug 0 LoadState.init
    (Nat.lt_succ_self (elf.shnum - 0))
  exact ⟨r, hrun, fun fuel hfuel => sectionLoop_mono (by omega) hr⟩

end ElfLoader

end Umm
