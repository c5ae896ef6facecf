import Umm.Memory.Region

/-!
# The ELF loader

`createSVFromElf` goes over the section headers of an ELF image and makes a region of every section
that has addresses.  Sections named `link_set*` and `.gcc_*` become part of the region before them: an
inner loop looks ahead for them and moves the index of the outer loop along.

The headers are read from memory, which goes on behind the table.  `LoadState.reads` is a log of the
headers that have been read, also of those that are behind its end.  A step that stops the core
reports the state it stopped in.  Whether the assertions are compiled in is a parameter.
-/

namespace Umm

open Foundations

namespace ElfLoader

/-! ## ELF images -/

/-- `Ehdr`. -/
structure Ehdr where
  /-- `e_ident`. -/
  eIdent : Fin 16 → BitVec 8
  /-- `e_type`. -/
  eType : BitVec 16
  /-- `e_entry`. -/
  eEntry : Word
  /-- `e_shnum`: the number of section headers. -/
  eShnum : BitVec 16
  /-- `e_shstrndx`: the section that holds the names. -/
  eShstrndx : BitVec 16

/-- `Shdr`. -/
structure Shdr where
  /-- `sh_name`: where the name is in the section of names. -/
  shName : BitVec 32
  /-- `sh_type`. -/
  shType : BitVec 32
  /-- `sh_flags`. -/
  shFlags : Word
  /-- `sh_addr`: the address of the section. -/
  shAddr : LinAddr
  /-- `sh_offset`: where it is in the file. -/
  shOffset : Word
  /-- `sh_size`. -/
  shSize : Word
deriving DecidableEq

/-- An ELF image in memory. -/
structure Elf where
  /-- `elf_start`. -/
  eh : Word
  /-- The header. -/
  ehdr : Ehdr
  /-- The memory from `e_shoff` on, as section headers.  The first `e_shnum` are those of the image. -/
  sht : ℕ → Shdr
  /-- The string at an address, with one character for each byte. -/
  cString : Word → String

/-- `SHT_PROGBITS`. -/
def shtProgbits : BitVec 32 := 1

/-- `SHT_SYMTAB`. -/
def shtSymtab : BitVec 32 := 2

/-- `SHT_STRTAB`. -/
def shtStrtab : BitVec 32 := 3

/-- `SHT_NOBITS`. -/
def shtNobits : BitVec 32 := 8

/-- `SHF_WRITE`. -/
def shfWrite : Word := 1

/-- `SHF_ALLOC`. -/
def shfAlloc : Word := 2

/-- `ET_REL`. -/
def etRel : BitVec 16 := 1

/-- `ET_EXEC`. -/
def etExec : BitVec 16 := 2

/-- `elf_check_file`. -/
def elfCheckFile (elf : Elf) : Bool :=
  elf.eh != 0 && (elf.ehdr.eIdent 0 == 0x7F && elf.ehdr.eIdent 1 == 0x45 &&
    elf.ehdr.eIdent 2 == 0x4C && elf.ehdr.eIdent 3 == 0x46)

/-- `elf_check_supported`. -/
def elfCheckSupported (elf : Elf) : Bool :=
  elf.ehdr.eIdent 4 == 2 && elf.ehdr.eIdent 5 == 1 && elf.ehdr.eIdent 6 == 1 &&
    (elf.ehdr.eType == etRel || elf.ehdr.eType == etExec) && !(elf.ehdr.eType == etRel)

namespace Elf

variable (elf : Elf)

/-- The number of section headers. -/
def shnum : ℕ := elf.ehdr.eShnum.toNat

/-- The index of the section of names. -/
def shstrndx : ℕ := elf.ehdr.eShstrndx.toNat

/-- `strTab`: where the names begin. -/
def strTab : Word := elf.eh + (elf.sht elf.shstrndx).shOffset

/-- The name of a section. -/
def name (i : ℕ) : String := elf.cString (elf.strTab + (elf.sht i).shName.setWidth 64)

end Elf

/-- A name that begins with `link_set` or `.gcc_`. -/
def isSpecialName (name : String) : Bool :=
  name.toList.length != 0 &&
    (name.toList.take 8 == "link_set".toList || name.toList.take 5 == ".gcc_".toList)

/-! ## Loading -/

/-- What the loader has made so far. -/
structure LoadState where
  /-- `ret_state.region_list_`. -/
  regionList : List Region
  /-- `next_page_ptr`. -/
  nextPagePtr : Word
  /-- `elf_symtab` and `elf_symtab_size`. -/
  elfSymtab : Option (Word × Word)
  /-- `elf_strtab` and `elf_strtab_size`. -/
  elfStrtab : Option (Word × Word)
  /-- Log of the section headers that have been read. -/
  reads : List ℕ

/-- What a step of the loader returns, or why it has stopped, and in which state. -/
abbrev LoadResult (α : Type) := Except (Stop × LoadState) α

/-- Before the first section. -/
def LoadState.init : LoadState where
  regionList := []
  nextPagePtr := 0
  elfSymtab := none
  elfStrtab := none
  reads := []

/-- A section header is read. -/
def LoadState.read (st : LoadState) (i : ℕ) : LoadState :=
  { st with reads := st.reads ++ [i] }

/-- `std::string(get_section_name(eh, sh))`.  The header of the names is read, and that of the
section. -/
def getSectionName (elf : Elf) (i : ℕ) (st : LoadState) : LoadResult (String × LoadState) :=
  if elf.strTab = 0 then .error (.nullDeref, st.read elf.shstrndx)
  else .ok (elf.name i, (st.read elf.shstrndx).read i)

/-- The section has the type and the name. -/
def isTable (elf : Elf) (i : ℕ) (shType : BitVec 32) (name : String) (st : LoadState) :
    LoadResult (Bool × LoadState) :=
  if (elf.sht i).shType = shType then do
    let (shName, st) ← getSectionName elf i st
    .ok (shName == name, st)
  else .ok (false, st)

/-- The region of a section, before others are added to it. -/
def newRegion (elf : Elf) (i : ℕ) (name : String) : Region where
  name
  start := (elf.sht i).shAddr
  length := (elf.sht i).shSize
  writable := (elf.sht i).shFlags &&& shfWrite != 0
  data := if (elf.sht i).shType = shtNobits then 0 else elf.eh + (elf.sht i).shOffset

/-- Extend a region by a section, and by the space before it. -/
def growRegion (reg : Region) (nxtSh : Shdr) : Region :=
  let length :=
    if reg.start + reg.length < nxtSh.shAddr then
      reg.length + (nxtSh.shAddr - (reg.start + reg.length))
    else reg.length
  { reg with length := length + nxtSh.shSize }

/-- `while (i_ptr < eh->e_shnum && ++i_ptr)`, where `n` is `e_shnum - i_ptr`.  It returns `i`, which
has been moved along, with the region. -/
def absorbSections (elf : Elf) : ℕ → ℕ → ℕ → Region → LoadState →
    LoadResult (ℕ × Region × LoadState)
  | 0, _, i, reg, st => .ok (i, reg, st)
  | n + 1, iPtr, i, reg, st => do
    let (shName, st) ← getSectionName elf (iPtr + 1) st
    if isSpecialName shName then
      absorbSections elf n (iPtr + 1) (i + 1) (growRegion reg (elf.sht (iPtr + 1)))
        (st.read (iPtr + 1))
    else .ok (i, reg, st)

/-- `ebbrt::Pfn::Up(addr).ToAddr()`. -/
def pageUp (addr : LinAddr) : LinAddr := LinAddr.pageDown (addr + 4095)

/-- The `.bss` region says where the next page is. -/
def noteBss (reg : Region) (st : LoadState) : LoadState :=
  if reg.name == ".bss" then { st with nextPagePtr := pageUp (reg.start + reg.length) } else st

/-- Make a region of a section. -/
def addSection (debug : Bool) (elf : Elf) (i : ℕ) (st : LoadState) : LoadResult (ℕ × LoadState) :=
  if debug && (elf.sht i).shAddr % 4096 != 0 then .error (.kassert, st)
  else do
    let (name, st) ← getSectionName elf i st
    let (i', reg, st) ← absorbSections elf (elf.shnum - i) i i (newRegion elf i name) st
    let st := noteBss reg st
    .ok (i', { st with regionList := st.regionList ++ [reg] })

/-- A section that is not `.symtab`: note `.strtab`, and pass over what has no address. -/
def loadOther (debug : Bool) (elf : Elf) (i : ℕ) (st : LoadState) : LoadResult (ℕ × LoadState) := do
  let (isStrtab, st) ← isTable elf i shtStrtab ".strtab" st
  if isStrtab then
    .ok (i, { st with
      elfStrtab := some (elf.eh + (elf.sht i).shOffset, (elf.sht i).shSize) })
  else if (elf.sht i).shFlags &&& shfAlloc = 0 then .ok (i, st)
  else addSection debug elf i st

/-- The body of the section loop.  It returns `i`, which has been moved along. -/
def loadSection (debug : Bool) (elf : Elf) (i : ℕ) (st : LoadState) : LoadResult (ℕ × LoadState) :=
  let st := st.read i
  if (elf.sht i).shSize = 0 then .ok (i, st)
  else do
    let (isSymtab, st) ← isTable elf i shtSymtab ".symtab" st
    if isSymtab then
      -- `sizeof(Elf64_Sym)` is 24
      .ok (i, { st with
        elfSymtab := some (elf.eh + (elf.sht i).shOffset, (elf.sht i).shSize / 24) })
    else loadOther debug elf i st

/-- `for (int i = 0; i < eh->e_shnum; i++)`.  There is no result when the fuel runs out. -/
def sectionLoop (debug : Bool) (elf : Elf) : ℕ → ℕ → LoadState → Option (LoadResult LoadState)
  | 0, _, _ => none
  | fuel + 1, i, st =>
    if i < elf.shnum then
      match loadSection debug elf i st with
      | .ok (i', st') => sectionLoop debug elf fuel (i' + 1) st'
      | .error e => some (.error e)
    else some (.ok st)

/-- The `usr` region: all that is left of the slot. -/
def addUsr (debug : Bool) (st : LoadState) : LoadResult LoadState :=
  if debug && st.nextPagePtr == 0 then .error (.kassert, st)
  else
    let usrReg : Region :=
      { name := "usr", start := st.nextPagePtr, length := slotEndVAddr + 1 - st.nextPagePtr,
        writable := true, data := 0 }
    .ok { st with regionList := st.regionList ++ [usrReg] }

/-- `createSVFromElf`: the state vector's entry point and the loader's last state. -/
def createSVFromElf (debug : Bool) (elf : Elf) (fuel : ℕ) : Option (LoadResult (Word × LoadState)) :=
  if elfCheckFile elf && elfCheckSupported elf then
    (sectionLoop debug elf fuel 0 LoadState.init).map fun r => do
      let st ← r
      let st ← addUsr debug st
      .ok (elf.ehdr.eEntry, st)
  else some (.error (.kabort, LoadState.init))

end ElfLoader

end Umm
