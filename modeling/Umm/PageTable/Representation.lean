import Umm.PageTable.Tables

/-!
# The representation of slot page tables

The walkers assert that leaves are at `TBL_LEVEL`, and the traversals that free and count pages
follow accessed entries only.  The versions of this file make the assertions explicit, and follow
the entries that are accepted by a predicate.

Every table that the machine of `Tables` builds is a tree with all its entries accessed, so that no
assertion fires and the accessed entries are the valid ones.
-/

namespace Umm

open Foundations Foundations.Layout

namespace UmPgTblMgmt

variable {A : Allocator Pfn}

/-! ## Assertions -/

/-- `kassert(lvl == 1)` before what a copy walker does at a leaf. -/
def kassertTbl (leaf : SimplePte → ℕ → (ℕ → Key) → CopyState A → Except Stop (CopyState A))
    (e : SimplePte) (lvl : ℕ) (idx : ℕ → Key) (s : CopyState A) : Except Stop (CopyState A) :=
  if lvl = tblLevel then leaf e lvl idx s else .error .kassert

/-- `walkPgTblCOW` of the debug build. -/
def walkPgTblCOWDebug (root : Pfn) (copy : Option Pfn) (lvl : ℕ) (h : PhysMem A) :
    Except Stop (CopyState A) :=
  walkCopy (kassertTbl cowLeaf) root copy lvl h

/-- `walkPgTblCopyDirtyCOW` of the debug build. -/
def walkPgTblCopyDirtyCOWDebug (root : Pfn) (copy : Option Pfn) (lvl : ℕ) (h : PhysMem A) :
    Except Stop (CopyState A) :=
  walkCopy (kassertTbl copyDirtyCOWLeaf) root copy lvl h

/-- `freePageTableLamb` of the debug build, with whether `kassert(orders[lvl] == 0)` has fired. -/
def freePageTableLambDebug (root : Pfn) (lvl : ℕ) (h : PhysMem A) : PhysMem A × Bool :=
  pageTables.traverse (fun s : PhysMem A × Bool => s.1.mem) (accessedPages
    (fun e lvl s => if e.rw then
      (freePages s.1 (e.pageTabEntToPfn lvl) (orders lvl), s.2 || orders lvl != 0) else s)
    (fun t _ s => (freePages s.1 t 0, s.2))) lvl root (h, false)

/-! ## Predicates -/

/-- The visitor of `traverseValidPages`. -/
def validPages {σ : Type} (leafFn : SimplePte → ℕ → σ → σ) (bret : Pfn → ℕ → σ → σ) :
    Layout.Visitor SimplePte Pfn σ where
  follow e _ s := (e.exists, s)
  beforeRec _ _ s := s
  afterRec _ _ _ s := s
  leaf := leafFn
  beforeRet := bret

/-- `freePageTableLamb`, with the valid entries instead of the accessed ones. -/
def freeValidPages (root : Pfn) (lvl : ℕ) (h : PhysMem A) : PhysMem A :=
  pageTables.traverse Heap.mem (validPages
    (fun e lvl h => if e.rw then freePages h (e.pageTabEntToPfn lvl) (orders lvl) else h)
    (fun t _ h => freePages h t 0)) lvl root h

/-- The lambda of `countWritablePagesLamb`. -/
def countWritable (e : SimplePte) (lvl : ℕ) (counts : ℕ → ℕ) : ℕ → ℕ :=
  if e.isLeaf lvl then
    if e.rw then Function.update counts lvl (counts lvl + 1) else counts
  else counts

/-- `countWritablePagesLamb`. -/
def countWritablePagesLamb (counts : ℕ → ℕ) (root : Pfn) (lvl : ℕ) (h : PhysMem A) : ℕ → ℕ :=
  pageTables.traverse (fun _ => h.mem) (accessedPages countWritable fun _ _ s => s) lvl root counts

/-- `CountOwnedPages`. -/
def countOwnedPages (root : Pfn) (lvl : ℕ) (h : PhysMem A) : ℕ :=
  countWritablePagesLamb (fun _ => 0) root lvl h 1

/-- `CountOwnedPages`, with the valid entries instead of the accessed ones. -/
def countOwnedValidPages (root : Pfn) (lvl : ℕ) (h : PhysMem A) : ℕ :=
  pageTables.traverse (fun _ => h.mem) (validPages countWritable fun _ _ s => s) lvl root
    (fun _ => 0) 1

/-- The entries that `traversePageTable` visits, with their levels, for a predicate. -/
def visited (P : SimplePte → Bool) (root : Pfn) (lvl : ℕ) (h : PhysMem A) :
    List (ℕ × SimplePte) :=
  pageTables.traverse (fun _ => h.mem)
    { follow := fun e lvl s => (P e, if P e then s ++ [(lvl, e)] else s)
      beforeRec := fun _ _ s => s
      afterRec := fun _ _ _ s => s
      leaf := fun _ _ s => s
      beforeRet := fun _ _ s => s } lvl root []

end UmPgTblMgmt

open UmPgTblMgmt

variable {A : Allocator Pfn} {elf : Set Pfn}

/-! ## Traversals of slot page tables -/

section Traverse

variable {own : SimplePte → Bool} {h : PhysMem A} {t : Pfn}

theorem mem_freePages (h : PhysMem A) (f : Pfn) (order : ℕ) : (freePages h f order).mem = h.mem := by
  unfold freePages
  induction List.range (2 ^ order) generalizing h with
  | nil => rfl
  | cons i is ih => exact ih _

/-- An entry of a slot page table is accepted by both predicates, or by none. -/
theorem exists_and_accessed {l : ℕ} {e : SimplePte} (he : e.exists = true → SlotEntry l e) :
    (e.exists && e.a) = e.exists := by
  cases hexists : e.exists with
  | false => rfl
  | true => rw [(he hexists).1, Bool.and_self]

/-- Traversals of the accessed and of the valid pages do the same, if they do the same at leaves and
tables. -/
theorem accessedPages_matches {σ τ : Type} {R : σ → τ → Prop} {leafFn : SimplePte → ℕ → σ → σ}
    {leafFn' : SimplePte → ℕ → τ → τ} {bret : Pfn → ℕ → σ → σ} {bret' : Pfn → ℕ → τ → τ}
    (hleaf : ∀ l e s s', SlotEntry l e → e.isLeaf l = true → R s s' →
      R (leafFn e l s) (leafFn' e l s'))
    (hbret : ∀ l t s s', R s s' → R (bret t l s) (bret' t l s')) :
    Visitor.Matches pageTables SlotEntry (accessedPages leafFn bret) (validPages leafFn' bret') R where
  follow := fun _ _ _ _ he hR => ⟨exists_and_accessed he, rfl, hR⟩
  beforeRec := fun _ _ _ _ hR => hR
  afterRec := fun _ _ _ _ _ hR => hR
  leaf := hleaf
  beforeRet := hbret

/-- The entries that are visited do not depend on the predicate. -/
theorem visited_eq (htable : TableOf own h t) :
    visited (fun e => e.exists && e.a) t pdptLevel h = visited (·.exists) t pdptLevel h := by
  refine traverse_rel (R := fun s s' => s = s') ⟨fun _ _ _ _ he hR => ?_, fun _ _ _ _ hR => hR,
    fun _ _ _ _ _ hR => hR, fun _ _ _ _ _ _ hR => hR, fun _ _ _ _ hR => hR⟩ htable.entries
    (fun _ _ _ _ _ => ⟨rfl, rfl⟩) rfl
  refine ⟨exists_and_accessed he, rfl, ?_⟩
  simp only [exists_and_accessed he, hR]

/-- The owned pages are counted among the valid ones. -/
theorem countOwnedPages_eq (htable : TableOf own h t) :
    countOwnedPages t pdptLevel h = countOwnedValidPages t pdptLevel h := by
  refine congrFun (traverse_rel (R := fun s s' => s = s')
    (accessedPages_matches (fun l e s s' _ _ hR => ?_) fun _ _ _ _ hR => hR) htable.entries
    (fun _ _ _ _ _ => ⟨rfl, rfl⟩) rfl) 1
  rw [hR]

/-- The pages that are freed are the valid ones. -/
theorem freePageTableLamb_eq (htable : TableOf own h t) :
    freePageTableLamb t pdptLevel h = freeValidPages t pdptLevel h := by
  refine (traverse_rel (R := fun s s' => s = s' ∧ s'.mem = h.mem)
    (accessedPages_matches (fun l e s s' _ _ hR => ?_) fun l t s s' hR => ?_) htable.entries
    (fun s s' hR f _ => ?_) ⟨rfl, rfl⟩).1
  · obtain ⟨rfl, hmem⟩ := hR
    refine ⟨rfl, ?_⟩
    split_ifs
    · rw [mem_freePages, hmem]
    · exact hmem
  · obtain ⟨rfl, hmem⟩ := hR
    exact ⟨rfl, by rw [mem_freePages, hmem]⟩
  · obtain ⟨rfl, hmem⟩ := hR
    rw [hmem]
    exact ⟨rfl, rfl⟩

/-- The debug build frees the same pages, and its assertion does not fire. -/
theorem freePageTableLambDebug_eq (htable : TableOf own h t) :
    freePageTableLambDebug t pdptLevel h = (freePageTableLamb t pdptLevel h, false) := by
  rw [freePageTableLamb_eq htable]
  refine (traverse_rel (R := fun (s : PhysMem A × Bool) s' => s = (s', false) ∧ s'.mem = h.mem)
    (accessedPages_matches (fun l e s s' he hleaf hR => ?_) fun l t s s' hR => ?_) htable.entries
    (fun s s' hR f _ => ?_) ⟨rfl, rfl⟩).1
  · obtain ⟨rfl, hmem⟩ := hR
    obtain rfl := he.2 hleaf
    split_ifs
    · exact ⟨rfl, by rw [mem_freePages, hmem]⟩
    · exact ⟨rfl, hmem⟩
  · obtain ⟨rfl, hmem⟩ := hR
    exact ⟨rfl, by rw [mem_freePages, hmem]⟩
  · obtain ⟨rfl, hmem⟩ := hR
    rw [hmem]
    exact ⟨rfl, rfl⟩

end Traverse

/-! ## Runs -/

namespace Tables

variable {s : Tables A elf}

/-- What holds of the table `i`, at `t`. -/
structure Represented (s : Tables A elf) (i : ℕ) (t : Pfn) : Prop where
  /-- No page of the table is reached by two entries. -/
  tree : pageTables.Separate noFrames s.h.mem pdptLevel t
  /-- No page of the table is mapped by it. -/
  leaf_not_page : ∀ v l e, pageTables.leaf s.h.mem pdptLevel t v = some (l, e) →
    pageTables.next l e ∉ pageTables.nodes s.h.mem pdptLevel t
  /-- Entries in use are accessed, and leaves are at `TBL_LEVEL`. -/
  entries : pageTables.Entries SlotEntry s.h.mem pdptLevel t
  /-- The assertion of `walkPgTblCOW` does not fire. -/
  cow_assert : ∀ j ≠ i, walkPgTblCOWDebug t (s.root j) pdptLevel s.h ≠ .error .kassert
  /-- Nor that of `walkPgTblCopyDirtyCOW`. -/
  copyDirtyCOW_assert : ∀ j ≠ i,
    walkPgTblCopyDirtyCOWDebug t (s.root j) pdptLevel s.h ≠ .error .kassert
  /-- Nor that of `freePageTableLamb`. -/
  free_assert : (freePageTableLambDebug t pdptLevel s.h).2 = false
  /-- The accessed entries are the valid ones. -/
  visited_eq : visited (fun e => e.exists && e.a) t pdptLevel s.h = visited (·.exists) t pdptLevel s.h
  /-- So the valid pages are freed. -/
  free_eq : freePageTableLamb t pdptLevel s.h = freeValidPages t pdptLevel s.h
  /-- They are counted. -/
  count_eq : countOwnedPages t pdptLevel s.h = countOwnedValidPages t pdptLevel s.h

/-- A copy walker of the debug build stops only when memory has run out. -/
theorem Wf.walkCopy_ne_kassert (hwf : s.Wf) {i j : ℕ} {t : Pfn} (ht : s.root i = some t)
    (hj : j ≠ i) {deep : SimplePte → Bool}
    {leaf : SimplePte → ℕ → (ℕ → Key) → CopyState A → Except Stop (CopyState A)}
    (hleaf : ∀ D p idx e, Copied noFrames deep t s.h (s.root j) D p →
      slotLeaf s.h (some t) idx = some e → Outcome (leaf e tblLevel idx p)
        (Copied noFrames deep t s.h (s.root j) (D ∪ {w | SamePage w idx})) (· = .kbugon)) :
    walkCopy (kassertTbl leaf) t (s.root j) pdptLevel s.h ≠ .error .kassert := by
  intro herr
  have hwalk : Outcome (walkCopy (kassertTbl leaf) ..) _ _ :=
    walkCopy_outcome (hwf.copyable ht hj.symm deep) fun D p idx e hs he => hleaf D p idx e hs he
  exact absurd (hwalk.of_eq_error herr) (by decide)

theorem Wf.represented (hwf : s.Wf) {i : ℕ} {t : Pfn} (ht : s.root i = some t) :
    s.Represented i t := by
  have htable := hwf.apart.mappable i t ht
  refine { tree := htable.separate, leaf_not_page := fun v l e hleaf => ?_,
           entries := htable.entries, cow_assert := fun j hj => ?_,
           copyDirtyCOW_assert := fun j hj => ?_, free_assert := ?_,
           visited_eq := Umm.visited_eq htable, free_eq := freePageTableLamb_eq htable,
           count_eq := countOwnedPages_eq htable }
  · obtain ⟨-, -, -, hisLeaf⟩ := leaf_spec hleaf
    obtain rfl : l = 1 := (Entries.leaf htable.entries hleaf).2 hisLeaf
    have hslot : slotLeaf s.h (s.root i) v = some e := by
      rw [ht, slotLeaf, Option.bind_some, hleaf]
      rfl
    exact fun hnode => hwf.no_page i v e hslot i (ht ▸ mem_held.mpr hnode)
  · have hcopyable := hwf.copyable ht hj.symm fun _ => false
    exact hwf.walkCopy_ne_kassert ht hj fun D p idx e hs he =>
      cowLeaf_outcome hcopyable.rw_of_own hs he rfl
  · have hcopyable := hwf.copyable ht hj.symm SimplePte.rw
    exact hwf.walkCopy_ne_kassert ht hj fun D p idx e hs he =>
      copyDirtyCOWLeaf_outcome hcopyable hs he
  · rw [freePageTableLambDebug_eq htable]

/-- Every table in every state is well represented. -/
theorem represented_run (boot : BootMem A elf) (steps : List (TableStep elf)) :
    AllStates step (fun s => ∀ i t, s.root i = some t → s.Represented i t) (init boot) steps :=
  allStates_of_invariant' (fun _ hwf _ _ ht => Wf.represented hwf ht)
    (fun _ _ _ hwf hstep => hwf.of_step hstep) (wf_init boot)

end Tables

end Umm
