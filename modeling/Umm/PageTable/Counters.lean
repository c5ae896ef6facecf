import Umm.Foundations.RadixVisits
import Umm.PageTable.Representation
import Umm.PageTable.Translate

/-!
# Counting pages and entries

The counters of `UmPgTblMgmt` come in pairs: a recursion of its own, and a lambda for one of the
traversals.  The recursions that count pages look at every leaf, while the lambdas for accessed and
dirty pages only see the leaves below accessed entries.  The recursion that counts entries goes on
until `TBL_LEVEL`, while its lambda stops at the leaves.

All of them are loops over the entries that they visit, and are compared as such.
-/

namespace Umm

open Foundations Foundations.Layout

namespace UmPgTblMgmt

/-- `std::vector<uint64_t>`: the counts of the levels. -/
abbrev Counts := List Word

/-- `counts[lvl]++`. -/
def bump (counts : Counts) (lvl : ℕ) : Counts :=
  counts.modify lvl (· + 1)

section Counters

variable (m : Pfn → Key → SimplePte)

/-! ## The recursions -/

/-- The recursion over the leaves, which counts those with a property. -/
def countPagesHelper (counted : SimplePte → Bool) : ℕ → Counts → Pfn → Counts
  | 0, counts, _ => counts
  | lvl + 1, counts, root =>
    tableKeys.foldl (fun counts i =>
      if !(m root i).exists then counts
      else if (m root i).isLeaf (lvl + 1) then
        if counted (m root i) then bump counts (lvl + 1) else counts
      else countPagesHelper counted lvl counts ((m root i).pageTabEntToPfn (lvl + 1))) counts

/-- `countValidPagesHelper`. -/
def countValidPagesHelper : ℕ → Counts → Pfn → Counts :=
  countPagesHelper m fun _ => true

/-- `countAccessedPagesHelper`. -/
def countAccessedPagesHelper : ℕ → Counts → Pfn → Counts :=
  countPagesHelper m SimplePte.a

/-- `countDirtyPagesHelper`. -/
def countDirtyPagesHelper : ℕ → Counts → Pfn → Counts :=
  countPagesHelper m SimplePte.dirty

/-- `countValidPTEsHelper`. -/
def countValidPTEsHelper : ℕ → Counts → Pfn → Counts
  | 0, counts, _ => counts
  | lvl + 1, counts, root =>
    tableKeys.foldl (fun counts i =>
      if !(m root i).exists then counts
      else
        let counts := bump counts (lvl + 1)
        if lvl + 1 > tblLevel then
          countValidPTEsHelper lvl counts ((m root i).pageTabEntToPfn (lvl + 1))
        else counts) counts

/-- What the counters do before they call their helpers: without a root, they count in the table of
the top level that is in use. -/
def countFrom (helper : ℕ → Counts → Pfn → Counts) (pml4Root : Pfn) (counts : Counts)
    (root : Option Pfn) (lvl : ℕ) : Except Stop Counts :=
  if root = none ∧ lvl ≠ pml4Level then .error .kassert
  else if counts.length ≠ 5 then .error .kassert
  else .ok (helper lvl counts (root.getD pml4Root))

/-- `countValidPages`. -/
def countValidPages : Pfn → Counts → Option Pfn → ℕ → Except Stop Counts :=
  countFrom (countValidPagesHelper m)

/-- `countAccessedPages`. -/
def countAccessedPages : Pfn → Counts → Option Pfn → ℕ → Except Stop Counts :=
  countFrom (countAccessedPagesHelper m)

/-- `countDirtyPages`. -/
def countDirtyPages : Pfn → Counts → Option Pfn → ℕ → Except Stop Counts :=
  countFrom (countDirtyPagesHelper m)

/-- `countValidPTEs`. -/
def countValidPTEs : Pfn → Counts → Option Pfn → ℕ → Except Stop Counts :=
  countFrom (countValidPTEsHelper m)

/-! ## The lambdas -/

/-- The lambda of `countValidPagesLamb` and `countAccessedPagesLamb`. -/
def countLeaf (_e : SimplePte) (lvl : ℕ) (counts : Counts) : Counts :=
  bump counts lvl

/-- The lambda of `countDirtyPagesLamb`. -/
def countDirty (e : SimplePte) (lvl : ℕ) (counts : Counts) : Counts :=
  if e.isLeaf lvl then if e.dirty then bump counts lvl else counts else counts

/-- `countValidPagesLamb`. -/
def countValidPagesLamb (counts : Counts) (root : Pfn) (lvl : ℕ) : Counts :=
  pageTables.traverse (fun _ => m) (validPages countLeaf fun _ _ s => s) lvl root counts

/-- `countAccessedPagesLamb`. -/
def countAccessedPagesLamb (counts : Counts) (root : Pfn) (lvl : ℕ) : Counts :=
  pageTables.traverse (fun _ => m) (accessedPages countLeaf fun _ _ s => s) lvl root counts

/-- `countDirtyPagesLamb`. -/
def countDirtyPagesLamb (counts : Counts) (root : Pfn) (lvl : ℕ) : Counts :=
  pageTables.traverse (fun _ => m) (accessedPages countDirty fun _ _ s => s) lvl root counts

/-- `countValidPTEsLamb`, which counts in its predicate. -/
def countValidPTEsLamb (counts : Counts) (root : Pfn) (lvl : ℕ) : Counts :=
  pageTables.traverse (fun _ => m)
    { follow := fun e lvl counts => (e.exists, if e.exists then bump counts lvl else counts)
      beforeRec := fun _ _ s => s
      afterRec := fun _ _ _ s => s
      leaf := fun _ _ s => s
      beforeRet := fun _ _ s => s } lvl root counts

end Counters

/-! ## Counts of lists -/

/-- Count the entries of a list, each at its level. -/
def bumps (counts : Counts) (es : List (ℕ × SimplePte)) : Counts :=
  es.foldl (fun counts x => bump counts x.1) counts

section Bumps

variable {counts : Counts} {es es' : List (ℕ × SimplePte)}

theorem bumps_filter (q : ℕ × SimplePte → Bool) : bumps counts (es.filter q) =
    es.foldl (fun counts x => if q x = true then bump counts x.1 else counts) counts := by
  rw [bumps, List.foldl_filter]

/-- What has been added to a count. -/
theorem getElem?_bumps (l : ℕ) : (bumps counts es)[l]? =
    counts[l]?.map (· + BitVec.ofNat 64 ((es.map Prod.fst).count l)) := by
  induction es generalizing counts with
  | nil => simp [bumps]
  | cons x es ih =>
    have hcons : bumps counts (x :: es) = bumps (bump counts x.1) es := rfl
    rw [hcons, ih, bump, List.getElem?_modify, List.map_cons, List.count_cons]
    cases counts[l]? with
    | none => rfl
    | some n =>
      by_cases hl : x.1 = l
      · simp only [hl, if_true, beq_self_eq_true, Option.map_some, Option.map_eq_map]
        rw [BitVec.ofNat_add, BitVec.add_assoc, BitVec.add_comm 1]
        rfl
      · simp [hl]

/-- Lists of which one is part of the other are counted alike only if they are the same, as long as
no count overflows. -/
theorem bumps_injective (hsub : es.Sublist es') (hlevel : ∀ x ∈ es', x.1 < counts.length)
    (hlength : es'.length < 2 ^ 64) (heq : bumps counts es = bumps counts es') : es = es' := by
  refine hsub.eq_of_length ?_
  have hperm : (es.map Prod.fst).Perm (es'.map Prod.fst) := by
    refine List.perm_iff_count.mpr fun l => ?_
    have hle := (hsub.map Prod.fst).count_le l
    have hmax := List.count_le_length (a := l) (l := es'.map Prod.fst)
    rw [List.length_map] at hmax
    by_cases hl : l < counts.length
    · have hl' := congrArg (fun counts : Counts => counts[l]?) heq
      simp only [getElem?_bumps, List.getElem?_eq_getElem hl, Option.map_some,
        Option.some.injEq] at hl'
      have hword := congrArg BitVec.toNat ((BitVec.add_right_inj _).mp hl')
      rwa [BitVec.toNat_ofNat, BitVec.toNat_ofNat, Nat.mod_eq_of_lt (by omega),
        Nat.mod_eq_of_lt (by omega)] at hword
    · have hnone : (es'.map Prod.fst).count l = 0 := by
        refine List.count_eq_zero.mpr fun hmem => ?_
        obtain ⟨x, hx, rfl⟩ := List.mem_map.mp hmem
        exact hl (hlevel x hx)
      omega
  have hlen := hperm.length_eq
  rwa [List.length_map, List.length_map] at hlen

end Bumps

/-! ## The counters as loops -/

section Loops

variable {m : Pfn → Key → SimplePte} {counts : Counts} {lvl : ℕ} {t : Pfn}

/-- The recursion counts the leaves with the property. -/
theorem countPagesHelper_eq (counted : SimplePte → Bool) : countPagesHelper m counted lvl counts t =
    bumps counts ((pageTables.leaves m lvl t).filter fun x => counted x.2) := by
  induction lvl generalizing counts t with
  | zero => rfl
  | succ lvl ih =>
    rw [countPagesHelper, leaves, List.filter_flatMap, bumps, List.foldl_flatMap]
    change List.foldl _ _ pageTables.keys = _
    congr 1
    funext counts k
    rcases pageTables.entry_cases (lvl + 1) (m t k) with habsent | ⟨hpresent, hleaf⟩ | ⟨c, hc⟩
    · have hexists : SimplePte.exists (m t k) = false := habsent
      simp [entryLeaves_of_absent habsent, hexists]
    · have hexists : SimplePte.exists (m t k) = true := hpresent
      have hisLeaf : SimplePte.isLeaf (m t k) (lvl + 1) = true := hleaf
      rw [entryLeaves_of_leaf hpresent hleaf]
      cases hcounted : counted (m t k) with
      | true => simp [hexists, hisLeaf, hcounted]
      | false => simp [hexists, hisLeaf, hcounted]
    · rw [entryLeaves_of_child hc]
      obtain ⟨hpresent, hleaf, rfl⟩ := child_eq_some.mp hc
      have hexists : SimplePte.exists (m t k) = true := hpresent
      have hisLeaf : SimplePte.isLeaf (m t k) (lvl + 1) = false := hleaf
      simp only [hexists, hisLeaf, Bool.not_true, Bool.false_eq_true, if_false]
      exact ih

/-- The recursion over the entries goes on until `TBL_LEVEL`. -/
theorem countValidPTEsHelper_eq : countValidPTEsHelper m lvl counts t =
    bumps counts (pageTables.visits pageTables.present (fun l _ => l == 1) m lvl t) := by
  induction lvl generalizing counts t with
  | zero => rfl
  | succ lvl ih =>
    rw [countValidPTEsHelper, visits, bumps, List.foldl_flatMap]
    change List.foldl _ _ pageTables.keys = _
    congr 1
    funext counts k
    rw [entryVisits]
    cases hexists : SimplePte.exists (m t k) with
    | false =>
      have hpresent : pageTables.present (m t k) = false := hexists
      simp [hpresent]
    | true =>
      have hpresent : pageTables.present (m t k) = true := hexists
      cases lvl with
      | zero => simp [hpresent]
      | succ lvl =>
        simp only [hpresent, Bool.not_true, Bool.false_eq_true, if_false, if_true,
          if_pos (show lvl + 1 + 1 > tblLevel by simp), show (lvl + 1 + 1 == 1) = false by simp,
          List.foldl_cons]
        exact ih

/-- Its lambda stops at the leaves. -/
theorem countValidPTEsLamb_eq : countValidPTEsLamb m counts t lvl =
    bumps counts (pageTables.visits pageTables.present pageTables.isLeaf m lvl t) := by
  refine traverse_eq_foldl_visits (fun l e s hp => ?_) (fun l e s hp _ => ?_)
    (fun l e s hp _ => ?_) (fun _ _ _ _ => rfl) fun _ _ _ => rfl
  all_goals
    have hexists : SimplePte.exists e = _ := hp
    simp [hexists]

/-- A lambda that counts leaves with a property below the entries that are followed. -/
theorem traverse_eq_bumps {V : Visitor SimplePte Pfn Counts} {p q : SimplePte → Bool}
    (hfollow : ∀ l e s, V.follow e l s = (p e, s))
    (hleaf : ∀ l e s, p e = true → e.isLeaf l = true →
      V.leaf e l s = if q e = true then bump s l else s)
    (hbeforeRec : ∀ l e s, V.beforeRec e l s = s) (hafterRec : ∀ l c e s, V.afterRec c e l s = s)
    (hbeforeRet : ∀ l t s, V.beforeRet t l s = s) :
    pageTables.traverse (fun _ => m) V lvl t counts =
      bumps counts ((pageTables.visits p pageTables.isLeaf m lvl t).filter
        fun x => pageTables.isLeaf x.1 x.2 && q x.2) := by
  rw [bumps_filter]
  refine traverse_eq_foldl_visits (fun l e s hp => ?_) (fun l e s hp hisLeaf => ?_)
    (fun l e s hp hisLeaf => ?_) hafterRec hbeforeRet
  · rw [hfollow, hp]
  · rw [hfollow, hisLeaf, Bool.true_and]
    exact ⟨hp, hleaf l e s hp hisLeaf⟩
  · rw [hfollow, hisLeaf]
    exact ⟨hp, hbeforeRec l e s⟩

end Loops

/-! ## Agreement of the page counters -/

/-- As the processor keeps it: a page that has been written has been used, and so have the entries
that lead to a page in use. -/
structure AccessedUpward (m : Pfn → Key → SimplePte) (lvl : ℕ) (t : Pfn) : Prop where
  /-- A dirty leaf is accessed. -/
  dirty : ∀ v l e, pageTables.leaf m lvl t v = some (l, e) → e.dirty = true → e.a = true
  /-- Every entry above an accessed leaf is accessed. -/
  above : ∀ v l e, pageTables.leaf m lvl t v = some (l, e) → e.a = true →
    pageTables.allOn SimplePte.a m lvl t v = true

section Agreement

variable {m : Pfn → Key → SimplePte} {counts : Counts} {lvl : ℕ} {t pml4Root : Pfn}
  {root : Option Pfn}

/-- What a counter returns that does not stop. -/
theorem countFrom_eq {helper : ℕ → Counts → Pfn → Counts} (hroot : root = none → lvl = pml4Level)
    (ht : root.getD pml4Root = t) (hcounts : counts.length = 5) :
    countFrom helper pml4Root counts root lvl = .ok (helper lvl counts t) := by
  unfold countFrom
  rw [if_neg fun h => h.2 (hroot h.1), if_neg fun h => h hcounts, ht]

/-- A walk over accessed entries meets the accessed leaves. -/
theorem AccessedUpward.filter_visits (hm : AccessedUpward m lvl t) {q : SimplePte → Bool}
    (hq : ∀ v l e, pageTables.leaf m lvl t v = some (l, e) → q e = true → e.a = true) :
    (pageTables.visits (fun e => e.exists && e.a) pageTables.isLeaf m lvl t).filter
        (fun x => pageTables.isLeaf x.1 x.2 && q x.2) =
      (pageTables.leaves m lvl t).filter fun x => q x.2 := by
  refine Layout.filter_visits (fun e he => (Bool.and_eq_true_iff.mp he).1) fun v l e hleaf hqe => ?_
  rw [allOn_and, hm.above v l e hleaf (hq v l e hleaf hqe), Bool.and_true]
  exact allOn_present hleaf

/-- The counters of valid, accessed and dirty pages agree with their lambdas, in every table. -/
theorem pageCounters_agree (hm : AccessedUpward m lvl t) (hroot : root = none → lvl = pml4Level)
    (ht : root.getD pml4Root = t) (hcounts : counts.length = 5) :
    countValidPages m pml4Root counts root lvl = .ok (countValidPagesLamb m counts t lvl) ∧
    countAccessedPages m pml4Root counts root lvl = .ok (countAccessedPagesLamb m counts t lvl) ∧
    countDirtyPages m pml4Root counts root lvl = .ok (countDirtyPagesLamb m counts t lvl) := by
  refine ⟨?_, ?_, ?_⟩
  · have hvalid : countValidPagesLamb m counts t lvl = bumps counts
        ((pageTables.visits pageTables.present pageTables.isLeaf m lvl t).filter
          fun x => pageTables.isLeaf x.1 x.2 && true) :=
      traverse_eq_bumps (q := fun _ => true) (fun _ _ _ => rfl) (fun _ _ _ _ _ => rfl)
        (fun _ _ _ => rfl) (fun _ _ _ _ => rfl) fun _ _ _ => rfl
    rw [hvalid, Layout.filter_visits (q := fun _ => true) (fun _ he => he)
      fun v l e hleaf _ => allOn_present hleaf]
    exact (countFrom_eq hroot ht hcounts).trans (congrArg Except.ok (countPagesHelper_eq _))
  · have haccessed : countAccessedPagesLamb m counts t lvl = bumps counts
        ((pageTables.visits (fun e => e.exists && e.a) pageTables.isLeaf m lvl t).filter
          fun x => pageTables.isLeaf x.1 x.2 && x.2.a) :=
      traverse_eq_bumps (q := SimplePte.a) (fun _ _ _ => rfl)
        (fun _ _ _ hp _ => (if_pos (Bool.and_eq_true_iff.mp hp).2).symm) (fun _ _ _ => rfl)
        (fun _ _ _ _ => rfl) fun _ _ _ => rfl
    rw [haccessed, hm.filter_visits fun _ _ _ _ he => he]
    exact (countFrom_eq hroot ht hcounts).trans (congrArg Except.ok (countPagesHelper_eq _))
  · have hdirty : countDirtyPagesLamb m counts t lvl = bumps counts
        ((pageTables.visits (fun e => e.exists && e.a) pageTables.isLeaf m lvl t).filter
          fun x => pageTables.isLeaf x.1 x.2 && x.2.dirty) :=
      traverse_eq_bumps (q := SimplePte.dirty) (fun _ _ _ => rfl)
        (fun _ _ _ _ hleaf => if_pos hleaf) (fun _ _ _ => rfl) (fun _ _ _ _ => rfl) fun _ _ _ => rfl
    rw [hdirty, hm.filter_visits hm.dirty]
    exact (countFrom_eq hroot ht hcounts).trans (congrArg Except.ok (countPagesHelper_eq _))

/-- A table whose entries are all accessed, such as those that the mappers make. -/
theorem AccessedUpward.of_entries (hentries : pageTables.Entries (fun _ e => e.a = true) m lvl t) :
    AccessedUpward m lvl t where
  dirty := fun _ _ _ hleaf _ => Entries.leaf hentries hleaf
  above := fun _ _ _ hleaf _ => allOn_of_entries hentries hleaf

end Agreement

/-- A table of `DIR_LEVEL` in the frame 1: its first entry maps the large page at the frame 512, where
the first word has the bits of an entry in use, and the next one leads to a table in the frame 2,
with one page. -/
def mixedTables : Pfn → Key → SimplePte := fun t k =>
  if t = 1 ∧ k = 0 then SimplePte.setPte 512 true true true true false ||| SimplePte.bit true 7
  else if t = 1 ∧ k = 1 then SimplePte.setPte 2 false true true true false
  else if t = 2 ∧ k = 3 then SimplePte.setPte 9 false true true true false
  else if t = 512 ∧ k = 0 then 0x21
  else 0

theorem a_mixedTables (t : Pfn) (k : Key) (hexists : (mixedTables t k).exists = true) :
    (mixedTables t k).a = true := by
  unfold mixedTables at *
  split_ifs at hexists ⊢
  · decide
  · decide
  · decide
  · decide
  · exact absurd hexists (by decide)

/-- There, all counters of pages find the large page and the small one. -/
theorem pageCounters_agree_mixedTables :
    countValidPages mixedTables 0 [0, 0, 0, 0, 0] (some 1) dirLevel = .ok [0, 1, 1, 0, 0] ∧
    countValidPagesLamb mixedTables [0, 0, 0, 0, 0] 1 dirLevel = [0, 1, 1, 0, 0] ∧
    countDirtyPages mixedTables 0 [0, 0, 0, 0, 0] (some 1) dirLevel = .ok [0, 0, 1, 0, 0] ∧
    countDirtyPagesLamb mixedTables [0, 0, 0, 0, 0] 1 dirLevel = [0, 0, 1, 0, 0] := by
  have hvalid : countValidPages mixedTables 0 [0, 0, 0, 0, 0] (some 1) dirLevel =
      .ok [0, 1, 1, 0, 0] := by decide +kernel
  have hdirty : countDirtyPages mixedTables 0 [0, 0, 0, 0, 0] (some 1) dirLevel =
      .ok [0, 0, 1, 0, 0] := by decide +kernel
  have hm : AccessedUpward mixedTables dirLevel 1 :=
    AccessedUpward.of_entries (Entries.of_forall fun _ f k => a_mixedTables f k)
  have hroot : some (1 : Pfn) = none → dirLevel = pml4Level := nofun
  have hcounts : ([0, 0, 0, 0, 0] : Counts).length = 5 := rfl
  have ht : (some (1 : Pfn)).getD 0 = 1 := rfl
  obtain ⟨hvalid', -, hdirty'⟩ := pageCounters_agree hm hroot ht hcounts
  exact ⟨hvalid, Except.ok.inj (hvalid'.symm.trans hvalid), hdirty,
    Except.ok.inj (hdirty'.symm.trans hdirty)⟩

/-! ## The counters of entries -/

/-- The two counters of entries leave the same counts, and nothing but the pages of the table bears
on what they leave. -/
structure PTECountersAgree (m : Pfn → Key → SimplePte) (pml4Root : Pfn) (counts : Counts) (t : Pfn)
    (lvl : ℕ) : Prop where
  /-- The counts are the same. -/
  eq : countValidPTEs m pml4Root counts (some t) lvl = .ok (countValidPTEsLamb m counts t lvl)
  /-- The recursion reads only pages of the table. -/
  reads : ∀ m' : Pfn → Key → SimplePte, (∀ f ∈ pageTables.nodes m lvl t, m' f = m f) →
    countValidPTEs m' pml4Root counts (some t) lvl = countValidPTEs m pml4Root counts (some t) lvl
  /-- So does the lambda. -/
  reads_lamb : ∀ m' : Pfn → Key → SimplePte, (∀ f ∈ pageTables.nodes m lvl t, m' f = m f) →
    countValidPTEsLamb m' counts t lvl = countValidPTEsLamb m counts t lvl

section Entries

variable {m : Pfn → Key → SimplePte} {counts : Counts} {lvl : ℕ} {t pml4Root : Pfn}

/-- The pages that large leaves lead to have no entry in use. -/
def EmptyBelowLeaves (m : Pfn → Key → SimplePte) (lvl : ℕ) (t : Pfn) : Prop :=
  ∀ v l e, pageTables.leaf m lvl t v = some (l, e) → dirLevel ≤ l →
    ∀ k, (m (e.pageTabEntToPfn l) k).exists = false

/-- The counts are the same exactly if there is nothing to count below the large leaves. -/
theorem countValidPTEs_eq_iff (h4 : lvl ≤ pml4Level) (hcounts : counts.length = 5) :
    countValidPTEs m pml4Root counts (some t) lvl = .ok (countValidPTEsLamb m counts t lvl) ↔
      EmptyBelowLeaves m lvl t := by
  have hdirect : countValidPTEs m pml4Root counts (some t) lvl =
      .ok (countValidPTEsHelper m lvl counts t) := countFrom_eq nofun rfl hcounts
  rw [hdirect, countValidPTEsHelper_eq, countValidPTEsLamb_eq, Except.ok.injEq]
  refine Iff.trans ⟨fun heq => ?_, fun heq => by rw [heq]⟩ visits_isLeaf_eq_iff
  have hkeys : pageTables.keys.length = 512 := length_tableKeys
  have hlength : (pageTables.visits pageTables.present (fun l _ => l == 1) m lvl t).length ≤ _ :=
    length_visits_le
  refine bumps_injective (visits_sublist fun l e hl => ?_) (fun x hx => ?_) ?_ heq.symm
  · rw [beq_iff_eq.mp hl]
    exact pageTables.isLeaf_one e
  · have hl := level_of_mem_visits (show (x.1, x.2) ∈ _ from hx)
    have hle : lvl ≤ 4 := h4
    omega
  · refine Nat.lt_of_le_of_lt hlength ?_
    rw [hkeys]
    obtain rfl | rfl | rfl | rfl | rfl : lvl = 0 ∨ lvl = 1 ∨ lvl = 2 ∨ lvl = 3 ∨ lvl = 4 := by
      have hle : lvl ≤ 4 := h4
      omega
    all_goals decide

/-- The counters of entries agree exactly if each large leaf maps a page of the table, and that page
has no entry in use. -/
theorem pteCountersAgree_iff (h4 : lvl ≤ pml4Level) (hcounts : counts.length = 5) :
    PTECountersAgree m pml4Root counts t lvl ↔
      ∀ v l e, pageTables.leaf m lvl t v = some (l, e) → dirLevel ≤ l →
        e.pageTabEntToPfn l ∈ pageTables.nodes m lvl t ∧
        ∀ k, (m (e.pageTabEntToPfn l) k).exists = false := by
  have hlamb : ∀ m' : Pfn → Key → SimplePte, (∀ f ∈ pageTables.nodes m lvl t, m' f = m f) →
      countValidPTEsLamb m' counts t lvl = countValidPTEsLamb m counts t lvl := by
    intro m' hm'
    rw [countValidPTEsLamb_eq, countValidPTEsLamb_eq, visits_congr hm']
  constructor
  · intro hagree v l e hleaf h2
    have hempty := (countValidPTEs_eq_iff h4 hcounts).mp hagree.eq v l e hleaf h2
    refine ⟨?_, hempty⟩
    -- if the page is not one of the table, fill it with entries
    by_contra hnode
    let m' := Function.update m (e.pageTabEntToPfn l) fun _ => (1 : SimplePte)
    have hm' : ∀ f ∈ pageTables.nodes m lvl t, m' f = m f :=
      fun f hf => Function.update_of_ne (ne_of_mem_of_not_mem hf hnode) ..
    have heq' : countValidPTEs m' pml4Root counts (some t) lvl =
        .ok (countValidPTEsLamb m' counts t lvl) := by
      rw [hagree.reads m' hm', hagree.eq, hlamb m' hm']
    have hfilled := (countValidPTEs_eq_iff h4 hcounts).mp heq' v l e
      ((leaf_congr hm' v).trans hleaf) h2 0
    rw [show m' (e.pageTabEntToPfn l) = fun _ => 1 from Function.update_self ..] at hfilled
    exact absurd hfilled (by decide)
  · intro hall
    have heq : countValidPTEs m pml4Root counts (some t) lvl =
        .ok (countValidPTEsLamb m counts t lvl) :=
      (countValidPTEs_eq_iff h4 hcounts).mpr fun v l e hleaf h2 => (hall v l e hleaf h2).2
    refine ⟨heq, fun m' hm' => ?_, hlamb⟩
    have heq' : countValidPTEs m' pml4Root counts (some t) lvl =
        .ok (countValidPTEsLamb m' counts t lvl) := by
      refine (countValidPTEs_eq_iff h4 hcounts).mpr fun v l e hleaf h2 k => ?_
      obtain ⟨hnode, hempty⟩ := hall v l e ((leaf_congr hm' v).symm.trans hleaf) h2
      rw [hm' _ hnode, hempty]
    rw [heq', heq, hlamb m' hm']

end Entries

/-- The table of the first page counts the same with both, since it has no large leaf. -/
theorem pteCountersAgree_iff_fourTables :
    PTECountersAgree fourTables 0 [0, 0, 0, 0, 0] 1 pml4Level := by
  refine (pteCountersAgree_iff (Nat.le_refl pml4Level) rfl).mpr fun v l e hleaf h2 => ?_
  have hentries : pageTables.Entries LeafAtTable fourTables pml4Level 1 := by
    refine Entries.of_forall fun l t k _ hisLeaf => ?_
    unfold fourTables at hisLeaf
    split_ifs at hisLeaf
    · simpa [SimplePte.isLeaf] using hisLeaf
    · rw [SimplePte.isLeaf, show SimplePte.maps 0 = false from rfl, Bool.or_false] at hisLeaf
      exact beq_iff_eq.mp hisLeaf
  obtain rfl : l = tblLevel := Entries.leaf hentries hleaf (leaf_spec hleaf).2.2.2
  exact absurd h2 (by decide)

section Mixed

variable {k : Key} {f : Pfn}

/-- Only the second entry of the root leads to a table. -/
theorem mem_entryFrames_mixedTables :
    f ∈ pageTables.entryFrames (fun _ => false)
      (pageTables.nodes mixedTables tblLevel) dirLevel (mixedTables 1 k) ↔ k = 1 ∧ f = 2 := by
  by_cases h1 : k = 1
  · subst h1
    have hc : pageTables.child dirLevel (mixedTables 1 1) = some 2 := by decide
    rw [entryFrames_of_child hc, mem_nodes_one]
    simp
  refine iff_of_false (fun hf => ?_) fun hk => h1 hk.1
  rcases pageTables.entry_cases dirLevel (mixedTables 1 k) with habsent | ⟨hpres, hleaf⟩ | ⟨c, hc⟩
  · rw [entryFrames_of_absent habsent] at hf
    exact hf
  · exact absurd ((mem_entryFrames_of_leaf hpres hleaf).mp hf).1 (by simp)
  · by_cases h0 : k = 0
    · subst h0
      rw [show pageTables.child dirLevel (mixedTables 1 0) = none by decide] at hc
      cases hc
    · have hentry : mixedTables 1 k = 0 := by
        unfold mixedTables
        rw [if_neg fun h => h0 h.2, if_neg fun h => h1 h.2,
          if_neg fun h => absurd h.1 (by decide), if_neg fun h => absurd h.1 (by decide)]
      rw [hentry, show pageTables.child dirLevel (0 : SimplePte) = none by decide] at hc
      cases hc

end Mixed

/-- In the table with a large page, the recursion walks the page and counts its first word; the table
is a tree, and the large page is none of its pages. -/
theorem not_pteCountersAgree_mixedTables :
    pageTables.Separate (fun _ => false) mixedTables dirLevel 1 ∧
    (512 : Pfn) ∉ pageTables.nodes mixedTables dirLevel 1 ∧
    countValidPTEs mixedTables 0 [0, 0, 0, 0, 0] (some 1) dirLevel = .ok [0, 2, 2, 0, 0] ∧
    countValidPTEsLamb mixedTables [0, 0, 0, 0, 0] 1 dirLevel = [0, 1, 2, 0, 0] ∧
    ¬ PTECountersAgree mixedTables 0 [0, 0, 0, 0, 0] 1 dirLevel := by
  have hdirect : countValidPTEs mixedTables 0 [0, 0, 0, 0, 0] (some 1) dirLevel =
      .ok [0, 2, 2, 0, 0] := by decide +kernel
  have hlamb : countValidPTEsLamb mixedTables [0, 0, 0, 0, 0] 1 dirLevel = [0, 1, 2, 0, 0] := by
    decide +kernel
  refine ⟨⟨fun k hmem => ?_, fun k k' hk => ?_, fun k c _ => ?_⟩, ?_, hdirect, hlamb,
    fun hagree => ?_⟩
  · exact absurd (mem_entryFrames_mixedTables.mp hmem).2 (by decide)
  · refine Set.disjoint_left.mpr fun f hf hf' => hk ?_
    rw [(mem_entryFrames_mixedTables.mp hf).1, (mem_entryFrames_mixedTables.mp hf').1]
  · exact separate_one
  · rintro (hroot | ⟨k, hmem⟩)
    · exact absurd hroot (by decide)
    · exact absurd (mem_entryFrames_mixedTables.mp hmem).2 (by decide)
  · have heq := hagree.eq
    rw [hdirect, hlamb] at heq
    exact absurd heq (by decide)

end UmPgTblMgmt

end Umm
