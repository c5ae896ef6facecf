import Mathlib.Data.List.Nodup
import Mathlib.Data.List.Perm.Basic
import Umm.Foundations.RadixWalk

/-!
# What a radix tree holds, in order

`frameList` lists the frames that a table holds in the order in which a traversal leaves them: the
frames below an entry before those of the next one, and the table last.  `leaves` lists the leaves.
In a separate table no frame is listed twice.

The traversal that frees a table calls `free` on the frames of `frameList`, one after the other.  It
does so whatever is read from frames that are free: it reads no table that it has freed.
-/

namespace Foundations

variable {K E F P : Type}

/-! ## Freeing the frames of a list -/

namespace Heap

variable {A : Allocator F} {h : Heap A P} {fs : List F}

/-- Free the frames of a list, one after the other. -/
def freeAll (h : Heap A P) (fs : List F) : Heap A P :=
  fs.foldl Heap.free h

theorem freeAll_append (fs gs : List F) : h.freeAll (fs ++ gs) = (h.freeAll fs).freeAll gs :=
  List.foldl_append ..

@[simp] theorem mem_freeAll : (h.freeAll fs).mem = h.mem := by
  induction fs generalizing h with
  | nil => rfl
  | cons f fs ih => exact ih

/-- The log of the calls of `free`. -/
theorem freeCalls_freeAll (h : Heap A P) (fs : List F) :
    ∃ calls, (h.freeAll fs).freeCalls = calls ++ h.freeCalls ∧
    calls.map Prod.snd = fs.reverse := by
  induction fs generalizing h with
  | nil => exact ⟨[], rfl, rfl⟩
  | cons f fs ih =>
    obtain ⟨calls, hcalls, hmap⟩ := ih (h.free f)
    refine ⟨calls ++ [(h.pal, f)], ?_, ?_⟩
    · rw [List.append_assoc]
      exact hcalls
    · rw [List.map_append, hmap, List.reverse_cons]
      rfl

/-- What freeing the frames of a list does. -/
theorem freed_freeAll (hnodup : fs.Nodup) (hused : ∀ f ∈ fs, ¬ h.IsFree f) :
    Heap.Freed {f | f ∈ fs} h (h.freeAll fs) := by
  induction fs generalizing h with
  | nil => exact (Freed.refl h).congr (by simp)
  | cons f fs ih =>
    obtain ⟨hf, hrest⟩ := List.nodup_cons.mp hnodup
    have hstep := freed_free (hused f List.mem_cons_self)
    refine (hstep.trans (ih hrest fun g hg hfree => ?_)).congr (Set.ext fun g => ?_)
    · rcases (hstep.isFree g).mp hfree with hfree | rfl
      · exact hused g (List.mem_cons_of_mem f hg) hfree
      · exact hf hg
    · simp

end Heap

namespace Layout

variable (L : Layout K E F) (own : E → Bool) (m : F → K → E)

/-! ## Lists of frames and leaves -/

/-- The frames an entry holds, where `sub` lists those of a table one level below. -/
def entryList (sub : F → List F) (lvl : ℕ) (e : E) : List F :=
  if L.present e then
    if L.isLeaf lvl e then if own e then [L.next lvl e] else []
    else sub (L.next lvl e)
  else []

/-- The frames a table of the level holds. -/
def frameList : ℕ → F → List F
  | 0, _ => []
  | lvl + 1, t => L.keys.flatMap (fun k => L.entryList own (frameList lvl) (lvl + 1) (m t k)) ++ [t]

/-- The leaves of an entry, where `sub` lists those of a table one level below. -/
def entryLeaves (sub : F → List (ℕ × E)) (lvl : ℕ) (e : E) : List (ℕ × E) :=
  if L.present e then if L.isLeaf lvl e then [(lvl, e)] else sub (L.next lvl e) else []

/-- The leaves of a table of the level, with their levels. -/
def leaves : ℕ → F → List (ℕ × E)
  | 0, _ => []
  | lvl + 1, t => L.keys.flatMap fun k => L.entryLeaves (leaves lvl) (lvl + 1) (m t k)

section Lists

variable {L own m} {lvl l : ℕ} {t c f : F} {e : E} {sub : F → List F} {sub' : F → List (ℕ × E)}

theorem entryList_of_absent (h : L.present e = false) : L.entryList own sub lvl e = [] := by
  simp [entryList, h]

theorem entryList_of_leaf (h : L.present e = true) (hleaf : L.isLeaf lvl e = true) :
    L.entryList own sub lvl e = if own e then [L.next lvl e] else [] := by
  simp [entryList, h, hleaf]

theorem entryList_of_child (h : L.child lvl e = some c) : L.entryList own sub lvl e = sub c := by
  obtain ⟨hpresent, hleaf, rfl⟩ := child_eq_some.mp h
  simp [entryList, hpresent, hleaf]

theorem entryLeaves_of_absent (h : L.present e = false) : L.entryLeaves sub' lvl e = [] := by
  simp [entryLeaves, h]

theorem entryLeaves_of_leaf (h : L.present e = true) (hleaf : L.isLeaf lvl e = true) :
    L.entryLeaves sub' lvl e = [(lvl, e)] := by
  simp [entryLeaves, h, hleaf]

theorem entryLeaves_of_child (h : L.child lvl e = some c) :
    L.entryLeaves sub' lvl e = sub' c := by
  obtain ⟨hpresent, hleaf, rfl⟩ := child_eq_some.mp h
  simp [entryLeaves, hpresent, hleaf]

/-- An entry lists what it holds. -/
theorem mem_entryList {S : F → Set F} (hsub : ∀ c, f ∈ sub c ↔ f ∈ S c) :
    f ∈ L.entryList own sub lvl e ↔ f ∈ L.entryFrames own S lvl e := by
  rcases L.entry_cases lvl e with habsent | ⟨hpresent, hleaf⟩ | ⟨c, hc⟩
  · rw [entryList_of_absent habsent, entryFrames_of_absent habsent]
    simp
  · rw [entryList_of_leaf hpresent hleaf, mem_entryFrames_of_leaf hpresent hleaf]
    split_ifs with hown
    · simp [hown]
    · simp [hown]
  · rw [entryList_of_child hc, entryFrames_of_child hc, hsub]

/-- The list has the frames that the table holds. -/
theorem mem_frameList : f ∈ L.frameList own m lvl t ↔ f ∈ L.frames own m lvl t := by
  induction lvl generalizing t with
  | zero => exact ⟨fun h => (by cases h), fun h => h.elim⟩
  | succ lvl ih =>
    rw [frameList, mem_frames_succ, List.mem_append, List.mem_flatMap, List.mem_singleton, or_comm]
    refine or_congr Iff.rfl (exists_congr fun k => ?_)
    rw [and_iff_right (L.mem_keys k)]
    exact mem_entryList fun c => ih

theorem mem_entryList_frames {k : K} :
    f ∈ L.entryList own (L.frameList own m lvl) (lvl + 1) (m t k) ↔
      f ∈ L.entryFrames own (L.frames own m lvl) (lvl + 1) (m t k) :=
  mem_entryList fun _ => mem_frameList

/-- The entries of the root of a separate table list no frame twice, if the tables below do not. -/
theorem nodup_flatMap_entryList (hsep : L.Separate own m (lvl + 1) t)
    (hbelow : ∀ k c, L.child (lvl + 1) (m t k) = some c → (L.frameList own m lvl c).Nodup)
    {ks : List K} (hks : ks.Nodup) :
    (ks.flatMap fun k => L.entryList own (L.frameList own m lvl) (lvl + 1) (m t k)).Nodup := by
  refine List.nodup_flatMap.mpr ⟨fun k _ => ?_, hks.imp fun {k k'} hne f hf hf' => ?_⟩
  · rcases L.entry_cases (lvl + 1) (m t k) with habsent | ⟨hpresent, hleaf⟩ | ⟨c, hc⟩
    · rw [entryList_of_absent habsent]
      exact List.nodup_nil
    · rw [entryList_of_leaf hpresent hleaf]
      split_ifs
      · exact List.nodup_singleton _
      · exact List.nodup_nil
    · rw [entryList_of_child hc]
      exact hbelow k c hc
  · exact Set.disjoint_left.mp (hsep.2.1 k k' hne) (mem_entryList_frames.mp hf)
      (mem_entryList_frames.mp hf')

/-- A separate table lists no frame twice. -/
theorem nodup_frameList (hsep : L.Separate own m lvl t) : (L.frameList own m lvl t).Nodup := by
  induction lvl generalizing t with
  | zero => exact List.nodup_nil
  | succ lvl ih =>
    rw [frameList, List.nodup_append]
    refine ⟨nodup_flatMap_entryList hsep (fun k c hc => ih (hsep.2.2 k c hc)) L.nodup_keys,
      List.nodup_singleton t, fun f hf g hg heq => ?_⟩
    obtain ⟨k, -, hf⟩ := List.mem_flatMap.mp hf
    rw [List.mem_singleton.mp hg] at heq
    subst heq
    exact hsep.1 k (mem_entryList_frames.mp hf)

/-- The listed leaves are the ends of the walks. -/
theorem mem_leaves : (l, e) ∈ L.leaves m lvl t ↔ ∃ v, L.leaf m lvl t v = some (l, e) := by
  induction lvl generalizing t with
  | zero => exact ⟨fun h => (by cases h), fun ⟨v, h⟩ => (by cases h)⟩
  | succ lvl ih =>
    rw [leaves, List.mem_flatMap]
    constructor
    · rintro ⟨k, -, hmem⟩
      rcases L.entry_cases (lvl + 1) (m t k) with habsent | ⟨hpresent, hleaf⟩ | ⟨c, hc⟩
      · rw [entryLeaves_of_absent habsent] at hmem
        cases hmem
      · rw [entryLeaves_of_leaf hpresent hleaf, List.mem_singleton] at hmem
        exact ⟨fun _ => k, (leaf_of_leaf hpresent hleaf).trans (congrArg some hmem.symm)⟩
      · rw [entryLeaves_of_child hc] at hmem
        obtain ⟨v, hv⟩ := ih.mp hmem
        refine ⟨Function.update v (lvl + 1) k, ?_⟩
        have hagree : Agree lvl (Function.update v (lvl + 1) k) v :=
          fun i _ hi => Function.update_of_ne (by omega) k v
        rw [leaf_of_child (by rwa [Function.update_self]), leaf_of_agree hagree, hv]
    · rintro ⟨v, hv⟩
      refine ⟨v (lvl + 1), L.mem_keys _, ?_⟩
      rcases L.entry_cases (lvl + 1) (m t (v (lvl + 1))) with
        habsent | ⟨hpresent, hleaf⟩ | ⟨c, hc⟩
      · rw [leaf_of_absent habsent] at hv
        cases hv
      · rw [leaf_of_leaf hpresent hleaf] at hv
        rw [entryLeaves_of_leaf hpresent hleaf, List.mem_singleton]
        exact (Option.some.inj hv).symm
      · rw [leaf_of_child hc] at hv
        rw [entryLeaves_of_child hc]
        exact ih.mpr ⟨v, hv⟩

/-- The frames of the leaves that a table owns, among some of its leaves. -/
def ownedFrames (own : E → Bool) (ls : List (ℕ × E)) : List F :=
  (ls.filter fun p => own p.2).map fun p => L.next p.1 p.2

theorem ownedFrames_flatMap {ι : Type} (ks : List ι) (g : ι → List (ℕ × E)) :
    L.ownedFrames own (ks.flatMap g) = ks.flatMap fun k => L.ownedFrames own (g k) := by
  rw [ownedFrames, List.filter_flatMap, List.map_flatMap]
  rfl

/-- The frames of a table are its pages and those of the leaves it owns. -/
theorem frameList_perm : (L.frameList own m lvl t).Perm
    (L.frameList (fun _ => false) m lvl t ++ L.ownedFrames own (L.leaves m lvl t)) := by
  induction lvl generalizing t with
  | zero => exact List.Perm.nil
  | succ lvl ih =>
    have hentry : ∀ k ∈ L.keys, (L.entryList own (L.frameList own m lvl) (lvl + 1) (m t k)).Perm
        (L.entryList (fun _ => false) (L.frameList (fun _ => false) m lvl) (lvl + 1) (m t k) ++
          L.ownedFrames own (L.entryLeaves (L.leaves m lvl) (lvl + 1) (m t k))) := by
      intro k _
      rcases L.entry_cases (lvl + 1) (m t k) with habsent | ⟨hpresent, hleaf⟩ | ⟨c, hc⟩
      · rw [entryList_of_absent habsent, entryList_of_absent habsent, entryLeaves_of_absent habsent]
        exact List.Perm.nil
      · rw [entryList_of_leaf hpresent hleaf, entryList_of_leaf hpresent hleaf,
          entryLeaves_of_leaf hpresent hleaf]
        cases hown : own (m t k) with
        | true => simp [ownedFrames, hown]
        | false => simp [ownedFrames, hown]
      · rw [entryList_of_child hc, entryList_of_child hc, entryLeaves_of_child hc]
        exact ih
    rw [frameList, frameList, leaves, ownedFrames_flatMap]
    have hkeys := (List.Perm.flatMap_left L.keys hentry).trans
      (List.flatMap_append_perm L.keys _ _).symm
    refine (hkeys.append_right [t]).trans ?_
    rw [List.append_assoc, List.append_assoc]
    exact List.perm_append_comm.append_left _

end Lists

/-! ## Traversals -/

section Traverse

variable {L own m} {A : Allocator F} {Q : ℕ → E → Prop} {lvl : ℕ} {t : F}

/-- The traversal that frees a table calls `free` on the frames it holds, one after the other,
whatever is read from frames that are free. -/
theorem traverse_eq_freeAll {V : Visitor E F (Heap A (K → E))} (hV : V.Frees L own Q)
    {page : Heap A (K → E) → F → K → E} (hpage : ∀ h f, ¬ h.IsFree f → page h f = h.mem f)
    {h : Heap A (K → E)} (hsep : L.Separate own m lvl t) (hentries : L.Entries Q m lvl t)
    (hused : ∀ f ∈ L.frames own m lvl t, ¬ h.IsFree f)
    (hmem : ∀ f ∈ L.nodes m lvl t, h.mem f = m f) :
    L.traverse page V lvl t h = h.freeAll (L.frameList own m lvl t) := by
  induction lvl generalizing t h with
  | zero => rfl
  | succ lvl ih =>
    obtain ⟨hroot, hdisjoint, hchild⟩ := hsep
    let entry (k : K) : List F := L.entryList own (L.frameList own m lvl) (lvl + 1) (m t k)
    have hheld : ∀ k, ∀ f ∈ entry k, f ∈ L.frames own m (lvl + 1) t :=
      fun k f hf => mem_frames_succ.mpr (Or.inr ⟨k, mem_entryList_frames.mp hf⟩)
    unfold traverse
    rw [hV.beforeRet, frameList, Heap.freeAll_append]
    refine congrArg (Heap.free · t) ?_
    -- the frames of the entries that have been followed are freed
    refine foldl_prefix (Q := fun done h' => done.Nodup → h' = h.freeAll (done.flatMap entry))
      (fun done k h' hh' hnodup => ?_) L.keys (fun _ => rfl) L.nodup_keys
    obtain ⟨hdone, hk⟩ : done.Nodup ∧ k ∉ done := by
      rw [List.nodup_append] at hnodup
      exact ⟨hnodup.1, fun hmem => hnodup.2.2 k hmem k (List.mem_singleton_self k) rfl⟩
    have hfreed : ∀ f, h'.IsFree f → h.IsFree f ∨ ∃ k' ∈ done, f ∈ entry k' := by
      intro f hf
      have hfreed := Heap.freed_freeAll (h := h) (nodup_flatMap_entryList
        ⟨hroot, hdisjoint, hchild⟩ (fun k c hc => nodup_frameList (hchild k c hc)) hdone)
        fun f hf => by
          obtain ⟨k', -, hf⟩ := List.mem_flatMap.mp hf
          exact hused f (hheld k' f hf)
      rw [hh' hdone, hfreed.isFree] at hf
      exact hf.imp_right List.mem_flatMap.mp
    have hmem' : h'.mem = h.mem := by rw [hh' hdone, Heap.mem_freeAll]
    have hentry : page h' t k = m t k := by
      rw [hpage, hmem', hmem t root_mem_frames]
      intro hfree
      rcases hfreed t hfree with hfree | ⟨k', -, hf⟩
      · exact hused t root_mem_frames hfree
      · exact hroot k' (mem_entryList_frames.mp hf)
    simp only [hentry]
    rw [List.flatMap_append, Heap.freeAll_append, ← hh' hdone, List.flatMap_singleton]
    rcases L.entry_cases (lvl + 1) (m t k) with habsent | ⟨hpresent, hleaf⟩ | ⟨c, hc⟩
    · simp only [hV.not_follow _ _ _ habsent, entry, entryList_of_absent habsent,
        Bool.false_eq_true, if_false]
      rfl
    · simp only [hV.follow _ _ _ hpresent (hentries k hpresent).1, hleaf, if_true,
        hV.leaf _ _ _ (hentries k hpresent).1 hleaf, entry, entryList_of_leaf hpresent hleaf]
      split_ifs
      · rfl
      · rfl
    · have hused' : ∀ f ∈ L.frames own m lvl c, ¬ h'.IsFree f := by
        intro f hf hfree
        have hfk : f ∈ entry k := by
          rw [show entry k = L.frameList own m lvl c from entryList_of_child hc]
          exact mem_frameList.mpr hf
        rcases hfreed f hfree with hfree | ⟨k', hk', hf'⟩
        · exact hused f (hheld k f hfk) hfree
        · exact Set.disjoint_left.mp (hdisjoint k k' fun heq => hk (heq ▸ hk'))
            (mem_entryList_frames.mp hfk) (mem_entryList_frames.mp hf')
      have hbelow := ih (hchild k c hc) ((hentries k (child_eq_some.mp hc).1).2 c hc) hused'
        fun f hf => by rw [hmem', hmem f (nodes_subset_of_child hc hf)]
      have hlist : entry k = L.frameList own m lvl c := entryList_of_child hc
      obtain ⟨hpresent, hleaf, rfl⟩ := child_eq_some.mp hc
      simp only [hV.follow _ _ _ hpresent (hentries k hpresent).1, hleaf, if_true,
        Bool.false_eq_true, if_false, hV.beforeRec, hV.afterRec, hlist]
      exact hbelow

/-- The traversal frees exactly what the table holds. -/
theorem traverse_freed {V : Visitor E F (Heap A (K → E))} (hV : V.Frees L own Q)
    {h : Heap A (K → E)} (hsep : L.Separate own m lvl t) (hentries : L.Entries Q m lvl t)
    (hused : ∀ f ∈ L.frames own m lvl t, ¬ h.IsFree f)
    (hmem : ∀ f ∈ L.nodes m lvl t, h.mem f = m f) :
    Heap.Freed (L.frames own m lvl t) h (L.traverse Heap.mem V lvl t h) := by
  rw [traverse_eq_freeAll hV (fun _ _ _ => rfl) hsep hentries hused hmem]
  have hlist := Heap.freed_freeAll (nodup_frameList hsep) fun f hf => hused f (mem_frameList.mp hf)
  exact hlist.congr (Set.ext fun f => mem_frameList)

/-- A traversal that does something at the leaves only does it at each of them in turn. -/
theorem traverse_eq_foldl_leaves {σ : Type} {V : Visitor E F σ} {s : σ}
    (hfollow : ∀ l e s, (L.present e = true → Q l e) → V.follow e l s = (L.present e, s))
    (hbeforeRec : ∀ l e s, V.beforeRec e l s = s) (hafterRec : ∀ l c e s, V.afterRec c e l s = s)
    (hbeforeRet : ∀ l t s, V.beforeRet t l s = s) (hentries : L.Entries Q m lvl t) :
    L.traverse (fun _ => m) V lvl t s =
      (L.leaves m lvl t).foldl (fun s p => V.leaf p.2 p.1 s) s := by
  induction lvl generalizing t s with
  | zero => rfl
  | succ lvl ih =>
    unfold traverse
    rw [hbeforeRet, leaves, List.foldl_flatMap]
    congr 1
    funext s k
    have hfollow' := hfollow (lvl + 1) (m t k) s fun hpresent => (hentries k hpresent).1
    rcases L.entry_cases (lvl + 1) (m t k) with habsent | ⟨hpresent, hleaf⟩ | ⟨c, hc⟩
    · simp only [hfollow', habsent, entryLeaves_of_absent habsent, Bool.false_eq_true, if_false,
        List.foldl_nil]
    · simp only [hfollow', hpresent, hleaf, entryLeaves_of_leaf hpresent hleaf, if_true,
        List.foldl_cons, List.foldl_nil]
    · rw [entryLeaves_of_child hc]
      obtain ⟨hpresent, hleaf, rfl⟩ := child_eq_some.mp hc
      simp only [hfollow', hpresent, hleaf, if_true, Bool.false_eq_true, if_false, hbeforeRec,
        hafterRec]
      exact ih ((hentries k hpresent).2 _ hc)

end Traverse

end Layout

end Foundations
