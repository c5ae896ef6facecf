import Mathlib.Data.Set.Basic
import Mathlib.Data.Set.BooleanAlgebra
import Mathlib.Data.Set.Disjoint
import Mathlib.Logic.Function.Basic
import Mathlib.Order.CompletePartialOrder
import Mathlib.Tactic.Common

/-!
# Radix trees in a memory

A table is a frame whose page maps keys to entries.  A present entry is a leaf or links to a table
one level below; entries of level 1 are leaves.  `locate` walks down a table along a path, one key
for each level, and `leaf` is the entry the walk ends at.

`frames own` is what a table holds: its pages, and the frames of the leaves it owns.  `Separate own`
says that it holds each of them in one way only: the tables form a tree, and no owned frame is a page
of the tree or owned by two leaves.  All of this depends only on the pages of the tree, and changing
one entry of the root changes only what that entry leads to.
-/

namespace Foundations

variable {K E F : Type}

/-- How entries are read and written. -/
structure Layout (K E F : Type) where
  /-- The keys, in the order in which a page is scanned. -/
  keys : List K
  /-- Every key is scanned. -/
  mem_keys : ∀ k, k ∈ keys
  /-- No key is scanned twice. -/
  nodup_keys : keys.Nodup
  /-- The highest level of a table. -/
  top : ℕ
  /-- The entry is in use. -/
  present : E → Bool
  /-- A present entry of the level maps a frame. -/
  isLeaf : ℕ → E → Bool
  /-- The frame a present entry of the level maps, or the table it links to. -/
  next : ℕ → E → F
  /-- The entry that is not in use. -/
  empty : E
  /-- An entry that links to a table. -/
  link : F → E
  /-- The entries of level 1 map frames. -/
  isLeaf_one : ∀ e, isLeaf 1 e = true
  /-- `empty` is not in use. -/
  present_empty : present empty = false
  /-- A link is in use. -/
  present_link : ∀ c, present (link c) = true
  /-- Above level 1, a link is no leaf. -/
  isLeaf_link : ∀ l c, 2 ≤ l → l ≤ top → isLeaf l (link c) = false
  /-- A link leads to the table it was made for. -/
  next_link : ∀ l c, 2 ≤ l → l ≤ top → next l (link c) = c

namespace Layout

variable (L : Layout K E F) (own : E → Bool) (P : ℕ → E → Prop) (m : F → K → E)

/-- The table an entry of the level links to. -/
def child (lvl : ℕ) (e : E) : Option F :=
  if L.present e && !L.isLeaf lvl e then some (L.next lvl e) else none

/-- The frames an entry holds, where `sub` is what a table one level below holds. -/
def entryFrames (sub : F → Set F) (lvl : ℕ) (e : E) : Set F :=
  {f | L.present e = true ∧
    if L.isLeaf lvl e = true then own e = true ∧ f = L.next lvl e else f ∈ sub (L.next lvl e)}

/-- The frames a table of the level holds. -/
def frames : ℕ → F → Set F
  | 0, _ => ∅
  | lvl + 1, t => {f | f = t ∨ ∃ k, f ∈ L.entryFrames own (frames lvl) (lvl + 1) (m t k)}

/-- The pages of a table of the level. -/
abbrev nodes : ℕ → F → Set F :=
  L.frames (fun _ => false) m

/-- The table holds each of its frames in one way only. -/
def Separate : ℕ → F → Prop
  | 0, _ => True
  | lvl + 1, t =>
    (∀ k, t ∉ L.entryFrames own (L.frames own m lvl) (lvl + 1) (m t k)) ∧
    (∀ k k', k ≠ k' → Disjoint (L.entryFrames own (L.frames own m lvl) (lvl + 1) (m t k))
      (L.entryFrames own (L.frames own m lvl) (lvl + 1) (m t k'))) ∧
    ∀ k c, L.child (lvl + 1) (m t k) = some c → Separate lvl c

/-- The level and the table of the entry at which the walk along a path ends. -/
def locate : ℕ → F → (ℕ → K) → Option (ℕ × F)
  | 0, _, _ => none
  | lvl + 1, t, v =>
    if L.present (m t (v (lvl + 1))) then
      if L.isLeaf (lvl + 1) (m t (v (lvl + 1))) then some (lvl + 1, t)
      else locate lvl (L.next (lvl + 1) (m t (v (lvl + 1)))) v
    else none

/-- The leaf at which the walk along a path ends, with its level. -/
def leaf (lvl : ℕ) (t : F) (v : ℕ → K) : Option (ℕ × E) :=
  (L.locate m lvl t v).map fun p => (p.1, m p.2 (v p.1))

/-- Every present entry of the tree satisfies `P` at its level. -/
def Entries : ℕ → F → Prop
  | 0, _ => True
  | lvl + 1, t => ∀ k, L.present (m t k) = true →
    P (lvl + 1) (m t k) ∧ ∀ c, L.child (lvl + 1) (m t k) = some c → Entries lvl c

/-- Two paths agree on the levels up to `lvl`. -/
def Agree (lvl : ℕ) (v w : ℕ → K) : Prop :=
  ∀ i, 1 ≤ i → i ≤ lvl → v i = w i

/-- Paths agree from a level on when they do there and below. -/
theorem agree_succ {lvl : ℕ} {v w : ℕ → K} :
    Agree (lvl + 1) v w ↔ v (lvl + 1) = w (lvl + 1) ∧ Agree lvl v w := by
  refine ⟨fun h => ⟨h _ (by omega) (Nat.le_refl _), fun i h1 hi => h i h1 (by omega)⟩, ?_⟩
  rintro ⟨hkey, hrest⟩ i h1 hi
  rcases Nat.lt_or_eq_of_le hi with hlt | rfl
  · exact hrest i h1 (by omega)
  · exact hkey

/-- Below the last level all paths agree. -/
theorem agree_zero (v w : ℕ → K) : Agree 0 v w :=
  fun _ h1 hi => absurd (Nat.le_trans h1 hi) (by omega)

section Entry

variable {L own P m} {lvl : ℕ} {e : E} {t c : F} {v : ℕ → K}

/-- An entry with a table below is present and no leaf. -/
theorem child_eq_some : L.child lvl e = some c ↔
    L.present e = true ∧ L.isLeaf lvl e = false ∧ L.next lvl e = c := by
  simp [child, and_assoc]

/-- An entry is absent, or a leaf, or links to a table. -/
theorem entry_cases (L : Layout K E F) (lvl : ℕ) (e : E) :
    L.present e = false ∨ L.present e = true ∧ L.isLeaf lvl e = true ∨
      ∃ c, L.child lvl e = some c := by
  cases hpresent : L.present e with
  | false => exact Or.inl rfl
  | true =>
    cases hleaf : L.isLeaf lvl e with
    | true => exact Or.inr (Or.inl ⟨rfl, rfl⟩)
    | false => exact Or.inr (Or.inr ⟨_, child_eq_some.mpr ⟨hpresent, hleaf, rfl⟩⟩)

/-- A link leads to its table. -/
theorem child_link (hlvl : 2 ≤ lvl) (htop : lvl ≤ L.top) : L.child lvl (L.link c) = some c :=
  child_eq_some.mpr
    ⟨L.present_link c, L.isLeaf_link lvl c hlvl htop, L.next_link lvl c hlvl htop⟩

variable {sub : F → Set F} {f : F}

/-- An absent entry has no frames. -/
theorem entryFrames_of_absent (h : L.present e = false) : L.entryFrames own sub lvl e = ∅ := by
  ext f
  simp [entryFrames, h]

/-- A leaf has its frame, if that is owned. -/
theorem mem_entryFrames_of_leaf (h : L.present e = true) (hleaf : L.isLeaf lvl e = true) :
    f ∈ L.entryFrames own sub lvl e ↔ own e = true ∧ f = L.next lvl e := by
  simp [entryFrames, h, hleaf]

/-- An entry with a table below has the frames of the table. -/
theorem entryFrames_of_child (h : L.child lvl e = some c) :
    L.entryFrames own sub lvl e = sub c := by
  obtain ⟨hpresent, hleaf, rfl⟩ := child_eq_some.mp h
  ext f
  simp [entryFrames, hpresent, hleaf]

/-- What the table below an entry holds, the entry holds. -/
theorem mem_entryFrames_of_child (hf : ∃ r, L.child lvl e = some r ∧ f ∈ sub r) :
    f ∈ L.entryFrames own sub lvl e := by
  obtain ⟨r, hr, hf⟩ := hf
  rwa [entryFrames_of_child hr]

/-- The frames of a table are its page and those of its entries. -/
theorem mem_frames_succ : f ∈ L.frames own m (lvl + 1) t ↔
    f = t ∨ ∃ k, f ∈ L.entryFrames own (L.frames own m lvl) (lvl + 1) (m t k) :=
  Iff.rfl

/-- A table has its page. -/
theorem root_mem_frames : t ∈ L.frames own m (lvl + 1) t :=
  mem_frames_succ.mpr (Or.inl rfl)

/-- A table of level 1 has one page. -/
theorem mem_nodes_one : f ∈ L.nodes m 1 t ↔ f = t := by
  refine ⟨?_, Or.inl⟩
  rintro (hf | ⟨k, hpresent, hf⟩)
  · exact hf
  · rw [if_pos (L.isLeaf_one _)] at hf
    exact absurd hf.1 (by simp)

/-- A table of level 1 that owns nothing holds its page. -/
theorem separate_one : L.Separate (fun _ => false) m 1 t := by
  have hnone : ∀ k f, f ∉ L.entryFrames (fun _ => false) (L.nodes m 0) 1 (m t k) := by
    rintro k f ⟨-, hf⟩
    rw [if_pos (L.isLeaf_one _)] at hf
    exact absurd hf.1 (by simp)
  exact ⟨fun k => hnone k t, fun k k' _ => Set.disjoint_left.mpr fun f hf => absurd hf (hnone k f),
    fun k c _ => trivial⟩

/-- A path ends at an absent entry. -/
theorem leaf_of_absent (h : L.present (m t (v (lvl + 1))) = false) :
    L.leaf m (lvl + 1) t v = none := by
  simp [leaf, locate, h]

/-- A path ends at a leaf. -/
theorem leaf_of_leaf (h : L.present (m t (v (lvl + 1))) = true)
    (hleaf : L.isLeaf (lvl + 1) (m t (v (lvl + 1))) = true) :
    L.leaf m (lvl + 1) t v = some (lvl + 1, m t (v (lvl + 1))) := by
  simp [leaf, locate, h, hleaf]

/-- A path goes on in the table below. -/
theorem leaf_of_child (h : L.child (lvl + 1) (m t (v (lvl + 1))) = some c) :
    L.leaf m (lvl + 1) t v = L.leaf m lvl c v := by
  obtain ⟨hpresent, hleaf, rfl⟩ := child_eq_some.mp h
  simp [leaf, locate, hpresent, hleaf]

/-- An empty page has no leaves. -/
theorem leaf_of_page_empty {m : F → K → E} {t : F} (hpage : m t = fun _ => L.empty)
    (v : ℕ → K) : L.leaf m (lvl + 1) t v = none :=
  leaf_of_absent (by rw [hpage, L.present_empty])

/-- It has no frames but itself. -/
theorem mem_frames_of_page_empty {m : F → K → E} {t f : F} (hpage : m t = fun _ => L.empty) :
    f ∈ L.frames own m (lvl + 1) t ↔ f = t := by
  rw [mem_frames_succ]
  refine ⟨?_, Or.inl⟩
  rintro (hf | ⟨k, hf⟩)
  · exact hf
  · rw [hpage, entryFrames_of_absent L.present_empty] at hf
    exact absurd hf (Set.notMem_empty f)

end Entry

section Congr

variable {L own P m} {m' : F → K → E}

/-- The pages of a table are among its frames. -/
theorem nodes_subset_frames (lvl : ℕ) (t : F) : L.nodes m lvl t ⊆ L.frames own m lvl t := by
  induction lvl generalizing t with
  | zero => exact Set.Subset.rfl
  | succ lvl ih =>
    intro f hf
    rcases hf with rfl | ⟨k, hpresent, hf⟩
    · exact root_mem_frames
    · refine Or.inr ⟨k, hpresent, ?_⟩
      split_ifs at hf ⊢ with hleaf
      · exact absurd hf.1 (by simp)
      · exact ih _ hf

/-- The pages below an entry of the root are pages of the table. -/
theorem nodes_subset_of_child {lvl : ℕ} {t c : F} {k : K}
    (h : L.child (lvl + 1) (m t k) = some c) : L.nodes m lvl c ⊆ L.nodes m (lvl + 1) t :=
  fun _ hf => Or.inr ⟨k, by rwa [entryFrames_of_child h]⟩

/-- The pages below an entry are among what the table holds through it. -/
theorem mem_entryFrames_of_nodes {lvl : ℕ} {t c g : F} {k : K}
    (hc : L.child (lvl + 1) (m t k) = some c) (hg : g ∈ L.nodes m lvl c) :
    g ∈ L.entryFrames own (L.frames own m lvl) (lvl + 1) (m t k) := by
  rw [entryFrames_of_child hc]
  exact nodes_subset_frames lvl c hg

/-- What a table holds depends only on its pages. -/
theorem frames_congr {lvl : ℕ} {t : F} (h : ∀ f ∈ L.nodes m lvl t, m' f = m f) :
    L.frames own m' lvl t = L.frames own m lvl t := by
  induction lvl generalizing t with
  | zero => rfl
  | succ lvl ih =>
    have hroot : m' t = m t := h t root_mem_frames
    ext f
    rw [mem_frames_succ, mem_frames_succ, hroot]
    refine or_congr Iff.rfl (exists_congr fun k => ?_)
    rcases L.entry_cases (lvl + 1) (m t k) with habsent | ⟨hpresent, hleaf⟩ | ⟨c, hc⟩
    · rw [entryFrames_of_absent habsent, entryFrames_of_absent habsent]
    · rw [mem_entryFrames_of_leaf hpresent hleaf, mem_entryFrames_of_leaf hpresent hleaf]
    · rw [entryFrames_of_child hc, entryFrames_of_child hc,
        ih fun f hf => h f (nodes_subset_of_child hc hf)]

/-- The same for one entry of the root. -/
theorem entryFrames_congr {lvl : ℕ} {t : F} (h : ∀ f ∈ L.nodes m (lvl + 1) t, m' f = m f) (k : K) :
    L.entryFrames own (L.frames own m' lvl) (lvl + 1) (m' t k) =
      L.entryFrames own (L.frames own m lvl) (lvl + 1) (m t k) := by
  rw [h t root_mem_frames]
  rcases L.entry_cases (lvl + 1) (m t k) with habsent | ⟨hpresent, hleaf⟩ | ⟨c, hc⟩
  · rw [entryFrames_of_absent habsent, entryFrames_of_absent habsent]
  · ext f
    rw [mem_entryFrames_of_leaf hpresent hleaf, mem_entryFrames_of_leaf hpresent hleaf]
  · rw [entryFrames_of_child hc, entryFrames_of_child hc,
      frames_congr fun f hf => h f (nodes_subset_of_child hc hf)]

/-- Separation depends on the pages of the table only. -/
theorem separate_congr {lvl : ℕ} {t : F} (h : ∀ f ∈ L.nodes m lvl t, m' f = m f)
    (hsep : L.Separate own m lvl t) : L.Separate own m' lvl t := by
  induction lvl generalizing t with
  | zero => trivial
  | succ lvl ih =>
    obtain ⟨hroot, hdisjoint, hchild⟩ := hsep
    refine ⟨fun k => ?_, fun k k' hk => ?_, fun k c hc => ?_⟩
    · rw [entryFrames_congr h]
      exact hroot k
    · rw [entryFrames_congr h, entryFrames_congr h]
      exact hdisjoint k k' hk
    · rw [h t root_mem_frames] at hc
      exact ih (fun f hf => h f (nodes_subset_of_child hc hf)) (hchild k c hc)

/-- So do the entries. -/
theorem entries_congr {lvl : ℕ} {t : F} (h : ∀ f ∈ L.nodes m lvl t, m' f = m f)
    (hentries : L.Entries P m lvl t) : L.Entries P m' lvl t := by
  induction lvl generalizing t with
  | zero => trivial
  | succ lvl ih =>
    intro k hpresent
    rw [h t root_mem_frames] at hpresent ⊢
    obtain ⟨hP, hchild⟩ := hentries k hpresent
    exact ⟨hP, fun c hc => ih (fun f hf => h f (nodes_subset_of_child hc hf)) (hchild c hc)⟩

/-- Entries with a stronger property. -/
theorem Entries.mono {Q : ℕ → E → Prop} {lvl : ℕ} {t : F} (hentries : L.Entries P m lvl t)
    (h : ∀ l e, P l e → Q l e) : L.Entries Q m lvl t := by
  induction lvl generalizing t with
  | zero => trivial
  | succ lvl ih =>
    intro k hpresent
    obtain ⟨hP, hchild⟩ := hentries k hpresent
    exact ⟨h _ _ hP, fun c hc => ih (hchild c hc)⟩

/-- A property of every entry in use. -/
theorem Entries.of_forall {lvl : ℕ} {t : F} (h : ∀ l f k, L.present (m f k) = true → P l (m f k)) :
    L.Entries P m lvl t := by
  induction lvl generalizing t with
  | zero => trivial
  | succ lvl ih => exact fun k hpresent => ⟨h _ t k hpresent, fun c _ => ih⟩

/-- So do the leaves. -/
theorem leaf_congr {lvl : ℕ} {t : F} (h : ∀ f ∈ L.nodes m lvl t, m' f = m f) (v : ℕ → K) :
    L.leaf m' lvl t v = L.leaf m lvl t v := by
  induction lvl generalizing t with
  | zero => rfl
  | succ lvl ih =>
    have hroot : m' t = m t := h t root_mem_frames
    rcases L.entry_cases (lvl + 1) (m t (v (lvl + 1))) with habsent | ⟨hpresent, hleaf⟩ | ⟨c, hc⟩
    · rw [leaf_of_absent habsent, leaf_of_absent (hroot ▸ habsent)]
    · rw [leaf_of_leaf hpresent hleaf, leaf_of_leaf (hroot ▸ hpresent) (hroot ▸ hleaf), hroot]
    · rw [leaf_of_child hc, leaf_of_child (hroot ▸ hc),
        ih fun f hf => h f (nodes_subset_of_child hc hf)]

/-- A walk reads only the keys of the levels it visits. -/
theorem leaf_of_agree {lvl : ℕ} {t : F} {v w : ℕ → K} (h : Agree lvl v w) :
    L.leaf m lvl t v = L.leaf m lvl t w := by
  induction lvl generalizing t with
  | zero => rfl
  | succ lvl ih =>
    have hkey : v (lvl + 1) = w (lvl + 1) := h (lvl + 1) (by omega) (Nat.le_refl _)
    have hrest : Agree lvl v w := fun i h1 hi => h i h1 (by omega)
    rcases L.entry_cases (lvl + 1) (m t (w (lvl + 1))) with habsent | ⟨hpresent, hleaf⟩ | ⟨c, hc⟩
    · rw [leaf_of_absent habsent, leaf_of_absent (hkey ▸ habsent)]
    · rw [leaf_of_leaf hpresent hleaf, leaf_of_leaf (hkey ▸ hpresent) (hkey ▸ hleaf), hkey]
    · rw [leaf_of_child hc, leaf_of_child (hkey ▸ hc), ih hrest]

end Congr

section Leaves

variable {L own P m} {lvl l : ℕ} {t : F} {v : ℕ → K} {e : E}

/-- A walk ends at a leaf that is in use, on a level of the table. -/
theorem leaf_spec (h : L.leaf m lvl t v = some (l, e)) :
    1 ≤ l ∧ l ≤ lvl ∧ L.present e = true ∧ L.isLeaf l e = true := by
  induction lvl generalizing t with
  | zero => cases h
  | succ lvl ih =>
    rcases L.entry_cases (lvl + 1) (m t (v (lvl + 1))) with habsent | ⟨hpresent, hleaf⟩ | ⟨c, hc⟩
    · rw [leaf_of_absent habsent] at h
      cases h
    · rw [leaf_of_leaf hpresent hleaf] at h
      obtain ⟨rfl, rfl⟩ := Prod.mk.inj (Option.some.inj h)
      exact ⟨by omega, Nat.le_refl _, hpresent, hleaf⟩
    · rw [leaf_of_child hc] at h
      obtain ⟨h1, hl, hspec⟩ := ih h
      exact ⟨h1, by omega, hspec⟩

/-- What holds of the entries holds of the leaves. -/
theorem Entries.leaf (hentries : L.Entries P m lvl t) (h : L.leaf m lvl t v = some (l, e)) :
    P l e := by
  induction lvl generalizing t with
  | zero => cases h
  | succ lvl ih =>
    rcases L.entry_cases (lvl + 1) (m t (v (lvl + 1))) with habsent | ⟨hpresent, hleaf⟩ | ⟨c, hc⟩
    · rw [leaf_of_absent habsent] at h
      cases h
    · rw [leaf_of_leaf hpresent hleaf] at h
      obtain ⟨rfl, rfl⟩ := Prod.mk.inj (Option.some.inj h)
      exact (hentries _ hpresent).1
    · rw [leaf_of_child hc] at h
      exact ih ((hentries _ (child_eq_some.mp hc).1).2 c hc) h

/-- Where the frame of an owned leaf is, seen from the root. -/
theorem mem_entryFrames_of_owned (h : L.leaf m lvl t v = some (l, e)) (hown : own e = true)
    (hlvl : ∃ n, lvl = n + 1) :
    L.next l e ∈ L.entryFrames own (L.frames own m (lvl - 1)) lvl (m t (v lvl)) := by
  induction lvl generalizing t with
  | zero => cases h
  | succ lvl ih =>
    change L.next l e ∈ L.entryFrames own (L.frames own m lvl) (lvl + 1) (m t (v (lvl + 1)))
    rcases L.entry_cases (lvl + 1) (m t (v (lvl + 1))) with habsent | ⟨hpresent, hleaf⟩ | ⟨c, hc⟩
    · rw [leaf_of_absent habsent] at h
      cases h
    · rw [leaf_of_leaf hpresent hleaf] at h
      obtain ⟨rfl, rfl⟩ := Prod.mk.inj (Option.some.inj h)
      exact (mem_entryFrames_of_leaf hpresent hleaf).mpr ⟨hown, rfl⟩
    · rw [leaf_of_child hc] at h
      rw [entryFrames_of_child hc]
      cases lvl with
      | zero => cases h
      | succ n => exact mem_frames_succ.mpr (Or.inr ⟨_, ih h ⟨n, rfl⟩⟩)

/-- A table holds the frames of the leaves it owns. -/
theorem mem_frames_of_owned (h : L.leaf m lvl t v = some (l, e)) (hown : own e = true) :
    L.next l e ∈ L.frames own m lvl t := by
  cases lvl with
  | zero => cases h
  | succ lvl => exact mem_frames_succ.mpr (Or.inr ⟨_, mem_entryFrames_of_owned h hown ⟨lvl, rfl⟩⟩)

/-- What a table holds are its pages and the frames of the leaves it owns. -/
theorem mem_frames_cases {f : F} (hf : f ∈ L.frames own m lvl t) :
    f ∈ L.nodes m lvl t ∨
      ∃ v l e, L.leaf m lvl t v = some (l, e) ∧ own e = true ∧ L.next l e = f := by
  induction lvl generalizing t with
  | zero => exact absurd hf (Set.notMem_empty f)
  | succ lvl ih =>
    rcases mem_frames_succ.mp hf with rfl | ⟨k, hk⟩
    · exact Or.inl root_mem_frames
    rcases L.entry_cases (lvl + 1) (m t k) with habsent | ⟨hpresent, hleaf⟩ | ⟨c, hc⟩
    · rw [entryFrames_of_absent habsent] at hk
      exact absurd hk (Set.notMem_empty f)
    · obtain ⟨hown, rfl⟩ := (mem_entryFrames_of_leaf hpresent hleaf).mp hk
      exact Or.inr ⟨fun _ => k, lvl + 1, m t k, leaf_of_leaf hpresent hleaf, hown, rfl⟩
    · rw [entryFrames_of_child hc] at hk
      rcases ih hk with hnode | ⟨v, l, e, hv, hown, hnext⟩
      · exact Or.inl (nodes_subset_of_child hc hnode)
      · -- the path to the leaf takes the key of the entry first
        have hself : Function.update v (lvl + 1) k (lvl + 1) = k := Function.update_self ..
        refine Or.inr ⟨Function.update v (lvl + 1) k, l, e, ?_, hown, hnext⟩
        rw [leaf_of_child (by rwa [hself]), ← hv]
        exact leaf_of_agree fun i _ hi => Function.update_of_ne (by omega) ..

/-- The pages below an entry are among the frames it holds. -/
theorem entryFrames_nodes_subset (k : K) {f : F}
    (hf : f ∈ L.entryFrames (fun _ => false) (L.nodes m lvl) (lvl + 1) (m t k)) :
    f ∈ L.entryFrames own (L.frames own m lvl) (lvl + 1) (m t k) := by
  rcases L.entry_cases (lvl + 1) (m t k) with habsent | ⟨hpresent, hleaf⟩ | ⟨c, hc⟩
  · rw [entryFrames_of_absent habsent] at hf
    exact absurd hf (Set.notMem_empty f)
  · exact absurd ((mem_entryFrames_of_leaf hpresent hleaf).mp hf).1 (by simp)
  · rw [entryFrames_of_child hc] at hf ⊢
    exact nodes_subset_frames lvl c hf

/-- The frame of an owned leaf is no page of the table. -/
theorem Separate.not_mem_nodes (hsep : L.Separate own m lvl t)
    (h : L.leaf m lvl t v = some (l, e)) (hown : own e = true) :
    L.next l e ∉ L.nodes m lvl t := by
  induction lvl generalizing t with
  | zero => exact Set.notMem_empty _
  | succ lvl ih =>
    obtain ⟨hroot, hdisjoint, hchild⟩ := hsep
    have hmem := mem_entryFrames_of_owned h hown ⟨lvl, rfl⟩
    rintro (heq | ⟨k, hk⟩)
    · exact hroot _ (heq ▸ hmem)
    · by_cases hkey : k = v (lvl + 1)
      · -- below the same entry: the entry is a link, and the claim holds of its table
        subst hkey
        rcases L.entry_cases (lvl + 1) (m t (v (lvl + 1))) with
          habsent | ⟨hpresent, hleaf⟩ | ⟨c, hc⟩
        · rw [entryFrames_of_absent habsent] at hk
          exact hk
        · exact absurd ((mem_entryFrames_of_leaf hpresent hleaf).mp hk).1 (by simp)
        · rw [entryFrames_of_child hc] at hk
          rw [leaf_of_child hc] at h
          exact ih (hchild _ c hc) h hk
      · exact Set.disjoint_left.mp (hdisjoint _ _ hkey) (entryFrames_nodes_subset k hk) hmem

/-- Two owned leaves with the same frame are the same leaf. -/
theorem Separate.eq_of_next_eq {l' : ℕ} {e' : E} {w : ℕ → K} (hsep : L.Separate own m lvl t)
    (hv : L.leaf m lvl t v = some (l, e)) (hw : L.leaf m lvl t w = some (l', e'))
    (hown : own e = true) (hown' : own e' = true) (hnext : L.next l e = L.next l' e') :
    l = l' ∧ ∀ i, l ≤ i → i ≤ lvl → v i = w i := by
  induction lvl generalizing t with
  | zero => cases hv
  | succ lvl ih =>
    obtain ⟨-, hdisjoint, hchild⟩ := hsep
    have hkey : v (lvl + 1) = w (lvl + 1) := by
      by_contra hne
      refine Set.disjoint_left.mp (hdisjoint _ _ hne) (mem_entryFrames_of_owned hv hown ⟨lvl, rfl⟩) ?_
      rw [hnext]
      exact mem_entryFrames_of_owned hw hown' ⟨lvl, rfl⟩
    rcases L.entry_cases (lvl + 1) (m t (v (lvl + 1))) with habsent | ⟨hpresent, hleaf⟩ | ⟨c, hc⟩
    · rw [leaf_of_absent habsent] at hv
      cases hv
    · rw [leaf_of_leaf hpresent hleaf] at hv
      rw [leaf_of_leaf (hkey ▸ hpresent) (hkey ▸ hleaf)] at hw
      obtain ⟨rfl, -⟩ := Prod.mk.inj (Option.some.inj hv)
      obtain ⟨rfl, -⟩ := Prod.mk.inj (Option.some.inj hw)
      refine ⟨rfl, fun i h1 h2 => ?_⟩
      obtain rfl : i = lvl + 1 := Nat.le_antisymm h2 h1
      exact hkey
    · rw [leaf_of_child hc] at hv
      rw [leaf_of_child (hkey ▸ hc)] at hw
      obtain ⟨rfl, hpath⟩ := ih (hchild _ c hc) hv hw
      refine ⟨rfl, fun i h1 h2 => ?_⟩
      rcases Nat.lt_or_eq_of_le h2 with hlt | rfl
      · exact hpath i h1 (by omega)
      · exact hkey

end Leaves

/-! ## Changing one entry of the root -/

section Graft

variable [DecidableEq K] {L own P m} {m' : F → K → E} {lvl : ℕ} {t : F} {k : K} {e : E}

/-- `m'` differs from `m` at the table `t` only in the entry `e` at `k` and what it leads to. -/
structure Grafts (L : Layout K E F) (m m' : F → K → E) (lvl : ℕ) (t : F) (k : K) (e : E) :
    Prop where
  /-- The page of the table. -/
  root : m' t = Function.update (m t) k e
  /-- The tables of the other entries. -/
  others : ∀ k' ≠ k, ∀ c, L.child (lvl + 1) (m t k') = some c → ∀ f ∈ L.nodes m lvl c, m' f = m f

/-- The new entry is in its place. -/
theorem Grafts.entry_self (h : Grafts L m m' lvl t k e) : m' t k = e := by
  rw [h.root, Function.update_self]

/-- The other entries stay. -/
theorem Grafts.entry_of_ne (h : Grafts L m m' lvl t k e) {k' : K} (hk : k' ≠ k) :
    m' t k' = m t k' := by
  rw [h.root, Function.update_of_ne hk]

/-- The other entries keep their frames. -/
theorem Grafts.entryFrames_of_ne (h : Grafts L m m' lvl t k e) {k' : K} (hk : k' ≠ k) :
    L.entryFrames own (L.frames own m' lvl) (lvl + 1) (m' t k') =
      L.entryFrames own (L.frames own m lvl) (lvl + 1) (m t k') := by
  rw [h.entry_of_ne hk]
  rcases L.entry_cases (lvl + 1) (m t k') with habsent | ⟨hpresent, hleaf⟩ | ⟨c, hc⟩
  · rw [entryFrames_of_absent habsent, entryFrames_of_absent habsent]
  · ext f
    rw [mem_entryFrames_of_leaf hpresent hleaf, mem_entryFrames_of_leaf hpresent hleaf]
  · rw [entryFrames_of_child hc, entryFrames_of_child hc, frames_congr (h.others k' hk c hc)]

/-- The frames after the change: the page, those of the new entry, and those of the others. -/
theorem Grafts.mem_frames (h : Grafts L m m' lvl t k e) {f : F} :
    f ∈ L.frames own m' (lvl + 1) t ↔
      f = t ∨ f ∈ L.entryFrames own (L.frames own m' lvl) (lvl + 1) e ∨
        ∃ k' ≠ k, f ∈ L.entryFrames own (L.frames own m lvl) (lvl + 1) (m t k') := by
  rw [mem_frames_succ]
  refine or_congr Iff.rfl ⟨?_, ?_⟩
  · rintro ⟨k', hf⟩
    by_cases hk : k' = k
    · subst hk
      exact Or.inl (by rwa [h.entry_self] at hf)
    · exact Or.inr ⟨k', hk, by rwa [h.entryFrames_of_ne hk] at hf⟩
  · rintro (hf | ⟨k', hk, hf⟩)
    · exact ⟨k, by rwa [h.entry_self]⟩
    · exact ⟨k', by rwa [h.entryFrames_of_ne hk]⟩

/-- A separate table stays separate when the new entry holds nothing the others do. -/
theorem Grafts.separate (h : Grafts L m m' lvl t k e) (hsep : L.Separate own m (lvl + 1) t)
    (hroot : t ∉ L.entryFrames own (L.frames own m' lvl) (lvl + 1) e)
    (hdisjoint : ∀ k' ≠ k, Disjoint (L.entryFrames own (L.frames own m' lvl) (lvl + 1) e)
      (L.entryFrames own (L.frames own m lvl) (lvl + 1) (m t k')))
    (hchild : ∀ c, L.child (lvl + 1) e = some c → L.Separate own m' lvl c) :
    L.Separate own m' (lvl + 1) t := by
  refine ⟨fun k' => ?_, fun k' k'' hne => ?_, fun k' c hc => ?_⟩
  · by_cases hk : k' = k
    · rwa [hk, h.entry_self]
    · rw [h.entryFrames_of_ne hk]
      exact hsep.1 k'
  · by_cases hk : k' = k
    · subst hk
      rw [h.entry_self, h.entryFrames_of_ne (Ne.symm hne)]
      exact hdisjoint k'' (Ne.symm hne)
    · by_cases hk' : k'' = k
      · subst hk'
        rw [h.entry_self, h.entryFrames_of_ne hne]
        exact (hdisjoint k' hne).symm
      · rw [h.entryFrames_of_ne hk, h.entryFrames_of_ne hk']
        exact hsep.2.1 k' k'' hne
  · by_cases hk : k' = k
    · subst hk
      rw [h.entry_self] at hc
      exact hchild c hc
    · rw [h.entry_of_ne hk] at hc
      exact separate_congr (h.others k' hk c hc) (hsep.2.2 k' c hc)

/-- When the new entry holds what the old one did, so does the table. -/
theorem Grafts.frames_eq (h : Grafts L m m' lvl t k e)
    (he : L.entryFrames own (L.frames own m' lvl) (lvl + 1) e =
      L.entryFrames own (L.frames own m lvl) (lvl + 1) (m t k)) :
    L.frames own m' (lvl + 1) t = L.frames own m (lvl + 1) t := by
  ext f
  rw [h.mem_frames, mem_frames_succ, he]
  refine or_congr Iff.rfl ⟨?_, ?_⟩
  · rintro (hf | ⟨k', -, hf⟩)
    · exact ⟨k, hf⟩
    · exact ⟨k', hf⟩
  · rintro ⟨k', hf⟩
    by_cases hk : k' = k
    · exact Or.inl (hk ▸ hf)
    · exact Or.inr ⟨k', hk, hf⟩

/-- When the new entry holds what the old one did, the table stays separate. -/
theorem Grafts.separate_of_eq (h : Grafts L m m' lvl t k e)
    (he : L.entryFrames own (L.frames own m' lvl) (lvl + 1) e =
      L.entryFrames own (L.frames own m lvl) (lvl + 1) (m t k))
    (hsep : L.Separate own m (lvl + 1) t)
    (hchild : ∀ c, L.child (lvl + 1) e = some c → L.Separate own m' lvl c) :
    L.Separate own m' (lvl + 1) t := by
  refine h.separate hsep ?_ (fun k' hk => ?_) hchild
  · rw [he]
    exact hsep.1 k
  · rw [he]
    exact hsep.2.1 k k' (Ne.symm hk)

/-- What holds of the old entries and the new one holds of all. -/
theorem Grafts.entries (h : Grafts L m m' lvl t k e) (hentries : L.Entries P m (lvl + 1) t)
    (hnew : L.present e = true → P (lvl + 1) e)
    (hchild : ∀ c, L.child (lvl + 1) e = some c → L.Entries P m' lvl c) :
    L.Entries P m' (lvl + 1) t := by
  intro k' hpresent
  by_cases hk : k' = k
  · subst hk
    rw [h.entry_self] at hpresent ⊢
    exact ⟨hnew hpresent, hchild⟩
  · rw [h.entry_of_ne hk] at hpresent ⊢
    obtain ⟨hP, hold⟩ := hentries k' hpresent
    exact ⟨hP, fun c hc => entries_congr (h.others k' hk c hc) (hold c hc)⟩

/-- The paths through other entries keep their leaves. -/
theorem Grafts.leaf_of_ne (h : Grafts L m m' lvl t k e) {w : ℕ → K} (hw : w (lvl + 1) ≠ k) :
    L.leaf m' (lvl + 1) t w = L.leaf m (lvl + 1) t w := by
  have hentry := h.entry_of_ne hw
  rcases L.entry_cases (lvl + 1) (m t (w (lvl + 1))) with habsent | ⟨hpresent, hleaf⟩ | ⟨c, hc⟩
  · rw [leaf_of_absent habsent, leaf_of_absent (hentry ▸ habsent)]
  · rw [leaf_of_leaf hpresent hleaf, leaf_of_leaf (hentry ▸ hpresent) (hentry ▸ hleaf), hentry]
  · rw [leaf_of_child hc, leaf_of_child (hentry ▸ hc), leaf_congr (h.others _ hw c hc)]

end Graft

end Layout

end Foundations
