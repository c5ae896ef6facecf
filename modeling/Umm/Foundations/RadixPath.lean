import Umm.Foundations.RadixMap

/-!
# The entries on a path of a radix tree

`entryOn` is the entry of a given level that the walk along a path meets, present or not.  Mapping at
the end of a path makes every entry on the path lead on: an entry that was present is kept, and one
that was not becomes a link.
-/

namespace Foundations

namespace Layout

variable {K E F : Type} (L : Layout K E F)

/-- The entry of the level `l` that the walk along a path meets. -/
def entryOn (m : F → K → E) : ℕ → F → (ℕ → K) → ℕ → Option E
  | 0, _, _, _ => none
  | lvl + 1, t, v, l =>
    if l = lvl + 1 then some (m t (v (lvl + 1)))
    else (L.child (lvl + 1) (m t (v (lvl + 1)))).bind fun c => entryOn m lvl c v l

section EntryOn

variable {L} {m m' : F → K → E} {lvl l : ℕ} {t : F} {v : ℕ → K}

/-- The first entry of a walk is one of the root. -/
theorem entryOn_root : L.entryOn m (lvl + 1) t v (lvl + 1) = some (m t (v (lvl + 1))) := by
  rw [entryOn, if_pos rfl]

/-- The other entries are those of the table that the root leads to. -/
theorem entryOn_below (hl : l ≤ lvl) : L.entryOn m (lvl + 1) t v l =
    (L.child (lvl + 1) (m t (v (lvl + 1)))).bind fun c => L.entryOn m lvl c v l := by
  rw [entryOn, if_neg (by omega)]

/-- The entries on a path depend only on the pages of the table. -/
theorem entryOn_congr (h : ∀ f ∈ L.nodes m lvl t, m' f = m f) (v : ℕ → K) (l : ℕ) :
    L.entryOn m' lvl t v l = L.entryOn m lvl t v l := by
  induction lvl generalizing t with
  | zero => rfl
  | succ lvl ih =>
    have hroot : m' t = m t := h t root_mem_frames
    rw [entryOn, entryOn, hroot]
    refine ite_congr rfl (fun _ => rfl) fun _ => ?_
    refine Option.bind_congr fun c hc => ?_
    exact ih fun f hf => h f (nodes_subset_of_child hc hf)

end EntryOn

/-! ## Walking -/

/-- Every entry that the walk along a path meets satisfies `p`, and the walk ends at a leaf. -/
def allOn (p : E → Bool) (m : F → K → E) : ℕ → F → (ℕ → K) → Bool
  | 0, _, _ => false
  | lvl + 1, t, v =>
    p (m t (v (lvl + 1))) && (L.isLeaf (lvl + 1) (m t (v (lvl + 1))) ||
      allOn p m lvl (L.next (lvl + 1) (m t (v (lvl + 1)))) v)

/-- A walk that goes on below the root meets the entry of the root and those below. -/
theorem allOn_of_child {L : Layout K E F} {p : E → Bool} {m : F → K → E} {lvl : ℕ} {t c : F}
    {v : ℕ → K} (hc : L.child (lvl + 1) (m t (v (lvl + 1))) = some c) :
    L.allOn p m (lvl + 1) t v = (p (m t (v (lvl + 1))) && L.allOn p m lvl c v) := by
  obtain ⟨-, hleaf, rfl⟩ := child_eq_some.mp hc
  rw [allOn, hleaf, Bool.false_or]

/-- The entries that a walk meets depend only on the keys of the levels it visits. -/
theorem allOn_of_agree {L : Layout K E F} {p : E → Bool} {m : F → K → E} {lvl : ℕ} {t : F}
    {v w : ℕ → K} (h : Agree lvl v w) : L.allOn p m lvl t v = L.allOn p m lvl t w := by
  induction lvl generalizing t with
  | zero => rfl
  | succ lvl ih =>
    obtain ⟨hkey, hrest⟩ := agree_succ.mp h
    rw [allOn, allOn, hkey, ih hrest]

/-- A walk that meets entries with two properties. -/
theorem allOn_and {L : Layout K E F} {p q : E → Bool} {m : F → K → E} {lvl : ℕ} {t : F}
    {v : ℕ → K} : L.allOn (fun e => p e && q e) m lvl t v =
      (L.allOn p m lvl t v && L.allOn q m lvl t v) := by
  induction lvl generalizing t with
  | zero => rfl
  | succ lvl ih =>
    rw [allOn, allOn, allOn, ih]
    cases L.isLeaf (lvl + 1) (m t (v (lvl + 1))) with
    | true => simp
    | false => simp [Bool.and_assoc, Bool.and_left_comm]

/-- The walk to a leaf meets entries in use. -/
theorem allOn_present {L : Layout K E F} {m : F → K → E} {lvl : ℕ} {t : F} {v : ℕ → K} {q : ℕ × E}
    (hleaf : L.leaf m lvl t v = some q) : L.allOn L.present m lvl t v = true := by
  induction lvl generalizing t with
  | zero => cases hleaf
  | succ lvl ih =>
    rcases entry_cases L (lvl + 1) (m t (v (lvl + 1))) with habsent | ⟨hpres, hisLeaf⟩ | ⟨c, hc⟩
    · rw [leaf_of_absent habsent] at hleaf
      cases hleaf
    · rw [allOn, hpres, hisLeaf, Bool.true_or, Bool.and_true]
    · rw [leaf_of_child hc] at hleaf
      rw [allOn_of_child hc, (child_eq_some.mp hc).1, ih hleaf, Bool.and_true]

/-- In a table whose entries all satisfy `p`, so do those that the walk to a leaf meets. -/
theorem allOn_of_entries {L : Layout K E F} {p : E → Bool} {m : F → K → E} {lvl : ℕ} {t : F}
    {v : ℕ → K} {q : ℕ × E} (hentries : L.Entries (fun _ e => p e = true) m lvl t)
    (hleaf : L.leaf m lvl t v = some q) : L.allOn p m lvl t v = true := by
  induction lvl generalizing t with
  | zero => cases hleaf
  | succ lvl ih =>
    rcases entry_cases L (lvl + 1) (m t (v (lvl + 1))) with habsent | ⟨hpres, hisLeaf⟩ | ⟨c, hc⟩
    · rw [leaf_of_absent habsent] at hleaf
      cases hleaf
    · rw [allOn, (hentries _ hpres).1, hisLeaf, Bool.true_or, Bool.and_true]
    · rw [leaf_of_child hc] at hleaf
      obtain ⟨hp, hbelow⟩ := hentries _ (child_eq_some.mp hc).1
      rw [allOn_of_child hc, hp, ih (hbelow c hc) hleaf, Bool.and_true]

/-- Every entry on a path from the level `lvl` down to level 2 leads on: it is the entry that was
there before, or a link in the place of an entry that was not in use or did not exist. -/
def Linked (lvl : ℕ) (old new : ℕ → Option E) : Prop :=
  ∀ l, 2 ≤ l → l ≤ lvl → ∃ e, new l = some e ∧ L.present e = true ∧ L.isLeaf l e = false ∧
    (old l = some e ∨ (∀ e₀, old l = some e₀ → L.present e₀ = false) ∧ ∃ c, e = L.link c)

section MapAt

variable [DecidableEq F] [DecidableEq K] {A : Allocator F} {ε : Type} {L} {own : E → Bool}
  {P : ℕ → E → Prop} {lvl : ℕ} {h : Heap A (K → E)} {root : Option F} {t : F} {e : E} {v : ℕ → K}
  {oom : ε}

/-- Mapping starts with the given table or a new one. -/
theorem mapAt_getTable (mapLvl : ℕ) : L.mapAt oom e v mapLvl lvl root h =
    L.getTable oom root h >>= fun p => L.mapAt oom e v mapLvl lvl (some p.1) p.2 := by
  cases hget : L.getTable oom root h with
  | error err => cases lvl <;> simp [mapAt, hget, bind, Except.bind]
  | ok p =>
    have hsome : L.getTable oom (some p.1) p.2 = .ok p := rfl
    cases lvl <;> simp [mapAt, hget, hsome, bind, Except.bind]

omit [DecidableEq K] in
/-- The table is the given one in the same memory, or one without entries. -/
theorem getTable_page : Outcome (L.getTable oom root h)
    (fun p => root = some p.1 ∧ p.2 = h ∨ root = none ∧ p.2.mem p.1 = fun _ => L.empty)
    (· = oom) := by
  cases root with
  | some t => exact Or.inl ⟨rfl, rfl⟩
  | none =>
    refine outcome_bind.mpr (Heap.alloc_outcome rfl fun t h₁ _ => ?_)
    exact Or.inr ⟨rfl, by simp⟩

omit [DecidableEq F] [DecidableEq K] in
/-- A new table has no entries in use. -/
theorem Linked.of_page_empty {new : ℕ → Option E} {m : F → K → E} (hpage : m t = fun _ => L.empty)
    (h : L.Linked lvl (L.entryOn m lvl t v) new) : L.Linked lvl (fun _ => none) new := by
  intro l h2 hl
  obtain ⟨e, hnew, hpresent, hleaf, hold | ⟨-, hlink⟩⟩ := h l h2 hl
  · cases lvl with
    | zero => cases hold
    | succ lvl =>
      have habsent : L.present (m t (v (lvl + 1))) = false := by rw [hpage, L.present_empty]
      rcases Nat.lt_or_eq_of_le hl with hlt | rfl
      · rw [entryOn_below (by omega), child, habsent] at hold
        cases hold
      · rw [entryOn_root] at hold
        rw [Option.some.inj hold, hpresent] at habsent
        cases habsent
  · exact ⟨e, hnew, hpresent, hleaf, Or.inr ⟨fun e₀ he₀ => (by cases he₀), hlink⟩⟩

omit [DecidableEq F] [DecidableEq K] in
/-- The entries on a path lead on if those below the root do and the one of the root leads there. -/
theorem Linked.of_child {m m' : F → K → E} {c : F}
    (hchild : L.child (lvl + 1) (m' t (v (lvl + 1))) = some c)
    (hroot : m' t (v (lvl + 1)) = m t (v (lvl + 1)) ∨
      L.present (m t (v (lvl + 1))) = false ∧ ∃ c, m' t (v (lvl + 1)) = L.link c)
    (h : L.Linked lvl (fun l => (L.child (lvl + 1) (m t (v (lvl + 1)))).bind
      fun r => L.entryOn m lvl r v l) (L.entryOn m' lvl c v)) :
    L.Linked (lvl + 1) (L.entryOn m (lvl + 1) t v) (L.entryOn m' (lvl + 1) t v) := by
  intro l h2 hl
  rcases Nat.lt_or_eq_of_le hl with hlt | rfl
  · rw [entryOn_below (by omega), entryOn_below (by omega), hchild]
    exact h l h2 (by omega)
  · obtain ⟨hpresent, hleaf, -⟩ := child_eq_some.mp hchild
    rw [entryOn_root, entryOn_root]
    refine ⟨_, rfl, hpresent, hleaf, hroot.imp (fun heq => congrArg some heq.symm) ?_⟩
    exact fun hnew => ⟨fun e₀ he₀ => Option.some.inj he₀ ▸ hnew.1, hnew.2⟩

/-- The entries on the path to a mapped leaf lead on, and those that were in use are kept. -/
theorem mapAt_linked (hP : P 1 e) (hlink : ∀ l c, 2 ≤ l → P l (L.link c))
    (hleaf : ∀ l e, P l e → L.isLeaf l e = true → l = 1) (hpresent : L.present e = true)
    (hlvl : 1 ≤ lvl) (htop : lvl ≤ L.top) (hroot : ∀ r, root = some r → L.Mappable own P lvl h r)
    (hnew : own e = true → ¬ h.IsFree (L.next 1 e) ∧
      ∀ r, root = some r → L.next 1 e ∉ L.frames own h.mem lvl r) :
    Outcome (L.mapAt oom e v 1 lvl root h)
      (fun p => L.Linked lvl (fun l => root.bind fun r => L.entryOn h.mem lvl r v l)
        (L.entryOn p.2.mem lvl p.1 v)) (· = oom) := by
  induction lvl generalizing root h with
  | zero => omega
  | succ lvl ih =>
    rw [mapAt_getTable]
    refine outcome_bind.mpr (((getTable_outcome hroot).and getTable_page).mono ?_ fun _ h => h)
    rintro ⟨t, h₁⟩ ⟨⟨hgrows, ht, hframes, -⟩, hpage⟩
    suffices hstart : Outcome (L.mapAt oom e v 1 (lvl + 1) (some t) h₁)
        (fun p => L.Linked (lvl + 1) (L.entryOn h₁.mem (lvl + 1) t v)
          (L.entryOn p.2.mem (lvl + 1) p.1 v)) (· = oom) by
      refine hstart.mono (fun p hlinked => ?_) fun _ h => h
      rcases hpage with ⟨rfl, rfl⟩ | ⟨rfl, hpage⟩
      · exact hlinked
      · exact hlinked.of_page_empty hpage
    have hnew₁ : own e = true →
        ¬ h₁.IsFree (L.next 1 e) ∧ L.next 1 e ∉ L.frames own h₁.mem (lvl + 1) t :=
      fun hown => hgrows.not_mem_frames hframes (hnew hown)
    unfold mapAt
    refine outcome_bind.mpr ?_
    rw [show L.getTable oom (some t) h₁ = .ok (t, h₁) from rfl, outcome_ok]
    dsimp only
    by_cases hone : lvl + 1 = 1
    · rw [if_pos hone]
      intro l h2 hl
      omega
    rw [if_neg hone]
    have hentry : L.present (h₁.mem t (v (lvl + 1))) = true →
        L.isLeaf (lvl + 1) (h₁.mem t (v (lvl + 1))) = false := by
      intro hcur
      by_contra hisLeaf
      exact hone (hleaf _ _ (ht.entries _ hcur).1 (by simpa using hisLeaf))
    have hbelow : ∀ root, L.child (lvl + 1) (h₁.mem t (v (lvl + 1))) = root →
        Outcome (L.mapAt oom e v 1 lvl root h₁)
          (fun p => L.Mapped own P lvl v e h₁ root p.1 p.2 ∧
            L.Linked lvl (fun l => root.bind fun r => L.entryOn h₁.mem lvl r v l)
              (L.entryOn p.2.mem lvl p.1 v)) (· = oom) := by
      rintro root rfl
      have hroot₁ : ∀ r, L.child (lvl + 1) (h₁.mem t (v (lvl + 1))) = some r →
          L.Mappable own P lvl h₁ r := fun r hr => ht.child hr
      have hnew₂ := fun hown => And.intro (hnew₁ hown).1
        (not_mem_frames_of_child (k := v (lvl + 1)) (hnew₁ hown).2)
      exact (mapAt_outcome hP hlink hleaf hpresent (by omega) (by omega) hroot₁ hnew₂).and
        (ih (by omega) (by omega) hroot₁ hnew₂)
    cases hcur : L.present (h₁.mem t (v (lvl + 1))) with
    | true =>
      have hchild := child_eq_some.mpr ⟨hcur, hentry hcur, rfl⟩
      rw [if_pos rfl]
      refine outcome_bind.mpr ((hbelow _ hchild).mono ?_ fun _ h => h)
      rintro ⟨c, h₂⟩ ⟨hmapped, hlinked⟩
      obtain rfl := hmapped.root_eq _ rfl
      rw [← hchild] at hmapped hlinked
      have hpage : h₂.mem t = h₁.mem t := hmapped.page_eq ht hnew₁
      exact hlinked.of_child (by rw [hpage, hchild]) (Or.inl (by rw [hpage]))
    | false =>
      have hnone : L.child (lvl + 1) (h₁.mem t (v (lvl + 1))) = none := by
        simp [child, hcur]
      rw [if_neg Bool.false_ne_true]
      refine outcome_bind.mpr ((hbelow _ hnone).mono ?_ fun _ h => h)
      rintro ⟨c, h₂⟩ ⟨hmapped, hlinked⟩
      rw [← hnone] at hmapped hlinked
      have hself : (setEntry h₂ t (v (lvl + 1)) (L.link c)).mem t (v (lvl + 1)) = L.link c := by
        simp [setEntry]
      have hbelow : ∀ f ∈ L.nodes h₂.mem lvl c,
          (setEntry h₂ t (v (lvl + 1)) (L.link c)).mem f = h₂.mem f := by
        refine fun f hf => Heap.mem_setPage_of_ne _ _ fun heq => ?_
        exact hmapped.root_not_mem ht hnew₁ (heq ▸ nodes_subset_frames _ _ hf)
      have hlink₃ := child_link (c := c) (show 2 ≤ lvl + 1 by omega) htop
      refine Linked.of_child (by rw [hself, hlink₃]) (Or.inr ⟨hcur, c, hself⟩) ?_
      rwa [funext (entryOn_congr hbelow v)]

end MapAt

end Layout

end Foundations
