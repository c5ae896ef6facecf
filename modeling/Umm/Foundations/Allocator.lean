import Mathlib.Data.Set.Basic
import Mathlib.Logic.Function.Basic
import Umm.Foundations.Outcome

/-!
# Allocators and heaps of pages

An `Allocator` hands out frames.  Nothing is known of its strategy; its laws say which frames are
free.  A `Heap` is a memory of pages together with the state of an allocator, and logs the calls of
`free`, so that one can state that no frame is freed twice.
-/

namespace Foundations

/-- An allocator of frames: its operations and which frames are free in a state of it. -/
structure Allocator (F : Type) where
  /-- The states of the allocator. -/
  State : Type
  /-- Allocate a frame, if there is one. -/
  alloc : State → Option (F × State)
  /-- Give a frame back. -/
  free : State → F → State
  /-- The frame may be handed out. -/
  IsFree : State → F → Prop
  /-- Only free frames are handed out. -/
  isFree_of_alloc : ∀ {σ σ' f}, alloc σ = some (f, σ') → IsFree σ f
  /-- An allocation takes the frame it returns. -/
  isFree_alloc : ∀ {σ σ' f}, alloc σ = some (f, σ') → ∀ g, IsFree σ' g ↔ IsFree σ g ∧ g ≠ f
  /-- Freeing a frame in use makes it free. -/
  isFree_free : ∀ {σ f}, ¬ IsFree σ f → ∀ g, IsFree (free σ f) g ↔ IsFree σ g ∨ g = f

namespace Allocator

/-- The allocator that keeps the list of its free frames. -/
def freeList (F : Type) [DecidableEq F] : Allocator F where
  State := List F
  alloc
    | [] => none
    | f :: fs => some (f, fs.filter (· ≠ f))
  free fs f := f :: fs
  IsFree fs f := f ∈ fs
  isFree_of_alloc {σ σ' f} h := by
    cases σ with
    | nil => cases h
    | cons g gs =>
      obtain ⟨rfl, -⟩ := Prod.mk.inj (Option.some.inj h)
      exact List.mem_cons_self
  isFree_alloc {σ σ' f} h g := by
    cases σ with
    | nil => cases h
    | cons f' fs =>
      obtain ⟨rfl, rfl⟩ := Prod.mk.inj (Option.some.inj h)
      simp only [List.mem_filter, List.mem_cons, decide_eq_true_eq]
      tauto
  isFree_free {σ f} _ g := by
    rw [List.mem_cons, or_comm]

instance decidableIsFree {F : Type} [DecidableEq F] :
    ∀ (σ : (freeList F).State) (f : F), Decidable ((freeList F).IsFree σ f) :=
  fun (σ : List F) f => inferInstanceAs (Decidable (f ∈ σ))

end Allocator

variable {F P : Type}

/-- A memory of pages with an allocator. -/
structure Heap (A : Allocator F) (P : Type) where
  /-- The content of the frames. -/
  mem : F → P
  /-- The state of the allocator. -/
  pal : A.State
  /-- Log of the calls of `free`: the allocator's state before the call, and the frame. -/
  freeCalls : List (A.State × F)

namespace Heap

variable {A : Allocator F} {ε : Type}

/-- The frame may be handed out. -/
def IsFree (h : Heap A P) (f : F) : Prop :=
  A.IsFree h.pal f

instance decidableIsFree [∀ σ f, Decidable (A.IsFree σ f)] (h : Heap A P) (f : F) :
    Decidable (h.IsFree f) :=
  inferInstanceAs (Decidable (A.IsFree h.pal f))

/-- Allocate a frame. -/
def alloc (oom : ε) (h : Heap A P) : Except ε (F × Heap A P) :=
  match A.alloc h.pal with
  | none => .error oom
  | some (f, pal) => .ok (f, { h with pal })

/-- Free a frame. -/
def free (h : Heap A P) (f : F) : Heap A P :=
  { h with pal := A.free h.pal f, freeCalls := (h.pal, f) :: h.freeCalls }

/-- Overwrite a page. -/
def setPage [DecidableEq F] (h : Heap A P) (f : F) (p : P) : Heap A P :=
  { h with mem := Function.update h.mem f p }

/-- What an allocation that returned the frame `f` did. -/
structure Allocated (h : Heap A P) (f : F) (h' : Heap A P) : Prop where
  /-- The frame was free. -/
  free : h.IsFree f
  /-- The frame is taken. -/
  isFree : ∀ g, h'.IsFree g ↔ h.IsFree g ∧ g ≠ f
  /-- The memory is as before. -/
  mem : h'.mem = h.mem
  /-- Nothing was freed. -/
  freeCalls : h'.freeCalls = h.freeCalls

/-- An allocation takes a free frame, or there is none. -/
theorem alloc_outcome {oom : ε} {h : Heap A P} {Q : F × Heap A P → Prop} {E : ε → Prop}
    (hoom : E oom) (hQ : ∀ f h', h.Allocated f h' → Q (f, h')) : Outcome (h.alloc oom) Q E := by
  unfold alloc
  cases halloc : A.alloc h.pal with
  | none => exact hoom
  | some p =>
    obtain ⟨f, pal⟩ := p
    exact hQ f _ ⟨A.isFree_of_alloc halloc, A.isFree_alloc halloc, rfl, rfl⟩

/-- What calls of `free` on the frames of `S` did, each once and while it was in use. -/
structure Freed (S : Set F) (h h' : Heap A P) : Prop where
  /-- The memory is as before. -/
  mem : h'.mem = h.mem
  /-- The frames of `S` are free, and nothing else has been freed. -/
  isFree : ∀ f, h'.IsFree f ↔ h.IsFree f ∨ f ∈ S
  /-- The calls were on frames of `S` that were in use. -/
  freeCalls : ∃ calls, h'.freeCalls = calls ++ h.freeCalls ∧
    ∀ c ∈ calls, ¬ A.IsFree c.1 c.2 ∧ c.2 ∈ S

/-- Nothing has been freed. -/
theorem Freed.refl (h : Heap A P) : Freed ∅ h h :=
  ⟨rfl, fun f => by simp, [], rfl, fun _ hc => absurd hc List.not_mem_nil⟩

/-- Freeing a frame that is in use frees that frame. -/
theorem freed_free {h : Heap A P} {f : F} (hf : ¬ h.IsFree f) : Freed {f} h (h.free f) :=
  ⟨rfl, A.isFree_free hf, [(h.pal, f)], rfl, fun c hc => by
    rw [List.mem_singleton] at hc
    exact hc ▸ ⟨hf, rfl⟩⟩

/-- What is freed in two goes is freed. -/
theorem Freed.trans {S S' : Set F} {h h' h'' : Heap A P} (h₁ : Freed S h h')
    (h₂ : Freed S' h' h'') : Freed (S ∪ S') h h'' := by
  obtain ⟨calls₁, hcalls₁, hall₁⟩ := h₁.freeCalls
  obtain ⟨calls₂, hcalls₂, hall₂⟩ := h₂.freeCalls
  refine ⟨h₂.mem.trans h₁.mem, fun f => ?_, calls₂ ++ calls₁, ?_, fun c hc => ?_⟩
  · rw [h₂.isFree, h₁.isFree, or_assoc, Set.mem_union]
  · rw [hcalls₂, hcalls₁, List.append_assoc]
  · rcases List.mem_append.mp hc with hc | hc
    · exact ⟨(hall₂ c hc).1, Or.inr (hall₂ c hc).2⟩
    · exact ⟨(hall₁ c hc).1, Or.inl (hall₁ c hc).2⟩

/-- The same frames under another name. -/
theorem Freed.congr {S S' : Set F} {h h' : Heap A P} (hfreed : Freed S h h') (hS : S = S') :
    Freed S' h h' :=
  hS ▸ hfreed

section SetPage

variable [DecidableEq F] (h : Heap A P) (f g : F) (p : P)

/-- The page that is overwritten. -/
@[simp] theorem mem_setPage_self : (h.setPage f p).mem f = p := by
  simp [setPage]

/-- The other pages stay. -/
theorem mem_setPage_of_ne {f g : F} (hne : g ≠ f) : (h.setPage f p).mem g = h.mem g := by
  simp [setPage, hne]

/-- Overwriting a page frees nothing and takes nothing. -/
@[simp] theorem isFree_setPage : (h.setPage f p).IsFree g ↔ h.IsFree g := Iff.rfl

/-- It is no call of `free`. -/
@[simp] theorem freeCalls_setPage : (h.setPage f p).freeCalls = h.freeCalls := rfl

/-- What an allocation did whose frame `f` was then filled with the page `p`. -/
structure Filled (h : Heap A P) (f : F) (p : P) (h' : Heap A P) : Prop where
  /-- The frame was free. -/
  free : h.IsFree f
  /-- The frame is taken. -/
  isFree : ∀ g, h'.IsFree g ↔ h.IsFree g ∧ g ≠ f
  /-- The frame has the page. -/
  mem_self : h'.mem f = p
  /-- Nothing else has been written. -/
  mem_eq : ∀ g ≠ f, h'.mem g = h.mem g
  /-- Nothing was freed. -/
  freeCalls : h'.freeCalls = h.freeCalls

variable {h f} {h' : Heap A P}

/-- A new frame that is overwritten is filled. -/
theorem Allocated.filled (halloc : h.Allocated f h') : h.Filled f p (h'.setPage f p) where
  free := halloc.free
  isFree := halloc.isFree
  mem_self := mem_setPage_self h' f p
  mem_eq := fun g hg => by rw [mem_setPage_of_ne h' p hg, halloc.mem]
  freeCalls := halloc.freeCalls

omit [DecidableEq F] in
/-- What was in use is not written. -/
theorem Filled.mem_eq_of_used {p : P} (hfill : h.Filled f p h') {g : F} (hg : ¬ h.IsFree g) :
    h'.mem g = h.mem g :=
  hfill.mem_eq g fun heq => hg (heq ▸ hfill.free)

end SetPage

end Heap

end Foundations
