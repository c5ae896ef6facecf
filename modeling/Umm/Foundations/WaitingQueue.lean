import Umm.Foundations.Run

/-!
# Waiting in a queue

A queue is served from the front, but those who are not ready are passed over: `QueueChange` says
that some join at its end and that the first who is ready may be served.  Whoever is ready moves up
with every service and is served after those before him at most, whatever the others do.

`waits_run` says so of the runs of a machine that has such a queue in its state.
-/

namespace Foundations

variable {α : Type*}

/-- How a queue changes in which those in `ready` may be served: `served` is who has been. -/
inductive QueueChange (ready : α → Bool) (q q' : List α) : Option α → Prop where
  /-- Nobody is served. -/
  | join (new : List α) (hq' : q' = q ++ new) : QueueChange ready q q' none
  /-- The first who is ready is served. -/
  | serve (pre : List α) (y : α) (post new : List α) (hq : q = pre ++ y :: post)
      (hpre : ∀ z ∈ pre, ready z = false) (hy : ready y = true)
      (hq' : q' = pre ++ post ++ new) : QueueChange ready q q' (some y)

section Change

variable {ready : α → Bool} {q q' pre post : List α} {x : α} {served : Option α}

/-- How many have been served: one or none. -/
def servedCount (served : Option α) : ℕ :=
  if served.isSome then 1 else 0

/-- Whoever is ready is served, or moves up if somebody is. -/
theorem QueueChange.moves_up (h : QueueChange ready q q' served) (hx : ready x = true)
    (hq : q = pre ++ x :: post) : served = some x ∨
      ∃ pre' post', q' = pre' ++ x :: post' ∧ pre'.length + servedCount served ≤ pre.length := by
  cases h with
  | join new hq' =>
    refine Or.inr ⟨pre, post ++ new, ?_, Nat.le_refl _⟩
    rw [hq', hq, List.append_assoc, List.cons_append]
  | serve pre₁ y post₁ new hq₁ hpre hy hq' =>
    rcases List.append_eq_append_iff.mp (hq₁.symm.trans hq) with
      ⟨mid, hmid, hrest⟩ | ⟨mid, hmid, hrest⟩
    · cases mid with
      | nil =>
        rw [List.nil_append] at hrest
        exact Or.inl (congrArg some (List.cons.inj hrest).1)
      | cons z mid =>
        -- the one who is served was before `x`
        obtain ⟨rfl, hpost⟩ := List.cons.inj hrest
        refine Or.inr ⟨pre₁ ++ mid, post ++ new, ?_, ?_⟩
        · rw [hq', hpost]
          simp
        · simp only [hmid, servedCount, Option.isSome_some, if_true, List.length_append,
            List.length_cons]
          omega
    · cases mid with
      | nil =>
        rw [List.nil_append] at hrest
        exact Or.inl (congrArg some (List.cons.inj hrest).1.symm)
      | cons z mid =>
        obtain ⟨rfl, -⟩ := List.cons.inj hrest
        have hbefore := hpre x (by rw [hmid]; simp)
        rw [hx] at hbefore
        cases hbefore

end Change

section Runs

variable {σ ε : Type*} {step : σ → ε → Option σ}

/-- How many are served in a run. -/
def servedIn (step : σ → ε → Option σ) (serves : σ → ε → Option α) : σ → List ε → ℕ
  | _, [] => 0
  | s, e :: es =>
    servedCount (serves s e) + ((step s e).map fun t => servedIn step serves t es).getD 0

variable {serves : σ → ε → Option α} {queue : σ → List α} {C : σ → ε → Prop} {I W : σ → Prop}
  {s t : σ} {es : List ε} {x : α} {pre post : List α}

theorem servedIn_cons {e : ε} (hstep : step s e = some t) : servedIn step serves s (e :: es) =
    servedCount (serves s e) + servedIn step serves t es := by
  rw [servedIn, hstep, Option.map_some, Option.getD_some]

/-- In a run whose steps change the queue as they should: somebody who is ready as long as he waits
has been served before the others that were served used up those before him, or still waits. -/
theorem waits_run (hI : ∀ s e t, C s e → I s → step s e = some t → I t)
    (hchange : ∀ s e t, C s e → I s → step s e = some t → ∃ ready : α → Bool,
      QueueChange ready (queue s) (queue t) (serves s e) ∧ (x ∈ queue s → W s → ready x = true))
    (hs : I s) (hC : AllSteps step C s es) (hW : AllStates step (fun s => x ∈ queue s → W s) s es)
    (hq : queue s = pre ++ x :: post) (hrun : run step s es = some t) :
    (∃ es₁ e es₂ u, es = es₁ ++ e :: es₂ ∧ run step s es₁ = some u ∧ serves u e = some x ∧
      servedIn step serves s es₁ ≤ pre.length) ∨
    ∃ pre' post', queue t = pre' ++ x :: post' ∧
      pre'.length + servedIn step serves s es ≤ pre.length := by
  induction es generalizing s pre post with
  | nil =>
    obtain rfl := Option.some.inj hrun
    exact Or.inr ⟨pre, post, hq, Nat.le_refl _⟩
  | cons e es ih =>
    obtain ⟨u, hstep, hrun'⟩ := run_cons_eq_some.mp hrun
    obtain ⟨ready, hqueue, hready⟩ := hchange s e u hC.1 hs hstep
    have hmem : x ∈ queue s := by rw [hq]; simp
    have hx := hready hmem (hW.1 hmem)
    rcases hqueue.moves_up hx hq with hserved | ⟨pre', post', hq', hlength⟩
    · exact Or.inl ⟨[], e, es, s, rfl, rfl, hserved, Nat.zero_le _⟩
    rcases ih (hI s e u hC.1 hs hstep) (hC.2 u hstep) (hW.2 u hstep) hq' hrun' with
      ⟨es₁, e', es₂, v, rfl, hv, hserved, hcount⟩ | ⟨pre'', post'', hq'', hcount⟩
    · refine Or.inl ⟨e :: es₁, e', es₂, v, rfl, ?_, hserved, ?_⟩
      · exact run_cons_eq_some.mpr ⟨u, hstep, hv⟩
      · rw [servedIn_cons hstep]
        omega
    · refine Or.inr ⟨pre'', post'', hq'', ?_⟩
      rw [servedIn_cons hstep]
      omega

end Runs

end Foundations
