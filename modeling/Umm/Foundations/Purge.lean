import Umm.Foundations.Run

/-!
# Runs that differ in hidden steps

An observer is not shown all steps of a machine.  `purge` is what is left of a run for the observer, and
`agree_of_purge` is the induction for two runs of which the same is left: a relation between states that a
hidden step on either side keeps, and that a step on both sides keeps, holds at the end.
-/

namespace Foundations

variable {σ ε : Type*}

/-- The labels of a run that are not hidden. -/
def purge (step : σ → ε → Option σ) (hidden : σ → ε → Bool) : σ → List ε → List ε
  | _, [] => []
  | s, e :: es =>
    match step s e with
    | none => []
    | some s' => if hidden s e then purge step hidden s' es else e :: purge step hidden s' es

variable {step : σ → ε → Option σ} {hidden : σ → ε → Bool} {C : σ → ε → Prop} {R : σ → σ → Prop}
  {s s' t t' : σ} {e : ε} {es fs rest : List ε}

theorem purge_cons_of_hidden (hs' : step s e = some s') (he : hidden s e = true) :
    purge step hidden s (e :: es) = purge step hidden s' es := by
  rw [purge, hs']
  exact if_pos he

theorem purge_cons_of_visible (hs' : step s e = some s') (he : hidden s e = false) :
    purge step hidden s (e :: es) = e :: purge step hidden s' es := by
  rw [purge, hs']
  exact if_neg (Bool.eq_false_iff.mp he)

theorem purge_append (hrun : run step s es = some s') :
    purge step hidden s (es ++ fs) = purge step hidden s es ++ purge step hidden s' fs := by
  induction es generalizing s with
  | nil =>
    obtain rfl := Option.some.inj hrun
    rfl
  | cons e es ih =>
    obtain ⟨s₁, hs₁, hrun₁⟩ := run_cons_eq_some.mp hrun
    cases he : hidden s e with
    | true =>
      rw [List.cons_append, purge_cons_of_hidden hs₁ he, purge_cons_of_hidden hs₁ he, ih hrun₁]
    | false =>
      rw [List.cons_append, purge_cons_of_visible hs₁ he, purge_cons_of_visible hs₁ he, ih hrun₁,
        List.cons_append]

section Unwinding

variable (hright : ∀ s t e t', C t e → R s t → hidden t e = true → step t e = some t' → R s t')

include hright

/-- A run of hidden steps. -/
theorem agree_of_purge_nil (hR : R s t) (hC : AllSteps step C t fs)
    (hrun : run step t fs = some t') (hpurge : purge step hidden t fs = []) : R s t' := by
  induction fs generalizing t with
  | nil => exact Option.some.inj hrun ▸ hR
  | cons f fs ih =>
    obtain ⟨t₁, ht₁, hrun'⟩ := run_cons_eq_some.mp hrun
    cases hf : hidden t f with
    | true =>
      rw [purge_cons_of_hidden ht₁ hf] at hpurge
      exact ih (hright s t f t₁ hC.1 hR hf ht₁) (hC.2 t₁ ht₁) hrun' hpurge
    | false =>
      rw [purge_cons_of_visible ht₁ hf] at hpurge
      cases hpurge

/-- A run up to its first step that is not hidden, and what comes after it. -/
theorem exists_visible_of_purge (hR : R s t) (hC : AllSteps step C t fs)
    (hrun : run step t fs = some t') (hpurge : purge step hidden t fs = e :: rest) :
    ∃ t₁ t₂ fs', R s t₁ ∧ C t₁ e ∧ hidden t₁ e = false ∧ step t₁ e = some t₂ ∧
      AllSteps step C t₂ fs' ∧ run step t₂ fs' = some t' ∧ purge step hidden t₂ fs' = rest := by
  induction fs generalizing t with
  | nil => cases hpurge
  | cons f fs ih =>
    obtain ⟨t₁, ht₁, hrun'⟩ := run_cons_eq_some.mp hrun
    cases hf : hidden t f with
    | true =>
      rw [purge_cons_of_hidden ht₁ hf] at hpurge
      exact ih (hright s t f t₁ hC.1 hR hf ht₁) (hC.2 t₁ ht₁) hrun' hpurge
    | false =>
      rw [purge_cons_of_visible ht₁ hf] at hpurge
      obtain ⟨rfl, rfl⟩ := List.cons.inj hpurge
      exact ⟨t, t₁, fs, hR, hC.1, hf, ht₁, hC.2 t₁ ht₁, hrun', rfl⟩

/-- The unwinding theorem. -/
theorem agree_of_purge
    (hleft : ∀ s t e s', C s e → R s t → hidden s e = true → step s e = some s' → R s' t)
    (hboth : ∀ s t e s' t', C s e → C t e → R s t → hidden s e = false → hidden t e = false →
      step s e = some s' → step t e = some t' → R s' t')
    (hR : R s t) (hC : AllSteps step C s es) (hC' : AllSteps step C t fs)
    (hrun : run step s es = some s') (hrun' : run step t fs = some t')
    (hpurge : purge step hidden s es = purge step hidden t fs) : R s' t' := by
  induction es generalizing s t fs with
  | nil =>
    obtain rfl := Option.some.inj hrun
    exact agree_of_purge_nil hright hR hC' hrun' hpurge.symm
  | cons e es ih =>
    obtain ⟨s₁, hs₁, hrun₁⟩ := run_cons_eq_some.mp hrun
    cases he : hidden s e with
    | true =>
      rw [purge_cons_of_hidden hs₁ he] at hpurge
      exact ih (hleft s t e s₁ hC.1 hR he hs₁) (hC.2 s₁ hs₁) hC' hrun₁ hrun' hpurge
    | false =>
      rw [purge_cons_of_visible hs₁ he] at hpurge
      obtain ⟨t₁, t₂, fs', hR', hC₁, hvisible, ht₂, hC₂, hrun₂, hrest⟩ :=
        exists_visible_of_purge hright hR hC' hrun' hpurge.symm
      exact ih (hboth s t₁ e s₁ t₂ hC.1 hC₁ hR' he hvisible hs₁ ht₂) (hC.2 s₁ hs₁) hC₂ hrun₁ hrun₂
        hrest.symm

end Unwinding

end Foundations
