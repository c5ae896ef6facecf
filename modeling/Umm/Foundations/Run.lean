import Mathlib.Data.List.Basic
import Mathlib.Tactic.Common

/-!
# Runs of a deterministic machine

A machine is a partial step function `step : σ → ε → Option σ`: the label `ε` names what happens and
`none` says that it cannot happen in the given state.  `run` performs a list of labels,
`AllSteps` and `AllStates` quantify over the steps and the states of a run, and `run_invariant`
is the induction every invariant of a machine goes through.  `run_simulation` is the same
induction for a relation between two machines that read the same labels; `map_run_eq_run` is it for
a function, and `map_run_eq_run_filterMap` for a machine that also has steps the other one does not
see.
-/

namespace Foundations

variable {σ τ ε : Type*}

/-- Perform the labels in order; `none` as soon as one of them is refused. -/
def run (step : σ → ε → Option σ) : σ → List ε → Option σ
  | s, [] => some s
  | s, e :: es => (step s e).bind fun s' => run step s' es

/-- `C` holds of every step the run performs, in the state before it. -/
def AllSteps (step : σ → ε → Option σ) (C : σ → ε → Prop) : σ → List ε → Prop
  | _, [] => True
  | s, e :: es => C s e ∧ ∀ s', step s e = some s' → AllSteps step C s' es

/-- `I` holds of every state the run reaches, the first one included. -/
def AllStates (step : σ → ε → Option σ) (I : σ → Prop) : σ → List ε → Prop
  | s, [] => I s
  | s, e :: es => I s ∧ ∀ s', step s e = some s' → AllStates step I s' es

/-- A decidable condition on steps can be decided of a whole run. -/
instance decidableAllSteps (step : σ → ε → Option σ) (C : σ → ε → Prop) [∀ s e, Decidable (C s e)] :
    ∀ s es, Decidable (AllSteps step C s es)
  | _, [] => isTrue trivial
  | s, e :: es =>
    match hs : step s e with
    | none => decidable_of_iff (C s e) ⟨fun h => ⟨h, fun s' hs' => by simp [hs] at hs'⟩, And.left⟩
    | some s' =>
      have := decidableAllSteps step C s' es
      decidable_of_iff (C s e ∧ AllSteps step C s' es)
        ⟨fun h => ⟨h.1, fun t ht => Option.some.inj (hs.symm.trans ht) ▸ h.2⟩,
          fun h => ⟨h.1, h.2 s' hs⟩⟩

/-- A decidable property of states can be decided of all the states of a run. -/
instance decidableAllStates (step : σ → ε → Option σ) (I : σ → Prop) [∀ s, Decidable (I s)] :
    ∀ s es, Decidable (AllStates step I s es)
  | s, [] => inferInstanceAs (Decidable (I s))
  | s, e :: es =>
    match hs : step s e with
    | none => decidable_of_iff (I s) ⟨fun h => ⟨h, fun s' hs' => by simp [hs] at hs'⟩, And.left⟩
    | some s' =>
      have := decidableAllStates step I s' es
      decidable_of_iff (I s ∧ AllStates step I s' es)
        ⟨fun h => ⟨h.1, fun t ht => Option.some.inj (hs.symm.trans ht) ▸ h.2⟩,
          fun h => ⟨h.1, h.2 s' hs⟩⟩

/-- The run succeeds, and all its steps pass the test. -/
def passes (step : σ → ε → Option σ) (test : σ → ε → Bool) : σ → List ε → Bool
  | _, [] => true
  | s, e :: es => test s e && (step s e).any fun s' => passes step test s' es

section Run

variable {step : σ → ε → Option σ}

@[simp] theorem run_nil (s : σ) : run step s [] = some s := rfl

@[simp] theorem run_cons (s : σ) (e : ε) (es : List ε) :
    run step s (e :: es) = (step s e).bind fun s' => run step s' es := rfl

/-- The first label of a successful run is accepted, and the rest runs from there. -/
theorem run_cons_eq_some {s t : σ} {e : ε} {es : List ε} :
    run step s (e :: es) = some t ↔ ∃ s', step s e = some s' ∧ run step s' es = some t := by
  simp [Option.bind_eq_some_iff]

/-- A run over a concatenation is the two runs one after the other. -/
theorem run_append (s : σ) (es fs : List ε) :
    run step s (es ++ fs) = (run step s es).bind fun s' => run step s' fs := by
  induction es generalizing s with
  | nil => rfl
  | cons e es ih =>
    simp only [List.cons_append, run_cons, Option.bind_assoc]
    exact congrArg _ (funext fun s' => ih s')

variable {C : σ → ε → Prop} {I : σ → Prop}

@[simp] theorem allSteps_nil (s : σ) : AllSteps step C s [] := trivial

/-- What a run that passes its tests is. -/
theorem passes_iff {test : σ → ε → Bool} {s : σ} {es : List ε} : passes step test s es = true ↔
    AllSteps step (fun s e => test s e = true) s es ∧ ∃ t, run step s es = some t := by
  induction es generalizing s with
  | nil => simp [passes, AllSteps]
  | cons e es ih =>
    simp only [passes, Bool.and_eq_true, Option.any_eq_true, ih, AllSteps, run_cons_eq_some]
    constructor
    · rintro ⟨htest, s', hs', hsteps, t, hrun⟩
      exact ⟨⟨htest, fun s'' hs'' => Option.some.inj (hs'.symm.trans hs'') ▸ hsteps⟩, t, s', hs', hrun⟩
    · rintro ⟨⟨htest, hsteps⟩, t, s', hs', hrun⟩
      exact ⟨htest, s', hs', hsteps s' hs', t, hrun⟩

/-- A condition on the steps that implies another one passes along the run. -/
theorem AllSteps.mono {D : σ → ε → Prop} (hCD : ∀ s e, C s e → D s e) {s : σ} {es : List ε}
    (h : AllSteps step C s es) : AllSteps step D s es := by
  induction es generalizing s with
  | nil => trivial
  | cons e es ih => exact ⟨hCD s e h.1, fun s' hs' => ih (h.2 s' hs')⟩

/-- A condition that the labels of a run meet in every state. -/
theorem allSteps_of_mem {s : σ} {es : List ε} (h : ∀ e ∈ es, ∀ s, C s e) : AllSteps step C s es := by
  induction es generalizing s with
  | nil => trivial
  | cons e es ih =>
    exact ⟨h e List.mem_cons_self s, fun s' _ => ih fun e' he' => h e' (List.mem_cons_of_mem e he')⟩

/-- The steps of a concatenation are those of the first part, and those of the second from where the
first ends. -/
theorem allSteps_append {s : σ} {es fs : List ε} :
    AllSteps step C s (es ++ fs) ↔
      AllSteps step C s es ∧ ∀ t, run step s es = some t → AllSteps step C t fs := by
  induction es generalizing s with
  | nil => simp [AllSteps]
  | cons e es ih =>
    simp only [List.cons_append, AllSteps, ih, run_cons_eq_some, and_assoc, forall_exists_index,
      and_imp]
    refine and_congr_right fun _ => ⟨fun h => ⟨fun s' hs' => (h s' hs').1, ?_⟩, ?_⟩
    · exact fun t s' hs' => (h s' hs').2 t
    · exact fun h s' hs' => ⟨h.1 s' hs', fun t => h.2 t s' hs'⟩

/-- A run that succeeds accepts all its labels. -/
theorem allSteps_of_run {s t : σ} {es : List ε} (hrun : run step s es = some t) :
    AllSteps step (fun s e => ∃ s', step s e = some s') s es := by
  induction es generalizing s with
  | nil => trivial
  | cons e es ih =>
    obtain ⟨s', hs', hrun'⟩ := run_cons_eq_some.mp hrun
    refine ⟨⟨s', hs'⟩, fun s'' hs'' => ?_⟩
    obtain rfl := Option.some.inj (hs'.symm.trans hs'')
    exact ih hrun'

/-- The induction on runs: what one lawful step preserves, a lawful run preserves. -/
theorem run_invariant (hstep : ∀ s e s', C s e → I s → step s e = some s' → I s')
    {s t : σ} {es : List ε} (hs : I s) (hC : AllSteps step C s es)
    (hrun : run step s es = some t) : I t := by
  induction es generalizing s with
  | nil => exact Option.some.inj hrun ▸ hs
  | cons e es ih =>
    obtain ⟨s', hs', hrun'⟩ := run_cons_eq_some.mp hrun
    exact ih (hstep s e s' hC.1 hs hs') (hC.2 s' hs') hrun'

/-- `run_invariant` for machines all of whose steps preserve the invariant. -/
theorem run_invariant' (hstep : ∀ s e s', I s → step s e = some s' → I s')
    {s t : σ} {es : List ε} (hs : I s) (hrun : run step s es = some t) : I t := by
  induction es generalizing s with
  | nil => exact Option.some.inj hrun ▸ hs
  | cons e es ih =>
    obtain ⟨s', hs', hrun'⟩ := run_cons_eq_some.mp hrun
    exact ih (hstep s e s' hs hs') hrun'

/-- The same induction, concluding about every state on the way. -/
theorem allStates_of_invariant {J : σ → Prop} (hIJ : ∀ s, I s → J s)
    (hstep : ∀ s e s', C s e → I s → step s e = some s' → I s')
    {s : σ} {es : List ε} (hs : I s) (hC : AllSteps step C s es) : AllStates step J s es := by
  induction es generalizing s with
  | nil => exact hIJ s hs
  | cons e es ih => exact ⟨hIJ s hs, fun s' hs' => ih (hstep s e s' hC.1 hs hs') (hC.2 s' hs')⟩

/-- `allStates_of_invariant` for machines all of whose steps preserve the invariant. -/
theorem allStates_of_invariant' {J : σ → Prop} (hIJ : ∀ s, I s → J s)
    (hstep : ∀ s e s', I s → step s e = some s' → I s') {s : σ} {es : List ε} (hs : I s) :
    AllStates step J s es := by
  induction es generalizing s with
  | nil => exact hIJ s hs
  | cons e es ih => exact ⟨hIJ s hs, fun s' hs' => ih (hstep s e s' hs hs')⟩

/-- The same induction, concluding about every step on the way, refused ones included. -/
theorem allSteps_of_invariant {D : σ → ε → Prop} (hCD : ∀ s e, C s e → I s → D s e)
    (hstep : ∀ s e s', C s e → I s → step s e = some s' → I s')
    {s : σ} {es : List ε} (hs : I s) (hC : AllSteps step C s es) : AllSteps step D s es := by
  induction es generalizing s with
  | nil => trivial
  | cons e es ih =>
    exact ⟨hCD s e hC.1 hs, fun s' hs' => ih (hstep s e s' hC.1 hs hs') (hC.2 s' hs')⟩

/-- Two conditions that agree on the steps from states with the invariant agree on runs. -/
theorem allSteps_congr {D : σ → ε → Prop} (hCD : ∀ s e, I s → (C s e ↔ D s e))
    (hstep : ∀ s e s', I s → step s e = some s' → I s') {s : σ} {es : List ε} (hs : I s) :
    AllSteps step C s es ↔ AllSteps step D s es := by
  induction es generalizing s with
  | nil => exact Iff.rfl
  | cons e es ih =>
    refine and_congr (hCD s e hs) (forall_congr' fun s' => imp_congr_right fun hs' => ?_)
    exact ih (hstep s e s' hs hs')

/-- The state a run ends in is one of the states it reaches. -/
theorem AllStates.last {s t : σ} {es : List ε} (h : AllStates step I s es)
    (hrun : run step s es = some t) : I t := by
  induction es generalizing s with
  | nil => exact Option.some.inj hrun ▸ h
  | cons e es ih =>
    obtain ⟨s', hs', hrun'⟩ := run_cons_eq_some.mp hrun
    exact ih (h.2 s' hs') hrun'

/-- The first state of a run is one of the states it reaches. -/
theorem AllStates.head {s : σ} {es : List ε} (h : AllStates step I s es) : I s := by
  cases es with
  | nil => exact h
  | cons e es => exact h.1

/-- When a step outside `C` leads at once to a state outside `J`, a run that stays in `J` performs
only steps in `C`.  The invariant `I` is carried by the steps performed so far. -/
theorem allSteps_of_allStates {D : σ → ε → Prop} {J : σ → Prop}
    (hstep : ∀ s e s', D s e → C s e → I s → step s e = some s' → I s')
    (hexit : ∀ s e, D s e → I s → ¬ C s e → ∃ s', step s e = some s' ∧ ¬ J s')
    {s : σ} {es : List ε} (hs : I s) (hD : AllSteps step D s es) (hJ : AllStates step J s es) :
    AllSteps step C s es := by
  induction es generalizing s with
  | nil => trivial
  | cons e es ih =>
    have hC : C s e := by
      by_contra hC
      obtain ⟨s', hs', hJ'⟩ := hexit s e hD.1 hs hC
      exact hJ' (hJ.2 s' hs').head
    exact ⟨hC, fun s' hs' => ih (hstep s e s' hD.1 hC hs hs') (hD.2 s' hs') (hJ.2 s' hs')⟩

/-- A condition on the steps of a run holds of those after a prefix. -/
theorem AllSteps.of_append {s t : σ} {es fs : List ε} (h : AllSteps step C s (es ++ fs))
    (hrun : run step s es = some t) : AllSteps step C t fs := by
  induction es generalizing s with
  | nil => exact Option.some.inj hrun ▸ h
  | cons e es ih =>
    obtain ⟨s', hs', hrun'⟩ := run_cons_eq_some.mp hrun
    exact ih (h.2 s' hs') hrun'

/-- Two conditions on the steps of a run are their conjunction. -/
theorem AllSteps.and {D : σ → ε → Prop} {s : σ} {es : List ε} (hC : AllSteps step C s es)
    (hD : AllSteps step D s es) : AllSteps step (fun s e => C s e ∧ D s e) s es := by
  induction es generalizing s with
  | nil => trivial
  | cons e es ih => exact ⟨⟨hC.1, hD.1⟩, fun s' hs' => ih (hC.2 s' hs') (hD.2 s' hs')⟩

end Run

/-- Forward simulation along a run: if every lawful step of the first machine is matched by a step
of the second one that restores the relation, so is every lawful run. -/
theorem run_simulation {step : σ → ε → Option σ} {step' : τ → ε → Option τ}
    {C : σ → ε → Prop} {R : σ → τ → Prop}
    (hstep : ∀ s t e s', C s e → R s t → step s e = some s' → ∃ t', step' t e = some t' ∧ R s' t')
    {s s' : σ} {t : τ} {es : List ε} (hR : R s t) (hC : AllSteps step C s es)
    (hrun : run step s es = some s') : ∃ t', run step' t es = some t' ∧ R s' t' := by
  induction es generalizing s t with
  | nil => exact ⟨t, rfl, Option.some.inj hrun ▸ hR⟩
  | cons e es ih =>
    obtain ⟨s₁, hs₁, hrun'⟩ := run_cons_eq_some.mp hrun
    obtain ⟨t₁, ht₁, hR₁⟩ := hstep s t e s₁ hC.1 hR hs₁
    obtain ⟨t', ht', hR'⟩ := ih hR₁ (hC.2 s₁ hs₁) hrun'
    exact ⟨t', run_cons_eq_some.mpr ⟨t₁, ht₁, ht'⟩, hR'⟩

/-- Two machines that read the same labels: when each lawful step of the first does to `view s` what the
second one does, so does each lawful run. -/
theorem map_run_eq_run {step : σ → ε → Option σ} {step' : τ → ε → Option τ} {C : σ → ε → Prop}
    {I : σ → Prop} {view : σ → τ} (hkeeps : ∀ s e s', C s e → I s → step s e = some s' → I s')
    (hview : ∀ s e, C s e → I s → (step s e).map view = step' (view s) e)
    {s : σ} {es : List ε} (hs : I s) (hC : AllSteps step C s es) :
    (run step s es).map view = run step' (view s) es := by
  induction es generalizing s with
  | nil => rfl
  | cons e es ih =>
    rw [run_cons, run_cons, ← hview s e hC.1 hs]
    cases hs' : step s e with
    | none => rfl
    | some s' => exact ih (hkeeps s e s' hC.1 hs hs') (hC.2 s' hs')

/-- A machine with steps that another one does not see: when each of its steps does to `view s` what the
visible label does, or nothing when there is none, so does each of its runs. -/
theorem map_run_eq_run_filterMap {δ : Type*} {step : σ → ε → Option σ} {step' : τ → δ → Option τ}
    {I : σ → Prop} {view : σ → τ} {visible : ε → Option δ}
    (hkeeps : ∀ s e s', I s → step s e = some s' → I s')
    (hsilent : ∀ s e, I s → visible e = none → (step s e).map view = some (view s))
    (hvisible : ∀ s e d, I s → visible e = some d → (step s e).map view = step' (view s) d)
    {s : σ} {es : List ε} (hs : I s) :
    (run step s es).map view = run step' (view s) (es.filterMap visible) := by
  induction es generalizing s with
  | nil => rfl
  | cons e es ih =>
    rw [run_cons]
    cases hlabel : visible e with
    | none =>
      obtain ⟨s', hs', hview⟩ := Option.map_eq_some_iff.mp (hsilent s e hs hlabel)
      rw [List.filterMap_cons_none hlabel, hs', Option.bind_some, ih (hkeeps s e s' hs hs'), hview]
    | some d =>
      rw [List.filterMap_cons_some hlabel, run_cons, ← hvisible s e d hs hlabel]
      cases hs' : step s e with
      | none => rfl
      | some s' => exact ih (hkeeps s e s' hs hs')

/-- One direction of it, for a machine whose steps may also be refused: what a run does, its visible
labels do. -/
theorem run_filterMap_of_run {δ : Type*} {step : σ → ε → Option σ} {step' : τ → δ → Option τ}
    {view : σ → τ} {visible : ε → Option δ}
    (hsilent : ∀ s e s', visible e = none → step s e = some s' → view s' = view s)
    (hvisible : ∀ s e d s', visible e = some d → step s e = some s' →
      step' (view s) d = some (view s'))
    {s t : σ} {es : List ε} (hrun : run step s es = some t) :
    run step' (view s) (es.filterMap visible) = some (view t) := by
  induction es generalizing s with
  | nil => exact congrArg _ (congrArg view (Option.some.inj hrun))
  | cons e es ih =>
    obtain ⟨s', hs', hrun'⟩ := run_cons_eq_some.mp hrun
    cases hlabel : visible e with
    | none =>
      rw [List.filterMap_cons_none hlabel, ← hsilent s e s' hlabel hs']
      exact ih hrun'
    | some d =>
      rw [List.filterMap_cons_some hlabel]
      exact run_cons_eq_some.mpr ⟨view s', hvisible s e d s' hlabel hs', ih hrun'⟩

end Foundations
