import Mathlib.Data.List.Basic
import Mathlib.Tactic.Lemma

/-!
Transition systems given by a step function, and what holds along their runs.

A step takes a state and an event and gives the next state, or nothing when the event
cannot happen there. A guard says which steps a run may take; an invariant is a property
that every guarded step keeps.
-/

namespace Workbench.Lib.Transition

variable {σ ε : Type*} {step : σ → ε → Option σ} {G H : σ → ε → Prop} {s t u : σ}

/-- The state after the events, if each of them can happen. -/
def run (step : σ → ε → Option σ) (s : σ) : List ε → Option σ
  | [] => some s
  | e :: es => (step s e).bind fun t => run step t es

@[simp] lemma run_nil (s : σ) : run step s [] = some s := rfl

lemma run_cons (s : σ) (e : ε) (es : List ε) :
    run step s (e :: es) = (step s e).bind fun t => run step t es := rfl

/-- The states a run from `s` reaches when all of its steps meet `G`. -/
inductive Reach (step : σ → ε → Option σ) (G : σ → ε → Prop) (s : σ) : σ → Prop
  | refl : Reach step G s s
  | tail {t u : σ} {e : ε} : Reach step G s t → G t e → step t e = some u → Reach step G s u

/-- Any step is allowed. -/
def anyStep (_ : σ) (_ : ε) : Prop := True

lemma Reach.head {e : ε} (hg : G s e) (h : step s e = some t) (ht : Reach step G t u) :
    Reach step G s u := by
  induction ht with
  | refl => exact .tail .refl hg h
  | tail _ hg' h' ih => exact .tail ih hg' h'

lemma Reach.mono (h : Reach step G s t) (hGH : ∀ s e, G s e → H s e) : Reach step H s t := by
  induction h with
  | refl => exact .refl
  | tail _ hg h ih => exact .tail ih (hGH _ _ hg) h

/-- A list of events that all happen in a system that takes allowed steps only is a run. -/
lemma reach_of_steps {step' : σ → ε → Option σ} {es : List ε}
    (hstep : ∀ e ∈ es, ∀ s t, step' s e = some t → G s e ∧ step s e = some t)
    (h : run step' s es = some t) : Reach step G s t := by
  induction es generalizing s with
  | nil =>
    obtain rfl : s = t := by simpa using h
    exact .refl
  | cons e es ih =>
    obtain ⟨v, hv, ht⟩ := Option.bind_eq_some_iff.mp h
    obtain ⟨hg, hv⟩ := hstep e List.mem_cons_self s v hv
    exact .head hg hv (ih (fun e he => hstep e (List.mem_cons_of_mem _ he)) ht)

/-- A list of events that all happen, and that are allowed wherever they happen, is a run. -/
lemma reach_of_allowed {es : List ε} (hg : ∀ e ∈ es, ∀ s, G s e) (h : run step s es = some t) :
    Reach step G s t :=
  reach_of_steps (fun e he s _ hs => ⟨hg e he s, hs⟩) h

/-- A list of events that all happen is an unguarded run. -/
lemma reach_of_run {es : List ε} (h : run step s es = some t) : Reach step anyStep s t :=
  reach_of_allowed (fun _ _ _ => trivial) h

/-- A run whose steps all pass a check that decides enough of the guard. -/
lemma reach_of_checked {es : List ε} {check : σ → ε → Bool} (hcheck : ∀ s e, check s e → G s e)
    (h : run (fun s e => if check s e then step s e else none) s es = some t) :
    Reach step G s t := by
  refine reach_of_steps (fun e _ s t hs => ?_) h
  obtain ⟨hpass, hs⟩ : check s e ∧ step s e = some t := by simpa using hs
  exact ⟨hcheck s e hpass, hs⟩

/-- **Two systems that go in step**, with states that look the same, look the same along all
events. -/
theorem run_looks_same {τ ω : Type*} {step' : τ → ε → Option τ} {R : σ → τ → Prop} {look : σ → ω}
    {look' : τ → ω} {es : List ε} {s : σ} {t : τ} (hlook : ∀ s t, R s t → look s = look' t)
    (hstep : ∀ s t, R s t → ∀ e ∈ es, Option.Rel R (step s e) (step' t e)) (h : R s t) :
    (run step s es).map look = (run step' t es).map look' := by
  induction es generalizing s t with
  | nil => exact congrArg some (hlook s t h)
  | cons e es ih =>
    have hfirst := hstep s t h e List.mem_cons_self
    rw [run_cons, run_cons]
    cases hs : step s e <;> cases ht : step' t e <;> rw [hs, ht] at hfirst <;> cases hfirst
    · rfl
    · next hrel => exact ih (fun s t hr e he => hstep s t hr e (List.mem_cons_of_mem _ he)) hrel

/-- **The invariant rule.** -/
theorem Reach.invariant {I : σ → Prop} (h : Reach step G s t) (h0 : I s)
    (hstep : ∀ t e u, I t → G t e → step t e = some u → I u) : I t := by
  induction h with
  | refl => exact h0
  | tail _ hg h ih => exact hstep _ _ _ ih hg h

/-- The invariant rule for a property that leans on an invariant already proved. -/
theorem Reach.invariant_of {I J : σ → Prop} (h : Reach step G s t)
    (hI : ∀ t, Reach step G s t → I t) (h0 : J s)
    (hstep : ∀ t e u, I t → I u → J t → G t e → step t e = some u → J u) : J t := by
  induction h with
  | refl => exact h0
  | tail ht hg h ih => exact hstep _ _ _ (hI _ ht) (hI _ (.tail ht hg h)) ih hg h

end Workbench.Lib.Transition
