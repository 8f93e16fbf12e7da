import Workbench.Lib.Client
import Workbench.Lib.Transition
import Mathlib.Logic.Function.Basic

/-!
Programs that run side by side against one server, their requests in any order.
-/

namespace Workbench.Lib

structure Concurrent (ι : Type) {Q : Type} (A : Q → Type) (ε α σ : Type) where
  call : ι → Client A ε α
  server : σ

namespace Concurrent

open Transition

variable {ι Q : Type} {A : Q → Type} {ε α σ : Type} [DecidableEq ι]
  (serve : (q : Q) → σ → A q × σ)

/-- The next request of a program; there is none when it has ended. -/
def step (s : Concurrent ι A ε α σ) : ι × Delivery → Option (Concurrent ι A ε α σ)
  | (i, d) =>
    match s.call i with
    | .done _ => none
    | .ask q next =>
      let delivered := Client.deliver serve s.server q d
      some ⟨Function.update s.call i (next delivered.1), delivered.2⟩

variable {serve} {s t : Concurrent ι A ε α σ} {i j : ι} {d : Delivery} {result : Except ε α}
  {events : List (ι × Delivery)}

lemma step_of_done (h : s.call i = .done result) : step serve s (i, d) = none := by
  simp [step, h]

lemma step_of_ask {q : Q} {next : Reply (A q) → Client A ε α} (h : s.call i = .ask q next) :
    step serve s (i, d) = some ⟨Function.update s.call i
      (next (Client.deliver serve s.server q d).1), (Client.deliver serve s.server q d).2⟩ := by
  simp [step, h]

/-- A program that has ended stays as it is. -/
lemma call_of_step {e : ι × Delivery} (h : step serve s e = some t)
    (hdone : s.call j = .done result) : t.call j = .done result := by
  obtain ⟨i, d⟩ := e
  cases hcall : s.call i with
  | done other => simp [step_of_done hcall] at h
  | ask q next =>
    obtain rfl := Option.some.inj ((step_of_ask hcall).symm.trans h)
    have hne : j ≠ i := by
      rintro rfl
      simp [hcall] at hdone
    rw [← hdone]
    exact Function.update_of_ne hne _ _

lemma call_of_run (h : run (step serve) s events = some t) (hdone : s.call j = .done result) :
    t.call j = .done result := by
  induction events generalizing s with
  | nil =>
    obtain rfl := Option.some.inj h
    exact hdone
  | cons e events ih =>
    obtain ⟨u, hu, hrest⟩ := Option.bind_eq_some_iff.mp h
    exact ih hrest (call_of_step hu hdone)

/-- When every program has ended nothing happens any more. -/
lemma run_of_ended (h : run (step serve) s events = some t)
    (hended : ∀ i, ∃ result, s.call i = .done result) : events = [] ∧ t = s := by
  cases events with
  | nil => exact ⟨rfl, (Option.some.inj h).symm⟩
  | cons e events =>
    obtain ⟨i, d⟩ := e
    obtain ⟨result, hdone⟩ := hended i
    simp [run_cons, step_of_done hdone] at h

end Concurrent

end Workbench.Lib
