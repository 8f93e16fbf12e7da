import Mathlib.Data.List.Forall2
import Mathlib.Tactic.Lemma

/-!
Rules for programs that can fail: what each part gave, where the whole succeeded.
-/

namespace Workbench.Lib.Fallible

universe u v w

variable {ε : Type u} {α β : Type v} {γ : Type w} {b : β}

lemma bind_eq_ok {x : Except ε α} {f : α → Except ε β} :
    x >>= f = .ok b ↔ ∃ a, x = .ok a ∧ f a = .ok b := by
  cases x with
  | ok a => exact ⟨fun h => ⟨a, rfl, h⟩, fun ⟨_, ha, h⟩ => Except.ok.inj ha ▸ h⟩
  | error e => exact ⟨nofun, nofun⟩

lemma pure_eq_ok {a : β} : (pure a : Except ε β) = .ok b ↔ a = b := ⟨Except.ok.inj, congrArg _⟩

lemma foldlM_cons_eq_ok {step : β → γ → Except ε β} {s t : β} {a : γ} {as : List γ} :
    (a :: as).foldlM step s = .ok t ↔ ∃ u, step s a = .ok u ∧ as.foldlM step u = .ok t := by
  rw [List.foldlM_cons, bind_eq_ok]

/-- All of them succeeded, each with its own result. -/
lemma forall₂_of_mapM {f : γ → Except ε β} {as : List γ} {bs : List β} (h : as.mapM f = .ok bs) :
    List.Forall₂ (fun a b => f a = .ok b) as bs := by
  induction as generalizing bs with
  | nil =>
    obtain rfl : [] = bs := pure_eq_ok.1 (by rwa [List.mapM_nil] at h)
    exact .nil
  | cons a as ih =>
    rw [List.mapM_cons, bind_eq_ok] at h
    obtain ⟨b, hb, h⟩ := h
    obtain ⟨bs', hbs, h⟩ := bind_eq_ok.1 h
    obtain rfl := pure_eq_ok.1 h
    exact .cons hb (ih hbs)

lemma exists_of_forall₂ {α β : Type*} {R : α → β → Prop} {as : List α} {bs : List β} {b : β}
    (h : List.Forall₂ R as bs) (hb : b ∈ bs) : ∃ a ∈ as, R a b := by
  induction h with
  | nil => cases hb
  | cons hab _ ih =>
    rcases List.mem_cons.mp hb with rfl | hb
    · exact ⟨_, List.mem_cons_self, hab⟩
    · obtain ⟨a, ha, hR⟩ := ih hb
      exact ⟨a, List.mem_cons_of_mem _ ha, hR⟩

end Workbench.Lib.Fallible
