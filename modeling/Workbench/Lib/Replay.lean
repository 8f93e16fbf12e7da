import Mathlib.Data.List.Basic
import Mathlib.Data.List.Induction
import Mathlib.Tactic.Lemma

/-!
Replaying a log with a function that takes an entry or refuses it.

What holds of a state is said together with the log that led to it. A reader of the log that goes
through it with a state of its own is compared with the replay in the same way.
-/

namespace Workbench.Lib.Replay

variable {σ ε ξ : Type*} {apply : σ → ε → Except ξ σ} {s t u : σ} {log more : List ε} {e : ε}

/-- The state after the log, if no entry of it is refused. -/
def replay (apply : σ → ε → Except ξ σ) (s : σ) : List ε → Except ξ σ
  | [] => .ok s
  | e :: log =>
    match apply s e with
    | .ok t => replay apply t log
    | .error error => .error error

@[simp] lemma replay_nil : replay apply s [] = .ok s := rfl

lemma replay_cons_ok :
    replay apply s (e :: log) = .ok u ↔ ∃ t, apply s e = .ok t ∧ replay apply t log = .ok u := by
  rw [replay]
  cases apply s e <;> simp

lemma replay_append_ok : replay apply s (log ++ more) = .ok u ↔
    ∃ t, replay apply s log = .ok t ∧ replay apply t more = .ok u := by
  induction log generalizing s with
  | nil => simp
  | cons e log ih =>
    rw [List.cons_append, replay_cons_ok]
    simp only [ih, replay_cons_ok]
    constructor
    · rintro ⟨v, hv, t, ht, hu⟩
      exact ⟨t, ⟨v, hv, ht⟩, hu⟩
    · rintro ⟨t, ⟨v, hv, ht⟩, hu⟩
      exact ⟨v, hv, t, ht, hu⟩

lemma replay_concat_ok : replay apply s (log ++ [e]) = .ok u ↔
    ∃ t, replay apply s log = .ok t ∧ apply t e = .ok u := by
  rw [replay_append_ok]
  simp [replay_cons_ok]

/-- **The rule of histories.** What holds at first, and is kept by every entry that is taken, holds
after every log. -/
theorem history {I : List ε → σ → Prop} (h0 : I [] s)
    (hstep : ∀ log e t u, replay apply s log = .ok t → I log t → apply t e = .ok u →
      I (log ++ [e]) u)
    (h : replay apply s log = .ok t) : I log t := by
  induction log using List.reverseRecOn generalizing t with
  | nil =>
    obtain rfl : s = t := Except.ok.inj h
    exact h0
  | append_singleton log e ih =>
    obtain ⟨v, hv, ht⟩ := replay_concat_ok.1 h
    exact hstep log e v t hv (ih hv) ht

/-- The rule of histories for what leans on the entries of the whole log. -/
theorem history_of_prefix {I : List ε → σ → Prop} {whole : List ε} (h0 : I [] s)
    (hstep : ∀ log e t u, log ++ [e] <+: whole → replay apply s log = .ok t → I log t →
      apply t e = .ok u → I (log ++ [e]) u)
    (h : replay apply s whole = .ok t) : I whole t := by
  have hall : ∀ log t, log <+: whole → replay apply s log = .ok t → I log t := by
    intro log t hlog h
    refine history (I := fun log t => log <+: whole → I log t) (fun _ => h0) ?_ h hlog
    intro log e t u ht ih hu hlog
    exact hstep log e t u hlog ht (ih ((List.prefix_append _ _).trans hlog)) hu
  exact hall whole t List.prefix_rfl h

/-- What every entry of the log keeps. -/
theorem stays {P : σ → Prop} (hstep : ∀ e ∈ log, ∀ t u, P t → apply t e = .ok u → P u)
    (h : replay apply s log = .ok t) (hs : P s) : P t := by
  induction log generalizing s with
  | nil =>
    obtain rfl : s = t := Except.ok.inj h
    exact hs
  | cons e log ih =>
    obtain ⟨v, hv, ht⟩ := replay_cons_ok.1 h
    exact ih (fun e he => hstep e (List.mem_cons_of_mem _ he)) ht
      (hstep e List.mem_cons_self s v hs hv)

/-- An entry of a log that got one more is one of those before, or the last. -/
lemma split_concat {front back : List ε} {d : ε}
    (h : log ++ [e] = front ++ d :: back) :
    (∃ back', back = back' ++ [e] ∧ log = front ++ d :: back') ∨
      (back = [] ∧ d = e ∧ front = log) := by
  rcases List.eq_nil_or_concat back with rfl | ⟨back', last, rfl⟩
  · obtain ⟨hlog, hlast⟩ := List.append_inj' h rfl
    exact .inr ⟨rfl, (List.cons.inj hlast).1.symm, hlog.symm⟩
  · have hinit : log ++ [e] = (front ++ d :: back') ++ [last] := by simpa using h
    obtain ⟨hlog, hlast⟩ := List.append_inj' hinit rfl
    obtain rfl := (List.cons.inj hlast).1
    exact .inl ⟨back', List.concat_eq_append, hlog⟩

/-! ### What is noted along a replay -/

/-- What is noted of the states and entries along a log, as far as it is taken. -/
def collect {α : Type*} (apply : σ → ε → Except ξ σ) (note : σ → ε → Option α) (s : σ) :
    List ε → List α
  | [] => []
  | e :: log =>
    match apply s e with
    | .ok t => (note s e).toList ++ collect apply note t log
    | .error _ => []

lemma collect_concat {α : Type*} {note : σ → ε → Option α} (h : replay apply s log = .ok t)
    (he : apply t e = .ok u) :
    collect apply note s (log ++ [e]) = collect apply note s log ++ (note t e).toList := by
  induction log generalizing s with
  | nil =>
    obtain rfl : s = t := Except.ok.inj h
    simp [collect, he]
  | cons d log ih =>
    obtain ⟨v, hv, ht⟩ := replay_cons_ok.1 h
    rw [List.cons_append, collect, collect, hv]
    simp only [ih ht, List.append_assoc]

end Workbench.Lib.Replay
