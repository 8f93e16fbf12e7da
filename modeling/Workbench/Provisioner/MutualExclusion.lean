import Workbench.Provisioner.Effects

/-!
When the ensures of one allocation run one at a time.

`ensure` registers the call it starts in `inFlightEnsures` and chains a later call onto it, but
it does not register the later call. Two ensures chained onto the same one both go on when it
settles, and an ensure made while a chained one runs does not see it. As long as every ensure
finds no unsettled ensure of its allocation but the registered one, at most one body runs.
-/

namespace Workbench.Provisioner

open Workbench.Lib Workbench.Lib.Transition

namespace State

/-- An ensure of an allocation that has not settled. -/
def Unsettled (s : State) (c : ℕ) (allocationId : String) : Prop :=
  ∃ request phase, s.calls c = some ⟨.ensure request, phase⟩ ∧
    request.allocationId = allocationId ∧ ∀ result, phase ≠ .returned result

/-- An ensure of an allocation whose `ensureOnce` body runs. -/
def Executing (s : State) (c : ℕ) (allocationId : String) : Prop :=
  ∃ request phase, s.calls c = some ⟨.ensure request, phase⟩ ∧
    request.allocationId = allocationId ∧ phase.isExecuting

def ChainedOn (s : State) (c on : ℕ) : Prop := ∃ request, s.calls c = some ⟨request, .chained on⟩

lemma Executing.unsettled {s : State} {c : ℕ} {a : String} (h : s.Executing c a) :
    s.Unsettled c a := by
  obtain ⟨request, phase, hc, ha, hp⟩ := h
  exact ⟨request, phase, hc, ha, by rintro result rfl; simp [Phase.isExecuting] at hp⟩

end State

/-- An ensure is made when no ensure of its allocation is unsettled but the registered one. -/
def SeesUnsettled (s : State) : Event → Prop
  | .call _ (.ensure request) => ∀ c, s.Unsettled c request.allocationId →
      s.inFlightEnsures request.allocationId = some c
  | _ => True

/-- Of two unsettled ensures of an allocation one is registered and the other waits for it. -/
structure Serial (s : State) : Prop where
  behind : ∀ a c c', c ≠ c' → s.Unsettled c a → s.Unsettled c' a →
    (s.inFlightEnsures a = some c ∧ s.ChainedOn c' c) ∨
      (s.inFlightEnsures a = some c' ∧ s.ChainedOn c c')
  flight : ∀ a c, s.inFlightEnsures a = some c → ∃ request phase,
    s.calls c = some ⟨.ensure request, phase⟩ ∧ request.allocationId = a ∧
      ∀ on, phase ≠ .chained on

variable {cfg : Config} {s t : State} {e : Event} {c c' c₀ : ℕ} {a : String}

/-- **Two bodies never run at once.** -/
theorem Serial.executing_unique (hs : Serial s) (h : s.Executing c a) (h' : s.Executing c' a) :
    c = c' := by
  by_contra hne
  have chained_absurd : ∀ {c on}, s.Executing c a → ¬ s.ChainedOn c on := by
    rintro c on ⟨request, phase, hc, -, hp⟩ ⟨request', hc'⟩
    simp only [hc, Option.some.injEq, Call.mk.injEq] at hc'
    simp [hc'.2, Phase.isExecuting] at hp
  rcases hs.behind a c c' hne h.unsettled h'.unsettled with ⟨-, hc⟩ | ⟨-, hc⟩
  · exact chained_absurd h' hc
  · exact chained_absurd h hc

lemma serial_initial (h : Initial s) : Serial s where
  behind a c c' _ hc := by
    obtain ⟨request, phase, hc, -⟩ := hc
    simp [h.calls] at hc
  flight a c hc := by simp [h.inFlight] at hc

section

variable {request : Request} {next : Phase}

lemma unsettled_setCall_of_ne (h : c ≠ c₀) :
    (s.setCall c₀ ⟨request, next⟩).Unsettled c a ↔ s.Unsettled c a := by
  simp [State.Unsettled, Function.update_of_ne h]

lemma chainedOn_setCall_of_ne {on : ℕ} (h : c ≠ c₀) :
    (s.setCall c₀ ⟨request, next⟩).ChainedOn c on ↔ s.ChainedOn c on := by
  simp [State.ChainedOn, Function.update_of_ne h]

/-- A call that does not wait, and waits for nothing afterwards, may change its phase. -/
lemma Serial.setCall {phase : Phase} (hs : Serial s) (hc : s.calls c₀ = some ⟨request, phase⟩)
    (hphase : ∀ result, phase ≠ .returned result) (hnext : ∀ on, next ≠ .chained on)
    (alone : ∀ on, phase = .chained on → ∀ ensure, request = .ensure ensure →
      s.inFlightEnsures ensure.allocationId ≠ some on) :
    Serial (s.setCall c₀ ⟨request, next⟩) where
  behind a c c' hne hu hu' := by
    have back : ∀ {c}, (s.setCall c₀ ⟨request, next⟩).Unsettled c a → s.Unsettled c a := by
      rintro d hd
      by_cases h : d = c₀
      · subst h
        obtain ⟨ensure, phase', hc', ha, -⟩ := hd
        simp only [State.calls_setCall, Function.update_self, Option.some.injEq,
          Call.mk.injEq] at hc'
        exact ⟨ensure, phase, by rw [hc, hc'.1], ha, hphase⟩
      · exact (unsettled_setCall_of_ne h).mp hd
    -- the one that waits is not `c₀`, which the registered call would have to be otherwise
    have keep : ∀ {c c'}, s.Unsettled c a → s.inFlightEnsures a = some c' → s.ChainedOn c c' →
        (s.setCall c₀ ⟨request, next⟩).ChainedOn c c' := by
      rintro d d' ⟨ensure, phase', hd, ha, -⟩ hf hch
      by_cases h : d = c₀
      · subst h
        obtain ⟨request', hch⟩ := hch
        simp only [hc, Option.some.injEq, Call.mk.injEq] at hch hd
        exact absurd hf (ha ▸ alone d' hch.2 ensure hd.1)
      · exact (chainedOn_setCall_of_ne h).mpr hch
    rcases hs.behind a c c' hne (back hu) (back hu') with ⟨hf, hch⟩ | ⟨hf, hch⟩
    · exact .inl ⟨hf, keep (back hu') hf hch⟩
    · exact .inr ⟨hf, keep (back hu) hf hch⟩
  flight a c hf := by
    obtain ⟨ensure, phase', hc', ha, hp⟩ := hs.flight a c hf
    by_cases h : c = c₀
    · subst h
      simp only [hc, Option.some.injEq, Call.mk.injEq] at hc'
      exact ⟨ensure, next, by simp [hc'.1], ha, hnext⟩
    · exact ⟨ensure, phase', by simp [Function.update_of_ne h, hc'], ha, hp⟩

end

lemma Serial.setCall_destroy {request : DestroySidecarRequest} {next : Phase} (hs : Serial s)
    (new : s.calls c₀ = none) : Serial (s.setCall c₀ ⟨.destroy request, next⟩) where
  behind a c c' hne hu hu' := by
    have ne : ∀ {c}, (s.setCall c₀ ⟨.destroy request, next⟩).Unsettled c a → c ≠ c₀ := by
      rintro c ⟨ensure, phase, hc, -⟩ rfl
      simp at hc
    simpa [chainedOn_setCall_of_ne (ne hu'), chainedOn_setCall_of_ne (ne hu)] using
      hs.behind a c c' hne ((unsettled_setCall_of_ne (ne hu)).mp hu)
        ((unsettled_setCall_of_ne (ne hu')).mp hu')
  flight a c hf := by
    obtain ⟨ensure, phase, hc, ha, hp⟩ := hs.flight a c hf
    have hne : c ≠ c₀ := by rintro rfl; simp [hc] at new
    exact ⟨ensure, phase, by simp [Function.update_of_ne hne, hc], ha, hp⟩

/-- Nobody is unsettled but the registered call, and a new one is chained onto it. -/
lemma Serial.chain {request : EnsureSidecarRequest} {on : ℕ} (hs : Serial s)
    (new : s.calls c₀ = none) (flight : s.inFlightEnsures request.allocationId = some on)
    (sees : ∀ c, s.Unsettled c request.allocationId →
      s.inFlightEnsures request.allocationId = some c) :
    Serial (s.setCall c₀ ⟨.ensure request, .chained on⟩) where
  behind a c c' hne hu hu' := by
    have only : ∀ {c}, c ≠ c₀ → a = request.allocationId →
        (s.setCall c₀ ⟨.ensure request, .chained on⟩).Unsettled c a → c = on := by
      rintro d hd rfl hu
      exact Option.some.inj ((sees d ((unsettled_setCall_of_ne hd).mp hu)).symm.trans flight)
    have at_c₀ : (s.setCall c₀ ⟨.ensure request, .chained on⟩).Unsettled c₀ a →
        a = request.allocationId := by
      rintro ⟨ensure, phase, hc, ha, -⟩
      simp only [State.calls_setCall, Function.update_self, Option.some.injEq, Call.mk.injEq,
        Request.ensure.injEq] at hc
      rw [← ha, hc.1]
    have chained : (s.setCall c₀ ⟨.ensure request, .chained on⟩).ChainedOn c₀ on :=
      ⟨.ensure request, by simp⟩
    by_cases h : c = c₀
    · subst h
      have ha := at_c₀ hu
      obtain rfl := only (Ne.symm hne) ha hu'
      exact .inr ⟨ha ▸ flight, chained⟩
    · by_cases h' : c' = c₀
      · subst h'
        have ha := at_c₀ hu'
        obtain rfl := only hne ha hu
        exact .inl ⟨ha ▸ flight, chained⟩
      · simpa [chainedOn_setCall_of_ne h, chainedOn_setCall_of_ne h'] using
          hs.behind a c c' hne ((unsettled_setCall_of_ne h).mp hu)
            ((unsettled_setCall_of_ne h').mp hu')
  flight a c hf := by
    obtain ⟨ensure, phase, hc, ha, hp⟩ := hs.flight a c hf
    have hne : c ≠ c₀ := by rintro rfl; simp [hc] at new
    exact ⟨ensure, phase, by simp [Function.update_of_ne hne, hc], ha, hp⟩

/-- Nobody is unsettled, and the new call is registered. -/
lemma Serial.register {request : EnsureSidecarRequest} (hs : Serial s)
    (new : s.calls c₀ = none) (flight : s.inFlightEnsures request.allocationId = none)
    (sees : ∀ c, s.Unsettled c request.allocationId →
      s.inFlightEnsures request.allocationId = some c) :
    Serial { s.setCall c₀ ⟨.ensure request, startEnsure request⟩ with
      inFlightEnsures := Function.update s.inFlightEnsures request.allocationId (some c₀) } where
  behind a c c' hne hu hu' := by
    have none_there : ∀ c, ¬ s.Unsettled c request.allocationId := by
      intro c hc
      simp [flight] at sees
      exact sees c hc
    have ne : ∀ {c}, (s.setCall c₀ ⟨.ensure request, startEnsure request⟩).Unsettled c a →
        c ≠ c₀ → a ≠ request.allocationId := by
      rintro c hu hne rfl
      exact none_there c ((unsettled_setCall_of_ne hne).mp hu)
    have at_c₀ : (s.setCall c₀ ⟨.ensure request, startEnsure request⟩).Unsettled c₀ a →
        a = request.allocationId := by
      rintro ⟨ensure, phase, hc, ha, -⟩
      simp only [State.calls_setCall, Function.update_self, Option.some.injEq, Call.mk.injEq,
        Request.ensure.injEq] at hc
      rw [← ha, hc.1]
    have hc : c ≠ c₀ := by rintro rfl; exact ne hu' hne.symm (at_c₀ hu)
    have hc' : c' ≠ c₀ := by rintro rfl; exact ne hu hne (at_c₀ hu')
    have ha : a ≠ request.allocationId := ne hu hc
    simp only [Function.update_of_ne ha]
    rcases hs.behind a c c' hne ((unsettled_setCall_of_ne hc).mp hu)
      ((unsettled_setCall_of_ne hc').mp hu') with ⟨hf, hch⟩ | ⟨hf, hch⟩
    · exact .inl ⟨hf, (chainedOn_setCall_of_ne hc').mpr hch⟩
    · exact .inr ⟨hf, (chainedOn_setCall_of_ne hc).mpr hch⟩
  flight a c hf := by
    by_cases ha : a = request.allocationId
    · subst ha
      obtain rfl : c₀ = c := by simpa using hf
      exact ⟨request, startEnsure request, by simp, rfl, fun on => startEnsure_ne_chained⟩
    · simp only [Function.update_of_ne ha] at hf
      obtain ⟨ensure, phase, hc, ha, hp⟩ := hs.flight a c hf
      have hne : c ≠ c₀ := by rintro rfl; simp [hc] at new
      exact ⟨ensure, phase, by simp [Function.update_of_ne hne, hc], ha, hp⟩

/-- The registered call has settled, so at most one other is unsettled. -/
lemma Serial.unregister {request : EnsureSidecarRequest} {result : Result} (hs : Serial s)
    (call : s.calls c₀ = some ⟨.ensure request, .returned result⟩)
    (flight : s.inFlightEnsures request.allocationId = some c₀) :
    Serial { s with
      inFlightEnsures := Function.update s.inFlightEnsures request.allocationId none } where
  behind a c c' hne hu hu' := by
    have settled : ∀ a, ¬ s.Unsettled c₀ a := by
      rintro a ⟨ensure, phase, hc, -, hp⟩
      simp only [call, Option.some.injEq, Call.mk.injEq] at hc
      exact hp result hc.2.symm
    have hb := hs.behind a c c' hne hu hu'
    have ha : a ≠ request.allocationId := by
      rintro rfl
      rcases hb with ⟨hf, -⟩ | ⟨hf, -⟩ <;> obtain rfl := Option.some.inj (hf.symm.trans flight)
      · exact settled _ hu
      · exact settled _ hu'
    simp only [Function.update_of_ne ha]
    exact hb
  flight a c hf := by
    by_cases ha : a = request.allocationId
    · simp [ha] at hf
    · exact hs.flight a c (by simpa [Function.update_of_ne ha] using hf)

/-- **One step keeps the ensures serial.** -/
theorem Serial.step (hs : Serial s) (hg : SeesUnsettled s e) (h : Happens cfg s e t) :
    Serial t := by
  cases h with
  | destroyCalled new => exact hs.setCall_destroy new
  | ensureChained new flight => exact hs.chain new flight hg
  | ensureCalled new flight => exact hs.register new flight hg
  | cleared call flight => exact hs.unregister call flight
  | resumed call settled flight next_eq =>
    refine hs.setCall call (by simp) (fun on => ?_) ?_
    · subst next_eq
      split
      exacts [by simp, startEnsure_ne_chained]
    · rintro on hon ensure hen
      obtain rfl := by simpa using hon
      obtain rfl := by simpa using hen
      exact flight
  | @replied c request phase r next changes call moves =>
    have : Serial (s.setCall c ⟨request, next⟩) := hs.setCall call (fun result hr => by
        have := moves.isExecuting
        simp [hr, Phase.isExecuting] at this)
      (fun on => (moves.ne_chained on).2) fun on hon => absurd hon (moves.ne_chained on).1
    exact ⟨this.behind, this.flight⟩
  | exited | started => exact ⟨hs.behind, hs.flight⟩
  | restarted =>
    refine ⟨fun a c c' _ hu => ?_, fun a c hf => ?_⟩
    · obtain ⟨request, phase, hc, -⟩ := hu
      simp [State.restart] at hc
    · simp [State.restart] at hf

end Workbench.Provisioner
