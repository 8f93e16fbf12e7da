import Workbench.Lib.Transition
import Mathlib.Data.List.Basic
import Mathlib.Tactic.Lemma

/-!
A value and its copy at the other end of a channel.

An update is sent to the copy first and taken over here when it was sent. The whole value can be
sent at any time, and is then the one that is held here. The other end can be lost, and comes up
again with nothing.
-/

namespace Workbench.Lib.Mirroring

open Workbench.Lib.Transition

variable {V : Type*}

/-- What an update tells of the value: nothing, that there is none, or what it is. -/
abbrev Update (V : Type*) := Option (Option V)

structure Mirrored (V : Type*) where
  value : Option V
  /-- the update that is sent at the moment -/
  sending : Option (Update V)
  live : Bool
  channel : List (Update V)
  copy : Option V

inductive Event (V : Type*)
  | update (told : Update V)
  | sent
  | push
  | receive
  | lost
  | up
  | idle

def step (s : Mirrored V) : Event V → Option (Mirrored V)
  | .update told =>
    if s.sending.isSome then none
    else if s.live then some { s with sending := some told, channel := s.channel ++ [told] }
    else some { s with value := told.getD s.value }
  | .sent => s.sending.map fun told => { s with value := told.getD s.value, sending := none }
  | .push =>
    if s.live then some { s with channel := s.channel ++ [s.value.map some] } else none
  | .receive =>
    match s.channel with
    | [] => none
    | told :: rest => some { s with copy := told.getD s.copy, channel := rest }
  | .lost => some { s with live := false, channel := [], copy := none }
  | .up => if s.live then none else some { s with live := true, channel := [], copy := none }
  | .idle => some s

/-- The copy when all has arrived. -/
def Mirrored.settled (s : Mirrored V) : Option V :=
  s.channel.foldl (fun copy told => told.getD copy) s.copy

/-- The value when all was sent. -/
def Mirrored.intended (s : Mirrored V) : Option V :=
  match s.sending with
  | some told => told.getD s.value
  | none => s.value

/-- The whole value is not sent while an update tells of it. -/
def Quiet (s : Mirrored V) : Event V → Prop
  | .push => ∀ told, s.sending = some told → told = none
  | _ => True

variable {s t : Mirrored V} {e : Event V}

/-- **What a step does** to the copy that comes and to the value that comes. -/
lemma step_cases (h : step s e = some t) :
    (∃ told, e = .update told ∧ s.intended = s.value ∧ t.intended = told.getD s.intended ∧
      t.live = s.live ∧ (s.live → t.settled = told.getD s.settled)) ∨
    (e = .push ∧ s.live ∧ t.live ∧ t.sending = s.sending ∧ t.value = s.value ∧
      t.settled = (s.value.map some).getD s.settled) ∨
    (e = .lost ∧ t.live = false) ∨
    (e = .up ∧ t.settled = none) ∨
    (t.intended = s.intended ∧ t.settled = s.settled ∧ t.live = s.live ∧ e ≠ .push) := by
  cases e with
  | update told =>
    left
    refine ⟨told, rfl, ?_⟩
    rw [step] at h
    split_ifs at h with hsending hlive
    · obtain rfl := Option.some.inj h
      have hnone : s.sending = none := by simpa using hsending
      refine ⟨by rw [Mirrored.intended, hnone], by simp [Mirrored.intended, hnone], rfl,
        fun _ => ?_⟩
      rw [Mirrored.settled, List.foldl_append]
      rfl
    · obtain rfl := Option.some.inj h
      have hnone : s.sending = none := by simpa using hsending
      exact ⟨by rw [Mirrored.intended, hnone], by simp [Mirrored.intended, hnone], rfl,
        fun hlive' => absurd hlive' hlive⟩
  | sent =>
    obtain ⟨told, hsending, rfl⟩ := Option.map_eq_some_iff.mp h
    exact .inr (.inr (.inr (.inr ⟨by simp [Mirrored.intended, hsending], rfl, rfl, nofun⟩)))
  | push =>
    rw [step] at h
    split_ifs at h with hlive
    obtain rfl := Option.some.inj h
    refine .inr (.inl ⟨rfl, hlive, hlive, rfl, rfl, ?_⟩)
    rw [Mirrored.settled, List.foldl_append]
    rfl
  | receive =>
    rw [step] at h
    split at h
    · cases h
    · next told rest hchannel =>
      obtain rfl := Option.some.inj h
      exact .inr (.inr (.inr (.inr ⟨rfl, by simp [Mirrored.settled, hchannel], rfl, nofun⟩)))
  | lost =>
    obtain rfl := Option.some.inj h
    exact .inr (.inr (.inl ⟨rfl, rfl⟩))
  | up =>
    rw [step] at h
    split_ifs at h with hlive
    obtain rfl := Option.some.inj h
    exact .inr (.inr (.inr (.inl ⟨rfl, rfl⟩)))
  | idle =>
    obtain rfl := Option.some.inj h
    exact .inr (.inr (.inr (.inr ⟨rfl, rfl, rfl, nofun⟩)))

lemma intended_of_quiet (h : Quiet s .push) : s.intended = s.value := by
  unfold Mirrored.intended
  split
  · next told hsending => rw [h told hsending]; rfl
  · rfl

/-- After the whole value was sent, the copy that comes is the value that comes. -/
lemma settled_push (hcopy : s.settled = none ∨ s.settled = s.intended) (hquiet : Quiet s .push)
    (h : step s .push = some t) : t.settled = t.intended := by
  obtain ⟨_, hpush, _⟩ | ⟨-, hlive, -, hsending, hvalue, hsettled⟩ | ⟨hpush, _⟩ | ⟨hpush, _⟩ |
    ⟨_, _, _, hpush⟩ := step_cases h
  · cases hpush
  · have hsame : t.intended = s.intended := by
      unfold Mirrored.intended
      rw [hsending, hvalue]
    rw [hsettled, hsame]
    rw [intended_of_quiet hquiet] at hcopy ⊢
    cases hheld : s.value with
    | some v => rfl
    | none => exact hcopy.elim id fun h => h.trans hheld
  · cases hpush
  · cases hpush
  · exact absurd rfl hpush

/-- **The copy holds nothing that is not held here**, over every run that sends the whole value in
quiet. -/
theorem settled_of_reach (hstart : s.live = false) (h : Reach step Quiet s t) (hlive : t.live) :
    t.settled = none ∨ t.settled = t.intended := by
  have hinvariant : t.live → t.settled = none ∨ t.settled = t.intended := by
    refine h.invariant (I := fun t => t.live → t.settled = none ∨ t.settled = t.intended)
      (by simp [hstart]) fun t e u ih hquiet hstep hlive => ?_
    obtain ⟨told, -, -, hintended, hsame, hsettled⟩ | ⟨rfl, hbefore, -⟩ | ⟨-, hdown⟩ | ⟨-, hnone⟩ |
      ⟨hintended, hsettled, hsame, -⟩ := step_cases hstep
    · have hbefore : t.live := hsame ▸ hlive
      rw [hintended, hsettled hbefore]
      cases told with
      | some => exact .inr rfl
      | none => exact ih hbefore
    · exact .inr (settled_push (ih hbefore) hquiet hstep)
    · rw [hdown] at hlive
      cases hlive
    · exact .inl hnone
    · rw [hintended, hsettled]
      exact ih (hsame ▸ hlive)
  exact hinvariant hlive

/-- The other end is not lost. -/
def Kept (s : Mirrored V) (e : Event V) : Prop := Quiet s e ∧ e ≠ .lost ∧ e ≠ .up

/-- **A copy that is the value stays so**, until the other end is lost. -/
theorem settled_of_kept (hlive : s.live) (hsame : s.settled = s.intended)
    (h : Reach step Kept s t) : t.live ∧ t.settled = t.intended := by
  refine h.invariant (I := fun t => t.live ∧ t.settled = t.intended) ⟨hlive, hsame⟩
    fun t e u ih hkept hstep => ?_
  obtain ⟨told, -, -, hintended, hlive, hsettled⟩ | ⟨rfl, -, hlive, -⟩ | ⟨rfl, -⟩ | ⟨rfl, -⟩ |
    ⟨hintended, hsettled, hlive, -⟩ := step_cases hstep
  · rw [hintended, hsettled ih.1, ih.2, hlive]
    exact ⟨ih.1, rfl⟩
  · exact ⟨hlive, settled_push (.inr ih.2) hkept.1 hstep⟩
  · exact absurd rfl hkept.2.1
  · exact absurd rfl hkept.2.2
  · rw [hintended, hsettled, hlive]
    exact ih

/-- No update tells of the value, and the other end is not lost. -/
def Untold (_ : Mirrored V) : Event V → Prop
  | .update told => told = none
  | .lost | .up => False
  | _ => True

lemma value_of_untold (hquiet : Untold s e) (h : step s e = some t) :
    t.value = s.value ∨ t.value = s.intended := by
  cases e with
  | update told =>
    obtain rfl : told = none := hquiet
    rw [step] at h
    split_ifs at h <;> exact .inl (Option.some.inj h ▸ rfl)
  | sent =>
    obtain ⟨told, hsending, rfl⟩ := Option.map_eq_some_iff.mp h
    exact .inr (by simp [Mirrored.intended, hsending])
  | push =>
    rw [step] at h
    split_ifs at h
    exact .inl (Option.some.inj h ▸ rfl)
  | receive =>
    rw [step] at h
    split at h
    · cases h
    · exact .inl (Option.some.inj h ▸ rfl)
  | lost | up => cases hquiet
  | idle => exact .inl (Option.some.inj h ▸ rfl)

/-- The value is going to be dropped here, and the copy is not. -/
structure Stranded (v : V) (s : Mirrored V) : Prop where
  live : s.live
  settled : s.settled = some v
  intended : s.intended = none
  value : s.value = some v ∨ s.value = none

lemma Stranded.keep {v : V} (h : Stranded v s) (huntold : Untold s e) (hstep : step s e = some t) :
    Stranded v t := by
  have hvalue : t.value = some v ∨ t.value = none := by
    rcases value_of_untold huntold hstep with hvalue | hvalue
    · exact hvalue ▸ h.value
    · exact .inr (hvalue.trans h.intended)
  obtain ⟨told, rfl, -, hintended, hlive, hsettled⟩ | ⟨rfl, -, hlive, hsending, hsame, hsettled⟩ |
    ⟨rfl, -⟩ | ⟨rfl, -⟩ | ⟨hintended, hsettled, hlive, -⟩ := step_cases hstep
  · obtain rfl : told = none := huntold
    exact ⟨hlive ▸ h.live, (hsettled h.live).trans h.settled, hintended.trans h.intended, hvalue⟩
  · refine ⟨hlive, ?_, ?_, hvalue⟩
    · rw [hsettled]
      rcases h.value with hheld | hheld
      · rw [hheld]; rfl
      · rw [hheld]; exact h.settled
    · have hintended := h.intended
      unfold Mirrored.intended at hintended ⊢
      rw [hsending, hsame]
      exact hintended
  · cases huntold
  · cases huntold
  · exact ⟨hlive ▸ h.live, hsettled.trans h.settled, hintended.trans h.intended, hvalue⟩

/-- **A value that was dropped comes back** in the copy and stays there, where the whole value was
sent while the update that drops it was. -/
theorem stranded_of_push {v : V} {u : Mirrored V} (hvalue : s.value = some v)
    (hsending : s.sending = some (some none)) (hpush : step s .push = some t)
    (h : Reach step Untold t u) : Stranded v u := by
  refine h.invariant ?_ fun _ _ _ ih huntold hstep => ih.keep huntold hstep
  rw [step] at hpush
  split_ifs at hpush with hlive
  obtain rfl := Option.some.inj hpush
  refine ⟨hlive, ?_, ?_, .inl hvalue⟩
  · rw [Mirrored.settled, List.foldl_append, hvalue]
    rfl
  · rw [Mirrored.intended, hsending]
    rfl

end Workbench.Lib.Mirroring
