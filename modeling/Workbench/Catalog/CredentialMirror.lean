import Workbench.Catalog.CredentialCell
import Workbench.Lib.Mirroring

/-!
The supervisor of a workflow process, and the credentials that its child holds.

The supervisor keeps what was delivered, so that a child that comes up again can be given it. A
frame is sent to the live child first, and taken over when it was sent. The frames for one address
are handled one after the other. Before a trigger, and when a child is spawned, all that is kept is
sent, and nothing keeps that out of the time in which a frame is being sent.
-/

namespace Workbench.Catalog

open Workbench.Lib Workbench.Lib.Transition

structure Supervisor where
  currentCredentialDelivery : Option CredentialDelivery
  /-- the frame whose sending `deliverCredentials` awaits -/
  sending : Option CredentialFrame
  /-- the phase is `starting` or `running` -/
  live : Bool
  /-- the frames to the child, in their order -/
  channel : List CredentialFrame
  /-- what the child holds -/
  cell : Option CredentialDelivery
  deriving DecidableEq, Repr

/-- A supervisor that has no child yet. -/
def createSupervisor (credentialDelivery : Option CredentialDelivery) : Supervisor where
  currentCredentialDelivery :=
    credentialDelivery.map fun delivery => mergeCredentialDelivery none delivery none
  sending := none
  live := false
  channel := []
  cell := none

inductive SupervisorEvent
  /-- `deliverCredentials` is called -/
  | deliverCredentials (frame : CredentialFrame)
  /-- its frame was sent -/
  | sent
  /-- `pushRunGrants`, and the end of `spawn`, send what is kept -/
  | push
  /-- the child takes the next frame -/
  | credentialsUpdated
  /-- the child exits, or is being replaced -/
  | lost
  /-- a child starts, or is installed after a recycle -/
  | installed
  deriving DecidableEq, Repr

/-- A frame is merged into what is held. -/
def mergeFrame (held : Option CredentialDelivery) (frame : CredentialFrame) :
    Option CredentialDelivery :=
  some (mergeCredentialDelivery held frame.delivery frame.revoke)

def supervisorStep (s : Supervisor) : SupervisorEvent → Option Supervisor
  | .deliverCredentials frame =>
    if s.sending.isSome then none
    else if s.live then some { s with sending := some frame, channel := s.channel ++ [frame] }
    else some { s with currentCredentialDelivery := mergeFrame s.currentCredentialDelivery frame }
  | .sent => s.sending.map fun frame =>
    { s with
      currentCredentialDelivery := mergeFrame s.currentCredentialDelivery frame
      sending := none }
  | .push =>
    if s.live then
      match s.currentCredentialDelivery with
      | none => some s
      | some delivery => some { s with channel := s.channel ++ [⟨delivery, none⟩] }
    else none
  | .credentialsUpdated =>
    match s.channel with
    | [] => none
    | frame :: rest => some { s with cell := mergeFrame s.cell frame, channel := rest }
  | .lost => some { s with live := false, channel := [], cell := none }
  | .installed => if s.live then none else some { s with live := true, channel := [], cell := none }

/-- What the child holds when all frames have arrived. -/
def Supervisor.settled (s : Supervisor) : CredentialDelivery :=
  (afterFrames s.cell s.channel).getD ⟨[], []⟩

/-- What is kept when the frame was sent. -/
def Supervisor.intended (s : Supervisor) : CredentialDelivery :=
  ((match s.sending with
    | some frame => mergeFrame s.currentCredentialDelivery frame
    | none => s.currentCredentialDelivery).getD ⟨[], []⟩)

/-! ### One credential -/

/-- What concerns one credential. -/
def Supervisor.on (s : Supervisor) (credentialId : String) :
    Mirroring.Mirrored CredentialMaterialEntry where
  value := (s.currentCredentialDelivery.getD ⟨[], []⟩).materialOf credentialId
  sending := s.sending.map (·.tells credentialId)
  live := s.live
  channel := s.channel.map (·.tells credentialId)
  copy := (s.cell.getD ⟨[], []⟩).materialOf credentialId

def SupervisorEvent.on (s : Supervisor) (credentialId : String) :
    SupervisorEvent → Mirroring.Event CredentialMaterialEntry
  | .deliverCredentials frame => .update (frame.tells credentialId)
  | .sent => .sent
  | .push => if s.currentCredentialDelivery.isSome then .push else .idle
  | .credentialsUpdated => .receive
  | .lost => .lost
  | .installed => .up

variable {s t u : Supervisor} {e : SupervisorEvent} {credentialId : String}
  {held : Option CredentialDelivery} {frame : CredentialFrame}

lemma materialOf_mergeFrame : ((mergeFrame held frame).getD ⟨[], []⟩).materialOf credentialId =
    (frame.tells credentialId).getD ((held.getD ⟨[], []⟩).materialOf credentialId) := by
  rw [mergeFrame, Option.getD_some, materialOf_merge, CredentialFrame.tells]
  cases frame.delivery.materialOf credentialId with
  | some => rfl
  | none => by_cases h : credentialId ∈ frame.revoke.getD [] <;> simp [h]

/-- A frame that carries all tells of what there is. -/
lemma tells_whole {delivery : CredentialDelivery} :
    (⟨delivery, none⟩ : CredentialFrame).tells credentialId =
      (delivery.materialOf credentialId).map some := by
  rw [CredentialFrame.tells]
  cases delivery.materialOf credentialId <;> rfl

/-- **The supervisor mirrors each credential by itself.** -/
lemma step_on (h : supervisorStep s e = some t) :
    Mirroring.step (s.on credentialId) (e.on s credentialId) = some (t.on credentialId) := by
  cases e with
  | deliverCredentials frame =>
    rw [supervisorStep] at h
    split_ifs at h with hsending hlive
    · obtain rfl := Option.some.inj h
      rw [SupervisorEvent.on, Mirroring.step, if_neg (by simpa [Supervisor.on] using hsending),
        if_pos (show (s.on credentialId).live from hlive)]
      simp [Supervisor.on]
    · obtain rfl := Option.some.inj h
      rw [SupervisorEvent.on, Mirroring.step, if_neg (by simpa [Supervisor.on] using hsending),
        if_neg (show ¬(s.on credentialId).live from hlive)]
      simp [Supervisor.on, materialOf_mergeFrame]
  | sent =>
    obtain ⟨frame, hsending, rfl⟩ := Option.map_eq_some_iff.mp h
    simp [SupervisorEvent.on, Mirroring.step, Supervisor.on, hsending, materialOf_mergeFrame]
  | push =>
    rw [supervisorStep] at h
    split_ifs at h with hlive
    cases hkept : s.currentCredentialDelivery with
    | none =>
      rw [hkept] at h
      obtain rfl := Option.some.inj h
      simp [SupervisorEvent.on, hkept, Mirroring.step]
    | some delivery =>
      rw [hkept] at h
      obtain rfl := Option.some.inj h
      rw [SupervisorEvent.on, hkept, if_pos (Option.isSome_some), Mirroring.step,
        if_pos (show (s.on credentialId).live from hlive)]
      simp [Supervisor.on, hkept, tells_whole]
  | credentialsUpdated =>
    rw [supervisorStep] at h
    split at h
    · cases h
    · next frame rest hchannel =>
      obtain rfl := Option.some.inj h
      simp [SupervisorEvent.on, Mirroring.step, Supervisor.on, hchannel, materialOf_mergeFrame]
  | lost =>
    obtain rfl := Option.some.inj h
    rfl
  | installed =>
    rw [supervisorStep] at h
    split_ifs at h with hlive
    obtain rfl := Option.some.inj h
    rw [SupervisorEvent.on, Mirroring.step, if_neg (show ¬(s.on credentialId).live from hlive)]
    rfl

lemma settled_on : (s.on credentialId).settled = s.settled.materialOf credentialId := by
  have hframes : ∀ frames cell, (frames.map (·.tells credentialId)).foldl
      (fun copy told => told.getD copy) ((cell.getD ⟨[], []⟩).materialOf credentialId) =
        ((afterFrames cell frames).getD ⟨[], []⟩).materialOf credentialId := by
    intro frames
    induction frames with
    | nil => exact fun _ => rfl
    | cons frame frames ih =>
      intro cell
      rw [List.map_cons, List.foldl_cons, ← materialOf_mergeFrame, ih]
      rfl
  exact hframes s.channel s.cell

lemma intended_on : (s.on credentialId).intended = s.intended.materialOf credentialId := by
  unfold Mirroring.Mirrored.intended Supervisor.intended Supervisor.on
  cases s.sending with
  | none => rfl
  | some frame => exact materialOf_mergeFrame.symm

/-- A run of the supervisor is a run of the mirror of each credential. -/
lemma reach_on {G : Supervisor → SupervisorEvent → Prop}
    {H : Mirroring.Mirrored CredentialMaterialEntry →
      Mirroring.Event CredentialMaterialEntry → Prop}
    (hguard : ∀ s e, G s e → H (s.on credentialId) (e.on s credentialId))
    (h : Reach supervisorStep G s t) :
    Reach Mirroring.step H (s.on credentialId) (t.on credentialId) := by
  induction h with
  | refl => exact .refl
  | tail _ hg hstep ih => exact .tail ih (hguard _ _ hg) (step_on hstep)

/-! ### Over a whole run -/

/-- All that is kept is not sent while a frame is sent that tells of the credential. -/
def QuietFor (credentialId : String) (s : Supervisor) : SupervisorEvent → Prop
  | .push => ∀ frame, s.sending = some frame → frame.tells credentialId = none
  | _ => True

/-- No more children are lost or come up. -/
def KeptFor (credentialId : String) (s : Supervisor) (e : SupervisorEvent) : Prop :=
  QuietFor credentialId s e ∧ e ≠ .lost ∧ e ≠ .installed

lemma quiet_on (h : QuietFor credentialId s e) :
    Mirroring.Quiet (s.on credentialId) (e.on s credentialId) := by
  cases e with
  | push =>
    rw [SupervisorEvent.on]
    split_ifs
    · rintro told hsending
      obtain ⟨frame, hframe, rfl⟩ := Option.map_eq_some_iff.mp hsending
      exact h frame hframe
    · trivial
  | _ => trivial

lemma kept_on (h : KeptFor credentialId s e) :
    Mirroring.Kept (s.on credentialId) (e.on s credentialId) := by
  obtain ⟨hquiet, hlost, hup⟩ := h
  refine ⟨quiet_on hquiet, ?_⟩
  cases e with
  | push =>
    rw [SupervisorEvent.on]
    split_ifs <;> exact ⟨nofun, nofun⟩
  | lost => exact absurd rfl hlost
  | installed => exact absurd rfl hup
  | deliverCredentials | sent | credentialsUpdated => exact ⟨nofun, nofun⟩

/-- After a push the child holds of the credential what is kept. -/
lemma pushed_mirrors (hcopy : s.settled.materialOf credentialId = none ∨
      s.settled.materialOf credentialId = s.intended.materialOf credentialId)
    (hquiet : QuietFor credentialId s .push) (hpush : supervisorStep s .push = some t) :
    t.settled.materialOf credentialId = t.intended.materialOf credentialId := by
  rw [← settled_on, ← intended_on] at hcopy ⊢
  have hstep := @step_on _ _ _ credentialId hpush
  have hquiet' : Mirroring.Quiet (s.on credentialId) .push := by
    rintro told hsending
    obtain ⟨frame, hframe, rfl⟩ := Option.map_eq_some_iff.mp hsending
    exact hquiet frame hframe
  by_cases hsome : s.currentCredentialDelivery.isSome
  · rw [SupervisorEvent.on, if_pos hsome] at hstep
    exact Mirroring.settled_push hcopy hquiet' hstep
  · rw [SupervisorEvent.on, if_neg hsome] at hstep
    rw [← Option.some.inj hstep]
    have hnone : (s.on credentialId).value = none := by
      rw [Supervisor.on, Option.not_isSome_iff_eq_none.mp hsome]
      rfl
    rw [Mirroring.intended_of_quiet hquiet', hnone] at hcopy ⊢
    exact hcopy.elim id id

/-- **A child holds no credential that its supervisor has dropped or replaced**: whatever is lost
and comes up again in between, what reaches it is what is kept, and after a push that is all that is
kept. The one thing that must not happen is a push during a delivery about the credential. -/
theorem child_mirrors {credentialDelivery : Option CredentialDelivery}
    (h : Reach supervisorStep (QuietFor credentialId) (createSupervisor credentialDelivery) s)
    (hlive : s.live) :
    (s.settled.materialOf credentialId = none ∨
      s.settled.materialOf credentialId = s.intended.materialOf credentialId) ∧
    ∀ t u, QuietFor credentialId s .push → supervisorStep s .push = some t →
      Reach supervisorStep (KeptFor credentialId) t u →
      u.settled.materialOf credentialId = u.intended.materialOf credentialId := by
  have hcopy : s.settled.materialOf credentialId = none ∨
      s.settled.materialOf credentialId = s.intended.materialOf credentialId := by
    rw [← settled_on, ← intended_on]
    exact Mirroring.settled_of_reach rfl (reach_on (fun _ _ => quiet_on) h) hlive
  refine ⟨hcopy, fun t u hquiet hpush hkept => ?_⟩
  have hlive' : t.live := by
    rw [supervisorStep, if_pos hlive] at hpush
    split at hpush <;> exact Option.some.inj hpush ▸ hlive
  have hpushed : t.settled.materialOf credentialId = t.intended.materialOf credentialId := by
    exact pushed_mirrors hcopy hquiet hpush
  rw [← settled_on, ← intended_on] at hpushed ⊢
  exact (Mirroring.settled_of_kept hlive' hpushed (reach_on (fun _ _ => kept_on) hkept)).2

/-- A supervisor whose child has started and was sent the key. -/
def starting : Supervisor where
  currentCredentialDelivery := some ⟨[], [acmeKey]⟩
  sending := none
  live := true
  channel := [⟨⟨[], [acmeKey]⟩, none⟩]
  cell := none

theorem starting_mirrors :
    starting.settled.materialOf "key" = starting.intended.materialOf "key" :=
  (@child_mirrors { starting with channel := [] } "key" (some ⟨[], [acmeKey]⟩)
    (@Reach.tail _ _ _ _ _ _ _ .installed .refl trivial rfl) rfl).2 starting starting nofun rfl
    .refl

/-- No frame tells of the credential, and the child stays. -/
def UntoldFor (credentialId : String) (_ : Supervisor) : SupervisorEvent → Prop
  | .deliverCredentials frame => frame.tells credentialId = none
  | .lost | .installed => False
  | _ => True

/-- **A push during a revocation gives the credential back**: the child holds what the supervisor
has dropped, and does so until a frame tells of the credential again or the child is replaced. -/
theorem revoked_back {material : CredentialMaterialEntry}
    (hkept : (s.currentCredentialDelivery.getD ⟨[], []⟩).materialOf credentialId = some material)
    (hsending : s.sending = some frame) (hrevoked : frame.tells credentialId = some none)
    (hpush : supervisorStep s .push = some t)
    (h : Reach supervisorStep (UntoldFor credentialId) t u) :
    u.settled.materialOf credentialId = some material ∧
      u.intended.materialOf credentialId = none := by
  have hstep := @step_on _ _ _ credentialId hpush
  have hsome : s.currentCredentialDelivery.isSome := by
    cases hheld : s.currentCredentialDelivery with
    | some => rfl
    | none =>
      rw [hheld] at hkept
      cases hkept
  rw [SupervisorEvent.on, if_pos hsome] at hstep
  have hsent : (s.on credentialId).sending = some (some none) := by
    rw [Supervisor.on, hsending, Option.map_some, hrevoked]
  have hstranded := Mirroring.stranded_of_push hkept hsent hstep (reach_on ?_ h)
  · exact ⟨settled_on.symm.trans hstranded.settled, intended_on.symm.trans hstranded.intended⟩
  · intro s e huntold
    cases e with
    | push =>
      rw [SupervisorEvent.on]
      split_ifs <;> trivial
    | deliverCredentials | lost | installed => exact huntold
    | sent | credentialsUpdated => trivial

/-- A supervisor whose child was given the key, which is now being revoked. -/
def revoking : Supervisor where
  currentCredentialDelivery := some ⟨[], [acmeKey]⟩
  sending := some ⟨⟨[], []⟩, some ["key"]⟩
  live := true
  channel := [⟨⟨[], []⟩, some ["key"]⟩]
  cell := some ⟨[], [acmeKey]⟩

theorem acmeKey_back :
    (⟨some ⟨[], [acmeKey]⟩, some ⟨⟨[], []⟩, some ["key"]⟩, true,
      [⟨⟨[], []⟩, some ["key"]⟩, ⟨⟨[], [acmeKey]⟩, none⟩],
      some ⟨[], [acmeKey]⟩⟩ : Supervisor).settled.materialOf "key" = some acmeKey ∧
    (⟨some ⟨[], [acmeKey]⟩, some ⟨⟨[], []⟩, some ["key"]⟩, true,
      [⟨⟨[], []⟩, some ["key"]⟩, ⟨⟨[], [acmeKey]⟩, none⟩],
      some ⟨[], [acmeKey]⟩⟩ : Supervisor).intended.materialOf "key" = none :=
  @revoked_back revoking _ _ "key" ⟨⟨[], []⟩, some ["key"]⟩ acmeKey rfl rfl (by decide) rfl .refl

end Workbench.Catalog
