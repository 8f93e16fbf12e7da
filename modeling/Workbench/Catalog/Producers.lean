import Workbench.Catalog.CredentialMirror
import Workbench.Catalog.Delivery

/-!
The frames that a running child can be sent at all.

They are made where a deployment starts, where sources are resolved again, where a credential is
revoked, and where a deployment connects again. None of them leaves a binding without its material,
and so there is none in a child, whatever happens to it and to the frames.
-/

namespace Workbench.Catalog

open Workbench.Lib Workbench.Lib.Fallible Workbench.Lib.Transition

variable {decrypt : String → String → Option String} {db : Tables} {s t : Supervisor}
  {frame : CredentialFrame} {address : String} {pushes : List Push}

/-- A frame that the hub makes, of the rows that there are at the time. -/
inductive Produced (decrypt : String → String → Option String) : CredentialFrame → Prop
  | sources {db : Tables} {run : WorkflowRun} {address : String} {frame : CredentialFrame}
    (h : .credentials address frame ∈ pushedTo decrypt db run) : Produced decrypt frame
  | revoke {db : Tables} {tenantId credentialId address : String} {frame : CredentialFrame}
    (h : .credentials address frame ∈ pushCredentialRevoke db tenantId credentialId) :
    Produced decrypt frame
  | reconcile {db : Tables} {agentAddress address : String} {pushes : List Push}
    {frame : CredentialFrame} (h : pushCredentialReconcile decrypt db agentAddress = .ok pushes)
    (hmem : .credentials address frame ∈ pushes) : Produced decrypt frame

/-- What a deployment can start with. -/
inductive Launched (decrypt : String → String → Option String) : Option CredentialDelivery → Prop
  | none : Launched decrypt none
  | delivered {db : Tables} {tenantId : String} {bindings : List CredentialBinding}
    {inferenceCredentialIds : List String} {delivery : CredentialDelivery} (hkeyed : db.WellKeyed)
    (h : deployDelivery decrypt db tenantId bindings inferenceCredentialIds =
      .ok (some delivery)) : Launched decrypt (some delivery)

lemma Produced.backed (h : Produced decrypt frame) : frame.delivery.Backed := by
  cases h with
  | sources h =>
    intro binding hbinding
    rw [(mem_pushedTo h).2 _ _ rfl] at hbinding
    cases hbinding
  | revoke h =>
    obtain ⟨_, -, hframe⟩ := List.mem_map.mp h
    obtain ⟨-, rfl⟩ := Push.credentials.inj hframe
    intro binding hbinding
    cases hbinding
  | reconcile h hmem => exact backed_reconcile h hmem

/-- No binding is without its material: in what is kept, in what is sent, and in the child. -/
structure Supervisor.Backed (s : Supervisor) : Prop where
  kept : (s.currentCredentialDelivery.getD ⟨[], []⟩).Backed
  sending : ∀ frame, s.sending = some frame → frame.delivery.Backed
  channel : ∀ frame ∈ s.channel, frame.delivery.Backed
  cell : (s.cell.getD ⟨[], []⟩).Backed

lemma backed_mergeFrame {held : Option CredentialDelivery} (hheld : (held.getD ⟨[], []⟩).Backed)
    (hframe : frame.delivery.Backed) : ((mergeFrame held frame).getD ⟨[], []⟩).Backed :=
  backed_merge hheld hframe

/-- Only frames of the hub are delivered. -/
def FromHub (decrypt : String → String → Option String) (_ : Supervisor) : SupervisorEvent → Prop
  | .deliverCredentials frame => Produced decrypt frame
  | _ => True

/-- A child that is lost, or new, has nothing yet. -/
lemma Supervisor.Backed.without (h : s.Backed) {live : Bool} :
    ({ s with live := live, channel := [], cell := none } : Supervisor).Backed := by
  refine ⟨h.kept, h.sending, fun f hf => ?_, fun binding hbinding => ?_⟩
  · cases hf
  · cases hbinding

lemma Supervisor.Backed.keep {e : SupervisorEvent} (h : s.Backed) (hhub : FromHub decrypt s e)
    (hstep : supervisorStep s e = some t) : t.Backed := by
  cases e with
  | deliverCredentials frame =>
    have hframe : frame.delivery.Backed := Produced.backed hhub
    rw [supervisorStep] at hstep
    split_ifs at hstep
    · obtain rfl := Option.some.inj hstep
      refine ⟨h.kept, fun f hf => Option.some.inj hf ▸ hframe, fun f hf => ?_, h.cell⟩
      rcases List.mem_append.mp hf with hf | hf
      · exact h.channel f hf
      · exact List.mem_singleton.mp hf ▸ hframe
    · obtain rfl := Option.some.inj hstep
      exact ⟨backed_mergeFrame h.kept hframe, h.sending, h.channel, h.cell⟩
  | sent =>
    obtain ⟨frame, hsending, rfl⟩ := Option.map_eq_some_iff.mp hstep
    refine ⟨backed_mergeFrame h.kept (h.sending frame hsending), fun f hf => ?_, h.channel, h.cell⟩
    cases hf
  | push =>
    rw [supervisorStep] at hstep
    split_ifs at hstep
    split at hstep
    · exact Option.some.inj hstep ▸ h
    · next delivery hkept =>
      obtain rfl := Option.some.inj hstep
      refine ⟨h.kept, h.sending, fun f hf => ?_, h.cell⟩
      rcases List.mem_append.mp hf with hf | hf
      · exact h.channel f hf
      · have hdelivery := h.kept
        rw [hkept] at hdelivery
        exact List.mem_singleton.mp hf ▸ hdelivery
  | credentialsUpdated =>
    rw [supervisorStep] at hstep
    split at hstep
    · cases hstep
    · next frame rest hchannel =>
      obtain rfl := Option.some.inj hstep
      have hframe := h.channel frame (hchannel ▸ List.mem_cons_self)
      exact ⟨h.kept, h.sending, fun f hf => h.channel f (hchannel ▸ List.mem_cons_of_mem _ hf),
        backed_mergeFrame h.cell hframe⟩
  | lost =>
    obtain rfl := Option.some.inj hstep
    exact h.without
  | installed =>
    rw [supervisorStep] at hstep
    split_ifs at hstep
    obtain rfl := Option.some.inj hstep
    exact h.without

/-- **No binding is without its material**, in any child at any time: whatever frames of the hub
come in whatever order, and whenever children are lost and come up again. -/
theorem backed_of_reach {credentialDelivery : Option CredentialDelivery}
    (hlaunched : Launched decrypt credentialDelivery)
    (h : Reach supervisorStep (FromHub decrypt) (createSupervisor credentialDelivery) s) :
    (s.cell.getD ⟨[], []⟩).Backed ∧ (s.currentCredentialDelivery.getD ⟨[], []⟩).Backed := by
  have hstart : (createSupervisor credentialDelivery).Backed := by
    refine ⟨?_, nofun, nofun, nofun⟩
    cases hlaunched with
    | none => exact nofun
    | delivered hkeyed hdelivery =>
      exact backed_merge (nofun : (⟨[], []⟩ : CredentialDelivery).Backed)
        (delivered_of_deployDelivery hkeyed hdelivery).1
  have hbacked := h.invariant hstart fun _ _ _ ih hhub hstep => ih.keep hhub hstep
  exact ⟨hbacked.cell, hbacked.kept⟩

theorem starting_backed : teamDelivery.Backed :=
  (@backed_of_reach plainly
    ⟨some teamDelivery, none, true, [], some teamDelivery⟩ (some teamDelivery)
    (@Launched.delivered plainly company "team" [⟨.package "billing", "payments", "acme", none⟩]
      ["key"] teamDelivery wellKeyed_company (by decide))
    (@Reach.tail _ _ _ _ _ _ _ .credentialsUpdated
      (@Reach.tail _ _ _ _ _ _ _ .push
        (@Reach.tail _ _ _ _ _ _ _ .installed .refl trivial rfl) trivial rfl) trivial rfl)).1

end Workbench.Catalog
