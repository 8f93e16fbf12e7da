import Workbench.Provisioner.Confirmed
import Workbench.Provisioner.Signals

/-!
When a request leaves the newer units of its allocation alone.

The state store turns a stale request away when it is made. What the request does later rests
on what it finds then: the listing of a sweep, or of a destroy without a reference, is read
after the check, and a newer unit may have come in between. The request stops it like any other.
-/

namespace Workbench.Provisioner

open Workbench.Lib Workbench.Lib.Transition

/-- Stopping a target removes no directory of a newer unit of the request's allocation. -/
def NoNewer (cfg : Config) (request : Request) (target : UnitRef) : Prop :=
  ∀ generation, takesAway cfg.allocationsDir target.unit
    (unitDirKey ⟨request.allocationId, generation⟩) → generation ≤ request.generation

/-- No listing shows a request a newer unit that runs, and no destroy is called with the
reference of one. -/
def ListsNoNewer (cfg : Config) (s : State) : Event → Prop
  | .reply c .done => ∀ request purpose entry entries refs,
      s.calls c = some ⟨request, .reading purpose (entry :: entries) refs⟩ →
      ∀ generation pid, generationOf entry = some generation →
        s.world.readPidFile (request.allocationId, entry) = some pid → s.world.isAlive pid →
          generation ≤ request.generation
  | .call _ (.destroy destroy) => ∀ ref target, destroy.externalRef = some ref →
      parseExternalRef ref = some target → NoNewer cfg (.destroy destroy) target
  | _ => True

lemma noNewer_of_le {cfg : Config} {request : Request} {target : UnitRef}
    (ha : target.unit.allocationId = request.allocationId)
    (hg : target.unit.generation ≤ request.generation) : NoNewer cfg request target := by
  intro generation h
  rw [unitDirKey, ← ha] at h
  have hgen : generation = target.unit.generation :=
    unitDirName_injective (World.takesAway_same.1 h)
  omega

/-- The units of an allocation that a target stands for are its own. -/
lemma NoNewer.le {cfg : Config} {request : Request} {target : UnitRef}
    (h : NoNewer cfg request target) (ha : target.unit.allocationId = request.allocationId) :
    target.unit.generation ≤ request.generation := by
  apply h
  rw [unitDirKey, ← ha]
  exact World.takesAway_same.2 rfl

/-- What is recorded for an allocation, and what a call is to stop, is not too new. -/
structure Dated (cfg : Config) (s : State) : Prop where
  recorded : ∀ a record ref target, s.world.records.get a = some record ∨
      s.world.file.get a = some record → record.externalRef = some ref →
    parseExternalRef ref = some target →
      target.unit.allocationId = a ∧ target.unit.generation ≤ record.generation
  requested : ∀ c destroy ref target, s.calls c = some ⟨.destroy destroy, .observing⟩ →
    destroy.externalRef = some ref → parseExternalRef ref = some target →
      NoNewer cfg (.destroy destroy) target
  refs : ∀ c request phase, s.calls c = some ⟨request, phase⟩ → ∀ ref ∈ phase.refs, ∀ target,
    parseExternalRef ref = some target → NoNewer cfg request target
  target : ∀ c request phase, s.calls c = some ⟨request, phase⟩ → ∀ target,
    phase.target = some target → NoNewer cfg request target

variable {cfg : Config} {s t : State} {e : Event}

lemma dated_initial (h : Initial s) : Dated cfg s where
  recorded a record ref target hr := by simp [h.records, h.file] at hr
  requested c destroy ref target hc := by simp [h.calls] at hc
  refs c request phase hc := by simp [h.calls] at hc
  target c request phase hc := by simp [h.calls] at hc

/-- **One step keeps everything dated.** -/
theorem Dated.step (hs : Dated cfg s) (hg : ListsNoNewer cfg s e) (h : Happens cfg s e t) :
    Dated cfg t where
  recorded a record ref target hr hx hparse := by
    rcases h.externalRef_of hr hx with ⟨old, hold, hx, hle⟩ | ⟨c, request, pid, hcall, rfl, rfl, hg⟩
    · obtain ⟨ha, hgen⟩ := hs.recorded a old ref target hold hx hparse
      exact ⟨ha, hgen.trans hle⟩
    · obtain rfl := eq_of_parseExternalRef hparse
      exact ⟨rfl, hg.ge⟩
  requested c destroy ref target hcall hx hparse := by
    rcases h.observing_of hcall with hcall' | rfl
    · exact hs.requested c destroy ref target hcall' hx hparse
    · exact hg ref target hx hparse
  refs c request phase hcall ref href target hparse := by
    rcases h.call_of hcall with hcall' | hi | ⟨phase', r, changes, rfl, hcall', hm, -⟩
    · exact hs.refs c request phase hcall' ref href target hparse
    · simp [Phase.refs_of_isInert hi] at href
    · rcases hm.refs_next href with href' | ⟨destroy, now, record, rfl, rfl, rfl, ho, hres⟩ |
        ⟨pid, rfl, rfl⟩ |
        ⟨purpose, entry, entries, refs, generation, pid, rfl, rfl, hgen, hpid, ha, rfl⟩
      · exact hs.refs c request phase' hcall' ref href' target hparse
      · unfold resolvedRef at hres
        split at hres
        · rename_i ref' hx
          obtain rfl := Option.some.inj hres
          exact hs.requested c destroy _ target hcall' hx hparse
        · obtain ⟨old, hget, hx⟩ := Option.bind_eq_some_iff.mp hres
          obtain ⟨ha, hgen⟩ := hs.recorded _ old ref target (.inl hget) hx hparse
          exact noNewer_of_le ha (hgen.trans (admits_of_observeDestroy ho old hget).2)
      · obtain rfl := eq_of_parseExternalRef hparse
        exact noNewer_of_le rfl le_rfl
      · obtain rfl := eq_of_parseExternalRef hparse
        exact noNewer_of_le rfl (hg request purpose entry entries refs hcall' generation pid hgen
          hpid ha)
  target c request phase hcall target ht := by
    rcases h.call_of hcall with hcall' | hi | ⟨phase', r, changes, rfl, hcall', hm, -⟩
    · exact hs.target c request phase hcall' target ht
    · simp [Phase.target_of_isInert hi] at ht
    · rcases hm.target_next ht with ht' | ⟨purpose, ref, rest, rfl, hparse⟩ |
        ⟨failure, pid, rfl, rfl⟩
      · exact hs.target c request phase' hcall' target ht'
      · exact hs.refs c request _ hcall' ref List.mem_cons_self target hparse
      · exact noNewer_of_le rfl le_rfl

lemma Reachable.dated {guard : State → Event → Prop} (h : Reachable cfg guard s)
    (hg : ∀ s e, guard s e → ListsNoNewer cfg s e) : Dated cfg s := by
  obtain ⟨s₀, h0, hr⟩ := h
  exact hr.invariant (dated_initial h0)
    fun _ _ _ hs hge hst => hs.step (hg _ _ hge) (step_happens hst)

/-- What a change does to the newer units of a request's allocation: it signals none of their
processes and removes none of their directories. -/
def SparesNewer (cfg : Config) (w : World) (request : Request) : Change → Prop
  | .signal _ pid _ => ∀ generation, w.processes pid =
      some (.sidecar ⟨request.allocationId, generation⟩) → generation ≤ request.generation
  | .removeUnitDir unit => ∀ generation, takesAway cfg.allocationsDir unit
      (unitDirKey ⟨request.allocationId, generation⟩) → generation ≤ request.generation
  | _ => True

/-- A destroy of generation 1 lists the units after generation 2 has started. -/
def lateListing : List Event :=
  [.call 0 (destroyOf "a" 1 none), .reply 0 (.stored "t0"), .call 1 (ensureOf "a" 2),
    .reply 1 (.stored "t1"), .reply 1 (.spawned 7), .reply 1 .done,
    .reply 0 (.listed ["gen-2"]), .reply 0 .done]

end Workbench.Provisioner
