import Workbench.Provisioner.Effects

/-!
Which processes the provisioner signals.

A process is known by its pid alone: in the pid file, in the recorded reference and in the
calls that work on it. All of these outlive the process, and the operating system may give its
pid away again. The pids they name stay right as long as no new process gets one of them.
-/

namespace Workbench.Provisioner

open Workbench.Lib Workbench.Lib.Transition

/-- A call in a phase holds, has still to stop, or polls a process. -/
inductive Phase.Names (request : Request) (target : UnitRef) : Phase → Prop
  | held {phase : Phase} (held : phase.held = some target.pid) (unit : target.unit = request.unit) :
    Names request target phase
  | ref {phase : Phase} {ref : String} (mem : ref ∈ phase.refs)
    (parse : parseExternalRef ref = some target) : Names request target phase
  | polled {after : AfterTerminate} : Names request target (.terminating after target)
  | requested {destroy : DestroySidecarRequest} {ref : String} (is : request = .destroy destroy)
    (externalRef : destroy.externalRef = some ref) (parse : parseExternalRef ref = some target) :
    Names request target .observing

/-- A process that a pid file, a recorded reference or a call names for a unit. -/
inductive State.Named (s : State) (target : UnitRef) : Prop
  | pidFile (entry : String) (generation : generationOf entry = some target.unit.generation)
    (pid : s.world.readPidFile (target.unit.allocationId, entry) = some target.pid)
  | record (allocationId : String) (record : AllocationRecord) (ref : String)
    (get : s.world.records.get allocationId = some record ∨
      s.world.file.get allocationId = some record)
    (externalRef : record.externalRef = some ref) (parse : parseExternalRef ref = some target)
  | call (c : ℕ) (request : Request) (phase : Phase)
    (call : s.calls c = some ⟨request, phase⟩) (names : phase.Names request target)

/-- A spawned process gets a pid that nothing names, and the reference a destroy is called with
names no sidecar of another unit. -/
def SpawnsFresh (s : State) : Event → Prop
  | .reply _ (.spawned pid) => ∀ target, s.Named target → target.pid ≠ pid
  | .call _ (.destroy destroy) => ∀ ref target unit, destroy.externalRef = some ref →
      parseExternalRef ref = some target →
        s.world.processes target.pid = some (.sidecar unit) → unit = target.unit
  | _ => True

/-- The same of the processes that others start. -/
def StartsFresh (s : State) : Event → Prop
  | .start pid => ∀ target, s.Named target → target.pid ≠ pid
  | .call _ (.destroy destroy) => ∀ ref target, destroy.externalRef = some ref →
      parseExternalRef ref = some target → s.world.processes target.pid ≠ some .foreign
  | _ => True

variable {cfg : Config} {s t : State} {e : Event} {request : Request} {phase next : Phase}
  {r : Reply} {changes : List Change} {c : ℕ} {target : UnitRef}

/-- An inert call names what the destroy names that it has been called with. -/
lemma Phase.Names.of_isInert (hi : phase.isInert) (hn : phase.Names request target) :
    ∃ destroy ref, request = .destroy destroy ∧ phase = .observing ∧
      destroy.externalRef = some ref ∧ parseExternalRef ref = some target := by
  cases hn with
  | held hheld => simp [Phase.held_of_isInert hi] at hheld
  | ref hmem => simp [Phase.refs_of_isInert hi] at hmem
  | polled => simp [Phase.isInert] at hi
  | requested is hx hparse => exact ⟨_, _, is, rfl, hx, hparse⟩

/-- Where the names of a call come from: it had them, it spawned the process, or it took them
from the record or from a pid file of its allocation. -/
lemma Moves.names_next {w : World} (hm : Moves cfg w request phase r next changes)
    (hn : next.Names request target) :
    phase.Names request target ∨
    (∃ args, phase = .making args ∧ r = .spawned target.pid ∧ target.unit = request.unit) ∨
    (∃ record ref, w.records.get request.allocationId = some record ∧
      record.externalRef = some ref ∧ parseExternalRef ref = some target) ∨
    ∃ entry generation, generationOf entry = some generation ∧
      target.unit = ⟨request.allocationId, generation⟩ ∧
      w.readPidFile (request.allocationId, entry) = some target.pid := by
  cases hn with
  | held hheld hunit =>
    rcases hm.held_next hheld with h | ⟨args, rfl, rfl⟩
    · exact .inl (.held h hunit)
    · exact .inr (.inl ⟨args, rfl, rfl, hunit⟩)
  | ref hmem hparse =>
    rcases hm.refs_next hmem with h | ⟨destroy, now, record, rfl, rfl, rfl, ho, hres⟩ |
      ⟨pid, rfl, rfl⟩ |
      ⟨purpose, entry, entries, refs, generation, pid, rfl, rfl, hg, hpid, ha, rfl⟩
    · exact .inl (.ref h hparse)
    · unfold resolvedRef at hres
      split at hres
      · rename_i ref hx
        obtain rfl := Option.some.inj hres
        exact .inl (.requested rfl hx hparse)
      · obtain ⟨record, hget, hx⟩ := Option.bind_eq_some_iff.mp hres
        exact .inr (.inr (.inl ⟨record, _, hget, hx, hparse⟩))
    · obtain rfl := eq_of_parseExternalRef hparse
      exact .inl (.held rfl rfl)
    · obtain rfl := eq_of_parseExternalRef hparse
      exact .inr (.inr (.inr ⟨entry, generation, hg, rfl, hpid⟩))
  | polled =>
    left
    rcases hm.terminating_next with rfl | ⟨purpose, ref, rest, rfl, hparse⟩ |
      ⟨failure, pid, rfl, rfl⟩
    · exact .polled
    · exact .ref List.mem_cons_self hparse
    · exact .held rfl rfl
  | requested is hx hparse =>
    rcases hm.next_cases with h | ⟨_, _, _, _, -, -, -, -, -, -, h⟩ | ⟨_, _, -, -, h⟩ |
      ⟨_, -, h | ⟨_, h⟩⟩ <;> simp [Phase.startsNothing] at h

/-- The names of a call after a reply were there before, or name the process just spawned. -/
lemma named_of_moves (hm : Moves cfg s.world request phase r next changes)
    (hcall : s.calls c = some ⟨request, phase⟩) (hn : next.Names request target) :
    s.Named target ∨ ∃ args, phase = .making args ∧ r = .spawned target.pid ∧
      target.unit = request.unit := by
  rcases hm.names_next hn with h | h | ⟨record, ref, hget, hx, hparse⟩ |
    ⟨entry, generation, hg, hu, hpid⟩
  · exact .inl (.call c request phase hcall h)
  · exact .inr h
  · exact .inl (.record _ record ref (.inl hget) hx hparse)
  · exact .inl (.pidFile entry (by rw [hg, hu]) (by rw [hu, hpid]))

/-- **What a step names**: only what was named before, a process it spawns, or what a new
destroy is called with. -/
lemma named_step (h : Happens cfg s e t) (hn : t.Named target) :
    s.Named target ∨
    (∃ c request args, e = .reply c (.spawned target.pid) ∧
      s.calls c = some ⟨request, .making args⟩ ∧ target.unit = request.unit) ∨
    ∃ c destroy ref, e = .call c (.destroy destroy) ∧ destroy.externalRef = some ref ∧
      parseExternalRef ref = some target := by
  cases hn with
  | pidFile entry hg hpid =>
    left
    rcases h.readPidFile_of hg hpid with hold | ⟨c, request, hcall, hunit⟩
    · exact .pidFile entry hg hold
    · exact .call c request _ hcall (.held rfl hunit)
  | record a record ref hget hx hparse =>
    left
    rcases h.externalRef_of hget hx with ⟨old, hold, hx, -⟩ | ⟨c, request, pid, hcall, rfl, rfl, -⟩
    · exact .record a old ref hold hx hparse
    · obtain rfl := eq_of_parseExternalRef hparse
      exact .call c request _ hcall (.held rfl rfl)
  | call c request next hcall hnames =>
    rcases h.call_of hcall with hcall' | hi | ⟨phase, r, changes, rfl, hcall', hm, -⟩
    · exact .inl (.call c request next hcall' hnames)
    · obtain ⟨destroy, ref, rfl, rfl, hx, hparse⟩ := hnames.of_isInert hi
      rcases h.observing_of hcall with hcall' | rfl
      · exact .inl (.call c _ _ hcall' (.requested rfl hx hparse))
      · exact .inr (.inr ⟨c, destroy, ref, rfl, hx, hparse⟩)
    · rcases named_of_moves hm hcall' hnames with h | ⟨args, rfl, rfl, hu⟩
      · exact .inl h
      · exact .inr (.inl ⟨c, request, args, rfl, hcall', hu⟩)

lemma not_named_of_initial (h : Initial s) : ¬ s.Named target := by
  intro hn
  cases hn with
  | pidFile entry hg hpid => simp [World.readPidFile, h.units] at hpid
  | record a record ref hget => simp [h.records, h.file] at hget
  | call c request phase hcall => simp [h.calls] at hcall

/-- What is named for a unit is no sidecar of another unit. -/
def NamesOwn (s : State) : Prop :=
  ∀ target, s.Named target → ∀ unit, s.world.processes target.pid = some (.sidecar unit) →
    unit = target.unit

theorem NamesOwn.step (hs : NamesOwn s) (hg : SpawnsFresh s e) (h : Happens cfg s e t) :
    NamesOwn t := by
  intro target hn unit hp
  rcases named_step h hn with hn' | ⟨c, request, args, rfl, hcall, hu⟩ |
    ⟨c, destroy, ref, rfl, hx, hparse⟩
  · rcases h.sidecar hp with hp' | ⟨-, -, c, request, args, rfl, -⟩
    · exact hs target hn' unit hp'
    · exact absurd rfl (hg target hn')
  · rcases h.sidecar hp with hp' | ⟨-, -, c', request', args', he, hcall', -, rfl⟩
    · rw [h.free_of_spawned] at hp'
      simp at hp'
    · obtain rfl : c = c' := (Event.reply.inj he).1
      obtain ⟨rfl, -⟩ := by simpa using hcall.symm.trans hcall'
      exact hu.symm
  · rcases h.sidecar hp with hp' | ⟨-, -, c', request', args', he, -⟩
    · exact hg ref target unit hx hparse hp'
    · simp at he

/-- What is named is no process of another program. -/
def NamesSidecars (s : State) : Prop :=
  ∀ target, s.Named target → s.world.processes target.pid ≠ some .foreign

theorem NamesSidecars.step (hs : NamesSidecars s) (hg : StartsFresh s e) (h : Happens cfg s e t) :
    NamesSidecars t := by
  intro target hn hp
  rcases h.process hp with hp' | ⟨-, -, c, request, args, -, -, -, hq⟩ | ⟨-, -, rfl, -⟩
  · rcases named_step h hn with hn' | ⟨c, request, args, rfl, hcall, hu⟩ |
      ⟨c, destroy, ref, rfl, hx, hparse⟩
    · exact hs target hn' hp'
    · simp [h.free_of_spawned] at hp'
    · exact hg ref target hx hparse hp'
  · simp at hq
  · rcases named_step h hn with hn' | ⟨c, request, args, he, -⟩ | ⟨c, destroy, ref, he, -⟩
    · exact absurd rfl (hg target hn')
    · simp at he
    · simp at he

/-- What is signalled is named. -/
lemma named_of_signal {unit : UnitId} {pid : ℕ} {sig : Signal}
    (hm : Change.signal unit pid sig ∈ actionsOf cfg s e) :
    s.world.isAlive pid ∧ s.Named ⟨unit, pid⟩ := by
  obtain ⟨c, r, request, phase, next, changes, -, hcall, hmoves, hm⟩ := mem_actionsOf hm
  obtain ⟨halive, h⟩ := hmoves.signal_mem hm
  refine ⟨halive, .call c request phase hcall ?_⟩
  rcases h with ⟨after, rfl⟩ | ⟨purpose, ref, rest, rfl, hparse⟩ | ⟨failure, rfl, rfl⟩
  · exact .polled
  · exact .ref List.mem_cons_self hparse
  · exact .held rfl rfl

lemma Reachable.namesOwn {guard : State → Event → Prop} (h : Reachable cfg guard s)
    (hg : ∀ s e, guard s e → SpawnsFresh s e) : NamesOwn s := by
  obtain ⟨s₀, h0, hr⟩ := h
  exact hr.invariant (fun target hn => absurd hn (not_named_of_initial h0))
    fun _ _ _ hs hge hst => hs.step (hg _ _ hge) (step_happens hst)

lemma Reachable.namesSidecars {guard : State → Event → Prop} (h : Reachable cfg guard s)
    (hg : ∀ s e, guard s e → StartsFresh s e) : NamesSidecars s := by
  obtain ⟨s₀, h0, hr⟩ := h
  exact hr.invariant (fun target hn => absurd hn (not_named_of_initial h0))
    fun _ _ _ hs hge hst => hs.step (hg _ _ hge) (step_happens hst)

/-- Nothing is named when the first ensure is about to spawn its process. -/
lemma not_named_making (h : run (step sampleConfig) idle
    [.call 0 (ensureOf "a" 1), .reply 0 (.stored "t0")] = some s) : ¬ s.Named target := by
  obtain rfl := Option.some.inj (show some _ = some s from h)
  intro hn
  cases hn with
  | pidFile entry hg hpid => cases hpid
  | record a record ref hget hx =>
    have h : (Records.put .empty (ensuredRecord "t0" ⟨"a", "sidecar", 1⟩)).get a =
        some record := or_self_iff.mp hget
    rw [Records.get_put] at h
    split at h
    · obtain rfl := Option.some.inj h
      cases hx
    · cases h
  | call c request phase hcall hnames =>
    rcases c with _ | c
    · obtain rfl := (Call.mk.inj (Option.some.inj hcall)).2
      cases hnames with
      | held hheld => cases hheld
      | ref hmem => cases hmem
    · cases hcall

/-- A unit ends by itself, its pid goes to another program, and the unit is destroyed. -/
def reusedPid : List Event :=
  [.call 0 (ensureOf "a" 1), .reply 0 (.stored "t0"), .reply 0 (.spawned 7), .reply 0 .done,
    .reply 0 (.stored "t1"), .reply 0 (.listed ["gen-1"]), .reply 0 .done, .clear 0,
    .exit 7, .start 7, .call 1 (destroyOf "a" 1 none), .reply 1 (.stored "t2")]

end Workbench.Provisioner
