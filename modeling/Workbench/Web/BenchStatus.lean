import Mathlib.Data.List.MinMax
import Mathlib.Data.List.Perm.Basic
import Mathlib.Tactic.Lemma

/-!
The status of a worker that works on several benches.

Each bench with the worker on it offers a status, and the one with the highest rank is shown. The
ranks are looked up by the text of a status. The text of a worker at work has an ellipsis, the one
in the table has none, so that its rank is that of a text the table does not have.
-/

namespace Workbench.Web.BenchStatus

inductive AvatarStatus
  | working
  | ready
  | idle
  deriving DecidableEq, Repr

structure WorkerStatus where
  tone : AvatarStatus
  text : String
  deriving DecidableEq, Repr

inductive ParticipantKind
  | person
  | agent
  deriving DecidableEq, Repr

inductive RedeployMode
  | auto
  | manual
  deriving DecidableEq, Repr

structure WorkbenchParticipant where
  id : String
  kind : ParticipantKind
  /-- empty for an agent that has nothing live -/
  address : String
  redeploy : Option RedeployMode
  deriving DecidableEq, Repr

inductive Author
  | me
  | other
  deriving DecidableEq, Repr

structure WorkbenchMessage where
  author : Author
  sentTime : String
  deriving DecidableEq, Repr

structure ApprovalRow where
  status : String
  agentAddress : String
  deriving DecidableEq, Repr

/-- What the queries about a bench have answered so far. -/
structure Bench where
  participants : Option (List WorkbenchParticipant)
  approvals : Option (List ApprovalRow)
  /-- when the pending turn was sent -/
  pending : Option ℤ
  timeline : Option (List WorkbenchMessage)

def pendingTurnTimeoutMs : ℤ := 10 * 60 * 1000

def rankTable : List (String × ℕ) :=
  [("Needs you", 3), ("Working", 2), ("Live", 1), ("Starting", 0), ("Stopped", 0)]

def rank (status : WorkerStatus) : ℕ := (rankTable.lookup status.text).getD 0

def stopped : WorkerStatus := ⟨.idle, "Stopped"⟩
def starting : WorkerStatus := ⟨.idle, "Starting"⟩
def needsYou : WorkerStatus := ⟨.ready, "Needs you"⟩
def working : WorkerStatus := ⟨.working, "Working…"⟩
def live : WorkerStatus := ⟨.idle, "Live"⟩

/-- What a rendering goes by; of `toLowerCase` and `Date.parse` nothing is used. -/
structure Rendering where
  toLowerCase : String → String
  dateParse : String → Option ℤ
  now : ℤ
  isWorker : WorkbenchParticipant → Bool

section

variable (R : Rendering)

def sameAddress (a b : String) : Bool := R.toLowerCase a = R.toLowerCase b

def turnAnswered (timeline : Option (List WorkbenchMessage)) (sentAt : ℤ) : Bool :=
  (timeline.getD []).any fun m => m.author = .other && (R.dateParse m.sentTime).any (sentAt < ·)

def parkedOnAsk (approvals : List ApprovalRow) (workerAddress : String) : Bool :=
  approvals.any fun row =>
    row.status = "pending" && sameAddress R row.agentAddress workerAddress

/-- The status that a bench offers. -/
def offerOf (bench : Bench) : Option WorkerStatus :=
  match (bench.participants.getD []).find? fun p => p.kind = .agent && R.isWorker p with
  | none => none
  | some agent =>
    if agent.address = "" then
      some (if agent.redeploy = some .manual then stopped else starting)
    else if parkedOnAsk R (bench.approvals.getD []) agent.address then some needsYou
    else
      match bench.pending with
      | none => some live
      | some sentAt =>
        if R.now < sentAt + pendingTurnTimeoutMs && !turnAnswered R bench.timeline sentAt
        then some working
        else some live

def offer (best : Option WorkerStatus) (status : WorkerStatus) : Option WorkerStatus :=
  match best with
  | none => some status
  | some best => if rank best < rank status then some status else some best

def offered (benches : List Bench) : List WorkerStatus :=
  benches.filterMap (offerOf R)

def useBenchWorkerStatus (benches : List Bench) : WorkerStatus :=
  ((offered R benches).foldl offer none).getD live

end

/-- Needs-you over working over live over starting or stopped. -/
def documentedRank (status : WorkerStatus) : ℕ :=
  if status = needsYou then 3
  else if status = working then 2
  else if status = live then 1
  else 0

variable {R : Rendering} {bench : Bench} {benches : List Bench}
  {status : WorkerStatus}

/-! ### What is offered -/

lemma offerOf_cases (h : offerOf R bench = some status) :
    status = needsYou ∨ status = working ∨ status = live ∨ status = starting ∨
      status = stopped := by
  unfold offerOf at h
  split at h
  · cases h
  · split_ifs at h with haddress hmanual hparked
    · obtain rfl := Option.some.inj h
      exact .inr (.inr (.inr (.inr rfl)))
    · obtain rfl := Option.some.inj h
      exact .inr (.inr (.inr (.inl rfl)))
    · obtain rfl := Option.some.inj h
      exact .inl rfl
    · split at h
      · obtain rfl := Option.some.inj h
        exact .inr (.inr (.inl rfl))
      · split_ifs at h <;> obtain rfl := Option.some.inj h
        · exact .inr (.inl rfl)
        · exact .inr (.inr (.inl rfl))

lemma offered_cases (h : status ∈ offered R benches) :
    status = needsYou ∨ status = working ∨ status = live ∨ status = starting ∨
      status = stopped := by
  obtain ⟨bench, -, hoffer⟩ := List.mem_filterMap.mp h
  exact offerOf_cases hoffer

/-- The table ranks a status as documented unless it is that of a worker at work. -/
lemma rank_eq (h : status ∈ offered R benches)
    (hworking : status ≠ working) : rank status = documentedRank status := by
  rcases offered_cases h with rfl | rfl | rfl | rfl | rfl
  · rfl
  · exact absurd rfl hworking
  all_goals rfl

lemma rank_working : rank working = 0 := rfl

lemma documentedRank_le : documentedRank status ≤ 3 := by
  unfold documentedRank
  split_ifs <;> omega

/-! ### What is shown -/

/-- The first of the offers with the highest rank. -/
lemma foldl_offer (statuses : List WorkerStatus) :
    statuses.foldl offer none = statuses.argmax rank := by
  unfold List.argmax
  congr 1
  funext best status
  cases best <;> rfl

variable (benches) in
lemma shown_spec (h : offered R benches ≠ []) :
    useBenchWorkerStatus R benches ∈
      (offered R benches).argmax rank := by
  rw [useBenchWorkerStatus, foldl_offer]
  cases hbest : (offered R benches).argmax rank with
  | none => exact absurd (List.argmax_eq_none.mp hbest) h
  | some best => rfl

variable (benches) in
lemma shown_mem (h : offered R benches ≠ []) :
    useBenchWorkerStatus R benches ∈
      offered R benches :=
  List.argmax_mem (shown_spec benches h)

lemma rank_le_shown (h : status ∈ offered R benches) :
    rank status ≤ rank (useBenchWorkerStatus R benches) :=
  List.le_of_mem_argmax h (shown_spec benches (List.ne_nil_of_mem h))

/-- What is shown is offered, and nothing that is offered outranks it. -/
def ShowsHighest (R : Rendering) (benches : List Bench) : Prop :=
  let shown := useBenchWorkerStatus R benches
  let statuses := offered R benches
  shown ∈ statuses ∧ ∀ status ∈ statuses, documentedRank status ≤ documentedRank shown

/-- The rank of what is shown does not depend on the order of the benches. -/
def OrderFree (R : Rendering) (benches : List Bench) : Prop :=
  ∀ reordered, reordered.Perm benches →
    documentedRank (useBenchWorkerStatus R reordered) =
      documentedRank (useBenchWorkerStatus R benches)

/-- Needs-you is offered, or working is not, or nothing else is. -/
def RankedApart (statuses : List WorkerStatus) : Prop :=
  needsYou ∈ statuses ∨ working ∉ statuses ∨ ∀ status ∈ statuses, status = working

lemma showsHighest_of_rankedApart
    (hne : offered R benches ≠ [])
    (h : RankedApart (offered R benches)) :
    ShowsHighest R benches := by
  have hshown := shown_mem benches hne
  refine ⟨hshown, fun status hstatus => ?_⟩
  have hle := rank_le_shown hstatus
  rcases h with hneeds | hworking | hall
  · -- nothing but needs-you has its rank
    have htop := rank_le_shown hneeds
    rcases offered_cases hshown with heq | heq | heq | heq | heq <;> rw [heq] at htop ⊢
    · exact documentedRank_le
    all_goals exact absurd htop (by decide)
  · rwa [rank_eq hstatus fun heq => hworking (heq ▸ hstatus),
      rank_eq hshown fun heq => hworking (heq ▸ hshown)] at hle
  · rw [hall _ hstatus, hall _ hshown]

lemma orderFree_of_rankedApart
    (hne : offered R benches ≠ [])
    (h : RankedApart (offered R benches)) :
    OrderFree R benches := by
  intro reordered hperm
  have hoffers : (offered R reordered).Perm
      (offered R benches) := hperm.filterMap _
  have hmem (status : WorkerStatus) := hoffers.mem_iff (a := status)
  have hne' : offered R reordered ≠ [] := by
    rintro hnil
    rw [hnil] at hoffers
    exact hne hoffers.nil_eq.symm
  have h' : RankedApart (offered R reordered) := by
    simpa only [RankedApart, hmem] using h
  obtain ⟨hin, hmax⟩ := showsHighest_of_rankedApart hne h
  obtain ⟨hin', hmax'⟩ := showsHighest_of_rankedApart hne' h'
  exact le_antisymm (hmax _ ((hmem _).mp hin')) (hmax' _ ((hmem _).mpr hin))

/-- A bench that comes first is only beaten by an offer of a higher rank. -/
lemma shown_of_first (hoffer : offerOf R bench = some status) :
    useBenchWorkerStatus R (bench :: benches) = status ∨
      rank status < rank (useBenchWorkerStatus R (bench :: benches)) := by
  have hfirst : offered R (bench :: benches) = status :: offered R benches := by
    rw [offered, List.filterMap_cons_some hoffer]
    rfl
  have hne : offered R (bench :: benches) ≠ [] := by
    rw [hfirst]
    exact List.cons_ne_nil _ _
  have hspec := shown_spec _ hne
  generalize useBenchWorkerStatus R (bench :: benches) = shown at hspec ⊢
  rw [hfirst, List.mem_argmax_iff] at hspec
  obtain ⟨-, -, hindex⟩ := hspec
  by_contra hnot
  obtain ⟨hother, hle⟩ := not_or.mp hnot
  have hidx := hindex status List.mem_cons_self (Nat.le_of_not_lt hle)
  rw [List.idxOf_cons_self, List.idxOf_cons_ne _ (Ne.symm hother)] at hidx
  omega

/-- With another offer beside working, one order of the benches shows something below working. -/
lemma rankedApart_of_highest (h : ShowsHighest R benches) (hfree : OrderFree R benches) :
    RankedApart (offered R benches) := by
  obtain ⟨hshown, hmax⟩ := h
  by_contra hnot
  simp only [RankedApart, not_or, not_not, not_forall] at hnot
  obtain ⟨hneeds, hworking, status, hstatus, hother⟩ := hnot
  obtain ⟨bench, hbench, hoffer⟩ := List.mem_filterMap.mp hstatus
  obtain ⟨before, after, rfl⟩ := List.append_of_mem hbench
  -- the bench that offers it comes first
  have hperm : (bench :: (before ++ after)).Perm (before ++ bench :: after) :=
    List.perm_middle.symm
  have hoffers : (offered R (bench :: (before ++ after))).Perm
      (offered R (before ++ bench :: after)) := hperm.filterMap _
  have hin : useBenchWorkerStatus R (bench :: (before ++ after)) ∈
      offered R (before ++ bench :: after) :=
    hoffers.mem_iff.mp (shown_mem _ (List.ne_nil_of_mem (hoffers.mem_iff.mpr hstatus)))
  have hle : documentedRank working ≤
      documentedRank (useBenchWorkerStatus R (bench :: (before ++ after))) :=
    hfree _ hperm ▸ hmax _ hworking
  have hfirst : useBenchWorkerStatus R (bench :: (before ++ after)) = status ∨
      rank status < rank (useBenchWorkerStatus R (bench :: (before ++ after))) :=
    shown_of_first hoffer
  generalize useBenchWorkerStatus R (bench :: (before ++ after)) = shown at hin hle hfirst
  -- so working is shown, but the table ranks it no higher than what comes first
  have hshown : shown = working := by
    rcases offered_cases hin with rfl | rfl | rfl | rfl | rfl
    · exact absurd hin hneeds
    · rfl
    all_goals exact absurd hle (by decide)
  rcases hfirst with heq | hlt
  · exact hother (heq.symm.trans hshown)
  · rw [hshown, rank_working] at hlt
    omega

/-- **The highest status is shown**, in any order of the benches, exactly when some status is
offered, and working is not offered beside others unless needs-you is among them. -/
theorem shows_highest_iff (R : Rendering) (benches : List Bench) :
    (ShowsHighest R benches ∧ OrderFree R benches) ↔
      offered R benches ≠ [] ∧ RankedApart (offered R benches) := by
  constructor
  · rintro ⟨hhighest, hfree⟩
    exact ⟨List.ne_nil_of_mem hhighest.1, rankedApart_of_highest hhighest hfree⟩
  · rintro ⟨hne, hapart⟩
    exact ⟨showsHighest_of_rankedApart hne hapart, orderFree_of_rankedApart hne hapart⟩

def someWorker : WorkbenchParticipant := ⟨"asset1", .agent, "run_1@bench", none⟩

/-- One second after a message was sent. -/
def someRendering : Rendering := ⟨id, fun _ => none, 1000, fun p => p.id = "asset1"⟩

/-- On one bench the worker waits for mail, on the other it works on a message. -/
def busyAndWaiting : List Bench :=
  [⟨some [someWorker], none, none, none⟩, ⟨some [someWorker], none, some 0, some []⟩]

theorem busy_shown_as_live : working ∈ offered someRendering busyAndWaiting ∧
    useBenchWorkerStatus someRendering busyAndWaiting = live ∧
    ¬ ShowsHighest someRendering busyAndWaiting := by
  have hworking : working ∈ offered someRendering busyAndWaiting := by decide
  have hshown : useBenchWorkerStatus someRendering busyAndWaiting = live := by decide
  refine ⟨hworking, hshown, fun h => ?_⟩
  have hle := h.2 _ hworking
  rw [hshown] at hle
  exact absurd hle (by decide)

end Workbench.Web.BenchStatus
