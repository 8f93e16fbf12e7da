import Workbench.Lib.Transition
import Mathlib.Logic.Function.Basic

/-!
The first message of a workbench, which is parked until its agent is live.

The message is in the storage of the browser, a view reads it when it is mounted or turned to the
workbench, and what a view sends goes on after the view has gone. That a message has been tried is
remembered in the view alone: a view that comes while a send is in flight reads the message again.
-/

namespace Workbench.Web.PendingOpeningMessage

open Workbench.Lib Workbench.Lib.Transition

structure Session where
  workbenchTenantId : String
  text : Option String
  timedOut : Bool
  deriving DecidableEq, Repr

inductive SendStatus
  /-- the request is in flight -/
  | sending
  /-- the message is sent and cleared, and the queries are read again -/
  | delivered
  | success
  | error
  deriving DecidableEq, Repr

/-- A run of the mutation, which outlives the view that has started it. -/
structure Send where
  view : ℕ
  targetTenantId : String
  content : String
  status : SendStatus
  deriving DecidableEq, Repr

/-- A mounted `PendingOpeningMessage`. -/
structure View where
  session : Session
  attemptedTenantId : Option String
  /-- the last run of its mutation -/
  send : Option ℕ
  live : Bool
  deriving DecidableEq, Repr

structure State where
  /-- the session storage, by tenant -/
  storage : String → Option String
  views : ℕ → Option View
  sends : ℕ → Option Send
  nextView : ℕ
  nextSend : ℕ
  /-- what has ever been parked -/
  parked : String → Option String
  /-- what has been sent with success -/
  delivered : String → List String

def init : State :=
  ⟨fun _ => none, fun _ => none, fun _ => none, 0, 0, fun _ => none, fun _ => []⟩

inductive Event
  /-- a workbench is created with an opening message -/
  | park (tenantId text : String)
  | mount (tenantId : String) (live : Bool)
  | unmount (view : ℕ)
  /-- a view is rendered for a workbench whose agent is live or not -/
  | render (view : ℕ) (tenantId : String) (live : Bool)
  | effect (view : ℕ)
  | timeout (view : ℕ)
  /-- the person presses the button -/
  | retry (view : ℕ)
  /-- the request of a send succeeds -/
  | deliver (send : ℕ)
  /-- the mutation of a send succeeds -/
  | settle (send : ℕ)
  | fail (send : ℕ)
  deriving DecidableEq, Repr

namespace State

variable (s : State)

def createPendingOpeningMessageSession (tenantId : String) : Session where
  workbenchTenantId := tenantId
  text := s.storage tenantId
  timedOut := false

def syncPendingOpeningMessageSession (session : Session) (tenantId : String) : Session :=
  if session.workbenchTenantId = tenantId then session
  else s.createPendingOpeningMessageSession tenantId

def setView (v : ℕ) (view : Option View) : State :=
  { s with views := Function.update s.views v view }

def setSend (i : ℕ) (send : Send) : State :=
  { s with sends := Function.update s.sends i (some send) }

def statusOf (view : View) : Option SendStatus := (view.send.bind s.sends).map (·.status)

def isPending (view : View) : Bool :=
  s.statusOf view = some .sending || s.statusOf view = some .delivered

def isError (view : View) : Bool := s.statusOf view = some .error

/-- `send.mutate` -/
def mutate (v : ℕ) (view : View) (content : String) : State :=
  { (s.setSend s.nextSend ⟨v, view.session.workbenchTenantId, content, .sending⟩).setView v
      (some { view with send := some s.nextSend }) with
    nextSend := s.nextSend + 1 }

/-- The effect of a view. -/
def runEffect (v : ℕ) (view : View) : State :=
  match view.session.text with
  | none => s
  | some text =>
    if !view.live || view.attemptedTenantId = some view.session.workbenchTenantId ||
        s.isPending view then s
    else s.mutate v { view with attemptedTenantId := some view.session.workbenchTenantId } text

/-- The button is there while the message has not been sent. -/
def hasFailed (view : View) : Bool :=
  s.isError view || view.session.timedOut && !view.live

/-- The button sends again when the agent is live, and takes the time from the start. -/
def runRetry (v : ℕ) (view : View) (text : String) : State :=
  let next := { view with session := { view.session with timedOut := false } }
  if view.live then s.mutate v next text else s.setView v (some next)

/-- A send is through: the message is cleared. -/
def deliverSend (i : ℕ) (send : Send) : State :=
  { s.setSend i { send with status := .delivered } with
    storage := Function.update s.storage send.targetTenantId none
    delivered := Function.update s.delivered send.targetTenantId
      (s.delivered send.targetTenantId ++ [send.content]) }

/-- `onSuccess`: the view that has sent shows the message no longer, if it is still there. -/
def settleSend (i : ℕ) (send : Send) : State :=
  let next := s.setSend i { send with status := .success }
  match s.views send.view with
  | none => next
  | some view =>
    if view.session.workbenchTenantId = send.targetTenantId then
      next.setView send.view (some { view with session := { view.session with text := none } })
    else next

end State

def step (s : State) : Event → Option State
  | .park tenantId text =>
    if (s.parked tenantId).isSome then none
    else some { s with
      storage := Function.update s.storage tenantId (some text)
      parked := Function.update s.parked tenantId (some text) }
  | .mount tenantId live =>
    some { s.setView s.nextView (some ⟨s.createPendingOpeningMessageSession tenantId, none, none,
        live⟩) with nextView := s.nextView + 1 }
  | .unmount v => (s.views v).map fun _ => s.setView v none
  | .render v tenantId live => (s.views v).map fun view =>
      s.setView v (some { view with
        session := s.syncPendingOpeningMessageSession view.session tenantId
        live := live })
  | .effect v => (s.views v).map fun view => s.runEffect v view
  | .timeout v => (s.views v).map fun view =>
      s.setView v (some { view with session := { view.session with timedOut := true } })
  | .retry v =>
    match s.views v with
    | none => none
    | some view =>
      match view.session.text with
      | none => none
      | some text => if s.hasFailed view then some (s.runRetry v view text) else none
  | .deliver i =>
    match s.sends i with
    | none => none
    | some send => if send.status = .sending then some (s.deliverSend i send) else none
  | .settle i =>
    match s.sends i with
    | none => none
    | some send => if send.status = .delivered then some (s.settleSend i send) else none
  | .fail i =>
    match s.sends i with
    | none => none
    | some send =>
      if send.status = .sending then some (s.setSend i { send with status := .error }) else none

/-! ### Sent once -/

/-- No message is sent twice, and one that is gone from the storage has been sent. -/
structure State.SentOnce (s : State) : Prop where
  atMost : ∀ tenantId, (s.delivered tenantId).length ≤ 1
  removed : ∀ tenantId text, s.parked tenantId = some text → s.storage tenantId = none →
    s.delivered tenantId = [text]

/-- A view has the message of a workbench to send. -/
def State.Holds (s : State) (v : ℕ) (tenantId : String) : Prop :=
  ∃ view, s.views v = some view ∧ view.session.workbenchTenantId = tenantId ∧
    view.session.text ≠ none

/-- A message of a workbench is in flight. -/
def State.Sending (s : State) (i : ℕ) (tenantId : String) : Prop :=
  ∃ send, s.sends i = some send ∧ send.targetTenantId = tenantId ∧ send.status = .sending

/-- The message of a workbench is not there, or nobody is about to send it. -/
def State.Free (s : State) (tenantId : String) : Prop :=
  s.storage tenantId = none ∨ (∀ v, ¬ s.Holds v tenantId) ∧ ∀ i, ¬ s.Sending i tenantId

/-- No view takes up a message that another one has, or that is in flight. -/
def takesUpFree (s : State) : Event → Prop
  | .mount tenantId _ => s.Free tenantId
  | .render v tenantId _ => ∀ view, s.views v = some view →
      view.session.workbenchTenantId = tenantId ∨ s.Free tenantId
  | _ => True

/-! ### What a step can do -/

/-- The steps, by what they do to the messages, the views and the sends. -/
inductive Changes (s : State) : Event → State → Prop
  | parks {tenantId text} (new : s.parked tenantId = none) :
      Changes s (.park tenantId text) { s with
        storage := Function.update s.storage tenantId (some text)
        parked := Function.update s.parked tenantId (some text) }
  | mounts {tenantId live} : Changes s (.mount tenantId live)
      { s.setView s.nextView (some ⟨s.createPendingOpeningMessageSession tenantId, none, none,
        live⟩) with nextView := s.nextView + 1 }
  | moves {v tenantId live} (view : View) (mounted : s.views v = some view)
    (other : view.session.workbenchTenantId ≠ tenantId) : Changes s (.render v tenantId live)
      (s.setView v (some { view with
        session := s.createPendingOpeningMessageSession tenantId, live := live }))
  | unmounts {v} : Changes s (.unmount v) (s.setView v none)
  | keeps {e v} (view next : View) (mounted : s.views v = some view)
    (tenant : next.session.workbenchTenantId = view.session.workbenchTenantId)
    (text : next.session.text = view.session.text) (send : next.send = view.send) :
    Changes s e (s.setView v (some next))
  | nothing {e} : Changes s e s
  | mutates {e v} (view next : View) (content : String) (mounted : s.views v = some view)
    (tenant : next.session.workbenchTenantId = view.session.workbenchTenantId)
    (text : next.session.text = view.session.text) (holds : view.session.text = some content)
    (idle : s.isPending view = false) : Changes s e (s.mutate v next content)
  | delivers {i} (send : Send) (sending : s.sends i = some send) (status : send.status = .sending) :
    Changes s (.deliver i) (s.deliverSend i send)
  | settles {i} (send : Send) (delivered : s.sends i = some send)
    (status : send.status = .delivered) : Changes s (.settle i) (s.settleSend i send)
  | fails {i} (send : Send) (sending : s.sends i = some send) (status : send.status = .sending) :
    Changes s (.fail i) (s.setSend i { send with status := .error })

variable {s t : State} {e : Event} {v v' i j : ℕ} {view : View} {send : Send} {tenantId : String}

lemma isPending_of_isError (h : s.isError view) : s.isPending view = false := by
  simp only [State.isError, decide_eq_true_eq] at h
  simp [State.isPending, h]

/-- What a send is told happens to a send that there is. -/
lemma send_of_step {status : SendStatus} {next : Send → State}
    (h : (match s.sends i with
      | none => none
      | some send => if send.status = status then some (next send) else none) = some t) :
    ∃ send, s.sends i = some send ∧ send.status = status ∧ next send = t := by
  split at h
  · cases h
  · next send hsend =>
    obtain ⟨hstatus, ht⟩ := Option.ite_none_right_eq_some.mp h
    exact ⟨send, hsend, hstatus, Option.some.inj ht⟩

/-- **Every step is one of these.** -/
lemma changes_of_step (h : step s e = some t) : Changes s e t := by
  cases e with
  | park tenantId text =>
    simp only [step, Option.ite_none_left_eq_some, Option.some.injEq] at h
    obtain ⟨hnew, rfl⟩ := h
    exact .parks (Option.not_isSome_iff_eq_none.mp hnew)
  | mount tenantId live =>
    obtain rfl := Option.some.inj h
    exact .mounts
  | unmount v =>
    obtain ⟨view, -, rfl⟩ := Option.map_eq_some_iff.mp h
    exact .unmounts
  | render v tenantId live =>
    obtain ⟨view, hview, rfl⟩ := Option.map_eq_some_iff.mp h
    unfold State.syncPendingOpeningMessageSession
    split_ifs with htenant
    · exact .keeps view _ hview rfl rfl rfl
    · exact .moves view hview htenant
  | effect v =>
    obtain ⟨view, hview, rfl⟩ := Option.map_eq_some_iff.mp h
    unfold State.runEffect
    split
    · exact .nothing
    · next text htext =>
      split_ifs with hblocked
      · exact .nothing
      · simp only [Bool.or_eq_true, not_or, Bool.not_eq_true] at hblocked
        exact .mutates view _ text hview rfl rfl htext hblocked.2
  | timeout v =>
    obtain ⟨view, hview, rfl⟩ := Option.map_eq_some_iff.mp h
    exact .keeps view _ hview rfl rfl rfl
  | retry v =>
    simp only [step] at h
    split at h
    · cases h
    · next view hview =>
      split at h
      · cases h
      · next text htext =>
        simp only [Option.ite_none_right_eq_some, Option.some.injEq] at h
        obtain ⟨hfailed, rfl⟩ := h
        unfold State.runRetry
        split_ifs with hlive
        · have herror : s.isError view := by simpa [State.hasFailed, hlive] using hfailed
          exact .mutates view _ text hview rfl rfl htext (isPending_of_isError herror)
        · exact .keeps view _ hview rfl rfl rfl
  | deliver i =>
    obtain ⟨send, hsend, hstatus, rfl⟩ := send_of_step h
    exact .delivers send hsend hstatus
  | settle i =>
    obtain ⟨send, hsend, hstatus, rfl⟩ := send_of_step h
    exact .settles send hsend hstatus
  | fail i =>
    obtain ⟨send, hsend, hstatus, rfl⟩ := send_of_step h
    exact .fails send hsend hstatus

/-! ### Views and their sends -/

/-- A send that has not come to its end: its mutation is pending. -/
def Send.Unsettled (send : Send) : Prop := send.status = .sending ∨ send.status = .delivered

/-- The numbers are in use up to the next one, and a mounted view sees the send of its own that has
not come to its end. -/
structure State.Orderly (s : State) : Prop where
  sends : ∀ i send, s.sends i = some send → i < s.nextSend
  views : ∀ v view, s.views v = some view → v < s.nextView
  senders : ∀ i send, s.sends i = some send → send.view < s.nextView
  observed : ∀ v view i send, s.views v = some view → s.sends i = some send → send.view = v →
    send.Unsettled → view.send = some i
  own : ∀ v view i, s.views v = some view → view.send = some i →
    ∃ send, s.sends i = some send ∧ send.view = v

lemma settled_of_idle (hidle : s.isPending view = false) (hobserved : view.send = some i)
    (hsend : s.sends i = some send) : ¬ send.Unsettled := by
  rintro (hs | hs) <;> simp [State.isPending, State.statusOf, hobserved, hsend, hs] at hidle

lemma State.Orderly.step (h : s.Orderly) (hc : Changes s e t) : t.Orderly := by
  obtain ⟨hsends, hviews, hsenders, hobserved, hown⟩ := h
  cases hc with
  | parks new => exact ⟨hsends, hviews, hsenders, hobserved, hown⟩
  | mounts =>
    constructor <;> simp only [State.setView, Function.update_apply] <;> grind
  | moves view mounted other =>
    constructor <;> simp only [State.setView, Function.update_apply] <;> grind
  | unmounts =>
    constructor <;> simp only [State.setView, Function.update_apply] <;> grind
  | keeps view next mounted tenant text send =>
    constructor <;> simp only [State.setView, Function.update_apply] <;> grind
  | nothing => exact ⟨hsends, hviews, hsenders, hobserved, hown⟩
  | @mutates _ v view next content mounted tenant text holds idle =>
    -- what the view has sent before has come to its end
    have hsettled : ∀ i send, s.sends i = some send → send.view = v → ¬ send.Unsettled := by
      intro i send hsend hv hunsettled
      exact settled_of_idle idle (hobserved v view i send mounted hsend hv hunsettled) hsend
        hunsettled
    constructor
    case own =>
      intro w view' i hview hi
      simp only [State.mutate, State.setView, State.setSend, Function.update_apply] at hview ⊢
      split_ifs at hview with hw
      · obtain rfl := Option.some.inj hview
        obtain rfl := Option.some.inj hi
        exact ⟨_, if_pos rfl, hw.symm⟩
      · obtain ⟨send, hsend, hv⟩ := hown w view' i hview hi
        exact ⟨send, by rw [if_neg (Nat.ne_of_lt (hsends i send hsend)), hsend], hv⟩
    all_goals
      simp only [State.mutate, State.setView, State.setSend, Function.update_apply]
      grind
  | delivers send sending status =>
    constructor <;> simp only [State.deliverSend, State.setSend, Function.update_apply] <;>
      grind [Send.Unsettled]
  | settles send delivered status =>
    unfold State.settleSend
    split
    · constructor <;> simp only [State.setSend, Function.update_apply] <;> grind [Send.Unsettled]
    · split_ifs
      · constructor <;> simp only [State.setSend, State.setView, Function.update_apply] <;>
          grind [Send.Unsettled]
      · constructor <;> simp only [State.setSend, Function.update_apply] <;> grind [Send.Unsettled]
  | fails send sending status =>
    constructor <;> simp only [State.setSend, Function.update_apply] <;> grind [Send.Unsettled]

/-! ### Messages that have been parked -/

/-- What is stored, shown or sent is the message that has been parked. -/
structure State.Genuine (s : State) : Prop where
  stored : ∀ tenantId text, s.storage tenantId = some text → s.parked tenantId = some text
  held : ∀ v view text, s.views v = some view → view.session.text = some text →
    s.parked view.session.workbenchTenantId = some text
  sent : ∀ i send, s.sends i = some send → s.parked send.targetTenantId = some send.content

lemma State.Genuine.step (h : s.Genuine) (hc : Changes s e t) : t.Genuine := by
  obtain ⟨hstored, hheld, hsent⟩ := h
  cases hc with
  | parks new =>
    constructor <;> simp only [Function.update_apply] <;> grind
  | mounts | moves | unmounts | keeps =>
    constructor <;> simp only [State.setView, State.createPendingOpeningMessageSession,
      Function.update_apply] <;> grind
  | nothing => exact ⟨hstored, hheld, hsent⟩
  | mutates view next content mounted tenant text holds idle =>
    constructor <;> simp only [State.mutate, State.setView, State.setSend,
      Function.update_apply] <;> grind
  | delivers send sending status =>
    constructor <;> simp only [State.deliverSend, State.setSend, Function.update_apply] <;> grind
  | settles send delivered status =>
    unfold State.settleSend
    split
    · constructor <;> simp only [State.setSend, Function.update_apply] <;> grind
    · split_ifs
      · constructor <;> simp only [State.setSend, State.setView, Function.update_apply] <;> grind
      · constructor <;> simp only [State.setSend, Function.update_apply] <;> grind
  | fails send sending status =>
    constructor <;> simp only [State.setSend, Function.update_apply] <;> grind

/-! ### One at a time -/

/-- A view sees this send. -/
def State.Observes (s : State) (v i : ℕ) : Prop :=
  ∃ view, s.views v = some view ∧ view.send = some i

/-- A message of a workbench has been sent, and the view is still to be told. -/
def State.Settling (s : State) (i : ℕ) (tenantId : String) : Prop :=
  ∃ send, s.sends i = some send ∧ send.targetTenantId = tenantId ∧ send.status = .delivered

/-- One view at most has a message, and one send of it at most is in flight, which that view sees;
when the message has been sent, the view is about to be told. -/
structure State.Exclusive (s : State) : Prop where
  there : ∀ tenantId, s.delivered tenantId = [] → s.storage tenantId = s.parked tenantId
  gone : ∀ tenantId, s.delivered tenantId ≠ [] → s.storage tenantId = none ∧
    ∃ text, s.parked tenantId = some text ∧ s.delivered tenantId = [text]
  unsent : ∀ i tenantId, s.Sending i tenantId → s.delivered tenantId = []
  oneSending : ∀ i j tenantId, s.Sending i tenantId → s.Sending j tenantId → i = j
  oneHolder : ∀ v v' tenantId, s.Holds v tenantId → s.Holds v' tenantId → v = v'
  sender : ∀ v i tenantId, s.Holds v tenantId → s.Sending i tenantId → s.Observes v i
  settling : ∀ v tenantId, s.Holds v tenantId → s.delivered tenantId ≠ [] →
    ∃ i, s.Observes v i ∧ s.Settling i tenantId

/-- A view has a message for itself, and nothing is known of a send of it. -/
structure State.Alone (s t : State) (v : ℕ) (tenantId : String) : Prop where
  holder : ∀ v', t.Holds v' tenantId → v' = v
  notSending : ∀ i, ¬ s.Sending i tenantId
  unsent : s.delivered tenantId = []

/-- A step that leaves the messages and starts no send keeps them one at a time, if a view that has
a message now had it before or has it for itself. -/
lemma State.Exclusive.frame (h : s.Exclusive) (hstorage : t.storage = s.storage)
    (hparked : t.parked = s.parked) (hdelivered : t.delivered = s.delivered)
    (hsending : ∀ i tenantId, t.Sending i tenantId → s.Sending i tenantId)
    (hholds : ∀ v tenantId, t.Holds v tenantId →
      s.Holds v tenantId ∨ State.Alone s t v tenantId)
    (hobserves : ∀ v i tenantId, t.Holds v tenantId → s.Observes v i → t.Observes v i)
    (hsettling : ∀ v i tenantId, t.Holds v tenantId → s.Observes v i → s.Settling i tenantId →
      t.Settling i tenantId) : t.Exclusive where
  there := by
    rw [hstorage, hparked, hdelivered]
    exact h.there
  gone := by
    rw [hstorage, hparked, hdelivered]
    exact h.gone
  unsent i tenantId hi := by
    rw [hdelivered]
    exact h.unsent i tenantId (hsending i tenantId hi)
  oneSending i j tenantId hi hj :=
    h.oneSending i j tenantId (hsending i tenantId hi) (hsending j tenantId hj)
  oneHolder v v' tenantId hv hv' := by
    rcases hholds v tenantId hv with hold | halone
    · rcases hholds v' tenantId hv' with hold' | halone'
      · exact h.oneHolder v v' tenantId hold hold'
      · exact halone'.holder v hv
    · exact (halone.holder v' hv').symm
  sender v i tenantId hv hi := by
    rcases hholds v tenantId hv with hold | halone
    · exact hobserves v i tenantId hv (h.sender v i tenantId hold (hsending i tenantId hi))
    · exact absurd (hsending i tenantId hi) (halone.notSending i)
  settling v tenantId hv hsent := by
    rw [hdelivered] at hsent
    rcases hholds v tenantId hv with hold | halone
    · obtain ⟨i, hi, hsettles⟩ := h.settling v tenantId hold hsent
      exact ⟨i, hobserves v i tenantId hv hi, hsettling v i tenantId hv hi hsettles⟩
    · exact absurd halone.unsent hsent

section Views

variable {next : View} {o : Option View} {w : ℕ}

lemma holds_setView_of_ne (h : w ≠ v) : (s.setView v o).Holds w tenantId ↔ s.Holds w tenantId := by
  simp only [State.Holds, State.setView, Function.update_of_ne h]

lemma holds_setView_self : (s.setView v (some next)).Holds v tenantId ↔
    next.session.workbenchTenantId = tenantId ∧ next.session.text ≠ none := by
  simp [State.Holds, State.setView]

lemma observes_setView_of_ne (h : w ≠ v) : (s.setView v o).Observes w i ↔ s.Observes w i := by
  simp only [State.Observes, State.setView, Function.update_of_ne h]

lemma observes_setView_self : (s.setView v (some next)).Observes v i ↔ next.send = some i := by
  simp [State.Observes, State.setView]

/-- A view that keeps its message, or loses it, and still sees its send. -/
lemma State.Exclusive.setView (h : s.Exclusive) (hview : s.views v = some view)
    (hholds : ∀ tenantId, (s.setView v (some next)).Holds v tenantId →
      s.Holds v tenantId ∨ State.Alone s (s.setView v (some next)) v tenantId)
    (hsend : next.send = view.send) : (s.setView v (some next)).Exclusive := by
  refine h.frame rfl rfl rfl (fun _ _ => id) (fun w u hw => ?_) (fun w i u _ hw => ?_)
    (fun _ _ _ _ _ => id)
  · by_cases hwv : w = v
    · subst hwv
      exact hholds u hw
    · exact .inl ((holds_setView_of_ne hwv).mp hw)
  · by_cases hwv : w = v
    · subst hwv
      obtain ⟨view', hview', hi⟩ := hw
      obtain rfl := Option.some.inj (hview.symm.trans hview')
      exact observes_setView_self.2 (hsend.trans hi)
    · exact (observes_setView_of_ne hwv).mpr hw

end Views

/-- A message that is still stored has not been sent. -/
lemma State.Exclusive.unsent_of_stored (h : s.Exclusive) {text : String}
    (hstored : s.storage tenantId = some text) : s.delivered tenantId = [] := by
  by_contra hsent
  rw [(h.gone tenantId hsent).1] at hstored
  cases hstored

/-- A view that takes up a message nobody is about to send has it for itself. -/
lemma State.Exclusive.alone (h : s.Exclusive) (hfree : s.Free tenantId)
    (hold : ∀ w, w ≠ v → t.Holds w tenantId → s.Holds w tenantId)
    (hstored : s.storage tenantId ≠ none) : State.Alone s t v tenantId := by
  obtain ⟨text, htext⟩ := Option.ne_none_iff_exists'.mp hstored
  obtain hnone | ⟨hholder, hsending⟩ := hfree
  · exact absurd hnone hstored
  · refine ⟨fun w hw => ?_, hsending, h.unsent_of_stored htext⟩
    by_contra hwv
    exact hholder w (hold w hwv hw)

/-- What a view that is idle has is neither sent nor in flight. -/
lemma State.Exclusive.free_of_idle (h : s.Exclusive) (hview : s.views v = some view)
    (hidle : s.isPending view = false) (hholds : s.Holds v tenantId) :
    (∀ i, ¬ s.Sending i tenantId) ∧ s.delivered tenantId = [] := by
  have hown : ∀ i send, s.Observes v i → s.sends i = some send → ¬ send.Unsettled := by
    rintro i send ⟨view', hview', hi⟩ hsend
    obtain rfl := Option.some.inj (hview.symm.trans hview')
    exact settled_of_idle hidle hi hsend
  constructor
  · intro i hi
    have hobserves := h.sender v i tenantId hholds hi
    obtain ⟨send, hsend, -, hstatus⟩ := hi
    exact hown i send hobserves hsend (.inl hstatus)
  · by_contra hsent
    obtain ⟨i, hi, send, hsend, -, hstatus⟩ := h.settling v tenantId hholds hsent
    exact hown i send hi hsend (.inr hstatus)

lemma State.Exclusive.mutate (h : s.Exclusive) (ho : s.Orderly) {next : View} {content : String}
    (hview : s.views v = some view)
    (htenant : next.session.workbenchTenantId = view.session.workbenchTenantId)
    (hcontent : view.session.text = some content)
    (hidle : s.isPending view = false) : (s.mutate v next content).Exclusive := by
  have hheld : s.Holds v next.session.workbenchTenantId :=
    ⟨view, hview, htenant.symm, by simp [hcontent]⟩
  obtain ⟨hnone, hunsent⟩ := h.free_of_idle hview hidle hheld
  have hfresh : ∀ i send, s.sends i = some send → i ≠ s.nextSend := fun i send hi =>
    Nat.ne_of_lt (ho.sends i send hi)
  have hholds : ∀ w u, (s.mutate v next content).Holds w u → s.Holds w u := by
    rintro w u ⟨view', hview', hu, hne⟩
    simp only [State.mutate, State.setView, State.setSend, Function.update_apply] at hview'
    split_ifs at hview' with hw
    · obtain rfl := Option.some.inj hview'
      exact ⟨view, hw ▸ hview, htenant ▸ hu, by simp [hcontent]⟩
    · exact ⟨view', hview', hu, hne⟩
  have hsending : ∀ i u, (s.mutate v next content).Sending i u →
      s.Sending i u ∨ (i = s.nextSend ∧ u = next.session.workbenchTenantId) := by
    rintro i u ⟨send, hsend, hu, hstatus⟩
    simp only [State.mutate, State.setView, State.setSend, Function.update_apply] at hsend
    split_ifs at hsend with hi
    · obtain rfl := Option.some.inj hsend
      exact .inr ⟨hi, hu.symm⟩
    · exact .inl ⟨send, hsend, hu, hstatus⟩
  -- the view itself has no other message, and all others see what they saw
  have hobserves : ∀ w i u, s.Holds w u → u ≠ next.session.workbenchTenantId → s.Observes w i →
      (s.mutate v next content).Observes w i := by
    rintro w i u ⟨view', hview', hu, -⟩ hne ⟨view'', hview'', hi⟩
    obtain rfl := Option.some.inj (hview'.symm.trans hview'')
    have hwv : w ≠ v := by
      rintro rfl
      obtain rfl := Option.some.inj (hview.symm.trans hview')
      exact hne (hu.symm.trans htenant.symm)
    refine ⟨view', ?_, hi⟩
    simp only [State.mutate, State.setView, State.setSend, Function.update_of_ne hwv, hview']
  refine ⟨h.there, h.gone, fun i u hi => ?_, fun i j u hi hj => ?_, fun w w' u hw hw' => ?_,
    fun w i u hw hi => ?_, fun w u hw hsent => ?_⟩
  · rcases hsending i u hi with hi | ⟨-, rfl⟩
    · exact h.unsent i u hi
    · exact hunsent
  · rcases hsending i u hi with hi | ⟨rfl, rfl⟩
    · rcases hsending j u hj with hj | ⟨-, rfl⟩
      · exact h.oneSending i j u hi hj
      · exact absurd hi (hnone i)
    · rcases hsending j _ hj with hj | ⟨rfl, -⟩
      · exact absurd hj (hnone j)
      · rfl
  · exact h.oneHolder w w' u (hholds w u hw) (hholds w' u hw')
  · rcases hsending i u hi with hi | ⟨rfl, rfl⟩
    · have hne : u ≠ next.session.workbenchTenantId := by
        rintro rfl
        exact hnone i hi
      exact hobserves w i u (hholds w u hw) hne (h.sender w i u (hholds w u hw) hi)
    · obtain rfl := h.oneHolder w v _ (hholds w _ hw) hheld
      refine ⟨{ next with send := some s.nextSend }, ?_, rfl⟩
      simp [State.mutate, State.setView]
  · have hne : u ≠ next.session.workbenchTenantId := by
      rintro rfl
      exact hsent hunsent
    obtain ⟨i, hi, send, hsend, hu, hstatus⟩ := h.settling w u (hholds w u hw) hsent
    refine ⟨i, hobserves w i u (hholds w u hw) hne hi, send, ?_, hu, hstatus⟩
    simp only [State.mutate, State.setView, State.setSend,
      Function.update_of_ne (hfresh i send hsend), hsend]

lemma State.Exclusive.deliverSend (h : s.Exclusive) (hg : s.Genuine) (hsend : s.sends i = some send)
    (hstatus : send.status = .sending) : (s.deliverSend i send).Exclusive := by
  have hown : s.Sending i send.targetTenantId := ⟨send, hsend, rfl, hstatus⟩
  have hunsent := h.unsent i _ hown
  have hsending : ∀ j u, (s.deliverSend i send).Sending j u →
      s.Sending j u ∧ u ≠ send.targetTenantId := by
    rintro j u ⟨other, hother, hu, hsending⟩
    simp only [State.deliverSend, State.setSend, Function.update_apply] at hother
    split_ifs at hother with hj
    · obtain rfl := Option.some.inj hother
      cases hsending
    · have hold : s.Sending j u := ⟨other, hother, hu, hsending⟩
      refine ⟨hold, ?_⟩
      rintro rfl
      exact hj (h.oneSending j i _ hold hown)
  have hdelivered : ∀ u, u ≠ send.targetTenantId →
      (s.deliverSend i send).delivered u = s.delivered u ∧
        (s.deliverSend i send).storage u = s.storage u := fun u hu =>
    ⟨Function.update_of_ne hu _ _, Function.update_of_ne hu _ _⟩
  have hsent : (s.deliverSend i send).delivered send.targetTenantId = [send.content] := by
    simp [State.deliverSend, hunsent]
  refine ⟨fun u hu => ?_, fun u hu => ?_, fun j u hj => ?_, fun j k u hj hk => ?_, h.oneHolder,
    fun w j u hw hj => h.sender w j u hw (hsending j u hj).1, fun w u hw hne => ?_⟩
  · by_cases heq : u = send.targetTenantId
    · rw [heq, hsent] at hu
      cases hu
    · rw [(hdelivered u heq).1] at hu
      exact (hdelivered u heq).2.trans (h.there u hu)
  · by_cases heq : u = send.targetTenantId
    · subst heq
      exact ⟨Function.update_self _ _ _, send.content, hg.sent i send hsend, hsent⟩
    · rw [(hdelivered u heq).1] at hu
      rw [(hdelivered u heq).1, (hdelivered u heq).2]
      exact h.gone u hu
  · obtain ⟨hj, hne⟩ := hsending j u hj
    rw [(hdelivered u hne).1]
    exact h.unsent j u hj
  · exact h.oneSending j k u (hsending j u hj).1 (hsending k u hk).1
  · by_cases heq : u = send.targetTenantId
    · subst heq
      refine ⟨i, h.sender w i _ hw hown, { send with status := .delivered }, ?_, rfl, rfl⟩
      simp [State.deliverSend, State.setSend]
    · rw [(hdelivered u heq).1] at hne
      obtain ⟨j, hj, other, hother, hu, hsettling⟩ := h.settling w u hw hne
      have hji : j ≠ i := by
        rintro rfl
        obtain rfl := Option.some.inj (hsend.symm.trans hother)
        rw [hstatus] at hsettling
        cases hsettling
      refine ⟨j, hj, other, ?_, hu, hsettling⟩
      simp only [State.deliverSend, State.setSend, Function.update_of_ne hji, hother]

/-- A send that has not been seen to end, and ends now. -/
lemma State.Exclusive.setSend (h : s.Exclusive) (hsend : s.sends i = some send) {next : Send}
    (hnext : next.status ≠ .sending)
    (hseen : ∀ v tenantId, s.Holds v tenantId → s.Observes v i → ¬ s.Settling i tenantId) :
    (s.setSend i next).Exclusive := by
  refine h.frame rfl rfl rfl ?_ (fun _ _ => .inl) (fun _ _ _ _ => id) ?_
  · rintro j u ⟨other, hother, hu, hstatus⟩
    simp only [State.setSend, Function.update_apply] at hother
    split_ifs at hother with hj
    · obtain rfl := Option.some.inj hother
      exact absurd hstatus hnext
    · exact ⟨other, hother, hu, hstatus⟩
  · rintro v j u hv hobserves hsettling
    have hji : j ≠ i := by
      rintro rfl
      exact hseen v u hv hobserves hsettling
    obtain ⟨other, hother, hu, hstatus⟩ := hsettling
    exact ⟨other, by simp only [State.setSend, Function.update_of_ne hji, hother], hu, hstatus⟩

/-- When the view is told, it has the message no longer. -/
lemma State.Exclusive.settleSend (h : s.Exclusive) (ho : s.Orderly)
    (hsend : s.sends i = some send) : (s.settleSend i send).Exclusive := by
  have hview : ∀ v, s.Observes v i → v = send.view := by
    rintro v ⟨view, hview, hi⟩
    obtain ⟨other, hother, hv⟩ := ho.own v view i hview hi
    obtain rfl := Option.some.inj (hsend.symm.trans hother)
    exact hv.symm
  have htarget : ∀ u, s.Settling i u → send.targetTenantId = u := by
    rintro u ⟨other, hother, hu, -⟩
    obtain rfl := Option.some.inj (hsend.symm.trans hother)
    exact hu
  unfold State.settleSend
  split
  · next hgone =>
    refine h.setSend hsend (by simp) fun v u ⟨view, hmounted, _⟩ hobserves => ?_
    rw [hview v hobserves, hgone] at hmounted
    cases hmounted
  · next view hmounted =>
    split_ifs with htenant
    · -- the view shows the message no longer, and then the send may be forgotten
      have hcleared : (s.setView send.view (some { view with
          session := { view.session with text := none } })).Exclusive := by
        refine h.setView hmounted (fun u hu => ?_) rfl
        exact absurd rfl (holds_setView_self.1 hu).2
      have htold : ((s.setView send.view (some { view with
          session := { view.session with text := none } })).setSend i
            { send with status := .success }).Exclusive := by
        refine hcleared.setSend hsend (by simp) fun v u hv hobserves hsettling => ?_
        by_cases hvs : v = send.view
        · subst hvs
          exact (holds_setView_self.1 hv).2 rfl
        · exact hvs (hview v ((observes_setView_of_ne hvs).mp hobserves))
      exact htold
    · refine h.setSend hsend (by simp) fun v u hv hobserves hsettling => ?_
      obtain ⟨view', hmounted', hu, -⟩ := hv
      rw [hview v hobserves] at hmounted'
      obtain rfl := Option.some.inj (hmounted.symm.trans hmounted')
      exact htenant (hu.trans (htarget u hsettling).symm)

/-- **One step** keeps the messages one at a time. -/
lemma State.Exclusive.step (h : s.Exclusive) (ho : s.Orderly) (hg : s.Genuine)
    (hguard : takesUpFree s e) (hc : Changes s e t) : t.Exclusive := by
  cases hc with
  | @parks u text new =>
    have hunsent : s.delivered u = [] := by
      by_contra hsent
      obtain ⟨-, parked, hparked, -⟩ := h.gone u hsent
      rw [new] at hparked
      cases hparked
    refine ⟨fun w hw => ?_, fun w hw => ?_, h.unsent, h.oneSending, h.oneHolder, h.sender,
      h.settling⟩
    · by_cases heq : w = u
      · subst heq
        simp only [Function.update_self]
      · simp only [Function.update_of_ne heq]
        exact h.there w hw
    · have heq : w ≠ u := by
        rintro rfl
        exact hw hunsent
      simp only [Function.update_of_ne heq]
      exact h.gone w hw
  | @mounts u live =>
    have hnew : s.views s.nextView = none := by
      cases hview : s.views s.nextView with
      | none => rfl
      | some view => exact absurd (ho.views _ view hview) (Nat.lt_irrefl _)
    refine h.frame rfl rfl rfl (fun _ _ => id) (fun v w hv => ?_) (fun v i w _ hi => ?_)
      (fun _ _ _ _ _ => id)
    · by_cases hvn : v = s.nextView
      · subst hvn
        obtain ⟨rfl, hstored⟩ := holds_setView_self.1 hv
        exact .inr (h.alone hguard (fun v hvn => (holds_setView_of_ne hvn).mp) hstored)
      · exact .inl ((holds_setView_of_ne hvn).mp hv)
    · have hvn : v ≠ s.nextView := by
        rintro rfl
        obtain ⟨view, hview, -⟩ := hi
        rw [hnew] at hview
        cases hview
      exact (observes_setView_of_ne hvn).mpr hi
  | @moves v u live view mounted other =>
    refine h.setView mounted (fun w hw => ?_) rfl
    obtain ⟨rfl, hstored⟩ := holds_setView_self.1 hw
    have hfree := (hguard view mounted).resolve_left other
    exact .inr (h.alone hfree (fun v hvn => (holds_setView_of_ne hvn).mp) hstored)
  | @unmounts v =>
    have hne : ∀ w u, (s.setView v none).Holds w u → w ≠ v := by
      rintro w u ⟨view, hview, -⟩ rfl
      simp [State.setView] at hview
    exact h.frame rfl rfl rfl (fun _ _ => id)
      (fun w u hw => .inl ((holds_setView_of_ne (hne w u hw)).mp hw))
      (fun w i u hw => (observes_setView_of_ne (hne w u hw)).mpr) (fun _ _ _ _ _ => id)
  | @keeps _ v view next mounted tenant text send =>
    refine h.setView mounted (fun w hw => .inl ⟨view, mounted, ?_⟩) send
    rw [← tenant, ← text]
    exact holds_setView_self.1 hw
  | nothing => exact h
  | mutates view next content mounted tenant text holds idle =>
    exact h.mutate ho mounted tenant holds idle
  | delivers send sending status => exact h.deliverSend hg sending status
  | settles send delivered status => exact h.settleSend ho delivered
  | @fails i send sending status =>
    refine h.setSend sending (by simp) fun v u _ _ ⟨other, hother, _, hsettling⟩ => ?_
    obtain rfl := Option.some.inj (sending.symm.trans hother)
    rw [status] at hsettling
    cases hsettling

/-- **An opening message is sent once**, and is gone from the storage only when it has been sent, in
every state of every run in which no view takes up a message that another view has or that is in
flight. -/
theorem openingMessage_sent_once (h : Reach step takesUpFree init s) : s.SentOnce := by
  have hinit : init.Orderly ∧ init.Genuine ∧ init.Exclusive := by
    refine ⟨?_, ?_, ?_⟩
    · constructor <;> simp [init]
    · constructor <;> simp [init]
    · constructor <;> simp [init, State.Holds, State.Sending]
  have hinv : s.Orderly ∧ s.Genuine ∧ s.Exclusive := by
    refine h.invariant (I := fun s => s.Orderly ∧ s.Genuine ∧ s.Exclusive) hinit ?_
    rintro s e t ⟨ho, hg, hx⟩ hguard hstep
    have hc := changes_of_step hstep
    exact ⟨ho.step hc, hg.step hc, hx.step ho hg hguard hc⟩
  obtain ⟨-, -, hx⟩ := hinv
  refine ⟨fun tenantId => ?_, fun tenantId text hparked hgone => ?_⟩
  · by_cases hsent : s.delivered tenantId = []
    · rw [hsent]
      exact Nat.zero_le 1
    · obtain ⟨-, text, -, hdelivered⟩ := hx.gone tenantId hsent
      rw [hdelivered]
      exact Nat.le_refl 1
  · by_cases hsent : s.delivered tenantId = []
    · rw [hx.there tenantId hsent, hparked] at hgone
      cases hgone
    · obtain ⟨-, text', hparked', hdelivered⟩ := hx.gone tenantId hsent
      obtain rfl := Option.some.inj (hparked.symm.trans hparked')
      exact hdelivered

/-- A first send that fails, and the button. -/
def sentAgain : List Event :=
  [.effect 0, .fail 0, .retry 0, .deliver 1, .settle 1, .unmount 0]

theorem openingMessage_sent_once_retried : ∃ s,
    run step init (.park "w" "Hello" :: .mount "w" true :: sentAgain) = some s ∧
      s.delivered "w" = ["Hello"] ∧ s.SentOnce := by
  have hparked : ∃ s t u, step init (.park "w" "Hello") = some s ∧ s.views = init.views ∧
      s.sends = init.sends ∧ step s (.mount "w" true) = some t ∧ run step t sentAgain = some u ∧
      u.delivered "w" = ["Hello"] := ⟨_, _, _, rfl, rfl, rfl, rfl, rfl, rfl⟩
  obtain ⟨s, t, u, hs, hviews, hsends, ht, hu, hdelivered⟩ := hparked
  -- nobody is there yet when the first view takes up the message
  have hfree : takesUpFree s (.mount "w" true) := by
    refine .inr ⟨?_, ?_⟩
    · rintro v ⟨view, hview, -⟩
      rw [hviews] at hview
      cases hview
    · rintro i ⟨send, hsend, -⟩
      rw [hsends] at hsend
      cases hsend
  have hrest : Reach step takesUpFree t u := by
    refine reach_of_allowed (fun e he s => ?_) hu
    simp only [sentAgain, List.mem_cons, List.not_mem_nil, or_false] at he
    rcases he with rfl | rfl | rfl | rfl | rfl | rfl <;> trivial
  have hpark : takesUpFree init (.park "w" "Hello") := trivial
  have hreach : Reach step takesUpFree init u := .head hpark hs (.head hfree ht hrest)
  refine ⟨u, ?_, hdelivered, openingMessage_sent_once hreach⟩
  rw [run_cons, hs, Option.bind_some, run_cons, ht, Option.bind_some, hu]

/-- The view is left and opened again while its send is in flight. -/
def reopened : List Event :=
  [.park "w" "Hello", .mount "w" true, .effect 0, .unmount 0, .mount "w" true, .effect 1,
    .deliver 0, .deliver 1]

/-- **A view that comes back** sends the message for the second time. -/
theorem reopened_sends_twice : ∃ s, run step init reopened = some s ∧
    s.delivered "w" = ["Hello", "Hello"] ∧ ¬ s.SentOnce := by
  have hrun : ∃ s, run step init reopened = some s ∧ s.delivered "w" = ["Hello", "Hello"] :=
    ⟨_, rfl, rfl⟩
  obtain ⟨s, hs, hdelivered⟩ := hrun
  refine ⟨s, hs, hdelivered, fun h => ?_⟩
  have hlength := h.atMost "w"
  rw [hdelivered] at hlength
  exact absurd hlength (by decide)

end Workbench.Web.PendingOpeningMessage
