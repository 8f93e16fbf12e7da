import Workbench.Lib.Json
import Workbench.Lib.Percent
import Mathlib.Data.List.Count
import Mathlib.Data.List.Dedup

/-!
A person's message from a mailbox, to runs and to other mailboxes.

Each run gets a request of its own, one after the other, and the mailboxes are served last and all
at once. A failure ends the delivery where it happens; what has been delivered before it stays
delivered.
-/

namespace Workbench.Hub.MailboxSend

open Workbench.Lib

/-! ### Addresses -/

structure Address where
  localPart : String
  domain : String
  deriving DecidableEq, Repr

def parseAddress (address : String) : Option Address :=
  let localPart := address.toList.takeWhile (· ≠ '@')
  match address.toList.drop localPart.length with
  | [] => none
  | _ :: domain =>
    if localPart.length = 0 ∨ domain.length = 0 then none
    else some ⟨String.ofList localPart, String.ofList domain⟩

/-- The run id of a run address. -/
def parseRunAddress (address : String) : Option String :=
  match parseAddress address with
  | some parsed =>
    if "run_".toList.isPrefixOf parsed.localPart.toList then some parsed.localPart else none
  | none => none

/-! ### Requests and their outcomes -/

structure OutgoingMailboxMessage where
  sender : String
  recipients : List String
  raw : List UInt8
  deriving DecidableEq

/-- What is read of the request that sends the message. -/
structure CapturedRequest where
  tenantId : Option String
  cookie : Option String
  authorization : Option String
  deriving DecidableEq, Repr

structure TriggerRequest where
  path : String
  headers : List (String × String)
  body : String
  deriving DecidableEq, Repr

/-- How the trigger of a run ends; one that fails may have reached the run or not. -/
inductive TriggerOutcome
  | ok
  | refused (status : ℕ) (detail : Option String) (received : Bool)
  | threw (error : String) (received : Bool)
  deriving DecidableEq, Repr

structure PersistRequest where
  senderAddress : String
  recipients : List String
  raw : List UInt8
  deriving DecidableEq

/-- How the persistence ends, with the mailboxes that have the message then. -/
inductive PersistOutcome
  | stored (rows : List String)
  | threw (error : String) (rows : List String)
  deriving DecidableEq, Repr

structure MailboxDeliverOpts where
  /-- the outcome of the n-th request -/
  request : ℕ → TriggerRequest → TriggerOutcome
  persistMail : PersistRequest → PersistOutcome

inductive DeliverError
  | outsideRequest
  | runTerminal
  | triggerFailed (message : String)
  | requestThrew (error : String)
  | persistThrew (error : String)
  deriving DecidableEq, Repr

/-- Who receives a message: a run is known by its id, whatever the domain behind it. -/
inductive Recipient
  | run (runId : String)
  | mailbox (address : String)
  deriving DecidableEq, Repr

/-! ### The frame -/

/-- What stands behind the first empty line. -/
def afterHeader : List Char → Option (List Char)
  | '\r' :: '\n' :: '\r' :: '\n' :: rest => some rest
  | _ :: rest => afterHeader rest
  | [] => none

def trimEnd (cs : List Char) : List Char := (cs.reverse.dropWhile NumberText.isTrimmed).reverse

def frameBody (raw : List UInt8) : String :=
  match afterHeader (Utf8.decode raw).toList with
  | some body => String.ofList (trimEnd body)
  | none => ""

/-- No number that is read or written matters here. -/
def noNumbers : Numerals Unit := ⟨fun _ => ['0'], fun _ => ()⟩

def isTerminalRun (status : ℕ) (detail : String) : Bool :=
  status = 409 &&
    match ((Json.parse noNumbers detail.toList).bind (Json.member "error")).bind
        (Json.member "code") with
    | some (.string code) => code = "workflow_run_terminal"
    | _ => false

/-! ### The delivery -/

def headersOf (c : CapturedRequest) : List (String × String) :=
  [("content-type", "application/json")] ++ (c.cookie.map fun value => ("cookie", value)).toList ++
    (c.authorization.map fun value => ("authorization", value)).toList

def triggerRequest (c : CapturedRequest) (content runId : String) : TriggerRequest where
  path := "/api/tenants/" ++ Percent.encodeURIComponent (c.tenantId.getD "") ++ "/workflows/" ++
    Percent.encodeURIComponent runId ++ "/mail"
  headers := headersOf c
  body := String.ofList (Json.stringify noNumbers (.object [("content", .string content)]))

/-- The error of a trigger that fails, and whether the run has received the message. -/
def TriggerOutcome.failure (runId : String) : TriggerOutcome → Option (DeliverError × Bool)
  | .ok => none
  | .refused status detail received =>
    let detail := detail.getD ""
    some (if isTerminalRun status detail then .runTerminal
      else .triggerFailed ("trigger for " ++ runId ++ " answered " ++
        String.ofList (NumberText.digits status) ++ ": " ++ detail), received)
  | .threw error received => some (.requestThrew error, received)

/-- The loop over the runs, from the n-th request on. -/
def triggerAll (ask : ℕ → String → TriggerOutcome) :
    ℕ → List String → Except DeliverError Unit × List Recipient
  | _, [] => (.ok (), [])
  | n, runId :: rest =>
    match (ask n runId).failure runId with
    | some (error, received) => (.error error, if received then [.run runId] else [])
    | none =>
      let (result, received) := triggerAll ask (n + 1) rest
      (result, .run runId :: received)

variable (opts : MailboxDeliverOpts) (captured : Option CapturedRequest)
  (message : OutgoingMailboxMessage)

def ask (c : CapturedRequest) (n : ℕ) (runId : String) : TriggerOutcome :=
  opts.request n (triggerRequest c (frameBody message.raw) runId)

def runsOf : List String := message.recipients.filterMap parseRunAddress

def othersOf : List String :=
  message.recipients.filter fun address => (parseRunAddress address).isNone

def triggerRuns : Except DeliverError Unit × List Recipient :=
  if (runsOf message).length = 0 then (.ok (), [])
  else
    match captured with
    | none => (.error .outsideRequest, [])
    | some c => triggerAll (ask opts message c) 0 (runsOf message)

def persistOthers : Except DeliverError Unit × List Recipient :=
  if (othersOf message).length = 0 then (.ok (), [])
  else
    match opts.persistMail ⟨message.sender, othersOf message, message.raw⟩ with
    | .stored rows => (.ok (), rows.map .mailbox)
    | .threw error rows => (.error (.persistThrew error), rows.map .mailbox)

/-- How a delivery ends, and who has received the message then. -/
def deliver : Except DeliverError Unit × List Recipient :=
  match triggerRuns opts captured message with
  | (.error error, received) => (.error error, received)
  | (.ok (), received) =>
    ((persistOthers opts message).1, received ++ (persistOthers opts message).2)

/-! ### All or nothing -/

def recipientOf (address : String) : Recipient :=
  match parseRunAddress address with
  | some runId => .run runId
  | none => .mailbox address

/-- After an error nobody has received the message, and without one everyone it is for has received
it once. -/
def AllOrNothing : Prop :=
  match (deliver opts captured message).1 with
  | .error _ => (deliver opts captured message).2 = []
  | .ok () => ∀ recipient ∈ message.recipients.map recipientOf,
      (deliver opts captured message).2.count recipient = 1

/-- What the persistence promises: each mailbox gets one row, however often it is named. -/
def StoresOnce : Prop :=
  ∀ request rows, opts.persistMail request = .stored rows →
    rows.Nodup ∧ ∀ address, address ∈ rows ↔ address ∈ request.recipients

/-- Every request succeeds, and no run is named twice. -/
structure AllAccepted : Prop where
  inside : runsOf message ≠ [] → captured ≠ none
  triggers : ∀ c, captured = some c → ∀ i runId, (runsOf message)[i]? = some runId →
    ask opts message c i runId = .ok
  persists : othersOf message ≠ [] → ∃ rows,
    opts.persistMail ⟨message.sender, othersOf message, message.raw⟩ = .stored rows
  distinct : (runsOf message).Nodup

/-- The delivery fails at the first thing it asks for, which reaches nobody. -/
inductive FailsAtOnce : Prop
  | outside (runs : runsOf message ≠ []) (outside : captured = none)
  | trigger {c runId rest error} (inside : captured = some c)
      (runs : runsOf message = runId :: rest)
      (fails : (ask opts message c 0 runId).failure runId = some (error, false))
  | persist {error} (runs : runsOf message = []) (others : othersOf message ≠ [])
      (fails : opts.persistMail ⟨message.sender, othersOf message, message.raw⟩ = .threw error [])

variable {opts : MailboxDeliverOpts} {captured : Option CapturedRequest}
  {message : OutgoingMailboxMessage} {asked : ℕ → String → TriggerOutcome} {n : ℕ}
  {runs : List String} {runId : String} {c : CapturedRequest}

lemma failure_eq_none {outcome : TriggerOutcome} :
    outcome.failure runId = none ↔ outcome = .ok := by
  cases outcome <;> simp [TriggerOutcome.failure]

/-- **How the loop ends**: behind the last run, or at the first that fails. -/
lemma triggerAll_cases (asked : ℕ → String → TriggerOutcome) (n : ℕ) (runs : List String) :
    ((∀ i runId, runs[i]? = some runId → asked (n + i) runId = .ok) ∧
        triggerAll asked n runs = (.ok (), runs.map .run)) ∨
      ∃ before runId after error received, runs = before ++ runId :: after ∧
        (asked (n + before.length) runId).failure runId = some (error, received) ∧
        triggerAll asked n runs =
          (.error error, before.map .run ++ if received then [.run runId] else []) := by
  induction runs generalizing n with
  | nil => exact .inl ⟨by simp, rfl⟩
  | cons runId runs ih =>
    cases hfailure : (asked n runId).failure runId with
    | some failure =>
      obtain ⟨error, received⟩ := failure
      refine .inr ⟨[], runId, runs, error, received, rfl, hfailure, ?_⟩
      simp [triggerAll, hfailure]
    | none =>
      rcases ih (n + 1) with
        ⟨hok, heq⟩ | ⟨before, failed, after, error, received, rfl, hfailed, heq⟩
      · refine .inl ⟨fun i other hi => ?_, by simp [triggerAll, hfailure, heq]⟩
        cases i with
        | zero =>
          obtain rfl := Option.some.inj hi
          exact failure_eq_none.1 hfailure
        | succ i =>
          have hnext := hok i other hi
          rwa [Nat.add_assoc, Nat.add_comm 1 i] at hnext
      · refine .inr ⟨runId :: before, failed, after, error, received, rfl, ?_, ?_⟩
        · rwa [List.length_cons, Nat.add_comm before.length 1, ← Nat.add_assoc]
        · simp [triggerAll, hfailure, heq]

/-- How the part before the mailboxes ends. -/
lemma triggerRuns_cases (opts : MailboxDeliverOpts) (captured : Option CapturedRequest)
    (message : OutgoingMailboxMessage) :
    ((runsOf message ≠ [] → captured ≠ none) ∧
        (∀ c, captured = some c → ∀ i runId, (runsOf message)[i]? = some runId →
          ask opts message c i runId = .ok) ∧
        triggerRuns opts captured message = (.ok (), (runsOf message).map .run)) ∨
      (runsOf message ≠ [] ∧ captured = none ∧
        triggerRuns opts captured message = (.error .outsideRequest, [])) ∨
      ∃ c before runId after error received, captured = some c ∧
        runsOf message = before ++ runId :: after ∧
        (ask opts message c before.length runId).failure runId = some (error, received) ∧
        triggerRuns opts captured message =
          (.error error, before.map .run ++ if received then [.run runId] else []) := by
  unfold triggerRuns
  split_ifs with hlength
  · have hnil := List.eq_nil_of_length_eq_zero hlength
    rw [hnil]
    exact .inl ⟨by simp, by simp, rfl⟩
  · have hne : runsOf message ≠ [] := fun hnil => hlength (by rw [hnil]; rfl)
    cases captured with
    | none => exact .inr (.inl ⟨hne, rfl, rfl⟩)
    | some c =>
      rcases triggerAll_cases (ask opts message c) 0 (runsOf message) with
        ⟨hok, heq⟩ | ⟨before, failed, after, error, received, hsplit, hfailed, heq⟩
      · refine .inl ⟨by simp, fun c' hc i runId hi => ?_, heq⟩
        obtain rfl := Option.some.inj hc
        have hasked := hok i runId hi
        rwa [Nat.zero_add] at hasked
      · rw [Nat.zero_add] at hfailed
        exact .inr (.inr ⟨c, before, failed, after, error, received, rfl, hsplit, hfailed, heq⟩)

lemma persistOthers_cases (opts : MailboxDeliverOpts) (message : OutgoingMailboxMessage) :
    (othersOf message = [] ∧ persistOthers opts message = (.ok (), [])) ∨
      (othersOf message ≠ [] ∧ ∃ rows,
        opts.persistMail ⟨message.sender, othersOf message, message.raw⟩ = .stored rows ∧
        persistOthers opts message = (.ok (), rows.map .mailbox)) ∨
      (othersOf message ≠ [] ∧ ∃ error rows,
        opts.persistMail ⟨message.sender, othersOf message, message.raw⟩ = .threw error rows ∧
        persistOthers opts message = (.error (.persistThrew error), rows.map .mailbox)) := by
  unfold persistOthers
  split_ifs with hlength
  · exact .inl ⟨List.eq_nil_of_length_eq_zero hlength, rfl⟩
  · have hne : othersOf message ≠ [] := fun hnil => hlength (by rw [hnil]; rfl)
    cases hpersist : opts.persistMail ⟨message.sender, othersOf message, message.raw⟩ with
    | stored rows => exact .inr (.inl ⟨hne, rows, rfl, rfl⟩)
    | threw error rows => exact .inr (.inr ⟨hne, error, rows, rfl, rfl⟩)

/-! ### Who a message is for -/

lemma run_mem_recipients :
    .run runId ∈ message.recipients.map recipientOf ↔ runId ∈ runsOf message := by
  rw [List.mem_map, runsOf, List.mem_filterMap]
  refine exists_congr fun address => and_congr_right fun _ => ?_
  unfold recipientOf
  cases parseRunAddress address <;> simp

lemma mailbox_mem_recipients {address : String} :
    .mailbox address ∈ message.recipients.map recipientOf ↔ address ∈ othersOf message := by
  rw [List.mem_map, othersOf, List.mem_filter]
  constructor
  · rintro ⟨other, hmem, heq⟩
    unfold recipientOf at heq
    cases hparse : parseRunAddress other with
    | some runId =>
      rw [hparse] at heq
      cases heq
    | none =>
      rw [hparse] at heq
      obtain rfl := Recipient.mailbox.inj heq
      exact ⟨hmem, by rw [hparse]; rfl⟩
  · rintro ⟨hmem, hnone⟩
    refine ⟨address, hmem, ?_⟩
    rw [recipientOf, Option.isNone_iff_eq_none.mp hnone]

lemma run_injective : Function.Injective Recipient.run := fun _ _ h => Recipient.run.inj h

lemma mailbox_injective : Function.Injective Recipient.mailbox :=
  fun _ _ h => Recipient.mailbox.inj h

/-- Everyone a message is for received it once exactly if no run is named twice. -/
lemma received_once_iff {rows : List String} (hnodup : rows.Nodup)
    (hrows : ∀ address, address ∈ rows ↔ address ∈ othersOf message) :
    (∀ recipient ∈ message.recipients.map recipientOf,
      ((runsOf message).map Recipient.run ++ rows.map Recipient.mailbox).count recipient = 1) ↔
      (runsOf message).Nodup := by
  have hrun (runId : String) :
      ((runsOf message).map Recipient.run ++ rows.map Recipient.mailbox).count
        (Recipient.run runId) = (runsOf message).count runId := by
    have hnone : (rows.map Recipient.mailbox).count (.run runId) = 0 :=
      List.count_eq_zero_of_not_mem (by simp)
    rw [List.count_append, List.count_map_of_injective _ _ run_injective, hnone, Nat.add_zero]
  have hmailbox (address : String) :
      ((runsOf message).map Recipient.run ++ rows.map Recipient.mailbox).count
        (Recipient.mailbox address) = rows.count address := by
    have hnone : ((runsOf message).map Recipient.run).count (.mailbox address) = 0 :=
      List.count_eq_zero_of_not_mem (by simp)
    rw [List.count_append, List.count_map_of_injective _ _ mailbox_injective, hnone, Nat.zero_add]
  constructor
  · intro h
    refine List.nodup_iff_count_eq_one.mpr fun runId hmem => ?_
    rw [← hrun]
    exact h _ (run_mem_recipients.2 hmem)
  · rintro hruns (runId | address) hmem
    · rw [hrun]
      exact List.count_eq_one_of_mem hruns (run_mem_recipients.1 hmem)
    · rw [hmailbox]
      exact List.count_eq_one_of_mem hnodup ((hrows _).mpr (mailbox_mem_recipients.1 hmem))

/-! ### Deliveries -/

lemma failsAtOnce_of_empty {before after : List String} {error : DeliverError} {received : Bool}
    (hcaptured : captured = some c) (hruns : runsOf message = before ++ runId :: after)
    (hfails : (ask opts message c before.length runId).failure runId = some (error, received))
    (hnobody : before.map Recipient.run ++ (if received then [.run runId] else []) = []) :
    FailsAtOnce opts captured message := by
  obtain ⟨hbefore, hreceived⟩ := List.append_eq_nil_iff.mp hnobody
  obtain rfl := List.map_eq_nil_iff.mp hbefore
  cases received with
  | true => cases hreceived
  | false => exact .trigger hcaptured hruns hfails

lemma conditions_of_allOrNothing (hstores : StoresOnce opts)
    (h : AllOrNothing opts captured message) :
    AllAccepted opts captured message ∨ FailsAtOnce opts captured message := by
  unfold AllOrNothing deliver at h
  rcases triggerRuns_cases opts captured message with
    ⟨hinside, htriggers, hruns⟩ | ⟨hne, houtside, -⟩ |
    ⟨c, before, runId, after, error, received, hcaptured, hsplit, hfails, hruns⟩
  · rw [hruns] at h
    rcases persistOthers_cases opts message with
      ⟨hothers, hpersist⟩ | ⟨hothers, rows, hstored, hpersist⟩ |
      ⟨hothers, error, rows, hthrew, hpersist⟩ <;> rw [hpersist] at h
    · refine .inl ⟨hinside, htriggers, fun hne => absurd hothers hne, ?_⟩
      exact (received_once_iff List.nodup_nil (by simp [hothers])).mp h
    · obtain ⟨hnodup, hrows⟩ := hstores _ _ hstored
      exact .inl ⟨hinside, htriggers, fun _ => ⟨rows, hstored⟩,
        (received_once_iff hnodup hrows).mp h⟩
    · -- the mailboxes are served last, so no run is named
      obtain ⟨hnoRun, hnoRow⟩ := List.append_eq_nil_iff.mp h
      obtain rfl := List.map_eq_nil_iff.mp hnoRow
      exact .inr (.persist (List.map_eq_nil_iff.mp hnoRun) hothers hthrew)
  · exact .inr (.outside hne houtside)
  · rw [hruns] at h
    exact .inr (failsAtOnce_of_empty hcaptured hsplit hfails h)

lemma allOrNothing_of_allAccepted (hstores : StoresOnce opts)
    (h : AllAccepted opts captured message) : AllOrNothing opts captured message := by
  unfold AllOrNothing deliver
  rcases triggerRuns_cases opts captured message with
    ⟨-, -, hruns⟩ | ⟨hne, houtside, -⟩ |
    ⟨c, before, runId, after, error, received, hcaptured, hsplit, hfails, -⟩
  · rw [hruns]
    rcases persistOthers_cases opts message with
      ⟨hothers, hpersist⟩ | ⟨hothers, rows, hstored, hpersist⟩ |
      ⟨hothers, error, rows, hthrew, -⟩
    · rw [hpersist]
      exact (received_once_iff List.nodup_nil (by simp [hothers])).mpr h.distinct
    · rw [hpersist]
      obtain ⟨hnodup, hrows⟩ := hstores _ _ hstored
      exact (received_once_iff hnodup hrows).mpr h.distinct
    · obtain ⟨rows', hstored⟩ := h.persists hothers
      rw [hthrew] at hstored
      cases hstored
  · exact absurd houtside (h.inside hne)
  · have hok : ask opts message c before.length runId = .ok :=
      h.triggers c hcaptured _ _ (by simp [hsplit])
    rw [failure_eq_none.2 hok] at hfails
    cases hfails

lemma allOrNothing_of_failsAtOnce (h : FailsAtOnce opts captured message) :
    AllOrNothing opts captured message := by
  unfold AllOrNothing deliver
  cases h with
  | outside hne houtside =>
    have hlength : (runsOf message).length ≠ 0 := fun h => hne (List.eq_nil_of_length_eq_zero h)
    have hruns : triggerRuns opts captured message = (.error .outsideRequest, []) := by
      unfold triggerRuns
      rw [if_neg hlength, houtside]
    rw [hruns]
  | @trigger c runId rest error hinside hsplit hfails =>
    have hruns : triggerRuns opts captured message = (.error error, []) := by
      unfold triggerRuns
      rw [hsplit, if_neg (by simp), hinside]
      simp [triggerAll, hfails]
    rw [hruns]
  | @persist error hnil hothers hfails =>
    have hlength : (othersOf message).length ≠ 0 :=
      fun h => hothers (List.eq_nil_of_length_eq_zero h)
    have hruns : triggerRuns opts captured message = (.ok (), []) := by
      unfold triggerRuns
      rw [hnil]
      rfl
    have hpersist : persistOthers opts message = (.error (.persistThrew error), []) := by
      unfold persistOthers
      rw [if_neg hlength, hfails]
      rfl
    rw [hruns, hpersist]
    rfl

def toTwoRuns : OutgoingMailboxMessage := ⟨"me@bench", ["run_a@bench", "run_b@bench"], []⟩

def session : CapturedRequest := ⟨some "t1", some "sid=1", none⟩

/-- The second run has finished. -/
def secondRefuses : MailboxDeliverOpts where
  request n _ := if n = 1 then .refused 409 (some "terminal") false else .ok
  persistMail request := .stored request.recipients.dedup

lemma storesOnce_secondRefuses : StoresOnce secondRefuses := by
  rintro request rows h
  obtain rfl := PersistOutcome.stored.inj h
  exact ⟨List.nodup_dedup _, fun address => List.mem_dedup⟩

end Workbench.Hub.MailboxSend
