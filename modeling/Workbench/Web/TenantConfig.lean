import Workbench.Lib.Concurrent
import Workbench.Lib.Json
import Workbench.Lib.OrderedMap

/-!
Setting one key of a tenant's configuration.

A call reads the configuration and sends all of it back with its own key set. The hub merges what
is sent, key by key, into what it holds then: a key that another call has set in between is set
back to what was read.
-/

namespace Workbench.Web.TenantConfig

open Workbench.Lib Workbench.Lib.Transition

variable {ν : Type}

/-- The keys of a tenant's configuration; a tenant may have none. -/
abbrev Config (ν : Type) := Option (OrderedMap String (Json ν))

def Config.get (config : Config ν) (key : String) : Option (Json ν) :=
  config.bind fun entries => entries.get key

inductive TenantRequest (ν : Type)
  /-- `GET` of the tenant -/
  | detail
  /-- `PATCH` of the tenant -/
  | patch (config : OrderedMap String (Json ν))

/-- Both are answered with the tenant, of which only the configuration is read. -/
def TenantAnswers (ν : Type) : TenantRequest ν → Type := fun _ => Config ν

def serve : (q : TenantRequest ν) → Config ν → TenantAnswers ν q × Config ν
  | .detail, stored => (stored, stored)
  | .patch config, stored =>
    let merged : Config ν := some ((stored.getD .empty).merge config)
    (merged, merged)

/-- A request that must be answered. -/
def apiRequest (q : TenantRequest ν) (verb : String) :
    Client (TenantAnswers ν) String (Config ν) :=
  .ask q fun
    | .answered detail => .done (.ok detail)
    | .refused => .fail ("The server answered with an error while " ++ verb)
    | .threw => .fail ("No answer while " ++ verb)

def fetchTenantDetail : Client (TenantAnswers ν) String (Config ν) :=
  apiRequest .detail "loading tenant detail"

/-- What a call sends, when this is what it has read. -/
def withKey (config : Config ν) (key value : String) : OrderedMap String (Json ν) :=
  (config.getD .empty).set key (.string value)

def sendPatch (key value : String) (current : Config ν) :
    Client (TenantAnswers ν) String (Config ν) :=
  apiRequest (.patch (withKey current key value)) "updating tenant configuration"

def patchTenantConfigKey (key value : String) : Client (TenantAnswers ν) String (Config ν) :=
  fetchTenantDetail.bind (sendPatch key value)

/-! ### Two calls -/

inductive Caller
  | one
  | two
  deriving DecidableEq

def Caller.other : Caller → Caller
  | one => two
  | two => one

structure Patch where
  key : String
  value : String

abbrev Patching (ν : Type) := Concurrent Caller (TenantAnswers ν) String (Config ν) (Config ν)

def start (patch : Caller → Patch) (config : Config ν) : Patching ν where
  call c := patchTenantConfigKey (patch c).key (patch c).value
  server := config

/-- Both values are there, and the rest is as it was. -/
structure Kept (patch : Caller → Patch) (before after : Config ν) : Prop where
  written : ∀ c, after.get (patch c).key = some (.string (patch c).value)
  others : ∀ key, (∀ c, key ≠ (patch c).key) → after.get key = before.get key

def BothReturn (s : Patching ν) : Prop := ∀ c, ∃ detail, s.call c = .done (.ok detail)

/-- One call has written before the other reads. -/
def Apart (order : List Caller) : Prop := ∃ c : Caller, order = [c, c, c.other, c.other]

/-- The configuration holds no other value yet under the key that is written first. -/
def FirstIsNew (patch : Caller → Patch) (config : Config ν) (order : List Caller) : Prop :=
  ∀ c ∈ order[2]?, ∀ value ∈ config.get (patch c).key, value = .string (patch c).value

variable {patch : Caller → Patch} {config current stored : Config ν} {s t : Patching ν}
  {c d : Caller} {events : List (Caller × Delivery)} {key value : String}

lemma Caller.eq_other_of_ne (h : d ≠ c) : d = c.other := by
  cases c <;> cases d <;> simp_all [Caller.other]

@[simp] lemma Caller.other_other (c : Caller) : c.other.other = c := by
  cases c <;> rfl

lemma Caller.other_ne (c : Caller) : c.other ≠ c := by
  cases c <;> simp [Caller.other]

/-! ### What is stored -/

lemma get_withKey (k : String) :
    (withKey current key value).get k =
      if k = key then some (.string value) else current.get k := by
  rw [withKey, OrderedMap.get_set]
  cases current with
  | none => simp [Config.get]
  | some entries => rfl

/-- What a patch leaves: its own key, then what was read, then what was stored. -/
lemma get_patched (k : String) :
    (serve (.patch (withKey current key value)) stored).2.get k =
      if k = key then some (.string value) else (current.get k <|> stored.get k) := by
  have hstored : (stored.getD .empty).get k = stored.get k := by
    cases stored <;> rfl
  change ((stored.getD .empty).merge (withKey current key value)).get k = _
  rw [OrderedMap.get_merge, get_withKey, hstored]
  split <;> rfl

/-- What stands in the configuration after a patch by a call that has read `current`. -/
def patched (patch : Caller → Patch) (c : Caller) (current stored : Config ν) : Config ν :=
  (serve (.patch (withKey current (patch c).key (patch c).value)) stored).2

lemma kept_apart (hkeys : ∀ c, (patch c).key ≠ (patch (Caller.other c)).key) :
    Kept patch config (patched patch c.other (patched patch c config config)
      (patched patch c config config)) := by
  have hget (k : String) : (patched patch c.other (patched patch c config config)
      (patched patch c config config)).get k =
        if k = (patch c.other).key then some (.string (patch c.other).value)
        else if k = (patch c).key then some (.string (patch c).value) else config.get k := by
    simp only [patched, get_patched]
    split_ifs <;> simp
  constructor
  · intro d
    rw [hget]
    by_cases hd : d = c
    · rw [hd, if_neg (hkeys c), if_pos rfl]
    · rw [Caller.eq_other_of_ne hd, if_pos rfl]
  · intro key hkey
    rw [hget, if_neg (hkey c.other), if_neg (hkey c)]

lemma kept_overlapping (hkeys : ∀ c, (patch c).key ≠ (patch (Caller.other c)).key) :
    Kept patch config (patched patch c.other config (patched patch c config config)) ↔
      ∀ value ∈ config.get (patch c).key, value = .string (patch c).value := by
  have hget (k : String) : (patched patch c.other config (patched patch c config config)).get k =
      if k = (patch c.other).key then some (.string (patch c.other).value)
      else (config.get k <|> if k = (patch c).key then some (.string (patch c).value)
        else config.get k) := by
    simp only [patched, get_patched]
    split_ifs <;> simp
  have hfirst : (patched patch c.other config (patched patch c config config)).get (patch c).key =
      (config.get (patch c).key <|> some (.string (patch c).value)) := by
    rw [hget, if_neg (hkeys c), if_pos rfl]
  constructor
  · intro hkept value hvalue
    have hwritten := hkept.written c
    rw [hfirst, Option.mem_def.mp hvalue] at hwritten
    simpa using hwritten
  · intro hnew
    constructor
    · intro d
      by_cases hd : d = c
      · rw [hd, hfirst]
        cases hvalue : config.get (patch c).key with
        | none => rfl
        | some value => simpa using hnew value hvalue
      · rw [Caller.eq_other_of_ne hd, hget, if_pos rfl]
    · intro key hkey
      rw [hget, if_neg (hkey c.other), if_neg (hkey c)]
      cases config.get key <;> rfl

/-! ### A run of two calls -/

/-- A call that is still to send something goes on only by an answer. -/
lemma answered_of_return {q : TenantRequest ν}
    {next : Reply (TenantAnswers ν q) → Client (TenantAnswers ν) String (Config ν)}
    {delivery : Delivery} (hcall : s.call c = .ask q next)
    (hrefused : ∃ e, next .refused = .fail e) (hthrew : ∃ e, next .threw = .fail e)
    (h : run (Concurrent.step serve) s ((c, delivery) :: events) = some t)
    (hreturn : BothReturn t) :
    run (Concurrent.step serve) ⟨Function.update s.call c (next (.answered (serve q s.server).1)),
      (serve q s.server).2⟩ events = some t := by
  rw [run_cons, Concurrent.step_of_ask hcall, Option.bind_some] at h
  have hgoes : ∀ e, next (Client.deliver serve s.server q delivery).1 ≠ .fail e := by
    intro e hfails
    obtain ⟨detail, hdetail⟩ := hreturn c
    have hdone := Concurrent.call_of_run h ((Function.update_self c _ _).trans hfails)
    simp [hdetail] at hdone
  cases delivery with
  | answered => exact h
  | refused => exact absurd hrefused.choose_spec (hgoes _)
  | unreached | lost => exact absurd hthrew.choose_spec (hgoes _)

lemma read_of_return {delivery : Delivery}
    (hcall : s.call c = patchTenantConfigKey (patch c).key (patch c).value)
    (h : run (Concurrent.step serve) s ((c, delivery) :: events) = some t)
    (hreturn : BothReturn t) :
    run (Concurrent.step serve) ⟨Function.update s.call c
      (sendPatch (patch c).key (patch c).value s.server), s.server⟩ events = some t :=
  answered_of_return hcall ⟨_, rfl⟩ ⟨_, rfl⟩ h hreturn

lemma patched_of_return {delivery : Delivery}
    (hcall : s.call c = sendPatch (patch c).key (patch c).value current)
    (h : run (Concurrent.step serve) s ((c, delivery) :: events) = some t)
    (hreturn : BothReturn t) :
    run (Concurrent.step serve) ⟨Function.update s.call c
      (.done (.ok (patched patch c current s.server))), patched patch c current s.server⟩ events =
        some t :=
  answered_of_return hcall ⟨_, rfl⟩ ⟨_, rfl⟩ h hreturn

/-- While a call has something to send, the run goes on. -/
lemma exists_event {q : TenantRequest ν}
    {next : Reply (TenantAnswers ν q) → Client (TenantAnswers ν) String (Config ν)}
    (hcall : s.call c = .ask q next)
    (h : run (Concurrent.step serve) s events = some t) (hreturn : BothReturn t) :
    ∃ d delivery rest, events = (d, delivery) :: rest ∧ ∀ result, s.call d ≠ .done result := by
  cases events with
  | nil =>
    obtain rfl := Option.some.inj h
    obtain ⟨detail, hdetail⟩ := hreturn c
    simp [hcall] at hdetail
  | cons e rest =>
    obtain ⟨d, delivery⟩ := e
    refine ⟨d, delivery, rest, rfl, fun result hdone => ?_⟩
    simp [run_cons, Concurrent.step_of_done hdone] at h

/-- The end of a run in which only one call is left, and that has read. -/
lemma last_of_return (hcall : s.call c = sendPatch (patch c).key (patch c).value current)
    (hother : ∃ result, s.call c.other = .done result)
    (h : run (Concurrent.step serve) s events = some t) (hreturn : BothReturn t) :
    events.map Prod.fst = [c] ∧ t.server = patched patch c current s.server := by
  obtain ⟨d, delivery, rest, rfl, hlive⟩ := exists_event hcall h hreturn
  obtain ⟨result, hresult⟩ := hother
  have hd : d = c := by
    by_contra hne
    exact hlive result (Caller.eq_other_of_ne hne ▸ hresult)
  subst hd
  have hlast := patched_of_return hcall h hreturn
  obtain ⟨rfl, rfl⟩ := Concurrent.run_of_ended hlast fun i => by
    by_cases hi : i = d
    · subst hi
      exact ⟨_, Function.update_self i _ _⟩
    · exact ⟨result, (Function.update_of_ne hi _ _).trans (Caller.eq_other_of_ne hi ▸ hresult)⟩
  exact ⟨rfl, rfl⟩

/-- The run from where one call has returned and the other has not begun. -/
lemma second_of_return {result : Except String (Config ν)} (hdone : s.call c = .done result)
    (hcall : s.call c.other = patchTenantConfigKey (patch c.other).key (patch c.other).value)
    (h : run (Concurrent.step serve) s events = some t) (hreturn : BothReturn t) :
    events.map Prod.fst = [c.other, c.other] ∧
      t.server = patched patch c.other s.server s.server := by
  obtain ⟨d, delivery, rest, rfl, hlive⟩ := exists_event hcall h hreturn
  obtain rfl : d = c.other := Caller.eq_other_of_ne fun hd => hlive result (hd ▸ hdone)
  have hrest := read_of_return hcall h hreturn
  have hstill : Function.update s.call c.other (sendPatch (patch c.other).key
      (patch c.other).value s.server) c.other.other = .done result := by
    rw [Caller.other_other, Function.update_of_ne c.other_ne.symm, hdone]
  obtain ⟨horder, hserver⟩ := last_of_return (Function.update_self c.other _ _) ⟨_, hstill⟩ hrest
    hreturn
  exact ⟨by rw [List.map_cons, horder], hserver⟩

/-- The run from where both calls have read. -/
lemma writes_of_return
    (hcalls : ∀ c, s.call c = sendPatch (patch c).key (patch c).value current)
    (h : run (Concurrent.step serve) s events = some t) (hreturn : BothReturn t) :
    ∃ c, events.map Prod.fst = [c, c.other] ∧
      t.server = patched patch c.other current (patched patch c current s.server) := by
  obtain ⟨c, delivery, rest, rfl, -⟩ := exists_event (hcalls .one) h hreturn
  have hrest := patched_of_return (hcalls c) h hreturn
  have hdone : Function.update s.call c (.done (.ok (patched patch c current s.server)))
      c.other.other = .done (.ok (patched patch c current s.server)) := by
    rw [Caller.other_other, Function.update_self]
  obtain ⟨horder, hserver⟩ := last_of_return
    ((Function.update_of_ne c.other_ne _ _).trans (hcalls c.other)) ⟨_, hdone⟩ hrest hreturn
  exact ⟨c, by rw [List.map_cons, horder], hserver⟩

/-- The second call reads what the first has written, or both have read before the first writes. -/
lemma cases_of_return (h : run (Concurrent.step serve) (start patch config) events = some t)
    (hreturn : BothReturn t) :
    (∃ c, events.map Prod.fst = [c, c, c.other, c.other] ∧
      t.server = patched patch c.other (patched patch c config config)
        (patched patch c config config)) ∨
    ∃ b c, events.map Prod.fst = [b, b.other, c, c.other] ∧
      t.server = patched patch c.other config (patched patch c config config) := by
  obtain ⟨a, delivery, rest, rfl, -⟩ := exists_event (s := start patch config) (c := .one) rfl h
    hreturn
  have hfirst : (start patch config).call a =
      patchTenantConfigKey (patch a).key (patch a).value := rfl
  have hread := read_of_return hfirst h hreturn
  have hother : Function.update (start patch config).call a
      (sendPatch (patch a).key (patch a).value config) a.other =
        patchTenantConfigKey (patch a.other).key (patch a.other).value :=
    Function.update_of_ne a.other_ne _ _
  have hself := Function.update_self a (sendPatch (patch a).key (patch a).value config)
    (start patch config).call
  obtain ⟨b, delivery', rest, rfl, -⟩ := exists_event hself hread hreturn
  by_cases hb : b = a
  · subst hb
    have hwritten := patched_of_return hself hread hreturn
    obtain ⟨horder, hserver⟩ := second_of_return (Function.update_self b _ _)
      ((Function.update_of_ne b.other_ne _ _).trans hother) hwritten hreturn
    exact .inl ⟨b, by rw [List.map_cons, List.map_cons, horder], hserver⟩
  · obtain rfl := Caller.eq_other_of_ne hb
    have hboth := read_of_return hother hread hreturn
    have hcalls : ∀ d, Function.update (Function.update (start patch config).call a
        (sendPatch (patch a).key (patch a).value config)) a.other
          (sendPatch (patch a.other).key (patch a.other).value config) d =
        sendPatch (patch d).key (patch d).value config := by
      intro d
      by_cases hd : d = a
      · subst hd
        exact (Function.update_of_ne d.other_ne.symm _ _).trans hself
      · rw [Caller.eq_other_of_ne hd]
        exact Function.update_self _ _ _
    obtain ⟨c, horder, hserver⟩ := writes_of_return hcalls hboth hreturn
    exact .inr ⟨a, c, by rw [List.map_cons, List.map_cons, horder], hserver⟩

def describeAndName : Caller → Patch
  | .one => ⟨"workbench.description", "A new bench"⟩
  | .two => ⟨"workbench.worker.name", "Scout"⟩

/-- The tenant has a description already. -/
def described : Config ℕ :=
  some (OrderedMap.empty.set "workbench.description" (.string "An old bench"))

def answered (order : List Caller) : List (Caller × Delivery) :=
  order.map fun c => (c, Delivery.answered)

end Workbench.Web.TenantConfig
