import Workbench.Lib.Transition
import Workbench.Web.ShadowOffering

/-!
Calls of `shadowOffering` in one tenant, their requests in any order.

A call deletes the catalog provider it has created when its offering fails. Another call may have
found that row in the meantime; the runs in which it does not stand on the row then keep every
provider that a resolved call points at.
-/

namespace Workbench.Web

open Workbench.Lib

variable {S : Services}

/-- The catalog provider that a call has created, and the one that it has found. -/
structure Standing where
  minted : Option Id := none
  adopted : Option Id := none
  deriving DecidableEq, Repr

/-- What a reply to a call for a provider of this name tells of its standing. -/
def Standing.note (providerName : String) : (q : Request) → Reply q.Answers → Standing → Standing
  | .createModelProvider .., .answered (.ok (row : ModelProvider)), g =>
    { g with minted := some row.id }
  | .listModelProviders, .answered (.ok (page : List ModelProvider)), g =>
    { g with adopted := (page.find? (·.name = providerName)).map (·.id) }
  | _, _, g => g

structure ShadowCall where
  input : ShadowOfferingInput
  rest : Call ModelOffering
  standing : Standing

/-- The tenant, and the calls in the order of their making. -/
structure Shadows (S : Services) where
  tenant : Tenant S
  calls : List ShadowCall

inductive ShadowEvent
  | call (input : ShadowOfferingInput)
  /-- the next request of a call -/
  | request (i : ℕ) (d : Delivery)

/-- The call after its next request. -/
def ShadowCall.after (c : ShadowCall) (q : Request) (reply : Reply q.Answers)
    (rest : Call ModelOffering) : ShadowCall :=
  ⟨c.input, rest, c.standing.note c.input.providerName q reply⟩

def Shadows.step (s : Shadows S) : ShadowEvent → Option (Shadows S)
  | .call input => some { s with calls := s.calls ++ [⟨input, shadowOffering input, {}⟩] }
  | .request i d =>
    match s.calls[i]? with
    | some ⟨input, .ask q next, standing⟩ =>
      let delivered := Client.deliver Tenant.serve s.tenant q d
      some ⟨delivered.2, s.calls.set i
        ((ShadowCall.mk input (.ask q next) standing).after q delivered.1 (next delivered.1))⟩
    | _ => none

/-! ### What a call deletes and what it returns -/

/-- A call deletes the provider it has created, and no other. -/
def DeletesMinted (q : Request) (g : Standing) : Prop :=
  ∀ id, q = .deleteModelProvider id → g.minted = some id

/-- An offering that is returned points at the provider the call has created or found. -/
def PointsAt (result : Except String ModelOffering) (g : Standing) : Prop :=
  ∀ offering, result = .ok offering →
    g.minted = some offering.providerId ∨ g.adopted = some offering.providerId

/-- The requests are noted against any tenant. -/
abbrev ShadowTraces (S : Services) (providerName : String) {α : Type} (p : Call α)
    (post : Except String α → Standing → Prop) (g : Standing) : Prop :=
  p.Traces (Tenant.serve : (q : Request) → Tenant S → q.Answers × Tenant S)
    (Standing.note providerName) DeletesMinted post g

section Traces

variable {name : String} {g : Standing} {α : Type}

lemma note_failed {q : Request} {reply : Reply q.Answers}
    (h : ∀ body, reply ≠ .answered (.ok body)) : Standing.note name q reply g = g := by
  rcases reply with (body | _ | _ | _) | _ | _
  · exact absurd rfl (h body)
  all_goals cases q <;> rfl

/-- A row that is created or found. -/
lemma traces_createOrFind {create list : Request} {made : create.Body → α}
    {find : list.Body → Option α} {failed loading unlisted : String}
    {post : Except String α → Standing → Prop} (hcreate : DeletesMinted create g)
    (hlist : DeletesMinted list g) (hfail : ∀ message, post (.error message) g)
    (hfail' : ∀ message reply, post (.error message) (Standing.note name list reply g))
    (hmade : ∀ (t : Tenant S) row, (t.serve create).1 = .ok row →
      post (.ok (made row)) (Standing.note name create (.answered (.ok row)) g))
    (hfound : ∀ page a, find page = some a →
      post (.ok a) (Standing.note name list (.answered (.ok page)) g)) :
    ShadowTraces S name (createOrFind create list made find failed loading unlisted) post g := by
  refine ⟨hcreate, fun t d => ?_⟩
  have hstop (reply : Reply create.Answers) (message : String)
      (h : ∀ body, reply ≠ .answered (.ok body)) :
      ShadowTraces S name (.fail message : Call α) post (Standing.note name create reply g) := by
    rw [note_failed h]
    exact hfail message
  cases d with
  | refused => exact hstop _ _ fun _ h => by cases h
  | unreached => exact hstop _ _ fun _ h => by cases h
  | lost => exact hstop _ _ fun _ h => by cases h
  | answered =>
    rw [Client.deliver]
    cases hanswer : (t.serve create).1 with
    | ok row => exact hmade t row hanswer
    | notFound => exact hstop _ _ fun _ h => by cases h
    | failed => exact hstop _ _ fun _ h => by cases h
    | conflict =>
      rw [note_failed fun _ h => by cases h]
      refine (Client.traces_bind _ _).mpr ⟨hlist, fun u d => ?_⟩
      generalize (Client.deliver Tenant.serve u list d).1 = reply
      rcases reply with (page | _ | _ | _) | _ | _
      · dsimp only [Client.Traces]
        cases hfind : find page with
        | some existing => exact hfound page existing hfind
        | none => exact hfail' _ _
      all_goals exact hfail' _ _

lemma traces_ensureModel (canonicalName : String) (displayName : Option String) :
    ShadowTraces S name (ensureModel canonicalName displayName) (fun _ _ => True) g :=
  traces_createOrFind (fun _ h => by cases h) (fun _ h => by cases h) (fun _ => trivial)
    (fun _ _ => trivial) (fun _ _ _ => trivial) fun _ _ _ => trivial

lemma traces_ensureCredential (input : ShadowOfferingInput) :
    ShadowTraces S name (ensureCredential input) (fun _ _ => True) g := by
  unfold ensureCredential
  cases input.credential with
  | credentialId given => trivial
  | apiKey key =>
    have hprovider : ShadowTraces S name (ensureProviderRow input) (fun _ _ => True) g :=
      traces_createOrFind (fun _ h => by cases h) (fun _ h => by cases h) (fun _ => trivial)
        (fun _ _ => trivial) (fun _ _ _ => trivial) fun _ _ _ => trivial
    refine (Client.traces_bind _ _).mpr (hprovider.mono ?_)
    rintro (message | providerRow) g' -
    · trivial
    · exact traces_createOrFind (fun _ h => by cases h) (fun _ h => by cases h) (fun _ => trivial)
        (fun _ _ => trivial) (fun _ _ _ => trivial) fun _ _ _ => trivial

/-- The provider it gives is noted as created or as found. -/
lemma traces_ensureModelProvider (input : ShadowOfferingInput) (credentialId : Id) :
    ShadowTraces S input.providerName (ensureModelProvider input credentialId)
      (fun result g' => ∀ provider, result = .ok provider →
        if provider.minted then g'.minted = some provider.providerId
        else g'.adopted = some provider.providerId) g := by
  refine traces_createOrFind (fun _ h => by cases h) (fun _ h => by cases h)
    (fun _ _ h => by cases h) (fun _ _ _ h => by cases h) ?_ ?_
  · rintro t row - _ ⟨⟩
    rfl
  · rintro page a hfind _ ⟨⟩
    obtain ⟨row, hrow, rfl⟩ := Option.map_eq_some_iff.mp hfind
    exact congrArg (Option.map ModelProvider.id) hrow

/-- The offering it gives points at the provider it was asked for. -/
lemma traces_ensureOffering (modelId providerId : Id) (priority : ℤ) :
    ShadowTraces S name (ensureOffering modelId providerId priority)
      (fun result g' => g' = g ∧ ∀ offering, result = .ok offering →
        offering.providerId = providerId) g := by
  refine traces_createOrFind (fun _ h => by cases h) (fun _ h => by cases h)
    (fun _ => ⟨rfl, fun _ h => by cases h⟩) ?_ ?_ ?_
  · rintro message ((_ | _ | _ | _) | _ | _) <;> exact ⟨rfl, fun _ h => by cases h⟩
  · intro t row hrow
    refine ⟨rfl, ?_⟩
    rintro _ ⟨⟩
    rw [(Tenant.createOffering_ok hrow).1]
  · intro page offering hfind
    refine ⟨rfl, ?_⟩
    rintro _ ⟨⟩
    have hpair : offering.modelId = modelId ∧ offering.providerId = providerId := by
      simpa using List.find?_some hfind
    exact hpair.2

lemma traces_shadowOffering (input : ShadowOfferingInput) :
    ShadowTraces S input.providerName (shadowOffering input) PointsAt {} := by
  refine (Client.traces_bind _ _).mpr ((traces_ensureModel _ _).mono ?_)
  rintro (message | modelId) g -
  · exact fun _ h => by cases h
  refine (Client.traces_bind _ _).mpr ((traces_ensureCredential input).mono ?_)
  rintro (message | credentialId) g -
  · exact fun _ h => by cases h
  refine (Client.traces_bind _ _).mpr ((traces_ensureModelProvider input credentialId).mono ?_)
  rintro (message | provider) g hprovider
  · exact fun _ h => by cases h
  have hprovider := hprovider provider rfl
  refine (Client.traces_andThen _ _).mpr ((traces_ensureOffering _ _ _).mono ?_)
  rintro (cause | offering) g' ⟨rfl, hpoints⟩
  · change ShadowTraces S input.providerName (rollback provider cause) PointsAt g'
    unfold rollback
    split_ifs with hminted
    · -- the provider that is deleted is the one that was created
      rw [if_pos hminted] at hprovider
      refine (Client.traces_andThen _ _).mpr ⟨?_, fun t d => ?_⟩
      · rintro id ⟨⟩
        exact hprovider
      · generalize (Client.deliver Tenant.serve t _ d).1 = reply
        rcases reply with (_ | _ | _ | _) | _ | _ <;> exact fun _ h => by cases h
    · exact fun _ h => by cases h
  · rintro _ ⟨⟩
    rw [hpoints offering rfl]
    split_ifs at hprovider
    · exact .inl hprovider
    · exact .inr hprovider

end Traces

/-! ### Runs -/

def Shadows.start (t : Tenant S) : Shadows S := ⟨t, []⟩

/-- The next request of the call deletes the provider. -/
def ShadowCall.RollsBack (c : ShadowCall) (providerId : Id) : Prop :=
  ∃ after, c.rest = .ask (.deleteModelProvider providerId) after

/-- The call has found the provider, and it has not failed. -/
def ShadowCall.StandsOn (c : ShadowCall) (providerId : Id) : Prop :=
  c.standing.adopted = some providerId ∧ ∀ cause, c.rest ≠ .done (.error cause)

/-- With this request the call begins to roll back: its offering fails. -/
def BeginsRollback (s : Shadows S) (i : ℕ) (d : Delivery) (providerId : Id) : Prop :=
  ∃ input q next standing after, s.calls[i]? = some ⟨input, .ask q next, standing⟩ ∧
    next (Client.deliver Tenant.serve s.tenant q d).1 =
      .ask (.deleteModelProvider providerId) after

/-- With this request the call finds the provider, on a name conflict. -/
def Adopts (s : Shadows S) (i : ℕ) (d : Delivery) (providerId : Id) : Prop :=
  ∃ input next standing, s.calls[i]? = some ⟨input, .ask .listModelProviders next, standing⟩ ∧
    d = .answered ∧ ((s.tenant.modelProviders.take defaultLimit).find?
      (·.name = input.providerName)).map (·.id) = some providerId

/-- No call begins to roll back a provider that another call stands on, and none finds a provider
that another call is about to delete. -/
def Spares (s : Shadows S) : ShadowEvent → Prop
  | .call _ => True
  | .request i d => ∀ providerId j c, j ≠ i → s.calls[j]? = some c →
    (BeginsRollback s i d providerId → ¬ c.StandsOn providerId) ∧
      (Adopts s i d providerId → ¬ c.RollsBack providerId)

/-- What is known of the calls: what they have created is theirs alone, and what is about to be
deleted nobody else stands on. -/
structure Shadows.Sound (s : Shadows S) : Prop where
  consistent : s.tenant.Consistent
  traces : ∀ {i : ℕ} {c : ShadowCall}, s.calls[i]? = some c →
    ShadowTraces S c.input.providerName c.rest PointsAt c.standing
  given : ∀ {i : ℕ} {c : ShadowCall} {id : Id}, s.calls[i]? = some c →
    c.standing.minted = some id → id < s.tenant.nextId
  once : ∀ {i j : ℕ} {c c' : ShadowCall} {id : Id}, s.calls[i]? = some c → s.calls[j]? = some c' →
    c.standing.minted = some id → c'.standing.minted = some id → i = j
  spared : ∀ {i j : ℕ} {c c' : ShadowCall} {id : Id}, i ≠ j → s.calls[i]? = some c →
    s.calls[j]? = some c' → c.RollsBack id → ¬ c'.StandsOn id

section Runs

variable {s t : Shadows S} {i : ℕ} {d : Delivery}

lemma step_shadowRequest (h : s.step (.request i d) = some t) :
    ∃ input q next standing, s.calls[i]? = some ⟨input, .ask q next, standing⟩ ∧
      t = ⟨(Client.deliver Tenant.serve s.tenant q d).2, s.calls.set i
        ⟨input, next (Client.deliver Tenant.serve s.tenant q d).1,
          standing.note input.providerName q (Client.deliver Tenant.serve s.tenant q d).1⟩⟩ := by
  rw [Shadows.step] at h
  split at h
  · next input q next standing hcall =>
    exact ⟨input, q, next, standing, hcall, (Option.some.inj h).symm⟩
  · cases h

/-- A provider that a reply tells of as created is new. -/
lemma note_minted {name : String} {q : Request} {u : Tenant S} {g : Standing} {id : Id}
    (h : (g.note name q (Client.deliver Tenant.serve u q d).1).minted = some id) :
    g.minted = some id ∨
      id = u.nextId ∧ id < (Client.deliver Tenant.serve u q d).2.nextId := by
  cases d with
  | refused | unreached | lost =>
    rw [note_failed fun _ hbody => by cases hbody] at h
    exact .inl h
  | answered =>
    rw [Client.deliver] at h ⊢
    cases q with
    | createModelProvider name' plugin baseURL credentialId =>
      cases hanswer : (u.serve (.createModelProvider name' plugin baseURL credentialId)).1 with
      | ok row =>
        rw [hanswer] at h
        obtain rfl := Option.some.inj h
        obtain ⟨hfields, -, hafter⟩ := @Tenant.createModelProvider_ok S u _ _ _ _ row hanswer
        right
        rw [Tenant.serve, hafter, hfields]
        exact ⟨rfl, Nat.lt_succ_self _⟩
      | notFound => rw [hanswer] at h; exact .inl h
      | conflict => rw [hanswer] at h; exact .inl h
      | failed => rw [hanswer] at h; exact .inl h
    | listModelProviders => exact .inl h
    | _ => exact .inl h

/-- A provider that a reply tells of as found was found by a listing. -/
lemma note_adopted {name : String} {q : Request} {u : Tenant S} {g : Standing} {id : Id}
    (h : (g.note name q (Client.deliver Tenant.serve u q d).1).adopted = some id) :
    g.adopted = some id ∨ q = .listModelProviders ∧ d = .answered ∧
      ((u.modelProviders.take defaultLimit).find? (·.name = name)).map (·.id) = some id := by
  cases d with
  | refused | unreached | lost =>
    rw [note_failed fun _ hbody => by cases hbody] at h
    exact .inl h
  | answered =>
    rw [Client.deliver] at h
    cases q with
    | listModelProviders => exact .inr ⟨rfl, rfl, h⟩
    | createModelProvider name' plugin baseURL credentialId =>
      left
      cases hanswer : (u.serve (.createModelProvider name' plugin baseURL credentialId)).1 <;>
        (rw [hanswer] at h; exact h)
    | _ => exact .inl h

lemma Shadows.Sound.start {u : Tenant S} (h : u.Consistent) : (Shadows.start u).Sound :=
  ⟨h, by simp [Shadows.start], by simp [Shadows.start], by simp [Shadows.start],
    by simp [Shadows.start]⟩

/-- What a call is about to delete it has created. -/
lemma ShadowCall.RollsBack.minted {c : ShadowCall} {id : Id} (h : c.RollsBack id)
    (htraces : ShadowTraces S c.input.providerName c.rest PointsAt c.standing) :
    c.standing.minted = some id := by
  obtain ⟨after, hrest⟩ := h
  rw [hrest] at htraces
  exact htraces.1 id rfl

lemma Shadows.Sound.call (h : s.Sound) (input : ShadowOfferingInput) :
    Shadows.Sound ⟨s.tenant, s.calls ++ [⟨input, shadowOffering input, {}⟩]⟩ := by
  have hget {j : ℕ} {c : ShadowCall}
      (hc : (s.calls ++ [⟨input, shadowOffering input, {}⟩])[j]? = some c) :
      s.calls[j]? = some c ∨ c = ⟨input, shadowOffering input, {}⟩ := by
    rcases Nat.lt_trichotomy j s.calls.length with hlt | rfl | hgt
    · rw [List.getElem?_append_left hlt] at hc
      exact .inl hc
    · rw [List.getElem?_append_right (Nat.le_refl _), Nat.sub_self] at hc
      exact .inr (Option.some.inj hc).symm
    · rw [List.getElem?_eq_none (by simp; omega)] at hc
      cases hc
  refine ⟨h.consistent, fun {j c} hc => ?_, fun {j c id} hc hid => ?_,
    fun {i j c c' id} hc hc' hid hid' => ?_, fun {i j c c' id} hij hc hc' hrolls hstands => ?_⟩
  · rcases hget hc with hc | rfl
    · exact h.traces hc
    · exact traces_shadowOffering input
  · rcases hget hc with hc | rfl
    · exact h.given hc hid
    · cases hid
  · rcases hget hc with hc | rfl
    · rcases hget hc' with hc' | rfl
      · exact h.once hc hc' hid hid'
      · cases hid'
    · cases hid
  · rcases hget hc' with hc' | rfl
    · rcases hget hc with hc | rfl
      · exact h.spared hij hc hc' hrolls hstands
      · cases hrolls.minted (traces_shadowOffering (S := S) input)
    · cases hstands.1

lemma Shadows.Sound.request (h : s.Sound) (hguard : Spares s (.request i d))
    (hstep : s.step (.request i d) = some t) : t.Sound := by
  obtain ⟨input, q, next, standing, hcall, rfl⟩ := step_shadowRequest hstep
  set delivered := Client.deliver Tenant.serve s.tenant q d with hdelivered
  set stepped : ShadowCall :=
    ⟨input, next delivered.1, standing.note input.providerName q delivered.1⟩ with hstepped
  have hget {j : ℕ} {c : ShadowCall} (hc : (s.calls.set i stepped)[j]? = some c) :
      (j = i ∧ c = stepped) ∨ (j ≠ i ∧ s.calls[j]? = some c) := by
    rw [List.getElem?_set] at hc
    split_ifs at hc with hij hlt
    · exact .inl ⟨hij.symm, (Option.some.inj hc).symm⟩
    · exact .inr ⟨Ne.symm hij, hc⟩
  have hnext : s.tenant.nextId ≤ delivered.2.nextId := by
    cases d with
    | answered | lost => exact (Tenant.grows_serve s.tenant q).nextId
    | refused | unreached => exact Nat.le_refl _
  have htraces : ShadowTraces S input.providerName (next delivered.1) PointsAt stepped.standing :=
    (h.traces hcall).2 s.tenant d
  refine ⟨?_, fun {j c} hc => ?_, fun {j c id} hc hid => ?_,
    fun {j k c c' id} hc hc' hid hid' => ?_, fun {j k c c' id} hjk hc hc' hrolls hstands => ?_⟩
  · cases d with
    | answered | lost => exact h.consistent.serve q
    | refused | unreached => exact h.consistent
  · rcases hget hc with ⟨-, rfl⟩ | ⟨-, hc⟩
    · exact htraces
    · exact h.traces hc
  · rcases hget hc with ⟨-, rfl⟩ | ⟨-, hc⟩
    · rcases note_minted hid with hold | ⟨-, hlt⟩
      · exact Nat.lt_of_lt_of_le (h.given hcall hold) hnext
      · exact hlt
    · exact Nat.lt_of_lt_of_le (h.given hc hid) hnext
  · -- a provider just created has an id that no call has seen
    have hnew {j : ℕ} {c : ShadowCall} (hc : s.calls[j]? = some c)
        (hid : c.standing.minted = some id) (hid' : stepped.standing.minted = some id) : j = i := by
      rcases note_minted hid' with hold | ⟨heq, -⟩
      · exact h.once hc hcall hid hold
      · exact absurd (h.given hc hid) (heq ▸ Nat.lt_irrefl _)
    rcases hget hc with ⟨rfl, rfl⟩ | ⟨-, hold⟩ <;> rcases hget hc' with ⟨rfl, rfl⟩ | ⟨-, hold'⟩
    · rfl
    · exact (hnew hold' hid' hid).symm
    · exact hnew hold hid hid'
    · exact h.once hold hold' hid hid'
  · rcases hget hc with ⟨rfl, rfl⟩ | ⟨hji, hold⟩ <;> rcases hget hc' with ⟨rfl, rfl⟩ | ⟨hki, hold'⟩
    · exact hjk rfl
    · -- the call begins to roll back, and nobody else stands on its provider
      obtain ⟨after, hafter⟩ := hrolls
      exact (hguard id k c' hki hold').1 ⟨input, q, next, standing, after, hcall, hafter⟩ hstands
    · -- the call finds a provider, and nobody is about to delete that
      rcases note_adopted hstands.1 with hadopted | ⟨rfl, hd, hfind⟩
      · refine h.spared hjk hold hcall hrolls ⟨hadopted, fun cause hcause => ?_⟩
        cases hcause
      · exact (hguard id j c hji hold).2 ⟨input, next, standing, hcall, hd, hfind⟩ hrolls
    · exact h.spared hjk hold hold' hrolls hstands

lemma Shadows.Sound.step (h : s.Sound) {e : ShadowEvent} (hguard : Spares s e)
    (hstep : s.step e = some t) : t.Sound := by
  cases e with
  | call input =>
    obtain rfl := Option.some.inj hstep
    exact h.call input
  | request i d => exact h.request hguard hstep

end Runs

/-- **No call deletes a provider that a resolved call points at**, where none begins to roll back
a provider that another stands on, and none finds one that is about to be deleted. -/
theorem rollback_spares_resolved {S : Services} {u : Tenant S} (hu : u.Consistent) {s : Shadows S}
    (h : Transition.Reach Shadows.step Spares (Shadows.start u) s) {i j : ℕ} {c c' : ShadowCall}
    {providerId : Id} {offering : ModelOffering} (hi : s.calls[i]? = some c)
    (hrolls : c.RollsBack providerId) (hj : s.calls[j]? = some c')
    (hresolved : c'.rest = .done (.ok offering)) : offering.providerId ≠ providerId := by
  rintro rfl
  have hsound : s.Sound :=
    h.invariant (.start hu) fun _ _ _ hs hguard hstep => hs.step hguard hstep
  have hij : i ≠ j := by
    rintro rfl
    obtain rfl := Option.some.inj (hi.symm.trans hj)
    obtain ⟨after, hafter⟩ := hrolls
    rw [hresolved] at hafter
    cases hafter
  have hpoints : ShadowTraces S c'.input.providerName c'.rest PointsAt c'.standing :=
    hsound.traces hj
  rw [hresolved] at hpoints
  rcases hpoints offering rfl with hminted | hadopted
  · exact hij (hsound.once hi hj (hrolls.minted (hsound.traces hi)) hminted)
  · refine hsound.spared hij hi hj hrolls ⟨hadopted, fun cause hcause => ?_⟩
    rw [hresolved] at hcause
    cases hcause

/-- Nobody has found a provider, and nobody is about to. -/
def nobodyFinds (s : Shadows S) : ShadowEvent → Bool
  | .call _ => true
  | .request i _ => s.calls.all (·.standing.adopted = none) && match s.calls[i]? with
    | some ⟨_, .ask .listModelProviders _, _⟩ => false
    | _ => true

lemma spares_of_nobodyFinds (s : Shadows S) (e : ShadowEvent) (h : nobodyFinds s e) :
    Spares s e := by
  cases e with
  | call input => trivial
  | request i d =>
    obtain ⟨hnone, hlist⟩ := Bool.and_eq_true_iff.mp h
    intro providerId j c hij hj
    constructor
    · intro _ hstands
      have hadopted : c.standing.adopted = none :=
        of_decide_eq_true (List.all_eq_true.mp hnone c (List.mem_of_getElem? hj))
      cases hadopted.symm.trans hstands.1
    · rintro ⟨input, next, standing, hcall, -⟩
      rw [hcall] at hlist
      cases hlist

/-- The provider that the next request of the call deletes. -/
def ShadowCall.deletes? (c : ShadowCall) : Option Id :=
  match c.rest with
  | .ask (.deleteModelProvider id) _ => some id
  | _ => none

def ShadowCall.resolved? (c : ShadowCall) : Option ModelOffering :=
  match c.rest with
  | .done (.ok offering) => some offering
  | _ => none

lemma ShadowCall.rollsBack_of_deletes {c : ShadowCall} {id : Id} (h : c.deletes? = some id) :
    c.RollsBack id := by
  obtain ⟨input, rest, standing⟩ := c
  rcases rest with _ | ⟨q, next⟩
  · cases h
  · cases q with
    | deleteModelProvider id' =>
      obtain rfl := Option.some.inj h
      exact ⟨next, rfl⟩
    | _ => cases h

lemma ShadowCall.rest_of_resolved {c : ShadowCall} {offering : ModelOffering}
    (h : c.resolved? = some offering) : c.rest = .done (.ok offering) := by
  obtain ⟨input, rest, standing⟩ := c
  rcases rest with (_ | offering') | _
  · cases h
  · obtain rfl := Option.some.inj h
    rfl
  · cases h

/-- The key of one provider, for one of its models. -/
def offeringOf (providerName canonicalName : String) : ShadowOfferingInput :=
  ⟨providerName, "openai", "https://api.acme.example", canonicalName, none, .apiKey "k1", 3⟩

def noTenant : Shadows (ledger fun _ _ => none) := .start (.empty [])

/-- One call after the other, each with its own provider. The offering of the second is refused. -/
def apart : List ShadowEvent :=
  .call (offeringOf "acme" "acme-large") :: .replicate 5 (.request 0 .answered) ++
    .call (offeringOf "globex" "globex-large") :: .replicate 4 (.request 1 .answered) ++
    [.request 1 .refused]

theorem rollback_spares_resolved_apart : ∃ s c c' providerId offering,
    Transition.Reach Shadows.step Spares noTenant s ∧ s.calls[1]? = some c ∧
      c.RollsBack providerId ∧ s.calls[0]? = some c' ∧ c'.rest = .done (.ok offering) ∧
      offering.providerId ≠ providerId := by
  have hrun : ((Transition.run (fun s e => if nobodyFinds s e then s.step e else none)
      noTenant apart).map fun s => (s.calls[1]?.bind ShadowCall.deletes?,
        s.calls[0]?.bind ShadowCall.resolved?)) = some (some 8, some ⟨4, 0, 3, 3, false⟩) := by
    decide +kernel
  obtain ⟨s, hs, hends⟩ := Option.map_eq_some_iff.mp hrun
  obtain ⟨hdeletes, hresolved⟩ := Prod.mk.inj hends
  obtain ⟨c, hc, hcdeletes⟩ := Option.bind_eq_some_iff.mp hdeletes
  obtain ⟨c', hc', hcresolved⟩ := Option.bind_eq_some_iff.mp hresolved
  have hreach : Transition.Reach Shadows.step Spares noTenant s :=
    Transition.reach_of_checked spares_of_nobodyFinds hs
  have hrolls := ShadowCall.rollsBack_of_deletes hcdeletes
  have hrest := ShadowCall.rest_of_resolved hcresolved
  exact ⟨s, c, c', 8, _, hreach, hc, hrolls, hc', hrest,
    rollback_spares_resolved (.empty _) hreach hc hrolls hc' hrest⟩

/-- Two calls for two models of one provider. The second finds the provider of the first and puts
its offering there; the offering of the first is refused. -/
def together : List ShadowEvent :=
  .call (offeringOf "acme" "acme-large") :: .replicate 4 (.request 0 .answered) ++
    .call (offeringOf "acme" "acme-small") :: .replicate 8 (.request 1 .answered) ++
    [.request 0 .refused]

/-- **The offering of a resolved call loses its provider.** The first call deletes the row that the
second has found, and its offering goes with it. -/
theorem rollback_takes_resolved :
    ((Transition.run Shadows.step noTenant together).map fun s =>
      (s.calls[0]?.bind ShadowCall.deletes?,
        (s.calls[1]?.bind ShadowCall.resolved?).map (·.providerId),
        ((s.step (.request 0 .answered)).map fun t =>
          (t.tenant.modelProviders, t.tenant.offerings)))) =
      some (some 3, some 3, some ([], [])) := by
  decide +kernel

end Workbench.Web
