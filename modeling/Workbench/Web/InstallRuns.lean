import Workbench.Web.InstallPackage

/-!
Calls of `installPackage` in one tenant, their requests in any order, while the hub provisions what
they deploy.

What a call returns was made from the commit it returns, unless the deployment that it finds listed
was made from another: a call that pushed and then failed to deploy leaves an older one listed.
-/

namespace Workbench.Web

open Workbench.Lib

/-! ### What the hub keeps -/

/-- The commit that is deployed says in its tree how it is to be deployed. -/
def Carries (input : DeployInput) : Prop :=
  ∃ (snapshot : Snapshot) (history : Commit) (files : Files),
    input.commitSha = snapshot :: history ∧ snapshot.tree = treeOf files ∧
      files.get installInputPath = some (installInputText input.entry input.sourceOfferingIds
        input.defaultSourceOfferingId)

namespace Installs

/-- A deployment with this id was made of this. -/
def Made (t : Installs) (id : Id) (input : DeployInput) : Prop :=
  ∃ deployment ∈ t.deployments, deployment.id = id ∧ deployment.input = input

def HasAsset (t : Installs) (id : Id) (name : String) : Prop :=
  ∃ asset ∈ t.assets, asset.id = id ∧ asset.name = name

structure Consistent (t : Installs) : Prop where
  named : ∀ {id id' : Id} {name : String}, t.HasAsset id name → t.HasAsset id' name → id = id'
  given : ∀ {id : Id} {input : DeployInput}, t.Made id input → id < t.nextId
  once : ∀ {id : Id} {input input' : DeployInput}, t.Made id input → t.Made id input' →
    input = input'
  carries : ∀ {id : Id} {input : DeployInput}, t.Made id input → Carries input

/-- What was made stays, and so do the assets. -/
structure Grows (t u : Installs) : Prop where
  made : ∀ {id : Id} {input : DeployInput}, t.Made id input → u.Made id input
  hasAsset : ∀ {id : Id} {name : String}, t.HasAsset id name → u.HasAsset id name

variable {t u v : Installs}

lemma Grows.refl (t : Installs) : t.Grows t := ⟨id, id⟩

lemma Grows.trans (h : t.Grows u) (h' : u.Grows v) : t.Grows v :=
  ⟨fun hm => h'.made (h.made hm), fun ha => h'.hasAsset (h.hasAsset ha)⟩

/-- The assets and what was made are the same. -/
lemma Consistent.congr (h : t.Consistent) (hassets : ∀ id name, u.HasAsset id name →
    t.HasAsset id name) (hmade : ∀ id input, u.Made id input → t.Made id input)
    (hnext : t.nextId ≤ u.nextId) : u.Consistent where
  named ha ha' := h.named (hassets _ _ ha) (hassets _ _ ha')
  given hm := Nat.lt_of_lt_of_le (h.given (hmade _ _ hm)) hnext
  once hm hm' := h.once (hmade _ _ hm) (hmade _ _ hm')
  carries hm := h.carries (hmade _ _ hm)

lemma hasAsset_map {f : Asset → Asset} (hf : ∀ a, (f a).id = a.id ∧ (f a).name = a.name)
    {id : Id} {name : String} :
    HasAsset { t with assets := t.assets.map f } id name ↔ t.HasAsset id name := by
  constructor
  · rintro ⟨_, hmem, hid, hname⟩
    obtain ⟨asset, hasset, rfl⟩ := List.mem_map.mp hmem
    exact ⟨asset, hasset, (hf asset).1.symm.trans hid, (hf asset).2.symm.trans hname⟩
  · rintro ⟨asset, hmem, hid, hname⟩
    exact ⟨f asset, List.mem_map_of_mem hmem, (hf asset).1.trans hid, (hf asset).2.trans hname⟩

lemma made_provision {id : Id} {input : DeployInput} (other : Id) (status : DeploymentStatus) :
    (t.provision other status).Made id input ↔ t.Made id input := by
  have hkeep (deployment : Deployment) : (if deployment.id = other then
      { deployment with status := status } else deployment).id = deployment.id ∧
      (if deployment.id = other then
        { deployment with status := status } else deployment).input = deployment.input := by
    split_ifs <;> exact ⟨rfl, rfl⟩
  constructor
  · rintro ⟨_, hmem, hid, hinput⟩
    obtain ⟨deployment, hold, rfl⟩ := List.mem_map.mp hmem
    exact ⟨deployment, hold, (hkeep _).1.symm.trans hid, (hkeep _).2.symm.trans hinput⟩
  · rintro ⟨deployment, hmem, hid, hinput⟩
    exact ⟨_, List.mem_map_of_mem hmem, (hkeep _).1.trans hid, (hkeep _).2.trans hinput⟩

lemma Consistent.provision (h : t.Consistent) (id : Id) (status : DeploymentStatus) :
    (t.provision id status).Consistent :=
  h.congr (fun _ _ ha => ha) (fun _ _ hm => (made_provision id status).mp hm) (Nat.le_refl _)

lemma grows_provision (t : Installs) (id : Id) (status : DeploymentStatus) :
    t.Grows (t.provision id status) :=
  ⟨(made_provision id status).mpr, fun ha => ha⟩

/-- A deployment that is accepted. -/
lemma deploy_ok {input : DeployInput} {id : Id} (h : (t.deploy input).1 = .ok id) :
    id = t.nextId ∧ (t.deploy input).2 =
      { t.bump with deployments := ⟨t.nextId, input, .pending⟩ :: t.deployments } := by
  unfold deploy at h ⊢
  split_ifs at h ⊢
  exact ⟨(Answer.ok.inj h).symm, rfl⟩

/-- An asset that is created. -/
lemma createAsset_ok {name displayName : String} {id : Id}
    (h : (t.createAsset name displayName).1 = .ok id) :
    (t.createAsset name displayName).2.HasAsset id name := by
  unfold createAsset at h ⊢
  split_ifs at h ⊢
  obtain rfl := Answer.ok.inj h
  exact ⟨_, List.mem_cons_self, rfl, rfl⟩

lemma Consistent.deploy (h : t.Consistent) {input : DeployInput} (hcarries : Carries input) :
    (t.deploy input).2.Consistent := by
  unfold Installs.deploy
  split_ifs
  · exact h
  · exact h
  · -- the id is new
    have hmade {id : Id} {other : DeployInput} (hm : Made { t.bump with
        deployments := ⟨t.nextId, input, .pending⟩ :: t.deployments } id other) :
        (id = t.nextId ∧ other = input) ∨ t.Made id other := by
      obtain ⟨deployment, hmem, hid, hinput⟩ := hm
      rcases List.mem_cons.mp hmem with rfl | hmem
      · exact .inl ⟨hid.symm, hinput.symm⟩
      · exact .inr ⟨deployment, hmem, hid, hinput⟩
    refine ⟨fun ha ha' => h.named ha ha', fun hm => ?_, fun hm hm' => ?_, fun hm => ?_⟩
    · rcases hmade hm with ⟨rfl, -⟩ | hm
      · exact Nat.lt_succ_self _
      · exact Nat.lt_succ_of_lt (h.given hm)
    · rcases hmade hm with ⟨hid, hinput⟩ | hold <;> rcases hmade hm' with ⟨hid', hinput'⟩ | hold'
      · exact hinput.trans hinput'.symm
      · exact absurd (h.given hold') (hid ▸ Nat.lt_irrefl _)
      · exact absurd (h.given hold) (hid' ▸ Nat.lt_irrefl _)
      · exact h.once hold hold'
    · rcases hmade hm with ⟨-, rfl⟩ | hm
      · exact hcarries
      · exact h.carries hm

lemma Consistent.createAsset (h : t.Consistent) (name displayName : String) :
    (t.createAsset name displayName).2.Consistent := by
  unfold Installs.createAsset
  split_ifs with htaken
  · exact h
  · have hasset {id : Id} {other : String} (ha : HasAsset { t.bump with
        assets := ⟨t.nextId, name, displayName, t.genesis⟩ :: t.assets } id other) :
        (id = t.nextId ∧ other = name) ∨ (other ≠ name ∧ t.HasAsset id other) := by
      obtain ⟨asset, hmem, hid, hname⟩ := ha
      rcases List.mem_cons.mp hmem with rfl | hold
      · exact .inl ⟨hid.symm, hname.symm⟩
      · refine .inr ⟨?_, asset, hold, hid, hname⟩
        rintro rfl
        exact htaken (List.any_eq_true.mpr ⟨asset, hold, by simpa using hname⟩)
    refine ⟨fun ha ha' => ?_, fun hm => Nat.lt_succ_of_lt (h.given hm), fun hm hm' => h.once hm hm',
      fun hm => h.carries hm⟩
    rcases hasset ha with ⟨rfl, hname⟩ | ⟨hname, ha⟩ <;>
      rcases hasset ha' with ⟨rfl, hname'⟩ | ⟨hname', ha'⟩
    · rfl
    · exact absurd hname hname'
    · exact absurd hname' hname
    · exact h.named ha ha'

lemma Consistent.receivePack (h : t.Consistent) (name token : String) (old new : Commit) :
    (t.receivePack name token old new).2.Consistent := by
  unfold Installs.receivePack
  split
  · exact h
  · split_ifs
    · refine h.congr (fun id name ha => (hasAsset_map fun a => ?_).mp ha) (fun _ _ hm => hm)
        (Nat.le_refl _)
      split_ifs <;> exact ⟨rfl, rfl⟩
    · exact h

/-- A request that deploys only what says so itself. -/
def Allowed (q : InstallRequest) : Prop := ∀ input, q = .deploy input → Carries input

lemma Consistent.serve (h : t.Consistent) {q : InstallRequest} (hallowed : Allowed q) :
    (serve q t).2.Consistent := by
  cases q with
  | createAsset name displayName => exact h.createAsset name displayName
  | mintGitToken assetId =>
    simp only [Installs.serve, mintGitToken]
    split_ifs
    · exact h
    · exact h.congr (fun _ _ ha => ha) (fun _ _ hm => hm) (Nat.le_succ _)
  | deleteGitToken id =>
    simp only [Installs.serve, deleteGitToken]
    split_ifs
    · exact h
    · exact h.congr (fun _ _ ha => ha) (fun _ _ hm => hm) (Nat.le_refl _)
  | receivePack name token old new => exact h.receivePack name token old new
  | deploy input => exact h.deploy (hallowed input rfl)
  | listAssets | advertiseRefs | fetchMain | listDeployments => exact h

lemma grows_serve (t : Installs) (q : InstallRequest) : t.Grows (serve q t).2 := by
  cases q with
  | createAsset name displayName =>
    simp only [serve, createAsset]
    split_ifs
    · exact .refl t
    · refine ⟨fun hm => hm, ?_⟩
      rintro id other ⟨asset, hmem, hasset⟩
      exact ⟨asset, List.mem_cons_of_mem _ hmem, hasset⟩
  | mintGitToken assetId =>
    simp only [serve, mintGitToken]
    split_ifs <;> exact ⟨fun hm => hm, fun ha => ha⟩
  | deleteGitToken id =>
    simp only [serve, deleteGitToken]
    split_ifs <;> exact ⟨fun hm => hm, fun ha => ha⟩
  | receivePack name token old new =>
    simp only [serve, receivePack]
    split
    · exact .refl t
    · split_ifs
      · refine ⟨fun hm => hm, fun ha => (hasAsset_map fun a => ?_).mpr ha⟩
        split_ifs <;> exact ⟨rfl, rfl⟩
      · exact .refl t
  | deploy input =>
    simp only [serve, deploy]
    split_ifs
    · exact .refl t
    · exact .refl t
    · refine ⟨?_, fun ha => ha⟩
      rintro id other ⟨deployment, hmem, hmade⟩
      exact ⟨deployment, List.mem_cons_of_mem _ hmem, hmade⟩
  | listAssets | advertiseRefs | fetchMain | listDeployments => exact .refl t

/-- A repository is that of the asset of its name. -/
lemma repository_some {name token : String} {asset : Asset}
    (h : t.repository name token = some asset) : t.HasAsset asset.id name := by
  obtain ⟨hfind, -⟩ := Option.filter_eq_some_iff.mp h
  exact ⟨asset, List.mem_of_find?_eq_some hfind, rfl, by simpa using List.find?_some hfind⟩

end Installs

/-! ### One call amid others -/

/-- The hub, and which asset a call has asked for its `main`, and what that was. -/
abbrev View := Installs × Option (Id × Commit)

/-- What a call has seen after a request. -/
def look (q : InstallRequest) (v : View) : Option (Id × Commit) :=
  match q with
  | .advertiseRefs name token => (v.1.repository name token).map fun asset => (asset.id, asset.main)
  | _ => v.2

def watch (q : InstallRequest) (v : View) : q.Answers × View :=
  ((Installs.serve q v.1).1, ((Installs.serve q v.1).2, look q v))

/-- A call that lists the deployments finds none of its asset that could be returned but was made
from another commit than the call has seen at `main`. -/
def ListsOwn (v : View) (q : InstallRequest) (d : Delivery) : Prop :=
  match q, d, v.2 with
  | .listDeployments, .answered, some (assetId, main) =>
    ∀ latest ∈ v.1.deployments.find? (·.input.assetId = assetId),
      latest.status = .deployed → latest.input.commitSha = main
  | _, _, _ => True

instance (v : View) (q : InstallRequest) (d : Delivery) : Decidable (ListsOwn v q d) :=
  match v, q, d with
  | (hub, some (assetId, main)), .listDeployments, .answered =>
    inferInstanceAs (Decidable (∀ latest ∈ hub.deployments.find? (·.input.assetId = assetId),
      latest.status = .deployed → latest.input.commitSha = main))
  | (_, none), .listDeployments, .answered => .isTrue trivial
  | _, .listDeployments, .refused | _, .listDeployments, .unreached | _, .listDeployments, .lost
  | _, .createAsset .., _ | _, .listAssets, _ | _, .mintGitToken _, _ | _, .deleteGitToken _, _
  | _, .advertiseRefs .., _ | _, .fetchMain .., _ | _, .receivePack .., _ | _, .deploy _, _ =>
    .isTrue trivial

/-- What the others do between the requests of a call. -/
def Amid (v w : View) : Prop := v.1.Grows w.1 ∧ w.2 = v.2

lemma Amid.refl (v : View) : Amid v v := ⟨.refl _, rfl⟩

lemma Amid.trans {u v w : View} (h : Amid u v) (h' : Amid v w) : Amid u w :=
  ⟨h.1.trans h'.1, h'.2.trans h.2⟩

section Programs

variable {α : Type} {v : View}

/-- The call yields what is wanted, whatever others do. -/
abbrev InstallYields (p : InstallClient α) (good : α → View → Prop) (v : View) : Prop :=
  p.Respects watch ListsOwn Amid (fun w => w.1.Consistent) (Client.Yields good) v

lemma yields_send {q : InstallRequest} {otherwise : String} {good : q.Body → View → Prop}
    (hallowed : Installs.Allowed q) (hok : ∀ body w, Amid v w → w.1.Consistent →
      ListsOwn w q .answered → (Installs.serve q w.1).1 = .ok body → good body (watch q w).2) :
    InstallYields (send q otherwise) good v := by
  intro w hamid hw
  refine ⟨hw.serve hallowed, fun d hd => ?_⟩
  cases d with
  | answered =>
    rw [Client.deliver, watch]
    cases hanswer : (Installs.serve q w.1).1 with
    | ok body => exact Client.yields_ok (hok body w hamid hw hd hanswer)
    | notFound => exact Client.yields_error
    | conflict => exact Client.yields_error
    | failed => exact Client.yields_error
  | refused => exact Client.yields_error
  | unreached => exact Client.yields_error
  | lost => exact Client.yields_error

lemma allowed_of_ne {q : InstallRequest} (h : ∀ input, q ≠ .deploy input) : Installs.Allowed q :=
  fun input heq => absurd heq (h input)

lemma yields_ensureWorkflowAsset (name displayName : String) :
    InstallYields (ensureWorkflowAsset name displayName) (fun id w => w.1.HasAsset id name) v := by
  intro w _ hw
  refine ⟨hw.serve (allowed_of_ne fun _ h => by cases h), fun d _ => ?_⟩
  cases d with
  | answered =>
    rw [Client.deliver, watch]
    cases hanswer : (Installs.serve (.createAsset name displayName) w.1).1 with
    | ok id => exact Client.yields_ok (Installs.createAsset_ok hanswer)
    | conflict =>
      refine Client.respects_bind_yields (fun (listed : List Asset) u =>
        ∀ asset ∈ listed, u.1.HasAsset asset.id asset.name) (yields_send ?_ ?_) ?_
      · exact allowed_of_ne fun _ h => by cases h
      · rintro _ u - - - ⟨⟩ asset hmem
        exact ⟨asset, hmem, rfl, rfl⟩
      · intro listed u hlisted
        cases hfind : listed.find? (·.name = name) with
        | none => exact Client.yields_error
        | some existing =>
          refine Client.yields_ok ?_
          have hname : existing.name = name := by simpa using List.find?_some hfind
          exact hname ▸ hlisted existing (List.mem_of_find?_eq_some hfind)
    | notFound => exact Client.yields_error
    | failed => exact Client.yields_error
  | refused => exact Client.yields_error
  | unreached => exact Client.yields_error
  | lost => exact Client.yields_error

/-- The commit has the tree of the files. -/
def IsOf (commit : Commit) (files : Files) : Prop :=
  ∃ (snapshot : Snapshot) (history : Commit), commit = snapshot :: history ∧
    snapshot.tree = treeOf files

/-- What is known of a push: the commit holds the files, and one that was not made is the one that
was seen. -/
def PushedOf (assetId : Id) (files : Files) (pushed : Pushed) (v : View) : Prop :=
  IsOf pushed.commitSha files ∧
    (pushed.changed = false → v.2 = some (assetId, pushed.commitSha))

lemma yields_pushNew (name token : String) (files : Files) (now : ℕ) (old : Commit) (assetId : Id) :
    InstallYields (pushNew name token files now old) (PushedOf assetId files) v := by
  refine Client.respects_bind_yields (fun _ _ => True)
    (yields_send (allowed_of_ne fun _ h => by cases h) fun _ _ _ _ _ _ => trivial) fun _ u _ => ?_
  exact Client.yields_ok ⟨⟨_, _, rfl, rfl⟩, fun hchanged => by cases hchanged⟩

/-- The tree of a commit that was fetched. -/
lemma isOf_readCommit {objects old : Commit} {files : Files}
    (h : readCommit objects old = some (treeOf files)) : IsOf old files := by
  unfold readCommit at h
  split_ifs at h
  cases old with
  | nil => cases h
  | cons snapshot history => exact ⟨snapshot, history, rfl, Option.some.inj h⟩

lemma yields_pushSourceTree {name token : String} {assetId : Id} (files : Files) (now : ℕ)
    (hasset : v.1.HasAsset assetId name) :
    InstallYields (pushSourceTree name token files now) (PushedOf assetId files) v := by
  unfold pushSourceTree
  split_ifs
  · exact Client.yields_error
  refine Client.respects_bind_yields (fun (old : Commit) w => w.2 = some (assetId, old))
    (yields_send (allowed_of_ne fun _ h => by cases h) ?_) fun old w hold => ?_
  · -- the repository is that of the asset
    intro old w hamid hw _ hanswer
    have hmain : w.1.readMain name token = .ok old := hanswer
    unfold Installs.readMain at hmain
    cases hrepository : w.1.repository name token with
    | none =>
      rw [hrepository] at hmain
      cases hmain
    | some asset =>
      rw [hrepository] at hmain
      obtain rfl := Answer.ok.inj hmain
      have hid : asset.id = assetId :=
        hw.named (Installs.repository_some hrepository) (hamid.1.hasAsset hasset)
      simp [watch, look, hrepository, hid]
  split_ifs with hempty
  · exact yields_pushNew name token files now old assetId
  refine Client.respects_bind_yields (fun _ w => w.2 = some (assetId, old))
    (yields_send (allowed_of_ne fun _ h => by cases h) ?_) fun objects w hseen => ?_
  · intro _ u hamid _ _ _
    exact hamid.2.trans hold
  cases hread : readCommit objects old with
  | none => exact Client.yields_error
  | some current =>
    dsimp only
    split_ifs with hsame
    · exact Client.yields_ok ⟨isOf_readCommit (hsame ▸ hread), fun _ => hseen⟩
    · exact yields_pushNew name token files now old assetId

lemma yields_publish {name : String} {assetId : Id} (files : Files) (now : ℕ)
    (hasset : v.1.HasAsset assetId name) :
    InstallYields (publish name assetId files now) (PushedOf assetId files) v := by
  refine Client.respects_bind_yields (fun _ w => w.1.HasAsset assetId name)
    (yields_send (allowed_of_ne fun _ h => by cases h) ?_) fun token w hw => ?_
  · intro _ w hamid _ _ _
    exact (Installs.grows_serve w.1 _).hasAsset (hamid.1.hasAsset hasset)
  · refine Client.respects_andFinally (yields_pushSourceTree files now hw)
      fun result t hresult => ?_
    -- the token is deleted; where `main` was seen does not change
    intro u hamid hu
    refine ⟨hu.serve (allowed_of_ne fun _ h => by cases h), fun d _ => ?_⟩
    have hkept (w : View) (hw : w.2 = u.2) : Client.Yields (PushedOf assetId files) result w := by
      intro pushed hpushed
      obtain ⟨hof, hseen⟩ := hresult pushed hpushed
      exact ⟨hof, fun hchanged => (hw.trans hamid.2).trans (hseen hchanged)⟩
    cases d with
    | answered =>
      rw [Client.deliver, watch]
      cases (Installs.serve (.deleteGitToken token.1) u.1).1 <;> exact hkept _ rfl
    | refused | unreached => exact hkept _ rfl
    | lost => exact hkept _ rfl

/-- A deployment that can be returned was made of the commit that was seen. -/
lemma yields_latestDeploymentId {assetId : Id} {main : Commit}
    (hseen : v.2 = some (assetId, main)) :
    InstallYields (latestDeploymentId assetId) (fun existing w => ∀ id, existing = some id →
      ∃ input, w.1.Made id input ∧ input.assetId = assetId ∧ input.commitSha = main ∧
        Carries input) v := by
  refine Client.respects_bind_yields (fun (listed : List ListedDeployment) w =>
    ∀ latest, listed.find? (·.definitionAssetId = assetId) = some latest →
      latest.status = .deployed → ∃ input, w.1.Made latest.id input ∧ input.assetId = assetId ∧
        input.commitSha = main ∧ Carries input)
    (yields_send (allowed_of_ne fun _ h => by cases h) ?_) fun listed w hlisted => ?_
  · rintro _ w hamid hw hlists ⟨⟩ latest hfind hdeployed
    rw [Installs.listDeployments, List.find?_map] at hfind
    obtain ⟨deployment, hfirst, rfl⟩ := Option.map_eq_some_iff.mp hfind
    have hfirst : w.1.deployments.find? (·.input.assetId = assetId) = some deployment := hfirst
    have hmade : w.1.Made deployment.id deployment.input :=
      ⟨deployment, List.mem_of_find?_eq_some hfirst, rfl, rfl⟩
    have hasset : deployment.input.assetId = assetId := by simpa using List.find?_some hfirst
    have hcommit : deployment.input.commitSha = main := by
      unfold ListsOwn at hlists
      rw [hamid.2.trans hseen] at hlists
      exact hlists deployment hfirst hdeployed
    exact ⟨deployment.input, hmade, hasset, hcommit, hw.carries hmade⟩
  · cases hfind : listed.find? (·.definitionAssetId = assetId) with
    | none =>
      refine Client.yields_ok ?_
      rintro id ⟨⟩
    | some latest =>
      dsimp only
      split_ifs with hdeployed
      · refine Client.yields_ok ?_
        rintro id ⟨⟩
        exact hlisted latest hfind hdeployed
      · refine Client.yields_ok ?_
        rintro id ⟨⟩

variable {Q : Type} {A : Q → Type} {args : InstallPackageArgs A}

lemma get_iff_mem_treeOf {files : Files} {path text : String} :
    files.get path = some text ↔ (path, text) ∈ treeOf files := by
  rw [OrderedMap.get_eq_some, treeOf, List.mem_toFinset]

/-- The input of a deployment is known by its text. -/
lemma installInputText_injective {entry entry' : String} {offerings offerings' : List String}
    {offering offering' : String} (h : installInputText entry offerings offering =
      installInputText entry' offerings' offering') :
    entry = entry' ∧ offerings = offerings' ∧ offering = offering' := by
  have hreads (entry : String) (offerings : List String) (offering : String) :
      (installInputJson entry offerings offering).Reads noNumerals := by
    have helements : Json.ReadsElements noNumerals (offerings.map .string) := by
      induction offerings with
      | nil => trivial
      | cons _ _ ih => exact ⟨trivial, ih⟩
    exact ⟨trivial, helements, trivial, trivial⟩
  have htext := String.ofList_injective h
  have hjson := Json.stringify_injective (hreads ..) (hreads ..) htext
  simp only [installInputJson, Json.object.injEq, List.cons.injEq, Prod.mk.injEq, true_and,
    and_true, Json.string.injEq, Json.array.injEq] at hjson
  obtain ⟨rfl, hofferings, rfl⟩ := hjson
  refine ⟨rfl, ?_, rfl⟩
  exact List.map_injective_iff.mpr (fun _ _ h => Json.string.inj h) hofferings

/-- The tree of a call says how it is deployed. -/
lemma carries_of_isOf {commit : Commit} {source : Files} (h : IsOf commit (args.tree source))
    (assetId : Id) : Carries ⟨assetId, commit, args.entry, args.sourceOfferingIds,
      args.defaultSourceOfferingId⟩ := by
  obtain ⟨snapshot, history, hcommit, htree⟩ := h
  exact ⟨snapshot, history, args.tree source, hcommit, htree, OrderedMap.get_set_self⟩

/-- Of a commit with the tree of a call, what is deployed is deployed as the call says. -/
lemma input_of_carries {input : DeployInput} {source : Files} (hcarries : Carries input)
    (hof : IsOf input.commitSha (args.tree source)) :
    input = ⟨input.assetId, input.commitSha, args.entry, args.sourceOfferingIds,
      args.defaultSourceOfferingId⟩ := by
  obtain ⟨snapshot, history, files, hcommit, htree, htext⟩ := hcarries
  obtain ⟨snapshot', history', hcommit', htree'⟩ := hof
  obtain ⟨rfl, rfl⟩ := List.cons.inj (hcommit.symm.trans hcommit')
  have hsame : treeOf files = treeOf (args.tree source) := htree.symm.trans htree'
  have htext' : files.get installInputPath = some (installInputText args.entry
      args.sourceOfferingIds args.defaultSourceOfferingId) := by
    rw [get_iff_mem_treeOf, hsame, ← get_iff_mem_treeOf]
    exact OrderedMap.get_set_self
  obtain ⟨hentry, hofferings, hoffering⟩ :=
    installInputText_injective (Option.some.inj (htext.symm.trans htext'))
  obtain ⟨_, _, _, _, _⟩ := input
  simp_all

/-- What a call returns: a deployment of its commit, as it says, the commit having its tree. -/
def ReturnsOwn (args : InstallPackageArgs A) (installed : Installed) (hub : Installs) : Prop :=
  hub.Made installed.deploymentId ⟨installed.assetId, installed.commitSha, args.entry,
      args.sourceOfferingIds, args.defaultSourceOfferingId⟩ ∧
    IsOf installed.commitSha installed.files ∧
    ∃ source, (args.files installed.assetId).Ends source ∧ installed.files = args.tree source

lemma yields_deployPushed {assetId : Id} {source : Files} {pushed : Pushed}
    (hends : (args.files assetId).Ends source)
    (hof : IsOf pushed.commitSha (args.tree source)) :
    InstallYields (deployPushed args assetId (args.tree source) pushed)
      (fun installed w => ReturnsOwn args installed w.1) v := by
  have hcarries := carries_of_isOf hof assetId
  refine Client.respects_bind_yields (fun id w => w.1.Made id ⟨assetId, pushed.commitSha,
      args.entry, args.sourceOfferingIds, args.defaultSourceOfferingId⟩)
    (yields_send ?_ ?_) fun id w hmade => ?_
  · rintro _ ⟨⟩
    exact hcarries
  · intro id w _ _ _ hanswer
    obtain ⟨rfl, hafter⟩ := Installs.deploy_ok hanswer
    change (w.1.deploy _).2.Made _ _
    rw [hafter]
    exact ⟨_, List.mem_cons_self, rfl, rfl⟩
  · exact Client.yields_ok ⟨hmade, hof, source, hends, rfl⟩

lemma yields_publishAndDeploy {assetId : Id} {source : Files} (now : ℕ)
    (hasset : v.1.HasAsset assetId args.assetName) (hends : (args.files assetId).Ends source) :
    InstallYields (publishAndDeploy args now assetId source)
      (fun installed w => ReturnsOwn args installed w.1) v := by
  refine Client.respects_bind_yields _ (yields_publish (args.tree source) now hasset)
    fun pushed w hpushed => ?_
  split_ifs with hlist
  · obtain ⟨hof, hseen⟩ := hpushed
    have hseen := hseen (by simpa using hlist.1)
    refine Client.respects_bind_yields _ (yields_latestDeploymentId hseen)
      fun existing u hlisted => ?_
    cases existing with
    | none => exact yields_deployPushed hends hof
    | some id =>
      obtain ⟨input, hmade, hid, hcommit, hcarries⟩ := hlisted id rfl
      have hinput := input_of_carries hcarries (hcommit ▸ hof)
      rw [hid, hcommit] at hinput
      exact Client.yields_ok ⟨hinput ▸ hmade, hof, source, hends, rfl⟩
  · exact yields_deployPushed hends hpushed.1

end Programs

/-! ### Runs -/

section Runs

variable {Q : Type} {A : Q → Type} {σ : Type}

structure InstallCall (A : Q → Type) where
  args : InstallPackageArgs A
  rest : Client (Sum.elim A InstallRequest.Answers) String Installed
  seen : Option (Id × Commit)

/-- The rest of the hub, its assets and deployments, and the calls in the order of their making. -/
structure InstallState (A : Q → Type) (σ : Type) where
  others : σ
  hub : Installs
  calls : List (InstallCall A)

inductive InstallEvent (A : Q → Type)
  | call (args : InstallPackageArgs A) (now : ℕ)
  /-- the next request of a call -/
  | request (i : ℕ) (d : Delivery)
  /-- the provisioning of a deployment gets on -/
  | provision (id : Id) (status : DeploymentStatus)

variable (serve : (q : Q) → σ → A q × σ)

/-- The next request of a call against the hub. -/
abbrev InstallState.deliver (s : InstallState A σ) (seen : Option (Id × Commit))
    (q : Q ⊕ InstallRequest) (d : Delivery) :
    Reply (Sum.elim A InstallRequest.Answers q) × (σ × View) :=
  Client.deliver (Client.serveBoth serve watch) (s.others, (s.hub, seen)) q d

def InstallState.step (s : InstallState A σ) : InstallEvent A → Option (InstallState A σ)
  | .call args now => some { s with calls := s.calls ++ [⟨args, installPackage args now, none⟩] }
  | .request i d =>
    match s.calls[i]? with
    | some ⟨args, .ask q next, seen⟩ =>
      let delivered := s.deliver serve seen q d
      some ⟨delivered.2.1, delivered.2.2.1,
        s.calls.set i ⟨args, next delivered.1, delivered.2.2.2⟩⟩
    | _ => none
  | .provision id status => some { s with hub := s.hub.provision id status }

def InstallState.start (others : σ) (hub : Installs) : InstallState A σ := ⟨others, hub, []⟩

/-- What the deliveries of a request of two servers must meet, where it is one of the installs. -/
def ListsOwnBeside (s : σ × View) (q : Q ⊕ InstallRequest) (d : Delivery) : Prop :=
  match q with
  | .inl _ => True
  | .inr q => ListsOwn s.2 q d

instance (s : σ × View) (q : Q ⊕ InstallRequest) (d : Delivery) :
    Decidable (ListsOwnBeside s q d) :=
  match q with
  | .inl _ => .isTrue trivial
  | .inr q => inferInstanceAs (Decidable (ListsOwn s.2 q d))

def InstallCall.ListsOwn (c : InstallCall A) (others : σ) (hub : Installs) (d : Delivery) : Prop :=
  match c.rest with
  | .done _ => True
  | .ask q _ => ListsOwnBeside (others, (hub, c.seen)) q d

instance (c : InstallCall A) (others : σ) (hub : Installs) (d : Delivery) :
    Decidable (c.ListsOwn others hub d) :=
  match c with
  | ⟨_, .done _, _⟩ => .isTrue trivial
  | ⟨_, .ask q _, seen⟩ => inferInstanceAs (Decidable (ListsOwnBeside (others, (hub, seen)) q d))

/-- No call finds listed, as one it could return, a deployment of another commit than the one it
has seen at `main`. -/
def ListsOwnDeployment (s : InstallState A σ) : InstallEvent A → Prop
  | .request i d => ∀ c ∈ s.calls[i]?, c.ListsOwn s.others s.hub d
  | _ => True

instance (s : InstallState A σ) (e : InstallEvent A) : Decidable (ListsOwnDeployment s e) :=
  match e with
  | .request i d => inferInstanceAs (Decidable (∀ c ∈ s.calls[i]?, c.ListsOwn s.others s.hub d))
  | .call .. | .provision .. => .isTrue trivial

abbrev CallYields (args : InstallPackageArgs A)
    (p : Client (Sum.elim A InstallRequest.Answers) String Installed) (s : σ × View) : Prop :=
  p.Respects (Client.serveBoth serve watch) ListsOwnBeside (fun s t => Amid s.2 t.2)
    (fun s => s.2.1.Consistent) (Client.Yields fun installed t => ReturnsOwn args installed t.2.1) s

variable {serve}

lemma yields_installPackage (args : InstallPackageArgs A) (now : ℕ) (s : σ × View) :
    CallYields serve args (installPackage args now) s := by
  refine Client.respects_bind_yields (fun id t => t.2.1.HasAsset id args.assetName)
    (Client.respects_right (fun _ _ _ h => h) (fun _ _ h => h) (fun _ => .rfl)
      (yields_ensureWorkflowAsset args.assetName args.displayName)) fun assetId t hasset => ?_
  have hfiles : (args.files assetId).left.Respects (Client.serveBoth serve watch) ListsOwnBeside
      (fun s t => Amid s.2 t.2) (fun s => s.2.1.Consistent)
      (fun result u => Amid t.2 u.2 ∧ ∀ source, result = .ok source →
        (args.files assetId).Ends source) t :=
    Client.respects_left (fun s => Amid.refl s.2) (fun h h' => h.trans h') (fun _ _ h => h)
      (fun _ s => Amid.refl s.2) (args.files assetId)
  refine Client.respects_bind_yields (fun source u => u.2.1.HasAsset assetId args.assetName ∧
    (args.files assetId).Ends source) (hfiles.mono fun result u h source hsource => ?_)
    fun source u h => ?_
  · exact ⟨h.1.1.hasAsset hasset, h.2 source hsource⟩
  · exact Client.respects_right (fun _ _ _ h => h) (fun _ _ h => h) (fun _ => .rfl)
      (yields_publishAndDeploy now h.1 h.2)

/-- What is known of the hub and of every call. -/
structure InstallState.Sound (serve : (q : Q) → σ → A q × σ) (s : InstallState A σ) : Prop where
  consistent : s.hub.Consistent
  yields : ∀ {i : ℕ} {c : InstallCall A}, s.calls[i]? = some c →
    CallYields serve c.args c.rest (s.others, (s.hub, c.seen))

variable {s t : InstallState A σ}

/-- The hub has gone on beside a call. -/
lemma CallYields.grow {c : InstallCall A} {others : σ} {hub : Installs}
    (h : CallYields serve c.args c.rest (s.others, (s.hub, c.seen))) (hgrows : s.hub.Grows hub) :
    CallYields serve c.args c.rest (others, (hub, c.seen)) := by
  refine Client.Respects.stable h ⟨hgrows, rfl⟩ (fun h h' => h.trans h') fun result hresult => ?_
  intro installed hinstalled
  obtain ⟨hmade, hreturned⟩ := hresult installed hinstalled
  exact ⟨hgrows.made hmade, hreturned⟩

lemma InstallState.Sound.step (h : s.Sound serve) {e : InstallEvent A}
    (hguard : ListsOwnDeployment s e) (hstep : s.step serve e = some t) : t.Sound serve := by
  cases e with
  | call args now =>
    obtain rfl := Option.some.inj hstep
    refine ⟨h.consistent, fun {j c} hj => ?_⟩
    rcases Nat.lt_or_ge j s.calls.length with hlt | hge
    · rw [List.getElem?_append_left hlt] at hj
      exact h.yields hj
    · rw [List.getElem?_append_right hge] at hj
      obtain rfl := List.mem_singleton.mp (List.mem_of_getElem? hj)
      exact yields_installPackage args now _
  | provision id status =>
    obtain rfl := Option.some.inj hstep
    exact ⟨h.consistent.provision id status, fun hj => (h.yields hj).grow
      (s.hub.grows_provision id status)⟩
  | request i d =>
    rw [InstallState.step] at hstep
    split at hstep
    · next args q next seen hcall =>
      obtain rfl := Option.some.inj hstep
      obtain ⟨hkeep, hrest⟩ := h.yields hcall _ (Amid.refl _) h.consistent
      have hallowed : ListsOwnBeside (s.others, (s.hub, seen)) q d := hguard _ hcall
      have hafter : (s.deliver serve seen q d).2.2.1.Consistent ∧
          s.hub.Grows (s.deliver serve seen q d).2.2.1 := by
        cases d with
        | answered | lost =>
          refine ⟨hkeep, ?_⟩
          cases q with
          | inl q => exact .refl _
          | inr q => exact s.hub.grows_serve q
        | refused | unreached => exact ⟨h.consistent, .refl _⟩
      refine ⟨hafter.1, fun {j c} hj => ?_⟩
      rw [List.getElem?_set] at hj
      split_ifs at hj with hij hlt
      · obtain rfl := Option.some.inj hj
        exact hrest d hallowed
      · exact (h.yields hj).grow hafter.2
    · cases hstep

/-- **What a call returns is its own**, where none finds listed, as one it could return, a
deployment of another commit than it has seen at `main`: the deployment was made of the commit
returned, with the entry and the offerings of the call, and the commit has the call's file tree. -/
theorem install_returns_own {Q : Type} {A : Q → Type} {σ : Type} (serve : (q : Q) → σ → A q × σ)
    {others : σ} {hub : Installs} (hub_consistent : hub.Consistent) {s : InstallState A σ}
    (h : Transition.Reach (InstallState.step serve) ListsOwnDeployment (.start others hub) s)
    {i : ℕ} {c : InstallCall A} (hi : s.calls[i]? = some c) {installed : Installed}
    (hreturned : c.rest = .done (.ok installed)) :
    (∃ deployment ∈ s.hub.deployments, deployment.id = installed.deploymentId) ∧
    (∀ deployment ∈ s.hub.deployments, deployment.id = installed.deploymentId →
      deployment.input = ⟨installed.assetId, installed.commitSha, c.args.entry,
        c.args.sourceOfferingIds, c.args.defaultSourceOfferingId⟩) ∧
    IsOf installed.commitSha installed.files ∧
    ∃ source, (c.args.files installed.assetId).Ends source ∧
      installed.files = c.args.tree source := by
  have hstart : (InstallState.start others hub : InstallState A σ).Sound serve :=
    ⟨hub_consistent, fun hj => by simp [InstallState.start] at hj⟩
  have hsound : s.Sound serve :=
    h.invariant hstart fun _ _ _ hs hguard hstep => hs.step hguard hstep
  have hyields := hsound.yields hi
  rw [hreturned] at hyields
  obtain ⟨hmade, hof, hfiles⟩ := hyields installed rfl
  refine ⟨?_, fun deployment hmem hid => ?_, hof, hfiles⟩
  · obtain ⟨deployment, hmem, hid, -⟩ := hmade
    exact ⟨deployment, hmem, hid⟩
  · exact hsound.consistent.once ⟨deployment, hmem, hid, rfl⟩ hmade

end Runs

/-! ### Calls with one tree -/

/-- An install whose files are there. -/
def packaged (contents : String) : InstallPackageArgs (Empty.elim : Empty → Type) where
  assetName := "echo"
  displayName := "Echo"
  files _ := .done (.ok (OrderedMap.empty.set "workflow.js" contents))
  entry := "./workflow.js"
  sourceOfferingIds := ["offering"]
  defaultSourceOfferingId := "offering"
  redeploy := false

def noOthers (q : Empty) (_ : Unit) : Empty.elim q × Unit := q.elim

/-- A tenant without assets. -/
def noInstalls : Installs := ⟨[], [], [], 0, [], fun _ => "secret"⟩

lemma noInstalls_consistent : noInstalls.Consistent where
  named h := by obtain ⟨_, hmem, -⟩ := h; cases hmem
  given h := by obtain ⟨_, hmem, -⟩ := h; cases hmem
  once h := by obtain ⟨_, hmem, -⟩ := h; cases hmem
  carries h := by obtain ⟨_, hmem, -⟩ := h; cases hmem

def returned? (s : InstallState (Empty.elim : Empty → Type) Unit) (i : ℕ) : Option Installed :=
  match s.calls[i]? with
  | some ⟨_, .done (.ok installed), _⟩ => some installed
  | _ => none

lemma rest_of_returned {s : InstallState (Empty.elim : Empty → Type) Unit} {i : ℕ}
    {installed : Installed} (h : returned? s i = some installed) :
    ∃ c, s.calls[i]? = some c ∧ c.rest = .done (.ok installed) := by
  unfold returned? at h
  rcases hcall : s.calls[i]? with _ | ⟨args, (_ | returned) | _, seen⟩ <;> rw [hcall] at h
  · cases h
  · cases h
  · obtain rfl := Option.some.inj h
    exact ⟨_, rfl, rfl⟩
  · cases h

/-- The same tree twice. The first install is deployed, and the second finds that. -/
def reinstalled : List (InstallEvent (Empty.elim : Empty → Type)) :=
  .call (packaged "one") 0 :: .replicate 6 (.request 0 .answered) ++ .provision 2 .deployed ::
    .call (packaged "one") 1 :: .replicate 7 (.request 1 .answered)

theorem install_returns_own_again : ∃ s installed,
    Transition.Reach (InstallState.step noOthers) ListsOwnDeployment (.start () noInstalls) s ∧
      returned? s 1 = some installed ∧ installed.deploymentId = 2 ∧
      ∀ deployment ∈ s.hub.deployments, deployment.id = installed.deploymentId →
        deployment.input.commitSha = installed.commitSha := by
  have hrun : ((Transition.run (fun s e => if decide (ListsOwnDeployment s e) then
      InstallState.step noOthers s e else none) (.start () noInstalls) reinstalled).bind fun s =>
        (returned? s 1).map (·.deploymentId)) = some 2 := by
    decide +kernel
  obtain ⟨s, hs, hends⟩ := Option.bind_eq_some_iff.mp hrun
  obtain ⟨installed, hinstalled, hid⟩ := Option.map_eq_some_iff.mp hends
  obtain ⟨c, hc, hreturned⟩ := rest_of_returned hinstalled
  have hreach := Transition.reach_of_checked (fun _ _ => of_decide_eq_true) hs
  have hown := install_returns_own noOthers noInstalls_consistent hreach hc hreturned
  refine ⟨s, installed, hreach, hinstalled, hid, fun deployment hmem heq => ?_⟩
  rw [hown.2.1 deployment hmem heq]

/-- The second install pushes its tree and is then refused its deployment; the third has the tree
of the second. -/
def retriedInstall : List (InstallEvent (Empty.elim : Empty → Type)) :=
  .call (packaged "one") 0 :: .replicate 6 (.request 0 .answered) ++ .provision 2 .deployed ::
    .call (packaged "two") 1 :: .replicate 7 (.request 1 .answered) ++ .request 1 .refused ::
      .call (packaged "two") 2 :: .replicate 7 (.request 2 .answered)

/-- **The retry returns the deployment of the first tree** with the commit of the second. -/
theorem install_returns_older :
    ((Transition.run (InstallState.step noOthers) (.start () noInstalls) retriedInstall).bind
      fun s => (returned? s 2).map fun installed => (installed.deploymentId,
        s.hub.deployments.map fun deployment =>
          (deployment.id, decide (deployment.input.commitSha = installed.commitSha)))) =
      some (2, [(2, false)]) := by
  decide +kernel

end Workbench.Web
