import Workbench.Lib.Json
import Workbench.Lib.OrderedMap
import Workbench.Lib.Transition
import Workbench.Lib.TwoServers
import Workbench.Web.Hub
import Mathlib.Data.Finset.Basic

/-!
The one install path: an asset, a source tree pushed to its `main`, and a deployment of that commit.

The entry and the offerings ride in the tree, since the listing of the deployments shows neither.
When `main` holds the tree already, nothing is pushed, and a deployment that is listed is returned.
-/

namespace Workbench.Web

open Workbench.Lib

/-! ### Commits -/

/-- The files of a package, at their paths. -/
abbrev Files := OrderedMap String String

/-- What a tree object says: the blob at each path. -/
abbrev Tree := Finset (String × String)

def treeOf (files : Files) : Tree := files.entries.toFinset

structure Snapshot where
  tree : Tree
  message : String
  timestamp : ℕ
  deriving DecidableEq

/-- A commit is known by its snapshot and those it was made on; without one there is no commit. -/
abbrev Commit := List Snapshot

/-- The tree of a commit, if the objects of another hold it. -/
def readCommit (objects oid : Commit) : Option Tree :=
  if oid <:+ objects then oid.head?.map (·.tree) else none

/-! ### The assets and the deployments of a tenant -/

structure Asset where
  id : Id
  name : String
  displayName : String
  main : Commit
  deriving DecidableEq

inductive DeploymentStatus
  | pending
  | deployed
  | recovering
  | releasing
  | destroyFailed
  | released
  | failed
  deriving DecidableEq, Repr

/-- What a deployment is made of. -/
structure DeployInput where
  assetId : Id
  commitSha : Commit
  entry : String
  sourceOfferingIds : List String
  defaultSourceOfferingId : String
  deriving DecidableEq

structure Deployment where
  id : Id
  input : DeployInput
  status : DeploymentStatus
  deriving DecidableEq

/-- What the listing shows of a deployment. -/
structure ListedDeployment where
  id : Id
  definitionAssetId : Id
  status : DeploymentStatus
  deriving DecidableEq, Repr

/-- A token for the repository of one asset. -/
structure GitToken where
  id : Id
  secret : String
  assetId : Id
  deriving DecidableEq, Repr

/-- The assets and deployments of a tenant, newest first. -/
structure Installs where
  assets : List Asset
  gitTokens : List GitToken
  deployments : List Deployment
  nextId : Id
  /-- the commit with which the hub starts a repository -/
  genesis : Commit
  /-- the secret of the token with an id -/
  secretOf : Id → String

inductive InstallRequest
  | createAsset (name displayName : String)
  | listAssets
  | mintGitToken (assetId : Id)
  | deleteGitToken (id : Id)
  | advertiseRefs (assetName token : String)
  | fetchMain (assetName token : String)
  | receivePack (assetName token : String) (old new : Commit)
  | listDeployments
  | deploy (input : DeployInput)
  deriving DecidableEq

namespace InstallRequest

/-- What the body of an answer holds. -/
def Body : InstallRequest → Type
  | createAsset .. => Id
  | listAssets => List Asset
  | mintGitToken _ => Id × String
  | advertiseRefs .. | fetchMain .. => Commit
  | listDeployments => List ListedDeployment
  | deploy _ => Id
  | deleteGitToken _ | receivePack .. => Unit

abbrev Answers (q : InstallRequest) : Type := Answer q.Body

end InstallRequest

namespace Installs

def bump (t : Installs) : Installs := { t with nextId := t.nextId + 1 }

def createAsset (t : Installs) (name displayName : String) : Answer Id × Installs :=
  if t.assets.any (·.name = name) then (.conflict, t)
  else
    (.ok t.nextId, { t.bump with assets := ⟨t.nextId, name, displayName, t.genesis⟩ :: t.assets })

def mintGitToken (t : Installs) (assetId : Id) : Answer (Id × String) × Installs :=
  if t.assets.all (·.id ≠ assetId) then (.notFound, t)
  else (.ok (t.nextId, t.secretOf t.nextId),
    { t.bump with gitTokens := ⟨t.nextId, t.secretOf t.nextId, assetId⟩ :: t.gitTokens })

def deleteGitToken (t : Installs) (id : Id) : Answer Unit × Installs :=
  if t.gitTokens.all (·.id ≠ id) then (.notFound, t)
  else (.ok (), { t with gitTokens := t.gitTokens.filter (·.id ≠ id) })

/-- The asset whose repository a token opens. -/
def repository (t : Installs) (assetName token : String) : Option Asset :=
  (t.assets.find? (·.name = assetName)).filter fun asset =>
    t.gitTokens.any fun gitToken => gitToken.secret = token ∧ gitToken.assetId = asset.id

def readMain (t : Installs) (assetName token : String) : Answer Commit :=
  match t.repository assetName token with
  | some asset => .ok asset.main
  | none => .failed

/-- `main` moves to the new commit if it stands at the old one. -/
def receivePack (t : Installs) (assetName token : String) (old new : Commit) :
    Answer Unit × Installs :=
  match t.repository assetName token with
  | none => (.failed, t)
  | some asset =>
    if asset.main = old then
      (.ok (), { t with assets := t.assets.map fun other =>
        if other.id = asset.id then { other with main := new } else other })
    else (.conflict, t)

def validInput (input : DeployInput) : Bool :=
  input.entry ≠ "" ∧ input.sourceOfferingIds ≠ [] ∧ "" ∉ input.sourceOfferingIds ∧
    input.sourceOfferingIds.Nodup ∧ input.defaultSourceOfferingId ≠ ""

/-- A deployment is accepted and provisioned later. -/
def deploy (t : Installs) (input : DeployInput) : Answer Id × Installs :=
  if !validInput input then (.failed, t)
  else if t.assets.all fun asset => ¬ (asset.id = input.assetId ∧
      input.commitSha <:+ asset.main) then (.notFound, t)
  else (.ok t.nextId, { t.bump with deployments := ⟨t.nextId, input, .pending⟩ :: t.deployments })

def listDeployments (t : Installs) : List ListedDeployment :=
  t.deployments.map fun deployment =>
    ⟨deployment.id, deployment.input.assetId, deployment.status⟩

/-- The provisioning of a deployment gets on. -/
def provision (t : Installs) (id : Id) (status : DeploymentStatus) : Installs :=
  { t with deployments := t.deployments.map fun deployment =>
      if deployment.id = id then { deployment with status := status } else deployment }

def serve : (q : InstallRequest) → Installs → q.Answers × Installs
  | .createAsset name displayName, t => t.createAsset name displayName
  | .listAssets, t => (.ok t.assets, t)
  | .mintGitToken assetId, t => t.mintGitToken assetId
  | .deleteGitToken id, t => t.deleteGitToken id
  | .advertiseRefs assetName token, t => (t.readMain assetName token, t)
  | .fetchMain assetName token, t => (t.readMain assetName token, t)
  | .receivePack assetName token old new, t => t.receivePack assetName token old new
  | .listDeployments, t => (.ok t.listDeployments, t)
  | .deploy input, t => t.deploy input

end Installs

/-! ### The install -/

abbrev InstallClient (α : Type) := Client InstallRequest.Answers String α

/-- A request that must be answered with a body. -/
def send (q : InstallRequest) (otherwise : String) : InstallClient q.Body :=
  .ask q fun
    | .answered (.ok body) => .done (.ok body)
    | .threw => .fail networkError
    | _ => .fail otherwise

structure InstallPackageArgs {Q : Type} (A : Q → Type) where
  assetName : String
  displayName : String
  /-- the package's flat source tree, found when the asset is there -/
  files : Id → Client A String Files
  entry : String
  sourceOfferingIds : List String
  defaultSourceOfferingId : String
  redeploy : Bool

def ensureWorkflowAsset (assetName displayName : String) : InstallClient Id :=
  .ask (.createAsset assetName displayName) fun
    | .answered (.ok id) => .done (.ok id)
    | .answered .conflict => do
      let listed : List Asset ← send .listAssets "listing assets failed"
      match listed.find? (·.name = assetName) with
      | some existing => pure existing.id
      | none => .fail ("asset " ++ assetName ++ " conflicts but is not listed")
    | .threw => .fail networkError
    | _ => .fail "creating the asset failed"

structure Pushed where
  commitSha : Commit
  changed : Bool

def pushNew (assetName token : String) (files : Files) (now : ℕ) (old : Commit) :
    InstallClient Pushed := do
  let new : Commit := ⟨treeOf files, "Publish " ++ assetName, now⟩ :: old
  let _ : Unit ← send (.receivePack assetName token old new) "git push was refused"
  pure ⟨new, true⟩

/-- Commits the tree on top of `main` and pushes it, if `main` does not hold it already. -/
def pushSourceTree (assetName token : String) (files : Files) (now : ℕ) :
    InstallClient Pushed := do
  if files.keys.any ('/' ∈ ·.toList) then .fail "pushSourceTree writes a flat tree"
  else
    let old : Commit ← send (.advertiseRefs assetName token) "ref advertisement failed"
    if old = [] then pushNew assetName token files now old
    else
      let objects : Commit ← send (.fetchMain assetName token) "fetching main failed"
      match readCommit objects old with
      | none => .fail "the commit was not fetched"
      | some current =>
        if current = treeOf files then pure ⟨old, false⟩
        else pushNew assetName token files now old

/-- A deployment that was released or has failed is not reusable. -/
def latestDeploymentId (assetId : Id) : InstallClient (Option Id) := do
  let listed : List ListedDeployment ← send .listDeployments "listing deployments failed"
  match listed.find? (·.definitionAssetId = assetId) with
  | some latest => if latest.status = .deployed then pure (some latest.id) else pure none
  | none => pure none

def installInputPath : String := ".workbench-install.json"

/-- The numbers of a text that has none. -/
def noNumerals : Numerals Unit := ⟨fun _ => ['0'], fun _ => ()⟩

def installInputJson (entry : String) (sourceOfferingIds : List String)
    (defaultSourceOfferingId : String) : Json Unit :=
  .object [("entry", .string entry),
    ("sourceOfferingIds", .array (sourceOfferingIds.map .string)),
    ("defaultSourceOfferingId", .string defaultSourceOfferingId)]

def installInputText (entry : String) (sourceOfferingIds : List String)
    (defaultSourceOfferingId : String) : String :=
  String.ofList (Json.stringify noNumerals
    (installInputJson entry sourceOfferingIds defaultSourceOfferingId))

/-- What an install gives back, with the file tree it has published, which the code does not give
back. -/
structure Installed where
  assetId : Id
  commitSha : Commit
  deploymentId : Id
  files : Files

section

variable {Q : Type} {A : Q → Type}

/-- The file tree of a call: the source and the input of the deployment. -/
def InstallPackageArgs.tree (args : InstallPackageArgs A) (source : Files) : Files :=
  source.set installInputPath
    (installInputText args.entry args.sourceOfferingIds args.defaultSourceOfferingId)

/-- The files are pushed with a token that is deleted whatever happens. -/
def publish (assetName : String) (assetId : Id) (files : Files) (now : ℕ) :
    InstallClient Pushed := do
  let token : Id × String ← send (.mintGitToken assetId) "minting a push token failed"
  (pushSourceTree assetName token.2 files now).andFinally (.ask (.deleteGitToken token.1) fun
    | .threw => .fail networkError
    | _ => pure ())

def deployPushed (args : InstallPackageArgs A) (assetId : Id) (files : Files) (pushed : Pushed) :
    InstallClient Installed := do
  let deployed : Id ← send (.deploy ⟨assetId, pushed.commitSha, args.entry, args.sourceOfferingIds,
    args.defaultSourceOfferingId⟩) ("deploying " ++ args.assetName ++ " failed")
  pure ⟨assetId, pushed.commitSha, deployed, files⟩

def publishAndDeploy (args : InstallPackageArgs A) (now : ℕ) (assetId : Id) (source : Files) :
    InstallClient Installed := do
  let pushed ← publish args.assetName assetId (args.tree source) now
  if ¬ pushed.changed ∧ ¬ args.redeploy then
    match ← latestDeploymentId assetId with
    | some existing => pure ⟨assetId, pushed.commitSha, existing, args.tree source⟩
    | none => deployPushed args assetId (args.tree source) pushed
  else deployPushed args assetId (args.tree source) pushed

def installPackage (args : InstallPackageArgs A) (now : ℕ) :
    Client (Sum.elim A InstallRequest.Answers) String Installed := do
  let assetId ← (ensureWorkflowAsset args.assetName args.displayName).right
  let source ← (args.files assetId).left
  (publishAndDeploy args now assetId source).right

end

end Workbench.Web
