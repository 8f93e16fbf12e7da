import Workbench.Catalog.Tables
import Workbench.Lib.Ancestry
import Workbench.Lib.Reach
import Workbench.Lib.Shadowing

/-!
The hierarchy of tenants: the chain from a tenant up to the root, and the subtree below one.
-/

namespace Workbench.Catalog

open Workbench.Lib

variable {db : Tables} {tenantId ancestorId : String} {chain : List String}

/-- The parent that the row of a tenant names, if it names one. -/
def parentOf (db : Tables) (tenantId : String) : Option String :=
  ((db.tenant.find? (·.id = tenantId)).bind (·.parentId)).filter (· ≠ "")

lemma mem_of_parentOf (tenantId parentId : String) (h : parentOf db tenantId = some parentId) :
    tenantId ∈ db.tenant.map (·.id) := by
  obtain ⟨hbind, -⟩ := Option.filter_eq_some_iff.mp h
  obtain ⟨row, hfind, -⟩ := Option.bind_eq_some_iff.mp hbind
  have hid : row.id = tenantId := by simpa using List.find?_some hfind
  exact hid ▸ List.mem_map_of_mem (List.mem_of_find?_eq_some hfind)

def getAncestorChain (db : Tables) (tenantId : String) : Except Fault (List String) :=
  match Ancestry.climb (parentOf db) (db.tenant.map (·.id)) mem_of_parentOf tenantId with
  | .ok chain => .ok chain
  | .error again => .error (.cycle again)

/-- The tenants whose parent is in the frontier. -/
def childrenOf (db : Tables) (frontier : List String) : List String :=
  (db.tenant.filter fun row => row.parentId.any (· ∈ frontier)).map (·.id)

def getDescendantTenants (db : Tables) (tenantId : String) : List String :=
  Reach.sweep (childrenOf db) ((db.tenant.map (·.id)).length + 1) [tenantId] [tenantId]

/-- `ancestorId` is the tenant or above it. -/
def Above (db : Tables) : String → String → Prop :=
  Relation.ReflTransGen (Ancestry.Step (parentOf db))

lemma getAncestorChain_eq_ok : getAncestorChain db tenantId = .ok chain ↔
    Ancestry.Climbed (parentOf db) tenantId chain := by
  rw [← Ancestry.climb_eq_ok mem_of_parentOf, getAncestorChain]
  split
  · next h => rw [h, Except.ok.injEq, Except.ok.injEq]
  · next h => rw [h]; exact ⟨nofun, nofun⟩

lemma mem_chain (h : getAncestorChain db tenantId = .ok chain) :
    ancestorId ∈ chain ↔ Above db tenantId ancestorId :=
  (getAncestorChain_eq_ok.1 h).mem_iff

/-- The chain stops at a tenant that is above itself. -/
theorem circle_of_getAncestorChain {fault : Fault}
    (h : getAncestorChain db tenantId = .error fault) : ∃ again, fault = .cycle again ∧
      Above db tenantId again ∧ Relation.TransGen (Ancestry.Step (parentOf db)) again again := by
  rw [getAncestorChain] at h
  split at h
  · cases h
  · next again hclimb =>
    obtain rfl := Except.error.inj h
    exact ⟨again, rfl, Ancestry.circle_of_climb hclimb⟩

/-- `childId` is a tenant with the parent `tenantId`. -/
def ChildOf (db : Tables) (tenantId childId : String) : Prop :=
  ∃ row ∈ db.tenant, row.id = childId ∧ row.parentId = some tenantId

lemma mem_childrenOf {frontier : List String} {childId : String} :
    childId ∈ childrenOf db frontier ↔ ∃ parentId ∈ frontier, ChildOf db parentId childId := by
  simp only [childrenOf, List.mem_map, List.mem_filter, Option.any_eq_true, decide_eq_true_eq]
  constructor
  · rintro ⟨row, ⟨hrow, parentId, hparent, hmem⟩, hid⟩
    exact ⟨parentId, hmem, row, hrow, hid, hparent⟩
  · rintro ⟨parentId, hmem, row, hrow, hid, hparent⟩
    exact ⟨row, ⟨hrow, parentId, hparent, hmem⟩, hid⟩

lemma childOf_iff (hkeyed : db.WellKeyed) {childId : String} :
    ChildOf db tenantId childId ↔ parentOf db childId = some tenantId := by
  constructor
  · rintro ⟨row, hrow, rfl, hparent⟩
    have hfind : db.tenant.find? (·.id = row.id) = some row :=
      Shadowing.find?_of_nodup hkeyed.tenant hrow
    have hname : tenantId ≠ "" := fun h => hkeyed.parents row hrow (h ▸ hparent)
    simp [parentOf, hfind, hparent, hname]
  · intro h
    obtain ⟨hbind, -⟩ := Option.filter_eq_some_iff.mp h
    obtain ⟨row, hfind, hparent⟩ := Option.bind_eq_some_iff.mp hbind
    exact ⟨row, List.mem_of_find?_eq_some hfind, by simpa using List.find?_some hfind, hparent⟩

/-- **The subtree of a tenant** is made of those that it is above. -/
theorem mem_getDescendantTenants (hkeyed : db.WellKeyed) :
    tenantId ∈ getDescendantTenants db ancestorId ↔ Above db tenantId ancestorId := by
  have hnodes : ∀ parentId childId, ChildOf db parentId childId →
      childId ∈ db.tenant.map (·.id) := by
    rintro parentId childId ⟨row, hrow, rfl, -⟩
    exact List.mem_map_of_mem hrow
  rw [getDescendantTenants, Reach.mem_sweep (fun _ _ => mem_childrenOf) hnodes,
    ← Relation.reflTransGen_swap, Above]
  have hstep : Function.swap (ChildOf db) = Ancestry.Step (parentOf db) := by
    funext childId parentId
    exact propext (childOf_iff hkeyed)
  rw [hstep]

end Workbench.Catalog
