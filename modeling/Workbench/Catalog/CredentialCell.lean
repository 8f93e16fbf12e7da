import Workbench.Catalog.Credentials

/-!
The credentials that a running child holds.

Frames come from several producers, each of which knows a part of them only. A frame is merged into
what is held: it names what it takes away, and what it does not name stays.
-/

namespace Workbench.Catalog

open Workbench.Lib

structure CredentialDelivery where
  bindings : List CredentialBindingDescriptor
  materials : List CredentialMaterialEntry
  deriving DecidableEq, Repr

/-- A handle is unique within its consumer only. -/
def bindingKey (binding : CredentialBindingDescriptor) : String × String :=
  (binding.consumer, binding.handle)

/-- The bindings without those of a credential. -/
def dropBindings (credentialId : String)
    (bindings : OrderedMap (String × String) CredentialBindingDescriptor) :
    OrderedMap (String × String) CredentialBindingDescriptor :=
  ⟨bindings.entries.filter fun entry => entry.2.credentialId ≠ credentialId,
    bindings.nodup.sublist (List.filter_sublist.map _)⟩

def mergeCredentialDelivery (current : Option CredentialDelivery) (delivery : CredentialDelivery)
    (revoke : Option (List String)) : CredentialDelivery :=
  let held := current.getD ⟨[], []⟩
  let materials := Shadowing.puts (·.credentialId) .empty held.materials
  let bindings := Shadowing.puts bindingKey .empty held.bindings
  let revoked := revoke.getD []
  let materials := revoked.foldl (fun m credentialId => m.keep (· ≠ credentialId)) materials
  let bindings := revoked.foldl (fun m credentialId => dropBindings credentialId m) bindings
  { bindings := (Shadowing.puts bindingKey bindings delivery.bindings).values
    materials := (Shadowing.puts (·.credentialId) materials delivery.materials).values }

/-! ### What is held for one credential and for one handle -/

variable {current : Option CredentialDelivery} {delivery : CredentialDelivery}
  {revoke : Option (List String)} {credentialId : String}

/-- The material of a credential; of several the last counts. -/
def CredentialDelivery.materialOf (delivery : CredentialDelivery) (credentialId : String) :
    Option CredentialMaterialEntry :=
  delivery.materials.reverse.find? (·.credentialId = credentialId)

/-- The binding of a handle; of several the last counts. -/
def CredentialDelivery.bindingOf (delivery : CredentialDelivery) (handle : String × String) :
    Option CredentialBindingDescriptor :=
  delivery.bindings.reverse.find? (bindingKey · = handle)

lemma get_foldl_keep {m : OrderedMap String CredentialMaterialEntry} {revoked : List String} :
    (revoked.foldl (fun m credentialId => m.keep (· ≠ credentialId)) m).get credentialId =
      if credentialId ∈ revoked then none else m.get credentialId := by
  induction revoked generalizing m with
  | nil => simp
  | cons id revoked ih =>
    rw [List.foldl_cons, ih, OrderedMap.get_keep]
    by_cases hid : credentialId = id <;> simp [hid]

lemma get_dropBindings {m : OrderedMap (String × String) CredentialBindingDescriptor}
    {handle : String × String} : (dropBindings credentialId m).get handle =
      (m.get handle).filter (·.credentialId ≠ credentialId) := by
  ext binding
  rw [OrderedMap.get_eq_some, Option.filter_eq_some_iff, OrderedMap.get_eq_some]
  simp [dropBindings]

lemma get_foldl_drop {m : OrderedMap (String × String) CredentialBindingDescriptor}
    {revoked : List String} {handle : String × String} :
    (revoked.foldl (fun m credentialId => dropBindings credentialId m) m).get handle =
      (m.get handle).filter (·.credentialId ∉ revoked) := by
  induction revoked generalizing m with
  | nil => cases hget : m.get handle <;> simp [hget, Option.filter]
  | cons id revoked ih =>
    rw [List.foldl_cons, ih, get_dropBindings, Option.filter_filter]
    congr 1
    funext binding
    simp

lemma keyed_foldl_keep {m : OrderedMap String CredentialMaterialEntry} {revoked : List String}
    (h : Shadowing.Keyed (·.credentialId) m) : Shadowing.Keyed (·.credentialId)
      (revoked.foldl (fun m credentialId => m.keep (· ≠ credentialId)) m) := by
  intro k material hget
  rw [get_foldl_keep] at hget
  split_ifs at hget
  exact h k material hget

lemma keyed_foldl_drop {m : OrderedMap (String × String) CredentialBindingDescriptor}
    {revoked : List String} (h : Shadowing.Keyed bindingKey m) : Shadowing.Keyed bindingKey
      (revoked.foldl (fun m credentialId => dropBindings credentialId m) m) := by
  intro k binding hget
  rw [get_foldl_drop, Option.filter_eq_some_iff] at hget
  exact h k binding hget.1

/-- **The material of a credential after a frame** is the one in the frame; if there is none, the
one that was held and is not revoked. -/
lemma materialOf_merge : (mergeCredentialDelivery current delivery revoke).materialOf credentialId =
    (delivery.materialOf credentialId <|> if credentialId ∈ revoke.getD [] then none
      else (current.getD ⟨[], []⟩).materialOf credentialId) := by
  rw [CredentialDelivery.materialOf, mergeCredentialDelivery,
    (keyed_foldl_keep Shadowing.keyed_empty.puts).puts.find?_values, Shadowing.get_puts,
    get_foldl_keep, Shadowing.get_puts]
  simp [CredentialDelivery.materialOf]

/-- **The binding of a handle after a frame** is the one in the frame; if there is none, the one
that was held, where its credential is not revoked. -/
lemma bindingOf_merge {handle : String × String} :
    (mergeCredentialDelivery current delivery revoke).bindingOf handle =
    (delivery.bindingOf handle <|>
      ((current.getD ⟨[], []⟩).bindingOf handle).filter (·.credentialId ∉ revoke.getD [])) := by
  rw [CredentialDelivery.bindingOf, mergeCredentialDelivery,
    (keyed_foldl_drop Shadowing.keyed_empty.puts).puts.find?_values, Shadowing.get_puts,
    get_foldl_drop, Shadowing.get_puts]
  simp [CredentialDelivery.bindingOf]

/-! ### Over a whole run of frames -/

/-- What is sent to a child: a delivery, and the credentials to drop. -/
structure CredentialFrame where
  delivery : CredentialDelivery
  revoke : Option (List String)
  deriving DecidableEq, Repr

/-- What a child holds after frames. -/
def afterFrames (current : Option CredentialDelivery) (frames : List CredentialFrame) :
    Option CredentialDelivery :=
  frames.foldl (fun cell frame => some (mergeCredentialDelivery cell frame.delivery frame.revoke))
    current

/-- Every binding has its material. -/
def CredentialDelivery.Backed (delivery : CredentialDelivery) : Prop :=
  ∀ binding ∈ delivery.bindings, ∃ material ∈ delivery.materials,
    material.credentialId = binding.credentialId

lemma isSome_materialOf : (delivery.materialOf credentialId).isSome ↔
    ∃ material ∈ delivery.materials, material.credentialId = credentialId := by
  simp [CredentialDelivery.materialOf, List.find?_isSome]

lemma materialOf_eq_some {material : CredentialMaterialEntry}
    (hnodup : (delivery.materials.map (·.credentialId)).Nodup) :
    delivery.materialOf credentialId = some material ↔
      material ∈ delivery.materials ∧ material.credentialId = credentialId := by
  have hreverse : (delivery.materials.reverse.map (·.credentialId)).Nodup := by
    rwa [List.map_reverse, List.nodup_reverse]
  constructor
  · intro h
    exact ⟨List.mem_reverse.mp (List.mem_of_find?_eq_some h), by simpa using List.find?_some h⟩
  · rintro ⟨hmem, rfl⟩
    exact Shadowing.find?_of_nodup hreverse (List.mem_reverse.mpr hmem)

lemma mem_bindings_of_bindingOf {handle : String × String} {binding : CredentialBindingDescriptor}
    (h : delivery.bindingOf handle = some binding) : binding ∈ delivery.bindings :=
  List.mem_reverse.mp (List.mem_of_find?_eq_some h)

/-- What is held has one binding for a handle. -/
lemma bindingOf_of_mem_merge {binding : CredentialBindingDescriptor}
    (h : binding ∈ (mergeCredentialDelivery current delivery revoke).bindings) :
    (mergeCredentialDelivery current delivery revoke).bindingOf (bindingKey binding) =
      some binding := by
  have hkeyed : Shadowing.Keyed bindingKey (Shadowing.puts bindingKey ((revoke.getD []).foldl
      (fun m credentialId => dropBindings credentialId m)
      (Shadowing.puts bindingKey .empty (current.getD ⟨[], []⟩).bindings)) delivery.bindings) :=
    (keyed_foldl_drop Shadowing.keyed_empty.puts).puts
  obtain ⟨k, hk⟩ := OrderedMap.mem_values.1 h
  obtain rfl := hkeyed k binding hk
  exact hkeyed.find?_values.trans hk

/-- A frame keeps every binding with its material. -/
lemma backed_merge (hcurrent : (current.getD ⟨[], []⟩).Backed) (hdelivery : delivery.Backed) :
    (mergeCredentialDelivery current delivery revoke).Backed := by
  intro binding hmem
  have hbinding := bindingOf_of_mem_merge hmem
  rw [bindingOf_merge] at hbinding
  rw [← isSome_materialOf, materialOf_merge]
  cases hnew : delivery.bindingOf (bindingKey binding) with
  | some binding' =>
    obtain rfl : binding' = binding := by simpa [hnew] using hbinding
    have hmaterial := isSome_materialOf.2 (hdelivery binding' (mem_bindings_of_bindingOf hnew))
    cases hget : delivery.materialOf binding'.credentialId <;> simp [hget] at hmaterial ⊢
  | none =>
    rw [hnew] at hbinding
    obtain ⟨hheld, hkept⟩ := Option.filter_eq_some_iff.mp hbinding
    have hmaterial := isSome_materialOf.2 (hcurrent binding (mem_bindings_of_bindingOf hheld))
    rw [decide_eq_true_eq] at hkept
    rw [if_neg hkept]
    cases delivery.materialOf binding.credentialId with
    | some => rfl
    | none => exact hmaterial

/-- No frame leaves a binding without its material, where none brings one. -/
lemma backed_frames {frames : List CredentialFrame}
    (hcurrent : (current.getD ⟨[], []⟩).Backed) (hframes : ∀ f ∈ frames, f.delivery.Backed) :
    ((afterFrames current frames).getD ⟨[], []⟩).Backed := by
  induction frames generalizing current with
  | nil => exact hcurrent
  | cons frame frames ih =>
    rw [afterFrames, List.foldl_cons, ← afterFrames]
    exact ih (backed_merge hcurrent (hframes frame List.mem_cons_self))
      fun f hf => hframes f (List.mem_cons_of_mem _ hf)

/-- What a frame tells of a credential, if it names it: its material, or that it is gone. -/
def CredentialFrame.tells (frame : CredentialFrame) (credentialId : String) :
    Option (Option CredentialMaterialEntry) :=
  match frame.delivery.materialOf credentialId with
  | some material => some (some material)
  | none => if credentialId ∈ frame.revoke.getD [] then some none else none

/-- The last frame that names a credential decides about it. -/
lemma materialOf_afterFrames {frames : List CredentialFrame} :
    ((afterFrames current frames).getD ⟨[], []⟩).materialOf credentialId =
      (frames.reverse.findSome? (·.tells credentialId)).getD
        ((current.getD ⟨[], []⟩).materialOf credentialId) := by
  induction frames generalizing current with
  | nil => rfl
  | cons frame frames ih =>
    rw [afterFrames, List.foldl_cons, ← afterFrames, ih, Option.getD_some, materialOf_merge,
      List.reverse_cons, List.findSome?_append]
    cases frames.reverse.findSome? (·.tells credentialId) with
    | some => rfl
    | none =>
      simp only [Option.getD_none, Option.none_or, List.findSome?_singleton, CredentialFrame.tells]
      cases frame.delivery.materialOf credentialId with
      | some => rfl
      | none => by_cases h : credentialId ∈ frame.revoke.getD [] <;> simp [h]

end Workbench.Catalog
