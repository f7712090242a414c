import Mathlib.Logic.Function.Basic
import Pacer.Foundation.Text

/-!
# What the operator will write

Every rendered object passes the guard before it is applied: it is of one of a
few namespaced kinds, in the ring's namespace, and stamped with the ring's owner
reference and labels.

The inventory refers to an object by its full API version.  The cluster knows it
by the group alone; but of each kind the guard lets one version pass.
-/

namespace Pacer
namespace Operator

open Foundation.Text

/-- One object applied for a ring.  The API version is `group/version`, or the
version alone for the core group. -/
structure InventoryRef where
  apiVersion : String
  kind : String
  name : String
deriving DecidableEq, Repr

structure Ident where
  group : String
  kind : String
  name : String
deriving DecidableEq, Repr

def groupOf (apiVersion : String) : String :=
  match splitOnce '/' apiVersion.toList with
  | none => ""
  | some (group, _) => String.ofList group

def InventoryRef.ident (r : InventoryRef) : Ident :=
  ⟨groupOf r.apiVersion, r.kind, r.name⟩

structure OwnerReference where
  kind : String
  name : String
  uid : String
  controller : Bool
deriving DecidableEq, Repr

/-- A manifest, without the parts that are only passed on.  `roleRefKind` is the
kind a role binding binds. -/
structure DynamicObject where
  types : Option (String × String)
  name : Option String
  namespaceOf : Option String
  roleRefKind : Option String
  owners : List OwnerReference
  labels : String -> Option String

structure Ring where
  name : Option String
  namespaceOf : Option String
  uid : Option String

inductive GuardError where
  | kind (apiVersion kind name : String)
  | otherNamespace (kind name target : String)
  | clusterRoleBinding (name : String)
  | missing (what : String)
deriving DecidableEq, Repr

def GuardError.text : GuardError -> String
  | .kind apiVersion type name =>
    s!"{apiVersion} {type} {name} is not a kind the operator applies"
  | .otherNamespace type name target =>
    s!"{type} {name} targets namespace {target}, not the ring's"
  | .clusterRoleBinding name =>
    s!"RoleBinding {name} binds a ClusterRole; only a namespaced Role is allowed"
  | .missing what => s!"missing {what}"

def ringLabel : String := "pacer.io/ring"

def manager : String := "pacer-operator"

def managedByLabel : String := "app.kubernetes.io/managed-by"

def allowedKinds : List (String × String) :=
  [("v1", "ConfigMap"), ("v1", "Service"), ("v1", "ServiceAccount"),
    ("apps/v1", "DaemonSet"), ("rbac.authorization.k8s.io/v1", "Role"),
    ("rbac.authorization.k8s.io/v1", "RoleBinding"),
    ("networking.k8s.io/v1", "NetworkPolicy"),
    ("policy/v1", "PodDisruptionBudget"),
    ("monitoring.coreos.com/v1", "PrometheusRule")]

def Ring.controllerOwnerRef (ring : Ring) : Option OwnerReference :=
  match ring.name, ring.uid with
  | some name, some uid => some ⟨"CacheRing", name, uid, true⟩
  | _, _ => none

def inventoryRef (object : DynamicObject) : Except GuardError InventoryRef :=
  match object.types with
  | none => .error (.missing "apiVersion/kind")
  | some (apiVersion, kind) =>
    match object.name with
    | none => .error (.missing "object name")
    | some name => .ok ⟨apiVersion, kind, name⟩

def stampOwner (object : DynamicObject) (target ringName : String)
    (owner : OwnerReference) : DynamicObject :=
  { object with
    namespaceOf := some target
    owners := [owner]
    labels := Function.update
      (Function.update object.labels ringLabel (some ringName))
      managedByLabel (some manager) }

def stamp (target ringName : String) (owner : OwnerReference)
    (object : DynamicObject) : Except GuardError DynamicObject :=
  match inventoryRef object with
  | .error e => .error e
  | .ok r =>
    if (r.apiVersion, r.kind) ∉ allowedKinds then
      .error (.kind r.apiVersion r.kind r.name)
    else if object.namespaceOf.any (· ≠ target) then
      .error (.otherNamespace r.kind r.name (object.namespaceOf.getD ""))
    else if r.kind = "RoleBinding" ∧ object.roleRefKind ≠ some "Role" then
      .error (.clusterRoleBinding r.name)
    else .ok (stampOwner object target ringName owner)

def stampAll (target ringName : String) (owner : OwnerReference) :
    List DynamicObject -> Except GuardError (List DynamicObject)
  | [] => .ok []
  | object :: rest =>
    match stamp target ringName owner object with
    | .error e => .error e
    | .ok stamped =>
      match stampAll target ringName owner rest with
      | .error e => .error e
      | .ok others => .ok (stamped :: others)

def prepare (ring : Ring) (rendered : List DynamicObject) :
    Except GuardError (List DynamicObject) :=
  match ring.namespaceOf, ring.name, ring.controllerOwnerRef with
  | none, _, _ => .error (.missing "ring namespace")
  | some _, none, _ => .error (.missing "ring name")
  | some _, some _, none => .error (.missing "ring uid")
  | some target, some ringName, some owner =>
    stampAll target ringName owner rendered

/-!
## Guarded objects
-/

def InventoryRef.Guarded (r : InventoryRef) : Prop :=
  (r.apiVersion, r.kind) ∈ allowedKinds

theorem allowedKinds_one_version : forall a, a ∈ allowedKinds ->
    forall b, b ∈ allowedKinds -> groupOf a.1 = groupOf b.1 -> a.2 = b.2 ->
      a = b := by
  decide +kernel

theorem InventoryRef.Guarded.eq_of_ident {r other : InventoryRef}
    (hr : r.Guarded) (hother : other.Guarded) (h : r.ident = other.ident) :
    r = other := by
  rcases r with ⟨apiVersion, kind, name⟩
  rcases other with ⟨apiVersion', kind', name'⟩
  have hgroup := congrArg Ident.group h
  have hkind := congrArg Ident.kind h
  have hname : name = name' := congrArg Ident.name h
  have heq := allowedKinds_one_version _ hr _ hother hgroup hkind
  cases heq
  rw [hname]

/-- An object the guard lets pass has a reference of an allowed kind, and is
owned by the ring. -/
structure Stamped (ring : Ring) (object : DynamicObject) : Prop where
  guarded : exists r, inventoryRef object = .ok r ∧ r.Guarded
  owned : object.owners.map (fun owner => some owner.uid) = [ring.uid]

theorem inventoryRef_stampOwner (object : DynamicObject)
    (target ringName : String) (owner : OwnerReference) :
    inventoryRef (stampOwner object target ringName owner) =
      inventoryRef object := rfl

theorem stamped_of_stamp {ring : Ring} {target ringName : String}
    {owner : OwnerReference} {object stamped : DynamicObject}
    (howner : ring.controllerOwnerRef = some owner)
    (h : stamp target ringName owner object = .ok stamped) :
    Stamped ring stamped := by
  have huid : some owner.uid = ring.uid := by
    unfold Ring.controllerOwnerRef at howner
    split at howner
    · rename_i uid _ huid
      cases howner
      exact huid.symm
    · cases howner
  unfold stamp at h
  split at h
  · cases h
  rename_i r hr
  split at h
  · cases h
  rename_i hallowed
  split at h
  · cases h
  split at h
  · cases h
  cases h
  constructor
  · exists r
    rw [inventoryRef_stampOwner]
    exact ⟨hr, not_not.mp hallowed⟩
  · show [some owner.uid] = [ring.uid]
    rw [huid]

theorem stamped_of_prepare {ring : Ring}
    {rendered objects : List DynamicObject}
    (h : prepare ring rendered = .ok objects) :
    forall object, object ∈ objects -> Stamped ring object := by
  unfold prepare at h
  split at h
  · cases h
  · cases h
  · cases h
  rename_i target ringName owner _ _ howner
  induction rendered generalizing objects with
  | nil =>
    cases h
    intro object hmem
    cases hmem
  | cons first rest ih =>
    unfold stampAll at h
    split at h
    · cases h
    rename_i stamped hstamped
    split at h
    · cases h
    rename_i others hothers
    cases h
    intro object hmem
    rcases List.mem_cons.mp hmem with heq | hrest
    · rw [heq]
      exact stamped_of_stamp howner hstamped
    · exact ih hothers object hrest

end Operator
end Pacer
