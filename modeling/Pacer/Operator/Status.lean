import Mathlib.Order.Basic
import Pacer.Operator.Guard

/-!
# A ring's status

What a reconcile pass reports: three conditions, the counts of the rollout, the
ring's members, and the inventory of what the last successful apply wrote.  The
next pass prunes by that inventory.
-/

namespace Pacer
namespace Operator

inductive Outcome where
  | refused (message : String)
  | renderFailed (message : String)
  | applyFailed (message : String)
  | applied (inventory : List InventoryRef)
deriving DecidableEq, Repr

structure DaemonSetStatus where
  observedGeneration : Option Int
  desiredNumberScheduled : Int
  updatedNumberScheduled : Option Int
  numberReady : Int

structure DaemonSet where
  generation : Option Int
  status : Option DaemonSetStatus

structure Endpoint where
  ready : Option Bool
  nodeName : Option String

abbrev EndpointSlice := List Endpoint

structure Observed where
  daemonSet : Option DaemonSet
  peerSlices : Option (List EndpointSlice)

structure Condition where
  type : String
  status : String
  reason : String
  message : String
  observedGeneration : Option Int
  lastTransitionTime : Nat
deriving DecidableEq, Repr

structure CacheRingStatus where
  observedGeneration : Option Int
  conditions : List Condition
  desired : Int
  updated : Int
  ready : Int
  members : Option Nat
  memberNodes : List String
  inventory : List InventoryRef
deriving DecidableEq, Repr

abbrev Verdict := Bool × String × String

def rendered : Outcome -> Verdict
  | .refused m => (false, "ValuesRefused", m)
  | .renderFailed m => (false, "RenderFailed", m)
  | _ => (true, "Rendered", "")

def applied : Outcome -> Verdict
  | .applied inventory => (true, "Applied", s!"{inventory.length} objects")
  | .applyFailed m => (false, "ApplyFailed", m)
  | _ => (false, "NotRendered",
      "objects from the last successful render are left in place")

structure Rollout where
  desired : Int
  updated : Int
  ready : Int
  current : Bool
deriving DecidableEq, Repr

def isCurrent (observed generation : Option Int) : Bool :=
  match observed, generation with
  | none, _ => false
  | some _, none => true
  | some observed, some generation => decide (generation ≤ observed)

def rollout : Option DaemonSet -> Rollout
  | none => ⟨0, 0, 0, false⟩
  | some daemonSet =>
    match daemonSet.status with
    | none => ⟨0, 0, 0, false⟩
    | some status =>
      { desired := status.desiredNumberScheduled
        updated := status.updatedNumberScheduled.getD 0
        ready := status.numberReady
        current := isCurrent status.observedGeneration
          daemonSet.generation }

def readiness (outcome : Outcome) (r : Rollout)
    (members : Option (List String)) : Verdict :=
  match outcome with
  | .applied _ =>
    if r.desired = 0 then
      (false, "NoNodes",
        "no node matches the ring's nodeSelector and tolerations")
    else if r.current = false ∨ r.updated < r.desired then
      (false, "RollingOut",
        s!"{r.updated}/{r.desired} daemons on the current template")
    else if r.ready < r.desired then
      (false, "DaemonsNotReady", s!"{r.ready}/{r.desired} daemons ready")
    else if members.any (·.length < r.ready.toNat) then
      (false, "MembersMissing",
        s!"{(members.getD []).length}/{r.ready} ready daemons are ring members")
    else (true, "Converged", s!"{r.ready}/{r.desired} daemons ready")
  | _ => (false, "NotApplied", "see the Rendered and Applied conditions")

def memberNodes (slices : List EndpointSlice) : List String :=
  ((slices.flatten.filter (·.ready.getD false)).filterMap
    Endpoint.nodeName).eraseDups.mergeSort

def condition (prior : List Condition) (type : String) (verdict : Verdict)
    (generation : Int) (now : Nat) : Condition :=
  let status := if verdict.1 then "True" else "False"
  { type := type
    status := status
    reason := verdict.2.1
    message := verdict.2.2
    observedGeneration := some generation
    lastTransitionTime :=
      ((prior.find? fun c => c.type == type && c.status == status).map
        Condition.lastTransitionTime).getD now }

def nextInventory (previous : Option CacheRingStatus) :
    Outcome -> List InventoryRef
  | .applied inventory => inventory
  | _ => (previous.map CacheRingStatus.inventory).getD []

def build (previous : Option CacheRingStatus) (generation : Option Int)
    (outcome : Outcome) (seen : Observed) (now : Nat) : CacheRingStatus :=
  let r := rollout seen.daemonSet
  let members := seen.peerSlices.map memberNodes
  let prior := (previous.map CacheRingStatus.conditions).getD []
  let at' := generation.getD 0
  { observedGeneration := generation
    conditions :=
      [condition prior "Rendered" (rendered outcome) at' now,
        condition prior "Applied" (applied outcome) at' now,
        condition prior "Ready" (readiness outcome r members) at' now]
    desired := r.desired
    updated := r.updated
    ready := r.ready
    members := members.map fun nodes => min nodes.length (2 ^ 31 - 1)
    memberNodes := members.getD []
    inventory := nextInventory previous outcome }

end Operator
end Pacer
