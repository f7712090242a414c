import Pacer.Cluster.Rendezvous
import Pacer.Foundation.Text

/-!
# Static membership

A ring can be built from a list of peers in text.  Nothing removes a name that
is listed twice, the owner is the last member of the highest score, and the
ranking keeps members of one score in their order.  So the owner and the homes
agree, and do not depend on the order of the list, just when no name among the
homes is repeated, the last of them apart, which may be repeated with the same
address.
-/

namespace Pacer
namespace Cluster

open Foundation

def parsePeer (pair : List Char) : Option NodeId :=
  match Text.splitOnce '=' pair with
  | none => none
  | some (name, addr) =>
    let name := Radix.trim name
    let addr := Radix.trim addr
    if name ≠ [] ∧ addr ≠ [] then
      some { name := String.ofList name, addr := String.ofList addr }
    else none

def peerEntries (s : String) : List (List Char) := s.toList.splitOn ','

def parseStaticPeers (s : String) : List NodeId :=
  (peerEntries s).filterMap parsePeer

def staticRing (s : String) : Ring := { members := parseStaticPeers s }

variable (score : String -> String -> Nat)

structure Agrees (s key : String) (r : Nat) : Prop where
  owner : 1 ≤ r -> (staticRing s).members ≠ [] ->
    (staticRing s).owner score key = ((staticRing s).homes score key r)[0]?
  count : ((staticRing s).homes score key r).length =
    min r (Ranking.distinct NodeId.name (staticRing s).members)
  names : (((staticRing s).homes score key r).map NodeId.name).Nodup
  order : forall other : String, (peerEntries other).Perm (peerEntries s) ->
    (staticRing other).homes score key r = (staticRing s).homes score key r

variable {score} {s key : String} {r : Nat}

theorem agrees_of_settled
    (hscore : Ranking.Distinguishes NodeId.name (fun name => score name key)
      (parseStaticPeers s))
    (h : Ranking.Settled NodeId.name (fun name => score name key)
      (parseStaticPeers s) r) : Agrees score s key r := by
  refine ⟨?_, h.length, h.nodup, ?_⟩
  · intro hr _
    have howner := h.maxByKey_eq hscore hr
    unfold Ring.homes
    rw [List.getElem?_take_of_lt hr, ← List.head?_eq_getElem?]
    exact howner
  · intro other hentries
    exact h.take_eq hscore (hentries.filterMap parsePeer)

theorem exists_peers {entries : List (List Char)}
    (h : entries.Perm (peerEntries s)) :
    exists other : String, peerEntries other = entries := by
  refine ⟨String.ofList ([','].intercalate entries), ?_⟩
  unfold peerEntries
  rw [String.toList_ofList]
  apply List.splitOn_intercalate
  · intro piece hpiece
    exact Text.notMem_of_mem_splitOn (h.mem_iff.mp hpiece)
  · intro hnil
    rw [hnil] at h
    exact List.splitOn_ne_nil _ _ h.symm.eq_nil

theorem settled_of_agrees
    (hscore : Ranking.Distinguishes NodeId.name (fun name => score name key)
      (parseStaticPeers s))
    (h : Agrees score s key r) :
    Ranking.Settled NodeId.name (fun name => score name key)
      (parseStaticPeers s) r := by
  apply Ranking.settled_of_fronts hscore h.names
  intro a b hsublist
  -- The two members come from two entries, which can be put in front.
  rcases List.sublist_filterMap_iff.mp hsublist with ⟨two, htwo, hparsed⟩
  rcases htwo.exists_perm_append with ⟨rest, hrest⟩
  have hfront : forall (front : List (List Char)) (members : List NodeId),
      front.Perm two -> front.filterMap parsePeer = members ->
      (Ranking.ranked NodeId.name (fun name => score name key)
          (members ++ rest.filterMap parsePeer)).take r =
        (staticRing s).homes score key r := by
    intro front members hperm hmembers
    have hentries : (front ++ rest).Perm (peerEntries s) :=
      (hperm.append_right rest).trans hrest.symm
    rcases exists_peers hentries with ⟨other, hother⟩
    have hring : parseStaticPeers other =
        members ++ rest.filterMap parsePeer := by
      unfold parseStaticPeers
      rw [hother, List.filterMap_append, hmembers]
    rw [← hring]
    apply h.order other
    rw [hother]
    exact hentries
  refine ⟨rest.filterMap parsePeer, ?_, ?_, ?_⟩
  · have hmembers := hrest.filterMap parsePeer
    rw [List.filterMap_append, ← hparsed] at hmembers
    exact hmembers
  · exact hfront two [a, b] (List.Perm.refl two) hparsed.symm
  · apply hfront two.reverse [b, a] two.reverse_perm
    rw [List.filterMap_reverse, ← hparsed]
    rfl

variable (score) (s key) (r)

/-- The owner, the ranking and the homes agree just when no name the homes reach
is repeated, or only the last of them by the same member. -/
theorem static_ring_agrees_iff
    (hscore : Ranking.Distinguishes NodeId.name (fun name => score name key)
      (parseStaticPeers s)) :
    Agrees score s key r <->
      Ranking.Settled NodeId.name (fun name => score name key)
        (parseStaticPeers s) r :=
  ⟨settled_of_agrees hscore, agrees_of_settled hscore⟩

theorem static_ring_agrees_one :
    Ranking.Distinguishes NodeId.name (fun name => name.length)
        (parseStaticPeers "a=1, bb=2,a=3") ∧
      Agrees (fun name _ => name.length) "a=1, bb=2,a=3" "k" 1 := by
  have hscore : Ranking.Distinguishes NodeId.name (fun name => name.length)
      (parseStaticPeers "a=1, bb=2,a=3") := by
    unfold Ranking.Distinguishes
    decide +kernel
  refine ⟨hscore, ?_⟩
  apply (static_ring_agrees_iff (fun name _ => name.length) _ _ _ hscore).mpr
  unfold Ranking.Settled
  decide +kernel

/-- One name with two addresses: the owner is the last of them, the first home
is the first, both are homes, and the other order of the list gives other
homes. -/
theorem repeated_peer_disagrees :
    Ranking.Distinguishes NodeId.name (fun _ => 0)
        (parseStaticPeers "a=1,a=2") ∧
      (staticRing "a=1,a=2").owner (fun _ _ => 0) "k" = some ⟨"a", "2"⟩ ∧
      (staticRing "a=1,a=2").homes (fun _ _ => 0) "k" 2 =
        [⟨"a", "1"⟩, ⟨"a", "2"⟩] ∧
      (staticRing "a=2,a=1").homes (fun _ _ => 0) "k" 2 =
        [⟨"a", "2"⟩, ⟨"a", "1"⟩] := by
  unfold Ranking.Distinguishes
  decide +kernel

end Cluster
end Pacer
