import Pacer.Foundation.Ranking
import Pacer.Foundation.Sorting

/-!
# Rendezvous ring

Which nodes should hold a key: every member is scored against the key and the
members are ranked by falling score.  The scoring function is a parameter; only
the order of the scores is used.

A change of the membership moves only what it must: a member that goes is
replaced at the end, one that comes pushes out at most the last, and addresses
play no part.
-/

namespace Pacer
namespace Cluster

structure NodeId where
  name : String
  addr : String
deriving DecidableEq, Repr

structure Ring where
  members : List NodeId
deriving DecidableEq, Repr

namespace Ring

def member (ring : Ring) (name : String) : Option NodeId :=
  ring.members.find? fun node => node.name == name

variable {ring : Ring} {node : NodeId}

theorem name_of_member {name : String} (h : ring.member name = some node) :
    node.name = name := by
  have hfound := List.find?_some h
  exact beq_iff_eq.mp hfound

variable (score : String -> String -> Nat)

def owner (ring : Ring) (key : String) : Option NodeId :=
  Foundation.Ranking.maxByKey (fun node => score node.name key) ring.members

def ranked (ring : Ring) (key : String) : List NodeId :=
  ring.members.insertionSort fun a b => score b.name key ≤ score a.name key

def homes (ring : Ring) (key : String) (r : Nat) : List NodeId :=
  (ring.ranked score key).take r

theorem homes_ne_nil (hnode : node ∈ ring.members) (key : String) {r : Nat}
    (hr : 0 < r) : ring.homes score key r ≠ [] := by
  have hranked : node ∈ ring.ranked score key :=
    (List.mem_insertionSort _).mpr hnode
  unfold homes
  rw [Ne, List.take_eq_nil_iff]
  rintro (hzero | hnil)
  · lia
  · rw [hnil] at hranked
    cases hranked

/-!
## Changes of the membership
-/

theorem ranked_append_cons (key : String) (before : List NodeId)
    (node : NodeId) (after : List NodeId) :
    exists front back,
      ({ members := before ++ node :: after } : Ring).ranked score key =
          front ++ node :: back ∧
        ({ members := before ++ after } : Ring).ranked score key =
          front ++ back := by
  have htotal : Std.Total fun a b : NodeId =>
      score b.name key ≤ score a.name key :=
    ⟨fun a b => Nat.le_total _ _⟩
  have htrans : IsTrans NodeId fun a b => score b.name key ≤ score a.name key :=
    ⟨fun a b c hab hbc => Nat.le_trans hbc hab⟩
  exact Foundation.insertionSort_append_cons before node after

theorem nodup_ranked (hnames : (ring.members.map NodeId.name).Nodup)
    (key : String) :
    ((ring.ranked score key).map NodeId.name).Nodup := by
  have hperm := List.perm_insertionSort
    (fun a b : NodeId => score b.name key ≤ score a.name key) ring.members
  exact (hperm.map NodeId.name).nodup_iff.mpr hnames

theorem names_ranked (ring : Ring) (key : String) :
    (ring.ranked score key).map NodeId.name =
      (ring.members.map NodeId.name).insertionSort
        fun a b => score b key ≤ score a key := by
  unfold ranked
  apply List.map_insertionSort
  intro a _ b _
  exact Iff.rfl

/-- The homes with a member and without it: it is not one of them, or it takes
the place of at most one member, behind all others. -/
theorem homes_append_cons (key : String) (r : Nat) {before after : List NodeId}
    (hnames : ((before ++ node :: after).map NodeId.name).Nodup) :
    let full : Ring := { members := before ++ node :: after }
    let rest : Ring := { members := before ++ after }
    node.name ∉ (full.homes score key r).map NodeId.name ∧
        rest.homes score key r = full.homes score key r ∨
      exists front back, full.homes score key r = front ++ node :: back ∧
        (rest.homes score key r = front ++ back ∨
          exists new, new.name ∉ (full.homes score key r).map NodeId.name ∧
            rest.homes score key r = front ++ back ++ [new]) := by
  intro full rest
  rcases ranked_append_cons score key before node after with
    ⟨front, back, hfull, hrest⟩
  have hnodup : ((front ++ node :: back).map NodeId.name).Nodup := by
    rw [← hfull]
    exact nodup_ranked score hnames key
  unfold homes
  rw [hfull, hrest]
  rcases Foundation.take_append_cons front node back r with
    ⟨hsame, htake⟩ | ⟨n, hwith, hwithout⟩
  · left
    rw [hsame, htake]
    refine ⟨?_, rfl⟩
    intro hmem
    rw [List.map_append, List.map_cons] at hnodup
    have hfront : node.name ∈ front.map NodeId.name :=
      List.map_subset _ (List.take_subset r front) hmem
    exact (List.nodup_append.mp hnodup).right.right _ hfront _
      List.mem_cons_self rfl
  · right
    exists front, back.take n
    rw [hwith, hwithout]
    refine ⟨rfl, ?_⟩
    cases hn : back[n]? with
    | none =>
      left
      rw [Option.toList_none, List.append_nil]
    | some new =>
      right
      exists new
      constructor
      · -- What is behind the first `n` is not among them.
        rcases List.getElem?_eq_some_iff.mp hn with ⟨hlt, hget⟩
        have hsplit : front ++ node :: back =
            (front ++ node :: back.take n) ++ new :: back.drop (n + 1) := by
          rw [List.append_assoc, List.cons_append, ← hget,
            List.getElem_cons_drop, List.take_append_drop]
        rw [hsplit, List.map_append] at hnodup
        intro hmem
        exact (List.nodup_append.mp hnodup).right.right _ hmem _
          List.mem_cons_self rfl
      · rw [Option.toList_some, List.append_assoc]

/-- Taking out one member leaves the homes as they are unless it is one of them,
and then it is replaced by at most one member behind all others; with one member
more the homes are as they were, or have that member and lose at most the last.
The addresses have no part in it. -/
theorem homes_of_membership_change (key : String) (r : Nat)
    (before after : List NodeId) (node : NodeId)
    (hnames : ((before ++ node :: after).map NodeId.name).Nodup) :
    let full : Ring := { members := before ++ node :: after }
    let rest : Ring := { members := before ++ after }
    (node.name ∉ (full.homes score key r).map NodeId.name ->
      rest.homes score key r = full.homes score key r) ∧
    (node.name ∈ (full.homes score key r).map NodeId.name ->
      exists front back, full.homes score key r = front ++ node :: back ∧
        (rest.homes score key r = front ++ back ∨
          exists new, new.name ∉ (full.homes score key r).map NodeId.name ∧
            rest.homes score key r = front ++ back ++ [new])) ∧
    (full.homes score key r = rest.homes score key r ∨
      exists front back, full.homes score key r = front ++ node :: back ∧
        (rest.homes score key r = front ++ back ∨
          exists last, rest.homes score key r = front ++ back ++ [last])) ∧
    forall members : List NodeId,
      members.map NodeId.name = full.members.map NodeId.name ->
        (({ members := members } : Ring).homes score key r).map NodeId.name =
          (full.homes score key r).map NodeId.name := by
  intro full rest
  have hcases := homes_append_cons score key r hnames
  refine ⟨?_, ?_, ?_, ?_⟩
  · intro hnot
    rcases hcases with ⟨_, hsame⟩ | ⟨front, back, hfull, _⟩
    · exact hsame
    · exfalso
      apply hnot
      rw [hfull]
      exact List.mem_map_of_mem (List.mem_append_right _ List.mem_cons_self)
  · intro hmem
    rcases hcases with ⟨hnot, _⟩ | hreplaced
    · exact absurd hmem hnot
    · exact hreplaced
  · rcases hcases with ⟨_, hsame⟩ | ⟨front, back, hfull, hrest⟩
    · exact Or.inl hsame.symm
    · right
      exists front, back
      refine ⟨hfull, ?_⟩
      rcases hrest with hrest | ⟨last, _, hrest⟩
      · exact Or.inl hrest
      · exact Or.inr ⟨last, hrest⟩
  · intro members hsame
    unfold homes
    rw [List.map_take, List.map_take, names_ranked, names_ranked, hsame]

/-- Two homes of three members: when the one in front leaves, the second moves up
and the third comes in behind it. -/
theorem homes_of_departure :
    let score : String -> String -> Nat := fun name _ => name.length
    let full : Ring := { members := [⟨"aa", "1"⟩, ⟨"aaa", "2"⟩, ⟨"a", "3"⟩] }
    let rest : Ring := { members := [⟨"aa", "1"⟩, ⟨"a", "3"⟩] }
    (full.members.map NodeId.name).Nodup ∧
      (exists front back,
        full.homes score "key" 2 = front ++ ⟨"aaa", "2"⟩ :: back ∧
          (rest.homes score "key" 2 = front ++ back ∨
            exists new, new.name ∉
                (full.homes score "key" 2).map NodeId.name ∧
              rest.homes score "key" 2 = front ++ back ++ [new])) ∧
      rest.homes score "key" 2 = [⟨"aa", "1"⟩, ⟨"a", "3"⟩] := by
  intro score full rest
  have hnames : (full.members.map NodeId.name).Nodup := by decide
  have hchange := homes_of_membership_change score "key" 2 [⟨"aa", "1"⟩]
    [⟨"a", "3"⟩] ⟨"aaa", "2"⟩ hnames
  exact ⟨hnames, hchange.right.left (by decide), by decide⟩

end Ring

end Cluster
end Pacer
