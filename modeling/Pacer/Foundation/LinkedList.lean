import Mathlib.Data.List.Basic
import Mathlib.Data.List.Nodup
import Mathlib.Logic.Function.Basic

/-!
# Intrusive doubly linked lists

The links of a list threaded through its own nodes: a predecessor and a
successor for every node, and the two ends.  Unlinking a node and pushing one
at the back are the constant-time pointer updates; the predicate `Enumerates`
says which sequence of nodes the links spell, and the two results are that
unlinking removes a node from that sequence and pushing appends it.
-/

namespace Pacer
namespace Foundation

open Function

structure Links (node : Type) where
  prev : node -> Option node
  next : node -> Option node
  head : Option node
  tail : Option node

namespace Links

variable {node : Type} [DecidableEq node]

/-- Take `x` out: its neighbours are joined, or the end it was at moves. -/
def unlink (l : Links node) (x : node) : Links node :=
  let before := l.prev x
  let after := l.next x
  let l :=
    match before with
    | some p => { l with next := update l.next p after }
    | none => { l with head := after }
  let l :=
    match after with
    | some n => { l with prev := update l.prev n before }
    | none => { l with tail := before }
  { l with
    prev := update l.prev x none,
    next := update l.next x none }

def pushBack (l : Links node) (x : node) : Links node :=
  let oldTail := l.tail
  let l :=
    { l with
      tail := some x,
      prev := update l.prev x oldTail,
      next := update l.next x none }
  match oldTail with
  | some t => { l with next := update l.next t (some x) }
  | none => { l with head := some x }

structure Enumerates (l : Links node) (order : List node) : Prop where
  nodup : order.Nodup
  head : l.head = order.head?
  tail : l.tail = order.getLast?
  link : forall front x back, order = front ++ x :: back ->
    l.prev x = front.getLast? ∧ l.next x = back.head?

variable {l : Links node} {x y : node}

omit [DecidableEq node] in
theorem enumerates_nil (hhead : l.head = none) (htail : l.tail = none)
    : l.Enumerates [] := by
  refine ⟨List.nodup_nil, hhead, htail, ?_⟩
  intro front x back h
  cases front <;> cases h

/-!
## The updated links
-/

theorem unlink_head (l : Links node) (x : node) :
    (l.unlink x).head = if l.prev x = none then l.next x else l.head := by
  cases hp : l.prev x <;> cases hn : l.next x <;> simp [unlink, hp, hn]

theorem unlink_tail (l : Links node) (x : node) :
    (l.unlink x).tail = if l.next x = none then l.prev x else l.tail := by
  cases hp : l.prev x <;> cases hn : l.next x <;> simp [unlink, hp, hn]

theorem unlink_next (hne : y ≠ x) :
    (l.unlink x).next y =
      if l.prev x = some y then l.next x else l.next y := by
  cases hp : l.prev x <;> cases hn : l.next x <;>
    simp [unlink, hp, hn, update_apply, hne, eq_comm]

theorem unlink_prev (hne : y ≠ x) :
    (l.unlink x).prev y =
      if l.next x = some y then l.prev x else l.prev y := by
  cases hp : l.prev x <;> cases hn : l.next x <;>
    simp [unlink, hp, hn, update_apply, hne, eq_comm]

theorem pushBack_head (l : Links node) (x : node) :
    (l.pushBack x).head = if l.tail = none then some x else l.head := by
  cases ht : l.tail <;> simp [pushBack, ht]

theorem pushBack_tail (l : Links node) (x : node) :
    (l.pushBack x).tail = some x := by
  cases ht : l.tail <;> simp [pushBack, ht]

theorem pushBack_prev (l : Links node) (x y : node) :
    (l.pushBack x).prev y = if y = x then l.tail else l.prev y := by
  cases ht : l.tail <;> simp [pushBack, ht, update_apply]

theorem pushBack_next (l : Links node) (x y : node) :
    (l.pushBack x).next y =
      if l.tail = some y then some x
      else if y = x then none else l.next y := by
  cases ht : l.tail <;>
    simp [pushBack, ht, update_apply, eq_comm]

/-!
## The sequence the links spell
-/

omit [DecidableEq node] in
theorem getLast?_ne_of_nodup {front rest : List node} {y z : node}
    (hnodup : (front ++ y :: z :: rest).Nodup) :
    (front ++ y :: z :: rest).getLast? ≠ some y := by
  intro heq
  have hlast : (z :: rest).getLast? = some y := by
    simpa [List.getLast?_append, List.getLast?_cons_cons] using heq
  have hcons := (List.nodup_append.mp hnodup).2.1
  exact (List.nodup_cons.mp hcons).1 (List.mem_of_getLast? hlast)

theorem unlink_link_behind {front mid back : List node}
    (h : l.Enumerates (front ++ x :: (mid ++ y :: back))) :
    (l.unlink x).prev y = (front ++ mid).getLast? ∧
      (l.unlink x).next y = back.head? := by
  have hnodup := h.nodup
  have hx := h.link front x (mid ++ y :: back) rfl
  have hy := h.link (front ++ x :: mid) y back (by simp)
  have hne : y ≠ x := by
    intro heq
    subst heq
    simp [List.nodup_append] at hnodup
  have hyFront : front.getLast? ≠ some y := by
    intro heq
    have hmem := List.mem_of_getLast? heq
    have hdisj := (List.nodup_append.mp hnodup).2.2 y hmem y (by simp)
    exact hdisj rfl
  constructor
  · rw [unlink_prev hne, hx.right, hx.left, hy.left]
    cases mid with
    | nil =>
      simp
    | cons z rest =>
      have hz : z ≠ y := by
        intro heq
        subst heq
        simp [List.nodup_append] at hnodup
      simp [hz, List.getLast?_append]
  · rw [unlink_next hne, hx.left, if_neg hyFront, hy.right]

theorem unlink_link_before {front mid back : List node}
    (h : l.Enumerates ((front ++ y :: mid) ++ x :: back)) :
    (l.unlink x).prev y = front.getLast? ∧
      (l.unlink x).next y = (mid ++ back).head? := by
  have hnodup := h.nodup
  have hx := h.link (front ++ y :: mid) x back rfl
  have hy := h.link front y (mid ++ x :: back) (by simp)
  have hne : y ≠ x := by
    intro heq
    subst heq
    simp [List.nodup_append] at hnodup
  have hyBack : back.head? ≠ some y := by
    intro heq
    have hmem := List.mem_of_head? heq
    have hdisj := (List.nodup_append.mp hnodup).2.2 y (by simp) y (by simp [hmem])
    exact hdisj rfl
  constructor
  · rw [unlink_prev hne, hx.right, if_neg hyBack, hy.left]
  · rw [unlink_next hne, hx.left, hx.right, hy.right]
    cases mid with
    | nil =>
      simp
    | cons z rest =>
      have hfront := (List.nodup_append.mp hnodup).1
      rw [if_neg (getLast?_ne_of_nodup hfront)]
      rfl

theorem unlink_enumerates {front back : List node} {x : node}
    (h : l.Enumerates (front ++ x :: back)) :
    (l.unlink x).Enumerates (front ++ back) := by
  have hx := h.link front x back rfl
  refine ⟨?_, ?_, ?_, ?_⟩
  · exact h.nodup.sublist (List.Sublist.append (List.Sublist.refl _) (List.sublist_cons_self _ _))
  · rw [unlink_head, hx.left, hx.right, h.head]
    cases front <;> simp
  · rw [unlink_tail, hx.left, hx.right, h.tail]
    cases back with
    | nil => simp
    | cons z rest => simp [List.getLast?_append, List.getLast?_cons_cons]
  · intro before y after hsplit
    -- The node is in front of `x`, or behind it.
    rcases List.append_eq_append_iff.mp hsplit with
      ⟨mid, hbefore, hback⟩ | ⟨mid, hfront, hafter⟩
    · subst hbefore hback
      exact unlink_link_behind h
    · cases mid with
      | nil =>
        have hback : back = [] ++ y :: after := by simpa using hafter.symm
        have hfront' : front = before := by simpa using hfront
        subst hfront'
        rw [hback] at h
        simpa using unlink_link_behind h
      | cons z rest =>
        have hz : z = y := by
          have := congrArg List.head? hafter
          simpa using this.symm
        have hrest : after = rest ++ back := by
          have := congrArg List.tail hafter
          simpa using this
        subst hz hfront hrest
        exact unlink_link_before h

theorem pushBack_enumerates {order : List node} {x : node}
    (h : l.Enumerates order) (hx : x ∉ order) :
    (l.pushBack x).Enumerates (order ++ [x]) := by
  refine ⟨?_, ?_, ?_, ?_⟩
  · rw [List.nodup_append]
    refine ⟨h.nodup, List.nodup_singleton x, ?_⟩
    intro a ha b hb
    rw [List.mem_singleton.mp hb]
    exact fun heq => hx (heq ▸ ha)
  · rw [pushBack_head, h.tail, h.head]
    cases order <;> simp
  · rw [pushBack_tail]
    simp
  · intro front y back hsplit
    -- Either `y` is the pushed node, or something of `order` is behind it.
    rcases List.eq_nil_or_concat back with hnil | ⟨rest, last, hconcat⟩
    · subst hnil
      rcases List.append_inj' hsplit rfl with ⟨hfront, hy⟩
      have hyx : x = y := by simpa using hy
      subst hfront hyx
      have htail : l.tail ≠ some x := by
        intro heq
        rw [h.tail] at heq
        exact hx (List.mem_of_getLast? heq)
      constructor
      · rw [pushBack_prev, if_pos rfl, h.tail]
      · rw [pushBack_next, if_neg htail, if_pos rfl, List.head?_nil]
    · subst hconcat
      have hassoc : order ++ [x] = (front ++ y :: rest) ++ [last] := by
        simpa using hsplit
      rcases List.append_inj' hassoc rfl with ⟨horder, hlast⟩
      have hxl : x = last := by simpa using hlast
      subst horder hxl
      have hlink := h.link front y rest rfl
      have hne : y ≠ x := by
        intro heq
        exact hx (heq ▸ by simp)
      constructor
      · rw [pushBack_prev, if_neg hne, hlink.left]
      · rw [pushBack_next, h.tail, if_neg hne, hlink.right]
        cases rest with
        | nil => simp
        | cons z more =>
          rw [if_neg (getLast?_ne_of_nodup h.nodup)]
          rfl

/-!
## Reading the sequence off the links
-/

/-- Follow the successors from a node, for at most `fuel` nodes. -/
def walk (l : Links node) : Nat -> Option node -> List node
  | 0, _ => []
  | _ + 1, none => []
  | fuel + 1, some x => x :: l.walk fuel (l.next x)

omit [DecidableEq node] in
theorem walk_of_split {front back : List node} {fuel : Nat}
    (h : l.Enumerates (front ++ back)) (hfuel : back.length ≤ fuel) :
    l.walk fuel back.head? = back := by
  induction back generalizing front fuel with
  | nil => cases fuel <;> rfl
  | cons x rest ih =>
    cases fuel with
    | zero => cases hfuel
    | succ fuel =>
      have hnext := (h.link front x rest rfl).right
      have hassoc : front ++ x :: rest = (front ++ [x]) ++ rest := by simp
      rw [hassoc] at h
      rw [List.head?_cons, walk, hnext,
        ih h (Nat.le_of_succ_le_succ hfuel)]

omit [DecidableEq node] in
theorem Enumerates.walk_eq {order : List node} {fuel : Nat}
    (h : l.Enumerates order) (hfuel : order.length ≤ fuel) :
    l.walk fuel l.head = order := by
  have hsplit : l.Enumerates ([] ++ order) := h
  rw [h.head]
  exact walk_of_split hsplit hfuel

omit [DecidableEq node] in
theorem Enumerates.unique {order other : List node} (h : l.Enumerates order)
    (hother : l.Enumerates other) :
    order = other := by
  have hleft := h.walk_eq (Nat.le_max_left order.length other.length)
  have hright := hother.walk_eq (Nat.le_max_right order.length other.length)
  rw [← hleft, hright]

/-!
## Which nodes the links mention
-/

structure All (p : node -> Prop) (l : Links node) : Prop where
  prev : forall x y, l.prev x = some y -> p y
  next : forall x y, l.next x = some y -> p y
  head : forall y, l.head = some y -> p y
  tail : forall y, l.tail = some y -> p y

theorem all_unlink {p : node -> Prop} (h : l.All p) (x : node)
    : (l.unlink x).All p := by
  refine ⟨?_, ?_, ?_, ?_⟩
  · intro z y hy
    by_cases hz : z = x
    · simp [unlink, hz] at hy
    · rw [unlink_prev hz] at hy
      split at hy
      · exact h.prev x y hy
      · exact h.prev z y hy
  · intro z y hy
    by_cases hz : z = x
    · simp [unlink, hz] at hy
    · rw [unlink_next hz] at hy
      split at hy
      · exact h.next x y hy
      · exact h.next z y hy
  · intro y hy
    rw [unlink_head] at hy
    split at hy
    · exact h.next x y hy
    · exact h.head y hy
  · intro y hy
    rw [unlink_tail] at hy
    split at hy
    · exact h.prev x y hy
    · exact h.tail y hy

theorem all_pushBack {p : node -> Prop} (h : l.All p) {x : node} (hx : p x)
    : (l.pushBack x).All p := by
  refine ⟨?_, ?_, ?_, ?_⟩
  · intro z y hy
    rw [pushBack_prev] at hy
    split at hy
    · exact h.tail y hy
    · exact h.prev z y hy
  · intro z y hy
    rw [pushBack_next] at hy
    split at hy
    · cases hy
      exact hx
    · split at hy
      · cases hy
      · exact h.next z y hy
  · intro y hy
    rw [pushBack_head] at hy
    split at hy
    · cases hy
      exact hx
    · exact h.head y hy
  · intro y hy
    rw [pushBack_tail] at hy
    cases hy
    exact hx

end Links

end Foundation
end Pacer
