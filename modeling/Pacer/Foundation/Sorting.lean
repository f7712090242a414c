import Mathlib.Data.List.Destutter
import Mathlib.Data.List.Sort
import Mathlib.Order.Defs.LinearOrder

/-!
# Sorting by a key

A list whose keys increase is the only one among its rearrangements that is
sorted by key, whatever sorts it.  A stable sort with one item more has that
item somewhere and the others where they were, and from a sorted list the first
item of each key is picked by looking at neighbours only.
-/

namespace Pacer
namespace Foundation

variable {item key : Type} [LinearOrder key] {rank : item -> key}

theorem eq_of_rank_eq {ys : List item}
    (hys : ys.Pairwise fun p q => rank p < rank q) {p q : item}
    (hp : p ∈ ys) (hq : q ∈ ys) (h : rank p = rank q) : p = q := by
  induction ys with
  | nil => cases hp
  | cons y rest ih =>
    rcases List.pairwise_cons.mp hys with ⟨hhead, htail⟩
    rcases List.mem_cons.mp hp with rfl | hprest
    · rcases List.mem_cons.mp hq with rfl | hqrest
      · rfl
      · exact absurd h (ne_of_lt (hhead q hqrest))
    · rcases List.mem_cons.mp hq with rfl | hqrest
      · exact absurd h.symm (ne_of_lt (hhead p hprest))
      · exact ih htail hprest hqrest

theorem eq_of_perm_sorted {xs ys : List item} (hperm : xs.Perm ys)
    (hxs : xs.Pairwise fun p q => rank p ≤ rank q)
    (hys : ys.Pairwise fun p q => rank p < rank q) : xs = ys := by
  apply List.Perm.eq_of_pairwise _ hxs (hys.imp le_of_lt) hperm
  intro p q hp hq hpq hqp
  exact eq_of_rank_eq hys (hperm.mem_iff.mp hp) hq (le_antisymm hpq hqp)

/-!
## One item more
-/

section Insertion

variable {before : item -> item -> Prop} [DecidableRel before]

theorem orderedInsert_append_cons [IsTrans item before] (y x : item)
    {front back : List item} (hback : forall z, z ∈ back -> before x z) :
    exists front' back',
      (front ++ x :: back).orderedInsert before y = front' ++ x :: back' ∧
        (front ++ back).orderedInsert before y = front' ++ back' := by
  induction front with
  | nil =>
    rw [List.nil_append, List.nil_append, List.orderedInsert_cons]
    by_cases hyx : before y x
    · exists [y], back
      rw [if_pos hyx]
      constructor
      · rfl
      · cases back with
        | nil => rfl
        | cons z rest =>
          have hyz : before y z :=
            IsTrans.trans y x z hyx (hback z List.mem_cons_self)
          rw [List.orderedInsert_cons, if_pos hyz]
          rfl
    · exists [], back.orderedInsert before y
      rw [if_neg hyx]
      exact ⟨rfl, rfl⟩
  | cons a front ih =>
    rw [List.cons_append, List.cons_append, List.orderedInsert_cons,
      List.orderedInsert_cons]
    by_cases hya : before y a
    · exists y :: a :: front, back
      rw [if_pos hya, if_pos hya]
      exact ⟨rfl, rfl⟩
    · rcases ih with ⟨front', back', hwith, hwithout⟩
      exists a :: front', back'
      rw [if_neg hya, if_neg hya, hwith, hwithout]
      exact ⟨rfl, rfl⟩

theorem insertionSort_append_cons [Std.Total before] [IsTrans item before]
    (xs : List item) (x : item) (ys : List item) :
    exists front back,
      (xs ++ x :: ys).insertionSort before = front ++ x :: back ∧
        (xs ++ ys).insertionSort before = front ++ back := by
  induction xs with
  | nil =>
    exists _, _, List.insertionSort_cons_eq_take_drop before x ys
    exact List.takeWhile_append_dropWhile.symm
  | cons y xs ih =>
    rcases ih with ⟨front, back, hwith, hwithout⟩
    have hsorted := List.pairwise_insertionSort before (xs ++ x :: ys)
    rw [hwith] at hsorted
    have hback := (List.pairwise_append.mp hsorted).right.left
    rw [List.cons_append, List.cons_append, List.insertionSort_cons,
      List.insertionSort_cons, hwith, hwithout]
    exact orderedInsert_append_cons y x (List.pairwise_cons.mp hback).left

end Insertion

theorem take_append_cons (front : List item) (x : item) (back : List item)
    (r : Nat) :
    (front ++ x :: back).take r = (front ++ back).take r ∧
        (front ++ back).take r = front.take r ∨
      exists n, (front ++ x :: back).take r = front ++ x :: back.take n ∧
        (front ++ back).take r = front ++ (back.take n ++ back[n]?.toList) := by
  rcases Nat.lt_or_ge front.length r with hlt | hge
  · right
    have hr : r = front.length + (r - front.length - 1 + 1) := by lia
    exists r - front.length - 1
    rw [hr, List.take_length_add_append, List.take_length_add_append,
      List.take_succ_cons, List.take_add_one, ← hr]
    exact ⟨rfl, rfl⟩
  · left
    rw [List.take_append_of_le_length hge, List.take_append_of_le_length hge]
    exact ⟨rfl, rfl⟩

/-!
## The first item of each key
-/

theorem filter_insertionSort (k : key) (xs : List item) :
    (xs.insertionSort fun a b => rank a ≤ rank b).filter
        (fun x => decide (rank x = k)) =
      xs.filter fun x => decide (rank x = k) := by
  have hperm := (List.perm_insertionSort (fun a b : item => rank a ≤ rank b)
    xs).filter fun x => decide (rank x = k)
  have hsame : (xs.filter fun x => decide (rank x = k)).Pairwise
      fun a b => rank a ≤ rank b := by
    apply List.pairwise_iff_forall_sublist.mpr
    intro a b hab
    have ha := List.of_mem_filter (hab.subset List.mem_cons_self)
    have hb := List.of_mem_filter
      (hab.subset (List.mem_cons_of_mem a List.mem_cons_self))
    rw [of_decide_eq_true ha, of_decide_eq_true hb]
  have hsublist := (List.sublist_insertionSort hsame
    List.filter_sublist).filter fun x => decide (rank x = k)
  rw [List.filter_filter] at hsublist
  simp only [Bool.and_self] at hsublist
  exact (hsublist.eq_of_length hperm.length_eq.symm).symm

variable (rank) in
theorem pairwise_insertionSort (xs : List item) :
    (xs.insertionSort fun a b => rank a ≤ rank b).Pairwise
      fun a b => rank a ≤ rank b := by
  have htotal : Std.Total fun a b : item => rank a ≤ rank b :=
    ⟨fun a b => le_total _ _⟩
  have htrans : IsTrans item fun a b => rank a ≤ rank b :=
    ⟨fun a b c hab hbc => le_trans hab hbc⟩
  exact List.pairwise_insertionSort _ xs

theorem mem_destutter_iff {xs : List item}
    (hsorted : xs.Pairwise fun a b => rank a ≤ rank b) (x : item) :
    x ∈ xs.destutter (fun a b => rank a ≠ rank b) <->
      xs.find? (fun y => decide (rank y = rank x)) = some x := by
  cases xs with
  | nil => simp
  | cons a rest =>
    rw [List.destutter_cons']
    induction rest generalizing a with
    | nil =>
      rw [List.destutter'_nil, List.mem_singleton, List.find?_cons]
      by_cases hax : rank a = rank x
      · simp [hax, eq_comm]
      · have hne : x ≠ a := by
          intro hxa
          exact hax (by rw [hxa])
        simp [hax, hne]
    | cons b rest ih =>
      rcases List.pairwise_cons.mp hsorted with ⟨hahead, hrest⟩
      rw [List.destutter'_cons, List.find?_cons]
      by_cases hab : rank a = rank b
      · -- The neighbour is dropped, and is not the first of its key.
        have hshort : (a :: rest).Pairwise fun p q => rank p ≤ rank q :=
          List.pairwise_cons.mpr ⟨fun y hy =>
            hahead y (List.mem_cons_of_mem b hy),
            (List.pairwise_cons.mp hrest).right⟩
        rw [if_neg (not_not_intro hab), ih a hshort, List.find?_cons]
        by_cases hax : rank a = rank x
        · simp [hax]
        · have hbx : rank b ≠ rank x := by
            rw [← hab]
            exact hax
          simp [hax, hbx]
      · rw [if_pos hab, List.mem_cons, ih b hrest]
        by_cases hax : rank a = rank x
        · -- The key of the head does not come again.
          have hnone : (b :: rest).find?
              (fun y => decide (rank y = rank x)) = none := by
            apply List.find?_eq_none.mpr
            intro y hy hyx
            have hba : rank b ≤ rank a := by
              rw [hax, ← of_decide_eq_true hyx]
              rcases List.mem_cons.mp hy with hyb | hmem
              · rw [hyb]
              · exact (List.pairwise_cons.mp hrest).left y hmem
            exact hab (le_antisymm (hahead b List.mem_cons_self) hba)
          rw [hnone]
          simp [hax, eq_comm]
        · have hne : x ≠ a := by
            intro hxa
            exact hax (by rw [hxa])
          simp [hax, hne]

theorem pairwise_destutter {xs : List item}
    (hsorted : xs.Pairwise fun a b => rank a ≤ rank b) :
    (xs.destutter fun a b => rank a ≠ rank b).Pairwise
      fun a b => rank a < rank b := by
  have htrans : IsTrans item fun a b => rank a < rank b :=
    ⟨fun a b c hab hbc => lt_trans hab hbc⟩
  have hle := hsorted.sublist
    (List.destutter_sublist (fun a b => rank a ≠ rank b) xs)
  have hne := List.isChain_destutter (fun a b : item => rank a ≠ rank b) xs
  apply List.IsChain.pairwise
  apply List.isChain_iff_getElem.mpr
  intro i hi
  exact lt_of_le_of_ne
    (List.pairwise_iff_getElem.mp hle i (i + 1) _ hi (Nat.lt_succ_self i))
    (List.isChain_iff_getElem.mp hne i hi)

theorem mem_destutter_insertionSort {xs : List item} (x : item) :
    x ∈ (xs.insertionSort fun a b => rank a ≤ rank b).destutter
        (fun a b => rank a ≠ rank b) <->
      xs.find? (fun y => decide (rank y = rank x)) = some x := by
  rw [mem_destutter_iff (pairwise_insertionSort rank xs), ← List.head?_filter,
    ← List.head?_filter, filter_insertionSort]

theorem find?_flatMap_eq_some_iff {entry : Type} {keyOf : entry -> key}
    {itemsOf : entry -> List item} {p : item -> Bool} {x : item}
    {entries : List entry}
    (hsorted : entries.Pairwise fun a b => keyOf a < keyOf b) :
    (entries.flatMap itemsOf).find? p = some x <->
      exists e, e ∈ entries ∧ (itemsOf e).find? p = some x ∧
        forall other, other ∈ entries ->
          (exists y, y ∈ itemsOf other ∧ p y = true) -> keyOf e ≤ keyOf other := by
  induction entries with
  | nil => simp
  | cons first rest ih =>
    rcases List.pairwise_cons.mp hsorted with ⟨hfirst, hrest⟩
    rw [List.flatMap_cons, List.find?_append]
    cases hfound : (itemsOf first).find? p with
    | some y =>
      constructor
      · intro hyx
        rw [Option.some_or] at hyx
        refine ⟨first, List.mem_cons_self, hfound.trans hyx, ?_⟩
        intro other hother _
        rcases List.mem_cons.mp hother with heq | hmem
        · rw [heq]
        · exact le_of_lt (hfirst other hmem)
      · rintro ⟨e, he, hx, hleast⟩
        have hle := hleast first List.mem_cons_self
          ⟨y, List.mem_of_find?_eq_some hfound, List.find?_some hfound⟩
        rcases List.mem_cons.mp he with heq | hmem
        · rw [Option.some_or, ← hfound, ← heq]
          exact hx
        · exact absurd (hfirst e hmem) (not_lt_of_ge hle)
    | none =>
      rw [Option.none_or, ih hrest]
      constructor
      · rintro ⟨e, he, hx, hleast⟩
        refine ⟨e, List.mem_cons_of_mem first he, hx, ?_⟩
        intro other hother hhas
        rcases List.mem_cons.mp hother with heq | hmem
        · rw [heq]
          rw [heq] at hhas
          rcases hhas with ⟨y, hy, hpy⟩
          exact absurd hpy (List.find?_eq_none.mp hfound y hy)
        · exact hleast other hmem hhas
      · rintro ⟨e, he, hx, hleast⟩
        rcases List.mem_cons.mp he with heq | hmem
        · rw [heq, hfound] at hx
          cases hx
        refine ⟨e, hmem, hx, ?_⟩
        intro other hother hhas
        exact hleast other (List.mem_cons_of_mem first hother) hhas

end Foundation
end Pacer
