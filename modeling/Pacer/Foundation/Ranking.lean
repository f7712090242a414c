import Mathlib.Data.List.Dedup
import Mathlib.Data.List.Pairwise
import Mathlib.Data.List.Perm.Subperm
import Mathlib.Data.List.Sort
import Mathlib.Data.List.TakeWhile

/-!
# Ranking with repeated names

Items have a name, and are ranked by falling score of their names; a stable sort
leaves items of one name in the order they came in.  Different names have
different scores, but a name may be repeated.  The first `r` of the ranking have
different names and do not depend on the order of the items just when no
repeated name is among the first `r` names, except that the last of them may be
repeated by equal items.
-/

namespace Pacer
namespace Foundation

namespace Ranking

def maxByKey {item : Type} (score : item -> Nat) : List item -> Option item
  | [] => none
  | first :: rest =>
    some (rest.foldl
      (fun best x => if score x < score best then best else x) first)

theorem exists_maxByKey {item : Type} (score : item -> Nat)
    {items : List item} {x : item} (hx : x ∈ items) :
    exists best, maxByKey score items = some best ∧ best ∈ items ∧
      forall y, y ∈ items -> score y ≤ score best := by
  cases items with
  | nil => cases hx
  | cons first rest =>
    refine ⟨_, rfl, ?_⟩
    clear hx
    induction rest generalizing first with
    | nil =>
      refine ⟨List.mem_cons_self, ?_⟩
      intro y hy
      rw [List.mem_singleton.mp hy]
      exact Nat.le_refl _
    | cons next rest ih =>
      rw [List.foldl_cons]
      by_cases hlt : score next < score first
      · rw [if_pos hlt]
        rcases ih first with ⟨hmem, hmax⟩
        have hfirst := hmax first List.mem_cons_self
        constructor
        · rcases List.mem_cons.mp hmem with heq | hmem
          · rw [heq]
            exact List.mem_cons_self
          · exact List.mem_cons_of_mem _ (List.mem_cons_of_mem _ hmem)
        · intro y hy
          rcases List.mem_cons.mp hy with heq | hy
          · rw [heq]
            exact hfirst
          · rcases List.mem_cons.mp hy with heq | hy
            · rw [heq]
              exact Nat.le_trans (Nat.le_of_lt hlt) hfirst
            · exact hmax y (List.mem_cons_of_mem _ hy)
      · rw [if_neg hlt]
        rcases ih next with ⟨hmem, hmax⟩
        refine ⟨List.mem_cons_of_mem _ hmem, ?_⟩
        intro y hy
        rcases List.mem_cons.mp hy with heq | hy
        · rw [heq]
          exact Nat.le_trans (Nat.not_lt.mp hlt)
            (hmax next List.mem_cons_self)
        · exact hmax y hy

variable {item name : Type} (nameOf : item -> name) (rank : name -> Nat)

def ranked (items : List item) : List item :=
  items.insertionSort fun a b => rank (nameOf b) ≤ rank (nameOf a)

def Distinguishes (items : List item) : Prop :=
  forall a, a ∈ items -> forall b, b ∈ items ->
    rank (nameOf a) = rank (nameOf b) -> nameOf a = nameOf b

section Sorted

variable {nameOf rank} {items : List item}

theorem perm_ranked (items : List item) :
    (ranked nameOf rank items).Perm items :=
  List.perm_insertionSort _ items

theorem mem_ranked {x : item} :
    x ∈ ranked nameOf rank items <-> x ∈ items :=
  (perm_ranked items).mem_iff

variable (nameOf rank) in
theorem pairwise_ranked (items : List item) :
    (ranked nameOf rank items).Pairwise
      fun a b => rank (nameOf b) ≤ rank (nameOf a) := by
  have htotal : Std.Total fun a b : item => rank (nameOf b) ≤ rank (nameOf a) :=
    ⟨fun a b => Nat.le_total _ _⟩
  have htrans : IsTrans item fun a b => rank (nameOf b) ≤ rank (nameOf a) :=
    ⟨fun a b c hab hbc => Nat.le_trans hbc hab⟩
  exact List.pairwise_insertionSort _ items

theorem scores_ranked {items' : List item} (h : items'.Perm items) :
    (ranked nameOf rank items').map (fun x => rank (nameOf x)) =
      (ranked nameOf rank items).map fun x => rank (nameOf x) := by
  have hperm : (ranked nameOf rank items').Perm (ranked nameOf rank items) :=
    ((perm_ranked items').trans h).trans (perm_ranked items).symm
  have hsorted : forall xs : List item,
      ((ranked nameOf rank xs).map fun x => rank (nameOf x)).Pairwise
        (· ≥ ·) := by
    intro xs
    exact List.pairwise_map.mpr (pairwise_ranked nameOf rank xs)
  apply List.Perm.eq_of_pairwise _ (hsorted items') (hsorted items)
    (hperm.map _)
  intro a b _ _ hab hba
  exact Nat.le_antisymm hba hab

variable (nameOf rank) in
theorem ranked_cons (x : item) (rest : List item) :
    exists front back, ranked nameOf rank (x :: rest) = front ++ x :: back ∧
      ranked nameOf rank rest = front ++ back ∧
      forall y, y ∈ front -> rank (nameOf x) < rank (nameOf y) := by
  refine ⟨_, _, List.insertionSort_cons_eq_take_drop _ x rest,
    List.takeWhile_append_dropWhile.symm, ?_⟩
  intro y hy
  have hnot := List.mem_takeWhile_imp hy
  exact Nat.not_le.mp (of_decide_eq_true hnot)

theorem next_of_repeated {x y : item} {rest front back : List item}
    (hdistinct : Distinguishes nameOf rank (x :: rest)) (hy : y ∈ rest)
    (hname : nameOf x = nameOf y)
    (hsorted : ranked nameOf rank (x :: rest) = front ++ x :: back)
    (hrest : ranked nameOf rank rest = front ++ back)
    (hfront : forall z, z ∈ front -> rank (nameOf x) < rank (nameOf z)) :
    exists z more, back = z :: more ∧ nameOf z = nameOf x := by
  have hback : y ∈ back := by
    have hmem : y ∈ front ++ back := by
      rw [← hrest]
      exact mem_ranked.mpr hy
    rcases List.mem_append.mp hmem with hmem | hmem
    · have hlt := hfront y hmem
      rw [hname] at hlt
      exact absurd hlt (Nat.lt_irrefl _)
    · exact hmem
  cases back with
  | nil => cases hback
  | cons z more =>
    have hpairwise := pairwise_ranked nameOf rank (x :: rest)
    rw [hsorted] at hpairwise
    have htail := (List.pairwise_append.mp hpairwise).right.left
    rcases List.pairwise_cons.mp htail with ⟨hbehind, hmore⟩
    have hle : rank (nameOf z) ≤ rank (nameOf x) :=
      hbehind z List.mem_cons_self
    have hge : rank (nameOf x) ≤ rank (nameOf z) := by
      rw [hname]
      rcases List.mem_cons.mp hback with hyz | hmem
      · rw [hyz]
      · exact (List.pairwise_cons.mp hmore).left y hmem
    have hz : z ∈ rest := by
      apply mem_ranked.mp
      rw [hrest]
      exact List.mem_append_right _ List.mem_cons_self
    refine ⟨z, more, rfl, ?_⟩
    exact hdistinct z (List.mem_cons_of_mem x hz) x List.mem_cons_self
      (Nat.le_antisymm hle hge)

end Sorted

variable [DecidableEq name]

def distinct (items : List item) : Nat := (items.map nameOf).dedup.length

def namesAbove (items : List item) (n : name) : List name :=
  (items.map nameOf).dedup.filter fun other => rank n < rank other

def above (items : List item) (n : name) : Nat :=
  (namesAbove nameOf rank items n).length

/-- A repeated name is not among the first `r` names, or is the last of them and
its items are equal. -/
def Settled (items : List item) (r : Nat) : Prop :=
  items.Pairwise fun a b => nameOf a = nameOf b ->
    r ≤ above nameOf rank items (nameOf a) ∨
      r = above nameOf rank items (nameOf a) + 1 ∧ a = b

variable {nameOf rank} {items : List item} {r : Nat}

theorem mem_namesAbove {n other : name} :
    other ∈ namesAbove nameOf rank items n <->
      (exists x, x ∈ items ∧ nameOf x = other) ∧ rank n < rank other := by
  unfold namesAbove
  simp

theorem above_perm {items' : List item} (h : items'.Perm items) (n : name) :
    above nameOf rank items' n = above nameOf rank items n :=
  ((h.map nameOf).dedup.filter _).length_eq

theorem above_lt_distinct {x : item} (hx : x ∈ items) :
    above nameOf rank items (nameOf x) < distinct nameOf items := by
  apply List.length_filter_lt_length_iff_exists.mpr
  refine ⟨nameOf x, List.mem_dedup.mpr (List.mem_map_of_mem hx), ?_⟩
  simp

/-!
## Positions

A name's items stand behind those of the names above it.
-/

theorem above_le_of_split {front back : List item} {x : item}
    (h : ranked nameOf rank items = front ++ x :: back) :
    above nameOf rank items (nameOf x) ≤ front.length := by
  have hsorted : (front ++ x :: back).Pairwise
      fun a b => rank (nameOf b) ≤ rank (nameOf a) := by
    rw [← h]
    exact pairwise_ranked nameOf rank items
  have hbehind := (List.pairwise_append.mp hsorted).right.left
  have hnames : namesAbove nameOf rank items (nameOf x) ⊆ front.map nameOf := by
    intro other hother
    rcases mem_namesAbove.mp hother with ⟨⟨y, hy, hname⟩, hrank⟩
    have hranked : y ∈ front ++ x :: back := by
      rw [← h]
      exact mem_ranked.mpr hy
    rw [← hname] at hrank ⊢
    rcases List.mem_append.mp hranked with hfront | hback
    · exact List.mem_map_of_mem hfront
    · rcases List.mem_cons.mp hback with hyx | hback
      · rw [hyx] at hrank
        exact absurd hrank (Nat.lt_irrefl _)
      · have hle := (List.pairwise_cons.mp hbehind).left y hback
        exact absurd hrank (Nat.not_lt.mpr hle)
  have hnodup : (namesAbove nameOf rank items (nameOf x)).Nodup :=
    (List.nodup_dedup _).filter _
  have hlength := (List.subperm_of_subset hnodup hnames).length_le
  rw [List.length_map] at hlength
  exact hlength

theorem above_le_of_getElem {i : Nat}
    (hi : i < (ranked nameOf rank items).length) :
    above nameOf rank items (nameOf (ranked nameOf rank items)[i]) ≤ i := by
  have hsplit : ranked nameOf rank items =
      (ranked nameOf rank items).take i ++ (ranked nameOf rank items)[i] ::
        (ranked nameOf rank items).drop (i + 1) := by
    rw [List.getElem_cons_drop, List.take_append_drop]
  have hle := above_le_of_split hsplit
  rw [List.length_take] at hle
  lia

theorem length_le_above {front : List item} {n : name}
    (hitems : forall x, x ∈ front -> x ∈ items ∧ rank n < rank (nameOf x))
    (hnodup : (front.map nameOf).Nodup) :
    front.length ≤ above nameOf rank items n := by
  have hnames : front.map nameOf ⊆ namesAbove nameOf rank items n := by
    intro other hother
    rcases List.mem_map.mp hother with ⟨x, hx, hname⟩
    rw [← hname]
    exact mem_namesAbove.mpr ⟨⟨x, (hitems x hx).left, rfl⟩, (hitems x hx).right⟩
  have hlength := (List.subperm_of_subset hnodup hnames).length_le
  rw [List.length_map] at hlength
  exact hlength

/-!
## Settled items
-/

theorem settled_symm {a b : item}
    (h : nameOf a = nameOf b -> r ≤ above nameOf rank items (nameOf a) ∨
      r = above nameOf rank items (nameOf a) + 1 ∧ a = b) :
    nameOf b = nameOf a -> r ≤ above nameOf rank items (nameOf b) ∨
      r = above nameOf rank items (nameOf b) + 1 ∧ b = a := by
  intro hname
  rw [hname]
  rcases h hname.symm with hle | ⟨heq, hab⟩
  · exact Or.inl hle
  · exact Or.inr ⟨heq, hab.symm⟩

theorem Settled.le_above (h : Settled nameOf rank items r) {a b : item}
    (ha : a ∈ items) (hb : b ∈ items) (hname : nameOf a = nameOf b)
    (hne : a ≠ b) : r ≤ above nameOf rank items (nameOf a) := by
  have hsymm : Std.Symm fun a b => nameOf a = nameOf b ->
      r ≤ above nameOf rank items (nameOf a) ∨
        r = above nameOf rank items (nameOf a) + 1 ∧ a = b :=
    ⟨fun _ _ => settled_symm⟩
  rcases List.Pairwise.forall h ha hb hne hname with hle | ⟨_, hab⟩
  · exact hle
  · exact absurd hab hne

theorem Settled.repeats (h : Settled nameOf rank items r) :
    (ranked nameOf rank items).Pairwise fun a b => nameOf a = nameOf b ->
      r ≤ above nameOf rank items (nameOf a) ∨
        r = above nameOf rank items (nameOf a) + 1 ∧ a = b :=
  ((perm_ranked items).pairwise_iff settled_symm).mpr h

theorem Settled.nodup (h : Settled nameOf rank items r) :
    (((ranked nameOf rank items).take r).map nameOf).Nodup := by
  apply List.pairwise_map.mpr
  apply List.pairwise_iff_getElem.mpr
  intro i j hi hj hij hname
  rw [List.getElem_take, List.getElem_take] at hname
  rw [List.length_take] at hi hj
  have hi' : i < (ranked nameOf rank items).length := by lia
  have hj' : j < (ranked nameOf rank items).length := by lia
  have habove := above_le_of_getElem hi'
  rcases List.pairwise_iff_getElem.mp h.repeats i j hi' hj' hij hname
    with hle | ⟨heq, _⟩
  · lia
  · lia

theorem distinct_le (items : List item) :
    distinct nameOf items ≤ items.length := by
  have hle := (List.dedup_sublist (items.map nameOf)).length_le
  rw [List.length_map] at hle
  exact hle

theorem Settled.length (h : Settled nameOf rank items r) :
    ((ranked nameOf rank items).take r).length =
      min r (distinct nameOf items) := by
  have hle : distinct nameOf items ≤ items.length := distinct_le items
  rw [List.length_take, (perm_ranked items).length_eq]
  rcases Nat.lt_or_ge (distinct nameOf items) r with hlt | hge
  · -- All names are among the first `r`, so none is repeated.
    have hnodup : (items.map nameOf).Nodup := by
      apply List.pairwise_map.mpr
      apply h.imp_of_mem
      intro a b ha _ hsettled hname
      have habove : above nameOf rank items (nameOf a) < _ :=
        above_lt_distinct ha
      rcases hsettled hname with hle | ⟨heq, _⟩
      · lia
      · lia
    have hall : distinct nameOf items = items.length := by
      unfold distinct
      rw [List.dedup_eq_self.mpr hnodup, List.length_map]
    lia
  · lia

theorem Settled.take_eq (h : Settled nameOf rank items r)
    (hdistinct : Distinguishes nameOf rank items) {items' : List item}
    (hperm : items'.Perm items) :
    (ranked nameOf rank items').take r = (ranked nameOf rank items).take r := by
  have hlength : (ranked nameOf rank items').length =
      (ranked nameOf rank items).length :=
    ((perm_ranked items').trans (hperm.trans (perm_ranked items).symm)).length_eq
  apply List.ext_getElem
  · rw [List.length_take, List.length_take, hlength]
  · intro i hi' hi
    rw [List.length_take] at hi hi'
    rw [List.getElem_take, List.getElem_take]
    have hi₁ : i < (ranked nameOf rank items').length := by lia
    have hi₂ : i < (ranked nameOf rank items).length := by lia
    have hscore := List.getElem_of_eq (scores_ranked hperm)
      (i := i) (by rw [List.length_map]; exact hi₁)
    rw [List.getElem_map, List.getElem_map] at hscore
    have hmem : (ranked nameOf rank items)[i] ∈ items :=
      mem_ranked.mp (List.getElem_mem hi₂)
    have hmem' : (ranked nameOf rank items')[i] ∈ items :=
      hperm.mem_iff.mp (mem_ranked.mp (List.getElem_mem hi₁))
    have hname := hdistinct _ hmem' _ hmem hscore
    apply Classical.byContradiction
    intro hne
    -- The name is repeated, and stands among the first `r`.
    have hreached := h.le_above hmem hmem' hname.symm (Ne.symm hne)
    have habove := above_le_of_getElem hi₂
    lia

/-!
## Items that are not settled
-/

/-- If the first `r` have different names and a repeated name is reached, it is
the last of them, and the item in front stands there. -/
theorem reached_of_nodup {x y : item} {rest : List item}
    (hdistinct : Distinguishes nameOf rank (x :: rest)) (hy : y ∈ rest)
    (hname : nameOf x = nameOf y)
    (hnodup : (((ranked nameOf rank (x :: rest)).take r).map nameOf).Nodup)
    (hreached : above nameOf rank (x :: rest) (nameOf x) < r) :
    r = above nameOf rank (x :: rest) (nameOf x) + 1 ∧
      (ranked nameOf rank (x :: rest))[above nameOf rank (x :: rest)
        (nameOf x)]? = some x := by
  rcases ranked_cons nameOf rank x rest with ⟨front, back, hsorted, hrest, hfront⟩
  rcases next_of_repeated hdistinct hy hname hsorted hrest hfront with
    ⟨z, more, hback, hz⟩
  have habove := above_le_of_split hsorted
  have hitems : forall z, z ∈ front -> z ∈ x :: rest ∧
      rank (nameOf x) < rank (nameOf z) := by
    intro z hz
    have hmem : z ∈ ranked nameOf rank (x :: rest) := by
      rw [hsorted]
      exact List.mem_append_left _ hz
    exact ⟨mem_ranked.mp hmem, hfront z hz⟩
  rw [hsorted] at hnodup ⊢
  have hlength : front.length < r := by
    apply Classical.byContradiction
    intro hge
    have hle : r ≤ front.length := Nat.not_lt.mp hge
    rw [List.take_append_of_le_length hle] at hnodup
    have hfew := length_le_above
      (fun z hz => hitems z (List.mem_of_mem_take hz)) hnodup
    rw [List.length_take] at hfew
    lia
  have hsame : front.length = above nameOf rank (x :: rest) (nameOf x) := by
    apply Nat.le_antisymm _ habove
    apply length_le_above hitems
    have hwhole := hnodup
    rw [List.take_append, List.map_append] at hwhole
    have hpart := hwhole.of_append_left
    rw [List.take_of_length_le (Nat.le_of_lt hlength)] at hpart
    exact hpart
  have hlast : r ≤ front.length + 1 := by
    apply Classical.byContradiction
    intro hmore
    have htake : r - front.length = (r - front.length - 2) + 2 := by lia
    rw [hback, List.take_append, htake, List.map_append] at hnodup
    have hpair := hnodup.of_append_right
    rw [List.take_succ_cons, List.take_succ_cons, List.map_cons, List.map_cons,
      hz] at hpair
    exact (List.nodup_cons.mp hpair).left List.mem_cons_self
  rw [← hsame]
  constructor
  · lia
  · simp

theorem settled_of_fronts (hdistinct : Distinguishes nameOf rank items)
    (hnodup : (((ranked nameOf rank items).take r).map nameOf).Nodup)
    (hfronts : forall a b, [a, b].Sublist items ->
      exists rest, items.Perm (a :: b :: rest) ∧
        (ranked nameOf rank (a :: b :: rest)).take r =
          (ranked nameOf rank items).take r ∧
        (ranked nameOf rank (b :: a :: rest)).take r =
          (ranked nameOf rank items).take r) :
    Settled nameOf rank items r := by
  apply List.pairwise_iff_forall_sublist.mpr
  intro a b hsublist hname
  rcases hfronts a b hsublist with ⟨rest, hperm, hfirst, hsecond⟩
  have hperm' : items.Perm (b :: a :: rest) :=
    hperm.trans (List.Perm.swap b a rest)
  rcases Nat.lt_or_ge (above nameOf rank items (nameOf a)) r with
    hreached | hbeyond
  · right
    -- Each of the two is the last of the first `r` when it is in front.
    have hlast : forall x y, items.Perm (x :: y :: rest) ->
        nameOf x = nameOf a -> nameOf x = nameOf y ->
        (ranked nameOf rank (x :: y :: rest)).take r =
          (ranked nameOf rank items).take r ->
        r = above nameOf rank items (nameOf a) + 1 ∧
          ((ranked nameOf rank items).take r)[above nameOf rank items
            (nameOf a)]? = some x := by
      intro x y hitems hx hxy htake
      have hdistinct' : Distinguishes nameOf rank (x :: y :: rest) := by
        intro p hp q hq
        exact hdistinct p (hitems.mem_iff.mpr hp) q (hitems.mem_iff.mpr hq)
      have habove : above nameOf rank (x :: y :: rest) (nameOf x) =
          above nameOf rank items (nameOf a) := by
        rw [hx]
        exact above_perm hitems.symm (nameOf a)
      rw [← htake] at hnodup ⊢
      rcases reached_of_nodup hdistinct' List.mem_cons_self hxy hnodup
        (by rw [habove]; exact hreached) with ⟨hr, hget⟩
      rw [habove] at hr hget
      refine ⟨hr, ?_⟩
      rw [List.getElem?_take_of_lt hreached]
      exact hget
    have hfirst' := hlast a b hperm rfl hname hfirst
    have hsecond' := hlast b a hperm' hname.symm hname.symm hsecond
    refine ⟨hfirst'.left, ?_⟩
    have hsame := hfirst'.right.symm.trans hsecond'.right
    exact Option.some.inj hsame
  · exact Or.inl hbeyond

theorem Settled.maxByKey_eq (h : Settled nameOf rank items r)
    (hdistinct : Distinguishes nameOf rank items) (hr : 1 ≤ r) :
    maxByKey (fun x => rank (nameOf x)) items =
      (ranked nameOf rank items).head? := by
  cases hranked : ranked nameOf rank items with
  | nil =>
    have hitems : items = [] := by
      have hperm : (ranked nameOf rank items).Perm items := perm_ranked items
      rw [hranked] at hperm
      exact hperm.symm.eq_nil
    rw [hitems]
    rfl
  | cons first rest =>
    have hfirst : first ∈ items := by
      apply mem_ranked.mp
      rw [hranked]
      exact List.mem_cons_self
    rcases exists_maxByKey (fun x => rank (nameOf x)) hfirst with
      ⟨best, hbest, hmem, hmax⟩
    have hsorted := pairwise_ranked nameOf rank items
    rw [hranked] at hsorted
    have hle : rank (nameOf best) ≤ rank (nameOf first) := by
      have hbest' : best ∈ first :: rest := by
        rw [← hranked]
        exact mem_ranked.mpr hmem
      rcases List.mem_cons.mp hbest' with heq | hrest
      · rw [heq]
      · exact (List.pairwise_cons.mp hsorted).left best hrest
    have hname := hdistinct best hmem first hfirst
      (Nat.le_antisymm hle (hmax first hfirst))
    rw [hbest, List.head?_cons]
    apply congrArg some
    apply Classical.byContradiction
    intro hne
    -- The two are of one name, and that is the first name.
    have hbeyond := h.le_above hfirst hmem hname.symm (Ne.symm hne)
    have hsplit : ranked nameOf rank items = [] ++ first :: rest := hranked
    have habove := above_le_of_split hsplit
    rw [List.length_nil] at habove
    lia

end Ranking

end Foundation
end Pacer
