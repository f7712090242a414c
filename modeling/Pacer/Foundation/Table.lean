import Mathlib.Logic.Function.Basic

/-!
# Tables

A table gives some keys a value.  What a table says after one entry was replaced
is what is new, at that key, or what it said before, at another.
-/

namespace Pacer
namespace Foundation

open Function

namespace Table

theorem update_cases [DecidableEq k] {table : k -> Option v} {key other : k}
    {new : Option v} {x : v}
    (h : update table key new other = some x) :
    (other = key ∧ new = some x) ∨ (other ≠ key ∧ table other = some x) := by
  by_cases hother : other = key
  · rw [hother, update_self] at h
    exact .inl ⟨hother, h⟩
  · rw [update_of_ne hother] at h
    exact .inr ⟨hother, h⟩

theorem forall_update [DecidableEq k] {p : k -> v -> Prop}
    {table : k -> Option v} {key : k} {new : Option v}
    (h : forall i x, table i = some x -> p i x)
    (hnew : forall x, new = some x -> p key x) :
    forall i x, update table key new i = some x -> p i x := by
  intro i x hx
  rcases update_cases hx with ⟨hi, heq⟩ | ⟨_, hold⟩
  · rw [hi]
    exact hnew x heq
  · exact h i x hold

theorem forall_update_some [DecidableEq k] {p : k -> v -> Prop}
    {table : k -> Option v} {key : k} {new : v}
    (h : forall i x, table i = some x -> p i x) (hnew : p key new) :
    forall i x, update table key (some new) i = some x -> p i x := by
  apply forall_update h
  rintro _ ⟨⟩
  exact hnew

theorem distinct_update [DecidableEq k] {p : v -> w -> Prop}
    {table : k -> Option v} {key : k} {new : Option v}
    (h : forall i j x y c, table i = some x -> table j = some y ->
      p x c -> p y c -> i = j)
    (hnew : forall i x y c, i ≠ key -> new = some x -> table i = some y ->
      p x c -> ¬ p y c) :
    forall i j x y c, update table key new i = some x ->
      update table key new j = some y -> p x c -> p y c -> i = j := by
  intro i j x y c hx hy hxc hyc
  rcases update_cases hx with ⟨hi, hx⟩ | ⟨hi, hx⟩
  · rcases update_cases hy with ⟨hj, _⟩ | ⟨hj, hy⟩
    · rw [hi, hj]
    · exact absurd hyc (hnew j x y c hj hx hy hxc)
  · rcases update_cases hy with ⟨_, hy⟩ | ⟨_, hy⟩
    · exact absurd hxc (hnew i y x c hi hy hx hyc)
    · exact h i j x y c hx hy hxc hyc

theorem set_cases {table : List v} {key other : Nat} {new x : v}
    (h : (table.set key new)[other]? = some x) :
    (other = key ∧ x = new) ∨ (other ≠ key ∧ table[other]? = some x) := by
  by_cases hother : other = key
  · rw [hother, List.getElem?_set_self'] at h
    rcases Option.map_eq_some_iff.mp h with ⟨_, _, heq⟩
    exact .inl ⟨hother, heq.symm⟩
  · rw [List.getElem?_set_ne (Ne.symm hother)] at h
    exact .inr ⟨hother, h⟩

theorem append_cases {table : List v} {key : Nat} {new x : v}
    (h : (table ++ [new])[key]? = some x) : table[key]? = some x ∨ x = new := by
  rw [List.getElem?_append] at h
  by_cases hkey : key < table.length
  · rw [if_pos hkey] at h
    exact .inl h
  · rw [if_neg hkey] at h
    exact .inr (List.mem_singleton.mp (List.mem_of_getElem? h))

theorem of_update_false [DecidableEq k] {marks : k -> Bool} {key other : k}
    (h : update marks key false other = true) :
    other ≠ key ∧ marks other = true := by
  by_cases hother : other = key
  · rw [hother, update_self] at h
    cases h
  · rw [update_of_ne hother] at h
    exact ⟨hother, h⟩

end Table

end Foundation
end Pacer
