import Mathlib.Logic.Function.Iterate
import Mathlib.Data.List.Basic

/-!
# Digests that can be joined

A digest is joinable when the digests of two parts and the length of the second
give the digest of the parts joined.  Then a list of parts can be digested part
by part, by whoever has it, and folded in order.

Digests computed by a step that is affine in its state are joinable.
-/

namespace Pacer
namespace Foundation

def Joins (digest : List a -> d) (combine : d -> d -> Nat -> d) : Prop :=
  forall xs ys, combine (digest xs) (digest ys) ys.length = digest (xs ++ ys)

structure Hasher (d : Type) where
  value : d
  amount : Nat
deriving DecidableEq, Repr

namespace Hasher

variable {d a : Type} {digest : List a -> d} {combine : d -> d -> Nat -> d}

def of (digest : List a -> d) (xs : List a) : Hasher d :=
  { value := digest xs, amount := xs.length }

def absorb (combine : d -> d -> Nat -> d) (acc next : Hasher d) : Hasher d :=
  { value := combine acc.value next.value next.amount,
    amount := acc.amount + next.amount }

theorem absorb_of (h : Joins digest combine) (xs ys : List a) :
    absorb combine (of digest xs) (of digest ys) = of digest (xs ++ ys) := by
  unfold absorb of
  rw [h xs ys, List.length_append]

theorem foldl_absorb (h : Joins digest combine) (pieces : List (List a))
    (xs : List a) :
    (pieces.map (of digest)).foldl (absorb combine) (of digest xs) =
      of digest (xs ++ pieces.flatten) := by
  induction pieces generalizing xs with
  | nil => rw [List.flatten_nil, List.append_nil]; rfl
  | cons piece rest ih =>
    rw [List.map_cons, List.foldl_cons, absorb_of h, ih, List.flatten_cons,
      List.append_assoc]

end Hasher

theorem foldl_add {add : s -> s -> s} {step : s -> a -> s} {advance : s -> s}
    (h : forall x y b, step (add x y) b = add (step x b) (advance y))
    (xs : List a) (x y : s) :
    xs.foldl step (add x y) =
      add (xs.foldl step x) (Nat.iterate advance xs.length y) := by
  induction xs generalizing x y with
  | nil => rfl
  | cons b rest ih => rw [List.foldl_cons, List.foldl_cons, h, ih]; rfl

end Foundation
end Pacer
