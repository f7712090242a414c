import Mathlib.Data.List.Basic
import Mathlib.Data.List.TakeDrop
import Mathlib.Order.Monotone.Basic

/-!
# Half-open spans of a list

A span is the part of a list from one position up to another.  Cutting a list
at increasing positions and joining the pieces gives the list back.
-/

namespace Pacer
namespace Foundation

/-- The elements of `xs` from position `lo` up to, not including, `hi`. -/
def span (xs : List a) (lo hi : Nat) : List a :=
  (xs.take hi).drop lo

theorem length_span {xs : List a} {lo hi : Nat} (h : hi ≤ xs.length) :
    (span xs lo hi).length = hi - lo := by
  rw [span, List.length_drop, List.length_take, Nat.min_eq_left h]

variable (xs : List a)

theorem span_of_le {lo hi : Nat} (h : hi ≤ lo) :
    span xs lo hi = [] := by
  apply List.drop_eq_nil_of_le
  rw [List.length_take]
  lia

theorem span_min_length (lo hi : Nat) :
    span xs lo (min hi xs.length) = span xs lo hi := by
  rw [span, ← List.take_eq_take_min, span]

theorem span_span (base : Nat) {lo hi width : Nat} (h : hi ≤ width) :
    span (span xs base (base + width)) lo hi =
      span xs (base + lo) (base + hi) := by
  unfold span
  rw [List.take_drop, List.drop_drop, List.take_take]
  congr 2
  lia

theorem span_drop (base lo hi : Nat) :
    span (xs.drop base) lo hi = span xs (base + lo) (base + hi) := by
  unfold span
  rw [List.take_drop, List.drop_drop]

theorem span_zero (hi : Nat) : span xs 0 hi = xs.take hi := by
  rw [span, List.drop_zero]

theorem span_of_isPrefix {front xs : List a} {lo hi : Nat}
    (h : front <+: xs) (hhi : hi ≤ front.length) :
    span front lo hi = span xs lo hi := by
  rcases h with ⟨back, rfl⟩
  rw [span, span, List.take_append_of_le_length hhi]

theorem span_append {lo mid hi : Nat} (hlo : lo ≤ mid) (hhi : mid ≤ hi) :
    span xs lo mid ++ span xs mid hi = span xs lo hi := by
  unfold span
  have htake : xs.take mid = (xs.take hi).take mid := by
    rw [List.take_take, Nat.min_eq_left hhi]
  rw [htake, List.drop_take]
  have hsum : mid = lo + (mid - lo) := by lia
  nth_rewrite 2 [hsum]
  rw [← List.drop_drop, List.take_append_drop]

theorem flatten_spans {cut : Nat -> Nat} (hcut : forall i, cut i ≤ cut (i + 1))
    (first count : Nat) :
    ((List.range' first count).map
        fun i => span xs (cut i) (cut (i + 1))).flatten =
      span xs (cut first) (cut (first + count)) := by
  induction count generalizing first with
  | zero => exact (span_of_le xs (Nat.le_refl _)).symm
  | succ count ih =>
    have hrest : cut (first + 1) ≤ cut (first + 1 + count) :=
      monotone_nat_of_le_succ hcut (Nat.le_add_right _ _)
    rw [List.range'_succ, List.map_cons, List.flatten_cons, ih,
      span_append xs (hcut first) hrest, Nat.add_assoc, Nat.add_comm 1 count]

end Foundation
end Pacer
