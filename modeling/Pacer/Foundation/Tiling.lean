import Pacer.Foundation.Span
import Mathlib.Data.List.Basic
import Mathlib.Algebra.Ring.Nat

/-!
# Tilings of an interval and copies into memory

A list of pieces tiles an interval when each piece starts where the one before
it stops.  Memory is a partial function on positions; copying a list into it
changes the positions the list takes up and no others.
-/

namespace Pacer
namespace Foundation

section Tiling

variable {pos len : piece -> Nat}

inductive Tiles (pos len : piece -> Nat) : Nat -> List piece -> Nat -> Prop where
  | nil (lo : Nat) : Tiles pos len lo [] lo
  | cons {p : piece} {rest : List piece} {hi : Nat} :
      Tiles pos len (pos p + len p) rest hi ->
      Tiles pos len (pos p) (p :: rest) hi

def Apart (pos len : piece -> Nat) (p q : piece) : Prop :=
  pos p + len p ≤ pos q ∨ pos q + len q ≤ pos p

theorem Apart.symm {p q : piece} (h : Apart pos len p q) : Apart pos len q p :=
  Or.symm h

namespace Tiles

variable {pieces : List piece} {lo hi : Nat}

section

variable (h : Tiles pos len lo pieces hi)

include h

theorem sum :
    lo + (pieces.map len).sum = hi := by
  induction h with
  | nil lo => rfl
  | cons _ ih =>
    rw [List.map_cons, List.sum_cons, ← Nat.add_assoc]
    exact ih

theorem bounds {p : piece} (hp : p ∈ pieces)
    : lo ≤ pos p ∧ pos p + len p ≤ hi := by
  induction h with
  | nil lo => cases hp
  | cons htail ih =>
    rcases List.mem_cons.mp hp with rfl | hrest
    · have hsum := htail.sum
      lia
    · have htailBounds := ih hrest
      lia

theorem exists_mem {i : Nat} (hlo : lo ≤ i) (hhi : i < hi) :
    exists p, p ∈ pieces ∧ pos p ≤ i ∧ i < pos p + len p := by
  induction h with
  | nil lo => lia
  | cons htail ih =>
    rename_i p rest hi
    by_cases hhere : i < pos p + len p
    · exact ⟨p, List.mem_cons_self, hlo, hhere⟩
    · rcases ih (by lia) hhi with ⟨q, hq, hin⟩
      exact ⟨q, List.mem_cons_of_mem _ hq, hin⟩

theorem pairwise :
    pieces.Pairwise (Apart pos len) := by
  induction h with
  | nil lo => exact List.Pairwise.nil
  | cons htail ih =>
    refine List.Pairwise.cons ?_ ih
    intro q hq
    exact Or.inl (htail.bounds hq).left

theorem pairwise_lt (hlen : forall p, p ∈ pieces -> 0 < len p) :
    pieces.Pairwise fun p q => pos p < pos q := by
  induction h with
  | nil lo => exact List.Pairwise.nil
  | cons htail ih =>
    rename_i p rest hi
    constructor
    · intro q hq
      have hbefore := (htail.bounds hq).left
      have hpos := hlen p List.mem_cons_self
      lia
    · apply ih
      intro q hq
      exact hlen q (List.mem_cons_of_mem p hq)

theorem flatten_spans (xs : List a) (base : Nat) :
    (pieces.map fun p =>
        span xs (base + pos p) (base + pos p + len p)).flatten =
      span xs (base + lo) (base + hi) := by
  induction h with
  | nil lo => exact (span_of_le xs (Nat.le_refl _)).symm
  | cons htail ih =>
    rename_i p rest hi
    have hsum := htail.sum
    rw [List.map_cons, List.flatten_cons, ih, ← Nat.add_assoc]
    apply span_append
    · lia
    · lia

end

end Tiles

end Tiling

/-!
## Copies
-/

def blit (mem : Nat -> Option a) (start : Nat) (xs : List a) :
    Nat -> Option a :=
  fun i => if start ≤ i ∧ i < start + xs.length then xs[i - start]? else mem i

theorem blit_of_outside {mem : Nat -> Option a} {start i : Nat} {xs : List a}
    (h : i < start ∨ start + xs.length ≤ i) : blit mem start xs i = mem i := by
  unfold blit
  rw [if_neg]
  lia

theorem blit_add {mem : Nat -> Option a} {start k : Nat} {xs : List a}
    (h : k < xs.length) : blit mem start xs (start + k) = xs[k]? := by
  unfold blit
  rw [if_pos ⟨Nat.le_add_right _ _, Nat.add_lt_add_left h _⟩,
    Nat.add_sub_cancel_left]

end Foundation
end Pacer
