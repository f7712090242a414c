import Mathlib.Algebra.Ring.Nat

/-!
# Unsigned arithmetic that must not wrap

Operations on the numbers below a bound.  One whose result would not be such a
number has no result.
-/

namespace Pacer
namespace Foundation

def wordBound : Nat := 2 ^ 64

namespace Checked

variable {bound a b c : Nat}

def add (bound a b : Nat) : Option Nat :=
  if a + b < bound then some (a + b) else none

def mul (bound a b : Nat) : Option Nat :=
  if a * b < bound then some (a * b) else none

def sub (a b : Nat) : Option Nat :=
  if b ≤ a then some (a - b) else none

theorem add_of_lt (h : a + b < bound) : add bound a b = some (a + b) :=
  if_pos h

theorem mul_of_lt (h : a * b < bound) : mul bound a b = some (a * b) :=
  if_pos h

theorem sub_of_le (h : b ≤ a) : sub a b = some (a - b) :=
  if_pos h

end Checked
end Foundation
end Pacer
