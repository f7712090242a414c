import Mathlib.Algebra.Ring.Nat
import Mathlib.Data.List.DropRight

/-!
# Numbers in text

How the standard library reads a number out of text: an optional sign, at least
one digit of the base, and a value inside the type's bound.  White space around
it is dropped by a separate trim.
-/

namespace Pacer
namespace Foundation

namespace Radix

def digit? (base : Nat) (c : Char) : Option Nat :=
  let value :=
    if '0' ≤ c ∧ c ≤ '9' then some (c.toNat - '0'.toNat)
    else if 'a' ≤ c ∧ c ≤ 'z' then some (c.toNat - 'a'.toNat + 10)
    else if 'A' ≤ c ∧ c ≤ 'Z' then some (c.toNat - 'A'.toNat + 10)
    else none
  value.filter (· < base)

def value? (base : Nat) : Nat -> List Char -> Option Nat
  | acc, [] => some acc
  | acc, c :: rest =>
    match digit? base c with
    | none => none
    | some d => value? base (acc * base + d) rest

def dropPlus : List Char -> List Char
  | '+' :: rest => rest
  | text => text

def parseUnsigned (base bound : Nat) (text : List Char) : Option Nat :=
  let digits := dropPlus text
  if digits = [] then none else (value? base 0 digits).filter (· < bound)

def parseSigned (bound : Nat) (text : List Char) : Option Int :=
  match text with
  | '-' :: digits =>
    if digits = [] then none
    else ((value? 10 0 digits).filter (· ≤ bound)).map fun n => -(n : Int)
  | _ => (parseUnsigned 10 bound text).map Int.ofNat

def isWhitespace (c : Char) : Bool :=
  (9 ≤ c.toNat && c.toNat ≤ 13) || c.toNat == 32 || c.toNat == 0x85 ||
    c.toNat == 0xa0 || c.toNat == 0x1680 ||
    (0x2000 ≤ c.toNat && c.toNat ≤ 0x200a) || c.toNat == 0x2028 ||
    c.toNat == 0x2029 || c.toNat == 0x202f || c.toNat == 0x205f ||
    c.toNat == 0x3000

def trim (text : List Char) : List Char :=
  (text.dropWhile isWhitespace).rdropWhile isWhitespace

/-!
## Plain digits

A text of digits alone is left by the trim and read as its value.
-/

theorem range_of_digit? {base d : Nat} {c : Char}
    (h : digit? base c = some d) :
    48 ≤ c.toNat ∧ c.toNat ≤ 122 ∧ c.toNat ≠ 59 := by
  unfold digit? at h
  rcases Option.filter_eq_some_iff.mp h with ⟨hvalue, _⟩
  split at hvalue
  · rename_i hrange
    have hlo : 48 ≤ c.toNat := hrange.left
    have hhi : c.toNat ≤ 57 := hrange.right
    lia
  · split at hvalue
    · rename_i hrange
      have hlo : 97 ≤ c.toNat := hrange.left
      have hhi : c.toNat ≤ 122 := hrange.right
      lia
    · split at hvalue
      · rename_i hrange
        have hlo : 65 ≤ c.toNat := hrange.left
        have hhi : c.toNat ≤ 90 := hrange.right
        lia
      · cases hvalue

variable {digits : List Char} {base acc n : Nat}

theorem digit?_of_value? (h : value? base acc digits = some n) {c : Char}
    (hc : c ∈ digits) :
    exists d, digit? base c = some d := by
  induction digits generalizing acc with
  | nil => cases hc
  | cons first rest ih =>
    unfold value? at h
    split at h
    · cases h
    rename_i d hd
    rcases List.mem_cons.mp hc with rfl | hrest
    · exact ⟨d, hd⟩
    · exact ih h hrest

theorem not_isWhitespace_of_digit? {base d : Nat} {c : Char}
    (h : digit? base c = some d) : isWhitespace c = false := by
  rcases range_of_digit? h with ⟨hlo, hhi, _⟩
  simp only [isWhitespace, Bool.or_eq_false_iff, Bool.and_eq_false_iff,
    decide_eq_false_iff_not, beq_eq_false_iff_ne]
  omega

theorem trim_of_value? (h : value? base acc digits = some n)
    : trim digits = digits := by
  have hplain : forall c, c ∈ digits -> isWhitespace c = false := by
    intro c hc
    rcases digit?_of_value? h hc with ⟨d, hd⟩
    exact not_isWhitespace_of_digit? hd
  have hfront : digits.dropWhile isWhitespace = digits := by
    cases digits with
    | nil => rfl
    | cons c rest =>
      apply List.dropWhile_cons_of_neg
      rw [hplain c List.mem_cons_self]
      exact Bool.false_ne_true
  unfold trim
  rw [hfront, List.rdropWhile_eq_self_iff]
  intro hne hlast
  rw [hplain _ (List.getLast_mem hne)] at hlast
  cases hlast

theorem dropPlus_of_value? (h : value? base acc digits = some n)
    : dropPlus digits = digits := by
  unfold dropPlus
  split
  · rcases digit?_of_value? h List.mem_cons_self with ⟨d, hd⟩
    have hrange : 48 ≤ 43 := (range_of_digit? hd).left
    lia
  · rfl

theorem parseUnsigned_of_value? {base bound n : Nat} (hne : digits ≠ [])
    (h : value? base 0 digits = some n) :
    parseUnsigned base bound digits = if n < bound then some n else none := by
  unfold parseUnsigned
  rw [dropPlus_of_value? h, if_neg hne, h, Option.filter_some]
  simp only [decide_eq_true_eq]

end Radix

end Foundation
end Pacer
