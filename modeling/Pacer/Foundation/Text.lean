import Pacer.Foundation.Radix

/-!
# Splitting text at a separator

A text is cut at the first or at the last occurrence of a character, or at the
first occurrence of a pattern.  Text put together from pieces around a separator
comes apart again where the piece in front of a first separator, or behind a last
one, does not contain it.  The decimal digits of a number are such a piece.  A
pattern in a text is replaced wherever it occurs.
-/

namespace Pacer
namespace Foundation

namespace Text

def splitOnce (sep : Char) : List Char -> Option (List Char × List Char)
  | [] => none
  | c :: rest =>
    if c = sep then some ([], rest)
    else (splitOnce sep rest).map fun parts => (c :: parts.1, parts.2)

def rsplitOnce (sep : Char) (text : List Char) :
    Option (List Char × List Char) :=
  (splitOnce sep text.reverse).map fun parts =>
    (parts.2.reverse, parts.1.reverse)

variable {sep : Char}

theorem splitOnce_append {front : List Char} (h : sep ∉ front)
    (back : List Char) :
    splitOnce sep (front ++ sep :: back) = some (front, back) := by
  induction front with
  | nil => simp [splitOnce]
  | cons c rest ih =>
    rw [List.mem_cons, not_or] at h
    show splitOnce sep (c :: (rest ++ sep :: back)) = _
    unfold splitOnce
    rw [if_neg (Ne.symm h.left), ih h.right]
    rfl

theorem eq_of_splitOnce {text front back : List Char}
    (h : splitOnce sep text = some (front, back)) :
    text = front ++ sep :: back := by
  induction text generalizing front with
  | nil => cases h
  | cons c rest ih =>
    unfold splitOnce at h
    split at h
    · rename_i hsep
      cases h
      rw [hsep]
      rfl
    · rcases Option.map_eq_some_iff.mp h with ⟨parts, hparts, heq⟩
      cases heq
      rw [ih hparts]
      rfl

theorem notMem_of_splitOnce {text : List Char} {parts : List Char × List Char}
    (h : splitOnce sep text = some parts) :
    sep ∉ parts.1 := by
  induction text generalizing parts with
  | nil => cases h
  | cons c rest ih =>
    unfold splitOnce at h
    split at h
    · cases h
      exact List.not_mem_nil
    · rename_i hne
      rcases Option.map_eq_some_iff.mp h with ⟨later, hlater, heq⟩
      cases heq
      rw [List.mem_cons, not_or]
      exact ⟨Ne.symm hne, ih hlater⟩

theorem rsplitOnce_append {back : List Char} (h : sep ∉ back)
    (front : List Char) :
    rsplitOnce sep (front ++ sep :: back) = some (front, back) := by
  have hback : sep ∉ back.reverse := fun hmem => h (List.mem_reverse.mp hmem)
  unfold rsplitOnce
  rw [List.reverse_append, List.reverse_cons, List.append_assoc,
    List.singleton_append, splitOnce_append hback]
  simp

theorem eq_of_rsplitOnce {text front back : List Char}
    (h : rsplitOnce sep text = some (front, back)) :
    text = front ++ sep :: back := by
  rcases Option.map_eq_some_iff.mp h with ⟨parts, hparts, heq⟩
  cases heq
  have htext := congrArg List.reverse (eq_of_splitOnce hparts)
  rw [List.reverse_reverse, List.reverse_append, List.reverse_cons,
    List.append_assoc] at htext
  exact htext

theorem append_inj_of_notMem {a : Type} {sep : a} {front front' : List a}
    {back back' : List a} (hfront : sep ∉ front) (hfront' : sep ∉ front')
    (h : front ++ sep :: back = front' ++ sep :: back') :
    front = front' ∧ back = back' := by
  induction front generalizing front' with
  | nil =>
    cases front' with
    | nil =>
      cases h
      exact ⟨rfl, rfl⟩
    | cons y rest =>
      cases h
      exact absurd List.mem_cons_self hfront'
  | cons x rest ih =>
    cases front' with
    | nil =>
      cases h
      exact absurd List.mem_cons_self hfront
    | cons y rest' =>
      injection h with hhead htail
      rw [List.mem_cons, not_or] at hfront hfront'
      rcases ih hfront.right hfront'.right htail with ⟨heq, hback⟩
      exact ⟨by rw [hhead, heq], hback⟩

theorem append_inj_of_notMem_right {front front' back back' : List Char}
    (hback : sep ∉ back) (hback' : sep ∉ back')
    (h : front ++ sep :: back = front' ++ sep :: back') :
    front = front' ∧ back = back' := by
  have hsplit := rsplitOnce_append hback front
  rw [h, rsplitOnce_append hback' front'] at hsplit
  cases hsplit
  exact ⟨rfl, rfl⟩

theorem notMem_of_mem_splitOn {text piece : List Char}
    (h : piece ∈ text.splitOn sep) : sep ∉ piece := by
  induction text generalizing piece with
  | nil =>
    rw [List.splitOn_nil, List.mem_singleton] at h
    rw [h]
    exact List.not_mem_nil
  | cons c rest ih =>
    rw [List.splitOn_cons_eq_if_modifyHead] at h
    split at h
    · rcases List.mem_cons.mp h with heq | hmem
      · rw [heq]
        exact List.not_mem_nil
      · exact ih hmem
    · rename_i hne
      cases hpieces : rest.splitOn sep with
      | nil =>
        rw [hpieces] at h
        cases h
      | cons first pieces =>
        rw [hpieces] at h ih
        rcases List.mem_cons.mp h with heq | hmem
        · rw [heq, List.mem_cons, not_or]
          refine ⟨?_, ih List.mem_cons_self⟩
          intro hsep
          exact hne (beq_iff_eq.mpr hsep.symm)
        · exact ih (List.mem_cons_of_mem _ hmem)

/-!
## Decimal numbers
-/

theorem toNat_of_mem_toDigits {n : Nat} {c : Char}
    (h : c ∈ Nat.toDigits 10 n) : 48 ≤ c.toNat ∧ c.toNat ≤ 57 := by
  have hdigit := Nat.isDigit_of_mem_toDigits (by decide) (by decide) h
  rcases Bool.and_eq_true_iff.mp hdigit with ⟨hlo, hhi⟩
  exact ⟨of_decide_eq_true hlo, of_decide_eq_true hhi⟩

theorem notMem_toDigits {c : Char} (h : c.toNat < 48 ∨ 57 < c.toNat)
    (n : Nat) : c ∉ Nat.toDigits 10 n := by
  intro hmem
  have hrange := toNat_of_mem_toDigits hmem
  lia

theorem toDigits_injective {m n : Nat}
    (h : Nat.toDigits 10 m = Nat.toDigits 10 n) : m = n := by
  have hm := Nat.ofDigitChars_ten_toDigits (n := m)
  rw [h, Nat.ofDigitChars_ten_toDigits] at hm
  exact hm.symm

theorem value?_of_digits {digits : List Char}
    (h : forall c, c ∈ digits -> 48 ≤ c.toNat ∧ c.toNat ≤ 57) (acc : Nat) :
    Radix.value? 10 acc digits = some (Nat.ofDigitChars 10 digits acc) := by
  induction digits generalizing acc with
  | nil => rfl
  | cons c rest ih =>
    have hc := h c List.mem_cons_self
    have hdigit : Radix.digit? 10 c = some (c.toNat - '0'.toNat) := by
      unfold Radix.digit?
      have hrange : '0' ≤ c ∧ c ≤ '9' := ⟨hc.left, hc.right⟩
      rw [if_pos hrange]
      apply Option.filter_eq_some_iff.mpr
      refine ⟨rfl, decide_eq_true ?_⟩
      lia
    unfold Radix.value?
    rw [hdigit]
    dsimp only
    rw [ih (fun d hd => h d (List.mem_cons_of_mem c hd)),
      Nat.ofDigitChars_cons, Nat.mul_comm]

theorem parseUnsigned_toDigits {bound n : Nat} (h : n < bound) :
    Radix.parseUnsigned 10 bound (Nat.toDigits 10 n) = some n := by
  have hvalue := value?_of_digits
    (fun c (hc : c ∈ Nat.toDigits 10 n) => toNat_of_mem_toDigits hc) 0
  rw [Nat.ofDigitChars_ten_toDigits] at hvalue
  rw [Radix.parseUnsigned_of_value? Nat.toDigits_ne_nil hvalue, if_pos h]

theorem parseSigned_toDigits {bound n : Nat} (h : n < bound) :
    Radix.parseSigned bound (Nat.toDigits 10 n) = some (n : Int) := by
  unfold Radix.parseSigned
  split
  · rename_i digits heq
    have hmem : '-' ∈ Nat.toDigits 10 n := by
      rw [heq]
      exact List.mem_cons_self
    exact absurd hmem (notMem_toDigits (Or.inl (by decide)) n)
  · rw [parseUnsigned_toDigits h]
    rfl

theorem trim_toDigits (n : Nat) :
    Radix.trim (Nat.toDigits 10 n) = Nat.toDigits 10 n :=
  Radix.trim_of_value? (value?_of_digits
    (fun _ hc => toNat_of_mem_toDigits hc) 0)

/-!
## Cutting at a pattern
-/

def splitPattern (pattern : List Char) :
    List Char -> Option (List Char × List Char)
  | [] => if pattern = [] then some ([], []) else none
  | c :: rest =>
    if pattern <+: c :: rest then some ([], (c :: rest).drop pattern.length)
    else (splitPattern pattern rest).map fun parts => (c :: parts.1, parts.2)

theorem splitPattern_eq_some_iff {pattern : List Char} (hpattern : pattern ≠ [])
    {text front back : List Char} :
    splitPattern pattern text = some (front, back) <->
      text = front ++ pattern ++ back ∧
        forall n, n < front.length -> ¬ pattern <+: text.drop n := by
  induction text generalizing front with
  | nil =>
    rw [splitPattern, if_neg hpattern]
    constructor
    · intro h
      cases h
    · rintro ⟨htext, _⟩
      have hnil := List.append_eq_nil_iff.mp htext.symm
      exact absurd (List.append_eq_nil_iff.mp hnil.left).right hpattern
  | cons c rest ih =>
    unfold splitPattern
    split
    · rename_i hhere
      constructor
      · intro h
        cases h
        refine ⟨(List.prefix_iff_eq_append.mp hhere).symm, ?_⟩
        intro n hn
        exact absurd hn (Nat.not_lt_zero n)
      · rintro ⟨htext, hfirst⟩
        cases front with
        | nil =>
          rw [htext, List.nil_append, List.drop_left]
        | cons d front => exact absurd hhere (hfirst 0 (Nat.succ_pos _))
    · rename_i hhere
      rw [Option.map_eq_some_iff]
      constructor
      · rintro ⟨⟨found, tail⟩, hfound, heq⟩
        cases heq
        rcases ih.mp hfound with ⟨rfl, hfirst⟩
        refine ⟨rfl, ?_⟩
        intro n hn
        cases n with
        | zero => exact hhere
        | succ n => exact hfirst n (Nat.lt_of_succ_lt_succ hn)
      · rintro ⟨htext, hfirst⟩
        cases front with
        | nil => exact absurd ⟨back, htext.symm⟩ hhere
        | cons d front =>
          cases htext
          refine ⟨(front, back), ih.mpr ⟨rfl, ?_⟩, rfl⟩
          intro n hn
          exact hfirst (n + 1) (Nat.succ_lt_succ hn)

theorem splitPattern_append {c : Char} {rest front : List Char} (honce : c ∉ rest)
    (hfront : ¬ c :: rest <:+: front) (back : List Char) :
    splitPattern (c :: rest) (front ++ c :: rest ++ back) =
      some (front, back) := by
  refine (splitPattern_eq_some_iff (List.cons_ne_nil _ _)).mpr ⟨rfl, ?_⟩
  rintro n hn ⟨tail, htail⟩
  rw [List.append_assoc, List.drop_append_of_le_length hn.le] at htail
  have hinside : front.drop n <:+: front := (List.drop_suffix n front).isInfix
  rcases List.append_eq_append_iff.mp htail with ⟨more, hmore, _⟩ | ⟨more, hmore, hback⟩
  · refine hfront (List.IsInfix.trans ?_ hinside)
    rw [hmore]
    exact (List.prefix_append _ _).isInfix
  · cases hpiece : front.drop n with
    | nil => exact absurd (List.drop_eq_nil_iff.mp hpiece) (Nat.not_le_of_lt hn)
    | cons d ds =>
      rw [hpiece, List.cons_append, List.cons.injEq] at hmore
      cases more with
      | nil =>
        rw [List.append_nil] at hmore
        rw [hpiece, ← hmore.left, ← hmore.right] at hinside
        exact hfront hinside
      | cons e es =>
        rw [List.cons_append, List.cons_append, List.cons.injEq] at hback
        apply honce
        rw [hmore.right, hback.left]
        exact List.mem_append_right ds List.mem_cons_self

theorem splitPattern_eq_none {pattern text : List Char} (hpattern : pattern ≠ [])
    (htext : ¬ pattern <:+: text) : splitPattern pattern text = none := by
  cases hsplit : splitPattern pattern text with
  | none => rfl
  | some parts =>
    have heq := ((splitPattern_eq_some_iff hpattern).mp hsplit).left
    exact absurd ⟨parts.1, parts.2, heq.symm⟩ htext

/-!
## Replacing a pattern
-/

/-- Every occurrence of the pattern is replaced, from the left; `skip` counts
the characters left of the last one. -/
def replaceFrom (pattern new : List Char) : Nat -> List Char -> List Char
  | _, [] => []
  | skip + 1, _ :: rest => replaceFrom pattern new skip rest
  | 0, c :: rest =>
    if pattern <+: c :: rest then
      new ++ replaceFrom pattern new (pattern.length - 1) rest
    else c :: replaceFrom pattern new 0 rest

def replace (pattern new text : List Char) : List Char :=
  replaceFrom pattern new 0 text

theorem replaceFrom_length (pattern new front back : List Char) :
    replaceFrom pattern new front.length (front ++ back) =
      replace pattern new back := by
  induction front with
  | nil => rfl
  | cons c rest ih => exact ih

theorem replace_occurrence (first : Char) (rest new back : List Char) :
    replace (first :: rest) new (first :: (rest ++ back)) =
      new ++ replace (first :: rest) new back := by
  have hpattern : first :: rest <+: first :: (rest ++ back) :=
    List.prefix_append (first :: rest) back
  rw [replace, replaceFrom, if_pos hpattern]
  exact congrArg _ (replaceFrom_length _ new rest back)

theorem replace_piece {first c : Char} {rest front back : List Char}
    (hfront : first ∉ front)
    (hpattern : ¬ first :: rest <+: c :: (front ++ back)) (new : List Char) :
    replace (first :: rest) new (c :: (front ++ back)) =
      c :: (front ++ replace (first :: rest) new back) := by
  rw [replace, replaceFrom, if_neg hpattern]
  refine congrArg (c :: ·) ?_
  induction front generalizing c with
  | nil => rfl
  | cons d front ih =>
    rw [List.mem_cons, not_or] at hfront
    have hhead : ¬ first :: rest <+: d :: (front ++ back) := by
      intro hprefix
      exact hfront.left (List.cons_prefix_cons.mp hprefix).left
    rw [List.cons_append, replaceFrom, if_neg hhead, ih hfront.right hhead]
    rfl

end Text

end Foundation
end Pacer
