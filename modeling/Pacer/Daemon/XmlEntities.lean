import Pacer.Foundation.Text

/-!
# The predefined XML entities

S3's answers write an upload id and an ETag with the five predefined entities of
XML.  They are decoded by five replacements in the whole text, one after the
other.  Only the last one writes an ampersand, so none reads what an earlier one
has written.
-/

namespace Pacer
namespace Daemon

open Foundation.Text

inductive XmlEntity where
  | quot
  | apos
  | lt
  | gt
  | amp
deriving DecidableEq

namespace XmlEntity

def name : XmlEntity -> List Char
  | .quot => "&quot;".toList
  | .apos => "&apos;".toList
  | .lt => "&lt;".toList
  | .gt => "&gt;".toList
  | .amp => "&amp;".toList

def text : XmlEntity -> List Char
  | .quot => "\"".toList
  | .apos => "'".toList
  | .lt => "<".toList
  | .gt => ">".toList
  | .amp => "&".toList

def unescape (s : String) : String :=
  String.ofList ([quot, apos, lt, gt, amp].foldl (fun s entity =>
    replace entity.name entity.text s) s.toList)

/-- A text and one of the ways to write it: an ampersand as its entity, any other
character as it is or, if one of these entities stands for it, as that. -/
inductive Escapes (entities : List XmlEntity) :
    List Char -> List Char -> Prop where
  | nil : Escapes entities [] []
  | literal {c : Char} {s escaped : List Char} : c ≠ '&' ->
      Escapes entities s escaped -> Escapes entities (c :: s) (c :: escaped)
  | entity {e : XmlEntity} {s escaped : List Char} : e ∈ entities ->
      Escapes entities s escaped ->
      Escapes entities (e.text ++ s) (e.name ++ escaped)

theorem name_eq (e : XmlEntity) :
    e.name = '&' :: e.name.tail ∧ '&' ∉ e.name.tail := by
  cases e <;> decide

theorem eq_of_isPrefix {e other : XmlEntity} (h : e.name <+: other.name) :
    e = other := by
  revert h
  cases e <;> cases other <;> decide

theorem replace_literal (e : XmlEntity) {c : Char} (hc : c ≠ '&')
    (new back : List Char) :
    replace e.name new (c :: back) = c :: replace e.name new back := by
  rw [(name_eq e).left]
  refine @replace_piece '&' c _ [] back List.not_mem_nil ?_ new
  intro hprefix
  exact hc (List.cons_prefix_cons.mp hprefix).left.symm

theorem replace_name (e : XmlEntity) (new back : List Char) :
    replace e.name new (e.name ++ back) = new ++ replace e.name new back := by
  rw [(name_eq e).left]
  exact replace_occurrence '&' _ new back

theorem replace_other {e other : XmlEntity} (h : e ≠ other)
    (new back : List Char) :
    replace e.name new (other.name ++ back) =
      other.name ++ replace e.name new back := by
  have hpattern : ¬ e.name <+: other.name ++ back := by
    intro hprefix
    rcases List.prefix_or_prefix_of_prefix hprefix
      (List.prefix_append other.name back) with hfront | hfront
    · exact h (eq_of_isPrefix hfront)
    · exact h (eq_of_isPrefix hfront).symm
  rw [(name_eq e).left, (name_eq other).left] at hpattern ⊢
  exact replace_piece (name_eq other).right hpattern new

variable {e : XmlEntity} {rest : List XmlEntity} {s escaped : List Char}

theorem Escapes.replaced (h : Escapes (e :: rest) s escaped) (he : e ≠ amp) :
    Escapes rest s (replace e.name e.text escaped) := by
  induction h with
  | nil => exact .nil
  | literal hc _ ih =>
    rw [replace_literal e hc]
    exact .literal hc ih
  | @entity other s escaped hother _ ih =>
    by_cases heq : other = e
    · rw [heq, replace_name]
      cases e with
      | amp => exact absurd rfl he
      | quot | apos | lt | gt => exact .literal (by decide) ih
    · rw [replace_other (Ne.symm heq)]
      exact .entity (List.mem_of_ne_of_mem heq hother) ih

theorem Escapes.replace_amp (h : Escapes [amp] s escaped) :
    replace amp.name amp.text escaped = s := by
  induction h with
  | nil => rfl
  | literal hc _ ih => rw [replace_literal amp hc, ih]
  | entity hother _ ih =>
    rw [List.mem_singleton.mp hother, replace_name, ih]

theorem unescape_of_escapes {s escaped : String}
    (h : Escapes [quot, apos, lt, gt, amp] s.toList escaped.toList) :
    unescape escaped = s := by
  have hquot := h.replaced nofun
  have hapos := hquot.replaced nofun
  have hlt := hapos.replaced nofun
  have hgt := hlt.replaced nofun
  unfold unescape
  dsimp only [List.foldl_cons, List.foldl_nil]
  rw [hgt.replace_amp, String.ofList_toList]

theorem unescape_of_escapes_name :
    unescape "&quot;&amp;lt;'" = "\"&lt;'" := by
  have hliterals : Escapes [quot, apos, lt, gt, amp] "lt;'".toList
      "lt;'".toList := by
    iterate 4 apply Escapes.literal (by decide)
    exact .nil
  apply unescape_of_escapes
  apply Escapes.entity (e := quot) (by decide)
  exact .entity (e := amp) (by decide) hliterals

end XmlEntity

end Daemon
end Pacer
