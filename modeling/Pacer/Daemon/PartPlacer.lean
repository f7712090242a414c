import Mathlib.Algebra.Ring.Nat
import Mathlib.Data.List.AList
import Mathlib.Data.List.Perm.Subperm

/-!
# Where the parts of a multipart upload land

A part does not carry its offset.  It is placed under the hypothesis that every
part is as long as the longest seen so far, and the hypothesis is verified when
Complete names the parts in order: only then are the offsets arithmetic.

The main result: verification succeeds only if the list names exactly the parts
observed, in increasing order, and each was placed at the sum of the lengths of
those before it.
-/

namespace Pacer
namespace Daemon

structure Observed where
  len : Nat
  assumedOffset : Nat
deriving DecidableEq, Repr

structure PartPlacer where
  chunkSize : Nat
  hypothesis : Nat
  parts : AList (fun _ : Int => Observed)
  tainted : Bool

namespace PartPlacer

def new (chunkSize : Nat) : PartPlacer :=
  { chunkSize := chunkSize, hypothesis := 0, parts := ∅, tainted := false }

def assumedOffset (hypothesis : Nat) (partNumber : Int) : Option Nat :=
  let offset := (partNumber - 1).toNat * hypothesis
  if offset < 2 ^ 64 then some offset else none

/-- Record a part and say which chunk its first byte starts, if the part is to
populate any. -/
def observe (p : PartPlacer) (partNumber : Int) (len : Nat) :
    Option Nat × PartPlacer :=
  if partNumber < 1 ∨ (p.parts.lookup partNumber).isSome then
    (none, { p with tainted := true })
  else
    let hypothesis := max p.hypothesis len
    match assumedOffset hypothesis partNumber with
    | none => (none, { p with hypothesis := hypothesis })
    | some offset =>
      (if offset % p.chunkSize = 0 then some (offset / p.chunkSize) else none,
        { p with
          hypothesis := hypothesis,
          parts := p.parts.insert partNumber
            { len := len, assumedOffset := offset } })

def taint (p : PartPlacer) : PartPlacer := { p with tainted := true }

def verifyFrom (parts : AList (fun _ : Int => Observed)) :
    Nat -> Int -> List Int -> Bool
  | _, _, [] => true
  | offset, previous, part :: rest =>
    match parts.lookup part with
    | none => false
    | some observed =>
      if part ≤ previous ∨ observed.assumedOffset ≠ offset then false
      else verifyFrom parts ((offset + observed.len) % 2 ^ 64) part rest

def verify (p : PartPlacer) (orderedParts : List Int) : Bool :=
  if p.tainted ∨ orderedParts.length ≠ p.parts.keys.length then false
  else verifyFrom p.parts 0 0 orderedParts

/-!
## Observing
-/

theorem observe_cases (p : PartPlacer) (partNumber : Int) (len : Nat) :
    (p.observe partNumber len).2.tainted = true ∨
      (p.parts.lookup partNumber = none ∧
        (p.observe partNumber len).1 = none ∧
        (p.observe partNumber len).2.tainted = p.tainted ∧
        (p.observe partNumber len).2.parts = p.parts ∧
        (p.observe partNumber len).2.hypothesis = max p.hypothesis len ∧
        assumedOffset (max p.hypothesis len) partNumber = none) ∨
      exists offset, p.parts.lookup partNumber = none ∧
        assumedOffset (max p.hypothesis len) partNumber = some offset ∧
        (p.observe partNumber len).2.tainted = p.tainted ∧
        (p.observe partNumber len).2.hypothesis = max p.hypothesis len ∧
        (p.observe partNumber len).2.parts = p.parts.insert partNumber
          { len := len, assumedOffset := offset } ∧
        forall chunk, (p.observe partNumber len).1 = some chunk ->
          offset = chunk * p.chunkSize := by
  unfold observe
  split
  · exact Or.inl rfl
  · rename_i hfresh
    rw [not_or, Option.not_isSome_iff_eq_none] at hfresh
    dsimp only
    split
    · rename_i hoffset
      exact Or.inr (Or.inl ⟨hfresh.right, rfl, rfl, rfl, rfl, hoffset⟩)
    · rename_i offset hoffset
      refine Or.inr (Or.inr ⟨offset, hfresh.right, hoffset, rfl, rfl, rfl, ?_⟩)
      intro chunk hchunk
      dsimp only at hchunk
      split at hchunk
      · rename_i hgrid
        cases hchunk
        exact (Nat.div_mul_cancel (Nat.dvd_of_mod_eq_zero hgrid)).symm
      · cases hchunk

theorem chunkSize_observe (p : PartPlacer) (partNumber : Int) (len : Nat) :
    (p.observe partNumber len).2.chunkSize = p.chunkSize := by
  unfold observe
  split
  · rfl
  · dsimp only
    split
    · rfl
    · rfl

theorem assumedOffset_none_mono {small large : Nat} {partNumber : Int}
    (hle : small ≤ large) (h : assumedOffset small partNumber = none) :
    assumedOffset large partNumber = none := by
  unfold assumedOffset at h ⊢
  dsimp only at h ⊢
  split at h
  · cases h
  rename_i hover
  have hgrows := Nat.mul_le_mul_left (partNumber - 1).toNat hle
  rw [if_neg (by lia)]

/-!
## Verifying
-/

def lenOf (parts : AList (fun _ : Int => Observed)) (part : Int) : Nat :=
  match parts.lookup part with
  | none => 0
  | some observed => observed.len

def totalLen (parts : AList (fun _ : Int => Observed)) (list : List Int) : Nat :=
  (list.map (lenOf parts)).sum

variable {parts : AList (fun _ : Int => Observed)}

variable {list : List Int} {p : PartPlacer} {offset : Nat} {part : Int}

theorem lenOf_of_lookup {observed : Observed}
    (h : parts.lookup part = some observed) :
    lenOf parts part = observed.len := by
  rw [lenOf, h]

variable {previous : Int}

theorem verifyFrom_cons {part : Int} {rest : List Int}
    (h : verifyFrom parts offset previous (part :: rest) = true) :
    exists observed, parts.lookup part = some observed ∧ previous < part ∧
      observed.assumedOffset = offset ∧
      verifyFrom parts ((offset + observed.len) % 2 ^ 64) part rest = true := by
  unfold verifyFrom at h
  split at h
  · cases h
  rename_i observed hfound
  split at h
  · cases h
  rename_i hplaced
  rw [not_or, not_not, Int.not_le] at hplaced
  exact ⟨observed, hfound, hplaced.left, hplaced.right, h⟩

theorem verifyFrom_increasing
    (h : verifyFrom parts offset previous list = true) :
    (previous :: list).Pairwise (· < ·) ∧
      forall part, part ∈ list -> part ∈ parts := by
  induction list generalizing offset previous with
  | nil => exact ⟨List.pairwise_singleton _ _, nofun⟩
  | cons part rest ih =>
    rcases verifyFrom_cons h with ⟨observed, hfound, hlt, _, hrest⟩
    rcases ih hrest with ⟨hpairwise, hmem⟩
    constructor
    · rw [List.pairwise_cons] at hpairwise ⊢
      refine ⟨?_, List.pairwise_cons.mpr hpairwise⟩
      intro other hother
      rcases List.mem_cons.mp hother with rfl | hother
      · exact hlt
      · exact Int.lt_trans hlt (hpairwise.left other hother)
    · intro other hother
      rcases List.mem_cons.mp hother with rfl | hother
      · rw [← AList.lookup_isSome, hfound]
        rfl
      · exact hmem other hother

theorem verifyFrom_placed {front back : List Int}
    (h : verifyFrom parts offset previous (front ++ part :: back) = true)
    (htotal : offset + totalLen parts (front ++ part :: back) < 2 ^ 64) :
    exists observed, parts.lookup part = some observed ∧
      observed.assumedOffset = offset + totalLen parts front := by
  induction front generalizing offset previous with
  | nil =>
    rcases verifyFrom_cons h with ⟨observed, hfound, _, hplaced, _⟩
    exact ⟨observed, hfound, hplaced⟩
  | cons first front ih =>
    rcases verifyFrom_cons h with ⟨observed, hfound, _, _, hrest⟩
    have hlen := lenOf_of_lookup hfound
    unfold totalLen at htotal ih ⊢
    rw [List.cons_append, List.map_cons, List.sum_cons, hlen] at htotal
    rw [Nat.mod_eq_of_lt (by lia)] at hrest
    rcases ih hrest (by lia) with ⟨placed, hplaced, hoffset⟩
    rw [List.map_cons, List.sum_cons, hlen, ← Nat.add_assoc]
    exact ⟨placed, hplaced, hoffset⟩

theorem verify_true (h : p.verify list = true) :
    p.tainted = false ∧ list.length = p.parts.keys.length ∧
      verifyFrom p.parts 0 0 list = true := by
  unfold verify at h
  split at h
  · cases h
  rename_i hclean
  rw [not_or, not_not, Bool.not_eq_true] at hclean
  exact ⟨hclean.left, hclean.right, h⟩

theorem mem_of_verify (h : p.verify list = true) (part : Int)
    : part ∈ list <-> part ∈ p.parts := by
  rcases verify_true h with ⟨_, hlength, hfrom⟩
  rcases verifyFrom_increasing hfrom with ⟨hpairwise, hmem⟩
  have hnodup : list.Nodup :=
    (List.pairwise_cons.mp hpairwise).right.imp fun hlt => Int.ne_of_lt hlt
  have hsubset : list ⊆ p.parts.keys := fun other hother => hmem other hother
  have hperm : list.Perm p.parts.keys :=
    (List.subperm_of_subset hnodup hsubset).perm_of_length_le
      (Nat.le_of_eq hlength.symm)
  exact hperm.mem_iff

theorem placed_of_verify {front back : List Int}
    (h : p.verify (front ++ part :: back) = true)
    (htotal : totalLen p.parts (front ++ part :: back) < 2 ^ 64) :
    exists observed, p.parts.lookup part = some observed ∧
      observed.assumedOffset = totalLen p.parts front := by
  rcases verify_true h with ⟨_, _, hfrom⟩
  have hplaced := verifyFrom_placed hfrom (by rw [Nat.zero_add]; exact htotal)
  rw [Nat.zero_add] at hplaced
  exact hplaced

end PartPlacer

end Daemon
end Pacer
