import Mathlib.Data.List.AList
import Pacer.Foundation.ByteFile

/-!
# The staging area

A home keeps the windows of a write until the write is known to exist.  A
window is staged under its chunk key for one upload; commit and discard address
all windows of an upload.  Staging never waits: a window that does not fit, or
whose key another upload holds, is refused at once.

The area's map has one entry for each chunk key.  In what order the entries of
an upload come out of it is left to the map.
-/

namespace Pacer
namespace Daemon

open Foundation

structure Staged where
  body : Bytes
  uploadId : String
  stagedAt : Nat
deriving DecidableEq, Repr

inductive StoreRefusal where
  | oversizedForBudget (chunkLen budget : Nat)
  | racingUpload
  | budgetExhausted (staged budget : Nat)
deriving DecidableEq, Repr

inductive StageOutcome where
  | staged
  | alreadyStaged
  | refused (refusal : StoreRefusal)
deriving DecidableEq, Repr

def StageOutcome.held : StageOutcome -> Bool
  | .staged => true
  | .alreadyStaged => true
  | .refused _ => false

structure StagingArea (key : Type) where
  pending : AList (fun _ : key => Staged)
  stagedBytes : Nat
  stagedBytesPeak : Nat
  budgetBytes : Nat
  ttl : Nat

namespace StagingArea

variable {key : Type}

def new (budgetBytes ttl : Nat) : StagingArea key :=
  { pending := ∅,
    stagedBytes := 0,
    stagedBytesPeak := 0,
    budgetBytes := budgetBytes,
    ttl := ttl }

def keysOf (area : StagingArea key) (uploadId : String) : List key :=
  (area.pending.entries.filter fun entry => entry.2.uploadId == uploadId).map
    Sigma.fst

def expired (area : StagingArea key) (now : Nat) : List key :=
  (area.pending.entries.filter fun entry =>
    area.ttl ≤ now - entry.2.stagedAt).map Sigma.fst

variable [DecidableEq key]

def tryStageAt (area : StagingArea key) (chunkKey : key) (uploadId : String)
    (body : Bytes) (now : Nat) : StageOutcome × StagingArea key :=
  if area.budgetBytes < body.length then
    (.refused (.oversizedForBudget body.length area.budgetBytes), area)
  else
    match area.pending.lookup chunkKey with
    | some existing =>
      if existing.uploadId = uploadId then (.alreadyStaged, area)
      else (.refused .racingUpload, area)
    | none =>
      if area.budgetBytes < area.stagedBytes + body.length then
        (.refused (.budgetExhausted area.stagedBytes area.budgetBytes), area)
      else
        (.staged, { area with
          pending := area.pending.insert chunkKey
            { body := body, uploadId := uploadId, stagedAt := now },
          stagedBytes := area.stagedBytes + body.length,
          stagedBytesPeak :=
            max area.stagedBytesPeak (area.stagedBytes + body.length) })

def remove (area : StagingArea key) (chunkKey : key) :
    Option Staged × StagingArea key :=
  match area.pending.lookup chunkKey with
  | none => (none, area)
  | some staged =>
    (some staged, { area with
      pending := area.pending.erase chunkKey,
      stagedBytes := area.stagedBytes - staged.body.length })

def removeAll : StagingArea key -> List key ->
    List (key × Staged) × StagingArea key
  | area, [] => ([], area)
  | area, chunkKey :: rest =>
    match area.remove chunkKey with
    | (none, area') => removeAll area' rest
    | (some staged, area') =>
      match removeAll area' rest with
      | (out, final) => ((chunkKey, staged) :: out, final)

def release (area : StagingArea key) (chunkKey : key) :
    Bool × StagingArea key :=
  match area.remove chunkKey with
  | (staged, area') => (staged.isSome, area')

def commit (area : StagingArea key) (uploadId : String) :
    List (key × Bytes) × StagingArea key :=
  match area.removeAll (area.keysOf uploadId) with
  | (out, area') => (out.map fun entry => (entry.1, entry.2.body), area')

def discard (area : StagingArea key) (uploadId : String) :
    Nat × StagingArea key :=
  match area.removeAll (area.keysOf uploadId) with
  | (out, area') => (out.length, area')

def reapAt (area : StagingArea key) (now : Nat) :
    List key × StagingArea key :=
  (area.expired now, (area.removeAll (area.expired now)).2)

/-!
## What is staged

Every operation but a staging one only takes entries away.
-/

/-- What is staged under each key in `later` was staged there in `area`. -/
def Within (later area : StagingArea key) : Prop :=
  forall k staged, later.pending.lookup k = some staged ->
    area.pending.lookup k = some staged

theorem within_refl (area : StagingArea key) : Within area area :=
  fun _ _ h => h

theorem Within.trans {a b c : StagingArea key} (hab : Within a b)
    (hbc : Within b c) : Within a c :=
  fun k staged h => hbc k staged (hab k staged h)

theorem within_new (area : StagingArea key) (budgetBytes ttl : Nat) :
    Within (new budgetBytes ttl) area := by
  intro k staged h
  change AList.lookup k (∅ : AList fun _ : key => Staged) = some staged at h
  rw [AList.lookup_empty] at h
  cases h

theorem within_remove (area : StagingArea key) (chunkKey : key) :
    Within (area.remove chunkKey).2 area := by
  unfold remove
  split
  · exact within_refl area
  · intro k staged h
    change (area.pending.erase chunkKey).lookup k = some staged at h
    rcases eq_or_ne k chunkKey with rfl | hne
    · rw [AList.lookup_erase] at h
      cases h
    · rw [AList.lookup_erase_ne hne] at h
      exact h

variable {area : StagingArea key} {staged : Staged} {uploadId : String}
  {k : key}

theorem remove_some {area area' : StagingArea key} {chunkKey : key}
    (h : area.remove chunkKey = (some staged, area')) :
    area.pending.lookup chunkKey = some staged := by
  unfold remove at h
  split at h
  · cases h
  rename_i found hfound
  cases h
  exact hfound

theorem within_removeAll (area : StagingArea key) (keys : List key) :
    Within (area.removeAll keys).2 area := by
  induction keys generalizing area with
  | nil => exact within_refl area
  | cons chunkKey rest ih =>
    have hremove := within_remove area chunkKey
    unfold removeAll
    split
    · rename_i area' hstep
      rw [hstep] at hremove
      exact (ih area').trans hremove
    · rename_i staged area' hstep
      rw [hstep] at hremove
      exact (ih area').trans hremove

theorem mem_removeAll {keys : List key}
    (h : (k, staged) ∈ (area.removeAll keys).1) :
    k ∈ keys ∧ area.pending.lookup k = some staged := by
  induction keys generalizing area with
  | nil => cases h
  | cons chunkKey rest ih =>
    have hremove := within_remove area chunkKey
    unfold removeAll at h
    split at h
    · rename_i area' hstep
      rw [hstep] at hremove
      rcases ih h with ⟨hmem, hlookup⟩
      exact ⟨List.mem_cons_of_mem _ hmem, hremove k staged hlookup⟩
    · rename_i found area' hstep
      rw [hstep] at hremove
      rcases List.mem_cons.mp h with heq | hrest
      · cases heq
        exact ⟨List.mem_cons_self, remove_some hstep⟩
      · rcases ih hrest with ⟨hmem, hlookup⟩
        exact ⟨List.mem_cons_of_mem _ hmem, hremove k staged hlookup⟩

theorem uploadId_of_mem_keysOf (hmem : k ∈ area.keysOf uploadId)
    (hlookup : area.pending.lookup k = some staged) :
    staged.uploadId = uploadId := by
  rcases List.mem_map.mp hmem with ⟨⟨found, entry⟩, hentry, rfl⟩
  rcases List.mem_filter.mp hentry with ⟨hin, hupload⟩
  have hfound := AList.mem_lookup_iff.mpr hin
  rw [Option.mem_def, hlookup] at hfound
  cases hfound
  exact eq_of_beq hupload

theorem mem_commit {body : Bytes} (h : (k, body) ∈ (area.commit uploadId).1) :
    exists staged, area.pending.lookup k = some staged ∧
      staged.uploadId = uploadId ∧ staged.body = body := by
  unfold commit at h
  rcases List.mem_map.mp h with ⟨⟨found, staged⟩, hout, heq⟩
  cases heq
  rcases mem_removeAll hout with ⟨hmem, hlookup⟩
  exact ⟨staged, hlookup, uploadId_of_mem_keysOf hmem hlookup, rfl⟩

theorem within_commit (area : StagingArea key) (uploadId : String) :
    Within (area.commit uploadId).2 area :=
  within_removeAll area (area.keysOf uploadId)

theorem within_discard (area : StagingArea key) (uploadId : String) :
    Within (area.discard uploadId).2 area :=
  within_removeAll area (area.keysOf uploadId)

theorem within_reapAt (area : StagingArea key) (now : Nat) :
    Within (area.reapAt now).2 area :=
  within_removeAll area (area.expired now)

variable {now : Nat}

theorem lookup_tryStageAt {chunkKey k : key} {body : Bytes}
    (h : (area.tryStageAt chunkKey uploadId body now).2.pending.lookup k =
      some staged) :
    area.pending.lookup k = some staged ∨
      (k = chunkKey ∧ staged = ⟨body, uploadId, now⟩) := by
  unfold tryStageAt at h
  split at h
  · exact Or.inl h
  · split at h
    · split at h
      · exact Or.inl h
      · exact Or.inl h
    · split at h
      · exact Or.inl h
      · change (area.pending.insert chunkKey _).lookup k = some staged at h
        rcases eq_or_ne k chunkKey with rfl | hne
        · rw [AList.lookup_insert] at h
          cases h
          exact Or.inr ⟨rfl, rfl⟩
        · rw [AList.lookup_insert_ne hne] at h
          exact Or.inl h

theorem lookup_tryStageAt_of_some (h : area.pending.lookup k = some staged)
    (chunkKey : key) (uploadId : String) (body : Bytes) (now : Nat) :
    (area.tryStageAt chunkKey uploadId body now).2.pending.lookup k =
      some staged := by
  unfold tryStageAt
  split
  · exact h
  · split
    · split
      · exact h
      · exact h
    · rename_i hnone
      split
      · exact h
      · -- only a key with no entry is inserted
        have hne : k ≠ chunkKey := by
          rintro rfl
          rw [hnone] at h
          cases h
        exact (AList.lookup_insert_ne hne).trans h

/-!
## What is left
-/

theorem lookup_remove (area : StagingArea key) (chunkKey k : key) :
    (area.remove chunkKey).2.pending.lookup k =
      if k = chunkKey then none else area.pending.lookup k := by
  unfold remove
  split
  · rename_i hnone
    split
    · rename_i heq
      rw [heq]
      exact hnone
    · rfl
  · change (area.pending.erase chunkKey).lookup k = _
    split
    · rename_i heq
      rw [heq]
      exact AList.lookup_erase _ _
    · rename_i hne
      exact AList.lookup_erase_ne hne

theorem lookup_removeAll (area : StagingArea key) (keys : List key) (k : key) :
    (area.removeAll keys).2.pending.lookup k =
      if k ∈ keys then none else area.pending.lookup k := by
  induction keys generalizing area with
  | nil => simp [removeAll]
  | cons chunkKey rest ih =>
    have hremove := lookup_remove area chunkKey k
    have hrest : (area.removeAll (chunkKey :: rest)).2 =
        ((area.remove chunkKey).2.removeAll rest).2 := by
      conv => lhs; unfold removeAll
      split
      · rename_i hstep
        rw [hstep]
      · rename_i hstep
        rw [hstep]
    rw [hrest, ih, hremove]
    by_cases hk : k = chunkKey
    · simp [hk]
    · simp [hk]

theorem mem_keysOf :
    k ∈ area.keysOf uploadId <->
      exists staged, area.pending.lookup k = some staged ∧
        staged.uploadId = uploadId := by
  unfold keysOf
  rw [List.mem_map]
  constructor
  · rintro ⟨entry, hentry, rfl⟩
    rcases List.mem_filter.mp hentry with ⟨hmem, hupload⟩
    exact ⟨entry.2, AList.mem_lookup_iff.mpr hmem, eq_of_beq hupload⟩
  · rintro ⟨staged, hstaged, hupload⟩
    refine ⟨⟨k, staged⟩, List.mem_filter.mpr ⟨?_, ?_⟩, rfl⟩
    · exact AList.mem_lookup_iff.mp hstaged
    · exact beq_iff_eq.mpr hupload

theorem mem_expired :
    k ∈ area.expired now <->
      exists staged, area.pending.lookup k = some staged ∧
        area.ttl ≤ now - staged.stagedAt := by
  unfold expired
  rw [List.mem_map]
  constructor
  · rintro ⟨entry, hentry, rfl⟩
    rcases List.mem_filter.mp hentry with ⟨hmem, hold⟩
    exact ⟨entry.2, AList.mem_lookup_iff.mpr hmem, of_decide_eq_true hold⟩
  · rintro ⟨staged, hstaged, hold⟩
    refine ⟨⟨k, staged⟩, List.mem_filter.mpr ⟨?_, ?_⟩, rfl⟩
    · exact AList.mem_lookup_iff.mp hstaged
    · exact decide_eq_true hold

theorem lookup_removeAll_keysOf (area : StagingArea key) (uploadId : String)
    (k : key) :
    (area.removeAll (area.keysOf uploadId)).2.pending.lookup k =
      (area.pending.lookup k).filter fun staged =>
        decide (staged.uploadId ≠ uploadId) := by
  rw [lookup_removeAll]
  cases hstaged : area.pending.lookup k with
  | none => simp
  | some staged =>
    have hmem : k ∈ area.keysOf uploadId <-> staged.uploadId = uploadId := by
      rw [mem_keysOf, hstaged]
      simp
    by_cases hupload : staged.uploadId = uploadId
    · rw [if_pos (hmem.mpr hupload), Option.filter_some_neg (by simp [hupload])]
    · rw [if_neg (fun h => hupload (hmem.mp h)),
        Option.filter_some_pos (by simp [hupload])]

theorem lookup_commit (area : StagingArea key) (uploadId : String) (k : key) :
    (area.commit uploadId).2.pending.lookup k =
      (area.pending.lookup k).filter fun staged =>
        decide (staged.uploadId ≠ uploadId) :=
  lookup_removeAll_keysOf area uploadId k

theorem lookup_discard (area : StagingArea key) (uploadId : String) (k : key) :
    (area.discard uploadId).2.pending.lookup k =
      (area.pending.lookup k).filter fun staged =>
        decide (staged.uploadId ≠ uploadId) :=
  lookup_removeAll_keysOf area uploadId k

theorem lookup_release (area : StagingArea key) (chunkKey k : key) :
    (area.release chunkKey).2.pending.lookup k =
      if k = chunkKey then none else area.pending.lookup k :=
  lookup_remove area chunkKey k

theorem ttl_le_of_reapAt (h : area.pending.lookup k = some staged)
    (hleft : (area.reapAt now).2.pending.lookup k ≠ some staged) :
    area.ttl ≤ now - staged.stagedAt := by
  have hlookup : (area.reapAt now).2.pending.lookup k =
      if k ∈ area.expired now then none else area.pending.lookup k :=
    lookup_removeAll area (area.expired now) k
  by_cases hexpired : k ∈ area.expired now
  · rcases mem_expired.mp hexpired with ⟨other, hother, hold⟩
    rw [h] at hother
    cases hother
    exact hold
  · rw [hlookup, if_neg hexpired] at hleft
    exact absurd h hleft

end StagingArea

end Daemon
end Pacer
