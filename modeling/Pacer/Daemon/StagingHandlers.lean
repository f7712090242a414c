import Mathlib.Logic.Function.Basic
import Pacer.Daemon.StagingArea
import Pacer.Foundation.Table
import Pacer.Foundation.Transition

/-!
# Handlers over one staging area

The windows of any number of writes at one node: handlers of `StoreChunk` and the
node's own uploads stage a window, upload it as a part, and release it when the
upload fails; commits, discards and reaps come at any time in between.

A release names the chunk key only.  What it takes off may by then be the chunk
of another upload, or one that a retry has uploaded in the meantime; apart from
that a chunk leaves the area by its own upload or its own time to live.
-/

namespace Pacer
namespace Daemon

open Foundation

namespace StagingHandlers

inductive Role where
  | owner
  | coordinator
deriving DecidableEq, Repr

/-- Where a handler is.  `succeeded` has the number of chunks that were staged
under the key until then. -/
inductive Stage where
  | uploading
  | succeeded (stagings : Nat)
  | ended
deriving DecidableEq, Repr

inductive PartEnd where
  | uploaded
  | withoutETag
  | failed
deriving DecidableEq, Repr

structure Handler (key : Type) where
  role : Role
  chunkKey : key
  uploadId : String
  staged : Bool
  stage : Stage
deriving DecidableEq, Repr

/-- Whether the handler releases its window at this end.  The coordinator keeps
the window of a part without an ETag. -/
def Handler.releases (h : Handler key) : PartEnd -> Bool
  | .uploaded => false
  | .withoutETag => h.role = .owner && h.staged
  | .failed => h.staged

/-- The area, the handlers, and how often a chunk was staged under each key. -/
structure Node (key : Type) where
  requesterMode : Bool
  area : StagingArea key
  handlers : List (Handler key)
  stagings : key -> Nat

inductive Event (key : Type) where
  | storeChunk (chunkKey : key) (uploadId : String) (body : Bytes) (now : Nat)
      (populateOnly : Bool)
  | uploadHere (chunkKey : key) (uploadId : String) (body : Bytes) (now : Nat)
  | partEnds (handler : Nat) (partEnd : PartEnd)
  /-- The call of a handler is dropped. -/
  | lose (handler : Nat)
  | commitUpload (uploadId : String)
  | discardUpload (uploadId : String)
  | reap (now : Nat)
deriving DecidableEq, Repr

namespace Node

variable {key : Type} [DecidableEq key]

def new (requesterMode : Bool) (budgetBytes ttl : Nat) : Node key :=
  { requesterMode := requesterMode, area := .new budgetBytes ttl,
    handlers := [], stagings := fun _ => 0 }

def spawn (s : Node key) (h : Handler key) : Node key :=
  { s with handlers := s.handlers ++ [h] }

def moveTo (s : Node key) (i : Nat) (h : Handler key) (stage : Stage) :
    Node key :=
  { s with handlers := s.handlers.set i { h with stage := stage } }

def offer (s : Node key) (chunkKey : key) (uploadId : String) (body : Bytes)
    (now : Nat) : StageOutcome × Node key :=
  match s.area.tryStageAt chunkKey uploadId body now with
  | (.staged, area) =>
    (.staged, { s with
      area := area
      stagings := Function.update s.stagings chunkKey
        (s.stagings chunkKey + 1) })
  | (outcome, area) => (outcome, { s with area := area })

def storeChunk (s : Node key) (chunkKey : key) (uploadId : String)
    (body : Bytes) (now : Nat) (populateOnly : Bool) : Node key :=
  -- a node in requester mode has no identity to upload with
  if s.requesterMode && !populateOnly then s
  else match s.offer chunkKey uploadId body now with
  | (outcome, s) =>
    if outcome.held && !populateOnly then
      s.spawn { role := .owner, chunkKey := chunkKey, uploadId := uploadId,
                staged := true, stage := .uploading }
    else s

def uploadHere (s : Node key) (chunkKey : key) (uploadId : String)
    (body : Bytes) (now : Nat) : Node key :=
  match s.offer chunkKey uploadId body now with
  | (outcome, s) =>
    s.spawn { role := .coordinator, chunkKey := chunkKey,
              uploadId := uploadId, staged := outcome.held,
              stage := .uploading }

def partEnds (s : Node key) (i : Nat) (h : Handler key) (partEnd : PartEnd) :
    Node key :=
  let stage :=
    if partEnd = .uploaded then .succeeded (s.stagings h.chunkKey) else .ended
  let s := s.moveTo i h stage
  if h.releases partEnd then { s with area := (s.area.release h.chunkKey).2 }
  else s

def uploading (s : Node key) (i : Nat) : Option (Handler key) :=
  (s.handlers[i]?).filter fun h => h.stage = .uploading

def step (s : Node key) : Event key -> Option (Node key)
  | .storeChunk chunkKey uploadId body now populateOnly =>
    some (s.storeChunk chunkKey uploadId body now populateOnly)
  | .uploadHere chunkKey uploadId body now =>
    some (s.uploadHere chunkKey uploadId body now)
  | .partEnds i partEnd =>
    (s.uploading i).map fun h => s.partEnds i h partEnd
  | .lose i => (s.uploading i).map fun h => s.moveTo i h .ended
  | .commitUpload uploadId =>
    some { s with area := (s.area.commit uploadId).2 }
  | .discardUpload uploadId =>
    some { s with area := (s.area.discard uploadId).2 }
  | .reap now => some { s with area := (s.area.reapAt now).2 }

/-!
## How a chunk may leave
-/

/-- A handler of the upload has uploaded the window since the chunk that is
there was staged. -/
def Uploaded (s : Node key) (chunkKey : key) (uploadId : String) : Prop :=
  exists h, h ∈ s.handlers ∧ h.chunkKey = chunkKey ∧ h.uploadId = uploadId ∧
    h.stage = .succeeded (s.stagings chunkKey)

/-- A chunk leaves by a commit or a discard of its upload, by its time to live,
or by a failed part of its upload that no other handler has uploaded. -/
def MayLeave (s : Node key) (chunkKey : key) (staged : Staged) :
    Event key -> Prop
  | .commitUpload uploadId => staged.uploadId = uploadId
  | .discardUpload uploadId => staged.uploadId = uploadId
  | .reap now => s.area.ttl ≤ now - staged.stagedAt
  | .partEnds i partEnd =>
    partEnd ≠ .uploaded ∧
      exists h, s.uploading i = some h ∧ h.chunkKey = chunkKey ∧
        h.uploadId = staged.uploadId ∧ ¬ s.Uploaded chunkKey staged.uploadId
  | _ => False

def Undisturbed (s : Node key) (e : Event key) : Prop :=
  forall s', s.step e = some s' -> forall chunkKey staged,
    s.area.pending.lookup chunkKey = some staged ->
    s'.area.pending.lookup chunkKey ≠ some staged ->
      s.MayLeave chunkKey staged e

/-- What a handler is about to release is of its own upload, and no other
handler of that upload has uploaded the window since it was staged. -/
def Own (s : Node key) : Event key -> Prop
  | .partEnds i partEnd =>
    forall h, h ∈ s.uploading i -> h.releases partEnd = true ->
      forall staged, staged ∈ s.area.pending.lookup h.chunkKey ->
        staged.uploadId = h.uploadId ∧ ¬ s.Uploaded h.chunkKey h.uploadId
  | _ => True

instance decidableOwn (s : Node key) : (e : Event key) -> Decidable (s.Own e)
  | .partEnds i partEnd =>
    have (chunkKey : key) (uploadId : String) :
        Decidable (s.Uploaded chunkKey uploadId) :=
      inferInstanceAs (Decidable (exists h, h ∈ s.handlers ∧ _))
    inferInstanceAs (Decidable (forall h, h ∈ s.uploading i ->
      h.releases partEnd = true ->
        forall staged, staged ∈ s.area.pending.lookup h.chunkKey ->
          staged.uploadId = h.uploadId ∧
            ¬ s.Uploaded h.chunkKey h.uploadId))
  | .storeChunk .. => .isTrue trivial
  | .uploadHere .. => .isTrue trivial
  | .lose _ => .isTrue trivial
  | .commitUpload _ => .isTrue trivial
  | .discardUpload _ => .isTrue trivial
  | .reap _ => .isTrue trivial

/-!
## One event
-/

variable (s : Node key)

theorem area_offer (chunkKey : key) (uploadId : String) (body : Bytes)
    (now : Nat) :
    (s.offer chunkKey uploadId body now).2.area =
      (s.area.tryStageAt chunkKey uploadId body now).2 := by
  unfold offer
  split
  · rename_i heq
    rw [heq]
  · rename_i heq
    rw [heq]

variable {staged : Staged}

theorem lookup_storeChunk {s : Node key} {k : key}
    (h : s.area.pending.lookup k = some staged) (chunkKey : key)
    (uploadId : String) (body : Bytes) (now : Nat) (populateOnly : Bool) :
    (s.storeChunk chunkKey uploadId body now populateOnly).area.pending.lookup
      k = some staged := by
  have hoffer : (s.offer chunkKey uploadId body now).2.area.pending.lookup k =
      some staged := by
    rw [area_offer]
    exact StagingArea.lookup_tryStageAt_of_some h chunkKey uploadId body now
  unfold storeChunk
  split
  · exact h
  · dsimp only
    split
    · exact hoffer
    · exact hoffer

theorem lookup_uploadHere {s : Node key} {k : key}
    (h : s.area.pending.lookup k = some staged) (chunkKey : key)
    (uploadId : String) (body : Bytes) (now : Nat) :
    (s.uploadHere chunkKey uploadId body now).area.pending.lookup k =
      some staged := by
  change (s.offer chunkKey uploadId body now).2.area.pending.lookup k = _
  rw [area_offer]
  exact StagingArea.lookup_tryStageAt_of_some h chunkKey uploadId body now

theorem area_partEnds (i : Nat) (h : Handler key) (partEnd : PartEnd) :
    (s.partEnds i h partEnd).area =
      if h.releases partEnd = true then (s.area.release h.chunkKey).2
      else s.area := by
  cases hreleases : h.releases partEnd with
  | true =>
    simp only [partEnds, hreleases, if_true]
    rfl
  | false =>
    simp only [partEnds, hreleases, Bool.false_eq_true, if_false]
    rfl

theorem lookup_partEnds (i : Nat) (h : Handler key) (partEnd : PartEnd)
    (k : key) :
    (s.partEnds i h partEnd).area.pending.lookup k =
      if h.releases partEnd = true ∧ k = h.chunkKey then none
      else s.area.pending.lookup k := by
  rw [area_partEnds]
  by_cases hreleases : h.releases partEnd = true
  · rw [if_pos hreleases, StagingArea.lookup_release]
    simp [hreleases]
  · rw [if_neg hreleases, if_neg (fun hand => hreleases hand.left)]

omit [DecidableEq key] in
theorem ne_uploaded_of_releases {h : Handler key} {partEnd : PartEnd}
    (hreleases : h.releases partEnd = true) : partEnd ≠ .uploaded := by
  rintro rfl
  cases hreleases

theorem undisturbed_partEnds_iff (i : Nat) (partEnd : PartEnd) :
    s.Undisturbed (.partEnds i partEnd) <-> s.Own (.partEnds i partEnd) := by
  constructor
  · intro hund h hh hreleases staged hstaged
    have hstep : s.step (.partEnds i partEnd) =
        some (s.partEnds i h partEnd) := by
      change (s.uploading i).map _ = _
      rw [Option.mem_def.mp hh]
      rfl
    have hgone : (s.partEnds i h partEnd).area.pending.lookup h.chunkKey ≠
        some staged := by
      rw [lookup_partEnds, if_pos ⟨hreleases, rfl⟩]
      intro hnone
      cases hnone
    rcases hund _ hstep h.chunkKey staged hstaged hgone with
      ⟨_, other, hother, _, hupload, hnot⟩
    rw [Option.mem_def.mp hh] at hother
    cases hother
    rw [hupload]
    rw [← hupload] at hnot
    exact ⟨rfl, hupload ▸ hnot⟩
  · intro hown s' hstep k staged hstaged hgone
    rcases Option.map_eq_some_iff.mp hstep with ⟨h, hh, rfl⟩
    rw [lookup_partEnds] at hgone
    by_cases hreleased : h.releases partEnd = true ∧ k = h.chunkKey
    · rcases hreleased with ⟨hreleases, rfl⟩
      rcases hown h hh hreleases staged hstaged with ⟨hupload, hnot⟩
      constructor
      · exact ne_uploaded_of_releases hreleases
      · exists h
        rw [hupload]
        exact ⟨hh, rfl, rfl, hnot⟩
    · rw [if_neg hreleased] at hgone
      exact absurd hstaged hgone

theorem uploadId_eq_of_filter {uploadId : String} {entry : Option Staged}
    (h : entry = some staged)
    (hleft : (entry.filter fun staged => decide (staged.uploadId ≠ uploadId)) ≠
      some staged) :
    staged.uploadId = uploadId := by
  by_contra hne
  apply hleft
  rw [h]
  exact Option.filter_some_pos (decide_eq_true hne)

theorem undisturbed_iff (e : Event key) :
    s.Undisturbed e <-> s.Own e := by
  cases e with
  | partEnds i partEnd => exact undisturbed_partEnds_iff s i partEnd
  | storeChunk chunkKey uploadId body now populateOnly =>
    refine iff_of_true ?_ trivial
    intro s' hstep k staged hstaged hgone
    cases hstep
    exact absurd (lookup_storeChunk hstaged _ _ _ _ _) hgone
  | uploadHere chunkKey uploadId body now =>
    refine iff_of_true ?_ trivial
    intro s' hstep k staged hstaged hgone
    cases hstep
    exact absurd (lookup_uploadHere hstaged _ _ _ _) hgone
  | lose i =>
    refine iff_of_true ?_ trivial
    intro s' hstep k staged hstaged hgone
    rcases Option.map_eq_some_iff.mp hstep with ⟨h, _, rfl⟩
    exact absurd hstaged hgone
  | commitUpload uploadId =>
    refine iff_of_true ?_ trivial
    intro s' hstep k staged hstaged hgone
    cases hstep
    apply uploadId_eq_of_filter hstaged
    rw [← StagingArea.lookup_commit]
    exact hgone
  | discardUpload uploadId =>
    refine iff_of_true ?_ trivial
    intro s' hstep k staged hstaged hgone
    cases hstep
    apply uploadId_eq_of_filter hstaged
    rw [← StagingArea.lookup_discard]
    exact hgone
  | reap now =>
    refine iff_of_true ?_ trivial
    intro s' hstep k staged hstaged hgone
    cases hstep
    exact StagingArea.ttl_le_of_reapAt hstaged hgone

/-!
## Any interleaving
-/

/-- Along every interleaving chunks leave only as they may, exactly where each
release takes off a chunk of the handler's own upload that no other handler has
uploaded. -/
theorem undisturbed_iff_releases_own (requesterMode : Bool)
    (budgetBytes ttl : Nat) (events : List (Event key)) :
    Transition.Along step Undisturbed
        (new requesterMode budgetBytes ttl : Node key) events <->
      Transition.Along step Own
        (new requesterMode budgetBytes ttl : Node key) events :=
  Transition.along_congr undisturbed_iff step _ events

/-- The chunk of an upload is reaped and another upload stages the same key;
then the part of the first fails. -/
def afterReap : List (Event Nat) :=
  [.storeChunk 0 "first" [1] 0 false, .reap 5,
    .storeChunk 0 "second" [2] 5 false, .partEnds 0 .failed]

def afterRetry : List (Event Nat) :=
  [.storeChunk 0 "first" [1] 0 false, .storeChunk 0 "first" [1] 1 false,
    .partEnds 1 .uploaded, .partEnds 0 .failed]

/-- In the one the second upload's chunk is gone, in the other a chunk whose
part is uploaded. -/
theorem release_takes_another :
    ¬ Transition.Along step Undisturbed (new false 10 5) afterReap ∧
      ¬ Transition.Along step Undisturbed (new false 10 5) afterRetry ∧
      ((Transition.run step (new false 10 5) (afterReap.take 3)).map
          fun s => (s.area.pending.lookup 0).map Staged.uploadId) =
        some (some "second") ∧
      ((Transition.run step (new false 10 5) afterReap).map
          fun s => (s.area.pending.lookup 0).map Staged.uploadId) =
        some none := by
  rw [Transition.along_congr undisturbed_iff,
    Transition.along_congr undisturbed_iff]
  constructor
  · decide +kernel
  · constructor
    · decide +kernel
    · constructor
      · decide +kernel
      · decide +kernel

end Node

end StagingHandlers

end Daemon
end Pacer
