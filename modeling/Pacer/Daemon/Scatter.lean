import Mathlib.Algebra.Ring.Int.Defs
import Mathlib.Algebra.Ring.Nat
import Pacer.Cache.Chunk
import Pacer.Cluster.Rendezvous
import Pacer.Daemon.WindowSplitter
import Pacer.Foundation.Sorting

/-!
# Assembling a scattered write

A large new object is cut on the chunk grid while its body streams in, each
window is uploaded as one part, by the chunk's home or by the coordinator, and
the object is assembled from the parts.  This module follows a write up to and
including the answer of CompleteMultipartUpload.

What the environment answers is a parameter: for each window whether its home is
offered it, what the home answers, whether this node could stage it and what S3
answers to the upload, and the order in which the uploads are collected.  A
running CRC32 is known by the bytes it was fed, so that combining two of them is
appending.  A part number is the index plus one, as a signed 32-bit number.
-/

namespace Pacer
namespace Daemon

open Foundation
open Cache
open Cluster

def asI32 (n : Nat) : Int :=
  let low : Nat := n % 2 ^ 32
  if low < 2 ^ 31 then (low : Int) else (low : Int) - 2 ^ 32

theorem asI32_of_lt {n : Nat} (h : n < 2 ^ 31) : asI32 n = (n : Int) := by
  have hlow : n % 2 ^ 32 = n := Nat.mod_eq_of_lt (by lia)
  unfold asI32
  rw [hlow]
  exact if_pos h

structure PlannedWindow where
  index : Nat
  partNumber : Int
  chunkKey : String
  homes : List NodeId
deriving DecidableEq, Repr

structure ScatterPlan where
  windows : List PlannedWindow
  objectLen : Nat
deriving DecidableEq, Repr

def ScatterPlan.build (homes : String -> List NodeId) (chunk : ChunkConfig)
    (objectKey : String) (objectLen : Nat) : ScatterPlan :=
  { windows := (List.range (chunk.chunkCount objectLen)).map fun index =>
      { index := index,
        partNumber := asI32 (index + 1),
        chunkKey := chunk.chunkKey objectKey index,
        homes := homes (chunk.chunkKey objectKey index) },
    objectLen := objectLen }

structure ScatterTarget where
  objectKey : String
  objectLen : Nat
  expectedCrc32 : Option String
deriving DecidableEq, Repr

/-- A body stream: its buffers, and whether reading it fails at the end. -/
structure Body where
  frames : List Bytes
  broken : Bool
deriving DecidableEq, Repr

def Body.bytes (body : Body) : Bytes := body.frames.flatten

namespace Scatter

inductive Failure where
  | create
  | readingBody
  | longerThanPromised
  | windowFailed
  | yielded (windows promised : Nat)
  | complete
deriving DecidableEq, Repr

inductive ScatterError where
  | clientDigestMismatch (claimed computed : String)
  | failed (failure : Failure)
deriving DecidableEq, Repr

inductive StoreOutcome where
  | uploaded (eTag : String)
  | refused
  | staged
deriving DecidableEq, Repr

structure DonePart where
  partNumber : Int
  eTag : String
  owner : Option NodeId
  staged : Bool
  digest : Bytes
deriving DecidableEq, Repr

structure Env where
  createUpload : Option String
  mayOffer : Nat -> Bool
  offer : Nat -> Option StoreOutcome
  stages : Nat -> Bool
  uploadPart : Nat -> Option String
  joined : List DonePart -> List DonePart
  reorders : forall parts, (joined parts).Perm parts
  complete : Option String

structure Pipeline where
  splitter : WindowSplitter
  tasks : List (PlannedWindow × Bytes)
  next : Nat

/-!
## Reading the body
-/

def dispatch (plan : ScatterPlan) (window : Bytes) (pipe : Pipeline) :
    Except Failure Pipeline :=
  match plan.windows[pipe.next]? with
  | none => .error .longerThanPromised
  | some planned =>
    .ok { pipe with
      tasks := pipe.tasks ++ [(planned, window)],
      next := pipe.next + 1 }

/-- Dispatch every full window the splitter holds.  Each takes a byte at least,
so the bytes carried bound their number. -/
def drainWindows (plan : ScatterPlan) : Nat -> Pipeline ->
    Except Failure Pipeline
  | 0, pipe => .ok pipe
  | fuel + 1, pipe =>
    match pipe.splitter.takeWindow with
    | none => .ok pipe
    | some (window, splitter) =>
      match dispatch plan window { pipe with splitter := splitter } with
      | .error e => .error e
      | .ok pipe' => drainWindows plan fuel pipe'

def readBody (plan : ScatterPlan) : List Bytes -> Pipeline ->
    Except Failure Pipeline
  | [], pipe => .ok pipe
  | bytes :: rest, pipe =>
    let pushed := { pipe with splitter := pipe.splitter.push bytes }
    match drainWindows plan pushed.splitter.carried pushed with
    | .error e => .error e
    | .ok pipe' => readBody plan rest pipe'

def dispatchTail (plan : ScatterPlan) (pipe : Pipeline) :
    Except Failure Pipeline :=
  match pipe.splitter.takeTail with
  | none => .ok pipe
  | some (tail, splitter) =>
    dispatch plan tail { pipe with splitter := splitter }

/-!
## Uploading the windows
-/

def uploadHere (env : Env) (planned : PlannedWindow) (body : Bytes) :
    Option DonePart :=
  match env.uploadPart planned.index with
  | none => none
  | some eTag =>
    some { partNumber := planned.partNumber, eTag := eTag, owner := none,
           staged := env.stages planned.index, digest := body }

def uploadWindow (localNode : String) (env : Env)
    (task : PlannedWindow × Bytes) : Option DonePart :=
  match task.1.homes.head? with
  | none => uploadHere env task.1 task.2
  | some home =>
    if home.name ≠ localNode ∧ env.mayOffer task.1.index = true then
      match env.offer task.1.index with
      | some (.uploaded eTag) =>
        some { partNumber := task.1.partNumber, eTag := eTag,
               owner := some home, staged := true, digest := task.2 }
      | _ => uploadHere env task.1 task.2
    else uploadHere env task.1 task.2

/-- Read the body to its end, dispatch every window and join the uploads.  A
failed upload fails the pipeline whenever it is noticed. -/
def runPipeline (localNode : String) (chunk : ChunkConfig) (env : Env)
    (plan : ScatterPlan) (body : Body) : Except Failure (List DonePart) :=
  let pipe : Pipeline :=
    { splitter := WindowSplitter.new chunk.chunkSize chunk.positive,
      tasks := [], next := 0 }
  match readBody plan body.frames pipe with
  | .error e => .error e
  | .ok read =>
    if body.broken then .error .readingBody
    else
      match dispatchTail plan read with
      | .error e => .error e
      | .ok full =>
        match full.tasks.mapM (uploadWindow localNode env) with
        | none => .error .windowFailed
        | some parts =>
          if parts.length ≠ plan.windows.length then
            .error (.yielded parts.length plan.windows.length)
          else .ok (env.joined parts)

/-!
## Assembling the object
-/

def ordered (parts : List DonePart) : List DonePart :=
  parts.insertionSort fun a b => a.partNumber ≤ b.partNumber

def wholeObject (parts : List DonePart) : Bytes :=
  ((ordered parts).map DonePart.digest).flatten

/-- How far an assembly went: the parts Complete was called with, if it was, and
what came of it. -/
structure Assembly where
  completed : Option (List DonePart)
  result : Except ScatterError (String × List DonePart × String)

def assemble (localNode : String) (homes : String -> List NodeId)
    (chunk : ChunkConfig) (checksum : Bytes -> String) (env : Env)
    (target : ScatterTarget) (body : Body) : Assembly :=
  match env.createUpload with
  | none => { completed := none, result := .error (.failed .create) }
  | some uploadId =>
    let plan :=
      ScatterPlan.build homes chunk target.objectKey target.objectLen
    match runPipeline localNode chunk env plan body with
    | .error e => { completed := none, result := .error (.failed e) }
    | .ok parts =>
      let computed := checksum (wholeObject parts)
      let complete : Assembly :=
        { completed := some (ordered parts),
          result :=
            match env.complete with
            | none => .error (.failed .complete)
            | some eTag => .ok (uploadId, parts, eTag) }
      match target.expectedCrc32 with
      | none => complete
      | some claimed =>
        if claimed ≠ computed then
          { completed := none,
            result := .error (.clientDigestMismatch claimed computed) }
        else complete

/-!
## What the windows are

As long as nothing fails, the windows dispatched so far are the first chunks of
the bytes read so far, each matched to the plan's window of that place, and the
splitter holds the rest.
-/

variable {parts : List DonePart} {plan : ScatterPlan} {objectKey : String}
  {n : Nat}

variable {tasks : List (PlannedWindow × Bytes)} {xs : Bytes}

section Cutting

variable {chunk : ChunkConfig} {plan : ScatterPlan}

def windowsOf (chunk : ChunkConfig) (plan : ScatterPlan) (xs : Bytes)
    (n : Nat) : List (PlannedWindow × Bytes) :=
  (plan.windows.take n).zip ((List.range n).map (chunk.chunkOf xs))

structure Cut (chunk : ChunkConfig) (plan : ScatterPlan) (xs : Bytes)
    (pipe : Pipeline) : Prop where
  tasks : pipe.tasks = windowsOf chunk plan xs pipe.next
  planned : pipe.next ≤ plan.windows.length
  read : pipe.next * chunk.chunkSize ≤ xs.length
  holds : pipe.splitter.Holds (xs.drop (pipe.next * chunk.chunkSize))
  sized : pipe.splitter.chunkSize = chunk.chunkSize

theorem windowsOf_succ {planned : PlannedWindow}
    (h : plan.windows[n]? = some planned) :
    windowsOf chunk plan xs (n + 1) =
      windowsOf chunk plan xs n ++ [(planned, chunk.chunkOf xs n)] := by
  have hlen : n < plan.windows.length := (List.getElem?_eq_some_iff.mp h).1
  unfold windowsOf
  rw [List.take_add_one, h, List.range_succ, List.map_append,
    List.zip_append]
  · rfl
  · rw [List.length_take, List.length_map, List.length_range]
    lia

theorem chunkOf_append {xs ys : Bytes} {i : Nat}
    (h : (i + 1) * chunk.chunkSize ≤ xs.length) :
    chunk.chunkOf (xs ++ ys) i = chunk.chunkOf xs i := by
  unfold ChunkConfig.chunkOf
  exact (span_of_isPrefix (List.prefix_append xs ys) h).symm

theorem windowsOf_append {xs ys : Bytes} (h : n * chunk.chunkSize ≤ xs.length) :
    windowsOf chunk plan (xs ++ ys) n = windowsOf chunk plan xs n := by
  unfold windowsOf
  congr 1
  apply List.map_congr_left
  intro i hi
  apply chunkOf_append
  have hle : i + 1 ≤ n := List.mem_range.mp hi
  exact Nat.le_trans (Nat.mul_le_mul_right _ hle) h

theorem cut_start (chunk : ChunkConfig) (plan : ScatterPlan) :
    Cut chunk plan []
      { splitter := WindowSplitter.new chunk.chunkSize chunk.positive,
        tasks := [], next := 0 } := by
  refine ⟨rfl, Nat.zero_le _, ?_, ?_, rfl⟩
  · rw [Nat.zero_mul]
    exact Nat.le_refl _
  · rw [List.drop_nil]
    exact WindowSplitter.holds_new _ _

namespace Cut

variable {xs : Bytes} {pipe pipe' : Pipeline}

section

variable (h : Cut chunk plan xs pipe)

include h

theorem push (bytes : Bytes) :
    Cut chunk plan (xs ++ bytes)
      { pipe with splitter := pipe.splitter.push bytes } := by
  rcases h.holds.push bytes with ⟨hholds, hsize⟩
  refine ⟨?_, h.planned, ?_, ?_, hsize.trans h.sized⟩
  · rw [windowsOf_append h.read]
    exact h.tasks
  · rw [List.length_append]
    exact Nat.le_trans h.read (Nat.le_add_right _ _)
  · rw [List.drop_append_of_le_length h.read]
    exact hholds

variable {splitter : WindowSplitter}

theorem dispatch
    (hsplit : splitter.Holds (xs.drop ((pipe.next + 1) * chunk.chunkSize)))
    (hsized : splitter.chunkSize = chunk.chunkSize)
    (hread : (pipe.next + 1) * chunk.chunkSize ≤ xs.length)
    (hstep : Scatter.dispatch plan (chunk.chunkOf xs pipe.next)
      { pipe with splitter := splitter } = .ok pipe') :
    Cut chunk plan xs pipe' := by
  unfold Scatter.dispatch at hstep
  dsimp only at hstep
  split at hstep
  · cases hstep
  rename_i planned hplanned
  cases hstep
  refine ⟨?_, ?_, hread, hsplit, hsized⟩
  · rw [windowsOf_succ hplanned, ← h.tasks]
  · exact (List.getElem?_eq_some_iff.mp hplanned).1

theorem takeWindow {window : Bytes}
    (htake : pipe.splitter.takeWindow = some (window, splitter)) :
    window = chunk.chunkOf xs pipe.next ∧
      splitter.Holds (xs.drop ((pipe.next + 1) * chunk.chunkSize)) ∧
      splitter.chunkSize = chunk.chunkSize ∧
      (pipe.next + 1) * chunk.chunkSize ≤ xs.length := by
  have hsized := h.sized
  rcases Nat.lt_or_ge (xs.drop (pipe.next * chunk.chunkSize)).length
    pipe.splitter.chunkSize with hlt | hge
  · rw [WindowSplitter.takeWindow_of_lt h.holds hlt] at htake
    cases htake
  rcases WindowSplitter.takeWindow_of_le h.holds hge with
    ⟨s', htake', hholds, hsize⟩
  rw [htake] at htake'
  cases htake'
  rw [hsized] at hholds hge ⊢
  rw [List.length_drop] at hge
  rw [List.drop_drop, ← Nat.add_one_mul] at hholds
  refine ⟨?_, hholds, hsize.trans hsized, ?_⟩
  · unfold ChunkConfig.chunkOf span
    rw [Nat.add_one_mul]
    exact List.take_drop
  · rw [Nat.add_one_mul]
    have hpos := chunk.positive
    lia

theorem short_of_drained (hdrained : pipe.splitter.takeWindow = none) :
    xs.length < (pipe.next + 1) * chunk.chunkSize := by
  rw [← Nat.not_le]
  intro hle
  have hge : pipe.splitter.chunkSize ≤
      (xs.drop (pipe.next * chunk.chunkSize)).length := by
    rw [List.length_drop, h.sized]
    rw [Nat.add_one_mul] at hle
    lia
  rcases WindowSplitter.takeWindow_of_le h.holds hge with ⟨s', hsome, _⟩
  rw [hsome] at hdrained
  cases hdrained

theorem exists_dispatch
    (hcount : chunk.chunkCount xs.length ≤ plan.windows.length) {window : Bytes}
    (htake : pipe.splitter.takeWindow = some (window, splitter)) :
    exists pipe', Scatter.dispatch plan window
        { pipe with splitter := splitter } = .ok pipe' ∧
      Cut chunk plan xs pipe' ∧ pipe'.splitter = splitter := by
  rcases h.takeWindow htake with ⟨rfl, hsplit, hsized, hread⟩
  have hlt : pipe.next < plan.windows.length := by
    apply Nat.lt_of_lt_of_le _ hcount
    apply ChunkConfig.lt_chunkCount.mpr
    have hpos := chunk.positive
    rw [Nat.add_one_mul] at hread
    lia
  have hmid : Scatter.dispatch plan (chunk.chunkOf xs pipe.next)
      { pipe with splitter := splitter } = .ok
        { pipe with
          splitter := splitter,
          tasks := pipe.tasks ++
            [(plan.windows[pipe.next], chunk.chunkOf xs pipe.next)],
          next := pipe.next + 1 } := by
    unfold Scatter.dispatch
    dsimp only
    rw [List.getElem?_eq_getElem hlt]
  exact ⟨_, hmid, h.dispatch hsplit hsized hread hmid, rfl⟩

theorem drainWindows {fuel : Nat}
    (hfuel : xs.length ≤ pipe.next * chunk.chunkSize + fuel)
    (hstep : Scatter.drainWindows plan fuel pipe = .ok pipe') :
    Cut chunk plan xs pipe' ∧
      xs.length < (pipe'.next + 1) * chunk.chunkSize := by
  have hpos := chunk.positive
  induction fuel generalizing pipe with
  | zero =>
    cases hstep
    refine ⟨h, ?_⟩
    rw [Nat.add_one_mul]
    lia
  | succ fuel ih =>
    unfold Scatter.drainWindows at hstep
    split at hstep
    · rename_i hnone
      cases hstep
      exact ⟨h, h.short_of_drained hnone⟩
    · rename_i window splitter htake
      rcases h.takeWindow htake with ⟨rfl, hsplit, hsized, hread⟩
      split at hstep
      · cases hstep
      rename_i mid hmid
      have hnext : mid.next = pipe.next + 1 := by
        unfold Scatter.dispatch at hmid
        split at hmid
        · cases hmid
        · cases hmid
          rfl
      refine ih (h.dispatch hsplit hsized hread hmid) ?_ hstep
      rw [hnext, Nat.add_one_mul]
      lia

theorem exists_drainWindows
    (hcount : chunk.chunkCount xs.length ≤ plan.windows.length) (fuel : Nat) :
    exists pipe', Scatter.drainWindows plan fuel pipe = .ok pipe' := by
  induction fuel generalizing pipe with
  | zero => exact ⟨pipe, rfl⟩
  | succ fuel ih =>
    unfold Scatter.drainWindows
    split
    · exact ⟨pipe, rfl⟩
    · rename_i window splitter htake
      rcases h.exists_dispatch hcount htake with ⟨pipe', hmid, hcut, _⟩
      rw [hmid]
      exact ih hcut

section

variable (hshort : xs.length < (pipe.next + 1) * chunk.chunkSize)

include hshort

theorem readBody {frames : List Bytes}
    (hstep : Scatter.readBody plan frames pipe = .ok pipe') :
    Cut chunk plan (xs ++ frames.flatten) pipe' ∧
      (xs ++ frames.flatten).length < (pipe'.next + 1) * chunk.chunkSize := by
  induction frames generalizing xs pipe with
  | nil =>
    cases hstep
    rw [List.flatten_nil, List.append_nil]
    exact ⟨h, hshort⟩
  | cons bytes rest ih =>
    have hpush := h.push bytes
    unfold Scatter.readBody at hstep
    dsimp only at hstep
    split at hstep
    · cases hstep
    rename_i mid hmid
    rcases hpush.drainWindows (by
      have hheld := hpush.holds.right
      rw [List.length_drop] at hheld
      dsimp only at hheld ⊢
      lia) hmid with ⟨hcut, hless⟩
    rw [List.flatten_cons, ← List.append_assoc]
    exact ih hcut hless hstep

theorem exists_readBody {frames : List Bytes}
    (hcount : chunk.chunkCount (xs ++ frames.flatten).length ≤
      plan.windows.length) :
    exists pipe', Scatter.readBody plan frames pipe = .ok pipe' := by
  induction frames generalizing xs pipe with
  | nil => exact ⟨pipe, rfl⟩
  | cons bytes rest ih =>
    have hpush := h.push bytes
    rw [List.flatten_cons, ← List.append_assoc] at hcount
    have hfront : chunk.chunkCount (xs ++ bytes).length ≤
        plan.windows.length := by
      apply Nat.le_trans _ hcount
      apply ChunkConfig.chunkCount_mono
      exact (List.prefix_append (xs ++ bytes) rest.flatten).length_le
    rcases hpush.exists_drainWindows hfront
      (pipe.splitter.push bytes).carried with ⟨mid, hmid⟩
    rcases hpush.drainWindows (by
      have hheld := hpush.holds.right
      rw [List.length_drop] at hheld
      dsimp only at hheld ⊢
      lia) hmid with ⟨hcut, hless⟩
    unfold Scatter.readBody
    dsimp only
    rw [hmid]
    exact ih hcut hless hcount

theorem dispatchTail (hstep : Scatter.dispatchTail plan pipe = .ok pipe') :
    pipe'.tasks = windowsOf chunk plan xs (chunk.chunkCount xs.length) ∧
      chunk.chunkCount xs.length ≤ plan.windows.length := by
  have hread := h.read
  unfold Scatter.dispatchTail at hstep
  by_cases hempty : xs.drop (pipe.next * chunk.chunkSize) = []
  · have hholds := h.holds
    rw [hempty] at hholds
    rw [WindowSplitter.takeTail_nil hholds] at hstep
    cases hstep
    have hlen : xs.length = pipe.next * chunk.chunkSize := by
      rw [List.drop_eq_nil_iff] at hempty
      lia
    rw [hlen, ChunkConfig.chunkCount_mul]
    exact ⟨h.tasks, h.planned⟩
  · rcases WindowSplitter.takeTail_of_ne_nil h.holds hempty with ⟨s', htail⟩
    rw [htail] at hstep
    have hlt : pipe.next * chunk.chunkSize < xs.length := by
      rw [List.drop_eq_nil_iff] at hempty
      lia
    rw [ChunkConfig.chunkCount_of_lt hlt (Nat.le_of_lt hshort)]
    unfold Scatter.dispatch at hstep
    dsimp only at hstep
    split at hstep
    · cases hstep
    rename_i planned hplanned
    cases hstep
    have htake : xs.take ((pipe.next + 1) * chunk.chunkSize) = xs :=
      List.take_of_length_le (Nat.le_of_lt hshort)
    constructor
    · rw [windowsOf_succ hplanned, ← h.tasks]
      unfold ChunkConfig.chunkOf span
      rw [htake]
    · exact (List.getElem?_eq_some_iff.mp hplanned).1

end

theorem exists_dispatchTail
    (hcount : chunk.chunkCount xs.length ≤ plan.windows.length) :
    exists pipe', Scatter.dispatchTail plan pipe = .ok pipe' := by
  unfold Scatter.dispatchTail
  by_cases hempty : xs.drop (pipe.next * chunk.chunkSize) = []
  · have hholds := h.holds
    rw [hempty] at hholds
    rw [WindowSplitter.takeTail_nil hholds]
    exact ⟨pipe, rfl⟩
  · rcases WindowSplitter.takeTail_of_ne_nil h.holds hempty with ⟨s', htail⟩
    have hlt : pipe.next < plan.windows.length := by
      apply Nat.lt_of_lt_of_le _ hcount
      apply ChunkConfig.lt_chunkCount.mpr
      rw [List.drop_eq_nil_iff] at hempty
      lia
    rw [htail]
    unfold Scatter.dispatch
    dsimp only
    rw [List.getElem?_eq_getElem hlt]
    exact ⟨_, rfl⟩

end

end Cut

end Cutting

/-!
## What the parts carry
-/

section Parts

variable {localNode : String} {homes : String -> List NodeId}
  {chunk : ChunkConfig} {checksum : Bytes -> String} {env : Env}
  {target : ScatterTarget} {body : Body}

def carried (part : DonePart) : Int × Bytes := (part.partNumber, part.digest)

variable {part : DonePart}

theorem carried_uploadHere {planned : PlannedWindow} {bytes : Bytes}
    (h : uploadHere env planned bytes = some part) :
    carried part = (planned.partNumber, bytes) := by
  unfold uploadHere at h
  split at h
  · cases h
  · cases h
    rfl

variable {task : PlannedWindow × Bytes}

theorem carried_uploadWindow (h : uploadWindow localNode env task = some part) :
    carried part = (task.1.partNumber, task.2) := by
  unfold uploadWindow at h
  split at h
  · exact carried_uploadHere h
  · split at h
    · split at h
      · cases h
        rfl
      · exact carried_uploadHere h
    · exact carried_uploadHere h

theorem map_carried_of_mapM
    (h : tasks.mapM (uploadWindow localNode env) = some parts) :
    parts.map carried = tasks.map fun task => (task.1.partNumber, task.2) := by
  induction tasks generalizing parts with
  | nil =>
    cases h
    rfl
  | cons task rest ih =>
    rw [List.mapM_cons] at h
    rcases Option.bind_eq_some_iff.mp h with ⟨part, hpart, h⟩
    rcases Option.bind_eq_some_iff.mp h with ⟨others, hothers, h⟩
    cases h
    rw [List.map_cons, List.map_cons, ih hothers,
      carried_uploadWindow hpart]

variable {objectLen : Nat}

theorem map_windowsOf_build {n : Nat} (h : n ≤ chunk.chunkCount objectLen) :
    (windowsOf chunk (ScatterPlan.build homes chunk objectKey objectLen) xs
      n).map (fun task => (task.1.partNumber, task.2)) =
      (List.range n).map fun i => (asI32 (i + 1), chunk.chunkOf xs i) := by
  unfold windowsOf ScatterPlan.build
  dsimp only
  rw [← List.map_take, List.take_range, Nat.min_eq_left h, List.zip_map',
    List.map_map]
  rfl

theorem map_asI32 {n : Nat} (h : n < 2 ^ 31) (bytes : Nat -> Bytes) :
    (List.range n).map (fun i => (asI32 (i + 1), bytes i)) =
      (List.range n).map fun i : Nat => ((i : Int) + 1, bytes i) := by
  apply List.map_congr_left
  intro i hi
  have hlt := List.mem_range.mp hi
  rw [asI32_of_lt (by lia)]
  rfl

theorem ordered_joined {bytes : Nat -> Bytes}
    (h : parts.map carried =
      (List.range n).map fun i : Nat => ((i : Int) + 1, bytes i)) :
    ordered (env.joined parts) = parts := by
  have hnumbers : parts.map DonePart.partNumber =
      (List.range n).map fun i : Nat => (i : Int) + 1 := by
    have hfst := congrArg (List.map Prod.fst) h
    rw [List.map_map, List.map_map] at hfst
    exact hfst
  have hincreasing : parts.Pairwise fun a b =>
      a.partNumber < b.partNumber := by
    have hrange : ((List.range n).map fun i : Nat => (i : Int) + 1).Pairwise
        (· < ·) := by
      rw [List.pairwise_map]
      exact (List.pairwise_lt_range (n := n)).imp fun hlt => by lia
    rw [← hnumbers, List.pairwise_map] at hrange
    exact hrange
  have htotal : Std.Total fun a b : DonePart =>
      a.partNumber ≤ b.partNumber := ⟨fun a b => le_total _ _⟩
  have htrans : IsTrans DonePart fun a b => a.partNumber ≤ b.partNumber :=
    ⟨fun a b c => le_trans⟩
  have hperm : (ordered (env.joined parts)).Perm parts :=
    (List.perm_insertionSort _ _).trans (env.reorders parts)
  exact eq_of_perm_sorted hperm (List.pairwise_insertionSort _ _) hincreasing

theorem flatten_chunksOf (chunk : ChunkConfig) (xs : Bytes) :
    ((List.range (chunk.chunkCount xs.length)).map
      (chunk.chunkOf xs)).flatten = xs := by
  have hmono : forall i, i * chunk.chunkSize ≤ (i + 1) * chunk.chunkSize :=
    fun i => Nat.mul_le_mul_right _ (Nat.le_succ i)
  have hspans := flatten_spans xs hmono 0 (chunk.chunkCount xs.length)
  have hlen : xs.length ≤ chunk.chunkCount xs.length * chunk.chunkSize := by
    rw [← Nat.not_lt, ← ChunkConfig.lt_chunkCount]
    exact Nat.lt_irrefl _
  rw [Nat.zero_add, Nat.zero_mul, span_zero, List.take_of_length_le hlen,
    ← List.range_eq_range'] at hspans
  exact hspans

theorem windows_build (homes : String -> List NodeId) (chunk : ChunkConfig)
    (objectKey : String) (objectLen : Nat) :
    (ScatterPlan.build homes chunk objectKey objectLen).windows.length =
      chunk.chunkCount objectLen := by
  unfold ScatterPlan.build
  rw [List.length_map, List.length_range]

theorem runPipeline_inv
    (h : runPipeline localNode chunk env plan body = .ok parts) :
    body.broken = false ∧
      chunk.chunkCount body.bytes.length = plan.windows.length ∧
      exists uploaded,
        (windowsOf chunk plan body.bytes plan.windows.length).mapM
          (uploadWindow localNode env) = some uploaded ∧
        parts = env.joined uploaded := by
  have hpos := chunk.positive
  unfold runPipeline at h
  dsimp only at h
  split at h
  · cases h
  rename_i read hread
  rcases (cut_start chunk _).readBody (by rw [List.length_nil]; lia)
    hread with ⟨hcut, hshort⟩
  rw [List.nil_append] at hcut hshort
  split at h
  · cases h
  rename_i hunbroken
  split at h
  · cases h
  rename_i full hfull
  rcases hcut.dispatchTail hshort hfull with ⟨htasks, hfits⟩
  split at h
  · cases h
  rename_i uploaded huploaded
  split at h
  · cases h
  rename_i hcount
  cases h
  have hlen := congrArg List.length (map_carried_of_mapM huploaded)
  rw [List.length_map, List.length_map, htasks, windowsOf,
    List.length_zip, List.length_take, List.length_map,
    List.length_range, Nat.min_eq_left hfits, Nat.min_self] at hlen
  rw [Decidable.not_not, hlen] at hcount
  rw [htasks, hcount] at huploaded
  exact ⟨Bool.not_eq_true _ ▸ hunbroken, hcount, uploaded, huploaded,
    rfl⟩

theorem runPipeline_ok (hparts : chunk.chunkCount objectLen < 2 ^ 31)
    (h : runPipeline localNode chunk env
      (ScatterPlan.build homes chunk objectKey objectLen) body = .ok parts) :
    body.broken = false ∧
      chunk.chunkCount body.bytes.length = chunk.chunkCount objectLen ∧
      (ordered parts).map carried =
        (List.range (chunk.chunkCount objectLen)).map fun i : Nat =>
          ((i : Int) + 1, chunk.chunkOf body.bytes i) := by
  rcases runPipeline_inv h with ⟨hbroken, hcount, uploaded, huploaded, rfl⟩
  rw [windows_build] at hcount huploaded
  have hcarried := map_carried_of_mapM huploaded
  rw [map_windowsOf_build (Nat.le_refl _), map_asI32 hparts] at hcarried
  refine ⟨hbroken, hcount, ?_⟩
  rw [ordered_joined hcarried, hcarried]

theorem mem_of_mapM (h : tasks.mapM (uploadWindow localNode env) = some parts)
    (part : DonePart) :
    part ∈ parts <->
      exists task, task ∈ tasks ∧
        uploadWindow localNode env task = some part := by
  induction tasks generalizing parts with
  | nil =>
    cases h
    simp
  | cons task rest ih =>
    rw [List.mapM_cons] at h
    rcases Option.bind_eq_some_iff.mp h with ⟨first, hfirst, h⟩
    rcases Option.bind_eq_some_iff.mp h with ⟨others, hothers, h⟩
    cases h
    rw [List.mem_cons, ih hothers]
    simp [hfirst, eq_comm]

theorem uploadWindow_of_mapM
    (h : tasks.mapM (uploadWindow localNode env) = some parts)
    (htask : task ∈ tasks) :
    exists part, uploadWindow localNode env task = some part := by
  induction tasks generalizing parts with
  | nil => cases htask
  | cons first rest ih =>
    rw [List.mapM_cons] at h
    rcases Option.bind_eq_some_iff.mp h with ⟨part, hpart, h⟩
    rcases Option.bind_eq_some_iff.mp h with ⟨others, hothers, _⟩
    rcases List.mem_cons.mp htask with rfl | hrest
    · exact ⟨part, hpart⟩
    · exact ih hothers hrest

theorem mem_windows_of_mem (h : task ∈ windowsOf chunk plan xs n) :
    task.1 ∈ plan.windows :=
  List.mem_of_mem_take (List.of_mem_zip h).1

theorem exists_mem_windowsOf {window : PlannedWindow}
    (h : window ∈ plan.windows) (xs : Bytes) :
    exists bytes,
      (window, bytes) ∈ windowsOf chunk plan xs plan.windows.length := by
  rcases List.getElem_of_mem h with ⟨i, hi, rfl⟩
  exists chunk.chunkOf xs i
  unfold windowsOf
  rw [List.take_length, List.mem_iff_getElem?]
  exists i
  rw [List.getElem?_zip_eq_some, List.getElem?_map, List.getElem?_range hi]
  exact ⟨List.getElem?_eq_getElem hi, rfl⟩

theorem mem_of_runPipeline
    (h : runPipeline localNode chunk env plan body = .ok parts)
    (hpart : part ∈ parts) :
    exists window bytes, window ∈ plan.windows ∧
      uploadWindow localNode env (window, bytes) = some part := by
  rcases runPipeline_inv h with ⟨_, _, uploaded, huploaded, rfl⟩
  have hmem := (env.reorders uploaded).mem_iff.mp hpart
  rcases (mem_of_mapM huploaded part).mp hmem with ⟨task, htask, hupload⟩
  exact ⟨task.1, task.2, mem_windows_of_mem htask, hupload⟩

theorem exists_of_runPipeline
    (h : runPipeline localNode chunk env plan body = .ok parts)
    {window : PlannedWindow} (hwindow : window ∈ plan.windows) :
    exists part bytes, part ∈ parts ∧
      uploadWindow localNode env (window, bytes) = some part := by
  rcases runPipeline_inv h with ⟨_, _, uploaded, huploaded, rfl⟩
  rcases exists_mem_windowsOf hwindow body.bytes with ⟨bytes, htask⟩
  rcases uploadWindow_of_mapM huploaded htask with ⟨part, hpart⟩
  refine ⟨part, bytes, ?_, hpart⟩
  exact (env.reorders uploaded).mem_iff.mpr
    ((mem_of_mapM huploaded part).mpr ⟨_, htask, hpart⟩)

/-- With a world that says yes to everything, a body of as many chunks as
planned goes through. -/
def Env.willing : Env :=
  { createUpload := some "upload",
    mayOffer := fun _ => true,
    offer := fun _ => some .refused,
    stages := fun _ => true,
    uploadPart := fun _ => some "part",
    joined := id,
    reorders := List.Perm.refl,
    complete := some "object" }

theorem uploadWindow_willing (localNode : String)
    (task : PlannedWindow × Bytes) :
    exists part, uploadWindow localNode .willing task = some part := by
  unfold uploadWindow
  split
  · exact ⟨_, rfl⟩
  · split
    · exact ⟨_, rfl⟩
    · exact ⟨_, rfl⟩

theorem mapM_willing (localNode : String)
    (tasks : List (PlannedWindow × Bytes)) :
    exists parts, tasks.mapM (uploadWindow localNode .willing) =
      some parts := by
  induction tasks with
  | nil => exact ⟨[], rfl⟩
  | cons task rest ih =>
    rcases uploadWindow_willing localNode task with ⟨part, hpart⟩
    rcases ih with ⟨parts, hparts⟩
    rw [List.mapM_cons, hpart, hparts]
    exact ⟨_, rfl⟩

theorem exists_runPipeline (hbroken : body.broken = false)
    (hcount : chunk.chunkCount body.bytes.length = chunk.chunkCount objectLen) :
    exists parts, runPipeline localNode chunk .willing
      (ScatterPlan.build homes chunk objectKey objectLen) body =
        .ok parts := by
  have hpos := chunk.positive
  have hplan := windows_build homes chunk objectKey objectLen
  have hshort : ([] : Bytes).length < (0 + 1) * chunk.chunkSize := by
    rw [List.length_nil]
    lia
  have hfits : chunk.chunkCount ([] ++ body.frames.flatten).length ≤
      (ScatterPlan.build homes chunk objectKey objectLen).windows.length := by
    rw [List.nil_append, hplan, ← hcount]
    exact Nat.le_refl _
  rcases (cut_start chunk _).exists_readBody hshort hfits with ⟨read, hread⟩
  rcases (cut_start chunk _).readBody hshort hread with ⟨hcut, hless⟩
  rcases hcut.exists_dispatchTail hfits with ⟨full, hfull⟩
  rcases hcut.dispatchTail hless hfull with ⟨htasks, _⟩
  rcases mapM_willing localNode full.tasks with ⟨parts, hparts⟩
  have hcarried := map_carried_of_mapM hparts
  rw [hplan] at hfits
  rw [htasks, map_windowsOf_build hfits] at hcarried
  have hlen := congrArg List.length hcarried
  rw [List.length_map, List.length_map, List.length_range,
    List.nil_append] at hlen
  exists parts
  unfold runPipeline
  dsimp only
  rw [hread]
  dsimp only
  rw [hbroken, if_neg Bool.false_ne_true, hfull]
  dsimp only
  rw [hparts]
  dsimp only
  have hsame : parts.length = (ScatterPlan.build homes chunk objectKey
      objectLen).windows.length := by
    rw [hlen, hplan]
    exact hcount
  rw [if_neg (not_not_intro hsame)]
  rfl

/-- The parts of an assembly are, in part order, the planned windows' bytes of
the body. -/
def Carries (chunk : ChunkConfig) (plan : ScatterPlan) (content : Bytes)
    (parts : List DonePart) : Prop :=
  parts.length = plan.windows.length ∧
    forall (i : Nat) (window : PlannedWindow),
      plan.windows[i]? = some window ->
      exists (part : DonePart) (lo hi : Nat), parts[i]? = some part ∧
        part.partNumber = window.index + 1 ∧
        chunk.chunkBounds window.index plan.objectLen = some (lo, hi) ∧
        part.digest = span content lo hi

theorem carries_of_map_carried {content : Bytes} (h : parts.map carried =
      (List.range (chunk.chunkCount content.length)).map fun i : Nat =>
        ((i : Int) + 1, chunk.chunkOf content i)) :
    Carries chunk (ScatterPlan.build homes chunk objectKey content.length)
      content parts := by
  have hlen := congrArg List.length h
  rw [List.length_map, List.length_map, List.length_range] at hlen
  constructor
  · rw [hlen]
    unfold ScatterPlan.build
    rw [List.length_map, List.length_range]
  · intro i window hwindow
    unfold ScatterPlan.build at hwindow
    rw [List.getElem?_map, Option.map_eq_some_iff] at hwindow
    rcases hwindow with ⟨index, hindex, rfl⟩
    rcases List.getElem?_eq_some_iff.mp hindex with ⟨hi, hget⟩
    rw [List.length_range] at hi
    rw [List.getElem_range] at hget
    subst hget
    have hpart := congrArg (·[i]?) h
    rw [List.getElem?_map, List.getElem?_map, hindex, Option.map_some,
      Option.map_eq_some_iff] at hpart
    rcases hpart with ⟨part, hpart, hcarried⟩
    rcases ChunkConfig.chunkBounds_of_lt hi with ⟨lo, hi', hbounds⟩
    refine ⟨part, lo, hi', hpart, congrArg Prod.fst hcarried, hbounds, ?_⟩
    rw [ChunkConfig.span_chunkBounds hbounds]
    exact congrArg Prod.snd hcarried

theorem wholeObject_of_carried (h : (ordered parts).map carried =
      (List.range (chunk.chunkCount body.bytes.length)).map fun i : Nat =>
        ((i : Int) + 1, chunk.chunkOf body.bytes i)) :
    wholeObject parts = body.bytes := by
  have hsnd := congrArg (List.map Prod.snd) h
  rw [List.map_map, List.map_map] at hsnd
  unfold wholeObject
  calc ((ordered parts).map DonePart.digest).flatten
      = ((List.range (chunk.chunkCount body.bytes.length)).map
          (chunk.chunkOf body.bytes)).flatten := congrArg List.flatten hsnd
    _ = body.bytes := flatten_chunksOf chunk body.bytes

theorem completed_spec (hparts : chunk.chunkCount target.objectLen < 2 ^ 31)
    (h : (assemble localNode homes chunk checksum env target body).completed =
      some parts) :
    body.broken = false ∧
      chunk.chunkCount body.bytes.length =
        chunk.chunkCount target.objectLen ∧
      (forall claimed, target.expectedCrc32 = some claimed ->
        claimed = checksum body.bytes) ∧
      parts.map carried =
        (List.range (chunk.chunkCount target.objectLen)).map fun i : Nat =>
          ((i : Int) + 1, chunk.chunkOf body.bytes i) := by
  unfold assemble at h
  split at h
  · cases h
  dsimp only at h
  split at h
  · cases h
  rename_i joined hjoined
  rcases runPipeline_ok hparts hjoined with ⟨hbroken, hcount, hcarried⟩
  have hwhole : wholeObject joined = body.bytes := by
    rw [← hcount] at hcarried
    exact wholeObject_of_carried hcarried
  split at h
  · rename_i hexpected
    cases h
    refine ⟨hbroken, hcount, ?_, hcarried⟩
    intro claimed hclaimed
    rw [hexpected] at hclaimed
    cases hclaimed
  · rename_i claimed hexpected
    split at h
    · cases h
    rename_i hsame
    cases h
    refine ⟨hbroken, hcount, ?_, hcarried⟩
    intro other hother
    rw [hexpected] at hother
    cases hother
    rw [← hwhole]
    exact Decidable.not_not.mp hsame

theorem completed_of_runPipeline
    (hparts : chunk.chunkCount target.objectLen < 2 ^ 31) {uploadId : String}
    (hcreate : env.createUpload = some uploadId)
    (h : runPipeline localNode chunk env (ScatterPlan.build homes chunk
      target.objectKey target.objectLen) body = .ok parts)
    (hclaimed : ¬ exists claimed, target.expectedCrc32 = some claimed ∧
      claimed ≠ checksum body.bytes) :
    (assemble localNode homes chunk checksum env target body).completed =
      some (ordered parts) := by
  rcases runPipeline_ok hparts h with ⟨_, hcount, hcarried⟩
  have hwhole : wholeObject parts = body.bytes := by
    rw [← hcount] at hcarried
    exact wholeObject_of_carried hcarried
  unfold assemble
  rw [hcreate]
  dsimp only
  rw [h]
  dsimp only
  split
  · rfl
  · rename_i claimed hexpected
    rw [hwhole]
    split
    · rename_i hne
      exact absurd ⟨claimed, hexpected, hne⟩ hclaimed
    · rfl

end Parts

/-!
## When Complete is called
-/

/-- Complete is called only for a body of the promised length, cut as planned,
just when no body of another length but with as many chunks can come through:
the body is of the promised length, or of another number of chunks, or it breaks
off, or the client's checksum tells.  Parts are numbered in 31 bits. -/
theorem complete_only_of_promised_body_iff (localNode : String)
    (homes : String -> List NodeId) (chunk : ChunkConfig)
    (checksum : Bytes -> String) (target : ScatterTarget) (body : Body)
    (hparts : chunk.chunkCount target.objectLen < 2 ^ 31) :
    (forall env parts,
      (assemble localNode homes chunk checksum env target body).completed =
        some parts ->
      body.bytes.length = target.objectLen ∧
        Carries chunk (ScatterPlan.build homes chunk target.objectKey
          target.objectLen) body.bytes parts) <->
    body.bytes.length = target.objectLen ∨
      chunk.chunkCount body.bytes.length ≠
        chunk.chunkCount target.objectLen ∨
      body.broken = true ∨
      exists claimed, target.expectedCrc32 = some claimed ∧
        claimed ≠ checksum body.bytes := by
  constructor
  · intro h
    by_contra hnone
    rw [not_or, not_or, not_or] at hnone
    rcases hnone with ⟨hlen, hcount, hbroken, hclaimed⟩
    rw [not_not] at hcount
    have hruns : exists parts, runPipeline localNode chunk .willing
        (ScatterPlan.build homes chunk target.objectKey target.objectLen)
        body = .ok parts :=
      exists_runPipeline (Bool.not_eq_true _ ▸ hbroken) hcount
    rcases hruns with ⟨parts, hrun⟩
    have hcompleted : (assemble localNode homes chunk checksum .willing target
        body).completed = some (ordered parts) :=
      completed_of_runPipeline hparts rfl hrun hclaimed
    exact hlen (h .willing _ hcompleted).left
  · intro h env parts hcompleted
    rcases completed_spec hparts hcompleted with
      ⟨hbroken, hcount, hclaimed, hcarried⟩
    have hlen : body.bytes.length = target.objectLen := by
      rcases h with hlen | hother | hbreaks | ⟨claimed, hexpected, hne⟩
      · exact hlen
      · exact absurd hcount hother
      · rw [hbroken] at hbreaks
        cases hbreaks
      · exact absurd (hclaimed claimed hexpected) hne
    refine ⟨hlen, ?_⟩
    rw [← hlen] at hcarried ⊢
    exact carries_of_map_carried hcarried

def backwards : Env :=
  { Env.willing with joined := List.reverse, reorders := List.reverse_perm }

theorem sixteens_pos : 0 < 16 := Nat.succ_pos 15

def sixteens : ChunkConfig := { chunkSize := 16, positive := sixteens_pos }

def promised : ScatterTarget :=
  { objectKey := "b/k", objectLen := 35, expectedCrc32 := none }

def threeWindows : Body :=
  { frames := [List.replicate 5 1, [], List.replicate 30 2], broken := false }

/-- Thirty-five bytes come in frames off the grid.  Their three windows are
collected last first, and Complete is called with them in order. -/
theorem complete_only_of_promised_body_iff_backwards : exists parts,
    (assemble "a" (fun _ => []) sixteens (fun _ => "") backwards promised
      threeWindows).completed = some parts ∧
    Carries sixteens (ScatterPlan.build (fun _ => []) sixteens "b/k" 35)
      threeWindows.bytes parts := by
  refine ⟨_, rfl, ?_⟩
  have hpromised := (complete_only_of_promised_body_iff "a" (fun _ => [])
    sixteens (fun _ => "") promised threeWindows (by decide)).mpr (Or.inl rfl)
  exact (hpromised backwards _ rfl).right

def longBody : Body := { frames := [List.replicate 12 0], broken := false }

/-- Ten bytes are promised and twelve come: one window was planned, one window
is uploaded, and the object is assembled from twelve bytes. -/
theorem long_body_completes : exists parts,
    (assemble "a" (fun _ => []) { chunkSize := 16, positive := by decide }
      (fun _ => "") .willing
      { objectKey := "b/k", objectLen := 10, expectedCrc32 := none }
      longBody).completed = some parts ∧
    parts.map carried = [(1, List.replicate 12 0)] ∧
    longBody.bytes.length ≠ 10 :=
  ⟨_, rfl, rfl, by decide⟩

end Scatter

end Daemon
end Pacer
