import Pacer.Cache.CrcCombine
import Pacer.Daemon.RangedRead
import Pacer.Daemon.Scatter

/-!
# Cutting and digesting a scattered body

The splitter is pushed buffers and asked for windows in any order that takes a
window whenever there is one.  However the body is framed, the windows are its
chunks, each matched to the planned window of its place, and the digests of the
windows, folded by part number, are the body's, whatever order they finish in.

Part numbers are signed 32-bit numbers.
-/

namespace Pacer
namespace Daemon

open Foundation
open Cache
open Cluster

namespace Scatter

open RangedRead

inductive SplitterCall where
  | push (bytes : Bytes)
  | take
deriving DecidableEq, Repr

def pushedBy : List SplitterCall -> Bytes
  | [] => []
  | .push bytes :: rest => bytes ++ pushedBy rest
  | .take :: rest => pushedBy rest

def lastPushed : List SplitterCall -> Nat -> Nat
  | [], last => last
  | .push bytes :: rest, _ => lastPushed rest bytes.length
  | .take :: rest, last => lastPushed rest last

def runCalls (plan : ScatterPlan) : List SplitterCall -> Pipeline ->
    Except Failure Pipeline
  | [], pipe => .ok pipe
  | .push bytes :: rest, pipe =>
    runCalls plan rest { pipe with splitter := pipe.splitter.push bytes }
  | .take :: rest, pipe =>
    match pipe.splitter.takeWindow with
    | none => runCalls plan rest pipe
    | some (window, splitter) =>
      match dispatch plan window { pipe with splitter := splitter } with
      | .error e => .error e
      | .ok pipe' => runCalls plan rest pipe'

/-- The calls take a window whenever there is one: a buffer is pushed, and the
calls end, only when no full window is held. -/
def Drains : List SplitterCall -> WindowSplitter -> Prop
  | [], s => s.takeWindow = none
  | .push bytes :: rest, s => s.takeWindow = none ∧ Drains rest (s.push bytes)
  | .take :: rest, s =>
    match s.takeWindow with
    | none => Drains rest s
    | some (_, s') => Drains rest s'

def startPipeline (chunk : ChunkConfig) : Pipeline :=
  { splitter := WindowSplitter.new chunk.chunkSize chunk.positive,
    tasks := [], next := 0 }

structure FinishedPart where
  partNumber : Int
  digest : Hasher UInt32
deriving DecidableEq, Repr

def finished (crc : Bytes -> UInt32) (task : PlannedWindow × Bytes) :
    FinishedPart :=
  { partNumber := task.1.partNumber, digest := Hasher.of crc task.2 }

def wholeObjectCrc32 (crc : Bytes -> UInt32)
    (combine : UInt32 -> UInt32 -> Nat -> UInt32)
    (ordered : List FinishedPart) : UInt32 :=
  ((ordered.map FinishedPart.digest).foldl (Hasher.absorb combine)
    (Hasher.of crc [])).value

/-!
## The calls
-/

variable {pipe' : Pipeline}

section Calls

variable {chunk : ChunkConfig} {plan : ScatterPlan} {xs : Bytes}
  {pipe : Pipeline} {calls : List SplitterCall}

theorem exists_runCalls (h : Cut chunk plan xs pipe)
    (hdrains : Drains calls pipe.splitter)
    (hcount : chunk.chunkCount (xs ++ pushedBy calls).length ≤
      plan.windows.length) :
    exists pipe', runCalls plan calls pipe = .ok pipe' ∧
      Cut chunk plan (xs ++ pushedBy calls) pipe' ∧
      pipe'.splitter.takeWindow = none := by
  induction calls generalizing xs pipe with
  | nil =>
    rw [pushedBy, List.append_nil]
    exact ⟨pipe, rfl, h, hdrains⟩
  | cons call rest ih =>
    cases call with
    | push bytes =>
      rw [pushedBy, ← List.append_assoc] at hcount ⊢
      exact ih (h.push bytes) hdrains.right hcount
    | take =>
      rw [pushedBy] at hcount ⊢
      rw [Drains] at hdrains
      rw [runCalls]
      cases htake : pipe.splitter.takeWindow with
      | none =>
        rw [htake] at hdrains
        exact ih h hdrains hcount
      | some taken =>
        rcases taken with ⟨window, splitter⟩
        rw [htake] at hdrains
        have hfront : chunk.chunkCount xs.length ≤
            plan.windows.length := by
          apply Nat.le_trans _ hcount
          apply ChunkConfig.chunkCount_mono
          exact (List.prefix_append xs _).length_le
        rcases h.exists_dispatch hfront htake with
          ⟨pipe', hdispatch, hcut, hsplitter⟩
        dsimp only at hdrains ⊢
        rw [hdispatch]
        rw [← hsplitter] at hdrains
        exact ih hcut hdrains hcount

theorem carried_lt {front back : List SplitterCall} {last : Nat}
    (hdrains : Drains (front ++ back) pipe.splitter)
    (hlast : pipe.splitter.carried < pipe.splitter.chunkSize + last)
    (hrun : runCalls plan front pipe = .ok pipe') :
    pipe'.splitter.carried <
      pipe.splitter.chunkSize + lastPushed front last := by
  induction front generalizing pipe last with
  | nil =>
    cases hrun
    exact hlast
  | cons call rest ih =>
    cases call with
    | push bytes =>
      have hshort :=
        WindowSplitter.carried_of_takeWindow_none hdrains.left
      rcases WindowSplitter.carried_push pipe.splitter bytes with
        ⟨hcarried, hsize⟩
      have hless : (pipe.splitter.push bytes).carried <
          (pipe.splitter.push bytes).chunkSize + bytes.length := by
        lia
      have hnext := ih hdrains.right hless hrun
      dsimp only at hnext
      rw [hsize] at hnext
      exact hnext
    | take =>
      rw [List.cons_append, Drains] at hdrains
      rw [runCalls] at hrun
      cases htake : pipe.splitter.takeWindow with
      | none =>
        rw [htake] at hdrains hrun
        exact ih hdrains hlast hrun
      | some taken =>
        rcases taken with ⟨window, splitter⟩
        rw [htake] at hdrains hrun
        rcases WindowSplitter.carried_takeWindow htake with
          ⟨hle, hcarried, hsize⟩
        dsimp only at hdrains hrun
        split at hrun
        · cases hrun
        rename_i mid hmid
        have hsplitter : mid.splitter = splitter := by
          unfold dispatch at hmid
          split at hmid
          · cases hmid
          · cases hmid
            rfl
        rw [← hsplitter] at hdrains hcarried hsize
        have hless : mid.splitter.carried <
            mid.splitter.chunkSize + last := by
          lia
        have hnext := ih hdrains hless hrun
        rw [hsize] at hnext
        exact hnext

end Calls

/-!
## The pipeline's own calls
-/

variable {s : WindowSplitter} {n : Nat}

section Pipeline

variable {plan : ScatterPlan}

theorem runCalls_append (plan : ScatterPlan) (front back : List SplitterCall)
    (pipe : Pipeline) :
    runCalls plan (front ++ back) pipe =
      match runCalls plan front pipe with
      | .error e => .error e
      | .ok mid => runCalls plan back mid := by
  induction front generalizing pipe with
  | nil => rfl
  | cons call rest ih =>
    cases call with
    | push bytes => exact ih _
    | take =>
      rw [List.cons_append, runCalls, runCalls]
      split
      · exact ih _
      · split
        · rfl
        · exact ih _

theorem runCalls_takes_of_none {pipe : Pipeline}
    (h : pipe.splitter.takeWindow = none) (n : Nat) :
    runCalls plan (List.replicate n .take) pipe = .ok pipe := by
  induction n with
  | zero => rfl
  | succ n ih =>
    rw [List.replicate_succ, runCalls, h]
    exact ih

theorem drainWindows_eq (plan : ScatterPlan) (fuel : Nat) (pipe : Pipeline) :
    drainWindows plan fuel pipe =
      runCalls plan (List.replicate fuel .take) pipe := by
  induction fuel generalizing pipe with
  | zero => rfl
  | succ fuel ih =>
    rw [drainWindows, List.replicate_succ, runCalls]
    cases htake : pipe.splitter.takeWindow with
    | none => exact (runCalls_takes_of_none htake fuel).symm
    | some taken =>
      dsimp only
      cases dispatch plan taken.1 { pipe with splitter := taken.2 } with
      | error e => rfl
      | ok mid => exact ih mid

theorem splitter_dispatch {window : Bytes} {pipe : Pipeline}
    (h : dispatch plan window pipe = .ok pipe') :
    pipe'.splitter = pipe.splitter := by
  unfold dispatch at h
  split at h
  · cases h
  · cases h
    rfl

theorem splitter_takes {pipe : Pipeline}
    (h : runCalls plan (List.replicate n .take) pipe = .ok pipe') :
    pipe'.splitter = (WindowSplitter.takeWindows n pipe.splitter).2 := by
  induction n generalizing pipe with
  | zero =>
    cases h
    rfl
  | succ n ih =>
    rw [List.replicate_succ, runCalls] at h
    rw [WindowSplitter.takeWindows]
    cases htake : pipe.splitter.takeWindow with
    | none =>
      rw [htake] at h
      dsimp only at h
      rw [runCalls_takes_of_none htake n] at h
      cases h
      rfl
    | some taken =>
      rw [htake] at h
      dsimp only at h ⊢
      split at h
      · cases h
      rename_i mid hmid
      rw [ih h, splitter_dispatch hmid]

theorem drains_takes_of_none {rest : List SplitterCall}
    (h : s.takeWindow = none) (hrest : Drains rest s) (n : Nat) :
    Drains (List.replicate n .take ++ rest) s := by
  induction n with
  | zero => exact hrest
  | succ n ih =>
    rw [List.replicate_succ, List.cons_append, Drains, h]
    exact ih

theorem drains_takes {rest : List SplitterCall}
    (hrest : Drains rest (WindowSplitter.takeWindows n s).2) :
    Drains (List.replicate n .take ++ rest) s := by
  induction n generalizing s with
  | zero => exact hrest
  | succ n ih =>
    rw [WindowSplitter.takeWindows] at hrest
    cases htake : s.takeWindow with
    | none =>
      rw [htake] at hrest
      exact drains_takes_of_none htake hrest (n + 1)
    | some taken =>
      rw [htake] at hrest
      rw [List.replicate_succ, List.cons_append, Drains, htake]
      exact ih hrest

theorem takeWindow_takeWindows (h : s.carried ≤ n) :
    (WindowSplitter.takeWindows n s).2.takeWindow = none := by
  have hpos := s.positive
  induction n generalizing s with
  | zero =>
    show s.takeWindow = none
    exact if_pos (by lia)
  | succ n ih =>
    rw [WindowSplitter.takeWindows]
    cases htake : s.takeWindow with
    | none => exact htake
    | some taken =>
      have hcarried := WindowSplitter.carried_takeWindow htake
      exact ih (by lia) taken.2.positive

theorem pushedBy_takes (n : Nat) (rest : List SplitterCall) :
    pushedBy (List.replicate n .take ++ rest) = pushedBy rest := by
  induction n with
  | zero => rfl
  | succ n ih => exact ih

theorem readBody_eq_runCalls (plan : ScatterPlan) (frames : List Bytes)
    {pipe : Pipeline} (hdrained : pipe.splitter.takeWindow = none) :
    exists calls, pushedBy calls = frames.flatten ∧
      Drains calls pipe.splitter ∧
      readBody plan frames pipe = runCalls plan calls pipe := by
  induction frames generalizing pipe with
  | nil => exact ⟨[], rfl, hdrained, rfl⟩
  | cons bytes rest ih =>
    obtain ⟨pushed, hpush⟩ : exists pushed,
      pushed = pipe.splitter.push bytes := ⟨_, rfl⟩
    have hleft := takeWindow_takeWindows (Nat.le_refl pushed.carried)
    -- The calls for the rest go on from the splitter that draining leaves.
    have hcalls : forall restCalls, pushedBy restCalls = rest.flatten ->
        Drains restCalls
          (WindowSplitter.takeWindows pushed.carried pushed).2 ->
        pushedBy (.push bytes ::
            (List.replicate pushed.carried .take ++ restCalls)) =
          (bytes :: rest).flatten ∧
        Drains (.push bytes ::
            (List.replicate pushed.carried .take ++ restCalls))
          pipe.splitter := by
      rw [hpush]
      intro restCalls hpushed hdrains
      constructor
      · rw [pushedBy, pushedBy_takes, hpushed, List.flatten_cons]
      · exact ⟨hdrained, drains_takes hdrains⟩
    cases hdrain : drainWindows plan pushed.carried
      { pipe with splitter := pushed } with
    | error e =>
      rcases @ih { pipe with
        splitter := (WindowSplitter.takeWindows pushed.carried pushed).2 }
        hleft with ⟨restCalls, hpushed, hdrains, _⟩
      rcases hcalls restCalls hpushed hdrains with ⟨hall, hdrainsAll⟩
      refine ⟨_, hall, hdrainsAll, ?_⟩
      rw [readBody, runCalls, runCalls_append, ← drainWindows_eq]
      dsimp only
      rw [← hpush, hdrain]
    | ok mid =>
      have hsplitter : mid.splitter =
          (WindowSplitter.takeWindows pushed.carried pushed).2 := by
        rw [drainWindows_eq] at hdrain
        exact splitter_takes hdrain
      rw [← hsplitter] at hleft hcalls
      rcases ih hleft with ⟨restCalls, hpushed, hdrains, hread⟩
      rcases hcalls restCalls hpushed hdrains with ⟨hall, hdrainsAll⟩
      refine ⟨_, hall, hdrainsAll, ?_⟩
      rw [readBody, runCalls, runCalls_append, ← drainWindows_eq]
      dsimp only
      rw [← hpush, hdrain]
      exact hread

theorem readBody_eq_runCalls_frames :
    let plan := ScatterPlan.build (fun _ => []) pairChunks "b/k" 3
    let pipe := startPipeline pairChunks
    exists calls, pushedBy calls = [1, 2, 3] ∧ Drains calls pipe.splitter ∧
      readBody plan [[1, 2], [3]] pipe = runCalls plan calls pipe :=
  readBody_eq_runCalls _ [[1, 2], [3]] rfl

end Pipeline

/-!
## The windows
-/

section Windows

variable {homes : String -> List NodeId} {chunk : ChunkConfig}
  {objectKey : String} {content : Bytes}

/-- The tasks are the chunks of the body, each with the planned window of its
place. -/
structure CutExact (chunk : ChunkConfig) (plan : ScatterPlan)
    (content : Bytes) (tasks : List (PlannedWindow × Bytes)) : Prop where
  count : tasks.length = chunk.chunkCount content.length
  window : forall i, i < chunk.chunkCount content.length ->
    exists planned lo hi, plan.windows[i]? = some planned ∧
      tasks[i]? = some (planned, span content lo hi) ∧
      chunkBounds64 chunk i content.length = some (some (lo, hi)) ∧
      planned.index = i ∧ planned.partNumber = (i : Int) + 1

theorem getElem?_build {i : Nat} (h : i < chunk.chunkCount content.length) :
    (ScatterPlan.build homes chunk objectKey content.length).windows[i]? =
      some { index := i, partNumber := asI32 (i + 1),
             chunkKey := chunk.chunkKey objectKey i,
             homes := homes (chunk.chunkKey objectKey i) } := by
  unfold ScatterPlan.build
  rw [List.getElem?_map, List.getElem?_range h]
  rfl

def GridFits (chunk : ChunkConfig) (objectLen : Nat) : Prop :=
  chunk.chunkCount objectLen * chunk.chunkSize < wordBound

abbrev allTasks (homes : String -> List NodeId) (chunk : ChunkConfig)
    (objectKey : String) (content : Bytes) : List (PlannedWindow × Bytes) :=
  windowsOf chunk (ScatterPlan.build homes chunk objectKey content.length)
    content (chunk.chunkCount content.length)

theorem cutExact_allTasks
    (hparts : chunk.chunkCount content.length < 2 ^ 31)
    (hgrid : GridFits chunk content.length) :
    CutExact chunk (ScatterPlan.build homes chunk objectKey content.length)
      content (allTasks homes chunk objectKey content) := by
  constructor
  · unfold allTasks windowsOf
    rw [List.length_zip, List.length_take, windows_build, List.length_map,
      List.length_range, Nat.min_self, Nat.min_self]
  · intro i hi
    have hlt := ChunkConfig.lt_chunkCount.mp hi
    have hend : i * chunk.chunkSize + chunk.chunkSize < wordBound := by
      have hmul := Nat.mul_le_mul_right chunk.chunkSize hi
      rw [Nat.succ_mul] at hmul
      exact Nat.lt_of_le_of_lt hmul hgrid
    rcases ChunkConfig.chunkBounds_of_lt hi with ⟨lo, hi', hbounds⟩
    refine ⟨_, lo, hi', getElem?_build hi, ?_, ?_, rfl, ?_⟩
    · unfold allTasks windowsOf
      rw [List.getElem?_zip_eq_some]
      constructor
      · rw [List.getElem?_take_of_lt hi, getElem?_build hi]
      · rw [List.getElem?_map, List.getElem?_range hi, Option.map_some,
          ChunkConfig.span_chunkBounds hbounds]
    · rw [chunkBounds64_eq hlt hend, hbounds]
    · show asI32 (i + 1) = (i : Int) + 1
      rw [asI32_of_lt (by lia)]
      rfl

end Windows

/-!
## The digest
-/

section Digest

variable {homes : String -> List NodeId} {chunk : ChunkConfig}
  {objectKey : String} {content : Bytes} {crc : Bytes -> UInt32}
  {combine : UInt32 -> UInt32 -> Nat -> UInt32}

theorem map_finished (crc : Bytes -> UInt32)
    (hparts : chunk.chunkCount content.length < 2 ^ 31) :
    (allTasks homes chunk objectKey content).map (finished crc) =
      (List.range (chunk.chunkCount content.length)).map fun i =>
        { partNumber := (i : Int) + 1,
          digest := Hasher.of crc (chunk.chunkOf content i) } := by
  have hmap : (allTasks homes chunk objectKey content).map
      (fun task => (task.1.partNumber, task.2)) =
      (List.range (chunk.chunkCount content.length)).map
        fun i : Nat => ((i : Int) + 1, chunk.chunkOf content i) := by
    rw [map_windowsOf_build (Nat.le_refl _), map_asI32 hparts]
  have hnumbered := congrArg
    (List.map fun pair : Int × Bytes => FinishedPart.mk pair.1
      (Hasher.of crc pair.2)) hmap
  rw [List.map_map, List.map_map] at hnumbered
  exact hnumbered

theorem wholeObjectCrc32_sorted (hjoins : Joins crc combine)
    (hparts : chunk.chunkCount content.length < 2 ^ 31)
    {sorted : List FinishedPart}
    (hperm : sorted.Perm
      ((allTasks homes chunk objectKey content).map (finished crc)))
    (hsorted : sorted.Pairwise fun a b => a.partNumber ≤ b.partNumber) :
    wholeObjectCrc32 crc combine sorted = crc content := by
  rw [map_finished crc hparts] at hperm
  have horder := eq_of_perm_sorted hperm hsorted (by
    rw [List.pairwise_map]
    apply List.pairwise_lt_range.imp
    intro i j hij
    show (i : Int) + 1 < (j : Int) + 1
    lia)
  unfold wholeObjectCrc32
  rw [horder, List.map_map]
  have hfold := Hasher.foldl_absorb hjoins
    ((List.range (chunk.chunkCount content.length)).map
      (chunk.chunkOf content)) []
  rw [List.map_map, flatten_chunksOf, List.nil_append] at hfold
  exact congrArg Hasher.value hfold

end Digest

/-!
## A scattered body
-/

/-- However a body is framed, and in whatever order buffers are pushed and
windows are taken as long as every window is taken when there is one, the body
is cut into its chunks, each matched to its planned window and part number;
less than a window and the last buffer is ever carried; and the digests of the
windows, in whatever order they finish, fold to the body's.  The parts are
numbered in 31 bits and the grid ends in 64. -/
theorem scatter_cut_exact {homes : String -> List NodeId}
    {chunk : ChunkConfig} {objectKey : String} {content : Bytes}
    (hparts : chunk.chunkCount content.length < 2 ^ 31)
    (hgrid : GridFits chunk content.length) {calls : List SplitterCall}
    (hcalls : pushedBy calls = content)
    (hdrains : Drains calls (startPipeline chunk).splitter) :
    exists pipe final,
      runCalls (ScatterPlan.build homes chunk objectKey content.length) calls
          (startPipeline chunk) = .ok pipe ∧
        dispatchTail (ScatterPlan.build homes chunk objectKey content.length)
          pipe = .ok final ∧
        CutExact chunk
          (ScatterPlan.build homes chunk objectKey content.length) content
          final.tasks ∧
        (forall front back mid, calls = front ++ back ->
          runCalls (ScatterPlan.build homes chunk objectKey content.length)
            front (startPipeline chunk) = .ok mid ->
          mid.splitter.carried < chunk.chunkSize + lastPushed front 0) ∧
        forall crc combine, Joins crc combine -> forall done sorted,
          List.Perm done (final.tasks.map (finished crc)) ->
          List.Perm sorted done ->
          (sorted.Pairwise fun a b => a.partNumber ≤ b.partNumber) ->
          wholeObjectCrc32 crc combine sorted = crc content := by
  have hcount : chunk.chunkCount content.length ≤
      (ScatterPlan.build homes chunk objectKey
        content.length).windows.length := by
    rw [windows_build]
  have hrun := exists_runCalls
    (cut_start chunk (ScatterPlan.build homes chunk objectKey content.length))
    hdrains (by rw [hcalls]; exact hcount)
  rw [hcalls, List.nil_append] at hrun
  rcases hrun with ⟨pipe, hpipe, hcut, hdrained⟩
  rcases hcut.exists_dispatchTail hcount with ⟨final, hfinal⟩
  have htasks :=
    (hcut.dispatchTail (hcut.short_of_drained hdrained) hfinal).left
  refine ⟨pipe, final, hpipe, hfinal, ?_, ?_, ?_⟩
  · rw [htasks]
    exact cutExact_allTasks hparts hgrid
  · rintro front back mid rfl hmid
    exact carried_lt hdrains chunk.positive hmid
  · intro crc combine hjoins done sorted hdone hsort hsorted
    rw [htasks] at hdone
    exact wholeObjectCrc32_sorted hjoins hparts (hsort.trans hdone) hsorted

def fiveCalls : List SplitterCall :=
  [.push [1], .push [2, 3], .take, .push [], .push [4, 5], .take]

theorem scatter_cut_exact_five : exists pipe final,
    runCalls (ScatterPlan.build (fun _ => []) pairChunks "b/k" 5) fiveCalls
        (startPipeline pairChunks) = .ok pipe ∧
      dispatchTail (ScatterPlan.build (fun _ => []) pairChunks "b/k" 5)
        pipe = .ok final ∧
      CutExact pairChunks
        (ScatterPlan.build (fun _ => []) pairChunks "b/k" 5)
        [1, 2, 3, 4, 5] final.tasks ∧
      wholeObjectCrc32 bodyCrc crcCombine
          ((final.tasks.map (finished bodyCrc)).reverse.insertionSort
            fun a b => a.partNumber ≤ b.partNumber) =
        bodyCrc [1, 2, 3, 4, 5] := by
  have hgrid : GridFits pairChunks 5 := by
    unfold GridFits
    decide
  have hdrains : Drains fiveCalls (startPipeline pairChunks).splitter :=
    And.intro rfl (And.intro rfl (And.intro rfl (And.intro rfl rfl)))
  have htotal : Std.Total fun a b : FinishedPart =>
      a.partNumber ≤ b.partNumber := ⟨fun a b => le_total _ _⟩
  have htrans : IsTrans FinishedPart fun a b =>
      a.partNumber ≤ b.partNumber := ⟨fun a b c => le_trans⟩
  rcases @scatter_cut_exact (fun _ => []) pairChunks "b/k" [1, 2, 3, 4, 5]
    (by decide) hgrid fiveCalls rfl hdrains with
    ⟨pipe, final, hpipe, hfinal, hexact, _, hdigest⟩
  refine ⟨pipe, final, hpipe, hfinal, hexact, ?_⟩
  exact hdigest bodyCrc crcCombine joins_bodyCrc _ _ (List.reverse_perm _)
    (List.perm_insertionSort _ _) (List.pairwise_insertionSort _ _)

def byteChunks : ChunkConfig := { chunkSize := 1, positive := Nat.one_pos }

theorem part_number_wraps :
    ((ScatterPlan.build (fun _ => []) byteChunks "b/k" (2 ^ 31)).windows[
        2 ^ 31 - 1]?).map PlannedWindow.partNumber =
      some (-2 ^ 31) := by
  have hcount : 2 ^ 31 - 1 < byteChunks.chunkCount (2 ^ 31) := by
    decide +kernel
  unfold ScatterPlan.build
  rw [List.getElem?_map, List.getElem?_range hcount]
  decide +kernel

end Scatter
end Daemon
end Pacer
