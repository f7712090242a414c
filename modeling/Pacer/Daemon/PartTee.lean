import Pacer.Cache.Chunk
import Pacer.Daemon.AwsChunkedFraming
import Pacer.Daemon.WindowSplitter
import Pacer.Daemon.WriteRequest

/-!
# The tee of one body

A body that is forwarded is also read on the way: decoded if it is framed, and
cut onto the chunk grid from the chunk its first byte starts.  The frames go out
as they came; the tee sees each of them just before.

The main result: as long as the tee has not failed, the windows it has put out
are consecutive full chunks of what the body gives, whatever its frames are.
-/

namespace Pacer
namespace Daemon

open Foundation
open Cache

structure PartTee where
  nextChunk : Nat
  splitter : WindowSplitter
  decoder : Option AwsChunked.Decoder
  expected : Nat
  seen : Nat
  done : Bool
  failed : Bool
  keepTail : Bool

namespace PartTee

/-- What a call did: the tee after it, the object's bytes it took in, the windows
put out, each with its chunk index, and whether the upload was tainted. -/
structure Fed where
  tee : PartTee
  gained : Bytes
  windows : List (Nat × Bytes)
  taints : Bool

def idle (t : PartTee) : Fed :=
  { tee := t, gained := [], windows := [], taints := false }

def start (chunk : ChunkConfig) (firstChunk : Nat) (announced : BodyShape)
    (keepTail : Bool) : PartTee :=
  { nextChunk := firstChunk,
    splitter := WindowSplitter.new chunk.chunkSize chunk.positive,
    decoder := if announced.awsChunked then some .new else none,
    expected := announced.len,
    seen := 0,
    done := false,
    failed := false,
    keepTail := keepTail }

def fail (t : PartTee) : Fed :=
  { tee := { t with failed := true, done := true },
    gained := [],
    windows := [],
    taints := true }

def number : Nat -> List Bytes -> List (Nat × Bytes)
  | _, [] => []
  | index, window :: rest => (index, window) :: number (index + 1) rest

/-- The pieces of the object in a frame; `none` if it cannot be decoded. -/
def read (t : PartTee) (data : Bytes) :
    Option AwsChunked.Decoder × Option (List Bytes) :=
  match t.decoder with
  | none => (none, some [data])
  | some d =>
    match d.feed data with
    | (d', pieces) => (some d', pieces)

def take (t : PartTee) (decoder : Option AwsChunked.Decoder)
    (pieces : List Bytes) : PartTee :=
  { t with
    decoder := decoder,
    seen := t.seen + (pieces.map List.length).sum,
    splitter := pieces.foldl WindowSplitter.push t.splitter }

def emitWindows (t : PartTee) (gained : Bytes) : Fed :=
  match t.splitter.takeWindows t.splitter.carried with
  | (windows, splitter) =>
    { tee := { t with
        splitter := splitter,
        nextChunk := t.nextChunk + windows.length },
      gained := gained,
      windows := number t.nextChunk windows,
      taints := false }

def feed (t : PartTee) (data : Bytes) : Fed :=
  if t.failed ∨ t.done then t.idle
  else
    match t.read data with
    | (decoder, none) => fail { t with decoder := decoder }
    | (decoder, some pieces) =>
      let taken := t.take decoder pieces
      if taken.expected < taken.seen then taken.fail
      else taken.emitWindows pieces.flatten

def finish (t : PartTee) : Fed :=
  if t.done then t.idle
  else
    let decoded := t.decoder.all AwsChunked.Decoder.isComplete
    if !decoded ∨ t.seen ≠ t.expected then fail { t with done := true }
    else
      match (if !t.failed ∧ t.keepTail then t.splitter.takeTail else none) with
      | none => idle { t with done := true }
      | some (tail, splitter) =>
        { tee := { t with
            done := true,
            splitter := splitter,
            nextChunk := t.nextChunk + 1 },
          gained := [],
          windows := [(t.nextChunk, tail)],
          taints := false }

def drop (t : PartTee) : Fed :=
  if t.done then t.idle else t.fail

/-!
## What the windows are
-/

/-- Window `j` of what a body that starts at chunk `first` gives. -/
def window (size first : Nat) (payload : Bytes) (j : Nat) : Nat × Bytes :=
  (first + j, span payload (j * size) ((j + 1) * size))

theorem number_windows (size first k n : Nat) (payload : Bytes) :
    number (first + k) ((List.range n).map fun j =>
        span (payload.drop (k * size)) (j * size) ((j + 1) * size)) =
      (List.range' k n).map (window size first payload) := by
  induction n generalizing k with
  | zero => rfl
  | succ n ih =>
    have hstep := ih (k + 1)
    rw [← Nat.add_assoc] at hstep
    rw [List.range_succ_eq_map, List.map_cons, List.map_map, number,
      List.range'_succ, List.map_cons, ← hstep]
    congr 1
    · rw [window, span_drop, Nat.zero_mul, Nat.add_zero, Nat.zero_add,
        Nat.one_mul, Nat.add_one_mul]
    · congr 1
      apply List.map_congr_left
      intro j _
      rw [Function.comp_apply, span_drop, span_drop, Nat.succ_eq_add_one]
      congr 1
      · rw [Nat.add_one_mul j, Nat.add_one_mul k]
        lia
      · rw [Nat.add_one_mul (j + 1), Nat.add_one_mul j, Nat.add_one_mul k]
        lia

def Content (awsChunked : Bool) (raw content : Bytes) : Prop :=
  match awsChunked with
  | false => content = raw
  | true => AwsChunked.Encodes raw content

def Reads (awsChunked : Bool) (decoder : Option AwsChunked.Decoder)
    (sent payload : Bytes) : Prop :=
  match awsChunked, decoder with
  | false, none => payload = sent
  | true, some d => d.Tracks sent payload
  | _, _ => False

variable {t : PartTee} {awsChunked : Bool}

variable {decoder : Option AwsChunked.Decoder} {size first k : Nat}

variable {payload : Bytes}

theorem isPrefix_of_reads {sent more content : Bytes}
    (h : Reads awsChunked decoder sent payload)
    (hcontent : Content awsChunked (sent ++ more) content) :
    payload <+: content := by
  cases awsChunked with
  | false =>
    cases decoder with
    | none =>
      rw [show payload = sent from h, show content = sent ++ more from hcontent]
      exact List.prefix_append sent more
    | some d => cases h
  | true =>
    cases decoder with
    | none => cases h
    | some d => exact AwsChunked.Decoder.Tracks.isPrefix h hcontent

/-- The tee, started at chunk `first`, has put out the first `k` windows of
`payload` and holds the rest. -/
structure Carries (t : PartTee) (awsChunked : Bool) (size first k : Nat)
    (sent payload : Bytes) : Prop where
  grid : t.splitter.chunkSize = size
  reads : Reads awsChunked t.decoder sent payload
  next : t.nextChunk = first + k
  full : k * size ≤ payload.length
  holds : t.splitter.Holds (payload.drop (k * size))

theorem carries_start (chunk : ChunkConfig) (first : Nat)
    (announced : BodyShape) (keepTail : Bool) :
    (start chunk first announced keepTail).Carries announced.awsChunked
      chunk.chunkSize first 0 [] [] := by
  refine ⟨rfl, ?_, rfl, ?_, ?_⟩
  · unfold start
    cases announced.awsChunked with
    | false => rfl
    | true => exact AwsChunked.tracks_new
  · rw [Nat.zero_mul]
    exact Nat.zero_le _
  · rw [List.drop_nil]
    exact WindowSplitter.holds_new _ _

theorem reads_read {sent data : Bytes} {pieces : List Bytes}
    (h : Reads awsChunked t.decoder sent payload)
    (hread : t.read data = (decoder, some pieces)) :
    Reads awsChunked decoder (sent ++ data) (payload ++ pieces.flatten) := by
  unfold read at hread
  split at hread
  · rename_i hdecoder
    rw [hdecoder] at h
    cases hread
    cases awsChunked with
    | false =>
      rw [List.flatten_singleton, show payload = sent from h]
      rfl
    | true => cases h
  · rename_i d hdecoder
    rw [hdecoder] at h
    cases hfed : d.feed data with
    | mk d' out =>
      rw [hfed] at hread
      cases hread
      cases awsChunked with
      | false => cases h
      | true => exact AwsChunked.Decoder.Tracks.feed h hfed

theorem carries_take {sent data : Bytes} {pieces : List Bytes}
    (h : t.Carries awsChunked size first k sent payload)
    (hread : t.read data = (decoder, some pieces)) :
    (t.take decoder pieces).Carries awsChunked size first k (sent ++ data)
      (payload ++ pieces.flatten) := by
  rcases h.holds.pushAll pieces with ⟨hholds, hsize⟩
  rw [← List.drop_append_of_le_length h.full] at hholds
  have hfull : k * size ≤ (payload ++ pieces.flatten).length := by
    have hle := h.full
    rw [List.length_append]
    lia
  exact ⟨hsize.trans h.grid, reads_read h.reads hread, h.next, hfull, hholds⟩

theorem emitWindows_spec {sent : Bytes}
    (h : t.Carries awsChunked size first k sent payload) (gained : Bytes) :
    exists n,
      (t.emitWindows gained).windows =
        (List.range' k n).map (window size first payload) ∧
      (t.emitWindows gained).tee.Carries awsChunked size first (k + n) sent
        payload ∧
      payload.length < (k + n + 1) * size := by
  rcases WindowSplitter.takeWindows_eq h.holds (Nat.le_of_eq h.holds.right.symm)
    with ⟨n, splitter, htake, hholds, hgrid, hle, hlt⟩
  rw [h.grid] at htake hholds hgrid hle hlt
  rw [List.drop_drop, ← Nat.add_mul] at hholds
  have hfull : (k + n) * size ≤ payload.length := by
    have hk := h.full
    rw [List.length_drop] at hle
    rw [Nat.add_mul]
    lia
  have hdrained : payload.length < (k + n + 1) * size := by
    rw [List.length_drop] at hlt
    rw [Nat.add_assoc, Nat.add_mul]
    lia
  unfold emitWindows
  rw [htake]
  dsimp only
  rw [h.next, number_windows, List.length_map, List.length_range]
  exact ⟨n, rfl, ⟨hgrid, h.reads, Nat.add_assoc first k n, hfull, hholds⟩,
    hdrained⟩

def Live (t : PartTee) : Prop :=
  t.done = false ∧ t.failed = false ∧ t.keepTail = false

/-- A call that leaves the tee of a part at its end, with nothing put out. -/
structure Fed.Quiet (fed : Fed) : Prop where
  gained : fed.gained = []
  windows : fed.windows = []
  done : fed.tee.done = true
  tail : fed.tee.keepTail = false

theorem quiet_fail (h : t.keepTail = false) : t.fail.Quiet :=
  ⟨rfl, rfl, rfl, h⟩

theorem quiet_idle (h : t.keepTail = false) (hdone : t.done = true)
    : t.idle.Quiet :=
  ⟨rfl, rfl, hdone, h⟩

theorem quiet_drop (h : t.keepTail = false) : t.drop.Quiet := by
  unfold drop
  split
  · rename_i hdone
    exact quiet_idle h hdone
  · exact quiet_fail h

theorem quiet_finish (h : t.keepTail = false) :
    t.finish.Quiet := by
  unfold finish
  split
  · rename_i hdone
    exact quiet_idle h hdone
  · dsimp only
    split
    · exact quiet_fail h
    · rw [h, if_neg (by simp)]
      exact quiet_idle rfl rfl

theorem feed_spec {sent : Bytes}
    (h : t.Carries awsChunked size first k sent payload) (hlive : t.Live)
    (data : Bytes) :
    (t.feed data).Quiet ∨ exists n,
      (t.feed data).windows = (List.range' k n).map
        (window size first (payload ++ (t.feed data).gained)) ∧
      (t.feed data).tee.Carries awsChunked size first (k + n) (sent ++ data)
        (payload ++ (t.feed data).gained) ∧
      (t.feed data).tee.Live := by
  unfold feed
  rw [hlive.left, hlive.right.left, if_neg (by decide)]
  split
  · exact Or.inl (quiet_fail hlive.right.right)
  · rename_i decoder pieces hread
    dsimp only
    split
    · exact Or.inl (quiet_fail hlive.right.right)
    · rcases emitWindows_spec (carries_take h hread) pieces.flatten with
        ⟨n, hwindows, hcarries, _⟩
      exact Or.inr ⟨n, hwindows, hcarries, hlive⟩

theorem quiet_feed_of_done (h : t.keepTail = false) (hdone : t.done = true)
    (data : Bytes) : (t.feed data).Quiet := by
  unfold feed
  rw [if_pos (Or.inr hdone)]
  exact quiet_idle h hdone

end PartTee

end Daemon
end Pacer
