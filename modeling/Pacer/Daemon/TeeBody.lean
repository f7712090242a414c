import Pacer.Daemon.AwsChunkedScan
import Pacer.Daemon.PartTee

/-!
# A body streamed through the tee

The wrapper around a request body hands every frame to the tee and tells it when
the body has ended.  Here that is done for a whole body: whatever its frames
are, the windows put out are the full windows of its content from the first on,
and all of them unless the decoder gives up on the framing.
-/

namespace Pacer
namespace Daemon

open Foundation
open Cache

namespace PartTee

def Fed.andThen (one : Fed) (next : PartTee -> Fed) : Fed :=
  { tee := (next one.tee).tee,
    gained := one.gained ++ (next one.tee).gained,
    windows := one.windows ++ (next one.tee).windows,
    taints := one.taints || (next one.tee).taints }

def feedAll : List Bytes -> PartTee -> Fed
  | [], t => t.idle
  | frame :: rest, t => (t.feed frame).andThen (feedAll rest)

def stream (t : PartTee) (frames : List Bytes) : Fed :=
  (feedAll frames t).andThen finish

def decoderAfter (decoder : Option AwsChunked.Decoder) (frames : List Bytes) :
    Option (Option AwsChunked.Decoder) :=
  match decoder with
  | none => some none
  | some d => (AwsChunked.decodeFrames d frames).map fun final => some final.1

/-!
## A tee at work
-/

structure Working (t : PartTee) (awsChunked : Bool) (size first k : Nat)
    (sent payload : Bytes) : Prop where
  carries : t.Carries awsChunked size first k sent payload
  live : t.Live
  seen : t.seen = payload.length
  drained : payload.length < (k + 1) * size

theorem working_start (chunk : ChunkConfig) (first : Nat)
    (announced : BodyShape) :
    (start chunk first announced false).Working announced.awsChunked
      chunk.chunkSize first 0 [] [] := by
  refine ⟨carries_start chunk first announced false, ⟨rfl, rfl, rfl⟩, rfl, ?_⟩
  rw [Nat.zero_add, Nat.one_mul]
  exact chunk.positive

variable {decoder : Option AwsChunked.Decoder} {awsChunked : Bool} {t : PartTee}

section Frame

variable {t : PartTee} {awsChunked : Bool} {size first k : Nat}
  {sent payload data : Bytes}

theorem feed_of_read_none (h : t.Working awsChunked size first k sent payload)
    (hread : t.read data = (decoder, none)) :
    t.feed data = fail { t with decoder := decoder } := by
  unfold feed
  rw [h.live.left, h.live.right.left, if_neg (by decide), hread]

theorem feed_of_read_some {pieces : List Bytes}
    (h : t.Working awsChunked size first k sent payload)
    (hread : t.read data = (decoder, some pieces))
    (hfits : (payload ++ pieces.flatten).length ≤ t.expected) :
    exists n,
      (t.feed data).windows = (List.range' k n).map
        (window size first (payload ++ pieces.flatten)) ∧
      (t.feed data).tee.Working awsChunked size first (k + n) (sent ++ data)
        (payload ++ pieces.flatten) ∧
      (t.feed data).taints = false ∧
      (t.feed data).tee.expected = t.expected ∧
      (t.feed data).tee.decoder = decoder := by
  have hseen : (t.take decoder pieces).seen =
      (payload ++ pieces.flatten).length := by
    unfold take
    rw [List.length_append, List.length_flatten, h.seen]
  have hexpected : ¬ (t.take decoder pieces).expected <
      (t.take decoder pieces).seen := by
    rw [hseen]
    exact Nat.not_lt.mpr hfits
  have hfeed : t.feed data =
      (t.take decoder pieces).emitWindows pieces.flatten := by
    unfold feed
    rw [h.live.left, h.live.right.left, if_neg (by decide), hread]
    exact if_neg hexpected
  rcases emitWindows_spec (carries_take h.carries hread) pieces.flatten with
    ⟨n, hwindows, hcarries, hdrained⟩
  rw [hfeed]
  exact ⟨n, hwindows, ⟨hcarries, h.live, hseen, hdrained⟩, rfl, rfl, rfl⟩

end Frame

theorem feedAll_of_done (hdone : t.done = true) (frames : List Bytes)
    : feedAll frames t = t.idle := by
  induction frames with
  | nil => rfl
  | cons frame rest ih =>
    have hfeed : t.feed frame = t.idle := by
      unfold feed
      exact if_pos (Or.inr hdone)
    rw [feedAll, hfeed]
    unfold Fed.andThen
    rw [show (idle t).tee = t from rfl, ih]
    rfl

/-!
## Whole bodies
-/

theorem decoderAfter_cons {data : Bytes} {rest : List Bytes} :
    decoderAfter t.decoder (data :: rest) =
      match t.read data with
      | (_, none) => none
      | (decoder, some _) => decoderAfter decoder rest := by
  unfold read
  cases t.decoder with
  | none => rfl
  | some d =>
    dsimp only [decoderAfter]
    rw [AwsChunked.decodeFrames]
    cases d.feed data with
    | mk d' out =>
      cases out with
      | none => rfl
      | some pieces =>
        dsimp only
        rw [Option.map_map]
        rfl

theorem decoderAfter_nil (decoder : Option AwsChunked.Decoder) :
    decoderAfter decoder [] = some decoder := by
  cases decoder with
  | none => rfl
  | some d => rfl

variable {content : Bytes}

theorem windows_of_isPrefix {size first k n : Nat} {front : Bytes}
    (h : front <+: content) (hfull : (k + n) * size ≤ front.length) :
    (List.range' k n).map (window size first front) =
      (List.range' k n).map (window size first content) := by
  apply List.map_congr_left
  intro j hj
  rw [List.mem_range'_1] at hj
  have hstop : (j + 1) * size ≤ (k + n) * size :=
    Nat.mul_le_mul_right size (by lia)
  unfold window
  rw [span_of_isPrefix h (Nat.le_trans hstop hfull)]

variable {frames : List Bytes}

theorem feedAll_spec {size first k : Nat} {sent payload : Bytes}
    (h : t.Working awsChunked size first k sent payload)
    (hexpected : t.expected = content.length)
    (hcontent : Content awsChunked (sent ++ frames.flatten) content) :
    exists n,
      (feedAll frames t).windows =
        (List.range' k n).map (window size first content) ∧
      (k + n) * size ≤ content.length ∧
      (((feedAll frames t).taints = true ∧
          (feedAll frames t).tee.done = true ∧
          decoderAfter t.decoder frames = none) ∨
        exists payload', (feedAll frames t).taints = false ∧
          (feedAll frames t).tee.Working awsChunked size first (k + n)
            (sent ++ frames.flatten) payload' ∧
          (feedAll frames t).tee.expected = content.length ∧
          decoderAfter t.decoder frames =
            some (feedAll frames t).tee.decoder) := by
  induction frames generalizing t k sent payload with
  | nil =>
    have hfront := isPrefix_of_reads h.carries.reads hcontent
    refine ⟨0, rfl, Nat.le_trans h.carries.full hfront.length_le, ?_⟩
    refine Or.inr ⟨payload, rfl, ?_, hexpected, decoderAfter_nil _⟩
    rw [List.flatten_nil, List.append_nil]
    exact h
  | cons frame rest ih =>
    rw [decoderAfter_cons, feedAll]
    cases hread : t.read frame with
    | mk decoder out =>
      cases out with
      | none =>
        have hfront := isPrefix_of_reads h.carries.reads hcontent
        rw [feed_of_read_none h hread]
        unfold Fed.andThen
        rw [feedAll_of_done rfl]
        refine ⟨0, rfl, ?_, Or.inl ⟨rfl, rfl, rfl⟩⟩
        exact Nat.le_trans h.carries.full hfront.length_le
      | some pieces =>
        rw [List.flatten_cons, ← List.append_assoc] at hcontent ⊢
        have hfront := isPrefix_of_reads
          (reads_read h.carries.reads hread) hcontent
        have hfits := hfront.length_le
        rw [← hexpected] at hfits
        rcases feed_of_read_some h hread hfits with
          ⟨n, hwindows, hworking, htaints, hexpected', hdecoder⟩
        rw [windows_of_isPrefix hfront hworking.carries.full] at hwindows
        rcases ih hworking (hexpected'.trans hexpected) hcontent with
          ⟨m, hmore, hfull, hend⟩
        rw [hdecoder, Nat.add_assoc] at hend
        rw [Nat.add_assoc] at hfull
        refine ⟨n + m, ?_, hfull, ?_⟩
        · rw [Fed.andThen, hwindows, hmore, ← List.map_append,
            List.range'_append_1]
        · rw [Fed.andThen, htaints]
          exact hend

theorem content_of_decoderAfter {sent payload : Bytes}
    (hreads : Reads awsChunked decoder sent payload)
    (hcontent : Content awsChunked sent content)
    (hlive : forall d, decoder = some d -> d.state ≠ .failed) :
    payload = content ∧
      decoder.all AwsChunked.Decoder.isComplete = true := by
  cases awsChunked with
  | false =>
    cases decoder with
    | none => exact ⟨Eq.trans hreads (Eq.symm hcontent), rfl⟩
    | some d => cases hreads
  | true =>
    cases decoder with
    | none => cases hreads
    | some d =>
      have hstate := hlive d rfl
      refine ⟨AwsChunked.Decoder.Tracks.complete hreads hstate hcontent, ?_⟩
      exact AwsChunked.Decoder.Tracks.isComplete hreads hstate hcontent

theorem live_of_decoderAfter
    (h : decoderAfter (if awsChunked then some .new else none) frames =
      some decoder) :
    forall d, decoder = some d -> d.state ≠ .failed := by
  intro d hd
  rw [hd] at h
  cases awsChunked with
  | false => cases h
  | true =>
    rcases Option.map_eq_some_iff.mp h with ⟨⟨d', out⟩, hframes, hd'⟩
    cases hd'
    exact ((AwsChunked.decodeFrames_eq_some AwsChunked.clean_new
      AwsChunked.live_new).mp hframes).right.left

theorem outcome_of_decoderAfter
    (h : decoderAfter (if awsChunked then some .new else none) frames = none) :
    awsChunked = true ∧ AwsChunked.outcome frames = none := by
  cases awsChunked with
  | false => cases h
  | true =>
    have hframes := Option.map_eq_none_iff.mp h
    unfold AwsChunked.outcome
    rw [hframes]
    exact ⟨rfl, rfl⟩

theorem finish_of_complete (hlive : t.Live)
    (hcomplete : t.decoder.all AwsChunked.Decoder.isComplete = true)
    (hseen : t.seen = t.expected) :
    t.finish = idle { t with done := true } := by
  unfold finish
  rw [if_neg (by rw [hlive.left]; exact Bool.false_ne_true)]
  dsimp only
  rw [hcomplete, hseen, if_neg (by simp), hlive.right.right,
    if_neg (by simp)]

/-- A body of the announced length puts out full windows of its content from the
first on, and all there are unless its frames cannot be decoded. -/
theorem stream_spec (chunk : ChunkConfig) (first : Nat) (announced : BodyShape)
    (hlen : content.length = announced.len)
    (hcontent : Content announced.awsChunked frames.flatten content) :
    exists n,
      (stream (start chunk first announced false) frames).windows =
        (List.range n).map (window chunk.chunkSize first content) ∧
      n * chunk.chunkSize ≤ content.length ∧
      (content.length < (n + 1) * chunk.chunkSize ∧
          (stream (start chunk first announced false) frames).taints = false ∨
        announced.awsChunked = true ∧ AwsChunked.outcome frames = none) := by
  rcases feedAll_spec (working_start chunk first announced) hlen.symm hcontent
    with ⟨n, hwindows, hfull, hend⟩
  rw [Nat.zero_add] at hfull
  rw [← List.range_eq_range'] at hwindows
  unfold stream
  generalize feedAll frames (start chunk first announced false) = fed
    at hwindows hend
  rcases hend with ⟨_, hdone, hfailed⟩ |
    ⟨payload, htaints, hworking, hexpected, hdecoder⟩
  · have hfinish : fed.tee.finish = fed.tee.idle := if_pos hdone
    refine ⟨n, ?_, hfull, Or.inr (outcome_of_decoderAfter hfailed)⟩
    rw [Fed.andThen, hfinish, hwindows]
    exact List.append_nil _
  · rcases content_of_decoderAfter hworking.carries.reads hcontent
      (live_of_decoderAfter hdecoder) with ⟨hpayload, hcomplete⟩
    have hseen := hworking.seen
    have hdrained := hworking.drained
    rw [hpayload] at hseen hdrained
    rw [Nat.zero_add] at hdrained
    have hfinish := finish_of_complete hworking.live hcomplete
      (hseen.trans hexpected.symm)
    refine ⟨n, ?_, hfull, Or.inl ⟨hdrained, ?_⟩⟩
    · rw [Fed.andThen, hfinish, hwindows]
      exact List.append_nil _
    · rw [Fed.andThen, hfinish, htaints]
      rfl

end PartTee

end Daemon
end Pacer
