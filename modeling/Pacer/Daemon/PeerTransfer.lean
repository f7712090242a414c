import Pacer.Cache.Disk
import Pacer.Daemon.ObjectVersion
import Pacer.Daemon.Scatter
import Pacer.Foundation.Span

/-!
# Fetching a chunk from a peer

The node that holds a chunk streams it to the node that asked, from its cache or
as it reads it from the backend, in frames of which the first announces the
length.  The node that asked decodes the stream, collects it, and takes the
first source whose stream it could collect.

A stream can end before the holder is through with it, cleanly or with an error.
The requester reads every stream to its end.
-/

namespace Pacer
namespace Daemon

open Foundation
open Cache

namespace PeerTransfer

inductive Status where
  | unavailable
deriving DecidableEq, Repr

inductive TransportError where
  | notCached
  | peerUnavailable
deriving DecidableEq, Repr

structure BlobMeta where
  totalLen : Nat
  eTag : Option String
  objectLen : Nat
  bodyStart : Nat
deriving DecidableEq, Repr

structure BlobChunk where
  data : Bytes
  header : Option BlobMeta
deriving DecidableEq, Repr

/-!
## The holder
-/

def frameSize : Nat := 1048576

def streamLoop (size : Nat) (body : Bytes) : Nat -> Nat -> Option BlobMeta ->
    List (Except Status BlobChunk)
  | 0, _, _ => []
  | fuel + 1, offset, header =>
    let stop := min (offset + size) body.length
    .ok ⟨span body offset stop, header⟩ ::
      if body.length ≤ stop then []
      else streamLoop size body fuel stop none

def streamBytes (body : Bytes) (header : BlobMeta) :
    List (Except Status BlobChunk) :=
  streamLoop frameSize body (body.length + 1) 0 (some header)

/-- What a read-through has relayed so far.  `buf` accumulates the fill, if this
node takes one. -/
structure Pump where
  sends : Nat
  sent : Nat
  first : Option BlobMeta
  buf : Option Bytes
  frames : List (Except Status BlobChunk)
  failed : Bool

def Pump.relay (p : Pump) (isOpen : Bool) (piece : Bytes) : Pump :=
  { p with
    sends := p.sends + 1,
    sent := p.sent + piece.length,
    first := none,
    buf := p.buf.map (· ++ piece),
    frames := if isOpen then p.frames ++ [.ok ⟨piece, p.first⟩]
      else p.frames }

/-- Relay the backend's body to its end.  `isOpen` tells which sends still find
the requester there. -/
def pumpLoop (isOpen : Nat -> Bool) (broken : Bool) : List Bytes -> Pump ->
    Pump
  | [], p =>
    if broken then
      { p with
        frames := if isOpen p.sends then p.frames ++ [.error .unavailable]
          else p.frames,
        failed := true }
    else p
  | piece :: rest, p =>
    let relayed := p.relay (isOpen p.sends) piece
    if isOpen p.sends = false ∧ p.buf = none then
      { relayed with failed := true }
    else pumpLoop isOpen broken rest relayed

def pumpReadThrough (isOpen : Nat -> Bool) (takesFill : Bool) (body : Body)
    (header : BlobMeta) : Pump :=
  pumpLoop isOpen body.broken body.frames
    { sends := 0, sent := 0, first := some header,
      buf := if takesFill then some [] else none, frames := [],
      failed := false }

def Pump.fill (p : Pump) (chunkLen : Nat) : Option Bytes :=
  match p.buf with
  | none => none
  | some buf => if p.failed = false ∧ p.sent = chunkLen then some buf else none

inductive Holder where
  | notCached
  | unreachable
  | cached (chunk : CachedChunk)
  | readThrough (chunkLen objectLen bodyStart : Nat) (eTag : Option String)
      (body : Body) (takesFill : Bool)
deriving DecidableEq, Repr

/-- How a stream ends: as the holder ends it, or after some frames already,
cleanly or with an error. -/
inductive Ending where
  | runs
  | ends (n : Nat)
  | breaks (n : Nat)
deriving DecidableEq, Repr

def Ending.cut (ending : Ending) (frames : List (Except Status BlobChunk)) :
    List (Except Status BlobChunk) :=
  match ending with
  | .runs => frames
  | .ends n => frames.take n
  | .breaks n => frames.take n ++ [.error .unavailable]

structure Source where
  holder : Holder
  ending : Ending
deriving DecidableEq, Repr

def Source.stream (source : Source) :
    Except TransportError (List (Except Status BlobChunk)) :=
  match source.holder with
  | .notCached => .error .notCached
  | .unreachable => .error .peerUnavailable
  | .cached chunk =>
    .ok (source.ending.cut (streamBytes chunk.body
      { totalLen := chunk.body.length, eTag := chunk.eTag,
        objectLen := chunk.body.length, bodyStart := 0 }))
  | .readThrough chunkLen objectLen bodyStart eTag body takesFill =>
    .ok (source.ending.cut (pumpReadThrough (fun _ => true) takesFill body
      { totalLen := chunkLen, eTag := eTag, objectLen := objectLen,
        bodyStart := bodyStart }).frames)

/-!
## The requester
-/

structure BlobStream where
  len : Nat
  objectLen : Nat
  bodyStart : Nat
  eTag : Option String
  chunks : List (Except TransportError Bytes)
deriving DecidableEq, Repr

def decodeFrame (frame : Except Status BlobChunk) :
    Except TransportError Bytes :=
  match frame with
  | .ok chunk => .ok chunk.data
  | .error _ => .error .peerUnavailable

def decodeBlobStream (frames : List (Except Status BlobChunk)) :
    Except TransportError BlobStream :=
  match frames with
  | [] => .error .peerUnavailable
  | .error _ :: _ => .error .peerUnavailable
  | .ok first :: tail =>
    match first.header with
    | none => .error .peerUnavailable
    | some header =>
      .ok { len := header.totalLen, objectLen := header.objectLen,
            bodyStart := header.bodyStart, eTag := header.eTag,
            chunks := .ok first.data :: tail.map decodeFrame }

def collectRest (buf : Bytes) : List (Except TransportError Bytes) ->
    Except TransportError Bytes
  | [] => .ok buf
  | .error e :: _ => .error e
  | .ok chunk :: rest => collectRest (buf ++ chunk) rest

def collectBlob (blob : BlobStream) : Except TransportError Bytes :=
  match blob.chunks with
  | [] => .ok []
  | .error e :: _ => .error e
  | .ok first :: rest =>
    match rest with
    | [] => .ok first
    | .error e :: _ => .error e
    | .ok second :: others => collectRest (first ++ second) others

def Source.fetchBlob (source : Source) : Except TransportError BlobStream :=
  match source.stream with
  | .error e => .error e
  | .ok frames => decodeBlobStream frames

structure Fetched where
  announced : Nat
  bytes : Bytes
deriving DecidableEq, Repr

def fetchFromPeer (eTag : Option String) : List Source -> Option Fetched
  | [] => none
  | source :: rest =>
    match source.fetchBlob with
    | .error _ => fetchFromPeer eTag rest
    | .ok blob =>
      if sameVersion eTag blob.eTag then
        match collectBlob blob with
        | .error _ => fetchFromPeer eTag rest
        | .ok bytes => some { announced := blob.len, bytes := bytes }
      else fetchFromPeer eTag rest

def toCached (eTag : Option String) (data : Bytes) : CachedChunk :=
  { body := data, eTag := eTag }

/-!
## What a stream carries
-/

def framed : Option BlobMeta -> List Bytes -> List (Except Status BlobChunk)
  | _, [] => []
  | header, piece :: rest => .ok ⟨piece, header⟩ :: framed none rest

def errorsOnly (frames : List (Except Status BlobChunk)) : Prop :=
  forall frame, frame ∈ frames -> frame = .error .unavailable

def piecesFrom (size : Nat) (body : Bytes) : Nat -> Nat -> List Bytes
  | 0, _ => []
  | fuel + 1, offset =>
    let stop := min (offset + size) body.length
    span body offset stop ::
      if body.length ≤ stop then [] else piecesFrom size body fuel stop

theorem streamLoop_eq_framed (size : Nat) (body : Bytes) (fuel offset : Nat)
    (header : Option BlobMeta) :
    streamLoop size body fuel offset header =
      framed header (piecesFrom size body fuel offset) := by
  induction fuel generalizing offset header with
  | zero => rfl
  | succ fuel ih =>
    unfold streamLoop piecesFrom
    dsimp only
    split
    · rfl
    · rw [ih]
      rfl

theorem flatten_piecesFrom {size : Nat} (hsize : 0 < size) {body : Bytes}
    {fuel offset : Nat} (hoffset : offset ≤ body.length)
    (hfuel : body.length < offset + fuel) :
    (piecesFrom size body fuel offset).flatten = body.drop offset := by
  induction fuel generalizing offset with
  | zero => lia
  | succ fuel ih =>
    unfold piecesFrom
    dsimp only
    rw [List.flatten_cons]
    split
    · rename_i hlast
      have hstop : min (offset + size) body.length = body.length := by
        lia
      rw [hstop, List.flatten_nil, List.append_nil, span, List.take_length]
    · rename_i hmore
      have hstop : min (offset + size) body.length = offset + size := by
        lia
      rw [hstop, ih (by lia) (by lia), span, ← List.drop_append_of_le_length,
        List.take_append_drop]
      rw [List.length_take]
      lia

theorem length_of_mem_piecesFrom {size : Nat} {body piece : Bytes}
    {fuel offset : Nat} (hpiece : piece ∈ piecesFrom size body fuel offset) :
    piece.length ≤ size := by
  induction fuel generalizing offset with
  | zero => cases hpiece
  | succ fuel ih =>
    unfold piecesFrom at hpiece
    dsimp only at hpiece
    rcases List.mem_cons.mp hpiece with rfl | hlater
    · rw [span, List.length_drop, List.length_take]
      lia
    · split at hlater
      · cases hlater
      · exact ih hlater

theorem take_flatten_piecesFrom {size : Nat} (hpos : 0 < size) {body : Bytes}
    {fuel offset : Nat} (hoffset : offset ≤ body.length)
    (hfuel : body.length < offset + fuel) (n : Nat) :
    ((piecesFrom size body fuel offset).take n).flatten =
      (body.drop offset).take (n * size) := by
  induction fuel generalizing offset n with
  | zero => lia
  | succ fuel ih =>
    cases n with
    | zero => simp
    | succ n =>
      have hsize : (n + 1) * size = size + n * size := by
        rw [Nat.succ_mul, Nat.add_comm]
      unfold piecesFrom
      dsimp only
      rw [List.take_succ_cons, List.flatten_cons, hsize, List.take_add]
      split
      · rename_i hlast
        have hstop : min (offset + size) body.length = body.length := by
          lia
        have hthrough : (body.drop offset).length ≤ size := by
          rw [List.length_drop]
          lia
        rw [hstop, span, List.take_length, List.take_nil, List.flatten_nil,
          List.take_of_length_le hthrough, List.drop_of_length_le hthrough,
          List.take_nil]
      · have hstop : min (offset + size) body.length = offset + size := by
          lia
        rw [hstop, ih (by lia) (by lia), span, List.drop_take,
          Nat.add_sub_cancel_left, List.drop_drop]

theorem framed_none (pieces : List Bytes) :
    framed none pieces = pieces.map fun piece => .ok ⟨piece, none⟩ := by
  induction pieces with
  | nil => rfl
  | cons piece rest ih => rw [framed, ih, List.map_cons]

/-- The frames of a cached chunk are its body, cut into pieces of at most a
frame, and the first of them carries the header. -/
theorem streamed_whole (body : Bytes) (header : BlobMeta) :
    exists first rest,
      streamBytes body header = .ok ⟨first, some header⟩ ::
        rest.map (fun piece => .ok ⟨piece, none⟩) ∧
      first ++ rest.flatten = body ∧
      forall piece, piece ∈ first :: rest -> piece.length ≤ frameSize := by
  have hwhole : (piecesFrom frameSize body (body.length + 1) 0).flatten =
      body := by
    rw [flatten_piecesFrom (by decide) (Nat.zero_le _) (by lia), List.drop_zero]
  have hsmall : forall piece,
      piece ∈ piecesFrom frameSize body (body.length + 1) 0 ->
        piece.length ≤ frameSize :=
    fun piece hpiece => length_of_mem_piecesFrom hpiece
  have hframes : streamBytes body header =
      framed (some header) (piecesFrom frameSize body (body.length + 1) 0) :=
    streamLoop_eq_framed frameSize body (body.length + 1) 0 (some header)
  cases hpieces : piecesFrom frameSize body (body.length + 1) 0 with
  | nil => cases hpieces
  | cons first rest =>
    rw [hpieces] at hwhole hsmall hframes
    refine ⟨first, rest, ?_, hwhole, hsmall⟩
    rw [hframes, framed, framed_none]

theorem streamed_whole_twoFrames : exists body first rest,
    body.length = frameSize + 1 ∧ rest ≠ [] ∧
      streamBytes body ⟨0, none, 0, 0⟩ = .ok ⟨first, some ⟨0, none, 0, 0⟩⟩ ::
        rest.map (fun piece => .ok ⟨piece, none⟩) ∧
      first ++ rest.flatten = body := by
  have hbody : exists body : Bytes, body.length = frameSize + 1 :=
    ⟨_, List.length_replicate (a := 7)⟩
  rcases hbody with ⟨body, hlen⟩
  rcases streamed_whole body ⟨0, none, 0, 0⟩ with
    ⟨first, rest, hframes, hwhole, hsmall⟩
  refine ⟨body, first, rest, hlen, ?_, hframes, hwhole⟩
  rintro rfl
  rw [← hwhole, List.flatten_nil, List.append_nil] at hlen
  have hfirst := hsmall first List.mem_cons_self
  lia

theorem frames_pumpLoop (broken : Bool) (pieces : List Bytes) (p : Pump) :
    (pumpLoop (fun _ => true) broken pieces p).frames =
      p.frames ++ framed p.first pieces ++
        if broken then [.error .unavailable] else [] := by
  induction pieces generalizing p with
  | nil =>
    unfold pumpLoop framed
    cases broken with
    | false => simp
    | true => simp
  | cons piece rest ih =>
    unfold pumpLoop
    dsimp only
    rw [if_neg (fun h => Bool.noConfusion h.left), ih]
    simp [Pump.relay, framed]

theorem length_buf_relay {p : Pump} (piece : Bytes)
    (h : forall buf, p.buf = some buf -> buf.length = p.sent)
    (isOpen : Bool) {buf : Bytes}
    (hbuf : (p.relay isOpen piece).buf = some buf) :
    buf.length = (p.relay isOpen piece).sent := by
  rcases Option.map_eq_some_iff.mp hbuf with ⟨old, hold, rfl⟩
  show (old ++ piece).length = p.sent + piece.length
  rw [List.length_append, h old hold]

theorem length_buf_pumpLoop {isOpen : Nat -> Bool} {broken : Bool}
    {pieces : List Bytes} {p : Pump}
    (h : forall buf, p.buf = some buf -> buf.length = p.sent) {buf : Bytes}
    (hbuf : (pumpLoop isOpen broken pieces p).buf = some buf) :
    buf.length = (pumpLoop isOpen broken pieces p).sent := by
  induction pieces generalizing p with
  | nil =>
    unfold pumpLoop at hbuf ⊢
    cases broken with
    | false => exact h buf hbuf
    | true => exact h buf hbuf
  | cons piece rest ih =>
    unfold pumpLoop at hbuf ⊢
    dsimp only at hbuf ⊢
    split
    · rename_i hgone
      rw [if_pos hgone] at hbuf
      exact length_buf_relay piece h (isOpen p.sends) hbuf
    · rename_i hmore
      rw [if_neg hmore] at hbuf
      exact ih (fun _ => length_buf_relay piece h _) hbuf

theorem length_fill {isOpen : Nat -> Bool} {takesFill : Bool} {body : Body}
    {header : BlobMeta} {chunkLen : Nat} {bytes : Bytes}
    (h : (pumpReadThrough isOpen takesFill body header).fill chunkLen =
      some bytes) : bytes.length = chunkLen := by
  unfold Pump.fill at h
  split at h
  · cases h
  rename_i buf hbuf
  split at h
  · rename_i hwhole
    cases h
    rw [← hwhole.right]
    refine length_buf_pumpLoop ?_ hbuf
    intro start hstart
    cases takesFill with
    | false => cases hstart
    | true =>
      cases hstart
      rfl
  · cases h

/-- The requester goes away after the first of two frames, and the fill still
takes both. -/
theorem length_fill_whole :
    (pumpReadThrough (fun n => n < 1) true ⟨[[1], [2]], false⟩
        ⟨2, none, 2, 0⟩).frames = [.ok ⟨[1], some ⟨2, none, 2, 0⟩⟩] ∧
      exists bytes, (pumpReadThrough (fun n => n < 1) true ⟨[[1], [2]], false⟩
        ⟨2, none, 2, 0⟩).fill 2 = some bytes ∧ bytes.length = 2 :=
  ⟨rfl, _, rfl, length_fill
    (rfl : (pumpReadThrough (fun n => n < 1) true ⟨[[1], [2]], false⟩
      ⟨2, none, 2, 0⟩).fill 2 = _)⟩

/-!
## What a source delivers
-/

def Ending.reaches (ending : Ending) (pieces : List Bytes) : List Bytes :=
  match ending with
  | .runs => pieces
  | .ends n => pieces.take n
  | .breaks n => pieces.take n

def Ending.isClean (ending : Ending) (count : Nat) (broken : Bool) : Bool :=
  match ending with
  | .runs => !broken
  | .ends n => decide (n ≤ count) || !broken
  | .breaks _ => false

namespace Source

def announced (source : Source) : Nat :=
  match source.holder with
  | .cached chunk => chunk.body.length
  | .readThrough chunkLen _ _ _ _ _ => chunkLen
  | _ => 0

def eTag (source : Source) : Option String :=
  match source.holder with
  | .cached chunk => chunk.eTag
  | .readThrough _ _ _ eTag _ _ => eTag
  | _ => none

def pieces (source : Source) : List Bytes :=
  match source.holder with
  | .cached chunk => piecesFrom frameSize chunk.body (chunk.body.length + 1) 0
  | .readThrough _ _ _ _ body _ => body.frames
  | _ => []

def broken (source : Source) : Bool :=
  match source.holder with
  | .readThrough _ _ _ _ body _ => body.broken
  | _ => false

def received (source : Source) : List Bytes :=
  source.ending.reaches source.pieces

def endsCleanly (source : Source) : Bool :=
  source.ending.isClean source.pieces.length source.broken

def taken (eTag : Option String) (source : Source) : Bool :=
  source.endsCleanly && !source.received.isEmpty &&
    sameVersion eTag source.eTag

end Source

theorem take_framed (header : Option BlobMeta) (pieces : List Bytes)
    (n : Nat) : (framed header pieces).take n =
      framed header (pieces.take n) := by
  induction pieces generalizing header n with
  | nil => simp [framed]
  | cons piece rest ih =>
    cases n with
    | zero => rfl
    | succ n =>
      show Except.ok _ :: (framed none rest).take n = _
      rw [ih]
      rfl

theorem length_framed (header : Option BlobMeta) (pieces : List Bytes) :
    (framed header pieces).length = pieces.length := by
  induction pieces generalizing header with
  | nil => rfl
  | cons piece rest ih =>
    show (framed none rest).length + 1 = _
    rw [ih]
    rfl

theorem cut_framed (ending : Ending) (header : Option BlobMeta)
    (pieces : List Bytes) (broken : Bool) :
    exists errors, errorsOnly errors ∧
      ending.cut (framed header pieces ++
        if broken then [.error .unavailable] else []) =
      framed header (ending.reaches pieces) ++ errors ∧
      (errors = [] <-> ending.isClean pieces.length broken = true) := by
  unfold Ending.cut Ending.reaches Ending.isClean
  have herrors : errorsOnly (if broken then [.error .unavailable] else []) := by
    intro frame hframe
    cases broken with
    | false => cases hframe
    | true => exact List.mem_singleton.mp hframe
  cases ending with
  | runs =>
    refine ⟨_, herrors, rfl, ?_⟩
    cases broken with
    | false => simp
    | true => simp
  | ends n =>
    refine ⟨(if broken then [.error .unavailable] else []).take
      (n - pieces.length), ?_, ?_, ?_⟩
    · intro frame hframe
      exact herrors frame (List.mem_of_mem_take hframe)
    · dsimp only
      rw [List.take_append, take_framed, length_framed]
    · cases broken with
      | false => simp
      | true =>
        rw [List.take_eq_nil_iff]
        simp
        lia
  | breaks n =>
    refine ⟨(if broken then [.error .unavailable] else []).take
      (n - pieces.length) ++ [.error .unavailable], ?_, ?_, ?_⟩
    · intro frame hframe
      rcases List.mem_append.mp hframe with hcut | hlast
      · exact herrors frame (List.mem_of_mem_take hcut)
      · exact List.mem_singleton.mp hlast
    · dsimp only
      rw [List.take_append, take_framed, length_framed,
        List.append_assoc]
    · simp

theorem collectBlob_eq (blob : BlobStream) {first : Bytes}
    {rest : List (Except TransportError Bytes)}
    (h : blob.chunks = .ok first :: rest) :
    collectBlob blob = collectRest first rest := by
  unfold collectBlob
  rw [h]
  cases rest with
  | nil => rfl
  | cons second others =>
    cases second with
    | error e => rfl
    | ok second => rfl

theorem collectRest_framed (buf : Bytes) (pieces : List Bytes)
    {errors : List (Except Status BlobChunk)} (herrors : errorsOnly errors) :
    collectRest buf ((framed none pieces ++ errors).map decodeFrame) =
      if errors = [] then .ok (buf ++ pieces.flatten)
      else .error .peerUnavailable := by
  induction pieces generalizing buf with
  | nil =>
    cases errors with
    | nil => simp [framed, collectRest]
    | cons frame rest =>
      rw [herrors frame List.mem_cons_self]
      rfl
  | cons piece rest ih =>
    show collectRest (buf ++ piece) ((framed none rest ++ errors).map
      decodeFrame) = _
    rw [ih, List.flatten_cons, List.append_assoc]

theorem decode_framed (header : BlobMeta) (pieces : List Bytes)
    {errors : List (Except Status BlobChunk)} (herrors : errorsOnly errors) :
    (pieces = [] ∧ decodeBlobStream (framed (some header) pieces ++ errors) =
      .error .peerUnavailable) ∨
    exists blob, pieces ≠ [] ∧
      decodeBlobStream (framed (some header) pieces ++ errors) = .ok blob ∧
      blob.len = header.totalLen ∧ blob.eTag = header.eTag ∧
      collectBlob blob = if errors = [] then .ok pieces.flatten
        else .error .peerUnavailable := by
  cases pieces with
  | nil =>
    refine Or.inl ⟨rfl, ?_⟩
    cases errors with
    | nil => rfl
    | cons frame rest =>
      rw [herrors frame List.mem_cons_self]
      rfl
  | cons piece rest =>
    refine Or.inr ⟨_, List.cons_ne_nil _ _, rfl, rfl, rfl, ?_⟩
    rw [collectBlob_eq _ rfl, List.flatten_cons]
    exact collectRest_framed piece rest herrors

theorem stream_eq (source : Source) :
    (exists e, source.stream = .error e) ∧ source.pieces = [] ∨
    exists header : BlobMeta, header.totalLen = source.announced ∧
      header.eTag = source.eTag ∧
      source.stream = .ok (source.ending.cut
        (framed (some header) source.pieces ++
          if source.broken then [.error .unavailable] else [])) := by
  rcases source with ⟨holder, ending⟩
  cases holder with
  | notCached | unreachable => exact Or.inl ⟨⟨_, rfl⟩, rfl⟩
  | cached chunk =>
    refine Or.inr ⟨⟨chunk.body.length, chunk.eTag, chunk.body.length, 0⟩,
      rfl, rfl, ?_⟩
    unfold Source.stream streamBytes
    dsimp only
    rw [streamLoop_eq_framed]
    unfold Source.pieces Source.broken
    simp
  | readThrough chunkLen objectLen bodyStart eTag body takesFill =>
    refine Or.inr ⟨⟨chunkLen, eTag, objectLen, bodyStart⟩, rfl, rfl, ?_⟩
    unfold Source.stream pumpReadThrough
    dsimp only
    rw [frames_pumpLoop]
    rfl

theorem fetchBlob_cases (source : Source) :
    (exists e, source.fetchBlob = .error e) ∧ source.received = [] ∨
    exists blob, source.fetchBlob = .ok blob ∧ source.received ≠ [] ∧
      blob.len = source.announced ∧ blob.eTag = source.eTag ∧
      collectBlob blob = if source.endsCleanly then .ok source.received.flatten
        else .error .peerUnavailable := by
  unfold Source.fetchBlob
  rcases stream_eq source with ⟨⟨e, herror⟩, hpieces⟩ |
    ⟨header, hlen, htag, hstream⟩
  · refine Or.inl ⟨⟨e, ?_⟩, ?_⟩
    · rw [herror]
    · unfold Source.received
      rw [hpieces]
      cases source.ending <;> simp [Ending.reaches]
  · rcases cut_framed source.ending (some header) source.pieces
      source.broken with ⟨errors, herrors, hcut, hclean⟩
    change errors = [] <-> source.endsCleanly = true at hclean
    rw [hstream, hcut]
    rcases decode_framed header source.received herrors with
      ⟨hempty, hdecode⟩ | ⟨blob, hsome, hdecode, hblob, hblobTag, hcollect⟩
    · exact Or.inl ⟨⟨_, hdecode⟩, hempty⟩
    · refine Or.inr ⟨blob, hdecode, hsome, hblob.trans hlen,
        hblobTag.trans htag, ?_⟩
      rw [hcollect]
      exact if_congr hclean rfl rfl

/-- A fetch takes the first source whose stream is of the version read, carries
something and ends with no error, and takes what came of it. -/
theorem fetchFromPeer_eq (eTag : Option String) (sources : List Source) :
    fetchFromPeer eTag sources =
      (sources.find? (Source.taken eTag)).map fun source =>
        { announced := source.announced,
          bytes := source.received.flatten } := by
  induction sources with
  | nil => rfl
  | cons source rest ih =>
    unfold fetchFromPeer
    rw [List.find?_cons]
    unfold Source.taken at ih ⊢
    rcases fetchBlob_cases source with ⟨⟨e, herror⟩, hempty⟩ |
      ⟨blob, hblob, hsome, hlen, htag, hcollect⟩
    · rw [herror, hempty, List.isEmpty_nil, Bool.not_true, Bool.and_false,
        Bool.false_and]
      exact ih
    · rw [hblob, List.isEmpty_eq_false_iff.mpr hsome, Bool.not_false,
        Bool.and_true]
      dsimp only
      rw [hcollect, htag, hlen]
      cases sameVersion eTag source.eTag with
      | false =>
        rw [Bool.and_false]
        exact ih
      | true =>
        rw [Bool.and_true]
        cases source.endsCleanly with
        | false => exact ih
        | true => rfl

/-!
## Short transfers

The requester compares nothing with the length announced, so it depends on what
it is given.  A backend body that ends without an error has delivered its
content length; a stream may still end, without an error, before the holder is
through with it.
-/

/-- The backend client fails a body that ends before its content length, which
is the length the holder announces. -/
def Holder.BodyChecked : Holder -> Prop
  | .readThrough chunkLen _ _ _ body _ =>
    body.broken = false -> body.frames.flatten.length = chunkLen
  | _ => True

/-- The stream of a copy with an ETag ends without an error after some frames,
which are not all of the chunk. -/
def Source.CutShort (source : Source) : Prop :=
  match source.holder, source.ending with
  | .cached chunk, .ends n =>
    chunk.eTag ≠ none ∧ 0 < n ∧ n * frameSize < chunk.body.length
  | .readThrough chunkLen _ _ eTag body _, .ends n =>
    eTag ≠ none ∧ 0 < n ∧ n ≤ body.frames.length ∧
      (body.frames.take n).flatten.length ≠ chunkLen
  | _, _ => False

theorem sameVersion_refl {eTag : Option String} (h : eTag ≠ none) :
    sameVersion eTag eTag = true := by
  cases eTag with
  | none => exact absurd rfl h
  | some tag => exact beq_self_eq_true _

theorem flatten_received_cached (chunk : CachedChunk) (ending : Ending) :
    (Source.mk (.cached chunk) ending).received.flatten =
      match ending with
      | .runs => chunk.body
      | .ends n | .breaks n => chunk.body.take (n * frameSize) := by
  have hcut := take_flatten_piecesFrom (by decide : 0 < frameSize)
    (Nat.zero_le chunk.body.length) (Nat.lt_of_lt_of_eq
      (Nat.lt_succ_self chunk.body.length) (Nat.zero_add _).symm)
  rw [List.drop_zero] at hcut
  cases ending with
  | runs =>
    show (piecesFrom frameSize chunk.body (chunk.body.length + 1) 0).flatten = _
    rw [flatten_piecesFrom (by decide) (Nat.zero_le _) (by lia),
      List.drop_zero]
  | ends n => exact hcut n
  | breaks n => exact hcut n

theorem taken_iff (eTag : Option String) (source : Source) :
    source.taken eTag = true <->
      source.endsCleanly = true ∧ source.received ≠ [] ∧
        sameVersion eTag source.eTag = true := by
  unfold Source.taken
  rw [Bool.and_eq_true, Bool.and_eq_true, Bool.not_eq_true',
    List.isEmpty_eq_false_iff, and_assoc]

theorem taken_of_cutShort {source : Source} (h : source.CutShort) :
    source.taken source.eTag = true ∧
      source.received.flatten.length ≠ source.announced := by
  rcases source with ⟨holder, ending⟩
  cases ending with
  | runs | breaks n => cases holder <;> cases h
  | ends n =>
    cases holder with
    | notCached | unreachable => cases h
    | cached chunk =>
      rcases h with ⟨htag, hsome, hmissing⟩
      have hlen : (Source.mk (.cached chunk) (.ends n)).received.flatten.length =
          n * frameSize := by
        rw [flatten_received_cached, List.length_take]
        exact Nat.min_eq_left (Nat.le_of_lt hmissing)
      constructor
      · refine (taken_iff _ _).mpr ⟨?_, ?_, sameVersion_refl htag⟩
        · simp [Source.endsCleanly, Ending.isClean, Source.broken]
        · intro hnone
          have hframe := Nat.mul_pos hsome (by decide : 0 < frameSize)
          rw [hnone, List.flatten_nil, List.length_nil] at hlen
          exact Nat.ne_of_gt hframe hlen.symm
      · rw [hlen]
        exact Nat.ne_of_lt hmissing
    | readThrough chunkLen objectLen bodyStart eTag body takesFill =>
      rcases h with ⟨htag, hsome, hwithin, hmissing⟩
      refine ⟨(taken_iff _ _).mpr ⟨?_, ?_, sameVersion_refl htag⟩, hmissing⟩
      · simp [Source.endsCleanly, Ending.isClean, Source.pieces, hwithin]
      · show body.frames.take n ≠ []
        intro hnone
        have hlen := congrArg List.length hnone
        rw [List.length_take, List.length_nil] at hlen
        lia

theorem length_received {source : Source} (hbody : source.holder.BodyChecked)
    {eTag : Option String} (htaken : source.taken eTag = true)
    (hwhole : ¬ source.CutShort) :
    source.received.flatten.length = source.announced := by
  rcases (taken_iff _ _).mp htaken with ⟨hclean, hsome, hversion⟩
  have htag : source.eTag ≠ none := by
    rcases (sameVersion_iff _ _).mp hversion with ⟨_, tag, _, htag, _⟩
    rw [htag]
    exact Option.some_ne_none tag
  rcases source with ⟨holder, ending⟩
  cases ending with
  | breaks n => cases hclean
  | runs =>
    cases holder with
    | notCached | unreachable => exact absurd rfl hsome
    | cached chunk =>
      rw [flatten_received_cached]
      rfl
    | readThrough chunkLen objectLen bodyStart tag body takesFill =>
      exact hbody ((Bool.not_eq_true' _).mp hclean)
  | ends n =>
    have hframes : 0 < n := by
      rcases Nat.eq_zero_or_pos n with rfl | hpos
      · exact absurd rfl hsome
      · exact hpos
    cases holder with
    | notCached | unreachable => exact absurd List.take_nil hsome
    | cached chunk =>
      have hthrough : chunk.body.length ≤ n * frameSize :=
        Nat.not_lt.mp (fun hmissing => hwhole ⟨htag, hframes, hmissing⟩)
      rw [flatten_received_cached]
      exact congrArg List.length (List.take_of_length_le hthrough)
    | readThrough chunkLen objectLen bodyStart tag body takesFill =>
      rcases Nat.lt_or_ge body.frames.length n with hpast | hwithin
      · have hunbroken : body.broken = false := by
          change (decide (n ≤ body.frames.length) || !body.broken) = true
            at hclean
          rw [decide_eq_false (Nat.not_le.mpr hpast)] at hclean
          exact (Bool.not_eq_true' _).mp hclean
        show (body.frames.take n).flatten.length = chunkLen
        rw [List.take_of_length_le (Nat.le_of_lt hpast)]
        exact hbody hunbroken
      · by_contra hmissing
        exact hwhole ⟨htag, hframes, hwithin, hmissing⟩

/-- Whichever of the sources are asked, in whichever order and for whichever
version, what a fetch returns is of the length announced, just when no stream
of them is cut short. -/
theorem fetched_as_announced_iff {sources : List Source}
    (hbodies : forall source, source ∈ sources ->
      source.holder.BodyChecked) :
    (forall eTag asked fetched, asked ⊆ sources ->
      fetchFromPeer eTag asked = some fetched ->
        fetched.bytes.length = fetched.announced) <->
    forall source, source ∈ sources -> ¬ source.CutShort := by
  constructor
  · intro h source hsource hcut
    rcases taken_of_cutShort hcut with ⟨htaken, hshort⟩
    have hfetched : fetchFromPeer source.eTag [source] =
        some ⟨source.announced, source.received.flatten⟩ := by
      rw [fetchFromPeer_eq, List.find?_cons_of_pos htaken]
      rfl
    exact hshort (h _ [source] _ (List.cons_subset.mpr
      ⟨hsource, List.nil_subset _⟩) hfetched)
  · intro h eTag asked fetched hasked hfetched
    rw [fetchFromPeer_eq] at hfetched
    rcases Option.map_eq_some_iff.mp hfetched with ⟨source, hfound, rfl⟩
    have hsource := hasked (List.mem_of_find?_eq_some hfound)
    exact length_received (hbodies source hsource)
      (List.find?_some hfound) (h source hsource)

def readingThrough (frames : List Bytes) (broken : Bool) (ending : Ending) :
    Source :=
  { holder := .readThrough 4 4 0 (some "v")
      { frames := frames, broken := broken } true,
    ending := ending }

def failingThenWhole : List Source :=
  [readingThrough [[1, 2], [3, 4]] false (.breaks 1),
    readingThrough [[1, 2], [3, 4]] false (.ends 0),
    readingThrough [[1]] true .runs,
    readingThrough [[1, 2], [3, 4]] false .runs]

/-- A stream that breaks off, one that ends before its first frame, and one of
a body that fails are passed over for a whole one. -/
theorem fetched_as_announced_iff_passesOver :
    fetchFromPeer (some "v") failingThenWhole =
        some { announced := 4, bytes := [1, 2, 3, 4] } ∧
      forall eTag asked fetched, asked ⊆ failingThenWhole ->
        fetchFromPeer eTag asked = some fetched ->
          fetched.bytes.length = fetched.announced := by
  refine ⟨rfl, (fetched_as_announced_iff ?_).mpr ?_⟩
  · intro source hsource
    simp only [failingThenWhole, List.mem_cons, List.not_mem_nil, or_false]
      at hsource
    rcases hsource with rfl | rfl | rfl | rfl
    · exact fun _ => rfl
    · exact fun _ => rfl
    · exact nofun
    · exact fun _ => rfl
  · intro source hsource hcut
    simp only [failingThenWhole, List.mem_cons, List.not_mem_nil, or_false]
      at hsource
    rcases hsource with rfl | rfl | rfl | rfl
    · exact hcut
    · exact absurd hcut.right.left (Nat.lt_irrefl 0)
    · exact hcut
    · exact hcut

/-- The holder goes away after the first of two frames, without an error: the
two bytes are taken for the chunk of four, and may be kept under the version. -/
theorem cut_stream_taken_for_chunk :
    fetchFromPeer (some "v") [readingThrough [[1, 2], [3, 4]] false (.ends 1)] =
      some { announced := 4, bytes := [1, 2] } ∧
    toCached (some "v") [1, 2] = ⟨[1, 2], some "v"⟩ ∧
    (readingThrough [[1, 2], [3, 4]] false (.ends 1)).holder.BodyChecked :=
  ⟨rfl, rfl, fun _ => rfl⟩

end PeerTransfer

end Daemon
end Pacer
