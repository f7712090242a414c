import Pacer.Daemon.PeerTransfer
import Pacer.Foundation.Table
import Pacer.Foundation.Tiling
import Mathlib.Algebra.Order.BigOperators.Group.List
import Mathlib.Algebra.Order.Group.Nat

/-!
# Delivery into client memory

A GET that names memory of the client's own is answered by placing the covering
chunks' windows into that memory and reporting how many bytes were delivered.
Each window is resolved from the first source that has it: the local tier, the
node's own fill, a peer that writes into the memory itself, a peer that streams,
the backend.

Windows are disjoint, so their placements are taken one after another in the
order in which they complete.  A WRITE that fails may have left any bytes in its
own window.  One whose sender stopped waiting for it is still posted: any part of
it lands when it will, also after the window has been placed from elsewhere.
-/

namespace Pacer
namespace Daemon

open Foundation
open Cache

namespace Delivery

open PeerTransfer

structure ChunkWindow where
  idx : Nat
  dstAt : Nat
  srcAt : Nat
  len : Nat
  whole : Bool
deriving DecidableEq, Repr

def windowsFrom (chunk : ChunkConfig) (objectLen start stop : Nat) :
    List Nat -> List ChunkWindow
  | [] => []
  | idx :: rest =>
    match chunk.chunkBounds idx objectLen with
    | none => []
    | some (first, last) =>
      let lo := max start first
      let hi := min stop last
      if hi ≤ lo then windowsFrom chunk objectLen start stop rest
      else
        { idx := idx, dstAt := lo - start, srcAt := lo - first,
          len := hi - lo,
          whole := decide (lo = first ∧ hi = last) } ::
            windowsFrom chunk objectLen start stop rest

def chunkWindows (chunk : ChunkConfig) (objectLen start stop : Nat) :
    List ChunkWindow :=
  windowsFrom chunk objectLen start stop (chunk.coveringChunks start stop)

/-!
## Placing one window
-/

/-- What comes of writing into the client's memory.  Only memory the client
registered itself declines, or has a WRITE that failed still `posted`. -/
inductive Write where
  | lands
  | declines (transient : Bool)
  | fails (landed : Bytes) (posted : Bool)
deriving DecidableEq, Repr

inductive Placement where
  | placed (bytes : Nat)
  | declined (transient : Bool)
deriving DecidableEq, Repr

abbrev Memory := Nat -> Option UInt8

/-- A WRITE of `body` to a place in the client's memory that nobody waits for. -/
structure Posted where
  dstAt : Nat
  body : Bytes
deriving DecidableEq, Repr

structure Client where
  mem : Memory
  posted : List Posted

namespace Client

def write (client : Client) (dstAt : Nat) (xs : Bytes) : Client :=
  { client with mem := blit client.mem dstAt xs }

def post (client : Client) (dstAt : Nat) (body : Bytes) : Client :=
  { client with posted := client.posted ++ [⟨dstAt, body⟩] }

end Client

def ChunkWindow.slice (window : ChunkWindow) (body : Bytes) : Bytes :=
  span body (min window.srcAt body.length)
    (min (window.srcAt + window.len) body.length)

/-- Put this window's slice of a body into the client's memory.  `token` is
memory the client registered; other memory is mapped and never declines. -/
def placeWindow (token : Bool) (write : Write) (window : ChunkWindow)
    (body : Bytes) (client : Client) : Client × Option Placement :=
  let src := window.slice body
  match write with
  | .lands => (client.write window.dstAt src, some (.placed src.length))
  | .declines transient =>
    if token then (client, some (.declined transient))
    else (client.write window.dstAt src, some (.placed src.length))
  | .fails landed posted =>
    let left := client.write window.dstAt (landed.take src.length)
    (if token ∧ posted then left.post window.dstAt src else left, none)

/-- What comes of asking a holder to WRITE.  If the request fails or the holder
streams instead, its WRITE of the body it has may still be `posted`. -/
inductive HolderWrite where
  | skipped
  | fails (landed : Bytes) (posted : Option Bytes)
  | lands (body : Bytes) (eTag : Option String)
  | streams (landed : Bytes) (posted : Option Bytes) (source : Source)
      (write : Write)
deriving DecidableEq, Repr

structure Peer where
  holderWrite : HolderWrite
  source : Source
  write : Write
deriving DecidableEq, Repr

def collected (eTag : Option String) (source : Source) : Option Bytes :=
  match source.fetchBlob with
  | .error _ => none
  | .ok blob =>
    if sameVersion eTag blob.eTag then
      match collectBlob blob with
      | .error _ => none
      | .ok bytes => some bytes
    else none

def placed (result : Client × Option Placement) : Client × Option Nat :=
  match result.2 with
  | some (.placed bytes) => (result.1, some bytes)
  | _ => (result.1, none)

/-- A holder's WRITE is given up with some of it landed and, it may be, still
posted.  A holder posts no body that is larger than what it is offered. -/
def Client.abandon (client : Client) (window : ChunkWindow) (landed : Bytes)
    (posted : Option Bytes) : Client :=
  let left := client.write window.dstAt (landed.take window.len)
  match posted with
  | none => left
  | some body =>
    if window.len < body.length then left else left.post window.dstAt body

def holderWritesClient (token : Bool) (eTag : Option String) (peer : Peer)
    (window : ChunkWindow) (client : Client) : Client × Option Nat :=
  match peer.holderWrite with
  | .skipped => (client, none)
  | .fails landed posted => (client.abandon window landed posted, none)
  | .lands body tag =>
    if window.len < body.length then (client, none)
    else
      (client.write window.dstAt body,
        if sameVersion eTag tag then some body.length else none)
  | .streams landed posted source write =>
    let left := client.abandon window landed posted
    match collected eTag source with
    | none => (left, none)
    | some bytes => placed (placeWindow token write window bytes left)

/-- Deliver a window from the first peer that has it.  A window that a peer's
bytes could not be placed for goes to the backend. -/
def deliverFromPeer (token : Bool) (eTag : Option String)
    (window : ChunkWindow) : List Peer -> Client -> Client × Option Nat
  | [], client => (client, none)
  | peer :: rest, client =>
    let tried :=
      if window.whole then holderWritesClient token eTag peer window client
      else (client, none)
    match tried.2 with
    | some bytes => (tried.1, some bytes)
    | none =>
      match collected eTag peer.source with
      | none => deliverFromPeer token eTag window rest tried.1
      | some bytes =>
        placed (placeWindow token peer.write window bytes tried.1)

/-- What the sources answer to one attempt at a window, and what comes of
writing a copy that is on this node. -/
structure Attempt where
  cached : Option Bytes
  owns : Bool
  owned : Option Bytes
  peers : List Peer
  backend : Option Bytes
  write : Write

def deliverWindow (token : Bool) (eTag : Option String)
    (window : ChunkWindow) (attempt : Attempt) (client : Client) :
    Client × Option Placement :=
  match attempt.cached with
  | some body => placeWindow token attempt.write window body client
  | none =>
    if attempt.owns then
      match attempt.owned with
      | none => (client, none)
      | some body => placeWindow token attempt.write window body client
    else
      let peer := deliverFromPeer token eTag window attempt.peers client
      match peer.2 with
      | some bytes => (peer.1, some (.placed bytes))
      | none =>
        match attempt.backend with
        | none => (peer.1, none)
        | some body => placeWindow token attempt.write window body peer.1

def declineAttempts : Nat := 3

def placeWithRetry (token : Bool) (eTag : Option String)
    (window : ChunkWindow) (attempts : Nat -> Attempt) : Nat -> Client ->
    Client × Option Placement
  | 0, client => (client, some (.declined false))
  | left + 1, client =>
    let result := deliverWindow token eTag window (attempts left) client
    match result.2 with
    | some (.declined transient) =>
      if transient = false ∨ left = 0 then result
      else placeWithRetry token eTag window attempts left result.1
    | _ => result

/-!
## A request
-/

inductive Outcome where
  | failed
  | degraded
  | landed (client : Client) (bytes : List Nat)

/-- Place the windows in the order in which they complete; one that fails or is
declined for good ends the run. -/
def runDelivery (token : Bool) (eTag : Option String)
    (attempts : Nat -> Nat -> Attempt) : List ChunkWindow -> Client ->
    List Nat -> Outcome
  | [], client, landed => .landed client landed
  | window :: rest, client, landed =>
    let result := placeWithRetry token eTag window (attempts window.idx)
      declineAttempts client
    match result.2 with
    | none => .failed
    | some (.declined _) => .degraded
    | some (.placed bytes) =>
      runDelivery token eTag attempts rest result.1 (landed ++ [bytes])

structure Piece where
  posted : Posted
  lo : Nat
  hi : Nat
deriving DecidableEq, Repr

def Piece.land (mem : Memory) (piece : Piece) : Memory :=
  blit mem (piece.posted.dstAt + piece.lo)
    (span piece.posted.body piece.lo piece.hi)

/-- What the world answers to one request: the attempts at each chunk, the order
in which the windows complete, and what lands of the WRITEs that are left posted
until the client reads its memory. -/
structure Env where
  attempts : Nat -> Nat -> Attempt
  order : List ChunkWindow -> List ChunkWindow
  reorders : forall windows, (order windows).Perm windows
  late : List Posted -> List Piece
  posts : forall posted piece, piece ∈ late posted -> piece.posted ∈ posted

inductive Answer where
  | rejected
  | failed
  | body
  | delivered (bytes : Nat) (mem : Memory)

/-- A delivered answer comes with the memory as the client finds it. -/
def deliver (chunk : ChunkConfig) (token : Bool) (eTag : Option String)
    (objectLen start stop windowLen : Nat) (env : Env) : Answer :=
  if windowLen < stop - start then .rejected
  else
    match runDelivery token eTag env.attempts
        (env.order (chunkWindows chunk objectLen start stop))
        { mem := fun _ => none, posted := [] } [] with
    | .failed => .failed
    | .degraded => .body
    | .landed client landed =>
      .delivered landed.sum
        ((env.late client.posted).foldl Piece.land client.mem)

/-!
## The windows tile the range
-/

variable {window : ChunkWindow} {body : Bytes}

section Windows

variable {chunk : ChunkConfig} {objectLen start stop : Nat}

theorem chunkBounds_of_mul_lt {idx : Nat}
    (h : idx * chunk.chunkSize < objectLen) :
    chunk.chunkBounds idx objectLen =
      some (idx * chunk.chunkSize,
        min (idx * chunk.chunkSize + chunk.chunkSize) objectLen) := by
  unfold ChunkConfig.chunkBounds
  dsimp only
  rw [if_neg]
  lia

def windowOf (chunk : ChunkConfig) (objectLen start stop idx : Nat) :
    ChunkWindow :=
  let first := idx * chunk.chunkSize
  let last := min (first + chunk.chunkSize) objectLen
  { idx := idx, dstAt := max start first - start,
    srcAt := max start first - first,
    len := min stop last - max start first,
    whole := decide (max start first = first ∧ min stop last = last) }

theorem windowsFrom_cons (hstop : stop ≤ objectLen) (hstart : start < stop)
    {idx : Nat} (hlo : start < idx * chunk.chunkSize + chunk.chunkSize)
    (hhi : idx * chunk.chunkSize < stop) (rest : List Nat) :
    windowsFrom chunk objectLen start stop (idx :: rest) =
      windowOf chunk objectLen start stop idx ::
        windowsFrom chunk objectLen start stop rest := by
  have hpos := chunk.positive
  rw [windowsFrom, chunkBounds_of_mul_lt (Nat.lt_of_lt_of_le hhi hstop)]
  dsimp only
  rw [if_neg]
  · rfl
  · lia

theorem tiles_windowsFrom (hstop : stop ≤ objectLen) (hstart : start < stop)
    (idx count : Nat)
    (hlo : start < idx * chunk.chunkSize + chunk.chunkSize)
    (hhi : (idx + count) * chunk.chunkSize < stop) :
    Tiles ChunkWindow.dstAt ChunkWindow.len
      (max start (idx * chunk.chunkSize) - start)
      (windowsFrom chunk objectLen start stop (List.range' idx (count + 1)))
      (min stop ((idx + count + 1) * chunk.chunkSize) - start) := by
  have hpos := chunk.positive
  induction count generalizing idx with
  | zero =>
    rw [Nat.add_zero] at hhi ⊢
    rw [List.range'_succ, windowsFrom_cons hstop hstart hlo hhi]
    rw [Nat.add_one_mul]
    have hend : min stop (idx * chunk.chunkSize + chunk.chunkSize) - start =
        (windowOf chunk objectLen start stop idx).dstAt +
          (windowOf chunk objectLen start stop idx).len := by
      unfold windowOf
      dsimp only
      lia
    rw [hend]
    exact Tiles.cons (p := windowOf chunk objectLen start stop idx)
      (Tiles.nil _)
  | succ count ih =>
    have hnext : (idx + 1) * chunk.chunkSize =
        idx * chunk.chunkSize + chunk.chunkSize := Nat.add_one_mul _ _
    have hcount : idx + (count + 1) = idx + 1 + count := by lia
    have htail := ih (idx + 1) (by lia) (by rw [← hcount]; exact hhi)
    rw [List.range'_succ, windowsFrom_cons hstop hstart hlo (by lia), hcount]
    have hmid : max start ((idx + 1) * chunk.chunkSize) - start =
        (windowOf chunk objectLen start stop idx).dstAt +
          (windowOf chunk objectLen start stop idx).len := by
      unfold windowOf
      dsimp only
      lia
    rw [hmid] at htail
    exact Tiles.cons htail

theorem tiles_chunkWindows (hstart : start ≤ stop) (hstop : stop ≤ objectLen) :
    Tiles ChunkWindow.dstAt ChunkWindow.len 0
      (chunkWindows chunk objectLen start stop) (stop - start) := by
  have hpos := chunk.positive
  unfold chunkWindows ChunkConfig.coveringChunks ChunkConfig.covering
  rcases Nat.eq_or_lt_of_le hstart with rfl | hlt
  · rw [if_pos (Nat.le_refl _)]
    dsimp only
    rw [Nat.sub_self, Nat.sub_self]
    exact Tiles.nil 0
  · rw [if_neg (Nat.not_le.mpr hlt)]
    dsimp only
    have hfirst : start / chunk.chunkSize * chunk.chunkSize ≤ start :=
      Nat.div_mul_le_self _ _
    have hlo : start < start / chunk.chunkSize * chunk.chunkSize +
        chunk.chunkSize := Nat.lt_div_mul_add hpos
    have hlast : (stop - 1) / chunk.chunkSize * chunk.chunkSize ≤ stop - 1 :=
      Nat.div_mul_le_self _ _
    have hend : stop - 1 < (stop - 1) / chunk.chunkSize * chunk.chunkSize +
        chunk.chunkSize := Nat.lt_div_mul_add hpos
    have hle : start / chunk.chunkSize ≤ (stop - 1) / chunk.chunkSize :=
      Nat.div_le_div_right (by lia)
    have htiles := tiles_windowsFrom hstop hlt (start / chunk.chunkSize)
      ((stop - 1) / chunk.chunkSize - start / chunk.chunkSize) hlo
      (by rw [Nat.add_sub_cancel' hle]; lia)
    rw [Nat.add_sub_cancel' hle, Nat.max_eq_left hfirst, Nat.sub_self,
      Nat.add_one_mul, Nat.min_eq_left (by lia)] at htiles
    have hcount : (stop - 1) / chunk.chunkSize + 1 - start / chunk.chunkSize =
        (stop - 1) / chunk.chunkSize - start / chunk.chunkSize + 1 := by
      lia
    rw [hcount]
    exact htiles

theorem mem_windowsFrom {indices : List Nat}
    (h : window ∈ windowsFrom chunk objectLen start stop indices) :
    0 < window.len ∧
      window = windowOf chunk objectLen start stop window.idx := by
  induction indices with
  | nil => cases h
  | cons idx rest ih =>
    rw [windowsFrom] at h
    split at h
    · cases h
    rename_i first last hbounds
    dsimp only at h
    split at h
    · exact ih h
    · rename_i hsome
      rcases List.mem_cons.mp h with rfl | hrest
      · unfold ChunkConfig.chunkBounds at hbounds
        dsimp only at hbounds
        split at hbounds
        · split at hbounds
          · cases hbounds
            lia
          · cases hbounds
        · cases hbounds
          refine ⟨?_, rfl⟩
          dsimp only
          lia
      · exact ih hrest

theorem srcAt_of_whole (h : window ∈ chunkWindows chunk objectLen start stop)
    (hwhole : window.whole = true) : window.srcAt = 0 := by
  rw [(mem_windowsFrom h).right] at hwhole ⊢
  unfold windowOf at hwhole ⊢
  dsimp only at hwhole ⊢
  rcases of_decide_eq_true hwhole with ⟨hfirst, _⟩
  lia

end Windows

/-!
## What a placement leaves
-/

def Within (window : ChunkWindow) (mem mem' : Memory) : Prop :=
  forall i, i < window.dstAt ∨ window.dstAt + window.len ≤ i ->
    mem' i = mem i

def Holds (window : ChunkWindow) (body : Bytes) (mem : Memory) : Prop :=
  forall k, k < (window.slice body).length ->
    mem (window.dstAt + k) = (window.slice body)[k]?

/-- A WRITE left posted into a window: of a copy that was to be placed there, or
of a body that a holder left. -/
structure Leaves (copy left : Bytes -> Prop) (window : ChunkWindow)
    (posted : Posted) : Prop where
  dstAt : posted.dstAt = window.dstAt
  inside : posted.body.length ≤ window.len
  body : (exists body, copy body ∧ posted.body = window.slice body) ∨
    (window.whole = true ∧ left posted.body)

structure Placing (copy left : Bytes -> Prop) (window : ChunkWindow)
    (client client' : Client) (result : Option Nat) : Prop where
  within : Within window client.mem client'.mem
  leaves : forall posted, posted ∈ client'.posted ->
    posted ∈ client.posted ∨ Leaves copy left window posted
  holds : forall bytes, result = some bytes -> exists body, copy body ∧
    bytes = (window.slice body).length ∧ Holds window body client'.mem

def Placement.bytes : Placement -> Option Nat
  | .placed bytes => some bytes
  | .declined _ => none

def HolderWrite.posted : HolderWrite -> Option Bytes
  | .fails _ posted | .streams _ posted _ _ => posted
  | _ => none

/-- The copies a peer can place from, and the bodies it can leave posted. -/
structure Peer.From (eTag : Option String) (copy left : Bytes -> Prop)
    (peer : Peer) : Prop where
  lands : forall body tag, peer.holderWrite = .lands body tag ->
    sameVersion eTag tag = true -> copy body
  streams : forall landed posted source write,
    peer.holderWrite = .streams landed posted source write ->
    source.taken eTag = true -> copy source.received.flatten
  posted : forall body, peer.holderWrite.posted = some body -> left body
  source : peer.source.taken eTag = true -> copy peer.source.received.flatten

structure Attempt.From (eTag : Option String) (copy left : Bytes -> Prop)
    (attempt : Attempt) : Prop where
  cached : forall body, attempt.cached = some body -> copy body
  owned : forall body, attempt.owned = some body -> copy body
  peers : forall peer, peer ∈ attempt.peers -> peer.From eTag copy left
  backend : forall body, attempt.backend = some body -> copy body

section Placing

variable {token : Bool} {eTag : Option String} {window : ChunkWindow}
  {copy left : Bytes -> Prop} {mem mem' mem'' : Memory}
  {client client' client'' : Client}

theorem Within.refl (window : ChunkWindow) (mem : Memory) :
    Within window mem mem := fun _ _ => rfl

theorem Within.trans (h : Within window mem mem')
    (h' : Within window mem' mem'') : Within window mem mem'' := by
  intro i hi
  rw [h' i hi, h i hi]

theorem within_blit {xs : Bytes} (h : xs.length ≤ window.len) :
    Within window mem (blit mem window.dstAt xs) := by
  intro i hi
  apply blit_of_outside
  lia

theorem length_slice_le (window : ChunkWindow) (body : Bytes) :
    (window.slice body).length ≤ window.len := by
  unfold ChunkWindow.slice
  rw [length_span (Nat.min_le_right _ _)]
  lia

theorem holds_blit (window : ChunkWindow) (body : Bytes) (mem : Memory) :
    Holds window body (blit mem window.dstAt (window.slice body)) :=
  fun _ => blit_add

theorem slice_eq_self (hsrc : window.srcAt = 0)
    (hlen : body.length ≤ window.len) : window.slice body = body := by
  unfold ChunkWindow.slice
  rw [hsrc, Nat.zero_min, Nat.zero_add, Nat.min_eq_right hlen, span_zero,
    List.take_length]

theorem Placing.same (client : Client) :
    Placing copy left window client client none := by
  refine ⟨Within.refl window client.mem, ?_, ?_⟩
  · exact fun _ => Or.inl
  · intro bytes hbytes
    cases hbytes

theorem Placing.trans {first result : Option Nat}
    (h : Placing copy left window client client' first)
    (h' : Placing copy left window client' client'' result) :
    Placing copy left window client client'' result := by
  refine ⟨h.within.trans h'.within, ?_, h'.holds⟩
  intro posted hposted
  rcases h'.leaves posted hposted with hbefore | hleft
  · exact h.leaves posted hbefore
  · exact Or.inr hleft

theorem Placing.forget {result : Option Nat}
    (h : Placing copy left window client client' result) :
    Placing copy left window client client' none := by
  refine ⟨h.within, h.leaves, ?_⟩
  intro bytes hbytes
  cases hbytes

theorem placing_write {xs : Bytes} (h : xs.length ≤ window.len) :
    Placing copy left window client (client.write window.dstAt xs) none := by
  refine ⟨within_blit h, ?_, ?_⟩
  · exact fun _ => Or.inl
  · intro bytes hbytes
    cases hbytes

theorem placing_post {posted : Bytes}
    (h : Leaves copy left window ⟨window.dstAt, posted⟩) :
    Placing copy left window client (client.post window.dstAt posted) none := by
  refine ⟨Within.refl window client.mem, ?_, ?_⟩
  · intro other hother
    rcases List.mem_append.mp hother with hbefore | hnew
    · exact Or.inl hbefore
    · cases List.mem_singleton.mp hnew
      exact Or.inr h
  · intro bytes hbytes
    cases hbytes

theorem placing_take {limit : Nat} (h : limit ≤ window.len) (landed : Bytes) :
    Placing copy left window client
      (client.write window.dstAt (landed.take limit)) none := by
  apply placing_write
  rw [List.length_take]
  exact Nat.le_trans (Nat.min_le_left _ _) h

theorem placing_placeWindow (hcopy : copy body) (write : Write) :
    Placing copy left window client
      (placeWindow token write window body client).1
      ((placeWindow token write window body client).2.bind
        Placement.bytes) := by
  have hlen := length_slice_le window body
  have hplaced : Placing copy left window client
      (client.write window.dstAt (window.slice body))
      (some (window.slice body).length) := by
    refine ⟨within_blit hlen, fun _ => Or.inl, ?_⟩
    intro bytes hbytes
    cases hbytes
    exact ⟨body, hcopy, rfl, holds_blit window body client.mem⟩
  unfold placeWindow
  cases write with
  | lands => exact hplaced
  | declines transient =>
    cases token with
    | false => exact hplaced
    | true => exact Placing.same client
  | fails landed posted =>
    dsimp only
    split
    · apply (placing_take hlen landed).trans
      exact placing_post ⟨rfl, hlen, Or.inl ⟨body, hcopy, rfl⟩⟩
    · exact placing_take hlen landed

theorem placing_abandon {posted : Option Bytes} (hwhole : window.whole = true)
    (hleft : forall body, posted = some body -> left body) (landed : Bytes) :
    Placing copy left window client (client.abandon window landed posted)
      none := by
  have hlanded : Placing copy left window client
      (client.write window.dstAt (landed.take window.len)) none :=
    placing_take (Nat.le_refl _) landed
  unfold Client.abandon
  cases posted with
  | none => exact hlanded
  | some body =>
    dsimp only
    split
    · exact hlanded
    · rename_i hfits
      apply hlanded.trans
      exact placing_post ⟨rfl, Nat.not_lt.mp hfits,
        Or.inr ⟨hwhole, hleft body rfl⟩⟩

theorem placed_eq (result : Client × Option Placement) :
    placed result = (result.1, result.2.bind Placement.bytes) := by
  rcases result with ⟨client, _ | placement⟩
  · rfl
  · cases placement with
    | placed bytes => rfl
    | declined transient => rfl

theorem collected_eq_some {source : Source} {bytes : Bytes}
    (h : collected eTag source = some bytes) :
    source.taken eTag = true ∧ bytes = source.received.flatten := by
  unfold collected at h
  rcases fetchBlob_cases source with ⟨⟨e, herror⟩, _⟩ |
    ⟨blob, hblob, hsome, _, htag, hcollect⟩
  · rw [herror] at h
    cases h
  rw [hblob] at h
  dsimp only at h
  split at h
  · rename_i hversion
    rw [hcollect] at h
    cases hclean : source.endsCleanly with
    | false =>
      rw [hclean] at h
      cases h
    | true =>
      rw [hclean] at h
      cases h
      refine ⟨?_, rfl⟩
      unfold Source.taken
      rw [hclean, List.isEmpty_eq_false_iff.mpr hsome, ← htag, hversion]
      rfl
  · cases h

theorem placing_holderWritesClient {peer : Peer}
    (hwhole : window.whole = true) (hsrc : window.srcAt = 0)
    (hpeer : peer.From eTag copy left) :
    Placing copy left window client
      (holderWritesClient token eTag peer window client).1
      (holderWritesClient token eTag peer window client).2 := by
  have hposted := hpeer.posted
  unfold holderWritesClient
  cases hholder : peer.holderWrite with
  | skipped => exact Placing.same client
  | fails landed posted =>
    rw [hholder] at hposted
    exact placing_abandon hwhole hposted landed
  | lands body tag =>
    dsimp only
    split
    · exact Placing.same client
    · rename_i hfits
      have hslice := slice_eq_self hsrc (Nat.not_lt.mp hfits)
      refine ⟨within_blit (Nat.not_lt.mp hfits), fun _ => Or.inl, ?_⟩
      intro bytes hbytes
      dsimp only at hbytes
      split at hbytes
      · rename_i hversion
        cases hbytes
        refine ⟨body, hpeer.lands body tag hholder hversion, ?_, ?_⟩
        · rw [hslice]
        · have hheld := holds_blit window body client.mem
          rw [hslice] at hheld
          exact hheld
      · cases hbytes
  | streams landed posted source write =>
    rw [hholder] at hposted
    have habandon : Placing copy left window client
        (client.abandon window landed posted) none :=
      placing_abandon hwhole hposted landed
    dsimp only
    split
    · exact habandon
    · rename_i bytes hcollected
      rcases collected_eq_some hcollected with ⟨htaken, rfl⟩
      rw [placed_eq]
      have hcopy := hpeer.streams landed posted source write hholder htaken
      exact habandon.trans (placing_placeWindow hcopy write)

section

variable (hwhole : window.whole = true -> window.srcAt = 0)

include hwhole

theorem placing_deliverFromPeer {peers : List Peer}
    (hpeers : forall peer, peer ∈ peers -> peer.From eTag copy left) :
    Placing copy left window client
      (deliverFromPeer token eTag window peers client).1
      (deliverFromPeer token eTag window peers client).2 := by
  induction peers generalizing client with
  | nil => exact Placing.same client
  | cons peer rest ih =>
    have hpeer := hpeers peer List.mem_cons_self
    have hrest := fun other hother =>
      hpeers other (List.mem_cons_of_mem _ hother)
    have htried : Placing copy left window client
        (if window.whole = true then
          holderWritesClient token eTag peer window client
          else (client, none)).1
        (if window.whole = true then
          holderWritesClient token eTag peer window client
          else (client, none)).2 := by
      split
      · rename_i hwindow
        exact placing_holderWritesClient hwindow (hwhole hwindow) hpeer
      · exact Placing.same client
    unfold deliverFromPeer
    dsimp only
    split
    · rename_i bytes hbytes
      rw [hbytes] at htried
      exact htried
    · split
      · exact htried.trans (ih hrest)
      · rename_i bytes hcollected
        rcases collected_eq_some hcollected with ⟨htaken, rfl⟩
        rw [placed_eq]
        exact htried.trans
          (placing_placeWindow (hpeer.source htaken) peer.write)

theorem placing_deliverWindow {attempt : Attempt}
    (hattempt : attempt.From eTag copy left) :
    Placing copy left window client
      (deliverWindow token eTag window attempt client).1
      ((deliverWindow token eTag window attempt client).2.bind
        Placement.bytes) := by
  unfold deliverWindow
  cases hcached : attempt.cached with
  | some body => exact placing_placeWindow (hattempt.cached body hcached) _
  | none =>
    dsimp only
    split
    · cases howned : attempt.owned with
      | none => exact Placing.same client
      | some body => exact placing_placeWindow (hattempt.owned body howned) _
    · have hpeer : Placing copy left window client
          (deliverFromPeer token eTag window attempt.peers client).1
          (deliverFromPeer token eTag window attempt.peers client).2 :=
        placing_deliverFromPeer hwhole hattempt.peers
      split
      · rename_i bytes hbytes
        rw [hbytes] at hpeer
        exact hpeer
      · cases hbackend : attempt.backend with
        | none => exact hpeer.forget
        | some body =>
          exact hpeer.trans
            (placing_placeWindow (hattempt.backend body hbackend) _)

theorem placing_placeWithRetry {attempts : Nat -> Attempt}
    (hattempts : forall k, (attempts k).From eTag copy left) (tries : Nat) :
    Placing copy left window client
      (placeWithRetry token eTag window attempts tries client).1
      ((placeWithRetry token eTag window attempts tries client).2.bind
        Placement.bytes) := by
  induction tries generalizing client with
  | zero => exact Placing.same client
  | succ tries ih =>
    have hwindow : Placing copy left window client
        (deliverWindow token eTag window (attempts tries) client).1
        ((deliverWindow token eTag window (attempts tries) client).2.bind
          Placement.bytes) :=
      placing_deliverWindow hwhole (hattempts tries)
    unfold placeWithRetry
    dsimp only
    split
    · split
      · exact hwindow
      · exact hwindow.trans ih
    · exact hwindow

end

end Placing

/-!
## What a run leaves
-/

structure Landed (copies : Nat -> Bytes -> Prop) (windows : List ChunkWindow)
    (mem : Memory) (parts : List (ChunkWindow × Bytes)) : Prop where
  windows : parts.map Prod.fst = windows
  copied : forall part, part ∈ parts -> copies part.1.idx part.2
  holds : forall part, part ∈ parts -> Holds part.1 part.2 mem

def reported (part : ChunkWindow × Bytes) : Nat :=
  (part.1.slice part.2).length

variable {parts : List (ChunkWindow × Bytes)} {mem : Memory}

section Runs

variable {token : Bool} {eTag : Option String}
  {copies left : Nat -> Bytes -> Prop} {attempts : Nat -> Nat -> Attempt}

variable {windows : List ChunkWindow}

theorem Landed.cons (h : Landed copies windows mem parts) {window : ChunkWindow}
    {body : Bytes} (hcopy : copies window.idx body)
    (hheld : Holds window body mem) :
    Landed copies (window :: windows) mem ((window, body) :: parts) := by
  constructor
  · rw [List.map_cons, h.windows]
  · intro part hpart
    rcases List.mem_cons.mp hpart with rfl | hother
    · exact hcopy
    · exact h.copied part hother
  · intro part hpart
    rcases List.mem_cons.mp hpart with rfl | hother
    · exact hheld
    · exact h.holds part hother

theorem landed_of_runDelivery
    (hattempts : forall idx k,
      (attempts idx k).From eTag (copies idx) (left idx))
    (hwhole : forall window, window ∈ windows -> window.whole = true ->
      window.srcAt = 0)
    (hapart : windows.Pairwise (Apart ChunkWindow.dstAt ChunkWindow.len))
    {client client' : Client} {landed bytes : List Nat}
    (h : runDelivery token eTag attempts windows client landed =
      .landed client' bytes) :
    (exists parts, bytes = landed ++ parts.map reported ∧
      Landed copies windows client'.mem parts) ∧
    (forall posted, posted ∈ client'.posted -> posted ∈ client.posted ∨
      exists window, window ∈ windows ∧
        Leaves (copies window.idx) (left window.idx) window posted) ∧
    forall i, (forall window, window ∈ windows ->
      i < window.dstAt ∨ window.dstAt + window.len ≤ i) ->
      client'.mem i = client.mem i := by
  induction windows generalizing client landed with
  | nil =>
    cases h
    refine ⟨⟨[], (List.append_nil _).symm, rfl, ?_, ?_⟩, fun _ => Or.inl,
      fun _ _ => rfl⟩
    · intro part hpart
      cases hpart
    · intro part hpart
      cases hpart
  | cons window rest ih =>
    rw [List.pairwise_cons] at hapart
    rcases hapart with ⟨hfirst, hrest⟩
    have hplacing : Placing (copies window.idx) (left window.idx) window client
        (placeWithRetry token eTag window (attempts window.idx)
          declineAttempts client).1
        ((placeWithRetry token eTag window (attempts window.idx)
          declineAttempts client).2.bind Placement.bytes) :=
      placing_placeWithRetry (hwhole window List.mem_cons_self)
        (hattempts window.idx) declineAttempts
    unfold runDelivery at h
    dsimp only at h
    split at h
    · cases h
    · cases h
    rename_i placed hplaced
    rcases hplacing.holds placed (by rw [hplaced]; rfl) with
      ⟨body, hcopy, rfl, hheld⟩
    rcases ih (fun other hother =>
      hwhole other (List.mem_cons_of_mem _ hother)) hrest h with
      ⟨⟨parts, rfl, hlanded⟩, hleaves, hframe⟩
    refine ⟨?_, ?_, ?_⟩
    · refine ⟨(window, body) :: parts, ?_, hlanded.cons hcopy ?_⟩
      · rw [List.append_assoc]
        rfl
      · intro k hk
        rw [hframe]
        · exact hheld k hk
        · intro other hother
          have hapart := hfirst other hother
          have hlen := length_slice_le window body
          unfold Apart at hapart
          lia
    · intro posted hposted
      rcases hleaves posted hposted with hmid | ⟨other, hother, hleft⟩
      · rcases hplacing.leaves posted hmid with hbefore | hleft
        · exact Or.inl hbefore
        · exact Or.inr ⟨window, List.mem_cons_self, hleft⟩
      · exact Or.inr ⟨other, List.mem_cons_of_mem _ hother, hleft⟩
    · intro i hi
      rw [hframe i (fun other hother =>
        hi other (List.mem_cons_of_mem _ hother))]
      exact hplacing.within i (hi window List.mem_cons_self)

end Runs

/-!
## All or nothing
-/

def Env.From (eTag : Option String) (copies left : Nat -> Bytes -> Prop)
    (env : Env) : Prop :=
  forall idx k, (env.attempts idx k).From eTag (copies idx) (left idx)

/-- A body has the object's bytes where the window takes them from. -/
def Fits (xs : Bytes) (start : Nat) (window : ChunkWindow) (body : Bytes) :
    Prop :=
  window.slice body =
    span xs (start + window.dstAt) (start + window.dstAt + window.len)

/-- A body of a holder that goes into the window at all begins like the object's
bytes there. -/
def Harmless (xs : Bytes) (start : Nat) (window : ChunkWindow) (body : Bytes) :
    Prop :=
  body.length ≤ window.len -> body <+:
    span xs (start + window.dstAt) (start + window.dstAt + window.len)

section AllOrNothing

variable {chunk : ChunkConfig} {token : Bool} {eTag : Option String}
  {xs : Bytes} {start stop windowLen : Nat}
  {copies left : Nat -> Bytes -> Prop} {env : Env}

variable {n : Nat}

/-- What a delivered answer stands on: the run's memory, and the WRITEs it left
posted. -/
theorem landed_of_deliver (hstart : start ≤ stop) (hstop : stop ≤ xs.length)
    (henv : env.From eTag copies left) {mem : Memory}
    (h : deliver chunk token eTag xs.length start stop windowLen env =
      .delivered n mem) :
    exists (client : Client) (parts : List (ChunkWindow × Bytes)),
      n = (parts.map reported).sum ∧
      mem = (env.late client.posted).foldl Piece.land client.mem ∧
      Landed copies (env.order (chunkWindows chunk xs.length start stop))
        client.mem parts ∧
      forall posted, posted ∈ client.posted -> exists window,
        window ∈ chunkWindows chunk xs.length start stop ∧
        Leaves (copies window.idx) (left window.idx) window posted := by
  have hperm := env.reorders (chunkWindows chunk xs.length start stop)
  have htiles := @tiles_chunkWindows chunk xs.length start stop hstart hstop
  unfold deliver at h
  split at h
  · cases h
  split at h
  · cases h
  · cases h
  rename_i client bytes hrun
  cases h
  rcases landed_of_runDelivery henv
    (fun window hwindow => srcAt_of_whole (hperm.mem_iff.mp hwindow))
    (hperm.symm.pairwise htiles.pairwise Apart.symm) hrun with
    ⟨⟨parts, hbytes, hlanded⟩, hleaves, _⟩
  rw [List.nil_append] at hbytes
  refine ⟨client, parts, congrArg List.sum hbytes, rfl, hlanded, ?_⟩
  intro posted hposted
  rcases hleaves posted hposted with hbefore | ⟨window, hwindow, hleft⟩
  · cases hbefore
  · exact ⟨window, hperm.mem_iff.mp hwindow, hleft⟩

section

variable (h : Landed copies (env.order (chunkWindows chunk xs.length start stop))
      mem parts)

include h

theorem Landed.perm :
    (parts.map Prod.fst).Perm (chunkWindows chunk xs.length start stop) := by
  rw [h.windows]
  exact env.reorders _

theorem Landed.exists_part {window : ChunkWindow}
    (hwindow : window ∈ chunkWindows chunk xs.length start stop) :
    exists body, (window, body) ∈ parts := by
  rcases List.mem_map.mp (h.perm.mem_iff.mpr hwindow) with ⟨part, hpart, rfl⟩
  exact ⟨part.2, hpart⟩

theorem Landed.sum_len (hstart : start ≤ stop) (hstop : stop ≤ xs.length) :
    (parts.map fun part => part.1.len).sum = stop - start := by
  have htiles := @tiles_chunkWindows chunk xs.length start stop hstart hstop
  have hsum := htiles.sum
  rw [Nat.zero_add] at hsum
  calc (parts.map fun part => part.1.len).sum
      = ((parts.map Prod.fst).map ChunkWindow.len).sum := by
        rw [List.map_map]
        rfl
    _ = ((chunkWindows chunk xs.length start stop).map
          ChunkWindow.len).sum := (h.perm.map _).sum_nat
    _ = stop - start := hsum

end

theorem length_of_fits (hstop : stop ≤ xs.length) {window : ChunkWindow}
    {body : Bytes} (hend : start + window.dstAt + window.len ≤ stop)
    (h : Fits xs start window body) :
    (window.slice body).length = window.len := by
  rw [h, length_span (Nat.le_trans hend hstop)]
  lia

theorem getElem?_span_add {lo hi k : Nat} (hk : lo + k < hi) :
    (span xs lo hi)[k]? = xs[lo + k]? := by
  unfold span
  rw [List.getElem?_drop, List.getElem?_take_of_lt hk]

theorem memory_of_fits (hstart : start ≤ stop) (hstop : stop ≤ xs.length)
    {mem : Memory}
    (h : Landed copies (env.order (chunkWindows chunk xs.length start stop)) mem
      parts)
    (hfits : forall window,
      window ∈ chunkWindows chunk xs.length start stop ->
      forall body, copies window.idx body -> Fits xs start window body) :
    (parts.map reported).sum = stop - start ∧
      forall i, i < stop - start -> mem i = xs[start + i]? := by
  have htiles := @tiles_chunkWindows chunk xs.length start stop hstart hstop
  have hlen (part : ChunkWindow × Bytes) (hpart : part ∈ parts) :
      reported part = part.1.len := by
    have hwindow := h.perm.mem_iff.mp (List.mem_map_of_mem hpart)
    have hend := (htiles.bounds hwindow).right
    exact length_of_fits hstop (by lia)
      (hfits part.1 hwindow part.2 (h.copied part hpart))
  constructor
  · rw [List.map_congr_left hlen]
    exact h.sum_len hstart hstop
  intro i hi
  rcases htiles.exists_mem (Nat.zero_le i) hi with
    ⟨window, hwindow, hlo, hhi⟩
  rcases h.exists_part hwindow with ⟨body, hpart⟩
  have hheld := h.holds _ hpart (i - window.dstAt)
  have hslice := hfits window hwindow body (h.copied _ hpart)
  have hreported := hlen _ hpart
  unfold reported at hreported
  dsimp only at hheld hreported
  rw [hreported, Nat.add_sub_cancel' hlo] at hheld
  rw [hheld (by lia), hslice, getElem?_span_add (by lia)]
  congr 1
  lia

theorem Leaves.getElem? {copy allowed : Bytes -> Prop} {posted : Posted}
    (h : Leaves copy allowed window posted)
    (hfits : forall body, copy body -> Fits xs start window body)
    (hharmless : window.whole = true -> forall body, allowed body ->
      Harmless xs start window body) {k : Nat} (hk : k < posted.body.length) :
    posted.body[k]? = xs[start + posted.dstAt + k]? := by
  have hprefix : posted.body <+:
      span xs (start + window.dstAt) (start + window.dstAt + window.len) := by
    rcases h.body with ⟨body, hcopy, hbody⟩ | ⟨hwhole, hleft⟩
    · exact ⟨[], by rw [List.append_nil, hbody, hfits body hcopy]⟩
    · exact hharmless hwhole _ hleft h.inside
  rcases hprefix with ⟨tail, htail⟩
  have hinside := h.inside
  have hbyte : (span xs (start + window.dstAt)
      (start + window.dstAt + window.len))[k]? =
        xs[start + window.dstAt + k]? :=
    getElem?_span_add (by lia)
  rw [h.dstAt, ← hbyte, ← htail, List.getElem?_append_left hk]

theorem land_eq {piece : Piece} {mem : Memory}
    (hposted : forall k, k < piece.posted.body.length ->
      piece.posted.body[k]? = xs[start + piece.posted.dstAt + k]?) {i : Nat}
    (hmem : mem i = xs[start + i]?) : piece.land mem i = xs[start + i]? := by
  unfold Piece.land blit
  split
  · rename_i hin
    have hlen : (span piece.posted.body piece.lo piece.hi).length =
        min piece.hi piece.posted.body.length - piece.lo := by
      unfold span
      rw [List.length_drop, List.length_take]
    rw [getElem?_span_add (by lia), hposted _ (by lia)]
    congr 1
    lia
  · exact hmem

theorem delivered_of_fits (hstart : start ≤ stop) (hstop : stop ≤ xs.length)
    (henv : env.From eTag copies left)
    (hfits : forall window,
      window ∈ chunkWindows chunk xs.length start stop ->
      forall body, copies window.idx body -> Fits xs start window body)
    (hharmless : forall window,
      window ∈ chunkWindows chunk xs.length start stop ->
      window.whole = true -> forall body, left window.idx body ->
      Harmless xs start window body) {mem : Memory}
    (h : deliver chunk token eTag xs.length start stop windowLen env =
      .delivered n mem) :
    n = stop - start ∧ forall i, i < n -> mem i = xs[start + i]? := by
  rcases landed_of_deliver hstart hstop henv h with
    ⟨client, parts, rfl, rfl, hlanded, hleaves⟩
  rcases memory_of_fits hstart hstop hlanded hfits with ⟨hsum, hmem⟩
  refine ⟨hsum, ?_⟩
  intro i hi
  rw [hsum] at hi
  -- Whatever lands late brings the bytes that are there.
  have hpieces : forall piece, piece ∈ env.late client.posted ->
      forall k, k < piece.posted.body.length ->
      piece.posted.body[k]? = xs[start + piece.posted.dstAt + k]? := by
    intro piece hpiece k hk
    rcases hleaves _ (env.posts _ piece hpiece) with ⟨window, hwindow, hleft⟩
    exact hleft.getElem? (hfits window hwindow) (hharmless window hwindow) hk
  have hbefore := hmem i hi
  generalize env.late client.posted = pieces at hpieces ⊢
  generalize client.mem = before at hbefore ⊢
  induction pieces generalizing before with
  | nil => exact hbefore
  | cons piece rest ih =>
    apply ih
    · exact fun other hother => hpieces other (List.mem_cons_of_mem _ hother)
    · exact land_eq (hpieces piece List.mem_cons_self) hbefore

/-!
### Answers that use a given copy, or a given posted body
-/

def leavingPeer (body : Bytes) : Peer :=
  { holderWrite := .fails [] (some body),
    source := { holder := .notCached, ending := .runs },
    write := .lands }

def Posted.whole (posted : Posted) : Piece :=
  { posted := posted, lo := 0, hi := posted.body.length }

/-- Every window is placed from the backend, after the request to a holder has
failed with a WRITE left posted.  One WRITE, if it was left, lands in the end. -/
def leavingEnv (pick leaves : Nat -> Option Bytes) (late : Option Posted) :
    Env :=
  { attempts := fun idx _ =>
      { cached := none, owns := false, owned := none,
        peers := (leaves idx).toList.map leavingPeer,
        backend := pick idx, write := .lands },
    order := id,
    reorders := List.Perm.refl,
    late := fun posted =>
      (late.filter (· ∈ posted)).toList.map Posted.whole,
    posts := by
      intro posted piece hpiece
      rcases List.mem_map.mp hpiece with ⟨target, htarget, rfl⟩
      rw [Option.mem_toList, Option.filter_eq_some_iff] at htarget
      exact of_decide_eq_true htarget.right }

variable {pick leaves : Nat -> Option Bytes} {late : Option Posted}

theorem from_leavingEnv
    (hpick : forall idx body, pick idx = some body -> copies idx body)
    (hleaves : forall idx body, leaves idx = some body -> left idx body) :
    (leavingEnv pick leaves late).From eTag copies left := by
  intro idx k
  refine ⟨nofun, nofun, ?_, hpick idx⟩
  intro peer hpeer
  rcases List.mem_map.mp hpeer with ⟨body, hbody, rfl⟩
  refine ⟨nofun, nofun, ?_, nofun⟩
  intro other hother
  cases hother
  exact hleaves idx body (Option.mem_toList.mp hbody)

theorem mem_posted_abandon {client : Client} {posted : Posted}
    (h : posted ∈ client.posted) (window : ChunkWindow) (landed : Bytes)
    (body : Option Bytes) :
    posted ∈ (client.abandon window landed body).posted := by
  unfold Client.abandon
  cases body with
  | none => exact h
  | some body =>
    dsimp only
    split
    · exact h
    · exact List.mem_append_left _ h

theorem posted_abandon {window : ChunkWindow} {body : Bytes}
    (h : body.length ≤ window.len) (client : Client) (landed : Bytes) :
    ⟨window.dstAt, body⟩ ∈ (client.abandon window landed (some body)).posted := by
  unfold Client.abandon
  dsimp only
  rw [if_neg (Nat.not_lt.mpr h)]
  exact List.mem_append_right _ List.mem_cons_self

structure LeavesAt (leaves : Nat -> Option Bytes) (windows : List ChunkWindow)
    (client client' : Client) : Prop where
  keeps : forall posted, posted ∈ client.posted -> posted ∈ client'.posted
  posts : forall window, window ∈ windows -> window.whole = true ->
    forall body, leaves window.idx = some body -> body.length ≤ window.len ->
    ⟨window.dstAt, body⟩ ∈ client'.posted

theorem late_leavingEnv {target : Posted} {posted : List Posted}
    (h : target ∈ posted) :
    (leavingEnv pick leaves (some target)).late posted =
      [target.whole] := by
  unfold leavingEnv
  dsimp only
  rw [Option.filter_some, if_pos (decide_eq_true h)]
  rfl

section

variable (token eTag leaves late)

theorem placeWithRetry_leavingEnv {window : ChunkWindow} {body : Bytes}
    (hbody : pick window.idx = some body) (client : Client) :
    exists client', placeWithRetry token eTag window
        ((leavingEnv pick leaves late).attempts window.idx) declineAttempts
        client = (client', some (.placed (window.slice body).length)) ∧
      LeavesAt leaves [window] client client' := by
  unfold declineAttempts placeWithRetry deliverWindow leavingEnv
  dsimp only
  rw [hbody]
  cases hleaves : leaves window.idx with
  | none =>
    refine ⟨_, rfl, fun _ => id, ?_⟩
    intro other hother _ found hfound
    cases List.mem_singleton.mp hother
    rw [hleaves] at hfound
    cases hfound
  | some left =>
    have hpeer : deliverFromPeer token eTag window [leavingPeer left] client =
        (if window.whole then client.abandon window [] (some left) else client,
          none) := by
      unfold deliverFromPeer
      cases window.whole <;> rfl
    rw [Option.toList_some, List.map_singleton, if_neg Bool.false_ne_true,
      hpeer]
    refine ⟨_, rfl, ?_, ?_⟩
    · intro posted hposted
      show posted ∈ (ite _ _ _ : Client).posted
      split
      · exact mem_posted_abandon hposted window [] (some left)
      · exact hposted
    · intro other hother hwhole found hfound hfits
      cases List.mem_singleton.mp hother
      rw [hleaves] at hfound
      cases hfound
      show _ ∈ (ite _ _ _ : Client).posted
      rw [if_pos hwhole]
      exact posted_abandon hfits client []

theorem runDelivery_leavingEnv {windows : List ChunkWindow}
    (hpick : forall window, window ∈ windows ->
      exists body, pick window.idx = some body)
    (client : Client) (landed : List Nat) :
    exists client' bytes, runDelivery token eTag
        (leavingEnv pick leaves late).attempts windows client landed =
          .landed client' bytes ∧
      LeavesAt leaves windows client client' := by
  induction windows generalizing client landed with
  | nil => exact ⟨client, landed, rfl, fun _ => id, nofun⟩
  | cons window rest ih =>
    rcases hpick window List.mem_cons_self with ⟨body, hbody⟩
    rcases placeWithRetry_leavingEnv token eTag leaves late hbody client with
      ⟨mid, hmid, hfirst⟩
    rcases ih (fun other hother => hpick other (List.mem_cons_of_mem _ hother))
      mid (landed ++ [(window.slice body).length]) with
      ⟨client', bytes, hrun, hrest⟩
    refine ⟨client', bytes, ?_, ?_, ?_⟩
    · unfold runDelivery
      rw [hmid]
      exact hrun
    · exact fun posted hposted =>
        hrest.keeps posted (hfirst.keeps posted hposted)
    · intro other hother
      rcases List.mem_cons.mp hother with rfl | hmem
      · intro hwhole found hfound hfits
        apply hrest.keeps
        exact hfirst.posts other List.mem_cons_self hwhole found hfound hfits
      · exact hrest.posts other hmem

theorem deliver_leavingEnv (hwindow : stop - start ≤ windowLen)
    (hpick : forall window,
      window ∈ chunkWindows chunk xs.length start stop ->
      exists body, pick window.idx = some body) :
    exists n client, deliver chunk token eTag xs.length start stop windowLen
        (leavingEnv pick leaves late) = .delivered n
          (((leavingEnv pick leaves late).late client.posted).foldl Piece.land
            client.mem) ∧
      LeavesAt leaves (chunkWindows chunk xs.length start stop)
        { mem := fun _ => none, posted := [] } client := by
  rcases runDelivery_leavingEnv token eTag leaves late hpick
    { mem := fun _ => none, posted := [] } [] with
    ⟨client, bytes, hrun, hleaves⟩
  refine ⟨bytes.sum, client, ?_, hleaves⟩
  unfold deliver
  rw [if_neg (Nat.not_lt.mpr hwindow)]
  show (match runDelivery token eTag (leavingEnv pick leaves late).attempts
    (chunkWindows chunk xs.length start stop) _ [] with
    | .failed => _
    | .degraded => _
    | .landed client landed => _) = _
  rw [hrun]

end

theorem fits_of_delivered (hstart : start ≤ stop) (hstop : stop ≤ xs.length)
    (henv : env.From eTag copies left)
    (hlate : forall posted, env.late posted = []) {mem : Memory}
    (h : deliver chunk token eTag xs.length start stop windowLen env =
      .delivered n mem) (hn : n = stop - start)
    (hbytes : forall i, i < n -> mem i = xs[start + i]?) {window : ChunkWindow}
    (hwindow : window ∈ chunkWindows chunk xs.length start stop) :
    exists body, copies window.idx body ∧ Fits xs start window body := by
  have htiles := @tiles_chunkWindows chunk xs.length start stop hstart hstop
  rcases landed_of_deliver hstart hstop henv h with
    ⟨client, parts, hsum, hmem, hlanded, _⟩
  rw [hlate, List.foldl_nil] at hmem
  rcases hlanded.exists_part hwindow with ⟨body, hpart⟩
  refine ⟨body, hlanded.copied _ hpart, ?_⟩
  have hend := (htiles.bounds hwindow).right
  -- The windows add up to the range, so none of them can be short.
  have hlen : (window.slice body).length = window.len := by
    apply Nat.le_antisymm (length_slice_le window body)
    by_contra hshort
    have hlt : (parts.map reported).sum <
        (parts.map fun part => part.1.len).sum := by
      apply List.sum_lt_sum
      · intro part _
        exact length_slice_le part.1 part.2
      · exact ⟨_, hpart, Nat.not_le.mp hshort⟩
    rw [hlanded.sum_len hstart hstop, ← hsum, hn] at hlt
    exact Nat.lt_irrefl _ hlt
  unfold Fits
  apply List.ext_getElem?
  intro k
  rcases Nat.lt_or_ge k window.len with hk | hk
  · have hheld := hlanded.holds _ hpart k (by rw [hlen]; exact hk)
    dsimp only at hheld
    rw [← hheld, ← hmem, hbytes _ (by lia), getElem?_span_add (by lia),
      Nat.add_assoc]
  · rw [List.getElem?_eq_none (by lia), List.getElem?_eq_none]
    rw [length_span (by lia)]
    lia

theorem harmless_of_landed {window : ChunkWindow}
    {body : Bytes} (hend : window.dstAt + window.len ≤ stop - start)
    {mem : Memory}
    (hbytes : forall i, i < stop - start ->
      Piece.land mem (Posted.whole ⟨window.dstAt, body⟩) i = xs[start + i]?) :
    Harmless xs start window body := by
  intro hfits
  rw [List.prefix_iff_eq_take]
  apply List.ext_getElem?
  intro k
  rcases Nat.lt_or_ge k body.length with hk | hk
  · have hbyte := hbytes (window.dstAt + k) (by lia)
    unfold Piece.land Posted.whole at hbyte
    dsimp only at hbyte
    rw [span_zero, List.take_length, Nat.add_zero, blit_add hk] at hbyte
    rw [hbyte, List.getElem?_take_of_lt hk, getElem?_span_add (by lia),
      Nat.add_assoc]
  · rw [List.getElem?_eq_none hk, List.getElem?_eq_none]
    rw [List.length_take]
    lia

end AllOrNothing

theorem slice_eq_span (window : ChunkWindow) (body : Bytes) :
    window.slice body =
      span body window.srcAt (window.srcAt + window.len) := by
  unfold ChunkWindow.slice
  rw [span_min_length]
  rcases Nat.le_total window.srcAt body.length with hle | hle
  · rw [Nat.min_eq_left hle]
  · rw [Nat.min_eq_right hle]
    unfold span
    rw [List.drop_eq_nil_of_le, List.drop_eq_nil_of_le]
    · rw [List.length_take]
      lia
    · rw [List.length_take]
      lia

theorem fits_chunkOf {chunk : ChunkConfig} {xs : Bytes} {start stop : Nat}
    (h : window ∈ chunkWindows chunk xs.length start stop) :
    Fits xs start window (chunk.chunkOf xs window.idx) := by
  rcases mem_windowsFrom h with ⟨hlen, hwindow⟩
  have hpos : window.idx * chunk.chunkSize + window.srcAt =
      start + window.dstAt := by
    rw [hwindow]
    unfold windowOf
    dsimp only
    lia
  have hin : window.srcAt + window.len ≤ chunk.chunkSize := by
    rw [hwindow] at hlen ⊢
    unfold windowOf at hlen ⊢
    dsimp only at hlen ⊢
    lia
  unfold Fits ChunkConfig.chunkOf
  rw [slice_eq_span, Nat.add_one_mul, span_span xs _ hin, ← hpos,
    Nat.add_assoc]

theorem exists_pick {copies : Nat -> Bytes -> Prop} {one : Nat}
    (hcopy : copies one body) : exists pick : Nat -> Option Bytes,
      pick one = some body ∧
      (forall idx other, pick idx = some other -> copies idx other) ∧
      forall idx, (exists other, copies idx other) ->
        exists other, pick idx = some other := by
  have hchoice : forall idx, exists pick : Option Bytes,
      (forall other, pick = some other -> copies idx other) ∧
      ((exists other, copies idx other) -> exists other, pick = some other) := by
    intro idx
    by_cases hidx : exists other, copies idx other
    · rcases hidx with ⟨found, hfound⟩
      refine ⟨some found, ?_, fun _ => ⟨found, rfl⟩⟩
      intro other hother
      cases hother
      exact hfound
    · exact ⟨none, nofun, fun hex => absurd hex hidx⟩
  choose pick hpick hpicked using hchoice
  refine ⟨Function.update pick one (some body), Function.update_self _ _ _,
    ?_, ?_⟩
  · exact Table.forall_update_some hpick hcopy
  · intro idx hidx
    by_cases heq : idx = one
    · exact ⟨body, heq.symm ▸ Function.update_self _ _ _⟩
    · rw [Function.update_of_ne heq]
      exact hpicked idx hidx

section Whole

variable {chunk : ChunkConfig} {token : Bool} {eTag : Option String}
  {xs : Bytes} {start stop windowLen : Nat} {copies left : Nat -> Bytes -> Prop}
  (hstart : start ≤ stop) (hstop : stop ≤ xs.length)
  (hwindow : stop - start ≤ windowLen)
  (h : forall env n mem, Env.From eTag copies left env ->
    deliver chunk token eTag xs.length start stop windowLen env =
      .delivered n mem ->
    n = stop - start ∧ forall i, i < n -> mem i = xs[start + i]?)
  (hsome : forall window, window ∈ chunkWindows chunk xs.length start stop ->
    exists body, copies window.idx body)

include hstart hstop hwindow h hsome

theorem fits_of_whole {window : ChunkWindow}
    (hmem : window ∈ chunkWindows chunk xs.length start stop) {body : Bytes}
    (hcopy : copies window.idx body) : Fits xs start window body := by
  rcases exists_pick hcopy with ⟨pick, hbody, hpick, hpicked⟩
  rcases deliver_leavingEnv token eTag (fun _ => none) none hwindow
    (fun other hother => hpicked other.idx (hsome other hother)) with
    ⟨n, client, hdeliver, _⟩
  have hnone : forall idx other, (none : Option Bytes) = some other ->
      left idx other := by
    intro idx other hother
    cases hother
  rcases h _ n _ (from_leavingEnv hpick hnone) hdeliver with ⟨hn, hbytes⟩
  have hown : (leavingEnv pick (fun _ => none) none).From eTag
      (fun idx other => pick idx = some other) left :=
    from_leavingEnv (fun _ _ => id) hnone
  rcases fits_of_delivered hstart hstop hown (fun _ => rfl) hdeliver hn hbytes
    hmem with ⟨found, hfound, hfits⟩
  rw [hbody] at hfound
  cases hfound
  exact hfits

theorem harmless_of_whole {window : ChunkWindow}
    (hmem : window ∈ chunkWindows chunk xs.length start stop)
    (hwhole : window.whole = true) {body : Bytes}
    (hleft : left window.idx body) : Harmless xs start window body := by
  by_cases hfits : body.length ≤ window.len
  · have hend := ((tiles_chunkWindows hstart hstop).bounds hmem).right
    rcases hsome window hmem with ⟨copy, hcopy⟩
    rcases exists_pick hcopy with ⟨pick, _, hpick, hpicked⟩
    let leaves := Function.update (fun _ => none) window.idx (some body)
    have hleaves : forall idx other, leaves idx = some other ->
        left idx other :=
      Table.forall_update_some nofun hleft
    rcases deliver_leavingEnv token eTag leaves
      (some ⟨window.dstAt, body⟩) hwindow
      (fun other hother => hpicked other.idx (hsome other hother)) with
      ⟨n, client, hdeliver, hposts⟩
    rcases h _ n _ (from_leavingEnv hpick hleaves) hdeliver with ⟨rfl, hbytes⟩
    have hposted := hposts.posts window hmem hwhole body
      (Function.update_self _ _ _) hfits
    rw [late_leavingEnv hposted] at hbytes
    exact harmless_of_landed hend hbytes
  · exact fun hle => absurd hle hfits

end Whole

/-- Whatever answers, a delivery is of the whole range and of the object's bytes
just when, as far as each covering chunk has a copy at all, every copy a window
can be placed from has the object's bytes there, and so does, as far as it goes,
every body of which a holder can leave a WRITE posted. -/
theorem delivery_is_whole_iff (chunk : ChunkConfig) (token : Bool)
    (eTag : Option String) (xs : Bytes) {start stop windowLen : Nat}
    (hstart : start ≤ stop) (hstop : stop ≤ xs.length)
    (hwindow : stop - start ≤ windowLen) (copies left : Nat -> Bytes -> Prop) :
    (forall env n mem, Env.From eTag copies left env ->
      deliver chunk token eTag xs.length start stop windowLen env =
        .delivered n mem ->
      n = stop - start ∧ forall i, i < n -> mem i = xs[start + i]?) <->
    ((forall window, window ∈ chunkWindows chunk xs.length start stop ->
        exists body, copies window.idx body) ->
      forall window, window ∈ chunkWindows chunk xs.length start stop ->
      (forall body, copies window.idx body -> Fits xs start window body) ∧
      (window.whole = true -> forall body, left window.idx body ->
        Harmless xs start window body)) := by
  constructor
  · intro h hsome window hmem
    exact ⟨fun _ => fits_of_whole hstart hstop hwindow h hsome hmem,
      fun hwhole _ => harmless_of_whole hstart hstop hwindow h hsome hmem hwhole⟩
  · intro h env n mem henv hdeliver
    rcases landed_of_deliver hstart hstop henv hdeliver with
      ⟨client, parts, _, _, hlanded, _⟩
    have hright := h fun window hmem => by
      rcases hlanded.exists_part hmem with ⟨body, hpart⟩
      exact ⟨body, hlanded.copied _ hpart⟩
    exact delivered_of_fits hstart hstop henv
      (fun window hmem => (hright window hmem).left)
      (fun window hmem => (hright window hmem).right) hdeliver

def chunk4 : ChunkConfig := { chunkSize := 4, positive := by decide }

def eightBytes : Bytes := [1, 2, 3, 4, 5, 6, 7, 8]

/-- The first chunk: a holder of an old version writes over the window and is
refused, a second one is lost sight of with its WRITE half done, and the backend
answers.  The second: the owner's fill is declined once and then lands.  What was
left posted lands in the end. -/
def crowdedEnv : Env :=
  { attempts := fun idx k =>
      { cached := none,
        owns := idx = 1,
        owned := some (chunk4.chunkOf eightBytes idx),
        peers :=
          [{ holderWrite := .lands [9, 9, 9, 9] (some "u"),
             source := { holder := .notCached, ending := .runs },
             write := .lands },
            { holderWrite := .fails [1, 2]
                (some (chunk4.chunkOf eightBytes idx)),
              source := { holder := .unreachable, ending := .runs },
              write := .lands }],
        backend := some (chunk4.chunkOf eightBytes idx),
        write := if idx = 1 ∧ k = 2 then .declines true else .lands },
    order := List.reverse,
    reorders := fun _ => List.reverse_perm _,
    late := fun posted => posted.map Posted.whole,
    posts := by
      intro posted piece hpiece
      rcases List.mem_map.mp hpiece with ⟨target, htarget, rfl⟩
      exact htarget }

theorem from_crowdedEnv :
    crowdedEnv.From (some "v")
      (fun idx body => body = chunk4.chunkOf eightBytes idx)
      (fun idx body => body = chunk4.chunkOf eightBytes idx) := by
  intro idx k
  refine ⟨nofun, ?_, ?_, ?_⟩
  · intro body hbody
    cases hbody
    rfl
  · intro peer hpeer
    rcases List.mem_cons.mp hpeer with rfl | hrest
    · refine ⟨?_, nofun, nofun, nofun⟩
      intro body tag hlands hversion
      cases hlands
      cases hversion
    · cases List.mem_singleton.mp hrest
      refine ⟨nofun, nofun, ?_, nofun⟩
      intro body hposted
      cases hposted
      rfl
  · intro body hbody
    cases hbody
    rfl

theorem delivery_is_whole_iff_crowded : exists mem,
    deliver chunk4 true (some "v") eightBytes.length 0 8 8 crowdedEnv =
      .delivered 8 mem ∧
    forall i, i < 8 -> mem i = eightBytes[0 + i]? := by
  have hruns : exists mem,
      deliver chunk4 true (some "v") eightBytes.length 0 8 8 crowdedEnv =
        .delivered 8 mem :=
    ⟨_, rfl⟩
  rcases hruns with ⟨mem, h⟩
  refine ⟨mem, h, ?_⟩
  refine ((delivery_is_whole_iff chunk4 true (some "v") eightBytes (by decide)
    (by decide) (by decide) (fun idx body =>
      body = chunk4.chunkOf eightBytes idx) (fun idx body =>
      body = chunk4.chunkOf eightBytes idx)).mpr ?_ _ 8 mem from_crowdedEnv
    h).right
  intro _ window hmem
  constructor
  · intro body hbody
    rw [hbody]
    exact fits_chunkOf hmem
  · intro hwhole body hbody hfits
    have hslice := slice_eq_self (srcAt_of_whole hmem hwhole) hfits
    exact ⟨[], by rw [List.append_nil, ← hslice, hbody, fits_chunkOf hmem]⟩

def localEnv (pick : Nat -> Option Bytes) : Env :=
  { attempts := fun idx _ =>
      { cached := pick idx, owns := true, owned := none, peers := [],
        backend := none, write := .lands },
    order := id,
    reorders := List.Perm.refl,
    late := fun _ => [],
    posts := nofun }

/-- The local tier has two of the first chunk's four bytes and all of the
second: six bytes are reported delivered, and there is a hole after two. -/
theorem short_copy_leaves_hole : exists mem,
    deliver chunk4 false (some "v") eightBytes.length 0 8 8
      (localEnv fun idx => if idx = 0 then some [1, 2] else some [5, 6, 7, 8]) =
        .delivered 6 mem ∧
    mem 1 = some 2 ∧ mem 2 = none ∧ mem 4 = some 5 :=
  ⟨_, rfl, rfl, rfl, rfl⟩

/-- A holder of an old version stops waiting for its WRITE and streams.  It is
refused, and the backend answers; then the WRITE lands. -/
def lateEnv : Env :=
  { attempts := fun idx _ =>
      { cached := none, owns := false, owned := none,
        peers :=
          [{ holderWrite := .streams [] (some [9, 9, 9, 9])
               { holder := .cached ⟨[9, 9, 9, 9], some "u"⟩, ending := .runs }
               .lands,
             source := { holder := .notCached, ending := .runs },
             write := .lands }],
        backend := some (chunk4.chunkOf eightBytes idx),
        write := .lands },
    order := id,
    reorders := List.Perm.refl,
    late := fun posted => (posted.take 1).map Posted.whole,
    posts := by
      intro posted piece hpiece
      rcases List.mem_map.mp hpiece with ⟨target, htarget, rfl⟩
      exact List.mem_of_mem_take htarget }

theorem late_write_overwrites : exists mem,
    deliver chunk4 true (some "v") eightBytes.length 0 8 8 lateEnv =
      .delivered 8 mem ∧
    mem 0 = some 9 ∧ mem 4 = some 5 :=
  ⟨_, rfl, rfl, rfl⟩

end Delivery

end Daemon
end Pacer
