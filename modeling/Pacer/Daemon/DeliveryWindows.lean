import Pacer.Cache.CrcCombine
import Pacer.Daemon.Delivery
import Pacer.Daemon.RangedRead
import Pacer.Foundation.Sorting
import Pacer.Transport.TokenWindow

/-!
# Where a delivery's windows go and what they add up to

The windows of a delivery in 64-bit arithmetic, the addresses they are written
to in memory the client registered, and the checksum folded from the windows'
own digests in whatever order the windows complete.
-/

namespace Pacer
namespace Daemon

open Foundation
open Cache

namespace Delivery

open RangedRead
open Transport

def windowsFrom64 (chunk : ChunkConfig) (objectLen start stop : Nat) :
    List Nat -> Option (List ChunkWindow)
  | [] => some []
  | idx :: rest =>
    (chunkBounds64 chunk idx objectLen).bind fun bounds =>
      match bounds with
      | none => some []
      | some (first, last) =>
        let lo := max start first
        let hi := min stop last
        if hi ≤ lo then windowsFrom64 chunk objectLen start stop rest
        else
          (Checked.sub lo start).bind fun dstAt =>
            (Checked.sub lo first).bind fun srcAt =>
              (Checked.sub hi lo).bind fun len =>
                (windowsFrom64 chunk objectLen start stop rest).map
                  fun windows =>
                    { idx := idx, dstAt := dstAt, srcAt := srcAt,
                      len := len,
                      whole := decide (lo = first ∧ hi = last) } ::
                        windows

def chunkWindows64 (chunk : ChunkConfig) (objectLen start stop : Nat) :
    Option (List ChunkWindow) :=
  (covering64 chunk start stop).bind fun covered =>
    (Checked.sub covered.2 covered.1).bind fun count =>
      windowsFrom64 chunk objectLen start stop (List.range' covered.1 count)

/-!
## The checksum
-/

abbrev DeliveryDigest := Hasher UInt32

def DeliveryDigest.reported (crc32 : UInt32) (len : Nat) : DeliveryDigest :=
  { value := crc32, amount := len }

def hex8 (n : UInt32) : String :=
  let digits := Nat.toDigits 16 n.toNat
  String.ofList (List.replicate (8 - digits.length) '0' ++ digits)

def DeliveryDigest.headerValue (digest : DeliveryDigest) : String :=
  "crc32=" ++ hex8 digest.value

/-- Who digests a window: the node that wrote its bytes from its own copy or
read them back from mapped memory, or the holder that wrote them. -/
inductive DigestedBy where
  | sender
  | readBack
  | holder
deriving DecidableEq, Repr

def digestedBy (crc : Bytes -> UInt32) (bytes : Bytes) :
    DigestedBy -> DeliveryDigest
  | .sender => .of crc bytes
  | .readBack => .of crc bytes
  | .holder => .reported (Hasher.of crc bytes).value bytes.length

structure DeliveredWindow where
  dstAt : Nat
  bytes : Nat
  digest : Option DeliveryDigest
deriving DecidableEq, Repr

/-- The checksum of a delivery: the digests of its windows, in the order the
windows are given in. -/
def foldedHeader (crc : Bytes -> UInt32)
    (combine : UInt32 -> UInt32 -> Nat -> UInt32)
    (landed : List DeliveredWindow) : String :=
  DeliveryDigest.headerValue
    ((landed.filterMap DeliveredWindow.digest).foldl (Hasher.absorb combine)
      (Hasher.of crc []))

def landedWindow (crc : Bytes -> UInt32) (chunk : ChunkConfig)
    (content : Bytes) (digested : ChunkWindow -> DigestedBy)
    (window : ChunkWindow) : DeliveredWindow :=
  let bytes := window.slice (chunk.chunkOf content window.idx)
  { dstAt := window.dstAt, bytes := bytes.length,
    digest := some (digestedBy crc bytes (digested window)) }

/-!
## The arithmetic fits
-/

section Fits

variable {chunk : ChunkConfig} {objectLen start stop : Nat}

theorem windowsFrom64_eq {indices : List Nat}
    (h : forall idx, idx ∈ indices -> idx * chunk.chunkSize < objectLen ∧
      idx * chunk.chunkSize + chunk.chunkSize < wordBound) :
    windowsFrom64 chunk objectLen start stop indices =
      some (windowsFrom chunk objectLen start stop indices) := by
  induction indices with
  | nil => rfl
  | cons idx rest ih =>
    have hidx := h idx List.mem_cons_self
    have hrest := ih fun other hother => h other (List.mem_cons_of_mem _ hother)
    rw [windowsFrom64, windowsFrom, chunkBounds64_eq hidx.left hidx.right,
      Option.bind_some, chunkBounds_of_mul_lt hidx.left]
    dsimp only
    split
    · exact hrest
    · rw [Checked.sub_of_le (by lia), Option.bind_some,
        Checked.sub_of_le (by lia), Option.bind_some,
        Checked.sub_of_le (by lia), Option.bind_some, hrest]
      rfl

theorem chunkWindows64_eq (hstart : start ≤ stop) (hstop : stop ≤ objectLen)
    (hgrid : start < stop ->
      (stop - 1) / chunk.chunkSize * chunk.chunkSize + chunk.chunkSize <
        wordBound) :
    chunkWindows64 chunk objectLen start stop =
      some (chunkWindows chunk objectLen start stop) := by
  have hword : start < stop -> stop < wordBound := by
    intro hlt
    have hend := Nat.lt_div_mul_add (a := stop - 1) chunk.positive
    have hbound := hgrid hlt
    lia
  unfold chunkWindows64
  rw [covering64_eq hword, Option.bind_some,
    Checked.sub_of_le (ChunkConfig.covering_le chunk start stop),
    Option.bind_some]
  apply windowsFrom64_eq
  intro idx hidx
  rcases ChunkConfig.mem_coveringChunks hidx with ⟨hlt, hbefore, _⟩
  have hgridIdx := hgrid hlt
  have hlast : idx ≤ (stop - 1) / chunk.chunkSize := by
    rw [Nat.le_div_iff_mul_le chunk.positive]
    lia
  have hmul := Nat.mul_le_mul_right chunk.chunkSize hlast
  lia

theorem grid_fits (hstop : stop ≤ 2 ^ 63)
    (hsize : chunk.chunkSize < wordBound) :
    (stop - 1) / chunk.chunkSize * chunk.chunkSize + chunk.chunkSize <
      wordBound := by
  have hword : wordBound = 2 ^ 64 := rfl
  have hdiv := Nat.div_mul_le_self (stop - 1) chunk.chunkSize
  rcases Nat.lt_or_ge (stop - 1) chunk.chunkSize with hlt | hge
  · rw [Nat.div_eq_of_lt hlt]
    lia
  · lia

end Fits

/-!
## What the windows are
-/

/-- The windows of a range tile it in order, none of them empty; each is of the
object's bytes at its place, and marked whole just when it is its chunk. -/
structure WindowsExact (chunk : ChunkConfig) (content : Bytes)
    (start stop : Nat) (windows : List ChunkWindow) : Prop where
  tiles : Tiles ChunkWindow.dstAt ChunkWindow.len 0 windows (stop - start)
  nonempty : forall window, window ∈ windows -> 0 < window.len
  bytes : forall window, window ∈ windows ->
    span (chunk.chunkOf content window.idx) window.srcAt
        (window.srcAt + window.len) =
      span content (start + window.dstAt)
        (start + window.dstAt + window.len)
  whole : forall window, window ∈ windows -> (window.whole = true <->
    window.srcAt = 0 ∧
      window.len = (chunk.chunkOf content window.idx).length)

section Windows

variable {chunk : ChunkConfig} {content : Bytes} {start stop : Nat}

theorem chunkOf_length (chunk : ChunkConfig) (content : Bytes) (idx : Nat) :
    (chunk.chunkOf content idx).length =
      min ((idx + 1) * chunk.chunkSize) content.length -
        idx * chunk.chunkSize := by
  rw [ChunkConfig.chunkOf, ← span_min_length,
    length_span (Nat.min_le_right _ _)]

theorem windowsExact_chunkWindows (hstart : start ≤ stop)
    (hstop : stop ≤ content.length) :
    WindowsExact chunk content start stop
      (chunkWindows chunk content.length start stop) := by
  constructor
  · exact tiles_chunkWindows hstart hstop
  · intro window hwindow
    exact (mem_windowsFrom hwindow).left
  · intro window hwindow
    rw [← slice_eq_span]
    exact fits_chunkOf hwindow
  · intro window hwindow
    rcases mem_windowsFrom hwindow with ⟨hlen, hof⟩
    rw [hof] at hlen ⊢
    rw [chunkOf_length]
    unfold windowOf at hlen ⊢
    dsimp only at hlen ⊢
    rw [decide_eq_true_iff, Nat.add_one_mul]
    lia

end Windows

/-!
## Where they are written
-/

/-- How a window is addressed in registered memory: on every rail, by this node
or by the holder it is offered to, at the base address, the request's offset
and the window's own place.  A place without a 64-bit address is refused. -/
structure Addressed (baseAddr offset : Nat) (token : TokenWindow)
    (window : ChunkWindow) : Prop where
  direct : forall rail, rail ∈ token.rails ->
    token.sliceOn rail window.dstAt window.len =
      if baseAddr + offset + window.dstAt < wordBound then
        some (baseAddr + offset + window.dstAt, rail.rkey, window.len)
      else none
  offered : baseAddr + offset + window.dstAt < wordBound ->
    forall checksum, exists wire held,
      token.protoAt window.dstAt window.len checksum = some wire ∧
        TokenWindow.fromProto wire = .ok held ∧ held.rails = token.rails ∧
        forall rail, rail ∈ held.rails -> forall n, n ≤ window.len ->
          held.sliceOn rail 0 n =
            some (baseAddr + offset + window.dstAt, rail.rkey, n)
  refused : ¬ baseAddr + offset + window.dstAt < wordBound ->
    forall checksum, token.protoAt window.dstAt window.len checksum = none
  inside : baseAddr + offset + window.dstAt + window.len ≤
    baseAddr + offset + token.len

theorem addressed_of_inside {baseAddr offset windowLen : Nat}
    {rails : List TokenRail} {token : TokenWindow} {window : ChunkWindow}
    (htoken : TokenWindow.new baseAddr offset windowLen rails = .ok token)
    (hlen : windowLen < wordBound) (hpos : 0 < window.len)
    (hinside : window.dstAt + window.len ≤ windowLen) :
    Addressed baseAddr offset token window := by
  rcases TokenWindow.new_ok htoken with ⟨hstart, rfl, _⟩
  constructor
  · intro rail _
    rw [← hstart]
    exact TokenWindow.sliceOn_of_inside hinside hlen rail
  · intro haddr checksum
    rw [← hstart] at haddr ⊢
    rcases TokenWindow.fromProto_protoAt hinside hpos hlen haddr checksum with
      ⟨wire, held, hwire, hheld, hheldStart, hheldLen, hrails⟩
    refine ⟨wire, held, hwire, hheld, hrails, ?_⟩
    intro rail _ n hn
    rw [TokenWindow.sliceOn_of_inside (by lia) (by lia), hheldStart,
      Nat.add_zero, if_pos haddr]
  · intro haddr checksum
    rw [← hstart] at haddr
    exact TokenWindow.protoAt_of_overflow hinside hlen haddr checksum
  · lia

/-!
## What they add up to
-/

section Checksum

variable {crc : Bytes -> UInt32} {combine : UInt32 -> UInt32 -> Nat -> UInt32}
  {chunk : ChunkConfig} {content : Bytes} {start stop : Nat}
  {windows : List ChunkWindow} {digested : ChunkWindow -> DigestedBy}

theorem digestedBy_eq (crc : Bytes -> UInt32) (bytes : Bytes)
    (who : DigestedBy) : digestedBy crc bytes who = Hasher.of crc bytes := by
  cases who with
  | sender => rfl
  | readBack => rfl
  | holder => rfl

theorem sorted_landed (h : WindowsExact chunk content start stop windows)
    {sorted : List DeliveredWindow}
    (hperm : sorted.Perm
      (windows.map (landedWindow crc chunk content digested)))
    (hsorted : sorted.Pairwise fun a b => a.dstAt ≤ b.dstAt) :
    sorted = windows.map (landedWindow crc chunk content digested) := by
  apply eq_of_perm_sorted hperm hsorted
  rw [List.pairwise_map]
  exact h.tiles.pairwise_lt h.nonempty

theorem filterMap_digest
    (h : WindowsExact chunk content start stop windows) :
    (windows.map (landedWindow crc chunk content digested)).filterMap
        DeliveredWindow.digest =
      (windows.map fun window => span content (start + window.dstAt)
        (start + window.dstAt + window.len)).map (Hasher.of crc) := by
  rw [List.filterMap_map, List.map_map, ← List.filterMap_eq_map]
  apply List.filterMap_congr
  intro window hwindow
  show some _ = some _
  rw [digestedBy_eq, slice_eq_span, h.bytes window hwindow]
  rfl

theorem foldedHeader_sorted (hjoins : Joins crc combine)
    (h : WindowsExact chunk content start stop windows)
    (hstart : start ≤ stop) {sorted : List DeliveredWindow}
    (hperm : sorted.Perm
      (windows.map (landedWindow crc chunk content digested)))
    (hsorted : sorted.Pairwise fun a b => a.dstAt ≤ b.dstAt) :
    foldedHeader crc combine sorted =
      DeliveryDigest.headerValue
        (Hasher.of crc (span content start stop)) := by
  have hbytes := h.tiles.flatten_spans content start
  rw [Nat.add_zero, Nat.add_sub_cancel' hstart] at hbytes
  unfold foldedHeader
  rw [sorted_landed h hperm hsorted, filterMap_digest h,
    Hasher.foldl_absorb hjoins, hbytes, List.nil_append]

end Checksum

/-!
## A delivery
-/

/-- For every range of an object whose grid fits 64 bits, the windows are
computed, tile the range, are addressed at their places in any registered
window that is long enough, and their digests, folded by place whatever the
order they completed in and whoever computed them, are the range's. -/
theorem delivery_windows_exact {chunk : ChunkConfig} {content : Bytes}
    {start stop : Nat} (hstart : start ≤ stop) (hstop : stop ≤ content.length)
    (hgrid : start < stop ->
      (stop - 1) / chunk.chunkSize * chunk.chunkSize + chunk.chunkSize <
        wordBound) :
    exists windows,
      chunkWindows64 chunk content.length start stop = some windows ∧
        WindowsExact chunk content start stop windows ∧
        (forall baseAddr offset windowLen rails token,
          windowLen < wordBound ->
          TokenWindow.new baseAddr offset windowLen rails = .ok token ->
          stop - start ≤ windowLen ->
          forall window, window ∈ windows ->
            Addressed baseAddr offset token window) ∧
        forall crc combine, Joins crc combine ->
          forall digested landed sorted,
            List.Perm landed
              (windows.map (landedWindow crc chunk content digested)) ->
            List.Perm sorted landed ->
            (sorted.Pairwise fun a b => a.dstAt ≤ b.dstAt) ->
            foldedHeader crc combine sorted =
              DeliveryDigest.headerValue
                (Hasher.of crc (span content start stop)) := by
  have hexact : WindowsExact chunk content start stop
      (chunkWindows chunk content.length start stop) :=
    windowsExact_chunkWindows hstart hstop
  refine ⟨_, chunkWindows64_eq hstart hstop hgrid, hexact, ?_, ?_⟩
  · intro baseAddr offset windowLen rails token hlen htoken hfits window
      hwindow
    have hbounds := hexact.tiles.bounds hwindow
    exact addressed_of_inside htoken hlen (hexact.nonempty window hwindow)
      (by lia)
  · intro crc combine hjoins digested landed sorted hlanded hsort hsorted
    exact foldedHeader_sorted hjoins hexact hstart (hsort.trans hlanded)
      hsorted

def edgeWindows : List ChunkWindow :=
  [{ idx := 0, dstAt := 0, srcAt := 1, len := 3, whole := false },
    { idx := 1, dstAt := 3, srcAt := 0, len := 3, whole := false }]

/-- Two windows of a range that starts and ends inside a chunk, the second one
written by its holder and completed first. -/
theorem delivery_windows_exact_edges :
    chunkWindows64 chunk4 eightBytes.length 1 7 = some edgeWindows ∧
      WindowsExact chunk4 eightBytes 1 7 edgeWindows ∧
      foldedHeader bodyCrc crcCombine
          (edgeWindows.map (landedWindow bodyCrc chunk4 eightBytes
            fun window => if window.idx = 0 then .sender else .holder)) =
        "crc32=fa3d1de1" := by
  have hwindows : chunkWindows64 chunk4 eightBytes.length 1 7 =
      some edgeWindows := by
    decide +kernel
  have hgrid : (7 - 1) / chunk4.chunkSize * chunk4.chunkSize +
      chunk4.chunkSize < wordBound :=
    grid_fits (by decide) (by decide)
  have hstart : 1 ≤ 7 := by decide
  have hstop : 7 ≤ eightBytes.length := by decide
  rcases delivery_windows_exact hstart hstop fun _ => hgrid with
    ⟨windows, hsome, hexact, _, hfolded⟩
  rw [hwindows] at hsome
  cases hsome
  refine ⟨hwindows, hexact, ?_⟩
  rw [hfolded bodyCrc crcCombine joins_bodyCrc _
    (edgeWindows.map _).reverse _ (List.reverse_perm _)
    (List.reverse_perm _).symm (by decide +kernel)]
  decide +kernel

theorem two_pow_24_pos : 0 < 2 ^ 24 := Nat.two_pow_pos 24

def grid24 : ChunkConfig := { chunkSize := 2 ^ 24, positive := two_pow_24_pos }

/-- The end of the last chunk of the longest object there could be is not a
64-bit number. -/
theorem grid_overflows :
    chunkWindows64 grid24 (2 ^ 64 - 1) (2 ^ 64 - 2 ^ 24) (2 ^ 64 - 1) =
      none := by
  decide +kernel

end Delivery
end Daemon
end Pacer
