import Pacer.Foundation.Buffer
import Pacer.Foundation.Text

/-!
# The `aws-chunked` decoder

A body framed this way is a sequence of chunks, each a size line in hexadecimal
with an optional extension, its data, and a line end; a size line of zero ends
it, and trailers may follow.  The decoder takes the body frame by frame, as it
comes off the wire, and gives the object's bytes out as slices of the frames.

The format is stated here by how it is written, and for each state of a decoder
what of a body is still to come.
-/

namespace Pacer
namespace Daemon

open Foundation

namespace AwsChunked

def cr : UInt8 := 13
def lf : UInt8 := 10
def semicolon : UInt8 := 59

def maxChunkLine : Nat := 256

inductive DecodeState where
  | sizeLine
  | data (left : Nat) (positive : 0 < left)
  | dataEnd (seenCr : Bool)
  | trailers
  | failed
deriving DecidableEq, Repr

structure Decoder where
  state : DecodeState
  line : Bytes
deriving DecidableEq, Repr

namespace Decoder

def new : Decoder := { state := .sizeLine, line := [] }

def isComplete (d : Decoder) : Bool := decide (d.state = .trailers)

def fail (d : Decoder) : Decoder := { d with state := .failed }

end Decoder

def parseSize (line : Bytes) : Option Nat :=
  match Buffer.fromUtf8? (line.takeWhile (· ≠ semicolon)) with
  | none => none
  | some size => Radix.parseUnsigned 16 (2 ^ 64) (Radix.trim size.toList)

def afterSize (size : Nat) : DecodeState :=
  if h : 0 < size then .data size h else .trailers

/-- Accumulate a size line and, at its end, read it.  `none` is a failure;
otherwise the result has what is left of the input. -/
def sizeLine (d : Decoder) (input : Bytes) : Decoder × Option Bytes :=
  let line := d.line ++ input.takeWhile (· ≠ lf)
  match input.dropWhile (· ≠ lf) with
  | [] =>
    if maxChunkLine < line.length then
      ({ state := .failed, line := line }, none)
    else ({ d with line := line }, some [])
  | _ :: rest =>
    if line.getLast? = some cr then
      match parseSize line.dropLast with
      | none => ({ state := .failed, line := line }, none)
      | some size => ({ state := afterSize size, line := [] }, some rest)
    else ({ state := .failed, line := line }, none)

def afterData (left : Nat) : DecodeState :=
  if h : 0 < left then .data left h else .dataEnd false

def step (d : Decoder) (input : Bytes) : Decoder × Option (List Bytes × Bytes) :=
  match d.state with
  | .failed => (d, none)
  | .trailers => (d, some ([], []))
  | .data left _ =>
    let take := min left input.length
    ({ d with state := afterData (left - take) },
      some ([input.take take], input.drop take))
  | .dataEnd seenCr =>
    if input.head? = some (if seenCr then lf else cr) then
      ({ d with state := if seenCr then .sizeLine else .dataEnd true },
        some ([], input.tail))
    else (d.fail, none)
  | .sizeLine =>
    match sizeLine d input with
    | (d', none) => (d', none)
    | (d', some rest) => (d', some ([], rest))

/-- Take steps until the input is used up.  Each uses some of it, so its length
bounds their number. -/
def feedFrom : Nat -> Decoder -> Bytes -> Decoder × Option (List Bytes)
  | _, d, [] => (d, some [])
  | 0, d, _ :: _ => (d.fail, none)
  | fuel + 1, d, b :: input =>
    match step d (b :: input) with
    | (d', none) => (d', none)
    | (d', some (out, rest)) =>
      match feedFrom fuel d' rest with
      | (final, none) => (final, none)
      | (final, some more) => (final, some (out ++ more))

/-- Decode the next frame of the body; `none` is the decode error. -/
def Decoder.feed (d : Decoder) (input : Bytes) : Decoder × Option (List Bytes) :=
  feedFrom input.length d input

/-!
## How a body is written
-/

/-- A size line without its line end: hexadecimal digits, and an extension that
begins with a semicolon. -/
structure SizeLine where
  digits : List Char
  extension : Bytes
deriving DecidableEq, Repr

namespace SizeLine

def bytes (l : SizeLine) : Bytes :=
  Buffer.utf8 (String.ofList l.digits) ++ l.extension

def Gives (l : SizeLine) (n : Nat) : Prop :=
  l.digits ≠ [] ∧ Radix.value? 16 0 l.digits = some n ∧
    (l.extension = [] ∨ l.extension.head? = some semicolon) ∧
    cr ∉ l.extension ∧ lf ∉ l.extension

instance (l : SizeLine) (n : Nat) : Decidable (l.Gives n) := by
  unfold Gives
  infer_instance

end SizeLine

def writeChunks : List (SizeLine × Bytes) -> Bytes -> Bytes
  | [], tail => tail
  | (line, data) :: rest, tail =>
    line.bytes ++ cr :: lf :: (data ++ cr :: lf :: writeChunks rest tail)

structure Encoding where
  chunks : List (SizeLine × Bytes)
  last : SizeLine
  trailers : Bytes
deriving DecidableEq, Repr

namespace Encoding

def bytes (e : Encoding) : Bytes :=
  writeChunks e.chunks (e.last.bytes ++ cr :: lf :: e.trailers)

def payload (e : Encoding) : Bytes := (e.chunks.map Prod.snd).flatten

/-- Every chunk has data, as much as its line says; the last line says none. -/
def WellFormed (e : Encoding) : Prop :=
  (forall chunk, chunk ∈ e.chunks ->
      chunk.2 ≠ [] ∧ chunk.1.Gives chunk.2.length) ∧
    e.last.Gives 0

instance (e : Encoding) : Decidable e.WellFormed := by
  unfold WellFormed
  infer_instance

end Encoding

def Encodes (raw payload : Bytes) : Prop :=
  exists e : Encoding, e.WellFormed ∧ e.bytes = raw ∧ e.payload = payload

theorem encodes_cases {raw payload : Bytes} (h : Encodes raw payload) :
    (exists l trailers, SizeLine.Gives l 0 ∧
        raw = l.bytes ++ cr :: lf :: trailers ∧ payload = []) ∨
      exists l data rest payload', SizeLine.Gives l data.length ∧ data ≠ [] ∧
        raw = l.bytes ++ cr :: lf :: (data ++ cr :: lf :: rest) ∧
        payload = data ++ payload' ∧ Encodes rest payload' := by
  rcases h with ⟨⟨chunks, last, trailers⟩, ⟨hchunks, hlast⟩, rfl, rfl⟩
  cases chunks with
  | nil => exact Or.inl ⟨last, trailers, hlast, rfl, rfl⟩
  | cons chunk rest =>
    rcases hchunks chunk List.mem_cons_self with ⟨hne, hgives⟩
    have hrest : Encodes (Encoding.bytes ⟨rest, last, trailers⟩)
        (Encoding.payload ⟨rest, last, trailers⟩) :=
      ⟨⟨rest, last, trailers⟩,
        ⟨fun c hc => hchunks c (List.mem_cons_of_mem chunk hc), hlast⟩,
        rfl, rfl⟩
    exact Or.inr ⟨chunk.1, chunk.2, Encoding.bytes ⟨rest, last, trailers⟩,
      Encoding.payload ⟨rest, last, trailers⟩, hgives, hne, rfl, rfl, hrest⟩

/-!
## Reading a size line
-/

variable {l : SizeLine} {d d' : Decoder} {n : Nat}

theorem ascii_of_gives (h : l.Gives n) {b : UInt8}
    (hb : b ∈ Buffer.utf8 (String.ofList l.digits)) :
    48 ≤ b.toNat ∧ b.toNat ≤ 122 ∧ b.toNat ≠ 59 := by
  have hdigit : forall c, c ∈ l.digits ->
      48 ≤ c.toNat ∧ c.toNat ≤ 122 ∧ c.toNat ≠ 59 := by
    intro c hc
    rcases Radix.digit?_of_value? h.right.left hc with ⟨d, hd⟩
    exact Radix.range_of_digit? hd
  rw [Buffer.utf8_ofList_ascii fun c hc => by have := hdigit c hc; lia] at hb
  rcases List.mem_map.mp hb with ⟨c, hc, rfl⟩
  have hrange := hdigit c hc
  have hbyte : (UInt8.ofNat c.toNat).toNat = c.toNat := by
    apply UInt8.toNat_ofNat_of_lt'
    show c.toNat < 256
    lia
  rw [hbyte]
  exact hrange

theorem lf_not_mem_bytes (h : l.Gives n) :
    lf ∉ l.bytes := by
  intro hmem
  rcases List.mem_append.mp hmem with hdigits | hextension
  · have hrange : 48 ≤ 10 := (ascii_of_gives h hdigits).left
    lia
  · exact h.right.right.right.right hextension

theorem takeWhile_bytes (h : l.Gives n) :
    l.bytes.takeWhile (· ≠ semicolon) =
      Buffer.utf8 (String.ofList l.digits) := by
  have hdigits : forall b, b ∈ Buffer.utf8 (String.ofList l.digits) ->
      decide (b ≠ semicolon) = true := by
    intro b hb
    apply decide_eq_true
    rintro rfl
    exact (ascii_of_gives h hb).right.right rfl
  unfold SizeLine.bytes
  rw [List.takeWhile_append_of_pos hdigits]
  rcases h.right.right.left with hnil | hhead
  · rw [hnil, List.takeWhile_nil, List.append_nil]
  · cases hext : l.extension with
    | nil =>
      rw [hext] at hhead
      cases hhead
    | cons first rest =>
      rw [hext] at hhead
      cases hhead
      rw [List.takeWhile_cons_of_neg (by simp), List.append_nil]

theorem parseSize_bytes (h : l.Gives n) :
    parseSize l.bytes = if n < 2 ^ 64 then some n else none := by
  unfold parseSize
  rw [takeWhile_bytes h, Buffer.fromUtf8?_utf8]
  dsimp only
  rw [String.toList_ofList, Radix.trim_of_value? h.right.left,
    Radix.parseUnsigned_of_value? h.left h.right.left]

theorem size_of_parseSize {n size : Nat} (h : l.Gives n)
    (hparse : parseSize l.bytes = some size) : size = n := by
  rw [parseSize_bytes h] at hparse
  split at hparse
  · cases hparse
    rfl
  · cases hparse

theorem parseSize_of_gives (h : l.Gives n) (hfits : n < 2 ^ 64)
    : parseSize l.bytes = some n := by
  rw [parseSize_bytes h, if_pos hfits]

/-!
## What a decoder has still to see

While it follows a body, the decoder's state says what must come.
-/

/-- From this state on, `more` is the rest of a body, with `payload` still to be
given out. -/
def Decoder.Remains (d : Decoder) (more payload : Bytes) : Prop :=
  match d.state with
  | .sizeLine => lf ∉ d.line ∧ Encodes (d.line ++ more) payload
  | .data left _ =>
    d.line = [] ∧ exists data rest payload', data.length = left ∧
      more = data ++ cr :: lf :: rest ∧ payload = data ++ payload' ∧
      Encodes rest payload'
  | .dataEnd false =>
    d.line = [] ∧ exists rest, more = cr :: lf :: rest ∧ Encodes rest payload
  | .dataEnd true =>
    d.line = [] ∧ exists rest, more = lf :: rest ∧ Encodes rest payload
  | .trailers => payload = []
  | .failed => True

theorem remains_new {raw payload : Bytes} (h : Encodes raw payload) :
    Decoder.new.Remains raw payload :=
  ⟨List.not_mem_nil, h⟩

theorem trailers_of_remains_nil {payload : Bytes} (h : d.Remains [] payload)
    (hlive : d.state ≠ .failed) :
    d.state = .trailers ∧ payload = [] := by
  unfold Decoder.Remains at h
  split at h
  · rcases h with ⟨hline, hencodes⟩
    rw [List.append_nil] at hencodes
    rcases encodes_cases hencodes with ⟨l, trailers, _, hraw, _⟩ |
      ⟨l, data, rest, payload', _, _, hraw, _⟩
    · rw [hraw] at hline
      exact absurd (by simp) hline
    · rw [hraw] at hline
      exact absurd (by simp) hline
  · rcases h with ⟨_, data, rest, payload', _, hmore, _⟩
    cases data with
    | nil => cases hmore
    | cons first rest => cases hmore
  · rcases h with ⟨_, rest, hmore, _⟩
    cases hmore
  · rcases h with ⟨_, rest, hmore, _⟩
    cases hmore
  · rename_i hstate
    exact ⟨hstate, h⟩
  · rename_i hstate
    exact absurd hstate hlive

theorem line_of_encodes {front back payload : Bytes} (hfront : lf ∉ front)
    (h : Encodes (front ++ lf :: back) payload) :
    (exists l, SizeLine.Gives l 0 ∧ front = l.bytes ++ [cr] ∧ payload = []) ∨
      exists l data rest payload', SizeLine.Gives l data.length ∧ data ≠ [] ∧
        front = l.bytes ++ [cr] ∧ back = data ++ cr :: lf :: rest ∧
        payload = data ++ payload' ∧ Encodes rest payload' := by
  have hline : forall {l n tail}, SizeLine.Gives l n ->
      front ++ lf :: back = l.bytes ++ cr :: lf :: tail ->
      front = l.bytes ++ [cr] ∧ back = tail := by
    intro l n tail hgives hraw
    apply Text.append_inj_of_notMem hfront
    · intro hmem
      rcases List.mem_append.mp hmem with hmem | hmem
      · exact lf_not_mem_bytes hgives hmem
      · exact absurd (List.mem_singleton.mp hmem) (by decide)
    · rw [hraw, List.append_assoc, List.singleton_append]
  rcases encodes_cases h with ⟨l, trailers, hgives, hraw, hpayload⟩ |
    ⟨l, data, rest, payload', hgives, hne, hraw, hpayload, hrest⟩
  · exact Or.inl ⟨l, hgives, (hline hgives hraw).left, hpayload⟩
  · rcases hline hgives hraw with ⟨hfront', hback⟩
    exact Or.inr ⟨l, data, rest, payload', hgives, hne, hfront', hback,
      hpayload, hrest⟩

theorem remains_afterSize {size n : Nat} {more payload : Bytes}
    (hgives : l.Gives n) (hparse : parseSize l.bytes = some size)
    (h : (n = 0 ∧ payload = []) ∨ exists data rest payload', data.length = n ∧
      data ≠ [] ∧ more = data ++ cr :: lf :: rest ∧ payload = data ++ payload' ∧
      Encodes rest payload') :
    Decoder.Remains { state := afterSize size, line := [] } more payload := by
  rw [size_of_parseSize hgives hparse]
  rcases h with ⟨rfl, hpayload⟩ |
    ⟨data, rest, payload', hlength, hne, hmore, hpayload, hrest⟩
  · exact hpayload
  · have hpos : 0 < n := by
      rw [← hlength]
      exact List.length_pos_of_ne_nil hne
    unfold afterSize
    rw [dif_pos hpos]
    exact ⟨rfl, data, rest, payload', hlength, hmore, hpayload, hrest⟩

end AwsChunked

end Daemon
end Pacer
