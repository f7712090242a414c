import Pacer.Daemon.AwsChunked

/-!
# Framings of an `aws-chunked` body

The decoder is fed a body frame by frame.  This module compares framings with
one reading of the body a byte at a time that has no limit on a size line: a
framing is decoded exactly when that reading does not fail and the line is
within the limit wherever a frame ends.  A decoder that was fed a body without
failing has given out the bytes the body encodes.
-/

namespace Pacer
namespace Daemon

open Foundation

namespace AwsChunked

def endLine (line : Bytes) : Decoder :=
  if line.getLast? = some cr then
    match parseSize line.dropLast with
    | none => { state := .failed, line := line }
    | some size => { state := afterSize size, line := [] }
  else { state := .failed, line := line }

namespace Decoder

def byte (d : Decoder) (b : UInt8) : Decoder × Bytes :=
  match d.state with
  | .failed => (d, [])
  | .trailers => (d, [])
  | .data left _ => ({ d with state := afterData (left - 1) }, [b])
  | .dataEnd seenCr =>
    if b = (if seenCr then lf else cr) then
      ({ d with state := if seenCr then .sizeLine else .dataEnd true }, [])
    else (d.fail, [])
  | .sizeLine =>
    if b = lf then (endLine d.line, [])
    else ({ d with line := d.line ++ [b] }, [])

def bytes : Decoder -> Bytes -> Decoder × Bytes
  | d, [] => (d, [])
  | d, b :: rest =>
    (((d.byte b).1.bytes rest).1, (d.byte b).2 ++ ((d.byte b).1.bytes rest).2)

def Over (d : Decoder) : Prop :=
  d.state = .sizeLine ∧ maxChunkLine < d.line.length

end Decoder

def Decoder.Live (d : Decoder) : Prop :=
  d.state ≠ .failed ∧ ¬ d.Over

def decodeFrames : Decoder -> List Bytes -> Option (Decoder × Bytes)
  | d, [] => some (d, [])
  | d, frame :: rest =>
    match d.feed frame with
    | (_, none) => none
    | (d', some out) =>
      (decodeFrames d' rest).map fun final =>
        (final.1, out.flatten ++ final.2)

/-- What comes of a body in frames: whether it ended complete, and the object's
bytes.  `none` is a failed decode. -/
def outcome (frames : List Bytes) : Option (Bool × Bytes) :=
  (decodeFrames .new frames).map fun final => (final.1.isComplete, final.2)

/-!
## Reading byte by byte
-/

namespace Decoder

variable {d : Decoder}

theorem bytes_append (d : Decoder) (front back : Bytes) :
    d.bytes (front ++ back) =
      (((d.bytes front).1.bytes back).1,
        (d.bytes front).2 ++ ((d.bytes front).1.bytes back).2) := by
  induction front generalizing d with
  | nil => rfl
  | cons b rest ih =>
    rw [List.cons_append, bytes, ih, bytes, List.append_assoc]

theorem bytes_of_ignored (h : forall b, d.byte b = (d, [])) (input : Bytes) :
    d.bytes input = (d, []) := by
  induction input with
  | nil => rfl
  | cons b rest ih =>
    rw [bytes, h b, ih]
    rfl

theorem bytes_failed (h : d.state = .failed) (input : Bytes) :
    d.bytes input = (d, []) := by
  apply bytes_of_ignored
  intro b
  unfold byte
  rw [h]

theorem bytes_trailers (h : d.state = .trailers) (input : Bytes) :
    d.bytes input = (d, []) := by
  apply bytes_of_ignored
  intro b
  unfold byte
  rw [h]

theorem bytes_line (h : d.state = .sizeLine) {input : Bytes}
    (hinput : lf ∉ input) :
    d.bytes input = ({ d with line := d.line ++ input }, []) := by
  induction input generalizing d with
  | nil =>
    rw [List.append_nil]
    rfl
  | cons b rest ih =>
    rw [List.mem_cons, not_or] at hinput
    have hbyte : d.byte b = ({ d with line := d.line ++ [b] }, []) := by
      unfold byte
      rw [h]
      exact if_neg fun heq => hinput.left heq.symm
    rw [bytes, hbyte]
    have hrest : ({ d with line := d.line ++ [b] } : Decoder).bytes rest =
        _ := ih h hinput.right
    rw [hrest, List.append_assoc]
    rfl

theorem byte_lf (h : d.state = .sizeLine) :
    d.byte lf = (endLine d.line, []) := by
  unfold byte
  rw [h]
  exact if_pos rfl

theorem bytes_endLine (h : d.state = .sizeLine) {line : Bytes}
    (hline : lf ∉ line) (rest : Bytes) :
    d.bytes (line ++ lf :: rest) = (endLine (d.line ++ line)).bytes rest := by
  have hend : ({ d with line := d.line ++ line } : Decoder).byte lf =
      (endLine (d.line ++ line), []) := byte_lf h
  rw [bytes_append, bytes_line h hline, bytes, hend]
  rfl

theorem bytes_data {left : Nat} {line input : Bytes}
    (h : input.length ≤ left) :
    (Decoder.mk (afterData left) line).bytes input =
      (Decoder.mk (afterData (left - input.length)) line, input) := by
  induction input generalizing left with
  | nil => rfl
  | cons b rest ih =>
    rw [List.length_cons] at h ⊢
    have hpos : 0 < left := by lia
    have hbyte : (Decoder.mk (afterData left) line).byte b =
        (Decoder.mk (afterData (left - 1)) line, [b]) := by
      unfold byte afterData
      rw [dif_pos hpos]
    have hleft : left - (rest.length + 1) = left - 1 - rest.length := by
      lia
    rw [bytes, hbyte, ih (by lia), hleft]
    rfl

end Decoder

/-!
## A frame
-/

/-- Only a decoder that reads a size line, or that failed, keeps a line. -/
def Decoder.Clean (d : Decoder) : Prop :=
  d.state = .sizeLine ∨ d.state = .failed ∨ d.line = []

theorem afterSize_ne_failed (size : Nat) : afterSize size ≠ .failed := by
  unfold afterSize
  split
  · intro h
    cases h
  · intro h
    cases h

theorem clean_endLine (line : Bytes) : (endLine line).Clean := by
  unfold endLine
  split
  · split
    · exact Or.inr (Or.inl rfl)
    · exact Or.inr (Or.inr rfl)
  · exact Or.inr (Or.inl rfl)

variable {d d' : Decoder} {input : Bytes}

theorem Decoder.Clean.byte (h : d.Clean) (b : UInt8) :
    (d.byte b).1.Clean := by
  unfold Decoder.byte
  unfold Clean at h
  split
  · exact h
  · exact h
  · rename_i left hpos hstate
    rw [hstate] at h
    rcases h with h | h | h
    · cases h
    · cases h
    · exact Or.inr (Or.inr h)
  · rename_i seenCr hstate
    rw [hstate] at h
    by_cases hb : b = (if seenCr then lf else cr)
    · rw [if_pos hb]
      rcases h with h | h | h
      · cases h
      · cases h
      · exact Or.inr (Or.inr h)
    · rw [if_neg hb]
      exact Or.inr (Or.inl rfl)
  · rename_i hstate
    split
    · exact clean_endLine d.line
    · exact Or.inl hstate

theorem Decoder.Clean.bytes (h : d.Clean) (input : Bytes) :
    (d.bytes input).1.Clean := by
  induction input generalizing d with
  | nil => exact h
  | cons b rest ih => exact ih (h.byte b)

theorem Decoder.Clean.of_bytes {input out : Bytes} (h : d.Clean)
    (hbytes : d.bytes input = (d', out)) : d'.Clean := by
  have hafter := h.bytes input
  rw [hbytes] at hafter
  exact hafter

theorem sizeLine_cases (d : Decoder) (input : Bytes) :
    (lf ∉ input ∧ sizeLine d input =
        if maxChunkLine < (d.line ++ input).length then
          ({ state := .failed, line := d.line ++ input }, none)
        else ({ d with line := d.line ++ input }, some [])) ∨
      exists before rest, lf ∉ before ∧ input = before ++ lf :: rest ∧
        sizeLine d input = (endLine (d.line ++ before),
          if (endLine (d.line ++ before)).state = .failed then none
          else some rest) := by
  have hinput := List.takeWhile_append_dropWhile (p := (· ≠ lf)) (l := input)
  have hbefore : lf ∉ input.takeWhile (· ≠ lf) := by
    intro hmem
    have hne := List.mem_takeWhile_imp hmem
    simp at hne
  unfold sizeLine
  dsimp only
  cases hrest : input.dropWhile (· ≠ lf) with
  | nil =>
    rw [hrest, List.append_nil] at hinput
    rw [hinput] at hbefore ⊢
    exact Or.inl ⟨hbefore, rfl⟩
  | cons first rest =>
    have hfirst : first = lf := by
      have hhead := List.head?_dropWhile_not (· ≠ lf) input
      rw [hrest] at hhead
      simpa using hhead
    rw [hrest, hfirst] at hinput
    refine Or.inr ⟨_, rest, hbefore, hinput.symm, ?_⟩
    generalize d.line ++ input.takeWhile (· ≠ lf) = line
    unfold endLine
    dsimp only
    by_cases hcr : line.getLast? = some cr
    · rw [if_pos hcr, if_pos hcr]
      cases parseSize line.dropLast with
      | none => rfl
      | some size =>
        dsimp only
        rw [if_neg (afterSize_ne_failed size)]
    · rw [if_neg hcr, if_neg hcr]
      rfl

theorem live_of_state (hfailed : d.state ≠ .failed)
    (hsize : d.state ≠ .sizeLine) : d.Live :=
  ⟨hfailed, fun hover => hsize hover.left⟩

theorem live_trailers (line : Bytes) : (Decoder.mk .trailers line).Live := by
  apply live_of_state
  · intro h
    cases h
  · intro h
    cases h

theorem live_dataEnd (seenCr : Bool) (line : Bytes) :
    (Decoder.mk (.dataEnd seenCr) line).Live := by
  apply live_of_state
  · intro h
    cases h
  · intro h
    cases h

theorem live_afterData (left : Nat) (line : Bytes) :
    (Decoder.mk (afterData left) line).Live := by
  unfold afterData
  split
  · apply live_of_state
    · intro h
      cases h
    · intro h
      cases h
  · exact live_dataEnd false line

theorem not_over_endLine (line : Bytes) : ¬ (endLine line).Over := by
  intro hover
  have hstate := hover.left
  unfold endLine at hstate
  split at hstate
  · split at hstate
    · cases hstate
    unfold afterSize at hstate
    dsimp only at hstate
    split at hstate
    · cases hstate
    · cases hstate
  · cases hstate

variable {out : List Bytes}

theorem bytes_of_step {input rest : Bytes} (hne : input ≠ [])
    (h : step d input = (d', some (out, rest))) :
    exists front, input = front ++ rest ∧ front ≠ [] ∧
      d.bytes front = (d', out.flatten) ∧ (d.Clean -> d'.Live) := by
  unfold step at h
  split at h
  · cases h
  · rename_i hstate
    cases h
    refine ⟨input, (List.append_nil input).symm, hne,
      Decoder.bytes_trailers hstate input, fun _ => ?_⟩
    apply live_of_state
    · rw [hstate]
      intro h
      cases h
    · rw [hstate]
      intro h
      cases h
  · rename_i left hpos hstate
    cases h
    have hlen : (input.take (min left input.length)).length =
        min left input.length := by
      rw [List.length_take]
      lia
    have hinput := List.length_pos_of_ne_nil hne
    have hd : d = Decoder.mk (afterData left) d.line := by
      unfold afterData
      rw [dif_pos hpos, ← hstate]
    refine ⟨_, (List.take_append_drop _ input).symm, ?_, ?_, ?_⟩
    · apply List.ne_nil_of_length_pos
      lia
    · rw [hd, Decoder.bytes_data (by lia), hlen, List.flatten_singleton]
    · exact fun _ => live_afterData _ _
  · rename_i seenCr hstate
    by_cases hhead : input.head? = some (if seenCr then lf else cr)
    · rw [if_pos hhead] at h
      cases h
      cases input with
      | nil => exact absurd rfl hne
      | cons b tail =>
        have hb : b = (if seenCr then lf else cr) := Option.some.inj hhead
        have hbyte : d.byte b = ({ d with
            state := if seenCr then .sizeLine else .dataEnd true }, []) := by
          unfold Decoder.byte
          rw [hstate]
          exact if_pos hb
        refine ⟨[b], rfl, List.cons_ne_nil _ _, ?_, ?_⟩
        · rw [Decoder.bytes, hbyte]
          rfl
        · intro hclean
          constructor
          · cases seenCr with
            | false | true =>
              intro h
              cases h
          · intro hover
            have hlong : maxChunkLine < d.line.length := hover.right
            rcases hclean with hsize | hfailed | hline
            · rw [hstate] at hsize
              cases hsize
            · rw [hstate] at hfailed
              cases hfailed
            · rw [hline] at hlong
              cases hlong
    · rw [if_neg hhead] at h
      cases h
  · rename_i hstate
    rcases sizeLine_cases d input with ⟨hlf, hsize⟩ |
      ⟨before, tail, hlf, rfl, hsize⟩
    · rw [hsize] at h
      split at h
      · cases h
      rename_i next rest hstep
      cases h
      split at hstep
      · cases hstep
      rename_i hshort
      cases hstep
      refine ⟨input, (List.append_nil input).symm, hne,
        Decoder.bytes_line hstate hlf, fun _ => ?_⟩
      constructor
      · show d.state ≠ .failed
        rw [hstate]
        intro h
        cases h
      · intro hover
        exact hshort hover.right
    · rw [hsize] at h
      split at h
      · cases h
      rename_i next rest hstep
      cases h
      injection hstep with hend hrest
      split at hrest
      · cases hrest
      rename_i hlive
      cases hrest
      refine ⟨before ++ [lf], ?_, ?_, ?_, ?_⟩
      · rw [List.append_assoc, List.singleton_append]
      · simp
      · rw [Decoder.bytes_endLine hstate hlf, hend]
        rfl
      · rw [← hend]
        exact fun _ => ⟨hlive, not_over_endLine _⟩

theorem bytes_of_step_none (hne : input ≠ []) (h : step d input = (d', none)) :
    (d.bytes input).1.state = .failed ∨ (d.bytes input).1.Over := by
  unfold step at h
  split at h
  · rename_i hstate
    rw [Decoder.bytes_failed hstate]
    exact Or.inl hstate
  · cases h
  · cases h
  · rename_i seenCr hstate
    by_cases hhead : input.head? = some (if seenCr then lf else cr)
    · rw [if_pos hhead] at h
      cases h
    cases input with
    | nil => exact absurd rfl hne
    | cons b tail =>
      apply Or.inl
      have hbyte : d.byte b = (d.fail, []) := by
        unfold Decoder.byte
        rw [hstate]
        apply if_neg
        intro hb
        exact hhead (congrArg some hb)
      rw [Decoder.bytes, hbyte]
      show (d.fail.bytes tail).1.state = .failed
      rw [Decoder.bytes_failed rfl]
      rfl
  · rename_i hstate
    rcases sizeLine_cases d input with ⟨hlf, hsize⟩ |
      ⟨before, tail, hlf, rfl, hsize⟩
    · rw [hsize] at h
      split at h
      · rename_i hstep
        split at hstep
        · rename_i hlong
          rw [Decoder.bytes_line hstate hlf]
          exact Or.inr ⟨hstate, hlong⟩
        · cases hstep
      · cases h
    · rw [hsize] at h
      split at h
      · rename_i hstep
        injection hstep with _ hrest
        split at hrest
        · rename_i hfailed
          rw [Decoder.bytes_endLine hstate hlf, Decoder.bytes_failed hfailed]
          exact Or.inl hfailed
        · cases hrest
      · cases h

theorem bytes_of_feedFrom {fuel : Nat}
    (h : feedFrom fuel d input = (d', some out)) :
    d.bytes input = (d', out.flatten) ∧ (d.Clean -> d.Live -> d'.Live) := by
  induction fuel generalizing d input out with
  | zero =>
    cases input with
    | nil =>
      cases h
      exact ⟨rfl, fun _ hlive => hlive⟩
    | cons b rest => cases h
  | succ fuel ih =>
    cases input with
    | nil =>
      cases h
      exact ⟨rfl, fun _ hlive => hlive⟩
    | cons b input =>
      unfold feedFrom at h
      split at h
      · cases h
      rename_i next front rest hstep
      rcases bytes_of_step (List.cons_ne_nil b input) hstep with
        ⟨taken, hinput, _, hbytes, hnext⟩
      split at h
      · cases h
      rename_i final back hrest
      cases h
      rcases ih hrest with ⟨hback, hfinal⟩
      constructor
      · rw [hinput, Decoder.bytes_append, hbytes, hback,
          List.flatten_append]
      · intro hclean _
        exact hfinal (hclean.of_bytes hbytes) (hnext hclean)

theorem bytes_of_feedFrom_none {fuel : Nat} (hclean : d.Clean)
    (hfuel : input.length ≤ fuel) (h : feedFrom fuel d input = (d', none)) :
    (d.bytes input).1.state = .failed ∨ (d.bytes input).1.Over := by
  induction fuel generalizing d input with
  | zero =>
    cases input with
    | nil => cases h
    | cons b rest => cases hfuel
  | succ fuel ih =>
    cases input with
    | nil => cases h
    | cons b input =>
      unfold feedFrom at h
      split at h
      · rename_i hstep
        exact bytes_of_step_none (List.cons_ne_nil b input) hstep
      · rename_i next front rest hstep
        rcases bytes_of_step (List.cons_ne_nil b input) hstep with
          ⟨taken, hinput, hne, hbytes, _⟩
        have hcleanNext := hclean.of_bytes hbytes
        have hlen := congrArg List.length hinput
        rw [List.length_append] at hlen
        have htaken := List.length_pos_of_ne_nil hne
        split at h
        · rename_i hrest
          have hshorter : rest.length ≤ fuel := by
            rw [List.length_cons] at hfuel hlen
            lia
          rw [hinput, Decoder.bytes_append, hbytes]
          cases h
          exact ih hcleanNext hshorter hrest
        · cases h

/-!
## A frame of a body
-/

variable {payload : Bytes}

theorem remains_endLine {line more : Bytes} (hline : lf ∉ line)
    (h : Encodes (line ++ lf :: more) payload) :
    (endLine line).Remains more payload := by
  unfold endLine
  split
  · split
    · trivial
    · rename_i size hparse
      rcases line_of_encodes hline h with ⟨l, hgives, hfront, hpayload⟩ |
        ⟨l, data, rest, payload', hgives, hne, hfront, hmore⟩
      · rw [hfront, List.dropLast_concat] at hparse
        exact remains_afterSize hgives hparse (Or.inl ⟨rfl, hpayload⟩)
      · rw [hfront, List.dropLast_concat] at hparse
        exact remains_afterSize hgives hparse
          (Or.inr ⟨data, rest, payload', rfl, hne, hmore⟩)
  · trivial

theorem remains_byte {b : UInt8} {more : Bytes}
    (h : d.Remains (b :: more) payload) :
    exists payload', payload = (d.byte b).2 ++ payload' ∧
      (d.byte b).1.Remains more payload' := by
  unfold Decoder.byte
  unfold Decoder.Remains at h
  split
  · rename_i hstate
    refine ⟨payload, rfl, ?_⟩
    unfold Decoder.Remains
    rw [hstate]
    trivial
  · rename_i hstate
    rw [hstate] at h
    refine ⟨payload, rfl, ?_⟩
    unfold Decoder.Remains
    rw [hstate]
    exact h
  · rename_i left hpos hstate
    rw [hstate] at h
    rcases h with ⟨hline, data, rest, payload', hlength, hmore, hpayload, hrest⟩
    cases data with
    | nil =>
      rw [← hlength] at hpos
      cases hpos
    | cons first data =>
      cases hmore
      have hleft : left - 1 = data.length := by
        rw [← hlength]
        rfl
      refine ⟨data ++ payload', hpayload, ?_⟩
      rw [hleft]
      unfold afterData
      split
      · exact ⟨hline, data, rest, payload', rfl, rfl, rfl, hrest⟩
      · rename_i hnone
        have hempty := List.eq_nil_of_length_eq_zero
          (Nat.eq_zero_of_not_pos hnone)
        rw [hempty]
        exact ⟨hline, rest, rfl, hrest⟩
  · rename_i seenCr hstate
    rw [hstate] at h
    cases seenCr with
    | false =>
      rcases h with ⟨hline, rest, hmore, hrest⟩
      cases hmore
      exact ⟨payload, rfl, hline, rest, rfl, hrest⟩
    | true =>
      rcases h with ⟨hline, rest, hmore, hrest⟩
      cases hmore
      refine ⟨payload, rfl, ?_, ?_⟩
      · rw [hline]
        exact List.not_mem_nil
      · rw [hline]
        exact hrest
  · rename_i hstate
    rw [hstate] at h
    rcases h with ⟨hline, hencodes⟩
    split
    · rename_i hb
      rw [hb] at hencodes
      exact ⟨payload, rfl, remains_endLine hline hencodes⟩
    · rename_i hb
      refine ⟨payload, rfl, ?_⟩
      unfold Decoder.Remains
      rw [hstate]
      constructor
      · intro hmem
        rcases List.mem_append.mp hmem with hmem | hmem
        · exact hline hmem
        · exact hb (List.mem_singleton.mp hmem).symm
      · rw [List.append_assoc]
        exact hencodes

theorem remains_bytes {more : Bytes} (h : d.Remains (input ++ more) payload) :
    exists payload', payload = (d.bytes input).2 ++ payload' ∧
      (d.bytes input).1.Remains more payload' := by
  induction input generalizing d payload with
  | nil => exact ⟨payload, rfl, h⟩
  | cons b rest ih =>
    rcases remains_byte h with ⟨payload', hpayload, hnext⟩
    rcases ih hnext with ⟨payload'', hpayload', hlast⟩
    refine ⟨payload'', ?_, hlast⟩
    rw [hpayload, hpayload', Decoder.bytes, List.append_assoc]

/-- After the bytes `sent` the decoder has given out `payload`: whatever body
begins with them encodes these bytes first, and what the decoder expects is the
rest of it. -/
def Decoder.Tracks (d : Decoder) (sent payload : Bytes) : Prop :=
  forall more whole, Encodes (sent ++ more) whole ->
    exists rest, whole = payload ++ rest ∧ d.Remains more rest

theorem tracks_new : Decoder.new.Tracks [] [] :=
  fun _ whole h => ⟨whole, rfl, remains_new h⟩

theorem Decoder.Tracks.feed {sent frame : Bytes} (h : d.Tracks sent payload)
    (hfeed : d.feed frame = (d', some out)) :
    d'.Tracks (sent ++ frame) (payload ++ out.flatten) := by
  intro more whole hencodes
  rw [List.append_assoc] at hencodes
  rcases h (frame ++ more) whole hencodes with ⟨rest, hwhole, hremains⟩
  rcases remains_bytes hremains with ⟨rest', hrest, hremains'⟩
  rw [(bytes_of_feedFrom hfeed).left] at hrest hremains'
  exists rest'
  rw [hwhole, hrest, List.append_assoc]
  exact ⟨rfl, hremains'⟩

theorem Decoder.Tracks.isPrefix {sent more whole : Bytes}
    (h : d.Tracks sent payload) (hencodes : Encodes (sent ++ more) whole) :
    payload <+: whole := by
  rcases h more whole hencodes with ⟨rest, hwhole, _⟩
  exact ⟨rest, hwhole.symm⟩

theorem Decoder.Tracks.complete {sent whole : Bytes} (h : d.Tracks sent payload)
    (hlive : d.state ≠ .failed) (hencodes : Encodes sent whole) :
    payload = whole := by
  rw [← List.append_nil sent] at hencodes
  rcases h [] whole hencodes with ⟨rest, hwhole, hremains⟩
  rw [hwhole, (trailers_of_remains_nil hremains hlive).right, List.append_nil]

theorem Decoder.Tracks.isComplete {sent whole : Bytes}
    (h : d.Tracks sent payload) (hlive : d.state ≠ .failed)
    (hencodes : Encodes sent whole) : d.isComplete = true := by
  rw [← List.append_nil sent] at hencodes
  rcases h [] whole hencodes with ⟨rest, _, hremains⟩
  exact decide_eq_true (trailers_of_remains_nil hremains hlive).left

/-!
## All frames
-/

theorem decodeFrames_eq_some {frames : List Bytes} {out : Bytes}
    (hclean : d.Clean) (hlive : d.Live) :
    decodeFrames d frames = some (d', out) <->
      d.bytes frames.flatten = (d', out) ∧ d'.state ≠ .failed ∧
        forall front back, frames = front ++ back ->
          ¬ (d.bytes front.flatten).1.Over := by
  induction frames generalizing d out with
  | nil =>
    constructor
    · intro h
      cases h
      refine ⟨rfl, hlive.left, ?_⟩
      intro front back hsplit
      rw [(List.append_eq_nil_iff.mp hsplit.symm).left]
      exact hlive.right
    · rintro ⟨h, _⟩
      cases h
      rfl
  | cons frame rest ih =>
    rw [decodeFrames, List.flatten_cons, Decoder.bytes_append]
    cases hfeed : d.feed frame with
    | mk next result =>
      cases result with
      | none =>
        constructor
        · intro h
          cases h
        rintro ⟨hbytes, hfinal, hbounds⟩
        rcases bytes_of_feedFrom_none hclean (Nat.le_refl _) hfeed with
          hfailed | hover
        · rw [Decoder.bytes_failed hfailed] at hbytes
          cases hbytes
          exact absurd hfailed hfinal
        · have hfirst := hbounds [frame] rest rfl
          rw [List.flatten_singleton] at hfirst
          exact absurd hover hfirst
      | some pieces =>
        rcases bytes_of_feedFrom hfeed with ⟨hbytes, hlater⟩
        have hnext := hlater hclean hlive
        have hcleanNext := hclean.of_bytes hbytes
        rw [hbytes]
        constructor
        · intro h
          rcases Option.map_eq_some_iff.mp h with
            ⟨final, hdecode, hfinal⟩
          cases hfinal
          rcases (ih hcleanNext hnext).mp hdecode with
            ⟨hback, hstate, hbounds⟩
          rw [hback]
          refine ⟨rfl, hstate, ?_⟩
          intro front back hsplit
          cases front with
          | nil => exact hlive.right
          | cons first more =>
            cases hsplit
            rw [List.flatten_cons, Decoder.bytes_append, hbytes]
            exact hbounds more back rfl
        · rintro ⟨hback, hstate, hbounds⟩
          cases hback
          have hdecode : decodeFrames next rest =
              some (next.bytes rest.flatten) := by
            apply (ih hcleanNext hnext).mpr
            refine ⟨rfl, hstate, ?_⟩
            intro front back hsplit
            have hbound := hbounds (frame :: front) back
              (congrArg (frame :: ·) hsplit)
            rw [List.flatten_cons, Decoder.bytes_append,
              hbytes] at hbound
            exact hbound
          dsimp only
          rw [hdecode]
          rfl

end AwsChunked

end Daemon
end Pacer
