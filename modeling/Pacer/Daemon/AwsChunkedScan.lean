import Pacer.Daemon.AwsChunkedFraming

/-!
# What the decoder can read

The byte strings the decoder reads, as a grammar with the size lines in it.  All
framings of a string come to the same unless it can be read and has a size line
past the limit, which is only looked at where a frame ends.  A body written with
lines inside the limit is decoded in every framing, and no front of it that
stops inside the last line is complete.
-/

namespace Pacer
namespace Daemon

open Foundation

namespace AwsChunked

/-!
## Strings that can be read
-/

/-- A byte string that can be read so far: its complete size lines, each with
its line feed left off, the data in it, and whether it has its end.  Nothing
limits a line but that one without an end is kept. -/
inductive Scan : Bytes -> List Bytes -> Bytes -> Bool -> Prop where
  | line {s : Bytes} : lf ∉ s -> s.length ≤ maxChunkLine -> Scan s [] [] false
  | last {l trailers : Bytes} : lf ∉ l -> parseSize l = some 0 ->
      Scan (l ++ cr :: lf :: trailers) [l ++ [cr]] [] true
  | data {l data : Bytes} {n : Nat} : lf ∉ l -> parseSize l = some n ->
      0 < n -> data.length ≤ n ->
      Scan (l ++ cr :: lf :: data) [l ++ [cr]] data false
  | dataEnd {l data : Bytes} : lf ∉ l -> parseSize l = some data.length ->
      0 < data.length ->
      Scan (l ++ cr :: lf :: (data ++ [cr])) [l ++ [cr]] data false
  | chunk {l data rest out : Bytes} {lines : List Bytes} {complete : Bool} :
      lf ∉ l -> parseSize l = some data.length -> 0 < data.length ->
      Scan rest lines out complete ->
      Scan (l ++ cr :: lf :: (data ++ cr :: lf :: rest)) ((l ++ [cr]) :: lines)
        (data ++ out) complete

theorem clean_new : Decoder.new.Clean := Or.inl rfl

theorem live_new : Decoder.new.Live := by
  constructor
  · exact nofun
  · intro hover
    cases hover.right

variable {data : Bytes}

section Reading

variable {l rest : Bytes} {n : Nat}

theorem lf_not_mem_concat (h : lf ∉ l) : lf ∉ l ++ [cr] := by
  intro hmem
  rcases List.mem_append.mp hmem with hmem | hmem
  · exact h hmem
  · exact absurd (List.mem_singleton.mp hmem) (by decide)

theorem endLine_of_parse (hparse : parseSize l = some n) :
    endLine (l ++ [cr]) = { state := afterSize n, line := [] } := by
  unfold endLine
  rw [List.getLast?_concat, if_pos rfl, List.dropLast_concat, hparse]

theorem bytes_size (hl : lf ∉ l) (hparse : parseSize l = some n) :
    Decoder.new.bytes (l ++ cr :: lf :: rest) =
      (Decoder.mk (afterSize n) []).bytes rest := by
  have hline : l ++ cr :: lf :: rest = (l ++ [cr]) ++ lf :: rest := by
    rw [List.append_assoc]
    rfl
  have hend : Decoder.new.line ++ (l ++ [cr]) = l ++ [cr] := rfl
  rw [hline, Decoder.bytes_endLine rfl (lf_not_mem_concat hl), hend,
    endLine_of_parse hparse]

theorem afterSize_of_pos (h : 0 < n) : afterSize n = afterData n := by
  unfold afterSize afterData
  rw [dif_pos h, dif_pos h]

theorem afterData_sub_self (n : Nat) : afterData (n - n) = .dataEnd false := by
  rw [Nat.sub_self]
  rfl

theorem bytes_inside (hl : lf ∉ l) (hparse : parseSize l = some n)
    (hpos : 0 < n) (hdata : data.length ≤ n) :
    Decoder.new.bytes (l ++ cr :: lf :: data) =
      (Decoder.mk (afterData (n - data.length)) [], data) := by
  rw [bytes_size hl hparse, afterSize_of_pos hpos, Decoder.bytes_data hdata]

theorem bytes_chunk (hl : lf ∉ l) (hparse : parseSize l = some data.length)
    (hpos : 0 < data.length) :
    Decoder.new.bytes (l ++ cr :: lf :: (data ++ rest)) =
      (((Decoder.mk (.dataEnd false) []).bytes rest).1,
        data ++ ((Decoder.mk (.dataEnd false) []).bytes rest).2) := by
  rw [bytes_size hl hparse, afterSize_of_pos hpos, Decoder.bytes_append,
    Decoder.bytes_data (Nat.le_refl _), afterData_sub_self]

theorem bytes_cr :
    (Decoder.mk (.dataEnd false) []).bytes [cr] =
      (Decoder.mk (.dataEnd true) [], []) := rfl

theorem bytes_crlf (rest : Bytes) :
    (Decoder.mk (.dataEnd false) []).bytes (cr :: lf :: rest) =
      Decoder.new.bytes rest := rfl

end Reading

variable {lines : List Bytes} {complete : Bool} {s out : Bytes}

theorem bytes_of_scan (h : Scan s lines out complete) :
    exists d, Decoder.new.bytes s = (d, out) ∧ d.Live ∧
      d.isComplete = complete := by
  induction h with
  | line hlf hshort =>
    refine ⟨_, Decoder.bytes_line rfl hlf, ?_, rfl⟩
    constructor
    · intro h
      cases h
    · intro hover
      exact absurd hover.right (Nat.not_lt.mpr hshort)
  | last hl hparse =>
    refine ⟨Decoder.mk .trailers [], ?_, live_trailers [], rfl⟩
    rw [bytes_size hl hparse]
    exact Decoder.bytes_trailers rfl _
  | data hl hparse hpos hdata =>
    refine ⟨_, bytes_inside hl hparse hpos hdata, live_afterData _ _, ?_⟩
    unfold afterData
    split
    · rfl
    · rfl
  | dataEnd hl hparse hpos =>
    refine ⟨Decoder.mk (.dataEnd true) [], ?_, live_dataEnd true [], rfl⟩
    rw [bytes_chunk hl hparse hpos, bytes_cr, List.append_nil]
  | chunk hl hparse hpos _ ih =>
    rcases ih with ⟨d, hbytes, hlive, hcomplete⟩
    refine ⟨d, ?_, hlive, hcomplete⟩
    rw [bytes_chunk hl hparse hpos, bytes_crlf, hbytes]

theorem over_of_scan {s out line : Bytes} (h : Scan s lines out complete)
    (hline : line ∈ lines) (hlong : maxChunkLine < line.length) :
    exists front back, s = front ++ back ∧
      (Decoder.new.bytes front).1.Over := by
  have hhead : forall (l tail : Bytes), lf ∉ l ->
      maxChunkLine < (l ++ [cr]).length ->
      exists front back, l ++ cr :: lf :: tail = front ++ back ∧
        (Decoder.new.bytes front).1.Over := by
    intro l tail hl hover
    refine ⟨l ++ [cr], lf :: tail, ?_, ?_⟩
    · rw [List.append_assoc]
      rfl
    · rw [Decoder.bytes_line rfl (lf_not_mem_concat hl)]
      exact ⟨rfl, hover⟩
  induction h with
  | line => cases hline
  | last hl _ | data hl _ _ _ | dataEnd hl _ _ =>
    rw [List.mem_singleton.mp hline] at hlong
    exact hhead _ _ hl hlong
  | @chunk l data _ _ _ _ hl hparse hpos _ ih =>
    rcases List.mem_cons.mp hline with hfirst | hline
    · rw [hfirst] at hlong
      exact hhead _ _ hl hlong
    · rcases ih hline with ⟨front, back, hsplit, hover⟩
      refine ⟨l ++ cr :: lf :: (data ++ cr :: lf :: front), back, ?_, ?_⟩
      · rw [hsplit]
        simp
      · rw [bytes_chunk hl hparse hpos, bytes_crlf]
        exact hover

variable {tail front back : Bytes}

theorem front_of_line {l : Bytes} (h : l ++ cr :: lf :: tail = front ++ back) :
    (exists more, l ++ [cr] = front ++ more) ∨
      exists inside, front = l ++ cr :: lf :: inside ∧
        tail = inside ++ back := by
  have hsplit : front ++ back = (l ++ [cr]) ++ lf :: tail := by
    rw [← h, List.append_assoc]
    rfl
  rcases List.append_eq_append_iff.mp hsplit with
    ⟨more, hline, _⟩ | ⟨inside, hfront, htail⟩
  · exact Or.inl ⟨more, hline⟩
  · cases inside with
    | nil => exact Or.inl ⟨[], by rw [hfront, List.append_nil, List.append_nil]⟩
    | cons b inside =>
      rw [List.cons_append, List.cons.injEq] at htail
      refine Or.inr ⟨inside, ?_, htail.right⟩
      rw [hfront, ← htail.left, List.append_assoc]
      rfl

theorem not_over_of_line {l : Bytes} {n : Nat} (hl : lf ∉ l)
    (hparse : parseSize l = some n) (hshort : (l ++ [cr]).length ≤ maxChunkLine)
    (hsplit : l ++ cr :: lf :: tail = front ++ back)
    (htail : forall inside, tail = inside ++ back ->
      ¬ ((Decoder.mk (afterSize n) []).bytes inside).1.Over) :
    ¬ (Decoder.new.bytes front).1.Over := by
  rcases front_of_line hsplit with ⟨more, hline⟩ | ⟨inside, hfront, hinside⟩
  · have hlf := lf_not_mem_concat hl
    rw [hline] at hlf hshort
    rw [List.mem_append, not_or] at hlf
    rw [List.length_append] at hshort
    rw [Decoder.bytes_line rfl hlf.left]
    intro hover
    have hlong : maxChunkLine < front.length := hover.right
    lia
  · rw [hfront, bytes_size hl hparse]
    exact htail inside hinside

theorem not_over_of_data {n : Nat} (hdata : data.length ≤ n)
    (hsplit : data ++ tail = front ++ back)
    (htail : forall inside, tail = inside ++ back ->
      ¬ ((Decoder.mk (afterData (n - data.length)) []).bytes inside).1.Over) :
    ¬ ((Decoder.mk (afterData n) []).bytes front).1.Over := by
  rcases List.append_eq_append_iff.mp hsplit with
    ⟨inside, hfront, hinside⟩ | ⟨more, hmore, _⟩
  · rw [hfront, Decoder.bytes_append, Decoder.bytes_data hdata]
    exact htail inside hinside
  · rw [hmore, List.length_append] at hdata
    rw [Decoder.bytes_data (by lia)]
    exact (live_afterData _ _).right

theorem not_over_of_end (hsplit : cr :: tail = front ++ back)
    (htail : forall inside, tail = inside ++ back ->
      ¬ ((Decoder.mk (.dataEnd true) []).bytes inside).1.Over) :
    ¬ ((Decoder.mk (.dataEnd false) []).bytes front).1.Over := by
  cases front with
  | nil => exact nofun
  | cons b inside =>
    rw [List.cons_append, List.cons.injEq] at hsplit
    rw [← hsplit.left]
    exact htail inside hsplit.right

theorem not_over_of_scan (h : Scan s lines out complete)
    (hshort : forall line, line ∈ lines -> line.length ≤ maxChunkLine)
    (hsplit : s = front ++ back) :
    ¬ (Decoder.new.bytes front).1.Over := by
  induction h generalizing front back with
  | line hlf hlen =>
    rw [hsplit, List.mem_append, not_or] at hlf
    rw [hsplit, List.length_append] at hlen
    rw [Decoder.bytes_line rfl hlf.left]
    intro hover
    have hlong : maxChunkLine < front.length := hover.right
    lia
  | last hl hparse =>
    apply not_over_of_line hl hparse (hshort _ List.mem_cons_self) hsplit
    intro inside _
    rw [Decoder.bytes_trailers rfl]
    exact nofun
  | data hl hparse hpos hdata =>
    apply not_over_of_line hl hparse (hshort _ List.mem_cons_self) hsplit
    intro inside hinside
    rw [hinside, List.length_append] at hdata
    rw [afterSize_of_pos hpos, Decoder.bytes_data (by lia)]
    exact (live_afterData _ _).right
  | dataEnd hl hparse hpos =>
    apply not_over_of_line hl hparse (hshort _ List.mem_cons_self) hsplit
    intro inside hinside
    rw [afterSize_of_pos hpos]
    apply not_over_of_data (Nat.le_refl _) hinside
    intro mark hmark
    rw [afterData_sub_self]
    apply not_over_of_end hmark
    intro rest hrest
    rw [List.append_eq_nil_iff.mp hrest.symm |>.left]
    exact nofun
  | chunk hl hparse hpos _ ih =>
    apply not_over_of_line hl hparse (hshort _ List.mem_cons_self) hsplit
    intro inside hinside
    rw [afterSize_of_pos hpos]
    apply not_over_of_data (Nat.le_refl _) hinside
    intro mark hmark
    rw [afterData_sub_self]
    apply not_over_of_end hmark
    intro feed hfeed
    cases feed with
    | nil => exact nofun
    | cons b rest =>
      rw [List.cons_append, List.cons.injEq] at hfeed
      rw [← hfeed.left]
      exact ih (fun line hline => hshort line (List.mem_cons_of_mem _ hline))
        hfeed.right

theorem parse_of_endLine {line : Bytes}
    (h : (endLine line).state ≠ .failed) :
    exists l n, line = l ++ [cr] ∧ parseSize l = some n := by
  unfold endLine at h
  by_cases hcr : line.getLast? = some cr
  · rw [if_pos hcr] at h
    cases hparse : parseSize line.dropLast with
    | none =>
      rw [hparse] at h
      exact absurd rfl h
    | some n =>
      refine ⟨line.dropLast, n, ?_, hparse⟩
      exact (List.dropLast_append_getLast? cr hcr).symm
  · rw [if_neg hcr] at h
    exact absurd rfl h

theorem end_of_bytes
    (h : ((Decoder.mk (.dataEnd false) []).bytes tail).1.state ≠ .failed) :
    tail = [] ∨ tail = [cr] ∨ exists rest, tail = cr :: lf :: rest := by
  have hfail : forall (b : UInt8) (seenCr : Bool) (rest : Bytes),
      ((Decoder.mk (.dataEnd seenCr) []).bytes (b :: rest)).1.state ≠ .failed ->
      b = if seenCr then lf else cr := by
    intro b seenCr rest hstate
    apply Classical.byContradiction
    intro hne
    apply hstate
    have hbyte : (Decoder.mk (.dataEnd seenCr) []).byte b =
        (Decoder.mk .failed [], []) := if_neg hne
    rw [Decoder.bytes, hbyte, Decoder.bytes_failed rfl]
  cases tail with
  | nil => exact Or.inl rfl
  | cons b tail =>
    have hb : b = cr := hfail b false tail h
    rw [hb] at h ⊢
    cases tail with
    | nil => exact Or.inr (Or.inl rfl)
    | cons c rest =>
      have hc : c = lf := hfail c true rest h
      exact Or.inr (Or.inr ⟨rest, by rw [hc]⟩)

theorem scan_of_size {l rest out : Bytes} {n : Nat} {d : Decoder}
    (hl : lf ∉ l) (hparse : parseSize l = some n)
    (h : Decoder.new.bytes (l ++ cr :: lf :: rest) = (d, out))
    (hstate : d.state ≠ .failed)
    (htail : forall front tail more, rest = front ++ tail ->
      Decoder.new.bytes tail = (d, more) ->
      exists lines complete, Scan tail lines more complete) :
    exists lines complete,
      Scan (l ++ cr :: lf :: rest) lines out complete := by
  rcases Nat.eq_zero_or_pos n with hzero | hpos
  · rw [hzero] at hparse
    have htrailers : Decoder.new.bytes (l ++ cr :: lf :: rest) =
        (Decoder.mk .trailers [], []) := by
      rw [bytes_size hl hparse]
      exact Decoder.bytes_trailers rfl rest
    rw [htrailers] at h
    cases h
    exact ⟨_, _, .last hl hparse⟩
  · rcases Nat.le_total rest.length n with hshort | hfull
    · rw [bytes_inside hl hparse hpos hshort] at h
      cases h
      exact ⟨_, _, .data hl hparse hpos hshort⟩
    · have hrest := (List.take_append_drop n rest).symm
      have hn : (rest.take n).length = n := List.length_take_of_le hfull
      generalize rest.take n = data at hrest hn
      generalize rest.drop n = tail at hrest
      rw [← hn] at hparse hpos
      rw [hrest, bytes_chunk hl hparse hpos, Prod.mk.injEq] at h
      rw [← h.left] at hstate
      rw [hrest, ← h.right]
      rcases end_of_bytes hstate with hend | hend | ⟨behind, hend⟩
      · simp only [hend, Decoder.bytes, List.append_nil]
        exact ⟨_, _, .data hl hparse hpos (Nat.le_refl _)⟩
      · rw [hend, bytes_cr, List.append_nil]
        exact ⟨_, _, .dataEnd hl hparse hpos⟩
      · rw [hend, bytes_crlf] at h ⊢
        have hbehind : rest = (data ++ [cr, lf]) ++ behind := by
          rw [hrest, hend, List.append_assoc]
          rfl
        rcases htail _ behind _ hbehind (Prod.ext h.left rfl) with
          ⟨lines, complete, hscan⟩
        exact ⟨_, _, .chunk hl hparse hpos hscan⟩

theorem scan_of_bytes {d : Decoder} (h : Decoder.new.bytes s = (d, out))
    (hlive : d.Live) :
    exists lines complete, Scan s lines out complete := by
  induction hlen : s.length using Nat.strongRecOn generalizing s out with
  | ind len ih =>
    by_cases hlf : lf ∈ s
    · rcases List.eq_append_cons_of_mem hlf with ⟨line, rest, hs, hline⟩
      have hstate : (endLine line).state ≠ .failed := by
        intro hfailed
        have hend : Decoder.new.bytes s = (endLine line, []) := by
          rw [hs, Decoder.bytes_endLine rfl hline]
          exact Decoder.bytes_failed hfailed rest
        rw [h] at hend
        cases hend
        exact hlive.left hfailed
      rcases parse_of_endLine hstate with ⟨l, n, hl, hparse⟩
      have hs' : s = l ++ cr :: lf :: rest := by
        rw [hs, hl, List.append_assoc]
        rfl
      rw [hl, List.mem_append, not_or] at hline
      rw [hs'] at h hlen ⊢
      apply scan_of_size hline.left hparse h hlive.left
      intro front tail more hrest htail
      rw [hrest] at hlen
      exact ih tail.length (by simp at hlen; lia) htail rfl
    · rw [Decoder.bytes_line rfl hlf] at h
      cases h
      refine ⟨[], false, .line hlf ?_⟩
      apply Nat.not_lt.mp
      intro hlong
      exact hlive.right ⟨rfl, hlong⟩

/-!
## Independence of the framing
-/

variable {frames : List Bytes}

theorem outcome_of_within {s : Bytes} (hs : frames.flatten = s)
    (hstate : (Decoder.new.bytes s).1.state ≠ .failed)
    (hwithin : forall front back, frames = front ++ back ->
      ¬ (Decoder.new.bytes front.flatten).1.Over) :
    outcome frames =
      some ((Decoder.new.bytes s).1.isComplete, (Decoder.new.bytes s).2) := by
  have hframes : decodeFrames .new frames = some (Decoder.new.bytes s) := by
    apply (decodeFrames_eq_some clean_new live_new).mpr
    rw [hs]
    exact ⟨rfl, hstate, hwithin⟩
  unfold outcome
  rw [hframes, Option.map_some]

theorem outcome_of_front {s out : Bytes} (h : Scan s lines out complete)
    (hshort : forall line, line ∈ lines -> line.length ≤ maxChunkLine)
    (hs : s = front ++ back) (hframes : frames.flatten = front) :
    outcome frames =
      some ((Decoder.new.bytes front).1.isComplete,
        (Decoder.new.bytes front).2) := by
  apply outcome_of_within hframes
  · -- A decoder that fails stays failed, and this string does not fail.
    intro hfailed
    rcases bytes_of_scan h with ⟨d, hbytes, hlive, _⟩
    rw [hs, Decoder.bytes_append, Decoder.bytes_failed hfailed] at hbytes
    cases hbytes
    exact hlive.left hfailed
  · intro fs fs' hsplit
    have hfs : s = fs.flatten ++ (fs'.flatten ++ back) := by
      rw [hs, ← hframes, hsplit, List.flatten_append, List.append_assoc]
    exact not_over_of_scan h hshort hfs

theorem outcome_of_scan (h : Scan s lines out complete)
    (hshort : forall line, line ∈ lines -> line.length ≤ maxChunkLine)
    (hs : frames.flatten = s) :
    outcome frames = some (complete, out) := by
  rcases bytes_of_scan h with ⟨d, hbytes, _, hcomplete⟩
  rw [outcome_of_front h hshort (List.append_nil s).symm hs, hbytes, hcomplete]

theorem scan_of_outcome {out : Bytes}
    (h : outcome frames = some (complete, out)) :
    exists lines complete', Scan frames.flatten lines out complete' := by
  unfold outcome at h
  rw [Option.map_eq_some_iff] at h
  rcases h with ⟨⟨d, out'⟩, hframes, hout⟩
  cases hout
  rcases (decodeFrames_eq_some clean_new live_new).mp hframes with
    ⟨hbytes, hstate, hwithin⟩
  have hover := hwithin frames [] (List.append_nil frames).symm
  rw [hbytes] at hover
  exact scan_of_bytes hbytes ⟨hstate, hover⟩

theorem outcome_of_over (hover : (Decoder.new.bytes front).1.Over) :
    outcome [front, back] = none := by
  unfold outcome
  cases hframes : decodeFrames .new [front, back] with
  | none => rfl
  | some final =>
    rcases (decodeFrames_eq_some clean_new live_new).mp hframes with
      ⟨_, _, hwithin⟩
    refine absurd ?_ (hwithin [front] [back] rfl)
    rw [List.flatten_singleton]
    exact hover

theorem outcome_single_of_scan (h : Scan s lines out complete) :
    outcome [s] = some (complete, out) := by
  rcases bytes_of_scan h with ⟨d, hbytes, hlive, hcomplete⟩
  rw [outcome_of_within List.flatten_singleton, hbytes, hcomplete]
  · rw [hbytes]
    exact hlive.left
  · intro front back hsplit
    rcases List.append_eq_singleton_iff.mp hsplit.symm with
      ⟨hfront, _⟩ | ⟨hfront, _⟩
    · rw [hfront]
      exact live_new.right
    · rw [hfront, List.flatten_singleton, hbytes]
      exact hlive.right

/-- All framings of a string come to the same, unless it can be read and one of
its size lines is past the limit. -/
theorem framing_independent_iff (s : Bytes) :
    (forall frames frames' : List Bytes, frames.flatten = s ->
      frames'.flatten = s -> outcome frames = outcome frames') <->
    ¬ exists lines out complete, Scan s lines out complete ∧
      exists line, line ∈ lines ∧ maxChunkLine < line.length := by
  constructor
  · intro hsame hlong
    rcases hlong with ⟨lines, out, complete, hscan, line, hline, hlong⟩
    rcases over_of_scan hscan hline hlong with ⟨front, back, hs, hover⟩
    have hwhole := outcome_single_of_scan hscan
    have hpair : [front, back].flatten = s := by
      rw [hs]
      simp
    rw [hsame [s] [front, back] (by simp) hpair, outcome_of_over hover]
      at hwhole
    cases hwhole
  · intro hshort frames frames' hframes hframes'
    by_cases hscan : exists lines out complete, Scan s lines out complete
    · rcases hscan with ⟨lines, out, complete, hscan⟩
      have hlines : forall line, line ∈ lines -> line.length ≤ maxChunkLine := by
        intro line hline
        apply Nat.not_lt.mp
        intro hlong
        exact hshort ⟨lines, out, complete, hscan, line, hline, hlong⟩
      rw [outcome_of_scan hscan hlines hframes,
        outcome_of_scan hscan hlines hframes']
    · -- A string that cannot be read fails in every framing.
      have hnone : forall fs : List Bytes, fs.flatten = s ->
          outcome fs = none := by
        intro fs hfs
        cases hout : outcome fs with
        | none => rfl
        | some final =>
          rcases scan_of_outcome hout with ⟨lines, complete, h⟩
          rw [hfs] at h
          exact absurd ⟨lines, _, complete, h⟩ hscan
      rw [hnone frames hframes, hnone frames' hframes']

def longLine : Bytes := 48 :: semicolon :: List.replicate 255 120 ++ [cr]

/-- It is decoded when its line feed comes in the same frame, and fails when
the line feed is a frame of its own. -/
theorem long_line_depends_on_framing :
    [longLine ++ [lf]].flatten = [longLine, [lf]].flatten ∧
      outcome [longLine ++ [lf]] = some (true, []) ∧
      outcome [longLine, [lf]] = none := by
  refine ⟨?_, ?_, ?_⟩
  · simp
  · decide +kernel
  · decide +kernel

/-!
## Bodies as they are written
-/

namespace Encoding

/-- The chunks fit a machine word, and the size lines the limit. -/
def Bounded (e : Encoding) : Prop :=
  (forall chunk, chunk ∈ e.chunks -> chunk.2.length < 2 ^ 64 ∧
      (chunk.1.bytes ++ [cr]).length ≤ maxChunkLine) ∧
    (e.last.bytes ++ [cr]).length ≤ maxChunkLine

instance (e : Encoding) : Decidable e.Bounded := by
  unfold Bounded
  infer_instance

def unended (e : Encoding) : Bytes :=
  writeChunks e.chunks (e.last.bytes ++ [cr])

end Encoding

theorem scan_of_encoding {e : Encoding} (hwell : e.WellFormed)
    (hbounded : e.Bounded) :
    exists lines, Scan e.bytes lines e.payload true ∧
      forall line, line ∈ lines -> line.length ≤ maxChunkLine := by
  rcases e with ⟨chunks, last, trailers⟩
  induction chunks with
  | nil =>
    have hgives := hwell.right
    refine ⟨_, .last (lf_not_mem_bytes hgives) (parseSize_of_gives hgives
      (by decide)), ?_⟩
    intro line hline
    rw [List.mem_singleton.mp hline]
    exact hbounded.right
  | cons chunk rest ih =>
    rcases hwell.left chunk List.mem_cons_self with ⟨hne, hgives⟩
    rcases hbounded.left chunk List.mem_cons_self with ⟨hfits, hshort⟩
    have hrest : Encoding.WellFormed ⟨rest, last, trailers⟩ :=
      ⟨fun c hc => hwell.left c (List.mem_cons_of_mem _ hc), hwell.right⟩
    have hrest' : Encoding.Bounded ⟨rest, last, trailers⟩ :=
      ⟨fun c hc => hbounded.left c (List.mem_cons_of_mem _ hc),
        hbounded.right⟩
    rcases ih hrest hrest' with ⟨lines, hscan, hlines⟩
    refine ⟨_, .chunk (lf_not_mem_bytes hgives)
      (parseSize_of_gives hgives hfits) (List.length_pos_of_ne_nil hne)
      hscan, ?_⟩
    intro line hline
    rcases List.mem_cons.mp hline with hfirst | hline
    · rw [hfirst]
      exact hshort
    · exact hlines line hline

theorem bytes_writeChunks {chunks : List (SizeLine × Bytes)} (tail : Bytes)
    (hwell : forall chunk, chunk ∈ chunks ->
      chunk.2 ≠ [] ∧ chunk.1.Gives chunk.2.length)
    (hfits : forall chunk, chunk ∈ chunks -> chunk.2.length < 2 ^ 64) :
    (Decoder.new.bytes (writeChunks chunks tail)).1 =
      (Decoder.new.bytes tail).1 := by
  induction chunks with
  | nil => rfl
  | cons chunk rest ih =>
    rcases hwell chunk List.mem_cons_self with ⟨hne, hgives⟩
    have hparse := parseSize_of_gives hgives (hfits chunk List.mem_cons_self)
    unfold writeChunks
    rw [bytes_chunk (lf_not_mem_bytes hgives) hparse
      (List.length_pos_of_ne_nil hne), bytes_crlf]
    exact ih (fun c hc => hwell c (List.mem_cons_of_mem _ hc))
      (fun c hc => hfits c (List.mem_cons_of_mem _ hc))

theorem writeChunks_append (chunks : List (SizeLine × Bytes))
    (tail more : Bytes) :
    writeChunks chunks (tail ++ more) = writeChunks chunks tail ++ more := by
  induction chunks with
  | nil => rfl
  | cons chunk rest ih =>
    unfold writeChunks
    rw [ih]
    simp

theorem bytes_eq_unended (e : Encoding) :
    e.bytes = e.unended ++ lf :: e.trailers := by
  unfold Encoding.bytes Encoding.unended
  rw [← writeChunks_append, List.append_assoc]
  rfl

theorem state_unended {e : Encoding} (hwell : e.WellFormed)
    (hbounded : e.Bounded) :
    (Decoder.new.bytes e.unended).1.state = .sizeLine := by
  unfold Encoding.unended
  rw [bytes_writeChunks _ hwell.left fun c hc => (hbounded.left c hc).left,
    Decoder.bytes_line rfl (lf_not_mem_concat (lf_not_mem_bytes hwell.right))]
  rfl

/-- Decoding takes back how a body is written, in every framing: the whole body
gives the chunks and is complete, and a front that stops before the line feed of
the last line gives the front of them and is not. -/
theorem decoding_inverts_encoding (e : Encoding) (hwell : e.WellFormed)
    (hbounded : e.Bounded) :
    (forall frames : List Bytes, frames.flatten = e.bytes ->
      outcome frames = some (true, e.payload)) ∧
    (forall frames : List Bytes, frames.flatten <+: e.unended ->
      exists out, outcome frames = some (false, out) ∧ out <+: e.payload) := by
  rcases scan_of_encoding hwell hbounded with ⟨lines, hscan, hshort⟩
  constructor
  · intro frames hframes
    exact outcome_of_scan hscan hshort hframes
  · intro frames hfront
    rcases hfront with ⟨back, hfront⟩
    have hs : e.bytes = frames.flatten ++ (back ++ lf :: e.trailers) := by
      rw [bytes_eq_unended, ← hfront, List.append_assoc]
    have hstate := state_unended hwell hbounded
    rw [← hfront, Decoder.bytes_append] at hstate
    have hopen : (Decoder.new.bytes frames.flatten).1.isComplete = false := by
      apply decide_eq_false
      intro htrailers
      rw [Decoder.bytes_trailers htrailers, htrailers] at hstate
      cases hstate
    refine ⟨(Decoder.new.bytes frames.flatten).2, ?_, ?_⟩
    · rw [outcome_of_front hscan hshort hs rfl, hopen]
    · rcases bytes_of_scan hscan with ⟨d, hbytes, _, _⟩
      rw [hs, Decoder.bytes_append, Prod.mk.injEq] at hbytes
      exact ⟨_, hbytes.right⟩

/-- Two chunks, the first of which looks like a size line, with a line in upper
case and leading zeros and one with an extension. -/
def pairEncoding : Encoding where
  chunks := [(⟨['0', '0', '3'], []⟩, [48, cr, lf]),
    (⟨['A'], [semicolon, 120]⟩, List.replicate 10 7)]
  last := ⟨['0', '0'], [semicolon]⟩
  trailers := [120, cr, lf]

theorem pairEncoding_decodes :
    pairEncoding.WellFormed ∧ pairEncoding.Bounded ∧
      outcome [pairEncoding.bytes.take 5, pairEncoding.bytes.drop 5] =
        some (true, 48 :: cr :: lf :: List.replicate 10 7) ∧
      exists out, outcome [pairEncoding.bytes.take 9] = some (false, out) ∧
        out <+: pairEncoding.payload := by
  have hwell : pairEncoding.WellFormed := by decide +kernel
  have hbounded : pairEncoding.Bounded := by decide +kernel
  have hdecodes := decoding_inverts_encoding pairEncoding hwell hbounded
  refine ⟨hwell, hbounded, ?_, ?_⟩
  · apply hdecodes.left
    simp
  · apply hdecodes.right
    decide +kernel

end AwsChunked

end Daemon
end Pacer
