import Pacer.Daemon.PartPlacer
import Pacer.Daemon.TeeBody

/-!
# Placement over a whole upload

What a verified placement says about everything the placer was told, in the
order it was told.  A part whose offset does not fit 64 bits is refused without
a record and without a taint, so a verified list may leave it out; if there is
no such part, the list names the parts observed, each of them once, every part
was placed at its offset, and the tee of a part that was given a first chunk
puts out the chunks of the object from there on.
-/

namespace Pacer
namespace Daemon

open Foundation
open Cache

namespace PartPlacer

inductive Event where
  | observe (part : Int) (len : Nat)
  | taint
deriving DecidableEq, Repr

def Event.apply (p : PartPlacer) : Event -> PartPlacer
  | .observe part len => (p.observe part len).2
  | .taint => p.taint

def after (p : PartPlacer) (events : List Event) : PartPlacer :=
  events.foldl Event.apply p

def observations : List Event -> List (Int × Nat)
  | [] => []
  | .observe part len :: rest => (part, len) :: observations rest
  | .taint :: rest => observations rest

def numbers (events : List Event) : List Int :=
  (observations events).map Prod.fst

def declared (events : List Event) (part : Int) : Nat :=
  ((observations events).lookup part).getD 0

def total (events : List Event) : Nat :=
  ((observations events).map Prod.snd).sum

/-- No part, placed as if all parts before it were as long as the longest up to
it, is past 64 bits. -/
def Fits : Nat -> List Event -> Prop
  | _, [] => True
  | longest, .observe part len :: rest =>
    (part - 1).toNat * max longest len < 2 ^ 64 ∧ Fits (max longest len) rest
  | longest, .taint :: rest => Fits longest rest

instance decidableFits : (longest : Nat) -> (events : List Event) ->
    Decidable (Fits longest events)
  | _, [] => isTrue trivial
  | longest, .observe _ len :: rest =>
    have := decidableFits (max longest len) rest
    inferInstanceAs (Decidable (_ ∧ _))
  | longest, .taint :: rest => decidableFits longest rest

/-!
## Untainted runs
-/

section Untainted

variable {p : PartPlacer} {part : Int} {len : Nat} {events : List Event}

theorem untainted_of_apply {event : Event}
    (h : (event.apply p).tainted = false) : p.tainted = false := by
  cases event with
  | observe part len =>
    rcases p.observe_cases part len with htainted |
      ⟨_, _, hkept, _⟩ | ⟨_, _, _, hkept, _⟩
    · have hfalse : (p.observe part len).2.tainted = false := h
      rw [hfalse] at htainted
      cases htainted
    · exact hkept.symm.trans h
    · exact hkept.symm.trans h
  | taint => cases h

theorem after_cons (event : Event) :
    p.after (event :: events) = (event.apply p).after events := rfl

theorem untainted_of_after (h : (p.after events).tainted = false) :
    p.tainted = false := by
  induction events generalizing p with
  | nil => exact h
  | cons event rest ih => exact untainted_of_apply (ih h)

theorem observe_untainted (h : (p.observe part len).2.tainted = false) :
    p.parts.lookup part = none ∧
      (p.observe part len).2.hypothesis = max p.hypothesis len ∧
      (2 ^ 64 ≤ (part - 1).toNat * max p.hypothesis len ∧
          (p.observe part len).1 = none ∧
          (p.observe part len).2.parts = p.parts ∨
        exists offset, (part - 1).toNat * max p.hypothesis len < 2 ^ 64 ∧
          (p.observe part len).2.parts = p.parts.insert part
            { len := len, assumedOffset := offset } ∧
          forall first, (p.observe part len).1 = some first ->
            offset = first * p.chunkSize) := by
  rcases p.observe_cases part len with htainted |
    ⟨hfresh, hnone, _, hparts, hlongest, hfar⟩ |
    ⟨offset, hfresh, hnear, _, hlongest, hparts, hchunk⟩
  · rw [h] at htainted
    cases htainted
  · refine ⟨hfresh, hlongest, Or.inl ⟨?_, hnone, hparts⟩⟩
    unfold assumedOffset at hfar
    dsimp only at hfar
    split at hfar
    · cases hfar
    · lia
  · refine ⟨hfresh, hlongest, Or.inr ⟨offset, ?_, hparts, hchunk⟩⟩
    unfold assumedOffset at hnear
    dsimp only at hnear
    split at hnear
    · lia
    · cases hnear

theorem lookup_observe_ne {other : Int}
    (h : (p.observe other len).2.tainted = false) (hne : part ≠ other) :
    (p.observe other len).2.parts.lookup part = p.parts.lookup part := by
  rcases observe_untainted h with
    ⟨_, _, ⟨_, _, hparts⟩ | ⟨offset, _, hparts, _⟩⟩
  · rw [hparts]
  · rw [hparts, AList.lookup_insert_ne hne]

section

variable (h : (p.after events).tainted = false)

include h

theorem lookup_after {observed : Observed}
    (hfound : p.parts.lookup part = some observed) :
    (p.after events).parts.lookup part = some observed := by
  induction events generalizing p with
  | nil => exact hfound
  | cons event rest ih =>
    rw [after_cons] at h ⊢
    apply ih h
    cases event with
    | taint => exact hfound
    | observe other len =>
      have hnext := untainted_of_after h
      have hne : part ≠ other := by
        rintro rfl
        rw [(observe_untainted hnext).left] at hfound
        cases hfound
      exact (lookup_observe_ne hnext hne).trans hfound

theorem lookup_after_none (hother : part ∉ numbers events)
    (hnone : p.parts.lookup part = none) :
    (p.after events).parts.lookup part = none := by
  induction events generalizing p with
  | nil => exact hnone
  | cons event rest ih =>
    rw [after_cons] at h ⊢
    cases event with
    | taint => exact ih h hother hnone
    | observe other len =>
      have hsplit : part ≠ other ∧ part ∉ numbers rest :=
        not_or.mp fun hmem => hother (List.mem_cons.mpr hmem)
      apply ih h hsplit.right
      exact (lookup_observe_ne (untainted_of_after h) hsplit.left).trans
        hnone

theorem recorded_of_fits (hfits : Fits p.hypothesis events) :
    (numbers events).Nodup ∧
      forall part len, (part, len) ∈ observations events ->
        p.parts.lookup part = none ∧
        exists observed, (p.after events).parts.lookup part = some observed ∧
          observed.len = len := by
  induction events generalizing p with
  | nil => exact ⟨List.nodup_nil, nofun⟩
  | cons event rest ih =>
    rw [after_cons] at h
    have hnext := untainted_of_after h
    cases event with
    | taint => cases hnext
    | observe part len =>
      rcases observe_untainted hnext with
        ⟨hfresh, hlongest, ⟨hover, _, _⟩ | ⟨offset, hunder, hparts, _⟩⟩
      · exact absurd hfits.left (Nat.not_lt.mpr hover)
      have hrest : Fits (p.observe part len).2.hypothesis rest := by
        rw [hlongest]
        exact hfits.right
      rcases ih h hrest with ⟨hnodup, hrecorded⟩
      have hown : (p.observe part len).2.parts.lookup part =
          some { len := len, assumedOffset := offset } := by
        rw [hparts]
        exact AList.lookup_insert _
      have hnew : forall other len', (other, len') ∈ observations rest ->
          other ≠ part := by
        rintro other len' hmem rfl
        have hnone := (hrecorded _ _ hmem).left
        rw [Event.apply, hown] at hnone
        cases hnone
      constructor
      · refine List.nodup_cons.mpr ⟨?_, hnodup⟩
        intro hmem
        rcases List.mem_map.mp hmem with ⟨⟨other, len'⟩, hmem, hother⟩
        exact hnew other len' hmem hother
      · intro other len' hmem
        rcases List.mem_cons.mp hmem with hhead | hmem
        · cases hhead
          have hkept : (PartPlacer.after _ rest).parts.lookup part = _ :=
            lookup_after h hown
          exact ⟨hfresh, _, hkept, rfl⟩
        · rcases hrecorded other len' hmem with ⟨hnone, hfound⟩
          refine ⟨?_, hfound⟩
          rw [← lookup_observe_ne hnext (hnew other len' hmem)]
          exact hnone

theorem unrecorded_of_not_fits (honce : (numbers events).Nodup)
    (hover : ¬ Fits p.hypothesis events) :
    exists part, part ∈ numbers events ∧
      (p.after events).parts.lookup part = none := by
  induction events generalizing p with
  | nil => exact absurd trivial hover
  | cons event rest ih =>
    rw [after_cons] at h
    have hnext := untainted_of_after h
    cases event with
    | taint => cases hnext
    | observe part len =>
      have honce' := List.nodup_cons.mp honce
      rcases observe_untainted hnext with
        ⟨hfresh, hlongest, ⟨_, _, hparts⟩ | ⟨offset, hunder, _, _⟩⟩
      · -- The part itself was refused, and is not observed again.
        refine ⟨part, List.mem_cons_self, ?_⟩
        apply lookup_after_none h honce'.left
        rw [Event.apply, hparts]
        exact hfresh
      · have hover' : ¬ Fits (p.observe part len).2.hypothesis rest := by
          rw [hlongest]
          intro hfits
          exact hover ⟨hunder, hfits⟩
        rcases ih h honce'.right hover' with ⟨other, hmem, hnone⟩
        exact ⟨other, List.mem_cons_of_mem _ hmem, hnone⟩

end

theorem chunkSize_after (p : PartPlacer) (events : List Event) :
    (p.after events).chunkSize = p.chunkSize := by
  induction events generalizing p with
  | nil => rfl
  | cons event rest ih =>
    rw [after_cons, ih]
    cases event with
    | taint => rfl
    | observe part len => exact chunkSize_observe p part len

end Untainted

/-!
## The object
-/

def chunkOf (size : Nat) (object : Bytes) (index : Nat) : Nat × Bytes :=
  (index, span object (index * size) ((index + 1) * size))

/-- The tee of a part that begins at chunk `first`, streamed in these frames,
puts out full chunks of the object from there on: as many as the part has, or
fewer if the decoder gives up on the frames. -/
structure TeesChunks (chunk : ChunkConfig) (object : Bytes) (first : Nat)
    (announced : BodyShape) (frames : List Bytes) : Prop where
  chunks : exists n,
    (PartTee.stream (.start chunk first announced false) frames).windows =
      (List.range' first n).map (chunkOf chunk.chunkSize object) ∧
    (n = announced.len / chunk.chunkSize ∨
      announced.awsChunked = true ∧ AwsChunked.outcome frames = none)
  full : forall window, window ∈
    (PartTee.stream (.start chunk first announced false) frames).windows ->
    window.2.length = chunk.chunkSize

theorem teesChunks_of_offset {chunk : ChunkConfig} {front body back : Bytes}
    {first : Nat} (hfirst : front.length = first * chunk.chunkSize)
    {awsChunked : Bool} {frames : List Bytes}
    (hcontent : PartTee.Content awsChunked frames.flatten body) :
    TeesChunks chunk (front ++ (body ++ back)) first
      { len := body.length, awsChunked := awsChunked } frames := by
  rcases PartTee.stream_spec chunk first
    { len := body.length, awsChunked := awsChunked } rfl hcontent with
    ⟨n, hwindows, hfull, hend⟩
  have hspan : forall j, j < n ->
      PartTee.window chunk.chunkSize first body j =
        chunkOf chunk.chunkSize (front ++ (body ++ back)) (first + j) := by
    intro j hj
    have hstop : (j + 1) * chunk.chunkSize ≤ body.length :=
      Nat.le_trans (Nat.mul_le_mul_right _ hj) hfull
    have hdrop : (front ++ (body ++ back)).drop (first * chunk.chunkSize) =
        body ++ back := by
      rw [← hfirst, List.drop_left]
    unfold PartTee.window chunkOf
    rw [span_of_isPrefix (List.prefix_append body back) hstop, Nat.add_assoc,
      Nat.add_mul first j, Nat.add_mul first (j + 1), ← span_drop, hdrop]
  have hchunks : (List.range n).map (PartTee.window chunk.chunkSize first body) =
      (List.range' first n).map
        (chunkOf chunk.chunkSize (front ++ (body ++ back))) := by
    rw [List.range'_eq_map_range, List.map_map]
    apply List.map_congr_left
    intro j hj
    exact hspan j (List.mem_range.mp hj)
  constructor
  · refine ⟨n, hwindows.trans hchunks, ?_⟩
    rcases hend with ⟨hlt, _⟩ | hgave
    · left
      have hle := (Nat.le_div_iff_mul_le chunk.positive).mpr hfull
      have hlt' := (Nat.div_lt_iff_lt_mul chunk.positive).mpr hlt
      dsimp only
      lia
    · exact Or.inr hgave
  · intro window hwindow
    rw [hwindows] at hwindow
    rcases List.mem_map.mp hwindow with ⟨j, hj, hwindow⟩
    have hstop : (j + 1) * chunk.chunkSize ≤ body.length :=
      Nat.le_trans (Nat.mul_le_mul_right _ (List.mem_range.mp hj)) hfull
    rw [← hwindow, PartTee.window, length_span hstop, Nat.add_mul, Nat.one_mul,
      Nat.add_sub_cancel_left]

/-!
## Soundness
-/

/-- What a verified list is to say about what the placer was told. -/
structure Sound (chunk : ChunkConfig) (events : List Event) (list : List Int) :
    Prop where
  increasing : list.Pairwise (· < ·)
  names : forall part, part ∈ list <-> part ∈ numbers events
  once : (numbers events).Nodup
  placed : forall front part back, list = front ++ part :: back ->
    exists observed,
      ((new chunk.chunkSize).after events).parts.lookup part =
        some observed ∧
      (part, observed.len) ∈ observations events ∧
      observed.assumedOffset = (front.map (declared events)).sum
  teed : forall before part len later first,
    events = before ++ .observe part len :: later ->
    (((new chunk.chunkSize).after before).observe part len).1 = some first ->
    forall bodies : Int -> Bytes,
    (forall other len', (other, len') ∈ observations events ->
      (bodies other).length = len') ->
    forall awsChunked frames,
    PartTee.Content awsChunked frames.flatten (bodies part) ->
    TeesChunks chunk (list.map bodies).flatten first
      { len := len, awsChunked := awsChunked } frames

section Verified

variable {chunk : ChunkConfig} {events : List Event} {list : List Int}

theorem lookup_of_nodup {pairs : List (Int × Nat)} {part : Int} {len : Nat}
    (honce : (pairs.map Prod.fst).Nodup) (hmem : (part, len) ∈ pairs) :
    pairs.lookup part = some len := by
  induction pairs with
  | nil => cases hmem
  | cons pair rest ih =>
    rw [List.map_cons, List.nodup_cons] at honce
    rcases List.mem_cons.mp hmem with hhead | hmem
    · rw [← hhead, List.lookup_cons_self]
    · have hne : part ≠ pair.1 := by
        intro heq
        apply honce.left
        rw [← heq]
        exact List.mem_map_of_mem hmem
      rw [List.lookup_cons, beq_false_of_ne hne]
      exact ih honce.right hmem

theorem observations_append (before later : List Event) :
    observations (before ++ later) =
      observations before ++ observations later := by
  induction before with
  | nil => rfl
  | cons event rest ih =>
    cases event with
    | observe part len =>
      rw [List.cons_append, observations, ih, observations,
        List.cons_append]
    | taint => exact ih

theorem mem_numbers {part : Int} :
    part ∈ numbers events <-> exists len, (part, len) ∈ observations events := by
  unfold numbers
  simp

theorem declared_of_mem (honce : (numbers events).Nodup) {part : Int}
    {len : Nat} (hmem : (part, len) ∈ observations events) :
    declared events part = len := by
  rw [declared, lookup_of_nodup honce hmem, Option.getD_some]

theorem total_eq_declared (honce : (numbers events).Nodup) :
    total events = ((numbers events).map (declared events)).sum := by
  unfold total numbers
  rw [List.map_map]
  congr 1
  apply List.map_congr_left
  intro pair hpair
  exact (declared_of_mem honce hpair).symm

theorem perm_of_names (hincreasing : list.Pairwise (· < ·))
    (hnames : forall part, part ∈ list <-> part ∈ numbers events)
    (honce : (numbers events).Nodup) : list.Perm (numbers events) := by
  apply (List.perm_ext_iff_of_nodup ?_ honce).mpr hnames
  exact hincreasing.imp fun hlt => Int.ne_of_lt hlt

section

variable
  (hverify : ((new chunk.chunkSize).after events).verify list = true)

include hverify

theorem increasing_of_verify : list.Pairwise (· < ·) := by
  have hfrom := (verify_true hverify).right.right
  exact (List.pairwise_cons.mp (verifyFrom_increasing hfrom).left).right

variable (hfits : Fits 0 events)

include hfits

theorem names_of_verify (part : Int) :
    part ∈ list <-> part ∈ numbers events := by
  have hclean := (verify_true hverify).left
  rw [mem_of_verify hverify, ← AList.lookup_isSome]
  constructor
  · intro hfound
    apply Classical.byContradiction
    intro hother
    rw [lookup_after_none hclean hother rfl] at hfound
    cases hfound
  · intro hmem
    rcases mem_numbers.mp hmem with ⟨len, hmem⟩
    rcases (recorded_of_fits hclean hfits).right part len hmem with
      ⟨_, observed, hfound, _⟩
    rw [hfound]
    rfl

theorem record_of_mem {part : Int} (hpart : part ∈ list) :
    exists observed,
      ((new chunk.chunkSize).after events).parts.lookup part = some observed ∧
      (part, observed.len) ∈ observations events ∧
      declared events part = observed.len := by
  rcases recorded_of_fits (verify_true hverify).left hfits with
    ⟨honce, hrecorded⟩
  rcases mem_numbers.mp ((names_of_verify hverify hfits part).mp hpart) with
    ⟨len, hmem⟩
  rcases hrecorded part len hmem with ⟨_, observed, hfound, rfl⟩
  exact ⟨observed, hfound, hmem, declared_of_mem honce hmem⟩

theorem totalLen_eq_declared {front : List Int} (hfront : front ⊆ list) :
    totalLen ((new chunk.chunkSize).after events).parts front =
      (front.map (declared events)).sum := by
  unfold totalLen
  congr 1
  apply List.map_congr_left
  intro part hpart
  rcases record_of_mem hverify hfits (hfront hpart) with
    ⟨observed, hfound, _, hdeclared⟩
  rw [lenOf_of_lookup hfound, hdeclared]

theorem placed_of_fits (htotal : total events < 2 ^ 64) {front back : List Int}
    {part : Int} (hlist : list = front ++ part :: back) :
    exists observed,
      ((new chunk.chunkSize).after events).parts.lookup part = some observed ∧
      (part, observed.len) ∈ observations events ∧
      observed.assumedOffset = (front.map (declared events)).sum := by
  have honce := (recorded_of_fits (verify_true hverify).left hfits).left
  have hperm := perm_of_names (increasing_of_verify hverify)
    (names_of_verify hverify hfits) honce
  have hsum : totalLen ((new chunk.chunkSize).after events).parts list =
      total events := by
    rw [totalLen_eq_declared hverify hfits (List.Subset.refl list),
      total_eq_declared honce]
    exact (hperm.map _).sum_nat
  rw [← hsum] at htotal
  have hfront : totalLen ((new chunk.chunkSize).after events).parts front =
      (front.map (declared events)).sum := by
    apply totalLen_eq_declared hverify hfits
    rw [hlist]
    exact List.subset_append_left front (part :: back)
  have hpart : part ∈ list := by
    rw [hlist]
    simp
  rcases record_of_mem hverify hfits hpart with ⟨observed, hfound, hmem, _⟩
  rw [hlist] at hverify htotal
  rcases placed_of_verify hverify htotal with ⟨observed', hfound', hoffset⟩
  rw [hfound] at hfound'
  cases hfound'
  exact ⟨observed, hfound, hmem, hoffset.trans hfront⟩

end

theorem lookup_of_answer {before later : List Event} {part : Int}
    {len first : Nat}
    (h : ((new chunk.chunkSize).after
      (before ++ .observe part len :: later)).tainted = false)
    (hanswer : (((new chunk.chunkSize).after before).observe part len).1 =
      some first) :
    ((new chunk.chunkSize).after
        (before ++ .observe part len :: later)).parts.lookup part =
      some { len := len, assumedOffset := first * chunk.chunkSize } := by
  have hsplit : (new chunk.chunkSize).after
      (before ++ .observe part len :: later) =
      (((new chunk.chunkSize).after before).observe part len).2.after later :=
    List.foldl_append
  rw [hsplit] at h ⊢
  apply lookup_after h
  rcases observe_untainted (untainted_of_after h) with
    ⟨_, _, ⟨_, hnone, _⟩ | ⟨offset, _, hparts, hoffset⟩⟩
  · rw [hnone] at hanswer
    cases hanswer
  · rw [hparts, AList.lookup_insert, hoffset first hanswer, chunkSize_after]
    rfl

theorem sound_of_fits (hfits : Fits 0 events) (htotal : total events < 2 ^ 64)
    (hverify : ((new chunk.chunkSize).after events).verify list = true) :
    Sound chunk events list := by
  have hclean := (verify_true hverify).left
  have honce := (recorded_of_fits hclean hfits).left
  have hnames := names_of_verify hverify hfits
  refine ⟨increasing_of_verify hverify, hnames, honce, ?_, ?_⟩
  · intro front part back hlist
    exact placed_of_fits hverify hfits htotal hlist
  · intro before part len later first hevents hanswer bodies hbodies awsChunked
      frames hcontent
    have hmem : (part, len) ∈ observations events := by
      rw [hevents, observations_append, observations]
      exact List.mem_append_right _ List.mem_cons_self
    have hpart := (hnames part).mpr (mem_numbers.mpr ⟨len, hmem⟩)
    rcases List.append_of_mem hpart with ⟨front, back, hlist⟩
    rcases placed_of_fits hverify hfits htotal hlist with
      ⟨observed, hfound, _, hoffset⟩
    rw [hevents] at hclean
    have hanswered := lookup_of_answer hclean hanswer
    rw [← hevents, hfound] at hanswered
    cases hanswered
    have hplaced : first * chunk.chunkSize =
        (front.map (declared events)).sum := hoffset
    have hfirst : (front.map bodies).flatten.length =
        first * chunk.chunkSize := by
      rw [List.length_flatten, List.map_map, hplaced]
      congr 1
      apply List.map_congr_left
      intro other hother
      have hlisted : other ∈ list := by
        rw [hlist]
        exact List.mem_append_left _ hother
      rcases record_of_mem hverify hfits hlisted with
        ⟨observed, _, hmem', hdeclared⟩
      rw [hdeclared]
      exact hbodies other observed.len hmem'
    have hobject : (list.map bodies).flatten =
        (front.map bodies).flatten ++
          (bodies part ++ (back.map bodies).flatten) := by
      rw [hlist, List.map_append, List.flatten_append, List.map_cons,
        List.flatten_cons]
    rw [hobject, ← hbodies part len hmem]
    exact teesChunks_of_offset hfirst hcontent

end Verified

/-- A verified list is sound just when no part observed was too far out to be
placed. -/
theorem placement_sound_iff (chunk : ChunkConfig) (events : List Event)
    (list : List Int) (htotal : total events < 2 ^ 64)
    (hverify : ((new chunk.chunkSize).after events).verify list = true) :
    Sound chunk events list <-> Fits 0 events := by
  constructor
  · intro hsound
    apply Classical.byContradiction
    intro hover
    rcases unrecorded_of_not_fits (verify_true hverify).left hsound.once hover
      with ⟨part, hmem, hnone⟩
    have hpart := (mem_of_verify hverify part).mp ((hsound.names part).mpr hmem)
    rw [← AList.lookup_isSome, hnone] at hpart
    cases hpart
  · intro hfits
    exact sound_of_fits hfits htotal hverify

/-- A second part of three chunks arrives first, then the first part; both are
placed as long as the longer, and the list is verified. -/
theorem placement_sound_two :
    (PartPlacer.after (new 2) [.observe 2 6, .observe 1 6]).verify [1, 2] =
        true ∧
      Sound ⟨2, Nat.zero_lt_two⟩ [.observe 2 6, .observe 1 6] [1, 2] := by
  have hverify : (PartPlacer.after (new 2)
      [.observe 2 6, .observe 1 6]).verify [1, 2] = true := by
    decide +kernel
  refine ⟨hverify, ?_⟩
  apply (placement_sound_iff ⟨2, Nat.zero_lt_two⟩ _ _ ?_ hverify).mpr
  · decide +kernel
  · decide +kernel

/-- A part number so large that its offset does not fit: it is observed, yet a
list without it is verified. -/
theorem far_part_is_not_listed :
    total [.observe 1 1, .observe 2147483647 (2 ^ 34)] < 2 ^ 64 ∧
      (PartPlacer.after (new 1)
        [.observe 1 1, .observe 2147483647 (2 ^ 34)]).verify [1] = true ∧
      ¬ Sound ⟨1, Nat.one_pos⟩
        [.observe 1 1, .observe 2147483647 (2 ^ 34)] [1] := by
  refine ⟨by decide +kernel, by decide +kernel, ?_⟩
  intro hsound
  have hlisted := (hsound.names 2147483647).mpr (by decide +kernel)
  exact absurd hlisted (by decide)

end PartPlacer

end Daemon
end Pacer
