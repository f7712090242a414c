import Pacer.Foundation.ByteFile
import Pacer.Foundation.Span

/-!
# The window splitter

A body arrives in buffers of any size.  The splitter carries them and gives out
windows of exactly the chunk size, and at the end of the body what is left.

Everything here is about the bytes the splitter holds, whatever buffers they are
in: a push adds at the back, a window is taken off the front.
-/

namespace Pacer
namespace Daemon

open Foundation

structure WindowSplitter where
  chunkSize : Nat
  positive : 0 < chunkSize
  carry : List Bytes
  carried : Nat

namespace WindowSplitter

def new (chunkSize : Nat) (positive : 0 < chunkSize) : WindowSplitter :=
  { chunkSize := chunkSize, positive := positive, carry := [], carried := 0 }

def push (s : WindowSplitter) (bytes : Bytes) : WindowSplitter :=
  if bytes = [] then s
  else
    { s with
      carry := s.carry ++ [bytes],
      carried := s.carried + bytes.length }

/-- Concatenate `len` bytes off the front.  Both callers have checked that so
many are held; only then does the source not panic. -/
def drainExact : List Bytes -> Nat -> Bytes × List Bytes
  | [], _ => ([], [])
  | head :: rest, len =>
    if len = 0 then ([], head :: rest)
    else if head.length ≤ len then
      match drainExact rest (len - head.length) with
      | (out, carry) => (head ++ out, carry)
    else (head.take len, head.drop len :: rest)

def takeWindow (s : WindowSplitter) : Option (Bytes × WindowSplitter) :=
  if s.carried < s.chunkSize then none
  else
    let carried := s.carried - s.chunkSize
    let drained :=
      match drainExact s.carry s.chunkSize with
      | (out, carry) => (out, { s with carry := carry, carried := carried })
    match s.carry with
    | [] => some drained
    | head :: rest =>
      if s.chunkSize ≤ head.length then
        let left := head.drop s.chunkSize
        some (head.take s.chunkSize,
          { s with
            carry := if left = [] then rest else left :: rest,
            carried := carried })
      else some drained

def takeTail (s : WindowSplitter) : Option (Bytes × WindowSplitter) :=
  if s.carried = 0 then none
  else
    match drainExact s.carry s.carried with
    | (out, carry) => some (out, { s with carry := carry, carried := 0 })

/-- Take windows while there are any.  Each takes a byte at least, so the bytes
carried bound their number. -/
def takeWindows : Nat -> WindowSplitter -> List Bytes × WindowSplitter
  | 0, s => ([], s)
  | fuel + 1, s =>
    match s.takeWindow with
    | none => ([], s)
    | some (window, s') =>
      match takeWindows fuel s' with
      | (windows, final) => (window :: windows, final)

/-!
## The bytes held
-/

def Holds (s : WindowSplitter) (xs : Bytes) : Prop :=
  s.carry.flatten = xs ∧ s.carried = xs.length

theorem holds_new (chunkSize : Nat) (positive : 0 < chunkSize) :
    (new chunkSize positive).Holds [] :=
  ⟨rfl, rfl⟩

variable {s : WindowSplitter} {xs : Bytes}

theorem Holds.push (h : s.Holds xs) (bytes : Bytes) :
    (s.push bytes).Holds (xs ++ bytes) ∧
      (s.push bytes).chunkSize = s.chunkSize := by
  unfold WindowSplitter.push
  split
  · rename_i hempty
    rw [hempty, List.append_nil]
    exact ⟨h, rfl⟩
  · refine ⟨⟨?_, ?_⟩, rfl⟩
    · show (s.carry ++ [bytes]).flatten = xs ++ bytes
      rw [List.flatten_append, h.left, List.flatten_singleton]
    · show s.carried + bytes.length = (xs ++ bytes).length
      rw [h.right, List.length_append]

theorem Holds.pushAll (h : s.Holds xs) (pieces : List Bytes) :
    (pieces.foldl WindowSplitter.push s).Holds (xs ++ pieces.flatten) ∧
      (pieces.foldl WindowSplitter.push s).chunkSize = s.chunkSize := by
  induction pieces generalizing s xs with
  | nil =>
    rw [List.flatten_nil, List.append_nil]
    exact ⟨h, rfl⟩
  | cons piece rest ih =>
    rcases h.push piece with ⟨hpush, hsize⟩
    rcases ih hpush with ⟨hrest, hsize'⟩
    rw [List.foldl_cons, List.flatten_cons, ← List.append_assoc]
    exact ⟨hrest, hsize'.trans hsize⟩

theorem drainExact_eq {carry : List Bytes} {len : Nat}
    (h : len ≤ carry.flatten.length) :
    (drainExact carry len).1 = carry.flatten.take len ∧
      (drainExact carry len).2.flatten = carry.flatten.drop len := by
  induction carry generalizing len with
  | nil =>
    have hzero : len = 0 := Nat.le_zero.mp h
    rw [hzero]
    exact ⟨rfl, rfl⟩
  | cons head rest ih =>
    rw [List.flatten_cons, List.length_append] at h
    unfold drainExact
    split
    · rename_i hzero
      rw [hzero]
      exact ⟨rfl, rfl⟩
    · split
      · rename_i hle
        have hlen : len - head.length ≤ rest.flatten.length := by lia
        have hrest := ih hlen
        dsimp only
        rw [List.flatten_cons, List.take_append, List.drop_append,
          hrest.left, hrest.right, List.take_of_length_le hle,
          List.drop_of_length_le hle, List.nil_append]
        exact ⟨rfl, rfl⟩
      · have hlt : len ≤ head.length := by lia
        dsimp only
        rw [List.flatten_cons, List.flatten_cons,
          List.take_append_of_le_length hlt,
          List.drop_append_of_le_length hlt]
        exact ⟨rfl, rfl⟩

theorem takeWindow_of_lt (h : s.Holds xs) (hlt : xs.length < s.chunkSize)
    : s.takeWindow = none := by
  rw [← h.right] at hlt
  exact if_pos hlt

theorem takeWindow_of_le (h : s.Holds xs) (hle : s.chunkSize ≤ xs.length) :
    exists s', s.takeWindow = some (xs.take s.chunkSize, s') ∧
      s'.Holds (xs.drop s.chunkSize) ∧ s'.chunkSize = s.chunkSize := by
  rcases h with ⟨rfl, hcarried⟩
  have hdrain := drainExact_eq hle
  have hcount : s.carried - s.chunkSize =
      (s.carry.flatten.drop s.chunkSize).length := by
    rw [List.length_drop, hcarried]
  unfold takeWindow
  rw [if_neg (by lia)]
  dsimp only
  split
  · rw [hdrain.left]
    exact ⟨_, rfl, ⟨hdrain.right, hcount⟩, rfl⟩
  · split
    · rename_i head rest hcarry hfits
      rw [hcarry, List.flatten_cons, List.drop_append_of_le_length hfits] at hcount
      rw [hcarry, List.flatten_cons, List.take_append_of_le_length hfits,
        List.drop_append_of_le_length hfits]
      refine ⟨_, rfl, ⟨?_, hcount⟩, rfl⟩
      dsimp only
      split
      · rename_i hempty
        rw [hempty, List.nil_append]
      · rfl
    · rw [hdrain.left]
      exact ⟨_, rfl, ⟨hdrain.right, hcount⟩, rfl⟩

theorem carried_takeWindow {s s' : WindowSplitter} {window : Bytes}
    (h : s.takeWindow = some (window, s')) :
    s.chunkSize ≤ s.carried ∧ s'.carried = s.carried - s.chunkSize ∧
      s'.chunkSize = s.chunkSize := by
  unfold takeWindow at h
  split at h
  · cases h
  rename_i hle
  refine ⟨Nat.le_of_not_lt hle, ?_⟩
  dsimp only at h
  split at h
  · cases h
    exact ⟨rfl, rfl⟩
  · split at h
    · cases h
      exact ⟨rfl, rfl⟩
    · cases h
      exact ⟨rfl, rfl⟩

theorem carried_of_takeWindow_none (h : s.takeWindow = none)
    : s.carried < s.chunkSize := by
  rw [← Nat.not_le]
  intro hle
  unfold takeWindow at h
  rw [if_neg (Nat.not_lt.mpr hle)] at h
  dsimp only at h
  split at h
  · cases h
  split at h
  · cases h
  · cases h

theorem carried_push (s : WindowSplitter) (bytes : Bytes) :
    (s.push bytes).carried = s.carried + bytes.length ∧
      (s.push bytes).chunkSize = s.chunkSize := by
  unfold push
  split
  · rename_i hempty
    rw [hempty]
    exact ⟨rfl, rfl⟩
  · exact ⟨rfl, rfl⟩

theorem takeTail_nil (h : s.Holds []) :
    s.takeTail = none :=
  if_pos h.right

theorem takeTail_of_ne_nil (h : s.Holds xs) (hne : xs ≠ [])
    : exists s', s.takeTail = some (xs, s') := by
  rcases h with ⟨rfl, hcarried⟩
  have hdrain := drainExact_eq (Nat.le_of_eq hcarried)
  have hpos : s.carried ≠ 0 := by
    rw [hcarried]
    exact fun hzero => hne (List.length_eq_zero_iff.mp hzero)
  unfold takeTail
  rw [if_neg hpos]
  dsimp only
  rw [hdrain.left, hcarried, List.take_length]
  exact ⟨_, rfl⟩

theorem takeWindows_eq {fuel : Nat} (h : s.Holds xs)
    (hfuel : xs.length ≤ fuel) :
    exists n s', takeWindows fuel s = ((List.range n).map fun j =>
        span xs (j * s.chunkSize) ((j + 1) * s.chunkSize), s') ∧
      s'.Holds (xs.drop (n * s.chunkSize)) ∧ s'.chunkSize = s.chunkSize ∧
      n * s.chunkSize ≤ xs.length ∧ xs.length < (n + 1) * s.chunkSize := by
  have hpos := s.positive
  induction fuel generalizing s xs with
  | zero =>
    refine ⟨0, s, rfl, ?_, rfl, ?_⟩
    · rw [Nat.zero_mul, List.drop_zero]
      exact h
    · lia
  | succ fuel ih =>
    rcases Nat.lt_or_ge xs.length s.chunkSize with hlt | hge
    · unfold takeWindows
      rw [takeWindow_of_lt h hlt]
      refine ⟨0, s, rfl, ?_, rfl, ?_⟩
      · rw [Nat.zero_mul, List.drop_zero]
        exact h
      · lia
    · rcases takeWindow_of_le h hge with ⟨s', htake, hholds, hsize⟩
      have hlen := List.length_drop (i := s.chunkSize) (l := xs)
      rcases ih hholds (by lia) s'.positive with
        ⟨n, final, hrest, hfinal, hsame, hle, hlt⟩
      rw [hsize] at hrest hfinal hsame hle hlt
      unfold takeWindows
      rw [htake]
      dsimp only
      rw [hrest]
      refine ⟨n + 1, final, ?_, ?_, hsame, ?_⟩
      · rw [List.range_succ_eq_map, List.map_cons, List.map_map,
          Nat.zero_mul, Nat.zero_add, Nat.one_mul, span_zero]
        congr 2
        apply List.map_congr_left
        intro j _
        rw [Function.comp_apply, span_drop, Nat.succ_eq_add_one,
          Nat.add_one_mul (j + 1), Nat.add_one_mul j, Nat.add_comm,
          Nat.add_comm s.chunkSize]
      · rw [List.drop_drop] at hfinal
        rw [Nat.add_one_mul, Nat.add_comm]
        exact hfinal
      · rw [hlen] at hle hlt
        rw [Nat.add_one_mul (n + 1), Nat.add_one_mul]
        rw [Nat.add_one_mul] at hlt
        lia

end WindowSplitter

end Daemon
end Pacer
