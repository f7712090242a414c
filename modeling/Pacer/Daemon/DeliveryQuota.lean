import Mathlib.Algebra.Ring.Nat
import Pacer.Foundation.Table
import Pacer.Foundation.Transition

/-!
# The quota of pinned memory

A reserve reads the total and exchanges it for a larger one, over and over until
the exchange succeeds or the request does not fit.  What a call read may be out
of date, and an exchange may fail for no reason; only one that succeeds changes
the total.
-/

namespace Pacer
namespace Daemon

open Foundation

namespace DeliveryQuota

/-- Where a reserve call is.  `won` is between the exchange and the permit. -/
inductive Call where
  | loading (bytes : Nat)
  | trying (bytes current : Nat)
  | won (bytes : Nat)
  | permit (bytes : Nat)
  | overTarget (bytes : Nat)
  | overQuota (bytes current : Nat)
  | dropped
deriving DecidableEq, Repr

def Call.held : Call -> Nat
  | .won bytes => bytes
  | .permit bytes => bytes
  | _ => 0

structure Quota where
  inUse : Nat
  max : Nat
  maxPerTarget : Nat
  calls : List Call
deriving DecidableEq, Repr

inductive Event where
  | reserve (bytes : Nat)
  | load (call observed : Nat)
  /-- One turn of the loop; a failed exchange has observed another value. -/
  | exchange (call : Nat) (failed : Option Nat)
  | build (call : Nat)
  | drop (call : Nat)
deriving DecidableEq, Repr

namespace Quota

def new (max maxPerTarget : Nat) : Quota :=
  { inUse := 0, max := max, maxPerTarget := maxPerTarget, calls := [] }

/-- The request fits beside what was observed: `checked_add`, then the
ceiling. -/
def Fits (q : Quota) (bytes current : Nat) : Prop :=
  current + bytes < 2 ^ 64 ∧ current + bytes ≤ q.max

instance (q : Quota) (bytes current : Nat) : Decidable (q.Fits bytes current) :=
  inferInstanceAs (Decidable (_ ∧ _))

def move (q : Quota) (i inUse : Nat) (call : Call) : Quota :=
  { q with inUse := inUse, calls := q.calls.set i call }

def step (q : Quota) : Event -> Option Quota
  | .reserve bytes =>
    some { q with calls := q.calls ++
      [if q.maxPerTarget < bytes then .overTarget bytes
        else .loading bytes] }
  | .load i observed =>
    match q.calls[i]? with
    | some (.loading bytes) =>
      some (q.move i q.inUse (.trying bytes observed))
    | _ => none
  | .exchange i failed =>
    match q.calls[i]? with
    | some (.trying bytes current) =>
      if q.Fits bytes current then
        match failed with
        | some observed =>
          some (q.move i q.inUse (.trying bytes observed))
        | none =>
          if q.inUse = current then
            some (q.move i (current + bytes) (.won bytes))
          else none
      else some (q.move i q.inUse (.overQuota bytes current))
    | _ => none
  | .build i =>
    match q.calls[i]? with
    | some (.won bytes) => some (q.move i q.inUse (.permit bytes))
    | _ => none
  | .drop i =>
    match q.calls[i]? with
    | some (.permit bytes) =>
      -- `fetch_sub` wraps
      some (q.move i ((q.inUse + (2 ^ 64 - bytes)) % 2 ^ 64) .dropped)
    | _ => none

/-- What is true of a call: it is within its target's ceiling until it is
refused, and refused only where it did not fit. -/
def CallOk (q : Quota) : Call -> Prop
  | .overTarget bytes => q.maxPerTarget < bytes
  | .overQuota bytes current => ¬ q.Fits bytes current
  | .dropped => True
  | .loading bytes | .trying bytes _ | .won bytes | .permit bytes =>
    bytes ≤ q.maxPerTarget

structure Sound (q : Quota) : Prop where
  total : q.inUse = (q.calls.map Call.held).sum
  within : q.inUse ≤ q.max
  word : q.inUse < 2 ^ 64
  calls : forall (i : Nat) call, q.calls[i]? = some call -> q.CallOk call

variable {q q' : Quota} {i : Nat} {old new : Call}

theorem sum_held_set {calls : List Call} (h : calls[i]? = some old) :
    ((calls.set i new).map Call.held).sum + old.held =
      (calls.map Call.held).sum + new.held := by
  induction calls generalizing i with
  | nil => cases h
  | cons call rest ih =>
    cases i with
    | zero =>
      cases h
      simp only [List.set_cons_zero, List.map_cons, List.sum_cons]
      lia
    | succ i =>
      have hrest := ih h
      simp only [List.set_cons_succ, List.map_cons, List.sum_cons]
      lia

theorem Sound.held_le (h : q.Sound) (hold : q.calls[i]? = some old) :
    old.held ≤ q.inUse := by
  have hsum : _ + old.held = _ + Call.held .dropped := sum_held_set hold
  rw [h.total]
  exact Nat.le_trans (Nat.le_add_left _ _) (Nat.le_of_eq hsum)

theorem Sound.move (h : q.Sound) (hold : q.calls[i]? = some old) {inUse : Nat}
    (htotal : inUse + old.held = q.inUse + new.held) (hmax : inUse ≤ q.max)
    (hword : inUse < 2 ^ 64) (hnew : q.CallOk new) :
    (q.move i inUse new).Sound := by
  constructor
  · have hsum : _ = _ + new.held := sum_held_set hold
    have hbefore := h.total
    change inUse = ((q.calls.set i new).map Call.held).sum
    lia
  · exact hmax
  · exact hword
  · intro j call hcall
    rcases Table.set_cases hcall with ⟨_, rfl⟩ | ⟨_, hcall⟩
    · exact hnew
    · exact h.calls j call hcall

theorem sound_step {e : Event} (h : q.Sound) (hstep : q.step e = some q') :
    q'.Sound := by
  cases e with
  | reserve bytes =>
    cases hstep
    constructor
    · have htotal := h.total
      rw [List.map_append, List.sum_append, ← htotal]
      split <;> rfl
    · exact h.within
    · exact h.word
    · intro j call hcall
      rcases Table.append_cases hcall with hold | rfl
      · exact h.calls j call hold
      · split
        · assumption
        · exact Nat.not_lt.mp (by assumption)
  | load i observed | build i =>
    simp only [step] at hstep
    split at hstep
    · rename_i bytes hold
      cases hstep
      have hok : bytes ≤ q.maxPerTarget := h.calls i _ hold
      exact h.move hold rfl h.within h.word hok
    · cases hstep
  | exchange i failed =>
    simp only [step] at hstep
    split at hstep
    · rename_i bytes current hold
      have hok : bytes ≤ q.maxPerTarget := h.calls i _ hold
      split at hstep
      · rename_i hfits
        split at hstep
        · cases hstep
          exact h.move hold rfl h.within h.word hok
        · split at hstep
          · rename_i hsame
            cases hstep
            have htotal : current + bytes + 0 = q.inUse + bytes := by
              rw [hsame, Nat.add_zero]
            exact h.move hold htotal hfits.right hfits.left hok
          · cases hstep
      · rename_i hnot
        cases hstep
        exact h.move hold rfl h.within h.word hnot
    · cases hstep
  | drop i =>
    simp only [step] at hstep
    split at hstep
    · rename_i bytes hold
      cases hstep
      have hle : bytes ≤ q.inUse := h.held_le hold
      have hword := h.word
      have hwithin := h.within
      have hsub : (q.inUse + (2 ^ 64 - bytes)) % 2 ^ 64 = q.inUse - bytes := by
        lia
      have htotal : q.inUse - bytes + bytes = q.inUse + 0 := by lia
      rw [hsub]
      exact h.move hold htotal (by lia) (by lia) trivial
    · cases hstep

/-- In every interleaving the total is what the calls hold, within the ceiling;
a drop takes off no more than is there; and a call is refused only over one of
the two ceilings. -/
theorem never_overcommits {max maxPerTarget : Nat} {events : List Event}
    (h : Transition.run step (Quota.new max maxPerTarget) events = some q) :
    q.Sound ∧ forall (i : Nat) call, q.calls[i]? = some call ->
      call.held ≤ q.inUse := by
  have hsound : q.Sound := by
    apply Transition.run_invariant (fun _ _ _ => sound_step) _ h
    exact ⟨rfl, Nat.zero_le _, Nat.two_pow_pos 64,
      fun _ _ hcall => by cases hcall⟩
  exact ⟨hsound, fun _ _ => hsound.held_le⟩

/-- Two calls see an empty quota.  One wins; the other finds what was taken and
is refused, and so is a third.  A fourth wins once the permit is dropped. -/
def contended : List Event :=
  [.reserve 7, .reserve 5, .load 1 0, .load 0 0, .exchange 0 none,
    .exchange 1 (some 7), .reserve 6, .exchange 1 none, .load 2 7, .build 0,
    .exchange 2 none, .drop 0, .reserve 6, .load 3 3, .exchange 3 (some 0),
    .exchange 3 none, .build 3]

theorem never_overcommits_contended : exists q,
    Transition.run step (Quota.new 10 10) contended = some q ∧
      q.calls = [.dropped, .overQuota 5 7, .overQuota 6 7, .permit 6] ∧
      q.inUse = 6 ∧ q.Sound := by
  have hsound {q : Quota}
      (hq : Transition.run step (Quota.new 10 10) contended = some q) :
      q.Sound := (never_overcommits hq).left
  exact ⟨_, rfl, rfl, rfl, hsound rfl⟩

theorem refused_with_room : exists q,
    Transition.run step (Quota.new 100 10) [.reserve 20] = some q ∧
      q.calls = [.overTarget 20] ∧ q.Fits 20 q.inUse :=
  ⟨_, rfl, rfl, by decide⟩

end Quota

end DeliveryQuota

end Daemon
end Pacer
