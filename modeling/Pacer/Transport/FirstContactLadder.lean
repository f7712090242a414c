import Pacer.Transport.FirstContact

/-!
# One call at a time on the ladder of an endpoint

The gate of an endpoint is a mutex in its registry entry, and the calls for the
endpoint lock the mutex they found there.  Where the entry goes while a call
still has its gate in hand, the next call is given another mutex.  Clearing a
proof keeps the entry for that reason; idle expiry, the sweep and the eviction
of the least recently used entry do not ask.

The main result: along every run in which no entry goes whose gate a call has in
hand, one call at a time climbs the ladder of an endpoint.
-/

namespace Pacer
namespace Transport

open Foundation

namespace FirstContact
namespace Rail

def Serial (s : Rail) : Prop :=
  forall (i j : Nat) (first second : Call),
    s.calls[i]? = some first -> s.calls[j]? = some second ->
      first.endpoint = second.endpoint ->
        first.stage.inLadder = true -> second.stage.inLadder = true -> i = j

/-!
## Entries that stay
-/

def Spares (s : Rail) (endpoint other : ClientEndpoint) : Act -> Prop
  | .look now => s.ready.LookSpares now endpoint other
  | .forget now => s.ready.LookSpares now endpoint other
  | .take now order => s.ready.Spares now order endpoint other
  | .prove now order => s.ready.Spares now order endpoint other
  | _ => True

instance (s : Rail) (endpoint other : ClientEndpoint) :
    (act : Act) -> Decidable (s.Spares endpoint other act)
  | .look now =>
    inferInstanceAs (Decidable (s.ready.LookSpares now endpoint other))
  | .forget now =>
    inferInstanceAs (Decidable (s.ready.LookSpares now endpoint other))
  | .take now order =>
    inferInstanceAs (Decidable (s.ready.Spares now order endpoint other))
  | .prove now order =>
    inferInstanceAs (Decidable (s.ready.Spares now order endpoint other))
  | .complete _ => .isTrue True.intro
  | .lock => .isTrue True.intro
  | .announced _ => .isTrue True.intro
  | .wake => .isTrue True.intro
  | .drop => .isTrue True.intro

end Rail

def Act.isProve : Act -> Bool
  | .prove _ _ => true
  | _ => false

namespace Rail

/-- No entry goes whose gate a call climbs the ladder with, or may come to.  The
call that marks the endpoint proven is about to end, and does not count. -/
def KeepsGates (s : Rail) : Event -> Prop
  | .start _ => True
  | .sweep now =>
    forall call, call ∈ s.calls -> call.stage.contends ≠ none ->
      s.ready.isExpired now call.endpoint = false
  | .act id act =>
    forall call, call ∈ s.calls[id]? ->
      forall i, i < s.calls.length -> forall other, other ∈ s.calls[i]? ->
        other.stage.contends ≠ none -> (act.isProve = true -> i ≠ id) ->
          s.Spares call.endpoint other.endpoint act

instance (s : Rail) : (e : Event) -> Decidable (s.KeepsGates e)
  | .start _ => .isTrue True.intro
  | .sweep now =>
    inferInstanceAs (Decidable (forall call, call ∈ s.calls ->
      call.stage.contends ≠ none ->
        s.ready.isExpired now call.endpoint = false))
  | .act id act =>
    inferInstanceAs (Decidable (forall call, call ∈ s.calls[id]? ->
      forall i, i < s.calls.length -> forall other, other ∈ s.calls[i]? ->
        other.stage.contends ≠ none -> (act.isProve = true -> i ≠ id) ->
          s.Spares call.endpoint other.endpoint act))

def HasGate (s : Rail) (endpoint : ClientEndpoint) (g : Nat) : Prop :=
  exists entry, s.ready.valueOf endpoint = some entry ∧ entry.gate = g

variable {s : Rail}

theorem bounded_access (hbounded : s.ready.Bounded) (endpoint : ClientEndpoint)
    (act : Act) :
    (s.access endpoint act).2.ready.Bounded := by
  cases act with
  | look now =>
    exact hbounded.of_shrinksTo
      (ClientRegistry.shrinksTo_getMut s.ready now endpoint id)
  | forget now =>
    exact hbounded.of_shrinksTo
      (ClientRegistry.shrinksTo_getMut s.ready now endpoint _)
  | take now order =>
    exact ClientRegistry.bounded_getOrInsertDefault hbounded _
  | prove now order =>
    exact ClientRegistry.bounded_getOrInsertDefault hbounded _
  | complete _ | lock | announced _ | wake | drop => exact hbounded

theorem HasGate.access {endpoint other : ClientEndpoint} {g : Nat} {act : Act}
    (h : s.HasGate other g) (hbounded : s.ready.Bounded)
    (hspares : s.Spares endpoint other act) :
    (s.access endpoint act).2.HasGate other g := by
  rcases h with ⟨entry, hfound, hgate⟩
  unfold HasGate
  rw [← hgate]
  have hsame : forall entry : ClientGate, (id entry).gate = entry.gate :=
    fun _ => rfl
  cases act with
  | look now => exact ClientRegistry.kept_getMut hsame hspares hfound
  | forget now =>
    have hclear : forall entry : ClientGate,
        ({ entry with proven := false } : ClientGate).gate = entry.gate :=
      fun _ => rfl
    exact ClientRegistry.kept_getMut hclear hspares hfound
  | take now order =>
    exact ClientRegistry.kept_getOrInsertDefault hbounded hsame hspares
      hfound _
  | prove now order =>
    have hmark : forall entry : ClientGate,
        ({ entry with proven := true } : ClientGate).gate = entry.gate :=
      fun _ => rfl
    exact ClientRegistry.kept_getOrInsertDefault hbounded hmark hspares
      hfound _
  | complete _ | lock | announced _ | wake | drop => exact ⟨entry, hfound, rfl⟩

theorem hasGate_take {endpoint : ClientEndpoint} {now g : Nat}
    {order : ClientEndpoint -> Nat} (hbounded : s.ready.Bounded)
    (hanswer : (s.access endpoint (.take now order)).1 = .gate g) :
    (s.access endpoint (.take now order)).2.HasGate endpoint g := by
  refine ⟨_, ClientRegistry.valueOf_getOrInsertDefault hbounded
    { proven := false, gate := s.made }, ?_⟩
  injection hanswer

/-!
## The gates in hand
-/

structure InHand (s : Rail) : Prop where
  locks : s.Locks
  bounded : s.ready.Bounded
  current : forall (i : Nat) (call : Call) (g : Nat),
    s.calls[i]? = some call -> call.stage.contends = some g ->
      s.HasGate call.endpoint g

theorem inHand_fresh (capacity ttl : Nat) : (fresh capacity ttl).InHand := by
  constructor
  · exact locks_fresh capacity ttl
  · exact ClientRegistry.bounded_withLimits capacity ttl
  · intro i call g hcall
    cases hcall

theorem held_of_inLadder {stage : Stage} (h : stage.inLadder = true) :
    exists g, stage.held = some g ∧ stage.contends = some g := by
  unfold Stage.inLadder at h
  split at h
  · next g _ => exact ⟨g, rfl, rfl⟩
  · next g => exact ⟨g, rfl, rfl⟩
  · next g _ => exact ⟨g, rfl, rfl⟩
  · next g => exact ⟨g, rfl, rfl⟩
  · cases h

theorem InHand.serial (h : s.InHand) : s.Serial := by
  intro i j first second hfirst hsecond hsame hclimbs hclimbs'
  rcases held_of_inLadder hclimbs with ⟨g, hheld, hcontends⟩
  rcases held_of_inLadder hclimbs' with ⟨g', hheld', hcontends'⟩
  rcases h.current i first g hfirst hcontends with ⟨entry, hentry, hgate⟩
  rcases h.current j second g' hsecond hcontends' with
    ⟨entry', hentry', hgate'⟩
  rw [hsame, hentry'] at hentry
  cases hentry
  rw [← hgate, hgate'] at hheld
  have howner := h.locks.holds i first g' hfirst hheld
  rw [h.locks.holds j second g' hsecond hheld'] at howner
  exact (Option.some.inj howner).symm

theorem InHand.sweep {now : Nat} (h : s.InHand)
    (hkeeps : s.KeepsGates (.sweep now)) :
    { s with clock := now, ready := (s.ready.sweepExpired now).2 }.InHand := by
  constructor
  · exact h.locks.of_eq rfl rfl
  · exact h.bounded.of_shrinksTo
      (ClientRegistry.shrinksTo_sweepExpired s.ready now)
  · intro i call g hcall hcontends
    rcases h.current i call g hcall hcontends with ⟨entry, hentry, hgate⟩
    have hlive := hkeeps call (List.mem_of_getElem? hcall)
      (Option.ne_none_iff_exists'.mpr ⟨g, hcontends⟩)
    refine ⟨entry, ?_, hgate⟩
    change ((s.ready.sweepExpired now).2.entries.lookup _).map _ = _
    rw [ClientRegistry.lookup_sweepExpired, hlive]
    exact hentry

theorem InHand.act {s' : Rail} {id : Nat} {act : Act} (h : s.InHand)
    (hkeeps : s.KeepsGates (.act id act))
    (hstep : s.step (.act id act) = some s') : s'.InHand := by
  have hlocks := locks_step h.locks hstep
  rcases step_act hstep with ⟨call, next, hcall, _, hnext, heq⟩
  -- a call that has a gate in hand before the step finds it after the access
  have hstays : forall i other g, s.calls[i]? = some other ->
      other.stage.contends = some g -> (act.isProve = true -> i ≠ id) ->
        (s.access call.endpoint act).2.HasGate other.endpoint g := by
    intro i other g hother hcontends hprove
    apply (h.current i other g hother hcontends).access h.bounded
    apply hkeeps call hcall i _ other hother _ hprove
    · exact (List.getElem?_eq_some_iff.mp hother).fst
    · exact Option.ne_none_iff_exists'.mpr ⟨g, hcontends⟩
  rw [heq] at hlocks ⊢
  constructor
  · exact hlocks
  · exact bounded_access h.bounded call.endpoint act
  · intro i moved g hmoved hcontends
    rw [calls_moveTo] at hmoved
    change (s.access call.endpoint act).2.HasGate moved.endpoint g
    rcases Table.set_cases hmoved with ⟨_, hself⟩ | ⟨hother, hold⟩
    · rw [hself, Call.endpoint_moved]
      rw [hself, Call.stage_moved] at hcontends
      rcases Stage.contends_next hnext with
        hnone | ⟨hkept, hprove⟩ | ⟨now, order, g', hact, hanswer, hwaiting⟩
      · rw [hnone] at hcontends
        cases hcontends
      · rw [hkept] at hcontends
        apply hstays id call g hcall hcontends
        intro hisProve
        cases act with
        | prove now order => exact absurd rfl (hprove now order)
        | look _ | complete _ | forget _ | take _ _ | lock | announced _
        | wake | drop => cases hisProve
      · rw [hwaiting] at hcontends
        cases hcontends
        rw [hact] at hanswer ⊢
        exact hasGate_take h.bounded hanswer
    · exact hstays i moved g hold hcontends (fun _ => hother)

theorem InHand.step {s' : Rail} {e : Event} (h : s.InHand)
    (hkeeps : s.KeepsGates e) (hstep : s.step e = some s') : s'.InHand := by
  cases e with
  | start endpoint =>
    have hlocks := locks_step h.locks hstep
    cases hstep
    constructor
    · exact hlocks
    · exact h.bounded
    · intro i call g hcall hcontends
      rcases Table.append_cases hcall with hold | hnew
      · exact h.current i call g hold hcontends
      · rw [hnew] at hcontends
        cases hcontends
  | sweep now =>
    rw [step_sweep hstep]
    exact h.sweep hkeeps
  | act id act => exact h.act hkeeps hstep

/-!
## Whole runs
-/

/-- Along every run in which no entry goes whose gate a call has in hand, one
call at a time climbs the ladder of an endpoint. -/
theorem ladder_serial {capacity ttl : Nat} {events : List Event} {final : Rail}
    (hkeeps : Transition.Along Rail.step KeepsGates (fresh capacity ttl) events)
    (hrun : Transition.run Rail.step (fresh capacity ttl) events =
      some final) : final.Serial := by
  apply InHand.serial
  exact Transition.run_preserves
    (fun s e s' hinHand hkeeps hstep => hinHand.step hkeeps hstep)
    (inHand_fresh capacity ttl) hkeeps hrun

theorem bounded_step {s' : Rail} {e : Event} (h : s.ready.Bounded)
    (hstep : s.step e = some s') : s'.ready.Bounded := by
  cases e with
  | start endpoint =>
    cases hstep
    exact h
  | sweep now =>
    rw [step_sweep hstep]
    exact h.of_shrinksTo (ClientRegistry.shrinksTo_sweepExpired s.ready now)
  | act id act =>
    rcases step_act hstep with ⟨call, _, _, _, _, heq⟩
    rw [heq]
    exact bounded_access h call.endpoint act

/-- In every state of a run, whatever expires or has to make room, the registry
is within its capacity, and no call that ended or was dropped leaves a gate
locked. -/
theorem bounded_and_unlocked {capacity ttl : Nat} {events : List Event}
    {final : Rail} (hrun : Transition.run Rail.step (fresh capacity ttl) events =
      some final) :
    final.ready.Bounded ∧ forall g id, final.holder g = some id ->
      exists call, final.calls[id]? = some call ∧ call.stage.ended = false := by
  have hkept := @Transition.run_invariant _ _ Rail.step
    (fun s => s.ready.Bounded ∧ s.Locks)
    (fun s e s' h hstep => ⟨bounded_step h.left hstep, locks_step h.right hstep⟩)
    _ _ _ ⟨ClientRegistry.bounded_withLimits _ _, locks_fresh _ _⟩ hrun
  refine ⟨hkept.left, ?_⟩
  intro g id hholder
  rcases hkept.right.held g id hholder with ⟨call, hcall, hheld⟩
  exact ⟨call, hcall, Stage.ended_of_held hheld⟩

/-- A ladder of nine attempts that all met an unknown peer, with the sleep after
the last not over. -/
def nineAttempts (id : Nat) : List Event :=
  [.act id (.complete (.failed .unknownPeer)), .act id (.announced true)] ++
    (List.replicate 8
      [.act id .wake, .act id (.complete (.failed .unknownPeer))]).flatten

def comesFrom (endpoint : ClientEndpoint) (id now : Nat) : List Event :=
  [.start endpoint, .act id (.look now),
    .act id (.take now ClientEndpoint.qpn)]

def comes (id now : Nat) : List Event := comesFrom sampleEndpoint id now

def climbs (id now : Nat) : List Event :=
  [.act id .lock, .act id (.look now)]

def otherEndpoint : ClientEndpoint := { sampleEndpoint with qpn := 2 }

/-- There is room for one endpoint.  A second one pushes the first out while the
first call climbs; then the first call is dropped, and the second climbs on. -/
def crowded : List Event :=
  comes 0 0 ++ climbs 0 0 ++ comesFrom otherEndpoint 1 1 ++ climbs 1 1 ++
    [.act 0 .drop]

theorem bounded_and_unlocked_crowded : exists final,
    Transition.run Rail.step (fresh 1 1000) crowded = some final ∧
    final.calls.map Call.stage = [.dropped, .ladder 1 1] ∧
    final.ready.counters.evictedCap = 1 ∧
    (final.holder 0 = none ∧ final.holder 1 = some 1) ∧
    final.ready.Bounded ∧
    exists call, final.calls[1]? = some call ∧ call.stage.ended = false := by
  have hends : (Transition.run Rail.step (fresh 1 1000) crowded).map
      (fun s => (s.calls.map Call.stage, s.ready.counters.evictedCap,
        s.holder 0, s.holder 1)) =
      some ([.dropped, .ladder 1 1], 1, none, some 1) := by
    decide +kernel
  rcases Option.map_eq_some_iff.mp hends with ⟨final, hrun, hfinal⟩
  simp only [Prod.mk.injEq] at hfinal
  rcases hfinal with ⟨hstages, hevicted, hfree, hheld⟩
  rcases bounded_and_unlocked hrun with ⟨hbounded, hlocked⟩
  exact ⟨final, hrun, hstages, hevicted, ⟨hfree, hheld⟩, hbounded,
    hlocked 1 1 hheld⟩

theorem ladder_serial_second_waits :
    exists final,
      Transition.run Rail.step (fresh 2048 1000)
          (comes 0 0 ++ climbs 0 0 ++ nineAttempts 0 ++ comes 1 999) =
        some final ∧
      final.calls.map Call.stage = [.sleeping 0 9, .waiting 0] ∧
      final.Serial := by
  have hstages : (Transition.run Rail.step (fresh 2048 1000)
      (comes 0 0 ++ climbs 0 0 ++ nineAttempts 0 ++ comes 1 999)).map
        (fun s => s.calls.map Call.stage) =
      some [.sleeping 0 9, .waiting 0] := by
    decide +kernel
  rcases Option.map_eq_some_iff.mp hstages with ⟨final, hrun, hfinal⟩
  have hkeeps : Transition.Along Rail.step KeepsGates (fresh 2048 1000)
      (comes 0 0 ++ climbs 0 0 ++ nineAttempts 0 ++ comes 1 999) := by
    decide +kernel
  exact ⟨final, hrun, hfinal, ladder_serial hkeeps hrun⟩

/-- With one second of idle time allowed, the entry of an endpoint expires while
the first call sleeps after its ninth attempt; the second call is given another
gate, and climbs too. -/
theorem expired_gate_lets_two_climb :
    exists final,
      Transition.run Rail.step (fresh 2048 1000)
          (comes 0 0 ++ climbs 0 0 ++ nineAttempts 0 ++ comes 1 1010 ++
            climbs 1 1010) = some final ∧ ¬ final.Serial := by
  have hcalls : (Transition.run Rail.step (fresh 2048 1000)
      (comes 0 0 ++ climbs 0 0 ++ nineAttempts 0 ++ comes 1 1010 ++
        climbs 1 1010)).map Rail.calls =
      some [
        { endpoint := sampleEndpoint, stage := .sleeping 0 9,
          succeeded := false, faulted := false },
        { endpoint := sampleEndpoint, stage := .ladder 1 1,
          succeeded := false, faulted := false }] := by
    decide +kernel
  rcases Option.map_eq_some_iff.mp hcalls with ⟨final, hrun, hfinal⟩
  refine ⟨final, hrun, ?_⟩
  intro hserial
  have hsame := hserial 0 1
  rw [hfinal] at hsame
  cases hsame _ _ rfl rfl rfl rfl rfl

end Rail
end FirstContact

end Transport
end Pacer
