import Pacer.Foundation.Table
import Pacer.Foundation.Transition
import Pacer.Transport.ClientRegistry

/-!
# First contact with a client endpoint

A WRITE to an endpoint that has not installed this node completes with the
status `UNKNOWN_PEER`, and the same WRITE succeeds a little later.  So the first
chunk for an endpoint climbs a ladder of attempts, with a gate of the endpoint
locked, while others wait for that gate; once a WRITE succeeded the endpoint is
proven, and a chunk for it makes one attempt.  Proofs and gates are entries of a
registry that can drop them.

This module follows any number of calls over any number of endpoints of one
rail.  A step of a call is one access of the registry, the end of one wait, or
the call being dropped where it waits.

The main results: a gate is held by the one call that has it locked, and every
step brings its call nearer to an end.
-/

namespace Pacer
namespace Transport

open Foundation

namespace FirstContact

def unknownPeerAttempts : Nat := 10

inductive TokenDecline where
  | noHealthyRail
  | notAddressable
  | bodyExceedsStaging
  | notAnnounceable
  | writerNotInstalled
deriving DecidableEq, Repr

inductive TokenWrite where
  | wrote
  | declined (reason : TokenDecline)
deriving DecidableEq, Repr

/-- Why an attempt failed: the peer has not installed this writer, or anything
else, from the post to the wait for the completion. -/
inductive WriteError where
  | unknownPeer
  | other
deriving DecidableEq, Repr

inductive Attempt where
  | ok
  | failed (error : WriteError)
deriving DecidableEq, Repr

inductive Outcome where
  | returned (write : TokenWrite)
  | failed (error : WriteError)
deriving DecidableEq, Repr

/-!
## Proofs and gates
-/

structure ClientGate where
  proven : Bool
  gate : Nat
deriving DecidableEq, Repr

abbrev ClientReady := ClientRegistry ClientGate

namespace ClientReady

def isProven (r : ClientReady) (now : Nat) (endpoint : ClientEndpoint) :
    Bool × ClientReady :=
  match r.getMut now endpoint id with
  | (found, r') => (found.any ClientGate.proven, r')

def markProven (r : ClientReady) (now : Nat) (order : ClientEndpoint -> Nat)
    (endpoint : ClientEndpoint) (fresh : Nat) : ClientReady :=
  (r.getOrInsertDefault now order endpoint { proven := false, gate := fresh }
    fun entry => { entry with proven := true }).2

def forget (r : ClientReady) (now : Nat) (endpoint : ClientEndpoint) :
    ClientReady :=
  (r.getMut now endpoint fun entry => { entry with proven := false }).2

def gate (r : ClientReady) (now : Nat) (order : ClientEndpoint -> Nat)
    (endpoint : ClientEndpoint) (fresh : Nat) : Nat × ClientReady :=
  match r.getOrInsertDefault now order endpoint
      { proven := false, gate := fresh } id with
  | (entry, r') => (entry.gate, r')

end ClientReady

/-!
## The course of one call
-/

/-- Where a call is: about to ask for a proof, in the one attempt of a proven
endpoint, about to forget the proof, about to get the gate, waiting for it,
about to ask again behind it, in the one attempt there, in an attempt of the
ladder, in the announce or a sleep between attempts, about to mark the endpoint
proven, and at the end. -/
inductive Stage where
  | entering
  | fast
  | forgetting
  | arriving
  | waiting (gate : Nat)
  | locked (gate : Nat)
  | gated (gate : Nat)
  | ladder (gate attempt : Nat)
  | announcing (gate : Nat)
  | sleeping (gate attempt : Nat)
  | proving (gate : Nat)
  | done (outcome : Outcome)
  | dropped
deriving DecidableEq, Repr

inductive Act where
  | look (now : Nat)
  | complete (result : Attempt)
  | forget (now : Nat)
  | take (now : Nat) (order : ClientEndpoint -> Nat)
  | lock
  | announced (accepted : Bool)
  | wake
  | prove (now : Nat) (order : ClientEndpoint -> Nat)
  | drop

inductive Answer where
  | silent
  | proven (found : Bool)
  | gate (gate : Nat)
deriving DecidableEq, Repr

namespace Stage

def next : Stage -> Act -> Answer -> Option Stage
  | .done _, _, _ => none
  | .dropped, _, _ => none
  | _, .drop, _ => some .dropped
  | .entering, .look _, .proven found =>
    some (if found then .fast else .arriving)
  | .fast, .complete .ok, _ => some (.done (.returned .wrote))
  | .fast, .complete (.failed .unknownPeer), _ => some .forgetting
  | .fast, .complete (.failed error), _ => some (.done (.failed error))
  | .forgetting, .forget _, _ => some .arriving
  | .arriving, .take _ _, .gate g => some (.waiting g)
  | .waiting g, .lock, _ => some (.locked g)
  | .locked g, .look _, .proven found =>
    some (if found then .gated g else .ladder g 1)
  | .gated _, .complete .ok, _ => some (.done (.returned .wrote))
  | .gated _, .complete (.failed error), _ => some (.done (.failed error))
  | .ladder g _, .complete .ok, _ => some (.proving g)
  | .ladder g attempt, .complete (.failed .unknownPeer), _ =>
    if attempt = 1 then some (.announcing g)
    else if attempt = unknownPeerAttempts then
      some (.done (.returned (.declined .writerNotInstalled)))
    else some (.sleeping g attempt)
  | .ladder _ _, .complete (.failed error), _ => some (.done (.failed error))
  | .announcing _, .announced false, _ =>
    some (.done (.returned (.declined .notAnnounceable)))
  | .announcing g, .announced true, _ => some (.sleeping g 1)
  | .sleeping g attempt, .wake, _ =>
    if attempt < unknownPeerAttempts then some (.ladder g (attempt + 1))
    else some (.done (.returned (.declined .writerNotInstalled)))
  | .proving _, .prove _ _, _ => some (.done (.returned .wrote))
  | _, _, _ => none

def held : Stage -> Option Nat
  | .locked g => some g
  | .gated g => some g
  | .ladder g _ => some g
  | .announcing g => some g
  | .sleeping g _ => some g
  | .proving g => some g
  | _ => none

def contends : Stage -> Option Nat
  | .waiting g => some g
  | .locked g => some g
  | .ladder g _ => some g
  | .announcing g => some g
  | .sleeping g _ => some g
  | .proving g => some g
  | _ => none

def inLadder : Stage -> Bool
  | .ladder _ _ => true
  | .announcing _ => true
  | .sleeping _ _ => true
  | .proving _ => true
  | _ => false

def isGated : Stage -> Bool
  | .gated _ => true
  | _ => false

def ended : Stage -> Bool
  | .done _ => true
  | .dropped => true
  | _ => false

def rank : Stage -> Nat
  | .entering => 38
  | .fast => 37
  | .forgetting => 36
  | .arriving => 35
  | .waiting _ => 34
  | .locked _ => 33
  | .ladder _ attempt => 3 * (unknownPeerAttempts - attempt) + 5
  | .announcing _ => 3 * (unknownPeerAttempts - 1) + 4
  | .sleeping _ attempt => 3 * (unknownPeerAttempts - attempt) + 3
  | .gated _ => 1
  | .proving _ => 1
  | .done _ => 0
  | .dropped => 0

end Stage

/-- A call, with whether a WRITE of its own succeeded, and whether one failed
otherwise than for an unknown peer. -/
structure Call where
  endpoint : ClientEndpoint
  stage : Stage
  succeeded : Bool
  faulted : Bool
deriving DecidableEq, Repr

namespace Call

def start (endpoint : ClientEndpoint) : Call :=
  { endpoint := endpoint, stage := .entering, succeeded := false,
    faulted := false }

def moved (call : Call) (act : Act) (next : Stage) : Call :=
  match act with
  | .complete .ok => { call with stage := next, succeeded := true }
  | .complete (.failed .other) => { call with stage := next, faulted := true }
  | _ => { call with stage := next }

end Call

/-!
## What a step of a call can do
-/

section Next

variable {stage next : Stage} {act : Act} {answer : Answer}

theorem Stage.rank_pos (hdone : forall outcome, stage ≠ .done outcome)
    (hdropped : stage ≠ .dropped) : 0 < stage.rank := by
  cases stage with
  | done outcome => exact absurd rfl (hdone outcome)
  | dropped => exact absurd rfl hdropped
  | entering | fast | forgetting | arriving | waiting _ | locked _
  | gated _ | ladder _ _ | announcing _ | sleeping _ _ | proving _ =>
    exact Nat.zero_lt_succ _

theorem Stage.rank_next (h : stage.next act answer = some next) :
    next.rank < stage.rank := by
  unfold Stage.next at h
  split at h
  all_goals grind [Stage.rank, Stage.rank_pos, unknownPeerAttempts]

theorem Stage.held_next (h : stage.next act answer = some next) :
    next.held = none ∨ next.held = stage.held ∨
      exists g, act = .lock ∧ stage = .waiting g ∧ next = .locked g := by
  unfold Stage.next at h
  split at h
  all_goals grind [Stage.held]

theorem Stage.contends_next (h : stage.next act answer = some next) :
    next.contends = none ∨
      (next.contends = stage.contends ∧ forall now order,
        act ≠ .prove now order) ∨
      exists now order g, act = .take now order ∧ answer = .gate g ∧
        next = .waiting g := by
  unfold Stage.next at h
  split at h
  all_goals grind [Stage.contends]

theorem Stage.ended_of_held {g : Nat} (h : stage.held = some g) :
    stage.ended = false := by
  cases stage with
  | done _ | dropped => cases h
  | entering | fast | forgetting | arriving | waiting _ | locked _ | gated _
  | ladder _ _ | announcing _ | sleeping _ _ | proving _ => rfl

theorem Stage.ended_of_next (h : stage.next act answer = some next) :
    stage.ended = false := by
  unfold Stage.next at h
  split at h
  all_goals grind [Stage.ended]

end Next

namespace Call

@[simp] theorem stage_moved (call : Call) (act : Act) (next : Stage) :
    (call.moved act next).stage = next := by
  unfold moved
  split
  · rfl
  · rfl
  · rfl

@[simp] theorem endpoint_moved (call : Call) (act : Act) (next : Stage) :
    (call.moved act next).endpoint = call.endpoint := by
  unfold moved
  split
  · rfl
  · rfl
  · rfl

end Call

/-!
## A rail and its calls
-/

/-- The calls in the order they began, the registry, the gates made so far, and
who holds a gate. -/
structure Rail where
  clock : Nat
  ready : ClientReady
  made : Nat
  holder : Nat -> Option Nat
  calls : List Call

inductive Event where
  | start (endpoint : ClientEndpoint)
  | act (id : Nat) (act : Act)
  | sweep (now : Nat)

namespace Rail

def fresh (capacity ttl : Nat) : Rail :=
  { clock := 0, ready := ClientRegistry.withLimits capacity ttl, made := 0,
    holder := fun _ => none, calls := [] }

def Enabled (s : Rail) (stage : Stage) : Act -> Prop
  | .look now => s.clock ≤ now
  | .forget now => s.clock ≤ now
  | .take now _ => s.clock ≤ now
  | .prove now _ => s.clock ≤ now
  | .lock =>
    match stage with
    | .waiting g => s.holder g = none
    | _ => True
  | _ => True

instance (s : Rail) (stage : Stage) :
    (act : Act) -> Decidable (s.Enabled stage act)
  | .look now => inferInstanceAs (Decidable (s.clock ≤ now))
  | .forget now => inferInstanceAs (Decidable (s.clock ≤ now))
  | .take now _ => inferInstanceAs (Decidable (s.clock ≤ now))
  | .prove now _ => inferInstanceAs (Decidable (s.clock ≤ now))
  | .lock =>
    match stage with
    | .waiting g => inferInstanceAs (Decidable (s.holder g = none))
    | .entering | .fast | .forgetting | .arriving | .locked _ | .gated _
    | .ladder _ _ | .announcing _ | .sleeping _ _ | .proving _ | .done _
    | .dropped => .isTrue True.intro
  | .complete _ => .isTrue True.intro
  | .announced _ => .isTrue True.intro
  | .wake => .isTrue True.intro
  | .drop => .isTrue True.intro

def access (s : Rail) (endpoint : ClientEndpoint) : Act -> Answer × Rail
  | .look now =>
    match ClientReady.isProven s.ready now endpoint with
    | (found, ready) => (.proven found, { s with clock := now, ready := ready })
  | .forget now =>
    (.silent,
      { s with
        clock := now,
        ready := ClientReady.forget s.ready now endpoint })
  | .take now order =>
    match ClientReady.gate s.ready now order endpoint s.made with
    | (g, ready) =>
      (.gate g,
        { s with clock := now, ready := ready, made := s.made + 1 })
  | .prove now order =>
    (.silent,
      { s with
        clock := now,
        ready := ClientReady.markProven s.ready now order endpoint s.made,
        made := s.made + 1 })
  | _ => (.silent, s)

/-- A call that comes to hold a gate locks it; one that has no more use for its
gate lets go of it. -/
def holderAfter (s : Rail) (id : Nat) (stage next : Stage) :
    Nat -> Option Nat :=
  match stage.held, next.held with
  | none, some g => Function.update s.holder g (some id)
  | some g, none => Function.update s.holder g none
  | _, _ => s.holder

def moveTo (s : Rail) (id : Nat) (call : Call) (act : Act) (next : Stage) :
    Rail :=
  { s with
    holder := s.holderAfter id call.stage next,
    calls := s.calls.set id (call.moved act next) }

def step (s : Rail) : Event -> Option Rail
  | .start endpoint =>
    some { s with calls := s.calls ++ [Call.start endpoint] }
  | .sweep now =>
    if s.clock ≤ now then
      some { s with clock := now, ready := (s.ready.sweepExpired now).2 }
    else none
  | .act id act =>
    (s.calls[id]?).bind fun call =>
      if s.Enabled call.stage act then
        match s.access call.endpoint act with
        | (answer, s') =>
          (call.stage.next act answer).map (s'.moveTo id call act)
      else none

@[simp] theorem calls_access (s : Rail) (endpoint : ClientEndpoint)
    (act : Act) : (s.access endpoint act).2.calls = s.calls := by
  unfold access
  split
  all_goals rfl

@[simp] theorem holder_access (s : Rail) (endpoint : ClientEndpoint)
    (act : Act) : (s.access endpoint act).2.holder = s.holder := by
  unfold access
  split
  all_goals rfl

theorem step_act {s s' : Rail} {id : Nat} {act : Act}
    (h : s.step (.act id act) = some s') :
    exists call next, s.calls[id]? = some call ∧ s.Enabled call.stage act ∧
      call.stage.next act (s.access call.endpoint act).1 = some next ∧
      s' = (s.access call.endpoint act).2.moveTo id call act next := by
  rcases Option.bind_eq_some_iff.mp h with ⟨call, hcall, hstep⟩
  by_cases henabled : s.Enabled call.stage act
  · rw [if_pos henabled] at hstep
    rcases Option.map_eq_some_iff.mp hstep with ⟨next, hnext, heq⟩
    exact ⟨call, next, hcall, henabled, hnext, heq.symm⟩
  · rw [if_neg henabled] at hstep
    cases hstep

theorem step_sweep {s s' : Rail} {now : Nat}
    (h : s.step (.sweep now) = some s') :
    s' = { s with clock := now, ready := (s.ready.sweepExpired now).2 } := by
  change (if s.clock ≤ now then _ else none) = some s' at h
  by_cases hnow : s.clock ≤ now
  · rw [if_pos hnow] at h
    exact (Option.some.inj h).symm
  · rw [if_neg hnow] at h
    cases h

theorem calls_moveTo (s : Rail) (endpoint : ClientEndpoint) (id : Nat)
    (call : Call) (act : Act) (next : Stage) :
    ((s.access endpoint act).2.moveTo id call act next).calls =
      s.calls.set id (call.moved act next) := by
  unfold moveTo
  rw [calls_access]

end Rail

def sampleEndpoint : ClientEndpoint :=
  { gid := List.replicate gidBytes 0, qpn := 1,
    sized := List.length_replicate }

namespace Rail

/-!
## Gates and who holds them
-/

structure Locks (s : Rail) : Prop where
  holds : forall id call g, s.calls[id]? = some call ->
    call.stage.held = some g -> s.holder g = some id
  held : forall g id, s.holder g = some id ->
    exists call, s.calls[id]? = some call ∧ call.stage.held = some g

theorem locks_fresh (capacity ttl : Nat) : (fresh capacity ttl).Locks := by
  constructor
  · intro id call g hcall
    cases hcall
  · intro g id hholder
    cases hholder

theorem Locks.of_eq {s s' : Rail} (h : s.Locks) (hcalls : s'.calls = s.calls)
    (hholder : s'.holder = s.holder) : s'.Locks := by
  constructor
  · rw [hcalls, hholder]
    exact h.holds
  · rw [hcalls, hholder]
    exact h.held

theorem Locks.start {s : Rail} (h : s.Locks) (endpoint : ClientEndpoint) :
    { s with calls := s.calls ++ [Call.start endpoint] }.Locks := by
  constructor
  · intro id call g hcall hheld
    rcases Table.append_cases hcall with hold | hnew
    · exact h.holds id call g hold hheld
    · rw [hnew] at hheld
      cases hheld
  · intro g id hholder
    rcases h.held g id hholder with ⟨call, hcall, hheld⟩
    refine ⟨call, ?_, hheld⟩
    change (s.calls ++ [Call.start endpoint])[id]? = some call
    rw [List.getElem?_append_left (List.getElem?_eq_some_iff.mp hcall).fst]
    exact hcall

section MoveTo

variable {s : Rail} {id : Nat} {call : Call} {next : Stage}

theorem Locks.holder_iff (h : s.Locks) (hcall : s.calls[id]? = some call)
    (g : Nat) : s.holder g = some id <-> call.stage.held = some g := by
  constructor
  · intro hholder
    rcases h.held g id hholder with ⟨owner, howner, hheld⟩
    rw [hcall] at howner
    cases howner
    exact hheld
  · exact h.holds id call g hcall

theorem Locks.holderAfter_iff (h : s.Locks) (hcall : s.calls[id]? = some call)
    (hfree : forall g, call.stage.held = none -> next.held = some g ->
      s.holder g = none)
    (hsame : forall g, call.stage.held = some g ->
      next.held = none ∨ next.held = some g) (g other : Nat) :
    s.holderAfter id call.stage next g = some other <->
      (other = id ∧ next.held = some g) ∨
        (other ≠ id ∧ s.holder g = some other) := by
  have howns := h.holder_iff hcall g
  unfold holderAfter
  cases hheld : call.stage.held with
  | none =>
    rw [hheld] at howns
    cases hnext : next.held with
    | none => grind
    | some taken =>
      have htaken := hfree taken hheld hnext
      dsimp only
      by_cases hg : g = taken
      · rw [hg, Function.update_self]
        grind
      · rw [Function.update_of_ne hg]
        grind
  | some had =>
    rw [hheld] at howns
    rcases hsame had hheld with hnext | hnext
    · rw [hnext]
      dsimp only
      by_cases hg : g = had
      · rw [hg, Function.update_self]
        grind
      · rw [Function.update_of_ne hg]
        grind
    · rw [hnext]
      grind

theorem Locks.moveTo (h : s.Locks) (hcall : s.calls[id]? = some call)
    (hfree : forall g, call.stage.held = none -> next.held = some g ->
      s.holder g = none)
    (hsame : forall g, call.stage.held = some g ->
      next.held = none ∨ next.held = some g) (act : Act) :
    (s.moveTo id call act next).Locks := by
  have hholder := h.holderAfter_iff hcall hfree hsame
  constructor
  · intro other moved g hmoved hheld
    apply (hholder g other).mpr
    rcases Table.set_cases hmoved with ⟨hother, heq⟩ | ⟨hother, hold⟩
    · rw [heq, Call.stage_moved] at hheld
      exact .inl ⟨hother, hheld⟩
    · exact .inr ⟨hother, h.holds other moved g hold hheld⟩
  · intro g other hg
    rcases (hholder g other).mp hg with ⟨hother, hheld⟩ | ⟨hother, hold⟩
    · refine ⟨call.moved act next, ?_, ?_⟩
      · rw [hother]
        exact List.getElem?_set_self (List.getElem?_eq_some_iff.mp hcall).fst
      · rw [Call.stage_moved]
        exact hheld
    · rcases h.held g other hold with ⟨owner, howner, hheld⟩
      refine ⟨owner, ?_, hheld⟩
      change (s.calls.set id _)[other]? = some owner
      rw [List.getElem?_set_ne (Ne.symm hother)]
      exact howner

end MoveTo

theorem locks_step {s s' : Rail} {e : Event} (h : s.Locks)
    (hstep : s.step e = some s') : s'.Locks := by
  cases e with
  | start endpoint =>
    cases hstep
    exact h.start endpoint
  | sweep now =>
    rw [step_sweep hstep]
    exact h.of_eq rfl rfl
  | act id act =>
    rcases step_act hstep with ⟨call, next, hcall, henabled, hnext, heq⟩
    rw [heq]
    have haccess : (s.access call.endpoint act).2.Locks :=
      h.of_eq (calls_access s call.endpoint act)
        (holder_access s call.endpoint act)
    rw [← calls_access s call.endpoint act] at hcall
    apply haccess.moveTo hcall
    · intro g hheld hg
      rcases Stage.held_next hnext with
        hnone | hkeep | ⟨taken, hact, hwait, hlock⟩
      · rw [hnone] at hg
        cases hg
      · rw [hkeep, hheld] at hg
        cases hg
      rw [hlock] at hg
      cases hg
      rw [holder_access]
      rw [hact, hwait] at henabled
      exact henabled
    · intro g hheld
      rcases Stage.held_next hnext with hnone | hkeep | ⟨_, _, hwait, _⟩
      · exact .inl hnone
      · exact .inr (hkeep.trans hheld)
      · rw [hwait] at hheld
        cases hheld

end Rail

end FirstContact

end Transport
end Pacer
