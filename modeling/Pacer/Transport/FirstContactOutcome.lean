import Pacer.Transport.FirstContact

/-!
# How a call for a client endpoint ends

An endpoint that has not installed this node is no reason to fail a read: the
ladder tries again and then has the chunk delivered another way.  Of the three
places at which a call makes an attempt, the one behind the gate passes the
status on.

The main result: a call whose WRITEs all succeed or complete with
`UNKNOWN_PEER` ends written or declined, and written only after a WRITE of its
own, just when no WRITE of a call that found the endpoint proven behind the gate
completes with `UNKNOWN_PEER`.  Every call takes a bounded number of steps, and
an unfinished one can go on, or the holder of the gate it waits for can.
-/

namespace Pacer
namespace Transport

open Foundation

namespace FirstContact

/-!
## What an attempt leads a call to
-/

section Next

variable {stage next : Stage} {act : Act} {answer : Answer}

theorem Stage.ended_of_fault
    (h : stage.next (.complete (.failed .other)) answer = some next) :
    next.ended = true := by
  unfold Stage.next at h
  split at h
  all_goals grind [Stage.ended]

theorem Stage.act_of_failed {error : WriteError}
    (h : stage.next act answer = some (.done (.failed error))) :
    act = .complete (.failed error) ∧
      (error = .unknownPeer -> stage.isGated = true) := by
  unfold Stage.next at h
  split at h
  all_goals grind [Stage.isGated]

theorem Stage.act_of_proving {g : Nat}
    (h : stage.next act answer = some (.proving g)) : act = .complete .ok := by
  unfold Stage.next at h
  split at h
  all_goals grind

theorem Stage.act_of_wrote
    (h : stage.next act answer = some (.done (.returned .wrote))) :
    act = .complete .ok ∨ exists g, stage = .proving g := by
  unfold Stage.next at h
  split at h
  all_goals grind

end Next

variable {call : Call} {next : Stage} {s s' : Rail} {act : Act} {e : Event}

namespace Call

/-- A call that ended, ended without an error, and reports a WRITE it made. -/
def Survives (call : Call) : Prop :=
  (forall error, call.stage ≠ .done (.failed error)) ∧
    (call.stage = .done (.returned .wrote) -> call.succeeded = true)

/-- A call on its way met no fault; one that failed did; and one that wrote, or
is about to say so, made a WRITE. -/
structure Sound (call : Call) : Prop where
  faultless : call.stage.ended = false -> call.faulted = false
  failed : forall error, call.stage = .done (.failed error) ->
    call.faulted = true
  proving : forall g, call.stage = .proving g -> call.succeeded = true
  wrote : call.stage = .done (.returned .wrote) -> call.succeeded = true

theorem sound_start (endpoint : ClientEndpoint) : (start endpoint).Sound := by
  constructor
  · intro _
    rfl
  · intro error h
    cases h
  · intro g h
    cases h
  · intro h
    cases h

theorem Sound.survives (h : call.Sound) (hfaultless : call.faulted = false)
    : call.Survives := by
  constructor
  · intro error hfailed
    rw [h.failed error hfailed] at hfaultless
    cases hfaultless
  · exact h.wrote

theorem succeeded_moved (h : call.succeeded = true) (act : Act) (next : Stage)
    : (call.moved act next).succeeded = true := by
  unfold moved
  split
  · rfl
  · exact h
  · exact h

theorem faulted_moved (hact : act ≠ .complete (.failed .other)) (call : Call)
    (next : Stage) :
    (call.moved act next).faulted = call.faulted := by
  unfold moved
  split
  · rfl
  · exact absurd rfl hact
  · rfl

theorem sound_moved {answer : Answer} (h : call.Sound)
    (hnext : call.stage.next act answer = some next)
    (hknown : act = .complete (.failed .unknownPeer) ->
      call.stage.isGated = false) : (call.moved act next).Sound := by
  constructor
  · intro hended
    rw [stage_moved] at hended
    have hact : act ≠ .complete (.failed .other) := by
      intro hact
      rw [hact] at hnext
      rw [Stage.ended_of_fault hnext] at hended
      cases hended
    rw [faulted_moved hact]
    exact h.faultless (Stage.ended_of_next hnext)
  · intro error hfailed
    rw [stage_moved] at hfailed
    rw [hfailed] at hnext
    rcases Stage.act_of_failed hnext with ⟨hact, hgated⟩
    cases error with
    | unknownPeer =>
      rw [hknown hact] at hgated
      cases hgated rfl
    | other =>
      rw [hact]
      rfl
  · intro g hproving
    rw [stage_moved] at hproving
    rw [hproving] at hnext
    rw [Stage.act_of_proving hnext]
    rfl
  · intro hwrote
    rw [stage_moved] at hwrote
    rw [hwrote] at hnext
    rcases Stage.act_of_wrote hnext with hact | ⟨g, hproving⟩
    · rw [hact]
      rfl
    · exact succeeded_moved (h.proving g hproving) act next

theorem not_survives_of_gated {answer : Answer}
    (hgated : call.stage.isGated = true)
    (hnext : call.stage.next (.complete (.failed .unknownPeer)) answer =
      some next) :
    ¬ (call.moved (.complete (.failed .unknownPeer)) next).Survives := by
  intro hsurvives
  apply hsurvives.left .unknownPeer
  rw [stage_moved]
  unfold Stage.next at hnext
  split at hnext
  all_goals grind [Stage.isGated]

end Call

namespace Rail

/-!
## Calls that survive an unknown peer
-/

/-- Every call of which no WRITE failed otherwise survives. -/
def Survives (s : Rail) : Prop :=
  forall call, call ∈ s.calls -> call.faulted = false -> call.Survives

/-- No WRITE behind the gate of an endpoint found proven there completes with an
unknown peer. -/
def KnownBehindGate (s : Rail) : Event -> Prop
  | .act id (.complete (.failed .unknownPeer)) =>
    forall call, call ∈ s.calls[id]? -> call.stage.isGated = false
  | _ => True

instance (s : Rail) : (e : Event) -> Decidable (s.KnownBehindGate e)
  | .act id (.complete (.failed .unknownPeer)) =>
    inferInstanceAs (Decidable
      (forall call, call ∈ s.calls[id]? -> call.stage.isGated = false))
  | .act _ (.complete (.failed .other)) => .isTrue True.intro
  | .act _ (.complete .ok) => .isTrue True.intro
  | .act _ (.look _) => .isTrue True.intro
  | .act _ (.forget _) => .isTrue True.intro
  | .act _ (.take _ _) => .isTrue True.intro
  | .act _ .lock => .isTrue True.intro
  | .act _ (.announced _) => .isTrue True.intro
  | .act _ .wake => .isTrue True.intro
  | .act _ (.prove _ _) => .isTrue True.intro
  | .act _ .drop => .isTrue True.intro
  | .start _ => .isTrue True.intro
  | .sweep _ => .isTrue True.intro

def Sound (s : Rail) : Prop := forall call, call ∈ s.calls -> call.Sound

theorem sound_step (h : s.Sound) (hknown : s.KnownBehindGate e)
    (hstep : s.step e = some s') :
    s'.Sound := by
  cases e with
  | start endpoint =>
    cases hstep
    intro call hmem
    rcases List.mem_append.mp hmem with hold | hnew
    · exact h call hold
    · rw [List.mem_singleton.mp hnew]
      exact Call.sound_start endpoint
  | sweep now =>
    rw [step_sweep hstep]
    exact h
  | act id act =>
    rcases step_act hstep with ⟨call, next, hcall, _, hnext, heq⟩
    rw [heq]
    intro moved hmem
    rw [calls_moveTo] at hmem
    rcases List.mem_or_eq_of_mem_set hmem with hold | hnew
    · exact h moved hold
    · rw [hnew]
      apply Call.sound_moved (h call (List.mem_of_getElem? hcall)) hnext
      intro hact
      rw [hact] at hknown
      exact hknown call hcall

theorem knownBehindGate_of_survives (h : s.Sound) (hstep : s.step e = some s')
    (hsurvives : s'.Survives) :
    s.KnownBehindGate e := by
  unfold KnownBehindGate
  split
  · next id =>
      intro call hcall
      rcases step_act hstep with ⟨call', next, hcall', _, hnext, heq⟩
      have hsame : call' = call := Option.some.inj (hcall'.symm.trans hcall)
      rw [hsame] at hnext heq
      cases hgated : call.stage.isGated with
      | false => rfl
      | true =>
        apply absurd _ (Call.not_survives_of_gated hgated hnext)
        apply hsurvives
        · rw [heq, calls_moveTo]
          apply List.mem_of_getElem? (i := id)
          apply List.getElem?_set_self
          exact (List.getElem?_eq_some_iff.mp hcall).fst
        · exact (h call (List.mem_of_getElem? hcall)).faultless
            (Stage.ended_of_next hnext)
  · exact True.intro

/-!
## Calls end
-/

def remaining (s : Rail) (id : Nat) : Nat :=
  ((s.calls[id]?).map fun call => call.stage.rank).getD (Stage.rank .entering)

/-- An unfinished call can take a step other than being dropped, or waits for a
gate whose holder can. -/
def Progresses (s : Rail) : Prop :=
  forall id call, s.calls[id]? = some call -> call.stage.ended = false ->
    exists mover act, act ≠ Act.drop ∧
      (s.step (.act mover act)).isSome = true ∧
      (mover = id ∨
        exists g, call.stage = .waiting g ∧ s.holder g = some mover)

end Rail

def Event.isBy (id : Nat) : Event -> Bool
  | .act mover _ => mover == id
  | _ => false

namespace Rail

theorem remaining_step (hstep : s.step e = some s') (id : Nat) :
    (if e.isBy id then 1 else 0) + s'.remaining id ≤ s.remaining id := by
  unfold remaining
  cases e with
  | start endpoint =>
    cases hstep
    change 0 + _ ≤ _
    rw [Nat.zero_add, List.getElem?_append]
    by_cases hid : id < s.calls.length
    · rw [if_pos hid]
    · rw [if_neg hid, List.getElem?_eq_none (Nat.le_of_not_lt hid)]
      cases hnew : [Call.start endpoint][id - s.calls.length]? with
      | none => exact Nat.le_refl _
      | some call =>
        rw [List.mem_singleton.mp (List.mem_of_getElem? hnew)]
        exact Nat.le_refl _
  | sweep now =>
    rw [step_sweep hstep]
    change 0 + _ ≤ _
    rw [Nat.zero_add]
  | act mover act =>
    rcases step_act hstep with ⟨call, next, hcall, _, hnext, heq⟩
    have hrank := Stage.rank_next hnext
    rw [heq]
    by_cases hmover : mover = id
    · rw [hmover] at hcall ⊢
      rw [calls_moveTo,
        List.getElem?_set_self (List.getElem?_eq_some_iff.mp hcall).fst,
        hcall]
      simp [Event.isBy]
      lia
    · rw [calls_moveTo, List.getElem?_set_ne hmover]
      simp [Event.isBy, hmover]

theorem remaining_run {s final : Rail} {events : List Event}
    (hrun : Transition.run step s events = some final) (id : Nat) :
    events.countP (Event.isBy id) + final.remaining id ≤ s.remaining id := by
  induction events generalizing s with
  | nil =>
    cases hrun
    simp
  | cons e rest ih =>
    rcases Transition.run_cons_some hrun with ⟨s', hs', hrest⟩
    have hone := remaining_step hs' id
    have hmore := ih hrest
    rw [List.countP_cons]
    lia

theorem isSome_step_of_next {id : Nat} (hcall : s.calls[id]? = some call)
    (henabled : s.Enabled call.stage act)
    (hnext : call.stage.next act (s.access call.endpoint act).1 = some next) :
    (s.step (.act id act)).isSome = true := by
  change (Option.bind s.calls[id]? _).isSome = true
  rw [hcall]
  change (if s.Enabled call.stage act then _ else none).isSome = true
  rw [if_pos henabled]
  change (Option.map _ (call.stage.next act
    (s.access call.endpoint act).1)).isSome = true
  rw [hnext]
  rfl

theorem exists_act {id : Nat} (hcall : s.calls[id]? = some call)
    (hended : call.stage.ended = false)
    (hfree : forall g, call.stage = .waiting g -> s.holder g = none) :
    exists act, act ≠ Act.drop ∧ (s.step (.act id act)).isSome = true := by
  suffices hact : exists act, act ≠ Act.drop ∧ s.Enabled call.stage act ∧
      exists next, call.stage.next act (s.access call.endpoint act).1 =
        some next by
    rcases hact with ⟨act, hdrop, henabled, next, hnext⟩
    exact ⟨act, hdrop, isSome_step_of_next hcall henabled hnext⟩
  cases hstage : call.stage with
  | entering | locked g => exact ⟨.look s.clock, nofun, Nat.le_refl _, _, rfl⟩
  | fast | gated g | ladder g attempt =>
    exact ⟨.complete .ok, nofun, True.intro, _, rfl⟩
  | forgetting => exact ⟨.forget s.clock, nofun, Nat.le_refl _, _, rfl⟩
  | arriving =>
    exact ⟨.take s.clock fun _ => 0, nofun, Nat.le_refl _, _, rfl⟩
  | waiting g => exact ⟨.lock, nofun, hfree g hstage, _, rfl⟩
  | announcing g => exact ⟨.announced true, nofun, True.intro, _, rfl⟩
  | sleeping g attempt =>
    refine ⟨.wake, nofun, True.intro, ?_⟩
    unfold Stage.next
    by_cases hmore : attempt < unknownPeerAttempts
    · exact ⟨_, if_pos hmore⟩
    · exact ⟨_, if_neg hmore⟩
  | proving g =>
    exact ⟨.prove s.clock fun _ => 0, nofun, Nat.le_refl _, _, rfl⟩
  | done outcome | dropped =>
    rw [hstage] at hended
    cases hended

theorem Locks.progresses (h : s.Locks) : s.Progresses := by
  intro id call hcall hended
  by_cases hwaits : exists g mover,
      call.stage = .waiting g ∧ s.holder g = some mover
  · rcases hwaits with ⟨g, mover, hwaiting, hholder⟩
    rcases h.held g mover hholder with ⟨owner, howner, hheld⟩
    have hownerFree : forall g', owner.stage = .waiting g' ->
        s.holder g' = none := by
      intro g' hstage
      rw [hstage] at hheld
      cases hheld
    rcases exists_act howner (Stage.ended_of_held hheld) hownerFree with
      ⟨act, hdrop, hsome⟩
    exact ⟨mover, act, hdrop, hsome, .inr ⟨g, hwaiting, hholder⟩⟩
  · have hfree : forall g, call.stage = .waiting g -> s.holder g = none := by
      intro g hwaiting
      cases hholder : s.holder g with
      | none => rfl
      | some mover => exact absurd ⟨g, mover, hwaiting, hholder⟩ hwaits
    rcases exists_act hcall hended hfree with ⟨act, hdrop, hsome⟩
    exact ⟨id, act, hdrop, hsome, .inl rfl⟩

/-!
## Whole runs
-/

theorem sound_fresh (capacity ttl : Nat) : (fresh capacity ttl).Sound := by
  intro call hmem
  cases hmem

/-- Calls whose WRITEs all succeed or meet an unknown peer end well in every
state of a run, just when none meets it behind the gate of an endpoint found
proven there; and no call takes steps without end, or is stuck. -/
theorem survives_unknown_peer_iff {capacity ttl : Nat} {events : List Event}
    {final : Rail}
    (hrun : Transition.run step (fresh capacity ttl) events = some final) :
    ((forall front back mid, events = front ++ back ->
        Transition.run step (fresh capacity ttl) front = some mid ->
          mid.Survives) <->
      Transition.Along step KnownBehindGate (fresh capacity ttl) events) ∧
    (forall id, events.countP (Event.isBy id) ≤ Stage.rank .entering) ∧
    final.Progresses := by
  refine ⟨?_, ?_, ?_⟩
  · have hkeeps : forall s e s', Sound s -> KnownBehindGate s e ->
        step s e = some s' -> Sound s' :=
      fun s e s' hsound hknown hstep => sound_step hsound hknown hstep
    apply Transition.along_iff_forall_reached hkeeps _ _
      (sound_fresh capacity ttl) hrun
    · intro s hsound call hmem hfaultless
      exact (hsound call hmem).survives hfaultless
    · intro s e s' hsound hstep hsurvives
      exact knownBehindGate_of_survives hsound hstep hsurvives
  · intro id
    have hremaining := remaining_run hrun id
    change _ ≤ Stage.rank .entering at hremaining
    lia
  · apply Locks.progresses
    exact Transition.run_invariant
      (fun s e s' hlocks hstep => locks_step hlocks hstep)
      (locks_fresh capacity ttl) hrun

/-- Two calls for one endpoint: one climbs the ladder, while the other waits for
the gate and finds the endpoint proven behind it.  How the other's attempt ends
is left open. -/
def behindGate (result : Attempt) : List Event :=
  [.start sampleEndpoint, .start sampleEndpoint,
    .act 0 (.look 0), .act 1 (.look 0),
    .act 0 (.take 0 ClientEndpoint.qpn), .act 1 (.take 0 ClientEndpoint.qpn),
    .act 0 .lock, .act 0 (.look 0),
    .act 0 (.complete (.failed .unknownPeer)), .act 0 (.announced true),
    .act 0 .wake, .act 0 (.complete .ok),
    .act 0 (.prove 2 ClientEndpoint.qpn),
    .act 1 .lock, .act 1 (.look 2), .act 1 (.complete result)]

theorem survives_unknown_peer_ladder :
    exists final,
      Transition.run step (fresh 2048 300000) (behindGate .ok) = some final ∧
        final.calls.map Call.stage =
          [.done (.returned .wrote), .done (.returned .wrote)] ∧
        final.Survives := by
  have hstages : (Transition.run step (fresh 2048 300000) (behindGate .ok)).map
      (fun s => s.calls.map Call.stage) =
        some [.done (.returned .wrote), .done (.returned .wrote)] := by
    decide +kernel
  rcases Option.map_eq_some_iff.mp hstages with ⟨final, hrun, hfinal⟩
  refine ⟨final, hrun, hfinal, ?_⟩
  apply (survives_unknown_peer_iff hrun).left.mpr
  · decide +kernel
  · exact (List.append_nil _).symm
  · exact hrun

/-- The proof another call left does not hold when the process behind the
endpoint has changed: the one attempt behind the gate fails the read. -/
theorem unknown_peer_behind_gate_fails :
    exists final,
      Transition.run step (fresh 2048 300000)
          (behindGate (.failed .unknownPeer)) = some final ∧
        ¬ final.Survives := by
  have hcalls : (Transition.run step (fresh 2048 300000)
      (behindGate (.failed .unknownPeer))).map Rail.calls =
        some [
          { endpoint := sampleEndpoint, stage := .done (.returned .wrote),
            succeeded := true, faulted := false },
          { endpoint := sampleEndpoint, stage := .done (.failed .unknownPeer),
            succeeded := false, faulted := false }] := by
    decide +kernel
  rcases Option.map_eq_some_iff.mp hcalls with ⟨final, hrun, hfinal⟩
  refine ⟨final, hrun, ?_⟩
  intro hsurvives
  unfold Survives at hsurvives
  rw [hfinal] at hsurvives
  have hfailed := hsurvives _ (List.mem_cons_of_mem _ List.mem_cons_self) rfl
  exact hfailed.left .unknownPeer rfl

end Rail

end FirstContact

end Transport
end Pacer
