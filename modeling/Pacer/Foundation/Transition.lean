import Mathlib.Logic.Basic

/-!
# Guarded runs of a partial step function

A component that takes one atomic step after another is given by a partial
function `step`: the event names who moves and what the environment
answered, and `none` means the event is not enabled in that state.  This
module fixes the vocabulary shared by every such component: the run of a list
of events, the condition that every step of a run met a guard in the state it
was taken from, and the rule that turns a step lemma into a run lemma.
-/

namespace Pacer
namespace Foundation

namespace Transition

def run (step : state -> event -> Option state) :
    state -> List event -> Option state
  | s, [] => some s
  | s, e :: rest =>
    match step s e with
    | none => none
    | some s' => run step s' rest

@[simp] theorem run_nil (step : state -> event -> Option state) (s : state) :
    run step s [] = some s := rfl

variable {step : state -> event -> Option state}
  {guard : state -> event -> Prop} {rest : List event} {e : event}

theorem run_cons_of_step {s s' : state} (rest : List event)
    (h : step s e = some s') :
    run step s (e :: rest) = run step s' rest := by
  simp [run, h]

theorem run_cons_some {s final : state}
    (h : run step s (e :: rest) = some final) :
    exists s', step s e = some s' ∧ run step s' rest = some final := by
  cases hstep : step s e with
  | none =>
    simp [run, hstep] at h
  | some s' =>
    rw [run_cons_of_step rest hstep] at h
    exact ⟨s', rfl, h⟩

theorem run_exists_cons {s s' : state} {p : state -> Prop}
    (hstep : step s e = some s')
    (hrest : exists final, run step s' rest = some final ∧ p final) :
    exists final, run step s (e :: rest) = some final ∧ p final := by
  rw [run_cons_of_step rest hstep]
  exact hrest

theorem run_append (step : state -> event -> Option state)
    (s : state) (front back : List event) :
    run step s (front ++ back) =
      (run step s front).bind (fun mid => run step mid back) := by
  induction front generalizing s with
  | nil => rfl
  | cons e rest ih =>
    cases hstep : step s e with
    | none => simp [run, hstep]
    | some s' =>
      rw [List.cons_append, run_cons_of_step _ hstep,
        run_cons_of_step _ hstep]
      exact ih s'

/-!
## Guards along a run
-/

/-- Every step of the run from `s` met `guard` in the state it was
taken from. -/
def Along (step : state -> event -> Option state)
    (guard : state -> event -> Prop) : state -> List event -> Prop
  | _, [] => True
  | s, e :: rest =>
    guard s e ∧ forall s', step s e = some s' -> Along step guard s' rest

instance decidableAlong (step : state -> event -> Option state)
    (guard : state -> event -> Prop) [forall s e, Decidable (guard s e)] :
    (s : state) -> (events : List event) ->
      Decidable (Along step guard s events)
  | _, [] => .isTrue True.intro
  | s, e :: rest =>
    have : forall s', Decidable (Along step guard s' rest) :=
      fun s' => decidableAlong step guard s' rest
    inferInstanceAs (Decidable
      (guard s e ∧ forall s', s' ∈ step s e -> Along step guard s' rest))

theorem along_and {guard other : state -> event -> Prop} {s : state}
    {events : List event} (hguard : Along step guard s events)
    (hother : Along step other s events) :
    Along step (fun s e => guard s e ∧ other s e) s events := by
  induction events generalizing s with
  | nil => exact True.intro
  | cons e rest ih =>
    refine ⟨⟨hguard.left, hother.left⟩, ?_⟩
    intro s' hs'
    exact ih (hguard.right s' hs') (hother.right s' hs')

theorem along_congr {guard other : state -> event -> Prop}
    (h : forall s e, guard s e <-> other s e)
    (step : state -> event -> Option state) (s : state) (events : List event) :
    Along step guard s events <-> Along step other s events := by
  induction events generalizing s with
  | nil => exact Iff.rfl
  | cons e rest ih =>
    apply and_congr (h s e)
    apply forall_congr'
    intro s'
    exact imp_congr Iff.rfl (ih s')

theorem along_of_forall {p : event -> Prop} {events : List event}
    (h : forall e, e ∈ events -> p e)
    (step : state -> event -> Option state) (s : state) :
    Along step (fun _ e => p e) s events := by
  induction events generalizing s with
  | nil => exact True.intro
  | cons e rest ih =>
    refine ⟨h e List.mem_cons_self, ?_⟩
    intro s' _
    exact ih (fun e' he' => h e' (List.mem_cons_of_mem e he')) s'

theorem along_cons_of_step {s s' : state} (hguard : guard s e)
    (hstep : step s e = some s') (hrest : Along step guard s' rest)
    : Along step guard s (e :: rest) := by
  refine ⟨hguard, ?_⟩
  intro next hnext
  rw [hstep] at hnext
  cases hnext
  exact hrest

theorem run_along_cons {s s' final : state} (hguard : guard s e)
    (hstep : step s e = some s')
    (hrest : run step s' rest = some final ∧ Along step guard s' rest) :
    run step s (e :: rest) = some final ∧
      Along step guard s (e :: rest) := by
  constructor
  · rw [run_cons_of_step rest hstep]
    exact hrest.left
  · exact along_cons_of_step hguard hstep hrest.right

theorem run_along_append {s mid final : state} {front back : List event}
    (hfront : run step s front = some mid ∧ Along step guard s front)
    (hback : run step mid back = some final ∧ Along step guard mid back) :
    run step s (front ++ back) = some final ∧
      Along step guard s (front ++ back) := by
  induction front generalizing s with
  | nil =>
    have hs : s = mid := by simpa using hfront.left
    rw [hs]
    exact hback
  | cons e rest ih =>
    rcases run_cons_some hfront.left with ⟨s', hs', hrest⟩
    exact run_along_cons hfront.right.left hs'
      (ih ⟨hrest, hfront.right.right s' hs'⟩)

theorem run_preserves {inv : state -> Prop} (hstep : forall s e s',
      inv s -> guard s e -> step s e = some s' -> inv s') {s final : state}
    {events : List event} (hinit : inv s) (hguard : Along step guard s events)
    (hrun : run step s events = some final) : inv final := by
  induction events generalizing s with
  | nil =>
    have hs : s = final := by simpa using hrun
    rw [← hs]
    exact hinit
  | cons e rest ih =>
    rcases run_cons_some hrun with ⟨s', hs', hrest⟩
    exact ih (hstep s e s' hinit hguard.left hs')
      (hguard.right s' hs') hrest

theorem run_invariant {inv : state -> Prop}
    (hstep : forall s e s', inv s -> step s e = some s' -> inv s')
    {s final : state} {events : List event} (hinit : inv s)
    (hrun : run step s events = some final) : inv final :=
  run_preserves (fun s e s' hinv _ hs' => hstep s e s' hinv hs') hinit
    (along_of_forall (p := fun _ => True) (fun _ _ => trivial) step s) hrun

theorem along_of_append {s : state} {front back : List event}
    (h : Along step guard s (front ++ back)) : Along step guard s front := by
  induction front generalizing s with
  | nil => exact True.intro
  | cons e rest ih =>
    refine ⟨h.left, ?_⟩
    intro s' hs'
    exact ih (h.right s' hs')

/-- Where a guard is what keeps an invariant, and a step that breaks it spoils
the next state, the guard holds along a run exactly where every state of the run
is good. -/
theorem along_iff_forall_reached {inv good : state -> Prop}
    (hstep : forall s e s',
      inv s -> guard s e -> step s e = some s' -> inv s')
    (hgood : forall s, inv s -> good s) (hneeds : forall s e s',
      inv s -> step s e = some s' -> good s' -> guard s e) {s final : state}
    {events : List event} (hinit : inv s)
    (hrun : run step s events = some final) :
    (forall front back mid, events = front ++ back ->
        run step s front = some mid -> good mid) <->
      Along step guard s events := by
  constructor
  · intro hall
    induction events generalizing s with
    | nil => exact True.intro
    | cons e rest ih =>
      rcases run_cons_some hrun with ⟨s', hs', hrest⟩
      have hnext : good s' := by
        apply hall [e] rest s' rfl
        rw [run_cons_of_step [] hs']
        rfl
      have hguard := hneeds s e s' hinit hs' hnext
      apply along_cons_of_step hguard hs'
      apply ih (hstep s e s' hinit hguard hs') hrest
      intro front back mid heq hmid
      apply hall (e :: front) back mid
      · rw [heq]
        rfl
      · rw [run_cons_of_step front hs']
        exact hmid
  · intro hguard front back mid heq hmid
    rw [heq] at hguard
    exact hgood mid
      (run_preserves hstep hinit (along_of_append hguard) hmid)

end Transition

end Foundation
end Pacer
