import Mathlib.Data.List.Basic
import Pacer.Foundation.Table
import Pacer.Foundation.Transition

/-!
# The source buffer of a one-sided WRITE

A node that serves a chunk by RDMA posts a WRITE from a local buffer and waits
for the completion of its work request.  The buffer belongs to the future that
waits; where the future gives up first, the buffer is handed to the completion
pump, which lets go of it when the completion is reaped.

This module follows any number of such futures over any number of rails, through
every point at which they wait.  A work request's id also names the buffer it
reads, since a buffer is made for one post.  A future is owned by whoever polls
it, and whoever owns several may drop them all at once, as a delivery does that
gives up the rest of its windows.
-/

namespace Pacer
namespace Transport

open Foundation.Transition Function
open Foundation.Table

namespace WriteCompletion

inductive Path where
  | serve
  | client
deriving DecidableEq, Repr

/-- What a future waits for: an address handle, the rail's window, a staging
range, a queue pair to post on, the completion, or the eviction of a handle. -/
inductive Phase where
  | address
  | window
  | lease
  | queuePair (wr : Nat)
  | completion (wr : Nat)
  | evict
deriving DecidableEq, Repr

def Phase.source : Phase -> Option Nat
  | .queuePair wr => some wr
  | .completion wr => some wr
  | _ => none

/-- A suspended future.  `inPlace` is a body that is already registered, and is
written from where it is. -/
structure Task where
  owner : Nat
  rail : Nat
  path : Path
  inPlace : Bool
  phase : Phase
deriving DecidableEq, Repr

structure State where
  tasks : Nat -> Option Task
  nextTask : Nat
  nextWr : Nat
  railOf : Nat -> Nat
  waiters : Nat -> Bool
  orphans : Nat -> Bool
  sending : Nat -> Bool
  resolved : Nat -> Bool
  outstanding : Nat -> Bool
  dropped : Nat -> Bool
  pumpAlive : Nat -> Bool
  qpAlive : Nat -> Bool

inductive Event where
  | start (owner rail : Nat) (path : Path) (inPlace : Bool)
  | proceed (t : Nat)
  | refuse (t : Nat)
  | post (t : Nat) (submitted : Bool)
  | reap (wr : Nat)
  | send (wr : Nat)
  | resume (t : Nat) (ok : Bool)
  | expire (t : Nat)
  | lose (t : Nat)
  | drop (owner : Nat)
  | exitPump (rail : Nat)
  | destroyQueuePairs (rail : Nat)
  | dropPump (rail : Nat)
deriving DecidableEq, Repr

namespace State

def start : State where
  tasks := fun _ => none
  nextTask := 0
  nextWr := 1
  railOf := fun _ => 0
  waiters := fun _ => false
  orphans := fun _ => false
  sending := fun _ => false
  resolved := fun _ => false
  outstanding := fun _ => false
  dropped := fun _ => false
  pumpAlive := fun _ => true
  qpAlive := fun _ => true

def setTask (s : State) (t : Nat) (task : Option Task) : State :=
  { s with tasks := update s.tasks t task }

def setPhase (s : State) (t : Nat) (task : Task) (phase : Phase) : State :=
  s.setTask t (some { task with phase := phase })

def dropSource (s : State) (wr : Nat) : State :=
  { s with dropped := update s.dropped wr true }

def register (s : State) (t : Nat) (task : Task) : State :=
  { s.setPhase t task (.queuePair s.nextWr) with
    nextWr := s.nextWr + 1
    railOf := update s.railOf s.nextWr task.rail
    waiters := update s.waiters s.nextWr true }

def posted (s : State) (t : Nat) (task : Task) (wr : Nat) : State :=
  { s.setPhase t task (.completion wr) with
    outstanding := update s.outstanding wr true }

def cancel (s : State) (wr : Nat) : State :=
  { s with waiters := update s.waiters wr false }

def orphan (s : State) (wr : Nat) : State :=
  { s with orphans := update s.orphans wr true }

def orphanIfUnreaped (s : State) (wr : Nat) : State :=
  if s.waiters wr then (s.cancel wr).orphan wr else s.dropSource wr

/-- One completion: its waiter is taken, to be woken, and a buffer the pump
holds for it is dropped. -/
def dispatchOne (s : State) (wr : Nat) : State :=
  { s with
    outstanding := update s.outstanding wr false
    orphans := update s.orphans wr false
    dropped := update s.dropped wr (s.dropped wr || s.orphans wr)
    waiters := update s.waiters wr false
    sending := update s.sending wr (s.waiters wr) }

def after (s : State) (t : Nat) (task : Task) (failed : Bool) : State :=
  if failed && task.path = .serve then s.setPhase t task .evict
  else s.setTask t none

def ownedBy (s : State) (owner wr : Nat) : Bool :=
  (List.range s.nextTask).any fun t =>
    (s.tasks t).any fun task =>
      task.owner == owner && task.phase.source == some wr

def dropOwned (s : State) (owner : Nat) : State :=
  { s with
    tasks := fun t => (s.tasks t).filter fun task => task.owner != owner
    dropped := fun wr => s.dropped wr || s.ownedBy owner wr }

end State

/-- A future takes the buffer it writes from: the registered body itself, or a
staging range, for which it waits. -/
def takeSource (s : State) (t : Nat) (task : Task) : State :=
  if task.inPlace then s.register t task else s.setPhase t task .lease

/-- What a future waited for is there.  The two paths wait for the address
handle and the window in different orders. -/
def proceed (s : State) (t : Nat) : Option State :=
  match s.tasks t with
  | none => none
  | some task =>
    match task.phase, task.path with
    | .address, .serve => some (s.setPhase t task .window)
    | .window, .serve => some (takeSource s t task)
    | .window, .client => some (s.setPhase t task .address)
    | .address, .client => some (takeSource s t task)
    | .lease, _ => some (s.register t task)
    | .evict, _ => some (s.setTask t none)
    | _, _ => none

def refuse (s : State) (t : Nat) : Option State :=
  match s.tasks t with
  | none => none
  | some task =>
    match task.phase with
    | .address => some (s.setTask t none)
    | _ => none

def postWrite (s : State) (t : Nat) (submitted : Bool) : Option State :=
  match s.tasks t with
  | none => none
  | some task =>
    match task.phase with
    | .queuePair wr =>
      if submitted then
        if s.qpAlive task.rail then some (s.posted t task wr) else none
      else some (((s.cancel wr).dropSource wr).setTask t none)
    | _ => none

def reap (s : State) (wr : Nat) : Option State :=
  if s.outstanding wr && s.pumpAlive (s.railOf wr) then some (s.dispatchOne wr)
  else none

def send (s : State) (wr : Nat) : Option State :=
  if s.sending wr then
    some { s with
      sending := update s.sending wr false
      resolved := update s.resolved wr true }
  else none

/-- The end of a wait for a completion: with the completion, at the deadline, or
because the waiter's other end is gone. -/
def awaitWriteCompletion (s : State) (t : Nat) (enabled : Nat -> Bool)
    (act : Nat -> State) (failed : Bool) : Option State :=
  match s.tasks t with
  | none => none
  | some task =>
    match task.phase with
    | .completion wr =>
      if enabled wr then some ((act wr).after t task failed) else none
    | _ => none

def dropPump (s : State) (rail : Nat) : Option State :=
  if s.qpAlive rail then none
  else some { s with
    orphans := fun wr => s.orphans wr && s.railOf wr != rail
    dropped := fun wr =>
      s.dropped wr || (s.orphans wr && s.railOf wr == rail) }

def step (s : State) : Event -> Option State
  | .start owner rail path inPlace =>
    let phase := match path with
      | .serve => Phase.address
      | .client => Phase.window
    let task : Task := ⟨owner, rail, path, inPlace, phase⟩
    some { s.setTask s.nextTask (some task) with
      nextTask := s.nextTask + 1 }
  | .proceed t => proceed s t
  | .refuse t => refuse s t
  | .post t submitted => postWrite s t submitted
  | .reap wr => reap s wr
  | .send wr => send s wr
  | .resume t ok => awaitWriteCompletion s t s.resolved s.dropSource (!ok)
  | .expire t =>
    awaitWriteCompletion s t (fun wr => !s.resolved wr) s.orphanIfUnreaped
      true
  | .lose t =>
    awaitWriteCompletion s t
      (fun wr => !s.resolved wr && !s.sending wr && !s.waiters wr) s.orphan
      true
  | .drop owner => some (s.dropOwned owner)
  | .exitPump rail =>
    some { s with pumpAlive := update s.pumpAlive rail false }
  | .destroyQueuePairs rail =>
    some { s with qpAlive := update s.qpAlive rail false }
  | .dropPump rail => dropPump s rail

/-- The buffer of every work request that is posted, and not reaped, is there
while its queue pair is. -/
def SourcesLive (s : State) : Prop :=
  forall wr, s.outstanding wr = true -> s.qpAlive (s.railOf wr) = true ->
    s.dropped wr = false

/-- No future is dropped that waits for the completion of a work request the
device may still be reading for. -/
def SparesPosted (s : State) : Event -> Prop
  | .drop owner =>
    forall t task wr, s.tasks t = some task -> task.owner = owner ->
      task.phase = .completion wr -> s.outstanding wr = true ->
        s.qpAlive task.rail = false
  | _ => True

/-!
## The invariant
-/

structure Sound (s : State) : Prop where
  fresh : forall wr, s.nextWr ≤ wr ->
    s.outstanding wr = false ∧ s.orphans wr = false ∧ s.dropped wr = false ∧
      s.sending wr = false ∧ s.resolved wr = false
  started : forall t task, s.tasks t = some task -> t < s.nextTask
  holder : forall t task wr, s.tasks t = some task ->
    task.phase.source = some wr ->
      wr < s.nextWr ∧ s.railOf wr = task.rail ∧ s.dropped wr = false ∧
        s.orphans wr = false
  unique : forall t t' task task' wr, s.tasks t = some task ->
    s.tasks t' = some task' -> task.phase.source = some wr ->
      task'.phase.source = some wr -> t = t'
  unposted : forall t task wr, s.tasks t = some task ->
    task.phase = .queuePair wr ->
      s.outstanding wr = false ∧ s.waiters wr = true ∧ s.sending wr = false ∧
        s.resolved wr = false
  watched : forall t task wr, s.tasks t = some task ->
    task.phase = .completion wr -> s.outstanding wr = true ->
      s.waiters wr = true
  reaped : forall wr, s.sending wr = true ∨ s.resolved wr = true ->
    s.outstanding wr = false
  owned : forall wr, s.outstanding wr = true ->
    s.qpAlive (s.railOf wr) = true ->
      (exists t task, s.tasks t = some task ∧ task.phase = .completion wr) ∨
        s.orphans wr = true
  kept : forall wr, s.orphans wr = true -> s.dropped wr = false

structure Entry where
  rail : Nat
  waiter : Bool
  orphan : Bool
  sending : Bool
  resolved : Bool
  outstanding : Bool
  dropped : Bool

def State.entry (s : State) (wr : Nat) : Entry where
  rail := s.railOf wr
  waiter := s.waiters wr
  orphan := s.orphans wr
  sending := s.sending wr
  resolved := s.resolved wr
  outstanding := s.outstanding wr
  dropped := s.dropped wr

/-- What `Sound` says of one work request, of which the tables say `e`. -/
structure EntryOk (s : State) (wr : Nat) (e : Entry) : Prop where
  fresh : s.nextWr ≤ wr ->
    e.outstanding = false ∧ e.orphan = false ∧ e.dropped = false ∧
      e.sending = false ∧ e.resolved = false
  holder : forall t task, s.tasks t = some task ->
    task.phase.source = some wr ->
      wr < s.nextWr ∧ e.rail = task.rail ∧ e.dropped = false ∧
        e.orphan = false
  unposted : forall t task, s.tasks t = some task ->
    task.phase = .queuePair wr ->
      e.outstanding = false ∧ e.waiter = true ∧ e.sending = false ∧
        e.resolved = false
  watched : forall t task, s.tasks t = some task ->
    task.phase = .completion wr -> e.outstanding = true -> e.waiter = true
  reaped : e.sending = true ∨ e.resolved = true -> e.outstanding = false
  owned : e.outstanding = true -> s.qpAlive e.rail = true ->
    (exists t task, s.tasks t = some task ∧ task.phase = .completion wr) ∨
      e.orphan = true
  kept : e.orphan = true -> e.dropped = false

theorem Sound.sourcesLive {s : State} (h : Sound s) : SourcesLive s := by
  intro wr houtstanding halive
  rcases h.owned wr houtstanding halive with ⟨t, task, htask, hphase⟩ | horphan
  · have hsource : task.phase.source = some wr := by
      rw [hphase]
      rfl
    exact (h.holder t task wr htask hsource).right.right.left
  · exact h.kept wr horphan

variable {s s' : State} {task : Task} {new : Option Task} {t wr : Nat}

variable {phase : Phase}

theorem source_queuePair (h : phase = .queuePair wr) :
    phase.source = some wr := by
  rw [h]
  rfl

theorem source_completion (h : phase = .completion wr) :
    phase.source = some wr := by
  rw [h]
  rfl

theorem EntryOk.frame {e : Entry} (h : EntryOk s wr e)
    (hnextWr : s.nextWr ≤ s'.nextWr) (hqp : s'.qpAlive = s.qpAlive)
    (hback : forall t task, s'.tasks t = some task ->
      task.phase.source = some wr -> s.tasks t = some task)
    (hforth : forall t task, s.tasks t = some task ->
      task.phase.source = some wr -> s'.tasks t = some task) :
    EntryOk s' wr e := by
  constructor
  · exact fun hle => h.fresh (Nat.le_trans hnextWr hle)
  · intro t task htask hsource
    have hheld := h.holder t task (hback t task htask hsource) hsource
    exact ⟨Nat.lt_of_lt_of_le hheld.left hnextWr, hheld.right⟩
  · intro t task htask hphase
    exact h.unposted t task (hback t task htask (source_queuePair hphase))
      hphase
  · intro t task htask hphase
    exact h.watched t task (hback t task htask (source_completion hphase))
      hphase
  · exact h.reaped
  · intro houtstanding halive
    rw [hqp] at halive
    rcases h.owned houtstanding halive with ⟨t, task, htask, hphase⟩ | horphan
    · exact .inl
        ⟨t, task, hforth t task htask (source_completion hphase), hphase⟩
    · exact .inr horphan
  · exact h.kept

theorem sound_start : Sound State.start where
  fresh _ _ := ⟨rfl, rfl, rfl, rfl, rfl⟩
  started _ _ h := nomatch h
  holder _ _ _ h := nomatch h
  unique _ _ _ _ _ h := nomatch h
  unposted _ _ _ h := nomatch h
  watched _ _ _ h := nomatch h
  reaped _ _ := rfl
  owned _ h := nomatch h
  kept _ h := nomatch h

namespace Sound

variable {s : State}

theorem source_eq (htask : s.tasks t = some task)
    (hsource : task.phase.source = some wr) (found : Task) (other : Nat)
    (hfound : s.tasks t = some found) (hother : found.phase.source = some other)
    : other = wr := by
  cases htask.symm.trans hfound
  exact Option.some.inj (hother.symm.trans hsource)

theorem ne_of_source (h : Sound s) (htask : s.tasks t = some task)
    (hsource : task.phase.source = some wr) (t' : Nat) (found : Task)
    (other : Nat) (hne : t' ≠ t) (hfound : s.tasks t' = some found)
    (hother : found.phase.source = some other) : other ≠ wr := by
  intro heq
  rw [heq] at hother
  exact hne (h.unique t' t found task wr hfound htask hother hsource)

theorem free_of_setTask (h : Sound s) (htask : s.tasks t = some task)
    (hsource : task.phase.source = some wr)
    (hnew : forall found, new = some found -> found.phase.source = none)
    {t' : Nat} {found : Task}
    (hfound : update s.tasks t new t' = some found) :
    found.phase.source ≠ some wr := by
  rcases update_cases hfound with ⟨_, heq⟩ | ⟨hne, heq⟩
  · rw [hnew found heq]
    exact nofun
  · intro hheld
    exact h.ne_of_source htask hsource t' found wr hne heq hheld rfl

/-!
### One work request at a time
-/

theorem entry (h : Sound s) (wr : Nat) : EntryOk s wr (s.entry wr) where
  fresh := h.fresh wr
  holder t task htask := h.holder t task wr htask
  unposted t task htask := h.unposted t task wr htask
  watched t task htask := h.watched t task wr htask
  reaped := h.reaped wr
  owned := h.owned wr
  kept := h.kept wr

theorem of_entries
    (hstarted : forall t task, s.tasks t = some task -> t < s.nextTask)
    (hunique : forall t t' task task' wr, s.tasks t = some task ->
      s.tasks t' = some task' -> task.phase.source = some wr ->
        task'.phase.source = some wr -> t = t')
    (hentries : forall wr, EntryOk s wr (s.entry wr)) : Sound s where
  fresh wr := (hentries wr).fresh
  started := hstarted
  holder t task wr := (hentries wr).holder t task
  unique := hunique
  unposted t task wr := (hentries wr).unposted t task
  watched t task wr := (hentries wr).watched t task
  reaped wr := (hentries wr).reaped
  owned wr := (hentries wr).owned
  kept wr := (hentries wr).kept

section

variable (h : Sound s)

include h

theorem setEntry (wr : Nat) (htasks : s'.tasks = s.tasks)
    (hnextTask : s'.nextTask = s.nextTask) (hnextWr : s'.nextWr = s.nextWr)
    (hqp : s'.qpAlive = s.qpAlive)
    (hothers : forall other, other ≠ wr -> s'.entry other = s.entry other)
    (hentry : EntryOk s' wr (s'.entry wr)) : Sound s' := by
  apply of_entries
  · rw [htasks, hnextTask]
    exact h.started
  · rw [htasks]
    exact h.unique
  · intro other
    by_cases hother : other = wr
    · rw [hother]
      exact hentry
    · rw [hothers other hother]
      apply (h.entry other).frame (Nat.le_of_eq hnextWr.symm) hqp
      · intro t task htask _
        rw [← htasks]
        exact htask
      · intro t task htask _
        rw [htasks]
        exact htask

theorem setTask (held : Nat -> Prop) (ht : t < s.nextTask)
    (htasks : s'.tasks = update s.tasks t new)
    (hnextTask : s'.nextTask = s.nextTask) (hnextWr : s.nextWr ≤ s'.nextWr)
    (hqp : s'.qpAlive = s.qpAlive)
    (hold : forall task wr, s.tasks t = some task ->
      task.phase.source = some wr -> held wr)
    (hnew : forall task wr, new = some task ->
      task.phase.source = some wr -> held wr)
    (hfree : forall t' task wr, t' ≠ t -> s.tasks t' = some task ->
      task.phase.source = some wr -> ¬ held wr)
    (hothers : forall wr, ¬ held wr -> s'.entry wr = s.entry wr)
    (hentry : forall wr, held wr -> EntryOk s' wr (s'.entry wr)) :
    Sound s' := by
  apply of_entries
  · rw [htasks, hnextTask]
    exact forall_update h.started fun _ _ => ht
  · rw [htasks]
    apply distinct_update h.unique
    intro t' task task' wr hne htask htask' hsource hsource'
    exact hfree t' task' wr hne htask' hsource' (hnew task wr htask hsource)
  · intro wr
    by_cases hheld : held wr
    · exact hentry wr hheld
    rw [hothers wr hheld]
    apply (h.entry wr).frame hnextWr hqp
    · intro t' task htask hsource
      rw [htasks] at htask
      rcases update_cases htask with ⟨_, heq⟩ | ⟨_, heq⟩
      · exact absurd (hnew task wr heq hsource) hheld
      · exact heq
    · intro t' task htask hsource
      rw [htasks, update_of_ne]
      · exact htask
      · intro heq
        rw [heq] at htask
        exact hheld (hold task wr htask hsource)

/-!
### Futures that hold no buffer
-/

theorem setQuiet (ht : t < s.nextTask)
    (hold : forall task, s.tasks t = some task -> task.phase.source = none)
    (hnew : forall task, new = some task -> task.phase.source = none) :
    Sound (s.setTask t new) := by
  refine h.setTask (fun _ => False) ht rfl rfl (Nat.le_refl _) rfl ?_ ?_
    (fun _ _ _ _ _ _ => not_false) (fun _ _ => rfl) (fun _ => False.elim)
  · intro task wr htask hsource
    exact absurd ((hold task htask).symm.trans hsource) nofun
  · intro task wr htask hsource
    exact absurd ((hnew task htask).symm.trans hsource) nofun

theorem setPhase (htask : s.tasks t = some task)
    (hold : task.phase.source = none) (hphase : phase.source = none) :
    Sound (s.setPhase t task phase) := by
  apply h.setQuiet (h.started t task htask)
  · intro found hfound
    rw [htask] at hfound
    cases hfound
    exact hold
  · intro found hfound
    cases hfound
    exact hphase

theorem remove (htask : s.tasks t = some task)
    (hold : task.phase.source = none) :
    Sound (s.setTask t none) := by
  apply h.setQuiet (h.started t task htask)
  · intro found hfound
    rw [htask] at hfound
    cases hfound
    exact hold
  · intro found hfound
    cases hfound

theorem begin (hphase : task.phase.source = none) :
    Sound { s.setTask s.nextTask (some task) with
      nextTask := s.nextTask + 1 } := by
  have hnext : Sound { s with nextTask := s.nextTask + 1 } := by
    refine { h with started := ?_ }
    intro t found hfound
    exact Nat.lt_succ_of_lt (h.started t found hfound)
  apply hnext.setQuiet (Nat.lt_succ_self s.nextTask)
  · intro found hfound
    exact absurd (h.started s.nextTask found hfound) (Nat.lt_irrefl _)
  · intro found hfound
    cases hfound
    exact hphase

/-!
### Futures that take a buffer and post it
-/

section

variable (htask : s.tasks t = some task)

include htask

theorem register (hold : task.phase.source = none) :
    Sound (s.register t task) := by
  rcases h.fresh s.nextWr (Nat.le_refl _) with
    ⟨hout, horphan, hdropped, hsettled⟩
  have hfree : forall t' found, s.tasks t' = some found ->
      found.phase.source ≠ some s.nextWr := by
    intro t' found hfound hsource
    exact Nat.lt_irrefl _ (h.holder t' found s.nextWr hfound hsource).left
  -- Only the future that registered it holds it.
  have hholder : forall t' found,
      (s.register t task).tasks t' = some found ->
      found.phase.source = some s.nextWr ->
        found = { task with phase := .queuePair s.nextWr } := by
    intro t' found hfound hsource
    rcases update_cases hfound with ⟨_, heq⟩ | ⟨_, heq⟩
    · exact (Option.some.inj heq).symm
    · exact absurd hsource (hfree t' found heq)
  refine h.setTask (· = s.nextWr) (h.started t task htask) rfl rfl
    (Nat.le_succ _) rfl ?_ ?_ ?_ ?_ ?_
  · intro found wr hfound hsource
    cases htask.symm.trans hfound
    exact absurd (hold.symm.trans hsource) nofun
  · rintro _ _ ⟨⟩ ⟨⟩
    rfl
  · rintro t' found wr _ hfound hsource rfl
    exact hfree t' found hfound hsource
  · intro wr hne
    simp [State.entry, State.register, State.setPhase, State.setTask, hne]
  · rintro _ rfl
    constructor
    · exact fun hle => absurd hle (Nat.not_succ_le_self _)
    · intro t' found hfound hsource
      rw [hholder t' found hfound hsource]
      exact ⟨Nat.lt_succ_self _, update_self _ _ _, hdropped, horphan⟩
    · intro _ _ _ _
      exact ⟨hout, update_self _ _ _, hsettled⟩
    · intro t' found hfound hphase
      rw [hholder t' found hfound (source_completion hphase)] at hphase
      cases hphase
    · exact fun _ => hout
    · exact fun houtstanding => absurd (hout.symm.trans houtstanding) nofun
    · exact fun _ => hdropped

theorem posted (hphase : task.phase = .queuePair wr) :
    Sound (s.posted t task wr) := by
  have hsource := source_queuePair hphase
  have hheld := h.holder t task wr htask hsource
  rcases h.unposted t task wr htask hphase with
    ⟨_, hwaiter, hsending, hresolved⟩
  have hholder : forall t' found, (s.posted t task wr).tasks t' = some found ->
      found.phase.source = some wr ->
        found = { task with phase := .completion wr } := by
    intro t' found hfound hfoundSource
    rcases update_cases hfound with ⟨_, heq⟩ | ⟨hne, heq⟩
    · exact (Option.some.inj heq).symm
    · exact absurd (h.unique t' t found task wr heq htask hfoundSource hsource)
        hne
  refine h.setTask (· = wr) (h.started t task htask) rfl rfl (Nat.le_refl _)
    rfl (source_eq htask hsource) ?_ (h.ne_of_source htask hsource) ?_ ?_
  · rintro _ _ ⟨⟩ ⟨⟩
    rfl
  · intro other hne
    simp [State.entry, State.posted, State.setPhase, State.setTask, hne]
  · intro other hother
    rw [hother]
    constructor
    · exact fun hle => absurd hheld.left (Nat.not_lt.mpr hle)
    · intro t' found hfound hfoundSource
      rw [hholder t' found hfound hfoundSource]
      exact hheld
    · intro t' found hfound hqueue
      rw [hholder t' found hfound (source_queuePair hqueue)] at hqueue
      cases hqueue
    · exact fun _ _ _ _ _ => hwaiter
    · rintro (hsent | hdone)
      · exact absurd (hsending.symm.trans hsent) nofun
      · exact absurd (hresolved.symm.trans hdone) nofun
    · exact fun _ _ => .inl ⟨t, _, update_self _ _ _, rfl⟩
    · exact h.kept wr

/-!
### Buffers that are let go
-/

theorem letGo {dropped orphans : Nat -> Bool}
    (hsource : task.phase.source = some wr)
    (hnew : forall found, new = some found -> found.phase.source = none)
    (hdropped : forall other, other ≠ wr -> dropped other = s.dropped other)
    (horphans : forall other, other ≠ wr -> orphans other = s.orphans other)
    (hkept : orphans wr = true -> dropped wr = false)
    (howned : s.outstanding wr = true -> s.qpAlive (s.railOf wr) = true ->
      orphans wr = true) :
    Sound { s.setTask t new with
      dropped := dropped
      orphans := orphans } := by
  have hlt := (h.holder t task wr htask hsource).left
  have hnobody : forall t' found, update s.tasks t new t' = some found ->
      found.phase.source ≠ some wr :=
    fun _ _ => h.free_of_setTask htask hsource hnew
  refine h.setTask (· = wr) (h.started t task htask) rfl rfl (Nat.le_refl _)
    rfl (source_eq htask hsource) ?_ (h.ne_of_source htask hsource) ?_ ?_
  · intro found other hfound hfoundSource
    exact absurd ((hnew found hfound).symm.trans hfoundSource) nofun
  · intro other hne
    simp [State.entry, State.setTask, hdropped other hne, horphans other hne]
  · intro other hother
    rw [hother]
    constructor
    · exact fun hle => absurd hlt (Nat.not_lt.mpr hle)
    · exact fun t' found hfound hheld => absurd hheld (hnobody t' found hfound)
    · intro t' found hfound hqueue
      exact absurd (source_queuePair hqueue) (hnobody t' found hfound)
    · intro t' found hfound hcompletion
      exact absurd (source_completion hcompletion) (hnobody t' found hfound)
    · exact h.reaped wr
    · exact fun houtstanding halive => .inr (howned houtstanding halive)
    · exact hkept

theorem dropSource (hsource : task.phase.source = some wr)
    (hnew : forall found, new = some found -> found.phase.source = none)
    (hreaped : s.outstanding wr = false) :
    Sound ((s.dropSource wr).setTask t new) := by
  have hheld := h.holder t task wr htask hsource
  apply h.letGo htask hsource hnew
  · intro other hne
    exact update_of_ne hne _ _
  · intro other _
    rfl
  · intro horphan
    exact absurd (hheld.right.right.right.symm.trans horphan) (by decide)
  · intro houtstanding
    rw [hreaped] at houtstanding
    cases houtstanding

theorem orphan (hsource : task.phase.source = some wr)
    (hnew : forall found, new = some found -> found.phase.source = none) :
    Sound ((s.orphan wr).setTask t new) := by
  have hheld := h.holder t task wr htask hsource
  apply h.letGo htask hsource hnew
  · intro other _
    rfl
  · intro other hne
    exact update_of_ne hne _ _
  · intro _
    exact hheld.right.right.left
  · intro _ _
    exact update_self _ _ _

end

theorem cancel
    (hfree : forall t task, s.tasks t = some task ->
      task.phase.source ≠ some wr) : Sound (s.cancel wr) := by
  refine h.setEntry wr rfl rfl rfl rfl ?_ ?_
  · intro other hne
    simp [State.entry, State.cancel, hne]
  · refine { h.entry wr with unposted := ?_, watched := ?_ }
    · intro t task htask hphase
      exact absurd (source_queuePair hphase) (hfree t task htask)
    · intro t task htask hphase
      exact absurd (source_completion hphase) (hfree t task htask)

theorem dispatchOne (houtstanding : s.outstanding wr = true) :
    Sound (s.dispatchOne wr) := by
  refine h.setEntry wr rfl rfl rfl rfl ?_ ?_
  · intro other hne
    simp [State.entry, State.dispatchOne, hne]
  · constructor
    · intro hle
      rw [(h.fresh wr hle).left] at houtstanding
      cases houtstanding
    · intro t task htask hsource
      rcases h.holder t task wr htask hsource with
        ⟨hlt, hrail, hdropped, horphan⟩
      refine ⟨hlt, hrail, ?_, update_self _ _ _⟩
      simp [State.entry, State.dispatchOne, hdropped, horphan]
    · intro t task htask hphase
      rw [(h.unposted t task wr htask hphase).left] at houtstanding
      cases houtstanding
    · intro _ _ _ _ hout
      simp [State.entry, State.dispatchOne] at hout
    · exact fun _ => update_self _ _ _
    · intro hout
      simp [State.entry, State.dispatchOne] at hout
    · intro horphan
      simp [State.entry, State.dispatchOne] at horphan

theorem send (hsending : s.sending wr = true) :
    Sound { s with
      sending := update s.sending wr false
      resolved := update s.resolved wr true } := by
  have hreaped := h.reaped wr (.inl hsending)
  refine h.setEntry wr rfl rfl rfl rfl ?_ ?_
  · intro other hne
    simp [State.entry, hne]
  · refine { h.entry wr with fresh := ?_, unposted := ?_, reaped := ?_ }
    · intro hle
      rw [(h.fresh wr hle).right.right.right.left] at hsending
      cases hsending
    · intro t task htask hphase
      rw [(h.unposted t task wr htask hphase).right.right.left] at hsending
      cases hsending
    · exact fun _ => hreaped

/-!
### Owners and rails that go away
-/

theorem ownedBy_iff (owner wr : Nat) :
    s.ownedBy owner wr = true <->
      exists t task, s.tasks t = some task ∧ task.owner = owner ∧
        task.phase.source = some wr := by
  unfold State.ownedBy
  rw [List.any_eq_true]
  constructor
  · rintro ⟨t, _, hany⟩
    rcases (Option.any_eq_true _ _).mp hany with ⟨task, htask, hboth⟩
    rcases Bool.and_eq_true_iff.mp hboth with ⟨howner, hsource⟩
    exact ⟨t, task, htask, beq_iff_eq.mp howner, beq_iff_eq.mp hsource⟩
  · rintro ⟨t, task, htask, howner, hsource⟩
    refine ⟨t, List.mem_range.mpr (h.started t task htask), ?_⟩
    apply (Option.any_eq_true _ _).mpr
    refine ⟨task, htask, ?_⟩
    rw [howner, hsource, beq_self_eq_true, beq_self_eq_true]
    rfl

theorem dropOwned {owner : Nat} (hguard : SparesPosted s (.drop owner)) :
    Sound (s.dropOwned owner) := by
  have hstays : forall t task, (s.dropOwned owner).tasks t = some task ->
      s.tasks t = some task ∧ task.owner ≠ owner := by
    intro t task htask
    rcases Option.filter_eq_some_iff.mp htask with ⟨hold, howner⟩
    exact ⟨hold, bne_iff_ne.mp howner⟩
  have hdropped : forall wr, s.dropped wr = false ->
      (forall t task, s.tasks t = some task -> task.phase.source = some wr ->
        task.owner ≠ owner) -> (s.dropOwned owner).dropped wr = false := by
    intro wr hdrop hother
    apply Bool.or_eq_false_iff.mpr
    refine ⟨hdrop, ?_⟩
    rw [Bool.eq_false_iff, Ne, h.ownedBy_iff]
    rintro ⟨t, task, htask, howner, hsource⟩
    exact hother t task htask hsource howner
  constructor
  · intro wr hwr
    rcases h.fresh wr hwr with ⟨hout, horphan, hdrop, hsettled⟩
    refine ⟨hout, horphan, ?_, hsettled⟩
    apply hdropped wr hdrop
    intro t task htask hsource
    exact absurd (h.holder t task wr htask hsource).left (Nat.not_lt.mpr hwr)
  · intro t task htask
    exact h.started t task (hstays t task htask).left
  · intro t task wr htask hsource
    rcases hstays t task htask with ⟨hold, howner⟩
    rcases h.holder t task wr hold hsource with ⟨hlt, hrail, hdrop, horphan⟩
    refine ⟨hlt, hrail, ?_, horphan⟩
    apply hdropped wr hdrop
    intro t' task' htask' hsource' howner'
    have ht := h.unique t t' task task' wr hold htask' hsource hsource'
    rw [← ht, hold] at htask'
    cases htask'
    exact howner howner'
  · intro t t' task task' wr htask htask'
    exact h.unique t t' task task' wr (hstays t task htask).left
      (hstays t' task' htask').left
  · intro t task wr htask
    exact h.unposted t task wr (hstays t task htask).left
  · intro t task wr htask
    exact h.watched t task wr (hstays t task htask).left
  · exact h.reaped
  · intro wr houtstanding halive
    rcases h.owned wr houtstanding halive with
      ⟨t, task, htask, hphase⟩ | horphan
    · refine .inl ⟨t, task, ?_, hphase⟩
      apply Option.filter_eq_some_iff.mpr
      refine ⟨htask, bne_iff_ne.mpr ?_⟩
      intro howner
      have hdead := hguard t task wr htask howner hphase houtstanding
      have hheld := h.holder t task wr htask (source_completion hphase)
      rw [← hheld.right.left] at hdead
      exact absurd (hdead.symm.trans halive) (by decide)
    · exact .inr horphan
  · intro wr horphan
    apply hdropped wr (h.kept wr horphan)
    intro t task htask hsource
    have hnone := (h.holder t task wr htask hsource).right.right.right
    exact absurd (hnone.symm.trans horphan) (by decide)

theorem dropPump {rail : Nat} (hdead : s.qpAlive rail = false) :
    Sound { s with
      orphans := fun wr => s.orphans wr && s.railOf wr != rail
      dropped := fun wr =>
        s.dropped wr || (s.orphans wr && s.railOf wr == rail) } := by
  refine { h with fresh := ?_, holder := ?_, owned := ?_, kept := ?_ }
  · intro wr hwr
    rcases h.fresh wr hwr with ⟨hout, horphan, hdrop, hsettled⟩
    dsimp only
    rw [horphan, hdrop]
    exact ⟨hout, rfl, rfl, hsettled⟩
  · intro t task wr htask hsource
    rcases h.holder t task wr htask hsource with ⟨hlt, hrail, hdrop, horphan⟩
    dsimp only
    rw [horphan, hdrop]
    exact ⟨hlt, hrail, rfl, rfl⟩
  · intro wr houtstanding halive
    rcases h.owned wr houtstanding halive with hwaiting | horphan
    · exact .inl hwaiting
    · refine .inr (Bool.and_eq_true_iff.mpr ⟨horphan, bne_iff_ne.mpr ?_⟩)
      intro hrail
      rw [hrail, hdead] at halive
      cases halive
  · intro wr horphan
    rcases Bool.and_eq_true_iff.mp horphan with ⟨hold, hrail⟩
    dsimp only
    rw [h.kept wr hold, hold, beq_eq_false_iff_ne.mpr (bne_iff_ne.mp hrail)]
    rfl

theorem destroyQueuePairs (rail : Nat) :
    Sound { s with qpAlive := update s.qpAlive rail false } := by
  refine { h with owned := ?_ }
  intro wr houtstanding halive
  apply h.owned wr houtstanding
  exact (of_update_false halive).right

end

end Sound

/-!
## Steps and runs
-/

theorem after_eq (s : State) (t : Nat) (task : Task) (failed : Bool) :
    exists new, s.after t task failed = s.setTask t new ∧
      forall found, new = some found -> found.phase.source = none := by
  unfold State.after
  split
  · refine ⟨some { task with phase := .evict }, rfl, ?_⟩
    intro found hfound
    cases hfound
    rfl
  · refine ⟨none, rfl, ?_⟩
    intro found hfound
    cases hfound

theorem sound_takeSource {s : State} (h : Sound s)
    (htask : s.tasks t = some task) (hold : task.phase.source = none) :
    Sound (takeSource s t task) := by
  unfold takeSource
  split
  · exact h.register htask hold
  · exact h.setPhase htask hold rfl

theorem sound_proceed (h : Sound s) (hstep : proceed s t = some s')
    : Sound s' := by
  unfold proceed at hstep
  split at hstep
  · cases hstep
  rename_i task htask
  split at hstep
  · rename_i hphase _
    cases hstep
    exact h.setPhase htask (by rw [hphase]; rfl) rfl
  · rename_i hphase _
    cases hstep
    exact sound_takeSource h htask (by rw [hphase]; rfl)
  · rename_i hphase _
    cases hstep
    exact h.setPhase htask (by rw [hphase]; rfl) rfl
  · rename_i hphase _
    cases hstep
    exact sound_takeSource h htask (by rw [hphase]; rfl)
  · rename_i hphase
    cases hstep
    exact h.register htask (by rw [hphase]; rfl)
  · rename_i hphase
    cases hstep
    exact h.remove htask (by rw [hphase]; rfl)
  · cases hstep

theorem sound_refuse (h : Sound s) (hstep : refuse s t = some s')
    : Sound s' := by
  unfold refuse at hstep
  split at hstep
  · cases hstep
  rename_i task htask
  split at hstep
  · rename_i hphase
    cases hstep
    exact h.remove htask (by rw [hphase]; rfl)
  · cases hstep

theorem sound_postWrite {submitted : Bool} (h : Sound s)
    (hstep : postWrite s t submitted = some s') : Sound s' := by
  unfold postWrite at hstep
  split at hstep
  · cases hstep
  rename_i task htask
  split at hstep
  · rename_i wr hphase
    split at hstep
    · split at hstep
      · cases hstep
        exact h.posted htask hphase
      · cases hstep
    · cases hstep
      have hsource := source_queuePair hphase
      have hnew : forall found : Task, none = some found ->
          found.phase.source = none := by
        intro found hfound
        cases hfound
      -- The registration goes last, when no future needs it.
      show Sound (((s.dropSource wr).setTask t none).cancel wr)
      have hdropped := h.dropSource htask hsource hnew
        (h.unposted t task wr htask hphase).left
      apply hdropped.cancel
      intro t' found hfound
      exact h.free_of_setTask htask hsource hnew hfound
  · cases hstep

theorem sound_awaitWriteCompletion {enabled : Nat -> Bool} {act : Nat -> State}
    {failed : Bool} (hact : forall task wr new, s.tasks t = some task ->
      task.phase = .completion wr -> enabled wr = true ->
      (forall found, new = some found -> found.phase.source = none) ->
        Sound ((act wr).setTask t new))
    (hstep : awaitWriteCompletion s t enabled act failed = some s') :
    Sound s' := by
  unfold awaitWriteCompletion at hstep
  split at hstep
  · cases hstep
  rename_i task htask
  split at hstep
  · rename_i wr hphase
    split at hstep
    · rename_i henabled
      cases hstep
      rcases after_eq (act wr) t task failed with ⟨new, heq, hnew⟩
      rw [heq]
      exact hact task wr new htask hphase henabled hnew
    · cases hstep
  · cases hstep

section

variable (h : Sound s)

include h

theorem sound_resume {ok : Bool} (hstep : step s (.resume t ok) = some s') :
    Sound s' := by
  apply sound_awaitWriteCompletion _ hstep
  intro task wr new htask hphase hresolved hnew
  exact h.dropSource htask (source_completion hphase) hnew
    (h.reaped wr (.inr hresolved))

theorem sound_expire (hstep : step s (.expire t) = some s') : Sound s' := by
  apply sound_awaitWriteCompletion _ hstep
  intro task wr new htask hphase _ hnew
  have hsource := source_completion hphase
  unfold State.orphanIfUnreaped
  split
  · show Sound (((s.orphan wr).setTask t new).cancel wr)
    apply (h.orphan htask hsource hnew).cancel
    intro t' found hfound
    exact h.free_of_setTask htask hsource hnew hfound
  · rename_i hwaiter
    apply h.dropSource htask hsource hnew
    apply Bool.eq_false_iff.mpr
    intro houtstanding
    exact hwaiter (h.watched t task wr htask hphase houtstanding)

theorem sound_lose (hstep : step s (.lose t) = some s') : Sound s' := by
  apply sound_awaitWriteCompletion _ hstep
  intro task wr new htask hphase _ hnew
  exact h.orphan htask (source_completion hphase) hnew

theorem sound_reap (hstep : reap s wr = some s') : Sound s' := by
  unfold reap at hstep
  split at hstep
  · rename_i hboth
    cases hstep
    exact h.dispatchOne (Bool.and_eq_true_iff.mp hboth).left
  · cases hstep

theorem sound_send (hstep : send s wr = some s') : Sound s' := by
  unfold send at hstep
  split at hstep
  · rename_i hsending
    cases hstep
    exact h.send hsending
  · cases hstep

theorem sound_dropPump {rail : Nat} (hstep : dropPump s rail = some s') :
    Sound s' := by
  unfold dropPump at hstep
  split at hstep
  · cases hstep
  rename_i hdead
  cases hstep
  exact h.dropPump (Bool.eq_false_iff.mpr hdead)

theorem sound_step {e : Event} (hguard : SparesPosted s e)
    (hstep : step s e = some s') : Sound s' := by
  cases e with
  | start owner rail path inPlace =>
    cases hstep
    apply h.begin
    cases path with
    | serve => rfl
    | client => rfl
  | proceed t => exact sound_proceed h hstep
  | refuse t => exact sound_refuse h hstep
  | post t submitted => exact sound_postWrite h hstep
  | reap wr => exact sound_reap h hstep
  | send wr => exact sound_send h hstep
  | resume t ok => exact sound_resume h hstep
  | expire t => exact sound_expire h hstep
  | lose t => exact sound_lose h hstep
  | drop owner =>
    cases hstep
    exact h.dropOwned hguard
  | exitPump rail =>
    cases hstep
    exact { h with }
  | destroyQueuePairs rail =>
    cases hstep
    exact h.destroyQueuePairs rail
  | dropPump rail => exact sound_dropPump h hstep

theorem sparesPosted_of_sourcesLive {e : Event} (hstep : step s e = some s')
    (hlive : SourcesLive s') :
    SparesPosted s e := by
  cases e with
  | drop owner =>
    cases hstep
    intro t task wr htask howner hphase houtstanding
    have hsource := source_completion hphase
    have hrail := (h.holder t task wr htask hsource).right.left
    apply Bool.eq_false_iff.mpr
    intro halive
    rw [← hrail] at halive
    have hkept := hlive wr houtstanding halive
    have howned := (h.ownedBy_iff owner wr).mpr
      ⟨t, task, htask, howner, hsource⟩
    rcases Bool.or_eq_false_iff.mp hkept with ⟨_, hnot⟩
    exact absurd (hnot.symm.trans howned) (by decide)
  | _ => trivial

end

/-- The source buffers outlive their work requests in every state of a run
exactly where no future of the run is dropped while it waits for a work request
that is posted and not reaped. -/
theorem sources_outlive_posts_iff {events : List Event} {final : State}
    (hrun : run step State.start events = some final) :
    (forall front back s, events = front ++ back ->
        run step State.start front = some s -> SourcesLive s) <->
      Along step SparesPosted State.start events :=
  along_iff_forall_reached (fun _ _ _ hs hg hstep => sound_step hs hg hstep)
    (fun _ hs => hs.sourcesLive)
    (fun _ _ _ hs hstep hlive => sparesPosted_of_sourcesLive hs hstep hlive)
    sound_start hrun

/-- A peer's serve that runs into the deadline and is reaped after it, and a
delivery that is given up once its window was reaped. -/
def lateAndReaped : List Event :=
  [.start 0 0 .serve false, .proceed 0, .proceed 0, .proceed 0, .post 0 true,
    .expire 0, .reap 1, .start 7 0 .client true, .proceed 1, .proceed 1,
    .post 1 true, .reap 2, .drop 7]

theorem sources_outlive_posts_iff_late : exists final,
    run step State.start lateAndReaped = some final ∧
      final.dropped 1 = true ∧ final.dropped 2 = true ∧
      forall front back s, lateAndReaped = front ++ back ->
        run step State.start front = some s -> SourcesLive s := by
  refine ⟨_, rfl, rfl, rfl, ?_⟩
  apply (sources_outlive_posts_iff rfl).mpr
  iterate 12 apply along_cons_of_step trivial rfl
  refine ⟨?_, fun _ _ => trivial⟩
  intro t task wr _ _ _ houtstanding
  have hreaped : forall wr, update (update (update
      (update (fun _ => false) 1 true) 1 false) 2 true) 2 false wr =
        false := by
    intro wr
    simp [update_apply]
  exact absurd ((hreaped wr).symm.trans houtstanding) (by decide)

/-- A delivery of two windows writes the first from its frame in the cache.  The
second is refused, the delivery gives up, and the frame is let go while the
device reads it. -/
theorem delivery_drops_posted_source : exists final,
    run step State.start
        [.start 7 0 .client true, .start 7 0 .client true, .proceed 0,
          .proceed 0, .post 0 true, .proceed 1, .refuse 1, .drop 7] =
        some final ∧
      final.outstanding 1 = true ∧ final.qpAlive (final.railOf 1) = true ∧
      final.dropped 1 = true ∧ ¬ SourcesLive final := by
  refine ⟨_, rfl, rfl, rfl, rfl, ?_⟩
  intro hlive
  exact absurd (hlive 1 rfl rfl) (by decide)

end WriteCompletion

end Transport
end Pacer
