import Mathlib.Data.Finset.Card
import Pacer.Daemon.FillRegistry
import Pacer.Foundation.Transition

/-!
# The fill fence

Any number of fills of one chunk key race with any number of invalidations of
it, one lock section at a time.  A leader claims the key before it reads the
backend; every other fill takes a ticket before it reads and claims the key
only to insert.  An invalidation commits at the backend, poisons the claim,
poisons the tickets, and forgets the key.

What the backend holds is known by the number of commits so far, and bytes by
that number when they were read.  The main result: once every fill has let go
and every invalidation is through, the tier holds nothing that was read before
the last commit.
-/

namespace Pacer
namespace Daemon

open Foundation Function
open Foundation.Transition

namespace Fence

inductive Invalidation where
  | committed
  | claimPoisoned
  | readsPoisoned
  | forgotten
deriving DecidableEq, Repr

inductive Phase where
  | leading
  | led (stamp : Nat)
  | reading (ticket : Nat)
  | fetched (ticket stamp : Nat)
  | inserting (fill : Fill Nat)
  | finished

structure State (key : Type) where
  commits : Nat
  tier : Option Nat
  registry : FillRegistry key Nat Nat
  fills : Nat -> Option Phase
  invalidations : Nat -> Option Invalidation

inductive Event where
  | lead (f : Nat)
  | beginRead (f : Nat)
  | read (f : Nat)
  | publish (f : Nat) (admits : Bool)
  | claim (f : Nat) (wanted : Bool)
  | advance (f : Nat) (wrote : Bool)
  | abandon (f : Nat)
  | commit (i : Nat)
  | poisonClaim (i : Nat)
  | poisonReads (i : Nat)
  | forget (i : Nat)
  | evict
deriving DecidableEq, Repr

variable {key : Type}

namespace State

def start : State key :=
  { commits := 0,
    tier := none,
    registry := FillRegistry.new,
    fills := fun _ => none,
    invalidations := fun _ => none }

def setRegistry (s : State key) (registry : FillRegistry key Nat Nat) :
    State key :=
  { s with registry := registry }

def setFill (s : State key) (f : Nat) (phase : Phase) : State key :=
  { s with fills := update s.fills f (some phase) }

def setInvalidation (s : State key) (i : Nat) (stage : Invalidation) :
    State key :=
  { s with invalidations := update s.invalidations i (some stage) }

end State

/-!
## Fills
-/

section Steps

variable [DecidableEq key]

def lead (k : key) (s : State key) (f : Nat) : Option (State key) :=
  match s.fills f with
  | some _ => none
  | none =>
    match s.registry.claimFill k f with
    | (.lead, registry) => some ((s.setRegistry registry).setFill f .leading)
    | _ => none

def beginRead (k : key) (s : State key) (f : Nat) : Option (State key) :=
  match s.fills f with
  | some _ => none
  | none =>
    match s.registry.beginRead k with
    | (ticket, registry) =>
      some ((s.setRegistry registry).setFill f (.reading ticket))

def read (s : State key) (f : Nat) : Option (State key) :=
  match s.fills f with
  | some .leading => some (s.setFill f (.led s.commits))
  | some (.reading ticket) => some (s.setFill f (.fetched ticket s.commits))
  | _ => none

def publish (k : key) (s : State key) (f : Nat) (admits : Bool) :
    Option (State key) :=
  match s.fills f with
  | some (.led stamp) =>
    match s.registry.publish k stamp with
    | (_, registry) =>
      some ((s.setRegistry registry).setFill f (.inserting
        { read := none,
          cached := stamp,
          stage := if admits then .checkClaim else .release }))
  | _ => none

/-- A read that wants to insert claims the key; refused, or not wanting to, it
drops its ticket. -/
def claim (k : key) (s : State key) (f : Nat) (wanted : Bool) :
    Option (State key) :=
  match s.fills f with
  | some (.fetched ticket stamp) =>
    let fill (stage : InsertStage) : Fill Nat :=
      { read := some ticket, cached := stamp, stage := stage }
    match (if wanted then s.registry.claimExclusive k else none) with
    | some registry =>
      some ((s.setRegistry registry).setFill f
        (.inserting (fill .checkClaim)))
    | none => some (s.setFill f (.inserting (fill .dropTicket)))
  | _ => none

def advance (tier : DiskTier) (k : key) (s : State key) (f : Nat)
    (wrote : Bool) : Option (State key) :=
  match s.fills f with
  | some (.inserting fill) =>
    match fill.advance tier s.registry k s.tier wrote with
    | (registry, held, some next) =>
      some ({ s with registry := registry, tier := held }.setFill f
        (.inserting next))
    | (registry, held, none) =>
      some ({ s with registry := registry, tier := held }.setFill f
        .finished)
  | _ => none

/-- The backend read failed, the stream broke off, or the future was dropped:
the guard lets go of the claim, and then of the ticket. -/
def abandon (k : key) (s : State key) (f : Nat) : Option (State key) :=
  match s.fills f with
  | some .leading =>
    some ((s.setRegistry (s.registry.release k)).setFill f .finished)
  | some (.reading _) =>
    some ((s.setRegistry (s.registry.dropTicket k)).setFill f .finished)
  | some (.inserting fill) =>
    if fill.stage = .checkClaim ∨ fill.stage = .writing then
      some (s.setFill f (.inserting { fill with stage := .release }))
    else none
  | _ => none

/-!
## Invalidations
-/

def step (tier : DiskTier) (k : key) (s : State key) :
    Event -> Option (State key)
  | .lead f => lead k s f
  | .beginRead f => beginRead k s f
  | .read f => read s f
  | .publish f admits => publish k s f admits
  | .claim f wanted => claim k s f wanted
  | .advance f wrote => advance tier k s f wrote
  | .abandon f => abandon k s f
  | .commit i =>
    match s.invalidations i with
    | none =>
      some ({ s with commits := s.commits + 1 }.setInvalidation i
        .committed)
    | _ => none
  | .poisonClaim i =>
    match s.invalidations i with
    | some .committed =>
      some ((s.setRegistry (s.registry.poisonClaim k)).setInvalidation i
        .claimPoisoned)
    | _ => none
  | .poisonReads i =>
    match s.invalidations i with
    | some .claimPoisoned =>
      some ((s.setRegistry (s.registry.poisonReads k)).setInvalidation i
        .readsPoisoned)
    | _ => none
  | .forget i =>
    match s.invalidations i with
    | some .readsPoisoned =>
      some ({ s with tier := none }.setInvalidation i .forgotten)
    | _ => none
  | .evict => some { s with tier := none }

end Steps

/-- Every fill has let go of its claim and its ticket, and every invalidation
is through. -/
structure Quiet (s : State key) : Prop where
  fills : forall f phase, s.fills f = some phase -> phase = .finished
  invalidations : forall i stage, s.invalidations i = some stage ->
    stage = .forgotten

/-!
## Claims

A claim belongs to one fill, from when it is taken to its release.
-/

namespace Phase

def Holds : Phase -> Prop
  | .leading => True
  | .led _ => True
  | .inserting fill => fill.stage ≠ .dropTicket
  | _ => False

def ticket : Phase -> Option Nat
  | .reading ticket => some ticket
  | .fetched ticket _ => some ticket
  | .inserting fill => fill.read
  | _ => none

end Phase

structure Claimed (k : key) (s : State key) : Prop where
  claimed : forall f phase, s.fills f = some phase -> phase.Holds ->
    s.registry.claims k ≠ none
  alone : forall f phase other phase', s.fills f = some phase ->
    s.fills other = some phase' -> phase.Holds -> phase'.Holds -> f = other

variable {other : Nat}

section Updates

variable {k : key} {s : State key} {f : Nat} {phase : Phase}
  {registry : FillRegistry key Nat Nat} {tier : Option Nat}

theorem fills_setFill {phase' : Phase}
    (h : (s.setFill f phase).fills other = some phase') :
    (other = f ∧ phase' = phase) ∨
      (other ≠ f ∧ s.fills other = some phase') := by
  change update s.fills f (some phase) other = some phase' at h
  rw [update_apply] at h
  split at h
  · rename_i heq
    cases h
    exact Or.inl ⟨heq, rfl⟩
  · rename_i hne
    exact Or.inr ⟨hne, h⟩

namespace Claimed

variable (h : Claimed k s)

include h

theorem free (hfree : s.registry.claims k = none) {phase' : Phase}
    (hother : s.fills other = some phase') :
    ¬ phase'.Holds :=
  fun hholds => h.claimed other phase' hother hholds hfree

theorem take (hfree : s.registry.claims k = none)
    (hclaims : registry.claims k ≠ none) :
    Claimed k ({ s with registry := registry, tier := tier }.setFill f
      phase) := by
  constructor
  · intro other phase' hother _
    exact hclaims
  · intro first phase' second phase'' hfirst hsecond hholds hholds'
    rcases fills_setFill hfirst with ⟨rfl, _⟩ | ⟨_, hfirst⟩
    · rcases fills_setFill hsecond with ⟨rfl, _⟩ | ⟨_, hsecond⟩
      · rfl
      · exact absurd hholds' (h.free hfree hsecond)
    · exact absurd hholds (h.free hfree hfirst)

theorem keep (hclaims : registry.claims k = none -> s.registry.claims k = none)
    (hholds : phase.Holds -> exists old, s.fills f = some old ∧ old.Holds) :
    Claimed k ({ s with registry := registry, tier := tier }.setFill f
      phase) := by
  have hbefore : forall {other : Nat} {phase' : Phase},
      (s.setFill f phase).fills other = some phase' -> phase'.Holds ->
      exists old, s.fills other = some old ∧ old.Holds := by
    intro other phase' hother hother'
    rcases fills_setFill hother with ⟨rfl, rfl⟩ | ⟨_, hold⟩
    · exact hholds hother'
    · exact ⟨phase', hold, hother'⟩
  constructor
  · intro other phase' hother hother' hnone
    rcases hbefore hother hother' with ⟨old, hold, holds⟩
    exact h.claimed other old hold holds (hclaims hnone)
  · intro first phase' second phase'' hfirst hsecond hfirst' hsecond'
    rcases hbefore hfirst hfirst' with ⟨old, hold, holds⟩
    rcases hbefore hsecond hsecond' with ⟨old', hold', holds'⟩
    exact h.alone first old second old' hold hold' holds holds'

theorem letGo {old : Phase} (hold : s.fills f = some old) (holds : old.Holds)
    (hphase : ¬ phase.Holds) :
    Claimed k ({ s with registry := registry, tier := tier }.setFill f
      phase) := by
  have hnobody : forall {other : Nat} {phase' : Phase},
      (s.setFill f phase).fills other = some phase' -> ¬ phase'.Holds := by
    intro other phase' hother hholds
    rcases fills_setFill hother with ⟨_, rfl⟩ | ⟨hne, hother⟩
    · exact hphase hholds
    · exact hne (h.alone other phase' f old hother hold hholds holds)
  constructor
  · intro other phase' hother hholds
    exact absurd hholds (hnobody hother)
  · intro first phase' second phase'' hfirst _ hholds _
    exact absurd hholds (hnobody hfirst)

end Claimed

/-!
## Tickets

The key's entry counts the fills with a ticket, and lives as long as there is
one.  While it lives its epoch only grows.
-/

def HasTicket (s : State key) (f : Nat) : Prop :=
  exists phase ticket, s.fills f = some phase ∧ phase.ticket = some ticket

structure Ticketed (k : key) (s : State key) : Prop where
  counted : exists live : Finset Nat,
    (forall f, f ∈ live <-> HasTicket s f) ∧
      (s.registry.reads k = none -> live = ∅) ∧
      forall entry, s.registry.reads k = some entry ->
        entry.readers = live.card
  epochs : forall f phase ticket entry, s.fills f = some phase ->
    phase.ticket = some ticket -> s.registry.reads k = some entry ->
    ticket ≤ entry.epoch

theorem hasTicket_setFill_of_ne (hne : other ≠ f) :
    HasTicket (s.setFill f phase) other <-> HasTicket s other := by
  unfold HasTicket
  change (exists phase' ticket,
    update s.fills f (some phase) other = some phase' ∧ _) <-> _
  rw [update_of_ne hne]

theorem hasTicket_setFill_self :
    HasTicket (s.setFill f phase) f <->
      exists ticket, phase.ticket = some ticket := by
  unfold HasTicket
  change (exists phase' ticket,
    update s.fills f (some phase) f = some phase' ∧ _) <-> _
  rw [update_self]
  constructor
  · intro hticket
    rcases hticket with ⟨phase', ticket, hphase, hticket⟩
    cases hphase
    exact ⟨ticket, hticket⟩
  · intro hticket
    rcases hticket with ⟨ticket, hticket⟩
    exact ⟨phase, ticket, rfl, hticket⟩

namespace Ticketed

variable (h : Ticketed k s)

include h

theorem entry_of_hasTicket (hticket : HasTicket s f) :
    exists entry, s.registry.reads k = some entry := by
  rcases h.counted with ⟨live, hlive, hnone, _⟩
  cases hreads : s.registry.reads k with
  | some entry => exact ⟨entry, rfl⟩
  | none =>
    have hmem := (hlive f).mpr hticket
    rw [hnone hreads] at hmem
    exact absurd hmem (Finset.notMem_empty f)

theorem ne_of_last {entry : ReadEpoch}
    (hreads : s.registry.reads k = some entry) (hlast : entry.readers - 1 = 0)
    (hticket : HasTicket s f) (hother : HasTicket s other) : other = f := by
  rcases h.counted with ⟨live, hlive, _, hcount⟩
  have hcard : live.card ≤ 1 := by
    have := hcount entry hreads
    lia
  exact Finset.card_le_one.mp hcard other ((hlive other).mpr hother) f
    ((hlive f).mpr hticket)

theorem keep (hreads : registry.reads k = s.registry.reads k)
    (hticket : phase.ticket = (s.fills f).bind Phase.ticket) :
    Ticketed k ({ s with registry := registry, tier := tier }.setFill f
      phase) := by
  have hiff : forall ticket, phase.ticket = some ticket <->
      exists old, s.fills f = some old ∧ old.ticket = some ticket := by
    intro ticket
    rw [hticket]
    exact Option.bind_eq_some_iff
  constructor
  · rcases h.counted with ⟨live, hlive, hnone, hcount⟩
    refine ⟨live, ?_, ?_, ?_⟩
    · intro other
      rw [hlive other]
      change _ <-> HasTicket (s.setFill f phase) other
      rcases eq_or_ne other f with rfl | hne
      · rw [hasTicket_setFill_self]
        constructor
        · intro hother
          rcases hother with ⟨old, ticket, hold, hold'⟩
          exact ⟨ticket, (hiff ticket).mpr ⟨old, hold, hold'⟩⟩
        · intro hother
          rcases hother with ⟨ticket, hother⟩
          rcases (hiff ticket).mp hother with ⟨old, hold, hold'⟩
          exact ⟨old, ticket, hold, hold'⟩
      · rw [hasTicket_setFill_of_ne hne]
    · intro hnone'
      exact hnone (hreads.symm.trans hnone')
    · intro entry hentry
      exact hcount entry (hreads.symm.trans hentry)
  · intro other phase' ticket entry hother hticket' hentry
    have hentry' := hreads.symm.trans hentry
    rcases fills_setFill hother with ⟨rfl, rfl⟩ | ⟨_, hother⟩
    · rcases (hiff ticket).mp hticket' with ⟨old, hold, hold'⟩
      exact h.epochs other old ticket entry hold hold' hentry'
    · exact h.epochs other phase' ticket entry hother hticket' hentry'

variable [DecidableEq key]

theorem take (hnew : s.fills f = none) :
    Ticketed k ((s.setRegistry (s.registry.beginRead k).2).setFill f
      (.reading (s.registry.beginRead k).1)) := by
  rcases h.counted with ⟨live, hlive, hnone, hcount⟩
  have hout : f ∉ live := by
    intro hmem
    rcases (hlive f).mp hmem with ⟨old, ticket, hold, _⟩
    rw [hnew] at hold
    cases hold
  have hreaders : ((s.registry.reads k).getD ⟨0, 0⟩).readers = live.card := by
    cases hreads : s.registry.reads k with
    | none =>
      rw [hnone hreads]
      rfl
    | some entry => exact hcount entry hreads
  have hreads := FillRegistry.reads_beginRead s.registry k
  constructor
  · refine ⟨insert f live, ?_, ?_, ?_⟩
    · intro other
      rw [Finset.mem_insert]
      rcases eq_or_ne other f with rfl | hne
      · have hself : HasTicket ((s.setRegistry (s.registry.beginRead k).2).setFill
            other (.reading (s.registry.beginRead k).1)) other :=
          hasTicket_setFill_self.mpr ⟨_, rfl⟩
        exact ⟨fun _ => hself, fun _ => Or.inl rfl⟩
      · rw [hasTicket_setFill_of_ne hne, hlive other]
        exact ⟨fun hor => hor.resolve_left hne, Or.inr⟩
    · intro hnone'
      cases hreads.symm.trans hnone'
    · intro entry hentry
      cases hreads.symm.trans hentry
      rw [Finset.card_insert_of_notMem hout, ← hreaders]
  · intro other phase' ticket entry hother hticket hentry
    cases hreads.symm.trans hentry
    rcases fills_setFill hother with ⟨rfl, rfl⟩ | ⟨_, hother⟩
    · cases hticket
      exact Nat.le_refl _
    · have hold : HasTicket s other := ⟨phase', ticket, hother, hticket⟩
      rcases h.entry_of_hasTicket hold with ⟨old, hreads'⟩
      rw [hreads']
      exact h.epochs other phase' ticket old hother hticket hreads'

theorem drop (hticket : HasTicket s f) (hphase : phase.ticket = none) :
    Ticketed k ({ s with registry := s.registry.dropTicket k,
                         tier := tier }.setFill f phase) := by
  rcases h.counted with ⟨live, hlive, _, hcount⟩
  rcases h.entry_of_hasTicket hticket with ⟨entry, hentry⟩
  have hmem := (hlive f).mpr hticket
  have hcard := Finset.card_erase_of_mem hmem
  rw [← hcount entry hentry] at hcard
  have hreads := FillRegistry.reads_dropTicket hentry
  constructor
  · refine ⟨live.erase f, ?_, ?_, ?_⟩
    · intro other
      rw [Finset.mem_erase, hlive other]
      change _ <-> HasTicket (s.setFill f phase) other
      rcases eq_or_ne other f with rfl | hne
      · rw [hasTicket_setFill_self, hphase]
        constructor
        · intro hself
          exact absurd rfl hself.left
        · intro hself
          rcases hself with ⟨ticket, hself⟩
          cases hself
      · rw [hasTicket_setFill_of_ne hne]
        exact ⟨fun hand => hand.right, fun hother => ⟨hne, hother⟩⟩
    · intro hnone
      change (s.registry.dropTicket k).reads k = none at hnone
      rw [hreads] at hnone
      split at hnone
      · rename_i hlast
        rw [hlast] at hcard
        exact Finset.card_eq_zero.mp hcard
      · cases hnone
    · intro left hleft
      change (s.registry.dropTicket k).reads k = some left at hleft
      rw [hreads] at hleft
      split at hleft
      · cases hleft
      · cases hleft
        exact hcard.symm
  · intro other phase' ticket left hother hticket' hleft
    change (s.registry.dropTicket k).reads k = some left at hleft
    rw [hreads] at hleft
    split at hleft
    · cases hleft
    cases hleft
    rcases fills_setFill hother with ⟨_, rfl⟩ | ⟨_, hother⟩
    · rw [hphase] at hticket'
      cases hticket'
    · exact h.epochs other phase' ticket entry hother hticket' hentry

end Ticketed

end Updates

/-!
## Bytes from before a commit

Bytes on their way into the tier that are behind the backend are fenced: the
claim they are inserted under is poisoned or their ticket is stale, or there is
an invalidation that has yet to get there.  Bytes in the tier that are behind
will be forgotten by an invalidation, or undone by the fill that wrote them.
-/

/-- The phase carries bytes that may still be written, and the ticket it is
fenced by. -/
def Phase.Carries : Phase -> Option Nat -> Nat -> Prop
  | .led stamp, read, bytes => read = none ∧ bytes = stamp
  | .fetched ticket stamp, read, bytes => read = some ticket ∧ bytes = stamp
  | .inserting fill, read, bytes =>
    fill.MayWrite ∧ read = fill.read ∧ bytes = fill.cached
  | _, _, _ => False

def Doomed (k : key) (s : State key) : Option Nat -> Prop
  | none => s.registry.isPoisoned k = true ∨
      exists i, s.invalidations i = some .committed
  | some ticket => s.registry.isStale k ticket = true ∨
      exists i, s.invalidations i = some .committed ∨
        s.invalidations i = some .claimPoisoned

def StaleRead (k : key) (registry : FillRegistry key Nat Nat)
    (read : Option Nat) : Prop :=
  exists ticket, read = some ticket ∧ registry.isStale k ticket = true

def Phase.WillUndo (k : key) (registry : FillRegistry key Nat Nat) :
    Phase -> Prop
  | .inserting fill =>
    fill.stage = .undo ∨
      ((fill.stage = .writing ∨ fill.stage = .recheckClaim) ∧
        (registry.isPoisoned k = true ∨ StaleRead k registry fill.read)) ∨
      (fill.stage = .recheckRead ∧ StaleRead k registry fill.read)
  | _ => False

def Pending (s : State key) : Prop :=
  exists i stage, s.invalidations i = some stage ∧ stage ≠ .forgotten

/-- A fill whose claim is poisoned, or whose ticket is stale, is dropped in the
wait for its write only while an invalidation has yet to forget the key. -/
def DropsSafely (k : key) (s : State key) : Event -> Prop
  | .abandon f => forall fill, s.fills f = some (.inserting fill) ->
      fill.stage = .writing ->
      s.registry.isPoisoned k = true ∨ StaleRead k s.registry fill.read ->
      Pending s
  | _ => True

structure Fenced (k : key) (s : State key) : Prop where
  carried : forall f phase read stamp, s.fills f = some phase ->
    phase.Carries read stamp -> stamp < s.commits -> Doomed k s read
  tier : forall stamp, s.tier = some stamp -> stamp < s.commits ->
    Pending s ∨ exists f phase, s.fills f = some phase ∧
      phase.WillUndo k s.registry

structure KeepsFor (k : key) (old new : FillRegistry key Nat Nat)
    (phase : Phase) : Prop where
  poisoned : phase.Holds -> old.isPoisoned k = true -> new.isPoisoned k = true
  stale : forall ticket, phase.ticket = some ticket ->
    old.isStale k ticket = true -> new.isStale k ticket = true

section Fences

variable {k : key} {s : State key} {f : Nat} {phase : Phase}
  {registry : FillRegistry key Nat Nat} {tier : Option Nat}

theorem keepsFor_refl : KeepsFor k registry registry phase :=
  ⟨fun _ h => h, fun _ _ h => h⟩

variable {stamp : Nat}

theorem not_undone (hfill : s.fills f = some phase)
    (hundo : ¬ phase.WillUndo k s.registry) :
    forall old, s.fills f = some old -> ¬ old.WillUndo k s.registry := by
  intro old hold
  rw [Option.some.inj (hfill.symm.trans hold)] at hundo
  exact hundo

theorem holds_of_carries (h : phase.Carries none stamp) :
    phase.Holds := by
  cases phase with
  | led stamp => exact trivial
  | fetched ticket stamp => cases h.left
  | inserting fill =>
    intro hstage
    rcases h.left with hmay | hmay | hmay <;>
      rw [hmay] at hstage <;> cases hstage
  | leading | reading ticket | finished => cases h

theorem ticket_of_carries {ticket : Nat}
    (h : phase.Carries (some ticket) stamp) :
    phase.ticket = some ticket := by
  cases phase with
  | led stamp => cases h.left
  | fetched ticket stamp => exact h.left.symm
  | inserting fill => exact h.right.left.symm
  | leading | reading ticket | finished => cases h

theorem Doomed.keep {read : Option Nat} (hcarries : phase.Carries read stamp)
    (hkeeps : KeepsFor k s.registry registry phase) (h : Doomed k s read) :
    Doomed k { s with registry := registry, tier := tier } read := by
  cases read with
  | none =>
    rcases h with hpoisoned | hcommitted
    · exact Or.inl
        (hkeeps.poisoned (holds_of_carries hcarries) hpoisoned)
    · exact Or.inr hcommitted
  | some ticket =>
    rcases h with hstale | hinvalidation
    · exact Or.inl
        (hkeeps.stale ticket (ticket_of_carries hcarries) hstale)
    · exact Or.inr hinvalidation

theorem Phase.WillUndo.keep {old : FillRegistry key Nat Nat}
    (hkeeps : KeepsFor k old registry phase) (h : phase.WillUndo k old) :
    phase.WillUndo k registry := by
  cases phase with
  | inserting fill =>
    have hstale : StaleRead k old fill.read ->
        StaleRead k registry fill.read := by
      intro hread
      rcases hread with ⟨ticket, hticket, hstale⟩
      exact ⟨ticket, hticket, hkeeps.stale ticket hticket hstale⟩
    rcases h with hundo | ⟨hstage, hpoisoned | hread⟩ | ⟨hstage, hread⟩
    · exact Or.inl hundo
    · have hholds : (Phase.inserting fill).Holds := by
        intro hdrop
        rw [hdrop] at hstage
        rcases hstage with hstage | hstage <;> cases hstage
      exact Or.inr (Or.inl
        ⟨hstage, Or.inl (hkeeps.poisoned hholds hpoisoned)⟩)
    · exact Or.inr (Or.inl ⟨hstage, Or.inr (hstale hread)⟩)
    · exact Or.inr (Or.inr ⟨hstage, hstale hread⟩)
  | leading | led stamp | reading ticket | fetched ticket stamp | finished =>
    cases h

theorem Fenced.move (h : Fenced k s)
    (hkeeps : forall other phase', other ≠ f -> s.fills other = some phase' ->
      KeepsFor k s.registry registry phase')
    (hcarried : forall read stamp, phase.Carries read stamp ->
      stamp < s.commits ->
      Doomed k { s with registry := registry, tier := tier } read)
    (htier : forall stamp, tier = some stamp -> stamp < s.commits ->
      Pending s ∨ phase.WillUndo k registry ∨
        (s.tier = some stamp ∧ forall old, s.fills f = some old ->
          ¬ old.WillUndo k s.registry)) :
    Fenced k ({ s with registry := registry, tier := tier }.setFill f
      phase) := by
  constructor
  · intro other phase' read stamp hother hcarries hbehind
    change Doomed k { s with registry := registry, tier := tier } read
    rcases fills_setFill hother with ⟨_, rfl⟩ | ⟨hne, hother⟩
    · exact hcarried read stamp hcarries hbehind
    · exact (h.carried other phase' read stamp hother hcarries hbehind).keep
        hcarries (hkeeps other phase' hne hother)
  · intro stamp hstamp hbehind
    rcases htier stamp hstamp hbehind with hpending | hundo | ⟨hold, hself⟩
    · exact Or.inl hpending
    · exact Or.inr ⟨f, phase, update_self f _ s.fills, hundo⟩
    · rcases h.tier stamp hold hbehind with hpending | ⟨other, phase', hother, hundo⟩
      · exact Or.inl hpending
      · have hne : other ≠ f := by
          intro heq
          rw [heq] at hother
          exact hself phase' hother hundo
        have hkept := hundo.keep (hkeeps other phase' hne hother)
        refine Or.inr ⟨other, phase', ?_, hkept⟩
        exact (update_of_ne hne _ s.fills).trans hother

theorem Fenced.pass (h : Fenced k s)
    (hkeeps : forall other phase', other ≠ f -> s.fills other = some phase' ->
      KeepsFor k s.registry registry phase')
    (hcarried : forall read stamp, phase.Carries read stamp ->
      stamp < s.commits -> Doomed k (s.setRegistry registry) read)
    (hself : forall old, s.fills f = some old ->
      ¬ old.WillUndo k s.registry) :
    Fenced k ((s.setRegistry registry).setFill f phase) :=
  h.move hkeeps hcarried
    (fun _ hstamp _ => Or.inr (Or.inr ⟨hstamp, hself⟩))

end Fences

/-!
## What the registry's operations keep
-/

structure Guarded (k : key) (s : State key) : Prop where
  claimed : Claimed k s
  ticketed : Ticketed k s
  fenced : Fenced k s

section Keeps

variable {k : key} {s : State key} {phase : Phase}
  {old new : FillRegistry key Nat Nat}

theorem isStale_congr (hreads : new.reads k = old.reads k) (ticket : Nat) :
    new.isStale k ticket = old.isStale k ticket := by
  unfold FillRegistry.isStale
  rw [hreads]

theorem keepsFor_of_free (hfree : old.claims k = none)
    (hreads : new.reads k = old.reads k) : KeepsFor k old new phase := by
  constructor
  · intro _ hpoisoned
    rw [FillRegistry.isPoisoned_iff, hfree] at hpoisoned
    cases hpoisoned
  intro ticket _ hstale
  rw [isStale_congr hreads]
  exact hstale

theorem keepsFor_of_not_holds (hholds : ¬ phase.Holds)
    (hreads : new.reads k = old.reads k) : KeepsFor k old new phase := by
  constructor
  · intro hholds'
    exact absurd hholds' hholds
  · intro ticket _ hstale
    rw [isStale_congr hreads]
    exact hstale

variable [DecidableEq key]

theorem keepsFor_publish (stamp : Nat) :
    KeepsFor k old (old.publish k stamp).2 phase := by
  constructor
  · intro _ hpoisoned
    rw [FillRegistry.isPoisoned_iff] at hpoisoned
    rw [FillRegistry.isPoisoned_iff]
    exact (FillRegistry.claims_publish old k stamp).right hpoisoned
  · intro ticket _ hstale
    rw [isStale_congr (congrFun (FillRegistry.reads_publish old k stamp) k)]
    exact hstale

theorem keepsFor_beginRead (h : Ticketed k s) {f : Nat}
    (hfill : s.fills f = some phase) :
    KeepsFor k s.registry (s.registry.beginRead k).2 phase := by
  constructor
  · intro _ hpoisoned
    exact hpoisoned
  · intro ticket hticket hstale
    rcases h.entry_of_hasTicket ⟨phase, ticket, hfill, hticket⟩ with
      ⟨entry, hentry⟩
    rw [FillRegistry.isStale_iff] at hstale
    rw [FillRegistry.isStale_iff]
    intro later hlater
    rw [FillRegistry.reads_beginRead, hentry] at hlater
    cases hlater
    exact hstale entry hentry

theorem keepsFor_dropTicket (h : Ticketed k s) {f : Nat}
    (hticket : HasTicket s f) (hne : other ≠ f)
    (hother : s.fills other = some phase) :
    KeepsFor k s.registry (s.registry.dropTicket k) phase := by
  constructor
  · intro _ hpoisoned
    rw [FillRegistry.isPoisoned_iff] at hpoisoned
    rw [FillRegistry.isPoisoned_iff, FillRegistry.claims_dropTicket]
    exact hpoisoned
  · intro ticket hother' hstale
    rcases h.entry_of_hasTicket hticket with ⟨entry, hentry⟩
    rw [FillRegistry.isStale_iff] at hstale
    rw [FillRegistry.isStale_iff]
    intro left hleft
    rw [FillRegistry.reads_dropTicket hentry] at hleft
    split at hleft
    · rename_i hlast
      exact absurd (h.ne_of_last hentry hlast hticket
        ⟨phase, ticket, hother, hother'⟩) hne
    · cases hleft
      exact hstale entry hentry

theorem isStale_poisonReads (h : Ticketed k s) {f ticket : Nat}
    (hfill : s.fills f = some phase) (hticket : phase.ticket = some ticket) :
    (s.registry.poisonReads k).isStale k ticket = true := by
  rcases h.entry_of_hasTicket ⟨phase, ticket, hfill, hticket⟩ with
    ⟨entry, hentry⟩
  have hle := h.epochs f phase ticket entry hfill hticket hentry
  rw [FillRegistry.isStale_iff]
  intro later hlater
  rw [FillRegistry.reads_poisonReads hentry] at hlater
  cases hlater
  exact Nat.ne_of_gt (Nat.lt_succ_of_le hle)

end Keeps

theorem guarded_start (k : key) : Guarded k (State.start : State key) := by
  constructor
  · constructor
    · intro f phase hfill
      cases hfill
    · intro f phase other phase' hfill
      cases hfill
  · constructor
    · refine ⟨∅, ?_, fun _ => rfl, ?_⟩
      · intro f
        constructor
        · intro hmem
          exact absurd hmem (Finset.notMem_empty f)
        · intro hticket
          rcases hticket with ⟨phase, ticket, hfill, _⟩
          cases hfill
      · intro entry hentry
        cases hentry
    · intro f phase ticket entry hfill
      cases hfill
  · constructor
    · intro f phase read stamp hfill
      cases hfill
    · intro stamp hstamp
      cases hstamp

/-!
## Steps of a fill
-/

namespace Guarded

variable {k : key} {s s' : State key} {f : Nat} {fill : Fill Nat}
  (h : Guarded k s)

include h

theorem restage (hfill : s.fills f = some (.inserting fill))
    {stage : InsertStage} (hholds : fill.stage ≠ .dropTicket)
    (hmay : Fill.MayWrite { fill with stage := stage } -> fill.MayWrite)
    (hundo : (Phase.inserting fill).WillUndo k s.registry -> Pending s ∨
      (Phase.inserting { fill with stage := stage }).WillUndo k s.registry) :
    Guarded k (s.setFill f (.inserting { fill with stage := stage })) := by
  constructor
  · exact h.claimed.keep id (fun _ => ⟨.inserting fill, hfill, hholds⟩)
  · refine h.ticketed.keep rfl ?_
    rw [hfill]
    rfl
  · refine h.fenced.move (fun _ _ _ _ => keepsFor_refl) ?_ ?_
    · intro read stamp hcarries hbehind
      exact h.fenced.carried f (.inserting fill) read stamp hfill
        ⟨hmay hcarries.left, hcarries.right⟩ hbehind
    · intro stamp hstamp _
      by_cases hold : (Phase.inserting fill).WillUndo k s.registry
      · exact (hundo hold).imp_right Or.inl
      · exact Or.inr (Or.inr ⟨hstamp, not_undone hfill hold⟩)

theorem read (hstep : Fence.read s f = some s') : Guarded k s' := by
  unfold Fence.read at hstep
  split at hstep
  · rename_i hfill
    cases hstep
    constructor
    · exact h.claimed.keep id (fun _ => ⟨.leading, hfill, trivial⟩)
    · refine h.ticketed.keep rfl ?_
      rw [hfill]
      rfl
    · refine h.fenced.pass (fun _ _ _ _ => keepsFor_refl) ?_
        (not_undone hfill nofun)
      intro read stamp hcarries hbehind
      rw [hcarries.right] at hbehind
      exact absurd hbehind (Nat.lt_irrefl _)
  · rename_i ticket hfill
    cases hstep
    constructor
    · exact h.claimed.keep id nofun
    · refine h.ticketed.keep rfl ?_
      rw [hfill]
      rfl
    · refine h.fenced.pass (fun _ _ _ _ => keepsFor_refl) ?_
        (not_undone hfill nofun)
      intro read stamp hcarries hbehind
      rw [hcarries.right] at hbehind
      exact absurd hbehind (Nat.lt_irrefl _)
  · cases hstep

section

variable (hfill : s.fills f = some (.inserting fill))

include hfill

theorem write {tier : DiskTier} (hstage : fill.stage = .write)
    {stage : InsertStage} (hnext : stage = .writing ∨ stage = .recheckClaim) :
    Guarded k ({ s with tier := tier.putChunk s.tier fill.cached }.setFill f
      (.inserting { fill with stage := stage })) := by
  have hholds : (Phase.inserting fill).Holds := by
    intro hdrop
    rw [hstage] at hdrop
    cases hdrop
  constructor
  · exact h.claimed.keep id (fun _ => ⟨.inserting fill, hfill, hholds⟩)
  · refine h.ticketed.keep rfl ?_
    rw [hfill]
    rfl
  · refine h.fenced.move (fun _ _ _ _ => keepsFor_refl) ?_ ?_
    · intro read stamp hcarries
      rcases hnext with rfl | rfl <;>
        rcases hcarries.left with hmay | hmay | hmay <;> cases hmay
    · intro stamp hstamp hbehind
      rcases DiskTier.putChunk_some hstamp with hold | rfl
      · refine Or.inr (Or.inr ⟨hold, not_undone hfill ?_⟩)
        intro hundo
        rcases hundo with hundo | ⟨hundo | hundo, _⟩ | ⟨hundo, _⟩ <;>
          rw [hstage] at hundo <;> cases hundo
      · have hdoomed := h.fenced.carried f _ fill.read fill.cached hfill
          ⟨Or.inr (Or.inr hstage), rfl, rfl⟩ hbehind
        cases hread : fill.read with
        | none =>
          rw [hread] at hdoomed
          rcases hdoomed with hpoisoned | ⟨i, hcommitted⟩
          · exact Or.inr (Or.inl (Or.inr (Or.inl ⟨hnext, Or.inl hpoisoned⟩)))
          · exact Or.inl ⟨i, .committed, hcommitted, nofun⟩
        | some ticket =>
          rw [hread] at hdoomed
          rcases hdoomed with hstale | ⟨i, hcommitted | hpoisoned⟩
          · exact Or.inr (Or.inl (Or.inr (Or.inl
              ⟨hnext, Or.inr ⟨ticket, rfl, hstale⟩⟩)))
          · exact Or.inl ⟨i, .committed, hcommitted, nofun⟩
          · exact Or.inl ⟨i, .claimPoisoned, hpoisoned, nofun⟩

theorem empty (hholds : fill.stage ≠ .dropTicket) :
    Guarded k ({ s with tier := none }.setFill f
      (.inserting { fill with stage := .release })) := by
  constructor
  · exact h.claimed.keep id (fun _ => ⟨.inserting fill, hfill, hholds⟩)
  · refine h.ticketed.keep rfl ?_
    rw [hfill]
    rfl
  · refine h.fenced.move (fun _ _ _ _ => keepsFor_refl) ?_ nofun
    intro read stamp hcarries
    rcases hcarries.left with hmay | hmay | hmay <;> cases hmay

theorem finish (hread : fill.read = none)
    (hundo : ¬ (Phase.inserting fill).WillUndo k s.registry) :
    Guarded k (s.setFill f .finished) := by
  constructor
  · exact h.claimed.keep id nofun
  · refine h.ticketed.keep rfl ?_
    rw [hfill]
    exact hread.symm
  · exact h.fenced.pass (fun _ _ _ _ => keepsFor_refl) nofun
      (not_undone hfill hundo)

end

variable [DecidableEq key]

theorem lead (hstep : Fence.lead k s f = some s') : Guarded k s' := by
  unfold Fence.lead at hstep
  split at hstep
  · cases hstep
  rename_i hnew
  cases hfree : s.registry.claims k with
  | some state =>
    cases state <;>
      simp only [FillRegistry.claimFill, hfree] at hstep <;> cases hstep
  | none =>
    simp only [FillRegistry.claimFill, hfree] at hstep
    cases hstep
    constructor
    · refine h.claimed.take hfree ?_
      intro hnone
      cases (update_self k _ s.registry.claims).symm.trans hnone
    · refine h.ticketed.keep rfl ?_
      rw [hnew]
      rfl
    · refine h.fenced.pass
        (fun _ _ _ _ => keepsFor_of_free hfree rfl) nofun ?_
      rw [hnew]
      exact nofun

theorem beginRead (hstep : Fence.beginRead k s f = some s') :
    Guarded k s' := by
  unfold Fence.beginRead at hstep
  split at hstep
  · cases hstep
  rename_i hnew
  cases hstep
  constructor
  · exact h.claimed.keep id nofun
  · exact h.ticketed.take hnew
  · refine h.fenced.pass ?_ nofun ?_
    · intro other phase' _ hother
      exact keepsFor_beginRead h.ticketed hother
    · rw [hnew]
      exact nofun

theorem publish {admits : Bool}
    (hstep : Fence.publish k s f admits = some s') : Guarded k s' := by
  unfold Fence.publish at hstep
  split at hstep
  · rename_i stamp hfill
    cases hstep
    constructor
    · refine h.claimed.keep (FillRegistry.claims_publish s.registry k stamp).left
        ?_
      intro _
      exact ⟨.led stamp, hfill, trivial⟩
    · refine h.ticketed.keep
        (congrFun (FillRegistry.reads_publish s.registry k stamp) k) ?_
      rw [hfill]
      rfl
    · refine h.fenced.pass (fun _ _ _ _ => keepsFor_publish stamp) ?_
        (not_undone hfill nofun)
      intro read bytes hcarries hbehind
      have hled : (Phase.led stamp).Carries read bytes := hcarries.right
      exact (h.fenced.carried f (.led stamp) read bytes hfill hled
        hbehind).keep hled (keepsFor_publish stamp)
  · cases hstep

theorem claim {wanted : Bool}
    (hstep : Fence.claim k s f wanted = some s') : Guarded k s' := by
  unfold Fence.claim at hstep
  split at hstep
  · rename_i ticket stamp hfill
    have hself := not_undone (k := k) hfill nofun
    dsimp only at hstep
    split at hstep
    · rename_i registry hclaim
      cases hstep
      split at hclaim
      · unfold FillRegistry.claimExclusive at hclaim
        split at hclaim
        · cases hclaim
        rename_i hfree
        cases hclaim
        constructor
        · refine h.claimed.take hfree ?_
          intro hnone
          cases (update_self k _ s.registry.claims).symm.trans hnone
        · refine h.ticketed.keep rfl ?_
          rw [hfill]
          rfl
        · refine h.fenced.pass
            (fun _ _ _ _ => keepsFor_of_free hfree rfl) ?_ hself
          intro read bytes hcarries hbehind
          have hfetched : (Phase.fetched ticket stamp).Carries read bytes :=
            hcarries.right
          exact (h.fenced.carried f _ read bytes hfill hfetched hbehind).keep
            hfetched (keepsFor_of_free hfree rfl)
      · cases hclaim
    · cases hstep
      constructor
      · exact h.claimed.keep id (fun hholds => absurd rfl hholds)
      · refine h.ticketed.keep rfl ?_
        rw [hfill]
        rfl
      · refine h.fenced.pass (fun _ _ _ _ => keepsFor_refl) ?_ hself
        intro read bytes hcarries
        rcases hcarries.left with hmay | hmay | hmay <;> cases hmay
  · cases hstep

theorem letGo (hold : s.fills f = some old) (holds : old.Holds)
    (hundo : ¬ old.WillUndo k s.registry) {phase : Phase}
    (hphase : ¬ phase.Holds) (hticket : phase.ticket = old.ticket)
    (hcarries : forall read stamp, ¬ phase.Carries read stamp) :
    Guarded k ((s.setRegistry (s.registry.release k)).setFill f phase) := by
  constructor
  · exact h.claimed.letGo hold holds hphase
  · refine h.ticketed.keep rfl ?_
    rw [hold]
    exact hticket
  · refine h.fenced.pass ?_ ?_ (not_undone hold hundo)
    · intro other phase' hne hother
      refine keepsFor_of_not_holds ?_ rfl
      intro hholds
      exact hne (h.claimed.alone other phase' f old hother hold hholds holds)
    · intro read stamp hcarried
      exact absurd hcarried (hcarries read stamp)

theorem dropTicket (hold : s.fills f = some old) {ticket : Nat}
    (hticket : old.ticket = some ticket)
    (hundo : ¬ old.WillUndo k s.registry) :
    Guarded k ((s.setRegistry (s.registry.dropTicket k)).setFill f
      .finished) := by
  have hhas : HasTicket s f := ⟨old, ticket, hold, hticket⟩
  constructor
  · refine h.claimed.keep ?_ nofun
    intro hnone
    rw [FillRegistry.claims_dropTicket] at hnone
    exact hnone
  · exact h.ticketed.drop hhas rfl
  · refine h.fenced.pass ?_ nofun (not_undone hold hundo)
    intro other phase' hne hother
    exact keepsFor_dropTicket h.ticketed hhas hne hother

theorem advance {tier : DiskTier} {wrote : Bool}
    (hstep : Fence.advance tier k s f wrote = some s') : Guarded k s' := by
  unfold Fence.advance at hstep
  split at hstep
  · rename_i fill hfill
    unfold Fill.advance at hstep
    rcases fill with ⟨read, cached, stage⟩
    cases stage with
    | checkClaim =>
      cases hstep
      refine h.restage hfill (by simp) (fun _ => Or.inl rfl) ?_
      intro hundo
      simp [Phase.WillUndo] at hundo
    | checkRead =>
      cases hstep
      refine h.restage hfill (by simp)
        (fun _ => Or.inr (Or.inl rfl)) ?_
      intro hundo
      simp [Phase.WillUndo] at hundo
    | write =>
      cases wrote with
      | true =>
        cases hstep
        refine h.write hfill rfl ?_
        split
        · exact Or.inl rfl
        · exact Or.inr rfl
      | false =>
        cases hstep
        refine h.restage hfill (by simp) ?_ ?_
        · intro hmay
          simp [Fill.MayWrite] at hmay
        · intro hundo
          simp [Phase.WillUndo] at hundo
    | writing =>
      cases wrote with
      | true =>
        cases hstep
        refine h.restage hfill (by simp) ?_ ?_
        · intro hmay
          simp [Fill.MayWrite] at hmay
        · intro hundo
          rcases hundo with hundo | ⟨_, hundo⟩ | ⟨hundo, _⟩
          · cases hundo
          · exact Or.inr (Or.inr (Or.inl ⟨Or.inr rfl, hundo⟩))
          · cases hundo
      | false =>
        cases hstep
        exact h.empty hfill (by simp)
    | recheckClaim =>
      cases hstep
      refine h.restage hfill (by simp) ?_ ?_
      · intro hmay
        split at hmay <;> simp [Fill.MayWrite] at hmay
      · intro hundo
        apply Or.inr
        split
        · exact Or.inl rfl
        · rename_i hclean
          rcases hundo with hundo | ⟨_, hpoisoned | hstale⟩ | ⟨hundo, _⟩
          · cases hundo
          · exact absurd hpoisoned hclean
          · exact Or.inr (Or.inr ⟨rfl, hstale⟩)
          · cases hundo
    | recheckRead =>
      cases hstep
      refine h.restage hfill (by simp) ?_ ?_
      · intro hmay
        split at hmay <;> split at hmay <;> simp [Fill.MayWrite] at hmay
      · intro hundo
        rcases hundo with hundo | ⟨hundo | hundo, _⟩ | ⟨_, ticket, hread, hstale⟩
        · cases hundo
        · cases hundo
        · cases hundo
        rw [hread]
        dsimp only
        rw [if_pos hstale]
        exact Or.inr (Or.inl rfl)
    | undo =>
      cases hstep
      exact h.empty hfill (by simp)
    | release =>
      cases hstep
      refine h.letGo hfill ?_ ?_ (fun hholds => hholds rfl) rfl ?_
      · rintro ⟨⟩
      · intro hundo
        simp [Phase.WillUndo] at hundo
      · intro read stamp hcarries
        rcases hcarries.left with hmay | hmay | hmay <;> cases hmay
    | dropTicket =>
      have hundo : ¬ (Phase.inserting
          ⟨read, cached, .dropTicket⟩).WillUndo k s.registry := by
        intro hundo
        simp [Phase.WillUndo] at hundo
      cases read with
      | some ticket =>
        cases hstep
        exact h.dropTicket hfill rfl hundo
      | none =>
        cases hstep
        exact h.finish hfill rfl hundo
  · cases hstep

theorem abandon (hguard : DropsSafely k s (.abandon f))
    (hstep : Fence.abandon k s f = some s') : Guarded k s' := by
  unfold Fence.abandon at hstep
  split at hstep
  · rename_i hfill
    cases hstep
    exact h.letGo hfill trivial nofun nofun rfl nofun
  · rename_i ticket hfill
    cases hstep
    exact h.dropTicket hfill rfl nofun
  · rename_i fill hfill
    split at hstep
    · rename_i hstage
      cases hstep
      have hholds : fill.stage ≠ .dropTicket := by
        intro hdrop
        rw [hdrop] at hstage
        rcases hstage with hstage | hstage <;> cases hstage
      refine h.restage hfill hholds ?_ ?_
      · intro hmay
        simp [Fill.MayWrite] at hmay
      · intro hundo
        rcases hstage with hstage | hstage
        · simp [Phase.WillUndo, hstage] at hundo
        · simp only [Phase.WillUndo, hstage, reduceCtorEq, false_and, false_or,
            or_false, true_and] at hundo
          exact Or.inl (hguard fill hfill hstage hundo)
    · cases hstep
  · cases hstep

/-!
## Steps of an invalidation
-/

variable {i : Nat}

omit h [DecidableEq key] in
theorem pending_setInvalidation {stage : Invalidation}
    (hstage : stage ≠ .forgotten) : Pending (s.setInvalidation i stage) :=
  ⟨i, stage, update_self i _ s.invalidations, hstage⟩

omit h [DecidableEq key] in
theorem invalidations_setInvalidation {j : Nat}
    {stage stage' moved : Invalidation} (hi : s.invalidations i = some stage)
    (hne : stage ≠ stage') (hj : s.invalidations j = some stage') :
    (s.setInvalidation i moved).invalidations j = some stage' := by
  have hother : j ≠ i := by
    intro heq
    rw [heq, hi] at hj
    exact hne (Option.some.inj hj)
  exact (update_of_ne hother _ s.invalidations).trans hj

omit [DecidableEq key] in
theorem commit (i : Nat) :
    Guarded k ({ s with commits := s.commits + 1 }.setInvalidation i
      .committed) := by
  have hnow : (s.setInvalidation i .committed).invalidations i =
      some .committed := update_self i _ s.invalidations
  refine ⟨⟨h.claimed.claimed, h.claimed.alone⟩,
    ⟨h.ticketed.counted, h.ticketed.epochs⟩, ?_⟩
  constructor
  · intro f phase read stamp _ _ _
    cases read with
    | none => exact Or.inr ⟨i, hnow⟩
    | some ticket => exact Or.inr ⟨i, Or.inl hnow⟩
  · intro stamp _ _
    exact Or.inl ⟨i, .committed, hnow, nofun⟩

theorem poisonClaim (hi : s.invalidations i = some .committed) :
    Guarded k ((s.setRegistry (s.registry.poisonClaim k)).setInvalidation i
      .claimPoisoned) := by
  have hclaims : (s.registry.poisonClaim k).claims k =
      (s.registry.claims k).map fun _ => .poisoned :=
    update_self k _ s.registry.claims
  refine ⟨?_, ⟨h.ticketed.counted, h.ticketed.epochs⟩, ?_⟩
  · refine ⟨?_, h.claimed.alone⟩
    intro f phase hfill hholds hnone
    exact h.claimed.claimed f phase hfill hholds
      (Option.map_eq_none_iff.mp (hclaims.symm.trans hnone))
  · constructor
    · intro f phase read stamp hfill hcarries hbehind
      have hdoomed := h.fenced.carried f phase read stamp hfill hcarries hbehind
      cases read with
      | none =>
        -- The claim the bytes are carried under is there, and poisoned now.
        have hheld := h.claimed.claimed f phase hfill
          (holds_of_carries hcarries)
        rcases Option.ne_none_iff_exists'.mp hheld with ⟨state, hstate⟩
        refine Or.inl ((FillRegistry.isPoisoned_iff _ k).mpr ?_)
        exact hclaims.trans (by rw [hstate]; rfl)
      | some ticket =>
        rcases hdoomed with hstale | ⟨j, hcommitted | hpoisoned⟩
        · exact Or.inl hstale
        · rcases eq_or_ne j i with rfl | hne
          · exact Or.inr ⟨j, Or.inr (update_self j _ _)⟩
          · exact Or.inr ⟨j, Or.inl
              ((update_of_ne hne _ _).trans hcommitted)⟩
        · exact Or.inr ⟨j, Or.inr
            (invalidations_setInvalidation hi nofun hpoisoned)⟩
    · intro stamp _ _
      exact Or.inl (pending_setInvalidation nofun)

theorem poisonReads (hi : s.invalidations i = some .claimPoisoned) :
    Guarded k ((s.setRegistry (s.registry.poisonReads k)).setInvalidation i
      .readsPoisoned) := by
  refine ⟨⟨h.claimed.claimed, h.claimed.alone⟩, ?_, ?_⟩
  · have hreads : (s.registry.poisonReads k).reads k =
        (s.registry.reads k).map fun entry =>
          { entry with epoch := entry.epoch + 1 } :=
      update_self k _ s.registry.reads
    constructor
    · rcases h.ticketed.counted with ⟨live, hlive, hnone, hcount⟩
      refine ⟨live, hlive, ?_, ?_⟩
      · intro hnone'
        exact hnone (Option.map_eq_none_iff.mp (hreads.symm.trans hnone'))
      · intro entry hentry
        rcases Option.map_eq_some_iff.mp (hreads.symm.trans hentry) with
          ⟨old, hold, rfl⟩
        exact hcount old hold
    · intro f phase ticket entry hfill hticket hentry
      rcases Option.map_eq_some_iff.mp (hreads.symm.trans hentry) with
        ⟨old, hold, rfl⟩
      exact Nat.le_succ_of_le
        (h.ticketed.epochs f phase ticket old hfill hticket hold)
  · constructor
    · intro f phase read stamp hfill hcarries hbehind
      cases read with
      | none =>
        rcases h.fenced.carried f phase none stamp hfill hcarries hbehind with
          hpoisoned | ⟨j, hcommitted⟩
        · exact Or.inl hpoisoned
        · exact Or.inr ⟨j,
            invalidations_setInvalidation hi nofun hcommitted⟩
      | some ticket =>
        exact Or.inl (isStale_poisonReads h.ticketed hfill
          (ticket_of_carries hcarries))
    · intro stamp _ _
      exact Or.inl (pending_setInvalidation nofun)

omit [DecidableEq key] in
theorem evict : Guarded k { s with tier := none } := by
  refine ⟨⟨h.claimed.claimed, h.claimed.alone⟩,
    ⟨h.ticketed.counted, h.ticketed.epochs⟩, ?_⟩
  exact ⟨h.fenced.carried, nofun⟩

omit [DecidableEq key] in
theorem forget (hi : s.invalidations i = some .readsPoisoned) :
    Guarded k ({ s with tier := none }.setInvalidation i .forgotten) := by
  refine ⟨⟨h.claimed.claimed, h.claimed.alone⟩,
    ⟨h.ticketed.counted, h.ticketed.epochs⟩, ?_⟩
  refine ⟨?_, nofun⟩
  intro f phase read stamp hfill hcarries hbehind
  have hdoomed := h.fenced.carried f phase read stamp hfill hcarries hbehind
  cases read with
  | none =>
    rcases hdoomed with hpoisoned | ⟨j, hcommitted⟩
    · exact Or.inl hpoisoned
    · exact Or.inr ⟨j, invalidations_setInvalidation hi nofun hcommitted⟩
  | some ticket =>
    rcases hdoomed with hstale | ⟨j, hcommitted | hpoisoned⟩
    · exact Or.inl hstale
    · exact Or.inr ⟨j, Or.inl
        (invalidations_setInvalidation hi nofun hcommitted)⟩
    · exact Or.inr ⟨j, Or.inr
        (invalidations_setInvalidation hi nofun hpoisoned)⟩

theorem step {tier : DiskTier} {e : Event} (hguard : DropsSafely k s e)
    (hstep : Fence.step tier k s e = some s') : Guarded k s' := by
  cases e <;> simp only [Fence.step] at hstep
  case lead f => exact h.lead hstep
  case beginRead f => exact h.beginRead hstep
  case read f => exact h.read hstep
  case publish f admits => exact h.publish hstep
  case claim f wanted => exact h.claim hstep
  case advance f wrote => exact h.advance hstep
  case abandon f => exact h.abandon hguard hstep
  case commit i =>
    split at hstep
    · cases hstep
      exact h.commit i
    · cases hstep
  case poisonClaim i =>
    split at hstep
    · rename_i hi
      cases hstep
      exact h.poisonClaim hi
    · cases hstep
  case poisonReads i =>
    split at hstep
    · rename_i hi
      cases hstep
      exact h.poisonReads hi
    · cases hstep
  case forget i =>
    split at hstep
    · rename_i hi
      cases hstep
      exact h.forget hi
    · cases hstep
  case evict =>
    cases hstep
    exact h.evict

end Guarded

/-- Once every fill has let go and every invalidation is through, the tier
holds nothing that was read before the last commit, in a run that drops its
fills safely. -/
theorem fence_holds [DecidableEq key] {tier : DiskTier} {k : key}
    {events : List Event} {final : State key}
    (hrun : run (step tier k) State.start events = some final)
    (hdrops : Along (step tier k) (DropsSafely k) State.start events)
    (hquiet : Quiet final) {stamp : Nat} (hheld : final.tier = some stamp) :
    final.commits ≤ stamp := by
  have hguarded : Guarded k final :=
    run_preserves (fun _ _ _ hinv hguard hstep => hinv.step hguard hstep)
      (guarded_start k) hdrops hrun
  rcases Nat.lt_or_ge stamp final.commits with hbehind | hcurrent
  · rcases hguarded.fenced.tier stamp hheld hbehind with
      ⟨i, stage, hi, hpending⟩ | ⟨f, phase, hfill, hundo⟩
    · exact absurd (hquiet.invalidations i stage hi) hpending
    · rw [hquiet.fills f phase hfill] at hundo
      cases hundo
  · exact hcurrent

/-- A ticketed fill reads before a commit and is dropped while it waits for its
write, with the invalidation on its way; a leader that reads after the commit
then fills the key. -/
def overtakenFill : List Event :=
  [.beginRead 0, .read 0, .commit 0, .poisonClaim 0, .claim 0 true,
    .advance 0 true, .advance 0 true, .advance 0 true, .abandon 0,
    .poisonReads 0, .forget 0, .advance 0 true, .advance 0 true,
    .lead 1, .read 1, .publish 1 true, .advance 1 true, .advance 1 true,
    .advance 1 true, .advance 1 true, .advance 1 true, .advance 1 true,
    .advance 1 true, .advance 1 true]

theorem fence_holds_overtakenFill : exists final : State Unit,
    run (step .store ()) State.start overtakenFill = some final ∧
    final.tier = some 1 ∧ final.commits ≤ 1 := by
  have hruns : exists final : State Unit,
      run (step .store ()) State.start overtakenFill = some final ∧
      final.tier = some 1 ∧ Quiet final := by
    refine ⟨_, rfl, rfl, ?_⟩
    constructor
    · intro f phase hfill
      rcases f with _ | _ | f
      · cases hfill
        rfl
      · cases hfill
        rfl
      · cases hfill
    · intro i stage hi
      rcases i with _ | i
      · cases hi
        rfl
      · cases hi
  have hdrops : Along (step .store ()) (DropsSafely ()) State.start
      overtakenFill := by
    iterate 8 apply along_cons_of_step trivial rfl
    refine along_cons_of_step ?_ rfl ?_
    · intro fill _ _ _
      exact ⟨0, .claimPoisoned, rfl, nofun⟩
    · iterate 14 apply along_cons_of_step trivial rfl
      exact along_cons_of_step trivial rfl trivial
  rcases hruns with ⟨final, hrun, hheld, hquiet⟩
  exact ⟨final, hrun, hheld, fence_holds hrun hdrops hquiet hheld⟩

/-- A leader passes its first check, an invalidation runs from its commit to
its end, and the leader is dropped while it waits for its write. -/
def droppedFill : List Event :=
  [.lead 0, .read 0, .publish 0 true, .advance 0 true, .advance 0 true,
    .commit 0, .poisonClaim 0, .poisonReads 0, .forget 0, .advance 0 true,
    .abandon 0, .advance 0 true, .advance 0 true]

/-- The dropped fill never looks at its claim again, so the tier keeps what it
wrote though the claim was poisoned. -/
theorem fence_broken_droppedFill : exists final : State Unit,
    run (step .store ()) State.start droppedFill = some final ∧
    Quiet final ∧ final.tier = some 0 ∧ final.commits = 1 := by
  refine ⟨_, rfl, ?_, rfl, rfl⟩
  constructor
  · intro f phase hfill
    rcases f with _ | f
    · cases hfill
      rfl
    · cases hfill
  · intro i stage hi
    rcases i with _ | i
    · cases hi
      rfl
    · cases hi

end Fence

end Daemon
end Pacer
