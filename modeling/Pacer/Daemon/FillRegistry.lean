import Mathlib.Logic.Function.Basic
import Mathlib.Tactic.SplitIfs

/-!
# The fill registry

A node records which chunk keys are being filled, and which reads that may end
in an insert are in flight.  Every operation of the registry is one lock
section on one of two maps; an invalidation's poison is two of them.

The claim's holder inserts its chunk between two checks of the claim and of its
read's ticket, and lets go of both in the end.  That tail is common to all
fills, and `Fill.advance` takes it one lock section or one tier operation at a
time.
-/

namespace Pacer
namespace Daemon

open Function

/-- What one claimed key is doing.  The sender of a fetching claim lives in the
claim: a channel whose sender is gone from here is closed. -/
inductive FillState (tx bytes : Type) where
  | fetching (sender : tx)
  | filled (data : bytes)
  | exclusive
  | poisoned
deriving DecidableEq

structure ReadEpoch where
  readers : Nat
  epoch : Nat
deriving DecidableEq

structure FillRegistry (key tx bytes : Type) where
  claims : key -> Option (FillState tx bytes)
  reads : key -> Option ReadEpoch

inductive FillClaim (tx bytes : Type) where
  | lead
  | follow (sender : tx)
  | ready (data : bytes)
  | busy

namespace FillRegistry

variable {key tx bytes : Type} [DecidableEq key]

def new : FillRegistry key tx bytes :=
  { claims := fun _ => none, reads := fun _ => none }

def claimFill (reg : FillRegistry key tx bytes) (k : key) (sender : tx) :
    FillClaim tx bytes × FillRegistry key tx bytes :=
  match reg.claims k with
  | some (.fetching other) => (.follow other, reg)
  | some (.filled data) => (.ready data, reg)
  | some .exclusive => (.busy, reg)
  | some .poisoned => (.busy, reg)
  | none =>
    (.lead, { reg with
      claims := update reg.claims k (some (.fetching sender)) })

def claimExclusive (reg : FillRegistry key tx bytes) (k : key) :
    Option (FillRegistry key tx bytes) :=
  match reg.claims k with
  | some _ => none
  | none =>
    some { reg with claims := update reg.claims k (some .exclusive) }

def poisonClaim (reg : FillRegistry key tx bytes) (k : key) :
    FillRegistry key tx bytes :=
  { reg with
    claims := update reg.claims k
      ((reg.claims k).map fun _ => .poisoned) }

def poisonReads (reg : FillRegistry key tx bytes) (k : key) :
    FillRegistry key tx bytes :=
  { reg with
    reads := update reg.reads k
      ((reg.reads k).map fun entry => { entry with epoch := entry.epoch + 1 }) }

def beginRead (reg : FillRegistry key tx bytes) (k : key) :
    Nat × FillRegistry key tx bytes :=
  let entry := (reg.reads k).getD { readers := 0, epoch := 0 }
  (entry.epoch, { reg with
    reads := update reg.reads k
      (some { entry with readers := entry.readers + 1 }) })

def isPoisoned (reg : FillRegistry key tx bytes) (k : key) : Bool :=
  match reg.claims k with
  | some .poisoned => true
  | _ => false

def isStale (reg : FillRegistry key tx bytes) (k : key) (ticket : Nat) :
    Bool :=
  match reg.reads k with
  | none => true
  | some entry => entry.epoch != ticket

/-- Hand `data` to the waiters and park it in the claim.  The sender the value
goes to, if the claim is still fetching. -/
def publish (reg : FillRegistry key tx bytes) (k : key) (data : bytes) :
    Option tx × FillRegistry key tx bytes :=
  match reg.claims k with
  | some (.fetching sender) =>
    (some sender, { reg with
      claims := update reg.claims k (some (.filled data)) })
  | _ => (none, reg)

def release (reg : FillRegistry key tx bytes) (k : key) :
    FillRegistry key tx bytes :=
  { reg with claims := update reg.claims k none }

def dropTicket (reg : FillRegistry key tx bytes) (k : key) :
    FillRegistry key tx bytes :=
  match reg.reads k with
  | none => reg
  | some entry =>
    { reg with
      reads := update reg.reads k
        (if entry.readers - 1 = 0 then none
         else some { entry with readers := entry.readers - 1 }) }

variable (reg : FillRegistry key tx bytes)

omit [DecidableEq key] in
theorem isPoisoned_iff (k : key) :
    reg.isPoisoned k = true <-> reg.claims k = some .poisoned := by
  unfold isPoisoned
  split
  · rename_i hclaim
    simp [hclaim]
  · rename_i hother
    constructor
    · intro hfalse
      cases hfalse
    · intro hclaim
      exact absurd hclaim hother

omit [DecidableEq key] in
theorem isStale_iff (k : key) (ticket : Nat) :
    reg.isStale k ticket = true <->
      forall entry, reg.reads k = some entry -> entry.epoch ≠ ticket := by
  unfold isStale
  cases reg.reads k with
  | none => simp
  | some entry => simp

theorem claims_dropTicket (k : key) :
    (reg.dropTicket k).claims = reg.claims := by
  unfold dropTicket
  split
  · rfl
  · rfl

theorem reads_beginRead (k : key) :
    (reg.beginRead k).2.reads k =
      some { readers := ((reg.reads k).getD ⟨0, 0⟩).readers + 1,
             epoch := ((reg.reads k).getD ⟨0, 0⟩).epoch } :=
  update_self k _ reg.reads

theorem reads_publish (k : key) (data : bytes) :
    (reg.publish k data).2.reads = reg.reads := by
  unfold publish
  split
  · rfl
  · rfl

theorem claims_publish (k : key) (data : bytes) :
    ((reg.publish k data).2.claims k = none -> reg.claims k = none) ∧
      (reg.claims k = some .poisoned ->
        (reg.publish k data).2.claims k = some .poisoned) := by
  unfold publish
  split
  · rename_i hclaim
    simp [hclaim]
  · exact ⟨id, id⟩

variable {reg : FillRegistry key tx bytes} {k : key}

theorem poisonClaim_of_free (h : reg.claims k = none)
    : reg.poisonClaim k = reg := by
  unfold poisonClaim
  rw [h, Option.map_none, update_eq_self_iff.mpr h.symm]

theorem poisonClaim_of_claimed {state : FillState tx bytes}
    (h : reg.claims k = some state) :
    reg.poisonClaim k = { reg with
      claims := update reg.claims k (some .poisoned) } := by
  unfold poisonClaim
  rw [h, Option.map_some]

theorem reads_dropTicket {entry : ReadEpoch} (h : reg.reads k = some entry) :
    (reg.dropTicket k).reads k =
      if entry.readers - 1 = 0 then none
      else some { entry with readers := entry.readers - 1 } := by
  unfold dropTicket
  rw [h]
  exact update_self k _ reg.reads

theorem reads_dropTicket_of_ne {k other : key} (h : other ≠ k) :
    (reg.dropTicket k).reads other = reg.reads other := by
  unfold dropTicket
  split
  · rfl
  · exact update_of_ne h _ reg.reads

theorem reads_poisonReads {entry : ReadEpoch} (h : reg.reads k = some entry) :
    (reg.poisonReads k).reads k =
      some { entry with epoch := entry.epoch + 1 } := by
  unfold poisonReads
  rw [h]
  exact update_self k _ reg.reads

end FillRegistry

/-!
## The fenced insert
-/

inductive DiskTier where
  | foyer
  | store
deriving DecidableEq, Repr

def DiskTier.putChunk (tier : DiskTier) (held : Option chunk) (new : chunk) :
    Option chunk :=
  match tier with
  | .foyer => some new
  | .store =>
    match held with
    | some old => some old
    | none => some new

/-- The store's put suspends once it has the key in its index, until the slot is
written.  foyer's insert does not suspend, nor does a put of a key that is
held. -/
def DiskTier.putAwaits (tier : DiskTier) (held : Option chunk) : Bool :=
  match tier, held with
  | .store, none => true
  | _, _ => false

/-- Where a claim's holder is: the two checks before the tier write, the write
and the wait for it, the two checks after it, undoing the write, and letting go
of the claim and of the ticket. -/
inductive InsertStage where
  | checkClaim
  | checkRead
  | write
  | writing
  | recheckClaim
  | recheckRead
  | undo
  | release
  | dropTicket
deriving DecidableEq, Repr

/-- A fill past its claim: the ticket it is fenced by, if its read began before
the claim, and the entry it inserts. -/
structure Fill (chunk : Type) where
  read : Option Nat
  cached : chunk
  stage : InsertStage

/-- The next section of a fill, on the registry and on what the tier holds
under its key; `wrote` is whether a tier write succeeds.  No fill is left once
the ticket is dropped. -/
def Fill.advance [DecidableEq key] (tier : DiskTier)
    (reg : FillRegistry key tx bytes) (k : key) (held : Option chunk)
    (wrote : Bool) (fill : Fill chunk) :
    FillRegistry key tx bytes × Option chunk × Option (Fill chunk) :=
  let moveTo (stage : InsertStage) := some { fill with stage := stage }
  let stale := match fill.read with
    | some ticket => reg.isStale k ticket
    | none => false
  match fill.stage with
  | .checkClaim =>
    (reg, held, moveTo (if reg.isPoisoned k then .release else .checkRead))
  | .checkRead => (reg, held, moveTo (if stale then .release else .write))
  | .write =>
    if wrote then
      (reg, tier.putChunk held fill.cached,
        moveTo (if tier.putAwaits held then .writing else .recheckClaim))
    else (reg, held, moveTo .release)
  | .writing =>
    if wrote then (reg, held, moveTo .recheckClaim)
    else (reg, none, moveTo .release)
  | .recheckClaim =>
    (reg, held, moveTo (if reg.isPoisoned k then .undo else .recheckRead))
  | .recheckRead => (reg, held, moveTo (if stale then .undo else .release))
  | .undo => (reg, none, moveTo .release)
  | .release => (reg.release k, held, moveTo .dropTicket)
  | .dropTicket =>
    match fill.read with
    | some _ => (reg.dropTicket k, held, none)
    | none => (reg, held, none)

def Fill.MayWrite (fill : Fill chunk) : Prop :=
  fill.stage = .checkClaim ∨ fill.stage = .checkRead ∨ fill.stage = .write

variable {tier : DiskTier}

theorem DiskTier.putChunk_some {held : Option chunk} {new left : chunk}
    (h : tier.putChunk held new = some left) :
    held = some left ∨ new = left := by
  unfold putChunk at h
  cases tier with
  | foyer => exact Or.inr (Option.some.inj h)
  | store =>
    cases held with
    | none => exact Or.inr (Option.some.inj h)
    | some old => exact Or.inl h

theorem Fill.held_advance [DecidableEq key]
    {reg reg' : FillRegistry key tx bytes} {k : key} {held held' : Option chunk}
    {wrote : Bool} {fill : Fill chunk} {next : Option (Fill chunk)}
    {left : chunk}
    (h : fill.advance tier reg k held wrote = (reg', held', next))
    (hleft : held' = some left) :
    held = some left ∨ (fill.MayWrite ∧ fill.cached = left) := by
  unfold advance at h
  rcases fill with ⟨read, cached, stage⟩
  cases stage with
  | write =>
    dsimp only at h
    split at h
    · cases h
      rcases DiskTier.putChunk_some hleft with hold | hnew
      · exact Or.inl hold
      · exact Or.inr ⟨Or.inr (Or.inr rfl), hnew⟩
    · cases h
      exact Or.inl hleft
  | writing =>
    dsimp only at h
    split at h
    · cases h
      exact Or.inl hleft
    · cases h
      cases hleft
  | undo =>
    cases h
    cases hleft
  | dropTicket =>
    dsimp only at h
    split at h
    · cases h
      exact Or.inl hleft
    · cases h
      exact Or.inl hleft
  | checkClaim | checkRead | recheckClaim | recheckRead | release =>
    cases h
    exact Or.inl hleft

theorem Fill.next_advance [DecidableEq key]
    {reg reg' : FillRegistry key tx bytes} {k : key} {held held' : Option chunk}
    {wrote : Bool} {fill next : Fill chunk}
    (h : fill.advance tier reg k held wrote = (reg', held', some next)) :
    next.cached = fill.cached ∧ (next.MayWrite -> fill.MayWrite) := by
  unfold advance at h
  rcases fill with ⟨read, cached, stage⟩
  cases stage with
  | write =>
    dsimp only at h
    split at h
    · cases h
      exact ⟨rfl, fun _ => Or.inr (Or.inr rfl)⟩
    · cases h
      simp [MayWrite]
  | writing =>
    dsimp only at h
    split at h
    · cases h
      simp [MayWrite]
    · cases h
      simp [MayWrite]
  | dropTicket =>
    dsimp only at h
    split at h
    · cases h
    · cases h
  | checkClaim =>
    cases h
    exact ⟨rfl, fun _ => Or.inl rfl⟩
  | checkRead =>
    cases h
    exact ⟨rfl, fun _ => Or.inr (Or.inl rfl)⟩
  | recheckClaim | recheckRead =>
    cases h
    constructor
    · rfl
    · intro hmay
      unfold MayWrite at hmay
      dsimp only at hmay
      split_ifs at hmay <;> simp at hmay
  | undo | release =>
    cases h
    simp [MayWrite]

end Daemon
end Pacer
