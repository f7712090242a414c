import Mathlib.Data.List.Basic
import Pacer.Daemon.FillRegistry
import Pacer.Foundation.Table
import Pacer.Foundation.Transition

/-!
# Single flight

Any number of requests claim any keys of one registry, lead, follow and let go,
while invalidations poison keys.  Every lock section is one step; a poison is two
of them.  A guard is dropped at any time, whether its fill is done or its future
is cut off, and the ticket it held goes in a section of its own.

Requests, guards, channels and tickets are named by the moment they came about,
so that the name of a claim also says when it was made.  A request's claim comes
after a poison if it comes after the section that fences the key's claim.
-/

namespace Pacer
namespace Daemon

open Foundation Function
open Foundation.Transition
open Foundation.Table

namespace SingleFlight

structure Reading (bytes : Type) where
  data : bytes
  began : Nat

structure Ticket (key : Type) where
  taken : Nat
  key : key
  epoch : Nat
deriving DecidableEq

/-- A live guard: when the backend read made under it began, and the ticket it is
fenced by. -/
structure Guard (key : Type) where
  key : key
  reading : Option Nat
  read : Option Nat

/-- A call of `claim_fill`, what it was told, and what a follower woke up with. -/
structure Ask (key bytes : Type) where
  key : key
  answer : FillClaim Nat (Reading bytes)
  outcome : Option (Option (Reading bytes))

/-- `sent` is what the channels carry.  `lost` marks the channels whose guard was
dropped or poisoned before anything was sent, and `poisons` keeps the moments of
a key's poisons. -/
structure State (key bytes : Type) where
  now : Nat
  reg : FillRegistry key Nat (Reading bytes)
  guards : Nat -> Option (Guard key)
  tickets : List (Ticket key)
  attached : Nat -> Bool
  poisoning : List key
  asks : Nat -> Option (Ask key bytes)
  sent : Nat -> Option (Reading bytes)
  lost : Nat -> Bool
  poisons : key -> List Nat

inductive Event (key bytes : Type) where
  | claimFill (k : key)
  | forFill (k : key)
  | startRead (g : Nat)
  | publish (g : Nat) (data : bytes)
  | dropGuard (g : Nat)
  | poisonClaim (k : key)
  | poisonReads (k : key)
  | beginRead (k : key)
  | fencedBy (g : Nat) (ticket : Ticket key)
  | dropTicket (ticket : Ticket key)
  | receive (r : Nat)

variable {key bytes : Type} [DecidableEq key]

namespace State

def start : State key bytes where
  now := 0
  reg := FillRegistry.new
  guards := fun _ => none
  tickets := []
  attached := fun _ => false
  poisoning := []
  asks := fun _ => none
  sent := fun _ => none
  lost := fun _ => false
  poisons := fun _ => []

def tick (s : State key bytes) : State key bytes := { s with now := s.now + 1 }

def setReg (s : State key bytes)
    (reg : FillRegistry key Nat (Reading bytes)) : State key bytes :=
  { s with reg := reg }

def setGuard (s : State key bytes) (g : Nat) (guard : Option (Guard key)) :
    State key bytes :=
  { s with guards := update s.guards g guard }

def setAsk (s : State key bytes) (r : Nat) (ask : Ask key bytes) :
    State key bytes :=
  { s with asks := update s.asks r (some ask) }

def send (s : State key bytes) (ch : Nat) (v : Reading bytes) :
    State key bytes :=
  { s with sent := update s.sent ch (some v) }

def lose (s : State key bytes) (ch : Nat) : State key bytes :=
  { s with lost := update s.lost ch true }

def attach (s : State key bytes) (ticket : Nat) (isHeld : Bool) :
    State key bytes :=
  { s with attached := update s.attached ticket isHeld }

end State

/-!
## Steps
-/

/-- Ask for a key: lead, follow the channel of who leads, take what is parked,
or be told that nothing will be published. -/
def claimFill (t : Nat) (s : State key bytes) (k : key) : State key bytes :=
  match s.reg.claimFill k t with
  | (.lead, reg) =>
    ((s.setReg reg).setAsk t ⟨k, .lead, none⟩).setGuard t
      (some ⟨k, none, none⟩)
  | (answer, reg) => (s.setReg reg).setAsk t ⟨k, answer, none⟩

def forFill (t : Nat) (s : State key bytes) (k : key) : State key bytes :=
  match s.reg.claimExclusive k with
  | none => s
  | some reg => (s.setReg reg).setGuard t (some ⟨k, none, none⟩)

def startRead (t : Nat) (s : State key bytes) (g : Nat) :
    Option (State key bytes) :=
  match s.guards g with
  | none => none
  | some guard =>
    some (s.setGuard g (some { guard with reading := some t }))

def publish (s : State key bytes) (g : Nat) (data : bytes) :
    Option (State key bytes) :=
  match s.guards g with
  | none => none
  | some guard =>
    match guard.reading with
    | none => none
    | some began =>
      match s.reg.publish guard.key ⟨data, began⟩ with
      | (some ch, reg) => some ((s.setReg reg).send ch ⟨data, began⟩)
      | (none, reg) => some (s.setReg reg)

def detach (s : State key bytes) (guard : Guard key) : State key bytes :=
  { s with attached := match guard.read with
      | none => s.attached
      | some ticket => update s.attached ticket false }

def dropGuard (s : State key bytes) (g : Nat) : Option (State key bytes) :=
  match s.guards g with
  | none => none
  | some guard =>
    let released := ((detach s guard).setReg
      (s.reg.release guard.key)).setGuard g none
    match s.sent g with
    | none => some (released.lose g)
    | some _ => some released

def poisonClaim (t : Nat) (s : State key bytes) (k : key) : State key bytes :=
  let poisoned := { s.setReg (s.reg.poisonClaim k) with
    poisons := update s.poisons k (t :: s.poisons k)
    poisoning := k :: s.poisoning }
  match s.reg.claims k with
  | some (.fetching ch) => poisoned.lose ch
  | _ => poisoned

def poisonReads (s : State key bytes) (k : key) : Option (State key bytes) :=
  if k ∈ s.poisoning then
    some { s.setReg (s.reg.poisonReads k) with
      poisoning := s.poisoning.erase k }
  else none

def beginRead (t : Nat) (s : State key bytes) (k : key) : State key bytes :=
  { s.setReg (s.reg.beginRead k).2 with
    tickets := ⟨t, k, (s.reg.beginRead k).1⟩ :: s.tickets }

def fencedBy (s : State key bytes) (g : Nat) (ticket : Ticket key) :
    Option (State key bytes) :=
  match s.guards g with
  | none => none
  | some guard =>
    if ticket ∈ s.tickets ∧ s.attached ticket.taken = false then
      some (((detach s guard).attach ticket.taken true).setGuard g
        (some { guard with read := some ticket.taken }))
    else none

def dropTicket (s : State key bytes) (ticket : Ticket key) :
    Option (State key bytes) :=
  if ticket ∈ s.tickets ∧ s.attached ticket.taken = false then
    some { s.setReg (s.reg.dropTicket ticket.key) with
      tickets := s.tickets.erase ticket }
  else none

def isOpen (s : State key bytes) (k : key) (ch : Nat) : Bool :=
  match s.reg.claims k with
  | some (.fetching sender) => sender == ch
  | _ => false

def receive (s : State key bytes) (r : Nat) : Option (State key bytes) :=
  match s.asks r with
  | none => none
  | some ask =>
    match ask.answer, ask.outcome with
    | .follow ch, none =>
      match s.sent ch with
      | some v => some (s.setAsk r { ask with outcome := some (some v) })
      | none =>
        if isOpen s ask.key ch then none
        else some (s.setAsk r { ask with outcome := some none })
    | _, _ => none

def act (t : Nat) (s : State key bytes) :
    Event key bytes -> Option (State key bytes)
  | .claimFill k => some (claimFill t s k)
  | .forFill k => some (forFill t s k)
  | .startRead g => startRead t s g
  | .publish g data => publish s g data
  | .dropGuard g => dropGuard s g
  | .poisonClaim k => some (poisonClaim t s k)
  | .poisonReads k => poisonReads s k
  | .beginRead k => some (beginRead t s k)
  | .fencedBy g ticket => fencedBy s g ticket
  | .dropTicket ticket => dropTicket s ticket
  | .receive r => receive s r

def step (s : State key bytes) (e : Event key bytes) :
    Option (State key bytes) :=
  act s.now s.tick e

/-!
## What holds in every state
-/

def ticketsOf (tickets : List (Ticket key)) (k : key) : Nat :=
  tickets.countP fun ticket => decide (ticket.key = k)

structure Counted (reads : key -> Option ReadEpoch)
    (tickets : List (Ticket key)) (k : key) : Prop where
  entry : forall entry, reads k = some entry ->
    0 < entry.readers ∧ entry.readers = ticketsOf tickets k
  absent : reads k = none -> ticketsOf tickets k = 0

def Ask.Got (ask : Ask key bytes) (v : Reading bytes) : Prop :=
  ask.answer = .ready v ∨ ask.outcome = some (some v)

/-- The claimed keys are those of the live guards, one each; the entries count
the live tickets; who asked after a poison has no bytes of a read from before it;
and a follower of a guard that was dropped or poisoned before it published has
none, and wakes up. -/
structure Coalesced (s : State key bytes) : Prop where
  claimed : forall k, (exists state, s.reg.claims k = some state) <->
    exists g guard, s.guards g = some guard ∧ guard.key = k
  alone : forall g other guard guard', s.guards g = some guard ->
    s.guards other = some guard' -> guard.key = guard'.key -> g = other
  counted : forall k, Counted s.reg.reads s.tickets k
  fresh : forall r ask v, s.asks r = some ask -> ask.Got v ->
    forall p, p ∈ s.poisons ask.key -> p < r -> p < v.began
  released : forall r ask ch, s.asks r = some ask ->
    ask.answer = .follow ch -> s.lost ch = true ->
      (forall v, ask.outcome ≠ some (some v)) ∧
        (ask.outcome = none -> exists s' ask', step s (.receive r) = some s' ∧
          s'.asks r = some ask' ∧ ask'.outcome = some none)

structure Holder (guards : Nat -> Option (Guard key)) (k : key) (g : Nat) :
    Prop where
  holds : exists guard, guards g = some guard ∧ guard.key = k
  only : forall other guard, guards other = some guard -> guard.key = k ->
    other = g

/-- What the holder `g` of a claim has of the key's poisons behind it. -/
def ClaimOk (sent : Nat -> Option (Reading bytes)) (poisons : List Nat)
    (g : Nat) : FillState Nat (Reading bytes) -> Prop
  | .fetching ch => ch = g ∧ sent g = none ∧ forall p, p ∈ poisons -> p < g
  | .filled v => forall p, p ∈ poisons -> p < v.began
  | .exclusive => True
  | .poisoned => True

structure GuardOk (now : Nat)
    (claims : key -> Option (FillState Nat (Reading bytes))) (g : Nat)
    (guard : Guard key) : Prop where
  before : g < now
  claimed : exists state, claims guard.key = some state
  reading : forall began, guard.reading = some began -> g < began

structure AskOk (now : Nat) (poisons : key -> List Nat)
    (sent : Nat -> Option (Reading bytes)) (r : Nat) (ask : Ask key bytes) :
    Prop where
  before : r < now
  follow : forall ch, ask.answer = .follow ch ->
    forall p, p ∈ poisons ask.key -> p < r -> p < ch
  ready : forall v, ask.answer = .ready v ->
    forall p, p ∈ poisons ask.key -> p < r -> p < v.began
  outcome : forall v, ask.outcome = some (some v) ->
    exists ch, ask.answer = .follow ch ∧ sent ch = some v

structure Sound (s : State key bytes) : Prop where
  guards : forall g guard, s.guards g = some guard ->
    GuardOk s.now s.reg.claims g guard
  holder : forall k state, s.reg.claims k = some state ->
    exists g, Holder s.guards k g ∧ ClaimOk s.sent (s.poisons k) g state
  sent : forall ch v, s.sent ch = some v ->
    ch < s.now ∧ ch < v.began ∧ s.lost ch = false
  lost : forall ch, s.lost ch = true ->
    forall k, s.reg.claims k ≠ some (.fetching ch)
  lostBefore : forall ch, s.lost ch = true -> ch < s.now
  asks : forall r ask, s.asks r = some ask ->
    AskOk s.now s.poisons s.sent r ask
  poisons : forall k p, p ∈ s.poisons k -> p < s.now
  counted : forall k, Counted s.reg.reads s.tickets k

structure Fresh (t : Nat) (s : State key bytes) : Prop where
  before : t < s.now
  guards : forall g guard, s.guards g = some guard -> g < t
  sent : s.sent t = none
  lost : s.lost t = false
  asks : forall r ask, s.asks r = some ask -> r < t
  poisons : forall k p, p ∈ s.poisons k -> p < t

variable {s s' : State key bytes} {reg : FillRegistry key Nat (Reading bytes)}
  {tickets : List (Ticket key)} {k : key} {ticket : Ticket key}
  {guard : Guard key} {g t ch : Nat}

omit [DecidableEq key] in
theorem Fresh.setReg (h : Fresh t s)
    (reg : FillRegistry key Nat (Reading bytes)) : Fresh t (s.setReg reg) :=
  ⟨h.before, h.guards, h.sent, h.lost, h.asks, h.poisons⟩

/-!
## Parts of the invariant
-/

variable {guards : Nat -> Option (Guard key)} {r : Nat}

omit [DecidableEq key] in
theorem Holder.update {g other : Nat} {new : Option (Guard key)}
    (h : Holder guards k g) (hne : g ≠ other)
    (hnew : forall guard, new = some guard -> guard.key ≠ k) :
    Holder (update guards other new) k g := by
  constructor
  · rw [update_of_ne hne]
    exact h.holds
  · intro i guard hi hkey
    rcases update_cases hi with ⟨_, heq⟩ | ⟨_, hold⟩
    · exact absurd hkey (hnew guard heq)
    · exact h.only i guard hold hkey

omit [DecidableEq key] in
theorem Holder.rekey {g i : Nat} {old new : Guard key} (h : Holder guards k g)
    (hold : guards i = some old) (hkey : new.key = old.key) :
    Holder (Function.update guards i (some new)) k g := by
  constructor
  · rcases h.holds with ⟨guard, hguard, hk⟩
    by_cases hg : g = i
    · rw [hg, hold] at hguard
      cases hguard
      rw [hg, update_self]
      exact ⟨new, rfl, hkey.trans hk⟩
    · rw [update_of_ne hg]
      exact ⟨guard, hguard, hk⟩
  · intro j guard hj hk
    rcases update_cases hj with ⟨hji, heq⟩ | ⟨_, hj⟩
    · cases heq
      rw [hji]
      exact h.only i old hold (hkey.symm.trans hk)
    · exact h.only j guard hj hk

omit [DecidableEq key] in
theorem Holder.key_eq (h : Holder guards k g) (hguard : guards g = some guard)
    : guard.key = k := by
  rcases h.holds with ⟨held, hheld, hk⟩
  rw [hguard] at hheld
  cases hheld
  exact hk

variable {sent : Nat -> Option (Reading bytes)}

theorem ClaimOk.send {poisons : List Nat} {g ch : Nat} {v : Reading bytes}
    {state : FillState Nat (Reading bytes)} (h : ClaimOk sent poisons g state)
    (hne : g ≠ ch) :
    ClaimOk (update sent ch (some v)) poisons g state := by
  cases state with
  | fetching sender =>
    rcases h with ⟨hsender, hsent, hpoisons⟩
    constructor
    · exact hsender
    · rw [update_of_ne hne]
      exact ⟨hsent, hpoisons⟩
  | filled data => exact h
  | exclusive => exact True.intro
  | poisoned => exact True.intro

theorem GuardOk.update {now : Nat}
    {claims : key -> Option (FillState Nat (Reading bytes))}
    (h : GuardOk now claims g guard) (k : key)
    (state : FillState Nat (Reading bytes)) :
    GuardOk now (update claims k (some state)) g guard where
  before := h.before
  claimed := by
    by_cases hk : guard.key = k
    · rw [hk, update_self]
      exact ⟨state, rfl⟩
    · rw [update_of_ne hk]
      exact h.claimed
  reading := h.reading

omit [DecidableEq key] in
theorem AskOk.later {now now' : Nat} {poisons poisons' : key -> List Nat}
    {sent' : Nat -> Option (Reading bytes)} {ask : Ask key bytes}
    (h : AskOk now poisons sent r ask) (hnow : now ≤ now')
    (hpoisons : forall k p, p ∈ poisons' k -> p < r -> p ∈ poisons k)
    (hsent : forall ch v, sent ch = some v -> sent' ch = some v) :
    AskOk now' poisons' sent' r ask where
  before := Nat.lt_of_lt_of_le h.before hnow
  follow := by
    intro ch hch p hp hr
    exact h.follow ch hch p (hpoisons ask.key p hp hr) hr
  ready := by
    intro v hv p hp hr
    exact h.ready v hv p (hpoisons ask.key p hp hr) hr
  outcome := by
    intro v hv
    rcases h.outcome v hv with ⟨ch, hch, hsome⟩
    exact ⟨ch, hch, hsent ch v hsome⟩

omit [DecidableEq key] in
theorem AskOk.alone {now r : Nat} {poisons : key -> List Nat}
    {answer : FillClaim Nat (Reading bytes)} (hbefore : r < now)
    (hfollow : forall ch, answer ≠ .follow ch)
    (hready : forall v, answer ≠ .ready v) :
    AskOk now poisons sent r ⟨k, answer, none⟩ where
  before := hbefore
  follow := fun ch hch => absurd hch (hfollow ch)
  ready := fun v hv => absurd hv (hready v)
  outcome := by
    intro v hv
    cases hv

/-!
## What a step keeps
-/

theorem Sound.start : Sound (State.start : State key bytes) := by
  constructor
  · intro g guard hg
    cases hg
  · intro k state hk
    cases hk
  · intro ch v hch
    cases hch
  · intro ch hch
    cases hch
  · intro ch hch
    cases hch
  · intro r ask hr
    cases hr
  · intro k p hp
    cases hp
  intro k
  constructor
  · intro entry hentry
    cases hentry
  · intro _
    rfl

section

variable (h : Sound s)

include h

theorem Sound.tick : Sound s.tick where
  guards := by
    intro g guard hg
    have hok := h.guards g guard hg
    exact { hok with before := Nat.lt_succ_of_lt hok.before }
  holder := h.holder
  sent := by
    intro ch v hch
    rcases h.sent ch v hch with ⟨hbefore, hrest⟩
    exact ⟨Nat.lt_succ_of_lt hbefore, hrest⟩
  lost := h.lost
  lostBefore := by
    intro ch hch
    exact Nat.lt_succ_of_lt (h.lostBefore ch hch)
  asks := by
    intro r ask hr
    exact (h.asks r ask hr).later (Nat.le_succ s.now) (fun _ _ hp _ => hp)
      (fun _ _ hv => hv)
  poisons := by
    intro k p hp
    exact Nat.lt_succ_of_lt (h.poisons k p hp)
  counted := h.counted

theorem Sound.fresh :
    Fresh s.now s.tick where
  before := Nat.lt_succ_self s.now
  guards := fun g guard hg => (h.guards g guard hg).before
  sent := by
    apply Option.eq_none_iff_forall_ne_some.mpr
    intro v hv
    exact Nat.lt_irrefl _ (h.sent s.now v hv).left
  lost := by
    apply Bool.eq_false_iff.mpr
    intro hlost
    exact Nat.lt_irrefl _ (h.lostBefore s.now hlost)
  asks := fun r ask hr => (h.asks r ask hr).before
  poisons := h.poisons

theorem Sound.setAsk {ask : Ask key bytes}
    (hask : AskOk s.now s.poisons s.sent r ask) :
    Sound (s.setAsk r ask) where
  guards := h.guards
  holder := h.holder
  sent := h.sent
  lost := h.lost
  lostBefore := h.lostBefore
  asks := by
    apply forall_update h.asks
    intro new hnew
    cases hnew
    exact hask
  poisons := h.poisons
  counted := h.counted

theorem Sound.claim {state : FillState Nat (Reading bytes)} (hfresh : Fresh t s)
    (hfree : s.reg.claims k = none)
    (hstate : ClaimOk s.sent (s.poisons k) t state) :
    Sound ((s.setReg { s.reg with
      claims := update s.reg.claims k (some state) }).setGuard t
        (some ⟨k, none, none⟩)) where
  guards := by
    apply forall_update
    · intro g guard hg
      exact (h.guards g guard hg).update k state
    · intro guard hguard
      cases hguard
      constructor
      · exact hfresh.before
      · exact ⟨state, update_self ..⟩
      · intro began hbegan
        cases hbegan
  holder := by
    intro k' old hold
    rcases update_cases hold with ⟨hk, hnew⟩ | ⟨hk, hold⟩
    · cases hnew
      rw [hk]
      have hholder : Holder (update s.guards t
          (some ⟨k, none, none⟩)) k t := by
        constructor
        · exact ⟨_, update_self .., rfl⟩
        · intro g guard hg hkey
          rcases update_cases hg with ⟨hgt, _⟩ | ⟨_, hg⟩
          · exact hgt
          · rcases (h.guards g guard hg).claimed with ⟨taken, htaken⟩
            rw [hkey, hfree] at htaken
            cases htaken
      exact ⟨t, hholder, hstate⟩
    · rcases h.holder k' old hold with ⟨g, hholder, hok⟩
      have hgt : g ≠ t := by
        intro hgt
        rcases hholder.holds with ⟨guard, hg, _⟩
        exact Nat.ne_of_lt (hfresh.guards g guard hg) hgt
      have hother : forall guard, some (⟨k, none, none⟩ : Guard key) =
          some guard -> guard.key ≠ k' := by
        intro guard hguard
        cases hguard
        exact Ne.symm hk
      exact ⟨g, hholder.update hgt hother, hok⟩
  sent := h.sent
  lost := by
    intro ch hch k' hk'
    rcases update_cases hk' with ⟨_, hnew⟩ | ⟨_, hold⟩
    · cases hnew
      have hlost : s.lost t = true := hstate.left ▸ hch
      rw [hfresh.lost] at hlost
      cases hlost
    · exact h.lost ch hch k' hold
  lostBefore := h.lostBefore
  asks := h.asks
  poisons := h.poisons
  counted := h.counted

theorem Sound.setGuard {old new : Guard key} (hold : s.guards g = some old)
    (hkey : new.key = old.key)
    (hreading : forall began, new.reading = some began -> g < began) :
    Sound (s.setGuard g (some new)) where
  guards := by
    apply forall_update h.guards
    intro guard hguard
    cases hguard
    have hok := h.guards g old hold
    constructor
    · exact hok.before
    · rw [hkey]
      exact hok.claimed
    · exact hreading
  holder := by
    intro k state hstate
    rcases h.holder k state hstate with ⟨i, hholder, hok⟩
    exact ⟨i, hholder.rekey hold hkey, hok⟩
  sent := h.sent
  lost := h.lost
  lostBefore := h.lostBefore
  asks := h.asks
  poisons := h.poisons
  counted := h.counted

theorem Sound.lose (hbefore : ch < s.now) (hsent : s.sent ch = none)
    (hclosed : forall k, s.reg.claims k ≠ some (.fetching ch)) :
    Sound (s.lose ch) where
  guards := h.guards
  holder := h.holder
  sent := by
    intro i v hi
    have hne : i ≠ ch := by
      intro heq
      have hnone : s.sent i = none := heq ▸ hsent
      rw [show s.sent i = some v from hi] at hnone
      cases hnone
    show _ ∧ _ ∧ update s.lost ch true i = false
    rw [update_of_ne hne]
    exact h.sent i v hi
  lost := by
    intro i hi
    by_cases heq : i = ch
    · rw [heq]
      exact hclosed
    · have hold : update s.lost ch true i = true := hi
      rw [update_of_ne heq] at hold
      exact h.lost i hold
  lostBefore := by
    intro i hi
    by_cases heq : i = ch
    · rw [heq]
      exact hbefore
    · have hold : update s.lost ch true i = true := hi
      rw [update_of_ne heq] at hold
      exact h.lostBefore i hold
  asks := h.asks
  poisons := h.poisons
  counted := h.counted

theorem Sound.send {v : Reading bytes} (hbefore : ch < s.now)
    (hbegan : ch < v.began) (hlost : s.lost ch = false)
    (hsent : s.sent ch = none)
    (hclosed : forall k, s.reg.claims k ≠ some (.fetching ch)) :
    Sound (s.send ch v) where
  guards := h.guards
  holder := by
    intro k state hstate
    rcases h.holder k state hstate with ⟨g, hholder, hok⟩
    cases state with
    | fetching sender =>
      have hne : g ≠ ch := by
        intro heq
        rw [hok.left, heq] at hstate
        exact hclosed k hstate
      exact ⟨g, hholder, hok.send hne⟩
    | filled data | exclusive | poisoned => exact ⟨g, hholder, hok⟩
  sent := by
    apply forall_update h.sent
    intro new hnew
    cases hnew
    exact ⟨hbefore, hbegan, hlost⟩
  lost := h.lost
  lostBefore := h.lostBefore
  asks := by
    intro r ask hr
    apply (h.asks r ask hr).later (Nat.le_refl _) (fun _ _ hp _ => hp)
    intro i old hold
    have hne : i ≠ ch := by
      intro heq
      rw [heq, hsent] at hold
      cases hold
    show update s.sent ch (some v) i = some old
    rw [update_of_ne hne]
    exact hold
  poisons := h.poisons
  counted := h.counted

theorem Sound.setState {old new : FillState Nat (Reading bytes)}
    (hclaim : s.reg.claims k = some old)
    (hstate : forall g, Holder s.guards k g ->
      ClaimOk s.sent (s.poisons k) g old ->
      ClaimOk s.sent (s.poisons k) g new) (hnew : forall ch, new ≠ .fetching ch)
    :
    Sound (s.setReg { s.reg with
      claims := update s.reg.claims k (some new) }) where
  guards := by
    intro g guard hg
    exact (h.guards g guard hg).update k new
  holder := by
    intro k' state hk'
    rcases update_cases hk' with ⟨hk, heq⟩ | ⟨_, hold⟩
    · cases heq
      rw [hk]
      rcases h.holder k old hclaim with ⟨g, hholder, hok⟩
      exact ⟨g, hholder, hstate g hholder hok⟩
    · exact h.holder k' state hold
  sent := h.sent
  lost := by
    intro ch hch k' hk'
    rcases update_cases hk' with ⟨_, heq⟩ | ⟨_, hold⟩
    · exact hnew ch (Option.some.inj heq)
    · exact h.lost ch hch k' hold
  lostBefore := h.lostBefore
  asks := h.asks
  poisons := h.poisons
  counted := h.counted

theorem Sound.fetching (hclaim : s.reg.claims k = some (.fetching ch)) :
    Holder s.guards k ch ∧ s.sent ch = none ∧
      (forall p, p ∈ s.poisons k -> p < ch) ∧
      forall k', s.reg.claims k' = some (.fetching ch) -> k' = k := by
  have hheld : forall k', s.reg.claims k' = some (.fetching ch) ->
      Holder s.guards k' ch ∧ s.sent ch = none ∧
        forall p, p ∈ s.poisons k' -> p < ch := by
    intro k' hk'
    rcases h.holder k' _ hk' with ⟨g, hholder, hg, hrest⟩
    cases hg
    exact ⟨hholder, hrest⟩
  rcases hheld k hclaim with ⟨hholder, hsent, hpoisons⟩
  constructor
  · exact hholder
  · constructor
    · exact hsent
    · constructor
      · exact hpoisons
      · intro k' hk'
        rcases hholder.holds with ⟨guard, hguard, hk⟩
        exact ((hheld k' hk').left.key_eq hguard).symm.trans hk

theorem Sound.closed {new : FillState Nat (Reading bytes)}
    (hclaim : s.reg.claims k = some (.fetching ch)) (hnew : new ≠ .fetching ch)
    (k' : key) :
    update s.reg.claims k (some new) k' ≠ some (.fetching ch) := by
  intro hk'
  rcases update_cases hk' with ⟨_, heq⟩ | ⟨hne, hold⟩
  · exact hnew (Option.some.inj heq)
  · exact hne ((h.fetching hclaim).right.right.right k' hold)

end

/-!
## One lemma for each event
-/

section

variable (h : Sound s)

include h

theorem sound_claimFill (hfresh : Fresh t s) (k : key)
    : Sound (claimFill t s k) := by
  unfold claimFill FillRegistry.claimFill
  cases hclaim : s.reg.claims k with
  | none =>
    have hstate : ClaimOk s.sent (s.poisons k) t (.fetching t) :=
      ⟨rfl, hfresh.sent, hfresh.poisons k⟩
    apply (h.claim hfresh hclaim hstate).setAsk
    exact AskOk.alone hfresh.before nofun nofun
  | some state =>
    cases state with
    | fetching ch =>
      apply Sound.setAsk h
      constructor
      · exact hfresh.before
      · intro other hother p hp _
        cases hother
        exact (h.fetching hclaim).right.right.left p hp
      · intro v hv
        cases hv
      · intro v hv
        cases hv
    | filled v =>
      apply Sound.setAsk h
      constructor
      · exact hfresh.before
      · intro ch hch
        cases hch
      · intro other hother p hp _
        cases hother
        rcases h.holder k _ hclaim with ⟨g, _, hok⟩
        exact hok p hp
      · intro w hw
        cases hw
    | exclusive | poisoned =>
      exact h.setAsk (AskOk.alone hfresh.before nofun nofun)

theorem sound_forFill (hfresh : Fresh t s) (k : key)
    : Sound (forFill t s k) := by
  unfold forFill FillRegistry.claimExclusive
  cases hclaim : s.reg.claims k with
  | none => exact h.claim hfresh hclaim True.intro
  | some state => exact h

theorem sound_startRead {t g : Nat} (hfresh : Fresh t s)
    (hstep : startRead t s g = some s') : Sound s' := by
  unfold startRead at hstep
  cases hg : s.guards g with
  | none =>
    rw [hg] at hstep
    cases hstep
  | some guard =>
    rw [hg] at hstep
    cases hstep
    have hlater : forall began, some t = some began -> g < began := by
      intro began hbegan
      cases hbegan
      exact hfresh.guards g guard hg
    exact h.setGuard hg (Eq.refl guard.key) hlater

theorem Sound.publish {began : Nat} {data : bytes}
    (hg : s.guards g = some guard) (hreading : guard.reading = some began)
    (hclaim : s.reg.claims guard.key = some (.fetching ch)) :
    Sound ((s.setReg { s.reg with
      claims := update s.reg.claims guard.key
        (some (.filled ⟨data, began⟩)) }).send ch ⟨data, began⟩) := by
  rcases h.fetching hclaim with ⟨hholder, hsent, hpoisons, _⟩
  have hch : g = ch := hholder.only g guard hg rfl
  have hbegan : ch < began := hch ▸ (h.guards g guard hg).reading began hreading
  have hfilled : Sound (s.setReg { s.reg with
      claims := update s.reg.claims guard.key
        (some (.filled ⟨data, began⟩)) }) := by
    apply h.setState hclaim
    · intro i _ _ p hp
      exact Nat.lt_trans (hpoisons p hp) hbegan
    · intro other hother
      cases hother
  apply hfilled.send
  · exact hch ▸ (h.guards g guard hg).before
  · exact hbegan
  · apply Bool.eq_false_iff.mpr
    intro hlost
    exact h.lost ch hlost guard.key hclaim
  · exact hsent
  · apply h.closed hclaim
    intro heq
    cases heq

theorem sound_publish {data : bytes} (hstep : publish s g data = some s')
    : Sound s' := by
  unfold publish at hstep
  cases hg : s.guards g with
  | none =>
    rw [hg] at hstep
    cases hstep
  | some guard =>
    rw [hg] at hstep
    dsimp only at hstep
    cases hreading : guard.reading with
    | none =>
      rw [hreading] at hstep
      cases hstep
    | some began =>
      rw [hreading] at hstep
      unfold FillRegistry.publish at hstep
      dsimp only at hstep
      cases hclaim : s.reg.claims guard.key with
      | none =>
        rw [hclaim] at hstep
        cases hstep
        exact h
      | some state =>
        rw [hclaim] at hstep
        cases state with
        | fetching ch =>
          cases hstep
          exact h.publish hg hreading hclaim
        | filled v | exclusive | poisoned =>
          cases hstep
          exact h

theorem Sound.alone {g other : Nat} {guard guard' : Guard key}
    (hg : s.guards g = some guard) (hother : s.guards other = some guard')
    (hkey : guard.key = guard'.key) :
    g = other := by
  rcases (h.guards g guard hg).claimed with ⟨state, hstate⟩
  rcases h.holder guard.key state hstate with ⟨i, hholder, _⟩
  exact (hholder.only g guard hg rfl).trans
    (hholder.only other guard' hother hkey.symm).symm

theorem Sound.release (hg : s.guards g = some guard) :
    Sound ((s.setReg (s.reg.release guard.key)).setGuard g none) where
  guards := by
    intro i other hi
    rcases update_cases hi with ⟨_, hnone⟩ | ⟨hne, hi⟩
    · cases hnone
    have hok := h.guards i other hi
    have hkey : other.key ≠ guard.key := by
      intro hkey
      exact hne (h.alone hi hg hkey)
    constructor
    · exact hok.before
    · show exists state, update s.reg.claims guard.key none
        other.key = some state
      rw [update_of_ne hkey]
      exact hok.claimed
    · exact hok.reading
  holder := by
    intro k state hstate
    rcases update_cases hstate with ⟨_, hnone⟩ | ⟨hne, hold⟩
    · cases hnone
    rcases h.holder k state hold with ⟨i, hholder, hok⟩
    have hi : i ≠ g := by
      intro heq
      rw [heq] at hholder
      exact hne (hholder.key_eq hg).symm
    have hnone : forall other, (none : Option (Guard key)) = some other ->
        other.key ≠ k := by
      intro other hother
      cases hother
    exact ⟨i, hholder.update hi hnone, hok⟩
  sent := h.sent
  lost := by
    intro ch hch k hk
    rcases update_cases hk with ⟨_, hnone⟩ | ⟨_, hold⟩
    · cases hnone
    · exact h.lost ch hch k hold
  lostBefore := h.lostBefore
  asks := h.asks
  poisons := h.poisons
  counted := h.counted

theorem sound_detach (guard : Guard key) :
    Sound (detach s guard) :=
  ⟨h.guards, h.holder, h.sent, h.lost, h.lostBefore, h.asks, h.poisons,
    h.counted⟩

theorem sound_attach (ticket : Nat) (isHeld : Bool)
    : Sound (s.attach ticket isHeld) :=
  ⟨h.guards, h.holder, h.sent, h.lost, h.lostBefore, h.asks, h.poisons,
    h.counted⟩

theorem sound_dropGuard (hstep : dropGuard s g = some s')
    : Sound s' := by
  unfold dropGuard at hstep
  cases hg : s.guards g with
  | none =>
    rw [hg] at hstep
    cases hstep
  | some guard =>
    rw [hg] at hstep
    dsimp only at hstep
    have hreleased := (sound_detach h guard).release hg
    cases hsent : s.sent g with
    | some v =>
      rw [hsent] at hstep
      cases hstep
      exact hreleased
    | none =>
      rw [hsent] at hstep
      cases hstep
      apply hreleased.lose
      · exact (h.guards g guard hg).before
      · exact hsent
      · intro k hk
        rcases (hreleased.fetching hk).left.holds with ⟨other, hother, _⟩
        rcases update_cases hother with ⟨_, hnone⟩ | ⟨hne, _⟩
        · cases hnone
        · exact hne rfl

end

theorem mem_notePoison {poisons : key -> List Nat} {k k' : key} {t p : Nat}
    (h : p ∈ update poisons k (t :: poisons k) k') :
    p ∈ poisons k' ∨ p = t := by
  by_cases hk : k' = k
  · rw [hk, update_self] at h
    rw [hk]
    exact (List.mem_cons.mp h).symm
  · rw [update_of_ne hk] at h
    exact Or.inl h

theorem Sound.notePoison (h : Sound s) (hfresh : Fresh t s)
    (hclaim : forall state, s.reg.claims k = some state -> state = .poisoned) :
    Sound { s with
      poisons := update s.poisons k (t :: s.poisons k)
      poisoning := k :: s.poisoning } where
  guards := h.guards
  holder := by
    intro k' state hstate
    rcases h.holder k' state hstate with ⟨g, hholder, hok⟩
    by_cases hk : k' = k
    · have hstate' : state = .poisoned := hclaim state (hk ▸ hstate)
      rw [hstate']
      exact ⟨g, hholder, True.intro⟩
    · show exists g, Holder s.guards k' g ∧ ClaimOk s.sent
        (update s.poisons k (t :: s.poisons k) k') g state
      rw [update_of_ne hk]
      exact ⟨g, hholder, hok⟩
  sent := h.sent
  lost := h.lost
  lostBefore := h.lostBefore
  asks := by
    intro r ask hr
    apply (h.asks r ask hr).later (Nat.le_refl _)
    · intro k' p hp hpr
      rcases mem_notePoison hp with hold | hnew
      · exact hold
      · exact absurd (hnew ▸ hpr) (Nat.not_lt_of_gt (hfresh.asks r ask hr))
    · intro ch v hv
      exact hv
  poisons := by
    intro k' p hp
    rcases mem_notePoison hp with hold | hnew
    · exact h.poisons k' p hold
    · rw [hnew]
      exact hfresh.before
  counted := h.counted

theorem sound_poisonClaim (h : Sound s) (hfresh : Fresh t s) (k : key)
    : Sound (poisonClaim t s k) := by
  unfold poisonClaim
  cases hclaim : s.reg.claims k with
  | none =>
    rw [FillRegistry.poisonClaim_of_free hclaim]
    apply h.notePoison hfresh
    intro state hstate
    rw [hclaim] at hstate
    cases hstate
  | some state =>
    rw [FillRegistry.poisonClaim_of_claimed hclaim]
    have hpoisoned : Sound (s.setReg { s.reg with
        claims := update s.reg.claims k (some .poisoned) }) := by
      apply h.setState hclaim
      · intro g _ _
        exact True.intro
      · intro ch heq
        cases heq
    have hnoted := hpoisoned.notePoison (hfresh.setReg _) (by
      intro state' hstate'
      rcases update_cases hstate' with ⟨_, heq⟩ | ⟨hne, _⟩
      · exact (Option.some.inj heq).symm
      · exact absurd rfl hne)
    cases state with
    | fetching ch =>
      apply hnoted.lose
      · rcases (h.fetching hclaim).left.holds with ⟨guard, hguard, _⟩
        exact (h.guards ch guard hguard).before
      · exact (h.fetching hclaim).right.left
      · apply h.closed hclaim
        intro heq
        cases heq
    | filled v | exclusive | poisoned => exact hnoted

theorem Sound.setReads (h : Sound s)
    (hcounted : forall k, Counted reg.reads tickets k)
    (hclaims : reg.claims = s.reg.claims) (poisoning : List key) :
    Sound { s with
      reg := reg, tickets := tickets, poisoning := poisoning } where
  guards := hclaims.symm ▸ h.guards
  holder := hclaims.symm ▸ h.holder
  sent := h.sent
  lost := hclaims.symm ▸ h.lost
  lostBefore := h.lostBefore
  asks := h.asks
  poisons := h.poisons
  counted := hcounted

theorem ticketsOf_cons (ticket : Ticket key) (tickets : List (Ticket key))
    (k : key) :
    ticketsOf (ticket :: tickets) k =
      ticketsOf tickets k + if ticket.key = k then 1 else 0 := by
  unfold ticketsOf
  rw [List.countP_cons]
  simp

theorem ticketsOf_erase (h : ticket ∈ tickets) (k : key) :
    ticketsOf tickets k = ticketsOf (tickets.erase ticket) k +
      if ticket.key = k then 1 else 0 := by
  rw [← ticketsOf_cons]
  exact (List.perm_cons_erase h).countP_eq _

theorem Counted.of_eq {reads reads' : key -> Option ReadEpoch}
    {tickets tickets' : List (Ticket key)} (h : Counted reads tickets k)
    (hreads : reads' k = reads k)
    (htickets : ticketsOf tickets' k = ticketsOf tickets k) :
    Counted reads' tickets' k := by
  constructor
  · rw [hreads, htickets]
    exact h.entry
  · rw [hreads, htickets]
    exact h.absent

section

variable (h : forall k, Counted reg.reads tickets k)

include h

theorem counted_beginRead (t : Nat) (k other : key) :
    Counted (reg.beginRead k).2.reads
      (⟨t, k, (reg.beginRead k).1⟩ :: tickets) other := by
  by_cases hother : other = k
  · rw [hother]
    have hreads := reg.reads_beginRead k
    constructor
    · intro entry hentry
      rw [hreads] at hentry
      cases hentry
      rw [ticketsOf_cons, if_pos rfl]
      cases hold : reg.reads k with
      | none => simp [(h k).absent hold]
      | some old => simp [((h k).entry old hold).right]
    · intro hnone
      rw [hreads] at hnone
      cases hnone
  · apply (h other).of_eq
    · exact update_of_ne hother _ reg.reads
    · rw [ticketsOf_cons, if_neg (Ne.symm hother), Nat.add_zero]

theorem counted_dropTicket (hmem : ticket ∈ tickets) (other : key) :
    Counted (reg.dropTicket ticket.key).reads (tickets.erase ticket)
      other := by
  have hcount := ticketsOf_erase hmem other
  by_cases hother : other = ticket.key
  · rw [hother] at hcount ⊢
    rw [if_pos rfl] at hcount
    cases hold : reg.reads ticket.key with
    | none =>
      have hzero := (h ticket.key).absent hold
      lia
    | some entry =>
      have hentry := (h ticket.key).entry entry hold
      have hreads := FillRegistry.reads_dropTicket hold
      constructor
      · intro left hleft
        rw [hreads] at hleft
        split_ifs at hleft with hlast
        cases hleft
        dsimp only
        lia
      · intro hnone
        rw [hreads] at hnone
        split_ifs at hnone with hlast
        lia
  · rw [if_neg (Ne.symm hother), Nat.add_zero] at hcount
    apply (h other).of_eq
    · exact FillRegistry.reads_dropTicket_of_ne hother
    · exact hcount.symm

theorem counted_poisonReads (k other : key) :
    Counted (reg.poisonReads k).reads tickets other := by
  by_cases hother : other = k
  · rw [hother]
    cases hold : reg.reads k with
    | none =>
      apply (h k).of_eq
      · show update reg.reads k _ k = reg.reads k
        rw [update_self, hold]
        rfl
      · rfl
    | some entry =>
      have hreads := FillRegistry.reads_poisonReads hold
      constructor
      · intro left hleft
        rw [hreads] at hleft
        cases hleft
        exact (h k).entry entry hold
      · intro hnone
        rw [hreads] at hnone
        cases hnone
  · apply (h other).of_eq
    · exact update_of_ne hother _ reg.reads
    · rfl

end

section

variable (h : Sound s)

include h

theorem sound_poisonReads (hstep : poisonReads s k = some s')
    : Sound s' := by
  unfold poisonReads at hstep
  split_ifs at hstep with hk
  cases hstep
  exact h.setReads (counted_poisonReads h.counted k) rfl _

theorem sound_beginRead (t : Nat) (k : key)
    : Sound (beginRead t s k) :=
  h.setReads (counted_beginRead h.counted t k) rfl s.poisoning

theorem sound_fencedBy (hstep : fencedBy s g ticket = some s')
    : Sound s' := by
  unfold fencedBy at hstep
  cases hg : s.guards g with
  | none =>
    rw [hg] at hstep
    cases hstep
  | some guard =>
    rw [hg] at hstep
    dsimp only at hstep
    split_ifs at hstep with hticket
    cases hstep
    have hattached := sound_attach (sound_detach h guard) ticket.taken true
    exact hattached.setGuard hg (Eq.refl guard.key)
      (h.guards g guard hg).reading

theorem sound_dropTicket (hstep : dropTicket s ticket = some s')
    : Sound s' := by
  unfold dropTicket at hstep
  split_ifs at hstep with hticket
  cases hstep
  exact h.setReads (counted_dropTicket h.counted hticket.left)
    (s.reg.claims_dropTicket ticket.key) s.poisoning

theorem sound_receive (hstep : receive s r = some s')
    : Sound s' := by
  unfold receive at hstep
  cases hask : s.asks r with
  | none =>
    rw [hask] at hstep
    cases hstep
  | some ask =>
    rw [hask] at hstep
    dsimp only at hstep
    have hok := h.asks r ask hask
    split at hstep
    · rename_i ch hanswer _
      cases hsent : s.sent ch with
      | some v =>
        rw [hsent] at hstep
        cases hstep
        apply h.setAsk
        constructor
        · exact hok.before
        · exact hok.follow
        · exact hok.ready
        · intro w hw
          cases hw
          exact ⟨ch, hanswer, hsent⟩
      | none =>
        rw [hsent] at hstep
        dsimp only at hstep
        split_ifs at hstep with hopen
        cases hstep
        apply h.setAsk
        constructor
        · exact hok.before
        · exact hok.follow
        · exact hok.ready
        · intro w hw
          cases hw
    · cases hstep

theorem sound_step {e : Event key bytes} (hstep : step s e = some s')
    : Sound s' := by
  have htick := h.tick
  have hfresh := h.fresh
  cases e with
  | claimFill k =>
    cases hstep
    exact sound_claimFill htick hfresh k
  | forFill k =>
    cases hstep
    exact sound_forFill htick hfresh k
  | startRead g => exact sound_startRead htick hfresh hstep
  | publish g data => exact sound_publish htick hstep
  | dropGuard g => exact sound_dropGuard htick hstep
  | poisonClaim k =>
    cases hstep
    exact sound_poisonClaim htick hfresh k
  | poisonReads k => exact sound_poisonReads htick hstep
  | beginRead k =>
    cases hstep
    exact sound_beginRead htick s.now k
  | fencedBy g ticket => exact sound_fencedBy htick hstep
  | dropTicket ticket => exact sound_dropTicket htick hstep
  | receive r => exact sound_receive htick hstep

end

/-!
## Every run
-/

section

variable (h : Sound s)

include h

theorem Sound.unsent {ch : Nat} (hlost : s.lost ch = true)
    : s.sent ch = none := by
  apply Option.eq_none_iff_forall_ne_some.mpr
  intro v hv
  rw [(h.sent ch v hv).right.right] at hlost
  cases hlost

theorem Sound.isOpen_eq_false {ch : Nat} (hlost : s.lost ch = true) (k : key)
    : isOpen s k ch = false := by
  unfold isOpen
  split
  · rename_i sender hclaim
    apply beq_false_of_ne
    intro heq
    exact h.lost ch hlost k (heq ▸ hclaim)
  · rfl

theorem Sound.receive_lost {r ch : Nat} {ask : Ask key bytes}
    (hask : s.asks r = some ask) (hanswer : ask.answer = .follow ch)
    (houtcome : ask.outcome = none) (hlost : s.lost ch = true) :
    receive s r = some (s.setAsk r { ask with outcome := some none }) := by
  unfold receive
  rw [hask]
  dsimp only
  rw [hanswer, houtcome]
  dsimp only
  rw [h.unsent hlost, h.isOpen_eq_false hlost]
  rfl

theorem Sound.coalesced : Coalesced s where
  claimed := by
    intro k
    constructor
    · intro ⟨state, hstate⟩
      rcases h.holder k state hstate with ⟨g, hholder, _⟩
      exact ⟨g, hholder.holds⟩
    · intro ⟨g, guard, hg, hkey⟩
      rw [← hkey]
      exact (h.guards g guard hg).claimed
  alone := fun g other guard guard' hg hother => h.alone hg hother
  counted := h.counted
  fresh := by
    intro r ask v hask hgot p hp hpr
    have hok := h.asks r ask hask
    rcases hgot with hready | houtcome
    · exact hok.ready v hready p hp hpr
    · rcases hok.outcome v houtcome with ⟨ch, hanswer, hsent⟩
      exact Nat.lt_trans (hok.follow ch hanswer p hp hpr)
        (h.sent ch v hsent).right.left
  released := by
    intro r ask ch hask hanswer hlost
    constructor
    · intro v hv
      rcases (h.asks r ask hask).outcome v hv with ⟨other, hother, hsent⟩
      rw [hanswer] at hother
      cases hother
      rw [h.unsent hlost] at hsent
      cases hsent
    · intro houtcome
      exact ⟨_, _, h.tick.receive_lost hask hanswer houtcome hlost,
        update_self .., rfl⟩

end

/-- Fills of one key are coalesced, and invalidations are respected, in every
state of every run. -/
theorem fills_coalesced {events : List (Event key bytes)}
    {final : State key bytes} (hrun : run step State.start events = some final) :
    Coalesced final := by
  have hsound : Sound final :=
    run_invariant (fun _ _ _ h hstep => sound_step h hstep) Sound.start hrun
  exact hsound.coalesced

/-- The leader of a key is poisoned before it publishes, and its follower wakes
up empty-handed; a second leader, claiming after the poison, serves a follower
and a late arrival from its own read. -/
theorem fills_coalesced_second_leader :
    exists final, run step (State.start : State Nat Nat)
        [.beginRead 7, .claimFill 7, .startRead 1, .claimFill 7,
          .poisonClaim 7, .poisonReads 7, .publish 1 10, .receive 3,
          .claimFill 7, .dropGuard 1, .claimFill 7, .startRead 10,
          .claimFill 7, .publish 10 20, .receive 12, .claimFill 7,
          .dropGuard 10] = some final ∧
      (final.asks 3).bind (·.outcome.map (·.map (·.data))) = some none ∧
      (final.asks 12).bind (·.outcome.map (·.map (·.data))) =
        some (some 20) ∧
      Coalesced final := by
  have hrun : (run step (State.start : State Nat Nat)
        [.beginRead 7, .claimFill 7, .startRead 1, .claimFill 7,
          .poisonClaim 7, .poisonReads 7, .publish 1 10, .receive 3,
          .claimFill 7, .dropGuard 1, .claimFill 7, .startRead 10,
          .claimFill 7, .publish 10 20, .receive 12, .claimFill 7,
          .dropGuard 10]).map (fun s =>
      ((s.asks 3).bind (·.outcome.map (·.map (·.data))),
        (s.asks 12).bind (·.outcome.map (·.map (·.data))))) =
      some (some none, some (some 20)) := by
    decide +kernel
  rcases Option.map_eq_some_iff.mp hrun with ⟨final, hfinal, hseen⟩
  rcases Prod.ext_iff.mp hseen with ⟨hempty, hserved⟩
  exact ⟨final, hfinal, hempty, hserved, fills_coalesced hfinal⟩

end SingleFlight

end Daemon
end Pacer
