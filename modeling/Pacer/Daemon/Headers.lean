import Mathlib.Algebra.Ring.Nat
import Mathlib.Data.Finset.Card
import Mathlib.Logic.Function.Basic
import Pacer.Cache.Chunk
import Pacer.Daemon.ObjectVersion
import Pacer.Foundation.Transition

/-!
# Cached object headers

A node answers a GET from the object header it holds once it has confirmed the
object against the backend in this process.  Looking the header up, asking the
backend, confirming, dropping a stale header and remembering a fresh one are
steps of their own, taken by any number of GETs while one write commits at the
backend, drops the header and returns.

The main result: once the write has returned no stale header is held, and later
GETs resolve the new version, in every run in which no GET remembers after the
drop a header it was given before the commit.
-/

namespace Pacer
namespace Daemon

open Foundation
open Foundation.Transition
open Cache

/-!
## Confirmed objects
-/

def confirmedCapacity : Nat := 2 ^ 16

structure Revalidated where
  confirmed : Finset String

namespace Revalidated

def isConfirmed (set : Revalidated) (objectKey : String) : Bool :=
  objectKey ∈ set.confirmed

def confirm (set : Revalidated) (objectKey : String) : Revalidated :=
  { confirmed := insert objectKey
      (if confirmedCapacity ≤ set.confirmed.card then ∅ else set.confirmed) }

end Revalidated

namespace Headers

/-!
## The node
-/

structure Config where
  objectKey : String
  ownsKey : Bool

inductive Write where
  | pending
  | committed
  | forgotten
  | returned
deriving DecidableEq, Repr

/-- A `HeadObject`'s answer.  Whether it was given before the write's commit is
not something the code knows; no step looks at it. -/
structure Seen where
  header : ObjectHeader
  early : Bool
deriving DecidableEq, Repr

inductive Phase where
  | looked (cached : Option ObjectHeader)
  | heading (cached : Option ObjectHeader)
  | headed (cached : Option ObjectHeader) (current : Seen)
  | stale (current : Seen)
  | found (header : ObjectHeader)
  | fresh (current : Seen)
  | resolved (header : ObjectHeader)
  | passed
deriving DecidableEq, Repr

/-- One GET: whether it may fill the cache, and whether it began after the
write had returned. -/
structure Get where
  admits : Bool
  late : Bool
  phase : Phase
deriving DecidableEq, Repr

structure State where
  backend : ObjectHeader
  held : Option ObjectHeader
  revalidated : Revalidated
  write : Write
  gets : Nat -> Option Get

inductive Event where
  | lookup (g : Nat) (admits missed : Bool)
  | check (g : Nat)
  | head (g : Nat)
  | headFails (g : Nat)
  | confirm (g : Nat)
  | removeStale (g : Nat)
  | rememberHeader (g : Nat)
  | passThrough (g : Nat)
  | confirmOther (key : String)
  | evict
  | commit (header : ObjectHeader)
  | forget
  | finish
deriving DecidableEq, Repr

namespace State

/-- A process that has just started: it may have recovered a header, and has
confirmed nothing. -/
def start (recovered : Option ObjectHeader) (backend : ObjectHeader) : State :=
  { backend := backend,
    held := recovered,
    revalidated := { confirmed := ∅ },
    write := .pending,
    gets := fun _ => none }

def setGet (s : State) (g : Nat) (get : Get) : State :=
  { s with gets := Function.update s.gets g (some get) }

def setPhase (s : State) (g : Nat) (get : Get) (phase : Phase) : State :=
  s.setGet g { get with phase := phase }

end State

/-!
## Steps
-/

def lookup (s : State) (g : Nat) (admits missed : Bool) : Option State :=
  match s.gets g with
  | some _ => none
  | none =>
    some (s.setGet g
      { admits := admits,
        late := s.write = .returned,
        phase := .looked (if missed then none else s.held) })

def check (cfg : Config) (s : State) (g : Nat) : Option State :=
  match s.gets g with
  | some get =>
    match get.phase with
    | .looked (some header) =>
      if s.revalidated.isConfirmed cfg.objectKey then
        some (s.setPhase g get (.found header))
      else some (s.setPhase g get (.heading (some header)))
    | .looked none => some (s.setPhase g get (.heading none))
    | _ => none
  | none => none

def head (s : State) (g : Nat) : Option State :=
  match s.gets g with
  | some get =>
    match get.phase with
    | .heading cached =>
      some (s.setPhase g get (.headed cached
        { header := s.backend, early := s.write = .pending }))
    | _ => none
  | none => none

def headFails (s : State) (g : Nat) : Option State :=
  match s.gets g with
  | some get =>
    match get.phase with
    | .heading _ => some (s.setPhase g get .passed)
    | _ => none
  | none => none

/-- What a GET does with the backend's answer: without a cached header it is
fresh, a cached header of the same version is kept, another is stale. -/
def settle (cached : Option ObjectHeader) (current : Seen) : Phase :=
  match cached with
  | none => .fresh current
  | some header =>
    if sameVersion header.eTag current.header.eTag then .found header
    else .stale current

def confirm (cfg : Config) (s : State) (g : Nat) : Option State :=
  match s.gets g with
  | some get =>
    match get.phase with
    | .headed cached current =>
      some ({ s with revalidated := s.revalidated.confirm cfg.objectKey }
        |>.setPhase g get (settle cached current))
    | _ => none
  | none => none

def removeStale (s : State) (g : Nat) : Option State :=
  match s.gets g with
  | some get =>
    match get.phase with
    | .stale current =>
      some ({ s with held := none }.setPhase g get (.fresh current))
    | _ => none
  | none => none

def rememberHeader (cfg : Config) (s : State) (g : Nat) : Option State :=
  match s.gets g with
  | some get =>
    match get.phase with
    | .found header => some (s.setPhase g get (.resolved header))
    | .fresh current =>
      if get.admits && cfg.ownsKey then
        some ({ s with held := some current.header }.setPhase g get
          (.resolved current.header))
      else some (s.setPhase g get (.resolved current.header))
    | _ => none
  | none => none

def passThrough (s : State) (g : Nat) : Option State :=
  match s.gets g with
  | some get =>
    match get.phase with
    | .found _ => some (s.setPhase g get .passed)
    | .fresh _ => some (s.setPhase g get .passed)
    | _ => none
  | none => none

def step (cfg : Config) (s : State) : Event -> Option State
  | .lookup g admits missed => lookup s g admits missed
  | .check g => check cfg s g
  | .head g => head s g
  | .headFails g => headFails s g
  | .confirm g => confirm cfg s g
  | .removeStale g => removeStale s g
  | .rememberHeader g => rememberHeader cfg s g
  | .passThrough g => passThrough s g
  | .confirmOther key =>
    if key = cfg.objectKey then none
    else some { s with revalidated := s.revalidated.confirm key }
  | .evict => some { s with held := none }
  | .commit header =>
    match s.write with
    | .pending => some { s with backend := header, write := .committed }
    | _ => none
  | .forget =>
    match s.write with
    | .committed => some { s with held := none, write := .forgotten }
    | _ => none
  | .finish =>
    match s.write with
    | .forgotten => some { s with write := .returned }
    | _ => none

def Stale (cfg : Config) (s : State) : Prop :=
  exists header, s.held = some header ∧ header.eTag ≠ s.backend.eTag ∧
    s.revalidated.isConfirmed cfg.objectKey = true

/-!
## The invariant
-/

namespace Phase

def seen : Phase -> Option Seen
  | .headed _ current => some current
  | .stale current => some current
  | .fresh current => some current
  | _ => none

def headers : Phase -> List ObjectHeader
  | .looked cached => cached.toList
  | .heading cached => cached.toList
  | .headed cached current => current.header :: cached.toList
  | .stale current => [current.header]
  | .found header => [header]
  | .fresh current => [current.header]
  | .resolved header => [header]
  | .passed => []

end Phase

def Write.Past (write : Write) : Prop :=
  write = .forgotten ∨ write = .returned

/-- A GET that fills is not about to remember, past the write's drop, a header
it was given before the commit. -/
def InTime (cfg : Config) (s : State) : Event -> Prop
  | .rememberHeader g => forall get current, s.gets g = some get ->
      get.phase = .fresh current -> get.admits = true -> cfg.ownsKey = true ->
      s.write.Past -> current.early = false
  | _ => True

def SeenOk (s : State) (phase : Phase) : Prop :=
  forall current, phase.seen = some current -> current.early = false ->
    s.write ≠ .pending ∧ current.header = s.backend

def LateOk (s : State) (get : Get) (phase : Phase) : Prop :=
  get.late = true -> s.write = .returned ∧
    forall header, header ∈ phase.headers -> header = s.backend

structure Settled (s : State) : Prop where
  held : s.write.Past -> forall header, s.held = some header ->
    header = s.backend
  seen : forall g get, s.gets g = some get -> SeenOk s get.phase
  late : forall g get, s.gets g = some get -> LateOk s get get.phase

theorem settled_start (recovered : Option ObjectHeader)
    (backend : ObjectHeader) : Settled (State.start recovered backend) := by
  constructor
  · intro hpast
    rcases hpast with hforgotten | hreturned
    · cases hforgotten
    · cases hreturned
  · intro g get hget
    cases hget
  · intro g get hget
    cases hget

namespace Settled

variable {cfg : Config} {s s' : State} (h : Settled s) {g : Nat} {get : Get}

include h

theorem setGet (hseen : SeenOk s get.phase) (hlate : LateOk s get get.phase) :
    Settled (s.setGet g get) := by
  constructor
  · exact h.held
  · intro q other hq
    change Function.update s.gets g (some get) q = some other at hq
    rw [Function.update_apply] at hq
    split at hq
    · cases hq
      exact hseen
    · exact h.seen q other hq
  · intro q other hq
    change Function.update s.gets g (some get) q = some other at hq
    rw [Function.update_apply] at hq
    split at hq
    · cases hq
      exact hlate
    · exact h.late q other hq

theorem setPhase {phase : Phase} (hget : s.gets g = some get)
    (hseen : phase.seen = none ∨ phase.seen = get.phase.seen)
    (hknown : forall header, header ∈ phase.headers ->
      header ∈ get.phase.headers) :
    Settled (s.setPhase g get phase) := by
  apply h.setGet
  · intro current hcurrent
    rcases hseen with hnone | hsame
    · rw [hnone] at hcurrent
      cases hcurrent
    · rw [hsame] at hcurrent
      exact h.seen g get hget current hcurrent
  · intro hlate
    rcases h.late g get hget hlate with ⟨hreturned, hall⟩
    constructor
    · exact hreturned
    · intro header hheader
      exact hall header (hknown header hheader)

theorem setHeld {held : Option ObjectHeader}
    (hheld : s.write.Past -> forall header, held = some header ->
      header = s.backend) : Settled { s with held := held } :=
  ⟨hheld, h.seen, h.late⟩

theorem forgetHeld : Settled { s with held := none } := by
  apply h.setHeld
  intro _ header hheader
  cases hheader

theorem setRevalidated (revalidated : Revalidated) :
    Settled { s with revalidated := revalidated } :=
  ⟨h.held, h.seen, h.late⟩

/-!
## Steps of a GET
-/

theorem lookup {admits missed : Bool}
    (hstep : Headers.lookup s g admits missed = some s') : Settled s' := by
  unfold Headers.lookup at hstep
  split at hstep
  · cases hstep
  cases hstep
  apply h.setGet
  · intro current hcurrent
    cases hcurrent
  intro hlate
  have hreturned : s.write = .returned := of_decide_eq_true hlate
  constructor
  · exact hreturned
  · intro header hheader
    cases missed with
    | true => cases hheader
    | false =>
      exact h.held (Or.inr hreturned) header
        (Option.mem_toList.mp hheader)

theorem check (hstep : Headers.check cfg s g = some s') : Settled s' := by
  unfold Headers.check at hstep
  split at hstep
  · rename_i get hget
    split at hstep
    · rename_i header hphase
      split at hstep
      · cases hstep
        apply h.setPhase hget (Or.inl rfl)
        rw [hphase]
        exact fun _ hmem => hmem
      · cases hstep
        apply h.setPhase hget (Or.inl rfl)
        rw [hphase]
        exact fun _ hmem => hmem
    · cases hstep
      apply h.setPhase hget (Or.inl rfl)
      intro header hheader
      cases hheader
    · cases hstep
  · cases hstep

theorem head (hstep : Headers.head s g = some s') : Settled s' := by
  unfold Headers.head at hstep
  split at hstep
  · rename_i get hget
    split at hstep
    · rename_i cached hphase
      cases hstep
      apply h.setGet
      · intro current hcurrent hearly
        cases hcurrent
        exact ⟨of_decide_eq_false hearly, rfl⟩
      · intro hlate
        rcases h.late g get hget hlate with ⟨hreturned, hall⟩
        rw [hphase] at hall
        constructor
        · exact hreturned
        · intro header hheader
          rcases List.mem_cons.mp hheader with hcurrent | hcached
          · exact hcurrent
          · exact hall header hcached
    · cases hstep
  · cases hstep

theorem headFails (hstep : Headers.headFails s g = some s') : Settled s' := by
  unfold Headers.headFails at hstep
  split at hstep
  · rename_i get hget
    split at hstep
    · cases hstep
      apply h.setPhase hget (Or.inl rfl)
      intro header hheader
      cases hheader
    · cases hstep
  · cases hstep

omit h in
theorem settle_knows (cached : Option ObjectHeader) (current : Seen) :
    ((settle cached current).seen = none ∨
        (settle cached current).seen = some current) ∧
      forall header, header ∈ (settle cached current).headers ->
        header ∈ (Phase.headed cached current).headers := by
  unfold settle
  split
  · exact ⟨Or.inr rfl, fun _ hmem => hmem⟩
  · rename_i kept
    split
    · constructor
      · exact Or.inl rfl
      · intro header hheader
        exact List.mem_cons_of_mem current.header hheader
    · constructor
      · exact Or.inr rfl
      · intro header hheader
        exact List.mem_cons.mpr (Or.inl (List.mem_singleton.mp hheader))

theorem confirm (hstep : Headers.confirm cfg s g = some s') : Settled s' := by
  unfold Headers.confirm at hstep
  split at hstep
  · rename_i get hget
    split at hstep
    · rename_i cached current hphase
      cases hstep
      rcases settle_knows cached current with ⟨hseen, hknown⟩
      have hset := h.setRevalidated (s.revalidated.confirm cfg.objectKey)
      apply hset.setPhase hget
      · rw [hphase]
        exact hseen
      · rw [hphase]
        exact hknown
    · cases hstep
  · cases hstep

theorem removeStale (hstep : Headers.removeStale s g = some s') :
    Settled s' := by
  unfold Headers.removeStale at hstep
  split at hstep
  · rename_i get hget
    split at hstep
    · rename_i current hphase
      cases hstep
      apply h.forgetHeld.setPhase hget
      · rw [hphase]
        exact Or.inr rfl
      · rw [hphase]
        exact fun _ hmem => hmem
    · cases hstep
  · cases hstep

theorem rememberHeader (hguard : InTime cfg s (.rememberHeader g))
    (hstep : Headers.rememberHeader cfg s g = some s') : Settled s' := by
  unfold Headers.rememberHeader at hstep
  split at hstep
  · rename_i get hget
    split at hstep
    · rename_i header hphase
      cases hstep
      apply h.setPhase hget (Or.inl rfl)
      rw [hphase]
      exact fun _ hmem => hmem
    · rename_i current hphase
      split at hstep
      · rename_i hfills
        rcases Bool.and_eq_true_iff.mp hfills with ⟨hadmits, howns⟩
        cases hstep
        -- Past the drop the answer is not an early one, so it is the committed
        -- header.
        have hheld : s.write.Past -> forall header,
            some current.header = some header -> header = s.backend := by
          intro hpast header hheader
          cases hheader
          have hearly := hguard get current hget hphase hadmits howns hpast
          have hseen := h.seen g get hget
          rw [hphase] at hseen
          exact (hseen current rfl hearly).right
        apply (h.setHeld hheld).setPhase hget (Or.inl rfl)
        rw [hphase]
        exact fun _ hmem => hmem
      · cases hstep
        apply h.setPhase hget (Or.inl rfl)
        rw [hphase]
        exact fun _ hmem => hmem
    · cases hstep
  · cases hstep

theorem passThrough (hstep : Headers.passThrough s g = some s') :
    Settled s' := by
  have hnothing : forall get, s.gets g = some get ->
      Settled (s.setPhase g get .passed) := by
    intro get hget
    apply h.setPhase hget (Or.inl rfl)
    intro header hheader
    cases hheader
  unfold Headers.passThrough at hstep
  split at hstep
  · rename_i get hget
    split at hstep
    · cases hstep
      exact hnothing get hget
    · cases hstep
      exact hnothing get hget
    · cases hstep
  · cases hstep

/-!
## Steps of the write
-/

theorem commit {header : ObjectHeader} (hwrite : s.write = .pending) :
    Settled { s with backend := header, write := .committed } := by
  constructor
  · intro hpast
    rcases hpast with hforgotten | hreturned
    · cases hforgotten
    · cases hreturned
  · intro q get hget current hcurrent hearly
    exact absurd hwrite (h.seen q get hget current hcurrent hearly).left
  · intro q get hget hlate
    have hreturned := (h.late q get hget hlate).left
    rw [hwrite] at hreturned
    cases hreturned

theorem forget (hwrite : s.write = .committed) :
    Settled { s with held := none, write := .forgotten } := by
  constructor
  · intro _ header hheader
    cases hheader
  · intro q get hget current hcurrent hearly
    have hseen := h.seen q get hget current hcurrent hearly
    exact ⟨nofun, hseen.right⟩
  · intro q get hget hlate
    have hreturned := (h.late q get hget hlate).left
    rw [hwrite] at hreturned
    cases hreturned

theorem finish (hwrite : s.write = .forgotten) :
    Settled { s with write := .returned } := by
  constructor
  · intro _
    exact h.held (Or.inl hwrite)
  · intro q get hget current hcurrent hearly
    have hseen := h.seen q get hget current hcurrent hearly
    exact ⟨nofun, hseen.right⟩
  · intro q get hget hlate
    have hreturned := (h.late q get hget hlate).left
    rw [hwrite] at hreturned
    cases hreturned

theorem step {e : Event} (hguard : InTime cfg s e)
    (hstep : Headers.step cfg s e = some s') : Settled s' := by
  cases e <;> simp only [Headers.step] at hstep
  case lookup g admits missed => exact h.lookup hstep
  case check g => exact h.check hstep
  case head g => exact h.head hstep
  case headFails g => exact h.headFails hstep
  case confirm g => exact h.confirm hstep
  case removeStale g => exact h.removeStale hstep
  case rememberHeader g => exact h.rememberHeader hguard hstep
  case passThrough g => exact h.passThrough hstep
  case confirmOther key =>
    split at hstep
    · cases hstep
    · cases hstep
      exact h.setRevalidated _
  case evict =>
    cases hstep
    exact h.forgetHeld
  case commit header =>
    split at hstep
    · rename_i hwrite
      cases hstep
      exact h.commit hwrite
    · cases hstep
  case forget =>
    split at hstep
    · rename_i hwrite
      cases hstep
      exact h.forget hwrite
    · cases hstep
  case finish =>
    split at hstep
    · rename_i hwrite
      cases hstep
      exact h.finish hwrite
    · cases hstep

end Settled

/-- Once the write has returned no stale header is held under a confirmed key,
and a GET that began after it resolves the header of the new version. -/
theorem no_stale_header_survives {cfg : Config}
    {recovered : Option ObjectHeader} {old : ObjectHeader}
    {events : List Event} {final : State}
    (hguard : Along (step cfg) (InTime cfg) (State.start recovered old) events)
    (hrun : run (step cfg) (State.start recovered old) events = some final)
    (hreturned : final.write = .returned) :
    ¬ Stale cfg final ∧
      forall g get header, final.gets g = some get -> get.late = true ->
        get.phase = .resolved header -> header = final.backend := by
  have hsettled : Settled final :=
    run_preserves (fun _ _ _ hinv hintime hstep => hinv.step hintime hstep)
      (settled_start recovered old) hguard hrun
  constructor
  · intro hstale
    rcases hstale with ⟨header, hheld, hdiffers, _⟩
    rw [hsettled.held (Or.inr hreturned) header hheld] at hdiffers
    exact hdiffers rfl
  · intro g get header hget hlate hphase
    have hknown := (hsettled.late g get hget hlate).right
    rw [hphase] at hknown
    exact hknown header List.mem_cons_self

/-!
## A header remembered too late
-/

def alone : Config :=
  { objectKey := "bucket/key", ownsKey := true }

def headerOne : ObjectHeader := { objectLen := 1, eTag := some "1" }

def headerTwo : ObjectHeader := { objectLen := 1, eTag := some "2" }

def resolves (g : Nat) : List Event :=
  [.lookup g true false, .check g, .head g, .confirm g]

def overwrites : List Event :=
  [.commit headerTwo, .forget, .finish]

theorem no_stale_header_survives_overwrite : exists final get,
    run (step alone) (State.start none headerOne)
      (overwrites ++ resolves 0 ++ [.rememberHeader 0]) = some final ∧
    final.gets 0 = some get ∧ get.phase = .resolved headerTwo ∧
    ¬ Stale alone final := by
  have halong : Along (step alone) (InTime alone)
      (State.start none headerOne)
      (overwrites ++ resolves 0 ++ [.rememberHeader 0]) := by
    iterate 7 apply along_cons_of_step trivial rfl
    refine along_cons_of_step ?_ rfl trivial
    intro get current hget hphase _ _ _
    cases hget
    cases hphase
    rfl
  refine ⟨_, _, rfl, rfl, rfl, ?_⟩
  exact (no_stale_header_survives halong rfl rfl).left

/-- A GET is given the old header, the write commits, drops and returns, and
the GET remembers what it was given: it stays, and the next GET uses it. -/
theorem remembered_header_is_stale : exists final first second,
    run (step alone) (State.start none headerOne)
      (resolves 0 ++ overwrites ++ .rememberHeader 0 ::
        [.lookup 1 true false, .check 1, .rememberHeader 1]) = some final ∧
    final.write = .returned ∧
    final.gets 0 = some first ∧ first.phase = .resolved headerOne ∧
    Stale alone final ∧
    final.gets 1 = some second ∧ second.late = true ∧
    second.phase = .resolved headerOne := by
  refine ⟨_, _, _, rfl, rfl, rfl, rfl, ?_, rfl, rfl, rfl⟩
  exact ⟨headerOne, rfl, by decide, rfl⟩

end Headers

end Daemon
end Pacer
