import Pacer.Cache.Disk
import Pacer.Daemon.FillRegistry
import Pacer.Daemon.ObjectVersion
import Pacer.Foundation.Table
import Pacer.Foundation.Transition

/-!
# The cached read path

Any number of GETs of one object, on any number of nodes, resolve their chunks
one atomic step at a time: a tier lookup, a claim in the node's fill registry,
a wait for another GET's bytes, an answer from a peer's tier or from a peer's
read-through, a ranged GET of the backend, and the fenced insert.  Meanwhile
the backend's version is overwritten, and tiers, headers and claims are
invalidated, at any step.

A GET reads everything against the header it resolved first.  What it serves is
the concatenation of its chunks, trimmed to the requested range.
-/

namespace Pacer
namespace Daemon

open Foundation Function
open Cache

namespace ReadPath

/-- A node and a chunk index: where a chunk is held, claimed and ticketed. -/
abbrev Place := Nat × Nat

abbrev ReadId := Nat × Nat

structure Config where
  chunk : ChunkConfig
  tier : DiskTier
  coalesce : Bool
  ownsKey : Nat -> Bool
  ownsChunk : Place -> Bool

inductive ReadDecision where
  | cacheAndFill
  | cacheNoFill
deriving DecidableEq, Repr

structure Get where
  node : Nat
  range : Option HttpRange
  header : ObjectHeader
  start : Nat
  stop : Nat
  decision : ReadDecision
deriving DecidableEq, Repr

namespace Get

def admits (get : Get) : Bool := get.decision == .cacheAndFill

def noFill (get : Get) : Bool := get.decision == .cacheNoFill

/-- The cache entry for `body`, with the version this GET reads as witness. -/
def toCached (get : Get) (body : Bytes) : CachedChunk :=
  { body := body, eTag := get.header.eTag }

def witnessMatches (get : Get) (eTag : Option String) : Bool :=
  sameVersion get.header.eTag eTag

end Get

/-- The bytes a leader publishes.  Who published them is not something the
code keeps; no step looks at it. -/
structure Published where
  bytes : Bytes
  leader : ReadId

inductive Phase where
  | idle
  | stale
  | missed
  | waiting (leader : ReadId)
  | unclaimed (fill : Bool)
  | asking (ticket : Nat)
  | leading
  | led (body : Bytes)
  | reading (ticket : Option Nat)
  | fetched (ticket : Nat) (fromPeer : Bool) (body : Bytes)
  | inserting (fill : Fill CachedChunk) (body : Bytes)
  | done (body : Bytes)
  | failed

inductive PumpPhase where
  | reading (ticket : Nat)
  | answered (ticket : Nat) (chunk : CachedChunk)
  | inserting (fill : Fill CachedChunk)
  | finished

structure Pump where
  place : Place
  phase : PumpPhase
  answer : Option CachedChunk

structure State (contentOf : String -> Bytes) where
  backend : Version contentOf
  headers : Nat -> Option ObjectHeader
  tier : Place -> Option CachedChunk
  registry : FillRegistry Place ReadId Published
  sent : ReadId -> Option Published
  gets : Nat -> Option Get
  phase : ReadId -> Phase
  pumps : Nat -> Option Pump

inductive Event (contentOf : String -> Bytes) where
  | overwrite (v : Version contentOf)
  | forget (place : Place)
  | poisonClaim (place : Place)
  | poisonReads (place : Place)
  | forgetHeader (node : Nat)
  | head (g node : Nat) (range : Option HttpRange) (decision : ReadDecision)
  | useHeader (g node : Nat) (range : Option HttpRange)
      (decision : ReadDecision)
  | rememberHeader (g : Nat)
  | lookup (r : ReadId)
  | lookupFails (r : ReadId)
  | forgetStale (r : ReadId)
  | fetchOwned (r : ReadId)
  | receive (r : ReadId)
  | beginRead (r : ReadId)
  | beginPeer (r : ReadId)
  | askPeer (r : ReadId) (node : Nat)
  | askPump (r : ReadId) (p : Nat)
  | giveUp (r : ReadId)
  | read (r : ReadId)
  | publish (r : ReadId)
  | claim (r : ReadId) (gate : Bool)
  | insert (r : ReadId) (wrote : Bool)
  | abandon (r : ReadId)
  | readThrough (p : Nat) (place : Place)
  | respond (p : Nat)
  | pumpClaim (p : Nat) (admitted : Bool)
  | pumpInsert (p : Nat) (wrote : Bool)
  | pumpAbandon (p : Nat)

variable {contentOf : String -> Bytes}

namespace State

def start (v : Version contentOf) : State contentOf :=
  { backend := v,
    headers := fun _ => none,
    tier := fun _ => none,
    registry := FillRegistry.new,
    sent := fun _ => none,
    gets := fun _ => none,
    phase := fun _ => .idle,
    pumps := fun _ => none }

def setTier (s : State contentOf) (place : Place) (held : Option CachedChunk) :
    State contentOf :=
  { s with tier := update s.tier place held }

def setRegistry (s : State contentOf)
    (registry : FillRegistry Place ReadId Published) : State contentOf :=
  { s with registry := registry }

def setSent (s : State contentOf) (sender : ReadId) (data : Published) :
    State contentOf :=
  { s with sent := update s.sent sender (some data) }

def setPhase (s : State contentOf) (r : ReadId) (phase : Phase) :
    State contentOf :=
  { s with phase := update s.phase r phase }

def setPump (s : State contentOf) (p : Nat) (pump : Pump) : State contentOf :=
  { s with pumps := update s.pumps p (some pump) }

end State

/-!
## Starting a GET
-/

/-- Begin GET `g` under a header: resolve its range, or refuse it. -/
def startGet (s : State contentOf) (g node : Nat) (range : Option HttpRange)
    (decision : ReadDecision) (header : ObjectHeader) :
    Option (State contentOf) :=
  match s.gets g with
  | some _ => none
  | none =>
    match resolveInputRange range header.objectLen with
    | none => none
    | some (start, stop) =>
      some { s with
        gets := update s.gets g
          (some { node, range, header, start, stop, decision }) }

def rememberHeader (cfg : Config) (s : State contentOf) (g : Nat) :
    Option (State contentOf) :=
  match s.gets g with
  | none => none
  | some get =>
    if get.admits && cfg.ownsKey get.node then
      some { s with
        headers := update s.headers get.node (some get.header) }
    else none

/-!
## Resolving a chunk
-/

/-- The local lookup: a copy of the GET's version is served, a copy of another
is to be forgotten. -/
def lookup (cfg : Config) (s : State contentOf) (r : ReadId) :
    Option (State contentOf) :=
  match s.gets r.1, s.phase r with
  | some get, .idle =>
    if r.2 ∈ cfg.chunk.coveringChunks get.start get.stop then
      match s.tier (get.node, r.2) with
      | none => some (s.setPhase r .missed)
      | some held =>
        if get.witnessMatches held.eTag then
          some (s.setPhase r (.done held.body))
        else some (s.setPhase r .stale)
    else none
  | _, _ => none

def lookupFails (cfg : Config) (s : State contentOf) (r : ReadId) :
    Option (State contentOf) :=
  match s.gets r.1, s.phase r with
  | some get, .idle =>
    if r.2 ∈ cfg.chunk.coveringChunks get.start get.stop then
      some (s.setPhase r .missed)
    else none
  | _, _ => none

def forgetStale (s : State contentOf) (r : ReadId) :
    Option (State contentOf) :=
  match s.gets r.1, s.phase r with
  | some get, .stale =>
    some ((s.setTier (get.node, r.2) none).setPhase r .missed)
  | _, _ => none

def fetchOwned (cfg : Config) (s : State contentOf) (r : ReadId) :
    Option (State contentOf) :=
  match s.gets r.1, s.phase r with
  | some get, .missed =>
    if cfg.ownsChunk (get.node, r.2) then
      if cfg.coalesce then
        match s.registry.claimFill (get.node, r.2) r with
        | (.lead, registry) =>
          some ((s.setRegistry registry).setPhase r .leading)
        | (.follow leader, registry) =>
          some ((s.setRegistry registry).setPhase r (.waiting leader))
        | (.ready data, registry) =>
          some ((s.setRegistry registry).setPhase r (.done data.bytes))
        | (.busy, registry) =>
          some ((s.setRegistry registry).setPhase r (.unclaimed get.admits))
      else some (s.setPhase r (.unclaimed get.admits))
    else none
  | _, _ => none

def receive (s : State contentOf) (r : ReadId) : Option (State contentOf) :=
  match s.gets r.1, s.phase r with
  | some get, .waiting leader =>
    match s.sent leader with
    | some data => some (s.setPhase r (.done data.bytes))
    | none =>
      match s.registry.claims (get.node, r.2) with
      | some (.fetching sender) =>
        if sender = leader then none
        else some (s.setPhase r (.unclaimed get.admits))
      | _ => some (s.setPhase r (.unclaimed get.admits))
  | _, _ => none

def beginRead (s : State contentOf) (r : ReadId) : Option (State contentOf) :=
  match s.gets r.1, s.phase r with
  | some get, .unclaimed true =>
    match s.registry.beginRead (get.node, r.2) with
    | (ticket, registry) =>
      some ((s.setRegistry registry).setPhase r (.reading (some ticket)))
  | some _, .unclaimed false => some (s.setPhase r (.reading none))
  | _, _ => none

def beginPeer (cfg : Config) (s : State contentOf) (r : ReadId) :
    Option (State contentOf) :=
  match s.gets r.1, s.phase r with
  | some get, .missed =>
    if cfg.ownsChunk (get.node, r.2) then none
    else
      match s.registry.beginRead (get.node, r.2) with
      | (ticket, registry) =>
        some ((s.setRegistry registry).setPhase r (.asking ticket))
  | _, _ => none

def peerAnswers (s : State contentOf) (r : ReadId) (get : Get) (ticket : Nat)
    (answer : CachedChunk) : State contentOf :=
  if get.witnessMatches answer.eTag then
    s.setPhase r (.fetched ticket true answer.body)
  else s

def askPeer (s : State contentOf) (r : ReadId) (node : Nat) :
    Option (State contentOf) :=
  match s.gets r.1, s.phase r with
  | some get, .asking ticket =>
    match s.tier (node, r.2) with
    | none => none
    | some answer => some (peerAnswers s r get ticket answer)
  | _, _ => none

def askPump (s : State contentOf) (r : ReadId) (p : Nat) :
    Option (State contentOf) :=
  match s.gets r.1, s.phase r, s.pumps p with
  | some get, .asking ticket, some pump =>
    if pump.place.2 = r.2 then
      match pump.answer with
      | none => none
      | some answer => some (peerAnswers s r get ticket answer)
    else none
  | _, _, _ => none

def giveUp (s : State contentOf) (r : ReadId) : Option (State contentOf) :=
  match s.gets r.1, s.phase r with
  | some get, .asking _ =>
    some ((s.setRegistry (s.registry.dropTicket (get.node, r.2))).setPhase r
      (.unclaimed false))
  | _, _ => none

def readBackendChunk (cfg : Config) (s : State contentOf) (get : Get)
    (index : Nat) : Option Bytes :=
  match cfg.chunk.chunkBounds index get.header.objectLen with
  | none => none
  | some (lo, hi) => s.backend.readRange lo hi

def read (cfg : Config) (s : State contentOf) (r : ReadId) :
    Option (State contentOf) :=
  match s.gets r.1 with
  | none => none
  | some get =>
    match readBackendChunk cfg s get r.2 with
    | none => none
    | some body =>
      match s.phase r with
      | .leading => some (s.setPhase r (.led body))
      | .reading (some ticket) =>
        some (s.setPhase r (.fetched ticket false body))
      | .reading none => some (s.setPhase r (.done body))
      | _ => none

def publish (s : State contentOf) (r : ReadId) : Option (State contentOf) :=
  match s.gets r.1, s.phase r with
  | some get, .led body =>
    let data : Published := { bytes := body, leader := r }
    let fill : Fill CachedChunk :=
      { read := none,
        cached := get.toCached body,
        stage := if get.admits then .checkClaim else .release }
    match s.registry.publish (get.node, r.2) data with
    | (some sender, registry) =>
      some (((s.setSent sender data).setRegistry registry).setPhase r
        (.inserting fill body))
    | (none, registry) =>
      some ((s.setRegistry registry).setPhase r (.inserting fill body))
  | _, _ => none

/-- Claim a fetched chunk's key to insert it.  A peer's chunk has to pass the
admission gate, and is never inserted by a read that must not fill. -/
def claim (s : State contentOf) (r : ReadId) (gate : Bool) :
    Option (State contentOf) :=
  match s.gets r.1, s.phase r with
  | some get, .fetched ticket fromPeer body =>
    let fill (stage : InsertStage) : Fill CachedChunk :=
      { read := some ticket, cached := get.toCached body, stage := stage }
    if fromPeer && (get.noFill || !gate) then
      some (s.setPhase r (.inserting (fill .dropTicket) body))
    else
      match s.registry.claimExclusive (get.node, r.2) with
      | some registry =>
        some ((s.setRegistry registry).setPhase r
          (.inserting (fill .checkClaim) body))
      | none => some (s.setPhase r (.inserting (fill .dropTicket) body))
  | _, _ => none

def insert (cfg : Config) (s : State contentOf) (r : ReadId) (wrote : Bool) :
    Option (State contentOf) :=
  match s.gets r.1, s.phase r with
  | some get, .inserting fill body =>
    match fill.advance cfg.tier s.registry (get.node, r.2)
        (s.tier (get.node, r.2)) wrote with
    | (registry, held, some next) =>
      some (((s.setRegistry registry).setTier (get.node, r.2) held).setPhase
        r (.inserting next body))
    | (registry, held, none) =>
      some (((s.setRegistry registry).setTier (get.node, r.2) held).setPhase
        r (.done body))
  | _, _ => none

def letGo (registry : FillRegistry Place ReadId Published) (place : Place)
    (fill : Fill CachedChunk) : FillRegistry Place ReadId Published :=
  match fill.read with
  | some _ => (registry.release place).dropTicket place
  | none => registry.release place

def abandon (s : State contentOf) (r : ReadId) : Option (State contentOf) :=
  match s.gets r.1, s.phase r with
  | some _, .waiting _ => some (s.setPhase r .failed)
  | some get, .asking _ =>
    some ((s.setRegistry (s.registry.dropTicket (get.node, r.2))).setPhase r
      .failed)
  | some get, .leading =>
    some ((s.setRegistry (s.registry.release (get.node, r.2))).setPhase r
      .failed)
  | some get, .reading (some _) =>
    some ((s.setRegistry (s.registry.dropTicket (get.node, r.2))).setPhase r
      .failed)
  | some _, .reading none => some (s.setPhase r .failed)
  | some get, .inserting fill _ =>
    if fill.stage = .writing then
      some ((s.setRegistry (letGo s.registry (get.node, r.2) fill)).setPhase r
        .failed)
    else none
  | _, _ => none

/-!
## A peer's read-through
-/

def readThrough (cfg : Config) (s : State contentOf) (p : Nat) (place : Place) :
    Option (State contentOf) :=
  match s.pumps p with
  | some _ => none
  | none =>
    if cfg.ownsChunk place then
      match s.registry.beginRead place with
      | (ticket, registry) =>
        some ((s.setRegistry registry).setPump p
          { place := place, phase := .reading ticket, answer := none })
    else none

def respond (cfg : Config) (s : State contentOf) (p : Nat) :
    Option (State contentOf) :=
  match s.pumps p with
  | some { place, phase := .reading ticket, answer := _ } =>
    let start := place.2 * cfg.chunk.chunkSize
    match s.backend.readRange start (start + cfg.chunk.chunkSize) with
    | none => none
    | some body =>
      let chunk : CachedChunk :=
        { body := body, eTag := s.backend.eTag.map trimQuotes }
      some (s.setPump p
        { place := place, phase := .answered ticket chunk,
          answer := some chunk })
  | _ => none

def pumpClaim (s : State contentOf) (p : Nat) (admitted : Bool) :
    Option (State contentOf) :=
  match s.pumps p with
  | some { place, phase := .answered ticket chunk, answer } =>
    let fill (stage : InsertStage) : Fill CachedChunk :=
      { read := some ticket, cached := chunk, stage := stage }
    match (if admitted then s.registry.claimExclusive place else none) with
    | some registry =>
      some ((s.setRegistry registry).setPump p
        { place := place, phase := .inserting (fill .checkClaim),
          answer := answer })
    | none =>
      some (s.setPump p
        { place := place, phase := .inserting (fill .dropTicket),
          answer := answer })
  | _ => none

def pumpInsert (cfg : Config) (s : State contentOf) (p : Nat) (wrote : Bool) :
    Option (State contentOf) :=
  match s.pumps p with
  | some { place, phase := .inserting fill, answer } =>
    match fill.advance cfg.tier s.registry place (s.tier place) wrote with
    | (registry, held, some next) =>
      some (((s.setRegistry registry).setTier place held).setPump p
        { place := place, phase := .inserting next, answer := answer })
    | (registry, held, none) =>
      some (((s.setRegistry registry).setTier place held).setPump p
        { place := place, phase := .finished, answer := answer })
  | _ => none

/-- The read-through's response fails, at its start or while it streams, or its
task is dropped while it waits for the tier's write. -/
def pumpAbandon (s : State contentOf) (p : Nat) : Option (State contentOf) :=
  match s.pumps p with
  | some { place, phase := .reading _, answer } =>
    some ((s.setRegistry (s.registry.dropTicket place)).setPump p
      { place := place, phase := .finished, answer := answer })
  | some { place, phase := .inserting fill, answer } =>
    if fill.stage = .checkClaim ∨ fill.stage = .writing then
      some ((s.setRegistry (letGo s.registry place fill)).setPump p
        { place := place, phase := .finished, answer := answer })
    else none
  | _ => none

/-!
## The system
-/

def step (cfg : Config) (s : State contentOf) :
    Event contentOf -> Option (State contentOf)
  | .overwrite v => some { s with backend := v }
  | .forget place => some (s.setTier place none)
  | .poisonClaim place => some (s.setRegistry (s.registry.poisonClaim place))
  | .poisonReads place => some (s.setRegistry (s.registry.poisonReads place))
  | .forgetHeader node =>
    some { s with headers := update s.headers node none }
  | .head g node range decision =>
    startGet s g node range decision s.backend.header
  | .useHeader g node range decision =>
    match s.headers node with
    | none => none
    | some header => startGet s g node range decision header
  | .rememberHeader g => rememberHeader cfg s g
  | .lookup r => lookup cfg s r
  | .lookupFails r => lookupFails cfg s r
  | .forgetStale r => forgetStale s r
  | .fetchOwned r => fetchOwned cfg s r
  | .receive r => receive s r
  | .beginRead r => beginRead s r
  | .beginPeer r => beginPeer cfg s r
  | .askPeer r node => askPeer s r node
  | .askPump r p => askPump s r p
  | .giveUp r => giveUp s r
  | .read r => read cfg s r
  | .publish r => publish s r
  | .claim r gate => claim s r gate
  | .insert r wrote => insert cfg s r wrote
  | .abandon r => abandon s r
  | .readThrough p place => readThrough cfg s p place
  | .respond p => respond cfg s p
  | .pumpClaim p admitted => pumpClaim s p admitted
  | .pumpInsert p wrote => pumpInsert cfg s p wrote
  | .pumpAbandon p => pumpAbandon s p

/-!
## What the steps do

Most steps move one resolution, take or let go of claims and tickets, and drop
tier entries at most.  The lemmas of this section say so once for each action,
with the bytes the resolution then has.
-/

/-- The registry publishes nothing new, and a new sender is `r`, for its own
chunk. -/
structure NoNews (r : ReadId)
    (old new : FillRegistry Place ReadId Published) : Prop where
  filled : forall q data, new.claims q = some (.filled data) ->
    old.claims q = some (.filled data)
  fetching : forall q sender, new.claims q = some (.fetching sender) ->
    old.claims q = some (.fetching sender) ∨ (sender = r ∧ q.2 = r.2)

variable {registry : FillRegistry Place ReadId Published} {place : Place}
  {p : Nat}

namespace NoNews

variable {r : ReadId} {old new : FillRegistry Place ReadId Published}

theorem of_claims (h : new.claims = old.claims) : NoNews r old new := by
  constructor
  · intro q data hq
    rw [h] at hq
    exact hq
  · intro q sender hq
    rw [h] at hq
    exact Or.inl hq

theorem of_update {claim : Option (FillState ReadId Published)}
    (hfilled : forall data, claim ≠ some (.filled data))
    (hfetching : forall sender, claim = some (.fetching sender) ->
      sender = r ∧ place.2 = r.2)
    (h : new.claims = update old.claims place claim) :
    NoNews r old new := by
  constructor
  · intro q data hq
    rw [h, update_apply] at hq
    split at hq
    · exact absurd hq (hfilled data)
    · exact hq
  · intro q sender hq
    rw [h, update_apply] at hq
    split at hq
    · rename_i heq
      rw [heq]
      exact Or.inr (hfetching sender hq)
    · exact Or.inl hq

theorem beginRead (place : Place) : NoNews r old (old.beginRead place).2 :=
  of_claims rfl

theorem poisonReads (place : Place) : NoNews r old (old.poisonReads place) :=
  of_claims rfl

theorem dropTicket (place : Place) : NoNews r old (old.dropTicket place) :=
  of_claims (FillRegistry.claims_dropTicket old place)

theorem release (place : Place) : NoNews r old (old.release place) := by
  refine of_update ?_ ?_ rfl
  · intro data hclaim
    cases hclaim
  · intro sender hclaim
    cases hclaim

theorem poisonClaim (place : Place) : NoNews r old (old.poisonClaim place) := by
  refine of_update ?_ ?_ rfl
  · intro data hclaim
    cases hold : old.claims place <;> simp [hold] at hclaim
  · intro sender hclaim
    cases hold : old.claims place <;> simp [hold] at hclaim

theorem claimExclusive (h : old.claimExclusive place = some new)
    : NoNews r old new := by
  unfold FillRegistry.claimExclusive at h
  split at h
  · cases h
  cases h
  refine of_update ?_ ?_ rfl
  · intro data hclaim
    cases hclaim
  · intro sender hclaim
    cases hclaim

theorem letGo (place : Place) (fill : Fill CachedChunk) :
    NoNews r old (letGo old place fill) := by
  unfold ReadPath.letGo
  split
  · have hrelease : NoNews r old (old.release place) := release place
    have hclaims :=
      FillRegistry.claims_dropTicket (old.release place) place
    constructor
    · intro q data hq
      rw [hclaims] at hq
      exact hrelease.filled q data hq
    · intro q sender hq
      rw [hclaims] at hq
      exact hrelease.fetching q sender hq
  · exact release place

theorem advance {tier : DiskTier} {held held' : Option CachedChunk}
    {wrote : Bool} {fill : Fill CachedChunk} {next : Option (Fill CachedChunk)}
    (h : fill.advance tier old place held wrote = (new, held', next)) :
    NoNews r old new := by
  unfold Fill.advance at h
  dsimp only at h
  cases hstage : fill.stage <;> rw [hstage] at h <;> dsimp only at h
  case write | writing =>
    split at h
    · cases h
      exact of_claims rfl
    · cases h
      exact of_claims rfl
  case release =>
    cases h
    exact release place
  case dropTicket =>
    split at h
    · cases h
      exact dropTicket place
    · cases h
      exact of_claims rfl
  all_goals
    cases h
    exact of_claims rfl

end NoNews

/-- `s'` is `s` with `r` in `phase`: the registry has no news, and the tier
holds nothing new. -/
def Moves (s : State contentOf) (r : ReadId) (phase : Phase)
    (s' : State contentOf) : Prop :=
  exists registry tier, NoNews r s.registry registry ∧
    (forall q held, tier q = some held -> s.tier q = some held) ∧
    s' = { s with
      registry := registry, tier := tier,
      phase := update s.phase r phase }

theorem moves_setPhase (s : State contentOf) (r : ReadId) (phase : Phase) :
    Moves s r phase (s.setPhase r phase) :=
  ⟨s.registry, s.tier, NoNews.of_claims rfl, fun _ _ h => h, rfl⟩

variable {s : State contentOf} {r : ReadId}

theorem moves_setRegistry (h : NoNews r s.registry registry) (phase : Phase) :
    Moves s r phase ((s.setRegistry registry).setPhase r phase) :=
  ⟨registry, s.tier, h, fun _ _ h => h, rfl⟩

def Phase.Plain : Phase -> Prop
  | .waiting _ => False
  | .led _ => False
  | .fetched _ _ _ => False
  | .inserting _ _ => False
  | .done _ => False
  | _ => True

def MovesPlain (s : State contentOf) (r : ReadId) (s' : State contentOf) :
    Prop :=
  exists phase, phase.Plain ∧ Moves s r phase s'

theorem movesPlain_setPhase {phase : Phase} (h : phase.Plain)
    : MovesPlain s r (s.setPhase r phase) :=
  ⟨phase, h, moves_setPhase s r phase⟩

theorem movesPlain_setRegistry {phase : Phase}
    (hnews : NoNews r s.registry registry) (h : phase.Plain) :
    MovesPlain s r ((s.setRegistry registry).setPhase r phase) :=
  ⟨phase, h, moves_setRegistry hnews phase⟩

section Specs

variable {cfg : Config} {s s' : State contentOf} {r : ReadId}

theorem lookup_spec (h : lookup cfg s r = some s') :
    exists get, s.gets r.1 = some get ∧
      (MovesPlain s r s' ∨
        exists held, s.tier (get.node, r.2) = some held ∧
          get.witnessMatches held.eTag = true ∧
          Moves s r (.done held.body) s') := by
  unfold lookup at h
  split at h
  · rename_i get hget _
    refine ⟨get, hget, ?_⟩
    split at h
    · split at h
      · cases h
        exact Or.inl (movesPlain_setPhase trivial)
      · rename_i held hheld
        split at h
        · rename_i hmatch
          cases h
          exact Or.inr ⟨held, hheld, hmatch, moves_setPhase s r _⟩
        · cases h
          exact Or.inl (movesPlain_setPhase trivial)
    · cases h
  · cases h

theorem lookupFails_spec (h : lookupFails cfg s r = some s') :
    exists get, s.gets r.1 = some get ∧ MovesPlain s r s' := by
  unfold lookupFails at h
  split at h
  · rename_i get hget _
    split at h
    · cases h
      exact ⟨get, hget, movesPlain_setPhase trivial⟩
    · cases h
  · cases h

theorem forgetStale_spec (h : forgetStale s r = some s') :
    exists get, s.gets r.1 = some get ∧ MovesPlain s r s' := by
  unfold forgetStale at h
  split at h
  · rename_i get hget _
    cases h
    refine ⟨get, hget, .missed, trivial, s.registry,
      update s.tier (get.node, r.2) none, NoNews.of_claims rfl, ?_,
      rfl⟩
    intro q held hq
    rw [update_apply] at hq
    split at hq
    · cases hq
    · exact hq
  · cases h

theorem fetchOwned_spec (h : fetchOwned cfg s r = some s') :
    exists get, s.gets r.1 = some get ∧
      (MovesPlain s r s' ∨
        (exists leader,
          s.registry.claims (get.node, r.2) = some (.fetching leader) ∧
          Moves s r (.waiting leader) s') ∨
        exists data,
          s.registry.claims (get.node, r.2) = some (.filled data) ∧
          Moves s r (.done data.bytes) s') := by
  unfold fetchOwned at h
  split at h
  · rename_i get hget _
    refine ⟨get, hget, ?_⟩
    split at h
    · split at h
      · cases hclaim : s.registry.claims (get.node, r.2) with
        | none =>
          simp only [FillRegistry.claimFill, hclaim] at h
          cases h
          refine Or.inl (movesPlain_setRegistry ?_ trivial)
          refine NoNews.of_update ?_ ?_ rfl
          · intro data hfilled
            cases hfilled
          intro sender hsender
          cases hsender
          exact ⟨rfl, rfl⟩
        | some state =>
          cases state with
          | fetching leader =>
            simp only [FillRegistry.claimFill, hclaim] at h
            cases h
            exact Or.inr (Or.inl ⟨leader, rfl,
              moves_setRegistry (NoNews.of_claims rfl) _⟩)
          | filled data =>
            simp only [FillRegistry.claimFill, hclaim] at h
            cases h
            exact Or.inr (Or.inr ⟨data, rfl,
              moves_setRegistry (NoNews.of_claims rfl) _⟩)
          | exclusive | poisoned =>
            simp only [FillRegistry.claimFill, hclaim] at h
            cases h
            exact Or.inl
              (movesPlain_setRegistry (NoNews.of_claims rfl) trivial)
      · cases h
        exact Or.inl (movesPlain_setPhase trivial)
    · cases h
  · cases h

theorem receive_spec (h : receive s r = some s') :
    exists get leader, s.gets r.1 = some get ∧
      s.phase r = .waiting leader ∧
      (MovesPlain s r s' ∨
        exists data, s.sent leader = some data ∧
          Moves s r (.done data.bytes) s') := by
  unfold receive at h
  split at h
  · rename_i get leader hget hphase
    refine ⟨get, leader, hget, hphase, ?_⟩
    split at h
    · rename_i data hdata
      cases h
      exact Or.inr ⟨data, hdata, moves_setPhase s r _⟩
    · split at h
      · split at h
        · cases h
        · cases h
          exact Or.inl (movesPlain_setPhase trivial)
      · cases h
        exact Or.inl (movesPlain_setPhase trivial)
  · cases h

theorem beginRead_spec (h : beginRead s r = some s') :
    exists get, s.gets r.1 = some get ∧ MovesPlain s r s' := by
  unfold beginRead at h
  split at h
  · rename_i get hget _
    cases h
    exact ⟨get, hget,
      movesPlain_setRegistry (NoNews.beginRead (get.node, r.2)) trivial⟩
  · rename_i get hget _
    cases h
    exact ⟨get, hget, movesPlain_setPhase trivial⟩
  · cases h

theorem beginPeer_spec (h : beginPeer cfg s r = some s') :
    exists get, s.gets r.1 = some get ∧ MovesPlain s r s' := by
  unfold beginPeer at h
  split at h
  · rename_i get hget _
    split at h
    · cases h
    cases h
    exact ⟨get, hget,
    movesPlain_setRegistry (NoNews.beginRead (get.node, r.2)) trivial⟩
  · cases h

theorem giveUp_spec (h : giveUp s r = some s') :
    exists get, s.gets r.1 = some get ∧ MovesPlain s r s' := by
  unfold giveUp at h
  split at h
  · rename_i get _ hget _
    cases h
    exact ⟨get, hget,
      movesPlain_setRegistry (NoNews.dropTicket (get.node, r.2)) trivial⟩
  · cases h

theorem abandon_spec (h : abandon s r = some s') :
    exists get, s.gets r.1 = some get ∧ MovesPlain s r s' := by
  unfold abandon at h
  split at h
  · rename_i get _ hget _
    cases h
    exact ⟨get, hget, movesPlain_setPhase trivial⟩
  · rename_i get _ hget _
    cases h
    exact ⟨get, hget,
      movesPlain_setRegistry (NoNews.dropTicket (get.node, r.2)) trivial⟩
  · rename_i get hget _
    cases h
    exact ⟨get, hget,
      movesPlain_setRegistry (NoNews.release (get.node, r.2)) trivial⟩
  · rename_i get _ hget _
    cases h
    exact ⟨get, hget,
      movesPlain_setRegistry (NoNews.dropTicket (get.node, r.2)) trivial⟩
  · rename_i get hget _
    cases h
    exact ⟨get, hget, movesPlain_setPhase trivial⟩
  · rename_i get fill _ hget _
    split at h
    · cases h
      exact ⟨get, hget,
      movesPlain_setRegistry (NoNews.letGo (get.node, r.2) fill) trivial⟩
    · cases h
  · cases h

theorem peerAnswers_spec (get : Get) (ticket : Nat) (answer : CachedChunk) :
    peerAnswers s r get ticket answer = s ∨
      (get.witnessMatches answer.eTag = true ∧
        exists ticket', Moves s r (.fetched ticket' true answer.body)
          (peerAnswers s r get ticket answer)) := by
  unfold peerAnswers
  split
  · rename_i hmatch
    exact Or.inr ⟨hmatch, ticket, moves_setPhase s r _⟩
  · exact Or.inl rfl

theorem askPeer_spec {node : Nat} (h : askPeer s r node = some s') :
    exists get answer, s.gets r.1 = some get ∧
      s.tier (node, r.2) = some answer ∧
      (s' = s ∨ (get.witnessMatches answer.eTag = true ∧
        exists ticket, Moves s r (.fetched ticket true answer.body) s')) := by
  unfold askPeer at h
  split at h
  · rename_i get ticket hget _
    split at h
    · cases h
    rename_i answer hanswer
    cases h
    exact ⟨get, answer, hget, hanswer, peerAnswers_spec get ticket answer⟩
  · cases h

theorem askPump_spec (h : askPump s r p = some s') :
    exists get pump answer, s.gets r.1 = some get ∧
      s.pumps p = some pump ∧ pump.place.2 = r.2 ∧
      pump.answer = some answer ∧
      (s' = s ∨ (get.witnessMatches answer.eTag = true ∧
        exists ticket, Moves s r (.fetched ticket true answer.body) s')) := by
  unfold askPump at h
  split at h
  · rename_i get ticket pump hget _ hpump
    split at h
    · rename_i hindex
      split at h
      · cases h
      rename_i answer hanswer
      cases h
      exact ⟨get, pump, answer, hget, hpump, hindex, hanswer,
        peerAnswers_spec get ticket answer⟩
    · cases h
  · cases h

theorem read_spec (h : read cfg s r = some s') :
    exists get body, s.gets r.1 = some get ∧
      readBackendChunk cfg s get r.2 = some body ∧
      ((s.phase r = .leading ∧ Moves s r (.led body) s') ∨
        (exists ticket, s.phase r = .reading (some ticket) ∧
          Moves s r (.fetched ticket false body) s') ∨
        (s.phase r = .reading none ∧ Moves s r (.done body) s')) := by
  unfold read at h
  split at h
  · cases h
  rename_i get hget
  split at h
  · cases h
  rename_i body hbody
  refine ⟨get, body, hget, hbody, ?_⟩
  split at h
  · rename_i hphase
    cases h
    exact Or.inl ⟨hphase, moves_setPhase s r _⟩
  · rename_i ticket hphase
    cases h
    exact Or.inr (Or.inl ⟨ticket, hphase, moves_setPhase s r _⟩)
  · rename_i hphase
    cases h
    exact Or.inr (Or.inr ⟨hphase, moves_setPhase s r _⟩)
  · cases h

theorem claim_spec {gate : Bool} (h : claim s r gate = some s') :
    exists get ticket fromPeer body stage, s.gets r.1 = some get ∧
      s.phase r = .fetched ticket fromPeer body ∧
      Moves s r (.inserting
        { read := some ticket, cached := get.toCached body, stage := stage }
        body) s' := by
  unfold claim at h
  split at h
  · rename_i get ticket fromPeer body hget hphase
    dsimp only at h
    split at h
    · cases h
      exact ⟨get, ticket, fromPeer, body, _, hget, hphase,
        moves_setPhase s r _⟩
    · split at h
      · rename_i registry hclaim
        cases h
        exact ⟨get, ticket, fromPeer, body, _, hget, hphase,
          moves_setRegistry (NoNews.claimExclusive hclaim) _⟩
      · cases h
        exact ⟨get, ticket, fromPeer, body, _, hget, hphase,
          moves_setPhase s r _⟩
  · cases h

def leaderFill (get : Get) (body : Bytes) : Fill CachedChunk :=
  { read := none,
    cached := get.toCached body,
    stage := if get.admits then .checkClaim else .release }

theorem publish_spec (h : publish s r = some s') :
    exists get body, s.gets r.1 = some get ∧ s.phase r = .led body ∧
      (Moves s r (.inserting (leaderFill get body) body) s' ∨
        exists sender, s.registry.claims (get.node, r.2) =
            some (.fetching sender) ∧
          s' = ((s.setSent sender ⟨body, r⟩).setRegistry
            { s.registry with
              claims := update s.registry.claims (get.node, r.2)
                (some (.filled ⟨body, r⟩)) }).setPhase r
            (.inserting (leaderFill get body) body)) := by
  unfold publish at h
  split at h
  · rename_i get body hget hphase
    refine ⟨get, body, hget, hphase, ?_⟩
    dsimp only at h
    unfold FillRegistry.publish at h
    split at h
    · rename_i sender registry hpublish
      split at hpublish
      · rename_i hsender
        cases hpublish
        cases h
        exact Or.inr ⟨_, hsender, rfl⟩
      · cases hpublish
    · rename_i registry hpublish
      split at hpublish
      · cases hpublish
      cases hpublish
      cases h
      exact Or.inl (moves_setRegistry (NoNews.of_claims rfl) _)
  · cases h

structure Aside (s s' : State contentOf) : Prop where
  gets : s'.gets = s.gets
  phase : s'.phase = s.phase
  sent : s'.sent = s.sent
  news : forall r, NoNews r s.registry s'.registry

theorem aside_setTier (h : forall r, NoNews r s.registry registry)
    (place : Place) (held : Option CachedChunk) :
    Aside s ((s.setRegistry registry).setTier place held) :=
  ⟨rfl, rfl, rfl, h⟩

theorem aside_setPump (h : forall r, NoNews r s.registry registry) (p : Nat)
    (pump : Pump) :
    Aside s ((s.setRegistry registry).setPump p pump) :=
  ⟨rfl, rfl, rfl, h⟩

theorem rememberHeader_aside {g : Nat}
    (h : rememberHeader cfg s g = some s') : Aside s s' := by
  unfold rememberHeader at h
  split at h
  · cases h
  split at h
  · cases h
    exact ⟨rfl, rfl, rfl, fun _ => NoNews.of_claims rfl⟩
  · cases h

theorem readThrough_aside (h : readThrough cfg s p place = some s')
    : Aside s s' := by
  unfold readThrough at h
  split at h
  · cases h
  split at h
  · cases h
    exact aside_setPump (fun _ => NoNews.beginRead place) p _
  · cases h

theorem respond_aside (h : respond cfg s p = some s') :
    Aside s s' := by
  unfold respond at h
  split at h
  · dsimp only at h
    split at h
    · cases h
    · cases h
      exact ⟨rfl, rfl, rfl, fun _ => NoNews.of_claims rfl⟩
  · cases h

theorem pumpClaim_aside {admitted : Bool} (h : pumpClaim s p admitted = some s')
    : Aside s s' := by
  unfold pumpClaim at h
  split at h
  · dsimp only at h
    split at h
    · rename_i registry hclaim
      cases h
      split at hclaim
      · exact aside_setPump (fun _ => NoNews.claimExclusive hclaim) p _
      · cases hclaim
    · cases h
      exact ⟨rfl, rfl, rfl, fun _ => NoNews.of_claims rfl⟩
  · cases h

theorem pumpInsert_aside {wrote : Bool} (h : pumpInsert cfg s p wrote = some s')
    : Aside s s' := by
  unfold pumpInsert at h
  split at h
  · split at h
    · rename_i hadvance
      cases h
      exact ⟨rfl, rfl, rfl, fun _ => NoNews.advance hadvance⟩
    · rename_i hadvance
      cases h
      exact ⟨rfl, rfl, rfl, fun _ => NoNews.advance hadvance⟩
  · cases h

theorem pumpAbandon_aside (h : pumpAbandon s p = some s') :
    Aside s s' := by
  unfold pumpAbandon at h
  split at h
  · rename_i place _ _ _
    cases h
    exact aside_setPump (fun _ => NoNews.dropTicket place) p _
  · rename_i place fill _ _
    split at h
    · cases h
      exact aside_setPump (fun _ => NoNews.letGo place fill) p _
    · cases h
  · cases h

end Specs

def served (cfg : Config) (s : State contentOf) (g : Nat) : Option Bytes :=
  match s.gets g with
  | none => none
  | some get =>
    ((cfg.chunk.coveringChunks get.start get.stop).mapM fun index =>
      match s.phase (g, index) with
      | .done body =>
        some (cfg.chunk.trimmed get.header.objectLen get.start get.stop
          index body)
      | _ => none).map List.flatten

end ReadPath

end Daemon
end Pacer
