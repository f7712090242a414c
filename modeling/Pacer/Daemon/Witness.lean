import Pacer.Daemon.ReadPath

/-!
# Witnesses of cached chunks

A cached chunk's witness is the ETag of the version its bytes are said to be
of.  A read-through takes it from the response its bytes came in; a GET's fill
takes it from the header the GET resolved before it read.

The main result: witnesses tell the truth in every run in which a read whose
bytes may be inserted finds the backend at the version of the GET's header.
-/

namespace Pacer
namespace Daemon

open Foundation Function
open Foundation.Transition
open Cache

namespace ReadPath

section Invariant

variable (cfg : Config) (contentOf : String -> Bytes)

/-- The witness of a chunk names a version whose bytes the chunk holds. -/
def Truthful (index : Nat) (chunk : CachedChunk) : Prop :=
  forall e, chunk.eTag = some e ->
    ChunkAt cfg.chunk (contentOf (trimQuotes e)) index chunk.body

def Right (get : Get) (index : Nat) (body : Bytes) : Prop :=
  Truthful cfg contentOf index (get.toCached body)

def PhaseOk (get : Get) (index : Nat) : Phase -> Prop
  | .led body => get.admits = true -> Right cfg contentOf get index body
  | .fetched _ _ body => Right cfg contentOf get index body
  | .inserting fill _ => fill.MayWrite -> Truthful cfg contentOf index fill.cached
  | _ => True

structure PumpOk (pump : Pump) : Prop where
  answer : forall chunk, pump.answer = some chunk ->
    Truthful cfg contentOf pump.place.2 chunk
  answered : forall ticket chunk, pump.phase = .answered ticket chunk ->
    Truthful cfg contentOf pump.place.2 chunk
  inserting : forall fill, pump.phase = .inserting fill -> fill.MayWrite ->
    Truthful cfg contentOf pump.place.2 fill.cached

structure Witnessed (s : State contentOf) : Prop where
  headers : forall node header, s.headers node = some header ->
    GenuineHeader contentOf header
  gets : forall g get, s.gets g = some get ->
    GenuineHeader contentOf get.header
  unstarted : forall r : ReadId, s.gets r.1 = none -> s.phase r = .idle
  tier : forall place held, s.tier place = some held ->
    Truthful cfg contentOf place.2 held
  phases : forall (r : ReadId) get, s.gets r.1 = some get ->
    PhaseOk cfg contentOf get r.2 (s.phase r)
  pumps : forall p pump, s.pumps p = some pump -> PumpOk cfg contentOf pump

end Invariant

variable {contentOf : String -> Bytes} {cfg : Config} {s s' : State contentOf}

def Current (get : Get) (v : Version contentOf) : Prop :=
  forall e, get.header.eTag = some e ->
    exists now, v.eTag = some now ∧ trimQuotes now = trimQuotes e

/-- A read whose bytes may be inserted is made while the backend holds the
GET's version. -/
def FillsCurrent (s : State contentOf) : Event contentOf -> Prop
  | .read r => forall get, s.gets r.1 = some get ->
      (s.phase r = .leading ∧ get.admits = true) ∨
        (exists ticket, s.phase r = .reading (some ticket)) ->
      Current get s.backend
  | _ => True

/-!
## State updates
-/

theorem witnessed_start (v : Version contentOf) :
    Witnessed cfg contentOf (State.start v) := by
  refine ⟨?_, ?_, fun _ _ => rfl, ?_, ?_, ?_⟩
  · intro node header h
    cases h
  · intro g get h
    cases h
  · intro place held h
    cases h
  · intro r get h
    cases h
  · intro p pump h
    cases h

variable {p : Nat} {get : Get}

variable {place : Place}

namespace Witnessed

variable (h : Witnessed cfg contentOf s)

include h

theorem setRegistry (registry : FillRegistry Place ReadId Published) :
    Witnessed cfg contentOf (s.setRegistry registry) :=
  ⟨h.headers, h.gets, h.unstarted, h.tier, h.phases, h.pumps⟩

theorem setTier {held : Option CachedChunk}
    (hheld : forall chunk, held = some chunk ->
      Truthful cfg contentOf place.2 chunk) :
    Witnessed cfg contentOf (s.setTier place held) := by
  refine ⟨h.headers, h.gets, h.unstarted, ?_, h.phases, h.pumps⟩
  exact Table.forall_update h.tier hheld

theorem setPhase {r : ReadId} {phase : Phase} (hget : s.gets r.1 = some get)
    (hphase : PhaseOk cfg contentOf get r.2 phase) :
    Witnessed cfg contentOf (s.setPhase r phase) := by
  refine ⟨h.headers, h.gets, ?_, h.tier, ?_, h.pumps⟩
  · intro q hq
    change update s.phase r phase q = .idle
    rw [update_apply]
    split
    · rename_i heq
      change s.gets q.1 = none at hq
      rw [heq, hget] at hq
      cases hq
    · exact h.unstarted q hq
  · intro q other hq
    change PhaseOk cfg contentOf other q.2 (update s.phase r phase q)
    rw [update_apply]
    split
    · rename_i heq
      change s.gets q.1 = some other at hq
      rw [heq, hget] at hq
      cases hq
      rw [heq]
      exact hphase
    · exact h.phases q other hq

theorem setPump {pump : Pump} (hpump : PumpOk cfg contentOf pump) :
    Witnessed cfg contentOf (s.setPump p pump) := by
  refine ⟨h.headers, h.gets, h.unstarted, h.tier, h.phases, ?_⟩
  exact Table.forall_update_some h.pumps hpump

theorem startGet {g node : Nat} {range : Option HttpRange}
    {decision : ReadDecision} {header : ObjectHeader}
    (hheader : GenuineHeader contentOf header)
    (hstep : ReadPath.startGet s g node range decision header = some s') :
    Witnessed cfg contentOf s' := by
  unfold ReadPath.startGet at hstep
  split at hstep
  · cases hstep
  rename_i hfresh
  split at hstep
  · cases hstep
  cases hstep
  refine ⟨h.headers, ?_, ?_, h.tier, ?_, h.pumps⟩
  · exact Table.forall_update_some h.gets hheader
  · intro r hr
    dsimp only at hr
    rw [update_apply] at hr
    split at hr
    · cases hr
    · exact h.unstarted r hr
  · intro r get hr
    dsimp only at hr
    rw [update_apply] at hr
    split at hr
    · rename_i heq
      rw [← heq] at hfresh
      dsimp only
      rw [h.unstarted r hfresh]
      exact trivial
    · exact h.phases r get hr

end Witnessed

/-!
## Bytes that are right
-/

theorem right_of_witnessMatches {index : Nat} {chunk : CachedChunk}
    (htrue : Truthful cfg contentOf index chunk)
    (hmatch : get.witnessMatches chunk.eTag = true) :
    Right cfg contentOf get index chunk.body := by
  intro e he
  rcases (sameVersion_iff _ _).mp hmatch with ⟨x, y, hx, hy, hsame⟩
  change get.header.eTag = some e at he
  rw [hx] at he
  cases he
  rw [hsame]
  exact htrue y hy

theorem right_of_current {index : Nat} {body : Bytes}
    (hgenuine : GenuineHeader contentOf get.header)
    (hcurrent : Current get s.backend)
    (hread : readBackendChunk cfg s get index = some body) :
    Right cfg contentOf get index body := by
  intro e he
  rcases hcurrent e he with ⟨now, hnow, hsame⟩
  have hcontent := s.backend.identified now hnow
  rw [hsame] at hcontent
  unfold readBackendChunk at hread
  split at hread
  · cases hread
  rename_i lo hi hbounds
  rw [hgenuine e he, ← hcontent] at hbounds
  rw [← hcontent]
  exact Version.chunkAt_of_readRange hbounds hread

/-!
## Steps of a GET
-/

namespace Witnessed

variable (h : Witnessed cfg contentOf s) {r : ReadId}

include h

theorem rememberHeader {g : Nat}
    (hstep : ReadPath.rememberHeader cfg s g = some s') :
    Witnessed cfg contentOf s' := by
  unfold ReadPath.rememberHeader at hstep
  split at hstep
  · cases hstep
  rename_i get hget
  split at hstep
  · cases hstep
    refine ⟨?_, h.gets, h.unstarted, h.tier, h.phases, h.pumps⟩
    exact Table.forall_update_some h.headers (h.gets g get hget)
  · cases hstep

theorem moves {phase : Phase} (hget : s.gets r.1 = some get)
    (hmoves : Moves s r phase s')
    (hphase : PhaseOk cfg contentOf get r.2 phase) :
    Witnessed cfg contentOf s' := by
  rcases hmoves with ⟨registry, tier, _, htier, rfl⟩
  have hless : Witnessed cfg contentOf
      { s with registry := registry, tier := tier } :=
    ⟨h.headers, h.gets, h.unstarted,
      fun q held hq => h.tier q held (htier q held hq), h.phases, h.pumps⟩
  exact hless.setPhase hget hphase

theorem movesPlain
    (hmoves : exists get, s.gets r.1 = some get ∧ MovesPlain s r s') :
    Witnessed cfg contentOf s' := by
  rcases hmoves with ⟨get, hget, phase, hplain, hmoves⟩
  refine h.moves hget hmoves ?_
  cases phase <;> trivial

theorem lookup (hstep : ReadPath.lookup cfg s r = some s') :
    Witnessed cfg contentOf s' := by
  rcases lookup_spec hstep with ⟨get, hget, hplain | ⟨held, _, _, hmoves⟩⟩
  · exact h.movesPlain ⟨get, hget, hplain⟩
  · exact h.moves hget hmoves trivial

theorem fetchOwned (hstep : ReadPath.fetchOwned cfg s r = some s') :
    Witnessed cfg contentOf s' := by
  rcases fetchOwned_spec hstep with
    ⟨get, hget, hplain | ⟨leader, _, hmoves⟩ | ⟨data, _, hmoves⟩⟩
  · exact h.movesPlain ⟨get, hget, hplain⟩
  · exact h.moves hget hmoves trivial
  · exact h.moves hget hmoves trivial

theorem receive (hstep : ReadPath.receive s r = some s') :
    Witnessed cfg contentOf s' := by
  rcases receive_spec hstep with
    ⟨get, leader, hget, _, hplain | ⟨data, _, hmoves⟩⟩
  · exact h.movesPlain ⟨get, hget, hplain⟩
  · exact h.moves hget hmoves trivial

theorem askPeer {node : Nat} (hstep : ReadPath.askPeer s r node = some s') :
    Witnessed cfg contentOf s' := by
  rcases askPeer_spec hstep with
    ⟨get, answer, hget, hanswer, rfl | ⟨hmatch, ticket, hmoves⟩⟩
  · exact h
  · have htrue : Truthful cfg contentOf r.2 answer :=
      h.tier (node, r.2) answer hanswer
    exact h.moves hget hmoves (right_of_witnessMatches htrue hmatch)

theorem askPump (hstep : ReadPath.askPump s r p = some s') :
    Witnessed cfg contentOf s' := by
  rcases askPump_spec hstep with
    ⟨get, pump, answer, hget, hpump, hindex, hanswer,
      rfl | ⟨hmatch, ticket, hmoves⟩⟩
  · exact h
  · have htrue := (h.pumps p pump hpump).answer answer hanswer
    rw [hindex] at htrue
    exact h.moves hget hmoves (right_of_witnessMatches htrue hmatch)

theorem read (hguard : FillsCurrent s (.read r))
    (hstep : ReadPath.read cfg s r = some s') : Witnessed cfg contentOf s' := by
  rcases read_spec hstep with ⟨get, body, hget, hbody,
    ⟨hphase, hmoves⟩ | ⟨ticket, hphase, hmoves⟩ | ⟨_, hmoves⟩⟩
  · refine h.moves hget hmoves ?_
    intro hadmits
    exact right_of_current (h.gets r.1 get hget)
      (hguard get hget (Or.inl ⟨hphase, hadmits⟩)) hbody
  · refine h.moves hget hmoves ?_
    exact right_of_current (h.gets r.1 get hget)
      (hguard get hget (Or.inr ⟨ticket, hphase⟩)) hbody
  · exact h.moves hget hmoves trivial

theorem publish (hstep : ReadPath.publish s r = some s') :
    Witnessed cfg contentOf s' := by
  rcases publish_spec hstep with ⟨get, body, hget, hphase, hcase⟩
  have hled := h.phases r get hget
  rw [hphase] at hled
  -- Only a leader whose read may fill gets to its write.
  have hok : PhaseOk cfg contentOf get r.2
      (.inserting (leaderFill get body) body) := by
    intro hmay
    unfold Fill.MayWrite leaderFill at hmay
    dsimp only at hmay
    split_ifs at hmay with hadmits
    · exact hled hadmits
    · simp at hmay
  rcases hcase with hmoves | ⟨sender, _, rfl⟩
  · exact h.moves hget hmoves hok
  · have hsent : Witnessed cfg contentOf (s.setSent sender ⟨body, r⟩) :=
      ⟨h.headers, h.gets, h.unstarted, h.tier, h.phases, h.pumps⟩
    exact (hsent.setRegistry _).setPhase hget hok

theorem claim {gate : Bool} (hstep : ReadPath.claim s r gate = some s') :
    Witnessed cfg contentOf s' := by
  rcases claim_spec hstep with
    ⟨get, ticket, fromPeer, body, stage, hget, hphase, hmoves⟩
  have hfetched := h.phases r get hget
  rw [hphase] at hfetched
  exact h.moves hget hmoves (fun _ => hfetched)

variable {wrote : Bool}

theorem advance (place : Place) {fill : Fill CachedChunk}
    {registry : FillRegistry Place ReadId Published} {held : Option CachedChunk}
    {next : Option (Fill CachedChunk)}
    (hfill : fill.MayWrite -> Truthful cfg contentOf place.2 fill.cached)
    (hadvance : fill.advance cfg.tier s.registry place (s.tier place) wrote =
      (registry, held, next)) :
    Witnessed cfg contentOf ((s.setRegistry registry).setTier place held) := by
  apply (h.setRegistry registry).setTier
  intro chunk hchunk
  rcases Fill.held_advance hadvance hchunk with hold | ⟨hmay, rfl⟩
  · exact h.tier place chunk hold
  · exact hfill hmay

theorem insert (hstep : ReadPath.insert cfg s r wrote = some s') :
    Witnessed cfg contentOf s' := by
  unfold ReadPath.insert at hstep
  split at hstep
  · rename_i get fill body hget hphase
    have hfill := h.phases r get hget
    rw [hphase] at hfill
    split at hstep
    · rename_i registry held next hadvance
      cases hstep
      have htier := h.advance (get.node, r.2) hfill hadvance
      rcases Fill.next_advance hadvance with ⟨hcached, hmay⟩
      refine htier.setPhase hget ?_
      intro hwrite
      rw [hcached]
      exact hfill (hmay hwrite)
    · rename_i registry held hadvance
      cases hstep
      have htier := h.advance (get.node, r.2) hfill hadvance
      exact htier.setPhase hget trivial
  · cases hstep

/-!
## Steps of a read-through
-/

theorem readThrough (hstep : ReadPath.readThrough cfg s p place = some s') :
    Witnessed cfg contentOf s' := by
  unfold ReadPath.readThrough at hstep
  split at hstep
  · cases hstep
  split at hstep
  · cases hstep
    apply (h.setRegistry _).setPump
    constructor
    · intro chunk hchunk
      cases hchunk
    · intro ticket chunk hchunk
      cases hchunk
    · intro fill hfill
      cases hfill
  · cases hstep

theorem respond (hstep : ReadPath.respond cfg s p = some s') :
    Witnessed cfg contentOf s' := by
  unfold ReadPath.respond at hstep
  split at hstep
  · rename_i place ticket _ hpump
    dsimp only at hstep
    split at hstep
    · cases hstep
    rename_i body hread
    cases hstep
    have htrue : Truthful cfg contentOf place.2
        ⟨body, s.backend.eTag.map trimQuotes⟩ := by
      intro e he
      rcases Option.map_eq_some_iff.mp he with ⟨now, hnow, rfl⟩
      rw [trimQuotes_trimQuotes, ← s.backend.identified now hnow]
      exact Version.chunkAt_of_readRange_width hread
    apply h.setPump
    constructor
    · intro chunk hchunk
      cases hchunk
      exact htrue
    · intro ticket chunk hchunk
      cases hchunk
      exact htrue
    · intro fill hfill
      cases hfill
  · cases hstep

theorem pumpClaim {admitted : Bool}
    (hstep : ReadPath.pumpClaim s p admitted = some s') :
    Witnessed cfg contentOf s' := by
  unfold ReadPath.pumpClaim at hstep
  split at hstep
  · rename_i place ticket chunk answer hpump
    have hold := h.pumps p _ hpump
    have hok : forall stage, PumpOk cfg contentOf
        { place := place,
          phase := .inserting
            { read := some ticket, cached := chunk, stage := stage },
          answer := answer } := by
      intro stage
      constructor
      · exact hold.answer
      · intro ticket chunk hchunk
        cases hchunk
      · intro fill hfill _
        cases hfill
        exact hold.answered ticket chunk rfl
    dsimp only at hstep
    split at hstep
    · cases hstep
      exact (h.setRegistry _).setPump (hok _)
    · cases hstep
      exact h.setPump (hok _)
  · cases hstep

omit h in
theorem pumpOk_finished {phase : PumpPhase} {answer : Option CachedChunk}
    (hold : PumpOk cfg contentOf ⟨place, phase, answer⟩) :
    PumpOk cfg contentOf ⟨place, .finished, answer⟩ := by
  constructor
  · exact hold.answer
  · intro ticket chunk hchunk
    cases hchunk
  · intro fill hfill
    cases hfill

theorem pumpInsert (hstep : ReadPath.pumpInsert cfg s p wrote = some s') :
    Witnessed cfg contentOf s' := by
  unfold ReadPath.pumpInsert at hstep
  split at hstep
  · rename_i place fill answer hpump
    have hold := h.pumps p _ hpump
    have hfill := hold.inserting fill rfl
    split at hstep
    · rename_i registry held next hadvance
      cases hstep
      refine (h.advance place hfill hadvance).setPump ?_
      rcases Fill.next_advance hadvance with ⟨hcached, hmay⟩
      constructor
      · exact hold.answer
      · intro ticket chunk hchunk
        cases hchunk
      · intro other hother hwrite
        cases hother
        rw [hcached]
        exact hfill (hmay hwrite)
    · rename_i registry held hadvance
      cases hstep
      exact (h.advance place hfill hadvance).setPump (pumpOk_finished hold)
  · cases hstep

theorem pumpAbandon (hstep : ReadPath.pumpAbandon s p = some s') :
    Witnessed cfg contentOf s' := by
  unfold ReadPath.pumpAbandon at hstep
  split at hstep
  · rename_i place ticket answer hpump
    cases hstep
    exact (h.setRegistry _).setPump (pumpOk_finished (h.pumps p _ hpump))
  · rename_i place fill answer hpump
    split at hstep
    · cases hstep
      exact (h.setRegistry _).setPump (pumpOk_finished (h.pumps p _ hpump))
    · cases hstep
  · cases hstep

/-!
## Whole runs
-/

theorem step {e : Event contentOf} (hguard : FillsCurrent s e)
    (hstep : ReadPath.step cfg s e = some s') : Witnessed cfg contentOf s' := by
  cases e <;> simp only [ReadPath.step] at hstep
  case overwrite v =>
    cases hstep
    exact ⟨h.headers, h.gets, h.unstarted, h.tier, h.phases, h.pumps⟩
  case forget place =>
    cases hstep
    apply h.setTier
    intro chunk hchunk
    cases hchunk
  case poisonClaim place =>
    cases hstep
    exact h.setRegistry _
  case poisonReads place =>
    cases hstep
    exact h.setRegistry _
  case forgetHeader node =>
    cases hstep
    refine ⟨?_, h.gets, h.unstarted, h.tier, h.phases, h.pumps⟩
    intro other header hheader
    dsimp only at hheader
    rw [update_apply] at hheader
    split at hheader
    · cases hheader
    · exact h.headers other header hheader
  case head g node range decision =>
    exact h.startGet s.backend.genuine_header hstep
  case useHeader g node range decision =>
    split at hstep
    · cases hstep
    rename_i header hheader
    exact h.startGet (h.headers node header hheader) hstep
  case rememberHeader g => exact h.rememberHeader hstep
  case lookup r => exact h.lookup hstep
  case lookupFails r => exact h.movesPlain (lookupFails_spec hstep)
  case forgetStale r => exact h.movesPlain (forgetStale_spec hstep)
  case fetchOwned r => exact h.fetchOwned hstep
  case receive r => exact h.receive hstep
  case beginRead r => exact h.movesPlain (beginRead_spec hstep)
  case beginPeer r => exact h.movesPlain (beginPeer_spec hstep)
  case askPeer r node => exact h.askPeer hstep
  case askPump r p => exact h.askPump hstep
  case giveUp r => exact h.movesPlain (giveUp_spec hstep)
  case read r => exact h.read hguard hstep
  case publish r => exact h.publish hstep
  case claim r gate => exact h.claim hstep
  case insert r wrote => exact h.insert hstep
  case abandon r => exact h.movesPlain (abandon_spec hstep)
  case readThrough p place => exact h.readThrough hstep
  case respond p => exact h.respond hstep
  case pumpClaim p admitted => exact h.pumpClaim hstep
  case pumpInsert p wrote => exact h.pumpInsert hstep
  case pumpAbandon p => exact h.pumpAbandon hstep

end Witnessed

theorem witnessed_of_run {v : Version contentOf} {final : State contentOf}
    {events : List (Event contentOf)}
    (hguard : Along (step cfg) FillsCurrent (State.start v) events)
    (hrun : run (step cfg) (State.start v) events = some final) :
    Witnessed cfg contentOf final :=
  run_preserves (fun _ _ _ hinv hfills hstep => hinv.step hfills hstep)
    (witnessed_start v) hguard hrun

/-- Every witnessed chunk of every tier is the chunk of the version its witness
names. -/
theorem cached_witnesses_are_true {v : Version contentOf}
    {final : State contentOf} {events : List (Event contentOf)}
    (hguard : Along (step cfg) FillsCurrent (State.start v) events)
    (hrun : run (step cfg) (State.start v) events = some final)
    {place : Place} {held : CachedChunk} {e : String}
    (hheld : final.tier place = some held) (he : held.eTag = some e) :
    ChunkAt cfg.chunk (contentOf (trimQuotes e)) place.2 held.body :=
  (witnessed_of_run hguard hrun).tier place held hheld e he

/-!
## One home and two versions
-/

def oneNode : Config :=
  { chunk := { chunkSize := 1, positive := Nat.one_pos },
    tier := .store,
    coalesce := true,
    ownsKey := fun _ => true,
    ownsChunk := fun _ => true }

def twoContents (eTag : String) : Bytes :=
  if eTag = "1" then [1, 1] else [2, 2]

def versionOne : Version twoContents :=
  { eTag := some "1",
    content := [1, 1],
    identified := by
      intro e he
      cases he
      rfl }

def versionTwo : Version twoContents :=
  { eTag := some "2",
    content := [2, 2],
    identified := by
      intro e he
      cases he
      rfl }

def fillsFirstChunk : List (Event twoContents) :=
  [.lookup (0, 0), .fetchOwned (0, 0), .read (0, 0), .publish (0, 0),
    .insert (0, 0) true, .insert (0, 0) true, .insert (0, 0) true]

def fillsChunk (r : ReadId) : List (Event twoContents) :=
  [.fetchOwned r, .read r, .publish r] ++ List.replicate 8 (.insert r true)

/-- A GET fills both chunks, the object is overwritten, and a second GET finds
the first chunk stale and fills it again. -/
def refilled : List (Event twoContents) :=
  [.head 0 0 none .cacheAndFill, .lookup (0, 0), .lookup (0, 1)] ++
    fillsChunk (0, 0) ++ fillsChunk (0, 1) ++
    [.overwrite versionTwo, .head 1 0 none .cacheAndFill, .lookup (1, 0),
      .forgetStale (1, 0)] ++
    fillsChunk (1, 0)

theorem fillsCurrent_of_tag {s : State twoContents} {r : ReadId} {get : Get}
    {tag : String} (hget : s.gets r.1 = some get)
    (hbackend : s.backend.eTag = some tag)
    (hheader : get.header.eTag = some tag) : FillsCurrent s (.read r) := by
  intro found hfound _ e he
  rw [hget] at hfound
  cases hfound
  rw [hheader] at he
  cases he
  exact ⟨tag, hbackend, rfl⟩

theorem along_refilled :
    Along (step oneNode) FillsCurrent (State.start versionOne) refilled := by
  iterate 4 apply along_cons_of_step trivial rfl
  refine along_cons_of_step (fillsCurrent_of_tag rfl rfl rfl) rfl ?_
  iterate 10 apply along_cons_of_step trivial rfl
  refine along_cons_of_step (fillsCurrent_of_tag rfl rfl rfl) rfl ?_
  iterate 14 apply along_cons_of_step trivial rfl
  refine along_cons_of_step (fillsCurrent_of_tag rfl rfl rfl) rfl ?_
  iterate 8 apply along_cons_of_step trivial rfl
  exact along_cons_of_step trivial rfl trivial

theorem cached_witnesses_are_true_refilled : exists final,
    run (step oneNode) (State.start versionOne) refilled = some final ∧
    final.tier (0, 0) = some ⟨[2], some "2"⟩ ∧
    final.tier (0, 1) = some ⟨[1], some "1"⟩ ∧
    ChunkAt oneNode.chunk (twoContents (trimQuotes "2")) 0 [2] ∧
    ChunkAt oneNode.chunk (twoContents (trimQuotes "1")) 1 [1] := by
  refine ⟨_, rfl, rfl, rfl, ?_, ?_⟩
  · exact @cached_witnesses_are_true _ _ _ _ _ along_refilled rfl (0, 0)
      ⟨[2], some "2"⟩ "2" rfl rfl
  · exact @cached_witnesses_are_true _ _ _ _ _ along_refilled rfl (0, 1)
      ⟨[1], some "1"⟩ "1" rfl rfl

/-- The object is overwritten between the header lookup and the read: the new
version's byte is held under the old version's ETag. -/
theorem overtaken_fill_lies :
    exists final held,
      run (step oneNode) (State.start versionOne)
        (.head 0 0 none .cacheAndFill :: .overwrite versionTwo ::
          fillsFirstChunk) = some final ∧
      final.tier (0, 0) = some held ∧ held.eTag = some "1" ∧
      ¬ ChunkAt oneNode.chunk (twoContents (trimQuotes "1")) 0 held.body := by
  refine ⟨_, _, rfl, rfl, rfl, ?_⟩
  intro h
  have hbody := h.eq_chunkOf
  revert hbody
  decide

end ReadPath

end Daemon
end Pacer
