import Mathlib.Data.List.Nodup
import Pacer.Foundation.ByteFile
import Pacer.Foundation.Table
import Pacer.Foundation.Transition

/-!
# The range an RDMA fetch lands in

A requester leases a range of a rail's arena, offers it with its fetch, and lets
the holder WRITE the chunk there.  If the holder answers that it did, the range
itself becomes the blob and stays leased until the blob is dropped.  If the
holder streams instead, if the call fails, or if the caller goes away, the range
goes back to the arena at once.

The holder answers when its WRITE completed, or when its deadline passed first;
then the WRITE may still be under way.  This module follows any number of
fetches between any nodes, byte by byte as their WRITEs land.
-/

namespace Pacer
namespace Transport

open Foundation Function
open Foundation.Transition
open Foundation.Table

namespace LandingRange

structure Config where
  rangeBytes : Nat
  ranges : Nat

abbrev Arena := Nat × Nat

inductive Reply where
  | written (len : Nat)
  | streamed
deriving DecidableEq, Repr

/-- How far a fetch has come: its range leased, the call made, or the range
handed on as a blob. -/
inductive Stage where
  | leased
  | called
  | holding (len : Nat)
deriving DecidableEq, Repr

structure Fetch where
  arena : Arena
  index : Nat
  key : String
  stage : Stage
deriving DecidableEq, Repr

inductive Phase where
  | arriving
  | serving
  | posted
  | over
deriving DecidableEq, Repr

/-- A call at its holder: the range offered, the body served for the key, the
bytes of it that have landed, and the answer. -/
structure Serve where
  arena : Arena
  index : Nat
  key : String
  body : Bytes
  phase : Phase
  landed : Nat -> Bool
  reply : Option Reply

structure State where
  free : Arena -> List Nat
  memory : Arena × Nat -> UInt8
  fetches : Nat -> Option Fetch
  serves : Nat -> Option Serve

inductive Event where
  | lease (f : Nat) (arena : Arena) (key : String)
  | call (f : Nat)
  | lose (f : Nat)
  | arrive (f : Nat) (body : Bytes)
  | decline (f : Nat)
  | post (f : Nat)
  | land (f i : Nat)
  | reap (f : Nat) (ok : Bool)
  | expire (f : Nat)
  | receive (f : Nat)
  | abandon (f : Nat)
  | drop (f : Nat)
deriving DecidableEq, Repr

def Config.address (cfg : Config) (index i : Nat) : Nat :=
  index * cfg.rangeBytes + i

namespace State

def start (cfg : Config) : State where
  free := fun _ => List.range cfg.ranges
  memory := fun _ => 0
  fetches := fun _ => none
  serves := fun _ => none

def setFetch (s : State) (f : Nat) (fetch : Fetch) : State :=
  { s with fetches := update s.fetches f (some fetch) }

def setServe (s : State) (f : Nat) (serve : Serve) : State :=
  { s with serves := update s.serves f (some serve) }

def setByte (s : State) (address : Arena × Nat) (byte : UInt8) : State :=
  { s with memory := update s.memory address byte }

def release (s : State) (f : Nat) (fetch : Fetch) : State :=
  { s with
    fetches := update s.fetches f none
    free := update s.free fetch.arena
      (fetch.index :: s.free fetch.arena) }

end State

def lease (s : State) (f : Nat) (arena : Arena) (key : String) :
    Option State :=
  match s.fetches f, s.serves f, s.free arena with
  | none, none, index :: rest =>
    some { s.setFetch f ⟨arena, index, key, .leased⟩ with
      free := update s.free arena rest }
  | _, _, _ => none

def call (s : State) (f : Nat) : Option State :=
  match s.fetches f with
  | none => none
  | some fetch =>
    match fetch.stage with
    | .leased =>
      some ((s.setFetch f { fetch with stage := .called }).setServe f
        ⟨fetch.arena, fetch.index, fetch.key, [], .arriving,
          fun _ => false, none⟩)
    | _ => none

def atHolder (s : State) (f : Nat) (phase : Phase)
    (act : Serve -> Option Serve) : Option State :=
  match s.serves f with
  | none => none
  | some serve =>
    if serve.phase = phase then (act serve).map (s.setServe f) else none

def land (cfg : Config) (s : State) (f i : Nat) : Option State :=
  match s.serves f with
  | none => none
  | some serve =>
    if serve.phase = .posted ∧ i < serve.body.length then
      let written := s.setByte (serve.arena, cfg.address serve.index i)
        (serve.body.getD i 0)
      some (written.setServe f
        { serve with landed := update serve.landed i true })
    else none

/-- The completion is reaped.  A good one says that every byte has landed; the
answer of a holder that no longer waits stands. -/
def Serve.reap (serve : Serve) (ok : Bool) : Option Serve :=
  if ok && !(List.range serve.body.length).all serve.landed then none
  else
    let reply := if ok then Reply.written serve.body.length else .streamed
    some { serve with
      phase := .over
      reply := some (serve.reply.getD reply) }

def Serve.expire (serve : Serve) : Option Serve :=
  match serve.reply with
  | none => some { serve with reply := some .streamed }
  | some _ => none

def receive (s : State) (f : Nat) : Option State :=
  match s.fetches f, s.serves f with
  | some fetch, some serve =>
    if fetch.stage = .called then
      match serve.reply with
      | some (.written len) =>
        some (s.setFetch f { fetch with stage := .holding len })
      | some .streamed => some (s.release f fetch)
      | none => none
    else none
  | _, _ => none

def abandon (s : State) (f : Nat) : Option State :=
  match s.fetches f with
  | none => none
  | some fetch =>
    match fetch.stage with
    | .holding _ => none
    | _ => some (s.release f fetch)

def dropBlob (s : State) (f : Nat) : Option State :=
  match s.fetches f with
  | none => none
  | some fetch =>
    match fetch.stage with
    | .holding _ => some (s.release f fetch)
    | _ => none

def step (cfg : Config) (s : State) : Event -> Option State
  | .lease f arena key => lease s f arena key
  | .call f => call s f
  | .lose f =>
    atHolder s f .arriving fun serve => some { serve with phase := .over }
  | .arrive f body =>
    atHolder s f .arriving fun serve =>
      some { serve with body := body, phase := .serving }
  | .decline f =>
    atHolder s f .serving fun serve =>
      some { serve with phase := .over, reply := some .streamed }
  | .post f =>
    atHolder s f .serving fun serve =>
      if serve.body.length ≤ cfg.rangeBytes then
        some { serve with phase := .posted, landed := fun _ => false }
      else none
  | .land f i => land cfg s f i
  | .reap f ok => atHolder s f .posted fun serve => serve.reap ok
  | .expire f => atHolder s f .posted Serve.expire
  | .receive f => receive s f
  | .abandon f => abandon s f
  | .drop f => dropBlob s f

/-- Every blob shows the body its holder served for the key it was fetched for,
and no other fetch's WRITE is posted to its range. -/
structure BlobsIntact (cfg : Config) (s : State) : Prop where
  bytes : forall f fetch len, s.fetches f = some fetch ->
    fetch.stage = .holding len ->
      exists serve, s.serves f = some serve ∧ serve.key = fetch.key ∧
        len = serve.body.length ∧
        forall i, i < len ->
          s.memory (fetch.arena, cfg.address fetch.index i) =
            serve.body.getD i 0
  alone : forall f g fetch serve len, s.fetches f = some fetch ->
    fetch.stage = .holding len -> s.serves g = some serve ->
      serve.phase = .posted ->
        ¬ (serve.arena = fetch.arena ∧ serve.index = fetch.index)

/-- A range that no blob took over is given back only when its holder is done
with the call that offered it. -/
def HolderDone (s : State) : Event -> Prop
  | .receive f =>
    forall serve, s.serves f = some serve -> serve.reply = some .streamed ->
      serve.phase = .over
  | .abandon f =>
    forall serve, s.serves f = some serve -> serve.phase = .over
  | _ => True

/-!
## The invariant
-/

structure Landed (cfg : Config) (memory : Arena × Nat -> UInt8)
    (serve : Serve) : Prop where
  done : serve.phase = .over
  fits : serve.body.length ≤ cfg.rangeBytes
  bytes : forall i, i < serve.body.length ->
    memory (serve.arena, cfg.address serve.index i) = serve.body.getD i 0

structure Sound (cfg : Config) (s : State) : Prop where
  nodup : forall arena, (s.free arena).Nodup
  leased : forall f fetch, s.fetches f = some fetch ->
    fetch.index ∉ s.free fetch.arena
  distinct : forall f g fetch other, s.fetches f = some fetch ->
    s.fetches g = some other -> fetch.arena = other.arena ->
      fetch.index = other.index -> f = g
  uncalled : forall f fetch, s.fetches f = some fetch ->
    fetch.stage = .leased -> s.serves f = none
  paired : forall f fetch, s.fetches f = some fetch ->
    fetch.stage ≠ .leased ->
      exists serve, s.serves f = some serve ∧ serve.arena = fetch.arena ∧
        serve.index = fetch.index ∧ serve.key = fetch.key
  live : forall f serve, s.serves f = some serve -> serve.phase ≠ .over ->
    exists fetch, s.fetches f = some fetch ∧ fetch.stage = .called ∧
      fetch.arena = serve.arena ∧ fetch.index = serve.index
  posted : forall f serve, s.serves f = some serve -> serve.phase = .posted ->
    serve.body.length ≤ cfg.rangeBytes ∧
      forall i, i < serve.body.length -> serve.landed i = true ->
        s.memory (serve.arena, cfg.address serve.index i) =
          serve.body.getD i 0
  written : forall f fetch serve len, s.fetches f = some fetch ->
    s.serves f = some serve -> serve.reply = some (.written len) ->
      len = serve.body.length ∧ Landed cfg s.memory serve
  holding : forall f fetch serve len, s.fetches f = some fetch ->
    s.serves f = some serve -> fetch.stage = .holding len ->
      serve.reply = some (.written len)

structure PairOk (cfg : Config) (memory : Arena × Nat -> UInt8)
    (fetch : Option Fetch) (serve : Option Serve) : Prop where
  uncalled : forall x, fetch = some x -> x.stage = .leased -> serve = none
  paired : forall x, fetch = some x -> x.stage ≠ .leased ->
    exists y, serve = some y ∧ y.arena = x.arena ∧ y.index = x.index ∧
      y.key = x.key
  live : forall y, serve = some y -> y.phase ≠ .over ->
    exists x, fetch = some x ∧ x.stage = .called ∧ x.arena = y.arena ∧
      x.index = y.index
  posted : forall y, serve = some y -> y.phase = .posted ->
    y.body.length ≤ cfg.rangeBytes ∧
      forall i, i < y.body.length -> y.landed i = true ->
        memory (y.arena, cfg.address y.index i) = y.body.getD i 0
  written : forall x y len, fetch = some x -> serve = some y ->
    y.reply = some (.written len) ->
      len = y.body.length ∧ Landed cfg memory y
  holding : forall x y len, fetch = some x -> serve = some y ->
    x.stage = .holding len -> y.reply = some (.written len)

theorem PairOk.called {cfg : Config} {memory : Arena × Nat -> UInt8}
    {fetch : Fetch} {serve : Serve}
    (hstage : fetch.stage ≠ .leased)
    (hplace : serve.arena = fetch.arena ∧ serve.index = fetch.index ∧
      serve.key = fetch.key)
    (hlive : serve.phase ≠ .over -> fetch.stage = .called)
    (hposted : serve.phase = .posted ->
      serve.body.length ≤ cfg.rangeBytes ∧
        forall i, i < serve.body.length -> serve.landed i = true ->
          memory (serve.arena, cfg.address serve.index i) =
            serve.body.getD i 0)
    (hwritten : forall len, serve.reply = some (.written len) ->
      len = serve.body.length ∧ Landed cfg memory serve)
    (hholding : forall len, fetch.stage = .holding len ->
      serve.reply = some (.written len)) :
    PairOk cfg memory (some fetch) (some serve) := by
  constructor
  · rintro _ ⟨⟩ hleased
    exact absurd hleased hstage
  · rintro _ ⟨⟩ _
    exact ⟨serve, rfl, hplace⟩
  · rintro _ ⟨⟩ hphase
    exact ⟨fetch, rfl, hlive hphase, hplace.left.symm, hplace.right.left.symm⟩
  · rintro _ ⟨⟩
    exact hposted
  · rintro _ _ len ⟨⟩ ⟨⟩
    exact hwritten len
  · rintro _ _ len ⟨⟩ ⟨⟩
    exact hholding len

theorem sound_start (cfg : Config) : Sound cfg (State.start cfg) where
  nodup _ := List.nodup_range
  leased _ _ h := nomatch h
  distinct _ _ _ _ h := nomatch h
  uncalled _ _ h := nomatch h
  paired _ _ h := nomatch h
  live _ _ h := nomatch h
  posted _ _ h := nomatch h
  written _ _ _ _ h := nomatch h
  holding _ _ _ _ h := nomatch h

variable {cfg : Config} {s s' : State} {f : Nat}

theorem Sound.blobsIntact {s : State} (h : Sound cfg s) :
    BlobsIntact cfg s := by
  constructor
  · intro f fetch len hfetch hstage
    have hcalled : fetch.stage ≠ .leased := by
      rw [hstage]
      exact Stage.noConfusion
    rcases h.paired f fetch hfetch hcalled with
      ⟨serve, hserve, harena, hindex, hkey⟩
    have hreply := h.holding f fetch serve len hfetch hserve hstage
    rcases h.written f fetch serve len hfetch hserve hreply with
      ⟨hlen, hlanded⟩
    refine ⟨serve, hserve, hkey, hlen, ?_⟩
    intro i hi
    rw [← harena, ← hindex]
    rw [hlen] at hi
    exact hlanded.bytes i hi
  · rintro f g fetch serve len hfetch hstage hserve hposted ⟨harena, hindex⟩
    have hlive : serve.phase ≠ .over := by
      rw [hposted]
      exact Phase.noConfusion
    rcases h.live g serve hserve hlive with
      ⟨other, hother, hcalled, hotherArena, hotherIndex⟩
    have hsame := h.distinct f g fetch other hfetch hother
      (harena.symm.trans hotherArena.symm) (hindex.symm.trans hotherIndex.symm)
    rw [← hsame, hfetch] at hother
    cases hother
    rw [hstage] at hcalled
    cases hcalled

theorem Config.address_inj {index index' i i' : Nat} (hi : i < cfg.rangeBytes)
    (hi' : i' < cfg.rangeBytes)
    (h : cfg.address index i = cfg.address index' i') :
    index = index' ∧ i = i' := by
  have hpos : 0 < cfg.rangeBytes := Nat.zero_lt_of_lt hi
  have hdiv : forall index i, i < cfg.rangeBytes ->
      cfg.address index i / cfg.rangeBytes = index := by
    intro index i hi
    unfold Config.address
    rw [Nat.mul_comm, Nat.mul_add_div hpos, Nat.div_eq_of_lt hi, Nat.add_zero]
  have hindex : index = index' := by
    rw [← hdiv index i hi, h, hdiv index' i' hi']
  refine ⟨hindex, ?_⟩
  rw [hindex] at h
  exact Nat.add_left_cancel h

namespace Sound

variable {cfg : Config} {s : State}

variable {fetch : Fetch} {serve : Serve}

section

variable (h : Sound cfg s)

include h

theorem place (hfetch : s.fetches f = some fetch)
    (hserve : s.serves f = some serve) :
    serve.arena = fetch.arena ∧ serve.index = fetch.index ∧
      serve.key = fetch.key := by
  have hcalled : fetch.stage ≠ .leased := by
    intro hstage
    rw [h.uncalled f fetch hfetch hstage] at hserve
    cases hserve
  rcases h.paired f fetch hfetch hcalled with ⟨found, hfound, hplace⟩
  rw [hserve] at hfound
  cases hfound
  exact hplace

theorem not_written {f len : Nat} (hserve : s.serves f = some serve)
    (hlive : serve.phase ≠ .over) :
    serve.reply ≠ some (.written len) := by
  intro hreply
  rcases h.live f serve hserve hlive with ⟨fetch, hfetch, _⟩
  exact hlive
    (h.written f fetch serve len hfetch hserve hreply).right.done

theorem pair (f : Nat) : PairOk cfg s.memory (s.fetches f) (s.serves f) :=
  ⟨h.uncalled f, h.paired f, h.live f, h.posted f, h.written f, h.holding f⟩

theorem pairs_update {fetch : Option Fetch} {serve : Option Serve}
    (hpair : PairOk cfg s.memory fetch serve) (g : Nat) :
    PairOk cfg s.memory (update s.fetches f fetch g)
      (update s.serves f serve g) := by
  by_cases hg : g = f
  · rw [hg, update_self, update_self]
    exact hpair
  · rw [update_of_ne hg, update_of_ne hg]
    exact h.pair g

omit h in
theorem of_pairs (hnodup : forall arena, (s.free arena).Nodup)
    (hleased : forall f fetch, s.fetches f = some fetch ->
      fetch.index ∉ s.free fetch.arena)
    (hdistinct : forall f g fetch other, s.fetches f = some fetch ->
      s.fetches g = some other -> fetch.arena = other.arena ->
        fetch.index = other.index -> f = g)
    (hpairs : forall f, PairOk cfg s.memory (s.fetches f) (s.serves f)) :
    Sound cfg s where
  nodup := hnodup
  leased := hleased
  distinct := hdistinct
  uncalled f := (hpairs f).uncalled
  paired f := (hpairs f).paired
  live f := (hpairs f).live
  posted f := (hpairs f).posted
  written f := (hpairs f).written
  holding f := (hpairs f).holding

theorem distinct_update {new : Option Fetch}
    (hnew : forall g x other, g ≠ f -> new = some x ->
      s.fetches g = some other -> other.arena = x.arena ->
        other.index ≠ x.index) :
    forall i j x y, update s.fetches f new i = some x ->
      update s.fetches f new j = some y -> x.arena = y.arena ->
        x.index = y.index -> i = j := by
  intro i j x y hx hy harena hindex
  have hsame : (x.arena, x.index) = (y.arena, y.index) :=
    Prod.ext harena hindex
  refine Table.distinct_update
    (p := fun fetch range => (fetch.arena, fetch.index) = range)
    ?_ ?_ i j x y _ hx hy hsame rfl
  · intro i j x y range hx hy hrange hrange'
    rcases Prod.mk.inj (hrange.trans hrange'.symm) with ⟨harena, hindex⟩
    exact h.distinct i j x y hx hy harena hindex
  · intro g x other range hne hx hother hrange hrange'
    rcases Prod.mk.inj (hrange'.trans hrange.symm) with ⟨harena, hindex⟩
    exact hnew g x other hne hx hother harena hindex

theorem setServe {old new : Serve} (hold : s.serves f = some old)
    (hlive : old.phase ≠ .over)
    (hplace : new.arena = old.arena ∧ new.index = old.index ∧
      new.key = old.key) (hposted : new.phase = .posted ->
      new.body.length ≤ cfg.rangeBytes ∧
        forall i, i < new.body.length -> new.landed i = true ->
          s.memory (new.arena, cfg.address new.index i) = new.body.getD i 0)
    (hwritten : forall len, new.reply = some (.written len) ->
      len = new.body.length ∧ Landed cfg s.memory new) :
    Sound cfg (s.setServe f new) := by
  rcases h.live f old hold hlive with ⟨fetch, hfetch, hcalled, _⟩
  have hpair : PairOk cfg s.memory (s.fetches f) (some new) := by
    rcases h.place hfetch hold with ⟨harena, hindex, hkey⟩
    rw [hfetch]
    apply PairOk.called
    · rw [hcalled]
      exact Stage.noConfusion
    · exact ⟨hplace.left.trans harena, hplace.right.left.trans hindex,
        hplace.right.right.trans hkey⟩
    · exact fun _ => hcalled
    · exact hposted
    · exact hwritten
    · rw [hcalled]
      exact fun _ => Stage.noConfusion
  have hpairs := h.pairs_update (f := f) hpair
  rw [update_eq_self] at hpairs
  exact of_pairs h.nodup h.leased h.distinct hpairs

theorem setByte {f i : Nat} (hserve : s.serves f = some serve)
    (hphase : serve.phase = .posted) (hi : i < serve.body.length) :
    Sound cfg (s.setByte (serve.arena, cfg.address serve.index i)
      (serve.body.getD i 0)) := by
  have hlive : serve.phase ≠ .over := by
    rw [hphase]
    exact Phase.noConfusion
  have hfits := (h.posted f serve hserve hphase).left
  rcases h.live f serve hserve hlive with
    ⟨fetch, hfetch, _, harena, hindex⟩
  -- Bytes of a call whose fetch still has its range are where they were.
  have hkeep : forall g other found k, s.fetches g = some other ->
      s.serves g = some found -> k < found.body.length ->
      found.body.length ≤ cfg.rangeBytes ->
      s.memory (found.arena, cfg.address found.index k) =
        found.body.getD k 0 ->
      update s.memory (serve.arena, cfg.address serve.index i)
          (serve.body.getD i 0) (found.arena, cfg.address found.index k) =
        found.body.getD k 0 := by
    intro g other found k hother hfound hk hfoundFits hbyte
    by_cases hsame : (found.arena, cfg.address found.index k) =
        (serve.arena, cfg.address serve.index i)
    · rcases Prod.mk.inj hsame with ⟨hfoundArena, haddress⟩
      rcases Config.address_inj (Nat.lt_of_lt_of_le hk hfoundFits)
        (Nat.lt_of_lt_of_le hi hfits) haddress with ⟨hfoundIndex, hki⟩
      rcases h.place hother hfound with ⟨hotherArena, hotherIndex, _⟩
      have hg : g = f := h.distinct g f other fetch hother hfetch
        (hotherArena.symm.trans (hfoundArena.trans harena.symm))
        (hotherIndex.symm.trans (hfoundIndex.trans hindex.symm))
      rw [hg, hserve] at hfound
      cases hfound
      rw [hki, update_self]
    · rw [update_of_ne hsame]
      exact hbyte
  refine { h with posted := ?_, written := ?_ }
  · intro g found hfound hfoundPhase
    rcases h.posted g found hfound hfoundPhase with ⟨hfoundFits, hbytes⟩
    have hfoundLive : found.phase ≠ .over := by
      rw [hfoundPhase]
      exact Phase.noConfusion
    rcases h.live g found hfound hfoundLive with ⟨other, hother, _⟩
    refine ⟨hfoundFits, ?_⟩
    intro k hk hlanded
    exact hkeep g other found k hother hfound hk hfoundFits
      (hbytes k hk hlanded)
  · intro g other found len hother hfound hreply
    rcases h.written g other found len hother hfound hreply with
      ⟨hlen, hlanded⟩
    refine ⟨hlen, hlanded.done, hlanded.fits, ?_⟩
    intro k hk
    exact hkeep g other found k hother hfound hk hlanded.fits
      (hlanded.bytes k hk)

theorem release (hfetch : s.fetches f = some fetch)
    (hdone : forall serve, s.serves f = some serve -> serve.phase = .over) :
    Sound cfg (s.release f fetch) := by
  have hpair : PairOk cfg s.memory none (s.serves f) := by
    refine ⟨nofun, nofun, ?_, ?_, nofun, nofun⟩
    · intro serve hserve hlive
      exact absurd (hdone serve hserve) hlive
    · intro serve hserve hposted
      rw [hdone serve hserve] at hposted
      cases hposted
  have hpairs := h.pairs_update (f := f) hpair
  rw [update_eq_self] at hpairs
  refine of_pairs ?_ ?_ (h.distinct_update ?_) hpairs
  · intro arena
    show (update s.free fetch.arena _ arena).Nodup
    by_cases harena : arena = fetch.arena
    · rw [harena, update_self]
      exact List.nodup_cons.mpr ⟨h.leased f fetch hfetch, h.nodup fetch.arena⟩
    · rw [update_of_ne harena]
      exact h.nodup arena
  · intro g other hlookup
    rcases update_cases hlookup with ⟨_, hnone⟩ | ⟨hne, hold⟩
    · cases hnone
    show other.index ∉ update s.free fetch.arena _ other.arena
    by_cases harena : other.arena = fetch.arena
    · rw [harena, update_self, List.mem_cons, not_or]
      constructor
      · intro hindex
        exact hne (h.distinct g f other fetch hold hfetch harena hindex)
      · rw [← harena]
        exact h.leased g other hold
    · rw [update_of_ne harena]
      exact h.leased g other hold
  · rintro g _ other _ ⟨⟩

theorem leaseNew {f index : Nat} {arena : Arena} {key : String}
    {rest : List Nat} (hserve : s.serves f = none)
    (hfree : s.free arena = index :: rest) :
    Sound cfg { s.setFetch f ⟨arena, index, key, .leased⟩ with
      free := update s.free arena rest } := by
  have hnodup := h.nodup arena
  rw [hfree] at hnodup
  rcases List.nodup_cons.mp hnodup with ⟨hindex, hrest⟩
  have hpair : PairOk cfg s.memory (some ⟨arena, index, key, .leased⟩)
      (s.serves f) := by
    rw [hserve]
    refine ⟨fun _ _ _ => rfl, ?_, nofun, nofun, nofun, nofun⟩
    rintro _ ⟨⟩ hstage
    exact absurd rfl hstage
  have hpairs := h.pairs_update (f := f) hpair
  rw [update_eq_self] at hpairs
  refine of_pairs ?_ ?_ ?_ hpairs
  · intro arena'
    show (update s.free arena rest arena').Nodup
    by_cases harena : arena' = arena
    · rw [harena, update_self]
      exact hrest
    · rw [update_of_ne harena]
      exact h.nodup arena'
  · intro g other hlookup
    show other.index ∉ update s.free arena rest other.arena
    rcases update_cases hlookup with ⟨_, hnew⟩ | ⟨_, hold⟩
    · cases hnew
      rw [update_self]
      exact hindex
    · have hleased := h.leased g other hold
      by_cases harena : other.arena = arena
      · rw [harena, hfree, List.mem_cons, not_or] at hleased
        rw [harena, update_self]
        exact hleased.right
      · rw [update_of_ne harena]
        exact hleased
  · apply h.distinct_update
    -- The range was free, so no fetch had it.
    rintro g _ other _ ⟨⟩ hold harena heq
    have hleased := h.leased g other hold
    rw [harena, hfree, heq] at hleased
    exact hleased List.mem_cons_self

theorem setStage {stage : Stage} {serve : Option Serve}
    (hfetch : s.fetches f = some fetch)
    (hpair : PairOk cfg s.memory (some { fetch with stage := stage }) serve) :
    Sound cfg { s.setFetch f { fetch with stage := stage } with
      serves := update s.serves f serve } := by
  refine of_pairs (s := { s.setFetch f { fetch with stage := stage } with
    serves := update s.serves f serve }) h.nodup ?_ ?_ (h.pairs_update hpair)
  · apply forall_update h.leased
    rintro _ ⟨⟩
    exact h.leased f fetch hfetch
  · apply h.distinct_update
    rintro g _ other hne ⟨⟩ hold harena heq
    exact hne (h.distinct g f other fetch hold hfetch harena heq)

end

end Sound

/-!
## Steps and runs
-/

section

variable (h : Sound cfg s)

include h

theorem sound_lease {arena : Arena} {key : String}
    (hstep : lease s f arena key = some s') :
    Sound cfg s' := by
  unfold lease at hstep
  split at hstep
  · rename_i index rest _ hserve hfree
    cases hstep
    exact h.leaseNew hserve hfree
  · cases hstep

theorem sound_call (hstep : call s f = some s')
    : Sound cfg s' := by
  unfold call at hstep
  split at hstep
  · cases hstep
  rename_i fetch hfetch
  split at hstep
  · cases hstep
    apply h.setStage hfetch
    apply PairOk.called Stage.noConfusion ⟨rfl, rfl, rfl⟩ (fun _ => rfl)
    · exact Phase.noConfusion
    · intro len hreply
      cases hreply
    · intro len hholding
      cases hholding
  · cases hstep

theorem sound_atHolder {phase : Phase} {act : Serve -> Option Serve}
    (hphase : phase ≠ .over)
    (hact : forall old new, s.serves f = some old -> old.phase = phase ->
      act old = some new ->
        (new.arena = old.arena ∧ new.index = old.index ∧ new.key = old.key) ∧
        (new.phase = .posted -> new.body.length ≤ cfg.rangeBytes ∧
          forall i, i < new.body.length -> new.landed i = true ->
            s.memory (new.arena, cfg.address new.index i) =
              new.body.getD i 0) ∧
        forall len, new.reply = some (.written len) ->
          len = new.body.length ∧ Landed cfg s.memory new)
    (hstep : atHolder s f phase act = some s') : Sound cfg s' := by
  unfold atHolder at hstep
  split at hstep
  · cases hstep
  rename_i old hold
  split at hstep
  · rename_i hold'
    rcases Option.map_eq_some_iff.mp hstep with ⟨new, hnew, heq⟩
    rcases hact old new hold hold' hnew with ⟨hplace, hposted, hwritten⟩
    rw [← heq]
    apply h.setServe hold _ hplace hposted hwritten
    rw [hold']
    exact hphase
  · cases hstep

theorem sound_land {f i : Nat} (hstep : land cfg s f i = some s')
    : Sound cfg s' := by
  unfold land at hstep
  split at hstep
  · cases hstep
  rename_i serve hserve
  split at hstep
  · rename_i hboth
    cases hstep
    have hlive : serve.phase ≠ .over := by
      rw [hboth.left]
      exact Phase.noConfusion
    have hbyte := h.setByte hserve hboth.left hboth.right
    apply Sound.setServe hbyte hserve hlive
    · exact ⟨rfl, rfl, rfl⟩
    · intro _
      rcases hbyte.posted f serve hserve hboth.left with ⟨hfits, hbytes⟩
      refine ⟨hfits, ?_⟩
      intro k hk hlanded
      by_cases hki : k = i
      · rw [hki]
        exact update_self _ _ _
      · apply hbytes k hk
        exact (update_of_ne hki _ _).symm.trans hlanded
    · intro len (hreply : serve.reply = some (.written len))
      exact absurd hreply (h.not_written hserve hlive)
  · cases hstep

end

theorem reap_eq {serve new : Serve} {ok : Bool}
    (h : serve.reap ok = some new) :
    new.arena = serve.arena ∧ new.index = serve.index ∧
      new.key = serve.key ∧ new.body = serve.body ∧ new.phase = .over ∧
      (forall len, new.reply = some (.written len) ->
        serve.reply = some (.written len) ∨
          (len = serve.body.length ∧
            forall i, i < serve.body.length -> serve.landed i = true)) := by
  unfold Serve.reap at h
  split at h
  · cases h
  rename_i hall
  cases h
  refine ⟨rfl, rfl, rfl, rfl, rfl, ?_⟩
  intro len hreply
  cases hold : serve.reply with
  | some reply =>
    rw [hold] at hreply
    exact .inl hreply
  | none =>
    rw [hold] at hreply
    cases ok with
    | false => cases hreply
    | true =>
      cases hreply
      refine .inr ⟨rfl, ?_⟩
      have hlanded : (List.range serve.body.length).all serve.landed =
          true := by
        simpa using hall
      intro i hi
      exact List.all_eq_true.mp hlanded i (List.mem_range.mpr hi)

section

variable (h : Sound cfg s)

include h

theorem sound_reap {ok : Bool}
    (hstep : atHolder s f .posted (fun serve => serve.reap ok) = some s') :
    Sound cfg s' := by
  apply sound_atHolder h Phase.noConfusion _ hstep
  intro old new hold hphase hnew
  have hlive : old.phase ≠ .over := by
    rw [hphase]
    exact Phase.noConfusion
  rcases reap_eq hnew with ⟨harena, hindex, hkey, hbody, hover, hreply⟩
  refine ⟨⟨harena, hindex, hkey⟩, ?_, ?_⟩
  · intro hposted
    rw [hover] at hposted
    cases hposted
  intro len hwritten
  rcases hreply len hwritten with hbefore | ⟨hlen, hlanded⟩
  · exact absurd hbefore (h.not_written hold hlive)
  rcases h.posted f old hold hphase with ⟨hfits, hbytes⟩
  rw [hbody]
  refine ⟨hlen, hover, ?_, ?_⟩
  · rw [hbody]
    exact hfits
  · rw [hbody, harena, hindex]
    intro i hi
    exact hbytes i hi (hlanded i hi)

theorem sound_receive (hguard : HolderDone s (.receive f))
    (hstep : receive s f = some s') : Sound cfg s' := by
  unfold receive at hstep
  split at hstep
  · rename_i fetch serve hfetch hserve
    split at hstep
    · split at hstep
      · rename_i len hreply
        cases hstep
        have hwritten := h.written f fetch serve
        have hover := (hwritten len hfetch hserve hreply).right.done
        have hplace := h.place hfetch hserve
        have hpair : PairOk cfg s.memory
            (some { fetch with stage := .holding len }) (some serve) := by
          apply PairOk.called Stage.noConfusion
          · exact hplace
          · intro hlive
            exact absurd hover hlive
          · rw [hover]
            exact Phase.noConfusion
          · intro len' hreply'
            exact hwritten len' hfetch hserve hreply'
          · intro len' hholding
            cases hholding
            exact hreply
        have hsound := h.setStage hfetch hpair
        rw [← hserve, update_eq_self] at hsound
        exact hsound
      · rename_i hreply
        cases hstep
        apply h.release hfetch
        intro found hfound
        rw [hserve] at hfound
        cases hfound
        exact hguard serve hserve hreply
      · cases hstep
    · cases hstep
  · cases hstep

theorem sound_abandon (hguard : HolderDone s (.abandon f))
    (hstep : abandon s f = some s') : Sound cfg s' := by
  unfold abandon at hstep
  split at hstep
  · cases hstep
  rename_i fetch hfetch
  split at hstep
  · cases hstep
  · cases hstep
    exact h.release hfetch hguard

theorem sound_dropBlob (hstep : dropBlob s f = some s')
    : Sound cfg s' := by
  unfold dropBlob at hstep
  split at hstep
  · cases hstep
  rename_i fetch hfetch
  split at hstep
  · rename_i len hstage
    cases hstep
    apply h.release hfetch
    intro serve hserve
    have hreply := h.holding f fetch serve len hfetch hserve hstage
    exact (h.written f fetch serve len hfetch hserve hreply).right.done
  · cases hstep

theorem sound_step {e : Event} (hguard : HolderDone s e)
    (hstep : step cfg s e = some s') :
    Sound cfg s' := by
  -- A holder that is not done, and does not write, changes nothing written.
  have hquiet : forall {f : Nat} {old : Serve} {phase : Phase},
      s.serves f = some old -> old.phase = phase -> phase ≠ .over ->
      forall len, old.reply ≠ some (.written len) := by
    intro f old phase hold hphase hne len
    apply h.not_written hold
    rw [hphase]
    exact hne
  cases e with
  | lease f arena key => exact sound_lease h hstep
  | call f => exact sound_call h hstep
  | lose f | arrive f body =>
    apply sound_atHolder h Phase.noConfusion _ hstep
    intro old new hold hphase hnew
    cases hnew
    refine ⟨⟨rfl, rfl, rfl⟩, Phase.noConfusion, ?_⟩
    intro len hreply
    exact absurd hreply (hquiet hold hphase Phase.noConfusion len)
  | decline f =>
    apply sound_atHolder h Phase.noConfusion _ hstep
    intro old new hold hphase hnew
    cases hnew
    refine ⟨⟨rfl, rfl, rfl⟩, Phase.noConfusion, ?_⟩
    intro len hreply
    cases hreply
  | post f =>
    apply sound_atHolder h Phase.noConfusion _ hstep
    intro old new hold hphase hnew
    split at hnew
    · rename_i hfits
      cases hnew
      refine ⟨⟨rfl, rfl, rfl⟩, fun _ => ⟨hfits, ?_⟩, ?_⟩
      · intro i _ hlanded
        cases hlanded
      · intro len hreply
        exact absurd hreply (hquiet hold hphase Phase.noConfusion len)
    · cases hnew
  | land f i => exact sound_land h hstep
  | reap f ok => exact sound_reap h hstep
  | expire f =>
    apply sound_atHolder h Phase.noConfusion _ hstep
    intro old new hold hphase hnew
    unfold Serve.expire at hnew
    split at hnew
    · cases hnew
      refine ⟨⟨rfl, rfl, rfl⟩, fun _ => h.posted f old hold hphase, ?_⟩
      intro len hreply
      cases hreply
    · cases hnew
  | receive f => exact sound_receive h hguard hstep
  | abandon f => exact sound_abandon h hguard hstep
  | drop f => exact sound_dropBlob h hstep

end

/-- As long as no range is given back under a holder that is not done with it,
every blob shows the body it was fetched as for as long as it lives. -/
theorem blobs_stay_intact {cfg : Config} {events : List Event} {final : State}
    (hguard : Along (step cfg) HolderDone (State.start cfg) events)
    (hrun : run (step cfg) (State.start cfg) events = some final) :
    BlobsIntact cfg final := by
  have hsound : Sound cfg final :=
    run_preserves (fun _ _ _ hs hg hstep => sound_step hs hg hstep)
      (sound_start cfg) hguard hrun
  exact hsound.blobsIntact

def oneRange : Config where
  rangeBytes := 1
  ranges := 1

def declinedThenWritten : List Event :=
  [.lease 0 (0, 0) "a", .call 0, .arrive 0 [6], .decline 0, .receive 0,
    .lease 1 (0, 0) "b", .call 1, .arrive 1 [1], .post 1, .land 1 0,
    .reap 1 true, .receive 1]

theorem blobs_stay_intact_written : exists final,
    run (step oneRange) (State.start oneRange) declinedThenWritten =
        some final ∧
      final.fetches 1 = some ⟨(0, 0), 0, "b", .holding 1⟩ ∧
      BlobsIntact oneRange final := by
  have hguard : Along (step oneRange) HolderDone (State.start oneRange)
      declinedThenWritten := by
    iterate 4 apply along_cons_of_step trivial rfl
    refine along_cons_of_step ?_ rfl ?_
    · intro serve hserve _
      cases hserve
      rfl
    · iterate 6 apply along_cons_of_step trivial rfl
      refine ⟨?_, fun _ _ => trivial⟩
      intro serve hserve hreply
      cases hserve
      cases hreply
  exact ⟨_, rfl, rfl, blobs_stay_intact hguard rfl⟩

/-- The holder of the first fetch runs into its deadline and streams; the range
is leased to a second fetch, written and handed on as its blob.  Then the first
WRITE lands. -/
theorem late_write_lands_in_blob : exists final,
    run (step oneRange) (State.start oneRange)
        [.lease 0 (0, 0) "a", .call 0, .arrive 0 [6], .post 0, .expire 0,
          .receive 0, .lease 1 (0, 0) "b", .call 1, .arrive 1 [1], .post 1,
          .land 1 0, .reap 1 true, .receive 1, .land 0 0] = some final ∧
      final.fetches 1 = some ⟨(0, 0), 0, "b", .holding 1⟩ ∧
      (final.serves 1).map Serve.body = some [1] ∧
      final.memory ((0, 0), oneRange.address 0 0) = 6 ∧
      ¬ BlobsIntact oneRange final := by
  refine ⟨_, rfl, rfl, rfl, rfl, ?_⟩
  intro hintact
  rcases hintact.bytes 1 _ 1 rfl rfl with ⟨serve, hserve, _, _, hbytes⟩
  cases hserve
  exact absurd (hbytes 0 Nat.zero_lt_one) (by decide)

end LandingRange

end Transport
end Pacer
