import Pacer.Daemon.Witness

/-!
# The version a GET serves

A GET's response carries the ETag of the header the GET resolved first.  Its
chunks come from the tier and from peers, under a witness that is compared
with that ETag, and from the backend and from other GETs' fills, where nothing
is compared.

The main result: a GET serves the requested range of one version, in every run
in which each backend read finds the version of its GET's header, and in which
bytes are handed from one GET to another only between GETs of one version.
-/

namespace Pacer
namespace Daemon

open Foundation Function
open Foundation.Transition
open Cache

namespace ReadPath

section Invariant

variable (cfg : Config) (contentOf : String -> Bytes)

/-- The bytes a chunk resolution holds are those of its GET's version; one that
waits waits for its own chunk. -/
def BodyOk (get : Get) (index : Nat) : Phase -> Prop
  | .waiting leader => leader.2 = index
  | .led body => Right cfg contentOf get index body
  | .fetched _ _ body => Right cfg contentOf get index body
  | .inserting _ body => Right cfg contentOf get index body
  | .done body => Right cfg contentOf get index body
  | _ => True

def PublishedOk (gets : Nat -> Option Get) (index : Nat) (data : Published) :
    Prop :=
  exists get, gets data.leader.1 = some get ∧
    Right cfg contentOf get index data.bytes

structure Coherent (s : State contentOf) : Prop where
  ranges : forall g get, s.gets g = some get ->
    resolveInputRange get.range get.header.objectLen =
      some (get.start, get.stop)
  bodies : forall (r : ReadId) get, s.gets r.1 = some get ->
    BodyOk cfg contentOf get r.2 (s.phase r)
  fetching : forall place sender,
    s.registry.claims place = some (.fetching sender) -> sender.2 = place.2
  filled : forall place data, s.registry.claims place = some (.filled data) ->
    PublishedOk cfg contentOf s.gets place.2 data
  sent : forall (r : ReadId) data, s.sent r = some data ->
    PublishedOk cfg contentOf s.gets r.2 data

end Invariant

variable {contentOf : String -> Bytes} {cfg : Config} {s s' : State contentOf}

def PublishedFor (s : State contentOf) (get : Get) (data : Published) : Prop :=
  forall leader, s.gets data.leader.1 = some leader ->
    forall e, get.header.eTag = some e ->
      exists other, leader.header.eTag = some other ∧
        trimQuotes other = trimQuotes e

/-- A backend read finds the version of its GET's header, and a GET that takes
another's bytes resolved the same version. -/
def ReadsOneVersion (s : State contentOf) : Event contentOf -> Prop
  | .read r => forall get, s.gets r.1 = some get -> Current get s.backend
  | .fetchOwned r => forall get data, s.gets r.1 = some get ->
      s.registry.claims (get.node, r.2) = some (.filled data) ->
      PublishedFor s get data
  | .receive r => forall get leader data, s.gets r.1 = some get ->
      s.phase r = .waiting leader -> s.sent leader = some data ->
      PublishedFor s get data
  | _ => True

theorem ReadsOneVersion.fillsCurrent {e : Event contentOf}
    (h : ReadsOneVersion s e) : FillsCurrent s e := by
  cases e <;> try trivial
  case read r =>
    intro get hget _
    exact h get hget

variable {get : Get}

theorem right_of_publishedFor {index : Nat} {data : Published}
    (hok : PublishedOk cfg contentOf s.gets index data)
    (hfor : PublishedFor s get data) :
    Right cfg contentOf get index data.bytes := by
  rcases hok with ⟨leader, hleader, hright⟩
  intro e he
  rcases hfor leader hleader e he with ⟨other, hother, hsame⟩
  rw [← hsame]
  exact hright other hother

/-!
## State updates
-/

theorem coherent_start (v : Version contentOf) :
    Coherent cfg contentOf (State.start v) := by
  constructor
  · intro g get h
    cases h
  · intro r get h
    cases h
  · intro place sender h
    cases h
  · intro place data h
    cases h
  · intro r data h
    cases h

namespace Coherent

variable (h : Coherent cfg contentOf s) {r : ReadId}

include h

theorem congr (hgets : s'.gets = s.gets) (hphase : s'.phase = s.phase)
    (hsent : s'.sent = s.sent) (hnews : NoNews r s.registry s'.registry) :
    Coherent cfg contentOf s' := by
  constructor
  · rw [hgets]
    exact h.ranges
  · rw [hgets, hphase]
    exact h.bodies
  · intro place sender hclaim
    rcases hnews.fetching place sender hclaim with hold | ⟨rfl, hindex⟩
    · exact h.fetching place sender hold
    · exact hindex.symm
  · rw [hgets]
    intro place data hclaim
    exact h.filled place data (hnews.filled place data hclaim)
  · rw [hgets, hsent]
    exact h.sent

theorem aside (haside : Aside s s') : Coherent cfg contentOf s' :=
  h.congr haside.gets haside.phase haside.sent (haside.news (0, 0))

theorem setPhase {phase : Phase} (hget : s.gets r.1 = some get)
    (hphase : BodyOk cfg contentOf get r.2 phase) :
    Coherent cfg contentOf (s.setPhase r phase) := by
  refine ⟨h.ranges, ?_, h.fetching, h.filled, h.sent⟩
  intro q other hq
  change BodyOk cfg contentOf other q.2 (update s.phase r phase q)
  rw [update_apply]
  split
  · rename_i heq
    change s.gets q.1 = some other at hq
    rw [heq, hget] at hq
    cases hq
    rw [heq]
    exact hphase
  · exact h.bodies q other hq

theorem moves {phase : Phase} (hget : s.gets r.1 = some get)
    (hmoves : Moves s r phase s')
    (hphase : BodyOk cfg contentOf get r.2 phase) :
    Coherent cfg contentOf s' := by
  rcases hmoves with ⟨registry, tier, hnews, _, rfl⟩
  have hmoved : Coherent cfg contentOf
      { s with registry := registry, tier := tier } :=
    h.congr rfl rfl rfl hnews
  exact hmoved.setPhase hget hphase

theorem movesPlain
    (hmoves : exists get, s.gets r.1 = some get ∧ MovesPlain s r s') :
    Coherent cfg contentOf s' := by
  rcases hmoves with ⟨get, hget, phase, hplain, hmoves⟩
  refine h.moves hget hmoves ?_
  cases phase <;> trivial

theorem startGet {g node : Nat} {range : Option HttpRange}
    {decision : ReadDecision} {header : ObjectHeader}
    (hw : Witnessed cfg contentOf s)
    (hstep : ReadPath.startGet s g node range decision header = some s') :
    Coherent cfg contentOf s' := by
  unfold ReadPath.startGet at hstep
  split at hstep
  · cases hstep
  rename_i hfresh
  split at hstep
  · cases hstep
  rename_i start stop hrange
  cases hstep
  -- A GET that is there stays: what it published stays its own.
  have hkeeps : forall {index : Nat} {data : Published} {get : Get},
      PublishedOk cfg contentOf s.gets index data ->
      PublishedOk cfg contentOf (update s.gets g (some get)) index
        data := by
    intro index data get hok
    rcases hok with ⟨leader, hleader, hright⟩
    refine ⟨leader, ?_, hright⟩
    rw [update_of_ne _, hleader]
    intro heq
    rw [heq, hfresh] at hleader
    cases hleader
  constructor
  · exact Table.forall_update_some h.ranges hrange
  · intro r get hr
    dsimp only at hr
    rw [update_apply] at hr
    split at hr
    · rename_i heq
      rw [← heq] at hfresh
      dsimp only
      rw [hw.unstarted r hfresh]
      exact trivial
    · exact h.bodies r get hr
  · exact h.fetching
  · intro place data hclaim
    exact hkeeps (h.filled place data hclaim)
  · intro r data hsent
    exact hkeeps (h.sent r data hsent)

/-!
## Steps
-/

theorem lookup (hw : Witnessed cfg contentOf s)
    (hstep : ReadPath.lookup cfg s r = some s') : Coherent cfg contentOf s' := by
  rcases lookup_spec hstep with
    ⟨get, hget, hplain | ⟨held, hheld, hmatch, hmoves⟩⟩
  · exact h.movesPlain ⟨get, hget, hplain⟩
  · have htrue : Truthful cfg contentOf r.2 held :=
      hw.tier (get.node, r.2) held hheld
    exact h.moves hget hmoves (right_of_witnessMatches htrue hmatch)

theorem fetchOwned (hguard : ReadsOneVersion s (.fetchOwned r))
    (hstep : ReadPath.fetchOwned cfg s r = some s') :
    Coherent cfg contentOf s' := by
  rcases fetchOwned_spec hstep with
    ⟨get, hget, hplain | ⟨leader, hclaim, hmoves⟩ | ⟨data, hclaim, hmoves⟩⟩
  · exact h.movesPlain ⟨get, hget, hplain⟩
  · exact h.moves hget hmoves (h.fetching (get.node, r.2) leader hclaim)
  · have hok : PublishedOk cfg contentOf s.gets r.2 data :=
      h.filled (get.node, r.2) data hclaim
    exact h.moves hget hmoves
      (right_of_publishedFor hok (hguard get data hget hclaim))

theorem receive (hguard : ReadsOneVersion s (.receive r))
    (hstep : ReadPath.receive s r = some s') : Coherent cfg contentOf s' := by
  rcases receive_spec hstep with
    ⟨get, leader, hget, hphase, hplain | ⟨data, hdata, hmoves⟩⟩
  · exact h.movesPlain ⟨get, hget, hplain⟩
  · have hindex := h.bodies r get hget
    rw [hphase] at hindex
    have hok := h.sent leader data hdata
    rw [show leader.2 = r.2 from hindex] at hok
    exact h.moves hget hmoves
      (right_of_publishedFor hok (hguard get leader data hget hphase hdata))

theorem askPeer {node : Nat} (hw : Witnessed cfg contentOf s)
    (hstep : ReadPath.askPeer s r node = some s') :
    Coherent cfg contentOf s' := by
  rcases askPeer_spec hstep with
    ⟨get, answer, hget, hanswer, rfl | ⟨hmatch, ticket, hmoves⟩⟩
  · exact h
  · have htrue : Truthful cfg contentOf r.2 answer :=
      hw.tier (node, r.2) answer hanswer
    exact h.moves hget hmoves (right_of_witnessMatches htrue hmatch)

theorem askPump {p : Nat} (hw : Witnessed cfg contentOf s)
    (hstep : ReadPath.askPump s r p = some s') : Coherent cfg contentOf s' := by
  rcases askPump_spec hstep with
    ⟨get, pump, answer, hget, hpump, hindex, hanswer,
      rfl | ⟨hmatch, ticket, hmoves⟩⟩
  · exact h
  · have htrue := (hw.pumps p pump hpump).answer answer hanswer
    rw [hindex] at htrue
    exact h.moves hget hmoves (right_of_witnessMatches htrue hmatch)

theorem read (hw : Witnessed cfg contentOf s)
    (hguard : ReadsOneVersion s (.read r))
    (hstep : ReadPath.read cfg s r = some s') : Coherent cfg contentOf s' := by
  rcases read_spec hstep with ⟨get, body, hget, hbody, hcase⟩
  have hright : Right cfg contentOf get r.2 body :=
    right_of_current (hw.gets r.1 get hget) (hguard get hget) hbody
  rcases hcase with ⟨_, hmoves⟩ | ⟨ticket, _, hmoves⟩ | ⟨_, hmoves⟩
  · exact h.moves hget hmoves hright
  · exact h.moves hget hmoves hright
  · exact h.moves hget hmoves hright

theorem publish (hstep : ReadPath.publish s r = some s') :
    Coherent cfg contentOf s' := by
  rcases publish_spec hstep with ⟨get, body, hget, hphase, hcase⟩
  have hright := h.bodies r get hget
  rw [hphase] at hright
  rcases hcase with hmoves | ⟨sender, hclaim, rfl⟩
  · exact h.moves hget hmoves hright
  · have hsender : sender.2 = r.2 := h.fetching (get.node, r.2) sender hclaim
    have hok : PublishedOk cfg contentOf s.gets r.2 ⟨body, r⟩ :=
      ⟨get, hget, hright⟩
    refine Coherent.setPhase ?_ hget hright
    refine ⟨h.ranges, h.bodies, ?_, ?_, ?_⟩
    · intro place other hplace
      change update s.registry.claims (get.node, r.2) _ place = _
        at hplace
      rw [update_apply] at hplace
      split at hplace
      · cases hplace
      · exact h.fetching place other hplace
    · intro place data hplace
      change update s.registry.claims (get.node, r.2) _ place = _
        at hplace
      rw [update_apply] at hplace
      split at hplace
      · rename_i heq
        cases hplace
        rw [heq]
        exact hok
      · exact h.filled place data hplace
    · intro q data hq
      change update s.sent sender _ q = _ at hq
      rw [update_apply] at hq
      split at hq
      · rename_i heq
        cases hq
        rw [heq, hsender]
        exact hok
      · exact h.sent q data hq

theorem claim {gate : Bool} (hstep : ReadPath.claim s r gate = some s') :
    Coherent cfg contentOf s' := by
  rcases claim_spec hstep with
    ⟨get, ticket, fromPeer, body, stage, hget, hphase, hmoves⟩
  have hright := h.bodies r get hget
  rw [hphase] at hright
  exact h.moves hget hmoves hright

theorem insert {wrote : Bool}
    (hstep : ReadPath.insert cfg s r wrote = some s') :
    Coherent cfg contentOf s' := by
  unfold ReadPath.insert at hstep
  split at hstep
  · rename_i get fill body hget hphase
    have hright := h.bodies r get hget
    rw [hphase] at hright
    split at hstep
    all_goals
      rename_i hadvance
      cases hstep
      exact (h.aside (aside_setTier (fun _ => NoNews.advance hadvance)
        (get.node, r.2) _)).setPhase hget hright
  · cases hstep

theorem step {e : Event contentOf} (hw : Witnessed cfg contentOf s)
    (hguard : ReadsOneVersion s e) (hstep : ReadPath.step cfg s e = some s') :
    Coherent cfg contentOf s' := by
  cases e <;> simp only [ReadPath.step] at hstep
  case overwrite v =>
    cases hstep
    exact h.aside ⟨rfl, rfl, rfl, fun _ => NoNews.of_claims rfl⟩
  case forget place =>
    cases hstep
    exact h.aside ⟨rfl, rfl, rfl, fun _ => NoNews.of_claims rfl⟩
  case poisonClaim place =>
    cases hstep
    exact h.aside ⟨rfl, rfl, rfl, fun _ => NoNews.poisonClaim place⟩
  case poisonReads place =>
    cases hstep
    exact h.aside ⟨rfl, rfl, rfl, fun _ => NoNews.poisonReads place⟩
  case forgetHeader node =>
    cases hstep
    exact h.aside ⟨rfl, rfl, rfl, fun _ => NoNews.of_claims rfl⟩
  case head g node range decision => exact h.startGet hw hstep
  case useHeader g node range decision =>
    split at hstep
    · cases hstep
    · exact h.startGet hw hstep
  case rememberHeader g => exact h.aside (rememberHeader_aside hstep)
  case lookup r => exact h.lookup hw hstep
  case lookupFails r => exact h.movesPlain (lookupFails_spec hstep)
  case forgetStale r => exact h.movesPlain (forgetStale_spec hstep)
  case fetchOwned r => exact h.fetchOwned hguard hstep
  case receive r => exact h.receive hguard hstep
  case beginRead r => exact h.movesPlain (beginRead_spec hstep)
  case beginPeer r => exact h.movesPlain (beginPeer_spec hstep)
  case askPeer r node => exact h.askPeer hw hstep
  case askPump r p => exact h.askPump hw hstep
  case giveUp r => exact h.movesPlain (giveUp_spec hstep)
  case read r => exact h.read hw hguard hstep
  case publish r => exact h.publish hstep
  case claim r gate => exact h.claim hstep
  case insert r wrote => exact h.insert hstep
  case abandon r => exact h.movesPlain (abandon_spec hstep)
  case readThrough p place => exact h.aside (readThrough_aside hstep)
  case respond p => exact h.aside (respond_aside hstep)
  case pumpClaim p admitted => exact h.aside (pumpClaim_aside hstep)
  case pumpInsert p wrote => exact h.aside (pumpInsert_aside hstep)
  case pumpAbandon p => exact h.aside (pumpAbandon_aside hstep)

end Coherent

theorem coherent_of_run {v : Version contentOf} {final : State contentOf}
    {events : List (Event contentOf)}
    (hguard : Along (step cfg) ReadsOneVersion (State.start v) events)
    (hrun : run (step cfg) (State.start v) events = some final) :
    Witnessed cfg contentOf final ∧ Coherent cfg contentOf final := by
  have hkeeps : forall (s : State contentOf) e s',
      Witnessed cfg contentOf s ∧ Coherent cfg contentOf s ->
      ReadsOneVersion s e -> step cfg s e = some s' ->
      Witnessed cfg contentOf s' ∧ Coherent cfg contentOf s' := by
    intro s e s' hinv hreads hstep
    constructor
    · exact hinv.left.step hreads.fillsCurrent hstep
    · exact hinv.right.step hinv.left hreads hstep
  exact run_preserves hkeeps ⟨witnessed_start v, coherent_start v⟩ hguard hrun

/-!
## What a GET serves
-/

theorem mapM_eq_map {f : a -> Option b} {g : a -> b} {xs : List a}
    {ys : List b} (hall : forall x, x ∈ xs -> forall y, f x = some y -> y = g x)
    (h : xs.mapM f = some ys) : ys = xs.map g := by
  induction xs generalizing ys with
  | nil =>
    cases h
    rfl
  | cons x rest ih =>
    rw [List.mapM_cons] at h
    rcases Option.bind_eq_some_iff.mp h with ⟨y, hy, htail⟩
    rcases Option.bind_eq_some_iff.mp htail with ⟨tail, hrest, hys⟩
    cases hys
    rw [hall x List.mem_cons_self y hy,
      ih (fun z hz => hall z (List.mem_cons_of_mem x hz)) hrest]
    rfl

theorem served_of_right {g : Nat} {e : String} {body : Bytes}
    (hget : s.gets g = some get)
    (hlen : get.header.objectLen = (contentOf (trimQuotes e)).length)
    (hstop : get.stop ≤ (contentOf (trimQuotes e)).length)
    (hbodies : forall index chunk, s.phase (g, index) = .done chunk ->
      ChunkAt cfg.chunk (contentOf (trimQuotes e)) index chunk)
    (h : served cfg s g = some body) :
    body = span (contentOf (trimQuotes e)) get.start get.stop := by
  unfold served at h
  rw [hget] at h
  rcases Option.map_eq_some_iff.mp h with ⟨pieces, hpieces, rfl⟩
  rw [← cfg.chunk.flatten_trimmed hstop]
  apply congrArg List.flatten
  refine mapM_eq_map ?_ hpieces
  intro index _ piece hpiece
  split at hpiece
  · rename_i chunk hphase
    cases hpiece
    rw [hlen, (hbodies index chunk hphase).eq_chunkOf]
  · cases hpiece

/-- A GET that completes serves the range it was asked for of the version whose
ETag it answers with. -/
theorem served_is_one_version {v : Version contentOf}
    {final : State contentOf} {events : List (Event contentOf)}
    (hguard : Along (step cfg) ReadsOneVersion (State.start v) events)
    (hrun : run (step cfg) (State.start v) events = some final)
    {g : Nat} {get : Get} {e : String} {body : Bytes}
    (hget : final.gets g = some get) (he : get.header.eTag = some e)
    (hserved : served cfg final g = some body) :
    resolveInputRange get.range (contentOf (trimQuotes e)).length =
        some (get.start, get.stop) ∧
      body = span (contentOf (trimQuotes e)) get.start get.stop := by
  rcases coherent_of_run hguard hrun with ⟨hw, hc⟩
  have hlen := hw.gets g get hget e he
  have hrange := hc.ranges g get hget
  rw [hlen] at hrange
  constructor
  · exact hrange
  · refine served_of_right hget hlen (resolveInputRange_le hrange).right ?_
      hserved
    intro index chunk hphase
    have hright := hc.bodies (g, index) get hget
    rw [hphase] at hright
    exact hright e he

/-!
## Three GETs across an overwrite

One GET has read both chunks when the object is overwritten.  Two later ones read
the new version; the second takes the first chunk from the first.
-/

def readsBackend (r : ReadId) : List (Event twoContents) :=
  [.lookup r, .fetchOwned r, .read r, .publish r]

def letsGo (r : ReadId) : List (Event twoContents) :=
  [.insert r true, .insert r true]

def acrossOverwrite : List (Event twoContents) :=
  .head 0 0 none .cacheNoFill :: readsBackend (0, 0) ++ letsGo (0, 0) ++
    readsBackend (0, 1) ++
    [.overwrite versionTwo, .head 1 0 none .cacheNoFill,
      .head 2 0 none .cacheNoFill] ++
    readsBackend (1, 0) ++ [.lookup (2, 0), .fetchOwned (2, 0)] ++
    letsGo (1, 0) ++ letsGo (0, 1) ++ readsBackend (1, 1) ++ letsGo (1, 1) ++
    readsBackend (2, 1) ++ letsGo (2, 1)

section Guards

variable {s : State twoContents} {r : ReadId} {get leader : Get} {tag : String}
  {data : Published} (hget : s.gets r.1 = some get)

include hget

theorem reads_of_current (hbackend : s.backend.eTag = some tag)
    (hheader : get.header.eTag = some tag) : ReadsOneVersion s (.read r) := by
  intro found hfound e he
  rw [hget] at hfound
  cases hfound
  rw [hheader] at he
  cases he
  exact ⟨tag, hbackend, rfl⟩

theorem leads_of_unclaimed
    (hclaim : s.registry.claims (get.node, r.2) = none) :
    ReadsOneVersion s (.fetchOwned r) := by
  intro found data hfound hfilled
  rw [hget] at hfound
  cases hfound
  rw [hclaim] at hfilled
  cases hfilled

theorem follows_of_same
    (hclaim : s.registry.claims (get.node, r.2) = some (.filled data))
    (hleader : s.gets data.leader.1 = some leader)
    (hleads : leader.header.eTag = some tag)
    (hheader : get.header.eTag = some tag) :
    ReadsOneVersion s (.fetchOwned r) := by
  intro found other hfound hfilled publisher hpublisher e he
  rw [hget] at hfound
  cases hfound
  rw [hclaim] at hfilled
  cases hfilled
  rw [hleader] at hpublisher
  cases hpublisher
  rw [hheader] at he
  cases he
  exact ⟨tag, hleads, rfl⟩

end Guards

theorem along_acrossOverwrite :
    Along (step oneNode) ReadsOneVersion (State.start versionOne)
      acrossOverwrite := by
  iterate 2 apply along_cons_of_step trivial rfl
  refine along_cons_of_step (leads_of_unclaimed rfl rfl) rfl ?_
  refine along_cons_of_step (reads_of_current rfl rfl rfl) rfl ?_
  iterate 4 apply along_cons_of_step trivial rfl
  refine along_cons_of_step (leads_of_unclaimed rfl rfl) rfl ?_
  refine along_cons_of_step (reads_of_current rfl rfl rfl) rfl ?_
  iterate 5 apply along_cons_of_step trivial rfl
  refine along_cons_of_step (leads_of_unclaimed rfl rfl) rfl ?_
  refine along_cons_of_step (reads_of_current rfl rfl rfl) rfl ?_
  iterate 2 apply along_cons_of_step trivial rfl
  refine along_cons_of_step (follows_of_same rfl rfl rfl rfl rfl) rfl ?_
  iterate 5 apply along_cons_of_step trivial rfl
  refine along_cons_of_step (leads_of_unclaimed rfl rfl) rfl ?_
  refine along_cons_of_step (reads_of_current rfl rfl rfl) rfl ?_
  iterate 4 apply along_cons_of_step trivial rfl
  refine along_cons_of_step (leads_of_unclaimed rfl rfl) rfl ?_
  refine along_cons_of_step (reads_of_current rfl rfl rfl) rfl ?_
  iterate 2 apply along_cons_of_step trivial rfl
  exact along_cons_of_step trivial rfl trivial

theorem served_is_one_version_acrossOverwrite : exists final old new late,
    run (step oneNode) (State.start versionOne) acrossOverwrite =
      some final ∧
    final.gets 0 = some old ∧ final.gets 1 = some new ∧
    final.gets 2 = some late ∧
    served oneNode final 0 = some [1, 1] ∧
    served oneNode final 1 = some [2, 2] ∧
    served oneNode final 2 = some [2, 2] ∧
    [1, 1] = span (twoContents (trimQuotes "1")) old.start old.stop ∧
    [2, 2] = span (twoContents (trimQuotes "2")) new.start new.stop ∧
    [2, 2] = span (twoContents (trimQuotes "2")) late.start late.stop := by
  refine ⟨_, _, _, _, rfl, rfl, rfl, rfl, rfl, rfl, rfl, ?_, ?_, ?_⟩
  · exact (served_is_one_version (g := 0) along_acrossOverwrite rfl rfl rfl
      rfl).right
  · exact (served_is_one_version (g := 1) along_acrossOverwrite rfl rfl rfl
      rfl).right
  · exact (served_is_one_version (g := 2) along_acrossOverwrite rfl rfl rfl
      rfl).right

def readsChunk (index : Nat) : List (Event twoContents) :=
  readsBackend (0, index) ++ letsGo (0, index)

/-- The object is overwritten between a GET's two reads: the body mixes the two
versions, under the ETag of the first. -/
theorem overtaken_get_mixes : exists final get,
    run (step oneNode) (State.start versionOne)
      (.head 0 0 none .cacheNoFill ::
        (readsChunk 0 ++ .overwrite versionTwo :: readsChunk 1)) =
        some final ∧
    final.gets 0 = some get ∧ get.header.eTag = some "1" ∧
    served oneNode final 0 = some [1, 2] ∧
    [1, 2] ≠ span (twoContents (trimQuotes "1")) get.start get.stop := by
  refine ⟨_, _, rfl, rfl, rfl, rfl, ?_⟩
  decide

end ReadPath

end Daemon
end Pacer
