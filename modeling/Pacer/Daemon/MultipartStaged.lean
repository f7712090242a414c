import Pacer.Daemon.Multipart
import Pacer.Foundation.Table

/-!
# What a multipart upload's tee has staged

The windows of an upload come from the tees of its requests, and each tee took in
the front of its request's content.  The placer has each part from one request.
This module states what holds of requests, placer, S3 and the requests that end
the upload, and how it is kept while requests move on.
-/

namespace Pacer
namespace Daemon

open Foundation Function
open Cache
open TeeCluster (Message Made)

namespace Multipart

/-!
## Where windows come from
-/

def WindowOf (cfg : Config) (requests : Nat -> Option PartRequest) (index : Nat)
    (body : Bytes) : Prop :=
  exists r req first j, requests r = some req ∧ req.first = some first ∧
    (index, body) = PartTee.window cfg.chunk.chunkSize first req.payload j ∧
    (j + 1) * cfg.chunk.chunkSize ≤ req.payload.length

/-- The object exists under this ETag, and every body that was teed has been
forwarded whole and stands in the object where its tee was started. -/
def Settled (cfg : Config) (s : State) (eTag : String) : Prop :=
  exists done, s.completed = some done ∧ eTag = trimQuotes done.eTag ∧
    forall r req first, s.requests r = some req -> req.first = some first ->
      req.ended = true ∧
      req.payload <+: done.content.drop (first * cfg.chunk.chunkSize)

def Committable (cfg : Config) (s : State) (eTag : String) : Prop :=
  s.record = none ∧ s.opened = true ∧ Settled cfg s eTag

def MadeOf (cfg : Config) (completed : Option Completed) (entry : Made) : Prop :=
  exists done lo hi, completed = some done ∧
    entry.chunk.eTag = some (trimQuotes done.eTag) ∧
    cfg.chunk.chunkBounds entry.index done.content.length = some (lo, hi) ∧
    entry.chunk.body = span done.content lo hi

variable {placer : PartPlacer} {cfg : Config}

theorem madeOf_of_window {s : State} {eTag : String} (h : Settled cfg s eTag)
    {index : Nat} {body : Bytes} (hwindow : WindowOf cfg s.requests index body)
    (node : Nat) :
    MadeOf cfg s.completed ⟨node, index, ⟨body, some eTag⟩⟩ := by
  rcases h with ⟨done, hdone, rfl, hbodies⟩
  rcases hwindow with ⟨r, req, first, j, hreq, hfirst, hpair, hfull⟩
  rcases hbodies r req first hreq hfirst with ⟨_, hprefix⟩
  cases hpair
  have hlength := hprefix.length_le
  rw [List.length_drop] at hlength
  have hlo : (first + j) * cfg.chunk.chunkSize =
      first * cfg.chunk.chunkSize + j * cfg.chunk.chunkSize := Nat.add_mul ..
  have hhi : (j + 1) * cfg.chunk.chunkSize =
      j * cfg.chunk.chunkSize + cfg.chunk.chunkSize := Nat.add_one_mul ..
  have hpos := cfg.chunk.positive
  have hbounds : cfg.chunk.chunkBounds (first + j) done.content.length =
      some ((first + j) * cfg.chunk.chunkSize,
        (first + j) * cfg.chunk.chunkSize + cfg.chunk.chunkSize) := by
    unfold ChunkConfig.chunkBounds
    rw [if_neg (by lia), Nat.min_eq_left (by lia)]
  refine ⟨done, _, _, hdone, rfl, hbounds, ?_⟩
  rw [span_of_isPrefix hprefix hfull, span_drop, hlo, hhi, Nat.add_assoc]

/-!
## What the tee of a request has done
-/

/-- A request and its tee.  Only what the placer has seen is teed; what the tee
took in is the front of the content, and what waits in the outbox are windows of
it. -/
structure RequestOk (cfg : Config) (req : PartRequest) : Prop where
  seen : req.seen = true -> exists part announced,
    observation cfg req.request = some (part, announced)
  teed : forall first, req.first = some first -> req.seen = true
  ahead : forall first more content, req.first = some first ->
    PartTee.Content req.request.headers.isAwsChunked (req.sent ++ more) content ->
    req.payload <+: content
  tail : forall t, req.tee = some t -> t.keepTail = false
  started : forall t, req.tee = some t -> exists first, req.first = some first
  live : forall t first, req.tee = some t -> req.first = some first ->
    t.done = false -> t.failed = false ∧
      exists k, t.Carries req.request.headers.isAwsChunked cfg.chunk.chunkSize
        first k req.sent req.payload
  outbox : forall entry first, entry ∈ req.outbox -> req.first = some first ->
    exists j, entry = PartTee.window cfg.chunk.chunkSize first req.payload j ∧
      (j + 1) * cfg.chunk.chunkSize ≤ req.payload.length
  quiet : req.first = none -> req.outbox = []

variable {request : Request}

theorem observation_some {part : Int} {announced : BodyShape}
    (h : observation cfg request = some (part, announced)) :
    s3Part cfg request = some part ∧ request.copySource = false ∧
      shape request.headers = some announced := by
  unfold observation at h
  split at h
  · rename_i bucket key uploadId found shaped hop hshape
    split at h
    · rename_i htarget
      cases h
      rcases htarget with ⟨rfl, rfl, rfl⟩
      rcases of_eq_uploadPart hop with
        ⟨hmethod, haddress, hupload, hcopy, hpart⟩
      refine ⟨?_, hcopy, hshape⟩
      unfold s3Part
      rw [if_pos ⟨hmethod, haddress, hupload⟩]
      exact hpart
    · cases h
  · cases h

theorem window_of_isPrefix {size j : Nat} {payload longer : Bytes}
    (h : payload <+: longer) (hfull : (j + 1) * size ≤ payload.length) :
    (forall first, PartTee.window size first payload j =
        PartTee.window size first longer j) ∧
      (j + 1) * size ≤ longer.length := by
  constructor
  · intro first
    unfold PartTee.window
    rw [span_of_isPrefix h hfull]
  · exact Nat.le_trans hfull h.length_le

theorem requestOk_forwarded :
    RequestOk cfg
      { request := request,
        seen := false,
        first := none,
        tee := none,
        outbox := [],
        sent := [],
        payload := [],
        ended := false } :=
  ⟨nofun, nofun, nofun, nofun, nofun, nofun, nofun, fun _ => rfl⟩

theorem requestOk_seen {part : Int} {announced : BodyShape}
    (h : observation cfg request = some (part, announced))
    (first : Option Nat) :
    RequestOk cfg
      { request := request,
        seen := true,
        first := first,
        tee := first.map fun chunk =>
          PartTee.start cfg.chunk chunk announced false,
        outbox := [],
        sent := [],
        payload := [],
        ended := false } := by
  have hchunked := awsChunked_of_shape (observation_some h).right.right
  refine ⟨fun _ => ⟨part, announced, h⟩, fun _ _ => rfl, ?_, ?_, ?_, ?_, nofun,
    fun _ => rfl⟩
  · intro _ more content _ _
    exact List.nil_prefix
  · intro t ht
    rcases Option.map_eq_some_iff.mp ht with ⟨chunk, _, rfl⟩
    rfl
  · intro t ht
    rcases Option.map_eq_some_iff.mp ht with ⟨chunk, hchunk, _⟩
    exact ⟨chunk, hchunk⟩
  · intro t chunk ht hchunk _
    change first = some chunk at hchunk
    change first.map _ = some t at ht
    rw [hchunk] at ht
    cases ht
    refine ⟨rfl, 0, ?_⟩
    rw [← hchunked]
    exact PartTee.carries_start cfg.chunk chunk announced false

variable {fed : PartTee.Fed}

namespace RequestOk

variable {cfg : Config} {req : PartRequest}

section

variable (h : RequestOk cfg req)

include h

theorem ahead_append (data : Bytes) :
    forall first more content, req.first = some first ->
      PartTee.Content req.request.headers.isAwsChunked
        (req.sent ++ data ++ more) content ->
      req.payload <+: content := by
  intro first more content hfirst hcontent
  rw [List.append_assoc] at hcontent
  exact h.ahead first (data ++ more) content hfirst hcontent

theorem forward (data : Bytes) (ended : Bool)
    (hend : forall t, req.tee = some t -> t.done = true ∨ data = []) :
    RequestOk cfg { req with sent := req.sent ++ data, ended := ended } := by
  refine ⟨h.seen, h.teed, h.ahead_append data, h.tail, h.started, ?_, h.outbox,
    h.quiet⟩
  intro t first ht hfirst hdone
  rcases hend t ht with hover | rfl
  · rw [hover] at hdone
    cases hdone
  rcases h.live t first ht hfirst hdone with ⟨hfailed, k, hcarries⟩
  rw [← List.append_nil req.sent] at hcarries
  exact ⟨hfailed, k, hcarries⟩

theorem quietCall {t : PartTee} (ht : req.tee = some t) (hfed : fed.Quiet)
    (data : Bytes) (ended : Bool) :
    RequestOk cfg (PartRequest.after
      { req with sent := req.sent ++ data, ended := ended } fed) := by
  rcases h.started t ht with ⟨first, hfirst⟩
  unfold PartRequest.after
  rw [hfed.gained, hfed.windows, List.append_nil, List.append_nil]
  refine ⟨h.seen, h.teed, h.ahead_append data, ?_, ?_, ?_, h.outbox, h.quiet⟩
  · intro t' ht'
    cases ht'
    exact hfed.tail
  · intro t' _
    exact ⟨first, hfirst⟩
  · intro t' first' ht' _ hdone
    cases ht'
    rw [hfed.done] at hdone
    cases hdone

theorem liveCall {first k : Nat} (hfirst : req.first = some first)
    (hempty : req.outbox = []) {data : Bytes} {n : Nat} (hlive : fed.tee.Live)
    (hwindows : fed.windows = (List.range' k n).map
      (PartTee.window cfg.chunk.chunkSize first (req.payload ++ fed.gained)))
    (hcarries : fed.tee.Carries req.request.headers.isAwsChunked
      cfg.chunk.chunkSize first (k + n) (req.sent ++ data)
      (req.payload ++ fed.gained)) :
    RequestOk cfg
      (PartRequest.after { req with sent := req.sent ++ data } fed) := by
  refine ⟨h.seen, h.teed, ?_, ?_, ?_, ?_, ?_, ?_⟩
  · intro _ more content _ hcontent
    exact PartTee.isPrefix_of_reads hcarries.reads hcontent
  · intro t' ht'
    cases ht'
    exact hlive.right.right
  · intro t' _
    exact ⟨first, hfirst⟩
  · intro t' first' ht' hfirst' _
    cases ht'
    change req.first = some first' at hfirst'
    rw [hfirst] at hfirst'
    cases hfirst'
    exact ⟨hlive.right.left, k + n, hcarries⟩
  · intro entry first' hentry hfirst'
    change req.first = some first' at hfirst'
    rw [hfirst] at hfirst'
    cases hfirst'
    change entry ∈ req.outbox ++ fed.windows at hentry
    rw [hempty, List.nil_append, hwindows] at hentry
    rcases List.mem_map.mp hentry with ⟨j, hj, rfl⟩
    rw [List.mem_range'_1] at hj
    refine ⟨j, rfl, Nat.le_trans ?_ hcarries.full⟩
    exact Nat.mul_le_mul_right _ (by lia)
  · intro hnone
    change req.first = none at hnone
    rw [hfirst] at hnone
    cases hnone

theorem feed {t : PartTee} (ht : req.tee = some t) (hempty : req.outbox = [])
    (data : Bytes) :
    RequestOk cfg (PartRequest.after { req with sent := req.sent ++ data }
      (t.feed data)) := by
  rcases h.started t ht with ⟨first, hfirst⟩
  cases hdone : t.done with
  | true =>
    exact h.quietCall ht (PartTee.quiet_feed_of_done (h.tail t ht) hdone data)
      data req.ended
  | false =>
    rcases h.live t first ht hfirst hdone with ⟨hfailed, k, hcarries⟩
    have hlive : t.Live := ⟨hdone, hfailed, h.tail t ht⟩
    rcases PartTee.feed_spec hcarries hlive data with hquiet |
      ⟨n, hwindows, hcarries', hlive'⟩
    · exact h.quietCall ht hquiet data req.ended
    · exact h.liveCall hfirst hempty hlive' hwindows hcarries'

theorem dispatch {entry : Nat × Bytes} {rest : List (Nat × Bytes)}
    (houtbox : req.outbox = entry :: rest) :
    RequestOk cfg { req with outbox := rest } := by
  refine ⟨h.seen, h.teed, h.ahead, h.tail, h.started, h.live, ?_, ?_⟩
  · intro found first hfound hfirst
    apply h.outbox found first _ hfirst
    rw [houtbox]
    exact List.mem_cons_of_mem entry hfound
  · intro hnone
    have hquiet := h.quiet hnone
    rw [houtbox] at hquiet
    cases hquiet

theorem windowOf {entry : Nat × Bytes} (hentry : entry ∈ req.outbox)
    {requests : Nat -> Option PartRequest} {r : Nat}
    (hreq : requests r = some req) :
    WindowOf cfg requests entry.1 entry.2 := by
  cases hfirst : req.first with
  | none =>
    rw [h.quiet hfirst] at hentry
    cases hentry
  | some first =>
    rcases h.outbox entry first hentry hfirst with ⟨j, heq, hfull⟩
    exact ⟨r, req, first, j, hreq, hfirst, heq, hfull⟩

end

end RequestOk

/-!
## What holds in every state
-/

def Saw (cfg : Config) (requests : Nat -> Option PartRequest) (r : Nat)
    (req : PartRequest) (part : Int) (announced : BodyShape) : Prop :=
  requests r = some req ∧ req.seen = true ∧
    observation cfg req.request = some (part, announced)

/-- A placer without taint has each part it knows from one request, with the
length that announced and at the place where its tee was started. -/
structure Placed (cfg : Config) (requests : Nat -> Option PartRequest)
    (placer : PartPlacer) : Prop where
  grid : placer.chunkSize = cfg.chunk.chunkSize
  known : placer.tainted = false -> forall r req part announced,
    Saw cfg requests r req part announced ->
    (exists observed, placer.parts.lookup part = some observed) ∨
      (req.first = none ∧
        PartPlacer.assumedOffset placer.hypothesis part = none)
  agrees : placer.tainted = false -> forall r req part announced observed,
    Saw cfg requests r req part announced ->
    placer.parts.lookup part = some observed ->
    observed.len = announced.len ∧
      forall first, req.first = some first ->
        observed.assumedOffset = first * cfg.chunk.chunkSize
  unique : placer.tainted = false ->
    forall r r' req req' part announced announced' observed,
    Saw cfg requests r req part announced ->
    Saw cfg requests r' req' part announced' ->
    placer.parts.lookup part = some observed -> r = r'

/-- What S3 has for a part number came with a request for it; if that was teed,
its tee took in the front of the content. -/
def Held (cfg : Config) (requests : Nat -> Option PartRequest) (number : Int)
    (part : Part) : Prop :=
  exists req, requests part.request = some req ∧
    s3Part cfg req.request = some number ∧
    (forall announced, req.request.copySource = false ->
      shape req.request.headers = some announced ->
      announced.len = part.content.length) ∧
    forall first, req.first = some first ->
      req.ended = true ∧ req.payload <+: part.content

def Concatenated (s : State) (done : Completed) : Prop :=
  s.uploadOpen = false ∧ exists contents,
    done.list.mapM (fun part => (s.parts part).map Part.content) =
      some contents ∧
    done.content = contents.flatten ∧ done.content.length < 2 ^ 64

def PhaseOk (cfg : Config) (s : State) (settler : Settler) : Prop :=
  match settler.phase with
  | .waiting => settler.list = settler.read
  | .succeeded eTag => exists done, s.completed = some done ∧
      done.list = settler.list ∧ eTag = trimQuotes done.eTag
  | .verified eTag =>
    (exists done, s.completed = some done ∧ eTag = trimQuotes done.eTag) ∧
      forall record, s.record = some record -> record.tainted = false ->
        Settled cfg s eTag
  | .committing eTag _ => Committable cfg s eTag
  | .notifying eTag _ => Committable cfg s eTag
  | _ => True

theorem PhaseOk.mono {s s' : State} {settler : Settler}
    (h : PhaseOk cfg s settler)
    (hdone : forall done, s.completed = some done -> s'.completed = some done)
    (hverified : forall eTag, settler.phase = .verified eTag ->
      (exists done, s.completed = some done ∧ eTag = trimQuotes done.eTag) ->
      (forall record, s.record = some record -> record.tainted = false ->
        Settled cfg s eTag) ->
      forall record, s'.record = some record -> record.tainted = false ->
        Settled cfg s' eTag)
    (hcommittable : forall eTag, Committable cfg s eTag ->
      Committable cfg s' eTag) :
    PhaseOk cfg s' settler := by
  unfold PhaseOk at h ⊢
  split
  · rename_i heq
    rw [heq] at h
    exact h
  · rename_i eTag heq
    rw [heq] at h
    rcases h with ⟨done, hcompleted, hlist, htag⟩
    exact ⟨done, hdone done hcompleted, hlist, htag⟩
  · rename_i eTag heq
    rw [heq] at h
    rcases h with ⟨⟨done, hcompleted, htag⟩, hclean⟩
    exact ⟨⟨done, hdone done hcompleted, htag⟩,
      hverified eTag heq ⟨done, hcompleted, htag⟩ hclean⟩
  · rename_i eTag homes heq
    rw [heq] at h
    exact hcommittable eTag h
  · rename_i eTag homes heq
    rw [heq] at h
    exact hcommittable eTag h
  · trivial

structure Inv (cfg : Config) (s : State) : Prop where
  cluster : s.cluster.Sound cfg.id (WindowOf cfg s.requests)
    (Committable cfg s) (MadeOf cfg s.completed)
  requests : forall r req, s.requests r = some req -> RequestOk cfg req
  placed : forall record, s.record = some record ->
    Placed cfg s.requests record.placer
  held : forall number part, s.parts number = some part ->
    Held cfg s.requests number part
  settlers : forall q settler, s.settlers q = some settler ->
    PhaseOk cfg s settler
  unopened : s.opened = false -> s.record = none ∧
    forall r req, s.requests r = some req -> req.seen = false
  done : forall done, s.completed = some done -> Concatenated s done

theorem inv_start (cfg : Config) : Inv cfg (State.start cfg) := by
  refine ⟨StagingCluster.sound_start _ _ _ _ _ _, ?_, ?_, ?_, ?_, ?_, ?_⟩
  · intro r req h
    cases h
  · intro record h
    cases h
  · intro number part h
    cases h
  · intro q settler h
    cases h
  · intro _
    constructor
    · rfl
    · intro r req h
      cases h
  · intro done h
    cases h

/-!
## Requests move on
-/

structure Grows (req later : PartRequest) : Prop where
  request : later.request = req.request
  seen : later.seen = req.seen
  first : later.first = req.first
  ended : req.ended = true -> later.ended = true
  payload : req.payload <+: later.payload
  frozen : req.ended = true -> later.payload = req.payload

theorem grows_refl (req : PartRequest) : Grows req req :=
  ⟨rfl, rfl, rfl, id, List.prefix_rfl, fun _ => rfl⟩

def Extends (requests later : Nat -> Option PartRequest) : Prop :=
  forall r req, requests r = some req ->
    exists req', later r = some req' ∧ Grows req req'

def Backed (requests later : Nat -> Option PartRequest) : Prop :=
  forall r req', later r = some req' -> req'.seen = true ->
    exists req, requests r = some req ∧ Grows req req'

section Moves

variable {cfg : Config} {s : State}
variable {requests later : Nat -> Option PartRequest}

theorem extends_update {r : Nat} {new : PartRequest}
    (hnew : forall req, requests r = some req -> Grows req new) :
    Extends requests (update requests r (some new)) := by
  intro other found hfound
  rcases eq_or_ne other r with rfl | hne
  · exact ⟨new, update_self _ _ _, hnew found hfound⟩
  · exists found
    rw [update_of_ne hne]
    exact ⟨hfound, grows_refl found⟩

theorem backed_update {r : Nat} {new : PartRequest}
    (hnew : new.seen = true -> exists req, requests r = some req ∧
      Grows req new) :
    Backed requests (update requests r (some new)) := by
  intro other found hfound hseen
  rcases Table.update_cases hfound with ⟨rfl, heq⟩ | ⟨_, hold⟩
  · cases heq
    exact hnew hseen
  · exact ⟨found, hold, grows_refl found⟩

theorem WindowOf.extend {index : Nat} {body : Bytes}
    (h : WindowOf cfg requests index body) (hext : Extends requests later) :
    WindowOf cfg later index body := by
  rcases h with ⟨r, req, first, j, hreq, hfirst, hpair, hfull⟩
  rcases hext r req hreq with ⟨req', hreq', hgrows⟩
  rcases window_of_isPrefix hgrows.payload hfull with ⟨hsame, hfull'⟩
  rw [hsame first] at hpair
  exact ⟨r, req', first, j, hreq', hgrows.first.trans hfirst, hpair, hfull'⟩

theorem Held.extend {number : Int} {part : Part}
    (h : Held cfg requests number part) (hext : Extends requests later) :
    Held cfg later number part := by
  rcases h with ⟨req, hreq, hnumber, hlength, hteed⟩
  rcases hext part.request req hreq with ⟨req', hreq', hgrows⟩
  refine ⟨req', hreq', ?_, ?_, ?_⟩
  · rw [hgrows.request]
    exact hnumber
  · rw [hgrows.request]
    exact hlength
  · intro first hfirst
    rw [hgrows.first] at hfirst
    rcases hteed first hfirst with ⟨hended, hprefix⟩
    rw [hgrows.frozen hended]
    exact ⟨hgrows.ended hended, hprefix⟩

theorem Saw.back (hback : Backed requests later) {r : Nat}
    {req' : PartRequest} {part : Int} {announced : BodyShape}
    (h : Saw cfg later r req' part announced) :
    exists req, Saw cfg requests r req part announced ∧ Grows req req' := by
  rcases h with ⟨hreq', hseen, hobservation⟩
  rcases hback r req' hreq' hseen with ⟨req, hreq, hgrows⟩
  rw [hgrows.request] at hobservation
  rw [hgrows.seen] at hseen
  exact ⟨req, ⟨hreq, hseen, hobservation⟩, hgrows⟩

theorem Placed.back (h : Placed cfg requests placer)
    (hback : Backed requests later) : Placed cfg later placer := by
  refine ⟨h.grid, ?_, ?_, ?_⟩
  · intro hclean r req' part announced hsaw
    rcases hsaw.back hback with ⟨req, hsaw', hgrows⟩
    rw [hgrows.first]
    exact h.known hclean r req part announced hsaw'
  · intro hclean r req' part announced observed hsaw hobserved
    rcases hsaw.back hback with ⟨req, hsaw', hgrows⟩
    rw [hgrows.first]
    exact h.agrees hclean r req part announced observed hsaw' hobserved
  · intro hclean r r' req req' part announced announced' observed hsaw hsaw'
      hobserved
    rcases hsaw.back hback with ⟨old, hold, _⟩
    rcases hsaw'.back hback with ⟨old', hold', _⟩
    exact h.unique hclean r r' old old' part announced announced' observed hold
      hold' hobserved

theorem Settled.back {eTag : String} (h : Settled cfg s eTag)
    (hback : Backed s.requests later)
    (hok : forall r req, later r = some req -> RequestOk cfg req) :
    Settled cfg { s with requests := later } eTag := by
  rcases h with ⟨done, hdone, heTag, hbodies⟩
  refine ⟨done, hdone, heTag, ?_⟩
  intro r req' first hreq' hfirst
  have hseen := (hok r req' hreq').teed first hfirst
  rcases hback r req' hreq' hseen with ⟨req, hreq, hgrows⟩
  rw [hgrows.first] at hfirst
  rcases hbodies r req first hreq hfirst with ⟨hended, hprefix⟩
  rw [hgrows.frozen hended]
  exact ⟨hgrows.ended hended, hprefix⟩

end Moves

namespace Inv

variable {cfg : Config} {s s' : State} (h : Inv cfg s)
include h

theorem setCluster {cluster : StagingCluster}
    (hsound : cluster.Sound cfg.id (WindowOf cfg s.requests)
      (Committable cfg s) (MadeOf cfg s.completed)) :
    Inv cfg { s with cluster := cluster } :=
  ⟨hsound, h.requests, h.placed, h.held, h.settlers, h.unopened, h.done⟩

theorem setSettler {q : Nat} {settler : Settler}
    (hphase : PhaseOk cfg s settler) : Inv cfg (s.setSettler q settler) := by
  refine ⟨h.cluster, h.requests, h.placed, h.held, ?_, h.unopened, h.done⟩
  exact Table.forall_update_some h.settlers hphase

theorem setRecord {record record' : Record} (hrecord : s.record = some record)
    (hplacer : record'.placer = record.placer)
    (htainted : record'.tainted = false -> record.tainted = false) :
    Inv cfg { s with record := some record' } := by
  have hnot : forall {eTag}, ¬ Committable cfg s eTag := by
    intro eTag hcommittable
    rw [hcommittable.left] at hrecord
    cases hrecord
  refine ⟨?_, h.requests, ?_, h.held, ?_, ?_, h.done⟩
  · exact h.cluster.mono (fun _ _ hwindow => hwindow)
      (fun eTag hcommittable => absurd hcommittable hnot) (fun _ hmade => hmade)
  · intro found hfound
    cases hfound
    rw [hplacer]
    exact h.placed record hrecord
  · intro q settler hsettler
    refine (h.settlers q settler hsettler).mono (fun _ hdone => hdone) ?_
      (fun eTag hcommittable => absurd hcommittable hnot)
    intro eTag _ _ hverified found hfound hclean
    cases hfound
    exact hverified record hrecord (htainted hclean)
  · intro hopened
    have hnone := (h.unopened hopened).left
    rw [hrecord] at hnone
    cases hnone

theorem taint : Inv cfg s.taint := by
  unfold State.taint
  cases hrecord : s.record with
  | none =>
    rw [Option.map_none, ← hrecord]
    exact h
  | some record =>
    have htainted : ({ record with tainted := true } : Record).tainted = false ->
        record.tainted = false := nofun
    exact h.setRecord hrecord rfl htainted

theorem clearRecord : Inv cfg { s with record := none } := by
  have hkeeps : forall eTag, Committable cfg s eTag ->
      Committable cfg { s with record := none } eTag :=
    fun _ hcommittable => ⟨rfl, hcommittable.right⟩
  refine ⟨?_, h.requests, nofun, h.held, ?_, ?_, h.done⟩
  · exact h.cluster.mono (fun _ _ hwindow => hwindow) hkeeps
      (fun _ hmade => hmade)
  · intro q settler hsettler
    exact (h.settlers q settler hsettler).mono (fun _ hdone => hdone)
      (fun _ _ _ _ _ hrecord => nomatch hrecord) hkeeps
  · intro hopened
    exact ⟨rfl, (h.unopened hopened).right⟩

theorem setRequests {later : Nat -> Option PartRequest}
    (hext : Extends s.requests later) (hback : Backed s.requests later)
    (hok : forall r req, later r = some req -> RequestOk cfg req) :
    Inv cfg { s with requests := later } := by
  have hsettled : forall eTag, Settled cfg s eTag ->
      Settled cfg { s with requests := later } eTag :=
    fun _ hsettled => hsettled.back hback hok
  have hkeeps : forall eTag, Committable cfg s eTag ->
      Committable cfg { s with requests := later } eTag :=
    fun eTag hcommittable => ⟨hcommittable.left, hcommittable.right.left,
      hsettled eTag hcommittable.right.right⟩
  refine ⟨?_, hok, ?_, ?_, ?_, ?_, h.done⟩
  · exact h.cluster.mono (fun _ _ hwindow => hwindow.extend hext) hkeeps
      (fun _ hmade => hmade)
  · intro record hrecord
    exact (h.placed record hrecord).back hback
  · intro number part hpart
    exact (h.held number part hpart).extend hext
  · intro q settler hsettler
    refine (h.settlers q settler hsettler).mono (fun _ hdone => hdone) ?_ hkeeps
    intro eTag _ _ hverified record hrecord hclean
    exact hsettled eTag (hverified record hrecord hclean)
  · intro hopened
    rcases h.unopened hopened with ⟨hrecord, hunseen⟩
    refine ⟨hrecord, ?_⟩
    intro r req' hreq'
    cases hseen : req'.seen with
    | false => rfl
    | true =>
      rcases hback r req' hreq' hseen with ⟨req, hreq, hgrows⟩
      rw [hgrows.seen, hunseen r req hreq] at hseen
      cases hseen

theorem setRequest {r : Nat} {req later : PartRequest}
    (hreq : s.requests r = some req) (hgrows : Grows req later)
    (hok : RequestOk cfg later) : Inv cfg (s.setRequest r later) := by
  apply h.setRequests
  · apply extends_update
    intro found hfound
    rw [hreq] at hfound
    cases hfound
    exact hgrows
  · exact backed_update fun _ => ⟨req, hreq, hgrows⟩
  · exact Table.forall_update_some h.requests hok

theorem applyFed {r : Nat} {req later : PartRequest}
    (hreq : s.requests r = some req) (hgrows : Grows req (later.after fed))
    (hok : RequestOk cfg (later.after fed)) :
    Inv cfg (Multipart.applyFed s r later fed) := by
  unfold Multipart.applyFed
  dsimp only
  split
  · exact (h.setRequest hreq hgrows hok).taint
  · exact h.setRequest hreq hgrows hok

end Inv

/-!
## A part arrives
-/

section Arrive

variable {cfg : Config} {requests : Nat -> Option PartRequest} {r : Nat}
variable {new : PartRequest}

variable {part : Int} {announced : BodyShape}

variable {other : Nat} {found : PartRequest}

theorem Saw.of_update {part' : Int} {announced' : BodyShape}
    (hobservation : observation cfg new.request = some (part, announced))
    (h : Saw cfg (update requests r (some new)) other found part' announced') :
    (other = r ∧ found = new ∧ part' = part ∧ announced' = announced) ∨
      Saw cfg requests other found part' announced' := by
  rcases h with ⟨hfound, hseen, hsame⟩
  rcases Table.update_cases hfound with ⟨hother, hnew⟩ | ⟨_, hold⟩
  · cases hnew
    rw [hobservation] at hsame
    cases hsame
    exact Or.inl ⟨hother, rfl, rfl, rfl⟩
  · exact Or.inr ⟨hold, hseen, hsame⟩

theorem Placed.of_tainted {later : PartPlacer}
    (hgrid : later.chunkSize = cfg.chunk.chunkSize)
    (htainted : later.tainted = true) : Placed cfg requests later := by
  have hnot : later.tainted ≠ false := by
    rw [htainted]
    exact Bool.noConfusion
  exact ⟨hgrid, fun hclean => absurd hclean hnot,
    fun hclean => absurd hclean hnot, fun hclean => absurd hclean hnot⟩

theorem Placed.known_of_le (h : Placed cfg requests placer)
    (hclean : placer.tainted = false) {hypothesis : Nat}
    (hle : placer.hypothesis ≤ hypothesis)
    (hsaw : Saw cfg requests other found part announced) :
    (exists observed, placer.parts.lookup part = some observed) ∨
      (found.first = none ∧
        PartPlacer.assumedOffset hypothesis part = none) := by
  rcases h.known hclean other found part announced hsaw with
    hknown | ⟨hunteed, hout⟩
  · exact Or.inl hknown
  · exact Or.inr ⟨hunteed, PartPlacer.assumedOffset_none_mono hle hout⟩

/-- A part that is new to the placer and not too far out was in no earlier
request: that would have been placed, or too far out already. -/
theorem Placed.ne_of_saw (h : Placed cfg requests placer)
    (hclean : placer.tainted = false) {hypothesis offset : Nat}
    (hle : placer.hypothesis ≤ hypothesis)
    (hfresh : placer.parts.lookup part = none)
    (hoffset : PartPlacer.assumedOffset hypothesis part = some offset)
    {part' : Int} {announced' : BodyShape}
    (hsaw : Saw cfg requests other found part' announced') : part' ≠ part := by
  intro heq
  rw [heq] at hsaw
  rcases h.known_of_le hclean hle hsaw with ⟨observed, hknown⟩ | ⟨_, hout⟩
  · rw [hfresh] at hknown
    cases hknown
  · rw [hoffset] at hout
    cases hout

theorem Placed.add {placer later : PartPlacer} (h : Placed cfg requests placer)
    (hobservation : observation cfg new.request = some (part, announced))
    (hgrid : later.chunkSize = cfg.chunk.chunkSize)
    (hclean : later.tainted = placer.tainted)
    (hle : placer.hypothesis ≤ later.hypothesis)
    (hfresh : placer.parts.lookup part = none)
    (hkeeps : placer.tainted = false -> forall other found part' announced',
      Saw cfg requests other found part' announced' ->
      later.parts.lookup part' = placer.parts.lookup part')
    (hknown : (exists observed, later.parts.lookup part = some observed) ∨
      (new.first = none ∧
        PartPlacer.assumedOffset later.hypothesis part = none))
    (hagrees : forall observed, later.parts.lookup part = some observed ->
      observed.len = announced.len ∧ forall first, new.first = some first ->
        observed.assumedOffset = first * cfg.chunk.chunkSize) :
    Placed cfg (update requests r (some new)) later := by
  have hnot : placer.tainted = false -> forall other found announced' observed,
      Saw cfg requests other found part announced' ->
      later.parts.lookup part ≠ some observed := by
    intro huntainted other found announced' observed hsaw
    rw [hkeeps huntainted other found part announced' hsaw, hfresh]
    exact (Option.some_ne_none observed).symm
  constructor
  · exact hgrid
  · rw [hclean]
    intro huntainted other found part' announced' hsaw
    rcases hsaw.of_update hobservation with ⟨_, rfl, rfl, rfl⟩ | hold
    · exact hknown
    · rw [hkeeps huntainted _ _ _ _ hold]
      exact h.known_of_le huntainted hle hold
  · rw [hclean]
    intro huntainted other found part' announced' observed hsaw hobserved
    rcases hsaw.of_update hobservation with ⟨_, rfl, rfl, rfl⟩ | hold
    · exact hagrees observed hobserved
    · rw [hkeeps huntainted _ _ _ _ hold] at hobserved
      exact h.agrees huntainted other found part' announced' observed hold
        hobserved
  · rw [hclean]
    intro huntainted one two found found' part' one' two' observed hone htwo
      hobserved
    rcases hone.of_update hobservation with ⟨hr, _, rfl, _⟩ | hone'
    · rcases htwo.of_update hobservation with ⟨hr', _, _, _⟩ | htwo'
      · rw [hr, hr']
      · exact absurd hobserved (hnot huntainted _ _ _ _ htwo')
    · rcases htwo.of_update hobservation with ⟨_, _, rfl, _⟩ | htwo'
      · exact absurd hobserved (hnot huntainted _ _ _ _ hone')
      rw [hkeeps huntainted _ _ _ _ hone'] at hobserved
      exact h.unique huntainted one two found found' part' one' two'
        observed hone' htwo' hobserved

theorem Placed.observe (h : Placed cfg requests placer)
    (hobservation : observation cfg new.request = some (part, announced))
    (hfirst : new.first = none ∨
      new.first = (placer.observe part announced.len).1) :
    Placed cfg (update requests r (some new))
      (placer.observe part announced.len).2 := by
  have hgrid := (placer.chunkSize_observe part announced.len).trans h.grid
  rcases placer.observe_cases part announced.len with htainted |
    ⟨hfresh, hnone, hclean, hparts, hhypothesis, hfar⟩ |
    ⟨offset, hfresh, hoffset, hclean, hhypothesis, hparts, hchunk⟩
  · exact Placed.of_tainted hgrid htainted
  · rw [hnone, or_self] at hfirst
    rw [← hhypothesis] at hfar
    have hle := hhypothesis.symm ▸ Nat.le_max_left _ _
    apply h.add hobservation hgrid hclean hle hfresh
    · intro _ _ _ _ _ _
      rw [hparts]
    · exact Or.inr ⟨hfirst, hfar⟩
    · intro observed hobserved
      rw [hparts, hfresh] at hobserved
      cases hobserved
  · rw [← hhypothesis] at hoffset
    have hle := hhypothesis.symm ▸ Nat.le_max_left _ _
    apply h.add hobservation hgrid hclean hle hfresh
    · intro huntainted _ _ _ _ hsaw
      rw [hparts, AList.lookup_insert_ne
        (h.ne_of_saw huntainted hle hfresh hoffset hsaw)]
    · rw [hparts]
      exact Or.inl ⟨_, AList.lookup_insert _⟩
    · intro observed hobserved
      rw [hparts, AList.lookup_insert] at hobserved
      cases hobserved
      refine ⟨rfl, ?_⟩
      intro first hteed
      rw [hteed] at hfirst
      rcases hfirst with hnone | hsome
      · cases hnone
      rw [← h.grid]
      exact hchunk first hsome.symm

end Arrive

end Multipart

end Daemon
end Pacer
