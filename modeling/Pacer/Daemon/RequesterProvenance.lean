import Pacer.Cache.Disk
import Pacer.Cache.Keys
import Pacer.Daemon.ObjectVersion
import Pacer.Daemon.RequesterFront
import Pacer.Foundation.Table
import Pacer.Foundation.Transition

/-!
# Where cached bytes come from when callers authorize themselves

This module follows any number of signed requests through the front door, from
any callers, one atomic step at a time.  A held GET is probed, and a probe that
is allowed starts a read; the read takes its chunks from the cache, from another
read's fetch that is under way, or from the host its own request goes to.  A
teed write is committed when the host it went to says so.

Whatever is cached carries the host whose answer it stands on: the host a chunk
was read from, or the host that confirmed the write it was part of.  What is
served carries that host, and the host whose probe authorized serving it.

The copies at the nodes of a cluster are one cache here.  Which windows of a
body are staged, and which of them a commit loses, is left open.
-/

namespace Pacer
namespace Daemon

open Foundation Function
open Foundation.Transition
open Foundation.Table
open Cache

namespace RequesterFront

structure Config where
  domains : Domains
  chunk : ChunkConfig
  teeing : Bool

structure Sourced (a : Type) where
  content : a
  host : String

abbrev Place := String × Nat

structure Read where
  held : HttpRequest
  bucket : String
  key : String
  probed : String
  header : ObjectHeader
  admits : Bool

structure Window where
  bucket : String
  key : String
  index : Nat
  body : Bytes

structure Record where
  bucket : String
  key : String
  tainted : Bool

structure Dial where
  bucket : String
  host : Option String
  dialed : Option String

structure Served where
  bucket : String
  key : String
  index : Nat
  body : Bytes
  authorizedBy : String
  source : String
deriving DecidableEq

structure State where
  headers : String -> Option (Sourced ObjectHeader)
  chunks : Place -> Option (Sourced CachedChunk)
  fetching : Place -> Option (Sourced Bytes)
  reads : Nat -> Option Read
  records : String -> Option Record
  staged : String -> List Window
  served : List Served
  dials : List Dial

/-- What a forwarded write met: the windows its body staged, whether the host
accepted it, the ETag or upload id of the answer, and what became of the tee. -/
structure Outcome where
  windows : List (Nat × Bytes)
  accepted : Bool
  eTag : Option String
  uploadId : Option String
  opens : Bool
  verified : Bool
  lost : List Place

inductive Event where
  | get (g : Nat) (req : HttpRequest) (probe : Option ObjectHeader)
      (admits owns : Bool)
  | cached (g index : Nat)
  | backend (g index : Nat) (body : Bytes) (publishes fills : Bool)
  | coalesced (g index : Nat)
  | release (place : Place)
  | evict (place : Place)
  | evictHeader (objectKey : String)
  | write (req : HttpRequest) (outcome : Outcome)

/-- The object a request addresses, and the host it goes to. -/
structure Addressed where
  bucket : String
  key : String
  host : String
deriving DecidableEq

def addressed (domains : Domains) (req : HttpRequest) : Option Addressed :=
  match objectAddress domains req, req.dialed with
  | some (bucket, key), some host => some ⟨bucket, key, host⟩
  | _, _ => none

def Read.place (read : Read) (index : Nat) : Place :=
  (objectKey read.bucket read.key, index)

def Window.place (window : Window) : Place :=
  (objectKey window.bucket window.key, window.index)

def windowsOf (bucket key : String) (windows : List (Nat × Bytes)) :
    List Window :=
  windows.map fun window => ⟨bucket, key, window.1, window.2⟩

namespace State

def start : State where
  headers := fun _ => none
  chunks := fun _ => none
  fetching := fun _ => none
  reads := fun _ => none
  records := fun _ => none
  staged := fun _ => []
  served := []
  dials := []

def dial (s : State) (bucket : String) (sent : HttpRequest) : State :=
  { s with dials := ⟨bucket, sent.header "host", sent.dialed⟩ :: s.dials }

def serve (s : State) (read : Read) (index : Nat) (body : Bytes)
    (source : String) : State :=
  { s with
    served := ⟨read.bucket, read.key, index, body, read.probed, source⟩ ::
      s.served }

def rememberHeader (s : State) (objectKey : String)
    (header : Sourced ObjectHeader) (keeps : Bool) : State :=
  if keeps then
    { s with headers := update s.headers objectKey (some header) }
  else s

def startRead (s : State) (g : Nat) (read : Read) : State :=
  { s with reads := update s.reads g (some read) }

def publish (s : State) (place : Place) (body : Sourced Bytes)
    (publishes : Bool) : State :=
  if publishes then
    { s with fetching := update s.fetching place (some body) }
  else s

def putChunk (s : State) (place : Place) (chunk : Sourced CachedChunk)
    (fills : Bool) : State :=
  if fills then
    { s with chunks := update s.chunks place (some chunk) }
  else s

def commit (s : State) (host eTag : String) (lost : List Place) :
    List Window -> State
  | [] => s
  | window :: rest =>
    (s.putChunk window.place ⟨⟨window.body, some eTag⟩, host⟩
      (decide (window.place ∉ lost))).commit host eTag lost rest

def taint (s : State) (id : String) : State :=
  match s.records id with
  | none => s
  | some record =>
    { s with
      records := update s.records id
        (some { record with tainted := true }) }

def settle (s : State) (id : String) : State :=
  { s with
    records := update s.records id none
    staged := update s.staged id [] }

def stage (s : State) (id : String) (windows : List Window) : State :=
  { s with staged := update s.staged id (s.staged id ++ windows) }

end State

def serveGet (cfg : Config) (s : State) (g : Nat) (req : HttpRequest)
    (probe : Option ObjectHeader) (admits owns : Bool) : Option State :=
  match classify cfg.domains cfg.teeing req, addressed cfg.domains req with
  | .stripAndHold, some dest =>
    let probed := s.dial dest.bucket (req.rebuild (some "bytes=0-0"))
    match probe with
    | none => some probed
    | some header =>
      let remembered := probed.rememberHeader
        (objectKey dest.bucket dest.key) ⟨header, dest.host⟩
        (admits && owns)
      some (remembered.startRead g
        ⟨req, dest.bucket, dest.key, dest.host, header, admits⟩)
  | _, _ => none

def serveCached (s : State) (g index : Nat) : Option State :=
  match s.reads g with
  | none => none
  | some read =>
    match s.chunks (read.place index) with
    | none => none
    | some chunk =>
      if sameVersion read.header.eTag chunk.content.eTag then
        some (s.serve read index chunk.content.body chunk.host)
      else
        some { s with
          chunks := update s.chunks (read.place index) none }

def fetchFromBackend (cfg : Config) (s : State) (g index : Nat) (body : Bytes)
    (publishes fills : Bool) : Option State :=
  match s.reads g with
  | none => none
  | some read =>
    match cfg.chunk.chunkBounds index read.header.objectLen,
      read.held.dialed with
    | some (start, stop), some host =>
      let sent := read.held.rebuild (some s!"bytes={start}-{stop - 1}")
      let fetched := (s.dial read.bucket sent).publish (read.place index)
        ⟨body, host⟩ publishes
      let filled := fetched.putChunk (read.place index)
        ⟨⟨body, read.header.eTag⟩, host⟩ (fills && read.admits)
      some (filled.serve read index body host)
    | _, _ => none

def serveCoalesced (s : State) (g index : Nat) : Option State :=
  match s.reads g with
  | none => none
  | some read =>
    match s.fetching (read.place index) with
    | none => none
    | some body => some (s.serve read index body.content body.host)

/-- The tee's part of a write that went to a host.  A part is staged for the
object its upload was opened for; the end of an upload goes by its id alone. -/
def tee (s : State) (host : String) (outcome : Outcome) : WriteOp -> State
  | .put bucket key =>
    match outcome.eTag with
    | none => s
    | some eTag =>
      s.commit host eTag outcome.lost
        (windowsOf bucket key outcome.windows)
  | .createUpload bucket key =>
    match outcome.uploadId with
    | none => s
    | some id =>
      if outcome.opens then
        { s with
          records := update s.records id
            (some ⟨bucket, key, false⟩) }
      else s
  | .uploadPart bucket key id _ =>
    let teed :=
      match s.records id with
      | none => s
      | some record =>
        if record.bucket = bucket ∧ record.key = key then
          s.stage id (windowsOf bucket key outcome.windows)
        else s
    if outcome.accepted then teed else teed.taint id
  | .complete id =>
    match s.records id with
    | none => s
    | some record =>
      match outcome.eTag with
      | none => s.settle id
      | some eTag =>
        if outcome.verified && !record.tainted then
          (s.settle id).commit host eTag outcome.lost (s.staged id)
        else s.settle id
  | .abort id =>
    match s.records id with
    | none => s
    | some _ => if outcome.accepted then s.settle id else s

def forwardWrite (cfg : Config) (s : State) (req : HttpRequest)
    (outcome : Outcome) : Option State :=
  match classify cfg.domains cfg.teeing req, addressed cfg.domains req with
  | .tee op, some dest =>
    some (tee (s.dial dest.bucket (req.rebuild none)) dest.host outcome op)
  | _, _ => none

def step (cfg : Config) (s : State) : Event -> Option State
  | .get g req probe admits owns => serveGet cfg s g req probe admits owns
  | .cached g index => serveCached s g index
  | .backend g index body publishes fills =>
    fetchFromBackend cfg s g index body publishes fills
  | .coalesced g index => serveCoalesced s g index
  | .release place =>
    some { s with fetching := update s.fetching place none }
  | .evict place =>
    some { s with chunks := update s.chunks place none }
  | .evictHeader objectKey =>
    some { s with headers := update s.headers objectKey none }
  | .write req outcome => forwardWrite cfg s req outcome

/-!
## Provenance
-/

/-- Everything sent for a bucket's keys went where its `Host` header says, and
everything cached under them, served from them or authorizing that, comes from
a host the bucket is named by. -/
structure Provenance (cfg : Config) (s : State) : Prop where
  dials : forall dial, dial ∈ s.dials ->
    exists host, dial.host = some host ∧ dial.dialed = some host ∧
      cfg.domains.HostOf host dial.bucket
  headers : forall bucket key header, '/' ∉ bucket.toList ->
    s.headers (objectKey bucket key) = some header ->
      cfg.domains.HostOf header.host bucket
  chunks : forall bucket key index chunk, '/' ∉ bucket.toList ->
    s.chunks (objectKey bucket key, index) = some chunk ->
      cfg.domains.HostOf chunk.host bucket
  served : forall served, served ∈ s.served ->
    cfg.domains.HostOf served.authorizedBy served.bucket ∧
      cfg.domains.HostOf served.source served.bucket

/-- A request goes to the host its `Host` header names, and the end of an upload
is addressed to the object whose windows are staged under its id. -/
def SignedForTarget (cfg : Config) (s : State) : Event -> Prop
  | .get _ req _ _ _ => req.dialed = req.header "host"
  | .write req _ =>
    req.dialed = req.header "host" ∧
      forall id,
        WriteOp.of (req.forWrite cfg.domains) = some (.complete id) ->
          forall window, window ∈ s.staged id ->
            objectAddress cfg.domains req = some (window.bucket, window.key)
  | _ => True

def Named (cfg : Config) (key : String) (host : String) : Prop :=
  exists bucket object, key = objectKey bucket object ∧
    '/' ∉ bucket.toList ∧ cfg.domains.HostOf host bucket

variable {cfg : Config} {req : HttpRequest} {s s' : State} {place : Place}

variable {key host : String}

theorem Named.hostOf {bucket : String}
    (h : Named cfg (objectKey bucket key) host)
    (hbucket : '/' ∉ bucket.toList) :
    cfg.domains.HostOf host bucket := by
  rcases h with ⟨found, object, heq, hfound, hhost⟩
  rw [(objectKey_injective hbucket hfound heq).left]
  exact hhost

structure ReadOk (cfg : Config) (read : Read) : Prop where
  dialed : read.held.dialed = some read.probed
  host : read.held.header "host" = some read.probed
  slashless : '/' ∉ read.bucket.toList
  hostOf : cfg.domains.HostOf read.probed read.bucket

variable {dest : Addressed} {g index : Nat} {read : Read}

theorem ReadOk.named (h : ReadOk cfg read) (index : Nat)
    : Named cfg (read.place index).1 read.probed :=
  ⟨read.bucket, read.key, rfl, h.slashless, h.hostOf⟩

structure Sound (cfg : Config) (s : State) : Prop where
  dials : forall dial, dial ∈ s.dials ->
    exists host, dial.host = some host ∧ dial.dialed = some host ∧
      cfg.domains.HostOf host dial.bucket
  headers : forall key header, s.headers key = some header ->
    Named cfg key header.host
  chunks : forall place chunk, s.chunks place = some chunk ->
    Named cfg place.1 chunk.host
  fetching : forall place body, s.fetching place = some body ->
    Named cfg place.1 body.host
  reads : forall g read, s.reads g = some read -> ReadOk cfg read
  served : forall served, served ∈ s.served ->
    cfg.domains.HostOf served.authorizedBy served.bucket ∧
      cfg.domains.HostOf served.source served.bucket

theorem Sound.provenance {s : State} (h : Sound cfg s) :
    Provenance cfg s where
  dials := h.dials
  headers bucket key header hbucket hheader :=
    (h.headers (objectKey bucket key) header hheader).hostOf hbucket
  chunks bucket key index chunk hbucket hchunk :=
    (h.chunks (objectKey bucket key, index) chunk hchunk).hostOf hbucket
  served := h.served

theorem addressed_eq {domains : Domains}
    (h : addressed domains req = some dest) :
    objectAddress domains req = some (dest.bucket, dest.key) ∧
      req.dialed = some dest.host := by
  unfold addressed at h
  split at h
  · rename_i bucket key host haddress hdialed
    cases h
    exact ⟨haddress, hdialed⟩
  · cases h

theorem slashless_of_dialed (h : req.dialed = some host) :
    '/' ∉ host.toList := by
  rcases Option.map_eq_some_iff.mp h with ⟨target, _, heq⟩
  rw [← heq]
  exact target.slashless

theorem readOk_of_addressed (hdest : addressed cfg.domains req = some dest)
    (hguard : req.dialed = req.header "host") (header : ObjectHeader)
    (admits : Bool) :
    ReadOk cfg ⟨req, dest.bucket, dest.key, dest.host, header, admits⟩ := by
  rcases addressed_eq hdest with ⟨haddress, hdialed⟩
  rcases resolve_of_objectAddress haddress with ⟨host, raw, hhost, hresolve⟩
  rw [hdialed] at hguard
  have heq : dest.host = host := Option.some.inj (hguard.trans hhost)
  rw [← heq] at hresolve
  constructor
  · exact hdialed
  · exact hguard.symm
  · exact slashless_of_resolve (slashless_of_dialed hdialed) hresolve
  · exact ⟨req.uri.path, raw, hresolve⟩

theorem sound_start (cfg : Config) : Sound cfg State.start where
  dials _ hmem := absurd hmem List.not_mem_nil
  headers _ _ h := nomatch h
  chunks _ _ h := nomatch h
  fetching _ _ h := nomatch h
  reads _ _ h := nomatch h
  served _ hmem := absurd hmem List.not_mem_nil

namespace Sound

variable {cfg : Config} {s s' : State}

section

variable (h : Sound cfg s)

include h

theorem congr (hheaders : s'.headers = s.headers)
    (hchunks : s'.chunks = s.chunks) (hfetching : s'.fetching = s.fetching)
    (hreads : s'.reads = s.reads) (hserved : s'.served = s.served)
    (hdials : s'.dials = s.dials) : Sound cfg s' := by
  constructor
  · rw [hdials]
    exact h.dials
  · rw [hheaders]
    exact h.headers
  · rw [hchunks]
    exact h.chunks
  · rw [hfetching]
    exact h.fetching
  · rw [hreads]
    exact h.reads
  · rw [hserved]
    exact h.served

theorem dial {bucket : String} {range : Option String}
    (hdialed : req.dialed = some host) (hhost : req.header "host" = some host)
    (hof : cfg.domains.HostOf host bucket) :
    Sound cfg (s.dial bucket (req.rebuild range)) := by
  refine { h with dials := ?_ }
  intro dial hmem
  rcases List.mem_cons.mp hmem with hnew | hold
  · rw [hnew]
    exact ⟨host, (host_rebuild req range).trans hhost,
      (dialed_rebuild req range).trans hdialed, hof⟩
  · exact h.dials dial hold

theorem serve {index : Nat} {body : Bytes} {source : String}
    (hread : ReadOk cfg read)
    (hsource : Named cfg (read.place index).1 source) :
    Sound cfg (s.serve read index body source) := by
  refine { h with served := ?_ }
  intro served hmem
  rcases List.mem_cons.mp hmem with hnew | hold
  · rw [hnew]
    exact ⟨hread.hostOf, hsource.hostOf hread.slashless⟩
  · exact h.served served hold

theorem setHeader {header : Option (Sourced ObjectHeader)}
    (hheader : forall x, header = some x -> Named cfg key x.host) :
    Sound cfg { s with headers := update s.headers key header } :=
  { h with headers := forall_update h.headers hheader }

theorem setChunk {chunk : Option (Sourced CachedChunk)}
    (hchunk : forall x, chunk = some x -> Named cfg place.1 x.host) :
    Sound cfg { s with chunks := update s.chunks place chunk } :=
  { h with chunks := forall_update h.chunks hchunk }

theorem setFetching {body : Option (Sourced Bytes)}
    (hbody : forall x, body = some x -> Named cfg place.1 x.host) :
    Sound cfg { s with fetching := update s.fetching place body } :=
  { h with fetching := forall_update h.fetching hbody }

theorem rememberHeader {header : Sourced ObjectHeader} {keeps : Bool}
    (hheader : Named cfg key header.host) :
    Sound cfg (s.rememberHeader key header keeps) := by
  unfold State.rememberHeader
  split
  · apply h.setHeader
    intro x hx
    cases hx
    exact hheader
  · exact h

theorem startRead {g : Nat} (hread : ReadOk cfg read) :
    Sound cfg (s.startRead g read) := by
  refine { h with reads := forall_update h.reads ?_ }
  intro x hx
  cases hx
  exact hread

theorem publish {body : Sourced Bytes} {publishes : Bool}
    (hbody : Named cfg place.1 body.host) :
    Sound cfg (s.publish place body publishes) := by
  unfold State.publish
  split
  · apply h.setFetching
    intro x hx
    cases hx
    exact hbody
  · exact h

theorem putChunk {chunk : Sourced CachedChunk} {fills : Bool}
    (hchunk : Named cfg place.1 chunk.host) :
    Sound cfg (s.putChunk place chunk fills) := by
  unfold State.putChunk
  split
  · apply h.setChunk
    intro x hx
    cases hx
    exact hchunk
  · exact h

theorem commit {eTag : String} {lost : List Place} {windows : List Window}
    (hwindows : forall window, window ∈ windows ->
      Named cfg window.place.1 host) :
    Sound cfg (s.commit host eTag lost windows) := by
  induction windows generalizing s with
  | nil => exact h
  | cons window rest ih =>
    have hwindow := hwindows window List.mem_cons_self
    apply ih (h.putChunk hwindow)
    intro other hother
    exact hwindows other (List.mem_cons_of_mem window hother)

theorem taint (id : String) : Sound cfg (s.taint id) := by
  unfold State.taint
  split
  · exact h
  · exact h.congr rfl rfl rfl rfl rfl rfl

theorem settle (id : String) : Sound cfg (s.settle id) :=
  h.congr rfl rfl rfl rfl rfl rfl

end

end Sound

/-!
## Steps and runs
-/

theorem named_of_mem_windowsOf {bucket : String} {windows : List (Nat × Bytes)}
    {window : Window} (hnamed : Named cfg (objectKey bucket key) host)
    (hmem : window ∈ windowsOf bucket key windows) :
    Named cfg window.place.1 host := by
  rcases List.mem_map.mp hmem with ⟨_, _, heq⟩
  rw [← heq]
  exact hnamed

/-- The tee keeps what is cached sound: a PUT's windows are of the object it
addresses, and the windows a Complete makes visible are, by the guard. -/
theorem sound_tee {s : State} {outcome : Outcome} {op : WriteOp}
    (h : Sound cfg s) (hdest : addressed cfg.domains req = some dest)
    (hop : WriteOp.of (req.forWrite cfg.domains) = some op)
    (hnamed : Named cfg (objectKey dest.bucket dest.key) dest.host)
    (hstaged : forall id,
      WriteOp.of (req.forWrite cfg.domains) = some (.complete id) ->
        forall window, window ∈ s.staged id ->
          objectAddress cfg.domains req = some (window.bucket, window.key)) :
    Sound cfg (tee s dest.host outcome op) := by
  have haddress := (addressed_eq hdest).left
  cases op with
  | put bucket key =>
    unfold tee
    dsimp only
    split
    · exact h
    · have hput : objectAddress cfg.domains req = some (bucket, key) :=
        of_eq_put hop
      rw [haddress] at hput
      cases hput
      exact h.commit fun _ => named_of_mem_windowsOf hnamed
  | createUpload bucket key =>
    unfold tee
    dsimp only
    split
    · exact h
    · split
      · exact h.congr rfl rfl rfl rfl rfl rfl
      · exact h
  | uploadPart bucket key id part =>
    unfold tee
    have hteed : forall teed : State, Sound cfg teed ->
        Sound cfg (if outcome.accepted then teed else teed.taint id) := by
      intro teed hteed
      split
      · exact hteed
      · exact hteed.taint id
    apply hteed
    split
    · exact h
    · split
      · exact h.congr rfl rfl rfl rfl rfl rfl
      · exact h
  | complete id =>
    unfold tee
    dsimp only
    split
    · exact h
    · split
      · exact h.settle id
      · split
        · apply (h.settle id).commit
          intro window hwindow
          have hsame := hstaged id hop window hwindow
          have hobject := Prod.mk.inj
            (Option.some.inj (haddress.symm.trans hsame))
          unfold Window.place
          rw [← hobject.left, ← hobject.right]
          exact hnamed
        · exact h.settle id
  | abort id =>
    unfold tee
    dsimp only
    split
    · exact h
    · split
      · exact h.settle id
      · exact h

theorem sound_serveGet {g : Nat} {probe : Option ObjectHeader}
    {admits owns : Bool} (h : Sound cfg s)
    (hguard : req.dialed = req.header "host")
    (hstep : serveGet cfg s g req probe admits owns = some s') :
    Sound cfg s' := by
  unfold serveGet at hstep
  split at hstep
  · rename_i dest _ hdest
    have hok := readOk_of_addressed hdest hguard
    dsimp only at hstep
    split at hstep
    · cases hstep
      have hread := hok ⟨0, none⟩ admits
      exact h.dial hread.dialed hread.host hread.hostOf
    · rename_i header
      cases hstep
      have hread := hok header admits
      apply Sound.startRead _ hread
      apply Sound.rememberHeader _ (hread.named 0)
      exact h.dial hread.dialed hread.host hread.hostOf
  · cases hstep

theorem sound_serveCached (h : Sound cfg s)
    (hstep : serveCached s g index = some s') :
    Sound cfg s' := by
  unfold serveCached at hstep
  split at hstep
  · cases hstep
  rename_i read hread
  split at hstep
  · cases hstep
  rename_i chunk hchunk
  split at hstep
  · cases hstep
    exact h.serve (h.reads g read hread)
      (h.chunks (read.place index) chunk hchunk)
  · cases hstep
    apply h.setChunk
    intro _ hnone
    cases hnone

theorem sound_fetchFromBackend {body : Bytes} {publishes fills : Bool}
    (h : Sound cfg s)
    (hstep : fetchFromBackend cfg s g index body publishes fills = some s') :
    Sound cfg s' := by
  unfold fetchFromBackend at hstep
  split at hstep
  · cases hstep
  rename_i read hread
  split at hstep
  · rename_i start stop host hbounds hdialed
    cases hstep
    have hok := h.reads g read hread
    have hhost : host = read.probed :=
      Option.some.inj (hdialed.symm.trans hok.dialed)
    rw [hhost]
    have hnamed := hok.named index
    apply Sound.serve _ hok hnamed
    apply Sound.putChunk _ hnamed
    apply Sound.publish _ hnamed
    exact h.dial hok.dialed hok.host hok.hostOf
  · cases hstep

theorem sound_serveCoalesced (h : Sound cfg s)
    (hstep : serveCoalesced s g index = some s') :
    Sound cfg s' := by
  unfold serveCoalesced at hstep
  split at hstep
  · cases hstep
  rename_i read hread
  split at hstep
  · cases hstep
  rename_i body hbody
  cases hstep
  exact h.serve (h.reads g read hread)
    (h.fetching (read.place index) body hbody)

theorem sound_forwardWrite {outcome : Outcome} (h : Sound cfg s)
    (hguard : SignedForTarget cfg s (.write req outcome))
    (hstep : forwardWrite cfg s req outcome = some s') : Sound cfg s' := by
  unfold forwardWrite at hstep
  split at hstep
  · rename_i op dest hroute hdest
    cases hstep
    have hok := readOk_of_addressed hdest hguard.left ⟨0, none⟩ false
    have hdialed : Sound cfg (s.dial dest.bucket (req.rebuild none)) :=
      h.dial hok.dialed hok.host hok.hostOf
    exact sound_tee hdialed hdest (of_classify_tee hroute) (hok.named 0)
      hguard.right
  · cases hstep

theorem sound_step {e : Event} (h : Sound cfg s)
    (hguard : SignedForTarget cfg s e) (hstep : step cfg s e = some s') :
    Sound cfg s' := by
  cases e with
  | get g req probe admits owns => exact sound_serveGet h hguard hstep
  | cached g index => exact sound_serveCached h hstep
  | backend g index body publishes fills =>
    exact sound_fetchFromBackend h hstep
  | coalesced g index => exact sound_serveCoalesced h hstep
  | release place =>
    cases hstep
    apply h.setFetching
    intro _ hnone
    cases hnone
  | evict place =>
    cases hstep
    apply h.setChunk
    intro _ hnone
    cases hnone
  | evictHeader key =>
    cases hstep
    apply h.setHeader
    intro _ hnone
    cases hnone
  | write req outcome => exact sound_forwardWrite h hguard hstep

/-- As long as every request goes to the host its `Host` header names, and every
Complete to the object staged under its id, no other host's answer is cached
under a bucket's keys, served from them, or authorizes serving them. -/
theorem cached_from_own_host {cfg : Config} {events : List Event}
    {final : State}
    (hguard : Along (step cfg) (SignedForTarget cfg) State.start events)
    (hrun : run (step cfg) State.start events = some final) :
    Provenance cfg final := by
  have hsound : Sound cfg final :=
    run_preserves (fun _ _ _ hs hg hstep => sound_step hs hg hstep)
      (sound_start cfg) hguard hrun
  exact hsound.provenance

/-!
## A bucket and a host beside it
-/

def twoHosts (host : String) : Option (Option String) :=
  if host = "photos.s3.test" then some (some "photos")
  else if host = "other.test" then some (some "other")
  else none

theorem slashless_twoHosts (host bucket : String)
    (h : twoHosts host = some (some bucket)) : '/' ∉ bucket.toList := by
  unfold twoHosts at h
  split at h
  · cases h
    decide
  · split at h
    · cases h
      decide
    · cases h

def smallConfig : Config where
  domains :=
    { parseHostHeader := twoHosts
      slashless := fun host bucket h _ => slashless_twoHosts host bucket h }
  chunk := ⟨4, Nat.succ_pos _⟩
  teeing := true

def photos : Target := ⟨"https", "photos.s3.test", by decide⟩

def elsewhere : Target := ⟨"http", "other.test", by decide⟩

def getVia (target : Target) : HttpRequest where
  method := .get
  uri := ⟨some target, "/k", none⟩
  headers := [("host", .ofStr "photos.s3.test")]

def putVia (target : Target) : HttpRequest where
  method := .put
  uri := ⟨some target, "/k", none⟩
  headers :=
    [("host", .ofStr "photos.s3.test"), ("content-length", .ofStr "3")]

def confirmed (windows : List (Nat × Bytes)) : Outcome where
  windows := windows
  accepted := true
  eTag := some "v1"
  uploadId := some "u1"
  opens := true
  verified := true
  lost := []

def ownEvents : List Event :=
  [.write (putVia photos) (confirmed [(0, [1, 2, 3])]),
    .get 0 (getVia photos) (some ⟨3, some "v1"⟩) true true, .cached 0 0]

theorem cached_from_own_host_put : exists final,
    run (step smallConfig) State.start ownEvents = some final ∧
      final.served =
        [⟨"photos", "k", 0, [1, 2, 3], "photos.s3.test", "photos.s3.test"⟩] ∧
      Provenance smallConfig final := by
  have hserved :
      (run (step smallConfig) State.start ownEvents).map State.served =
        some [⟨"photos", "k", 0, [1, 2, 3], "photos.s3.test",
          "photos.s3.test"⟩] := by
    decide +kernel
  rcases Option.map_eq_some_iff.mp hserved with ⟨final, hrun, hfinal⟩
  have hput : WriteOp.of ((putVia photos).forWrite smallConfig.domains) =
      some (.put "photos" "k") := by
    decide +kernel
  have hguard : Along (step smallConfig) (SignedForTarget smallConfig)
      State.start ownEvents := by
    constructor
    · constructor
      · rfl
      · intro id hcomplete
        rw [hput] at hcomplete
        cases hcomplete
    · intro _ _
      exact ⟨rfl, fun _ _ => ⟨trivial, fun _ _ => trivial⟩⟩
  exact ⟨final, hrun, hfinal, cached_from_own_host hguard hrun⟩

theorem not_hostOf_other :
    ¬ smallConfig.domains.HostOf "other.test" "photos" := by
  rintro ⟨path, key, hresolve⟩
  have hbucket : some ("other", path.toList.dropWhile (· = '/')) =
      some ("photos", key) := hresolve
  exact absurd (Prod.mk.inj (Option.some.inj hbucket)).left (by decide)

/-- One caller sends a GET for `photos/k` to another host, which gives the
object's own ETag to what it answers.  The next caller, whose request reaches
S3, is served that. -/
theorem other_host_poisons_cache : exists final,
    run (step smallConfig) State.start
        [.get 0 (getVia elsewhere) (some ⟨3, some "v1"⟩) true true,
          .backend 0 0 [6, 6, 6] false true,
          .get 1 (getVia photos) (some ⟨3, some "v1"⟩) true true,
          .cached 1 0] = some final ∧
      final.served.head? =
        some ⟨"photos", "k", 0, [6, 6, 6], "photos.s3.test", "other.test"⟩ ∧
      ¬ Provenance smallConfig final := by
  have hserved :
      (run (step smallConfig) State.start
        [.get 0 (getVia elsewhere) (some ⟨3, some "v1"⟩) true true,
          .backend 0 0 [6, 6, 6] false true,
          .get 1 (getVia photos) (some ⟨3, some "v1"⟩) true true,
          .cached 1 0]).map State.served =
        some [⟨"photos", "k", 0, [6, 6, 6], "photos.s3.test", "other.test"⟩,
          ⟨"photos", "k", 0, [6, 6, 6], "other.test", "other.test"⟩] := by
    decide +kernel
  rcases Option.map_eq_some_iff.mp hserved with ⟨final, hrun, hfinal⟩
  refine ⟨final, hrun, by rw [hfinal]; rfl, ?_⟩
  intro hprovenance
  have hmem : ⟨"photos", "k", 0, [6, 6, 6], "photos.s3.test", "other.test"⟩ ∈
      final.served := by
    rw [hfinal]
    exact List.mem_cons_self
  exact not_hostOf_other (hprovenance.served _ hmem).right

def uploadVia (target : Target) (method : HttpMethod) (query : String) :
    HttpRequest where
  method := method
  uri := ⟨some target, "/k", some query⟩
  headers := [("host", .ofStr target.host), ("content-length", .ofStr "4")]

/-- Requests that all go where they say do not suffice: an upload of `photos/k`
is ended by a Complete for its id at another host, whose answer then stands for
the object. -/
theorem foreign_complete_commits : exists final chunk,
    run (step smallConfig) State.start
        [.write (uploadVia photos .post "uploads") (confirmed []),
          .write (uploadVia photos .put "partNumber=1&uploadId=u1")
            (confirmed [(0, [6, 6, 6, 6])]),
          .write (uploadVia elsewhere .post "uploadId=u1") (confirmed [])] =
        some final ∧
      final.chunks (objectKey "photos" "k", 0) = some chunk ∧
      chunk.host = "other.test" ∧ ¬ Provenance smallConfig final := by
  have hhost :
      (run (step smallConfig) State.start
        [.write (uploadVia photos .post "uploads") (confirmed []),
          .write (uploadVia photos .put "partNumber=1&uploadId=u1")
            (confirmed [(0, [6, 6, 6, 6])]),
          .write (uploadVia elsewhere .post "uploadId=u1") (confirmed [])]).bind
        (fun final => (final.chunks (objectKey "photos" "k", 0)).map
          Sourced.host) = some "other.test" := by
    decide +kernel
  rcases Option.bind_eq_some_iff.mp hhost with ⟨final, hrun, hfinal⟩
  rcases Option.map_eq_some_iff.mp hfinal with ⟨chunk, hchunk, hother⟩
  refine ⟨final, chunk, hrun, hchunk, hother, ?_⟩
  intro hprovenance
  have hof := hprovenance.chunks "photos" "k" 0 chunk (by decide) hchunk
  rw [hother] at hof
  exact not_hostOf_other hof

end RequesterFront

end Daemon
end Pacer
