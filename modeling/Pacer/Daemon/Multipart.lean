import Mathlib.Logic.Function.Basic
import Pacer.Daemon.ObjectVersion
import Pacer.Daemon.PartPlacer
import Pacer.Daemon.PartTee
import Pacer.Daemon.StagingCluster
import Pacer.Foundation.Text

/-!
# The tee of a multipart upload

One multipart upload goes through one node, in requests that may overlap in any
way: parts with any framing, repeated parts, parts copied inside S3, Complete and
Abort.  The node forwards all of them.  It tees the parts it sees, under the
placer's hypothesis, and commits what they staged when S3 says the object exists
and the hypothesis is verified.

S3 keeps the last content it accepted for each part number; the completed object
is the content of the parts that it reads in the body of Complete, in order.  The
node reads that body on its own, as text between tags.
-/

namespace Pacer
namespace Daemon

open Foundation
open Foundation.Text
open Cache
open TeeCluster (Message Made)

namespace Multipart

structure Config where
  bucket : String
  key : String
  uploadId : String
  chunk : ChunkConfig
  node : Nat
  homes : Nat -> List Nat
  budgetBytes : Nat
  ttl : Nat

def mpuId (uploadId : String) : String := s!"mpu:{uploadId}"

def Config.id (cfg : Config) : String := mpuId cfg.uploadId

structure Record where
  placer : PartPlacer
  homes : List Nat
  tainted : Bool

/-- A request that writes a part, on its way through the node.  `seen` is whether
the placer observed it, `first` the chunk its tee was started at; `sent` has been
forwarded so far, and `payload` are the object's bytes the tee took from it. -/
structure PartRequest where
  request : Request
  seen : Bool
  first : Option Nat
  tee : Option PartTee
  outbox : List (Nat × Bytes)
  sent : Bytes
  payload : Bytes
  ended : Bool

inductive Phase where
  | waiting
  | succeeded (eTag : String)
  | verified (eTag : String)
  | failed
  | committing (eTag : String) (homes : List Nat)
  | notifying (eTag : String) (homes : List Nat)
  | discarding (homes : List Nat)
  | withdrawing (homes : List Nat)
  | finished
deriving DecidableEq, Repr

/-- A Complete or an Abort.  `list` are the parts the node finds in its body, and
`read` those S3 reads there; `asked` is whether S3 has still to handle it. -/
structure Settler where
  list : List Int
  read : List Int
  asked : Bool
  phase : Phase
deriving DecidableEq, Repr

structure Part where
  request : Nat
  content : Bytes
deriving DecidableEq, Repr

structure Completed where
  list : List Int
  eTag : String
  content : Bytes
deriving DecidableEq, Repr

inductive Taken where
  | copied (content : Bytes)
  | plain
  | framed (encoding : AwsChunked.Encoding)
deriving DecidableEq, Repr

structure State where
  cluster : StagingCluster
  opened : Bool
  record : Option Record
  requests : Nat -> Option PartRequest
  settlers : Nat -> Option Settler
  uploadOpen : Bool
  parts : Int -> Option Part
  completed : Option Completed

inductive Event where
  | openUpload
  | arrive (r : Nat) (request : Request) (room : Bool)
  | feed (r : Nat) (data : Bytes)
  | dispatch (r m now : Nat) (skipped : Bool)
  | finish (r : Nat) (polled : Bool)
  | fail (r : Nat)
  | drop (r : Nat)
  | accept (r : Nat) (taken : Taken)
  | refuse (r : Nat)
  | complete (q : Nat) (body : String) (read : List Int) (small : Bool)
  | completes (q : Nat) (eTag : String)
  | rejects (q : Nat)
  | misread (q : Nat) (discards : Bool)
  | abort (q : Nat)
  | verify (q : Nat)
  | settle (q : Nat)
  | commitLocal (q : Nat)
  | sendCommit (q m : Nat)
  | discardLocal (q : Nat)
  | sendDiscard (q m : Nat)
  | expire
  | deliver (m now : Nat)
  | lose (m : Nat)
  | reap (node now : Nat)
  | stageOther (node index : Nat) (id : String) (body : Bytes) (now : Nat)
  | settleOther (node : Nat) (id : String)
deriving DecidableEq, Repr

namespace State

def start (cfg : Config) : State :=
  { cluster := StagingCluster.start cfg.budgetBytes cfg.ttl,
    opened := false,
    record := none,
    requests := fun _ => none,
    settlers := fun _ => none,
    uploadOpen := true,
    parts := fun _ => none,
    completed := none }

def setRequest (s : State) (r : Nat) (req : PartRequest) : State :=
  { s with requests := Function.update s.requests r (some req) }

def setSettler (s : State) (q : Nat) (settler : Settler) : State :=
  { s with settlers := Function.update s.settlers q (some settler) }

def setPhase (s : State) (q : Nat) (settler : Settler) (phase : Phase) :
    State :=
  s.setSettler q { settler with phase := phase }

def taint (s : State) : State :=
  { s with record := s.record.map fun record => { record with tainted := true } }

end State

/-!
## Parts
-/

/-- What the placer is shown of a request: the part number, and how the body
announces itself.  A copy is not classified, and a body that does not say how
long it is has no shape. -/
def observation (cfg : Config) (request : Request) : Option (Int × BodyShape) :=
  match WriteOp.of request, shape request.headers with
  | some (.uploadPart bucket key uploadId part), some announced =>
    if bucket = cfg.bucket ∧ key = cfg.key ∧ uploadId = cfg.uploadId then
      some (part, announced)
    else none
  | _, _ => none

def s3Part (cfg : Config) (request : Request) : Option Int :=
  if request.method = .put ∧ request.address = some (cfg.bucket, cfg.key) ∧
      queryValue request.query "uploadId" = some cfg.uploadId then
    partNumber request.query
  else none

/-- A part arrives.  `room` is whether the tee has room for one more body. -/
def arrive (cfg : Config) (s : State) (r : Nat) (request : Request)
    (room : Bool) : Option State :=
  match s.requests r with
  | some _ => none
  | none =>
    let forwarded : PartRequest :=
      { request := request,
        seen := false,
        first := none,
        tee := none,
        outbox := [],
        sent := [],
        payload := [],
        ended := false }
    match observation cfg request, s.record with
    | some (part, announced), some record =>
      match record.placer.observe part announced.len with
      | (chunk, placer) =>
        let first := if room then chunk else none
        some (State.setRequest
          { s with record := some { record with placer := placer } } r
          { forwarded with
            seen := true,
            first := first,
            tee := first.map fun chunk =>
              PartTee.start cfg.chunk chunk announced false })
    | _, _ => some (s.setRequest r forwarded)

def PartRequest.after (req : PartRequest) (fed : PartTee.Fed) : PartRequest :=
  { req with
    tee := some fed.tee,
    outbox := req.outbox ++ fed.windows,
    payload := req.payload ++ fed.gained }

def applyFed (s : State) (r : Nat) (req : PartRequest) (fed : PartTee.Fed) :
    State :=
  let s' := s.setRequest r (req.after fed)
  if fed.taints then s'.taint else s'

def feed (s : State) (r : Nat) (data : Bytes) : Option State :=
  match s.requests r with
  | none => none
  | some req =>
    if req.ended ∨ req.outbox ≠ [] then none
    else
      let sent := { req with sent := req.sent ++ data }
      match req.tee with
      | none => some (s.setRequest r sent)
      | some t => some (applyFed s r sent (t.feed data))

def dispatch (cfg : Config) (s : State) (r m now : Nat) (skipped : Bool) :
    Option State :=
  match s.requests r with
  | none => none
  | some req =>
    match req.outbox with
    | [] => none
    | (index, body) :: rest =>
      let s' := s.setRequest r { req with outbox := rest }
      if skipped then some s'
      else
        match (cfg.homes index).head?.filter (· ≠ cfg.node) with
        | none =>
          some { s' with
            cluster := s.cluster.stage cfg.node index cfg.id body now }
        | some home =>
          match s.record with
          | none => some s'
          | some record =>
            match s.cluster.send m (.store r home index cfg.id body) with
            | none => none
            | some cluster =>
              some { s' with
                cluster := cluster,
                record := some { record with
                  homes := if home ∈ record.homes then record.homes
                    else record.homes ++ [home] } }

/-- The body was forwarded whole.  An empty body is never polled, and the tee
does not see its end. -/
def finish (s : State) (r : Nat) (polled : Bool) : Option State :=
  match s.requests r with
  | none => none
  | some req =>
    if req.ended ∨ req.outbox ≠ [] then none
    else
      let ended := { req with ended := true }
      match req.tee with
      | none => some (s.setRequest r ended)
      | some t =>
        if polled then some (applyFed s r ended t.finish)
        else some (s.setRequest r ended)

def endTee (s : State) (r : Nat) (call : PartTee -> PartTee.Fed) :
    Option State :=
  match s.requests r with
  | none => none
  | some req =>
    match req.tee with
    | none => some s
    | some t => some (applyFed s r req (call t))

/-- What S3 reads as the content of a part: the source of a copy, or the body,
once it is whole. -/
def contentOf (req : PartRequest) (taken : Taken) : Option Bytes :=
  match req.request.copySource, taken with
  | true, .copied content => some content
  | false, .plain =>
    if req.ended ∧ req.request.headers.isAwsChunked = false then some req.sent
    else none
  | false, .framed encoding =>
    if req.ended ∧ req.request.headers.isAwsChunked = true ∧
        encoding.WellFormed ∧ encoding.bytes = req.sent then
      some encoding.payload
    else none
  | _, _ => none

def lengthAgrees (req : PartRequest) (content : Bytes) : Bool :=
  req.request.copySource ||
    (shape req.request.headers).all fun announced =>
      announced.len == content.length

def accept (cfg : Config) (s : State) (r : Nat) (taken : Taken) : Option State :=
  match s.requests r with
  | none => none
  | some req =>
    match s3Part cfg req.request, contentOf req taken with
    | some part, some content =>
      if s.uploadOpen ∧ lengthAgrees req content then
        some { s with
          parts := Function.update s.parts part (some ⟨r, content⟩) }
      else none
    | _, _ => none

def refuse (cfg : Config) (s : State) (r : Nat) : Option State :=
  match s.requests r with
  | none => none
  | some req =>
    match WriteOp.of req.request with
    | some (.uploadPart _ _ uploadId _) =>
      if uploadId = cfg.uploadId then some s.taint else some s
    | _ => some s

/-!
## Complete and Abort
-/

/-- The texts between an opening tag and the next closing one.  Each takes at
least the tags' characters of the text, so its length bounds how many there
are. -/
def xmlValuesFrom (opening closing : List Char) : Nat -> List Char ->
    List (List Char)
  | 0, _ => []
  | fuel + 1, xml =>
    match splitPattern opening xml with
    | none => []
    | some (_, after) =>
      match splitPattern closing after with
      | none => []
      | some (value, tail) =>
        value :: xmlValuesFrom opening closing fuel tail

def xmlValues (xml tag : String) : List (List Char) :=
  xmlValuesFrom s!"<{tag}>".toList s!"</{tag}>".toList xml.toList.length
    xml.toList

def partNumbers (body : String) : List Int :=
  (xmlValues body "PartNumber").filterMap fun value =>
    Radix.parseSigned (2 ^ 31) (Radix.trim value)

/-- Complete is forwarded.  Its body is read only if it is small; else the
upload's windows are discarded. -/
def complete (s : State) (q : Nat) (body : String) (read : List Int)
    (small : Bool) : Option State :=
  match s.settlers q with
  | some _ => none
  | none =>
    some (s.setSettler q
      { list := partNumbers body,
        read := read,
        asked := true,
        phase := if small then .waiting else .failed })

def Settler.hear (settler : Settler) (phase : Phase) : Settler :=
  { settler with
    asked := false,
    phase := if settler.phase = .waiting then phase else settler.phase }

/-- S3 completes the upload: every part it read is there, in order, and the
object is not too long. -/
def completes (s : State) (q : Nat) (eTag : String) : Option State :=
  match s.settlers q with
  | none => none
  | some settler =>
    match settler.read.mapM fun part => (s.parts part).map Part.content with
    | none => none
    | some contents =>
      if settler.asked ∧ s.uploadOpen ∧ settler.read ≠ [] ∧
          settler.read.Pairwise (· < ·) ∧
          contents.flatten.length < 2 ^ 64 then
        some (State.setSettler
          { s with
            uploadOpen := false,
            completed := some
              { list := settler.read,
                eTag := eTag,
                content := contents.flatten } } q
          (settler.hear (.succeeded (trimQuotes eTag))))
      else none

def rejects (s : State) (q : Nat) : Option State :=
  match s.settlers q with
  | none => none
  | some settler =>
    if settler.asked then some (s.setSettler q (settler.hear .failed))
    else none

def misread (s : State) (q : Nat) (discards : Bool) : Option State :=
  match s.settlers q with
  | none => none
  | some settler =>
    match settler.phase with
    | .waiting | .succeeded _ =>
      some (s.setPhase q settler (if discards then .failed else .finished))
    | _ => none

def abort (s : State) (q : Nat) : Option State :=
  match s.settlers q with
  | some _ => none
  | none =>
    if s.uploadOpen then
      some (State.setSettler
        { s with uploadOpen := false, parts := fun _ => none } q
        { list := [], read := [], asked := false, phase := .failed })
    else none

/-- Complete succeeded: the placement is verified, in the first of two sections
under the lock. -/
def verify (s : State) (q : Nat) : Option State :=
  match s.settlers q with
  | none => none
  | some settler =>
    match settler.phase with
    | .succeeded eTag =>
      some (State.setPhase
        { s with
          record := s.record.map fun record =>
            { record with
              tainted :=
                record.tainted || !record.placer.verify settler.list } }
        q settler (.verified eTag))
    | _ => none

def outcome (eTag : Option String) (record : Record) : Phase :=
  match eTag, record.tainted with
  | some eTag, false => .committing eTag record.homes
  | _, _ => .discarding record.homes

def settle (s : State) (q : Nat) : Option State :=
  match s.settlers q with
  | none => none
  | some settler =>
    let eTag? : Option (Option String) :=
      match settler.phase with
      | .verified eTag => some (some eTag)
      | .failed => some none
      | _ => none
    match eTag?, s.record with
    | none, _ => none
    | some _, none => some (s.setPhase q settler .finished)
    | some eTag, some record =>
      some (State.setPhase { s with record := none } q settler
        (outcome eTag record))

def commitLocal (cfg : Config) (s : State) (q : Nat) : Option State :=
  match s.settlers q with
  | none => none
  | some settler =>
    match settler.phase with
    | .committing eTag homes =>
      some (State.setPhase
        { s with cluster := s.cluster.commitAt cfg.node cfg.id eTag } q
        settler (.notifying eTag homes))
    | _ => none

def sendCommit (cfg : Config) (s : State) (q m : Nat) : Option State :=
  match s.settlers q with
  | none => none
  | some settler =>
    match settler.phase with
    | .notifying eTag (home :: homes) =>
      match s.cluster.send m (.commit home cfg.id eTag) with
      | none => none
      | some cluster =>
        some (State.setPhase { s with cluster := cluster } q settler
          (.notifying eTag homes))
    | _ => none

def discardLocal (cfg : Config) (s : State) (q : Nat) : Option State :=
  match s.settlers q with
  | none => none
  | some settler =>
    match settler.phase with
    | .discarding homes =>
      some (State.setPhase
        { s with cluster := s.cluster.discardAt cfg.node cfg.id } q settler
        (.withdrawing homes))
    | _ => none

def sendDiscard (cfg : Config) (s : State) (q m : Nat) : Option State :=
  match s.settlers q with
  | none => none
  | some settler =>
    match settler.phase with
    | .withdrawing (home :: homes) =>
      match s.cluster.send m (.discard home cfg.id) with
      | none => none
      | some cluster =>
        some (State.setPhase { s with cluster := cluster } q settler
          (.withdrawing homes))
    | _ => none

def withCluster (s : State) (cluster : StagingCluster) : State :=
  { s with cluster := cluster }

def openUpload (cfg : Config) (s : State) : Option State :=
  if s.opened then none
  else
    some { s with
      opened := true,
      record := some
        { placer := PartPlacer.new cfg.chunk.chunkSize,
          homes := [],
          tainted := false } }

def step (cfg : Config) (s : State) : Event -> Option State
  | .openUpload => openUpload cfg s
  | .arrive r request room => arrive cfg s r request room
  | .feed r data => feed s r data
  | .dispatch r m now skipped => dispatch cfg s r m now skipped
  | .finish r polled => finish s r polled
  | .fail r => endTee s r PartTee.fail
  | .drop r => endTee s r PartTee.drop
  | .accept r taken => accept cfg s r taken
  | .refuse r => refuse cfg s r
  | .complete q body read small => complete s q body read small
  | .completes q eTag => completes s q eTag
  | .rejects q => rejects s q
  | .misread q discards => misread s q discards
  | .abort q => abort s q
  | .verify q => verify s q
  | .settle q => settle s q
  | .commitLocal q => commitLocal cfg s q
  | .sendCommit q m => sendCommit cfg s q m
  | .discardLocal q => discardLocal cfg s q
  | .sendDiscard q m => sendDiscard cfg s q m
  | .expire => some { s with record := none }
  | .deliver m now => (s.cluster.deliver m now).map (withCluster s)
  | .lose m => (s.cluster.lose m).map (withCluster s)
  | .reap node now => some (withCluster s (s.cluster.reap node now))
  | .stageOther node index id body now =>
    if id = cfg.id then none
    else some (withCluster s (s.cluster.stage node index id body now))
  | .settleOther node id =>
    if id = cfg.id then none
    else some (withCluster s (s.cluster.discardAt node id))

end Multipart

end Daemon
end Pacer
