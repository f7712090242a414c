import Mathlib.Data.List.Infix
import Pacer.Daemon.WriteRequest
import Pacer.Foundation.Text

/-!
# The front door for signed requests

A node that lets callers authorize their own requests is a forward proxy: a
request arrives in absolute form, carrying its caller's signature, and is
refused, forwarded as it is, teed on its way as a write, or held, to be sent
again with other ranges on behalf of a cached read.

A request says twice where it goes.  Its target names the host it is sent to,
and its `Host` header is what the bucket is resolved from.  The two are parts of
one request here as they are on the wire, and nothing relates them.
-/

namespace Pacer
namespace Daemon

open Foundation
open Foundation.Text

namespace RequesterFront

inductive HttpMethod where
  | get
  | put
  | post
  | delete
  | connect
  | other
deriving DecidableEq, Repr

def HttpMethod.forWrite : HttpMethod -> Method
  | .put => .put
  | .post => .post
  | .delete => .delete
  | _ => .other

/-- The scheme and host of a target in absolute form.  User information in front
of the host is not dialed and is left out; a host that parsed as part of a
target ends at the first slash. -/
structure Target where
  scheme : String
  host : String
  slashless : '/' ∉ host.toList

structure Uri where
  target : Option Target
  path : String
  query : Option String

structure HeaderValue where
  bytes : List UInt8
deriving DecidableEq, Repr

namespace HeaderValue

def isVisible (b : UInt8) : Bool := decide (32 ≤ b ∧ b < 127 ∨ b = 9)

def chars (value : HeaderValue) : List Char :=
  value.bytes.map fun b => Char.ofNat b.toNat

/-- The value as text, which it is not when a byte is not visible ASCII. -/
def toStr (value : HeaderValue) : Option String :=
  if value.bytes.all isVisible then some (String.ofList value.chars) else none

def ofStr (text : String) : HeaderValue :=
  ⟨text.toList.map fun c => UInt8.ofNat c.toNat⟩

end HeaderValue

/-- A request, its header names in lower case. -/
structure HttpRequest where
  method : HttpMethod
  uri : Uri
  headers : List (String × HeaderValue)

namespace HttpRequest

def value (req : HttpRequest) (name : String) : Option HeaderValue :=
  req.headers.lookup name

def header (req : HttpRequest) (name : String) : Option String :=
  (req.value name).bind HeaderValue.toStr

end HttpRequest

def HttpRequest.dialed (req : HttpRequest) : Option String :=
  req.uri.target.map Target.host

/-- The domains virtual hosts are resolved against.  A `Host` header is refused,
or names no bucket, or names a bucket, which is then a part of it. -/
structure Domains where
  parseHostHeader : String -> Option (Option String)
  slashless : forall host bucket,
    parseHostHeader host = some (some bucket) ->
      '/' ∉ host.toList -> '/' ∉ bucket.toList

/-!
## Addresses and queries
-/

def decodeBytes : List UInt8 -> Option (List UInt8)
  | [] => some []
  | b :: rest =>
    if b = 37 then
      match rest with
      | hi :: lo :: rest =>
        -- A pair that is not ASCII is no number, whether or not it is
        -- UTF-8.
        if hi < 128 ∧ lo < 128 then
          match Radix.parseUnsigned 16 256
              [Char.ofNat hi.toNat, Char.ofNat lo.toNat],
            decodeBytes rest with
          | some n, some out => some (UInt8.ofNat n :: out)
          | _, _ => none
        else none
      | _ => none
    else (decodeBytes rest).map (b :: ·)

/-- Percent-decode a text; `none` when an escape is malformed or the result is
not UTF-8. -/
def percentDecode (text : String) : Option String :=
  match decodeBytes text.toUTF8.toList with
  | none => none
  | some bytes => String.fromUTF8? ⟨bytes.toArray⟩

/-- The bucket a host and a path name, and the rest of the path: the bucket is
the virtual host's, or the first segment. -/
def resolve (domains : Domains) (host path : String) :
    Option (String × List Char) :=
  match domains.parseHostHeader host with
  | none => none
  | some (some bucket) => some (bucket, path.toList.dropWhile (· = '/'))
  | some none =>
    (splitOnce '/' (path.toList.dropWhile (· = '/'))).map fun parts =>
      (String.ofList parts.1, parts.2)

def objectAddress (domains : Domains) (req : HttpRequest) :
    Option (String × String) :=
  match req.header "host" with
  | none => none
  | some host =>
    match resolve domains host req.uri.path with
    | none => none
    | some (bucket, key) =>
      if key = [] then none
      else (percentDecode (String.ofList key)).map fun key => (bucket, key)

def parameters (query : String) : List (String × Option String) :=
  if query = "" then []
  else (query.toList.splitOn '&').map fun kv =>
    (String.ofList (kv.takeWhile (· ≠ '=')),
      (splitOnce '=' kv).bind fun parts =>
        percentDecode (String.ofList parts.2))

def HttpRequest.parameters (req : HttpRequest) :
    List (String × Option String) :=
  RequesterFront.parameters (req.uri.query.getD "")

def HttpRequest.forWrite (domains : Domains) (req : HttpRequest) : Request :=
  { method := req.method.forWrite
    address := objectAddress domains req
    query := req.parameters
    copySource := (req.value "x-amz-copy-source").isSome
    headers :=
      { contentLength := req.header "content-length"
        decodedContentLength := req.header "x-amz-decoded-content-length"
        contentEncoding := req.header "content-encoding"
        contentSha256 := req.header "x-amz-content-sha256" } }

/-!
## Classification
-/

def signedRange (req : HttpRequest) : Bool :=
  match req.header "authorization" with
  | none => false
  | some auth =>
    match splitPattern "SignedHeaders=".toList auth.toList with
    | none => false
    | some (_, rest) =>
      ((rest.takeWhile (· ≠ ',')).splitOn ';').any fun name =>
        name.map Char.toLower == "range".toList

def isObjectGetShape (domains : Domains) (req : HttpRequest) : Bool :=
  let hasKey :=
    match req.header "host" with
    | none => false
    | some host => (resolve domains host req.uri.path).any (·.2 != [])
  decide (req.method = .get) && hasKey &&
    !queryHas req.parameters "partNumber" &&
    !queryHas req.parameters "versionId" &&
    (req.value "if-none-match").isNone &&
    (req.value "if-modified-since").isNone &&
    (req.value "if-unmodified-since").isNone &&
    (req.value "x-amz-server-side-encryption-customer-algorithm").isNone

inductive Route where
  | refuseConnect
  | badRequest
  | stripAndHold
  | tee (op : WriteOp)
  | forward
deriving DecidableEq, Repr

def classify (domains : Domains) (teeing : Bool) (req : HttpRequest) : Route :=
  if req.method = .connect then .refuseConnect
  else if req.uri.target.isNone then .badRequest
  else if isObjectGetShape domains req && !signedRange req then .stripAndHold
  else if teeing then
    match WriteOp.of (req.forWrite domains) with
    | some op => .tee op
    | none => .forward
  else .forward

/-!
## Requests sent on
-/

def hopByHopHeaders : List String :=
  ["connection", "keep-alive", "proxy-connection", "proxy-authenticate",
    "proxy-authorization", "te", "trailer", "transfer-encoding", "upgrade"]

def isHopByHop (name : String) : Bool := hopByHopHeaders.contains name

def keeps (range : Option String) (header : String × HeaderValue) : Bool :=
  !(range.isSome && header.1 == "range") && !isHopByHop header.1

/-- The request as it is sent on: without the headers of the caller's own hop,
and with the range replaced when one is given. -/
def HttpRequest.rebuild (req : HttpRequest) (range : Option String) :
    HttpRequest :=
  let kept := req.headers.filter (keeps range)
  { req with
    headers :=
      match range with
      | none => kept
      | some range => kept ++ [("range", .ofStr range)] }

theorem dialed_rebuild (req : HttpRequest) (range : Option String) :
    (req.rebuild range).dialed = req.dialed := rfl

theorem lookup_filter_of_kept {p : String × HeaderValue -> Bool}
    {name : String} (h : forall value, p (name, value) = true)
    (headers : List (String × HeaderValue)) :
    (headers.filter p).lookup name = headers.lookup name := by
  induction headers with
  | nil => rfl
  | cons header rest ih =>
    rcases header with ⟨other, value⟩
    by_cases hname : name = other
    · rw [← hname, List.filter_cons_of_pos (h value),
        List.lookup_cons_self, List.lookup_cons_self]
    · have hne : (name == other) = false := beq_false_of_ne hname
      rw [List.lookup_cons, hne, ← ih]
      by_cases hkept : p (other, value) = true
      · rw [List.filter_cons_of_pos hkept, List.lookup_cons, hne]
      · rw [List.filter_cons_of_neg hkept]

theorem host_rebuild (req : HttpRequest) (range : Option String) :
    (req.rebuild range).header "host" = req.header "host" := by
  have hkept : forall value, keeps range ("host", value) = true := by
    intro value
    have hrange : ("host" == "range") = false := by decide
    have hhop : isHopByHop "host" = false := by decide
    unfold keeps
    rw [hrange, hhop, Bool.and_false]
    rfl
  have hlookup := lookup_filter_of_kept hkept req.headers
  unfold HttpRequest.header
  apply congrArg (Option.bind · HeaderValue.toStr)
  unfold HttpRequest.value HttpRequest.rebuild
  cases range with
  | none => exact hlookup
  | some range =>
    dsimp only
    rw [List.lookup_append, hlookup]
    cases req.headers.lookup "host" with
    | none => rfl
    | some host => rfl

/-!
## Hosts and the buckets they name
-/

def Domains.HostOf (domains : Domains) (host bucket : String) : Prop :=
  exists path key, resolve domains host path = some (bucket, key)

variable {domains : Domains}

theorem slashless_of_resolve {host path bucket : String} {key : List Char}
    (hhost : '/' ∉ host.toList)
    (h : resolve domains host path = some (bucket, key)) :
    '/' ∉ bucket.toList := by
  unfold resolve at h
  split at h
  · cases h
  · rename_i found hparse
    cases h
    exact domains.slashless host bucket hparse hhost
  · rcases Option.map_eq_some_iff.mp h with ⟨parts, hparts, heq⟩
    cases heq
    rw [String.toList_ofList]
    exact notMem_of_splitOnce hparts

theorem resolve_of_objectAddress {req : HttpRequest} {bucket key : String}
    (h : objectAddress domains req = some (bucket, key)) :
    exists host raw, req.header "host" = some host ∧
      resolve domains host req.uri.path = some (bucket, raw) := by
  unfold objectAddress at h
  split at h
  · cases h
  rename_i host hhost
  split at h
  · cases h
  rename_i found raw hresolve
  split at h
  · cases h
  rcases Option.map_eq_some_iff.mp h with ⟨decoded, _, heq⟩
  cases heq
  exact ⟨host, raw, hhost, hresolve⟩

theorem of_classify_tee {teeing : Bool} {req : HttpRequest} {op : WriteOp}
    (h : classify domains teeing req = .tee op) :
    WriteOp.of (req.forWrite domains) = some op := by
  unfold classify at h
  split at h
  · cases h
  split at h
  · cases h
  split at h
  · cases h
  split at h
  · split at h
    · rename_i found hop
      cases h
      exact hop
    · cases h
  · cases h

end RequesterFront

end Daemon
end Pacer
