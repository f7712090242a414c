import Mathlib.Data.List.Infix
import Pacer.Foundation.Radix

/-!
# Write requests

The write operations a node acts on when it forwards a requester's writes, and
how a request's headers announce its body.  What is classified as none of them
is forwarded as it is, and nothing looks at it.
-/

namespace Pacer
namespace Daemon

open Foundation

inductive Method where
  | put
  | post
  | delete
  | other
deriving DecidableEq, Repr

structure Headers where
  contentLength : Option String
  decodedContentLength : Option String
  contentEncoding : Option String
  contentSha256 : Option String
deriving DecidableEq, Repr

/-- A request.  `address` is the object it names; a query is its parameters in
order, each with its decoded value, if it has one. -/
structure Request where
  method : Method
  address : Option (String × String)
  query : List (String × Option String)
  copySource : Bool
  headers : Headers
deriving DecidableEq, Repr

def queryValue (query : List (String × Option String)) (key : String) :
    Option String :=
  query.findSome? fun kv => if kv.1 = key then kv.2 else none

def queryHas (query : List (String × Option String)) (key : String) : Bool :=
  query.any fun kv => kv.1 == key

inductive WriteOp where
  | put (bucket key : String)
  | createUpload (bucket key : String)
  | uploadPart (bucket key uploadId : String) (part : Int)
  | complete (uploadId : String)
  | abort (uploadId : String)
deriving DecidableEq, Repr

def partNumber (query : List (String × Option String)) : Option Int :=
  (queryValue query "partNumber").bind fun text =>
    Radix.parseSigned (2 ^ 31) text.toList

def WriteOp.of (req : Request) : Option WriteOp :=
  match req.address with
  | none => none
  | some (bucket, key) =>
    match req.method, queryValue req.query "uploadId" with
    | .put, none =>
      if req.query = [] ∧ req.copySource = false then some (.put bucket key)
      else none
    | .put, some uploadId =>
      if req.copySource then none
      else (partNumber req.query).map fun part =>
        .uploadPart bucket key uploadId part
    | .post, none =>
      if queryHas req.query "uploads" then some (.createUpload bucket key)
      else none
    | .post, some uploadId => some (.complete uploadId)
    | .delete, some uploadId => some (.abort uploadId)
    | _, _ => none

structure BodyShape where
  len : Nat
  awsChunked : Bool
deriving DecidableEq, Repr

def Headers.isAwsChunked (headers : Headers) : Bool :=
  (headers.contentEncoding.any fun v =>
    decide ("aws-chunked".toList <:+: v.toList)) ||
  (headers.contentSha256.any fun v =>
    decide ("STREAMING-".toList <+: v.toList))

def shape (headers : Headers) : Option BodyShape :=
  let len :=
    if headers.isAwsChunked then headers.decodedContentLength
    else headers.contentLength
  match len.bind fun v =>
      Radix.parseUnsigned 10 (2 ^ 64) (Radix.trim v.toList) with
  | none => none
  | some len => some { len := len, awsChunked := headers.isAwsChunked }

theorem awsChunked_of_shape {headers : Headers} {announced : BodyShape}
    (h : shape headers = some announced) :
    announced.awsChunked = headers.isAwsChunked := by
  unfold shape at h
  dsimp only at h
  split at h
  · cases h
  · cases h
    rfl

theorem of_eq_put {req : Request} {bucket key : String}
    (h : WriteOp.of req = some (.put bucket key)) :
    req.address = some (bucket, key) := by
  unfold WriteOp.of at h
  split at h
  · cases h
  rename_i foundBucket foundKey haddress
  split at h
  · split at h
    · cases h
      exact haddress
    · cases h
  · split at h
    · cases h
    rcases Option.map_eq_some_iff.mp h with ⟨part, _, heq⟩
    cases heq
  · split at h
    · cases h
    · cases h
  · cases h
  · cases h
  · cases h

theorem of_eq_uploadPart {req : Request} {bucket key uploadId : String}
    {part : Int} (h : WriteOp.of req = some (.uploadPart bucket key uploadId part)) :
    req.method = .put ∧ req.address = some (bucket, key) ∧
      queryValue req.query "uploadId" = some uploadId ∧
      req.copySource = false ∧ partNumber req.query = some part := by
  unfold WriteOp.of at h
  split at h
  · cases h
  rename_i foundBucket foundKey haddress
  split at h
  · split at h
    · cases h
    · cases h
  · rename_i found hmethod hupload
    split at h
    · cases h
    rename_i hcopy
    rcases Option.map_eq_some_iff.mp h with ⟨number, hnumber, heq⟩
    cases heq
    exact ⟨hmethod, haddress, hupload, Bool.eq_false_iff.mpr hcopy, hnumber⟩
  · split at h
    · cases h
    · cases h
  · cases h
  · cases h
  · cases h

end Daemon
end Pacer
