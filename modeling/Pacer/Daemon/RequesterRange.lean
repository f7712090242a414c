import Mathlib.Data.List.Infix
import Pacer.Daemon.ReadPath
import Pacer.Daemon.RequesterProvenance

/-!
# Signed ranges

A held GET is sent again with other ranges, which breaks the signature of a
caller who signed the range.  The front door is to tell such requests apart and
to forward them as they are.

This module collects everything that is sent to S3 for one request: a forward, a
pass-through, the probe, and the chunk reads with their retries.  The names a
signature covers are read twice: as the front door reads them, out of the text
of the `Authorization` header, and from both places a signature can be, a
header's list or the parameters of a presigned query.

What the inner service makes of a stripped request, and whether it refuses it,
is an answer of the environment here, as what S3 says is.  It has no credentials
to check a signature with, and refuses a query that carries one.
-/

namespace Pacer
namespace Daemon

open Foundation
open Foundation.Text
open Cache
open ReadPath (ReadDecision)

namespace RequesterFront

structure ReadConfig extends Config where
  deliveryEnabled : Bool
  conditionalGetFromCache : Bool
  minObjectSize : Nat
  maxObjectSize : Option Nat

inductive ETagCondition where
  | any
  | eTag (weak : Bool) (value : String)
deriving DecidableEq, Repr

structure ResponseOverrides where
  cacheControl : Option String
  contentDisposition : Option String
  contentEncoding : Option String
  contentLanguage : Option String
  contentType : Option String
  expires : Option String

structure GetInput where
  range : Option HttpRange
  partNumber : Option Int
  ifMatch : Option ETagCondition
  ifNoneMatch : Option String
  ifModifiedSince : Option String
  ifUnmodifiedSince : Option String
  versionId : Option String
  sseCustomerAlgorithm : Option String
  expectedBucketOwner : Option String
  requestPayer : Option String
  overrides : ResponseOverrides

/-- What a request meets: how it is parsed, if it is, the header its probe gives,
if it is allowed, and the chunk reads that go to S3, each retry on its own. -/
structure Answers where
  parsed : Option GetInput
  probe : Option ObjectHeader
  reads : List Nat

/-!
## A held read
-/

/-- Whether a read is served from the cache, and fills it; `none` is a
bypass. -/
def readDecision (cacheControl : Option String) (partNumber : Option Int) :
    Option ReadDecision :=
  if partNumber.isSome then none
  else
    match cacheControl with
    | none => some .cacheAndFill
    | some text =>
      let text := text.toList.map Char.toLower
      if "no-cache".toList <:+: text then none
      else if "no-store".toList <:+: text then some .cacheNoFill
      else some .cacheAndFill

def overridesResponseHeaders (input : GetInput) : Bool :=
  input.overrides.cacheControl.isSome ||
    input.overrides.contentDisposition.isSome ||
    input.overrides.contentEncoding.isSome ||
    input.overrides.contentLanguage.isSome ||
    input.overrides.contentType.isSome || input.overrides.expires.isSome

def cacheableShape (input : GetInput) : Bool :=
  input.ifNoneMatch.isNone && input.ifModifiedSince.isNone &&
    input.ifUnmodifiedSince.isNone && input.versionId.isNone &&
    input.sseCustomerAlgorithm.isNone && input.expectedBucketOwner.isNone &&
    input.requestPayer.isNone && !overridesResponseHeaders input

def ifMatchAllowsCache (ifMatch : Option ETagCondition)
    (headerETag : Option String) : Bool :=
  match ifMatch with
  | none => true
  | some .any => true
  | some (.eTag true _) => false
  | some (.eTag false requested) =>
    headerETag.any fun ours => trimQuotes ours == requested

def requesterMayCache (cfg : ReadConfig) (input : GetInput)
    (header : ObjectHeader) : Bool :=
  (input.ifMatch.isNone || cfg.conditionalGetFromCache) &&
    ifMatchAllowsCache input.ifMatch header.eTag &&
    shouldAdmit (some header.objectLen) cfg.minObjectSize cfg.maxObjectSize

def requestedWarm (req : HttpRequest) : Option Bool :=
  match req.value "x-pacer-warm" with
  | none => some false
  | some value => if value = .ofStr "1" then some true else none

def requestedEndpoints (cfg : ReadConfig) (req : HttpRequest) : Bool :=
  cfg.deliveryEnabled && (req.value "x-pacer-get-endpoints").isSome

def passThroughOrSkip (held : HttpRequest) (warm : Bool) : List HttpRequest :=
  if warm then [] else [held.rebuild none]

def chunkRequest (cfg : ReadConfig) (held : HttpRequest)
    (header : ObjectHeader) (index : Nat) : Option HttpRequest :=
  (cfg.chunk.chunkBounds index header.objectLen).map fun bounds =>
    held.rebuild (some s!"bytes={bounds.1}-{bounds.2 - 1}")

/-- What is sent after the probe: nothing more where it was denied or the range
cannot be satisfied, and else a pass-through or chunk reads. -/
def sentAfterProbe (cfg : ReadConfig) (held : HttpRequest) (input : GetInput)
    (warm : Bool) (answers : Answers) : List HttpRequest :=
  match answers.probe with
  | none => []
  | some header =>
    if requesterMayCache cfg input header then
      match resolveInputRange input.range header.objectLen with
      | none => []
      | some (start, stop) =>
        (answers.reads.filter
          (· ∈ cfg.chunk.coveringChunks start stop)).filterMap
            (chunkRequest cfg held header)
    else passThroughOrSkip held warm

def serveGetRequester (cfg : ReadConfig) (held : HttpRequest)
    (input : GetInput) (answers : Answers) : List HttpRequest :=
  if requestedEndpoints cfg held then []
  else
    match requestedWarm held with
    | none => []
    | some warm =>
      match readDecision (held.header "cache-control") input.partNumber with
      | none => passThroughOrSkip held warm
      | some decision =>
        if cacheableShape input then
          if warm && decision == .cacheNoFill then []
          else
            held.rebuild (some "bytes=0-0") ::
              sentAfterProbe cfg held input warm answers
        else passThroughOrSkip held warm

def sentFor (cfg : ReadConfig) (req : HttpRequest) (answers : Answers) :
    List HttpRequest :=
  match classify cfg.domains cfg.teeing req with
  | .refuseConnect => []
  | .badRequest => []
  | .stripAndHold =>
    match answers.parsed with
    | none => []
    | some input => serveGetRequester cfg req input answers
  | .tee _ => [req.rebuild none]
  | .forward => [req.rebuild none]

/-!
## Signed headers
-/

def namesRange (list : List Char) : Bool :=
  (list.splitOn ';').any fun name =>
    name.map Char.toLower == "range".toList

/-- The lists of signed headers among the parameters of an `Authorization`
header, with the white space around each parameter dropped. -/
def authorizationLists (auth : HeaderValue) : List (List Char) :=
  ((auth.chars.dropWhile (· ≠ ' ')).splitOn ',').filterMap fun parameter =>
    let parameter := Radix.trim parameter
    if "SignedHeaders=".toList <+: parameter then
      some (parameter.drop "SignedHeaders=".length)
    else none

def presigned (req : HttpRequest) : Bool :=
  queryHas req.parameters "X-Amz-Signature"

def presignedLists (req : HttpRequest) : List (List Char) :=
  req.parameters.filterMap fun parameter =>
    if parameter.1 = "X-Amz-SignedHeaders" then
      parameter.2.map String.toList
    else none

def SignsRange (req : HttpRequest) : Prop :=
  (exists auth list, req.value "authorization" = some auth ∧
    list ∈ authorizationLists auth ∧ namesRange list = true) ∨
  (presigned req = true ∧
    exists list, list ∈ presignedLists req ∧ namesRange list = true)

/-- The `Authorization` header is visible ASCII, and in it the list behind the
first `SignedHeaders=`, up to a comma or to the end, has the name, in any case
of letters and with nothing else around it. -/
def ListsRange (req : HttpRequest) : Prop :=
  exists auth front names rest,
    req.value "authorization" = some auth ∧
    auth.bytes.all HeaderValue.isVisible = true ∧
    auth.chars = front ++ "SignedHeaders=".toList ++
      ([';'].intercalate names ++ rest) ∧
    (forall n, n < front.length ->
      ¬ "SignedHeaders=".toList <+: auth.chars.drop n) ∧
    ',' ∉ [';'].intercalate names ∧ rest.head?.all (· = ',') = true ∧
    (forall name, name ∈ names -> ';' ∉ name) ∧
    exists name, name ∈ names ∧ name.map Char.toLower = "range".toList

variable {req : HttpRequest} {cfg : ReadConfig}

theorem takeWhile_list {list rest : List Char} (hcomma : ',' ∉ list)
    (hrest : rest.head?.all (· = ',') = true) :
    (list ++ rest).takeWhile (· ≠ ',') = list := by
  rw [List.takeWhile_append_of_pos]
  · cases rest with
    | nil => simp
    | cons c tail =>
      have hc : c = ',' := by simpa using hrest
      rw [List.takeWhile_cons_of_neg (by simp [hc]), List.append_nil]
  · intro c hc
    apply decide_eq_true
    intro heq
    rw [heq] at hc
    exact hcomma hc

theorem signedRange_iff : signedRange req = true <-> ListsRange req := by
  have hmarker : "SignedHeaders=".toList ≠ [] := by decide
  unfold signedRange HttpRequest.header ListsRange
  constructor
  · intro h
    split at h
    · cases h
    rename_i text htext
    rcases Option.bind_eq_some_iff.mp htext with ⟨auth, hauth, htext⟩
    unfold HeaderValue.toStr at htext
    split at htext
    · rename_i hvisible
      cases htext
      have hsame : (String.ofList auth.chars).toList = auth.chars :=
        String.toList_ofList
      rw [hsame] at h
      split at h
      · cases h
      rename_i front tail htail
      rcases (splitPattern_eq_some_iff hmarker).mp htail with ⟨hchars, hfirst⟩
      rcases List.any_eq_true.mp h with ⟨name, hmem, hname⟩
      refine ⟨auth, front, (tail.takeWhile (· ≠ ',')).splitOn ';',
        tail.dropWhile (· ≠ ','), hauth, hvisible, ?_, hfirst, ?_, ?_, ?_,
        name, hmem, beq_iff_eq.mp hname⟩
      · rw [List.intercalate_splitOn, List.takeWhile_append_dropWhile]
        exact hchars
      · rw [List.intercalate_splitOn]
        intro hcomma
        have hne := List.mem_takeWhile_imp hcomma
        exact absurd rfl (of_decide_eq_true hne)
      · cases hrest : tail.dropWhile (· ≠ ',') with
        | nil => rfl
        | cons c later =>
          have hstop := List.head?_dropWhile_not (· ≠ ',') tail
          rw [hrest] at hstop
          simpa using hstop
      · intro other hother
        exact notMem_of_mem_splitOn hother
    · cases htext
  · rintro ⟨auth, front, names, rest, hauth, hvisible, hchars, hfirst, hcomma,
      hrest, hsemicolon, name, hmem, hname⟩
    have htext : (req.value "authorization").bind HeaderValue.toStr =
        some (String.ofList auth.chars) := by
      rw [hauth]
      exact if_pos hvisible
    have htail := (splitPattern_eq_some_iff hmarker).mpr ⟨hchars, hfirst⟩
    have hsame : (String.ofList auth.chars).toList = auth.chars :=
      String.toList_ofList
    rw [htext]
    dsimp only
    rw [hsame, htail]
    dsimp only
    rw [takeWhile_list hcomma hrest, List.splitOn_intercalate ';' hsemicolon
      (List.ne_nil_of_mem hmem)]
    exact List.any_eq_true.mpr ⟨name, hmem, beq_iff_eq.mpr hname⟩

/-!
## Ranges of what is sent
-/

def HttpRequest.ranges (req : HttpRequest) : List HeaderValue :=
  (req.headers.filter (·.1 == "range")).map Prod.snd

theorem ranges_rebuild_none (req : HttpRequest) :
    (req.rebuild none).ranges = req.ranges := by
  show ((req.headers.filter (keeps none)).filter (·.1 == "range")).map
    Prod.snd = (req.headers.filter (·.1 == "range")).map Prod.snd
  rw [List.filter_filter]
  apply congrArg (List.map Prod.snd)
  apply List.filter_congr
  intro header _
  by_cases hrange : header.1 = "range"
  · have hhop : isHopByHop "range" = false := by decide
    simp [keeps, hrange, hhop]
  · simp [hrange]

theorem ranges_rebuild_some (req : HttpRequest) (range : String) :
    (req.rebuild (some range)).ranges = [.ofStr range] := by
  show ((req.headers.filter (keeps (some range)) ++
    [("range", HeaderValue.ofStr range)]).filter (·.1 == "range")).map
      Prod.snd = [.ofStr range]
  have hnone : (req.headers.filter (keeps (some range))).filter
      (·.1 == "range") = [] := by
    apply List.filter_eq_nil_iff.mpr
    intro header hmem hrange
    have hkept := (List.mem_filter.mp hmem).right
    rw [beq_iff_eq] at hrange
    simp [keeps, hrange] at hkept
  rw [List.filter_append, hnone]
  rfl

variable {held sent : HttpRequest} {input : GetInput} {warm : Bool}
  {answers : Answers}

theorem ranges_of_mem_passThroughOrSkip
    (h : sent ∈ passThroughOrSkip held warm) : sent.ranges = held.ranges := by
  unfold passThroughOrSkip at h
  split at h
  · exact absurd h List.not_mem_nil
  · rw [List.mem_singleton.mp h]
    exact ranges_rebuild_none held

/-- Nothing but its signature keeps a request from being read again with other
ranges. -/
def rereads (cfg : ReadConfig) (req : HttpRequest) : Bool :=
  req.uri.target.isSome && isObjectGetShape cfg.domains req &&
    !requestedEndpoints cfg req &&
      match requestedWarm req, readDecision (req.header "cache-control") none with
      | some warm, some decision => !(warm && decision == .cacheNoFill)
      | _, _ => false

/-- The range is the probe's, and no object of more than a byte is cached. -/
def ReadsOneByte (cfg : ReadConfig) (req : HttpRequest) : Prop :=
  req.ranges = [.ofStr "bytes=0-0"] ∧
    forall len, shouldAdmit (some len) cfg.minObjectSize cfg.maxObjectSize =
      true -> len ≤ 1

theorem classify_eq_stripAndHold_iff {domains : Domains} {teeing : Bool} :
    classify domains teeing req = .stripAndHold <->
      req.uri.target.isSome = true ∧ isObjectGetShape domains req = true ∧
        signedRange req = false := by
  have hconnect : isObjectGetShape domains req = true ->
      req.method ≠ .connect := by
    intro hshape hmethod
    simp [isObjectGetShape, hmethod] at hshape
  unfold classify
  constructor
  · intro h
    split at h
    · cases h
    split at h
    · cases h
    rename_i htarget
    split at h
    · rename_i hheld
      rw [Bool.and_eq_true, Bool.not_eq_true'] at hheld
      exact ⟨Option.isSome_iff_ne_none.mpr (by simpa using htarget), hheld⟩
    · split at h
      · split at h
        · cases h
        · cases h
      · cases h
  · rintro ⟨htarget, hshape, hsigned⟩
    rw [if_neg (hconnect hshape), if_neg (by simp [Option.isSome_iff_ne_none.mp htarget]),
      if_pos (by rw [hshape, hsigned]; rfl)]

theorem ranges_of_mem_sentAfterProbe (hone : ReadsOneByte cfg held)
    (h : sent ∈ sentAfterProbe cfg held input warm answers) :
    sent.ranges = held.ranges := by
  unfold sentAfterProbe at h
  split at h
  · exact absurd h List.not_mem_nil
  rename_i header _
  split at h
  · rename_i hmay
    have hcached := (Bool.and_eq_true_iff.mp hmay).right
    have hshort := hone.right _ hcached
    split at h
    · exact absurd h List.not_mem_nil
    rcases List.mem_filterMap.mp h with ⟨index, _, hindex⟩
    rcases Option.map_eq_some_iff.mp hindex with ⟨bounds, hbounds, rfl⟩
    have hlen : header.objectLen = 1 := by
      simp [shouldAdmit] at hcached
      lia
    have hfirst : bounds = (0, 1) := by
      have hpos := cfg.chunk.positive
      simp [ChunkConfig.chunkBounds, hlen] at hbounds
      rw [← hbounds.right]
      simp [hbounds.left]
      lia
    rw [ranges_rebuild_some, hone.left, hfirst]
    rfl
  · exact ranges_of_mem_passThroughOrSkip h

theorem ranges_of_mem_serveGetRequester
    (htarget : held.uri.target.isSome = true)
    (hshape : isObjectGetShape cfg.domains held = true)
    (hplain : rereads cfg held = false ∨ ReadsOneByte cfg held)
    (h : sent ∈ serveGetRequester cfg held input answers) :
    sent.ranges = held.ranges := by
  unfold serveGetRequester at h
  split at h
  · exact absurd h List.not_mem_nil
  rename_i hendpoints
  split at h
  · exact absurd h List.not_mem_nil
  rename_i warm hwarm
  split at h
  · exact ranges_of_mem_passThroughOrSkip h
  · rename_i decision hdecision
    split at h
    · split at h
      · exact absurd h List.not_mem_nil
      rename_i hprobe
      rcases hplain with hrereads | hone
      swap
      · rcases List.mem_cons.mp h with rfl | hafter
        · rw [ranges_rebuild_some, hone.left]
        · exact ranges_of_mem_sentAfterProbe hone hafter
      -- A read of one part is bypassed, so the decision is the one the
      -- headers alone lead to.
      have hpart : input.partNumber = none := by
        cases hpart : input.partNumber with
        | none => rfl
        | some part =>
          rw [hpart] at hdecision
          cases hdecision
      rw [hpart] at hdecision
      have hyes : rereads cfg held = true := by
        simp [rereads, htarget, hshape, hendpoints, hwarm, hdecision, hprobe]
      rw [hyes] at hrereads
      cases hrereads
    · exact ranges_of_mem_passThroughOrSkip h

/-- The inner service refuses a presigned request. -/
def Answers.OfAnonymous (req : HttpRequest) (answers : Answers) : Prop :=
  presigned req = true -> answers.parsed = none

def KeepsRange (cfg : ReadConfig) (req : HttpRequest) : Prop :=
  forall answers sent, answers.OfAnonymous req ->
    sent ∈ sentFor cfg req answers -> sent.ranges = req.ranges

theorem keepsRange_of_plain (h : ListsRange req ∨ presigned req = true ∨
    rereads cfg req = false ∨ ReadsOneByte cfg req) : KeepsRange cfg req := by
  intro answers sent hanswers hsent
  unfold sentFor at hsent
  split at hsent
  · exact absurd hsent List.not_mem_nil
  · exact absurd hsent List.not_mem_nil
  · rename_i hheld
    rcases classify_eq_stripAndHold_iff.mp hheld with
      ⟨htarget, hshape, hunsigned⟩
    split at hsent
    · exact absurd hsent List.not_mem_nil
    rename_i input hparsed
    rcases h with hlists | hpresigned | hplain
    · rw [signedRange_iff.mpr hlists] at hunsigned
      cases hunsigned
    · rw [hanswers hpresigned] at hparsed
      cases hparsed
    · exact ranges_of_mem_serveGetRequester htarget hshape hplain hsent
  · rw [List.mem_singleton.mp hsent]
    exact ranges_rebuild_none req
  · rw [List.mem_singleton.mp hsent]
    exact ranges_rebuild_none req

def plainInput : GetInput where
  range := none
  partNumber := none
  ifMatch := none
  ifNoneMatch := none
  ifModifiedSince := none
  ifUnmodifiedSince := none
  versionId := none
  sseCustomerAlgorithm := none
  expectedBucketOwner := none
  requestPayer := none
  overrides := ⟨none, none, none, none, none, none⟩

theorem sentFor_of_rereads (hlists : ¬ ListsRange req)
    (hrereads : rereads cfg req = true) :
    exists warm, forall answers, answers.parsed = some plainInput ->
      sentFor cfg req answers = req.rebuild (some "bytes=0-0") ::
        sentAfterProbe cfg req plainInput warm answers := by
  have hunsigned : signedRange req = false := by
    rw [← Bool.not_eq_true, signedRange_iff]
    exact hlists
  unfold rereads at hrereads
  rw [Bool.and_eq_true, Bool.and_eq_true, Bool.and_eq_true] at hrereads
  rcases hrereads with ⟨⟨⟨htarget, hshape⟩, hendpoints⟩, hrest⟩
  have hheld : classify cfg.domains cfg.teeing req = .stripAndHold :=
    classify_eq_stripAndHold_iff.mpr ⟨htarget, hshape, hunsigned⟩
  rw [Bool.not_eq_true'] at hendpoints
  have hcacheable : cacheableShape plainInput = true := rfl
  split at hrest
  · rename_i warm decision hwarm hdecision
    rw [Bool.not_eq_true'] at hrest
    have hpart : readDecision (req.header "cache-control")
        plainInput.partNumber = some decision := hdecision
    refine ⟨warm, ?_⟩
    intro answers hparsed
    simp [sentFor, hheld, hparsed, serveGetRequester, hendpoints, hwarm, hpart,
      hcacheable, hrest]
  · cases hrest

theorem ofStr_range_ne (start : Nat) {last : Nat} (h : 0 < last) :
    HeaderValue.ofStr s!"bytes={start}-{last}" ≠ .ofStr "bytes=0-0" := by
  intro heq
  have hbytes := congrArg HeaderValue.bytes heq
  simp [HeaderValue.ofStr, toString] at hbytes
  have hlength := congrArg List.length hbytes
  have hfirst := Nat.length_toDigits_pos (b := 10) (n := start)
  have hlast := congrArg List.getLast? hbytes
  simp at hlength hlast
  have hdigit : last < 10 := by
    rw [← Nat.pow_one 10, ← Nat.length_toDigits_le_iff (by decide) (by decide)]
    lia
  rw [Nat.toDigits_of_lt_base hdigit] at hlast
  revert h hlast
  clear * - hdigit
  decide +revert

/-- The last chunk of an object of more than a byte is not its first byte. -/
theorem chunk_mem_sentAfterProbe {len : Nat} (hlen : 1 < len)
    (hcached : shouldAdmit (some len) cfg.minObjectSize cfg.maxObjectSize =
      true) :
    exists start index : Nat, held.rebuild (some s!"bytes={start}-{len - 1}") ∈
      sentAfterProbe cfg held plainInput warm
        ⟨some plainInput, some ⟨len, none⟩, [index]⟩ := by
  have hnone : ¬ len ≤ 0 := by lia
  have hlo := Nat.div_mul_le_self (len - 1) cfg.chunk.chunkSize
  have hhi := Nat.lt_div_mul_add cfg.chunk.positive (a := len - 1)
  have hbounds : cfg.chunk.chunkBounds ((len - 1) / cfg.chunk.chunkSize) len =
      some ((len - 1) / cfg.chunk.chunkSize * cfg.chunk.chunkSize, len) := by
    unfold ChunkConfig.chunkBounds
    rw [if_neg (by lia), Nat.min_eq_right (by lia)]
  refine ⟨(len - 1) / cfg.chunk.chunkSize * cfg.chunk.chunkSize,
    (len - 1) / cfg.chunk.chunkSize, ?_⟩
  simp [sentAfterProbe, requesterMayCache, plainInput, ifMatchAllowsCache,
    hcached, resolveInputRange, ChunkConfig.coveringChunks,
    ChunkConfig.covering, hnone, chunkRequest, hbounds]

/-- A signed range is sent as it came where the front door can read the
signature, or the request is presigned or not one to read again, or is read
again with the range it has.  In every other case it is replaced. -/
theorem signed_range_kept_iff (cfg : ReadConfig) (req : HttpRequest) :
    SignsRange req ->
      (KeepsRange cfg req <-> ListsRange req ∨ presigned req = true ∨
        rereads cfg req = false ∨ ReadsOneByte cfg req) := by
  intro _
  refine ⟨?_, keepsRange_of_plain⟩
  intro hkeeps
  by_contra hnone
  rw [not_or, not_or, not_or, Bool.not_eq_false] at hnone
  rcases hnone with ⟨hlists, hpresigned, hrereads, hwide⟩
  rcases sentFor_of_rereads hlists hrereads with ⟨warm, hsentFor⟩
  have hsame : forall probe reads sent, sent ∈ req.rebuild (some "bytes=0-0") ::
      sentAfterProbe cfg req plainInput warm ⟨some plainInput, probe, reads⟩ ->
        sent.ranges = req.ranges := by
    intro probe reads sent hsent
    rw [← hsentFor _ rfl] at hsent
    exact hkeeps _ sent (fun hyes => absurd hyes hpresigned) hsent
  have hprobe := hsame none [] _ List.mem_cons_self
  rw [ranges_rebuild_some] at hprobe
  refine hwide ⟨hprobe.symm, ?_⟩
  intro len hcached
  by_contra hlen
  rcases chunk_mem_sentAfterProbe (Nat.lt_of_not_le hlen) hcached with
    ⟨start, index, hmem⟩
  have hchunk := hsame _ _ _ (List.mem_cons_of_mem _ hmem)
  rw [ranges_rebuild_some, ← hprobe] at hchunk
  exact ofStr_range_ne start (by lia) (List.singleton_inj.mp hchunk)

/-!
## Signatures the front door reads, and some it does not
-/

def rangeConfig : ReadConfig where
  toConfig := smallConfig
  deliveryEnabled := false
  conditionalGetFromCache := true
  minObjectSize := 0
  maxObjectSize := none

def signedWith (auth : HeaderValue) : HttpRequest where
  method := .get
  uri := ⟨some photos, "/k", none⟩
  headers :=
    [("host", .ofStr "photos.s3.test"), ("range", .ofStr "bytes=0-99"),
      ("authorization", auth)]

def plainSignature : HeaderValue :=
  .ofStr ("AWS4-HMAC-SHA256 Credential=AKID/s3/aws4_request, " ++
    "SignedHeaders=host;Range, Signature=00")

theorem signed_range_kept_header :
    SignsRange (signedWith plainSignature) ∧
      KeepsRange rangeConfig (signedWith plainSignature) := by
  have hsigned : SignsRange (signedWith plainSignature) :=
    .inl ⟨_, "host;Range".toList, rfl, by decide +kernel, by decide +kernel⟩
  have hseen : signedRange (signedWith plainSignature) = true := by
    decide +kernel
  exact ⟨hsigned, (signed_range_kept_iff rangeConfig _ hsigned).mpr
    (.inl (signedRange_iff.mp hseen))⟩

def blankSignature : HeaderValue :=
  .ofStr ("AWS4-HMAC-SHA256 Credential=AKID/s3/aws4_request, " ++
    "SignedHeaders=host;range , Signature=00")

def latinSignature : HeaderValue :=
  ⟨(HeaderValue.ofStr "AWS4-HMAC-SHA256 Credential=AKID").bytes ++ [233] ++
    (HeaderValue.ofStr ("/s3/aws4_request, " ++
      "SignedHeaders=host;range, Signature=00")).bytes⟩

/-- The ranges asked for on behalf of a GET of the first hundred bytes of a
six-byte object, of which nothing is cached. -/
def rangesSent (req : HttpRequest) : List (List HeaderValue) :=
  (sentFor rangeConfig req
    ⟨some { plainInput with range := some (.int 0 (some 99)) },
      some ⟨6, some "v1"⟩, [0, 1]⟩).map HttpRequest.ranges

/-- A blank hides the last name of the list, and a byte that is not ASCII the
whole header.  Either request is probed for its first byte, and its chunks are
then read, with the caller's signature. -/
theorem overlooked_range_rewritten :
    (SignsRange (signedWith blankSignature) ∧
      SignsRange (signedWith latinSignature)) ∧
    forall auth, auth ∈ [blankSignature, latinSignature] ->
      presigned (signedWith auth) = false ∧
      (signedWith auth).ranges = [.ofStr "bytes=0-99"] ∧
      rangesSent (signedWith auth) =
        [[.ofStr "bytes=0-0"], [.ofStr "bytes=0-3"], [.ofStr "bytes=4-5"]] := by
  refine ⟨⟨?_, ?_⟩, by decide +kernel⟩
  · exact .inl ⟨_, "host;range".toList, rfl, by decide +kernel,
      by decide +kernel⟩
  · exact .inl ⟨_, "host;range".toList, rfl, by decide +kernel,
      by decide +kernel⟩

end RequesterFront

end Daemon
end Pacer
