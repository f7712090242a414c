import Pacer.Daemon.MultipartStaged
import Pacer.Foundation.Transition

/-!
# What a multipart upload's tee commits

The main result: what the tee commits are chunks of the completed object, in
every run in which the node finds in the body of Complete the parts S3 reads
there, S3's content of a part that the tee has observed comes from a request the
tee has seen, and no part is observed while a verified upload is about to be
settled.
-/

namespace Pacer
namespace Daemon

open Foundation Function
open Foundation.Text
open Foundation.Transition
open Cache
open TeeCluster (Message Made)

namespace Multipart

/-!
## Every step keeps it
-/

/-- What the result asks of a step: the node finds in the body of a Complete the
parts S3 reads there; a part is not observed between the two sections of a
Complete that succeeded; and when the placement is verified, what S3 has for a
listed part that the placer knows came with a request it has seen. -/
def Guarded (cfg : Config) (s : State) : Event -> Prop
  | .arrive _ request _ =>
    (observation cfg request).isSome -> s.record.isSome ->
      forall q settler eTag, s.settlers q = some settler ->
        settler.phase ≠ .verified eTag
  | .complete _ body read small => small = true -> partNumbers body = read
  | .verify q =>
    forall settler record number part, s.settlers q = some settler ->
      s.record = some record -> number ∈ settler.list ->
      number ∈ record.placer.parts -> s.parts number = some part ->
      exists req, s.requests part.request = some req ∧ req.seen = true
  | _ => True

variable {q r : Nat} {req : PartRequest}

namespace Inv

variable {cfg : Config} {s s' : State} (h : Inv cfg s)
include h

theorem openUpload (hstep : Multipart.openUpload cfg s = some s') :
    Inv cfg s' := by
  unfold Multipart.openUpload at hstep
  split at hstep
  · cases hstep
  rename_i hopened
  rw [Bool.not_eq_true] at hopened
  cases hstep
  rcases h.unopened hopened with ⟨hrecord, hunseen⟩
  have hnot : forall {eTag}, ¬ Committable cfg s eTag := by
    intro eTag hcommittable
    have hyes := hcommittable.right.left
    rw [hopened] at hyes
    cases hyes
  have hnobody : forall {r req part announced},
      ¬ Saw cfg s.requests r req part announced := by
    intro r req part announced hsaw
    have hseen := hsaw.right.left
    rw [hunseen r req hsaw.left] at hseen
    cases hseen
  refine ⟨?_, h.requests, ?_, h.held, ?_, nofun, h.done⟩
  · exact h.cluster.mono (fun _ _ hwindow => hwindow)
      (fun eTag hcommittable => absurd hcommittable hnot) (fun _ hmade => hmade)
  · intro record hfound
    cases hfound
    exact ⟨rfl, fun _ _ _ _ _ hsaw => absurd hsaw hnobody,
      fun _ _ _ _ _ _ hsaw => absurd hsaw hnobody,
      fun _ _ _ _ _ _ _ _ _ hsaw => absurd hsaw hnobody⟩
  · intro q settler hsettler
    refine (h.settlers q settler hsettler).mono (fun _ hdone => hdone) ?_
      (fun eTag hcommittable => absurd hcommittable hnot)
    -- A verification before the upload was tracked has found no record, and
    -- nothing has been teed.
    intro eTag _ htitled _ record _ _
    rcases htitled with ⟨done, hdone, htag⟩
    refine ⟨done, hdone, htag, ?_⟩
    intro r req first hreq hfirst
    have hseen := (h.requests r req hreq).teed first hfirst
    rw [hunseen r req hreq] at hseen
    cases hseen

theorem arrive {request : Request} {room : Bool}
    (hguard : Guarded cfg s (.arrive r request room))
    (hstep : Multipart.arrive cfg s r request room = some s') :
    Inv cfg s' := by
  unfold Multipart.arrive at hstep
  split at hstep
  · cases hstep
  rename_i hfree
  have hrequests : forall {new}, RequestOk cfg new -> forall other found,
      update s.requests r (some new) other = some found ->
      RequestOk cfg found := by
    intro new hnew
    exact Table.forall_update_some h.requests hnew
  have hext : forall new, Extends s.requests
      (update s.requests r (some new)) := by
    intro new
    apply extends_update
    intro found hfound
    rw [hfree] at hfound
    cases hfound
  dsimp only at hstep
  split at hstep
  · rename_i part announced record hobservation hrecord
    cases hstep
    have hnot : forall {eTag}, ¬ Committable cfg s eTag := by
      intro eTag hcommittable
      rw [hcommittable.left] at hrecord
      cases hrecord
    have hunverified : forall q settler eTag, s.settlers q = some settler ->
        settler.phase ≠ .verified eTag := by
      apply hguard
      · rw [hobservation]
        rfl
      · rw [hrecord]
        rfl
    refine ⟨?_, ?_, ?_, ?_, ?_, ?_, h.done⟩
    · exact h.cluster.mono (fun _ _ hwindow => hwindow.extend (hext _))
        (fun eTag hcommittable => absurd hcommittable hnot)
        (fun _ hmade => hmade)
    · exact hrequests (requestOk_seen hobservation _)
    · intro found hfound
      cases hfound
      apply (h.placed record hrecord).observe hobservation
      dsimp only
      split
      · exact Or.inr rfl
      · exact Or.inl rfl
    · intro number held hheld
      exact (h.held number held hheld).extend (hext _)
    · intro q settler hsettler
      exact (h.settlers q settler hsettler).mono (fun _ hdone => hdone)
        (fun eTag hphase => absurd hphase (hunverified q settler eTag hsettler))
        (fun eTag hcommittable => absurd hcommittable hnot)
    · intro hopened
      have hnone := (h.unopened hopened).left
      rw [hrecord] at hnone
      cases hnone
  · cases hstep
    exact h.setRequests (hext _) (backed_update nofun)
      (hrequests requestOk_forwarded)

theorem feed {data : Bytes} (hstep : Multipart.feed s r data = some s')
    : Inv cfg s' := by
  unfold Multipart.feed at hstep
  split at hstep
  · cases hstep
  rename_i req hreq
  split at hstep
  · cases hstep
  rename_i hidle
  rw [not_or, not_not] at hidle
  have hok := h.requests r req hreq
  have hrunning : req.ended ≠ true := hidle.left
  dsimp only at hstep
  split at hstep
  · rename_i hnone
    cases hstep
    have hend : forall t, req.tee = some t -> t.done = true ∨ data = [] := by
      intro t ht
      rw [hnone] at ht
      cases ht
    have hgrows : Grows req { req with sent := req.sent ++ data } :=
      ⟨rfl, rfl, rfl, id, List.prefix_rfl, fun _ => rfl⟩
    exact h.setRequest hreq hgrows (hok.forward data req.ended hend)
  · rename_i t ht
    cases hstep
    refine h.applyFed hreq ?_ (hok.feed ht hidle.right data)
    exact ⟨rfl, rfl, rfl, id, List.prefix_append _ _,
      fun hended => absurd hended hrunning⟩

theorem finish {polled : Bool} (hstep : Multipart.finish s r polled = some s')
    : Inv cfg s' := by
  unfold Multipart.finish at hstep
  split at hstep
  · cases hstep
  rename_i req hreq
  split at hstep
  · cases hstep
  rename_i hidle
  rw [not_or, not_not] at hidle
  have hok := h.requests r req hreq
  have hended : RequestOk cfg { req with ended := true } := by
    have hforward := hok.forward [] true fun _ _ => Or.inr rfl
    rw [List.append_nil] at hforward
    exact hforward
  have hgrows : Grows req { req with ended := true } :=
    ⟨rfl, rfl, rfl, fun _ => rfl, List.prefix_rfl, fun _ => rfl⟩
  dsimp only at hstep
  split at hstep
  · cases hstep
    exact h.setRequest hreq hgrows hended
  · rename_i t ht
    split at hstep
    · cases hstep
      have hquiet := PartTee.quiet_finish (hok.tail t ht)
      have hcall := hok.quietCall ht hquiet [] true
      rw [List.append_nil] at hcall
      refine h.applyFed hreq ?_ hcall
      exact ⟨rfl, rfl, rfl, fun _ => rfl, List.prefix_append _ _,
        fun hover => absurd hover hidle.left⟩
    · cases hstep
      exact h.setRequest hreq hgrows hended

theorem endTee {call : PartTee -> PartTee.Fed}
    (hcall : forall t, t.keepTail = false -> (call t).Quiet)
    (hstep : Multipart.endTee s r call = some s') : Inv cfg s' := by
  unfold Multipart.endTee at hstep
  split at hstep
  · cases hstep
  rename_i req hreq
  split at hstep
  · cases hstep
    exact h
  · rename_i t ht
    cases hstep
    have hok := h.requests r req hreq
    have hquiet := hcall t (hok.tail t ht)
    have hafter := hok.quietCall ht hquiet [] req.ended
    rw [List.append_nil] at hafter
    refine h.applyFed hreq ⟨rfl, rfl, rfl, id, List.prefix_append _ _, ?_⟩
      hafter
    intro _
    show req.payload ++ (call t).gained = req.payload
    rw [hquiet.gained, List.append_nil]

end Inv

/-!
## The placement is verified
-/

theorem mapM_cons_some {f : a -> Option b} {x : a} {xs : List a} {ys : List b}
    (h : (x :: xs).mapM f = some ys) : exists y rest, f x = some y ∧
      xs.mapM f = some rest ∧ ys = y :: rest := by
  rw [List.mapM_cons] at h
  rcases Option.bind_eq_some_iff.mp h with ⟨y, hy, h⟩
  rcases Option.bind_eq_some_iff.mp h with ⟨rest, hrest, h⟩
  cases h
  exact ⟨y, rest, hy, hrest, rfl⟩

theorem mapM_append_cons {f : a -> Option b} {front back : List a} {x : a}
    {ys : List b} (h : (front ++ x :: back).mapM f = some ys) :
    exists before y after, front.mapM f = some before ∧ f x = some y ∧
      ys = before ++ y :: after := by
  rw [List.mapM_append] at h
  rcases Option.bind_eq_some_iff.mp h with ⟨before, hfront, h⟩
  rcases Option.bind_eq_some_iff.mp h with ⟨rest, hrest, h⟩
  cases h
  rcases mapM_cons_some hrest with ⟨y, after, hx, _, rfl⟩
  exact ⟨before, y, after, hfront, hx, rfl⟩

theorem totalLen_of_mapM {parts : AList (fun _ : Int => Observed)}
    {f : Int -> Option Bytes} {list : List Int} {contents : List Bytes}
    (hlen : forall number content, number ∈ list -> f number = some content ->
      PartPlacer.lenOf parts number = content.length)
    (h : list.mapM f = some contents) :
    PartPlacer.totalLen parts list = contents.flatten.length := by
  induction list generalizing contents with
  | nil =>
    cases h
    rfl
  | cons number rest ih =>
    rcases mapM_cons_some h with ⟨content, after, hcontent, hrest, rfl⟩
    have hnumber := hlen number content List.mem_cons_self hcontent
    have htotal := ih (fun other found hother =>
      hlen other found (List.mem_cons_of_mem number hother)) hrest
    unfold PartPlacer.totalLen at htotal ⊢
    rw [List.map_cons, List.sum_cons, hnumber, htotal,
      List.flatten_cons, List.length_append]

variable {number : Int} {part : Part} {settler : Settler}

namespace Inv

variable {cfg : Config} {s s' : State} (h : Inv cfg s)
include h

theorem saw_of_held (hpart : s.parts number = some part)
    (hreq : s.requests part.request = some req) (hseen : req.seen = true) :
    exists announced, Saw cfg s.requests part.request req number announced ∧
      announced.len = part.content.length ∧
      forall first, req.first = some first ->
        req.ended = true ∧ req.payload <+: part.content := by
  rcases h.held number part hpart with
    ⟨found, hfound, hnumber, hlength, hteed⟩
  rw [hreq] at hfound
  cases hfound
  rcases (h.requests _ _ hreq).seen hseen with
    ⟨number', announced, hobservation⟩
  rcases observation_some hobservation with ⟨hsame, hcopy, hshape⟩
  rw [hnumber] at hsame
  cases hsame
  exact ⟨announced, ⟨hreq, hseen, hobservation⟩,
    hlength announced hcopy hshape, hteed⟩

theorem lenOf_of_held {record : Record} (hrecord : s.record = some record)
    (hclean : record.placer.tainted = false)
    (hknown : number ∈ record.placer.parts) (hpart : s.parts number = some part)
    {req : PartRequest} (hreq : s.requests part.request = some req)
    (hseen : req.seen = true) :
    PartPlacer.lenOf record.placer.parts number = part.content.length := by
  rcases h.saw_of_held hpart hreq hseen with ⟨announced, hsaw, hannounced, _⟩
  rcases Option.isSome_iff_exists.mp (AList.lookup_isSome.mpr hknown) with
    ⟨observed, hobserved⟩
  rw [PartPlacer.lenOf_of_lookup hobserved, ← hannounced]
  exact ((h.placed record hrecord).agrees hclean _ _ _ _ observed hsaw
    hobserved).left

theorem settled_of_verify {record : Record} {done : Completed}
    (hguard : Guarded cfg s (.verify q))
    (hsettler : s.settlers q = some settler) (hrecord : s.record = some record)
    (hdone : s.completed = some done) (hlist : done.list = settler.list)
    (hverify : record.placer.verify settler.list = true) :
    Settled cfg s (trimQuotes done.eTag) := by
  have hplaced := h.placed record hrecord
  have hclean := (PartPlacer.verify_true hverify).left
  have hmem := PartPlacer.mem_of_verify hverify
  rcases h.done done hdone with ⟨_, contents, hcontents, hcontent, hfits⟩
  rw [hlist] at hcontents
  have hseen : forall number part, number ∈ settler.list ->
      s.parts number = some part ->
      exists req, s.requests part.request = some req ∧ req.seen = true := by
    intro number part hnumber hpart
    exact hguard settler record number part hsettler hrecord hnumber
      ((hmem number).mp hnumber) hpart
  have hlen : forall number content, number ∈ settler.list ->
      (s.parts number).map Part.content = some content ->
      PartPlacer.lenOf record.placer.parts number = content.length := by
    intro number content hnumber hfound
    rcases Option.map_eq_some_iff.mp hfound with ⟨part, hpart, rfl⟩
    rcases hseen number part hnumber hpart with ⟨req, hreq, hsaw⟩
    exact h.lenOf_of_held hrecord hclean ((hmem number).mp hnumber) hpart hreq
      hsaw
  refine ⟨done, hdone, rfl, ?_⟩
  intro r req first hreq hfirst
  have hok := h.requests r req hreq
  have hsawn := hok.teed first hfirst
  rcases hok.seen hsawn with ⟨number, announced, hobservation⟩
  have hsaw : Saw cfg s.requests r req number announced :=
    ⟨hreq, hsawn, hobservation⟩
  rcases hplaced.known hclean r req number announced hsaw with
    ⟨observed, hobserved⟩ | ⟨hunteed, _⟩
  · have hnumber : number ∈ settler.list := by
      rw [hmem, ← AList.lookup_isSome, hobserved]
      rfl
    have htotal : PartPlacer.totalLen record.placer.parts settler.list <
        2 ^ 64 := by
      rw [totalLen_of_mapM hlen hcontents, ← hcontent]
      exact hfits
    rcases List.append_of_mem hnumber with ⟨front, back, hsplit⟩
    have hfrontlen : forall number content, number ∈ front ->
        (s.parts number).map Part.content = some content ->
        PartPlacer.lenOf record.placer.parts number = content.length := by
      intro other content hother
      apply hlen
      rw [hsplit]
      exact List.mem_append_left _ hother
    rw [hsplit] at hverify hcontents htotal
    rcases mapM_append_cons hcontents with
      ⟨before, content, after, hbefore, hfound, hjoin⟩
    rcases Option.map_eq_some_iff.mp hfound with ⟨part, hpart, rfl⟩
    rcases hseen number part hnumber hpart with ⟨other, hother, hothersaw⟩
    rcases h.saw_of_held hpart hother hothersaw with ⟨_, hsaw', _, hteed⟩
    have hsame := hplaced.unique hclean _ _ _ _ _ _ _ observed hsaw hsaw'
      hobserved
    rw [← hsame, hreq] at hother
    cases hother
    rcases hteed first hfirst with ⟨hended, hprefix⟩
    rcases PartPlacer.placed_of_verify hverify htotal with
      ⟨found, hlookup, hoffset⟩
    rw [hobserved] at hlookup
    cases hlookup
    have hstart := (hplaced.agrees hclean _ _ _ _ observed hsaw hobserved).right
      first hfirst
    refine ⟨hended, hprefix.trans ?_⟩
    rw [← hstart, hoffset, totalLen_of_mapM hfrontlen hbefore, hcontent, hjoin,
      List.flatten_append, List.drop_left, List.flatten_cons]
    exact List.prefix_append _ _
  · rw [hunteed] at hfirst
    cases hfirst

end Inv

theorem contentOf_body {taken : Taken} {content : Bytes}
    (h : contentOf req taken = some content)
    (hcopy : req.request.copySource = false) :
    req.ended = true ∧
      PartTee.Content req.request.headers.isAwsChunked req.sent content := by
  unfold contentOf at h
  rw [hcopy] at h
  cases taken with
  | copied found => cases h
  | plain =>
    dsimp only at h
    split at h
    · rename_i hplain
      cases h
      rw [hplain.right]
      exact ⟨hplain.left, rfl⟩
    · cases h
  | framed encoding =>
    dsimp only at h
    split at h
    · rename_i hframed
      cases h
      rw [hframed.right.left]
      exact ⟨hframed.left, encoding, hframed.right.right.left,
        hframed.right.right.right, rfl⟩
    · cases h

theorem len_of_lengthAgrees {content : Bytes} {announced : BodyShape}
    (h : lengthAgrees req content = true)
    (hcopy : req.request.copySource = false)
    (hshape : shape req.request.headers = some announced) :
    announced.len = content.length := by
  unfold lengthAgrees at h
  rw [hcopy, hshape] at h
  exact eq_of_beq h

namespace Inv

variable {cfg : Config} {s s' : State} (h : Inv cfg s)
include h

theorem dispatch {r m now : Nat} {skipped : Bool}
    (hstep : Multipart.dispatch cfg s r m now skipped = some s') :
    Inv cfg s' := by
  unfold Multipart.dispatch at hstep
  split at hstep
  · cases hstep
  rename_i req hreq
  split at hstep
  · cases hstep
  rename_i index body rest houtbox
  have hok := h.requests r req hreq
  have hentry : (index, body) ∈ req.outbox := by
    rw [houtbox]
    exact List.mem_cons_self
  have hwindow : WindowOf cfg s.requests index body :=
    hok.windowOf hentry hreq
  have hgrows : Grows req { req with outbox := rest } :=
    ⟨rfl, rfl, rfl, id, List.prefix_rfl, fun _ => rfl⟩
  have htaken := fun {base : State} (hbase : Inv cfg base)
      (hsame : base.requests r = some req) =>
    hbase.setRequest hsame hgrows (hok.dispatch houtbox)
  dsimp only at hstep
  split at hstep
  · cases hstep
    exact htaken h hreq
  · split at hstep
    · cases hstep
      exact htaken (h.setCluster (h.cluster.stage fun _ => hwindow)) hreq
    · rename_i home _
      split at hstep
      · cases hstep
        exact htaken h hreq
      · rename_i record hrecord
        split at hstep
        · cases hstep
        rename_i cluster hsend
        cases hstep
        have hsound := h.cluster.send hsend rfl
          (by
            intro _ _ _ _ _ heq
            cases heq
            exact hwindow)
          nofun
        have hhomes : Inv cfg { s with
            cluster := cluster,
            record := some { record with
              homes := if home ∈ record.homes then record.homes
                else record.homes ++ [home] } } :=
          (h.setCluster hsound).setRecord hrecord rfl id
        exact htaken hhomes hreq

theorem accept {taken : Taken}
    (hstep : Multipart.accept cfg s r taken = some s') : Inv cfg s' := by
  unfold Multipart.accept at hstep
  split at hstep
  · cases hstep
  rename_i req hreq
  split at hstep
  · rename_i number content hnumber hcontent
    split at hstep
    · rename_i hopen
      cases hstep
      refine ⟨h.cluster, h.requests, h.placed, ?_, h.settlers, h.unopened, ?_⟩
      · apply Table.forall_update_some h.held
        refine ⟨req, hreq, hnumber, ?_, ?_⟩
        · intro announced hcopy hshape
          exact len_of_lengthAgrees hopen.right hcopy hshape
        · intro first hfirst
          have hok := h.requests r req hreq
          rcases hok.seen (hok.teed first hfirst) with ⟨_, _, hobservation⟩
          have hcopy := (observation_some hobservation).right.left
          rcases contentOf_body hcontent hcopy with ⟨hended, hbody⟩
          rw [← List.append_nil req.sent] at hbody
          exact ⟨hended, hok.ahead first [] content hfirst hbody⟩
      · intro done hdone
        have hclosed := (h.done done hdone).left
        rw [hopen.left] at hclosed
        cases hclosed
    · cases hstep
  · cases hstep

theorem refuse (hstep : Multipart.refuse cfg s r = some s') :
    Inv cfg s' := by
  unfold Multipart.refuse at hstep
  split at hstep
  · cases hstep
  split at hstep
  · split at hstep
    · cases hstep
      exact h.taint
    · cases hstep
      exact h
  · cases hstep
    exact h

end Inv

namespace Inv

variable {cfg : Config} {s s' : State} (h : Inv cfg s)
include h

theorem setPhase {phase : Phase}
    (hphase : PhaseOk cfg s { settler with phase := phase }) :
    Inv cfg (s.setPhase q settler phase) :=
  h.setSettler hphase

theorem complete {body : String} {read : List Int} {small : Bool}
    (hguard : Guarded cfg s (.complete q body read small))
    (hstep : Multipart.complete s q body read small = some s') :
    Inv cfg s' := by
  unfold Multipart.complete at hstep
  split at hstep
  · cases hstep
  cases hstep
  apply h.setSettler
  cases small with
  | false => trivial
  | true => exact hguard rfl

theorem hear {phase : Phase} (hsettler : s.settlers q = some settler)
    (hphase : settler.list = settler.read -> PhaseOk cfg s
      { settler with asked := false, phase := phase }) :
    PhaseOk cfg s (settler.hear phase) := by
  have hsettled := h.settlers q settler hsettler
  unfold Settler.hear
  split
  · rename_i hwaiting
    unfold PhaseOk at hsettled
    rw [hwaiting] at hsettled
    exact hphase hsettled
  · exact hsettled

theorem completes {eTag : String}
    (hstep : Multipart.completes s q eTag = some s') : Inv cfg s' := by
  unfold Multipart.completes at hstep
  split at hstep
  · cases hstep
  rename_i settler hsettler
  split at hstep
  · cases hstep
  rename_i contents hcontents
  split at hstep
  · rename_i hallowed
    rcases hallowed with ⟨_, hopen, _, _, hfits⟩
    cases hstep
    have hnew : s.completed = none := by
      cases hcompleted : s.completed with
      | none => rfl
      | some done =>
        have hclosed := (h.done done hcompleted).left
        rw [hopen] at hclosed
        cases hclosed
    have hunsettled : forall {eTag}, ¬ Settled cfg s eTag := by
      intro eTag hsettled
      rcases hsettled with ⟨done, hdone, _⟩
      rw [hnew] at hdone
      cases hdone
    have hunmade : forall {entry}, ¬ MadeOf cfg s.completed entry := by
      intro entry hmade
      rcases hmade with ⟨done, _, _, hdone, _⟩
      rw [hnew] at hdone
      cases hdone
    have hdone : Inv cfg { s with
        uploadOpen := false,
        completed := some
          { list := settler.read,
            eTag := eTag,
            content := contents.flatten } } := by
      refine ⟨?_, h.requests, h.placed, h.held, ?_, h.unopened, ?_⟩
      · exact h.cluster.mono (fun _ _ hwindow => hwindow)
          (fun _ hcommittable => absurd hcommittable.right.right hunsettled)
          (fun _ hmade => absurd hmade hunmade)
      · intro other found hfound
        apply (h.settlers other found hfound).mono
        · intro done hdone
          rw [hnew] at hdone
          cases hdone
        · intro tag _ htitled
          rcases htitled with ⟨done, hdone, _⟩
          rw [hnew] at hdone
          cases hdone
        · intro tag hcommittable
          exact absurd hcommittable.right.right hunsettled
      · intro done hdone
        cases hdone
        exact ⟨rfl, contents, hcontents, rfl, hfits⟩
    apply hdone.setSettler
    exact hdone.hear hsettler (fun hlist => ⟨_, rfl, hlist.symm, rfl⟩)
  · cases hstep

theorem rejects (hstep : Multipart.rejects s q = some s') :
    Inv cfg s' := by
  unfold Multipart.rejects at hstep
  split at hstep
  · cases hstep
  rename_i settler hsettler
  split at hstep
  · cases hstep
    exact h.setSettler (h.hear hsettler (fun _ => trivial))
  · cases hstep

theorem misread {discards : Bool}
    (hstep : Multipart.misread s q discards = some s') : Inv cfg s' := by
  have hphase : forall settler : Settler, PhaseOk cfg s { settler with
      phase := if discards then .failed else .finished } := by
    intro settler
    cases discards with
    | false => trivial
    | true => trivial
  unfold Multipart.misread at hstep
  split at hstep
  · cases hstep
  rename_i settler hsettler
  split at hstep
  · cases hstep
    exact h.setPhase (hphase settler)
  · cases hstep
    exact h.setPhase (hphase settler)
  · cases hstep

theorem abort (hstep : Multipart.abort s q = some s') :
    Inv cfg s' := by
  unfold Multipart.abort at hstep
  split at hstep
  · cases hstep
  split at hstep
  · rename_i hopen
    cases hstep
    have haborted : Inv cfg { s with
        uploadOpen := false, parts := fun _ => none } := by
      refine ⟨h.cluster, h.requests, h.placed, ?_, h.settlers, h.unopened, ?_⟩
      · intro number part hpart
        cases hpart
      intro done hdone
      have hclosed := (h.done done hdone).left
      rw [hopen] at hclosed
      cases hclosed
    exact haborted.setSettler trivial
  · cases hstep

theorem verify (hguard : Guarded cfg s (.verify q))
    (hstep : Multipart.verify s q = some s') : Inv cfg s' := by
  unfold Multipart.verify at hstep
  split at hstep
  · cases hstep
  rename_i settler hsettler
  split at hstep
  · rename_i eTag hsucceeded
    cases hstep
    have hphase := h.settlers q settler hsettler
    unfold PhaseOk at hphase
    rw [hsucceeded] at hphase
    rcases hphase with ⟨done, hdone, hlist, rfl⟩
    cases hrecord : s.record with
    | none =>
      rw [Option.map_none, ← hrecord]
      apply h.setPhase
      refine ⟨⟨done, hdone, rfl⟩, ?_⟩
      intro record hfound
      rw [hrecord] at hfound
      cases hfound
    | some record =>
      rw [Option.map_some]
      have hnoted : Inv cfg { s with record := some { record with
          tainted :=
            record.tainted || !record.placer.verify settler.list } } := by
        refine h.setRecord hrecord ?_ ?_
        · rfl
        · intro hclean
          exact (Bool.or_eq_false_iff.mp hclean).left
      apply hnoted.setPhase
      refine ⟨⟨done, hdone, rfl⟩, ?_⟩
      intro found hfound hclean
      cases hfound
      have hverify : record.placer.verify settler.list = true := by
        have hright := (Bool.or_eq_false_iff.mp hclean).right
        rw [Bool.not_eq_false'] at hright
        exact hright
      exact h.settled_of_verify hguard hsettler hrecord hdone hlist hverify
  · cases hstep

theorem settle (hstep : Multipart.settle s q = some s') :
    Inv cfg s' := by
  unfold Multipart.settle at hstep
  split at hstep
  · cases hstep
  rename_i settler hsettler
  dsimp only at hstep
  split at hstep
  · cases hstep
  · cases hstep
    exact h.setPhase trivial
  · rename_i eTag record hphase hrecord
    cases hstep
    apply h.clearRecord.setPhase
    have hopened : s.opened = true := by
      cases hopened : s.opened with
      | true => rfl
      | false =>
        have hnone := (h.unopened hopened).left
        rw [hrecord] at hnone
        cases hnone
    have hsettler' := h.settlers q settler hsettler
    unfold PhaseOk at hsettler'
    unfold outcome
    split
    · rename_i tag _ htainted
      split at hphase
      · rename_i found hverified
        cases hphase
        rw [hverified] at hsettler'
        exact ⟨rfl, hopened, hsettler'.right record hrecord htainted⟩
      · cases hphase
      · cases hphase
    · trivial

theorem commitLocal (hstep : Multipart.commitLocal cfg s q = some s')
    : Inv cfg s' := by
  unfold Multipart.commitLocal at hstep
  split at hstep
  · cases hstep
  rename_i settler hsettler
  split at hstep
  · rename_i eTag homes hphase
    cases hstep
    have hcommittable := h.settlers q settler hsettler
    unfold PhaseOk at hcommittable
    rw [hphase] at hcommittable
    have hsound := h.cluster.commitAt fun index body hwindow =>
      madeOf_of_window hcommittable.right.right hwindow cfg.node
    exact (h.setCluster hsound).setPhase hcommittable
  · cases hstep

theorem sendCommit {q m : Nat}
    (hstep : Multipart.sendCommit cfg s q m = some s') : Inv cfg s' := by
  unfold Multipart.sendCommit at hstep
  split at hstep
  · cases hstep
  rename_i settler hsettler
  split at hstep
  · rename_i eTag home homes hphase
    split at hstep
    · cases hstep
    rename_i cluster hsend
    cases hstep
    have hcommittable := h.settlers q settler hsettler
    unfold PhaseOk at hcommittable
    rw [hphase] at hcommittable
    have htag : forall home' found eTag',
        (Message.commit home cfg.id eTag) = .commit home' found eTag' ->
        Committable cfg s eTag' := by
      intro home' found eTag' heq
      cases heq
      exact hcommittable
    have hsound := h.cluster.send hsend rfl nofun htag
    exact (h.setCluster hsound).setPhase hcommittable
  · cases hstep

theorem discardLocal (hstep : Multipart.discardLocal cfg s q = some s')
    : Inv cfg s' := by
  unfold Multipart.discardLocal at hstep
  split at hstep
  · cases hstep
  split at hstep
  · cases hstep
    exact (h.setCluster (h.cluster.discardAt cfg.node cfg.id)).setPhase trivial
  · cases hstep

theorem sendDiscard {q m : Nat}
    (hstep : Multipart.sendDiscard cfg s q m = some s') : Inv cfg s' := by
  unfold Multipart.sendDiscard at hstep
  split at hstep
  · cases hstep
  split at hstep
  · split at hstep
    · cases hstep
    rename_i cluster hsend
    cases hstep
    have hsound := h.cluster.send hsend rfl nofun nofun
    exact (h.setCluster hsound).setPhase trivial
  · cases hstep

theorem deliver {m now : Nat}
    (hstep : (s.cluster.deliver m now).map (withCluster s) = some s') :
    Inv cfg s' := by
  rcases Option.map_eq_some_iff.mp hstep with ⟨cluster, hdeliver, rfl⟩
  refine h.setCluster (h.cluster.deliver ?_ hdeliver)
  intro node index body eTag hwindow hcommittable
  exact madeOf_of_window hcommittable.right.right hwindow node

theorem step {e : Event} (hguard : Guarded cfg s e)
    (hstep : Multipart.step cfg s e = some s') : Inv cfg s' := by
  cases e <;> simp only [Multipart.step] at hstep
  case openUpload => exact h.openUpload hstep
  case arrive r request room => exact h.arrive hguard hstep
  case feed r data => exact h.feed hstep
  case dispatch r m now skipped => exact h.dispatch hstep
  case finish r polled => exact h.finish hstep
  case fail r => exact h.endTee (fun _ htail => PartTee.quiet_fail htail) hstep
  case drop r => exact h.endTee (fun _ htail => PartTee.quiet_drop htail) hstep
  case accept r taken => exact h.accept hstep
  case refuse r => exact h.refuse hstep
  case complete q body read small => exact h.complete hguard hstep
  case completes q eTag => exact h.completes hstep
  case rejects q => exact h.rejects hstep
  case misread q discards => exact h.misread hstep
  case abort q => exact h.abort hstep
  case verify q => exact h.verify hguard hstep
  case settle q => exact h.settle hstep
  case commitLocal q => exact h.commitLocal hstep
  case sendCommit q m => exact h.sendCommit hstep
  case discardLocal q => exact h.discardLocal hstep
  case sendDiscard q m => exact h.sendDiscard hstep
  case expire =>
    cases hstep
    exact h.clearRecord
  case deliver m now => exact h.deliver hstep
  case lose m =>
    rcases Option.map_eq_some_iff.mp hstep with ⟨cluster, hlose, rfl⟩
    exact h.setCluster (h.cluster.lose hlose)
  case reap node now =>
    cases hstep
    exact h.setCluster (h.cluster.reap node now)
  case stageOther node index id body now =>
    split at hstep
    · cases hstep
    rename_i hother
    cases hstep
    exact h.setCluster (h.cluster.stage fun hid => absurd hid hother)
  case settleOther node id =>
    split at hstep
    · cases hstep
    · cases hstep
      exact h.setCluster (h.cluster.discardAt node id)

end Inv

/-!
## Committed chunks
-/

/-- Every chunk the tee commits is a chunk of the completed object, under the
object's ETag. -/
theorem committed_chunks_are_of_the_object {cfg : Config}
    {events : List Event} {final : State}
    (hguard : Along (step cfg) (Guarded cfg) (State.start cfg) events)
    (hrun : run (step cfg) (State.start cfg) events = some final)
    {entry : Made} (hmade : entry ∈ final.cluster.made) :
    exists done lo hi, final.completed = some done ∧
      entry.chunk.eTag = some (trimQuotes done.eTag) ∧
      cfg.chunk.chunkBounds entry.index done.content.length = some (lo, hi) ∧
      entry.chunk.body = span done.content lo hi := by
  have hinv : Inv cfg final :=
    run_preserves (fun _ _ _ hinv hstepped hstep => hinv.step hstepped hstep)
      (inv_start cfg) hguard hrun
  exact hinv.cluster.made entry hmade

/-!
## The parts in a body

A body may hold anything around the elements of its part numbers, as long as it
does not read as their opening tag.  The node finds the numbers in the order in
which they are written, whatever the rest of the body makes of them.
-/

theorem xmlValuesFrom_written {c d : Char} {opening closing : List Char}
    (hopening : c ∉ opening) (hclosing : d ∉ closing)
    {items : List (List Char × List Char)}
    (hitems : forall item, item ∈ items ->
      ¬ d :: closing <:+: item.1 ∧ ¬ c :: opening <:+: item.2)
    {lead : List Char} (hlead : ¬ c :: opening <:+: lead) {fuel : Nat}
    (hfuel : items.length ≤ fuel) :
    xmlValuesFrom (c :: opening) (d :: closing) fuel
        (lead ++ items.flatMap fun item =>
          c :: opening ++ item.1 ++ d :: closing ++ item.2) =
      items.map Prod.fst := by
  induction items generalizing lead fuel with
  | nil =>
    cases fuel with
    | zero => rfl
    | succ fuel =>
      rw [List.flatMap_nil, List.append_nil, xmlValuesFrom,
        splitPattern_eq_none (List.cons_ne_nil _ _) hlead]
      rfl
  | cons item rest ih =>
    cases fuel with
    | zero => exact absurd hfuel (Nat.not_succ_le_zero _)
    | succ fuel =>
      rcases hitems item List.mem_cons_self with ⟨hvalue, hgap⟩
      have hrest := ih
        (fun other hother => hitems other (List.mem_cons_of_mem item hother))
        hgap (Nat.le_of_succ_le_succ hfuel)
      rw [List.flatMap_cons, List.append_assoc (c :: opening ++ item.1),
        List.append_assoc (c :: opening ++ item.1),
        List.append_assoc (c :: opening), ← List.append_assoc lead,
        xmlValuesFrom, splitPattern_append hopening hlead]
      dsimp only
      rw [List.append_assoc (d :: closing), ← List.append_assoc item.1,
        splitPattern_append hclosing hvalue]
      dsimp only
      rw [hrest, List.map_cons]

def elements (parts : List (Nat × String)) : List Char :=
  parts.flatMap fun part =>
    "<PartNumber>".toList ++ Nat.toDigits 10 part.1 ++
      "</PartNumber>".toList ++ part.2.toList

theorem length_le_elements (parts : List (Nat × String)) :
    parts.length ≤ (elements parts).length := by
  induction parts with
  | nil => exact Nat.le_refl 0
  | cons part rest ih =>
    unfold elements at ih ⊢
    rw [List.flatMap_cons, List.length_append, List.length_cons, Nat.add_comm]
    refine Nat.add_le_add (Nat.succ_le_of_lt ?_) ih
    exact List.length_pos_of_ne_nil (List.cons_ne_nil '<' _)

theorem partNumbers_written {lead : String} {parts : List (Nat × String)}
    (hlead : ¬ "<PartNumber>".toList <:+: lead.toList)
    (hparts : forall part, part ∈ parts ->
      part.1 < 2 ^ 31 ∧ ¬ "<PartNumber>".toList <:+: part.2.toList) :
    partNumbers (String.ofList (lead.toList ++ elements parts)) =
      parts.map fun part => (part.1 : Int) := by
  let items := parts.map fun part => (Nat.toDigits 10 part.1, part.2.toList)
  have hitems : forall item, item ∈ items ->
      ¬ '<' :: "/PartNumber>".toList <:+: item.1 ∧
        ¬ '<' :: "PartNumber>".toList <:+: item.2 := by
    intro item hitem
    rcases List.mem_map.mp hitem with ⟨part, hpart, rfl⟩
    refine ⟨?_, (hparts part hpart).right⟩
    intro hinside
    exact notMem_toDigits (Or.inr (by decide)) part.1
      (hinside.subset List.mem_cons_self)
  have hchars : elements parts = items.flatMap fun item =>
      '<' :: "PartNumber>".toList ++ item.1 ++
        '<' :: "/PartNumber>".toList ++ item.2 := by
    rw [List.flatMap_map]
    rfl
  have hfuel : items.length ≤ (lead.toList ++ elements parts).length := by
    rw [List.length_map, List.length_append]
    exact Nat.le_add_left_of_le (length_le_elements parts)
  have hvalues := xmlValuesFrom_written (by decide) (by decide) hitems hlead
    hfuel
  have htext := String.toList_ofList (l := lead.toList ++ elements parts)
  rw [partNumbers, xmlValues, htext]
  rw [← hchars] at hvalues
  refine (congrArg (List.filterMap _) hvalues).trans ?_
  rw [List.map_map, List.filterMap_map, ← List.filterMap_eq_map]
  apply List.filterMap_congr
  intro part hpart
  simp only [Function.comp]
  rw [trim_toDigits, parseSigned_toDigits (hparts part hpart).left]

theorem step_complete {cfg : Config} {s : State} {body : String}
    {list : List Int} (hlist : partNumbers body = list) (read : List Int)
    (hnew : s.settlers q = none) :
    step cfg s (.complete q body read true) =
      some (s.setSettler q
        { list := list, read := read, asked := true, phase := .waiting }) := by
  rw [step, complete, hnew, hlist]
  rfl

/-!
## An upload whose parts overlap

Chunk 0 is homed at the node that tees, chunk 1 at another.
-/

def spread : Config :=
  { bucket := "bucket",
    key := "key",
    uploadId := "u",
    chunk := { chunkSize := 1, positive := Nat.one_pos },
    node := 0,
    homes := fun index => if index = 0 then [0] else [1],
    budgetBytes := 8,
    ttl := 900 }

def partOfOne (number : String) (copySource : Bool) : Request :=
  { method := .put,
    address := some ("bucket", "key"),
    query := [("partNumber", some number), ("uploadId", some "u")],
    copySource := copySource,
    headers :=
      { contentLength := some "1",
        decodedContentLength := none,
        contentEncoding := none,
        contentSha256 := none } }

def overlappingParts : List Event :=
  [.openUpload, .arrive 0 (partOfOne "1" false) true,
    .arrive 1 (partOfOne "2" false) true, .feed 1 [2], .dispatch 1 0 0 false,
    .feed 0 [1], .finish 1 true, .accept 1 .plain, .dispatch 0 0 0 false,
    .finish 0 true, .deliver 0 0, .accept 0 .plain]

def bodyOf (parts : List (Nat × String)) : String :=
  String.ofList ("<CompleteMultipartUpload><Part>".toList ++ elements parts)

theorem partNumbers_bodyOf {parts : List (Nat × String)}
    (hparts : forall part, part ∈ parts ->
      part.1 < 2 ^ 31 ∧ ¬ "<PartNumber>".toList <:+: part.2.toList) :
    partNumbers (bodyOf parts) = parts.map fun part => (part.1 : Int) :=
  partNumbers_written (by decide) hparts

def listed : String :=
  bodyOf [(1, "</Part><Part>"), (2, "</Part></CompleteMultipartUpload>")]

theorem partNumbers_listed : partNumbers listed = [1, 2] :=
  partNumbers_bodyOf (by decide)

def committed : List Event :=
  [.completes 0 "e", .verify 0, .settle 0, .commitLocal 0, .sendCommit 0 1,
    .deliver 1 0]

theorem seen_of_update {requests : Nat -> Option PartRequest}
    {parts : Int -> Option Part} {content : Bytes}
    (hold : forall {number part}, parts number = some part ->
      exists req, requests part.request = some req ∧ req.seen = true)
    (hreq : requests r = some req) (hseen : req.seen = true) {k number : Int}
    {part : Part}
    (hpart : update parts k (some ⟨r, content⟩) number = some part) :
    exists req, requests part.request = some req ∧ req.seen = true := by
  rcases Table.update_cases hpart with ⟨_, hnew⟩ | ⟨_, hkept⟩
  · cases hnew
    exact ⟨req, hreq, hseen⟩
  · exact hold hkept

theorem along_overlappingParts :
    Along (step spread) (Guarded spread) (State.start spread)
      (overlappingParts ++ .complete 0 listed [1, 2] true :: committed) := by
  have hwaits : forall {s : State} {request : Request} {room : Bool} {r : Nat},
      s.settlers = (fun _ => none) ->
      Guarded spread s (.arrive r request room) := by
    intro s request room r hnone _ _ q settler eTag hsettler
    rw [hnone] at hsettler
    cases hsettler
  refine along_cons_of_step trivial rfl ?_
  refine along_cons_of_step (hwaits rfl) rfl ?_
  refine along_cons_of_step (hwaits rfl) rfl ?_
  iterate 9 apply along_cons_of_step trivial rfl
  refine along_cons_of_step (fun _ => partNumbers_listed)
    (step_complete partNumbers_listed _ rfl) ?_
  refine along_cons_of_step trivial rfl ?_
  refine along_cons_of_step ?_ rfl ?_
  · intro settler record number part _ _ _ _ hpart
    refine seen_of_update (seen_of_update ?_ rfl rfl) rfl rfl hpart
    intro _ _ hnone
    cases hnone
  iterate 3 apply along_cons_of_step trivial rfl
  exact along_cons_of_step trivial rfl trivial

theorem committed_chunks_are_of_the_object_overlapping :
    exists final first second,
    run (step spread) (State.start spread)
      (overlappingParts ++ .complete 0 listed [1, 2] true :: committed) =
        some final ∧
    final.cluster.made = [first, second] ∧ first.node ≠ second.node ∧
    forall entry, entry ∈ final.cluster.made ->
      exists done lo hi, final.completed = some done ∧
        entry.chunk.eTag = some (trimQuotes done.eTag) ∧
        spread.chunk.chunkBounds entry.index done.content.length =
          some (lo, hi) ∧
        entry.chunk.body = span done.content lo hi := by
  have hends : exists final,
      run (step spread) (State.start spread)
        (overlappingParts ++ .complete 0 listed [1, 2] true :: committed) =
          some final ∧
      final.cluster.made =
        [⟨0, 0, ⟨[1], some "e"⟩⟩, ⟨1, 1, ⟨[2], some "e"⟩⟩] := by
    iterate 12 apply run_exists_cons rfl
    apply run_exists_cons (step_complete partNumbers_listed _ rfl)
    iterate 6 apply run_exists_cons rfl
    refine ⟨_, rfl, ?_⟩
    decide
  rcases hends with ⟨final, hrun, hmade⟩
  refine ⟨final, _, _, hrun, hmade, by decide, ?_⟩
  intro entry hentry
  exact committed_chunks_are_of_the_object along_overlappingParts hrun hentry

/-!
## What the condition keeps out

A part is replaced by a copy inside S3; a part stands inside a comment of the
body of Complete; a part arrives between the two sections of a Complete.
-/

def oneNode : Config := { spread with homes := fun _ => [0] }

def teedPart (r : Nat) (number : String) (content : Bytes) : List Event :=
  [.arrive r (partOfOne number false) true, .feed r content,
    .dispatch r 0 0 false, .finish r true, .accept r .plain]

def single : String := bodyOf [(1, "</Part></CompleteMultipartUpload>")]

theorem partNumbers_single : partNumbers single = [1] :=
  partNumbers_bodyOf (by decide)

def copiedPart : List Event :=
  [.openUpload] ++ teedPart 0 "1" [1] ++
    [.arrive 1 (partOfOne "1" true) true, .accept 1 (.copied [2]),
      .complete 0 single [1] true, .completes 0 "e", .verify 0, .settle 0,
      .commitLocal 0]

/-- A part is teed, and then replaced by a copy inside S3.  The tee commits the
content that was replaced. -/
theorem copied_part_is_stale : exists final entry,
    run (step oneNode) (State.start oneNode) copiedPart = some final ∧
    final.cluster.made = [entry] ∧
    ¬ exists done lo hi, final.completed = some done ∧
      entry.chunk.eTag = some (trimQuotes done.eTag) ∧
      oneNode.chunk.chunkBounds entry.index done.content.length =
        some (lo, hi) ∧
      entry.chunk.body = span done.content lo hi := by
  have hends : exists final,
      run (step oneNode) (State.start oneNode) copiedPart = some final ∧
      final.cluster.made = [⟨0, 0, ⟨[1], some "e"⟩⟩] ∧
      final.completed = some ⟨[1], "e", [2]⟩ := by
    iterate 8 apply run_exists_cons rfl
    apply run_exists_cons (step_complete partNumbers_single _ rfl)
    iterate 4 apply run_exists_cons rfl
    refine ⟨_, rfl, ?_⟩
    decide
  rcases hends with ⟨final, hrun, hmade, hcompleted⟩
  refine ⟨final, _, hrun, hmade, ?_⟩
  rintro ⟨done, lo, hi, hdone, _, hbounds, hbody⟩
  rw [hcompleted] at hdone
  cases hdone
  cases hbounds
  revert hbody
  decide

def commented : String :=
  bodyOf [(1, "</Part><!--<Part>"), (2, "</Part>--><Part>"),
    (3, "</Part></CompleteMultipartUpload>")]

theorem partNumbers_commented : partNumbers commented = [1, 2, 3] :=
  partNumbers_bodyOf (by decide)

def commentedPart : List Event :=
  [.openUpload] ++ teedPart 0 "1" [1] ++ teedPart 1 "2" [2] ++
    teedPart 2 "3" [3] ++
    [.complete 0 commented [1, 3] true, .completes 0 "e", .verify 0, .settle 0,
      .commitLocal 0]

/-- Parts 1, 2 and 3 are teed, and the list of Complete has part 2 in a comment.
S3 puts parts 1 and 3 together; the tee commits part 2 as the second chunk. -/
theorem commented_part_is_committed : exists final entry,
    run (step oneNode) (State.start oneNode) commentedPart = some final ∧
    entry ∈ final.cluster.made ∧
    ¬ exists done lo hi, final.completed = some done ∧
      entry.chunk.eTag = some (trimQuotes done.eTag) ∧
      oneNode.chunk.chunkBounds entry.index done.content.length =
        some (lo, hi) ∧
      entry.chunk.body = span done.content lo hi := by
  have hends : exists final,
      run (step oneNode) (State.start oneNode) commentedPart = some final ∧
      ⟨0, 1, ⟨[2], some "e"⟩⟩ ∈ final.cluster.made ∧
      final.completed = some ⟨[1, 3], "e", [1, 3]⟩ := by
    iterate 16 apply run_exists_cons rfl
    apply run_exists_cons (step_complete partNumbers_commented _ rfl)
    iterate 4 apply run_exists_cons rfl
    refine ⟨_, rfl, ?_⟩
    decide
  rcases hends with ⟨final, hrun, hmade, hcompleted⟩
  refine ⟨final, _, hrun, hmade, ?_⟩
  rintro ⟨done, lo, hi, hdone, _, hbounds, hbody⟩
  rw [hcompleted] at hdone
  cases hdone
  cases hbounds
  revert hbody
  decide

def latePart : List Event :=
  [.openUpload] ++ teedPart 0 "1" [1] ++
    [.complete 0 single [1] true, .completes 0 "e", .verify 0,
      .arrive 1 (partOfOne "2" false) true, .feed 1 [2],
      .dispatch 1 0 0 false, .settle 0, .commitLocal 0]

theorem late_part_is_committed : exists final entry,
    run (step oneNode) (State.start oneNode) latePart = some final ∧
    entry ∈ final.cluster.made ∧
    ¬ exists done bounds, final.completed = some done ∧
      oneNode.chunk.chunkBounds entry.index done.content.length =
        some bounds := by
  have hends : exists final,
      run (step oneNode) (State.start oneNode) latePart = some final ∧
      ⟨0, 1, ⟨[2], some "e"⟩⟩ ∈ final.cluster.made ∧
      final.completed = some ⟨[1], "e", [1]⟩ := by
    iterate 6 apply run_exists_cons rfl
    apply run_exists_cons (step_complete partNumbers_single _ rfl)
    iterate 7 apply run_exists_cons rfl
    refine ⟨_, rfl, ?_⟩
    decide
  rcases hends with ⟨final, hrun, hmade, hcompleted⟩
  refine ⟨final, _, hrun, hmade, ?_⟩
  rintro ⟨done, bounds, hdone, hbounds⟩
  rw [hcompleted] at hdone
  cases hdone
  cases hbounds

end Multipart

end Daemon
end Pacer
