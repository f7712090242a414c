import Pacer.Cache.Disk
import Pacer.Cluster.Directory
import Pacer.Daemon.FillRegistry
import Pacer.Daemon.Scatter
import Pacer.Daemon.StagingHandlers
import Pacer.Foundation.Table

/-!
# Owners of scattered windows

The nodes a write's windows are staged at, with their staging areas, chunk tiers
and directory shards, and the calls between them.  A call is a request on its
way, then a handler at work, then an answer on its way back; at any point it can
be lost, with the handler if there is one.  A request may be sent twice.

The windows of an upload come into an area by staging only, and out of it into
the tier by a commit only.  So a predicate that holds of every window offered
for an upload holds of every chunk that the upload's commit put in a tier.
-/

namespace Pacer
namespace Daemon

open Foundation Function
open Foundation.Table
open Cache
open Cluster
open Scatter (StoreOutcome)

namespace Owners

/-- How the nodes are set up: which chunk tier they have, whether they have a
staging area, and whether they run without credentials of their own. -/
structure Config where
  diskTier : String -> DiskTier
  accepts : String -> Bool
  requesterMode : String -> Bool
  budgetBytes : Nat
  ttl : Nat
  maxSharersTracked : Nat

/-- A chunk in a tier, and the upload whose commit put it there, if one did. -/
structure Copy where
  chunk : CachedChunk
  origin : Option String

structure Node where
  staging : StagingArea String
  chunks : String -> Option Copy
  directory : Directory String String

inductive Call where
  | store (home uploadId chunkKey : String) (body : Bytes)
      (populateOnly : Bool)
  | uploading (home chunkKey : String)
  | answered (outcome : Option StoreOutcome)
  | commit (home uploadId eTag : String)
  | putting (home uploadId eTag : String) (rest : List (String × Bytes))
  | discard (home uploadId : String)
  | invalidate (home chunkKey : String)

def Call.home : Call -> Option String
  | .store home _ _ _ _ => some home
  | .uploading home _ => some home
  | .answered _ => none
  | .commit home _ _ => some home
  | .putting home _ _ _ => some home
  | .discard home _ => some home
  | .invalidate home _ => some home

def Call.isRequest : Call -> Bool
  | .store _ _ _ _ _ => true
  | .commit _ _ _ => true
  | .discard _ _ => true
  | .invalidate _ _ => true
  | _ => false

structure State where
  nodes : String -> Node
  calls : Nat -> Option Call

namespace Node

/-- Put a committed chunk under its witness, if the tier takes it, and record the
holder either way. -/
def commitChunk (tier : DiskTier) (name uploadId eTag : String) (wrote : Bool)
    (node : Node) (entry : String × Bytes) : Node :=
  { node with
    chunks := if wrote then
        update node.chunks entry.1 (tier.putChunk
          (node.chunks entry.1) ⟨⟨entry.2, some eTag⟩, some uploadId⟩)
      else node.chunks,
    directory := node.directory.admitNext entry.1 name .dram }

def forget (node : Node) (chunkKey : String) : Node :=
  { node with chunks := update node.chunks chunkKey none }

def invalidate (node : Node) (chunkKey : String) : Node :=
  { node.forget chunkKey with directory := node.directory.remove chunkKey }

def fill (tier : DiskTier) (node : Node) (chunkKey : String)
    (chunk : CachedChunk) : Node :=
  { node with
    chunks := update node.chunks chunkKey
      (tier.putChunk (node.chunks chunkKey) ⟨chunk, none⟩) }

end Node

namespace State

def start (cfg : Config) (held : String -> String -> Option CachedChunk) :
    State where
  nodes := fun n =>
    { staging := StagingArea.new cfg.budgetBytes cfg.ttl,
      chunks := fun chunkKey => (held n chunkKey).map fun chunk => ⟨chunk, none⟩,
      directory := Directory.new cfg.maxSharersTracked }
  calls := fun _ => none

def setNode (s : State) (n : String) (node : Node) : State :=
  { s with nodes := update s.nodes n node }

def setStaging (s : State) (n : String) (area : StagingArea String) : State :=
  s.setNode n { s.nodes n with staging := area }

def setCall (s : State) (m : Nat) (call : Option Call) : State :=
  { s with calls := update s.calls m call }

def call (s : State) (m : Nat) (call : Call) : Option State :=
  match s.calls m with
  | some _ => none
  | none => some (s.setCall m (some call))

def stage (s : State) (n chunkKey uploadId : String) (body : Bytes)
    (now : Nat) : State :=
  s.setStaging n ((s.nodes n).staging.tryStageAt chunkKey uploadId body now).2

def release (s : State) (n chunkKey : String) : State :=
  s.setStaging n ((s.nodes n).staging.release chunkKey).2

def discard (s : State) (n uploadId : String) : State :=
  s.setStaging n ((s.nodes n).staging.discard uploadId).2

def takeOut (s : State) (n uploadId : String) : State :=
  s.setStaging n ((s.nodes n).staging.commit uploadId).2

def reap (s : State) (n : String) (now : Nat) : State :=
  s.setStaging n ((s.nodes n).staging.reapAt now).2

def commitChunk (cfg : Config) (s : State) (n uploadId eTag : String)
    (wrote : Bool) (entry : String × Bytes) : State :=
  s.setNode n
    ((s.nodes n).commitChunk (cfg.diskTier n) n uploadId eTag wrote entry)

/-- An offer gets to its home.  A populate-only one is answered once it is
staged; any other goes on to the home's `UploadPart`. -/
def storeChunk (cfg : Config) (s : State) (m now : Nat)
    (home uploadId chunkKey : String) (body : Bytes) (populateOnly : Bool) :
    State :=
  if (cfg.requesterMode home && !populateOnly) || !cfg.accepts home then
    s.setCall m (some (.answered (some .refused)))
  else
    let staged := s.stage home chunkKey uploadId body now
    match ((s.nodes home).staging.tryStageAt chunkKey uploadId body now).1 with
    | .refused _ => staged.setCall m (some (.answered (some .refused)))
    | _ =>
      staged.setCall m (some
        (if populateOnly then .answered (some .staged)
         else .uploading home chunkKey))

def deliver (cfg : Config) (s : State) (m now : Nat) : Option State :=
  match s.calls m with
  | some (.store home uploadId chunkKey body populateOnly) =>
    some (s.storeChunk cfg m now home uploadId chunkKey body populateOnly)
  | some (.commit home uploadId eTag) =>
    some ((s.takeOut home uploadId).setCall m (some (.putting home uploadId
      eTag ((s.nodes home).staging.commit uploadId).1)))
  | some (.discard home uploadId) =>
    some ((s.discard home uploadId).setCall m none)
  | some (.invalidate home chunkKey) =>
    some ((s.setNode home ((s.nodes home).invalidate chunkKey)).setCall m
      none)
  | _ => none

/-- S3 answers a home's `UploadPart`; a home that failed lets go of whatever is
staged under the key. -/
def uploadPart (s : State) (m : Nat) (result : Option String) :
    Option State :=
  match s.calls m with
  | some (.uploading home chunkKey) =>
    match result with
    | some eTag => some (s.setCall m (some (.answered (some (.uploaded eTag)))))
    | none =>
      some ((s.release home chunkKey).setCall m (some (.answered none)))
  | _ => none

def putNext (cfg : Config) (s : State) (m : Nat) (wrote : Bool) :
    Option State :=
  match s.calls m with
  | some (.putting _ _ _ []) => some (s.setCall m none)
  | some (.putting home uploadId eTag (entry :: rest)) =>
    some ((s.commitChunk cfg home uploadId eTag wrote entry).setCall m
      (some (.putting home uploadId eTag rest)))
  | _ => none

def resend (s : State) (m m' : Nat) : Option State :=
  (s.calls m).bind fun call => if call.isRequest then s.call m' call else none

def lose (s : State) (m : Nat) : State := s.setCall m none

def crash (cfg : Config) (s : State) (n : String) : State :=
  { s.setStaging n (StagingArea.new cfg.budgetBytes cfg.ttl) with
    calls := fun m => (s.calls m).filter fun call => call.home != some n }

/-- At a home with a staging area an offer is staged, and goes on to an upload,
as by a handler over that area. -/
theorem storeChunk_handlers {cfg : Config} {s : State} {home : String}
    {node : StagingHandlers.Node String}
    (harea : node.area = (s.nodes home).staging)
    (hmode : node.requesterMode = cfg.requesterMode home)
    (haccepts : cfg.accepts home = true) (m now : Nat)
    (uploadId chunkKey : String) (body : Bytes) (populateOnly : Bool) :
    (node.storeChunk chunkKey uploadId body now populateOnly).area =
        ((s.storeChunk cfg m now home uploadId chunkKey body
          populateOnly).nodes home).staging ∧
      ((node.storeChunk chunkKey uploadId body now populateOnly).handlers =
          node.handlers ++ [⟨.owner, chunkKey, uploadId, true, .uploading⟩] <->
        (s.storeChunk cfg m now home uploadId chunkKey body
          populateOnly).calls m = some (.uploading home chunkKey)) := by
  unfold StagingHandlers.Node.storeChunk storeChunk
  rw [hmode, haccepts, Bool.not_true, Bool.or_false]
  split
  · refine ⟨harea, ?_⟩
    simp [setCall]
  · unfold StagingHandlers.Node.offer stage setStaging setNode setCall
    rw [harea]
    rcases (s.nodes home).staging.tryStageAt chunkKey uploadId body now with
      ⟨outcome, area⟩
    cases outcome <;> cases populateOnly <;>
      simp [StageOutcome.held, StagingHandlers.Node.spawn]

end State

/-!
## What uploads bring into the tiers
-/

section Windows

variable {window window' : String -> String -> Bytes -> Prop}
variable {tag tag' : String -> String -> Prop}

def CallOk (window : String -> String -> Bytes -> Prop)
    (tag : String -> String -> Prop) : Call -> Prop
  | .store _ uploadId chunkKey body _ => window uploadId chunkKey body
  | .commit _ uploadId eTag => tag uploadId eTag
  | .putting _ uploadId eTag rest => tag uploadId eTag ∧
      forall entry, entry ∈ rest -> window uploadId entry.1 entry.2
  | _ => True

def CopyOk (window : String -> String -> Bytes -> Prop)
    (tag : String -> String -> Prop) (chunkKey : String) (copy : Copy) : Prop :=
  forall uploadId, copy.origin = some uploadId ->
    window uploadId chunkKey copy.chunk.body ∧
      exists eTag, tag uploadId eTag ∧ copy.chunk.eTag = some eTag

/-- Staged windows are windows of their uploads, and what commits put in the
tier are such windows under such tags. -/
structure NodeOk (window : String -> String -> Bytes -> Prop)
    (tag : String -> String -> Prop) (node : Node) : Prop where
  staged : forall chunkKey staged,
    node.staging.pending.lookup chunkKey = some staged ->
      window staged.uploadId chunkKey staged.body
  copies : forall chunkKey copy, node.chunks chunkKey = some copy ->
    CopyOk window tag chunkKey copy

structure Sound (s : State) (window : String -> String -> Bytes -> Prop)
    (tag : String -> String -> Prop) : Prop where
  nodes : forall n, NodeOk window tag (s.nodes n)
  calls : forall m call, s.calls m = some call -> CallOk window tag call

theorem CallOk.mono {call : Call} (h : CallOk window tag call)
    (hwindow : forall id k body, window id k body -> window' id k body)
    (htag : forall id eTag, tag id eTag -> tag' id eTag) :
    CallOk window' tag' call := by
  cases call with
  | store home uploadId chunkKey body populateOnly =>
    exact hwindow uploadId chunkKey body h
  | commit home uploadId eTag => exact htag uploadId eTag h
  | putting home uploadId eTag rest =>
    constructor
    · exact htag uploadId eTag h.left
    · intro entry hentry
      exact hwindow uploadId entry.1 entry.2 (h.right entry hentry)
  | uploading home chunkKey | answered outcome | discard home uploadId
  | invalidate home chunkKey =>
    exact True.intro

variable {chunkKey uploadId : String} {body : Bytes} {entry : String × Bytes}

namespace NodeOk

variable {node : Node}

section

variable (h : NodeOk window tag node)

include h

theorem mono (hwindow : forall id k body, window id k body -> window' id k body)
    (htag : forall id eTag, tag id eTag -> tag' id eTag) :
    NodeOk window' tag' node where
  staged := by
    intro chunkKey staged hlookup
    exact hwindow _ _ _ (h.staged chunkKey staged hlookup)
  copies := by
    intro chunkKey copy hcopy uploadId horigin
    rcases h.copies chunkKey copy hcopy uploadId horigin with
      ⟨hbody, eTag, htagged, heq⟩
    exact ⟨hwindow _ _ _ hbody, eTag, htag _ _ htagged, heq⟩

theorem within {area : StagingArea String}
    (harea : StagingArea.Within area node.staging) :
    NodeOk window tag { node with staging := area } where
  staged := fun chunkKey staged hlookup =>
    h.staged chunkKey staged (harea chunkKey staged hlookup)
  copies := h.copies

theorem stage (hwindow : window uploadId chunkKey body) (now : Nat) :
    NodeOk window tag { node with
      staging := (node.staging.tryStageAt chunkKey uploadId body now).2 } where
  staged := by
    intro k staged hlookup
    rcases StagingArea.lookup_tryStageAt hlookup with hold | ⟨hkey, hstaged⟩
    · exact h.staged k staged hold
    · rw [hkey, hstaged]
      exact hwindow
  copies := h.copies

theorem commit (hentry : entry ∈ (node.staging.commit uploadId).1) :
    window uploadId entry.1 entry.2 := by
  rcases StagingArea.mem_commit hentry with ⟨staged, hlookup, hid, hbody⟩
  have hwindow := h.staged entry.1 staged hlookup
  rw [hid, hbody] at hwindow
  exact hwindow

theorem putChunk {copy : Copy} (tier : DiskTier)
    (hcopy : CopyOk window tag chunkKey copy) :
    NodeOk window tag { node with
      chunks := update node.chunks chunkKey
        (tier.putChunk (node.chunks chunkKey) copy) } where
  staged := h.staged
  copies := by
    apply forall_update h.copies
    intro left hleft
    rcases DiskTier.putChunk_some hleft with hold | hnew
    · exact h.copies chunkKey left hold
    · rw [← hnew]
      exact hcopy

theorem commitChunk {eTag : String} (tier : DiskTier) (name : String)
    (wrote : Bool) (htag : tag uploadId eTag)
    (hwindow : window uploadId entry.1 entry.2) :
    NodeOk window tag
      (node.commitChunk tier name uploadId eTag wrote entry) := by
  have hcopy : CopyOk window tag entry.1
      ⟨⟨entry.2, some eTag⟩, some uploadId⟩ := by
    intro id hid
    cases hid
    exact ⟨hwindow, eTag, htag, rfl⟩
  unfold Node.commitChunk
  cases wrote with
  | false => exact ⟨h.staged, h.copies⟩
  | true => exact ⟨h.staged, (h.putChunk tier hcopy).copies⟩

theorem forget (chunkKey : String) :
    NodeOk window tag (node.forget chunkKey) where
  staged := h.staged
  copies := by
    apply forall_update h.copies
    intro copy hcopy
    cases hcopy

theorem invalidate (chunkKey : String) :
    NodeOk window tag (node.invalidate chunkKey) :=
  ⟨h.staged, (h.forget chunkKey).copies⟩

theorem fill (tier : DiskTier) (chunkKey : String) (chunk : CachedChunk) :
    NodeOk window tag (node.fill tier chunkKey chunk) := by
  apply h.putChunk tier
  intro id hid
  cases hid

end

end NodeOk

namespace Sound

variable {cfg : Config} {s s' : State}

theorem start (cfg : Config)
    (held : String -> String -> Option CachedChunk) :
    Sound (State.start cfg held) window tag := by
  constructor
  · intro n
    constructor
    · intro chunkKey staged hlookup
      have hnone := StagingArea.within_new (StagingArea.new 0 0)
        cfg.budgetBytes cfg.ttl chunkKey staged hlookup
      cases hnone
    · intro chunkKey copy hcopy uploadId horigin
      rcases Option.map_eq_some_iff.mp hcopy with ⟨chunk, _, heq⟩
      cases heq
      cases horigin
  · intro m call hcall
    cases hcall

section

variable (h : Sound s window tag)

include h

theorem mono (hwindow : forall id k body, window id k body -> window' id k body)
    (htag : forall id eTag, tag id eTag -> tag' id eTag) :
    Sound s window' tag' where
  nodes := fun n => (h.nodes n).mono hwindow htag
  calls := fun m call hcall => (h.calls m call hcall).mono hwindow htag

theorem setNode {n : String} {node : Node} (hnode : NodeOk window tag node) :
    Sound (s.setNode n node) window tag where
  nodes := (Function.forall_update_iff s.nodes
    (p := fun _ node => NodeOk window tag node)).mpr
      ⟨hnode, fun i _ => h.nodes i⟩
  calls := h.calls

variable {m : Nat}

theorem setCall {call : Call} (hcall : CallOk window tag call) :
    Sound (s.setCall m (some call)) window tag where
  nodes := h.nodes
  calls := by
    apply forall_update h.calls
    intro made hmade
    cases hmade
    exact hcall

theorem lose (m : Nat) :
    Sound (s.setCall m none) window tag where
  nodes := h.nodes
  calls := by
    apply forall_update h.calls
    intro made hmade
    cases hmade

theorem call {call : Call} (hstep : s.call m call = some s')
    (hcall : CallOk window tag call) :
    Sound s' window tag := by
  unfold State.call at hstep
  split at hstep
  · cases hstep
  · cases hstep
    exact h.setCall hcall

theorem stage (hwindow : window uploadId chunkKey body) (n : String)
    (now : Nat) :
    Sound (s.stage n chunkKey uploadId body now) window tag :=
  h.setNode ((h.nodes n).stage hwindow now)

theorem release (n chunkKey : String) :
    Sound (s.release n chunkKey) window tag :=
  h.setNode ((h.nodes n).within
    (StagingArea.within_remove (s.nodes n).staging chunkKey))

theorem discard (n uploadId : String) :
    Sound (s.discard n uploadId) window tag :=
  h.setNode ((h.nodes n).within
    (StagingArea.within_discard (s.nodes n).staging uploadId))

theorem takeOut (n uploadId : String) :
    Sound (s.takeOut n uploadId) window tag :=
  h.setNode ((h.nodes n).within
    (StagingArea.within_commit (s.nodes n).staging uploadId))

theorem reap (n : String) (now : Nat) :
    Sound (s.reap n now) window tag :=
  h.setNode ((h.nodes n).within
    (StagingArea.within_reapAt (s.nodes n).staging now))

theorem commitChunk {eTag : String} (cfg : Config) (n : String) (wrote : Bool)
    (htag : tag uploadId eTag) (hwindow : window uploadId entry.1 entry.2) :
    Sound (s.commitChunk cfg n uploadId eTag wrote entry) window tag :=
  h.setNode ((h.nodes n).commitChunk (cfg.diskTier n) n wrote htag hwindow)

theorem storeChunk (hwindow : window uploadId chunkKey body) (cfg : Config)
    (m now : Nat) (home : String) (populateOnly : Bool) :
    Sound (s.storeChunk cfg m now home uploadId chunkKey body populateOnly)
      window tag := by
  have hstage := h.stage hwindow home now
  unfold State.storeChunk
  split
  · exact h.setCall True.intro
  · dsimp only
    split
    · exact hstage.setCall True.intro
    · cases populateOnly with
      | true | false => exact hstage.setCall True.intro

theorem deliver {now : Nat} (hstep : s.deliver cfg m now = some s') :
    Sound s' window tag := by
  unfold State.deliver at hstep
  split at hstep
  · rename_i home uploadId chunkKey body populateOnly hcall
    cases hstep
    exact h.storeChunk (h.calls m _ hcall) cfg m now home populateOnly
  · rename_i home uploadId eTag hcall
    cases hstep
    apply (h.takeOut home uploadId).setCall
    constructor
    · exact h.calls m _ hcall
    · intro entry hentry
      exact (h.nodes home).commit hentry
  · rename_i home uploadId hcall
    cases hstep
    exact (h.discard home uploadId).lose m
  · rename_i home chunkKey hcall
    cases hstep
    exact (h.setNode ((h.nodes home).invalidate chunkKey)).lose m
  · cases hstep

theorem uploadPart {result : Option String}
    (hstep : s.uploadPart m result = some s') : Sound s' window tag := by
  unfold State.uploadPart at hstep
  split at hstep
  · rename_i home chunkKey hcall
    cases result with
    | some eTag =>
      cases hstep
      exact h.setCall True.intro
    | none =>
      cases hstep
      exact (h.release home chunkKey).setCall True.intro
  · cases hstep

theorem putNext {wrote : Bool} (hstep : s.putNext cfg m wrote = some s') :
    Sound s' window tag := by
  unfold State.putNext at hstep
  split at hstep
  · cases hstep
    exact h.lose m
  · rename_i home uploadId eTag entry rest hcall
    cases hstep
    rcases h.calls m _ hcall with ⟨htag, hrest⟩
    have hput := h.commitChunk cfg home wrote htag
      (hrest entry List.mem_cons_self)
    apply hput.setCall
    constructor
    · exact htag
    · intro later hlater
      exact hrest later (List.mem_cons_of_mem _ hlater)
  · cases hstep

theorem resend {m' : Nat} (hstep : s.resend m m' = some s') :
    Sound s' window tag := by
  rcases Option.bind_eq_some_iff.mp hstep with ⟨call, hcall, hsend⟩
  split_ifs at hsend with hrequest
  exact h.call hsend (h.calls m call hcall)

theorem crash (cfg : Config) (n : String) :
    Sound (s.crash cfg n) window tag where
  nodes := (h.setNode ((h.nodes n).within (StagingArea.within_new
    (s.nodes n).staging cfg.budgetBytes cfg.ttl))).nodes
  calls := by
    intro m call hcall
    exact h.calls m call (Option.filter_eq_some_iff.mp hcall).left

end

end Sound

end Windows

end Owners

end Daemon
end Pacer
