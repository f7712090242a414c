import Mathlib.Logic.Function.Basic
import Pacer.Cache.Disk
import Pacer.Daemon.ObjectVersion
import Pacer.Daemon.StagingArea
import Pacer.Foundation.Table
import Pacer.Foundation.Transition

/-!
# Staged windows of concurrent writes and reads

Nodes that serve requesters tee the PutObjects of one object, and push the
chunks they read for it to the chunks' homes.  The windows are staged, here or
at a home, under an id that the tee makes of the object's name and a counter of
its process; once S3 has answered, they are committed under the answer's ETag.
Offers, commits and discards travel as messages, which may be delayed or lost.
Processes restart: their counters begin again, and what they sent is still on
its way.

The main result: what a commit makes visible under an ETag are bytes of the
write or read that was answered with it, in every run in which no id is drawn
that is still about.
-/

namespace Pacer
namespace Daemon

open Foundation Function
open Foundation.Transition
open Cache

namespace TeeCluster

structure Config where
  bucket : String
  key : String
  chunk : ChunkConfig
  homes : Nat -> List Nat
  name : Nat -> String
  budgetBytes : Nat
  ttl : Nat

def putId (bucket key : String) (n : Nat) : String :=
  s!"put:{bucket}/{key}:{n}"

def readId (node chunkKey : String) (sequence : Nat) : String :=
  s!"read:{node}:{chunkKey}:{sequence}"

def Config.objectKey (cfg : Config) : String := s!"{cfg.bucket}/{cfg.key}"

/-- Where the bytes of an operation come from: the body of a PutObject, or one
chunk of a read. -/
inductive Source where
  | put (content : Bytes)
  | read (index : Nat) (body : Bytes)
deriving DecidableEq, Repr

def Source.window (cfg : Config) : Source -> Nat -> Option Bytes
  | .put content, index =>
    match cfg.chunk.chunkBounds index content.length with
    | none => none
    | some (lo, hi) => some (span content lo hi)
  | .read only body, index => if index = only then some body else none

inductive Phase where
  | streaming
  | committing
  | notifying (homes : List Nat)
  | discarding
  | withdrawing (homes : List Nat)
  | offered
  | finished
deriving DecidableEq, Repr

/-- A teed PutObject, or a read's populate.  `answer` is the ETag of S3's
answer, without quotes. -/
structure Op where
  node : Nat
  id : String
  source : Source
  homes : List Nat
  tracked : Bool
  answer : Option String
  phase : Phase
deriving DecidableEq, Repr

inductive Message where
  | store (op home index : Nat) (id : String) (body : Bytes)
  | commit (home : Nat) (id eTag : String)
  | discard (home : Nat) (id : String)
deriving DecidableEq, Repr

def Message.id : Message -> String
  | .store _ _ _ id _ => id
  | .commit _ id _ => id
  | .discard _ id => id

structure Node where
  staging : StagingArea Nat
  sequence : Nat
  populateSequence : Nat

def Node.start (cfg : Config) : Node :=
  { staging := StagingArea.new cfg.budgetBytes cfg.ttl,
    sequence := 0,
    populateSequence := 0 }

structure Made where
  node : Nat
  index : Nat
  chunk : CachedChunk
deriving DecidableEq, Repr

structure State where
  nodes : Nat -> Node
  ops : Nat -> Option Op
  net : Nat -> Option Message
  made : List Made

inductive Event where
  | beginPut (w node : Nat) (content : Bytes)
  | skipPut (node : Nat)
  | dispatch (w index m now : Nat)
  | expire (w : Nat)
  | answer (w : Nat) (eTag : String) (tainted : Bool)
  | fail (w : Nat)
  | commitLocal (w : Nat)
  | sendCommit (w m : Nat)
  | discardLocal (w : Nat)
  | sendDiscard (w m : Nat)
  | populate (w node index m : Nat) (body : Bytes) (eTag : String)
  | deliver (m now : Nat) (heard : Bool)
  | lose (m : Nat)
  | reap (node now : Nat)
  | restart (node : Nat)
deriving DecidableEq, Repr

namespace State

def start (cfg : Config) : State :=
  { nodes := fun _ => Node.start cfg,
    ops := fun _ => none,
    net := fun _ => none,
    made := [] }

def setNode (s : State) (n : Nat) (node : Node) : State :=
  { s with nodes := update s.nodes n node }

def setStaging (s : State) (n : Nat) (area : StagingArea Nat) : State :=
  s.setNode n { s.nodes n with staging := area }

def setOp (s : State) (w : Nat) (op : Op) : State :=
  { s with ops := update s.ops w (some op) }

def setPhase (s : State) (w : Nat) (op : Op) (phase : Phase) : State :=
  s.setOp w { op with phase := phase }

def setMessage (s : State) (m : Nat) (message : Option Message) : State :=
  { s with net := update s.net m message }

def publish (s : State) (n : Nat) (eTag : String) (out : List (Nat × Bytes)) :
    State :=
  { s with
    made := s.made ++ out.map fun entry =>
      { node := n, index := entry.1, chunk := ⟨entry.2, some eTag⟩ } }

end State

/-!
## Teed PutObjects
-/

def beginPut (cfg : Config) (s : State) (w node : Nat) (content : Bytes) :
    Option State :=
  match s.ops w with
  | some _ => none
  | none =>
    let process := s.nodes node
    some ((s.setOp w
        { node := node,
          id := putId cfg.bucket cfg.key process.sequence,
          source := .put content,
          homes := [],
          tracked := true,
          answer := none,
          phase := .streaming }).setNode node
      { process with sequence := process.sequence + 1 })

def dispatch (cfg : Config) (s : State) (w index m now : Nat) : Option State :=
  match s.ops w with
  | none => none
  | some op =>
    match op.phase, op.source.window cfg index with
    | .streaming, some body =>
      match (cfg.homes index).head?.filter (· ≠ op.node) with
      | none =>
        some (s.setStaging op.node
          ((s.nodes op.node).staging.tryStageAt index op.id body now).2)
      | some home =>
        if op.tracked then
          match s.net m with
          | some _ => none
          | none =>
            some ((s.setOp w { op with
                homes := if home ∈ op.homes then op.homes
                  else op.homes ++ [home] }).setMessage m
              (some (.store w home index op.id body)))
        else some s
    | _, _ => none

/-- S3 answered with success: the record is taken out, and its windows are
committed, or discarded if the body was not whole. -/
def answer (s : State) (w : Nat) (eTag : String) (tainted : Bool) :
    Option State :=
  match s.ops w with
  | none => none
  | some op =>
    match op.phase, op.answer with
    | .streaming, none =>
      some (s.setOp w { op with
        answer := some (trimQuotes eTag),
        phase := if !op.tracked then .finished
          else if tainted then .discarding else .committing })
    | _, _ => none

def fail (s : State) (w : Nat) : Option State :=
  match s.ops w with
  | none => none
  | some op =>
    match op.phase with
    | .streaming =>
      some (s.setPhase w op
        (if op.tracked then .discarding else .finished))
    | _ => none

def Phase.rest (make : List Nat -> Phase) : List Nat -> Phase
  | [] => .finished
  | homes => make homes

def commitLocal (s : State) (w : Nat) : Option State :=
  match s.ops w with
  | none => none
  | some op =>
    match op.phase, op.answer with
    | .committing, some eTag =>
      match (s.nodes op.node).staging.commit op.id with
      | (out, area) =>
        some (((s.setStaging op.node area).publish op.node eTag
          out).setPhase w op (Phase.rest .notifying op.homes))
    | _, _ => none

def sendCommit (s : State) (w m : Nat) : Option State :=
  match s.ops w, s.net m with
  | some op, none =>
    match op.phase, op.answer with
    | .notifying (home :: homes), some eTag =>
      some ((s.setPhase w op (Phase.rest .notifying homes)).setMessage m
        (some (.commit home op.id eTag)))
    | _, _ => none
  | _, _ => none

def discardLocal (s : State) (w : Nat) : Option State :=
  match s.ops w with
  | none => none
  | some op =>
    match op.phase with
    | .discarding =>
      some ((s.setStaging op.node
          ((s.nodes op.node).staging.discard op.id).2).setPhase w op
        (Phase.rest .withdrawing op.homes))
    | _ => none

def sendDiscard (s : State) (w m : Nat) : Option State :=
  match s.ops w, s.net m with
  | some op, none =>
    match op.phase with
    | .withdrawing (home :: homes) =>
      some ((s.setPhase w op (Phase.rest .withdrawing homes)).setMessage m
        (some (.discard home op.id)))
    | _ => none
  | _, _ => none

/-!
## Populates of a read
-/

/-- Push a chunk that was read here, under the ETag of the read's answer, to its
first home elsewhere. -/
def populate (cfg : Config) (s : State) (w node index m : Nat) (body : Bytes)
    (eTag : String) : Option State :=
  match s.ops w, s.net m, (cfg.homes index).find? (· ≠ node) with
  | none, none, some home =>
    let process := s.nodes node
    let id := readId (cfg.name node) (cfg.chunk.chunkKey cfg.objectKey index)
      process.populateSequence
    some (((s.setOp w
        { node := node,
          id := id,
          source := .read index body,
          homes := [home],
          tracked := true,
          answer := some (trimQuotes eTag),
          phase := .offered }).setNode node { process with
        populateSequence := process.populateSequence + 1 }).setMessage m
      (some (.store w home index id body)))
  | _, _, _ => none

/-- A populate goes on to commit once its window is staged, and ends there if it
was refused or no answer came. -/
def hearBack (s : State) (w home : Nat) (accepted : Bool) : State :=
  match s.ops w with
  | none => s
  | some op =>
    match op.phase with
    | .offered =>
      s.setPhase w op (if accepted then .notifying [home] else .finished)
    | _ => s

/-!
## Homes
-/

def accepted : StageOutcome -> Bool
  | .staged => true
  | .alreadyStaged => true
  | .refused _ => false

/-- A home handles a request; `heard` is whether its answer arrives. -/
def deliver (s : State) (m now : Nat) (heard : Bool) : Option State :=
  match s.net m with
  | none => none
  | some (.store w home index id body) =>
    match (s.nodes home).staging.tryStageAt index id body now with
    | (outcome, area) =>
      some (hearBack ((s.setStaging home area).setMessage m none) w home
        (heard && accepted outcome))
  | some (.commit home id eTag) =>
    match (s.nodes home).staging.commit id with
    | (out, area) =>
      some (((s.setStaging home area).publish home eTag out).setMessage m
        none)
  | some (.discard home id) =>
    some ((s.setStaging home ((s.nodes home).staging.discard id).2).setMessage
      m none)

def lose (s : State) (m : Nat) : Option State :=
  match s.net m with
  | none => none
  | some (.store w home _ _ _) =>
    some (hearBack (s.setMessage m none) w home false)
  | some _ => some (s.setMessage m none)

def restart (cfg : Config) (s : State) (node : Nat) : State :=
  { s with
    nodes := update s.nodes node (Node.start cfg),
    ops := fun w => (s.ops w).map fun op =>
      if op.node = node then { op with phase := .finished } else op }

def step (cfg : Config) (s : State) : Event -> Option State
  | .beginPut w node content => beginPut cfg s w node content
  | .skipPut node =>
    some (s.setNode node
      { s.nodes node with sequence := (s.nodes node).sequence + 1 })
  | .dispatch w index m now => dispatch cfg s w index m now
  | .expire w =>
    match s.ops w with
    | none => none
    | some op => some (s.setOp w { op with tracked := false })
  | .answer w eTag tainted => answer s w eTag tainted
  | .fail w => fail s w
  | .commitLocal w => commitLocal s w
  | .sendCommit w m => sendCommit s w m
  | .discardLocal w => discardLocal s w
  | .sendDiscard w m => sendDiscard s w m
  | .populate w node index m body eTag =>
    populate cfg s w node index m body eTag
  | .deliver m now heard => deliver s m now heard
  | .lose m => lose s m
  | .reap node now =>
    some (s.setStaging node ((s.nodes node).staging.reapAt now).2)
  | .restart node => some (restart cfg s node)

/-!
## Who an id belongs to
-/

def Window (cfg : Config) (s : State) (w index : Nat) (body : Bytes) : Prop :=
  exists op, s.ops w = some op ∧ op.source.window cfg index = some body

def Answered (s : State) (w : Nat) (eTag : String) : Prop :=
  exists op, s.ops w = some op ∧ op.answer = some eTag

/-- The id is still about: at a staged window, on a request, or with an
operation that is not through. -/
def Carried (s : State) (id : String) : Prop :=
  (exists n k staged, (s.nodes n).staging.pending.lookup k = some staged ∧
      staged.uploadId = id) ∨
    (exists m message, s.net m = some message ∧ message.id = id) ∨
    exists w op, s.ops w = some op ∧ op.id = id ∧ op.phase ≠ .finished

/-- A write or a populate draws an id that is not about. -/
def FreshIds (cfg : Config) (s : State) : Event -> Prop
  | .beginPut _ node _ =>
    ¬ Carried s (putId cfg.bucket cfg.key (s.nodes node).sequence)
  | .populate _ node index _ _ _ =>
    ¬ Carried s (readId (cfg.name node)
      (cfg.chunk.chunkKey cfg.objectKey index)
      (s.nodes node).populateSequence)
  | _ => True

def MadeOf (cfg : Config) (s : State) (entry : Made) : Prop :=
  exists w eTag, Answered s w eTag ∧ entry.chunk.eTag = some eTag ∧
    Window cfg s w entry.index entry.chunk.body

structure Owned (cfg : Config) (owner : String -> Nat) (s : State) : Prop where
  staged : forall n k staged,
    (s.nodes n).staging.pending.lookup k = some staged ->
    Window cfg s (owner staged.uploadId) k staged.body
  offers : forall m w home k id body,
    s.net m = some (.store w home k id body) -> Window cfg s (owner id) k body
  commits : forall m home id eTag, s.net m = some (.commit home id eTag) ->
    Answered s (owner id) eTag
  active : forall w op, s.ops w = some op -> op.phase ≠ .finished ->
    owner op.id = w
  made : forall entry, entry ∈ s.made -> MadeOf cfg s entry

theorem owned_start (cfg : Config) (owner : String -> Nat) :
    Owned cfg owner (State.start cfg) := by
  constructor
  · intro n k staged hstaged
    change AList.lookup k (∅ : AList fun _ : Nat => Staged) = some staged
      at hstaged
    rw [AList.lookup_empty] at hstaged
    cases hstaged
  · intro m w home k id body hnet
    cases hnet
  · intro m home id eTag hnet
    cases hnet
  · intro w op hop
    cases hop
  · intro entry hentry
    cases hentry

/-!
## State updates
-/

def Grows (s s' : State) : Prop :=
  forall w op, s.ops w = some op -> exists op', s'.ops w = some op' ∧
    op'.source = op.source ∧
    forall eTag, op.answer = some eTag -> op'.answer = some eTag

variable {body : Bytes} {id : String} {n m : Nat}

variable {index : Nat} {eTag : String}

section Growth

variable {cfg : Config} {s s' : State} {w : Nat}

theorem Window.grows (hgrows : Grows s s') (h : Window cfg s w index body) :
    Window cfg s' w index body := by
  rcases h with ⟨op, hop, hwindow⟩
  rcases hgrows w op hop with ⟨op', hop', hsource, _⟩
  rw [← hsource] at hwindow
  exact ⟨op', hop', hwindow⟩

theorem Answered.grows (hgrows : Grows s s') (h : Answered s w eTag) :
    Answered s' w eTag := by
  rcases h with ⟨op, hop, hanswer⟩
  rcases hgrows w op hop with ⟨op', hop', _, hkept⟩
  exact ⟨op', hop', hkept eTag hanswer⟩

theorem MadeOf.grows {entry : Made} (hgrows : Grows s s')
    (h : MadeOf cfg s entry) : MadeOf cfg s' entry := by
  rcases h with ⟨w, eTag, hanswer, heTag, hwindow⟩
  exact ⟨w, eTag, hanswer.grows hgrows, heTag, hwindow.grows hgrows⟩

theorem grows_setOp {op op' : Op} (hop : s.ops w = some op)
    (hsource : op'.source = op.source)
    (hanswer : forall eTag, op.answer = some eTag -> op'.answer = some eTag) :
    Grows s (s.setOp w op') := by
  intro other found hfound
  change exists kept, update s.ops w (some op') other = some kept ∧ _
  rcases eq_or_ne other w with rfl | hne
  · rw [update_self]
    rw [hop] at hfound
    cases hfound
    exact ⟨op', rfl, hsource, hanswer⟩
  · rw [update_of_ne hne]
    exact ⟨found, hfound, rfl, fun _ h => h⟩

theorem grows_setOp_new {op : Op} (hnew : s.ops w = none) :
    Grows s (s.setOp w op) := by
  intro other found hfound
  have hne : other ≠ w := by
    intro heq
    rw [heq, hnew] at hfound
    cases hfound
  refine ⟨found, ?_, rfl, fun _ h => h⟩
  exact (update_of_ne hne _ s.ops).trans hfound

end Growth

namespace Owned

variable {cfg : Config} {owner : String -> Nat} {s s' : State} {w : Nat}
  {op : Op} (h : Owned cfg owner s)

include h

theorem setNode {node : Node} (hstaged : forall k staged,
      node.staging.pending.lookup k = some staged ->
      Window cfg s (owner staged.uploadId) k staged.body) :
    Owned cfg owner (s.setNode n node) := by
  refine ⟨?_, h.offers, h.commits, h.active, h.made⟩
  intro other k staged hlookup
  change (update s.nodes n node other).staging.pending.lookup k = _
    at hlookup
  rcases eq_or_ne other n with rfl | hne
  · rw [update_self] at hlookup
    exact hstaged k staged hlookup
  · rw [update_of_ne hne] at hlookup
    exact h.staged other k staged hlookup

theorem count {node : Node} (hsame : node.staging = (s.nodes n).staging) :
    Owned cfg owner (s.setNode n node) := by
  apply h.setNode
  rw [hsame]
  exact h.staged n

theorem setStaging {area : StagingArea Nat}
    (hwithin : StagingArea.Within area (s.nodes n).staging) :
    Owned cfg owner (s.setStaging n area) := by
  apply h.setNode
  intro k staged hlookup
  exact h.staged n k staged (hwithin k staged hlookup)

theorem stage {n now : Nat} (hwindow : Window cfg s (owner id) index body) :
    Owned cfg owner (s.setStaging n
      ((s.nodes n).staging.tryStageAt index id body now).2) := by
  apply h.setNode
  intro k staged hlookup
  rcases StagingArea.lookup_tryStageAt hlookup with hold | ⟨rfl, rfl⟩
  · exact h.staged n k staged hold
  · exact hwindow

theorem dropMessage (m : Nat) : Owned cfg owner (s.setMessage m none) := by
  have hnet : forall {other : Nat} {message : Message},
      (s.setMessage m none).net other = some message ->
      s.net other = some message := by
    intro other message hmessage
    change update s.net m none other = some message at hmessage
    rw [update_apply] at hmessage
    split at hmessage
    · cases hmessage
    · exact hmessage
  refine ⟨h.staged, ?_, ?_, h.active, h.made⟩
  · intro other w home k id body hmessage
    exact h.offers other w home k id body (hnet hmessage)
  · intro other home id eTag hmessage
    exact h.commits other home id eTag (hnet hmessage)

theorem send {message : Message}
    (hoffer : forall w home k id body, message = .store w home k id body ->
      Window cfg s (owner id) k body)
    (hcommit : forall home id eTag, message = .commit home id eTag ->
      Answered s (owner id) eTag) :
    Owned cfg owner (s.setMessage m (some message)) := by
  refine ⟨h.staged, ?_, ?_, h.active, h.made⟩
  · intro other w home k id body hmessage
    change update s.net m (some message) other = _ at hmessage
    rw [update_apply] at hmessage
    split at hmessage
    · exact hoffer w home k id body (Option.some.inj hmessage)
    · exact h.offers other w home k id body hmessage
  · intro other home id eTag hmessage
    change update s.net m (some message) other = _ at hmessage
    rw [update_apply] at hmessage
    split at hmessage
    · exact hcommit home id eTag (Option.some.inj hmessage)
    · exact h.commits other home id eTag hmessage

variable {home : Nat}

theorem sendOffer {m : Nat} (hwindow : Window cfg s (owner id) index body) :
    Owned cfg owner (s.setMessage m (some (.store w home index id body))) := by
  apply h.send
  · intro sender home' k id' body' heq
    cases heq
    exact hwindow
  · intro home' id' eTag heq
    cases heq

theorem sendCommit {m : Nat} {id : String}
    (hanswered : Answered s (owner id) eTag) :
    Owned cfg owner (s.setMessage m (some (.commit home id eTag))) := by
  apply h.send
  · intro sender home' k id' body heq
    cases heq
  intro home' id' eTag' heq
  cases heq
  exact hanswered

theorem sendDiscard {m : Nat} :
    Owned cfg owner (s.setMessage m (some (.discard home id))) := by
  apply h.send
  · intro sender home' k id' body heq
    cases heq
  · intro home' id' eTag heq
    cases heq

theorem grow (hgrows : Grows s s') (hnodes : s'.nodes = s.nodes)
    (hnet : s'.net = s.net) (hmade : s'.made = s.made)
    (hactive : forall w op, s'.ops w = some op -> op.phase ≠ .finished ->
      owner op.id = w) : Owned cfg owner s' := by
  constructor
  · rw [hnodes]
    intro n k staged hlookup
    exact (h.staged n k staged hlookup).grows hgrows
  · rw [hnet]
    intro m w home k id body hmessage
    exact (h.offers m w home k id body hmessage).grows hgrows
  · rw [hnet]
    intro m home id eTag hmessage
    exact (h.commits m home id eTag hmessage).grows hgrows
  · exact hactive
  · rw [hmade]
    intro entry hentry
    exact (h.made entry hentry).grows hgrows

theorem setOp {op' : Op} (hop : s.ops w = some op)
    (hsource : op'.source = op.source)
    (hanswer : forall eTag, op.answer = some eTag -> op'.answer = some eTag)
    (hid : op'.id = op.id)
    (hactive : op'.phase ≠ .finished -> op.phase ≠ .finished) :
    Owned cfg owner (s.setOp w op') := by
  refine h.grow (grows_setOp hop hsource hanswer) rfl rfl rfl ?_
  intro other found hfound hphase
  rcases Table.update_cases hfound with ⟨rfl, heq⟩ | ⟨_, hold⟩
  · cases heq
    rw [hid]
    exact h.active other op hop (hactive hphase)
  · exact h.active other found hold hphase

theorem setPhase {phase : Phase} (hop : s.ops w = some op)
    (hactive : op.phase ≠ .finished) :
    Owned cfg owner (s.setPhase w op phase) :=
  h.setOp hop rfl (fun _ hanswer => hanswer) rfl (fun _ => hactive)

theorem draw (hnew : s.ops w = none) (hid : op.id = id)
    (hfree : ¬ Carried s id) :
    Owned cfg (update owner id w) (s.setOp w op) := by
  have hgrows : Grows s (s.setOp w op) := grows_setOp_new hnew
  have hother : forall {other : String}, Carried s other ->
      update owner id w other = owner other := by
    intro other hcarried
    refine update_of_ne ?_ w owner
    intro heq
    rw [heq] at hcarried
    exact hfree hcarried
  constructor
  · intro n k staged hlookup
    rw [hother (Or.inl ⟨n, k, staged, hlookup, rfl⟩)]
    exact (h.staged n k staged hlookup).grows hgrows
  · intro m sender home k used body hmessage
    have hcarried : Carried s used := Or.inr (Or.inl ⟨m, _, hmessage, rfl⟩)
    rw [hother hcarried]
    exact (h.offers m sender home k used body hmessage).grows hgrows
  · intro m home used eTag hmessage
    have hcarried : Carried s used := Or.inr (Or.inl ⟨m, _, hmessage, rfl⟩)
    rw [hother hcarried]
    exact (h.commits m home used eTag hmessage).grows hgrows
  · intro other found hfound hphase
    rcases Table.update_cases hfound with ⟨rfl, heq⟩ | ⟨_, hold⟩
    · cases heq
      rw [hid]
      exact update_self id other owner
    · rw [hother (Or.inr (Or.inr ⟨other, found, hold, rfl, hphase⟩))]
      exact h.active other found hold hphase
  · intro entry hentry
    exact (h.made entry hentry).grows hgrows

theorem commit {id : String} (hanswered : Answered s (owner id) eTag) :
    Owned cfg owner ((s.setStaging n
      ((s.nodes n).staging.commit id).2).publish n eTag
      ((s.nodes n).staging.commit id).1) := by
  have hbase := h.setStaging
    (StagingArea.within_commit (s.nodes n).staging id)
  refine ⟨hbase.staged, hbase.offers, hbase.commits, hbase.active, ?_⟩
  intro entry hentry
  rcases List.mem_append.mp hentry with hold | hnew
  · exact hbase.made entry hold
  · rcases List.mem_map.mp hnew with ⟨⟨k, body⟩, hout, rfl⟩
    rcases StagingArea.mem_commit hout with ⟨staged, hlookup, rfl, rfl⟩
    exact ⟨owner staged.uploadId, eTag, hanswered, rfl,
      h.staged n k staged hlookup⟩

/-!
## Steps
-/

theorem beginPut {node : Nat} {content : Bytes}
    (hguard : FreshIds cfg s (.beginPut w node content))
    (hstep : TeeCluster.beginPut cfg s w node content = some s') :
    exists owner', Owned cfg owner' s' := by
  unfold TeeCluster.beginPut at hstep
  split at hstep
  · cases hstep
  rename_i hnew
  cases hstep
  exists update owner
    (putId cfg.bucket cfg.key (s.nodes node).sequence) w
  refine Owned.count ?_ rfl
  exact h.draw hnew rfl hguard

theorem dispatch {m now : Nat}
    (hstep : TeeCluster.dispatch cfg s w index m now = some s') :
    Owned cfg owner s' := by
  unfold TeeCluster.dispatch at hstep
  split at hstep
  · cases hstep
  rename_i op hop
  split at hstep
  · rename_i body hphase hbody
    have hactive : op.phase ≠ .finished := by
      rw [hphase]
      exact nofun
    have howner := h.active w op hop hactive
    split at hstep
    · cases hstep
      apply h.stage
      rw [howner]
      exact ⟨op, hop, hbody⟩
    · split at hstep
      · split at hstep
        · cases hstep
        cases hstep
        apply Owned.sendOffer
        · exact h.setOp hop rfl (fun _ hanswer => hanswer) rfl id
        · rw [howner]
          exact ⟨_, update_self w _ s.ops, hbody⟩
      · cases hstep
        exact h
  · cases hstep

theorem answer {tainted : Bool}
    (hstep : TeeCluster.answer s w eTag tainted = some s') :
    Owned cfg owner s' := by
  unfold TeeCluster.answer at hstep
  split at hstep
  · cases hstep
  rename_i op hop
  split at hstep
  · rename_i hphase hanswer
    cases hstep
    refine h.setOp hop rfl ?_ rfl ?_
    · intro old hold
      rw [hanswer] at hold
      cases hold
    intro _
    rw [hphase]
    exact nofun
  · cases hstep

theorem fail (hstep : TeeCluster.fail s w = some s') : Owned cfg owner s' := by
  unfold TeeCluster.fail at hstep
  split at hstep
  · cases hstep
  rename_i op hop
  split at hstep
  · rename_i hphase
    cases hstep
    apply h.setPhase hop
    rw [hphase]
    exact nofun
  · cases hstep

theorem commitLocal (hstep : TeeCluster.commitLocal s w = some s') :
    Owned cfg owner s' := by
  unfold TeeCluster.commitLocal at hstep
  split at hstep
  · cases hstep
  rename_i op hop
  split at hstep
  · rename_i eTag hphase hanswer
    have hactive : op.phase ≠ .finished := by
      rw [hphase]
      exact nofun
    have hanswered : Answered s (owner op.id) eTag := by
      rw [h.active w op hop hactive]
      exact ⟨op, hop, hanswer⟩
    cases hstep
    exact (h.commit hanswered).setPhase hop hactive
  · cases hstep

theorem notify (hstep : TeeCluster.sendCommit s w m = some s') :
    Owned cfg owner s' := by
  unfold TeeCluster.sendCommit at hstep
  split at hstep
  · rename_i op hop _
    split at hstep
    · rename_i home homes eTag hphase hanswer
      have hactive : op.phase ≠ .finished := by
        rw [hphase]
        exact nofun
      cases hstep
      apply (h.setPhase hop hactive).sendCommit
      rw [h.active w op hop hactive]
      exact ⟨_, update_self w _ s.ops, hanswer⟩
    · cases hstep
  · cases hstep

theorem discardLocal (hstep : TeeCluster.discardLocal s w = some s') :
    Owned cfg owner s' := by
  unfold TeeCluster.discardLocal at hstep
  split at hstep
  · cases hstep
  rename_i op hop
  split at hstep
  · rename_i hphase
    cases hstep
    have hdropped := h.setStaging
      (StagingArea.within_discard (s.nodes op.node).staging op.id)
    apply hdropped.setPhase hop
    rw [hphase]
    exact nofun
  · cases hstep

theorem withdraw (hstep : TeeCluster.sendDiscard s w m = some s') :
    Owned cfg owner s' := by
  unfold TeeCluster.sendDiscard at hstep
  split at hstep
  · rename_i op hop _
    split at hstep
    · rename_i home homes hphase
      cases hstep
      apply Owned.sendDiscard
      apply h.setPhase hop
      rw [hphase]
      exact nofun
    · cases hstep
  · cases hstep

theorem populate {node m : Nat}
    (hguard : FreshIds cfg s (.populate w node index m body eTag))
    (hstep : TeeCluster.populate cfg s w node index m body eTag = some s') :
    exists owner', Owned cfg owner' s' := by
  unfold TeeCluster.populate at hstep
  split at hstep
  · rename_i home hnew _ _
    cases hstep
    exists update owner (readId (cfg.name node)
      (cfg.chunk.chunkKey cfg.objectKey index)
      (s.nodes node).populateSequence) w
    apply Owned.sendOffer
    · refine Owned.count ?_ rfl
      exact h.draw hnew rfl hguard
    · rw [update_self]
      exact ⟨_, update_self w _ s.ops, if_pos rfl⟩
  · cases hstep

theorem hearBack {accepted : Bool} :
    Owned cfg owner (TeeCluster.hearBack s w home accepted) := by
  unfold TeeCluster.hearBack
  split
  · exact h
  · rename_i op hop
    split
    · rename_i hphase
      apply h.setPhase hop
      rw [hphase]
      exact nofun
    · exact h

theorem deliver {m now : Nat} {heard : Bool}
    (hstep : TeeCluster.deliver s m now heard = some s') :
    Owned cfg owner s' := by
  unfold TeeCluster.deliver at hstep
  split at hstep
  · cases hstep
  · rename_i sender home index id body hmessage
    cases hstep
    have hwindow := h.offers m sender home index id body hmessage
    apply Owned.hearBack
    apply Owned.dropMessage
    exact h.stage hwindow
  · rename_i home id eTag hmessage
    cases hstep
    exact (h.commit (h.commits m home id eTag hmessage)).dropMessage m
  · rename_i home id hmessage
    cases hstep
    exact (h.setStaging (StagingArea.within_discard _ id)).dropMessage m

theorem lose (hstep : TeeCluster.lose s m = some s') :
    Owned cfg owner s' := by
  unfold TeeCluster.lose at hstep
  split at hstep
  · cases hstep
  · cases hstep
    exact (h.dropMessage m).hearBack
  · cases hstep
    exact h.dropMessage m

theorem restart (node : Nat) :
    Owned cfg owner (TeeCluster.restart cfg s node) := by
  have hfresh : Owned cfg owner (s.setNode node (Node.start cfg)) := by
    apply h.setNode
    intro k staged hlookup
    exact h.staged node k staged
      (StagingArea.within_new _ cfg.budgetBytes cfg.ttl k staged hlookup)
  refine hfresh.grow ?_ rfl rfl rfl ?_
  · intro w op hop
    refine ⟨if op.node = node then { op with phase := .finished } else op,
      ?_, ?_, ?_⟩
    · change (s.ops w).map _ = _
      rw [show s.ops w = some op from hop]
      rfl
    · split <;> rfl
    · intro eTag heTag
      split <;> exact heTag
  · intro w op hop hphase
    rcases Option.map_eq_some_iff.mp hop with ⟨old, hold, hmapped⟩
    split at hmapped
    · rw [← hmapped] at hphase
      exact absurd rfl hphase
    · rw [← hmapped]
      rw [← hmapped] at hphase
      exact h.active w old hold hphase

theorem step {e : Event} (hguard : FreshIds cfg s e)
    (hstep : TeeCluster.step cfg s e = some s') :
    exists owner', Owned cfg owner' s' := by
  cases e <;> simp only [TeeCluster.step] at hstep
  case beginPut w node content => exact h.beginPut hguard hstep
  case skipPut node =>
    cases hstep
    exact ⟨owner, h.count rfl⟩
  case dispatch w index m now => exact ⟨owner, h.dispatch hstep⟩
  case expire w =>
    split at hstep
    · cases hstep
    rename_i op hop
    cases hstep
    exact ⟨owner, h.setOp hop rfl (fun _ hanswer => hanswer) rfl id⟩
  case answer w eTag tainted => exact ⟨owner, h.answer hstep⟩
  case fail w => exact ⟨owner, h.fail hstep⟩
  case commitLocal w => exact ⟨owner, h.commitLocal hstep⟩
  case sendCommit w m => exact ⟨owner, h.notify hstep⟩
  case discardLocal w => exact ⟨owner, h.discardLocal hstep⟩
  case sendDiscard w m => exact ⟨owner, h.withdraw hstep⟩
  case populate w node index m body eTag => exact h.populate hguard hstep
  case deliver m now heard => exact ⟨owner, h.deliver hstep⟩
  case lose m => exact ⟨owner, h.lose hstep⟩
  case reap node now =>
    cases hstep
    exact ⟨owner, h.setStaging (StagingArea.within_reapAt _ now)⟩
  case restart node =>
    cases hstep
    exact ⟨owner, h.restart node⟩

end Owned

/-- Every chunk a commit made visible holds bytes of the write or read that S3
answered with the chunk's ETag. -/
theorem staged_windows_never_mix {cfg : Config} {events : List Event}
    {final : State}
    (hguard : Along (step cfg) (FreshIds cfg) (State.start cfg) events)
    (hrun : run (step cfg) (State.start cfg) events = some final)
    {entry : Made} (hmade : entry ∈ final.made) :
    exists w op eTag, final.ops w = some op ∧ op.answer = some eTag ∧
      entry.chunk.eTag = some eTag ∧
      op.source.window cfg entry.index = some entry.chunk.body := by
  have hkeeps : forall s e s', (exists owner, Owned cfg owner s) ->
      FreshIds cfg s e -> step cfg s e = some s' ->
      exists owner, Owned cfg owner s' := by
    intro s e s' howned hfresh hstep
    rcases howned with ⟨owner, howned⟩
    exact howned.step hfresh hstep
  rcases run_preserves hkeeps ⟨fun _ => 0, owned_start cfg _⟩ hguard hrun with
    ⟨owner, howned⟩
  rcases howned.made entry hmade with
    ⟨w, eTag, ⟨op, hop, hanswer⟩, heTag, ⟨op', hop', hwindow⟩⟩
  rw [hop] at hop'
  cases hop'
  exact ⟨w, op, eTag, hop, hanswer, heTag, hwindow⟩

/-!
## Two writers of one object
-/

def threeNodes : Config :=
  { bucket := "bucket",
    key := "key",
    chunk := { chunkSize := 1, positive := Nat.one_pos },
    homes := fun _ => [2],
    name := fun n => toString n,
    budgetBytes := 8,
    ttl := 900 }

def tees (w node m : Nat) (content : Bytes) : List Event :=
  [.beginPut w node content, .dispatch w 0 m 0, .deliver m 0 true]

def commits (w m : Nat) (eTag : String) : List Event :=
  [.answer w eTag false, .commitLocal w, .sendCommit w m, .deliver m 0 true]

/-- Two writers with ids of their own, whose windows cross on the way to the
home: of each chunk it stages the window that comes first. -/
def crossingWriters : List Event :=
  [.skipPut 1, .beginPut 0 0 [1, 1], .dispatch 0 0 0 0, .beginPut 1 1 [2, 2],
    .dispatch 1 0 1 0, .deliver 1 0 true, .deliver 0 0 true, .dispatch 0 1 2 0,
    .dispatch 1 1 3 0, .deliver 2 0 true, .deliver 3 0 true] ++
    commits 1 4 "2" ++ commits 0 5 "1"

theorem along_crossingWriters :
    Along (step threeNodes) (FreshIds threeNodes) (State.start threeNodes)
      crossingWriters := by
  refine along_cons_of_step trivial rfl ?_
  refine along_cons_of_step ?_ rfl ?_
  · rintro (⟨n, k, staged, hlookup, _⟩ | ⟨m, message, hnet, _⟩ |
      ⟨w, op, hop, _⟩)
    · rcases n with _ | _ | n <;> cases hlookup
    · cases hnet
    · cases hop
  refine along_cons_of_step trivial rfl ?_
  -- The second writer draws its id while the first one's window is on its way.
  refine along_cons_of_step ?_ rfl ?_
  · rintro (⟨n, k, staged, hlookup, _⟩ | ⟨m, message, hnet, hid⟩ |
      ⟨w, op, hop, hid, _⟩)
    · rcases n with _ | _ | n <;> cases hlookup
    · rcases m with _ | m
      · cases hnet
        revert hid
        decide
      · cases hnet
    · rcases w with _ | w
      · cases hop
        revert hid
        decide
      · cases hop
  iterate 14 apply along_cons_of_step trivial rfl
  exact along_cons_of_step trivial rfl trivial

theorem staged_windows_never_mix_crossing : exists final first second,
    run (step threeNodes) (State.start threeNodes) crossingWriters =
      some final ∧
    final.made = [first, second] ∧ first.chunk.eTag ≠ second.chunk.eTag ∧
    forall entry, entry ∈ final.made ->
      exists w op eTag, final.ops w = some op ∧ op.answer = some eTag ∧
        entry.chunk.eTag = some eTag ∧
        op.source.window threeNodes entry.index = some entry.chunk.body := by
  refine ⟨_, _, _, rfl, rfl, by decide, ?_⟩
  intro entry hentry
  exact staged_windows_never_mix along_crossingWriters rfl hentry

/-- Two nodes tee a write of the object, each its first, under one id.  The home
keeps the window of the one and commits it under the ETag of the other. -/
theorem colliding_ids_mix : exists final entry,
    run (step threeNodes) (State.start threeNodes)
      (tees 0 0 0 [1] ++ tees 1 1 1 [2] ++ commits 1 2 "2") = some final ∧
    final.made = [entry] ∧
    ¬ exists w op eTag, final.ops w = some op ∧ op.answer = some eTag ∧
      entry.chunk.eTag = some eTag ∧
      op.source.window threeNodes entry.index = some entry.chunk.body := by
  refine ⟨_, _, rfl, rfl, ?_⟩
  intro hsource
  rcases hsource with ⟨w, op, eTag, hop, hanswer, _, hwindow⟩
  rcases w with _ | _ | w
  · cases hop
    cases hanswer
  · cases hop
    revert hwindow
    decide
  · cases hop

end TeeCluster

end Daemon
end Pacer
