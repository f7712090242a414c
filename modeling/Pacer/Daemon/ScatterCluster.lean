import Pacer.Daemon.Owners
import Pacer.Daemon.ScatterPublish
import Pacer.Foundation.Transition

/-!
# Scattered writes in a cluster

Any number of scattered writes run at once, each from its own coordinator.  The
body comes in frame by frame, every window is uploaded by a task of its own, at
its home or at the coordinator, and once all are joined the object is completed.
Then the coordinator publishes: it drops stale co-homes' copies, has the owners
commit and commits its own windows.  If anything fails before, it unwinds.

Tasks, owners' handlers and calls move independently: offers are refused or sent
twice, answers are lost or come late, a task that was aborted may still take a
few steps, areas are reaped, processes crash, and a write's future is dropped
anywhere.  Every
upload id is new when S3 gives it out.  Other uploads stage and commit in the
same areas, under ids of their own, and reads fill and invalidations clear the
same tiers.  A write's header is not followed here.
-/

namespace Pacer
namespace Daemon

open Foundation
open Foundation.Transition
open Foundation.Table
open Cache
open Cluster

namespace ScatterCluster

open Scatter
open ScatterPublish (staleCoHomes distinctOwners)
open Owners (Copy Call CallOk)

structure Config where
  owners : Owners.Config
  chunk : ChunkConfig
  checksum : Bytes -> String

/-- Where a window's task is: spawned, waiting for its home's answer, about to
upload here, uploading here, and through.  A task that is gone was joined or
aborted. -/
inductive Progress where
  | spawned
  | offered (m : Nat)
  | here
  | uploading (staged : Bool)
  | done (part : DonePart)
  | failed
  | gone
deriving DecidableEq

inductive Phase where
  | reading
  | joining
  | completing
  | invalidating (targets : List (NodeId × String))
  | notifying (owners : List NodeId)
  | committing (rest : List (String × Bytes))
  | returned
  | unwinding (error : ScatterError)
  | withdrawing (error : ScatterError) (homes : List NodeId)
  | failed (error : ScatterError)
  | dropped
deriving DecidableEq

/-- A scattered write.  `content` is the body read so far, `completed` the ETag
S3 assembled the object under, if it did, and `answered` the one Complete
returned. -/
structure Upload where
  node : String
  target : ScatterTarget
  plan : ScatterPlan
  content : Bytes
  pipe : Pipeline
  progress : Nat -> Progress
  parts : List DonePart
  completed : Option String
  answered : Option String
  phase : Phase

namespace Upload

def setProgress (up : Upload) (i : Nat) (progress : Progress) : Upload :=
  { up with progress := Function.update up.progress i progress }

def setPhase (up : Upload) (phase : Phase) : Upload :=
  { up with phase := phase }

def fail (up : Upload) (failure : Failure) : Upload :=
  up.setPhase (.unwinding (.failed failure))

def allJoined (up : Upload) : Bool :=
  (List.range up.pipe.tasks.length).all fun i => up.progress i == .gone

def offeredHomes (up : Upload) : List NodeId :=
  (up.plan.windows.filterMap (·.homes.head?)).foldl (fun homes home =>
    if home.name == up.node || homes.any (·.name == home.name) then homes
    else homes ++ [home]) []

end Upload

structure State where
  owners : Owners.State
  uploads : String -> Option Upload
  others : List String

namespace State

def start (cfg : Config) (held : String -> String -> Option CachedChunk) :
    State :=
  { owners := Owners.State.start cfg.owners held,
    uploads := fun _ => none,
    others := [] }

def set (s : State) (id : String) (up : Upload) (owners : Owners.State) :
    State :=
  { s with owners := owners, uploads := Function.update s.uploads id (some up) }

def setUpload (s : State) (id : String) (up : Upload) : State :=
  s.set id up s.owners

def setOwners (s : State) (owners : Owners.State) : State :=
  { s with owners := owners }

def other (s : State) (id : String) (owners : Owners.State) : Option State :=
  match s.uploads id with
  | some _ => none
  | none => some { s with owners := owners, others := id :: s.others }

end State

inductive Event where
  | create (id node : String) (target : ScatterTarget)
      (homes : String -> List NodeId)
  | frame (id : String) (bytes : Bytes)
  | cut (id : String)
  | endBody (id : String)
  | breakBody (id : String)
  | offer (id : String) (i m : Nat)
  | keep (id : String) (i : Nat)
  | hear (id : String) (i : Nat)
  | giveUp (id : String) (i : Nat)
  | stageHere (id : String) (i now : Nat)
  | uploadHere (id : String) (i : Nat) (result : Option (Option String))
  | failTask (id : String) (i : Nat)
  | abort (id : String) (i : Nat)
  | join (id : String) (i : Nat)
  | allJoined (id : String)
  | complete (id : String) (assembled : Option String) (heard : Bool)
  | invalidate (id : String) (m : Nat)
  | notify (id : String) (m : Nat)
  | putHere (id : String) (wrote : Bool)
  | unwind (id : String)
  | withdraw (id : String) (m : Nat)
  | drop (id : String)
  | deliver (m now : Nat)
  | uploadPart (m : Nat) (result : Option String)
  | putNext (m : Nat) (wrote : Bool)
  | resend (m m' : Nat)
  | lose (m : Nat)
  | reap (n : String) (now : Nat)
  | crash (n : String)
  | fill (n chunkKey : String) (chunk : CachedChunk)
  | forget (n chunkKey : String)
  | otherStage (n id chunkKey : String) (body : Bytes) (now : Nat)
  | otherCall (m : Nat) (id : String) (call : Call)

/-!
## Reading the body
-/

def create (cfg : Config) (s : State) (id node : String)
    (target : ScatterTarget) (homes : String -> List NodeId) : Option State :=
  match s.uploads id with
  | some _ => none
  | none =>
    if id ∈ s.others then none
    else
      some (s.setUpload id
        { node := node,
          target := target,
          plan := ScatterPlan.build homes cfg.chunk target.objectKey
            target.objectLen,
          content := [],
          pipe := { splitter := WindowSplitter.new cfg.chunk.chunkSize
                      cfg.chunk.positive,
                    tasks := [], next := 0 },
          progress := fun _ => .spawned,
          parts := [],
          completed := none,
          answered := none,
          phase := .reading })

def frame (s : State) (id : String) (bytes : Bytes) : Option State :=
  (s.uploads id).bind fun up =>
    match up.phase, up.pipe.splitter.takeWindow with
    | .reading, none =>
      some (s.setUpload id { up with
        content := up.content ++ bytes,
        pipe := { up.pipe with
          splitter := up.pipe.splitter.push bytes } })
    | _, _ => none

def Upload.dispatched (up : Upload) (phase : Phase) :
    Except Failure Pipeline -> Upload
  | .error failure => up.fail failure
  | .ok pipe => { up with pipe := pipe, phase := phase }

def cut (s : State) (id : String) : Option State :=
  (s.uploads id).bind fun up =>
    match up.phase, up.pipe.splitter.takeWindow with
    | .reading, some (window, splitter) =>
      some (s.setUpload id (up.dispatched .reading
        (dispatch up.plan window { up.pipe with splitter := splitter })))
    | _, _ => none

def endBody (s : State) (id : String) : Option State :=
  (s.uploads id).bind fun up =>
    match up.phase, up.pipe.splitter.takeWindow with
    | .reading, none =>
      some (s.setUpload id (up.dispatched .joining
        (dispatchTail up.plan up.pipe)))
    | _, _ => none

def breakBody (s : State) (id : String) : Option State :=
  (s.uploads id).bind fun up =>
    match up.phase with
    | .reading => some (s.setUpload id (up.fail .readingBody))
    | _ => none

/-!
## A window's task
-/

def State.task (s : State) (id : String) (i : Nat) :
    Option (Upload × PlannedWindow × Bytes) :=
  (s.uploads id).bind fun up =>
    (up.pipe.tasks[i]?).map fun task => (up, task)

def offer (s : State) (id : String) (i m : Nat) : Option State :=
  (s.task id i).bind fun (up, planned, body) =>
    match up.progress i, planned.homes.head? with
    | .spawned, some home =>
      if home.name = up.node then none
      else
        (s.owners.call m (.store home.name id planned.chunkKey body
          false)).map (s.set id (up.setProgress i (.offered m)))
    | _, _ => none

def keep (s : State) (id : String) (i : Nat) : Option State :=
  (s.task id i).bind fun (up, _, _) =>
    match up.progress i with
    | .spawned => some (s.setUpload id (up.setProgress i .here))
    | _ => none

def afterOffer (planned : PlannedWindow) (body : Bytes) :
    Option StoreOutcome -> Progress
  | some (.uploaded eTag) =>
    .done { partNumber := planned.partNumber, eTag := eTag,
            owner := planned.homes.head?, staged := true, digest := body }
  | _ => .here

def hear (s : State) (id : String) (i : Nat) : Option State :=
  (s.task id i).bind fun (up, planned, body) =>
    match up.progress i with
    | .offered m =>
      match s.owners.calls m with
      | some (.answered outcome) =>
        some (s.set id (up.setProgress i (afterOffer planned body outcome))
          (s.owners.lose m))
      | _ => none
    | _ => none

def giveUp (s : State) (id : String) (i : Nat) : Option State :=
  (s.task id i).bind fun (up, _, _) =>
    match up.progress i with
    | .offered _ => some (s.setUpload id (up.setProgress i .here))
    | _ => none

def stageHere (s : State) (id : String) (i now : Nat) : Option State :=
  (s.task id i).bind fun (up, planned, body) =>
    match up.progress i with
    | .here =>
      some (s.set id (up.setProgress i (.uploading
          ((s.owners.nodes up.node).staging.tryStageAt planned.chunkKey id
            body now).1.held))
        (s.owners.stage up.node planned.chunkKey id body now))
    | _ => none

/-- S3 answers the coordinator's own `UploadPart`, possibly without an ETag.
Only an error lets go of the staged window. -/
def uploadHere (s : State) (id : String) (i : Nat)
    (result : Option (Option String)) : Option State :=
  (s.task id i).bind fun (up, planned, body) =>
    match up.progress i, result with
    | .uploading staged, some (some eTag) =>
      some (s.setUpload id (up.setProgress i (.done
        { partNumber := planned.partNumber, eTag := eTag, owner := none,
          staged := staged, digest := body })))
    | .uploading _, some none =>
      some (s.setUpload id (up.setProgress i .failed))
    | .uploading staged, none =>
      some (s.set id (up.setProgress i .failed)
        (if staged then s.owners.release up.node planned.chunkKey
         else s.owners))
    | _, _ => none

def failTask (s : State) (id : String) (i : Nat) : Option State :=
  (s.task id i).bind fun (up, _, _) =>
    match up.progress i with
    | .gone => none
    | _ => some (s.setUpload id (up.setProgress i .failed))

def abort (s : State) (id : String) (i : Nat) : Option State :=
  (s.task id i).bind fun (up, _, _) =>
    match up.phase with
    | .reading => none
    | .joining => none
    | _ => some (s.setUpload id (up.setProgress i .gone))

/-!
## The coordinator
-/

def Upload.joins (up : Upload) (i : Nat) : Option Upload :=
  match up.progress i with
  | .done part =>
    some { up.setProgress i .gone with parts := up.parts ++ [part] }
  | .failed => some (up.fail .windowFailed)
  | _ => none

def join (s : State) (id : String) (i : Nat) : Option State :=
  (s.uploads id).bind fun up =>
    match up.phase with
    | .reading => (up.joins i).map (s.setUpload id)
    | .joining => (up.joins i).map (s.setUpload id)
    | _ => none

/-- The parts are all there: check their number and the client's digest, and go
on to Complete. -/
def Upload.checked (cfg : Config) (up : Upload) : Upload :=
  if up.parts.length ≠ up.plan.windows.length then
    up.fail (.yielded up.parts.length up.plan.windows.length)
  else
    let computed := cfg.checksum (wholeObject up.parts)
    match up.target.expectedCrc32 with
    | none => up.setPhase .completing
    | some claimed =>
      if claimed ≠ computed then
        up.setPhase (.unwinding (.clientDigestMismatch claimed computed))
      else up.setPhase .completing

def allJoined (cfg : Config) (s : State) (id : String) : Option State :=
  (s.uploads id).bind fun up =>
    match up.phase, up.allJoined with
    | .joining, true => some (s.setUpload id (up.checked cfg))
    | _, _ => none

def complete (s : State) (id : String) (assembled : Option String)
    (heard : Bool) : Option State :=
  (s.uploads id).bind fun up =>
    match up.phase, assembled, heard with
    | .completing, some eTag, true =>
      some (s.setUpload id { up with
        completed := some eTag,
        answered := some eTag,
        phase := .invalidating (staleCoHomes up.node up.plan up.parts) })
    | .completing, assembled, _ =>
      some (s.setUpload id { up.fail .complete with
        completed := assembled })
    | _, _, _ => none

def invalidate (s : State) (id : String) (m : Nat) : Option State :=
  (s.uploads id).bind fun up =>
    match up.phase with
    | .invalidating [] =>
      some (s.setUpload id (up.setPhase
        (.notifying (distinctOwners up.parts))))
    | .invalidating ((home, chunkKey) :: targets) =>
      if home.name = up.node then
        some (s.set id (up.setPhase (.invalidating targets))
          (s.owners.setNode up.node
            ((s.owners.nodes up.node).forget chunkKey)))
      else
        (s.owners.call m (.invalidate home.name chunkKey)).map
          (s.set id (up.setPhase (.invalidating targets)))
    | _ => none

def notify (s : State) (id : String) (m : Nat) : Option State :=
  (s.uploads id).bind fun up =>
    match up.phase, up.answered with
    | .notifying (owner :: owners), some eTag =>
      (s.owners.call m (.commit owner.name id eTag)).map
        (s.set id (up.setPhase (.notifying owners)))
    | .notifying [], some _ =>
      some (s.set id (up.setPhase (.committing
          ((s.owners.nodes up.node).staging.commit id).1))
        (s.owners.takeOut up.node id))
    | _, _ => none

def putHere (cfg : Config) (s : State) (id : String) (wrote : Bool) :
    Option State :=
  (s.uploads id).bind fun up =>
    match up.phase, up.answered with
    | .committing [], _ => some (s.setUpload id (up.setPhase .returned))
    | .committing (entry :: rest), some eTag =>
      some (s.set id (up.setPhase (.committing rest))
        (s.owners.commitChunk cfg.owners up.node id eTag wrote entry))
    | _, _ => none

/-- A write that failed drops what is staged here, then has every home it could
have offered a window to do so. -/
def unwind (s : State) (id : String) : Option State :=
  (s.uploads id).bind fun up =>
    match up.phase with
    | .unwinding error =>
      some (s.set id (up.setPhase (.withdrawing error up.offeredHomes))
        (s.owners.discard up.node id))
    | _ => none

def withdraw (s : State) (id : String) (m : Nat) : Option State :=
  (s.uploads id).bind fun up =>
    match up.phase with
    | .withdrawing error [] =>
      some (s.setUpload id (up.setPhase (.failed error)))
    | .withdrawing error (home :: homes) =>
      (s.owners.call m (.discard home.name id)).map
        (s.set id (up.setPhase (.withdrawing error homes)))
    | _ => none

def Upload.dropped (up : Upload) : Upload :=
  match up.phase with
  | .returned => up
  | .failed _ => up
  | _ => up.setPhase .dropped

def dropWrite (s : State) (id : String) : Option State :=
  (s.uploads id).bind fun up => some (s.setUpload id up.dropped)

def crash (cfg : Config) (s : State) (n : String) : State :=
  { s with
    owners := s.owners.crash cfg.owners n,
    uploads := fun id => (s.uploads id).map fun up =>
      if up.node = n then { up.dropped with progress := fun _ => .gone }
      else up }

def callId : Call -> Option String
  | .store _ id _ _ _ => some id
  | .commit _ id _ => some id
  | .discard _ id => some id
  | _ => none

def otherCall (s : State) (m : Nat) (id : String) (call : Call) :
    Option State :=
  if callId call = some id then (s.owners.call m call).bind (s.other id)
  else none

def step (cfg : Config) (s : State) : Event -> Option State
  | .create id node target homes => create cfg s id node target homes
  | .frame id bytes => frame s id bytes
  | .cut id => cut s id
  | .endBody id => endBody s id
  | .breakBody id => breakBody s id
  | .offer id i m => offer s id i m
  | .keep id i => keep s id i
  | .hear id i => hear s id i
  | .giveUp id i => giveUp s id i
  | .stageHere id i now => stageHere s id i now
  | .uploadHere id i result => uploadHere s id i result
  | .failTask id i => failTask s id i
  | .abort id i => abort s id i
  | .join id i => join s id i
  | .allJoined id => allJoined cfg s id
  | .complete id assembled heard => complete s id assembled heard
  | .invalidate id m => invalidate s id m
  | .notify id m => notify s id m
  | .putHere id wrote => putHere cfg s id wrote
  | .unwind id => unwind s id
  | .withdraw id m => withdraw s id m
  | .drop id => dropWrite s id
  | .deliver m now => (s.owners.deliver cfg.owners m now).map s.setOwners
  | .uploadPart m result => (s.owners.uploadPart m result).map s.setOwners
  | .putNext m wrote => (s.owners.putNext cfg.owners m wrote).map s.setOwners
  | .resend m m' => (s.owners.resend m m').map s.setOwners
  | .lose m => some (s.setOwners (s.owners.lose m))
  | .reap n now => some (s.setOwners (s.owners.reap n now))
  | .crash n => some (crash cfg s n)
  | .fill n chunkKey chunk =>
    some (s.setOwners (s.owners.setNode n
      ((s.owners.nodes n).fill (cfg.owners.diskTier n) chunkKey chunk)))
  | .forget n chunkKey =>
    some (s.setOwners (s.owners.setNode n
      ((s.owners.nodes n).forget chunkKey)))
  | .otherStage n id chunkKey body now =>
    s.other id (s.owners.stage n chunkKey id body now)
  | .otherCall m id call => otherCall s m id call

/-!
## What holds of a write
-/

def Phase.Unanswered : Phase -> Prop
  | .reading => True
  | .joining => True
  | .completing => True
  | .unwinding _ => True
  | .withdrawing _ _ => True
  | .failed _ => True
  | _ => False

def Upload.Window (up : Upload) (chunkKey : String) (body : Bytes) : Prop :=
  exists planned, (planned, body) ∈ up.pipe.tasks ∧
    planned.chunkKey = chunkKey

structure UploadOk (cfg : Config) (up : Upload) : Prop where
  planned : exists homes, up.plan =
    ScatterPlan.build homes cfg.chunk up.target.objectKey up.target.objectLen
  tasks : exists n, up.pipe.tasks = windowsOf cfg.chunk up.plan up.content n
  cut : up.phase = .reading -> Cut cfg.chunk up.plan up.content up.pipe
  durable : forall eTag, up.answered = some eTag -> up.completed = some eTag
  unanswered : up.phase.Unanswered -> up.answered = none
  committing : forall rest, up.phase = .committing rest ->
    forall entry, entry ∈ rest -> up.Window entry.1 entry.2

structure Later (up up' : Upload) : Prop where
  tasks : forall task, task ∈ up.pipe.tasks -> task ∈ up'.pipe.tasks
  answered : forall eTag, up.answered = some eTag -> up'.answered = some eTag
  failed : forall error, up.phase = .failed error -> up'.phase = .failed error

def Window (s : State) (id chunkKey : String) (body : Bytes) : Prop :=
  id ∈ s.others ∨
    exists up, s.uploads id = some up ∧ up.Window chunkKey body

def Tag (s : State) (id eTag : String) : Prop :=
  id ∈ s.others ∨ exists up, s.uploads id = some up ∧ up.answered = some eTag

structure Sound (cfg : Config) (s : State) : Prop where
  uploads : forall id up, s.uploads id = some up -> UploadOk cfg up
  apart : forall id up, s.uploads id = some up -> id ∉ s.others
  owners : Owners.Sound s.owners (Window s) (Tag s)

def Grows (s s' : State) : Prop :=
  forall id up, s.uploads id = some up ->
    exists up', s'.uploads id = some up' ∧ Later up up'

theorem Later.refl (up : Upload) : Later up up :=
  ⟨fun _ h => h, fun _ h => h, fun _ h => h⟩

theorem Later.of_eq {up up' : Upload}
    (htasks : up'.pipe.tasks = up.pipe.tasks)
    (hanswered : up'.answered = up.answered)
    (hphase : up'.phase = up.phase) : Later up up' where
  tasks := fun _ h => htasks.symm ▸ h
  answered := fun _ h => hanswered.trans h
  failed := fun _ h => hphase.trans h

theorem Later.of_open {up up' : Upload}
    (hopen : forall error, up.phase ≠ .failed error)
    (htasks : up'.pipe.tasks = up.pipe.tasks)
    (hanswered : up'.answered = up.answered) : Later up up' where
  tasks := fun _ h => htasks.symm ▸ h
  answered := fun _ h => hanswered.trans h
  failed := fun error h => absurd h (hopen error)

theorem Later.trans {a b c : Upload} (hab : Later a b) (hbc : Later b c) :
    Later a c where
  tasks := fun task h => hbc.tasks task (hab.tasks task h)
  answered := fun eTag h => hbc.answered eTag (hab.answered eTag h)
  failed := fun error h => hbc.failed error (hab.failed error h)

theorem Grows.refl (s : State) : Grows s s :=
  fun _ up hup => ⟨up, hup, Later.refl up⟩

theorem Grows.trans {a b c : State} (hab : Grows a b) (hbc : Grows b c) :
    Grows a c := by
  intro id up hup
  rcases hab id up hup with ⟨mid, hmid, hlater⟩
  rcases hbc id mid hmid with ⟨last, hlast, hlater'⟩
  exact ⟨last, hlast, hlater.trans hlater'⟩

theorem Later.window {up up' : Upload} (h : Later up up') {chunkKey : String}
    {body : Bytes} (hwindow : up.Window chunkKey body) :
    up'.Window chunkKey body := by
  rcases hwindow with ⟨planned, htask, hkey⟩
  exact ⟨planned, h.tasks _ htask, hkey⟩

theorem owners_of_grows {s s' : State} {owners : Owners.State}
    (h : Owners.Sound owners (Window s) (Tag s)) (hgrows : Grows s s')
    (hothers : forall id, id ∈ s.others -> id ∈ s'.others) :
    Owners.Sound owners (Window s') (Tag s') := by
  apply h.mono
  · intro id chunkKey body hwindow
    rcases hwindow with hother | ⟨up, hup, hwindow⟩
    · exact Or.inl (hothers id hother)
    · rcases hgrows id up hup with ⟨up', hup', hlater⟩
      exact Or.inr ⟨up', hup', hlater.window hwindow⟩
  · intro id eTag htag
    rcases htag with hother | ⟨up, hup, hanswered⟩
    · exact Or.inl (hothers id hother)
    · rcases hgrows id up hup with ⟨up', hup', hlater⟩
      exact Or.inr ⟨up', hup', hlater.answered eTag hanswered⟩

theorem Sound.window_of_upload {cfg : Config} {s : State} {id : String}
    {up : Upload} (h : Sound cfg s) (hup : s.uploads id = some up)
    {chunkKey : String} {body : Bytes} (hwindow : Window s id chunkKey body) :
    up.Window chunkKey body := by
  rcases hwindow with hother | ⟨found, hfound, hwindow⟩
  · exact absurd hother (h.apart id up hup)
  rw [hup] at hfound
  cases hfound
  exact hwindow

structure Next (cfg : Config) (s s' : State) : Prop where
  sound : Sound cfg s'
  grows : Grows s s'

variable {cfg : Config} {s s' : State} {id : String} {up up' : Upload}
variable {owners : Owners.State}

section

variable (h : Sound cfg s)

include h

theorem Next.put (hnew : id ∉ s.others)
    (hlater : forall old, s.uploads id = some old -> Later old up)
    (hok : UploadOk cfg up) (howners : Owners.Sound owners (Window s) (Tag s)) :
    Next cfg s (s.set id up owners) := by
  have hgrows : Grows s (s.set id up owners) := by
    intro other old hold
    by_cases heq : other = id
    · rw [heq] at hold ⊢
      exact ⟨up, Function.update_self .., hlater old hold⟩
    · exact ⟨old, (Function.update_of_ne heq ..).trans hold, Later.refl old⟩
  constructor
  · constructor
    · exact forall_update_some h.uploads hok
    · exact forall_update_some h.apart hnew
    · exact owners_of_grows howners hgrows (fun _ hother => hother)
  · exact hgrows

theorem Next.set (hup : s.uploads id = some up) (hlater : Later up up')
    (hok : UploadOk cfg up') (howners : Owners.Sound owners (Window s) (Tag s))
    :
    Next cfg s (s.set id up' owners) := by
  apply Next.put h (h.apart id up hup) _ hok howners
  intro old hold
  rw [hup] at hold
  cases hold
  exact hlater

theorem Next.setUpload (hup : s.uploads id = some up) (hlater : Later up up')
    (hok : UploadOk cfg up') :
    Next cfg s (s.setUpload id up') :=
  Next.set h hup hlater hok h.owners

theorem Next.setOwners (howners : Owners.Sound owners (Window s) (Tag s)) :
    Next cfg s (s.setOwners owners) where
  sound := ⟨h.uploads, h.apart, howners⟩
  grows := Grows.refl s

end

theorem UploadOk.setProgress (h : UploadOk cfg up) (i : Nat)
    (progress : Progress) : UploadOk cfg (up.setProgress i progress) :=
  ⟨h.planned, h.tasks, h.cut, h.durable, h.unanswered, h.committing⟩

variable {phase : Phase}

theorem UploadOk.setPhase (h : UploadOk cfg up) (hreading : phase ≠ .reading)
    (hcommitting : forall rest, phase = .committing rest ->
      forall entry, entry ∈ rest -> up.Window entry.1 entry.2)
    (hunanswered : phase.Unanswered -> up.answered = none) :
    UploadOk cfg (up.setPhase phase) where
  planned := h.planned
  tasks := h.tasks
  cut := fun hphase => absurd hphase hreading
  durable := h.durable
  unanswered := hunanswered
  committing := hcommitting

theorem Next.setPhase (h : Sound cfg s) (hup : s.uploads id = some up)
    (hopen : forall error, up.phase ≠ .failed error) (hreading : phase ≠ .reading)
    (hcommitting : forall rest, phase = .committing rest ->
      forall entry, entry ∈ rest -> up.Window entry.1 entry.2)
    (hunanswered : phase.Unanswered -> up.answered = none)
    (howners : Owners.Sound owners (Window s) (Tag s)) :
    Next cfg s (s.set id (up.setPhase phase) owners) :=
  Next.set h hup (Later.of_open hopen rfl rfl)
    ((h.uploads id up hup).setPhase hreading hcommitting hunanswered) howners

theorem UploadOk.answered_eq_none (h : UploadOk cfg up)
    (hphase : up.phase = phase) (hunanswered : phase.Unanswered) :
    up.answered = none := by
  rw [← hphase] at hunanswered
  exact h.unanswered hunanswered

theorem open_of_phase (hphase : up.phase = phase)
    (hopen : forall error, phase ≠ .failed error) :
    forall error, up.phase ≠ .failed error := by
  rw [hphase]
  exact hopen

theorem UploadOk.fail (h : UploadOk cfg up) (hnone : up.answered = none)
    (failure : Failure) : UploadOk cfg (up.fail failure) :=
  h.setPhase nofun nofun (fun _ => hnone)

theorem UploadOk.dropped (h : UploadOk cfg up) : UploadOk cfg up.dropped := by
  unfold Upload.dropped
  split
  · exact h
  · exact h
  · exact h.setPhase nofun nofun nofun

theorem Later.dropped (up : Upload) : Later up up.dropped := by
  unfold Upload.dropped
  split
  · exact Later.refl up
  · exact Later.refl up
  · rename_i hopen
    exact Later.of_open hopen rfl rfl

/-!
## Reading the body
-/

theorem next_create {node : String} {target : ScatterTarget}
    {homes : String -> List NodeId} (h : Sound cfg s)
    (hstep : create cfg s id node target homes = some s') : Next cfg s s' := by
  unfold create at hstep
  cases hup : s.uploads id with
  | some up =>
    rw [hup] at hstep
    cases hstep
  | none =>
    rw [hup] at hstep
    dsimp only at hstep
    split_ifs at hstep with hother
    cases hstep
    apply Next.put h hother
    · intro old hold
      rw [hup] at hold
      cases hold
    · constructor
      · exact ⟨homes, rfl⟩
      · exact ⟨0, rfl⟩
      · intro _
        exact cut_start cfg.chunk _
      · intro eTag heTag
        cases heTag
      · intro _
        rfl
      · intro rest hrest
        cases hrest
    · exact h.owners

theorem next_frame {bytes : Bytes} (h : Sound cfg s)
    (hstep : frame s id bytes = some s') : Next cfg s s' := by
  rcases Option.bind_eq_some_iff.mp hstep with ⟨up, hup, hframe⟩
  have hok := h.uploads id up hup
  split at hframe
  · rename_i hphase _
    cases hframe
    have hcut := (hok.cut hphase).push bytes
    apply Next.setUpload h hup
    · exact Later.of_eq rfl rfl rfl
    · constructor
      · exact hok.planned
      · exact ⟨_, hcut.tasks⟩
      · intro _
        exact hcut
      · exact hok.durable
      · exact hok.unanswered
      · exact hok.committing
  · cases hframe

variable {i m : Nat} {planned : PlannedWindow} {plan : ScatterPlan}
  {body : Bytes}

theorem mem_dispatch {window : Bytes} {pipe pipe' : Pipeline}
    (h : dispatch plan window pipe = .ok pipe') {task : PlannedWindow × Bytes}
    (htask : task ∈ pipe.tasks) :
    task ∈ pipe'.tasks := by
  unfold dispatch at h
  split at h
  · cases h
  · cases h
    exact List.mem_append_left _ htask

theorem mem_dispatchTail {pipe pipe' : Pipeline}
    (h : dispatchTail plan pipe = .ok pipe') {task : PlannedWindow × Bytes}
    (htask : task ∈ pipe.tasks) : task ∈ pipe'.tasks := by
  unfold dispatchTail at h
  split at h
  · cases h
    exact htask
  · exact mem_dispatch h htask

theorem Next.dispatched (h : Sound cfg s) (hup : s.uploads id = some up)
    (hreading : up.phase = .reading)
    (hphase : forall rest, phase ≠ .committing rest)
    {result : Except Failure Pipeline}
    (hresult : forall pipe, result = .ok pipe ->
      (forall task, task ∈ up.pipe.tasks -> task ∈ pipe.tasks) ∧
      (exists n, pipe.tasks = windowsOf cfg.chunk up.plan up.content n) ∧
      (phase = .reading -> Cut cfg.chunk up.plan up.content pipe)) :
    Next cfg s (s.setUpload id (up.dispatched phase result)) := by
  have hok := h.uploads id up hup
  have hnone := hok.answered_eq_none hreading True.intro
  have hopen := open_of_phase hreading nofun
  cases result with
  | error failure =>
    exact Next.setUpload h hup (Later.of_open hopen rfl rfl)
      (hok.fail hnone failure)
  | ok pipe =>
    rcases hresult pipe rfl with ⟨hmem, htasks, hcut⟩
    apply Next.setUpload h hup
    · exact ⟨hmem, fun _ heq => heq, fun error heq => absurd heq (hopen error)⟩
    · exact ⟨hok.planned, htasks, hcut, hok.durable, fun _ => hnone,
        fun rest heq => absurd heq (hphase rest)⟩

theorem next_cut (h : Sound cfg s) (hstep : cut s id = some s') :
    Next cfg s s' := by
  rcases Option.bind_eq_some_iff.mp hstep with ⟨up, hup, hcutting⟩
  split at hcutting
  · rename_i window splitter hphase htake
    cases hcutting
    have hcut := (h.uploads id up hup).cut hphase
    refine Next.dispatched h hup hphase ?_ ?_
    · nofun
    intro pipe hdispatch
    rcases hcut.takeWindow htake with ⟨hwindow, hholds, hsized, hread⟩
    rw [hwindow] at hdispatch
    have hcut' := hcut.dispatch hholds hsized hread hdispatch
    exact ⟨fun _ htask => mem_dispatch hdispatch htask, ⟨_, hcut'.tasks⟩,
      fun _ => hcut'⟩
  · cases hcutting

theorem next_endBody (h : Sound cfg s) (hstep : endBody s id = some s') :
    Next cfg s s' := by
  rcases Option.bind_eq_some_iff.mp hstep with ⟨up, hup, hend⟩
  split at hend
  · rename_i hphase htake
    cases hend
    have hcut := (h.uploads id up hup).cut hphase
    refine Next.dispatched h hup hphase ?_ ?_
    · nofun
    intro pipe hdispatch
    have htasks := hcut.dispatchTail (hcut.short_of_drained htake) hdispatch
    exact ⟨fun _ htask => mem_dispatchTail hdispatch htask, ⟨_, htasks.left⟩,
      nofun⟩
  · cases hend

theorem next_breakBody (h : Sound cfg s) (hstep : breakBody s id = some s') :
    Next cfg s s' := by
  rcases Option.bind_eq_some_iff.mp hstep with ⟨up, hup, hbreak⟩
  have hok := h.uploads id up hup
  split at hbreak
  · rename_i hphase
    cases hbreak
    exact Next.setUpload h hup
      (Later.of_open (open_of_phase hphase nofun) rfl rfl)
      (hok.fail (hok.answered_eq_none hphase True.intro) .readingBody)
  · cases hbreak

/-!
## A window's task
-/

theorem task_eq_some (h : s.task id i = some (up, planned, body)) :
    s.uploads id = some up ∧ (planned, body) ∈ up.pipe.tasks := by
  rcases Option.bind_eq_some_iff.mp h with ⟨found, hfound, hmap⟩
  rcases Option.map_eq_some_iff.mp hmap with ⟨task, htask, heq⟩
  cases heq
  exact ⟨hfound, List.mem_of_getElem? htask⟩

theorem window_of_task (h : s.task id i = some (up, planned, body)) :
    Window s id planned.chunkKey body := by
  rcases task_eq_some h with ⟨hup, htask⟩
  exact Or.inr ⟨up, hup, planned, htask, rfl⟩

section

variable (h : Sound cfg s)

include h

theorem Next.task (htask : s.task id i = some (up, planned, body))
    (progress : Progress) (howners : Owners.Sound owners (Window s) (Tag s)) :
    Next cfg s (s.set id (up.setProgress i progress) owners) := by
  rcases task_eq_some htask with ⟨hup, _⟩
  exact Next.set h hup (Later.of_eq rfl rfl rfl)
    ((h.uploads id up hup).setProgress i progress) howners

theorem next_offer {i m : Nat} (hstep : offer s id i m = some s')
    : Next cfg s s' := by
  rcases Option.bind_eq_some_iff.mp hstep with
    ⟨⟨up, planned, body⟩, htask, hoffer⟩
  dsimp only at hoffer
  split at hoffer
  · rename_i home _ _
    split_ifs at hoffer with hlocal
    rcases Option.map_eq_some_iff.mp hoffer with ⟨owners, hcall, heq⟩
    cases heq
    exact Next.task h htask (.offered m)
      (h.owners.call hcall (window_of_task htask))
  · cases hoffer

theorem next_keep (hstep : keep s id i = some s')
    : Next cfg s s' := by
  rcases Option.bind_eq_some_iff.mp hstep with
    ⟨⟨up, planned, body⟩, htask, hkeep⟩
  dsimp only at hkeep
  split at hkeep
  · cases hkeep
    exact Next.task h htask .here h.owners
  · cases hkeep

theorem next_hear (hstep : hear s id i = some s')
    : Next cfg s s' := by
  rcases Option.bind_eq_some_iff.mp hstep with
    ⟨⟨up, planned, body⟩, htask, hhear⟩
  dsimp only at hhear
  split at hhear
  · rename_i m _
    split at hhear
    · rename_i outcome _
      cases hhear
      exact Next.task h htask (afterOffer planned body outcome)
        (h.owners.lose m)
    · cases hhear
  · cases hhear

theorem next_giveUp (hstep : giveUp s id i = some s')
    : Next cfg s s' := by
  rcases Option.bind_eq_some_iff.mp hstep with
    ⟨⟨up, planned, body⟩, htask, hgive⟩
  dsimp only at hgive
  split at hgive
  · cases hgive
    exact Next.task h htask .here h.owners
  · cases hgive

theorem next_stageHere {i now : Nat} (hstep : stageHere s id i now = some s')
    : Next cfg s s' := by
  rcases Option.bind_eq_some_iff.mp hstep with
    ⟨⟨up, planned, body⟩, htask, hstage⟩
  dsimp only at hstage
  split at hstage
  · cases hstage
    exact Next.task h htask _
      (h.owners.stage (window_of_task htask) up.node now)
  · cases hstage

theorem next_uploadHere {result : Option (Option String)}
    (hstep : uploadHere s id i result = some s') :
    Next cfg s s' := by
  rcases Option.bind_eq_some_iff.mp hstep with
    ⟨⟨up, planned, body⟩, htask, hupload⟩
  dsimp only at hupload
  split at hupload
  · cases hupload
    exact Next.task h htask _ h.owners
  · cases hupload
    exact Next.task h htask .failed h.owners
  · rename_i staged _
    cases hupload
    cases staged with
    | true =>
      exact Next.task h htask .failed
        (h.owners.release up.node planned.chunkKey)
    | false => exact Next.task h htask .failed h.owners
  · cases hupload

theorem next_failTask (hstep : failTask s id i = some s')
    : Next cfg s s' := by
  rcases Option.bind_eq_some_iff.mp hstep with
    ⟨⟨up, planned, body⟩, htask, hfail⟩
  dsimp only at hfail
  split at hfail
  · cases hfail
  · cases hfail
    exact Next.task h htask .failed h.owners

theorem next_abort (hstep : abort s id i = some s')
    : Next cfg s s' := by
  rcases Option.bind_eq_some_iff.mp hstep with
    ⟨⟨up, planned, body⟩, htask, habort⟩
  dsimp only at habort
  split at habort
  · cases habort
  · cases habort
  · cases habort
    exact Next.task h htask .gone h.owners

end

section Handlers

open StagingHandlers

variable {node : Node String}
  (htask : s.task id i = some (up, planned, body))
  (harea : node.area = (s.owners.nodes up.node).staging)

include htask harea

theorem stageHere_handlers {now : Nat}
    (hstep : stageHere s id i now = some s') :
    (node.uploadHere planned.chunkKey id body now).area =
        (s'.owners.nodes up.node).staging ∧
      exists up' staged, s'.uploads id = some up' ∧
        up'.progress i = .uploading staged ∧
        (node.uploadHere planned.chunkKey id body now).handlers =
          node.handlers ++
            [⟨.coordinator, planned.chunkKey, id, staged, .uploading⟩] := by
  unfold stageHere at hstep
  rw [htask] at hstep
  dsimp only [Option.bind_some] at hstep
  split at hstep
  · cases hstep
    rw [← harea]
    refine ⟨?_, _, _, Function.update_self .., Function.update_self .., ?_⟩
    · unfold Owners.State.stage
      rw [← harea]
      simp [State.set, Owners.State.setStaging, Owners.State.setNode,
        Node.uploadHere, Node.spawn, Node.area_offer]
    · unfold Node.uploadHere Node.offer
      rcases node.area.tryStageAt planned.chunkKey id body now with
        ⟨outcome, area⟩
      cases outcome <;> rfl
  · cases hstep

def partEnd : Option (Option String) -> PartEnd
  | some (some _) => .uploaded
  | some none => .withoutETag
  | none => .failed

/-- The answer of S3 ends the task as it ends a handler over the area, with the
part that the upload has on its own. -/
theorem uploadHere_handlers {h : Handler String} {env : Env}
    {result : Option (Option String)} (hrole : h.role = .coordinator)
    (hkey : h.chunkKey = planned.chunkKey)
    (hprogress : up.progress i = .uploading h.staged)
    (hstages : env.stages planned.index = h.staged)
    (huploads : env.uploadPart planned.index = result.join)
    (hstep : uploadHere s id i result = some s') (k : Nat) :
    (node.partEnds k h (partEnd result)).area =
        (s'.owners.nodes up.node).staging ∧
      exists up', s'.uploads id = some up' ∧ up'.progress i =
        (Scatter.uploadHere env planned body).elim .failed .done := by
  unfold uploadHere at hstep
  rw [htask] at hstep
  dsimp only [Option.bind_some] at hstep
  rw [hprogress] at hstep
  rw [Node.area_partEnds]
  unfold Scatter.uploadHere
  rw [huploads, hstages]
  rcases result with _ | _ | eTag
  · cases hstep
    refine ⟨?_, _, Function.update_self .., Function.update_self ..⟩
    cases hstaged : h.staged with
    | true =>
      simp [partEnd, Handler.releases, hstaged, hkey, harea, State.set,
        Owners.State.release, Owners.State.setStaging, Owners.State.setNode]
    | false =>
      simpa [partEnd, Handler.releases, hstaged, State.set] using harea
  · cases hstep
    refine ⟨?_, _, Function.update_self .., Function.update_self ..⟩
    simpa [partEnd, Handler.releases, hrole, State.setUpload, State.set]
      using harea
  · cases hstep
    exact ⟨harea, _, Function.update_self .., Function.update_self ..⟩

end Handlers

/-!
## The coordinator
-/

theorem next_join (h : Sound cfg s) (hstep : join s id i = some s')
    : Next cfg s s' := by
  rcases Option.bind_eq_some_iff.mp hstep with ⟨up, hup, hjoin⟩
  have hok := h.uploads id up hup
  have hjoins : up.answered = none ->
      (forall error, up.phase ≠ .failed error) ->
      (up.joins i).map (s.setUpload id) = some s' -> Next cfg s s' := by
    intro hnone hopen hjoin
    rcases Option.map_eq_some_iff.mp hjoin with ⟨joined, hjoined, heq⟩
    cases heq
    unfold Upload.joins at hjoined
    split at hjoined
    · cases hjoined
      have hgone := hok.setProgress i .gone
      exact Next.setUpload h hup (Later.of_eq rfl rfl rfl)
        ⟨hgone.planned, hgone.tasks, hgone.cut, hgone.durable,
          hgone.unanswered, hgone.committing⟩
    · cases hjoined
      exact Next.setUpload h hup (Later.of_open hopen rfl rfl)
        (hok.fail hnone .windowFailed)
    · cases hjoined
  split at hjoin
  · rename_i hphase
    exact hjoins (hok.answered_eq_none hphase True.intro)
      (open_of_phase hphase nofun) hjoin
  · rename_i hphase
    exact hjoins (hok.answered_eq_none hphase True.intro)
      (open_of_phase hphase nofun) hjoin
  · cases hjoin

theorem UploadOk.checked (h : UploadOk cfg up) (hnone : up.answered = none)
    (hopen : forall error, up.phase ≠ .failed error) :
    UploadOk cfg (up.checked cfg) ∧ Later up (up.checked cfg) := by
  have hcompleting : UploadOk cfg (up.setPhase .completing) ∧
      Later up (up.setPhase .completing) :=
    ⟨h.setPhase nofun nofun (fun _ => hnone), Later.of_open hopen rfl rfl⟩
  unfold Upload.checked
  split
  · exact ⟨h.fail hnone _, Later.of_open hopen rfl rfl⟩
  · dsimp only
    split
    · exact hcompleting
    · split
      · exact ⟨h.setPhase nofun nofun (fun _ => hnone),
          Later.of_open hopen rfl rfl⟩
      · exact hcompleting

section

variable (h : Sound cfg s)

include h

theorem next_allJoined (hstep : allJoined cfg s id = some s')
    : Next cfg s s' := by
  rcases Option.bind_eq_some_iff.mp hstep with ⟨up, hup, hall⟩
  have hok := h.uploads id up hup
  split at hall
  · rename_i hphase _
    cases hall
    rcases hok.checked (hok.answered_eq_none hphase True.intro)
      (open_of_phase hphase nofun) with ⟨hchecked, hlater⟩
    exact Next.setUpload h hup hlater hchecked
  · cases hall

theorem next_complete {assembled : Option String} {heard : Bool}
    (hstep : complete s id assembled heard = some s') :
    Next cfg s s' := by
  rcases Option.bind_eq_some_iff.mp hstep with ⟨up, hup, hcomplete⟩
  have hok := h.uploads id up hup
  split at hcomplete
  · rename_i eTag hphase
    have hnone := hok.answered_eq_none hphase True.intro
    cases hcomplete
    apply Next.setUpload h hup
    · constructor
      · exact fun _ htask => htask
      · intro tag htag
        rw [hnone] at htag
        cases htag
      · intro error hfailed
        exact absurd hfailed (open_of_phase hphase nofun error)
    · constructor
      · exact hok.planned
      · exact hok.tasks
      · nofun
      · exact fun _ htag => htag
      · nofun
      · nofun
  · rename_i hphase _
    have hnone := hok.answered_eq_none hphase True.intro
    cases hcomplete
    apply Next.setUpload h hup
    · exact Later.of_open (open_of_phase hphase nofun) rfl rfl
    · constructor
      · exact hok.planned
      · exact hok.tasks
      · nofun
      · intro tag htag
        have hsome : up.answered = some tag := htag
        rw [hnone] at hsome
        cases hsome
      · exact fun _ => hnone
      · nofun
  · cases hcomplete

theorem next_invalidate (hstep : invalidate s id m = some s')
    : Next cfg s s' := by
  rcases Option.bind_eq_some_iff.mp hstep with ⟨up, hup, hinvalidate⟩
  split at hinvalidate
  · rename_i hphase
    cases hinvalidate
    exact Next.setPhase h hup (open_of_phase hphase nofun) nofun nofun nofun h.owners
  · rename_i home chunkKey targets hphase
    have hopen := open_of_phase hphase nofun
    split_ifs at hinvalidate with hlocal
    · cases hinvalidate
      exact Next.setPhase h hup hopen nofun nofun nofun
        (h.owners.setNode ((h.owners.nodes up.node).forget chunkKey))
    · rcases Option.map_eq_some_iff.mp hinvalidate with ⟨owners, hcall, heq⟩
      cases heq
      exact Next.setPhase h hup hopen nofun nofun nofun
        (h.owners.call hcall True.intro)
  · cases hinvalidate

theorem next_notify (hstep : notify s id m = some s')
    : Next cfg s s' := by
  rcases Option.bind_eq_some_iff.mp hstep with ⟨up, hup, hnotify⟩
  split at hnotify
  · rename_i owner rest eTag hphase hanswered
    rcases Option.map_eq_some_iff.mp hnotify with ⟨owners, hcall, heq⟩
    cases heq
    have htag : Tag s id eTag := Or.inr ⟨up, hup, hanswered⟩
    exact Next.setPhase h hup (open_of_phase hphase nofun) nofun nofun nofun
      (h.owners.call hcall htag)
  · rename_i hphase _
    cases hnotify
    refine Next.setPhase h hup (open_of_phase hphase nofun) nofun ?_ nofun
      (h.owners.takeOut up.node id)
    intro rest hrest entry hentry
    cases hrest
    exact h.window_of_upload hup ((h.owners.nodes up.node).commit hentry)
  · cases hnotify

theorem next_putHere {wrote : Bool} (hstep : putHere cfg s id wrote = some s')
    : Next cfg s s' := by
  rcases Option.bind_eq_some_iff.mp hstep with ⟨up, hup, hput⟩
  split at hput
  · rename_i hphase
    cases hput
    exact Next.setPhase h hup (open_of_phase hphase nofun) nofun nofun nofun
      h.owners
  · rename_i entry rest eTag hphase hanswered
    cases hput
    have hwindows := (h.uploads id up hup).committing _ hphase
    have htag : Tag s id eTag := Or.inr ⟨up, hup, hanswered⟩
    have hwindow : Window s id entry.1 entry.2 :=
      Or.inr ⟨up, hup, hwindows entry List.mem_cons_self⟩
    refine Next.setPhase h hup (open_of_phase hphase nofun) nofun ?_ nofun
      (h.owners.commitChunk cfg.owners up.node wrote htag hwindow)
    intro left hleft later hlater
    cases hleft
    exact hwindows later (List.mem_cons_of_mem _ hlater)
  · cases hput

theorem next_unwind (hstep : unwind s id = some s') :
    Next cfg s s' := by
  rcases Option.bind_eq_some_iff.mp hstep with ⟨up, hup, hunwind⟩
  have hok := h.uploads id up hup
  split at hunwind
  · rename_i error hphase
    cases hunwind
    have hnone := hok.answered_eq_none hphase True.intro
    exact Next.setPhase h hup (open_of_phase hphase nofun) nofun nofun
      (fun _ => hnone) (h.owners.discard up.node id)
  · cases hunwind

theorem next_withdraw (hstep : withdraw s id m = some s')
    : Next cfg s s' := by
  rcases Option.bind_eq_some_iff.mp hstep with ⟨up, hup, hwithdraw⟩
  have hok := h.uploads id up hup
  split at hwithdraw
  · rename_i error hphase
    cases hwithdraw
    have hnone := hok.answered_eq_none hphase True.intro
    exact Next.setPhase h hup (open_of_phase hphase nofun) nofun nofun
      (fun _ => hnone) h.owners
  · rename_i error home homes hphase
    rcases Option.map_eq_some_iff.mp hwithdraw with ⟨owners, hcall, heq⟩
    cases heq
    have hnone := hok.answered_eq_none hphase True.intro
    exact Next.setPhase h hup (open_of_phase hphase nofun) nofun nofun
      (fun _ => hnone) (h.owners.call hcall True.intro)
  · cases hwithdraw

theorem next_dropWrite (hstep : dropWrite s id = some s') : Next cfg s s' := by
  rcases Option.bind_eq_some_iff.mp hstep with ⟨up, hup, hdrop⟩
  cases hdrop
  exact Next.setUpload h hup (Later.dropped up) (h.uploads id up hup).dropped

end

/-!
## Every step and every run
-/

theorem next_crash (h : Sound cfg s) (n : String) :
    Next cfg s (crash cfg s n) := by
  have hcrashed : forall up : Upload, Later up { up.dropped with
      progress := fun _ => .gone } := by
    intro up
    exact ⟨(Later.dropped up).tasks, (Later.dropped up).answered,
      (Later.dropped up).failed⟩
  have hgrows : Grows s (crash cfg s n) := by
    intro id up hup
    have hmapped : (crash cfg s n).uploads id = some (if up.node = n then
        { up.dropped with progress := fun _ => .gone } else up) := by
      show (s.uploads id).map _ = _
      rw [hup]
      rfl
    split_ifs at hmapped with hnode
    · exact ⟨_, hmapped, hcrashed up⟩
    · exact ⟨up, hmapped, Later.refl up⟩
  constructor
  · constructor
    · intro id found hfound
      rcases Option.map_eq_some_iff.mp hfound with ⟨up, hup, heq⟩
      have hok := h.uploads id up hup
      split_ifs at heq with hnode
      · have hdropped := hok.dropped
        rw [← heq]
        exact ⟨hdropped.planned, hdropped.tasks, hdropped.cut,
          hdropped.durable, hdropped.unanswered, hdropped.committing⟩
      · rw [← heq]
        exact hok
    · intro id found hfound
      rcases Option.map_eq_some_iff.mp hfound with ⟨up, hup, _⟩
      exact h.apart id up hup
    · exact owners_of_grows (h.owners.crash cfg.owners n) hgrows
        (fun _ hother => hother)
  · exact hgrows

theorem next_other (h : Sound cfg s) (hstep : s.other id owners = some s')
    (howners : Owners.Sound s.owners
        (Window { s with others := id :: s.others })
        (Tag { s with others := id :: s.others }) ->
      Owners.Sound owners (Window { s with others := id :: s.others })
        (Tag { s with others := id :: s.others })) : Next cfg s s' := by
  unfold State.other at hstep
  cases hup : s.uploads id with
  | some up =>
    rw [hup] at hstep
    cases hstep
  | none =>
    rw [hup] at hstep
    cases hstep
    have hgrows : Grows s { s with others := id :: s.others } :=
      fun _ up hfound => ⟨up, hfound, Later.refl up⟩
    constructor
    · constructor
      · exact h.uploads
      · intro found up hfound hmem
        rcases List.mem_cons.mp hmem with heq | hold
        · rw [heq, hup] at hfound
          cases hfound
        · exact h.apart found up hfound hold
      · exact howners (owners_of_grows h.owners hgrows
          (fun _ hold => List.mem_cons_of_mem id hold))
    · exact hgrows

theorem callOk_of_callId {window : String -> String -> Bytes -> Prop}
    {tag : String -> String -> Prop} {call : Call}
    (hwindow : forall chunkKey body, window id chunkKey body)
    (htag : forall eTag, tag id eTag) (hid : callId call = some id) :
    CallOk window tag call := by
  cases call with
  | store home uploadId chunkKey body populateOnly =>
    cases hid
    exact hwindow chunkKey body
  | commit home uploadId eTag =>
    cases hid
    exact htag eTag
  | discard home uploadId | uploading home chunkKey | answered outcome
  | invalidate home chunkKey =>
    exact True.intro
  | putting home uploadId eTag rest => cases hid

theorem next_step {e : Event} (h : Sound cfg s)
    (hstep : step cfg s e = some s') : Next cfg s s' := by
  cases e with
  | create id node target homes => exact next_create h hstep
  | frame id bytes => exact next_frame h hstep
  | cut id => exact next_cut h hstep
  | endBody id => exact next_endBody h hstep
  | breakBody id => exact next_breakBody h hstep
  | offer id i m => exact next_offer h hstep
  | keep id i => exact next_keep h hstep
  | hear id i => exact next_hear h hstep
  | giveUp id i => exact next_giveUp h hstep
  | stageHere id i now => exact next_stageHere h hstep
  | uploadHere id i result => exact next_uploadHere h hstep
  | failTask id i => exact next_failTask h hstep
  | abort id i => exact next_abort h hstep
  | join id i => exact next_join h hstep
  | allJoined id => exact next_allJoined h hstep
  | complete id assembled heard => exact next_complete h hstep
  | invalidate id m => exact next_invalidate h hstep
  | notify id m => exact next_notify h hstep
  | putHere id wrote => exact next_putHere h hstep
  | unwind id => exact next_unwind h hstep
  | withdraw id m => exact next_withdraw h hstep
  | drop id => exact next_dropWrite h hstep
  | deliver m now =>
    rcases Option.map_eq_some_iff.mp hstep with ⟨owners, howners, heq⟩
    cases heq
    exact Next.setOwners h (h.owners.deliver howners)
  | uploadPart m result =>
    rcases Option.map_eq_some_iff.mp hstep with ⟨owners, howners, heq⟩
    cases heq
    exact Next.setOwners h (h.owners.uploadPart howners)
  | putNext m wrote =>
    rcases Option.map_eq_some_iff.mp hstep with ⟨owners, howners, heq⟩
    cases heq
    exact Next.setOwners h (h.owners.putNext howners)
  | resend m m' =>
    rcases Option.map_eq_some_iff.mp hstep with ⟨owners, howners, heq⟩
    cases heq
    exact Next.setOwners h (h.owners.resend howners)
  | lose m =>
    cases hstep
    exact Next.setOwners h (h.owners.lose m)
  | reap n now =>
    cases hstep
    exact Next.setOwners h (h.owners.reap n now)
  | crash n =>
    cases hstep
    exact next_crash h n
  | fill n chunkKey chunk =>
    cases hstep
    exact Next.setOwners h (h.owners.setNode
      ((h.owners.nodes n).fill (cfg.owners.diskTier n) chunkKey chunk))
  | forget n chunkKey =>
    cases hstep
    exact Next.setOwners h (h.owners.setNode
      ((h.owners.nodes n).forget chunkKey))
  | otherStage n id chunkKey body now =>
    apply next_other h hstep
    intro howners
    exact howners.stage (Or.inl List.mem_cons_self) n now
  | otherCall m id call =>
    have hcalled : otherCall s m id call = some s' := hstep
    unfold otherCall at hcalled
    split_ifs at hcalled with hid
    rcases Option.bind_eq_some_iff.mp hcalled with ⟨owners, hcall, hother⟩
    apply next_other h hother
    intro howners
    apply howners.call hcall
    exact callOk_of_callId (fun _ _ => Or.inl List.mem_cons_self)
      (fun _ => Or.inl List.mem_cons_self) hid

theorem Sound.start (cfg : Config)
    (held : String -> String -> Option CachedChunk) :
    Sound cfg (State.start cfg held) where
  uploads := by
    intro id up hup
    cases hup
  apart := by
    intro id up hup
    cases hup
  owners := Owners.Sound.start cfg.owners held

theorem next_run {events : List Event} {final : State} (h : Sound cfg s)
    (hrun : run (step cfg) s events = some final) : Next cfg s final := by
  apply run_invariant _ ⟨h, Grows.refl s⟩ hrun
  intro mid e mid' hmid hstep
  have hnext := next_step hmid.sound hstep
  exact ⟨hnext.sound, hmid.grows.trans hnext.grows⟩

/-!
## Invisible until durable
-/

/-- The chunk is a window of the write, whose body has ended, under the ETag of
the object S3 has assembled. -/
structure Durable (cfg : Config) (up : Upload) (chunkKey : String)
    (chunk : CachedChunk) : Prop where
  completed : exists eTag, up.completed = some eTag ∧ chunk.eTag = some eTag
  ended : up.phase ≠ .reading
  window : exists i, i < cfg.chunk.chunkCount up.target.objectLen ∧
    chunkKey = cfg.chunk.chunkKey up.target.objectKey i ∧
    chunk.body = cfg.chunk.chunkOf up.content i

theorem UploadOk.chunk_of_window (h : UploadOk cfg up) {chunkKey : String}
    {body : Bytes} (hwindow : up.Window chunkKey body) :
    exists i, i < cfg.chunk.chunkCount up.target.objectLen ∧
      chunkKey = cfg.chunk.chunkKey up.target.objectKey i ∧
      body = cfg.chunk.chunkOf up.content i := by
  rcases hwindow with ⟨planned, htask, hkey⟩
  rcases h.tasks with ⟨n, htasks⟩
  rcases h.planned with ⟨homes, hplan⟩
  rw [htasks] at htask
  rcases List.mem_iff_getElem?.mp htask with ⟨i, hi⟩
  rcases List.getElem?_zip_eq_some.mp hi with ⟨hplanned, hbody⟩
  rw [List.getElem?_take, hplan] at hplanned
  split_ifs at hplanned with hin
  rcases List.getElem?_eq_some_iff.mp hplanned with ⟨hlen, hget⟩
  have hcount : i < cfg.chunk.chunkCount up.target.objectLen := by
    simpa [ScatterPlan.build] using hlen
  have hplannedKey :
      planned.chunkKey = cfg.chunk.chunkKey up.target.objectKey i := by
    dsimp only at hget
    rw [← hget]
    simp [ScatterPlan.build]
  have hchunk : cfg.chunk.chunkOf up.content i = body := by
    rw [List.getElem?_map, List.getElem?_range hin] at hbody
    exact Option.some.inj hbody
  exact ⟨i, hcount, hkey.symm.trans hplannedKey, hchunk.symm⟩

theorem Sound.answered_of_copy (h : Sound cfg s) (hup : s.uploads id = some up)
    {n chunkKey : String} {copy : Copy}
    (hcopy : (s.owners.nodes n).chunks chunkKey = some copy)
    (horigin : copy.origin = some id) :
    up.Window chunkKey copy.chunk.body ∧
      exists eTag, up.answered = some eTag ∧ copy.chunk.eTag = some eTag := by
  rcases (h.owners.nodes n).copies chunkKey copy hcopy id horigin with
    ⟨hwindow, eTag, htag, heTag⟩
  refine ⟨h.window_of_upload hup hwindow, eTag, ?_, heTag⟩
  rcases htag with hother | ⟨found, hfound, hanswered⟩
  · exact absurd hother (h.apart id up hup)
  rw [hup] at hfound
  cases hfound
  exact hanswered

theorem Sound.not_failed_of_copy (h : Sound cfg s)
    (hup : s.uploads id = some up) {n chunkKey : String} {copy : Copy}
    (hcopy : (s.owners.nodes n).chunks chunkKey = some copy)
    (horigin : copy.origin = some id) (hgrows : Next cfg s s')
    (hup' : s'.uploads id = some up') (error : ScatterError) :
    up'.phase ≠ .failed error := by
  intro hfailed
  rcases h.answered_of_copy hup hcopy horigin with ⟨_, eTag, hanswered, _⟩
  have hnone := (hgrows.sound.uploads id up' hup').answered_eq_none hfailed
    True.intro
  rcases hgrows.grows id up hup with ⟨last, hlast, hlater⟩
  rw [hup'] at hlast
  cases hlast
  rw [hlater.answered eTag hanswered] at hnone
  cases hnone

/-- A chunk that a write's commit put in a tier is a window of it, under the ETag
of the object, which is complete, and such a write does not fail later.  A write
that has failed stays so, and no tier holds a chunk of it from then on. -/
theorem scatter_invisible_until_durable
    {held : String -> String -> Option CachedChunk}
    {front back : List Event} {mid final : State}
    (hfront : run (step cfg) (State.start cfg held) front = some mid)
    (hback : run (step cfg) mid back = some final)
    (hup : mid.uploads id = some up) :
    (forall n chunkKey copy,
      (mid.owners.nodes n).chunks chunkKey = some copy ->
      copy.origin = some id ->
      Durable cfg up chunkKey copy.chunk ∧
        forall up' error, final.uploads id = some up' ->
          up'.phase ≠ .failed error) ∧
    forall error, up.phase = .failed error ->
      (exists up', final.uploads id = some up' ∧ up'.phase = .failed error) ∧
        forall n chunkKey copy,
          (final.owners.nodes n).chunks chunkKey = some copy ->
          copy.origin ≠ some id := by
  have hmid := (next_run (Sound.start cfg held) hfront).sound
  have hfinal := next_run hmid hback
  constructor
  · intro n chunkKey copy hcopy horigin
    have hok := hmid.uploads id up hup
    rcases hmid.answered_of_copy hup hcopy horigin with
      ⟨hwindow, eTag, hanswered, heTag⟩
    constructor
    · constructor
      · exact ⟨eTag, hok.durable eTag hanswered, heTag⟩
      · intro hreading
        have hnone := hok.answered_eq_none hreading True.intro
        rw [hanswered] at hnone
        cases hnone
      · exact hok.chunk_of_window hwindow
    · intro up' error hup'
      exact hmid.not_failed_of_copy hup hcopy horigin hfinal hup' error
  · intro error hfailed
    rcases hfinal.grows id up hup with ⟨up', hup', hlater⟩
    have hstill := hlater.failed error hfailed
    refine ⟨⟨up', hup', hstill⟩, ?_⟩
    intro n chunkKey copy hcopy horigin
    exact hfinal.sound.not_failed_of_copy hup' hcopy horigin
      ⟨hfinal.sound, Grows.refl final⟩ hup' error hstill

def twoByteChunks : Config where
  owners :=
    { diskTier := fun _ => .foyer,
      accepts := fun _ => true,
      requesterMode := fun _ => false,
      budgetBytes := 8,
      ttl := 900,
      maxSharersTracked := 16 }
  chunk := ⟨2, Nat.zero_lt_two⟩
  checksum := fun _ => ""

/-- Node `a` scatters three bytes over two windows: `b`, the home of both,
uploads the first, and the second is not offered.  Both are committed. -/
def twoWindows : List Event :=
  [.create "u" "a" ⟨"o", 3, none⟩ (fun _ => [⟨"b", ""⟩]),
    .frame "u" [1, 2, 3], .cut "u", .endBody "u", .offer "u" 0 0, .keep "u" 1,
    .deliver 0 0, .uploadPart 0 (some "p1"), .hear "u" 0, .stageHere "u" 1 0,
    .uploadHere "u" 1 (some (some "p2")), .join "u" 0, .join "u" 1,
    .allJoined "u", .complete "u" (some "e") true, .invalidate "u" 1,
    .invalidate "u" 2, .notify "u" 2, .notify "u" 3, .putHere "u" true,
    .deliver 2 1, .putNext 2 true]

/-- Another write, whose one window `b` has uploaded and staged, when Complete is
refused. -/
def refusedWrite : List Event :=
  [.create "v" "a" ⟨"o", 2, none⟩ (fun _ => [⟨"b", ""⟩]), .frame "v" [7, 8],
    .cut "v", .endBody "v", .offer "v" 0 4, .deliver 4 2,
    .uploadPart 4 (some "q1"), .hear "v" 0, .join "v" 0, .allJoined "v",
    .complete "v" none true, .unwind "v", .withdraw "v" 5, .withdraw "v" 6]

/-- The discard is lost, and the process of `b` goes down. -/
def afterwards : List Event := [.lose 5, .crash "b"]

theorem scatter_invisible_until_durable_refused :
    exists mid final up copy refused,
      run (step twoByteChunks) (State.start twoByteChunks (fun _ _ => none))
          (twoWindows ++ refusedWrite) = some mid ∧
        run (step twoByteChunks) mid afterwards = some final ∧
        mid.uploads "u" = some up ∧
        (mid.owners.nodes "b").chunks "o#2:0" = some copy ∧
        copy.chunk = ⟨[1, 2], some "e"⟩ ∧ copy.origin = some "u" ∧
        Durable twoByteChunks up "o#2:0" copy.chunk ∧
        mid.uploads "v" = some refused ∧
        refused.phase = .failed (.failed .complete) ∧
        forall n chunkKey copy,
          (final.owners.nodes n).chunks chunkKey = some copy ->
          copy.origin ≠ some "v" := by
  have hrun : (run (step twoByteChunks)
      (State.start twoByteChunks (fun _ _ => none))
      (twoWindows ++ refusedWrite)).map (fun s =>
        ((run (step twoByteChunks) s afterwards).isSome &&
            (s.uploads "u").isSome &&
            (s.uploads "v").map Upload.phase ==
              some (.failed (.failed .complete)),
          ((s.owners.nodes "b").chunks "o#2:0").map fun copy =>
            (copy.chunk, copy.origin))) =
      some (true, some (⟨[1, 2], some "e"⟩, some "u")) := by
    decide +kernel
  rcases Option.map_eq_some_iff.mp hrun with ⟨mid, hmid, hseen⟩
  rw [Prod.mk.injEq, Bool.and_eq_true, Bool.and_eq_true, beq_iff_eq] at hseen
  rcases hseen with ⟨⟨⟨hafter, hsome⟩, hphase⟩, hheld⟩
  rcases Option.isSome_iff_exists.mp hafter with ⟨final, hfinal⟩
  rcases Option.isSome_iff_exists.mp hsome with ⟨up, hup⟩
  rcases Option.map_eq_some_iff.mp hheld with ⟨copy, hcopy, hpair⟩
  rcases Prod.ext_iff.mp hpair with ⟨hchunk, horigin⟩
  rcases Option.map_eq_some_iff.mp hphase with ⟨refused, hrefused, hfailed⟩
  have hdurable := (scatter_invisible_until_durable hmid hfinal hup).left "b"
    "o#2:0" copy hcopy horigin
  have hhidden := (scatter_invisible_until_durable hmid hfinal hrefused).right
    _ hfailed
  exact ⟨mid, final, up, copy, refused, hmid, hfinal, hup, hcopy, hchunk,
    horigin, hdurable.left, hrefused, hfailed, hhidden.right⟩

end ScatterCluster

end Daemon
end Pacer
