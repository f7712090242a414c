import Pacer.Cache.Provenance
import Pacer.Foundation.Transition

/-!
# Concurrent calls on one store

Any number of `get`, `put` and `remove` calls run at once.  The index lock is
held for one critical section at a time and never across a file operation, so a
step of the system is one critical section or one file operation of one call:
`touch`, `claim`, `forget` and `remove` on the index, and the header read, the
body read, the synced body write and the header write on a slot.

A get that finds its slot reused between its two reads pairs one chunk's header
with another chunk's bytes.  The main result is that nothing else goes wrong: a
run in which the reads of a get and the writes of a put on one slot never
overlap serves only chunks its own puts stored.
-/

namespace Pacer
namespace Cache

open Foundation Function

namespace Concurrent

inductive Task where
  | idle
  /-- A get that found its slot and has read nothing yet. -/
  | touched (key : String) (slot : Nat)
  /-- A dependent read that accepted the header. -/
  | headed (key : String) (slot : Nat) (header : SlotHeader) (len : Nat)
  /-- An overlapped read with its header answer only. -/
  | headFirst (key : String) (slot : Nat)
      (answer : Except IoError (Option SlotHeader))
  /-- An overlapped read with its body answer only. -/
  | bodyFirst (key : String) (slot : Nat) (answer : Except IoError Bytes)
  /-- A get that will forget its slot. -/
  | missed (key : String) (slot : Nat)
  | returned (key : String) (result : Option CachedChunk)
  | failed (error : IoError)
  /-- A put that reserved its slot and has written nothing yet. -/
  | claimed (slot : Nat) (key : String) (chunk : CachedChunk)
  /-- A put with its body on the drive. -/
  | written (slot : Nat) (page : Bytes)
  /-- A put whose header does not fit a page; it will forget its slot. -/
  | refused (slot : Nat) (message : String)
  | finished (result : Except String Unit)

namespace Task

def ReadsFrom (slot : Nat) : Task -> Prop
  | .headed _ s _ _ => s = slot
  | .headFirst _ s _ => s = slot
  | .bodyFirst _ s _ => s = slot
  | _ => False

def WritesTo (slot : Nat) : Task -> Prop
  | .claimed s _ _ => s = slot
  | .written s _ => s = slot
  | _ => False

def afterHeader (key : String) (slot : Nat) :
    Except IoError (Option SlotHeader) -> Task
  | .error e => .failed e
  | .ok none => .missed key slot
  | .ok (some header) =>
    match accept key header with
    | none => .missed key slot
    | some len => .headed key slot header len

def settle (key : String) (slot : Nat) :
    Except IoError (Option CachedChunk) -> Task
  | .error e => .failed e
  | .ok none => .missed key slot
  | .ok (some chunk) => .returned key (some chunk)

def afterBody (cfg : StoreConfig) (key : String) (slot : Nat)
    (header : SlotHeader) (len : Nat) : Except IoError Bytes -> Task
  | .error e => .failed e
  | .ok body => settle key slot (.ok (verified cfg header body len))

end Task

structure State where
  index : Index
  dir : Directory
  tasks : Nat -> Task

namespace State

def set (s : State) (t : Nat) (task : Task) : State :=
  { s with tasks := update s.tasks t task }

def start (store : Store) : State :=
  { index := store.index, dir := store.dir, tasks := fun _ => .idle }

end State

inductive Event where
  | get (t : Nat) (key : String)
  | put (t : Nat) (key : String) (chunk : CachedChunk)
  | remove (key : String)
  | readHeader (t : Nat)
  | readBody (t : Nat)
  | writeBody (t : Nat)
  | writeHeader (t : Nat)
  | forget (t : Nat)

def step (cfg : StoreConfig) (s : State) : Event -> Option State
  | .get t key =>
    match s.tasks t with
    | .idle =>
      match s.index.touch key with
      | none => some (s.set t (.returned key none))
      | some (slot, index) =>
        some ({ s with index := index }.set t (.touched key slot))
    | _ => none
  | .put t key chunk =>
    match s.tasks t with
    | .idle =>
      if chunk.body.length > cfg.chunkSize then
        some (s.set t (.finished (.error (tooLong cfg chunk))))
      else
        match s.index.claim key (putHeader key chunk) with
        | none => some (s.set t (.finished (.ok ())))
        | some (slot, index) =>
          some ({ s with index := index }.set t
            (.claimed slot key chunk))
    | _ => none
  | .remove key => some { s with index := (s.index.remove key).2 }
  | .readHeader t =>
    match s.tasks t with
    | .touched key slot =>
      match cfg.readShape with
      | .twoRead =>
        some (s.set t (.afterHeader key slot
          (Cache.readHeader cfg s.dir slot)))
      | .overlap =>
        some (s.set t (.headFirst key slot
          (Cache.readHeader cfg s.dir slot)))
    | .bodyFirst key slot body =>
      some (s.set t (.settle key slot
        (overlapped cfg key (Cache.readHeader cfg s.dir slot) body)))
    | _ => none
  | .readBody t =>
    match s.tasks t with
    | .headed key slot header len =>
      some (s.set t (.afterBody cfg key slot header len
        (Cache.readBody cfg s.dir slot (dependentReadLen cfg len))))
    | .touched key slot =>
      match cfg.readShape with
      | .twoRead => none
      | .overlap =>
        some (s.set t (.bodyFirst key slot
          (Cache.readBody cfg s.dir slot cfg.chunkSize)))
    | .headFirst key slot header =>
      some (s.set t (.settle key slot
        (overlapped cfg key header
          (Cache.readBody cfg s.dir slot cfg.chunkSize))))
    | _ => none
  | .writeBody t =>
    match s.tasks t with
    | .claimed slot key chunk =>
      match (putHeader key chunk).writeTo blankPage with
      | .error message => some (s.set t (.refused slot message))
      | .ok page =>
        some ({ s with
          dir := Cache.writeBody cfg.chunkSize s.dir slot chunk.body
        }.set t (.written slot page))
    | _ => none
  | .writeHeader t =>
    match s.tasks t with
    | .written slot page =>
      some ({ s with
        dir := Cache.writeHeader cfg.chunkSize s.dir slot page
      }.set t (.finished (.ok ())))
    | _ => none
  | .forget t =>
    match s.tasks t with
    | .missed key slot =>
      some ({ s with index := s.index.forget slot }.set t
        (.returned key none))
    | .refused slot message =>
      some ({ s with index := s.index.forget slot }.set t
        (.finished (.error message)))
    | _ => none

/-!
## Slots used by one call at a time

A step is exclusive when it opens no window that overlaps another one on its
slot: the first read of a get finds no put between its claim and its header
write there, and a claim takes a slot that no get is between its two reads of
and no other put is still writing.
-/

def Exclusive (s : State) : Event -> Prop
  | .put _ key chunk =>
    forall slot index,
      s.index.claim key (putHeader key chunk) = some (slot, index) ->
        forall t, ¬ (s.tasks t).ReadsFrom slot ∧ ¬ (s.tasks t).WritesTo slot
  | .readHeader t =>
    forall key slot, s.tasks t = .touched key slot ->
      forall other, ¬ (s.tasks other).WritesTo slot
  | .readBody t =>
    forall key slot, s.tasks t = .touched key slot ->
      forall other, ¬ (s.tasks other).WritesTo slot
  | _ => True

def TaskOk (puts : Puts) (cfg : StoreConfig) (dir : Directory) : Task -> Prop
  | .headed key slot header len =>
    slotHeader cfg.chunkSize dir slot = some header ∧
      accept key header = some len
  | .headFirst _ slot answer =>
    forall found, answer = .ok found ->
      found = slotHeader cfg.chunkSize dir slot
  | .bodyFirst _ slot answer =>
    forall body, answer = .ok body ->
      body = bodyBytes cfg.chunkSize dir slot cfg.chunkSize
  | .returned key (some chunk) => StoredBy puts key chunk
  | .claimed slot key chunk =>
    puts key chunk ∧ chunk.body.length ≤ cfg.chunkSize ∧
      Consistent puts cfg.chunkSize dir slot
  | .written slot page =>
    exists key chunk, puts key chunk ∧
      chunk.body.length ≤ cfg.chunkSize ∧
      (putHeader key chunk).Fits ∧
      page = (putHeader key chunk).filled blankPage ∧
      bodyBytes cfg.chunkSize dir slot chunk.body.length = chunk.body
  | _ => True

/-- Windows on a slot do not overlap, calls remember what the disk still
shows, and a slot no put is writing is consistent. -/
structure Inv (puts : Puts) (cfg : StoreConfig) (s : State) : Prop where
  oneWriter : forall slot t u, (s.tasks t).WritesTo slot ->
    (s.tasks u).WritesTo slot -> t = u
  noWriterWhileRead : forall slot t u, (s.tasks t).ReadsFrom slot ->
    ¬ (s.tasks u).WritesTo slot
  quiet : forall slot, (forall t, ¬ (s.tasks t).WritesTo slot) ->
    Consistent puts cfg.chunkSize s.dir slot
  taskOk : forall t, TaskOk puts cfg s.dir (s.tasks t)

variable {cfg : StoreConfig} {puts : Puts} {s s' : State} {key : String}
  {chunk : CachedChunk} {t slot : Nat} {dir : Directory}

variable {header : SlotHeader} {task : Task}

theorem not_writesTo_of_readsFrom (h : task.ReadsFrom slot)
    : ¬ task.WritesTo slot := by
  cases task <;> simp [Task.ReadsFrom, Task.WritesTo] at h ⊢

theorem TaskOk.frame {dir dir' : Directory} (h : TaskOk puts cfg dir task)
    (hheader : forall s, s ≠ slot ->
      slotHeader cfg.chunkSize dir' s = slotHeader cfg.chunkSize dir s)
    (hbody : forall s, s ≠ slot -> forall n, n ≤ cfg.chunkSize ->
      bodyBytes cfg.chunkSize dir' s n = bodyBytes cfg.chunkSize dir s n)
    (hreads : ¬ task.ReadsFrom slot) (hwrites : ¬ task.WritesTo slot) :
    TaskOk puts cfg dir' task := by
  cases task with
  | headed key s header len =>
    have hne : s ≠ slot := hreads
    exact ⟨(hheader s hne).trans h.left, h.right⟩
  | headFirst key s answer =>
    have hne : s ≠ slot := hreads
    intro found hfound
    rw [hheader s hne]
    exact h found hfound
  | bodyFirst key s answer =>
    have hne : s ≠ slot := hreads
    intro body hanswer
    rw [hbody s hne _ (Nat.le_refl _)]
    exact h body hanswer
  | claimed s key chunk =>
    have hne : s ≠ slot := hwrites
    refine ⟨h.left, h.right.left, ?_⟩
    exact h.right.right.congr (hheader s hne) (hbody s hne)
  | written s page =>
    have hne : s ≠ slot := hwrites
    rcases h with ⟨key, chunk, hput, hlen, hfits, hpage, hbytes⟩
    refine ⟨key, chunk, hput, hlen, hfits, hpage, ?_⟩
    rw [hbody s hne _ hlen]
    exact hbytes
  | returned key result =>
    cases result with
    | none => trivial
    | some chunk => exact h
  | idle | touched key s | missed key s | failed e | refused s message
  | finished result =>
    trivial

/-!
## One step

Every step moves one call; what it must show is the new call's own facts, that
the other calls keep theirs, that no window it opens overlaps another, and that
a slot it leaves is consistent.
-/

variable {index : Index}

theorem inv_set (hinv : Inv puts cfg s) {dir : Directory} {t : Nat}
    {task : Task} (hok : TaskOk puts cfg dir task)
    (hothers : forall u, u ≠ t -> TaskOk puts cfg dir (s.tasks u))
    (hwrites : forall slot, task.WritesTo slot -> forall u, u ≠ t ->
      ¬ (s.tasks u).ReadsFrom slot ∧ ¬ (s.tasks u).WritesTo slot)
    (hreads : forall slot, task.ReadsFrom slot -> forall u, u ≠ t ->
      ¬ (s.tasks u).WritesTo slot)
    (hquiet : forall slot, ¬ task.WritesTo slot ->
      (forall u, u ≠ t -> ¬ (s.tasks u).WritesTo slot) ->
      Consistent puts cfg.chunkSize dir slot) :
    Inv puts cfg
      (({ s with index := index, dir := dir } : State).set t task) := by
  have hmoved : forall {p : Task -> Prop} {u : Nat},
      p (update s.tasks t task u) ->
        (u = t ∧ p task) ∨ (u ≠ t ∧ p (s.tasks u)) := by
    intro p u hp
    by_cases hut : u = t
    · rw [hut, update_self] at hp
      exact Or.inl ⟨hut, hp⟩
    · rw [update_of_ne hut] at hp
      exact Or.inr ⟨hut, hp⟩
  refine ⟨?_, ?_, ?_, ?_⟩
  · intro slot u v hu hv
    rcases hmoved (p := (·.WritesTo slot)) hu with ⟨hut, hu⟩ | ⟨hut, hu⟩
    · rcases hmoved (p := (·.WritesTo slot)) hv with ⟨hvt, _⟩ | ⟨hvt, hv⟩
      · rw [hut, hvt]
      · exact absurd hv (hwrites slot hu v hvt).right
    · rcases hmoved (p := (·.WritesTo slot)) hv with ⟨_, hv⟩ | ⟨_, hv⟩
      · exact absurd hu (hwrites slot hv u hut).right
      · exact hinv.oneWriter slot u v hu hv
  · intro slot u v hu hv
    rcases hmoved (p := (·.ReadsFrom slot)) hu with ⟨_, hu⟩ | ⟨hut, hu⟩
    · rcases hmoved (p := (·.WritesTo slot)) hv with ⟨_, hv⟩ | ⟨hvt, hv⟩
      · exact not_writesTo_of_readsFrom hu hv
      · exact hreads slot hu v hvt hv
    · rcases hmoved (p := (·.WritesTo slot)) hv with ⟨_, hv⟩ | ⟨_, hv⟩
      · exact (hwrites slot hv u hut).left hu
      · exact hinv.noWriterWhileRead slot u v hu hv
  · intro slot hslot
    apply hquiet slot
    · intro hw
      apply hslot t
      show (update s.tasks t task t).WritesTo slot
      rw [update_self]
      exact hw
    · intro u hu hw
      apply hslot u
      show (update s.tasks t task u).WritesTo slot
      rw [update_of_ne hu]
      exact hw
  · intro u
    show TaskOk puts cfg dir (update s.tasks t task u)
    by_cases hut : u = t
    · rw [hut, update_self]
      exact hok
    · rw [update_of_ne hut]
      exact hothers u hut

theorem Inv.quiet_of_others (hinv : Inv puts cfg s) {t slot : Nat}
    (hself : ¬ (s.tasks t).WritesTo slot)
    (hothers : forall u, u ≠ t -> ¬ (s.tasks u).WritesTo slot) :
    Consistent puts cfg.chunkSize s.dir slot := by
  apply hinv.quiet slot
  intro u
  by_cases hu : u = t
  · rw [hu]
    exact hself
  · exact hothers u hu

theorem inv_set_reader (hinv : Inv puts cfg s) (index : Index) {t : Nat}
    {task : Task} (hbefore : forall slot, ¬ (s.tasks t).WritesTo slot)
    (hafter : forall slot, ¬ task.WritesTo slot)
    (hok : TaskOk puts cfg s.dir task)
    (hreads : forall slot, task.ReadsFrom slot -> forall u,
      ¬ (s.tasks u).WritesTo slot) :
    Inv puts cfg (({ s with index := index } : State).set t task) := by
  apply inv_set hinv hok
  · intro u _
    exact hinv.taskOk u
  · intro slot hw
    exact absurd hw (hafter slot)
  · intro slot hr u _
    exact hreads slot hr u
  · intro slot _ hothers
    exact hinv.quiet_of_others (hbefore slot) hothers

theorem off_of_task (h : s.tasks t = task)
    (hoff : forall slot, ¬ task.WritesTo slot) :
    forall slot, ¬ (s.tasks t).WritesTo slot := by
  rw [h]
  exact hoff

theorem consistent_of_task (hinv : Inv puts cfg s) {t slot : Nat} {task : Task}
    (h : s.tasks t = task) (hreads : task.ReadsFrom slot) :
    Consistent puts cfg.chunkSize s.dir slot := by
  rw [← h] at hreads
  exact hinv.quiet slot (fun u => hinv.noWriterWhileRead slot t u hreads)

theorem not_writesTo_settle (key : String) (slot : Nat)
    (result : Except IoError (Option CachedChunk)) (s : Nat) :
    ¬ (Task.settle key slot result).WritesTo s := by
  cases result with
  | error e => exact not_false
  | ok found => cases found <;> exact not_false

theorem not_readsFrom_settle (key : String) (slot : Nat)
    (result : Except IoError (Option CachedChunk)) (s : Nat) :
    ¬ (Task.settle key slot result).ReadsFrom s := by
  cases result with
  | error e => exact not_false
  | ok found => cases found <;> exact not_false

theorem taskOk_settle {result : Except IoError (Option CachedChunk)}
    (h : forall chunk, result = .ok (some chunk) ->
      StoredBy puts key chunk) :
    TaskOk puts cfg dir (Task.settle key slot result) := by
  cases result with
  | error e => trivial
  | ok found =>
    cases found with
    | none => trivial
    | some chunk => exact h chunk rfl

section

variable (hinv : Inv puts cfg s)

include hinv

theorem inv_settle {t : Nat} {key : String} {slot : Nat}
    {result : Except IoError (Option CachedChunk)}
    (hbefore : forall slot, ¬ (s.tasks t).WritesTo slot)
    (h : forall chunk, result = .ok (some chunk) ->
      StoredBy puts key chunk) :
    Inv puts cfg (s.set t (Task.settle key slot result)) := by
  apply inv_set_reader hinv s.index hbefore
  · exact not_writesTo_settle key slot result
  · exact taskOk_settle h
  · intro s' hr
    exact absurd hr (not_readsFrom_settle key slot result s')

theorem inv_get (hstep : step cfg s (.get t key) = some s')
    : Inv puts cfg s' := by
  simp only [step] at hstep
  split at hstep
  · rename_i hidle
    have hbefore := off_of_task hidle (fun _ => not_false)
    split at hstep
    · cases hstep
      exact inv_set_reader hinv s.index hbefore (fun _ => not_false) trivial
        (fun _ hr => absurd hr not_false)
    · rename_i slot index _
      cases hstep
      exact inv_set_reader hinv index hbefore (fun _ => not_false) trivial
        (fun _ hr => absurd hr not_false)
  · cases hstep

theorem inv_put (hput : puts key chunk)
    (hexclusive : Exclusive s (.put t key chunk))
    (hstep : step cfg s (.put t key chunk) = some s') : Inv puts cfg s' := by
  simp only [step] at hstep
  split at hstep
  · rename_i hidle
    have hbefore := off_of_task hidle (fun _ => not_false)
    split at hstep
    · cases hstep
      exact inv_set_reader hinv s.index hbefore (fun _ => not_false) trivial
        (fun _ hr => absurd hr not_false)
    · rename_i hlen
      split at hstep
      · cases hstep
        exact inv_set_reader hinv s.index hbefore (fun _ => not_false) trivial
          (fun _ hr => absurd hr not_false)
      · rename_i slot index hclaim
        cases hstep
        have hfree := hexclusive slot index hclaim
        have hslot : Consistent puts cfg.chunkSize s.dir slot :=
          hinv.quiet slot (fun u => (hfree u).right)
        apply inv_set hinv
        · exact ⟨hput, Nat.not_lt.mp hlen, hslot⟩
        · intro u _
          exact hinv.taskOk u
        · intro slot' hw u _
          have heq : slot = slot' := hw
          rw [← heq]
          exact hfree u
        · intro slot' hr
          exact absurd hr not_false
        · intro slot' _ hothers
          exact hinv.quiet_of_others (hbefore slot') hothers
  · cases hstep

theorem inv_readHeader (hexclusive : Exclusive s (.readHeader t))
    (hstep : step cfg s (.readHeader t) = some s') : Inv puts cfg s' := by
  simp only [step] at hstep
  split at hstep
  · rename_i key slot htask
    have hbefore := off_of_task htask (fun _ => not_false)
    have hnone := hexclusive key slot htask
    split at hstep
    · cases hstep
      -- The dependent shape checks the key before it reads the body.
      cases hread : Cache.readHeader cfg s.dir slot with
      | error e =>
        exact inv_set_reader hinv s.index hbefore (fun _ => not_false)
          trivial (fun _ hr => absurd hr not_false)
      | ok answer =>
        have hanswer := readHeader_ok hread
        cases answer with
        | none =>
          exact inv_set_reader hinv s.index hbefore (fun _ => not_false)
            trivial (fun _ hr => absurd hr not_false)
        | some header =>
          cases haccept : accept key header with
          | none =>
            simp only [Task.afterHeader, haccept]
            exact inv_set_reader hinv s.index hbefore
              (fun _ => not_false) trivial
              (fun _ hr => absurd hr not_false)
          | some len =>
            simp only [Task.afterHeader, haccept]
            apply inv_set_reader hinv s.index hbefore
            · exact fun _ => not_false
            · exact ⟨hanswer.symm, haccept⟩
            · intro slot' hr
              have heq : slot = slot' := hr
              rw [← heq]
              exact hnone
    · cases hstep
      apply inv_set_reader hinv s.index hbefore
      · exact fun _ => not_false
      · intro found hfound
        exact readHeader_ok hfound
      · intro slot' hr
        have heq : slot = slot' := hr
        rw [← heq]
        exact hnone
  · rename_i key slot body htask
    cases hstep
    have hbefore := off_of_task htask (fun _ => not_false)
    have hslot := consistent_of_task hinv htask rfl
    have hbody := hinv.taskOk t
    rw [htask] at hbody
    apply inv_settle hinv hbefore
    intro chunk hchunk
    rcases overlapped_some hchunk with
      ⟨header, bytes, len, hread, hbytes, haccept, hverified⟩
    have hheader := readHeader_ok hread
    have hle := slotHeader_bodyLen_le hheader.symm
    apply good_of_verified _ haccept hverified
    rw [hbody bytes hbytes, take_bodyBytes _ s.dir slot hle]
    exact hslot header hheader.symm
  · cases hstep

theorem inv_readBody (hexclusive : Exclusive s (.readBody t))
    (hstep : step cfg s (.readBody t) = some s') : Inv puts cfg s' := by
  simp only [step] at hstep
  split at hstep
  · rename_i key slot header len htask
    cases hstep
    have hbefore := off_of_task htask (fun _ => not_false)
    have hslot := consistent_of_task hinv htask rfl
    have hheaded := hinv.taskOk t
    rw [htask] at hheaded
    rcases hheaded with ⟨hheader, haccept⟩
    cases hread : Cache.readBody cfg s.dir slot (dependentReadLen cfg len) with
    | error e =>
      exact inv_set_reader hinv s.index hbefore (fun _ => not_false) trivial
        (fun _ hr => absurd hr not_false)
    | ok body =>
      apply inv_settle hinv hbefore
      intro chunk hchunk
      have hverified : verified cfg header body len = some chunk := by
        simpa using hchunk
      have hle := slotHeader_bodyLen_le hheader
      have hlen := (accept_some haccept).right
      apply good_of_verified _ haccept hverified
      rw [readBody_ok hread, hlen,
        take_bodyBytes _ s.dir slot (le_dependentReadLen hle)]
      exact hslot header hheader
  · rename_i key slot htask
    have hbefore := off_of_task htask (fun _ => not_false)
    split at hstep
    · cases hstep
    cases hstep
    apply inv_set_reader hinv s.index hbefore
    · exact fun _ => not_false
    · intro body hbody
      exact readBody_ok hbody
    · intro slot' hr
      have heq : slot = slot' := hr
      rw [← heq]
      exact hexclusive key slot htask
  · rename_i key slot answer htask
    cases hstep
    have hbefore := off_of_task htask (fun _ => not_false)
    have hslot := consistent_of_task hinv htask rfl
    have hhead := hinv.taskOk t
    rw [htask] at hhead
    apply inv_settle hinv hbefore
    intro chunk hchunk
    rcases overlapped_some hchunk with
      ⟨header, bytes, len, hread, hbytes, haccept, hverified⟩
    have hheader := hhead _ hread
    have hle := slotHeader_bodyLen_le hheader.symm
    apply good_of_verified _ haccept hverified
    rw [readBody_ok hbytes, take_bodyBytes _ s.dir slot hle]
    exact hslot header hheader.symm
  · cases hstep

theorem others_off {t slot : Nat} (hwrites : (s.tasks t).WritesTo slot)
    {u : Nat} (hu : u ≠ t) :
    ¬ (s.tasks u).ReadsFrom slot ∧ ¬ (s.tasks u).WritesTo slot := by
  constructor
  · intro hr
    exact hinv.noWriterWhileRead slot u t hr hwrites
  · intro hw
    exact hu (hinv.oneWriter slot u t hw hwrites)

theorem inv_writeBody (hstep : step cfg s (.writeBody t) = some s')
    : Inv puts cfg s' := by
  simp only [step] at hstep
  split at hstep
  · rename_i slot key chunk htask
    have hclaimed := hinv.taskOk t
    have hwrites : (s.tasks t).WritesTo slot := by
      rw [htask]
      rfl
    rw [htask] at hclaimed
    rcases hclaimed with ⟨hput, hlen, hslot⟩
    have hquiet : forall s', s' ≠ slot ->
        (forall u, u ≠ t -> ¬ (s.tasks u).WritesTo s') ->
          Consistent puts cfg.chunkSize s.dir s' := by
      intro s' hne hothers
      refine hinv.quiet_of_others ?_ hothers
      rw [htask]
      exact fun heq => hne heq.symm
    split at hstep
    · cases hstep
      apply inv_set hinv
      · trivial
      · intro u _
        exact hinv.taskOk u
      · intro slot' hw
        exact absurd hw not_false
      · intro slot' hr
        exact absurd hr not_false
      · intro slot' _ hothers
        by_cases heq : slot' = slot
        · rw [heq]
          exact hslot
        · exact hquiet slot' heq hothers
    · rename_i page hpage
      cases hstep
      rcases SlotHeader.writeTo_ok hpage with ⟨hfits, hfilled⟩
      apply inv_set hinv
      · refine ⟨key, chunk, hput, hlen, hfits, hfilled, ?_⟩
        exact bodyBytes_writeBody_same cfg.chunkSize s.dir slot chunk.body
      · intro u hu
        have hoff := others_off hinv hwrites hu
        apply (hinv.taskOk u).frame _ _ hoff.left hoff.right
        · intro s' _
          exact slotHeader_writeBody cfg.chunkSize s.dir slot chunk.body s'
        · intro s' hne n hn
          exact bodyBytes_writeBody_of_ne s.dir hlen hn hne
      · intro slot' hw u hu
        have heq : slot = slot' := hw
        rw [← heq]
        exact others_off hinv hwrites hu
      · intro slot' hr
        exact absurd hr not_false
      · intro slot' hnot hothers
        have hne : slot' ≠ slot := fun heq => hnot heq.symm
        exact (hquiet slot' hne hothers).writeBody_of_ne hlen hne
  · cases hstep

theorem inv_writeHeader (hchunk : cfg.chunkSize < 2 ^ 32)
    (hstep : step cfg s (.writeHeader t) = some s') : Inv puts cfg s' := by
  simp only [step] at hstep
  split at hstep
  · rename_i slot page htask
    cases hstep
    have hwritten := hinv.taskOk t
    have hwrites : (s.tasks t).WritesTo slot := by
      rw [htask]
      rfl
    rw [htask] at hwritten
    rcases hwritten with ⟨key, chunk, hput, hlen, hfits, hpage, hbody⟩
    have hpageLen : page.length = slotHeaderBytes := by
      rw [hpage]
      exact SlotHeader.length_filled hfits length_blankPage
    apply inv_set hinv
    · trivial
    · intro u hu
      have hoff := others_off hinv hwrites hu
      apply (hinv.taskOk u).frame _ _ hoff.left hoff.right
      · intro s' hne
        exact slotHeader_writeHeader_of_ne cfg.chunkSize s.dir hpageLen hne
      · intro s' _ n _
        exact bodyBytes_writeHeader cfg.chunkSize s.dir slot hpageLen s' n
    · intro slot' hw
      exact absurd hw not_false
    · intro slot' hr
      exact absurd hr not_false
    · intro slot' _ hothers
      by_cases heq : slot' = slot
      · rw [heq, hpage]
        exact consistent_writeHeader_same hput hfits
          (Nat.lt_of_le_of_lt hlen hchunk) hbody
      · have hslot : Consistent puts cfg.chunkSize s.dir slot' := by
          refine hinv.quiet_of_others ?_ hothers
          rw [htask]
          exact fun h => heq h.symm
        exact hslot.writeHeader_of_ne hpageLen heq
  · cases hstep

theorem inv_forget (hstep : step cfg s (.forget t) = some s') :
    Inv puts cfg s' := by
  simp only [step] at hstep
  split at hstep
  · rename_i key slot htask
    cases hstep
    have hbefore := off_of_task htask (fun _ => not_false)
    exact inv_set_reader hinv _ hbefore (fun _ => not_false) trivial
      (fun _ hr => absurd hr not_false)
  · rename_i slot message htask
    cases hstep
    have hbefore := off_of_task htask (fun _ => not_false)
    exact inv_set_reader hinv _ hbefore (fun _ => not_false) trivial
      (fun _ hr => absurd hr not_false)
  · cases hstep

end

theorem inv_step (hchunk : cfg.chunkSize < 2 ^ 32) {s s' : State} {e : Event}
    (hinv : Inv puts cfg s)
    (hputs : forall t key chunk, e = .put t key chunk -> puts key chunk)
    (hexclusive : Exclusive s e) (hstep : step cfg s e = some s') :
    Inv puts cfg s' := by
  cases e with
  | get t key => exact inv_get hinv hstep
  | put t key chunk =>
    exact inv_put hinv (hputs t key chunk rfl) hexclusive hstep
  | remove key =>
    cases hstep
    exact ⟨hinv.oneWriter, hinv.noWriterWhileRead, hinv.quiet, hinv.taskOk⟩
  | readHeader t => exact inv_readHeader hinv hexclusive hstep
  | readBody t => exact inv_readBody hinv hexclusive hstep
  | writeBody t => exact inv_writeBody hinv hstep
  | writeHeader t => exact inv_writeHeader hinv hchunk hstep
  | forget t => exact inv_forget hinv hstep

theorem inv_start {store : Store} (hopen : openStore cfg noFiles = .ok store) :
    Inv puts cfg (State.start store) := by
  rcases openStore_ok hopen with ⟨_, rfl⟩
  refine ⟨?_, ?_, ?_, ?_⟩
  · intro slot t u ht
    exact absurd ht not_false
  · intro slot t u ht
    exact absurd ht not_false
  · intro slot _
    apply shows_of_free
    change slotHeader cfg.chunkSize (sizedTo cfg noFiles) slot = none
    rw [slotHeader_sizedTo, slotHeader_noFiles]
  · intro t
    trivial

/-!
## Runs
-/

/-- In a run whose steps are all exclusive, a get that returns a chunk returns
the body and the ETag of one chunk a put of its key was called with. -/
theorem gets_serve_own_puts {cfg : StoreConfig}
    (hchunk : cfg.chunkSize < 2 ^ 32) {store : Store}
    (hopen : openStore cfg noFiles = .ok store) {events : List Event}
    {final : State}
    (hexclusive : Transition.Along (step cfg) Exclusive
      (State.start store) events)
    (hrun : Transition.run (step cfg) (State.start store) events = some final)
    {t : Nat} {key : String} {chunk : CachedChunk}
    (hreturned : final.tasks t = .returned key (some chunk)) :
    exists u given, Event.put u key given ∈ events ∧
      chunk.body = given.body ∧
      chunk.eTag = SlotHeader.witness given.eTag := by
  let puts : Puts := fun key given => exists u, Event.put u key given ∈ events
  have hmember : Transition.Along (step cfg) (fun _ e => e ∈ events)
      (State.start store) events :=
    Transition.along_of_forall (fun _ he => he) (step cfg) _
  have hinv : Inv puts cfg final := by
    refine Transition.run_preserves ?_ (inv_start hopen)
      (Transition.along_and hexclusive hmember) hrun
    intro s e s' hs hguard hstep
    apply inv_step hchunk hs _ hguard.left hstep
    intro u k given he
    exact ⟨u, he ▸ hguard.right⟩
  have hserved := hinv.taskOk t
  rw [hreturned] at hserved
  rcases hserved with ⟨given, ⟨u, hmem⟩, hbody, heTag⟩
  exact ⟨u, given, hmem, hbody, heTag⟩

/-!
## A reused slot

On a tier of one slot, a put of another key between the two reads of a get
makes the get return that key's body.
-/

theorem step_put (hidle : s.tasks t = .idle)
    (hlen : chunk.body.length ≤ cfg.chunkSize)
    (hclaim : s.index.claim key (putHeader key chunk) = some (slot, index)) :
    step cfg s (.put t key chunk) =
      some ({ s with index := index }.set t (.claimed slot key chunk)) := by
  simp [step, hidle, Nat.not_lt.mpr hlen, hclaim]

theorem step_writeBody (hclaimed : s.tasks t = .claimed slot key chunk)
    (hfits : (putHeader key chunk).Fits) :
    step cfg s (.writeBody t) =
      some ({ s with
        dir := Cache.writeBody cfg.chunkSize s.dir slot chunk.body
      }.set t (.written slot
        ((putHeader key chunk).filled blankPage))) := by
  simp [step, hclaimed, SlotHeader.writeTo_of_fits hfits]

theorem step_writeHeader {page : Bytes}
    (hwritten : s.tasks t = .written slot page) :
    step cfg s (.writeHeader t) =
      some ({ s with
        dir := Cache.writeHeader cfg.chunkSize s.dir slot page
      }.set t (.finished (.ok ()))) := by
  simp [step, hwritten]

theorem step_get (hidle : s.tasks t = .idle)
    (htouch : s.index.touch key = some (slot, index)) :
    step cfg s (.get t key) =
      some ({ s with index := index }.set t (.touched key slot)) := by
  simp [step, hidle, htouch]

theorem step_readHeader {t slot len : Nat} (hshape : cfg.readShape = .twoRead)
    (htouched : s.tasks t = .touched key slot)
    (hread : Cache.readHeader cfg s.dir slot = .ok (some header))
    (haccept : accept key header = some len) :
    step cfg s (.readHeader t) =
      some (s.set t (.headed key slot header len)) := by
  simp [step, htouched, hshape, hread, Task.afterHeader, haccept]

theorem step_readBody {t slot len : Nat} {body : Bytes}
    (hheaded : s.tasks t = .headed key slot header len)
    (hread : Cache.readBody cfg s.dir slot (dependentReadLen cfg len) =
      .ok body) (hverified : verified cfg header body len = some chunk) :
    step cfg s (.readBody t) =
      some (s.set t (.returned key (some chunk))) := by
  simp [step, hheaded, hread, Task.afterBody, hverified, Task.settle]

/-- The tier of one slot once `a` is stored and a get of `a` has accepted its
header. -/
def headedState (dir : Directory) : State :=
  { index := ((Index.empty.occupy 0 "a" 1 (bodyCrc [1])).unlinkLinked 0).pushBack 0,
    dir := Cache.writeHeader 4096 (Cache.writeBody 4096 dir 0 [1]) 0
      ((putHeader "a" (single 1)).filled blankPage),
    tasks := update
      (update (fun _ => Task.idle) 0 (.finished (.ok ()))) 1
      (.headed "a" 0 (putHeader "a" (single 1)) 1) }

theorem sized_headedState (h : Sized (pageStore 1) dir) :
    Sized (pageStore 1) (headedState dir).dir := by
  have hslot := zero_lt_slotCount_pageStore 1
  have hfits := fits_a 1
  apply sized_writeHeader _ hslot
    (SlotHeader.length_filled hfits length_blankPage)
  exact sized_writeBody h hslot (length_single_le 1 1)

def headedEvents : List Event :=
  [.put 0 "a" (single 1), .writeBody 0, .writeHeader 0,
    .get 1 "a", .readHeader 1]

theorem run_headedState (hsized : Sized (pageStore 1) dir) :
    Transition.run (step (pageStore 1))
        (State.start { index := { Index.empty with free := [0] }, dir := dir })
        headedEvents = some (headedState dir) ∧
      Transition.Along (step (pageStore 1)) Exclusive
        (State.start { index := { Index.empty with free := [0] }, dir := dir })
        headedEvents := by
  have hfits := fits_a 1
  have hslot := zero_lt_slotCount_pageStore 1
  have hheader : Cache.readHeader (pageStore 1) (headedState dir).dir 0 =
      .ok (some (putHeader "a" (single 1))) := by
    rw [readHeader_of_sized (sized_headedState hsized) hslot]
    exact congrArg Except.ok (slotHeader_a _ 0 1 1)
  refine Transition.run_along_cons ?_
    (step_put rfl (length_single_le 1 1) rfl) ?_
  · intro slot index _ t
    exact ⟨not_false, not_false⟩
  refine Transition.run_along_cons trivial (step_writeBody rfl hfits) ?_
  refine Transition.run_along_cons trivial (step_writeHeader rfl) ?_
  refine Transition.run_along_cons trivial (step_get rfl rfl) ?_
  refine Transition.run_along_cons ?_ (step_readHeader rfl rfl hheader rfl) ?_
  · intro key slot _ other
    simp only [State.set, State.start, update_apply]
    split_ifs <;> exact not_false
  · simp only [State.set, State.start, update_idem]
    exact ⟨rfl, trivial⟩

theorem verified_writeBody {body : Bytes} {n : Nat}
    (hverify : cfg.verifyBody = false) (hn : body.length ≤ n) :
    verified cfg header
        (bodyBytes cfg.chunkSize
          (Cache.writeBody cfg.chunkSize dir slot body) slot n) body.length =
      some { body := body, eTag := header.eTag } := by
  have htake : (bodyBytes cfg.chunkSize
      (Cache.writeBody cfg.chunkSize dir slot body) slot n).take body.length =
        body := by
    rw [take_bodyBytes _ _ slot hn, bodyBytes_writeBody_same]
  simp [verified, hverify, htake]

def reuseRace : List Event :=
  headedEvents ++
    [.put 2 "b" (single 2), .writeBody 2, .readBody 1]

theorem reuseRace_serves_other_key :
    exists store final,
      openStore (pageStore 1) noFiles = .ok store ∧
        Transition.run (step (pageStore 1)) (State.start store)
          reuseRace = some final ∧
        final.tasks 1 = .returned "a" (some (single 2)) ∧
        forall u given, Event.put u "a" given ∈ reuseRace ->
          given.body ≠ (single 2).body := by
  have hsized := sized_sizedTo (pageStore 1) noFiles
  have hslot := zero_lt_slotCount_pageStore 1
  have hfits := fits_b 2
  have hread := readBody_of_sized (n := 4096)
    (sized_writeBody (sized_headedState hsized) hslot
      (length_single_le 2 1)) hslot (Nat.le_refl 4096)
  have hrace : exists final, Transition.run (step (pageStore 1))
      (headedState (sizedTo (pageStore 1) noFiles))
      [.put 2 "b" (single 2), .writeBody 2, .readBody 1] = some final ∧
        final.tasks 1 = .returned "a" (some (single 2)) := by
    refine Transition.run_exists_cons
      (step_put rfl (length_single_le 2 1) rfl) ?_
    refine Transition.run_exists_cons (step_writeBody rfl hfits) ?_
    refine Transition.run_exists_cons (step_readBody rfl hread
      (verified_writeBody rfl (length_single_le 2 1))) ?_
    exact ⟨_, rfl, rfl⟩
  rcases hrace with ⟨final, hrun, hreturned⟩
  refine ⟨_, final, openStore_oneSlot, ?_, hreturned, ?_⟩
  · rw [reuseRace, Transition.run_append, (run_headedState hsized).left,
      Option.bind_some]
    exact hrun
  · intro u given hmem
    simp [reuseRace, headedEvents] at hmem
    rw [hmem.right]
    decide

/-- The get left to read its body undisturbed returns what the put of `a` was
given. -/
theorem gets_serve_own_puts_single :
    exists u given, Event.put u "a" given ∈ headedEvents ++ [.readBody 1] ∧
      (single 1).body = given.body ∧
      (single 1).eTag = SlotHeader.witness given.eTag := by
  have hsized := sized_sizedTo (pageStore 1) noFiles
  have hslot := zero_lt_slotCount_pageStore 1
  have hread := readBody_of_sized (n := 4096) (sized_headedState hsized)
    hslot (Nat.le_refl 4096)
  have hverified : verified (pageStore 1)
      (putHeader "a" (single 1))
      (bodyBytes 4096 (headedState (sizedTo (pageStore 1) noFiles)).dir
        0 4096) 1 = some (single 1) := by
    have hfits := fits_a 1
    rw [headedState, bodyBytes_writeHeader 4096 _ 0
      (SlotHeader.length_filled hfits length_blankPage)]
    exact verified_writeBody rfl (length_single_le 1 1)
  have hguard : Exclusive
      (headedState (sizedTo (pageStore 1) noFiles)) (.readBody 1) := by
    intro key slot htask
    simp [headedState] at htask
  have hend := Transition.run_along_append (run_headedState hsized)
    (Transition.run_along_cons hguard
      (step_readBody rfl hread hverified)
      ⟨Transition.run_nil _ _, trivial⟩)
  have hreturned : ((headedState (sizedTo (pageStore 1) noFiles)).set 1
      (.returned "a" (some (single 1)))).tasks 1 =
        .returned "a" (some (single 1)) := rfl
  exact gets_serve_own_puts (show 4096 < 2 ^ 32 by decide)
    (openStore_oneSlot) hend.right hend.left hreturned

end Concurrent

end Cache
end Pacer
