import Pacer.Cache.Chunk
import Pacer.Foundation.Table
import Pacer.Foundation.Transition
import Mathlib.Logic.Function.Basic

/-!
# The footprint a write invalidates

Every write that goes through to the backend first measures the object it is
about to replace, then forwards the request, then invalidates the header key and
the chunk keys of the length it measured.  This module follows any number of
such writes of any keys through any nodes, one atomic step at a time, together
with the headers the nodes have cached, which may be of any version there was.

A batch delete measures all of its keys before it is forwarded, and the backend
takes its keys in any order and may refuse some.  A write that the backend fails
returns without invalidating and is not followed further.
-/

namespace Pacer
namespace Daemon

open Foundation Function
open Foundation.Transition
open Cache

namespace Footprint

inductive Request where
  | putObject (objectKey : String) (objectLen : Nat)
  | copyObject (objectKey : String) (objectLen : Nat)
  | deleteObject (objectKey : String)
  | deleteObjects (objectKeys : List String)
  | completeMultipartUpload (objectKey : String) (objectLen : Nat)
deriving DecidableEq, Repr

structure Target where
  objectKey : String
  newLen : Option Nat
deriving DecidableEq, Repr

def Request.targets : Request -> List Target
  | .putObject objectKey objectLen => [⟨objectKey, some objectLen⟩]
  | .copyObject objectKey objectLen => [⟨objectKey, some objectLen⟩]
  | .deleteObject objectKey => [⟨objectKey, none⟩]
  | .deleteObjects objectKeys => objectKeys.map fun key => ⟨key, none⟩
  | .completeMultipartUpload objectKey objectLen =>
    [⟨objectKey, some objectLen⟩]

inductive Outcome where
  | pending
  | refused
  | replaced (old : Option Nat)
deriving DecidableEq, Repr

structure Item where
  target : Target
  footprint : Option Nat
  outcome : Outcome
deriving DecidableEq, Repr

inductive Phase where
  | measuring (left : List Target) (items : List Item)
  | forwarded (items : List Item)
  | invalidating (items : List Item) (left calls : List String)
  | failed
deriving DecidableEq, Repr

def Phase.items : Phase -> List Item
  | .measuring _ items => items
  | .forwarded items => items
  | .invalidating items _ _ => items
  | .failed => []

structure Write (node : Type) where
  node : node
  phase : Phase

/-- The backend's lengths, the lengths each key ever had, the lengths in the
cached headers, and the writes. -/
structure State (node : Type) where
  backend : String -> Option Nat
  versions : String -> List Nat
  headers : node -> String -> Option Nat
  writes : Nat -> Option (Write node)

inductive Event (node : Type) where
  | begin (w : Nat) (n : node) (request : Request)
  | measure (w : Nat) (headFails : Bool)
  | forward (w : Nat)
  | commit (w i : Nat) (refused : Bool)
  | answer (w : Nat)
  | fail (w : Nat)
  | invalidateKey (w : Nat) (reached : List node)
  | cacheHeader (n : node) (objectKey : String) (objectLen : Nat)
  | evictHeader (n : node) (objectKey : String)

/-- The length of the object a write is about to replace: a cached header
answers, otherwise the backend does.  `none` refuses the write. -/
def staleFootprint (header : Option Nat) (head : Option (Option Nat)) :
    Option (Option Nat) :=
  match header with
  | some objectLen => some (some objectLen)
  | none => head

def chunksOf (cfg : ChunkConfig) (len : Option Nat) : Nat :=
  match len with
  | none => 0
  | some objectLen => cfg.chunkCount objectLen

def invalidated (cfg : ChunkConfig) (item : Item) : List String :=
  item.target.objectKey :: (List.range (chunksOf cfg item.footprint)).map
    (cfg.chunkKey item.target.objectKey)

variable {node : Type}

def State.setWrite (s : State node) (w : Nat) (write : Write node) :
    State node :=
  { s with writes := update s.writes w (some write) }

def State.pendingAt (s : State node) (w i : Nat) : Option Item :=
  match s.writes w with
  | none => none
  | some write =>
    match write.phase.items[i]? with
    | none => none
    | some item => if item.outcome = .pending then some item else none

def State.settle (s : State node) (item : Item) (refused : Bool) :
    State node :=
  if refused then s
  else
    { s with
      backend := update s.backend item.target.objectKey
        item.target.newLen,
      versions := update s.versions item.target.objectKey
        (item.target.newLen.toList ++ s.versions item.target.objectKey) }

def settled (s : State node) (item : Item) (refused : Bool) : Item :=
  if refused then { item with outcome := .refused }
  else { item with outcome := .replaced (s.backend item.target.objectKey) }

def dropHeaders [DecidableEq node] (headers : node -> String -> Option Nat)
    (nodes : List node) (key : String) : node -> String -> Option Nat :=
  fun n => if n ∈ nodes then update (headers n) key none
    else headers n

def step [DecidableEq node] (cfg : ChunkConfig) (s : State node) :
    Event node -> Option (State node)
  | .begin w n request =>
    match s.writes w with
    | some _ => none
    | none => some (s.setWrite w ⟨n, .measuring request.targets []⟩)
  | .measure w headFails =>
    match s.writes w with
    | some ⟨n, .measuring (target :: left) items⟩ =>
      match staleFootprint (s.headers n target.objectKey)
          (if headFails then none
            else some (s.backend target.objectKey)) with
      | none => some (s.setWrite w ⟨n, .failed⟩)
      | some footprint =>
        some (s.setWrite w ⟨n, .measuring left
          (items ++ [⟨target, footprint, .pending⟩])⟩)
    | _ => none
  | .forward w =>
    match s.writes w with
    | some ⟨n, .measuring [] items⟩ =>
      some (s.setWrite w ⟨n, .forwarded items⟩)
    | _ => none
  | .commit w i refused =>
    match s.writes w with
    | some ⟨n, .forwarded items⟩ =>
      match s.pendingAt w i with
      | none => none
      | some item =>
        some ((s.settle item refused).setWrite w
          ⟨n, .forwarded (items.set i (settled s item refused))⟩)
    | _ => none
  | .answer w =>
    match s.writes w with
    | some ⟨n, .forwarded items⟩ =>
      if items.all fun item => item.outcome != .pending then
        some (s.setWrite w
          ⟨n, .invalidating items (items.flatMap (invalidated cfg)) []⟩)
      else none
    | _ => none
  | .fail w =>
    match s.writes w with
    | some ⟨n, .forwarded _⟩ => some (s.setWrite w ⟨n, .failed⟩)
    | _ => none
  | .invalidateKey w reached =>
    match s.writes w with
    | some ⟨n, .invalidating items (key :: left) calls⟩ =>
      some ({ s with
        headers := dropHeaders s.headers (n :: reached) key }.setWrite w
          ⟨n, .invalidating items left (calls ++ [key])⟩)
    | _ => none
  | .cacheHeader n objectKey objectLen =>
    if objectLen ∈ s.versions objectKey then
      some { s with
        headers := update s.headers n
          (update (s.headers n) objectKey (some objectLen)) }
    else none
  | .evictHeader n objectKey =>
    some { s with headers := dropHeaders s.headers [n] objectKey }

/-!
## When the footprint covers what is replaced
-/

/-- A header that answers for the object is of as many chunks at least, and no
commit gives the object more chunks while another write of the key is between
its measurement and its commit. -/
def Unraced (cfg : ChunkConfig) (s : State node) : Event node -> Prop
  | .measure w _ => forall n target left items objectLen,
      s.writes w = some ⟨n, .measuring (target :: left) items⟩ ->
      s.headers n target.objectKey = some objectLen ->
      chunksOf cfg (s.backend target.objectKey) ≤ cfg.chunkCount objectLen
  | .commit w i false => forall item, s.pendingAt w i = some item ->
      chunksOf cfg item.target.newLen ≤
          chunksOf cfg (s.backend item.target.objectKey) ∨
        forall w' i' other, s.pendingAt w' i' = some other ->
          other.target.objectKey = item.target.objectKey ->
          w' = w ∧ i' = i
  | _ => True

def Covered (cfg : ChunkConfig) (backend : String -> Option Nat)
    (item : Item) : Prop :=
  match item.outcome with
  | .pending =>
    chunksOf cfg (backend item.target.objectKey) ≤
      chunksOf cfg item.footprint
  | .refused => True
  | .replaced old => chunksOf cfg old ≤ chunksOf cfg item.footprint

/-- Every footprint is enough, and a write that invalidates has dropped or is
yet to drop the keys of its footprints. -/
structure Measured (cfg : ChunkConfig) (s : State node) : Prop where
  covered : forall w write (i : Nat) item, s.writes w = some write ->
    write.phase.items[i]? = some item -> Covered cfg s.backend item
  dropped : forall w n items left calls,
    s.writes w = some ⟨n, .invalidating items left calls⟩ ->
    calls ++ left = items.flatMap (invalidated cfg)

variable {i : Nat} {item : Item}

section Invariant

variable {cfg : ChunkConfig} {s s' : State node} {w : Nat}

theorem pendingAt_eq_some :
    s.pendingAt w i = some item <->
      exists write, s.writes w = some write ∧
        write.phase.items[i]? = some item ∧ item.outcome = .pending := by
  unfold State.pendingAt
  constructor
  · intro h
    split at h
    · cases h
    rename_i write hwrite
    split at h
    · cases h
    rename_i found hfound
    split at h
    · rename_i hpending
      cases h
      exact ⟨write, hwrite, hfound, hpending⟩
    · cases h
  · rintro ⟨write, hwrite, hitem, hpending⟩
    rw [hwrite]
    dsimp only
    rw [hitem]
    dsimp only
    rw [if_pos hpending]

theorem Covered.backend_le {backend backend' : String -> Option Nat}
    (h : Covered cfg backend item)
    (hle : item.outcome = .pending ->
      chunksOf cfg (backend' item.target.objectKey) ≤
        chunksOf cfg (backend item.target.objectKey)) :
    Covered cfg backend' item := by
  unfold Covered at h ⊢
  split
  · rename_i hpending
    rw [hpending] at h
    exact Nat.le_trans (hle hpending) h
  · trivial
  · rename_i old hreplaced
    rw [hreplaced] at h
    exact h

theorem Measured.setWrite (h : Measured cfg s) {write : Write node}
    (hitems : forall (i : Nat) item, write.phase.items[i]? = some item ->
      Covered cfg s.backend item)
    (hdropped : forall items left calls,
      write.phase = .invalidating items left calls ->
      calls ++ left = items.flatMap (invalidated cfg)) :
    Measured cfg (s.setWrite w write) := by
  constructor
  · intro w' write' i item hwrite hitem
    rcases Table.update_cases hwrite with ⟨_, hnew⟩ | ⟨_, hold⟩
    · cases hnew
      exact hitems i item hitem
    · exact h.covered w' write' i item hold hitem
  · intro w' n items left calls hwrite
    rcases Table.update_cases hwrite with ⟨_, hnew⟩ | ⟨_, hold⟩
    · cases hnew
      exact hdropped items left calls rfl
    · exact h.dropped w' n items left calls hold

theorem Measured.setUnmeasured (h : Measured cfg s) {write : Write node}
    (hitems : write.phase.items = [])
    (hphase : forall items left calls,
      write.phase ≠ .invalidating items left calls) :
    Measured cfg (s.setWrite w write) := by
  apply h.setWrite
  · intro i item hitem
    rw [hitems] at hitem
    cases hitem
  · intro items left calls hinvalidating
    exact absurd hinvalidating (hphase items left calls)

theorem Measured.setHeaders (h : Measured cfg s)
    (headers : node -> String -> Option Nat) :
    Measured cfg { s with headers := headers } :=
  ⟨h.covered, h.dropped⟩

theorem covered_of_staleFootprint {header footprint : Option Nat}
    {headFails : Bool} {target : Target}
    (hheader : forall objectLen, header = some objectLen ->
      chunksOf cfg (s.backend target.objectKey) ≤ cfg.chunkCount objectLen)
    (h : staleFootprint header
      (if headFails then none else some (s.backend target.objectKey)) =
        some footprint) :
    Covered cfg s.backend ⟨target, footprint, .pending⟩ := by
  show chunksOf cfg (s.backend target.objectKey) ≤ chunksOf cfg footprint
  unfold staleFootprint at h
  split at h
  · rename_i objectLen
    cases h
    exact hheader objectLen rfl
  · split at h
    · cases h
    · cases h
      exact Nat.le_refl _

variable {refused : Bool}

theorem covered_settled (hpending : item.outcome = .pending)
    (h : Covered cfg s.backend item) (backend : String -> Option Nat) :
    Covered cfg backend (settled s item refused) := by
  unfold settled
  split
  · trivial
  · show chunksOf cfg (s.backend item.target.objectKey) ≤
      chunksOf cfg item.footprint
    unfold Covered at h
    rw [hpending] at h
    exact h

theorem writes_settle (item : Item) (refused : Bool) :
    (s.settle item refused).writes = s.writes := by
  unfold State.settle
  split
  · rfl
  · rfl

theorem covered_settle (h : Measured cfg s)
    (hguard : Unraced cfg s (.commit w i refused))
    (hitem : s.pendingAt w i = some item) {w' i' : Nat} {write : Write node}
    {other : Item} (hwrite : s.writes w' = some write)
    (hother : write.phase.items[i']? = some other) (hne : ¬ (w' = w ∧ i' = i)) :
    Covered cfg (s.settle item refused).backend other := by
  apply (h.covered w' write i' other hwrite hother).backend_le
  intro hpending
  unfold State.settle
  split
  · exact Nat.le_refl _
  · rename_i hrefused
    rw [Bool.not_eq_true] at hrefused
    subst hrefused
    show chunksOf cfg (update s.backend _ _ _) ≤ _
    rcases eq_or_ne other.target.objectKey item.target.objectKey with
      hkey | hkey
    · rw [hkey, update_self]
      rcases hguard item hitem with hshort | halone
      · exact hshort
      · have hat : s.pendingAt w' i' = some other :=
          pendingAt_eq_some.mpr ⟨write, hwrite, hother, hpending⟩
        exact absurd (halone w' i' other hat hkey) hne
    · rw [update_of_ne hkey]

theorem Measured.commit (h : Measured cfg s) {n : node} {items : List Item}
    (hguard : Unraced cfg s (.commit w i refused))
    (hwrite : s.writes w = some ⟨n, .forwarded items⟩)
    (hitem : s.pendingAt w i = some item) :
    Measured cfg ((s.settle item refused).setWrite w
      ⟨n, .forwarded (items.set i (settled s item refused))⟩) := by
  rcases pendingAt_eq_some.mp hitem with ⟨write, hsame, hat, hpending⟩
  have hold := h.covered w write i item hsame hat
  constructor
  · intro w' write' i' other hwrite' hother
    rcases Table.update_cases hwrite' with ⟨rfl, hnew⟩ | ⟨hne, hold'⟩
    · cases hnew
      change (items.set i (settled s item refused))[i']? = some other
        at hother
      rcases eq_or_ne i i' with rfl | hindex
      · rw [List.getElem?_set_self'] at hother
        rcases Option.map_eq_some_iff.mp hother with ⟨_, _, rfl⟩
        exact covered_settled hpending hold _
      · rw [List.getElem?_set_ne hindex] at hother
        exact covered_settle h hguard hitem hwrite hother
          (fun heq => hindex heq.right.symm)
    · rw [writes_settle] at hold'
      exact covered_settle h hguard hitem hold' hother
        (fun heq => hne heq.left)
  · intro w' n' items' left calls hwrite'
    rcases Table.update_cases hwrite' with ⟨_, hnew⟩ | ⟨_, hold'⟩
    · cases hnew
    rw [writes_settle] at hold'
    exact h.dropped w' n' items' left calls hold'

theorem Measured.measure (h : Measured cfg s) {n : node} {target : Target}
    {left : List Target} {items : List Item} {footprint : Option Nat}
    (hwrite : s.writes w = some ⟨n, .measuring (target :: left) items⟩)
    (hnew : Covered cfg s.backend ⟨target, footprint, .pending⟩) :
    Measured cfg (s.setWrite w
      ⟨n, .measuring left (items ++ [⟨target, footprint, .pending⟩])⟩) := by
  apply h.setWrite
  · intro i item hitem
    rcases List.mem_append.mp (List.mem_of_getElem? hitem) with hold | hlast
    · rcases List.getElem?_of_mem hold with ⟨j, hj⟩
      exact h.covered w _ j item hwrite hj
    · rw [List.mem_singleton.mp hlast]
      exact hnew
  · intro items left calls hphase
    cases hphase

theorem Measured.step [DecidableEq node] {e : Event node} (h : Measured cfg s)
    (hguard : Unraced cfg s e) (hstep : step cfg s e = some s') :
    Measured cfg s' := by
  cases e with
  | begin w n request =>
    unfold Footprint.step at hstep
    dsimp only at hstep
    split at hstep
    · cases hstep
    · cases hstep
      exact h.setUnmeasured rfl nofun
  | measure w headFails =>
    unfold Footprint.step at hstep
    dsimp only at hstep
    split at hstep
    · rename_i n target left items hwrite
      split at hstep
      · cases hstep
        exact h.setUnmeasured rfl nofun
      · rename_i footprint hfootprint
        cases hstep
        exact h.measure hwrite (covered_of_staleFootprint
          (hguard n target left items · hwrite) hfootprint)
    · cases hstep
  | forward w =>
    unfold Footprint.step at hstep
    dsimp only at hstep
    split at hstep
    · rename_i n items hwrite
      cases hstep
      apply h.setWrite
      · intro i item hitem
        exact h.covered w _ i item hwrite hitem
      · intro items left calls hphase
        cases hphase
    · cases hstep
  | commit w i refused =>
    unfold Footprint.step at hstep
    dsimp only at hstep
    split at hstep
    · rename_i n items hwrite
      split at hstep
      · cases hstep
      rename_i item hitem
      cases hstep
      exact h.commit hguard hwrite hitem
    · cases hstep
  | answer w =>
    unfold Footprint.step at hstep
    dsimp only at hstep
    split at hstep
    · rename_i n items hwrite
      split at hstep
      · cases hstep
        apply h.setWrite
        · intro i item hitem
          exact h.covered w _ i item hwrite hitem
        · intro items' left calls hphase
          cases hphase
          rfl
      · cases hstep
    · cases hstep
  | fail w =>
    unfold Footprint.step at hstep
    dsimp only at hstep
    split at hstep
    · cases hstep
      exact h.setUnmeasured rfl nofun
    · cases hstep
  | invalidateKey w reached =>
    unfold Footprint.step at hstep
    dsimp only at hstep
    split at hstep
    · rename_i n items key left calls hwrite
      cases hstep
      apply (h.setHeaders _).setWrite
      · intro i item hitem
        exact h.covered w _ i item hwrite hitem
      · intro items' left' calls' hphase
        cases hphase
        rw [List.append_assoc]
        exact h.dropped w n items (key :: left) calls hwrite
    · cases hstep
  | cacheHeader n objectKey objectLen =>
    unfold Footprint.step at hstep
    dsimp only at hstep
    split at hstep
    · cases hstep
      exact ⟨h.covered, h.dropped⟩
    · cases hstep
  | evictHeader n objectKey =>
    cases hstep
    exact h.setHeaders _

end Invariant

def State.Idle (s : State node) : Prop :=
  forall w, s.writes w = none

theorem measured_of_idle (cfg : ChunkConfig) {s : State node} (h : s.Idle) :
    Measured cfg s := by
  constructor
  · intro w write i item hwrite
    rw [h w] at hwrite
    cases hwrite
  · intro w n items left calls hwrite
    rw [h w] at hwrite
    cases hwrite

theorem mem_invalidated {cfg : ChunkConfig}
    (h : i < chunksOf cfg item.footprint) :
    cfg.chunkKey item.target.objectKey i ∈ invalidated cfg item :=
  List.mem_cons_of_mem _ (List.mem_map.mpr ⟨i, List.mem_range.mpr h, rfl⟩)

/-- In every run in which no header that answers is of fewer chunks than the
object, and no object grows between another write's measurement and its commit,
a write that has finished its invalidation has invalidated every chunk key of the
version it replaced. -/
theorem invalidation_covers_replaced [DecidableEq node] (cfg : ChunkConfig)
    {start final : State node} {events : List (Event node)}
    (hidle : start.Idle)
    (hguard : Along (step cfg) (Unraced cfg) start events)
    (hrun : run (step cfg) start events = some final)
    {w : Nat} {n : node} {items : List Item} {calls : List String}
    (hdone : final.writes w = some ⟨n, .invalidating items [] calls⟩)
    {item : Item} (hitem : item ∈ items) {old : Nat}
    (hreplaced : item.outcome = .replaced (some old)) {i : Nat}
    (hi : i < cfg.chunkCount old) :
    cfg.chunkKey item.target.objectKey i ∈ calls := by
  have hmeasured : Measured cfg final :=
    run_preserves (fun _ _ _ h => h.step) (measured_of_idle cfg hidle)
      hguard hrun
  have hcalls := hmeasured.dropped w n items [] calls hdone
  rw [List.append_nil] at hcalls
  rcases List.getElem?_of_mem hitem with ⟨j, hj⟩
  have hcovered := hmeasured.covered w _ j item hdone hj
  unfold Covered at hcovered
  rw [hreplaced] at hcovered
  rw [hcalls, List.mem_flatMap]
  refine ⟨item, hitem, mem_invalidated ?_⟩
  exact Nat.lt_of_lt_of_le hi hcovered

/-!
## Runs
-/

def chunk16 : ChunkConfig := { chunkSize := 16, positive := Nat.succ_pos _ }

def backendHas (objectLen : Option Nat) : State String :=
  { backend := fun key => if key = "b/k" then objectLen else none,
    versions := fun key => if key = "b/k" then objectLen.toList else [],
    headers := fun _ _ => none,
    writes := fun _ => none }

/-- A delete measures by a cached header and a put by the backend.  The put
commits first, and the delete replaces what it put. -/
def overlappingRun : List (Event String) :=
  [.cacheHeader "a" "b/k" 40, .begin 1 "a" (.deleteObject "b/k"),
    .begin 2 "b" (.putObject "b/k" 20), .measure 1 false, .measure 2 false,
    .forward 2, .forward 1, .commit 2 0 false, .answer 2, .commit 1 0 false,
    .invalidateKey 2 ["a"], .answer 1, .invalidateKey 1 ["b"],
    .invalidateKey 2 [], .invalidateKey 1 ["b"], .invalidateKey 2 ["a"],
    .invalidateKey 1 [], .invalidateKey 2 ["a"], .invalidateKey 1 ["b"]]

theorem unraced_overlappingRun :
    Along (step chunk16) (Unraced chunk16) (backendHas (some 40))
      overlappingRun := by
  iterate 3 apply along_cons_of_step trivial rfl
  refine along_cons_of_step ?_ rfl ?_
  · intro n target left items objectLen hwrite hheader
    cases hwrite
    cases hheader
    exact Nat.le_refl _
  refine along_cons_of_step ?_ rfl ?_
  · intro n target left items objectLen hwrite hheader
    cases hwrite
    cases hheader
  iterate 2 apply along_cons_of_step trivial rfl
  refine along_cons_of_step ?_ rfl ?_
  · intro item hitem
    cases hitem
    exact Or.inl (by decide)
  refine along_cons_of_step trivial rfl ?_
  refine along_cons_of_step ?_ rfl ?_
  · intro item hitem
    cases hitem
    exact Or.inl (Nat.zero_le _)
  iterate 8 apply along_cons_of_step trivial rfl
  exact along_cons_of_step trivial rfl trivial

def deletedItem : Item :=
  { target := ⟨"b/k", none⟩, footprint := some 40,
    outcome := .replaced (some 20) }

def putItem : Item :=
  { target := ⟨"b/k", some 20⟩, footprint := some 40,
    outcome := .replaced (some 40) }

theorem invalidation_covers_replaced_overlapping : exists final deleted put,
    run (step chunk16) (backendHas (some 40)) overlappingRun = some final ∧
    final.writes 1 = some ⟨"a", .invalidating [deletedItem] [] deleted⟩ ∧
    final.writes 2 = some ⟨"b", .invalidating [putItem] [] put⟩ ∧
    chunk16.chunkKey deletedItem.target.objectKey 1 ∈ deleted ∧
    chunk16.chunkKey putItem.target.objectKey 2 ∈ put := by
  have hdeleted : 1 < chunk16.chunkCount 20 := by decide
  have hput : 2 < chunk16.chunkCount 40 := by decide
  refine ⟨_, invalidated chunk16 deletedItem, invalidated chunk16 putItem, rfl,
    rfl, rfl, ?_, ?_⟩
  · exact invalidation_covers_replaced (w := 1) chunk16 (fun _ => rfl)
      unraced_overlappingRun rfl rfl List.mem_cons_self rfl hdeleted
  · exact invalidation_covers_replaced (w := 2) chunk16 (fun _ => rfl)
      unraced_overlappingRun rfl rfl List.mem_cons_self rfl hput

/-- Two writers find no object, one puts forty bytes and returns, and the other
replaces them.  It measured nothing, so the chunk keys of the forty bytes are
not invalidated. -/
theorem racing_writer_leaves_chunks : exists final,
    run (step chunk16) (backendHas none)
      [.begin 1 "a" (.putObject "b/k" 20), .measure 1 false,
        .begin 2 "b" (.putObject "b/k" 40), .measure 2 false, .forward 2,
        .commit 2 0 false, .answer 2, .invalidateKey 2 [], .forward 1,
        .commit 1 0 false, .answer 1, .invalidateKey 1 []] = some final ∧
    final.writes 1 = some ⟨"a", .invalidating
      [⟨⟨"b/k", some 20⟩, none, .replaced (some 40)⟩] [] ["b/k"]⟩ ∧
    chunk16.chunkKey "b/k" 0 ∉ ["b/k"] :=
  ⟨_, rfl, rfl, by decide⟩

theorem stale_header_leaves_chunks : exists final,
    run (step chunk16)
      { backendHas (some 40) with
        versions := fun _ => [40, 10],
        headers := fun n _ => if n = "a" then some 10 else none }
      [.begin 1 "a" (.deleteObject "b/k"), .measure 1 false, .forward 1,
        .commit 1 0 false, .answer 1, .invalidateKey 1 [],
        .invalidateKey 1 []] = some final ∧
    final.writes 1 = some ⟨"a", .invalidating
      [⟨⟨"b/k", none⟩, some 10, .replaced (some 40)⟩] []
      ["b/k", chunk16.chunkKey "b/k" 0]⟩ ∧
    chunk16.chunkKey "b/k" 1 ∉ ["b/k", chunk16.chunkKey "b/k" 0] :=
  ⟨_, rfl, rfl, by decide⟩

end Footprint

end Daemon
end Pacer
