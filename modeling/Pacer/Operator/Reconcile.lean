import Pacer.Foundation.Transition
import Pacer.Operator.Status

/-!
# Reconcile passes

A pass renders the ring, guards and applies every object, prunes what the last
written inventory lists and this pass did not apply, looks at the workloads and
writes the status.  Any of its calls may fail, and a call that failed may have
taken effect.  Between passes others may delete the ring's objects, and make or
replace objects that do not carry its owner reference.

The inventory of a pass that applied everything should be the objects that carry
the ring's owner reference.  What a failed pass applied is in no inventory.
-/

namespace Pacer
namespace Operator

open Foundation Function
open Foundation.Transition

/-- How a call to the API server ends: its kind may not be discovered, and it may
fail before or after it took effect. -/
inductive Call where
  | ok
  | undiscovered (message : String)
  | failed (message : String) (landed : Bool)
deriving DecidableEq, Repr

inductive RenderError where
  | refused (message : String)
  | failed (message : String)

/-- The objects of the ring's namespace, each with the uids of its owners. -/
abbrev Cluster := Ident -> Option (List String)

structure Course where
  rendered : Except RenderError (List DynamicObject)
  applies : Nat -> Call
  prunes : Nat -> Call
  observed : Option Observed
  generation : Option Int
  now : Nat
  write : Call

/-- The cluster, the status last written, and whether the last thing to happen
was a pass that applied everything and whose status is written. -/
structure State where
  cluster : Cluster
  status : Option CacheRingStatus
  settled : Bool

/-!
## Applying and pruning
-/

def mergeOwners (old new : List String) : List String :=
  old ++ new.filter (· ∉ old)

def Cluster.write (cluster : Cluster) (r : InventoryRef)
    (object : DynamicObject) : Cluster :=
  update cluster r.ident (some (mergeOwners
    ((cluster r.ident).getD []) (object.owners.map OwnerReference.uid)))

def Cluster.owned (cluster : Cluster) (ring : Ring) (i : Ident) : Bool :=
  (cluster i).any fun owners => owners.any fun uid => some uid == ring.uid

def apply (cluster : Cluster) (object : DynamicObject) (call : Call) :
    Cluster × Except String InventoryRef :=
  match inventoryRef object with
  | .error e => (cluster, .error e.text)
  | .ok r =>
    match call with
    | .ok => (cluster.write r object, .ok r)
    | .undiscovered m => (cluster, .error s!"{r.kind} {r.name}: {m}")
    | .failed m landed =>
      (if landed then cluster.write r object else cluster,
        .error s!"apply {r.kind} {r.name}: {m}")

def applyAll (calls : Nat -> Call) : Nat -> Cluster -> List DynamicObject ->
    Cluster × Except String (List InventoryRef)
  | _, cluster, [] => (cluster, .ok [])
  | n, cluster, object :: rest =>
    match apply cluster object (calls n) with
    | (cluster, .error e) => (cluster, .error e)
    | (cluster, .ok r) =>
      match applyAll calls (n + 1) cluster rest with
      | (cluster, .error e) => (cluster, .error e)
      | (cluster, .ok refs) => (cluster, .ok (r :: refs))

def stale (previous current : List InventoryRef) : List InventoryRef :=
  previous.filter (· ∉ current)

def Cluster.remove (cluster : Cluster) (ring : Ring) (r : InventoryRef) :
    Cluster :=
  if cluster.owned ring r.ident then update cluster r.ident none
  else cluster

def prune (ring : Ring) (cluster : Cluster) (r : InventoryRef) (call : Call) :
    Cluster × Except String Unit :=
  match call with
  | .ok => (cluster.remove ring r, .ok ())
  | .undiscovered m => (cluster, .error s!"prune {r.kind} {r.name}: {m}")
  | .failed m landed =>
    (if landed then cluster.remove ring r else cluster,
      .error s!"prune {r.kind} {r.name}: {m}")

def pruneAll (ring : Ring) (calls : Nat -> Call) : Nat -> Cluster ->
    List InventoryRef -> Cluster × Except String Unit
  | _, cluster, [] => (cluster, .ok ())
  | n, cluster, r :: rest =>
    match prune ring cluster r (calls n) with
    | (cluster, .error e) => (cluster, .error e)
    | (cluster, .ok _) => pruneAll ring calls (n + 1) cluster rest

/-!
## A pass
-/

def listed (status : Option CacheRingStatus) : List InventoryRef :=
  (status.map CacheRingStatus.inventory).getD []

def converge (ring : Ring) (cluster : Cluster)
    (previous : Option CacheRingStatus) (course : Course) :
    Cluster × Outcome :=
  match course.rendered with
  | .error (.refused m) => (cluster, .refused m)
  | .error (.failed m) => (cluster, .renderFailed m)
  | .ok manifests =>
    match prepare ring manifests with
    | .error e => (cluster, .refused e.text)
    | .ok objects =>
      match applyAll course.applies 0 cluster objects with
      | (cluster, .error e) => (cluster, .applyFailed e)
      | (cluster, .ok inventory) =>
        match pruneAll ring course.prunes 0 cluster
            (stale (listed previous) inventory) with
        | (cluster, .error e) => (cluster, .applyFailed e)
        | (cluster, .ok _) => (cluster, .applied inventory)

def Outcome.isApplied : Outcome -> Bool
  | .applied _ => true
  | _ => false

def Call.lands : Call -> Bool
  | .ok => true
  | .undiscovered _ => false
  | .failed _ landed => landed

def reconcile (ring : Ring) (course : Course) (s : State) : State :=
  if ring.namespaceOf.isNone then { s with settled := false }
  else
    let (cluster, outcome) := converge ring s.cluster s.status course
    match course.observed with
    | none => { s with cluster := cluster, settled := false }
    | some seen =>
      let next := build s.status course.generation outcome seen course.now
      if s.status = some next ∨ course.write.lands then
        { cluster := cluster
          status := some next
          settled := outcome.isApplied }
      else { s with cluster := cluster, settled := false }

inductive Event where
  | pass (course : Course)
  | outside (i : Ident) (owners : Option (List String))

/-- A pass, or what others do to an object in between: they delete it, or leave
one that is not the ring's. -/
def step (ring : Ring) (s : State) : Event -> Option State
  | .pass course => some (reconcile ring course s)
  | .outside i owners =>
    let cluster : Cluster := update s.cluster i owners
    if cluster.owned ring i then none
    else some { s with cluster := cluster, settled := false }

def start (cluster : Cluster) : State := ⟨cluster, none, false⟩

/-- After a pass that applied everything and wrote its status, the objects that
carry the ring's owner reference are those its inventory lists. -/
def Truthful (ring : Ring) (s : State) : Prop :=
  s.settled = true -> forall i, s.cluster.owned ring i = true <->
    i ∈ (listed s.status).map InventoryRef.ident

def references (objects : List DynamicObject) : List InventoryRef :=
  objects.filterMap fun object => (inventoryRef object).toOption

/-- Every call of the pass succeeds: the manifests it renders are guarded as
`objects`, each of which is applied, what they leave of the last inventory is
pruned, the workloads are seen, and the status lands or is there already. -/
structure Completes (ring : Ring) (s : State) (course : Course)
    (objects : List DynamicObject) : Prop where
  placed : ring.namespaceOf.isNone = false
  rendered : exists manifests, course.rendered = .ok manifests ∧
    prepare ring manifests = .ok objects
  applied : forall n, n < objects.length -> course.applies n = .ok
  pruned : forall n, n < (stale (listed s.status) (references objects)).length ->
    course.prunes n = .ok
  written : exists seen, course.observed = some seen ∧
    (s.status = some (build s.status course.generation
        (.applied (references objects)) seen course.now) ∨
      course.write.lands = true)

/-- A pass whose calls all succeed is given again whatever carries the ring's
owner reference and is not in the inventory before it. -/
def Rerendered (ring : Ring) (s : State) : Event -> Prop
  | .pass course => forall objects, Completes ring s course objects ->
      forall i, s.cluster.owned ring i = true ->
        i ∈ (listed s.status).map InventoryRef.ident ∨
        i ∈ (references objects).map InventoryRef.ident
  | .outside _ _ => True

def Recorded (s : State) : Prop :=
  forall r, r ∈ listed s.status -> r.Guarded

/-!
## What a pass leaves
-/

variable {cluster cluster' : Cluster} {ring : Ring}

variable {object : DynamicObject}

theorem Stamped.exists_uid (h : Stamped ring object) :
    exists uid, ring.uid = some uid ∧
      object.owners.map OwnerReference.uid = [uid] := by
  cases howners : object.owners with
  | nil =>
    have howned := h.owned
    rw [howners] at howned
    cases howned
  | cons owner rest =>
    have howned := h.owned
    rw [howners, List.map_cons] at howned
    rcases List.cons.inj howned with ⟨huid, hrest⟩
    rw [List.map_eq_nil_iff] at hrest
    exists owner.uid
    rw [hrest]
    exact ⟨huid.symm, rfl⟩

theorem owned_write (h : Stamped ring object) (cluster : Cluster)
    (r : InventoryRef) (i : Ident) :
    (cluster.write r object).owned ring i = true <->
      i = r.ident ∨ cluster.owned ring i = true := by
  unfold Cluster.owned Cluster.write
  by_cases hi : i = r.ident
  · rcases h.exists_uid with ⟨uid, hring, howners⟩
    have hmem : uid ∈ mergeOwners ((cluster r.ident).getD []) [uid] := by
      unfold mergeOwners
      by_cases hold : uid ∈ (cluster r.ident).getD []
      · exact List.mem_append_left _ hold
      · apply List.mem_append_right
        exact List.mem_filter.mpr
          ⟨List.mem_singleton_self uid, decide_eq_true hold⟩
    rw [hi, update_self, howners, hring]
    constructor
    · intro _
      exact .inl rfl
    · intro _
      exact List.any_eq_true.mpr ⟨uid, hmem, beq_self_eq_true _⟩
  · rw [update_of_ne hi]
    simp [hi]

theorem owned_remove (ring : Ring) (cluster : Cluster) (r : InventoryRef)
    (i : Ident) : (cluster.remove ring r).owned ring i = true <->
      i ≠ r.ident ∧ cluster.owned ring i = true := by
  unfold Cluster.remove
  split
  · unfold Cluster.owned
    by_cases hi : i = r.ident
    · rw [hi, update_self]
      simp
    · rw [update_of_ne hi]
      simp [hi]
  · rename_i hnot
    constructor
    · intro howned
      refine ⟨?_, howned⟩
      intro hi
      rw [hi] at howned
      exact hnot howned
    · intro h
      exact h.right

theorem apply_ok {call : Call} {r : InventoryRef}
    (h : apply cluster object call = (cluster', .ok r)) :
    inventoryRef object = .ok r ∧ cluster' = cluster.write r object := by
  unfold apply at h
  split at h
  · cases h
  rename_i found hfound
  cases call with
  | ok =>
    cases h
    exact ⟨hfound, rfl⟩
  | undiscovered m => cases h
  | failed m landed => cases h

theorem applyAll_ok {calls : Nat -> Call} {n : Nat}
    {objects : List DynamicObject} {inventory : List InventoryRef}
    (hstamped : forall object, object ∈ objects -> Stamped ring object)
    (h : applyAll calls n cluster objects = (cluster', .ok inventory)) :
    (forall r, r ∈ inventory -> r.Guarded) ∧
      forall i, cluster'.owned ring i = true <->
        i ∈ inventory.map InventoryRef.ident ∨ cluster.owned ring i = true := by
  induction objects generalizing n cluster inventory with
  | nil =>
    cases h
    simp
  | cons object rest ih =>
    have hfirst := hstamped object List.mem_cons_self
    have hrest : forall other, other ∈ rest -> Stamped ring other :=
      fun other hother => hstamped other (List.mem_cons_of_mem object hother)
    unfold applyAll at h
    split at h
    · cases h
    rename_i mid r happly
    split at h
    · cases h
    rename_i last refs hlast
    cases h
    rcases apply_ok happly with ⟨hr, rfl⟩
    rcases ih hrest hlast with ⟨hguarded, howned⟩
    constructor
    · intro other hother
      rcases List.mem_cons.mp hother with heq | hmem
      · rcases hfirst.guarded with ⟨found, hfound, hallowed⟩
        rw [hr] at hfound
        cases hfound
        rw [heq]
        exact hallowed
      · exact hguarded other hmem
    · intro i
      rw [howned i, owned_write hfirst, List.map_cons, List.mem_cons,
        or_left_comm, or_assoc]

theorem calls_cons {calls : Nat -> Call} {n length : Nat} :
    (forall m, m < length + 1 -> calls (n + m) = .ok) <->
      calls n = .ok ∧ forall m, m < length -> calls (n + 1 + m) = .ok := by
  rw [Nat.forall_lt_succ_left]
  simp only [Nat.add_zero, Nat.add_assoc, Nat.add_comm 1]

theorem applyAll_cons_snd {calls : Nat -> Call} {n : Nat} {r : InventoryRef}
    (hr : inventoryRef object = .ok r) (hcall : calls n = .ok)
    (rest : List DynamicObject) :
    (applyAll calls n cluster (object :: rest)).2 =
      (applyAll calls (n + 1) (cluster.write r object) rest).2.map
        (r :: ·) := by
  have hfirst : apply cluster object (calls n) =
      (cluster.write r object, .ok r) := by
    rw [apply, hr, hcall]
  rw [applyAll, hfirst]
  dsimp only
  rcases applyAll calls (n + 1) (cluster.write r object) rest with
    ⟨last, e | refs⟩
  · rfl
  · rfl

/-- The objects are all applied just when no call fails, and the inventory is
then the list of their references. -/
theorem applyAll_snd_eq_ok_iff {calls : Nat -> Call} {n : Nat}
    {objects : List DynamicObject} {inventory : List InventoryRef}
    (hstamped : forall object, object ∈ objects -> Stamped ring object) :
    (applyAll calls n cluster objects).2 = .ok inventory <->
      (forall m, m < objects.length -> calls (n + m) = .ok) ∧
        inventory = references objects := by
  induction objects generalizing n cluster inventory with
  | nil => simp [applyAll, references, eq_comm]
  | cons object rest ih =>
    have hrest : forall other, other ∈ rest -> Stamped ring other :=
      fun other hother => hstamped other (List.mem_cons_of_mem object hother)
    rcases (hstamped object List.mem_cons_self).guarded with ⟨r, hr, _⟩
    have hrefs : references (object :: rest) = r :: references rest := by
      simp [references, hr, Except.toOption]
    rw [hrefs, List.length_cons, calls_cons]
    cases hcall : calls n with
    | ok =>
      have hlater := fun refs => @ih (cluster.write r object) (n + 1) refs hrest
      rw [applyAll_cons_snd hr hcall]
      constructor
      · intro hdone
        cases hanswer : (applyAll calls (n + 1) (cluster.write r object)
            rest).2 with
        | error e =>
          rw [hanswer] at hdone
          cases hdone
        | ok refs =>
          rw [hanswer] at hdone
          cases hdone
          rcases (hlater refs).mp hanswer with ⟨hcalls, rfl⟩
          exact ⟨⟨rfl, hcalls⟩, rfl⟩
      · rintro ⟨⟨_, hcalls⟩, rfl⟩
        rw [(hlater _).mpr ⟨hcalls, rfl⟩]
        rfl
    | undiscovered m => simp [applyAll, apply, hr, hcall]
    | failed m landed => simp [applyAll, apply, hr, hcall]

theorem pruneAll_snd_eq_ok_iff {calls : Nat -> Call} {n : Nat}
    {refs : List InventoryRef} :
    (pruneAll ring calls n cluster refs).2 = .ok () <->
      forall m, m < refs.length -> calls (n + m) = .ok := by
  induction refs generalizing n cluster with
  | nil => simp [pruneAll]
  | cons r rest ih =>
    rw [List.length_cons, calls_cons]
    unfold pruneAll prune
    cases calls n with
    | ok => simp [ih]
    | undiscovered m => simp
    | failed m landed => simp

theorem prune_ok {r : InventoryRef} {call : Call} {u : Unit}
    (h : prune ring cluster r call = (cluster', .ok u)) :
    cluster' = cluster.remove ring r := by
  cases call with
  | ok =>
    cases h
    rfl
  | undiscovered m => cases h
  | failed m landed => cases h

theorem pruneAll_ok {calls : Nat -> Call} {n : Nat} {refs : List InventoryRef}
    {u : Unit} (h : pruneAll ring calls n cluster refs = (cluster', .ok u)) :
    forall i, cluster'.owned ring i = true <->
      i ∉ refs.map InventoryRef.ident ∧ cluster.owned ring i = true := by
  induction refs generalizing n cluster with
  | nil =>
    cases h
    simp
  | cons r rest ih =>
    unfold pruneAll at h
    split at h
    · cases h
    rename_i mid done hprune
    intro i
    rw [ih h i, prune_ok hprune, owned_remove, List.map_cons,
      List.mem_cons, not_or, and_left_comm, and_assoc]

theorem mem_ident_stale {previous current : List InventoryRef}
    (hprevious : forall r, r ∈ previous -> r.Guarded)
    (hcurrent : forall r, r ∈ current -> r.Guarded) (i : Ident) :
    i ∈ (stale previous current).map InventoryRef.ident <->
      i ∈ previous.map InventoryRef.ident ∧
        i ∉ current.map InventoryRef.ident := by
  constructor
  · intro hmem
    rcases List.mem_map.mp hmem with ⟨r, hr, rfl⟩
    rcases List.mem_filter.mp hr with ⟨hold, hnew⟩
    refine ⟨List.mem_map_of_mem hold, ?_⟩
    intro hlisted
    rcases List.mem_map.mp hlisted with ⟨other, hother, hident⟩
    have heq := (hcurrent other hother).eq_of_ident (hprevious r hold) hident
    rw [heq] at hother
    exact of_decide_eq_true hnew hother
  · rintro ⟨hold, hnew⟩
    rcases List.mem_map.mp hold with ⟨r, hr, rfl⟩
    apply List.mem_map_of_mem
    apply List.mem_filter.mpr
    refine ⟨hr, decide_eq_true ?_⟩
    intro hmem
    exact hnew (List.mem_map_of_mem hmem)

theorem converge_applied {previous : Option CacheRingStatus} {course : Course}
    {inventory : List InventoryRef}
    (hprevious : forall r, r ∈ listed previous -> r.Guarded)
    (h : converge ring cluster previous course =
      (cluster', .applied inventory)) :
    (forall r, r ∈ inventory -> r.Guarded) ∧
      forall i, cluster'.owned ring i = true <->
        i ∈ inventory.map InventoryRef.ident ∨
          (cluster.owned ring i = true ∧
            i ∉ (listed previous).map InventoryRef.ident) := by
  unfold converge at h
  split at h
  · cases h
  · cases h
  split at h
  · cases h
  rename_i objects hprepared
  split at h
  · cases h
  rename_i mid refs happlied
  split at h
  · cases h
  rename_i last done hpruned
  cases h
  rcases applyAll_ok (stamped_of_prepare hprepared) happlied with
    ⟨hguarded, howned⟩
  refine ⟨hguarded, ?_⟩
  intro i
  rw [pruneAll_ok hpruned, howned,
    mem_ident_stale hprevious hguarded i]
  by_cases hlisted : i ∈ inventory.map InventoryRef.ident
  · simp [hlisted]
  · simp [hlisted, and_comm]

theorem converge_snd_applied_iff {previous : Option CacheRingStatus}
    {course : Course} {inventory : List InventoryRef} :
    (converge ring cluster previous course).2 = .applied inventory <->
      exists manifests objects, course.rendered = .ok manifests ∧
        prepare ring manifests = .ok objects ∧
        (forall n, n < objects.length -> course.applies n = .ok) ∧
        (forall n, n < (stale (listed previous) (references objects)).length ->
          course.prunes n = .ok) ∧
        inventory = references objects := by
  unfold converge
  cases hrendered : course.rendered with
  | error e => cases e <;> simp
  | ok manifests =>
    dsimp only
    cases hprepared : prepare ring manifests with
    | error e => simp [hprepared]
    | ok objects =>
      have happlied := fun refs => @applyAll_snd_eq_ok_iff cluster ring
        course.applies 0 objects refs (stamped_of_prepare hprepared)
      simp only [Nat.zero_add] at happlied
      dsimp only
      generalize applyAll course.applies 0 cluster objects = result at happlied ⊢
      rcases result with ⟨mid, e | refs⟩
      · have hcalls : ¬ forall n, n < objects.length ->
            course.applies n = .ok := by
          intro hok
          cases (happlied _).mpr ⟨hok, rfl⟩
        simp [hprepared, hcalls]
      · rcases (happlied refs).mp rfl with ⟨hcalls, rfl⟩
        have hpruned := @pruneAll_snd_eq_ok_iff mid ring course.prunes 0
          (stale (listed previous) (references objects))
        simp only [Nat.zero_add] at hpruned
        dsimp only
        generalize pruneAll ring course.prunes 0 mid
          (stale (listed previous) (references objects)) = result at hpruned ⊢
        rcases result with ⟨last, e | done⟩
        · have hfails : ¬ forall n,
              n < (stale (listed previous) (references objects)).length ->
                course.prunes n = .ok := by
            intro hok
            cases hpruned.mpr hok
          simp [hprepared, hfails]
        · have hok := hpruned.mp rfl
          constructor
          · rintro ⟨⟩
            exact ⟨manifests, objects, rfl, hprepared, hcalls, hok, rfl⟩
          · rintro ⟨_, _, hsame, hsame', _, _, rfl⟩
            cases hsame
            cases hprepared.symm.trans hsame'
            rfl

/-!
## Steps and runs
-/

theorem reconcile_of_completes {course : Course} {s : State}
    {objects : List DynamicObject} (h : Completes ring s course objects) :
    converge ring s.cluster s.status course =
        ((reconcile ring course s).cluster, .applied (references objects)) ∧
      listed (reconcile ring course s).status = references objects ∧
      (reconcile ring course s).settled = true := by
  rcases h.rendered with ⟨manifests, hrendered, hprepared⟩
  rcases h.written with ⟨seen, hseen, hwritten⟩
  have happlied : (converge ring s.cluster s.status course).2 =
      .applied (references objects) :=
    converge_snd_applied_iff.mpr
      ⟨manifests, objects, hrendered, hprepared, h.applied, h.pruned, rfl⟩
  unfold reconcile
  rw [if_neg (by simp [h.placed]), hseen]
  generalize converge ring s.cluster s.status course = result at happlied ⊢
  rcases result with ⟨last, outcome⟩
  cases happlied
  dsimp only
  rw [if_pos hwritten]
  exact ⟨rfl, rfl, rfl⟩

theorem reconcile_cases (ring : Ring) (course : Course) (s : State) :
    (listed (reconcile ring course s).status = listed s.status ∧
        (reconcile ring course s).settled = false) ∨
      exists objects, Completes ring s course objects := by
  unfold reconcile
  split
  · exact .inl ⟨rfl, rfl⟩
  rename_i hplaced
  cases hconverge : converge ring s.cluster s.status course with
  | mk cluster outcome =>
    dsimp only
    split
    · exact .inl ⟨rfl, rfl⟩
    rename_i seen hseen
    split
    · rename_i hwritten
      cases outcome with
      | refused m | renderFailed m | applyFailed m => exact .inl ⟨rfl, rfl⟩
      | applied inventory =>
        have happlied := congrArg Prod.snd hconverge
        rcases converge_snd_applied_iff.mp happlied with
          ⟨manifests, objects, hrendered, hprepared, hcalls, hpruned, rfl⟩
        exact .inr ⟨objects, Bool.eq_false_iff.mpr hplaced,
          ⟨manifests, hrendered, hprepared⟩, hcalls, hpruned,
          ⟨seen, hseen, hwritten⟩⟩
    · exact .inl ⟨rfl, rfl⟩

theorem recorded_start (cluster : Cluster) : Recorded (start cluster) := by
  intro r hr
  cases hr

theorem truthful_start (ring : Ring) (cluster : Cluster) :
    Truthful ring (start cluster) := by
  intro hsettled
  cases hsettled

theorem recorded_step {s s' : State} {e : Event} (h : Recorded s)
    (hstep : step ring s e = some s') : Recorded s' := by
  cases e with
  | pass course =>
    cases hstep
    unfold Recorded
    rcases reconcile_cases ring course s with ⟨hsame, _⟩ | ⟨objects, hdone⟩
    · rw [hsame]
      exact h
    · rcases reconcile_of_completes hdone with ⟨hconverge, hlisted, _⟩
      rw [hlisted]
      exact (converge_applied h hconverge).left
  | outside i owners =>
    unfold step at hstep
    dsimp only at hstep
    split at hstep
    · cases hstep
    · cases hstep
      exact h

theorem truthful_step_iff {s s' : State} {e : Event} (h : Recorded s)
    (hstep : step ring s e = some s') :
    Truthful ring s' <-> Rerendered ring s e := by
  cases e with
  | pass course =>
    cases hstep
    unfold Truthful Rerendered
    dsimp only
    constructor
    · intro htrue objects hdone i hold
      rcases reconcile_of_completes hdone with ⟨hconverge, hlisted, hsettled⟩
      by_cases hbefore : i ∈ (listed s.status).map InventoryRef.ident
      · exact .inl hbefore
      · right
        rw [← hlisted]
        apply (htrue hsettled i).mp
        exact ((converge_applied h hconverge).right i).mpr
          (.inr ⟨hold, hbefore⟩)
    · intro hagain hsettled i
      rcases reconcile_cases ring course s with ⟨_, hnot⟩ | ⟨objects, hdone⟩
      · rw [hnot] at hsettled
        cases hsettled
      rcases reconcile_of_completes hdone with ⟨hconverge, hlisted, _⟩
      rw [hlisted, (converge_applied h hconverge).right i]
      constructor
      · rintro (hnew | ⟨hold, hbefore⟩)
        · exact hnew
        · exact (hagain objects hdone i hold).resolve_left hbefore
      · intro hnew
        exact .inl hnew
  | outside i owners =>
    unfold step at hstep
    dsimp only at hstep
    split at hstep
    · cases hstep
    cases hstep
    constructor
    · intro _
      exact True.intro
    · intro _ hsettled
      cases hsettled

/-- Over a run of passes, whatever fails in them and whatever others do in
between, each inventory that is written after everything was applied is the
truth, just when each such pass applied again every object that was the ring's
and not in the inventory before. -/
theorem inventory_is_truth_iff {ring : Ring} {cluster : Cluster}
    {events : List Event} {final : State}
    (hrun : run (step ring) (start cluster) events = some final) :
    (forall front back mid, events = front ++ back ->
        run (step ring) (start cluster) front = some mid ->
          Truthful ring mid) <->
      Along (step ring) (Rerendered ring) (start cluster) events := by
  have hstep : forall s e s', Recorded s ∧ Truthful ring s ->
      Rerendered ring s e -> step ring s e = some s' ->
        Recorded s' ∧ Truthful ring s' := by
    intro s e s' hinv hguard hs'
    exact ⟨recorded_step hinv.left hs',
      (truthful_step_iff hinv.left hs').mpr hguard⟩
  have hneeds : forall s e s', Recorded s ∧ Truthful ring s ->
      step ring s e = some s' -> Truthful ring s' -> Rerendered ring s e := by
    intro s e s' hinv hs' htrue
    exact (truthful_step_iff hinv.left hs').mp htrue
  exact along_iff_forall_reached hstep (fun s hinv => hinv.right) hneeds
    ⟨recorded_start cluster, truthful_start ring cluster⟩ hrun

/-!
## A failed pass and a change of the values
-/

def exampleRing : Ring := ⟨some "a", some "cache", some "u-1"⟩

def manifest (apiVersion kind name : String) : DynamicObject where
  types := some (apiVersion, kind)
  name := some name
  namespaceOf := none
  roleRefKind := none
  owners := []
  labels := fun _ => none

def config : DynamicObject := manifest "v1" "ConfigMap" "c"

def budget : DynamicObject := manifest "policy/v1" "PodDisruptionBudget" "b"

def rendering (manifests : List DynamicObject) (applies : Nat -> Call) :
    Event :=
  .pass
    { rendered := .ok manifests
      applies := applies
      prunes := fun _ => .ok
      observed := some ⟨none, none⟩
      generation := some 1
      now := 0
      write := .ok }

def nothing : Cluster := fun _ => none

theorem inventory_is_truth_iff_shrinking : exists final,
    run (step exampleRing) (start nothing)
        [rendering [budget, config] (fun _ => .ok),
          rendering [config] (fun _ => .ok)] = some final ∧
      final.settled = true ∧
      forall front back mid,
        [rendering [budget, config] (fun _ => .ok),
          rendering [config] (fun _ => .ok)] = front ++ back ->
        run (step exampleRing) (start nothing) front = some mid ->
          Truthful exampleRing mid := by
  have hfirst : Rerendered exampleRing (start nothing)
      (rendering [budget, config] (fun _ => .ok)) := by
    intro objects _ i howned
    cases howned
  refine ⟨_, rfl, by decide +kernel, ?_⟩
  apply (inventory_is_truth_iff rfl).mpr
  refine ⟨hfirst, ?_⟩
  intro s' hs'
  have htrue : Truthful exampleRing s' :=
    (truthful_step_iff (recorded_start nothing) hs').mpr hfirst
  have hsettled : s'.settled = true := by
    cases hs'
    decide +kernel
  refine ⟨?_, fun _ _ => True.intro⟩
  intro objects _ i howned
  exact .inl ((htrue hsettled i).mp howned)

/-- The first pass applies the budget and then fails; its status lists nothing.
The values then no longer render the budget.  The next pass applies everything,
and the budget stays. -/
theorem failed_pass_leaks : exists final,
    run (step exampleRing) (start nothing)
        [rendering [budget, config]
            (fun n => if n = 0 then .ok else .failed "timeout" false),
          rendering [config] (fun _ => .ok)] = some final ∧
      final.settled = true ∧
      (listed final.status).map InventoryRef.ident =
        [⟨"", "ConfigMap", "c"⟩] ∧
      final.cluster.owned exampleRing
        ⟨"policy", "PodDisruptionBudget", "b"⟩ = true ∧
      ¬ Truthful exampleRing final := by
  have hleft :
      (run (step exampleRing) (start nothing)
        [rendering [budget, config]
            (fun n => if n = 0 then .ok else .failed "timeout" false),
          rendering [config] (fun _ => .ok)]).map (fun final =>
        (final.settled, (listed final.status).map InventoryRef.ident,
          final.cluster.owned exampleRing
            ⟨"policy", "PodDisruptionBudget", "b"⟩)) =
        some (true, [⟨"", "ConfigMap", "c"⟩], true) := by
    decide +kernel
  rcases Option.map_eq_some_iff.mp hleft with ⟨final, hrun, heq⟩
  rcases Prod.mk.inj heq with ⟨hsettled, hrest⟩
  rcases Prod.mk.inj hrest with ⟨hlisted, howned⟩
  refine ⟨final, hrun, hsettled, hlisted, howned, ?_⟩
  intro htrue
  have hmem := (htrue hsettled _).mp howned
  rw [hlisted] at hmem
  exact absurd hmem (by decide)

end Operator
end Pacer
