import Mathlib.Data.List.AList
import Mathlib.Data.String.Basic
import Pacer.Cluster.Rendezvous
import Pacer.Foundation.Transition

/-!
# The membership watch

The watch on the endpoint slices of the peer service: every slice of the service
is kept by name, a list of the slices is collected apart and takes the place of
what is kept when it is complete, and every change is published as a new ring.

The main result is about what the events said and not about what the watch keeps:
from the first complete list on the published ring is the union of the ready
endpoints of the slices of the last complete list, with the changes since it.
-/

namespace Pacer
namespace Cluster

open Foundation Function

namespace Membership

structure EndpointConditions where
  ready : Option Bool
deriving DecidableEq, Repr

structure Endpoint where
  conditions : Option EndpointConditions
  nodeName : Option String
  addresses : List String
deriving DecidableEq, Repr

structure EndpointSlice where
  name : Option String
  endpoints : List Endpoint
deriving DecidableEq, Repr

inductive Event where
  | init
  | initApply (es : EndpointSlice)
  | initDone
  | apply (es : EndpointSlice)
  | delete (es : EndpointSlice)
deriving DecidableEq, Repr

def sliceName (es : EndpointSlice) : String := es.name.getD ""

def readyMembers (es : EndpointSlice) : List NodeId :=
  (es.endpoints.filter fun ep =>
      (ep.conditions.bind EndpointConditions.ready).getD false).filterMap
    fun ep => ep.nodeName.bind fun name =>
      ep.addresses.head?.map fun addr => { name := name, addr := addr }

abbrev Slices := AList fun _ : String => List NodeId

def members (slices : Slices) : List NodeId :=
  (slices.entries.insertionSort fun a b => a.fst ≤ b.fst).flatMap Sigma.snd

def publish (slices : Slices) : Ring :=
  { members := ((members slices).insertionSort fun a b => a.name ≤ b.name).destutter
      fun a b => a.name ≠ b.name }

/-- The watch: the slices it keeps, the list that is being received, and the
published ring. -/
structure Watch where
  slices : Slices
  pending : Option Slices
  ring : Ring

namespace Watch

def new (ring : Ring) : Watch := { slices := ∅, pending := none, ring := ring }

def publishing (w : Watch) (slices : Slices) : Watch :=
  { w with slices := slices, ring := publish slices }

def step (w : Watch) : Event -> Watch
  | .init => { w with pending := some ∅ }
  | .initApply es =>
    match w.pending with
    | some p => { w with pending := some (p.insert (sliceName es) (readyMembers es)) }
    | none => w
  | .initDone =>
    match w.pending with
    | some p => { w with pending := none }.publishing p
    | none => w
  | .apply es => w.publishing (w.slices.insert (sliceName es) (readyMembers es))
  | .delete es => w.publishing (w.slices.erase (sliceName es))

def run (w : Watch) (events : List Event) : Watch := events.foldl step w

end Watch

/-!
## What the watcher may emit, and what it said
-/

inductive Phase where
  | starting
  | listing
  | watching
deriving DecidableEq, Repr

/-- A list may be started at any time, also inside a list that is then
abandoned; its slices and its end come inside a list only, and changes only
behind one. -/
def Phase.next : Phase -> Event -> Option Phase
  | _, .init => some .listing
  | .listing, .initApply _ => some .listing
  | .listing, .initDone => some .watching
  | .watching, .apply _ => some .watching
  | .watching, .delete _ => some .watching
  | _, _ => none

def Emitted (events : List Event) : Prop :=
  (Transition.run Phase.next .starting events).isSome

def Event.OfList : Event -> Prop
  | .init => True
  | .initApply _ => True
  | _ => False

def Event.Change : Event -> Prop
  | .apply _ => True
  | .delete _ => True
  | _ => False

abbrev World := String -> Option EndpointSlice

def listed (list : List EndpointSlice) : World := fun name =>
  list.reverse.find? fun es => sliceName es = name

def changed (world : World) : Event -> World
  | .apply es => update world (sliceName es) (some es)
  | .delete es => update world (sliceName es) none
  | _ => world

def worldOf (list : List EndpointSlice) (changes : List Event) : World :=
  changes.foldl changed (listed list)

def Endpoint.Offers (ep : Endpoint) (name : String) : Prop :=
  ep.conditions.bind EndpointConditions.ready = some true ∧
    ep.nodeName = some name ∧ ep.addresses ≠ []

/-- The ring is the union of the ready endpoints of the slices: the names of
their nodes, rising, and of each name the first endpoint in the first slice that
has one. -/
structure Published (world : World) (ring : Ring) : Prop where
  sorted : (ring.members.map NodeId.name).Pairwise (· < ·)
  union : forall n, n ∈ ring.members.map NodeId.name <->
    exists name es ep, world name = some es ∧ ep ∈ es.endpoints ∧ ep.Offers n
  first : forall node, node ∈ ring.members <->
    exists name es, world name = some es ∧
      (readyMembers es).find? (fun m => m.name = node.name) = some node ∧
      forall other es', world other = some es' ->
        (exists m, m ∈ readyMembers es' ∧ m.name = node.name) -> name ≤ other

/-!
## The published ring is the union of the slices that are kept
-/

variable {node : NodeId}

theorem mem_readyMembers {es : EndpointSlice} :
    node ∈ readyMembers es <->
      exists ep, ep ∈ es.endpoints ∧ ep.Offers node.name ∧
        ep.addresses.head? = some node.addr := by
  unfold readyMembers
  rw [List.mem_filterMap]
  constructor
  · rintro ⟨ep, hep, hnode⟩
    rcases List.mem_filter.mp hep with ⟨hmem, hready⟩
    rcases Option.bind_eq_some_iff.mp hnode with ⟨name, hname, haddr⟩
    rcases Option.map_eq_some_iff.mp haddr with ⟨addr, hhead, hnode⟩
    rw [← hnode]
    refine ⟨ep, hmem, ⟨?_, hname, ?_⟩, hhead⟩
    · exact (Option.getD_eq_iff.mp hready).resolve_right (by simp)
    · intro hnil
      rw [hnil] at hhead
      cases hhead
  · rintro ⟨ep, hmem, ⟨hready, hname, _⟩, hhead⟩
    refine ⟨ep, List.mem_filter.mpr ⟨hmem, ?_⟩, ?_⟩
    · rw [hready]
      rfl
    · rw [hname, hhead]
      rfl

def Represents (slices : Slices) (world : World) : Prop :=
  forall name, slices.lookup name = (world name).map readyMembers

theorem represents_empty : Represents ∅ (listed []) := by
  intro name
  rfl

variable {slices : Slices} {events : List Event} {world : World} {ring : Ring}
  {w : Watch}

theorem Represents.insert (h : Represents slices world) (es : EndpointSlice) :
    Represents (slices.insert (sliceName es) (readyMembers es))
      (update world (sliceName es) (some es)) := by
  intro name
  by_cases hname : name = sliceName es
  · rw [hname, AList.lookup_insert, update_self]
    rfl
  · rw [AList.lookup_insert_ne hname, update_of_ne hname]
    exact h name

theorem Represents.erase (h : Represents slices world) (es : EndpointSlice) :
    Represents (slices.erase (sliceName es))
      (update world (sliceName es) none) := by
  intro name
  by_cases hname : name = sliceName es
  · rw [hname, AList.lookup_erase, update_self]
    rfl
  · rw [AList.lookup_erase_ne hname, update_of_ne hname]
    exact h name

theorem listed_concat (list : List EndpointSlice) (es : EndpointSlice) :
    listed (list ++ [es]) =
      update (listed list) (sliceName es) (some es) := by
  funext name
  unfold listed
  rw [List.reverse_append, List.reverse_singleton, List.singleton_append,
    List.find?_cons]
  by_cases hname : sliceName es = name
  · rw [← hname, update_self]
    simp
  · rw [update_of_ne (Ne.symm hname)]
    simp [hname]

theorem worldOf_concat (list : List EndpointSlice) (changes : List Event)
    (e : Event) : worldOf list (changes ++ [e]) =
      changed (worldOf list changes) e := by
  unfold worldOf
  rw [List.foldl_append]
  rfl

theorem pairwise_entries (slices : Slices) :
    (slices.entries.insertionSort fun a b => a.fst ≤ b.fst).Pairwise
      fun a b => a.fst < b.fst := by
  have hle := pairwise_insertionSort
    (Sigma.fst : (Sigma fun _ : String => List NodeId) -> String) slices.entries
  have hne : (slices.entries.insertionSort fun a b => a.fst ≤ b.fst).Pairwise
      fun a b => a.fst ≠ b.fst := by
    have hperm := List.perm_insertionSort
      (fun a b : (Sigma fun _ : String => List NodeId) => a.fst ≤ b.fst)
      slices.entries
    have hkeys := (hperm.map Sigma.fst).nodup_iff.mpr slices.nodupKeys
    exact List.pairwise_map.mp hkeys
  exact (hle.and hne).imp fun h => lt_of_le_of_ne h.left h.right

theorem Represents.mem_entries (h : Represents slices world)
    {e : Sigma fun _ : String => List NodeId} :
    e ∈ slices.entries.insertionSort (fun a b => a.fst ≤ b.fst) <->
      exists es, world e.fst = some es ∧ readyMembers es = e.snd := by
  rw [List.mem_insertionSort, ← AList.mem_lookup_iff, h e.fst, Option.mem_def,
    Option.map_eq_some_iff]

theorem mem_publish :
    node ∈ (publish slices).members <->
      (members slices).find? (fun m => m.name = node.name) = some node :=
  mem_destutter_insertionSort node

theorem names_publish {n : String} :
    n ∈ (publish slices).members.map NodeId.name <->
      exists node, node ∈ members slices ∧ node.name = n := by
  rw [List.mem_map]
  constructor
  · rintro ⟨node, hnode, hname⟩
    exact ⟨node, List.mem_of_find?_eq_some (mem_publish.mp hnode), hname⟩
  · rintro ⟨node, hnode, hname⟩
    have hsome : ((members slices).find? fun m => m.name = n).isSome :=
      List.find?_isSome.mpr ⟨node, hnode, decide_eq_true hname⟩
    rcases Option.isSome_iff_exists.mp hsome with ⟨first, hfirst⟩
    have hn := List.find?_some hfirst
    rw [decide_eq_true_iff] at hn
    rw [← hn] at hfirst
    exact ⟨first, mem_publish.mpr hfirst, hn⟩

theorem Represents.mem_members (h : Represents slices world) :
    node ∈ members slices <->
      exists name es, world name = some es ∧ node ∈ readyMembers es := by
  unfold members
  rw [List.mem_flatMap]
  constructor
  · rintro ⟨e, he, hnode⟩
    rcases h.mem_entries.mp he with ⟨es, hes, hmembers⟩
    rw [← hmembers] at hnode
    exact ⟨e.fst, es, hes, hnode⟩
  · rintro ⟨name, es, hes, hnode⟩
    exact ⟨⟨name, readyMembers es⟩, h.mem_entries.mpr ⟨es, hes, rfl⟩, hnode⟩

theorem Represents.published (h : Represents slices world)
    : Published world (publish slices) where
  sorted := List.pairwise_map.mpr (pairwise_destutter
    (pairwise_insertionSort NodeId.name (members slices)))
  union := by
    intro n
    rw [names_publish]
    constructor
    · rintro ⟨node, hnode, hname⟩
      rcases h.mem_members.mp hnode with ⟨name, es, hes, hmem⟩
      rcases mem_readyMembers.mp hmem with ⟨ep, hep, hoffers, _⟩
      rw [hname] at hoffers
      exact ⟨name, es, ep, hes, hep, hoffers⟩
    · rintro ⟨name, es, ep, hes, hep, hoffers⟩
      rcases Option.isSome_iff_exists.mp
        (List.isSome_head?.mpr hoffers.right.right) with ⟨addr, haddr⟩
      refine ⟨{ name := n, addr := addr }, ?_, rfl⟩
      exact h.mem_members.mpr
        ⟨name, es, hes, mem_readyMembers.mpr ⟨ep, hep, hoffers, haddr⟩⟩
  first := by
    intro node
    rw [mem_publish]
    unfold members
    rw [find?_flatMap_eq_some_iff (pairwise_entries slices)]
    constructor
    · rintro ⟨e, he, hnode, hleast⟩
      rcases h.mem_entries.mp he with ⟨es, hes, hmembers⟩
      refine ⟨e.fst, es, hes, ?_, ?_⟩
      · rw [hmembers]
        exact hnode
      · rintro other es' hother ⟨m, hm, hname⟩
        exact hleast ⟨other, readyMembers es'⟩
          (h.mem_entries.mpr ⟨es', hother, rfl⟩) ⟨m, hm, decide_eq_true hname⟩
    · rintro ⟨name, es, hes, hnode, hleast⟩
      refine ⟨⟨name, readyMembers es⟩, h.mem_entries.mpr ⟨es, hes, rfl⟩, hnode,
        ?_⟩
      rintro other hother ⟨m, hm, hname⟩
      rcases h.mem_entries.mp hother with ⟨es', hes', hmembers⟩
      rw [← hmembers] at hm
      exact hleast other.fst es' hes' ⟨m, hm, of_decide_eq_true hname⟩

/-!
## The watch and the history
-/

/-- What a history without an end of a list, or with one, makes of the published
ring: nothing yet, or the slices of the last complete list with the changes
since. -/
def Told (ring : Ring) (events : List Event) (w : Watch) : Prop :=
  Event.initDone ∉ events ∧ w.ring = ring ∨
    exists earlier list changes opened,
      events = earlier ++ .init :: (list.map .initApply ++
        .initDone :: (changes ++ opened)) ∧
      (forall e, e ∈ changes -> e.Change) ∧ (forall e, e ∈ opened -> e.OfList) ∧
      Represents w.slices (worldOf list changes) ∧ w.ring = publish w.slices

def Agrees (ring : Ring) (events : List Event) (w : Watch) : Phase -> Prop
  | .starting => events = [] ∧ w = Watch.new ring
  | .listing => Told ring events w ∧
      exists front list p, events = front ++ .init :: list.map .initApply ∧
        w.pending = some p ∧ Represents p (listed list)
  | .watching =>
    exists earlier list changes,
      events = earlier ++ .init :: (list.map .initApply ++
        .initDone :: changes) ∧
      (forall e, e ∈ changes -> e.Change) ∧
      Represents w.slices (worldOf list changes) ∧ w.ring = publish w.slices

variable {e : Event}

theorem Watch.step_of_list (w : Watch) (he : e.OfList) :
    (w.step e).slices = w.slices ∧ (w.step e).ring = w.ring := by
  cases e with
  | init => exact ⟨rfl, rfl⟩
  | initApply es =>
    unfold Watch.step
    cases w.pending with
    | none => exact ⟨rfl, rfl⟩
    | some p => exact ⟨rfl, rfl⟩
  | initDone | apply es | delete es => cases he

theorem Told.of_list (h : Told ring events w) (he : e.OfList) :
    Told ring (events ++ [e]) (w.step e) := by
  rcases w.step_of_list he with ⟨hslices, hring⟩
  unfold Told
  rw [hslices, hring]
  rcases h with ⟨hnone, hsame⟩ | ⟨earlier, list, changes, opened, hevents,
    hchanges, hopened, hworld, hpublished⟩
  · left
    refine ⟨?_, hsame⟩
    intro hmem
    rcases List.mem_append.mp hmem with hmem | hlast
    · exact hnone hmem
    · rw [← List.mem_singleton.mp hlast] at he
      cases he
  · right
    refine ⟨earlier, list, changes, opened ++ [e], ?_, hchanges, ?_, hworld,
      hpublished⟩
    · rw [hevents]
      simp
    · intro other hother
      rcases List.mem_append.mp hother with hmem | hlast
      · exact hopened other hmem
      · rw [List.mem_singleton.mp hlast]
        exact he

variable {phase : Phase}

theorem Agrees.told (h : Agrees ring events w phase) : Told ring events w := by
  cases phase with
  | starting =>
    rcases h with ⟨hevents, hw⟩
    left
    rw [hevents, hw]
    exact ⟨List.not_mem_nil, rfl⟩
  | listing => exact h.left
  | watching =>
    rcases h with ⟨earlier, list, changes, hevents, hchanges, hworld, hpublished⟩
    right
    refine ⟨earlier, list, changes, [], ?_, hchanges, ?_, hworld, hpublished⟩
    · rw [List.append_nil]
      exact hevents
    · intro e he
      cases he

theorem Agrees.change {w w' : Watch} (h : Agrees ring events w .watching)
    (he : e.Change)
    (hw : forall world, Represents w.slices world ->
      Represents w'.slices (changed world e))
    (hring : w'.ring = publish w'.slices) :
    Agrees ring (events ++ [e]) w' .watching := by
  rcases h with ⟨earlier, list, changes, hevents, hchanges, hworld, _⟩
  refine ⟨earlier, list, changes ++ [e], ?_, ?_, ?_, hring⟩
  · rw [hevents]
    simp
  · intro other hother
    rcases List.mem_append.mp hother with hmem | hlast
    · exact hchanges other hmem
    · rw [List.mem_singleton.mp hlast]
      exact he
  · rw [worldOf_concat]
    exact hw _ hworld

theorem Agrees.step {phase' : Phase} (h : Agrees ring events w phase)
    (hnext : phase.next e = some phase') :
    Agrees ring (events ++ [e]) (w.step e) phase' := by
  cases e with
  | init =>
    have hphase : phase' = .listing := by
      cases phase <;> exact (Option.some.inj hnext).symm
    rw [hphase]
    refine ⟨h.told.of_list trivial, events, [], ∅, rfl, rfl, represents_empty⟩
  | initApply es =>
    cases phase with
    | starting => cases hnext
    | watching => cases hnext
    | listing =>
      rw [← Option.some.inj hnext]
      rcases h with ⟨htold, front, list, p, hevents, hpending, hworld⟩
      refine ⟨htold.of_list trivial, front, list ++ [es],
        p.insert (sliceName es) (readyMembers es), ?_, ?_, ?_⟩
      · rw [hevents]
        simp
      · unfold Watch.step
        rw [hpending]
      · rw [listed_concat]
        exact hworld.insert es
  | initDone =>
    cases phase with
    | starting => cases hnext
    | watching => cases hnext
    | listing =>
      rw [← Option.some.inj hnext]
      rcases h with ⟨_, front, list, p, hevents, hpending, hworld⟩
      have hstep : w.step .initDone =
          ({ w with pending := none } : Watch).publishing p := by
        unfold Watch.step
        rw [hpending]
      refine ⟨front, list, [], ?_, ?_, ?_, ?_⟩
      · rw [hevents]
        simp
      · intro e he
        cases he
      · rw [hstep]
        exact hworld
      · rw [hstep]
        rfl
  | apply es =>
    cases phase with
    | starting => cases hnext
    | listing => cases hnext
    | watching =>
      rw [← Option.some.inj hnext]
      exact h.change trivial (fun _ hworld => hworld.insert es) rfl
  | delete es =>
    cases phase with
    | starting => cases hnext
    | listing => cases hnext
    | watching =>
      rw [← Option.some.inj hnext]
      exact h.change trivial (fun _ hworld => hworld.erase es) rfl

theorem Agrees.run {past : List Event} {phase' : Phase}
    (h : Agrees ring past w phase)
    (hrun : Transition.run Phase.next phase events = some phase') :
    Agrees ring (past ++ events) (w.run events) phase' := by
  induction events generalizing past w phase with
  | nil =>
    rw [Transition.run_nil] at hrun
    rw [List.append_nil, ← Option.some.inj hrun]
    exact h
  | cons e events ih =>
    rcases Transition.run_cons_some hrun with ⟨middle, hnext, hrest⟩
    have hagrees := ih (h.step hnext) hrest
    rw [List.append_assoc] at hagrees
    exact hagrees

/-- Until the first list is complete the ring is what it was.  From then on it is
the union of the ready members of the slices of the last complete list, with the
changes since; every name is in it once, and no event of a list that is not
complete changes it. -/
theorem published_of_emitted (ring : Ring) {events : List Event}
    (hemitted : Emitted events) :
    let w := (Watch.new ring).run events
    (Event.initDone ∉ events -> w.ring = ring) ∧
    (Event.initDone ∈ events ->
      (exists earlier list changes opened,
        events = earlier ++ .init :: (list.map .initApply ++
          .initDone :: (changes ++ opened)) ∧
        (forall e, e ∈ changes -> e.Change) ∧
        (forall e, e ∈ opened -> e.OfList) ∧
        Published (worldOf list changes) w.ring) ∧
      (w.ring.members.map NodeId.name).Nodup) ∧
    forall e, e.OfList -> (w.step e).ring = w.ring := by
  intro w
  rcases Option.isSome_iff_exists.mp hemitted with ⟨phase, hrun⟩
  have hagrees : Agrees ring [] (Watch.new ring) .starting := ⟨rfl, rfl⟩
  have htold := (hagrees.run hrun).told
  rw [List.nil_append] at htold
  refine ⟨?_, ?_, fun e he => (w.step_of_list he).right⟩
  · intro hnone
    rcases htold with ⟨_, hsame⟩ | ⟨earlier, list, changes, opened, hevents, _⟩
    · exact hsame
    · exfalso
      apply hnone
      rw [hevents]
      simp
  · intro hdone
    rcases htold with ⟨hnone, _⟩ | ⟨earlier, list, changes, opened, hevents,
      hchanges, hopened, hworld, hring⟩
    · exact absurd hdone hnone
    have hpublished : Published (worldOf list changes) w.ring := by
      rw [hring]
      exact hworld.published
    constructor
    · exact ⟨earlier, list, changes, opened, hevents, hchanges, hopened,
        hpublished⟩
    · exact hpublished.sorted.imp fun h => ne_of_lt h

/-- Two slices that share a node, ready in one of them only; behind their list
one slice is deleted and a new list is abandoned. -/
theorem published_of_two_slices :
    let up : Option EndpointConditions := some { ready := some true }
    let down : Option EndpointConditions := some { ready := some false }
    let one : EndpointSlice := { name := some "s1", endpoints :=
      [⟨up, some "b", ["1"]⟩, ⟨down, some "a", ["2"]⟩] }
    let two : EndpointSlice := { name := some "s2", endpoints :=
      [⟨up, some "b", ["3"]⟩, ⟨up, some "a", ["4"]⟩, ⟨up, none, ["5"]⟩] }
    let events : List Event := [.init, .initApply two, .initApply one,
      .initDone, .init, .initApply one]
    Emitted events ∧
      ((Watch.new ⟨[]⟩).run events).ring.members = [⟨"a", "4"⟩, ⟨"b", "1"⟩] ∧
      (((Watch.new ⟨[]⟩).run events).ring.members.map NodeId.name).Nodup := by
  intro up down one two events
  have hemitted : Emitted events := by
    unfold Emitted
    decide
  refine ⟨hemitted, by decide +kernel, ?_⟩
  exact ((published_of_emitted ⟨[]⟩ hemitted).right.left (by decide)).right

/-!
## Agreement

The slices as the events tell them: those there are, and those of the list that
is being received.  What a watch publishes follows from them alone.
-/

structure Story where
  world : World
  pending : Option World

def Story.step (story : Story) : Event -> Story
  | .init => { story with pending := some (listed []) }
  | .initApply es =>
    { story with
      pending := story.pending.map (update · (sliceName es) (some es)) }
  | .initDone => ⟨story.pending.getD story.world, none⟩
  | e => { story with world := changed story.world e }

def told (events : List Event) : Story :=
  events.foldl Story.step ⟨listed [], none⟩

structure Follows (w : Watch) (story : Story) : Prop where
  slices : Represents w.slices story.world
  pending : Option.Rel Represents w.pending story.pending

theorem Follows.step {story : Story} (h : Follows w story) (e : Event) :
    Follows (w.step e) (story.step e) := by
  rcases w with ⟨slices, pending, ring⟩
  rcases story with ⟨world, listing⟩
  rcases h with ⟨hslices, hpending⟩
  cases e with
  | init => exact ⟨hslices, .some represents_empty⟩
  | initApply es =>
    cases hpending with
    | none => exact ⟨hslices, .none⟩
    | some hp => exact ⟨hslices, .some (hp.insert es)⟩
  | initDone =>
    cases hpending with
    | none => exact ⟨hslices, .none⟩
    | some hp => exact ⟨hp, .none⟩
  | apply es => exact ⟨hslices.insert es, hpending⟩
  | delete es => exact ⟨hslices.erase es, hpending⟩

theorem Follows.run {story : Story} (h : Follows w story)
    (events : List Event) :
    Follows (w.run events) (events.foldl Story.step story) := by
  induction events generalizing w story with
  | nil => exact h
  | cons e rest ih => exact ih (h.step e)

theorem Published.unique {ring' : Ring} (h : Published world ring)
    (h' : Published world ring') : ring = ring' := by
  have hnodup : forall {r : Ring}, Published world r -> r.members.Nodup :=
    fun hr => .of_map _ (hr.sorted.imp ne_of_lt)
  have hperm : ring.members.Perm ring'.members :=
    (List.perm_ext_iff_of_nodup (hnodup h) (hnodup h')).mpr fun node =>
      (h.first node).trans (h'.first node).symm
  have hrises := List.pairwise_map.mp h.sorted
  have hsame := eq_of_perm_sorted hperm (hrises.imp le_of_lt)
    (List.pairwise_map.mp h'.sorted)
  exact congrArg Ring.mk hsame

theorem published_told (ring : Ring) (hemitted : Emitted events)
    (hdone : Event.initDone ∈ events) :
    Published (told events).world ((Watch.new ring).run events).ring := by
  rcases Option.isSome_iff_exists.mp hemitted with ⟨phase, hrun⟩
  have hagrees : Agrees ring [] (Watch.new ring) .starting := ⟨rfl, rfl⟩
  have hstart : Follows (Watch.new ring) ⟨listed [], none⟩ :=
    ⟨represents_empty, .none⟩
  rcases (hagrees.run hrun).told with
    ⟨hnone, _⟩ | ⟨_, _, _, _, _, _, _, _, hring⟩
  · exact absurd hdone hnone
  · rw [hring]
    exact (hstart.run events).slices.published

/-- Watchers on two nodes publish the same ring once they have been told of the
same slices, whatever lists, broken off or complete, and changes told them, and
whatever they started from. -/
theorem watchers_agree (ring ring' : Ring) {events events' : List Event}
    (hemitted : Emitted events) (hemitted' : Emitted events')
    (hdone : Event.initDone ∈ events) (hdone' : Event.initDone ∈ events')
    (hsame : (told events).world = (told events').world) :
    ((Watch.new ring).run events).ring =
      ((Watch.new ring').run events').ring := by
  have hring := published_told ring hemitted hdone
  rw [hsame] at hring
  exact hring.unique (published_told ring' hemitted' hdone')

theorem watchers_agree_restart :
    let slice : EndpointSlice :=
      ⟨some "s", [⟨some ⟨some true⟩, some "a", ["1"]⟩]⟩
    ((Watch.new ⟨[]⟩).run [.init, .initApply slice, .initDone]).ring =
      ((Watch.new ⟨[]⟩).run [.init, .init, .initApply slice, .initDone]).ring :=
  watchers_agree ⟨[]⟩ ⟨[]⟩ rfl rfl (by simp) (by simp) rfl

end Membership

end Cluster
end Pacer
