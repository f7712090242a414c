import Pacer.Cluster.Rendezvous
import Pacer.Cluster.Directory
import Pacer.Daemon.FillRegistry
import Pacer.Foundation.Transition

/-!
# Invalidation across the cluster

A write drops a cache key at every node that can hold it: at the writer, at the
key's homes, and at the sharers the first home's directory lists.  This module
follows the tiers and the directory shards of a whole cluster through fills,
layer-1 admissions, commits, forgets of stale copies and any number of
invalidations, each of which takes its steps one by one: forget the writer's own
copy, look up the sharers, send one request after another, return.

Every insertion into a tier gets a number of its own, so that an entry that was
there when a call began can be told from one that came later.  The ring is
fixed, and the nodes are its members.
-/

namespace Pacer
namespace Daemon

open Foundation Function
open Foundation.Transition
open Cluster

/-!
## Targets
-/

def tierRank : Tier -> Nat
  | .dram => 0
  | .nvme => 1

def sortedByTier (holders : List (Holder String)) : List (Holder String) :=
  holders.insertionSort fun a b => tierRank a.tier ≤ tierRank b.tier

def appendHolders (ring : Ring) (localNode : String) :
    List (Holder String) -> List NodeId -> List NodeId
  | [], nodes => nodes
  | holder :: rest, nodes =>
    if holder.node == localNode ||
        nodes.any (fun node => node.name == holder.node) then
      appendHolders ring localNode rest nodes
    else
      match ring.member holder.node with
      | none => appendHolders ring localNode rest nodes
      | some node => appendHolders ring localNode rest (nodes ++ [node])

theorem mem_appendHolders_of_mem (ring : Ring) (localNode : String)
    (holders : List (Holder String)) {nodes : List NodeId} {node : NodeId}
    (h : node ∈ nodes) : node ∈ appendHolders ring localNode holders nodes := by
  induction holders generalizing nodes with
  | nil => exact h
  | cons holder rest ih =>
    unfold appendHolders
    split
    · exact ih h
    · split
      · exact ih h
      · exact ih (List.mem_append_left _ h)

theorem exists_mem_appendHolders {ring : Ring} {localNode n : String}
    (hmember : (ring.member n).isSome) (hne : n ≠ localNode)
    {holders : List (Holder String)} (hholder : exists holder,
      holder ∈ holders ∧ holder.node = n) (nodes : List NodeId) :
    exists node, node ∈ appendHolders ring localNode holders nodes ∧
      node.name = n := by
  induction holders generalizing nodes with
  | nil =>
    rcases hholder with ⟨holder, hmem, _⟩
    cases hmem
  | cons first rest ih =>
    rcases hholder with ⟨holder, hmem, hnode⟩
    rcases List.mem_cons.mp hmem with heq | hrest
    · subst heq
      unfold appendHolders
      have hother : (holder.node == localNode) = false := by
        rw [hnode]
        exact beq_eq_false_iff_ne.mpr hne
      rw [hother, Bool.false_or]
      split
      · rename_i hany
        rcases List.any_eq_true.mp hany with ⟨node, hin, hname⟩
        refine ⟨node, mem_appendHolders_of_mem ring localNode rest hin, ?_⟩
        rw [← hnode]
        exact beq_iff_eq.mp hname
      · rcases Option.isSome_iff_exists.mp hmember with ⟨node, hfound⟩
        rw [hnode, hfound]
        refine ⟨node, mem_appendHolders_of_mem ring localNode rest
          (List.mem_append_right _ List.mem_cons_self), ?_⟩
        exact Ring.name_of_member hfound
    · unfold appendHolders
      split
      · exact ih ⟨holder, hrest, hnode⟩ nodes
      · split
        · exact ih ⟨holder, hrest, hnode⟩ nodes
        · exact ih ⟨holder, hrest, hnode⟩ _

namespace Invalidation

/-!
## The cluster
-/

structure Config where
  ring : Ring
  score : String -> String -> Nat
  replicationR : Nat
  maxSharersTracked : Nat
  diskTier : String -> DiskTier
  replicated : 1 ≤ replicationR
  tracked : replicationR ≤ maxSharersTracked

namespace Config

def homes (cfg : Config) (key : String) : List NodeId :=
  cfg.ring.homes cfg.score key cfg.replicationR

def isHome (cfg : Config) (n key : String) : Bool :=
  (cfg.homes key).isEmpty || (cfg.homes key).any fun home => home.name == n

def isMember (cfg : Config) (n : String) : Bool :=
  (cfg.ring.member n).isSome

end Config

/-- A node's cache, each entry known by the number of its insertion, and its
directory shard. -/
structure Node where
  tier : String -> Option Nat
  directory : Directory String String

inductive Stage where
  | own
  | lookup
  | sending (targets : List NodeId)
  | returned
deriving DecidableEq, Repr

/-- A call, with what each node held under the key when it began. -/
structure Call where
  writer : String
  key : String
  held : String -> Option Nat
  stage : Stage

structure State where
  nodes : String -> Node
  calls : Nat -> Option Call
  inserts : Nat

inductive Event where
  | fill (n key : String)
  | header (n key : String)
  | admitLocal (n key : String) (generation : Nat)
  | commit (n key : String)
  | evict (n key : String)
  | forgetAt (holder key : String)
  | invalidateKey (w : Nat) (writer key : String)
  | advance (w : Nat)
deriving DecidableEq, Repr

namespace State

def start (cfg : Config) : State :=
  { nodes := fun _ =>
      { tier := fun _ => none,
        directory := Directory.new cfg.maxSharersTracked },
    calls := fun _ => none,
    inserts := 0 }

def setNode (s : State) (n : String) (node : Node) : State :=
  { s with nodes := update s.nodes n node }

def setTier (s : State) (n key : String) (held : Option Nat) : State :=
  s.setNode n { s.nodes n with
    tier := update (s.nodes n).tier key held }

def setDirectory (s : State) (n : String)
    (directory : Directory String String) : State :=
  s.setNode n { s.nodes n with directory := directory }

def setCall (s : State) (w : Nat) (call : Call) : State :=
  { s with calls := update s.calls w (some call) }

end State

/-!
## The steps
-/

def putChunk (cfg : Config) (s : State) (n key : String) : State :=
  { s.setTier n key
      ((cfg.diskTier n).putChunk ((s.nodes n).tier key) s.inserts) with
    inserts := s.inserts + 1 }

def insertHeader (s : State) (n key : String) : State :=
  { s.setTier n key (some s.inserts) with inserts := s.inserts + 1 }

def announceLocalAdmit (s : State) (n key : String) : State :=
  s.setDirectory n ((s.nodes n).directory.admitNext key n .dram)

def fill (cfg : Config) (s : State) (n key : String) : Option State :=
  if cfg.isMember n && cfg.isHome n key then
    some (announceLocalAdmit (putChunk cfg s n key) n key)
  else none

def header (cfg : Config) (s : State) (n key : String) : Option State :=
  if cfg.isMember n && cfg.isHome n key then some (insertHeader s n key)
  else none

def admitLocal (cfg : Config) (s : State) (n key : String) (generation : Nat) :
    Option State :=
  if cfg.isMember n && !cfg.isHome n key then
    match (cfg.homes key).head? with
    | none => none
    | some home =>
      let s' := putChunk cfg s n key
      some (s'.setDirectory home.name
        ((s'.nodes home.name).directory.admitHolder key n .dram generation))
  else none

/-- A staged chunk becomes visible at the node that staged it: a home's at
`commit_upload`, the coordinator's own at `commit_local`. -/
def commit (cfg : Config) (s : State) (n key : String) : Option State :=
  if cfg.isMember n then
    some (announceLocalAdmit (putChunk cfg s n key) n key)
  else none

def evict (s : State) (n key : String) : Option State :=
  some (s.setTier n key none)

def invalidate (s : State) (n key : String) : State :=
  (s.setTier n key none).setDirectory n ((s.nodes n).directory.remove key)

/-- A single home is told to drop its copy: by a reader that found another
version there, or by a scattered write whose window landed elsewhere. -/
def forgetAt (cfg : Config) (s : State) (holder key : String) :
    Option State :=
  if (cfg.homes key).any fun home => home.name == holder then
    some (invalidate s holder key)
  else none

def invalidationTargets (cfg : Config) (s : State) (writer key : String) :
    List NodeId :=
  match (cfg.homes key).head? with
  | none => cfg.homes key
  | some home =>
    match (s.nodes home.name).directory.lookup key with
    | none => cfg.homes key
    | some set =>
      appendHolders cfg.ring writer (sortedByTier set.holders)
        (cfg.homes key)

def invalidateKey (cfg : Config) (s : State) (w : Nat)
    (writer key : String) : Option State :=
  if cfg.isMember writer then
    match s.calls w with
    | some _ => none
    | none =>
      some (s.setCall w
        { writer := writer, key := key,
          held := fun n => (s.nodes n).tier key, stage := .own })
  else none

def advance (cfg : Config) (s : State) (w : Nat) : Option State :=
  match s.calls w with
  | none => none
  | some call =>
    match call.stage with
    | .own =>
      some ((s.setTier call.writer call.key none).setCall w
        { call with stage := .lookup })
    | .lookup =>
      some (s.setCall w { call with
        stage := .sending
          (invalidationTargets cfg s call.writer call.key) })
    | .sending [] => some (s.setCall w { call with stage := .returned })
    | .sending (target :: rest) =>
      if target.name = call.writer then
        some (s.setCall w { call with stage := .sending rest })
      else
        some ((invalidate s target.name call.key).setCall w
          { call with stage := .sending rest })
    | .returned => none

def step (cfg : Config) (s : State) : Event -> Option State
  | .fill n key => fill cfg s n key
  | .header n key => header cfg s n key
  | .admitLocal n key generation => admitLocal cfg s n key generation
  | .commit n key => commit cfg s n key
  | .evict n key => evict s n key
  | .forgetAt holder key => forgetAt cfg s holder key
  | .invalidateKey w writer key => invalidateKey cfg s w writer key
  | .advance w => advance cfg s w

/-!
## Histories in which the directory keeps track

The first home's list covers the copies outside the homes as long as every
admission is recorded, staged chunks are committed at homes, nobody clears the
list of a key that is still held outside its homes, and calls on one key do not
overlap.
-/

def Call.WillClear (call : Call) (n : String) : Prop :=
  call.writer ≠ n ∧
    match call.stage with
    | .own => True
    | .lookup => True
    | .sending targets => n ∈ targets.map NodeId.name
    | .returned => False

def Recorded (cfg : Config) (s : State) : Event -> Prop
  | .fill _ _ => True
  | .header _ _ => True
  | .admitLocal n key _ => forall home, (cfg.homes key).head? = some home ->
      (s.nodes home.name).directory.HasRoom key n ∧
        forall w call, s.calls w = some call -> call.key = key ->
          ¬ call.WillClear home.name
  | .commit n key => cfg.isHome n key = true
  | .evict _ _ => True
  | .forgetAt holder key =>
    (forall home, (cfg.homes key).head? = some home -> home.name ≠ holder) ∨
      forall n, (s.nodes n).tier key ≠ none -> cfg.isHome n key = true
  | .invalidateKey _ _ key => forall w call, s.calls w = some call ->
      call.key = key -> call.stage = .returned
  | .advance _ => True

def Call.Awaits (call : Call) (n : String) : Prop :=
  match call.stage with
  | .own => True
  | .lookup => n ≠ call.writer
  | .sending targets => n ≠ call.writer ∧ n ∈ targets.map NodeId.name
  | .returned => False

def Listed (cfg : Config) (s : State) (n key : String) : Prop :=
  exists home, (cfg.homes key).head? = some home ∧
    (s.nodes home.name).directory.Lists key n

def Targeted (s : State) (n key : String) : Prop :=
  exists w call targets, s.calls w = some call ∧ call.key = key ∧
    call.stage = .sending targets ∧ call.Awaits n

structure Tracked (cfg : Config) (s : State) : Prop where
  numbered : forall n key e, (s.nodes n).tier key = some e -> e < s.inserts
  began : forall w call n e, s.calls w = some call -> call.held n = some e ->
    e < s.inserts
  member : forall n key e, (s.nodes n).tier key = some e ->
    cfg.isMember n = true
  alone : forall w w' call call', s.calls w = some call ->
    s.calls w' = some call' -> call.key = call'.key ->
    call.stage ≠ .returned -> call'.stage ≠ .returned -> w = w'
  covered : forall n key e, (s.nodes n).tier key = some e ->
    cfg.isHome n key = false -> Listed cfg s n key ∨ Targeted s n key
  clearing : forall w call home, s.calls w = some call ->
    (cfg.homes call.key).head? = some home -> call.stage ≠ .own ->
    call.WillClear home.name -> forall n e,
    (s.nodes n).tier call.key = some e -> cfg.isHome n call.key = false ->
    call.Awaits n
  left : forall w call n e, s.calls w = some call -> call.held n = some e ->
    (s.nodes n).tier call.key = some e -> call.Awaits n

theorem tracked_start (cfg : Config) : Tracked cfg (State.start cfg) := by
  constructor
  · intro n key e h
    cases h
  · intro w call n e h
    cases h
  · intro n key e h
    cases h
  · intro w w' call call' h
    cases h
  · intro n key e h
    cases h
  · intro w call home h
    cases h
  · intro w call n e h
    cases h

/-!
## Reading an updated state
-/

variable {directory : Directory String String} {s s' : State} {call : Call}

section Reading

variable {s : State} {n m key other : String} {held : Option Nat}

theorem tier_setTier : ((s.setTier n key held).nodes m).tier other =
    if m = n ∧ other = key then held else (s.nodes m).tier other := by
  by_cases hm : m = n
  · subst hm
    by_cases hother : other = key
    · simp [State.setTier, State.setNode, hother]
    · simp [State.setTier, State.setNode, hother]
  · simp [State.setTier, State.setNode, hm]

@[simp] theorem directory_setTier :
    ((s.setTier n key held).nodes m).directory = (s.nodes m).directory := by
  by_cases hm : m = n
  · subst hm
    simp [State.setTier, State.setNode]
  · simp [State.setTier, State.setNode, hm]

@[simp] theorem tier_setDirectory :
    ((s.setDirectory n directory).nodes m).tier = (s.nodes m).tier := by
  by_cases hm : m = n
  · subst hm
    simp [State.setDirectory, State.setNode]
  · simp [State.setDirectory, State.setNode, hm]

theorem directory_setDirectory :
    ((s.setDirectory n directory).nodes m).directory =
      if m = n then directory else (s.nodes m).directory := by
  by_cases hm : m = n
  · subst hm
    simp [State.setDirectory, State.setNode]
  · simp [State.setDirectory, State.setNode, hm]

end Reading

/-!
## Steps on the tiers

The steps outside the calls insert entries with new numbers, drop entries and
move the lists of the directories.
-/

/-- An entry put in at a node that is no home: its first home lists the node,
and no call is about to drop that list. -/
def Announced (cfg : Config) (s s' : State) (n key : String) : Prop :=
  Listed cfg s' n key ∧
    forall w call home, s.calls w = some call -> call.key = key ->
      (cfg.homes key).head? = some home -> ¬ call.WillClear home.name

def NewEntry (cfg : Config) (s s' : State) (n key : String) (e : Nat) : Prop :=
  s.inserts ≤ e ∧ e < s'.inserts ∧ cfg.isMember n = true ∧
    (cfg.isHome n key = true ∨ Announced cfg s s' n key)

variable {n key : String} {cfg : Config} {s : State} {w : Nat}

namespace Tracked

variable {cfg : Config} {s s' : State} (h : Tracked cfg s)

include h

theorem moveTiers (hcalls : s'.calls = s.calls)
    (hinserts : s.inserts ≤ s'.inserts)
    (htier : forall n key e, (s'.nodes n).tier key = some e ->
      (s.nodes n).tier key = some e ∨ NewEntry cfg s s' n key e)
    (hlisted : forall n key e, (s'.nodes n).tier key = some e ->
      cfg.isHome n key = false -> Listed cfg s n key ->
      Listed cfg s' n key ∨ Targeted s n key) :
    Tracked cfg s' := by
  constructor
  · intro n key e he
    rcases htier n key e he with hold | ⟨_, hlt, _⟩
    · exact Nat.lt_of_lt_of_le (h.numbered n key e hold) hinserts
    · exact hlt
  · intro w call n e hcall hheld
    rw [hcalls] at hcall
    exact Nat.lt_of_lt_of_le (h.began w call n e hcall hheld) hinserts
  · intro n key e he
    rcases htier n key e he with hold | ⟨_, _, hmember, _⟩
    · exact h.member n key e hold
    · exact hmember
  · intro w w' call call' hcall hcall'
    rw [hcalls] at hcall hcall'
    exact h.alone w w' call call' hcall hcall'
  · intro n key e he hhome
    unfold Targeted
    rw [hcalls]
    rcases htier n key e he with hold | ⟨_, _, _, hat | hannounced⟩
    · rcases h.covered n key e hold hhome with hlist | htargeted
      · exact hlisted n key e he hhome hlist
      · exact Or.inr htargeted
    · rw [hat] at hhome
      cases hhome
    · exact Or.inl hannounced.left
  · intro w call home hcall hhead hstage hclear n e he hhome
    rw [hcalls] at hcall
    rcases htier n call.key e he with hold | ⟨_, _, _, hat | hannounced⟩
    · exact h.clearing w call home hcall hhead hstage hclear n e hold hhome
    · rw [hat] at hhome
      cases hhome
    · exact absurd hclear (hannounced.right w call home hcall rfl hhead)
  · intro w call n e hcall hheld he
    rw [hcalls] at hcall
    have hbegan := h.began w call n e hcall hheld
    rcases htier n call.key e he with hold | ⟨hge, _⟩
    · exact h.left w call n e hcall hheld hold
    · lia

theorem dropAt (hlists : forall m other, other ≠ key ->
      (s.nodes n).directory.Lists other m -> directory.Lists other m)
    (hkey : forall home, (cfg.homes key).head? = some home -> home.name = n ->
      forall m e, m ≠ n -> (s.nodes m).tier key = some e ->
      cfg.isHome m key = false -> (s.nodes n).directory.Lists key m ->
      directory.Lists key m ∨ Targeted s m key) :
    Tracked cfg ((s.setTier n key none).setDirectory n directory) := by
  have htier : forall m other e,
      (((s.setTier n key none).setDirectory n directory).nodes m).tier other =
        some e -> ¬ (m = n ∧ other = key) ∧ (s.nodes m).tier other = some e := by
    intro m other e he
    rw [tier_setDirectory, tier_setTier] at he
    split at he
    · cases he
    rename_i hne
    exact ⟨hne, he⟩
  apply h.moveTiers
  · rfl
  · exact Nat.le_refl _
  · intro m other e he
    exact Or.inl (htier m other e he).right
  · intro m other e he hhome hlisted
    have hold := htier m other e he
    rcases hlisted with ⟨home, hhead, hlist⟩
    have hmoved : directory.Lists other m -> home.name = n ->
        Listed cfg ((s.setTier n key none).setDirectory n directory) m
          other := by
      intro hnew hname
      refine ⟨home, hhead, ?_⟩
      rw [directory_setDirectory, if_pos hname]
      exact hnew
    by_cases hname : home.name = n
    · rw [hname] at hlist
      by_cases hother : other = key
      · subst hother
        have hne : m ≠ n := fun hm => hold.left ⟨hm, rfl⟩
        rcases hkey home hhead hname m e hne hold.right hhome hlist with
          hnew | htargeted
        · exact Or.inl (hmoved hnew hname)
        · exact Or.inr htargeted
      · exact Or.inl (hmoved (hlists m other hother hlist) hname)
    · apply Or.inl
      refine ⟨home, hhead, ?_⟩
      rw [directory_setDirectory, if_neg hname, directory_setTier]
      exact hlist

theorem evict (n key : String) : Tracked cfg (s.setTier n key none) := by
  apply h.moveTiers
  · rfl
  · exact Nat.le_refl _
  · intro m other e he
    rw [tier_setTier] at he
    split at he
    · cases he
    · exact Or.inl he
  · intro m other e _ _ hlisted
    rcases hlisted with ⟨home, hhead, hlist⟩
    apply Or.inl
    refine ⟨home, hhead, ?_⟩
    rw [directory_setTier]
    exact hlist

theorem invalidate
    (hkey : forall home, (cfg.homes key).head? = some home -> home.name = n ->
      forall m e, (s.nodes m).tier key = some e ->
      cfg.isHome m key = false -> Targeted s m key) :
    Tracked cfg (invalidate s n key) := by
  apply h.dropAt
  · intro m other hne hlist
    exact hlist.remove_ne hne
  · intro home hhead hname m e _ he hhome _
    exact Or.inr (hkey home hhead hname m e he hhome)

end Tracked

/-!
## Insertions
-/

variable {e : Nat}

theorem tier_putChunk {n key m other : String}
    (h : ((putChunk cfg s n key).nodes m).tier other = some e) :
    (s.nodes m).tier other = some e ∨
      m = n ∧ other = key ∧ e = s.inserts := by
  change ((s.setTier n key _).nodes m).tier other = some e at h
  rw [tier_setTier] at h
  split at h
  · rename_i hat
    rcases hat with ⟨hm, hother⟩
    subst hm hother
    unfold DiskTier.putChunk at h
    split at h
    · exact Or.inr ⟨rfl, rfl, (Option.some.inj h).symm⟩
    · split at h
      · rename_i hold
        rw [hold]
        exact Or.inl h
      · exact Or.inr ⟨rfl, rfl, (Option.some.inj h).symm⟩
  · exact Or.inl h

theorem listed_of_directories
    (hlists : forall m, (s.nodes m).directory.Lists key n ->
      (s'.nodes m).directory.Lists key n) (h : Listed cfg s n key)
    : Listed cfg s' n key := by
  rcases h with ⟨home, hhead, hlist⟩
  exact ⟨home, hhead, hlists home.name hlist⟩

theorem lists_announceLocalAdmit {n key m m' other : String}
    (h : (s.nodes m).directory.Lists other m') :
    ((announceLocalAdmit s n key).nodes m).directory.Lists other m' := by
  unfold announceLocalAdmit
  rw [directory_setDirectory]
  split
  · rename_i hm
    subst hm
    exact h.admitNext .dram
  · exact h

namespace Tracked

variable {cfg : Config} {s : State} (h : Tracked cfg s)

include h

theorem putHome (hmember : cfg.isMember n = true)
    (hhome : cfg.isHome n key = true) :
    Tracked cfg (announceLocalAdmit (putChunk cfg s n key) n key) := by
  apply h.moveTiers
  · rfl
  · exact Nat.le_succ _
  · intro m other e he
    unfold announceLocalAdmit at he
    rw [tier_setDirectory] at he
    rcases tier_putChunk he with hold | ⟨hm, hother, hnew⟩
    · exact Or.inl hold
    · subst hm hother hnew
      exact Or.inr ⟨Nat.le_refl _, Nat.lt_succ_self _, hmember,
        Or.inl hhome⟩
  · intro m other e _ _ hlisted
    apply Or.inl
    refine listed_of_directories ?_ hlisted
    intro m' hlist
    apply lists_announceLocalAdmit
    change ((s.setTier n key _).nodes m').directory.Lists other m
    rw [directory_setTier]
    exact hlist

theorem insertHeader (hmember : cfg.isMember n = true)
    (hhome : cfg.isHome n key = true) : Tracked cfg (insertHeader s n key) := by
  apply h.moveTiers
  · rfl
  · exact Nat.le_succ _
  · intro m other e he
    change ((s.setTier n key _).nodes m).tier other = some e at he
    rw [tier_setTier] at he
    split at he
    · rename_i hat
      rcases hat with ⟨hm, hother⟩
      subst hm hother
      cases he
      exact Or.inr ⟨Nat.le_refl _, Nat.lt_succ_self _, hmember,
        Or.inl hhome⟩
    · exact Or.inl he
  · intro m other e _ _ hlisted
    apply Or.inl
    refine listed_of_directories ?_ hlisted
    intro m' hlist
    change ((s.setTier n key _).nodes m').directory.Lists other m
    rw [directory_setTier]
    exact hlist

theorem admitLocal {generation : Nat} {home : NodeId}
    (hmember : cfg.isMember n = true)
    (hhead : (cfg.homes key).head? = some home)
    (hroom : (s.nodes home.name).directory.HasRoom key n)
    (hclear : forall w call, s.calls w = some call -> call.key = key ->
      ¬ call.WillClear home.name) :
    Tracked cfg ((putChunk cfg s n key).setDirectory home.name
      (((putChunk cfg s n key).nodes home.name).directory.admitHolder key n
        .dram generation)) := by
  have hdirectory : forall m,
      ((putChunk cfg s n key).nodes m).directory = (s.nodes m).directory := by
    intro m
    change ((s.setTier n key _).nodes m).directory = _
    rw [directory_setTier]
  apply h.moveTiers
  · rfl
  · exact Nat.le_succ _
  · intro m other e he
    rw [tier_setDirectory] at he
    rcases tier_putChunk he with hold | ⟨hm, hother, hnew⟩
    · exact Or.inl hold
    · subst hm hother hnew
      refine Or.inr ⟨Nat.le_refl _, Nat.lt_succ_self _, hmember, Or.inr ?_⟩
      constructor
      · refine ⟨home, hhead, ?_⟩
        rw [directory_setDirectory, if_pos rfl, hdirectory]
        exact hroom.lists_admitHolder .dram generation
      · intro w call home' hcall hkey hhead'
        rw [hhead] at hhead'
        cases hhead'
        exact hclear w call hcall hkey
  · intro m other e _ _ hlisted
    apply Or.inl
    refine listed_of_directories ?_ hlisted
    intro m' hlist
    rw [directory_setDirectory]
    split
    · rename_i hm'
      rw [hdirectory, ← hm']
      exact hlist.admitHolder .dram generation
    · rw [hdirectory]
      exact hlist

end Tracked

/-!
## Steps of a call
-/

theorem setCall_calls {w w' : Nat} {call call' : Call}
    (h : (s.setCall w call).calls w' = some call') :
    w' = w ∧ call' = call ∨ w' ≠ w ∧ s.calls w' = some call' := by
  change update s.calls w (some call) w' = some call' at h
  rcases eq_or_ne w' w with rfl | hne
  · rw [update_self] at h
    exact Or.inl ⟨rfl, (Option.some.inj h).symm⟩
  · rw [update_of_ne hne] at h
    exact Or.inr ⟨hne, h⟩

theorem calls_setCall (s : State) (w : Nat) (call : Call) :
    (s.setCall w call).calls w = some call := by
  change update s.calls w (some call) w = some call
  rw [update_self]

theorem calls_setCall_of_ne {w w' : Nat} (hne : w' ≠ w)
    : (s.setCall w call).calls w' = s.calls w' := by
  change update s.calls w (some call) w' = _
  rw [update_of_ne hne]

namespace Tracked

variable {cfg : Config} {s : State} (h : Tracked cfg s)

include h

theorem listed_of_call {n : String} (hcall : s.calls w = some call)
    (hstage : call.stage = .own ∨ call.stage = .lookup)
    (he : (s.nodes n).tier call.key = some e)
    (hhome : cfg.isHome n call.key = false) : Listed cfg s n call.key := by
  rcases h.covered n call.key e he hhome with hlisted | htargeted
  · exact hlisted
  · rcases htargeted with ⟨w', other, targets, hother, hkey, hsending, _⟩
    have hactive : call.stage ≠ .returned := by
      rcases hstage with hown | hlookup
      · rw [hown]
        nofun
      · rw [hlookup]
        nofun
    have hactive' : other.stage ≠ .returned := by
      rw [hsending]
      nofun
    have hw := h.alone w' w other call hother hcall hkey hactive' hactive
    subst hw
    rw [hcall] at hother
    cases hother
    rw [hsending] at hstage
    rcases hstage with hown | hlookup
    · cases hown
    · cases hlookup

theorem setCall {stage : Stage} (hcall : s.calls w = some call)
    (hactive : call.stage ≠ .returned)
    (hcovered : forall n e, (s.nodes n).tier call.key = some e ->
      cfg.isHome n call.key = false -> Listed cfg s n call.key ∨
      exists targets, stage = .sending targets ∧
        Call.Awaits { call with stage := stage } n)
    (hclearing : forall home, (cfg.homes call.key).head? = some home ->
      Call.WillClear { call with stage := stage } home.name ->
      stage ≠ .own -> forall n e, (s.nodes n).tier call.key = some e ->
      cfg.isHome n call.key = false ->
      Call.Awaits { call with stage := stage } n)
    (hleft : forall n e, call.held n = some e ->
      (s.nodes n).tier call.key = some e ->
      Call.Awaits { call with stage := stage } n) :
    Tracked cfg (s.setCall w { call with stage := stage }) := by
  constructor
  · exact h.numbered
  · intro w' other n e hother hheld
    rcases setCall_calls hother with ⟨_, rfl⟩ | ⟨_, hold⟩
    · exact h.began w call n e hcall hheld
    · exact h.began w' other n e hold hheld
  · exact h.member
  · intro w1 w2 one two hone htwo hkey hstage1 hstage2
    rcases setCall_calls hone with ⟨hw1, rfl⟩ | ⟨hne1, hone⟩
    · rcases setCall_calls htwo with ⟨hw2, _⟩ | ⟨_, htwo⟩
      · rw [hw1, hw2]
      · rw [hw1]
        exact h.alone w w2 call two hcall htwo hkey hactive hstage2
    · rcases setCall_calls htwo with ⟨hw2, rfl⟩ | ⟨_, htwo⟩
      · rw [hw2]
        exact h.alone w1 w one call hone hcall hkey hstage1 hactive
      · exact h.alone w1 w2 one two hone htwo hkey hstage1 hstage2
  · intro n key e he hhome
    have hsent : (exists targets, stage = .sending targets ∧
        Call.Awaits { call with stage := stage } n) -> call.key = key ->
        Targeted (s.setCall w { call with stage := stage }) n key := by
      rintro ⟨targets, hstage, hawaits⟩ hkey
      exact ⟨w, _, targets, calls_setCall s w _, hkey, hstage, hawaits⟩
    by_cases hkey : call.key = key
    · subst hkey
      rcases hcovered n e he hhome with hlisted | hsending
      · exact Or.inl hlisted
      · exact Or.inr (hsent hsending rfl)
    · rcases h.covered n key e he hhome with hlisted | htargeted
      · exact Or.inl hlisted
      · rcases htargeted with ⟨w', other, targets, hother, hkey', hrest⟩
        have hne : w' ≠ w := by
          rintro rfl
          rw [hcall] at hother
          cases hother
          exact hkey hkey'
        refine Or.inr ⟨w', other, targets, ?_, hkey', hrest⟩
        rw [calls_setCall_of_ne hne]
        exact hother
  · intro w' other home hother hhead hstage hclear n e he hhome
    rcases setCall_calls hother with ⟨_, rfl⟩ | ⟨_, hold⟩
    · exact hclearing home hhead hclear hstage n e he hhome
    · exact h.clearing w' other home hold hhead hstage hclear n e he hhome
  · intro w' other n e hother hheld he
    rcases setCall_calls hother with ⟨_, rfl⟩ | ⟨_, hold⟩
    · exact hleft n e hheld he
    · exact h.left w' other n e hold hheld he

theorem begin {writer key : String} (hfree : s.calls w = none)
    (hguard : forall w call, s.calls w = some call -> call.key = key ->
      call.stage = .returned) :
    Tracked cfg (s.setCall w
      { writer := writer, key := key,
        held := fun n => (s.nodes n).tier key, stage := .own }) := by
  constructor
  · exact h.numbered
  · intro w' other n e hother hheld
    rcases setCall_calls hother with ⟨_, rfl⟩ | ⟨_, hold⟩
    · exact h.numbered n key e hheld
    · exact h.began w' other n e hold hheld
  · exact h.member
  · intro w1 w2 one two hone htwo hkey hstage1 hstage2
    rcases setCall_calls hone with ⟨hw1, rfl⟩ | ⟨_, hone⟩
    · rcases setCall_calls htwo with ⟨hw2, _⟩ | ⟨_, htwo⟩
      · rw [hw1, hw2]
      · exact absurd (hguard w2 two htwo hkey.symm) hstage2
    · rcases setCall_calls htwo with ⟨_, rfl⟩ | ⟨_, htwo⟩
      · exact absurd (hguard w1 one hone hkey) hstage1
      · exact h.alone w1 w2 one two hone htwo hkey hstage1 hstage2
  · intro n other e he hhome
    rcases h.covered n other e he hhome with hlisted | htargeted
    · exact Or.inl hlisted
    · rcases htargeted with ⟨w', call, targets, hcall, hrest⟩
      have hne : w' ≠ w := by
        rintro rfl
        rw [hfree] at hcall
        cases hcall
      refine Or.inr ⟨w', call, targets, ?_, hrest⟩
      rw [calls_setCall_of_ne hne]
      exact hcall
  · intro w' other home hother hhead hstage hclear n e he hhome
    rcases setCall_calls hother with ⟨_, rfl⟩ | ⟨_, hold⟩
    · exact absurd rfl hstage
    · exact h.clearing w' other home hold hhead hstage hclear n e he hhome
  · intro w' other n e hother hheld he
    rcases setCall_calls hother with ⟨_, rfl⟩ | ⟨_, hold⟩
    · exact trivial
    · exact h.left w' other n e hold hheld he

end Tracked

/-!
## Targets cover the copies
-/

theorem mem_targets_of_home {n writer key : String}
    (hmember : cfg.isMember n = true) (hhome : cfg.isHome n key = true) :
    n ∈ (invalidationTargets cfg s writer key).map NodeId.name := by
  have hhomes : exists home, home ∈ cfg.homes key ∧ home.name = n := by
    rcases Option.isSome_iff_exists.mp hmember with ⟨node, hnode⟩
    have hnonempty : cfg.homes key ≠ [] :=
      Ring.homes_ne_nil cfg.score (List.mem_of_find?_eq_some hnode) key
        cfg.replicated
    rcases Bool.or_eq_true_iff.mp hhome with hempty | hany
    · exact absurd (List.isEmpty_iff.mp hempty) hnonempty
    · rcases List.any_eq_true.mp hany with ⟨home, hmem, hname⟩
      exact ⟨home, hmem, beq_iff_eq.mp hname⟩
  rcases hhomes with ⟨home, hmem, hname⟩
  refine List.mem_map.mpr ⟨home, ?_, hname⟩
  unfold invalidationTargets
  split
  · exact hmem
  · split
    · exact hmem
    · exact mem_appendHolders_of_mem cfg.ring writer _ hmem

theorem mem_targets_of_listed {n writer key : String}
    (hmember : cfg.isMember n = true) (hlisted : Listed cfg s n key)
    (hne : n ≠ writer) :
    n ∈ (invalidationTargets cfg s writer key).map NodeId.name := by
  rcases hlisted with ⟨home, hhead, set, hlookup, holder, hholder, hnode⟩
  unfold invalidationTargets
  rw [hhead]
  dsimp only
  rw [hlookup]
  have hsorted : holder ∈ sortedByTier set.holders :=
    (List.mem_insertionSort _).mpr hholder
  rcases exists_mem_appendHolders hmember hne ⟨holder, hsorted, hnode⟩
    (cfg.homes key) with ⟨node, hmem, hname⟩
  exact List.mem_map.mpr ⟨node, hmem, hname⟩

namespace Tracked

variable {cfg : Config} {s : State} {w : Nat} {call : Call}
  (h : Tracked cfg s) (hcall : s.calls w = some call)

include h hcall

theorem forgetOwn (hstage : call.stage = .own) :
    Tracked cfg ((s.setTier call.writer call.key none).setCall w
      { call with stage := .lookup }) := by
  have hevicted := h.evict call.writer call.key
  have hother : forall n e,
      ((s.setTier call.writer call.key none).nodes n).tier call.key =
        some e -> n ≠ call.writer := by
    intro n e he hn
    rw [tier_setTier, if_pos ⟨hn, rfl⟩] at he
    cases he
  have hcall' : (s.setTier call.writer call.key none).calls w = some call :=
    hcall
  apply hevicted.setCall hcall'
  · rw [hstage]
    nofun
  · intro n e he hhome
    exact Or.inl
      (hevicted.listed_of_call hcall' (Or.inl hstage) he hhome)
  · intro home _ _ _ n e he _
    exact hother n e he
  · intro n e _ he
    exact hother n e he

theorem lookUp (hstage : call.stage = .lookup) :
    Tracked cfg (s.setCall w { call with
      stage := .sending (invalidationTargets cfg s call.writer call.key) }) := by
  have hnotOwn : call.stage ≠ .own := by
    rw [hstage]
    nofun
  have hawaits : forall n, call.Awaits n -> n ≠ call.writer := by
    intro n hn
    unfold Call.Awaits at hn
    rw [hstage] at hn
    exact hn
  apply h.setCall hcall
  · rw [hstage]
    nofun
  · intro n e he hhome
    exact Or.inl (h.listed_of_call hcall (Or.inr hstage) he hhome)
  · intro home hhead hclear _ n e he hhome
    have hwill : call.WillClear home.name := by
      refine ⟨hclear.left, ?_⟩
      rw [hstage]
      exact trivial
    have hne := hawaits n
      (h.clearing w call home hcall hhead hnotOwn hwill n e he hhome)
    exact ⟨hne, mem_targets_of_listed (h.member n call.key e he)
      (h.listed_of_call hcall (Or.inr hstage) he hhome) hne⟩
  · intro n e hheld he
    have hne := hawaits n (h.left w call n e hcall hheld he)
    refine ⟨hne, ?_⟩
    cases hhome : cfg.isHome n call.key with
    | true => exact mem_targets_of_home (h.member n call.key e he) hhome
    | false =>
      exact mem_targets_of_listed (h.member n call.key e he)
        (h.listed_of_call hcall (Or.inr hstage) he hhome) hne

theorem listed_or_awaits (hactive : call.stage ≠ .returned) {n : String}
    (he : (s.nodes n).tier call.key = some e)
    (hhome : cfg.isHome n call.key = false) :
    Listed cfg s n call.key ∨ call.Awaits n := by
  rcases h.covered n call.key e he hhome with hlisted | htargeted
  · exact Or.inl hlisted
  · rcases htargeted with ⟨w', other, targets, hother, hkey, hsending, hn⟩
    have hw := h.alone w' w other call hother hcall hkey
      (by rw [hsending]; nofun) hactive
    subst hw
    rw [hcall] at hother
    cases hother
    exact Or.inr hn

theorem sent {target : NodeId} {rest : List NodeId}
    (hstage : call.stage = .sending (target :: rest))
    (hgone : forall n e, (s.nodes n).tier call.key = some e ->
      n ≠ call.writer -> n ≠ target.name) :
    Tracked cfg (s.setCall w { call with stage := .sending rest }) := by
  have hactive : call.stage ≠ .returned := by
    rw [hstage]
    nofun
  have hrest : forall n e, (s.nodes n).tier call.key = some e ->
      call.Awaits n ->
      Call.Awaits { call with stage := .sending rest } n := by
    intro n e he hn
    unfold Call.Awaits at hn
    rw [hstage] at hn
    rcases hn with ⟨hne, hmem⟩
    refine ⟨hne, ?_⟩
    rcases List.mem_cons.mp hmem with hfirst | hlater
    · exact absurd hfirst (hgone n e he hne)
    · exact hlater
  apply h.setCall hcall hactive
  · intro n e he hhome
    rcases h.listed_or_awaits hcall hactive he hhome with hlisted | hn
    · exact Or.inl hlisted
    · exact Or.inr ⟨rest, rfl, hrest n e he hn⟩
  · intro home hhead hclear _ n e he hhome
    have hwill : call.WillClear home.name := by
      refine ⟨hclear.left, ?_⟩
      rw [hstage]
      exact List.mem_cons_of_mem _ hclear.right
    exact hrest n e he (h.clearing w call home hcall hhead
      (by rw [hstage]; nofun) hwill n e he hhome)
  · intro n e hheld he
    exact hrest n e he (h.left w call n e hcall hheld he)

theorem sendTo {target : NodeId} {rest : List NodeId}
    (hstage : call.stage = .sending (target :: rest))
    (hne : target.name ≠ call.writer) :
    Tracked cfg ((Invalidation.invalidate s target.name call.key).setCall w
      { call with stage := .sending rest }) := by
  have hinvalidated : Tracked cfg
      (Invalidation.invalidate s target.name call.key) := by
    apply h.invalidate
    intro home hhead hname n e he hhome
    have hwill : call.WillClear home.name := by
      refine ⟨fun heq => hne (hname.symm.trans heq.symm), ?_⟩
      rw [hstage, hname]
      exact List.mem_cons_self
    exact ⟨w, call, target :: rest, hcall, rfl, hstage,
      h.clearing w call home hcall hhead (by rw [hstage]; nofun) hwill n e he
        hhome⟩
  apply hinvalidated.sent hcall hstage
  intro n e he _ hn
  unfold Invalidation.invalidate at he
  rw [tier_setDirectory, tier_setTier, if_pos ⟨hn, rfl⟩] at he
  cases he

theorem finish (hstage : call.stage = .sending []) :
    Tracked cfg (s.setCall w { call with stage := .returned }) := by
  have hactive : call.stage ≠ .returned := by
    rw [hstage]
    nofun
  have hnone : forall n, ¬ call.Awaits n := by
    intro n hn
    unfold Call.Awaits at hn
    rw [hstage] at hn
    exact List.not_mem_nil hn.right
  apply h.setCall hcall hactive
  · intro n e he hhome
    rcases h.listed_or_awaits hcall hactive he hhome with hlisted | hn
    · exact Or.inl hlisted
    · exact absurd hn (hnone n)
  · intro home _ hclear
    exact absurd hclear.right (fun hfalse => hfalse)
  · intro n e hheld he
    exact absurd (h.left w call n e hcall hheld he) (hnone n)

end Tracked

/-!
## Whole histories
-/

theorem Tracked.advance (h : Tracked cfg s)
    (hstep : advance cfg s w = some s') :
    Tracked cfg s' := by
  unfold Invalidation.advance at hstep
  split at hstep
  · cases hstep
  rename_i call hcall
  split at hstep
  · rename_i hstage
    cases hstep
    exact h.forgetOwn hcall hstage
  · rename_i hstage
    cases hstep
    exact h.lookUp hcall hstage
  · rename_i hstage
    cases hstep
    exact h.finish hcall hstage
  · rename_i target rest hstage
    split at hstep
    · rename_i hself
      cases hstep
      apply h.sent hcall hstage
      intro n e _ hne hn
      exact hne (hn.trans hself)
    · rename_i hother
      cases hstep
      exact h.sendTo hcall hstage hother
  · cases hstep

theorem Tracked.step {e : Event} (h : Tracked cfg s) (hguard : Recorded cfg s e)
    (hstep : step cfg s e = some s')
    : Tracked cfg s' := by
  cases e <;> simp only [Invalidation.step] at hstep
  case fill n key =>
    unfold fill at hstep
    split at hstep
    · rename_i hat
      rcases Bool.and_eq_true_iff.mp hat with ⟨hmember, hhome⟩
      cases hstep
      exact h.putHome hmember hhome
    · cases hstep
  case header n key =>
    unfold header at hstep
    split at hstep
    · rename_i hat
      rcases Bool.and_eq_true_iff.mp hat with ⟨hmember, hhome⟩
      cases hstep
      exact h.insertHeader hmember hhome
    · cases hstep
  case admitLocal n key generation =>
    unfold Invalidation.admitLocal at hstep
    split at hstep
    · rename_i hat
      rcases Bool.and_eq_true_iff.mp hat with ⟨hmember, _⟩
      split at hstep
      · cases hstep
      rename_i home hhead
      cases hstep
      rcases hguard home hhead with ⟨hroom, hclear⟩
      exact h.admitLocal hmember hhead hroom hclear
    · cases hstep
  case commit n key =>
    unfold commit at hstep
    split at hstep
    · rename_i hmember
      cases hstep
      exact h.putHome hmember hguard
    · cases hstep
  case evict n key =>
    cases hstep
    exact h.evict n key
  case forgetAt holder key =>
    unfold forgetAt at hstep
    split at hstep
    · cases hstep
      apply h.invalidate
      intro home hhead hname m e he hhome
      rcases hguard with hother | hhomes
      · exact absurd hname (hother home hhead)
      · have hat := hhomes m (by rw [he]; nofun)
        rw [hat] at hhome
        cases hhome
    · cases hstep
  case invalidateKey w writer key =>
    unfold invalidateKey at hstep
    split at hstep
    · split at hstep
      · cases hstep
      rename_i hfree
      cases hstep
      exact h.begin hfree hguard
    · cases hstep
  case advance w =>
    exact h.advance hstep

/-- In every history whose steps keep the directory's records, an entry a node
held when a call began is gone when the call has returned, and stays gone. -/
theorem invalidation_reaches_every_holder {cfg : Config} {final : State}
    {events : List Event}
    (hguard : Along (step cfg) (Recorded cfg) (State.start cfg) events)
    (hrun : run (step cfg) (State.start cfg) events = some final)
    {w : Nat} {call : Call} (hcall : final.calls w = some call)
    (hreturned : call.stage = .returned) {n : String} {e : Nat}
    (hheld : call.held n = some e) :
    (final.nodes n).tier call.key ≠ some e := by
  have htracked : Tracked cfg final :=
    run_preserves (fun s e s' hinv hrec hs' => hinv.step hrec hs')
      (tracked_start cfg) hguard hrun
  intro he
  have hawaits := htracked.left w call n e hcall hheld he
  unfold Call.Awaits at hawaits
  rw [hreturned] at hawaits
  exact hawaits

/-!
## Three nodes
-/

def threeNodes (maxSharersTracked : Nat) (h : 1 ≤ maxSharersTracked) :
    Config :=
  { ring := { members := [⟨"a", "10.0.0.1"⟩, ⟨"b", "10.0.0.2"⟩,
      ⟨"c", "10.0.0.3"⟩] },
    score := fun name _ => if name = "a" then 1 else 0,
    replicationR := 1,
    maxSharersTracked := maxSharersTracked,
    diskTier := fun _ => .store,
    replicated := Nat.le_refl 1,
    tracked := h }

def defaultNodes : Config := threeNodes 16 (by decide)

def writes (key : String) (steps : Nat) : List Event :=
  .invalidateKey 0 "c" key :: List.replicate steps (.advance 0)

theorem invalidation_reaches_every_holder_oneSharer : exists final call,
    run (step defaultNodes) (State.start defaultNodes)
      ([.fill "a" "k", .admitLocal "b" "k" 1] ++ writes "k" 5) = some final ∧
    final.calls 0 = some call ∧ call.stage = .returned ∧
    call.held "b" = some 1 ∧ (final.nodes "b").tier call.key ≠ some 1 := by
  have halong : Along (step defaultNodes) (Recorded defaultNodes)
      (State.start defaultNodes)
      ([.fill "a" "k", .admitLocal "b" "k" 1] ++ writes "k" 5) := by
    refine along_cons_of_step trivial rfl ?_
    refine along_cons_of_step ?_ rfl ?_
    · intro home hhead
      cases hhead
      constructor
      · exact Or.inr ⟨rfl, by decide⟩
      · intro w call hcall
        cases hcall
    refine along_cons_of_step ?_ rfl ?_
    · intro w call hcall
      cases hcall
    iterate 4 apply along_cons_of_step trivial rfl
    exact along_cons_of_step trivial rfl trivial
  refine ⟨_, _, rfl, rfl, rfl, rfl, ?_⟩
  exact invalidation_reaches_every_holder (w := 0) (n := "b") (e := 1) halong
    rfl rfl rfl rfl

/-- The coordinator commits a window its home refused, and records it in its own
shard only: a write through another node does not reach that copy. -/
theorem commit_off_home_survives : exists final call,
    run (step defaultNodes) (State.start defaultNodes)
      (.commit "b" "k" :: writes "k" 4) = some final ∧
    final.calls 0 = some call ∧ call.stage = .returned ∧
    call.held "b" = some 0 ∧ (final.nodes "b").tier call.key = some 0 :=
  ⟨_, _, rfl, rfl, rfl, rfl, rfl⟩

theorem unrecorded_sharer_survives : exists final call,
    run (step (threeNodes 1 (Nat.le_refl 1)))
      (State.start (threeNodes 1 (Nat.le_refl 1)))
      ([.fill "a" "k", .admitLocal "b" "k" 1] ++ writes "k" 4) = some final ∧
    final.calls 0 = some call ∧ call.stage = .returned ∧
    call.held "b" = some 1 ∧ (final.nodes "b").tier call.key = some 1 :=
  ⟨_, _, rfl, rfl, rfl, rfl, rfl⟩

theorem forgotten_sharer_survives : exists final call,
    run (step defaultNodes) (State.start defaultNodes)
      ([.fill "a" "k", .admitLocal "b" "k" 1, .forgetAt "a" "k"] ++
        writes "k" 4) = some final ∧
    final.calls 0 = some call ∧ call.stage = .returned ∧
    call.held "b" = some 1 ∧ (final.nodes "b").tier call.key = some 1 :=
  ⟨_, _, rfl, rfl, rfl, rfl, rfl⟩

end Invalidation

end Daemon
end Pacer
