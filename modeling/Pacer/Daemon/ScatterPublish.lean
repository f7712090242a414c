import Pacer.Cache.Disk
import Pacer.Cache.Keys
import Pacer.Cluster.Directory
import Pacer.Daemon.FillRegistry
import Pacer.Daemon.ObjectVersion
import Pacer.Daemon.Scatter

/-!
# Publishing a scattered write

Once Complete has answered, the coordinator drops the copies of each window at
the homes its bytes did not land on, has every owner commit what it staged,
commits its own windows, and writes the object's header at one home.

What a node's staging area hands out at the commit is a parameter: which of the
upload's windows it still holds then.  So is the answer of the HeadObject that
comes before the header is written.  Every request of the write is answered.
-/

namespace Pacer
namespace Daemon

open Foundation Function
open Cache
open Cluster

namespace ScatterPublish

open Scatter

structure Config where
  ring : Ring
  score : String -> String -> Nat
  replicationR : Nat
  replicated : 1 ≤ replicationR
  localNode : String
  chunk : ChunkConfig
  diskTier : String -> DiskTier

def Config.homes (cfg : Config) (key : String) : List NodeId :=
  cfg.ring.homes cfg.score key cfg.replicationR

abbrev Config.plan (cfg : Config) (target : ScatterTarget) : ScatterPlan :=
  ScatterPlan.build cfg.homes cfg.chunk target.objectKey target.objectLen

structure Node where
  headers : String -> Option ObjectHeader
  chunks : String -> Option CachedChunk
  directory : Directory String String

namespace Node

def forget (node : Node) (key : String) : Node :=
  { node with
    headers := update node.headers key none,
    chunks := update node.chunks key none }

def invalidate (node : Node) (key : String) : Node :=
  { node.forget key with directory := node.directory.remove key }

def commitChunk (tier : DiskTier) (name eTag : String) (node : Node)
    (entry : String × Bytes) : Node :=
  { node with
    chunks := update node.chunks entry.1
      (tier.putChunk (node.chunks entry.1) ⟨entry.2, some eTag⟩),
    directory := node.directory.admitNext entry.1 name .dram }

def insertHeader (node : Node) (key : String) (header : ObjectHeader) :
    Node :=
  { node with headers := update node.headers key (some header) }

end Node

structure Head where
  eTag : Option String
  contentLength : Option Nat
deriving DecidableEq, Repr

def headerIfEtagAgrees (head : Head) (eTag : String) : Option ObjectHeader :=
  if sameVersion head.eTag (some eTag) then
    head.contentLength.map fun objectLen =>
      { objectLen := objectLen, eTag := head.eTag.map trimQuotes }
  else none

/-!
## The steps
-/

def Config.onNode (nodes : String -> Node) (n : String) (f : Node -> Node) :
    String -> Node :=
  update nodes n (f (nodes n))

def freshHolder (localNode : String) (part : DonePart) : String :=
  match part.owner with
  | some owner => owner.name
  | none => localNode

def plannedFor (plan : ScatterPlan) (part : DonePart) :
    Option PlannedWindow :=
  match (part.partNumber - 1).bmod (2 ^ 32) with
  | .ofNat index => plan.windows[index]?
  | .negSucc _ => none

def staleCoHomes (localNode : String) (plan : ScatterPlan)
    (parts : List DonePart) : List (NodeId × String) :=
  parts.flatMap fun part =>
    match plannedFor plan part with
    | none => []
    | some window =>
      (window.homes.filter fun home =>
        home.name != freshHolder localNode part).map fun home =>
          (home, window.chunkKey)

def invalidateOneCoHome (localNode : String) (nodes : String -> Node)
    (target : NodeId × String) : String -> Node :=
  if target.1.name = localNode then
    Config.onNode nodes localNode fun node => node.forget target.2
  else Config.onNode nodes target.1.name fun node => node.invalidate target.2

def distinctOwners (parts : List DonePart) : List NodeId :=
  (parts.filterMap DonePart.owner).foldl (fun owners owner =>
    if owners.any fun seen => seen.name == owner.name then owners
    else owners ++ [owner]) []

def handedOut (plan : ScatterPlan) (kept : String -> Nat -> Bool)
    (parts : List DonePart) (n : String) : List (String × Bytes) :=
  parts.filterMap fun part =>
    match plannedFor plan part with
    | none => none
    | some window =>
      if kept n window.index then some (window.chunkKey, part.digest)
      else none

def commitUpload (diskTier : String -> DiskTier) (eTag : String)
    (handed : String -> List (String × Bytes)) (nodes : String -> Node)
    (n : String) : String -> Node :=
  Config.onNode nodes n fun node =>
    (handed n).foldl (Node.commitChunk (diskTier n) n eTag) node

def headerHome (cfg : Config) (objectKey : String) : String :=
  match cfg.homes objectKey with
  | [] => cfg.localNode
  | home :: rest =>
    if (home :: rest).any fun other => other.name == cfg.localNode then
      cfg.localNode
    else home.name

def writeHeader (cfg : Config) (objectKey eTag : String) (head : Option Head)
    (nodes : String -> Node) : String -> Node :=
  match head.bind (headerIfEtagAgrees · eTag) with
  | none => nodes
  | some header =>
    Config.onNode nodes (headerHome cfg objectKey) fun node =>
      node.insertHeader objectKey header

def publish (cfg : Config) (kept : String -> Nat -> Bool)
    (head : Option Head) (objectKey : String) (plan : ScatterPlan)
    (parts : List DonePart) (eTag : String) (nodes : String -> Node) :
    String -> Node :=
  let invalidated := (staleCoHomes cfg.localNode plan parts).foldl
    (invalidateOneCoHome cfg.localNode) nodes
  let committed := (((distinctOwners parts).map NodeId.name) ++
      [cfg.localNode]).foldl
    (commitUpload cfg.diskTier eTag (handedOut plan kept parts)) invalidated
  writeHeader cfg objectKey eTag head committed

/-- A scattered write: what it answers, and the caches it leaves.  A write that
fails only drops what was staged. -/
def scatter (cfg : Config) (checksum : Bytes -> String) (env : Env)
    (kept : String -> Nat -> Bool) (head : Option Head)
    (target : ScatterTarget) (body : Body) (nodes : String -> Node) :
    Except ScatterError String × (String -> Node) :=
  match (assemble cfg.localNode cfg.homes cfg.chunk checksum env target
      body).result with
  | .error e => (.error e, nodes)
  | .ok (_, parts, eTag) =>
    (.ok eTag, publish cfg kept head target.objectKey
      (ScatterPlan.build cfg.homes cfg.chunk target.objectKey
        target.objectLen) parts eTag nodes)

/-!
## Copies of other versions
-/

def IsVersion (eTag : String) (tag : Option String) : Prop :=
  sameVersion tag (some eTag) = true

def Clean (eTag : String) (tagOf : value -> Option String)
    (held : Option value) : Prop :=
  forall x, held = some x -> IsVersion eTag (tagOf x)

/-- No home of the object's key has a header of another version, and no home of
one of its chunk keys a chunk of another. -/
def NoStaleCopy (cfg : Config) (target : ScatterTarget) (eTag : String)
    (nodes : String -> Node) : Prop :=
  (forall home, home ∈ cfg.homes target.objectKey ->
    Clean eTag ObjectHeader.eTag
      ((nodes home.name).headers target.objectKey)) ∧
  (forall window, window ∈ (ScatterPlan.build cfg.homes cfg.chunk
      target.objectKey target.objectLen).windows ->
    forall home, home ∈ cfg.homes window.chunkKey ->
    Clean eTag CachedChunk.eTag ((nodes home.name).chunks window.chunkKey))

/-- Who takes a window: the home it is offered to, if that uploads it, else the
coordinator. -/
def taker (localNode : String) (env : Env) (window : PlannedWindow) :
    String :=
  match window.homes.head? with
  | none => localNode
  | some home =>
    if home.name ≠ localNode ∧ env.mayOffer window.index = true then
      match env.offer window.index with
      | some (.uploaded _) => home.name
      | _ => localNode
    else localNode

def Confirms (head : Option Head) (eTag : String) : Prop :=
  exists answer, head = some answer ∧
    sameVersion answer.eTag (some eTag) = true ∧
    answer.contentLength.isSome = true

/-- Before the write, the only stale copies are ones it replaces: a header at
the home the confirmed header goes to, and a chunk at a node that takes the
window, keeps it to the commit, and whose tier overwrites. -/
def OnlyReplaced (cfg : Config) (env : Env) (kept : String -> Nat -> Bool)
    (head : Option Head) (target : ScatterTarget) (eTag : String)
    (nodes : String -> Node) : Prop :=
  (forall home, home ∈ cfg.homes target.objectKey ->
    Clean eTag ObjectHeader.eTag
        ((nodes home.name).headers target.objectKey) ∨
      home.name = headerHome cfg target.objectKey ∧ Confirms head eTag) ∧
  (forall window, window ∈ (ScatterPlan.build cfg.homes cfg.chunk
      target.objectKey target.objectLen).windows ->
    forall home, home ∈ cfg.homes window.chunkKey ->
    home.name = taker cfg.localNode env window ->
    Clean eTag CachedChunk.eTag ((nodes home.name).chunks window.chunkKey) ∨
      cfg.diskTier home.name = .foyer ∧
        kept home.name window.index = true)

theorem clean_none (eTag : String) (tagOf : value -> Option String) :
    Clean eTag tagOf none := by
  intro x hx
  cases hx

theorem isVersion_self (eTag : String) : IsVersion eTag (some eTag) :=
  (sameVersion_iff _ _).mpr ⟨eTag, eTag, rfl, rfl, rfl⟩

/-!
## What each step leaves under a key
-/

section Steps

variable {nodes : String -> Node} {n m key eTag : String}

theorem onNode_self (f : Node -> Node) :
    Config.onNode nodes n f n = f (nodes n) :=
  update_self n _ nodes

theorem onNode_of_ne (f : Node -> Node) (hne : m ≠ n) :
    Config.onNode nodes n f m = nodes m :=
  update_of_ne hne _ nodes

theorem chunks_invalidateOneCoHome {localNode : String}
    {target : NodeId × String} :
    (invalidateOneCoHome localNode nodes target n).chunks key =
      if target.1.name = n ∧ target.2 = key then none
      else (nodes n).chunks key := by
  unfold invalidateOneCoHome
  split
  · rename_i hlocal
    rcases eq_or_ne n localNode with rfl | hne
    · rw [onNode_self]
      show update (nodes n).chunks target.2 none key = _
      by_cases hkey : target.2 = key
      · rw [if_pos ⟨hlocal, hkey⟩, hkey, update_self]
      · rw [if_neg (fun h => hkey h.right),
          update_of_ne (Ne.symm hkey)]
    · rw [onNode_of_ne _ hne, if_neg]
      exact fun h => hne (h.left.symm.trans hlocal)
  · rcases eq_or_ne n target.1.name with rfl | hne
    · rw [onNode_self]
      show update (nodes _).chunks target.2 none key = _
      by_cases hkey : target.2 = key
      · rw [if_pos ⟨rfl, hkey⟩, hkey, update_self]
      · rw [if_neg (fun h => hkey h.right),
          update_of_ne (Ne.symm hkey)]
    · rw [onNode_of_ne _ hne, if_neg]
      exact fun h => hne h.left.symm

theorem headers_invalidateOneCoHome {localNode : String}
    {target : NodeId × String} (hkey : target.2 ≠ key) :
    (invalidateOneCoHome localNode nodes target n).headers key =
      (nodes n).headers key := by
  unfold invalidateOneCoHome
  split
  · rcases eq_or_ne n localNode with rfl | hne
    · rw [onNode_self]
      exact update_of_ne (Ne.symm hkey) _ _
    · rw [onNode_of_ne _ hne]
  · rcases eq_or_ne n target.1.name with rfl | hne
    · rw [onNode_self]
      exact update_of_ne (Ne.symm hkey) _ _
    · rw [onNode_of_ne _ hne]

theorem chunks_invalidated (nodes : String -> Node) (n key : String)
    (localNode : String) (targets : List (NodeId × String)) :
    ((targets.foldl (invalidateOneCoHome localNode) nodes) n).chunks key =
      if exists target, target ∈ targets ∧ target.1.name = n ∧
        target.2 = key then none
      else (nodes n).chunks key := by
  induction targets generalizing nodes with
  | nil => simp
  | cons target rest ih =>
    rw [List.foldl_cons, ih, chunks_invalidateOneCoHome]
    by_cases hrest : exists other, other ∈ rest ∧ other.1.name = n ∧
        other.2 = key
    · rcases hrest with ⟨other, hmem, hother⟩
      rw [if_pos ⟨other, hmem, hother⟩,
        if_pos ⟨other, List.mem_cons_of_mem _ hmem, hother⟩]
    · rw [if_neg hrest]
      by_cases hfirst : target.1.name = n ∧ target.2 = key
      · rw [if_pos hfirst, if_pos ⟨target, List.mem_cons_self, hfirst⟩]
      · rw [if_neg hfirst, if_neg]
        rintro ⟨other, hmem, hother⟩
        rcases List.mem_cons.mp hmem with rfl | hlater
        · exact hfirst hother
        · exact hrest ⟨other, hlater, hother⟩

theorem headers_invalidated (localNode : String)
    {targets : List (NodeId × String)}
    (h : forall target, target ∈ targets -> target.2 ≠ key) :
    ((targets.foldl (invalidateOneCoHome localNode) nodes) n).headers key =
      (nodes n).headers key := by
  induction targets generalizing nodes with
  | nil => rfl
  | cons target rest ih =>
    rw [List.foldl_cons,
      ih (fun other hmem => h other (List.mem_cons_of_mem _ hmem)),
      headers_invalidateOneCoHome (h target List.mem_cons_self)]

theorem chunks_commitChunk (tier : DiskTier) (name : String) (node : Node)
    (entry : String × Bytes) :
    (node.commitChunk tier name eTag entry).chunks key =
      if entry.1 = key then
        tier.putChunk (node.chunks key) ⟨entry.2, some eTag⟩
      else node.chunks key := by
  show update node.chunks entry.1 _ key = _
  split
  · rename_i hkey
    rw [hkey, update_self]
  · rename_i hkey
    rw [update_of_ne (Ne.symm hkey)]

theorem clean_putChunk {tier : DiskTier} {held : Option CachedChunk}
    {body : Bytes} (h : tier = .foyer ∨ Clean eTag CachedChunk.eTag held) :
    Clean eTag CachedChunk.eTag (tier.putChunk held ⟨body, some eTag⟩) := by
  have hnew : Clean eTag CachedChunk.eTag (some ⟨body, some eTag⟩) := by
    intro x hx
    cases hx
    exact isVersion_self eTag
  unfold DiskTier.putChunk
  split
  · exact hnew
  · split
    · rcases h with hfoyer | hclean
      · cases hfoyer
      · exact hclean
    · exact hnew

section Entries

variable {tier : DiskTier} {name : String} {entries : List (String × Bytes)}
  {node : Node}

theorem clean_commitChunks
    (h : Clean eTag CachedChunk.eTag (node.chunks key)) :
    Clean eTag CachedChunk.eTag
      ((entries.foldl (Node.commitChunk tier name eTag) node).chunks key) := by
  induction entries generalizing node with
  | nil => exact h
  | cons entry rest ih =>
    apply ih
    rw [chunks_commitChunk]
    split
    · exact clean_putChunk (Or.inr h)
    · exact h

theorem chunks_commitChunks_of_kept
    (h : (forall entry, entry ∈ entries -> entry.1 ≠ key) ∨
      tier = .store ∧ node.chunks key ≠ none) :
    (entries.foldl (Node.commitChunk tier name eTag) node).chunks key =
      node.chunks key := by
  induction entries generalizing node with
  | nil => rfl
  | cons entry rest ih =>
    have hstep : (node.commitChunk tier name eTag entry).chunks key =
        node.chunks key := by
      rw [chunks_commitChunk]
      split
      · rename_i hkey
        rcases h with hnone | ⟨rfl, hheld⟩
        · exact absurd hkey (hnone entry List.mem_cons_self)
        cases hchunk : node.chunks key with
        | none => exact absurd hchunk hheld
        | some chunk => rfl
      · rfl
    rw [List.foldl_cons, ih, hstep]
    rw [hstep]
    rcases h with hnone | hstore
    · exact Or.inl fun other hmem =>
        hnone other (List.mem_cons_of_mem _ hmem)
    · exact Or.inr hstore

theorem clean_commitChunks_of_foyer (htier : tier = .foyer)
    (h : exists entry, entry ∈ entries ∧ entry.1 = key) :
    Clean eTag CachedChunk.eTag
      ((entries.foldl (Node.commitChunk tier name eTag) node).chunks key) := by
  induction entries generalizing node with
  | nil =>
    rcases h with ⟨entry, hmem, _⟩
    cases hmem
  | cons entry rest ih =>
    rw [List.foldl_cons]
    rcases h with ⟨found, hmem, hkey⟩
    rcases List.mem_cons.mp hmem with rfl | hrest
    · apply clean_commitChunks
      rw [chunks_commitChunk, if_pos hkey]
      exact clean_putChunk (Or.inl htier)
    · exact ih ⟨found, hrest, hkey⟩

theorem headers_commitChunks :
    (entries.foldl (Node.commitChunk tier name eTag) node).headers =
      node.headers := by
  induction entries generalizing node with
  | nil => rfl
  | cons entry rest ih => exact ih

end Entries

section Commits

variable {diskTier : String -> DiskTier}
  {handed : String -> List (String × Bytes)} {names : List String}

theorem clean_commits
    (h : Clean eTag CachedChunk.eTag ((nodes n).chunks key)) :
    Clean eTag CachedChunk.eTag
      ((names.foldl (commitUpload diskTier eTag handed) nodes n).chunks
        key) := by
  induction names generalizing nodes with
  | nil => exact h
  | cons name rest ih =>
    apply ih
    unfold commitUpload
    rcases eq_or_ne n name with rfl | hne
    · rw [onNode_self]
      exact clean_commitChunks h
    · rw [onNode_of_ne _ hne]
      exact h

theorem chunks_commits_of_kept
    (h : (forall entry, entry ∈ handed n -> entry.1 ≠ key) ∨
      diskTier n = .store ∧ (nodes n).chunks key ≠ none) :
    (names.foldl (commitUpload diskTier eTag handed) nodes n).chunks key =
      (nodes n).chunks key := by
  induction names generalizing nodes with
  | nil => rfl
  | cons name rest ih =>
    have hstep : (commitUpload diskTier eTag handed nodes name n).chunks
        key = (nodes n).chunks key := by
      unfold commitUpload
      rcases eq_or_ne n name with rfl | hne
      · rw [onNode_self]
        exact chunks_commitChunks_of_kept h
      · rw [onNode_of_ne _ hne]
    rw [List.foldl_cons, ih, hstep]
    rw [hstep]
    exact h

theorem clean_commits_of_foyer (htier : diskTier n = .foyer)
    (hnames : n ∈ names)
    (h : exists entry, entry ∈ handed n ∧ entry.1 = key) :
    Clean eTag CachedChunk.eTag
      ((names.foldl (commitUpload diskTier eTag handed) nodes n).chunks
        key) := by
  induction names generalizing nodes with
  | nil => cases hnames
  | cons name rest ih =>
    rw [List.foldl_cons]
    rcases List.mem_cons.mp hnames with rfl | hrest
    · apply clean_commits
      unfold commitUpload
      rw [onNode_self]
      exact clean_commitChunks_of_foyer htier h
    · exact ih hrest

theorem headers_commits :
    (names.foldl (commitUpload diskTier eTag handed) nodes n).headers =
      (nodes n).headers := by
  induction names generalizing nodes with
  | nil => rfl
  | cons name rest ih =>
    rw [List.foldl_cons, ih]
    unfold commitUpload
    rcases eq_or_ne n name with rfl | hne
    · rw [onNode_self]
      exact headers_commitChunks
    · rw [onNode_of_ne _ hne]

end Commits

theorem chunks_writeHeader (cfg : Config) (objectKey : String)
    (head : Option Head) :
    (writeHeader cfg objectKey eTag head nodes n).chunks =
      (nodes n).chunks := by
  unfold writeHeader
  cases head.bind (headerIfEtagAgrees · eTag) with
  | none => rfl
  | some header =>
    dsimp only
    rcases eq_or_ne n (headerHome cfg objectKey) with rfl | hne
    · rw [onNode_self]
      rfl
    · rw [onNode_of_ne _ hne]

theorem headers_writeHeader (cfg : Config) (objectKey : String)
    (head : Option Head) :
    (n = headerHome cfg objectKey ∧ Confirms head eTag ∧
      Clean eTag ObjectHeader.eTag
        ((writeHeader cfg objectKey eTag head nodes n).headers objectKey)) ∨
    ¬ (n = headerHome cfg objectKey ∧ Confirms head eTag) ∧
      (writeHeader cfg objectKey eTag head nodes n).headers objectKey =
        (nodes n).headers objectKey := by
  unfold writeHeader
  cases hheader : head.bind (headerIfEtagAgrees · eTag) with
  | none =>
    refine Or.inr ⟨?_, rfl⟩
    rintro ⟨_, answer, rfl, hsame, hlength⟩
    rcases Option.isSome_iff_exists.mp hlength with ⟨len, hlen⟩
    simp [headerIfEtagAgrees, hsame, hlen] at hheader
  | some header =>
    rcases Option.bind_eq_some_iff.mp hheader with ⟨answer, rfl, hagrees⟩
    unfold headerIfEtagAgrees at hagrees
    split at hagrees
    · rename_i hsame
      rcases Option.map_eq_some_iff.mp hagrees with ⟨len, hlen, rfl⟩
      have hconfirms : Confirms (some answer) eTag := by
        refine ⟨answer, rfl, hsame, ?_⟩
        rw [hlen]
        rfl
      rcases eq_or_ne n (headerHome cfg objectKey) with rfl | hne
      · refine Or.inl ⟨rfl, hconfirms, ?_⟩
        dsimp only
        rw [onNode_self]
        unfold Node.insertHeader
        dsimp only
        rw [update_self]
        intro x hx
        cases hx
        rcases (sameVersion_iff _ _).mp hsame with
          ⟨got, named, hgot, hnamed, htrim⟩
        apply (sameVersion_iff _ _).mpr
        refine ⟨trimQuotes got, named, ?_, hnamed, ?_⟩
        · rw [hgot]
          rfl
        · rw [trimQuotes_trimQuotes]
          exact htrim
      · refine Or.inr ⟨fun h => hne h.left, ?_⟩
        dsimp only
        rw [onNode_of_ne _ hne]
    · cases hagrees

end Steps

/-!
## The windows of a plan
-/

section Planned

variable {homes : String -> List NodeId} {chunk : ChunkConfig}
  {objectKey localNode : String} {objectLen : Nat} {window : PlannedWindow}

theorem mem_build :
    window ∈ (ScatterPlan.build homes chunk objectKey objectLen).windows <->
      window.index < chunk.chunkCount objectLen ∧
        window.partNumber = asI32 (window.index + 1) ∧
        window.chunkKey = chunk.chunkKey objectKey window.index ∧
        window.homes = homes window.chunkKey := by
  unfold ScatterPlan.build
  dsimp only
  rw [List.mem_map]
  constructor
  · rintro ⟨index, hindex, rfl⟩
    exact ⟨List.mem_range.mp hindex, rfl, rfl, rfl⟩
  · rintro ⟨hindex, hnumber, hkey, hhomes⟩
    refine ⟨window.index, List.mem_range.mpr hindex, ?_⟩
    cases window with
    | mk index partNumber chunkKey owners =>
      dsimp only at hnumber hkey hhomes
      rw [hhomes, hkey, hnumber]

theorem plannedFor_build {part : DonePart}
    (hparts : chunk.chunkCount objectLen < 2 ^ 31)
    (hwindow : window ∈
      (ScatterPlan.build homes chunk objectKey objectLen).windows)
    (hnumber : part.partNumber = window.partNumber) :
    plannedFor (ScatterPlan.build homes chunk objectKey objectLen) part =
      some window := by
  rcases mem_build.mp hwindow with ⟨hindex, hpart, hkey, hhomes⟩
  have hbelow : (part.partNumber - 1).bmod (2 ^ 32) =
      Int.ofNat window.index := by
    rw [hnumber, hpart, asI32_of_lt (by lia), Int.natCast_succ,
      Int.add_sub_cancel]
    exact Int.bmod_eq_of_le_mul_two (by lia) (by lia)
  unfold plannedFor
  rw [hbelow]
  dsimp only
  unfold ScatterPlan.build
  dsimp only
  rw [List.getElem?_map, List.getElem?_range hindex, Option.map_some]
  cases window with
  | mk index partNumber chunkKey owners =>
    dsimp only at hpart hkey hhomes
    dsimp only
    rw [hhomes, hkey, hpart]

theorem eq_of_chunkKey_eq {other : PlannedWindow}
    (hwindow : window ∈
      (ScatterPlan.build homes chunk objectKey objectLen).windows)
    (hother : other ∈
      (ScatterPlan.build homes chunk objectKey objectLen).windows)
    (hkey : other.chunkKey = window.chunkKey) : other = window := by
  rcases mem_build.mp hwindow with ⟨_, hpart, hchunk, hhomes⟩
  rcases mem_build.mp hother with ⟨_, hpart', hchunk', hhomes'⟩
  have hindex : other.index = window.index := by
    rw [hchunk, hchunk'] at hkey
    exact (ChunkConfig.chunkKey_injective hkey).right.right
  cases window with
  | mk index partNumber chunkKey owners =>
    cases other with
    | mk index' partNumber' chunkKey' owners' =>
      dsimp only at *
      rw [hhomes, hhomes', hpart, hpart', hindex, hkey]

theorem chunkKey_ne_objectKey (chunk : ChunkConfig) (objectKey : String)
    (index : Nat) : chunk.chunkKey objectKey index ≠ objectKey := by
  intro heq
  have hlen := congrArg (fun text => text.toList.length) heq
  rw [ChunkConfig.toList_chunkKey, List.length_append, List.length_cons]
    at hlen
  lia

/-!
## Who took a window
-/

variable {env : Env} {bytes : Bytes} {part : DonePart}

theorem owner_uploadHere (h : uploadHere env window bytes = some part) :
    part.owner = none := by
  unfold uploadHere at h
  split at h
  · cases h
  · cases h
    rfl

theorem freshHolder_uploadWindow
    (h : uploadWindow localNode env (window, bytes) = some part) :
    freshHolder localNode part = taker localNode env window := by
  have hhere (hup : uploadHere env window bytes = some part) :
      freshHolder localNode part = localNode := by
    unfold freshHolder
    rw [owner_uploadHere hup]
  unfold uploadWindow at h
  dsimp only at h
  split at h
  · rename_i hhome
    unfold taker
    rw [hhome]
    exact hhere h
  · rename_i home hhome
    split at h
    · rename_i hoffered
      split at h
      · rename_i answer hanswer
        cases h
        unfold taker
        rw [hhome]
        dsimp only
        rw [if_pos hoffered, hanswer]
        rfl
      · rename_i hrefused
        rw [hhere h]
        unfold taker
        rw [hhome]
        dsimp only
        rw [if_pos hoffered]
        split
        · rename_i answer hanswer
          exact absurd hanswer (hrefused answer)
        · rfl
    · rename_i hkept
      unfold taker
      rw [hhome]
      dsimp only
      rw [if_neg hkept]
      exact hhere h

end Planned

theorem mem_names_foldl {owners seen : List NodeId} {name : String}
    (h : name ∈ seen.map NodeId.name ∨ name ∈ owners.map NodeId.name) :
    name ∈ (owners.foldl (fun seen owner =>
      if seen.any fun old => old.name == owner.name then seen
      else seen ++ [owner]) seen).map NodeId.name := by
  induction owners generalizing seen with
  | nil =>
    rcases h with hseen | hnil
    · exact hseen
    · cases hnil
  | cons owner rest ih =>
    apply ih
    rw [List.map_cons, List.mem_cons] at h
    dsimp only
    split
    · rename_i hany
      rcases List.any_eq_true.mp hany with ⟨old, hold, hname⟩
      rcases h with hseen | rfl | hrest
      · exact Or.inl hseen
      · exact Or.inl (List.mem_map.mpr ⟨old, hold, beq_iff_eq.mp hname⟩)
      · exact Or.inr hrest
    · rcases h with hseen | rfl | hrest
      · refine Or.inl ?_
        rw [List.map_append]
        exact List.mem_append_left _ hseen
      · refine Or.inl ?_
        rw [List.map_append]
        exact List.mem_append_right _ List.mem_cons_self
      · exact Or.inr hrest

theorem freshHolder_commits (localNode : String) {parts : List DonePart}
    {part : DonePart} (hpart : part ∈ parts) :
    freshHolder localNode part ∈
      (distinctOwners parts).map NodeId.name ++ [localNode] := by
  unfold freshHolder
  cases howner : part.owner with
  | none => exact List.mem_append_right _ List.mem_cons_self
  | some owner =>
    apply List.mem_append_left
    apply mem_names_foldl
    refine Or.inr (List.mem_map.mpr ⟨owner, ?_, rfl⟩)
    exact List.mem_filterMap.mpr ⟨part, hpart, howner⟩

/-!
## What a publish leaves
-/

section Published

variable {cfg : Config} {checksum : Bytes -> String} {env : Env}
  {kept : String -> Nat -> Bool} {head : Option Head}
  {target : ScatterTarget} {body : Body} {nodes : String -> Node}
  {eTag uploadId : String} {parts : List DonePart}

theorem runPipeline_of_assemble
    (h : (assemble cfg.localNode cfg.homes cfg.chunk checksum env target
      body).result = .ok (uploadId, parts, eTag)) :
    runPipeline cfg.localNode cfg.chunk env (cfg.plan target) body =
      .ok parts := by
  unfold assemble at h
  split at h
  · cases h
  dsimp only at h
  split at h
  · cases h
  rename_i joined hjoined
  rw [hjoined]
  split at h
  · dsimp only at h
    split at h
    · cases h
    · cases h
      rfl
  · split at h
    · cases h
    dsimp only at h
    split at h
    · cases h
    · cases h
      rfl

structure FromPlan (cfg : Config) (env : Env) (target : ScatterTarget)
    (parts : List DonePart) : Prop where
  planned : forall part, part ∈ parts -> exists window,
    window ∈ (cfg.plan target).windows ∧
    plannedFor (cfg.plan target) part = some window ∧
    freshHolder cfg.localNode part = taker cfg.localNode env window
  covered : forall window, window ∈ (cfg.plan target).windows ->
    exists part, part ∈ parts ∧
      plannedFor (cfg.plan target) part = some window ∧
      freshHolder cfg.localNode part = taker cfg.localNode env window

theorem fromPlan_of_runPipeline
    (hparts : cfg.chunk.chunkCount target.objectLen < 2 ^ 31)
    (h : runPipeline cfg.localNode cfg.chunk env (cfg.plan target) body =
      .ok parts) :
    FromPlan cfg env target parts := by
  have hnumber {window : PlannedWindow} {bytes : Bytes} {part : DonePart}
      (hup : uploadWindow cfg.localNode env (window, bytes) = some part) :
      part.partNumber = window.partNumber :=
    congrArg Prod.fst (carried_uploadWindow hup)
  constructor
  · intro part hpart
    rcases mem_of_runPipeline h hpart with ⟨window, bytes, hwindow, hup⟩
    exact ⟨window, hwindow, plannedFor_build hparts hwindow (hnumber hup),
      freshHolder_uploadWindow hup⟩
  · intro window hwindow
    rcases exists_of_runPipeline h hwindow with ⟨part, bytes, hpart, hup⟩
    exact ⟨part, hpart, plannedFor_build hparts hwindow (hnumber hup),
      freshHolder_uploadWindow hup⟩

namespace FromPlan

variable {window : PlannedWindow}

section

variable (h : FromPlan cfg env target parts)

include h

theorem mem_staleCoHomes (hwindow : window ∈ (cfg.plan target).windows)
    {home : NodeId} (hhome : home ∈ cfg.homes window.chunkKey) :
    (exists stale,
      stale ∈ staleCoHomes cfg.localNode (cfg.plan target) parts ∧
      stale.1.name = home.name ∧ stale.2 = window.chunkKey) <->
    home.name ≠ taker cfg.localNode env window := by
  unfold staleCoHomes
  constructor
  · rintro ⟨stale, hmem, hname, hkey⟩
    rcases List.mem_flatMap.mp hmem with ⟨part, hpart, hstale⟩
    rcases h.planned part hpart with ⟨other, hother, hplanned, hfresh⟩
    rw [hplanned] at hstale
    dsimp only at hstale
    rcases List.mem_map.mp hstale with ⟨owner, howner, rfl⟩
    have hsame := eq_of_chunkKey_eq hwindow hother hkey
    have hne := (List.mem_filter.mp howner).right
    rw [hfresh, hsame, bne_iff_ne, hname] at hne
    exact hne
  · intro hne
    rcases h.covered window hwindow with ⟨part, hpart, hplanned, hfresh⟩
    refine ⟨(home, window.chunkKey), ?_, rfl, rfl⟩
    refine List.mem_flatMap.mpr ⟨part, hpart, ?_⟩
    rw [hplanned]
    refine List.mem_map.mpr ⟨home, ?_, rfl⟩
    rw [List.mem_filter, (mem_build.mp hwindow).right.right.right, hfresh]
    exact ⟨hhome, bne_iff_ne.mpr hne⟩

theorem key_ne_of_mem_staleCoHomes {stale : NodeId × String}
    (hmem : stale ∈ staleCoHomes cfg.localNode (cfg.plan target) parts) :
    stale.2 ≠ target.objectKey := by
  rcases List.mem_flatMap.mp hmem with ⟨part, hpart, hstale⟩
  rcases h.planned part hpart with ⟨window, hwindow, hplanned, _⟩
  rw [hplanned] at hstale
  rcases List.mem_map.mp hstale with ⟨_, _, rfl⟩
  dsimp only
  rw [(mem_build.mp hwindow).right.right.left]
  exact chunkKey_ne_objectKey _ _ _

theorem mem_handedOut (hwindow : window ∈ (cfg.plan target).windows)
    (n : String) :
    (exists entry, entry ∈ handedOut (cfg.plan target) kept parts n ∧
      entry.1 = window.chunkKey) <->
    kept n window.index = true := by
  unfold handedOut
  constructor
  · rintro ⟨entry, hmem, hkey⟩
    rcases List.mem_filterMap.mp hmem with ⟨part, hpart, hentry⟩
    rcases h.planned part hpart with ⟨other, hother, hplanned, _⟩
    rw [hplanned] at hentry
    dsimp only at hentry
    split at hentry
    · rename_i hkept
      cases hentry
      rw [eq_of_chunkKey_eq hwindow hother hkey] at hkept
      exact hkept
    · cases hentry
  · intro hkept
    rcases h.covered window hwindow with ⟨part, hpart, hplanned, _⟩
    refine ⟨(window.chunkKey, part.digest), ?_, rfl⟩
    refine List.mem_filterMap.mpr ⟨part, hpart, ?_⟩
    rw [hplanned]
    dsimp only
    rw [if_pos hkept]

/-- At a home, a window's chunk is left clean just when it was, or the home did
not take it, or takes the new bytes over the old. -/
theorem clean_chunk_iff (hwindow : window ∈ (cfg.plan target).windows)
    {home : NodeId} (hhome : home ∈ cfg.homes window.chunkKey) :
    Clean eTag CachedChunk.eTag
      ((publish cfg kept head target.objectKey (cfg.plan target) parts eTag
        nodes home.name).chunks window.chunkKey) <->
    (home.name = taker cfg.localNode env window ->
      Clean eTag CachedChunk.eTag
          ((nodes home.name).chunks window.chunkKey) ∨
        cfg.diskTier home.name = .foyer ∧
          kept home.name window.index = true) := by
  unfold publish
  rw [chunks_writeHeader]
  have hdropped := chunks_invalidated nodes home.name window.chunkKey
    cfg.localNode (staleCoHomes cfg.localNode (cfg.plan target) parts)
  by_cases htaker : home.name = taker cfg.localNode env window
  · rw [if_neg (fun hex => (h.mem_staleCoHomes hwindow hhome).mp hex htaker)]
      at hdropped
    constructor
    · intro hclean _
      by_contra hnone
      rw [not_or] at hnone
      rcases hnone with ⟨hstale, hreplaced⟩
      rw [chunks_commits_of_kept, hdropped] at hclean
      · exact hstale hclean
      · by_cases hkept : kept home.name window.index = true
        · refine Or.inr ⟨?_, ?_⟩
          · cases htier : cfg.diskTier home.name with
            | foyer => exact absurd ⟨htier, hkept⟩ hreplaced
            | store => rfl
          · rw [hdropped]
            intro hnone
            rw [hnone] at hstale
            exact hstale (clean_none eTag _)
        · refine Or.inl fun entry hmem hkey => hkept ?_
          exact (h.mem_handedOut hwindow _).mp ⟨entry, hmem, hkey⟩
    · intro hif
      rcases hif htaker with hclean | ⟨hfoyer, hkept⟩
      · apply clean_commits
        rw [hdropped]
        exact hclean
      · apply clean_commits_of_foyer hfoyer
        · rcases h.covered window hwindow with ⟨part, hpart, _, hfresh⟩
          rw [htaker, ← hfresh]
          exact freshHolder_commits cfg.localNode hpart
        · exact (h.mem_handedOut hwindow _).mpr hkept
  · rw [if_pos ((h.mem_staleCoHomes hwindow hhome).mpr htaker)] at hdropped
    constructor
    · intro _ heq
      exact absurd heq htaker
    · intro _
      apply clean_commits
      rw [hdropped]
      exact clean_none eTag _

theorem clean_header_iff (n : String) :
    Clean eTag ObjectHeader.eTag
      ((publish cfg kept head target.objectKey (cfg.plan target) parts eTag
        nodes n).headers target.objectKey) <->
    Clean eTag ObjectHeader.eTag ((nodes n).headers target.objectKey) ∨
      n = headerHome cfg target.objectKey ∧ Confirms head eTag := by
  unfold publish
  rcases headers_writeHeader cfg target.objectKey head with
    ⟨hhome, hconfirms, hclean⟩ | ⟨hnot, hsame⟩
  · exact ⟨fun _ => Or.inr ⟨hhome, hconfirms⟩, fun _ => hclean⟩
  · rw [hsame, headers_commits, headers_invalidated]
    · constructor
      · exact Or.inl
      · rintro (hclean | hwritten)
        · exact hclean
        · exact absurd hwritten hnot
    · intro stale hmem
      exact h.key_ne_of_mem_staleCoHomes hmem

end

end FromPlan

end Published

/-- A scattered write that succeeds leaves no stale copy at any home just when
it replaces every stale one that was there. -/
theorem scatter_leaves_no_stale_copy_iff (cfg : Config)
    (checksum : Bytes -> String) (env : Env) (kept : String -> Nat -> Bool)
    (head : Option Head) (target : ScatterTarget) (body : Body)
    (nodes after : String -> Node) (eTag : String)
    (hparts : cfg.chunk.chunkCount target.objectLen < 2 ^ 31)
    (h : scatter cfg checksum env kept head target body nodes =
      (.ok eTag, after)) :
    NoStaleCopy cfg target eTag after <->
      OnlyReplaced cfg env kept head target eTag nodes := by
  unfold scatter at h
  split at h
  · cases h
  rename_i result hresult
  cases h
  have hplan := fromPlan_of_runPipeline hparts
    (runPipeline_of_assemble hresult)
  unfold NoStaleCopy OnlyReplaced
  constructor
  · rintro ⟨hheaders, hchunks⟩
    constructor
    · intro home hhome
      exact (hplan.clean_header_iff _).mp (hheaders home hhome)
    · intro window hwindow home hhome
      exact (hplan.clean_chunk_iff hwindow hhome).mp
        (hchunks window hwindow home hhome)
  · rintro ⟨hheaders, hchunks⟩
    constructor
    · intro home hhome
      exact (hplan.clean_header_iff _).mpr (hheaders home hhome)
    · intro window hwindow home hhome
      exact (hplan.clean_chunk_iff hwindow hhome).mpr
        (hchunks window hwindow home hhome)

/-!
## Runs
-/

def pair (replicationR : Nat) (replicated : 1 ≤ replicationR)
    (tier : DiskTier) : Config :=
  { ring := { members := [⟨"a", "10.0.0.1"⟩, ⟨"b", "10.0.0.2"⟩] },
    score := fun name _ => if name = "a" then 1 else 0,
    replicationR := replicationR,
    replicated := replicated,
    localNode := "a",
    chunk := { chunkSize := 16, positive := by decide },
    diskTier := fun _ => tier }

def overwritten : ScatterTarget :=
  { objectKey := "b/k", objectLen := 4, expectedCrc32 := none }

def newBody : Body := { frames := [[1, 2, 3, 4]], broken := false }

def oldCopies : String -> Node := fun _ =>
  { headers := fun key =>
      if key = "b/k" then some { objectLen := 1, eTag := some "old" }
      else none,
    chunks := fun key =>
      if key = "b/k#16:0" then some ⟨[9], some "old"⟩ else none,
    directory := .new 8 }

def newHead : Head := { eTag := some "object", contentLength := some 4 }

theorem onlyReplaced_foyer :
    OnlyReplaced (pair 1 (by decide) .foyer) .willing (fun _ _ => true)
      (some newHead) overwritten "object" oldCopies := by
  constructor
  · intro home hhome
    have hhomes : (pair 1 (by decide) .foyer).homes "b/k" =
        [⟨"a", "10.0.0.1"⟩] := rfl
    rw [show overwritten.objectKey = "b/k" from rfl, hhomes,
      List.mem_singleton] at hhome
    cases hhome
    exact Or.inr ⟨rfl, newHead, rfl, rfl, rfl⟩
  · intro window _ home _ _
    exact Or.inr ⟨rfl, rfl⟩

theorem scatter_leaves_no_stale_copy_iff_foyer : exists after,
    scatter (pair 1 (by decide) .foyer) (fun _ => "") .willing
      (fun _ _ => true) (some newHead) overwritten newBody oldCopies =
        (.ok "object", after) ∧
    ¬ NoStaleCopy (pair 1 (by decide) .foyer) overwritten "object" oldCopies ∧
    NoStaleCopy (pair 1 (by decide) .foyer) overwritten "object" after := by
  refine ⟨_, rfl, ?_, ?_⟩
  · intro hclean
    have hheader := hclean.left ⟨"a", "10.0.0.1"⟩ (List.mem_singleton.mpr rfl)
      { objectLen := 1, eTag := some "old" } rfl
    cases hheader
  · exact (scatter_leaves_no_stale_copy_iff _ (fun _ => "") _ _ _ _ newBody _ _
      _ (by decide) rfl).mpr onlyReplaced_foyer

/-- The coordinator is the one home and stages the window, every request
succeeds, and its slot store keeps the chunk of the old version. -/
theorem old_chunk_survives_commit : exists after,
    scatter (pair 1 (by decide) .store) (fun _ => "") .willing
      (fun _ _ => true) (some newHead) overwritten newBody oldCopies =
        (.ok "object", after) ∧
    (pair 1 (by decide) .store).homes "b/k#16:0" = [⟨"a", "10.0.0.1"⟩] ∧
    (after "a").headers "b/k" =
      some { objectLen := 4, eTag := some "object" } ∧
    (after "a").chunks "b/k#16:0" = some ⟨[9], some "old"⟩ :=
  ⟨_, rfl, rfl, rfl, rfl⟩

theorem old_header_survives_at_co_home : exists after,
    scatter (pair 2 (by decide) .foyer) (fun _ => "") .willing
      (fun _ _ => true) (some newHead) overwritten newBody oldCopies =
        (.ok "object", after) ∧
    (after "a").chunks "b/k#16:0" = some ⟨[1, 2, 3, 4], some "object"⟩ ∧
    (after "b").chunks "b/k#16:0" = none ∧
    (after "b").headers "b/k" = some { objectLen := 1, eTag := some "old" } :=
  ⟨_, rfl, rfl, rfl, rfl⟩

end ScatterPublish

end Daemon
end Pacer
