import Pacer.Cache.Provenance
import Pacer.Foundation.Transition

/-!
# Crashes between file operations

One call at a time, with a crash possible after every file operation of a put.
The files a call reads are the cached ones; the drive has an older state of
them.  Syncing an extent file brings the drive up to date with it.  What was
written since may or may not be on the drive after a crash: a header entry is
one page and is there or not, a body may be there in part.

A slot that is used again still carries the header of its evicted key while its
body is replaced.  A crash there leaves the old header over the new body.  The
main result is that no other crash serves a body to a key it was not stored
under.
-/

namespace Pacer
namespace Cache

open Foundation Function

namespace Crash

inductive Flight where
  | idle
  | claimed (slot : Nat) (key : String) (chunk : CachedChunk)
  /-- The body is written and not synced. -/
  | written (slot : Nat) (page body : Bytes)
  | synced (slot : Nat) (page : Bytes)

def Flight.Rewrites (slot : Nat) : Flight -> Prop
  | .written s _ _ => s = slot
  | .synced s _ => s = slot
  | _ => False

/-- `dir` is what calls read, `durable` what the drive has, and `pending` the
header pages written since their extent was last synced. -/
structure State where
  index : Index
  dir : Directory
  durable : Directory
  pending : List (Nat × Bytes)
  flight : Flight

namespace State

def ofStore (store : Store) : State :=
  { index := store.index,
    dir := store.dir,
    durable := store.dir,
    pending := [],
    flight := .idle }

def store (s : State) : Store := { index := s.index, dir := s.dir }

end State

def torn (keep : Nat -> Bool) (old new : Bytes) : Bytes :=
  (List.range new.length).map fun i =>
    if keep i then new.getD i 0 else old.getD i 0

def writeHeaders (chunkSize : Nat) (dir : Directory)
    (pages : List (Nat × Bytes)) : Directory :=
  pages.foldl (fun dir entry => writeHeader chunkSize dir entry.1 entry.2) dir

def survivingBodies (cfg : StoreConfig) (s : State) (keepBody : Nat -> Bool) :
    Directory :=
  match s.flight with
  | .written slot _ body =>
    writeBody cfg.chunkSize s.durable slot
      (torn keepBody (bodyBytes cfg.chunkSize s.durable slot body.length)
        body)
  | _ => s.durable

/-- What a crash leaves on the drive.  A slot has at most one header page
pending, so the ones that survive are told by their slot. -/
def survived (cfg : StoreConfig) (s : State) (keepBody keepHeader : Nat -> Bool) :
    Directory :=
  writeHeaders cfg.chunkSize (survivingBodies cfg s keepBody)
    (s.pending.filter fun entry => keepHeader entry.1)

inductive Event where
  | get (key : String)
  | put (key : String) (chunk : CachedChunk)
  | remove (key : String)
  | writeBody
  | sync
  | writeHeader
  /-- Crash, and open the store again. -/
  | crash (keepBody keepHeader : Nat -> Bool)

def step (cfg : StoreConfig) (s : State) : Event -> Option State
  | .get key =>
    match s.flight with
    | .idle => some { s with index := (s.store.get cfg key).2.index }
    | _ => none
  | .remove key =>
    match s.flight with
    | .idle => some { s with index := (s.store.remove key).2.index }
    | _ => none
  | .put key chunk =>
    match s.flight with
    | .idle =>
      if chunk.body.length > cfg.chunkSize then
        some s
      else
        match s.index.claim key (putHeader key chunk) with
        | none => some s
        | some (slot, index) =>
          some { s with
            index := index, flight := .claimed slot key chunk }
    | _ => none
  | .writeBody =>
    match s.flight with
    | .claimed slot key chunk =>
      match (putHeader key chunk).writeTo blankPage with
      | .error _ =>
        some { s with index := s.index.forget slot, flight := .idle }
      | .ok page =>
        some { s with
          dir := Cache.writeBody cfg.chunkSize s.dir slot chunk.body,
          flight := .written slot page chunk.body }
    | _ => none
  | .sync =>
    match s.flight with
    | .written slot page _ =>
      let extent := slot / slotsPerExtent
      some { s with
        durable := update s.durable extent (s.dir extent),
        pending := s.pending.filter
          fun entry => entry.1 / slotsPerExtent ≠ extent,
        flight := .synced slot page }
    | _ => none
  | .writeHeader =>
    match s.flight with
    | .synced slot page =>
      some { s with
        dir := Cache.writeHeader cfg.chunkSize s.dir slot page,
        pending := s.pending ++ [(slot, page)],
        flight := .idle }
    | _ => none
  | .crash keepBody keepHeader =>
    match openStore cfg (survived cfg s keepBody keepHeader) with
    | .error _ => none
    | .ok store => some (State.ofStore store)

/-!
## Recoverable steps

A crash is recoverable when it leaves no readable header over a body that was
rewritten under it: in a slot whose new header it loses, and in the slot of a
put it cuts off after the body write, the header entry left on the drive does
not parse.  A put is recoverable when its body length fits the header field.
-/

def Recoverable (cfg : StoreConfig) (s : State) : Event -> Prop
  | .put _ chunk => chunk.body.length < 2 ^ 32
  | .crash keepBody keepHeader =>
    forall slot,
      (s.flight.Rewrites slot ∨
        (keepHeader slot = false ∧
          exists page, (slot, page) ∈ s.pending)) ->
      slotHeader cfg.chunkSize (survived cfg s keepBody keepHeader) slot =
        none
  | _ => True

def FlightOk (puts : Puts) (cfg : StoreConfig) (dir : Directory)
    (pending : List (Nat × Bytes)) : Flight -> Prop
  | .idle => True
  | .claimed slot key chunk =>
    slot < cfg.slotCount ∧ puts key chunk ∧
      chunk.body.length ≤ cfg.chunkSize ∧ chunk.body.length < 2 ^ 32
  | .written slot page body =>
    slot < cfg.slotCount ∧
      exists key chunk, puts key chunk ∧ body = chunk.body ∧
        chunk.body.length ≤ cfg.chunkSize ∧ chunk.body.length < 2 ^ 32 ∧
        (putHeader key chunk).Fits ∧
        page = (putHeader key chunk).filled blankPage ∧
        bodyBytes cfg.chunkSize dir slot chunk.body.length = chunk.body
  | .synced slot page =>
    slot < cfg.slotCount ∧ (forall entry, entry ∈ pending -> entry.1 ≠ slot) ∧
      exists key chunk, puts key chunk ∧
        chunk.body.length < 2 ^ 32 ∧
        (putHeader key chunk).Fits ∧
        page = (putHeader key chunk).filled blankPage ∧
        bodyBytes cfg.chunkSize dir slot chunk.body.length = chunk.body

structure PendingOk (dir durable : Directory) (pending : List (Nat × Bytes)) :
    Prop where
  distinct : (pending.map Prod.fst).Nodup
  pageLength : forall entry, entry ∈ pending ->
    entry.2.length = slotHeaderBytes
  shown : forall slot page, (slot, page) ∈ pending ->
    headerPage dir slot = page
  settled : forall slot, (forall entry, entry ∈ pending -> entry.1 ≠ slot) ->
    headerPage dir slot = headerPage durable slot

structure Inv (puts : Puts) (cfg : StoreConfig) (s : State) : Prop where
  bounded : s.index.Bounded cfg.slotCount
  flightOk : FlightOk puts cfg s.dir s.pending s.flight
  pendingOk : PendingOk s.dir s.durable s.pending
  /-- A body the put under way has not just written is on the drive. -/
  bodies : forall slot, (forall page body, s.flight ≠ .written slot page body) ->
    forall n, n ≤ cfg.chunkSize ->
      bodyBytes cfg.chunkSize s.dir slot n =
        bodyBytes cfg.chunkSize s.durable slot n
  quiet : forall slot, slot < cfg.slotCount -> ¬ s.flight.Rewrites slot ->
    Consistent puts cfg.chunkSize s.dir slot

/-!
## Views after a sync and after a crash
-/

theorem headerPage_sync (dir durable : Directory) (extent slot : Nat) :
    headerPage (update durable extent (dir extent)) slot =
      if slot / slotsPerExtent = extent then headerPage dir slot
      else headerPage durable slot := by
  unfold headerPage
  rw [update_apply]
  split
  · rename_i heq
    rw [heq]
  · rfl

theorem bodyBytes_sync (chunkSize : Nat) (dir durable : Directory)
    (extent slot n : Nat) :
    bodyBytes chunkSize (update durable extent (dir extent)) slot n =
      if slot / slotsPerExtent = extent then bodyBytes chunkSize dir slot n
      else bodyBytes chunkSize durable slot n := by
  unfold bodyBytes
  rw [update_apply]
  split
  · rename_i heq
    rw [heq]
  · rfl

variable {pages : List (Nat × Bytes)}

theorem bodyBytes_writeHeaders (chunkSize : Nat) (dir : Directory)
    (hlength : forall entry, entry ∈ pages -> entry.2.length = slotHeaderBytes)
    (slot n : Nat) :
    bodyBytes chunkSize (writeHeaders chunkSize dir pages) slot n =
      bodyBytes chunkSize dir slot n := by
  induction pages generalizing dir with
  | nil => rfl
  | cons entry rest ih =>
    have hentry := hlength entry List.mem_cons_self
    have hrest : forall other, other ∈ rest ->
        other.2.length = slotHeaderBytes :=
      fun other hmem => hlength other (List.mem_cons_of_mem entry hmem)
    change bodyBytes chunkSize (writeHeaders chunkSize
      (writeHeader chunkSize dir entry.1 entry.2) rest) slot n = _
    rw [ih _ hrest, bodyBytes_writeHeader chunkSize dir entry.1 hentry]

variable {slot : Nat}

theorem headerPage_writeHeaders_of_not_mem (chunkSize : Nat) (dir : Directory)
    (hlength : forall entry, entry ∈ pages -> entry.2.length = slotHeaderBytes)
    (hslot : forall entry, entry ∈ pages -> entry.1 ≠ slot) :
    headerPage (writeHeaders chunkSize dir pages) slot =
      headerPage dir slot := by
  induction pages generalizing dir with
  | nil => rfl
  | cons entry rest ih =>
    have hentry := hlength entry List.mem_cons_self
    have hne := hslot entry List.mem_cons_self
    change headerPage (writeHeaders chunkSize
      (writeHeader chunkSize dir entry.1 entry.2) rest) slot = _
    rw [ih _ (fun other hmem => hlength other (List.mem_cons_of_mem entry hmem))
      (fun other hmem => hslot other (List.mem_cons_of_mem entry hmem)),
      headerPage_writeHeader_of_ne chunkSize dir hentry hne.symm]

theorem headerPage_writeHeaders_of_mem (chunkSize : Nat) (dir : Directory)
    {page : Bytes}
    (hlength : forall entry, entry ∈ pages -> entry.2.length = slotHeaderBytes)
    (hdistinct : (pages.map Prod.fst).Nodup) (hmem : (slot, page) ∈ pages) :
    headerPage (writeHeaders chunkSize dir pages) slot = page := by
  induction pages generalizing dir with
  | nil => cases hmem
  | cons entry rest ih =>
    have hentry := hlength entry List.mem_cons_self
    have hrest : forall other, other ∈ rest ->
        other.2.length = slotHeaderBytes :=
      fun other hother => hlength other (List.mem_cons_of_mem entry hother)
    rw [List.map_cons, List.nodup_cons] at hdistinct
    change headerPage (writeHeaders chunkSize
      (writeHeader chunkSize dir entry.1 entry.2) rest) slot = page
    rcases List.mem_cons.mp hmem with heq | hin
    · subst heq
      rw [headerPage_writeHeaders_of_not_mem chunkSize _ hrest,
        headerPage_writeHeader_same chunkSize dir slot hentry]
      intro other hother hslot
      exact hdistinct.left (List.mem_map.mpr ⟨other, hother, hslot⟩)
    · exact ih _ hrest hdistinct.right hin

theorem length_torn (keep : Nat -> Bool) (old new : Bytes) :
    (torn keep old new).length = new.length := by
  simp [torn]

variable {cfg : StoreConfig} {puts : Puts} {s s' : State}

theorem bodyBytes_survivingBodies (hinv : Inv puts cfg s)
    (keepBody : Nat -> Bool) (hslot : ¬ s.flight.Rewrites slot) {n : Nat}
    (hn : n ≤ cfg.chunkSize) :
    bodyBytes cfg.chunkSize (survivingBodies cfg s keepBody) slot n =
      bodyBytes cfg.chunkSize s.dir slot n := by
  have hbodies : bodyBytes cfg.chunkSize s.dir slot n =
      bodyBytes cfg.chunkSize s.durable slot n := by
    apply hinv.bodies slot _ n hn
    intro page body hflight
    rw [hflight] at hslot
    exact hslot rfl
  have hflightOk := hinv.flightOk
  rw [hbodies]
  unfold survivingBodies
  cases hflight : s.flight with
  | idle => rfl
  | claimed t key chunk => rfl
  | synced t page => rfl
  | written t page body =>
    rw [hflight] at hslot hflightOk
    rcases hflightOk with ⟨_, key, chunk, _, hbody, hlen, _⟩
    have hne : slot ≠ t := fun heq => hslot heq.symm
    apply bodyBytes_writeBody_of_ne _ _ hn hne
    rw [length_torn, hbody]
    exact hlen

theorem headerPage_survivingBodies (cfg : StoreConfig) (s : State)
    (keepBody : Nat -> Bool) (slot : Nat) :
    headerPage (survivingBodies cfg s keepBody) slot =
      headerPage s.durable slot := by
  unfold survivingBodies
  cases s.flight with
  | idle => rfl
  | claimed t key chunk => rfl
  | synced t page => rfl
  | written t page body => exact headerPage_writeBody _ _ _ _ _

section

variable (hinv : Inv puts cfg s)

include hinv

theorem headerPage_survived (keepBody keepHeader : Nat -> Bool)
    (hkept : ¬ (keepHeader slot = false ∧
      exists page, (slot, page) ∈ s.pending)) :
    headerPage (survived cfg s keepBody keepHeader) slot =
      headerPage s.dir slot := by
  have hpending := hinv.pendingOk
  have hlength : forall entry,
      entry ∈ s.pending.filter (fun entry => keepHeader entry.1) ->
        entry.2.length = slotHeaderBytes :=
    fun entry hmem => hpending.pageLength entry (List.mem_filter.mp hmem).left
  by_cases hexists : exists page, (slot, page) ∈ s.pending
  · rcases hexists with ⟨page, hmem⟩
    have hkeep : keepHeader slot = true := by
      cases hk : keepHeader slot with
      | true => rfl
      | false => exact absurd ⟨hk, page, hmem⟩ hkept
    have hdistinct : ((s.pending.filter
        fun entry => keepHeader entry.1).map Prod.fst).Nodup :=
      hpending.distinct.sublist (List.filter_sublist.map Prod.fst)
    have hin : (slot, page) ∈
        s.pending.filter (fun entry => keepHeader entry.1) :=
      List.mem_filter.mpr ⟨hmem, hkeep⟩
    rw [survived, headerPage_writeHeaders_of_mem _ _ hlength hdistinct hin,
      hpending.shown slot page hmem]
  · have hslot : forall entry, entry ∈ s.pending -> entry.1 ≠ slot := by
      intro entry hmem heq
      apply hexists
      refine ⟨entry.2, ?_⟩
      rw [← heq]
      exact hmem
    rw [survived, headerPage_writeHeaders_of_not_mem _ _ hlength
      (fun entry hmem => hslot entry (List.mem_filter.mp hmem).left),
      headerPage_survivingBodies, hpending.settled slot hslot]

/-!
## One step
-/

theorem inv_index {index : Index} (hbounded : index.Bounded cfg.slotCount) :
    Inv puts cfg { s with index := index } :=
  ⟨hbounded, hinv.flightOk, hinv.pendingOk, hinv.bodies, hinv.quiet⟩

theorem inv_put {key : String} {chunk : CachedChunk} (hput : puts key chunk)
    (hlen : chunk.body.length < 2 ^ 32)
    (hstep : step cfg s (.put key chunk) = some s') : Inv puts cfg s' := by
  simp only [step] at hstep
  split at hstep
  · rename_i hidle
    split at hstep
    · cases hstep
      exact hinv
    · rename_i hfits
      split at hstep
      · cases hstep
        exact hinv
      · rename_i slot index hclaim
        cases hstep
        have hindex := hinv.bounded.claim hclaim
        have hquiet := hinv.quiet
        have hbodies := hinv.bodies
        rw [hidle] at hquiet hbodies
        refine ⟨hindex.left, ?_, hinv.pendingOk, ?_, ?_⟩
        · exact ⟨hindex.right, hput, Nat.not_lt.mp hfits, hlen⟩
        · intro slot' _
          exact hbodies slot' (fun _ _ h => by cases h)
        · intro slot' hslot' _
          exact hquiet slot' hslot' not_false
  · cases hstep

theorem inv_writeBody (hstep : step cfg s .writeBody = some s') :
    Inv puts cfg s' := by
  simp only [step] at hstep
  split at hstep
  · rename_i slot key chunk hflight
    have hclaimed := hinv.flightOk
    have hquiet := hinv.quiet
    have hbodies := hinv.bodies
    rw [hflight] at hclaimed hquiet hbodies
    rcases hclaimed with ⟨hslot, hput, hle, hlen⟩
    split at hstep
    · cases hstep
      refine ⟨hinv.bounded.forget hslot, trivial, hinv.pendingOk, ?_, ?_⟩
      · intro slot' _
        exact hbodies slot' (fun _ _ h => by cases h)
      · intro slot' hslot' _
        exact hquiet slot' hslot' not_false
    · rename_i page hpage
      cases hstep
      rcases SlotHeader.writeTo_ok hpage with ⟨hfits, hfilled⟩
      have hheader : forall slot', headerPage
          (Cache.writeBody cfg.chunkSize s.dir slot chunk.body) slot' =
            headerPage s.dir slot' :=
        headerPage_writeBody cfg.chunkSize s.dir slot chunk.body
      refine ⟨hinv.bounded, ?_, ?_, ?_, ?_⟩
      · exact ⟨hslot, key, chunk, hput, rfl, hle, hlen, hfits, hfilled,
          bodyBytes_writeBody_same cfg.chunkSize s.dir slot chunk.body⟩
      · have hpending := hinv.pendingOk
        refine ⟨hpending.distinct, hpending.pageLength, ?_, ?_⟩
        · intro slot' page' hmem
          exact (hheader slot').trans (hpending.shown slot' page' hmem)
        · intro slot' hnone
          exact (hheader slot').trans (hpending.settled slot' hnone)
      · intro slot' hother n hn
        have hne : slot' ≠ slot := by
          rintro rfl
          exact hother page chunk.body rfl
        exact (bodyBytes_writeBody_of_ne s.dir hle hn hne).trans
          (hbodies slot' (fun _ _ h => by cases h) n hn)
      · intro slot' hslot' hnot
        have hne : slot' ≠ slot := fun heq => hnot heq.symm
        exact (hquiet slot' hslot' not_false).writeBody_of_ne hle hne
  · cases hstep

theorem inv_sync (hstep : step cfg s .sync = some s') :
    Inv puts cfg s' := by
  simp only [step] at hstep
  split at hstep
  · rename_i slot page body hflight
    cases hstep
    have hwritten := hinv.flightOk
    have hquiet := hinv.quiet
    have hpending := hinv.pendingOk
    rw [hflight] at hwritten hquiet
    rcases hwritten with
      ⟨hslot, key, chunk, hput, _, _, hlen, hfits, hpage, hbody⟩
    -- Only the pending pages of other extents stay.
    have hleft : forall entry,
        entry ∈ s.pending.filter
          (fun entry => entry.1 / slotsPerExtent ≠ slot / slotsPerExtent) ->
        entry ∈ s.pending ∧
          entry.1 / slotsPerExtent ≠ slot / slotsPerExtent := by
      intro entry hmem
      rcases List.mem_filter.mp hmem with ⟨hin, hextent⟩
      exact ⟨hin, of_decide_eq_true hextent⟩
    refine ⟨hinv.bounded, ?_, ?_, ?_, hquiet⟩
    · refine ⟨hslot, ?_, key, chunk, hput, hlen, hfits, hpage, hbody⟩
      intro entry hmem heq
      exact (hleft entry hmem).right (by rw [heq])
    · refine ⟨?_, ?_, ?_, ?_⟩
      · exact hpending.distinct.sublist (List.filter_sublist.map Prod.fst)
      · intro entry hmem
        exact hpending.pageLength entry (hleft entry hmem).left
      · intro slot' page' hmem
        exact hpending.shown slot' page' (hleft _ hmem).left
      · intro slot' hnone
        rw [headerPage_sync]
        split
        · rfl
        · rename_i hextent
          apply hpending.settled slot'
          intro entry hmem heq
          apply hnone entry _ heq
          rw [List.mem_filter]
          refine ⟨hmem, decide_eq_true ?_⟩
          rw [heq]
          exact hextent
    · intro slot' _ n hn
      rw [bodyBytes_sync]
      split
      · rfl
      · rename_i hextent
        apply hinv.bodies slot' _ n hn
        intro page' body' hother
        rw [hflight] at hother
        cases hother
        exact hextent rfl
  · cases hstep

theorem inv_writeHeader (hstep : step cfg s .writeHeader = some s') :
    Inv puts cfg s' := by
  simp only [step] at hstep
  split at hstep
  · rename_i slot page hflight
    cases hstep
    have hsynced := hinv.flightOk
    have hquiet := hinv.quiet
    have hbodies := hinv.bodies
    have hpending := hinv.pendingOk
    rw [hflight] at hsynced hquiet hbodies
    rcases hsynced with
      ⟨hslot, hfresh, key, chunk, hput, hlen, hfits, hpage, hbody⟩
    have hpageLen : page.length = slotHeaderBytes := by
      rw [hpage]
      exact SlotHeader.length_filled hfits length_blankPage
    refine ⟨hinv.bounded, trivial, ⟨?_, ?_, ?_, ?_⟩, ?_, ?_⟩
    · rw [List.map_append, List.nodup_append]
      refine ⟨hpending.distinct, List.nodup_singleton slot, ?_⟩
      intro a ha b hb
      rcases List.mem_map.mp ha with ⟨entry, hmem, rfl⟩
      rw [List.mem_singleton.mp hb]
      exact hfresh entry hmem
    · intro entry hmem
      rcases List.mem_append.mp hmem with hin | hnew
      · exact hpending.pageLength entry hin
      · rw [List.mem_singleton.mp hnew]
        exact hpageLen
    · intro slot' page' hmem
      rcases List.mem_append.mp hmem with hin | hnew
      · have hne : slot' ≠ slot := hfresh _ hin
        rw [headerPage_writeHeader_of_ne cfg.chunkSize s.dir hpageLen hne]
        exact hpending.shown slot' page' hin
      · cases List.mem_singleton.mp hnew
        exact headerPage_writeHeader_same cfg.chunkSize s.dir slot hpageLen
    · intro slot' hnone
      have hne : slot' ≠ slot :=
        fun heq => hnone (slot, page) (by simp) heq.symm
      rw [headerPage_writeHeader_of_ne cfg.chunkSize s.dir hpageLen hne]
      apply hpending.settled slot'
      intro entry hmem
      exact hnone entry (List.mem_append_left _ hmem)
    · intro slot' _ n hn
      rw [bodyBytes_writeHeader cfg.chunkSize s.dir slot hpageLen]
      exact hbodies slot' (fun _ _ h => by cases h) n hn
    · intro slot' hslot' _
      by_cases heq : slot' = slot
      · rw [heq, hpage]
        exact consistent_writeHeader_same hput hfits hlen hbody
      · have hnot : ¬ (Flight.synced slot page).Rewrites slot' :=
          fun h => heq h.symm
        exact (hquiet slot' hslot' hnot).writeHeader_of_ne hpageLen heq
  · cases hstep

end

theorem inv_ofStore {store : Store}
    (hbounded : store.index.Bounded cfg.slotCount)
    (hslots : forall slot, slot < cfg.slotCount ->
      Consistent puts cfg.chunkSize store.dir slot) :
    Inv puts cfg (State.ofStore store) := by
  refine ⟨hbounded, trivial, ⟨List.nodup_nil, ?_, ?_, ?_⟩, ?_, ?_⟩
  · intro entry hmem
    cases hmem
  · intro slot page hmem
    cases hmem
  · intro slot _
    rfl
  · intro slot _ n _
    rfl
  · intro slot hslot _
    exact hslots slot hslot

theorem inv_crash {keepBody keepHeader : Nat -> Bool} (hinv : Inv puts cfg s)
    (hrecoverable : Recoverable cfg s (.crash keepBody keepHeader))
    (hstep : step cfg s (.crash keepBody keepHeader) = some s') :
    Inv puts cfg s' := by
  simp only [step] at hstep
  split at hstep
  · cases hstep
  rename_i store hopen
  cases hstep
  rcases openStore_ok hopen with ⟨_, rfl⟩
  apply inv_ofStore (bounded_scanned cfg _)
  intro slot hslot
  have hleft : Consistent puts cfg.chunkSize
      (survived cfg s keepBody keepHeader) slot := by
    by_cases hlost : s.flight.Rewrites slot ∨
        (keepHeader slot = false ∧ exists page, (slot, page) ∈ s.pending)
    · exact shows_of_free (hrecoverable slot hlost)
    · rcases not_or.mp hlost with ⟨hflight, hkept⟩
      apply (hinv.quiet slot hslot hflight).congr
      · rw [slotHeader, headerPage_survived hinv keepBody keepHeader hkept,
          slotHeader]
      · intro n hn
        have hlength : forall entry,
            entry ∈ s.pending.filter (fun entry => keepHeader entry.1) ->
              entry.2.length = slotHeaderBytes :=
          fun entry hmem =>
            hinv.pendingOk.pageLength entry (List.mem_filter.mp hmem).left
        rw [survived, bodyBytes_writeHeaders _ _ hlength]
        exact bodyBytes_survivingBodies hinv keepBody hflight hn
  apply hleft.congr
  · exact slotHeader_sizedTo cfg _ cfg.chunkSize slot
  · intro n hn
    exact bodyBytes_sizedTo _ hslot hn

theorem inv_step {e : Event} (hinv : Inv puts cfg s)
    (hputs : forall key chunk, e = .put key chunk -> puts key chunk)
    (hrecoverable : Recoverable cfg s e) (hstep : step cfg s e = some s') :
    Inv puts cfg s' := by
  cases e with
  | get key =>
    simp only [step] at hstep
    split at hstep
    · cases hstep
      exact inv_index hinv (Store.bounded_get hinv.bounded key)
    · cases hstep
  | remove key =>
    simp only [step] at hstep
    split at hstep
    · cases hstep
      exact inv_index hinv (Store.bounded_remove hinv.bounded key)
    · cases hstep
  | put key chunk =>
    exact inv_put hinv (hputs key chunk rfl) hrecoverable hstep
  | writeBody => exact inv_writeBody hinv hstep
  | sync => exact inv_sync hinv hstep
  | writeHeader => exact inv_writeHeader hinv hstep
  | crash keepBody keepHeader => exact inv_crash hinv hrecoverable hstep

/-!
## Runs
-/

/-- In a run whose steps are all recoverable, crashes included, a get that
returns a chunk returns the body of a chunk a put of its key was called
with. -/
theorem recovered_gets_serve_own_puts {cfg : StoreConfig} {store : Store}
    (hopen : openStore cfg noFiles = .ok store) {events : List Event}
    {final : State}
    (hrecoverable : Transition.Along (step cfg) (Recoverable cfg)
      (State.ofStore store) events)
    (hrun : Transition.run (step cfg) (State.ofStore store) events =
      some final)
    (hidle : final.flight = .idle) {key : String} {chunk : CachedChunk}
    (hget : (final.store.get cfg key).1 = .ok (some chunk)) :
    exists given, Event.put key given ∈ events ∧ chunk.body = given.body := by
  let puts : Puts := fun key given => Event.put key given ∈ events
  have hmember : Transition.Along (step cfg) (fun _ e => e ∈ events)
      (State.ofStore store) events :=
    Transition.along_of_forall (fun _ he => he) (step cfg) _
  have hstart : Inv puts cfg (State.ofStore store) := by
    rcases openStore_ok hopen with ⟨_, rfl⟩
    apply inv_ofStore (bounded_scanned cfg _)
    intro slot _
    apply shows_of_free
    change slotHeader cfg.chunkSize (sizedTo cfg noFiles) slot = none
    rw [slotHeader_sizedTo, slotHeader_noFiles]
  have hinv : Inv puts cfg final := by
    refine Transition.run_preserves ?_ hstart
      (Transition.along_and hrecoverable hmember) hrun
    intro s e s' hs hguard hstep
    apply inv_step hs _ hguard.left hstep
    intro k given he
    change Event.put k given ∈ events
    rw [← he]
    exact hguard.right
  have hserved : StoredBy puts key chunk := by
    refine good_of_get ?_ ?_ hget
    · exact hinv.bounded
    · intro slot hslot
      apply hinv.quiet slot hslot
      rw [hidle]
      exact not_false
  rcases hserved with ⟨given, hput, hbody, _⟩
  exact ⟨given, hput, hbody⟩

/-!
## A crash under a reused slot

On a tier of one slot, the put of `b` evicts `a` and is cut off between its
sync and its header write.  The store opened after it finds the header of `a`
over the body of `b`.
-/

def syncedPut (cfg : StoreConfig) (s : State) (slot : Nat) (index : Index)
    (key : String) (chunk : CachedChunk) : State :=
  let dir := writeBody cfg.chunkSize s.dir slot chunk.body
  let extent := slot / slotsPerExtent
  { index := index,
    dir := dir,
    durable := update s.durable extent (dir extent),
    pending := s.pending.filter
      fun entry => entry.1 / slotsPerExtent ≠ extent,
    flight := .synced slot ((putHeader key chunk).filled blankPage) }

theorem run_syncedPut {index : Index} {key : String} {chunk : CachedChunk}
    (hidle : s.flight = .idle) (hlen : chunk.body.length ≤ cfg.chunkSize)
    (hlen32 : chunk.body.length < 2 ^ 32)
    (hclaim : s.index.claim key (putHeader key chunk) = some (slot, index))
    (hfits : (putHeader key chunk).Fits) :
    Transition.run (step cfg) s [.put key chunk, .writeBody, .sync] =
        some (syncedPut cfg s slot index key chunk) ∧
      Transition.Along (step cfg) (Recoverable cfg) s
        [.put key chunk, .writeBody, .sync] := by
  have hput : step cfg s (.put key chunk) =
      some { s with index := index, flight := .claimed slot key chunk } := by
    simp [step, hidle, Nat.not_lt.mpr hlen, hclaim]
  refine Transition.run_along_cons hlen32 hput ?_
  refine Transition.run_along_cons trivial
    (by simp only [step, SlotHeader.writeTo_of_fits hfits]; rfl) ?_
  exact Transition.run_along_cons trivial rfl
    ⟨Transition.run_nil _ _, trivial⟩

theorem get_reopened {left : Directory} {header : SlotHeader}
    (hheader : slotHeader 4096 left 0 = some header) :
    exists store, openStore (pageStore 1) left = .ok store ∧
      (store.get (pageStore 1) header.key).1 =
        .ok (some (shown 4096 left 0 header)) := by
  have hslot := zero_lt_slotCount_pageStore 1
  have hsized : slotHeader (pageStore 1).chunkSize
      (sizedTo (pageStore 1) left) 0 = some header := by
    rw [slotHeader_sizedTo]
    exact hheader
  have hscanned : scanned (pageStore 1) (sizedTo (pageStore 1) left) =
      Index.empty.occupy 0 header.key header.bodyLen header.bodyCrc := by
    rw [scanned, slotCount_pageStore Nat.one_pos, List.range_one,
      List.map_singleton, hsized]
    rfl
  refine ⟨_, openStore_of_aligned left (aligned_pageStore 1), ?_⟩
  rw [hscanned]
  have hmap : (Index.empty.occupy 0 header.key header.bodyLen
      header.bodyCrc).map header.key = some 0 := by
    rw [Index.map_occupy, update_self]
  rw [Store.get_fst_of_map hmap, fetch_of_shown
    (sized_sizedTo (pageStore 1) left) hslot rfl hsized]
  have hbody : bodyBytes (pageStore 1).chunkSize (sizedTo (pageStore 1) left)
      0 header.bodyLen.toNat = bodyBytes 4096 left 0 header.bodyLen.toNat :=
    bodyBytes_sizedTo left hslot (slotHeader_bodyLen_le hheader)
  rw [shown, hbody]
  rfl

def oneSlot : State :=
  State.ofStore { index := { Index.empty with free := [0] },
                  dir := sizedTo (pageStore 1) noFiles }

def syncedA : State :=
  syncedPut (pageStore 1) oneSlot 0
    (Index.empty.occupy 0 "a" 1 (bodyCrc [1])) "a" (single 1)

def storedA : State :=
  { syncedA with
    dir := writeHeader 4096 syncedA.dir 0
      ((putHeader "a" (single 1)).filled blankPage),
    pending := [(0, (putHeader "a" (single 1)).filled blankPage)],
    flight := .idle }

def storeA : List Event :=
  [.put "a" (single 1), .writeBody, .sync, .writeHeader]

theorem run_storedA :
    Transition.run (step (pageStore 1)) oneSlot storeA = some storedA ∧
      Transition.Along (step (pageStore 1)) (Recoverable (pageStore 1))
        oneSlot storeA := by
  have hfits := fits_a 1
  have hlen := length_single_le 1 1
  have hclaim : oneSlot.index.claim "a" (putHeader "a" (single 1)) =
      some (0, Index.empty.occupy 0 "a" 1 (bodyCrc [1])) := rfl
  have hheader : step (pageStore 1) syncedA .writeHeader = some storedA := rfl
  exact Transition.run_along_append
    (run_syncedPut rfl hlen (by decide) hclaim hfits)
    (Transition.run_along_cons trivial hheader
      ⟨Transition.run_nil _ _, trivial⟩)

theorem slotHeader_storedA :
    slotHeader (pageStore 1).chunkSize storedA.dir 0 =
      some (putHeader "a" (single 1)) :=
  slotHeader_a _ 0 1 1

def cutOff : State :=
  syncedPut (pageStore 1) storedA 0
    ((storedA.index.evict 0).2.occupy 0 "b" 1 (bodyCrc [2])) "b" (single 2)

def reuseCrash : List Event :=
  storeA ++ [.put "b" (single 2), .writeBody, .sync] ++
    [.crash (fun _ => true) (fun _ => true)]

theorem reuseCrash_serves_other_key :
    exists store final,
      openStore (pageStore 1) noFiles = .ok store ∧
        Transition.run (step (pageStore 1)) (State.ofStore store)
          reuseCrash = some final ∧
        final.flight = .idle ∧
        (final.store.get (pageStore 1) "a").1 = .ok (some (single 2)) ∧
        forall given, Event.put "a" given ∈ reuseCrash ->
          given.body ≠ (single 2).body := by
  have hfits := fits_b 2
  have hlen := length_single_le 2 1
  have hleft : survived (pageStore 1) cutOff (fun _ => true) (fun _ => true) =
      cutOff.durable := rfl
  have hheader : slotHeader 4096 cutOff.durable 0 =
      some (putHeader "a" (single 1)) := by
    have hpage : headerPage cutOff.durable 0 = headerPage storedA.dir 0 :=
      (headerPage_sync _ _ 0 0).trans (headerPage_writeBody 4096 _ 0 [2] 0)
    rw [slotHeader, hpage]
    exact slotHeader_storedA
  have hbody : bodyBytes 4096 cutOff.durable 0 1 = [2] :=
    (bodyBytes_sync 4096 _ _ 0 0 1).trans
      (bodyBytes_writeBody_same 4096 storedA.dir 0 [2])
  have hshown : shown 4096 cutOff.durable 0 (putHeader "a" (single 1)) =
      single 2 := by
    change CachedChunk.mk (bodyBytes 4096 cutOff.durable 0 1) none = single 2
    rw [hbody]
    rfl
  rcases get_reopened hheader with ⟨reopened, hopen, hget⟩
  have hclaim : storedA.index.claim "b" (putHeader "b" (single 2)) =
      some (0, cutOff.index) := rfl
  have hcut : Transition.run (step (pageStore 1)) storedA
      [.put "b" (single 2), .writeBody, .sync] = some cutOff :=
    (run_syncedPut rfl hlen (by decide) hclaim hfits).left
  refine ⟨_, State.ofStore reopened, openStore_oneSlot, ?_, rfl, ?_, ?_⟩
  · change Transition.run (step (pageStore 1)) oneSlot reuseCrash = _
    rw [reuseCrash, Transition.run_append, Transition.run_append,
      run_storedA.left, Option.bind_some, hcut, Option.bind_some]
    simp [Transition.run, step, hleft, hopen]
  · rw [hshown] at hget
    exact hget
  · intro given hmem
    simp [reuseCrash, storeA] at hmem
    rw [hmem]
    decide

theorem recovered_gets_serve_own_puts_single :
    exists given,
      Event.put "a" given ∈
        storeA ++ [.crash (fun _ => true) (fun _ => true)] ∧
      (single 1).body = given.body := by
  have hleft : survived (pageStore 1) storedA (fun _ => true) (fun _ => true) =
      writeHeader 4096 storedA.durable 0
        ((putHeader "a" (single 1)).filled blankPage) := rfl
  have hfits := fits_a 1
  have hheader : slotHeader (pageStore 1).chunkSize
      (survived (pageStore 1) storedA (fun _ => true) (fun _ => true)) 0 =
        some (putHeader "a" (single 1)) := by
    rw [hleft]
    exact slotHeader_a _ 0 1 1
  have hbody : bodyBytes 4096
      (survived (pageStore 1) storedA (fun _ => true) (fun _ => true)) 0 1 =
        [1] := by
    rw [hleft, bodyBytes_writeHeader 4096 _ 0
      (SlotHeader.length_filled hfits length_blankPage)]
    exact (bodyBytes_sync 4096 _ _ 0 0 1).trans
      (bodyBytes_writeBody_same 4096 _ 0 [1])
  have hshown : shown 4096
      (survived (pageStore 1) storedA (fun _ => true) (fun _ => true)) 0
      (putHeader "a" (single 1)) = single 1 := by
    change CachedChunk.mk (bodyBytes 4096 _ 0 1) none = single 1
    rw [hbody]
    rfl
  rcases get_reopened hheader with ⟨reopened, hopen, hget⟩
  rw [hshown] at hget
  have hcrash : step (pageStore 1) storedA
      (.crash (fun _ => true) (fun _ => true)) =
        some (State.ofStore reopened) := by
    simp [step, hopen]
  have hguard : Recoverable (pageStore 1) storedA
      (.crash (fun _ => true) (fun _ => true)) := by
    rintro slot (hrewrites | ⟨hlost, _⟩)
    · cases hrewrites
    · cases hlost
  have hend := Transition.run_along_append run_storedA
    (Transition.run_along_cons hguard hcrash
      ⟨Transition.run_nil _ _, trivial⟩)
  exact recovered_gets_serve_own_puts openStore_oneSlot hend.right hend.left
    rfl hget

end Crash

end Cache
end Pacer
