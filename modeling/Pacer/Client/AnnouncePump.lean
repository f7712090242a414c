import Mathlib.Algebra.Ring.Nat
import Mathlib.Data.List.Perm.Subperm
import Pacer.Foundation.ByteFile
import Pacer.Foundation.Transition

/-!
# The announce pump of a client

A writer can reach a client once the client has read the writer's announce, so
the client keeps a ring of receives posted and a thread that reaps them.  A turn
of that thread arms the queue, drains it, waits, and may drain it again.  A drain
first collects the completions of a batch, and only then hands each message on
and posts its slot again; a completion with a failure status ends the drain in
the middle of the collection.

The main result: over every run the ring stays full, and every message received
is handed on, just when no completion had a failure status.
-/

namespace Pacer
namespace Client

open Foundation

def headerBytes : Nat := 2
def entryBytes : Nat := 22
def maxAnnouncedRails : Nat := 64

def announceMaxBytes : Nat := headerBytes + maxAnnouncedRails * entryBytes

def maxConsecutiveErrors : Nat := 8

/-- A completed receive: the request it answers, its status, and what the sender
put on the wire. -/
structure Completion where
  wrId : Nat
  ok : Bool
  message : Bytes
deriving DecidableEq, Repr

/-- The pump and what it has to do with: the receives that are posted and not
reaped, the region of each slot, the messages handed on, and those received. -/
structure AnnouncePump where
  recvSlots : Nat
  posted : List Nat
  inbox : Nat -> Bytes
  installed : List Bytes
  received : List Bytes
  peakBurst : Nat
  errors : Nat
  healthy : Bool

namespace AnnouncePump

def postSlot (p : AnnouncePump) (slot : Nat) : AnnouncePump :=
  { p with posted := p.posted ++ [slot] }

def spawn (slots : Nat) (inbox : Nat -> Bytes) : AnnouncePump :=
  (List.range slots).foldl postSlot
    { recvSlots := slots, posted := [], inbox := inbox, installed := [],
      received := [], peakBurst := 0, errors := 0, healthy := true }

/-- A batch the device can give: each completion answers a posted receive, and
a message that was received fits its region. -/
def Gives (p : AnnouncePump) (batch : List Completion) : Prop :=
  (batch.map Completion.wrId).Subperm p.posted ∧
    forall c, c ∈ batch -> c.ok = true -> c.message.length ≤ announceMaxBytes

instance (p : AnnouncePump) (batch : List Completion) :
    Decidable (p.Gives batch) := by
  unfold Gives
  infer_instance

def arrive (p : AnnouncePump) (batch : List Completion) : AnnouncePump :=
  { p with
    inbox := fun slot =>
      match batch.find? fun c => c.wrId = slot with
      | none => p.inbox slot
      | some c =>
        (c.message ++ (p.inbox slot).drop c.message.length).take
          announceMaxBytes }

def reapOne (p : AnnouncePump) (c : Completion) : AnnouncePump :=
  { p with
    posted := p.posted.erase c.wrId,
    received := if c.ok then p.received ++ [c.message] else p.received }

/-- Collect the slots and lengths of a batch; `none` at a failure status, with
the rest of the batch still on the queue. -/
def reap : AnnouncePump -> List Completion -> List (Nat × Nat) ->
    AnnouncePump × Option (List (Nat × Nat))
  | p, [], reaped => (p, some reaped)
  | p, c :: rest, reaped =>
    if c.ok then
      (p.reapOne c).reap rest
        (reaped ++ [(c.wrId % p.recvSlots, c.message.length)])
    else (p.reapOne c, none)

def recordBurst (p : AnnouncePump) (reaped : Nat) : AnnouncePump :=
  { p with peakBurst := max p.peakBurst reaped }

def answer (p : AnnouncePump) (slotLen : Nat × Nat) : AnnouncePump :=
  postSlot
    { p with
      installed := p.installed ++
        [(p.inbox slotLen.1).take (min slotLen.2 announceMaxBytes)] }
    slotLen.1

/-- Reap every completion on the queue, and whether that went well.  `none` is a
batch the device cannot give. -/
def drain (p : AnnouncePump) (batch : List Completion) :
    Option (AnnouncePump × Bool) :=
  if p.Gives batch then
    if batch = [] then some (p, true)
    else
      match (p.arrive batch).reap batch [] with
      | (p', none) => some (p', false)
      | (p', some reaped) =>
        some (reaped.foldl answer (p'.recordBurst reaped.length), true)
  else none

inductive Wait where
  | failed
  | timeout
  | ready (batch : List Completion)
deriving DecidableEq, Repr

/-- What a turn meets: the queue cannot be armed, or a batch is on it, and then
the wait. -/
inductive Turn where
  | unarmed
  | armed (batch : List Completion) (wait : Wait)
deriving DecidableEq, Repr

def turn (p : AnnouncePump) : Turn -> Option (AnnouncePump × Bool)
  | .unarmed => some (p, false)
  | .armed batch wait =>
    match p.drain batch with
    | none => none
    | some (p', false) => some (p', false)
    | some (p', true) =>
      match wait with
      | .failed => some (p', false)
      | .timeout => some (p', true)
      | .ready more => p'.drain more

def step (p : AnnouncePump) (t : Turn) : Option AnnouncePump :=
  if p.healthy then
    match p.turn t with
    | none => none
    | some (p', true) => some { p' with errors := 0 }
    | some (p', false) =>
      some { p' with
        errors := p'.errors + 1,
        healthy := decide (p'.errors + 1 < maxConsecutiveErrors) }
  else none

def Turn.completions : Turn -> List Completion
  | .unarmed => []
  | .armed batch wait =>
    batch ++
      match wait with
      | .failed => []
      | .timeout => []
      | .ready more => more

def Turn.Clean (t : Turn) : Prop :=
  forall c, c ∈ t.completions -> c.ok = true

/-- The ring is full, each slot posted once, and every message received was
handed on. -/
def Full (p : AnnouncePump) : Prop :=
  p.posted.Perm (List.range p.recvSlots) ∧ p.installed = p.received

/-!
## Collecting a batch
-/

variable {went : Bool}

section Batch

variable {p p' : AnnouncePump} {batch : List Completion}

theorem reap_of_ok (h : forall c, c ∈ batch -> c.ok = true)
    (reaped : List (Nat × Nat)) :
    p.reap batch reaped =
      ({ p with
          posted := p.posted.diff (batch.map Completion.wrId),
          received := p.received ++ batch.map Completion.message },
        some (reaped ++ batch.map fun c =>
          (c.wrId % p.recvSlots, c.message.length))) := by
  induction batch generalizing p reaped with
  | nil => simp [reap]
  | cons c rest ih =>
    have hok := h c List.mem_cons_self
    rw [reap, if_pos hok, ih fun other hother =>
      h other (List.mem_cons_of_mem c hother)]
    unfold reapOne
    rw [if_pos hok]
    simp

theorem reap_of_failed (h : ¬ forall c, c ∈ batch -> c.ok = true)
    (hposted : (batch.map Completion.wrId).Subperm p.posted)
    (reaped : List (Nat × Nat)) :
    (p.reap batch reaped).2 = none ∧
      (p.reap batch reaped).1.posted.length < p.posted.length ∧
      (p.reap batch reaped).1.recvSlots = p.recvSlots := by
  induction batch generalizing p reaped with
  | nil => exact absurd nofun h
  | cons c rest ih =>
    have hmem : c.wrId ∈ p.posted := hposted.subset List.mem_cons_self
    have herase := List.length_erase_of_mem hmem
    have hpos := List.length_pos_of_mem hmem
    unfold reap
    by_cases hok : c.ok = true
    · rw [if_pos hok]
      have hrest : ¬ forall other, other ∈ rest -> other.ok = true := by
        intro hall
        apply h
        intro other hother
        rcases List.mem_cons.mp hother with heq | hother
        · rw [heq]
          exact hok
        · exact hall other hother
      have hposted' : (rest.map Completion.wrId).Subperm
          (p.reapOne c).posted := by
        have hless := hposted.erase c.wrId
        rw [List.map_cons, List.erase_cons_head] at hless
        exact hless
      rcases ih hrest hposted' _ with ⟨hnone, hlength, hslots⟩
      refine ⟨hnone, Nat.lt_of_lt_of_le hlength ?_, hslots⟩
      exact List.length_erase_le
    · rw [if_neg hok]
      refine ⟨rfl, ?_, rfl⟩
      show (p.posted.erase c.wrId).length < p.posted.length
      lia

theorem foldl_answer (p : AnnouncePump) (reaped : List (Nat × Nat)) :
    reaped.foldl answer p =
      { p with
        posted := p.posted ++ reaped.map Prod.fst,
        installed := p.installed ++ reaped.map fun slotLen =>
          (p.inbox slotLen.1).take (min slotLen.2 announceMaxBytes) } := by
  induction reaped generalizing p with
  | nil => simp
  | cons first rest ih =>
    rw [List.foldl_cons, ih]
    simp [answer, postSlot]

/-!
## A drain
-/

theorem drain_cases (h : p.drain batch = some (p', went)) :
    p.Gives batch ∧
      ((went = true ∧ (forall c, c ∈ batch -> c.ok = true) ∧
          p'.recvSlots = p.recvSlots ∧
          p'.posted = p.posted.diff (batch.map Completion.wrId) ++
            batch.map (fun c => c.wrId % p.recvSlots) ∧
          p'.received = p.received ++ batch.map Completion.message ∧
          p'.installed = p.installed ++ batch.map fun c =>
            ((p.arrive batch).inbox (c.wrId % p.recvSlots)).take
              (min c.message.length announceMaxBytes)) ∨
        (went = false ∧ (¬ forall c, c ∈ batch -> c.ok = true) ∧
          p'.recvSlots = p.recvSlots ∧
          p'.posted.length < p.posted.length)) := by
  unfold drain at h
  split at h
  · rename_i hgives
    refine ⟨hgives, ?_⟩
    by_cases hok : forall c, c ∈ batch -> c.ok = true
    · left
      split at h
      · rename_i hempty
        cases h
        rw [hempty]
        simp
      · rw [reap_of_ok hok] at h
        cases h
        rw [foldl_answer]
        refine ⟨rfl, hok, rfl, ?_, rfl, ?_⟩
        · simp [recordBurst, arrive]
        · simp [recordBurst]
          rfl
    · right
      have hne : batch ≠ [] := by
        intro hempty
        rw [hempty] at hok
        exact hok nofun
      rw [if_neg hne] at h
      have hposted : (batch.map Completion.wrId).Subperm
          (p.arrive batch).posted := hgives.left
      rcases reap_of_failed hok hposted [] with ⟨hnone, hlength, hslots⟩
      cases hreap : (p.arrive batch).reap batch [] with
      | mk p'' out =>
        rw [hreap] at h hnone hlength hslots
        dsimp only at hnone
        rw [hnone] at h
        cases h
        exact ⟨rfl, hok, hslots, hlength⟩
  · cases h

theorem perm_diff {ids posted : List Nat} (h : ids.Subperm posted) :
    (posted.diff ids ++ ids).Perm posted := by
  apply List.perm_append_comm.trans
  exact List.subperm_append_diff_self_of_count_le (List.subperm_ext_iff.mp h)

theorem length_drain (h : p.drain batch = some (p', went)) :
    p'.recvSlots = p.recvSlots ∧ p'.posted.length ≤ p.posted.length ∧
      ((¬ forall c, c ∈ batch -> c.ok = true) ->
        p'.posted.length < p.posted.length) := by
  rcases drain_cases h with ⟨hgives, ⟨_, hok, hslots, hposted, _, _⟩ |
    ⟨_, _, hslots, hlength⟩⟩
  · have hsame := (perm_diff hgives.left).length_eq
    rw [List.length_append, List.length_map] at hsame
    rw [hposted, List.length_append, List.length_map]
    exact ⟨hslots, Nat.le_of_eq hsame, fun hfailed => absurd hok hfailed⟩
  · exact ⟨hslots, Nat.le_of_lt hlength, fun _ => hlength⟩

theorem find?_of_nodup {c : Completion}
    (hnodup : (batch.map Completion.wrId).Nodup) (hc : c ∈ batch) :
    (batch.find? fun other => other.wrId = c.wrId) = some c := by
  induction batch with
  | nil => cases hc
  | cons first rest ih =>
    rw [List.map_cons, List.nodup_cons] at hnodup
    rcases List.mem_cons.mp hc with heq | hrest
    · rw [heq]
      simp
    · have hne : first.wrId ≠ c.wrId := by
        intro heq
        apply hnodup.left
        rw [heq]
        exact List.mem_map_of_mem hrest
      rw [List.find?_cons_of_neg (by simpa using hne)]
      exact ih hnodup.right hrest

theorem take_inbox_arrive {c : Completion}
    (hnodup : (batch.map Completion.wrId).Nodup) (hc : c ∈ batch)
    (hlen : c.message.length ≤ announceMaxBytes) :
    ((p.arrive batch).inbox c.wrId).take
      (min c.message.length announceMaxBytes) = c.message := by
  unfold arrive
  dsimp only
  rw [find?_of_nodup hnodup hc, Nat.min_eq_left hlen]
  dsimp only
  rw [List.take_take, Nat.min_eq_left hlen, List.take_left]

theorem full_drain (hfull : p.Full) (hok : forall c, c ∈ batch -> c.ok = true)
    (h : p.drain batch = some (p', went)) : p'.Full := by
  rcases drain_cases h with ⟨hgives, ⟨_, _, hslots, hposted, hreceived,
    hinstalled⟩ | ⟨_, hfailed, _⟩⟩
  · have hid : forall c, c ∈ batch -> c.wrId % p.recvSlots = c.wrId := by
      intro c hc
      apply Nat.mod_eq_of_lt
      have hmem := hgives.left.subset (List.mem_map_of_mem hc)
      exact List.mem_range.mp (hfull.left.mem_iff.mp hmem)
    have hnodup : (batch.map Completion.wrId).Nodup := by
      rcases hgives.left with ⟨ids, hperm, hsublist⟩
      have hposted' := hfull.left.nodup_iff.mpr List.nodup_range
      exact hperm.nodup_iff.mp (hsublist.nodup hposted')
    constructor
    · have hids : batch.map (fun c => c.wrId % p.recvSlots) =
          batch.map Completion.wrId := List.map_congr_left hid
      rw [hposted, hids, hslots]
      exact (perm_diff hgives.left).trans hfull.left
    · have hmessages : (batch.map fun c =>
          ((p.arrive batch).inbox (c.wrId % p.recvSlots)).take
            (min c.message.length announceMaxBytes)) =
          batch.map Completion.message := by
        apply List.map_congr_left
        intro c hc
        rw [hid c hc]
        exact take_inbox_arrive hnodup hc (hgives.right c hc (hok c hc))
      rw [hinstalled, hreceived, hmessages, hfull.right]
  · exact absurd hok hfailed

end Batch

/-!
## Turns
-/

section Turns

variable {p p' : AnnouncePump} {t : Turn}

theorem turn_cases (h : p.turn t = some (p', went)) :
    (t = .unarmed ∧ p' = p) ∨
      (exists batch wait first, t = .armed batch wait ∧
        p.drain batch = some (p', first) ∧
        (first = false ∨ wait = .failed ∨ wait = .timeout)) ∨
      exists batch more mid, t = .armed batch (.ready more) ∧
        p.drain batch = some (mid, true) ∧ mid.drain more = some (p', went) := by
  cases t with
  | unarmed =>
    cases h
    exact Or.inl ⟨rfl, rfl⟩
  | armed batch wait =>
    right
    cases hdrain : p.drain batch with
    | none =>
      rw [turn, hdrain] at h
      cases h
    | some drained =>
      rcases drained with ⟨mid, first⟩
      rw [turn, hdrain] at h
      cases first with
      | false =>
        cases h
        exact Or.inl ⟨batch, wait, false, rfl, hdrain, Or.inl rfl⟩
      | true =>
        cases wait with
        | failed =>
          cases h
          exact Or.inl ⟨batch, .failed, true, rfl, hdrain,
            Or.inr (Or.inl rfl)⟩
        | timeout =>
          cases h
          exact Or.inl ⟨batch, .timeout, true, rfl, hdrain,
            Or.inr (Or.inr rfl)⟩
        | ready more => exact Or.inr ⟨batch, more, mid, rfl, hdrain, h⟩

theorem length_turn (h : p.turn t = some (p', went)) :
    p'.recvSlots = p.recvSlots ∧ p'.posted.length ≤ p.posted.length ∧
      (¬ t.Clean -> p'.posted.length < p.posted.length) := by
  rcases turn_cases h with ⟨ht, hp⟩ | ⟨batch, wait, first, ht, hdrain, hwait⟩ |
    ⟨batch, more, mid, ht, hfirst, hsecond⟩
  · rw [ht, hp]
    exact ⟨rfl, Nat.le_refl _, fun hunclean => absurd nofun hunclean⟩
  · rcases length_drain hdrain with ⟨hslots, hle, hlt⟩
    refine ⟨hslots, hle, fun hunclean => hlt ?_⟩
    intro hok
    apply hunclean
    rw [ht]
    rcases hwait with hfirst | hwait | hwait
    · rcases drain_cases hdrain with ⟨_, ⟨hwent, _⟩ | ⟨_, hfailed, _⟩⟩
      · rw [hfirst] at hwent
        cases hwent
      · exact absurd hok hfailed
    · rw [hwait]
      simpa [Turn.Clean, Turn.completions] using hok
    · rw [hwait]
      simpa [Turn.Clean, Turn.completions] using hok
  · rcases length_drain hfirst with ⟨hslots, hle, hlt⟩
    rcases length_drain hsecond with ⟨hslots', hle', hlt'⟩
    refine ⟨hslots'.trans hslots, Nat.le_trans hle' hle, ?_⟩
    intro hunclean
    by_cases hok : forall c, c ∈ batch -> c.ok = true
    · have hmore : ¬ forall c, c ∈ more -> c.ok = true := by
        intro hmore
        apply hunclean
        rw [ht]
        intro c hc
        rcases List.mem_append.mp hc with hc | hc
        · exact hok c hc
        · exact hmore c hc
      exact Nat.lt_of_lt_of_le (hlt' hmore) hle
    · exact Nat.lt_of_le_of_lt hle' (hlt hok)

theorem full_turn (hfull : p.Full) (hclean : t.Clean)
    (h : p.turn t = some (p', went)) : p'.Full := by
  rcases turn_cases h with ⟨_, hp⟩ | ⟨batch, wait, first, ht, hdrain, _⟩ |
    ⟨batch, more, mid, ht, hfirst, hsecond⟩
  · rw [hp]
    exact hfull
  · rw [ht] at hclean
    exact full_drain hfull (fun c hc => hclean c (List.mem_append_left _ hc))
      hdrain
  · rw [ht] at hclean
    have hmid := full_drain hfull
      (fun c hc => hclean c (List.mem_append_left _ hc)) hfirst
    exact full_drain hmid (fun c hc => hclean c (List.mem_append_right _ hc))
      hsecond

theorem step_cases (h : p.step t = some p') :
    exists q went, p.turn t = some (q, went) ∧ p'.recvSlots = q.recvSlots ∧
      p'.posted = q.posted ∧ p'.installed = q.installed ∧
      p'.received = q.received := by
  unfold step at h
  split at h
  · split at h
    · cases h
    · rename_i q hturn
      cases h
      exact ⟨q, true, hturn, rfl, rfl, rfl, rfl⟩
    · rename_i q hturn
      cases h
      exact ⟨q, false, hturn, rfl, rfl, rfl, rfl⟩
  · cases h

theorem full_step (hfull : p.Full) (hclean : t.Clean) (h : p.step t = some p') :
    p'.Full := by
  rcases step_cases h with
    ⟨q, went, hturn, hslots, hposted, hinstalled, hreceived⟩
  have hq := full_turn hfull hclean hturn
  unfold Full
  rw [hslots, hposted, hinstalled, hreceived]
  exact hq

theorem length_step (h : p.step t = some p') :
    p'.recvSlots = p.recvSlots ∧ p'.posted.length ≤ p.posted.length ∧
      (¬ t.Clean -> p'.posted.length < p.posted.length) := by
  rcases step_cases h with ⟨q, went, hturn, hslots, hposted, _, _⟩
  rw [hslots, hposted]
  exact length_turn hturn

end Turns

/-!
## Runs
-/

theorem foldl_postSlot (p : AnnouncePump) (slots : List Nat) :
    slots.foldl postSlot p = { p with posted := p.posted ++ slots } := by
  induction slots generalizing p with
  | nil => simp
  | cons slot rest ih =>
    rw [List.foldl_cons, ih]
    simp [postSlot]

theorem full_spawn (slots : Nat) (inbox : Nat -> Bytes) :
    (spawn slots inbox).Full := by
  unfold spawn
  rw [foldl_postSlot]
  exact ⟨List.Perm.refl _, rfl⟩

theorem short_run {p q : AnnouncePump} {turns : List Turn}
    (hle : p.posted.length ≤ p.recvSlots)
    (hunclean : ¬ forall t, t ∈ turns -> t.Clean)
    (hrun : Transition.run step p turns = some q) :
    q.posted.length < q.recvSlots := by
  induction turns generalizing p with
  | nil => exact absurd nofun hunclean
  | cons t rest ih =>
    rcases Transition.run_cons_some hrun with ⟨p', hstep, hrest⟩
    rcases length_step hstep with ⟨hslots, hless, hlost⟩
    by_cases hclean : t.Clean
    · apply ih _ _ hrest
      · lia
      · intro hall
        apply hunclean
        intro other hother
        rcases List.mem_cons.mp hother with heq | hother
        · rw [heq]
          exact hclean
        · exact hall other hother
    · have hshort : p'.posted.length < p'.recvSlots := by
        have hlt := hlost hclean
        lia
      have hkeeps : forall (s : AnnouncePump) e s', s.posted.length < s.recvSlots ->
          step s e = some s' -> s'.posted.length < s'.recvSlots := by
        intro s e s' hs hs'
        rcases length_step hs' with ⟨hslots', hless', _⟩
        lia
      exact Transition.run_invariant hkeeps hshort hrest

/-- In every state a run reaches, the ring is full and every message received
was handed on just when no completion so far had a failure status. -/
theorem ring_full_iff_clean (slots : Nat) (inbox : Nat -> Bytes)
    (turns : List Turn) (p : AnnouncePump)
    (hrun : Transition.run step (spawn slots inbox) turns = some p) :
    p.Full <-> forall t, t ∈ turns -> t.Clean := by
  have hspawn := full_spawn slots inbox
  constructor
  · intro hfull
    apply Classical.byContradiction
    intro hunclean
    have hle := Nat.le_of_eq hspawn.left.length_eq
    rw [List.length_range] at hle
    have hshort := short_run hle hunclean hrun
    have hall := hfull.left.length_eq
    rw [List.length_range] at hall
    lia
  · intro hclean
    exact Transition.run_preserves
      (fun s e s' hs he hs' => full_step hs he hs') hspawn
      (Transition.along_of_forall hclean step _) hrun

def twoTurns : List Turn :=
  [.armed [⟨1, true, [7]⟩, ⟨0, true, [8, 9]⟩] .timeout,
    .armed [] (.ready [⟨1, true, [5]⟩])]

theorem ring_full_two :
    exists p, Transition.run step (spawn 2 fun _ => []) twoTurns = some p ∧
      p.installed = [[7], [8, 9], [5]] ∧ p.Full := by
  cases hrun : Transition.run step (spawn 2 fun _ => []) twoTurns with
  | none =>
    have hsome : (Transition.run step (spawn 2 fun _ => [])
        twoTurns).isSome = true := by
      decide +kernel
    rw [hrun] at hsome
    cases hsome
  | some p =>
    have hinstalled : (Transition.run step (spawn 2 fun _ => [])
        twoTurns).map installed = some [[7], [8, 9], [5]] := by
      decide +kernel
    rw [hrun] at hinstalled
    refine ⟨p, rfl, Option.some.inj hinstalled, ?_⟩
    apply (ring_full_iff_clean 2 _ twoTurns p hrun).mpr
    unfold Turn.Clean
    decide +kernel

def failedTurns : List Turn :=
  [.armed [⟨0, true, [7]⟩, ⟨1, false, []⟩] .timeout, .armed [] .timeout]

/-- The first turn fails, the pump goes on, and its next turn is good, with no
receive posted and the message that came with the good completion lost. -/
theorem failed_completion_empties_ring :
    (Transition.run step (spawn 2 fun _ => []) failedTurns).map
        (fun p => (p.healthy, p.errors, p.recvSlots, p.posted)) =
      some (true, 0, 2, []) ∧
    (Transition.run step (spawn 2 fun _ => []) failedTurns).map
        (fun p => (p.received, p.installed)) =
      some ([[7]], []) := by
  decide +kernel

end AnnouncePump

end Client
end Pacer
