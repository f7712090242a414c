import Mathlib.Algebra.Ring.Nat
import Mathlib.Data.List.Pairwise
import Pacer.Foundation.Buffer
import Pacer.Foundation.Text
import Pacer.Foundation.Transition

/-!
# The admission gate

A requester keeps a copy of a peer-owned chunk once it has fetched it often
enough within a window and the window's byte budget allows it.  Every admission
gets a generation, one past the last.  The gate reserves generations in blocks:
before it vends one past the reservation it replaces the mark in a file by the
end of the next block, and a gate that is built again resumes at the mark.

The second half is the history of a generation file: processes that build a
gate, serve calls and are killed between any two file operations.  The main
result is that the generations vended over such a history increase as long as
the 64-bit counter does not wrap.
-/

namespace Pacer
namespace Cache

open Foundation
open Foundation.Buffer

namespace Admission

def u64Max : Nat := 2 ^ 64 - 1

def saturatingAdd (a b : Nat) : Nat := min (a + b) u64Max

/-!
## The frequency sketch
-/

def sketchDepth : Nat := 4

def sketchWidth : Nat := 2048

def rowSeeds : List Nat :=
  [0x9e3779b97f4a7c15, 0xc2b2ae3d27d4eb4f, 0x165667b19e3779f9,
    0xff51afd7ed558ccd]

def counterMax : Nat := 2 ^ 16 - 1

abbrev CountMinSketch := Nat -> Nat -> Nat

/-- A gate's configuration.  `hash` is the standard hash of a seed and a
key. -/
structure Config where
  threshold : Nat
  window : Nat
  byteBudget : Nat
  hash : Nat -> String -> Nat

def col (cfg : Config) (row : Nat) (key : String) : Nat :=
  cfg.hash (rowSeeds.getD row 0) key % sketchWidth

namespace CountMinSketch

def zero : CountMinSketch := fun _ _ => 0

def bump (cfg : Config) (key : String) (acc : CountMinSketch × Nat)
    (row : Nat) : CountMinSketch × Nat :=
  let c := col cfg row key
  let value := min (acc.1 row c + 1) counterMax
  (Function.update acc.1 row (Function.update (acc.1 row) c value),
    min acc.2 value)

def increment (cfg : Config) (sketch : CountMinSketch) (key : String) :
    CountMinSketch × Nat :=
  (List.range sketchDepth).foldl (bump cfg key) (sketch, counterMax)

end CountMinSketch

/-!
## The gate
-/

def generationReserveBlock : Nat := 1024

def reannounceTrackedKeys : Nat := 4096

/-- The keys a gate remembers, the oldest first, each with the generation it
was last admitted at. -/
structure AdmittedKeys where
  order : List String
  gens : String -> Option Nat

def AdmittedKeys.new : AdmittedKeys := { order := [], gens := fun _ => none }

def AdmittedKeys.insert (keys : AdmittedKeys) (key : String)
    (generation : Nat) : AdmittedKeys :=
  if (keys.gens key).isSome then
    { keys with gens := Function.update keys.gens key (some generation) }
  else
    let keys :=
      if reannounceTrackedKeys ≤ keys.order.length then
        match keys.order with
        | [] => keys
        | oldest :: rest =>
          { order := rest, gens := Function.update keys.gens oldest none }
      else keys
    { order := keys.order ++ [key],
      gens := Function.update keys.gens key (some generation) }

structure Gate where
  sketch : CountMinSketch
  windowStart : Nat
  admittedBytes : Nat
  nextGeneration : Nat
  reservedThrough : Nat
  admitted : AdmittedKeys

namespace Gate

def new (now : Nat) : Gate :=
  { sketch := CountMinSketch.zero,
    windowStart := now,
    admittedBytes := 0,
    nextGeneration := 0,
    reservedThrough := 0,
    admitted := AdmittedKeys.new }

def withMark (gate : Gate) (hwm : Nat) : Gate :=
  { gate with nextGeneration := hwm, reservedThrough := hwm }

/-- The next generation, the mark to persist before it is vended, if the
reservation is used up, and the gate afterwards.  The counter wraps. -/
def vend (gate : Gate) : Nat × Option Nat × Gate :=
  let generation := (gate.nextGeneration + 1) % 2 ^ 64
  let gate := { gate with nextGeneration := generation }
  if generation > gate.reservedThrough then
    let mark := saturatingAdd generation (generationReserveBlock - 1)
    (generation, some mark, { gate with reservedThrough := mark })
  else (generation, none, gate)

def rollOver (cfg : Config) (gate : Gate) (now : Nat) : Gate :=
  if cfg.window ≤ now - gate.windowStart then
    { gate with
      sketch := CountMinSketch.zero, admittedBytes := 0, windowStart := now }
  else gate

/-- Count a fetch of a chunk, and decide whether to keep a copy: the generation
vended and the mark to persist first. -/
def admitAt (cfg : Config) (gate : Gate) (key : String) (len now : Nat) :
    Option (Nat × Option Nat) × Gate :=
  let gate := gate.rollOver cfg now
  let counted := CountMinSketch.increment cfg gate.sketch key
  let gate := { gate with sketch := counted.1 }
  if counted.2 < cfg.threshold then (none, gate)
  else if saturatingAdd gate.admittedBytes len > cfg.byteBudget then
    (none, gate)
  else
    let gate := { gate with admittedBytes := gate.admittedBytes + len }
    match gate.vend with
    | (generation, mark, gate) =>
      (some (generation, mark),
        { gate with admitted := gate.admitted.insert key generation })

end Gate

/-!
## The file
-/

variable {generation mark hwm : Nat}

namespace GenerationStore

def load (file : Option Bytes) : Nat :=
  ((file.bind fromUtf8?).bind fun text =>
    Radix.parseUnsigned 10 (2 ^ 64) (Radix.trim text.toList)).getD 0

def text (hwm : Nat) : Bytes := utf8 (toString hwm)

theorem load_lt (file : Option Bytes) : load file < 2 ^ 64 := by
  unfold load
  cases hparse : (file.bind fromUtf8?).bind fun text =>
      Radix.parseUnsigned 10 (2 ^ 64) (Radix.trim text.toList) with
  | none => decide
  | some hwm =>
    rcases Option.bind_eq_some_iff.mp hparse with ⟨text, _, hread⟩
    unfold Radix.parseUnsigned at hread
    dsimp only at hread
    split at hread
    · cases hread
    · exact of_decide_eq_true (Option.filter_eq_some_iff.mp hread).2

theorem load_text (h : hwm < 2 ^ 64) :
    load (some (text hwm)) = hwm := by
  have hlist : (toString hwm).toList = Nat.toDigits 10 hwm := by
    simp [ToString.toString, Nat.repr]
  have hvalue := Text.value?_of_digits
    (fun c (hc : c ∈ Nat.toDigits 10 hwm) => Text.toNat_of_mem_toDigits hc) 0
  unfold load text
  rw [Option.bind_some, fromUtf8?_utf8, Option.bind_some, hlist,
    Radix.trim_of_value? hvalue, Text.parseUnsigned_toDigits h]
  rfl

end GenerationStore

/-!
## Histories
-/

/-- Where a call is.  A persist creates the sibling file, writes it in one or
several writes, syncs it and renames it; then the generation is vended. -/
inductive Phase where
  | idle
  | create (generation mark : Nat)
  | write (generation mark : Nat) (left : Bytes)
  | sync (generation mark : Nat)
  | rename (generation mark : Nat)
  | vend (generation : Nat)

structure Process where
  cfg : Config
  gate : Gate
  phase : Phase

/-- The mark file, its sibling, the process that is up, if any, and the
generations vended since the beginning. -/
structure State where
  file : Option Bytes
  tmp : Option Bytes
  process : Option Process
  vended : List Nat

namespace State

def initial (file tmp : Option Bytes) : State :=
  { file := file, tmp := tmp, process := none, vended := [] }

def setProcess (s : State) (p : Process) : State :=
  { s with process := some p }

def moveTo (s : State) (p : Process) (phase : Phase) : State :=
  s.setProcess { p with phase := phase }

end State

inductive Event where
  /-- A process builds a gate over the file. -/
  | start (cfg : Config) (now : Nat)
  | call (key : String) (len now : Nat)
  | create
  /-- Up to `n` more bytes of the sibling file are written. -/
  | write (n : Nat)
  | sync
  | rename
  | vend
  | kill

namespace Process

def build (cfg : Config) (now : Nat) (file : Option Bytes) : Process :=
  { cfg := cfg,
    gate := (Gate.new now).withMark (GenerationStore.load file),
    phase := .idle }

def call (p : Process) (key : String) (len now : Nat) : Process :=
  match p.gate.admitAt p.cfg key len now with
  | (none, gate) => { p with gate := gate }
  | (some (generation, none), gate) =>
    { p with gate := gate, phase := .vend generation }
  | (some (generation, some mark), gate) =>
    { p with gate := gate, phase := .create generation mark }

end Process

def State.advance (s : State) (p : Process) : Event -> Option State
  | .start _ _ => none
  | .kill => none
  | .call key len now =>
    match p.phase with
    | .idle => some (s.setProcess (p.call key len now))
    | _ => none
  | .create =>
    match p.phase with
    | .create generation mark =>
      let s := { s with tmp := some [] }
      some (s.moveTo p
        (.write generation mark (GenerationStore.text mark)))
    | _ => none
  | .write n =>
    match p.phase with
    | .write generation mark left =>
      let s := { s with tmp := s.tmp.map (· ++ left.take n) }
      if left.drop n = [] then some (s.moveTo p (.sync generation mark))
      else some (s.moveTo p (.write generation mark (left.drop n)))
    | _ => none
  | .sync =>
    match p.phase with
    | .sync generation mark => some (s.moveTo p (.rename generation mark))
    | _ => none
  | .rename =>
    match p.phase with
    | .rename generation _ =>
      let s := { s with file := s.tmp, tmp := none }
      some (s.moveTo p (.vend generation))
    | _ => none
  | .vend =>
    match p.phase with
    | .vend generation =>
      let s := { s with vended := s.vended ++ [generation] }
      some (s.moveTo p .idle)
    | _ => none

def step (s : State) (e : Event) : Option State :=
  match s.process, e with
  | none, .start cfg now => some (s.setProcess (.build cfg now s.file))
  | _, .kill => some { s with process := none }
  | none, _ => none
  | some p, e => s.advance p e

/-- A call that vends a generation finds the counter below its last value. -/
def Unwrapped (s : State) (e : Event) : Prop :=
  match e with
  | .call key len now =>
    forall p, s.process = some p ->
      (p.gate.admitAt p.cfg key len now).1.isSome ->
      p.gate.nextGeneration + 1 < 2 ^ 64
  | _ => True

/-!
## What a call does to the counters
-/

theorem u64Max_lt : u64Max < 2 ^ 64 := by decide

namespace Gate

variable {gate : Gate}

theorem vend_spec (hrange : gate.nextGeneration + 1 < 2 ^ 64) :
    gate.vend.1 = gate.nextGeneration + 1 ∧
      gate.vend.2.2.nextGeneration = gate.vend.1 ∧
      ((gate.vend.2.1 = none ∧
          gate.vend.2.2.reservedThrough = gate.reservedThrough ∧
          gate.vend.1 ≤ gate.reservedThrough) ∨
        (gate.vend.2.1 = some gate.vend.2.2.reservedThrough ∧
          gate.vend.1 ≤ gate.vend.2.2.reservedThrough ∧
          gate.vend.2.2.reservedThrough < 2 ^ 64)) := by
  unfold vend
  rw [Nat.mod_eq_of_lt hrange]
  dsimp only
  split
  · refine ⟨rfl, rfl, Or.inr ⟨rfl, ?_, ?_⟩⟩
    · have hmax : u64Max = 2 ^ 64 - 1 := rfl
      unfold saturatingAdd
      lia
    · have hmax := u64Max_lt
      unfold saturatingAdd
      lia
  · rename_i hle
    exact ⟨rfl, rfl, Or.inl ⟨rfl, rfl, Nat.not_lt.mp hle⟩⟩

theorem counters_rollOver (cfg : Config) (gate : Gate) (now : Nat) :
    (gate.rollOver cfg now).nextGeneration = gate.nextGeneration ∧
      (gate.rollOver cfg now).reservedThrough = gate.reservedThrough := by
  unfold rollOver
  split
  · exact ⟨rfl, rfl⟩
  · exact ⟨rfl, rfl⟩

theorem admitAt_none {cfg : Config} {key : String} {len now : Nat}
    {after : Gate} (h : gate.admitAt cfg key len now = (none, after)) :
    after.nextGeneration = gate.nextGeneration ∧
      after.reservedThrough = gate.reservedThrough := by
  have hcounters := counters_rollOver cfg gate now
  unfold admitAt at h
  dsimp only at h
  split at h
  · cases h
    exact hcounters
  · split at h
    · cases h
      exact hcounters
    · cases h

theorem admitAt_some {cfg : Config} {key : String} {len now : Nat}
    {generation : Nat} {mark : Option Nat} {after : Gate}
    (hrange : gate.nextGeneration + 1 < 2 ^ 64)
    (h : gate.admitAt cfg key len now = (some (generation, mark), after)) :
    generation = gate.nextGeneration + 1 ∧
      after.nextGeneration = generation ∧
      ((mark = none ∧ after.reservedThrough = gate.reservedThrough ∧
          generation ≤ gate.reservedThrough) ∨
        (mark = some after.reservedThrough ∧
          generation ≤ after.reservedThrough ∧
          after.reservedThrough < 2 ^ 64)) := by
  rcases counters_rollOver cfg gate now with ⟨hnext, hreserved⟩
  rw [← hnext] at hrange
  unfold admitAt at h
  dsimp only at h
  split at h
  · cases h
  split at h
  · cases h
  cases h
  rw [← hnext, ← hreserved]
  exact vend_spec hrange

end Gate

/-!
## What holds in every state
-/

/-- What is in the files and in a gate while a process is at `phase`, having
vended nothing past its counter. -/
def Consistent (file tmp : Option Bytes) (vended : List Nat) (gate : Gate) :
    Phase -> Prop
  | .idle =>
    gate.reservedThrough = GenerationStore.load file ∧
      forall g, g ∈ vended -> g ≤ gate.nextGeneration
  | .vend generation =>
    generation = gate.nextGeneration ∧
      gate.reservedThrough = GenerationStore.load file ∧
      forall g, g ∈ vended -> g < generation
  | .create generation mark =>
    generation = gate.nextGeneration ∧ mark = gate.reservedThrough ∧
      forall g, g ∈ vended -> g < generation
  | .write generation mark left =>
    generation = gate.nextGeneration ∧ mark = gate.reservedThrough ∧
      (forall g, g ∈ vended -> g < generation) ∧
      exists written, tmp = some written ∧
        written ++ left = GenerationStore.text mark
  | .sync generation mark =>
    generation = gate.nextGeneration ∧ mark = gate.reservedThrough ∧
      (forall g, g ∈ vended -> g < generation) ∧
      tmp = some (GenerationStore.text mark)
  | .rename generation mark =>
    generation = gate.nextGeneration ∧ mark = gate.reservedThrough ∧
      (forall g, g ∈ vended -> g < generation) ∧
      tmp = some (GenerationStore.text mark)

structure Running (s : State) (p : Process) : Prop where
  within : p.gate.nextGeneration ≤ p.gate.reservedThrough
  reserved_lt : p.gate.reservedThrough < 2 ^ 64
  consistent : Consistent s.file s.tmp s.vended p.gate p.phase

/-- The generations vended so far increase, and the mark in the file is past
all of them. -/
structure Sound (s : State) : Prop where
  increasing : s.vended.Pairwise (· < ·)
  covered : forall g, g ∈ s.vended -> g ≤ GenerationStore.load s.file
  running : forall p, s.process = some p -> Running s p

namespace Sound

variable {s : State} {p : Process}

theorem setProcess (hincreasing : s.vended.Pairwise (· < ·))
    (hcovered : forall g, g ∈ s.vended -> g ≤ GenerationStore.load s.file)
    (hrunning : Running s p) : Sound (s.setProcess p) := by
  refine ⟨hincreasing, hcovered, ?_⟩
  rintro q ⟨⟩
  exact ⟨hrunning.within, hrunning.reserved_lt, hrunning.consistent⟩

section

variable (h : Sound s)

include h

theorem start (cfg : Config) (now : Nat) :
    Sound (s.setProcess (.build cfg now s.file)) := by
  apply setProcess h.increasing h.covered
  exact ⟨Nat.le_refl _, GenerationStore.load_lt s.file, rfl, h.covered⟩

theorem kill : Sound { s with process := none } := by
  refine ⟨h.increasing, h.covered, ?_⟩
  intro p hp
  cases hp

section

variable (hp : s.process = some p)

include hp

theorem call (hidle : p.phase = .idle) {key : String} {len now : Nat}
    (hrange : (p.gate.admitAt p.cfg key len now).1.isSome ->
      p.gate.nextGeneration + 1 < 2 ^ 64) :
    Sound (s.setProcess (p.call key len now)) := by
  rcases h.running p hp with ⟨hwithin, hlt, hconsistent⟩
  rw [hidle] at hconsistent
  rcases hconsistent with ⟨hreserved, hvended⟩
  apply setProcess h.increasing h.covered
  unfold Process.call
  cases hanswer : p.gate.admitAt p.cfg key len now with
  | mk outcome after =>
    cases outcome with
    | none =>
      rcases Gate.admitAt_none hanswer with ⟨hnext, hsame⟩
      constructor
      · show after.nextGeneration ≤ after.reservedThrough
        lia
      · show after.reservedThrough < 2 ^ 64
        lia
      · show Consistent s.file s.tmp s.vended after p.phase
        rw [hidle]
        refine ⟨hsame.trans hreserved, ?_⟩
        rw [hnext]
        exact hvended
    | some vended =>
      rcases vended with ⟨generation, mark⟩
      rw [hanswer] at hrange
      rcases Gate.admitAt_some (hrange rfl) hanswer with
        ⟨hgeneration, hnext, hmark⟩
      have hpast : forall g, g ∈ s.vended -> g < generation := by
        intro g hg
        have hle := hvended g hg
        lia
      rcases hmark with ⟨rfl, hsame, hle⟩ | ⟨rfl, hle, hbound⟩
      · constructor
        · show after.nextGeneration ≤ after.reservedThrough
          lia
        · show after.reservedThrough < 2 ^ 64
          lia
        · exact ⟨hnext.symm, hsame.trans hreserved, hpast⟩
      · constructor
        · show after.nextGeneration ≤ after.reservedThrough
          lia
        · exact hbound
        · exact ⟨hnext.symm, rfl, hpast⟩

theorem create (hphase : p.phase = .create generation mark) :
    Sound (State.moveTo { s with tmp := some [] } p
      (.write generation mark (GenerationStore.text mark))) := by
  rcases h.running p hp with ⟨hwithin, hlt, hconsistent⟩
  rw [hphase] at hconsistent
  rcases hconsistent with ⟨hgeneration, hmark, hpast⟩
  apply setProcess
  · exact h.increasing
  · exact h.covered
  · exact ⟨hwithin, hlt, hgeneration, hmark, hpast, [], rfl, rfl⟩

theorem write {left : Bytes} (hphase : p.phase = .write generation mark left)
    (n : Nat) {s' : State} (hstep : s.advance p (.write n) = some s') :
    Sound s' := by
  rcases h.running p hp with ⟨hwithin, hlt, hconsistent⟩
  rw [hphase] at hconsistent
  rcases hconsistent with ⟨hgeneration, hmark, hpast, written, htmp, hwritten⟩
  have hsplit : left.take n ++ left.drop n = left := List.take_append_drop n left
  unfold State.advance at hstep
  rw [hphase] at hstep
  dsimp only at hstep
  rw [htmp, Option.map_some] at hstep
  split at hstep
  · rename_i hdone
    cases hstep
    apply setProcess
    · exact h.increasing
    · exact h.covered
    · refine ⟨hwithin, hlt, hgeneration, hmark, hpast, ?_⟩
      rw [hdone, List.append_nil] at hsplit
      show some (written ++ left.take n) = _
      rw [hsplit, hwritten]
  · cases hstep
    apply setProcess
    · exact h.increasing
    · exact h.covered
    · refine ⟨hwithin, hlt, hgeneration, hmark, hpast, written ++ left.take n,
        rfl, ?_⟩
      rw [List.append_assoc, hsplit, hwritten]

theorem sync (hphase : p.phase = .sync generation mark) :
    Sound (s.moveTo p (.rename generation mark)) := by
  rcases h.running p hp with ⟨hwithin, hlt, hconsistent⟩
  rw [hphase] at hconsistent
  exact setProcess h.increasing h.covered ⟨hwithin, hlt, hconsistent⟩

theorem rename (hphase : p.phase = .rename generation mark) :
    Sound (State.moveTo { s with file := s.tmp, tmp := none } p
      (.vend generation)) := by
  rcases h.running p hp with ⟨hwithin, hlt, hconsistent⟩
  rw [hphase] at hconsistent
  rcases hconsistent with ⟨hgeneration, hmark, hpast, htmp⟩
  have hload : GenerationStore.load s.tmp = p.gate.reservedThrough := by
    rw [htmp, hmark, GenerationStore.load_text hlt]
  apply setProcess
  · exact h.increasing
  · intro g hg
    show g ≤ GenerationStore.load s.tmp
    have hlt := hpast g hg
    lia
  · exact ⟨hwithin, hlt, hgeneration, hload.symm, hpast⟩

theorem vend {generation : Nat} (hphase : p.phase = .vend generation) :
    Sound (State.moveTo { s with vended := s.vended ++ [generation] } p
      .idle) := by
  rcases h.running p hp with ⟨hwithin, hlt, hconsistent⟩
  rw [hphase] at hconsistent
  rcases hconsistent with ⟨hgeneration, hreserved, hpast⟩
  apply setProcess
  · show (s.vended ++ [generation]).Pairwise (· < ·)
    rw [List.pairwise_append]
    refine ⟨h.increasing, List.pairwise_singleton _ _, ?_⟩
    intro g hg g' hg'
    rw [List.mem_singleton.mp hg']
    exact hpast g hg
  · intro g hg
    show g ≤ GenerationStore.load s.file
    rcases List.mem_append.mp hg with hold | hnew
    · exact h.covered g hold
    · have heq := List.mem_singleton.mp hnew
      lia
  · refine ⟨hwithin, hlt, hreserved, ?_⟩
    intro g hg
    show g ≤ p.gate.nextGeneration
    rcases List.mem_append.mp hg with hold | hnew
    · have hlt := hpast g hold
      lia
    · have heq := List.mem_singleton.mp hnew
      lia

end

theorem step {e : Event} {s' : State} (hguard : Unwrapped s e)
    (hstep : Admission.step s e = some s') : Sound s' := by
  unfold Admission.step at hstep
  cases hp : s.process with
  | none =>
    rw [hp] at hstep
    cases e with
    | start cfg now =>
      cases hstep
      exact h.start cfg now
    | kill =>
      cases hstep
      exact h.kill
    | _ => cases hstep
  | some p =>
    rw [hp] at hstep
    cases e with
    | kill =>
      cases hstep
      exact h.kill
    | start cfg now => cases hstep
    | call key len now =>
      dsimp only [State.advance] at hstep
      split at hstep
      · rename_i hidle
        cases hstep
        exact h.call hp hidle (hguard p hp)
      · cases hstep
    | create =>
      dsimp only [State.advance] at hstep
      split at hstep
      · rename_i hphase
        cases hstep
        exact h.create hp hphase
      · cases hstep
    | write n =>
      cases hphase : p.phase with
      | write generation mark left => exact h.write hp hphase n hstep
      | _ => simp [State.advance, hphase] at hstep
    | sync =>
      dsimp only [State.advance] at hstep
      split at hstep
      · rename_i hphase
        cases hstep
        exact h.sync hp hphase
      · cases hstep
    | rename =>
      dsimp only [State.advance] at hstep
      split at hstep
      · rename_i hphase
        cases hstep
        exact h.rename hp hphase
      · cases hstep
    | vend =>
      dsimp only [State.advance] at hstep
      split at hstep
      · rename_i hphase
        cases hstep
        exact h.vend hp hphase
      · cases hstep

end

end Sound

theorem sound_initial (file tmp : Option Bytes) :
    Sound (State.initial file tmp) := by
  refine ⟨List.Pairwise.nil, ?_, ?_⟩
  · intro g hg
    cases hg
  · intro p hp
    cases hp

/-- Over every history in which no call that vends finds the counter at its last
value, the generations vended increase. -/
theorem generations_increase {file tmp : Option Bytes} {events : List Event}
    {s : State}
    (hguard : Transition.Along step Unwrapped (State.initial file tmp) events)
    (hrun : Transition.run step (State.initial file tmp) events = some s) :
    s.vended.Pairwise (· < ·) :=
  (Transition.run_preserves
    (fun _ _ _ hsound hguard hstep => hsound.step hguard hstep)
    (sound_initial file tmp) hguard hrun).increasing

/-!
## One admission a lifetime
-/

def eager : Config :=
  { threshold := 1, window := 1, byteBudget := 0, hash := fun _ _ => 0 }

def State.between (file tmp : Option Bytes) (vended : List Nat) : State :=
  { file := file, tmp := tmp, process := none, vended := vended }

/-- A process admits one chunk, persists `mark` in one write, and is killed
once it has vended. -/
def lifetime (mark : Nat) : List Event :=
  [.start eager 0, .call "k" 0 0, .create,
    .write (GenerationStore.text mark).length, .sync, .rename, .vend, .kill]

def nextMark (hwm : Nat) : Nat :=
  saturatingAdd (hwm + 1) (generationReserveBlock - 1)

theorem Gate.vend_of_reserved {gate : Gate}
    (h : gate.reservedThrough = gate.nextGeneration) :
    gate.vend.1 = (gate.nextGeneration + 1) % 2 ^ 64 ∧
      gate.vend.2.1 =
        if (gate.nextGeneration + 1) % 2 ^ 64 > gate.nextGeneration then
          some (saturatingAdd ((gate.nextGeneration + 1) % 2 ^ 64)
            (generationReserveBlock - 1))
        else none := by
  unfold Gate.vend
  dsimp only
  rw [h]
  split
  · exact ⟨rfl, rfl⟩
  · exact ⟨rfl, rfl⟩

theorem admitAt_eager (hwm : Nat) :
    exists counted after, Gate.nextGeneration counted = hwm ∧
      Gate.reservedThrough counted = hwm ∧
      ((Gate.new 0).withMark hwm).admitAt eager "k" 0 0 =
        (some (counted.vend.1, counted.vend.2.1), after) := by
  have hestimate :
      ¬ (CountMinSketch.increment eager CountMinSketch.zero "k").2 < 1 := by
    decide
  have hbudget : ¬ saturatingAdd 0 0 > 0 := by decide
  unfold Gate.admitAt
  dsimp only
  rw [if_neg, if_neg]
  · exact ⟨_, _, rfl, rfl, rfl⟩
  · exact hbudget
  · exact hestimate

def State.eagerAt (s : State) (gate : Gate) (phase : Phase) : State :=
  s.setProcess { cfg := eager, gate := gate, phase := phase }

theorem call_eager {file : Option Bytes}
    (hload : GenerationStore.load file = hwm) :
    exists gate, (Process.build eager 0 file).call "k" 0 0 =
      { cfg := eager,
        gate := gate,
        phase :=
          let generation := (hwm + 1) % 2 ^ 64
          if generation > hwm then
            .create generation
              (saturatingAdd generation (generationReserveBlock - 1))
          else .vend generation } := by
  rcases admitAt_eager hwm with ⟨counted, after, hnext, hreserved, hcall⟩
  rcases Gate.vend_of_reserved (hreserved.trans hnext.symm) with
    ⟨hgeneration, hmark⟩
  rw [hnext] at hgeneration hmark
  refine ⟨after, ?_⟩
  unfold Process.call Process.build
  rw [hload]
  dsimp only
  rw [hcall, hgeneration, hmark]
  by_cases hfresh : (hwm + 1) % 2 ^ 64 > hwm
  · rw [if_pos hfresh, if_pos hfresh]
  · rw [if_neg hfresh, if_neg hfresh]

theorem step_call_eager {s : State} (hload : GenerationStore.load s.file = hwm)
    (h : hwm + 1 < 2 ^ 64) :
    exists gate, step (s.setProcess (.build eager 0 s.file)) (.call "k" 0 0) =
      some (s.eagerAt gate (.create (hwm + 1) (nextMark hwm))) := by
  rcases call_eager hload with ⟨gate, hcall⟩
  dsimp only at hcall
  rw [Nat.mod_eq_of_lt h, if_pos (Nat.lt_succ_self hwm)] at hcall
  exact ⟨gate, congrArg (fun p => some (s.setProcess p)) hcall⟩

theorem step_call_eager_max {s : State}
    (hload : GenerationStore.load s.file = u64Max) :
    exists gate, step (s.setProcess (.build eager 0 s.file)) (.call "k" 0 0) =
      some (s.eagerAt gate (.vend 0)) := by
  rcases call_eager hload with ⟨gate, hcall⟩
  exact ⟨gate, congrArg (fun p => some (s.setProcess p)) hcall⟩

theorem run_lifetime {file : Option Bytes} (tmp : Option Bytes)
    (vended : List Nat) (hload : GenerationStore.load file = hwm)
    (h : hwm + 1 < 2 ^ 64) :
    Transition.run step (.between file tmp vended) (lifetime (nextMark hwm)) =
        some (.between (some (GenerationStore.text (nextMark hwm))) none
          (vended ++ [hwm + 1])) ∧
      Transition.Along step Unwrapped (.between file tmp vended)
        (lifetime (nextMark hwm)) := by
  have hfile : GenerationStore.load (State.between file tmp vended).file =
      hwm := hload
  rcases step_call_eager hfile h with ⟨gate, hcall⟩
  have hguard : Unwrapped ((State.between file tmp vended).setProcess
      (.build eager 0 file)) (.call "k" 0 0) := by
    rintro p ⟨⟩ _
    show GenerationStore.load file + 1 < 2 ^ 64
    rw [hload]
    exact h
  have hwrite : step ((State.between file (some []) vended).eagerAt gate
      (.write (hwm + 1) (nextMark hwm) (GenerationStore.text (nextMark hwm))))
        (.write (GenerationStore.text (nextMark hwm)).length) =
      some ((State.between file (some (GenerationStore.text (nextMark hwm)))
        vended).eagerAt gate (.sync (hwm + 1) (nextMark hwm))) := by
    simp [step, State.advance, State.eagerAt, State.setProcess, State.moveTo,
      State.between]
  refine Transition.run_along_cons trivial rfl ?_
  refine Transition.run_along_cons hguard hcall ?_
  refine Transition.run_along_cons trivial rfl ?_
  refine Transition.run_along_cons trivial hwrite ?_
  refine Transition.run_along_cons trivial rfl ?_
  refine Transition.run_along_cons trivial rfl ?_
  refine Transition.run_along_cons trivial rfl ?_
  refine Transition.run_along_cons trivial rfl ?_
  exact ⟨rfl, trivial⟩

def lifetimes (n : Nat) : List Event :=
  (List.range n).flatMap fun i => lifetime (nextMark (1024 * i))

def firstOfBlocks (n : Nat) : List Nat :=
  (List.range n).map fun i => 1024 * i + 1

theorem run_lifetimes {n : Nat} (h : 1024 * n ≤ 2 ^ 64) :
    exists file, GenerationStore.load file = min (1024 * n) u64Max ∧
      Transition.run step (.initial none none) (lifetimes n) =
          some (.between file none (firstOfBlocks n)) ∧
      Transition.Along step Unwrapped (.initial none none) (lifetimes n) := by
  induction n with
  | zero => exact ⟨none, rfl, rfl, trivial⟩
  | succ n ih =>
    have hmax : u64Max = 2 ^ 64 - 1 := rfl
    have hblock : generationReserveBlock = 1024 := rfl
    have hbelow : min (1024 * n) u64Max = 1024 * n := by lia
    have hmark : nextMark (1024 * n) = min (1024 * (n + 1)) u64Max := by
      unfold nextMark saturatingAdd
      lia
    rcases ih (by lia) with ⟨file, hload, hrun⟩
    rw [hbelow] at hload
    have hnext := run_lifetime none (firstOfBlocks n) hload (by lia)
    refine ⟨some (GenerationStore.text (nextMark (1024 * n))), ?_, ?_⟩
    · rw [hmark]
      apply GenerationStore.load_text
      lia
    · unfold lifetimes firstOfBlocks
      rw [List.range_succ, List.flatMap_append, List.flatMap_singleton,
        List.map_append, List.map_singleton]
      exact Transition.run_along_append hrun hnext

/-- Two lifetimes of one admission each vend the first generations of two
blocks. -/
theorem generations_increase_two :
    exists s, Transition.run step (State.initial none none) (lifetimes 2) =
        some s ∧
      s.vended = [1, 1025] ∧ s.vended.Pairwise (· < ·) := by
  rcases run_lifetimes (show 1024 * 2 ≤ 2 ^ 64 by lia) with ⟨file, _, hrun, hguard⟩
  exact ⟨_, hrun, rfl, generations_increase hguard hrun⟩

/-!
## The counter wraps
-/

theorem run_wrapped {file : Option Bytes} (tmp : Option Bytes)
    (vended : List Nat) (hload : GenerationStore.load file = u64Max) :
    exists s, Transition.run step (.between file tmp vended)
        [.start eager 0, .call "k" 0 0, .vend] = some s ∧
      s.vended = vended ++ [0] := by
  have hfile : GenerationStore.load (State.between file tmp vended).file =
      u64Max := hload
  rcases step_call_eager_max hfile with ⟨gate, hcall⟩
  refine Transition.run_exists_cons rfl ?_
  refine Transition.run_exists_cons hcall ?_
  refine Transition.run_exists_cons rfl ?_
  exact ⟨_, rfl, rfl⟩

theorem one_mem_firstOfBlocks {n : Nat} (h : 0 < n) : 1 ∈ firstOfBlocks n := by
  apply List.mem_map.mpr
  exact ⟨0, List.mem_range.mpr h, rfl⟩

/-- After `2 ^ 54` lifetimes the mark is at its last value, and the next gate
starts over at zero. -/
theorem generations_start_over :
    exists events s, Transition.run step (State.initial none none) events =
        some s ∧
      ¬ s.vended.Pairwise (· < ·) := by
  have hmax : u64Max = 2 ^ 64 - 1 := rfl
  have hlast : min (1024 * 2 ^ 54) u64Max = u64Max := by lia
  rcases run_lifetimes (show 1024 * 2 ^ 54 ≤ 2 ^ 64 by lia) with
    ⟨file, hload, hrun, _⟩
  rw [hlast] at hload
  rcases run_wrapped none (firstOfBlocks (2 ^ 54)) hload with
    ⟨s, hwrapped, hvended⟩
  refine ⟨lifetimes (2 ^ 54) ++ [.start eager 0, .call "k" 0 0, .vend], s, ?_,
    ?_⟩
  · rw [Transition.run_append, hrun, Option.bind_some]
    exact hwrapped
  · rw [hvended, List.pairwise_append]
    rintro ⟨_, _, hpast⟩
    have hone := one_mem_firstOfBlocks (Nat.two_pow_pos 54)
    have hlt := hpast 1 hone 0 (List.mem_singleton_self 0)
    lia

end Admission

end Cache
end Pacer
