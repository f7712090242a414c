import Pacer.Cache.Admission

/-!
# Any calls on the admission gate

A gate beside the log of the calls it served.  The windows are read off the
clock values alone.  In the window the log ends in, the copies that were kept fit
the byte budget and no key that was fetched often enough is refused as too cold;
over the whole log the generations increase as long as the 64-bit counter does
not wrap, and the gate remembers the newest generation of each key it tracks.
-/

namespace Pacer
namespace Cache

open Foundation Function

namespace Admission

def Config.new (threshold window byteBudget : Nat)
    (hash : Nat -> String -> Nat) : Config :=
  { threshold := min (max threshold 1) counterMax,
    window := window,
    byteBudget := byteBudget,
    hash := hash }

structure Fetch where
  key : String
  len : Nat
  now : Nat
deriving DecidableEq, Repr

inductive Verdict where
  | cold
  | overBudget
  | admitted (generation : Nat)
deriving DecidableEq, Repr

def Verdict.generation : Verdict -> Option Nat
  | .admitted generation => some generation
  | _ => none

def Gate.estimate (cfg : Config) (gate : Gate) (f : Fetch) : Nat :=
  (CountMinSketch.increment cfg (gate.rollOver cfg f.now).sketch f.key).2

def Gate.judge (cfg : Config) (gate : Gate) (f : Fetch) : Verdict :=
  if gate.estimate cfg f < cfg.threshold then .cold
  else if saturatingAdd (gate.rollOver cfg f.now).admittedBytes f.len >
      cfg.byteBudget then .overBudget
  else .admitted ((gate.nextGeneration + 1) % 2 ^ 64)

structure Served where
  gate : Gate
  log : List (Fetch × Verdict)

namespace Served

def start (now mark : Nat) : Served :=
  { gate := (Gate.new now).withMark mark, log := [] }

def call (cfg : Config) (s : Served) (f : Fetch) : Served :=
  { gate := (s.gate.admitAt cfg f.key f.len f.now).2,
    log := s.log ++ [(f, s.gate.judge cfg f)] }

def calls (cfg : Config) (s : Served) (fetches : List Fetch) : Served :=
  fetches.foldl (call cfg) s

theorem calls_cons (cfg : Config) (s : Served) (f : Fetch)
    (fetches : List Fetch) :
    s.calls cfg (f :: fetches) = (s.call cfg f).calls cfg fetches := rfl

end Served

/-!
## The log
-/

def windowStep (window : Nat) (w : Nat × List (Fetch × Verdict))
    (e : Fetch × Verdict) : Nat × List (Fetch × Verdict) :=
  if window ≤ e.1.now - w.1 then (e.1.now, [e]) else (w.1, w.2 ++ [e])

def windowOf (window start : Nat) (log : List (Fetch × Verdict)) :
    Nat × List (Fetch × Verdict) :=
  log.foldl (windowStep window) (start, [])

def fetches (key : String) (log : List (Fetch × Verdict)) : Nat :=
  log.countP fun e => e.1.key = key

def copied (e : Fetch × Verdict) : Nat :=
  match e.2 with
  | .admitted _ => e.1.len
  | _ => 0

def copiedBytes (log : List (Fetch × Verdict)) : Nat :=
  (log.map copied).sum

def generations (log : List (Fetch × Verdict)) : List Nat :=
  log.filterMap fun e => e.2.generation

def latest (key : String) (log : List (Fetch × Verdict)) : Option Nat :=
  (generations (log.filter fun e => e.1.key = key)).getLast?

/-!
## What a call does
-/

theorem vend_counters (gate : Gate) :
    gate.vend.1 = (gate.nextGeneration + 1) % 2 ^ 64 ∧
      gate.vend.2.2.nextGeneration = gate.vend.1 ∧
      gate.vend.2.2.sketch = gate.sketch ∧
      gate.vend.2.2.windowStart = gate.windowStart ∧
      gate.vend.2.2.admittedBytes = gate.admittedBytes ∧
      gate.vend.2.2.admitted = gate.admitted := by
  unfold Gate.vend
  dsimp only
  split
  · exact ⟨rfl, rfl, rfl, rfl, rfl, rfl⟩
  · exact ⟨rfl, rfl, rfl, rfl, rfl, rfl⟩

theorem admitted_rollOver (cfg : Config) (gate : Gate) (now : Nat) :
    (gate.rollOver cfg now).admitted = gate.admitted := by
  unfold Gate.rollOver
  split
  · rfl
  · rfl

structure Counted (cfg : Config) (gate after : Gate) (f : Fetch) : Prop where
  windowStart : after.windowStart = (gate.rollOver cfg f.now).windowStart
  sketch : after.sketch = (CountMinSketch.increment cfg
    (gate.rollOver cfg f.now).sketch f.key).1

structure Refused (cfg : Config) (gate after : Gate) (f : Fetch) : Prop
    extends Counted cfg gate after f where
  bytes : after.admittedBytes = (gate.rollOver cfg f.now).admittedBytes
  next : after.nextGeneration = gate.nextGeneration
  record : after.admitted = gate.admitted

structure Kept (cfg : Config) (gate after : Gate) (f : Fetch)
    (generation : Nat) : Prop extends Counted cfg gate after f where
  fits : saturatingAdd (gate.rollOver cfg f.now).admittedBytes f.len ≤
    cfg.byteBudget
  bytes : after.admittedBytes =
    (gate.rollOver cfg f.now).admittedBytes + f.len
  generation_eq : generation = (gate.nextGeneration + 1) % 2 ^ 64
  next : after.nextGeneration = generation
  record : after.admitted = gate.admitted.insert f.key generation

theorem admitAt_cases (cfg : Config) (gate : Gate) (f : Fetch) :
    (gate.admitAt cfg f.key f.len f.now).1.map Prod.fst =
        (gate.judge cfg f).generation ∧
      ((gate.judge cfg f = .cold ∧ gate.estimate cfg f < cfg.threshold ∨
          gate.judge cfg f = .overBudget) ∧
          Refused cfg gate (gate.admitAt cfg f.key f.len f.now).2 f ∨
        exists generation, gate.judge cfg f = .admitted generation ∧
          Kept cfg gate (gate.admitAt cfg f.key f.len f.now).2 f generation) := by
  rcases Gate.counters_rollOver cfg gate f.now with ⟨hnext, _⟩
  have hrecord := admitted_rollOver cfg gate f.now
  unfold Gate.admitAt Gate.judge
  dsimp only
  by_cases hcold : gate.estimate cfg f < cfg.threshold
  · rw [if_pos hcold]
    have hcold' := hcold
    unfold Gate.estimate at hcold'
    rw [if_pos hcold']
    refine ⟨rfl, Or.inl ⟨Or.inl ⟨rfl, hcold⟩, ?_⟩⟩
    exact ⟨⟨rfl, rfl⟩, rfl, hnext, hrecord⟩
  · rw [if_neg hcold]
    unfold Gate.estimate at hcold
    rw [if_neg hcold]
    split
    · refine ⟨rfl, Or.inl ⟨Or.inr rfl, ?_⟩⟩
      exact ⟨⟨rfl, rfl⟩, rfl, hnext, hrecord⟩
    · rename_i hfits
      let counted : Gate :=
        { gate.rollOver cfg f.now with
          sketch := (CountMinSketch.increment cfg
            (gate.rollOver cfg f.now).sketch f.key).1
          admittedBytes := (gate.rollOver cfg f.now).admittedBytes + f.len }
      rcases vend_counters counted with
        ⟨hgeneration, hvended, hsketch, hstart, hbytes, hkeys⟩
      have hvalue : counted.vend.1 = (gate.nextGeneration + 1) % 2 ^ 64 := by
        rw [hgeneration]
        change ((gate.rollOver cfg f.now).nextGeneration + 1) % 2 ^ 64 = _
        rw [hnext]
      constructor
      · exact congrArg some hvalue
      · right
        refine ⟨_, rfl, ⟨hstart, hsketch⟩, Nat.not_lt.mp hfits, hbytes, rfl,
          hvended.trans hvalue, ?_⟩
        change counted.vend.2.2.admitted.insert f.key counted.vend.1 = _
        rw [hkeys, hvalue]
        change (gate.rollOver cfg f.now).admitted.insert f.key _ = _
        rw [hrecord]

/-!
## The sketch never underestimates
-/

namespace CountMinSketch

theorem foldl_bump (cfg : Config) (key : String) {rows : List Nat}
    (hrows : rows.Nodup) (acc : CountMinSketch × Nat) :
    (forall row c, (rows.foldl (bump cfg key) acc).1 row c =
      if row ∈ rows ∧ c = col cfg row key then min (acc.1 row c + 1) counterMax
      else acc.1 row c) ∧
    forall least, least ≤ acc.2 ->
      (forall row, row ∈ rows ->
        least ≤ min (acc.1 row (col cfg row key) + 1) counterMax) ->
      least ≤ (rows.foldl (bump cfg key) acc).2 := by
  induction rows generalizing acc with
  | nil =>
    constructor
    · intro row c
      simp
    · intro least hleast _
      exact hleast
  | cons first rows ih =>
    rcases List.nodup_cons.mp hrows with ⟨hfirst, hrest⟩
    rcases ih hrest (bump cfg key acc first) with ⟨hcounters, hestimate⟩
    -- The rows behind the first are as they were.
    have hother : forall row, row ≠ first ->
        (bump cfg key acc first).1 row = acc.1 row := by
      intro row hrow
      exact update_of_ne hrow _ _
    rw [List.foldl_cons]
    constructor
    · intro row c
      rw [hcounters]
      by_cases hrow : row = first
      · rw [hrow, if_neg (fun h => hfirst h.left)]
        change update acc.1 first (update (acc.1 first) _ _)
          first c = _
        rw [update_self]
        by_cases hc : c = col cfg first key
        · rw [hc, update_self, if_pos ⟨List.mem_cons_self, rfl⟩]
        · rw [update_of_ne hc, if_neg (fun h => hc h.right)]
      · rw [hother row hrow]
        simp [hrow]
    · intro least hleast hall
      apply hestimate
      · exact Nat.le_min.mpr ⟨hleast, hall first List.mem_cons_self⟩
      · intro row hrow
        rw [hother row (fun heq => hfirst (heq ▸ hrow))]
        exact hall row (List.mem_cons_of_mem first hrow)

theorem increment_counter (cfg : Config) (sketch : CountMinSketch)
    (key : String) {row : Nat} (hrow : row < sketchDepth) (c : Nat) :
    (increment cfg sketch key).1 row c =
      if c = col cfg row key then min (sketch row c + 1) counterMax
      else sketch row c := by
  have hrows : (List.range sketchDepth).Nodup := List.nodup_range
  have hcounters := (foldl_bump cfg key hrows (sketch, counterMax)).left row c
  unfold increment
  rw [hcounters]
  simp [hrow]

theorem le_increment (cfg : Config) (sketch : CountMinSketch) (key : String)
    {least : Nat} (hleast : least ≤ counterMax)
    (hall : forall row, row < sketchDepth ->
      least ≤ min (sketch row (col cfg row key) + 1) counterMax) :
    least ≤ (increment cfg sketch key).2 := by
  apply (foldl_bump cfg key List.nodup_range (sketch, counterMax)).right
  · exact hleast
  · intro row hrow
    exact hall row (List.mem_range.mp hrow)

end CountMinSketch

def Covers (cfg : Config) (sketch : CountMinSketch)
    (log : List (Fetch × Verdict)) : Prop :=
  forall row, row < sketchDepth -> forall key,
    min (fetches key log) counterMax ≤ sketch row (col cfg row key)

theorem covers_zero (cfg : Config) : Covers cfg CountMinSketch.zero [] := by
  intro row _ key
  exact Nat.min_le_left 0 counterMax

theorem fetches_concat (key : String) (log : List (Fetch × Verdict))
    (e : Fetch × Verdict) :
    fetches key (log ++ [e]) =
      fetches key log + if e.1.key = key then 1 else 0 := by
  unfold fetches
  rw [List.countP_append, List.countP_singleton]
  simp

variable {log : List (Fetch × Verdict)} {cfg : Config} {keys : AdmittedKeys}
  {start mark : Nat} {s : Served}

theorem Covers.increment {sketch : CountMinSketch} (h : Covers cfg sketch log)
    (f : Fetch) (v : Verdict) :
    Covers cfg (CountMinSketch.increment cfg sketch f.key).1
      (log ++ [(f, v)]) := by
  intro row hrow key
  have hcovers := h row hrow key
  rw [CountMinSketch.increment_counter cfg sketch f.key hrow, fetches_concat]
  by_cases hkey : f.key = key
  · rw [hkey, if_pos rfl, if_pos rfl]
    lia
  · rw [if_neg hkey]
    split
    · lia
    · exact hcovers

theorem Covers.le_estimate {sketch : CountMinSketch} (h : Covers cfg sketch log)
    (f : Fetch) (v : Verdict) :
    min (fetches f.key (log ++ [(f, v)])) counterMax ≤
      (CountMinSketch.increment cfg sketch f.key).2 := by
  apply CountMinSketch.le_increment
  · exact Nat.min_le_right _ _
  · intro row hrow
    have hcovers := h row hrow f.key
    rw [fetches_concat, if_pos rfl]
    lia

/-!
## The record of admitted keys
-/

structure Tracks (keys : AdmittedKeys) (log : List (Fetch × Verdict)) : Prop where
  bounded : keys.order.length ≤ reannounceTrackedKeys
  nodup : keys.order.Nodup
  same : forall key, key ∈ keys.order <-> (keys.gens key).isSome
  newest : forall key generation, keys.gens key = some generation ->
    latest key log = some generation

theorem tracks_new : Tracks AdmittedKeys.new [] where
  bounded := Nat.zero_le _
  nodup := List.nodup_nil
  same := by
    intro key
    simp [AdmittedKeys.new]
  newest := by
    intro key generation h
    cases h

theorem latest_concat (key : String) (log : List (Fetch × Verdict))
    (f : Fetch) (v : Verdict) :
    latest key (log ++ [(f, v)]) =
      if f.key = key then v.generation.or (latest key log)
      else latest key log := by
  unfold latest generations
  rw [List.filter_append, List.filterMap_append]
  by_cases hkey : f.key = key
  · have hlast : [(f, v)].filter (fun e => decide (e.1.key = key)) =
        [(f, v)] := by simp [hkey]
    rw [if_pos hkey, hlast, List.filterMap_cons, List.filterMap_nil]
    cases v.generation with
    | none => rw [List.append_nil, Option.none_or]
    | some generation => rw [List.getLast?_concat, Option.some_or]
  · have hlast : [(f, v)].filter (fun e => decide (e.1.key = key)) = [] := by
      simp [hkey]
    rw [if_neg hkey, hlast, List.filterMap_nil, List.append_nil]

theorem Tracks.refused (h : Tracks keys log) (f : Fetch) {v : Verdict}
    (hv : v.generation = none) :
    Tracks keys (log ++ [(f, v)]) where
  bounded := h.bounded
  nodup := h.nodup
  same := h.same
  newest := by
    intro key generation hkey
    rw [latest_concat, hv]
    split
    · exact h.newest key generation hkey
    · exact h.newest key generation hkey

def AdmittedKeys.room (keys : AdmittedKeys) : AdmittedKeys :=
  if reannounceTrackedKeys ≤ keys.order.length then
    match keys.order with
    | [] => keys
    | oldest :: rest =>
      { order := rest, gens := update keys.gens oldest none }
  else keys

theorem AdmittedKeys.insert_new {key : String} (hnew : keys.gens key = none)
    (generation : Nat) :
    keys.insert key generation =
      { order := keys.room.order ++ [key],
        gens := update keys.room.gens key (some generation) } := by
  unfold AdmittedKeys.insert
  rw [hnew, if_neg (by simp)]
  rfl

theorem Tracks.room (h : Tracks keys log) :
    keys.room.order.length < reannounceTrackedKeys ∧ Tracks keys.room log ∧
      forall key, keys.gens key = none -> keys.room.gens key = none := by
  unfold AdmittedKeys.room
  split
  · rename_i hfull
    cases horder : keys.order with
    | nil =>
      rw [horder] at hfull
      cases hfull
    | cons oldest rest =>
      have hbounded := h.bounded
      have hnodup := h.nodup
      rw [horder, List.length_cons] at hbounded
      rw [horder] at hnodup
      rcases List.nodup_cons.mp hnodup with ⟨holdest, hrest⟩
      dsimp only
      refine ⟨hbounded, ⟨Nat.le_of_lt hbounded, hrest, ?_, ?_⟩, ?_⟩
      · intro key
        have hsame := h.same key
        rw [horder, List.mem_cons] at hsame
        change key ∈ rest <-> (update keys.gens oldest none key).isSome
        by_cases hkey : key = oldest
        · rw [hkey, update_self]
          simp [holdest]
        · rw [update_of_ne hkey, ← hsame]
          simp [hkey]
      · intro key generation hgens
        change update keys.gens oldest none key = _ at hgens
        by_cases hkey : key = oldest
        · rw [hkey, update_self] at hgens
          cases hgens
        · rw [update_of_ne hkey] at hgens
          exact h.newest key generation hgens
      · intro key hnone
        by_cases hkey : key = oldest
        · rw [hkey, update_self]
        · rw [update_of_ne hkey]
          exact hnone
  · rename_i hroom
    exact ⟨Nat.not_le.mp hroom, h, fun _ hnone => hnone⟩

theorem Tracks.newest_update (h : Tracks keys log) (f : Fetch)
    (generation : Nat) {key : String} {held : Nat}
    (hgens : update keys.gens f.key (some generation) key =
      some held) :
    latest key (log ++ [(f, .admitted generation)]) = some held := by
  rw [latest_concat]
  by_cases hkey : key = f.key
  · rw [hkey, update_self] at hgens
    rw [if_pos hkey.symm]
    exact hgens
  · rw [update_of_ne hkey] at hgens
    rw [if_neg (Ne.symm hkey)]
    exact h.newest key held hgens

theorem Tracks.insert (h : Tracks keys log) (f : Fetch) (generation : Nat) :
    Tracks (keys.insert f.key generation)
      (log ++ [(f, .admitted generation)]) := by
  cases hgens : keys.gens f.key with
  | some held =>
    have hknown : (keys.gens f.key).isSome := by
      rw [hgens]
      rfl
    unfold AdmittedKeys.insert
    rw [if_pos hknown]
    refine ⟨h.bounded, h.nodup, ?_, fun _ _ => h.newest_update f generation⟩
    intro key
    dsimp only
    by_cases hkey : key = f.key
    · rw [hkey, update_self]
      exact iff_of_true ((h.same f.key).mpr hknown) rfl
    · rw [update_of_ne hkey]
      exact h.same key
  | none =>
    rcases h.room with ⟨hlength, hroom, hnone⟩
    have habsent : f.key ∉ keys.room.order := by
      rw [hroom.same, hnone f.key hgens]
      simp
    rw [AdmittedKeys.insert_new hgens]
    refine ⟨?_, ?_, ?_, fun _ _ => hroom.newest_update f generation⟩
    · rw [List.length_append, List.length_singleton]
      exact hlength
    · refine List.nodup_append.mpr ⟨hroom.nodup, by simp, ?_⟩
      intro a ha b hb hab
      rw [List.mem_singleton.mp hb] at hab
      rw [hab] at ha
      exact habsent ha
    · intro key
      dsimp only
      rw [List.mem_append, List.mem_singleton, hroom.same]
      by_cases hkey : key = f.key
      · rw [hkey, update_self]
        simp
      · rw [update_of_ne hkey]
        simp [hkey]

/-!
## Every sequence of calls
-/

theorem windowOf_concat (window start : Nat) (log : List (Fetch × Verdict))
    (e : Fetch × Verdict) :
    windowOf window start (log ++ [e]) =
      windowStep window (windowOf window start log) e := by
  unfold windowOf
  rw [List.foldl_append]
  rfl

theorem copiedBytes_concat (log : List (Fetch × Verdict))
    (e : Fetch × Verdict) :
    copiedBytes (log ++ [e]) = copiedBytes log + copied e := by
  unfold copiedBytes
  rw [List.map_append, List.sum_append]
  simp

theorem generations_concat (log : List (Fetch × Verdict)) (f : Fetch)
    (v : Verdict) :
    generations (log ++ [(f, v)]) = generations log ++ v.generation.toList := by
  unfold generations
  rw [List.filterMap_append]
  cases hv : v.generation with
  | none => simp [hv]
  | some generation => simp [hv]

structure InWindow (cfg : Config) (gate : Gate)
    (w : Nat × List (Fetch × Verdict)) : Prop where
  windowStart : gate.windowStart = w.1
  bytes : gate.admittedBytes = copiedBytes w.2
  fits : copiedBytes w.2 ≤ cfg.byteBudget
  covers : Covers cfg gate.sketch w.2

theorem InWindow.rollOver {gate : Gate} {w : Nat × List (Fetch × Verdict)}
    (h : InWindow cfg gate w) (f : Fetch) (v : Verdict) :
    exists w', InWindow cfg (gate.rollOver cfg f.now) w' ∧
      windowStep cfg.window w (f, v) = (w'.1, w'.2 ++ [(f, v)]) := by
  unfold Gate.rollOver windowStep
  rw [h.windowStart]
  by_cases hnew : cfg.window ≤ f.now - w.1
  · rw [if_pos hnew, if_pos hnew]
    exact ⟨(f.now, []), ⟨rfl, rfl, Nat.zero_le _, covers_zero cfg⟩, rfl⟩
  · rw [if_neg hnew, if_neg hnew]
    exact ⟨w, h, rfl⟩

structure Keeps (cfg : Config) (start mark : Nat) (s : Served) : Prop where
  window : InWindow cfg s.gate (windowOf cfg.window start s.log)
  next : s.gate.nextGeneration = (mark + (generations s.log).length) % 2 ^ 64
  handed : generations s.log = (List.range (generations s.log).length).map
    fun i => (mark + i + 1) % 2 ^ 64
  record : Tracks s.gate.admitted s.log

theorem keeps_start (cfg : Config) (start : Nat) {mark : Nat}
    (hmark : mark < 2 ^ 64) : Keeps cfg start mark (.start start mark) where
  window := ⟨rfl, rfl, Nat.zero_le _, covers_zero cfg⟩
  next := (Nat.mod_eq_of_lt hmark).symm
  handed := rfl
  record := tracks_new

theorem Keeps.refused (h : Keeps cfg start mark s) {f : Fetch}
    (hrefused : Refused cfg s.gate (s.gate.admitAt cfg f.key f.len f.now).2 f)
    (hv : (s.gate.judge cfg f).generation = none)
    (hcopied : copied (f, s.gate.judge cfg f) = 0) :
    Keeps cfg start mark (s.call cfg f) := by
  have hgenerations : generations (s.call cfg f).log = generations s.log := by
    unfold Served.call
    rw [generations_concat, hv, Option.toList_none, List.append_nil]
  constructor
  · rcases h.window.rollOver f (s.gate.judge cfg f) with ⟨w, hw, hstep⟩
    unfold Served.call
    dsimp only
    rw [windowOf_concat, hstep]
    refine ⟨hrefused.windowStart.trans hw.windowStart, ?_, ?_, ?_⟩
    · rw [hrefused.bytes, hw.bytes, copiedBytes_concat, hcopied]
      rfl
    · rw [copiedBytes_concat, hcopied]
      exact hw.fits
    · rw [hrefused.sketch]
      exact hw.covers.increment f _
  · rw [hgenerations]
    exact hrefused.next.trans h.next
  · rw [hgenerations]
    exact h.handed
  · have hrecord := h.record.refused f hv
    rw [← hrefused.record] at hrecord
    exact hrecord

theorem Keeps.kept (hbudget : cfg.byteBudget < u64Max) {start mark : Nat}
    {s : Served} (h : Keeps cfg start mark s) {f : Fetch} {generation : Nat}
    (hv : s.gate.judge cfg f = .admitted generation)
    (hkept : Kept cfg s.gate (s.gate.admitAt cfg f.key f.len f.now).2 f
      generation) :
    Keeps cfg start mark (s.call cfg f) := by
  have hgenerations : generations (s.call cfg f).log =
      generations s.log ++ [generation] := by
    unfold Served.call
    rw [generations_concat, hv]
    rfl
  have hlength : (generations (s.call cfg f).log).length =
      (generations s.log).length + 1 := by
    rw [hgenerations, List.length_append, List.length_singleton]
  have hvalue : generation =
      (mark + (generations s.log).length + 1) % 2 ^ 64 := by
    rw [hkept.generation_eq, h.next, Nat.mod_add_mod]
  constructor
  · rcases h.window.rollOver f (s.gate.judge cfg f) with ⟨w, hw, hstep⟩
    have hcopied : copied (f, s.gate.judge cfg f) = f.len := by
      rw [hv]
      rfl
    unfold Served.call
    dsimp only
    rw [windowOf_concat, hstep]
    refine ⟨hkept.windowStart.trans hw.windowStart, ?_, ?_, ?_⟩
    · rw [hkept.bytes, hw.bytes, copiedBytes_concat, hcopied]
    · have hfits := hkept.fits
      rw [hw.bytes] at hfits
      unfold saturatingAdd at hfits
      rw [copiedBytes_concat, hcopied]
      lia
    · rw [hkept.sketch]
      exact hw.covers.increment f _
  · rw [hlength, ← Nat.add_assoc, ← hvalue]
    exact hkept.next
  · rw [hlength, List.range_succ, List.map_append, ← h.handed, hgenerations,
      List.map_singleton, ← hvalue]
  · have hrecord := h.record.insert f generation
    rw [← hkept.record, ← hv] at hrecord
    exact hrecord

theorem Keeps.call (hbudget : cfg.byteBudget < u64Max) {start mark : Nat}
    {s : Served} (h : Keeps cfg start mark s) (f : Fetch) :
    Keeps cfg start mark (s.call cfg f) := by
  rcases (admitAt_cases cfg s.gate f).right with ⟨hv, hrefused⟩ |
    ⟨generation, hv, hkept⟩
  · rcases hv with ⟨hcold, _⟩ | hover
    · exact h.refused hrefused (by rw [hcold]; rfl) (by rw [hcold]; rfl)
    · exact h.refused hrefused (by rw [hover]; rfl) (by rw [hover]; rfl)
  · exact h.kept hbudget hv hkept

theorem Keeps.calls (hbudget : cfg.byteBudget < u64Max) {start mark : Nat}
    {s : Served} (h : Keeps cfg start mark s) (fs : List Fetch)
    : Keeps cfg start mark (s.calls cfg fs) := by
  induction fs generalizing s with
  | nil => exact h
  | cons f fs ih => exact ih (h.call hbudget f)

theorem Keeps.le_estimate (h : Keeps cfg start mark s) (f : Fetch) :
    min (fetches f.key (windowOf cfg.window start (s.call cfg f).log).2)
        counterMax ≤ s.gate.estimate cfg f := by
  rcases h.window.rollOver f (s.gate.judge cfg f) with ⟨w, hw, hstep⟩
  unfold Served.call
  dsimp only
  rw [windowOf_concat, hstep]
  exact hw.covers.le_estimate f _

theorem fetches_windowOf_pos (window start : Nat) (log : List (Fetch × Verdict))
    (f : Fetch) (v : Verdict) :
    0 < fetches f.key (windowOf window start (log ++ [(f, v)])).2 := by
  rw [windowOf_concat]
  apply List.countP_pos_iff.mpr
  refine ⟨(f, v), ?_, by simp⟩
  unfold windowStep
  split
  · exact List.mem_singleton_self _
  · exact List.mem_append_right _ (List.mem_singleton_self _)

theorem Keeps.increasing (h : Keeps cfg start mark s)
    (hshort : mark + (generations s.log).length < 2 ^ 64) :
    (generations s.log).Pairwise (· < ·) := by
  rw [h.handed]
  apply List.pairwise_map.mpr
  apply List.pairwise_lt_range.imp_of_mem
  intro i j hi hj hij
  rw [List.mem_range] at hi hj
  rw [Nat.mod_eq_of_lt (by lia), Nat.mod_eq_of_lt (by lia)]
  lia

/-- Over every sequence of calls: the copies kept in a window fit its budget, a
key that was fetched `threshold` times in it is not too cold, the generations
increase until the counter wraps, and the record has the newest generations of
the keys it tracks. -/
theorem budget_heat_and_record (threshold window : Nat) {byteBudget : Nat}
    (hash : Nat -> String -> Nat) (hbudget : byteBudget < 2 ^ 63)
    (start : Nat) {mark : Nat} (hmark : mark < 2 ^ 64) (fs : List Fetch) :
    let cfg := Config.new threshold window byteBudget hash
    let s := (Served.start start mark).calls cfg fs
    copiedBytes (windowOf window start s.log).2 ≤ byteBudget ∧
    (forall f,
      (s.gate.admitAt cfg f.key f.len f.now).1.map Prod.fst =
          (s.gate.judge cfg f).generation ∧
        min (fetches f.key (windowOf window start (s.call cfg f).log).2)
          counterMax ≤ s.gate.estimate cfg f ∧
        (s.gate.judge cfg f = .cold ->
          fetches f.key (windowOf window start (s.call cfg f).log).2 <
            threshold)) ∧
    (mark + (generations s.log).length < 2 ^ 64 ->
      (generations s.log).Pairwise (· < ·)) ∧
    Tracks s.gate.admitted s.log := by
  intro cfg s
  have hsmall : cfg.byteBudget < u64Max := by
    change byteBudget < u64Max
    unfold u64Max
    lia
  have hkeeps : Keeps cfg start mark s :=
    (keeps_start cfg start hmark).calls hsmall fs
  refine ⟨hkeeps.window.fits, ?_, hkeeps.increasing, hkeeps.record⟩
  intro f
  have hestimate := hkeeps.le_estimate f
  rcases admitAt_cases cfg s.gate f with ⟨hreturned, hcases⟩
  refine ⟨hreturned, hestimate, ?_⟩
  intro hjudge
  rcases hcases with ⟨⟨_, hcold⟩ | hover, _⟩ | ⟨generation, hadmitted, _⟩
  · have hpos := fetches_windowOf_pos window start s.log f (s.gate.judge cfg f)
    change s.gate.estimate cfg f < min (max threshold 1) counterMax at hcold
    change min (fetches f.key (windowOf window start (s.log ++
      [(f, s.gate.judge cfg f)])).2) counterMax ≤ _ at hestimate
    change fetches f.key (windowOf window start (s.log ++
      [(f, s.gate.judge cfg f)])).2 < threshold
    lia
  · rw [hover] at hjudge
    cases hjudge
  · rw [hadmitted] at hjudge
    cases hjudge


/-- Three fetches of one key with a threshold of two, the last in a new window:
one copy is kept. -/
theorem budget_heat_and_record_three :
    100 < 2 ^ 63 ∧ 0 < 2 ^ 64 ∧
      exists s, s = (Served.start 0 0).calls (.new 2 10 100 fun _ _ => 0)
          [⟨"k", 60, 0⟩, ⟨"k", 60, 5⟩, ⟨"k", 60, 12⟩] ∧
        generations s.log = [1] ∧ (generations s.log).Pairwise (· < ·) ∧
        Tracks s.gate.admitted s.log := by
  have hbudget : 100 < 2 ^ 63 := by decide
  have hmark : 0 < 2 ^ 64 := by decide
  have hgenerations : generations ((Served.start 0 0).calls
      (.new 2 10 100 fun _ _ => 0)
      [⟨"k", 60, 0⟩, ⟨"k", 60, 5⟩, ⟨"k", 60, 12⟩]).log = [1] := by
    decide +kernel
  have hresult := budget_heat_and_record 2 10 (fun _ _ => 0) hbudget 0 hmark
    [⟨"k", 60, 0⟩, ⟨"k", 60, 5⟩, ⟨"k", 60, 12⟩]
  refine ⟨hbudget, hmark, _, rfl, hgenerations, ?_, hresult.right.right.right⟩
  apply hresult.right.right.left
  rw [hgenerations]
  decide

/-!
## The counter wraps
-/

def keepAll : Config := .new 1 1 0 fun _ _ => 0

def emptyChunk : Fetch := { key := "k", len := 0, now := 0 }

theorem one_le_estimate (cfg : Config) (gate : Gate) (f : Fetch) :
    1 ≤ gate.estimate cfg f := by
  apply CountMinSketch.le_increment
  · decide
  · intro row _
    have hmax : 1 ≤ counterMax := by decide
    lia

theorem Keeps.call_keepAll (h : Keeps keepAll start mark s) :
    (generations (s.call keepAll emptyChunk).log).length =
      (generations s.log).length + 1 := by
  have hwarm : ¬ s.gate.estimate keepAll emptyChunk < keepAll.threshold :=
    Nat.not_lt.mpr (one_le_estimate keepAll s.gate emptyChunk)
  rcases h.window.rollOver emptyChunk .cold with ⟨w, hw, _⟩
  have hbytes : (s.gate.rollOver keepAll emptyChunk.now).admittedBytes = 0 := by
    rw [hw.bytes]
    exact Nat.le_zero.mp hw.fits
  have hjudge : s.gate.judge keepAll emptyChunk =
      .admitted ((s.gate.nextGeneration + 1) % 2 ^ 64) := by
    unfold Gate.judge
    rw [if_neg hwarm, hbytes, if_neg (by decide)]
  unfold Served.call
  rw [generations_concat, hjudge, List.length_append]
  rfl

theorem Keeps.calls_keepAll (h : Keeps keepAll start mark s) (n : Nat) :
    (generations (s.calls keepAll (List.replicate n emptyChunk)).log).length =
      (generations s.log).length + n := by
  induction n generalizing s with
  | zero => rfl
  | succ n ih =>
    have hrest := ih (h.call (by decide) emptyChunk)
    rw [h.call_keepAll] at hrest
    rw [List.replicate_succ, Served.calls_cons, hrest]
    lia

theorem not_increasing_of_wrap {n : Nat} (hn : 2 ^ 64 ≤ n) :
    ¬ (generations ((Served.start 0 0).calls keepAll
      (List.replicate n emptyChunk)).log).Pairwise (· < ·) := by
  have hstart : Keeps keepAll 0 0 (.start 0 0) :=
    keeps_start keepAll 0 (by decide)
  have hlength : (generations ((Served.start 0 0).calls keepAll
      (List.replicate n emptyChunk)).log).length = n := by
    rw [hstart.calls_keepAll]
    exact Nat.zero_add n
  have hhanded := (hstart.calls (by decide)
    (List.replicate n emptyChunk)).handed
  rw [hlength] at hhanded
  rw [hhanded]
  intro hincreasing
  have hrange : 2 ^ 64 - 1 < (List.range n).length := by
    rw [List.length_range]
    lia
  have hlt := List.pairwise_iff_getElem.mp (List.pairwise_map.mp hincreasing)
    0 (2 ^ 64 - 1) (by lia) hrange (by decide)
  rw [List.getElem_range, List.getElem_range] at hlt
  lia

theorem generations_wrap :
    ¬ (generations ((Served.start 0 0).calls keepAll
      (List.replicate (2 ^ 64) emptyChunk)).log).Pairwise (· < ·) :=
  not_increasing_of_wrap (Nat.le_refl _)

end Admission

end Cache
end Pacer
