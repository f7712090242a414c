import Mathlib.Data.List.Infix
import Mathlib.Data.List.Perm.Basic
import Pacer.Cluster.Directory

/-!
# Announcements out of order

A holder tells the home of a chunk key when it admits the chunk and when it
drops it, each time with the generation of the admission; the home has no
ordering guarantee across those calls.  What the home records of one holder is
a register, and the register holds the newest admission that no later message
has evicted.  Nothing remembers an eviction once it has been folded, so an
admission that arrives after its own eviction is recorded all the same.

The main result says exactly for which orders of arrival the fold ends in what
the holder's own history says.
-/

namespace Pacer
namespace Cluster

inductive Notice where
  | admitted (tier : Tier) (generation : Nat)
  | evicted (generation : Nat)
deriving DecidableEq, Repr

structure Announcement (key node : Type) where
  chunkKey : key
  node : node
  notice : Notice
deriving DecidableEq, Repr

/-!
## One holder's register
-/

variable {heard : List Notice} {generation : Nat}

variable {registered : Option (Tier × Nat)} {tier : Tier}

namespace Notice

def fold (registered : Option (Tier × Nat)) : Notice -> Option (Tier × Nat)
  | .admitted tier generation =>
    match registered with
    | some existing =>
      if existing.2 ≤ generation then some (tier, generation)
      else some existing
    | none => some (tier, generation)
  | .evicted generation =>
    match registered with
    | some existing =>
      if existing.2 ≤ generation then none else some existing
    | none => none

def Live (heard : List Notice) (tier : Tier) (generation : Nat) : Prop :=
  exists front back, heard = front ++ .admitted tier generation :: back ∧
    forall g, .evicted g ∈ back -> g < generation

theorem live_snoc {notice : Notice} :
    Live (heard ++ [notice]) tier generation <->
      (Live heard tier generation ∧
          forall g, notice = .evicted g -> g < generation) ∨
        notice = .admitted tier generation := by
  constructor
  · rintro ⟨front, back, hsplit, hlater⟩
    rcases List.eq_nil_or_concat back with hnil | ⟨rest, last, hconcat⟩
    · right
      subst hnil
      have hlast := (List.append_inj' hsplit rfl).right
      exact List.singleton_inj.mp hlast
    · left
      subst hconcat
      have hassoc : heard ++ [notice] =
          (front ++ .admitted tier generation :: rest) ++ [last] := by
        simpa using hsplit
      rcases List.append_inj' hassoc rfl with ⟨hheard, hlast⟩
      have hsame : notice = last := List.singleton_inj.mp hlast
      constructor
      · refine ⟨front, rest, hheard, ?_⟩
        intro g hg
        exact hlater g (by simp [hg])
      · intro g hg
        apply hlater g
        simp [← hsame, hg]
  · rintro (⟨⟨front, back, hheard, hlater⟩, hnotice⟩ | hnew)
    · refine ⟨front, back ++ [notice], by simp [hheard], ?_⟩
      intro g hg
      rcases List.mem_append.mp hg with hback | hlast
      · exact hlater g hback
      · exact hnotice g (List.mem_singleton.mp hlast).symm
    · exact ⟨heard, [], by rw [hnew], fun g hg => by cases hg⟩

structure Represents (registered : Option (Tier × Nat))
    (heard : List Notice) : Prop where
  absent : registered = none ->
    forall tier generation, ¬ Live heard tier generation
  present : forall tier generation, registered = some (tier, generation) ->
    Live heard tier generation ∧
      forall t g, Live heard t g -> g ≤ generation

theorem represents_nil : Represents none [] := by
  constructor
  · rintro _ tier generation ⟨front, back, hsplit, _⟩
    cases front <;> cases hsplit
  · intro tier generation hsome
    cases hsome

theorem Represents.admitted (h : Represents registered heard) (tier : Tier)
    (generation : Nat) :
    Represents (fold registered (.admitted tier generation))
      (heard ++ [.admitted tier generation]) := by
  have hlive : Live (heard ++ [.admitted tier generation]) tier generation :=
    live_snoc.mpr (Or.inr rfl)
  cases registered with
  | none =>
    constructor
    · intro hnone
      cases hnone
    rintro t g ⟨⟩
    refine ⟨hlive, ?_⟩
    intro t g hother
    rcases live_snoc.mp hother with ⟨hold, _⟩ | hnew
    · exact absurd hold (h.absent rfl t g)
    · cases hnew
      exact Nat.le_refl _
  | some existing =>
    rcases existing with ⟨held, newest⟩
    rcases h.present held newest rfl with ⟨hheld, hmax⟩
    unfold fold
    dsimp only
    split
    · rename_i hle
      constructor
      · intro hnone
        cases hnone
      rintro t g ⟨⟩
      refine ⟨hlive, ?_⟩
      intro t g hother
      rcases live_snoc.mp hother with ⟨hold, _⟩ | hnew
      · exact Nat.le_trans (hmax t g hold) hle
      · cases hnew
        exact Nat.le_refl _
    · rename_i hgt
      constructor
      · intro hnone
        cases hnone
      rintro t g ⟨⟩
      constructor
      · apply live_snoc.mpr
        exact Or.inl ⟨hheld, nofun⟩
      · intro t g hother
        rcases live_snoc.mp hother with ⟨hold, _⟩ | hnew
        · exact hmax t g hold
        · cases hnew
          lia

theorem Represents.evicted (h : Represents registered heard)
    (generation : Nat) :
    Represents (fold registered (.evicted generation))
      (heard ++ [.evicted generation]) := by
  have hsnoc : forall t g,
      Live (heard ++ [.evicted generation]) t g ->
        Live heard t g ∧ generation < g := by
    intro t g hlive
    rcases live_snoc.mp hlive with ⟨hold, hlater⟩ | hnew
    · exact ⟨hold, hlater generation rfl⟩
    · cases hnew
  cases registered with
  | none =>
    constructor
    · intro _ t g hlive
      exact h.absent rfl t g (hsnoc t g hlive).left
    · intro t g hsome
      cases hsome
  | some existing =>
    rcases existing with ⟨held, newest⟩
    rcases h.present held newest rfl with ⟨hheld, hmax⟩
    unfold fold
    dsimp only
    split
    · rename_i hle
      constructor
      · intro _ t g hlive
        rcases hsnoc t g hlive with ⟨hold, hlt⟩
        have hnewest := hmax t g hold
        lia
      · intro t g hsome
        cases hsome
    · rename_i hgt
      constructor
      · intro hnone
        cases hnone
      rintro t g ⟨⟩
      constructor
      · apply live_snoc.mpr
        left
        refine ⟨hheld, ?_⟩
        rintro g ⟨⟩
        lia
      · intro t g hlive
        exact hmax t g (hsnoc t g hlive).left

theorem Represents.foldl (h : Represents registered heard)
    (more : List Notice) :
    Represents (more.foldl fold registered) (heard ++ more) := by
  induction more generalizing registered heard with
  | nil =>
    rw [List.append_nil]
    exact h
  | cons notice rest ih =>
    have hnext : Represents (fold registered notice) (heard ++ [notice]) := by
      cases notice with
      | admitted tier generation => exact h.admitted tier generation
      | evicted generation => exact h.evicted generation
    have hrest := ih hnext
    rw [List.append_assoc, List.singleton_append] at hrest
    exact hrest

theorem represents_foldl (heard : List Notice) :
    Represents (heard.foldl fold none) heard :=
  represents_nil.foldl heard

end Notice

/-!
## A holder's history
-/

/-- One admission of a holder, and whether it was evicted later. -/
structure Admission where
  tier : Tier
  generation : Nat
  evicted : Bool
deriving DecidableEq, Repr

def Admission.notices (a : Admission) : List Notice :=
  .admitted a.tier a.generation ::
    if a.evicted then [.evicted a.generation] else []

def noticesOf (history : List Admission) : List Notice :=
  history.flatMap Admission.notices

def Increasing (history : List Admission) : Prop :=
  history.Pairwise fun a b => a.generation < b.generation

def current (history : List Admission) : Option (Tier × Nat) :=
  match history.getLast? with
  | none => none
  | some newest =>
    if newest.evicted then none else some (newest.tier, newest.generation)

theorem admitted_mem_noticesOf {history : List Admission} :
    .admitted tier generation ∈ noticesOf history <->
      exists a, a ∈ history ∧ a.tier = tier ∧ a.generation = generation := by
  unfold noticesOf
  rw [List.mem_flatMap]
  constructor
  · rintro ⟨a, ha, hmem⟩
    refine ⟨a, ha, ?_⟩
    cases hevicted : a.evicted <;>
      simp [Admission.notices, hevicted] at hmem <;>
      exact ⟨hmem.1.symm, hmem.2.symm⟩
  · rintro ⟨a, ha, rfl, rfl⟩
    exact ⟨a, ha, List.mem_cons_self⟩

theorem evicted_mem_noticesOf {history : List Admission} :
    .evicted generation ∈ noticesOf history <->
      exists a, a ∈ history ∧ a.evicted = true ∧
        a.generation = generation := by
  unfold noticesOf
  rw [List.mem_flatMap]
  constructor
  · rintro ⟨a, ha, hmem⟩
    refine ⟨a, ha, ?_⟩
    cases hevicted : a.evicted with
    | false => simp [Admission.notices, hevicted] at hmem
    | true =>
      simp [Admission.notices, hevicted] at hmem
      exact ⟨rfl, hmem.symm⟩
  · rintro ⟨a, ha, hevicted, rfl⟩
    exact ⟨a, ha, by simp [Admission.notices, hevicted]⟩

section History

variable {history : List Admission} {newest : Admission}

theorem Increasing.le_newest (h : Increasing history)
    (hnewest : history.getLast? = some newest) {a : Admission}
    (ha : a ∈ history) : a = newest ∨ a.generation < newest.generation := by
  rcases List.getLast?_eq_some_iff.mp hnewest with ⟨front, hsplit⟩
  unfold Increasing at h
  rw [hsplit] at h ha
  rcases List.mem_append.mp ha with hfront | hlast
  · right
    exact (List.pairwise_append.mp h).2.2 a hfront newest
      (List.mem_singleton_self _)
  · left
    exact List.mem_singleton.mp hlast

theorem Increasing.live_newest (h : Increasing history)
    (hheard : heard.Perm (noticesOf history))
    (hnewest : history.getLast? = some newest)
    (hkept : newest.evicted = false) :
    Notice.Live heard newest.tier newest.generation := by
  have hmem : .admitted newest.tier newest.generation ∈ heard := by
    rw [hheard.mem_iff, admitted_mem_noticesOf]
    exact ⟨newest, List.mem_of_getLast? hnewest, rfl, rfl⟩
  rcases List.append_of_mem hmem with ⟨front, back, hsplit⟩
  refine ⟨front, back, hsplit, ?_⟩
  intro g hg
  have hevicted : .evicted g ∈ noticesOf history := by
    rw [← hheard.mem_iff, hsplit]
    simp [hg]
  rcases evicted_mem_noticesOf.mp hevicted with ⟨a, ha, hflag, rfl⟩
  rcases h.le_newest hnewest ha with rfl | hlt
  · rw [hkept] at hflag
    cases hflag
  · exact hlt

theorem live_mem_history (hheard : heard.Perm (noticesOf history))
    (hlive : Notice.Live heard tier generation) :
    exists a, a ∈ history ∧ a.tier = tier ∧ a.generation = generation := by
  rcases hlive with ⟨front, back, hsplit, _⟩
  rw [← admitted_mem_noticesOf, ← hheard.mem_iff, hsplit]
  simp

/-- Every admission that was heard was evicted by a later message. -/
def EvictedLater (heard : List Notice) : Prop :=
  forall front tier generation back,
    heard = front ++ .admitted tier generation :: back ->
      exists g, .evicted g ∈ back ∧ generation ≤ g

theorem evictedLater_iff :
    EvictedLater heard <->
      forall tier generation, ¬ Notice.Live heard tier generation := by
  constructor
  · rintro hlater tier generation ⟨front, back, hsplit, hnone⟩
    rcases hlater front tier generation back hsplit with ⟨g, hg, hle⟩
    have hlt := hnone g hg
    lia
  · intro hdead front tier generation back hsplit
    by_contra hnone
    apply hdead tier generation
    refine ⟨front, back, hsplit, ?_⟩
    intro g hg
    apply Nat.lt_of_not_le
    intro hle
    exact hnone ⟨g, hg, hle⟩

/-- The fold of a holder's messages ends in what its history says exactly when
its newest admission was not evicted, or no admission arrived after the last
message that evicts it. -/
theorem foldl_eq_current_iff (h : Increasing history)
    (hheard : heard.Perm (noticesOf history)) :
    heard.foldl Notice.fold none = current history <->
      ((exists newest, history.getLast? = some newest ∧
          newest.evicted = true) -> EvictedLater heard) := by
  have hrepresents := Notice.represents_foldl heard
  cases hlast : history.getLast? with
  | none =>
    have hnil : history = [] := List.getLast?_eq_none_iff.mp hlast
    subst hnil
    have hnone : heard = [] := List.perm_nil.mp hheard
    subst hnone
    constructor
    · rintro _ ⟨newest, hnewest, _⟩
      cases hnewest
    · intro _
      rfl
  | some newest =>
    unfold current
    rw [hlast]
    dsimp only
    cases hevicted : newest.evicted with
    | true =>
      rw [if_pos rfl]
      constructor
      · intro hfold _
        exact evictedLater_iff.mpr (hrepresents.absent hfold)
      · intro hlater
        have hdead := evictedLater_iff.mp (hlater ⟨newest, rfl, hevicted⟩)
        cases hfold : heard.foldl Notice.fold none with
        | none => rfl
        | some existing =>
          rcases existing with ⟨tier, generation⟩
          have hlive := (hrepresents.present tier generation hfold).left
          exact absurd hlive (hdead tier generation)
    | false =>
      rw [if_neg (by simp)]
      have hlive := h.live_newest hheard hlast hevicted
      constructor
      · rintro _ ⟨other, hother, hflag⟩
        cases hother
        rw [hevicted] at hflag
        cases hflag
      · intro _
        cases hfold : heard.foldl Notice.fold none with
        | none => exact absurd hlive (hrepresents.absent hfold _ _)
        | some existing =>
          rcases existing with ⟨tier, generation⟩
          rcases hrepresents.present tier generation hfold with
            ⟨hheld, hmax⟩
          have hle := hmax _ _ hlive
          rcases live_mem_history hheard hheld with ⟨a, ha, rfl, rfl⟩
          rcases h.le_newest hlast ha with rfl | hlt
          · rfl
          · lia

end History

/-!
## The directory
-/

namespace Directory

variable {key node : Type} [DecidableEq key] [DecidableEq node]

def announce (dir : Directory key node) (a : Announcement key node) :
    Directory key node :=
  match a.notice with
  | .admitted tier generation =>
    dir.admitHolder a.chunkKey a.node tier generation
  | .evicted generation => dir.evict a.chunkKey a.node generation

def announceAll (dir : Directory key node)
    (arrived : List (Announcement key node)) : Directory key node :=
  arrived.foldl announce dir

def listed (dir : Directory key node) (chunkKey : key) (n : node) :
    Option (Tier × Nat) :=
  (dir.lookup chunkKey).bind fun set =>
    (set.holders.find? fun holder => holder.node = n).map fun holder =>
      (holder.tier, holder.generation)

/-- The key's entry lists fewer holders than the cap and is not widely
held. -/
def BelowCap (dir : Directory key node) (chunkKey : key) : Prop :=
  (dir.entryOf chunkKey).widelyHeld = false ∧
    (dir.entryOf chunkKey).holders.entries.length < dir.maxSharersTracked

theorem find_sharer (holders : List (Sigma fun _ : node => Tier × Nat))
    (n : node) :
    ((holders.map fun holder : Sigma fun _ : node => Tier × Nat =>
        ({ node := holder.1, tier := holder.2.1, generation := holder.2.2 } :
          Holder node)).find? fun holder => holder.node = n).map
        (fun holder => (holder.tier, holder.generation)) =
      List.dlookup n holders := by
  induction holders with
  | nil => rfl
  | cons holder rest ih =>
    rcases holder with ⟨m, tier, generation⟩
    by_cases hm : m = n
    · subst hm
      simp
    · rw [List.map_cons, List.find?_cons_of_neg (by simpa using hm), ih,
        List.dlookup_cons_ne _ _ (fun heq => hm heq.symm)]

theorem listed_eq (dir : Directory key node) (chunkKey : key) (n : node) :
    dir.listed chunkKey n = (dir.entryOf chunkKey).holders.lookup n := by
  unfold listed lookup entryOf
  cases dir.entries.lookup chunkKey with
  | none => rfl
  | some entry => exact find_sharer entry.holders.entries n

theorem entryOf_evict_ne (dir : Directory key node) {chunkKey other : key}
    (hne : other ≠ chunkKey) (n : node) (generation : Nat) :
    (dir.evict chunkKey n generation).entryOf other = dir.entryOf other := by
  unfold evict
  split
  · rfl
  · dsimp only
    split
    · simp [entryOf, AList.lookup_erase_ne hne]
    · simp [entryOf, AList.lookup_insert_ne hne]

theorem lookup_entryOf_evict (dir : Directory key node) (chunkKey : key)
    (m n : node) (generation : Nat) :
    ((dir.evict chunkKey m generation).entryOf chunkKey).holders.lookup n =
      ((dir.entryOf chunkKey).evict m generation).holders.lookup n := by
  unfold evict entryOf
  cases hentry : dir.entries.lookup chunkKey with
  | none =>
    simp [hentry, Entry.evict, Entry.empty]
  | some entry =>
    simp only [Option.getD_some]
    split
    · rename_i hdropped
      have hnil : (entry.evict m generation).holders.entries = [] := by
        simp only [Bool.and_eq_true, List.isEmpty_iff] at hdropped
        exact hdropped.1
      have hnone : (entry.evict m generation).holders.lookup n = none := by
        unfold AList.lookup
        rw [hnil]
        rfl
      rw [hnone]
      simp [Entry.empty]
    · simp

variable {dir : Directory key node} {chunkKey : key} {n : node}

theorem listed_announce_same (hbelow : dir.BelowCap chunkKey)
    (notice : Notice) :
    (dir.announce ⟨chunkKey, n, notice⟩).listed chunkKey n =
      Notice.fold (dir.listed chunkKey n) notice := by
  rw [listed_eq, listed_eq]
  cases notice with
  | admitted tier generation =>
    show ((dir.admitHolder chunkKey n tier generation).entryOf
      chunkKey).holders.lookup n = _
    have hfits : ¬ dir.maxSharersTracked ≤
        (dir.entryOf chunkKey).holders.entries.length :=
      Nat.not_le.mpr hbelow.right
    rw [entryOf_admitHolder]
    unfold Entry.admitHolder Notice.fold
    cases hlookup : (dir.entryOf chunkKey).holders.lookup n with
    | none => simp [hbelow.left, hfits]
    | some existing =>
      dsimp only
      split
      · simp
      · exact hlookup
  | evicted generation =>
    show ((dir.evict chunkKey n generation).entryOf
      chunkKey).holders.lookup n = _
    rw [lookup_entryOf_evict]
    unfold Entry.evict Notice.fold
    cases hlookup : (dir.entryOf chunkKey).holders.lookup n with
    | none => simp [hlookup]
    | some existing =>
      dsimp only
      split
      · simp
      · exact hlookup

theorem listed_announce_other {a : Announcement key node}
    (hother : ¬ (a.chunkKey = chunkKey ∧ a.node = n)) :
    (dir.announce a).listed chunkKey n = dir.listed chunkKey n := by
  rcases a with ⟨k, m, notice⟩
  rw [listed_eq, listed_eq]
  by_cases hkey : chunkKey = k
  · subst hkey
    have hne : n ≠ m := fun heq => hother ⟨rfl, heq.symm⟩
    cases notice with
    | admitted tier generation =>
      show ((dir.admitHolder chunkKey m tier generation).entryOf
        chunkKey).holders.lookup n = _
      rw [entryOf_admitHolder]
      unfold Entry.admitHolder
      split
      · split
        · exact AList.lookup_insert_ne hne
        · rfl
      · split
        · rfl
        · exact AList.lookup_insert_ne hne
    | evicted generation =>
      show ((dir.evict chunkKey m generation).entryOf
        chunkKey).holders.lookup n = _
      rw [lookup_entryOf_evict]
      unfold Entry.evict
      split
      · split
        · exact AList.lookup_erase_ne hne
        · rfl
      · rfl
  · cases notice with
    | admitted tier generation =>
      show ((dir.admitHolder k m tier generation).entryOf
        chunkKey).holders.lookup n = _
      rw [entryOf_admitHolder_ne dir hkey]
    | evicted generation =>
      show ((dir.evict k m generation).entryOf chunkKey).holders.lookup n = _
      rw [entryOf_evict_ne dir hkey]

def heardFrom (chunkKey : key) (n : node)
    (arrived : List (Announcement key node)) : List Notice :=
  (arrived.filter fun a => a.chunkKey = chunkKey ∧ a.node = n).map
    Announcement.notice

theorem listed_announceAll {arrived : List (Announcement key node)}
    (hbelow : forall front back, arrived = front ++ back ->
      (dir.announceAll front).BelowCap chunkKey) :
    (dir.announceAll arrived).listed chunkKey n =
      (heardFrom chunkKey n arrived).foldl Notice.fold
        (dir.listed chunkKey n) := by
  induction arrived generalizing dir with
  | nil => rfl
  | cons a rest ih =>
    have hrest : forall front back, rest = front ++ back ->
        ((dir.announce a).announceAll front).BelowCap chunkKey := by
      intro front back hsplit
      exact hbelow (a :: front) back (congrArg (List.cons a) hsplit)
    have hstep := ih hrest
    change (dir.announceAll (a :: rest)).listed chunkKey n = _ at hstep
    rw [hstep]
    unfold heardFrom
    by_cases hsame : a.chunkKey = chunkKey ∧ a.node = n
    · rw [List.filter_cons_of_pos (by simpa using hsame), List.map_cons,
        List.foldl_cons]
      rcases a with ⟨k, m, notice⟩
      rcases hsame with ⟨rfl, rfl⟩
      have hhere : dir.BelowCap k := hbelow [] _ rfl
      exact congrArg (fun registered => List.foldl Notice.fold registered _)
        (listed_announce_same hhere notice)
    · rw [List.filter_cons_of_neg (by simpa using hsame),
        listed_announce_other hsame]

/-- Whatever else arrives in between, a holder that was not listed ends up
listed as its history says exactly when its newest admission was not evicted,
or none of its admissions arrived after the last message that evicts it. -/
theorem listed_as_history_iff (history : List Admission)
    {arrived : List (Announcement key node)}
    (hfresh : dir.listed chunkKey n = none) (hincreasing : Increasing history)
    (hheard : (heardFrom chunkKey n arrived).Perm (noticesOf history))
    (hbelow : forall front back, arrived = front ++ back ->
      (dir.announceAll front).BelowCap chunkKey) :
    (dir.announceAll arrived).listed chunkKey n = current history <->
      ((exists newest, history.getLast? = some newest ∧
          newest.evicted = true) ->
        EvictedLater (heardFrom chunkKey n arrived)) := by
  rw [listed_announceAll hbelow, hfresh]
  exact foldl_eq_current_iff hincreasing hheard

instance (dir : Directory key node) (chunkKey : key) :
    Decidable (dir.BelowCap chunkKey) :=
  inferInstanceAs (Decidable (_ ∧ _))

def overtaken : List (Announcement String String) :=
  [⟨"k", "a", .admitted .dram 2⟩, ⟨"k", "b", .admitted .nvme 7⟩,
    ⟨"k", "a", .evicted 1⟩, ⟨"k", "a", .admitted .nvme 1⟩]

theorem listed_as_history_overtaken :
    ((Directory.new 16).announceAll overtaken).listed "k" "a" =
      some (.dram, 2) := by
  apply (listed_as_history_iff [⟨.nvme, 1, true⟩, ⟨.dram, 2, false⟩]
    rfl ?_ ?_ ?_).mpr
  · rintro ⟨newest, hnewest, hevicted⟩
    cases hnewest
    cases hevicted
  · simp [Increasing]
  · decide
  · intro front back hsplit
    have hinits : forall front, front ∈ overtaken.inits ->
        ((Directory.new 16).announceAll front).BelowCap "k" := by
      decide
    exact hinits front ((List.mem_inits front overtaken).mpr ⟨back, hsplit.symm⟩)

/-!
## An admission that arrives after its own eviction
-/

def evictedFirst : List (Announcement String String) :=
  [⟨"k", "a", .evicted 1⟩, ⟨"k", "a", .admitted .dram 1⟩]

theorem evictedFirst_listed :
    (heardFrom "k" "a" evictedFirst).Perm (noticesOf [⟨.dram, 1, true⟩]) ∧
      (forall front, front ∈ evictedFirst.inits ->
        ((Directory.new 16).announceAll front).BelowCap "k") ∧
      current [⟨.dram, 1, true⟩] = none ∧
      ((Directory.new 16).announceAll evictedFirst).listed "k" "a" =
        some (.dram, 1) := by
  decide

end Directory

end Cluster
end Pacer
