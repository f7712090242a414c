import Mathlib.Algebra.Ring.Nat
import Mathlib.Data.List.Induction
import Pacer.Daemon.StagingArea

/-!
# The accounts of the staging area

Any sequence of offers, releases, commits, discards and reaps.  The byte total of
the area is the sum of the bodies it holds, it stays within the budget, and the
peak is the highest total there was; a commit hands out the bodies that were
staged first, and leaves the other uploads alone.

The total is a machine word.  An offer adds to it before it compares with the
budget, so all this is about sequences in which no such addition wraps, which a
budget of at most `2 ^ 63` bytes ensures.
-/

namespace Pacer
namespace Daemon

open Foundation

namespace StagingArea

variable {key : Type} [DecidableEq key]

def tryStageAtWord (area : StagingArea key) (chunkKey : key)
    (uploadId : String) (body : Bytes) (now : Nat) :
    StageOutcome × StagingArea key :=
  if area.budgetBytes < body.length then
    (.refused (.oversizedForBudget body.length area.budgetBytes), area)
  else
    match area.pending.lookup chunkKey with
    | some existing =>
      if existing.uploadId = uploadId then (.alreadyStaged, area)
      else (.refused .racingUpload, area)
    | none =>
      let total := (area.stagedBytes + body.length) % 2 ^ 64
      if area.budgetBytes < total then
        (.refused (.budgetExhausted area.stagedBytes area.budgetBytes), area)
      else
        (.staged, { area with
          pending := area.pending.insert chunkKey
            { body := body, uploadId := uploadId, stagedAt := now },
          stagedBytes := total,
          stagedBytesPeak := max area.stagedBytesPeak total })

inductive Op (key : Type) where
  | tryStageAt (chunkKey : key) (uploadId : String) (body : Bytes) (now : Nat)
  | release (chunkKey : key)
  | commit (uploadId : String)
  | discard (uploadId : String)
  | reapAt (now : Nat)
deriving DecidableEq, Repr

def apply (area : StagingArea key) : Op key -> StagingArea key
  | .tryStageAt chunkKey uploadId body now =>
    (area.tryStageAtWord chunkKey uploadId body now).2
  | .release chunkKey => (area.release chunkKey).2
  | .commit uploadId => (area.commit uploadId).2
  | .discard uploadId => (area.discard uploadId).2
  | .reapAt now => (area.reapAt now).2

def applyAll (area : StagingArea key) (ops : List (Op key)) :
    StagingArea key :=
  ops.foldl apply area

def AddsUp (area : StagingArea key) : Op key -> Prop
  | .tryStageAt chunkKey _ body _ =>
    body.length ≤ area.budgetBytes ->
      area.pending.lookup chunkKey = none ->
        area.stagedBytes + body.length < 2 ^ 64
  | _ => True

/-- No addition of a sequence of calls wraps. -/
def AddUp (area : StagingArea key) (ops : List (Op key)) : Prop :=
  forall front op back, ops = front ++ op :: back ->
    (area.applyAll front).AddsUp op

def totalBytes (area : StagingArea key) : Nat :=
  (area.pending.entries.map fun entry => entry.2.body.length).sum

variable {area : StagingArea key} {body : Bytes}

variable {ops : List (Op key)} {uploadId : String} {chunkKey : key}

theorem tryStageAtWord_eq {now : Nat}
    (h : area.AddsUp (.tryStageAt chunkKey uploadId body now)) :
    area.tryStageAtWord chunkKey uploadId body now =
      area.tryStageAt chunkKey uploadId body now := by
  unfold tryStageAtWord tryStageAt
  by_cases hsize : area.budgetBytes < body.length
  · rw [if_pos hsize, if_pos hsize]
  · rw [if_neg hsize, if_neg hsize]
    cases hlookup : area.pending.lookup chunkKey with
    | some existing => rfl
    | none =>
      dsimp only
      rw [Nat.mod_eq_of_lt (h (Nat.not_lt.mp hsize) hlookup)]

/-!
## Removing entries
-/

theorem remove_cases (area : StagingArea key) (chunkKey : key) :
    area.pending.lookup chunkKey = none ∧
        area.remove chunkKey = (none, area) ∨
      exists staged, area.pending.lookup chunkKey = some staged ∧
        area.remove chunkKey = (some staged, { area with
          pending := area.pending.erase chunkKey,
          stagedBytes := area.stagedBytes - staged.body.length }) := by
  unfold remove
  cases hlookup : area.pending.lookup chunkKey with
  | none => exact Or.inl ⟨rfl, rfl⟩
  | some staged => exact Or.inr ⟨staged, rfl, rfl⟩

theorem removeAll_cons (area : StagingArea key) (chunkKey : key)
    (rest : List key) :
    area.removeAll (chunkKey :: rest) =
      (((area.remove chunkKey).1.map fun staged => (chunkKey, staged)).toList ++
          ((area.remove chunkKey).2.removeAll rest).1,
        ((area.remove chunkKey).2.removeAll rest).2) := by
  conv => lhs; unfold removeAll
  split
  · rename_i hstep
    rw [hstep]
    rfl
  · rename_i hstep
    rw [hstep]
    rfl

variable {staged : Staged}

theorem totalBytes_erase (h : area.pending.lookup chunkKey = some staged) :
    area.totalBytes = staged.body.length +
      ((area.pending.erase chunkKey).entries.map fun entry =>
        entry.2.body.length).sum := by
  have hkeys : chunkKey ∈ area.pending := by
    rw [← AList.lookup_isSome, h]
    rfl
  rcases List.exists_of_kerase hkeys with
    ⟨found, front, back, _, hentries, herase⟩
  have hfound : found = staged := by
    have hmem : (⟨chunkKey, found⟩ : Sigma fun _ : key => Staged) ∈
        area.pending.entries := by
      rw [hentries]
      simp
    have hlookup := AList.mem_lookup_iff.mpr hmem
    rw [h] at hlookup
    exact (Option.some.inj hlookup).symm
  unfold totalBytes
  change _ = staged.body.length +
    ((area.pending.entries.kerase chunkKey).map fun entry =>
      entry.2.body.length).sum
  rw [herase, hentries, hfound]
  simp only [List.map_append, List.map_cons, List.sum_append, List.sum_cons]
  lia

/-!
## What comes out
-/

theorem fst_removeAll {keys : List key} (hnodup : keys.Nodup)
    (hheld : forall k, k ∈ keys -> (area.pending.lookup k).isSome) :
    (area.removeAll keys).1.map Prod.fst = keys := by
  induction keys generalizing area with
  | nil => rfl
  | cons chunkKey rest ih =>
    rcases List.nodup_cons.mp hnodup with ⟨hfresh, hrest⟩
    rcases remove_cases area chunkKey with ⟨hnone, _⟩ | ⟨staged, _, hstep⟩
    · have hsome := hheld chunkKey List.mem_cons_self
      rw [hnone] at hsome
      cases hsome
    have hlater : forall k, k ∈ rest ->
        ((area.remove chunkKey).2.pending.lookup k).isSome := by
      intro k hk
      have hne : k ≠ chunkKey := fun heq => hfresh (heq ▸ hk)
      rw [lookup_remove, if_neg hne]
      exact hheld k (List.mem_cons_of_mem chunkKey hk)
    rw [removeAll_cons, List.map_append, ih hrest hlater, hstep]
    rfl

omit [DecidableEq key] in
theorem nodup_keysOf (area : StagingArea key) (uploadId : String) :
    (area.keysOf uploadId).Nodup :=
  (List.filter_sublist.map Sigma.fst).nodup area.pending.nodupKeys

theorem fst_removeAll_keysOf (area : StagingArea key) (uploadId : String) :
    (area.removeAll (area.keysOf uploadId)).1.map Prod.fst =
      area.keysOf uploadId := by
  apply fst_removeAll (nodup_keysOf area uploadId)
  intro k hk
  rcases mem_keysOf.mp hk with ⟨staged, hstaged, _⟩
  rw [hstaged]
  rfl

theorem mem_commit_iff {k : key} :
    (k, body) ∈ (area.commit uploadId).1 <->
      exists staged, area.pending.lookup k = some staged ∧
        staged.uploadId = uploadId ∧ staged.body = body := by
  constructor
  · exact mem_commit
  · rintro ⟨staged, hstaged, hupload, hbody⟩
    have hkey : k ∈ (area.removeAll (area.keysOf uploadId)).1.map Prod.fst := by
      rw [fst_removeAll_keysOf]
      exact mem_keysOf.mpr ⟨staged, hstaged, hupload⟩
    rcases List.mem_map.mp hkey with ⟨⟨found, entry⟩, hentry, rfl⟩
    have hfound := (mem_removeAll hentry).right
    rw [hstaged] at hfound
    cases hfound
    rw [← hbody]
    exact List.mem_map_of_mem hentry

theorem nodup_commit (area : StagingArea key) (uploadId : String) :
    ((area.commit uploadId).1.map Prod.fst).Nodup := by
  unfold commit
  rw [List.map_map]
  have hkeys := nodup_keysOf area uploadId
  rw [← fst_removeAll_keysOf] at hkeys
  exact hkeys

theorem discard_count (area : StagingArea key) (uploadId : String) :
    (area.discard uploadId).1 = (area.keysOf uploadId).length := by
  have hkeys := congrArg List.length (fst_removeAll_keysOf area uploadId)
  rw [List.length_map] at hkeys
  exact hkeys

/-!
## The total
-/

structure Exact (area : StagingArea key) : Prop where
  bytes : area.stagedBytes = area.totalBytes
  fits : area.stagedBytes ≤ area.budgetBytes

theorem Exact.length_le (h : area.Exact) {chunkKey : key}
    (hstaged : area.pending.lookup chunkKey = some staged) :
    staged.body.length ≤ area.stagedBytes := by
  have htotal := totalBytes_erase hstaged
  have hbytes := h.bytes
  lia

structure Sheds (area after : StagingArea key) : Prop where
  accounts : after.Exact
  budget : after.budgetBytes = area.budgetBytes
  less : after.stagedBytes ≤ area.stagedBytes
  peak : after.stagedBytesPeak = area.stagedBytesPeak

omit [DecidableEq key] in
theorem Exact.sheds_refl (h : area.Exact) :
    Sheds area area :=
  ⟨h, rfl, Nat.le_refl _, rfl⟩

omit [DecidableEq key] in
theorem Sheds.trans {a b c : StagingArea key} (hab : Sheds a b)
    (hbc : Sheds b c) : Sheds a c :=
  ⟨hbc.accounts, hbc.budget.trans hab.budget, Nat.le_trans hbc.less hab.less,
    hbc.peak.trans hab.peak⟩

theorem Exact.remove (h : area.Exact) (chunkKey : key)
    : Sheds area (area.remove chunkKey).2 := by
  rcases remove_cases area chunkKey with ⟨_, hstep⟩ | ⟨staged, hstaged, hstep⟩
  · rw [hstep]
    exact h.sheds_refl
  · have htotal := totalBytes_erase hstaged
    have hbytes := h.bytes
    have hfits := h.fits
    rw [hstep]
    refine ⟨⟨?_, ?_⟩, rfl, Nat.sub_le _ _, rfl⟩
    · change area.stagedBytes - staged.body.length =
        ((area.pending.erase chunkKey).entries.map fun entry =>
          entry.2.body.length).sum
      lia
    · change area.stagedBytes - staged.body.length ≤ area.budgetBytes
      lia

theorem Exact.removeAll (h : area.Exact) (keys : List key)
    : Sheds area (area.removeAll keys).2 := by
  induction keys generalizing area with
  | nil => exact h.sheds_refl
  | cons chunkKey rest ih =>
    rw [removeAll_cons]
    have hfirst := h.remove chunkKey
    exact hfirst.trans (ih hfirst.accounts)

theorem Exact.stage (h : area.Exact) (chunkKey : key) (uploadId : String)
    (body : Bytes) (now : Nat) :
    (area.tryStageAt chunkKey uploadId body now).2.Exact ∧
      (area.tryStageAt chunkKey uploadId body now).2.budgetBytes =
        area.budgetBytes ∧
      ((area.tryStageAt chunkKey uploadId body now).2 = area ∨
        (area.tryStageAt chunkKey uploadId body now).2.stagedBytesPeak =
          max area.stagedBytesPeak
            (area.tryStageAt chunkKey uploadId body now).2.stagedBytes) := by
  unfold tryStageAt
  split
  · exact ⟨h, rfl, Or.inl rfl⟩
  · split
    · split
      · exact ⟨h, rfl, Or.inl rfl⟩
      · exact ⟨h, rfl, Or.inl rfl⟩
    · rename_i hnone
      split
      · exact ⟨h, rfl, Or.inl rfl⟩
      · rename_i hfits
        refine ⟨⟨?_, Nat.not_lt.mp hfits⟩, rfl, Or.inr rfl⟩
        have hbytes := h.bytes
        unfold totalBytes at hbytes ⊢
        dsimp only
        rw [AList.entries_insert_of_notMem (AList.lookup_eq_none.mp hnone),
          List.map_cons, List.sum_cons, hbytes]
        exact Nat.add_comm _ _

theorem Exact.apply (h : area.Exact)
    (hpeak : area.stagedBytes ≤ area.stagedBytesPeak) {op : Op key}
    (hop : area.AddsUp op) :
    (area.apply op).Exact ∧ (area.apply op).budgetBytes = area.budgetBytes ∧
      (area.apply op).stagedBytesPeak =
        max area.stagedBytesPeak (area.apply op).stagedBytes := by
  -- Whatever only takes entries away leaves the peak.
  have hsheds : forall after : StagingArea key, Sheds area after ->
      after.Exact ∧ after.budgetBytes = area.budgetBytes ∧
        after.stagedBytesPeak = max area.stagedBytesPeak after.stagedBytes := by
    intro after hafter
    have hless := hafter.less
    refine ⟨hafter.accounts, hafter.budget, ?_⟩
    rw [hafter.peak]
    lia
  cases op with
  | tryStageAt chunkKey uploadId body now =>
    change (area.tryStageAtWord chunkKey uploadId body now).2.Exact ∧
      (area.tryStageAtWord chunkKey uploadId body now).2.budgetBytes = _ ∧
      (area.tryStageAtWord chunkKey uploadId body now).2.stagedBytesPeak =
        max _ (area.tryStageAtWord chunkKey uploadId body now).2.stagedBytes
    rw [tryStageAtWord_eq hop]
    rcases h.stage chunkKey uploadId body now with
      ⟨hexact, hbudget, hsame | hstaged⟩
    · rw [hsame]
      exact hsheds area h.sheds_refl
    · exact ⟨hexact, hbudget, hstaged⟩
  | release chunkKey => exact hsheds _ (h.remove chunkKey)
  | commit uploadId | discard uploadId =>
    exact hsheds _ (h.removeAll (area.keysOf uploadId))
  | reapAt now => exact hsheds _ (h.removeAll (area.expired now))

/-!
## Histories
-/

theorem applyAll_concat (area : StagingArea key) (ops : List (Op key))
    (op : Op key) : area.applyAll (ops ++ [op]) = (area.applyAll ops).apply op :=
  List.foldl_append

theorem AddUp.of_concat {op : Op key} (h : area.AddUp (ops ++ [op])) :
    area.AddUp ops ∧ (area.applyAll ops).AddsUp op := by
  constructor
  · intro front first back hsplit
    apply h front first (back ++ [op])
    rw [hsplit, List.append_assoc, List.cons_append]
  · exact h ops op [] rfl

structure Peaks (area : StagingArea key) (ops : List (Op key)) : Prop where
  above : forall front back, ops = front ++ back ->
    (area.applyAll front).stagedBytes ≤ (area.applyAll ops).stagedBytesPeak
  reached : exists front back, ops = front ++ back ∧
    (area.applyAll front).stagedBytes = (area.applyAll ops).stagedBytesPeak

theorem Peaks.concat (h : area.Peaks ops) {op : Op key}
    (hop : ((area.applyAll ops).apply op).stagedBytesPeak =
      max (area.applyAll ops).stagedBytesPeak
        ((area.applyAll ops).apply op).stagedBytes) :
    area.Peaks (ops ++ [op]) := by
  rw [← applyAll_concat] at hop
  constructor
  · intro front back hsplit
    rcases List.prefix_concat_iff.mp ⟨back, hsplit.symm⟩ with
      rfl | ⟨back', hfront⟩
    · rw [hop]
      exact Nat.le_max_right _ _
    · have hle := h.above front back' hfront.symm
      rw [hop]
      exact Nat.le_trans hle (Nat.le_max_left _ _)
  · rcases Nat.le_total (area.applyAll (ops ++ [op])).stagedBytes
      (area.applyAll ops).stagedBytesPeak with hle | hge
    · rcases h.reached with ⟨front, back, hsplit, hreached⟩
      refine ⟨front, back ++ [op], ?_, ?_⟩
      · rw [hsplit, List.append_assoc]
      · rw [hop, Nat.max_eq_left hle]
        exact hreached
    · refine ⟨ops ++ [op], [], (List.append_nil _).symm, ?_⟩
      rw [hop, Nat.max_eq_right hge]

theorem accounts_applyAll (h : area.Exact)
    (hpeak : area.stagedBytes = area.stagedBytesPeak) {ops : List (Op key)}
    (hops : area.AddUp ops) :
    (area.applyAll ops).Exact ∧
      (area.applyAll ops).budgetBytes = area.budgetBytes ∧
      area.Peaks ops := by
  induction ops using List.reverseRecOn with
  | nil =>
    refine ⟨h, rfl, ?_, [], [], rfl, hpeak⟩
    intro front back hsplit
    rw [(List.append_eq_nil_iff.mp hsplit.symm).left]
    exact Nat.le_of_eq hpeak
  | append_singleton ops op ih =>
    rcases hops.of_concat with ⟨hbefore, hop⟩
    rcases ih hbefore with ⟨hexact, hbudget, hpeaks⟩
    have hbelow := hpeaks.above ops [] (List.append_nil _).symm
    rcases hexact.apply hbelow hop with ⟨hexact', hbudget', hpeak'⟩
    rw [applyAll_concat]
    exact ⟨hexact', hbudget'.trans hbudget, hpeaks.concat hpeak'⟩

theorem lookup_apply {op : Op key} {k : key} (hop : area.AddsUp op)
    (h : (area.apply op).pending.lookup k = some staged) :
    area.pending.lookup k = some staged ∨
      area.pending.lookup k = none ∧
        op = .tryStageAt k staged.uploadId staged.body staged.stagedAt := by
  cases op with
  | tryStageAt chunkKey uploadId body now =>
    change (area.tryStageAtWord chunkKey uploadId body now).2.pending.lookup
      k = some staged at h
    rw [tryStageAtWord_eq hop] at h
    rcases lookup_tryStageAt h with hsame | ⟨hkey, hnew⟩
    · exact Or.inl hsame
    · cases hbefore : area.pending.lookup k with
      | none =>
        right
        rw [hkey, hnew]
        exact ⟨rfl, rfl⟩
      | some existing =>
        -- The key is taken, so the offer changes nothing.
        left
        have hsame : (area.tryStageAt chunkKey uploadId body now).2 =
            area := by
          rw [hkey] at hbefore
          unfold tryStageAt
          rw [hbefore]
          dsimp only
          split
          · rfl
          · split
            · rfl
            · rfl
        rw [hsame, hbefore] at h
        exact h
  | release chunkKey => exact Or.inl (within_remove area chunkKey k staged h)
  | commit uploadId => exact Or.inl (within_commit area uploadId k staged h)
  | discard uploadId => exact Or.inl (within_discard area uploadId k staged h)
  | reapAt now => exact Or.inl (within_reapAt area now k staged h)

def StagedBy (area : StagingArea key) (ops : List (Op key)) (k : key)
    (staged : Staged) : Prop :=
  exists before after, ops = before ++
      .tryStageAt k staged.uploadId staged.body staged.stagedAt :: after ∧
    (area.applyAll before).pending.lookup k = none ∧
    forall front back, after = front ++ back ->
      (area.applyAll (before ++
        .tryStageAt k staged.uploadId staged.body staged.stagedAt ::
          front)).pending.lookup k = some staged

theorem stagedBy_of_lookup (hops : area.AddUp ops) {k : key}
    (hfresh : area.pending.lookup k = none)
    (h : (area.applyAll ops).pending.lookup k = some staged) :
    area.StagedBy ops k staged := by
  induction ops using List.reverseRecOn with
  | nil =>
    change area.pending.lookup k = some staged at h
    rw [hfresh] at h
    cases h
  | append_singleton ops op ih =>
    rcases hops.of_concat with ⟨hbefore, hop⟩
    have hlast := h
    rw [applyAll_concat] at h
    rcases lookup_apply hop h with hsame | ⟨hnone, hstage⟩
    · rcases ih hbefore hsame with ⟨before, after, hsplit, hnone, hsince⟩
      refine ⟨before, after ++ [op], ?_, hnone, ?_⟩
      · rw [hsplit, List.append_assoc, List.cons_append]
      · intro front back hafter
        rcases List.prefix_concat_iff.mp ⟨back, hafter.symm⟩ with
          rfl | ⟨back', hfront⟩
        · rw [← List.cons_append, ← List.append_assoc, ← hsplit]
          exact hlast
        · exact hsince front back' hfront.symm
    · refine ⟨ops, [], ?_, hnone, ?_⟩
      · rw [hstage]
      · intro front back hafter
        rw [(List.append_eq_nil_iff.mp hafter.symm).left, ← hstage]
        exact hlast

/-- The accounts of a staging area after any calls whose additions do not wrap:
the total is the sum of the bodies and within the budget, the peak the highest
total there was; what is removed is never larger than the total; a commit hands
out, and a discard drops, the entries of its upload with the bodies they were
staged with, and no other. -/
theorem accounting_exact (budgetBytes ttl : Nat) {ops : List (Op key)}
    (hops : (new budgetBytes ttl).AddUp ops) :
    let area := (new budgetBytes ttl).applyAll ops
    (area.stagedBytes = area.totalBytes ∧ area.stagedBytes ≤ budgetBytes) ∧
    (new budgetBytes ttl).Peaks ops ∧
    (forall keys k staged,
      (area.removeAll keys).2.pending.lookup k = some staged ->
        staged.body.length ≤ (area.removeAll keys).2.stagedBytes) ∧
    (forall k staged, area.pending.lookup k = some staged ->
      (new budgetBytes ttl).StagedBy ops k staged) ∧
    (forall uploadId,
      ((area.commit uploadId).1.map Prod.fst).Nodup ∧
      (forall k body, (k, body) ∈ (area.commit uploadId).1 <->
        exists staged, area.pending.lookup k = some staged ∧
          staged.uploadId = uploadId ∧ staged.body = body) ∧
      forall k, (area.commit uploadId).2.pending.lookup k =
        (area.pending.lookup k).filter fun staged =>
          decide (staged.uploadId ≠ uploadId)) ∧
    (forall uploadId,
      (area.discard uploadId).1 = (area.keysOf uploadId).length ∧
      (forall k, k ∈ area.keysOf uploadId <->
        exists staged, area.pending.lookup k = some staged ∧
          staged.uploadId = uploadId) ∧
      forall k, (area.discard uploadId).2.pending.lookup k =
        (area.pending.lookup k).filter fun staged =>
          decide (staged.uploadId ≠ uploadId)) := by
  intro area
  have hnew : (new budgetBytes ttl : StagingArea key).Exact :=
    ⟨rfl, Nat.zero_le _⟩
  rcases accounts_applyAll hnew rfl hops with ⟨hexact, hbudget, hpeaks⟩
  refine ⟨⟨hexact.bytes, ?_⟩, hpeaks, ?_, ?_, ?_, ?_⟩
  · have hfits := hexact.fits
    rw [hbudget] at hfits
    exact hfits
  · intro keys k staged hstaged
    exact (hexact.removeAll keys).accounts.length_le hstaged
  · intro k staged hstaged
    exact stagedBy_of_lookup hops rfl hstaged
  · intro uploadId
    exact ⟨nodup_commit area uploadId, fun _ _ => mem_commit_iff,
      lookup_removeAll_keysOf area uploadId⟩
  · intro uploadId
    exact ⟨discard_count area uploadId, fun _ => mem_keysOf,
      lookup_removeAll_keysOf area uploadId⟩

def Small : Op key -> Prop
  | .tryStageAt _ _ body _ => body.length < 2 ^ 63
  | _ => True

theorem addUp_of_small {budgetBytes : Nat} (hbudget : budgetBytes ≤ 2 ^ 63)
    (ttl : Nat) {ops : List (Op key)} (hsmall : forall op, op ∈ ops -> Small op) :
    (new budgetBytes ttl).AddUp ops := by
  induction ops using List.reverseRecOn with
  | nil =>
    intro front op back hsplit
    cases front <;> cases hsplit
  | append_singleton ops op ih =>
    have hbefore := ih fun other hother =>
      hsmall other (List.mem_append_left _ hother)
    have hnew : (new budgetBytes ttl : StagingArea key).Exact :=
      ⟨rfl, Nat.zero_le _⟩
    rcases accounts_applyAll hnew rfl hbefore with ⟨hexact, hsame, _⟩
    intro front next back hsplit
    rcases List.eq_nil_or_concat back with hnil | ⟨back', last, hback⟩
    · rw [hnil] at hsplit
      rcases List.append_inj' hsplit rfl with ⟨hfront, hop⟩
      cases hop
      rw [← hfront]
      have hfits := hexact.fits
      rw [hsame] at hfits
      cases op with
      | tryStageAt chunkKey uploadId body now =>
        intro _ _
        have hbody : body.length < 2 ^ 63 :=
          hsmall _ (List.mem_append_right _ List.mem_cons_self)
        change _ ≤ budgetBytes at hfits
        lia
      | release chunkKey | commit uploadId | discard uploadId | reapAt now =>
        trivial
    · rw [hback, List.concat_eq_append, ← List.cons_append,
        ← List.append_assoc] at hsplit
      exact hbefore front next back' (List.append_inj_left' hsplit rfl)

/-- Two uploads, a retry with other bytes and a commit: the first bytes come
out, and the other upload's chunk stays. -/
theorem accounting_exact_two_uploads :
    let ops : List (Op Nat) := [.tryStageAt 0 "u" [1, 2] 0,
      .tryStageAt 0 "u" [9] 1, .tryStageAt 1 "v" [3] 2]
    (new 8 100).AddUp ops ∧
      ((new 8 100).applyAll ops).stagedBytes =
        ((new 8 100).applyAll ops).totalBytes ∧
      (((new 8 100).applyAll ops).commit "u").1 = [(0, [1, 2])] := by
  intro ops
  have hops : (new 8 100).AddUp ops := by
    apply addUp_of_small (by decide)
    intro op hop
    simp only [ops, List.mem_cons, List.not_mem_nil, or_false] at hop
    rcases hop with rfl | rfl | rfl
    · change 2 < 2 ^ 63
      decide
    · change 1 < 2 ^ 63
      decide
    · change 1 < 2 ^ 63
      decide
  exact ⟨hops, (accounting_exact 8 100 hops).left.left, by decide +kernel⟩

/-!
## A budget past half the range
-/

theorem tryStageAtWord_fresh {now : Nat}
    (hsize : body.length ≤ area.budgetBytes)
    (hnone : area.pending.lookup chunkKey = none)
    (hfits : (area.stagedBytes + body.length) % 2 ^ 64 ≤ area.budgetBytes) :
    (area.tryStageAtWord chunkKey uploadId body now).2 = { area with
      pending := area.pending.insert chunkKey
        { body := body, uploadId := uploadId, stagedAt := now },
      stagedBytes := (area.stagedBytes + body.length) % 2 ^ 64,
      stagedBytesPeak := max area.stagedBytesPeak
        ((area.stagedBytes + body.length) % 2 ^ 64) } := by
  unfold tryStageAtWord
  rw [if_neg (Nat.not_lt.mpr hsize), hnone]
  dsimp only
  rw [if_neg (Nat.not_lt.mpr hfits)]

/-- An area with the largest budget there is, that holds `n` chunks of `sum`
bytes. -/
structure Filled (area : StagingArea Nat) (n sum : Nat) : Prop where
  budget : area.budgetBytes = 2 ^ 64 - 1
  bytes : area.stagedBytes = sum % 2 ^ 64
  total : area.totalBytes = sum
  fresh : forall k, n ≤ k -> area.pending.lookup k = none

theorem Filled.offer {area : StagingArea Nat} {n sum : Nat}
    (h : area.Filled n sum) {body : Bytes} (hsize : body.length < 2 ^ 64) :
    (area.apply (.tryStageAt n "u" body 0)).Filled (n + 1)
      (sum + body.length) := by
  have hnone := h.fresh n (Nat.le_refl n)
  have hfits : (area.stagedBytes + body.length) % 2 ^ 64 ≤
      area.budgetBytes := by
    rw [h.budget]
    have hlt := Nat.mod_lt (area.stagedBytes + body.length)
      (by decide : 2 ^ 64 > 0)
    lia
  change (area.tryStageAtWord n "u" body 0).2.Filled (n + 1) _
  rw [tryStageAtWord_fresh (by rw [h.budget]; lia) hnone hfits]
  refine ⟨h.budget, ?_, ?_, ?_⟩
  · dsimp only
    rw [h.bytes, Nat.mod_add_mod]
  · have htotal := h.total
    unfold totalBytes at htotal ⊢
    dsimp only
    rw [AList.entries_insert_of_notMem (AList.lookup_eq_none.mp hnone),
      List.map_cons, List.sum_cons, htotal]
    exact Nat.add_comm _ _
  · intro k hk
    have hne : k ≠ n := by lia
    dsimp only
    rw [AList.lookup_insert_ne hne]
    exact h.fresh k (by lia)

theorem filled_new : (new (2 ^ 64 - 1) 0 : StagingArea Nat).Filled 0 0 :=
  ⟨rfl, rfl, rfl, fun _ _ => rfl⟩

theorem filled_three (hsize : body.length < 2 ^ 64) :
    ((new (2 ^ 64 - 1) 0 : StagingArea Nat).applyAll
      [.tryStageAt 0 "u" body 0, .tryStageAt 1 "u" body 0,
        .tryStageAt 2 "u" body 0]).Filled 3
      (0 + body.length + body.length + body.length) :=
  ((filled_new.offer hsize).offer hsize).offer hsize

theorem total_wraps :
    ((new (2 ^ 64 - 1) 0 : StagingArea Nat).applyAll
        [.tryStageAt 0 "u" (List.replicate (2 ^ 63 - 1) 0) 0,
          .tryStageAt 1 "u" (List.replicate (2 ^ 63 - 1) 0) 0,
          .tryStageAt 2 "u" (List.replicate (2 ^ 63 - 1) 0) 0]).stagedBytes ≠
      ((new (2 ^ 64 - 1) 0 : StagingArea Nat).applyAll
        [.tryStageAt 0 "u" (List.replicate (2 ^ 63 - 1) 0) 0,
          .tryStageAt 1 "u" (List.replicate (2 ^ 63 - 1) 0) 0,
          .tryStageAt 2 "u" (List.replicate (2 ^ 63 - 1) 0) 0]).totalBytes := by
  have hlength : (List.replicate (2 ^ 63 - 1) (0 : UInt8)).length =
      2 ^ 63 - 1 := List.length_replicate
  have hsize : (List.replicate (2 ^ 63 - 1) (0 : UInt8)).length < 2 ^ 64 := by
    rw [hlength]
    decide
  have hfilled := filled_three hsize
  rw [hfilled.bytes, hfilled.total, hlength]
  decide

end StagingArea

end Daemon
end Pacer
