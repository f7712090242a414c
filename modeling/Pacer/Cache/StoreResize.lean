import Pacer.Cache.Provenance

/-!
# Sessions of different geometries

A directory outlives the configuration it was written under.  Each session
opens it with its own capacity and chunk size: a body's place depends on the
chunk size, an extent is cut or extended to the session's slots, and a header
entry stays where it is whatever the session.  So a header can outlive the body
it describes.

The main result says which sequences of sessions are safe: sessions of one
chunk size are not interrupted by another size, no slot is dropped and taken up
again, and a key is asked for only under the chunk size it was stored under.
-/

namespace Pacer
namespace Cache

open Foundation

/-!
## One session

The calls of one session, whatever the slots show when it begins.
-/

variable {dir : Directory} {cfg : StoreConfig} {rest : List Session}
  {ops : List Op} {op : Op}

namespace Store

theorem apply_spec {st : Store} (hbounded : st.index.Bounded cfg.slotCount)
    (op : Op) :
    (st.apply cfg op).2.index.Bounded cfg.slotCount ∧
      ((st.apply cfg op).2.dir = st.dir ∨
        exists slot key chunk, op = .put key chunk ∧ slot < cfg.slotCount ∧
          chunk.body.length ≤ cfg.chunkSize ∧ (putHeader key chunk).Fits ∧
          (st.apply cfg op).2.dir = writtenSlot cfg st.dir slot key chunk) := by
  cases op with
  | get key => exact ⟨bounded_get hbounded key, Or.inl (get_dir cfg st key)⟩
  | remove key => exact ⟨bounded_remove hbounded key, Or.inl rfl⟩
  | put key chunk =>
    change (st.put cfg key chunk).2.index.Bounded cfg.slotCount ∧
      ((st.put cfg key chunk).2.dir = st.dir ∨ _)
    rcases put_spec cfg st key chunk with
      hst | ⟨slot, index, hlen, hclaim, ⟨_, hst⟩ | ⟨hfits, hst⟩⟩
    · rw [hst]
      exact ⟨hbounded, Or.inl rfl⟩
    · rw [hst]
      have hindex := hbounded.claim hclaim
      exact ⟨hindex.left.forget hindex.right, Or.inl rfl⟩
    · rcases hbounded.claim hclaim with ⟨hindex, hslot⟩
      constructor
      · rw [hst]
        exact hindex
      · exact Or.inr ⟨slot, key, chunk, rfl, hslot, hlen, hfits,
          congrArg Store.dir hst⟩

end Store

variable {later : List (Session × List (Op × Answer))} {chunk : CachedChunk}
  {key : String} {slot : Nat}

theorem shows_writtenSlot {good : Puts}
    (hgood : forall stored, stored.body = chunk.body ->
      stored.eTag = SlotHeader.witness chunk.eTag -> good key stored)
    (hfits : (putHeader key chunk).Fits) (hlen : chunk.body.length < 2 ^ 32) :
    Shows good cfg.chunkSize (writtenSlot cfg dir slot key chunk) slot := by
  have hconsistent : Consistent (fun k c => k = key ∧ c = chunk) cfg.chunkSize
      (writtenSlot cfg dir slot key chunk) slot := by
    apply consistent_writeHeader_same ⟨rfl, rfl⟩ hfits hlen
    exact bodyBytes_writeBody_same cfg.chunkSize dir slot chunk.body
  refine hconsistent.mono ?_
  rintro k stored ⟨given, ⟨rfl, rfl⟩, hbody, heTag⟩
  exact hgood stored hbody heTag

theorem Shows.writtenSlot_of_ne {good : Puts} {slot s : Nat}
    (h : Shows good cfg.chunkSize dir s)
    (hlen : chunk.body.length ≤ cfg.chunkSize)
    (hfits : (putHeader key chunk).Fits) (hne : s ≠ slot) :
    Shows good cfg.chunkSize (writtenSlot cfg dir slot key chunk) s := by
  apply h.congr
  · exact slotHeader_writtenSlot_of_ne dir hfits hne
  · intro n hn
    exact bodyBytes_writtenSlot_of_ne dir hfits hlen hn hne

variable {chunkSize : Nat} {header : SlotHeader}

section Session

variable {good : Puts} {cfg : StoreConfig} {st : Store}

def GoodFor (good : Puts) (ops : List Op) : Prop :=
  forall key chunk, Op.put key chunk ∈ ops -> forall stored : CachedChunk,
    stored.body = chunk.body ->
    stored.eTag = SlotHeader.witness chunk.eTag -> good key stored

theorem shows_apply (hsize : cfg.chunkSize < 2 ^ 32)
    (hbounded : st.index.Bounded cfg.slotCount) (hgood : GoodFor good [op])
    (hslots : forall s, s < cfg.slotCount ->
      Shows good cfg.chunkSize st.dir s) :
    forall s, s < cfg.slotCount ->
      Shows good cfg.chunkSize (st.apply cfg op).2.dir s := by
  intro s hs
  rcases (Store.apply_spec hbounded op).right with
    hdir | ⟨slot, key, chunk, rfl, _, hlen, hfits, hdir⟩
  · rw [hdir]
    exact hslots s hs
  · rw [hdir]
    rcases eq_or_ne s slot with heq | hne
    · rw [heq]
      exact shows_writtenSlot (hgood key chunk List.mem_cons_self) hfits
        (Nat.lt_of_le_of_lt hlen hsize)
    · exact (hslots s hs).writtenSlot_of_ne hlen hfits hne

theorem GoodFor.head {rest : List Op} (h : GoodFor good (op :: rest))
    : GoodFor good [op] := by
  intro key chunk hmem
  rw [List.mem_singleton] at hmem
  exact h key chunk (hmem ▸ List.mem_cons_self)

theorem GoodFor.tail {rest : List Op} (h : GoodFor good (op :: rest))
    : GoodFor good rest :=
  fun key chunk hmem => h key chunk (List.mem_cons_of_mem op hmem)

theorem shows_after (hsize : cfg.chunkSize < 2 ^ 32)
    (hbounded : st.index.Bounded cfg.slotCount) (hgood : GoodFor good ops)
    (hslots : forall s, s < cfg.slotCount ->
      Shows good cfg.chunkSize st.dir s) :
    forall s, s < cfg.slotCount ->
      Shows good cfg.chunkSize (st.after cfg ops).dir s := by
  induction ops generalizing st with
  | nil => exact hslots
  | cons op rest ih =>
    exact ih (Store.apply_spec hbounded op).left hgood.tail
      (shows_apply hsize hbounded hgood.head hslots)

theorem good_of_transcript (hsize : cfg.chunkSize < 2 ^ 32)
    (hbounded : st.index.Bounded cfg.slotCount) (hgood : GoodFor good ops)
    (hslots : forall s, s < cfg.slotCount ->
      Shows good cfg.chunkSize st.dir s) {key : String} {chunk : CachedChunk}
    (hmem : (Op.get key, Answer.got (.ok (some chunk))) ∈
      st.transcript cfg ops) : good key chunk := by
  induction ops generalizing st with
  | nil => cases hmem
  | cons op rest ih =>
    rcases List.mem_cons.mp hmem with hhere | hlater
    · rcases Prod.mk.inj hhere with ⟨rfl, hanswer⟩
      apply good_of_get hbounded hslots
      exact (Answer.got.inj hanswer).symm
    · exact ih (Store.apply_spec hbounded op).left hgood.tail
        (shows_apply hsize hbounded hgood.head hslots) hlater

theorem mem_ops_of_transcript {answer : Answer}
    (hmem : (op, answer) ∈ st.transcript cfg ops) : op ∈ ops := by
  induction ops generalizing st with
  | nil => cases hmem
  | cons first rest ih =>
    rcases List.mem_cons.mp hmem with hhere | hlater
    · rw [(Prod.mk.inj hhere).left]
      exact List.mem_cons_self
    · exact List.mem_cons_of_mem first (ih hlater)

theorem header_after (hbounded : st.index.Bounded cfg.slotCount) {s : Nat}
    (hheader : slotHeader chunkSize (st.after cfg ops).dir s = some header) :
    slotHeader chunkSize st.dir s = some header ∨
      (s < cfg.slotCount ∧ exists given, Op.put header.key given ∈ ops) := by
  induction ops generalizing st with
  | nil => exact Or.inl hheader
  | cons op rest ih =>
    rcases Store.apply_spec hbounded op with ⟨hnext, hdir⟩
    rcases ih hnext hheader with hbefore | ⟨hs, given, hmem⟩
    · rcases hdir with hdir | ⟨slot, key, chunk, rfl, hslot, _, hfits, hdir⟩
      · rw [hdir] at hbefore
        exact Or.inl hbefore
      · rw [hdir] at hbefore
        have hpage := SlotHeader.length_filled hfits length_blankPage
        rcases eq_or_ne s slot with rfl | hne
        · right
          rw [slotHeader, writtenSlot,
            headerPage_writeHeader_same cfg.chunkSize _ s hpage,
            SlotHeader.parse_filled hfits length_blankPage] at hbefore
          split at hbefore
          · cases hbefore
          · cases hbefore
            exact ⟨hslot, chunk, List.mem_cons_self⟩
        · left
          rw [slotHeader, writtenSlot,
            headerPage_writeHeader_of_ne cfg.chunkSize _ hpage hne,
            headerPage_writeBody] at hbefore
          exact hbefore
    · exact Or.inr ⟨hs, given, List.mem_cons_of_mem op hmem⟩

theorem untouched_after (hbounded : st.index.Bounded cfg.slotCount)
    (ops : List Op) {s : Nat} (hs : cfg.slotCount ≤ s) :
    slotHeader cfg.chunkSize (st.after cfg ops).dir s =
        slotHeader cfg.chunkSize st.dir s ∧
      forall n, n ≤ cfg.chunkSize ->
        bodyBytes cfg.chunkSize (st.after cfg ops).dir s n =
          bodyBytes cfg.chunkSize st.dir s n := by
  induction ops generalizing st with
  | nil => exact ⟨rfl, fun _ _ => rfl⟩
  | cons op rest ih =>
    rcases Store.apply_spec hbounded op with ⟨hnext, hdir⟩
    rcases ih hnext with ⟨hheader, hbody⟩
    rcases hdir with hdir | ⟨slot, key, chunk, _, hslot, hlen, hfits, hdir⟩
    · rw [hdir] at hheader hbody
      exact ⟨hheader, hbody⟩
    · have hne : s ≠ slot := by lia
      rw [hdir] at hheader hbody
      constructor
      · exact hheader.trans (slotHeader_writtenSlot_of_ne st.dir hfits hne)
      · intro n hn
        exact (hbody n hn).trans
          (bodyBytes_writtenSlot_of_ne st.dir hfits hlen hn hne)

end Session

/-!
## Sequences of sessions
-/

/-- One clean session: open, a list of calls, close. -/
structure Session where
  cfg : StoreConfig
  ops : List Op

def history : Directory -> List Session ->
    Except OpenError (List (Session × List (Op × Answer)))
  | _, [] => .ok []
  | dir, session :: rest =>
    match openStore session.cfg dir with
    | .error e => .error e
    | .ok st =>
      match history (st.after session.cfg session.ops).dir rest with
      | .error e => .error e
      | .ok log =>
        .ok ((session, st.transcript session.cfg session.ops) :: log)

namespace Session

def Puts (session : Session) (key : String) : Prop :=
  exists given, Op.put key given ∈ session.ops

def Opens (session : Session) (slot : Nat) : Prop :=
  slot / slotsPerExtent < session.cfg.extentCount

end Session

/-- Between two sessions of one chunk size every session uses that size, and
keeps those slots of both whose extent it opens. -/
def Steady (sessions : List Session) : Prop :=
  forall a b c : Session, List.Sublist [a, b, c] sessions ->
    a.cfg.chunkSize = c.cfg.chunkSize ->
    b.cfg.chunkSize = c.cfg.chunkSize ∧
      forall slot, slot < a.cfg.slotCount -> slot < c.cfg.slotCount ->
        b.Opens slot -> slot < b.cfg.slotCount

/-- No session asks for a key an earlier session put under another chunk
size. -/
def KeysBySize (sessions : List Session) : Prop :=
  forall a b : Session, List.Sublist [a, b] sessions ->
    a.cfg.chunkSize ≠ b.cfg.chunkSize ->
    forall key, a.Puts key -> Op.get key ∉ b.ops

def Foreign (past : List Session) (chunkSize : Nat) (key : String) : Prop :=
  exists a, a ∈ past ∧ a.cfg.chunkSize ≠ chunkSize ∧ a.Puts key

/-- The body is one that a session among `past` put under `key`. -/
def PutIn (past : List Session) (key : String) (chunk : CachedChunk) : Prop :=
  exists a, a ∈ past ∧ exists given, Op.put key given ∈ a.ops ∧
    chunk.body = given.body

/-- What a slot may show to a session of `chunkSize` that follows `past`. -/
def Owed (past : List Session) (chunkSize : Nat) : Cache.Puts :=
  fun key chunk => Foreign past chunkSize key ∨ PutIn past key chunk

/-- What the sessions `past` leave on disk: every header is from a put of one
of them in a slot of its tier, and a session to come finds what it is owed in
its slots. -/
structure LeftBy (past rest : List Session) (dir : Directory) : Prop where
  origin : forall chunkSize slot header,
    slotHeader chunkSize dir slot = some header ->
      exists a, a ∈ past ∧ slot < a.cfg.slotCount ∧ a.Puts header.key
  owed : forall b, b ∈ rest -> forall slot, slot < b.cfg.slotCount ->
    Shows (Owed past b.cfg.chunkSize) b.cfg.chunkSize dir slot

theorem leftBy_noFiles (sessions : List Session) :
    LeftBy [] sessions noFiles := by
  constructor
  · intro chunkSize slot header hheader
    rw [slotHeader_noFiles] at hheader
    cases hheader
  · intro b _ slot _
    exact shows_of_free (slotHeader_noFiles b.cfg.chunkSize slot)

theorem Owed.mono {past more : List Session} (h : Owed past chunkSize key chunk)
    (hmore : past ⊆ more) : Owed more chunkSize key chunk := by
  rcases h with ⟨a, ha, hforeign⟩ | ⟨a, ha, hput⟩
  · exact Or.inl ⟨a, hmore ha, hforeign⟩
  · exact Or.inr ⟨a, hmore ha, hput⟩

/-!
## One session of a sequence
-/

section Step

variable {past rest : List Session} {now : Session} {dir : Directory}

theorem sublist_past {a : Session} (ha : a ∈ past) :
    List.Sublist [a, now] (past ++ now :: rest) :=
  (List.singleton_sublist.mpr ha).append
    (List.singleton_sublist.mpr List.mem_cons_self)

variable {c : Session}

theorem sublist_past_rest {a : Session} (ha : a ∈ past) (hc : c ∈ rest) :
    List.Sublist [a, now, c] (past ++ now :: rest) :=
  (List.singleton_sublist.mpr ha).append
    ((List.singleton_sublist.mpr hc).cons_cons now)

theorem subset_next (past : List Session) (now : Session) :
    past ⊆ past ++ [now] :=
  List.subset_append_left past [now]

theorem goodFor_now (chunkSize : Nat) :
    GoodFor (Owed (past ++ [now]) chunkSize) now.ops := by
  intro key chunk hmem stored hbody _
  exact Or.inr ⟨now, List.mem_append_right past List.mem_cons_self, chunk,
    hmem, hbody⟩

theorem bodyBytes_sizedTo_of_not_opens (h : ¬ now.Opens slot)
    (chunkSize n : Nat) :
    bodyBytes chunkSize (sizedTo now.cfg dir) slot n =
      bodyBytes chunkSize dir slot n := by
  have hsame : sizedTo now.cfg dir (slot / slotsPerExtent) =
      dir (slot / slotsPerExtent) := if_neg h
  rw [bodyBytes, hsame, bodyBytes]

variable {st : Store}

variable (hopen : openStore now.cfg dir = .ok st)

include hopen

theorem bounded_of_open :
    st.index.Bounded now.cfg.slotCount := by
  rw [(openStore_ok hopen).right]
  exact bounded_scanned now.cfg _

theorem dir_of_open :
    st.dir = sizedTo now.cfg dir := by
  rw [(openStore_ok hopen).right]

variable (h : LeftBy past (now :: rest) dir)

include h

theorem owed_now (slot : Nat) (hslot : slot < now.cfg.slotCount) :
    Shows (Owed (past ++ [now]) now.cfg.chunkSize) now.cfg.chunkSize
      st.dir slot := by
  rw [dir_of_open hopen]
  have howed := (h.owed now List.mem_cons_self slot hslot).mono
    fun _ _ hold => hold.mono (subset_next past now)
  apply howed.congr
  · exact slotHeader_sizedTo now.cfg dir now.cfg.chunkSize slot
  · intro n hn
    exact bodyBytes_sizedTo dir hslot hn

theorem origin_next {slot : Nat}
    (hheader : slotHeader chunkSize (st.after now.cfg now.ops).dir slot =
      some header) :
    exists a, a ∈ past ++ [now] ∧ slot < a.cfg.slotCount ∧
      a.Puts header.key := by
  rcases header_after (bounded_of_open hopen) hheader with
    hbefore | ⟨hslot, hput⟩
  · rw [dir_of_open hopen, slotHeader_sizedTo] at hbefore
    rcases h.origin chunkSize slot header hbefore with ⟨a, ha, horigin⟩
    exact ⟨a, List.mem_append_left _ ha, horigin⟩
  · exact ⟨now, List.mem_append_right past List.mem_cons_self, hslot, hput⟩

theorem owed_other_size (hsteady : Steady (past ++ now :: rest))
    (hc : c ∈ rest) (hsize : now.cfg.chunkSize ≠ c.cfg.chunkSize) (slot : Nat) :
    Shows (Owed (past ++ [now]) c.cfg.chunkSize) c.cfg.chunkSize
      (st.after now.cfg now.ops).dir slot := by
  intro header hheader
  rcases origin_next hopen h hheader with ⟨a, ha, _, hput⟩
  refine Or.inl ⟨a, ha, ?_, hput⟩
  rcases List.mem_append.mp ha with hpast | hnow
  · intro heq
    exact hsize (hsteady a now c (sublist_past_rest hpast hc) heq).left
  · rw [List.mem_singleton.mp hnow]
    exact hsize

/-- A slot past the tier, for a later session of the same chunk size: its
extent is left alone, or its header is of another size. -/
theorem owed_past_tier (hsteady : Steady (past ++ now :: rest))
    (hc : c ∈ rest) (hsize : now.cfg.chunkSize = c.cfg.chunkSize) {slot : Nat}
    (hslot : slot < c.cfg.slotCount) (hpast : now.cfg.slotCount ≤ slot) :
    Shows (Owed (past ++ [now]) c.cfg.chunkSize) c.cfg.chunkSize
      (st.after now.cfg now.ops).dir slot := by
  rcases untouched_after (bounded_of_open hopen) now.ops hpast with
    ⟨hheader, hbody⟩
  rw [dir_of_open hopen, slotHeader_sizedTo, hsize] at hheader
  rw [dir_of_open hopen, hsize] at hbody
  by_cases hopens : now.Opens slot
  · intro header hfound
    rw [hheader] at hfound
    rcases h.origin _ slot header hfound with ⟨a, ha, hin, hput⟩
    refine Or.inl ⟨a, subset_next past now ha, ?_, hput⟩
    intro heq
    have hkept := (hsteady a now c (sublist_past_rest ha hc) heq).right
      slot hin hslot hopens
    lia
  · have howed := (h.owed c (List.mem_cons_of_mem now hc) slot hslot).mono
      fun _ _ hold => hold.mono (subset_next past now)
    apply howed.congr hheader
    intro n hn
    rw [hbody n hn]
    exact bodyBytes_sizedTo_of_not_opens hopens c.cfg.chunkSize n

theorem leftBy_next (hsteady : Steady (past ++ now :: rest))
    (hsize : now.cfg.chunkSize < 2 ^ 32) :
    LeftBy (past ++ [now]) rest (st.after now.cfg now.ops).dir := by
  constructor
  · intro chunkSize slot header hheader
    exact origin_next hopen h hheader
  · intro c hc slot hslot
    rcases eq_or_ne now.cfg.chunkSize c.cfg.chunkSize with hsame | hother
    · rcases Nat.lt_or_ge slot now.cfg.slotCount with hin | hpast
      · rw [← hsame]
        exact shows_after hsize (bounded_of_open hopen)
          (goodFor_now now.cfg.chunkSize) (owed_now hopen h) slot hin
      · exact owed_past_tier hopen h hsteady hc hsame hslot hpast
    · exact owed_other_size hopen h hsteady hc hother slot

theorem putIn_of_hit (hkeys : KeysBySize (past ++ now :: rest))
    (hsize : now.cfg.chunkSize < 2 ^ 32) {key : String} {chunk : CachedChunk}
    (hmem : (Op.get key, Answer.got (.ok (some chunk))) ∈
      st.transcript now.cfg now.ops) :
    PutIn (past ++ [now]) key chunk := by
  have howed := good_of_transcript hsize (bounded_of_open hopen)
    (goodFor_now now.cfg.chunkSize) (owed_now hopen h) hmem
  rcases howed with ⟨a, ha, hother, hput⟩ | hput
  · have hasked := mem_ops_of_transcript hmem
    rcases List.mem_append.mp ha with hpast | hnow
    · exact absurd hasked (hkeys a now (sublist_past hpast) hother key hput)
    · rw [List.mem_singleton.mp hnow] at hother
      exact absurd rfl hother
  · exact hput

end Step

/-!
## Whole sequences
-/

theorem history_cons {now : Session} {log : List (Session × List (Op × Answer))}
    (h : history dir (now :: rest) = .ok log) :
    exists st later, openStore now.cfg dir = .ok st ∧
      history (st.after now.cfg now.ops).dir rest = .ok later ∧
      log = (now, st.transcript now.cfg now.ops) :: later := by
  unfold history at h
  cases hopen : openStore now.cfg dir with
  | error e => simp [hopen] at h
  | ok st =>
    cases hrest : history (st.after now.cfg now.ops).dir rest with
    | error e => simp [hopen, hrest] at h
    | ok later =>
      simp only [hopen, hrest, Except.ok.injEq] at h
      exact ⟨st, later, rfl, hrest, h.symm⟩

theorem hits_of_leftBy {past sessions : List Session}
    {log : List (Session × List (Op × Answer))}
    (hsteady : Steady (past ++ sessions))
    (hkeys : KeysBySize (past ++ sessions))
    (hsize : forall session, session ∈ sessions ->
      session.cfg.chunkSize < 2 ^ 32) (h : LeftBy past sessions dir)
    (hlog : history dir sessions = .ok log)
    {front back : List (Session × List (Op × Answer))} {session : Session}
    {answers : List (Op × Answer)}
    (hsplit : log = front ++ (session, answers) :: back) {key : String}
    {chunk : CachedChunk}
    (hmem : (Op.get key, Answer.got (.ok (some chunk))) ∈ answers) :
    PutIn (past ++ front.map Prod.fst ++ [session]) key chunk := by
  induction sessions generalizing past dir log front with
  | nil =>
    cases hlog
    simp at hsplit
  | cons now rest ih =>
    rcases history_cons hlog with ⟨st, later, hopen, hrest, rfl⟩
    have hnow := hsize now List.mem_cons_self
    cases front with
    | nil =>
      simp only [List.nil_append, List.cons.injEq, Prod.mk.injEq] at hsplit
      rcases hsplit with ⟨⟨rfl, rfl⟩, _⟩
      rw [List.map_nil, List.append_nil]
      exact putIn_of_hit hopen h hkeys hnow hmem
    | cons entry front =>
      simp only [List.cons_append, List.cons.injEq] at hsplit
      rcases hsplit with ⟨rfl, hlater⟩
      rw [List.append_cons] at hsteady hkeys
      have hput := ih hsteady hkeys
        (fun s hs => hsize s (List.mem_cons_of_mem now hs))
        (leftBy_next hopen h (by rwa [List.append_cons]) hnow) hrest hlater
      rw [List.append_assoc past [now]] at hput
      exact hput

/-- Over any directory history whose sessions are steady and ask for keys under
their own chunk size, a hit returns a body put under its key in the same
session or an earlier one. -/
theorem resized_hits_were_put {sessions : List Session}
    {log : List (Session × List (Op × Answer))}
    (hsteady : Steady sessions) (hkeys : KeysBySize sessions)
    (hsize : forall session, session ∈ sessions ->
      session.cfg.chunkSize < 2 ^ 32)
    (hlog : history noFiles sessions = .ok log)
    {front back : List (Session × List (Op × Answer))} {session : Session}
    {answers : List (Op × Answer)}
    (hsplit : log = front ++ (session, answers) :: back) {key : String}
    {chunk : CachedChunk}
    (hmem : (Op.get key, Answer.got (.ok (some chunk))) ∈ answers) :
    PutIn (front.map Prod.fst ++ [session]) key chunk := by
  rw [← List.nil_append sessions] at hsteady hkeys
  exact hits_of_leftBy hsteady hkeys hsize (leftBy_noFiles sessions) hlog
    hsplit hmem

/-!
## A slot dropped and taken up again

`a` is stored in the second slot of two.  A session of one slot cuts that
slot's body off, and the next session of two slots finds the header over a body
of zeros.
-/

theorem bodyBytes_past_tier (hsized : Sized cfg dir)
    (hextent : slot / slotsPerExtent < cfg.extentCount)
    (hslot : cfg.slotCount ≤ slot) (n : Nat) :
    bodyBytes cfg.chunkSize dir slot n = List.replicate n 0 := by
  have hlen := hsized _ hextent
  have hwithin : slotsInExtent cfg.slotCount (slot / slotsPerExtent) ≤
      slot % slotsPerExtent := by
    apply Nat.not_lt.mp
    rw [lt_slotsInExtent_iff]
    exact Nat.not_lt.mpr hslot
  have hend : (dir (slot / slotsPerExtent)).len ≤
      bodyOffset (slot % slotsPerExtent) cfg.chunkSize := by
    rw [hlen, StoreConfig.extentBytes, bodyOffset]
    exact Nat.add_le_add_left (Nat.mul_le_mul_right _ hwithin) _
  rw [bodyBytes, ByteFile.slice, List.eq_replicate_iff]
  constructor
  · rw [List.length_map, List.length_range]
  · intro byte hmem
    rcases List.mem_map.mp hmem with ⟨i, _, rfl⟩
    exact ByteFile.get_of_len_le (Nat.le_trans hend (Nat.le_add_right _ _))

theorem history_of_open {now : Session} {st : Store}
    (hopen : openStore now.cfg dir = .ok st)
    (hrest : history (st.after now.cfg now.ops).dir rest = .ok later) :
    history dir (now :: rest) =
      .ok ((now, st.transcript now.cfg now.ops) :: later) := by
  simp only [history, hopen, hrest]

theorem history_of_idle (haligned : cfg.chunkSize % directIoAlign = 0)
    (hrest : history (sizedTo cfg dir) rest = .ok later) :
    history dir ({ cfg := cfg, ops := [] } :: rest) =
      .ok (({ cfg := cfg, ops := [] }, []) :: later) := by
  simp only [history, openStore_of_aligned dir haligned, Store.after, hrest,
    Store.transcript]

def storesA (slots : Nat) : Session :=
  { cfg := pageStore slots, ops := [.put "a" (single 1)] }

def asksA (slots : Nat) : Session :=
  { cfg := pageStore slots, ops := [.get "a"] }

theorem history_asksA {slots slot : Nat}
    (hslot : slot < (pageStore slots).slotCount)
    (hmap : (scanned (pageStore slots) (sizedTo (pageStore slots) dir)).map
      "a" = some slot)
    (hheader : slotHeader (pageStore slots).chunkSize dir slot = some header)
    (hkey : header.key = "a") :
    exists dir', forall rest later, history dir' rest = .ok later ->
      history dir (asksA slots :: rest) =
        .ok ((asksA slots, [(.get "a", .got (.ok (some
          (shown (pageStore slots).chunkSize dir slot header))))]) ::
            later) := by
  have hsized := sized_sizedTo (pageStore slots) dir
  have hfound : slotHeader (pageStore slots).chunkSize
      (sizedTo (pageStore slots) dir) slot = some header := by
    rw [slotHeader_sizedTo]
    exact hheader
  have hshown : shown (pageStore slots).chunkSize
      (sizedTo (pageStore slots) dir) slot header =
        shown (pageStore slots).chunkSize dir slot header := by
    rw [shown, bodyBytes_sizedTo dir hslot (slotHeader_bodyLen_le hheader),
      shown]
  have hfetch := fetch_of_shown hsized hslot rfl hfound
  rw [hkey, hshown] at hfetch
  refine ⟨((⟨scanned (pageStore slots) (sizedTo (pageStore slots) dir),
    sizedTo (pageStore slots) dir⟩ : Store).after (pageStore slots)
      [.get "a"]).dir, ?_⟩
  intro rest later hrest
  rw [history_of_open (openStore_of_aligned dir (aligned_pageStore slots)) hrest]
  apply congrArg Except.ok
  dsimp only [asksA, Store.transcript, Store.apply]
  rw [Store.get_fst_of_map hmap]
  dsimp only
  rw [hfetch]

def storedDir : Directory :=
  writtenSlot (pageStore 2) (sizedTo (pageStore 2) noFiles) 1 "a" (single 1)

theorem slotHeader_storedDir_zero :
    slotHeader (pageStore 2).chunkSize storedDir 0 = none := by
  rw [storedDir, slotHeader_writtenSlot_of_ne _ (fits_a 1) Nat.zero_ne_one,
    slotHeader_sizedTo, slotHeader_noFiles]

theorem slotHeader_storedDir_one :
    slotHeader (pageStore 2).chunkSize storedDir 1 =
      some (putHeader "a" (single 1)) :=
  slotHeader_a _ 1 1 2

theorem map_scanned_two
    (hzero : slotHeader (pageStore 2).chunkSize dir 0 = none)
    (hone : slotHeader (pageStore 2).chunkSize dir 1 =
      some (putHeader "a" (single 1))) :
    (scanned (pageStore 2) (sizedTo (pageStore 2) dir)).map "a" = some 1 := by
  have hrange : List.range 2 = [0, 1] := rfl
  rw [scanned, slotCount_pageStore Nat.two_pos, hrange, List.map_cons,
    List.map_singleton, slotHeader_sizedTo, slotHeader_sizedTo, hzero, hone]
  rfl

theorem after_storesA (dir : Directory) :
    Store.after (pageStore 2)
        { index := { Index.empty with free := [1, 0] }, dir := dir }
        [.put "a" (single 1)] =
      { index := ({ Index.empty with free := [0] } : Index).occupy 1 "a" 1
          (bodyCrc [1]),
        dir := writtenSlot (pageStore 2) dir 1 "a" (single 1) } := by
  refine (Store.after_put [] (length_single_le 1 2) rfl (fits_a 1)).trans ?_
  rfl

theorem history_storesA (hrest : history storedDir rest = .ok later) :
    exists answers, history noFiles (storesA 2 :: rest) =
      .ok ((storesA 2, answers) :: later) := by
  refine ⟨_, history_of_open openStore_twoSlots ?_⟩
  dsimp only [storesA]
  rw [after_storesA]
  exact hrest

def droppedSlot : List Session :=
  [storesA 2, { cfg := pageStore 1, ops := [] }, asksA 2]

theorem droppedSlot_serves_zeros :
    exists first second,
      history noFiles droppedSlot =
          .ok [first, second, (asksA 2,
            [(.get "a", .got (.ok (some (single 0))))])] ∧
        ¬ PutIn droppedSlot "a" (single 0) := by
  have hslot : 1 < (pageStore 2).slotCount := by
    rw [slotCount_pageStore Nat.two_pos]
    exact Nat.one_lt_two
  have hzero := slotHeader_storedDir_zero
  have hone := slotHeader_storedDir_one
  rw [← slotHeader_sizedTo (pageStore 1)] at hzero hone
  have hbody : bodyBytes (pageStore 1).chunkSize
      (sizedTo (pageStore 1) storedDir) 1 1 = [0] := by
    apply bodyBytes_past_tier (sized_sizedTo (pageStore 1) storedDir)
    · have hfirst : 1 / slotsPerExtent = 0 / slotsPerExtent := rfl
      rw [hfirst]
      exact extent_lt_extentCount (zero_lt_slotCount_pageStore 1)
    · exact Nat.le_of_eq (slotCount_pageStore Nat.one_pos)
  have hshown : shown (pageStore 2).chunkSize
      (sizedTo (pageStore 1) storedDir) 1 (putHeader "a" (single 1)) =
        single 0 := by
    change CachedChunk.mk (bodyBytes (pageStore 1).chunkSize
      (sizedTo (pageStore 1) storedDir) 1 1) none = single 0
    rw [hbody]
    rfl
  rcases history_asksA hslot (map_scanned_two hzero hone) hone rfl with
    ⟨dir', hasked⟩
  rw [hshown] at hasked
  have hcut := history_of_idle (aligned_pageStore 1) (hasked [] [] rfl)
  rcases history_storesA hcut with ⟨answers, hlog⟩
  refine ⟨_, _, hlog, ?_⟩
  rintro ⟨a, ha, given, hput, hsame⟩
  simp [droppedSlot] at ha
  rcases ha with rfl | rfl | rfl
  · simp [storesA] at hput
    rw [hput] at hsame
    cases hsame
  · cases hput
  · simp [asksA] at hput

def growsToThree : Session := { cfg := pageStore 3, ops := [] }

def widensSlots : Session :=
  { cfg := { pageStore 3 with chunkSize := 8192 },
    ops := [.put "b" (single 2), .get "b"] }

def resizedTier : List Session :=
  [storesA 2, growsToThree, asksA 2, widensSlots]

theorem steady_resizedTier : Steady resizedTier := by
  intro a b c hsub hsize
  simp [resizedTier, List.sublist_cons_iff] at hsub
  rcases hsub with ⟨rfl, rfl, rfl⟩ | ⟨rfl, ⟨rfl, rfl⟩ | ⟨rfl, rfl | rfl⟩⟩
  · cases hsize
  · cases hsize
  · cases hsize
  · refine ⟨rfl, ?_⟩
    intro slot hslot _ _
    change slot < (pageStore 2).slotCount at hslot
    change slot < (pageStore 3).slotCount
    rw [slotCount_pageStore Nat.two_pos] at hslot
    rw [slotCount_pageStore (Nat.succ_pos 2)]
    exact Nat.lt_succ_of_lt hslot

theorem keysBySize_resizedTier : KeysBySize resizedTier := by
  intro a b hsub hne key hput hget
  rcases hput with ⟨given, hput⟩
  simp [resizedTier, List.sublist_cons_iff] at hsub
  rcases hsub with (⟨rfl, rfl⟩ | ⟨rfl, _⟩) | ⟨rfl, (rfl | rfl) | rfl⟩
  · simp [asksA] at hput
  · cases hput
  · simp [storesA] at hput
    simp [widensSlots, hput.left] at hget
  · exact hne rfl
  · exact hne rfl

/-- `a` survives that its tier grows by a slot and shrinks back. -/
theorem resized_hits_were_put_grownAndBack :
    exists first second last,
      history noFiles resizedTier =
          .ok [first, second, (asksA 2,
            [(.get "a", .got (.ok (some (single 1))))]), last] ∧
        PutIn [storesA 2, growsToThree, asksA 2] "a" (single 1) := by
  have hslot : 1 < (pageStore 2).slotCount := by
    rw [slotCount_pageStore Nat.two_pos]
    exact Nat.one_lt_two
  have hgrown : 1 < (pageStore 3).slotCount := by
    rw [slotCount_pageStore (Nat.succ_pos 2)]
    exact Nat.lt_add_one_of_lt Nat.one_lt_two
  have hzero := slotHeader_storedDir_zero
  have hone := slotHeader_storedDir_one
  rw [← slotHeader_sizedTo (pageStore 3)] at hzero hone
  have hbody : bodyBytes (pageStore 3).chunkSize
      (sizedTo (pageStore 3) storedDir) 1 1 = [1] := by
    rw [bodyBytes_sizedTo storedDir hgrown (by decide)]
    exact bodyBytes_writtenSlot_same _ 1 (fits_a 1)
  have hshown : shown (pageStore 2).chunkSize
      (sizedTo (pageStore 3) storedDir) 1 (putHeader "a" (single 1)) =
        single 1 := by
    change CachedChunk.mk (bodyBytes (pageStore 3).chunkSize
      (sizedTo (pageStore 3) storedDir) 1 1) none = single 1
    rw [hbody]
    rfl
  rcases history_asksA hslot (map_scanned_two hzero hone) hone rfl with
    ⟨dir', hasked⟩
  rw [hshown] at hasked
  have hlast : openStore widensSlots.cfg dir' = .ok _ :=
    openStore_of_aligned dir' (by decide)
  have hgrows := history_of_idle (aligned_pageStore 3)
    (hasked [widensSlots] _ (history_of_open hlast rfl))
  rcases history_storesA hgrows with ⟨answers, hlog⟩
  refine ⟨_, _, _, hlog, ?_⟩
  refine resized_hits_were_put steady_resizedTier keysBySize_resizedTier ?_ hlog
    (List.cons_append.trans rfl : _ = [_, _] ++ _ :: _) List.mem_cons_self
  intro session hmem
  simp only [resizedTier, List.mem_cons, List.not_mem_nil, or_false] at hmem
  rcases hmem with rfl | rfl | rfl | rfl <;> decide

end Cache
end Pacer
