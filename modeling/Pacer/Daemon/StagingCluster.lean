import Pacer.Daemon.TeeCluster

/-!
# Staging areas and the requests between them

What an upload's tee works with: the staging areas of the nodes, the offers,
commits and discards on their way to homes, and the chunks that commits made
visible.  Other uploads stage in the same areas; their commits are not recorded
here.

A predicate on windows that holds of everything staged or offered for an upload
holds of everything its commits make visible.
-/

namespace Pacer
namespace Daemon

open Foundation Function
open Cache
open TeeCluster (Message Made)

structure StagingCluster where
  areas : Nat -> StagingArea Nat
  net : Nat -> Option Message
  made : List Made

namespace StagingCluster

def start (budgetBytes ttl : Nat) : StagingCluster :=
  { areas := fun _ => StagingArea.new budgetBytes ttl,
    net := fun _ => none,
    made := [] }

def setArea (c : StagingCluster) (node : Nat) (area : StagingArea Nat) :
    StagingCluster :=
  { c with areas := update c.areas node area }

def clear (c : StagingCluster) (m : Nat) : StagingCluster :=
  { c with net := update c.net m none }

def stage (c : StagingCluster) (node index : Nat) (id : String) (body : Bytes)
    (now : Nat) : StagingCluster :=
  c.setArea node ((c.areas node).tryStageAt index id body now).2

def send (c : StagingCluster) (m : Nat) (message : Message) :
    Option StagingCluster :=
  match c.net m with
  | some _ => none
  | none => some { c with net := update c.net m (some message) }

def commitAt (c : StagingCluster) (node : Nat) (id eTag : String) :
    StagingCluster :=
  match (c.areas node).commit id with
  | (out, area) =>
    { c.setArea node area with
      made := c.made ++ out.map fun entry =>
        { node := node, index := entry.1, chunk := ⟨entry.2, some eTag⟩ } }

def discardAt (c : StagingCluster) (node : Nat) (id : String) :
    StagingCluster :=
  c.setArea node ((c.areas node).discard id).2

def reap (c : StagingCluster) (node now : Nat) : StagingCluster :=
  c.setArea node ((c.areas node).reapAt now).2

def deliver (c : StagingCluster) (m now : Nat) : Option StagingCluster :=
  match c.net m with
  | none => none
  | some (.store _ home index id body) =>
    some ((c.clear m).stage home index id body now)
  | some (.commit home id eTag) => some ((c.clear m).commitAt home id eTag)
  | some (.discard home id) => some ((c.clear m).discardAt home id)

def lose (c : StagingCluster) (m : Nat) : Option StagingCluster :=
  match c.net m with
  | none => none
  | some _ => some (c.clear m)

/-!
## Windows of one upload
-/

/-- All requests are of the upload `id`; its windows satisfy `window`, its
commits go out under tags that satisfy `tag`, and what they made visible
satisfies `right`. -/
structure Sound (c : StagingCluster) (id : String)
    (window : Nat -> Bytes -> Prop) (tag : String -> Prop)
    (right : Made -> Prop) : Prop where
  staged : forall n k staged, (c.areas n).pending.lookup k = some staged ->
    staged.uploadId = id -> window k staged.body
  ours : forall m message, c.net m = some message -> message.id = id
  offers : forall m w home index id body,
    c.net m = some (.store w home index id body) -> window index body
  commits : forall m home id eTag, c.net m = some (.commit home id eTag) ->
    tag eTag
  made : forall entry, entry ∈ c.made -> right entry

variable {c c' : StagingCluster} {id : String} {window : Nat -> Bytes -> Prop}
variable {tag : String -> Prop} {right : Made -> Prop}

theorem sound_start (budgetBytes ttl : Nat) (id : String)
    (window : Nat -> Bytes -> Prop) (tag : String -> Prop)
    (right : Made -> Prop) :
    (start budgetBytes ttl).Sound id window tag right := by
  refine ⟨?_, nofun, nofun, nofun, nofun⟩
  intro n k staged h _
  have hnone := StagingArea.within_new (StagingArea.new 0 0) budgetBytes ttl k
    staged h
  cases hnone

namespace Sound

section

variable (h : c.Sound id window tag right)

include h

theorem mono {window' : Nat -> Bytes -> Prop} {tag' : String -> Prop}
    {right' : Made -> Prop}
    (hwindow : forall index body, window index body -> window' index body)
    (htag : forall eTag, tag eTag -> tag' eTag)
    (hright : forall entry, right entry -> right' entry) :
    c.Sound id window' tag' right' := by
  refine ⟨?_, h.ours, ?_, ?_, ?_⟩
  · intro n k staged hlookup hid
    exact hwindow k _ (h.staged n k staged hlookup hid)
  · intro m w home index found body hmessage
    exact hwindow index body (h.offers m w home index found body hmessage)
  · intro m home found eTag hmessage
    exact htag eTag (h.commits m home found eTag hmessage)
  · intro entry hentry
    exact hright entry (h.made entry hentry)

variable {node : Nat}

theorem setArea {area : StagingArea Nat}
    (harea : forall k staged, area.pending.lookup k = some staged ->
      staged.uploadId = id -> window k staged.body) :
    (c.setArea node area).Sound id window tag right := by
  refine ⟨?_, h.ours, h.offers, h.commits, h.made⟩
  intro n k staged hlookup hid
  change (update c.areas node area n).pending.lookup k = some staged
    at hlookup
  rcases eq_or_ne n node with rfl | hne
  · rw [update_self] at hlookup
    exact harea k staged hlookup hid
  · rw [update_of_ne hne] at hlookup
    exact h.staged n k staged hlookup hid

theorem within {area : StagingArea Nat}
    (harea : StagingArea.Within area (c.areas node)) :
    (c.setArea node area).Sound id window tag right :=
  h.setArea fun k staged hlookup hid =>
    h.staged node k staged (harea k staged hlookup) hid

theorem stage {index now : Nat} {owner : String} {body : Bytes}
    (hgood : owner = id -> window index body) :
    (c.stage node index owner body now).Sound id window tag right := by
  apply h.setArea
  intro k staged hlookup hid
  rcases StagingArea.lookup_tryStageAt hlookup with hold | ⟨hkey, hstaged⟩
  · exact h.staged node k staged hold hid
  · rw [hstaged] at hid ⊢
    rw [hkey]
    exact hgood hid

theorem clear (m : Nat) :
    (c.clear m).Sound id window tag right := by
  have hnet : forall n message, (c.clear m).net n = some message ->
      c.net n = some message := by
    intro n message hmessage
    change update c.net m none n = some message at hmessage
    rcases eq_or_ne n m with rfl | hne
    · rw [update_self] at hmessage
      cases hmessage
    · rw [update_of_ne hne] at hmessage
      exact hmessage
  exact ⟨h.staged, fun n message hn => h.ours n message (hnet n message hn),
    fun n w home index found body hn =>
      h.offers n w home index found body (hnet n _ hn),
    fun n home found eTag hn => h.commits n home found eTag (hnet n _ hn),
    h.made⟩

variable {m : Nat}

theorem send {message : Message} (hsend : c.send m message = some c')
    (hid : message.id = id)
    (hoffer : forall w home index found body,
      message = .store w home index found body -> window index body)
    (hcommit : forall home found eTag, message = .commit home found eTag ->
      tag eTag) :
    c'.Sound id window tag right := by
  unfold StagingCluster.send at hsend
  split at hsend
  · cases hsend
  cases hsend
  have hnet : forall n found,
      update c.net m (some message) n = some found ->
      found = message ∨ c.net n = some found := by
    intro n found hfound
    rcases eq_or_ne n m with rfl | hne
    · rw [update_self] at hfound
      cases hfound
      exact Or.inl rfl
    · rw [update_of_ne hne] at hfound
      exact Or.inr hfound
  refine ⟨h.staged, ?_, ?_, ?_, h.made⟩
  · intro n found hfound
    rcases hnet n found hfound with rfl | hold
    · exact hid
    · exact h.ours n found hold
  · intro n w home index found body hfound
    rcases hnet n _ hfound with heq | hold
    · exact hoffer w home index found body heq.symm
    · exact h.offers n w home index found body hold
  · intro n home found eTag hfound
    rcases hnet n _ hfound with heq | hold
    · exact hcommit home found eTag heq.symm
    · exact h.commits n home found eTag hold

theorem commitAt {eTag : String}
    (hright : forall index body, window index body ->
      right ⟨node, index, ⟨body, some eTag⟩⟩) :
    (c.commitAt node id eTag).Sound id window tag right := by
  have harea := h.within (StagingArea.within_commit (c.areas node) id)
  refine ⟨harea.staged, h.ours, h.offers, h.commits, ?_⟩
  intro entry hentry
  change entry ∈ c.made ++ ((c.areas node).commit id).1.map _ at hentry
  rcases List.mem_append.mp hentry with hold | hnew
  · exact h.made entry hold
  · rcases List.mem_map.mp hnew with ⟨⟨index, body⟩, hout, rfl⟩
    rcases StagingArea.mem_commit hout with ⟨staged, hlookup, hid, rfl⟩
    exact hright index staged.body (h.staged node index staged hlookup hid)

theorem discardAt (node : Nat) (owner : String) :
    (c.discardAt node owner).Sound id window tag right :=
  h.within (StagingArea.within_discard (c.areas node) owner)

theorem reap (node now : Nat) :
    (c.reap node now).Sound id window tag right :=
  h.within (StagingArea.within_reapAt (c.areas node) now)

theorem deliver {now : Nat}
    (hright : forall node index body eTag, window index body -> tag eTag ->
      right ⟨node, index, ⟨body, some eTag⟩⟩)
    (hstep : c.deliver m now = some c') : c'.Sound id window tag right := by
  unfold StagingCluster.deliver at hstep
  split at hstep
  · cases hstep
  · rename_i w home index owner body hmessage
    cases hstep
    exact (h.clear m).stage fun _ => h.offers m w home index owner body hmessage
  · rename_i home owner eTag hmessage
    cases hstep
    have howner : owner = id := h.ours m _ hmessage
    rw [howner]
    apply (h.clear m).commitAt
    intro index body hwindow
    exact hright home index body eTag hwindow
      (h.commits m home owner eTag hmessage)
  · rename_i home owner hmessage
    cases hstep
    exact (h.clear m).discardAt home owner

theorem lose (hstep : c.lose m = some c') : c'.Sound id window tag right := by
  unfold StagingCluster.lose at hstep
  split at hstep
  · cases hstep
  · cases hstep
    exact h.clear m

end

end Sound

end StagingCluster

end Daemon
end Pacer
