import Pacer.Foundation.ByteFile
import Pacer.Foundation.Checked

/-!
# Delivery tokens

A client names memory it registered itself by an address and by one key per
rail the memory is reachable on.  The node that has the request narrows the
window to a chunk's place in it and either writes there or puts the place on
the wire, as an absolute address, for the holder of the chunk to write to.

Addresses and lengths are 64-bit numbers.
-/

namespace Pacer
namespace Transport

open Foundation

def gidBytes : Nat := 16

structure TokenRail where
  gid : Bytes
  qpn : Nat
  rkey : Nat
  sized : gid.length = gidBytes
deriving DecidableEq, Repr

structure ClientTokenRail where
  gid : Bytes
  qpn : Nat
  rkey : Nat
deriving DecidableEq, Repr

structure ClientToken where
  addr : Nat
  len : Nat
  rails : List ClientTokenRail
  checksum : Bool
deriving DecidableEq, Repr

inductive TokenWindowError where
  | noRails
  | empty
  | addressOverflow (baseAddr offset : Nat)
  | malformedRail (gidBytes : Nat)
deriving DecidableEq, Repr

@[ext]
structure TokenWindow where
  start : Nat
  len : Nat
  rails : List TokenRail
  addressable : rails ≠ []
  nonempty : 0 < len
deriving Repr

instance : DecidableEq TokenWindow :=
  fun _ _ => decidable_of_iff _ TokenWindow.ext_iff.symm

def TokenRail.wire (rail : TokenRail) : ClientTokenRail :=
  { gid := rail.gid, qpn := rail.qpn, rkey := rail.rkey }

def ClientTokenRail.rail (wire : ClientTokenRail) :
    Except TokenWindowError TokenRail :=
  if h : wire.gid.length = gidBytes then
    .ok { gid := wire.gid, qpn := wire.qpn, rkey := wire.rkey, sized := h }
  else .error (.malformedRail wire.gid.length)

namespace TokenWindow

def new (baseAddr offset len : Nat) (rails : List TokenRail) :
    Except TokenWindowError TokenWindow :=
  if hrails : rails = [] then .error .noRails
  else if hlen : len = 0 then .error .empty
  else
    match Checked.add wordBound baseAddr offset with
    | none => .error (.addressOverflow baseAddr offset)
    | some start =>
      .ok { start := start, len := len, rails := rails,
            addressable := hrails, nonempty := Nat.pos_of_ne_zero hlen }

def railsFromProto :
    List ClientTokenRail -> Except TokenWindowError (List TokenRail)
  | [] => .ok []
  | wire :: rest =>
    match wire.rail with
    | .error e => .error e
    | .ok rail =>
      match railsFromProto rest with
      | .error e => .error e
      | .ok rails => .ok (rail :: rails)

def fromProto (token : ClientToken) : Except TokenWindowError TokenWindow :=
  match railsFromProto token.rails with
  | .error e => .error e
  | .ok rails => new token.addr 0 token.len rails

/-- Address, key and length for `[pos, pos + len)` of the window on a rail;
`none` if that is not inside the window. -/
def sliceOn (window : TokenWindow) (rail : TokenRail) (pos len : Nat) :
    Option (Nat × Nat × Nat) :=
  (Checked.add wordBound pos len).bind fun stop =>
    if window.len < stop then none
    else
      (Checked.add wordBound window.start pos).map fun addr =>
        (addr, rail.rkey, len)

/-- Render `[pos, pos + len)` of the window for a holder, with every rail. -/
def protoAt (window : TokenWindow) (pos len : Nat) (checksum : Bool) :
    Option ClientToken :=
  window.rails.head?.bind fun rail =>
    (window.sliceOn rail pos len).map fun slice =>
      { addr := slice.1, len := slice.2.2,
        rails := window.rails.map TokenRail.wire, checksum := checksum }

section

variable {baseAddr offset len : Nat} {rails : List TokenRail}
  {window : TokenWindow}

theorem new_ok (h : new baseAddr offset len rails = .ok window) :
    window.start = baseAddr + offset ∧ window.len = len ∧
      window.rails = rails := by
  unfold new at h
  split at h
  · cases h
  split at h
  · cases h
  unfold Checked.add at h
  split at h
  · cases h
  rename_i start hstart
  split at hstart
  · cases hstart
    cases h
    exact ⟨rfl, rfl, rfl⟩
  · cases hstart

theorem new_of_fits (hrails : rails ≠ []) (hlen : 0 < len)
    (hfits : baseAddr + offset < wordBound) :
    new baseAddr offset len rails =
      .ok { start := baseAddr + offset, len := len, rails := rails,
            addressable := hrails, nonempty := hlen } := by
  unfold new
  rw [dif_neg hrails, dif_neg (Nat.ne_of_gt hlen), Checked.add_of_lt hfits]

theorem railsFromProto_wire (rails : List TokenRail) :
    railsFromProto (rails.map TokenRail.wire) = .ok rails := by
  induction rails with
  | nil => rfl
  | cons rail rest ih =>
    have hrail : rail.wire.rail = .ok rail := dif_pos rail.sized
    rw [List.map_cons, railsFromProto, hrail, ih]

theorem fromProto_wire (addr len : Nat) (rails : List TokenRail)
    (checksum : Bool) :
    fromProto ⟨addr, len, rails.map TokenRail.wire, checksum⟩ =
      new addr 0 len rails := by
  unfold fromProto
  rw [railsFromProto_wire]

theorem sliceOn_of_inside {pos n : Nat} (hinside : pos + n ≤ window.len)
    (hlen : window.len < wordBound) (rail : TokenRail) :
    window.sliceOn rail pos n =
      if window.start + pos < wordBound then
        some (window.start + pos, rail.rkey, n)
      else none := by
  unfold sliceOn
  rw [Checked.add_of_lt (by lia), Option.bind_some, if_neg (by lia)]
  unfold Checked.add
  split
  · rfl
  · rfl

theorem fromProto_protoAt {pos n : Nat} (hinside : pos + n ≤ window.len)
    (hpos : 0 < n) (hlen : window.len < wordBound)
    (haddr : window.start + pos < wordBound) (checksum : Bool) :
    exists token held, window.protoAt pos n checksum = some token ∧
      fromProto token = .ok held ∧ held.start = window.start + pos ∧
      held.len = n ∧ held.rails = window.rails := by
  cases hrails : window.rails with
  | nil => exact absurd hrails window.addressable
  | cons rail rest =>
    have hproto : window.protoAt pos n checksum =
        some { addr := window.start + pos, len := n,
               rails := (rail :: rest).map TokenRail.wire,
               checksum := checksum } := by
      unfold protoAt
      rw [hrails, List.head?_cons, Option.bind_some,
        sliceOn_of_inside hinside hlen, if_pos haddr]
      rfl
    have hheld := new_of_fits (List.cons_ne_nil rail rest) hpos
      (show window.start + pos + 0 < wordBound from haddr)
    exact ⟨_, _, hproto, (fromProto_wire _ _ _ _).trans hheld, rfl, rfl,
      rfl⟩

theorem protoAt_of_overflow {pos n : Nat} (hinside : pos + n ≤ window.len)
    (hlen : window.len < wordBound)
    (haddr : ¬ window.start + pos < wordBound) (checksum : Bool) :
    window.protoAt pos n checksum = none := by
  unfold protoAt
  cases window.rails.head? with
  | none => rfl
  | some rail =>
    rw [Option.bind_some, sliceOn_of_inside hinside hlen, if_neg haddr]
    rfl

end

end TokenWindow
end Transport
end Pacer
