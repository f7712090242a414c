import Pacer.Client.AnnouncePump
import Pacer.Foundation.Buffer
import Pacer.Foundation.LittleEndian
import Pacer.Transport.TokenWindow

/-!
# The announce message

A writer names its rails to a client in one message of a fixed layout.  It is
written into a zeroed buffer, field by field, and read back by offset.

The main result: messages and lists of rails correspond one to one, and the
decoder never reads outside its input.
-/

namespace Pacer
namespace Transport

open Foundation
open Foundation.Buffer
open Client (headerBytes entryBytes maxAnnouncedRails)

def announceVersion : UInt8 := 1

structure AnnouncedRail where
  gid : Bytes
  qpn : UInt32
  rail : UInt16
  sized : gid.length = gidBytes

inductive AnnounceError where
  | noRails
  | tooManyRails (count : Nat)
  | short (len : Nat)
  | version (found : UInt8)
  | zeroRails
  | aboveLimit (count : Nat)
  | length (count want got : Nat)
  | noBytesAt (off n : Nat)
  | gidLength (found : Nat)

namespace Announce

def toBeBytes (width n : Nat) : Bytes :=
  (LittleEndian.toBytes width n).reverse

def fromBeBytes (bytes : Bytes) : Nat :=
  LittleEndian.ofBytes bytes.reverse

def entryFields (rail : AnnouncedRail) (i : Nat) : List (Nat × Bytes) :=
  let entry := headerBytes + i * entryBytes
  [(entry, rail.gid), (entry + 16, toBeBytes 4 rail.qpn.toNat),
    (entry + 20, toBeBytes 2 rail.rail.toNat)]

def encode (rails : List AnnouncedRail) : Except AnnounceError Bytes :=
  if rails.isEmpty then .error .noRails
  else if maxAnnouncedRails < rails.length then
    .error (.tooManyRails rails.length)
  else
    .ok (copyAll (List.replicate (headerBytes + rails.length * entryBytes) 0)
      ((0, [announceVersion]) :: (1, [UInt8.ofNat rails.length]) ::
        rails.zipIdx.flatMap fun (rail, i) => entryFields rail i))

def entryField (entry : Bytes) (off n : Nat) : Except AnnounceError Bytes :=
  match field? entry off n with
  | some bytes => .ok bytes
  | none => .error (.noBytesAt off n)

def decodeEntry (entry : Bytes) : Except AnnounceError AnnouncedRail := do
  let gid <- entryField entry 0 16
  let qpn <- entryField entry 16 4
  let rail <- entryField entry 20 2
  if h : gid.length = gidBytes then
    .ok { gid := gid, qpn := UInt32.ofNat (fromBeBytes qpn),
          rail := UInt16.ofNat (fromBeBytes rail), sized := h }
  else .error (.gidLength gid.length)

def asChunks (n : Nat) : Nat -> Bytes -> List Bytes
  | 0, _ => []
  | k + 1, bytes => bytes.take n :: asChunks n k (bytes.drop n)

def decodeRails (bytes : Bytes) (count : Nat) :
    Option (Except AnnounceError (List AnnouncedRail)) :=
  let want := headerBytes + count * entryBytes
  if count = 0 then some (.error .zeroRails)
  else if maxAnnouncedRails < count then some (.error (.aboveLimit count))
  else if bytes.length ≠ want then
    some (.error (.length count want bytes.length))
  else
    (field? bytes headerBytes (bytes.length - headerBytes)).map fun body =>
      (asChunks entryBytes (body.length / entryBytes) body).mapM decodeEntry

/-- What a message says; `none` is an index or a slice outside of it. -/
def decode (bytes : Bytes) :
    Option (Except AnnounceError (List AnnouncedRail)) :=
  if bytes.length < headerBytes then some (.error (.short bytes.length))
  else
    (bytes[0]?).bind fun version =>
      if version ≠ announceVersion then some (.error (.version version))
      else (bytes[1]?).bind fun count => decodeRails bytes count.toNat

/-!
## One entry
-/

def entryOf (rail : AnnouncedRail) : Bytes :=
  rail.gid ++ (toBeBytes 4 rail.qpn.toNat ++ toBeBytes 2 rail.rail.toNat)

@[simp] theorem length_toBeBytes (width n : Nat) :
    (toBeBytes width n).length = width := by
  simp [toBeBytes]

theorem length_entryOf (rail : AnnouncedRail) :
    (entryOf rail).length = entryBytes := by
  simp [entryOf, rail.sized, gidBytes, entryBytes]

theorem fromBeBytes_toBeBytes {width n : Nat} (h : n < 256 ^ width) :
    fromBeBytes (toBeBytes width n) = n := by
  rw [fromBeBytes, toBeBytes, List.reverse_reverse,
    LittleEndian.ofBytes_toBytes h]

theorem toBeBytes_fromBeBytes {width : Nat} {bytes : Bytes}
    (h : bytes.length = width) :
    toBeBytes width (fromBeBytes bytes) = bytes ∧
      fromBeBytes bytes < 256 ^ width := by
  rw [← List.length_reverse] at h
  rcases LittleEndian.toBytes_ofBytes h with ⟨hbytes, hlt⟩
  constructor
  · rw [toBeBytes, fromBeBytes, hbytes, List.reverse_reverse]
  · exact hlt

theorem entryField_of_le {entry : Bytes} {off n : Nat}
    (h : off + n ≤ entry.length) :
    entryField entry off n = .ok (field entry off n) := by
  rw [entryField, field?, if_pos h]

theorem decodeEntry_ok {entry : Bytes} (h : entry.length = entryBytes) :
    exists rail, decodeEntry entry = .ok rail ∧ entryOf rail = entry := by
  change entry.length = 22 at h
  have hgid : (field entry 0 16).length = gidBytes := length_field (by lia)
  have hqpn : (field entry 16 4).length = 4 := length_field (by lia)
  have hrail : (field entry 20 2).length = 2 := length_field (by lia)
  rcases toBeBytes_fromBeBytes hqpn with ⟨hqpn, hqpnLt⟩
  rcases toBeBytes_fromBeBytes hrail with ⟨hrail, hrailLt⟩
  unfold decodeEntry
  rw [entryField_of_le (by lia), entryField_of_le (by lia),
    entryField_of_le (by lia)]
  refine ⟨_, dif_pos hgid, ?_⟩
  unfold entryOf
  dsimp only
  rw [UInt32.toNat_ofNat_of_lt' hqpnLt, UInt16.toNat_ofNat_of_lt' hrailLt, hqpn,
    hrail]
  have hlast : field entry 20 2 = (entry.drop 16).drop 4 := by
    rw [field, List.drop_drop, List.take_of_length_le (by simp; lia)]
  rw [hlast, field, field, List.take_append_drop, List.drop_zero,
    List.take_append_drop]

theorem decodeEntry_entryOf (rail : AnnouncedRail) :
    decodeEntry (entryOf rail) = .ok rail := by
  rcases decodeEntry_ok (length_entryOf rail) with ⟨found, hfound, heq⟩
  have hsized := found.sized.trans rail.sized.symm
  rcases List.append_inj heq hsized with ⟨hgid, hrest⟩
  rcases List.append_inj hrest (by simp) with ⟨hqpn, hrail⟩
  have hqpn' := congrArg fromBeBytes hqpn
  have hrail' := congrArg fromBeBytes hrail
  rw [fromBeBytes_toBeBytes found.qpn.toNat_lt,
    fromBeBytes_toBeBytes rail.qpn.toNat_lt] at hqpn'
  rw [fromBeBytes_toBeBytes found.rail.toNat_lt,
    fromBeBytes_toBeBytes rail.rail.toNat_lt] at hrail'
  rw [hfound]
  cases found
  cases rail
  congr 2
  · exact UInt32.toNat_inj.mp hqpn'
  · exact UInt16.toNat_inj.mp hrail'

/-!
## The whole message
-/

theorem mapM_asChunks {k : Nat} {bytes : Bytes}
    (h : bytes.length = k * entryBytes) :
    exists rails, (asChunks entryBytes k bytes).mapM decodeEntry = .ok rails ∧
      rails.length = k ∧ rails.flatMap entryOf = bytes := by
  induction k generalizing bytes with
  | zero =>
    rw [Nat.zero_mul] at h
    exact ⟨[], rfl, rfl, (List.eq_nil_of_length_eq_zero h).symm⟩
  | succ k ih =>
    rw [Nat.add_one_mul] at h
    have hdrop : (bytes.drop entryBytes).length = k * entryBytes := by
      rw [List.length_drop, h, Nat.add_sub_cancel]
    have htake : (bytes.take entryBytes).length = entryBytes := by
      rw [List.length_take, h, Nat.min_eq_left (Nat.le_add_left _ _)]
    rcases ih hdrop with ⟨rest, hrest, hlength, hbytes⟩
    rcases decodeEntry_ok htake with ⟨rail, hrail, hentry⟩
    refine ⟨rail :: rest, ?_, ?_, ?_⟩
    · rw [asChunks, List.mapM_cons, hrail, hrest]
      rfl
    · rw [List.length_cons, hlength]
    · rw [List.flatMap_cons, hentry, hbytes, List.take_append_drop]

theorem mapM_flatMap (rails : List AnnouncedRail) :
    (asChunks entryBytes rails.length (rails.flatMap entryOf)).mapM
      decodeEntry = .ok rails := by
  induction rails with
  | nil => rfl
  | cons rail rest ih =>
    have hlength := length_entryOf rail
    rw [List.length_cons, asChunks, List.flatMap_cons, List.take_left' hlength,
      List.drop_left' hlength, List.mapM_cons, decodeEntry_entryOf, ih]
    rfl

theorem copyAll_entries (rails : List AnnouncedRail) {front : Bytes} {i : Nat}
    (h : front.length = headerBytes + i * entryBytes) :
    copyAll (front ++ List.replicate (rails.length * entryBytes) 0)
      ((rails.zipIdx i).flatMap fun (rail, i) => entryFields rail i) =
        front ++ rails.flatMap entryOf := by
  induction rails generalizing front i with
  | nil => simp [copyAll]
  | cons rail rest ih =>
    have hgid : rail.gid.length = 16 := rail.sized
    have hfront : (front ++ entryOf rail).length =
        headerBytes + (i + 1) * entryBytes := by
      rw [List.length_append, h, length_entryOf, Nat.add_one_mul,
        Nat.add_assoc]
    have hzeros : (rest.length + 1) * entryBytes - 16 - 4 - 2 =
        rest.length * entryBytes := by
      rw [Nat.add_one_mul]
      rfl
    rw [List.zipIdx_cons, List.flatMap_cons, List.flatMap_cons,
      ← List.append_assoc, ← ih hfront, List.length_cons]
    dsimp only [entryFields, List.cons_append, List.nil_append]
    rw [copyAll, copyAll, copyAll, copyAt_append h.symm,
      copyAt_append (by simp [h, hgid]), copyAt_append (by simp [h, hgid])]
    simp [entryOf, hgid, hzeros]

theorem encode_ok_iff (rails : List AnnouncedRail) (message : Bytes) :
    encode rails = .ok message <->
      rails ≠ [] ∧ rails.length ≤ maxAnnouncedRails ∧
        announceVersion :: UInt8.ofNat rails.length :: rails.flatMap entryOf =
          message := by
  have hentries := @copyAll_entries rails
    [announceVersion, UInt8.ofNat rails.length] 0 rfl
  unfold encode
  rw [List.replicate_add]
  constructor
  · intro h
    split_ifs at h with hempty hmany
    rw [List.isEmpty_iff] at hempty
    cases h
    exact ⟨hempty, Nat.not_lt.mp hmany, hentries.symm⟩
  · rintro ⟨hsome, hfew, rfl⟩
    rw [if_neg (by simpa using hsome), if_neg (Nat.not_lt.mpr hfew)]
    exact congrArg Except.ok hentries

theorem length_flatMap_entryOf (rails : List AnnouncedRail) :
    (rails.flatMap entryOf).length = rails.length * entryBytes := by
  simp [List.length_flatMap, length_entryOf]

theorem decode_cons (version count : UInt8) (body : Bytes) :
    decode (version :: count :: body) =
      if version ≠ announceVersion then some (.error (.version version))
      else decodeRails (version :: count :: body) count.toNat :=
  if_neg (Nat.not_lt.mpr (Nat.le_add_left 2 body.length))

theorem decodeRails_of_length {version count : UInt8} {body : Bytes}
    {n : Nat} (hpos : n ≠ 0) (hfew : n ≤ maxAnnouncedRails)
    (hbody : body.length = n * entryBytes) :
    decodeRails (version :: count :: body) n =
      some ((asChunks entryBytes n body).mapM decodeEntry) := by
  have hlength : (version :: count :: body).length =
      headerBytes + n * entryBytes := by
    rw [List.length_cons, List.length_cons, hbody]
    exact Nat.add_comm _ 2
  have hfield : field? (version :: count :: body) headerBytes
      ((version :: count :: body).length - headerBytes) = some body := by
    rw [field?, if_pos (by lia), field]
    simp [headerBytes]
  unfold decodeRails
  rw [hfield, if_neg hpos, if_neg (Nat.not_lt.mpr hfew),
    if_neg (not_not.mpr hlength), Option.map_some, hbody,
    Nat.mul_div_cancel n (by decide)]

theorem decode_of_encode {rails : List AnnouncedRail} {message : Bytes}
    (h : encode rails = .ok message) : decode message = some (.ok rails) := by
  rcases (encode_ok_iff rails message).mp h with ⟨hsome, hfew, rfl⟩
  have hcount : (UInt8.ofNat rails.length).toNat = rails.length :=
    UInt8.toNat_ofNat_of_lt' (Nat.lt_of_le_of_lt hfew (by decide))
  have hpos : rails.length ≠ 0 := by
    simpa using hsome
  rw [decode_cons, if_neg (not_not.mpr rfl), hcount,
    decodeRails_of_length hpos hfew (length_flatMap_entryOf rails),
    mapM_flatMap]

theorem decode_cases (message : Bytes) :
    (exists error, decode message = some (.error error)) ∨
      exists rails, decode message = some (.ok rails) ∧
        encode rails = .ok message := by
  rcases message with _ | ⟨version, _ | ⟨count, body⟩⟩
  · exact Or.inl ⟨_, rfl⟩
  · exact Or.inl ⟨_, rfl⟩
  rw [decode_cons]
  by_cases hversion : version = announceVersion
  · rw [if_neg (not_not.mpr hversion)]
    by_cases hlength : count.toNat ≠ 0 ∧ count.toNat ≤ maxAnnouncedRails ∧
        body.length = count.toNat * entryBytes
    · rcases hlength with ⟨hpos, hfew, hbody⟩
      rcases mapM_asChunks hbody with ⟨rails, hrails, hcount, hbytes⟩
      rw [decodeRails_of_length hpos hfew hbody, hrails]
      refine Or.inr ⟨rails, rfl, ?_⟩
      rw [encode_ok_iff, hcount, hbytes, hversion, UInt8.ofNat_toNat]
      refine ⟨?_, hfew, rfl⟩
      rw [← hcount] at hpos
      simpa using hpos
    · unfold decodeRails
      dsimp only
      split_ifs with hzero hmany hother
      · exact Or.inl ⟨_, rfl⟩
      · exact Or.inl ⟨_, rfl⟩
      · exact Or.inl ⟨_, rfl⟩
      · refine absurd ⟨hzero, Nat.not_lt.mp hmany, ?_⟩ hlength
        change ¬ body.length + 2 ≠ 2 + count.toNat * entryBytes at hother
        lia
  · exact Or.inl ⟨_, if_pos hversion⟩

/-- Messages and the lists of rails they carry correspond one to one, decoding
reads no byte that is not there, and a message is its version, its count and
entries of 22 bytes, with nothing else. -/
theorem announce_is_bijective :
    (forall rails message,
      encode rails = .ok message <-> decode message = some (.ok rails)) ∧
    (forall message, exists answer, decode message = some answer) ∧
    forall rails message, encode rails = .ok message ->
      rails ≠ [] ∧ rails.length ≤ maxAnnouncedRails ∧
        announceVersion :: UInt8.ofNat rails.length :: rails.flatMap entryOf =
          message := by
  refine ⟨?_, ?_, fun rails message => (encode_ok_iff rails message).mp⟩
  · intro rails message
    refine ⟨decode_of_encode, ?_⟩
    intro h
    rcases decode_cases message with ⟨error, herror⟩ | ⟨found, hfound, hencode⟩
    · rw [herror] at h
      cases h
    · rw [hfound] at h
      cases h
      exact hencode
  · intro message
    rcases decode_cases message with ⟨error, herror⟩ | ⟨found, hfound, _⟩
    · exact ⟨_, herror⟩
    · exact ⟨_, hfound⟩

end Announce

end Transport
end Pacer
