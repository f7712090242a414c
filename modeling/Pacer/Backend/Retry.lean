import Mathlib.Algebra.Ring.Nat
import Pacer.Foundation.ByteFile
import Pacer.Foundation.Checked

/-!
# Retries of a chunk read

A read of a chunk from the backend is attempted again while it fails for a reason
that may pass, up to a number of attempts.  Before each further attempt it waits,
twice as long every time up to a ceiling, and for a part of that time only that
depends on the chunk and the attempt.
-/

namespace Pacer
namespace Backend

open Foundation

/-!
## The jitter

The index and the attempt are folded into one word, and the word is mixed.
-/

def goldenGamma : UInt64 := 0x9E3779B97F4A7C15
def mixA : UInt64 := 0xBF58476D1CE4E5B9
def mixB : UInt64 := 0x94D049BB133111EB

def mix (jitterIndex : UInt64) (attempt : UInt32) : UInt64 :=
  let z := jitterIndex * goldenGamma + attempt.toUInt64 * goldenGamma
  let z := (z ^^^ (z >>> 30)) * mixA
  let z := (z ^^^ (z >>> 27)) * mixB
  z ^^^ (z >>> 31)

/-- Of a word and its own high bits the sum tells the word: what two such words
differ in equals its own shift, and so is nothing. -/
theorem xorShift_inj {k x y : UInt64} (hk : k.toNat % 64 ≠ 0)
    (h : x ^^^ (x >>> k) = y ^^^ (y >>> k)) : x = y := by
  apply UInt64.xor_eq_zero_iff.mp
  have hsum : (x ^^^ y) ^^^ ((x ^^^ y) >>> k) = 0 :=
    calc (x ^^^ y) ^^^ ((x ^^^ y) >>> k)
        = (x ^^^ (x >>> k)) ^^^ (y ^^^ (y >>> k)) := by
          rw [UInt64.shiftRight_xor]
          ac_rfl
      _ = 0 := UInt64.xor_eq_zero_iff.mpr h
  have hself := congrArg UInt64.toNat (UInt64.xor_eq_zero_iff.mp hsum)
  rw [UInt64.toNat_shiftRight, Nat.shiftRight_eq_div_pow] at hself
  apply UInt64.toNat_inj.mp
  apply Nat.eq_zero_of_not_pos
  intro hpos
  exact Nat.ne_of_gt (Nat.div_lt_self hpos (Nat.one_lt_two_pow hk)) hself

theorem mul_inj_of_inverse {a b x y : UInt64} (hab : a * b = 1)
    (h : x * a = y * a) : x = y := by
  have hb := congrArg (· * b) h
  simpa [UInt64.mul_assoc, hab] using hb

theorem mix_eq_iff (i j : UInt64) (a b : UInt32) :
    mix i a = mix j b <-> i + a.toUInt64 = j + b.toUInt64 := by
  constructor
  · intro h
    have hgamma : forall n m : UInt64, n * goldenGamma + m * goldenGamma =
        (n + m) * goldenGamma := fun n m => (UInt64.add_mul).symm
    have hB := mul_inj_of_inverse (b := 0x319642b2d24d8ec3) rfl
      (xorShift_inj (by decide) h)
    have hA := mul_inj_of_inverse (b := 0x96de1b173f119089) rfl
      (xorShift_inj (by decide) hB)
    have hz := xorShift_inj (by decide) hA
    rw [hgamma, hgamma] at hz
    exact mul_inj_of_inverse (b := 0xf1de83e19937733d) rfl hz
  · intro h
    unfold mix
    rw [← UInt64.add_mul, ← UInt64.add_mul, h]

/-- Two pairs of a chunk and an attempt draw different words exactly where their
sums differ. -/
theorem mix_separates_iff (i j : UInt64) (a b : UInt32)
    (hi : i.toNat < 2 ^ 32) (hj : j.toNat < 2 ^ 32) :
    (mix i a = mix j b -> i = j ∧ a = b) <->
      (i.toNat + a.toNat = j.toNat + b.toNat -> i = j ∧ a = b) := by
  have ha := a.toNat_lt
  have hb := b.toNat_lt
  have hsum : i + a.toUInt64 = j + b.toUInt64 <->
      i.toNat + a.toNat = j.toNat + b.toNat := by
    rw [← UInt64.toNat_inj, UInt64.toNat_add, UInt64.toNat_add,
      UInt32.toNat_toUInt64, UInt32.toNat_toUInt64]
    lia
  rw [mix_eq_iff, hsum]

theorem mix_separates_iff_neighbours : mix 0 1 ≠ mix 1 1 := by
  intro h
  have hsame := (mix_separates_iff 0 1 1 1 (by decide) (by decide)).mpr
    (by decide) h
  exact absurd hsame.1 (by decide)

/-- The second attempt of a chunk draws what the first of the next one draws. -/
theorem mix_of_next_chunk :
    mix 0 2 = mix 1 1 ∧ ¬ ((0 : UInt64) = 1 ∧ (2 : UInt32) = 1) := by
  decide

/-!
## The wait
-/

def durationMax : Nat := (wordBound - 1) * 10 ^ 9 + 999999999

def maxBackoffShift : Nat := 16
def jitterScale : Nat := 2 ^ 10

structure RetryPolicy where
  maxAttempts : UInt32
  baseBackoff : Nat
  maxBackoff : Nat
deriving DecidableEq, Repr

def RetryPolicy.backoff (policy : RetryPolicy) (attempt : Nat)
    (jitterIndex : UInt64) : Option Nat :=
  let exp := min (attempt - 1) maxBackoffShift
  let ceiling :=
    min (min (policy.baseBackoff * 2 ^ exp) durationMax) policy.maxBackoff
  let half := min (ceiling / 2) (wordBound - 1)
  let fraction := (mix jitterIndex (.ofNat attempt)).toNat % jitterScale
  Checked.add wordBound half
    (min (half * fraction) (wordBound - 1) / jitterScale)

def oneDay : Nat := 24 * 60 * 60 * 10 ^ 9

variable {policy : RetryPolicy}

def RetryPolicy.Waits (policy : RetryPolicy) (attempt wait : Nat) : Prop :=
  let ceiling := min (policy.baseBackoff * 2 ^ min (attempt - 1) maxBackoffShift)
    policy.maxBackoff
  ceiling ≤ 2 * wait + 1 ∧ wait ≤ ceiling

theorem exists_jittered {half fraction : Nat} (hhalf : half ≤ oneDay)
    (hfraction : fraction < jitterScale) :
    exists wait, Checked.add wordBound (min half (wordBound - 1))
        (min (min half (wordBound - 1) * fraction) (wordBound - 1) /
          jitterScale) = some wait ∧ half ≤ wait ∧ wait ≤ 2 * half := by
  have hday : oneDay * jitterScale < wordBound := by decide
  have hword : half * jitterScale < wordBound :=
    Nat.lt_of_le_of_lt (Nat.mul_le_mul_right jitterScale hhalf) hday
  have hscaled : half * fraction ≤ half * jitterScale :=
    Nat.mul_le_mul_left half (Nat.le_of_lt hfraction)
  have hpart : half * fraction / jitterScale ≤ half :=
    Nat.div_le_of_le_mul (Nat.mul_comm half jitterScale ▸ hscaled)
  have hlarge : 2 * half ≤ half * jitterScale := by
    unfold jitterScale
    lia
  have hminHalf : min half (wordBound - 1) = half := by lia
  have hminPart : min (half * fraction) (wordBound - 1) = half * fraction := by
    lia
  rw [hminHalf, hminPart]
  exact ⟨_, Checked.add_of_lt (by lia), by lia, by lia⟩

theorem exists_backoff (hbase : policy.baseBackoff ≤ oneDay)
    (hmax : policy.maxBackoff ≤ oneDay) (attempt : Nat) (jitterIndex : UInt64) :
    exists wait, policy.backoff attempt jitterIndex = some wait ∧
      policy.Waits attempt wait := by
  have hpow : 2 ^ min (attempt - 1) maxBackoffShift ≤ 2 ^ maxBackoffShift :=
    Nat.pow_le_pow_right (by decide) (Nat.min_le_right _ _)
  have hraised := Nat.le_trans (Nat.mul_le_mul hbase hpow)
    (by decide : oneDay * 2 ^ maxBackoffShift ≤ durationMax)
  unfold RetryPolicy.backoff RetryPolicy.Waits
  dsimp only
  rw [Nat.min_eq_left hraised]
  generalize hceiling : min (policy.baseBackoff * _) policy.maxBackoff = ceiling
  have hday : ceiling ≤ oneDay := by lia
  rcases exists_jittered (Nat.le_trans (Nat.div_le_self ceiling 2) hday)
    (Nat.mod_lt (mix jitterIndex (.ofNat attempt)).toNat (by decide)) with
    ⟨wait, hwait, hlow, hhigh⟩
  exact ⟨wait, hwait, by lia, by lia⟩

/-!
## The loop
-/

inductive AttemptError where
  | missing
  | permanent (message : String)
  | transient (message : String)
deriving DecidableEq, Repr

structure ChunkBody where
  body : Bytes
  attempts : Nat
deriving DecidableEq, Repr

inductive BackendReadErrorKind where
  | missing
  | permanent (message : String)
  | exhausted (last : String)
deriving DecidableEq, Repr

structure BackendReadError where
  kind : BackendReadErrorKind
  attempts : Nat
deriving DecidableEq, Repr

abbrev Outcome := Except AttemptError Bytes

/-- What became of a read: the attempts that were made, the waits between them,
and the answer. -/
structure Retried where
  calls : Nat
  waits : List Nat
  result : Except BackendReadError ChunkBody

def retryingFrom (policy : RetryPolicy) (jitterIndex : UInt64)
    (attemptOp : Nat -> Outcome) (budget : Nat) :
    Nat -> Nat -> String -> Option Retried
  | 0, _, last => some ⟨0, [], .error ⟨.exhausted last, budget⟩⟩
  | left + 1, attempt, _ =>
    match attemptOp attempt with
    | .ok body => some ⟨1, [], .ok ⟨body, attempt⟩⟩
    | .error .missing => some ⟨1, [], .error ⟨.missing, attempt⟩⟩
    | .error (.permanent m) => some ⟨1, [], .error ⟨.permanent m, attempt⟩⟩
    | .error (.transient m) =>
      if attempt = budget then
        some ⟨1, [], .error ⟨.exhausted m, budget⟩⟩
      else do
        let delay <- policy.backoff attempt jitterIndex
        let rest <- retryingFrom policy jitterIndex attemptOp budget left
          (attempt + 1) m
        some ⟨rest.calls + 1, delay :: rest.waits, rest.result⟩

def RetryPolicy.budget (policy : RetryPolicy) : Nat :=
  max policy.maxAttempts.toNat 1

def retrying (policy : RetryPolicy) (jitterIndex : UInt64)
    (attemptOp : Nat -> Outcome) : Option Retried :=
  retryingFrom policy jitterIndex attemptOp policy.budget policy.budget 1 ""

def settled (attempt : Nat) : Outcome ->
    Option (Except BackendReadError ChunkBody)
  | .ok body => some (.ok ⟨body, attempt⟩)
  | .error .missing => some (.error ⟨.missing, attempt⟩)
  | .error (.permanent m) => some (.error ⟨.permanent m, attempt⟩)
  | .error (.transient _) => none

/-- What the attempts from `first` on come to: the first that settles the read,
or all of them; and a wait between each two, of the length that is meant. -/
structure Retried.Faithful (policy : RetryPolicy) (attemptOp : Nat -> Outcome)
    (first : Nat) (r : Retried) : Prop where
  outcome :
    (exists k, first ≤ k ∧ k ≤ policy.budget ∧
      (forall n, first ≤ n -> n < k -> settled n (attemptOp n) = none) ∧
      settled k (attemptOp k) = some r.result ∧ first + r.calls = k + 1) ∨
    ((forall n, first ≤ n -> n ≤ policy.budget ->
        settled n (attemptOp n) = none) ∧
      (exists m, attemptOp policy.budget = .error (.transient m) ∧
        r.result = .error ⟨.exhausted m, policy.budget⟩) ∧
      first + r.calls = policy.budget + 1)
  spaced : r.waits.length + 1 = r.calls
  waits : forall (n : Nat) wait, r.waits[n]? = some wait ->
    policy.Waits (first + n) wait

variable {attemptOp : Nat -> Outcome} {jitterIndex : UInt64}
  {left attempt wait : Nat} {result : Except BackendReadError ChunkBody}

theorem retryingFrom_of_settled
    (h : settled attempt (attemptOp attempt) = some result) (budget : Nat)
    (last : String) :
    retryingFrom policy jitterIndex attemptOp budget (left + 1) attempt last =
      some ⟨1, [], result⟩ := by
  unfold retryingFrom
  unfold settled at h
  split at h <;> cases h <;> simp [*]

theorem transient_of_settled {outcome : Outcome}
    (h : settled attempt outcome = none) :
    exists m, outcome = .error (.transient m) := by
  unfold settled at h
  split at h <;> cases h
  exact ⟨_, rfl⟩

theorem Retried.Faithful.stop
    (h : settled attempt (attemptOp attempt) = some result)
    (hle : attempt ≤ policy.budget) :
    Retried.Faithful policy attemptOp attempt ⟨1, [], result⟩ where
  outcome := .inl ⟨attempt, Nat.le_refl _, hle, by lia, h, rfl⟩
  spaced := rfl
  waits := by simp

theorem Retried.Faithful.cons {rest : Retried}
    (h : rest.Faithful policy attemptOp (attempt + 1))
    (hnone : settled attempt (attemptOp attempt) = none)
    (hwait : policy.Waits attempt wait) :
    Retried.Faithful policy attemptOp attempt
      ⟨rest.calls + 1, wait :: rest.waits, rest.result⟩ := by
  have hfrom : forall n, attempt ≤ n ->
      (attempt + 1 ≤ n -> settled n (attemptOp n) = none) ->
        settled n (attemptOp n) = none := by
    intro n hn hlater
    rcases Nat.eq_or_lt_of_le hn with rfl | hlt
    · exact hnone
    · exact hlater hlt
  constructor
  · rcases h.outcome with
      ⟨k, hk, hle, hfirst, hresult, hcalls⟩ | ⟨hall, hlast, hcalls⟩
    · left
      refine ⟨k, by lia, hle, ?_, hresult, by dsimp only; lia⟩
      intro n hn hlt
      exact hfrom n hn fun hlater => hfirst n hlater hlt
    · right
      refine ⟨?_, hlast, by dsimp only; lia⟩
      intro n hn hle
      exact hfrom n hn fun hlater => hall n hlater hle
  · exact congrArg (· + 1) h.spaced
  · intro n found hfound
    cases n with
    | zero =>
      cases hfound
      exact hwait
    | succ n =>
      have hlater := h.waits n found hfound
      rw [Nat.add_assoc, Nat.add_comm 1] at hlater
      exact hlater

theorem exists_retryingFrom (hbase : policy.baseBackoff ≤ oneDay)
    (hmax : policy.maxBackoff ≤ oneDay) (jitterIndex : UInt64)
    (attemptOp : Nat -> Outcome) (last : String)
    (hleft : attempt + left = policy.budget) :
    exists r, retryingFrom policy jitterIndex attemptOp policy.budget (left + 1)
        attempt last = some r ∧ r.Faithful policy attemptOp attempt := by
  induction left generalizing attempt last with
  | zero =>
    cases hsettled : settled attempt (attemptOp attempt) with
    | some result =>
      exact ⟨_, retryingFrom_of_settled hsettled _ last,
        .stop hsettled (by lia)⟩
    | none =>
      rcases transient_of_settled hsettled with ⟨m, hm⟩
      refine ⟨⟨1, [], .error ⟨.exhausted m, policy.budget⟩⟩, ?_, .inr ?_,
        rfl, by simp⟩
      · simp [retryingFrom, hm, ← hleft]
      · refine ⟨?_, ⟨m, by rw [← hleft]; exact hm, rfl⟩, by dsimp only; lia⟩
        intro n hn hle
        have heq : n = attempt := by lia
        rw [heq]
        exact hsettled
  | succ left ih =>
    cases hsettled : settled attempt (attemptOp attempt) with
    | some result =>
      exact ⟨_, retryingFrom_of_settled hsettled _ last,
        .stop hsettled (by lia)⟩
    | none =>
      rcases transient_of_settled hsettled with ⟨m, hm⟩
      rcases exists_backoff hbase hmax attempt jitterIndex with
        ⟨wait, hbackoff, hwait⟩
      have hnext : attempt + 1 + left = policy.budget := by lia
      rcases ih m hnext with ⟨rest, hrest, hfaithful⟩
      refine ⟨_, ?_, hfaithful.cons hsettled hwait⟩
      have hmore : attempt ≠ policy.budget := by lia
      rw [retryingFrom, hm]
      simp [hmore, hbackoff, hrest]

/-- Every read ends, with the answer of the first attempt that settles it or
with the last failure of the budget, and it waits as long as is meant. -/
theorem retries_bounded_and_faithful (policy : RetryPolicy)
    (hbase : policy.baseBackoff ≤ oneDay) (hmax : policy.maxBackoff ≤ oneDay)
    (jitterIndex : UInt64) (attemptOp : Nat -> Outcome) :
    exists r, retrying policy jitterIndex attemptOp = some r ∧
      r.Faithful policy attemptOp 1 := by
  have hpos : 1 + (policy.budget - 1) = policy.budget :=
    Nat.add_sub_cancel' (Nat.le_max_right _ _)
  have hloop := exists_retryingFrom hbase hmax jitterIndex attemptOp "" hpos
  rw [Nat.add_comm _ 1, hpos] at hloop
  exact hloop

theorem retries_bounded_and_faithful_missing :
    exists r, retrying ⟨3, 50, 1000⟩ 7
        (fun n => .error (if n = 1 then .transient "reset" else .missing)) =
        some r ∧
      r.Faithful ⟨3, 50, 1000⟩
        (fun n => .error (if n = 1 then .transient "reset" else .missing)) 1 :=
  retries_bounded_and_faithful ⟨3, 50, 1000⟩ (by decide) (by decide) 7 _

end Backend
end Pacer
