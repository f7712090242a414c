import Mathlib.Data.List.DropRight
import Pacer.Cache.Chunk

/-!
# Object versions at the backend

What the backend holds under a key is one version after another.  ETags
identify content: versions whose ETags are the same up to the surrounding
quotes have the same bytes.  The map from an unquoted ETag to the content it
names is a parameter of everything below, and a version carries the proof that
it agrees with it.
-/

namespace Pacer
namespace Daemon

open Foundation
open Cache

def trimQuotes (eTag : String) : String :=
  String.ofList ((eTag.toList.dropWhile (· = '"')).rdropWhile (· = '"'))

/-- Whether two ETags name the same version: both present, and equal once the
surrounding quotes are dropped. -/
def sameVersion (a b : Option String) : Bool :=
  match a, b with
  | some a, some b => trimQuotes a == trimQuotes b
  | _, _ => false

structure Version (contentOf : String -> Bytes) where
  eTag : Option String
  content : Bytes
  identified : forall e, eTag = some e -> content = contentOf (trimQuotes e)

theorem dropWhile_of_isPrefix {p : a -> Bool} {front xs : List a}
    (hfront : front <+: xs) (h : xs.dropWhile p = xs) :
    front.dropWhile p = front := by
  cases front with
  | nil => rfl
  | cons x rest =>
    rcases hfront with ⟨tail, rfl⟩
    have hx := List.dropWhile_eq_self_iff.mp h (Nat.succ_pos _)
    exact List.dropWhile_cons_of_neg hx

theorem trimQuotes_trimQuotes (eTag : String) :
    trimQuotes (trimQuotes eTag) = trimQuotes eTag := by
  have hfront := dropWhile_of_isPrefix
    (List.rdropWhile_prefix (· = '"') (l := eTag.toList.dropWhile (· = '"')))
    (List.dropWhile_idempotent (· = '"') eTag.toList)
  unfold trimQuotes
  rw [String.toList_ofList, hfront, List.rdropWhile_idempotent]

theorem sameVersion_iff (a b : Option String) :
    sameVersion a b = true <->
      exists x y, a = some x ∧ b = some y ∧ trimQuotes x = trimQuotes y := by
  unfold sameVersion
  cases a with
  | none => simp
  | some x =>
    cases b with
    | none => simp
    | some y => simp

/-!
## What the backend answers
-/

namespace Version

variable {contentOf : String -> Bytes}

def header (v : Version contentOf) : ObjectHeader :=
  { objectLen := v.content.length, eTag := v.eTag.map trimQuotes }

/-- A ranged GET of `[start, stop)`: an empty range is not asked for, a range
that begins past the end fails, and one that ends past it is clamped. -/
def readRange (v : Version contentOf) (start stop : Nat) : Option Bytes :=
  if stop ≤ start then some []
  else if v.content.length ≤ start then none
  else some (span v.content start stop)

end Version

/-- The body is chunk `index` of the content. -/
def ChunkAt (cfg : ChunkConfig) (content : Bytes) (index : Nat)
    (body : Bytes) : Prop :=
  exists lo hi, cfg.chunkBounds index content.length = some (lo, hi) ∧
    body = span content lo hi

def GenuineHeader (contentOf : String -> Bytes)
    (header : ObjectHeader) : Prop :=
  forall e, header.eTag = some e ->
    header.objectLen = (contentOf (trimQuotes e)).length

variable {contentOf : String -> Bytes}

theorem Version.genuine_header (v : Version contentOf) :
    GenuineHeader contentOf v.header := by
  intro e he
  rcases Option.map_eq_some_iff.mp he with ⟨given, hgiven, rfl⟩
  rw [trimQuotes_trimQuotes, ← v.identified given hgiven]
  rfl

variable {cfg : ChunkConfig} {body : Bytes} {index : Nat}

theorem ChunkAt.eq_chunkOf {content : Bytes}
    (h : ChunkAt cfg content index body) :
    body = cfg.chunkOf content index := by
  rcases h with ⟨lo, hi, hbounds, rfl⟩
  exact ChunkConfig.span_chunkBounds hbounds

theorem Version.chunkAt_of_readRange {v : Version contentOf} {lo hi : Nat}
    (hbounds : cfg.chunkBounds index v.content.length = some (lo, hi))
    (hread : v.readRange lo hi = some body) :
    ChunkAt cfg v.content index body := by
  refine ⟨lo, hi, hbounds, ?_⟩
  unfold readRange at hread
  split at hread
  · rename_i hempty
    cases hread
    exact (span_of_le v.content hempty).symm
  · split at hread
    · cases hread
    · cases hread
      rfl

theorem Version.chunkAt_of_readRange_width {v : Version contentOf}
    (hread : v.readRange (index * cfg.chunkSize)
      (index * cfg.chunkSize + cfg.chunkSize) = some body) :
    ChunkAt cfg v.content index body := by
  have hpos := cfg.positive
  unfold readRange at hread
  rw [if_neg (by lia)] at hread
  split at hread
  · cases hread
  rename_i hin
  cases hread
  refine ⟨_, _, ?_, (span_min_length v.content _ _).symm⟩
  rw [ChunkConfig.chunkBounds, if_neg hin]

end Daemon
end Pacer
