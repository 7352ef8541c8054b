import Cheti.Base.Utf8
import Cheti.Providers.Bunny
import Cheti.Providers.Infomaniak
import Cheti.Providers.Porkbun
import Cheti.Providers.PowerDns
/-!
# Truncated error bodies (src/providers/common.rs:277-289 and four copies)

| here | there |
| --- | --- |
| `cutFrom`                        | `while cut > 0 && !raw.is_char_boundary(cut) { cut -= 1; }` |
| `sliceTo`                        | `&raw[..cut]` |
| `truncateErrorBodyChecked`       | `truncate_error_body` (common.rs:278-289) |
| `Bunny.truncateChecked`          | `truncate` (bunny.rs:363-372) |
| `Infomaniak.truncateChecked`     | `truncate` (infomaniak.rs:318-328) |
| `Porkbun.truncateChecked`        | `truncate` (porkbun.rs:353-364) |
| `PowerDns.truncateChecked`       | `truncate` (powerdns.rs:278-287) |

The text comes from a remote server, so the cut may fall inside a character. Here the loop looks at one byte at a
time and a slice that is not at a boundary panics, which is `none`; `truncating_eq` says that it never is, and that the
`truncateAt` of the providers' models is what comes out.
-/

namespace Cheti

open Text

def truncationMark : Str := "…(truncated)".toList

def cutFrom (raw : Str) : Nat → Nat
  | 0 => 0
  | cut + 1 => if isCharBoundary raw (cut + 1) then cut + 1 else cutFrom raw cut

def sliceTo (raw : Str) (n : Nat) : Option Str := if isCharBoundary raw n then takeBytes raw n else none

/-- The body of the five functions, with the limit of each. -/
def truncating (max : Nat) (raw : Str) : Option Str :=
  if utf8Len raw ≤ max then some raw
  else
    let cut := cutFrom raw max
    (sliceTo raw cut).map (· ++ truncationMark)

def truncateErrorBodyChecked (raw : Str) : Option Str := truncating maxErrorBody raw

def Bunny.truncateChecked (text : Str) : Option Str := truncating Bunny.maxErrorMessage text

def Infomaniak.truncateChecked (raw : Str) : Option Str := truncating 512 raw

def Porkbun.truncateChecked (raw : Str) : Option Str := truncating Porkbun.maxErrorMessage raw

def PowerDns.truncateChecked (raw : Str) : Option Str := truncating PowerDns.maxErrorBody raw

/-! ## The cut -/

theorem cutFrom_le (raw : Str) (max : Nat) : cutFrom raw max ≤ max := by
  induction max with
  | zero => exact le_rfl
  | succ max ih =>
    unfold cutFrom
    split
    · exact le_rfl
    · exact Nat.le_succ_of_le ih

theorem isCharBoundary_cutFrom (raw : Str) (max : Nat) : isCharBoundary raw (cutFrom raw max) = true := by
  induction max with
  | zero => rfl
  | succ max ih =>
    unfold cutFrom
    split
    · rename_i h
      exact h
    · exact ih

/-- No boundary up to the limit is above the cut. -/
theorem le_cutFrom {raw : Str} {max n : Nat} (hn : n ≤ max) (hb : isCharBoundary raw n = true) : n ≤ cutFrom raw max := by
  induction max with
  | zero => exact hn
  | succ max ih =>
    unfold cutFrom
    split
    · exact hn
    · rename_i h
      have hne : n ≠ max + 1 := by
        rintro rfl
        exact h hb
      exact ih (by omega)

/-- The loop stops after three steps at most. -/
theorem cutFrom_ge {raw : Str} {max : Nat} (h : max < utf8Len raw) : max - 3 ≤ cutFrom raw max := by
  have hle := cutFrom_le raw max
  obtain ⟨j, hj, hlt, hnear⟩ := exists_boundary_above (isCharBoundary_cutFrom raw max) (lt_of_le_of_lt hle h)
  by_contra hfar
  have hbelow : j ≤ max := by omega
  exact absurd (le_cutFrom hbelow hj) (Nat.not_le_of_lt hlt)

/-! ## The slice -/

theorem takeBytes_eq_some {s first : Str} {n : Nat} :
    takeBytes s n = some first ↔ ∃ rest, s = first ++ rest ∧ utf8Len first = n := by
  induction s generalizing first n with
  | nil =>
    cases n with
    | zero =>
      simp only [takeBytes, Option.some.injEq]
      constructor
      · rintro rfl
        exact ⟨[], rfl, rfl⟩
      · rintro ⟨rest, h, -⟩
        exact (List.append_eq_nil_iff.1 h.symm).1.symm
    | succ n =>
      simp only [takeBytes, reduceCtorEq, false_iff]
      rintro ⟨rest, h, hlen⟩
      rw [(List.append_eq_nil_iff.1 h.symm).1] at hlen
      cases hlen
  | cons c s ih =>
    cases n with
    | zero =>
      simp only [takeBytes, Option.some.injEq]
      constructor
      · rintro rfl
        exact ⟨c :: s, rfl, rfl⟩
      · rintro ⟨rest, h, hlen⟩
        cases first with
        | nil => rfl
        | cons d first =>
          have hpos := d.utf8Size_pos
          rw [utf8Len_cons] at hlen
          omega
    | succ n =>
      have hstep : takeBytes (c :: s) (n + 1) =
          if c.utf8Size ≤ n + 1 then (takeBytes s (n + 1 - c.utf8Size)).map (c :: ·) else none := by
        rw [takeBytes]
        exact Nat.succ_ne_zero n
      rw [hstep]
      constructor
      · intro h
        split at h
        · obtain ⟨first', hfirst, rfl⟩ := Option.map_eq_some_iff.1 h
          obtain ⟨rest, rfl, hlen⟩ := ih.1 hfirst
          exact ⟨rest, rfl, by rw [utf8Len_cons]; omega⟩
        · cases h
      · rintro ⟨rest, h, hlen⟩
        cases first with
        | nil => cases hlen
        | cons d first =>
          obtain ⟨rfl, rfl⟩ := List.cons.inj h
          rw [utf8Len_cons] at hlen
          rw [if_pos (by omega), ih.2 ⟨rest, rfl, by omega⟩]
          rfl

/-- A slice at a boundary is in range. -/
theorem sliceTo_of_boundary {raw : Str} {n : Nat} (h : isCharBoundary raw n = true) :
    ∃ first rest, sliceTo raw n = some first ∧ raw = first ++ rest ∧ utf8Len first = n := by
  obtain ⟨first, rest, hraw, hlen⟩ := isCharBoundary_iff.1 h
  refine ⟨first, rest, ?_, hraw, hlen⟩
  rw [sliceTo, if_pos h, takeBytes_eq_some]
  exact ⟨rest, hraw, hlen⟩

/-- A boundary is where `takeBytes` finds a first part. -/
theorem takeBytes_isSome {raw : Str} {n : Nat} : (takeBytes raw n).isSome = true ↔ isCharBoundary raw n = true := by
  rw [Option.isSome_iff_exists, isCharBoundary_iff]
  refine exists_congr fun first => ?_
  exact takeBytes_eq_some

theorem sliceTo_cutFrom (raw : Str) (max : Nat) : sliceTo raw (cutFrom raw max) = some (cutAt raw max) := by
  induction max with
  | zero => cases raw <;> rfl
  | succ max ih =>
    unfold cutFrom cutAt
    split
    · rename_i h
      obtain ⟨first, hfirst⟩ := Option.isSome_iff_exists.1 (takeBytes_isSome.2 h)
      rw [sliceTo, if_pos h, hfirst]
      rfl
    · rename_i h
      have hnone : takeBytes raw (max + 1) = none := by
        rw [← Option.not_isSome_iff_eq_none, takeBytes_isSome]
        exact h
      rw [ih, hnone]
      rfl

/-- **No panic**, and the result is that of the providers' models. -/
theorem truncating_eq (max : Nat) (raw : Str) : truncating max raw = some (truncateAt max raw) := by
  unfold truncating truncateAt
  split
  · rfl
  · simp only [sliceTo_cutFrom]
    rfl

/-- `out` keeps as much of `raw` as fits into 512 bytes without splitting a character. -/
structure Truncated (raw out : Str) : Prop where
  short : utf8Len raw ≤ 512 → out = raw
  long : 512 < utf8Len raw → ∃ first rest, raw = first ++ rest ∧ out = first ++ truncationMark ∧
    509 ≤ utf8Len first ∧ utf8Len first ≤ 512 ∧
      ∀ n ≤ 512, isCharBoundary raw n = true → n ≤ utf8Len first

theorem truncated_truncateErrorBody (raw : Str) : Truncated raw (truncateErrorBody raw) where
  short h := if_pos h
  long h := by
    obtain ⟨first, rest, hslice, hraw, hlen⟩ := sliceTo_of_boundary (isCharBoundary_cutFrom raw 512)
    have hout : truncateErrorBody raw = first ++ truncationMark := by
      have heq : truncating 512 raw = some (truncateErrorBody raw) := truncating_eq 512 raw
      simp only [truncating, if_neg (Nat.not_le_of_lt h), hslice] at heq
      exact (Option.some.inj heq).symm
    refine ⟨first, rest, hraw, hout, ?_, ?_, ?_⟩
    · rw [hlen]
      exact cutFrom_ge h
    · rw [hlen]
      exact cutFrom_le raw 512
    · intro n hn hb
      rw [hlen]
      exact le_cutFrom hn hb

/-- **Every copy truncates at the last boundary**: none of the five panics, they all return the same text, and it
is the longest that fits. -/
theorem truncates_at_boundary (raw : Str) :
    (∃ out, truncateErrorBodyChecked raw = some out ∧ Truncated raw out) ∧
      Bunny.truncateChecked raw = truncateErrorBodyChecked raw ∧
      Infomaniak.truncateChecked raw = truncateErrorBodyChecked raw ∧
      Porkbun.truncateChecked raw = truncateErrorBodyChecked raw ∧
      PowerDns.truncateChecked raw = truncateErrorBodyChecked raw :=
  ⟨⟨truncateErrorBody raw, truncating_eq 512 raw, truncated_truncateErrorBody raw⟩, rfl, rfl, rfl, rfl⟩

/-- 511 bytes, then a character of three: the cut is before it. -/
example : truncateErrorBody (List.replicate 511 'a' ++ ['…', 'b']) = List.replicate 511 'a' ++ truncationMark := by
  decide +kernel

end Cheti
