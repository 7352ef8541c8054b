import Mathlib
/-!
# `i64` arithmetic that must not overflow

An `i64` is an `Int` in range. Each operation gives the exact result if that is an `i64` and nothing
otherwise: where Rust panics in a debug build, and wraps in a release build. Division truncates towards
zero.
-/

namespace I64

def Fits (x : Int) : Prop := -9223372036854775808 ≤ x ∧ x ≤ 9223372036854775807

instance (x : Int) : Decidable (Fits x) := inferInstanceAs (Decidable (_ ∧ _))

def exact (x : Int) : Option Int := if Fits x then some x else none

def sub (a b : Int) : Option Int := exact (a - b)
def mul (a b : Int) : Option Int := exact (a * b)
def div (a b : Int) : Option Int := exact (a.tdiv b)

theorem exact_fits {x : Int} (h : Fits x) : exact x = some x := if_pos h

theorem exact_not_fits {x : Int} (h : ¬ Fits x) : exact x = none := if_neg h

theorem sub_fits {a b : Int} (h : Fits (a - b)) : sub a b = some (a - b) := exact_fits h

theorem mul_fits {a b : Int} (h : Fits (a * b)) : mul a b = some (a * b) := exact_fits h

/-- Dividing by a positive number keeps the range. -/
theorem tdiv_fits {a b : Int} (ha : Fits a) (hb : 0 < b) : Fits (a.tdiv b) := by
  have habs : (a.tdiv b).natAbs ≤ a.natAbs := Int.natAbs_tdiv_le_natAbs a b
  unfold Fits at ha ⊢
  rcases Int.le_total 0 a with h | h
  · have hq := Int.tdiv_nonneg h hb.le
    omega
  · have hq := Int.tdiv_le_tdiv hb h
    rw [Int.zero_tdiv] at hq
    omega

theorem div_fits {a b : Int} (ha : Fits a) (hb : 0 < b) : div a b = some (a.tdiv b) := exact_fits (tdiv_fits ha hb)

/-! ## Truncated quotients -/

/-- Below zero, the quotient is negative only from one whole divisor on. -/
theorem tdiv_neg_iff {a b : Int} (hb : 0 < b) : a.tdiv b < 0 ↔ a ≤ -b := by
  constructor
  · intro h
    by_contra hlt
    have hle : (1 - b).tdiv b ≤ a.tdiv b := Int.tdiv_le_tdiv hb (by omega)
    have hzero : (1 - b).tdiv b = 0 := by
      rw [show (1 - b) = -(b - 1) by ring, Int.neg_tdiv, Int.tdiv_eq_zero_of_lt (by omega) (by omega), neg_zero]
    omega
  · intro h
    have hle : a.tdiv b ≤ (-b).tdiv b := Int.tdiv_le_tdiv hb h
    have hone : (-b).tdiv b = -1 := by rw [Int.neg_tdiv, Int.tdiv_self hb.ne']
    omega

theorem tdiv_lt {a b d : Int} (hb : 0 < b) (h : a.tdiv b < d) : a < d * b := by
  by_contra hle
  have hmono : (d * b).tdiv b ≤ a.tdiv b := Int.tdiv_le_tdiv hb (by omega)
  rw [Int.mul_tdiv_cancel _ hb.ne'] at hmono
  omega

theorem tdiv_le {a b d : Int} (hb : 0 < b) (h : a ≤ d * b) : a.tdiv b ≤ d := by
  have hmono : a.tdiv b ≤ (d * b).tdiv b := Int.tdiv_le_tdiv hb h
  rwa [Int.mul_tdiv_cancel _ hb.ne'] at hmono

end I64
