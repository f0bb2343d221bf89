/-
# Rows of bits, and straight lines on a grid

A picture kept as rows of a fixed stride: where a cell of a row lies, what
else lies there (`address_inj`), and which cells are the straight line
between two points. One coordinate of it goes a step at a time (`toward`),
the other is the true line's value, rounded to the nearest (`nearest`); the
error term that Bresenham's loop carries is what says when the rounded value
goes on (`nearest_succ`). In rational numbers the same line is `Ideal` (`mem_linePoints`).
-/
import Mathlib.Algebra.Order.Field.Rat
import Mathlib.Algebra.Order.Ring.Abs
import Mathlib.Data.Nat.Dist
import Mathlib.Data.Nat.Notation
import Mathlib.Tactic.Common
import Mathlib.Tactic.Linarith
import Mathlib.Tactic.Positivity
import Mathlib.Tactic.Ring

namespace Raster

/-! ### Rows -/

/-- Where column `x` of a row lies. -/
def address (stride row x : ℕ) : ℕ := row * stride + x

theorem address_le {stride row row' x x' : ℕ} (h : row ≤ row') (h' : x ≤ x') :
    address stride row x ≤ address stride row' x' :=
  Nat.add_le_add (Nat.mul_le_mul_right stride h) h'

/-- A column behind the row's end is one of a later row. -/
theorem address_inj {stride row row' x x' : ℕ} (hx : x < stride)
    (h : address stride row x = address stride row' x') : ∃ q, row = row' + q ∧ x' = x + q * stride := by
  unfold address at h
  have hle : row' ≤ row := by
    by_contra hlt
    have := Nat.mul_le_mul_right stride (show row + 1 ≤ row' by omega)
    rw [Nat.succ_mul] at this
    omega
  obtain ⟨q, rfl⟩ := Nat.exists_eq_add_of_le hle
  refine ⟨q, rfl, ?_⟩
  rw [Nat.add_mul] at h
  omega

/-- The rows of a picture as wide as its stride. -/
theorem address_lt {stride row rows x : ℕ} (hrow : row < rows) (hx : x < stride) :
    address stride row x < stride * rows :=
  calc address stride row x < row * stride + stride := Nat.add_lt_add_left hx _
    _ = (row + 1) * stride := (Nat.succ_mul row stride).symm
    _ ≤ rows * stride := Nat.mul_le_mul_right stride hrow
    _ = stride * rows := Nat.mul_comm rows stride

/-! ### Lines -/

/-- From `a`, `k` steps towards `b`. -/
def toward (a b k : ℕ) : ℕ := if a < b then a + k else a - k

/-- How far the shorter axis has come after `i` steps of the longer one. -/
def nearest (major minor i : ℕ) : ℕ := (2 * minor * i + major) / (2 * major)

/-- The `i`-th point of the line. -/
def linePoint (x1 y1 x2 y2 i : ℕ) : ℕ × ℕ :=
  let dx := Nat.dist x1 x2
  let dy := Nat.dist y1 y2
  if dx < dy then (toward x1 x2 (nearest dy dx i), toward y1 y2 i)
  else (toward x1 x2 i, toward y1 y2 (nearest dx dy i))

/-- The points of the line, from the first to the last. -/
def linePoints (x1 y1 x2 y2 : ℕ) : List (ℕ × ℕ) :=
  (List.range (max (Nat.dist x1 x2) (Nat.dist y1 y2) + 1)).map (linePoint x1 y1 x2 y2)

@[simp] theorem toward_zero (a b : ℕ) : toward a b 0 = a := by simp [toward]

theorem toward_dist (a b : ℕ) : toward a b (Nat.dist a b) = b := by
  unfold toward Nat.dist
  split <;> omega

variable {major minor i : ℕ}

/-- Rounded to the nearest, halves up. -/
theorem nearest_bounds (minor i : ℕ) (h : 0 < major) : 2 * major * nearest major minor i ≤ 2 * minor * i + major ∧
    2 * minor * i + major < 2 * major * (nearest major minor i + 1) :=
  ⟨Nat.mul_div_le _ _, Nat.lt_mul_div_succ _ (by omega)⟩

theorem nearest_eq {k : ℕ} (h1 : 2 * major * k ≤ 2 * minor * i + major)
    (h2 : 2 * minor * i + major < 2 * major * (k + 1)) : nearest major minor i = k := by
  apply Nat.div_eq_of_lt_le
  · rwa [Nat.mul_comm]
  · rwa [Nat.mul_comm (k + 1)]

@[simp] theorem nearest_zero (major minor : ℕ) : nearest major minor 0 = 0 := by
  rw [nearest, Nat.mul_zero, Nat.zero_add]
  rcases Nat.eq_zero_or_pos major with rfl | h
  · rfl
  · exact Nat.div_eq_of_lt (by omega)

/-- At the end of the longer axis the shorter one is at its end. -/
theorem nearest_major (h : 0 < major) : nearest major minor major = minor := by
  apply nearest_eq
  · rw [Nat.mul_right_comm]; omega
  · rw [Nat.mul_succ, Nat.mul_right_comm]; omega

theorem nearest_mono (major minor : ℕ) {i j : ℕ} (h : i ≤ j) : nearest major minor i ≤ nearest major minor j :=
  Nat.div_le_div_right (Nat.add_le_add_right (Nat.mul_le_mul_left _ h) _)

theorem nearest_le (minor : ℕ) (h : i ≤ major) : nearest major minor i ≤ minor := by
  rcases Nat.eq_zero_or_pos major with rfl | hpos
  · obtain rfl : i = 0 := by omega
    rw [nearest_zero]
    exact Nat.zero_le minor
  · calc nearest major minor i ≤ nearest major minor major := nearest_mono major minor h
      _ = minor := nearest_major hpos

/-- Bresenham's error term, `e`, is negative as long as the rounded value stays. -/
theorem nearest_succ (h : 0 < major) (hle : minor ≤ major) {e : ℤ}
    (he : e = 2 * minor * (i + 1) - major - 2 * major * nearest major minor i) :
    nearest major minor (i + 1) = if 0 ≤ e then nearest major minor i + 1 else nearest major minor i := by
  obtain ⟨h1, h2⟩ := nearest_bounds minor i h
  generalize nearest major minor i = k at *
  split
  · apply nearest_eq
    · zify; linarith
    · zify at *; nlinarith
  · apply nearest_eq
    · zify at *; nlinarith
    · zify at *; linarith

variable (x1 y1 x2 y2 : ℕ)

/-- The line ends where it should. -/
theorem linePoint_last :
    linePoint x1 y1 x2 y2 (max (Nat.dist x1 x2) (Nat.dist y1 y2)) = (x2, y2) := by
  rw [linePoint]
  by_cases h : Nat.dist x1 x2 < Nat.dist y1 y2
  · rw [if_pos h, max_eq_right h.le, nearest_major (Nat.zero_lt_of_lt h), toward_dist, toward_dist]
  · rw [if_neg h, max_eq_left (Nat.le_of_not_lt h), toward_dist]
    rcases Nat.eq_zero_or_pos (Nat.dist x1 x2) with h0 | hpos
    · obtain rfl : y1 = y2 := Nat.eq_of_dist_eq_zero (by omega)
      rw [h0, nearest_zero, toward_zero]
    · rw [nearest_major hpos, toward_dist]

theorem linePoints_eq : linePoints x1 y1 x2 y2 =
    (List.range (max (Nat.dist x1 x2) (Nat.dist y1 y2))).map (linePoint x1 y1 x2 y2) ++ [(x2, y2)] := by
  rw [linePoints, List.range_succ, List.map_append, List.map_singleton, linePoint_last]

/-! ### The true line -/

/-- The value at `a` of the line from `(a1, b1)` to `(a2, b2)`. -/
def trueValue (a1 b1 a2 b2 a : ℤ) : ℚ := b1 + (b2 - b1) * (a - a1) / (a2 - a1)

/-- `n` is the integer nearest to `v`; of two equally near, the one further from `start`. -/
def Rounds (start : ℤ) (v : ℚ) (n : ℤ) : Prop :=
  |n - v| < 1 / 2 ∨ |n - v| = 1 / 2 ∧ |v - start| < |(n : ℚ) - start|

/-- The ideal line: for every step of the longer axis, both ends included, the true
line's value rounded. -/
def Ideal (x1 y1 x2 y2 X Y : ℕ) : Prop :=
  if Nat.dist x1 x2 < Nat.dist y1 y2 then
    (min y1 y2 ≤ Y ∧ Y ≤ max y1 y2) ∧ Rounds x1 (trueValue y1 x1 y2 x2 Y) X
  else (min x1 x2 ≤ X ∧ X ≤ max x1 x2) ∧ Rounds y1 (trueValue x1 y1 x2 y2 X) Y

/-- Upwards from 0, halves go up. -/
theorem nearest_iff {m k : ℤ} {q : ℚ} (hq : 0 ≤ q) (h1 : k ≤ q + 1 / 2) (h2 : q + 1 / 2 < k + 1) :
    (|m - q| < 1 / 2 ∨ |m - q| = 1 / 2 ∧ q < |(m : ℚ)|) ↔ m = k := by
  constructor
  · intro h
    have hm : (m : ℚ) ≤ q + 1 / 2 ∧ q + 1 / 2 < m + 1 := by
      rcases h with h | ⟨h, hlt⟩
      · rw [abs_lt] at h
        constructor <;> linarith
      · rcases eq_or_eq_neg_of_abs_eq h with h | h
        · constructor <;> linarith
        · -- it would be the lower of the two, which is not the further one
          have hpos : (0 : ℤ) ≤ m := by
            have hlow : (-1 : ℚ) < m := by linarith
            have : (-1 : ℤ) < m := by exact_mod_cast hlow
            omega
          rw [abs_of_nonneg (by exact_mod_cast hpos)] at hlt
          linarith
    have hle : m < k + 1 := by exact_mod_cast hm.1.trans_lt h2
    have hge : k < m + 1 := by exact_mod_cast h1.trans_lt hm.2
    omega
  · rintro rfl
    rcases h1.lt_or_eq with hlt | heq
    · left
      rw [abs_lt]
      constructor <;> linarith
    · right
      have hm : (m : ℚ) - q = 1 / 2 := by linarith
      rw [hm, abs_of_nonneg (show (0 : ℚ) ≤ m by linarith)]
      constructor
      · norm_num
      · linarith

/-- Away from any start, in either direction. -/
theorem rounds_iff (start : ℤ) {sign n k : ℤ} {q : ℚ} (hsign : sign = 1 ∨ sign = -1) (hq : 0 ≤ q)
    (h1 : k ≤ q + 1 / 2) (h2 : q + 1 / 2 < k + 1) :
    Rounds start (start + sign * q) n ↔ n = start + sign * k := by
  obtain ⟨m, rfl⟩ : ∃ m, n = start + sign * m := ⟨sign * (n - start), by rcases hsign with rfl | rfl <;> ring⟩
  have habs : |(sign : ℚ)| = 1 := by rcases hsign with rfl | rfl <;> simp
  have hdist : ((start + sign * m : ℤ) : ℚ) - (start + sign * q) = sign * (m - q) := by
    push_cast
    ring
  have hstart : ((start + sign * m : ℤ) : ℚ) - start = sign * m := by
    push_cast
    ring
  have hcancel : start + sign * m = start + sign * k ↔ m = k := by
    rcases hsign with rfl | rfl <;> omega
  rw [Rounds, hdist, hstart, add_sub_cancel_left, abs_mul, abs_mul, abs_mul, habs, one_mul, one_mul, one_mul,
    abs_of_nonneg hq, hcancel]
  exact nearest_iff hq h1 h2

/-- Up or down from `a` to `b`. -/
def sign (a b : ℕ) : ℤ := if a < b then 1 else -1

theorem sign_cases (a b : ℕ) : sign a b = 1 ∨ sign a b = -1 := by
  unfold sign
  split <;> simp

theorem toward_eq {a b i : ℕ} (hi : i ≤ Nat.dist a b) : (toward a b i : ℤ) = a + sign a b * i := by
  unfold toward sign Nat.dist at *
  split <;> omega

theorem eq_toward_iff {a b i A : ℕ} (hi : i ≤ Nat.dist a b) : A = toward a b i ↔ (A : ℤ) = a + sign a b * i := by
  rw [← toward_eq hi, Nat.cast_inj]

theorem between_iff {a b A : ℕ} : (min a b ≤ A ∧ A ≤ max a b) ↔ ∃ i ≤ Nat.dist a b, A = toward a b i := by
  constructor
  · intro h
    refine ⟨Nat.dist a A, ?_, ?_⟩
    · unfold Nat.dist
      omega
    · unfold toward Nat.dist
      split <;> omega
  · rintro ⟨i, hi, rfl⟩
    unfold toward Nat.dist at *
    split <;> omega

/-- The true line after `i` steps of the longer axis. -/
theorem trueValue_toward {a1 a2 i : ℕ} (b1 b2 : ℕ) (hi : i ≤ Nat.dist a1 a2) :
    trueValue a1 b1 a2 b2 (toward a1 a2 i) =
      b1 + sign b1 b2 * ((Nat.dist b1 b2 * i : ℚ) / Nat.dist a1 a2) := by
  have hsub : ∀ a b : ℕ, ((b : ℤ) - (a : ℤ) : ℚ) = sign a b * Nat.dist a b := by
    intro a b
    have h := toward_eq (le_refl (Nat.dist a b))
    rw [toward_dist] at h
    have h' : (b : ℤ) - a = sign a b * Nat.dist a b := by omega
    exact_mod_cast h'
  have hne : (sign a1 a2 : ℚ) ≠ 0 := by rcases sign_cases a1 a2 with h | h <;> simp [h]
  have hstep : ((toward a1 a2 i : ℤ) - (a1 : ℤ) : ℚ) = sign a1 a2 * i := by
    rw [toward_eq hi]
    push_cast
    ring
  calc trueValue a1 b1 a2 b2 (toward a1 a2 i)
      = b1 + sign b1 b2 * Nat.dist b1 b2 * (sign a1 a2 * i) / (sign a1 a2 * Nat.dist a1 a2) := by
        rw [trueValue, hstep, hsub, hsub, Int.cast_natCast]
    _ = b1 + sign a1 a2 * (sign b1 b2 * (Nat.dist b1 b2 * i)) / (sign a1 a2 * Nat.dist a1 a2) := by ring
    _ = b1 + sign b1 b2 * ((Nat.dist b1 b2 * i : ℚ) / Nat.dist a1 a2) := by
        rw [mul_div_mul_left _ _ hne, mul_div_assoc]

/-- The rounded value is the one that a quotient of natural numbers gives. -/
theorem nearest_rounds (major minor i : ℕ) (hi : i ≤ major) :
    ((nearest major minor i : ℤ) : ℚ) ≤ (minor * i : ℚ) / major + 1 / 2 ∧
      (minor * i : ℚ) / major + 1 / 2 < (nearest major minor i : ℤ) + 1 := by
  rcases Nat.eq_zero_or_pos major with rfl | hpos
  · obtain rfl : i = 0 := Nat.le_zero.mp hi
    norm_num
  · obtain ⟨h1, h2⟩ := nearest_bounds minor i hpos
    have hpos' : (0 : ℚ) < major := by exact_mod_cast hpos
    generalize nearest major minor i = k at *
    have h1' : (2 * major * k : ℚ) ≤ 2 * minor * i + major := by exact_mod_cast h1
    have h2' : (2 * minor * i + major : ℚ) < 2 * major * (k + 1) := by exact_mod_cast h2
    rw [Int.cast_natCast, ← sub_le_iff_le_add, ← lt_sub_iff_add_lt, le_div_iff₀ hpos', div_lt_iff₀ hpos']
    constructor <;> linarith

/-- The points of the line, where `a` is the longer axis. -/
theorem rounds_toward {a1 a2 b1 b2 i B : ℕ} (hi : i ≤ Nat.dist a1 a2) :
    Rounds b1 (trueValue a1 b1 a2 b2 (toward a1 a2 i)) B ↔
      B = toward b1 b2 (nearest (Nat.dist a1 a2) (Nat.dist b1 b2) i) := by
  obtain ⟨h1, h2⟩ := nearest_rounds (Nat.dist a1 a2) (Nat.dist b1 b2) i hi
  have hq : (0 : ℚ) ≤ (Nat.dist b1 b2 * i : ℚ) / Nat.dist a1 a2 := by positivity
  rw [trueValue_toward b1 b2 hi, eq_toward_iff (nearest_le _ hi)]
  exact rounds_iff b1 (sign_cases b1 b2) hq h1 h2

/-- **The points of the line are the ideal ones.** -/
theorem mem_linePoints {x1 y1 x2 y2 X Y : ℕ} : (X, Y) ∈ linePoints x1 y1 x2 y2 ↔ Ideal x1 y1 x2 y2 X Y := by
  unfold linePoints Ideal
  simp only [List.mem_map, List.mem_range, Nat.lt_succ_iff]
  by_cases h : Nat.dist x1 x2 < Nat.dist y1 y2
  · rw [if_pos h, max_eq_right h.le, between_iff]
    simp only [linePoint, if_pos h, Prod.mk.injEq]
    constructor
    · rintro ⟨i, hi, rfl, rfl⟩
      exact ⟨⟨i, hi, rfl⟩, (rounds_toward hi).mpr rfl⟩
    · rintro ⟨⟨i, hi, rfl⟩, hr⟩
      exact ⟨i, hi, ((rounds_toward hi).mp hr).symm, rfl⟩
  · rw [if_neg h, max_eq_left (Nat.le_of_not_lt h), between_iff]
    simp only [linePoint, if_neg h, Prod.mk.injEq]
    constructor
    · rintro ⟨i, hi, rfl, rfl⟩
      exact ⟨⟨i, hi, rfl⟩, (rounds_toward hi).mpr rfl⟩
    · rintro ⟨⟨i, hi, rfl⟩, hr⟩
      exact ⟨i, hi, rfl, ((rounds_toward hi).mp hr).symm⟩

end Raster
