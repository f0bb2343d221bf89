/-
# C integers

Values of C integer types are kept as integers. A conversion that may change
the value is written out (`toUnsigned`, `toSigned`: modulo `2 ^ w`); where a
model has to fail instead (signed overflow, an unsigned variable that would
wrap, a negative size) it goes through `signed?`, `unsigned?` or `size?`,
which are `none` exactly then.
-/
import Mathlib.Data.Int.ModEq
import Mathlib.Tactic.Common
import Mathlib.Tactic.Zify

namespace CInt

/-- A value converted to a `w`-bit unsigned type. -/
def toUnsigned (w : ℕ) (x : ℤ) : ℕ := (x % 2 ^ w).toNat

/-- A value converted to a `w`-bit signed type. -/
def toSigned (w : ℕ) (x : ℤ) : ℤ := Int.bmod x (2 ^ w)

/-- A value stored in a `w`-bit unsigned variable, if it does not wrap. -/
def unsigned? (w : ℕ) (x : ℤ) : Option ℕ := if 0 ≤ x ∧ x < 2 ^ w then some x.toNat else none

/-- The result of `w`-bit signed arithmetic, if it does not overflow. -/
def signed? (w : ℕ) (x : ℤ) : Option ℤ :=
  if -2 ^ (w - 1) ≤ x ∧ x < 2 ^ (w - 1) then some x else none

/-- An `int` used as a size: a negative one is larger than any array. -/
def size? (x : ℤ) : Option ℕ := if 0 ≤ x then some x.toNat else none

theorem toUnsigned_lt (w : ℕ) (x : ℤ) : toUnsigned w x < 2 ^ w := by
  have h : (0 : ℤ) < 2 ^ w := Int.pow_pos (by decide)
  have h1 := Int.emod_nonneg x h.ne'
  have h2 := Int.emod_lt_of_pos x h
  unfold toUnsigned
  zify
  omega

theorem toUnsigned_natCast (w k : ℕ) : toUnsigned w (k : ℤ) = k % 2 ^ w := by
  unfold toUnsigned
  norm_cast

/-- Through a signed type and back to the unsigned one of the same width. -/
theorem toUnsigned_toSigned (w : ℕ) (x : ℤ) : toUnsigned w (toSigned w x) = toUnsigned w x := by
  unfold toUnsigned toSigned
  rw [show ((2 : ℤ) ^ w) = ((2 ^ w : ℕ) : ℤ) by norm_cast, Int.bmod_emod]

/-- A value that fits stays. -/
theorem toSigned_eq {w : ℕ} {x : ℤ} (hw : 0 < w) (h1 : -2 ^ (w - 1) ≤ x) (h2 : x < 2 ^ (w - 1)) :
    toSigned w x = x := by
  have hpow : ((2 ^ w : ℕ) : ℤ) = 2 ^ (w - 1) * 2 := by
    push_cast
    rw [← pow_succ, Nat.sub_add_cancel hw]
  exact Int.bmod_eq_of_le (by omega) (by omega)

theorem toUnsigned_cast {w : ℕ} {x : ℤ} (h1 : 0 ≤ x) (h2 : x < 2 ^ w) : (toUnsigned w x : ℤ) = x := by
  rw [toUnsigned, Int.emod_eq_of_lt h1 h2, Int.toNat_of_nonneg h1]

/-- A quotient cut off towards 0 lies between the bounds that the dividend respects. -/
theorem tdiv_bounds {x b lo hi : ℤ} (hb : 0 < b) (h1 : lo * b ≤ x) (h2 : x ≤ hi * b) :
    lo ≤ x.tdiv b ∧ x.tdiv b ≤ hi := by
  have hlo : lo ≤ x / b := (Int.le_ediv_iff_mul_le hb).mpr h1
  rw [Int.tdiv_eq_ediv, Int.sign_eq_one_of_pos hb]
  split_ifs with h
  · have hhi : x / b ≤ hi := Int.ediv_le_of_le_mul hb h2
    omega
  · have hne : x ≠ hi * b := fun hx => h (.inr ⟨hi, by rw [hx, Int.mul_comm]⟩)
    have hhi : x / b < hi := Int.ediv_lt_of_lt_mul hb (by omega)
    omega

/-- A remainder has the sign of the dividend, unless it is 0. -/
theorem tmod_nonneg_iff {a b : ℤ} : 0 ≤ a.tmod b ↔ 0 ≤ a ∨ b ∣ a := by
  by_cases hb : b ∣ a
  · rw [Int.tmod_eq_zero_of_dvd hb]
    exact iff_of_true le_rfl (.inr hb)
  · rw [or_iff_left hb]
    refine ⟨fun h => ?_, Int.tmod_nonneg b⟩
    by_contra hneg
    have hsign := Int.sign_tmod a b
    rw [if_neg hb, Int.sign_eq_neg_one_of_neg (show a < 0 by omega)] at hsign
    exact absurd (Int.sign_eq_neg_one_iff_neg.mp hsign) (by omega)

theorem unsigned?_natCast {w k : ℕ} (h : k < 2 ^ w) : unsigned? w (k : ℤ) = some k := by
  have h' : (k : ℤ) < 2 ^ w := by exact_mod_cast h
  simp [unsigned?, h']

/-- The form a difference takes: it has to be a natural number below `2 ^ w`. -/
theorem unsigned?_eq {w k : ℕ} {x : ℤ} (hx : x = k) (h : k < 2 ^ w) : unsigned? w x = some k :=
  hx ▸ unsigned?_natCast h

theorem signed?_eq {w : ℕ} {x : ℤ} (h1 : -2 ^ (w - 1) ≤ x) (h2 : x < 2 ^ (w - 1)) :
    signed? w x = some x := if_pos ⟨h1, h2⟩

theorem of_signed? {w : ℕ} {x y : ℤ} (h : signed? w x = some y) :
    y = x ∧ -2 ^ (w - 1) ≤ x ∧ x < 2 ^ (w - 1) := by
  unfold signed? at h
  split at h
  · rename_i hx
    exact ⟨(Option.some.inj h).symm, hx⟩
  · cases h

theorem size?_eq {k : ℕ} {x : ℤ} (hx : x = k) : size? x = some k := by
  subst hx; simp [size?]

end CInt
