/-
# Decimal texts of floating-point numbers

A text reads back as `x` if no double is closer to its value than `x` is, as rounding to the
nearest double has it. Every `float` has a text that reads back (`readsBack_dyadicText`), and
what reads back rounds to 0 for 0 alone (`tiny_iff`). Between powers of two, to read back is to be off
by half a unit of the last bit at most (`readsBack_iff`); how close a text can come
depends on its digits, for which it has to be long enough (`ratOf_digits`).
-/
import Mathlib.Tactic.Linarith
import Mathlib.Tactic.NormNum
import Mathlib.Tactic.Positivity
import Ventilation.Lib.PyJson

namespace FloatText

open Decimal Json
open Python (ratOf exponentOf)

/-! ### Floats, doubles and their texts -/

/-- The exponent of a `float` as its bits have it. -/
def biased (bits : BitVec 32) : ℕ := bits.toNat / 2 ^ 23 % 2 ^ 8

/-- Its significand, with the sign. -/
def significand (bits : BitVec 32) : ℤ :=
  let f : ℤ := bits.toNat % 2 ^ 23
  let m := if biased bits = 0 then f else 2 ^ 23 + f
  if bits.msb then -m else m

/-- Its power of two: the subnormal numbers have that of the least normal ones. -/
def power (bits : BitVec 32) : ℤ := if biased bits = 0 then -149 else biased bits - 150

/-- The value of a `float`; an infinity and a NaN have none. -/
def float32 (bits : BitVec 32) : Option ℚ :=
  if biased bits = 255 then none else some (significand bits * 2 ^ power bits)

/-- The finite values of a `double`. -/
def IsDouble (y : ℚ) : Prop := ∃ m e : ℤ, |m| < 2 ^ 53 ∧ -1074 ≤ e ∧ e ≤ 971 ∧ y = m * 2 ^ e

/-- No double is closer to the value of the text. -/
def ReadsBack (text : Text) (x : ℚ) : Prop := ∃ q, ratOf text = some q ∧ ∀ y, IsDouble y → |q - x| ≤ |q - y|

/-- A text of `n * 10 ^ -k`. -/
def expText (n : ℤ) (k : ℕ) : Text := intText n ++ 101 :: 45 :: natText k

/-- A text of `m * 2 ^ e`, exactly. -/
def dyadicText (m e : ℤ) : Text :=
  if 0 ≤ e then expText (m * 2 ^ e.toNat) 0 else expText (m * 5 ^ (-e).toNat) (-e).toNat

/-- Its characters. -/
theorem mem_dyadicText {m e : ℤ} {b : BitVec 8} (h : b ∈ dyadicText m e) : isDigit b = true ∨ b = 45 ∨ b = 101 := by
  have hexp : ∀ n k, b ∈ expText n k → isDigit b = true ∨ b = 45 ∨ b = 101 := by
    intro n k hb
    simp only [expText, List.mem_append, List.mem_cons] at hb
    rcases hb with hb | rfl | rfl | hb
    · exact (mem_intText hb).imp_right .inl
    · exact .inr (.inr rfl)
    · exact .inr (.inl rfl)
    · exact .inl (isDigit_natText k b hb)
  unfold dyadicText at h
  split at h
  · exact hexp _ _ h
  · exact hexp _ _ h

theorem power_bounds {bits : BitVec 32} (h : biased bits ≠ 255) : -149 ≤ power bits ∧ power bits ≤ 104 := by
  have hlt : biased bits < 256 := Nat.mod_lt _ (by decide)
  unfold power
  split <;> omega

/-! ### The value of a text -/

theorem value_lt {l : Text} : (∀ b ∈ l, isDigit b = true) → value l < 10 ^ l.length := by
  induction l using List.reverseRecOn with
  | nil => exact fun _ => Nat.one_pos
  | append_singleton l b ih =>
    intro hl
    have hb := of_decide_eq_true (hl b (List.mem_append_right l List.mem_cons_self))
    have hlt := ih fun c hc => hl c (List.mem_append_left _ hc)
    rw [value_append, List.length_append, List.length_singleton, pow_succ]
    omega

/-- The integer part, the fraction and the exponent of a text. -/
theorem length_parts (l : Text) :
    let l₁ := l.dropWhile isDigit
    let frac := if l₁.head? = some 46 then l₁.tail.takeWhile isDigit else []
    let l₂ := if l₁.head? = some 46 then l₁.tail.dropWhile isDigit else l₁
    let n := (l.takeWhile isDigit ++ frac).length
    n ≤ l.length ∧ (exponentOf l₂ - frac.length ≠ 0 → n < l.length) := by
  intro l₁ frac l₂ n
  have hl : (l.takeWhile isDigit).length + l₁.length = l.length := by
    rw [← List.length_append, List.takeWhile_append_dropWhile]
  by_cases hdot : l₁.head? = some 46
  · obtain ⟨t, ht⟩ := List.head?_eq_some_iff.mp hdot
    have hfrac : frac.length ≤ t.length := by
      simp only [frac, if_pos hdot, ht, List.tail_cons]
      exact (List.takeWhile_prefix _).length_le
    have hlen : l₁.length = t.length + 1 := by rw [ht, List.length_cons]
    simp only [n, List.length_append]
    omega
  · have hfrac : frac = [] := if_neg hdot
    have hrest : l₂ = l₁ := if_neg hdot
    simp only [n, hfrac, hrest, List.append_nil, List.length_nil]
    refine ⟨by omega, fun hk => ?_⟩
    have hne : l₁ ≠ [] := fun he => hk (by rw [he]; rfl)
    have := List.length_pos_iff.mpr hne
    omega

/-- **The value of a text is a number of no more digits than it has characters, times a power of ten** that
takes a character more. -/
theorem ratOf_digits {text : Text} {q : ℚ} (h : ratOf text = some q) : ∃ (l : Text) (d n : ℕ) (k : ℤ),
    l = (if text.head? = some 45 then text.tail else text) ∧ d < 10 ^ n ∧ n ≤ l.length ∧ (k ≠ 0 → n < l.length) ∧
    q = if text.head? = some 45 then -(d * 10 ^ k : ℚ) else d * 10 ^ k := by
  simp only [ratOf, Option.ite_none_left_eq_some, Option.some.injEq] at h
  obtain ⟨-, hq⟩ := h
  generalize hl : (if text.head? = some 45 then text.tail else text) = l at hq
  obtain ⟨hn, hk⟩ := length_parts l
  refine ⟨l, _, _, _, rfl, value_lt ?_, hn, hk, hq.symm⟩
  intro b hb
  rcases List.mem_append.mp hb with hb | hb
  · exact List.mem_takeWhile_imp hb
  · split at hb
    · exact List.mem_takeWhile_imp hb
    · cases hb

/-- The digits of a number with an exponent, and what follows them. -/
theorem exponent_parts (m k : ℕ) : let l := natText m ++ 101 :: 45 :: natText k
    l.takeWhile isDigit = natText m ∧ l.dropWhile isDigit = 101 :: 45 :: natText k ∧ l.head? ≠ some 45 := by
  have hend : ∀ b, (101 :: 45 :: natText k).head? = some b → isDigit b = false := by
    rintro b ⟨⟩
    rfl
  obtain ⟨htake, hdrop⟩ := span_digits (isDigit_natText m) hend
  obtain ⟨b, ds, hds, hb⟩ := natText_cons m
  refine ⟨htake, hdrop, ?_⟩
  rw [hds]
  rintro ⟨⟩
  exact absurd hb (by decide)

/-- A text without a fraction. -/
theorem ratOf_of_parts {text l ip l₁ : Text} (hl : (if text.head? = some 45 then text.tail else text) = l)
    (htake : l.takeWhile isDigit = ip) (hdrop : l.dropWhile isDigit = l₁) (hip : ip ≠ []) (hdot : ¬ l₁.head? = some 46) :
    ratOf text =
      some (if text.head? = some 45 then -(value ip * 10 ^ exponentOf l₁ : ℚ) else value ip * 10 ^ exponentOf l₁) := by
  simp only [ratOf, hl, htake, hdrop, if_neg hdot, if_neg hip, List.append_nil, List.length_nil, Nat.cast_zero, sub_zero]

/-- **The value of a text with an exponent.** -/
theorem ratOf_expText (n : ℤ) (k : ℕ) : ratOf (expText n k) = some (n * 10 ^ (-(k : ℤ)) : ℚ) := by
  have hexp : exponentOf (101 :: 45 :: natText k) = -k := by
    rw [exponentOf, if_pos List.head?_cons, List.tail_cons, value_natText]
  have hdot : ¬ (101 :: 45 :: natText k : Text).head? = some 46 := by
    rintro ⟨⟩
  cases n with
  | ofNat m =>
    obtain ⟨htake, hdrop, hsign⟩ := exponent_parts m k
    rw [expText, intText, ratOf_of_parts (if_neg hsign) htake hdrop (natText_ne_nil m) hdot, if_neg hsign, hexp,
      value_natText]
    rfl
  | negSucc m =>
    obtain ⟨htake, hdrop, -⟩ := exponent_parts (m + 1) k
    have hcast : (Int.negSucc m : ℚ) = -((m + 1 : ℕ) : ℚ) := rfl
    rw [expText, intText, ratOf_of_parts (if_pos rfl) htake hdrop (natText_ne_nil (m + 1)) hdot, List.cons_append,
      List.head?_cons, if_pos rfl, hexp, value_natText, hcast, neg_mul]

/-- **The value of the text of a dyadic number.** -/
theorem ratOf_dyadicText (m e : ℤ) : ratOf (dyadicText m e) = some (m * 2 ^ e : ℚ) := by
  unfold dyadicText
  split
  · rename_i he
    obtain ⟨k, rfl⟩ := Int.eq_ofNat_of_zero_le he
    rw [ratOf_expText]
    simp
  · rename_i he
    obtain ⟨k, hk⟩ := Int.eq_ofNat_of_zero_le (Int.neg_nonneg.mpr (Int.le_of_not_le he))
    have he : e = -k := by omega
    have hten : (5 : ℚ) ^ k * 10 ^ (-(k : ℤ)) = 2 ^ (-(k : ℤ)) := by
      rw [zpow_neg, zpow_neg, zpow_natCast, zpow_natCast, show (10 : ℚ) = 5 * 2 by norm_num, mul_pow,
        mul_inv, ← mul_assoc, mul_inv_cancel₀ (by positivity), one_mul]
    rw [ratOf_expText, hk, Int.toNat_natCast, he, ← hten]
    push_cast
    rw [mul_assoc]

/-! ### Reading back -/

variable {bits : BitVec 32} {text : Text} {x q : ℚ}

/-- The exact value reads back. -/
theorem readsBack_of_eq (h : ratOf text = some x) : ReadsBack text x :=
  ⟨x, h, fun y _ => by rw [sub_self, abs_zero]; exact abs_nonneg _⟩

/-- **Every float has a text that reads back.** -/
theorem readsBack_dyadicText (h : float32 bits = some x) :
    ReadsBack (dyadicText (significand bits) (power bits)) x := by
  simp only [float32, Option.ite_none_left_eq_some, Option.some.injEq] at h
  exact readsBack_of_eq ((ratOf_dyadicText _ _).trans (congrArg some h.2))

/-- With a number on either side at the distance `d` that is no closer, `q` is at most half of that off. -/
theorem abs_sub_le_half {d : ℚ} (hd : 0 < d) (hle : |q - x| ≤ |q - (x + d)|) (hle' : |q - x| ≤ |q - (x - d)|) :
    |q - x| ≤ d / 2 := by
  rcases abs_cases (q - x) with ⟨h1, h2⟩ | ⟨h1, h2⟩ <;> rcases abs_cases (q - (x + d)) with ⟨h3, h4⟩ | ⟨h3, h4⟩ <;>
    rcases abs_cases (q - (x - d)) with ⟨h5, h6⟩ | ⟨h5, h6⟩ <;> linarith

section Binade

variable {m n : ℤ}

/-- A multiple of the last bit's unit. -/
theorem eq_or_apart_of_le {k e : ℤ} (he : n ≤ e) :
    (k * 2 ^ e : ℚ) = m * 2 ^ n ∨ (2 : ℚ) ^ n ≤ |(k * 2 ^ e - m * 2 ^ n : ℚ)| := by
  have hpos : (0 : ℚ) < 2 ^ n := zpow_pos two_pos n
  obtain ⟨j, rfl⟩ := Int.le.dest he
  have hdiff : (k * 2 ^ (n + j) - m * 2 ^ n : ℚ) = ((k * 2 ^ j - m : ℤ) : ℚ) * 2 ^ n := by
    rw [zpow_add₀ two_ne_zero, zpow_natCast]
    push_cast
    ring
  by_cases h0 : k * 2 ^ j - m = 0
  · left
    rw [h0, Int.cast_zero, zero_mul] at hdiff
    exact sub_eq_zero.mp hdiff
  · right
    have hone : (1 : ℚ) ≤ |((k * 2 ^ j - m : ℤ) : ℚ)| := by exact_mod_cast Int.one_le_abs h0
    rw [hdiff, abs_mul, abs_of_pos hpos]
    exact le_mul_of_one_le_left hpos.le hone

/-- A double with a smaller unit is smaller itself. -/
theorem apart_of_lt (hm : 2 ^ 52 + 1 ≤ |m|) {k e : ℤ} (hk : |k| < 2 ^ 53) (he : e < n) :
    (2 : ℚ) ^ n ≤ |(k * 2 ^ e - m * 2 ^ n : ℚ)| := by
  have hpos : (0 : ℚ) < 2 ^ n := zpow_pos two_pos n
  have hpose : (0 : ℚ) < 2 ^ e := zpow_pos two_pos e
  have hk' : |(k : ℚ)| ≤ 2 ^ 53 := by exact_mod_cast hk.le
  have hm' : (2 : ℚ) ^ 52 + 1 ≤ |(m : ℚ)| := by exact_mod_cast hm
  have hpow : 2 * (2 : ℚ) ^ e ≤ 2 ^ n := by
    rw [← zpow_one_add₀ two_ne_zero]
    exact zpow_le_zpow_right₀ one_le_two (by omega)
  have hsmall : |(k * 2 ^ e : ℚ)| ≤ 2 ^ 52 * 2 ^ n := by
    calc |(k * 2 ^ e : ℚ)| = |(k : ℚ)| * 2 ^ e := by rw [abs_mul, abs_of_pos hpose]
      _ ≤ 2 ^ 53 * 2 ^ e := mul_le_mul_of_nonneg_right hk' hpose.le
      _ = 2 ^ 52 * (2 * 2 ^ e) := by ring
      _ ≤ 2 ^ 52 * 2 ^ n := mul_le_mul_of_nonneg_left hpow (by positivity)
  have hlarge : (2 ^ 52 + 1) * (2 : ℚ) ^ n ≤ |(m * 2 ^ n : ℚ)| := by
    rw [abs_mul, abs_of_pos hpos]
    exact mul_le_mul_of_nonneg_right hm' hpos.le
  have htri : |(m * 2 ^ n : ℚ)| - |(k * 2 ^ e : ℚ)| ≤ |(k * 2 ^ e : ℚ) - m * 2 ^ n| := by
    rw [abs_sub_comm]
    exact abs_sub_abs_le_abs_sub _ _
  linarith

/-- Among numbers of 53 bits there is no other double within a unit of the last. -/
theorem eq_or_apart (hm : 2 ^ 52 + 1 ≤ |m|) {y : ℚ} (hy : IsDouble y) :
    y = m * 2 ^ n ∨ (2 : ℚ) ^ n ≤ |y - m * 2 ^ n| := by
  obtain ⟨k, e, hk, -, -, rfl⟩ := hy
  rcases le_or_gt n e with he | he
  · exact eq_or_apart_of_le he
  · exact .inr (apart_of_lt hm hk he)

/-- **Between powers of two a text reads back exactly if it is off by half a unit of the last bit at most.** -/
theorem readsBack_iff (hm : 2 ^ 52 + 1 ≤ |m|) (hm' : |m| < 2 ^ 53 - 1) (hn : -1074 ≤ n) (hn' : n ≤ 971) :
    ReadsBack text (m * 2 ^ n) ↔ ∃ q, ratOf text = some q ∧ |q - m * 2 ^ n| ≤ 2 ^ n / 2 := by
  have hpos : (0 : ℚ) < 2 ^ n := zpow_pos two_pos n
  constructor
  · rintro ⟨q, hq, hclose⟩
    rw [abs_lt] at hm'
    have hup := hclose ((m + 1 : ℤ) * 2 ^ n) ⟨m + 1, n, abs_lt.mpr (by omega), hn, hn', rfl⟩
    have hdown := hclose ((m - 1 : ℤ) * 2 ^ n) ⟨m - 1, n, abs_lt.mpr (by omega), hn, hn', rfl⟩
    refine ⟨q, hq, abs_sub_le_half hpos ?_ ?_⟩
    · rw [show (m * 2 ^ n + 2 ^ n : ℚ) = (m + 1 : ℤ) * 2 ^ n by push_cast; ring]
      exact hup
    · rw [show (m * 2 ^ n - 2 ^ n : ℚ) = (m - 1 : ℤ) * 2 ^ n by push_cast; ring]
      exact hdown
  · rintro ⟨q, hq, hclose⟩
    refine ⟨q, hq, fun y hy => ?_⟩
    rcases eq_or_apart (n := n) hm hy with rfl | hapart
    · exact le_rfl
    · have htri : |y - m * 2 ^ n| ≤ |q - y| + |q - m * 2 ^ n| := by
        rw [abs_sub_comm q y]
        simpa using abs_add_le (y - q) (q - m * 2 ^ n)
      linarith

end Binade

theorem isDouble_zero : IsDouble 0 := ⟨0, 0, by decide, by decide, by decide, by norm_num⟩

/-- The least doubles but 0. -/
theorem isDouble_least {s : ℤ} (hs : |s| < 2 ^ 53) : IsDouble (s * 2 ^ (-1074 : ℤ)) :=
  ⟨s, -1074, hs, le_rfl, by decide, rfl⟩

/-- A float is 0 or as large as the least one. -/
theorem abs_float32 (h : float32 bits = some x) (h0 : x ≠ 0) : 2 ^ (-149 : ℤ) ≤ |x| := by
  simp only [float32, Option.ite_none_left_eq_some, Option.some.injEq] at h
  obtain ⟨h255, rfl⟩ := h
  have hm : significand bits ≠ 0 := fun he => h0 (by rw [he, Int.cast_zero, zero_mul])
  have hone : (1 : ℚ) ≤ |(significand bits : ℚ)| := by exact_mod_cast Int.one_le_abs hm
  have hpow : (2 : ℚ) ^ (-149 : ℤ) ≤ 2 ^ power bits := zpow_le_zpow_right₀ one_le_two (power_bounds h255).1
  have hpos : (0 : ℚ) < 2 ^ power bits := zpow_pos two_pos _
  calc (2 : ℚ) ^ (-149 : ℤ) ≤ 1 * 2 ^ power bits := by rw [one_mul]; exact hpow
    _ ≤ |(significand bits : ℚ)| * 2 ^ power bits := mul_le_mul_of_nonneg_right hone hpos.le
    _ = |(significand bits : ℚ) * 2 ^ power bits| := by rw [abs_mul, abs_of_pos hpos]

/-- **A text that reads back rounds to 0 exactly for 0.** -/
theorem tiny_iff (h : float32 bits = some x) (hq : ∀ y, IsDouble y → |q - x| ≤ |q - y|) :
    |q| ≤ 2 ^ (-1075 : ℤ) ↔ x = 0 := by
  have htwice : (2 : ℚ) ^ (-1074 : ℤ) = 2 * 2 ^ (-1075 : ℤ) := by
    rw [← zpow_one_add₀ two_ne_zero]
    norm_num only
  have hpos : (0 : ℚ) < 2 ^ (-1075 : ℤ) := zpow_pos two_pos _
  constructor
  · intro hle
    by_contra h0
    have hlt : (2 : ℚ) ^ (-1074 : ℤ) < 2 ^ (-149 : ℤ) := zpow_lt_zpow_right₀ one_lt_two (by decide)
    have hx := abs_float32 h h0
    have hzero := hq 0 isDouble_zero
    rw [sub_zero] at hzero
    have htri : |x| ≤ |q - x| + |q| := by
      rw [abs_sub_comm]
      simpa using abs_add_le (x - q) q
    linarith
  · rintro rfl
    have hup := hq _ (isDouble_least (s := 1) (by decide))
    have hdown := hq _ (isDouble_least (s := -1) (by decide))
    rw [Int.cast_one, one_mul] at hup
    rw [Int.cast_neg, Int.cast_one, neg_one_mul] at hdown
    have hhalf := abs_sub_le_half (q := q) (x := 0) (d := 2 ^ (-1074 : ℤ)) (by linarith)
      (by rw [zero_add]; exact hup) (by rw [zero_sub]; exact hdown)
    rw [sub_zero, htwice] at hhalf
    linarith

end FloatText
