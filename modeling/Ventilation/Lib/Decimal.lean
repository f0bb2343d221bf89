/-
# Decimal numbers in ASCII

`natText` and `intText` are the texts `printf` writes for `%d`; `scan` reads a
number off the front of a text, as `strtol` does, and finds what was written
(`scan_intText`). A text is as long as its number is large
(`length_intText_le_iff`).
-/
import Mathlib.Data.Int.Notation
import Mathlib.Algebra.Order.Ring.Int
import Mathlib.Tactic.Common
import Mathlib.Tactic.Ring

namespace Decimal

/-- An ASCII digit. -/
def isDigit (b : BitVec 8) : Bool := decide (48 ≤ b.toNat ∧ b.toNat ≤ 57)

def digit (d : ℕ) : BitVec 8 := BitVec.ofNat 8 (48 + d)

/-- The number a text of digits denotes. -/
def value (l : List (BitVec 8)) : ℕ := l.foldl (fun n b => 10 * n + (b.toNat - 48)) 0

def natText (n : ℕ) : List (BitVec 8) := (Nat.toDigits 10 n).map fun c => BitVec.ofNat 8 c.toNat

/-- `printf` with `%d`. -/
def intText : ℤ → List (BitVec 8)
  | .ofNat n => natText n
  | .negSucc n => 45 :: natText (n + 1)

/-- The digits at the front of a text, if there are any. -/
def scanNat (l : List (BitVec 8)) : Option ℕ :=
  let ds := l.takeWhile isDigit
  if ds = [] then none else some (value ds)

/-- The number at the front of a text, with or without a sign. -/
def scan : List (BitVec 8) → Option ℤ
  | [] => none
  | b :: l =>
    if b = 45 then (scanNat l).map fun n => -(n : ℤ)
    else if b = 43 then (scanNat l).map fun n => (n : ℤ)
    else (scanNat (b :: l)).map fun n => (n : ℤ)

/-! ### Digits -/

theorem toNat_digit {d : ℕ} (h : d < 10) : (digit d).toNat = 48 + d := by
  rw [digit, BitVec.toNat_ofNat, Nat.mod_eq_of_lt (by omega)]

theorem isDigit_digit {d : ℕ} (h : d < 10) : isDigit (digit d) = true := by
  rw [isDigit, toNat_digit h, decide_eq_true_iff]
  omega

theorem toNat_digitChar : ∀ d < 10, (Nat.digitChar d).toNat = 48 + d := by decide

theorem value_append (l : List (BitVec 8)) (b : BitVec 8) :
    value (l ++ [b]) = 10 * value l + (b.toNat - 48) := by
  simp only [value, List.foldl_append, List.foldl_cons, List.foldl_nil]

/-- The last digit is the remainder. -/
theorem natText_eq (n : ℕ) :
    natText n = if n < 10 then [digit n] else natText (n / 10) ++ [digit (n % 10)] := by
  have hchar : ∀ d < 10, BitVec.ofNat 8 (Nat.digitChar d).toNat = digit d := fun d hd => by
    rw [toNat_digitChar d hd, digit]
  rw [natText, Nat.toDigits_eq_if (by decide)]
  split
  · rename_i h
    rw [List.map_singleton, hchar n h]
  · rw [List.map_append, List.map_singleton, hchar _ (Nat.mod_lt n (by decide))]
    rfl

/-! ### What was written is read back -/

theorem natText_ne_nil (n : ℕ) : natText n ≠ [] := by
  rw [natText_eq]
  split
  · exact List.cons_ne_nil _ _
  · exact List.append_ne_nil_of_right_ne_nil _ (List.cons_ne_nil _ _)

theorem isDigit_natText (n : ℕ) : ∀ b ∈ natText n, isDigit b = true := by
  induction n using Nat.strong_induction_on with
  | _ n ih =>
    intro b hb
    rw [natText_eq] at hb
    split at hb
    · rename_i h
      rw [List.mem_singleton.mp hb]
      exact isDigit_digit h
    · rename_i h
      rcases List.mem_append.mp hb with hb | hb
      · exact ih (n / 10) (by omega) b hb
      · rw [List.mem_singleton.mp hb]
        exact isDigit_digit (Nat.mod_lt n (by decide))

/-- It begins with a digit. -/
theorem natText_cons (n : ℕ) : ∃ b l, natText n = b :: l ∧ isDigit b = true := by
  obtain ⟨b, l, hn⟩ := List.exists_cons_of_ne_nil (natText_ne_nil n)
  exact ⟨b, l, hn, isDigit_natText n b (hn ▸ List.mem_cons_self)⟩

theorem value_natText (n : ℕ) : value (natText n) = n := by
  induction n using Nat.strong_induction_on with
  | _ n ih =>
    rw [natText_eq]
    split
    · rename_i h
      simp only [value, List.foldl_cons, List.foldl_nil, toNat_digit h]
      omega
    · rename_i h
      rw [value_append, ih (n / 10) (by omega), toNat_digit (Nat.mod_lt n (by decide))]
      omega

theorem mem_intText {x : ℤ} {b : BitVec 8} (h : b ∈ intText x) : isDigit b = true ∨ b = 45 := by
  cases x with
  | ofNat n => exact .inl (isDigit_natText n b h)
  | negSucc n =>
    rcases List.mem_cons.mp h with rfl | h
    · exact .inr rfl
    · exact .inl (isDigit_natText _ b h)

/-- A run of digits ends where something else stands. -/
theorem span_digits {ds rest : List (BitVec 8)} (hds : ∀ b ∈ ds, isDigit b = true)
    (hrest : ∀ b, rest.head? = some b → isDigit b = false) :
    (ds ++ rest).takeWhile isDigit = ds ∧ (ds ++ rest).dropWhile isDigit = rest := by
  rw [List.takeWhile_append_of_pos hds, List.dropWhile_append_of_pos hds]
  cases rest with
  | nil => exact ⟨List.append_nil ds, rfl⟩
  | cons b l =>
    rw [List.takeWhile_cons_of_neg (by rw [hrest b rfl]; decide),
      List.dropWhile_cons_of_neg (by rw [hrest b rfl]; decide)]
    exact ⟨List.append_nil ds, rfl⟩

/-- Behind the text, whatever does not begin with a digit. -/
theorem scanNat_natText (n : ℕ) {rest : List (BitVec 8)}
    (h : ∀ b, rest.head? = some b → isDigit b = false) : scanNat (natText n ++ rest) = some n := by
  rw [scanNat]
  simp only [(span_digits (isDigit_natText n) h).1]
  rw [if_neg (natText_ne_nil n), value_natText]

/-- Without a sign. -/
theorem scan_of_isDigit {b : BitVec 8} (h : isDigit b = true) (l : List (BitVec 8)) :
    scan (b :: l) = (scanNat (b :: l)).map fun n => (n : ℤ) := by
  have h45 : b ≠ 45 := fun he => by rw [he] at h; revert h; decide
  have h43 : b ≠ 43 := fun he => by rw [he] at h; revert h; decide
  rw [scan, if_neg h45, if_neg h43]

/-- **What was written is read back.** -/
theorem scan_intText (x : ℤ) {rest : List (BitVec 8)}
    (h : ∀ b, rest.head? = some b → isDigit b = false) : scan (intText x ++ rest) = some x := by
  cases x with
  | ofNat n =>
    obtain ⟨b, l, hn, hb⟩ := natText_cons n
    have hscan := scanNat_natText n h
    rw [hn, List.cons_append] at hscan
    rw [intText, hn, List.cons_append, scan_of_isDigit hb, hscan]
    rfl
  | negSucc n =>
    rw [intText, List.cons_append, scan, if_pos rfl, scanNat_natText (n + 1) h]
    rfl

/-! ### How long a text is -/

theorem length_natText_le_iff (n : ℕ) {k : ℕ} (hk : 0 < k) : (natText n).length ≤ k ↔ n < 10 ^ k := by
  rw [natText, List.length_map]
  exact Nat.length_toDigits_le_iff (by decide) hk

theorem length_intText_le_iff (x : ℤ) {k : ℕ} (hk : 0 < k) :
    (intText x).length ≤ k + 1 ↔ -10 ^ k < x ∧ x < 10 ^ (k + 1) := by
  have hpow : (0 : ℤ) < 10 ^ k := Int.pow_pos (by decide)
  cases x with
  | ofNat n =>
    rw [intText, length_natText_le_iff n (Nat.succ_pos k), Int.ofNat_eq_natCast]
    have hcast : n < 10 ^ (k + 1) ↔ (n : ℤ) < 10 ^ (k + 1) := by exact_mod_cast Iff.rfl
    omega
  | negSucc n =>
    rw [intText, List.length_cons, Nat.add_le_add_iff_right, length_natText_le_iff _ hk,
      Int.negSucc_eq]
    have hcast : n + 1 < 10 ^ k ↔ (n : ℤ) + 1 < 10 ^ k := by exact_mod_cast Iff.rfl
    have hpow' : (0 : ℤ) < 10 ^ (k + 1) := Int.pow_pos (by decide)
    omega

end Decimal
