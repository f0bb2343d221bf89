/-
# Integers in JSON

What the reader makes of an integer as people write it (`Numeral`: with a sign,
zeros in front, white space around) depends on whether it is written as JSON
has it: it is read (`readValue_canonical`), or it is not, or digits are left
(`readValue_not_canonical`). With it, what the members of an object are read
from.
-/
import Ventilation.Lib.Json

namespace Json

open Decimal

/-! ### Integers as people write them -/

/-- A sign or none, digits, and white space around them. -/
structure Numeral where
  before : Text
  sign : Text
  digits : Text
  after : Text
  before_ws : ∀ b ∈ before, isWs b = true
  after_ws : ∀ b ∈ after, isWs b = true
  sign_mem : sign = [] ∨ sign = [43] ∨ sign = [45]
  digits_ne : digits ≠ []
  digits_digit : ∀ b ∈ digits, isDigit b = true

namespace Numeral

def text (n : Numeral) : Text := n.before ++ (n.sign ++ n.digits ++ n.after)

def toInt (n : Numeral) : ℤ := if n.sign = [45] then -(value n.digits : ℤ) else value n.digits

/-- Written as JSON has it: no plus sign, and no zero in front of other digits. -/
def Canonical (n : Numeral) : Prop := n.sign ≠ [43] ∧ (n.digits = [48] ∨ n.digits.head? ≠ some 48)

end Numeral

/-- Nothing that would continue a number. -/
def Ends (l : Text) : Prop :=
  ∀ b, l.head? = some b → isDigit b = false ∧ b ≠ 46 ∧ b ≠ 101 ∧ b ≠ 69

theorem isDigit_of_isWs {b : BitVec 8} (h : isWs b = true) : isDigit b = false := by
  rcases of_decide_eq_true h with rfl | rfl | rfl | rfl <;> rfl

theorem skipWs_append {ws : Text} (h : ∀ b ∈ ws, isWs b = true) (l : Text) : skipWs (ws ++ l) = skipWs l :=
  List.dropWhile_append_of_pos h

theorem skipWs_cons {b : BitVec 8} (h : isWs b = false) (l : Text) : skipWs (b :: l) = b :: l :=
  List.dropWhile_cons_of_neg (by rw [h]; decide)

theorem ends_append {ws l : Text} (hws : ∀ b ∈ ws, isWs b = true) (hl : Ends l) : Ends (ws ++ l) := by
  intro b hb
  cases ws with
  | nil => exact hl b hb
  | cons c ws =>
    obtain rfl := Option.some.inj hb
    have hc := hws c List.mem_cons_self
    refine ⟨isDigit_of_isWs hc, ?_⟩
    rcases of_decide_eq_true hc with rfl | rfl | rfl | rfl <;> decide

theorem fraction_ends {l : Text} (h : Ends l) : fraction l = some (false, l) := by
  cases l with
  | nil => rfl
  | cons b l => rw [fraction, if_neg (h b rfl).2.1]

theorem exponent_ends {l : Text} (h : Ends l) : exponent l = some (false, l) := by
  cases l with
  | nil => rfl
  | cons b l =>
    obtain ⟨-, -, h1, h2⟩ := h b rfl
    rw [exponent, if_neg (by rintro (he | he) <;> contradiction)]

/-- What a number begins with. -/
theorem readValue_number {b : BitVec 8} (h : isDigit b = true ∨ b = 43 ∨ b = 45) (k : ℕ) (l : Text) :
    readValue (k + 1) (b :: l) = number (b :: l) := by
  have hne : b ≠ 123 ∧ b ≠ 91 ∧ b ≠ 34 ∧ b ≠ 116 ∧ b ≠ 102 ∧ b ≠ 110 := by
    rcases h with h | rfl | rfl
    · refine ⟨?_, ?_, ?_, ?_, ?_, ?_⟩ <;> rintro rfl <;> exact absurd h (by decide)
    · decide
    · decide
  obtain ⟨h1, h2, h3, h4, h5, h6⟩ := hne
  rw [readValue, if_neg h1, if_neg h2, if_neg h3, if_neg h4, if_neg h5, if_neg h6]

theorem intPart_eq {ds rest : Text} (hne : ds ≠ []) (hds : ∀ b ∈ ds, isDigit b = true)
    (hzero : ds = [48] ∨ ds.head? ≠ some 48) (hrest : ∀ b, rest.head? = some b → isDigit b = false) :
    intPart (ds ++ rest) = some (ds, rest) := by
  rcases hzero with rfl | hzero
  · rfl
  · obtain ⟨d, ds', rfl⟩ := List.exists_cons_of_ne_nil hne
    have hd : d ≠ 48 := fun he => hzero (congrArg some he)
    obtain ⟨htake, hdrop⟩ := span_digits (fun b hb => hds b (List.mem_cons_of_mem d hb)) hrest
    rw [List.cons_append, intPart, if_neg hd, if_pos (hds d List.mem_cons_self), htake, hdrop]

theorem unsigned_eq {ds rest : Text} (neg : Bool) (hne : ds ≠ []) (hds : ∀ b ∈ ds, isDigit b = true)
    (hzero : ds = [48] ∨ ds.head? ≠ some 48) (hrest : Ends rest) :
    unsigned neg (ds ++ rest) = some (.int (if neg then -(value ds : ℤ) else value ds), rest) := by
  have hint := intPart_eq hne hds hzero fun b hb => (hrest b hb).1
  simp only [unsigned, bind, hint, fraction_ends hrest, exponent_ends hrest, Option.bind_some]
  rfl

/-- A zero in front of other digits is the whole number. -/
theorem unsigned_zero (neg : Bool) {d : BitVec 8} (hd : isDigit d = true) (l : Text) :
    unsigned neg (48 :: d :: l) = some (.int (if neg then -(0 : ℕ) else (0 : ℕ)), d :: l) := by
  have h46 : d ≠ 46 := by rintro rfl; exact absurd hd (by decide)
  have hexp : ¬ (d = 101 ∨ d = 69) := by rintro (rfl | rfl) <;> exact absurd hd (by decide)
  simp only [unsigned, bind, intPart, fraction, exponent, if_pos, if_neg h46, if_neg hexp, Option.bind_some]
  rfl

/-- It is a C string. -/
theorem Numeral.zero_not_mem (n : Numeral) : (0 : BitVec 8) ∉ n.text := by
  intro h
  simp only [Numeral.text, List.mem_append] at h
  rcases h with h | (h | h) | h
  · exact absurd (n.before_ws 0 h) (by decide)
  · rcases n.sign_mem with hs | hs | hs <;> rw [hs] at h <;> exact absurd h (by decide)
  · exact absurd (n.digits_digit 0 h) (by decide)
  · exact absurd (n.after_ws 0 h) (by decide)

variable {n : Numeral}

/-- The white space in front is skipped. -/
theorem skipWs_text (n : Numeral) (rest : Text) :
    skipWs (n.text ++ rest) = n.sign ++ (n.digits ++ (n.after ++ rest)) := by
  rw [Numeral.text, List.append_assoc, List.append_assoc, List.append_assoc, skipWs_append n.before_ws]
  rcases n.sign_mem with hs | hs | hs
  · obtain ⟨d, ds, hds⟩ := List.exists_cons_of_ne_nil n.digits_ne
    have hd : isWs d = false := by
      have hdig : isDigit d = true := n.digits_digit d (hds ▸ List.mem_cons_self)
      by_contra hws
      rw [isDigit_of_isWs (Bool.not_eq_false _ ▸ hws)] at hdig
      cases hdig
    rw [hs, hds]
    exact skipWs_cons hd _
  · rw [hs]
    exact skipWs_cons (by decide) _
  · rw [hs]
    exact skipWs_cons (by decide) _

/-- **An integer written as JSON has it is read.** -/
theorem readValue_canonical (h : n.Canonical) (k : ℕ) {rest : Text} (hrest : Ends rest) :
    readValue (k + 1) (skipWs (n.text ++ rest)) = some (.int n.toInt, n.after ++ rest) := by
  obtain ⟨hplus, hzero⟩ := h
  have hends := ends_append n.after_ws hrest
  rw [skipWs_text]
  rcases n.sign_mem with hs | hs | hs
  · obtain ⟨d, ds, hds⟩ := List.exists_cons_of_ne_nil n.digits_ne
    have hd : isDigit d = true := n.digits_digit d (hds ▸ List.mem_cons_self)
    have h45 : d ≠ 45 := by rintro rfl; exact absurd hd (by decide)
    have hu := unsigned_eq false n.digits_ne n.digits_digit hzero hends
    rw [hds, List.cons_append] at hu
    rw [Numeral.toInt, hs, hds, List.nil_append, List.cons_append, readValue_number (.inl hd), number,
      if_neg h45, hu]
    rfl
  · exact absurd hs hplus
  · have hu := unsigned_eq true n.digits_ne n.digits_digit hzero hends
    rw [Numeral.toInt, hs, List.singleton_append, readValue_number (.inr (.inr rfl)), number, if_pos rfl, hu]
    rfl

/-- Otherwise it is not, or digits are left. -/
theorem readValue_not_canonical (h : ¬ n.Canonical) (k : ℕ) (rest : Text) :
    readValue (k + 1) (skipWs (n.text ++ rest)) = none ∨ ∃ v d r,
      readValue (k + 1) (skipWs (n.text ++ rest)) = some (v, d :: r) ∧ isDigit d = true := by
  rw [skipWs_text]
  obtain hplus | ⟨hplus, d, ds, hds⟩ : n.sign = [43] ∨
      (n.sign ≠ [43] ∧ ∃ d ds, n.digits = 48 :: d :: ds) := by
    by_cases hplus : n.sign = [43]
    · exact .inl hplus
    · refine .inr ⟨hplus, ?_⟩
      have hzero : ¬ (n.digits = [48] ∨ n.digits.head? ≠ some 48) := fun hz => h ⟨hplus, hz⟩
      rw [not_or, not_not] at hzero
      obtain ⟨ds, hds⟩ := List.head?_eq_some_iff.mp hzero.2
      cases ds with
      | nil => exact absurd hds hzero.1
      | cons d ds => exact ⟨d, ds, hds⟩
  · left
    rw [hplus, List.singleton_append, readValue_number (.inr (.inl rfl)), number, if_neg (by decide)]
    rfl
  · right
    have hd : isDigit d = true := n.digits_digit d (by rw [hds]; simp)
    rcases n.sign_mem with hs | hs | hs
    · rw [hs, hds, List.nil_append, List.cons_append, List.cons_append, readValue_number (.inl (by decide)),
        number, if_neg (by decide), unsigned_zero false hd]
      exact ⟨_, _, _, rfl, hd⟩
    · exact absurd hs hplus
    · rw [hs, hds, List.singleton_append, List.cons_append, List.cons_append,
        readValue_number (.inr (.inr rfl)), number, if_pos rfl, unsigned_zero true hd]
      exact ⟨_, _, _, rfl, hd⟩

/-! ### Members -/

/-- Characters that stand for themselves in a string. -/
def Plain (s : Text) : Prop := ∀ b ∈ s, b ≠ 34 ∧ b ≠ 92 ∧ 32 ≤ b.toNat

theorem chars_plain : ∀ {s : Text}, Plain s → ∀ {k : ℕ}, s.length < k → ∀ rest : Text,
    chars k (s ++ 34 :: rest) = some (s, rest)
  | [], _, 0, hk, _ => absurd hk (Nat.not_lt_zero _)
  | [], _, k + 1, _, rest => by rw [List.nil_append, chars, if_pos rfl]
  | b :: s, _, 0, hk, _ => absurd hk (Nat.not_lt_zero _)
  | b :: s, hs, k + 1, hk, rest => by
    obtain ⟨h34, h92, h32⟩ := hs b List.mem_cons_self
    have hrest := chars_plain (fun c hc => hs c (List.mem_cons_of_mem b hc)) (Nat.lt_of_succ_lt_succ hk) rest
    rw [List.cons_append, chars, if_neg h34, if_neg h92, if_neg (by omega), hrest]
    rfl

theorem string_plain {s : Text} (hs : Plain s) (rest : Text) :
    string (34 :: (s ++ 34 :: rest)) = some (s, rest) := by
  have hlen : s.length < (s ++ 34 :: rest).length + 1 := by
    rw [List.length_append]
    omega
  simp only [string, expect, if_pos, bind, Option.bind_some, chars_plain hs hlen]

variable {name l r r' : Text} {v : Json} {k : ℕ}

theorem readMembers_last (hname : Plain name) (hv : readValue k (skipWs l) = some (v, r))
    (hr : skipWs r = 125 :: r') :
    readMembers (k + 1) (34 :: (name ++ 34 :: 58 :: l)) = some ([(name, v)], r') := by
  simp only [readMembers, bind, string_plain hname, Option.bind_some, skipWs_cons (by decide : isWs 58 = false),
    expect, if_pos, hv, hr]
  rfl

theorem readMembers_more (hname : Plain name) (hv : readValue k (skipWs l) = some (v, r))
    (hr : skipWs r = 44 :: r') : readMembers (k + 1) (34 :: (name ++ 34 :: 58 :: l)) =
      (readMembers k (skipWs r')).map fun q => ((name, v) :: q.1, q.2) := by
  simp only [readMembers, bind, string_plain hname, Option.bind_some, skipWs_cons (by decide : isWs 58 = false),
    expect, if_pos, hv, hr]
  rfl

/-- A value that is followed by a digit ends nothing. -/
theorem readMembers_none (hname : Plain name) (hv : readValue k (skipWs l) = none ∨
      ∃ v d r, readValue k (skipWs l) = some (v, d :: r) ∧ isDigit d = true) :
    readMembers (k + 1) (34 :: (name ++ 34 :: 58 :: l)) = none := by
  simp only [readMembers, bind, string_plain hname, Option.bind_some, skipWs_cons (by decide : isWs 58 = false),
    expect, if_pos]
  rcases hv with hv | ⟨v, d, r, hv, hd⟩
  · rw [hv]
    rfl
  · have hws : isWs d = false := by
      by_contra hws
      rw [isDigit_of_isWs (Bool.not_eq_false _ ▸ hws)] at hd
      cases hd
    have h125 : d ≠ 125 := by rintro rfl; exact absurd hd (by decide)
    have h44 : d ≠ 44 := by rintro rfl; exact absurd hd (by decide)
    rw [hv]
    simp only [Option.bind_some, skipWs_cons hws, if_neg h125, if_neg h44]

theorem readValue_obj (k : ℕ) (l : Text) :
    readValue (k + 1) (123 :: 34 :: l) = (readMembers k (34 :: l)).map fun r => (.obj r.1, r.2) := by
  simp only [readValue, if_pos, skipWs_cons (by decide : isWs 34 = false), expect,
    if_neg (by decide : ¬ (34 : BitVec 8) = 125)]

end Json
