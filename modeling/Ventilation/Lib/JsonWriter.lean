/-
# Writing JSON

The text of an object as a writer builds it, member by member and without white space. A
member is a key and a text that is read as a value whatever does not continue it
(`Reads`). An object of such members is read back, every one of them
(`read_objectText`). Integers, booleans and numbers with an exponent are written so.
-/
import Ventilation.Lib.JsonNumeral
import Ventilation.Lib.PyJson

namespace Json

open Decimal

/-! ### The text -/

def memberText (m : Text × Text) : Text := 34 :: (m.1 ++ 34 :: 58 :: m.2)

def membersText : List (Text × Text) → Text
  | [] => []
  | [m] => memberText m
  | m :: ms => memberText m ++ 44 :: membersText ms

def objectText (ms : List (Text × Text)) : Text := 123 :: (membersText ms ++ [125])

def boolText (b : Bool) : Text := Python.ascii (if b then "true" else "false")

/-- Two quotes, a colon, and a comma or the brace for each member. -/
def sizes (ms : List (Text × Text)) : ℕ := (ms.map fun m => m.1.length + m.2.length + 4).sum

theorem length_membersText : ∀ {ms : List (Text × Text)}, ms ≠ [] → (membersText ms).length + 1 = sizes ms
  | [m], _ => by
    simp only [membersText, memberText, sizes, List.length_cons, List.length_append, List.map_cons, List.map_nil,
      List.sum_cons, List.sum_nil]
    omega
  | m :: m' :: ms, _ => by
    have ih := length_membersText (List.cons_ne_nil m' ms)
    have hsize : sizes (m :: m' :: ms) = m.1.length + m.2.length + 4 + sizes (m' :: ms) := rfl
    rw [membersText, List.length_append, List.length_cons, hsize, ← ih]
    · simp only [memberText, List.length_cons, List.length_append]
      omega
    · rintro ⟨⟩

theorem length_objectText {ms : List (Text × Text)} (h : ms ≠ []) : (objectText ms).length = sizes ms + 1 := by
  rw [objectText, List.length_cons, List.length_append, List.length_singleton, length_membersText h]

/-- What holds of the characters of the members and of those between them, holds of the text. -/
theorem forall_objectText {P : BitVec 8 → Prop} (hbetween : ∀ b ∈ Python.ascii "\x7b\x7d\":,", P b)
    {ms : List (Text × Text)} (h : ∀ m ∈ ms, (∀ b ∈ m.1, P b) ∧ ∀ b ∈ m.2, P b) : ∀ b ∈ objectText ms, P b := by
  obtain ⟨hopen, hclose, hquote, hcolon, hcomma⟩ : P 123 ∧ P 125 ∧ P 34 ∧ P 58 ∧ P 44 :=
    ⟨hbetween _ (by decide), hbetween _ (by decide), hbetween _ (by decide), hbetween _ (by decide),
      hbetween _ (by decide)⟩
  have hmember : ∀ m ∈ ms, ∀ b ∈ memberText m, P b := by
    intro m hm
    obtain ⟨hname, htext⟩ := h m hm
    simp only [memberText, List.forall_mem_cons, List.forall_mem_append]
    exact ⟨hquote, hname, hquote, hcolon, htext⟩
  have hmembers : ∀ ms : List (Text × Text), (∀ m ∈ ms, ∀ b ∈ memberText m, P b) → ∀ b ∈ membersText ms, P b := by
    intro ms hms
    induction ms with
    | nil => exact fun b hb => absurd hb List.not_mem_nil
    | cons m ms ih =>
      obtain ⟨hm, hrest⟩ := List.forall_mem_cons.mp hms
      cases ms with
      | nil => exact hm
      | cons m' ms =>
        simp only [membersText, List.forall_mem_append, List.forall_mem_cons]
        exact ⟨hm, hcomma, ih hrest⟩
  simp only [objectText, List.forall_mem_cons, List.forall_mem_append]
  exact ⟨hopen, hmembers ms hmember, hclose, fun b hb => absurd hb List.not_mem_nil⟩

/-! ### What a text is read as -/

/-- It is read as `v` before anything that does not continue a number. -/
def Reads (text : Text) (v : Json) : Prop :=
  ∀ (n : ℕ) (rest : Text), Ends rest → Python.readValue (n + 1) (skipWs (text ++ rest)) = some (v, rest)

/-- A member that is written, and what it is read as. -/
structure Member where
  name : Text
  text : Text
  value : Json
  plain : Plain name
  reads : Reads text value

namespace Member

def written (m : Member) : Text × Text := (m.name, m.text)

def read (m : Member) : Text × Json := (m.name, m.value)

end Member

theorem ends_cons {b : BitVec 8} (hb : b = 44 ∨ b = 125) (l : Text) : Ends (b :: l) := by
  rintro c ⟨⟩
  rcases hb with rfl | rfl <;> decide

theorem reads_bool (b : Bool) : Reads (boolText b) (.bool b) := by
  intro n rest _
  cases b
  · rfl
  · rfl

/-- A number begins with a digit. -/
theorem unsigned_digit {neg : Bool} {l : Text} {r : Json × Text} (h : unsigned neg l = some r) :
    ∃ c t, l = c :: t ∧ isDigit c = true := by
  obtain ⟨q, hq, -⟩ := Option.bind_eq_some_iff.mp h
  cases l with
  | nil => cases hq
  | cons c t =>
    refine ⟨c, t, rfl, ?_⟩
    rw [intPart] at hq
    split_ifs at hq with h48 hdigit
    · rw [h48]
      rfl
    · exact hdigit

/-- Or with a sign and one. -/
theorem number_head {l : Text} {r : Json × Text} (h : number l = some r) :
    ∃ c t, isDigit c = true ∧ (l = c :: t ∨ l = 45 :: c :: t) := by
  cases l with
  | nil => cases h
  | cons b l =>
    rw [number] at h
    split at h
    · rename_i hb
      obtain ⟨c, t, rfl, hc⟩ := unsigned_digit h
      exact ⟨c, t, hc, .inr (by rw [hb])⟩
    · obtain ⟨c, t, ht, hc⟩ := unsigned_digit h
      exact ⟨c, t, hc, .inl ht⟩

/-- What JSON has for a number is none of the words that Python has for one. -/
theorem number_of_json {l : Text} {r : Json × Text} (h : number l = some r) : Python.number l = some r := by
  obtain ⟨c, t, hc, hl⟩ := number_head h
  have hword : ∀ w ∈ ["NaN", "Infinity", "-Infinity"].map Python.ascii, ¬ w <+: l := by
    intro w hw hpre
    have h78 : c ≠ 78 := by rintro rfl; exact absurd hc (by decide)
    have h73 : c ≠ 73 := by rintro rfl; exact absurd hc (by decide)
    have h45 : c ≠ 45 := by rintro rfl; exact absurd hc (by decide)
    simp only [List.map_cons, List.map_nil, List.mem_cons, List.not_mem_nil, or_false] at hw
    rcases hl with rfl | rfl
    · rcases hw with rfl | rfl | rfl
      · exact h78 (List.cons_prefix_cons.mp hpre).1.symm
      · exact h73 (List.cons_prefix_cons.mp hpre).1.symm
      · exact h45 (List.cons_prefix_cons.mp hpre).1.symm
    · rcases hw with rfl | rfl | rfl
      · exact absurd (List.cons_prefix_cons.mp hpre).1 (by decide)
      · exact absurd (List.cons_prefix_cons.mp hpre).1 (by decide)
      · exact h73 (List.cons_prefix_cons.mp (List.cons_prefix_cons.mp hpre).2).1.symm
  have hnone : (["NaN", "Infinity", "-Infinity"].map Python.ascii).find? (· <+: l) = none :=
    List.find?_eq_none.mpr fun w hw => by simpa using hword w hw
  rw [Python.number]
  split
  · rename_i w hw
    exact absurd (hnone.symm.trans hw) (by rintro ⟨⟩)
  · exact h

/-- A text that JSON has for a number, to its end. -/
theorem reads_number {text : Text} {v : Json} (h : ∀ rest, Ends rest → number (text ++ rest) = some (v, rest)) :
    Reads text v := by
  intro n rest hrest
  have hnumber := h rest hrest
  obtain ⟨c, t, hc, hl⟩ := number_head hnumber
  have hvalue : ∀ b l, text ++ rest = b :: l → isDigit b = true ∨ b = 45 →
      Python.readValue (n + 1) (skipWs (text ++ rest)) = some (v, rest) := by
    intro b l hb hdigit
    have hne : isWs b = false ∧ b ≠ 123 ∧ b ≠ 91 ∧ b ≠ 34 ∧ b ≠ 116 ∧ b ≠ 102 ∧ b ≠ 110 := by
      rcases hdigit with hdigit | rfl
      · refine ⟨?_, ?_, ?_, ?_, ?_, ?_, ?_⟩
        · by_contra hws
          rw [isDigit_of_isWs (Bool.not_eq_false _ ▸ hws)] at hdigit
          cases hdigit
        all_goals rintro rfl; exact absurd hdigit (by decide)
      · decide
    obtain ⟨hws, h1, h2, h3, h4, h5, h6⟩ := hne
    rw [hb, skipWs_cons hws, Python.readValue, if_neg h1, if_neg h2, if_neg h3, if_neg h4, if_neg h5, if_neg h6, ← hb]
    exact number_of_json hnumber
  rcases hl with hl | hl
  · exact hvalue c t hl (.inl hc)
  · exact hvalue 45 (c :: t) hl (.inr rfl)

/-! ### Numbers -/

theorem head?_natText {n : ℕ} (h : 0 < n) : (natText n).head? ≠ some 48 := by
  induction n using Nat.strong_induction_on with
  | _ n ih =>
    rw [natText_eq]
    split
    · rename_i hlt
      rw [List.head?_cons]
      intro he
      have hdigit := toNat_digit hlt
      rw [Option.some.inj he] at hdigit
      have h48 : (48 : BitVec 8).toNat = 48 := rfl
      omega
    · rename_i hge
      obtain ⟨b, ds, hds, -⟩ := natText_cons (n / 10)
      have hhead := ih (n / 10) (by omega) (by omega)
      rw [hds] at hhead ⊢
      exact hhead

/-- A number is not written with a zero in front. -/
theorem natText_canonical (n : ℕ) : natText n = [48] ∨ (natText n).head? ≠ some 48 := by
  rcases Nat.eq_zero_or_pos n with rfl | h
  · exact .inl rfl
  · exact .inr (head?_natText h)

def signText (neg : Bool) : Text := if neg then [45] else []

theorem intText_eq (z : ℤ) : intText z = signText (decide (z < 0)) ++ natText z.natAbs := by
  cases z with
  | ofNat m => rfl
  | negSucc m => rw [decide_eq_true (Int.negSucc_lt_zero m)]; rfl

/-- Behind its sign a number is what `unsigned` reads there. -/
theorem number_sign (neg : Bool) (n : ℕ) (l : Text) :
    number (signText neg ++ (natText n ++ l)) = unsigned neg (natText n ++ l) := by
  cases neg with
  | true => rfl
  | false =>
    obtain ⟨b, ds, hds, hb⟩ := natText_cons n
    have h45 : b ≠ 45 := by rintro rfl; exact absurd hb (by decide)
    rw [hds]
    exact if_neg h45

theorem number_intText (z : ℤ) {rest : Text} (h : Ends rest) : number (intText z ++ rest) = some (.int z, rest) := by
  rw [intText_eq, List.append_assoc, number_sign,
    unsigned_eq _ (natText_ne_nil _) (isDigit_natText _) (natText_canonical _) h, value_natText]
  congr 3
  split
  · rename_i hneg
    have := of_decide_eq_true hneg
    omega
  · rename_i hneg
    have : ¬ z < 0 := fun h => hneg (decide_eq_true h)
    omega

theorem reads_int (z : ℤ) : Reads (intText z) (.int z) := reads_number fun _ h => number_intText z h

/-- A number with a fraction or an exponent is kept as its text. -/
theorem number_real (neg : Bool) (n : ℕ) {tail l rest : Text} {frac exp : Bool}
    (hdigit : ∀ b, (tail ++ rest).head? = some b → isDigit b = false)
    (hfrac : fraction (tail ++ rest) = some (frac, l)) (hexp : exponent l = some (exp, rest))
    (hreal : (frac || exp) = true) : number (signText neg ++ natText n ++ tail ++ rest) =
      some (.real (signText neg ++ natText n ++ tail), rest) := by
  have hint : intPart (natText n ++ (tail ++ rest)) = some (natText n, tail ++ rest) :=
    intPart_eq (natText_ne_nil n) (isDigit_natText n) (natText_canonical n) hdigit
  have hsplit : natText n ++ (tail ++ rest) = natText n ++ tail ++ rest := (List.append_assoc ..).symm
  rw [List.append_assoc, List.append_assoc, number_sign]
  simp only [unsigned, bind, hint, hfrac, hexp, Option.bind_some, hreal, if_true, pure]
  rw [hsplit, List.length_append, Nat.add_sub_cancel, List.take_left, ← signText, List.append_assoc]

/-- Digits behind `e-`. -/
theorem exponent_natText (k : ℕ) {rest : Text} (h : Ends rest) :
    exponent (101 :: 45 :: (natText k ++ rest)) = some (true, rest) := by
  obtain ⟨b, ds, hds, hb⟩ := natText_cons k
  obtain ⟨-, hdrop⟩ := span_digits (isDigit_natText k) fun c hc => (h c hc).1
  rw [hds, List.cons_append, List.dropWhile_cons_of_pos hb] at hdrop
  rw [hds, List.cons_append, exponent, if_pos (.inl rfl), exponentDigits, if_pos (.inr rfl), digits, if_pos hb, hdrop]
  rfl

theorem reads_exponent (z : ℤ) (k : ℕ) :
    Reads (intText z ++ 101 :: 45 :: natText k) (.real (intText z ++ 101 :: 45 :: natText k)) := by
  rw [intText_eq]
  refine reads_number fun rest h => number_real _ _ ?_ rfl (exponent_natText k h) rfl
  rintro b ⟨⟩
  rfl

theorem reads_fraction (neg : Bool) (n : ℕ) {b : BitVec 8} {ds : Text} (hb : isDigit b = true)
    (hds : ∀ c ∈ ds, isDigit c = true) :
    Reads (signText neg ++ natText n ++ 46 :: b :: ds) (.real (signText neg ++ natText n ++ 46 :: b :: ds)) := by
  refine reads_number fun rest h => ?_
  have hfrac : fraction (46 :: b :: ds ++ rest) = some (true, rest) := by
    obtain ⟨-, hdrop⟩ := span_digits hds fun c hc => (h c hc).1
    rw [List.cons_append, fraction, if_pos rfl, List.cons_append, digits, if_pos hb, hdrop]
    rfl
  refine number_real neg n ?_ hfrac (exponent_ends h) rfl
  rintro c ⟨⟩
  rfl

/-! ### Objects -/

theorem string_written {s : Text} (hs : Plain s) (rest : Text) :
    Python.string (34 :: (s ++ 34 :: rest)) = some (s, rest) := by
  have hchars : ∀ (s : Text), Plain s → ∀ k, s.length < k → Python.chars k (s ++ 34 :: rest) = some (s, rest) := by
    intro s
    induction s with
    | nil =>
      intro _ k hk
      obtain ⟨k, rfl⟩ := Nat.exists_eq_succ_of_ne_zero (Nat.ne_zero_of_lt hk)
      rfl
    | cons b s ih =>
      intro hs k hk
      obtain ⟨k, rfl⟩ := Nat.exists_eq_succ_of_ne_zero (Nat.ne_zero_of_lt hk)
      obtain ⟨h34, h92, h32⟩ := hs b List.mem_cons_self
      have hrest := ih (fun c hc => hs c (List.mem_cons_of_mem b hc)) k (Nat.lt_of_succ_lt_succ hk)
      rw [List.cons_append, Python.chars, if_neg h34, if_neg h92, if_neg (by omega), hrest]
      rfl
  have hlen : s.length < (s ++ 34 :: rest).length + 1 := by
    rw [List.length_append]
    omega
  simp only [Python.string, expect, if_pos, bind, Option.bind_some, hchars s hs _ hlen]

/-- What comes of a member, by what stands behind it. -/
theorem readMembers_member (m : Member) (n : ℕ) {b : BitVec 8} (hb : b = 44 ∨ b = 125) (rest : Text) :
    Python.readMembers (n + 2) (memberText m.written ++ b :: rest) =
      if b = 125 then some ([m.read], rest)
      else (Python.readMembers (n + 1) (skipWs rest)).map fun r => (m.read :: r.1, r.2) := by
  have hv := m.reads n (b :: rest) (ends_cons hb rest)
  have hws : skipWs (b :: rest) = b :: rest := by
    rcases hb with rfl | rfl <;> exact skipWs_cons (by decide) rest
  have htext : memberText m.written ++ b :: rest = 34 :: (m.name ++ 34 :: 58 :: (m.text ++ b :: rest)) := by
    simp [memberText, Member.written]
  simp only [htext, Python.readMembers, bind, string_written m.plain, Option.bind_some,
    skipWs_cons (by decide : isWs 58 = false), expect, if_pos, hv, hws]
  rcases hb with rfl | rfl
  · rfl
  · rfl

/-- The text of the members begins with a quote. -/
theorem membersText_cons (m : Text × Text) : ∀ ms : List (Text × Text), ∃ t, membersText (m :: ms) = 34 :: t
  | [] => ⟨_, rfl⟩
  | _ :: _ => ⟨_, rfl⟩

theorem readMembers_membersText (rest : Text) : ∀ {ms : List Member}, ms ≠ [] → ∀ {n : ℕ}, ms.length < n →
    Python.readMembers n (membersText (ms.map Member.written) ++ 125 :: rest) = some (ms.map Member.read, rest)
  | [m], _, n, hn => by
    obtain ⟨n, rfl⟩ : ∃ k, n = k + 2 := ⟨n - 2, by simp at hn; omega⟩
    exact readMembers_member m n (.inr rfl) rest
  | m :: m' :: ms, _, n, hn => by
    obtain ⟨n, rfl⟩ : ∃ k, n = k + 2 := ⟨n - 2, by simp at hn; omega⟩
    have ih := readMembers_membersText rest (List.cons_ne_nil m' ms) (n := n + 1) (by simp at hn ⊢; omega)
    obtain ⟨t, ht⟩ := membersText_cons m'.written (ms.map Member.written)
    have hws : skipWs (membersText ((m' :: ms).map Member.written) ++ 125 :: rest) =
        membersText ((m' :: ms).map Member.written) ++ 125 :: rest := by
      rw [List.map_cons, ht]
      exact skipWs_cons (by decide) _
    have htext : membersText ((m :: m' :: ms).map Member.written) ++ 125 :: rest =
        memberText m.written ++ 44 :: (membersText ((m' :: ms).map Member.written) ++ 125 :: rest) := by
      simp [membersText]
    rw [htext, readMembers_member m n (.inl rfl), if_neg (by decide), hws, ih]
    rfl

/-- **An object is read back.** -/
theorem read_objectText {ms : List Member} (h : ms ≠ []) :
    Python.read (objectText (ms.map Member.written)) = some (.obj (ms.map Member.read)) := by
  obtain ⟨m, ms', rfl⟩ := List.exists_cons_of_ne_nil h
  obtain ⟨t, ht⟩ := membersText_cons m.written (ms'.map Member.written)
  have hlen : (m :: ms').length < 2 * (objectText ((m :: ms').map Member.written)).length := by
    have hsizes : ∀ l : List (Text × Text), l.length ≤ sizes l := by
      intro l
      induction l with
      | nil => exact Nat.le_refl 0
      | cons m l ih =>
        simp only [sizes, List.map_cons, List.sum_cons, List.length_cons] at ih ⊢
        omega
    have := hsizes ((m :: ms').map Member.written)
    rw [List.length_map] at this
    rw [length_objectText (by simp)]
    omega
  have hmembers := readMembers_membersText [] h hlen
  have hvalue : Python.readValue (2 * (objectText ((m :: ms').map Member.written)).length + 1)
      (skipWs (objectText ((m :: ms').map Member.written))) = some (.obj ((m :: ms').map Member.read), []) := by
    have hrest : membersText ((m :: ms').map Member.written) ++ [125] = 34 :: (t ++ [125]) := by
      rw [List.map_cons, ht, List.cons_append]
    have hbrace : skipWs (objectText ((m :: ms').map Member.written)) =
        123 :: 34 :: (t ++ [125]) := by
      rw [objectText, hrest]
      exact skipWs_cons (by decide) _
    have hquote : skipWs (34 :: (t ++ [125])) = 34 :: (t ++ [125]) := skipWs_cons (by decide) _
    rw [hrest] at hmembers
    rw [hbrace, Python.readValue, if_pos rfl, hquote]
    simp only [expect, if_neg (by decide : ¬ (34 : BitVec 8) = 125)]
    rw [hmembers]
    rfl
  rw [Python.read, hvalue]
  rfl

end Json
