/-
# Reading JSON

Values of JSON and a reader of texts of bytes, as RFC 8259 has them: `read` is
`none` for a text that is not JSON. A number without fraction and exponent is
an integer of any size; of any other number the reader keeps the text. The
reader recurses on a bound, and no larger bound reads more (`read_of_bound`).
What it leaves of a text is a piece of it (`left_read`), behind the brace of an
object (`readValue_brace`).
-/
import Mathlib.Data.List.TakeWhile
import Ventilation.Lib.Decimal

inductive Json
  | null
  | bool (b : Bool)
  | int (x : ℤ)
  | real (text : List (BitVec 8))
  | str (chars : List (BitVec 8))
  | arr (items : List Json)
  | obj (members : List (List (BitVec 8) × Json))

namespace Json

open Decimal

abbrev Text := List (BitVec 8)

/-! ### White space and literals -/

def isWs (b : BitVec 8) : Bool := b = 32 ∨ b = 9 ∨ b = 10 ∨ b = 13

def skipWs (l : Text) : Text := l.dropWhile isWs

/-- The text behind `b`, if that comes first. -/
def expect (b : BitVec 8) : Text → Option Text
  | [] => none
  | c :: l => if c = b then some l else none

/-- The text behind all of `w`. -/
def expectAll (w l : Text) : Option Text := if w <+: l then some (l.drop w.length) else none

/-! ### Numbers -/

/-- The digits of the integer part: a 0, or digits that do not begin with one. -/
def intPart : Text → Option (Text × Text)
  | [] => none
  | b :: l =>
    if b = 48 then some ([b], l)
    else if isDigit b then some (b :: l.takeWhile isDigit, l.dropWhile isDigit)
    else none

/-- The text behind a digit or more. -/
def digits : Text → Option Text
  | [] => none
  | b :: l => if isDigit b then some (l.dropWhile isDigit) else none

/-- Whether a fraction follows, and the text behind it. -/
def fraction : Text → Option (Bool × Text)
  | [] => some (false, [])
  | b :: l => if b = 46 then (digits l).map fun r => (true, r) else some (false, b :: l)

/-- The text behind the digits of an exponent with or without a sign. -/
def exponentDigits : Text → Option Text
  | [] => none
  | b :: l => if b = 43 ∨ b = 45 then digits l else digits (b :: l)

/-- Whether an exponent follows, and the text behind it. -/
def exponent : Text → Option (Bool × Text)
  | [] => some (false, [])
  | b :: l =>
    if b = 101 ∨ b = 69 then (exponentDigits l).map fun r => (true, r) else some (false, b :: l)

/-- A number without its sign. -/
def unsigned (neg : Bool) (l : Text) : Option (Json × Text) := do
  let (ds, l₁) ← intPart l
  let (frac, l₂) ← fraction l₁
  let (exp, l₃) ← exponent l₂
  let sign : Text := if neg then [45] else []
  let x : ℤ := value ds
  pure (if frac || exp then .real (sign ++ l.take (l.length - l₃.length))
    else .int (if neg then -x else x), l₃)

def number : Text → Option (Json × Text)
  | [] => none
  | b :: l => if b = 45 then unsigned true l else unsigned false (b :: l)

/-! ### Strings -/

def hexDigit (b : BitVec 8) : Option ℕ :=
  if isDigit b then some (b.toNat - 48)
  else if 97 ≤ b.toNat ∧ b.toNat ≤ 102 then some (b.toNat - 87)
  else if 65 ≤ b.toNat ∧ b.toNat ≤ 70 then some (b.toNat - 55)
  else none

def hex4 : Text → Option (ℕ × Text)
  | a :: b :: c :: d :: l => do
    let a ← hexDigit a
    let b ← hexDigit b
    let c ← hexDigit c
    let d ← hexDigit d
    pure (((a * 16 + b) * 16 + c) * 16 + d, l)
  | _ => none

/-- A code point in UTF-8. -/
def utf8 (c : ℕ) : Text :=
  if c < 0x80 then [.ofNat 8 c]
  else if c < 0x800 then [.ofNat 8 (0xc0 + c / 64), .ofNat 8 (0x80 + c % 64)]
  else if c < 0x10000 then
    [.ofNat 8 (0xe0 + c / 4096), .ofNat 8 (0x80 + c / 64 % 64), .ofNat 8 (0x80 + c % 64)]
  else
    [.ofNat 8 (0xf0 + c / 262144), .ofNat 8 (0x80 + c / 4096 % 64), .ofNat 8 (0x80 + c / 64 % 64),
      .ofNat 8 (0x80 + c % 64)]

/-- What follows the `\u` of an escape: a code point or a surrogate pair. -/
def unicode (l : Text) : Option (Text × Text) := do
  let (c, l) ← hex4 l
  if 0xd800 ≤ c ∧ c < 0xdc00 then
    let (d, l) ← hex4 (← expectAll [92, 117] l)
    if 0xdc00 ≤ d ∧ d < 0xe000 then pure (utf8 (0x10000 + (c - 0xd800) * 1024 + (d - 0xdc00)), l)
    else none
  else if 0xdc00 ≤ c ∧ c < 0xe000 then none
  else pure (utf8 c, l)

/-- What follows the backslash of an escape. -/
def escape : Text → Option (Text × Text)
  | [] => none
  | b :: l =>
    if b = 34 ∨ b = 92 ∨ b = 47 then some ([b], l)
    else if b = 98 then some ([8], l)
    else if b = 102 then some ([12], l)
    else if b = 110 then some ([10], l)
    else if b = 114 then some ([13], l)
    else if b = 116 then some ([9], l)
    else if b = 117 then unicode l
    else none

/-- The characters up to the closing quote. -/
def chars : ℕ → Text → Option (Text × Text)
  | 0, _ => none
  | _ + 1, [] => none
  | n + 1, b :: l =>
    if b = 34 then some ([], l)
    else if b = 92 then do
      let (c, l) ← escape l
      let (s, l) ← chars n l
      pure (c ++ s, l)
    else if b.toNat < 32 then none
    else do
      let (s, l) ← chars n l
      pure (b :: s, l)

def string (l : Text) : Option (Text × Text) := do
  let l ← expect 34 l
  chars (l.length + 1) l

/-! ### Values -/

mutual

def readValue : ℕ → Text → Option (Json × Text)
  | 0, _ => none
  | _ + 1, [] => none
  | n + 1, b :: l =>
    if b = 123 then
      match expect 125 (skipWs l) with
      | some l => some (.obj [], l)
      | none => (readMembers n (skipWs l)).map fun r => (.obj r.1, r.2)
    else if b = 91 then
      match expect 93 (skipWs l) with
      | some l => some (.arr [], l)
      | none => (readItems n (skipWs l)).map fun r => (.arr r.1, r.2)
    else if b = 34 then (string (b :: l)).map fun r => (.str r.1, r.2)
    else if b = 116 then (expectAll [114, 117, 101] l).map fun r => (.bool true, r)
    else if b = 102 then (expectAll [97, 108, 115, 101] l).map fun r => (.bool false, r)
    else if b = 110 then (expectAll [117, 108, 108] l).map fun r => (.null, r)
    else number (b :: l)

/-- The members of an object up to the closing brace; there is one at least. -/
def readMembers : ℕ → Text → Option (List (Text × Json) × Text)
  | 0, _ => none
  | n + 1, l => do
    let (name, l) ← string l
    let l ← expect 58 (skipWs l)
    let (v, l) ← readValue n (skipWs l)
    match skipWs l with
    | [] => none
    | b :: l =>
      if b = 125 then pure ([(name, v)], l)
      else if b = 44 then (readMembers n (skipWs l)).map fun r => ((name, v) :: r.1, r.2)
      else none

/-- The items of an array up to the closing bracket; there is one at least. -/
def readItems : ℕ → Text → Option (List Json × Text)
  | 0, _ => none
  | n + 1, l => do
    let (v, l) ← readValue n l
    match skipWs l with
    | [] => none
    | b :: l =>
      if b = 93 then pure ([v], l)
      else if b = 44 then (readItems n (skipWs l)).map fun r => (v :: r.1, r.2)
      else none

end

/-- **The value of a text.** -/
def read (text : Text) : Option Json := do
  let (v, l) ← readValue (2 * text.length + 1) (skipWs text)
  if skipWs l = [] then some v else none

/-! ### What is left of a text -/

/-- Behind a byte or more of `l` comes `r`. -/
def Left (l r : Text) : Prop := ∃ b c, l = b :: (c ++ r)

theorem skipWs_suffix (l : Text) : skipWs l <:+ l := List.dropWhile_suffix _

section Left

variable {l m r : Text} {b : BitVec 8}

theorem Left.of_suffix (h : r <:+ l) (b : BitVec 8) : Left (b :: l) r := by
  obtain ⟨c, rfl⟩ := h
  exact ⟨b, c, rfl⟩

theorem Left.cons : Left (b :: l) l := .of_suffix List.suffix_rfl b

theorem Left.suffix (h : Left l r) : r <:+ l := by
  obtain ⟨b, c, rfl⟩ := h
  exact ⟨b :: c, rfl⟩

theorem Left.skip (h : Left l r) : Left (b :: l) r := .of_suffix h.suffix b

theorem Left.trans (h : Left l m) (hr : r <:+ m) : Left l r := by
  obtain ⟨b, c, rfl⟩ := h
  exact .of_suffix (hr.trans (List.suffix_append c m)) b

theorem Left.length (h : Left l r) : r.length < l.length := by
  obtain ⟨b, c, rfl⟩ := h
  simp only [List.length_cons, List.length_append]
  omega

theorem eq_of_expect (h : expect b l = some r) : l = b :: r := by
  cases l with
  | nil => cases h
  | cons c l =>
    simp only [expect, Option.ite_none_right_eq_some, Option.some.injEq] at h
    rw [h.1, h.2]

theorem suffix_expectAll {w : Text} (h : expectAll w l = some r) : r <:+ l := by
  simp only [expectAll, Option.ite_none_right_eq_some, Option.some.injEq] at h
  rw [← h.2]
  exact List.drop_suffix _ _

/-- A character behind white space. -/
theorem suffix_expect (h : expect b (skipWs l) = some r) : r <:+ l := by
  have hws := skipWs_suffix l
  rw [eq_of_expect h] at hws
  exact (List.suffix_cons _ _).trans hws

/-- A word and its value, behind its first letter. -/
theorem left_literal {w : Text} {v : Json} {q : Json × Text} (h : (expectAll w l).map (fun r => (v, r)) = some q)
    (b : BitVec 8) : Left (b :: l) q.2 := by
  obtain ⟨r, hr, rfl⟩ := Option.map_eq_some_iff.mp h
  exact .of_suffix (suffix_expectAll hr) b

theorem left_digits (h : digits l = some r) : Left l r := by
  cases l with
  | nil => cases h
  | cons b l =>
    simp only [digits, Option.ite_none_right_eq_some, Option.some.injEq] at h
    rw [← h.2]
    exact .of_suffix (List.dropWhile_suffix _) b

theorem left_intPart {ds : Text} (h : intPart l = some (ds, r)) : Left l r := by
  cases l with
  | nil => cases h
  | cons b l =>
    rw [intPart] at h
    split at h
    · cases h
      exact .cons
    · split at h
      · cases h
        exact .of_suffix (List.dropWhile_suffix _) b
      · cases h

theorem suffix_fraction {f : Bool} (h : fraction l = some (f, r)) : r <:+ l := by
  cases l with
  | nil => cases h; exact List.suffix_rfl
  | cons b l =>
    rw [fraction] at h
    split at h
    · obtain ⟨q, hq, he⟩ := Option.map_eq_some_iff.mp h
      cases he
      exact (left_digits hq).skip.suffix
    · cases h
      exact List.suffix_rfl

theorem left_exponentDigits (h : exponentDigits l = some r) : Left l r := by
  cases l with
  | nil => cases h
  | cons b l =>
    rw [exponentDigits] at h
    split at h
    · exact (left_digits h).skip
    · exact left_digits h

theorem suffix_exponent {f : Bool} (h : exponent l = some (f, r)) : r <:+ l := by
  cases l with
  | nil => cases h; exact List.suffix_rfl
  | cons b l =>
    rw [exponent] at h
    split at h
    · obtain ⟨q, hq, he⟩ := Option.map_eq_some_iff.mp h
      cases he
      exact (left_exponentDigits hq).skip.suffix
    · cases h
      exact List.suffix_rfl

theorem left_unsigned {neg : Bool} {v : Json} (h : unsigned neg l = some (v, r)) : Left l r := by
  simp only [unsigned, bind, Option.bind_eq_some_iff, pure, Option.some.injEq, Prod.mk.injEq, Prod.exists] at h
  obtain ⟨ds, l₁, h₁, f, l₂, h₂, x, l₃, h₃, -, rfl⟩ := h
  exact (left_intPart h₁).trans ((suffix_exponent h₃).trans (suffix_fraction h₂))

theorem left_number {v : Json} (h : number l = some (v, r)) : Left l r := by
  cases l with
  | nil => cases h
  | cons b l =>
    rw [number] at h
    split at h
    · exact (left_unsigned h).skip
    · exact left_unsigned h

theorem left_hex4 {c : ℕ} (h : hex4 l = some (c, r)) : Left l r := by
  unfold hex4 at h
  split at h
  · simp only [bind, Option.bind_eq_some_iff, pure, Option.some.injEq, Prod.mk.injEq] at h
    obtain ⟨-, -, -, -, -, -, -, -, -, rfl⟩ := h
    exact Left.cons.skip.skip.skip
  · cases h

theorem left_unicode {s : Text} (h : unicode l = some (s, r)) : Left l r := by
  obtain ⟨⟨c, l₁⟩, h₁, h⟩ := Option.bind_eq_some_iff.mp h
  have hl := left_hex4 h₁
  dsimp only at h
  split at h
  · obtain ⟨l₂, h₂, h⟩ := Option.bind_eq_some_iff.mp h
    obtain ⟨⟨d, l₃⟩, h₃, h⟩ := Option.bind_eq_some_iff.mp h
    dsimp only at h
    split at h
    · obtain ⟨-, rfl⟩ := Prod.mk.inj (Option.some.inj h)
      exact hl.trans ((left_hex4 h₃).suffix.trans (suffix_expectAll h₂))
    · cases h
  · split at h
    · cases h
    · obtain ⟨-, rfl⟩ := Prod.mk.inj (Option.some.inj h)
      exact hl

theorem left_escape {s : Text} (h : escape l = some (s, r)) : Left l r := by
  cases l with
  | nil => cases h
  | cons b l =>
    rw [escape] at h
    split_ifs at h
    · cases h; exact .cons
    · cases h; exact .cons
    · cases h; exact .cons
    · cases h; exact .cons
    · cases h; exact .cons
    · cases h; exact .cons
    · exact (left_unicode h).skip

theorem left_chars : ∀ (n : ℕ) {l r s : Text}, chars n l = some (s, r) → Left l r
  | 0, _, _, _, h => by cases h
  | _ + 1, [], _, _, h => by cases h
  | n + 1, b :: l, r, s, h => by
    rw [chars] at h
    split_ifs at h
    · cases h
      exact .cons
    · obtain ⟨⟨c, l₁⟩, h₁, h⟩ := Option.bind_eq_some_iff.mp h
      obtain ⟨⟨s', l₂⟩, h₂, h⟩ := Option.bind_eq_some_iff.mp h
      cases h
      exact ((left_escape h₁).trans (left_chars n h₂).suffix).skip
    · obtain ⟨⟨s', l₂⟩, h₂, h⟩ := Option.bind_eq_some_iff.mp h
      cases h
      exact (left_chars n h₂).skip

theorem left_string {s : Text} (h : string l = some (s, r)) : Left l r := by
  obtain ⟨l₁, h₁, h⟩ := Option.bind_eq_some_iff.mp h
  rw [eq_of_expect h₁]
  exact (left_chars _ h).skip

end Left

/-! ### The bound -/

/-- How the members of an object are read: one, and then the end or a comma. -/
theorem readMembers_succ_iff {n : ℕ} {l : Text} {q : List (Text × Json) × Text} :
    readMembers (n + 1) l = some q ↔ ∃ name l₁ l₂ v l₃ b l₄, string l = some (name, l₁) ∧
      expect 58 (skipWs l₁) = some l₂ ∧ readValue n (skipWs l₂) = some (v, l₃) ∧ skipWs l₃ = b :: l₄ ∧
      (b = 125 ∧ q = ([(name, v)], l₄) ∨
        b ≠ 125 ∧ b = 44 ∧ ∃ r, readMembers n (skipWs l₄) = some r ∧ q = ((name, v) :: r.1, r.2)) := by
  constructor
  · intro h
    obtain ⟨⟨name, l₁⟩, h₁, h⟩ := Option.bind_eq_some_iff.mp h
    obtain ⟨l₂, h₂, h⟩ := Option.bind_eq_some_iff.mp h
    obtain ⟨⟨v, l₃⟩, h₃, h⟩ := Option.bind_eq_some_iff.mp h
    dsimp only at h
    split at h
    · cases h
    · rename_i b l₄ h₄
      refine ⟨name, l₁, l₂, v, l₃, b, l₄, h₁, h₂, h₃, h₄, ?_⟩
      split_ifs at h with hend hcomma
      · exact .inl ⟨hend, (Option.some.inj h).symm⟩
      · obtain ⟨r, hr, he⟩ := Option.map_eq_some_iff.mp h
        exact .inr ⟨hend, hcomma, r, hr, he.symm⟩
  · rintro ⟨name, l₁, l₂, v, l₃, b, l₄, h₁, h₂, h₃, h₄, hq⟩
    simp only [readMembers, bind, h₁, h₂, h₃, h₄, Option.bind_some]
    obtain ⟨hend, rfl⟩ | ⟨hend, hcomma, r, hr, rfl⟩ := hq
    · exact if_pos hend
    · rw [if_neg hend, if_pos hcomma, hr, Option.map_some]

/-- How the items of an array are read. -/
theorem readItems_succ_iff {n : ℕ} {l : Text} {q : List Json × Text} :
    readItems (n + 1) l = some q ↔ ∃ v l₁ b l₂, readValue n l = some (v, l₁) ∧ skipWs l₁ = b :: l₂ ∧
      (b = 93 ∧ q = ([v], l₂) ∨
        b ≠ 93 ∧ b = 44 ∧ ∃ r, readItems n (skipWs l₂) = some r ∧ q = (v :: r.1, r.2)) := by
  constructor
  · intro h
    obtain ⟨⟨v, l₁⟩, h₁, h⟩ := Option.bind_eq_some_iff.mp h
    dsimp only at h
    split at h
    · cases h
    · rename_i b l₂ h₂
      refine ⟨v, l₁, b, l₂, h₁, h₂, ?_⟩
      split_ifs at h with hend hcomma
      · exact .inl ⟨hend, (Option.some.inj h).symm⟩
      · obtain ⟨r, hr, he⟩ := Option.map_eq_some_iff.mp h
        exact .inr ⟨hend, hcomma, r, hr, he.symm⟩
  · rintro ⟨v, l₁, b, l₂, h₁, h₂, hq⟩
    simp only [readItems, bind, h₁, h₂, Option.bind_some]
    obtain ⟨hend, rfl⟩ | ⟨hend, hcomma, r, hr, rfl⟩ := hq
    · exact if_pos hend
    · rw [if_neg hend, if_pos hcomma, hr, Option.map_some]

/-- What is left of a text behind a value, the members of an object or the items
of an array. An object ends with its brace. -/
theorem left_read (n : ℕ) :
    (∀ {l r v}, readValue n l = some (v, r) → Left l r) ∧
    (∀ {l r ms}, readMembers n l = some (ms, r) → Left l r ∧ 125 :: r <:+ l) ∧
    (∀ {l r vs}, readItems n l = some (vs, r) → Left l r) := by
  induction n with
  | zero =>
    refine ⟨?_, ?_, ?_⟩
    · rintro _ _ _ ⟨⟩
    · rintro _ _ _ ⟨⟩
    · rintro _ _ _ ⟨⟩
  | succ n ih =>
    obtain ⟨ihv, ihm, ihi⟩ := ih
    refine ⟨?_, ?_, ?_⟩
    · intro l r v h
      cases l with
      | nil => cases h
      | cons b l =>
        have hws := skipWs_suffix l
        rw [readValue] at h
        split_ifs at h
        · split at h
          · rename_i l₁ h₁
            cases h
            exact .of_suffix (suffix_expect h₁) b
          · obtain ⟨⟨ms, l₁⟩, h₁, he⟩ := Option.map_eq_some_iff.mp h
            cases he
            exact .of_suffix ((ihm h₁).1.suffix.trans hws) b
        · split at h
          · rename_i l₁ h₁
            cases h
            exact .of_suffix (suffix_expect h₁) b
          · obtain ⟨⟨vs, l₁⟩, h₁, he⟩ := Option.map_eq_some_iff.mp h
            cases he
            exact .of_suffix ((ihi h₁).suffix.trans hws) b
        · obtain ⟨⟨s, l₁⟩, h₁, he⟩ := Option.map_eq_some_iff.mp h
          cases he
          exact left_string h₁
        · exact left_literal h b
        · exact left_literal h b
        · exact left_literal h b
        · exact left_number h
    · intro l r ms h
      obtain ⟨name, l₁, l₂, v, l₃, b, l₄, h₁, h₂, h₃, h₄, hq⟩ := readMembers_succ_iff.mp h
      have hrest : b :: l₄ <:+ l₁ := by
        have hws := skipWs_suffix l₃
        rw [h₄] at hws
        exact hws.trans ((ihv h₃).suffix.trans ((skipWs_suffix l₂).trans (suffix_expect h₂)))
      have hleft := (left_string h₁).trans hrest
      obtain ⟨hend, he⟩ | ⟨-, -, ⟨ms', l₅⟩, h₅, he⟩ := hq
      · cases he
        rw [← hend]
        exact ⟨hleft.trans (List.suffix_cons _ _), hleft.suffix⟩
      · cases he
        have hws := (skipWs_suffix l₄).trans (List.suffix_cons b l₄)
        exact ⟨hleft.trans ((ihm h₅).1.suffix.trans hws), (ihm h₅).2.trans (hws.trans hleft.suffix)⟩
    · intro l r vs h
      obtain ⟨v, l₁, b, l₂, h₁, h₂, hq⟩ := readItems_succ_iff.mp h
      have hleft : Left l (b :: l₂) := by
        rw [← h₂]
        exact (ihv h₁).trans (skipWs_suffix l₁)
      obtain ⟨-, he⟩ | ⟨-, -, ⟨vs', l₃⟩, h₃, he⟩ := hq
      · cases he
        exact hleft.trans (List.suffix_cons _ _)
      · cases he
        exact hleft.trans ((ihi h₃).suffix.trans ((skipWs_suffix l₂).trans (List.suffix_cons b l₂)))

theorem unsigned_ne_obj {neg : Bool} {l r : Text} {ms : List (Text × Json)} :
    unsigned neg l ≠ some (.obj ms, r) := by
  intro h
  simp only [unsigned, bind, Option.bind_eq_some_iff, pure, Option.some.injEq, Prod.mk.injEq] at h
  obtain ⟨_, _, _, _, _, _, hv, -⟩ := h
  split at hv
  · cases hv
  · cases hv

/-- Behind the brace of an object comes what is left. -/
theorem readValue_brace {n : ℕ} {l r : Text} {ms : List (Text × Json)}
    (h : readValue n l = some (.obj ms, r)) : 125 :: r <:+ l := by
  cases n with
  | zero => cases h
  | succ n =>
    cases l with
    | nil => cases h
    | cons b l =>
      have hws := (skipWs_suffix l).trans (List.suffix_cons b l)
      rw [readValue] at h
      split_ifs at h
      · split at h
        · rename_i l₁ h₁
          cases h
          rw [eq_of_expect h₁] at hws
          exact hws
        · obtain ⟨q, hq, he⟩ := Option.map_eq_some_iff.mp h
          cases he
          exact ((left_read n).2.1 hq).2.trans hws
      · split at h
        · cases h
        · obtain ⟨q, hq, he⟩ := Option.map_eq_some_iff.mp h
          cases he
      · obtain ⟨q, hq, he⟩ := Option.map_eq_some_iff.mp h
        cases he
      · obtain ⟨q, hq, he⟩ := Option.map_eq_some_iff.mp h
        cases he
      · obtain ⟨q, hq, he⟩ := Option.map_eq_some_iff.mp h
        cases he
      · obtain ⟨q, hq, he⟩ := Option.map_eq_some_iff.mp h
        cases he
      · rw [number] at h
        split_ifs at h
        · exact absurd h unsigned_ne_obj
        · exact absurd h unsigned_ne_obj

/-- **The last byte of an object** is its brace or white space. -/
theorem getLast_of_read {text : Text} {b : BitVec 8} {ms : List (Text × Json)}
    (h : read (text ++ [b]) = some (.obj ms)) : b = 125 ∨ isWs b = true := by
  obtain ⟨⟨v, r⟩, hv, h⟩ := Option.bind_eq_some_iff.mp h
  dsimp only at h
  split at h
  · rename_i hr
    cases h
    obtain ⟨c, hc⟩ := (readValue_brace hv).trans (skipWs_suffix _)
    have hws : ∀ x ∈ r, isWs x = true := List.dropWhile_eq_nil_iff.mp hr
    rcases List.eq_nil_or_concat r with rfl | ⟨r', x, rfl⟩
    · exact .inl (List.append_inj_right' hc.symm rfl |> List.singleton_inj.mp)
    · rw [List.concat_eq_append, ← List.cons_append, ← List.append_assoc] at hc
      rw [List.singleton_inj.mp (List.append_inj_right' hc.symm rfl)]
      exact .inr (hws x (by simp))
  · cases h

/-- What some bound is enough for, any bound is that is twice as large as the text is long. -/
theorem read_bound (n : ℕ) :
    (∀ {l q}, readValue n l = some q → ∀ {k}, 2 * l.length < k → readValue k l = some q) ∧
    (∀ {l q}, readMembers n l = some q → ∀ {k}, 2 * l.length < k → readMembers k l = some q) ∧
    (∀ {l q}, readItems n l = some q → ∀ {k}, 2 * l.length + 1 < k → readItems k l = some q) := by
  induction n with
  | zero =>
    refine ⟨?_, ?_, ?_⟩
    · rintro _ _ ⟨⟩
    · rintro _ _ ⟨⟩
    · rintro _ _ ⟨⟩
  | succ n ih =>
    obtain ⟨ihv, ihm, ihi⟩ := ih
    refine ⟨?_, ?_, ?_⟩
    · intro l q h k hk
      obtain ⟨k, rfl⟩ := Nat.exists_eq_succ_of_ne_zero (Nat.ne_zero_of_lt hk)
      cases l with
      | nil => cases h
      | cons b l =>
        have hl : 2 * (skipWs l).length + 1 < k := by
          have := (skipWs_suffix l).length_le
          rw [List.length_cons] at hk
          omega
        rw [readValue] at h ⊢
        split_ifs at h ⊢
        · split at h
          · exact h
          · obtain ⟨r, hr, he⟩ := Option.map_eq_some_iff.mp h
            rw [ihm hr (by omega)]
            exact congrArg some he
        · split at h
          · exact h
          · obtain ⟨r, hr, he⟩ := Option.map_eq_some_iff.mp h
            rw [ihi hr hl]
            exact congrArg some he
        all_goals exact h
    · intro l q h k hk
      obtain ⟨k, rfl⟩ := Nat.exists_eq_succ_of_ne_zero (Nat.ne_zero_of_lt hk)
      obtain ⟨name, l₁, l₂, v, l₃, b, l₄, h₁, h₂, h₃, h₄, hq⟩ := readMembers_succ_iff.mp h
      have hlt : (skipWs l₂).length + 1 < l.length := by
        have := (left_string h₁).length
        have := (skipWs_suffix l₁).length_le
        have := (congrArg List.length (eq_of_expect h₂)).trans (List.length_cons ..)
        have := (skipWs_suffix l₂).length_le
        omega
      have hrest : (skipWs l₄).length + 1 < l.length := by
        have := ((left_read n).1 h₃).length
        have := (skipWs_suffix l₄).length_le
        have := (skipWs_suffix l₃).length_le
        rw [h₄, List.length_cons] at this
        omega
      refine readMembers_succ_iff.mpr
        ⟨name, l₁, l₂, v, l₃, b, l₄, h₁, h₂, ihv h₃ (by omega), h₄, hq.imp_right ?_⟩
      rintro ⟨hend, hcomma, r, hr, he⟩
      exact ⟨hend, hcomma, r, ihm hr (by omega), he⟩
    · intro l q h k hk
      obtain ⟨k, rfl⟩ := Nat.exists_eq_succ_of_ne_zero (Nat.ne_zero_of_lt hk)
      obtain ⟨v, l₁, b, l₂, h₁, h₂, hq⟩ := readItems_succ_iff.mp h
      have hrest : (skipWs l₂).length + 1 < l.length := by
        have := ((left_read n).1 h₁).length
        have := (skipWs_suffix l₂).length_le
        have := (skipWs_suffix l₁).length_le
        rw [h₂, List.length_cons] at this
        omega
      refine readItems_succ_iff.mpr ⟨v, l₁, b, l₂, ihv h₁ (by omega), h₂, hq.imp_right ?_⟩
      rintro ⟨hend, hcomma, r, hr, he⟩
      exact ⟨hend, hcomma, r, ihi hr (by omega), he⟩

/-- **The bound of `read` is large enough.** -/
theorem read_of_bound {text l : Text} {v : Json} {n : ℕ} (h : readValue n (skipWs text) = some (v, l))
    (hl : skipWs l = []) : read text = some v := by
  have hlen := (skipWs_suffix text).length_le
  rw [read, (read_bound n).1 h (by omega : 2 * (skipWs text).length < 2 * text.length + 1)]
  exact if_pos hl

end Json
