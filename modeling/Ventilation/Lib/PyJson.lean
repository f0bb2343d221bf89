/-
# JSON as Python reads it

A `str` of Python is a text in UTF-8, in which a lone surrogate of an escape
stands in three bytes of its own. `json.loads` takes some texts that are not JSON:
`NaN` and the infinities, and such surrogates. A `dict` keeps the last of several
values of a key. The interpreter's limits, on nesting and on the digits of
an integer, end the reading with an exception that is not a `JSONDecodeError`;
which texts they meet is a parameter (`Interpreter`).
-/
import Mathlib.Algebra.Field.Rat
import Mathlib.Algebra.Order.Ring.Rat
import Mathlib.Data.List.Nodup
import Ventilation.Lib.Json

namespace Python

open Json (Text skipWs expect expectAll hex4 utf8)

/-- The text of a literal. -/
def ascii (s : String) : Text := s.toList.map fun c => .ofNat 8 c.toNat

/-! ### `bytes.decode("utf-8")` -/

def isContinuation (b : BitVec 8) : Bool := 0x80 ≤ b.toNat ∧ b.toNat ≤ 0xbf

/-- The bytes that may follow the first byte of a sequence of three or four. -/
def isSecond (b c : BitVec 8) : Bool :=
  if b = 0xe0 then 0xa0 ≤ c.toNat ∧ c.toNat ≤ 0xbf
  else if b = 0xed then 0x80 ≤ c.toNat ∧ c.toNat ≤ 0x9f -- no surrogates
  else if b = 0xf0 then 0x90 ≤ c.toNat ∧ c.toNat ≤ 0xbf
  else if b = 0xf4 then 0x80 ≤ c.toNat ∧ c.toNat ≤ 0x8f
  else isContinuation c

def isUtf8 : Text → Bool
  | [] => true
  | b :: l =>
    if b.toNat < 0x80 then isUtf8 l
    else if 0xc2 ≤ b.toNat ∧ b.toNat ≤ 0xdf then
      match l with
      | c :: l => isContinuation c && isUtf8 l
      | _ => false
    else if 0xe0 ≤ b.toNat ∧ b.toNat ≤ 0xef then
      match l with
      | c :: d :: l => isSecond b c && isContinuation d && isUtf8 l
      | _ => false
    else if 0xf0 ≤ b.toNat ∧ b.toNat ≤ 0xf4 then
      match l with
      | c :: d :: e :: l => isSecond b c && isContinuation d && isContinuation e && isUtf8 l
      | _ => false
    else false

/-- `none` is a `UnicodeDecodeError`. -/
def decode (payload : List (BitVec 8)) : Option Text := if isUtf8 payload then some payload else none

theorem isUtf8_of_ascii {text : Text} (h : ∀ b ∈ text, b.toNat < 128) : isUtf8 text = true := by
  induction text with
  | nil => rfl
  | cons b l ih =>
    unfold isUtf8
    rw [if_pos (h b List.mem_cons_self)]
    exact ih fun c hc => h c (List.mem_cons_of_mem b hc)

theorem decode_eq_some {payload text : Text} (h : decode payload = some text) : text = payload := by
  unfold decode at h
  split at h
  · exact (Option.some.inj h).symm
  · cases h

/-! ### `json.loads` -/

/-- What follows the `\u` of an escape: a surrogate without its partner stands for itself. -/
def unicode (l : Text) : Option (Text × Text) := do
  let (c, l) ← hex4 l
  if 0xd800 ≤ c ∧ c < 0xdc00 then
    match (expectAll [92, 117] l).bind hex4 with
    | some (d, r) =>
      if 0xdc00 ≤ d ∧ d < 0xe000 then pure (utf8 (0x10000 + (c - 0xd800) * 1024 + (d - 0xdc00)), r)
      else pure (utf8 c, l)
    | none => pure (utf8 c, l)
  else pure (utf8 c, l)

/-- What follows the backslash of an escape. -/
def escape : Text → Option (Text × Text)
  | [] => none
  | b :: l => if b = 117 then unicode l else Json.escape (b :: l)

/-- The characters up to the closing quote. -/
def chars : ℕ → Text → Option (Text × Text)
  | 0, _ => none
  | _ + 1, [] => none
  | n + 1, b :: l =>
    if b = 34 then some ([], l)
    else if b = 92 then do
      let (c, l) ← escape l
      let (s, l) ← chars n l
      pure (c ++ s, l)
    else if b.toNat < 32 then none
    else do
      let (s, l) ← chars n l
      pure (b :: s, l)

def string (l : Text) : Option (Text × Text) := do
  let l ← expect 34 l
  chars (l.length + 1) l

/-- A number, `NaN` or an infinity. -/
def number (l : Text) : Option (Json × Text) :=
  match [ascii "NaN", ascii "Infinity", ascii "-Infinity"].find? (· <+: l) with
  | some w => some (.real w, l.drop w.length)
  | none => Json.number l

mutual

def readValue : ℕ → Text → Option (Json × Text)
  | 0, _ => none
  | _ + 1, [] => none
  | n + 1, b :: l =>
    if b = 123 then
      match expect 125 (skipWs l) with
      | some l => some (.obj [], l)
      | none => (readMembers n (skipWs l)).map fun r => (.obj r.1, r.2)
    else if b = 91 then
      match expect 93 (skipWs l) with
      | some l => some (.arr [], l)
      | none => (readItems n (skipWs l)).map fun r => (.arr r.1, r.2)
    else if b = 34 then (string (b :: l)).map fun r => (.str r.1, r.2)
    else if b = 116 then (expectAll [114, 117, 101] l).map fun r => (.bool true, r)
    else if b = 102 then (expectAll [97, 108, 115, 101] l).map fun r => (.bool false, r)
    else if b = 110 then (expectAll [117, 108, 108] l).map fun r => (.null, r)
    else number (b :: l)

/-- The members of an object up to the closing brace; there is one at least. -/
def readMembers : ℕ → Text → Option (List (Text × Json) × Text)
  | 0, _ => none
  | n + 1, l => do
    let (name, l) ← string l
    let l ← expect 58 (skipWs l)
    let (v, l) ← readValue n (skipWs l)
    match skipWs l with
    | [] => none
    | b :: l =>
      if b = 125 then pure ([(name, v)], l)
      else if b = 44 then (readMembers n (skipWs l)).map fun r => ((name, v) :: r.1, r.2)
      else none

/-- The items of an array up to the closing bracket; there is one at least. -/
def readItems : ℕ → Text → Option (List Json × Text)
  | 0, _ => none
  | n + 1, l => do
    let (v, l) ← readValue n l
    match skipWs l with
    | [] => none
    | b :: l =>
      if b = 93 then pure ([v], l)
      else if b = 44 then (readItems n (skipWs l)).map fun r => (v :: r.1, r.2)
      else none

end

/-- The value of a text. -/
def read (text : Text) : Option Json := do
  let (v, l) ← readValue (2 * text.length + 1) (skipWs text)
  if skipWs l = [] then some v else none

/-- Which texts meet a limit of the interpreter before they are read or found wrong. -/
structure Interpreter where
  limits : Text → Bool

/-- What becomes of `json.loads`. -/
inductive Loaded
  | value (v : Json)
  | JSONDecodeError
  | otherError

def loads (py : Interpreter) (text : Text) : Loaded :=
  if py.limits text then .otherError
  else
    match read text with
    | some v => .value v
    | none => .JSONDecodeError

/-- Behind a value there is nothing but white space. -/
theorem read_eq_none {text l : Text} {v : Json}
    (h : readValue (2 * text.length + 1) (skipWs text) = some (v, l)) (hl : skipWs l ≠ []) : read text = none := by
  rw [read, h]
  exact if_neg hl

theorem loads_ne_value {py : Interpreter} {text : Text} (h : read text = none) (v : Json) :
    loads py text ≠ .value v := by
  rw [loads, h]
  split <;> exact fun he => by cases he

/-! ### Values -/

/-- `v[key]`; `none` is a `KeyError`, or a `TypeError` where `v` is not a `dict`. -/
def getItem (key : Text) : Json → Option Json
  | .obj members => (members.reverse.find? fun m => m.1 = key).map Prod.snd
  | _ => none

/-- Only an object has items. -/
theorem obj_of_getItem {key : Text} {v w : Json} (h : getItem key v = some w) : ∃ members, v = .obj members := by
  cases v with
  | obj members => exact ⟨members, rfl⟩
  | _ => cases h

/-- Where no key comes twice, each has its own value. -/
theorem getItem_of_mem {members : List (Text × Json)} (hnodup : (members.map Prod.fst).Nodup) {m : Text × Json}
    (hm : m ∈ members) : getItem m.1 (.obj members) = some m.2 := by
  have hfound : (members.reverse.find? fun n => n.1 = m.1) = some m := by
    cases hfind : members.reverse.find? fun n => n.1 = m.1 with
    | none =>
      have hne := List.find?_eq_none.mp hfind m (List.mem_reverse.mpr hm)
      exact absurd (decide_eq_true rfl) hne
    | some n =>
      have hn := List.mem_reverse.mp (List.mem_of_find?_eq_some hfind)
      have hkey : n.1 = m.1 := by simpa using List.find?_some hfind
      rw [List.inj_on_of_nodup_map hnodup hn hm hkey]
  rw [getItem, hfound]
  rfl

/-- The exponent of a number, behind its fraction. -/
def exponentOf : Text → ℤ
  | [] => 0
  | _ :: l =>
    if l.head? = some 45 then -(Decimal.value l.tail : ℤ)
    else if l.head? = some 43 then Decimal.value l.tail
    else Decimal.value l

/-- The exact value of a number's text; `NaN` and the infinities have none. -/
def ratOf (text : Text) : Option ℚ :=
  let neg := text.head? = some 45
  let l := if neg then text.tail else text
  let ip := l.takeWhile Decimal.isDigit
  let l := l.dropWhile Decimal.isDigit
  let frac := if l.head? = some 46 then l.tail.takeWhile Decimal.isDigit else []
  let l := if l.head? = some 46 then l.tail.dropWhile Decimal.isDigit else l
  let x : ℚ := Decimal.value (ip ++ frac) * 10 ^ (exponentOf l - frac.length)
  if ip = [] then none else some (if neg then -x else x)

/-- `v == -1`: of the reals, those that round to the `float` -1.0. -/
def eqMinusOne : Json → Bool
  | .int x => x = -1
  | .real text => (ratOf text).any fun x => 1 - 2 ^ (-54 : ℤ) ≤ -x ∧ -x ≤ 1 + 2 ^ (-53 : ℤ)
  | _ => false

/-- `bool(v)`: of the reals, those that do not round to 0.0. -/
def truthy : Json → Bool
  | .null => false
  | .bool b => b
  | .int x => x ≠ 0
  | .real text => (ratOf text).all fun x => 2 ^ (-1075 : ℤ) < |x|
  | .str s => !s.isEmpty
  | .arr items => !items.isEmpty
  | .obj members => !members.isEmpty

end Python
