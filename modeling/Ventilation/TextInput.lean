/-
# Entering a text (src/display/graphics.cpp)

`textInput` shows a character of one of four arrays, the one that the encoder
points at, and takes a press: it appends the character, drops the last one or goes
on to the next array. `returnInput` hands the text over. The field has room
for 59 characters and a NUL, but a press is refused only from 60 on, so
the one with 59 writes its NUL behind the field; with that press left out
the field holds what was typed after every run (`typed_right_iff`).
-/
import Ventilation.Lib.Buffer
import Ventilation.Lib.CInt
import Ventilation.Lib.CString
import Ventilation.Lib.Machine
import Ventilation.IPStack

namespace Ventilation

open CInt

/-! ### The code -/

def alphabetsCap : List Byte := CString.literal "ABCDEFGHIJKLMNOPQRSTUVWXYZ"

def alphabets : List Byte := CString.literal "abcdefghijklmnopqrstuvwxyz"

def characters : List Byte := CString.literal "!\"#$%&'()*+,-./:;<=>?@[]^_`\x7b|\x7d~"

def numbers : List Byte := CString.literal "0123456789"

def arrays : Vector (List Byte) 4 := #v[alphabetsCap, alphabets, characters, numbers]

/-- The static variables. -/
structure TextEntry where
  current_Array : Fin 4
  input_string : Vector Byte 60

namespace TextEntry

def new : TextEntry := ⟨0, .replicate _ 0⟩

/-- `arrays[k][i]`, if the index lies in that array. -/
def element (k : Fin 4) (i : ℤ) : Option Byte := do
  (arrays.get k)[← size? i]?

/-- The `sizeof` of the array. -/
def arr_length (k : Fin 4) : ℕ := (arrays.get k).length

/-- At the port's stage the array is that of the digits. -/
def enterStage (t : TextEntry) (stage : ℕ) : TextEntry := if stage = 3 then { t with current_Array := 3 } else t

/-- The `switch` over the pin, with the text that the field holds. -/
def press (t : TextEntry) (text : List Byte) (pos : ℤ) : ℕ → Option TextEntry
  | 9 => some { t with current_Array := t.current_Array + 1 } -- 3 is followed by 0
  | 8 =>
    if text.length < 60 then do
      let c ← element t.current_Array pos
      let input_string ← Buffer.store t.input_string text.length [c, 0]
      pure { t with input_string }
    else some t
  | 7 =>
    if 0 < text.length then do
      let input_string ← Buffer.store t.input_string (text.length - 1) [0]
      pure { t with input_string }
    else some t
  | _ => some t

/-- The indices of the previous, the current and the next character. -/
def shownIndices (arr_length : ℕ) (pos : ℤ) : List ℤ :=
  [if pos - 1 < 0 then arr_length - 1 else pos - 1, pos, if pos + 1 ≥ arr_length then 0 else pos + 1]

/-- `textInput`, with the pin that `button` gives if it is pressed, and the three
characters shown, unless one is read outside its array. `none` is a write
outside the field, or one of a character from outside the array. -/
def textInput (t : TextEntry) (pressed : Option ℕ) (current_position : ℤ) (stage : ℕ) :
    Option (TextEntry × Option (List Byte)) := do
  let t := t.enterStage stage
  let length := arr_length t.current_Array
  let pos := current_position.tmod length
  let text ← CString.read t.input_string.toList
  let t ← pressed.elim (some t) (t.press text pos)
  pure (t, (shownIndices length pos).mapM (element t.current_Array))

/-- `returnInput`: the string with its NUL, a NUL at 60, and the field cleared. -/
def returnInput (t : TextEntry) (str : Vector Byte 64) : Option (Vector Byte 64 × TextEntry) := do
  let str ← Buffer.store str 0 ((← CString.read t.input_string.toList) ++ [0])
  let str ← Buffer.store str 60 [0]
  pure (str, { t with input_string := .replicate _ 0 })

/-! ### The field -/

/-- The field holds the text with a NUL behind it. -/
structure Holds (t : TextEntry) (text : List Byte) : Prop where
  no_nul : (0 : Byte) ∉ text
  stored : text ++ [0] <+: t.input_string.toList

variable {t t' : TextEntry} {text : List Byte} {pos : ℤ} {stage : ℕ}

theorem Holds.length_le (h : t.Holds text) : text.length ≤ 59 := by
  have hle := h.stored.length_le
  rw [List.length_append, List.length_singleton, Vector.length_toList] at hle
  omega

theorem Holds.read (h : t.Holds text) : CString.read t.input_string.toList = some text :=
  CString.read_of_prefix h.no_nul h.stored

theorem holds_new : new.Holds [] := ⟨List.not_mem_nil, by decide⟩

/-- No array has a NUL in it. -/
theorem element_ne_zero {k : Fin 4} {i : ℤ} {c : Byte} (h : element k i = some c) : c ≠ 0 := by
  have hall : ∀ k : Fin 4, (0 : Byte) ∉ arrays.get k := by decide
  obtain ⟨n, -, hn⟩ := Option.bind_eq_some_iff.mp h
  intro hc
  exact hall k (hc ▸ List.mem_of_getElem? hn)

theorem press_append {c : Byte} (h : t.Holds text) (hlen : text.length ≤ 58)
    (hc : element t.current_Array pos = some c) :
    ∃ t', t.press text pos 8 = some t' ∧ t'.Holds (text ++ [c]) ∧ t'.current_Array = t.current_Array := by
  obtain ⟨input_string, hstore⟩ := Buffer.store_isSome t.input_string (i := text.length) [c, 0]
    (by exact (by omega : text.length + 2 ≤ 60))
  refine ⟨{ t with input_string }, ?_, ⟨?_, ?_⟩, rfl⟩
  · rw [press, if_pos (by omega : text.length < 60), Machine.bind_of hc, Machine.bind_of hstore]
    rfl
  · rw [List.mem_append, List.mem_singleton]
    rintro (hmem | hmem)
    · exact h.no_nul hmem
    · exact element_ne_zero hc hmem.symm
  · rw [List.append_assoc]
    exact Buffer.prefix_store ((List.prefix_append _ _).trans h.stored) hstore

/-- A press that appended has found its character and room for two bytes. -/
theorem press_append_isSome (h : t.Holds text) (hsome : (t.press text pos 8).isSome) :
    text.length ≤ 58 ∧ (element t.current_Array pos).isSome := by
  have hlen := h.length_le
  rw [press, if_pos (by omega : text.length < 60)] at hsome
  obtain ⟨t', ht'⟩ := Option.isSome_iff_exists.mp hsome
  obtain ⟨c, hc, ht'⟩ := Option.bind_eq_some_iff.mp ht'
  obtain ⟨input_string, hstore, -⟩ := Option.bind_eq_some_iff.mp ht'
  refine ⟨?_, Option.isSome_iff_exists.mpr ⟨c, hc⟩⟩
  have hle : text.length + 2 ≤ 60 := (Buffer.toList_store hstore).1
  omega

/-- The last character becomes a NUL, with the old one behind it. -/
theorem press_delete (h : t.Holds text) :
    ∃ t', t.press text pos 7 = some t' ∧ t'.Holds text.dropLast ∧ t'.current_Array = t.current_Array := by
  rcases List.eq_nil_or_concat text with rfl | ⟨init, c, rfl⟩
  · exact ⟨t, rfl, h, rfl⟩
  · have hlen := h.length_le
    rw [List.concat_eq_append] at h hlen ⊢
    rw [List.length_append, List.length_singleton] at hlen
    obtain ⟨input_string, hstore⟩ := Buffer.store_isSome t.input_string (i := init.length) [0]
      (by exact (by omega : init.length + 1 ≤ 60))
    have hinit : init <+: t.input_string.toList :=
      (List.prefix_append init [c]).trans ((List.prefix_append _ _).trans h.stored)
    refine ⟨{ t with input_string }, ?_, ⟨?_, ?_⟩, rfl⟩
    · have hpos : 0 < (init ++ [c]).length := by
        simp
      rw [press, if_pos hpos, List.length_append, List.length_singleton, Nat.add_sub_cancel, Machine.bind_of hstore]
      rfl
    · rw [List.dropLast_concat]
      exact fun hmem => h.no_nul (List.mem_append_left _ hmem)
    · rw [List.dropLast_concat]
      exact Buffer.prefix_store hinit hstore

/-! ### A call -/

/-- The index lies in the array. -/
def InRange (k : Fin 4) (i : ℤ) : Prop := 0 ≤ i ∧ i < arr_length k

instance (k : Fin 4) (i : ℤ) : Decidable (InRange k i) := inferInstanceAs (Decidable (_ ∧ _))

theorem element_isSome_iff {k : Fin 4} {i : ℤ} : (element k i).isSome ↔ InRange k i := by
  unfold element InRange arr_length
  by_cases h : 0 ≤ i
  · have hsize : size? i = some i.toNat := if_pos h
    rw [Machine.bind_of hsize, isSome_getElem?, and_iff_right h]
    omega
  · simp [size?, h]

/-- The array and the position of a call. -/
def array (t : TextEntry) (stage : ℕ) : Fin 4 := (t.enterStage stage).current_Array

def position (t : TextEntry) (current_position : ℤ) (stage : ℕ) : ℤ :=
  current_position.tmod (arr_length (t.array stage))

/-- The character that the encoder points at. -/
def highlighted (t : TextEntry) (current_position : ℤ) (stage : ℕ) : Option Byte :=
  element (t.array stage) (t.position current_position stage)

/-- What a press should make of a text. -/
def typed (text : List Byte) (highlighted : Option Byte) (pin : ℕ) : List Byte :=
  if pin = 8 ∧ text.length < 59 then text ++ highlighted.toList
  else if pin = 7 then text.dropLast
  else text

/-- The array after a press. -/
def nextArray (k : Fin 4) (pressed : Option ℕ) : Fin 4 := if pressed = some 9 then k + 1 else k

/-- The characters that a call shows. -/
def shown (t : TextEntry) (pressed : Option ℕ) (current_position : ℤ) (stage : ℕ) : Option (List Byte) :=
  (shownIndices (arr_length (t.array stage)) (t.position current_position stage)).mapM
    (element (nextArray (t.array stage) pressed))

/-- A press that appends finds room for two bytes, and its character in the array. -/
def Typable (t : TextEntry) (text : List Byte) (pressed : Option ℕ) (current_position : ℤ) (stage : ℕ) : Prop :=
  pressed = some 8 → text.length ≤ 58 ∧ InRange (t.array stage) (t.position current_position stage)

variable {pressed : Option ℕ} {current_position : ℤ}

theorem enterStage_holds (h : t.Holds text) (stage : ℕ) : (t.enterStage stage).Holds text := by
  unfold enterStage
  split
  · exact ⟨h.no_nul, h.stored⟩
  · exact h

/-- What the `switch` does with a press. -/
theorem press_eq {pin : ℕ} (h : t.Holds text) (hpin : pin = 8 → text.length ≤ 58 ∧ InRange t.current_Array pos) :
    ∃ t', t.press text pos pin = some t' ∧ t'.Holds (typed text (element t.current_Array pos) pin) ∧
      t'.current_Array = nextArray t.current_Array (some pin) := by
  by_cases h8 : pin = 8
  · subst h8
    obtain ⟨hlen, hrange⟩ := hpin rfl
    obtain ⟨c, hc⟩ := Option.isSome_iff_exists.mp (element_isSome_iff.mpr hrange)
    obtain ⟨t', ht', hholds, harray⟩ := press_append h hlen hc
    refine ⟨t', ht', ?_, harray⟩
    rw [typed, if_pos ⟨rfl, by omega⟩, hc]
    exact hholds
  · by_cases h7 : pin = 7
    · subst h7
      exact press_delete h
    · have htext : typed text (element t.current_Array pos) pin = text := by
        simp [typed, h8, h7]
      rw [htext]
      by_cases h9 : pin = 9
      · subst h9
        exact ⟨_, rfl, ⟨h.no_nul, h.stored⟩, rfl⟩
      · refine ⟨t, ?_, h, ?_⟩
        · simp [press]
        · simp [nextArray, h9]

/-- A call that may append. -/
theorem textInput_eq (h : t.Holds text) (hty : t.Typable text pressed current_position stage) :
    ∃ t', t.textInput pressed current_position stage = some (t', t.shown pressed current_position stage) ∧
      t'.Holds (pressed.elim text (typed text (t.highlighted current_position stage))) ∧
      t'.current_Array = nextArray (t.array stage) pressed := by
  have hs := enterStage_holds h stage
  cases pressed with
  | none =>
    refine ⟨t.enterStage stage, ?_, hs, rfl⟩
    rw [textInput, Machine.bind_of hs.read]
    rfl
  | some pin =>
    obtain ⟨t', ht', hholds, harray⟩ := press_eq hs fun h8 => hty (congrArg some h8)
    refine ⟨t', ?_, hholds, harray⟩
    rw [textInput, Machine.bind_of hs.read, Option.elim_some]
    have hshown : t.shown (some pin) current_position stage =
        (shownIndices (arr_length (t.array stage)) (t.position current_position stage)).mapM (element t'.current_Array) := by
      rw [harray]
      rfl
    rw [hshown]
    exact Machine.bind_of ht' _

/-- **Which calls stay inside the field and the array** that they append from. -/
theorem textInput_isSome_iff (h : t.Holds text) :
    (t.textInput pressed current_position stage).isSome ↔ t.Typable text pressed current_position stage := by
  constructor
  · rintro hsome rfl
    have hs := enterStage_holds h stage
    rw [textInput, Machine.bind_of hs.read, Option.elim_some] at hsome
    obtain ⟨r, hr⟩ := Option.isSome_iff_exists.mp hsome
    obtain ⟨t', ht', -⟩ := Option.bind_eq_some_iff.mp hr
    obtain ⟨hlen, helement⟩ := press_append_isSome hs (Option.isSome_iff_exists.mpr ⟨t', ht'⟩)
    exact ⟨hlen, element_isSome_iff.mp helement⟩
  · intro hty
    obtain ⟨t', ht', -⟩ := textInput_eq h hty
    rw [ht']
    rfl

/-- The text is handed over, and the field is empty. -/
theorem returnInput_eq (h : t.Holds text) (str : Vector Byte 64) : ∃ str' t', t.returnInput str = some (str', t') ∧
    CString.read str'.toList = some text ∧ t'.Holds [] ∧ t'.current_Array = t.current_Array := by
  have hlen := h.length_le
  obtain ⟨str₁, h₁⟩ := Buffer.store_isSome str (i := 0) (text ++ [0])
    (by rw [List.length_append, List.length_singleton]; exact (by omega : 0 + (text.length + 1) ≤ 64))
  obtain ⟨str₂, h₂⟩ := Buffer.store_isSome str₁ (i := 60) [0] (by decide : 60 + 1 ≤ 64)
  have hstr₁ : [] ++ (text ++ [0]) <+: str₁.toList := Buffer.prefix_store List.nil_prefix h₁
  have hstr₂ : text ++ [0] <+: str₂.toList := by
    have htake : text ++ [0] <+: str₁.toList.take 60 :=
      List.prefix_take_iff.mpr ⟨hstr₁, by
        rw [List.length_append, List.length_singleton]
        omega⟩
    rw [(Buffer.toList_store h₂).2, List.append_assoc]
    exact htake.trans (List.prefix_append _ _)
  refine ⟨str₂, { t with input_string := .replicate _ 0 }, ?_, CString.read_of_prefix h.no_nul hstr₂,
    ⟨List.not_mem_nil, holds_new.stored⟩, rfl⟩
  rw [returnInput, Machine.bind_of h.read, Machine.bind_of h₁, Machine.bind_of h₂]
  rfl

/-! ### Runs -/

/-- The field, and beside it the list that the presses since the last `returnInput` make. -/
structure Typing where
  entry : TextEntry
  text : List Byte

namespace Typing

inductive Event
  | textInput (pressed : Option ℕ) (current_position : ℤ) (stage : ℕ)
  | returnInput (str : Vector Byte 64)

def new : Typing := ⟨.new, []⟩

def step (s : Typing) : Event → Option Typing
  | .textInput pressed current_position stage => do
    let (entry, _) ← s.entry.textInput pressed current_position stage
    pure ⟨entry, pressed.elim s.text (typed s.text (s.entry.highlighted current_position stage))⟩
  | .returnInput str => do
    let (_, entry) ← s.entry.returnInput str
    pure ⟨entry, []⟩

/-- The field holds the list, and `returnInput` would hand it over and leave the field empty. -/
def Right (s : Typing) : Prop :=
  s.entry.Holds s.text ∧ ∀ str, ∃ str' entry', s.entry.returnInput str = some (str', entry') ∧
    CString.read str'.toList = some s.text ∧ entry'.Holds []

/-- A press of pin 8 comes while at most 58 characters are in the field, at a position in the array. -/
def Fits (s : Typing) : Event → Prop
  | .textInput pressed current_position stage => s.entry.Typable s.text pressed current_position stage
  | .returnInput _ => True

variable {s : Typing}

theorem step_holds {u : Typing} {e : Event} (h : s.entry.Holds s.text) (hstep : s.step e = some u) :
    u.entry.Holds u.text := by
  cases e with
  | textInput pressed current_position stage =>
    obtain ⟨⟨entry, shown⟩, hcall, hu⟩ := Option.bind_eq_some_iff.mp hstep
    obtain ⟨t', ht', hholds, -⟩ := textInput_eq h ((textInput_isSome_iff h).mp (by rw [hcall]; rfl))
    cases hcall.symm.trans ht'
    cases hu
    exact hholds
  | returnInput str =>
    obtain ⟨⟨str', entry⟩, hcall, hu⟩ := Option.bind_eq_some_iff.mp hstep
    obtain ⟨str'', t', ht', -, hholds, -⟩ := returnInput_eq h str
    cases hcall.symm.trans ht'
    cases hu
    exact hholds

theorem step_isSome_iff (h : s.entry.Holds s.text) (e : Event) : (s.step e).isSome ↔ s.Fits e := by
  cases e with
  | textInput pressed current_position stage =>
    refine Iff.trans ?_ (textInput_isSome_iff h)
    cases hcall : s.entry.textInput pressed current_position stage <;> simp [step, hcall]
  | returnInput str =>
    obtain ⟨str', t', ht', -⟩ := returnInput_eq h str
    refine iff_of_true ?_ trivial
    simp [step, ht']

/-- **The field holds what was typed** after every run of calls, and a further call
stays inside the field and the array exactly if its press fits. -/
theorem typed_right_iff (hr : Machine.Reach step (· = new) Machine.Always s) :
    Right s ∧ ∀ e, (s.step e).isSome ↔ s.Fits e := by
  have h : s.entry.Holds s.text := by
    refine hr.invariant (J := fun s => s.entry.Holds s.text) ?_ fun _ _ _ h _ hstep => step_holds h hstep
    rintro _ rfl
    exact holds_new
  refine ⟨⟨h, fun str => ?_⟩, step_isSome_iff h⟩
  obtain ⟨str', t', ht', hread, hholds, -⟩ := returnInput_eq h str
  exact ⟨str', t', ht', hread, hholds⟩

/-- A press of a pin at the position the set-up begins with. -/
def at10000 (pin : ℕ) : Event := .textInput (some pin) 10000 0

/-- Two characters, the next array, a third character, and one dropped again. -/
theorem typed_right_three : ∃ s, Machine.run step new ([8, 8, 9, 8, 7].map at10000) = some s ∧
    s.text = CString.literal "QQ" ∧ Right s ∧ (s.step (at10000 8)).isSome := by
  have hrun : (Machine.run step new ([8, 8, 9, 8, 7].map at10000)).any (fun s =>
      decide (s.text = CString.literal "QQ") && (s.step (at10000 8)).isSome) = true := by
    decide +kernel
  obtain ⟨s, hs, hp⟩ := (Option.any_eq_true _ _).mp hrun
  obtain ⟨htext, hsome⟩ := Bool.and_eq_true_iff.mp hp
  have hreach : Machine.Reach step (· = new) Machine.Always s := .run (.init rfl) (fun _ _ _ => trivial) hs
  exact ⟨s, hs, of_decide_eq_true htext, (typed_right_iff hreach).1, hsome⟩

/-- **The press with 59 characters in the field writes behind it.** -/
theorem sixtieth_press_overruns : ∃ s, Machine.run step new (List.replicate 59 (at10000 8)) = some s ∧
    s.text.length = 59 ∧ s.step (at10000 8) = none := by
  have hrun : (Machine.run step new (List.replicate 59 (at10000 8))).any (fun s =>
      decide (s.text.length = 59) && (s.step (at10000 8)).isNone) = true := by
    decide +kernel
  obtain ⟨s, hs, hp⟩ := (Option.any_eq_true _ _).mp hrun
  obtain ⟨hlength, hnone⟩ := Bool.and_eq_true_iff.mp hp
  exact ⟨s, hs, of_decide_eq_true hlength, Option.isNone_iff_eq_none.mp hnone⟩

end Typing
end TextEntry
end Ventilation
