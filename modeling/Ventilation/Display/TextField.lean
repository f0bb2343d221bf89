/-
# The text field (src/display/graphics.cpp)

What `textInput` draws: the name of the field, the text entered so far, of which the end is in the frame, and at the
right the previous, the current and the next character, the current one in dark on light. The end of the text can
be read off the pixels (`field_read`), and so can the character that the next press of pin 8 appends, except
behind a press of pin 9 (`seen_typed_iff`).
-/
import Ventilation.Display.Menus
import Ventilation.TextInput

namespace Ventilation

open Layers (overlay painted)
open MonoVlsb (Buffers Call Lit board layerOf glyphBit Rectangle Outline Written Printable)

/-! ### The code -/

namespace Graphics

/-- The name of the field of a stage. -/
def toxt : (stage : ℕ) → String
  | 0 => "SSID:"
  | 1 => "PASSWORD:"
  | 2 => "HOST:"
  | 3 => "PORT:"
  | _ => ""

/-- What `textInput` draws behind its `switch`. -/
def textField (stage : ℕ) (input_string : List Byte) (input_len : ℕ) (previous current next : Byte) : List (Call Unit) :=
  [.fill 0, .text (CString.literal (toxt stage)) 0 0 1, .rect 112 4 14 56 1 false, .rect 0 22 110 14 1 false,
    .text input_string (BitVec.ofInt 16 (108 - input_len * 8)) 26 1, .text [previous] 114 10 1,
    .rect 114 25 9 9 1 true, .text [current] 114 26 0, .text [next] 114 42 1]

end Graphics

/-- The calls of `textInput`, with the length of the text before the press, as in the code. -/
def TextEntry.draws (t : TextEntry) (pressed : Option ℕ) (current_position : ℤ) (stage : ℕ) :
    Option (List (Call Unit)) := do
  let text ← CString.read t.input_string.toList
  let (t, shown) ← t.textInput pressed current_position stage
  let input_string ← CString.read t.input_string.toList
  match ← shown with
  | [previous, current, next] => some (Graphics.textField stage input_string text.length previous current next)
  | _ => none

/-- What it leaves on the display. -/
def TextEntry.display (t : TextEntry) (pressed : Option ℕ) (current_position : ℤ) (stage : ℕ) (buffers : Buffers board) :
    Option (Buffers board) :=
  (t.draws pressed current_position stage).bind fun calls => onDisplay calls buffers

/-! ### Reading characters -/

/-- The first six columns of the character, light on dark or the other way. -/
def Reads (light : Bool) (s : Buffers board) (x y : ℕ) (c : Byte) : Prop :=
  ∀ column < 6, ∀ row < 8, (On s (x + column) (y + row) ↔ glyphBit c column row = light)

/-- A place reads as one character at most. -/
theorem reads_iff {light : Bool} {s : Buffers board} {x y : ℕ} {c c' : Byte} (hc : Printable c) (hc' : Printable c')
    (h : Reads light s x y c) : Reads light s x y c' ↔ c' = c := by
  constructor
  · intro h'
    apply MonoVlsb.eq_of_glyphBit hc' hc
    intro column hcolumn row hrow
    have hsame := (h' column hcolumn row hrow).symm.trans (h column hcolumn row hrow)
    cases hb : glyphBit c' column row <;> cases hb' : glyphBit c column row <;> cases light <;> simp_all
  · rintro rfl
    exact h

namespace Graphics

variable {stage : ℕ} {text : List Byte} {len : ℕ} {previous current next : Byte}

/-- Where the text begins. -/
theorem toInt_start (hlen : len ≤ 59) : (BitVec.ofInt 16 (108 - len * 8)).toInt = 108 - 8 * len := by
  rw [BitVec.toInt_ofInt, Int.bmod_eq_of_le (by omega) (by omega)]
  omega

theorem within_textField (htext : ∀ c ∈ text, Printable c) (hlen : text.length ≤ 59) (hprevious : Printable previous)
    (hcurrent : Printable current) (hnext : Printable next) :
    ∀ call ∈ textField stage text len previous current next, call.Within (board ()) := by
  have hone : ∀ {c : Byte}, Printable c → (∀ b ∈ [c], b ≠ 0) ∧ 8 * [c].length ≤ 32768 := by
    intro c hc
    refine ⟨List.forall_mem_singleton.mpr ?_, Nat.le_of_ble_eq_true rfl⟩
    rintro rfl
    exact absurd hc.1 (by decide)
  have htoxt : (∀ b ∈ CString.literal (toxt stage), b ≠ 0) ∧ 8 * (CString.literal (toxt stage)).length ≤ 32768 := by
    unfold toxt
    split <;> decide
  rw [textField]
  simp only [List.forall_mem_cons, List.not_mem_nil, false_imp_iff, implies_true, and_true]
  refine ⟨(by decide : 0 < 64), htoxt, ?_, ?_, ⟨?_, by omega⟩, hone hprevious, ?_, hone hcurrent, hone hnext⟩
  · exact ⟨by decide, by decide, by decide, by decide⟩
  · exact ⟨by decide, by decide, by decide, by decide⟩
  · rintro c hc rfl
    exact absurd (htext 0 hc).1 (by decide)
  · exact ⟨by decide, by decide, by decide, by decide⟩

/-- The layers below and above the text, and the box with the current character on it. -/
theorem painted_textField (picture : ℕ × ℕ → Prop) (hlen : len ≤ 59) (p : ℕ × ℕ) :
    painted picture ((textField stage text len previous current next).filterMap Call.layer) p ↔
      painted (fun _ => False) ([layerOf (Written (CString.literal (toxt stage)) 0 0) 1,
        layerOf (Outline 112 4 14 56) 1, layerOf (Outline 0 22 110 14) 1] ++
        layerOf (Written text (108 - 8 * len) 26) 1 :: ([layerOf (Written [previous] 114 10) 1] ++
        layerOf (Rectangle 114 25 9 9) 1 :: layerOf (Written [current] 114 26) 0 ::
        [layerOf (Written [next] 114 42) 1])) p := by
  rw [textField, painted_fill]
  rw [← toInt_start hlen]
  rfl

section Pixels

variable {b : Buffers board} {picture : ℕ × ℕ → Prop} (hlen : len ≤ 59) (hon : ∀ X Y, X < 128 → Y < 64 → (On b X Y ↔
  painted picture ((textField stage text len previous current next).filterMap Call.layer) (X, Y)))

include hlen hon

/-- **The current character**, dark on light. -/
theorem reads_current : Reads false b 114 26 current := by
  intro column hcolumn row hrow
  have hbox : Rectangle 114 25 9 9 (114 + column) (26 + row) := by
    unfold Rectangle
    omega
  have hnext : ∀ l ∈ [layerOf (Written [next] 114 42) 1], ¬ l.shape (114 + column, 26 + row) := by
    rw [List.forall_mem_singleton]
    intro h
    have := rows_of_written h
    omega
  have hplace : ((114 + column : ℕ) : ℤ) = 114 + 8 * (0 : ℕ) + column := by
    push_cast
    omega
  have hcurrent : Written [current] 114 26 (114 + column) (26 + row) ↔ glyphBit current column row = true := by
    rw [MonoVlsb.written_place (by omega) hrow hplace, List.getD_cons_zero]
  rw [hon _ _ (by omega) (by omega), painted_textField _ hlen, Layers.painted_append, Layers.painted_cons,
    Layers.painted_append, Layers.painted_cons, Layers.painted_cons, Layers.painted_outside hnext]
  simp only [overlay, layerOf, hcurrent, hbox]
  simp

/-- **The text** between its frame's sides. -/
theorem on_text {X Y : ℕ} (hX : 0 < X ∧ X < 109) (hY : 26 ≤ Y ∧ Y < 34) :
    On b X Y ↔ Written text (108 - 8 * len) 26 X Y := by
  have hbelow : ∀ l ∈ [layerOf (Written (CString.literal (toxt stage)) 0 0) 1, layerOf (Outline 112 4 14 56) 1,
      layerOf (Outline 0 22 110 14) 1], ¬ l.shape (X, Y) := by
    simp only [List.forall_mem_cons, List.not_mem_nil, false_imp_iff, implies_true, and_true]
    refine ⟨fun h => ?_, fun h => ?_, fun h => ?_⟩
    · have := rows_of_written h
      omega
    · have := h.1.1
      omega
    · have := h.2
      omega
  have habove : ∀ l ∈ [layerOf (Written [previous] 114 10) 1] ++ layerOf (Rectangle 114 25 9 9) 1 ::
      layerOf (Written [current] 114 26) 0 :: [layerOf (Written [next] 114 42) 1], ¬ l.shape (X, Y) := by
    simp only [List.cons_append, List.nil_append, List.forall_mem_cons, List.not_mem_nil, false_imp_iff, implies_true,
      and_true]
    refine ⟨fun h => ?_, fun h => ?_, fun h => ?_, fun h => ?_⟩
    · have := rows_of_written h
      omega
    · have := h.1
      omega
    · obtain ⟨i, c, hc, column, hcolumn, hplace, -⟩ := h
      omega
    · have := rows_of_written h
      omega
  rw [hon X Y (by omega) (by omega), painted_textField _ hlen, Layers.painted_split hbelow habove]
  simp [overlay, layerOf]

theorem reads_text {i : ℕ} {c : Byte} (hc : text[i]? = some c) (hleft : len ≤ i + 13) (hright : i < len) :
    Reads true b (108 + 8 * i - 8 * len) 26 c := by
  intro column hcolumn row hrow
  have hplace : ((108 + 8 * i - 8 * len + column : ℕ) : ℤ) = 108 - 8 * len + 8 * i + column := by
    omega
  rw [on_text hlen hon (by omega) (by omega), MonoVlsb.written_place (by omega) hrow hplace,
    List.getD_eq_getElem?_getD, hc, Option.getD_some]

end Pixels

end Graphics

namespace TextEntry

/-! ### A call -/

theorem element_mem {k : Fin 4} {i : ℤ} {c : Byte} (h : element k i = some c) : c ∈ arrays.get k := by
  obtain ⟨n, -, hn⟩ := Option.bind_eq_some_iff.mp h
  exact List.mem_of_getElem? hn

theorem printable_of_element {k : Fin 4} {i : ℤ} {c : Byte} (h : element k i = some c) : Printable c := by
  have hall : ∀ k : Fin 4, ∀ c ∈ arrays.get k, Printable c := by decide
  exact hall k c (element_mem h)

/-- An array has each of its characters once. -/
theorem element_inj {k : Fin 4} {i j : ℤ} {c : Byte} (hi : element k i = some c) (hj : element k j = some c) : i = j := by
  have hall : ∀ k : Fin 4, (arrays.get k).Nodup := by decide
  have hrange : InRange k i := element_isSome_iff.mp (by rw [hi]; rfl)
  have hrange' : InRange k j := element_isSome_iff.mp (by rw [hj]; rfl)
  obtain ⟨n, rfl⟩ := Int.eq_ofNat_of_zero_le hrange.1
  obtain ⟨m, rfl⟩ := Int.eq_ofNat_of_zero_le hrange'.1
  rw [element, CInt.size?_eq rfl] at hi hj
  obtain ⟨hlt, hget⟩ := List.getElem?_eq_some_iff.mp hi
  obtain ⟨hlt', hget'⟩ := List.getElem?_eq_some_iff.mp hj
  exact congrArg Int.ofNat ((hall k).getElem_inj_iff.mp (hget.trans hget'.symm))

variable {t : TextEntry} {text : List Byte} {pressed : Option ℕ} {current_position : ℤ} {stage : ℕ}

/-- Three characters are shown. -/
theorem shown_three {chars : List Byte} (h : t.shown pressed current_position stage = some chars) :
    ∃ previous current next, chars = [previous, current, next] ∧ Printable previous ∧ Printable next ∧
      element (nextArray (t.array stage) pressed) (t.position current_position stage) = some current := by
  rw [shown, shownIndices, List.mapM_cons, List.mapM_cons, List.mapM_cons, List.mapM_nil] at h
  obtain ⟨previous, hprevious, h⟩ := Option.bind_eq_some_iff.mp h
  obtain ⟨tail, htail, h⟩ := Option.bind_eq_some_iff.mp h
  obtain ⟨current, hcurrent, htail⟩ := Option.bind_eq_some_iff.mp htail
  obtain ⟨last, hlast, htail⟩ := Option.bind_eq_some_iff.mp htail
  obtain ⟨next, hnext, hlast⟩ := Option.bind_eq_some_iff.mp hlast
  cases hlast
  cases htail
  cases h
  exact ⟨previous, current, next, rfl, printable_of_element hprevious, printable_of_element hnext, hcurrent⟩

/-- Only characters of the arrays are typed. -/
theorem printable_typed (h : ∀ c ∈ text, Printable c) : ∀ c ∈ pressed.elim text (typed text
    (t.highlighted current_position stage)), Printable c := by
  intro c hc
  cases pressed with
  | none => exact h c hc
  | some pin =>
    rw [Option.elim_some, typed] at hc
    split_ifs at hc
    · rcases List.mem_append.mp hc with hc | hc
      · exact h c hc
      · exact printable_of_element (Option.mem_toList.mp hc)
    · exact h c (List.mem_of_mem_dropLast hc)
    · exact h c hc

/-- The character that the next press appends is the one shown. -/
theorem appended_iff {u : TextEntry} {current appended : Byte}
    (harray : u.current_Array = nextArray (t.array stage) pressed)
    (hcurrent : element (nextArray (t.array stage) pressed) (t.position current_position stage) = some current)
    (happended : u.highlighted current_position stage = some appended) :
    appended = current ↔ pressed ≠ some 9 ∨ stage ≠ 3 ∧ t.position current_position stage =
      current_position.tmod (arr_length (t.array stage + 1)) := by
  have hsame : u.array stage = t.array stage → nextArray (t.array stage) pressed = t.array stage → appended = current := by
    intro hu hnext
    rw [highlighted, position, hu] at happended
    rw [hnext] at hcurrent
    exact Option.some.inj (happended.symm.trans hcurrent)
  by_cases h9 : pressed = some 9
  · have hnext : nextArray (t.array stage) pressed = t.array stage + 1 := if_pos h9
    rw [hnext] at harray hcurrent
    by_cases hstage : stage = 3
    · -- the digits are shown only before the press, but come back with the next call
      subst hstage
      have hdisjoint : ∀ c ∈ arrays.get 3, c ∉ arrays.get 0 := by decide
      refine iff_of_false ?_ (by simp [h9])
      rintro rfl
      exact hdisjoint appended (element_mem happended) (element_mem hcurrent)
    · have hu : u.array stage = t.array stage + 1 := by
        rw [array, enterStage, if_neg hstage, harray]
      rw [highlighted, position, hu] at happended
      simp only [h9, ne_eq, not_true_eq_false, hstage, not_false_eq_true, true_and, false_or]
      constructor
      · rintro rfl
        exact element_inj hcurrent happended
      · intro hplace
        rw [hplace, happended] at hcurrent
        exact Option.some.inj hcurrent
  · have hnext : nextArray (t.array stage) pressed = t.array stage := if_neg h9
    refine iff_of_true (hsame ?_ hnext) (.inl h9)
    by_cases hstage : stage = 3
    · subst hstage
      rfl
    · rw [array, enterStage, if_neg hstage, harray, hnext]

/-- What a call shows of a field that holds a text. -/
theorem display_reads {after : List Byte} (h : t.Holds text) (hprintable : ∀ c ∈ text, Printable c)
    (hty : t.Typable text pressed current_position stage)
    (hafter : after = pressed.elim text (typed text (t.highlighted current_position stage)))
    (hshown : (t.shown pressed current_position stage).isSome) (buffers : Buffers board) :
    ∃ b current, t.display pressed current_position stage buffers = some b ∧
      element (nextArray (t.array stage) pressed) (t.position current_position stage) = some current ∧
      Reads false b 114 26 current ∧ ∀ i c, after[i]? = some c → text.length ≤ i + 13 → i < text.length →
        Reads true b (108 + 8 * i - 8 * text.length) 26 c := by
  obtain ⟨t', ht', hholds, -⟩ := textInput_eq h hty
  obtain ⟨chars, hchars⟩ := Option.isSome_iff_exists.mp hshown
  obtain ⟨previous, current, next, rfl, hprevious, hnext, hcurrent⟩ := shown_three hchars
  have hafter' : ∀ c ∈ after, Printable c := by
    rw [hafter]
    exact printable_typed hprintable
  rw [← hafter] at hholds
  have hdraws : t.draws pressed current_position stage =
      some (Graphics.textField stage after text.length previous current next) := by
    rw [draws, Machine.bind_of h.read, Machine.bind_of ht']
    dsimp only
    rw [Machine.bind_of hholds.read, hchars]
    rfl
  have hwithin : ∀ call ∈ Graphics.textField stage after text.length previous current next, call.Within (board ()) :=
    Graphics.within_textField hafter' hholds.length_le hprevious (printable_of_element hcurrent) hnext
  obtain ⟨b, hb, hon⟩ := onDisplay_paints hwithin buffers
  refine ⟨b, current, ?_, hcurrent, Graphics.reads_current h.length_le hon,
    fun i c hc hleft hright => Graphics.reads_text h.length_le hon hc hleft hright⟩
  rw [display, hdraws, Option.bind_some, hb]

namespace Typing

/-! ### Runs -/

variable {s u v : Typing}

/-- The field holds the text, of the arrays' characters. -/
structure Clean (s : Typing) : Prop where
  holds : s.entry.Holds s.text
  printable : ∀ c ∈ s.text, Printable c

theorem Clean.step {e : Event} (h : s.Clean) (hstep : s.step e = some u) : u.Clean := by
  refine ⟨step_holds h.holds hstep, ?_⟩
  cases e with
  | textInput pressed current_position stage =>
    obtain ⟨r, -, hu⟩ := Option.bind_eq_some_iff.mp hstep
    cases hu
    exact printable_typed h.printable
  | returnInput str =>
    obtain ⟨r, -, hu⟩ := Option.bind_eq_some_iff.mp hstep
    cases hu
    exact fun c hc => absurd hc List.not_mem_nil

theorem clean_of_reach (hr : Machine.Reach step (· = new) Machine.Always s) : s.Clean := by
  refine hr.invariant (J := Clean) ?_ fun _ _ _ h _ hstep => h.step hstep
  rintro _ rfl
  exact ⟨holds_new, fun c hc => absurd hc List.not_mem_nil⟩

/-- A call whose press fits. -/
theorem Clean.textInput (h : s.Clean) (hfits : s.Fits (.textInput pressed current_position stage)) :
    ∃ u, s.step (.textInput pressed current_position stage) = some u ∧
      u.text = pressed.elim s.text (typed s.text (s.entry.highlighted current_position stage)) ∧
      u.entry.current_Array = nextArray (s.entry.array stage) pressed := by
  obtain ⟨t', ht', -, harray⟩ := textInput_eq h.holds hfits
  refine ⟨⟨t', _⟩, ?_, rfl, harray⟩
  rw [Typing.step, Machine.bind_of ht']
  rfl

/-- **The end of the text can be read**: after every run of calls, the display shows the last thirteen characters that were in the
field before the press, as far as the press left them, and the current character at the right. -/
theorem field_read (hr : Machine.Reach step (· = new) Machine.Always s)
    (hfits : s.Fits (.textInput pressed current_position stage))
    (hshown : (s.entry.shown pressed current_position stage).isSome) (buffers : Buffers board) :
    ∃ b u, s.entry.display pressed current_position stage buffers = some b ∧
      s.step (.textInput pressed current_position stage) = some u ∧
      (∀ c, Printable c → (Reads false b 114 26 c ↔
        element (nextArray (s.entry.array stage) pressed) (s.entry.position current_position stage) = some c)) ∧
      ∀ i c, u.text[i]? = some c → s.text.length ≤ i + 13 → i < s.text.length →
        ∀ c', Printable c' → (Reads true b (108 + 8 * i - 8 * s.text.length) 26 c' ↔ c' = c) := by
  have hclean := clean_of_reach hr
  obtain ⟨u, hu, htext, -⟩ := hclean.textInput hfits
  obtain ⟨b, current, hb, hcurrent, hreads, htexts⟩ :=
    display_reads hclean.holds hclean.printable hfits htext hshown buffers
  refine ⟨b, u, hb, hu, fun c hc => ?_, fun i c hc hleft hright c' hc' => ?_⟩
  · rw [reads_iff (printable_of_element hcurrent) hc hreads, hcurrent, Option.some_inj, eq_comm]
  · exact reads_iff ((hclean.step hu).printable c (List.mem_of_getElem? hc)) hc' (htexts i c hc hleft hright)

theorem field_read_one : ∃ s b, Machine.run step new [at10000 8] = some s ∧
    s.entry.display none 10000 0 MonoVlsb.blank = some b ∧ ∀ c, Printable c → (Reads true b 100 26 c ↔ c = 81) := by
  have hrun : (Machine.run step new [at10000 8]).any (fun s =>
      decide (s.text = [81]) && (s.entry.shown none 10000 0).isSome) = true := by
    decide +kernel
  obtain ⟨s, hs, hp⟩ := (Option.any_eq_true _ _).mp hrun
  obtain ⟨htext, hshown⟩ := Bool.and_eq_true_iff.mp hp
  replace htext := of_decide_eq_true htext
  have hreach : Machine.Reach step (· = new) Machine.Always s := .run (.init rfl) (fun _ _ _ => trivial) hs
  have hfits : s.Fits (.textInput none 10000 0) := fun h => absurd h (Option.some_ne_none 8).symm
  obtain ⟨b, u, hb, hu, -, hreads⟩ := field_read hreach hfits hshown MonoVlsb.blank
  obtain ⟨u', hu', hutext, -⟩ := (clean_of_reach hreach).textInput hfits
  cases hu.symm.trans hu'
  rw [Option.elim_none, htext] at hutext
  refine ⟨s, b, hs, hb, ?_⟩
  have hzero := hreads 0 81 (by rw [hutext]; rfl)
  rw [htext] at hzero
  exact hzero (by decide) (by decide)

/-- **What is seen is what is typed**, exactly if the call took no press of pin 9, or one that found the position also
in the array that it goes on to: after every run of calls, the character at the right is the one that a press of pin 8
in the next call appends, if the encoder and the stage are as before. -/
theorem seen_typed_iff (hr : Machine.Reach step (· = new) Machine.Always s)
    (hfits : s.Fits (.textInput pressed current_position stage))
    (hshown : (s.entry.shown pressed current_position stage).isSome) (buffers : Buffers board) :
    ∃ b u, s.entry.display pressed current_position stage buffers = some b ∧
      s.step (.textInput pressed current_position stage) = some u ∧
      ∀ v, u.step (.textInput (some 8) current_position stage) = some v →
        ((∃ c, Printable c ∧ Reads false b 114 26 c ∧ v.text = u.text ++ [c]) ↔
          pressed ≠ some 9 ∨ stage ≠ 3 ∧ s.entry.position current_position stage =
            current_position.tmod (arr_length (s.entry.array stage + 1))) := by
  have hclean := clean_of_reach hr
  obtain ⟨u, hu, htext, harray⟩ := hclean.textInput hfits
  obtain ⟨b, current, hb, hcurrent, hreads, -⟩ :=
    display_reads hclean.holds hclean.printable hfits htext hshown buffers
  refine ⟨b, u, hb, hu, fun v hv => ?_⟩
  have hclean' := hclean.step hu
  have hfits' : u.Fits (.textInput (some 8) current_position stage) :=
    (step_isSome_iff hclean'.holds _).mp (by rw [hv]; rfl)
  obtain ⟨hlen, hrange⟩ := hfits' rfl
  obtain ⟨appended, happended⟩ := Option.isSome_iff_exists.mp (element_isSome_iff.mpr hrange)
  obtain ⟨v', hv', hvtext, -⟩ := hclean'.textInput hfits'
  cases hv.symm.trans hv'
  have htyped : v.text = u.text ++ [appended] := by
    rw [hvtext, Option.elim_some, typed, if_pos ⟨rfl, by omega⟩, highlighted, happended, Option.toList_some]
  rw [← appended_iff harray hcurrent happended, htyped]
  constructor
  · rintro ⟨c, hc, hc', h⟩
    obtain rfl := (reads_iff (printable_of_element hcurrent) hc hreads).mp hc'
    exact List.singleton_inj.mp (List.append_cancel_left h)
  · rintro rfl
    exact ⟨appended, printable_of_element hcurrent, hreads, rfl⟩

/-- The small letters have the place of the capital ones. -/
theorem seen_typed_iff_small : ∃ b u, new.entry.display (some 9) 10000 0 MonoVlsb.blank = some b ∧
    new.step (at10000 9) = some u ∧ ∀ v, u.step (at10000 8) = some v →
      ∃ c, Printable c ∧ Reads false b 114 26 c ∧ v.text = u.text ++ [c] := by
  obtain ⟨b, u, hb, hu, hiff⟩ := seen_typed_iff (.init rfl : Machine.Reach step (· = new) Machine.Always new)
    (fun h => absurd (Option.some.inj h) (by decide) : new.Fits (at10000 9)) (by decide +kernel) MonoVlsb.blank
  exact ⟨b, u, hb, hu, fun v hv => (hiff v hv).mpr (.inr ⟨by decide, by decide +kernel⟩)⟩

end Typing
end TextEntry
end Ventilation
