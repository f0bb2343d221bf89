/-
# Drawings as layers

All the public functions but `blit` and `scroll` paint a layer (`draw_paints`), so a list of such calls
leaves its layers one over the other, and whatever else was in the frame where none of them is
(`run_paints`). A text can be read off the pixels: six columns of a character tell it from all others
(`eq_of_glyphBit`), and so texts that look alike are alike as far as they are in the frame
(`getD_eq_of_written`).
-/
import Ventilation.Display.Painting
import Ventilation.Lib.Layers

namespace Ventilation
namespace MonoVlsb

open CInt (toUnsigned)
open Layers (Layer overlay painted)

variable {f : MonoVlsb}

/-- A pixel that is on. -/
def Lit (buffer : f.Buffer) (p : ℕ × ℕ) : Prop := bit buffer (f.place p) = true

/-- A shape in a color. -/
def layerOf (shape : ℕ → ℕ → Prop) (color : BitVec 32) : Layer (ℕ × ℕ) := ⟨fun p => shape p.1 p.2, color ≠ 0⟩

/-- What a call paints. -/
def Call.layer {ι : Type} : Call ι → Option (Layer (ℕ × ℕ))
  | .fill color => some (layerOf (fun _ _ => True) color)
  | .line x1 y1 x2 y2 color => some (layerOf (Raster.Ideal x1.toNat y1.toNat x2.toNat y2.toNat) color)
  | .hline x y w color => some (layerOf (Rectangle x.toNat y.toNat w.toNat 1) color)
  | .vline x y h color => some (layerOf (Rectangle x.toNat y.toNat 1 h.toNat) color)
  | .rect x y w h color true => some (layerOf (Rectangle x.toNat y.toNat w.toNat h.toNat) color)
  | .rect x y w h color false => some (layerOf (Outline x.toNat y.toNat w.toNat h.toNat) color)
  | .text str x y color => some (layerOf (Written str x.toInt y.toNat) color)
  | .blit .. => none
  | .scroll .. => none

/-- The call paints a layer, and only in the frame. -/
def Call.Within {ι : Type} (f : MonoVlsb) : Call ι → Prop
  | .fill _ => 0 < f.height
  | .line .. => True
  | .hline x y w _ => x.toNat + w.toNat ≤ f.width ∧ y.toNat + 1 ≤ f.height
  | .vline x y h _ => 0 < h.toNat ∧ x.toNat + 1 ≤ f.width ∧ y.toNat + h.toNat ≤ f.height
  | .rect x y w h _ _ =>
    0 < w.toNat ∧ 0 < h.toNat ∧ x.toNat + w.toNat ≤ f.width ∧ y.toNat + h.toNat ≤ f.height
  | .text str _ _ _ => (∀ c ∈ str, c ≠ 0) ∧ 8 * str.length ≤ 32768
  | .blit .. => False
  | .scroll .. => False

/-! ### Painting -/

/-- What is colored is painted over. -/
theorem overlay_of_colors (hf : f.Whole) {shape : ℕ → ℕ → Prop} {color : BitVec 32} {buffer : f.Buffer}
    {r : Option f.Buffer} (h : f.Colors shape color buffer r) :
    ∃ b, r = some b ∧ ∀ X Y, X < f.width → Y < f.height →
      (Lit b (X, Y) ↔ overlay (Lit buffer) (layerOf shape color) (X, Y)) := by
  obtain ⟨b, hb, hcolors⟩ := h
  refine ⟨b, hb, fun X Y hX hY => ?_⟩
  obtain ⟨hin, hout⟩ := hcolors X Y hX hY
  have hlt := hf.stored hX hY
  rw [getpixel_of_lt b hlt] at hin hout
  rw [getpixel_of_lt buffer hlt] at hout
  by_cases hshape : shape X Y
  · rw [Layers.overlay_of_mem (show (layerOf shape color).shape (X, Y) from hshape)]
    have := hin hshape
    unfold Lit layerOf
    cases hb : bit b (f.place (X, Y)) <;> by_cases hc : color = 0 <;> simp_all [level]
  · rw [Layers.overlay_of_notMem (show ¬ (layerOf shape color).shape (X, Y) from hshape)]
    have := hout hshape
    unfold Lit
    cases hb : bit b (f.place (X, Y)) <;> cases hbuffer : bit buffer (f.place (X, Y)) <;> simp_all

theorem text_colors (hf : f.Whole) (hwidth : f.width ≤ 32768) {str : List Byte} (hstr : ∀ c ∈ str, c ≠ 0)
    (hlen : 8 * str.length ≤ 32768) (x : BitVec 16) (y : ℕ) (color : BitVec 32) (buffer : f.Buffer) :
    f.Colors (Written str x.toInt y) color buffer (f.text y color str x.toNat buffer) := by
  have hcast : toUnsigned 16 x.toInt = x.toNat := by
    have := BitVec.toInt_eq_toNat_cond x
    have := x.isLt
    unfold toUnsigned
    omega
  have hx : -32768 ≤ x.toInt ∧ x.toInt ≤ 32767 := by
    have := BitVec.le_toInt x
    have := BitVec.toInt_lt (x := x)
    omega
  have htext : str.takeWhile (· ≠ 0) = str := by
    rw [← List.append_nil str, List.takeWhile_append_of_pos (by simpa using hstr)]
    simp
  rw [text_eq_run y _ _ _ x.isLt]
  apply colors_clip hf
  intro X Y hX hY
  rw [mem_textPixels x.isLt, htext, ← hcast]
  apply exists_congr
  intro i
  apply exists_congr
  intro c
  apply and_congr_right
  intro hc
  have hi := (List.getElem?_eq_some_iff.mp hc).1
  constructor
  · rintro ⟨column, data, hdata, hcolumn, row, hrow, hbit, rfl⟩
    obtain ⟨hlt8, hglyph⟩ := glyph_iff.mp ⟨data, hdata, hbit⟩
    rw [Nat.add_assoc, column_iff hx (by omega) (by omega)] at hcolumn
    exact ⟨column, hlt8, by push_cast at hcolumn; omega, row, hrow, rfl, hglyph⟩
  · rintro ⟨column, hlt8, hcolumn, row, hrow, rfl, hglyph⟩
    obtain ⟨data, hdata, hbit⟩ := glyph_iff.mpr ⟨hlt8, hglyph⟩
    refine ⟨column, data, hdata, ?_, row, hrow, hbit, rfl⟩
    rw [Nat.add_assoc, column_iff hx (by omega) (by omega)]
    push_cast
    omega

/-- **A call paints its layer.** -/
theorem draw_paints {ι : Type} (hf : f.Whole) (hwidth : f.width ≤ 32768) {call : Call ι} (hw : call.Within f)
    (buffer : f.Buffer) : ∃ l b, call.layer = some l ∧ f.draw buffer call = some b ∧
      ∀ X Y, X < f.width → Y < f.height → (Lit b (X, Y) ↔ overlay (Lit buffer) l (X, Y)) := by
  have hcolors : ∃ shape color, call.layer = some (layerOf shape color) ∧
      f.Colors shape color buffer (f.draw buffer call) := by
    cases call with
    | fill color =>
      refine ⟨_, color, rfl, ?_⟩
      have hfill : f.Colors (Rectangle 0 0 f.width f.height) color buffer (f.fill_rect buffer 0 0 f.width color f.height) :=
        fill_rect_colors hf hw (Nat.zero_add _).le (Nat.zero_add _).le
      obtain ⟨b, hb, hall⟩ := hfill
      refine ⟨b, hb, fun X Y hX hY => ⟨fun _ => (hall X Y hX hY).1 ?_, fun h => absurd trivial h⟩⟩
      exact ⟨⟨Nat.zero_le X, by omega⟩, Nat.zero_le Y, by omega⟩
    | line x1 y1 x2 y2 color =>
      refine ⟨_, color, rfl, ?_⟩
      show f.Colors _ color buffer (f.line buffer x1.toNat y1.toNat x2.toNat y2.toNat color)
      rw [line_eq_run x1.isLt y1.isLt x2.isLt y2.isLt]
      apply colors_clip hf
      intro X Y _ _
      exact Raster.mem_linePoints
    | hline x y w color => exact ⟨_, color, rfl, fill_rect_colors hf Nat.one_pos hw.1 hw.2⟩
    | vline x y h color => exact ⟨_, color, rfl, fill_rect_colors hf hw.1 hw.2.1 hw.2.2⟩
    | rect x y w h color fill =>
      obtain ⟨hw0, hh0, hx, hy⟩ := hw
      cases fill with
      | true => exact ⟨_, color, rfl, fill_rect_colors hf hh0 hx hy⟩
      | false => exact ⟨_, color, rfl, rect_colors hf hw0 hh0 hx hy⟩
    | text str x y color => exact ⟨_, color, rfl, text_colors hf hwidth hw.1 hw.2 x y.toNat color buffer⟩
    | blit source x y key palette => exact absurd hw not_false
    | scroll xstep ystep => exact absurd hw not_false
  obtain ⟨shape, color, hlayer, hcolors⟩ := hcolors
  obtain ⟨b, hb, hoverlay⟩ := overlay_of_colors hf hcolors
  exact ⟨_, b, hlayer, hb, hoverlay⟩

/-! ### Lists of calls -/

section Run

variable {ι : Type} [DecidableEq ι] {F : ι → MonoVlsb} {i : ι}

theorem step_of_within {call : Call ι} (hw : call.Within (F i)) (s : Buffers F) :
    step F s ⟨i, call⟩ = ((F i).draw (s i) call).map (Function.update s i) := by
  cases call with
  | blit => exact absurd hw not_false
  | _ => rfl

/-- **Calls paint their layers one over the other.** -/
theorem run_paints (hf : (F i).Whole) (hwidth : (F i).width ≤ 32768) : ∀ (calls : List (Call ι)) (s : Buffers F),
    (∀ call ∈ calls, call.Within (F i)) → ∃ t, Machine.run (step F) s (calls.map (⟨i, ·⟩)) = some t ∧
      ∀ X Y, X < (F i).width → Y < (F i).height →
        (Lit (t i) (X, Y) ↔ painted (Lit (s i)) (calls.filterMap Call.layer) (X, Y))
  | [], s, _ => ⟨s, rfl, fun _ _ _ _ => Iff.rfl⟩
  | call :: calls, s, hw => by
    have hcall := hw call List.mem_cons_self
    obtain ⟨l, b, hl, hb, hover⟩ := draw_paints hf hwidth hcall (s i)
    obtain ⟨t, ht, hpainted⟩ := run_paints hf hwidth calls (Function.update s i b)
      fun c hc => hw c (List.mem_cons_of_mem call hc)
    refine ⟨t, ?_, fun X Y hX hY => ?_⟩
    · rw [List.map_cons, Machine.run_cons, step_of_within hcall, hb]
      exact ht
    · rw [hpainted X Y hX hY, Function.update_self, List.filterMap_cons_some hl, Layers.painted_cons]
      exact Layers.painted_congr fun _ => hover X Y hX hY

end Run

/-! ### Reading -/

/-- A character of the font. -/
def Printable (c : Byte) : Prop := 32 ≤ c.toNat ∧ c.toNat ≤ 127

instance (c : Byte) : Decidable (Printable c) := inferInstanceAs (Decidable (_ ∧ _))

/-- The first six columns of every character. -/
def glyphs : List (List Byte) := (List.range 96).map fun k => (font_petme128_8x8.drop (k * 8)).take 6

theorem glyphs_nodup : glyphs.Nodup := by decide +kernel

theorem glyphBit_eq {c : Byte} (h : Printable c) (column row : ℕ) : glyphBit c column row =
    (font_petme128_8x8[(c.toNat - 32) * 8 + column]?.getD 0).getLsbD row := by
  have hc : 32 ≤ c.toNat ∧ c.toNat ≤ 127 := h
  unfold glyphBit
  rw [if_pos hc]

/-- **Six columns tell a character from all others.** -/
theorem eq_of_glyphBit {c c' : Byte} (h : Printable c) (h' : Printable c')
    (hbits : ∀ column < 6, ∀ row < 8, glyphBit c column row = glyphBit c' column row) : c = c' := by
  have hfont : font_petme128_8x8.length = 768 := by decide +kernel
  have hcolumn : ∀ {b : Byte}, Printable b → ∀ column < 6,
      ((font_petme128_8x8.drop ((b.toNat - 32) * 8)).take 6)[column]? =
        some (font_petme128_8x8[(b.toNat - 32) * 8 + column]?.getD 0) := by
    intro b hb column hcolumn
    have hb' : 32 ≤ b.toNat ∧ b.toNat ≤ 127 := hb
    rw [List.getElem?_take, if_pos hcolumn, List.getElem?_drop, List.getElem?_eq_getElem (by omega), Option.getD_some]
  have hglyph : (font_petme128_8x8.drop ((c.toNat - 32) * 8)).take 6 =
      (font_petme128_8x8.drop ((c'.toNat - 32) * 8)).take 6 := by
    apply List.ext_getElem?
    intro column
    by_cases hlt : column < 6
    · rw [hcolumn h column hlt, hcolumn h' column hlt]
      refine congrArg some (BitVec.eq_of_getLsbD_eq fun row hrow => ?_)
      rw [← glyphBit_eq h, ← glyphBit_eq h', hbits column hlt row hrow]
    · rw [List.getElem?_take, List.getElem?_take, if_neg hlt, if_neg hlt]
  have hnat : c.toNat - 32 = c'.toNat - 32 := by
    refine List.inj_on_of_nodup_map glyphs_nodup ?_ ?_ hglyph
    · exact List.mem_range.mpr (by have := h.2; omega)
    · exact List.mem_range.mpr (by have := h'.2; omega)
  apply BitVec.eq_of_toNat_eq
  have := h.1
  have := h'.1
  omega

/-- A pixel of a place for a character; behind its end a text looks blank. -/
theorem written_place {str : List Byte} {x : ℤ} {y i column row X : ℕ} (hcolumn : column < 8) (hrow : row < 8)
    (hX : (X : ℤ) = x + 8 * i + column) :
    Written str x y X (y + row) ↔ glyphBit (str.getD i 32) column row = true := by
  rw [List.getD_eq_getElem?_getD]
  constructor
  · rintro ⟨k, c, hc, column', hcolumn', hX', row', hrow', hY, hbit⟩
    obtain rfl : k = i := by omega
    obtain rfl : column' = column := by omega
    obtain rfl : row' = row := by omega
    rwa [hc]
  · intro hbit
    cases hc : str[i]? with
    | none =>
      have hblank : ∀ column < 8, ∀ row < 8, glyphBit 32 column row = false := by decide +kernel
      rw [hc, Option.getD_none, hblank column hcolumn row hrow] at hbit
      exact absurd hbit Bool.false_ne_true
    | some c =>
      rw [hc] at hbit
      exact ⟨i, c, hc, column, hcolumn, hX, row, hrow, rfl, hbit⟩

theorem printable_getD {str : List Byte} (h : ∀ c ∈ str, Printable c) (i : ℕ) : Printable (str.getD i 32) := by
  rw [List.getD_eq_getElem?_getD]
  cases hc : str[i]? with
  | none => decide
  | some c => exact h c (List.mem_of_getElem? hc)

/-- **Texts that look alike** have the same characters where six columns of them are in the frame. -/
theorem getD_eq_of_written {str str' : List Byte} {x : ℤ} {y width i : ℕ} (hstr : ∀ c ∈ str, Printable c)
    (hstr' : ∀ c ∈ str', Printable c)
    (h : ∀ X Y, X < width → y ≤ Y → Y < y + 8 → (Written str x y X Y ↔ Written str' x y X Y))
    (hleft : 0 ≤ x + 8 * i) (hright : x + 8 * i + 5 < width) : str.getD i 32 = str'.getD i 32 := by
  apply eq_of_glyphBit (printable_getD hstr i) (printable_getD hstr' i)
  intro column hcolumn row hrow
  have hX : (((x + 8 * i + column).toNat : ℕ) : ℤ) = x + 8 * i + column := by omega
  have hall := h (x + 8 * i + column).toNat (y + row) (by omega) (by omega) (by omega)
  rw [written_place (by omega) hrow hX, written_place (by omega) hrow hX] at hall
  exact Bool.eq_iff_iff.mpr hall

/-- Only the characters that start in the frame are seen. -/
theorem written_take {str : List Byte} {x : ℤ} {y n X Y : ℕ} (hX : (X : ℤ) < x + 8 * n) :
    Written (str.take n) x y X Y ↔ Written str x y X Y := by
  unfold Written
  apply exists_congr
  intro i
  apply exists_congr
  intro c
  constructor
  · rintro ⟨hc, h⟩
    rw [List.getElem?_take, Option.ite_none_right_eq_some] at hc
    exact ⟨hc.2, h⟩
  · rintro ⟨hc, column, hcolumn, hplace, h⟩
    refine ⟨?_, column, hcolumn, hplace, h⟩
    rw [List.getElem?_take, if_pos (by omega), hc]

end MonoVlsb
end Ventilation
