/-
# What rectangles, texts and lines leave in the frame

On a frame whose every pixel has a place of its own in the buffer (`Whole`), as
it has where the rows follow each other without a gap (`whole_make`), a drawing in one color leaves
exactly the pixels of its shape in that color and the other ones as they were (`Colors`):
`fill_rect` and the functions on top of it in a rectangle (`rects_right`), `text` in
the glyphs, of which a start left of the frame cuts off a part (`text_right`), and
`line` in the true line rounded to pixels (`line_right`).
-/
import Ventilation.Display.Drawing

namespace Ventilation
namespace MonoVlsb

open CInt (toUnsigned)

/-- Every pixel of the frame has a place of its own in the buffer. -/
structure Whole (f : MonoVlsb) : Prop where
  width_le : f.width ≤ f.stride
  stored : ∀ {x y}, x < f.width → y < f.height → f.index x y < f.size

/-- What a pixel set to a color is read as. -/
def level (color : BitVec 32) : BitVec 32 := if color ≠ 0 then 1 else 0

/-- The pixels of the shape have the color, and the others of the frame are as they were. -/
def Colors (f : MonoVlsb) (shape : ℕ → ℕ → Prop) (color : BitVec 32) (buffer : f.Buffer)
    (r : Option f.Buffer) : Prop :=
  ∃ b, r = some b ∧ ∀ X Y, X < f.width → Y < f.height →
    (shape X Y → f.getpixel b X Y = some (level color)) ∧
    (¬ shape X Y → f.getpixel b X Y = f.getpixel buffer X Y)

variable {f : MonoVlsb} {color : BitVec 32} {buffer : f.Buffer}

theorem whole_of_packed (h : f.stride = f.width) : f.Whole := ⟨h.ge, index_lt_size h⟩

/-- A stride of 0 or the width makes one. -/
theorem whole_make {width height stride buf_offset : BitVec 16} (h : stride = 0 ∨ stride = width) :
    (make width height stride buf_offset).Whole := by
  apply whole_of_packed
  show (if stride = 0 then width.toNat else stride.toNat) = width.toNat
  rcases h with rfl | rfl
  · rfl
  · split <;> rfl

theorem board_whole : (board ()).Whole := whole_make (.inr rfl)

theorem Whole.place_inj (hf : f.Whole) {x y X Y : ℕ} (hx : x < f.width) (hX : X < f.width)
    (h : f.place (x, y) = f.place (X, Y)) : x = X ∧ y = Y := by
  obtain ⟨q, hq, hy⟩ := MonoVlsb.place_inj (hX.trans_le hf.width_le) h
  have := hf.width_le
  rcases q with _ | q
  · omega
  · rw [Nat.succ_mul] at hq
    omega

/-! ### Lists of pixels -/

section Lists

variable {l : List (ℕ × ℕ)} {shape : ℕ → ℕ → Prop}

theorem Whole.place_mem (hf : f.Whole) (hin : ∀ p ∈ l, p.1 < f.width ∧ p.2 < f.height) {X Y : ℕ}
    (hX : X < f.width) : f.place (X, Y) ∈ l.map f.place ↔ (X, Y) ∈ l := by
  constructor
  · intro h
    obtain ⟨⟨x, y⟩, hp, hplace⟩ := List.mem_map.mp h
    obtain ⟨rfl, rfl⟩ := hf.place_inj (hin _ hp).1 hX hplace
    exact hp
  · exact List.mem_map_of_mem

/-- **A list of pixels colors its members.** -/
theorem colors_run (hf : f.Whole) (hin : ∀ p ∈ l, p.1 < f.width ∧ p.2 < f.height)
    (hl : ∀ {X Y}, X < f.width → Y < f.height → ((X, Y) ∈ l ↔ shape X Y)) :
    f.Colors shape color buffer (Machine.run (plot color) buffer l) := by
  obtain ⟨b, hb, hbit⟩ := run_plot color l buffer fun p hp => hf.stored (hin p hp).1 (hin p hp).2
  refine ⟨b, hb, fun X Y hX hY => ?_⟩
  have hlt := hf.stored hX hY
  have hmem : f.place (X, Y) ∈ l.map f.place ↔ shape X Y := (hf.place_mem hin hX).trans (hl hX hY)
  rw [getpixel_of_lt b hlt, getpixel_of_lt buffer hlt, hbit (f.place (X, Y)) (Nat.mod_lt _ (by decide))]
  constructor
  · intro hXY
    rw [if_pos (hmem.mpr hXY)]
    simp [level]
  · intro hXY
    rw [if_neg fun h => hXY (hmem.mp h)]

/-- A walk that clips colors those in the frame. -/
theorem colors_clip (hf : f.Whole) (hl : ∀ {X Y}, X < f.width → Y < f.height → ((X, Y) ∈ l ↔ shape X Y)) :
    f.Colors shape color buffer (Machine.run (clip color) buffer l) := by
  rw [run_clip]
  apply colors_run hf
  · exact fun p hp => (mem_inFrame.mp hp).2
  · intro X Y hX hY
    rw [mem_inFrame, hl hX hY]
    exact and_iff_left ⟨hX, hY⟩

/-- Their order, and how often each comes, do not matter. -/
theorem run_plot_congr {l' : List (ℕ × ℕ)} (hlt : ∀ p ∈ l, f.index p.1 p.2 < f.size) (h : ∀ p, p ∈ l' ↔ p ∈ l) :
    Machine.run (plot color) buffer l' = Machine.run (plot color) buffer l := by
  obtain ⟨b, hb, hbit⟩ := run_plot color l buffer hlt
  obtain ⟨b', hb', hbit'⟩ := run_plot color l' buffer fun p hp => hlt p ((h p).mp hp)
  rw [hb, hb']
  refine congrArg some (Vector.ext fun k hk => Option.some.inj ?_)
  rw [← Vector.getElem?_eq_getElem hk, ← Vector.getElem?_eq_getElem hk]
  refine getElem?_eq_of_bit fun i hi => ?_
  rw [hbit (k, i) hi, hbit' (k, i) hi]
  simp only [List.mem_map, h]

end Lists

/-! ### Rectangles -/

section Rectangles

variable {x y w h : ℕ}

/-- The rows of a rectangle that ends in the frame do not go on past the last number. -/
theorem mem_rectPixels_inside (hh : 0 < h) (hy : y + h ≤ f.height) {X Y : ℕ} :
    (X, Y) ∈ rectPixels x y w h ↔ Rectangle x y w h X Y := by
  have hlt := f.height_lt
  rw [mem_rectPixels (by omega), Rectangle]
  apply and_congr_right'
  constructor
  · rintro ⟨j, hj, rfl⟩
    omega
  · intro hY
    exact ⟨Y - y, by omega, by omega⟩

theorem fill_rect_colors (hf : f.Whole) (hh : 0 < h) (hx : x + w ≤ f.width) (hy : y + h ≤ f.height) :
    f.Colors (Rectangle x y w h) color buffer (f.fill_rect buffer x y w color h) := by
  rw [fill_rect_eq_run]
  apply colors_run hf
  · rintro ⟨X, Y⟩ hp
    obtain ⟨h1, h2⟩ := (mem_rectPixels_inside hh hy).mp hp
    exact ⟨by omega, by omega⟩
  · exact fun _ _ => mem_rectPixels_inside hh hy

theorem rect_colors (hf : f.Whole) (hw : 0 < w) (hh : 0 < h) (hx : x + w ≤ f.width) (hy : y + h ≤ f.height) :
    f.Colors (Outline x y w h) color buffer (f.rect buffer x y w h color false) := by
  have hlt := f.height_lt
  have hinside : Inside f x y w h := ⟨hx, hy, hf.stored (by omega) (by omega)⟩
  rw [rect_eq_run]
  apply colors_run hf
  · rintro ⟨X, Y⟩ hp
    obtain ⟨⟨h1, h2⟩, -⟩ := (mem_outlinePixels (by omega) hw hh hinside).mp hp
    exact ⟨by omega, by omega⟩
  · exact fun _ _ => mem_outlinePixels (by omega) hw hh hinside

/-- **Rectangles in the frame**: `fill_rect`, and what is drawn with it, has the effect of
setting its pixels in any order; without filling only those of the border. -/
theorem rects_right (hf : f.Whole) (hw : 0 < w) (hh : 0 < h) (hx : x + w ≤ f.width) (hy : y + h ≤ f.height)
    (color : BitVec 32) (buffer : f.Buffer) :
    f.Colors (Rectangle x y w h) color buffer (f.fill_rect buffer x y w color h) ∧
    (∀ l, (∀ p : ℕ × ℕ, p ∈ l ↔ Rectangle x y w h p.1 p.2) →
      Machine.run (plot color) buffer l = f.fill_rect buffer x y w color h) ∧
    f.Colors (Rectangle x y w h) color buffer (f.rect buffer x y w h color true) ∧
    f.Colors (Rectangle x y w 1) color buffer (f.hline buffer x y w color) ∧
    f.Colors (Rectangle x y 1 h) color buffer (f.vline buffer x y h color) ∧
    f.Colors (Outline x y w h) color buffer (f.rect buffer x y w h color false) := by
  have hfill : f.Colors (Rectangle x y w h) color buffer (f.fill_rect buffer x y w color h) :=
    fill_rect_colors hf hh hx hy
  refine ⟨hfill, fun l hl => ?_, hfill, fill_rect_colors hf Nat.one_pos hx (by omega),
    fill_rect_colors hf hh (by omega) hy, rect_colors hf hw hh hx hy⟩
  rw [fill_rect_eq_run]
  apply run_plot_congr
  · rintro ⟨X, Y⟩ hp
    obtain ⟨h1, h2⟩ := (mem_rectPixels_inside hh hy).mp hp
    exact hf.stored (by omega) (by omega)
  · rintro ⟨X, Y⟩
    rw [hl, mem_rectPixels_inside hh hy]

/-- The frame of the first entry of the start menu. -/
theorem rects_right_menu : (board ()).Colors (Outline 9 5 110 14) 1 (blank ())
    ((board ()).rect (blank ()) 9 5 110 14 1 false) :=
  (rects_right board_whole (by decide) (by decide) (by decide) (by decide) 1 (blank ())).2.2.2.2.2

end Rectangles

/-! ### Texts -/

/-- Whether a pixel of a character's glyph is set; bytes outside the font have the glyph of 127. -/
def glyphBit (c : Byte) (column row : ℕ) : Bool :=
  let chr := if 32 ≤ c.toNat ∧ c.toNat ≤ 127 then c.toNat else 127
  (font_petme128_8x8[(chr - 32) * 8 + column]?.getD 0).getLsbD row

/-- The pixels of a text from column `x` on, which may lie left of the frame. -/
def Written (str : List Byte) (x : ℤ) (y X Y : ℕ) : Prop :=
  ∃ (i : ℕ) (c : Byte), str[i]? = some c ∧ ∃ column : ℕ, column < 8 ∧ (X : ℤ) = x + 8 * i + column ∧
    ∃ row < 8, Y = y + row ∧ glyphBit c column row

theorem getElem?_chrData (c : Byte) {column : ℕ} (h : column < 8) : (chrData c)[column]? =
    font_petme128_8x8[((if 32 ≤ c.toNat ∧ c.toNat ≤ 127 then c.toNat else 127) - 32) * 8 + column]? := by
  have hchr : (if c.toNat < 32 ∨ c.toNat > 127 then 127 else c.toNat) =
      if 32 ≤ c.toNat ∧ c.toNat ≤ 127 then c.toNat else 127 := by
    split_ifs <;> omega
  unfold chrData
  dsimp only
  rw [hchr, List.getElem?_take, if_pos h, List.getElem?_drop]

/-- The set bits of a character's columns. -/
theorem glyph_iff {c : Byte} {column row : ℕ} :
    (∃ data, (chrData c)[column]? = some data ∧ data.getLsbD row) ↔ column < 8 ∧ glyphBit c column row := by
  constructor
  · rintro ⟨data, hdata, hrow⟩
    have hlt : column < 8 := by
      rw [← length_chrData c]
      exact (List.getElem?_eq_some_iff.mp hdata).1
    rw [getElem?_chrData c hlt] at hdata
    refine ⟨hlt, ?_⟩
    unfold glyphBit
    dsimp only
    rw [hdata]
    exact hrow
  · rintro ⟨hlt, hbit⟩
    have hsome : column < (chrData c).length := by rwa [length_chrData]
    refine ⟨_, List.getElem?_eq_getElem hsome, ?_⟩
    unfold glyphBit at hbit
    dsimp only at hbit
    rwa [← getElem?_chrData c hlt, List.getElem?_eq_getElem hsome] at hbit

/-- A column of the frame is reached from the start modulo `2 ^ 16` only if it is from the start itself. -/
theorem column_iff {x : ℤ} (hx : -32768 ≤ x ∧ x ≤ 32767) {X k : ℕ} (hX : X < 32768) (hk : k < 32768) :
    X = (toUnsigned 16 x + k) % 2 ^ 16 ↔ (X : ℤ) = x + k := by
  have h := CInt.toUnsigned_lt 16 x
  have hcast : (toUnsigned 16 x : ℤ) = x % 2 ^ 16 := by
    unfold toUnsigned
    omega
  omega

/-- **Texts, from left of the frame too**, on frames of at most 32768 columns: the pixels
of the glyphs have the color, and no others change. -/
theorem text_right (hf : f.Whole) (hwidth : f.width ≤ 32768) {str : List Byte} (hstr : ∀ c ∈ str, c ≠ 0)
    (hlen : 8 * str.length ≤ 32768) {x : ℤ} (hx : -32768 ≤ x ∧ x ≤ 32767) (y : ℕ) (color : BitVec 32)
    (behind : List Byte) (buffer : f.Buffer) :
    f.Colors (Written str x y) color buffer (f.text y color (str ++ 0 :: behind) (toUnsigned 16 x) buffer) := by
  have hlt : toUnsigned 16 x < 2 ^ 16 := CInt.toUnsigned_lt 16 x
  have htext : (str ++ 0 :: behind).takeWhile (· ≠ 0) = str := by
    rw [List.takeWhile_append_of_pos (by simpa using hstr)]
    simp
  rw [text_eq_run y _ _ _ hlt]
  apply colors_clip hf
  intro X Y hX hY
  rw [mem_textPixels hlt, htext]
  unfold Written
  constructor
  · rintro ⟨i, c, hc, column, data, hdata, hcolumn, row, hrow, hbit, rfl⟩
    obtain ⟨hlt8, hglyph⟩ := glyph_iff.mp ⟨data, hdata, hbit⟩
    have hi := (List.getElem?_eq_some_iff.mp hc).1
    rw [Nat.add_assoc, column_iff hx (by omega) (by omega)] at hcolumn
    exact ⟨i, c, hc, column, hlt8, by push_cast at hcolumn; omega, row, hrow, rfl, hglyph⟩
  · rintro ⟨i, c, hc, column, hlt8, hcolumn, row, hrow, rfl, hglyph⟩
    obtain ⟨data, hdata, hbit⟩ := glyph_iff.mpr ⟨hlt8, hglyph⟩
    have hi := (List.getElem?_eq_some_iff.mp hc).1
    refine ⟨i, c, hc, column, data, hdata, ?_, row, hrow, hbit, rfl⟩
    rw [Nat.add_assoc, column_iff hx (by omega) (by omega)]
    push_cast
    omega

/-- A field of 14 characters, half of the first of which is left of the display. -/
theorem text_right_tail : (board ()).Colors (Written (List.replicate 14 65) (-4) 26) 1 (blank ())
    ((board ()).text 26 1 (List.replicate 14 65 ++ [0]) (toUnsigned 16 (-4)) (blank ())) :=
  text_right board_whole (by decide) (by decide) (by decide) (by decide) 26 1 [] (blank ())

/-! ### Lines -/

/-- The inner loop ends: it has more rounds than it takes the error term to fall below 0. -/
theorem overshoot_ends {dx : ℤ} (hdx : 0 < dx) (sy : ℤ) (rounds : ℕ) :
    ∀ (y1 : ℕ) (e : ℤ), e < rounds → (overshoot dx sy rounds y1 e).2 < 0 := by
  induction rounds with
  | zero => exact fun y1 e he => he
  | succ rounds ih =>
    intro y1 e he
    rw [overshoot]
    by_cases h : e ≥ 0
    · rw [if_pos h]
      apply ih
      push_cast at he
      omega
    · rw [if_neg h]
      exact Int.not_le.mp h

/-- **Lines are the ideal ones**, and both loops end. -/
theorem line_right (hf : f.Whole) {x1 y1 x2 y2 : ℕ} (hx1 : x1 < 2 ^ 16) (hy1 : y1 < 2 ^ 16) (hx2 : x2 < 2 ^ 16)
    (hy2 : y2 < 2 ^ 16) (color : BitVec 32) (buffer : f.Buffer) :
    f.Colors (Raster.Ideal x1 y1 x2 y2) color buffer (f.line buffer x1 y1 x2 y2 color) ∧
    ∀ dx sy : ℤ, 0 < dx → ∀ (y : ℕ) (e : ℤ), (overshoot dx sy (e.toNat + 1) y e).2 < 0 := by
  constructor
  · rw [line_eq_run hx1 hy1 hx2 hy2]
    apply colors_clip hf
    intro X Y _ _
    exact Raster.mem_linePoints
  · intro dx sy hdx y e
    apply overshoot_ends hdx
    omega

/-- From one corner of the display to the other. -/
theorem line_right_diagonal : (board ()).Colors (Raster.Ideal 0 0 127 63) 1 (blank ())
    ((board ()).line (blank ()) 0 0 127 63 1) :=
  (line_right board_whole (by decide) (by decide) (by decide) (by decide) 1 (blank ())).1

end MonoVlsb
end Ventilation
