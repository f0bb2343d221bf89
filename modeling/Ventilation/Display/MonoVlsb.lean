/-
# The frame buffer (src/display/mono_vlsb.cpp, ssd1306.cpp)

Eight rows of pixels share the bytes of a page, and the pages follow each
other with a stride, behind `buffer_offset` bytes that are not pixels. The
buffer's size comes from the width, and the place of a pixel from the stride.

An access that leaves the pixels, `buffer[buffer_offset .. size)`, has no result.
The pixels that a loop sets are a list (`rectPixels`), set one after the other
(`fill_rect_eq_run`), so that what a drawing does is what its list says (`plotted_iff`).
-/
import Mathlib.Data.List.Basic
import Ventilation.IPStack
import Ventilation.Lib.Machine
import Ventilation.Lib.Raster

namespace Ventilation

/-- What a `mono_vlsb` is constructed with, apart from its buffer. -/
structure MonoVlsb where
  width : ℕ
  height : ℕ
  stride : ℕ
  buffer_offset : ℕ
  width_lt : width < 2 ^ 16
  height_lt : height < 2 ^ 16

namespace MonoVlsb

/-- The pages, the last of which may be cut off. -/
def pages (f : MonoVlsb) : ℕ := f.height / 8 + if f.height % 8 = 0 then 0 else 1

def size (f : MonoVlsb) : ℕ := f.width * f.pages + f.buffer_offset

abbrev Buffer (f : MonoVlsb) : Type := Vector Byte f.size

/-! ### Construction -/

/-- A stride of 0 is the width. -/
def make (width height stride buf_offset : BitVec 16) : MonoVlsb where
  width := width.toNat
  height := height.toNat
  stride := if stride = 0 then width.toNat else stride.toNat
  buffer_offset := buf_offset.toNat
  width_lt := width.isLt
  height_lt := height.isLt

/-- The pixels all off. -/
def zeros (f : MonoVlsb) : f.Buffer := Vector.replicate f.size 0

/-- What an image is copied into: the bytes before the offset stay as `fresh`, what `new` returned. -/
def copied (f : MonoVlsb) (fresh : f.Buffer) (image : ℕ → Byte) : f.Buffer :=
  Vector.ofFn fun k => if k.val < f.buffer_offset then fresh.get k else image (k.val - f.buffer_offset)

/-- The frame of an `ssd1306`: one byte in front of the pixels. -/
def makeSsd1306 (width height : BitVec 16) : MonoVlsb := make width height width 1

/-- The control byte in front of the pixels. -/
def controlled (f : MonoVlsb) (buffer : f.Buffer) : f.Buffer := buffer.setIfInBounds 0 0x40

/-- What the constructors make, with a stride that is 0 or at least the width. -/
inductive Constructed : (f : MonoVlsb) → f.Buffer → Prop
  | mono_vlsb (width height stride buf_offset : BitVec 16) :
    stride = 0 ∨ width ≤ stride → Constructed (make width height stride buf_offset) (zeros _)
  | image (image : ℕ → Byte) (width : BitVec 8) (height stride buf_offset : BitVec 16) (fresh) :
    stride = 0 ∨ width.setWidth 16 ≤ stride →
    Constructed (make (width.setWidth 16) height stride buf_offset) (copied _ fresh image)
  | ssd1306 (width height : BitVec 16) :
    Constructed (makeSsd1306 width height) (controlled _ (zeros _))

variable (f : MonoVlsb)

/-! ### Pixels -/

/-- `(y >> 3) * stride + x + buffer_offset`. -/
def index (x y : ℕ) : ℕ := Raster.address f.stride (y / 8) x + f.buffer_offset

/-- A byte of the pixels, if it is one. -/
def peek (buffer : f.Buffer) (index : ℕ) : Option Byte :=
  if f.buffer_offset ≤ index then buffer[index]? else none

/-- `(b & ~(0x01 << offset)) | ((color != 0) << offset)`. -/
def withPixel (b : Byte) (offset : ℕ) (color : BitVec 32) : Byte :=
  (b &&& ~~~(1#8 <<< offset)) ||| ((if color ≠ 0 then 1#8 else 0#8) <<< offset)

/-- One pixel of a byte of the pixels. -/
def poke (buffer : f.Buffer) (index offset : ℕ) (color : BitVec 32) : Option f.Buffer :=
  (f.peek buffer index).map fun b => buffer.setIfInBounds index (withPixel b offset color)

def setpixel (buffer : f.Buffer) (x y : ℕ) (color : BitVec 32) : Option f.Buffer :=
  f.poke buffer (f.index x y) (y % 8) color

def getpixel (buffer : f.Buffer) (x y : ℕ) : Option (BitVec 32) :=
  (f.peek buffer (f.index x y)).map fun b =>
    BitVec.setWidth 32 b >>> (y % 8) &&& 1#32

/-- The inner loop, with the pointer `b`. -/
def fillRow (buffer : f.Buffer) (b offset : ℕ) (color : BitVec 32) : ℕ → Option f.Buffer
  | 0 => some buffer
  | ww + 1 => (f.poke buffer b offset color).bind fun buffer => fillRow buffer (b + 1) offset color ww

/-- The row counter is 16 bits wide. -/
def fill_rect (buffer : f.Buffer) (x y w : ℕ) (color : BitVec 32) : (h : ℕ) → Option f.Buffer
  | 0 => some buffer
  | h + 1 => (f.fillRow buffer (f.index x y) (y % 8) color w).bind fun buffer =>
      fill_rect buffer x ((y + 1) % 2 ^ 16) w color h

/-! ### Bits -/

/-- Where a pixel is: the byte, and the bit of it. -/
def place (p : ℕ × ℕ) : ℕ × ℕ := (f.index p.1 p.2, p.2 % 8)

variable {f}

/-- A bit of the buffer. -/
def bit (buffer : f.Buffer) (k : ℕ × ℕ) : Bool := (buffer[k.1]?.getD 0).getLsbD k.2

theorem getElem?_controlled (buffer : f.Buffer) (h : 0 < f.size) : (f.controlled buffer)[0]? = some 0x40 := by
  rw [controlled, Vector.getElem?_setIfInBounds_self, if_pos h]

theorem getLsbD_one_shiftLeft {offset i : ℕ} (hi : i < 8) :
    (1#8 <<< offset).getLsbD i = decide (i = offset) := by
  rw [BitVec.getLsbD_shiftLeft, BitVec.getLsbD_one, decide_eq_true hi, Bool.true_and]
  by_cases h : i < offset
  · simp [h, h.ne]
  · simp [h, show i - offset = 0 ↔ i = offset by omega]

theorem getLsbD_withPixel (b : Byte) {offset i : ℕ} (hi : i < 8) (color : BitVec 32) :
    (withPixel b offset color).getLsbD i = if i = offset then decide (color ≠ 0) else b.getLsbD i := by
  rw [withPixel, BitVec.getLsbD_or, BitVec.getLsbD_and, BitVec.getLsbD_not, getLsbD_one_shiftLeft hi]
  by_cases hc : color ≠ 0
  · rw [if_pos hc, getLsbD_one_shiftLeft hi, decide_eq_true hc]
    by_cases h : i = offset <;> simp [h, hi]
  · rw [if_neg hc, BitVec.zero_shiftLeft, decide_eq_false hc]
    by_cases h : i = offset <;> simp [h, hi]

theorem buffer_offset_le_index (x y : ℕ) : f.buffer_offset ≤ f.index x y := Nat.le_add_left _ _

theorem peek_of_lt (buffer : f.Buffer) {k : ℕ} (h : f.buffer_offset ≤ k) (hk : k < f.size) :
    f.peek buffer k = some (buffer.get ⟨k, hk⟩) := by
  rw [peek, if_pos h]
  exact Vector.getElem?_eq_getElem hk

theorem peek_of_le (buffer : f.Buffer) {k : ℕ} (hk : f.size ≤ k) : f.peek buffer k = none := by
  unfold peek
  split
  · exact Vector.getElem?_eq_none hk
  · rfl

theorem setpixel_of_lt (buffer : f.Buffer) {x y : ℕ} (color : BitVec 32) (h : f.index x y < f.size) :
    ∃ b, f.setpixel buffer x y color = some b ∧ ∀ k, k.2 < 8 →
      bit b k = if k = f.place (x, y) then decide (color ≠ 0) else bit buffer k := by
  refine ⟨_, by rw [setpixel, poke, peek_of_lt buffer (buffer_offset_le_index x y) h, Option.map_some], ?_⟩
  rintro ⟨k, i⟩ hi
  unfold bit place
  rw [Vector.getElem?_setIfInBounds]
  by_cases hk : f.index x y = k
  · subst hk
    rw [if_pos rfl, if_pos h, Option.getD_some, getLsbD_withPixel _ hi, Vector.getElem?_eq_getElem h]
    simp only [Prod.mk.injEq, true_and, Option.getD_some]
    rfl
  · rw [if_neg hk, if_neg fun h' => hk (congrArg Prod.fst h').symm]

theorem setpixel_eq_none (buffer : f.Buffer) {x y : ℕ} (color : BitVec 32) (h : f.size ≤ f.index x y) :
    f.setpixel buffer x y color = none := by
  rw [setpixel, poke, peek_of_le buffer h, Option.map_none]

theorem getpixel_of_lt (buffer : f.Buffer) {x y : ℕ} (h : f.index x y < f.size) :
    f.getpixel buffer x y = some (if bit buffer (f.place (x, y)) then 1 else 0) := by
  rw [getpixel, peek_of_lt buffer (buffer_offset_le_index x y) h, Option.map_some]
  unfold bit place
  rw [Vector.getElem?_eq_getElem h, Option.getD_some]
  rw [BitVec.and_one_eq_setWidth_ofBool_getLsbD, BitVec.getLsbD_ushiftRight, Nat.add_zero,
    BitVec.getLsbD_setWidth, decide_eq_true (show y % 8 < 32 by omega), Bool.true_and]
  show some (BitVec.setWidth 32 (BitVec.ofBool ((buffer.get ⟨f.index x y, h⟩).getLsbD (y % 8)))) = _
  cases (buffer.get ⟨f.index x y, h⟩).getLsbD (y % 8)
  · rfl
  · rfl

theorem getpixel_eq_none (buffer : f.Buffer) {x y : ℕ} (h : f.size ≤ f.index x y) :
    f.getpixel buffer x y = none := by
  rw [getpixel, peek_of_le buffer h, Option.map_none]

/-- A byte is its bits. -/
theorem getElem?_eq_of_bit {b b' : f.Buffer} {k : ℕ} (h : ∀ i < 8, bit b (k, i) = bit b' (k, i)) :
    b[k]? = b'[k]? := by
  rcases Nat.lt_or_ge k f.size with hk | hk
  · rw [Vector.getElem?_eq_getElem hk, Vector.getElem?_eq_getElem hk]
    refine congrArg some (BitVec.eq_of_getLsbD_eq fun i hi => ?_)
    have := h i hi
    unfold bit at this
    rwa [Vector.getElem?_eq_getElem hk, Vector.getElem?_eq_getElem hk] at this
  · rw [Vector.getElem?_eq_none hk, Vector.getElem?_eq_none hk]

theorem setpixel_isSome_iff {buffer : f.Buffer} {x y : ℕ} {color : BitVec 32} :
    (f.setpixel buffer x y color).isSome ↔ f.index x y < f.size := by
  rcases Nat.lt_or_ge (f.index x y) f.size with h | h
  · obtain ⟨b, hb, _⟩ := setpixel_of_lt buffer color h
    simp [hb, h]
  · simp [setpixel_eq_none buffer color h, h]

theorem getpixel_isSome_iff {buffer : f.Buffer} {x y : ℕ} :
    (f.getpixel buffer x y).isSome ↔ f.index x y < f.size := by
  rcases Nat.lt_or_ge (f.index x y) f.size with h | h
  · simp [getpixel_of_lt buffer h, h]
  · simp [getpixel_eq_none buffer h, h]

/-- Where two pixels are in the same place, one is right of its row's end. -/
theorem place_inj {X Y x y : ℕ} (hX : X < f.stride) (h : f.place (x, y) = f.place (X, Y)) :
    ∃ q, x = X + q * f.stride ∧ Y = y + 8 * q := by
  obtain ⟨hi, ho⟩ := Prod.mk.inj h
  obtain ⟨q, hq, hx⟩ := Raster.address_inj hX (Nat.add_right_cancel hi).symm
  exact ⟨q, hx, by omega⟩

theorem index_le {x y x' y' : ℕ} (hx : x ≤ x') (hy : y ≤ y') : f.index x y ≤ f.index x' y' :=
  Nat.add_le_add_right (Raster.address_le (Nat.div_le_div_right hy) hx) _

/-- Where the rows follow each other without a gap, the pixels of the frame are in the buffer. -/
theorem index_lt_size (hf : f.stride = f.width) {x y : ℕ} (hx : x < f.width) (hy : y < f.height) :
    f.index x y < f.size := by
  have hpage : y / 8 < f.pages := by
    unfold pages
    split <;> omega
  calc f.index x y = Raster.address f.width (y / 8) x + f.buffer_offset := by rw [index, hf]
    _ < f.width * f.pages + f.buffer_offset := Nat.add_lt_add_right (Raster.address_lt hpage hx) _

/-! ### The pixels of a list -/

/-- One of them. -/
def plot (color : BitVec 32) (buffer : f.Buffer) (p : ℕ × ℕ) : Option f.Buffer :=
  f.setpixel buffer p.1 p.2 color

/-- A drawing stays in the buffer, and changes only pixels of the frame that belong to the shape. -/
def Draws (f : MonoVlsb) (shape : ℕ → ℕ → Prop) (buffer : f.Buffer) (r : Option f.Buffer) : Prop :=
  ∃ b, r = some b ∧ ∀ k, k.2 < 8 → bit b k ≠ bit buffer k →
    ∃ x y, x < f.width ∧ y < f.height ∧ shape x y ∧ k = f.place (x, y)

/-- All bits alike. -/
def uniform (f : MonoVlsb) (v : Bool) : f.Buffer := Vector.replicate f.size (if v then 0xFF else 0)

theorem bit_uniform (v : Bool) {k : ℕ × ℕ} (hk : k.1 < f.size) (hi : k.2 < 8) : bit (f.uniform v) k = v := by
  unfold bit uniform
  rw [Vector.getElem?_replicate, if_pos hk, Option.getD_some]
  cases v
  · simp
  · show (BitVec.allOnes 8).getLsbD k.2 = true
    rw [BitVec.getLsbD_allOnes, decide_eq_true hi]

theorem getpixel_uniform {v : Bool} {x y : ℕ} {col : BitVec 32}
    (h : f.getpixel (f.uniform v) x y = some col) : f.index x y < f.size ∧ col = if v then 1 else 0 := by
  have hlt := getpixel_isSome_iff.mp (Option.isSome_of_eq_some h)
  rw [getpixel_of_lt _ hlt, bit_uniform v hlt (Nat.mod_lt _ (by decide)), Option.some.injEq] at h
  exact ⟨hlt, h.symm⟩

/-- A pixel set to what all of them are changes nothing. -/
theorem setpixel_uniform {v : Bool} {x y : ℕ} {b : f.Buffer}
    (h : f.setpixel (f.uniform v) x y (if v then 1 else 0) = some b) :
    f.index x y < f.size ∧ b = f.uniform v := by
  have hlt := setpixel_isSome_iff.mp (Option.isSome_of_eq_some h)
  obtain ⟨b', hb', hbit⟩ := setpixel_of_lt (f.uniform v) (if v then 1 else 0) hlt
  obtain rfl : b' = b := Option.some.inj (hb'.symm.trans h)
  refine ⟨hlt, Vector.ext fun k hk => Option.some.inj ?_⟩
  rw [← Vector.getElem?_eq_getElem hk, ← Vector.getElem?_eq_getElem hk]
  refine getElem?_eq_of_bit fun i hi => ?_
  rw [hbit (k, i) hi]
  split
  · rename_i hk
    rw [hk, bit_uniform v hlt (Nat.mod_lt _ (by decide))]
    cases v <;> rfl
  · rfl

variable {color : BitVec 32} {l : List (ℕ × ℕ)} {buffer b : f.Buffer}

/-- A run that stays in the buffer leaves its pixels in the color. -/
theorem run_plot (color : BitVec 32) : ∀ (l : List (ℕ × ℕ)) (buffer : f.Buffer),
    (∀ p ∈ l, f.index p.1 p.2 < f.size) →
    ∃ b, Machine.run (plot color) buffer l = some b ∧ ∀ k, k.2 < 8 →
      bit b k = if k ∈ l.map f.place then decide (color ≠ 0) else bit buffer k
  | [], buffer, _ => ⟨buffer, rfl, fun k _ => by simp⟩
  | p :: l, buffer, h => by
    obtain ⟨b', hb', hbit'⟩ := setpixel_of_lt buffer color (h p List.mem_cons_self)
    obtain ⟨b, hb, hbit⟩ := run_plot color l b' fun q hq => h q (List.mem_cons_of_mem p hq)
    refine ⟨b, ?_, fun k hk => ?_⟩
    · rw [Machine.run_cons, plot, hb', Option.bind_some, hb]
    · rw [hbit k hk, hbit' k hk, List.map_cons]
      by_cases hp : k = f.place p
      · simp [hp]
      · simp only [List.mem_cons, hp, false_or, if_false]

theorem index_lt_of_run (h : Machine.run (plot color) buffer l = some b) :
    ∀ p ∈ l, f.index p.1 p.2 < f.size := by
  intro p hp
  obtain ⟨u, v, _, huv⟩ := Machine.step_of_run (J := fun _ => True) (plot color)
    (fun _ _ _ _ _ => trivial) trivial h p hp
  exact setpixel_isSome_iff.mp (by rw [← Option.isSome_some (a := v), ← huv]; rfl)

/-- **What a drawing in one color does is what its pixels say.** -/
theorem plotted_iff (shape : ℕ → ℕ → Prop) (color : BitVec 32) (l : List (ℕ × ℕ)) :
    (∀ buffer, f.Draws shape buffer (Machine.run (plot color) buffer l)) ↔
      ∀ p ∈ l, f.index p.1 p.2 < f.size ∧
        ∃ x y, x < f.width ∧ y < f.height ∧ shape x y ∧ f.place p = f.place (x, y) := by
  constructor
  · intro h p hp
    -- on a buffer of the other color the pixel is seen to change
    obtain ⟨b, hb, hshape⟩ := h (f.uniform (decide (color = 0)))
    have hsize := index_lt_of_run hb
    obtain ⟨b', hb', hbit⟩ := run_plot color l (f.uniform (decide (color = 0))) hsize
    obtain rfl : b' = b := Option.some.inj (hb'.symm.trans hb)
    have hp8 : (f.place p).2 < 8 := Nat.mod_lt _ (by decide)
    refine ⟨hsize p hp, hshape _ hp8 ?_⟩
    rw [hbit _ hp8, if_pos (List.mem_map_of_mem hp), bit_uniform _ (hsize p hp) hp8]
    by_cases hc : color = 0 <;> simp [hc]
  · intro h buffer
    obtain ⟨b, hb, hbit⟩ := run_plot color l buffer fun p hp => (h p hp).1
    refine ⟨b, hb, fun k hk hne => ?_⟩
    rw [hbit k hk] at hne
    by_cases hmem : k ∈ l.map f.place
    · obtain ⟨p, hp, rfl⟩ := List.mem_map.mp hmem
      exact (h p hp).2
    · rw [if_neg hmem] at hne
      exact absurd rfl hne

/-! ### The pixels of a rectangle -/

def rowPixels (x y w : ℕ) : List (ℕ × ℕ) := (List.range' x w).map (·, y)

/-- Row by row, with the row counter of `fill_rect`. -/
def rectPixels (x y w : ℕ) : (h : ℕ) → List (ℕ × ℕ)
  | 0 => []
  | h + 1 => rowPixels x y w ++ rectPixels x ((y + 1) % 2 ^ 16) w h

theorem fillRow_eq_run (x y : ℕ) (color : BitVec 32) (w : ℕ) : ∀ buffer : f.Buffer,
    f.fillRow buffer (f.index x y) (y % 8) color w = Machine.run (plot color) buffer (rowPixels x y w) := by
  induction w generalizing x with
  | zero => exact fun _ => rfl
  | succ w ih =>
    intro buffer
    have hnext : f.index x y + 1 = f.index (x + 1) y := Nat.add_right_comm _ _ _
    rw [fillRow, rowPixels, List.range'_succ, List.map_cons, Machine.run_cons, hnext]
    exact congrArg _ (funext (ih (x + 1)))

theorem fill_rect_eq_run (x y w h : ℕ) (color : BitVec 32) (buffer : f.Buffer) :
    f.fill_rect buffer x y w color h = Machine.run (plot color) buffer (rectPixels x y w h) := by
  induction h generalizing y buffer with
  | zero => rfl
  | succ h ih =>
    rw [fill_rect, rectPixels, Machine.run_append, fillRow_eq_run]
    exact congrArg _ (funext (ih ((y + 1) % 2 ^ 16)))

theorem mem_rectPixels {x y w h X Y : ℕ} (hy : y < 2 ^ 16) : (X, Y) ∈ rectPixels x y w h ↔
    (x ≤ X ∧ X < x + w) ∧ ∃ j < h, Y = (y + j) % 2 ^ 16 := by
  induction h generalizing y with
  | zero => simp [rectPixels]
  | succ h ih =>
    have hrow : (X, Y) ∈ rowPixels x y w ↔ (x ≤ X ∧ X < x + w) ∧ Y = y := by
      unfold rowPixels
      constructor
      · intro hm
        obtain ⟨X', hX', heq⟩ := List.mem_map.mp hm
        obtain ⟨rfl, rfl⟩ := Prod.mk.inj heq
        exact ⟨List.mem_range'_1.mp hX', rfl⟩
      · rintro ⟨hX, rfl⟩
        exact List.mem_map.mpr ⟨X, List.mem_range'_1.mpr hX, rfl⟩
    rw [rectPixels, List.mem_append, hrow, ih (Nat.mod_lt _ (by decide)), ← and_or_left]
    apply and_congr_right'
    constructor
    · rintro (rfl | ⟨j, hj, rfl⟩)
      · exact ⟨0, Nat.succ_pos h, (Nat.mod_eq_of_lt hy).symm⟩
      · exact ⟨j + 1, Nat.succ_lt_succ hj, by rw [Nat.mod_add_mod]; congr 1; omega⟩
    · rintro ⟨j, hj, rfl⟩
      rcases Nat.eq_zero_or_pos j with rfl | hpos
      · exact .inl (Nat.mod_eq_of_lt hy)
      · exact .inr ⟨j - 1, by omega, by rw [Nat.mod_add_mod]; congr 1; omega⟩

end MonoVlsb

end Ventilation
