/-
# Drawing on frame buffers

What the public functions of `framebuf` may do to frame buffers that were
constructed with a stride of 0 or at least the width: in any sequence of calls, each
stays inside the pixels of its buffers and changes only those of the frame that
belong to its shape, exactly if the call fits (`drawings_right_iff`). Where the
rows follow each other without a gap, the functions that clip fit (`stored_of_packed`,
`sourceStored_of_packed`), but for a palette of one pixel; `hline`, `vline` and `rect` do
not clip, so they fit only if the rectangle lies in the frame.
-/
import Ventilation.Display.Pixels

namespace Ventilation
namespace MonoVlsb

open CInt (toUnsigned)

variable {ι : Type} [DecidableEq ι] (F : ι → MonoVlsb)

/-- The public functions. A text is given by its bytes in front of the NUL. -/
inductive Call (ι : Type)
  | fill (color : BitVec 32)
  | line (x1 y1 x2 y2 : BitVec 16) (color : BitVec 32)
  | hline (x y w : BitVec 16) (color : BitVec 32)
  | vline (x y h : BitVec 16) (color : BitVec 32)
  | rect (x y w h : BitVec 16) (color : BitVec 32) (fill : Bool)
  | text (str : List Byte) (x y : BitVec 16) (color : BitVec 32)
  | blit (source : ι) (x y : BitVec 16) (key : BitVec 32) (palette : Option ι)
  | scroll (xstep ystep : BitVec 16)

/-- A call, with the frame it is for. -/
structure Drawing (ι : Type) where
  on : ι
  call : Call ι

/-- The calls that touch one buffer only. -/
def draw (f : MonoVlsb) (buffer : f.Buffer) : Call ι → Option f.Buffer
  | .fill color => f.fill buffer color
  | .line x1 y1 x2 y2 color => f.line buffer x1.toNat y1.toNat x2.toNat y2.toNat color
  | .hline x y w color => f.hline buffer x.toNat y.toNat w.toNat color
  | .vline x y h color => f.vline buffer x.toNat y.toNat h.toNat color
  | .rect x y w h color fill => f.rect buffer x.toNat y.toNat w.toNat h.toNat color fill
  | .text str x y color => f.text y.toNat color str x.toNat buffer
  | .scroll xstep ystep => f.scroll buffer xstep.toInt ystep.toInt
  | .blit .. => none

def step (s : Buffers F) : Drawing ι → Option (Buffers F)
  | ⟨i, .blit source x y key palette⟩ => blit F s i source x.toInt y.toInt key palette
  | ⟨i, call⟩ => (draw (F i) (s i) call).map (Function.update s i)

/-! ### What should hold -/

def Rectangle (x y w h X Y : ℕ) : Prop := (x ≤ X ∧ X < x + w) ∧ y ≤ Y ∧ Y < y + h

/-- Its border. -/
def Outline (x y w h X Y : ℕ) : Prop :=
  Rectangle x y w h X Y ∧ (X = x ∨ X = x + w - 1 ∨ Y = y ∨ Y = y + h - 1)

/-- A pixel of a character of the text; the start may be left of the frame, modulo `2 ^ 16`. -/
def Glyphs (str : List Byte) (x y X Y : ℕ) : Prop :=
  ∃ k c, (str.takeWhile (· ≠ 0))[k]? = some c ∧ ∃ j data, (chrData c)[j]? = some data ∧
    X = (x + 8 * k + j) % 2 ^ 16 ∧ ∃ r < 8, data.getLsbD r ∧ Y = y + r

/-- The pixels whose source is in its frame. -/
def Copied (f : MonoVlsb) (x y : ℤ) (X Y : ℕ) : Prop :=
  (0 ≤ X - x ∧ X - x < f.width) ∧ 0 ≤ Y - y ∧ Y - y < f.height

/-- The pixels that a call asks for. -/
def Shape (i : ι) : Call ι → ℕ → ℕ → Prop
  | .fill _ => Rectangle 0 0 (F i).width (F i).height
  | .line x1 y1 x2 y2 _ => fun X Y => (X, Y) ∈ Raster.linePoints x1.toNat y1.toNat x2.toNat y2.toNat
  | .hline x y w _ => Rectangle x.toNat y.toNat w.toNat 1
  | .vline x y h _ => Rectangle x.toNat y.toNat 1 h.toNat
  | .rect x y w h _ true => Rectangle x.toNat y.toNat w.toNat h.toNat
  | .rect x y w h _ false => Outline x.toNat y.toNat w.toNat h.toNat
  | .text str x y _ => Glyphs str x.toNat y.toNat
  | .blit source x y _ _ => Copied (F source) x.toInt y.toInt
  | .scroll xstep ystep => Copied (F i) xstep.toInt ystep.toInt

/-- The call stays in the pixels of the buffers it uses, leaves the others alone, and
changes only pixels of the frame that belong to its shape. -/
def Right (s : Buffers F) (d : Drawing ι) : Prop :=
  ∃ t, step F s d = some t ∧ (∀ j ≠ d.on, t j = s j) ∧
    ∀ k, k.2 < 8 → bit (t d.on) k ≠ bit (s d.on) k →
      ∃ x y, x < (F d.on).width ∧ y < (F d.on).height ∧ Shape F d.on d.call x y ∧ k = (F d.on).place (x, y)

/-- The rectangle lies in the frame, and its last pixel in the buffer. -/
def Inside (f : MonoVlsb) (x y w h : ℕ) : Prop :=
  x + w ≤ f.width ∧ y + h ≤ f.height ∧ f.index (x + w - 1) (y + h - 1) < f.size

/-- The pixels of the frame that belong to the shape lie in the buffer. -/
def Stored (f : MonoVlsb) (shape : ℕ → ℕ → Prop) : Prop :=
  ∀ X Y, X < f.width → Y < f.height → shape X Y → f.index X Y < f.size

/-- Where pixels of the frame are copied to, their sources lie in their buffer. -/
def SourceStored (f source : MonoVlsb) (x y : ℤ) : Prop :=
  ∀ X Y : ℕ, X < f.width → Y < f.height → Copied source x y X Y →
    source.index (X - x).toNat (Y - y).toNat < source.size

/-- **The condition.** -/
def Fits : Drawing ι → Prop
  | ⟨i, .fill _⟩ => (F i).width = 0 ∨ (F i).height = 0 ∨ Inside (F i) 0 0 (F i).width (F i).height
  | ⟨i, .hline x y w _⟩ => w.toNat = 0 ∨ Inside (F i) x.toNat y.toNat w.toNat 1
  | ⟨i, .vline x y h _⟩ => h.toNat = 0 ∨ Inside (F i) x.toNat y.toNat 1 h.toNat
  | ⟨i, .rect x y w h _ true⟩ => w.toNat = 0 ∨ h.toNat = 0 ∨ Inside (F i) x.toNat y.toNat w.toNat h.toNat
  | ⟨i, .rect x y w h _ false⟩ =>
    -- an outline with one side of length 0 is drawn all the same
    (w.toNat = 0 ∧ h.toNat = 0) ∨
      (0 < w.toNat ∧ 0 < h.toNat ∧ Inside (F i) x.toNat y.toNat w.toNat h.toNat)
  | ⟨i, .line x1 y1 x2 y2 color⟩ => Stored (F i) (Shape F i (.line x1 y1 x2 y2 color))
  | ⟨i, .text str x y color⟩ => Stored (F i) (Shape F i (.text str x y color))
  | ⟨i, .scroll xstep ystep⟩ =>
    Stored (F i) (Shape F i (.scroll xstep ystep)) ∧ SourceStored (F i) (F i) xstep.toInt ystep.toInt
  | ⟨i, .blit source x y key palette⟩ =>
    Stored (F i) (Shape F i (.blit source x y key palette)) ∧
      SourceStored (F i) (F source) x.toInt y.toInt ∧
      -- the palette has a pixel for either color, if any is copied
      ∀ p ∈ palette, (∃ X Y, X < (F i).width ∧ Y < (F i).height ∧ Copied (F source) x.toInt y.toInt X Y) →
        (F p).index 1 0 < (F p).size

variable {F} {f : MonoVlsb} {color : BitVec 32}

/-! ### Rectangles -/

section Rectangles

variable {x y w h : ℕ} {shape : ℕ → ℕ → Prop}

/-- A place that a pixel of the frame shares. -/
def Shared (f : MonoVlsb) (shape : ℕ → ℕ → Prop) (p : ℕ × ℕ) : Prop :=
  ∃ X Y, X < f.width ∧ Y < f.height ∧ shape X Y ∧ f.place p = f.place (X, Y)

/-- The last row drawn is one of the frame: the rows may not go on past the last number either. -/
theorem height_of_shared (hs : f.width ≤ f.stride) (h0 : 0 < h)
    (hp : Shared f shape (x, min (y + h - 1) (2 ^ 16 - 1))) : y + h ≤ f.height := by
  obtain ⟨X, Y, hX, hY, _, hplace⟩ := hp
  obtain ⟨q, _, hq⟩ := place_inj (hX.trans_le hs) hplace
  have := f.height_lt
  omega

/-- A pixel right of the frame is in one of the rows below. -/
theorem width_of_shared (hs : f.width ≤ f.stride) (h0 : 0 < h)
    (hshape : ∀ X Y, shape X Y → Y < y + h) (hp : Shared f shape (x + w - 1, y + h - 1)) :
    x + w ≤ f.width := by
  obtain ⟨X, Y, hX, hY, hXY, hplace⟩ := hp
  obtain ⟨q, hx, hq⟩ := place_inj (hX.trans_le hs) hplace
  have := hshape X Y hXY
  obtain rfl : q = 0 := by omega
  omega

/-- The pixels of a rectangle inside are pixels of the frame. -/
theorem shared_of_inside (hi : Inside f x y w h) {X Y : ℕ} (hr : Rectangle x y w h X Y) (hXY : shape X Y) :
    f.index X Y < f.size ∧ Shared f shape (X, Y) := by
  obtain ⟨hx, hy, hlt⟩ := hi
  obtain ⟨⟨_, hX⟩, _, hY⟩ := hr
  exact ⟨(index_le (by omega) (by omega)).trans_lt hlt, X, Y, by omega, by omega, hXY, rfl⟩

theorem last_mem_rectPixels {X : ℕ} (hy : y < 2 ^ 16) (h0 : 0 < h) (hX : x ≤ X ∧ X < x + w) :
    (X, min (y + h - 1) (2 ^ 16 - 1)) ∈ rectPixels x y w h :=
  (mem_rectPixels hy).mpr ⟨hX, min (y + h - 1) (2 ^ 16 - 1) - y, by omega, by omega⟩

/-- **A filled rectangle has to lie in the frame.** -/
theorem fill_rect_right_iff (hs : f.width ≤ f.stride) (hy : y < 2 ^ 16) (color : BitVec 32) :
    (∀ buffer, f.Draws (Rectangle x y w h) buffer (f.fill_rect buffer x y w color h)) ↔
      w = 0 ∨ h = 0 ∨ Inside f x y w h := by
  simp only [fill_rect_eq_run]
  rw [plotted_iff]
  constructor
  · intro hall
    rcases Nat.eq_zero_or_pos w with hw | hw
    · exact .inl hw
    rcases Nat.eq_zero_or_pos h with h0 | h0
    · exact .inr (.inl h0)
    have hheight := height_of_shared hs h0 (hall _ (last_mem_rectPixels hy h0 ⟨le_rfl, by omega⟩)).2
    have hlast := hall _ (last_mem_rectPixels (x := x) (w := w) (X := x + w - 1) hy h0 (by omega))
    have := f.height_lt
    rw [Nat.min_eq_left (by omega)] at hlast
    exact .inr (.inr ⟨width_of_shared hs h0 (fun X Y hXY => hXY.2.2) hlast.2, hheight, hlast.1⟩)
  · rintro hfits ⟨X, Y⟩ hp
    obtain ⟨hX, j, hj, rfl⟩ := (mem_rectPixels hy).mp hp
    obtain hi : Inside f x y w h := by
      rcases hfits with h | h | h
      · omega
      · omega
      · exact h
    have hrow : (y + j) % 2 ^ 16 = y + j := Nat.mod_eq_of_lt (by have := hi.2.1; have := f.height_lt; omega)
    rw [hrow]
    have hr : Rectangle x y w h X (y + j) := ⟨hX, by omega, by omega⟩
    exact shared_of_inside hi hr hr

/-- The four sides, as `rect` draws them. -/
def outlinePixels (x y w h : ℕ) : List (ℕ × ℕ) :=
  rectPixels x y w 1 ++ (rectPixels x (toUnsigned 16 (y + h - 1)) w 1 ++
    (rectPixels x y 1 h ++ rectPixels (toUnsigned 16 (x + w - 1)) y 1 h))

theorem rect_eq_run (buffer : f.Buffer) (x y w h : ℕ) (color : BitVec 32) :
    f.rect buffer x y w h color false = Machine.run (plot color) buffer (outlinePixels x y w h) := by
  unfold rect outlinePixels
  simp only [Bool.false_eq_true, if_false, fill_rect_eq_run, Machine.run_append, Option.bind_eq_bind]

/-- The last row or column of what lies in the frame. -/
theorem toUnsigned_last {a n m : ℕ} (hn : 0 < n) (h : a + n ≤ m) (hm : m < 2 ^ 16) :
    toUnsigned 16 ((a : ℤ) + n - 1) = a + n - 1 := by
  have hcast : (a : ℤ) + n - 1 = (a + n - 1 : ℕ) := by omega
  rw [hcast, CInt.toUnsigned_natCast, Nat.mod_eq_of_lt (by omega)]

theorem mem_outlinePixels (hy : y < 2 ^ 16) (hw : 0 < w) (h0 : 0 < h) (hi : Inside f x y w h) {X Y : ℕ} :
    (X, Y) ∈ outlinePixels x y w h ↔ Outline x y w h X Y := by
  obtain ⟨hwidth, hheight, _⟩ := hi
  have hrow := toUnsigned_last h0 hheight f.height_lt
  have hrow' : toUnsigned 16 ((y : ℤ) + h - 1) < 2 ^ 16 := CInt.toUnsigned_lt 16 _
  have hmod : ∀ j ≤ h, (y + j) % 2 ^ 16 = y + j := fun j hj =>
    Nat.mod_eq_of_lt (by have := f.height_lt; omega)
  have hrows : ∀ X', (X' ≤ X ∧ X < X' + 1) ∧ (∃ j < h, Y = (y + j) % 2 ^ 16) ↔
      X = X' ∧ y ≤ Y ∧ Y < y + h := by
    intro X'
    refine and_congr (by omega) ⟨?_, fun hY => ⟨Y - y, by omega, ?_⟩⟩
    · rintro ⟨j, hj, rfl⟩
      rw [hmod j hj.le]
      omega
    · rw [hmod _ (by omega)]
      omega
  have hside : ∀ y' < 2 ^ 16, (∃ j < 1, Y = (y' + j) % 2 ^ 16) ↔ Y = y' := by
    intro y' hy'
    constructor
    · rintro ⟨j, hj, rfl⟩
      omega
    · rintro rfl
      exact ⟨0, by omega, by omega⟩
  rw [outlinePixels, List.mem_append, List.mem_append, List.mem_append, mem_rectPixels hy, mem_rectPixels hrow',
    mem_rectPixels hy, mem_rectPixels hy, hrows, hrows, hside _ hy, hside _ hrow', hrow,
    toUnsigned_last hw hwidth f.width_lt, Outline, Rectangle]
  omega

/-- **So does an outline**, unless it has no sides at all. -/
theorem rect_right_iff (hs : f.width ≤ f.stride) (hy : y < 2 ^ 16) (color : BitVec 32) :
    (∀ buffer, f.Draws (Outline x y w h) buffer (f.rect buffer x y w h color false)) ↔
      (w = 0 ∧ h = 0) ∨ (0 < w ∧ 0 < h ∧ Inside f x y w h) := by
  simp only [rect_eq_run]
  rw [plotted_iff]
  constructor
  · intro hall
    have htop : ∀ p ∈ rectPixels x y w 1, _ := fun p hp => hall p (List.mem_append_left _ hp)
    have hleft : ∀ p ∈ rectPixels x y 1 h, _ := fun p hp =>
      hall p (List.mem_append_right _ (List.mem_append_right _ (List.mem_append_left _ hp)))
    rcases Nat.eq_zero_or_pos w with hw | hw
    · rcases Nat.eq_zero_or_pos h with h0 | h0
      · exact .inl ⟨hw, h0⟩
      · obtain ⟨_, X, Y, _, _, hXY, _⟩ := hleft _ (last_mem_rectPixels hy h0 ⟨le_rfl, by omega⟩)
        obtain ⟨⟨⟨h1, h2⟩, _⟩, _⟩ := hXY
        omega
    rcases Nat.eq_zero_or_pos h with h0 | h0
    · obtain ⟨_, X, Y, _, _, hXY, _⟩ := htop _ (last_mem_rectPixels hy Nat.one_pos ⟨le_rfl, by omega⟩)
      obtain ⟨⟨_, h1, h2⟩, _⟩ := hXY
      omega
    have hheight := height_of_shared hs h0 (hleft _ (last_mem_rectPixels hy h0 ⟨le_rfl, by omega⟩)).2
    have hrow := toUnsigned_last h0 hheight f.height_lt
    have hmem : (x + w - 1, y + h - 1) ∈ outlinePixels x y w h := by
      refine List.mem_append_right _ (List.mem_append_left _ ?_)
      rw [hrow, mem_rectPixels (by have := f.height_lt; omega)]
      exact ⟨by omega, 0, Nat.one_pos, (Nat.mod_eq_of_lt (by have := f.height_lt; omega)).symm⟩
    have hlast := hall _ hmem
    exact .inr ⟨hw, h0, width_of_shared hs h0 (fun X Y hXY => hXY.1.2.2) hlast.2, hheight, hlast.1⟩
  · rintro (⟨rfl, rfl⟩ | ⟨hw, h0, hi⟩)
    · have hnil : outlinePixels x y 0 0 = [] := rfl
      rw [hnil]
      exact fun p hp => absurd hp List.not_mem_nil
    · rintro ⟨X, Y⟩ hp
      have hout := (mem_outlinePixels hy hw h0 hi).mp hp
      exact shared_of_inside hi hout.1 hout

end Rectangles

/-! ### Clipped walks -/

/-- **A walk that clips has to have its pixels in the buffer.** -/
theorem clip_right_iff {l : List (ℕ × ℕ)} {shape : ℕ → ℕ → Prop} (hl : ∀ X Y, (X, Y) ∈ l ↔ shape X Y)
    (color : BitVec 32) :
    (∀ buffer, f.Draws shape buffer (Machine.run (clip color) buffer l)) ↔ Stored f shape := by
  simp only [run_clip]
  rw [plotted_iff]
  constructor
  · exact fun h X Y hX hY hXY => (h (X, Y) (mem_inFrame.mpr ⟨(hl X Y).mpr hXY, hX, hY⟩)).1
  · rintro h ⟨X, Y⟩ hp
    obtain ⟨hmem, hX, hY⟩ := mem_inFrame.mp hp
    have hXY := (hl X Y).mp hmem
    exact ⟨h X Y hX hY hXY, X, Y, hX, hY, hXY, rfl⟩

/-! ### Copies -/

/-- What may have changed so far. -/
def Kept (f : MonoVlsb) (shape : ℕ → ℕ → Prop) (buffer b : f.Buffer) : Prop :=
  ∀ k, k.2 < 8 → bit b k ≠ bit buffer k →
    ∃ x y, x < f.width ∧ y < f.height ∧ shape x y ∧ k = f.place (x, y)

theorem Kept.setpixel {shape : ℕ → ℕ → Prop} {buffer b : f.Buffer} {X Y : ℕ} (h : Kept f shape buffer b)
    (hX : X < f.width) (hY : Y < f.height) (hXY : shape X Y) (hlt : f.index X Y < f.size) (color : BitVec 32) :
    ∃ b', f.setpixel b X Y color = some b' ∧ Kept f shape buffer b' := by
  obtain ⟨b', hb', hbit⟩ := setpixel_of_lt b color hlt
  refine ⟨b', hb', fun k hk hne => ?_⟩
  by_cases hplace : k = f.place (X, Y)
  · exact ⟨X, Y, hX, hY, hXY, hplace⟩
  · rw [hbit k hk, if_neg hplace] at hne
    exact h k hk hne

/-- A coordinate inside a frame. -/
theorem toUnsigned_inside {z : ℤ} {n : ℕ} (h0 : 0 ≤ z) (h : z < n) (hn : n < 2 ^ 16) :
    toUnsigned 16 z = z.toNat := by
  obtain ⟨k, rfl⟩ := Int.eq_ofNat_of_zero_le h0
  rw [CInt.toUnsigned_natCast, Int.toNat_natCast]
  exact Nat.mod_eq_of_lt (by omega)

/-- The places that `scroll` and `blit` copy to. -/
theorem mem_grid_copied {source : MonoVlsb} {x y : ℤ} {xs ys : List ℤ}
    (hxs : ∀ p, p ∈ xs ↔ (0 ≤ p ∧ p < f.width) ∧ 0 ≤ p - x ∧ p - x < source.width)
    (hys : ∀ p, p ∈ ys ↔ (0 ≤ p ∧ p < f.height) ∧ 0 ≤ p - y ∧ p - y < source.height) (p : ℤ × ℤ) :
    p ∈ grid xs ys ↔
      ∃ X Y : ℕ, p = ((X : ℤ), (Y : ℤ)) ∧ X < f.width ∧ Y < f.height ∧ Copied source x y X Y := by
  obtain ⟨p1, p2⟩ := p
  rw [mem_grid, hxs, hys]
  unfold Copied
  constructor
  · rintro ⟨h1, h2⟩
    obtain ⟨X, rfl⟩ := Int.eq_ofNat_of_zero_le h1.1.1
    obtain ⟨Y, rfl⟩ := Int.eq_ofNat_of_zero_le h2.1.1
    exact ⟨X, Y, rfl, by omega, by omega, h1.2, h2.2⟩
  · rintro ⟨X, Y, hp, hX, hY, h1, h2⟩
    obtain ⟨rfl, rfl⟩ := Prod.mk.inj hp
    omega

/-- The walk of `scroll`. -/
theorem mem_scrollGrid {xstep ystep : ℤ} (p : ℤ × ℤ) :
    p ∈ grid (spanPlaces f.width xstep) (spanPlaces f.height ystep) ↔
      ∃ X Y : ℕ, p = ((X : ℤ), (Y : ℤ)) ∧ X < f.width ∧ Y < f.height ∧ Copied f xstep ystep X Y :=
  mem_grid_copied (fun _ => mem_spanPlaces) (fun _ => mem_spanPlaces) p

/-- The walk of `blit`. -/
theorem mem_blitGrid {source : MonoVlsb} {x y : ℤ} (p : ℤ × ℤ) :
    p ∈ grid (blitPlaces f.width source.width x) (blitPlaces f.height source.height y) ↔
      ∃ X Y : ℕ, p = ((X : ℤ), (Y : ℤ)) ∧ X < f.width ∧ Y < f.height ∧ Copied source x y X Y :=
  mem_grid_copied (fun _ => mem_blitPlaces) (fun _ => mem_blitPlaces) p

/-- A place and its source are coordinates of their frames. -/
theorem toUnsigned_copied {source : MonoVlsb} {x y : ℤ} {X Y : ℕ} (hX : X < f.width) (hY : Y < f.height)
    (h : Copied source x y X Y) :
    toUnsigned 16 ((X : ℤ) - x) = ((X : ℤ) - x).toNat ∧ toUnsigned 16 ((Y : ℤ) - y) = ((Y : ℤ) - y).toNat ∧
      toUnsigned 16 (X : ℤ) = X ∧ toUnsigned 16 (Y : ℤ) = Y :=
  ⟨toUnsigned_inside h.1.1 h.1.2 source.width_lt, toUnsigned_inside h.2.1 h.2.2 source.height_lt,
    toUnsigned_inside (Int.natCast_nonneg X) (by omega) f.width_lt,
    toUnsigned_inside (Int.natCast_nonneg Y) (by omega) f.height_lt⟩

/-- A place that `scroll` copies to, in coordinates of the frame. -/
theorem scrollPixel_eq {xstep ystep : ℤ} {X Y : ℕ} (hX : X < f.width) (hY : Y < f.height)
    (h : Copied f xstep ystep X Y) (buffer : f.Buffer) :
    f.scrollPixel xstep ystep buffer (X, Y) =
      (f.getpixel buffer ((X : ℤ) - xstep).toNat ((Y : ℤ) - ystep).toNat).bind fun color =>
        f.setpixel buffer X Y color := by
  obtain ⟨h1, h2, h3, h4⟩ := toUnsigned_copied hX hY h
  rw [scrollPixel, h1, h2, h3, h4]

/-- **`scroll` has to have its places and their sources in the buffer.** -/
theorem scroll_right_iff (xstep ystep : ℤ) :
    (∀ buffer, f.Draws (Copied f xstep ystep) buffer (f.scroll buffer xstep ystep)) ↔
      Stored f (Copied f xstep ystep) ∧ SourceStored f f xstep ystep := by
  simp only [scroll_eq_run]
  constructor
  · intro h
    obtain ⟨b, hb, _⟩ := h f.zeros
    have hplace : ∀ X Y : ℕ, X < f.width → Y < f.height → Copied f xstep ystep X Y →
        f.index X Y < f.size ∧ f.index ((X : ℤ) - xstep).toNat ((Y : ℤ) - ystep).toNat < f.size := by
      intro X Y hX hY hXY
      obtain ⟨u, v, _, huv⟩ := Machine.step_of_run (J := fun _ => True) _ (fun _ _ _ _ _ => trivial) trivial hb
        ((X : ℤ), (Y : ℤ)) ((mem_scrollGrid _).mpr ⟨X, Y, rfl, hX, hY, hXY⟩)
      rw [scrollPixel_eq hX hY hXY, Option.bind_eq_some_iff] at huv
      obtain ⟨color, hget, hset⟩ := huv
      exact ⟨setpixel_isSome_iff.mp (Option.isSome_of_eq_some hset),
        getpixel_isSome_iff.mp (Option.isSome_of_eq_some hget)⟩
    exact ⟨fun X Y hX hY hXY => (hplace X Y hX hY hXY).1, fun X Y hX hY hXY => (hplace X Y hX hY hXY).2⟩
  · rintro ⟨hstored, hsource⟩ buffer
    obtain ⟨b, hb, hkept⟩ := Machine.run_of_mem (J := Kept f (Copied f xstep ystep) buffer)
      (f.scrollPixel xstep ystep) (grid (spanPlaces f.width xstep) (spanPlaces f.height ystep))
      (fun u p hp hu => by
        obtain ⟨X, Y, rfl, hX, hY, hXY⟩ := (mem_scrollGrid p).mp hp
        rw [scrollPixel_eq hX hY hXY, getpixel_of_lt u (hsource X Y hX hY hXY), Option.bind_some]
        exact hu.setpixel hX hY hXY (hstored X Y hX hY hXY) _)
      (s := buffer) (fun k _ hne => absurd rfl hne)
    exact ⟨b, hb, hkept⟩

/-- All pixels alike. -/
def uniforms (F : ι → MonoVlsb) (v : Bool) : Buffers F := fun j => (F j).uniform v

/-- Where all pixels are alike, `blit` changes none, and reads and writes what it has to. -/
theorem blitAt_uniforms {v : Bool} {i source : ι} {x y : ℤ} {key : BitVec 32} {palette : Option ι} {p : ℤ × ℤ}
    {t : Buffers F} (h : blitAt F i source x y key palette (uniforms F v) p = some t) :
    t = uniforms F v ∧
      (F source).index (toUnsigned 16 (p.1 - x)) (toUnsigned 16 (p.2 - y)) < (F source).size ∧
      (∀ p ∈ palette, (F p).index (if v then 1 else 0) 0 < (F p).size) ∧
      ((if v then 1 else 0 : BitVec 32) ≠ key →
        (F i).index (toUnsigned 16 p.1) (toUnsigned 16 p.2) < (F i).size) := by
  rw [blitAt, blitPixel, Option.bind_eq_some_iff] at h
  obtain ⟨col, hcol, h⟩ := h
  obtain ⟨hsource, rfl⟩ := getpixel_uniform hcol
  rw [Option.bind_eq_some_iff] at h
  obtain ⟨col, hmapped, h⟩ := h
  have hpalette : col = (if v then 1 else 0) ∧ ∀ p ∈ palette, (F p).index (if v then 1 else 0) 0 < (F p).size := by
    rcases palette with _ | p
    · exact ⟨(Option.some.inj hmapped).symm, fun p hp => absurd hp (Option.not_mem_none p)⟩
    · obtain ⟨hlt, hc⟩ := getpixel_uniform hmapped
      refine ⟨hc, fun p' hp' => ?_⟩
      obtain rfl : p = p' := Option.some.inj hp'
      cases v <;> exact hlt
  obtain ⟨rfl, hpalette⟩ := hpalette
  by_cases hkey : (if v then 1 else 0 : BitVec 32) ≠ key
  · rw [if_pos hkey, Option.map_eq_some_iff] at h
    obtain ⟨b, hb, rfl⟩ := h
    obtain ⟨hlt, rfl⟩ := setpixel_uniform hb
    exact ⟨Function.update_eq_self i (uniforms F v), hsource, hpalette, fun _ => hlt⟩
  · rw [if_neg hkey, Option.some.injEq] at h
    exact ⟨h.symm, hsource, hpalette, fun h' => absurd h' hkey⟩

/-- A pixel copied where all three lie in their buffers. -/
theorem blitAt_kept {i source : ι} {x y : ℤ} {key : BitVec 32} {palette : Option ι} {s u : Buffers F} {X Y : ℕ}
    (hX : X < (F i).width) (hY : Y < (F i).height) (hXY : Copied (F source) x y X Y)
    (hlt : (F i).index X Y < (F i).size)
    (hsource : (F source).index ((X : ℤ) - x).toNat ((Y : ℤ) - y).toNat < (F source).size)
    (hpalette : ∀ p ∈ palette, (F p).index 1 0 < (F p).size) (hothers : ∀ j ≠ i, u j = s j)
    (hkept : Kept (F i) (Copied (F source) x y) (s i) (u i)) :
    ∃ t, blitAt F i source x y key palette u (X, Y) = some t ∧ (∀ j ≠ i, t j = s j) ∧
      Kept (F i) (Copied (F source) x y) (s i) (t i) := by
  obtain ⟨h1, h2, h3, h4⟩ := toUnsigned_copied hX hY hXY
  obtain ⟨col, hcol⟩ := mapped_isSome hpalette u
    (bit (u source) ((F source).place (((X : ℤ) - x).toNat, ((Y : ℤ) - y).toNat)))
  rw [blitAt, blitPixel, h1, h2, h3, h4, getpixel_of_lt _ hsource, Option.bind_some, hcol, Option.bind_some]
  by_cases hkey : col ≠ key
  · obtain ⟨b, hb, hkept'⟩ := hkept.setpixel hX hY hXY hlt col
    rw [if_pos hkey, hb, Option.map_some]
    refine ⟨_, rfl, fun j hj => ?_, ?_⟩
    · rw [Function.update_of_ne hj]
      exact hothers j hj
    · rw [Function.update_self]
      exact hkept'
  · rw [if_neg hkey]
    exact ⟨u, rfl, hothers, hkept⟩

/-- **So does `blit`**, and its palette has to have two pixels. -/
theorem blit_right_iff (i source : ι) (x y : BitVec 16) (key : BitVec 32) (palette : Option ι) :
    (∀ s, Right F s ⟨i, .blit source x y key palette⟩) ↔ Fits F ⟨i, .blit source x y key palette⟩ := by
  constructor
  · intro h
    have huniform : ∀ (v : Bool) (X Y : ℕ), X < (F i).width → Y < (F i).height →
        Copied (F source) x.toInt y.toInt X Y →
        (F source).index ((X : ℤ) - x.toInt).toNat ((Y : ℤ) - y.toInt).toNat < (F source).size ∧
          (∀ p ∈ palette, (F p).index (if v then 1 else 0) 0 < (F p).size) ∧
          ((if v then 1 else 0 : BitVec 32) ≠ key → (F i).index X Y < (F i).size) := by
      intro v X Y hX hY hXY
      obtain ⟨t, ht, _⟩ := h (uniforms F v)
      rw [step, blit_eq_run] at ht
      obtain ⟨u, w, rfl, huw⟩ := Machine.step_of_run (J := fun u => u = uniforms F v) _
        (fun u p w hu hw => (blitAt_uniforms (hu ▸ hw)).1) rfl ht _ ((mem_blitGrid _).mpr ⟨X, Y, rfl, hX, hY, hXY⟩)
      obtain ⟨h1, h2, h3, h4⟩ := toUnsigned_copied hX hY hXY
      have hall := (blitAt_uniforms huw).2
      rwa [h1, h2, h3, h4] at hall
    refine ⟨fun X Y hX hY hXY => ?_, fun X Y hX hY hXY => (huniform true X Y hX hY hXY).1, ?_⟩
    · -- the key is not both colors
      by_cases hkey : (1 : BitVec 32) ≠ key
      · exact (huniform true X Y hX hY hXY).2.2 hkey
      · refine (huniform false X Y hX hY hXY).2.2 ?_
        rintro rfl
        exact hkey (by decide)
    · rintro p hp ⟨X, Y, hX, hY, hXY⟩
      exact (huniform true X Y hX hY hXY).2.1 p hp
  · rintro ⟨hstored, hsource, hpalette⟩ s
    obtain ⟨t, ht, hothers, hkept⟩ := Machine.run_of_mem
      (J := fun t : Buffers F => (∀ j ≠ i, t j = s j) ∧
        Kept (F i) (Copied (F source) x.toInt y.toInt) (s i) (t i))
      (blitAt F i source x.toInt y.toInt key palette)
      (grid (blitPlaces (F i).width (F source).width x.toInt) (blitPlaces (F i).height (F source).height y.toInt))
      (fun u p hp hu => by
        obtain ⟨X, Y, rfl, hX, hY, hXY⟩ := (mem_blitGrid p).mp hp
        exact blitAt_kept hX hY hXY (hstored X Y hX hY hXY) (hsource X Y hX hY hXY)
          (fun p hp => hpalette p hp ⟨X, Y, hX, hY, hXY⟩) hu.1 hu.2)
      (s := s) ⟨fun _ _ => rfl, fun k _ hne => absurd rfl hne⟩
    exact ⟨t, by rw [step, blit_eq_run, ht], hothers, hkept⟩

/-! ### Rows without a gap -/

section Packed

variable (hf : f.stride = f.width)
include hf

theorem stored_of_packed (shape : ℕ → ℕ → Prop) : Stored f shape := fun _ _ hX hY _ => index_lt_size hf hX hY

theorem sourceStored_of_packed (g : MonoVlsb) (x y : ℤ) : SourceStored g f x y := by
  intro X Y _ _ hXY
  obtain ⟨⟨hx, hx'⟩, hy, hy'⟩ := hXY
  exact index_lt_size hf (by omega) (by omega)

theorem inside_of_packed {x y w h : ℕ} (hw : 0 < w) (h0 : 0 < h) :
    Inside f x y w h ↔ x + w ≤ f.width ∧ y + h ≤ f.height := by
  constructor
  · exact fun hi => ⟨hi.1, hi.2.1⟩
  · exact fun hi => ⟨hi.1, hi.2, index_lt_size hf (by omega) (by omega)⟩

end Packed

/-! ### Calls -/

/-- What a call does to its buffer is right whatever the other buffers hold. -/
theorem right_iff_draws {i : ι} {call : Call ι} {r : (F i).Buffer → Option (F i).Buffer}
    (hstep : ∀ s, step F s ⟨i, call⟩ = (r (s i)).map (Function.update s i)) :
    (∀ s, Right F s ⟨i, call⟩) ↔ ∀ buffer, (F i).Draws (Shape F i call) buffer (r buffer) := by
  constructor
  · intro h buffer
    obtain ⟨t, ht, _, hkept⟩ := h (Function.update (fun j => (F j).zeros) i buffer)
    rw [hstep, Function.update_self, Option.map_eq_some_iff] at ht
    obtain ⟨b, hb, rfl⟩ := ht
    rw [Function.update_self, Function.update_self] at hkept
    exact ⟨b, hb, hkept⟩
  · intro h s
    obtain ⟨b, hb, hkept⟩ := h (s i)
    refine ⟨Function.update s i b, by rw [hstep, hb, Option.map_some], fun j hj => ?_, ?_⟩
    · exact Function.update_of_ne hj b s
    · rw [Function.update_self]
      exact hkept

/-- **A call is right on every content exactly if it fits.** -/
theorem right_iff_fits (hs : ∀ i, (F i).width ≤ (F i).stride) (d : Drawing ι) :
    (∀ s, Right F s d) ↔ Fits F d := by
  obtain ⟨i, call⟩ := d
  have hy : (0 : ℕ) < 2 ^ 16 := by decide
  cases call with
  | fill color => exact (right_iff_draws fun _ => rfl).trans (fill_rect_right_iff (hs i) hy color)
  | hline x y w color =>
    refine (right_iff_draws fun _ => rfl).trans ((fill_rect_right_iff (hs i) y.isLt color).trans ?_)
    exact or_congr_right (or_iff_right Nat.one_ne_zero)
  | vline x y h color =>
    refine (right_iff_draws fun _ => rfl).trans ((fill_rect_right_iff (hs i) y.isLt color).trans ?_)
    exact or_iff_right Nat.one_ne_zero
  | rect x y w h color fill =>
    cases fill with
    | true => exact (right_iff_draws fun _ => rfl).trans (fill_rect_right_iff (hs i) y.isLt color)
    | false => exact (right_iff_draws fun _ => rfl).trans (rect_right_iff (hs i) y.isLt color)
  | line x1 y1 x2 y2 color =>
    refine (right_iff_draws fun _ => ?_).trans (clip_right_iff (fun X Y => Iff.rfl) color)
    rw [← line_eq_run x1.isLt y1.isLt x2.isLt y2.isLt]
    rfl
  | text str x y color =>
    refine (right_iff_draws fun _ => ?_).trans (clip_right_iff (fun X Y => mem_textPixels x.isLt) color)
    rw [← text_eq_run y.toNat str x.toNat _ x.isLt]
    rfl
  | scroll xstep ystep =>
    exact (right_iff_draws fun _ => rfl).trans (scroll_right_iff xstep.toInt ystep.toInt)
  | blit source x y key palette => exact blit_right_iff i source x y key palette

/-- What is in front of the pixels stays. -/
theorem Right.front {s : Buffers F} {d : Drawing ι} {t : Buffers F} (h : Right F s d) (ht : step F s d = some t)
    (i : ι) {k : ℕ} (hk : k < (F i).buffer_offset) : (t i)[k]? = (s i)[k]? := by
  obtain ⟨t', ht', hothers, hkept⟩ := h
  obtain rfl : t' = t := Option.some.inj (ht'.symm.trans ht)
  by_cases hi : i = d.on
  · subst hi
    refine getElem?_eq_of_bit fun b hb => ?_
    by_contra hne
    obtain ⟨x, y, _, _, _, hplace⟩ := hkept (k, b) hb hne
    have hindex : k = (F d.on).index x y := congrArg Prod.fst hplace
    have := buffer_offset_le_index (f := F d.on) x y
    omega
  · rw [hothers i hi]

theorem Constructed.width_le {buffer : f.Buffer} (h : Constructed f buffer) : f.width ≤ f.stride := by
  have hmake : ∀ width height stride buf_offset : BitVec 16, stride = 0 ∨ width ≤ stride →
      (make width height stride buf_offset).width ≤ (make width height stride buf_offset).stride := by
    intro width height stride buf_offset h
    show width.toNat ≤ if stride = 0 then width.toNat else stride.toNat
    split
    · exact le_rfl
    · exact h.resolve_left ‹_›
  cases h with
  | mono_vlsb width height stride buf_offset h => exact hmake _ _ _ _ h
  | image image width height stride buf_offset fresh h => exact hmake _ _ _ _ h
  | ssd1306 width height => exact hmake _ _ _ _ (.inr (BitVec.le_refl width))

/-- **Drawing on what the constructors make.** Sequences of calls that fit leave what is in
front of the pixels as it was constructed; and a call does right, whatever
the buffers hold, exactly if it fits. -/
theorem drawings_right_iff {s₀ s : Buffers F} (h₀ : ∀ i, Constructed (F i) (s₀ i))
    (h : Machine.Reach (step F) (· = s₀) (fun _ d => Fits F d) s) :
    (∀ i k, k < (F i).buffer_offset → (s i)[k]? = (s₀ i)[k]?) ∧
      ∀ d, (∀ buffers, Right F buffers d) ↔ Fits F d := by
  have hs : ∀ i, (F i).width ≤ (F i).stride := fun i => (h₀ i).width_le
  refine ⟨?_, right_iff_fits hs⟩
  refine h.invariant (J := fun s => ∀ i k, k < (F i).buffer_offset → (s i)[k]? = (s₀ i)[k]?) ?_ ?_
  · rintro s rfl i k _
    rfl
  · intro s d t hJ hd ht i k hk
    have hright := (right_iff_fits hs d).mpr hd s
    rw [hright.front ht i hk, hJ i k hk]

/-- The display of the board, and what is on it after its construction. -/
def board (_ : Unit) : MonoVlsb := makeSsd1306 128 64

def blank : Buffers board := fun _ => controlled _ (zeros _)

/-- After a line across its last row the control byte is there. -/
theorem drawings_right_hline : ∃ s : Buffers board, step board blank ⟨(), .hline 0 63 128 1⟩ = some s ∧
    (s ())[0]? = some 0x40 := by
  have hfits : Fits board ⟨(), .hline 0 63 128 1⟩ := .inr ⟨by decide, by decide, by decide⟩
  obtain ⟨s, hs, _⟩ := (right_iff_fits (fun _ => (Constructed.ssd1306 128 64).width_le) _).mpr hfits blank
  have hreach : Machine.Reach (step board) (· = blank) (fun _ d => Fits board d) s :=
    .step (.init rfl) hfits hs
  have hfront := (drawings_right_iff (fun _ => .ssd1306 128 64) hreach).1 () 0 (by decide)
  exact ⟨s, hs, hfront.trans (getElem?_controlled (zeros _) (by decide))⟩

/-- Of two pixels from the display's last one on, the second is behind the buffer. -/
theorem hline_past_buffer : (∀ i, Constructed (board i) (blank i)) ∧
    ¬ Right board blank ⟨(), .hline 127 63 2 1⟩ := by
  refine ⟨fun _ => .ssd1306 128 64, ?_⟩
  rintro ⟨t, ht, _⟩
  have hstep : step board blank ⟨(), .hline 127 63 2 1⟩ =
      ((board ()).fill_rect (blank ()) 127 63 2 1 1).map (Function.update blank ()) := rfl
  rw [hstep, fill_rect_eq_run, Option.map_eq_some_iff] at ht
  obtain ⟨b, hb, _⟩ := ht
  have hlt := index_lt_of_run hb (128, 63) (by decide)
  exact absurd hlt (by decide)

end MonoVlsb
end Ventilation
