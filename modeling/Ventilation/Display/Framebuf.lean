/-
# The drawing functions (src/display/framebuf.cpp)

`fill`, `hline`, `vline` and `rect` fill rectangles as they are given; `line`, `text`,
`blit` and `scroll` clip to the frame. Each is a walk over a list of pixels:
the points of the line (`line_eq_run`), the pixels of the characters
(`text_eq_run`), and what is copied by `blit` and `scroll` (`blit_eq_run`, `scroll_eq_run`).
-/
import Mathlib.Logic.Function.Basic
import Ventilation.Display.Font
import Ventilation.Display.MonoVlsb
import Ventilation.Lib.CInt

namespace Ventilation
namespace MonoVlsb

open CInt (toUnsigned)

variable (f : MonoVlsb)

/-! ### Rectangles -/

def hline (buffer : f.Buffer) (x y w : ℕ) (color : BitVec 32) : Option f.Buffer :=
  f.fill_rect buffer x y w color 1

def vline (buffer : f.Buffer) (x y h : ℕ) (color : BitVec 32) : Option f.Buffer :=
  f.fill_rect buffer x y 1 color h

/-- Filled, or its four sides. -/
def rect (buffer : f.Buffer) (x y w h : ℕ) (color : BitVec 32) (fill : Bool) : Option f.Buffer :=
  if fill then f.fill_rect buffer x y w color h
  else do
    let buffer ← f.fill_rect buffer x y w color 1
    let buffer ← f.fill_rect buffer x (toUnsigned 16 (y + h - 1)) w color 1
    let buffer ← f.fill_rect buffer x y 1 color h
    f.fill_rect buffer (toUnsigned 16 (x + w - 1)) y 1 color h

def fill (buffer : f.Buffer) (color : BitVec 32) : Option f.Buffer :=
  f.fill_rect buffer 0 0 f.width color f.height

/-! ### Lines -/

/-- The guard around `setpixel`. -/
def clipped (buffer : f.Buffer) (x y : ℕ) (color : BitVec 32) : Option f.Buffer :=
  if x < f.width ∧ y < f.height then f.setpixel buffer x y color else some buffer

/-- `while (e >= 0)`. The error term falls by `2 * dx` in every round. -/
def overshoot (dx sy : ℤ) : (fuel : ℕ) → (y1 : ℕ) → (e : ℤ) → ℕ × ℤ
  | 0, y1, e => (y1, e)
  | fuel + 1, y1, e =>
    if e ≥ 0 then overshoot dx sy fuel (toUnsigned 16 (y1 + sy)) (e - 2 * dx) else (y1, e)

/-- The loop over the longer axis, with the rounds that are left. -/
def lineLoop (steep : Bool) (dx dy sx sy : ℤ) (color : BitVec 32) :
    (rounds : ℕ) → (x1 y1 : ℕ) → (e : ℤ) → f.Buffer → Option f.Buffer
  | 0, _, _, _, buffer => some buffer
  | rounds + 1, x1, y1, e, buffer =>
    (if steep then f.clipped buffer y1 x1 color else f.clipped buffer x1 y1 color).bind fun buffer =>
      let (y1, e) := overshoot dx sy (e.toNat + 1) y1 e
      lineLoop steep dx dy sx sy color rounds (toUnsigned 16 (x1 + sx)) y1 (e + 2 * dy) buffer

/-- The axes are swapped where the line is steep. -/
def line (buffer : f.Buffer) (x1 y1 x2 y2 : ℕ) (color : BitVec 32) : Option f.Buffer :=
  let dx : ℤ := x2 - x1
  let sx : ℤ := if dx > 0 then 1 else -1
  let dx := if dx > 0 then dx else -dx
  let dy : ℤ := y2 - y1
  let sy : ℤ := if dy > 0 then 1 else -1
  let dy := if dy > 0 then dy else -dy
  let drawn :=
    if dy > dx then f.lineLoop true dy dx sy sx color dy.toNat y1 x1 (2 * dx - dy) buffer
    else f.lineLoop false dx dy sx sy color dx.toNat x1 y1 (2 * dy - dx) buffer
  drawn.bind fun buffer => f.clipped buffer x2 y2 color

/-! ### Texts -/

/-- One column of a character, down to its last pixel; eight shifts leave nothing of a byte. -/
def textColumn (x : ℕ) (color : BitVec 32) :
    (fuel : ℕ) → (vline_data : Byte) → (y1 : ℕ) → f.Buffer → Option f.Buffer
  | 0, _, _, buffer => some buffer
  | fuel + 1, vline_data, y1, buffer =>
    if vline_data = 0 then some buffer
    else
      (if vline_data.getLsbD 0 ∧ y1 < f.height then f.setpixel buffer x y1 color else some buffer).bind
        fun buffer => textColumn x color fuel (vline_data >>> 1) (y1 + 1) buffer

/-- The columns of a character, with where the next one starts. -/
def textColumns (y : ℕ) (color : BitVec 32) : (chr_data : List Byte) → (x : ℕ) → f.Buffer →
    Option (ℕ × f.Buffer)
  | [], x, buffer => some (x, buffer)
  | data :: chr_data, x, buffer =>
    (if x < f.width then f.textColumn x color 8 data y buffer else some buffer).bind fun buffer =>
      textColumns y color chr_data ((x + 1) % 2 ^ 16) buffer

/-- A text up to its NUL, or all the bytes before the one that ends it. -/
def text (y : ℕ) (color : BitVec 32) : (str : List Byte) → (x : ℕ) → f.Buffer → Option f.Buffer
  | [], _, buffer => some buffer
  | c :: str, x, buffer =>
    if c = 0 then some buffer
    else (f.textColumns y color (chrData c) x buffer).bind fun (x, buffer) => text y color str x buffer

/-! ### Scrolling -/

/-- Along one axis: where the loop starts and ends and which way it goes, if
the function does not return before. -/
def scrollSpan (length : ℕ) (step : ℤ) : Option (ℤ × ℤ × ℤ) :=
  if step < 0 then
    let e := length + step
    if e ≤ 0 then none else some (0, e, 1)
  else
    let s := (length : ℤ) - 1
    let e := step - 1
    if e ≥ s then none else some (s, e, -1)

/-- `setpixel(x, y, getpixel(x - xstep, y - ystep))`. -/
def scrollPixel (xstep ystep : ℤ) (buffer : f.Buffer) (p : ℤ × ℤ) : Option f.Buffer :=
  (f.getpixel buffer (toUnsigned 16 (p.1 - xstep)) (toUnsigned 16 (p.2 - ystep))).bind fun color =>
    f.setpixel buffer (toUnsigned 16 p.1) (toUnsigned 16 p.2) color

/-- `for (...; i != end; i += d)`, which fails where the end is not met in that many rounds. -/
def untilEnd {σ : Type} (body : ℤ → σ → Option σ) (e d : ℤ) : (rounds : ℕ) → (i : ℤ) → σ → Option σ
  | 0, i, s => if i = e then some s else none
  | rounds + 1, i, s =>
    if i = e then some s else (body i s).bind fun s => untilEnd body e d rounds (i + d) s

def scroll (buffer : f.Buffer) (xstep ystep : ℤ) : Option f.Buffer :=
  match scrollSpan f.width xstep with
  | none => some buffer
  | some (sx, xend, dx) =>
    match scrollSpan f.height ystep with
    | none => some buffer
    | some (sy, yend, dy) =>
      untilEnd (fun y buffer => untilEnd (fun x buffer => f.scrollPixel xstep ystep buffer (x, y))
        xend dx (xend - sx).natAbs sx buffer) yend dy (yend - sy).natAbs sy buffer

/-! ### Copying -/

variable {ι : Type} [DecidableEq ι] (F : ι → MonoVlsb)

/-- The buffers of all frames. -/
abbrev Buffers : Type := ∀ i, (F i).Buffer

/-- What the palette has for a pixel of the source, if there is a palette. -/
def mapped (palette : Option ι) (s : Buffers F) (col : BitVec 32) : Option (BitVec 32) :=
  match palette with
  | none => some col
  | some p => (F p).getpixel (s p) (col.toNat % 2 ^ 16) 0

/-- A pixel of the source, unless it is the key. -/
def blitPixel (i source : ι) (key : BitVec 32) (palette : Option ι) (s : Buffers F) (cx0 y0 cx1 y1 : ℤ) :
    Option (Buffers F) :=
  ((F source).getpixel (s source) (toUnsigned 16 cx1) (toUnsigned 16 y1)).bind fun col =>
    (mapped F palette s col).bind fun col =>
      if col ≠ key then
        ((F i).setpixel (s i) (toUnsigned 16 cx0) (toUnsigned 16 y0) col).map (Function.update s i)
      else some s

/-- The inner loop, with the rounds that are left. -/
def blitRow (i source : ι) (key : BitVec 32) (palette : Option ι) (y0 y1 : ℤ) :
    (rounds : ℕ) → (cx0 cx1 : ℤ) → Buffers F → Option (Buffers F)
  | 0, _, _, s => some s
  | rounds + 1, cx0, cx1, s => (blitPixel F i source key palette s cx0 y0 cx1 y1).bind fun s =>
      blitRow i source key palette y0 y1 rounds (cx0 + 1) (cx1 + 1) s

def blitRows (i source : ι) (key : BitVec 32) (palette : Option ι) (x0 x1 x0end : ℤ) :
    (rounds : ℕ) → (y0 y1 : ℤ) → Buffers F → Option (Buffers F)
  | 0, _, _, s => some s
  | rounds + 1, y0, y1, s =>
    (blitRow F i source key palette y0 y1 (x0end - x0).toNat x0 x1 s).bind fun s =>
      blitRows i source key palette x0 x1 x0end rounds (y0 + 1) (y1 + 1) s

/-- Into frame `i`; source and palette may be the same frame. -/
def blit (s : Buffers F) (i source : ι) (x y : ℤ) (key : BitVec 32) (palette : Option ι) :
    Option (Buffers F) :=
  if x ≥ (F i).width ∨ y ≥ (F i).height ∨ -x ≥ (F source).width ∨ -y ≥ (F source).height then some s
  else
    let x0 := max 0 x
    let y0 := max 0 y
    let x1 := max 0 (-x)
    let y1 := max 0 (-y)
    let x0end := min ((F i).width : ℤ) (x + (F source).width)
    let y0end := min ((F i).height : ℤ) (y + (F source).height)
    blitRows F i source key palette x0 x1 x0end (y0end - y0).toNat y0 y1 s

end MonoVlsb
end Ventilation
