/-
# What scrolling and copying leave in the frame

`scroll` copies inside one buffer. Its loops run so that no pixel is overwritten
before it has been read (`spanPlaces_pairwise`), and so it has the effect of a
copy from the picture before it (`scroll_right`). `blit` copies from another frame, if
need be through a palette; with a palette that has two pixels and is not
the destination it does what it should, and all its accesses are
inside their frames (`blit_right`), which `blitIn` says by checking each.
-/
import Ventilation.Display.Painting
import Ventilation.Lib.Picture

namespace Ventilation
namespace MonoVlsb

open CInt (toUnsigned)

variable {f : MonoVlsb}

/-- The frame shows a picture. -/
def Shows (f : MonoVlsb) (b : f.Buffer) (picture : ℤ × ℤ → Bool) : Prop :=
  ∀ X Y : ℕ, X < f.width → Y < f.height → f.getpixel b X Y = some (if picture (X, Y) then 1 else 0)

/-- The picture in a buffer. -/
def picture (f : MonoVlsb) (b : f.Buffer) (p : ℤ × ℤ) : Bool := bit b (f.place (p.1.toNat, p.2.toNat))

instance (f : MonoVlsb) (x y : ℤ) (X Y : ℕ) : Decidable (Copied f x y X Y) :=
  inferInstanceAs (Decidable ((_ ∧ _) ∧ _ ∧ _))

theorem shows_picture (hf : f.Whole) (b : f.Buffer) : f.Shows b (f.picture b) :=
  fun _ _ hX hY => getpixel_of_lt b (hf.stored hX hY)

theorem Shows.setpixel (hf : f.Whole) {b : f.Buffer} {picture : ℤ × ℤ → Bool} (h : f.Shows b picture) {X Y : ℕ}
    (hX : X < f.width) (hY : Y < f.height) (color : BitVec 32) :
    ∃ b', f.setpixel b X Y color = some b' ∧
      f.Shows b' (Function.update picture ((X : ℤ), (Y : ℤ)) (decide (color ≠ 0))) := by
  obtain ⟨b', hb', hbit⟩ := setpixel_of_lt b color (hf.stored hX hY)
  refine ⟨b', hb', fun x y hx hy => ?_⟩
  have hlt := hf.stored hx hy
  rw [getpixel_of_lt b' hlt, hbit _ (Nat.mod_lt _ (by decide))]
  by_cases hp : f.place (x, y) = f.place (X, Y)
  · obtain ⟨rfl, rfl⟩ := hf.place_inj hx hX hp
    simp
  · have hne : ((x : ℤ), (y : ℤ)) ≠ ((X : ℤ), (Y : ℤ)) := by
      intro h'
      obtain ⟨h1, h2⟩ := Prod.mk.inj h'
      rw [Nat.cast_inj.mp h1, Nat.cast_inj.mp h2] at hp
      exact hp rfl
    rw [if_neg hp, ← getpixel_of_lt b hlt, h x y hx hy, Function.update_of_ne hne]

/-- A coordinate of a source. -/
theorem Copied.source {x y : ℤ} {X Y : ℕ} (h : Copied f x y X Y) :
    (((X : ℤ) - x).toNat < f.width ∧ (((X : ℤ) - x).toNat : ℤ) = X - x) ∧
      ((Y : ℤ) - y).toNat < f.height ∧ (((Y : ℤ) - y).toNat : ℤ) = Y - y := by
  obtain ⟨h1, h2⟩ := h
  omega

/-- Whether a pixel is one of those copied to. -/
theorem mem_copied_iff {source : MonoVlsb} {x y : ℤ} {l : List (ℤ × ℤ)}
    (hl : ∀ p, p ∈ l ↔ ∃ X Y : ℕ, p = ((X : ℤ), (Y : ℤ)) ∧ X < f.width ∧ Y < f.height ∧ Copied source x y X Y)
    {X Y : ℕ} (hX : X < f.width) (hY : Y < f.height) : ((X : ℤ), (Y : ℤ)) ∈ l ↔ Copied source x y X Y := by
  rw [hl]
  constructor
  · rintro ⟨X', Y', heq, -, -, hXY⟩
    obtain ⟨h1, h2⟩ := Prod.mk.inj heq
    rwa [Nat.cast_inj.mp h1, Nat.cast_inj.mp h2]
  · exact fun hXY => ⟨X, Y, rfl, hX, hY, hXY⟩

/-! ### Scrolling -/

theorem along_up_pairwise (i : ℤ) (n : ℕ) : (along i 1 n).Pairwise (· < ·) := by
  induction n generalizing i with
  | zero => exact List.Pairwise.nil
  | succ n ih =>
    refine List.pairwise_cons.mpr ⟨fun x hx => ?_, ih (i + 1)⟩
    have := mem_along_up.mp hx
    omega

theorem along_down_pairwise (i : ℤ) (n : ℕ) : (along i (-1) n).Pairwise (· > ·) := by
  induction n generalizing i with
  | zero => exact List.Pairwise.nil
  | succ n ih =>
    refine List.pairwise_cons.mpr ⟨fun x hx => ?_, ih (i + -1)⟩
    have := mem_along_down.mp hx
    omega

/-- Along one axis, no place is the source of a later one. -/
theorem spanPlaces_pairwise (length : ℕ) (step : ℤ) : (spanPlaces length step).Pairwise fun a b => b - step ≠ a := by
  unfold spanPlaces
  rcases h : scrollSpan length step with _ | ⟨s, e, d⟩
  · exact List.Pairwise.nil
  · obtain ⟨-, ⟨rfl, hneg, -⟩ | ⟨rfl, hpos, -⟩⟩ := scrollSpan_some h
    · exact (along_up_pairwise s _).imp fun hlt => by omega
    · exact (along_down_pairwise s _).imp fun hlt => by omega

/-- Rows one after the other, and the places of a row. -/
theorem grid_pairwise {R S : ℤ → ℤ → Prop} {xs ys : List ℤ} (hx : xs.Pairwise R) (hy : ys.Pairwise S) :
    (grid xs ys).Pairwise fun p q => R p.1 q.1 ∨ S p.2 q.2 := by
  refine List.pairwise_flatMap.mpr ⟨fun y _ => ?_, hy.imp fun hS p hp q hq => ?_⟩
  · exact List.pairwise_map.mpr (hx.imp Or.inl)
  · obtain ⟨_, _, rfl⟩ := List.mem_map.mp hp
    obtain ⟨_, _, rfl⟩ := List.mem_map.mp hq
    exact .inr hS

/-- What `scroll` gives to a place. -/
def shifted (xstep ystep : ℤ) (picture : ℤ × ℤ → Bool) (p : ℤ × ℤ) : Option Bool :=
  some (picture (p.1 - xstep, p.2 - ystep))

theorem shifted_ignores (width height : ℕ) (xstep ystep : ℤ) :
    (grid (spanPlaces width xstep) (spanPlaces height ystep)).Pairwise fun a b =>
      Picture.Ignores (shifted xstep ystep) b a := by
  refine (grid_pairwise (spanPlaces_pairwise width xstep) (spanPlaces_pairwise height ystep)).imp ?_
  intro a b h picture c
  have hne : (b.1 - xstep, b.2 - ystep) ≠ a := by
    rintro rfl
    rcases h with h | h <;> exact h rfl
  rw [shifted, Function.update_of_ne hne, shifted]

/-- A step of the loops. -/
theorem Shows.scrollPixel (hf : f.Whole) {xstep ystep : ℤ} {b : f.Buffer} {picture : ℤ × ℤ → Bool} {X Y : ℕ}
    (h : f.Shows b picture) (hX : X < f.width) (hY : Y < f.height) (hXY : Copied f xstep ystep X Y) :
    ∃ t, f.scrollPixel xstep ystep b (X, Y) = some t ∧
      f.Shows t (Picture.put (shifted xstep ystep) picture (X, Y)) := by
  obtain ⟨⟨hx, hx'⟩, hy, hy'⟩ := hXY.source
  obtain ⟨t, ht, hshows⟩ := h.setpixel hf hX hY (if picture (X - xstep, Y - ystep) then 1 else 0)
  refine ⟨t, ?_, ?_⟩
  · rw [scrollPixel_eq hX hY hXY, h _ _ hx hy, hx', hy', Option.bind_some, ht]
  · have hvalue : decide ((if picture (X - xstep, Y - ystep) then 1 else 0 : BitVec 32) ≠ 0) =
        picture (X - xstep, Y - ystep) := by
      cases picture (X - xstep, Y - ystep) <;> rfl
    rw [hvalue] at hshows
    exact hshows

/-- **`scroll` copies from the picture before it**, whichever way. -/
theorem scroll_right (hf : f.Whole) (xstep ystep : ℤ) (buffer : f.Buffer) :
    ∃ b, f.scroll buffer xstep ystep = some b ∧ ∀ X Y : ℕ, X < f.width → Y < f.height →
      f.getpixel b X Y = if Copied f xstep ystep X Y
        then f.getpixel buffer ((X : ℤ) - xstep).toNat ((Y : ℤ) - ystep).toNat else f.getpixel buffer X Y := by
  have h0 := shows_picture hf buffer
  obtain ⟨b, hb, hshows⟩ := Picture.run_assign (f.scrollPixel xstep ystep)
    (shifted xstep ystep) f.Shows _ (fun s picture p hp h => by
      obtain ⟨X, Y, rfl, hX, hY, hXY⟩ := (mem_scrollGrid p).mp hp
      exact h.scrollPixel hf hX hY hXY) h0
  refine ⟨b, (scroll_eq_run buffer xstep ystep).trans hb, fun X Y hX hY => ?_⟩
  rw [hshows X Y hX hY, Picture.assign_eq (shifted_ignores f.width f.height xstep ystep)]
  by_cases hXY : Copied f xstep ystep X Y
  · obtain ⟨⟨hx, hx'⟩, hy, hy'⟩ := hXY.source
    rw [if_pos hXY, if_pos ((mem_copied_iff mem_scrollGrid hX hY).mpr hXY), h0 _ _ hx hy, hx', hy']
    rfl
  · rw [if_neg hXY, if_neg fun hp => hXY ((mem_copied_iff mem_scrollGrid hX hY).mp hp), h0 X Y hX hY]

/-- The display scrolled half a character to the left. -/
theorem scroll_right_left : ∃ b, (board ()).scroll (blank ()) (-4) 0 = some b ∧
    (board ()).getpixel b 10 20 = (board ()).getpixel (blank ()) 14 20 := by
  obtain ⟨b, hb, h⟩ := scroll_right board_whole (-4) 0 (blank ())
  exact ⟨b, hb, (h 10 20 (by decide) (by decide)).trans (if_pos (by decide))⟩

/-! ### Copying with checks -/

/-- `getpixel` and `setpixel` with a check that the pixel is in the frame. -/
def getpixelIn (f : MonoVlsb) (buffer : f.Buffer) (x y : ℕ) : Option (BitVec 32) :=
  if x < f.width ∧ y < f.height then f.getpixel buffer x y else none

def setpixelIn (f : MonoVlsb) (buffer : f.Buffer) (x y : ℕ) (color : BitVec 32) : Option f.Buffer :=
  if x < f.width ∧ y < f.height then f.setpixel buffer x y color else none

variable {ι : Type} [DecidableEq ι] (F : ι → MonoVlsb)

/-- `blit`, part by part, where every access has the check. -/
def mappedIn (palette : Option ι) (s : Buffers F) (col : BitVec 32) : Option (BitVec 32) :=
  match palette with
  | none => some col
  | some p => (F p).getpixelIn (s p) (col.toNat % 2 ^ 16) 0

def blitPixelIn (i source : ι) (key : BitVec 32) (palette : Option ι) (s : Buffers F) (cx0 y0 cx1 y1 : ℤ) :
    Option (Buffers F) :=
  ((F source).getpixelIn (s source) (toUnsigned 16 cx1) (toUnsigned 16 y1)).bind fun col =>
    (mappedIn F palette s col).bind fun col =>
      if col ≠ key then
        ((F i).setpixelIn (s i) (toUnsigned 16 cx0) (toUnsigned 16 y0) col).map (Function.update s i)
      else some s

def blitRowIn (i source : ι) (key : BitVec 32) (palette : Option ι) (y0 y1 : ℤ) :
    (rounds : ℕ) → (cx0 cx1 : ℤ) → Buffers F → Option (Buffers F)
  | 0, _, _, s => some s
  | rounds + 1, cx0, cx1, s => (blitPixelIn F i source key palette s cx0 y0 cx1 y1).bind fun s =>
      blitRowIn i source key palette y0 y1 rounds (cx0 + 1) (cx1 + 1) s

def blitRowsIn (i source : ι) (key : BitVec 32) (palette : Option ι) (x0 x1 x0end : ℤ) :
    (rounds : ℕ) → (y0 y1 : ℤ) → Buffers F → Option (Buffers F)
  | 0, _, _, s => some s
  | rounds + 1, y0, y1, s =>
    (blitRowIn F i source key palette y0 y1 (x0end - x0).toNat x0 x1 s).bind fun s =>
      blitRowsIn i source key palette x0 x1 x0end rounds (y0 + 1) (y1 + 1) s

def blitIn (s : Buffers F) (i source : ι) (x y : ℤ) (key : BitVec 32) (palette : Option ι) :
    Option (Buffers F) :=
  if x ≥ (F i).width ∨ y ≥ (F i).height ∨ -x ≥ (F source).width ∨ -y ≥ (F source).height then some s
  else
    let x0 := max 0 x
    let y0 := max 0 y
    let x1 := max 0 (-x)
    let y1 := max 0 (-y)
    let x0end := min ((F i).width : ℤ) (x + (F source).width)
    let y0end := min ((F i).height : ℤ) (y + (F source).height)
    blitRowsIn F i source key palette x0 x1 x0end (y0end - y0).toNat y0 y1 s

/-- What the source has for a pixel, through the palette. -/
def blitColor (s : Buffers F) (source : ι) (palette : Option ι) (x y : ℤ) (X Y : ℕ) : Option (BitVec 32) :=
  ((F source).getpixel (s source) ((X : ℤ) - x).toNat ((Y : ℤ) - y).toNat).bind (mapped F palette s)

/-- What `blit` is for: all accesses are inside their frames, other buffers stay, and the pixels of
the destination whose source is inside get what the source has for them, unless it is the key. -/
def Blits (s : Buffers F) (i source : ι) (x y : BitVec 16) (key : BitVec 32) (palette : Option ι) : Prop :=
  ∃ t, blit F s i source x.toInt y.toInt key palette = some t ∧
    blitIn F s i source x.toInt y.toInt key palette = some t ∧ (∀ j ≠ i, t j = s j) ∧
    ∀ X Y : ℕ, X < (F i).width → Y < (F i).height →
      if Copied (F source) x.toInt y.toInt X Y then
        ∃ col, blitColor F s source palette x.toInt y.toInt X Y = some col ∧
          (F i).getpixel (t i) X Y = if col ≠ key then some col else (F i).getpixel (s i) X Y
      else (F i).getpixel (t i) X Y = (F i).getpixel (s i) X Y

variable {F}

/-- A pixel is 0 or 1. -/
theorem getpixel_le {buffer : f.Buffer} {x y : ℕ} {col : BitVec 32} (h : f.getpixel buffer x y = some col) :
    col = 0 ∨ col = 1 := by
  have hlt := getpixel_isSome_iff.mp (Option.isSome_of_eq_some h)
  rw [getpixel_of_lt buffer hlt, Option.some.injEq] at h
  split at h
  · exact .inr h.symm
  · exact .inl h.symm

section Checks

variable {i source : ι} {key : BitVec 32} {palette : Option ι} {s : Buffers F}

omit [DecidableEq ι] in
theorem mappedIn_eq (hpalette : ∀ p ∈ palette, 2 ≤ (F p).width ∧ 0 < (F p).height) (s : Buffers F) {col : BitVec 32}
    (hcol : col = 0 ∨ col = 1) : mappedIn F palette s col = mapped F palette s col := by
  rcases palette with _ | p
  · rfl
  · obtain ⟨hwidth, hheight⟩ := hpalette p rfl
    refine if_pos ⟨?_, hheight⟩
    rcases hcol with rfl | rfl
    · exact Nat.zero_lt_of_lt hwidth
    · exact hwidth

variable (hpalette : ∀ p ∈ palette, 2 ≤ (F p).width ∧ 0 < (F p).height)
include hpalette

theorem blitPixelIn_eq {cx0 y0 cx1 y1 : ℤ} (h0 : (0 ≤ cx0 ∧ cx0 < (F i).width) ∧ 0 ≤ y0 ∧ y0 < (F i).height)
    (h1 : (0 ≤ cx1 ∧ cx1 < (F source).width) ∧ 0 ≤ y1 ∧ y1 < (F source).height) (s : Buffers F) :
    blitPixelIn F i source key palette s cx0 y0 cx1 y1 = blitPixel F i source key palette s cx0 y0 cx1 y1 := by
  have hx0 := toUnsigned_inside h0.1.1 h0.1.2 (F i).width_lt
  have hy0 := toUnsigned_inside h0.2.1 h0.2.2 (F i).height_lt
  have hx1 := toUnsigned_inside h1.1.1 h1.1.2 (F source).width_lt
  have hy1 := toUnsigned_inside h1.2.1 h1.2.2 (F source).height_lt
  unfold blitPixelIn blitPixel getpixelIn setpixelIn
  rw [hx0, hy0, hx1, hy1, if_pos (by omega)]
  refine Option.bind_congr fun col hcol => ?_
  rw [mappedIn_eq hpalette s (getpixel_le hcol)]
  simp only [show cx0.toNat < (F i).width ∧ y0.toNat < (F i).height by omega, and_self, if_true]

theorem blitRowIn_eq {y0 y1 : ℤ} (hy0 : 0 ≤ y0 ∧ y0 < (F i).height) (hy1 : 0 ≤ y1 ∧ y1 < (F source).height)
    (rounds : ℕ) : ∀ (cx0 cx1 : ℤ) (s : Buffers F), 0 ≤ cx0 → cx0 + rounds ≤ (F i).width →
      0 ≤ cx1 → cx1 + rounds ≤ (F source).width →
      blitRowIn F i source key palette y0 y1 rounds cx0 cx1 s =
        blitRow F i source key palette y0 y1 rounds cx0 cx1 s := by
  induction rounds with
  | zero => exact fun _ _ _ _ _ _ _ => rfl
  | succ rounds ih =>
    intro cx0 cx1 s h0 h0' h1 h1'
    push_cast at h0' h1'
    rw [blitRowIn, blitRow, blitPixelIn_eq hpalette ⟨⟨h0, by omega⟩, hy0⟩ ⟨⟨h1, by omega⟩, hy1⟩]
    exact congrArg _ (funext fun s => ih _ _ s (by omega) (by omega) (by omega) (by omega))

theorem blitRowsIn_eq {x0 x1 x0end : ℤ} (hx0 : 0 ≤ x0 ∧ x0end ≤ (F i).width)
    (hx1 : 0 ≤ x1 ∧ x1 + (x0end - x0).toNat ≤ (F source).width) (hle : x0 ≤ x0end) (rounds : ℕ) :
    ∀ (y0 y1 : ℤ) (s : Buffers F), 0 ≤ y0 → y0 + rounds ≤ (F i).height →
      0 ≤ y1 → y1 + rounds ≤ (F source).height →
      blitRowsIn F i source key palette x0 x1 x0end rounds y0 y1 s =
        blitRows F i source key palette x0 x1 x0end rounds y0 y1 s := by
  induction rounds with
  | zero => exact fun _ _ _ _ _ _ _ => rfl
  | succ rounds ih =>
    intro y0 y1 s h0 h0' h1 h1'
    push_cast at h0' h1'
    rw [blitRowsIn, blitRows, blitRowIn_eq hpalette ⟨h0, by omega⟩ ⟨h1, by omega⟩ _ _ _ _ hx0.1 (by omega) hx1.1
      hx1.2]
    exact congrArg _ (funext fun s => ih _ _ s (by omega) (by omega) (by omega) (by omega))

/-- **All accesses of `blit` are inside their frames.** -/
theorem blitIn_eq (s : Buffers F) (i source : ι) (x y : ℤ) (key : BitVec 32) :
    blitIn F s i source x y key palette = blit F s i source x y key palette := by
  unfold blitIn blit
  split
  · rfl
  · exact blitRowsIn_eq hpalette (by omega) (by omega) (by omega) _ _ _ s (by omega) (by omega) (by omega) (by omega)

end Checks

/-! ### Copying -/

section Copying

variable {i source : ι} {x y : ℤ} {key : BitVec 32} {palette : Option ι} {s : Buffers F}

omit [DecidableEq ι] in
/-- The source has something for every pixel that is copied, if the palette has two pixels. -/
theorem blitColor_some (hF : ∀ j, (F j).Whole) (hpalette : ∀ p ∈ palette, 2 ≤ (F p).width ∧ 0 < (F p).height)
    (s : Buffers F) {X Y : ℕ} (hXY : Copied (F source) x y X Y) :
    ∃ col, blitColor F s source palette x y X Y = some col ∧ (col = 0 ∨ col = 1) := by
  obtain ⟨⟨hx, -⟩, hy, -⟩ := hXY.source
  have hindex : ∀ p ∈ palette, (F p).index 1 0 < (F p).size := fun p hp =>
    (hF p).stored (hpalette p hp).1 (hpalette p hp).2
  obtain ⟨col, hcol⟩ := mapped_isSome hindex s
    (bit (s source) ((F source).place (((X : ℤ) - x).toNat, ((Y : ℤ) - y).toNat)))
  refine ⟨col, ?_, ?_⟩
  · rw [blitColor, getpixel_of_lt _ ((hF source).stored hx hy), Option.bind_some, hcol]
  · rcases palette with _ | p
    · rw [mapped, Option.some.injEq] at hcol
      split at hcol
      · exact .inr hcol.symm
      · exact .inl hcol.symm
    · exact getpixel_le hcol

/-- What `blit` gives to a place, whatever it has drawn so far. -/
def given (s : Buffers F) (source : ι) (palette : Option ι) (x y : ℤ) (key : BitVec 32) (_ : ℤ × ℤ → Bool)
    (p : ℤ × ℤ) : Option Bool :=
  (blitColor F s source palette x y p.1.toNat p.2.toNat).bind fun col =>
    if col ≠ key then some (decide (col ≠ 0)) else none

/-- What has been copied so far. -/
def Copying (s : Buffers F) (i : ι) (t : Buffers F) (picture : ℤ × ℤ → Bool) : Prop :=
  (∀ j ≠ i, t j = s j) ∧ (F i).Shows (t i) picture

/-- A step of the loops: source and palette are as they were. -/
theorem Copying.blitAt (hF : ∀ j, (F j).Whole) (hsource : source ≠ i)
    (hpalette : ∀ p ∈ palette, p ≠ i ∧ 2 ≤ (F p).width ∧ 0 < (F p).height) {u : Buffers F}
    {picture : ℤ × ℤ → Bool} (h : Copying s i u picture) {X Y : ℕ} (hX : X < (F i).width) (hY : Y < (F i).height)
    (hXY : Copied (F source) x y X Y) :
    ∃ t, blitAt F i source x y key palette u (X, Y) = some t ∧
      Copying s i t (Picture.put (given s source palette x y key) picture (X, Y)) := by
  obtain ⟨hothers, hshows⟩ := h
  obtain ⟨h1, h2, h3, h4⟩ := toUnsigned_copied hX hY hXY
  obtain ⟨col, hcol, -⟩ := blitColor_some hF (fun p hp => (hpalette p hp).2) s hXY
  have hmapped : mapped F palette u = mapped F palette s := by
    rcases palette with _ | p
    · rfl
    · funext col
      rw [mapped, mapped, hothers p (hpalette p rfl).1]
  have hput : Picture.put (given s source palette x y key) picture ((X : ℤ), (Y : ℤ)) =
      Function.update picture (X, Y) ((if col ≠ key then some (decide (col ≠ 0)) else none).getD (picture (X, Y))) := by
    rw [Picture.put, given, Int.toNat_natCast, Int.toNat_natCast, hcol, Option.bind_some]
  have hstep : MonoVlsb.blitAt F i source x y key palette u (X, Y) =
      if col ≠ key then ((F i).setpixel (u i) X Y col).map (Function.update u i) else some u := by
    rw [blitColor] at hcol
    rw [MonoVlsb.blitAt, blitPixel, h1, h2, h3, h4, hmapped, ← Option.bind_assoc, hothers source hsource, hcol,
      Option.bind_some]
  rw [hstep, hput]
  by_cases hkey : col ≠ key
  · obtain ⟨b, hb, hshows'⟩ := hshows.setpixel (hF i) hX hY col
    rw [if_pos hkey, hb, if_pos hkey]
    refine ⟨_, rfl, fun j hj => ?_, ?_⟩
    · rw [Function.update_of_ne hj]
      exact hothers j hj
    · rw [Function.update_self]
      exact hshows'
  · rw [if_neg hkey, if_neg hkey, Option.getD_none, Function.update_eq_self]
    exact ⟨u, rfl, hothers, hshows⟩

/-- **`blit` copies what the source has**, and stays inside the frames, if the palette is not the
destination and has two pixels. -/
theorem blit_right (hF : ∀ j, (F j).Whole) (hsource : source ≠ i)
    (hpalette : ∀ p ∈ palette, p ≠ i ∧ 2 ≤ (F p).width ∧ 0 < (F p).height) (s : Buffers F) (x y : BitVec 16)
    (key : BitVec 32) : Blits F s i source x y key palette := by
  have h0 : Copying s i s ((F i).picture (s i)) := ⟨fun _ _ => rfl, shows_picture (hF i) (s i)⟩
  obtain ⟨t, ht, hothers, hshows⟩ := Picture.run_assign
    (MonoVlsb.blitAt F i source x.toInt y.toInt key palette)
    (given s source palette x.toInt y.toInt key) (Copying s i) _ (fun u picture p hp h => by
      obtain ⟨X, Y, rfl, hX, hY, hXY⟩ := (mem_blitGrid p).mp hp
      exact h.blitAt hF hsource hpalette hX hY hXY) h0
  rw [← blit_eq_run] at ht
  refine ⟨t, ht, ?_, hothers, fun X Y hX hY => ?_⟩
  · rw [blitIn_eq (fun p hp => (hpalette p hp).2), ht]
  have hignores : (grid (blitPlaces (F i).width (F source).width x.toInt)
      (blitPlaces (F i).height (F source).height y.toInt)).Pairwise fun a b =>
        Picture.Ignores (given s source palette x.toInt y.toInt key) b a :=
    List.pairwise_of_forall fun _ _ _ _ => rfl
  rw [hshows X Y hX hY, Picture.assign_eq hignores]
  by_cases hXY : Copied (F source) x.toInt y.toInt X Y
  · obtain ⟨col, hcol, hbit⟩ := blitColor_some hF (fun p hp => (hpalette p hp).2) s hXY
    rw [if_pos hXY, if_pos ((mem_copied_iff mem_blitGrid hX hY).mpr hXY)]
    refine ⟨col, hcol, ?_⟩
    rw [given, Int.toNat_natCast, Int.toNat_natCast, hcol, Option.bind_some]
    by_cases hkey : col ≠ key
    · rw [if_pos hkey, if_pos hkey, Option.getD_some]
      rcases hbit with rfl | rfl <;> rfl
    · rw [if_neg hkey, if_neg hkey, Option.getD_none, h0.2 X Y hX hY]
  · rw [if_neg hXY, if_neg fun hp => hXY ((mem_copied_iff mem_blitGrid hX hY).mp hp), h0.2 X Y hX hY]

end Copying

/-! ### Palettes -/

/-- Frames two pixels wide: a destination, a source, and a palette of some height. -/
def pairs (height : BitVec 16) (j : Fin 3) : MonoVlsb := make 2 (if j = 2 then height else 1) 0 0

/-- In all of them the first pixel of the two is on. -/
def lit (height : BitVec 16) : Buffers (pairs height) := fun j => (pairs height j).zeros.setIfInBounds 0 1

theorem pairs_whole (height : BitVec 16) (j : Fin 3) : (pairs height j).Whole := whole_make (.inl rfl)

/-- Through the third as a palette, which swaps the colors. -/
theorem blit_right_swapped : Blits (pairs 1) (lit 1) 0 1 0 0 0xFFFF (some 2) := by
  refine blit_right (pairs_whole 1) (by decide) ?_ (lit 1) 0 0 0xFFFF
  rintro _ ⟨⟩
  decide

/-- **Two columns do not make a palette**: the destination changes while it is read, and a frame
without rows has no pixels. -/
theorem palettes_not_enough : (∀ height j, (pairs height j).Whole ∧ (pairs height j).width = 2) ∧
    ¬ Blits (pairs 1) (lit 1) 0 1 0 0 0xFFFF (some 0) ∧ ¬ Blits (pairs 0) (lit 0) 0 1 0 0 0xFFFF (some 2) := by
  refine ⟨fun height j => ⟨pairs_whole height j, rfl⟩, ?_, ?_⟩
  · rintro ⟨t, ht, -, -, h⟩
    have hread : ((blit (pairs 1) (lit 1) 0 1 0 0 0xFFFF (some 0)).bind fun t => (pairs 1 0).getpixel (t 0) 1 0) =
        some 0 := by decide +kernel
    have hcolor : blitColor (pairs 1) (lit 1) 1 (some 0) 0 0 1 0 = some 1 := by decide +kernel
    have hpixel := h 1 0 (by decide) (by decide)
    rw [if_pos (by decide)] at hpixel
    obtain ⟨col, hcol, hpixel⟩ := hpixel
    obtain rfl : 1 = col := Option.some.inj (hcolor.symm.trans hcol)
    rw [show blit (pairs 1) (lit 1) 0 1 0 0 0xFFFF (some 0) = some t from ht, Option.bind_some, hpixel] at hread
    exact absurd hread (by decide)
  · rintro ⟨t, ht, -⟩
    have hnone : (blit (pairs 0) (lit 0) 0 1 0 0 0xFFFF (some 2)).isSome = false := by decide +kernel
    rw [show blit (pairs 0) (lit 0) 0 1 0 0 0xFFFF (some 2) = some t from ht] at hnone
    exact Bool.noConfusion hnone

end MonoVlsb
end Ventilation
