/-
# The pixels that the drawing functions visit

Each function is a walk over a list of pixels: the points of the line
(`line_eq_run`), the pixels of the characters (`text_eq_run`), and the places that
`scroll` and `blit` copy to, in their order (`scroll_eq_run`, `blit_eq_run`). What a
list contains is said by its coordinates alone.
-/
import Mathlib.Tactic.Linarith
import Ventilation.Display.Framebuf

namespace Ventilation
namespace MonoVlsb

open CInt (toUnsigned)
open Raster (toward nearest linePoint linePoints)

variable {f : MonoVlsb} {color : BitVec 32}

/-- One step of a walk that clips. -/
def clip (color : BitVec 32) (buffer : f.Buffer) (p : ℕ × ℕ) : Option f.Buffer :=
  f.clipped buffer p.1 p.2 color

/-- The pixels of the frame among them. -/
def inFrame (f : MonoVlsb) (l : List (ℕ × ℕ)) : List (ℕ × ℕ) :=
  l.filter fun p => p.1 < f.width ∧ p.2 < f.height

theorem mem_inFrame {l : List (ℕ × ℕ)} {p : ℕ × ℕ} :
    p ∈ f.inFrame l ↔ p ∈ l ∧ p.1 < f.width ∧ p.2 < f.height := by
  rw [inFrame, List.mem_filter, decide_eq_true_iff]

/-- Clipping leaves the pixels of the frame. -/
theorem run_clip (l : List (ℕ × ℕ)) (buffer : f.Buffer) :
    Machine.run (clip color) buffer l = Machine.run (plot color) buffer (f.inFrame l) := by
  have hskip : ∀ (b : f.Buffer) (p : ℕ × ℕ), decide (p.1 < f.width ∧ p.2 < f.height) = false →
      clip color b p = some b := by
    intro b p hp
    rw [clip, clipped, if_neg (of_decide_eq_false hp)]
  rw [inFrame, ← Machine.run_filter (clip color) _ hskip]
  generalize hl : l.filter _ = l'
  have hin : ∀ p ∈ l', p.1 < f.width ∧ p.2 < f.height := by
    rw [← hl]
    exact fun p hp => (mem_inFrame.mp hp).2
  clear hl
  induction l' generalizing buffer with
  | nil => rfl
  | cons p l' ih =>
    have hp : clip color buffer p = plot color buffer p := if_pos (hin p List.mem_cons_self)
    rw [Machine.run_cons, Machine.run_cons, hp]
    exact congrArg _ (funext fun b => ih b fun q hq => hin q (List.mem_cons_of_mem p hq))

/-! ### Lines -/

variable {a a' b b' major minor : ℕ}

/-- A step towards the end stays between the ends. -/
theorem toUnsigned_toward (ha : a < 2 ^ 16) (ha' : a' < 2 ^ 16) {i : ℕ} (hi : i < Nat.dist a a') :
    toUnsigned 16 ((toward a a' i : ℤ) + if a < a' then 1 else -1) = toward a a' (i + 1) := by
  unfold Nat.dist at hi
  have hlt : toward a a' (i + 1) < 2 ^ 16 := by
    unfold toward
    split <;> omega
  have hcast : (toward a a' i : ℤ) + (if a < a' then 1 else -1) = (toward a a' (i + 1) : ℕ) := by
    unfold toward
    split <;> omega
  rw [hcast, CInt.toUnsigned_natCast, Nat.mod_eq_of_lt hlt]

/-- The error term before the loop looks at it, in round `i`. -/
def errorTerm (major minor i : ℕ) : ℤ := 2 * minor * (i + 1) - major - 2 * major * nearest major minor i

/-- The inner loop, which runs at most once, takes the other axis to where it belongs in the next round. -/
theorem overshoot_eq (hb : b < 2 ^ 16) (hb' : b' < 2 ^ 16) {i : ℕ} (hi : i < major)
    (hle : Nat.dist b b' ≤ major) :
    overshoot major (if b < b' then 1 else -1) ((errorTerm major (Nat.dist b b') i).toNat + 1)
        (toward b b' (nearest major (Nat.dist b b') i)) (errorTerm major (Nat.dist b b') i) =
      (toward b b' (nearest major (Nat.dist b b') (i + 1)),
        errorTerm major (Nat.dist b b') (i + 1) - 2 * (Nat.dist b b' : ℕ)) := by
  have hpos : 0 < major := Nat.zero_lt_of_lt hi
  have hsucc := Raster.nearest_succ hpos hle (e := errorTerm major (Nat.dist b b') i) rfl
  have hnext : ∀ k, nearest major (Nat.dist b b') (i + 1) = nearest major (Nat.dist b b') i + k →
      errorTerm major (Nat.dist b b') (i + 1) - 2 * (Nat.dist b b' : ℕ) =
        errorTerm major (Nat.dist b b') i - 2 * major * k := by
    intro k hk
    unfold errorTerm
    rw [hk]
    push_cast
    linarith
  by_cases he : 0 ≤ errorTerm major (Nat.dist b b') i
  · rw [if_pos he] at hsucc
    have hlt : nearest major (Nat.dist b b') i < Nat.dist b b' := by
      have := Raster.nearest_le (Nat.dist b b') (show i + 1 ≤ major from hi)
      omega
    have hneg : ¬ 0 ≤ errorTerm major (Nat.dist b b') i - 2 * major := by
      obtain ⟨_, h2⟩ := Raster.nearest_bounds (Nat.dist b b') (i + 1) hpos
      rw [hsucc] at h2
      unfold errorTerm
      zify at h2 hle
      nlinarith
    have hone := hnext 1 hsucc
    rw [Nat.cast_one, mul_one] at hone
    rw [overshoot, if_pos he, toUnsigned_toward hb hb' hlt, hsucc, hone]
    generalize (errorTerm major (Nat.dist b b') i).toNat = fuel
    cases fuel with
    | zero => rfl
    | succ fuel => rw [overshoot, if_neg hneg]
  · rw [if_neg he] at hsucc
    rw [overshoot, if_neg he, hsucc, hnext 0 hsucc, Nat.cast_zero, mul_zero, sub_zero]

/-- The loop visits the points of the line, but for the last one. -/
theorem lineLoop_eq_run (color : BitVec 32) (steep : Bool) (ha : a < 2 ^ 16) (ha' : a' < 2 ^ 16)
    (hb : b < 2 ^ 16) (hb' : b' < 2 ^ 16) (hle : Nat.dist b b' ≤ Nat.dist a a') (rounds : ℕ) :
    ∀ (i : ℕ) (buffer : f.Buffer), i + rounds ≤ Nat.dist a a' →
      f.lineLoop steep (Nat.dist a a' : ℕ) (Nat.dist b b' : ℕ) (if a < a' then 1 else -1)
          (if b < b' then 1 else -1) color rounds (toward a a' i)
          (toward b b' (nearest (Nat.dist a a') (Nat.dist b b') i))
          (errorTerm (Nat.dist a a') (Nat.dist b b') i) buffer =
        Machine.run (clip color) buffer ((List.range' i rounds).map fun i =>
          if steep then (toward b b' (nearest (Nat.dist a a') (Nat.dist b b') i), toward a a' i)
          else (toward a a' i, toward b b' (nearest (Nat.dist a a') (Nat.dist b b') i))) := by
  induction rounds with
  | zero => exact fun _ _ _ => rfl
  | succ rounds ih =>
    intro i buffer hi
    have hi' : i < Nat.dist a a' := by omega
    have hpair := overshoot_eq hb hb' hi' hle
    rw [lineLoop, hpair, List.range'_succ, List.map_cons, Machine.run_cons]
    dsimp only
    rw [toUnsigned_toward ha ha' hi', sub_add_cancel]
    cases steep
    · exact congrArg _ (funext fun buffer => ih (i + 1) buffer (by omega))
    · exact congrArg _ (funext fun buffer => ih (i + 1) buffer (by omega))

/-- `line` visits the points of the line. -/
theorem line_eq_run {x1 y1 x2 y2 : ℕ} (hx1 : x1 < 2 ^ 16) (hy1 : y1 < 2 ^ 16) (hx2 : x2 < 2 ^ 16)
    (hy2 : y2 < 2 ^ 16) (buffer : f.Buffer) :
    f.line buffer x1 y1 x2 y2 color = Machine.run (clip color) buffer (linePoints x1 y1 x2 y2) := by
  have hdist : ∀ a b : ℕ, (if (b : ℤ) - a > 0 then (b : ℤ) - a else -((b : ℤ) - a)) = (Nat.dist a b : ℕ) := by
    intro a b
    unfold Nat.dist
    split <;> omega
  have hsign : ∀ a b : ℕ, (if (b : ℤ) - a > 0 then 1 else -1 : ℤ) = if a < b then 1 else -1 := by
    intro a b
    exact if_congr (by omega) rfl rfl
  have herror : ∀ major minor : ℕ, (2 * minor - major : ℤ) = errorTerm major minor 0 := by
    intro major minor
    rw [errorTerm, Raster.nearest_zero]
    push_cast
    ring
  unfold line
  dsimp only
  rw [hdist, hdist, hsign, hsign, herror, herror, Int.toNat_natCast, Int.toNat_natCast, Raster.linePoints_eq,
    Machine.run_append]
  simp only [Machine.run_singleton]
  refine congrArg (fun drawn => Option.bind drawn fun buffer => f.clipped buffer x2 y2 color) ?_
  by_cases hsteep : Nat.dist x1 x2 < Nat.dist y1 y2
  · have hrun := lineLoop_eq_run (f := f) color true hy1 hy2 hx1 hx2 hsteep.le
      (Nat.dist y1 y2) 0 buffer (by omega)
    rw [Raster.toward_zero, Raster.nearest_zero, Raster.toward_zero, ← List.range_eq_range'] at hrun
    rw [if_pos (by exact_mod_cast hsteep), hrun, max_eq_right hsteep.le]
    congr 2
    funext i
    rw [linePoint, if_pos hsteep, if_pos rfl]
  · have hrun := lineLoop_eq_run (f := f) color false hx1 hx2 hy1 hy2 (Nat.le_of_not_lt hsteep)
      (Nat.dist x1 x2) 0 buffer (by omega)
    rw [Raster.toward_zero, Raster.nearest_zero, Raster.toward_zero, ← List.range_eq_range'] at hrun
    rw [if_neg (by exact_mod_cast hsteep), hrun, max_eq_left (Nat.le_of_not_lt hsteep)]
    congr 2
    funext i
    rw [linePoint, if_neg hsteep]
    rfl

/-! ### Texts -/

/-- The pixels of one column of a character. -/
def columnPixels (x : ℕ) : (fuel : ℕ) → (vline_data : Byte) → (y1 : ℕ) → List (ℕ × ℕ)
  | 0, _, _ => []
  | fuel + 1, vline_data, y1 =>
    (if vline_data.getLsbD 0 then [(x, y1)] else []) ++ columnPixels x fuel (vline_data >>> 1) (y1 + 1)

def charPixels (y : ℕ) : (chr_data : List Byte) → (x : ℕ) → List (ℕ × ℕ)
  | [], _ => []
  | data :: chr_data, x => columnPixels x 8 data y ++ charPixels y chr_data ((x + 1) % 2 ^ 16)

def textPixels (y : ℕ) : (str : List Byte) → (x : ℕ) → List (ℕ × ℕ)
  | [], _ => []
  | c :: str, x =>
    if c = 0 then [] else charPixels y (chrData c) x ++ textPixels y str ((x + 8) % 2 ^ 16)

theorem mem_columnPixels {x fuel X Y y1 : ℕ} {data : Byte} : (X, Y) ∈ columnPixels x fuel data y1 ↔
    X = x ∧ ∃ r < fuel, data.getLsbD r ∧ Y = y1 + r := by
  induction fuel generalizing data y1 with
  | zero => simp [columnPixels]
  | succ fuel ih =>
    rw [columnPixels, List.mem_append, ih]
    simp only [BitVec.getLsbD_ushiftRight]
    constructor
    · rintro (h | ⟨hX, r, hr, hd, rfl⟩)
      · by_cases h0 : data.getLsbD 0 = true
        · rw [if_pos h0, List.mem_singleton, Prod.mk.injEq] at h
          exact ⟨h.1, 0, Nat.succ_pos fuel, h0, h.2⟩
        · rw [if_neg h0] at h
          exact absurd h List.not_mem_nil
      · exact ⟨hX, 1 + r, by omega, hd, by omega⟩
    · rintro ⟨hX, r, hr, hd, rfl⟩
      rcases r with _ | r
      · rw [if_pos hd, hX]
        exact .inl List.mem_cons_self
      · exact .inr ⟨hX, r, by omega, by rwa [Nat.add_comm 1 r], by omega⟩

/-- Nothing is left of the column. -/
theorem columnPixels_zero (x fuel y1 : ℕ) : columnPixels x fuel 0 y1 = [] := by
  refine List.eq_nil_iff_forall_not_mem.mpr ?_
  rintro ⟨X, Y⟩ hp
  obtain ⟨_, r, _, hr, _⟩ := mem_columnPixels.mp hp
  exact Bool.false_ne_true (BitVec.getLsbD_zero.symm.trans hr)

theorem mem_charPixels {x y X Y : ℕ} {chr_data : List Byte} (hx : x < 2 ^ 16) :
    (X, Y) ∈ charPixels y chr_data x ↔ ∃ j data, chr_data[j]? = some data ∧ X = (x + j) % 2 ^ 16 ∧
      ∃ r < 8, data.getLsbD r ∧ Y = y + r := by
  induction chr_data generalizing x with
  | nil => simp [charPixels]
  | cons data chr_data ih =>
    rw [charPixels, List.mem_append, mem_columnPixels, ih (Nat.mod_lt _ (by decide))]
    simp only [Nat.mod_add_mod]
    constructor
    · rintro (⟨rfl, h⟩ | ⟨j, data', hj, rfl, h⟩)
      · exact ⟨0, data, rfl, (Nat.mod_eq_of_lt hx).symm, h⟩
      · exact ⟨j + 1, data', hj, by rw [Nat.add_right_comm, Nat.add_assoc], h⟩
    · rintro ⟨j, data', hj, rfl, h⟩
      rcases j with _ | j
      · obtain rfl : data = data' := Option.some.inj hj
        exact .inl ⟨Nat.mod_eq_of_lt hx, h⟩
      · exact .inr ⟨j, data', hj, by rw [Nat.add_right_comm, Nat.add_assoc], h⟩

/-- The pixels of the characters before the NUL, one beside the other. -/
theorem mem_textPixels {x y X Y : ℕ} {str : List Byte} (hx : x < 2 ^ 16) :
    (X, Y) ∈ textPixels y str x ↔ ∃ k c, (str.takeWhile (· ≠ 0))[k]? = some c ∧
      ∃ j data, (chrData c)[j]? = some data ∧ X = (x + 8 * k + j) % 2 ^ 16 ∧
        ∃ r < 8, data.getLsbD r ∧ Y = y + r := by
  induction str generalizing x with
  | nil => simp [textPixels]
  | cons c str ih =>
    rw [textPixels]
    by_cases hc : c = 0
    · rw [if_pos hc, List.takeWhile_cons_of_neg (by simpa using hc)]
      simp
    · rw [if_neg hc, List.takeWhile_cons_of_pos (by simpa using hc), List.mem_append, mem_charPixels hx,
        ih (Nat.mod_lt _ (by decide))]
      constructor
      · rintro (⟨j, data, hj, hX, h⟩ | ⟨k, c', hk, j, data, hj, hX, h⟩)
        · exact ⟨0, c, rfl, j, data, hj, hX, h⟩
        · refine ⟨k + 1, c', hk, j, data, hj, ?_, h⟩
          rw [hX, Nat.add_assoc, Nat.mod_add_mod]
          congr 1
          omega
      · rintro ⟨k, c', hk, j, data, hj, hX, h⟩
        rcases k with _ | k
        · obtain rfl : c = c' := Option.some.inj hk
          exact .inl ⟨j, data, hj, hX, h⟩
        · refine .inr ⟨k, c', hk, j, data, hj, ?_, h⟩
          rw [hX, Nat.add_assoc (_ % _), Nat.mod_add_mod]
          congr 1
          omega

theorem textColumn_eq_run {x : ℕ} (hx : x < f.width) (fuel : ℕ) :
    ∀ (data : Byte) (y1 : ℕ) (buffer : f.Buffer),
      f.textColumn x color fuel data y1 buffer =
        Machine.run (clip color) buffer (columnPixels x fuel data y1) := by
  induction fuel with
  | zero => exact fun _ _ _ => rfl
  | succ fuel ih =>
    intro data y1 buffer
    rw [textColumn]
    by_cases h0 : data = 0
    · rw [if_pos h0, h0, columnPixels_zero]
      rfl
    · rw [if_neg h0, columnPixels, Machine.run_append]
      have hrest : (fun buffer => f.textColumn x color fuel (data >>> 1) (y1 + 1) buffer) =
          fun buffer => Machine.run (clip color) buffer (columnPixels x fuel (data >>> 1) (y1 + 1)) :=
        funext (ih (data >>> 1) (y1 + 1))
      rw [hrest]
      congr 1
      by_cases hd : data.getLsbD 0 = true
      · rw [if_pos hd, Machine.run_singleton, clip, clipped]
        exact if_congr (by simp [hd, hx]) rfl rfl
      · rw [if_neg hd, if_neg fun h => hd h.1]
        rfl

theorem textColumns_eq_run (y : ℕ) (chr_data : List Byte) : ∀ (x : ℕ) (buffer : f.Buffer), x < 2 ^ 16 →
    f.textColumns y color chr_data x buffer =
      (Machine.run (clip color) buffer (charPixels y chr_data x)).map fun b =>
        ((x + chr_data.length) % 2 ^ 16, b) := by
  induction chr_data with
  | nil =>
    intro x buffer hx
    show some (x, buffer) = some ((x + 0) % 2 ^ 16, buffer)
    rw [Nat.add_zero, Nat.mod_eq_of_lt hx]
  | cons data chr_data ih =>
    intro x buffer hx
    have hcolumn : (if x < f.width then f.textColumn x color 8 data y buffer else some buffer) =
        Machine.run (clip color) buffer (columnPixels x 8 data y) := by
      by_cases h : x < f.width
      · rw [if_pos h, textColumn_eq_run h]
      · -- the whole column is outside
        have hnil : f.inFrame (columnPixels x 8 data y) = [] := by
          refine List.filter_eq_nil_iff.mpr ?_
          rintro ⟨X, Y⟩ hp
          rw [(mem_columnPixels.mp hp).1]
          simp [h]
        rw [if_neg h, run_clip, hnil]
        rfl
    rw [textColumns, charPixels, Machine.run_append, hcolumn, Option.map_bind]
    congr 1
    funext b
    rw [ih _ b (Nat.mod_lt _ (by decide)), List.length_cons, Nat.mod_add_mod, Nat.add_right_comm, Nat.add_assoc]
    rfl

/-- `text` visits the pixels of its characters. -/
theorem text_eq_run (y : ℕ) (str : List Byte) : ∀ (x : ℕ) (buffer : f.Buffer), x < 2 ^ 16 →
    f.text y color str x buffer = Machine.run (clip color) buffer (textPixels y str x) := by
  induction str with
  | nil => exact fun _ _ _ => rfl
  | cons c str ih =>
    intro x buffer hx
    rw [text, textPixels]
    by_cases hc : c = 0
    · rw [if_pos hc, if_pos hc]
      rfl
    · rw [if_neg hc, if_neg hc, Machine.run_append, textColumns_eq_run y _ x buffer hx, length_chrData,
        Option.bind_map]
      congr 1
      funext b
      exact ih _ b (Nat.mod_lt _ (by decide))

/-! ### Copies -/

/-- `n` places from `i` on, in steps of `d`. -/
def along (i d : ℤ) : (n : ℕ) → List ℤ
  | 0 => []
  | n + 1 => i :: along (i + d) d n

theorem mem_along_up {i x : ℤ} {n : ℕ} : x ∈ along i 1 n ↔ i ≤ x ∧ x < i + n := by
  induction n generalizing i with
  | zero => simp [along]
  | succ n ih => rw [along, List.mem_cons, ih]; omega

theorem mem_along_down {i x : ℤ} {n : ℕ} : x ∈ along i (-1) n ↔ i - n < x ∧ x ≤ i := by
  induction n generalizing i with
  | zero => simp [along]
  | succ n ih => rw [along, List.mem_cons, ih]; omega

/-- The places of a rectangle, row by row. -/
def grid (xs ys : List ℤ) : List (ℤ × ℤ) := ys.flatMap fun y => xs.map fun x => (x, y)

theorem mem_grid {xs ys : List ℤ} {x y : ℤ} : (x, y) ∈ grid xs ys ↔ x ∈ xs ∧ y ∈ ys := by
  simp [grid, and_comm]

theorem grid_nil (ys : List ℤ) : grid [] ys = [] := by
  refine List.eq_nil_iff_forall_not_mem.mpr ?_
  rintro ⟨x, y⟩ hp
  exact List.not_mem_nil (mem_grid.mp hp).1

/-- The rows of a walk over a grid. -/
theorem run_grid {σ : Type} (step : σ → ℤ × ℤ → Option σ) (xs : List ℤ) (y : ℤ) (ys : List ℤ) (s : σ) :
    Machine.run step s (grid xs (y :: ys)) =
      (Machine.run (fun s x => step s (x, y)) s xs).bind fun s => Machine.run step s (grid xs ys) := by
  have hrow : Machine.run step s (xs.map fun x => (x, y)) = Machine.run (fun s x => step s (x, y)) s xs := by
    induction xs generalizing s with
    | nil => rfl
    | cons x xs ih =>
      rw [List.map_cons, Machine.run_cons, Machine.run_cons]
      exact congrArg _ (funext ih)
  rw [grid, List.flatMap_cons, Machine.run_append, hrow]
  rfl

/-- A loop whose end is `n` steps away makes them. -/
theorem untilEnd_eq_run {σ : Type} (body : ℤ → σ → Option σ) {d : ℤ} (hd : d ≠ 0) (n : ℕ) :
    ∀ (i : ℤ) (s : σ), untilEnd body (i + d * n) d n i s = Machine.run (fun s i => body i s) s (along i d n) := by
  induction n with
  | zero =>
    intro i s
    rw [untilEnd, if_pos (by simp)]
    rfl
  | succ n ih =>
    intro i s
    have hne : i ≠ i + d * (n + 1 : ℕ) := by
      intro h
      have : d * (n + 1 : ℕ) = 0 := by omega
      rcases mul_eq_zero.mp this with h' | h'
      · exact hd h'
      · omega
    have hend : i + d * (n + 1 : ℕ) = i + d + d * n := by
      push_cast
      ring
    rw [untilEnd, if_neg hne, along, Machine.run_cons, hend]
    exact congrArg _ (funext (ih (i + d)))

/-- The places along one axis that `scroll` copies to, in its order. -/
def spanPlaces (length : ℕ) (step : ℤ) : List ℤ :=
  match scrollSpan length step with
  | none => []
  | some (s, e, d) => along s d (e - s).natAbs

/-- The loops run forwards or backwards, and always meet their end. -/
theorem scrollSpan_some {length : ℕ} {step s e d : ℤ} (h : scrollSpan length step = some (s, e, d)) :
    e = s + d * (e - s).natAbs ∧ (d = 1 ∧ step < 0 ∧ s = 0 ∧ e = length + step ∧ 0 < e ∨
      d = -1 ∧ 0 ≤ step ∧ s = length - 1 ∧ e = step - 1 ∧ e < s) := by
  unfold scrollSpan at h
  dsimp only at h
  split_ifs at h with h1 h2 h2
  · obtain ⟨rfl, rfl, rfl⟩ : 0 = s ∧ length + step = e ∧ 1 = d := by simpa using h
    omega
  · obtain ⟨rfl, rfl, rfl⟩ : (length : ℤ) - 1 = s ∧ step - 1 = e ∧ -1 = d := by simpa using h
    omega

/-- The places inside whose source is inside too. -/
theorem mem_spanPlaces {length : ℕ} {step x : ℤ} : x ∈ spanPlaces length step ↔
    (0 ≤ x ∧ x < length) ∧ 0 ≤ x - step ∧ x - step < length := by
  unfold spanPlaces
  rcases h : scrollSpan length step with _ | ⟨s, e, d⟩
  · simp only [List.not_mem_nil, false_iff]
    unfold scrollSpan at h
    dsimp only at h
    split_ifs at h <;> omega
  · obtain ⟨hend, ⟨rfl, hrest⟩ | ⟨rfl, hrest⟩⟩ := scrollSpan_some h
    · simp only [mem_along_up]
      omega
    · simp only [mem_along_down]
      omega

/-- Two loops, one in the other, are a walk over a grid. -/
theorem untilEnd_grid {σ : Type} (step : σ → ℤ × ℤ → Option σ) {dx dy : ℤ} (hdx : dx ≠ 0) (hdy : dy ≠ 0)
    (n m : ℕ) (sx sy : ℤ) (s : σ) :
    untilEnd (fun y s => untilEnd (fun x s => step s (x, y)) (sx + dx * n) dx n sx s) (sy + dy * m) dy m sy s =
      Machine.run step s (grid (along sx dx n) (along sy dy m)) := by
  rw [untilEnd_eq_run _ hdy]
  generalize along sy dy m = ys
  induction ys generalizing s with
  | nil => rfl
  | cons y ys ih =>
    rw [run_grid, Machine.run_cons, untilEnd_eq_run _ hdx]
    exact congrArg _ (funext ih)

/-- `scroll` visits the places whose source is in the frame. -/
theorem scroll_eq_run (buffer : f.Buffer) (xstep ystep : ℤ) : f.scroll buffer xstep ystep =
    Machine.run (f.scrollPixel xstep ystep) buffer
      (grid (spanPlaces f.width xstep) (spanPlaces f.height ystep)) := by
  unfold scroll spanPlaces
  rcases hx : scrollSpan f.width xstep with _ | ⟨sx, xend, dx⟩
  · rw [grid_nil]
    rfl
  · rcases hy : scrollSpan f.height ystep with _ | ⟨sy, yend, dy⟩
    · rfl
    · obtain ⟨hxend, hdx⟩ := scrollSpan_some hx
      obtain ⟨hyend, hdy⟩ := scrollSpan_some hy
      dsimp only
      generalize (xend - sx).natAbs = n at *
      generalize (yend - sy).natAbs = m at *
      rw [hxend, hyend]
      exact untilEnd_grid _ (by omega) (by omega) n m sx sy buffer

/-- A palette of two pixels has one for either color. -/
theorem mapped_isSome {ι : Type} {F : ι → MonoVlsb} {palette : Option ι}
    (h : ∀ p ∈ palette, (F p).index 1 0 < (F p).size) (s : Buffers F) (pixel : Bool) :
    ∃ col, mapped F palette s (if pixel then 1 else 0) = some col := by
  rcases palette with _ | p
  · exact ⟨_, rfl⟩
  · refine Option.isSome_iff_exists.mp (getpixel_isSome_iff.mpr ((index_le ?_ le_rfl).trans_lt (h p rfl)))
    cases pixel <;> decide

variable {ι : Type} [DecidableEq ι] {F : ι → MonoVlsb}

/-- One step of the walk of `blit`: source and place differ by its offset. -/
def blitAt (F : ι → MonoVlsb) (i source : ι) (x y : ℤ) (key : BitVec 32) (palette : Option ι) (s : Buffers F)
    (p : ℤ × ℤ) : Option (Buffers F) :=
  blitPixel F i source key palette s p.1 p.2 (p.1 - x) (p.2 - y)

/-- The places along one axis that `blit` copies to. -/
def blitPlaces (length sourceLength : ℕ) (x : ℤ) : List ℤ :=
  along (max 0 x) 1 (min (length : ℤ) (x + sourceLength) - max 0 x).toNat

/-- The places inside whose source is inside too. -/
theorem mem_blitPlaces {length sourceLength : ℕ} {x X : ℤ} : X ∈ blitPlaces length sourceLength x ↔
    (0 ≤ X ∧ X < length) ∧ 0 ≤ X - x ∧ X - x < sourceLength := by
  rw [blitPlaces, mem_along_up]
  omega

theorem blitRow_eq_run (i source : ι) (x y : ℤ) (key : BitVec 32) (palette : Option ι) (y0 : ℤ) (rounds : ℕ) :
    ∀ (cx0 : ℤ) (s : Buffers F), blitRow F i source key palette y0 (y0 - y) rounds cx0 (cx0 - x) s =
      Machine.run (fun s cx0 => blitAt F i source x y key palette s (cx0, y0)) s (along cx0 1 rounds) := by
  induction rounds with
  | zero => exact fun _ _ => rfl
  | succ rounds ih =>
    intro cx0 s
    have hnext : cx0 - x + 1 = cx0 + 1 - x := by omega
    rw [blitRow, along, Machine.run_cons, hnext]
    exact congrArg _ (funext (ih (cx0 + 1)))

theorem blitRows_eq_run (i source : ι) (x y : ℤ) (key : BitVec 32) (palette : Option ι) (x0 x0end : ℤ)
    (rounds : ℕ) : ∀ (y0 : ℤ) (s : Buffers F),
      blitRows F i source key palette x0 (x0 - x) x0end rounds y0 (y0 - y) s =
        Machine.run (blitAt F i source x y key palette) s
          (grid (along x0 1 (x0end - x0).toNat) (along y0 1 rounds)) := by
  induction rounds with
  | zero => exact fun _ _ => rfl
  | succ rounds ih =>
    intro y0 s
    have hnext : y0 - y + 1 = y0 + 1 - y := by omega
    rw [blitRows, along, run_grid, hnext, blitRow_eq_run]
    exact congrArg _ (funext (ih (y0 + 1)))

/-- `blit` visits the places of the frame whose source is in the source's frame. -/
theorem blit_eq_run (s : Buffers F) (i source : ι) (x y : ℤ) (key : BitVec 32) (palette : Option ι) :
    blit F s i source x y key palette =
      Machine.run (blitAt F i source x y key palette) s
        (grid (blitPlaces (F i).width (F source).width x) (blitPlaces (F i).height (F source).height y)) := by
  unfold blit
  split
  · rename_i hout
    generalize hl : grid _ _ = l
    have hnil : l = [] := by
      refine List.eq_nil_iff_forall_not_mem.mpr ?_
      rintro ⟨X, Y⟩ hp
      rw [← hl, mem_grid, mem_blitPlaces, mem_blitPlaces] at hp
      omega
    rw [hnil]
    rfl
  · have hx1 : max 0 (-x) = max 0 x - x := by omega
    have hy1 : max 0 (-y) = max 0 y - y := by omega
    dsimp only
    rw [hx1, hy1, blitRows_eq_run]
    rfl

end MonoVlsb
end Ventilation
