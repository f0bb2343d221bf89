/-
# Shift registers with feedback

The register that divides a message by a polynomial takes one bit at a time:
it shifts a bit out, and where that bit differs from the one taken it adds the
polynomial to what is left. A run is linear in the register and the message
together (`run_xor`). So `n` bits leave the register shifted `n` times, plus
what they make of an empty register, added to the bits shifted out (`run_eq`):
this is why a table can take a whole byte at once. And a message that is
changed inside one window no longer than the register leaves something else in
it (`run_ne_of_burst`): what an error does to the register depends on the
error alone, and an error of that length is still in the register when it has
been read.

The bits of a number come least significant one first (`lsbFirst`) or most
significant one first (`msbFirst`).
-/
import Mathlib.Data.List.Induction
import Mathlib.Data.Nat.Notation
import Mathlib.Logic.Function.Iterate
import Mathlib.Tactic.Common

structure ShiftRegister (w : ℕ) where
  /-- The bit the next step shifts out. -/
  out : BitVec w → Bool
  shift : BitVec w → BitVec w
  poly : BitVec w
  out_xor : ∀ c e, out (c ^^^ e) = (out c ^^ out e)
  shift_xor : ∀ c e, shift (c ^^^ e) = shift c ^^^ shift e
  /-- Nothing is lost but the bit shifted out. -/
  eq_zero : ∀ c, out c = false → shift c = 0#w → c = 0#w
  /-- The register holds `w` bits. -/
  shift_width : ∀ c, shift^[w] c = 0#w
  /-- The polynomial fills the place that is farthest from the end. -/
  out_poly : out (shift^[w - 1] poly) = true

namespace ShiftRegister

variable {w : ℕ} (R : ShiftRegister w)

def step (c : BitVec w) (b : Bool) : BitVec w := if R.out c ^^ b then R.shift c ^^^ R.poly else R.shift c

/-- The register after a message. -/
def run (c : BitVec w) (d : List Bool) : BitVec w := d.foldl R.step c

/-- The next `n` bits that are shifted out if nothing is added. -/
def outs : ℕ → BitVec w → List Bool
  | 0, _ => []
  | n + 1, c => R.out c :: outs n (R.shift c)

/-- Two messages of one length added up. -/
def sum (d e : List Bool) : List Bool := List.zipWith xor d e

theorem run_cons (c : BitVec w) (b : Bool) (d : List Bool) : R.run c (b :: d) = R.run (R.step c b) d := rfl

theorem run_append (c : BitVec w) (d e : List Bool) : R.run c (d ++ e) = R.run (R.run c d) e :=
  List.foldl_append

@[simp] theorem length_outs : ∀ (n : ℕ) (c : BitVec w), (R.outs n c).length = n
  | 0, _ => rfl
  | n + 1, c => by rw [outs, List.length_cons, length_outs n]

/-! ### Linearity -/

@[simp] theorem out_zero : R.out 0#w = false := by
  have h := R.out_xor 0#w 0#w
  rwa [BitVec.xor_self, Bool.xor_self] at h

@[simp] theorem shift_zero : R.shift 0#w = 0#w := by
  have h := R.shift_xor 0#w 0#w
  rwa [BitVec.xor_self, BitVec.xor_self] at h

theorem shift_iterate_xor (n : ℕ) (c e : BitVec w) :
    R.shift^[n] (c ^^^ e) = R.shift^[n] c ^^^ R.shift^[n] e := by
  induction n generalizing c e with
  | zero => rfl
  | succ n ih => simp only [Function.iterate_succ_apply, R.shift_xor, ih]

/-- What a step adds to the shifted register. -/
theorem step_eq (c : BitVec w) (b : Bool) :
    R.step c b = R.shift c ^^^ if R.out c ^^ b then R.poly else 0#w := by
  unfold step
  split
  · rfl
  · rw [BitVec.xor_zero]

theorem step_xor (c e : BitVec w) (b x : Bool) : R.step (c ^^^ e) (b ^^ x) = R.step c b ^^^ R.step e x := by
  have hbit : (R.out c ^^ R.out e ^^ (b ^^ x)) = ((R.out c ^^ b) ^^ (R.out e ^^ x)) := by
    cases R.out c <;> cases R.out e <;> cases b <;> cases x <;> rfl
  have hpoly : ∀ p q : Bool, (if p ^^ q then R.poly else 0#w) =
      (if p then R.poly else 0#w) ^^^ (if q then R.poly else 0#w) := by
    intro p q
    cases p <;> cases q <;> simp
  rw [step_eq, step_eq, step_eq, R.out_xor, R.shift_xor, hbit, hpoly]
  ac_rfl

/-- **A run is linear.** -/
theorem run_xor : ∀ (d x : List Bool), d.length = x.length → ∀ c e : BitVec w,
    R.run (c ^^^ e) (sum d x) = R.run c d ^^^ R.run e x
  | [], [], _, _, _ => rfl
  | b :: d, y :: x, h, c, e => by
    have hstep : R.run (c ^^^ e) (sum (b :: d) (y :: x)) = R.run (R.step (c ^^^ e) (b ^^ y)) (sum d x) := rfl
    rw [hstep, step_xor, run_xor d x (Nat.succ.inj h), run_cons, run_cons]

/-- The bits it shifts out add nothing. -/
theorem run_outs : ∀ (n : ℕ) (c : BitVec w), R.run c (R.outs n c) = R.shift^[n] c
  | 0, _ => rfl
  | n + 1, c => by
    have hstep : R.step c (R.out c) = R.shift c := by
      unfold step
      rw [Bool.xor_self]
      rfl
    rw [outs, run_cons, hstep, run_outs n, Function.iterate_succ_apply]

theorem sum_sum : ∀ d e : List Bool, d.length = e.length → sum d (sum d e) = e
  | [], [], _ => rfl
  | b :: d, x :: e, h => by
    have hbit : (b ^^ (b ^^ x)) = x := by cases b <;> cases x <;> rfl
    have hcons : sum (b :: d) (sum (b :: d) (x :: e)) = (b ^^ (b ^^ x)) :: sum d (sum d e) := rfl
    rw [hcons, hbit, sum_sum d e (Nat.succ.inj h)]

theorem length_sum {d e : List Bool} (h : d.length = e.length) : (sum d e).length = d.length := by
  rw [sum, List.length_zipWith, ← h, Nat.min_self]

/-- **A message at once**: the register is shifted, and the rest is what the
message and the bits shifted out make of an empty one. -/
theorem run_eq (c : BitVec w) (d : List Bool) :
    R.run c d = R.shift^[d.length] c ^^^ R.run 0#w (sum (R.outs d.length c) d) := by
  have hlen : (R.outs d.length c).length = d.length := R.length_outs _ _
  calc R.run c d = R.run (c ^^^ 0#w) (sum (R.outs d.length c) (sum (R.outs d.length c) d)) := by
        rw [BitVec.xor_zero, sum_sum _ _ hlen]
    _ = R.run c (R.outs d.length c) ^^^ R.run 0#w (sum (R.outs d.length c) d) :=
        R.run_xor _ _ (length_sum hlen).symm c 0#w
    _ = _ := by rw [run_outs]

/-! ### Bursts -/

/-- An empty register stays empty on zeros. -/
theorem run_zero_replicate (n : ℕ) : R.run 0#w (List.replicate n false) = 0#w := by
  induction n with
  | zero => rfl
  | succ n ih =>
    have hstep : R.step 0#w false = 0#w := by simp [step]
    rw [List.replicate_succ, run_cons, hstep, ih]

/-- Where the last `k + 1` places are left vacant by a step, the step added nothing. -/
theorem of_step_vacant {k : ℕ} (hk : k < w) {c : BitVec w} {b : Bool} (h : R.shift^[k] (R.step c b) = 0#w) :
    b = R.out c ∧ R.shift^[k + 1] c = 0#w := by
  have hrest : R.shift^[w - 1 - k] (R.shift^[k] (R.shift c)) = 0#w := by
    rw [← Function.iterate_add_apply, ← Function.iterate_succ_apply, show (w - 1 - k + k).succ = w by omega,
      R.shift_width]
  rw [step_eq, shift_iterate_xor] at h
  have hadded : (R.out c ^^ b) = false := by
    by_contra hne
    have htrue : (R.out c ^^ b) = true := by simpa using hne
    have hout := congrArg (fun e => R.out (R.shift^[w - 1 - k] e)) h
    simp only [htrue, if_true, shift_iterate_xor, hrest, BitVec.zero_xor] at hout
    rw [← Function.iterate_add_apply, show w - 1 - k + k = w - 1 by omega, R.out_poly,
      Function.iterate_fixed R.shift_zero, R.out_zero] at hout
    cases hout
  have hzero : R.shift^[k] 0#w = 0#w := Function.iterate_fixed R.shift_zero k
  rw [hadded, if_neg (by decide), hzero, BitVec.xor_zero] at h
  refine ⟨?_, by rw [Function.iterate_succ_apply, h]⟩
  cases hb : b <;> cases ho : R.out c <;> simp_all

/-- A message no longer than what is not vacant was all zeros. -/
theorem eq_false_of_vacant (p : List Bool) : ∀ k, p.length + k ≤ w → R.shift^[k] (R.run 0#w p) = 0#w →
    p = List.replicate p.length false := by
  induction p using List.reverseRecOn with
  | nil => exact fun _ _ _ => rfl
  | append_singleton p b ih =>
    intro k hk h
    rw [List.length_append, List.length_singleton] at hk
    rw [run_append] at h
    obtain ⟨hb, hvacant⟩ := R.of_step_vacant (by omega) h
    have hp := ih (k + 1) (by omega) hvacant
    rw [hp, run_zero_replicate, out_zero] at hb
    rw [hb, List.length_append, List.length_singleton, List.replicate_succ', ← hp]

/-- Zeros do not empty the register. -/
theorem eq_zero_of_run_replicate (n : ℕ) : ∀ c : BitVec w, R.run c (List.replicate n false) = 0#w → c = 0#w := by
  induction n with
  | zero => exact fun _ h => h
  | succ n ih =>
    intro c h
    rw [List.replicate_succ, run_cons] at h
    rcases Nat.eq_zero_or_pos w with hw | hw
    · subst hw
      exact Subsingleton.elim _ _
    obtain ⟨hout, hshift⟩ := R.of_step_vacant (k := 0) hw (ih _ h)
    exact R.eq_zero c hout.symm hshift

/-- Bits that are all 0. -/
theorem eq_replicate {d : List Bool} (h : ∀ i : ℕ, d[i]? ≠ some true) : d = List.replicate d.length false := by
  refine List.eq_replicate_of_mem fun b hb => ?_
  obtain ⟨i, hi⟩ := List.mem_iff_getElem?.mp hb
  cases b with
  | false => rfl
  | true => exact absurd hi (h i)

/-- **A burst fills the register**: ones that all lie in a window of `w` bits. -/
theorem run_burst {e : List Bool} {k : ℕ} (hwindow : ∀ i : ℕ, e[i]? = some true → k ≤ i ∧ i < k + w)
    (h : R.run 0#w e = 0#w) : e = List.replicate e.length false := by
  have hfront : e.take k = List.replicate (e.take k).length false := by
    refine eq_replicate fun i hi => ?_
    rw [List.getElem?_take] at hi
    split at hi
    · have := hwindow i hi
      omega
    · cases hi
  have hback : (e.drop k).drop w = List.replicate ((e.drop k).drop w).length false := by
    refine eq_replicate fun i hi => ?_
    rw [List.getElem?_drop, List.getElem?_drop] at hi
    have := hwindow _ hi
    omega
  have hsplit : e = e.take k ++ ((e.drop k).take w ++ (e.drop k).drop w) := by
    rw [List.take_append_drop, List.take_append_drop]
  rw [hsplit, run_append, run_append, hfront, run_zero_replicate, hback] at h
  have hburst := R.eq_false_of_vacant ((e.drop k).take w) 0 (by rw [List.length_take]; omega)
    (R.eq_zero_of_run_replicate _ _ h)
  refine List.eq_replicate_of_mem fun b hb => ?_
  rw [hsplit, hfront, hburst, hback] at hb
  simp only [List.mem_append, List.mem_replicate] at hb
  rcases hb with hb | hb | hb
  · exact hb.2
  · exact hb.2
  · exact hb.2

theorem getElem?_sum {d e : List Bool} (hlen : d.length = e.length) (i : ℕ) :
    (sum d e)[i]? = some true ↔ d[i]? ≠ e[i]? := by
  rw [sum, List.getElem?_zipWith]
  by_cases hi : i < d.length
  · rw [List.getElem?_eq_getElem hi, List.getElem?_eq_getElem (hlen ▸ hi)]
    cases d[i] <;> cases e.get ⟨i, hlen ▸ hi⟩ <;> simp
  · rw [List.getElem?_eq_none (by omega), List.getElem?_eq_none (by omega)]
    simp

/-- **No burst goes unnoticed**: a message that differs in one window of `w`
bits only leaves something else in the register. -/
theorem run_ne_of_burst {d e : List Bool} {k : ℕ} (hlen : d.length = e.length) (hne : d ≠ e)
    (hwindow : ∀ i : ℕ, d[i]? ≠ e[i]? → k ≤ i ∧ i < k + w) (c : BitVec w) : R.run c d ≠ R.run c e := by
  intro h
  have hzero : R.run 0#w (sum d e) = 0#w :=
    calc R.run 0#w (sum d e) = R.run (c ^^^ c) (sum d e) := by rw [BitVec.xor_self]
      _ = R.run c d ^^^ R.run c e := R.run_xor d e hlen c c
      _ = 0#w := by rw [h, BitVec.xor_self]
  have hsum := R.run_burst (fun i hi => hwindow i ((getElem?_sum hlen i).mp hi)) hzero
  refine hne (List.ext_getElem? fun i => ?_)
  by_contra hi
  have htrue := (getElem?_sum hlen i).mpr hi
  rw [hsum, List.getElem?_replicate] at htrue
  split at htrue
  · cases htrue
  · cases htrue

/-! ### The two directions -/

theorem ushiftRight_iterate (n : ℕ) : ∀ c : BitVec w, (fun e : BitVec w => e >>> 1)^[n] c = c >>> n := by
  induction n with
  | zero => exact fun c => (BitVec.ushiftRight_zero c).symm
  | succ n ih =>
    intro c
    rw [Function.iterate_succ_apply, ih, ← BitVec.shiftRight_add, Nat.add_comm]

theorem shiftLeft_iterate (n : ℕ) : ∀ c : BitVec w, (fun e : BitVec w => e <<< 1)^[n] c = c <<< n := by
  induction n with
  | zero => exact fun c => (BitVec.shiftLeft_zero c).symm
  | succ n ih =>
    intro c
    rw [Function.iterate_succ_apply, ih, ← BitVec.shiftLeft_add, Nat.add_comm]

/-- The bits of a number, the least significant one first. -/
def lsbBits {n : ℕ} (x : BitVec n) : List Bool := (List.range n).map x.getLsbD

/-- The most significant one first. -/
def msbBits {n : ℕ} (x : BitVec n) : List Bool := (List.range n).map x.getMsbD

theorem length_lsbBits {n : ℕ} (x : BitVec n) : (lsbBits x).length = n := by
  rw [lsbBits, List.length_map, List.length_range]

theorem length_msbBits {n : ℕ} (x : BitVec n) : (msbBits x).length = n := by
  rw [msbBits, List.length_map, List.length_range]

/-- The register that shifts to the right. -/
def lsbFirst (poly : BitVec w) (h : poly.msb = true) : ShiftRegister w where
  out c := c.getLsbD 0
  shift c := c >>> 1
  poly := poly
  out_xor c e := BitVec.getLsbD_xor
  shift_xor c e := BitVec.ushiftRight_xor_distrib c e 1
  eq_zero c hout hshift := by
    apply BitVec.eq_of_getLsbD_eq
    intro i hi
    rw [BitVec.getLsbD_zero]
    cases i with
    | zero => exact hout
    | succ i =>
      have hbit := congrArg (fun e => e.getLsbD i) hshift
      rwa [BitVec.getLsbD_ushiftRight, BitVec.getLsbD_zero, Nat.add_comm] at hbit
  shift_width c := by
    rw [ushiftRight_iterate]
    exact BitVec.ushiftRight_eq_zero (Nat.le_refl w)
  out_poly := by
    rw [ushiftRight_iterate, BitVec.getLsbD_ushiftRight, Nat.add_zero]
    rwa [BitVec.msb_eq_getLsbD_last] at h

/-- The register that shifts to the left. -/
def msbFirst (poly : BitVec w) (h : poly.getLsbD 0 = true) : ShiftRegister w where
  out c := c.msb
  shift c := c <<< 1
  poly := poly
  out_xor c e := BitVec.msb_xor
  shift_xor c e := BitVec.shiftLeft_xor_distrib c e 1
  eq_zero c hout hshift := by
    apply BitVec.eq_of_getLsbD_eq
    intro i hi
    rw [BitVec.getLsbD_zero]
    by_cases hlast : i + 1 < w
    · have hbit := congrArg (fun e => e.getLsbD (i + 1)) hshift
      simp only [BitVec.getLsbD_shiftLeft, BitVec.getLsbD_zero, Nat.add_sub_cancel, hlast] at hbit
      simpa using hbit
    · rw [BitVec.msb_eq_getLsbD_last] at hout
      rw [← hout, show i = w - 1 by omega]
  shift_width c := by
    rw [shiftLeft_iterate]
    exact BitVec.shiftLeft_eq_zero (Nat.le_refl w)
  out_poly := by
    have hw : 0 < w := BitVec.lt_of_getLsbD h
    rw [shiftLeft_iterate, BitVec.msb_eq_getLsbD_last, BitVec.getLsbD_shiftLeft, Nat.sub_self, h]
    simp only [Nat.lt_irrefl, decide_false, Bool.not_false, Bool.and_true, decide_eq_true_iff]
    omega

/-- Where each shift moves the bits by one, they come out in their order. -/
theorem outs_eq_map (R : ShiftRegister w) {bit : BitVec w → ℕ → Bool} (hout : ∀ c, R.out c = bit c 0)
    (hshift : ∀ c i, bit (R.shift c) i = bit c (i + 1)) (n : ℕ) (c : BitVec w) :
    R.outs n c = (List.range n).map (bit c) := by
  induction n generalizing c with
  | zero => rfl
  | succ n ih =>
    rw [outs, ih, List.range_succ_eq_map, List.map_cons, List.map_map, hout]
    exact congrArg₂ List.cons rfl (List.map_congr_left fun i _ => hshift c i)

/-- The bits shifted out to the right. -/
theorem outs_lsbFirst {poly : BitVec w} (h : poly.msb = true) (n : ℕ) (c : BitVec w) :
    (lsbFirst poly h).outs n c = (List.range n).map c.getLsbD := by
  refine outs_eq_map _ (fun _ => rfl) (fun c i => ?_) n c
  show (c >>> 1).getLsbD i = c.getLsbD (i + 1)
  rw [BitVec.getLsbD_ushiftRight, Nat.add_comm]

theorem outs_msbFirst {poly : BitVec w} (h : poly.getLsbD 0 = true) (n : ℕ) (c : BitVec w) :
    (msbFirst poly h).outs n c = (List.range n).map c.getMsbD := by
  refine outs_eq_map _ (fun _ => rfl) (fun c i => ?_) n c
  show (c <<< 1).getMsbD i = c.getMsbD (i + 1)
  rw [BitVec.getMsbD_shiftLeft, Nat.add_comm]

theorem sum_map {α : Type*} (f g : α → Bool) (l : List α) :
    sum (l.map f) (l.map g) = l.map fun i => f i ^^ g i := by
  rw [sum, List.zipWith_map, List.zipWith_self]

/-- **A byte at once**, or any other number of `n` bits, to the right: only the last `n`
bits of the register matter for what is added. -/
theorem run_lsbBits {poly : BitVec w} (h : poly.msb = true) {n : ℕ} (c : BitVec w) (x : BitVec n) :
    (lsbFirst poly h).run c (lsbBits x) =
      (c >>> n) ^^^ (lsbFirst poly h).run 0#w (lsbBits (c.setWidth n ^^^ x)) := by
  have hsum : sum ((lsbFirst poly h).outs n c) (lsbBits x) = lsbBits (c.setWidth n ^^^ x) := by
    rw [outs_lsbFirst, lsbBits, sum_map, lsbBits]
    refine List.map_congr_left fun i hi => ?_
    rw [BitVec.getLsbD_xor, BitVec.getLsbD_setWidth, decide_eq_true (List.mem_range.mp hi), Bool.true_and]
  rw [run_eq, length_lsbBits, hsum]
  exact congrArg (· ^^^ _) (ushiftRight_iterate n c)

/-- The same to the left, where the first `n` bits matter. -/
theorem run_msbBits {poly : BitVec w} (h : poly.getLsbD 0 = true) {n : ℕ} (hn : n ≤ w) (c : BitVec w)
    (x : BitVec n) : (msbFirst poly h).run c (msbBits x) =
      (c <<< n) ^^^ (msbFirst poly h).run 0#w (msbBits ((c >>> (w - n)).setWidth n ^^^ x)) := by
  have hsum : sum ((msbFirst poly h).outs n c) (msbBits x) = msbBits ((c >>> (w - n)).setWidth n ^^^ x) := by
    rw [outs_msbFirst, msbBits, sum_map, msbBits]
    refine List.map_congr_left fun i hi => ?_
    have hi' := List.mem_range.mp hi
    rw [BitVec.getMsbD_xor]
    refine congrArg (· ^^ x.getMsbD i) ?_
    rw [BitVec.getMsbD_eq_getLsbD, BitVec.getMsbD_eq_getLsbD, BitVec.getLsbD_setWidth,
      BitVec.getLsbD_ushiftRight, show w - n + (n - 1 - i) = w - 1 - i by omega]
    simp [hi', show i < w by omega, show n - 1 - i < n by omega]
  rw [run_eq, length_msbBits, hsum]
  exact congrArg (· ^^^ _) (shiftLeft_iterate n c)

/-! ### Messages of bytes -/

/-- A message taken a byte at a time, each byte bit by bit. -/
theorem run_flatMap {α : Type*} {bits : α → List Bool} {f : BitVec w → α → BitVec w}
    (h : ∀ c x, f c x = R.run c (bits x)) (d : List α) :
    ∀ c, d.foldl f c = R.run c (d.flatMap bits) := by
  induction d with
  | nil => exact fun _ => rfl
  | cons x d ih =>
    intro c
    rw [List.foldl_cons, ih, List.flatMap_cons, run_append, h]

theorem length_flatMap {α : Type*} {bits : α → List Bool} {n : ℕ} (hn : ∀ x, (bits x).length = n) :
    ∀ d : List α, (d.flatMap bits).length = n * d.length
  | [] => rfl
  | x :: d => by
    rw [List.flatMap_cons, List.length_append, hn, length_flatMap hn d, List.length_cons, Nat.mul_succ]
    omega

/-- The bits determine the message. -/
theorem flatMap_injective {α : Type*} {bits : α → List Bool} {n : ℕ} (hn : ∀ x, (bits x).length = n)
    (hinj : Function.Injective bits) : ∀ d e : List α, d.length = e.length →
      d.flatMap bits = e.flatMap bits → d = e
  | [], [], _, _ => rfl
  | x :: d, y :: e, hlen, h => by
    rw [List.flatMap_cons, List.flatMap_cons] at h
    obtain ⟨hx, hd⟩ := List.append_inj h ((hn x).trans (hn y).symm)
    rw [hinj hx, flatMap_injective hn hinj d e (Nat.succ.inj hlen) hd]

/-- A burst in a message of bytes. -/
theorem foldl_ne_of_burst {α : Type*} {bits : α → List Bool} {f : BitVec w → α → BitVec w}
    (hf : ∀ c x, f c x = R.run c (bits x)) {n : ℕ} (hn : ∀ x, (bits x).length = n)
    (hinj : Function.Injective bits) {d e : List α} {k : ℕ} (hlen : d.length = e.length) (hne : d ≠ e)
    (hwindow : ∀ i : ℕ, (d.flatMap bits)[i]? ≠ (e.flatMap bits)[i]? → k ≤ i ∧ i < k + w) (c : BitVec w) :
    d.foldl f c ≠ e.foldl f c := by
  rw [R.run_flatMap hf, R.run_flatMap hf]
  refine R.run_ne_of_burst ?_ (fun h => hne (flatMap_injective hn hinj d e hlen h)) hwindow c
  rw [length_flatMap hn, length_flatMap hn, hlen]

theorem lsbBits_injective {n : ℕ} : Function.Injective (lsbBits : BitVec n → List Bool) := by
  intro x y h
  apply BitVec.eq_of_getLsbD_eq
  intro i hi
  exact List.map_inj_left.mp h i (List.mem_range.mpr hi)

theorem msbBits_injective {n : ℕ} : Function.Injective (msbBits : BitVec n → List Bool) := by
  intro x y h
  apply BitVec.eq_of_getMsbD_eq
  intro i hi
  exact List.map_inj_left.mp h i (List.mem_range.mpr hi)

end ShiftRegister
