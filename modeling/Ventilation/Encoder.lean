/-
# The encoder's count and its shaft (src/input.cpp)

The shaft turns in steps, each of which changes one of the encoder's two pins, and
every change runs `handler`. It counts the edges of pin 10 by the level of pin 11,
which goes up and down with the shaft: twice the count, less the position and less 1
where the pins differ, stays (`step_drift`). But the level it compares with
at first is 0 and not the pin's, and then the first step moves that sum.
`count_right_iff` says for which walks the count is a function of the position.
-/
import Mathlib.Tactic.Ring
import Ventilation.Input

namespace Ventilation

/-- Pins 10 and 11. -/
inductive EncoderPin
  | A
  | B

/-- The levels of the pins, how many steps the shaft is from where it started, and the input. -/
structure Shaft where
  A : Bool
  B : Bool
  position : ℤ
  input : Input

namespace Shaft

/-- A pin changes, and `handler` finds the levels after it. Clockwise the pins go
through 00, 10, 11 and 01. -/
def step (s : Shaft) : EncoderPin → Shaft
  | .A => ⟨!s.A, s.B, s.position + if s.A = s.B then 1 else -1, s.input.handler ⟨10, !s.A, s.B⟩⟩
  | .B => ⟨s.A, !s.B, s.position + if s.A = s.B then -1 else 1, s.input.handler ⟨11, s.A, !s.B⟩⟩

/-- The encoder as constructed: `last_state` is 0 at any level of the pins. -/
def start (A B : Bool) (data : DataPass) : Shaft := ⟨A, B, 0, ⟨data, false⟩⟩

def count (s : Shaft) : ℤ := s.input.returnVal

/-- The `i`-th moment of a walk, which is its end from its length on. -/
def moment (s : Shaft) (walk : List EncoderPin) (i : ℕ) : Shaft := (walk.take i).foldl step s

/-- A full cycle, clockwise or back, that a walk makes between two moments. -/
def Cycle (s : Shaft) (walk : List EncoderPin) (turn : ℤ) (i j : ℕ) : Prop :=
  i ≤ j ∧ (s.moment walk j).position = (s.moment walk i).position + 4 * turn

/-- The count goes with the position: it is the same whenever the position is, and a cycle
back takes from it what a cycle adds. -/
structure Right (s : Shaft) (walk : List EncoderPin) : Prop where
  same : ∀ i j, (s.moment walk i).position = (s.moment walk j).position →
    (s.moment walk i).count = (s.moment walk j).count
  opposite : ∀ i j i' j', s.Cycle walk 1 i j → s.Cycle walk (-1) i' j' →
    (s.moment walk j).count - (s.moment walk i).count =
      -((s.moment walk j').count - (s.moment walk i').count)

/-- The walk comes back to where it started. -/
def Returns (s : Shaft) (walk : List EncoderPin) : Prop :=
  walk ≠ [] ∧ ∃ i, (s.moment walk (i + 1)).position = s.position

/-- It makes full cycles in both directions. -/
def BothWays (s : Shaft) (walk : List EncoderPin) : Prop :=
  (∃ i j, s.Cycle walk 1 i j) ∧ ∃ i j, s.Cycle walk (-1) i j

/-! ### Steps -/

/-- What a step should leave as it is. -/
def drift (s : Shaft) : ℤ := 2 * s.count - s.position - if s.A = s.B then 0 else 1

variable {s : Shaft} {walk : List EncoderPin}

theorem step_position (s : Shaft) (pin : EncoderPin) :
    (s.step pin).position = s.position + 1 ∨ (s.step pin).position = s.position - 1 := by
  cases pin with
  | A =>
    show s.position + (if s.A = s.B then 1 else -1) = _ ∨ s.position + (if s.A = s.B then 1 else -1) = _
    split <;> omega
  | B =>
    show s.position + (if s.A = s.B then -1 else 1) = _ ∨ s.position + (if s.A = s.B then -1 else 1) = _
    split <;> omega

/-- A step leaves it if pin 10 was at the level that the handler compares with. -/
theorem step_drift (s : Shaft) (pin : EncoderPin) : (s.step pin).input.last_state = (s.step pin).A ∧
    (s.step pin).drift = s.drift -
      if s.input.last_state = s.A then 0 else 2 * ((s.step pin).position - s.position) := by
  obtain ⟨A, B, position, ⟨data, last_state⟩⟩ := s
  cases pin with
  | A =>
    refine ⟨rfl, ?_⟩
    cases A <;> cases B <;> cases last_state <;>
      simp [drift, step, count, Input.handler, Input.returnVal] <;> ring
  | B =>
    refine ⟨rfl, ?_⟩
    cases A <;> cases B <;> cases last_state <;>
      simp [drift, step, count, Input.handler, Input.returnVal] <;> ring

/-- The count, between halves. -/
theorem count_bounds (s : Shaft) :
    s.position + s.drift ≤ 2 * s.count ∧ 2 * s.count ≤ s.position + s.drift + 1 := by
  unfold drift
  split <;> omega

/-! ### Walks -/

theorem moment_zero (s : Shaft) (walk : List EncoderPin) : s.moment walk 0 = s := rfl

theorem moment_cons (s : Shaft) (pin : EncoderPin) (walk : List EncoderPin) (i : ℕ) :
    s.moment (pin :: walk) (i + 1) = (s.step pin).moment walk i := rfl

/-- From one moment to the next, unless the walk is over. -/
theorem moment_succ (s : Shaft) (walk : List EncoderPin) (i : ℕ) :
    s.moment walk (i + 1) = s.moment walk i ∨ ∃ pin, s.moment walk (i + 1) = (s.moment walk i).step pin := by
  unfold moment
  rw [List.take_add_one, List.foldl_append]
  cases walk[i]? with
  | none => exact .inl rfl
  | some pin => exact .inr ⟨pin, rfl⟩

theorem moment_near (s : Shaft) (walk : List EncoderPin) (i : ℕ) :
    (s.moment walk i).position - 1 ≤ (s.moment walk (i + 1)).position ∧
      (s.moment walk (i + 1)).position ≤ (s.moment walk i).position + 1 := by
  rcases moment_succ s walk i with h | ⟨pin, h⟩
  · rw [h]
    omega
  · rw [h]
    rcases step_position (s.moment walk i) pin with hp | hp <;> omega

/-- A walk leaves the drift, from a level that the handler knows. -/
theorem moment_drift (h : s.input.last_state = s.A) (walk : List EncoderPin) (i : ℕ) :
    (s.moment walk i).drift = s.drift := by
  have hkept : (s.moment walk i).input.last_state = (s.moment walk i).A ∧ (s.moment walk i).drift = s.drift := by
    induction i with
    | zero => exact ⟨h, rfl⟩
    | succ i ih =>
      rcases moment_succ s walk i with hsame | ⟨pin, hstep⟩
      · rw [hsame]
        exact ih
      · obtain ⟨hlast, hdrift⟩ := step_drift (s.moment walk i) pin
        rw [if_pos ih.1, sub_zero] at hdrift
        rw [hstep]
        exact ⟨hlast, hdrift.trans ih.2⟩
  exact hkept.2

/-- From another one, the first step moves it. -/
theorem moment_drift_first (h : s.input.last_state ≠ s.A) (pin : EncoderPin) (walk : List EncoderPin) (i : ℕ) :
    (s.moment (pin :: walk) (i + 1)).drift = s.drift - 2 * ((s.step pin).position - s.position) := by
  obtain ⟨hlast, hdrift⟩ := step_drift s pin
  rw [if_neg h] at hdrift
  rw [moment_cons, moment_drift hlast, hdrift]

/-- A walk that does not come back stays on the side of its first step. -/
theorem moment_side (walk : List EncoderPin) {turn : ℤ} (hturn : turn = 1 ∨ turn = -1)
    (hfirst : (s.moment walk 1).position = s.position + turn)
    (hback : ∀ i, (s.moment walk (i + 1)).position ≠ s.position) (i : ℕ) :
    1 ≤ turn * ((s.moment walk (i + 1)).position - s.position) := by
  induction i with
  | zero =>
    rw [zero_add, hfirst]
    rcases hturn with rfl | rfl <;> omega
  | succ i ih =>
    have hnear := moment_near s walk (i + 1)
    have hne := hback (i + 1)
    rcases hturn with rfl | rfl <;> omega

/-- It passes every position up to the one where it is. -/
theorem moment_passes (s : Shaft) (walk : List EncoderPin) {turn : ℤ} (hturn : turn = 1 ∨ turn = -1) {p : ℤ}
    (hp : 0 ≤ p) (i : ℕ) : p ≤ turn * ((s.moment walk i).position - s.position) →
      ∃ m ≤ i, (s.moment walk m).position = s.position + p * turn := by
  induction i with
  | zero =>
    intro h
    rw [moment_zero, sub_self, mul_zero] at h
    obtain rfl : p = 0 := le_antisymm h hp
    exact ⟨0, le_rfl, by rw [moment_zero, zero_mul, add_zero]⟩
  | succ i ih =>
    intro h
    by_cases hle : p ≤ turn * ((s.moment walk i).position - s.position)
    · obtain ⟨m, hm, hpos⟩ := ih hle
      exact ⟨m, hm.trans (Nat.le_succ i), hpos⟩
    · refine ⟨i + 1, le_rfl, ?_⟩
      have hnear := moment_near s walk i
      rcases hturn with rfl | rfl <;> omega

/-! ### The count and the position -/

/-- A position has one count, and a cycle the same in both directions. -/
theorem right_of_drift (h : ∀ i, (s.moment walk i).drift = s.drift) : s.Right walk := by
  refine ⟨fun i j hp => ?_, fun i j i' j' hc hc' => ?_⟩
  · have hi := count_bounds (s.moment walk i)
    have hj := count_bounds (s.moment walk j)
    rw [h] at hi hj
    omega
  · have hi := count_bounds (s.moment walk i)
    have hj := count_bounds (s.moment walk j)
    have hi' := count_bounds (s.moment walk i')
    have hj' := count_bounds (s.moment walk j')
    rw [h] at hi hj hi' hj'
    have h1 := hc.2
    have h2 := hc'.2
    omega

section Unknown

variable {pin : EncoderPin} (h : s.input.last_state ≠ s.A)
include h

/-- The bounds of the count after the first step. -/
theorem count_bounds_first (pin : EncoderPin) (walk : List EncoderPin) (i : ℕ) :
    (s.moment (pin :: walk) (i + 1)).position + s.drift - 2 * ((s.step pin).position - s.position) ≤
        2 * (s.moment (pin :: walk) (i + 1)).count ∧
      2 * (s.moment (pin :: walk) (i + 1)).count ≤
        (s.moment (pin :: walk) (i + 1)).position + s.drift - 2 * ((s.step pin).position - s.position) + 1 := by
  have hb := count_bounds (s.moment (pin :: walk) (i + 1))
  rw [moment_drift_first h] at hb
  omega

/-- Back at the start the count is another one. -/
theorem not_returns_of_right (hr : s.Right (pin :: walk)) : ¬ s.Returns (pin :: walk) := by
  rintro ⟨-, i, hi⟩
  have hsame := hr.same (i + 1) 0 hi
  rw [moment_zero] at hsame
  have h0 := count_bounds s
  have hb := count_bounds_first h pin walk i
  rcases step_position s pin with hp | hp <;> omega

/-- Before a walk goes a cycle back, it goes one from the start. That one counts one, and the one back two. -/
theorem cycle_counts (hback : ∀ i, (s.moment (pin :: walk) (i + 1)).position ≠ s.position) {turn : ℤ}
    (hturn : turn = 1 ∨ turn = -1) (hfirst : (s.step pin).position = s.position + turn) {i j : ℕ}
    (hcycle : s.Cycle (pin :: walk) (-turn) i j) : ∃ m, s.Cycle (pin :: walk) turn 0 m ∧
      (s.moment (pin :: walk) m).count - s.count = turn ∧
      (s.moment (pin :: walk) j).count - (s.moment (pin :: walk) i).count = -2 * turn := by
  obtain ⟨hij, hpos⟩ := hcycle
  have hlater : ∀ k, (s.moment (pin :: walk) k).position ≠ s.position → ∃ l, k = l + 1 :=
    fun k hk => Nat.exists_eq_succ_of_ne_zero fun h0 => hk (h0 ▸ rfl)
  have hj : 1 ≤ turn * ((s.moment (pin :: walk) j).position - s.position) := by
    rcases j with _ | j
    · obtain rfl : i = 0 := Nat.le_zero.mp hij
      rcases hturn with rfl | rfl <;> omega
    · exact moment_side (pin :: walk) hturn hfirst hback j
  obtain ⟨m, -, hm⟩ := moment_passes s (pin :: walk) hturn (show (0 : ℤ) ≤ 4 by decide) i
    (by rcases hturn with rfl | rfl <;> omega)
  refine ⟨m, ⟨Nat.zero_le m, hm⟩, ?_⟩
  obtain ⟨m, rfl⟩ := hlater m (by rcases hturn with rfl | rfl <;> omega)
  obtain ⟨i, rfl⟩ := hlater i (by rcases hturn with rfl | rfl <;> omega)
  obtain ⟨j, rfl⟩ := hlater j (by rcases hturn with rfl | rfl <;> omega)
  have h0 := count_bounds s
  have hbm := count_bounds_first h pin walk m
  have hbi := count_bounds_first h pin walk i
  have hbj := count_bounds_first h pin walk j
  rcases hturn with rfl | rfl <;> omega

/-- So a count that goes with the position has no cycles in both directions. -/
theorem not_bothWays_of_right (hr : s.Right (pin :: walk)) : ¬ s.BothWays (pin :: walk) := by
  have hback : ∀ i, (s.moment (pin :: walk) (i + 1)).position ≠ s.position := fun i hi =>
    not_returns_of_right h hr ⟨List.cons_ne_nil _ _, i, hi⟩
  rintro ⟨⟨i, j, hcycle⟩, i', j', hcycle'⟩
  rcases step_position s pin with hfirst | hfirst
  · obtain ⟨m, hm, hone, htwo⟩ := cycle_counts h hback (.inl rfl) hfirst hcycle'
    have hopposite := hr.opposite 0 m i' j' hm hcycle'
    rw [moment_zero, hone, htwo] at hopposite
    exact absurd hopposite (by decide)
  · obtain ⟨m, hm, hone, htwo⟩ := cycle_counts h hback (.inr rfl) hfirst hcycle
    have hopposite := hr.opposite i j 0 m hcycle hm
    rw [moment_zero, hone, htwo] at hopposite
    exact absurd hopposite (by decide)

/-- A walk that does neither is right. -/
theorem right_of_unknown (hback : ¬ s.Returns (pin :: walk)) (hways : ¬ s.BothWays (pin :: walk)) :
    s.Right (pin :: walk) := by
  have hb := count_bounds_first h pin walk
  refine ⟨fun i j hp => ?_, fun i j i' j' hc hc' => absurd ⟨⟨i, j, hc⟩, i', j', hc'⟩ hways⟩
  have hne : ∀ k, (s.moment (pin :: walk) (k + 1)).position ≠ s.position := fun k hk =>
    hback ⟨List.cons_ne_nil _ _, k, hk⟩
  rcases i with _ | i
  · rcases j with _ | j
    · rfl
    · exact absurd hp.symm (hne j)
  · rcases j with _ | j
    · exact absurd hp (hne i)
    · have hbi := hb i
      have hbj := hb j
      omega

end Unknown

/-- **When the count goes with the shaft**: pin 10 is low at the start, where `last_state` is
too, or the walk neither comes back to its start nor makes full cycles in both directions. -/
theorem count_right_iff (A B : Bool) (data : DataPass) (walk : List EncoderPin) :
    (start A B data).Right walk ↔
      A = false ∨ ¬ (start A B data).Returns walk ∧ ¬ (start A B data).BothWays walk := by
  cases A with
  | false => exact iff_of_true (right_of_drift fun i => moment_drift rfl walk i) (.inl rfl)
  | true =>
    have hunknown : (start true B data).input.last_state ≠ (start true B data).A := Bool.false_ne_true
    rw [or_iff_right (show true ≠ false by decide)]
    cases walk with
    | nil =>
      have hstays : ∀ i, (start true B data).moment [] i = start true B data := fun i => by
        rw [moment, List.take_nil, List.foldl_nil]
      refine iff_of_true (right_of_drift fun i => by rw [hstays]) ⟨fun hr => hr.1 rfl, ?_⟩
      rintro ⟨⟨i, j, -, hp⟩, -⟩
      rw [hstays, hstays] at hp
      omega
    | cons pin walk =>
      exact ⟨fun hr => ⟨not_returns_of_right hunknown hr, not_bothWays_of_right hunknown hr⟩,
        fun hn => right_of_unknown hunknown hn.1 hn.2⟩

/-- **Pin 10 is high at the start**, and pin 11 bounces once: the count has gone up. -/
theorem bounce_counted : ¬ (start true true ⟨0, 0, false⟩).Right [.B, .B] :=
  fun h => absurd (h.same 0 2 rfl) (by decide)

end Shaft
end Ventilation
