/-
# The MQTT client's timers (src/Countdown.cpp) and the deadline of a read

A `Countdown` holds a target time. The client asks it for the milliseconds
left and hands them to `IPStack::read`, which adds them to the clock again.
`left_ms` is a signed quotient truncated towards zero; the SDK takes an
unsigned number. Once a millisecond has passed since the target time, the
quotient is negative and the deadline lies up to 49.7 days ahead
(`expired_timer_waits`); until then the deadline is not later than the target
time. `read_deadline_le_iff` says exactly when it is not later than it should.
-/
import Ventilation.IPStackFifo

namespace Ventilation

open CInt

structure Countdown where
  target_time : ℕ

namespace Countdown

section Defs

variable (sdk : PicoTime)

/-- `Countdown()`, called at `now`. -/
def new (now : ℕ) : Countdown := ⟨sdk.make_timeout_time_ms now 0⟩

/-- `Countdown(int ms)`. -/
def ofMs (now : ℕ) (ms : ℤ) : Countdown := ⟨sdk.make_timeout_time_ms now (toUnsigned 32 ms)⟩

def expired (c : Countdown) (now : ℕ) : Bool := sdk.time_reached now c.target_time

def countdown_ms (_ : Countdown) (now : ℕ) (ms : ℤ) : Countdown :=
  ⟨sdk.make_timeout_time_ms now (toUnsigned 32 ms)⟩

/-- `none` when `seconds * 1000` overflows. -/
def countdown (_ : Countdown) (now : ℕ) (seconds : ℤ) : Option Countdown :=
  (signed? 32 (seconds * 1000)).map fun ms => ⟨sdk.make_timeout_time_ms now (toUnsigned 32 ms)⟩

def left_ms (c : Countdown) (now : ℕ) : ℤ :=
  toSigned 32 ((sdk.absolute_time_diff_us now c.target_time).tdiv 1000)

/-- The timers the code can hold: `c` was last set when the clock read `t`. -/
inductive SetAt : Countdown → ℕ → Prop
  | new (t : ℕ) : SetAt (new sdk t) t
  | ofMs (t : ℕ) (ms : ℤ) : SetAt (ofMs sdk t ms) t
  | countdown_ms (c : Countdown) (t : ℕ) (ms : ℤ) : SetAt (c.countdown_ms sdk t ms) t
  | countdown {c c' : Countdown} {t : ℕ} {seconds : ℤ} :
    c.countdown sdk t seconds = some c' → SetAt c' t

end Defs

variable {sdk : PicoTime} {c : Countdown} {t now : ℕ}

/-- A timer was set to at most `2 ^ 32 - 1` milliseconds ahead. -/
theorem SetAt.target (h : SetAt sdk c t) : ∃ ms < 2 ^ 32, c.target_time = t + 1000 * ms := by
  have hms : ∀ ms : ℤ, ∃ k < 2 ^ 32, sdk.make_timeout_time_ms t (toUnsigned 32 ms) = t + 1000 * k :=
    fun ms => ⟨_, toUnsigned_lt 32 ms, sdk.make_timeout_time_ms_eq _ _ (toUnsigned_lt 32 ms)⟩
  cases h with
  | new => exact ⟨0, by decide, sdk.make_timeout_time_ms_eq _ _ (by decide)⟩
  | ofMs _ ms => exact hms ms
  | countdown_ms _ _ ms => exact hms ms
  | countdown h =>
    obtain ⟨ms, -, rfl⟩ := Option.map_eq_some_iff.mp h
    exact hms ms

/-- The number of milliseconds the deadline lies ahead: those left, modulo
`2 ^ 32`. -/
theorem readDeadline_left_ms : IPStack.readDeadline sdk now (c.left_ms sdk now) =
    now + 1000 * toUnsigned 32 (((c.target_time : ℤ) - now).tdiv 1000) := by
  rw [IPStack.readDeadline, sdk.make_timeout_time_ms_eq _ _ (toUnsigned_lt 32 _), left_ms,
    toUnsigned_toSigned, sdk.absolute_time_diff_us_eq]

/-- Before the target time the milliseconds left are rounded down. -/
theorem left_of_le (h : now ≤ c.target_time) :
    ((c.target_time : ℤ) - now).tdiv 1000 = ((c.target_time - now) / 1000 : ℕ) := by
  rw [← Nat.cast_sub h]
  exact Int.ofNat_tdiv _ _

/-- Behind it the milliseconds passed are rounded down, and negative. -/
theorem left_of_ge (h : c.target_time ≤ now) :
    ((c.target_time : ℤ) - now).tdiv 1000 = -((now - c.target_time) / 1000 : ℕ) := by
  rw [show (c.target_time : ℤ) - now = -((now - c.target_time : ℕ) : ℤ) by omega, Int.neg_tdiv]
  exact congrArg _ (Int.ofNat_tdiv _ _)

theorem toUnsigned_neg_eq_zero_iff (k : ℕ) : toUnsigned 32 (-(k : ℤ)) = 0 ↔ 2 ^ 32 ∣ k := by
  unfold toUnsigned
  omega

/-- **The deadline of a read.** At any time after the timer was set, the
deadline computed from the time left is not later than the target time (or
than now, if that has passed) exactly if less than a millisecond has passed
since the target time, or a multiple of `2 ^ 32` whole milliseconds. -/
theorem read_deadline_le_iff (hset : SetAt sdk c t) (hnow : t ≤ now) :
    IPStack.readDeadline sdk now (c.left_ms sdk now) ≤ max now c.target_time ↔
      now < c.target_time + 1000 ∨ 2 ^ 32 ∣ (now - c.target_time) / 1000 := by
  obtain ⟨ms, hms, htarget⟩ := hset.target
  rw [readDeadline_left_ms]
  rcases le_total now c.target_time with h | h
  · have hleft : toUnsigned 32 (((c.target_time - now) / 1000 : ℕ) : ℤ) =
        (c.target_time - now) / 1000 := by
      rw [toUnsigned_natCast, Nat.mod_eq_of_lt (by omega)]
    rw [left_of_le h, hleft]
    omega
  · rw [left_of_ge h]
    have hz := toUnsigned_neg_eq_zero_iff ((now - c.target_time) / 1000)
    omega

/-- A timer of 0 ms, half a millisecond after it was set. -/
theorem read_deadline_le_iff_expired :
    IPStack.readDeadline .documented 500 ((new .documented 0).left_ms .documented 500) ≤
      max 500 (new .documented 0).target_time ↔
    500 < (new .documented 0).target_time + 1000 ∨
      2 ^ 32 ∣ (500 - (new .documented 0).target_time) / 1000 :=
  read_deadline_le_iff (.new 0) (by decide)

/-- One millisecond after a timer of 0 ms has expired a read with the time left
waits until 2^32 - 1 ms later. -/
theorem expired_timer_waits : (new .documented 0).expired .documented 1000 = true ∧
    ¬ IPStack.readDeadline .documented 1000 ((new .documented 0).left_ms .documented 1000) ≤
      max 1000 (new .documented 0).target_time := by
  decide

end Countdown

namespace IPStack

/-- A read whose deadline has come when it starts polls once. -/
theorem pollLoop_of_reached (sdk : PicoTime) (lw : Lwip) {len t : ℕ} {s : IPStack} {p last : Poll}
    {ps : List Poll} (h : t ≤ p.now) :
    pollLoop sdk lw len t s (p :: ps) last = s.cyw43_arch_poll lw p.chains := by
  have hr : sdk.time_reached p.now t = true := (sdk.time_reached_iff _ _).mpr h
  rw [pollLoop]
  cases s.cyw43_arch_poll lw p.chains with
  | none => rfl
  | some s' => simp [hr]

end IPStack

end Ventilation
