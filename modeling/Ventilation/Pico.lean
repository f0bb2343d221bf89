/-
# What the firmware assumes of the Pico SDK's clock

Times are microseconds since boot. The three functions are the SDK's; the
fields ending in `_eq` and `_iff` say what the firmware relies on.
-/
import Ventilation.Lib.CInt

namespace Ventilation

/-- The SDK's timeout functions, called when the clock reads `now`. -/
structure PicoTime where
  make_timeout_time_ms (now ms : ℕ) : ℕ
  absolute_time_diff_us (start stop : ℕ) : ℤ
  time_reached (now t : ℕ) : Bool
  /-- A `uint32_t` number of milliseconds is added to the current time. -/
  make_timeout_time_ms_eq : ∀ now ms, ms < 2 ^ 32 → make_timeout_time_ms now ms = now + 1000 * ms
  absolute_time_diff_us_eq : ∀ start stop, absolute_time_diff_us start stop = (stop : ℤ) - start
  time_reached_iff : ∀ now t, time_reached now t = true ↔ t ≤ now

/-- The SDK's functions as it documents them. -/
def PicoTime.documented : PicoTime where
  make_timeout_time_ms now ms := now + 1000 * ms
  absolute_time_diff_us start stop := (stop : ℤ) - start
  time_reached now t := decide (t ≤ now)
  make_timeout_time_ms_eq _ _ _ := rfl
  absolute_time_diff_us_eq _ _ := rfl
  time_reached_iff _ _ := decide_eq_true_iff

end Ventilation
