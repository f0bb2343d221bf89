/-
# The fan and its pressure sensor (src/fan_controller/fan.cpp, src/pressure_handler/pressure.cpp)

The sensor's two bytes are a signed word, scaled into a pressure between -130
and 130 (`get_bounds`), whatever they are. From a speed between 0 and 1000
and a target between 0 and 120 `adjust_speed` neither overflows nor leaves
that range, and what it hands to the speed register is the new speed
(`adjust_speed_spec`).
-/
import Ventilation.IPStack
import Ventilation.Lib.Machine
import Mathlib.Algebra.Order.Group.Abs
import Mathlib.Algebra.Order.Group.Int

namespace Ventilation

open CInt

/-- `PressureRegister::get` from the first two bytes it has read. The product is
that of a 16-bit word: it fits an `int`. -/
def PressureRegister.get (in0 in1 : Byte) : ℤ :=
  let value := (in0 ++ in1 : BitVec 16).toInt
  toSigned 16 ((value * 95).tdiv (240 * 100))

structure FAN where
  speed : ℤ
  pressure : ℤ
  error_time_ms : BitVec 32
  error : Bool

namespace FAN

def PRESSURE_TARGET_TOLERANCE : ℤ := 5
def PRESSURE_MAX : ℤ := 150
def SPEED_MIN : ℤ := 0
def SPEED_MAX : ℤ := 1000
def ERROR_DELAY : BitVec 32 := 30000

/-- The constructor, over what the memory of the object held, and the value it
hands to the speed register. -/
def new (mem : FAN) (speed : ℤ) : FAN × ℕ := ({ mem with speed, pressure := 0 }, 0)

def get_speed (fan : FAN) : ℤ := fan.speed

def get_pressure (fan : FAN) : ℤ := fan.pressure

def get_error (fan : FAN) : Bool := fan.error

/-- The fan and the value handed to the speed register. -/
def set_speed (fan : FAN) (speed : ℕ) : FAN × ℕ := ({ fan with error := false, speed }, speed)

/-- The distance and the fan, which keeps the pressure. -/
def pressure_distance (fan : FAN) (in0 in1 : Byte) (target : ℤ) : Option (FAN × ℤ) := do
  let pressure := PressureRegister.get in0 in1
  let distance ← signed? 32 (target - pressure)
  pure ({ fan with pressure }, distance)

/-- An integer that a `float` holds exactly. -/
def float? (x : ℤ) : Option ℤ := if |x| ≤ 2 ^ 24 then some x else none

/-- `speed += adjust / 2`, where `adjust` is a `float`: a sum of halves, cut
off towards 0. `none` when the product overflows or a `float` is not exact. -/
def moved (speed distance : ℤ) : Option ℤ := do
  let product ← signed? 32 (distance * SPEED_MAX)
  let adjust ← float? (product.tdiv PRESSURE_MAX)
  let halves ← float? (2 * speed + adjust)
  pure (halves.tdiv 2)

/-- Cut to the range of the speed. -/
def limited (speed : ℤ) : ℤ :=
  let speed := if speed > SPEED_MAX then SPEED_MAX else speed
  if speed < SPEED_MIN then SPEED_MIN else speed

/-- The part of `adjust_speed` behind the tolerance check, at `current`. -/
def regulate (fan : FAN) (distance : ℤ) (current : BitVec 32) : Option (FAN × Option ℕ) := do
  let error := if current - fan.error_time_ms > ERROR_DELAY then true else fan.error
  let speed ← moved fan.speed distance
  pure ({ fan with error, speed := limited speed }, some (toUnsigned 16 (limited speed)))

/-- `adjust_speed` when the sensor gives `in0`, `in1` and the clock reads
`current`: the fan and the value handed to the speed register, if any. -/
def adjust_speed (fan : FAN) (target_pressure : ℤ) (in0 in1 : Byte) (current : BitVec 32) :
    Option (FAN × Option ℕ) := do
  let (fan, distance) ← fan.pressure_distance in0 in1 target_pressure
  let magnitude ← signed? 32 |distance|
  if magnitude < PRESSURE_TARGET_TOLERANCE then
    pure ({ fan with error_time_ms := current, error := false }, none)
  else fan.regulate distance current

/-! ### What they do -/

/-- The range of the speed. -/
def SpeedOk (fan : FAN) : Prop := 0 ≤ fan.speed ∧ fan.speed ≤ 1000

theorem speedOk_set_speed (fan : FAN) {speed : ℕ} (h : speed ≤ 1000) :
    (fan.set_speed speed).1.SpeedOk := ⟨Int.natCast_nonneg _, Int.ofNat_le.mpr h⟩

/-- Whatever the two bytes, the scaled value fits. -/
theorem get_bounds (in0 in1 : Byte) :
    -130 ≤ PressureRegister.get in0 in1 ∧ PressureRegister.get in0 in1 ≤ 130 := by
  have h1 := BitVec.le_toInt (in0 ++ in1 : BitVec 16)
  have h2 := BitVec.toInt_lt (x := (in0 ++ in1 : BitVec 16))
  generalize hv : (in0 ++ in1 : BitVec 16).toInt = v at h1 h2
  have hq : -130 ≤ (v * 95).tdiv (240 * 100) ∧ (v * 95).tdiv (240 * 100) ≤ 130 :=
    tdiv_bounds (by decide) (by omega) (by omega)
  have hs : PressureRegister.get in0 in1 = (v * 95).tdiv (240 * 100) := by
    rw [PressureRegister.get, hv]
    exact toSigned_eq (by decide) (by omega) (by omega)
  omega

/-- A move by less than 3000 halves is exact. -/
theorem moved_isSome {speed distance : ℤ} (hs : 0 ≤ speed ∧ speed ≤ 1000)
    (hd : -250 ≤ distance ∧ distance ≤ 250) : ∃ x, moved speed distance = some x := by
  have hp : signed? 32 (distance * SPEED_MAX) = some (distance * 1000) :=
    signed?_eq (by unfold SPEED_MAX; omega) (by unfold SPEED_MAX; omega)
  have hq : -1700 ≤ (distance * 1000).tdiv 150 ∧ (distance * 1000).tdiv 150 ≤ 1700 :=
    tdiv_bounds (by decide) (by omega) (by omega)
  have hadj : float? ((distance * 1000).tdiv PRESSURE_MAX) = some ((distance * 1000).tdiv 150) :=
    if_pos (by unfold PRESSURE_MAX; rw [abs_le]; omega)
  have hsum : float? (2 * speed + (distance * 1000).tdiv 150) =
      some (2 * speed + (distance * 1000).tdiv 150) := if_pos (by rw [abs_le]; omega)
  rw [moved, Machine.bind_of hp, Machine.bind_of hadj, Machine.bind_of hsum]
  exact ⟨_, rfl⟩

theorem limited_bounds (x : ℤ) : 0 ≤ limited x ∧ limited x ≤ 1000 := by
  unfold limited SPEED_MAX SPEED_MIN
  simp only
  split_ifs <;> omega

theorem regulate_spec {fan : FAN} {distance : ℤ} (current : BitVec 32) (h : fan.SpeedOk)
    (hd : -250 ≤ distance ∧ distance ≤ 250) :
    ∃ fan' value, fan.regulate distance current = some (fan', value) ∧ fan'.SpeedOk ∧
      ∀ v ∈ value, (v : ℤ) = fan'.get_speed := by
  obtain ⟨x, hx⟩ := moved_isSome h hd
  have hl := limited_bounds x
  rw [regulate, Machine.bind_of hx]
  refine ⟨_, _, rfl, hl, ?_⟩
  intro v hv
  rw [Option.mem_some] at hv
  rw [← hv]
  exact toUnsigned_cast (by omega) (by omega)

/-- **One adjustment.** Within the range of the speed and of the target
nothing overflows, and a value handed to the register is the new speed. -/
theorem adjust_speed_spec {fan : FAN} {target : ℤ} (in0 in1 : Byte) (current : BitVec 32)
    (h : fan.SpeedOk) (ht : 0 ≤ target ∧ target ≤ 120) :
    ∃ fan' value, fan.adjust_speed target in0 in1 current = some (fan', value) ∧ fan'.SpeedOk ∧
      ∀ v ∈ value, (v : ℤ) = fan'.get_speed := by
  have hp := get_bounds in0 in1
  have hd : signed? 32 (target - PressureRegister.get in0 in1) =
    some (target - PressureRegister.get in0 in1) := signed?_eq (by omega) (by omega)
  have hm : signed? 32 |target - PressureRegister.get in0 in1| =
      some |target - PressureRegister.get in0 in1| := by
    generalize PressureRegister.get in0 in1 = p at hp
    have hle : |target - p| ≤ 250 := by rw [abs_le]; omega
    have h0 : 0 ≤ |target - p| := abs_nonneg _
    exact signed?_eq (by omega) (by omega)
  have hdist : fan.pressure_distance in0 in1 target =
      some ({ fan with pressure := PressureRegister.get in0 in1 },
        target - PressureRegister.get in0 in1) := by
    rw [pressure_distance, Machine.bind_of hd]
    rfl
  rw [adjust_speed, Machine.bind_of hdist]
  dsimp only
  rw [Machine.bind_of hm]
  split_ifs with htol
  · exact ⟨_, none, rfl, h, fun v hv => by cases hv⟩
  · exact regulate_spec current h (by omega)

end FAN
end Ventilation
