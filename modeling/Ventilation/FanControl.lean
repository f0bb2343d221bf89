/-
# The fan control is monotone (src/fan_controller/fan.cpp)

`adjust_speed` moves the speed by half of a quotient, cut off towards 0, of the
distance from the target. Outside of the tolerance the quotient is at least 33
in size, so that half of it moves the speed whatever is cut off, in the
direction of the distance (`newSpeed_right`); and cutting off is monotone, so
that a greater distance never gives a lower speed (`newSpeed_mono`). The distance
is greater with a higher target and with a lower pressure, as the sensor's
scaling is monotone too.
-/
import Ventilation.Fan

namespace Ventilation

open CInt

/-- The two bytes of the sensor as a signed number of 16 bits. -/
def rawPressure (in0 in1 : Byte) : ℤ := (in0 ++ in1 : BitVec 16).toInt

theorem get_eq (in0 in1 : Byte) : PressureRegister.get in0 in1 = (rawPressure in0 in1 * 95).tdiv 24000 := by
  have h1 := BitVec.le_toInt (in0 ++ in1 : BitVec 16)
  have h2 := BitVec.toInt_lt (x := (in0 ++ in1 : BitVec 16))
  have hq : -130 ≤ (rawPressure in0 in1 * 95).tdiv 24000 ∧ (rawPressure in0 in1 * 95).tdiv 24000 ≤ 130 :=
    tdiv_bounds (by decide) (by unfold rawPressure; omega) (by unfold rawPressure; omega)
  show toSigned 16 ((rawPressure in0 in1 * 95).tdiv 24000) = _
  exact toSigned_eq (by decide) (by omega) (by omega)

theorem get_mono {in0 in1 in0' in1' : Byte} (h : rawPressure in0 in1 ≤ rawPressure in0' in1') :
    PressureRegister.get in0 in1 ≤ PressureRegister.get in0' in1' := by
  rw [get_eq, get_eq]
  exact Int.tdiv_le_tdiv (by decide) (by omega)

namespace FAN

/-- The speed after an adjustment. -/
def newSpeed (speed distance : ℤ) : ℤ :=
  if |distance| < PRESSURE_TARGET_TOLERANCE then speed
  else limited ((2 * speed + (distance * SPEED_MAX).tdiv PRESSURE_MAX).tdiv 2)

theorem moved_eq {speed distance x : ℤ} (h : moved speed distance = some x) :
    x = (2 * speed + (distance * SPEED_MAX).tdiv PRESSURE_MAX).tdiv 2 := by
  obtain ⟨product, hproduct, h₁⟩ := Option.bind_eq_some_iff.mp h
  obtain ⟨adjust, hadjust, h₂⟩ := Option.bind_eq_some_iff.mp h₁
  obtain ⟨halves, hhalves, h₃⟩ := Option.bind_eq_some_iff.mp h₂
  obtain ⟨rfl, -⟩ := of_signed? hproduct
  have hexact : ∀ {y z : ℤ}, float? y = some z → z = y := by
    intro y z hyz
    unfold float? at hyz
    split at hyz
    · exact (Option.some.inj hyz).symm
    · cases hyz
  rw [← hexact hadjust, ← hexact hhalves]
  exact (Option.some.inj h₃).symm

/-- An adjustment that does not overflow gives this speed. -/
theorem speed_of_adjust {fan fan' : FAN} {target : ℤ} {in0 in1 : Byte} {current : BitVec 32} {value : Option ℕ}
    (h : fan.adjust_speed target in0 in1 current = some (fan', value)) :
    fan'.speed = newSpeed fan.speed (target - PressureRegister.get in0 in1) := by
  obtain ⟨⟨fan₁, distance⟩, hdist, h⟩ := Option.bind_eq_some_iff.mp h
  obtain ⟨magnitude, hmagnitude, h⟩ := Option.bind_eq_some_iff.mp h
  obtain ⟨d, hd, hdist⟩ := Option.bind_eq_some_iff.mp hdist
  obtain ⟨rfl, rfl⟩ := Prod.mk.inj (Option.some.inj hdist)
  obtain ⟨rfl, -⟩ := of_signed? hd
  obtain ⟨rfl, -⟩ := of_signed? hmagnitude
  unfold newSpeed
  split at h
  · rename_i htol
    rw [if_pos htol, ← (Prod.mk.inj (Option.some.inj h)).1]
  · rename_i htol
    obtain ⟨x, hx, h⟩ := Option.bind_eq_some_iff.mp h
    rw [if_neg htol, ← (Prod.mk.inj (Option.some.inj h)).1, moved_eq hx]

/-! ### The new speed -/

theorem limited_mono {x y : ℤ} (h : x ≤ y) : limited x ≤ limited y := by
  unfold limited SPEED_MAX SPEED_MIN
  dsimp only
  split_ifs <;> omega

variable {speed distance : ℤ}

/-- What is cut off brings a quotient no further than to a whole number beyond it. -/
theorem tdiv_le_of_le_mul {x y b : ℤ} (hb : 0 < b) (h : x ≤ y * b) : x.tdiv b ≤ y :=
  calc x.tdiv b ≤ (y * b).tdiv b := Int.tdiv_le_tdiv hb h
    _ = y := Int.mul_tdiv_cancel y hb.ne'

/-- Above the tolerance the speed grows, up to its limit. -/
theorem newSpeed_above (hs : 0 ≤ speed ∧ speed ≤ 1000) (hd : 5 ≤ distance) :
    speed < newSpeed speed distance ∨ speed = 1000 ∧ newSpeed speed distance = 1000 := by
  have hq : 33 ≤ (distance * 1000).tdiv 150 := Int.le_tdiv_of_mul_le (by decide) (by omega)
  have hx : speed + 1 ≤ (2 * speed + (distance * 1000).tdiv 150).tdiv 2 :=
    Int.le_tdiv_of_mul_le (by decide) (by omega)
  have hnew : newSpeed speed distance = limited ((2 * speed + (distance * 1000).tdiv 150).tdiv 2) :=
    if_neg (by rw [abs_of_nonneg (by omega)]; exact not_lt.mpr hd)
  have hle := limited_mono hx
  have hlimit : limited (speed + 1) = min (speed + 1) 1000 := by
    unfold limited SPEED_MAX SPEED_MIN
    dsimp only
    split_ifs <;> omega
  have hmax := (limited_bounds ((2 * speed + (distance * 1000).tdiv 150).tdiv 2)).2
  rw [hnew]
  omega

/-- Below it the speed falls, down to 0. -/
theorem newSpeed_below (hs : 0 ≤ speed ∧ speed ≤ 1000) (hd : distance ≤ -5) :
    newSpeed speed distance < speed ∨ speed = 0 ∧ newSpeed speed distance = 0 := by
  have hq : (distance * 1000).tdiv 150 ≤ -33 := tdiv_le_of_le_mul (by decide) (by omega)
  have hx : (2 * speed + (distance * 1000).tdiv 150).tdiv 2 ≤ speed - 1 :=
    tdiv_le_of_le_mul (by decide) (by omega)
  have hnew : newSpeed speed distance = limited ((2 * speed + (distance * 1000).tdiv 150).tdiv 2) :=
    if_neg (by rw [abs_of_nonpos (by omega)]; exact not_lt.mpr (by omega : (5 : ℤ) ≤ -distance))
  have hle := limited_mono hx
  have hlimit : limited (speed - 1) = max (speed - 1) 0 := by
    unfold limited SPEED_MAX SPEED_MIN
    dsimp only
    split_ifs <;> omega
  have hmin := (limited_bounds ((2 * speed + (distance * 1000).tdiv 150).tdiv 2)).1
  rw [hnew]
  omega

theorem newSpeed_within (hd : |distance| < 5) : newSpeed speed distance = speed := if_pos hd

/-- A greater distance never gives a lower speed. -/
theorem newSpeed_mono {distance' : ℤ} (hs : 0 ≤ speed ∧ speed ≤ 1000) (hd : distance ≤ distance') :
    newSpeed speed distance ≤ newSpeed speed distance' := by
  by_cases h : |distance| < 5
  · rw [newSpeed_within h]
    by_cases h' : |distance'| < 5
    · rw [newSpeed_within h']
    · rw [abs_lt] at h h'
      have habove : 5 ≤ distance' := by omega
      rcases newSpeed_above hs habove with hup | ⟨h1000, hup⟩
      · omega
      · omega
  · by_cases h' : |distance'| < 5
    · rw [newSpeed_within h']
      rw [abs_lt] at h h'
      have hbelow : distance ≤ -5 := by omega
      rcases newSpeed_below hs hbelow with hdown | ⟨h0, hdown⟩
      · omega
      · omega
    · -- both outside: every operation is monotone
      have hprod : distance * SPEED_MAX ≤ distance' * SPEED_MAX := by
        unfold SPEED_MAX
        omega
      have hq := Int.tdiv_le_tdiv (c := PRESSURE_MAX) (by decide) hprod
      calc newSpeed speed distance
          = limited ((2 * speed + (distance * SPEED_MAX).tdiv PRESSURE_MAX).tdiv 2) := if_neg h
        _ ≤ limited ((2 * speed + (distance' * SPEED_MAX).tdiv PRESSURE_MAX).tdiv 2) :=
            limited_mono (Int.tdiv_le_tdiv (by decide) (by omega))
        _ = newSpeed speed distance' := (if_neg h').symm

/-! ### The controller -/

/-- **The fan control is monotone**: it leaves the speed within the tolerance
and moves it towards the target outside of it, as far as it can; and with a
higher target or a lower pressure the new speed is never lower. -/
theorem adjust_speed_monotone (fan fan' : FAN) (h : fan.SpeedOk) (hsame : fan'.speed = fan.speed)
    (target target' : ℤ) (ht : 0 ≤ target ∧ target ≤ 120) (ht' : 0 ≤ target' ∧ target' ≤ 120)
    (in0 in1 in0' in1' : Byte) (current current' : BitVec 32) :
    ∃ s s', fan.adjust_speed target in0 in1 current = some s ∧
      fan'.adjust_speed target' in0' in1' current' = some s' ∧
      (|target - PressureRegister.get in0 in1| < 5 → s.1.get_speed = fan.get_speed) ∧
      (5 ≤ target - PressureRegister.get in0 in1 →
        fan.get_speed < s.1.get_speed ∨ fan.get_speed = 1000 ∧ s.1.get_speed = 1000) ∧
      (target - PressureRegister.get in0 in1 ≤ -5 →
        s.1.get_speed < fan.get_speed ∨ fan.get_speed = 0 ∧ s.1.get_speed = 0) ∧
      (target ≤ target' → rawPressure in0' in1' ≤ rawPressure in0 in1 → s.1.get_speed ≤ s'.1.get_speed) := by
  have h' : fan'.SpeedOk := by
    unfold SpeedOk
    rw [hsame]
    exact h
  obtain ⟨fan₁, value, hadjust, -⟩ := adjust_speed_spec in0 in1 current h ht
  obtain ⟨fan₁', value', hadjust', -⟩ := adjust_speed_spec in0' in1' current' h' ht'
  have hspeed := speed_of_adjust hadjust
  have hspeed' := speed_of_adjust hadjust'
  rw [hsame] at hspeed'
  refine ⟨_, _, hadjust, hadjust', ?_⟩
  dsimp only [get_speed]
  rw [hspeed, hspeed']
  refine ⟨newSpeed_within, newSpeed_above h, newSpeed_below h, fun hle hraw => ?_⟩
  have hget := get_mono hraw
  exact newSpeed_mono h (by omega)

/-- A fan at 500 and a pressure of 39, with the targets 60 and 80. -/
theorem adjust_speed_monotone_targets : ∃ s s',
    (⟨500, 0, 0, false⟩ : FAN).adjust_speed 60 0x27 0x78 0 = some s ∧
    (⟨500, 0, 0, false⟩ : FAN).adjust_speed 80 0x27 0x78 0 = some s' ∧ s.1.get_speed ≤ s'.1.get_speed := by
  obtain ⟨s, s', hs, hs', -, -, -, hmono⟩ := adjust_speed_monotone ⟨500, 0, 0, false⟩ ⟨500, 0, 0, false⟩
    (by unfold SpeedOk; decide) rfl 60 80 (by decide) (by decide) 0x27 0x78 0x27 0x78 0 0
  exact ⟨s, s', hs, hs', hmono (by decide) le_rfl⟩

end FAN
end Ventilation
