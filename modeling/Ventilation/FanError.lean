/-
# The fan's error flag (src/fan_controller/fan.cpp)

The flag is to be raised when the pressure has been out of tolerance for more
than 30 s of an episode: since an adjustment found it within tolerance, or since the
first adjustment of a new fan or after `set_speed` (`Episode`). The code
counts from `error_time_ms`, which only an adjustment within tolerance sets.
Where the first adjustment finds the pressure out of tolerance, it counts
from whatever that was before, the time in manual mode included
(`false_alarm`); where an adjustment never does so and none comes 2^32 ms
behind the start of its episode, the flag is right (`error_flag_right`).
-/
import Ventilation.Fan

namespace Ventilation
namespace FAN

open CInt

/-- The calls of a run; an adjustment with the bytes its sensor gives. -/
inductive Call
  | set_speed (speed : BitVec 16)
  | adjust_speed (target_pressure : ℤ) (in0 in1 : Byte)

/-- The reading is within tolerance. -/
def Within (target_pressure : ℤ) (in0 in1 : Byte) : Prop :=
  |target_pressure - PressureRegister.get in0 in1| < PRESSURE_TARGET_TOLERANCE

instance (target_pressure : ℤ) (in0 in1 : Byte) : Decidable (Within target_pressure in0 in1) :=
  inferInstanceAs (Decidable (_ < _))

/-! ### Episodes -/

/-- When the episode began, if there has been an adjustment since the fan was
constructed or `set_speed` called; and whether an adjustment of it has been out of
tolerance more than `ERROR_DELAY` after that. Times are milliseconds. -/
structure Episode where
  start : Option ℕ
  late : Bool
  deriving DecidableEq

namespace Episode

/-- No adjustment yet. -/
def none : Episode := ⟨.none, false⟩

/-- An adjustment at `t` that is out of tolerance. -/
def outside (e : Episode) (t : ℕ) : Episode :=
  match e.start with
  | .none => ⟨some t, false⟩
  | some t₀ => ⟨some t₀, e.late || decide (ERROR_DELAY.toNat < t - t₀)⟩

/-- The episode after a call at `t`. -/
def next (e : Episode) (t : ℕ) : Call → Episode
  | .set_speed _ => none
  | .adjust_speed target_pressure in0 in1 =>
    if Within target_pressure in0 in1 then ⟨some t, false⟩ else e.outside t

end Episode

/-! ### Runs -/

/-- A fan, the time of its last call and the episode. -/
structure Run where
  fan : FAN
  now : ℕ
  episode : Episode

/-- What the clock reads at `t`: a `uint32_t`. -/
def clock (t : ℕ) : BitVec 32 := .ofNat 32 t

def call (fan : FAN) (t : ℕ) : Call → Option FAN
  | .set_speed speed => some (fan.set_speed speed.toNat).1
  | .adjust_speed target_pressure in0 in1 =>
    (fan.adjust_speed target_pressure in0 in1 (clock t)).map (·.1)

namespace Run

/-- A call at a time that is not before the last one, and less than `2 ^ 32` ms
behind it. -/
def step (r : Run) (e : ℕ × Call) : Option Run :=
  if r.now ≤ e.1 ∧ e.1 < r.now + 2 ^ 32 then
    (r.fan.call e.1 e.2).map fun fan => ⟨fan, e.1, r.episode.next e.1 e.2⟩
  else none

/-- A new fan, over what its memory held, at any time. -/
def Init (r : Run) : Prop := ∃ mem speed now, r = ⟨(new mem speed).1, now, .none⟩

/-- After an adjustment the flag says whether the episode is late. -/
def Right (r : Run) : Prop := r.episode.start ≠ none → r.fan.get_error = r.episode.late

/-- The code counts from the start of the episode: an adjustment out of
tolerance is not the first of a new fan or after `set_speed` (or `error_time_ms` is the time of the
call all the same, and the flag down); and the flag is up already or the call comes
less than `2 ^ 32` ms behind the start. -/
def Counted (r : Run) : ℕ × Call → Prop
  | (_, .set_speed _) => True
  | (t, .adjust_speed target_pressure in0 in1) =>
    Within target_pressure in0 in1 ∨
      match r.episode.start with
      | none => r.fan.error_time_ms = clock t ∧ r.fan.get_error = false
      | some t₀ => r.fan.get_error = true ∨ t < t₀ + 2 ^ 32

end Run

/-! ### One call -/

/-- What an adjustment does to the flag and to the time the code counts from. -/
theorem adjust_speed_cases {fan fan' : FAN} {target_pressure : ℤ} {in0 in1 : Byte} {current : BitVec 32}
    {value : Option ℕ} (h : fan.adjust_speed target_pressure in0 in1 current = some (fan', value)) :
    (Within target_pressure in0 in1 ∧ fan'.error_time_ms = current ∧ fan'.error = false) ∨
      (¬ Within target_pressure in0 in1 ∧ fan'.error_time_ms = fan.error_time_ms ∧
        fan'.error = (fan.error || decide (ERROR_DELAY < current - fan.error_time_ms))) := by
  obtain ⟨⟨fan₁, distance⟩, hdist, h⟩ := Option.bind_eq_some_iff.mp h
  obtain ⟨d, hd, hfan₁⟩ := Option.bind_eq_some_iff.mp hdist
  obtain ⟨magnitude, hm, h⟩ := Option.bind_eq_some_iff.mp h
  cases hfan₁
  obtain ⟨rfl, -⟩ := of_signed? hd
  obtain ⟨rfl, -⟩ := of_signed? hm
  split at h
  · rename_i hw
    cases h
    exact .inl ⟨hw, rfl, rfl⟩
  · rename_i hw
    right
    obtain ⟨speed, -, hfan'⟩ := Option.bind_eq_some_iff.mp h
    cases hfan'
    refine ⟨hw, rfl, ?_⟩
    by_cases hlate : ERROR_DELAY < current - fan.error_time_ms
    · simp [hlate]
    · simp [hlate]

/-- Within 2^32 ms the difference of two clock readings is the time between them. -/
theorem delay_lt_clock_iff {t₀ t : ℕ} (h₀ : t₀ ≤ t) (h : t < t₀ + 2 ^ 32) :
    ERROR_DELAY < clock t - clock t₀ ↔ ERROR_DELAY.toNat < t - t₀ := by
  rw [BitVec.lt_def, clock, clock, BitVec.toNat_sub, BitVec.toNat_ofNat, BitVec.toNat_ofNat]
  have hmod : (2 ^ 32 - t₀ % 2 ^ 32 + t % 2 ^ 32) % 2 ^ 32 = t - t₀ := by omega
  rw [hmod]

namespace Run

/-- What holds while the code counts from the start of the episode. -/
structure Inv (r : Run) : Prop where
  right : r.Right
  counts : ∀ t₀, r.episode.start = some t₀ → r.fan.error_time_ms = clock t₀ ∧ t₀ ≤ r.now

theorem init_inv {r : Run} (h : r.Init) : r.Inv := by
  obtain ⟨mem, speed, now, rfl⟩ := h
  exact ⟨fun hne => absurd rfl hne, fun t₀ h₀ => by cases h₀⟩

theorem step_eq {r r' : Run} {t : ℕ} {c : Call} (h : r.step (t, c) = some r') :
    r.now ≤ t ∧ ∃ fan, r.fan.call t c = some fan ∧ r' = ⟨fan, t, r.episode.next t c⟩ := by
  unfold step at h
  split at h
  · rename_i ht
    obtain ⟨fan, hfan, rfl⟩ := Option.map_eq_some_iff.mp h
    exact ⟨ht.1, fan, hfan, rfl⟩
  · cases h

theorem Inv.step {r r' : Run} (hi : r.Inv) {e : ℕ × Call} (hc : r.Counted e)
    (hst : r.step e = some r') : r'.Inv := by
  obtain ⟨t, c⟩ := e
  obtain ⟨ht, fan, hfan, rfl⟩ := step_eq hst
  cases c with
  | set_speed speed => exact ⟨fun hne => absurd rfl hne, fun t₀ h₀ => by cases h₀⟩
  | adjust_speed target_pressure in0 in1 =>
    obtain ⟨⟨fan', value⟩, hadj, rfl⟩ := Option.map_eq_some_iff.mp hfan
    rcases adjust_speed_cases hadj with ⟨hw, htime, herror⟩ | ⟨hw, htime, herror⟩
    · -- a new episode begins, and the code counts from it
      have hnext : r.episode.next t (.adjust_speed target_pressure in0 in1) = ⟨some t, false⟩ := if_pos hw
      rw [hnext]
      refine ⟨fun _ => herror, ?_⟩
      rintro t₀ ⟨⟩
      exact ⟨htime, le_rfl⟩
    · have hnext : r.episode.next t (.adjust_speed target_pressure in0 in1) = r.episode.outside t := if_neg hw
      have hcount := hc.resolve_left hw
      rw [hnext]
      unfold Episode.outside
      rcases hstart : r.episode.start with _ | t₀
      · -- the first adjustment, at the time the code counts from
        rw [hstart] at hcount
        obtain ⟨hnow, hdown⟩ := hcount
        have hdown : r.fan.error = false := hdown
        refine ⟨fun _ => ?_, ?_⟩
        · rw [get_error, herror, hdown, hnow, BitVec.sub_self]
          rfl
        · rintro t₀ ⟨⟩
          exact ⟨htime.trans hnow, le_rfl⟩
      · rw [hstart] at hcount
        obtain ⟨htime₀, hle⟩ := hi.counts t₀ hstart
        have hle : t₀ ≤ t := hle.trans ht
        have hright : r.fan.error = r.episode.late := hi.right (by rw [hstart]; simp)
        refine ⟨fun _ => ?_, ?_⟩
        · rw [get_error, herror, hright, htime₀]
          rcases hcount with hup | hlt
          · have hlate : r.episode.late = true := hright.symm.trans hup
            simp [hlate]
          · simp only [delay_lt_clock_iff hle hlt]
        · rintro t₁ ⟨⟩
          exact ⟨htime.trans htime₀, hle⟩

/-- **The flag is right** after every adjustment of a run in which the code
counts from the start of each episode. -/
theorem error_flag_right {r : Run} (h : Machine.Reach step Init Counted r) : r.Right :=
  (h.invariant (J := Inv) (fun _ => init_inv) fun _ _ _ hi hc hst => hi.step hc hst).right

/-! ### Two runs -/

/-- A fan whose memory was zeroed. -/
def zeroed : Run := ⟨(new ⟨0, 0, 0, false⟩ 0).1, 0, .none⟩

theorem zeroed_init : zeroed.Init := ⟨_, _, _, rfl⟩

/-- Within tolerance at 1 s, and out of it more than 30 s later. -/
theorem error_flag_right_late : ∃ r r', zeroed.step (1000, .adjust_speed 0 0 0) = some r ∧
    r.step (31001, .adjust_speed 50 0 0) = some r' ∧ r'.fan.get_error = true ∧ r'.Right :=
  ⟨_, _, rfl, rfl, by decide, error_flag_right
    (.step (e := (31001, .adjust_speed 50 0 0))
      (.step (e := (1000, .adjust_speed 0 0 0)) (.init zeroed_init) (.inl (by decide)) rfl)
      (.inr (.inr (by decide))) rfl)⟩

/-- Within tolerance at 1 s, in manual mode from 2 s on, and at 40 s back in
automatic mode with another target. -/
def backFromManual : List (ℕ × Call) :=
  [(1000, .adjust_speed 0 0 0), (2000, .set_speed 500), (40000, .adjust_speed 50 0 0)]

/-- **A false alarm**: the flag is up in the very call in which the episode begins. -/
theorem false_alarm : ∃ r, Machine.Reach step Init Machine.Always r ∧
    r.episode = ⟨some 40000, false⟩ ∧ r.fan.get_error = true ∧ ¬ r.Right := by
  have h : (Machine.run step zeroed backFromManual).any
      (fun r => r.episode = ⟨some 40000, false⟩ ∧ r.fan.get_error = true) = true := by decide
  obtain ⟨r, hr, hp⟩ := (Option.any_eq_true _ _).mp h
  obtain ⟨hepisode, herror⟩ : r.episode = ⟨some 40000, false⟩ ∧ r.fan.get_error = true := by
    simpa using hp
  refine ⟨r, (Machine.Reach.init zeroed_init).run (fun _ _ _ => trivial) hr, hepisode, herror, ?_⟩
  intro hright
  have hflag := hright (by rw [hepisode]; simp)
  rw [herror, hepisode] at hflag
  cases hflag

end Run
end FAN
end Ventilation
