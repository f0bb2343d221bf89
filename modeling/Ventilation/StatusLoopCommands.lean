/-
# Does the status loop follow a command?

`message_arrived` leaves a mode and a set point behind. The next iteration
runs in that mode unless a press of the mode button waits; but it takes the
set point as its target only if that differs from the last one it took,
whichever mode that was for (`command_followed_iff`). The first command to
repeat the initial set point of 50 is ignored (`command_ignored`).
-/
import Ventilation.StatusLoop

namespace Ventilation
namespace StatusLoop

/-- No press and no encoder movement come before the target update. -/
structure Quiet (t : Turn) : Prop where
  pin8 : t.pin8 = .quiet
  pin9 : t.pin9 = .quiet
  read1 : t.read1 = []
  read2 : t.read2 = []
  read3 : t.read3 = []

/-- The loop right behind the target update and the fan's part of an iteration. -/
def updated (s : StatusLoop) (t : Turn) : Option StatusLoop := ((s.menu t).1.control t).map (·.1)

/-- The iteration does what the command says: its mode, and the target of that
mode, cut to its range. -/
def Follows (s : StatusLoop) (t : Turn) (aut value : ℤ) : Prop :=
  ∃ u, updated s t = some u ∧ u.controls.manual = decide (aut = 0) ∧
    (aut = 0 → u.speed_val = clamp 100 value) ∧ (aut ≠ 0 → u.pres_val = clamp 120 value)

/-- A target moved by the encoder steps the loop has not seen yet. -/
def stepped (s : StatusLoop) (target : ℤ) : ℤ :=
  if s.prevval < s.input.returnVal then target + 1
  else if s.prevval > s.input.returnVal then target - 1 else target

/-- The target of a mode moved so, and cut to its range. -/
def ownTarget (s : StatusLoop) (aut : ℤ) : ℤ :=
  if aut = 0 then clamp 100 (s.stepped s.speed_val) else clamp 120 (s.stepped s.pres_val)

/-- A value cut to the range of a mode. -/
def inMode (aut value : ℤ) : ℤ := if aut = 0 then clamp 100 value else clamp 120 value

/-! ### A quiet iteration -/

variable {s : StatusLoop} {t : Turn}

/-- Its menu toggles the mode if a press of pin 9 waits on the second page. -/
theorem menu_quiet (hq : Quiet t) :
    (s.menu t).2 = (if s.input.Pending 9 ∧ s.display_mode = 1 then !s.controls.manual
      else s.controls.manual) ∧
    (s.menu t).1.input.returnVal = s.input.returnVal := by
  have htaken : ¬ s.input.setState.Pending 9 := fun h => by cases h.1
  simp only [menu, mainMenu, hq.pin8, hq.pin9, Input.takePress_quiet]
  by_cases h8 : s.input.Pending 8
  · -- the one press that waits is taken before pin 9 is looked at
    have h9 : ¬ s.input.Pending 9 := fun h => by simpa [h.2] using h8.2
    by_cases hpage : page s.display_mode true = 1 <;> simp [h8, h9, hpage, htaken]
  · by_cases hpage : s.display_mode = 1
    · by_cases h9 : s.input.Pending 9 <;> simp [h8, h9, hpage, page]
    · simp [h8, hpage, page]

/-- Its target: the set point if that has changed, and else the old target
moved by the encoder. -/
theorem updateTarget_quiet (hq : Quiet t) {target : ℤ} (hi : ℤ) (h : 0 ≤ target ∧ target ≤ 120) :
    ∃ u, s.updateTarget t target hi = some (u, clamp hi (s.chosen (s.stepped target))) ∧
      u.controls = s.controls ∧ u.fan = s.fan := by
  obtain ⟨input, x, hx, hu⟩ := updateTarget_spec s t hi h
  have hfit : ∀ y : ℤ, -2 ≤ y → y ≤ 122 → CInt.signed? 32 y = some y :=
    fun y h1 h2 => CInt.signed?_eq (by omega) (by omega)
  have hstep : encoderStep target s.prevval s.input.returnVal s.input.returnVal =
      some (s.stepped target) := by
    unfold encoderStep stepped
    split_ifs
    · omega
    · rw [Machine.bind_of (hfit _ (by omega) (by omega)), hfit _ (by omega) (by omega)]
    · rw [Machine.bind_of (hfit _ (by omega) (by omega)), hfit _ (by omega) (by omega)]
    · rw [Machine.bind_of (hfit _ (by omega) (by omega)), hfit _ (by omega) (by omega)]
  simp only [hq.read1, hq.read2, Input.interrupts_nil] at hx
  rw [hstep, Option.some.injEq] at hx
  subst hx
  exact ⟨_, hu, rfl, rfl⟩

/-- The mode stays through the control of the fan, which takes that target. -/
theorem control_quiet (hq : Quiet t) (h : InRange s) : ∃ u acts, s.control t = some (u, acts) ∧
    u.controls = s.controls ∧
    (s.controls.manual = true → u.speed_val = clamp 100 (s.chosen (s.stepped s.speed_val))) ∧
    (s.controls.manual = false → u.pres_val = clamp 120 (s.chosen (s.stepped s.pres_val))) := by
  unfold control
  cases hm : s.controls.manual
  · obtain ⟨u, hu, hcontrols, hfan⟩ := updateTarget_quiet hq 120 h.pres_val
    obtain ⟨adjust_time, fan, acts, hc, -⟩ := controlAuto_of hu (hfan ▸ h.speed)
    exact ⟨_, acts, hc, hcontrols, (fun h => by cases h), fun _ => rfl⟩
  · obtain ⟨u, hu, hcontrols, -⟩ := updateTarget_quiet hq 100
      ⟨h.speed_val.1, by have := h.speed_val.2; omega⟩
    obtain ⟨value, -, hc⟩ := controlManual_of hu
    exact ⟨_, _, hc, hcontrols, fun _ => rfl, fun h => by cases h⟩

/-- What decides about the target is the same behind the menu. -/
theorem chosen_menu (s : StatusLoop) (t : Turn) (x : ℤ) : (s.menu t).1.chosen x = s.chosen x := by
  obtain ⟨_, _, h⟩ := menu_eq s t
  rw [h]
  rfl

theorem stepped_menu (hq : Quiet t) (x : ℤ) : (s.menu t).1.stepped x = s.stepped x := by
  have hencoder := (menu_quiet (s := s) hq).2
  obtain ⟨_, _, h⟩ := menu_eq s t
  simp only [stepped, hencoder]
  rw [h]

/-! ### The command -/

/-- A target chosen is the set point's exactly if that has changed or the old
target is the same. -/
theorem clamp_chosen_iff (s : StatusLoop) (hi x : ℤ) :
    clamp hi (s.chosen x) = clamp hi s.controls.setpoint ↔
      s.controls.setpoint ≠ s.old_set_point ∨ clamp hi x = clamp hi s.controls.setpoint := by
  unfold chosen
  split_ifs with h
  · exact ⟨fun _ => .inl h, fun _ => rfl⟩
  · exact ⟨.inr, fun h' => h'.resolve_left h⟩

/-- From a state in range that a command has left behind. -/
theorem follows_iff_of_inRange (hq : Quiet t) (h : InRange s) {aut value : ℤ}
    (hcontrols : s.controls = ⟨decide (aut = 0), value⟩) : Follows s t aut value ↔
      ¬ (s.input.Pending 9 ∧ s.display_mode = 1) ∧
        (value ≠ s.old_set_point ∨ s.ownTarget aut = inMode aut value) := by
  have hmode := (menu_quiet (s := s) hq).1
  obtain ⟨input, display_mode, hmenu⟩ := menu_eq s t
  obtain ⟨u, acts, hc, hu, hman, haut⟩ := control_quiet hq (h.menu t)
  have humode : u.controls.manual = (s.menu t).2 := by rw [hu, hmenu]; rfl
  rw [← hu, humode, chosen_menu, stepped_menu hq, hmenu] at hman haut
  have hfollows : Follows s t aut value ↔ u.controls.manual = decide (aut = 0) ∧
      (aut = 0 → u.speed_val = clamp 100 value) ∧ (aut ≠ 0 → u.pres_val = clamp 120 value) := by
    unfold Follows updated
    rw [hc]
    constructor
    · rintro ⟨u', hu', h'⟩
      cases hu'
      exact h'
    · exact fun h' => ⟨u, rfl, h'⟩
  have hset : s.controls.setpoint = value := by rw [hcontrols]
  rw [hfollows, humode, hmode]
  rw [hmode] at hman haut
  by_cases hp : s.input.Pending 9 ∧ s.display_mode = 1
  · -- the press that waits toggles the mode
    rw [if_pos hp, hcontrols]
    simp [hp]
  · rw [if_neg hp] at hman haut ⊢
    have hclamp := clamp_chosen_iff s
    rw [hset] at hclamp
    by_cases ha : aut = 0
    · have hspeed := hman (by rw [hcontrols]; exact decide_eq_true ha)
      simp only [hcontrols, hp, ha, ownTarget, inMode, true_and, if_true, not_true_eq_false,
        not_false_eq_true, forall_const, hspeed, hclamp, false_implies, and_true, ne_eq]
    · have hpres := haut (by rw [hcontrols]; exact decide_eq_false ha)
      simp only [hcontrols, hp, ha, ownTarget, inMode, true_and, if_false, not_false_eq_true,
        forall_const, hpres, hclamp, false_implies, ne_eq]

/-- **When a command is followed.** In every run, when the last message an
iteration handled is `{auto: aut, value: value}` and neither press nor encoder
movement comes before the next target update, the next iteration follows it
exactly if no earlier press of pin 9 waits to toggle the mode, and the value
differs from the set point last taken over, or is within the limits what the
target of that mode comes to anyway. -/
theorem command_followed_iff {s₀ s : StatusLoop} {log acts : List Action} {t₀ t : Turn}
    {ms : List (ℤ × ℤ)} {aut value : ℤ}
    (hr : Machine.Reach (logged true) Start Machine.Always (s₀, log))
    (hmsg : t₀.messages = ms ++ [(aut, value)]) (hs : iterate true s₀ t₀ = some (s, acts))
    (hq : Quiet t) : Follows s t aut value ↔
      ¬ (s.input.Pending 9 ∧ s.display_mode = 1) ∧
        (value ≠ s.old_set_point ∨ s.ownTarget aut = inMode aut value) := by
  obtain ⟨s', acts', c, hi, hrange, -, hcontrols⟩ := iterate_spec true (inRange_of_reach hr) t₀
  rw [hi, Option.some.injEq, Prod.mk.injEq] at hs
  obtain ⟨rfl, -⟩ := hs
  rw [hmsg, if_pos rfl, Controls.messages_concat] at hcontrols
  exact follows_iff_of_inRange hq hrange hcontrols

/-! ### The first command -/

/-- The loop's start over zeroed memory, with untouched input and the controls
as they are initialised. -/
def blankStart : StatusLoop × List Action :=
  start ⟨⟨0, 0, false⟩, false⟩ .initial ⟨0, 0, 0, false⟩ fun _ => .blank

/-- An iteration in which nothing happens but some messages. -/
def idleTurn (messages : List (ℤ × ℤ)) : Turn where
  pin8 := .quiet
  pin9 := .quiet
  read1 := []
  read2 := []
  read3 := []
  late := []
  in0 := 0
  in1 := 0
  adjust_now := 0
  fan_now := 0
  send_now := 0
  reply := fun _ => ⟨[], by decide⟩
  messages

theorem quiet_idleTurn (messages : List (ℤ × ℤ)) : Quiet (idleTurn messages) :=
  ⟨rfl, rfl, rfl, rfl, rfl⟩

/-- A command for automatic mode at the start of the loop. -/
theorem command_followed_iff_first : ∃ s acts,
    iterate true blankStart.1 (idleTurn [(1, 20)]) = some (s, acts) ∧
      (Follows s (idleTurn []) 1 20 ↔ ¬ (s.input.Pending 9 ∧ s.display_mode = 1) ∧
        (20 ≠ s.old_set_point ∨ s.ownTarget 1 = inMode 1 20)) := by
  have hr : Machine.Reach (logged true) Start Machine.Always (blankStart.1, blankStart.2) :=
    .init ⟨_, _, _, _, rfl⟩
  obtain ⟨s, acts, -, hs, -⟩ := iterate_spec true (inRange_of_reach hr) (idleTurn [(1, 20)])
  exact ⟨s, acts, hs, command_followed_iff hr (List.nil_append [(1, 20)]).symm hs (quiet_idleTurn [])⟩

/-- The first command asks for 50 in automatic mode, which is what the set
point is initialised to: the target stays 0. -/
theorem command_ignored : ∃ s log,
    Machine.run (logged true) blankStart [idleTurn [(1, 50)]] = some (s, log) ∧
      Quiet (idleTurn []) ∧ ¬ Follows s (idleTurn []) 1 50 := by
  refine ⟨_, _, rfl, quiet_idleTurn [], ?_⟩
  rintro ⟨u, hu, -, -, h⟩
  cases hu
  exact absurd (h (by decide)) (by decide)

end StatusLoop
end Ventilation
