/-
# From the page and back (main.cpp, src/FlaskSrv)

What a request asks for goes to the controls, from there to the targets of the loop, and with the next
status back to the server. `request_comes_back_iff` says when the server then shows the mode
and the set point that were asked for.
-/
import Ventilation.Downlink
import Ventilation.StatusLoopCommands
import Ventilation.Uplink

namespace Ventilation
namespace StatusLoop

open FloatText (float32)

variable {s : StatusLoop} {t : Turn}

/-- A report that is due ends with a status. -/
theorem report_due (hdue : s.Due t) (mode : Bool) : ∃ send_time regs acts,
    report true s t mode = some ({ s with send_time, regs }, acts ++ [.send ({ s with send_time, regs }.status mode)]) ∧
      ∀ a ∈ acts, ∀ x, a ≠ .send x := by
  obtain ⟨regs, acts, htransfers, hacts⟩ := transfers_spec t Sensor.order { s with send_time := t.send_now }
  refine ⟨t.send_now, regs, acts, ?_, fun a ha x h => ?_⟩
  · rw [report, if_pos hdue, Machine.bind_of htransfers]
    rfl
  · have hsend := hacts a ha false
    rw [h] at hsend
    cases hsend

/-- The fan's values are no status. -/
theorem not_send_of_handed {acts : List Action} (h : ∀ a ∈ acts, Handed a) : ∀ a ∈ acts, ∀ x, a ≠ .send x := by
  rintro a ha x rfl
  exact h _ ha

/-- The set point of a status that a quiet iteration sends in a mode. -/
def shownTarget (s : StatusLoop) (mode : Bool) : ℤ :=
  if mode then clamp 100 (s.chosen (s.stepped s.speed_val)) else clamp 120 (s.chosen (s.stepped s.pres_val))

/-- **What a quiet iteration sends that is due.** -/
theorem iterate_due (h : InRange s) (hq : Quiet t) (hdue : s.Due t) : ∃ s' acts status,
    iterate true s t = some (s', acts ++ [.send status]) ∧ (∀ a ∈ acts, ∀ x, a ≠ .send x) ∧
    status.aut = !(s.menu t).2 ∧ status.setpoint = s.shownTarget (s.menu t).2 := by
  obtain ⟨u, handed, hc, hcontrols, hman, haut⟩ := control_quiet hq (h.menu t)
  obtain ⟨c, handed', hc', hspec⟩ := control_spec (h.menu t) t
  obtain ⟨rfl, rfl⟩ := Prod.mk.inj (Option.some.inj (hc'.symm.trans hc))
  obtain ⟨input, display_mode, hmenu⟩ := menu_eq s t
  have hmanual : (s.menu t).1.controls.manual = (s.menu t).2 := by rw [hmenu]; rfl
  have hdue' : c.Due t := by
    unfold Due at hdue ⊢
    rw [hspec.send_time, hmenu]
    exact hdue
  obtain ⟨send_time, regs, acts, hreport, hacts⟩ := report_due hdue' (s.menu t).2
  have hspeed : (s.menu t).1.speed_val = s.speed_val := by rw [hmenu]
  have hpres : (s.menu t).1.pres_val = s.pres_val := by rw [hmenu]
  rw [hmanual, chosen_menu, stepped_menu hq] at hman haut
  rw [hspeed] at hman
  rw [hpres] at haut
  refine ⟨yield true { c with send_time, regs } t, handed' ++ acts, { c with send_time, regs }.status (s.menu t).2, ?_, ?_, ?_, ?_⟩
  · rw [iterate_of hc hreport, List.append_assoc]
  · intro a ha
    obtain ha | ha := List.mem_append.mp ha
    · exact not_send_of_handed hspec.handed a ha
    · exact hacts a ha
  · show (!c.controls.manual) = _
    rw [hcontrols, hmanual]
  · show (if (s.menu t).2 then c.speed_val else c.pres_val) = _
    unfold shownTarget
    cases hmode : (s.menu t).2 with
    | true => rw [if_pos rfl, if_pos rfl, hman hmode]
    | false => rw [if_neg Bool.false_ne_true, if_neg Bool.false_ne_true, haut hmode]

theorem clamp_of_eq {hi x y : ℤ} (h : clamp hi x = y) : clamp hi y = y := by
  subst h
  unfold clamp
  simp only
  split_ifs <;> omega

/-- When that is the set point of a command. -/
theorem shownTarget_iff {aut value : ℤ} (hcontrols : s.controls = ⟨decide (aut = 0), value⟩) :
    s.shownTarget (decide (aut = 0)) = value ↔
      inMode aut value = value ∧ (value ≠ s.old_set_point ∨ s.ownTarget aut = value) := by
  have hset : s.controls.setpoint = value := by rw [hcontrols]
  have hshown : s.shownTarget (decide (aut = 0)) = if value ≠ s.old_set_point then inMode aut value else s.ownTarget aut := by
    unfold shownTarget inMode ownTarget chosen
    rw [hset]
    by_cases ha : aut = 0 <;> by_cases hne : value = s.old_set_point <;> simp [ha, hne]
  have hrange : s.ownTarget aut = value → inMode aut value = value := by
    intro h
    unfold ownTarget at h
    unfold inMode
    split_ifs at h ⊢ with ha
    · exact clamp_of_eq h
    · exact clamp_of_eq h
  rw [hshown]
  by_cases hne : value = s.old_set_point
  · rw [if_neg (not_not.mpr hne), or_iff_right (not_not.mpr hne)]
    exact ⟨fun h => ⟨hrange h, h⟩, And.right⟩
  · rw [if_pos hne]
    exact ⟨fun h => ⟨h, Or.inl hne⟩, And.left⟩

/-- The mode that a quiet iteration runs in is the command's, unless a press waits. -/
theorem menu_command_iff (hq : Quiet t) {aut value : ℤ} (hcontrols : s.controls = ⟨decide (aut = 0), value⟩) :
    (s.menu t).2 = decide (aut = 0) ↔ ¬ (s.input.Pending 9 ∧ s.display_mode = 1) := by
  rw [(menu_quiet hq).1, hcontrols]
  by_cases hp : s.input.Pending 9 ∧ s.display_mode = 1
  · rw [if_pos hp]
    exact iff_of_false (by cases decide (aut = 0) <;> simp) (not_not.mpr hp)
  · rw [if_neg hp]
    exact iff_of_true rfl hp

/-- **When the server shows what was asked for.** In every run, when the last message that an iteration handled is a request's,
and neither press nor encoder movement comes in the next, in which a status is due: exactly if no earlier press waits
to toggle the mode, and the value is in the range of the mode and differs from the set point last taken over, or is what the target
comes to anyway. -/
theorem request_comes_back_iff {s₀ : StatusLoop} {log acts₀ : List Action} {t₀ : Turn} {ms : List (ℤ × ℤ)} {r : Request}
    (hr : Machine.Reach (logged true) Start Machine.Always (s₀, log)) (hmsg : t₀.messages = ms ++ [r.command])
    (hs : iterate true s₀ t₀ = some (s, acts₀)) (hq : Quiet t) (hdue : s.Due t) :
    ∃ s' acts status, iterate true s t = some (s', acts ++ [.send status]) ∧ (∀ a ∈ acts, ∀ x, a ≠ .send x) ∧
      ∀ (lib : Server.MqttLibrary) (Double : BitVec 32 → CString) (env : Server.Env) (st : Server.State), WritesDoubles Double →
        (∀ bits ∈ status.readings, (float32 bits).isSome) → env.py.limits (status.jsonString Double).chars = false →
        valuesLength Double status ≤ 94 →
        ((Server.deliver lib Double env st status).1.ventrilatorStatus = ⟨.bool (decide (r.mode.toInt ≠ 0)), .int r.value.toInt⟩ ↔
          ¬ (s.input.Pending 9 ∧ s.display_mode = 1) ∧ inMode r.mode.toInt r.value.toInt = r.value.toInt ∧
            (r.value.toInt ≠ s.old_set_point ∨ s.ownTarget r.mode.toInt = r.value.toInt)) := by
  obtain ⟨s₁, acts₁, c, hi, hrange, -, hcontrols⟩ := iterate_spec true (inRange_of_reach hr) t₀
  obtain ⟨rfl, rfl⟩ := Prod.mk.inj (Option.some.inj (hs.symm.trans hi))
  rw [hmsg, if_pos rfl, Request.command, Controls.messages_concat] at hcontrols
  obtain ⟨s', acts, status, hiterate, hother, haut, hsetpoint⟩ := iterate_due hrange hq hdue
  refine ⟨s', acts, status, hiterate, hother, fun lib Double env st hDouble hfinite hlimits hfits => ?_⟩
  have hmode : (Server.deliver lib Double env st status).1.ventrilatorStatus = ⟨.bool status.aut, .int status.setpoint⟩ := by
    rw [Server.deliver_eq hDouble hfinite hlimits, if_pos hfits]
    cases env.commit (Server.readingOf Double status) <;> rfl
  rw [hmode, haut, hsetpoint, ← shownTarget_iff hcontrols, ← menu_command_iff hq hcontrols]
  constructor
  · intro h
    simp only [Server.Ventrilator.mk.injEq, Json.bool.injEq, Json.int.injEq] at h
    obtain ⟨haut, hvalue⟩ := h
    have hmenu : (s.menu t).2 = decide (r.mode.toInt = 0) := by simpa [Bool.eq_not_iff] using congrArg (!·) haut
    exact ⟨hmenu, hmenu ▸ hvalue⟩
  · rintro ⟨hmenu, hvalue⟩
    rw [hmenu, hvalue, decide_not]

/-- Automatic mode, and the target 20. -/
def autoTwenty : Request :=
  ⟨one, { fifty with digits := [0x32, 0x30], digits_ne := by decide, digits_digit := by decide },
    readable_one, ⟨⟨by decide, by decide⟩, by decide⟩⟩

/-- A quiet iteration in which a status is due. -/
def dueTurn : Turn := { idleTurn [] with send_now := 6000 }

/-- The first request, and the status after it. -/
theorem request_comes_back_iff_twenty : ∃ s acts₀ s' acts status,
    iterate true blankStart.1 (idleTurn [autoTwenty.command]) = some (s, acts₀) ∧
    iterate true s dueTurn = some (s', acts ++ [.send status]) ∧
    (Server.deliver .documented (writtenAs Server.warm Server.warmText) Server.Served.keepingEnv .new status).1.ventrilatorStatus =
      ⟨.bool true, .int 20⟩ := by
  have hr : Machine.Reach (logged true) Start Machine.Always (blankStart.1, blankStart.2) := .init ⟨_, _, _, _, rfl⟩
  obtain ⟨s, acts₀, hs, hdue, hlast, hshows⟩ : ∃ s acts₀, iterate true blankStart.1 (idleTurn [autoTwenty.command]) =
      some (s, acts₀) ∧ s.Due dueTurn ∧
      (iterate true s dueTurn).bind (fun p => p.2.getLast?) = some (.send ⟨0, 20, 0, true, false, 0, 0, 0, 0⟩) ∧
      ¬ (s.input.Pending 9 ∧ s.display_mode = 1) ∧ inMode 1 20 = 20 ∧ ((20 : ℤ) ≠ s.old_set_point ∨ s.ownTarget 1 = 20) :=
    ⟨_, _, rfl, by decide, rfl, by decide, by decide, .inl (by decide)⟩
  have hmsg : (idleTurn [autoTwenty.command]).messages = [] ++ [autoTwenty.command] := rfl
  obtain ⟨s', acts, status, hi, -, hshown⟩ := request_comes_back_iff hr hmsg hs ⟨rfl, rfl, rfl, rfl, rfl⟩ hdue
  refine ⟨s, acts₀, s', acts, status, hs, hi, ?_⟩
  rw [hi, Option.bind_some, List.getLast?_append, List.getLast?_singleton, Option.some_or, Option.some.injEq,
    Action.send.injEq] at hlast
  subst hlast
  have hfinite : ∀ bits ∈ (⟨0, 20, 0, true, false, 0, 0, 0, 0⟩ : Status).readings, (float32 bits).isSome := by
    simp only [Status.readings, List.forall_mem_cons, List.not_mem_nil, false_imp_iff, implies_true, and_true, and_self]
    rfl
  exact (hshown _ _ Server.Served.keepingEnv .new Server.writesDoubles_warm hfinite rfl (by decide +kernel)).mpr hshows

end StatusLoop
end Ventilation
