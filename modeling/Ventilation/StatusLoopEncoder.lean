/-
# Encoder steps and the target (main.cpp, src/input.cpp)

An iteration reads the encoder's count three times: the first two readings
are compared with the count copied last, the third is copied. A comparison moves the
target by one, however far the count has gone, so that a second step in one
iteration is lost; and a step between a comparison and the copy is lost or
counted twice. `counted_right_iff` says when target and count move together.
-/
import Ventilation.StatusLoopCommands

namespace Ventilation
namespace StatusLoop

open CInt

/-! ### An iteration and the count -/

/-- How far the two comparisons move a target. -/
def shift (prevval : ℤ) (input : Input) (t : Turn) : ℤ :=
  (if prevval < (input.interrupts t.read1).returnVal then 1 else 0) -
    (if prevval > ((input.interrupts t.read1).interrupts t.read2).returnVal then 1 else 0)

/-- The input at the third reading. -/
def copied (input : Input) (t : Turn) : Input := ((input.interrupts t.read1).interrupts t.read2).interrupts t.read3

/-- How far the iteration moves its target. -/
def moved (s : StatusLoop) (t : Turn) : ℤ := shift s.prevval (s.menu t).1.input t

/-- The count that it copies. -/
def countCopied (s : StatusLoop) (t : Turn) : ℤ := (copied (s.menu t).1.input t).returnVal

/-- The target of the mode, and its limit. -/
def target (s : StatusLoop) : ℤ := if s.controls.manual then s.speed_val else s.pres_val

def limit (s : StatusLoop) : ℤ := if s.controls.manual then 100 else 120

/-- No message comes, the mode stays, and the target is not cut at its limits. -/
structure Undisturbed (use_wifi : Bool) (s : StatusLoop) (t : Turn) : Prop where
  messages : use_wifi = true → t.messages = []
  mode : (s.menu t).2 = s.controls.manual
  inside : 0 ≤ s.target + s.moved t ∧ s.target + s.moved t ≤ s.limit

variable {use_wifi : Bool} {s : StatusLoop} {t : Turn}

theorem clamp_eq {hi x : ℤ} (h : 0 ≤ x ∧ x ≤ hi) : clamp hi x = x := by
  unfold clamp
  dsimp only
  rw [if_neg (by omega), if_neg (by omega)]

/-- Every comparison moves the target by at most one, which overflows nowhere. -/
theorem encoderStep_eq {x : ℤ} (h : 0 ≤ x ∧ x ≤ 120) (prevval : ℤ) (input : Input) (t : Turn) :
    encoderStep x prevval (input.interrupts t.read1).returnVal ((input.interrupts t.read1).interrupts t.read2).returnVal =
      some (x + shift prevval input t) := by
  have hfit : ∀ y : ℤ, -2 ≤ y → y ≤ 122 → signed? 32 y = some y :=
    fun y h1 h2 => signed?_eq (by omega) (by omega)
  unfold encoderStep shift
  split_ifs
  · rw [Machine.bind_of (hfit _ (by omega) (by omega)), hfit _ (by omega) (by omega)]
    exact congrArg some (by omega)
  · rw [Machine.bind_of (hfit _ (by omega) (by omega)), hfit _ (by omega) (by omega)]
    exact congrArg some (by omega)
  · rw [Machine.bind_of (hfit _ (by omega) (by omega)), hfit _ (by omega) (by omega)]
    exact congrArg some (by omega)
  · rw [Machine.bind_of (hfit _ (by omega) (by omega)), hfit _ (by omega) (by omega)]
    exact congrArg some (by omega)

/-- With no set point to take over. -/
theorem updateTarget_eq {x : ℤ} (h : 0 ≤ x ∧ x ≤ 120) (hset : s.controls.setpoint = s.old_set_point)
    (t : Turn) (hi : ℤ) : s.updateTarget t x hi =
      some ({ s with input := copied s.input t, prevval := (copied s.input t).returnVal },
        clamp hi (x + shift s.prevval s.input t)) := by
  rw [updateTarget]
  dsimp only
  rw [Machine.bind_of (encoderStep_eq h s.prevval s.input t), if_neg (not_not.mpr hset)]
  rfl

/-- The menu leaves what the target's update looks at. -/
theorem menu_undisturbed (hu : Undisturbed use_wifi s t) :
    ∃ input display_mode, (s.menu t).1 = { s with input, display_mode } := by
  obtain ⟨input, display_mode, h⟩ := menu_eq s t
  refine ⟨input, display_mode, ?_⟩
  rw [h, hu.mode]
  rfl

theorem target_of_manual {u : StatusLoop} (h : u.controls.manual = true) : u.target = u.speed_val :=
  if_pos h

theorem target_of_auto {u : StatusLoop} (h : u.controls.manual = false) : u.target = u.pres_val :=
  if_neg (by rw [h]; exact Bool.false_ne_true)

/-- The fan's part of the iteration. -/
theorem control_undisturbed (h : InRange s) (hset : s.controls.setpoint = s.old_set_point)
    (hu : Undisturbed use_wifi s t) : ∃ u acts, (s.menu t).1.control t = some (u, acts) ∧
      u.target = s.target + s.moved t ∧ u.prevval = s.countCopied t ∧ u.controls = s.controls ∧
      u.old_set_point = s.old_set_point := by
  obtain ⟨input, display_mode, hmenu⟩ := menu_undisturbed hu
  have hrange := h.menu t
  have hmoved : s.moved t = shift (s.menu t).1.prevval (s.menu t).1.input t := by
    rw [moved, hmenu]
  have hset' : (s.menu t).1.controls.setpoint = (s.menu t).1.old_set_point := by
    rw [hmenu]
    exact hset
  have hin := hu.inside
  unfold control
  cases hm : s.controls.manual with
  | true =>
    have hm' : (s.menu t).1.controls.manual = true := by
      rw [hmenu]
      exact hm
    rw [target_of_manual hm, limit, if_pos hm] at hin
    have hup := updateTarget_eq (show 0 ≤ s.speed_val ∧ s.speed_val ≤ 120 by have := h.speed_val; omega) hset' t 100
    have hspeed : (s.menu t).1.speed_val = s.speed_val := by rw [hmenu]
    rw [← hmoved] at hup
    rw [← hspeed] at hup
    obtain ⟨value, -, hc⟩ := controlManual_of hup
    rw [if_pos hm']
    refine ⟨_, _, hc, ?_, rfl, ?_, ?_⟩
    · rw [target_of_manual (by exact hm'), target_of_manual hm, hspeed, clamp_eq hin]
    · rw [hmenu]
    · rw [hmenu]
  | false =>
    have hm' : (s.menu t).1.controls.manual = false := by
      rw [hmenu]
      exact hm
    rw [target_of_auto hm, limit, if_neg (by rw [hm]; exact Bool.false_ne_true)] at hin
    have hup := updateTarget_eq h.pres_val hset' t 120
    have hpres : (s.menu t).1.pres_val = s.pres_val := by rw [hmenu]
    rw [← hmoved] at hup
    rw [← hpres] at hup
    obtain ⟨adjust_time, fan, acts, hc, -⟩ := controlAuto_of hup (by exact hrange.speed)
    rw [if_neg (by rw [hm']; exact Bool.false_ne_true)]
    refine ⟨_, _, hc, ?_, rfl, ?_, ?_⟩
    · rw [target_of_auto (by exact hm'), target_of_auto hm, hpres, clamp_eq hin]
    · rw [hmenu]
    · rw [hmenu]

/-- The whole iteration. -/
theorem iterate_undisturbed (h : InRange s) (hset : s.controls.setpoint = s.old_set_point)
    (hu : Undisturbed use_wifi s t) : ∃ s' acts, iterate use_wifi s t = some (s', acts) ∧
      s'.target = s.target + s.moved t ∧ s'.prevval = s.countCopied t ∧
      s'.controls.setpoint = s'.old_set_point := by
  obtain ⟨u, handed, hc, htarget, hprevval, hcontrols, hold⟩ := control_undisturbed h hset hu
  obtain ⟨send_time, regs, reported, hr, -⟩ := report_spec use_wifi u t (s.menu t).2
  refine ⟨_, _, iterate_of hc hr, ?_⟩
  have hset' : u.controls.setpoint = u.old_set_point := by
    rw [hcontrols, hold, hset]
  unfold yield
  cases use_wifi with
  | true =>
    rw [hu.messages rfl]
    exact ⟨htarget, hprevval, hset'⟩
  | false => exact ⟨htarget, hprevval, hset'⟩

/-! ### Runs -/

/-- A run: the loop, the target and the count at the run's start, and the count
that the loop last took into account. -/
structure Turning where
  loop : StatusLoop
  target₀ : ℤ
  count₀ : ℤ
  seen : ℤ

namespace Turning

/-- An iteration of an undisturbed run. -/
def step (use_wifi : Bool) (p : Turning) (t : Turn) : Option Turning :=
  (iterate use_wifi p.loop t).map fun q => { p with loop := q.1, seen := q.1.prevval }

/-- A run starts anywhere in the life of the loop, with no set point waiting to be taken over. -/
structure IsStart (use_wifi : Bool) (p : Turning) : Prop where
  reach : ∃ log, Machine.Reach (logged use_wifi) Start Machine.Always (p.loop, log)
  setpoint : p.loop.controls.setpoint = p.loop.old_set_point
  target₀ : p.target₀ = p.loop.target
  count₀ : p.count₀ = p.loop.input.returnVal
  seen : p.seen = p.count₀

/-- The loop has caught up: the count is the one that it copied last. -/
def CaughtUp (p : Turning) : Prop := p.loop.input.returnVal = p.loop.prevval

/-- Caught up, the target has changed as the count has. -/
def Right (p : Turning) : Prop :=
  p.CaughtUp → p.loop.target - p.target₀ = p.loop.input.returnVal - p.count₀

/-- **The condition**: the comparisons move the target as far as the count copied has gone. -/
def Sees (p : Turning) (t : Turn) : Prop := p.loop.moved t = p.loop.countCopied t - p.seen

/-- An undisturbed iteration that meets it. -/
def Counts (use_wifi : Bool) (p : Turning) (t : Turn) : Prop :=
  Undisturbed use_wifi p.loop t ∧ p.Sees t

/-- What such a run keeps. -/
structure Kept (p : Turning) : Prop where
  inRange : InRange p.loop
  setpoint : p.loop.controls.setpoint = p.loop.old_set_point
  counted : p.loop.target - p.target₀ = p.seen - p.count₀

variable {p p' : Turning}

theorem IsStart.kept (h : p.IsStart use_wifi) : p.Kept := by
  obtain ⟨log, hr⟩ := h.reach
  refine ⟨inRange_of_reach hr, h.setpoint, ?_⟩
  rw [h.seen, h.target₀, sub_self, sub_self]

/-- An undisturbed iteration: it goes through, and target and count move together if it sees the steps. -/
theorem Kept.step (hk : p.Kept) (hu : Undisturbed use_wifi p.loop t) : ∃ p', step use_wifi p t = some p' ∧
    InRange p'.loop ∧ p'.loop.controls.setpoint = p'.loop.old_set_point ∧ p'.seen = p'.loop.prevval ∧
    (p'.loop.target - p'.target₀ = p'.seen - p'.count₀ ↔ p.Sees t) := by
  obtain ⟨s', acts, hi, htarget, hprevval, hset⟩ := iterate_undisturbed hk.inRange hk.setpoint hu
  obtain ⟨s'', acts', c, hi', hrange, -⟩ := iterate_spec use_wifi hk.inRange t
  cases hi.symm.trans hi'
  refine ⟨_, by rw [Turning.step, hi]; rfl, hrange, hset, rfl, ?_⟩
  have hcounted := hk.counted
  unfold Sees
  dsimp only
  rw [htarget, hprevval]
  omega

/-- **When no encoder step is lost or invented**, in every run of undisturbed
iterations that see the steps. -/
theorem counted_right_iff (hr : Machine.Reach (step use_wifi) (IsStart use_wifi) (Counts use_wifi) p) :
    p.Right ∧ ∀ t, Undisturbed use_wifi p.loop t → ∃ p', step use_wifi p t = some p' ∧
      (p'.CaughtUp → (p'.Right ↔ p.Sees t)) := by
  have hinv : p.Kept ∧ (p.CaughtUp → p.seen = p.loop.input.returnVal) := by
    refine hr.invariant (J := fun p => p.Kept ∧ (p.CaughtUp → p.seen = p.loop.input.returnVal)) ?_ ?_
    · exact fun p h => ⟨h.kept, fun _ => h.seen.trans h.count₀⟩
    · intro p t q hk hc hstep
      obtain ⟨q', hq', hrange, hset, hseen, hiff⟩ := hk.1.step hc.1
      cases hq'.symm.trans hstep
      exact ⟨⟨hrange, hset, hiff.mpr hc.2⟩, fun hup => hseen.trans hup.symm⟩
  refine ⟨fun hup => ?_, fun t hu => ?_⟩
  · rw [hinv.1.counted, hinv.2 hup]
  · obtain ⟨p', hstep, -, -, hseen, hiff⟩ := hinv.1.step hu
    refine ⟨p', hstep, fun hup => ?_⟩
    rw [← hiff, hseen, ← hup]
    exact ⟨fun h => h hup, fun h _ => h⟩

/-! ### One step, and two -/

/-- The encoder moves before the first reading, and nothing else happens. -/
def turning (steps : List Edge) : Turn := { idleTurn [] with read1 := steps }

/-- One step to the right from the start. -/
def oneStep : Turn := turning [⟨10, true, false⟩]

/-- Two more. -/
def twoSteps : Turn := turning [⟨10, false, true⟩, ⟨10, true, false⟩]

/-- A run that starts where the loop is. -/
def begin (loop : StatusLoop) : Turning := ⟨loop, loop.target, loop.input.returnVal, loop.input.returnVal⟩

theorem isStart_begin {loop : StatusLoop} {log : List Action}
    (hr : Machine.Reach (logged use_wifi) Start Machine.Always (loop, log))
    (hset : loop.controls.setpoint = loop.old_set_point) : (begin loop).IsStart use_wifi :=
  ⟨⟨log, hr⟩, hset, rfl, rfl, rfl⟩

theorem isStart_blank : (begin blankStart.1).IsStart true :=
  have hr : Machine.Reach (logged true) Start Machine.Always (blankStart.1, blankStart.2) :=
    .init ⟨_, _, _, _, rfl⟩
  isStart_begin hr (by decide +kernel)

theorem counts_oneStep : (begin blankStart.1).Counts true oneStep :=
  ⟨⟨fun _ => rfl, by decide +kernel, by decide +kernel⟩, by unfold Sees; decide +kernel⟩

/-- A step seen by an iteration is counted. -/
theorem counted_right_one : ∃ p, step true (begin blankStart.1) oneStep = some p ∧ p.Right := by
  obtain ⟨p, hp, -⟩ := isStart_blank.kept.step counts_oneStep.1
  have hr : Machine.Reach (step true) (IsStart true) (Counts true) p := .step (.init isStart_blank) counts_oneStep hp
  exact ⟨p, hp, (counted_right_iff hr).1⟩

/-- **Two steps in one iteration**, and the target follows one. -/
theorem second_step_lost : ∃ p p', p.IsStart true ∧ Undisturbed true p.loop twoSteps ∧
    step true p twoSteps = some p' ∧ p'.CaughtUp ∧ ¬ p'.Right := by
  have hfirst : ((iterate true blankStart.1 oneStep).any fun q =>
      decide (q.1.controls.setpoint = q.1.old_set_point ∧ (q.1.menu twoSteps).2 = q.1.controls.manual ∧
        (0 ≤ q.1.target + q.1.moved twoSteps ∧ q.1.target + q.1.moved twoSteps ≤ q.1.limit)) &&
      ((step true (begin q.1) twoSteps).any fun p' => decide (p'.loop.input.returnVal = p'.loop.prevval ∧
        p'.loop.target - p'.target₀ ≠ p'.loop.input.returnVal - p'.count₀))) = true := by
    decide +kernel
  obtain ⟨⟨loop, acts⟩, hloop, hp⟩ := (Option.any_eq_true _ _).mp hfirst
  obtain ⟨hstart, hstep⟩ := Bool.and_eq_true_iff.mp hp
  obtain ⟨hset, hmode, hin⟩ := of_decide_eq_true hstart
  obtain ⟨p', hp', hlost⟩ := (Option.any_eq_true _ _).mp hstep
  obtain ⟨hup, hne⟩ := of_decide_eq_true hlost
  have hblank : Machine.Reach (logged true) Start Machine.Always blankStart := .init ⟨_, _, _, _, rfl⟩
  have hlogged : logged true blankStart oneStep = some (loop, blankStart.2 ++ acts) := by
    rw [logged, hloop]
    rfl
  have hr := Machine.Reach.step hblank trivial hlogged
  exact ⟨begin loop, p', isStart_begin hr hset, ⟨fun _ => rfl, hmode, hin⟩, hp', hup, fun h => hne (h hup)⟩

end Turning
end StatusLoop
end Ventilation
