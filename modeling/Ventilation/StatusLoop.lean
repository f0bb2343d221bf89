/-
# The status loop (main.cpp)

An iteration takes the button presses (`menu`), moves the target of the mode
it runs in and drives the fan (`control`), every five seconds reads the four
sensors over Modbus and sends their values (`report`), and handles the
messages that have arrived (`yield`). What comes from outside is a `Turn`:
the interrupts between any two accesses to the data they share with the loop,
the pressure sensor's bytes, the clock, the bytes of the four transfers and
the messages. A result `none` is a signed overflow or a write outside an
array.
-/
import Ventilation.CommHandler
import Ventilation.Fan
import Ventilation.Input
import Ventilation.Modbus.Register

namespace Ventilation

open CInt

/-- The four read registers of `main`. -/
inductive Sensor
  | rh | absh | temp | co
  deriving DecidableEq

/-- The order of the transfers. -/
def Sensor.order : List Sensor := [.rh, .absh, .co, .temp]

/-- What the RX DMA has stored when a transfer of a sensor ends: at most as
many bytes as `start_transfer` asks for. -/
structure Reply where
  bytes : List Byte
  length_le : bytes.length ≤ 9

/-- The variables of the loop, and the static ones it shares. -/
structure StatusLoop where
  input : Input
  controls : Controls
  display_mode : ℕ
  fan : FAN
  regs : Sensor → MODBUSRegister
  send_time : BitVec 32
  adjust_time : BitVec 32
  old_set_point : ℤ
  speed_val : ℤ
  pres_val : ℤ
  prevval : ℤ

/-- What an iteration meets. The interrupts stand at the accesses they come
before; `late` are those between the last of them and the messages. -/
structure Turn where
  pin8 : Input.PressIrqs
  pin9 : Input.PressIrqs
  read1 : List Edge
  read2 : List Edge
  read3 : List Edge
  late : List Edge
  in0 : Byte
  in1 : Byte
  adjust_now : BitVec 32
  fan_now : BitVec 32
  send_now : BitVec 32
  reply : Sensor → Reply
  messages : List (ℤ × ℤ)

/-- What an iteration does that others see: a value handed to the fan speed
register, with the fan right after the call; the end of a transfer, with the
register it leaves; a status message. -/
inductive Action
  | hand (value : ℕ) (fan : FAN)
  | transfer (sensor : Sensor) (bytes : List Byte) (reg : MODBUSRegister)
  | send (status : Status)

namespace StatusLoop

def SEND_DELAY : BitVec 32 := 5000

def ADJUST_DELAY : BitVec 32 := 5000

/-- What the press of pin 8 makes of `display_mode`. -/
def page (display_mode : ℕ) (pressed8 : Bool) : ℕ :=
  if pressed8 then (if display_mode = 0 then 1 else 0) else display_mode

/-- `mainMenu`, less the drawing: the two button checks, which may toggle what
is shown and, on the second page, the mode. -/
def mainMenu (s : StatusLoop) (t : Turn) (mode : Bool) : StatusLoop × Bool :=
  let (input, pressed8) := s.input.takePress 8 t.pin8
  let display_mode := page s.display_mode pressed8
  if display_mode = 1 then
    let (input, pressed9) := input.takePress 9 t.pin9
    ({ s with input, display_mode }, if pressed9 then !mode else mode)
  else ({ s with input, display_mode }, mode)

/-- The menu, and the mode of the iteration. -/
def menu (s : StatusLoop) (t : Turn) : StatusLoop × Bool :=
  let (s, mode) := s.mainMenu t s.controls.manual
  ({ s with controls := s.controls.set_manual mode }, mode)

/-- The first two readings of the encoder move the target by one. -/
def encoderStep (target prevval read1 read2 : ℤ) : Option ℤ := do
  let target ← signed? 32 (if prevval < read1 then target + 1 else target)
  signed? 32 (if prevval > read2 then target - 1 else target)

/-- `if (x < 0) x = 0; if (x > hi) x = hi;` -/
def clamp (hi x : ℤ) : ℤ :=
  let x := if x < 0 then 0 else x
  if x > hi then hi else x

/-- The new target of either mode: moved with the encoder, replaced by a set
point that has changed, and cut to `0..hi`. -/
def updateTarget (s : StatusLoop) (t : Turn) (target hi : ℤ) : Option (StatusLoop × ℤ) := do
  let input1 := s.input.interrupts t.read1
  let input2 := input1.interrupts t.read2
  let input := input2.interrupts t.read3
  let target ← encoderStep target s.prevval input1.returnVal input2.returnVal
  let s := { s with input, prevval := input.returnVal }
  if s.controls.setpoint ≠ s.old_set_point then
    pure ({ s with old_set_point := s.controls.setpoint }, clamp hi s.controls.setpoint)
  else pure (s, clamp hi target)

/-- The manual branch. -/
def controlManual (s : StatusLoop) (t : Turn) : Option (StatusLoop × List Action) := do
  let (s, speed_val) ← s.updateTarget t s.speed_val 100
  let speed ← signed? 32 (speed_val * 10)
  let (fan, value) := s.fan.set_speed (toUnsigned 16 speed)
  pure ({ s with speed_val, fan }, [.hand value fan])

/-- The automatic branch. -/
def controlAuto (s : StatusLoop) (t : Turn) : Option (StatusLoop × List Action) := do
  let (s, pres_val) ← s.updateTarget t s.pres_val 120
  let s := { s with pres_val }
  if t.adjust_now - s.adjust_time > ADJUST_DELAY then
    let (fan, value) ← s.fan.adjust_speed pres_val t.in0 t.in1 t.fan_now
    pure ({ s with adjust_time := t.adjust_now, fan }, value.toList.map (.hand · fan))
  else pure (s, [])

def control (s : StatusLoop) (t : Turn) : Option (StatusLoop × List Action) :=
  if s.controls.manual then s.controlManual t else s.controlAuto t

/-- A transfer, from its start until the controller is no longer busy. -/
def transfer (t : Turn) (s : StatusLoop) (r : Sensor) : Option (StatusLoop × Action) := do
  let reg ← (s.regs r).receive (t.reply r).bytes
  pure ({ s with regs := Function.update s.regs r reg }, .transfer r (t.reply r).bytes reg)

/-- Transfers one after the other. -/
def transfers (t : Turn) : StatusLoop → List Sensor → Option (StatusLoop × List Action)
  | s, [] => some (s, [])
  | s, r :: rs => do
    let (s, a) ← s.transfer t r
    let (s, as) ← transfers t s rs
    pure (s, a :: as)

/-- The message of an iteration in the given mode. -/
def status (s : StatusLoop) (mode : Bool) : Status where
  speed := s.fan.get_speed.tdiv 10
  setpoint := if mode then s.speed_val else s.pres_val
  pressure := s.fan.get_pressure
  aut := !s.controls.manual
  error := s.fan.get_error
  co2 := (s.regs .co).get_float
  ah := (s.regs .absh).get_float
  rh := (s.regs .rh).get_float
  temp := (s.regs .temp).get_float

/-- It is time to read the sensors. -/
def Due (s : StatusLoop) (t : Turn) : Prop := t.send_now - s.send_time > SEND_DELAY

instance (s : StatusLoop) (t : Turn) : Decidable (s.Due t) := inferInstanceAs (Decidable (_ > _))

def report (use_wifi : Bool) (s : StatusLoop) (t : Turn) (mode : Bool) :
    Option (StatusLoop × List Action) :=
  if s.Due t then do
    let (s, acts) ← transfers t { s with send_time := t.send_now } Sensor.order
    pure (s, acts ++ if use_wifi then [.send (s.status mode)] else [])
  else some (s, [])

/-- What of `yield` reaches the loop: the control messages it handles. -/
def yield (use_wifi : Bool) (s : StatusLoop) (t : Turn) : StatusLoop :=
  let s := { s with input := s.input.interrupts t.late }
  if use_wifi then { s with controls := s.controls.messages t.messages } else s

/-- **An iteration.** -/
def iterate (use_wifi : Bool) (s : StatusLoop) (t : Turn) : Option (StatusLoop × List Action) := do
  let (s, mode) := s.menu t
  let (s, handed) ← s.control t
  let (s, reported) ← report use_wifi s t mode
  pure (yield use_wifi s t, handed ++ reported)

/-- The four registers `main` constructs, over what their memory held. -/
def registers (mem : Sensor → MODBUSRegister) : Sensor → MODBUSRegister
  | .rh => ReadRegister.new (mem .rh) 241 0 2 true
  | .absh => ReadRegister.new (mem .absh) 241 0xe 2 true
  | .temp => ReadRegister.new (mem .temp) 240 4 2 true
  | .co => ReadRegister.new (mem .co) 240 0 2 true

/-- The start of the loop, with what the construction of the fan has handed
over: the shared data and the memory of the objects hold anything. -/
def start (input : Input) (controls : Controls) (fanMem : FAN) (mem : Sensor → MODBUSRegister) :
    StatusLoop × List Action :=
  let (fan, value) := FAN.new fanMem 0
  ({ input, controls, display_mode := 1, fan, regs := registers mem, send_time := 0
     adjust_time := 0, old_set_point := controls.setpoint, speed_val := 0, pres_val := 0
     prevval := 0 }, [.hand value fan])

/-- An iteration that keeps a log of all that was done. -/
def logged (use_wifi : Bool) (p : StatusLoop × List Action) (t : Turn) :
    Option (StatusLoop × List Action) :=
  (iterate use_wifi p.1 t).map fun q => (q.1, p.2 ++ q.2)

/-- Where a run of the loop starts. -/
def Start (p : StatusLoop × List Action) : Prop :=
  ∃ input controls fanMem mem, p = start input controls fanMem mem

/-- As many bytes as a `Reply` may hold are what `start_transfer` asks for. -/
theorem rxlen_registers (mem : Sensor → MODBUSRegister) (r : Sensor) :
    ReadRegister.rxlen (registers mem r) = 9 := by
  cases r <;> rfl

/-! ### What an iteration keeps -/

/-- The ranges of the speed and of the two targets. -/
structure InRange (s : StatusLoop) : Prop where
  speed : s.fan.SpeedOk
  speed_val : 0 ≤ s.speed_val ∧ s.speed_val ≤ 100
  pres_val : 0 ≤ s.pres_val ∧ s.pres_val ≤ 120

/-- A value handed over that is within 0..1000 and the speed the fan then reports. -/
def Handed : Action → Prop
  | .hand value fan => value ≤ 1000 ∧ (value : ℤ) = fan.get_speed
  | _ => False

/-- An action of the report: the end of a transfer, or a message. -/
def Reported (use_wifi : Bool) : Action → Prop
  | .hand .. => False
  | .transfer .. => True
  | .send _ => use_wifi = true

theorem clamp_bounds {hi : ℤ} (h : 0 ≤ hi) (x : ℤ) : 0 ≤ clamp hi x ∧ clamp hi x ≤ hi := by
  unfold clamp
  simp only
  split_ifs <;> omega

theorem mainMenu_eq (s : StatusLoop) (t : Turn) (mode : Bool) : ∃ input display_mode,
    (s.mainMenu t mode).1 = { s with input, display_mode } := by
  simp only [mainMenu]
  split <;> exact ⟨_, _, rfl⟩

/-- The menu changes nothing else. -/
theorem menu_eq (s : StatusLoop) (t : Turn) : ∃ input display_mode,
    (s.menu t).1 = { s with input, display_mode, controls := s.controls.set_manual (s.menu t).2 } := by
  obtain ⟨input, display_mode, h⟩ := mainMenu_eq s t s.controls.manual
  refine ⟨input, display_mode, ?_⟩
  simp only [menu, h]

theorem InRange.menu {s : StatusLoop} (h : InRange s) (t : Turn) : InRange (s.menu t).1 := by
  obtain ⟨_, _, he⟩ := menu_eq s t
  rw [he]
  exact ⟨h.speed, h.speed_val, h.pres_val⟩

/-- The encoder moves the target by at most one. -/
theorem encoderStep_isSome {target : ℤ} (prevval read1 read2 : ℤ)
    (h : 0 ≤ target ∧ target ≤ 120) : ∃ x, encoderStep target prevval read1 read2 = some x := by
  have h1 : ∀ x : ℤ, -2 ≤ x → x ≤ 122 → signed? 32 x = some x :=
    fun x h1 h2 => signed?_eq (by omega) (by omega)
  have hup : signed? 32 (if prevval < read1 then target + 1 else target) =
      some (if prevval < read1 then target + 1 else target) := h1 _ (by split_ifs <;> omega)
      (by split_ifs <;> omega)
  rw [encoderStep, Machine.bind_of hup]
  exact ⟨_, h1 _ (by split_ifs <;> omega) (by split_ifs <;> omega)⟩

/-- A changed set point comes before the target of before. -/
def chosen (s : StatusLoop) (target : ℤ) : ℤ :=
  if s.controls.setpoint ≠ s.old_set_point then s.controls.setpoint else target

/-- The target an update makes. Of the rest of the loop only the encoder's
readings and the last set point change. -/
theorem updateTarget_spec (s : StatusLoop) (t : Turn) {target : ℤ} (hi : ℤ)
    (h : 0 ≤ target ∧ target ≤ 120) : ∃ input x,
    encoderStep target s.prevval (s.input.interrupts t.read1).returnVal
      ((s.input.interrupts t.read1).interrupts t.read2).returnVal = some x ∧
    s.updateTarget t target hi = some ({ s with input, prevval := input.returnVal
                                                old_set_point := s.controls.setpoint },
      clamp hi (s.chosen x)) := by
  obtain ⟨x, hx⟩ := encoderStep_isSome s.prevval (s.input.interrupts t.read1).returnVal
    ((s.input.interrupts t.read1).interrupts t.read2).returnVal h
  refine ⟨((s.input.interrupts t.read1).interrupts t.read2).interrupts t.read3, x, hx, ?_⟩
  rw [updateTarget]
  dsimp only
  rw [Machine.bind_of hx]
  unfold chosen
  split_ifs with hne
  · rfl
  · rw [not_not.mp hne]
    rfl

/-- The manual branch behind its update: the speed is ten times the target. -/
theorem controlManual_of {s u : StatusLoop} {t : Turn} {x : ℤ}
    (hu : s.updateTarget t s.speed_val 100 = some (u, clamp 100 x)) : ∃ value : ℕ, value ≤ 1000 ∧
    s.controlManual t = some ({ u with speed_val := clamp 100 x, fan := (u.fan.set_speed value).1 },
      [.hand value (u.fan.set_speed value).1]) := by
  have hx := clamp_bounds (show (0 : ℤ) ≤ 100 by decide) x
  have hs : signed? 32 (clamp 100 x * 10) = some (clamp 100 x * 10) :=
    signed?_eq (by omega) (by omega)
  have hv : (toUnsigned 16 (clamp 100 x * 10) : ℤ) = clamp 100 x * 10 :=
    toUnsigned_cast (by omega) (by omega)
  refine ⟨toUnsigned 16 (clamp 100 x * 10), by omega, ?_⟩
  rw [controlManual, Machine.bind_of hu]
  dsimp only
  rw [Machine.bind_of hs]
  rfl

/-- The automatic branch behind its update. -/
theorem controlAuto_of {s u : StatusLoop} {t : Turn} {x : ℤ}
    (hu : s.updateTarget t s.pres_val 120 = some (u, clamp 120 x)) (hfan : u.fan.SpeedOk) :
    ∃ adjust_time fan acts, s.controlAuto t =
        some ({ u with pres_val := clamp 120 x, adjust_time, fan }, acts) ∧
      fan.SpeedOk ∧ ∀ a ∈ acts, Handed a := by
  have hx := clamp_bounds (show (0 : ℤ) ≤ 120 by decide) x
  obtain ⟨fan, value, hf, hspeed, hvalue⟩ := FAN.adjust_speed_spec t.in0 t.in1 t.fan_now hfan hx
  rw [controlAuto, Machine.bind_of hu]
  dsimp only
  split
  · rw [Machine.bind_of hf]
    refine ⟨_, fan, _, rfl, hspeed, ?_⟩
    intro a ha
    obtain ⟨v, hv, rfl⟩ := List.mem_map.mp ha
    have hv := hvalue v (Option.mem_toList.mp hv)
    exact ⟨by have := hspeed.2; unfold FAN.get_speed at hv; omega, hv⟩
  · exact ⟨u.adjust_time, u.fan, [], rfl, hfan, fun a ha => by cases ha⟩

/-- What the control of the fan does: the ranges stay, and what it shares with
the rest of the iteration. -/
structure Controlled (s s' : StatusLoop) (acts : List Action) : Prop where
  inRange : InRange s'
  handed : ∀ a ∈ acts, Handed a
  controls : s'.controls = s.controls
  regs : s'.regs = s.regs
  send_time : s'.send_time = s.send_time

theorem controlManual_spec {s : StatusLoop} (h : InRange s) (t : Turn) :
    ∃ s' acts, s.controlManual t = some (s', acts) ∧ Controlled s s' acts := by
  obtain ⟨input, x, -, hu⟩ := updateTarget_spec s t 100
    ⟨h.speed_val.1, by have := h.speed_val.2; omega⟩
  obtain ⟨value, hle, hc⟩ := controlManual_of hu
  refine ⟨_, _, hc, ⟨FAN.speedOk_set_speed s.fan hle, clamp_bounds (by decide) _, h.pres_val⟩, ?_,
    rfl, rfl, rfl⟩
  intro a ha
  rw [List.mem_singleton] at ha
  subst ha
  exact ⟨hle, rfl⟩

theorem controlAuto_spec {s : StatusLoop} (h : InRange s) (t : Turn) :
    ∃ s' acts, s.controlAuto t = some (s', acts) ∧ Controlled s s' acts := by
  obtain ⟨input, x, -, hu⟩ := updateTarget_spec s t 120 h.pres_val
  obtain ⟨adjust_time, fan, acts, hc, hspeed, hacts⟩ := controlAuto_of hu h.speed
  exact ⟨_, acts, hc, ⟨hspeed, h.speed_val, clamp_bounds (by decide) _⟩, hacts, rfl, rfl, rfl⟩

theorem control_spec {s : StatusLoop} (h : InRange s) (t : Turn) :
    ∃ s' acts, s.control t = some (s', acts) ∧ Controlled s s' acts := by
  unfold control
  split
  · exact controlManual_spec h t
  · exact controlAuto_spec h t

/-- Transfers change registers only. -/
theorem transfers_spec (t : Turn) : ∀ (rs : List Sensor) (s : StatusLoop), ∃ regs acts,
    transfers t s rs = some ({ s with regs }, acts) ∧ ∀ a ∈ acts, ∀ w, Reported w a
  | [], s => ⟨s.regs, [], rfl, fun a ha => by cases ha⟩
  | r :: rs, s => by
    obtain ⟨reg, hreg⟩ := MODBUSRegister.receive_isSome (s.regs r)
      (le_trans (t.reply r).length_le (by decide))
    have htr : s.transfer t r = some ({ s with regs := Function.update s.regs r reg },
        .transfer r (t.reply r).bytes reg) := by
      rw [transfer, Machine.bind_of hreg]
      rfl
    obtain ⟨regs, acts, hrest, hacts⟩ :=
      transfers_spec t rs { s with regs := Function.update s.regs r reg }
    refine ⟨regs, .transfer r (t.reply r).bytes reg :: acts, ?_, ?_⟩
    · rw [transfers, Machine.bind_of htr]
      dsimp only
      rw [Machine.bind_of hrest]
      rfl
    · intro a ha
      rcases List.mem_cons.mp ha with rfl | ha
      · exact fun _ => trivial
      · exact hacts a ha

theorem report_spec (use_wifi : Bool) (s : StatusLoop) (t : Turn) (mode : Bool) :
    ∃ send_time regs acts, report use_wifi s t mode = some ({ s with send_time, regs }, acts) ∧
      ∀ a ∈ acts, Reported use_wifi a := by
  unfold report
  split
  · obtain ⟨regs, acts, htr, hacts⟩ := transfers_spec t Sensor.order { s with send_time := t.send_now }
    rw [Machine.bind_of htr]
    refine ⟨_, regs, _, rfl, ?_⟩
    intro a ha
    rcases List.mem_append.mp ha with ha | ha
    · exact hacts a ha use_wifi
    · cases use_wifi
      · cases ha
      · rw [List.mem_singleton.mp ha]
        exact rfl
  · exact ⟨s.send_time, s.regs, [], rfl, fun a ha => by cases ha⟩

/-- An iteration is its parts. -/
theorem iterate_of {use_wifi : Bool} {s c r : StatusLoop} {t : Turn} {handed reported : List Action}
    (hc : (s.menu t).1.control t = some (c, handed))
    (hr : report use_wifi c t (s.menu t).2 = some (r, reported)) :
    iterate use_wifi s t = some (yield use_wifi r t, handed ++ reported) := by
  rw [iterate]
  dsimp only
  rw [Machine.bind_of hc]
  dsimp only
  rw [Machine.bind_of hr]
  rfl

/-- One iteration: it goes through, keeps the ranges, and leaves the controls
to the messages. -/
theorem iterate_spec {s : StatusLoop} (use_wifi : Bool) (h : InRange s) (t : Turn) :
    ∃ s' acts c, iterate use_wifi s t = some (s', acts) ∧ InRange s' ∧
      (∀ a ∈ acts, Handed a ∨ Reported use_wifi a) ∧
      s'.controls = if use_wifi then Controls.messages c t.messages else c := by
  obtain ⟨c, handed, hc, hspec⟩ := control_spec (h.menu t) t
  obtain ⟨send_time, regs, reported, hr, hreported⟩ := report_spec use_wifi c t (s.menu t).2
  refine ⟨_, _, c.controls, iterate_of hc hr, ?_, ?_, ?_⟩
  · cases use_wifi <;> exact ⟨hspec.inRange.speed, hspec.inRange.speed_val, hspec.inRange.pres_val⟩
  · intro a ha
    rcases List.mem_append.mp ha with ha | ha
    · exact .inl (hspec.handed a ha)
    · exact .inr (hreported a ha)
  · cases use_wifi <;> rfl

theorem inRange_start (input : Input) (controls : Controls) (fanMem : FAN)
    (mem : Sensor → MODBUSRegister) : InRange (start input controls fanMem mem).1 :=
  ⟨⟨le_refl (0 : ℤ), show (0 : ℤ) ≤ 1000 by decide⟩, ⟨le_refl (0 : ℤ), show (0 : ℤ) ≤ 100 by decide⟩,
    ⟨le_refl (0 : ℤ), show (0 : ℤ) ≤ 120 by decide⟩⟩

/-- Every state a run of the loop reaches is in range. -/
theorem inRange_of_reach {use_wifi : Bool} {P : StatusLoop × List Action → Turn → Prop}
    {p : StatusLoop × List Action} (h : Machine.Reach (logged use_wifi) Start P p) :
    InRange p.1 := by
  refine h.invariant (J := fun p => InRange p.1) ?_ ?_
  · rintro _ ⟨input, controls, fanMem, mem, rfl⟩
    exact inRange_start input controls fanMem mem
  · rintro ⟨s, log⟩ t p hs - hstep
    obtain ⟨s', acts, -, hi, hr, -⟩ := iterate_spec use_wifi hs t
    simp only [logged, hi, Option.map_some, Option.some.injEq] at hstep
    exact hstep ▸ hr

/-- **What the fan is handed.** Whatever an iteration meets, it goes through
without overflow; and over a whole run, from the construction of the fan on,
every value handed to the speed register lies in 0..1000 and is the speed the
fan reports right after the call. -/
theorem fan_values_in_range (use_wifi : Bool) (input : Input) (controls : Controls) (fanMem : FAN)
    (mem : Sensor → MODBUSRegister) (ts : List Turn) : ∃ s log,
    Machine.run (logged use_wifi) (start input controls fanMem mem) ts = some (s, log) ∧
      ∀ (value : ℕ) (fan : FAN), .hand value fan ∈ log → value ≤ 1000 ∧ (value : ℤ) = fan.get_speed := by
  have hrun := Machine.run_of_total (logged use_wifi)
    (J := fun p => InRange p.1 ∧ ∀ a ∈ p.2, Handed a ∨ Reported use_wifi a) (fun p t hp => ?_) ts
    (s := start input controls fanMem mem)
    ⟨inRange_start input controls fanMem mem, ?_⟩
  · obtain ⟨⟨s, log⟩, hs, -, hlog⟩ := hrun
    exact ⟨s, log, hs, fun value fan h => (hlog _ h).resolve_right id⟩
  · obtain ⟨s', acts, -, hi, hr, hacts, -⟩ := iterate_spec use_wifi hp.1 t
    refine ⟨(s', p.2 ++ acts), by rw [logged, hi]; rfl, hr, ?_⟩
    intro a ha
    rcases List.mem_append.mp ha with ha | ha
    · exact hp.2 a ha
    · exact hacts a ha
  · intro a ha
    rw [List.mem_singleton.mp ha]
    exact .inl ⟨by decide, rfl⟩

end StatusLoop
end Ventilation
