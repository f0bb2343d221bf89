/-
# Buttons and rotary encoder (src/input.cpp)

The gpio interrupts and the loops of `main` share one `DataPass`: the encoder
count and the last button pressed, if no loop has taken it yet. The count is
an unbounded integer here (it takes 2^31 turns of the encoder to leave an
`int`).
-/
import Mathlib.Data.Int.Notation
import Mathlib.Tactic.Common

namespace Ventilation

structure DataPass where
  data : ℤ
  ButtonPin : ℕ
  buttonPressed : Bool

/-- The shared data and the handler's static variable. -/
structure Input where
  data : DataPass
  last_state : Bool

/-- An interrupt: its pin, and the levels of pins 10 and 11 the handler finds. -/
structure Edge where
  gpio : ℕ
  A : Bool
  B : Bool

namespace Input

/-- `handler`. -/
def handler (s : Input) (e : Edge) : Input :=
  if e.gpio = 10 ∨ e.gpio = 11 then
    let state := e.A
    let data :=
      if s.last_state ≠ state then
        if e.B ≠ state then { s.data with data := s.data.data + 1 }
        else { s.data with data := s.data.data - 1 }
      else s.data
    { data, last_state := state }
  else if e.gpio = 9 ∨ e.gpio = 8 ∨ e.gpio = 7 ∨ e.gpio = 12 then
    { s with data := { s.data with ButtonPin := e.gpio, buttonPressed := true } }
  else s

/-- The interrupts between two accesses of a loop. -/
def interrupts (s : Input) (es : List Edge) : Input := es.foldl handler s

@[simp] theorem interrupts_nil (s : Input) : s.interrupts [] = s := rfl

/-- `RotaryEncoder::returnVal`. -/
def returnVal (s : Input) : ℤ := s.data.data

/-- `Button::setState`. -/
def setState (s : Input) : Input := { s with data := { s.data with buttonPressed := false } }

@[simp] theorem returnVal_setState (s : Input) : s.setState.returnVal = s.returnVal := rfl

/-- The interrupts before each of the three accesses that taking a press makes. -/
structure PressIrqs where
  state : List Edge
  pin : List Edge
  clear : List Edge

/-- No interrupt comes. -/
def PressIrqs.quiet : PressIrqs := ⟨[], [], []⟩

/-- `if (button.returnState() && button.returnPin() == pin) button.setState();`
and whether it was taken. -/
def takePress (s : Input) (pin : ℕ) (irqs : PressIrqs) : Input × Bool :=
  let s := s.interrupts irqs.state
  if s.data.buttonPressed then
    let s := s.interrupts irqs.pin
    if s.data.ButtonPin = pin then ((s.interrupts irqs.clear).setState, true) else (s, false)
  else (s, false)

/-- The press of `pin` waits to be taken. -/
def Pending (s : Input) (pin : ℕ) : Prop := s.data.buttonPressed = true ∧ s.data.ButtonPin = pin

instance (s : Input) (pin : ℕ) : Decidable (s.Pending pin) := inferInstanceAs (Decidable (_ ∧ _))

theorem takePress_quiet (s : Input) (pin : ℕ) :
    s.takePress pin .quiet = if s.Pending pin then (s.setState, true) else (s, false) := by
  have h : s.takePress pin .quiet = if s.data.buttonPressed then
      if s.data.ButtonPin = pin then (s.setState, true) else (s, false) else (s, false) := rfl
  rw [h]
  by_cases hp : s.data.buttonPressed
  · by_cases hpin : s.data.ButtonPin = pin
    · rw [if_pos hp, if_pos hpin, if_pos ⟨hp, hpin⟩]
    · rw [if_pos hp, if_neg hpin, if_neg fun h => hpin h.2]
  · rw [if_neg hp, if_neg fun h => hp h.1]

end Input
end Ventilation
