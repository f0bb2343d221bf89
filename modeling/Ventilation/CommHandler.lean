/-
# What the control topic sets and the status topic carries (src/commhandler.cpp)

The two static variables behind the control topic, which `main` reads, and
the message that `CommHandler::send` builds.
-/
import Mathlib.Data.Int.Notation
import Mathlib.Tactic.Common

namespace Ventilation

/-- The static variables of `commhandler.cpp`. -/
structure Controls where
  manual : Bool
  setpoint : ℤ
  deriving DecidableEq

namespace Controls

/-- Their initial values. -/
def initial : Controls := ⟨false, 50⟩

/-- The two assignments of `message_arrived`, for a message whose members are
the integers `aut` and `value`. -/
def message (_ : Controls) (aut value : ℤ) : Controls := ⟨decide (aut = 0), value⟩

def set_manual (c : Controls) (man : Bool) : Controls := { c with manual := man }

/-- The messages in the order in which `yield` handles them: the last counts. -/
def messages (c : Controls) (ms : List (ℤ × ℤ)) : Controls := ms.foldl (fun c m => c.message m.1 m.2) c

@[simp] theorem messages_concat (c : Controls) (ms : List (ℤ × ℤ)) (aut value : ℤ) :
    c.messages (ms ++ [(aut, value)]) = ⟨decide (aut = 0), value⟩ := by
  simp [messages, message]

end Controls

/-- The arguments of `CommHandler::send`; the readings are the bits of a `float`. -/
structure Status where
  speed : ℤ
  setpoint : ℤ
  pressure : ℤ
  aut : Bool
  error : Bool
  co2 : BitVec 32
  ah : BitVec 32
  rh : BitVec 32
  temp : BitVec 32

end Ventilation
