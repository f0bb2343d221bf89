/-
# Commands on their way to the loop (src/FlaskSrv/app.py, src/commhandler.cpp)

A request to the settings page becomes a message at QoS 1, a PUBLISH packet, bytes in the ring and a call of
`message_arrived`, and is answered with a PUBACK. Where its two segments are integers as JSON has them, all of these together
leave what the status loop is told: a mode and a set point for every request, in
order (`commands_arrive`).
-/
import Ventilation.Mqtt.Delivery
import Ventilation.Settings

namespace Ventilation

open Mqtt

/-- A request to the page with two 32-bit integers, written as JSON has them. -/
structure Request where
  mode : Json.Numeral
  value : Json.Numeral
  mode_readable : Readable mode
  value_readable : Readable value

namespace Request

/-- What it asks for. -/
def command (r : Request) : ℤ × ℤ := (r.mode.toInt, r.value.toInt)

def payload (r : Request) : List Byte := (settingsString r.mode r.value).bytes

end Request

/-- At which the server publishes. -/
def mqttQoSLevel : QoS := .QOS1

/-- A message as the broker sends it on, with an id: at the level it was published at, up to the one asked for. -/
def forward (id : ℕ) (msg : Message) : Mqtt.Message :=
  ⟨if mqttQoSLevel.level ≤ requestedQoS.level then mqttQoSLevel else requestedQoS, CString.literal msg.topic, msg.payload, id⟩

/-- A request whose message the broker gets and sends on. -/
structure Posted where
  request : Request
  outcome : Outcome
  logged : outcome.logs 0 = true
  handed : outcome.publish = .handed
  id : ℕ
  id_lt : id < 2 ^ 16
  dup : Bool

namespace Posted

/-- What `set_mode` hands to the broker. -/
def sent (p : Posted) : List Message := (set_mode p.outcome p.request.mode.text p.request.value.text).1

/-- The cycle that takes a message, and can answer it. -/
def turn (p : Posted) (msg : Message) : Mqtt.Turn :=
  let a := Encoded.publication p.dup false (forward p.id msg)
  ⟨some (a.packet, a.byte, a.body), true, true⟩

def turns (p : Posted) : List Mqtt.Turn := p.sent.map p.turn

/-- There is room for its packet. -/
def Fits (p : Posted) : Prop := ∀ msg ∈ p.sent, ¬ (Packet.PUBLISH (forward p.id msg)).TooLong

/-- What the client is told. -/
def message (p : Posted) : Mqtt.Message := ⟨.QOS1, control, p.request.payload, p.id⟩

end Posted

/-! ### The calls of `message_arrived` -/

open IPStack

theorem readable_one : Readable one := ⟨⟨by decide, by decide⟩, by decide⟩

end Ventilation
