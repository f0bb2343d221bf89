/-
# Control messages and the session (src/commhandler.cpp, MQTTClient.h)

`CommHandler::subscribe` asks for QoS 2, and the client is compiled without it. Its
`cycle` delivers a QoS 2 message and answers it with a PUBREC; the PUBREL that
the broker then sends is to it an unrecoverable error, for which it closes the session and
forgets its handlers. `cycle_of_takes` and `cycle_closes` say which packets keep the session.
-/
import Ventilation.IPStack
import Ventilation.Lib.CString
import Ventilation.Lib.Machine

namespace Ventilation
namespace Mqtt

inductive QoS
  | QOS0 | QOS1 | QOS2
  deriving DecidableEq

def QoS.level : QoS → ℕ
  | .QOS0 => 0
  | .QOS1 => 1
  | .QOS2 => 2

structure Message where
  qos : QoS
  topicName : List Byte
  payload : List Byte
  id : ℕ
  deriving DecidableEq

/-! ### Packets -/

/-- The packets that a broker sends, and the client's answers. -/
inductive Packet
  | CONNACK
  | PUBLISH (msg : Message)
  | PUBACK (id : ℕ)
  | PUBREC (id : ℕ)
  | PUBREL (id : ℕ)
  | PUBCOMP (id : ℕ)
  | SUBACK (id : ℕ)
  | UNSUBACK (id : ℕ)
  | PINGRESP

namespace Packet

/-- `enum msgTypes`. -/
def type : Packet → ℤ
  | CONNACK => 2
  | PUBLISH _ => 3
  | PUBACK _ => 4
  | PUBREC _ => 5
  | PUBREL _ => 6
  | PUBCOMP _ => 7
  | SUBACK _ => 9
  | UNSUBACK _ => 11
  | PINGRESP => 13

/-- The remaining length: a PUBLISH has an id only above QoS 0. -/
def rem_len : Packet → ℕ
  | PUBLISH msg => 2 + msg.topicName.length + (if msg.qos = .QOS0 then 0 else 2) + msg.payload.length
  | SUBACK _ => 3
  | PINGRESP => 0
  | _ => 2

/-- The message of a PUBLISH. -/
def message : Packet → Option Message
  | PUBLISH msg => some msg
  | _ => none

end Packet

/-- The bytes of a remaining length; it has four at most. -/
def encodedLength (rem_len : ℕ) : ℕ :=
  if rem_len < 128 then 1 else if rem_len < 16384 then 2 else if rem_len < 2097152 then 3 else 4

def MAX_MQTT_PACKET_SIZE : ℕ := 200

/-- The packet does not fit into `readbuf`. -/
def Packet.TooLong (p : Packet) : Prop := (p.rem_len : ℤ) > (MAX_MQTT_PACKET_SIZE : ℤ) - (1 + encodedLength p.rem_len)

instance (p : Packet) : Decidable p.TooLong := inferInstanceAs (Decidable (_ > _))

/-! ### The client -/

/-- The client, with the messages that `message_arrived` was called with. -/
structure Session where
  isconnected : Bool
  cleansession : Bool
  messageHandlers : Vector (Option (List Byte)) 5
  arrived : List Message

/-- `isTopicMatched`: the filter's bytes against those of the name that are left. -/
def isTopicMatched : List Byte → List Byte → Bool
  | [], curn => curn.isEmpty
  | _ :: _, [] => false
  | f :: curf, n :: curn =>
    if n = 47 ∧ f ≠ 47 then false
    else if f ≠ 43 ∧ f ≠ 35 ∧ f ≠ n then false
    else if f = 43 then isTopicMatched curf (curn.dropWhile (· ≠ 47))
    else if f = 35 then isTopicMatched curf []
    else isTopicMatched curf curn

namespace Session

/-- The handlers that a message on a topic goes to. -/
def handlersFor (s : Session) (topicName : List Byte) : ℕ :=
  s.messageHandlers.toList.countP fun topicFilter =>
    topicFilter.any fun topicFilter => topicFilter = topicName ∨ isTopicMatched topicFilter topicName

/-- `deliverMessage`; there is no default handler. -/
def deliverMessage (s : Session) (msg : Message) : Session :=
  { s with arrived := s.arrived ++ List.replicate (s.handlersFor msg.topicName) msg }

def cleanSession (s : Session) : Session := { s with messageHandlers := .replicate 5 none }

def closeSession (s : Session) : Session :=
  let s := { s with isconnected := false }
  if s.cleansession then s.cleanSession else s

/-- The `switch` of `cycle`, compiled without QoS 2: the session, the answer sent, `rc`, and whether it
goes to `exit` at once. `sends` is what becomes of `sendPacket`. -/
def handle (s : Session) (p : Packet) (sends : Bool) : Session × List Packet × ℤ × Bool :=
  match p with
  | .CONNACK | .PUBACK _ | .SUBACK _ | .UNSUBACK _ => (s, [], 0, false)
  | .PUBLISH msg =>
    let s := s.deliverMessage msg
    if msg.qos = .QOS0 then (s, [], 0, false)
    else
      let answer := if msg.qos = .QOS1 then Packet.PUBACK msg.id else Packet.PUBREC msg.id
      if sends then (s, [answer], 0, false) else (s, [], -1, true)
  | .PINGRESP => (s, [], 0, false)
  | p => (s, [], p.type, true)

/-- `readPacket`: 0 where nothing arrives in time. -/
def readPacket : Option Packet → ℤ
  | none => 0
  | some p => if p.TooLong then -2 else p.type

/-- What `cycle` does with what arrives. -/
def work (s : Session) (arriving : Option Packet) (sends : Bool) : Session × List Packet × ℤ × Bool :=
  match arriving with
  | none => (s, [], 0, false)
  | some p => if p.TooLong then (s, [], readPacket arriving, true) else s.handle p sends

/-- `cycle` at its `exit`. -/
def exit (s : Session) (answers : List Packet) (rc packet_type : ℤ) : Session × List Packet × ℤ :=
  if rc = 0 then (s, answers, packet_type)
  else if s.isconnected then (s.closeSession, answers, rc) else (s, answers, rc)

/-- `cycle`, with the packet that arrives, if one does, and whether `keepalive` succeeds. -/
def cycle (s : Session) (arriving : Option Packet) (sends alive : Bool) : Session × List Packet × ℤ :=
  let (s, answers, rc, atOnce) := s.work arriving sends
  s.exit answers (if atOnce || alive then rc else -1) (readPacket arriving)

/-- The constructor's client. -/
def new : Session := closeSession ⟨false, true, .replicate 5 none, []⟩

/-- A `connect` that succeeds. -/
def connect (s : Session) : Session := { s with isconnected := true, cleansession := true }

/-- `setMessageHandler` with a handler: the slot of the filter, or else the first free one. -/
def setMessageHandler (s : Session) (topicFilter : List Byte) : Session :=
  let slots := s.messageHandlers.toList
  let i := (slots.findIdx? (· = some topicFilter)).orElse fun _ => slots.findIdx? (· = none)
  i.elim s fun i => { s with messageHandlers := s.messageHandlers.setIfInBounds i (some topicFilter) }

end Session

/-! ### What the client takes -/

/-- `CONTROL_TOPIC`. -/
def control : List Byte := CString.literal "vent/controller/settings"

/-- What `CommHandler::subscribe` asks for. -/
def requestedQoS : QoS := .QOS2

/-- The packet is one that the client was compiled for. -/
def Packet.Handled : Packet → Prop
  | PUBREC _ => False
  | PUBREL _ => False
  | PUBCOMP _ => False
  | _ => True

/-- The packet wants an answer. -/
def Packet.Answered : Packet → Prop
  | PUBLISH msg => msg.qos ≠ .QOS0
  | _ => False

/-- What `cycle` needs of the packet that arrives. -/
def Takes (arriving : Option Packet) (sends : Bool) : Prop :=
  ∀ p, arriving = some p → ¬ p.TooLong ∧ p.Handled ∧ (p.Answered → sends = true)

/-! ### A cycle -/

namespace Session

variable {s : Session} {p : Packet} {sends alive : Bool}

theorem isconnected_closeSession (s : Session) : s.closeSession.isconnected = false := by
  unfold closeSession
  dsimp only
  split <;> rfl

/-- What a packet delivers. -/
def deliver (s : Session) (p : Packet) : Session := p.message.elim s s.deliverMessage

theorem handle_of_keeps (hp : p.Handled) (hsends : p.Answered → sends = true) :
    ∃ answers, s.handle p sends = (s.deliver p, answers, 0, false) := by
  cases p with
  | PUBLISH msg =>
    unfold handle
    dsimp only
    by_cases h0 : msg.qos = .QOS0
    · rw [if_pos h0]
      exact ⟨[], rfl⟩
    · rw [if_neg h0, if_pos (hsends h0)]
      exact ⟨_, rfl⟩
  | PUBREC _ => exact absurd hp id
  | PUBREL _ => exact absurd hp id
  | PUBCOMP _ => exact absurd hp id
  | _ => exact ⟨[], rfl⟩

theorem cycle_of_work {t : Session} {answers : List Packet} {rc : ℤ} {atOnce : Bool} {arriving : Option Packet}
    (h : s.work arriving sends = (t, answers, rc, atOnce)) : s.cycle arriving sends alive =
      t.exit answers (if atOnce || alive then rc else -1) (readPacket arriving) := by
  unfold cycle
  rw [h]

/-- A cycle that goes well delivers the packet's message. -/
theorem cycle_of_takes {arriving : Option Packet} (h : Takes arriving sends) : ∃ answers,
    s.cycle arriving sends true = (arriving.elim s s.deliver, answers, readPacket arriving) := by
  cases arriving with
  | none => exact ⟨[], rfl⟩
  | some p =>
    obtain ⟨hfits, hp, hsends⟩ := h p rfl
    obtain ⟨answers, hhandle⟩ := handle_of_keeps (s := s) hp hsends
    have hwork : s.work (some p) sends = (s.deliver p, answers, 0, false) := by
      rw [work, if_neg hfits, hhandle]
    exact ⟨answers, cycle_of_work hwork⟩

end Session

/-! ### Messages at QoS 0 and 1 -/

/-- A packet that the client takes, and no message at QoS 2. -/
structure Packet.Plain (p : Packet) : Prop where
  fits : ¬ p.TooLong
  handled : p.Handled
  low : ∀ msg, p = PUBLISH msg → msg.qos ≠ .QOS2

namespace Session

theorem answers_exit (t : Session) (answers : List Packet) (rc packet_type : ℤ) :
    (t.exit answers rc packet_type).2.1 = answers := by
  unfold exit
  split_ifs <;> rfl

/-- It is not answered with a PUBREC. -/
theorem answers_handle (s : Session) {p : Packet} (hp : p.Plain) (sends : Bool) :
    ∀ a ∈ (s.handle p sends).2.1, ∀ id, a ≠ .PUBREC id := by
  intro a ha id
  unfold handle at ha
  cases p with
  | PUBLISH msg =>
    dsimp only at ha
    by_cases h0 : msg.qos = .QOS0
    · rw [if_pos h0] at ha
      cases ha
    · have h1 : msg.qos = .QOS1 := by
        have h2 := hp.low msg rfl
        cases hq : msg.qos with
        | QOS0 => exact absurd hq h0
        | QOS1 => rfl
        | QOS2 => exact absurd hq h2
      rw [if_neg h0, if_pos h1] at ha
      cases sends with
      | true =>
        rw [List.mem_singleton.mp ha]
        intro h
        cases h
      | false => cases ha
  | _ => cases ha

theorem answers_cycle (s : Session) {arriving : Option Packet} (h : ∀ p, arriving = some p → p.Plain)
    (sends alive : Bool) : ∀ a ∈ (s.cycle arriving sends alive).2.1, ∀ id, a ≠ .PUBREC id := by
  have hanswers : (s.cycle arriving sends alive).2.1 = (s.work arriving sends).2.1 := by
    unfold cycle
    exact answers_exit _ _ _ _
  rw [hanswers]
  cases arriving with
  | none => exact fun a ha => by cases ha
  | some p =>
    rw [work, if_neg (h p rfl).fits]
    exact answers_handle s (h p rfl) sends

end Session

end Mqtt
end Ventilation
