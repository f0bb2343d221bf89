/-
# Status messages on their way to the table (src/commhandler.cpp, src/FlaskSrv)

`CommHandler::send` makes a packet of a status; who reads the packet finds the topic and the text of the
status in it; and `handle_message` makes the mode and a row of them. So a status that fits into a packet
arrives value by value (`status_arrives_iff`), and so do all of them, in order (`statuses_arrive`).
-/
import Ventilation.Mqtt.Delivery
import Ventilation.Server.Keywords
import Ventilation.Server.Startup

namespace Ventilation
namespace Server

open Python (ascii decode loads getItem)
open Json (Text)
open FloatText (float32)
open Mqtt

/-! ### A packet on the server's side -/

/-- A name that a topic may have: printable, and no wildcard in it. -/
def IsName (topic : List Byte) : Prop := topic ≠ [] ∧ ∀ b ∈ topic, 0x20 < b.toNat ∧ b.toNat < 0x7f ∧ b ≠ 0x2b ∧ b ≠ 0x23

/-- The broker and the server's MQTT library, which are not part of the sources: what the server is told of a packet. A
message at QoS 0 is handed on as it was sent. -/
structure MqttLibrary where
  readMessage : List Byte → Option Mqtt.Message
  readMessage_publication : ∀ (dup retained : Bool) (msg : Mqtt.Message), msg.qos = .QOS0 → msg.id = 0 → IsName msg.topicName →
    msg.topicName.length < 2 ^ 16 → (Packet.PUBLISH msg).rem_len < 2 ^ 28 →
    readMessage (Encoded.publication dup retained msg).bytes = some msg

/-- The packet of a message that the server is told of. -/
def receive (lib : MqttLibrary) (env : Env) (st : State) (packet : List Byte) : State × Exit :=
  (lib.readMessage packet).elim (st, .returned) fun msg => handle_message env st msg.topicName msg.payload

/-- One that reads packets as the client does. -/
def MqttLibrary.documented : MqttLibrary where
  readMessage packet := do
    let ((rc, data), _) ← MQTTDeserialize_publish packet
    if rc = 1 then some data.message else none
  readMessage_publication dup retained msg hqos hid _ htopic hlen := by
    have hsent := Encoded.sent_publication dup retained htopic (by rw [hid]; decide) fun _ => hid
    obtain ⟨data, left, hread, hmsg, -⟩ := Client.publish_of_sent hsent (hsent.length ▸ hlen) []
    rw [List.append_nil] at hread
    rw [Encoded.bytes, Machine.bind_of hread]
    exact congrArg some hmsg

/-- What the client serializes is such a packet. -/
theorem publication_of_serialize {buflen packetid : ℕ} {dup retained : Bool} {qos : QoS} {topicName : CString}
    {payload packet : List Byte} (h : MQTTSerialize_publish buflen dup qos retained packetid topicName payload = some packet) :
    packet = (Encoded.publication dup retained ⟨qos, topicName.chars, payload, packetid⟩).bytes := by
  obtain ⟨hfits, -⟩ := MQTTSerialize_publish_eq_some h
  have hlen : MQTTSerialize_publishLength qos topicName payload.length =
      (lengthDelimited topicName.chars ++ (idBytes qos.level packetid ++ payload)).length := by
    rw [MQTTSerialize_publishLength, List.length_append, List.length_append, length_lengthDelimited, length_idBytes,
      CString.strlen]
    omega
  rw [MQTTSerialize_publish, if_neg (Nat.not_lt.mpr hfits), Option.some.injEq] at h
  rw [← h, Encoded.bytes, packetBytes, Encoded.publication, ← hlen, writeCString_eq]
  simp only [List.append_assoc]
  rfl

/-! ### A status -/

/-- The arguments of `Readings` that a status gives. -/
def readingOf (Double : BitVec 32 → CString) (s : Ventilation.Status) : Reading :=
  ⟨.int s.speed, .int s.pressure, .bool s.aut, .int s.setpoint, .real (Double s.co2).chars, .real (Double s.ah).chars,
    .real (Double s.rh).chars, .real (Double s.temp).chars⟩

/-- The state with the mode of a status, and with its row. -/
def State.shown (st : State) (s : Ventilation.Status) : State := st.setMode (.bool s.aut) (.int s.setpoint)

def State.store (st : State) (row : Row) : State := { st with readings := st.readings ++ [row] }

variable {lib : MqttLibrary} {Double : BitVec 32 → CString} {s : Ventilation.Status} {env : Env} {st : State}

theorem getItem_statusValues {m : Text × Json} (hm : m ∈ statusValues Double s) :
    getItem m.1 (.obj (statusValues Double s)) = some m.2 := by
  have hnodup : ((statusValues Double s).map Prod.fst).Nodup := (by decide : statusKeys.Nodup)
  exact Python.getItem_of_mem hnodup hm

theorem of_statusValues (Double : BitVec 32 → CString) (s : Ventilation.Status) :
    Reading.of (.obj (statusValues Double s)) = some (readingOf Double s) := by
  have hget : ∀ m ∈ statusValues Double s, getItem m.1 (.obj (statusValues Double s)) = some m.2 :=
    fun m hm => getItem_statusValues hm
  simp only [statusValues, List.forall_mem_cons] at hget
  obtain ⟨hspeed, hsetpoint, hpressure, hauto, -, hco2, hah, hrh, htemp, -⟩ := hget
  rw [statusValues, Reading.of, Machine.bind_of hspeed, Machine.bind_of hpressure, Machine.bind_of hauto,
    Machine.bind_of hsetpoint, Machine.bind_of hco2, Machine.bind_of hah, Machine.bind_of hrh, Machine.bind_of htemp]
  rfl

section Arrives

variable (hDouble : WritesDoubles Double) (hfinite : ∀ bits ∈ s.readings, (float32 bits).isSome)
include hDouble hfinite

theorem loads_status (hlimits : env.py.limits (s.jsonString Double).chars = false) :
    decode (s.jsonString Double).bytes = some (s.jsonString Double).bytes ∧
    loads env.py (dropNUL (s.jsonString Double).bytes) = .value (.obj (statusValues Double s)) := by
  obtain ⟨text, hdecode, hread⟩ := Option.bind_eq_some_iff.mp (decodedStatus_eq hDouble hfinite)
  obtain rfl := Python.decode_eq_some hdecode
  refine ⟨hdecode, ?_⟩
  rw [dropNUL_bytes] at hread ⊢
  rw [loads, hlimits, hread]
  rfl

/-- **What the server does with the text of a status.** -/
theorem handle_status (hlimits : env.py.limits (s.jsonString Double).chars = false) :
    handle_message env st statusTopic (s.jsonString Double).bytes =
      (env.commit (readingOf Double s)).elim (st.shown s, .raised) fun row => ((st.shown s).store row, .returned) := by
  obtain ⟨hdecode, hloads⟩ := loads_status hDouble hfinite hlimits
  have hauto : getItem (ascii "auto") (.obj (statusValues Double s)) = some (.bool s.aut) :=
    @getItem_statusValues Double s (ascii "auto", .bool s.aut) (by simp [statusValues])
  have hsetpoint : getItem (ascii "setpoint") (.obj (statusValues Double s)) = some (.int s.setpoint) :=
    @getItem_statusValues Double s (ascii "setpoint", .int s.setpoint) (by simp [statusValues])
  have herror : getItem (ascii "error") (.obj (statusValues Double s)) = some (.bool s.error) :=
    @getItem_statusValues Double s (ascii "error", .bool s.error) (by simp [statusValues])
  have hminus : Python.eqMinusOne (.obj (statusValues Double s)) = false := rfl
  unfold handle_message
  simp only [hdecode, decodeStringToJSON, hloads, hminus, Bool.false_eq_true, if_false, List.prefix_rfl, if_true, hauto,
    hsetpoint, push_reading, of_statusValues, Option.bind_some, herror]
  cases env.commit (readingOf Double s) <;> rfl

end Arrives

/-! ### From the device to the table -/

/-- A status that `send` is called with: it has its effect at the server if there is room for it in a packet. -/
def deliver (lib : MqttLibrary) (Double : BitVec 32 → CString) (env : Env) (st : State) (s : Ventilation.Status) : State × Exit :=
  (CommHandler.send Double s).elim (st, .returned) (receive lib env st)

theorem readMessage_send (lib : MqttLibrary) {packet : List Byte} (h : CommHandler.send Double s = some packet) :
    lib.readMessage packet = some ⟨.QOS0, statusTopic, (s.jsonString Double).bytes, 0⟩ := by
  have hname : IsName statusTopic := by
    unfold IsName
    decide +kernel
  have hbytes : packet = (Encoded.publication false false ⟨.QOS0, statusTopic, (s.jsonString Double).bytes, 0⟩).bytes :=
    publication_of_serialize h
  have hfits : MQTTPacket_len (MQTTSerialize_publishLength .QOS0 (CommHandler.topicName .DATA_TOPIC)
      (s.jsonString Double).bytes.length) ≤ MAX_MQTT_PACKET_SIZE := (MQTTSerialize_publish_eq_some h).1
  have hlen : (Packet.PUBLISH ⟨.QOS0, statusTopic, (s.jsonString Double).bytes, 0⟩).rem_len < 2 ^ 28 :=
    (lt_MQTTPacket_len _).trans_le (hfits.trans (by decide))
  rw [hbytes]
  exact lib.readMessage_publication false false _ rfl rfl hname (by decide +kernel : statusTopic.length < 2 ^ 16) hlen

theorem exists_send_iff (Double : BitVec 32 → CString) (s : Ventilation.Status) :
    (∃ packet, CommHandler.send Double s = some packet) ↔ valuesLength Double s ≤ 94 := by
  rw [← packetLen_le_iff, ← sendable_iff_len]
  constructor
  · rintro ⟨packet, h⟩
    exact ⟨packet, h, length_MQTTSerialize_publish h (by decide)⟩
  · rintro ⟨packet, h, -⟩
    exact ⟨packet, h⟩

/-- What becomes of a status. -/
theorem deliver_eq (hDouble : WritesDoubles Double) (hfinite : ∀ bits ∈ s.readings, (float32 bits).isSome)
    (hlimits : env.py.limits (s.jsonString Double).chars = false) : deliver lib Double env st s =
      if valuesLength Double s ≤ 94 then
        (env.commit (readingOf Double s)).elim (st.shown s, .raised) fun row => ((st.shown s).store row, .returned)
      else (st, .returned) := by
  rw [deliver]
  cases hsend : CommHandler.send Double s with
  | none =>
    have hlong : ¬ valuesLength Double s ≤ 94 := by
      rw [← exists_send_iff, hsend]
      exact fun ⟨_, h⟩ => nomatch h
    rw [if_neg hlong]
    rfl
  | some packet =>
    rw [if_pos ((exists_send_iff Double s).mp ⟨packet, hsend⟩), Option.elim_some, receive, readMessage_send lib hsend,
      Option.elim_some]
    exact handle_status hDouble hfinite hlimits

/-- **When a status arrives**: exactly if its values have 94 characters at most and the database takes them. Then it is the
new row, and the mode. -/
theorem status_arrives_iff (hDouble : WritesDoubles Double) (hfinite : ∀ bits ∈ s.readings, (float32 bits).isSome)
    (hlimits : env.py.limits (s.jsonString Double).chars = false) (st : State) (row : Row) :
    (∃ packet, CommHandler.send Double s = some packet ∧
      receive lib env st packet = ((st.shown s).store row, .returned)) ↔
    valuesLength Double s ≤ 94 ∧ env.commit (readingOf Double s) = some row := by
  have hdeliver : deliver lib Double env st s = _ := deliver_eq hDouble hfinite hlimits
  constructor
  · rintro ⟨packet, hsend, hreceive⟩
    have hshort := (exists_send_iff Double s).mp ⟨packet, hsend⟩
    rw [if_pos hshort, deliver, hsend, Option.elim_some, hreceive] at hdeliver
    refine ⟨hshort, ?_⟩
    cases hcommit : env.commit (readingOf Double s) with
    | none =>
      rw [hcommit] at hdeliver
      cases congrArg Prod.snd hdeliver
    | some row' =>
      rw [hcommit] at hdeliver
      have hrows := congrArg (fun r : State × Exit => r.1.readings) hdeliver
      exact congrArg some (List.singleton_injective (List.append_cancel_left hrows)).symm
  · rintro ⟨hshort, hcommit⟩
    obtain ⟨packet, hsend⟩ := (exists_send_iff Double s).mpr hshort
    refine ⟨packet, hsend, ?_⟩
    rw [deliver, hsend, Option.elim_some, if_pos hshort, hcommit] at hdeliver
    exact hdeliver

/-- The row of an ordinary status. -/
def warmRow : Row := ⟨1, some 20, some 20, some true, some 5, some 20, some 20, some 20, some 20, some 0⟩

theorem limits_warm (error : Bool) :
    Served.keepingEnv.py.limits ((warmStatus error).jsonString (writtenAs warm warmText)).chars = false := rfl

theorem commit_warm (error : Bool) :
    Served.keepingEnv.commit (readingOf (writtenAs warm warmText) (warmStatus error)) = some warmRow := by
  have hmeasured : (Python.ratOf warmText.chars).map (fun x => (x + 1 / 2).floor) = some 20 := by decide +kernel
  have hcommit : Served.keepingEnv.commit (readingOf (writtenAs warm warmText) (warmStatus error)) =
      some ⟨1, some 20, some 20, some true, some 5, (Python.ratOf warmText.chars).map fun x => (x + 1 / 2).floor,
        (Python.ratOf warmText.chars).map fun x => (x + 1 / 2).floor, (Python.ratOf warmText.chars).map fun x => (x + 1 / 2).floor,
        (Python.ratOf warmText.chars).map fun x => (x + 1 / 2).floor, some 0⟩ := rfl
  rw [hcommit, hmeasured]
  rfl

theorem status_arrives_iff_warm : ∃ packet, CommHandler.send (writtenAs warm warmText) (warmStatus false) = some packet ∧
    receive .documented Served.keepingEnv State.new packet =
      (⟨[warmRow], [], ⟨.bool true, .int 20⟩, true⟩, .returned) :=
  (status_arrives_iff writesDoubles_warm (feasible_warmStatus false).finite (limits_warm false) State.new
    warmRow).mpr ⟨by decide +kernel, commit_warm false⟩

/-- A status, the server's surroundings when its packet comes, and the row that the database makes of it. -/
structure Sending (Double : BitVec 32 → CString) where
  status : Ventilation.Status
  env : Env
  row : Row
  finite : ∀ bits ∈ status.readings, (float32 bits).isSome
  limits : env.py.limits (status.jsonString Double).chars = false
  commit : env.commit (readingOf Double status) = some row

/-- There is room for it. -/
def Sending.Fits (x : Sending Double) : Prop := valuesLength Double x.status ≤ 94

instance (x : Sending Double) : Decidable x.Fits := inferInstanceAs (Decidable (_ ≤ _))

/-- **All of them arrive, in order**, but for those that there is no room for. -/
theorem statuses_arrive (hDouble : WritesDoubles Double) : ∀ (xs : List (Sending Double)) (st : State),
    xs.foldl (fun st x => (deliver lib Double x.env st x.status).1) st =
      (xs.filter fun x => x.Fits).foldl (fun st x => (st.shown x.status).store x.row) st
  | [], _ => rfl
  | x :: xs, st => by
    have ih := statuses_arrive hDouble xs
    rw [List.foldl_cons, ih, deliver_eq hDouble x.finite x.limits, x.commit]
    by_cases hx : valuesLength Double x.status ≤ 94
    · have hfits : decide x.Fits = true := decide_eq_true hx
      rw [List.filter_cons, if_pos hfits, List.foldl_cons, if_pos hx]
      rfl
    · have hlong : ¬ decide x.Fits = true := fun h => hx (of_decide_eq_true h)
      rw [List.filter_cons, if_neg hlong, if_neg hx]

/-- An ordinary status with another set point. -/
def sendingWarm (setpoint : ℤ) : Sending (writtenAs warm warmText) where
  status := { warmStatus true with setpoint }
  env := Served.keepingEnv
  row := { warmRow with setpoint := some setpoint }
  finite := (feasible_warmStatus true).finite
  limits := rfl
  commit := by
    have hrow := commit_warm true
    simp only [Served.keepingEnv, readingOf, Option.some.injEq] at hrow ⊢
    rw [← hrow]

/-- One that there is no room for. -/
def sendingCold : Sending (writtenAs warm warmText) where
  status := coldStatus
  env := Served.keepingEnv
  row := _
  finite := cold_status_dropped.1.finite
  limits := rfl
  commit := rfl

/-- The one in the middle does not arrive, and the others do. -/
theorem statuses_arrive_warm :
    let st := [sendingWarm 20, sendingCold, sendingWarm 35].foldl
      (fun st x => (deliver .documented (writtenAs warm warmText) x.env st x.status).1) State.new
    st.readings = [warmRow, { warmRow with setpoint := some 35 }] ∧ st.ventrilatorStatus = ⟨.bool true, .int 35⟩ := by
  have hwarm : (sendingWarm 20).Fits ∧ (sendingWarm 35).Fits := by decide +kernel
  have hcold : ¬ sendingCold.Fits := by decide +kernel
  have hfilter : [sendingWarm 20, sendingCold, sendingWarm 35].filter (fun x => x.Fits) = [sendingWarm 20, sendingWarm 35] := by
    simp [hwarm, hcold]
  intro st
  have hst : st = [sendingWarm 20, sendingWarm 35].foldl (fun st x => (st.shown x.status).store x.row) State.new := by
    rw [← hfilter]
    exact statuses_arrive writesDoubles_warm _ _
  rw [hst]
  exact ⟨rfl, rfl⟩

end Server
end Ventilation
