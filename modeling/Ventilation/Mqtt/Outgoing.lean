/-
# What goes out on the connection (MQTTClient.h, src/IPStack.cpp)

`sendPacket` calls `write` until all of a packet is sent; `write` hands over all that it is given or nothing, as `tcp_write`
does. So the bytes on the connection are whole packets, whatever lwIP answers (`sendPacket_spec`), and who reads them gets
packet after packet what the client has sent, and some that it takes for not sent
(`outgoing_read`).
-/
import Ventilation.Mqtt.Connect
import Ventilation.Mqtt.Refinement

namespace Ventilation
namespace Mqtt

open Wire

/-! ### Sending -/

/-- What a turn of `sendPacket` meets: whether `tcp_write` takes the bytes, whether `tcp_output` succeeds, and whether the
timer has expired behind it. -/
structure Attempt where
  taken : Bool
  output : Bool
  expired : Bool

/-- `IPStack::write`, with the bytes that the connection has taken so far. -/
def write (stream buffer : List Byte) (a : Attempt) : List Byte × ℤ :=
  let rv : ℤ := buffer.length
  let (stream, rv) := if a.taken then (stream ++ buffer, rv) else (stream, -1)
  (stream, if a.output then rv else -2)

/-- The loop of `sendPacket`; `none` where it goes on behind the last attempt. -/
def sendLoop (sendbuf : List Byte) : (sent : ℕ) → (stream : List Byte) → List Attempt → Option (List Byte × ℕ)
  | sent, stream, attempts =>
    if sent < sendbuf.length then
      match attempts with
      | [] => none
      | a :: attempts =>
        let (stream, rc) := write stream (sendbuf.drop sent) a
        if rc < 0 then some (stream, sent)
        else if a.expired then some (stream, sent + rc.toNat)
        else sendLoop sendbuf (sent + rc.toNat) stream attempts
    else some (stream, sent)

/-- `sendPacket`, and whether it succeeds. -/
def sendPacket (sendbuf stream : List Byte) (attempts : List Attempt) : Option (List Byte × Bool) :=
  (sendLoop sendbuf 0 stream attempts).map fun p => (p.1, decide (p.2 = sendbuf.length))

/-- One attempt is enough, and decides. -/
theorem sendPacket_spec {sendbuf : List Byte} (hne : sendbuf ≠ []) (stream : List Byte) (a : Attempt) (attempts : List Attempt) :
    sendPacket sendbuf stream (a :: attempts) =
      some (if a.taken then stream ++ sendbuf else stream, a.taken && a.output) := by
  have hpos := List.length_pos_iff.mpr hne
  obtain ⟨taken, output, expired⟩ := a
  have hloop : sendLoop sendbuf 0 stream (⟨taken, output, expired⟩ :: attempts) =
      some (if taken then stream ++ sendbuf else stream, if taken && output then sendbuf.length else 0) := by
    rw [sendLoop, if_pos hpos, List.drop_zero]
    cases taken <;> cases output
    · rfl
    · rfl
    · rfl
    · dsimp only [write]
      rw [if_pos rfl, if_pos rfl, if_neg (by simp), Int.toNat_natCast, Nat.zero_add, sendLoop.eq_def]
      dsimp only
      rw [if_neg (Nat.lt_irrefl _)]
      split <;> rfl
  rw [sendPacket, hloop]
  cases taken <;> cases output <;> simp [hpos.ne]

/-! ### The packets -/

def PINGREQ : ℕ := 12

def MQTTSerialize_pingreq (buflen : ℕ) : Option (List Byte) :=
  if buflen < 2 then none else some (MQTTHeader PINGREQ false .QOS0 false :: MQTTPacket_encode 0)

/-- What the client sends. -/
inductive Request
  | CONNECT (options : MQTTPacket_connectData MQTTString)
  | SUBSCRIBE (packetid : ℕ) (topicFilter : CString) (qos : QoS)
  | UNSUBSCRIBE (packetid : ℕ) (topicFilter : CString)
  | PUBLISH (topicName : CString) (payload : List Byte)
  | PUBACK (packetid : ℕ)
  | PUBREC (packetid : ℕ)
  | PINGREQ

namespace Request

/-- In `sendbuf`. -/
def serialize : Request → Option (List Byte)
  | CONNECT options => MQTTSerialize_connect MAX_MQTT_PACKET_SIZE options
  | SUBSCRIBE packetid topicFilter qos =>
    MQTTSerialize_subscribe MAX_MQTT_PACKET_SIZE false packetid [(.cstring topicFilter, qos.level)]
  | UNSUBSCRIBE packetid topicFilter => MQTTSerialize_unsubscribe MAX_MQTT_PACKET_SIZE false packetid [.cstring topicFilter]
  | PUBLISH topicName payload => MQTTSerialize_publish MAX_MQTT_PACKET_SIZE false .QOS0 false 0 topicName payload
  | PUBACK packetid => MQTTSerialize_ack MAX_MQTT_PACKET_SIZE 4 false packetid
  | PUBREC packetid => MQTTSerialize_ack MAX_MQTT_PACKET_SIZE 5 false packetid
  | PINGREQ => MQTTSerialize_pingreq MAX_MQTT_PACKET_SIZE

/-- The version is one that `MQTTSerialize_connect` knows. -/
def Versioned : Request → Prop
  | CONNECT options => options.MQTTVersion = 3 ∨ options.MQTTVersion = 4
  | _ => True

def type : Request → ℕ
  | CONNECT _ => Mqtt.CONNECT
  | SUBSCRIBE _ _ _ => Mqtt.SUBSCRIBE
  | UNSUBSCRIBE _ _ => Mqtt.UNSUBSCRIBE
  | PUBLISH _ _ => 3
  | PUBACK _ => 4
  | PUBREC _ => 5
  | PINGREQ => Mqtt.PINGREQ

end Request

/-- A packet that says how long it is and has room in `readbuf`. -/
def Whole (type : ℕ) (packet : List Byte) : Prop :=
  ∃ byte body, packet = packetBytes byte body ∧ MQTTHeader.type byte = type ∧ FitsReadbuf body

theorem whole_of_len {t n : ℕ} {dup retained : Bool} {qos : QoS} {body : List Byte} (ht : t < 16) (hlen : body.length = n)
    (hfits : ¬ MAX_MQTT_PACKET_SIZE < MQTTPacket_len n) :
    Whole t (MQTTHeader t dup qos retained :: (MQTTPacket_encode n ++ body)) := by
  refine ⟨_, body, by rw [packetBytes, hlen], type_MQTTHeader ht dup qos retained, ?_⟩
  have hn : n < 2 ^ 28 := (lt_MQTTPacket_len n).trans_le ((Nat.le_of_not_lt hfits).trans (by decide))
  have hle := length_le_MQTTPacket_len hn
  rw [FitsReadbuf, hlen]
  omega

theorem whole_ack {t packetid : ℕ} {packet : List Byte} (ht : t < 16)
    (h : MQTTSerialize_ack MAX_MQTT_PACKET_SIZE t false packetid = some packet) : Whole t packet := by
  obtain rfl := Option.some.inj h
  exact ⟨_, writeInt packetid, rfl, type_MQTTHeader ht false _ false,
    (by decide : 2 + (1 + encodedLength 2) ≤ MAX_MQTT_PACKET_SIZE)⟩

/-- **What is serialized is a whole packet.** -/
theorem whole_serialize {r : Request} (hr : r.Versioned) {packet : List Byte} (h : r.serialize = some packet) :
    Whole r.type packet := by
  cases r with
  | CONNECT options =>
    simp only [Request.serialize, MQTTSerialize_connect, Option.ite_none_left_eq_some, Option.some.injEq] at h
    obtain ⟨hfits, rfl⟩ := h
    refine whole_of_len (by decide : CONNECT < 16) ?_ hfits
    rw [length_connect, if_pos (show options.MQTTVersion = 3 ∨ options.MQTTVersion = 4 from hr), Nat.add_zero]
  | SUBSCRIBE packetid topicFilter qos =>
    simp only [Request.serialize, MQTTSerialize_subscribe, Option.ite_none_left_eq_some, Option.some.injEq] at h
    obtain ⟨hfits, rfl⟩ := h
    exact whole_of_len (by decide : SUBSCRIBE < 16) (length_subscribeBody packetid _) hfits
  | UNSUBSCRIBE packetid topicFilter =>
    simp only [Request.serialize, MQTTSerialize_unsubscribe, Option.ite_none_left_eq_some, Option.some.injEq] at h
    obtain ⟨hfits, rfl⟩ := h
    exact whole_of_len (by decide : UNSUBSCRIBE < 16) (length_unsubscribeBody packetid _) hfits
  | PUBLISH topicName payload =>
    simp only [Request.serialize, MQTTSerialize_publish, Option.ite_none_left_eq_some, Option.some.injEq] at h
    obtain ⟨hfits, rfl⟩ := h
    rw [List.append_assoc, List.append_assoc]
    refine whole_of_len (by decide : 3 < 16) ?_ hfits
    rw [List.length_append, List.length_append, writeCString_eq, length_lengthDelimited]
    show topicName.strlen + 2 + (0 + payload.length) = 2 + topicName.strlen + payload.length + 0
    omega
  | PUBACK packetid => exact whole_ack (by decide : 4 < 16) h
  | PUBREC packetid => exact whole_ack (by decide : 5 < 16) h
  | PINGREQ =>
    obtain rfl := Option.some.inj h
    exact ⟨_, [], by rw [packetBytes, List.append_nil]; rfl,
      type_MQTTHeader (by decide : PINGREQ < 16) false .QOS0 false, by decide⟩

/-! ### The connection -/

/-- A packet of the client that is sent, and what `sendPacket` meets. -/
structure Sending where
  request : Request
  packet : List Byte
  first : Attempt
  later : List Attempt
  versioned : request.Versioned
  serialized : request.serialize = some packet

namespace Sending

variable (x : Sending)

def attempts : List Attempt := x.first :: x.later

/-- It goes out. -/
def taken : Bool := x.first.taken

/-- `sendPacket` succeeds. -/
def succeeds : Bool := x.first.taken && x.first.output

end Sending

/-- One packet after the other: the connection, and what `sendPacket` says of each. -/
def sendPackets : List Sending → List Byte → Option (List Byte × List Bool)
  | [], stream => some (stream, [])
  | x :: xs, stream => do
    let (stream, ok) ← sendPacket x.packet stream x.attempts
    let (stream, oks) ← sendPackets xs stream
    return (stream, ok :: oks)

/-- Who reads as `readPacket` does, `n` times. -/
def readPackets : ℕ → Readbuf → Reading Byte (List (ℤ × Readbuf))
  | 0, _ => return []
  | n + 1, readbuf => do
    let (packet_type, readbuf) ← readPacket readbuf
    let later ← readPackets n readbuf
    return (packet_type, readbuf) :: later

theorem sendPackets_spec : ∀ (xs : List Sending) (stream : List Byte),
    sendPackets xs stream = some (stream ++ (xs.filter Sending.taken).flatMap Sending.packet, xs.map Sending.succeeds)
  | [], stream => by
    rw [sendPackets, List.filter_nil, List.flatMap_nil, List.append_nil, List.map_nil]
  | x :: xs, stream => by
    obtain ⟨byte, body, hpacket, -⟩ := whole_serialize x.versioned x.serialized
    have hne : x.packet ≠ [] := hpacket ▸ List.cons_ne_nil _ _
    have hsend : sendPacket x.packet stream x.attempts = some (if x.taken then stream ++ x.packet else stream, x.succeeds) :=
      sendPacket_spec hne stream x.first x.later
    rw [sendPackets, Machine.bind_of hsend]
    dsimp only
    rw [Machine.bind_of (sendPackets_spec xs _), List.filter_cons, List.map_cons]
    cases x.taken with
    | false => rfl
    | true =>
      simp only [if_true, List.flatMap_cons, List.append_assoc]
      rfl

/-- What is read of a packet: its type, and its bytes in the buffer. -/
def ReadAs (x : Sending) (r : ℤ × Readbuf) : Prop := r.1 = x.request.type ∧ x.packet <+: r.2.toList

/-- Packets on a connection are read one by one. -/
theorem consumes_readPackets (rest : List Byte) : ∀ (xs : List Sending) (readbuf : Readbuf), ∃ reads,
    Consumes ((readPackets xs.length readbuf).run Reader.take) rest (xs.flatMap Sending.packet) reads ∧
    List.Forall₂ ReadAs xs reads
  | [], readbuf => ⟨[], consumes_pure _ rest, .nil⟩
  | x :: xs, readbuf => by
    obtain ⟨byte, body, hpacket, htype, hfits⟩ := whole_serialize x.versioned x.serialized
    obtain ⟨readbuf', hread, hstore⟩ := consumes_readPacket readbuf byte hfits (xs.flatMap Sending.packet ++ rest)
    obtain ⟨reads, hreads, hall⟩ := consumes_readPackets rest xs readbuf'
    refine ⟨(MQTTHeader.type byte, readbuf') :: reads, ?_, .cons ⟨congrArg Nat.cast htype, ?_⟩ hall⟩
    · rw [List.flatMap_cons, hpacket, List.length_cons, readPackets]
      refine hread.run_bind ?_
      rw [Reading.run_bind]
      exact hreads.bind_last (consumes_pure _ rest)
    · rw [hpacket, (Buffer.toList_store hstore).2]
      exact List.prefix_append _ _

/-- **What goes out can be read, packet by packet**, over any network: the packets that `sendPacket` succeeds with are
among them, and none comes in part, whatever lwIP answers. -/
theorem outgoing_read (xs : List Sending) : ∃ stream, sendPackets xs [] = some (stream, xs.map Sending.succeeds) ∧
    (∀ x ∈ xs, x.succeeds = true → x ∈ xs.filter Sending.taken) ∧
    ∀ {σ : Type} {get : ℕ → StateT σ Option (List Byte)} {H : σ → List Byte → Prop}, Supplied get H →
      ∀ (s : σ) (rest : List Byte) (readbuf : Readbuf), H s (stream ++ rest) → ∃ reads s',
        (readPackets (xs.filter Sending.taken).length readbuf).run get s = some (reads, s') ∧ H s' rest ∧
        List.Forall₂ ReadAs (xs.filter Sending.taken) reads := by
  refine ⟨_, sendPackets_spec xs [], fun x hx hs => ?_, fun hget s rest readbuf hs => ?_⟩
  · exact List.mem_filter.mpr ⟨hx, Bool.and_elim_left hs⟩
  · obtain ⟨reads, hreads, hall⟩ := consumes_readPackets rest (xs.filter Sending.taken) readbuf
    rw [List.nil_append] at hs
    obtain ⟨s', hrun, hs'⟩ := hget.run _ hs hreads
    exact ⟨reads, s', hrun, hs', hall⟩

theorem serialize_pingreq : Request.PINGREQ.serialize = some [0xC0, 0] := by
  rw [Request.serialize, MQTTSerialize_pingreq, if_neg (by decide), MQTTPacket_encode_of_lt (by decide)]
  decide

/-- A PINGREQ that the connection takes. -/
def sendingPing : Sending := ⟨.PINGREQ, [0xC0, 0], ⟨true, true, false⟩, [], trivial, serialize_pingreq⟩

theorem serialize_puback (id : ℕ) : (Request.PUBACK id).serialize = some (0x40 :: 2 :: writeInt id) := by
  rw [Request.serialize, MQTTSerialize_ack, if_neg (by decide), MQTTPacket_encode_of_lt (by decide)]
  rfl

/-- A PUBACK that it does not take, and one that it takes but that `tcp_output` fails on. -/
def sendingAcks : List Sending :=
  [⟨.PUBACK 1, 0x40 :: 2 :: writeInt 1, ⟨false, true, false⟩, [], trivial, serialize_puback 1⟩,
    ⟨.PUBACK 2, 0x40 :: 2 :: writeInt 2, ⟨true, false, false⟩, [], trivial, serialize_puback 2⟩]

/-- Who reads gets the second PUBACK, which the client takes for not sent, and the PINGREQ. -/
theorem outgoing_read_acks : ∃ stream reads, sendPackets (sendingAcks ++ [sendingPing]) [] = some (stream, [false, false, true]) ∧
    (readPackets 2 Client.blank.readbuf).run lineRead (stream.map some) = some (reads, []) ∧
    List.Forall₂ ReadAs [sendingAcks.getD 1 sendingPing, sendingPing] reads := by
  obtain ⟨stream, hsend, -, hread⟩ := outgoing_read (sendingAcks ++ [sendingPing])
  have htaken : (sendingAcks ++ [sendingPing]).filter Sending.taken = [sendingAcks.getD 1 sendingPing, sendingPing] := rfl
  rw [htaken] at hread
  obtain ⟨reads, s', hrun, hs', hall⟩ := hread (supplied_lineRead []) _ [] Client.blank.readbuf rfl
  rw [List.append_nil, List.append_nil] at hrun
  rw [List.map_nil, List.append_nil] at hs'
  exact ⟨stream, reads, hsend, hs' ▸ hrun, hall⟩

end Mqtt
end Ventilation
