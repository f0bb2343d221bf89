/-
# PUBLISH packets and acknowledgements (MQTTSerializePublish.c, MQTTDeserializePublish.c)

What `MQTTSerialize_publish` builds, `MQTTDeserialize_publish` reads back, whatever stands
behind it in the buffer (`deserialize_of_serialize`). Where the topic does not fit into the packet
it is left without data, and the number of length bytes is returned, which is 1, success, below
128 (`publish_accepted_iff`).
-/
import Ventilation.Mqtt.Packet

namespace Ventilation
namespace Mqtt

open Wire

/-! ### The code -/

/-- `curdata += (rc = MQTTPacket_decodeBuf(curdata, &mylen))`. -/
def skipLength : Reader Byte (ℕ × ℕ) := do
  let (rc, mylen) ← MQTTPacket_decodeBuf (← get)
  let _ ← Reader.take rc
  return (rc, mylen)

/-- `curdata + mylen`, by its distance from the end of the buffer. -/
def position (mylen : ℕ) : Reader Byte ℤ := do return (← get).length - mylen

/-- What `MQTTDeserialize_publish` sets; the payload is the memory from its first byte on. -/
structure PublishData where
  dup : Bool
  qos : ℕ
  retained : Bool
  packetid : Option ℕ
  topicName : MQTTLenString
  payload : Option (List Byte)
  payloadlen : ℤ
  deriving DecidableEq

/-- As the caller has initialized it. -/
def PublishData.initial : PublishData := ⟨false, 0, false, none, ⟨0, none⟩, none, 0⟩

def PUBLISH : ℕ := 3

def readPacketid (qos : ℕ) : Reader Byte (Option ℕ) :=
  if qos > 0 then do return some (← readInt) else return none

/-- With the flags of the header. -/
def PublishData.ofHeader (byte : Byte) : PublishData :=
  { PublishData.initial with dup := MQTTHeader.dup byte, qos := MQTTHeader.qos byte, retained := MQTTHeader.retain byte }

/-- Behind the topic. -/
def readPayload (data : PublishData) (enddata : ℤ) : Reader Byte (ℕ × PublishData) := do
  let packetid ← readPacketid data.qos
  let payloadlen ← Reader.ahead enddata
  return (1, { data with packetid, payload := some (← get), payloadlen })

/-- Behind the remaining length; `rc` still counts its bytes. -/
def readTopic (data : PublishData) (rc : ℕ) (enddata : ℤ) : Reader Byte (ℕ × PublishData) := do
  let (topicName, read) ← readMQTTLenString enddata
  if read then readPayload { data with topicName } enddata else return (rc, { data with topicName })

/-- With the value that is returned. -/
def MQTTDeserialize_publish : Reader Byte (ℕ × PublishData) := do
  let byte ← readChar
  if MQTTHeader.type byte = PUBLISH then
    let (rc, mylen) ← skipLength
    readTopic (.ofHeader byte) rc (← position mylen)
  else return (0, .initial)

/-- `none` is `MQTTPACKET_BUFFER_TOO_SHORT`. -/
def MQTTSerialize_ack (buflen packettype : ℕ) (dup : Bool) (packetid : ℕ) : Option (List Byte) :=
  if buflen < 4 then none
  else some (MQTTHeader packettype dup (if packettype = 6 then .QOS1 else .QOS0) false ::
    (MQTTPacket_encode 2 ++ writeInt packetid))

/-- The value returned, the type, `dup`, and the packet identifier if it is read. -/
def MQTTDeserialize_ack : Reader Byte (ℕ × ℕ × Bool × Option ℕ) := do
  let byte ← readChar
  let (rc, mylen) ← skipLength
  let enddata ← position mylen
  if (← Reader.ahead enddata) < 2 then return (rc, MQTTHeader.type byte, MQTTHeader.dup byte, none)
  let packetid ← readInt
  return (1, MQTTHeader.type byte, MQTTHeader.dup byte, some packetid)

/-! ### Reading a PUBLISH -/

theorem consumes_skipLength {n : ℕ} (hn : n < 2 ^ 28) (rest : List Byte) :
    Consumes skipLength rest (MQTTPacket_encode n) (encodedLength n, n) := by
  have hskip := consumes_take (MQTTPacket_encode n) rest
  rw [length_MQTTPacket_encode hn] at hskip
  refine (consumes_get _).bind_nil ?_
  refine (consumes_lift (MQTTPacket_decodeBuf_encode hn rest) _).bind_nil ?_
  exact hskip.bind_last (consumes_pure _ rest)

theorem consumes_position (mylen : ℕ) (rest : List Byte) : Consumes (position mylen) rest [] (rest.length - mylen) := rfl

/-- The length that a body gives for its topic. -/
def topicLength : List Byte → ℕ
  | a :: b :: _ => 256 * a.toNat + b.toNat
  | _ => 0

/-- The topic ends in the packet's body. -/
def TopicFits (body : List Byte) : Prop := 2 + topicLength body ≤ body.length

instance (body : List Byte) : Decidable (TopicFits body) := inferInstanceAs (Decidable (_ ≤ _))

theorem writeInt_toNat (a b : Byte) : writeInt (256 * a.toNat + b.toNat) = [a, b] := by
  have ha := a.isLt
  have hb := b.isLt
  have hhigh : (256 * a.toNat + b.toNat) / 256 = a.toNat := by omega
  have hlow : (256 * a.toNat + b.toNat) % 256 = b.toNat := by omega
  rw [writeInt, hhigh, hlow, BitVec.ofNat_toNat, BitVec.ofNat_toNat, BitVec.setWidth_eq, BitVec.setWidth_eq]

theorem topicLength_lt (body : List Byte) : topicLength body < 2 ^ 16 := by
  match body with
  | [] => exact Nat.two_pow_pos 16
  | [_] => exact Nat.two_pow_pos 16
  | a :: b :: _ =>
    have ha := a.isLt
    have hb := b.isLt
    rw [topicLength]
    omega

theorem topicFits_iff (body : List Byte) : TopicFits body ↔
    ∃ topic tail, topic.length = topicLength body ∧ body = lengthDelimited topic ++ tail := by
  constructor
  · intro h
    match body, h with
    | [], h => exact absurd h (by decide)
    | [_], h => exact absurd h (by simp [TopicFits, topicLength])
    | a :: b :: tail, h =>
      have hle : 256 * a.toNat + b.toNat ≤ tail.length := by
        rw [TopicFits, topicLength, List.length_cons, List.length_cons] at h
        omega
      have hlen : (tail.take (256 * a.toNat + b.toNat)).length = 256 * a.toNat + b.toNat := by
        rw [List.length_take, Nat.min_eq_left hle]
      refine ⟨tail.take (256 * a.toNat + b.toNat), tail.drop (256 * a.toNat + b.toNat), hlen, ?_⟩
      rw [lengthDelimited, hlen, writeInt_toNat, List.append_assoc, List.take_append_drop]
      rfl
  · rintro ⟨topic, tail, hlen, hbody⟩
    rw [TopicFits, ← hlen, hbody, List.length_append, length_lengthDelimited]
    omega

/-- **A topic that does not fit is left without data**, though not without a length where there are two bytes. -/
theorem readMQTTLenString_of_not_fits {body : List Byte} (rest : List Byte) (h : ¬ TopicFits body) :
    ∃ left, readMQTTLenString rest.length (body ++ rest) = some ((⟨topicLength body, none⟩, false), left) := by
  have hahead : ((body ++ rest).length : ℤ) - rest.length = body.length := by
    rw [List.length_append]
    push_cast
    omega
  by_cases hlen : body.length < 2
  · have hzero : topicLength body = 0 := by
      rcases body with _ | ⟨a, _ | ⟨b, tail⟩⟩
      · rfl
      · rfl
      · exact absurd hlen (by simp)
    refine ⟨body ++ rest, ?_⟩
    unfold readMQTTLenString
    rw [bind_apply, Reader.ahead, Option.bind_some, hahead, if_neg (by omega), hzero]
    rfl
  · rcases body with _ | ⟨a, _ | ⟨b, tail⟩⟩
    · exact absurd (by decide) hlen
    · exact absurd (by simp) hlen
    · have hlong : ¬ ((256 * a.toNat + b.toNat : ℕ) : ℤ) ≤ ((tail ++ rest).length : ℤ) - rest.length := by
        rw [TopicFits, topicLength, List.length_cons, List.length_cons] at h
        rw [List.length_append]
        push_cast
        omega
      have hint : Consumes readInt (tail ++ rest) [a, b] (256 * a.toNat + b.toNat) := rfl
      refine ⟨tail ++ rest, ?_⟩
      unfold readMQTTLenString
      rw [bind_apply, Reader.ahead, Option.bind_some, hahead, if_pos (by omega)]
      calc (readInt >>= fun len => _) ([a, b] ++ (tail ++ rest))
          = (if ((256 * a.toNat + b.toNat : ℕ) : ℤ) ≤ ((tail ++ rest).length : ℤ) - rest.length then _ else _ :
              Reader Byte (MQTTLenString × Bool)) (tail ++ rest) := hint.bind_apply _
        _ = some ((⟨topicLength (a :: b :: tail), none⟩, false), tail ++ rest) := by
          rw [if_neg hlong]
          rfl

/-- The identifier is there above QoS 0. -/
def idBytes (qos packetid : ℕ) : List Byte := if qos > 0 then writeInt packetid else []

theorem length_idBytes (qos packetid : ℕ) : (idBytes qos packetid).length = if 0 < qos then 2 else 0 := by
  unfold idBytes
  split <;> rfl

theorem consumes_readPacketid (qos : ℕ) {packetid : ℕ} (hid : packetid < 2 ^ 16) (rest : List Byte) :
    Consumes (readPacketid qos) rest (idBytes qos packetid) (if qos > 0 then some packetid else none) := by
  unfold readPacketid idBytes
  by_cases hqos : qos > 0
  · rw [if_pos hqos, if_pos hqos, if_pos hqos]
    exact (consumes_readInt hid rest).bind_last (consumes_pure _ rest)
  · rw [if_neg hqos, if_neg hqos, if_neg hqos]
    exact consumes_pure none rest

theorem readInt_eq_none_iff (bs : List Byte) : readInt bs = none ↔ bs.length < 2 := by
  match bs with
  | [] => exact iff_of_true rfl (by simp)
  | [_] => exact iff_of_true rfl (by simp)
  | _ :: _ :: _ => exact iff_of_false nofun (by simp)

theorem readPacketid_eq_none_iff (qos : ℕ) (bs : List Byte) : readPacketid qos bs = none ↔ 0 < qos ∧ bs.length < 2 := by
  unfold readPacketid
  by_cases hqos : qos > 0
  · rw [if_pos hqos, ← readInt_eq_none_iff bs, and_iff_right hqos]
    cases h : readInt bs with
    | none => exact iff_of_true (by rw [bind_apply, h]; rfl) rfl
    | some p => exact iff_of_false (by rw [bind_apply, h]; exact nofun) nofun
  · rw [if_neg hqos]
    exact iff_of_false nofun fun h => hqos h.1

theorem readPacketid_isSome {qos : ℕ} (hqos : qos > 0) {bs : List Byte} {p : Option ℕ × List Byte}
    (h : readPacketid qos bs = some p) : p.1 ≠ none := by
  unfold readPacketid at h
  rw [if_pos hqos, bind_apply] at h
  obtain ⟨id, -, h⟩ := Option.bind_eq_some_iff.mp h
  rw [← Option.some.inj h]
  exact nofun

/-- What is read of a PUBLISH with a topic. -/
def publishData (byte : Byte) (packetid : Option ℕ) (topic payload : List Byte) (payloadlen : ℤ) : PublishData :=
  ⟨MQTTHeader.dup byte, MQTTHeader.qos byte, MQTTHeader.retain byte, packetid, ⟨topic.length, some topic⟩,
    some payload, payloadlen⟩

theorem readPayload_eq (data : PublishData) (enddata : ℤ) (buf : List Byte) : readPayload data enddata buf =
    (readPacketid data.qos buf).map fun p =>
      ((1, { data with packetid := p.1, payload := some p.2, payloadlen := p.2.length - enddata }), p.2) := by
  rw [readPayload, bind_apply]
  cases readPacketid data.qos buf <;> rfl

section Read

variable {byte : Byte} (hbyte : MQTTHeader.type byte = PUBLISH) {n : ℕ} (hn : n < 2 ^ 28)
include hbyte hn

theorem publish_eq_readTopic (buf : List Byte) : MQTTDeserialize_publish (byte :: (MQTTPacket_encode n ++ buf)) =
    readTopic (.ofHeader byte) (encodedLength n) (buf.length - n) buf := by
  change (if MQTTHeader.type byte = PUBLISH then _ else _ : Reader Byte (ℕ × PublishData)) _ = _
  rw [if_pos hbyte]
  exact (consumes_skipLength hn buf).bind_apply _

/-- **With a topic that fits**, the identifier is read where there should be one, and the rest is the payload. -/
theorem publish_of_fits {topic tail : List Byte} (rest : List Byte) (htopic : topic.length < 2 ^ 16)
    (hlen : n = (lengthDelimited topic ++ tail).length) :
    MQTTDeserialize_publish (byte :: (MQTTPacket_encode n ++ (lengthDelimited topic ++ tail ++ rest))) =
      (readPacketid (MQTTHeader.qos byte) (tail ++ rest)).map fun p =>
        ((1, publishData byte p.1 topic p.2 (p.2.length - rest.length)), p.2) := by
  have hend : ((lengthDelimited topic ++ tail ++ rest).length : ℤ) - n = rest.length := by
    simp only [hlen, List.length_append]
    push_cast
    omega
  have hread : Consumes (readMQTTLenString rest.length) (tail ++ rest) (lengthDelimited topic)
      (⟨topic.length, some topic⟩, true) := consumes_readMQTTLenString htopic (by simp)
  have hdata := readPayload_eq { PublishData.ofHeader byte with topicName := ⟨topic.length, some topic⟩ } rest.length
    (tail ++ rest)
  rw [publish_eq_readTopic hbyte hn, hend, List.append_assoc]
  exact (hread.bind_apply _).trans hdata

/-- **Without one**, the number of the length's bytes is returned. -/
theorem publish_of_not_fits {body : List Byte} (rest : List Byte) (hlen : n = body.length) (hfits : ¬ TopicFits body) :
    ∃ left, MQTTDeserialize_publish (byte :: (MQTTPacket_encode n ++ (body ++ rest))) =
      some ((encodedLength n, { PublishData.ofHeader byte with topicName := ⟨topicLength body, none⟩ }), left) := by
  have hend : ((body ++ rest).length : ℤ) - n = rest.length := by
    rw [hlen, List.length_append]
    push_cast
    omega
  obtain ⟨left, hread⟩ := readMQTTLenString_of_not_fits rest hfits
  refine ⟨left, ?_⟩
  rw [publish_eq_readTopic hbyte hn, hend, readTopic, bind_apply, hread]
  rfl

end Read

theorem encodedLength_eq_one_iff (n : ℕ) : encodedLength n = 1 ↔ n < 128 := by
  unfold encodedLength
  split_ifs <;> simp_all

/-- A PUBLISH in a buffer. -/
def publishBuffer (byte : Byte) (body rest : List Byte) : List Byte :=
  byte :: (MQTTPacket_encode body.length ++ (body ++ rest))

/-- The identifier would be read from behind the buffer. -/
def IdOutside (byte : Byte) (body rest : List Byte) : Prop :=
  0 < MQTTHeader.qos byte ∧ TopicFits body ∧ body.length + rest.length < 2 + topicLength body + 2

instance (byte : Byte) (body rest : List Byte) : Decidable (IdOutside byte body rest) :=
  inferInstanceAs (Decidable (_ ∧ _ ∧ _))

/-- **When a PUBLISH is taken for read**, and what that says about its topic. -/
theorem publish_accepted_iff {byte : Byte} (hbyte : MQTTHeader.type byte = PUBLISH) {body : List Byte}
    (hbody : body.length < 2 ^ 28) (rest : List Byte) :
    (MQTTDeserialize_publish (publishBuffer byte body rest) = none ↔ IdOutside byte body rest) ∧
    ((∃ data left, MQTTDeserialize_publish (publishBuffer byte body rest) = some ((1, data), left)) ↔
      ¬ IdOutside byte body rest ∧ (TopicFits body ∨ body.length < 128)) ∧
    ∀ data left, MQTTDeserialize_publish (publishBuffer byte body rest) = some ((1, data), left) →
      (data.topicName.data = none ↔ ¬ TopicFits body) := by
  unfold publishBuffer
  by_cases hfits : TopicFits body
  · obtain ⟨topic, tail, htopic, rfl⟩ := (topicFits_iff body).mp hfits
    have hout : readPacketid (MQTTHeader.qos byte) (tail ++ rest) = none ↔
        IdOutside byte (lengthDelimited topic ++ tail) rest := by
      rw [readPacketid_eq_none_iff, IdOutside, and_iff_right hfits, ← htopic, List.length_append, List.length_append,
        length_lengthDelimited]
      exact and_congr_right fun _ => by omega
    rw [publish_of_fits hbyte hbody rest (htopic ▸ topicLength_lt _) rfl, Option.map_eq_none_iff, hout]
    refine ⟨Iff.rfl, ?_, ?_⟩
    · rw [and_iff_left (Or.inl hfits), ← hout]
      constructor
      · rintro ⟨data, left, h⟩ hnone
        rw [hnone] at h
        cases h
      · intro h
        obtain ⟨p, hp⟩ := Option.ne_none_iff_exists'.mp h
        exact ⟨_, _, by rw [hp]; rfl⟩
    · intro data left h
      obtain ⟨p, -, h⟩ := Option.map_eq_some_iff.mp h
      obtain ⟨h, -⟩ := Prod.mk.inj h
      obtain ⟨-, rfl⟩ := Prod.mk.inj h
      exact iff_of_false nofun (not_not.mpr hfits)
  · have hin : ¬ IdOutside byte body rest := fun h => hfits h.2.1
    obtain ⟨left, hread⟩ := publish_of_not_fits hbyte hbody rest rfl hfits
    rw [hread]
    refine ⟨iff_of_false nofun hin, ?_, ?_⟩
    · rw [and_iff_right hin, or_iff_right hfits, ← encodedLength_eq_one_iff]
      constructor
      · rintro ⟨data, left, h⟩
        exact congrArg (fun r => r.1.1) (Option.some.inj h)
      · intro h
        exact ⟨_, _, by rw [h]⟩
    · rintro data left' h
      obtain ⟨h, -⟩ := Prod.mk.inj (Option.some.inj h)
      obtain ⟨-, rfl⟩ := Prod.mk.inj h
      exact iff_of_true rfl hfits

/-- What is serialized is read back. -/
theorem deserialize_of_serialize {buflen packetid : ℕ} {dup retained : Bool} {qos : QoS} {topicName : CString}
    {payload packet : List Byte} (hbuf : buflen ≤ 2 ^ 28) (htopic : topicName.strlen < 2 ^ 16) (hid : packetid < 2 ^ 16)
    (h : MQTTSerialize_publish buflen dup qos retained packetid topicName payload = some packet) (rest : List Byte) :
    MQTTDeserialize_publish (packet ++ rest) =
      some ((1, ⟨dup, qos.level, retained, if qos.level > 0 then some packetid else none,
        ⟨topicName.strlen, some topicName.chars⟩, some (payload ++ rest), payload.length⟩), payload ++ rest) := by
  obtain ⟨hfits, -⟩ := MQTTSerialize_publish_eq_some h
  have hn := (lt_MQTTPacket_len _).trans_le (hfits.trans hbuf)
  have hpacket : packet = MQTTHeader PUBLISH dup qos retained ::
      (MQTTPacket_encode (MQTTSerialize_publishLength qos topicName payload.length) ++ writeCString topicName ++
        idBytes qos.level packetid ++ payload) := by
    rw [MQTTSerialize_publish, if_neg (Nat.not_lt.mpr hfits), Option.some.injEq] at h
    exact h.symm
  have hqos : MQTTHeader.qos (MQTTHeader PUBLISH dup qos retained) = qos.level := qos_MQTTHeader (by decide) dup qos retained
  have hlen : MQTTSerialize_publishLength qos topicName payload.length =
      (lengthDelimited topicName.chars ++ (idBytes qos.level packetid ++ payload)).length := by
    rw [MQTTSerialize_publishLength, List.length_append, List.length_append, length_lengthDelimited, length_idBytes,
      CString.strlen]
    omega
  have hread := publish_of_fits (type_MQTTHeader (by decide) dup qos retained) hn rest htopic hlen
  have hid := consumes_readPacketid qos.level hid (payload ++ rest)
  have hbuffer : packet ++ rest = MQTTHeader PUBLISH dup qos retained ::
      (MQTTPacket_encode (MQTTSerialize_publishLength qos topicName payload.length) ++
        (lengthDelimited topicName.chars ++ (idBytes qos.level packetid ++ payload) ++ rest)) := by
    rw [hpacket, writeCString_eq]
    simp only [List.cons_append, List.append_assoc]
  have hpayloadlen : ((payload ++ rest).length : ℤ) - rest.length = payload.length := by
    rw [List.length_append]
    push_cast
    omega
  unfold Consumes at hid
  rw [hbuffer, hread, hqos, List.append_assoc, hid, Option.map_some, publishData, hpayloadlen, hqos,
    dup_MQTTHeader (by decide), retain_MQTTHeader (by decide)]
  rfl

end Mqtt
end Ventilation
