/-
# The client on bytes (MQTTClient.h)

`readPacket` asks the network for a packet's bytes and puts them into `readbuf`; `cycle`
handles what is there. A step is `none` where the code would leave an array, read through a
pointer that is NULL or send a variable that it never set.
-/
import Ventilation.Mqtt.Publish

namespace Ventilation
namespace Mqtt

open Wire

/-- The buffer that packets are read into. -/
abbrev Readbuf := Vector Byte MAX_MQTT_PACKET_SIZE

/-- The end of `readPacket`, where there is room. Where not all arrives, `rc` is still what the read of the header
has returned. -/
def readRest (readbuf : Readbuf) (len rem_len : ℕ) : Reading Byte (ℤ × Readbuf) := do
  if rem_len > 0 then
    let body ← Reading.take rem_len
    let readbuf ← Buffer.store readbuf len body
    if body.length ≠ rem_len then return (1, readbuf) else return (MQTTHeader.type readbuf[0], readbuf)
  else return (MQTTHeader.type readbuf[0], readbuf)

/-- Behind the header. -/
def readLength (readbuf : Readbuf) : Reading Byte (ℤ × Readbuf) := do
  let (_, rem_len) ← decodePacket
  let readbuf ← Buffer.store readbuf 1 (MQTTPacket_encode rem_len)
  let len := 1 + (MQTTPacket_encode rem_len).length
  if (rem_len : ℤ) > MAX_MQTT_PACKET_SIZE - len then return (-2, readbuf) else readRest readbuf len rem_len

/-- The value returned, and the buffer. The network's `read` returns how many bytes it has read. -/
def readPacket (readbuf : Readbuf) : Reading Byte (ℤ × Readbuf) := do
  let header ← Reading.take 1
  let readbuf ← Buffer.store readbuf 0 header
  if header.length ≠ 1 then return (header.length, readbuf) else readLength readbuf

/-- The client, with what `message_arrived` was called with. -/
structure Client where
  isconnected : Bool
  cleansession : Bool
  messageHandlers : Vector (Option (List Byte)) 5
  readbuf : Readbuf
  arrived : List PublishData

namespace Client

/-- With an empty buffer. -/
def blank : Client := ⟨false, true, .replicate 5 none, .replicate _ 0, []⟩

/-- The same in an open session. -/
def opened : Client := { blank with isconnected := true }

/-- With a handler for the control topic. -/
def listening : Client := { opened with messageHandlers := (Vector.replicate 5 none).set 0 (some control) }

/-- The test of a handler's filter in `deliverMessage`: `MQTTPacket_equals` or `isTopicMatched`. -/
def filterMatches (topicFilter : List Byte) (topicName : MQTTLenString) : Option Bool :=
  match topicName.data with
  | some name => some (topicFilter = name ∨ isTopicMatched topicFilter name)
  | none =>
    -- a NULL is compared with a filter as long as `len` says, and followed where neither is empty
    if topicFilter = [] then some (topicName.len = 0)
    else if topicName.len = 0 then some false
    else none

/-- One turn of the loop of `deliverMessage`. -/
def deliverTo (data : PublishData) (arrived : List PublishData) : Option (List Byte) → Option (List PublishData)
  | none => some arrived
  | some topicFilter => (filterMatches topicFilter data.topicName).map fun m => if m then arrived ++ [data] else arrived

def deliverMessage (c : Client) (data : PublishData) : Option Client := do
  let arrived ← c.messageHandlers.toList.foldlM (deliverTo data) c.arrived
  return { c with arrived }

def cleanSession (c : Client) : Client := { c with messageHandlers := .replicate 5 none }

def closeSession (c : Client) : Client :=
  let c := { c with isconnected := false }
  if c.cleansession then c.cleanSession else c

theorem closeSession_spec (c : Client) :
    c.closeSession.isconnected = false ∧ c.closeSession.readbuf = c.readbuf ∧ c.closeSession.arrived = c.arrived := by
  unfold closeSession
  dsimp only
  split <;> exact ⟨rfl, rfl, rfl⟩

/-- The acknowledgement of a message, in `sendbuf`; there is none for a QoS that does not exist. -/
def acknowledgement (data : PublishData) : Option (Option (List Byte)) :=
  if data.qos = 1 then data.packetid.map (MQTTSerialize_ack MAX_MQTT_PACKET_SIZE 4 false)
  else if data.qos = 2 then data.packetid.map (MQTTSerialize_ack MAX_MQTT_PACKET_SIZE 5 false)
  else some none

/-- The client, what is sent, `rc`, and whether `cycle` goes to `exit` at once. -/
abbrev Handled := Client × List (List Byte) × ℤ × Bool

/-- A message is acknowledged above QoS 0. -/
def acknowledge (c : Client) (data : PublishData) (sends : Bool) : Option Handled :=
  if data.qos = 0 then some (c, [], 0, false)
  else (acknowledgement data).map fun answer =>
    match answer with
    | none => (c, [], -1, true)
    | some answer => if sends then (c, [answer], 0, false) else (c, [], -1, true)

/-- The case PUBLISH of `cycle`. -/
def handlePublish (c : Client) (sends : Bool) : Option Handled := do
  let ((rc, data), _) ← MQTTDeserialize_publish c.readbuf.toList
  -- a packet that is not taken for read is ignored
  if rc = 1 then
    let c ← c.deliverMessage data
    c.acknowledge data sends
  else return (c, [], 0, true)

/-- The `switch` of `cycle`, compiled without QoS 2. -/
def handle (c : Client) (packet_type : ℤ) (sends : Bool) : Option Handled :=
  if packet_type = 3 then c.handlePublish sends
  else if packet_type = 0 ∨ packet_type = 2 ∨ packet_type = 4 ∨ packet_type = 9 ∨ packet_type = 11 ∨ packet_type = 13
  then some (c, [], 0, false)
  else some (c, [], packet_type, true)

/-- `cycle` at its `exit`. -/
def exit (c : Client) (answers : List (List Byte)) (rc packet_type : ℤ) : Client × List (List Byte) × ℤ :=
  if rc = 0 then (c, answers, packet_type)
  else if c.isconnected then (c.closeSession, answers, rc) else (c, answers, rc)

/-- `cycle` behind `readPacket`. -/
def work (c : Client) (packet_type : ℤ) (sends alive : Bool) : Option (Client × List (List Byte) × ℤ) := do
  let (c, answers, rc, atOnce) ← c.handle packet_type sends
  return c.exit answers (if atOnce || alive then rc else -1) packet_type

/-- `cycle`; `sends` is what becomes of `sendPacket`, and `alive` whether `keepalive` succeeds. -/
def cycle (c : Client) (sends alive : Bool) : Reading Byte (Client × List (List Byte) × ℤ) := do
  let (packet_type, readbuf) ← readPacket c.readbuf
  work { c with readbuf } packet_type sends alive

end Client

/-! ### Reading a packet -/

variable {readbuf : Readbuf} {byte : Byte} {body rest : List Byte}

/-- A packet: the header byte, the length of what follows it, and that. -/
def packetBytes (byte : Byte) (body : List Byte) : List Byte := byte :: (MQTTPacket_encode body.length ++ body)

/-- There is room for it. -/
def FitsReadbuf (body : List Byte) : Prop := body.length + (1 + encodedLength body.length) ≤ MAX_MQTT_PACKET_SIZE

instance (body : List Byte) : Decidable (FitsReadbuf body) := inferInstanceAs (Decidable (_ ≤ _))

theorem lt_of_fitsReadbuf (h : FitsReadbuf body) : body.length < 2 ^ 28 := by
  rw [FitsReadbuf, MAX_MQTT_PACKET_SIZE] at h
  omega

/-- The first byte of a packet in the buffer. -/
theorem getElem_zero_of_store {b : Readbuf} {bs : List Byte} (h : Buffer.store readbuf 0 (byte :: bs) = some b) : b[0] = byte := by
  have hget := Buffer.getElem?_store h 0
  rw [if_pos ⟨Nat.le_refl 0, by simp⟩, Vector.getElem?_toList, Vector.getElem?_eq_getElem (by decide)] at hget
  exact Option.some.inj hget

/-- The pieces of a packet. -/
theorem store_packet {b b' b'' : Readbuf} (hb : Buffer.store readbuf 0 [byte] = some b)
    (hb' : Buffer.store b 1 (MQTTPacket_encode body.length) = some b')
    (hb'' : Buffer.store b' (1 + (MQTTPacket_encode body.length).length) body = some b'') :
    Buffer.store readbuf 0 (packetBytes byte body) = some b'' := by
  refine Buffer.store_append (Buffer.store_append (l := [byte]) hb hb') ?_
  rw [List.length_append, List.length_singleton, Nat.zero_add]
  exact hb''

theorem store_packet_nil {b b' : Readbuf} (hb : Buffer.store readbuf 0 [byte] = some b)
    (hb' : Buffer.store b 1 (MQTTPacket_encode ([] : List Byte).length) = some b') :
    Buffer.store readbuf 0 (packetBytes byte []) = some b' := by
  rw [packetBytes, List.append_nil]
  exact Buffer.store_append (l := [byte]) hb hb'

/-- The rest, with the length it should have. -/
theorem consumes_readRest {b b' : Readbuf} {len : ℕ} (hstore : Buffer.store b len body = some b')
    (hzero : body = [] → b' = b) (rest : List Byte) :
    Consumes ((readRest b len body.length).run Reader.take) rest body (MQTTHeader.type b'[0], b') := by
  unfold readRest
  by_cases hpos : body.length > 0
  · rw [if_pos hpos]
    refine (consumes_run_take body rest).run_bind_last (Consumes.run_lift_bind hstore ?_)
    rw [if_neg (not_not.mpr rfl)]
    exact consumes_pure _ rest
  · have hnil : body = [] := List.length_eq_zero_iff.mp (Nat.eq_zero_of_not_pos hpos)
    rw [if_neg hpos, hzero hnil, hnil]
    exact consumes_pure _ rest

/-- **A packet that fits is read**, and lies in the buffer as if it was written in one piece. -/
theorem consumes_readPacket (readbuf : Readbuf) (byte : Byte) (hfits : FitsReadbuf body) (rest : List Byte) :
    ∃ readbuf' : Readbuf,
    Consumes ((readPacket readbuf).run Reader.take) rest (packetBytes byte body) (MQTTHeader.type byte, readbuf') ∧
    Buffer.store readbuf 0 (packetBytes byte body) = some readbuf' := by
  have hn := lt_of_fitsReadbuf hfits
  have hencode := length_MQTTPacket_encode hn
  obtain ⟨b₁, hb₁⟩ := Buffer.store_isSome readbuf (i := 0) [byte] (Nat.le_of_ble_eq_true rfl)
  obtain ⟨b₂, hb₂⟩ := Buffer.store_isSome b₁ (i := 1) (MQTTPacket_encode body.length)
    (by rw [hencode, FitsReadbuf] at *; omega)
  obtain ⟨b₃, hb₃⟩ := Buffer.store_isSome b₂ (i := 1 + (MQTTPacket_encode body.length).length) body
    (by rw [hencode, FitsReadbuf] at *; omega)
  have hstore := store_packet hb₁ hb₂ hb₃
  have hnil : body = [] → b₃ = b₂ := by
    rintro rfl
    exact Option.some.inj (hstore.symm.trans (store_packet_nil hb₁ hb₂))
  refine ⟨b₃, ?_, hstore⟩
  refine (consumes_run_take [byte] _).run_bind (Consumes.run_lift_bind hb₁ ?_)
  rw [if_neg (by simp)]
  refine Consumes.run_bind (consumes_decode hn _) (Consumes.run_lift_bind hb₂ ?_)
  dsimp only
  rw [if_neg (by rw [hencode]; rw [FitsReadbuf] at hfits; push_cast; omega), ← getElem_zero_of_store hstore]
  exact consumes_readRest hb₃ hnil rest

/-- **One that is too long is left in the network**, behind its length. -/
theorem consumes_readPacket_of_too_long (readbuf : Readbuf) (byte : Byte) (hn : body.length < 2 ^ 28)
    (hlong : ¬ FitsReadbuf body) (rest : List Byte) : ∃ readbuf',
    Consumes ((readPacket readbuf).run Reader.take) rest (byte :: MQTTPacket_encode body.length) (-2, readbuf') := by
  have hencode := length_MQTTPacket_encode hn
  obtain ⟨b₁, hb₁⟩ := Buffer.store_isSome readbuf (i := 0) [byte] (Nat.le_of_ble_eq_true rfl)
  obtain ⟨b₂, hb₂⟩ := Buffer.store_isSome b₁ (i := 1) (MQTTPacket_encode body.length)
    (by rw [hencode, MAX_MQTT_PACKET_SIZE, encodedLength]; split_ifs <;> omega)
  refine ⟨b₂, ?_⟩
  refine (consumes_run_take [byte] _).run_bind (Consumes.run_lift_bind hb₁ ?_)
  rw [if_neg (by simp)]
  refine Consumes.run_bind_last (consumes_decode hn _) (Consumes.run_lift_bind hb₂ ?_)
  dsimp only
  rw [if_pos (by rw [hencode]; rw [FitsReadbuf] at hlong; push_cast; omega)]
  exact consumes_pure _ _

/-! ### Whatever arrives -/

/-- The value of a length, from what it was worth so far. -/
theorem decodeLoop_always : ∀ left m len v : ℕ, (decodeLoop left m len v).Always fun r => r.2 + m ≤ v + m * 128 ^ left
  | 0, m, _, v => Nat.le_of_eq (by rw [Nat.pow_zero, Nat.mul_one])
  | left + 1, m, len, v => by
    have hpow : m ≤ m * 128 ^ (left + 1) := Nat.le_mul_of_pos_right m (Nat.pow_pos (by decide))
    have hsplit : m * 128 * 128 ^ left = m * 128 ^ (left + 1) := by rw [Nat.pow_succ']; ring
    refine Reading.Always.take_bind fun bs _ => ?_
    match bs with
    | [] => exact Nat.add_le_add_left hpow v
    | [c] =>
      have hdigit : (c &&& 127).toNat * m + m ≤ m * 128 := by
        have hc := Nat.mod_lt c.toNat (by decide : 0 < 128)
        rw [and_127_toNat]
        nlinarith
      dsimp only
      split
      · have ih := decodeLoop_always left (m * 128) (len + 1) (v + (c &&& 127).toNat * m)
        refine ih.mono fun r hr => ?_
        rw [hsplit] at hr
        omega
      · have hle : m * 128 ≤ m * 128 ^ (left + 1) := by
          rw [← hsplit]
          exact Nat.le_mul_of_pos_right _ (Nat.pow_pos (by decide))
        show v + (c &&& 127).toNat * m + m ≤ v + m * 128 ^ (left + 1)
        omega
    | _ :: _ :: _ => exact Nat.add_le_add_left hpow v

/-- A packet lies in the buffer. -/
def Holds (readbuf : Readbuf) (byte : Byte) (body : List Byte) : Prop :=
  FitsReadbuf body ∧ packetBytes byte body <+: readbuf.toList

/-- What `readPacket` comes to. -/
def Read (r : ℤ × Readbuf) : Prop :=
  r.1 = 0 ∨ r.1 = 1 ∨ r.1 = -2 ∨ ∃ byte body, r.1 = MQTTHeader.type byte ∧ Holds r.2 byte body

theorem holds_of_store {b : Readbuf} (hfits : FitsReadbuf body) (h : Buffer.store readbuf 0 (packetBytes byte body) = some b) :
    (MQTTHeader.type b[0] : ℤ) = MQTTHeader.type byte ∧ Holds b byte body := by
  refine ⟨by rw [getElem_zero_of_store h], hfits, ?_⟩
  rw [(Buffer.toList_store h).2]
  exact List.prefix_append _ _

/-- **`readPacket` stays inside the buffer**, whatever bytes arrive, and returns a type only of a packet that lies there. -/
theorem readPacket_always (readbuf : Readbuf) : (readPacket readbuf).Always Read := by
  refine Reading.Always.take_bind fun header hheader => ?_
  obtain ⟨b₁, hb₁⟩ := Buffer.store_isSome readbuf (i := 0) header (by rw [MAX_MQTT_PACKET_SIZE]; omega)
  refine Reading.Always.lift_bind hb₁ ?_
  match header, hheader with
  | [], _ => exact Or.inl rfl
  | [byte], _ =>
    rw [if_neg (by simp)]
    refine Reading.Always.bind (decodeLoop_always MAX_NO_OF_REMAINING_LENGTH_BYTES 1 0 0) fun r hr => ?_
    have hvalue : r.2 < 2 ^ 28 := by
      rw [MAX_NO_OF_REMAINING_LENGTH_BYTES] at hr
      omega
    have hencode := length_MQTTPacket_encode hvalue
    obtain ⟨b₂, hb₂⟩ := Buffer.store_isSome b₁ (i := 1) (MQTTPacket_encode r.2)
      (by rw [hencode, MAX_MQTT_PACKET_SIZE, encodedLength]; split_ifs <;> omega)
    refine Reading.Always.lift_bind hb₂ ?_
    dsimp only
    by_cases hroom : (r.2 : ℤ) > MAX_MQTT_PACKET_SIZE - (1 + (MQTTPacket_encode r.2).length : ℕ)
    · rw [if_pos hroom]
      exact Or.inr (Or.inr (Or.inl rfl))
    rw [if_neg hroom]
    have hfits : ∀ body : List Byte, body.length = r.2 → FitsReadbuf body := by
      intro body hbody
      rw [FitsReadbuf, hbody, ← hencode]
      omega
    unfold readRest
    by_cases hpos : r.2 > 0
    · rw [if_pos hpos]
      refine Reading.Always.take_bind fun body hbody => ?_
      obtain ⟨b₃, hb₃⟩ := Buffer.store_isSome b₂ (i := 1 + (MQTTPacket_encode r.2).length) body (by omega)
      refine Reading.Always.lift_bind hb₃ ?_
      by_cases hall : body.length = r.2
      · rw [if_neg (not_not.mpr hall)]
        rw [← hall] at hb₂ hb₃
        exact Or.inr (Or.inr (Or.inr ⟨byte, body, holds_of_store (hfits body hall) (store_packet hb₁ hb₂ hb₃)⟩))
      · rw [if_pos hall]
        exact Or.inr (Or.inl rfl)
    · have hzero : ([] : List Byte).length = r.2 := by
        rw [List.length_nil]
        omega
      rw [if_neg hpos]
      rw [← hzero] at hb₂
      exact Or.inr (Or.inr (Or.inr ⟨byte, [], holds_of_store (hfits [] hzero) (store_packet_nil hb₁ hb₂)⟩))

end Mqtt
end Ventilation
