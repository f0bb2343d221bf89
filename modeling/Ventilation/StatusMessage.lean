/-
# The status message (src/commhandler.cpp, MQTTSerializePublish.c, MQTTPacket.c)

`CommHandler::send` writes nine values as JSON and publishes the text with its NUL. What
`Writer::Double` writes of a reading is a parameter. The client builds the packet in a
buffer of 200 bytes, if it fits there: exactly if the texts of the nine values have at most
94 characters (`send_fits_iff`). With readings of at most 18 characters it always does (`send_short`).
A reading of -0.1 takes 19 or more (`tenth_text`), whatever writes it so that it reads back.
-/
import Ventilation.CommHandler
import Ventilation.Fan
import Ventilation.Lib.CString
import Ventilation.Lib.FloatText
import Ventilation.Lib.JsonWriter
import Ventilation.MqttSession
import Ventilation.Subscriptions

namespace Ventilation

open Decimal FloatText
open Json (Text objectText boolText Reads)
open Python (ascii)

/-! ### The packet -/

namespace Mqtt

def MQTTPacket_len (rem_len : ℕ) : ℕ :=
  let rem_len := rem_len + 1
  if rem_len < 128 then rem_len + 1
  else if rem_len < 16384 then rem_len + 2
  else if rem_len < 2097151 then rem_len + 3
  else rem_len + 4

def MQTTPacket_encode (length : ℕ) : List Byte :=
  let d : Byte := .ofNat 8 (length % 128)
  if 0 < length / 128 then (d ||| 0x80) :: MQTTPacket_encode (length / 128) else [d]
termination_by length
decreasing_by omega

def MQTTSerialize_publishLength (qos : QoS) (topicName : CString) (payloadlen : ℕ) : ℕ :=
  2 + topicName.strlen + payloadlen + if 0 < qos.level then 2 else 0

def writeInt (anInt : ℕ) : List Byte := [.ofNat 8 (anInt / 256), .ofNat 8 (anInt % 256)]

/-- What `writeMQTTString` comes to for a topic that is a C string. -/
def writeCString (string : CString) : List Byte := writeInt string.strlen ++ string.chars

/-- The bits of the header byte. -/
def MQTTHeader (type : ℕ) (dup : Bool) (qos : QoS) (retain : Bool) : Byte :=
  .ofNat 8 (type * 16 + dup.toNat * 8 + qos.level * 2 + retain.toNat)

/-- `none` is `MQTTPACKET_BUFFER_TOO_SHORT`. The lengths are those of texts in memory: an `int` holds them. -/
def MQTTSerialize_publish (buflen : ℕ) (dup : Bool) (qos : QoS) (retained : Bool) (packetid : ℕ)
    (topicName : CString) (payload : List Byte) : Option (List Byte) :=
  let rem_len := MQTTSerialize_publishLength qos topicName payload.length
  if buflen < MQTTPacket_len rem_len then none
  else some (MQTTHeader 3 dup qos retained :: (MQTTPacket_encode rem_len ++ writeCString topicName ++
    (if 0 < qos.level then writeInt packetid else []) ++ payload))

variable {buflen packetid : ℕ} {dup retained : Bool} {qos : QoS} {topicName : CString} {payload packet : List Byte}

theorem length_MQTTPacket_encode_step (n : ℕ) : (MQTTPacket_encode n).length =
    if n < 128 then 1 else (MQTTPacket_encode (n / 128)).length + 1 := by
  rw [MQTTPacket_encode]
  by_cases h : n < 128
  · rw [if_pos h, if_neg (by omega)]
    rfl
  · rw [if_neg h, if_pos (by omega)]
    rfl

/-- The bytes of a remaining length, up to what four have room for. -/
theorem length_MQTTPacket_encode {n : ℕ} (h : n < 2 ^ 28) : (MQTTPacket_encode n).length = encodedLength n := by
  rw [length_MQTTPacket_encode_step, length_MQTTPacket_encode_step (n / 128),
    length_MQTTPacket_encode_step (n / 128 / 128), length_MQTTPacket_encode_step (n / 128 / 128 / 128), encodedLength]
  split_ifs <;> omega

/-- It leaves room for the length's bytes and the header. -/
theorem length_le_MQTTPacket_len {n : ℕ} (h : n < 2 ^ 28) : 1 + encodedLength n + n ≤ MQTTPacket_len n := by
  simp only [encodedLength, MQTTPacket_len]
  split_ifs <;> omega

theorem lt_MQTTPacket_len (n : ℕ) : n < MQTTPacket_len n := by
  simp only [MQTTPacket_len]
  split_ifs <;> omega

theorem MQTTSerialize_publish_eq_some
    (h : MQTTSerialize_publish buflen dup qos retained packetid topicName payload = some packet) :
    MQTTPacket_len (MQTTSerialize_publishLength qos topicName payload.length) ≤ buflen ∧
    packet.length = 1 + (MQTTPacket_encode (MQTTSerialize_publishLength qos topicName payload.length)).length +
      MQTTSerialize_publishLength qos topicName payload.length := by
  simp only [MQTTSerialize_publish, Option.ite_none_left_eq_some, Option.some.injEq] at h
  obtain ⟨hlen, rfl⟩ := h
  have hid : (if 0 < qos.level then writeInt packetid else []).length = if 0 < qos.level then 2 else 0 := by
    split <;> rfl
  have hname : (writeCString topicName).length = topicName.strlen + 2 := by
    rw [writeCString, List.length_append, CString.strlen, Nat.add_comm]
    rfl
  have hrem : MQTTSerialize_publishLength qos topicName payload.length =
      2 + topicName.strlen + payload.length + if 0 < qos.level then 2 else 0 := rfl
  refine ⟨Nat.le_of_not_lt hlen, ?_⟩
  simp only [List.length_cons, List.length_append, hid, hname]
  omega

/-- **A packet that is built fits into the buffer.** -/
theorem length_MQTTSerialize_publish
    (h : MQTTSerialize_publish buflen dup qos retained packetid topicName payload = some packet)
    (hbuf : buflen ≤ 2 ^ 28) : packet.length ≤ buflen := by
  obtain ⟨hlen, hpacket⟩ := MQTTSerialize_publish_eq_some h
  generalize MQTTSerialize_publishLength qos topicName payload.length = n at hlen hpacket
  have hn : n < 2 ^ 28 := lt_of_lt_of_le (lt_MQTTPacket_len n) (hlen.trans hbuf)
  rw [hpacket, length_MQTTPacket_encode hn]
  exact (length_le_MQTTPacket_len hn).trans hlen

/-- A packet is built exactly if there is room for it. -/
theorem MQTTSerialize_publish_isSome_iff :
    (∃ packet, MQTTSerialize_publish buflen dup qos retained packetid topicName payload = some packet) ↔
      MQTTPacket_len (MQTTSerialize_publishLength qos topicName payload.length) ≤ buflen := by
  constructor
  · rintro ⟨packet, h⟩
    exact (MQTTSerialize_publish_eq_some h).1
  · intro h
    exact ⟨_, if_neg (Nat.not_lt.mpr h)⟩

end Mqtt

/-! ### The message -/

namespace Status

/-- The floats among the arguments. -/
def readings (s : Status) : List (BitVec 32) := [s.co2, s.ah, s.rh, s.temp]

/-- The calls of the writer: a key, and the text of its value. -/
def members (Double : BitVec 32 → CString) (s : Status) : List (Text × Text) :=
  [(ascii "speed", intText s.speed), (ascii "setpoint", intText s.setpoint), (ascii "pressure", intText s.pressure),
    (ascii "auto", boolText s.aut), (ascii "error", boolText s.error),
    (ascii "co2", (Double s.co2).chars), (ascii "ah", (Double s.ah).chars), (ascii "rh", (Double s.rh).chars),
    (ascii "temp", (Double s.temp).chars)]

/-- What holds of every ASCII character but NUL, and of those of the readings, holds of the message's. -/
theorem forall_members {P : Byte → Prop} (hascii : ∀ b : Byte, b.toNat < 128 ∧ b ≠ 0 → P b)
    {Double : BitVec 32 → CString} {s : Status}
    (hDouble : ∀ bits ∈ s.readings, ∀ b ∈ (Double bits).chars, P b) :
    ∀ m ∈ s.members Double, (∀ b ∈ m.1, P b) ∧ ∀ b ∈ m.2, P b := by
  have hint : ∀ x, ∀ b ∈ intText x, P b := by
    intro x b hb
    rcases mem_intText hb with hdigit | rfl
    · have hb := of_decide_eq_true hdigit
      exact hascii b ⟨by omega, fun h => by rw [h] at hb; exact absurd hb (by decide)⟩
    · exact hascii 45 (by decide)
  have hword : ∀ w : Text, (w.all fun b => b.toNat < 128 ∧ b ≠ 0) = true → ∀ b ∈ w, P b := fun w hw b hb =>
    hascii b (of_decide_eq_true (List.all_eq_true.mp hw b hb))
  have hbool : ∀ x, ∀ b ∈ boolText x, P b := fun x => hword (boolText x) (by cases x <;> decide)
  simp only [readings, List.forall_mem_cons, List.not_mem_nil, false_imp_iff, implies_true, and_true] at hDouble
  obtain ⟨hco2, hah, hrh, htemp⟩ := hDouble
  simp only [members, List.forall_mem_cons, List.not_mem_nil, false_imp_iff, implies_true, and_true]
  exact ⟨⟨hword _ (by decide), hint _⟩, ⟨hword _ (by decide), hint _⟩, ⟨hword _ (by decide), hint _⟩,
    ⟨hword _ (by decide), hbool _⟩, ⟨hword _ (by decide), hbool _⟩, ⟨hword _ (by decide), hco2⟩,
    ⟨hword _ (by decide), hah⟩, ⟨hword _ (by decide), hrh⟩, ⟨hword _ (by decide), htemp⟩⟩

theorem zero_notMem_members (Double : BitVec 32 → CString) (s : Status) : (0 : Byte) ∉ objectText (s.members Double) :=
  fun h => Json.forall_objectText (P := (· ≠ 0)) (by decide)
    (forall_members (fun _ hb => hb.2) fun bits _ b hb he => (Double bits).no_nul (he ▸ hb)) 0 h rfl

/-- `jsonString`. Of the `Writer` it is taken as documented that it writes the members in the order of the calls and with
no blanks, integers in decimal and booleans as `true` and `false`; these names have nothing to escape. -/
def jsonString (Double : BitVec 32 → CString) (s : Status) : CString :=
  ⟨objectText (s.members Double), zero_notMem_members Double s⟩

end Status

namespace CommHandler

open Mqtt

/-- The name of a topic as the constructor sets it. -/
def topicName (topic_type : TopicType) : CString :=
  ⟨ascii (new.topics topic_type).1, by cases topic_type <;> decide⟩

/-- The packet that `publish` has the client build; the payload is the string with its NUL. -/
def publishPacket (topic_type : TopicType) (payload : CString) : Option (List Byte) :=
  MQTTSerialize_publish MAX_MQTT_PACKET_SIZE false .QOS0 false 0 (topicName topic_type) payload.bytes

/-- The packet of `send`. -/
def send (Double : BitVec 32 → CString) (s : Status) : Option (List Byte) :=
  publishPacket .DATA_TOPIC (s.jsonString Double)

end CommHandler

/-! ### When it fits -/

/-- The packet is built, in the client's buffer. -/
def Sendable (Double : BitVec 32 → CString) (s : Status) : Prop :=
  ∃ packet, CommHandler.send Double s = some packet ∧ packet.length ≤ Mqtt.MAX_MQTT_PACKET_SIZE

/-- The characters of the nine values. -/
def valuesLength (Double : BitVec 32 → CString) (s : Status) : ℕ :=
  ((s.members Double).map fun m => m.2.length).sum

variable {Double : BitVec 32 → CString} {s : Status}

/-- What surrounds them takes 78 more. -/
theorem strlen_jsonString (Double : BitVec 32 → CString) (s : Status) :
    (s.jsonString Double).strlen = valuesLength Double s + 78 := by
  have hkeys : ∀ ms : List (Text × Text), Json.sizes ms =
      (ms.map fun m => m.2.length).sum + ((ms.map Prod.fst).map fun key => key.length + 4).sum := by
    intro ms
    induction ms with
    | nil => rfl
    | cons m ms ih =>
      simp only [Json.sizes, List.map_cons, List.sum_cons] at ih ⊢
      omega
  have hmembers : ((s.members Double).map Prod.fst).map (fun key => key.length + 4) = [9, 12, 12, 8, 9, 7, 6, 6, 8] := rfl
  calc (s.jsonString Double).strlen = Json.sizes (s.members Double) + 1 := Json.length_objectText (List.cons_ne_nil _ _)
    _ = valuesLength Double s + 77 + 1 := by rw [hkeys, hmembers]; rfl
    _ = valuesLength Double s + 78 := rfl

/-- The packet is sent exactly if its length, with the topic and a fixed header around the text, is at most `sendbuf`'s. -/
theorem sendable_iff_len (Double : BitVec 32 → CString) (s : Status) :
    Sendable Double s ↔ Mqtt.MQTTPacket_len (valuesLength Double s + 103) ≤ 200 := by
  have hlen : Mqtt.MQTTSerialize_publishLength .QOS0 (CommHandler.topicName .DATA_TOPIC)
      (s.jsonString Double).bytes.length = valuesLength Double s + 103 := by
    rw [CString.length_bytes, strlen_jsonString]
    show 2 + 22 + (valuesLength Double s + 78 + 1) + 0 = valuesLength Double s + 103
    omega
  rw [← hlen]
  constructor
  · rintro ⟨packet, h, -⟩
    exact Mqtt.MQTTSerialize_publish_isSome_iff.mp ⟨packet, h⟩
  · intro h
    obtain ⟨packet, hpacket⟩ := Mqtt.MQTTSerialize_publish_isSome_iff.mpr h
    exact ⟨packet, hpacket, Mqtt.length_MQTTSerialize_publish hpacket (by decide)⟩

/-- Beyond 127 the remaining length takes a second byte, which leaves 94 for the values. -/
theorem packetLen_le_iff (n : ℕ) : Mqtt.MQTTPacket_len (n + 103) ≤ 200 ↔ n ≤ 94 := by
  simp only [Mqtt.MQTTPacket_len]
  split_ifs <;> omega

/-- **A status message can be sent exactly if the texts of its nine values have at most 94 characters.** -/
theorem send_fits_iff (Double : BitVec 32 → CString) (s : Status) : Sendable Double s ↔ valuesLength Double s ≤ 94 :=
  (sendable_iff_len Double s).trans (packetLen_le_iff _)

/-! ### Texts that are too long -/

/-- What `send` is called with: a share of the fan's speed, a target, a pressure that was measured, and readings. -/
structure Feasible (s : Status) : Prop where
  speed : 0 ≤ s.speed ∧ s.speed ≤ 100
  setpoint : 0 ≤ s.setpoint ∧ s.setpoint ≤ 120
  pressure : ∃ in0 in1, s.pressure = PressureRegister.get in0 in1
  finite : ∀ bits ∈ s.readings, (float32 bits).isSome

/-- What is assumed of `Writer::Double`: the text of a number is JSON's, and reads back as the same double. -/
structure WritesDoubles (Double : BitVec 32 → CString) : Prop where
  ascii : ∀ bits x, float32 bits = some x → ∀ b ∈ (Double bits).chars, b.toNat < 128
  reads : ∀ bits x, float32 bits = some x → Reads (Double bits).chars (.real (Double bits).chars)
  readsBack : ∀ bits x, float32 bits = some x → ReadsBack (Double bits).chars x

/-- The `float` closest to -0.1. -/
def minusTenth : BitVec 32 := 0xbdcccccd

/-- Its value, with the 53 bits of a `double`. -/
def tenth : ℚ := (-13421773 * 2 ^ 29 : ℤ) * 2 ^ (-56 : ℤ)

theorem float32_minusTenth : float32 minusTenth = some tenth := by
  have hs : significand minusTenth = -13421773 := by decide
  have hp : power minusTenth = -27 := by decide
  have hb : biased minusTenth ≠ 255 := by decide
  rw [float32, if_neg hb, hs, hp, tenth]
  norm_num

/-- No multiple of 10 ^ -16 is close enough to it. -/
theorem multiple_off (d : ℕ) {k : ℤ} (hk : -16 ≤ k) : (2 : ℚ) ^ (-56 : ℤ) / 2 < |-(d * 10 ^ k) - tenth| := by
  obtain ⟨j, rfl⟩ := Int.le.dest hk
  have hz : (d : ℚ) * 10 ^ (-16 + j : ℤ) * 10 ^ 16 = ((d * 10 ^ j : ℕ) : ℚ) := by
    rw [zpow_add₀ (by norm_num), zpow_natCast]
    push_cast
    norm_num
    ring
  have htenth : tenth = -0.100000001490116119384765625 := by norm_num [tenth]
  rw [htenth, lt_abs]
  norm_num
  generalize d * 10 ^ j = z at hz
  rcases Nat.lt_or_ge 1000000014901161 z with hlt | hge
  · have : (1000000014901162 : ℚ) ≤ z := by exact_mod_cast hlt
    right
    linarith
  · have : (z : ℚ) ≤ 1000000014901161 := by exact_mod_cast hge
    left
    linarith

/-- Nor is a number of 16 digits with a smaller unit. -/
theorem digits_off {d : ℕ} {k : ℤ} (hd : d ≤ 10 ^ 16) (hk : k ≤ -17) :
    (2 : ℚ) ^ (-56 : ℤ) / 2 < |-(d * 10 ^ k) - tenth| := by
  have hd' : (d : ℚ) ≤ 10 ^ 16 := by exact_mod_cast hd
  have hk' : (10 : ℚ) ^ k ≤ 10 ^ (-17 : ℤ) := zpow_le_zpow_right₀ (by norm_num) hk
  have hle : (d : ℚ) * 10 ^ k ≤ 10 ^ 16 * 10 ^ (-17 : ℤ) := mul_le_mul hd' hk' (zpow_pos (by norm_num) k).le (by positivity)
  have htenth : tenth = -0.100000001490116119384765625 := by norm_num [tenth]
  rw [htenth, lt_abs]
  norm_num at hle ⊢
  left
  linarith

/-- **A text that reads back as the `float` closest to -0.1 has 19 characters or more.** -/
theorem tenth_text {text : Text} (h : ReadsBack text tenth) : 19 ≤ text.length := by
  obtain ⟨q, hq, hclose⟩ := (readsBack_iff (by decide) (by decide) (by decide) (by decide)).mp h
  obtain ⟨l, d, n, k, hl, hd, hn, hk, hval⟩ := ratOf_digits hq
  by_contra hlen
  by_cases hsign : text.head? = some 45
  · rw [if_pos hsign] at hl hval
    rw [hval] at hclose
    have hl17 : l.length ≤ 17 := by
      rw [hl, List.length_tail]
      omega
    rcases le_or_gt (-16) k with hk16 | hk16
    · exact absurd hclose (multiple_off d hk16).not_ge
    · have hn16 : n ≤ 16 := by
        have := hk (by omega)
        omega
      have hd16 : d ≤ 10 ^ 16 := hd.le.trans (Nat.pow_le_pow_right (by decide) hn16)
      exact absurd hclose (digits_off hd16 (by omega)).not_ge
  · rw [if_neg hsign] at hval
    have hnonneg : 0 ≤ q := hval ▸ mul_nonneg (Nat.cast_nonneg d) (zpow_pos (by norm_num) k).le
    have hfar := (abs_le.mp hclose).2
    norm_num at hfar
    linarith

/-- Three integers and two words, and the readings. -/
theorem valuesLength_eq (Double : BitVec 32 → CString) (s : Status) : valuesLength Double s =
    (intText s.speed).length + (intText s.setpoint).length + (intText s.pressure).length +
    (boolText s.aut).length + (boolText s.error).length +
    (s.readings.map fun bits => (Double bits).strlen).sum := by
  simp only [valuesLength, Status.members, Status.readings, List.map_cons, List.map_nil, List.sum_cons, List.sum_nil,
    CString.strlen]
  omega

/-- **Readings of 18 characters can always be sent.** -/
theorem send_short (h : Feasible s) (hshort : ∀ bits ∈ s.readings, (Double bits).strlen ≤ 18) :
    Sendable Double s := by
  obtain ⟨⟨hspeed0, hspeed⟩, ⟨hset0, hset⟩, ⟨in0, in1, hpressure⟩, -⟩ := h
  have hp := FAN.get_bounds in0 in1
  rw [← hpressure] at hp
  have h1 := (length_intText_le_iff s.speed (k := 2) (by decide)).mpr (by omega)
  have h2 := (length_intText_le_iff s.setpoint (k := 2) (by decide)).mpr (by omega)
  have h3 := (length_intText_le_iff s.pressure (k := 3) (by decide)).mpr (by omega)
  have hbool : ∀ b, (boolText b).length ≤ 5 := by decide
  have h4 := hbool s.aut
  have h5 := hbool s.error
  simp only [Status.readings, List.forall_mem_cons, List.not_mem_nil, false_imp_iff, implies_true, and_true] at hshort
  obtain ⟨h6, h7, h8, h9⟩ := hshort
  rw [sendable_iff_len, packetLen_le_iff, valuesLength_eq]
  simp only [Status.readings, List.map_cons, List.map_nil, List.sum_cons, List.sum_nil]
  omega

/-- A writer that writes one number as `text`, and any other one exactly. -/
def writtenAs (number : BitVec 32) (text : CString) (bits : BitVec 32) : CString :=
  if bits = number then text
  else ⟨dyadicText (significand bits) (power bits), fun h => absurd (mem_dyadicText h) (by decide)⟩

theorem writesDoubles_writtenAs {number : BitVec 32} {text : CString} (hascii : ∀ b ∈ text.chars, b.toNat < 128)
    (hreads : Reads text.chars (.real text.chars)) (hback : ∀ x, float32 number = some x → ReadsBack text.chars x) :
    WritesDoubles (writtenAs number text) := by
  refine ⟨fun bits x h => ?_, fun bits x h => ?_, fun bits x h => ?_⟩
  · unfold writtenAs
    split
    · exact hascii
    · intro b hb
      rcases mem_dyadicText hb with hdigit | rfl | rfl
      · have := of_decide_eq_true hdigit
        omega
      · decide
      · decide
  · unfold writtenAs
    split
    · exact hreads
    · show Reads (dyadicText _ _) (.real (dyadicText _ _))
      unfold dyadicText
      split
      · exact Json.reads_exponent _ _
      · exact Json.reads_exponent _ _
  · unfold writtenAs
    split
    · rename_i hbits
      exact hback x (hbits ▸ h)
    · exact readsBack_dyadicText h

/-- A fan that blows at full speed against the wrong pressure, and four readings of -0.1. -/
def coldStatus : Status := ⟨100, 120, -129, false, false, minusTenth, minusTenth, minusTenth, minusTenth⟩

/-- A text that reads back as that reading. -/
def tenthText : CString := ⟨ascii "-0.10000000149011612", by decide⟩

theorem readsBack_tenthText : ReadsBack tenthText.chars tenth := by
  refine (readsBack_iff (by decide) (by decide) (by decide) (by decide)).mpr ⟨-0.10000000149011612, ?_, ?_⟩
  · have hvalue : Python.ratOf tenthText.chars = some (-(10000000149011612 * 10 ^ (-17 : ℤ)) : ℚ) := by decide +kernel
    rw [hvalue]
    norm_num
  · norm_num [abs_le]

/-- **That message is dropped**, whatever writes the readings so that they read back. -/
theorem cold_status_dropped : Feasible coldStatus ∧
    (∃ Double, WritesDoubles Double ∧ Double minusTenth = tenthText) ∧
    ∀ Double, WritesDoubles Double → ¬ Sendable Double coldStatus := by
  refine ⟨⟨by decide, by decide, ⟨0x80, 0, by decide⟩, ?_⟩, ?_, ?_⟩
  · have hsome : (float32 minusTenth).isSome := Option.isSome_iff_exists.mpr ⟨tenth, float32_minusTenth⟩
    simp only [coldStatus, Status.readings, List.forall_mem_cons, List.not_mem_nil, false_imp_iff, implies_true, and_true]
    exact ⟨hsome, hsome, hsome, hsome⟩
  · refine ⟨writtenAs minusTenth tenthText, writesDoubles_writtenAs (by decide) ?_ fun x h => ?_, if_pos rfl⟩
    · have hds : ∀ c ∈ ascii "0000000149011612", isDigit c = true := by decide
      exact Json.reads_fraction true 0 (by decide : isDigit 49 = true) hds
    · rw [float32_minusTenth] at h
      obtain rfl := Option.some.inj h
      exact readsBack_tenthText
  · intro Double hDouble
    have hlen := tenth_text (hDouble.readsBack minusTenth tenth float32_minusTenth)
    have hvalues : valuesLength Double coldStatus = 20 + 4 * (Double minusTenth).chars.length := by
      rw [valuesLength_eq]
      show 20 + ((Double minusTenth).chars.length + ((Double minusTenth).chars.length +
        ((Double minusTenth).chars.length + ((Double minusTenth).chars.length + 0)))) = _
      omega
    rw [sendable_iff_len, packetLen_le_iff, hvalues]
    omega

end Ventilation
