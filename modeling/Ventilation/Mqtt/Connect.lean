/-
# CONNECT and CONNACK (MQTTConnectClient.c, MQTTConnectServer.c)

A CONNECT of version 3 or 4 fits into the buffer that it was measured for, and one of any other version does
not (`connect_fits_iff`). It is read back with all its options exactly if no password comes without a
user name and the last of the two is not empty (`connect_round_trip`): what is read before each is compared with three bytes,
not with two.
-/
import Ventilation.Mqtt.Subscribe

namespace Ventilation
namespace Mqtt

open Wire

/-! ### The options -/

/-- With the strings that are written, or those that are read. -/
structure MQTTPacket_willOptions (S : Type) where
  topicName : S
  message : S
  retained : Bool
  qos : ℕ

structure MQTTPacket_connectData (S : Type) where
  MQTTVersion : ℕ
  clientID : S
  keepAliveInterval : ℕ
  cleansession : Bool
  willFlag : Bool
  will : MQTTPacket_willOptions S
  username : S
  password : S

/-- As `CommHandler` leaves it. -/
def connect_data : MQTTPacket_connectData MQTTString :=
  ⟨4, .cstring ⟨CString.literal "VSP", by decide +kernel⟩, 60, true, false, ⟨.null, .null, false, 0⟩, .null, .null⟩

/-- `MQTTConnectFlags`. -/
def MQTTConnectFlags (cleansession will : Bool) (willQoS : ℕ) (willRetain password username : Bool) : Byte :=
  .ofNat 8 (cleansession.toNat * 2 + will.toNat * 4 + willQoS % 4 * 8 + willRetain.toNat * 32 + password.toNat * 64 +
    username.toNat * 128)

namespace MQTTConnectFlags

def cleansession (all : Byte) : Bool := all.toNat / 2 % 2 = 1

def will (all : Byte) : Bool := all.toNat / 4 % 2 = 1

def willQoS (all : Byte) : ℕ := all.toNat / 8 % 4

def willRetain (all : Byte) : Bool := all.toNat / 32 % 2 = 1

def password (all : Byte) : Bool := all.toNat / 64 % 2 = 1

def username (all : Byte) : Bool := all.toNat / 128 % 2 = 1

end MQTTConnectFlags

/-! ### Writing -/

def CONNECT : ℕ := 1

def MQTTSerialize_connectLength (options : MQTTPacket_connectData MQTTString) : ℕ :=
  let len := if options.MQTTVersion = 3 then 12 else if options.MQTTVersion = 4 then 10 else 0
  let len := len + (MQTTstrlen options.clientID + 2)
  let len := if options.willFlag then
    len + (MQTTstrlen options.will.topicName + 2 + MQTTstrlen options.will.message + 2) else len
  let len := if options.username.isSet then len + (MQTTstrlen options.username + 2) else len
  if options.password.isSet then len + (MQTTstrlen options.password + 2) else len

/-- The name of the protocol, and its version. -/
def protocol (MQTTVersion : ℕ) : CString × Byte :=
  if MQTTVersion = 4 then (⟨CString.literal "MQTT", by decide +kernel⟩, 4) else (⟨CString.literal "MQIsdp", by decide +kernel⟩, 3)

def protocolBytes (MQTTVersion : ℕ) : List Byte :=
  writeCString (protocol MQTTVersion).1 ++ [(protocol MQTTVersion).2]

/-- The flags of a will are set with it only. -/
def connectFlags (options : MQTTPacket_connectData MQTTString) : Byte :=
  MQTTConnectFlags options.cleansession options.willFlag (if options.willFlag then options.will.qos else 0)
    (options.willFlag && options.will.retained) options.password.isSet options.username.isSet

def credentialsBytes (options : MQTTPacket_connectData MQTTString) : List Byte :=
  (if options.username.isSet then writeMQTTString options.username else []) ++
    if options.password.isSet then writeMQTTString options.password else []

def willBytes (options : MQTTPacket_connectData MQTTString) : List Byte :=
  if options.willFlag then writeMQTTString options.will.topicName ++ writeMQTTString options.will.message else []

/-- What stands behind the flags. -/
def connectBody (options : MQTTPacket_connectData MQTTString) : List Byte :=
  writeInt options.keepAliveInterval ++ (writeMQTTString options.clientID ++ (willBytes options ++ credentialsBytes options))

/-- The bytes that are written; `none` is `MQTTPACKET_BUFFER_TOO_SHORT`. -/
def MQTTSerialize_connect (buflen : ℕ) (options : MQTTPacket_connectData MQTTString) : Option (List Byte) :=
  let len := MQTTSerialize_connectLength options
  if buflen < MQTTPacket_len len then none
  else some (MQTTHeader CONNECT false .QOS0 false :: (MQTTPacket_encode len ++
    (protocolBytes options.MQTTVersion ++ connectFlags options :: connectBody options)))

/-! ### Reading -/

/-- `memcmp` with as many bytes as the name has, if it is shorter. -/
def MQTTPacket_checkVersion (protocol : List Byte) (version : ℕ) : Bool :=
  if version = 3 then protocol.take 6 = (CString.literal "MQIsdp").take protocol.length
  else version = 4 && protocol.take 4 = (CString.literal "MQTT").take protocol.length

abbrev ConnectRead := Reader Byte (ℕ × MQTTPacket_connectData MQTTLenString)

def readPassword (data : MQTTPacket_connectData MQTTLenString) (enddata : ℤ) : ConnectRead := do
  if (← Reader.ahead enddata) < 3 then return (0, data)
  let (password, read) ← readMQTTLenString enddata
  return (if read then 1 else 0, { data with password })

def readCredentials (data : MQTTPacket_connectData MQTTLenString) (flags : Byte) (enddata : ℤ) : ConnectRead := do
  if MQTTConnectFlags.username flags then
    if (← Reader.ahead enddata) < 3 then return (0, data)
    let (username, read) ← readMQTTLenString enddata
    let data := { data with username }
    if read then
      if MQTTConnectFlags.password flags then readPassword data enddata else return (1, data)
    else return (0, data)
  else return (if MQTTConnectFlags.password flags then 0 else 1, data)

def readWill (data : MQTTPacket_connectData MQTTLenString) (flags : Byte) (enddata : ℤ) : ConnectRead := do
  let data := { data with willFlag := MQTTConnectFlags.will flags }
  if MQTTConnectFlags.will flags then
    let will := { data.will with qos := MQTTConnectFlags.willQoS flags, retained := MQTTConnectFlags.willRetain flags }
    let (topicName, read) ← readMQTTLenString enddata
    if read then
      let (message, read) ← readMQTTLenString enddata
      let data := { data with will := { will with topicName, message } }
      if read then readCredentials data flags enddata else return (0, data)
    else return (0, { data with will := { will with topicName } })
  else readCredentials data flags enddata

/-- Behind the version. -/
def readOptions (data : MQTTPacket_connectData MQTTLenString) (enddata : ℤ) : ConnectRead := do
  let flags ← readChar
  let keepAliveInterval ← readInt
  let (clientID, read) ← readMQTTLenString enddata
  let data := { data with cleansession := MQTTConnectFlags.cleansession flags, keepAliveInterval, clientID }
  if read then readWill data flags enddata else return (0, data)

/-- `enddata` is the end of the buffer; the remaining length is not compared with anything. -/
def MQTTDeserialize_connect (data : MQTTPacket_connectData MQTTLenString) (len : ℕ) : ConnectRead := do
  let enddata ← position len
  let byte ← readChar
  if MQTTHeader.type byte = CONNECT then
    let _ ← skipLength
    let (Protocol, read) ← readMQTTLenString enddata
    if (← Reader.ahead enddata) < 0 ∨ read = false then return (0, data)
    let version ← readChar
    if MQTTPacket_checkVersion (Protocol.data.getD []) version.toNat then readOptions data enddata else return (0, data)
  else return (0, data)

/-! ### The flags -/

section Flags

variable (cleansession will : Bool) (willQoS : ℕ) (willRetain password username : Bool)

theorem toNat_MQTTConnectFlags : (MQTTConnectFlags cleansession will willQoS willRetain password username).toNat =
    cleansession.toNat * 2 + will.toNat * 4 + willQoS % 4 * 8 + willRetain.toNat * 32 + password.toNat * 64 +
      username.toNat * 128 := by
  have h1 := cleansession.toNat_le
  have h2 := will.toNat_le
  have h3 := willRetain.toNat_le
  have h4 := password.toNat_le
  have h5 := username.toNat_le
  rw [MQTTConnectFlags, BitVec.toNat_ofNat, Nat.mod_eq_of_lt (by omega)]

theorem decide_toNat (b : Bool) {n : ℕ} (h : n = b.toNat) : decide (n = 1) = b := by
  subst h
  cases b <;> rfl

/-- Every flag is read back, and the QoS with its two bits. -/
theorem flags_MQTTConnectFlags :
    let all := MQTTConnectFlags cleansession will willQoS willRetain password username
    MQTTConnectFlags.cleansession all = cleansession ∧ MQTTConnectFlags.will all = will ∧
    MQTTConnectFlags.willQoS all = willQoS % 4 ∧ MQTTConnectFlags.willRetain all = willRetain ∧
    MQTTConnectFlags.password all = password ∧ MQTTConnectFlags.username all = username := by
  have h1 := cleansession.toNat_le
  have h2 := will.toNat_le
  have h3 := willRetain.toNat_le
  have h4 := password.toNat_le
  have h5 := username.toNat_le
  have hall := toNat_MQTTConnectFlags cleansession will willQoS willRetain password username
  refine ⟨decide_toNat _ ?_, decide_toNat _ ?_, ?_, decide_toNat _ ?_, decide_toNat _ ?_, decide_toNat _ ?_⟩
  · rw [hall]
    omega
  · rw [hall]
    omega
  · rw [MQTTConnectFlags.willQoS, hall]
    omega
  · rw [hall]
    omega
  · rw [hall]
    omega
  · rw [hall]
    omega

end Flags

/-! ### Reading back -/

/-- A string as it is read. -/
def MQTTString.asRead (s : MQTTString) : MQTTLenString := ⟨s.text.length, some s.text⟩

/-- No password comes without a user name, and the last of the two is not empty. -/
structure Acceptable (options : MQTTPacket_connectData MQTTString) : Prop where
  password : options.password.isSet = true → options.username.isSet = true ∧ options.password.text ≠ []
  username : options.username.isSet = true → options.password.isSet = true ∨ options.username.text ≠ []

/-- What is set of `data`. -/
def received (data : MQTTPacket_connectData MQTTLenString) (options : MQTTPacket_connectData MQTTString) :
    MQTTPacket_connectData MQTTLenString where
  MQTTVersion := data.MQTTVersion
  clientID := options.clientID.asRead
  keepAliveInterval := options.keepAliveInterval
  cleansession := options.cleansession
  willFlag := options.willFlag
  will := if options.willFlag then
    ⟨options.will.topicName.asRead, options.will.message.asRead, options.will.retained, options.will.qos % 4⟩ else data.will
  username := if options.username.isSet then options.username.asRead else data.username
  password := if options.password.isSet then options.password.asRead else data.password

/-- The strings have room for their lengths. -/
structure Writable (options : MQTTPacket_connectData MQTTString) : Prop where
  clientID : MQTTstrlen options.clientID < 2 ^ 16
  topicName : MQTTstrlen options.will.topicName < 2 ^ 16
  message : MQTTstrlen options.will.message < 2 ^ 16
  username : MQTTstrlen options.username < 2 ^ 16
  password : MQTTstrlen options.password < 2 ^ 16
  keepAliveInterval : options.keepAliveInterval < 2 ^ 16

/-- The reader returns 1 exactly if `A`, with `data` and everything up to `rest` read. -/
def Comes (r : ConnectRead) (buf rest : List Byte) (A : Prop) (data : MQTTPacket_connectData MQTTLenString) : Prop :=
  ∃ rc d left, r buf = some ((rc, d), left) ∧ (rc = 1 ↔ A) ∧ (A → d = data ∧ left = rest)

section Steps

variable {rest tail : List Byte} {A : Prop} {data : MQTTPacket_connectData MQTTLenString}

theorem Comes.consumes {α : Type} {r : Reader Byte α} {f : α → ConnectRead} {bs tail : List Byte} {a : α}
    (h : Comes (f a) tail rest A data) (hr : Consumes r tail bs a) : Comes (r >>= f) (bs ++ tail) rest A data := by
  obtain ⟨rc, d, left, hread, hrc, hd⟩ := h
  exact ⟨rc, d, left, (hr.bind_apply f).trans hread, hrc, hd⟩

/-- A string, before anything that ends where the packet does. -/
theorem Comes.string {s : MQTTString} (hs : MQTTstrlen s < 2 ^ 16) {f : MQTTLenString × Bool → ConnectRead} {buf : List Byte}
    (hbuf : buf = tail ++ rest) (h : Comes (f (s.asRead, true)) buf rest A data) :
    Comes (readMQTTLenString rest.length >>= f) (writeMQTTString s ++ buf) rest A data := by
  subst hbuf
  exact h.consumes (consumes_string hs tail rest)

/-- What looks how far the end is. -/
theorem Comes.ahead {f : ℤ → ConnectRead} {stop : ℤ} {buf : List Byte} (h : Comes (f (buf.length - stop)) buf rest A data) :
    Comes (Reader.ahead stop >>= f) buf rest A data := h

theorem Comes.position {f : ℤ → ConnectRead} {len : ℕ} {buf : List Byte} (h : Comes (f (buf.length - len)) buf rest A data) :
    Comes (position len >>= f) buf rest A data := h

theorem comes_done (data : MQTTPacket_connectData MQTTLenString) (rest : List Byte) (hA : A) :
    Comes (pure (1, data)) rest rest A data :=
  ⟨1, data, rest, rfl, iff_of_true rfl hA, fun _ => ⟨rfl, rfl⟩⟩

theorem comes_fail {d : MQTTPacket_connectData MQTTLenString} (buf : List Byte) (hA : ¬ A) :
    Comes (pure (0, d)) buf rest A data :=
  ⟨0, d, buf, rfl, iff_of_false Nat.zero_ne_one hA, fun h => absurd h hA⟩

/-- How far the end is, before a string. -/
theorem ahead_string (s : MQTTString) (tail rest : List Byte) :
    ((writeMQTTString s ++ (tail ++ rest)).length : ℤ) - rest.length = 2 + s.text.length + tail.length := by
  rw [List.length_append, List.length_append, length_writeMQTTString, MQTTstrlen_eq]
  push_cast
  omega

/-- The password. -/
theorem comes_readPassword {s : MQTTString} (hs : MQTTstrlen s < 2 ^ 16) (hA : A ↔ s.text ≠ []) :
    Comes (readPassword data rest.length) (writeMQTTString s ++ rest) rest A { data with password := s.asRead } := by
  have hahead := ahead_string s [] rest
  rw [List.nil_append, List.length_nil] at hahead
  unfold readPassword
  refine Comes.ahead ?_
  rw [hahead]
  by_cases hempty : s.text = []
  · rw [if_pos (by rw [hempty]; decide)]
    exact comes_fail _ fun h => hA.mp h hempty
  · have hlen := List.length_pos_iff.mpr hempty
    rw [if_neg (by push_cast; omega)]
    exact Comes.string hs (List.nil_append rest).symm (comes_done _ _ (hA.mpr hempty))

/-- The credentials, up to the end. -/
theorem comes_readCredentials {options : MQTTPacket_connectData MQTTString} (hw : Writable options) {flags : Byte}
    (hpassword : MQTTConnectFlags.password flags = options.password.isSet)
    (husername : MQTTConnectFlags.username flags = options.username.isSet) :
    Comes (readCredentials data flags rest.length) (credentialsBytes options ++ rest) rest (Acceptable options)
      { data with
        username := if options.username.isSet then options.username.asRead else data.username
        password := if options.password.isSet then options.password.asRead else data.password } := by
  unfold readCredentials credentialsBytes
  rw [hpassword, husername]
  cases hu : options.username.isSet with
  | false =>
    cases hp : options.password.isSet with
    | false =>
      have hA : Acceptable options := ⟨fun h => (Bool.false_ne_true (hp.symm.trans h)).elim,
        fun h => (Bool.false_ne_true (hu.symm.trans h)).elim⟩
      exact comes_done data rest hA
    | true =>
      have hA : ¬ Acceptable options := fun h => Bool.false_ne_true (hu.symm.trans (h.password hp).1)
      exact comes_fail _ hA
  | true =>
    rw [if_pos rfl, if_pos rfl, if_pos rfl]
    refine Comes.ahead ?_
    cases hp : options.password.isSet with
    | false =>
      have hA : Acceptable options ↔ options.username.text ≠ [] :=
        ⟨fun h => (h.username hu).resolve_left (by rw [hp]; exact Bool.false_ne_true),
          fun h => ⟨fun hset => (Bool.false_ne_true (hp.symm.trans hset)).elim, fun _ => Or.inr h⟩⟩
      have hahead := ahead_string options.username [] rest
      rw [List.nil_append, List.length_nil] at hahead
      rw [if_neg Bool.false_ne_true, if_neg Bool.false_ne_true, List.append_nil, hahead]
      by_cases hempty : options.username.text = []
      · rw [if_pos (by rw [hempty]; decide)]
        exact comes_fail _ fun h => hA.mp h hempty
      · have hlen := List.length_pos_iff.mpr hempty
        rw [if_neg (by push_cast; omega)]
        exact Comes.string hw.username (List.nil_append rest).symm (comes_done _ _ (hA.mpr hempty))
    | true =>
      have hA : Acceptable options ↔ options.password.text ≠ [] :=
        ⟨fun h => (h.password hp).2, fun h => ⟨fun _ => ⟨hu, h⟩, fun _ => Or.inl hp⟩⟩
      have hahead := ahead_string options.username (writeMQTTString options.password) rest
      rw [length_writeMQTTString] at hahead
      rw [if_pos rfl, if_pos rfl, List.append_assoc, hahead, if_neg (by push_cast; omega)]
      exact Comes.string hw.username rfl (comes_readPassword hw.password hA)

/-- The will and what follows it. -/
theorem comes_readWill {options : MQTTPacket_connectData MQTTString} (hw : Writable options) :
    Comes (readWill data (connectFlags options) rest.length) (willBytes options ++ (credentialsBytes options ++ rest)) rest
      (Acceptable options)
      { data with
        willFlag := options.willFlag
        will := if options.willFlag then
          ⟨options.will.topicName.asRead, options.will.message.asRead, options.will.retained, options.will.qos % 4⟩ else data.will
        username := if options.username.isSet then options.username.asRead else data.username
        password := if options.password.isSet then options.password.asRead else data.password } := by
  obtain ⟨-, hwill, hqos, hretain, hpassword, husername⟩ := flags_MQTTConnectFlags options.cleansession options.willFlag
    (if options.willFlag then options.will.qos else 0) (options.willFlag && options.will.retained)
    options.password.isSet options.username.isSet
  rw [← connectFlags] at hwill hqos hretain hpassword husername
  unfold readWill willBytes
  rw [hwill, hqos, hretain]
  cases hflag : options.willFlag with
  | false =>
    rw [if_neg Bool.false_ne_true, if_neg Bool.false_ne_true]
    exact comes_readCredentials hw hpassword husername
  | true =>
    rw [if_pos rfl, if_pos rfl, if_pos rfl, List.append_assoc]
    refine Comes.string hw.topicName (List.append_assoc _ _ rest).symm ?_
    exact Comes.string hw.message rfl (comes_readCredentials hw hpassword husername)

/-- All behind the version. -/
theorem comes_readOptions {options : MQTTPacket_connectData MQTTString} (hw : Writable options) :
    Comes (readOptions data rest.length) (connectFlags options :: (connectBody options ++ rest)) rest (Acceptable options)
      (received data options) := by
  have hclean := (flags_MQTTConnectFlags options.cleansession options.willFlag
    (if options.willFlag then options.will.qos else 0) (options.willFlag && options.will.retained)
    options.password.isSet options.username.isSet).1
  rw [← connectFlags] at hclean
  unfold readOptions connectBody
  rw [List.append_assoc, List.append_assoc, List.append_assoc]
  refine @Comes.consumes _ _ _ _ _ _ [connectFlags options] _ _ ?_ (consumes_next _ _)
  refine Comes.consumes ?_ (consumes_readInt hw.keepAliveInterval _)
  refine Comes.string hw.clientID (List.append_assoc _ _ rest).symm ?_
  rw [hclean]
  exact comes_readWill hw

end Steps

/-- How long the packet behind its remaining length is. -/
theorem length_connect (options : MQTTPacket_connectData MQTTString) :
    (protocolBytes options.MQTTVersion ++ connectFlags options :: connectBody options).length =
      MQTTSerialize_connectLength options + if options.MQTTVersion = 3 ∨ options.MQTTVersion = 4 then 0 else 12 := by
  have hprotocol : (protocolBytes options.MQTTVersion).length = if options.MQTTVersion = 4 then 7 else 9 := by
    unfold protocolBytes protocol
    split <;> decide +kernel
  rw [List.length_append, hprotocol, List.length_cons]
  simp only [connectBody, willBytes, credentialsBytes, MQTTSerialize_connectLength, List.length_append, length_writeInt,
    length_writeMQTTString]
  split_ifs <;> simp_all [length_writeMQTTString] <;> omega

/-- The name that is written with a version is the one that is asked for. -/
theorem checkVersion_protocol (MQTTVersion : ℕ) :
    MQTTPacket_checkVersion (protocol MQTTVersion).1.chars (protocol MQTTVersion).2.toNat = true := by
  unfold protocol
  split <;> decide +kernel

/-- The bytes of a packet with these options. -/
def connectPacket (options : MQTTPacket_connectData MQTTString) : List Byte :=
  MQTTHeader CONNECT false .QOS0 false :: (MQTTPacket_encode (MQTTSerialize_connectLength options) ++
    (protocolBytes options.MQTTVersion ++ connectFlags options :: connectBody options))

theorem comes_connect {options : MQTTPacket_connectData MQTTString} (hw : Writable options)
    (hlen : MQTTSerialize_connectLength options < 2 ^ 28) (data : MQTTPacket_connectData MQTTLenString) (rest : List Byte) :
    Comes (MQTTDeserialize_connect data (connectPacket options).length) (connectPacket options ++ rest) rest
      (Acceptable options) (received data options) := by
  have hend : ((connectPacket options ++ rest).length : ℤ) - (connectPacket options).length = rest.length := by
    rw [List.length_append]
    push_cast
    omega
  have hbuffer : connectPacket options ++ rest = [MQTTHeader CONNECT false .QOS0 false] ++
      (MQTTPacket_encode (MQTTSerialize_connectLength options) ++
        (writeMQTTString (.cstring (protocol options.MQTTVersion).1) ++ ([(protocol options.MQTTVersion).2] ++
          (connectFlags options :: (connectBody options ++ rest))))) := by
    rw [connectPacket, protocolBytes]
    simp [writeMQTTString]
  have hprotocol : MQTTstrlen (.cstring (protocol options.MQTTVersion).1) < 2 ^ 16 := by
    unfold protocol
    split <;> decide +kernel
  have htail : [(protocol options.MQTTVersion).2] ++ (connectFlags options :: (connectBody options ++ rest)) =
      [(protocol options.MQTTVersion).2] ++ connectFlags options :: connectBody options ++ rest := by
    simp
  unfold MQTTDeserialize_connect
  refine Comes.position ?_
  rw [hend, hbuffer]
  refine Comes.consumes ?_ (consumes_next _ _)
  rw [type_MQTTHeader (by decide), if_pos rfl]
  refine Comes.consumes ?_ (consumes_skipLength hlen _)
  refine Comes.string hprotocol htail ?_
  refine Comes.ahead ?_
  have hahead : ¬ (([(protocol options.MQTTVersion).2] ++ (connectFlags options :: (connectBody options ++ rest))).length : ℤ) -
      rest.length < 0 := by
    rw [htail]
    simp only [List.length_append]
    push_cast
    omega
  rw [if_neg (not_or.mpr ⟨hahead, Bool.noConfusion⟩)]
  refine Comes.consumes ?_ (consumes_next _ _)
  have hversion : MQTTPacket_checkVersion ((MQTTString.cstring (protocol options.MQTTVersion).1).asRead.data.getD [])
      (protocol options.MQTTVersion).2.toNat = true := checkVersion_protocol options.MQTTVersion
  rw [if_pos hversion]
  exact comes_readOptions hw

/-- **A CONNECT is read back with all its options**, exactly if its credentials are acceptable. -/
theorem connect_round_trip {buflen : ℕ} {options : MQTTPacket_connectData MQTTString} {packet : List Byte}
    (hbuf : buflen ≤ 2 ^ 28) (hw : Writable options) (h : MQTTSerialize_connect buflen options = some packet)
    (data : MQTTPacket_connectData MQTTLenString) (rest : List Byte) : ∃ rc d left,
    MQTTDeserialize_connect data packet.length (packet ++ rest) = some ((rc, d), left) ∧
      (rc = 1 ↔ Acceptable options) ∧ (Acceptable options → d = received data options ∧ left = rest) := by
  simp only [MQTTSerialize_connect, Option.ite_none_left_eq_some, Option.some.injEq] at h
  obtain ⟨hfits, rfl⟩ := h
  exact comes_connect hw ((lt_MQTTPacket_len _).trans_le ((Nat.le_of_not_lt hfits).trans hbuf)) data rest

theorem connect_round_trip_data : ∃ data packet left,
    MQTTSerialize_connect MAX_MQTT_PACKET_SIZE connect_data = some packet ∧
    MQTTDeserialize_connect data packet.length (packet ++ []) = some ((1, received data connect_data), left) := by
  obtain ⟨packet, h⟩ := Option.isSome_iff_exists.mp
    (by decide +kernel : (MQTTSerialize_connect MAX_MQTT_PACKET_SIZE connect_data).isSome = true)
  have hw : Writable connect_data :=
    ⟨by decide +kernel, by decide +kernel, by decide +kernel, by decide +kernel, by decide +kernel, by decide⟩
  obtain ⟨rc, d, left, hread, hrc, hd⟩ := connect_round_trip (by decide) hw h
    ⟨4, ⟨0, none⟩, 60, true, false, ⟨⟨0, none⟩, ⟨0, none⟩, false, 0⟩, ⟨0, none⟩, ⟨0, none⟩⟩ []
  have hacceptable : Acceptable connect_data := ⟨fun h => Bool.noConfusion h, fun h => Bool.noConfusion h⟩
  obtain rfl := hrc.mpr hacceptable
  obtain ⟨rfl, rfl⟩ := hd hacceptable
  exact ⟨_, packet, [], h, hread⟩

/-- The remaining length says how much follows only for the two versions, and only they keep inside the buffer that is
measured for it. -/
theorem connect_fits_iff {options : MQTTPacket_connectData MQTTString} (hlen : MQTTSerialize_connectLength options < 2 ^ 28) :
    (∀ buflen packet, MQTTSerialize_connect buflen options = some packet → packet.length ≤ buflen) ↔
      options.MQTTVersion = 3 ∨ options.MQTTVersion = 4 := by
  have hlength : (connectPacket options).length = 1 + encodedLength (MQTTSerialize_connectLength options) +
      (MQTTSerialize_connectLength options + if options.MQTTVersion = 3 ∨ options.MQTTVersion = 4 then 0 else 12) := by
    rw [connectPacket, List.length_cons, List.length_append, length_MQTTPacket_encode hlen, length_connect]
    omega
  constructor
  · intro hall
    by_contra hversion
    have hpacket := hall (MQTTPacket_len (MQTTSerialize_connectLength options)) (connectPacket options)
      (if_neg (Nat.lt_irrefl _))
    rw [hlength, if_neg hversion] at hpacket
    unfold MQTTPacket_len encodedLength at hpacket
    dsimp only at hpacket
    split_ifs at hpacket <;> omega
  · intro hversion buflen packet h
    simp only [MQTTSerialize_connect, Option.ite_none_left_eq_some, Option.some.injEq] at h
    obtain ⟨hfits, rfl⟩ := h
    have hle := (length_le_MQTTPacket_len hlen).trans (Nat.le_of_not_lt hfits)
    rw [← connectPacket, hlength, if_pos hversion]
    omega

theorem connect_fits_iff_data : ∃ packet, MQTTSerialize_connect MAX_MQTT_PACKET_SIZE connect_data = some packet ∧
    packet.length ≤ MAX_MQTT_PACKET_SIZE := by
  obtain ⟨packet, h⟩ := Option.isSome_iff_exists.mp
    (by decide +kernel : (MQTTSerialize_connect MAX_MQTT_PACKET_SIZE connect_data).isSome = true)
  exact ⟨packet, h, (connect_fits_iff (by decide +kernel)).mpr (.inr rfl) _ packet h⟩

/-! ### CONNACK -/

def CONNACK : ℕ := 2

/-- The value returned, and what is set: `sessionPresent` and the code. -/
def MQTTDeserialize_connack : Reader Byte (ℕ × Option (Bool × ℕ)) := do
  let byte ← readChar
  if MQTTHeader.type byte = CONNACK then
    let (rc, mylen) ← skipLength
    let enddata ← position mylen
    if (← Reader.ahead enddata) < 2 then return (rc, none)
    let flags ← readChar
    let connack_rc ← readChar
    return (1, some (flags.toNat % 2 = 1, connack_rc.toNat))
  else return (0, none)

section Connack

variable {byte : Byte} (hbyte : MQTTHeader.type byte = CONNACK) (rest : List Byte)
include hbyte

end Connack

end Mqtt
end Ventilation
