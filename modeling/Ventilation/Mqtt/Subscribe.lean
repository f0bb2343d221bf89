/-
# SUBSCRIBE, UNSUBSCRIBE and SUBACK (MQTTSubscribeClient.c, MQTTSubscribeServer.c, MQTTUnsubscribe*.c)

What one side serializes the other reads back, for any list of topics (`subscribe_round_trip`,
`unsubscribe_round_trip`) or of codes (`suback_round_trip`). The three readers differ where there are more items
than their arrays hold: one stops there, one does not look, and one looks too late; both of these write behind the array.
-/
import Ventilation.Mqtt.Publish

namespace Ventilation
namespace Mqtt

open Wire

/-! ### The code -/

def SUBSCRIBE : ℕ := 8

def SUBACK : ℕ := 9

def UNSUBSCRIBE : ℕ := 10

def writeCode (code : ℕ) : List Byte := [.ofNat 8 code]

/-- A turn of the loop of `MQTTSerialize_subscribe`; the arrays `topicFilters` and `requestedQoSs` are one list. -/
def writeRequest (r : MQTTString × ℕ) : List Byte := writeMQTTString r.1 ++ writeCode r.2

def MQTTSerialize_subscribeLength (requests : List (MQTTString × ℕ)) : ℕ :=
  requests.foldl (fun len r => len + (2 + MQTTstrlen r.1 + 1)) 2

/-- `none` is `MQTTPACKET_BUFFER_TOO_SHORT`. -/
def MQTTSerialize_subscribe (buflen : ℕ) (dup : Bool) (packetid : ℕ) (requests : List (MQTTString × ℕ)) :
    Option (List Byte) :=
  let rem_len := MQTTSerialize_subscribeLength requests
  if buflen < MQTTPacket_len rem_len then none
  else some (MQTTHeader SUBSCRIBE dup .QOS1 false :: (MQTTPacket_encode rem_len ++ (writeInt packetid ++
    requests.flatMap writeRequest)))

def MQTTSerialize_unsubscribeLength (topicFilters : List MQTTString) : ℕ :=
  topicFilters.foldl (fun len t => len + (2 + MQTTstrlen t)) 2

def MQTTSerialize_unsubscribe (buflen : ℕ) (dup : Bool) (packetid : ℕ) (topicFilters : List MQTTString) :
    Option (List Byte) :=
  let rem_len := MQTTSerialize_unsubscribeLength topicFilters
  if buflen < MQTTPacket_len rem_len then none
  else some (MQTTHeader UNSUBSCRIBE dup .QOS1 false :: (MQTTPacket_encode rem_len ++ (writeInt packetid ++
    topicFilters.flatMap writeMQTTString)))

/-- The bytes that are written, whether or not there is room for them. -/
def MQTTSerialize_suback (buflen packetid : ℕ) (grantedQoSs : List ℕ) : Option (List Byte) :=
  if buflen < 2 + grantedQoSs.length then none
  else some (MQTTHeader SUBACK false .QOS0 false :: (MQTTPacket_encode (2 + grantedQoSs.length) ++ (writeInt packetid ++
    grantedQoSs.flatMap writeCode)))

/-- A topic and its QoS; `none` is a `goto exit`. -/
def readRequest (enddata : ℤ) : Reader Byte (Option (MQTTLenString × ℕ)) := do
  let (topicFilter, read) ← readMQTTLenString enddata
  if read then
    if 0 < (← Reader.ahead enddata) then return some (topicFilter, (← readChar).toNat) else return none
  else return none

def readFilter (enddata : ℤ) : Reader Byte (Option MQTTLenString) := do
  let (topicFilter, read) ← readMQTTLenString enddata
  return if read then some topicFilter else none

def readCode : Reader Byte (Option ℕ) := do return some (← readChar).toNat

/-- What a deserializer sets: `dup`, the packet identifier and the items. -/
structure Listed (α : Type) where
  dup : Bool
  packetid : ℕ
  items : List α

/-- The value returned, and what is set if it is not given up before. -/
def MQTTDeserialize_subscribe (maxcount : ℕ) : Reader Byte (ℤ × Option (Listed (MQTTLenString × ℕ))) := do
  let byte ← readChar
  if MQTTHeader.type byte = SUBSCRIBE then
    let (_, mylen) ← skipLength
    let enddata ← position mylen
    let packetid ← readInt
    let (ending, requests) ← Reader.items (readRequest enddata) enddata maxcount []
    return (if ending = .stop then 1 else -1, some ⟨MQTTHeader.dup byte, packetid, requests⟩)
  else return (-1, none)

/-- The number of topics is not compared with `maxcount`; `rc` still counts the bytes of the length where a topic is broken. -/
def MQTTDeserialize_unsubscribe (maxcount : ℕ) : Reader Byte (ℤ × Option (Listed MQTTLenString)) := do
  let byte ← readChar
  if MQTTHeader.type byte = UNSUBSCRIBE then
    let (rc, mylen) ← skipLength
    let enddata ← position mylen
    let packetid ← readInt
    let (ending, topicFilters) ← Reader.items (readFilter enddata) enddata maxcount []
    let data : Listed MQTTLenString := ⟨MQTTHeader.dup byte, packetid, topicFilters⟩
    match ending with
    | .stop => return (1, some data)
    | .broken => return ((rc : ℤ), some data)
    | .full => failure
  else return (0, none)

/-- The comparison with `maxcount` comes when the element behind the array is written already. -/
def MQTTDeserialize_suback (maxcount : ℕ) : Reader Byte (ℤ × Option (ℕ × List ℕ)) := do
  let byte ← readChar
  if MQTTHeader.type byte = SUBACK then
    let (rc, mylen) ← skipLength
    let enddata ← position mylen
    if (← Reader.ahead enddata) < 2 then return ((rc : ℤ), none)
    let packetid ← readInt
    let (ending, grantedQoSs) ← Reader.items readCode enddata maxcount []
    if ending = .full then failure else return (1, some (packetid, grantedQoSs))
  else return (0, none)

/-! ### Items -/

theorem foldl_length {α : Type} (f : α → ℕ) : ∀ (l : List α) (n : ℕ), l.foldl (fun len a => len + f a) n = n + (l.map f).sum
  | [], n => by simp
  | a :: l, n => by
    rw [List.foldl_cons, foldl_length f l, List.map_cons, List.sum_cons, Nat.add_assoc]

theorem length_writeMQTTString (s : MQTTString) : (writeMQTTString s).length = 2 + MQTTstrlen s := by
  rw [writeMQTTString_eq, length_lengthDelimited, MQTTstrlen_eq, Nat.add_comm]

theorem length_subscribeBody (packetid : ℕ) (requests : List (MQTTString × ℕ)) :
    (writeInt packetid ++ requests.flatMap writeRequest).length =
      MQTTSerialize_subscribeLength requests := by
  rw [MQTTSerialize_subscribeLength, foldl_length, List.length_append, length_writeInt, List.length_flatMap]
  simp only [writeRequest, writeCode, List.length_append, length_writeMQTTString, List.length_singleton]

theorem length_unsubscribeBody (packetid : ℕ) (topicFilters : List MQTTString) :
    (writeInt packetid ++ topicFilters.flatMap writeMQTTString).length = MQTTSerialize_unsubscribeLength topicFilters := by
  rw [MQTTSerialize_unsubscribeLength, foldl_length, List.length_append, length_writeInt, List.length_flatMap]
  simp only [length_writeMQTTString]

/-- A string is read back, with any others of its packet behind it. -/
theorem consumes_string {s : MQTTString} (hs : MQTTstrlen s < 2 ^ 16) (tail rest : List Byte) :
    Consumes (readMQTTLenString rest.length) (tail ++ rest) (writeMQTTString s) (⟨s.text.length, some s.text⟩, true) := by
  rw [writeMQTTString_eq]
  exact consumes_readMQTTLenString (MQTTstrlen_eq s ▸ hs) (by simp)

theorem toNat_code {code : ℕ} (h : code < 256) : (BitVec.ofNat 8 code).toNat = code := by
  rw [BitVec.toNat_ofNat]
  exact Nat.mod_eq_of_lt h

theorem consumes_readFilter {s : MQTTString} (hs : MQTTstrlen s < 2 ^ 16) (tail rest : List Byte) :
    Consumes (readFilter rest.length) (tail ++ rest) (writeMQTTString s) (some ⟨s.text.length, some s.text⟩) :=
  (consumes_string hs tail rest).bind_last (consumes_pure _ _)

theorem consumes_readRequest {r : MQTTString × ℕ} (hs : MQTTstrlen r.1 < 2 ^ 16) (hcode : r.2 < 256) (tail rest : List Byte) :
    Consumes (readRequest rest.length) (tail ++ rest) (writeRequest r) (some (⟨r.1.text.length, some r.1.text⟩, r.2)) := by
  have hstring := consumes_string hs (writeCode r.2 ++ tail) rest
  rw [List.append_assoc] at hstring
  have hpos : (0 : ℤ) < ((writeCode r.2 ++ (tail ++ rest)).length : ℤ) - rest.length := by
    rw [← List.append_assoc]
    exact length_pos_ahead (by simp [writeCode]) rest
  refine hstring.bind ((consumes_ahead _ _).bind_nil ?_)
  rw [if_pos hpos]
  refine (consumes_next _ _).bind_last ?_
  rw [toNat_code hcode]
  exact consumes_pure _ _

theorem writeRequest_ne_nil (r : MQTTString × ℕ) : writeRequest r ≠ [] := by
  simp [writeRequest, writeCode]

theorem writeMQTTString_ne_nil (s : MQTTString) : writeMQTTString s ≠ [] := by
  rw [writeMQTTString_eq]
  exact List.cons_ne_nil _ _

/-! ### Packets -/

theorem start_apply {α : Type} (f : Byte → Reader Byte α) (byte : Byte) (bs : List Byte) :
    (readChar >>= f) (byte :: bs) = f byte bs := rfl

/-- Behind the header byte: the length, and what it is the length of. -/
theorem length_apply {α : Type} {body : List Byte} {n : ℕ} (hn : body.length = n) (hlen : n < 2 ^ 28)
    (f : ℕ → ℤ → Reader Byte α) (rest : List Byte) :
    (do
      let (rc, mylen) ← skipLength
      let enddata ← position mylen
      f rc enddata : Reader Byte α) (MQTTPacket_encode n ++ body ++ rest) = f (encodedLength n) rest.length (body ++ rest) := by
  have hend : ((body ++ rest).length : ℤ) - n = rest.length := by
    rw [← hn, List.length_append]
    push_cast
    omega
  have hpos := (consumes_position n (body ++ rest)).bind_apply fun enddata => f (encodedLength n) enddata
  rw [hend] at hpos
  rw [List.append_assoc]
  exact ((consumes_skipLength hlen _).bind_apply _).trans hpos

/-- The topic that `main` subscribes to. -/
def controlTopic : CString := ⟨CString.literal "vent/controller/settings", by decide +kernel⟩

section RoundTrip

variable {buflen packetid : ℕ} {dup : Bool} {packet : List Byte}

/-- **A SUBSCRIBE is read back if there is room for its topics**; with more of them it is an error. -/
theorem subscribe_round_trip (hbuf : buflen ≤ 2 ^ 28) (hid : packetid < 2 ^ 16) {requests : List (MQTTString × ℕ)}
    (hstrings : ∀ r ∈ requests, MQTTstrlen r.1 < 2 ^ 16 ∧ r.2 < 256)
    (h : MQTTSerialize_subscribe buflen dup packetid requests = some packet) (maxcount : ℕ) (rest : List Byte) :
    if requests.length ≤ maxcount then
      MQTTDeserialize_subscribe maxcount (packet ++ rest) =
        some ((1, some ⟨dup, packetid, requests.map fun r => (⟨r.1.text.length, some r.1.text⟩, r.2)⟩), rest)
    else ∃ data left, MQTTDeserialize_subscribe maxcount (packet ++ rest) = some ((-1, data), left) := by
  simp only [MQTTSerialize_subscribe, Option.ite_none_left_eq_some, Option.some.injEq] at h
  obtain ⟨hfits, rfl⟩ := h
  have hlen := (lt_MQTTPacket_len _).trans_le ((Nat.le_of_not_lt hfits).trans hbuf)
  have hitem : ∀ r ∈ requests, ∀ tail, Consumes (readRequest rest.length) (tail ++ rest) (writeRequest r)
      (some (⟨r.1.text.length, some r.1.text⟩, r.2)) := fun r hr tail =>
    consumes_readRequest (hstrings r hr).1 (hstrings r hr).2 tail rest
  have hread : MQTTDeserialize_subscribe maxcount (MQTTHeader SUBSCRIBE dup .QOS1 false ::
      (MQTTPacket_encode (MQTTSerialize_subscribeLength requests) ++
        (writeInt packetid ++ requests.flatMap writeRequest)) ++ rest) =
      (Reader.items (readRequest rest.length) rest.length maxcount [] (requests.flatMap writeRequest ++ rest)).map fun p =>
        ((if p.1.1 = .stop then 1 else -1, some ⟨dup, packetid, p.1.2⟩), p.2) := by
    have hbody := length_apply (length_subscribeBody packetid requests) hlen (fun _ enddata => do
      let packetid ← readInt
      let (ending, requests) ← Reader.items (readRequest enddata) enddata maxcount []
      return ((if ending = .stop then 1 else -1 : ℤ), some (⟨dup, packetid, requests⟩ : Listed (MQTTLenString × ℕ)))) rest
    unfold MQTTDeserialize_subscribe
    rw [List.cons_append, start_apply, type_MQTTHeader (by decide), if_pos rfl, dup_MQTTHeader (by decide), hbody,
      List.append_assoc, (consumes_readInt hid _).bind_apply, bind_apply]
    cases Reader.items (readRequest rest.length) rest.length maxcount [] (requests.flatMap writeRequest ++ rest) <;> rfl
  rw [hread]
  split
  · rename_i hcount
    have hitems := consumes_items writeRequest_ne_nil rest requests hitem maxcount [] hcount
    unfold Consumes at hitems
    rw [hitems]
    rfl
  · rename_i hcount
    rw [items_full_of_lt writeRequest_ne_nil rest requests hitem maxcount [] (Nat.lt_of_not_le hcount)]
    exact ⟨_, _, rfl⟩

theorem subscribe_round_trip_control : ∃ packet, MQTTSerialize_subscribe 100 false 1 [(.cstring controlTopic, 1)] = some packet ∧
    MQTTDeserialize_subscribe 1 (packet ++ [0]) =
      some ((1, some ⟨false, 1, [(⟨24, some controlTopic.chars⟩, 1)]⟩), [0]) := by
  obtain ⟨packet, h⟩ := Option.isSome_iff_exists.mp
    (by decide +kernel : (MQTTSerialize_subscribe 100 false 1 [(.cstring controlTopic, 1)]).isSome = true)
  have hstrings : ∀ r ∈ [(MQTTString.cstring controlTopic, 1)], MQTTstrlen r.1 < 2 ^ 16 ∧ r.2 < 256 := by
    simp only [List.mem_singleton, forall_eq]
    decide +kernel
  exact ⟨packet, h, subscribe_round_trip (by decide) (by decide) hstrings h 1 [0]⟩

/-- **So is an UNSUBSCRIBE**; with more topics the array is left. -/
theorem unsubscribe_round_trip (hbuf : buflen ≤ 2 ^ 28) (hid : packetid < 2 ^ 16) {topicFilters : List MQTTString}
    (hstrings : ∀ t ∈ topicFilters, MQTTstrlen t < 2 ^ 16)
    (h : MQTTSerialize_unsubscribe buflen dup packetid topicFilters = some packet) (maxcount : ℕ) (rest : List Byte) :
    MQTTDeserialize_unsubscribe maxcount (packet ++ rest) =
      if topicFilters.length ≤ maxcount then
        some ((1, some ⟨dup, packetid, topicFilters.map fun t => ⟨t.text.length, some t.text⟩⟩), rest)
      else none := by
  simp only [MQTTSerialize_unsubscribe, Option.ite_none_left_eq_some, Option.some.injEq] at h
  obtain ⟨hfits, rfl⟩ := h
  have hlen := (lt_MQTTPacket_len _).trans_le ((Nat.le_of_not_lt hfits).trans hbuf)
  have hitem : ∀ t ∈ topicFilters, ∀ tail, Consumes (readFilter rest.length) (tail ++ rest) (writeMQTTString t)
      (some ⟨t.text.length, some t.text⟩) := fun t ht tail => consumes_readFilter (hstrings t ht) tail rest
  have hbody := length_apply (length_unsubscribeBody packetid topicFilters) hlen (fun rc enddata => do
    let packetid ← readInt
    let (ending, topicFilters) ← Reader.items (readFilter enddata) enddata maxcount []
    let data : Listed MQTTLenString := ⟨dup, packetid, topicFilters⟩
    match ending with
    | .stop => return ((1 : ℤ), some data)
    | .broken => return ((rc : ℤ), some data)
    | .full => failure) rest
  unfold MQTTDeserialize_unsubscribe
  rw [List.cons_append, start_apply, type_MQTTHeader (by decide), if_pos rfl, dup_MQTTHeader (by decide), hbody,
    List.append_assoc, (consumes_readInt hid _).bind_apply, bind_apply]
  split
  · rename_i hcount
    have hitems := consumes_items writeMQTTString_ne_nil rest topicFilters hitem maxcount [] hcount
    unfold Consumes at hitems
    rw [hitems]
    rfl
  · rename_i hcount
    rw [items_full_of_lt writeMQTTString_ne_nil rest topicFilters hitem maxcount [] (Nat.lt_of_not_le hcount)]
    rfl

theorem unsubscribe_round_trip_control : ∃ packet, MQTTSerialize_unsubscribe 100 false 1 [.cstring controlTopic] = some packet ∧
    MQTTDeserialize_unsubscribe 1 (packet ++ [0]) = some ((1, some ⟨false, 1, [⟨24, some controlTopic.chars⟩]⟩), [0]) := by
  obtain ⟨packet, h⟩ := Option.isSome_iff_exists.mp
    (by decide +kernel : (MQTTSerialize_unsubscribe 100 false 1 [.cstring controlTopic]).isSome = true)
  have hstrings : ∀ t ∈ [MQTTString.cstring controlTopic], MQTTstrlen t < 2 ^ 16 := by
    simp only [List.mem_singleton, forall_eq]
    decide +kernel
  exact ⟨packet, h, unsubscribe_round_trip (by decide) (by decide) hstrings h 1 [0]⟩

end RoundTrip

theorem ahead_body (body rest : List Byte) : ((body ++ rest).length : ℤ) - rest.length = body.length := by
  rw [List.length_append]
  push_cast
  omega

section Suback

variable {byte : Byte} (hbyte : MQTTHeader.type byte = SUBACK) (maxcount : ℕ) (rest : List Byte)
include hbyte

/-- A SUBACK of less than two bytes is taken for read by its length. -/
theorem deserialize_suback_of_short {body : List Byte} (hshort : body.length < 2) :
    MQTTDeserialize_suback maxcount (byte :: (MQTTPacket_encode body.length ++ body ++ rest)) =
      some ((1, none), body ++ rest) := by
  have hbody := length_apply (Eq.refl body.length) (by omega) (fun rc enddata => do
    if (← Reader.ahead enddata) < 2 then return ((rc : ℤ), none)
    let packetid ← readInt
    let (ending, grantedQoSs) ← Reader.items readCode enddata maxcount []
    if ending = .full then failure else return ((1 : ℤ), some (packetid, grantedQoSs))) rest
  have hone : encodedLength body.length = 1 := (encodedLength_eq_one_iff _).mpr (by omega)
  unfold MQTTDeserialize_suback
  rw [start_apply, if_pos hbyte, hbody, bind_apply, Reader.ahead, Option.bind_some, hone]
  dsimp only
  rw [ahead_body, if_pos (by omega)]
  rfl

/-- One with more codes than the array holds leaves the array. -/
theorem deserialize_suback {a b : Byte} {codes : List Byte} (hlen : (a :: b :: codes).length < 2 ^ 28) :
    MQTTDeserialize_suback maxcount (byte :: (MQTTPacket_encode (a :: b :: codes).length ++ a :: b :: codes ++ rest)) =
      if codes.length ≤ maxcount then some ((1, some (256 * a.toNat + b.toNat, codes.map BitVec.toNat)), rest) else none := by
  have hbody := length_apply (Eq.refl (a :: b :: codes).length) hlen (fun rc enddata => do
    if (← Reader.ahead enddata) < 2 then return ((rc : ℤ), none)
    let packetid ← readInt
    let (ending, grantedQoSs) ← Reader.items readCode enddata maxcount []
    if ending = .full then failure else return ((1 : ℤ), some (packetid, grantedQoSs))) rest
  have hitem : ∀ code ∈ codes, ∀ tail, Consumes readCode (tail ++ rest) [code] (some code.toNat) :=
    fun code _ tail => (consumes_next code (tail ++ rest)).bind_last (consumes_pure _ _)
  have hne : ∀ code : Byte, [code] ≠ [] := fun code => List.cons_ne_nil code []
  have hflat : codes.flatMap (fun code => [code]) = codes := List.flatMap_singleton' codes
  have hread : readInt (a :: b :: (codes ++ rest)) = some (256 * a.toNat + b.toNat, codes ++ rest) := rfl
  unfold MQTTDeserialize_suback
  rw [start_apply, if_pos hbyte, hbody, bind_apply, Reader.ahead, Option.bind_some]
  dsimp only
  rw [ahead_body, if_neg (by simp only [List.length_cons]; push_cast; omega), List.cons_append, List.cons_append, bind_apply,
    hread, Option.bind_some, bind_apply]
  dsimp only
  split
  · rename_i hcount
    have hitems := consumes_items hne rest codes hitem maxcount [] hcount
    unfold Consumes at hitems
    rw [hflat] at hitems
    rw [hitems]
    rfl
  · rename_i hcount
    have hitems := items_full_of_lt hne rest codes hitem maxcount [] (Nat.lt_of_not_le hcount)
    rw [hflat] at hitems
    rw [hitems]
    rfl

end Suback

/-- **And a SUBACK**; here, too, the array is left. It takes two bytes more than it is written for. -/
theorem suback_round_trip {buflen packetid : ℕ} {codes : List ℕ} {packet : List Byte} (hid : packetid < 2 ^ 16)
    (hcodes : ∀ code ∈ codes, code < 256) (hlen : codes.length < 126)
    (h : MQTTSerialize_suback buflen packetid codes = some packet) (maxcount : ℕ) (rest : List Byte) :
    (packet.length ≤ buflen ↔ codes.length + 4 ≤ buflen) ∧
    MQTTDeserialize_suback maxcount (packet ++ rest) =
      if codes.length ≤ maxcount then some ((1, some (packetid, codes)), rest) else none := by
  simp only [MQTTSerialize_suback, Option.ite_none_left_eq_some, Option.some.injEq] at h
  obtain ⟨-, rfl⟩ := h
  have hflat : codes.flatMap writeCode = codes.map (BitVec.ofNat 8) := List.map_eq_flatMap.symm
  have hsum : (writeInt packetid ++ codes.flatMap writeCode).length = 2 + codes.length := by
    rw [List.length_append, length_writeInt, hflat, List.length_map]
  have hn : 2 + codes.length < 2 ^ 28 := by omega
  refine ⟨?_, ?_⟩
  · have hone : encodedLength (2 + codes.length) = 1 := (encodedLength_eq_one_iff _).mpr (by omega)
    rw [List.length_cons, List.length_append, length_MQTTPacket_encode hn, hone, hsum]
    omega
  · have hshort : (BitVec.ofNat 8 (packetid / 256) :: BitVec.ofNat 8 (packetid % 256) ::
        codes.map (BitVec.ofNat 8)).length < 2 ^ 28 := by
      simp only [List.length_cons, List.length_map]
      omega
    have hread := deserialize_suback (type_MQTTHeader (t := SUBACK) (by decide) false .QOS0 false) maxcount rest hshort
    have hback : (codes.map (BitVec.ofNat 8)).map BitVec.toNat = codes := by
      rw [List.map_map]
      exact (List.map_congr_left fun code hcode => toNat_code (hcodes code hcode)).trans (List.map_id codes)
    have hid' : 256 * (BitVec.ofNat 8 (packetid / 256)).toNat + (BitVec.ofNat 8 (packetid % 256)).toNat = packetid := by
      rw [BitVec.toNat_ofNat, BitVec.toNat_ofNat]
      omega
    rw [hback, hid', List.length_map, List.length_cons, List.length_cons, List.length_map, Nat.add_assoc, Nat.add_comm] at hread
    rw [hflat]
    exact hread

/-- Two codes are too many for the array of `subscribe`. -/
theorem suback_round_trip_two : ∃ packet, MQTTSerialize_suback 100 1 [1, 0x80] = some packet ∧
    MQTTDeserialize_suback 1 (packet ++ []) = none := by
  obtain ⟨packet, h⟩ := Option.isSome_iff_exists.mp (by decide +kernel : (MQTTSerialize_suback 100 1 [1, 0x80]).isSome = true)
  exact ⟨packet, h, (suback_round_trip (by decide) (by decide) (by decide) h 1 []).2⟩

end Mqtt
end Ventilation
