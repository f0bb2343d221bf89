/-
# Opening a session (MQTTClient.h, main.cpp)

`connect`, `subscribe` and `unsubscribe` send a packet and wait for the answer in `waitfor`, in
which one `cycle` after another handles what else arrives. `setUp` is what `main` does with them.
-/
import Ventilation.Mqtt.Connect
import Ventilation.Mqtt.Network

namespace Ventilation
namespace Mqtt

open Wire

/-! ### The code -/

def UNSUBACK : ℕ := 11

def MAX_PACKET_ID : ℕ := 65535

/-- `PacketId::getNext`. -/
def getNext (next : ℕ) : ℕ := if next = MAX_PACKET_ID then 1 else next + 1

/-- The identifier is read and not looked at. -/
def MQTTDeserialize_unsuback : Reader Byte ℕ := do
  let (rc, type, _, _) ← MQTTDeserialize_ack
  return if type = UNSUBACK then 1 else rc

namespace Client

/-- The loop of `waitfor`, once for each time that the timer has not expired. -/
def waitfor (packet_type : ℤ) : List (Bool × Bool) → ℤ → Client → Reading Byte (Client × List (List Byte) × ℤ)
  | [], rc, c => return (c, [], rc)
  | (sends, alive) :: turns, _, c => do
    let (c, answers, rc) ← c.cycle sends alive
    if rc ≠ packet_type ∧ rc ≥ 0 then
      let (c, later, rc) ← waitfor packet_type turns rc c
      return (c, answers ++ later, rc)
    else return (c, answers, rc)

/-- The loop of `yield`. -/
def yield : List (Bool × Bool) → Client → Reading Byte (Client × List (List Byte) × ℤ)
  | [], c => return (c, [], 0)
  | (sends, alive) :: turns, c => do
    let (c, answers, rc) ← c.cycle sends alive
    if rc < 0 then return (c, answers, -1)
    else
      let (c, later, rc) ← yield turns c
      return (c, answers ++ later, rc)

/-- With a handler, or without one. -/
def setMessageHandler (c : Client) (topicFilter : List Byte) (messageHandler : Bool) : Client × ℤ :=
  let slots := c.messageHandlers.toList
  match slots.findIdx? (· = some topicFilter) with
  | some i =>
    ({ c with messageHandlers := c.messageHandlers.setIfInBounds i (if messageHandler then some topicFilter else none) }, 0)
  | none =>
    if messageHandler then
      match slots.findIdx? (· = none) with
      | some i => ({ c with messageHandlers := c.messageHandlers.setIfInBounds i (some topicFilter) }, 0)
      | none => (c, -1)
    else (c, -1)

/-- What `connect` makes of the CONNACK; `data.rc` is 0 before. -/
def connackRc (c : Client) : Option ℤ := do
  let ((rc, data), _) ← MQTTDeserialize_connack c.readbuf.toList
  return if rc = 1 then data.elim 0 fun data => (data.2 : ℤ) else -1

/-- The client, what is sent, and `rc`; `sends` is what becomes of `sendPacket`. No publication is in flight, since
sessions are clean. -/
def connect (options : MQTTPacket_connectData MQTTString) (sends : Bool) (turns : List (Bool × Bool)) (c : Client) :
    Reading Byte (Client × List (List Byte) × ℤ) := do
  if c.isconnected then return (c, [], -1)
  let c := { c with cleansession := options.cleansession }
  match MQTTSerialize_connect MAX_MQTT_PACKET_SIZE options with
  | none => return (c, [], -1)
  | some packet =>
    if sends then
      let (c, answers, rc) ← waitfor CONNACK turns (-1) c
      let rc ← if rc = CONNACK then c.connackRc else some (-1)
      return (if rc = 0 then { c with isconnected := true } else c, packet :: answers, rc)
    else return (c, [], -1)

/-- What `subscribe` makes of the SUBACK; `grantedQoS` is 0 before. -/
def install (topicFilter : List Byte) (c : Client) : Option (Client × ℤ) := do
  let ((rc, data), _) ← MQTTDeserialize_suback 1 c.readbuf.toList
  let grantedQoS := data.elim 0 fun data => data.2.headD 0
  return if rc = 1 ∧ grantedQoS ≠ 0x80 then c.setMessageHandler topicFilter true else (c, 0)

/-- With the last packet identifier. -/
def subscribe (topicFilter : CString) (qos : QoS) (sends : Bool) (turns : List (Bool × Bool)) (c : Client) (next : ℕ) :
    Reading Byte (Client × ℕ × List (List Byte) × ℤ) := do
  if c.isconnected then
    let next := getNext next
    match MQTTSerialize_subscribe MAX_MQTT_PACKET_SIZE false next [(.cstring topicFilter, qos.level)] with
    | none => return (c.closeSession, next, [], -1)
    | some packet =>
      if sends then
        let (c, answers, rc) ← waitfor SUBACK turns (-1) c
        let (c, rc) ← if rc = SUBACK then c.install topicFilter.chars else some (c, -1)
        return (if rc = -1 then c.closeSession else c, next, packet :: answers, rc)
      else return (c.closeSession, next, [], -1)
  else return (c.closeSession, next, [], -1)

def unsubscribe (topicFilter : CString) (sends : Bool) (turns : List (Bool × Bool)) (c : Client) (next : ℕ) :
    Reading Byte (Client × ℕ × List (List Byte) × ℤ) := do
  if c.isconnected then
    let next := getNext next
    match MQTTSerialize_unsubscribe MAX_MQTT_PACKET_SIZE false next [.cstring topicFilter] with
    | none => return (c.closeSession, next, [], -1)
    | some packet =>
      if sends then
        let (c, answers, rc) ← waitfor UNSUBACK turns (-1) c
        if rc = UNSUBACK then
          let (rc, _) ← MQTTDeserialize_unsuback c.readbuf.toList
          return (if rc = 1 then (c.setMessageHandler topicFilter.chars false).1 else c, next, packet :: answers, 0)
        else return (c.closeSession, next, packet :: answers, -1)
      else return (c.closeSession, next, [], -1)
  else return (c.closeSession, next, [], -1)

end Client

/-! ### Waiting -/

/-- What a packet is answered with. -/
def Packet.answers : Packet → List Packet
  | .PUBLISH msg => if msg.qos = .QOS0 then [] else [if msg.qos = .QOS1 then .PUBACK msg.id else .PUBREC msg.id]
  | _ => []

namespace Turn

/-- The packet is taken, and the session kept alive. -/
structure Keeps (t : Turn) : Prop where
  fits : t.Fits
  takes : Takes (t.arriving.map Prod.fst) t.sends
  alive : t.alive = true

/-- What a `cycle` returns then. -/
def packet_type (t : Turn) : ℤ := Session.readPacket (t.arriving.map Prod.fst)

def answers (t : Turn) : List Packet := t.arriving.elim [] fun a => a.1.answers

/-- The message that arrives. -/
def message (t : Turn) : Option Message := t.arriving.bind fun a => a.1.message

end Turn

variable {t : Turn}

/-- An acknowledgement is left in the buffer, whatever its body says. -/
theorem cycle_ack {σ : Type} {get : ℕ → StateT σ Option (List Byte)} {H : σ → List Byte → Prop} (hget : Supplied get H)
    {byte : Byte} {body : List Byte} {packet_type : ℕ} (hfits : FitsReadbuf body)
    (htype : MQTTHeader.type byte = packet_type) (hack : packet_type = CONNACK ∨ packet_type = SUBACK ∨ packet_type = UNSUBACK)
    (c : Client) (sends : Bool) (rest : List Byte) {s : σ} (hs : H s (packetBytes byte body ++ rest)) :
    ∃ readbuf : Readbuf, ∃ tail s', (c.cycle sends true).run get s = some (({ c with readbuf }, [], (packet_type : ℤ)), s') ∧
      H s' rest ∧ readbuf.toList = packetBytes byte body ++ tail := by
  obtain ⟨readbuf, hread, hstore⟩ := consumes_readPacket c.readbuf byte hfits rest
  rw [htype] at hread
  have hwork : Client.work { c with readbuf } packet_type sends true = some ({ c with readbuf }, [], (packet_type : ℤ)) := by
    rcases hack with rfl | rfl | rfl <;> rfl
  obtain ⟨s', hrun, hs'⟩ := hget.run _ hs (Client.consumes_cycle hread hwork)
  have hbuf := (Buffer.toList_store hstore).2
  rw [List.take_zero, List.nil_append] at hbuf
  exact ⟨readbuf, _, s', hrun, hs', hbuf⟩

section Loops

variable {σ : Type} {get : ℕ → StateT σ Option (List Byte)} {c c₁ : Client} {s s₁ : σ} {sends alive : Bool}
  {answers : List (List Byte)} {rc : ℤ}

/-- A turn of `waitfor`. -/
theorem waitfor_cons (hrun : (c.cycle sends alive).run get s = some ((c₁, answers, rc), s₁)) (packet_type : ℤ)
    (turns : List (Bool × Bool)) (rc₀ : ℤ) : (c.waitfor packet_type ((sends, alive) :: turns) rc₀).run get s =
      if rc ≠ packet_type ∧ rc ≥ 0 then
        ((c₁.waitfor packet_type turns rc).run get s₁).map fun p => ((p.1.1, answers ++ p.1.2.1, p.1.2.2), p.2)
      else some ((c₁, answers, rc), s₁) := by
  rw [Client.waitfor, Reading.run_bind, bind_apply, hrun, Option.bind_some]
  dsimp only
  split
  · rw [Reading.run_bind, bind_apply]
    cases (c₁.waitfor packet_type turns rc).run get s₁ <;> rfl
  · rfl

/-- A turn of `yield`. -/
theorem yield_cons (hrun : (c.cycle sends alive).run get s = some ((c₁, answers, rc), s₁)) (turns : List (Bool × Bool)) :
    (c.yield ((sends, alive) :: turns)).run get s =
      if rc < 0 then some ((c₁, answers, -1), s₁)
      else ((c₁.yield turns).run get s₁).map fun p => ((p.1.1, answers ++ p.1.2.1, p.1.2.2), p.2) := by
  rw [Client.yield, Reading.run_bind, bind_apply, hrun, Option.bind_some]
  dsimp only
  split
  · rfl
  · rw [Reading.run_bind, bind_apply]
    cases (c₁.yield turns).run get s₁ <;> rfl

end Loops

/-- The messages of some turns, each as often as it is delivered. -/
def Session.delivered (s : Session) (turns : List Turn) : List Message :=
  (turns.filterMap Turn.message).flatMap fun msg => List.replicate (s.handlersFor msg.topicName) msg

section Answered

variable {turns : List Turn} {byte : Byte} {c : Client} (sends : Bool) (later : List (Bool × Bool)) (line : List (Option Byte))

end Answered

theorem exists_subscribe : ∃ packet,
    MQTTSerialize_subscribe MAX_MQTT_PACKET_SIZE false (getNext 0) [(.cstring controlTopic, QoS.QOS2.level)] = some packet :=
  Option.isSome_iff_exists.mp (by decide +kernel)

/-- A PUBLISH is handled with one of these values. -/
theorem handlePublish_rc {c c' : Client} {sends atOnce : Bool} {answers : List (List Byte)} {rc : ℤ}
    (h : c.handlePublish sends = some (c', answers, rc, atOnce)) : rc = 0 ∨ rc = -1 := by
  unfold Client.handlePublish at h
  obtain ⟨⟨⟨rc₁, data⟩, left⟩, -, h⟩ := Option.bind_eq_some_iff.mp h
  dsimp only at h
  split at h
  · obtain ⟨c₁, -, h⟩ := Option.bind_eq_some_iff.mp h
    unfold Client.acknowledge at h
    split at h
    · obtain ⟨-, -, rfl, -⟩ := by simpa using h
      exact .inl rfl
    · obtain ⟨answer, -, h⟩ := Option.map_eq_some_iff.mp h
      cases answer with
      | none =>
        obtain ⟨-, -, rfl, -⟩ := by simpa using h
        exact .inr rfl
      | some answer =>
        cases sends with
        | true =>
          obtain ⟨-, -, rfl, -⟩ := by simpa using h
          exact .inl rfl
        | false =>
          obtain ⟨-, -, rfl, -⟩ := by simpa using h
          exact .inr rfl
  · obtain ⟨-, -, rfl, -⟩ := by simpa using h
    exact .inl rfl

theorem exit_spec (c : Client) (answers : List (List Byte)) (rc packet_type : ℤ) :
    (c.exit answers rc packet_type).2.2 = (if rc = 0 then packet_type else rc) ∧
    (c.exit answers rc packet_type).1.readbuf = c.readbuf := by
  have hclose := c.closeSession_spec.2.1
  unfold Client.exit
  split_ifs
  · exact ⟨rfl, rfl⟩
  · exact ⟨rfl, hclose⟩
  · exact ⟨rfl, rfl⟩

/-- A SUBACK that is returned was read. -/
theorem work_suback {c c' : Client} {packet_type : ℤ} {sends alive : Bool} {answers : List (List Byte)}
    (h : c.work packet_type sends alive = some (c', answers, 9)) : packet_type = 9 ∧ c'.readbuf = c.readbuf := by
  obtain ⟨⟨c₁, answers₁, rc, atOnce⟩, hhandle, h⟩ := Option.bind_eq_some_iff.mp h
  have hexit : c₁.exit answers₁ (if atOnce || alive then rc else -1) packet_type = (c', answers, 9) := Option.some.inj h
  obtain ⟨hrc, hbuf⟩ := exit_spec c₁ answers₁ (if atOnce || alive then rc else -1) packet_type
  rw [hexit] at hrc hbuf
  dsimp only at hrc hbuf
  unfold Client.handle at hhandle
  split_ifs at hhandle with h3 hother
  · have hvalues := handlePublish_rc hhandle
    split_ifs at hrc <;> omega
  · obtain ⟨rfl, -, rfl, -⟩ := by simpa using hhandle
    refine ⟨?_, hbuf⟩
    split_ifs at hrc <;> omega
  · obtain ⟨rfl, -, rfl, rfl⟩ := by simpa using hhandle
    rw [Bool.true_or, if_pos rfl] at hrc
    exact absurd (show packet_type = 0 ∨ packet_type = 2 ∨ packet_type = 4 ∨ packet_type = 9 ∨ packet_type = 11 ∨
      packet_type = 13 by split_ifs at hrc <;> omega) hother

section Safety

variable {σ : Type} {get : ℕ → StateT σ Option (List Byte)} {I : σ → Prop}

/-- What lies in the buffer when `waitfor` returns a SUBACK. -/
theorem waitfor_suback (hget : Gives get I) : ∀ (turns : List (Bool × Bool)) (c : Client) {rc₀ : ℤ} {s s' : σ} {c' : Client}
    {answers : List (List Byte)}, I s → rc₀ ≠ 9 → (c.waitfor SUBACK turns rc₀).run get s = some ((c', answers, 9), s') →
    ∃ byte body, MQTTHeader.type byte = SUBACK ∧ Holds c'.readbuf byte body
  | [], c, rc₀, s, s', c', answers, _, hne, h => by
    obtain ⟨h, -⟩ := Prod.mk.inj (Option.some.inj h)
    exact absurd (Prod.mk.inj (Prod.mk.inj h).2).2 hne
  | (sends, alive) :: turns, c, rc₀, s, s', c', answers, hs, _, h => by
    obtain ⟨⟨packet_type, readbuf⟩, s₁, hread, hr, hs₁⟩ := (readPacket_always c.readbuf).run hget hs
    have hcycle : (c.cycle sends alive).run get s =
        (Client.work { c with readbuf } packet_type sends alive).map fun r => (r, s₁) := by
      unfold Client.cycle
      rw [Reading.run_bind, bind_apply, hread, Option.bind_some, Reading.run_lift]
      cases Client.work { c with readbuf } packet_type sends alive <;> rfl
    cases hwork : Client.work { c with readbuf } packet_type sends alive with
    | none =>
      rw [hwork, Option.map_none] at hcycle
      rw [Client.waitfor, Reading.run_bind, bind_apply, hcycle, Option.bind_none] at h
      exact absurd h.symm (Option.some_ne_none _)
    | some r =>
      obtain ⟨c₁, answers₁, rc⟩ := r
      rw [hwork] at hcycle
      rw [waitfor_cons hcycle] at h
      split at h
      · rename_i hmore
        obtain ⟨⟨⟨c'', later, rc'⟩, s''⟩, hwait, h⟩ := Option.map_eq_some_iff.mp h
        simp only [Prod.mk.injEq] at h
        obtain ⟨⟨rfl, -, rfl⟩, -⟩ := h
        exact waitfor_suback hget turns c₁ hs₁ hmore.1 hwait
      · simp only [Option.some.injEq, Prod.mk.injEq] at h
        obtain ⟨⟨rfl, -, rfl⟩, -⟩ := h
        obtain ⟨rfl, hbuf⟩ := work_suback hwork
        rcases hr with hr | hr | hr | ⟨byte, body, htype, hholds⟩
        · cases hr
        · cases hr
        · cases hr
        · exact ⟨byte, body, (Int.ofNat_inj.mp htype).symm, by rw [hbuf]; exact hholds⟩

/-- The array of `subscribe` holds one code. -/
theorem install_fails_iff {c : Client} {byte : Byte} {body : List Byte} (hbyte : MQTTHeader.type byte = SUBACK)
    (hholds : Holds c.readbuf byte body) (topicFilter : List Byte) : c.install topicFilter = none ↔ 3 < body.length := by
  obtain ⟨hfits, rest, hrest⟩ := hholds
  have hbuf : c.readbuf.toList = byte :: (MQTTPacket_encode body.length ++ body ++ rest) := by
    rw [← hrest, packetBytes, List.cons_append]
  unfold Client.install
  rw [hbuf]
  rcases Nat.lt_or_ge body.length 2 with hshort | hlong
  · rw [Machine.bind_of (deserialize_suback_of_short hbyte 1 rest hshort)]
    exact iff_of_false (Option.some_ne_none _) (by omega)
  · obtain ⟨a, b, codes, rfl⟩ : ∃ a b codes, body = a :: b :: codes := by
      rcases body with _ | ⟨a, _ | ⟨b, codes⟩⟩
      · exact absurd hlong (by decide)
      · exact absurd hlong (by simp)
      · exact ⟨a, b, codes, rfl⟩
    have hread := deserialize_suback hbyte 1 rest (lt_of_fitsReadbuf hfits)
    have hlength : (a :: b :: codes).length = codes.length + 2 := rfl
    by_cases hcount : codes.length ≤ 1
    · rw [if_pos hcount] at hread
      rw [Machine.bind_of hread]
      exact iff_of_false (Option.some_ne_none _) (by omega)
    · rw [if_neg hcount] at hread
      rw [hread]
      exact iff_of_true rfl (by omega)

/-- **When `subscribe` goes wrong**, whatever arrives from whatever network: in a `cycle` that it waits in, or on a
SUBACK with more than the one code that it has asked for. -/
theorem subscribe_fails_iff (hget : Gives get I) {s : σ} (hs : I s) {c : Client} (hc : c.isconnected = true)
    {topicFilter : CString} {qos : QoS} {next : ℕ} {packet : List Byte}
    (hpacket : MQTTSerialize_subscribe MAX_MQTT_PACKET_SIZE false (getNext next)
      [(.cstring topicFilter, qos.level)] = some packet)
    (turns : List (Bool × Bool)) : (c.subscribe topicFilter qos true turns next).run get s = none ↔
      (c.waitfor SUBACK turns (-1)).run get s = none ∨ ∃ c' answers s' byte body,
        (c.waitfor SUBACK turns (-1)).run get s = some ((c', answers, 9), s') ∧ MQTTHeader.type byte = SUBACK ∧
        Holds c'.readbuf byte body ∧ 3 < body.length := by
  unfold Client.subscribe
  rw [if_pos hc]
  dsimp only
  rw [hpacket]
  dsimp only
  rw [if_pos rfl, Reading.run_bind, bind_apply]
  cases hwait : (c.waitfor SUBACK turns (-1)).run get s with
  | none => exact iff_of_true rfl (Or.inl rfl)
  | some p =>
    obtain ⟨⟨c', answers, rc⟩, s'⟩ := p
    rw [Option.bind_some, or_iff_right (Option.some_ne_none _)]
    dsimp only
    by_cases hrc : rc = SUBACK
    · obtain rfl : rc = 9 := hrc
      obtain ⟨byte, body, hbyte, hholds⟩ := waitfor_suback hget turns c hs (by decide) hwait
      have hinstall := install_fails_iff hbyte hholds topicFilter.chars
      have hfails : c'.install topicFilter.chars = none ↔ ∃ c'' answers' s'' byte body,
          some ((c', answers, (9 : ℤ)), s') = some ((c'', answers', 9), s'') ∧ MQTTHeader.type byte = SUBACK ∧
          Holds c''.readbuf byte body ∧ 3 < body.length := by
        constructor
        · intro h
          exact ⟨c', answers, s', byte, body, rfl, hbyte, hholds, hinstall.mp h⟩
        · rintro ⟨c'', answers', s'', byte', body', heq, hbyte', hholds', hlong⟩
          simp only [Option.some.injEq, Prod.mk.injEq] at heq
          obtain ⟨⟨rfl, -, -⟩, -⟩ := heq
          exact (install_fails_iff hbyte' hholds' topicFilter.chars).mpr hlong
      rw [← hfails, if_pos (show (9 : ℤ) = SUBACK from rfl), Reading.run_bind, bind_apply, Reading.run_lift]
      cases hinst : c'.install topicFilter.chars with
      | none => exact iff_of_true rfl rfl
      | some r => exact iff_of_false (lift_apply rfl s' ▸ Option.some_ne_none _) (Option.some_ne_none _)
    · rw [if_neg hrc]
      refine iff_of_false (Option.some_ne_none _) ?_
      rintro ⟨c'', answers', s'', byte, body, heq, -⟩
      simp only [Option.some.injEq, Prod.mk.injEq] at heq
      exact hrc heq.1.2.2

/-- A SUBACK with two codes, from a new ring. -/
theorem subscribe_fails_iff_two : ∃ s, IPStack.tcp_client_recv .documented (IPStack.Log.new 0).ring
      (some (IPStack.Pbuf.single [0x90, 4, 0, 1, 2, 2] (by decide))) = some (s, 6) ∧
    (Client.opened.subscribe controlTopic .QOS2 true [(true, true)] 0).run
      (IPStack.networkRead .documented .documented IPStack.quietCalls) (s, 0) = none := by
  obtain ⟨packet, hpacket⟩ := exists_subscribe
  obtain ⟨s, hrecv, hs⟩ := IPStack.arrived_of_recv .documented [0x90, 4, 0, 1, 2, 2] (by decide) (by decide) 0
  have hbytes : packetBytes 0x90 [0, 1, 2, 2] ++ [] = [0x90, 4, 0, 1, 2, 2] := by decide +kernel
  have hfits : FitsReadbuf [0, 1, 2, 2] := by decide
  obtain ⟨readbuf, tail, s', hrun, -, hbuf⟩ := cycle_ack (IPStack.supplied_networkRead .documented IPStack.quietCalls) hfits
    (by decide : MQTTHeader.type 0x90 = SUBACK) (.inr (.inl rfl)) Client.opened true [] (hbytes ▸ hs)
  refine ⟨s, hrecv, (subscribe_fails_iff (IPStack.gives_networkRead .documented IPStack.quietCalls) hs.1 rfl hpacket
    [(true, true)]).mpr
    (.inr ⟨{ Client.opened with readbuf }, [], s', 0x90, [0, 1, 2, 2], ?_, by decide, ⟨hfits, tail, hbuf.symm⟩, by decide⟩)⟩
  rw [waitfor_cons hrun, if_neg fun h => h.1 rfl]
  rfl

end Safety

end Mqtt
end Ventilation
