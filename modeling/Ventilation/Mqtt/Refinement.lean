/-
# The client on bytes refines the session (MQTTClient.h, MqttSession)

`Session` is the client as packets see it. Whatever a source supplies the bytes of a packet,
a `cycle` of the client on bytes does with them what the session does with the packet, and
answers with the bytes of the session's answers (`cycle_refines`). So do cycles in which
packets arrive in order, with quiet ones between them (`run_refines`).
-/
import Ventilation.Mqtt.Client

namespace Ventilation
namespace Mqtt

open Wire

/-! ### What bytes stand for -/

/-- The message that a handler sees. -/
def PublishData.message (data : PublishData) : Message :=
  ⟨if data.qos = 0 then .QOS0 else if data.qos = 1 then .QOS1 else .QOS2, data.topicName.data.getD [],
    (data.payload.getD []).take data.payloadlen.toNat, data.packetid.getD 0⟩

/-- The session of a client. -/
def Client.session (c : Client) : Session :=
  ⟨c.isconnected, c.cleansession, c.messageHandlers, c.arrived.map PublishData.message⟩

/-- A packet's bytes, as a broker sends them: of all packets but a PUBLISH, only the type and the length count. An
identifier is sent with a message above QoS 0. -/
structure Packet.Sent (p : Packet) (byte : Byte) (body : List Byte) : Prop where
  type : (MQTTHeader.type byte : ℤ) = p.type
  length : body.length = p.rem_len
  publish : ∀ msg, p = .PUBLISH msg → MQTTHeader.qos byte = msg.qos.level ∧ msg.topicName.length < 2 ^ 16 ∧
    msg.id < 2 ^ 16 ∧ (msg.qos = .QOS0 → msg.id = 0) ∧
    body = lengthDelimited msg.topicName ++ (idBytes (MQTTHeader.qos byte) msg.id ++ msg.payload)

/-- The bytes of an answer. -/
def Packet.answerBytes : Packet → Option (List Byte)
  | .PUBACK id => MQTTSerialize_ack MAX_MQTT_PACKET_SIZE 4 false id
  | .PUBREC id => MQTTSerialize_ack MAX_MQTT_PACKET_SIZE 5 false id
  | _ => none

theorem fitsReadbuf_iff {p : Packet} {body : List Byte} (h : body.length = p.rem_len) : FitsReadbuf body ↔ ¬ p.TooLong := by
  unfold FitsReadbuf Packet.TooLong
  rw [h]
  omega

namespace Client

variable {c : Client} {data : PublishData}

/-! ### Delivering -/

theorem foldlM_deliverTo {name : List Byte} (hname : data.topicName.data = some name) (handlers : List (Option (List Byte))) :
    ∀ arrived : List PublishData, handlers.foldlM (deliverTo data) arrived =
      some (arrived ++ List.replicate (handlers.countP fun topicFilter =>
        topicFilter.any fun topicFilter => topicFilter = name ∨ isTopicMatched topicFilter name) data) := by
  induction handlers with
  | nil =>
    intro arrived
    simp
  | cons topicFilter handlers ih =>
    intro arrived
    cases topicFilter with
    | none =>
      rw [List.foldlM_cons]
      simpa [deliverTo] using ih arrived
    | some topicFilter =>
      rw [List.foldlM_cons, List.countP_cons]
      by_cases hmatch : topicFilter = name ∨ isTopicMatched topicFilter name
      · have hstep : deliverTo data arrived (some topicFilter) = some (arrived ++ [data]) := by
          simp [deliverTo, filterMatches, hname, hmatch]
        rw [Machine.bind_of hstep, ih, if_pos (by simpa using hmatch), List.append_assoc, List.singleton_append,
          ← List.replicate_succ]
      · have hstep : deliverTo data arrived (some topicFilter) = some arrived := by
          simp [deliverTo, filterMatches, hname, hmatch]
        rw [Machine.bind_of hstep, ih, if_neg (by simpa using hmatch), Nat.add_zero]

/-- A message with a topic goes to the handlers that the session says. -/
theorem deliverMessage_refines {name : List Byte} (hname : data.topicName.data = some name) :
    ∃ c', c.deliverMessage data = some c' ∧ c'.session = c.session.deliverMessage data.message ∧ c'.readbuf = c.readbuf := by
  refine ⟨_, Machine.bind_of (foldlM_deliverTo hname _ _) _, ?_, rfl⟩
  have htopic : data.message.topicName = name := by rw [PublishData.message, hname, Option.getD_some]
  unfold session Session.deliverMessage
  rw [htopic]
  simp [Session.handlersFor]

/-! ### Handling -/

theorem session_closeSession (c : Client) : c.closeSession.session = c.session.closeSession := by
  unfold closeSession Session.closeSession
  cases h : c.cleansession <;> simp [session, h, cleanSession, Session.cleanSession]

theorem exit_refines {answers : List (List Byte)} {packets : List Packet} {s : Session} (hs : c.session = s)
    (hanswers : answers.map some = packets.map Packet.answerBytes) (rc packet_type : ℤ) :
    (c.exit answers rc packet_type).1.session = (s.exit packets rc packet_type).1 ∧
    (c.exit answers rc packet_type).2.1.map some = (s.exit packets rc packet_type).2.1.map Packet.answerBytes ∧
    (c.exit answers rc packet_type).2.2 = (s.exit packets rc packet_type).2.2 := by
  subst hs
  have hconnected : c.session.isconnected = c.isconnected := rfl
  unfold exit Session.exit
  rw [hconnected]
  by_cases hrc : rc = 0
  · rw [if_pos hrc, if_pos hrc]
    exact ⟨rfl, hanswers, rfl⟩
  · rw [if_neg hrc, if_neg hrc]
    cases c.isconnected
    · exact ⟨rfl, hanswers, rfl⟩
    · exact ⟨session_closeSession c, hanswers, rfl⟩

/-- What `handlePublish` finds in the buffer. -/
theorem publish_of_sent {msg : Message} {byte : Byte} {body : List Byte}
    (hsent : (Packet.PUBLISH msg).Sent byte body) (hn : body.length < 2 ^ 28) (rest : List Byte) : ∃ data left,
    MQTTDeserialize_publish (packetBytes byte body ++ rest) = some ((1, data), left) ∧ data.message = msg ∧
    data.topicName.data = some msg.topicName ∧ data.qos = msg.qos.level ∧
    (msg.qos ≠ .QOS0 → data.packetid = some msg.id) := by
  obtain ⟨hqos, htopic, hid, hzero, hbody⟩ := hsent.publish msg rfl
  have htype : MQTTHeader.type byte = PUBLISH := Int.ofNat_inj.mp hsent.type
  have hread := publish_of_fits htype hn rest htopic (congrArg List.length hbody)
  have hpacketid := consumes_readPacketid (MQTTHeader.qos byte) hid (msg.payload ++ rest)
  unfold Consumes at hpacketid
  rw [List.append_assoc (idBytes _ _), hpacketid, Option.map_some] at hread
  have hbuffer : packetBytes byte body ++ rest = byte :: (MQTTPacket_encode body.length ++
      (lengthDelimited msg.topicName ++ (idBytes (MQTTHeader.qos byte) msg.id ++ msg.payload) ++ rest)) := by
    rw [← hbody, packetBytes, List.cons_append, List.append_assoc]
  have hpayloadlen : (((msg.payload ++ rest).length : ℤ) - rest.length).toNat = msg.payload.length := by
    rw [List.length_append]
    omega
  refine ⟨_, _, hbuffer ▸ hread, ?_, rfl, hqos, fun hne => ?_⟩
  · have hlevel : (if msg.qos.level = 0 then QoS.QOS0 else if msg.qos.level = 1 then .QOS1 else .QOS2) = msg.qos := by
      cases msg.qos <;> rfl
    have hmsgid : (if msg.qos.level > 0 then some msg.id else none).getD 0 = msg.id := by
      cases hq : msg.qos with
      | QOS0 => exact (hzero hq).symm
      | QOS1 => rfl
      | QOS2 => rfl
    simp only [PublishData.message, publishData, hpayloadlen, hmsgid, hqos, hlevel, Option.getD_some, List.take_left]
  · have hpos : MQTTHeader.qos byte > 0 := by
      rw [hqos]
      cases hq : msg.qos <;> simp_all [QoS.level]
    exact if_pos hpos

theorem acknowledgement_refines {q : QoS} {id : ℕ} (hqos : data.qos = q.level) (hne : q ≠ .QOS0)
    (hid : data.packetid = some id) : ∃ answer, acknowledgement data = some (some answer) ∧
      (if q = .QOS1 then Packet.PUBACK id else .PUBREC id).answerBytes = some answer := by
  unfold acknowledgement
  rw [hqos, hid]
  cases q with
  | QOS0 => exact absurd rfl hne
  | QOS1 => exact ⟨_, rfl, rfl⟩
  | QOS2 => exact ⟨_, rfl, rfl⟩

/-- **A PUBLISH.** -/
theorem handlePublish_refines {msg : Message} {byte : Byte} {body rest : List Byte}
    (hsent : (Packet.PUBLISH msg).Sent byte body) (hn : body.length < 2 ^ 28)
    (hbuf : c.readbuf.toList = packetBytes byte body ++ rest) (sends : Bool) : ∃ c' answers packets rc atOnce,
      c.handlePublish sends = some (c', answers, rc, atOnce) ∧
      c.session.handle (.PUBLISH msg) sends = (c'.session, packets, rc, atOnce) ∧
      answers.map some = packets.map Packet.answerBytes := by
  obtain ⟨data, left, hread, rfl, htopic, hqos, hpacketid⟩ := publish_of_sent hsent hn rest
  obtain ⟨c', hdeliver, hsession, -⟩ := deliverMessage_refines (c := c) htopic
  unfold handlePublish Session.handle
  rw [hbuf, Machine.bind_of hread]
  dsimp only
  rw [if_pos rfl, Machine.bind_of hdeliver, ← hsession, acknowledge]
  by_cases hzero : data.message.qos = .QOS0
  · rw [if_pos (by rw [hqos, hzero]; rfl), if_pos hzero]
    exact ⟨c', [], [], 0, false, rfl, rfl, rfl⟩
  · have hpos : data.qos ≠ 0 := by
      rw [hqos]
      cases hq : data.message.qos <;> simp_all [QoS.level]
    obtain ⟨answer, hanswer, hbytes⟩ := acknowledgement_refines hqos hzero (hpacketid hzero)
    rw [if_neg hpos, if_neg hzero, hanswer]
    cases sends with
    | true => exact ⟨c', [answer], [_], 0, false, rfl, rfl, by rw [List.map_singleton, List.map_singleton, hbytes]⟩
    | false => exact ⟨c', [], [], -1, true, rfl, rfl, rfl⟩

/-- Any packet, in the buffer. -/
theorem handle_refines {p : Packet} {byte : Byte} {body rest : List Byte} (hsent : p.Sent byte body)
    (hn : body.length < 2 ^ 28) (hbuf : c.readbuf.toList = packetBytes byte body ++ rest) (sends : Bool) :
    ∃ c' answers packets rc atOnce, c.handle p.type sends = some (c', answers, rc, atOnce) ∧
      c.session.handle p sends = (c'.session, packets, rc, atOnce) ∧
      answers.map some = packets.map Packet.answerBytes := by
  cases p with
  | PUBLISH msg => exact handlePublish_refines hsent hn hbuf sends
  | _ => exact ⟨c, [], [], _, _, rfl, rfl, rfl⟩

/-- What a `cycle` does, as the session sees it. -/
structure Refines (r : Client × List (List Byte) × ℤ) (s : Session × List Packet × ℤ) : Prop where
  session : r.1.session = s.1
  answers : r.2.1.map some = s.2.1.map Packet.answerBytes
  rc : r.2.2 = s.2.2

/-- A `cycle` that has read a packet. -/
theorem work_refines {p : Packet} {byte : Byte} {body rest : List Byte} (hsent : p.Sent byte body)
    (hn : body.length < 2 ^ 28) (hbuf : c.readbuf.toList = packetBytes byte body ++ rest) (hfits : ¬ p.TooLong)
    (sends alive : Bool) : ∃ r, c.work p.type sends alive = some r ∧ Refines r (c.session.cycle (some p) sends alive) := by
  obtain ⟨c', answers, packets, rc, atOnce, hhandle, hsession, hanswers⟩ := handle_refines hsent hn hbuf sends
  have hwork : c.session.work (some p) sends = (c'.session, packets, rc, atOnce) := by
    rw [Session.work, if_neg hfits, hsession]
  have hread : Session.readPacket (some p) = p.type := by rw [Session.readPacket, if_neg hfits]
  obtain ⟨h1, h2, h3⟩ := exit_refines rfl hanswers (if atOnce || alive then rc else -1) p.type
  refine ⟨_, Machine.bind_of hhandle _, ?_⟩
  rw [Session.cycle_of_work hwork, hread]
  exact ⟨h1, h2, h3⟩

/-- One that has found a packet too long. -/
theorem work_refines_of_too_long {p : Packet} (hlong : p.TooLong) (sends alive : Bool) :
    ∃ r, c.work (-2) sends alive = some r ∧ Refines r (c.session.cycle (some p) sends alive) := by
  have hwork : c.session.work (some p) sends = (c.session, [], -2, true) := by
    rw [Session.work, if_pos hlong, Session.readPacket, if_pos hlong]
  have hread : Session.readPacket (some p) = -2 := by rw [Session.readPacket, if_pos hlong]
  obtain ⟨h1, h2, h3⟩ := @exit_refines c [] [] _ rfl rfl (-2) (-2)
  refine ⟨_, rfl, ?_⟩
  rw [Session.cycle_of_work hwork, hread]
  exact ⟨h1, h2, h3⟩

/-- One in which nothing arrives. -/
theorem work_refines_none (c : Client) (sends alive : Bool) :
    ∃ r, c.work 0 sends alive = some r ∧ Refines r (c.session.cycle none sends alive) := by
  obtain ⟨h1, h2, h3⟩ := @exit_refines c [] [] _ rfl rfl (if false || alive then 0 else -1) 0
  exact ⟨_, rfl, h1, h2, h3⟩

/-- Behind `readPacket` nothing is read. -/
theorem consumes_cycle {bs rest : List Byte} {packet_type : ℤ} {readbuf : Readbuf} {sends alive : Bool}
    {r : Client × List (List Byte) × ℤ} (hread : Consumes ((readPacket c.readbuf).run Reader.take) rest bs (packet_type, readbuf))
    (hwork : work { c with readbuf } packet_type sends alive = some r) :
    (c.cycle sends alive).run Reader.take (bs ++ rest) = some (r, rest) := by
  refine Consumes.run_bind_last hread ?_
  rw [Reading.run_lift]
  exact consumes_lift hwork rest

variable {σ : Type} {get : ℕ → StateT σ Option (List Byte)} {H : σ → List Byte → Prop}

/-- **A `cycle` on the bytes of a packet is the session's on the packet**, whatever source supplies them. Of a packet that
is too long the body stays in the source. -/
theorem cycle_refines (hget : Supplied get H) {s : σ} {p : Packet} {byte : Byte} {body : List Byte}
    (hsent : p.Sent byte body) (hn : p.rem_len < 2 ^ 28) (rest : List Byte) (hs : H s (packetBytes byte body ++ rest))
    (sends alive : Bool) :
    ∃ r s', (c.cycle sends alive).run get s = some (r, s') ∧ Refines r (c.session.cycle (some p) sends alive) ∧
      H s' (if p.TooLong then body ++ rest else rest) := by
  have hbody : body.length < 2 ^ 28 := hsent.length ▸ hn
  by_cases hlong : p.TooLong
  · have hnofit : ¬ FitsReadbuf body := fun h => (fitsReadbuf_iff hsent.length).mp h hlong
    obtain ⟨readbuf, hread⟩ := consumes_readPacket_of_too_long c.readbuf byte hbody hnofit (body ++ rest)
    obtain ⟨r, hwork, hr⟩ := work_refines_of_too_long (c := { c with readbuf }) hlong sends alive
    have hbytes : packetBytes byte body ++ rest = (byte :: MQTTPacket_encode body.length) ++ (body ++ rest) := by
      rw [packetBytes, ← List.cons_append, List.append_assoc]
    obtain ⟨s', hrun, hs'⟩ := hget.run _ (hbytes ▸ hs) (consumes_cycle hread hwork)
    rw [if_pos hlong]
    exact ⟨r, s', hrun, hr, hs'⟩
  · obtain ⟨readbuf, hread, hstore⟩ := consumes_readPacket c.readbuf byte
      ((fitsReadbuf_iff hsent.length).mpr hlong) rest
    have hbuf := (Buffer.toList_store hstore).2
    rw [List.take_zero, List.nil_append] at hbuf
    rw [hsent.type] at hread
    obtain ⟨r, hwork, hr⟩ := work_refines (c := { c with readbuf }) hsent hbody hbuf hlong sends alive
    obtain ⟨s', hrun, hs'⟩ := hget.run _ hs (consumes_cycle hread hwork)
    rw [if_neg hlong]
    exact ⟨r, s', hrun, hr, hs'⟩

/-- A quiet source, and a `cycle` in which nothing arrives. -/
theorem cycle_refines_none {s s' : σ} (hquiet : get 1 s = some ([], s')) (sends alive : Bool) :
    ∃ r, (c.cycle sends alive).run get s = some (r, s') ∧ Refines r (c.session.cycle none sends alive) := by
  obtain ⟨r, hwork, hr⟩ := work_refines_none c sends alive
  have hread : (readPacket c.readbuf).run get s = some ((0, c.readbuf), s') := by
    unfold readPacket
    rw [Reading.run_bind, Reading.run_take, bind_apply, hquiet, Option.bind_some, Reading.run_bind, Reading.run_lift,
      bind_apply, lift_apply (Buffer.store_nil c.readbuf), Option.bind_some]
    rfl
  refine ⟨r, ?_, hr⟩
  unfold cycle
  rw [Reading.run_bind, bind_apply, hread, Option.bind_some, Reading.run_lift]
  exact lift_apply hwork s'

end Client

/-! ### Runs -/

/-- Several `cycle`s, and all that they send. -/
def Client.cycles : List (Bool × Bool) → Client → Reading Byte (Client × List (List Byte))
  | [], c => pure (c, [])
  | (sends, alive) :: es, c => do
    let (c, answers, _) ← c.cycle sends alive
    let (c, later) ← cycles es c
    return (c, answers ++ later)

def Session.cycles : List (Option Packet × Bool × Bool) → Session → Session × List Packet
  | [], s => (s, [])
  | (arriving, sends, alive) :: es, s =>
    let (s, answers, _) := s.cycle arriving sends alive
    let (s, later) := cycles es s
    (s, answers ++ later)

/-- What a `cycle` meets: a packet with its bytes, or a quiet line. -/
structure Turn where
  arriving : Option (Packet × Byte × List Byte)
  sends : Bool
  alive : Bool

namespace Turn

def line (t : Turn) : List (Option Byte) :=
  t.arriving.elim [none] fun a => (packetBytes a.2.1 a.2.2).map some

def flags (t : Turn) : Bool × Bool := (t.sends, t.alive)

def event (t : Turn) : Option Packet × Bool × Bool := (t.arriving.map Prod.fst, t.sends, t.alive)

/-- The packet is one that a broker sends and that fits. -/
def Fits (t : Turn) : Prop := ∀ a ∈ t.arriving, a.1.Sent a.2.1 a.2.2 ∧ ¬ a.1.TooLong

end Turn

theorem lt_of_not_tooLong {p : Packet} (h : ¬ p.TooLong) : p.rem_len < 2 ^ 28 := by
  rw [Packet.TooLong, MAX_MQTT_PACKET_SIZE] at h
  omega

theorem cycle_turn {t : Turn} (ht : t.Fits) (c : Client) (line : List (Option Byte)) :
    ∃ r, (c.cycle t.sends t.alive).run lineRead (t.line ++ line) = some (r, line) ∧
      Client.Refines r (c.session.cycle (t.arriving.map Prod.fst) t.sends t.alive) := by
  obtain ⟨arriving, sends, alive⟩ := t
  cases arriving with
  | none => exact Client.cycle_refines_none (by rw [Turn.line]; rfl) sends alive
  | some a =>
    obtain ⟨hsent, hfits⟩ := ht a rfl
    obtain ⟨r, s', hrun, hr, hs'⟩ := Client.cycle_refines (c := c) (supplied_lineRead line) hsent
      (lt_of_not_tooLong hfits) [] (by rw [List.append_nil]) sends alive
    rw [if_neg hfits, List.map_nil, List.nil_append] at hs'
    subst hs'
    exact ⟨r, hrun, hr⟩

/-- Cycles that take the client on bytes from `c` to `c'`, its source from `s` to `s'`, and its session with it; and what
they send are the bytes of the session's answers. -/
def RunRefines {σ : Type} (get : ℕ → StateT σ Option (List Byte)) (turns : List Turn) (c : Client) (s : σ) (c' : Client)
    (s' : σ) : Prop :=
  ∃ answers packets, (c.cycles (turns.map Turn.flags)).run get s = some ((c', answers), s') ∧
    c.session.cycles (turns.map Turn.event) = (c'.session, packets) ∧ answers.map some = packets.map Packet.answerBytes

theorem RunRefines.nil {σ : Type} (get : ℕ → StateT σ Option (List Byte)) (c : Client) (s : σ) : RunRefines get [] c s c s :=
  ⟨[], [], rfl, rfl, rfl⟩

/-- One more, in front. -/
theorem RunRefines.cons {σ : Type} {get : ℕ → StateT σ Option (List Byte)} {t : Turn} {turns : List Turn} {c c' : Client}
    {s s₁ s' : σ} {r : Client × List (List Byte) × ℤ} (hrun : (c.cycle t.sends t.alive).run get s = some (r, s₁))
    (hr : Client.Refines r (c.session.cycle (t.arriving.map Prod.fst) t.sends t.alive))
    (h : RunRefines get turns r.1 s₁ c' s') : RunRefines get (t :: turns) c s c' s' := by
  obtain ⟨answers, packets, hruns, hsession, hanswers⟩ := h
  obtain ⟨hstep, hbytes, -⟩ := hr
  have hflags : t.flags = (t.sends, t.alive) := rfl
  have hevent : t.event = (t.arriving.map Prod.fst, t.sends, t.alive) := rfl
  refine ⟨r.2.1 ++ answers, (c.session.cycle (t.arriving.map Prod.fst) t.sends t.alive).2.1 ++ packets, ?_, ?_, ?_⟩
  · rw [List.map_cons, hflags, Client.cycles, Reading.run_bind, bind_apply, hrun, Option.bind_some]
    dsimp only
    rw [Reading.run_bind, bind_apply, hruns]
    rfl
  · rw [List.map_cons, hevent, Session.cycles]
    dsimp only
    rw [← hstep, hsession]
  · rw [List.map_append, List.map_append, hbytes, hanswers]

/-- The bytes of the packets of several turns. -/
def burst (turns : List Turn) : List Byte := turns.flatMap fun t => t.arriving.elim [] fun a => packetBytes a.2.1 a.2.2

/-- Packets that a source has to give are handled one by one. -/
theorem burst_refines {σ : Type} {get : ℕ → StateT σ Option (List Byte)} {H : σ → List Byte → Prop}
    (hget : Supplied get H) : ∀ (turns : List Turn) (c : Client) {s : σ} (rest : List Byte),
    (∀ t ∈ turns, t.Fits ∧ t.arriving ≠ none) → H s (burst turns ++ rest) →
    ∃ c' s', RunRefines get turns c s c' s' ∧ H s' rest
  | [], c, s, rest, _, hs => ⟨c, s, .nil _ _ _, hs⟩
  | ⟨none, _, _⟩ :: _, _, _, _, h, _ => absurd rfl (h _ List.mem_cons_self).2
  | ⟨some a, sends, alive⟩ :: turns, c, s, rest, h, hs => by
    obtain ⟨hsent, hfits⟩ := (h _ List.mem_cons_self).1 a rfl
    have hbytes : burst (⟨some a, sends, alive⟩ :: turns) ++ rest = packetBytes a.2.1 a.2.2 ++ (burst turns ++ rest) := by
      rw [← List.append_assoc]
      rfl
    obtain ⟨r, s₁, hrun, hr, hs₁⟩ := Client.cycle_refines (c := c) hget hsent (lt_of_not_tooLong hfits) _ (hbytes ▸ hs)
      sends alive
    rw [if_neg hfits] at hs₁
    obtain ⟨c', s', hruns, hs'⟩ := burst_refines hget turns r.1 rest (fun t ht => h t (List.mem_cons_of_mem _ ht)) hs₁
    exact ⟨c', s', .cons hrun hr hruns, hs'⟩

/-- **Packets that arrive in order are handled in order**, with any quiet `cycle`s between them. -/
theorem run_refines : ∀ (turns : List Turn) (c : Client) (line : List (Option Byte)), (∀ t ∈ turns, t.Fits) →
    ∃ c', RunRefines lineRead turns c (turns.flatMap Turn.line ++ line) c' line
  | [], c, line, _ => ⟨c, .nil _ _ _⟩
  | t :: turns, c, line, h => by
    obtain ⟨r, hrun, hr⟩ := cycle_turn (h t List.mem_cons_self) c (turns.flatMap Turn.line ++ line)
    obtain ⟨c', hruns⟩ := run_refines turns r.1 line fun u hu => h u (List.mem_cons_of_mem t hu)
    rw [List.flatMap_cons, List.append_assoc]
    exact ⟨c', .cons hrun hr hruns⟩

/-- A message on the control topic, at QoS 1. -/
def switched : Message := ⟨.QOS1, control, [49], 7⟩

/-- A quiet `cycle`, one that takes that message, and one that takes a PINGRESP. -/
def conversation : List Turn :=
  [⟨none, true, true⟩, ⟨some (.PUBLISH switched, 0x32, lengthDelimited control ++ (idBytes 1 7 ++ [49])), true, true⟩,
    ⟨some (.PINGRESP, 0xD0, []), true, true⟩]

theorem fits_conversation : ∀ t ∈ conversation, t.Fits := by
  simp only [conversation, List.forall_mem_cons, List.not_mem_nil, false_imp_iff, implies_true, and_true]
  refine ⟨?_, ?_, ?_⟩
  · intro a ha
    cases ha
  · intro a ha
    obtain rfl := Option.some.inj ha
    refine ⟨⟨rfl, by decide +kernel, ?_⟩, by decide +kernel⟩
    intro msg hmsg
    obtain rfl := Packet.PUBLISH.inj hmsg
    exact ⟨rfl, by decide +kernel, by decide, fun h => absurd h (by decide), rfl⟩
  · intro a ha
    obtain rfl := Option.some.inj ha
    refine ⟨⟨rfl, rfl, ?_⟩, by decide⟩
    intro msg hmsg
    cases hmsg

theorem cycles_conversation : (Client.listening.session.cycles (conversation.map Turn.event)).1.arrived = [switched] ∧
    (Client.listening.session.cycles (conversation.map Turn.event)).2.map Packet.answerBytes =
      [(Packet.PUBACK 7).answerBytes] := by
  decide +kernel

theorem run_refines_conversation : ∃ c' answers, (Client.listening.cycles (conversation.map Turn.flags)).run lineRead
      (conversation.flatMap Turn.line ++ [some 0x30]) = some ((c', answers), [some 0x30]) ∧
    c'.session.arrived = [switched] ∧ answers.map some = [(Packet.PUBACK 7).answerBytes] := by
  obtain ⟨c', answers, packets, hrun, hsession, hanswers⟩ :=
    run_refines conversation .listening [some 0x30] fits_conversation
  obtain ⟨harrived, hpackets⟩ := cycles_conversation
  rw [hsession] at harrived hpackets
  exact ⟨c', answers, hrun, harrived, hanswers.trans hpackets⟩

end Mqtt
end Ventilation
