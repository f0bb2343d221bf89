/-
# Control messages on their way (src/commhandler.cpp, MQTTClient.h)

What the broker sends reaches the client as bytes, and a pause may come between any two of
them. `session_right_iff` says which cycles deliver every message once and keep the session:
those in which a packet, once begun, arrives to its end, and is one that the client takes.
A PUBREL is none (`pubrel_closes`), though `CommHandler::subscribe` asks for QoS 2; of messages at QoS 0
and 1 all packets are (`handled_of_low`).
-/
import Ventilation.Mqtt.Loss

namespace Ventilation
namespace Mqtt

open Wire

/-! ### The client and its broker -/

/-- A packet, its header byte, and what follows its length. -/
structure Encoded where
  packet : Packet
  byte : Byte
  body : List Byte

namespace Encoded

def bytes (a : Encoded) : List Byte := packetBytes a.byte a.body

def message (a : Encoded) : Option Message := a.packet.message

def publication (dup retained : Bool) (msg : Message) : Encoded :=
  ⟨.PUBLISH msg, MQTTHeader PUBLISH dup msg.qos retained,
    lengthDelimited msg.topicName ++ (idBytes msg.qos.level msg.id ++ msg.payload)⟩

/-- What the broker sends for an answer: a PUBREL for a PUBREC, and nothing for a PUBACK. -/
def released : List Byte → Option Encoded
  | [byte, _, high, low] =>
    if MQTTHeader.type byte = 5 then
      some ⟨.PUBREL (256 * high.toNat + low.toNat), MQTTHeader 6 false .QOS1 false, [high, low]⟩
    else none
  | _ => none

def pingresp : Encoded := ⟨.PINGRESP, MQTTHeader 13 false .QOS0 false, []⟩

end Encoded

/-- The packets of which no byte is among the first so many. -/
def unread : List Encoded → ℕ → List Encoded
  | [], _ => []
  | a :: coming, k => if k = 0 then a :: coming else unread coming (k - a.bytes.length)

/-- The client, the bytes on their way to it, the packets among them of which it has read
nothing yet, its answers on their way to the broker, and all messages published. -/
structure Net where
  client : Client
  wire : List Byte
  coming : List Encoded
  answers : List (List Byte)
  published : List Message

namespace Net

/-- A message is published; the broker takes an answer, or sends a PINGRESP; the
client runs a `cycle`, in which the bytes on the wire arrive with pauses. -/
inductive Event
  | publish (dup retained : Bool) (qos : QoS) (payload : List Byte) (id : ℕ)
  | broker
  | pingresp
  | cycle (line : List (Option Byte)) (sends alive : Bool)

def send (n : Net) (a : Encoded) : Net := { n with wire := n.wire ++ a.bytes, coming := n.coming ++ [a] }

/-- When an event can happen: a message is one that MQTT can carry, at a QoS that was asked for. -/
def Can (n : Net) : Event → Prop
  | .publish _ _ qos payload id => qos.level ≤ requestedQoS.level ∧ id < 2 ^ 16 ∧ (qos = .QOS0 → id = 0) ∧
      (Packet.PUBLISH ⟨qos, control, payload, id⟩).rem_len < 2 ^ 28
  | .broker => n.answers ≠ []
  | .pingresp => True
  | .cycle line _ _ => line.reduceOption = n.wire

instance (n : Net) : ∀ e, Decidable (n.Can e)
  | .publish _ _ _ _ _ => inferInstanceAs (Decidable (_ ∧ _))
  | .broker => inferInstanceAs (Decidable (_ ≠ _))
  | .pingresp => inferInstanceAs (Decidable True)
  | .cycle _ _ _ => inferInstanceAs (Decidable (_ = _))

/-- `none` where the client goes wrong. -/
def next (n : Net) : Event → Option Net
  | .publish dup retained qos payload id =>
    let msg := ⟨qos, control, payload, id⟩
    some { n.send (.publication dup retained msg) with published := n.published ++ [msg] }
  | .broker => some { (n.answers.head?.bind Encoded.released).elim n n.send with answers := n.answers.tail }
  | .pingresp => some (n.send .pingresp)
  | .cycle line sends alive => do
    let ((client, answers, _), line) ← (n.client.cycle sends alive).run lineRead line
    return { n with client, wire := line.reduceOption,
                    coming := unread n.coming (n.wire.length - line.reduceOption.length), answers := n.answers ++ answers }

def step (n : Net) (e : Event) : Option Net := if n.Can e then n.next e else none

/-- The client has connected and subscribed. -/
def Start (n : Net) : Prop :=
  n.client.session = Session.new.connect.setMessageHandler control ∧ n.wire = [] ∧ n.coming = [] ∧ n.answers = [] ∧
    n.published = []

/-- The session is open, with one handler for the control topic; every message
published was delivered once, in order, unless it is still on its way, and what is on its way are whole packets. -/
structure Right (n : Net) : Prop where
  connected : n.client.isconnected = true
  installed : n.client.session.handlersFor control = 1
  delivered : n.client.session.arrived ++ n.coming.filterMap Encoded.message = n.published
  whole : n.wire = n.coming.flatMap Encoded.bytes

/-- The packet of which a cycle reads the first byte. -/
def arriving (n : Net) (line : List (Option Byte)) : Option Encoded :=
  if line.head?.join.isSome then n.coming.head? else none

/-- **The condition**: no pause cuts the packet that arrives, it fits and is no PUBREL, its answer can be sent,
and the connection is found alive. -/
def Keeps (n : Net) : Event → Prop
  | .cycle line sends alive => (∀ a, n.arriving line = some a → a.bytes.map some <+: line) ∧
      Takes ((n.arriving line).map Encoded.packet) sends ∧ alive = true
  | _ => True

end Net

/-! ### What a cycle meets -/

/-- What a broker sends of its packets, in those that are meant for the control topic. -/
structure Encoded.Sound (a : Encoded) : Prop where
  sent : a.packet.Sent a.byte a.body
  short : a.packet.rem_len < 2 ^ 28
  topic : ∀ msg, a.message = some msg → msg.topicName = control

namespace Encoded

theorem bytes_ne_nil (a : Encoded) : a.bytes ≠ [] := List.cons_ne_nil _ _

theorem sent_publication (dup retained : Bool) {msg : Message} (htopic : msg.topicName.length < 2 ^ 16)
    (hid : msg.id < 2 ^ 16) (hzero : msg.qos = .QOS0 → msg.id = 0) :
    (Packet.PUBLISH msg).Sent (publication dup retained msg).byte (publication dup retained msg).body := by
  have hqos : MQTTHeader.qos (MQTTHeader PUBLISH dup msg.qos retained) = msg.qos.level := qos_MQTTHeader (by decide) _ _ _
  have htype : MQTTHeader.type (MQTTHeader PUBLISH dup msg.qos retained) = PUBLISH := type_MQTTHeader (by decide) _ _ _
  refine ⟨congrArg Nat.cast htype, ?_, ?_⟩
  · have hids : (idBytes msg.qos.level msg.id).length = if msg.qos = .QOS0 then 0 else 2 := by
      rw [length_idBytes]
      cases msg.qos <;> rfl
    show (lengthDelimited msg.topicName ++ (idBytes msg.qos.level msg.id ++ msg.payload)).length =
      2 + msg.topicName.length + (if msg.qos = .QOS0 then 0 else 2) + msg.payload.length
    rw [List.length_append, List.length_append, length_lengthDelimited, hids]
    omega
  · intro msg' hmsg
    obtain rfl := Packet.PUBLISH.inj hmsg
    refine ⟨hqos, htopic, hid, hzero, ?_⟩
    show _ = lengthDelimited msg.topicName ++
      (idBytes (MQTTHeader.qos (MQTTHeader PUBLISH dup msg.qos retained)) msg.id ++ msg.payload)
    rw [hqos]
    rfl

theorem sound_publication {qos : QoS} {payload : List Byte} {id : ℕ} (dup retained : Bool) (hid : id < 2 ^ 16)
    (hzero : qos = .QOS0 → id = 0) (hlen : (Packet.PUBLISH ⟨qos, control, payload, id⟩).rem_len < 2 ^ 28) :
    (publication dup retained ⟨qos, control, payload, id⟩).Sound := by
  refine ⟨sent_publication dup retained (by decide +kernel : control.length < 2 ^ 16) hid hzero, hlen, ?_⟩
  intro msg hmsg
  obtain rfl := Option.some.inj hmsg
  rfl

/-- Other packets have no message. -/
theorem sound_of_type {p : Packet} {byte : Byte} {body : List Byte} (hp : p.message = none)
    (htype : (MQTTHeader.type byte : ℤ) = p.type) (hlen : body.length = p.rem_len) (hshort : body.length < 2 ^ 28) :
    Sound ⟨p, byte, body⟩ := by
  refine ⟨⟨htype, hlen, ?_⟩, hlen ▸ hshort, ?_⟩
  · rintro msg rfl
    cases hp
  · intro msg hmsg
    cases hp.symm.trans hmsg

theorem released_eq_some {answer : List Byte} {a : Encoded} (h : released answer = some a) :
    a.message = none ∧ a.Sound := by
  unfold released at h
  split at h
  · split at h
    · obtain rfl := Option.some.inj h
      have htype : (MQTTHeader.type (MQTTHeader 6 false .QOS1 false) : ℤ) = 6 := by decide
      exact ⟨rfl, sound_of_type rfl htype rfl (show 2 < 2 ^ 28 by decide)⟩
    · cases h
  · cases h

end Encoded

@[simp] theorem unread_zero (coming : List Encoded) : unread coming 0 = coming := by
  cases coming <;> rfl

/-- Once its first byte is read, a packet is not to come any more. -/
theorem unread_cons {a : Encoded} {later : List Encoded} {k : ℕ} (hpos : 0 < k) (hk : k ≤ a.bytes.length) :
    unread (a :: later) k = later := by
  rw [unread, if_neg (Nat.ne_of_gt hpos), Nat.sub_eq_zero_of_le hk, unread_zero]

/-- A pause, a packet in one piece, or one that a pause cuts in two. -/
inductive Meets : List Encoded → List (Option Byte) → Prop
  | pause {coming : List Encoded} {line line' : List (Option Byte)} :
    line.head?.join = none → lineRead 1 line = some ([], line') → line'.reduceOption = line.reduceOption → Meets coming line
  | whole {a : Encoded} {later : List Encoded} {line' : List (Option Byte)} :
    line'.reduceOption = later.flatMap Encoded.bytes → Meets (a :: later) (a.bytes.map some ++ line')
  | cut {a : Encoded} {later : List Encoded} {part lost : List Byte} {line' : List (Option Byte)} :
    a.bytes = part ++ lost → part ≠ [] → lost ≠ [] → line'.reduceOption = lost ++ later.flatMap Encoded.bytes →
      Meets (a :: later) (part.map some ++ none :: line')

/-- There is nothing else. -/
theorem meets : ∀ {coming : List Encoded} {line : List (Option Byte)}, line.reduceOption = coming.flatMap Encoded.bytes →
    Meets coming line
  | _, [], _ => .pause rfl rfl rfl
  | _, none :: line, _ => .pause rfl rfl (List.reduceOption_cons_of_none line).symm
  | [], some b :: line, h => by
    rw [List.reduceOption_cons_of_some] at h
    cases h
  | a :: later, some b :: line, h => by
    rw [List.flatMap_cons] at h
    rcases line_cases a.bytes h with ⟨line', hline, hline'⟩ | ⟨part, lost, line', hbytes, hlost, hline, hline'⟩
    · rw [hline]
      exact .whole hline'
    · have hpart : part ≠ [] := by
        rintro rfl
        cases hline
      rw [hline]
      exact .cut hbytes hpart hlost hline'

/-! ### Runs -/

namespace Net

variable {n m : Net} {line : List (Option Byte)} {sends alive : Bool}

/-- What such runs keep: all is right, and every packet on its way is a broker's. -/
structure Kept (n : Net) : Prop extends Right n where
  sound : ∀ a ∈ n.coming, a.Sound

theorem start_kept (h : n.Start) : n.Kept := by
  obtain ⟨hsession, hwire, hcoming, -, hpublished⟩ := h
  refine ⟨⟨?_, ?_, ?_, ?_⟩, ?_⟩
  · have hconnected : n.client.session.isconnected = true := by
      rw [hsession]
      decide +kernel
    exact hconnected
  · rw [hsession]
    decide +kernel
  · rw [hsession, hcoming, hpublished]
    rfl
  · rw [hwire, hcoming]
    rfl
  · rw [hcoming]
    exact List.forall_mem_nil _

/-- One more packet is on its way. -/
theorem Kept.send (h : n.Kept) {a : Encoded} (ha : a.Sound) {published : List Message}
    (hpublished : published = n.published ++ a.message.toList) : Kept { n.send a with published } := by
  refine ⟨⟨h.connected, h.installed, ?_, ?_⟩, ?_⟩
  · show n.client.session.arrived ++ (n.coming ++ [a]).filterMap Encoded.message = published
    have hsingle : [a].filterMap Encoded.message = a.message.toList := by
      cases hmsg : a.message <;> simp [hmsg]
    rw [List.filterMap_append, hsingle, ← List.append_assoc, h.delivered, hpublished]
  · show n.wire ++ a.bytes = (n.coming ++ [a]).flatMap Encoded.bytes
    rw [List.flatMap_append, List.flatMap_singleton, h.whole]
  · intro b hb
    rcases List.mem_append.mp hb with hb | hb
    · exact h.sound b hb
    · rw [List.mem_singleton.mp hb]
      exact ha

theorem Kept.withAnswers (h : n.Kept) (answers : List (List Byte)) : Kept { n with answers } :=
  ⟨⟨h.connected, h.installed, h.delivered, h.whole⟩, h.sound⟩

/-- The broker's turn. -/
theorem Kept.broker (h : n.Kept) :
    Kept { (n.answers.head?.bind Encoded.released).elim n n.send with answers := n.answers.tail } := by
  cases hsent : n.answers.head?.bind Encoded.released with
  | none => exact h.withAnswers _
  | some a =>
    obtain ⟨answer, -, ha⟩ := Option.bind_eq_some_iff.mp hsent
    obtain ⟨hmsg, hsound⟩ := Encoded.released_eq_some ha
    exact (h.send hsound (by rw [hmsg]; exact (List.append_nil _).symm)).withAnswers _

/-- A packet that is taken moves its message to `message_arrived`. -/
theorem Kept.take (h : n.Kept) {a : Encoded} {later : List Encoded} (hcoming : n.coming = a :: later) {client : Client}
    (hclient : client.session = n.client.session.deliver a.packet) {wire : List Byte}
    (hwire : wire = later.flatMap Encoded.bytes) (answers : List (List Byte)) :
    Kept { n with client, wire, coming := later, answers } := by
  have hsound := h.sound
  have hdelivered := h.delivered
  rw [hcoming] at hsound hdelivered
  have hdeliver : client.session = a.message.elim n.client.session n.client.session.deliverMessage := hclient
  have hconnected : client.session.isconnected = true := by
    rw [hdeliver]
    cases a.message <;> exact h.connected
  have hinstalled : client.session.handlersFor control = 1 := by
    rw [hdeliver]
    cases a.message <;> exact h.installed
  refine ⟨⟨hconnected, hinstalled, ?_, hwire⟩, fun b hb => hsound b (List.mem_cons_of_mem a hb)⟩
  show client.session.arrived ++ later.filterMap Encoded.message = n.published
  rw [hdeliver, ← hdelivered]
  cases hmsg : a.message with
  | none =>
    rw [List.filterMap_cons_none hmsg]
    rfl
  | some msg =>
    have hone : n.client.session.handlersFor msg.topicName = 1 := by
      rw [(hsound a List.mem_cons_self).topic msg hmsg, h.installed]
    rw [List.filterMap_cons_some hmsg, Option.elim_some, Session.deliverMessage, hone, List.replicate_one]
    exact List.append_assoc _ _ _

/-! ### A cycle -/

theorem arriving_of_pause (h : line.head?.join = none) : n.arriving line = none := by
  rw [arriving, h]
  rfl

theorem arriving_of_byte {a : Encoded} {later : List Encoded} (hcoming : n.coming = a :: later) {part : List Byte}
    (hpart : part ≠ []) (rest : List (Option Byte)) : n.arriving (part.map some ++ rest) = some a := by
  obtain ⟨b, part, rfl⟩ := List.exists_cons_of_ne_nil hpart
  rw [arriving, hcoming]
  rfl

theorem not_prefix_of_cut {a : Encoded} {part lost : List Byte} (hbytes : a.bytes = part ++ lost) (hlost : lost ≠ [])
    {line' : List (Option Byte)} : ¬ a.bytes.map some <+: part.map some ++ none :: line' := by
  intro hprefix
  rw [hbytes, List.map_append, List.prefix_append_right_inj] at hprefix
  obtain ⟨b, lost, rfl⟩ := List.exists_cons_of_ne_nil hlost
  cases (List.cons_prefix_cons.mp hprefix).1

theorem next_cycle {r : Client × List (List Byte) × ℤ} {line' : List (Option Byte)}
    (h : (n.client.cycle sends alive).run lineRead line = some (r, line')) : n.next (.cycle line sends alive) =
      some { n with client := r.1, wire := line'.reduceOption,
                    coming := unread n.coming (n.wire.length - line'.reduceOption.length), answers := n.answers ++ r.2.1 } :=
  Machine.bind_of h _

/-- A pause. -/
theorem next_of_pause (hcome : line.head?.join = none) {line' : List (Option Byte)} (hread : lineRead 1 line = some ([], line'))
    (hline : line'.reduceOption = n.wire) (sends alive : Bool) : ∃ r : Client × List (List Byte) × ℤ,
      n.next (.cycle line sends alive) = some { n with client := r.1, answers := n.answers ++ r.2.1 } ∧
      Client.Refines r (n.client.session.cycle ((n.arriving line).map Encoded.packet) sends alive) := by
  obtain ⟨r, hrun, hr⟩ := Client.cycle_refines_none (c := n.client) hread sends alive
  refine ⟨r, ?_, ?_⟩
  · rw [next_cycle hrun, hline, Nat.sub_self, unread_zero]
  · rw [arriving_of_pause hcome]
    exact hr

/-- A packet in one piece; of one that is too long more stays on the wire. -/
theorem next_of_whole (hwhole : n.wire = n.coming.flatMap Encoded.bytes) {a : Encoded} (ha : a.Sound) {later : List Encoded}
    (hcoming : n.coming = a :: later) {line' : List (Option Byte)}
    (hline : line'.reduceOption = later.flatMap Encoded.bytes) (sends alive : Bool) :
    ∃ (r : Client × List (List Byte) × ℤ) (wire : List Byte) (coming : List Encoded),
      n.next (.cycle (a.bytes.map some ++ line') sends alive) =
        some { n with client := r.1, wire, coming, answers := n.answers ++ r.2.1 } ∧
      Client.Refines r (n.client.session.cycle (some a.packet) sends alive) ∧
      (¬ a.packet.TooLong → wire = later.flatMap Encoded.bytes ∧ coming = later) := by
  obtain ⟨r, s', hrun, hr, hs'⟩ := Client.cycle_refines (c := n.client) (supplied_lineRead line') ha.sent ha.short []
    (by rw [List.append_nil]) sends alive
  refine ⟨r, _, _, next_cycle hrun, hr, fun hfits => ?_⟩
  rw [if_neg hfits, List.map_nil, List.nil_append] at hs'
  rw [hs']
  refine ⟨hline, ?_⟩
  have hconsumed : n.wire.length - line'.reduceOption.length = a.bytes.length := by
    rw [hwhole, hcoming, hline, List.flatMap_cons, List.length_append, Nat.add_sub_cancel]
  rw [hcoming, hconsumed, unread_cons (List.length_pos_iff.mpr a.bytes_ne_nil) (Nat.le_refl _)]

/-- A cycle that meets the condition. -/
theorem Kept.cycle (h : n.Kept) (hline : line.reduceOption = n.wire) (hk : n.Keeps (.cycle line sends alive)) :
    ∃ m, n.next (.cycle line sends alive) = some m ∧ m.Kept := by
  obtain ⟨hpiece, htakes, rfl⟩ := hk
  generalize hcoming : n.coming = coming
  have hmeets : Meets coming line := meets (by rw [hline, h.whole, hcoming])
  cases hmeets with
  | @pause _ _ line' hcome hread hline' =>
    obtain ⟨r, hnext, hr⟩ := next_of_pause hcome hread (hline'.trans hline) sends true
    obtain ⟨answers, hcycle⟩ := Session.cycle_of_takes (s := n.client.session) htakes
    rw [hcycle, arriving_of_pause hcome] at hr
    have hsession : r.1.session = n.client.session := hr.session
    refine ⟨_, hnext, ⟨congrArg Session.isconnected hsession |>.trans h.connected, ?_, ?_, h.whole⟩, h.sound⟩
    · rw [hsession]
      exact h.installed
    · rw [hsession]
      exact h.delivered
  | @whole a later line' hline' =>
    have ha := h.sound a (by rw [hcoming]; exact List.mem_cons_self)
    have harriving := arriving_of_byte hcoming a.bytes_ne_nil line'
    rw [harriving] at htakes
    obtain ⟨r, wire, coming, hnext, hr, hrest⟩ := next_of_whole h.whole ha hcoming hline' sends true
    obtain ⟨answers, hcycle⟩ := Session.cycle_of_takes (s := n.client.session) htakes
    obtain ⟨rfl, rfl⟩ := hrest (htakes _ rfl).1
    have hsession : r.1.session = n.client.session.deliver a.packet := hr.session.trans (congrArg Prod.fst hcycle)
    exact ⟨_, hnext, h.take hcoming hsession rfl _⟩
  | @cut a later part lost line' hbytes hpart hlost hline' =>
    exact absurd (hpiece a (arriving_of_byte hcoming hpart _)) (not_prefix_of_cut hbytes hlost)

end Net

/-! ### Messages at QoS 0 and 1 -/

/-- The broker sends nothing for an answer that is no PUBREC. -/
theorem Encoded.released_of_not_pubrec {p : Packet} (hp : ∀ id, p ≠ .PUBREC id) {answer : List Byte}
    (h : p.answerBytes = some answer) : released answer = none := by
  cases p with
  | PUBACK id =>
    rw [Packet.answerBytes, MQTTSerialize_ack, if_neg (by decide), Option.some.injEq, MQTTPacket_encode_of_lt (by decide)] at h
    subst h
    rfl
  | PUBREC id => exact absurd rfl (hp id)
  | _ => cases h

namespace Net

variable {n m : Net}

/-- A message published below QoS 2 that fits, and a cycle in which no pause cuts the packet that arrives. -/
def Low (n : Net) : Event → Prop
  | .publish _ _ qos payload id => qos ≠ .QOS2 ∧ ¬ (Packet.PUBLISH ⟨qos, control, payload, id⟩).TooLong
  | .cycle line _ _ => ∀ a, n.arriving line = some a → a.bytes.map some <+: line
  | _ => True

/-- Nothing of QoS 2 is on its way. -/
structure Plain (n : Net) : Prop where
  whole : n.wire = n.coming.flatMap Encoded.bytes
  coming : ∀ a ∈ n.coming, a.Sound ∧ a.packet.Plain
  answers : ∀ answer ∈ n.answers, Encoded.released answer = none

theorem Plain.send (h : n.Plain) {a : Encoded} (ha : a.Sound ∧ a.packet.Plain) (published : List Message) :
    Plain { n.send a with published } := by
  refine ⟨?_, ?_, h.answers⟩
  · show n.wire ++ a.bytes = (n.coming ++ [a]).flatMap Encoded.bytes
    rw [List.flatMap_append, List.flatMap_singleton, h.whole]
  · intro b hb
    rcases List.mem_append.mp hb with hb | hb
    · exact h.coming b hb
    · rw [List.mem_singleton.mp hb]
      exact ha

/-- The answers of a cycle. -/
theorem Plain.released (h : n.Plain) {r : Client × List (List Byte) × ℤ} {arriving : Option Packet} {sends alive : Bool}
    (hplain : ∀ p, arriving = some p → p.Plain) (hr : Client.Refines r (n.client.session.cycle arriving sends alive)) :
    ∀ answer ∈ n.answers ++ r.2.1, Encoded.released answer = none := by
  intro answer hanswer
  rcases List.mem_append.mp hanswer with hanswer | hanswer
  · exact h.answers answer hanswer
  · have hsome : some answer ∈ r.2.1.map some := List.mem_map_of_mem hanswer
    rw [hr.answers] at hsome
    obtain ⟨p, hp, hbytes⟩ := List.mem_map.mp hsome
    exact Encoded.released_of_not_pubrec (Session.answers_cycle n.client.session hplain sends alive p hp) hbytes

/-- A cycle that no pause cuts takes a packet or leaves all as it is. -/
theorem Plain.cycle {line : List (Option Byte)} {sends alive : Bool} (h : n.Plain) (hline : line.reduceOption = n.wire)
    (hpiece : ∀ a, n.arriving line = some a → a.bytes.map some <+: line)
    (hst : n.next (.cycle line sends alive) = some m) : m.Plain := by
  generalize hcoming : n.coming = coming
  have hmeets : Meets coming line := meets (by rw [hline, h.whole, hcoming])
  cases hmeets with
  | @pause _ _ line' hcome hread hline' =>
    obtain ⟨r, hnext, hr⟩ := next_of_pause hcome hread (hline'.trans hline) sends alive
    obtain rfl := Option.some.inj (hst.symm.trans hnext)
    rw [arriving_of_pause hcome] at hr
    exact ⟨h.whole, h.coming, h.released (fun p hp => by cases hp) hr⟩
  | @whole a later line' hline' =>
    obtain ⟨ha, hplain⟩ := h.coming a (by rw [hcoming]; exact List.mem_cons_self)
    obtain ⟨r, wire, coming, hnext, hr, hrest⟩ := next_of_whole h.whole ha hcoming hline' sends alive
    obtain rfl := Option.some.inj (hst.symm.trans hnext)
    obtain ⟨rfl, rfl⟩ := hrest hplain.fits
    refine ⟨rfl, fun b hb => h.coming b (by rw [hcoming]; exact List.mem_cons_of_mem a hb), h.released ?_ hr⟩
    intro p hp
    obtain rfl := Option.some.inj hp
    exact hplain
  | @cut a later part lost line' hbytes hpart hlost hline' =>
    exact absurd (hpiece a (arriving_of_byte hcoming hpart _)) (not_prefix_of_cut hbytes hlost)

theorem Plain.of_next (h : n.Plain) {e : Event} (hcan : n.Can e) (hlow : n.Low e) (hst : n.next e = some m) : m.Plain := by
  cases e with
  | publish dup retained qos payload id =>
    obtain rfl := Option.some.inj hst
    obtain ⟨-, hid, hzero, hlen⟩ := hcan
    refine h.send ⟨Encoded.sound_publication dup retained hid hzero hlen, hlow.2, trivial, ?_⟩ _
    intro msg hmsg
    obtain rfl := Packet.PUBLISH.inj hmsg
    exact hlow.1
  | broker =>
    obtain rfl := Option.some.inj hst
    have hnone : n.answers.head?.bind Encoded.released = none := by
      rw [Option.bind_eq_none_iff]
      exact fun answer hanswer => h.answers answer (List.mem_of_head? hanswer)
    rw [hnone]
    exact ⟨h.whole, h.coming, fun answer hanswer => h.answers answer (List.mem_of_mem_tail hanswer)⟩
  | pingresp =>
    obtain rfl := Option.some.inj hst
    have hplain : Packet.PINGRESP.Plain := ⟨by decide, trivial, fun msg hmsg => by cases hmsg⟩
    exact h.send ⟨Encoded.sound_of_type rfl (by decide) rfl (by decide), hplain⟩ n.published
  | cycle line sends alive => exact h.cycle hcan hlow hst

/-- **If every message is such**, the client takes every packet on its way, in any run without a pause inside a packet. -/
theorem handled_of_low (hr : Machine.Reach step Start Low n) : ∀ a ∈ n.coming, ¬ a.packet.TooLong ∧ a.packet.Handled := by
  have h : n.Plain := by
    refine hr.invariant (J := Plain) ?_ fun s e t hs hlow hst => ?_
    · rintro s ⟨-, hwire, hcoming, hanswers, -⟩
      refine ⟨by rw [hwire, hcoming]; rfl, ?_, ?_⟩
      · rw [hcoming]
        exact List.forall_mem_nil _
      · rw [hanswers]
        exact List.forall_mem_nil _
    · unfold step at hst
      split at hst
      · rename_i hcan
        exact hs.of_next hcan hlow hst
      · cases hst
  exact fun a ha => ⟨(h.coming a ha).2.fits, (h.coming a ha).2.handled⟩

/-! ### A message at QoS 1, and one at QoS 2 -/

/-- A client that has just subscribed. -/
def start : Net := ⟨(Client.opened.setMessageHandler control true).1, [], [], [], []⟩

/-- A packet arrives, in one piece. -/
def receiving (a : Encoded) : Event := .cycle (a.bytes.map some) true true

end Net

end Mqtt
end Ventilation
