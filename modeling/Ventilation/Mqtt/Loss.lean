/-
# Losing the session (MQTTClient.h, main.cpp)

A pause inside a packet. Behind the length it ends the session (`cycle_torn`), and as `main` does not connect
again, nothing arrives and nothing is published from then on, whatever bytes come (`torn_for_good`). Right behind the
header byte it is not noticed: the packet is taken for one without a body, and the rest for the next
packet (`torn_header_iff`). Wherever it is, the session ends or a rest of the packet stays on the line (`cycle_cut`).
-/
import Ventilation.Mqtt.Handshake

namespace Ventilation
namespace Mqtt

open Wire

/-! ### The loop of `main` -/

/-- `publish` at QoS 0: the client, what is sent, and `rc`. -/
def Client.publish (topicName : CString) (payload : List Byte) (sends : Bool) (c : Client) : Client × List (List Byte) × ℤ :=
  if c.isconnected then
    match MQTTSerialize_publish MAX_MQTT_PACKET_SIZE false .QOS0 false 0 topicName payload with
    | none => (c, [], -1)
    | some packet => if sends then (c, [packet], 0) else (c.closeSession, [], -1)
  else (c, [], -1)

/-- What becomes of the packet. -/
def publishResult (topicName : CString) (payload : List Byte) (sends : Bool) : PublishResult :=
  if (MQTTSerialize_publish MAX_MQTT_PACKET_SIZE false .QOS0 false 0 topicName payload).isNone then .tooLong
  else if sends then .sent else .failed

/-- The handler's client does the same. -/
theorem Client.publish_session (topicName : CString) (payload : List Byte) (sends : Bool) (c : Client)
    (subscribed : String → Bool) :
    Ventilation.Client.publish ⟨c.isconnected, subscribed⟩ (publishResult topicName payload sends) =
      (⟨(c.publish topicName payload sends).1.isconnected, subscribed⟩, (c.publish topicName payload sends).2.2) := by
  unfold Client.publish publishResult Ventilation.Client.publish
  cases hc : c.isconnected with
  | false => simp [hc]
  | true =>
    cases MQTTSerialize_publish MAX_MQTT_PACKET_SIZE false .QOS0 false 0 topicName payload with
    | none => simp [hc]
    | some packet =>
      have hclosed := (Client.closeSession_spec c).1
      cases sends <;> simp [hc, hclosed, Ventilation.Client.closeSession]

/-- The client in the loop, its network, and what it has published. -/
structure InLoop (σ : Type) where
  client : Client
  network : σ
  published : List (List Byte)

namespace InLoop

/-- A status, or the call of `yield`. -/
inductive Event
  | publish (topicName : CString) (payload : List Byte) (sends : Bool)
  | yield (turns : List (Bool × Bool))

variable {σ : Type} (get : ℕ → StateT σ Option (List Byte))

def step (l : InLoop σ) : Event → Option (InLoop σ)
  | .publish topicName payload sends =>
    let (client, packets, _) := l.client.publish topicName payload sends
    some { l with client, published := l.published ++ packets }
  | .yield turns => do
    let ((client, _, _), network) ← (l.client.yield turns).run get l.network
    return { l with client, network }

end InLoop

/-! ### A closed session -/

/-- It is closed, and has no handlers. -/
structure Client.Lost (c : Client) : Prop where
  closed : c.isconnected = false
  handlers : c.messageHandlers = .replicate 5 none

namespace Client

variable {c c' : Client}

theorem lost_closeSession (hclean : c.cleansession = true) : c.closeSession.Lost := by
  unfold closeSession
  rw [if_pos hclean]
  exact ⟨rfl, rfl⟩

/-- Nothing is delivered, whatever is read. -/
theorem Lost.deliverMessage (h : c.Lost) (data : PublishData) : c.deliverMessage data = some c := by
  have hslots : c.messageHandlers.toList = [none, none, none, none, none] := by
    rw [h.handlers]
    rfl
  unfold Client.deliverMessage
  rw [hslots]
  rfl

theorem Lost.handlePublish {sends atOnce : Bool} {answers : List (List Byte)} {rc : ℤ} (h : c.Lost)
    (hp : c.handlePublish sends = some (c', answers, rc, atOnce)) : c' = c := by
  unfold Client.handlePublish at hp
  obtain ⟨⟨⟨rc₁, data⟩, left⟩, -, hp⟩ := Option.bind_eq_some_iff.mp hp
  dsimp only at hp
  split at hp
  · rw [Machine.bind_of (h.deliverMessage data)] at hp
    unfold acknowledge at hp
    split at hp
    · simp only [Option.some.injEq, Prod.mk.injEq] at hp
      exact hp.1.symm
    · obtain ⟨answer, -, hp⟩ := Option.map_eq_some_iff.mp hp
      cases answer with
      | none =>
        simp only [Prod.mk.injEq] at hp
        exact hp.1.symm
      | some answer =>
        cases sends <;> simp only [Bool.false_eq_true, if_false, if_true, Prod.mk.injEq] at hp <;> exact hp.1.symm
  · simp only [Option.pure_def, Option.some.injEq, Prod.mk.injEq] at hp
    exact hp.1.symm

theorem Lost.work {packet_type rc : ℤ} {sends alive : Bool} {answers : List (List Byte)} (h : c.Lost)
    (hw : c.work packet_type sends alive = some (c', answers, rc)) : c' = c := by
  obtain ⟨⟨c₁, answers₁, rc₁, atOnce⟩, hhandle, hw⟩ := Option.bind_eq_some_iff.mp hw
  have hsame : c₁ = c := by
    unfold handle at hhandle
    split_ifs at hhandle
    · exact h.handlePublish hhandle
    · simp only [Option.some.injEq, Prod.mk.injEq] at hhandle
      exact hhandle.1.symm
    · simp only [Option.some.injEq, Prod.mk.injEq] at hhandle
      exact hhandle.1.symm
  have hexit : c₁.exit answers₁ (if atOnce || alive then rc₁ else -1) packet_type = (c', answers, rc) := Option.some.inj hw
  unfold exit at hexit
  rw [hsame, h.closed, if_neg Bool.false_ne_true] at hexit
  split_ifs at hexit <;> exact (congrArg Prod.fst hexit).symm

end Client

section Closed

variable {σ : Type} {get : ℕ → StateT σ Option (List Byte)} {c c' : Client} {s s' : σ}

/-- The same, but for the buffer. -/
def Same (c c' : Client) : Prop := ∃ readbuf, c' = { c with readbuf }

theorem Same.lost (h : Same c c') (hc : c.Lost) : c'.Lost := by
  obtain ⟨readbuf, rfl⟩ := h
  exact ⟨hc.closed, hc.handlers⟩

theorem Same.trans {c'' : Client} (h : Same c c') (h' : Same c' c'') : Same c c'' := by
  obtain ⟨_, rfl⟩ := h
  obtain ⟨readbuf, rfl⟩ := h'
  exact ⟨readbuf, rfl⟩

theorem Same.arrived (h : Same c c') : c'.arrived = c.arrived := by
  obtain ⟨_, rfl⟩ := h
  rfl

/-- A `cycle` of a closed session changes the buffer alone. -/
theorem Client.Lost.cycle {sends alive : Bool} {answers : List (List Byte)} {rc : ℤ} (hc : c.Lost)
    (h : (c.cycle sends alive).run get s = some ((c', answers, rc), s')) : Same c c' := by
  unfold Client.cycle at h
  rw [Reading.run_bind, bind_apply] at h
  obtain ⟨⟨⟨packet_type, readbuf⟩, s₁⟩, -, h⟩ := Option.bind_eq_some_iff.mp h
  rw [Reading.run_lift] at h
  dsimp only at h
  cases hw : Client.work { c with readbuf } packet_type sends alive with
  | none =>
    rw [hw] at h
    cases h
  | some r =>
    rw [hw, lift_apply rfl, Option.some.injEq, Prod.mk.injEq] at h
    obtain ⟨rfl, -⟩ := h
    have hlost : ({ c with readbuf } : Client).Lost := ⟨hc.closed, hc.handlers⟩
    exact ⟨readbuf, hlost.work hw⟩

/-- So does a `yield`. -/
theorem Client.Lost.yield : ∀ (turns : List (Bool × Bool)) {c c' : Client} {s s' : σ} {answers : List (List Byte)}
    {rc : ℤ}, c.Lost → (c.yield turns).run get s = some ((c', answers, rc), s') → Same c c'
  | [], c, c', s, s', answers, rc, _, h => by
    obtain ⟨rfl, -⟩ := Prod.mk.inj (Prod.mk.inj (Option.some.inj h)).1
    exact ⟨c.readbuf, rfl⟩
  | (sends, alive) :: turns, c, c', s, s', answers, rc, hc, h => by
    cases hcycle : (c.cycle sends alive).run get s with
    | none =>
      rw [Client.yield, Reading.run_bind, bind_apply, hcycle] at h
      cases h
    | some r =>
      obtain ⟨⟨c₁, answers₁, rc₁⟩, s₁⟩ := r
      have hsame := hc.cycle hcycle
      rw [yield_cons hcycle] at h
      split at h
      · simp only [Option.some.injEq, Prod.mk.injEq] at h
        rw [← h.1.1]
        exact hsame
      · obtain ⟨⟨⟨c'', later, rc'⟩, s''⟩, hyield, h⟩ := Option.map_eq_some_iff.mp h
        simp only [Prod.mk.injEq] at h
        rw [← h.1.1]
        exact hsame.trans (Client.Lost.yield turns (hsame.lost hc) hyield)

/-- **A lost session stays lost** in the loop: nothing arrives, and nothing is published. -/
theorem lost_for_good {l l' : InLoop σ} {es : List InLoop.Event} (hl : l.client.Lost)
    (hrun : Machine.run (InLoop.step get) l es = some l') :
    Same l.client l'.client ∧ l'.published = l.published := by
  have hreach : Machine.Reach (InLoop.step get) (· = l) Machine.Always l' :=
    Machine.Reach.run (.init rfl) (fun _ _ _ => trivial) hrun
  refine hreach.invariant (J := fun l' => Same l.client l'.client ∧ l'.published = l.published) ?_ ?_
  · rintro _ rfl
    exact ⟨⟨_, rfl⟩, rfl⟩
  · rintro l₁ e l₂ ⟨hsame, hpublished⟩ - hst
    have hlost := hsame.lost hl
    cases e with
    | publish topicName payload sends =>
      have hnone : l₁.client.publish topicName payload sends = (l₁.client, [], -1) := by
        unfold Client.publish
        rw [hlost.closed, if_neg Bool.false_ne_true]
      simp only [InLoop.step, hnone, Option.some.injEq] at hst
      subst hst
      exact ⟨hsame, (List.append_nil _).trans hpublished⟩
    | yield turns =>
      obtain ⟨⟨⟨c', answers, rc⟩, s'⟩, hyield, hst⟩ := Option.bind_eq_some_iff.mp hst
      obtain rfl := Option.some.inj hst
      exact ⟨hsame.trans (hlost.yield turns hyield), hpublished⟩

end Closed

/-! ### A pause in the body -/

section Torn

variable {c : Client} {part lost : List Byte}

/-- `readPacket` still returns what the read of the header has returned. -/
theorem readPacket_torn (readbuf : Readbuf) (hfits : FitsReadbuf (part ++ lost)) (hlost : lost ≠ []) (byte : Byte)
    (line : List (Option Byte)) :
    ∃ readbuf', (readPacket readbuf).run lineRead
      ((byte :: (MQTTPacket_encode (part ++ lost).length ++ part)).map some ++ none :: line) = some ((1, readbuf'), line) := by
  have hn := lt_of_fitsReadbuf hfits
  have hencode := length_MQTTPacket_encode hn
  have hshort : part.length < (part ++ lost).length := by
    have := List.length_pos_iff.mpr hlost
    rw [List.length_append]
    omega
  obtain ⟨b₁, hb₁⟩ := Buffer.store_isSome readbuf (i := 0) [byte] (Nat.le_of_ble_eq_true rfl)
  obtain ⟨b₂, hb₂⟩ := Buffer.store_isSome b₁ (i := 1) (MQTTPacket_encode (part ++ lost).length)
    (by rw [hencode, FitsReadbuf] at *; omega)
  obtain ⟨b₃, hb₃⟩ := Buffer.store_isSome b₂ (i := 1 + (MQTTPacket_encode (part ++ lost).length).length) part
    (by rw [hencode, FitsReadbuf] at *; omega)
  have hheader : lineRead 1 ((byte :: (MQTTPacket_encode (part ++ lost).length ++ part)).map some ++ none :: line) =
      some ([byte], (MQTTPacket_encode (part ++ lost).length ++ part).map some ++ none :: line) :=
    lineRead_map 1 (byte :: (MQTTPacket_encode (part ++ lost).length ++ part)) (none :: line) (Nat.le_add_left 1 _)
  obtain ⟨_, hdecode, rfl⟩ := (supplied_lineRead (none :: line)).run decodePacket rfl (consumes_decode hn part)
  refine ⟨b₃, ?_⟩
  unfold readPacket
  rw [Reading.run_bind, bind_apply, Reading.run_take, hheader, Option.bind_some, Reading.run_bind, bind_apply, Reading.run_lift,
    lift_apply hb₁, Option.bind_some, if_neg (by simp)]
  unfold readLength
  rw [Reading.run_bind, bind_apply, hdecode, Option.bind_some]
  dsimp only
  rw [Reading.run_bind, bind_apply, Reading.run_lift, lift_apply hb₂, Option.bind_some,
    if_neg (by rw [hencode]; rw [FitsReadbuf] at hfits; push_cast; omega)]
  unfold readRest
  rw [if_pos (by omega), Reading.run_bind, bind_apply, Reading.run_take, lineRead_pause _ _ _ hshort, Option.bind_some,
    Reading.run_bind, bind_apply, Reading.run_lift, lift_apply hb₃, Option.bind_some, if_pos (Nat.ne_of_lt hshort)]
  rfl

/-- So the session ends. -/
theorem cycle_torn (hc : c.isconnected = true) (hfits : FitsReadbuf (part ++ lost)) (hlost : lost ≠ []) (byte : Byte)
    (sends alive : Bool) (line : List (Option Byte)) : ∃ readbuf : Readbuf, (c.cycle sends alive).run lineRead
      ((byte :: (MQTTPacket_encode (part ++ lost).length ++ part)).map some ++ none :: line) =
        some ((({ c with readbuf } : Client).closeSession, [], 1), line) := by
  obtain ⟨readbuf, hread⟩ := readPacket_torn c.readbuf hfits hlost byte line
  have hwork : Client.work { c with readbuf } 1 sends alive = some (({ c with readbuf } : Client).closeSession, [], 1) := by
    have hexit : Client.exit { c with readbuf } [] 1 1 = (({ c with readbuf } : Client).closeSession, [], 1) := by
      rw [Client.exit, if_neg (by decide), if_pos hc]
    exact congrArg some hexit
  refine ⟨readbuf, ?_⟩
  unfold Client.cycle
  rw [Reading.run_bind, bind_apply, hread, Option.bind_some, Reading.run_lift]
  exact lift_apply hwork line

/-- **After a pause in a packet's body the loop is cut off**: the session ends, whatever the packet is, and from then on
nothing arrives and nothing is published, whatever else comes. -/
theorem torn_for_good (hc : c.isconnected = true) (hclean : c.cleansession = true) (hfits : FitsReadbuf (part ++ lost))
    (hlost : lost ≠ []) (byte : Byte) (sends alive : Bool) (line : List (Option Byte)) :
    let torn := (byte :: (MQTTPacket_encode (part ++ lost).length ++ part)).map some ++ none :: line
    (∃ c', (c.cycle sends alive).run lineRead torn = some ((c', [], 1), line) ∧ c'.isconnected = false) ∧
    ∀ (turns : List (Bool × Bool)) (es : List InLoop.Event) (published : List (List Byte)) (l : InLoop (List (Option Byte))),
      Machine.run (InLoop.step lineRead) ⟨c, torn, published⟩ (.yield ((sends, alive) :: turns) :: es) = some l →
      l.client.isconnected = false ∧ l.client.arrived = c.arrived ∧ l.published = published := by
  intro torn
  obtain ⟨readbuf, hcycle⟩ := cycle_torn hc hfits hlost byte sends alive line
  have hlostSession : ({ c with readbuf } : Client).closeSession.Lost := Client.lost_closeSession hclean
  have harrived : ({ c with readbuf } : Client).closeSession.arrived = c.arrived := (Client.closeSession_spec _).2.2
  refine ⟨⟨_, hcycle, hlostSession.closed⟩, fun turns es published l hrun => ?_⟩
  rw [Machine.run_cons] at hrun
  obtain ⟨l₁, hst, hrun⟩ := Option.bind_eq_some_iff.mp hrun
  obtain ⟨⟨⟨c', answers, rc⟩, s'⟩, hyield, hst⟩ := Option.bind_eq_some_iff.mp hst
  obtain rfl := Option.some.inj hst
  have hsame : Same ({ c with readbuf } : Client).closeSession c' := by
    rw [yield_cons hcycle, if_neg (by decide)] at hyield
    obtain ⟨⟨⟨c'', later, rc'⟩, s''⟩, hlater, hyield⟩ := Option.map_eq_some_iff.mp hyield
    simp only [Prod.mk.injEq] at hyield
    rw [← hyield.1.1]
    exact hlostSession.yield turns hlater
  obtain ⟨hsame', hpublished⟩ := lost_for_good (hsame.lost hlostSession) hrun
  exact ⟨((hsame.trans hsame').lost hlostSession).closed, (hsame.trans hsame').arrived.trans harrived, hpublished⟩

/-- A PUBLISH that breaks off in its topic, and then a message of the device. -/
theorem torn_for_good_topic : ∃ l, Machine.run (InLoop.step lineRead)
      ⟨.opened, ((0x30 : Byte) :: (MQTTPacket_encode ([0] ++ [1, 97] : List Byte).length ++ [0])).map some ++ none :: [], []⟩
      [.yield [(true, true)], .publish controlTopic [49] true] = some l ∧ l.client.isconnected = false ∧ l.published = [] := by
  obtain ⟨⟨c', hcycle, hclosed⟩, hgood⟩ := torn_for_good (c := .opened) rfl rfl
    (by decide : FitsReadbuf ([0] ++ [1, 97])) (by decide) 0x30 true true []
  have hyield : (Client.opened.yield [(true, true)]).run lineRead
      (((0x30 : Byte) :: (MQTTPacket_encode ([0] ++ [1, 97] : List Byte).length ++ [0])).map some ++ none :: []) =
        some ((c', [], 0), []) := by
    rw [yield_cons hcycle, if_neg (by decide)]
    rfl
  have hpublish : c'.publish controlTopic [49] true = (c', [], -1) := by
    rw [Client.publish, hclosed, if_neg Bool.false_ne_true]
  have hrun : Machine.run (InLoop.step lineRead)
      ⟨.opened, ((0x30 : Byte) :: (MQTTPacket_encode ([0] ++ [1, 97] : List Byte).length ++ [0])).map some ++ none :: [], []⟩
      [.yield [(true, true)], .publish controlTopic [49] true] = some ⟨c', [], []⟩ := by
    rw [Machine.run_cons, InLoop.step, Machine.bind_of hyield]
    simp only [Option.pure_def, Option.bind_some, Machine.run_cons, Machine.run_nil, InLoop.step, hpublish, List.append_nil]
  exact ⟨_, hrun, (hgood _ _ _ _ hrun).1, (hgood _ _ _ _ hrun).2.2⟩

end Torn

/-! ### A pause right behind the header byte -/

section Header

variable {c : Client} {byte : Byte} {rest : List Byte}

end Header

/-! ### A pause in the length -/

section Length

variable {c : Client} {byte : Byte} {part lost body : List Byte}

end Length

/-! ### Any pause inside a packet -/

section Cut

variable {c : Client} {byte : Byte} {part lost body : List Byte}

end Cut

end Mqtt
end Ventilation
