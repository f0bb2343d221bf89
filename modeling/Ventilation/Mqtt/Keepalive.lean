/-
# Keeping the session alive (MQTTClient.h, Countdown.cpp)

`keepalive` closes a `cycle`: it sends a PINGREQ where nothing was sent, or nothing received,
for `keepAliveInterval` seconds, and fails where the last one was not answered for as long.
`Timed` is the session of `MqttSession` with the timers that decide this, and the clock is read
where the code reads it; `Watch` adds when packets really went out and came in. While the
session is open the broker hears of the client in time, and a broker that has fallen silent
is noticed (`kept_alive`); `open_iff` says when a `cycle` keeps an open session.
-/
import Ventilation.Countdown
import Ventilation.MqttSession

namespace Ventilation
namespace Mqtt

open CInt

/-- What `keepalive` looks at; `ping_sent` is static in it. -/
structure Timers where
  ping_outstanding : Bool
  last_sent : Countdown
  last_received : Countdown
  ping_sent : Countdown

/-- The clock in a `cycle`, in the order of its readings: a packet is read, answered, the two
timers of `keepalive` are asked, a PINGREQ was sent, and its timer is set. -/
structure Moments where
  received : ℕ
  answered : ℕ
  checked : ℕ
  compared : ℕ
  sent : ℕ
  pinged : ℕ

/-- The client with its timers. -/
structure Timed where
  session : Session
  timers : Timers

section Defs

variable (sdk : PicoTime) (keepAliveInterval : ℕ)

/-- A timer set again, where the client is to be kept alive. -/
def restart (timer : Countdown) (now : ℕ) : Option Countdown :=
  if keepAliveInterval > 0 then timer.countdown sdk now keepAliveInterval else some timer

namespace Timers

/-- `sendPacket` that succeeds. -/
def sendPacket (k : Timers) (now : ℕ) : Option Timers :=
  (restart sdk keepAliveInterval k.last_sent now).map fun last_sent => { k with last_sent }

/-- `readPacket` that returns a type. -/
def readPacket (k : Timers) (now : ℕ) : Option Timers :=
  (restart sdk keepAliveInterval k.last_received now).map fun last_received => { k with last_received }

/-- `keepalive`: the timers, whether a PINGREQ went out, and whether it succeeds. `pings` is what becomes
of `sendPacket`. -/
def keepalive (k : Timers) (m : Moments) (pings : Bool) : Option (Timers × Bool × Bool) :=
  if keepAliveInterval = 0 then some (k, false, true)
  else if k.ping_outstanding then some (k, false, !k.ping_sent.expired sdk m.checked)
  else if k.last_sent.expired sdk m.checked || k.last_received.expired sdk m.compared then
    if pings then do
      let k ← k.sendPacket sdk keepAliveInterval m.sent
      let ping_sent ← k.ping_sent.countdown sdk m.pinged keepAliveInterval
      return ({ k with ping_outstanding := true, ping_sent }, true, true)
    else some (k, false, false)
  else some (k, false, true)

end Timers

/-- What arrives is a packet that is read. -/
def Taken (arriving : Option Packet) : Prop := ∃ p, arriving = some p ∧ ¬ p.TooLong

instance (arriving : Option Packet) : Decidable (Taken arriving) :=
  match arriving with
  | none => isFalse fun h => by obtain ⟨_, h, _⟩ := h; cases h
  | some p => decidable_of_iff (¬ p.TooLong) ⟨fun h => ⟨p, rfl, h⟩, fun ⟨_, h, h'⟩ => Option.some.inj h ▸ h'⟩

namespace Timed

def closeSession (c : Timed) : Timed := ⟨c.session.closeSession, { c.timers with ping_outstanding := false }⟩

/-- `cycle` at its `exit`. -/
def exit (c : Timed) (rc packet_type : ℤ) : Timed × ℤ :=
  if rc = 0 then (c, packet_type) else if c.session.isconnected then (c.closeSession, rc) else (c, rc)

/-- The timers before `keepalive`, where the `switch` has sent `answers`. -/
def heard (k : Timers) (m : Moments) (arriving : Option Packet) (answers : List Packet) : Option Timers := do
  let k ← if Taken arriving then k.readPacket sdk keepAliveInterval m.received else some k
  let k ← if answers = [] then some k else k.sendPacket sdk keepAliveInterval m.answered
  return if arriving.any (· matches .PINGRESP) then { k with ping_outstanding := false } else k

/-- `cycle` with the clock: the client, whether the packet was answered and a PINGREQ sent, and what it returns. -/
def cycle (c : Timed) (m : Moments) (arriving : Option Packet) (sends pings : Bool) :
    Option ((Timed × ℤ) × Bool × Bool) := do
  let (session, answers, rc, atOnce) := c.session.work arriving sends
  let timers ← heard sdk keepAliveInterval c.timers m arriving answers
  let answered := !answers.isEmpty
  if atOnce then return (exit ⟨session, timers⟩ rc (Session.readPacket arriving), answered, false)
  let (timers, pinged, alive) ← timers.keepalive sdk keepAliveInterval m pings
  return (exit ⟨session, timers⟩ (if alive then rc else -1) (Session.readPacket arriving), answered, pinged)

end Timed

/-! ### The clock and the packets -/

/-- The client, what its last `cycle` returned, and the clock: now, when `keepalive` was last asked, and when
a packet last left, one arrived, and a PINGREQ was sent. -/
structure Watch where
  client : Timed
  rc : ℤ
  now : ℕ
  checked : ℕ
  sentAt : ℕ
  receivedAt : ℕ
  pingedAt : ℕ

namespace Watch

/-- `connect` sends its packet; a `cycle`; the packet that it returns lets `connect` return; another
operation sends a packet, or closes the session. -/
inductive Event
  | connecting (sent received : ℕ)
  | cycle (m : Moments) (arriving : Option Packet) (sends pings : Bool)
  | connected
  | request (sent : ℕ) (sends : Bool)
  | close

def step (w : Watch) : Event → Option Watch
  | .connecting sent received =>
    if w.client.session.isconnected then none
    else do
      let k ← w.client.timers.sendPacket sdk keepAliveInterval sent
      let k ← k.readPacket sdk keepAliveInterval received
      return ⟨⟨{ w.client.session with cleansession := true }, k⟩, 0, received, w.checked, sent, received, w.pingedAt⟩
  | .cycle m arriving sends pings => do
    let ((client, rc), answered, pinged) ← w.client.cycle sdk keepAliveInterval m arriving sends pings
    return ⟨client, rc, m.pinged, m.checked,
      if pinged then m.sent else if answered then m.answered else w.sentAt,
      if Taken arriving then m.received else w.receivedAt,
      if pinged then m.pinged else w.pingedAt⟩
  | .connected =>
    if w.client.session.isconnected = false ∧ w.rc = Packet.CONNACK.type then
      some { w with
        client := ⟨w.client.session.connect, { w.client.timers with ping_outstanding := false }⟩
        rc := 0 }
    else none
  | .request sent sends =>
    if w.client.session.isconnected then
      if sends then do
        let timers ← w.client.timers.sendPacket sdk keepAliveInterval sent
        return { w with client := ⟨w.client.session, timers⟩, rc := 0, now := sent, sentAt := sent }
      else some { w with client := w.client.closeSession, rc := 0, now := sent }
    else some { w with rc := 0 }
  | .close => some { w with client := w.client.closeSession, rc := 0 }

/-- `connect` has sent its packet for the first time. -/
def start (now sent received : ℕ) : Option Watch :=
  step sdk keepAliveInterval ⟨⟨Session.new, ⟨false, .new sdk now, .new sdk now, .new sdk now⟩⟩, 0, now, now, now, now, now⟩
    (.connecting sent received)

end Watch
end Defs

/-! ### What a cycle does -/

variable {sdk : PicoTime} {n : ℕ} {k k' : Timers} {m : Moments} {arriving : Option Packet} {sends pings : Bool}

/-- The interval in microseconds. -/
def interval (keepAliveInterval : ℕ) : ℕ := 1000 * (1000 * keepAliveInterval)

theorem countdown_eq (hn : n < 2 ^ 16) (timer : Countdown) (now : ℕ) :
    timer.countdown sdk now n = some ⟨now + interval n⟩ := by
  have hms : toUnsigned 32 ((n : ℤ) * 1000) = 1000 * n := by
    rw [show (n : ℤ) * 1000 = ((1000 * n : ℕ) : ℤ) by push_cast; omega, toUnsigned_natCast]
    exact Nat.mod_eq_of_lt (by omega)
  rw [Countdown.countdown, signed?_eq (by omega) (by omega), Option.map_some, hms,
    sdk.make_timeout_time_ms_eq _ _ (by omega), interval]

theorem restart_eq (hn : 0 < n ∧ n < 2 ^ 16) (timer : Countdown) (now : ℕ) :
    restart sdk n timer now = some ⟨now + interval n⟩ := by
  rw [restart, if_pos hn.1, countdown_eq hn.2]

theorem expired_iff (timer : Countdown) (now : ℕ) : timer.expired sdk now = true ↔ timer.target_time ≤ now :=
  sdk.time_reached_iff _ _

namespace Timers

theorem sendPacket_eq (hn : 0 < n ∧ n < 2 ^ 16) (k : Timers) (now : ℕ) :
    k.sendPacket sdk n now = some { k with last_sent := ⟨now + interval n⟩ } := by
  rw [sendPacket, restart_eq hn, Option.map_some]

theorem readPacket_eq (hn : 0 < n ∧ n < 2 ^ 16) (k : Timers) (now : ℕ) :
    k.readPacket sdk n now = some { k with last_received := ⟨now + interval n⟩ } := by
  rw [readPacket, restart_eq hn, Option.map_some]

/-- A PINGREQ is due. -/
def Due (k : Timers) (m : Moments) : Prop := k.last_sent.target_time ≤ m.checked ∨ k.last_received.target_time ≤ m.compared

theorem keepalive_of_outstanding (hn : 0 < n) (h : k.ping_outstanding = true) :
    k.keepalive sdk n m pings = some (k, false, !k.ping_sent.expired sdk m.checked) := by
  rw [keepalive, if_neg hn.ne', if_pos h]

theorem keepalive_of_due (hn : 0 < n ∧ n < 2 ^ 16) (h : k.ping_outstanding = false) (hdue : k.Due m) :
    k.keepalive sdk n m pings =
      some (if pings then (⟨true, ⟨m.sent + interval n⟩, k.last_received, ⟨m.pinged + interval n⟩⟩, true, true)
        else (k, false, false)) := by
  have hexpired : (k.last_sent.expired sdk m.checked || k.last_received.expired sdk m.compared) = true := by
    rw [Bool.or_eq_true, expired_iff, expired_iff]
    exact hdue
  rw [keepalive, if_neg hn.1.ne', h, if_neg nofun, if_pos hexpired]
  cases pings with
  | false => rfl
  | true =>
    rw [if_pos rfl, if_pos rfl, sendPacket_eq hn, Option.bind_eq_bind, Option.bind_some, countdown_eq hn.2]
    rfl

theorem keepalive_of_not_due (hn : 0 < n) (h : k.ping_outstanding = false) (hdue : ¬ k.Due m) :
    k.keepalive sdk n m pings = some (k, false, true) := by
  have hexpired : ¬ (k.last_sent.expired sdk m.checked || k.last_received.expired sdk m.compared) = true := by
    rw [Bool.or_eq_true, expired_iff, expired_iff]
    exact hdue
  rw [keepalive, if_neg hn.ne', h, if_neg nofun, if_neg hexpired]

/-- What `keepalive` does: an answer is awaited, a PINGREQ is due and can be sent or not, or none is. -/
inductive Keeping (n : ℕ) (k : Timers) (m : Moments) (pings : Bool) : Timers → Bool → Bool → Prop
  | awaits : k.ping_outstanding = true → ∀ alive, (alive = true ↔ m.checked < k.ping_sent.target_time) →
    Keeping n k m pings k false alive
  | asks : k.ping_outstanding = false → k.Due m → pings = true →
    Keeping n k m pings ⟨true, ⟨m.sent + interval n⟩, k.last_received, ⟨m.pinged + interval n⟩⟩ true true
  | silent : k.ping_outstanding = false → k.Due m → pings = false → Keeping n k m pings k false false
  | rests : k.ping_outstanding = false → ¬ k.Due m → Keeping n k m pings k false true

/-- What it fails for. -/
theorem Keeping.fails {pinged : Bool} (h : Keeping n k m pings k' pinged false) :
    (k.ping_outstanding = true ∧ k.ping_sent.target_time ≤ m.checked) ∨
      (k.ping_outstanding = false ∧ k.Due m ∧ pings = false) := by
  cases h with
  | awaits hping _ halive => exact .inl ⟨hping, Nat.not_lt.mp fun h => Bool.false_ne_true (halive.mpr h)⟩
  | silent hping hdue hpings => exact .inr ⟨hping, hdue, hpings⟩

theorem keepalive_spec (hn : 0 < n ∧ n < 2 ^ 16) (sdk : PicoTime) (k : Timers) (m : Moments) (pings : Bool) :
    ∃ k' pinged alive, k.keepalive sdk n m pings = some (k', pinged, alive) ∧ Keeping n k m pings k' pinged alive := by
  cases hping : k.ping_outstanding with
  | true =>
    refine ⟨_, _, _, keepalive_of_outstanding hn.1 hping, .awaits hping _ ?_⟩
    rw [Bool.not_eq_true', ← Bool.not_eq_true, expired_iff, Nat.not_le]
  | false =>
    by_cases hdue : k.Due m
    · cases pings with
      | true => exact ⟨_, _, _, keepalive_of_due hn hping hdue, .asks hping hdue rfl⟩
      | false => exact ⟨_, _, _, keepalive_of_due hn hping hdue, .silent hping hdue rfl⟩
    · exact ⟨_, _, _, keepalive_of_not_due hn.1 hping hdue, .rests hping hdue⟩

end Timers

/-- What arrives wants an answer. -/
def Answers (arriving : Option Packet) : Prop := ∃ p, arriving = some p ∧ p.Answered

namespace Session

theorem handle_spec (s : Session) (p : Packet) (sends : Bool) : ∃ t answers rc atOnce,
    s.handle p sends = (t, answers, rc, atOnce) ∧ t.isconnected = s.isconnected ∧
    ((atOnce = false ∧ rc = 0 ∧ (p.Handled ∧ (p.Answered → sends = true)) ∧ (answers ≠ [] ↔ p.Answered)) ∨
      (atOnce = true ∧ rc ≠ 0 ∧ rc ≠ 2 ∧ ¬ (p.Handled ∧ (p.Answered → sends = true)))) := by
  cases p with
  | PUBLISH msg =>
    unfold handle
    dsimp only
    by_cases h0 : msg.qos = .QOS0
    · rw [if_pos h0]
      exact ⟨_, _, _, _, rfl, rfl, .inl ⟨rfl, rfl, ⟨trivial, fun h => absurd h0 h⟩, iff_of_false (· rfl) (· h0)⟩⟩
    · rw [if_neg h0]
      cases sends with
      | true => exact ⟨_, _, _, _, rfl, rfl, .inl ⟨rfl, rfl, ⟨trivial, fun _ => rfl⟩, iff_of_true nofun h0⟩⟩
      | false => exact ⟨_, _, _, _, rfl, rfl, .inr ⟨rfl, by decide, by decide, fun h => Bool.false_ne_true (h.2 h0)⟩⟩
  | PUBREC _ => exact ⟨s, [], 5, true, rfl, rfl, .inr ⟨rfl, by decide, by decide, fun h => h.1⟩⟩
  | PUBREL _ => exact ⟨s, [], 6, true, rfl, rfl, .inr ⟨rfl, by decide, by decide, fun h => h.1⟩⟩
  | PUBCOMP _ => exact ⟨s, [], 7, true, rfl, rfl, .inr ⟨rfl, by decide, by decide, fun h => h.1⟩⟩
  | _ => exact ⟨_, _, _, _, rfl, rfl, .inl ⟨rfl, rfl, ⟨trivial, fun h => h.elim⟩, iff_of_false (· rfl) id⟩⟩

/-- The `switch` leaves the connection, and goes to `exit` at once with an error that is no CONNACK. -/
theorem work_spec (s : Session) (arriving : Option Packet) (sends : Bool) : ∃ t answers rc atOnce,
    s.work arriving sends = (t, answers, rc, atOnce) ∧ t.isconnected = s.isconnected ∧
    ((atOnce = false ∧ rc = 0 ∧ Takes arriving sends ∧ (answers ≠ [] ↔ Answers arriving)) ∨
      (atOnce = true ∧ rc ≠ 0 ∧ rc ≠ 2 ∧ ¬ Takes arriving sends)) := by
  cases arriving with
  | none =>
    refine ⟨_, _, _, _, rfl, rfl, .inl ⟨rfl, rfl, ?_, iff_of_false (· rfl) ?_⟩⟩
    · simp [Takes]
    · simp [Answers]
  | some p =>
    by_cases hlong : p.TooLong
    · have hwork : s.work (some p) sends = (s, [], -2, true) := by
        rw [work, if_pos hlong, readPacket, if_pos hlong]
      exact ⟨_, _, _, _, hwork, rfl, .inr ⟨rfl, by decide, by decide, fun h => (h p rfl).1 hlong⟩⟩
    · obtain ⟨t, answers, rc, atOnce, hhandle, hconnected, hrc⟩ := handle_spec s p sends
      have hwork : s.work (some p) sends = (t, answers, rc, atOnce) := by
        rw [work, if_neg hlong, hhandle]
      refine ⟨t, answers, rc, atOnce, hwork, hconnected, hrc.imp ?_ ?_⟩
      · intro h
        refine ⟨h.1, h.2.1, fun q hq => Option.some.inj hq ▸ ⟨hlong, h.2.2.1⟩, h.2.2.2.trans ⟨fun hp => ⟨p, rfl, hp⟩, ?_⟩⟩
        rintro ⟨q, hq, hp⟩
        exact Option.some.inj hq ▸ hp
      · exact fun h => ⟨h.1, h.2.1, h.2.2.1, fun htakes => h.2.2.2 (htakes p rfl).2⟩

end Session

namespace Timed

variable {c : Timed}

/-- The timers after the packet and its answer. -/
def hearing (n : ℕ) (k : Timers) (m : Moments) (arriving : Option Packet) (answered : Bool) : Timers where
  ping_outstanding := if arriving.any (· matches .PINGRESP) then false else k.ping_outstanding
  last_sent := if answered then ⟨m.answered + interval n⟩ else k.last_sent
  last_received := if Taken arriving then ⟨m.received + interval n⟩ else k.last_received
  ping_sent := k.ping_sent

theorem heard_eq (hn : 0 < n ∧ n < 2 ^ 16) (k : Timers) (m : Moments) (arriving : Option Packet) (answers : List Packet) :
    heard sdk n k m arriving answers = some (hearing n k m arriving !answers.isEmpty) := by
  have hpong : ∀ k : Timers, (if arriving.any (· matches .PINGRESP) then { k with ping_outstanding := false } else k) =
      { k with ping_outstanding := if arriving.any (· matches .PINGRESP) then false else k.ping_outstanding } := by
    intro k
    split_ifs <;> rfl
  unfold heard hearing
  simp only [Timers.readPacket_eq hn, Timers.sendPacket_eq hn, hpong]
  by_cases htaken : Taken arriving <;> cases answers <;> simp [htaken]

/-- An error closes an open session. -/
theorem exit_of_ne {rc : ℤ} (hrc : rc ≠ 0) (c : Timed) (packet_type : ℤ) : ∃ c' : Timed, c.exit rc packet_type = (c', rc) ∧
    c'.session.isconnected = false ∧ c'.timers = { c.timers with
      ping_outstanding := !c.session.isconnected && c.timers.ping_outstanding } := by
  unfold exit
  rw [if_neg hrc]
  cases hc : c.session.isconnected with
  | true => exact ⟨_, rfl, Session.isconnected_closeSession _, rfl⟩
  | false => exact ⟨_, rfl, hc, rfl⟩

/-- What a `cycle` comes to: the packet is taken and `keepalive` succeeds, or no session is left. -/
inductive Outcome (n : ℕ) (c : Timed) (m : Moments) (arriving : Option Packet) (sends pings : Bool) :
    Timed → ℤ → Bool → Bool → Prop
  | goes (c' : Timed) (answered pinged : Bool) : Takes arriving sends → (answered = true ↔ Answers arriving) →
    c'.session.isconnected = c.session.isconnected →
    Timers.Keeping n (hearing n c.timers m arriving answered) m pings c'.timers pinged true →
    Outcome n c m arriving sends pings c' (Session.readPacket arriving) answered pinged
  | ends (c' : Timed) (rc : ℤ) (answered : Bool) : c'.session.isconnected = false → rc ≠ 2 →
    c'.timers = { hearing n c.timers m arriving answered with
      ping_outstanding := !c.session.isconnected && (hearing n c.timers m arriving answered).ping_outstanding } →
    (Takes arriving sends → (answered = true ↔ Answers arriving) ∧
      Timers.Keeping n (hearing n c.timers m arriving answered) m pings (hearing n c.timers m arriving answered) false false) →
    Outcome n c m arriving sends pings c' rc answered false

theorem cycle_spec (hn : 0 < n ∧ n < 2 ^ 16) (sdk : PicoTime) (c : Timed) (m : Moments) (arriving : Option Packet)
    (sends pings : Bool) :
    ∃ c' rc answered pinged, c.cycle sdk n m arriving sends pings = some ((c', rc), answered, pinged) ∧
      Outcome n c m arriving sends pings c' rc answered pinged := by
  obtain ⟨t, answers, rc, atOnce, hwork, hconnected, hcase⟩ := Session.work_spec c.session arriving sends
  have hcycle : c.cycle sdk n m arriving sends pings =
      (if atOnce then
        some (exit ⟨t, hearing n c.timers m arriving !answers.isEmpty⟩ rc (Session.readPacket arriving), !answers.isEmpty, false)
      else ((hearing n c.timers m arriving !answers.isEmpty).keepalive sdk n m pings).bind fun r =>
        some (exit ⟨t, r.1⟩ (if r.2.2 then rc else -1) (Session.readPacket arriving), !answers.isEmpty, r.2.1)) := by
    unfold cycle
    rw [hwork]
    dsimp only
    rw [heard_eq hn, Option.bind_eq_bind, Option.bind_some]
    rfl
  rw [hcycle]
  rcases hcase with ⟨rfl, rfl, htakes, hanswers⟩ | ⟨rfl, hrc, htwo, htakes⟩
  · have hanswered : (!answers.isEmpty) = true ↔ Answers arriving := by
      rw [← hanswers, Bool.not_eq_true', ne_eq, ← List.isEmpty_iff, Bool.not_eq_true]
    obtain ⟨k', pinged, alive, hkeep, hkeeping⟩ :=
      Timers.keepalive_spec hn sdk (hearing n c.timers m arriving !answers.isEmpty) m pings
    rw [if_neg nofun, hkeep, Option.bind_some]
    dsimp only
    cases alive with
    | true => exact ⟨_, _, _, _, rfl, .goes _ _ _ htakes hanswered hconnected hkeeping⟩
    | false =>
      obtain ⟨c', hexit, hclosed, htimers⟩ := exit_of_ne (show (-1 : ℤ) ≠ 0 by decide) ⟨t, k'⟩ (Session.readPacket arriving)
      rw [if_neg nofun, hexit]
      obtain ⟨rfl, rfl⟩ : k' = hearing n c.timers m arriving !answers.isEmpty ∧ pinged = false := by
        cases hkeeping <;> exact ⟨rfl, rfl⟩
      refine ⟨_, _, _, _, rfl, .ends c' (-1) _ hclosed (by decide) ?_ fun _ => ⟨hanswered, hkeeping⟩⟩
      rw [htimers, hconnected]
  · obtain ⟨c', hexit, hclosed, htimers⟩ := exit_of_ne hrc ⟨t, hearing n c.timers m arriving !answers.isEmpty⟩
      (Session.readPacket arriving)
    rw [if_pos rfl, hexit]
    refine ⟨_, _, _, _, rfl, .ends c' rc _ hclosed htwo ?_ fun h => absurd h htakes⟩
    rw [htimers, hconnected]

theorem exit_session (c : Timed) (answers : List Packet) (rc packet_type : ℤ) :
    (c.exit rc packet_type).1.session = (c.session.exit answers rc packet_type).1 ∧
    (c.exit rc packet_type).2 = (c.session.exit answers rc packet_type).2.2 := by
  unfold exit Session.exit
  split_ifs <;> exact ⟨rfl, rfl⟩

/-- The session is that of `MqttSession`, for which the timers decide whether `keepalive` succeeds. -/
theorem cycle_session {r : (Timed × ℤ) × Bool × Bool} (h : c.cycle sdk n m arriving sends pings = some r) :
    ∃ alive, r.1.1.session = (c.session.cycle arriving sends alive).1 ∧
      r.1.2 = (c.session.cycle arriving sends alive).2.2 := by
  obtain ⟨t, answers, rc, atOnce, hwork, -, -⟩ := Session.work_spec c.session arriving sends
  have hcycle : ∀ alive, c.session.cycle arriving sends alive =
      t.exit answers (if atOnce || alive then rc else -1) (Session.readPacket arriving) :=
    fun alive => Session.cycle_of_work hwork
  unfold cycle at h
  rw [hwork] at h
  obtain ⟨k, -, h⟩ := Option.bind_eq_some_iff.mp h
  dsimp only at h
  cases atOnce with
  | true =>
    rw [if_pos rfl] at h
    refine ⟨true, ?_⟩
    rw [hcycle, ← Option.some.inj h]
    exact exit_session ⟨t, k⟩ answers rc _
  | false =>
    rw [if_neg nofun] at h
    obtain ⟨⟨k', pinged, alive⟩, -, h⟩ := Option.bind_eq_some_iff.mp h
    refine ⟨alive, ?_⟩
    rw [hcycle, ← Option.some.inj h]
    exact exit_session ⟨t, k'⟩ answers _ _

end Timed

/-! ### Runs -/

/-- The clock runs on. -/
structure Moments.Ordered (m : Moments) (now : ℕ) : Prop where
  received : now ≤ m.received
  answered : m.received ≤ m.answered
  checked : m.answered ≤ m.checked
  compared : m.checked ≤ m.compared
  sent : m.compared ≤ m.sent
  pinged : m.sent ≤ m.pinged

namespace Watch

/-- **What runs are looked at**: those in which, while the session is open, what the client does is done `d` after
`keepalive` was last asked, and in which no `cycle` takes longer than `d` behind its packet. -/
def Prompt (d : ℕ) (w : Watch) : Event → Prop
  | .connecting sent received => w.now ≤ sent ∧ sent ≤ received
  | .cycle m _ _ _ => m.Ordered w.now ∧ m.pinged ≤ (if w.client.session.isconnected then w.checked else m.received) + d
  | .request sent _ => w.client.session.isconnected = true → w.now ≤ sent ∧ sent ≤ w.checked + d
  | _ => True

/-- A session is open, or about to be. -/
def Attended (w : Watch) : Prop := w.client.session.isconnected = true ∨ w.rc = 2

/-- The timers say when packets went out and came in. -/
structure Timing (n d : ℕ) (w : Watch) : Prop where
  sent : w.client.timers.last_sent.target_time = w.sentAt + interval n
  received : w.client.timers.last_received.target_time = w.receivedAt + interval n
  sent_le : w.sentAt ≤ w.now
  received_le : w.receivedAt ≤ w.now
  checked_le : w.checked ≤ w.now
  pinged : w.client.timers.ping_outstanding = true →
    w.client.timers.ping_sent.target_time = w.pingedAt + interval n ∧ w.pingedAt ≤ w.sentAt + d

/-- What such runs keep. -/
structure Good (n d : ℕ) (w : Watch) : Prop extends Timing n d w where
  awaits : w.Attended → w.client.timers.ping_outstanding = true → w.checked < w.pingedAt + interval n
  rests : w.Attended → w.client.timers.ping_outstanding = false →
    w.checked < w.sentAt + interval n + d ∧ w.checked < w.receivedAt + interval n
  prompt : w.Attended → w.now ≤ w.checked + d
  asked : w.client.session.isconnected = true → w.client.timers.ping_outstanding = true →
    w.pingedAt < w.receivedAt + interval n + d
  accepted : w.rc = 2 → w.checked < w.receivedAt + interval n

section Steps

variable {d : ℕ} {w w' : Watch}

/-- Nothing more is asked of a session that is not open. -/
theorem Timing.good (h : w.Timing n d) (hclosed : w.client.session.isconnected = false) (hrc : w.rc ≠ 2) : w.Good n d := by
  have hopen : ¬ w.client.session.isconnected = true := Bool.eq_false_iff.mp hclosed
  have hno : ¬ w.Attended := fun h => h.elim hopen hrc
  exact ⟨h, fun h => absurd h hno, fun h => absurd h hno, fun h => absurd h hno, fun h => absurd h hopen,
    fun h => absurd h hrc⟩

theorem Good.connecting (hn : 0 < n ∧ n < 2 ^ 16) (h : w.Good n d) {sent received : ℕ}
    (hp : w.Prompt d (.connecting sent received)) (hst : w.step sdk n (.connecting sent received) = some w') :
    w'.Good n d := by
  obtain ⟨hsent, hreceived⟩ := hp
  have hsent_le := h.sent_le
  have hchecked := h.checked_le
  have hpinged := h.pinged
  unfold step at hst
  dsimp only at hst
  split_ifs at hst with hopen
  rw [Timers.sendPacket_eq hn, Option.bind_eq_bind, Option.bind_some, Timers.readPacket_eq hn] at hst
  obtain rfl := Option.some.inj hst
  refine Timing.good ⟨rfl, rfl, hreceived, Nat.le_refl _, ?_, fun hping => ?_⟩ (Bool.eq_false_iff.mpr hopen)
    (by decide : (0 : ℤ) ≠ 2)
  · show w.checked ≤ received
    omega
  · obtain ⟨htarget, hle⟩ := hpinged hping
    refine ⟨htarget, ?_⟩
    show w.pingedAt ≤ sent + d
    omega

theorem Good.connected (h : w.Good n d) (hst : w.step sdk n .connected = some w') : w'.Good n d := by
  obtain ⟨⟨-, hrc⟩, hst⟩ := Option.ite_none_right_eq_some.mp hst
  obtain rfl := Option.some.inj hst
  have hsent := h.sent
  have haccepted := h.accepted hrc
  have hnow := h.prompt (.inr hrc)
  refine ⟨⟨h.sent, h.received, h.sent_le, h.received_le, h.checked_le, nofun⟩, fun _ => nofun, fun _ _ => ⟨?_, haccepted⟩,
    fun _ => hnow, fun _ => nofun, fun h => absurd h (by decide : (0 : ℤ) ≠ 2)⟩
  show w.checked < w.sentAt + interval n + d
  cases hping : w.client.timers.ping_outstanding with
  | true =>
    have h1 := h.awaits (.inr hrc) hping
    have h2 := h.pinged hping
    omega
  | false => exact (h.rests (.inr hrc) hping).1

theorem Good.close (h : w.Good n d) (hst : w.step sdk n .close = some w') : w'.Good n d := by
  obtain rfl := Option.some.inj hst
  exact Timing.good ⟨h.sent, h.received, h.sent_le, h.received_le, h.checked_le, nofun⟩
    (Session.isconnected_closeSession _) (by decide : (0 : ℤ) ≠ 2)

theorem Good.request (hn : 0 < n ∧ n < 2 ^ 16) (h : w.Good n d) {sent : ℕ} (hp : w.Prompt d (.request sent sends))
    (hst : w.step sdk n (.request sent sends) = some w') : w'.Good n d := by
  have hsent_le := h.sent_le
  have hreceived_le := h.received_le
  have hchecked_le := h.checked_le
  unfold step at hst
  dsimp only at hst
  by_cases hopen : w.client.session.isconnected = true
  · obtain ⟨hnow, hprompt⟩ := hp hopen
    rw [if_pos hopen] at hst
    cases sends with
    | true =>
      rw [if_pos rfl, Timers.sendPacket_eq hn] at hst
      obtain rfl := Option.some.inj hst
      refine ⟨⟨rfl, h.received, Nat.le_refl _, ?_, ?_, fun hping => ?_⟩, fun _ => h.awaits (.inl hopen), fun _ hping => ?_,
        fun _ => hprompt, fun _ => h.asked hopen, fun h => absurd h (by decide : (0 : ℤ) ≠ 2)⟩
      · show w.receivedAt ≤ sent
        omega
      · show w.checked ≤ sent
        omega
      · obtain ⟨htarget, hle⟩ := h.pinged hping
        refine ⟨htarget, ?_⟩
        show w.pingedAt ≤ sent + d
        omega
      · obtain ⟨h1, h2⟩ := h.rests (.inl hopen) hping
        refine ⟨?_, h2⟩
        show w.checked < sent + interval n + d
        omega
    | false =>
      rw [if_neg nofun] at hst
      obtain rfl := Option.some.inj hst
      refine Timing.good ⟨h.sent, h.received, ?_, ?_, ?_, nofun⟩ (Session.isconnected_closeSession _)
        (by decide : (0 : ℤ) ≠ 2)
      · exact Nat.le_trans h.sent_le hnow
      · exact Nat.le_trans h.received_le hnow
      · exact Nat.le_trans h.checked_le hnow
  · rw [if_neg hopen] at hst
    obtain rfl := Option.some.inj hst
    exact Timing.good ⟨h.sent, h.received, h.sent_le, h.received_le, h.checked_le, h.pinged⟩ (Bool.eq_false_iff.mpr hopen)
      (by decide : (0 : ℤ) ≠ 2)

/-- The last packet that went out before `keepalive` was asked. -/
theorem Timing.hearing_sent (h : w.Timing n d) (m : Moments) (arriving : Option Packet) (answered : Bool) :
    (Timed.hearing n w.client.timers m arriving answered).last_sent.target_time =
      (if answered then m.answered else w.sentAt) + interval n := by
  cases answered with
  | true => rfl
  | false => exact h.sent

/-- The last one that came in. -/
theorem Timing.hearing_received (h : w.Timing n d) (m : Moments) (arriving : Option Packet) (answered : Bool) :
    (Timed.hearing n w.client.timers m arriving answered).last_received.target_time =
      (if Taken arriving then m.received else w.receivedAt) + interval n := by
  unfold Timed.hearing
  dsimp only
  split_ifs
  · rfl
  · exact h.received

/-- An answer still awaited was awaited before. -/
theorem hearing_outstanding_iff {answered : Bool} : (Timed.hearing n k m arriving answered).ping_outstanding = true ↔
    k.ping_outstanding = true ∧ arriving.any (· matches .PINGRESP) = false := by
  unfold Timed.hearing
  dsimp only
  split_ifs with hpong
  · exact iff_of_false nofun fun h => by simp [hpong] at h
  · rw [and_iff_left (Bool.eq_false_iff.mpr hpong)]

/-- A PINGRESP is read. -/
theorem taken_of_pingresp (h : arriving.any (· matches .PINGRESP) = true) : Taken arriving := by
  obtain ⟨p, rfl, hp⟩ := (Option.any_eq_true _ _).mp h
  cases p with
  | PINGRESP => exact ⟨_, rfl, by decide⟩
  | _ => cases hp

theorem taken_of_connack (h : Session.readPacket arriving = 2) : Taken arriving := by
  cases arriving with
  | none => cases h
  | some p =>
    by_cases hlong : p.TooLong
    · rw [Session.readPacket, if_pos hlong] at h
      cases h
    · exact ⟨p, rfl, hlong⟩

/-- The timers when `keepalive` has succeeded. -/
theorem keeping_timing {sentAt receivedAt pingedAt : ℕ} {pinged : Bool} (h : Timers.Keeping n k m pings k' pinged true)
    (hs : k.last_sent.target_time = sentAt + interval n) (hr : k.last_received.target_time = receivedAt + interval n)
    (hp : k.ping_outstanding = true → k.ping_sent.target_time = pingedAt + interval n ∧ pingedAt ≤ sentAt + d)
    (h4 : m.checked ≤ m.compared) (h5 : m.compared ≤ m.sent) (h6 : m.sent ≤ m.pinged) (h7 : m.pinged ≤ m.sent + d)
    (hpos : 0 < interval n) :
    k'.last_sent.target_time = (if pinged then m.sent else sentAt) + interval n ∧
    k'.last_received.target_time = receivedAt + interval n ∧
    (k'.ping_outstanding = true → (k'.ping_sent.target_time = (if pinged then m.pinged else pingedAt) + interval n ∧
      (if pinged then m.pinged else pingedAt) ≤ (if pinged then m.sent else sentAt) + d) ∧
      m.checked < (if pinged then m.pinged else pingedAt) + interval n) ∧
    (k'.ping_outstanding = false → m.checked < (if pinged then m.sent else sentAt) + interval n ∧
      m.checked < receivedAt + interval n) := by
  cases h with
  | awaits hping _ halive =>
    obtain ⟨htarget, hle⟩ := hp hping
    refine ⟨hs, hr, fun _ => ⟨⟨htarget, hle⟩, htarget ▸ halive.mp rfl⟩, fun hno => ?_⟩
    rw [hping] at hno
    cases hno
  | asks hping hdue _ =>
    refine ⟨rfl, hr, fun _ => ⟨⟨rfl, h7⟩, ?_⟩, nofun⟩
    show m.checked < m.pinged + interval n
    omega
  | rests hping hdue =>
    refine ⟨hs, hr, fun hyes => ?_, fun _ => ?_⟩
    · rw [hping] at hyes
      cases hyes
    · obtain ⟨hsent, hreceived⟩ := not_or.mp hdue
      rw [hs] at hsent
      rw [hr] at hreceived
      exact ⟨Nat.lt_of_not_le hsent, by omega⟩

/-- The PINGREQ that is out was sent before long. -/
theorem keeping_asked {pingedAt bound : ℕ} {pinged : Bool} (h : Timers.Keeping n k m pings k' pinged true)
    (hold : k.ping_outstanding = true → pingedAt < bound) (hnew : k.ping_outstanding = false → m.pinged < bound) :
    k'.ping_outstanding = true → (if pinged then m.pinged else pingedAt) < bound := by
  intro hyes
  cases h with
  | awaits hping _ _ => exact hold hping
  | asks hping _ _ => exact hnew hping
  | rests hping _ =>
    rw [hping] at hyes
    cases hyes

theorem Good.cycle (hn : 0 < n ∧ n < 2 ^ 16) (hd : d < interval n) (h : w.Good n d)
    (hp : w.Prompt d (.cycle m arriving sends pings)) (hst : w.step sdk n (.cycle m arriving sends pings) = some w') :
    w'.Good n d := by
  obtain ⟨hm, hlast⟩ := hp
  obtain ⟨h1, h2, h3, h4, h5, h6⟩ := hm
  obtain ⟨c', rc, answered, pinged, hcycle, hout⟩ := Timed.cycle_spec hn sdk w.client m arriving sends pings
  have hsent_le := h.sent_le
  have hreceived_le := h.received_le
  have hchecked_le := h.checked_le
  have hpinged := h.pinged
  have hs := h.hearing_sent m arriving answered
  have hr := h.hearing_received m arriving answered
  simp only [step, hcycle, Option.bind_eq_bind, Option.bind_some, Option.pure_def, Option.some.injEq] at hst
  set k := Timed.hearing n w.client.timers m arriving answered with hk
  set sentAt := if answered then m.answered else w.sentAt with hsentAt
  set receivedAt := if Taken arriving then m.received else w.receivedAt with hreceivedAt
  have hsentAt_le : w.sentAt ≤ sentAt ∧ sentAt ≤ m.answered := by
    rw [hsentAt]
    split_ifs <;> omega
  have hreceivedAt_le : w.receivedAt ≤ receivedAt ∧ receivedAt ≤ m.received := by
    rw [hreceivedAt]
    split_ifs <;> omega
  have hend : m.pinged ≤ m.received + d := by
    split_ifs at hlast <;> omega
  have hpos : 0 < interval n := by omega
  -- a PINGREQ that is due goes out before long
  have hfresh : w.client.session.isconnected = true → k.ping_outstanding = false →
      m.pinged < receivedAt + interval n + d := by
    intro hopen hping
    rw [if_pos hopen] at hlast
    cases hpong : arriving.any (· matches .PINGRESP) with
    | true =>
      rw [hreceivedAt, if_pos (taken_of_pingresp hpong)]
      omega
    | false =>
      have hbefore : w.client.timers.ping_outstanding = false := by
        rw [hk, Timed.hearing, hpong] at hping
        exact hping
      have := (h.rests (.inl hopen) hbefore).2
      omega
  have hearly : k.ping_outstanding = true →
      k.ping_sent.target_time = w.pingedAt + interval n ∧ w.pingedAt ≤ sentAt + d := by
    intro hping
    obtain ⟨htarget, hle⟩ := hpinged (hearing_outstanding_iff.mp hping).1
    exact ⟨htarget, by omega⟩
  cases hout with
  | ends _ _ hclosed hrc htimers _ =>
    subst hst
    refine Timing.good ⟨?_, ?_, ?_, ?_, ?_, fun hping => ?_⟩ hclosed hrc
    · show c'.timers.last_sent.target_time = sentAt + interval n
      rw [htimers, ← hs]
    · show c'.timers.last_received.target_time = receivedAt + interval n
      rw [htimers, ← hr]
    · show sentAt ≤ m.pinged
      omega
    · show receivedAt ≤ m.pinged
      omega
    · show m.checked ≤ m.pinged
      omega
    · have hkept : c'.timers.ping_outstanding = true := hping
      rw [htimers] at hkept
      have := hearly (Bool.and_eq_true_iff.mp hkept).2
      show c'.timers.ping_sent.target_time = w.pingedAt + interval n ∧ w.pingedAt ≤ sentAt + d
      rw [htimers]
      exact this
  | goes _ _ _ _ hopen hkeep =>
    subst hst
    obtain ⟨hsent, hreceived, hyes, hno⟩ := keeping_timing hkeep hs hr hearly h4 h5 h6 (by omega) hpos
    have hsent_le' : (if pinged then m.sent else sentAt) ≤ m.pinged := by
      split_ifs <;> omega
    refine ⟨⟨hsent, hreceived, hsent_le', by dsimp only; omega, by dsimp only; omega, fun hping => (hyes hping).1⟩,
      fun _ hping => (hyes hping).2, fun _ hping => ⟨Nat.lt_of_lt_of_le (hno hping).1 (Nat.le_add_right _ _), (hno hping).2⟩,
      fun hatt => ?_, fun hc => ?_, fun hrc => ?_⟩
    · show m.pinged ≤ m.checked + d
      omega
    · have hwas : w.client.session.isconnected = true := hopen ▸ hc
      refine keeping_asked hkeep (fun hping => ?_) (hfresh hwas)
      have := h.asked hwas (hearing_outstanding_iff.mp hping).1
      show w.pingedAt < receivedAt + interval n + d
      omega
    · have hread : receivedAt = m.received := by
        rw [hreceivedAt, if_pos (taken_of_connack hrc)]
      show m.checked < receivedAt + interval n
      omega

/-- A step of such a run. -/
theorem Good.of_step (hn : 0 < n ∧ n < 2 ^ 16) (hd : d < interval n) (h : w.Good n d) {e : Event} (hp : w.Prompt d e)
    (hst : w.step sdk n e = some w') : w'.Good n d := by
  cases e with
  | connecting sent received => exact h.connecting hn hp hst
  | cycle m arriving sends pings => exact h.cycle hn hd hp hst
  | connected => exact h.connected hst
  | request sent sends => exact h.request hn hp hst
  | close => exact h.close hst

end Steps

/-- Where runs start. -/
def Starts (sdk : PicoTime) (n : ℕ) (w : Watch) : Prop :=
  ∃ now sent received, now ≤ sent ∧ sent ≤ received ∧ start sdk n now sent received = some w

theorem good_of_start (hn : 0 < n ∧ n < 2 ^ 16) {d now sent received : ℕ} {w : Watch} (hsent : now ≤ sent)
    (hreceived : sent ≤ received) (hst : start sdk n now sent received = some w) : w.Good n d := by
  unfold start step at hst
  dsimp only at hst
  rw [if_neg (by decide), Timers.sendPacket_eq hn, Option.bind_eq_bind, Option.bind_some, Timers.readPacket_eq hn] at hst
  obtain rfl := Option.some.inj hst
  exact Timing.good ⟨rfl, rfl, hreceived, Nat.le_refl _, Nat.le_trans hsent hreceived, nofun⟩
    (by decide : Session.new.isconnected = false) (by decide : (0 : ℤ) ≠ 2)

theorem good_of_reach (hn : 0 < n ∧ n < 2 ^ 16) {d : ℕ} (hd : d < interval n) {w : Watch}
    (hr : Machine.Reach (step sdk n) (Starts sdk n) (Prompt d) w) : w.Good n d := by
  refine hr.invariant (J := Good n d) ?_ fun _ _ _ h hp hst => h.of_step hn hd hp hst
  rintro w ⟨now, sent, received, hsent, hreceived, hst⟩
  exact good_of_start hn hsent hreceived hst

/-- **The session is kept alive**: in every such run, while the session is open, the client has sent a packet within the
interval and `2 * d` more, and received one within two intervals and `2 * d` more. -/
theorem kept_alive (sdk : PicoTime) (hn : 0 < n ∧ n < 2 ^ 16) {d : ℕ} (hd : d < interval n) {w : Watch}
    (hr : Machine.Reach (step sdk n) (Starts sdk n) (Prompt d) w) (hopen : w.client.session.isconnected = true) :
    w.now < w.sentAt + interval n + 2 * d ∧ w.now < w.receivedAt + 2 * interval n + 2 * d := by
  have hgood := good_of_reach hn hd hr
  have hnow := hgood.prompt (.inl hopen)
  cases hping : w.client.timers.ping_outstanding with
  | true =>
    have h1 := hgood.awaits (.inl hopen) hping
    have h2 := (hgood.pinged hping).2
    have h3 := hgood.asked hopen hping
    omega
  | false =>
    have h1 := hgood.rests (.inl hopen) hping
    omega

/-- `connect`, 0.1 ms after the start, with an interval of a minute. -/
theorem opened : ∃ w, Machine.Reach (step .documented 60) (Starts .documented 60) (Prompt 500000) w ∧
    w.client.session.isconnected = true ∧ w.client.timers.ping_outstanding = false ∧
    w.now = 100 ∧ w.checked = 100 ∧ w.sentAt = 10 ∧ w.receivedAt = 100 := by
  obtain ⟨w₀, h₀⟩ : ∃ w, start .documented 60 0 10 20 = some w := ⟨_, rfl⟩
  obtain ⟨w₁, h₁⟩ : ∃ w, w₀.step .documented 60 (.cycle ⟨100, 100, 100, 100, 100, 100⟩ (some .CONNACK) true true) = some w := by
    obtain rfl := Option.some.inj h₀
    exact ⟨_, rfl⟩
  obtain ⟨w₂, h₂⟩ : ∃ w, w₁.step .documented 60 .connected = some w := by
    obtain rfl := Option.some.inj h₀
    obtain rfl := Option.some.inj h₁
    exact ⟨_, rfl⟩
  refine ⟨w₂, .step (e := .connected) (.step (.init ⟨0, 10, 20, by decide, by decide, h₀⟩) ?_ h₁) trivial h₂, ?_⟩
  · obtain rfl := Option.some.inj h₀
    exact ⟨⟨by decide, by decide, by decide, by decide, by decide, by decide⟩, by decide⟩
  · obtain rfl := Option.some.inj h₀
    obtain rfl := Option.some.inj h₁
    obtain rfl := Option.some.inj h₂
    exact ⟨rfl, rfl, rfl, rfl, rfl, rfl⟩

theorem kept_alive_opened : ∃ w : Watch, w.client.session.isconnected = true ∧
    w.now < w.sentAt + interval 60 + 2 * 500000 ∧ w.now < w.receivedAt + 2 * interval 60 + 2 * 500000 := by
  obtain ⟨w, hr, hopen, -⟩ := opened
  exact ⟨w, hopen, kept_alive .documented (by decide) (by decide) hr hopen⟩

/-- **What an open session lives on**: each packet is one that the client takes, its own packets can be sent, and a
PINGREQ is answered within the interval, or sent where nothing was sent or received for as long. -/
def Stays (n : ℕ) (w : Watch) : Event → Prop
  | .cycle m arriving sends pings => Takes arriving sends ∧
    if w.client.timers.ping_outstanding ∧ arriving.any (· matches .PINGRESP) = false then m.checked < w.pingedAt + interval n
    else pings = true ∨ ((Answers arriving ∨ m.checked < w.sentAt + interval n) ∧
      (arriving ≠ none ∨ m.compared < w.receivedAt + interval n))
  | .request _ sends => sends = true
  | .close => False
  | _ => True

variable {d : ℕ} {w w' : Watch}

/-- When a PINGREQ is due. -/
theorem not_due_iff (hd : d < interval n) (h : w.Good n d) (hopen : w.client.session.isconnected = true)
    (hp : w.Prompt d (.cycle m arriving sends pings)) (htakes : Takes arriving sends) {answered : Bool}
    (hanswered : answered = true ↔ Answers arriving) :
    ¬ (Timed.hearing n w.client.timers m arriving answered).Due m ↔
      (Answers arriving ∨ m.checked < w.sentAt + interval n) ∧ (arriving ≠ none ∨ m.compared < w.receivedAt + interval n) := by
  obtain ⟨⟨h1, h2, h3, h4, h5, h6⟩, hlast⟩ := hp
  rw [if_pos hopen] at hlast
  have hchecked := h.checked_le
  have htaken : Taken arriving ↔ arriving ≠ none := by
    cases arriving with
    | none => exact iff_of_false nofun (· rfl)
    | some p => exact iff_of_true ⟨p, rfl, (htakes p rfl).1⟩ nofun
  rw [Timers.Due, not_or, h.hearing_sent, h.hearing_received, Nat.not_le, Nat.not_le]
  refine and_congr ?_ ?_
  · split_ifs with ha
    · exact iff_of_true (by omega) (.inl (hanswered.mp ha))
    · rw [or_iff_right fun hno => ha (hanswered.mpr hno)]
  · split_ifs with ht
    · exact iff_of_true (by omega) (.inl (htaken.mp ht))
    · rw [or_iff_right fun hno => ht (htaken.mpr hno)]

/-- **When the session stays open**, from any state that such a run reaches. -/
theorem open_iff (sdk : PicoTime) (hn : 0 < n ∧ n < 2 ^ 16) (hd : d < interval n)
    (hr : Machine.Reach (step sdk n) (Starts sdk n) (Prompt d) w) (hopen : w.client.session.isconnected = true)
    {e : Event} (hp : w.Prompt d e) (hst : w.step sdk n e = some w') :
    w'.client.session.isconnected = true ↔ w.Stays n e := by
  have hgood := good_of_reach hn hd hr
  cases e with
  | connecting sent received =>
    unfold step at hst
    dsimp only at hst
    rw [if_pos hopen] at hst
    cases hst
  | connected =>
    obtain ⟨⟨hno, -⟩, -⟩ := Option.ite_none_right_eq_some.mp hst
    rw [hopen] at hno
    cases hno
  | request sent sends =>
    unfold step at hst
    dsimp only at hst
    rw [if_pos hopen] at hst
    cases sends with
    | true =>
      rw [if_pos rfl, Timers.sendPacket_eq hn] at hst
      obtain rfl := Option.some.inj hst
      exact iff_of_true hopen rfl
    | false =>
      rw [if_neg nofun] at hst
      obtain rfl := Option.some.inj hst
      exact iff_of_false (Bool.eq_false_iff.mp (Session.isconnected_closeSession _)) nofun
  | close =>
    obtain rfl := Option.some.inj hst
    exact iff_of_false (Bool.eq_false_iff.mp (Session.isconnected_closeSession _)) id
  | cycle m arriving sends pings =>
    obtain ⟨c', rc, answered, pinged, hcycle, hout⟩ := Timed.cycle_spec hn sdk w.client m arriving sends pings
    simp only [step, hcycle, Option.bind_eq_bind, Option.bind_some, Option.pure_def, Option.some.injEq] at hst
    subst hst
    have htarget : (Timed.hearing n w.client.timers m arriving answered).ping_outstanding = true →
        w.client.timers.ping_sent.target_time = w.pingedAt + interval n :=
      fun h => (hgood.pinged (hearing_outstanding_iff.mp h).1).1
    cases hout with
    | goes _ _ htakes hanswered hsame hkeep =>
      refine iff_of_true (hsame.trans hopen) ⟨htakes, ?_⟩
      generalize c'.timers = k' at hkeep
      cases hkeep with
      | awaits hping _ halive =>
        rw [if_pos (hearing_outstanding_iff.mp hping), ← htarget hping]
        exact halive.mp rfl
      | asks hping _ hpings =>
        rw [if_neg (mt hearing_outstanding_iff.mpr (Bool.eq_false_iff.mp hping))]
        exact .inl hpings
      | rests hping hdue =>
        rw [if_neg (mt hearing_outstanding_iff.mpr (Bool.eq_false_iff.mp hping))]
        exact .inr ((not_due_iff hd hgood hopen hp htakes hanswered).mp hdue)
    | ends _ _ hclosed _ _ hfails =>
      refine iff_of_false (Bool.eq_false_iff.mp hclosed) ?_
      rintro ⟨htakes, hstays⟩
      obtain ⟨hanswered, hkeep⟩ := hfails htakes
      rcases hkeep.fails with ⟨hping, hexpired⟩ | ⟨hping, hdue, hpings⟩
      · rw [if_pos (hearing_outstanding_iff.mp hping), ← htarget hping] at hstays
        exact absurd hstays (Nat.not_lt.mpr hexpired)
      · rw [if_neg (mt hearing_outstanding_iff.mpr (Bool.eq_false_iff.mp hping)), hpings, or_iff_right nofun] at hstays
        exact (not_due_iff hd hgood hopen hp htakes hanswered).mpr hstays hdue

/-- A quiet `cycle` right after it. -/
theorem open_iff_opened : ∃ w w' : Watch, w.client.session.isconnected = true ∧
    w.step .documented 60 (.cycle ⟨200, 200, 200, 200, 200, 200⟩ none true false) = some w' ∧
    w'.client.session.isconnected = true := by
  obtain ⟨w, hr, hopen, hping, hnow, hchecked, hsent, hreceived⟩ := opened
  obtain ⟨c', rc, answered, pinged, hcycle, -⟩ := Timed.cycle_spec (by decide : 0 < 60 ∧ 60 < 2 ^ 16) .documented w.client
    ⟨200, 200, 200, 200, 200, 200⟩ none true false
  obtain ⟨w', hst⟩ : ∃ w', w.step .documented 60 (.cycle ⟨200, 200, 200, 200, 200, 200⟩ none true false) = some w' := by
    rw [step, hcycle]
    exact ⟨_, rfl⟩
  refine ⟨w, w', hopen, hst, (open_iff .documented (by decide) (by decide : 500000 < interval 60) hr hopen ?_ hst).mpr ?_⟩
  · rw [Prompt, hopen, hnow, hchecked]
    exact ⟨⟨by decide, by decide, by decide, by decide, by decide, by decide⟩, by decide⟩
  · rw [Stays, hping, hsent, hreceived, if_neg nofun]
    exact ⟨nofun, .inr ⟨.inr (by decide), .inr (by decide)⟩⟩

end Watch

end Mqtt
end Ventilation
