/-
# TCP flow control and the receive ring (src/IPStack.cpp, src/lwipopts.h)

The peer may have `TCP_WND = 8 * 1460` bytes outstanding, and every callback
reopens the window by the whole chain (`reported_eq`), whether its bytes were
stored, read or dropped. So the window does not keep the ring from running
over: 2049 bytes before the first read lose one (`window_does_not_protect`).
What holds is that an event drops bytes exactly if what it delivers does not
fit into the free space, and that without such an event the bytes returned
are a prefix of the peer's stream (`prefix_while_chains_fit`).
-/
import Ventilation.IPStackFifo

namespace Ventilation
namespace IPStack

open CInt Machine

def TCP_MSS : ℕ := 1460

def TCP_WND : ℕ := 8 * TCP_MSS

/-! ### The bytes of several chains -/

/-- The bytes of the chains, in the order of their callbacks. -/
def chainsBytes (chains : List (Option Pbuf)) : List Byte := (chains.map chainBytes).flatten

theorem chainsBytes_cons (p : Option Pbuf) (chains : List (Option Pbuf)) :
    chainsBytes (p :: chains) = chainBytes p ++ chainsBytes chains := rfl

theorem length_chainBytes (p : Option Pbuf) : (chainBytes p).length = chainLen p := by
  cases p <;> rfl

theorem acceptedPart_eq_take (s : IPStack) (p : Option Pbuf) :
    s.acceptedPart p = (chainBytes p).take (BUF_SIZE - s.count) := by
  cases p <;> simp [acceptedPart, chainBytes]

section Callbacks

variable (lw : Lwip)

/-- What the callbacks report through `tcp_recved`. -/
def reported : IPStack → List (Option Pbuf) → ℕ
  | _, [] => 0
  | s, p :: ps =>
    match tcp_client_recv lw s p with
    | none => 0
    | some (s', r) => r + reported s' ps

/-- They report every byte they are given. -/
theorem reported_eq : ∀ {s : IPStack} (chains : List (Option Pbuf)), Ok s →
    reported lw s chains = (chainsBytes chains).length
  | _, [], _ => rfl
  | s, p :: ps, h => by
    obtain ⟨s', hr, hok, -⟩ := recv_spec lw h p
    rw [reported, hr, chainsBytes_cons, List.length_append, length_chainBytes]
    exact congrArg _ (reported_eq ps hok)

/-- What several callbacks do to the log. -/
structure Took (l l' : Log) (bs : List Byte) : Prop where
  ok : Ok l'.ring
  returned : l'.returned = l.returned
  /-- A byte is stored or lost. -/
  count : l'.ring.count + l'.lost = l.ring.count + l.lost + bs.length
  /-- What does not fit is lost. -/
  lost : l'.lost = l.lost + (l.ring.count + bs.length - BUF_SIZE)
  accepted : ∃ as, as.Sublist bs ∧ l'.accepted = l.accepted ++ as
  fits : l.ring.count + bs.length ≤ BUF_SIZE → l'.accepted = l.accepted ++ bs

theorem recv_took {l : Log} (h : Ok l.ring) (p : Option Pbuf) :
    ∃ l', l.recv lw p = some l' ∧ Took l l' (chainBytes p) := by
  obtain ⟨s', hr, hok, hc, -, -⟩ := recv_spec lw h p
  have hcount := h.count_le
  have hacc := acceptedPart_eq_take l.ring p
  have hlen : (l.ring.acceptedPart p).length = min (BUF_SIZE - l.ring.count) (chainLen p) := by
    rw [hacc, List.length_take, length_chainBytes]
  refine ⟨⟨s', l.accepted ++ l.ring.acceptedPart p,
    l.lost + (chainLen p - (l.ring.acceptedPart p).length), l.returned⟩, by rw [Log.recv, hr]; rfl,
    hok, rfl, ?_, ?_, ⟨_, hacc ▸ List.take_sublist _ _, rfl⟩, fun hfit => ?_⟩
  · rw [length_chainBytes]
    dsimp only
    omega
  · rw [length_chainBytes, hlen]
    dsimp only
    omega
  · dsimp only
    rw [hacc, List.take_of_length_le (by omega)]

theorem recvs_took : ∀ (chains : List (Option Pbuf)) {l : Log}, Ok l.ring →
    ∃ l', chains.foldlM (Log.recv lw) l = some l' ∧ Took l l' (chainsBytes chains)
  | [], l, h => by
    have hcount := h.count_le
    refine ⟨l, rfl, h, rfl, rfl, ?_, ⟨[], .slnil, (List.append_nil _).symm⟩, fun _ => (List.append_nil _).symm⟩
    show l.lost = l.lost + (l.ring.count + 0 - BUF_SIZE)
    omega
  | p :: ps, l, h => by
    obtain ⟨l₁, h1, t1⟩ := recv_took lw h p
    obtain ⟨l', h2, t2⟩ := recvs_took ps t1.ok
    obtain ⟨as, has, ha⟩ := t1.accepted
    obtain ⟨bs, hbs, hb⟩ := t2.accepted
    have hlen : (chainsBytes (p :: ps)).length = (chainBytes p).length + (chainsBytes ps).length := by
      rw [chainsBytes_cons, List.length_append]
    have hc1 := t1.count
    have hl1 := t1.lost
    have hl2 := t2.lost
    have hcount := h.count_le
    refine ⟨l', by rw [List.foldlM_cons, bind_of h1, h2], t2.ok, t2.returned.trans t1.returned, ?_,
      ?_, ⟨as ++ bs, has.append hbs, ?_⟩, fun hfit => ?_⟩
    · rw [t2.count, hc1, hlen, Nat.add_assoc]
    · -- the first chain leaves the ring full if it does not fit
      rw [hlen]
      omega
    · rw [hb, ha, List.append_assoc]
    · rw [t2.fits (by omega), t1.fits (by omega), List.append_assoc, chainsBytes_cons]

/-- Nothing is lost exactly if everything fits. -/
theorem Took.lost_iff {l l' : Log} {bs : List Byte} (t : Took l l' bs) :
    l'.lost = l.lost ↔ l.ring.count + bs.length ≤ BUF_SIZE := by
  have := t.lost
  omega

end Callbacks

/-! ### The peer, the window and the ring -/

section Net

variable (sdk : PicoTime) (lw : Lwip)

/-- The chains an event hands to the callback. -/
def arrived (s : IPStack) : Event sdk → List (Option Pbuf)
  | .recv p => [p]
  | @Event.read _ len _ timeout now polls =>
    delivered sdk lw len (readDeadline sdk now timeout) s polls.before polls.last

/-- The connection: the ring and its log, the bytes delivered to callbacks so
far, those sent and not yet delivered, and the bytes the peer has outstanding. -/
structure Net where
  log : Log
  delivered : List Byte
  wire : List Byte
  outstanding : ℕ

/-- All the peer has sent. -/
def Net.stream (n : Net) : List Byte := n.delivered ++ n.wire

inductive NetEvent
  | send (bs : List Byte)
  | ring (e : Event sdk)

/-- The peer sends what the window allows; callbacks and reads meet the bytes
on the wire in order, and what is reported through `tcp_recved` reopens the
window. -/
def Net.step (n : Net) : NetEvent sdk → Option Net
  | .send bs =>
    if n.outstanding + bs.length ≤ TCP_WND then
      some { n with wire := n.wire ++ bs, outstanding := n.outstanding + bs.length }
    else none
  | .ring e =>
    let chains := arrived sdk lw n.log.ring e
    if chainsBytes chains <+: n.wire then
      (n.log.step sdk lw e).map fun log =>
        { log
          delivered := n.delivered ++ chainsBytes chains
          wire := n.wire.drop (chainsBytes chains).length
          outstanding := n.outstanding - reported lw n.log.ring chains }
    else none

def Net.Init (d₀ : ℕ) (n : Net) : Prop :=
  n.log.Init d₀ ∧ n.delivered = [] ∧ n.wire = [] ∧ n.outstanding = 0

/-- What the event delivers fits into the free space of the ring. -/
def Fits (n : Net) : NetEvent sdk → Prop
  | .send _ => True
  | .ring e =>
    n.log.ring.count + (chainsBytes (arrived sdk lw n.log.ring e)).length ≤ BUF_SIZE

instance (n : Net) : ∀ e : NetEvent sdk, Decidable (Fits sdk lw n e)
  | .send _ => inferInstanceAs (Decidable True)
  | .ring _ => inferInstanceAs (Decidable (_ ≤ _))

variable {sdk lw} {d₀ : ℕ}

/-- An event of the ring is its callbacks, and then at most a copy out. -/
theorem step_took (lw : Lwip) {l : Log} {h : Fifo.Hist Byte BUF_SIZE} (hs : Sim d₀ l h) (e : Event sdk) :
    ∃ l₁ l', Took l l₁ (chainsBytes (arrived sdk lw l.ring e)) ∧ l.step sdk lw e = some l' ∧
      l'.accepted = l₁.accepted ∧ l'.lost = l₁.lost := by
  cases e with
  | recv p =>
    obtain ⟨l', hr, ht⟩ := recv_took lw hs.ok p
    refine ⟨l', l', ?_, hr, rfl, rfl⟩
    rw [arrived, chainsBytes_cons]
    simpa [chainsBytes] using ht
  | @read len out timeout now polls =>
    obtain ⟨l₁, h1, ht⟩ := recvs_took lw (delivered sdk lw len (readDeadline sdk now timeout) l.ring
      polls.before polls.last) hs.ok
    obtain ⟨l', -, hst, -⟩ := hs.step lw (.read out timeout now polls)
    refine ⟨l₁, l', ht, hst, ?_⟩
    rw [Log.step] at hst
    dsimp only at hst
    rw [bind_of h1] at hst
    obtain ⟨r, -, hr⟩ := Option.bind_eq_some_iff.mp hst
    cases hr
    exact ⟨rfl, rfl⟩

theorem Net.step_send {n n' : Net} {bs : List Byte} (hst : n.step sdk lw (.send bs) = some n') :
    n.outstanding + bs.length ≤ TCP_WND ∧
      n' = { n with wire := n.wire ++ bs, outstanding := n.outstanding + bs.length } := by
  rw [Net.step] at hst
  split at hst
  · rename_i h
    exact ⟨h, (Option.some.inj hst).symm⟩
  · cases hst

theorem Net.step_ring {n n' : Net} {e : Event sdk} (hst : n.step sdk lw (.ring e) = some n') :
    ∃ log, n.log.step sdk lw e = some log ∧
      n' = ⟨log, n.delivered ++ chainsBytes (arrived sdk lw n.log.ring e),
        n.wire.drop (chainsBytes (arrived sdk lw n.log.ring e)).length,
        n.outstanding - reported lw n.log.ring (arrived sdk lw n.log.ring e)⟩ := by
  rw [Net.step] at hst
  split at hst
  · obtain ⟨log, hlog, rfl⟩ := Option.map_eq_some_iff.mp hst
    exact ⟨log, hlog, rfl⟩
  · cases hst

/-- What holds of every connection. -/
structure Net.Inv (d₀ : ℕ) (n : Net) : Prop where
  sim : ∃ ops, Sim d₀ n.log (Fifo.Hist.run ops)
  outstanding : n.outstanding = n.wire.length
  accepted : n.log.accepted.Sublist n.delivered

theorem Net.Inv.step {n n' : Net} {e : NetEvent sdk} (hi : n.Inv d₀)
    (hst : n.step sdk lw e = some n') : n'.Inv d₀ := by
  obtain ⟨ops, hs⟩ := hi.sim
  cases e with
  | send bs =>
    obtain ⟨-, rfl⟩ := Net.step_send hst
    refine ⟨⟨ops, hs⟩, ?_, hi.accepted⟩
    simp only [hi.outstanding, List.length_append]
  | ring e =>
    obtain ⟨log, hlog, rfl⟩ := Net.step_ring hst
    obtain ⟨l₁, l', ht, hl, hacc, -⟩ := step_took lw hs e
    obtain ⟨l'', ops', hl', hs'⟩ := hs.step lw e
    obtain rfl : log = l' := Option.some.inj (hlog.symm.trans hl)
    obtain rfl : log = l'' := Option.some.inj (hlog.symm.trans hl')
    obtain ⟨as, has, ha⟩ := ht.accepted
    refine ⟨⟨ops ++ ops', by rw [Fifo.Hist.run, List.foldl_append]; exact hs'⟩, ?_, ?_⟩
    · simp only [hi.outstanding, reported_eq lw _ hs.ok, List.length_drop]
    · simp only [hacc, ha]
      exact hi.accepted.append has

theorem Net.init_inv (hd : d₀ < 2 ^ 32) {n : Net} (h : n.Init d₀) : n.Inv d₀ := by
  obtain ⟨hl, hdel, hw, ho⟩ := h
  refine ⟨⟨[], sim_init hd hl⟩, by rw [ho, hw]; rfl, ?_⟩
  rw [hl.2.2.2.2.1]
  exact List.nil_sublist _

theorem Net.reach_inv (hd : d₀ < 2 ^ 32) {P : Net → NetEvent sdk → Prop} {n : Net}
    (h : Reach (Net.step sdk lw) (Net.Init d₀) P n) : n.Inv d₀ :=
  h.invariant (fun _ => Net.init_inv hd) fun _ _ _ hi _ hst => hi.step hst

/-- An event loses what it delivers and does not fit; if all fits, all of it is accepted. -/
theorem Net.Inv.fits {n n' : Net} {e : Event sdk} (hi : n.Inv d₀)
    (hst : n.step sdk lw (.ring e) = some n') :
    n'.log.lost = n.log.lost +
      (n.log.ring.count + (chainsBytes (arrived sdk lw n.log.ring e)).length - BUF_SIZE) ∧
    (n'.log.lost = n.log.lost ↔ Fits sdk lw n (.ring e)) ∧
      (Fits sdk lw n (.ring e) → n'.log.accepted =
        n.log.accepted ++ chainsBytes (arrived sdk lw n.log.ring e)) := by
  obtain ⟨ops, hs⟩ := hi.sim
  obtain ⟨l₁, l', ht, hl, hacc, hlost⟩ := step_took lw hs e
  obtain ⟨log, hlog, rfl⟩ := Net.step_ring hst
  obtain rfl : log = l' := Option.some.inj (hlog.symm.trans hl)
  dsimp only
  rw [hlost, hacc]
  exact ⟨ht.lost, ht.lost_iff, ht.fits⟩

/-- While every event fits, what was accepted is what was delivered. -/
theorem Net.kept_of_fits (hd : d₀ < 2 ^ 32) {n : Net}
    (h : Reach (Net.step sdk lw) (Net.Init d₀) (Fits sdk lw) n) :
    n.log.lost = 0 ∧ n.log.accepted = n.delivered := by
  refine h.invariant_of (J := fun n => n.log.lost = 0 ∧ n.log.accepted = n.delivered)
    (fun n hr => Net.reach_inv hd hr) (fun n hi => ?_) fun n e n' hi ih hfit hst => ?_
  · exact ⟨hi.1.2.2.2.2.2.1, hi.1.2.2.2.2.1.trans hi.2.1.symm⟩
  · cases e with
    | send bs =>
      obtain ⟨-, rfl⟩ := Net.step_send hst
      exact ih
    | ring e =>
      obtain ⟨-, hlost, hacc⟩ := hi.fits hst
      refine ⟨(hlost.mpr hfit).trans ih.1, ?_⟩
      rw [hacc hfit, ih.2]
      obtain ⟨log, -, rfl⟩ := Net.step_ring hst
      rfl

/-- **What the ring keeps of the peer's stream.** As long as what each event
delivers fits into the free space, no byte is dropped and the bytes returned
are a prefix of the stream. An event drops what does not fit, however much of
the window is open; it is counted in `dropped`, and with the rest of the chain reported
to lwIP, so that what is outstanding is what is still on the wire. -/
theorem prefix_while_chains_fit (sdk : PicoTime) (lw : Lwip) (d₀ : Fin (2 ^ 32)) :
    (∀ n, Reach (Net.step sdk lw) (Net.Init d₀) (Fits sdk lw) n →
      n.log.lost = 0 ∧ n.log.ring.dropped = d₀ ∧ n.log.returned <+: n.stream) ∧
    (∀ n, Reach (Net.step sdk lw) (Net.Init d₀) Always n →
      n.log.ring.dropped = (d₀ + n.log.lost) % 2 ^ 32 ∧ n.outstanding = n.wire.length) ∧
    ∀ n n' (e : Event sdk), Reach (Net.step sdk lw) (Net.Init d₀) Always n → n.step sdk lw (.ring e) = some n' →
      (n'.log.lost = n.log.lost ↔ Fits sdk lw n (.ring e)) ∧
      n'.log.lost = n.log.lost +
        (n.log.ring.count + (chainsBytes (arrived sdk lw n.log.ring e)).length - BUF_SIZE) ∧
      reported lw n.log.ring (arrived sdk lw n.log.ring e) =
        (chainsBytes (arrived sdk lw n.log.ring e)).length := by
  refine ⟨fun n hr => ?_, fun n hr => ?_, fun n n' e hr hst => ?_⟩
  · obtain ⟨hlost, hacc⟩ := Net.kept_of_fits d₀.2 hr
    obtain ⟨ops, hs⟩ := (Net.reach_inv d₀.2 hr).sim
    have hcons : n.log.returned ++ n.log.ring.stored = n.delivered := hs.conserved.trans hacc
    refine ⟨hlost, by rw [hs.dropped, hlost, Nat.add_zero, Nat.mod_eq_of_lt d₀.2], ?_⟩
    have hpre : n.log.returned <+: n.delivered := hcons ▸ List.prefix_append _ _
    exact hpre.trans (List.prefix_append _ _)
  · have hi := Net.reach_inv d₀.2 hr
    obtain ⟨ops, hs⟩ := hi.sim
    exact ⟨hs.dropped, hi.outstanding⟩
  · have hi := Net.reach_inv d₀.2 hr
    obtain ⟨ops, hs⟩ := hi.sim
    obtain ⟨hlost, hiff, -⟩ := hi.fits hst
    exact ⟨hiff, hlost, reported_eq lw _ hs.ok⟩

/-! ### The window is larger than the ring -/

def Net.new (d₀ : ℕ) : Net := ⟨.new d₀, [], [], 0⟩

theorem Net.new_init (d₀ : ℕ) : (Net.new d₀).Init d₀ := ⟨Log.new_init d₀, rfl, rfl, rfl⟩

/-- 2049 bytes in two segments before the first read, and one more after it. -/
def overrun : List (NetEvent .documented) :=
  [.send (List.replicate 2048 0 ++ [1]),
    .ring (.recv (Pbuf.single (List.replicate 1460 0) (by decide +kernel))),
    .ring (.recv (Pbuf.single (List.replicate 588 0 ++ [1]) (by decide +kernel))),
    .ring (quietRead 2048), .send [2], .ring (.recv (Pbuf.single [2] (by decide))), .ring (quietRead 1)]

/-- The peer keeps to the window, one byte is lost, and what is returned
afterwards does not continue the stream. -/
theorem window_does_not_protect : ∃ n, Reach (Net.step .documented .documented) (Net.Init 0) Always n ∧
    n.log.lost = 1 ∧ ¬ n.log.returned <+: n.stream := by
  have h : (run (Net.step .documented .documented) (Net.new 0) overrun).any
      (fun n => n.log.lost = 1 ∧ ¬ n.log.returned <+: n.stream) = true := by decide +kernel
  obtain ⟨n, hn, hp⟩ := (Option.any_eq_true _ _).mp h
  exact ⟨n, (Reach.init (Net.new_init 0)).run (fun _ _ _ => trivial) hn, by simpa using hp⟩

/-- Six bytes are sent and arrive in two segments, with a read of two of them between these. -/
def fitting : List (NetEvent .documented) :=
  [.send [1, 2, 3, 4, 5, 6], .ring (.recv (Pbuf.single [1, 2, 3, 4] (by decide))), .ring (quietRead 2),
    .ring (.recv (Pbuf.single [5, 6] (by decide)))]

/-- The second segment of `overrun`. -/
def overrunning : Event .documented := .recv (Pbuf.single (List.replicate 588 0 ++ [1]) (by decide +kernel))

/-- A run that fits; and an event that does not, of whose 589 bytes one is dropped and all are reported. -/
theorem prefix_while_chains_fit_segments :
    (∃ n, run (Net.step .documented .documented) (Net.new 5) fitting = some n ∧
      n.log.returned = [1, 2] ∧ n.log.ring.dropped = 5 ∧ n.log.returned <+: n.stream) ∧
    ∃ n n', run (Net.step .documented .documented) (Net.new 5) (overrun.take 2) = some n ∧
      n.step .documented .documented (.ring overrunning) = some n' ∧
      n'.log.lost = n.log.lost + (1460 + 589 - BUF_SIZE) ∧ n'.log.ring.dropped = 6 ∧
      reported .documented n.log.ring (arrived .documented .documented n.log.ring overrunning) = 589 := by
  obtain ⟨hfit, hdropped, hevent⟩ := prefix_while_chains_fit .documented .documented 5
  have hinit : ∀ P, Reach (Net.step .documented .documented) (Net.Init 5) P (Net.new 5) :=
    fun _ => .init (Net.new_init 5)
  constructor
  · have hrun : (runIf (Net.step .documented .documented) (Fits .documented .documented) (Net.new 5) fitting).any
        (fun n => n.log.returned = [1, 2]) = true := by decide +kernel
    obtain ⟨n, hn, hp⟩ := (Option.any_eq_true _ _).mp hrun
    obtain ⟨hreach, hrun⟩ := (hinit _).runIf hn
    obtain ⟨-, hd, hprefix⟩ := hfit n hreach
    exact ⟨n, hrun, by simpa using hp, hd, hprefix⟩
  · have hrun : (run (Net.step .documented .documented) (Net.new 5) (overrun.take 2)).any (fun n =>
        n.log.ring.count = 1460 ∧ n.log.lost = 0 ∧
          (n.step .documented .documented (.ring overrunning)).isSome) = true := by decide +kernel
    obtain ⟨n, hn, hp⟩ := (Option.any_eq_true _ _).mp hrun
    obtain ⟨hcount, hzero, hsome⟩ : n.log.ring.count = 1460 ∧ n.log.lost = 0 ∧
      (n.step .documented .documented (.ring overrunning)).isSome := by simpa using hp
    obtain ⟨n', hn'⟩ := Option.isSome_iff_exists.mp hsome
    have hreach := (hinit Always).run (fun _ _ _ => trivial) hn
    have hlen : (chainsBytes (arrived .documented .documented n.log.ring overrunning)).length = 589 := by
      rw [overrunning, arrived]
      decide +kernel
    obtain ⟨-, hlost, hreported⟩ := hevent n n' overrunning hreach hn'
    rw [hlen, hcount] at hlost
    refine ⟨n, n', hn, hn', hlost, ?_, hreported.trans hlen⟩
    rw [(hdropped n' (.step (e := .ring overrunning) hreach trivial hn')).1, hlost, hzero]
    decide

end Net

end IPStack
end Ventilation
