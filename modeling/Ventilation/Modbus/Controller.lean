/-
# The Modbus controller (src/modbus_handler/modbus_controller.cpp)

One controller serves all registers: `start` waits until it is not busy,
takes the controller in separate steps and returns; the transfer goes on by
itself and ends in one of two interrupts, that of the RX DMA when all bytes
expected have come or that of the alarm. The state machine lets every
interrupt, every byte on the line and every byte a DMA channel moves come
between any two of the program's steps; but a pending completion interrupt
is taken before the program goes on.

Beside the controller a run keeps a `Trace` of what belongs to which
transfer. What the DMA has stored since a transfer was programmed is, when it
ends, the reply its register receives (`end_receives`).
-/
import Ventilation.Modbus.Register

namespace Ventilation
namespace Modbus

open CInt

/-- The steps of `ModbusCtrl::start`. -/
inductive Stage
  | wait | setUser | rxStart | txStart | arm
  deriving DecidableEq

/-- The arguments of a call of `start`. -/
structure Call (ι : Type) where
  who : ι
  rxlen : ℕ
  timeout_ms : ℕ

/-- A DMA channel: the register whose buffer it works on, the place in that
buffer, and the bytes left to move. -/
structure DMAChannel (ι : Type) where
  owner : Option ι
  off : ℕ
  left : ℕ

/-- `DMAChannel::start`. -/
def DMAChannel.start {ι : Type} (who : ι) (len : ℕ) : DMAChannel ι := ⟨some who, 0, len⟩

/-- `DMAChannel::abort`: the address stays where it is. -/
def DMAChannel.abort {ι : Type} (c : DMAChannel ι) : DMAChannel ι := { c with left := 0 }

/-- The controller, its hardware and the registers. `pc` is the call of
`start` in progress, `fifo` the UART's receive FIFO and `line` what has been
sent. -/
structure ModbusCtrl (ι : Type) where
  busy : Bool
  current_user : Option ι
  ctrl_time : ℕ
  armed : Bool
  rx_channel : DMAChannel ι
  tx_channel : DMAChannel ι
  rx_irq : Bool
  fifo : List Byte
  line : List Byte
  regs : ι → MODBUSRegister
  pc : Option (Stage × Call ι)

/-- What the machine runs on: the baud rate, where the receive buffers lie, and
how many bytes the FIFO holds. -/
structure Board (ι : Type) where
  baud : ℕ
  rxbuf : ι → ℕ
  depth : ℕ

/-- What can happen next; `now` is what the clock reads. -/
inductive Event (ι : Type)
  | call (c : Call ι)
  | cpu (now : ℕ)
  | arrive (x : Byte)
  | rxByte
  | txByte
  | rxIrq (now : ℕ)
  | alarm (now : ℕ)

/-- `get_char_delay`. -/
def get_char_delay (baud : ℕ) : ℕ := 8 * 1000000 * 4 / baud

namespace ModbusCtrl

variable {ι : Type} [DecidableEq ι] (b : Board ι)

/-- The condition `start` waits for. -/
def Ready (s : ModbusCtrl ι) (now : ℕ) : Prop :=
  s.busy = false ∧ get_char_delay b.baud ≤ toUnsigned 64 ((now : ℤ) - s.ctrl_time)

instance (s : ModbusCtrl ι) (now : ℕ) : Decidable (s.Ready b now) :=
  inferInstanceAs (Decidable (_ ∧ _))

/-- The next step of `start`. The test that ends its loop and `busy = true` are
one step: an interrupt between them finds `busy` as one before the test does,
and leads to the state of that one and a later test, since the time of the test
is not kept. -/
def startStep (s : ModbusCtrl ι) (now : ℕ) : Stage → Call ι → ModbusCtrl ι
  | .wait, c => if s.Ready b now then { s with busy := true, pc := some (.setUser, c) } else s
  | .setUser, c => { s with current_user := some c.who, pc := some (.rxStart, c) }
  | .rxStart, c => { s with rx_channel := .start c.who c.rxlen, pc := some (.txStart, c) }
  | .txStart, c =>
    { s with tx_channel := .start c.who (s.regs c.who).payload_len, pc := some (.arm, c) }
  | .arm, c => { s with armed := s.armed || decide (c.timeout_ms ≠ 0), pc := none }

/-- `end`. The length is a difference of two addresses, in a `uint8_t`. -/
def endTransfer (s : ModbusCtrl ι) (timeout : Bool) (now : ℕ) : Option (ModbusCtrl ι) := do
  let user ← s.current_user
  let owner ← s.rx_channel.owner
  let len := toUnsigned 8 ((b.rxbuf owner : ℤ) + s.rx_channel.off - b.rxbuf user)
  pure { s with
    rx_channel := if timeout then s.rx_channel.abort else s.rx_channel
    tx_channel := if timeout then s.tx_channel.abort else s.tx_channel
    ctrl_time := now
    busy := false
    regs := Function.update s.regs user { s.regs user with rx_len := len } }

/-- The RX DMA stores a byte. -/
def rxByte (s : ModbusCtrl ι) : Option (ModbusCtrl ι) := do
  let owner ← s.rx_channel.owner
  let x ← s.fifo.head?
  let rxbuf ← Buffer.store (s.regs owner).rxbuf s.rx_channel.off [x]
  pure { s with
    fifo := s.fifo.tail
    rx_channel := ⟨owner, s.rx_channel.off + 1, s.rx_channel.left - 1⟩
    rx_irq := decide (s.rx_channel.left = 1)
    regs := Function.update s.regs owner { s.regs owner with rxbuf } }

/-- The TX DMA sends a byte. -/
def txByte (s : ModbusCtrl ι) : Option (ModbusCtrl ι) := do
  let owner ← s.tx_channel.owner
  let x ← (s.regs owner).payload.toList[s.tx_channel.off]?
  pure { s with
    line := s.line ++ [x]
    tx_channel := ⟨owner, s.tx_channel.off + 1, s.tx_channel.left - 1⟩ }

/-- **A step**; `none` if the event cannot happen, or goes wrong. -/
def step (s : ModbusCtrl ι) : Event ι → Option (ModbusCtrl ι)
  | .call c => if s.pc.isNone then some { s with pc := some (.wait, c) } else none
  | .cpu now => if s.rx_irq then none else s.pc.map fun p => s.startStep b now p.1 p.2
  | .arrive x => some (if s.fifo.length < b.depth then { s with fifo := s.fifo ++ [x] } else s)
  | .rxByte => if s.rx_channel.left = 0 then none else s.rxByte
  | .txByte => if s.tx_channel.left = 0 then none else s.txByte
  | .rxIrq now => if s.rx_irq then { s with rx_irq := false }.endTransfer b false now else none
  | .alarm now => if s.armed then { s with armed := false }.endTransfer b true now else none

/-- The constructor's controller, with the registers that will use it. -/
def new (regs : ι → MODBUSRegister) : ModbusCtrl ι where
  busy := false
  current_user := none
  ctrl_time := 0
  armed := false
  rx_channel := ⟨none, 0, 0⟩
  tx_channel := ⟨none, 0, 0⟩
  rx_irq := false
  fifo := []
  line := []
  regs
  pc := none

end ModbusCtrl

/-! ### What belongs to which transfer -/

/-- The interrupt that ends a transfer, with the transfer it belongs to. -/
inductive Cause
  | completion (transfer : ℕ)
  | alarm (transfer : ℕ)
  deriving DecidableEq

def Cause.transfer : Cause → ℕ
  | .completion k | .alarm k => k

/-- The transfers are numbered from 1 on in the order in which they begin, that
is, set `busy`. `running` is the one begun and not ended; `rxFor` and
`armedFor` are those the RX DMA was last programmed and the alarm last armed
for; `ends` and `programmed` say of each end what ended it, and of each time a
DMA channel was programmed, for which transfer and which was running.
`before` is the register as the RX DMA was programmed for it, `stored` what
the DMA has stored since. -/
structure Trace where
  begun : ℕ
  running : Option ℕ
  rxFor : ℕ
  armedFor : ℕ
  ends : List (ℕ × Cause)
  programmed : List (ℕ × Option ℕ)
  before : Option MODBUSRegister
  stored : List Byte

namespace Trace

def new : Trace := ⟨0, none, 0, 0, [], [], none, []⟩

/-- An interrupt ends what is running. -/
def ended (t : Trace) (cause : Cause) : Trace :=
  match t.running with
  | some k => { t with running := none, ends := (k, cause) :: t.ends }
  | none => t

section Ended

variable (t : Trace) (cause : Cause)

theorem running_ended : (t.ended cause).running = none := by
  unfold ended
  split
  · rfl
  · assumption

theorem begun_ended : (t.ended cause).begun = t.begun := by
  unfold ended
  split <;> rfl

theorem rxFor_ended : (t.ended cause).rxFor = t.rxFor := by
  unfold ended
  split <;> rfl

theorem programmed_ended : (t.ended cause).programmed = t.programmed := by
  unfold ended
  split <;> rfl

theorem before_ended : (t.ended cause).before = t.before := by
  unfold ended
  split <;> rfl

theorem stored_ended : (t.ended cause).stored = t.stored := by
  unfold ended
  split <;> rfl

variable {t cause}

theorem mem_ends_ended {k : ℕ} {c : Cause} (h : (k, c) ∈ (t.ended cause).ends) :
    (t.running = some k ∧ c = cause) ∨ (k, c) ∈ t.ends := by
  unfold ended at h
  split at h
  · rename_i j hj
    rcases List.mem_cons.mp h with he | h
    · cases he
      exact .inl ⟨hj, rfl⟩
    · exact .inr h
  · exact .inr h

end Ended

variable {ι : Type} [DecidableEq ι] (b : Board ι)

/-- What a step of `start` adds. -/
def started (t : Trace) (s : ModbusCtrl ι) (now : ℕ) : Stage → Call ι → Trace
  | .wait, _ =>
    if s.Ready b now then { t with begun := t.begun + 1, running := some (t.begun + 1) } else t
  | .setUser, _ => t
  | .rxStart, c => { t with
      rxFor := t.begun, programmed := (t.begun, t.running) :: t.programmed
      before := some (s.regs c.who), stored := [] }
  | .txStart, _ => { t with programmed := (t.begun, t.running) :: t.programmed }
  | .arm, c => if c.timeout_ms ≠ 0 then { t with armedFor := t.begun } else t

/-- What an event adds that the controller meets in state `s`. -/
def observe (t : Trace) (s : ModbusCtrl ι) : Event ι → Trace
  | .cpu now =>
    match s.pc with
    | some (stage, c) => t.started b s now stage c
    | none => t
  | .rxByte => { t with stored := t.stored ++ s.fifo.head?.toList }
  | .rxIrq _ => t.ended (.completion t.rxFor)
  | .alarm _ => t.ended (.alarm t.armedFor)
  | _ => t

end Trace

/-- The controller and the trace of its run. -/
structure Run (ι : Type) where
  ctrl : ModbusCtrl ι
  trace : Trace

namespace Run

variable {ι : Type} [DecidableEq ι] (b : Board ι)

def step (r : Run ι) (e : Event ι) : Option (Run ι) :=
  (r.ctrl.step b e).map fun s => ⟨s, r.trace.observe b r.ctrl e⟩

/-- The runs of a new controller. -/
def Init (r : Run ι) : Prop := ∃ regs, r = ⟨.new regs, .new⟩

variable {b} {r r' : Run ι}

/-! ### What each event can do -/

theorem step_call {c : Call ι} (h : r.step b (.call c) = some r') :
    r.ctrl.pc = none ∧ r' = ⟨{ r.ctrl with pc := some (.wait, c) }, r.trace⟩ := by
  obtain ⟨s, hs, rfl⟩ := Option.map_eq_some_iff.mp h
  simp only [ModbusCtrl.step] at hs
  split at hs
  · rename_i hpc
    exact ⟨Option.isNone_iff_eq_none.mp hpc, by rw [← Option.some.inj hs]; rfl⟩
  · cases hs

theorem step_cpu {now : ℕ} (h : r.step b (.cpu now) = some r') :
    r.ctrl.rx_irq = false ∧ ∃ stage c, r.ctrl.pc = some (stage, c) ∧
      r' = ⟨r.ctrl.startStep b now stage c, r.trace.started b r.ctrl now stage c⟩ := by
  obtain ⟨s, hs, rfl⟩ := Option.map_eq_some_iff.mp h
  simp only [ModbusCtrl.step] at hs
  split at hs
  · cases hs
  · rename_i hirq
    obtain ⟨⟨stage, c⟩, hpc, rfl⟩ := Option.map_eq_some_iff.mp hs
    exact ⟨Bool.eq_false_iff.mpr hirq, stage, c, hpc, by rw [Trace.observe, hpc]⟩

theorem step_arrive {x : Byte} (h : r.step b (.arrive x) = some r') : r' =
    ⟨if r.ctrl.fifo.length < b.depth then { r.ctrl with fifo := r.ctrl.fifo ++ [x] } else r.ctrl,
      r.trace⟩ := by
  obtain ⟨s, hs, rfl⟩ := Option.map_eq_some_iff.mp h
  rw [← Option.some.inj hs]
  rfl

theorem step_rxByte (h : r.step b .rxByte = some r') : ∃ o x fifo rxbuf,
    r.ctrl.rx_channel.owner = some o ∧ r.ctrl.rx_channel.left ≠ 0 ∧ r.ctrl.fifo = x :: fifo ∧
    Buffer.store (r.ctrl.regs o).rxbuf r.ctrl.rx_channel.off [x] = some rxbuf ∧
    r' = ⟨{ r.ctrl with
      fifo
      rx_channel := ⟨some o, r.ctrl.rx_channel.off + 1, r.ctrl.rx_channel.left - 1⟩
      rx_irq := decide (r.ctrl.rx_channel.left = 1)
      regs := Function.update r.ctrl.regs o { r.ctrl.regs o with rxbuf } },
      { r.trace with stored := r.trace.stored ++ [x] }⟩ := by
  obtain ⟨s, hs, rfl⟩ := Option.map_eq_some_iff.mp h
  simp only [ModbusCtrl.step] at hs
  split at hs
  · cases hs
  · rename_i hleft
    simp only [ModbusCtrl.rxByte, bind, Option.bind_eq_some_iff, pure, Option.some.injEq] at hs
    obtain ⟨o, ho, x, hx, rxbuf, hb, rfl⟩ := hs
    obtain ⟨fifo, hfifo⟩ := List.head?_eq_some_iff.mp hx
    refine ⟨o, x, fifo, rxbuf, ho, hleft, hfifo, hb, ?_⟩
    simp only [Trace.observe, hfifo, List.tail_cons, List.head?_cons, Option.toList_some]

theorem step_txByte (h : r.step b .txByte = some r') : ∃ line tx_channel,
    r' = ⟨{ r.ctrl with line, tx_channel }, r.trace⟩ := by
  obtain ⟨s, hs, rfl⟩ := Option.map_eq_some_iff.mp h
  simp only [ModbusCtrl.step] at hs
  split at hs
  · cases hs
  · simp only [ModbusCtrl.txByte, bind, Option.bind_eq_some_iff, pure, Option.some.injEq] at hs
    obtain ⟨o, -, x, -, rfl⟩ := hs
    exact ⟨_, _, rfl⟩

/-- The length `end` computes. -/
def endLen (b : Board ι) (s : ModbusCtrl ι) (user owner : ι) : ℕ :=
  toUnsigned 8 ((b.rxbuf owner : ℤ) + s.rx_channel.off - b.rxbuf user)

theorem step_rxIrq {now : ℕ} (h : r.step b (.rxIrq now) = some r') : r.ctrl.rx_irq = true ∧
    ∃ u o, r.ctrl.current_user = some u ∧ r.ctrl.rx_channel.owner = some o ∧
      r' = ⟨{ r.ctrl with
        rx_irq := false, ctrl_time := now, busy := false
        regs := Function.update r.ctrl.regs u
          { r.ctrl.regs u with rx_len := endLen b r.ctrl u o } },
        r.trace.ended (.completion r.trace.rxFor)⟩ := by
  obtain ⟨s, hs, rfl⟩ := Option.map_eq_some_iff.mp h
  simp only [ModbusCtrl.step] at hs
  split at hs
  · rename_i hirq
    simp only [ModbusCtrl.endTransfer, bind, Option.bind_eq_some_iff, pure, Option.some.injEq] at hs
    obtain ⟨u, hu, o, ho, rfl⟩ := hs
    exact ⟨hirq, u, o, hu, ho, rfl⟩
  · cases hs

theorem step_alarm {now : ℕ} (h : r.step b (.alarm now) = some r') : r.ctrl.armed = true ∧
    ∃ u o, r.ctrl.current_user = some u ∧ r.ctrl.rx_channel.owner = some o ∧
      r' = ⟨{ r.ctrl with
        armed := false, ctrl_time := now, busy := false
        rx_channel := r.ctrl.rx_channel.abort, tx_channel := r.ctrl.tx_channel.abort
        regs := Function.update r.ctrl.regs u
          { r.ctrl.regs u with rx_len := endLen b r.ctrl u o } },
        r.trace.ended (.alarm r.trace.armedFor)⟩ := by
  obtain ⟨s, hs, rfl⟩ := Option.map_eq_some_iff.mp h
  simp only [ModbusCtrl.step] at hs
  split at hs
  · rename_i harmed
    simp only [ModbusCtrl.endTransfer, bind, Option.bind_eq_some_iff, pure, Option.some.injEq] at hs
    obtain ⟨u, hu, o, ho, rfl⟩ := hs
    exact ⟨harmed, u, o, hu, ho, rfl⟩
  · cases hs

/-! ### What the DMA has stored -/

/-- The buffer the RX DMA works on holds what has been stored since it was
programmed, over what it held before; of the register nothing else but the
length has changed. -/
def Filled (r : Run ι) : Prop :=
  ∀ o, r.ctrl.rx_channel.owner = some o → ∃ r₀ rxbuf rx_len, r.trace.before = some r₀ ∧
    Buffer.store r₀.rxbuf 0 r.trace.stored = some rxbuf ∧
    r.ctrl.regs o = { r₀ with rxbuf, rx_len } ∧ r.trace.stored.length = r.ctrl.rx_channel.off

/-- A new length does not matter. -/
theorem Filled.update_len (h : Filled r) (u : ι) (len : ℕ) {r' : Run ι}
    (hrx : r'.ctrl.rx_channel.owner = r.ctrl.rx_channel.owner ∧
      r'.ctrl.rx_channel.off = r.ctrl.rx_channel.off)
    (htrace : r'.trace.before = r.trace.before ∧ r'.trace.stored = r.trace.stored)
    (hregs : r'.ctrl.regs =
      Function.update r.ctrl.regs u { r.ctrl.regs u with rx_len := len }) : Filled r' := by
  intro o ho
  obtain ⟨r₀, rxbuf, rx_len, hbefore, hstore, hreg, hlen⟩ := h o (hrx.1 ▸ ho)
  rw [htrace.1, htrace.2, hrx.2, hregs]
  by_cases he : o = u
  · subst he
    exact ⟨r₀, rxbuf, len, hbefore, hstore, by rw [Function.update_self, hreg], hlen⟩
  · exact ⟨r₀, rxbuf, rx_len, hbefore, hstore, by rw [Function.update_of_ne he, hreg], hlen⟩

theorem Filled.step (h : Filled r) {e : Event ι} (hst : r.step b e = some r') : Filled r' := by
  cases e with
  | call c =>
    obtain ⟨-, rfl⟩ := step_call hst
    exact h
  | cpu now =>
    obtain ⟨-, stage, c, -, rfl⟩ := step_cpu hst
    cases stage with
    | wait =>
      simp only [ModbusCtrl.startStep, Trace.started]
      split <;> exact h
    | setUser => exact h
    | rxStart =>
      intro o ho
      obtain rfl : c.who = o := Option.some.inj ho
      exact ⟨r.ctrl.regs c.who, _, _, rfl, Buffer.store_nil _, rfl, rfl⟩
    | txStart => exact h
    | arm =>
      simp only [ModbusCtrl.startStep, Trace.started]
      split <;> exact h
  | arrive x =>
    rw [step_arrive hst]
    split <;> exact h
  | rxByte =>
    obtain ⟨o, x, fifo, rxbuf', ho, -, -, hb, rfl⟩ := step_rxByte hst
    intro o' ho'
    obtain rfl : o = o' := Option.some.inj ho'
    obtain ⟨r₀, rxbuf, rx_len, hbefore, hstore, hreg, hlen⟩ := h o ho
    have hb' : Buffer.store rxbuf (0 + r.trace.stored.length) [x] = some rxbuf' := by
      rw [Nat.zero_add, hlen, ← hb, hreg]
    refine ⟨r₀, rxbuf', rx_len, hbefore, Buffer.store_append hstore hb', ?_, ?_⟩
    · dsimp only
      rw [Function.update_self, hreg]
    · rw [List.length_append, hlen]
      rfl
  | txByte =>
    obtain ⟨line, tx_channel, rfl⟩ := step_txByte hst
    exact h
  | rxIrq now =>
    obtain ⟨-, u, o, -, -, rfl⟩ := step_rxIrq hst
    exact h.update_len u _ ⟨rfl, rfl⟩ ⟨Trace.before_ended _ _, Trace.stored_ended _ _⟩ rfl
  | alarm now =>
    obtain ⟨-, u, o, -, -, rfl⟩ := step_alarm hst
    exact h.update_len u _ ⟨rfl, rfl⟩ ⟨Trace.before_ended _ _, Trace.stored_ended _ _⟩ rfl

theorem filled_of_reach {P : Run ι → Event ι → Prop}
    (h : Machine.Reach (Run.step b) Run.Init P r) : Filled r := by
  refine h.invariant (J := Filled) ?_ fun _ _ _ hf _ hst => hf.step hst
  rintro _ ⟨regs, rfl⟩ o ho
  cases ho

/-- The end of a transfer of the current user leaves its register with the
reply that the DMA has stored. -/
theorem end_receives {P : Run ι → Event ι → Prop} (h : Machine.Reach (Run.step b) Run.Init P r)
    {timeout : Bool} {now : ℕ} {u : ι} {s : ModbusCtrl ι}
    (hs : r.ctrl.endTransfer b timeout now = some s)
    (hu : r.ctrl.current_user = some u) (ho : r.ctrl.rx_channel.owner = some u) :
    ∃ r₀, r.trace.before = some r₀ ∧ r₀.receive r.trace.stored = some (s.regs u) := by
  obtain ⟨r₀, rxbuf, rx_len, hbefore, hstore, hreg, hlen⟩ := filled_of_reach h u ho
  have hle := (Buffer.toList_store hstore).1
  have hoff : toUnsigned 8 ((b.rxbuf u : ℤ) + r.ctrl.rx_channel.off - b.rxbuf u) =
      r.trace.stored.length := by
    rw [add_sub_cancel_left, toUnsigned_natCast, ← hlen, Nat.mod_eq_of_lt]
    unfold PAYLOAD_MAX_LEN at hle
    omega
  have hlen8 : unsigned? 8 (r.trace.stored.length : ℤ) = some r.trace.stored.length :=
    unsigned?_natCast (by unfold PAYLOAD_MAX_LEN at hle; omega)
  simp only [ModbusCtrl.endTransfer, hu, ho, bind, Option.bind_some, pure, Option.some.injEq] at hs
  subst hs
  refine ⟨r₀, hbefore, ?_⟩
  unfold MODBUSRegister.receive
  rw [Machine.bind_of hstore, Machine.bind_of hlen8]
  dsimp only
  rw [Function.update_self, hreg, hoff]
  rfl

end Run
end Modbus
end Ventilation
