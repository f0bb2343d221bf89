/-
# What ends a Modbus transfer

The alarm of a transfer stays armed when the transfer completes: `end` does
not cancel it. If it goes off in a later call of `start`, between setting
`busy` and arming the alarm anew, it ends the transfer that has just begun
(`stale_alarm_ends`). In a run in which it does not, and in which every call
asks for a timeout, each transfer is ended by its own completion or its own
alarm, the controller is busy until then, and no DMA channel is programmed
while an earlier transfer is running (`sound_of_orderly`).
-/
import Ventilation.Modbus.Controller

namespace Ventilation
namespace Modbus
namespace Run

variable {ι : Type} {r : Run ι}

/-- What should hold of every run. -/
structure Sound (r : Run ι) : Prop where
  /-- A transfer is ended by its own completion or by the alarm armed for it. -/
  ends : ∀ k c, (k, c) ∈ r.trace.ends → c.transfer = k
  /-- From its start to its end the controller is busy. -/
  busy : ∀ k, r.trace.running = some k → r.ctrl.busy = true
  /-- The DMA channels are not programmed while another transfer is running. -/
  programmed : ∀ k running, (k, running) ∈ r.trace.programmed → ∀ j, running = some j → j = k

/-- `start` has set `busy` and not yet come to arming the alarm. -/
def Arming (s : ModbusCtrl ι) : Prop := ∃ stage c, s.pc = some (stage, c) ∧ stage ≠ .wait

/-- A step that leaves the stale alarm alone: a call asks for a timeout, and
the alarm interrupt does not come while a call of `start` is at work for a
transfer that is running. -/
def Orderly (r : Run ι) : Event ι → Prop
  | .call c => c.timeout_ms ≠ 0
  | .alarm _ => ¬ (Arming r.ctrl ∧ r.ctrl.busy = true)
  | _ => True

/-- An event that is orderly wherever it happens. -/
def harmless : Event ι → Bool
  | .call c => c.timeout_ms ≠ 0
  | .alarm _ => false
  | _ => true

theorem orderly_of_harmless {e : Event ι} (h : harmless e = true) (r : Run ι) : Orderly r e := by
  cases e with
  | call c => exact (of_decide_eq_true h : c.timeout_ms ≠ 0)
  | alarm now => cases h
  | _ => trivial

/-- A running transfer is the one the RX DMA and the alarm are set for. -/
def SetFor (t : Trace) : Prop := ∀ k, t.running = some k → t.rxFor = k ∧ t.armedFor = k

/-- Where the transfer in `start` stands: `begun` is its number. -/
def StageOk (t : Trace) : Stage → Prop
  | .wait => SetFor t
  | .setUser | .rxStart => t.running = some t.begun ∧ t.rxFor < t.begun
  | .txStart | .arm => t.rxFor = t.begun

/-- The invariant of the orderly runs. -/
structure Tracked (r : Run ι) : Prop where
  busy : r.ctrl.busy = r.trace.running.isSome
  running : ∀ k, r.trace.running = some k → k = r.trace.begun
  left : 0 < r.ctrl.rx_channel.left → r.trace.running = some r.trace.rxFor
  irq : r.ctrl.rx_irq = true → r.ctrl.rx_channel.left = 0 ∧
    ∀ k, r.trace.running = some k → r.trace.rxFor = k
  rxFor : r.trace.rxFor ≤ r.trace.begun
  idle : r.ctrl.pc = none → SetFor r.trace
  stage : ∀ stage c, r.ctrl.pc = some (stage, c) → StageOk r.trace stage ∧ c.timeout_ms ≠ 0
  ends : ∀ k c, (k, c) ∈ r.trace.ends → c.transfer = k
  programmed : ∀ k running, (k, running) ∈ r.trace.programmed → ∀ j, running = some j → j = k

theorem Tracked.sound (h : Tracked r) : Sound r :=
  ⟨h.ends, fun k hk => by rw [h.busy, hk]; rfl, h.programmed⟩

theorem Tracked.running_eq_none (h : Tracked r) (hb : r.ctrl.busy = false) :
    r.trace.running = none := by
  have hsome := h.busy
  rw [hb] at hsome
  exact Option.not_isSome_iff_eq_none.mp (by rw [← hsome]; decide)

/-- A DMA channel is programmed for the running transfer. -/
theorem Tracked.programmed_cons (h : Tracked r) {k : ℕ} {running : Option ℕ}
    (hm : (k, running) ∈ (r.trace.begun, r.trace.running) :: r.trace.programmed) :
    ∀ j, running = some j → j = k := by
  intro j hj
  rcases List.mem_cons.mp hm with he | hm
  · cases he
    exact h.running j hj
  · exact h.programmed k running hm j hj

theorem tracked_init (h : Init r) : Tracked r := by
  obtain ⟨regs, rfl⟩ := h
  exact ⟨rfl, (fun k h => by cases h), (fun h => absurd h (lt_irrefl 0)), (fun h => by cases h), le_refl _,
    (fun _ k h => by cases h), (fun _ _ h => by cases h), (fun _ _ h => by cases h),
    fun _ _ h => by cases h⟩

/-- `start` is not between setting `busy` and programming the RX DMA. -/
def Programmed (s : ModbusCtrl ι) : Prop :=
  ∀ stage c, s.pc = some (stage, c) → stage ≠ .setUser ∧ stage ≠ .rxStart

/-- The RX DMA is then programmed for the running transfer. -/
theorem Tracked.rxFor_of_running (h : Tracked r) (hp : Programmed r.ctrl) {k : ℕ}
    (hk : r.trace.running = some k) : r.trace.rxFor = k := by
  rcases hpc : r.ctrl.pc with _ | ⟨stage, c⟩
  · exact (h.idle hpc k hk).1
  · have hok := (h.stage stage c hpc).1
    obtain ⟨h1, h2⟩ := hp stage c hpc
    cases stage with
    | wait => exact (hok k hk).1
    | setUser => exact (h1 rfl).elim
    | rxStart => exact (h2 rfl).elim
    | txStart => exact hok.trans (h.running k hk).symm
    | arm => exact hok.trans (h.running k hk).symm

/-- That holds when a completion interrupt comes, -/
theorem Tracked.programmed_of_irq (h : Tracked r) (hirq : r.ctrl.rx_irq = true) :
    Programmed r.ctrl := by
  intro stage c hp
  have hok := (h.stage stage c hp).1
  constructor <;> rintro rfl <;>
    exact absurd ((h.irq hirq).2 _ hok.1) (Nat.ne_of_lt hok.2)

/-- and when an orderly alarm interrupt does. -/
theorem Tracked.programmed_of_alarm (h : Tracked r)
    (ho : ¬ (Arming r.ctrl ∧ r.ctrl.busy = true)) : Programmed r.ctrl := by
  intro stage c hp
  have hok := (h.stage stage c hp).1
  constructor <;> rintro rfl <;>
    exact ho ⟨⟨_, c, hp, by decide⟩, h.sound.busy _ hok.1⟩

/-- What an interrupt leaves behind that ends a transfer of its own, or none,
when `start` is not about to program the RX DMA. -/
theorem Tracked.ended (h : Tracked r) {cause : Cause} {s : ModbusCtrl ι}
    (hown : ∀ k, r.trace.running = some k → cause.transfer = k) (hbusy : s.busy = false)
    (hleft : s.rx_channel.left = 0) (hpc : s.pc = r.ctrl.pc) (hstage : Programmed r.ctrl) :
    Tracked ⟨s, r.trace.ended cause⟩ := by
  have hnone := Trace.running_ended r.trace cause
  have hno : ∀ k, (r.trace.ended cause).running ≠ some k := fun k hk => by
    rw [hnone] at hk
    cases hk
  refine ⟨by rw [hbusy, hnone]; rfl, fun k hk => (hno k hk).elim, ?_, ?_, ?_,
    fun _ k hk => (hno k hk).elim, ?_, ?_, ?_⟩
  · intro hl
    dsimp only at hl
    omega
  · exact fun _ => ⟨hleft, fun k hk => (hno k hk).elim⟩
  · rw [Trace.rxFor_ended, Trace.begun_ended]
    exact h.rxFor
  · intro stage c hp
    rw [hpc] at hp
    obtain ⟨hok, htimeout⟩ := h.stage stage c hp
    obtain ⟨h1, h2⟩ := hstage stage c hp
    refine ⟨?_, htimeout⟩
    cases stage with
    | wait => exact fun k hk => (hno k hk).elim
    | setUser => exact (h1 rfl).elim
    | rxStart => exact (h2 rfl).elim
    | txStart => exact (Trace.rxFor_ended _ _).trans (hok.trans (Trace.begun_ended _ _).symm)
    | arm => exact (Trace.rxFor_ended _ _).trans (hok.trans (Trace.begun_ended _ _).symm)
  · intro k c hm
    rcases Trace.mem_ends_ended hm with ⟨hk, rfl⟩ | hm
    · exact hown k hk
    · exact h.ends k c hm
  · intro k running hm
    rw [Trace.programmed_ended] at hm
    exact h.programmed k running hm

/-! ### The steps of `start` -/

variable [DecidableEq ι] {b : Board ι} {r' : Run ι}

theorem Tracked.cpu (h : Tracked r) {now : ℕ} (hst : r.step b (.cpu now) = some r') :
    Tracked r' := by
  obtain ⟨hirq, stage, c, hpc, rfl⟩ := step_cpu hst
  obtain ⟨hstage, htimeout⟩ := h.stage stage c hpc
  cases stage with
  | wait =>
    simp only [ModbusCtrl.startStep, Trace.started]
    split
    · rename_i hready
      -- it is not busy: no transfer is running, and the RX DMA is idle
      have hnone := h.running_eq_none hready.1
      have hleft : ¬ 0 < r.ctrl.rx_channel.left := fun hl => by
        have := h.left hl
        rw [hnone] at this
        cases this
      refine ⟨rfl, ?_, fun hl => absurd hl hleft, ?_, ?_, (fun hp => by cases hp), ?_, h.ends,
        h.programmed⟩
      · rintro k ⟨⟩
        rfl
      · intro hi
        rw [hirq] at hi
        cases hi
      · exact le_trans h.rxFor (Nat.le_succ _)
      · rintro stage c' ⟨⟩
        exact ⟨⟨rfl, Nat.lt_succ_of_le h.rxFor⟩, htimeout⟩
    · exact h
  | setUser =>
    refine ⟨h.busy, h.running, h.left, h.irq, h.rxFor, (fun hp => by cases hp), ?_, h.ends,
      h.programmed⟩
    rintro stage c' ⟨⟩
    exact ⟨hstage, htimeout⟩
  | rxStart =>
    refine ⟨h.busy, h.running, fun _ => hstage.1, ?_, le_refl _, (fun hp => by cases hp), ?_, h.ends,
      fun _ _ => h.programmed_cons⟩
    · intro hi
      rw [show r.ctrl.rx_irq = true from hi] at hirq
      cases hirq
    · rintro stage c' ⟨⟩
      exact ⟨rfl, htimeout⟩
  | txStart =>
    refine ⟨h.busy, h.running, h.left, h.irq, h.rxFor, (fun hp => by cases hp), ?_, h.ends,
      fun _ _ => h.programmed_cons⟩
    rintro stage c' ⟨⟩
    exact ⟨hstage, htimeout⟩
  | arm =>
    simp only [ModbusCtrl.startStep, Trace.started, if_pos htimeout]
    exact ⟨h.busy, h.running, h.left, h.irq, h.rxFor,
      fun _ k hk => ⟨hstage.trans (h.running k hk).symm, (h.running k hk).symm⟩,
      (fun _ _ hp => by cases hp), h.ends, h.programmed⟩

/-! ### The interrupts -/

/-- A completion is that of the running transfer. -/
theorem Tracked.rxIrq (h : Tracked r) {now : ℕ} (hst : r.step b (.rxIrq now) = some r') :
    Tracked r' := by
  obtain ⟨hirq, u, o, -, -, rfl⟩ := step_rxIrq hst
  exact h.ended (h.irq hirq).2 rfl (h.irq hirq).1 rfl (h.programmed_of_irq hirq)

/-- An alarm outside the arming is that of the running transfer. -/
theorem Tracked.alarm (h : Tracked r) {now : ℕ} (ho : ¬ (Arming r.ctrl ∧ r.ctrl.busy = true))
    (hst : r.step b (.alarm now) = some r') : Tracked r' := by
  obtain ⟨harmed, u, o, -, -, rfl⟩ := step_alarm hst
  refine h.ended ?_ rfl rfl rfl (h.programmed_of_alarm ho)
  intro k hk
  rcases hp : r.ctrl.pc with _ | ⟨stage, c⟩
  · exact (h.idle hp k hk).2
  · have hok := (h.stage stage c hp).1
    obtain rfl : stage = .wait := by
      by_contra hne
      exact ho ⟨⟨stage, c, hp, hne⟩, h.sound.busy k hk⟩
    exact (hok k hk).2

theorem Tracked.step (h : Tracked r) {e : Event ι} (ho : Orderly r e)
    (hst : r.step b e = some r') : Tracked r' := by
  cases e with
  | call c =>
    obtain ⟨hpc, rfl⟩ := step_call hst
    refine ⟨h.busy, h.running, h.left, h.irq, h.rxFor, (fun hp => by cases hp), ?_, h.ends,
      h.programmed⟩
    rintro stage c' ⟨⟩
    exact ⟨h.idle hpc, ho⟩
  | cpu now => exact h.cpu hst
  | arrive x =>
    rw [step_arrive hst]
    split <;> exact ⟨h.busy, h.running, h.left, h.irq, h.rxFor, h.idle, h.stage, h.ends, h.programmed⟩
  | rxByte =>
    obtain ⟨o, x, fifo, rxbuf, hown, hleft, hfifo, hb, rfl⟩ := step_rxByte hst
    have hrun := h.left (Nat.pos_of_ne_zero hleft)
    refine ⟨h.busy, h.running, fun _ => hrun, ?_, h.rxFor, h.idle, h.stage, h.ends, h.programmed⟩
    intro hi
    have hone : r.ctrl.rx_channel.left = 1 := of_decide_eq_true hi
    refine ⟨by dsimp only; omega, fun k hk => ?_⟩
    exact Option.some.inj (hrun.symm.trans hk)
  | txByte =>
    obtain ⟨line, tx_channel, rfl⟩ := step_txByte hst
    exact ⟨h.busy, h.running, h.left, h.irq, h.rxFor, h.idle, h.stage, h.ends, h.programmed⟩
  | rxIrq now => exact h.rxIrq hst
  | alarm now => exact h.alarm ho hst

theorem tracked_of_reach (h : Machine.Reach (Run.step b) Init Orderly r) : Tracked r :=
  h.invariant (fun _ => tracked_init) fun _ _ _ ht ho hst => ht.step ho hst

/-- **What ends a transfer.** In a run in which every call asks for a timeout
and no alarm goes off while `start` is at work for a running transfer, each
transfer is ended by its own completion or its own alarm, the controller is
busy until then, and no DMA channel is programmed while another transfer is
running. -/
theorem sound_of_orderly (h : Machine.Reach (Run.step b) Init Orderly r) : Sound r :=
  (tracked_of_reach h).sound

/-! ### A stale alarm -/

/-- One register of one word, and the board of `main`. -/
def oneRegister : Run Unit :=
  ⟨.new fun _ => ReadRegister.new .blank 241 0 1 true, .new⟩

def board : Board Unit := ⟨9600, fun _ => 0x20000000, 32⟩

/-- A transfer of that register from its call to its completion: the request
goes out, and the reply comes and is stored. -/
def completed (now : ℕ) : List (Event Unit) :=
  [.call ⟨(), 7, 500⟩, .cpu now, .cpu now, .cpu now, .cpu now, .cpu now] ++
    List.replicate 8 .txByte ++ [0xf1, 3, 2, 0, 0, 0xf8, 0x51].map .arrive ++
    List.replicate 7 .rxByte ++ [.rxIrq (now + 20000)]

theorem completed_harmless : ∀ e ∈ completed 4000, harmless e = true := by decide

/-- A transfer that completes. -/
theorem sound_of_orderly_completed : ∃ r,
    Machine.run (Run.step board) oneRegister (completed 4000) = some r ∧ Sound r := by
  have hstart : Machine.Reach (Run.step board) Init Orderly oneRegister := .init ⟨_, rfl⟩
  exact ⟨_, rfl, sound_of_orderly
    (hstart.run (fun e he r => orderly_of_harmless (completed_harmless e he) r) rfl)⟩

/-- Half a second after the start of a transfer that has completed, its alarm
goes off just when the next one has set `busy`. -/
theorem stale_alarm_ends : ∃ r,
    Machine.run (Run.step board) oneRegister
      (completed 4000 ++ [.call ⟨(), 7, 500⟩, .cpu 504000, .alarm 504000]) = some r ∧
    (2, .alarm 1) ∈ r.trace.ends ∧ ¬ Sound r := by
  refine ⟨_, rfl, by decide, fun h => ?_⟩
  exact absurd (h.ends 2 (.alarm 1) (by decide)) (by decide)

end Run
end Modbus
end Ventilation
