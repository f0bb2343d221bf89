/-
# Whose reply is it?

Slaves answer the requests of several registers, possibly late; a byte that
comes while the RX DMA is idle stays in the FIFO and goes to the next
transfer. So a late reply is taken for the reply to a later request, CRC and
all (`late_reply_misread`). As long as each byte comes while the RX DMA is at
work for its own request, and no alarm cuts a reply off, a register for which
`is_ok` holds after its transfer has the reply to its own request
(`replies_attributed`).
-/
import Ventilation.Modbus.Alarm

namespace Ventilation
namespace Modbus

variable {ι : Type}

/-- The slaves: the correct reply to the `k`th request, if register `r` makes it. -/
structure Slaves (ι : Type) where
  len : ι → ℕ
  reply (r : ι) (k : ℕ) : List Byte
  length_reply : ∀ r k, (reply r k).length = len r
  crc_reply : ∀ r k, crc (reply r k) = 0

/-- The bus: a run of the controller, which register made the `k`th request,
whether the request has been handed to the TX DMA, how many bytes of its reply
have come, and for each register its last transfer, if that has ended. -/
structure Bus (ι : Type) where
  run : Run ι
  asker : ℕ → Option ι
  requested : ℕ → Bool
  arrived : ℕ → ℕ
  done : ι → Option ℕ

/-- A call of `start_transfer`, the next byte of the reply to the `k`th request,
or an event of the controller and its hardware. -/
inductive BusEvent (ι : Type)
  | start_transfer (r : ι)
  | reply (k : ℕ)
  | cpu (now : ℕ)
  | rxByte
  | txByte
  | rxIrq (now : ℕ)
  | alarm (now : ℕ)

namespace Bus

variable [DecidableEq ι] (board : Board ι) (slaves : Slaves ι)

/-- What the controller sees of an event. A reply comes after its request. -/
def event (b : Bus ι) : BusEvent ι → Option (Event ι)
  | .start_transfer r => some (.call ⟨r, ReadRegister.rxlen (b.run.ctrl.regs r), 500⟩)
  | .reply k =>
    if b.requested k then do
      let r ← b.asker k
      let x ← (slaves.reply r k)[b.arrived k]?
      pure (.arrive x)
    else none
  | .cpu now => some (.cpu now)
  | .rxByte => some .rxByte
  | .txByte => some .txByte
  | .rxIrq now => some (.rxIrq now)
  | .alarm now => some (.alarm now)

/-- A transfer begins when `start` finds the controller ready. -/
def begins (b : Bus ι) (now : ℕ) : Option ι :=
  match b.run.ctrl.pc with
  | some (.wait, c) => if b.run.ctrl.Ready board now then some c.who else none
  | _ => none

/-- The register whose running transfer an interrupt ends, with its number. -/
def ending (b : Bus ι) : Option (ι × ℕ) := do
  let k ← b.run.trace.running
  let r ← b.asker k
  pure (r, k)

/-- The bookkeeping of an interrupt. -/
def closed (b : Bus ι) (run : Run ι) : Bus ι :=
  match b.ending with
  | some (r, k) => { b with run, done := Function.update b.done r (some k) }
  | none => { b with run }

/-- The bookkeeping of an event. -/
def noted (b : Bus ι) (run : Run ι) : BusEvent ι → Bus ι
  | .reply k => { b with run, arrived := Function.update b.arrived k (b.arrived k + 1) }
  | .cpu now =>
    match b.begins board now with
    | some r =>
      { b with
        run, asker := Function.update b.asker (b.run.trace.begun + 1) (some r)
        done := Function.update b.done r none }
    | none =>
      match b.run.ctrl.pc with
      | some (.txStart, _) =>
        { b with run, requested := Function.update b.requested b.run.trace.begun true }
      | _ => { b with run }
  | .rxIrq _ | .alarm _ => b.closed run
  | _ => { b with run }

def step (b : Bus ι) (e : BusEvent ι) : Option (Bus ι) := do
  let ev ← b.event slaves e
  let run ← b.run.step board ev
  pure (b.noted board run e)

/-- A new controller with registers whose replies have the slaves' lengths. -/
def Init (b : Bus ι) : Prop :=
  ∃ regs : ι → MODBUSRegister, (∀ r, ReadRegister.rxlen (regs r) = slaves.len r) ∧
    b = ⟨⟨.new regs, .new⟩, fun _ => none, fun _ => false, fun _ => 0, fun _ => none⟩

/-- A register for which `is_ok` holds after its own transfer has ended holds
the reply to its own request. -/
def Attributed (b : Bus ι) : Prop :=
  ∀ r k, b.done r = some k → ReadRegister.is_ok (b.run.ctrl.regs r) = some true →
    (b.run.ctrl.regs r).rxbuf.toList.take (b.run.ctrl.regs r).rx_len = slaves.reply r k

/-- The slaves answer in time, or not at all: a byte of a reply comes while the
RX DMA is at work for that request; an alarm neither meets `start` at work for
a running transfer nor cuts a reply off; a reply fits the buffer. -/
def InTime (b : Bus ι) : BusEvent ι → Prop
  | .start_transfer r => slaves.len r ≤ PAYLOAD_MAX_LEN
  | .reply k => 0 < b.run.ctrl.rx_channel.left ∧ b.run.trace.rxFor = k
  | .alarm _ => ¬ (Run.Arming b.run.ctrl ∧ b.run.ctrl.busy = true) ∧
    (b.run.ctrl.busy = true → b.run.ctrl.fifo = [] ∧
      (b.run.ctrl.rx_channel.off = 0 ∨ b.run.ctrl.rx_channel.left = 0))
  | _ => True

/-! ### The invariant -/

/-- What holds while the slaves answer in time. -/
structure Matched (b : Bus ι) : Prop where
  tracked : Run.Tracked b.run
  filled : Run.Filled b.run
  len : ∀ r, ReadRegister.rxlen (b.run.ctrl.regs r) = slaves.len r
  /-- No reply to a request comes before its transfer has programmed the DMA. -/
  fresh : ∀ k, b.run.trace.rxFor < k → b.arrived k = 0
  /-- The current user is the register the DMA works for, but for one step of `start`. -/
  user : (∀ c, b.run.ctrl.pc ≠ some (.rxStart, c)) →
    b.run.ctrl.current_user = b.run.ctrl.rx_channel.owner
  nextUser : ∀ c, b.run.ctrl.pc = some (.rxStart, c) → b.run.ctrl.current_user = some c.who
  call : ∀ stage c, b.run.ctrl.pc = some (stage, c) → c.rxlen = slaves.len c.who ∧
    slaves.len c.who ≤ PAYLOAD_MAX_LEN ∧ (stage ≠ .wait → b.asker b.run.trace.begun = some c.who)
  asker : ∀ o, b.run.ctrl.rx_channel.owner = some o → b.asker b.run.trace.rxFor = some o
  /-- While the DMA is at work, what has come of the reply is stored or in the FIFO. -/
  receiving : 0 < b.run.ctrl.rx_channel.left → ∃ o, b.run.ctrl.rx_channel.owner = some o ∧
    b.run.trace.stored ++ b.run.ctrl.fifo =
      (slaves.reply o b.run.trace.rxFor).take (b.arrived b.run.trace.rxFor) ∧
    b.run.ctrl.rx_channel.off + b.run.ctrl.rx_channel.left = slaves.len o ∧
    slaves.len o ≤ PAYLOAD_MAX_LEN
  idle : b.run.ctrl.rx_channel.left = 0 → b.run.ctrl.fifo = []
  complete : b.run.trace.running = some b.run.trace.rxFor → b.run.ctrl.rx_channel.left = 0 →
    ∀ o, b.run.ctrl.rx_channel.owner = some o →
      b.run.trace.stored = slaves.reply o b.run.trace.rxFor
  pending : ∀ k o, b.run.trace.running = some k → b.asker k = some o → b.done o = none
  /-- Between the transfers the length stays what the DMA's address says. -/
  kept : b.run.trace.running = none → ∀ o k, b.run.ctrl.rx_channel.owner = some o →
    b.done o = some k → (b.run.ctrl.regs o).rx_len = b.run.ctrl.rx_channel.off
  done : ∀ r k, b.done r = some k → (b.run.ctrl.regs r).rx_len = 0 ∨
    (b.run.ctrl.regs r).rxbuf.toList.take (b.run.ctrl.regs r).rx_len = slaves.reply r k

variable {board slaves} {b b' : Bus ι}

omit [DecidableEq ι] in
/-- Where nothing has come `is_ok` does not hold: the invariant says enough. -/
theorem Matched.attributed (h : Matched slaves b) : Attributed slaves b := by
  intro r k hd hok
  refine (h.done r k hd).resolve_left fun h0 => ?_
  have hload : Buffer.load (b.run.ctrl.regs r).rxbuf 0 0 = some [] :=
    Buffer.load_eq_some (Nat.zero_le _)
  rw [ReadRegister.is_ok, h0, Machine.bind_of hload] at hok
  revert hok
  decide

theorem rxlen_pos (r : MODBUSRegister) : 0 < ReadRegister.rxlen r := by
  unfold ReadRegister.rxlen READ_EXPECTED_CHARACTERS
  rw [CInt.toUnsigned_natCast]
  omega

omit [DecidableEq ι] in
theorem matched_init (h : Init slaves b) : Matched slaves b := by
  obtain ⟨regs, hlen, rfl⟩ := h
  exact
    { tracked := Run.tracked_init ⟨regs, rfl⟩
      filled := fun o ho => by cases ho
      len := hlen
      fresh := fun _ _ => rfl
      user := fun _ => rfl
      nextUser := fun _ hp => by cases hp
      call := fun _ _ hp => by cases hp
      asker := fun _ ho => by cases ho
      receiving := fun hl => absurd hl (lt_irrefl 0)
      idle := fun _ => rfl
      complete := fun hr => by cases hr
      pending := fun _ _ hr => by cases hr
      kept := fun _ _ _ ho => by cases ho
      done := fun _ _ hd => by cases hd }

/-! ### The steps -/

theorem step_eq {e : BusEvent ι} (h : b.step board slaves e = some b') :
    ∃ ev run, b.event slaves e = some ev ∧ b.run.step board ev = some run ∧
      b' = b.noted board run e := by
  simp only [step, bind, Option.bind_eq_some_iff, pure, Option.some.injEq] at h
  obtain ⟨ev, hev, run, hrun, rfl⟩ := h
  exact ⟨ev, run, hev, hrun, rfl⟩

/-- The controller's part of an event in time is orderly. -/
theorem Matched.tracked_step (h : Matched slaves b) {e : BusEvent ι} {ev : Event ι} {run : Run ι}
    (ht : InTime slaves b e) (hev : b.event slaves e = some ev)
    (hrun : b.run.step board ev = some run) : Run.Tracked run := by
  refine h.tracked.step ?_ hrun
  cases e with
  | start_transfer r =>
    cases hev
    exact (by decide : 500 ≠ 0)
  | reply k =>
    simp only [event] at hev
    split at hev
    · simp only [bind, Option.bind_eq_some_iff, pure, Option.some.injEq] at hev
      obtain ⟨r, -, x, -, rfl⟩ := hev
      trivial
    · cases hev
  | cpu now => cases hev; trivial
  | rxByte => cases hev; trivial
  | txByte => cases hev; trivial
  | rxIrq now => cases hev; trivial
  | alarm now => cases hev; exact ht.1

omit [DecidableEq ι] in
/-- The RX DMA is idle as long as it is not programmed for a new transfer. -/
theorem Matched.left_eq_zero (h : Matched slaves b) (hne : b.run.trace.running ≠ some b.run.trace.rxFor) :
    b.run.ctrl.rx_channel.left = 0 := by
  by_contra hl
  exact hne (h.tracked.left (Nat.pos_of_ne_zero hl))

omit [DecidableEq ι] in
/-- The current user at any other step of `start`. -/
theorem Matched.user_of_pc (h : Matched slaves b) {stage : Stage} {c : Call ι}
    (hpc : b.run.ctrl.pc = some (stage, c)) (hne : stage ≠ .rxStart) :
    b.run.ctrl.current_user = b.run.ctrl.rx_channel.owner := by
  refine h.user fun c' hc' => hne ?_
  rw [hpc] at hc'
  exact congrArg Prod.fst (Option.some.inj hc')

/-- A register keeps the length of its replies. -/
theorem len_update {regs : ι → MODBUSRegister} (h : ∀ r, ReadRegister.rxlen (regs r) = slaves.len r)
    {o : ι} {x : MODBUSRegister} (hx : ReadRegister.rxlen x = ReadRegister.rxlen (regs o)) (r : ι) :
    ReadRegister.rxlen (Function.update regs o x r) = slaves.len r := by
  by_cases he : r = o
  · subst he
    rw [Function.update_self, hx]
    exact h r
  · rw [Function.update_of_ne he]
    exact h r

/-- A transfer begins. -/
theorem Matched.begin (h : Matched slaves b) {c : Call ι} {now : ℕ}
    (hpc : b.run.ctrl.pc = some (.wait, c)) (hready : b.run.ctrl.Ready board now)
    (ht : Run.Tracked ⟨b.run.ctrl.startStep board now .wait c,
      b.run.trace.started board b.run.ctrl now .wait c⟩)
    (hf : Run.Filled ⟨b.run.ctrl.startStep board now .wait c,
      b.run.trace.started board b.run.ctrl now .wait c⟩) :
    Matched slaves
      { b with
        run := ⟨b.run.ctrl.startStep board now .wait c,
          b.run.trace.started board b.run.ctrl now .wait c⟩
        asker := Function.update b.asker (b.run.trace.begun + 1) (some c.who)
        done := Function.update b.done c.who none } := by
  obtain ⟨hlen, hfit, -⟩ := h.call _ c hpc
  have hnone := h.tracked.running_eq_none hready.1
  have hleft := h.left_eq_zero (by rw [hnone]; exact fun he => by cases he)
  have hrxFor := h.tracked.rxFor
  simp only [ModbusCtrl.startStep, Trace.started, if_pos hready] at ht hf ⊢
  exact
    { tracked := ht
      filled := hf
      len := h.len
      fresh := h.fresh
      user := fun _ => h.user_of_pc hpc (by decide)
      nextUser := fun _ hp => by cases hp
      call := by
        rintro stage c' ⟨⟩
        exact ⟨hlen, hfit, fun _ => Function.update_self _ _ _⟩
      asker := fun o ho => by
        dsimp only
        rw [Function.update_of_ne (by omega)]
        exact h.asker o ho
      receiving := fun hl => by
        dsimp only at hl
        omega
      idle := fun _ => h.idle hleft
      complete := fun he => by
        have he : b.run.trace.begun + 1 = b.run.trace.rxFor := Option.some.inj he
        omega
      pending := by
        rintro k o ⟨⟩ ho
        dsimp only at ho
        rw [Function.update_self] at ho
        rw [← Option.some.inj ho]
        exact Function.update_self _ _ _
      kept := fun he => by cases he
      done := by
        intro r k hd
        dsimp only at hd
        by_cases he : r = c.who
        · rw [he, Function.update_self] at hd
          cases hd
        · rw [Function.update_of_ne he] at hd
          exact h.done r k hd }

omit [DecidableEq ι] in
/-- The RX DMA is programmed. -/
theorem Matched.rxStart (h : Matched slaves b) {c : Call ι} {now : ℕ}
    (hpc : b.run.ctrl.pc = some (.rxStart, c))
    (ht : Run.Tracked ⟨b.run.ctrl.startStep board now .rxStart c,
      b.run.trace.started board b.run.ctrl now .rxStart c⟩)
    (hf : Run.Filled ⟨b.run.ctrl.startStep board now .rxStart c,
      b.run.trace.started board b.run.ctrl now .rxStart c⟩) :
    Matched slaves { b with run := ⟨b.run.ctrl.startStep board now .rxStart c,
      b.run.trace.started board b.run.ctrl now .rxStart c⟩ } := by
  obtain ⟨hlen, hfit, hasker⟩ := h.call _ c hpc
  obtain ⟨⟨hrun, hrxFor⟩, -⟩ := h.tracked.stage _ c hpc
  have hpos : 0 < c.rxlen := by
    rw [hlen, ← h.len]
    exact rxlen_pos _
  have hne : b.run.trace.running ≠ some b.run.trace.rxFor := by
    rw [hrun]
    exact fun he => Nat.ne_of_gt hrxFor (Option.some.inj he)
  have hfifo := h.idle (h.left_eq_zero hne)
  exact
    { tracked := ht
      filled := hf
      len := h.len
      fresh := fun k hk => h.fresh k (lt_trans hrxFor hk)
      user := fun _ => h.nextUser c hpc
      nextUser := fun _ hp => by cases hp
      call := by
        rintro stage c' ⟨⟩
        exact ⟨hlen, hfit, fun _ => hasker (by decide)⟩
      asker := by
        rintro o ⟨⟩
        exact hasker (by decide)
      receiving := fun _ => by
        refine ⟨c.who, rfl, ?_, ?_, hfit⟩
        · dsimp only [ModbusCtrl.startStep, Trace.started]
          rw [hfifo, h.fresh _ hrxFor]
          rfl
        · exact (Nat.zero_add _).trans hlen
      idle := fun hl => absurd hl (Nat.ne_of_gt hpos)
      complete := fun _ hl => absurd hl (Nat.ne_of_gt hpos)
      pending := h.pending
      kept := fun he => by
        dsimp only [Trace.started] at he
        rw [hrun] at he
        cases he
      done := h.done }

/-- A step of `start`. -/
theorem Matched.cpu (h : Matched slaves b) {now : ℕ} {run : Run ι}
    (hrun : b.run.step board (.cpu now) = some run) :
    Matched slaves (b.noted board run (.cpu now)) := by
  have ht : Run.Tracked run := h.tracked.step (e := .cpu now) trivial hrun
  have hf : Run.Filled run := h.filled.step hrun
  obtain ⟨-, stage, c, hpc, rfl⟩ := Run.step_cpu hrun
  obtain ⟨hlen, hfit, hasker⟩ := h.call _ c hpc
  cases stage with
  | wait =>
    by_cases hready : b.run.ctrl.Ready board now
    · simp only [noted, begins, hpc, if_pos hready]
      exact h.begin hpc hready ht hf
    · simp only [noted, begins, hpc, if_neg hready]
      simp only [ModbusCtrl.startStep, Trace.started, if_neg hready]
      exact h
  | setUser =>
    simp only [noted, begins, hpc]
    exact
      { h with
        tracked := ht
        filled := hf
        user := fun hp => absurd rfl (hp c)
        nextUser := by
          rintro c' ⟨⟩
          rfl
        call := by
          rintro stage c' ⟨⟩
          exact ⟨hlen, hfit, fun _ => hasker (by decide)⟩ }
  | rxStart =>
    simp only [noted, begins, hpc]
    exact h.rxStart hpc ht hf
  | txStart =>
    simp only [noted, begins, hpc]
    exact
      { h with
        tracked := ht
        filled := hf
        user := fun _ => h.user_of_pc hpc (by decide)
        nextUser := fun _ hp => by cases hp
        call := by
          rintro stage c' ⟨⟩
          exact ⟨hlen, hfit, fun _ => hasker (by decide)⟩ }
  | arm =>
    have hsame : ∀ t : Trace, t = b.run.trace ∨ t = { b.run.trace with armedFor := b.run.trace.begun } →
        Run.Tracked ⟨b.run.ctrl.startStep board now .arm c, t⟩ →
        Run.Filled ⟨b.run.ctrl.startStep board now .arm c, t⟩ →
        Matched slaves { b with run := ⟨b.run.ctrl.startStep board now .arm c, t⟩ } := by
      rintro t (rfl | rfl) ht hf <;>
      exact
        { h with
          tracked := ht
          filled := hf
          user := fun _ => h.user_of_pc hpc (by decide)
          nextUser := fun _ hp => by cases hp
          call := fun _ _ hp => by cases hp }
    simp only [noted, begins, hpc]
    refine hsame _ ?_ ht hf
    simp only [Trace.started]
    split
    · exact .inr rfl
    · exact .inl rfl

/-- The RX DMA stores a byte. -/
theorem Matched.rxByte (h : Matched slaves b) {run : Run ι}
    (hrun : b.run.step board .rxByte = some run) : Matched slaves { b with run } := by
  have ht : Run.Tracked run := h.tracked.step (e := .rxByte) trivial hrun
  have hf : Run.Filled run := h.filled.step hrun
  obtain ⟨o, x, fifo, rxbuf, ho, hleft, hfifo, -, rfl⟩ := Run.step_rxByte hrun
  have hpos := Nat.pos_of_ne_zero hleft
  obtain ⟨o', ho', hcame, hroom, hfit⟩ := h.receiving hpos
  obtain rfl : o = o' := Option.some.inj (ho.symm.trans ho')
  obtain ⟨-, -, -, -, -, -, hoff⟩ := h.filled o ho
  have hrunning := h.tracked.left hpos
  have hdone : b.done o = none := h.pending _ o hrunning (h.asker o ho)
  have hcame' : (b.run.trace.stored ++ [x]) ++ fifo =
      (slaves.reply o b.run.trace.rxFor).take (b.arrived b.run.trace.rxFor) := by
    rw [← hcame, hfifo, List.append_assoc]
    rfl
  have hcount : b.run.trace.stored.length + 1 + fifo.length ≤ slaves.len o := by
    have := congrArg List.length hcame'
    rw [List.length_append, List.length_append, List.length_take, slaves.length_reply] at this
    simp only [List.length_singleton] at this
    omega
  have hother : ∀ r k, b.done r = some k → r ≠ o := fun r k hd he => by
    rw [he, hdone] at hd
    cases hd
  exact
    { tracked := ht
      filled := hf
      len := len_update h.len rfl
      fresh := h.fresh
      user := fun hp => (h.user hp).trans ho
      nextUser := h.nextUser
      call := h.call
      asker := by
        rintro o' ⟨⟩
        exact h.asker o ho
      receiving := fun _ => ⟨o, rfl, hcame', by dsimp only; omega, hfit⟩
      idle := fun hl => by
        dsimp only at hl ⊢
        exact List.eq_nil_of_length_eq_zero (by omega)
      complete := by
        rintro - hl o' ⟨⟩
        dsimp only at hl ⊢
        have hnil : fifo = [] := List.eq_nil_of_length_eq_zero (by omega)
        rw [hnil, List.append_nil] at hcame'
        rw [hcame', List.take_of_length_le]
        have := congrArg List.length hcame'
        rw [List.length_append, List.length_take, slaves.length_reply] at this
        simp only [List.length_singleton] at this
        rw [slaves.length_reply]
        omega
      pending := h.pending
      kept := fun hn => by
        dsimp only at hn
        rw [hrunning] at hn
        cases hn
      done := fun r k hd => by
        dsimp only
        rw [Function.update_of_ne (hother r k hd)]
        exact h.done r k hd }

/-- What an interrupt leaves of the controller. -/
structure Interrupted (s s' : ModbusCtrl ι) (o : ι) : Prop where
  user : s'.current_user = s.current_user
  pc : s'.pc = s.pc
  fifo : s'.fifo = s.fifo
  owner : s'.rx_channel.owner = s.rx_channel.owner
  off : s'.rx_channel.off = s.rx_channel.off
  left : s'.rx_channel.left = 0
  regs : s'.regs = Function.update s.regs o { s.regs o with rx_len := s.rx_channel.off }

omit [DecidableEq ι] in
/-- What the DMA has stored is the beginning of the buffer. -/
theorem take_stored {r : Run ι} (h : Run.Filled r) {o : ι} (ho : r.ctrl.rx_channel.owner = some o) :
    (r.ctrl.regs o).rxbuf.toList.take r.ctrl.rx_channel.off = r.trace.stored ∧
      r.ctrl.rx_channel.off ≤ PAYLOAD_MAX_LEN := by
  obtain ⟨r₀, rxbuf, rx_len, -, hstore, hreg, hlen⟩ := h o ho
  obtain ⟨hle, hlist⟩ := Buffer.toList_store hstore
  rw [hreg, ← hlen]
  dsimp only
  rw [hlist]
  exact ⟨by simp, by omega⟩

/-- An interrupt keeps all but what is known of its own register. -/
theorem Matched.interrupt_done (h : Matched slaves b) {cause : Cause} {s : ModbusCtrl ι} {o : ι}
    (ho : b.run.ctrl.rx_channel.owner = some o) (hs : Interrupted b.run.ctrl s o)
    (hfifo : b.run.ctrl.fifo = []) (ht : Run.Tracked ⟨s, b.run.trace.ended cause⟩)
    (hf : Run.Filled ⟨s, b.run.trace.ended cause⟩) {done : ι → Option ℕ}
    (hself : ∀ k, done o = some k → b.run.ctrl.rx_channel.off = 0 ∨
      (b.run.ctrl.regs o).rxbuf.toList.take b.run.ctrl.rx_channel.off = slaves.reply o k)
    (hother : ∀ r, r ≠ o → done r = b.done r) :
    Matched slaves { b with run := ⟨s, b.run.trace.ended cause⟩, done } := by
  have hnone := Trace.running_ended b.run.trace cause
  have hreg : s.regs o = { b.run.ctrl.regs o with rx_len := b.run.ctrl.rx_channel.off } := by
    rw [hs.regs, Function.update_self]
  exact
    { tracked := ht
      filled := hf
      len := by
        dsimp only
        rw [hs.regs]
        exact len_update h.len rfl
      fresh := fun k hk => by
        dsimp only at hk
        rw [Trace.rxFor_ended] at hk
        exact h.fresh k hk
      user := fun hpc => by
        dsimp only at hpc ⊢
        rw [hs.pc] at hpc
        rw [hs.user, hs.owner]
        exact h.user hpc
      nextUser := fun c hc => by
        dsimp only at hc ⊢
        rw [hs.pc] at hc
        rw [hs.user]
        exact h.nextUser c hc
      call := fun stage c hc => by
        dsimp only at hc ⊢
        rw [hs.pc] at hc
        rw [Trace.begun_ended]
        exact h.call stage c hc
      asker := fun o' ho' => by
        dsimp only at ho' ⊢
        rw [hs.owner] at ho'
        rw [Trace.rxFor_ended]
        exact h.asker o' ho'
      receiving := fun hl => by
        dsimp only at hl
        rw [hs.left] at hl
        omega
      idle := fun _ => hs.fifo.trans hfifo
      complete := fun hr => by
        dsimp only at hr
        rw [hnone] at hr
        cases hr
      pending := fun k o hk => by
        dsimp only at hk
        rw [hnone] at hk
        cases hk
      kept := fun _ o' k ho' _ => by
        dsimp only at ho' ⊢
        rw [hs.owner, ho] at ho'
        obtain rfl := Option.some.inj ho'
        rw [hreg, hs.off]
      done := fun r k hd => by
        dsimp only at hd ⊢
        by_cases he : r = o
        · subst he
          rw [hreg]
          exact hself k hd
        · rw [hs.regs, Function.update_of_ne he]
          exact h.done r k (hother r he ▸ hd) }

/-- An interrupt that finds the reply complete, or nothing of it. -/
theorem Matched.interrupt (h : Matched slaves b) (hp : Run.Programmed b.run.ctrl) {cause : Cause}
    {s : ModbusCtrl ι} {o : ι} (ho : b.run.ctrl.rx_channel.owner = some o)
    (hs : Interrupted b.run.ctrl s o) (hfifo : b.run.ctrl.fifo = [])
    (hgood : ∀ k, b.run.trace.running = some k →
      b.run.ctrl.rx_channel.off = 0 ∨ b.run.ctrl.rx_channel.left = 0)
    (ht : Run.Tracked ⟨s, b.run.trace.ended cause⟩)
    (hf : Run.Filled ⟨s, b.run.trace.ended cause⟩) :
    Matched slaves (b.closed ⟨s, b.run.trace.ended cause⟩) := by
  obtain ⟨hstored, -⟩ := take_stored h.filled ho
  unfold closed
  rcases hrun : b.run.trace.running with _ | k
  · have hend : b.ending = none := by
      rw [ending, hrun]
      rfl
    simp only [hend]
    refine h.interrupt_done ho hs hfifo ht hf (fun k hd => ?_) fun r _ => rfl
    have hlen := h.kept hrun o k ho hd
    rw [← hlen]
    exact h.done o k hd
  · have hrxFor := h.tracked.rxFor_of_running hp hrun
    have hend : b.ending = some (o, k) := by
      have hasker := h.asker o ho
      rw [hrxFor] at hasker
      rw [ending, hrun, Option.bind_eq_bind, Option.bind_some, hasker]
      rfl
    simp only [hend]
    refine h.interrupt_done ho hs hfifo ht hf (fun k' hd => ?_) fun r hr => Function.update_of_ne hr _ _
    rw [Function.update_self] at hd
    obtain rfl := Option.some.inj hd
    rcases hgood k hrun with h0 | h0
    · exact .inl h0
    · refine .inr (hstored.trans ?_)
      have hcomplete := h.complete (by rw [hrun, hrxFor]) h0 o ho
      rw [hrxFor] at hcomplete
      exact hcomplete

omit [DecidableEq ι] in
/-- The length `end` computes for the register the DMA works for. -/
theorem endLen_self {s : Run ι} (h : Run.Filled s) {o : ι} (ho : s.ctrl.rx_channel.owner = some o) :
    Run.endLen board s.ctrl o o = s.ctrl.rx_channel.off := by
  have hle := (take_stored h ho).2
  unfold PAYLOAD_MAX_LEN at hle
  rw [Run.endLen, add_sub_cancel_left, CInt.toUnsigned_natCast, Nat.mod_eq_of_lt (by omega)]

omit [DecidableEq ι] in
/-- At an interrupt the current user is the register the DMA works for. -/
theorem Matched.user_eq (h : Matched slaves b) (hp : Run.Programmed b.run.ctrl) :
    b.run.ctrl.current_user = b.run.ctrl.rx_channel.owner :=
  h.user fun c hc => (hp _ c hc).2 rfl

theorem Matched.rxIrq (h : Matched slaves b) {now : ℕ} {run : Run ι}
    (hrun : b.run.step board (.rxIrq now) = some run) : Matched slaves (b.closed run) := by
  have ht : Run.Tracked run := h.tracked.step (e := .rxIrq now) trivial hrun
  have hf : Run.Filled run := h.filled.step hrun
  obtain ⟨hirq, u, o, hu, ho, rfl⟩ := Run.step_rxIrq hrun
  have hp := h.tracked.programmed_of_irq hirq
  have hleft := (h.tracked.irq hirq).1
  obtain rfl : u = o := Option.some.inj (hu.symm.trans ((h.user_eq hp).trans ho))
  rw [endLen_self h.filled ho] at ht hf ⊢
  exact h.interrupt hp ho ⟨rfl, rfl, rfl, rfl, rfl, hleft, rfl⟩ (h.idle hleft)
    (fun _ _ => .inr hleft) ht hf

theorem Matched.alarm (h : Matched slaves b) {now : ℕ} {run : Run ι}
    (hin : InTime slaves b (.alarm now)) (hrun : b.run.step board (.alarm now) = some run) :
    Matched slaves (b.closed run) := by
  have ht : Run.Tracked run := h.tracked.step (e := .alarm now) hin.1 hrun
  have hf : Run.Filled run := h.filled.step hrun
  obtain ⟨-, u, o, hu, ho, rfl⟩ := Run.step_alarm hrun
  have hp := h.tracked.programmed_of_alarm hin.1
  obtain rfl : u = o := Option.some.inj (hu.symm.trans ((h.user_eq hp).trans ho))
  rw [endLen_self h.filled ho] at ht hf ⊢
  refine h.interrupt hp ho ⟨rfl, rfl, rfl, rfl, rfl, rfl, rfl⟩ ?_ ?_ ht hf
  · by_cases hl : b.run.ctrl.rx_channel.left = 0
    · exact h.idle hl
    · exact (hin.2 (h.tracked.sound.busy _ (h.tracked.left (Nat.pos_of_ne_zero hl)))).1
  · exact fun k hk => (hin.2 (h.tracked.sound.busy k hk)).2

/-- The next byte of the reply the DMA waits for. -/
theorem Matched.reply (h : Matched slaves b) (hdepth : PAYLOAD_MAX_LEN ≤ board.depth) {k : ℕ}
    {ev : Event ι} {run : Run ι} (hin : InTime slaves b (.reply k))
    (hev : b.event slaves (.reply k) = some ev) (hrun : b.run.step board ev = some run) :
    Matched slaves (b.noted board run (.reply k)) := by
  have ht := h.tracked_step hin hev hrun
  have hf : Run.Filled run := h.filled.step hrun
  obtain ⟨hpos, rfl⟩ := hin
  obtain ⟨o, ho, hcame, hroom, hfit⟩ := h.receiving hpos
  simp only [event] at hev
  split at hev
  · simp only [bind, Option.bind_eq_some_iff, pure, Option.some.injEq] at hev
    obtain ⟨r, hr, x, hx, rfl⟩ := hev
    obtain rfl : o = r := Option.some.inj ((h.asker o ho).symm.trans hr)
    -- the byte has room in the FIFO
    have hlen := congrArg List.length hcame
    rw [List.length_append, List.length_take, slaves.length_reply] at hlen
    have hlt : b.arrived b.run.trace.rxFor < slaves.len o := by
      rw [← slaves.length_reply o b.run.trace.rxFor]
      exact (List.getElem?_eq_some_iff.mp hx).1
    have hspace : b.run.ctrl.fifo.length < board.depth := by omega
    rw [Run.step_arrive hrun, if_pos hspace] at ht hf ⊢
    exact
      { h with
        tracked := ht
        filled := hf
        fresh := fun k hk => by
          dsimp only [noted] at hk ⊢
          rw [Function.update_of_ne (Nat.ne_of_gt hk)]
          exact h.fresh k hk
        receiving := fun _ => by
          refine ⟨o, ho, ?_, hroom, hfit⟩
          dsimp only [noted]
          rw [Function.update_self, List.take_add_one, ← hcame, hx, ← List.append_assoc]
          rfl
        idle := fun hl => by
          dsimp only [noted] at hl
          omega }
  · cases hev

theorem Matched.step (h : Matched slaves b) (hdepth : PAYLOAD_MAX_LEN ≤ board.depth)
    {e : BusEvent ι} (hin : InTime slaves b e) (hst : b.step board slaves e = some b') :
    Matched slaves b' := by
  obtain ⟨ev, run, hev, hrun, rfl⟩ := step_eq hst
  cases e with
  | start_transfer r =>
    have ht := h.tracked_step hin hev hrun
    have hf : Run.Filled run := h.filled.step hrun
    cases hev
    obtain ⟨hpc, rfl⟩ := Run.step_call hrun
    exact
      { h with
        tracked := ht
        filled := hf
        user := fun _ => h.user fun c hc => by rw [hpc] at hc; cases hc
        nextUser := fun _ hp => by cases hp
        call := by
          rintro stage c ⟨⟩
          exact ⟨h.len r, hin, fun hne => absurd rfl hne⟩ }
  | reply k => exact h.reply hdepth hin hev hrun
  | cpu now => cases hev; exact h.cpu hrun
  | rxByte => cases hev; exact h.rxByte hrun
  | txByte =>
    have ht := h.tracked_step hin hev hrun
    have hf : Run.Filled run := h.filled.step hrun
    cases hev
    obtain ⟨line, tx_channel, rfl⟩ := Run.step_txByte hrun
    exact { h with tracked := ht, filled := hf }
  | rxIrq now => cases hev; exact h.rxIrq hrun
  | alarm now => cases hev; exact h.alarm hin hrun

/-- **Whose reply it is.** In a run in which each byte of a reply comes while the
RX DMA is at work for its own request, no alarm cuts a reply off or meets
`start` at work for a running transfer, and the replies fit the buffers, a
register for which `is_ok` holds after its own transfer has ended holds the
reply to that very request. -/
theorem replies_attributed {board : Board ι} {slaves : Slaves ι} {b : Bus ι}
    (hdepth : PAYLOAD_MAX_LEN ≤ board.depth)
    (h : Machine.Reach (step board slaves) (Init slaves) (InTime slaves) b) :
    Attributed slaves b :=
  (h.invariant (fun _ => matched_init) fun _ _ _ hm hin hst =>
    hm.step hdepth hin hst : Matched slaves b).attributed

/-! ### A late reply -/

/-- Two registers of one device, and what they hold. -/
def twoSlaves : Slaves Bool where
  len _ := 7
  reply r _ := if r then [0xf1, 3, 2, 1, 0x90, 0xf9, 0xad] else [0xf1, 3, 2, 0, 0, 0xf8, 0x51]
  length_reply r _ := by cases r <;> rfl
  crc_reply r _ := by cases r <;> decide

def twoBoard : Board Bool := ⟨9600, fun r => if r then 0x20000040 else 0x20000000, 32⟩

def twoRegisters : Bus Bool :=
  ⟨⟨.new fun r => ReadRegister.new .blank 241 (if r then 1 else 0) 1 true, .new⟩,
    fun _ => none, fun _ => false, fun _ => 0, fun _ => none⟩

/-- A call of `start_transfer` until the request has been sent. -/
def request (r : Bool) (now : ℕ) : List (BusEvent Bool) :=
  .start_transfer r :: List.replicate 5 (.cpu now) ++ List.replicate 8 .txByte

theorem twoRegisters_init : Init twoSlaves twoRegisters :=
  ⟨_, fun r => by cases r <;> decide, rfl⟩

/-- While the RX DMA is at work for a request its reply comes in time. -/
theorem reach_replies {P : Bus ι → Prop} {k : ℕ} : ∀ (n : ℕ) {b b' : Bus ι},
    Machine.Reach (step board slaves) P (InTime slaves) b →
    0 < b.run.ctrl.rx_channel.left → b.run.trace.rxFor = k →
    Machine.run (step board slaves) b (List.replicate n (.reply k)) = some b' →
    Machine.Reach (step board slaves) P (InTime slaves) b'
  | 0, b, b', h, _, _, hr => by
    rw [List.replicate_zero, Machine.run_nil, Option.some.injEq] at hr
    exact hr ▸ h
  | n + 1, b, b', h, hleft, hk, hr => by
    rw [List.replicate_succ, Machine.run_cons, Option.bind_eq_some_iff] at hr
    obtain ⟨c, hc, hr⟩ := hr
    have hstep : c.run.ctrl.rx_channel = b.run.ctrl.rx_channel ∧ c.run.trace = b.run.trace := by
      obtain ⟨ev, run, hev, hrun, rfl⟩ := step_eq hc
      simp only [event] at hev
      split at hev
      · simp only [bind, Option.bind_eq_some_iff, pure, Option.some.injEq] at hev
        obtain ⟨r, -, x, -, rfl⟩ := hev
        rw [Run.step_arrive hrun]
        dsimp only [noted]
        split <;> exact ⟨rfl, rfl⟩
      · cases hev
    exact reach_replies n (.step (e := .reply k) h ⟨hleft, hk⟩ hc) (hstep.1 ▸ hleft) (hstep.2 ▸ hk) hr

/-- An event of no reply and no alarm is in time. -/
theorem inTime_request (r : Bool) (now : ℕ) :
    ∀ e ∈ request r now, ∀ b, InTime twoSlaves b e := by
  intro e he b
  simp only [request, List.cons_append, List.mem_cons, List.mem_append, List.mem_replicate] at he
  rcases he with rfl | ⟨-, rfl⟩ | ⟨-, rfl⟩
  · exact (by decide : 7 ≤ PAYLOAD_MAX_LEN)
  · trivial
  · trivial

/-- A request that is answered in time. -/
theorem replies_attributed_answered : ∃ b,
    Machine.run (step twoBoard twoSlaves) twoRegisters
      (request false 4000 ++ List.replicate 7 (.reply 1) ++ List.replicate 7 .rxByte ++
        [.rxIrq 20000]) = some b ∧ b.done false = some 1 ∧ Attributed twoSlaves b := by
  have hstart : Machine.Reach (step twoBoard twoSlaves) (Init twoSlaves) (InTime twoSlaves)
    twoRegisters := .init twoRegisters_init
  have hasked := hstart.run (inTime_request false 4000) rfl
  have hanswered := reach_replies (k := 1) 7 hasked (by decide) rfl rfl
  have hlast : ∀ e ∈ List.replicate 7 .rxByte ++ [.rxIrq 20000], ∀ b, InTime twoSlaves b e := by
    intro e he b
    rcases List.mem_append.mp he with he | he
    · rw [List.eq_of_mem_replicate he]
      trivial
    · rw [List.mem_singleton.mp he]
      trivial
  have hended := hanswered.run hlast rfl
  exact ⟨_, rfl, rfl, replies_attributed (by decide) hended⟩

/-- The reply to the first request comes after its alarm, and the next request,
of the other register, takes it for its own. -/
theorem late_reply_misread : ∃ b,
    Machine.run (step twoBoard twoSlaves) twoRegisters
      (request false 4000 ++ [.alarm 504000] ++ List.replicate 7 (.reply 1) ++ request true 508000 ++
        List.replicate 7 .rxByte ++ [.rxIrq 520000]) = some b ∧ ¬ Attributed twoSlaves b := by
  refine ⟨_, rfl, fun h => ?_⟩
  exact absurd (h true 2 rfl (by decide)) (by decide)

end Bus
end Modbus
end Ventilation
