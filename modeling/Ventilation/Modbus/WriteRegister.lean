/-
# Writing to a Modbus register (src/modbus_handler/modbus_register.cpp)

`WriteRegister::start_transfer` builds the frame in the register's payload,
statement by statement, and then calls `ModbusCtrl::start`, which waits until
the bus is free. Meanwhile the TX DMA may still be sending an earlier frame out of
the same array. `frames_whole`: the line carries the frames as they were when
the DMA was programmed, one after the other, in every run in which no
statement changes a byte that the DMA has yet to read and neither the alarm
nor the next transfer cuts a frame off.
-/
import Ventilation.Modbus.Controller

namespace Ventilation
namespace Modbus

def WRITE_EXPECTED_CHARACTERS : ℕ := 8

/-- The default argument of `ModbusCtrl::start`. -/
def defaultTimeout_ms : ℕ := 500

namespace WriteRegister

/-- The constructor, over what the memory of the object held. -/
def new (mem : MODBUSRegister) (device_address : Byte) (register_address : BitVec 16)
    (number_of_registers : Byte) : MODBUSRegister :=
  { mem with
    payload := mem.payload
      |>.setIfInBounds 0 device_address |>.setIfInBounds 2 ((register_address >>> 8).setWidth 8)
      |>.setIfInBounds 3 (register_address.setWidth 8) |>.setIfInBounds 4 0
      |>.setIfInBounds 5 number_of_registers |>.setIfInBounds 1 0x10
    payload_len := 6
    number_of_registers }

/-- The byte a statement stores: one of the data, or one of `pl_crc`. -/
inductive Value
  | byte (x : Byte)
  | crcLow | crcHigh

def Value.eval (pl_crc : BitVec 16) : Value → Byte
  | .byte x => x
  | .crcLow => pl_crc.setWidth 8
  | .crcHigh => (pl_crc >>> 8).setWidth 8

/-- The statements of `start_transfer` in front of the call of `start`:
`payload[i] = v`, `payload[payload_len++] = v`, an assignment to `payload_len`,
and the computation of `pl_crc`. -/
inductive Statement
  | store (i : ℕ) (v : Value)
  | push (v : Value)
  | setLen (n : ℕ)
  | addLen (n : ℕ)
  | crc

/-- What a statement makes of the register and of `pl_crc`. -/
def Statement.exec (r : MODBUSRegister) (pl_crc : BitVec 16) : Statement → Option (MODBUSRegister × BitVec 16)
  | .store i v => do
    let payload ← Buffer.store r.payload i [v.eval pl_crc]
    pure ({ r with payload }, pl_crc)
  | .push v => do
    let payload ← Buffer.store r.payload r.payload_len [v.eval pl_crc]
    pure ({ r with payload, payload_len := r.payload_len + 1 }, pl_crc)
  | .setLen n => some ({ r with payload_len := n }, pl_crc)
  | .addLen n => some ({ r with payload_len := r.payload_len + n }, pl_crc)
  | .crc => do
    let data ← Buffer.load r.payload 0 r.payload_len
    pure (r, Modbus.crc data)

/-- `start_transfer(uint16_t)`. -/
def start_transfer16 (data : BitVec 16) : List Statement :=
  [.store 6 (.byte 2), .store 7 (.byte ((data >>> 8).setWidth 8)), .store 8 (.byte (data.setWidth 8)),
    .setLen 9, .crc, .store 9 .crcLow, .store 10 .crcHigh, .addLen 2]

/-- `start_transfer(uint32_t)`, for two registers and more. -/
def start_transfer32 (data : BitVec 32) : List Statement :=
  [.store 6 (.byte 4), .setLen 7, .push (.byte ((data >>> 8).setWidth 8)), .push (.byte (data.setWidth 8)),
    .push (.byte ((data >>> 24).setWidth 8)), .push (.byte ((data >>> 16).setWidth 8)), .crc,
    .push .crcLow, .push .crcHigh]

/-- The argument of one of the three overloads, a `float` by its bits. -/
inductive Data
  | uint16 (data : BitVec 16)
  | uint32 (data : BitVec 32)
  | float (bits : BitVec 32)

/-- `start_transfer`, up to the call of `start`. -/
def start_transfer (r : MODBUSRegister) : Data → List Statement
  | .uint16 data => start_transfer16 data
  | .uint32 data => if r.number_of_registers = 1 then start_transfer16 (data.setWidth 16) else start_transfer32 data
  | .float bits => if r.number_of_registers = 1 then start_transfer16 (bits.setWidth 16) else start_transfer32 bits

/-- The place in the payload that a statement stores to, and the byte. -/
def Statement.target (r : MODBUSRegister) (pl_crc : BitVec 16) : Statement → Option (ℕ × Byte)
  | .store i v => some (i, v.eval pl_crc)
  | .push v => some (r.payload_len, v.eval pl_crc)
  | _ => none

/-- A statement changes nothing else of the payload. -/
theorem payload_exec {r r' : MODBUSRegister} {pl_crc pl_crc' : BitVec 16} {st : Statement}
    (h : st.exec r pl_crc = some (r', pl_crc')) : r'.payload = r.payload ∨ ∃ i x,
      st.target r pl_crc = some (i, x) ∧ Buffer.store r.payload i [x] = some r'.payload := by
  cases st with
  | store i v =>
    obtain ⟨p, hp, h⟩ := Option.bind_eq_some_iff.mp h
    cases h
    exact .inr ⟨i, _, rfl, hp⟩
  | push v =>
    obtain ⟨p, hp, h⟩ := Option.bind_eq_some_iff.mp h
    cases h
    exact .inr ⟨_, _, rfl, hp⟩
  | setLen n =>
    cases h
    exact .inl rfl
  | addLen n =>
    cases h
    exact .inl rfl
  | crc =>
    obtain ⟨d, hd, h⟩ := Option.bind_eq_some_iff.mp h
    cases h
    exact .inl rfl

end WriteRegister

/-! ### Runs -/

open WriteRegister

/-- A call of `start_transfer` in front of its call of `start`. -/
structure Writing (ι : Type) where
  who : ι
  pl_crc : BitVec 16
  rest : List Statement

/-- The payload as it was when the TX DMA was programmed, and what has been
sent since. -/
structure Transmission where
  frame : List Byte
  sent : List Byte

/-- The controller, the call of `start_transfer` in progress, and what was sent
for which transfer; before the first one there is an empty one. -/
structure WriteRun (ι : Type) where
  ctrl : ModbusCtrl ι
  writing : Option (Writing ι)
  done : List Transmission
  current : Transmission

/-- A call of `start_transfer`, its next statement, or what else the
controller meets: the steps of `start`, the DMA channels, the interrupts, and
the calls of `start` for the registers that are read. -/
inductive WriteEvent (ι : Type)
  | start_transfer (who : ι) (data : Data)
  | statement
  | modbus (e : Event ι)

/-- The program's own events. -/
def Event.isProgram {ι : Type} : Event ι → Bool
  | .call _ | .cpu _ => true
  | _ => false

namespace WriteRun

variable {ι : Type}

/-- An event that the controller meets: a frame begins when the TX DMA is
programmed, and what the line has more was sent for it. -/
def observe (s : WriteRun ι) (ctrl : ModbusCtrl ι) : Event ι → WriteRun ι
  | .cpu _ =>
    match s.ctrl.pc with
    | some (.txStart, c) => { s with
        ctrl
        done := s.done ++ [s.current]
        current := ⟨(s.ctrl.regs c.who).payload.toList.take (s.ctrl.regs c.who).payload_len, []⟩ }
    | _ => { s with ctrl }
  | _ => { s with
      ctrl, current := { s.current with sent := s.current.sent ++ ctrl.line.drop s.ctrl.line.length } }

def step [DecidableEq ι] (b : Board ι) (s : WriteRun ι) : WriteEvent ι → Option (WriteRun ι)
  | .start_transfer who data =>
    if s.writing.isNone && s.ctrl.pc.isNone then
      some { s with writing := some ⟨who, 0, WriteRegister.start_transfer (s.ctrl.regs who) data⟩ }
    else none
  | .statement =>
    if s.ctrl.rx_irq then none
    else do
      let w ← s.writing
      match w.rest with
      | st :: rest =>
        let (r, pl_crc) ← st.exec (s.ctrl.regs w.who) w.pl_crc
        pure { s with
          ctrl := { s.ctrl with regs := Function.update s.ctrl.regs w.who r }
          writing := some ⟨w.who, pl_crc, rest⟩ }
      | [] =>
        let ctrl ← s.ctrl.step b (.call ⟨w.who, WRITE_EXPECTED_CHARACTERS, defaultTimeout_ms⟩)
        pure { s with ctrl, writing := none }
  | .modbus e =>
    if s.writing.isSome && e.isProgram then none
    else (s.ctrl.step b e).map fun ctrl => s.observe ctrl e

/-- The runs of a new controller. -/
def Init (s : WriteRun ι) : Prop := ∃ regs, s = ⟨.new regs, none, [], ⟨[], []⟩⟩

/-- No statement changes a byte the TX DMA has yet to read, and no frame is cut off. -/
def Undisturbed (s : WriteRun ι) : WriteEvent ι → Prop
  | .start_transfer _ _ => True
  | .statement => ∀ w ∈ s.writing, ∀ st ∈ w.rest.head?, ∀ q ∈ st.target (s.ctrl.regs w.who) w.pl_crc,
      s.ctrl.tx_channel.owner = some w.who → s.ctrl.tx_channel.off ≤ q.1 →
      q.1 < s.ctrl.tx_channel.off + s.ctrl.tx_channel.left →
      (s.ctrl.regs w.who).payload.toList[q.1]? = some q.2
  | .modbus (.alarm _) => s.ctrl.tx_channel.left = 0
  | .modbus (.cpu _) => s.ctrl.pc.map Prod.fst = some .txStart → s.ctrl.tx_channel.left = 0
  | .modbus _ => True

instance [DecidableEq ι] (s : WriteRun ι) : ∀ e, Decidable (s.Undisturbed e)
  | .start_transfer _ _ => .isTrue trivial
  | .statement => Option.decidableForallMem _
  | .modbus (.alarm _) => inferInstanceAs (Decidable (_ = _))
  | .modbus (.cpu _) => inferInstanceAs (Decidable (_ → _))
  | .modbus (.call _) => .isTrue trivial
  | .modbus (.arrive _) => .isTrue trivial
  | .modbus .rxByte => .isTrue trivial
  | .modbus .txByte => .isTrue trivial
  | .modbus (.rxIrq _) => .isTrue trivial

/-- Every frame is sent as it was when the TX DMA was programmed for it; of the
current one, what the DMA has moved so far. -/
structure Whole (s : WriteRun ι) : Prop where
  done : ∀ t ∈ s.done, t.sent = t.frame
  current : s.current.sent <+: s.current.frame
  complete : s.ctrl.tx_channel.left = 0 → s.current.sent = s.current.frame
  line : s.ctrl.line = (s.done.map Transmission.sent).flatten ++ s.current.sent

/-! ### What was sent and what remains -/

/-- The bytes the TX DMA has yet to read, as they are now. -/
def remaining (c : ModbusCtrl ι) : List Byte :=
  match c.tx_channel.owner with
  | some o => ((c.regs o).payload.toList.drop c.tx_channel.off).take c.tx_channel.left
  | none => []

/-- What was sent and what remains make the frame. -/
structure Inv (s : WriteRun ι) : Prop where
  done : ∀ t ∈ s.done, t.sent = t.frame
  current : s.current.sent ++ remaining s.ctrl = s.current.frame
  line : s.ctrl.line = (s.done.map Transmission.sent).flatten ++ s.current.sent

variable {s s' : WriteRun ι} {c c' : ModbusCtrl ι}

theorem remaining_of_left (h : c.tx_channel.left = 0) : remaining c = [] := by
  unfold remaining
  split
  · rw [h, List.take_zero]
  · rfl

/-- It depends on the channel and the payloads only. -/
theorem remaining_congr (htx : c'.tx_channel = c.tx_channel)
    (hp : ∀ i, (c'.regs i).payload = (c.regs i).payload) : remaining c' = remaining c := by
  unfold remaining
  simp only [htx, hp]

theorem Inv.whole (h : s.Inv) : s.Whole where
  done := h.done
  current := ⟨_, h.current⟩
  complete hleft := by
    rw [← h.current, remaining_of_left hleft, List.append_nil]
  line := h.line

/-- What an event leaves that neither sends nor programs the TX channel. -/
theorem Inv.keep (h : s.Inv) (hdone : s'.done = s.done) (hcurrent : s'.current = s.current)
    (hline : s'.ctrl.line = s.ctrl.line) (hremaining : remaining s'.ctrl = remaining s.ctrl) : s'.Inv where
  done := hdone ▸ h.done
  current := by
    rw [hcurrent, hremaining]
    exact h.current
  line := by
    rw [hline, hdone, hcurrent]
    exact h.line

/-- What was stored outside the window of the TX channel, or was there already,
does not change what remains. -/
theorem drop_take_store {p p' : Vector Byte PAYLOAD_MAX_LEN} {i off left : ℕ} {x : Byte}
    (h : Buffer.store p i [x] = some p') (hx : off ≤ i → i < off + left → p.toList[i]? = some x) :
    (p'.toList.drop off).take left = (p.toList.drop off).take left := by
  apply List.ext_getElem?
  intro k
  by_cases hk : k < left
  · rw [List.getElem?_take_of_lt hk, List.getElem?_take_of_lt hk, List.getElem?_drop, List.getElem?_drop,
      Buffer.getElem?_store h]
    by_cases hi : off + k = i
    · rw [if_pos ⟨by omega, by rw [List.length_singleton]; omega⟩, hi, Nat.sub_self, hx (by omega) (by omega)]
      rfl
    · rw [if_neg (by rw [List.length_singleton]; omega)]
  · rw [List.getElem?_eq_none (by rw [List.length_take]; omega),
      List.getElem?_eq_none (by rw [List.length_take]; omega)]

/-! ### The steps -/

variable [DecidableEq ι] {b : Board ι}

/-- A new length does not touch a payload. -/
theorem payload_update_len (regs : ι → MODBUSRegister) (u : ι) (len : ℕ) (i : ι) :
    (Function.update regs u { regs u with rx_len := len } i).payload = (regs i).payload := by
  by_cases hi : i = u
  · rw [hi, Function.update_self]
  · rw [Function.update_of_ne hi]

theorem Inv.statement (h : s.Inv) (hP : s.Undisturbed .statement) (hst : s.step b .statement = some s') :
    s'.Inv := by
  simp only [step] at hst
  split at hst
  · cases hst
  obtain ⟨w, hw, hst⟩ := Option.bind_eq_some_iff.mp hst
  split at hst
  · rename_i st rest hrest
    obtain ⟨⟨r, pl_crc⟩, hexec, hst⟩ := Option.bind_eq_some_iff.mp hst
    cases hst
    refine h.keep rfl rfl rfl ?_
    simp only [remaining]
    cases howner : s.ctrl.tx_channel.owner with
    | none => rfl
    | some o =>
      by_cases ho : o = w.who
      · subst ho
        simp only [Function.update_self]
        rcases payload_exec hexec with hsame | ⟨i, x, htarget, hstore⟩
        · rw [hsame]
        · exact drop_take_store hstore (hP w hw st (by rw [hrest]; rfl) (i, x) htarget howner)
      · simp only [Function.update_of_ne ho]
  · obtain ⟨ctrl, hctrl, hst⟩ := Option.bind_eq_some_iff.mp hst
    cases hst
    simp only [ModbusCtrl.step] at hctrl
    split at hctrl
    · cases hctrl
      exact h.keep rfl rfl rfl rfl
    · cases hctrl

/-- The next step of `start` sends nothing; it programs the TX channel or leaves it alone. -/
theorem Inv.cpu (h : s.Inv) {now : ℕ} (hP : s.Undisturbed (.modbus (.cpu now)))
    (hst : s.step b (.modbus (.cpu now)) = some s') : s'.Inv := by
  simp only [step] at hst
  split at hst
  · cases hst
  obtain ⟨ctrl, hctrl, rfl⟩ := Option.map_eq_some_iff.mp hst
  simp only [ModbusCtrl.step] at hctrl
  split at hctrl
  · cases hctrl
  obtain ⟨⟨stage, c⟩, hpc, rfl⟩ := Option.map_eq_some_iff.mp hctrl
  simp only [observe, hpc]
  cases stage with
  | wait =>
    simp only [ModbusCtrl.startStep]
    split
    · exact h.keep rfl rfl rfl rfl
    · exact h.keep rfl rfl rfl rfl
  | setUser => exact h.keep rfl rfl rfl rfl
  | rxStart => exact h.keep rfl rfl rfl rfl
  | txStart =>
    refine ⟨fun t ht => ?_, rfl, ?_⟩
    · rcases List.mem_append.mp ht with ht | ht
      · exact h.done t ht
      · rw [List.mem_singleton.mp ht]
        exact h.whole.complete (hP (by rw [hpc]; rfl))
    · dsimp only
      rw [List.map_append, List.flatten_append, List.append_nil, List.map_singleton, List.flatten_singleton]
      exact h.line
  | arm => exact h.keep rfl rfl rfl rfl

theorem Inv.txByte (h : s.Inv) (hst : s.step b (.modbus .txByte) = some s') : s'.Inv := by
  simp only [step, Event.isProgram, Bool.and_false] at hst
  obtain ⟨ctrl, hctrl, rfl⟩ := Option.map_eq_some_iff.mp hst
  simp only [ModbusCtrl.step] at hctrl
  split at hctrl
  · cases hctrl
  · rename_i hleft
    simp only [ModbusCtrl.txByte, bind, Option.bind_eq_some_iff, pure, Option.some.injEq] at hctrl
    obtain ⟨o, ho, x, hx, rfl⟩ := hctrl
    have hnew : (s.ctrl.line ++ [x]).drop s.ctrl.line.length = [x] := List.drop_left
    have hremaining : remaining s.ctrl = x :: ((s.ctrl.regs o).payload.toList.drop
        (s.ctrl.tx_channel.off + 1)).take (s.ctrl.tx_channel.left - 1) := by
      obtain ⟨hlt, hget⟩ := List.getElem?_eq_some_iff.mp hx
      obtain ⟨n, hn⟩ := Nat.exists_eq_succ_of_ne_zero hleft
      simp only [remaining, ho]
      rw [List.drop_eq_getElem_cons hlt, hn, List.take_succ_cons, hget]
      rfl
    refine ⟨h.done, ?_, ?_⟩
    · simp only [observe, hnew]
      rw [← h.current, hremaining, List.append_assoc]
      rfl
    · simp only [observe, hnew]
      rw [h.line, List.append_assoc]

/-- The other events send nothing and leave the TX channel alone, or find it idle. -/
theorem Inv.other (h : s.Inv) {e : Event ι} (hprogram : e.isProgram = false) (htx : e ≠ .txByte)
    (hP : s.Undisturbed (.modbus e)) (hst : s.step b (.modbus e) = some s') : s'.Inv := by
  simp only [step, hprogram, Bool.and_false] at hst
  obtain ⟨ctrl, hctrl, rfl⟩ := Option.map_eq_some_iff.mp hst
  have hkeep : ctrl.line = s.ctrl.line → remaining ctrl = remaining s.ctrl → (s.observe ctrl e).Inv := by
    intro hline hremaining
    have hobserve : s.observe ctrl e = { s with ctrl } := by
      cases e with
      | cpu now => cases hprogram
      | _ => simp only [observe, hline, List.drop_length, List.append_nil]
    rw [hobserve]
    exact h.keep rfl rfl hline hremaining
  have hrun : Run.step b ⟨s.ctrl, .new⟩ e = some ⟨ctrl, Trace.new.observe b s.ctrl e⟩ := by
    rw [Run.step, hctrl]
    rfl
  cases e with
  | call c => cases hprogram
  | cpu now => cases hprogram
  | txByte => exact absurd rfl htx
  | arrive x =>
    have hctrl := congrArg Run.ctrl (Run.step_arrive hrun)
    dsimp only at hctrl
    split at hctrl
    · rw [hctrl] at hkeep ⊢
      exact hkeep rfl rfl
    · rw [hctrl] at hkeep ⊢
      exact hkeep rfl rfl
  | rxByte =>
    obtain ⟨o, x, fifo, rxbuf, -, -, -, -, hctrl⟩ := Run.step_rxByte hrun
    obtain rfl := congrArg Run.ctrl hctrl
    refine hkeep rfl (remaining_congr rfl fun i => ?_)
    by_cases hi : i = o
    · simp only [hi, Function.update_self]
    · simp only [Function.update_of_ne hi]
  | rxIrq now =>
    obtain ⟨-, u, o, -, -, hctrl⟩ := Run.step_rxIrq hrun
    obtain rfl := congrArg Run.ctrl hctrl
    exact hkeep rfl (remaining_congr rfl (payload_update_len _ u _))
  | alarm now =>
    obtain ⟨-, u, o, -, -, hctrl⟩ := Run.step_alarm hrun
    obtain rfl := congrArg Run.ctrl hctrl
    exact hkeep rfl (by rw [remaining_of_left hP, remaining_of_left rfl])

theorem Inv.step (h : s.Inv) {e : WriteEvent ι} (hP : s.Undisturbed e) (hst : s.step b e = some s') : s'.Inv := by
  cases e with
  | start_transfer who data =>
    simp only [WriteRun.step] at hst
    split at hst
    · cases hst
      exact h.keep rfl rfl rfl rfl
    · cases hst
  | statement => exact h.statement hP hst
  | modbus e =>
    cases e with
    | call c =>
      simp only [WriteRun.step, ModbusCtrl.step] at hst
      split at hst
      · cases hst
      obtain ⟨ctrl, hctrl, rfl⟩ := Option.map_eq_some_iff.mp hst
      split at hctrl
      · cases hctrl
        have hobserve : s.observe { s.ctrl with pc := some (.wait, c) } (.call c) =
            { s with ctrl := { s.ctrl with pc := some (.wait, c) } } := by
          simp only [observe, List.drop_length, List.append_nil]
        rw [hobserve]
        exact h.keep rfl rfl rfl rfl
      · cases hctrl
    | cpu now => exact h.cpu hP hst
    | txByte => exact h.txByte hst
    | arrive x => exact h.other rfl (fun he => by cases he) hP hst
    | rxByte => exact h.other rfl (fun he => by cases he) hP hst
    | rxIrq now => exact h.other rfl (fun he => by cases he) hP hst
    | alarm now => exact h.other rfl (fun he => by cases he) hP hst

/-- **Every frame goes out whole**, and the line carries nothing else. -/
theorem frames_whole (h : Machine.Reach (step b) Init Undisturbed s) : s.Whole := by
  refine Inv.whole (h.invariant (J := Inv) ?_ fun _ _ _ hs hP hst => hs.step hP hst)
  rintro _ ⟨regs, rfl⟩
  exact ⟨fun _ ht => absurd ht List.not_mem_nil, rfl, rfl⟩

/-! ### Two calls for one register -/

/-- A register of one word, on a bus of 9600 baud. -/
def oneWord : WriteRun Unit := ⟨.new fun _ => WriteRegister.new .blank 1 0 1, none, [], ⟨[], []⟩⟩

def bus : Board Unit := ⟨9600, fun _ => 0, 32⟩

/-- A call of `start_transfer` up to its call of `start`. -/
def build (data : BitVec 16) : List (WriteEvent Unit) :=
  .start_transfer () (.uint16 data) :: List.replicate 9 .statement

/-- `start`, on a free bus. -/
def begin : List (WriteEvent Unit) := List.replicate 5 (.modbus (.cpu 4000))

def send (n : ℕ) : List (WriteEvent Unit) := List.replicate n (.modbus .txByte)

theorem oneWord_init : oneWord.Init := ⟨_, rfl⟩

/-- A frame on the line. -/
theorem frames_whole_first : ∃ s, Machine.run (step bus) oneWord (build 0x1234 ++ begin ++ send 11) = some s ∧
    s.Whole ∧ s.ctrl.line = [1, 16, 0, 0, 0, 1, 2, 0x12, 0x34, 0xab, 0x27] := by
  have hline : (Machine.runIf (step bus) Undisturbed oneWord (build 0x1234 ++ begin ++ send 11)).map
      (fun s => s.ctrl.line) = some [1, 16, 0, 0, 0, 1, 2, 0x12, 0x34, 0xab, 0x27] := by
    decide +kernel
  obtain ⟨s, hs, hline⟩ := Option.map_eq_some_iff.mp hline
  obtain ⟨hreach, hrun⟩ := Machine.Reach.runIf (.init oneWord_init) hs
  exact ⟨s, hrun, frames_whole hreach, hline⟩

/-- A second call while the first frame is on its way. -/
theorem frame_mixed : ∃ s, Machine.run (step bus) oneWord
    (build 0x1234 ++ begin ++ send 8 ++ build 0x5678 ++ send 3) = some s ∧ ¬ s.Whole := by
  have hmixed : (Machine.run (step bus) oneWord
      (build 0x1234 ++ begin ++ send 8 ++ build 0x5678 ++ send 3)).map
        (fun s => (s.current.frame, s.current.sent)) =
      some ([1, 16, 0, 0, 0, 1, 2, 0x12, 0x34, 0xab, 0x27], [1, 16, 0, 0, 0, 1, 2, 0x12, 0x78, 0x99, 0xd2]) := by
    decide +kernel
  obtain ⟨s, hs, hmixed⟩ := Option.map_eq_some_iff.mp hmixed
  refine ⟨s, hs, fun h => ?_⟩
  obtain ⟨hframe, hsent⟩ := Prod.mk.inj hmixed
  have hfront := h.current
  rw [hframe, hsent] at hfront
  exact absurd hfront (by decide)

end WriteRun
end Modbus
end Ventilation
