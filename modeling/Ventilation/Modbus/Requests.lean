/-
# The requests that are sent (src/modbus_handler/modbus_register.cpp)

`start_transfer` hands a payload and the length of the expected reply to
`ModbusCtrl::start`. A `WriteRegister` builds its payload anew for each call,
over what the calls before left there: whatever these were, the frame is the
same (`frames_history_independent`). It is a good request exactly if the number
of registers given to the constructor is 1, or that of the words which the
overload writes; and a `ReadRegister` expects a reply that fits its buffer
exactly up to 13 registers (`requests_right_iff`).
-/
import Mathlib.Tactic.IntervalCases
import Ventilation.Modbus.Protocol
import Ventilation.Modbus.WriteRegister

namespace Ventilation

open CInt

namespace Modbus

/-- What `ModbusCtrl::start` is given: the payload up to its length, and `rxlen`. -/
structure Started where
  frame : List Byte
  rxlen : ℕ
deriving DecidableEq

/-- The payload bytes `[0..payload_length())`. -/
def payloadBytes (r : MODBUSRegister) : List Byte := r.payload.toList.take r.payload_len

end Modbus

namespace ReadRegister

def start_transfer (r : MODBUSRegister) : Modbus.Started := ⟨Modbus.payloadBytes r, rxlen r⟩

end ReadRegister

namespace Modbus
namespace WriteRegister

/-- The register and `pl_crc` after a statement. -/
def execStep (s : MODBUSRegister × BitVec 16) (st : Statement) : Option (MODBUSRegister × BitVec 16) :=
  st.exec s.1 s.2

/-- `start_transfer` up to the call of `start`. -/
def prepare (r : MODBUSRegister) (data : Data) : Option MODBUSRegister :=
  (Machine.run execStep (r, 0) (start_transfer r data)).map Prod.fst

/-- What it hands to `start`. -/
def started (r : MODBUSRegister) (data : Data) : Option Started :=
  (prepare r data).map fun r => ⟨payloadBytes r, WRITE_EXPECTED_CHARACTERS⟩

/-- A transfer from the call to its end, with the bytes that arrived. -/
structure Transfer where
  data : Data
  reply : List Byte
  fits : reply.length ≤ WRITE_EXPECTED_CHARACTERS

def transfer (r : MODBUSRegister) (t : Transfer) : Option MODBUSRegister := do
  (← prepare r t.data).receive t.reply

/-- The register after these transfers. -/
def used (mem : MODBUSRegister) (device_address : Byte) (register_address : BitVec 16)
    (number_of_registers : Byte) (ts : List Transfer) : Option MODBUSRegister :=
  Machine.run transfer (new mem device_address register_address number_of_registers) ts

/-! ### What the payload begins with -/

/-- The payload begins with `d`; the register is one of `n` words. -/
structure Begins (n : Byte) (d : List Byte) (r : MODBUSRegister) : Prop where
  front : d <+: r.payload.toList
  number : r.number_of_registers = n

variable {n : Byte} {d : List Byte} {r r' : MODBUSRegister} {c : BitVec 16}

/-- `payload[i] = ..`, `payload[i + 1] = ..` and so on. -/
def stores (i : ℕ) : List Value → List Statement
  | [] => []
  | v :: vs => .store i v :: stores (i + 1) vs

/-- Bytes stored behind `d` extend it. -/
theorem Begins.stores (vs : List Value) (rest : List Statement) : ∀ {i : ℕ} {d : List Byte} {r : MODBUSRegister},
    Begins n d r → i = d.length → i + vs.length ≤ PAYLOAD_MAX_LEN →
    ∃ r', Machine.run execStep (r, c) (stores i vs ++ rest) = Machine.run execStep (r', c) rest ∧
      Begins n (d ++ vs.map (·.eval c)) r' ∧ r'.payload_len = r.payload_len := by
  induction vs with
  | nil =>
    intro i d r h _ _
    exact ⟨r, rfl, by rw [List.map_nil, List.append_nil]; exact h, rfl⟩
  | cons v vs ih =>
    intro i d r h hi hroom
    rw [List.length_cons] at hroom
    obtain ⟨payload, hp⟩ := Buffer.store_isSome r.payload [v.eval c] (i := i)
      (by rw [List.length_singleton]; omega)
    have hstep : execStep (r, c) (.store i v) = some ({ r with payload }, c) := by
      rw [execStep, Statement.exec, Machine.bind_of hp]
      rfl
    have hnext : Begins n (d ++ [v.eval c]) { r with payload } :=
      ⟨Buffer.prefix_store h.front (hi ▸ hp), h.number⟩
    obtain ⟨r', hrun, h', hlen⟩ := ih (i := i + 1) hnext (by rw [List.length_append, hi]; rfl) (by omega)
    refine ⟨r', ?_, by rwa [List.append_assoc] at h', hlen⟩
    rw [WriteRegister.stores, List.cons_append, Machine.run_cons, hstep, Option.bind_some, hrun]

/-- The same with `payload[payload_len++] = ..`. -/
theorem Begins.pushes (vs : List Value) (rest : List Statement) : ∀ {d : List Byte} {r : MODBUSRegister},
    Begins n d r → r.payload_len = d.length → d.length + vs.length ≤ PAYLOAD_MAX_LEN →
    ∃ r', Machine.run execStep (r, c) (vs.map .push ++ rest) = Machine.run execStep (r', c) rest ∧
      Begins n (d ++ vs.map (·.eval c)) r' ∧ r'.payload_len = (d ++ vs.map (·.eval c)).length := by
  induction vs with
  | nil =>
    intro d r h hlen _
    refine ⟨r, rfl, ?_, ?_⟩
    · rwa [List.map_nil, List.append_nil]
    · rwa [List.map_nil, List.append_nil]
  | cons v vs ih =>
    intro d r h hlen hroom
    rw [List.length_cons] at hroom
    obtain ⟨payload, hp⟩ := Buffer.store_isSome r.payload [v.eval c] (i := d.length)
      (by rw [List.length_singleton]; omega)
    have hstep : execStep (r, c) (.push v) =
        some ({ r with payload, payload_len := r.payload_len + 1 }, c) := by
      rw [execStep, Statement.exec, hlen, Machine.bind_of hp]
      rfl
    have hnext : Begins n (d ++ [v.eval c]) { r with payload, payload_len := r.payload_len + 1 } :=
      ⟨Buffer.prefix_store h.front hp, h.number⟩
    obtain ⟨r', hrun, h', hlen'⟩ := ih hnext (by rw [List.length_append, hlen]; rfl)
      (by rw [List.length_append, List.length_singleton]; omega)
    rw [List.append_assoc] at h' hlen'
    refine ⟨r', ?_, h', hlen'⟩
    rw [List.map_cons, List.cons_append, Machine.run_cons, hstep, Option.bind_some, hrun]

theorem Begins.setLen (h : Begins n d r) (len : ℕ) : Begins n d { r with payload_len := len } :=
  ⟨h.front, h.number⟩

theorem run_setLen (len : ℕ) (rest : List Statement) : Machine.run execStep (r, c) (.setLen len :: rest) =
    Machine.run execStep ({ r with payload_len := len }, c) rest := rfl

/-- The CRC of the whole payload so far. -/
theorem Begins.crc (h : Begins n d r) (hlen : r.payload_len = d.length) (rest : List Statement) :
    Machine.run execStep (r, c) (.crc :: rest) = Machine.run execStep (r, Modbus.crc d) rest := by
  have hstep : execStep (r, c) .crc = some (r, Modbus.crc d) := by
    rw [execStep, Statement.exec, hlen, Machine.bind_of (Buffer.load_of_prefix h.front)]
    rfl
  rw [Machine.run_cons, hstep, Option.bind_some]

/-! ### The frame of a call -/

/-- The payload is this frame. -/
structure Sends (n : Byte) (frame : List Byte) (r : MODBUSRegister) : Prop extends Begins n frame r where
  length : r.payload_len = frame.length

theorem Sends.payloadBytes {frame : List Byte} (h : Sends n frame r) : payloadBytes r = frame := by
  rw [Modbus.payloadBytes, h.length]
  exact (List.prefix_iff_eq_take.mp h.front).symm

/-- The data of a call behind the header `d`, one word. -/
theorem run_start_transfer16 (h : Begins n d r) (hd : d.length = 6) (data : BitVec 16) :
    ∃ s, Machine.run execStep (r, c) (start_transfer16 data) = some s ∧
      Sends n (withCheck (d ++ (2 :: wordBytes data))) s.1 := by
  have hlen : (d ++ (2 :: wordBytes data)).length = 9 := by
    rw [List.length_append, hd]
    rfl
  obtain ⟨r₁, e₁, h₁, -⟩ := h.stores (c := c) [.byte 2, .byte ((data >>> 8).setWidth 8), .byte (data.setWidth 8)]
    [.setLen 9, .crc, .store 9 .crcLow, .store 10 .crcHigh, .addLen 2] hd.symm (show 6 + 3 ≤ 32 by decide)
  obtain ⟨r₂, e₂, h₂, hl₂⟩ := (h₁.setLen 9).stores (c := Modbus.crc (d ++ (2 :: wordBytes data)))
    [.crcLow, .crcHigh] [.addLen 2] hlen.symm (by decide)
  refine ⟨({ r₂ with payload_len := r₂.payload_len + 2 }, Modbus.crc (d ++ (2 :: wordBytes data))), ?_,
    ⟨h₂.setLen _, ?_⟩⟩
  · calc Machine.run execStep (r, c) (start_transfer16 data)
        = Machine.run execStep (r₁, c) [.setLen 9, .crc, .store 9 .crcLow, .store 10 .crcHigh, .addLen 2] := e₁
      _ = Machine.run execStep ({ r₁ with payload_len := 9 }, c) [.crc, .store 9 .crcLow, .store 10 .crcHigh,
            .addLen 2] := run_setLen _ _
      _ = _ := (h₁.setLen 9).crc hlen.symm _
      _ = _ := e₂
  · show r₂.payload_len + 2 = _
    rw [hl₂, length_withCheck, hlen]

/-- The two words of a number, the less significant one first. -/
def halves (data : BitVec 32) : List (BitVec 16) := [data.setWidth 16, (data >>> 16).setWidth 16]

theorem halves_bytes (data : BitVec 32) : (halves data).flatMap wordBytes =
    [(data >>> 8).setWidth 8, data.setWidth 8, (data >>> 24).setWidth 8, (data >>> 16).setWidth 8] := by
  have hbyte : ∀ k, k + 8 ≤ 16 → ∀ x : BitVec 32,
      ((x.setWidth 16 >>> k).setWidth 8 : Byte) = (x >>> k).setWidth 8 := by
    intro k hk x
    apply BitVec.eq_of_getLsbD_eq
    intro i hi
    simp [show k + i < 16 by omega]
  have h0 := hbyte 0 (by decide)
  have h8 := hbyte 8 (by decide)
  simp only [BitVec.ushiftRight_zero] at h0
  simp only [halves, wordBytes, List.flatMap_cons, List.flatMap_nil, List.append_nil, List.cons_append,
    List.nil_append, h0, h8, ← BitVec.shiftRight_add]

/-- Two words. -/
theorem run_start_transfer32 (h : Begins n d r) (hd : d.length = 6) (data : BitVec 32) :
    ∃ s, Machine.run execStep (r, c) (start_transfer32 data) = some s ∧
      Sends n (withCheck (d ++ (4 :: (halves data).flatMap wordBytes))) s.1 := by
  rw [halves_bytes]
  have hd₁ : (d ++ [(4 : Byte)]).length = 7 := by
    rw [List.length_append, hd]
    rfl
  let vs : List Value := [.byte ((data >>> 8).setWidth 8), .byte (data.setWidth 8), .byte ((data >>> 24).setWidth 8),
    .byte ((data >>> 16).setWidth 8)]
  obtain ⟨r₁, e₁, h₁, -⟩ := h.stores (c := c) [.byte 4]
    (.setLen 7 :: (vs.map .push ++ [.crc, .push .crcLow, .push .crcHigh])) hd.symm (by decide)
  obtain ⟨r₂, e₂, h₂, hl₂⟩ := (h₁.setLen 7).pushes (c := c) vs [.crc, .push .crcLow, .push .crcHigh]
    hd₁.symm (by rw [List.length_append, hd]; exact (by decide : 6 + 1 + 4 ≤ 32))
  rw [List.append_assoc] at h₂ hl₂
  obtain ⟨r₃, e₃, h₃, hl₃⟩ := h₂.pushes (c := Modbus.crc _) [.crcLow, .crcHigh] [] hl₂
    (by rw [List.length_append, hd]; exact (by decide : 6 + 5 + 2 ≤ 32))
  refine ⟨(r₃, Modbus.crc (d ++ [(4 : Byte), (data >>> 8).setWidth 8, data.setWidth 8, (data >>> 24).setWidth 8,
    (data >>> 16).setWidth 8])), ?_, h₃, hl₃⟩
  calc Machine.run execStep (r, c) (start_transfer32 data)
      = _ := e₁
    _ = _ := run_setLen _ _
    _ = _ := e₂
    _ = _ := h₂.crc hl₂ _
    _ = _ := e₃

/-- What the constructor leaves at the front of the payload, and no call changes. -/
def header (device_address : Byte) (register_address : BitVec 16) (number_of_registers : Byte) : List Byte :=
  [device_address, 0x10] ++ wordBytes register_address ++ [0, number_of_registers]

/-- The words that a call writes. -/
def dataWords (number_of_registers : Byte) : Data → List (BitVec 16)
  | .uint16 data => [data]
  | .uint32 data => if number_of_registers = 1 then [data.setWidth 16] else halves data
  | .float bits => if number_of_registers = 1 then [bits.setWidth 16] else halves bits

/-- The frame of a call in front of its CRC. -/
def callBody (device_address : Byte) (register_address : BitVec 16) (number_of_registers : Byte) (data : Data) :
    List Byte :=
  header device_address register_address number_of_registers ++
    (.ofNat 8 (2 * (dataWords number_of_registers data).length) ::
      (dataWords number_of_registers data).flatMap wordBytes)

def callFrame (device_address : Byte) (register_address : BitVec 16) (number_of_registers : Byte) (data : Data) :
    List Byte :=
  withCheck (callBody device_address register_address number_of_registers data)

variable {device_address : Byte} {register_address : BitVec 16}

theorem new_begins (mem : MODBUSRegister) (device_address : Byte) (register_address : BitVec 16) (n : Byte) :
    Begins n (header device_address register_address n) (new mem device_address register_address n) := by
  refine ⟨List.prefix_iff_getElem?.mpr fun i hi => ?_, rfl⟩
  simp only [header, wordBytes, List.length_append, List.length_cons, List.length_nil] at hi
  rw [Vector.getElem?_toList]
  simp only [new, Vector.getElem?_setIfInBounds]
  interval_cases i <;> rfl

/-- Whatever else the payload holds, a call makes the same frame of it. -/
theorem prepare_eq (h : Begins n (header device_address register_address n) r) (data : Data) :
    ∃ r', prepare r data = some r' ∧ Sends n (callFrame device_address register_address n data) r' := by
  have hone : ∀ x : BitVec 16, ∃ r', (Machine.run execStep (r, 0) (start_transfer16 x)).map Prod.fst = some r' ∧
      Sends n (withCheck (header device_address register_address n ++ (2 :: [x].flatMap wordBytes))) r' := by
    intro x
    obtain ⟨s, hs, hsends⟩ := run_start_transfer16 (c := 0) h rfl x
    exact ⟨s.1, by rw [hs]; rfl, hsends⟩
  have htwo : ∀ x : BitVec 32, ∃ r', (Machine.run execStep (r, 0)
      (if n = 1 then start_transfer16 (x.setWidth 16) else start_transfer32 x)).map Prod.fst = some r' ∧
      Sends n (callFrame device_address register_address n (.uint32 x)) r' := by
    intro x
    simp only [callFrame, callBody, dataWords]
    split
    · exact hone _
    · obtain ⟨s, hs, hsends⟩ := run_start_transfer32 (c := 0) h rfl x
      exact ⟨s.1, by rw [hs]; rfl, hsends⟩
  unfold prepare start_transfer
  rw [h.number]
  cases data with
  | uint16 x => exact hone x
  | uint32 x => exact htwo x
  | float x => exact htwo x

/-- A transfer leaves the header. -/
theorem transfer_begins (h : Begins n (header device_address register_address n) r) (t : Transfer) :
    ∃ r', transfer r t = some r' ∧ Begins n (header device_address register_address n) r' := by
  obtain ⟨r₁, hprepare, hsends⟩ := prepare_eq h t.data
  have hfits : t.reply.length ≤ PAYLOAD_MAX_LEN := t.fits.trans (by decide)
  obtain ⟨r₂, hreceive⟩ := r₁.receive_isSome hfits
  obtain ⟨-, -, -, hnumber⟩ := MODBUSRegister.receive_eq hreceive
  refine ⟨r₂, ?_, ?_, hnumber.trans hsends.number⟩
  · rw [transfer, Machine.bind_of hprepare, hreceive]
  · have hpayload := MODBUSRegister.payload_receive hreceive
    rw [hpayload]
    exact ((List.prefix_append _ _).trans (List.prefix_append _ _)).trans hsends.front

/-- After any transfers the header is what the constructor made it. -/
theorem used_begins (mem : MODBUSRegister) (device_address : Byte) (register_address : BitVec 16) (n : Byte)
    (ts : List Transfer) : ∃ r, used mem device_address register_address n ts = some r ∧
      Begins n (header device_address register_address n) r :=
  Machine.run_of_total transfer (fun _ t h => transfer_begins h t) ts (new_begins mem _ _ _)

/-- What a call hands to `start` does not depend on the calls before. -/
theorem started_eq (h : Begins n (header device_address register_address n) r) (data : Data) :
    started r data = some ⟨callFrame device_address register_address n data, 8⟩ := by
  obtain ⟨r', hprepare, hsends⟩ := prepare_eq h data
  rw [started, hprepare, Option.map_some, hsends.payloadBytes]
  rfl

/-- **Nothing of an earlier frame leaks into a later one**: after any two
histories of the same register the same call sends the same frame, and its CRC
is right. -/
theorem frames_history_independent (mem : MODBUSRegister) (device_address : Byte) (register_address : BitVec 16)
    (number_of_registers : Byte) (ts ts' : List Transfer) (data : Data) :
    ∃ r r' frame, used mem device_address register_address number_of_registers ts = some r ∧
      used mem device_address register_address number_of_registers ts' = some r' ∧
      started r data = some ⟨frame, WRITE_EXPECTED_CHARACTERS⟩ ∧
      started r' data = some ⟨frame, WRITE_EXPECTED_CHARACTERS⟩ ∧ crc frame = 0#16 := by
  obtain ⟨r, hr, h⟩ := used_begins mem device_address register_address number_of_registers ts
  obtain ⟨r', hr', h'⟩ := used_begins mem device_address register_address number_of_registers ts'
  exact ⟨r, r', _, hr, hr', started_eq h data, started_eq h' data, crc_withCheck _⟩

/-! ### Which requests are right -/

/-- The words that an overload writes, if it is not cut down to one. -/
def Data.words : Data → ℕ
  | .uint16 _ => 1
  | .uint32 _ => 2
  | .float _ => 2

/-- Address, function code, register address, quantity, byte count, data and CRC. -/
def IsWriteRequest (device_address : Byte) (register_address : BitVec 16) (number_of_registers : Byte)
    (frame : List Byte) : Prop :=
  ∃ count data lo hi, frame = [device_address, 0x10] ++ wordBytes register_address ++
      [0, number_of_registers, count] ++ data ++ [lo, hi] ∧
    count.toNat = 2 * number_of_registers.toNat ∧ data.length = count.toNat ∧ crc frame = 0#16

/-- A good request, with the length of the normal reply, which fits the buffer. -/
structure RightWrite (device_address : Byte) (register_address : BitVec 16) (number_of_registers : Byte)
    (s : Started) : Prop where
  frame : IsWriteRequest device_address register_address number_of_registers s.frame
  rxlen : s.rxlen = 8
  fits : s.rxlen ≤ PAYLOAD_MAX_LEN

theorem length_dataWords (n : Byte) (data : Data) :
    (dataWords n data).length = if n = 1 then 1 else data.words := by
  cases data with
  | uint16 x => simp [dataWords, Data.words]
  | uint32 x =>
    simp only [dataWords, Data.words]
    split <;> rfl
  | float x =>
    simp only [dataWords, Data.words]
    split <;> rfl

theorem length_dataWords_le (n : Byte) (data : Data) : (dataWords n data).length ≤ 2 := by
  rw [length_dataWords]
  split
  · decide
  · cases data <;> simp [Data.words]

/-- The data of the frame fill the quantity exactly if there is a word for each register. -/
theorem isWriteRequest_callFrame_iff (data : Data) :
    IsWriteRequest device_address register_address n (callFrame device_address register_address n data) ↔
      (dataWords n data).length = n.toNat := by
  have hle := length_dataWords_le n data
  have hcount : (BitVec.ofNat 8 (2 * (dataWords n data).length)).toNat = 2 * (dataWords n data).length := by
    rw [BitVec.toNat_ofNat, Nat.mod_eq_of_lt (by omega)]
  constructor
  · rintro ⟨count, bytes, lo, hi, hframe, hquantity, -, -⟩
    have hbyte := congrArg (·[6]?) hframe
    simp only [callFrame, callBody, withCheck, header, wordBytes] at hbyte
    obtain rfl : _ = count := Option.some.inj hbyte
    rw [hcount] at hquantity
    omega
  · intro h
    refine ⟨.ofNat 8 (2 * (dataWords n data).length), (dataWords n data).flatMap wordBytes,
      (crc (callBody device_address register_address n data)).setWidth 8,
      (crc (callBody device_address register_address n data) >>> 8).setWidth 8, ?_, ?_, ?_, crc_withCheck _⟩
    · simp only [callFrame, withCheck, callBody, header, List.append_assoc, List.cons_append, List.nil_append]
    · rw [hcount, h]
    · rw [hcount, length_flatMap_wordBytes]

theorem rightWrite_iff (h : Begins n (header device_address register_address n) r) (data : Data) :
    ∃ s, started r data = some s ∧
      (RightWrite device_address register_address n s ↔ n = 1 ∨ n.toNat = data.words) := by
  refine ⟨_, started_eq h data, ?_⟩
  have hlen : (dataWords n data).length = n.toNat ↔ n = 1 ∨ n.toNat = data.words := by
    rw [length_dataWords]
    split
    · rename_i hn
      subst hn
      exact ⟨fun _ => .inl rfl, fun _ => rfl⟩
    · rename_i hn
      exact ⟨fun h => .inr h.symm, fun h => (h.resolve_left hn).symm⟩
  rw [← hlen, ← isWriteRequest_callFrame_iff]
  exact ⟨fun h => h.frame, fun h => ⟨h, rfl, (show 8 ≤ 32 by decide)⟩⟩

end WriteRegister

/-! ### Reading -/

/-- Address, function code, register address, quantity and CRC. -/
def IsReadRequest (holding : Bool) (device_address : Byte) (register_address : BitVec 16) (number_of_registers : Byte)
    (frame : List Byte) : Prop :=
  ∃ lo hi, frame = [device_address, if holding then 3 else 4] ++ wordBytes register_address ++
    [0, number_of_registers, lo, hi] ∧ crc frame = 0#16

structure RightRead (holding : Bool) (device_address : Byte) (register_address : BitVec 16) (number_of_registers : Byte)
    (s : Started) : Prop where
  frame : IsReadRequest holding device_address register_address number_of_registers s.frame
  rxlen : s.rxlen = 5 + 2 * number_of_registers.toNat
  fits : s.rxlen ≤ PAYLOAD_MAX_LEN

/-- What the constructor of a `ReadRegister` puts in front of the CRC. -/
def readBody (holding : Bool) (device_address : Byte) (register_address : BitVec 16) (number_of_registers : Byte) :
    List Byte :=
  [device_address, if holding then 3 else 4] ++ wordBytes register_address ++ [0, number_of_registers]

theorem payloadBytes_read (mem : MODBUSRegister) (holding : Bool) (device_address : Byte)
    (register_address : BitVec 16) (n : Byte) :
    payloadBytes (ReadRegister.new mem device_address register_address n holding) =
      withCheck (readBody holding device_address register_address n) := by
  have hbody : readBody holding device_address register_address n <+:
      ((((((mem.payload.set 0 device_address).set 2 ((register_address >>> 8).setWidth 8)).set 3
        (register_address.setWidth 8)).set 4 0).set 5 n).set 1 (if holding then 3 else 4)).toList := by
    refine List.prefix_iff_getElem?.mpr fun i hi => ?_
    simp only [readBody, wordBytes, List.length_append, List.length_cons, List.length_nil] at hi
    rw [Vector.getElem?_toList]
    simp only [Vector.getElem?_set]
    interval_cases i <;> rfl
  have hcrc := (List.prefix_iff_eq_take.mp hbody).symm
  have hframe := Buffer.prefix_set (Buffer.prefix_set hbody (i := 6) rfl (by decide)
    ((crc (readBody holding device_address register_address n)).setWidth 8)) (i := 7) rfl (by decide)
    ((crc (readBody holding device_address register_address n) >>> 8).setWidth 8)
  rw [List.append_assoc] at hframe
  have hlen : (readBody holding device_address register_address n).length = 6 := rfl
  rw [hlen] at hcrc
  unfold payloadBytes ReadRegister.new
  dsimp only
  rw [hcrc]
  exact (List.prefix_iff_eq_take.mp hframe).symm

theorem rightRead_iff (mem : MODBUSRegister) (holding : Bool) (device_address : Byte)
    (register_address : BitVec 16) (n : Byte) :
    RightRead holding device_address register_address n
      (ReadRegister.start_transfer (ReadRegister.new mem device_address register_address n holding)) ↔
        n.toNat ≤ 13 := by
  have hrxlen : (ReadRegister.start_transfer (ReadRegister.new mem device_address register_address n holding)).rxlen =
      (5 + 2 * n.toNat) % 256 := toUnsigned_natCast 8 _
  constructor
  · intro h
    have hfits := h.fits
    rw [h.rxlen] at hfits
    exact (by omega : 5 + 2 * n.toNat ≤ 32 → n.toNat ≤ 13) hfits
  · intro h
    rw [Nat.mod_eq_of_lt (by omega)] at hrxlen
    have hframe := payloadBytes_read mem holding device_address register_address n
    refine ⟨⟨_, _, hframe, (congrArg crc hframe).trans (crc_withCheck _)⟩, hrxlen, ?_⟩
    · rw [hrxlen]
      exact (by omega : 5 + 2 * n.toNat ≤ 32)

/-- **Which requests are right.** A `ReadRegister` sends a good request, and
expects a reply that fits its buffer, up to 13 registers; a `WriteRegister`
sends a good request where it has a word for each of its registers. -/
theorem requests_right_iff (mem : MODBUSRegister) (device_address : Byte) (register_address : BitVec 16)
    (number_of_registers : Byte) :
    (∀ holding, RightRead holding device_address register_address number_of_registers
      (ReadRegister.start_transfer
        (ReadRegister.new mem device_address register_address number_of_registers holding)) ↔
      number_of_registers.toNat ≤ 13) ∧
    ∀ (ts : List WriteRegister.Transfer) (data : WriteRegister.Data), ∃ r s,
      WriteRegister.used mem device_address register_address number_of_registers ts = some r ∧
      WriteRegister.started r data = some s ∧
      (WriteRegister.RightWrite device_address register_address number_of_registers s ↔
        number_of_registers = 1 ∨ number_of_registers.toNat = data.words) := by
  refine ⟨fun holding => rightRead_iff mem holding _ _ _, fun ts data => ?_⟩
  obtain ⟨r, hr, h⟩ := WriteRegister.used_begins mem device_address register_address number_of_registers ts
  obtain ⟨s, hs, hiff⟩ := WriteRegister.rightWrite_iff h data
  exact ⟨r, s, hr, hs, hiff⟩

/-- A `uint16_t` written to a register of two words, and a reply of 14 registers. -/
theorem wrong_requests :
    (∃ s, WriteRegister.started (WriteRegister.new .blank 1 0 2) (.uint16 0x1234) = some s ∧
      s.frame = [1, 0x10, 0, 0, 0, 2, 2, 0x12, 0x34, 0xab, 0x63] ∧ ¬ WriteRegister.RightWrite 1 0 2 s) ∧
    ¬ RightRead true 1 0 14 (ReadRegister.start_transfer (ReadRegister.new .blank 1 0 14 true)) := by
  constructor
  · obtain ⟨s, hs, hiff⟩ := WriteRegister.rightWrite_iff (WriteRegister.new_begins .blank 1 0 2) (.uint16 0x1234)
    refine ⟨s, hs, ?_, fun h => absurd (hiff.mp h) (by decide)⟩
    have hframe : (WriteRegister.started (WriteRegister.new .blank 1 0 2) (.uint16 0x1234)).map Started.frame =
        some [1, 0x10, 0, 0, 0, 2, 2, 0x12, 0x34, 0xab, 0x63] := by
      decide +kernel
    rw [hs] at hframe
    exact Option.some.inj hframe
  · intro h
    exact absurd ((rightRead_iff .blank true 1 0 14).mp h) (by decide)

end Modbus
end Ventilation
