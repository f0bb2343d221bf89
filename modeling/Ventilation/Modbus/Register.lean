/-
# Modbus registers (src/modbus_handler/modbus_register.cpp)

A register object holds the request it sends and a 32-byte buffer that the
RX DMA fills. Nothing clears the buffer: a reply is laid over what it held
(`receive`), and the getters read it at fixed places whatever `is_ok` says.
What a complete reply carries is what they find after it
(`get_float_of_carried`); a reply that agrees with the buffer at those places
changes nothing (`get_float_of_agrees`).
-/
import Ventilation.Lib.Machine
import Ventilation.Modbus.Crc

namespace Ventilation

open CInt

abbrev PAYLOAD_MAX_LEN : ℕ := 32

def READ_EXPECTED_CHARACTERS : ℕ := 5

def ERROR_PACKET_LEN : ℕ := 5

structure MODBUSRegister where
  payload : Vector Byte PAYLOAD_MAX_LEN
  payload_len : ℕ
  number_of_registers : Byte
  rxbuf : Vector Byte PAYLOAD_MAX_LEN
  rx_len : ℕ

namespace MODBUSRegister

/-- A register's memory, zeroed. -/
def blank : MODBUSRegister := ⟨.replicate _ 0, 0, 0, .replicate _ 0, 0⟩

/-- Byte `i` of the receive buffer. -/
def rx (r : MODBUSRegister) (i : Fin PAYLOAD_MAX_LEN) : Byte := r.rxbuf.get i

def get16 (r : MODBUSRegister) : BitVec 16 := r.rx 3 ++ r.rx 4

/-- The less significant word comes first. -/
def get32 (r : MODBUSRegister) : BitVec 32 :=
  if r.rx 2 = 2 then r.get16.setWidth 32 -- not enough data
  else r.rx 5 ++ r.rx 6 ++ r.rx 3 ++ r.rx 4

/-- The bits of the `float`. -/
def get_float (r : MODBUSRegister) : BitVec 32 := r.get32

/-- What a transfer leaves in the register: the bytes the DMA has stored and
their number, which `ModbusCtrl::end` computes from the write address. -/
def receive (r : MODBUSRegister) (bytes : List Byte) : Option MODBUSRegister := do
  let rxbuf ← Buffer.store r.rxbuf 0 bytes
  let rx_len ← unsigned? 8 bytes.length
  pure { r with rxbuf, rx_len }

end MODBUSRegister

namespace ReadRegister

/-- The constructor, over what the memory of the object held. -/
def new (mem : MODBUSRegister) (device_address : Byte) (register_address : BitVec 16)
    (number_of_registers : Byte) (holding : Bool) : MODBUSRegister :=
  let payload := mem.payload
    |>.set 0 device_address |>.set 2 ((register_address >>> 8).setWidth 8)
    |>.set 3 (register_address.setWidth 8) |>.set 4 0 |>.set 5 number_of_registers
    |>.set 1 (if holding then 3 else 4)
  let pl_crc := Modbus.crc (payload.toList.take 6)
  { mem with
    payload := payload |>.set 6 (pl_crc.setWidth 8) |>.set 7 ((pl_crc >>> 8).setWidth 8)
    payload_len := 8
    number_of_registers }

/-- The `rxlen` that `start_transfer` hands to `ModbusCtrl::start`. -/
def rxlen (r : MODBUSRegister) : ℕ :=
  toUnsigned 8 (READ_EXPECTED_CHARACTERS + 2 * r.number_of_registers.toNat : ℕ)

/-- `none` when the received bytes do not lie inside the buffer. -/
def is_ok (r : MODBUSRegister) : Option Bool := do
  let data ← Buffer.load r.rxbuf 0 r.rx_len
  pure (Modbus.crc data = 0 ∧ r.rx_len ≠ ERROR_PACKET_LEN)

end ReadRegister

/-! ### What a reply makes of the getters -/

namespace MODBUSRegister

variable {r r' : MODBUSRegister} {bytes : List Byte}

theorem receive_isSome (r : MODBUSRegister) (h : bytes.length ≤ PAYLOAD_MAX_LEN) :
    ∃ r', r.receive bytes = some r' := by
  obtain ⟨b, hb⟩ := Buffer.store_isSome r.rxbuf (i := 0) bytes
    (by rw [Nat.zero_add]; exact h)
  have hlen : unsigned? 8 (bytes.length : ℤ) = some bytes.length :=
    unsigned?_natCast (by unfold PAYLOAD_MAX_LEN at h; omega)
  rw [receive, Machine.bind_of hb, Machine.bind_of hlen]
  exact ⟨_, rfl⟩

theorem receive_eq (h : r.receive bytes = some r') : bytes.length ≤ PAYLOAD_MAX_LEN ∧
    Buffer.store r.rxbuf 0 bytes = some r'.rxbuf ∧ r'.rx_len = bytes.length ∧
    r'.number_of_registers = r.number_of_registers := by
  simp only [receive, bind, Option.bind_eq_some_iff, pure, Option.some.injEq] at h
  obtain ⟨b, hb, n, hn, rfl⟩ := h
  have hle := (Buffer.toList_store hb).1
  rw [unsigned?_natCast (by unfold PAYLOAD_MAX_LEN at hle; omega), Option.some.injEq] at hn
  exact ⟨by omega, hb, hn.symm, rfl⟩

/-- A reply does not touch the request. -/
theorem payload_receive (h : r.receive bytes = some r') : r'.payload = r.payload := by
  simp only [receive, bind, Option.bind_eq_some_iff, pure, Option.some.injEq] at h
  obtain ⟨b, -, n, -, rfl⟩ := h
  rfl

/-- A byte of the buffer after a reply: the reply's, or the old one behind it. -/
theorem rx_receive (h : r.receive bytes = some r') (i : Fin PAYLOAD_MAX_LEN) :
    r'.rx i = bytes.getD i (r.rx i) := by
  obtain ⟨-, hb, -⟩ := receive_eq h
  have hget : ∀ b : Vector Byte PAYLOAD_MAX_LEN, b.toList[(i : ℕ)]? = some (b.get i) := by
    intro b
    rw [Vector.getElem?_toList, Vector.getElem?_eq_getElem i.isLt]
    rfl
  have hi := Buffer.getElem?_store hb i
  rw [hget, hget] at hi
  by_cases hlt : (i : ℕ) < bytes.length
  · rw [if_pos ⟨Nat.zero_le _, by omega⟩, Nat.sub_zero] at hi
    rw [rx, List.getD_eq_getElem?_getD, ← hi]
    rfl
  · rw [if_neg (by omega), Option.some.injEq] at hi
    rw [rx, hi, List.getD_eq_getElem?_getD, List.getElem?_eq_none (by omega)]
    rfl

/-- The places `get_float` reads. -/
def FloatPlace (i : Fin PAYLOAD_MAX_LEN) : Prop := 2 ≤ i.val ∧ i.val ≤ 6

/-- It reads nothing else. -/
theorem get_float_congr (h : ∀ i, FloatPlace i → r'.rx i = r.rx i) :
    r'.get_float = r.get_float := by
  have h' : ∀ k (hk : k < PAYLOAD_MAX_LEN), 2 ≤ k → k ≤ 6 → r'.rx ⟨k, hk⟩ = r.rx ⟨k, hk⟩ :=
    fun k hk h1 h2 => h ⟨k, hk⟩ ⟨h1, h2⟩
  have h2 : r'.rx 2 = r.rx 2 := h' 2 (by decide) (by decide) (by decide)
  have h3 : r'.rx 3 = r.rx 3 := h' 3 (by decide) (by decide) (by decide)
  have h4 : r'.rx 4 = r.rx 4 := h' 4 (by decide) (by decide) (by decide)
  have h5 : r'.rx 5 = r.rx 5 := h' 5 (by decide) (by decide) (by decide)
  have h6 : r'.rx 6 = r.rx 6 := h' 6 (by decide) (by decide) (by decide)
  simp only [get_float, get32, get16, h2, h3, h4, h5, h6]

/-! ### Whether a reply is good, and what it carries -/

/-- What `is_ok` says of a transfer that brought these bytes. -/
def Intact (bytes : List Byte) : Prop := Modbus.crc bytes = 0 ∧ bytes.length ≠ ERROR_PACKET_LEN

instance (bytes : List Byte) : Decidable (Intact bytes) := inferInstanceAs (Decidable (_ ∧ _))

theorem is_ok_receive (h : r.receive bytes = some r') :
    ReadRegister.is_ok r' = some (decide (Intact bytes)) := by
  obtain ⟨hle, hb, hlen, -⟩ := receive_eq h
  have hload : Buffer.load r'.rxbuf 0 r'.rx_len = some bytes := hlen ▸ Buffer.load_store hb
  rw [ReadRegister.is_ok, Machine.bind_of hload, hlen]
  rfl

/-- The value a reply carries, if it is long enough to carry one. -/
def carried (bytes : List Byte) : Option (BitVec 32) := do
  let count ← bytes[2]?
  let b3 ← bytes[3]?
  let b4 ← bytes[4]?
  if count = 2 then pure ((b3 ++ b4 : BitVec 16).setWidth 32)
  else do
    let b5 ← bytes[5]?
    let b6 ← bytes[6]?
    pure (b5 ++ b6 ++ b3 ++ b4)

/-- It is what the getters then find. -/
theorem get_float_of_carried (h : r.receive bytes = some r') {v : BitVec 32}
    (hv : carried bytes = some v) : r'.get_float = v := by
  have hrx : ∀ i : Fin PAYLOAD_MAX_LEN, ∀ b, bytes[(i : ℕ)]? = some b → r'.rx i = b := by
    intro i b hb
    rw [rx_receive h, List.getD_eq_getElem?_getD, hb]
    rfl
  simp only [carried, bind, Option.bind_eq_some_iff] at hv
  obtain ⟨count, h2, b3, h3, b4, h4, hv⟩ := hv
  unfold get_float get32 get16
  rw [hrx 2 _ h2, hrx 3 _ h3, hrx 4 _ h4]
  split at hv
  · rename_i hcount
    rw [if_pos hcount]
    exact Option.some.inj hv
  · rename_i hcount
    simp only [Option.bind_eq_some_iff] at hv
    obtain ⟨b5, h5, b6, h6, hv⟩ := hv
    rw [if_neg hcount, hrx 5 _ h5, hrx 6 _ h6]
    exact Option.some.inj hv

/-- The received bytes leave the places the getters read as they were. -/
def Agrees (r : MODBUSRegister) (bytes : List Byte) : Prop :=
  ∀ i, FloatPlace i → ∀ b, bytes[(i : ℕ)]? = some b → r.rx i = b

theorem get_float_of_agrees (h : r.receive bytes = some r') (ha : Agrees r bytes) :
    r'.get_float = r.get_float := by
  refine get_float_congr fun i hi => ?_
  rw [rx_receive h, List.getD_eq_getElem?_getD]
  cases hb : bytes[(i : ℕ)]? with
  | none => rfl
  | some b => exact (ha i hi b hb).symm

end MODBUSRegister
end Ventilation
