/-
# Which replies are accepted (src/modbus_handler/modbus_register.cpp)

`is_ok` looks at the CRC and at the number of bytes received, at nothing else:
a `ReadRegister` takes any good frame that has not the length of an error
packet, and a `WriteRegister` any that is long enough. So it tells the normal
reply from the others exactly where no other good frame of such a length has
come in: that of another device, of another function, or one that is cut off or
too long (`is_ok_right_iff`).
-/
import Ventilation.Modbus.Requests

namespace Ventilation

namespace MODBUSRegister

/-- The first `rx_len` bytes of the buffer. -/
def received (r : MODBUSRegister) : List Byte := r.rxbuf.toList.take r.rx_len

end MODBUSRegister

namespace Modbus

/-- `WriteRegister::is_ok`; `none` when the received bytes do not lie inside the buffer. -/
def WriteRegister.is_ok (r : MODBUSRegister) : Option Bool := do
  let data ← Buffer.load r.rxbuf 0 r.rx_len
  pure (crc data = 0 ∧ ¬ r.rx_len < WRITE_EXPECTED_CHARACTERS)

/-- What the head of the normal reply to a read says: the device, the function and the number of data bytes. -/
structure ReadHead (holding : Bool) (device_address number_of_registers : Byte) (bytes : List Byte) : Prop where
  length : bytes.length = 5 + 2 * number_of_registers.toNat
  device : bytes[0]? = some device_address
  function : bytes[1]? = some (if holding then 3 else 4)
  count : bytes[2]?.map BitVec.toNat = some (2 * number_of_registers.toNat)

/-- The normal reply to a read. -/
def NormalRead (holding : Bool) (device_address number_of_registers : Byte) (bytes : List Byte) : Prop :=
  crc bytes = 0#16 ∧ ReadHead holding device_address number_of_registers bytes

/-- The reply to a write echoes the header. -/
def WriteHead (device_address : Byte) (register_address : BitVec 16) (number_of_registers : Byte)
    (bytes : List Byte) : Prop :=
  bytes.length = 8 ∧ bytes.take 6 = WriteRegister.header device_address register_address number_of_registers

def NormalWrite (device_address : Byte) (register_address : BitVec 16) (number_of_registers : Byte)
    (bytes : List Byte) : Prop :=
  crc bytes = 0#16 ∧ WriteHead device_address register_address number_of_registers bytes

/-! ### What `is_ok` looks at -/

variable {r : MODBUSRegister}

theorem length_received (h : r.rx_len ≤ PAYLOAD_MAX_LEN) : r.received.length = r.rx_len := by
  unfold MODBUSRegister.received
  rw [List.length_take, Vector.length_toList, Nat.min_eq_left h]

theorem load_received (h : r.rx_len ≤ PAYLOAD_MAX_LEN) : Buffer.load r.rxbuf 0 r.rx_len = some r.received :=
  Buffer.load_eq_some (by rw [Nat.zero_add]; exact h)

theorem read_is_ok (h : r.rx_len ≤ PAYLOAD_MAX_LEN) : ReadRegister.is_ok r =
    some (decide (crc r.received = 0#16 ∧ r.received.length ≠ ERROR_PACKET_LEN)) := by
  rw [ReadRegister.is_ok, Machine.bind_of (load_received h), length_received h]
  rfl

theorem write_is_ok (h : r.rx_len ≤ PAYLOAD_MAX_LEN) : WriteRegister.is_ok r =
    some (decide (crc r.received = 0#16 ∧ ¬ r.received.length < WRITE_EXPECTED_CHARACTERS)) := by
  rw [WriteRegister.is_ok, Machine.bind_of (load_received h), length_received h]
  rfl

/-- A test that asks for less than it should is right exactly where what it
accepts is as it should be. -/
theorem test_iff {good long head : Prop} (h : head → long) :
    (good ∧ long ↔ good ∧ head) ↔ (good → long → head) := by
  constructor
  · exact fun hiff hgood hlong => (hiff.mp ⟨hgood, hlong⟩).2
  · intro himp
    exact ⟨fun hok => ⟨hok.1, himp hok.1 hok.2⟩, fun hok => ⟨hok.1, h hok.2⟩⟩

/-- **Where `is_ok` is right.** For a read: no good frame of another length
than 5 has come in but one with the head of the normal reply. For a write: no
good frame of 8 bytes and more but the echo of the header. -/
theorem is_ok_right_iff (mem : MODBUSRegister) (device_address : Byte) (register_address : BitVec 16)
    (number_of_registers : Byte) (hn : number_of_registers ≠ 0) (rxbuf : Vector Byte PAYLOAD_MAX_LEN) (rx_len : ℕ)
    (hlen : rx_len ≤ PAYLOAD_MAX_LEN) :
    (∀ holding, ∃ ok, ReadRegister.is_ok { ReadRegister.new mem device_address register_address number_of_registers
        holding with rxbuf, rx_len } = some ok ∧
      ((ok = true ↔ NormalRead holding device_address number_of_registers (rxbuf.toList.take rx_len)) ↔
        (crc (rxbuf.toList.take rx_len) = 0#16 → rx_len ≠ ERROR_PACKET_LEN →
          ReadHead holding device_address number_of_registers (rxbuf.toList.take rx_len)))) ∧
    ∀ ts : List WriteRegister.Transfer, ∃ r ok,
      WriteRegister.used mem device_address register_address number_of_registers ts = some r ∧
      WriteRegister.is_ok { r with rxbuf, rx_len } = some ok ∧
      ((ok = true ↔ NormalWrite device_address register_address number_of_registers (rxbuf.toList.take rx_len)) ↔
        (crc (rxbuf.toList.take rx_len) = 0#16 → ¬ rx_len < WRITE_EXPECTED_CHARACTERS →
          WriteHead device_address register_address number_of_registers (rxbuf.toList.take rx_len))) := by
  have hbytes : (rxbuf.toList.take rx_len).length = rx_len := by
    rw [List.length_take, Vector.length_toList, Nat.min_eq_left hlen]
  constructor
  · intro holding
    refine ⟨_, read_is_ok hlen, ?_⟩
    rw [decide_eq_true_iff]
    show (_ ∧ (rxbuf.toList.take rx_len).length ≠ _ ↔ _) ↔ _
    rw [hbytes]
    refine test_iff fun h => ?_
    have hpos : number_of_registers.toNat ≠ 0 := fun h0 => hn (BitVec.eq_of_toNat_eq h0)
    have hlength := h.length
    rw [hbytes] at hlength
    exact (by omega : rx_len ≠ 5)
  · intro ts
    obtain ⟨r, hr, -⟩ := WriteRegister.used_begins mem device_address register_address number_of_registers ts
    refine ⟨r, _, hr, write_is_ok hlen, ?_⟩
    rw [decide_eq_true_iff]
    show (_ ∧ ¬ (rxbuf.toList.take rx_len).length < _ ↔ _) ↔ _
    rw [hbytes]
    refine test_iff fun h => ?_
    have hlength := h.1
    rw [hbytes] at hlength
    rw [hlength]
    decide

/-- A buffer that begins with these bytes. -/
def bufferOf (bytes : List Byte) : Vector Byte PAYLOAD_MAX_LEN := .ofFn fun i => bytes.getD i 0

/-- The normal reply of device 1 to a read of one register. -/
theorem is_ok_right_iff_reply : ReadRegister.is_ok { ReadRegister.new .blank 1 0 1 true with
    rxbuf := bufferOf [1, 3, 2, 0, 7, 0xf9, 0x86], rx_len := 7 } = some true := by
  obtain ⟨ok, hok, hiff⟩ := (is_ok_right_iff .blank 1 0 1 (by decide) (bufferOf [1, 3, 2, 0, 7, 0xf9, 0x86]) 7
    (by decide)).1 true
  have hhead : ReadHead true 1 1 ((bufferOf [1, 3, 2, 0, 7, 0xf9, 0x86]).toList.take 7) :=
    ⟨by decide, by decide, by decide, by decide⟩
  have htrue := (hiff.mpr fun _ _ => hhead).mpr ⟨by decide +kernel, hhead⟩
  rw [hok, htrue]

/-- The reply of device 2 is accepted for a register of device 1. -/
theorem other_device_accepted : ReadRegister.is_ok { ReadRegister.new .blank 1 0 1 true with
      rxbuf := bufferOf [2, 3, 2, 0, 7, 0xbd, 0x86], rx_len := 7 } = some true ∧
    ¬ NormalRead true 1 1 ((bufferOf [2, 3, 2, 0, 7, 0xbd, 0x86]).toList.take 7) :=
  ⟨by decide +kernel, fun h => absurd h.2.device (by decide)⟩

end Modbus
end Ventilation
