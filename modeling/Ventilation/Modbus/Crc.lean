/-
# The CRC of a Modbus frame (src/modbus_handler/modbus_crc.h)

A frame carries the CRC of what precedes it, low byte first, and the CRC of
the whole frame is then 0: `crc_append_eq_zero_iff` says that these two bytes
are the only ones for which it is. All the table has to do with it is that an
entry with a high byte 0 is the first one (`table_high`).

An entry of the table is what its index leaves in an empty register, bit by bit
(`table_eq`). So `crc` is the CRC-16 of the bits that are transmitted, and a
good frame is not good any more when a burst of at most 16 of them is flipped
(`crc_right`).
-/
import Ventilation.Lib.Crc
import Ventilation.Lib.ShiftRegister
import Ventilation.IPStack

namespace Ventilation
namespace Modbus

set_option maxRecDepth 2000 in
def table : Vector (BitVec 16) 256 := #v[
  0x0000, 0xc0c1, 0xc181, 0x0140, 0xc301, 0x03c0, 0x0280, 0xc241,
  0xc601, 0x06c0, 0x0780, 0xc741, 0x0500, 0xc5c1, 0xc481, 0x0440,
  0xcc01, 0x0cc0, 0x0d80, 0xcd41, 0x0f00, 0xcfc1, 0xce81, 0x0e40,
  0x0a00, 0xcac1, 0xcb81, 0x0b40, 0xc901, 0x09c0, 0x0880, 0xc841,
  0xd801, 0x18c0, 0x1980, 0xd941, 0x1b00, 0xdbc1, 0xda81, 0x1a40,
  0x1e00, 0xdec1, 0xdf81, 0x1f40, 0xdd01, 0x1dc0, 0x1c80, 0xdc41,
  0x1400, 0xd4c1, 0xd581, 0x1540, 0xd701, 0x17c0, 0x1680, 0xd641,
  0xd201, 0x12c0, 0x1380, 0xd341, 0x1100, 0xd1c1, 0xd081, 0x1040,
  0xf001, 0x30c0, 0x3180, 0xf141, 0x3300, 0xf3c1, 0xf281, 0x3240,
  0x3600, 0xf6c1, 0xf781, 0x3740, 0xf501, 0x35c0, 0x3480, 0xf441,
  0x3c00, 0xfcc1, 0xfd81, 0x3d40, 0xff01, 0x3fc0, 0x3e80, 0xfe41,
  0xfa01, 0x3ac0, 0x3b80, 0xfb41, 0x3900, 0xf9c1, 0xf881, 0x3840,
  0x2800, 0xe8c1, 0xe981, 0x2940, 0xeb01, 0x2bc0, 0x2a80, 0xea41,
  0xee01, 0x2ec0, 0x2f80, 0xef41, 0x2d00, 0xedc1, 0xec81, 0x2c40,
  0xe401, 0x24c0, 0x2580, 0xe541, 0x2700, 0xe7c1, 0xe681, 0x2640,
  0x2200, 0xe2c1, 0xe381, 0x2340, 0xe101, 0x21c0, 0x2080, 0xe041,
  0xa001, 0x60c0, 0x6180, 0xa141, 0x6300, 0xa3c1, 0xa281, 0x6240,
  0x6600, 0xa6c1, 0xa781, 0x6740, 0xa501, 0x65c0, 0x6480, 0xa441,
  0x6c00, 0xacc1, 0xad81, 0x6d40, 0xaf01, 0x6fc0, 0x6e80, 0xae41,
  0xaa01, 0x6ac0, 0x6b80, 0xab41, 0x6900, 0xa9c1, 0xa881, 0x6840,
  0x7800, 0xb8c1, 0xb981, 0x7940, 0xbb01, 0x7bc0, 0x7a80, 0xba41,
  0xbe01, 0x7ec0, 0x7f80, 0xbf41, 0x7d00, 0xbdc1, 0xbc81, 0x7c40,
  0xb401, 0x74c0, 0x7580, 0xb541, 0x7700, 0xb7c1, 0xb681, 0x7640,
  0x7200, 0xb2c1, 0xb381, 0x7340, 0xb101, 0x71c0, 0x7080, 0xb041,
  0x5000, 0x90c1, 0x9181, 0x5140, 0x9301, 0x53c0, 0x5280, 0x9241,
  0x9601, 0x56c0, 0x5780, 0x9741, 0x5500, 0x95c1, 0x9481, 0x5440,
  0x9c01, 0x5cc0, 0x5d80, 0x9d41, 0x5f00, 0x9fc1, 0x9e81, 0x5e40,
  0x5a00, 0x9ac1, 0x9b81, 0x5b40, 0x9901, 0x59c0, 0x5880, 0x9841,
  0x8801, 0x48c0, 0x4980, 0x8941, 0x4b00, 0x8bc1, 0x8a81, 0x4a40,
  0x4e00, 0x8ec1, 0x8f81, 0x4f40, 0x8d01, 0x4dc0, 0x4c80, 0x8c41,
  0x4400, 0x84c1, 0x8581, 0x4540, 0x8701, 0x47c0, 0x4680, 0x8641,
  0x8201, 0x42c0, 0x4380, 0x8341, 0x4100, 0x81c1, 0x8081, 0x4040]

/-- A turn of the loop of `crc`. -/
def crcStep (val : BitVec 16) (d : Byte) : BitVec 16 :=
  (val >>> 8) ^^^ table.get (val.setWidth 8 ^^^ d).toFin

/-- `crc(data, len)` of the `len` bytes. -/
def crc (data : List Byte) : BitVec 16 := data.foldl crcStep 0xFFFF

/-! ### What the table has to do with it -/

/-- Only the first entry has a high byte 0. -/
theorem table_high : ∀ i : Byte, table.get i.toFin >>> 8 = 0#16 ↔ i = 0#8 := by
  decide +kernel

theorem table_zero : table.get (0#8).toFin = 0#16 := by decide

/-- The high byte of a step is that of the entry it looks up. -/
theorem crcStep_high (val : BitVec 16) (d : Byte) :
    crcStep val d >>> 8 = 0#16 ↔ d = val.setWidth 8 := by
  have hshift : (val >>> 8) >>> 8 = 0#16 := by
    rw [← BitVec.shiftRight_add]
    exact BitVec.ushiftRight_eq_zero (by decide)
  rw [crcStep, BitVec.ushiftRight_xor_distrib, hshift, BitVec.zero_xor, table_high,
    BitVec.xor_eq_zero_iff]
  exact eq_comm

/-- A step with the low byte shifts it out. -/
theorem crcStep_low (val : BitVec 16) : crcStep val (val.setWidth 8) = val >>> 8 := by
  rw [crcStep, BitVec.xor_self, table_zero, BitVec.xor_zero]

/-- The register of `crc`. -/
def register : CrcRegister (BitVec 16) Byte where
  step := crcStep
  out val := val.setWidth 8
  shift val := val >>> 8
  zero := 0#16
  Vacant val := val >>> 8 = 0#16
  vacant_step := crcStep_high
  step_out := crcStep_low
  vacant_zero := rfl
  vacant_of_shift _ h := h
  shift_shift val := by
    rw [← BitVec.shiftRight_add]
    exact BitVec.ushiftRight_eq_zero (by decide)

/-- Two bytes behind `d` make the CRC 0 exactly if they are the CRC of `d`,
low byte first. -/
theorem crc_append_eq_zero_iff (d : List Byte) (a b : Byte) :
    crc (d ++ [a, b]) = 0#16 ↔ a = (crc d).setWidth 8 ∧ b = (crc d >>> 8).setWidth 8 :=
  register.check_iff 0xFFFF d a b

/-! ### Bit by bit -/

/-- The bits of a frame as they are transmitted. -/
def transmitted (data : List Byte) : List Bool := data.flatMap ShiftRegister.lsbBits

/-- The reflected polynomial. -/
def polynomial : ShiftRegister 16 := .lsbFirst 0xA001#16 (by decide)

/-- The CRC-16 of a message, one bit at a time. -/
def bitCrc (bits : List Bool) : BitVec 16 := polynomial.run 0xFFFF#16 bits

/-- Every entry is right. -/
theorem table_eq : ∀ i : Byte, table.get i.toFin = polynomial.run 0#16 (ShiftRegister.lsbBits i) := by
  decide +kernel

/-- A step is eight steps of the bits. -/
theorem crcStep_eq (val : BitVec 16) (d : Byte) :
    crcStep val d = polynomial.run val (ShiftRegister.lsbBits d) := by
  rw [crcStep, table_eq]
  exact (ShiftRegister.run_lsbBits (by decide) val d).symm

theorem crc_eq_bitCrc (data : List Byte) : crc data = bitCrc (transmitted data) :=
  polynomial.run_flatMap crcStep_eq data 0xFFFF#16

/-- A burst always changes the CRC. -/
theorem crc_ne_of_burst {frame frame' : List Byte} {k : ℕ} (hlen : frame'.length = frame.length)
    (hne : frame' ≠ frame)
    (hburst : ∀ i : ℕ, (transmitted frame')[i]? ≠ (transmitted frame)[i]? → k ≤ i ∧ i < k + 16) :
    crc frame' ≠ crc frame :=
  polynomial.foldl_ne_of_burst crcStep_eq ShiftRegister.length_lsbBits ShiftRegister.lsbBits_injective
    hlen hne hburst 0xFFFF#16

/-- **The table computes the CRC-16**; a frame is good exactly if it ends in the
CRC of the rest, low byte first; and no burst of at most 16 bits leaves it good. -/
theorem crc_right :
    (∀ data, crc data = bitCrc (transmitted data)) ∧
    (∀ d a b, crc (d ++ [a, b]) = 0#16 ↔ a = (crc d).setWidth 8 ∧ b = (crc d >>> 8).setWidth 8) ∧
    ∀ frame frame' k, crc frame = 0#16 → frame'.length = frame.length → frame' ≠ frame →
      (∀ i : ℕ, (transmitted frame')[i]? ≠ (transmitted frame)[i]? → k ≤ i ∧ i < k + 16) →
      crc frame' ≠ 0#16 :=
  ⟨crc_eq_bitCrc, crc_append_eq_zero_iff, fun _ _ _ hcrc hlen hne hburst =>
    hcrc ▸ crc_ne_of_burst hlen hne hburst⟩

/-- A request for one register, and the same request with two bits flipped. -/
theorem crc_right_request : crc [1, 3, 0, 0, 0, 1, 0x84, 0x0a] = 0#16 ∧
    crc [1, 3, 0, 0, 0, 4, 0x84, 0x0a] ≠ 0#16 := by
  have hcrc : crc [1, 3, 0, 0, 0, 1, 0x84, 0x0a] = 0#16 := by decide +kernel
  have hflip : ∀ i < 64, (transmitted [1, 3, 0, 0, 0, 4, 0x84, 0x0a])[i]? ≠
      (transmitted [1, 3, 0, 0, 0, 1, 0x84, 0x0a])[i]? → 40 ≤ i ∧ i < 40 + 16 := by
    decide +kernel
  refine ⟨hcrc, crc_right.2.2 _ _ 40 hcrc rfl (by decide) fun i hi => ?_⟩
  by_cases hlt : i < 64
  · exact hflip i hlt hi
  · rw [List.getElem?_eq_none (by exact Nat.not_lt.mp hlt), List.getElem?_eq_none (by exact Nat.not_lt.mp hlt)] at hi
    exact absurd rfl hi

end Modbus
end Ventilation
