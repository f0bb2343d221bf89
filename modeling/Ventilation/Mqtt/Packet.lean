/-
# The parts of a packet (MQTTPacket.c, MQTTClient.h)

What packets are made of and how it is read back: the header byte, the remaining length,
integers of two bytes and strings with their length. The readers are the code's; a position
in the buffer is given by its distance from the buffer's end. `MQTTPacket_decode` and the client's
`decodePacket` are one loop.

* `consumes_decode`: the remaining length is read back, up to 2 ^ 28.
* `consumes_readMQTTLenString`: so is a string that ends before `enddata`.
-/
import Ventilation.Lib.Wire
import Ventilation.StatusMessage

namespace Ventilation
namespace Mqtt

open Wire

/-! ### The header byte -/

namespace MQTTHeader

def type (byte : Byte) : ℕ := byte.toNat / 16

def dup (byte : Byte) : Bool := byte.toNat / 8 % 2 = 1

def qos (byte : Byte) : ℕ := byte.toNat / 2 % 4

def retain (byte : Byte) : Bool := byte.toNat % 2 = 1

end MQTTHeader

section Header

variable {t : ℕ} (ht : t < 16) (d : Bool) (q : QoS) (r : Bool)
include ht

theorem toNat_MQTTHeader : (MQTTHeader t d q r).toNat = t * 16 + d.toNat * 8 + q.level * 2 + r.toNat := by
  have hd := d.toNat_le
  have hr := r.toNat_le
  have hq : q.level ≤ 2 := by cases q <;> decide
  rw [MQTTHeader, BitVec.toNat_ofNat, Nat.mod_eq_of_lt (by omega)]

@[simp] theorem type_MQTTHeader : MQTTHeader.type (MQTTHeader t d q r) = t := by
  have hd := d.toNat_le
  have hr := r.toNat_le
  have hq : q.level ≤ 2 := by cases q <;> decide
  rw [MQTTHeader.type, toNat_MQTTHeader ht]
  omega

@[simp] theorem dup_MQTTHeader : MQTTHeader.dup (MQTTHeader t d q r) = d := by
  have hr := r.toNat_le
  have hq : q.level ≤ 2 := by cases q <;> decide
  rw [MQTTHeader.dup, toNat_MQTTHeader ht]
  cases d <;> simp only [Bool.toNat_true, Bool.toNat_false, decide_eq_true_eq, decide_eq_false_iff_not] <;> omega

@[simp] theorem qos_MQTTHeader : MQTTHeader.qos (MQTTHeader t d q r) = q.level := by
  have hd := d.toNat_le
  have hr := r.toNat_le
  have hq : q.level ≤ 2 := by cases q <;> decide
  rw [MQTTHeader.qos, toNat_MQTTHeader ht]
  omega

@[simp] theorem retain_MQTTHeader : MQTTHeader.retain (MQTTHeader t d q r) = r := by
  rw [MQTTHeader.retain, toNat_MQTTHeader ht]
  cases r <;> simp only [Bool.toNat_true, Bool.toNat_false, decide_eq_true_eq, decide_eq_false_iff_not] <;> omega

end Header

/-! ### The remaining length -/

def MAX_NO_OF_REMAINING_LENGTH_BYTES : ℕ := 4

/-- The loop of `MQTTPacket_decode` and `decodePacket`, with `left` bytes still allowed. The result is `len` and `*value`. -/
def decodeLoop : (left multiplier len value : ℕ) → Reading Byte (ℕ × ℕ)
  | 0, _, len, value => pure (len + 1, value)
  | left + 1, multiplier, len, value => do
    match ← Reading.take 1 with
    | [c] =>
      let value := value + (c &&& 127).toNat * multiplier
      if c &&& 128 ≠ 0 then decodeLoop left (multiplier * 128) (len + 1) value else pure (len + 1, value)
    | _ => pure (len + 1, value)

def MQTTPacket_decode : Reading Byte (ℕ × ℕ) := decodeLoop MAX_NO_OF_REMAINING_LENGTH_BYTES 1 0 0

/-- The same in `MQTTClient.h`. -/
def decodePacket : Reading Byte (ℕ × ℕ) := decodeLoop MAX_NO_OF_REMAINING_LENGTH_BYTES 1 0 0

/-- Out of memory, from `buf` on; `none` where it is left. -/
def MQTTPacket_decodeBuf (buf : List Byte) : Option (ℕ × ℕ) := (MQTTPacket_decode.run Reader.take buf).map Prod.fst

theorem and_127_toNat (c : Byte) : (c &&& 127).toNat = c.toNat % 128 := by
  rw [BitVec.toNat_and]
  exact Nat.and_two_pow_sub_one_eq_mod c.toNat 7

theorem or_128_and : ∀ d : Byte, (d ||| 0x80) &&& 127 = d &&& 127 ∧ (d ||| 0x80) &&& 128 ≠ 0 := by decide

theorem and_128_of_lt {d : Byte} (h : d.toNat < 128) : d &&& 128 = 0 := by
  revert h
  revert d
  decide

theorem toNat_digit (n : ℕ) : (BitVec.ofNat 8 (n % 128)).toNat = n % 128 := by
  rw [BitVec.toNat_ofNat]
  omega

theorem MQTTPacket_encode_of_lt {n : ℕ} (h : n < 128) : MQTTPacket_encode n = [.ofNat 8 (n % 128)] := by
  rw [MQTTPacket_encode, if_neg (by omega)]

theorem MQTTPacket_encode_of_le {n : ℕ} (h : 128 ≤ n) :
    MQTTPacket_encode n = (.ofNat 8 (n % 128) ||| 0x80) :: MQTTPacket_encode (n / 128) := by
  rw [MQTTPacket_encode, if_pos (by omega)]

theorem decodeLoop_succ (left m len v : ℕ) (c : Byte) (bs : List Byte) :
    (decodeLoop (left + 1) m len v).run Reader.take (c :: bs) =
      if c &&& 128 ≠ 0 then (decodeLoop left (m * 128) (len + 1) (v + (c &&& 127).toNat * m)).run Reader.take bs
      else some ((len + 1, v + (c &&& 127).toNat * m), bs) := by
  have htake : Reader.take 1 (c :: bs) = some ([c], bs) := if_pos (Nat.le_add_left 1 bs.length)
  rw [decodeLoop, Reading.run_bind, Reading.run_take, bind_apply, htake, Option.bind_some]
  dsimp only
  split <;> rfl

/-- The rest of a length whose first digits are worth `v`. -/
theorem consumes_decodeLoop : ∀ (left : ℕ) {n : ℕ} (m len v : ℕ) (rest : List Byte), n < 128 ^ left → 0 < left →
    Consumes ((decodeLoop left m len v).run Reader.take) rest (MQTTPacket_encode n)
      (len + (MQTTPacket_encode n).length, v + n * m)
  | 0, _, _, _, _, _, _, h => absurd h (Nat.lt_irrefl 0)
  | left + 1, n, m, len, v, rest, hn, _ => by
    unfold Consumes
    by_cases hsmall : n < 128
    · have hlow : (BitVec.ofNat 8 (n % 128) &&& 127).toNat = n := by
        rw [and_127_toNat, toNat_digit]
        omega
      have hlast : BitVec.ofNat 8 (n % 128) &&& 128 = 0 := and_128_of_lt (by rw [toNat_digit]; omega)
      rw [MQTTPacket_encode_of_lt hsmall, List.singleton_append, decodeLoop_succ, if_neg (not_not.mpr hlast), hlow]
      rfl
    · have hlow : ((BitVec.ofNat 8 (n % 128) ||| 0x80) &&& 127).toNat = n % 128 := by
        rw [(or_128_and _).1, and_127_toNat, toNat_digit, Nat.mod_mod]
      have hpos : 0 < left := by
        by_contra hzero
        rw [Nat.eq_zero_of_not_pos hzero] at hn
        omega
      have hdiv : n / 128 < 128 ^ left := by
        rw [Nat.pow_succ] at hn
        omega
      have ih := consumes_decodeLoop left (m * 128) (len + 1) (v + n % 128 * m) rest hdiv hpos
      have hvalue : v + n % 128 * m + n / 128 * (m * 128) = v + n * m := by
        calc v + n % 128 * m + n / 128 * (m * 128) = v + (128 * (n / 128) + n % 128) * m := by ring
          _ = v + n * m := by rw [Nat.div_add_mod]
      rw [MQTTPacket_encode_of_le (Nat.le_of_not_lt hsmall), List.cons_append, decodeLoop_succ, if_pos (or_128_and _).2,
        hlow, ih, hvalue, List.length_cons]
      congr 3
      omega

/-- **A remaining length is read back**, whatever follows it. -/
theorem consumes_decode {n : ℕ} (hn : n < 2 ^ 28) (rest : List Byte) : Consumes (MQTTPacket_decode.run Reader.take) rest
    (MQTTPacket_encode n) (encodedLength n, n) := by
  have h := consumes_decodeLoop MAX_NO_OF_REMAINING_LENGTH_BYTES 1 0 0 rest hn (by decide)
  rwa [length_MQTTPacket_encode hn, Nat.zero_add, Nat.zero_add, Nat.mul_one] at h

theorem MQTTPacket_decodeBuf_encode {n : ℕ} (hn : n < 2 ^ 28) (rest : List Byte) :
    MQTTPacket_decodeBuf (MQTTPacket_encode n ++ rest) = some (encodedLength n, n) :=
  congrArg (Option.map Prod.fst) (consumes_decode hn rest)

/-! ### Integers and strings -/

def readChar : Reader Byte Byte := Reader.next

def readInt : Reader Byte ℕ := do
  let high ← Reader.next
  let low ← Reader.next
  return 256 * high.toNat + low.toNat

structure MQTTLenString where
  len : ℕ
  data : Option (List Byte)
  deriving DecidableEq

/-- A string, as `MQTTString_initializer` leaves it, and whether it is read. -/
def readMQTTLenString (enddata : ℤ) : Reader Byte (MQTTLenString × Bool) := do
  if 1 < (← Reader.ahead enddata) then
    let len ← readInt
    if len ≤ (← Reader.ahead enddata) then
      let data ← Reader.take len
      return (⟨len, some data⟩, true)
    else return (⟨len, none⟩, false)
  else return (⟨0, none⟩, false)

/-- A string to be written: one of the two pointers is set, or neither is. -/
inductive MQTTString
  | null
  | cstring (string : CString)
  | lenstring (data : List Byte)

namespace MQTTString

/-- What it says. -/
def text : MQTTString → List Byte
  | null => []
  | cstring string => string.chars
  | lenstring data => data

/-- `cstring || lenstring.data`. -/
def isSet : MQTTString → Bool
  | null => false
  | _ => true

end MQTTString

def MQTTstrlen : MQTTString → ℕ
  | .null => 0
  | .cstring string => string.strlen
  | .lenstring data => data.length

def writeMQTTString : MQTTString → List Byte
  | .null => writeInt 0
  | .cstring string => writeCString string
  | .lenstring data => if 0 < data.length then writeInt data.length ++ data else writeInt 0

/-- A text with its length in front. -/
def lengthDelimited (text : List Byte) : List Byte := writeInt text.length ++ text

theorem writeCString_eq (string : CString) : writeCString string = lengthDelimited string.chars := rfl

theorem writeMQTTString_eq (s : MQTTString) : writeMQTTString s = lengthDelimited s.text := by
  cases s with
  | null => rfl
  | cstring string => rfl
  | lenstring data => cases data <;> rfl

theorem MQTTstrlen_eq (s : MQTTString) : MQTTstrlen s = s.text.length := by
  cases s <;> rfl

@[simp] theorem length_writeInt (n : ℕ) : (writeInt n).length = 2 := rfl

@[simp] theorem length_lengthDelimited (text : List Byte) : (lengthDelimited text).length = text.length + 2 := by
  rw [lengthDelimited, List.length_append, length_writeInt, Nat.add_comm]

theorem consumes_readInt {n : ℕ} (hn : n < 2 ^ 16) (rest : List Byte) : Consumes readInt rest (writeInt n) n := by
  have hvalue : 256 * (BitVec.ofNat 8 (n / 256)).toNat + (BitVec.ofNat 8 (n % 256)).toNat = n := by
    rw [BitVec.toNat_ofNat, BitVec.toNat_ofNat]
    omega
  calc readInt (writeInt n ++ rest)
      = some (256 * (BitVec.ofNat 8 (n / 256)).toNat + (BitVec.ofNat 8 (n % 256)).toNat, rest) := rfl
    _ = some (n, rest) := by rw [hvalue]

/-- **A string is read back if it ends before `enddata`.** -/
theorem consumes_readMQTTLenString {text rest : List Byte} {enddata : ℤ} (htext : text.length < 2 ^ 16)
    (hend : enddata ≤ rest.length) :
    Consumes (readMQTTLenString enddata) rest (lengthDelimited text) (⟨text.length, some text⟩, true) := by
  unfold readMQTTLenString
  refine (consumes_ahead enddata _).bind_nil ?_
  have hlength : (1 : ℤ) < ((lengthDelimited text ++ rest).length : ℤ) - enddata := by
    rw [List.length_append, length_lengthDelimited]
    push_cast
    omega
  rw [if_pos hlength]
  refine (consumes_readInt htext _).bind ?_
  refine (consumes_ahead enddata _).bind_nil ?_
  have hfits : (text.length : ℤ) ≤ ((text ++ rest).length : ℤ) - enddata := by
    rw [List.length_append]
    push_cast
    omega
  rw [if_pos hfits]
  exact (consumes_take text rest).bind_last (consumes_pure _ rest)

end Mqtt
end Ventilation
