/-
# Modbus requests and the slave that serves them

What the master and its slaves agree on, from the side of the slave: a frame is
a device address, a function code with what belongs to it, and the CRC of all
that, low byte first; numbers of 16 bits have their high byte first. A slave
serves a good frame that is addressed to it. Of what the master sends it is
served as it was meant (`serve_read`, `serve_write`), whatever the slave holds.
-/
import Ventilation.Modbus.Crc

namespace Ventilation
namespace Modbus

/-- A number of 16 bits, the high byte first. -/
def wordBytes (x : BitVec 16) : List Byte := [(x >>> 8).setWidth 8, x.setWidth 8]

/-- The numbers that a run of bytes stands for. -/
def bytesWords : List Byte → List (BitVec 16)
  | hi :: lo :: rest => (hi ++ lo) :: bytesWords rest
  | _ => []

/-- A message with its CRC behind it. -/
def withCheck (d : List Byte) : List Byte := d ++ [(crc d).setWidth 8, (crc d >>> 8).setWidth 8]

/-- Reading holding or input registers, and writing to holding registers, from an address on. -/
inductive Request
  | read (holding : Bool) (address quantity : BitVec 16)
  | write (address : BitVec 16) (data : List (BitVec 16))
deriving DecidableEq

namespace Request

/-- The function code and what belongs to it: for a write, the quantity, the
byte count and the data behind the address. -/
def bytes : Request → List Byte
  | .read holding address quantity =>
    (if holding then 3 else 4) :: (wordBytes address ++ wordBytes quantity)
  | .write address data =>
    0x10 :: (wordBytes address ++ wordBytes (.ofNat 16 data.length) ++
      (.ofNat 8 (2 * data.length) :: data.flatMap wordBytes))

def frame (device : Byte) (q : Request) : List Byte := withCheck (device :: q.bytes)

/-- The request that a function code and what belongs to it stand for. -/
def ofBytes : List Byte → Option Request
  | [f, a₁, a₀, q₁, q₀] =>
    if f = 3 then some (.read true (a₁ ++ a₀) (q₁ ++ q₀))
    else if f = 4 then some (.read false (a₁ ++ a₀) (q₁ ++ q₀))
    else none
  | f :: a₁ :: a₀ :: q₁ :: q₀ :: count :: data =>
    if f = 0x10 ∧ count.toNat = 2 * (q₁ ++ q₀ : BitVec 16).toNat ∧ data.length = count.toNat then
      some (.write (a₁ ++ a₀) (bytesWords data))
    else none
  | _ => none

end Request

/-- A slave and what its registers hold. -/
structure Slave where
  device : Byte
  size : ℕ
  holding : ℕ → BitVec 16
  input : ℕ → BitVec 16

namespace Slave

def table (s : Slave) (holding : Bool) : ℕ → BitVec 16 := if holding then s.holding else s.input

/-- The holding registers with `data` stored from `address` on. -/
def stored (s : Slave) (address : ℕ) (data : List (BitVec 16)) : Slave :=
  { s with holding := fun a => if address ≤ a then data.getD (a - address) (s.holding a) else s.holding a }

def exception (s : Slave) (f code : Byte) : List Byte := withCheck [s.device, f ||| 0x80, code]

/-- What a request does, and the reply to it. -/
def perform (s : Slave) : Request → Slave × List Byte
  | .read holding address quantity =>
    let f : Byte := if holding then 3 else 4
    if quantity = 0 ∨ 125 < quantity.toNat then (s, s.exception f 3)
    else if s.size < address.toNat + quantity.toNat then (s, s.exception f 2)
    else (s, withCheck (s.device :: f :: .ofNat 8 (2 * quantity.toNat) ::
      ((List.range quantity.toNat).map fun i => s.table holding (address.toNat + i)).flatMap wordBytes))
  | .write address data =>
    if data = [] ∨ 123 < data.length then (s, s.exception 0x10 3)
    else if s.size < address.toNat + data.length then (s, s.exception 0x10 2)
    else (s.stored address.toNat data, withCheck (s.device :: 0x10 ::
      (wordBytes address ++ wordBytes (.ofNat 16 data.length))))

/-- A frame on the line: nothing happens if its CRC is wrong or it is not for this slave. -/
def serve (s : Slave) (frame : List Byte) : Option (Slave × List Byte) :=
  if crc frame = 0 ∧ frame.head? = some s.device then
    let body := (frame.drop 1).take (frame.length - 3)
    match Request.ofBytes body with
    | some q => some (s.perform q)
    | none => some (s, s.exception (body.headD 0) 1)
  else none

end Slave

/-! ### What was sent is understood -/

@[simp] theorem crc_withCheck (d : List Byte) : crc (withCheck d) = 0#16 :=
  (crc_append_eq_zero_iff d _ _).mpr ⟨rfl, rfl⟩

@[simp] theorem length_withCheck (d : List Byte) : (withCheck d).length = d.length + 2 := List.length_append

theorem wordBytes_eq (x : BitVec 16) (rest : List Byte) :
    wordBytes x ++ rest = (x >>> 8).setWidth 8 :: x.setWidth 8 :: rest := rfl

/-- A number is put together again. -/
theorem append_wordBytes (x : BitVec 16) : (((x >>> 8).setWidth 8 : Byte) ++ (x.setWidth 8 : Byte) : BitVec 16) = x := by
  apply BitVec.eq_of_getLsbD_eq
  intro i hi
  rw [BitVec.getLsbD_append, BitVec.getLsbD_setWidth, BitVec.getLsbD_setWidth, BitVec.getLsbD_ushiftRight]
  by_cases h : i < 8
  · simp [h]
  · simp [h, show i - 8 < 8 by omega, show 8 + (i - 8) = i by omega]

theorem bytesWords_flatMap : ∀ data : List (BitVec 16), bytesWords (data.flatMap wordBytes) = data
  | [] => rfl
  | x :: data => by
    rw [List.flatMap_cons]
    show ((x >>> 8).setWidth 8 ++ x.setWidth 8) :: bytesWords (data.flatMap wordBytes) = x :: data
    rw [append_wordBytes, bytesWords_flatMap data]

theorem length_flatMap_wordBytes (data : List (BitVec 16)) : (data.flatMap wordBytes).length = 2 * data.length := by
  induction data with
  | nil => rfl
  | cons x data ih =>
    rw [List.flatMap_cons, List.length_append, ih, List.length_cons]
    exact (by omega : 2 + 2 * data.length = 2 * (data.length + 1))

/-- A request is read as it was written, as long as its byte count is right. -/
theorem Request.ofBytes_bytes (q : Request) (h : ∀ address data, q = .write address data → data.length ≤ 127) :
    Request.ofBytes q.bytes = some q := by
  cases q with
  | read holding address quantity =>
    cases holding <;> simp [bytes, wordBytes, ofBytes, append_wordBytes]
  | write address data =>
    have hlen := h address data rfl
    have hcount : (BitVec.ofNat 8 (2 * data.length)).toNat = 2 * data.length := by
      rw [BitVec.toNat_ofNat, Nat.mod_eq_of_lt (by omega)]
    have hquantity : (BitVec.ofNat 16 data.length).toNat = data.length := by
      rw [BitVec.toNat_ofNat, Nat.mod_eq_of_lt (by omega)]
    simp only [bytes, List.cons_append, wordBytes_eq, ofBytes, append_wordBytes, hcount, hquantity,
      bytesWords_flatMap, length_flatMap_wordBytes, and_self, if_true]

namespace Slave

variable {s : Slave}

theorem serve_frame {q : Request} (h : Request.ofBytes q.bytes = some q) :
    s.serve (q.frame s.device) = some (s.perform q) := by
  have hbody : ((q.frame s.device).drop 1).take ((q.frame s.device).length - 3) = q.bytes := by
    rw [Request.frame, length_withCheck, withCheck]
    exact List.take_left' rfl
  have hgood : crc (q.frame s.device) = 0 ∧ (q.frame s.device).head? = some s.device :=
    ⟨crc_withCheck _, rfl⟩
  rw [serve, if_pos hgood, hbody]
  simp only [h]

/-- A read of registers that the slave has. -/
theorem serve_read {holding : Bool} {address quantity : BitVec 16} (hpos : quantity ≠ 0)
    (hquantity : quantity.toNat ≤ 125) (hsize : address.toNat + quantity.toNat ≤ s.size) :
    s.serve ((Request.read holding address quantity).frame s.device) =
      some (s, withCheck (s.device :: (if holding then 3 else 4) :: .ofNat 8 (2 * quantity.toNat) ::
        ((List.range quantity.toNat).map fun i => s.table holding (address.toNat + i)).flatMap wordBytes)) := by
  rw [serve_frame (Request.ofBytes_bytes _ fun _ _ h => by cases h), perform]
  rw [if_neg (by rintro (h | h); exacts [hpos h, by omega]), if_neg (by omega)]

/-- A write to registers that the slave has. -/
theorem serve_write {address : BitVec 16} {data : List (BitVec 16)} (hpos : data ≠ []) (hdata : data.length ≤ 123)
    (hsize : address.toNat + data.length ≤ s.size) :
    s.serve ((Request.write address data).frame s.device) =
      some (s.stored address.toNat data, withCheck (s.device :: 0x10 ::
        (wordBytes address ++ wordBytes (.ofNat 16 data.length)))) := by
  have hlen : ∀ address' data', Request.write address data = .write address' data' → data'.length ≤ 127 := by
    intro _ _ h
    cases h
    omega
  rw [serve_frame (Request.ofBytes_bytes _ hlen), perform,
    if_neg (by rintro (h | h); exacts [hpos h, by omega]), if_neg (by omega)]

end Slave
end Modbus
end Ventilation
