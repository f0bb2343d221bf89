/-
# Writing a value and reading it back (src/modbus_handler/modbus_register.cpp)

A `WriteRegister` sends the less significant word of a value first, each word
with its high byte first, and the getters of a `ReadRegister` put the four
bytes together again. Between them is a slave that keeps the words in
consecutive registers: what it is told to store is what it was meant to store,
and what it answers is what was written (`write_read_round_trip`).
-/
import Ventilation.Modbus.Requests

namespace Ventilation
namespace Modbus

/-! ### The frames are requests -/

theorem wordBytes_quantity : ∀ n : Byte, wordBytes (.ofNat 16 n.toNat) = [0, n] := by
  decide +kernel

variable {device_address n : Byte} {register_address : BitVec 16}

/-- With a word for each register the frame of a call is a request to write them. -/
theorem callFrame_eq (data : WriteRegister.Data)
    (h : (WriteRegister.dataWords n data).length = n.toNat) :
    WriteRegister.callFrame device_address register_address n data =
      (Request.write register_address (WriteRegister.dataWords n data)).frame device_address := by
  have hbody : WriteRegister.callBody device_address register_address n data =
      device_address :: (Request.write register_address (WriteRegister.dataWords n data)).bytes := by
    simp only [WriteRegister.callBody, WriteRegister.header, Request.bytes, h, wordBytes_quantity, List.append_assoc,
      List.cons_append, List.nil_append]
  rw [WriteRegister.callFrame, hbody, Request.frame]

theorem readFrame_eq (mem : MODBUSRegister) (holding : Bool) :
    (ReadRegister.start_transfer (ReadRegister.new mem device_address register_address n holding)).frame =
      (Request.read holding register_address (.ofNat 16 n.toNat)).frame device_address := by
  have hbody : readBody holding device_address register_address n =
      device_address :: (Request.read holding register_address (.ofNat 16 n.toNat)).bytes := by
    simp only [readBody, Request.bytes, wordBytes_quantity, List.cons_append, List.nil_append]
  show payloadBytes _ = _
  rw [payloadBytes_read, hbody, Request.frame]

/-! ### What the slave keeps and answers -/

/-- A stored word is found at its address. -/
theorem stored_holding (s : Slave) (address : ℕ) (data : List (BitVec 16)) {i : ℕ} (hi : i < data.length) :
    (s.stored address data).holding (address + i) = data[i] := by
  show (if address ≤ address + i then data.getD (address + i - address) _ else _) = _
  rw [if_pos (Nat.le_add_right _ _), Nat.add_sub_cancel_left, List.getD_eq_getElem?_getD,
    List.getElem?_eq_getElem hi]
  rfl

theorem map_range_eq {data : List (BitVec 16)} {f : ℕ → BitVec 16}
    (h : ∀ i, (hi : i < data.length) → f i = data[i]) : (List.range data.length).map f = data := by
  refine List.ext_getElem (by rw [List.length_map, List.length_range]) fun i _ hi => ?_
  rw [List.getElem_map, List.getElem_range]
  exact h i hi

/-- The normal reply to a read. -/
def readReply (holding : Bool) (device_address : Byte) (data : List (BitVec 16)) : List Byte :=
  withCheck (device_address :: (if holding then 3 else 4) :: .ofNat 8 (2 * data.length) :: data.flatMap wordBytes)

/-- A slave whose registers hold these words answers with them. -/
theorem serve_readReply {s : Slave} (holding : Bool) {data : List (BitVec 16)} (hlen : data.length = n.toNat)
    (hpos : n ≠ 0) (hmax : n.toNat ≤ 125) (hsize : register_address.toNat + n.toNat ≤ s.size)
    (h : ∀ i, (hi : i < data.length) → s.table holding (register_address.toNat + i) = data[i]) :
    s.serve ((Request.read holding register_address (.ofNat 16 n.toNat)).frame s.device) =
      some (s, readReply holding s.device data) := by
  have hn : (BitVec.ofNat 16 n.toNat).toNat = n.toNat := by
    rw [BitVec.toNat_ofNat, Nat.mod_eq_of_lt (by omega)]
  have hquantity : BitVec.ofNat 16 n.toNat ≠ 0 := by
    intro h0
    have hzero := congrArg BitVec.toNat h0
    rw [hn] at hzero
    exact hpos (BitVec.eq_of_toNat_eq hzero)
  rw [Slave.serve_read hquantity (by omega) (by omega), hn, readReply, ← hlen, map_range_eq h]

/-! ### What the getters make of the reply -/

theorem append_halves (v : BitVec 32) :
    (((v >>> 24).setWidth 8 : Byte) ++ ((v >>> 16).setWidth 8 : Byte) ++ ((v >>> 8).setWidth 8 : Byte) ++
      (v.setWidth 8 : Byte) : BitVec 32) = v := by
  apply BitVec.eq_of_getLsbD_eq
  intro i hi
  simp only [BitVec.getLsbD_append, BitVec.getLsbD_setWidth, BitVec.getLsbD_ushiftRight]
  by_cases h8 : i < 8
  · simp [h8]
  by_cases h16 : i < 16
  · simp [h8, show i - 8 < 8 by omega, show 8 + (i - 8) = i by omega]
  by_cases h24 : i < 24
  · simp [h8, show ¬ i - 8 < 8 by omega, show i - 8 - 8 < 8 by omega, show 16 + (i - 8 - 8) = i by omega]
  · simp [h8, show ¬ i - 8 < 8 by omega, show ¬ i - 8 - 8 < 8 by omega, show i - 8 - 8 - 8 < 8 by omega,
      show 24 + (i - 8 - 8 - 8) = i by omega]

/-- The words of a value in the reply are carried as that value. -/
theorem carried_one (holding : Bool) (device_address : Byte) (x : BitVec 16) :
    MODBUSRegister.carried (readReply holding device_address [x]) = some (x.setWidth 32) := by
  have hbytes : readReply holding device_address [x] = withCheck [device_address, if holding then 3 else 4, 2,
      (x >>> 8).setWidth 8, x.setWidth 8] := rfl
  rw [hbytes]
  show some ((((x >>> 8).setWidth 8 : Byte) ++ (x.setWidth 8 : Byte) : BitVec 16).setWidth 32) = _
  rw [append_wordBytes]

theorem carried_two (holding : Bool) (device_address : Byte) (v : BitVec 32) :
    MODBUSRegister.carried (readReply holding device_address (WriteRegister.halves v)) = some v := by
  have hbytes : readReply holding device_address (WriteRegister.halves v) = withCheck [device_address,
      if holding then 3 else 4, 4, (v >>> 8).setWidth 8, v.setWidth 8, (v >>> 24).setWidth 8,
      (v >>> 16).setWidth 8] := by
    rw [readReply, WriteRegister.halves_bytes]
    rfl
  rw [hbytes]
  show some (((v >>> 24).setWidth 8 : Byte) ++ ((v >>> 16).setWidth 8 : Byte) ++ ((v >>> 8).setWidth 8 : Byte) ++
      (v.setWidth 8 : Byte) : BitVec 32) = _
  rw [append_halves]

/-- The value that `n` registers keep of `v`. -/
def kept (number_of_registers : Byte) (v : BitVec 32) : BitVec 32 :=
  if number_of_registers = 1 then (v.setWidth 16).setWidth 32 else v

theorem dataWords_eq {data : WriteRegister.Data} {v : BitVec 32} (hdata : data = .uint32 v ∨ data = .float v) :
    WriteRegister.dataWords n data = if n = 1 then [v.setWidth 16] else WriteRegister.halves v := by
  rcases hdata with rfl | rfl
  · rfl
  · rfl

theorem carried_readReply {data : WriteRegister.Data} {v : BitVec 32} (hdata : data = .uint32 v ∨ data = .float v)
    (holding : Bool) :
    MODBUSRegister.carried (readReply holding device_address (WriteRegister.dataWords n data)) = some (kept n v) := by
  rw [dataWords_eq hdata, kept]
  split
  · exact carried_one _ _ _
  · exact carried_two _ _ _

/-- What a register finds after the reply. -/
theorem receive_readReply (r : MODBUSRegister) {holding : Bool} {data : List (BitVec 16)} {v : BitVec 32}
    (hpos : data ≠ []) (hle : data.length ≤ 13)
    (hv : MODBUSRegister.carried (readReply holding device_address data) = some v) :
    ∃ r', r.receive (readReply holding device_address data) = some r' ∧ ReadRegister.is_ok r' = some true ∧
      r'.get32 = v ∧ r'.get_float = v := by
  have hlen : (readReply holding device_address data).length = 5 + 2 * data.length := by
    rw [readReply, length_withCheck, List.length_cons, List.length_cons, List.length_cons, length_flatMap_wordBytes]
    omega
  have hroom : (readReply holding device_address data).length ≤ PAYLOAD_MAX_LEN := by
    rw [hlen]
    exact (by omega : 5 + 2 * data.length ≤ 32)
  obtain ⟨r', hr'⟩ := r.receive_isSome hroom
  have hpos' := List.length_pos_iff.mpr hpos
  have hintact : MODBUSRegister.Intact (readReply holding device_address data) :=
    ⟨crc_withCheck _, by rw [hlen]; exact (by omega : 5 + 2 * data.length ≠ 5)⟩
  refine ⟨r', hr', ?_, MODBUSRegister.get_float_of_carried hr' hv, MODBUSRegister.get_float_of_carried hr' hv⟩
  exact (MODBUSRegister.is_ok_receive hr').trans (congrArg some (decide_eq_true hintact))

/-- The first word of a reply is what `get16` finds. -/
theorem get16_readReply {r r' : MODBUSRegister} {holding : Bool} {x : BitVec 16}
    (h : r.receive (readReply holding device_address [x]) = some r') : r'.get16 = x := by
  have h3 : r'.rx 3 = (x >>> 8).setWidth 8 := MODBUSRegister.rx_receive h 3
  have h4 : r'.rx 4 = x.setWidth 8 := MODBUSRegister.rx_receive h 4
  unfold MODBUSRegister.get16
  rw [h3, h4, append_wordBytes]

/-- **What is written is read back.** A slave that has the registers stores the
words of the frame; and once its registers, read from the same address, show
these words, its answer is accepted and gives the value: all of it with two
registers, the lower 16 bits with one. -/
theorem write_read_round_trip (mem mem' : MODBUSRegister) (device_address : Byte) (register_address : BitVec 16)
    (number_of_registers : Byte) (hn : number_of_registers = 1 ∨ number_of_registers = 2) (holding : Bool)
    (v : BitVec 32) (data : WriteRegister.Data) (hdata : data = .uint32 v ∨ data = .float v)
    (ts : List WriteRegister.Transfer) (s : Slave) (hs : s.device = device_address)
    (hsize : register_address.toNat + number_of_registers.toNat ≤ s.size) :
    ∃ r frame s' ack, WriteRegister.used mem device_address register_address number_of_registers ts = some r ∧
      WriteRegister.started r data = some ⟨frame, WRITE_EXPECTED_CHARACTERS⟩ ∧
      s.serve frame = some (s', ack) ∧
      ∀ later : Slave, later.device = device_address →
        register_address.toNat + number_of_registers.toNat ≤ later.size →
        (∀ i < number_of_registers.toNat, later.table holding (register_address.toNat + i) =
          s'.holding (register_address.toNat + i)) →
        ∃ reply r', later.serve (ReadRegister.start_transfer
            (ReadRegister.new mem' device_address register_address number_of_registers holding)).frame =
              some (later, reply) ∧
          (ReadRegister.new mem' device_address register_address number_of_registers holding).receive reply =
            some r' ∧
          ReadRegister.is_ok r' = some true ∧ r'.get32 = kept number_of_registers v ∧
          r'.get_float = kept number_of_registers v ∧ (number_of_registers = 1 → r'.get16 = v.setWidth 16) := by
  subst hs
  have hlen : (WriteRegister.dataWords number_of_registers data).length = number_of_registers.toNat := by
    rcases hn with rfl | rfl <;> rcases hdata with rfl | rfl <;> rfl
  have hsmall : number_of_registers.toNat ≤ 2 ∧ number_of_registers ≠ 0 := by
    rcases hn with rfl | rfl <;> decide
  have hne : WriteRegister.dataWords number_of_registers data ≠ [] := by
    rcases hn with rfl | rfl <;> rcases hdata with rfl | rfl <;> exact List.cons_ne_nil _ _
  obtain ⟨r, hr, hbegins⟩ := WriteRegister.used_begins mem s.device register_address number_of_registers ts
  have hroom : register_address.toNat + (WriteRegister.dataWords number_of_registers data).length ≤ s.size := by omega
  have hserve := Slave.serve_write hne (by omega) hroom
  rw [← callFrame_eq data hlen] at hserve
  refine ⟨r, _, _, _, hr, WriteRegister.started_eq hbegins data, hserve, fun later hdevice hsize' hshows => ?_⟩
  have hread := serve_readReply holding hlen hsmall.2 (by omega)
    hsize' fun i hi => (hshows i (hlen ▸ hi)).trans (stored_holding s _ _ hi)
  rw [hdevice] at hread
  obtain ⟨r', hr', hok, h32, hfloat⟩ := receive_readReply
    (ReadRegister.new mem' s.device register_address number_of_registers holding) hne (by omega)
    (carried_readReply hdata holding)
  refine ⟨_, r', by rw [readFrame_eq, hread], hr', hok, h32, hfloat, fun hone => ?_⟩
  rw [dataWords_eq hdata, if_pos hone] at hr'
  exact get16_readReply hr'

/-- A value of two words in registers 4 and 5 of a slave with 10 registers. -/
theorem write_read_round_trip_two : ∃ r frame s' ack reply r',
    WriteRegister.used .blank 1 4 2 [] = some r ∧
    WriteRegister.started r (.uint32 0x12345678) = some ⟨frame, WRITE_EXPECTED_CHARACTERS⟩ ∧
    (⟨1, 10, fun _ => 0, fun _ => 0⟩ : Slave).serve frame = some (s', ack) ∧
    (ReadRegister.new .blank 1 4 2 true).receive reply = some r' ∧
    ReadRegister.is_ok r' = some true ∧ r'.get32 = 0x12345678 := by
  obtain ⟨r, frame, s', ack, hr, hstarted, hserve, hlater⟩ := write_read_round_trip .blank .blank 1 4 2 (.inr rfl) true
    0x12345678 (.uint32 0x12345678) (.inl rfl) [] ⟨1, 10, fun _ => 0, fun _ => 0⟩ rfl (by decide)
  obtain ⟨reply, r', -, hreceive, hok, h32, -⟩ := hlater ⟨1, 10, s'.holding, fun _ => 0⟩ rfl
    (show 4 + 2 ≤ 10 by decide) fun _ _ => rfl
  exact ⟨r, frame, s', ack, reply, r', hr, hstarted, hserve, hreceive, hok, h32⟩

end Modbus
end Ventilation
