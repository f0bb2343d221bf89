/-
# The CRC of a record in the EEPROM (src/logHandler.cpp)

`crc16` shifts a byte out and mixes it in again in three places. What it mixes
in is what the byte leaves in an empty register of the polynomial 0x1021
(`crc16Mix_eq`), so `crc16` is the CRC-16 of the bits of the record, the most
significant one of each byte first (`crc16_eq_bitCrc16`). `verifyDataIntegrity`
accepts what `appendCrcToBase8Array` leaves and nothing else behind the same
record, and rejects an accepted record once a burst of at most 16 bits is
flipped (`record_check_right`).
-/
import Ventilation.Lib.ShiftRegister
import Ventilation.LogHandler

namespace Ventilation

open ShiftRegister

/-- The bits of a record. -/
def recordBits (data : List Byte) : List Bool := data.flatMap msbBits

/-- The polynomial of `crc16`. -/
def crc16Polynomial : ShiftRegister 16 := .msbFirst 0x1021#16 (by decide)

/-- The CRC-16 of a message, one bit at a time. -/
def bitCrc16 (bits : List Bool) : BitVec 16 := crc16Polynomial.run 0xFFFF#16 bits

/-! ### Bit by bit -/

theorem crc16Mix_eq : ∀ x : Byte, crc16Mix x = crc16Polynomial.run 0#16 (msbBits x) := by
  decide +kernel

/-- A turn of the loop is eight steps of the bits. -/
theorem crc16Step_eq_run (crc : BitVec 16) (d : Byte) :
    crc16Step crc d = crc16Polynomial.run crc (msbBits d) := by
  rw [crc16Step_eq, crc16Mix_eq]
  exact (run_msbBits (by decide) (by decide : 8 ≤ 16) crc d).symm

theorem crc16_eq_bitCrc16 (data : List Byte) : crc16 data = bitCrc16 (recordBits data) :=
  crc16Polynomial.run_flatMap crc16Step_eq_run data 0xFFFF#16

/-- A burst always changes the CRC. -/
theorem crc16_ne_of_burst {data data' : List Byte} {k : ℕ} (hlen : data'.length = data.length)
    (hne : data' ≠ data)
    (hburst : ∀ i : ℕ, (recordBits data')[i]? ≠ (recordBits data)[i]? → k ≤ i ∧ i < k + 16) :
    crc16 data' ≠ crc16 data :=
  crc16Polynomial.foldl_ne_of_burst crc16Step_eq_run length_msbBits msbBits_injective hlen hne hburst 0xFFFF#16

/-! ### What is accepted -/

variable {n : ℕ} {arr arr' : Vector Byte n} {d : List Byte} {len : ℕ}

/-- A record at the front of an array is accepted if its CRC is 0. -/
theorem verify_of_prefix (h : d <+: arr.toList) :
    verifyDataIntegrity arr d.length = some (decide (crc16 d = 0#16)) := by
  rw [verifyDataIntegrity, Machine.bind_of (Buffer.load_of_prefix h)]
  rfl

theorem verify_eq_some {ok : Bool} (h : verifyDataIntegrity arr len = some ok) :
    len ≤ n ∧ ok = decide (crc16 (arr.toList.take len) = 0#16) := by
  obtain ⟨data, hload, hok⟩ := Option.bind_eq_some_iff.mp h
  obtain ⟨hpre, hlen⟩ := Buffer.prefix_of_load hload
  have hle := hpre.length_le
  rw [Vector.length_toList] at hle
  rw [← hlen, ← List.prefix_iff_eq_take.mp hpre]
  exact ⟨hle, (Option.some.inj hok).symm⟩

theorem verify_take (h : len ≤ n) :
    verifyDataIntegrity arr len = some (decide (crc16 (arr.toList.take len) = 0#16)) := by
  have hlen : (arr.toList.take len).length = len := by
    rw [List.length_take, Vector.length_toList, Nat.min_eq_left h]
  calc verifyDataIntegrity arr len = verifyDataIntegrity arr (arr.toList.take len).length := by rw [hlen]
    _ = _ := verify_of_prefix (List.take_prefix len _)

/-- What stands behind `d` in an array: two pieces of one length there are the same. -/
theorem eq_of_prefix_append {mem e f : List Byte} (hlen : e.length = f.length)
    (h : d ++ e <+: mem) : d ++ f <+: mem ↔ e = f := by
  constructor
  · intro h'
    have hlen' : (d ++ e).length = (d ++ f).length := by rw [List.length_append, List.length_append, hlen]
    exact List.append_cancel_left ((List.prefix_of_prefix_length_le h h' hlen'.le).eq_of_length hlen')
  · rintro rfl
    exact h

/-- Behind a record only the two bytes are accepted that are appended to it. -/
theorem verify_iff_appended {a b : Byte} (h : d ++ [a, b] <+: arr.toList) {m : ℕ} {mem : Vector Byte m}
    (hmem : d <+: mem.toList) (hroom : d.length + 2 ≤ m) :
    ∃ mem' : Vector Byte m, appendCrcToBase8Array mem d.length = some (mem', ((d.length + 2 : ℕ) : ℤ)) ∧
      (verifyDataIntegrity arr (d.length + 2) = some true ↔ d ++ [a, b] <+: mem'.toList) := by
  obtain ⟨mem', happend, hpre⟩ := appendCrcToBase8Array_eq hmem hroom
  rw [length_withCrc] at happend
  refine ⟨mem', happend, ?_⟩
  have hverify := verify_of_prefix h
  rw [List.length_append] at hverify
  rw [withCrc] at hpre
  rw [show d.length + 2 = d.length + [a, b].length by rfl, hverify, Option.some.injEq, decide_eq_true_iff,
    crc16_append_eq_zero_iff, eq_of_prefix_append (f := [a, b]) (by rfl) hpre]
  constructor
  · rintro ⟨rfl, rfl⟩
    rfl
  · intro heq
    obtain ⟨ha, hb⟩ := List.cons.inj heq
    exact ⟨ha.symm, (List.cons.inj hb).1.symm⟩

/-- A burst in an accepted record. -/
theorem verify_burst {k : ℕ} (h : verifyDataIntegrity arr len = some true)
    (hne : arr'.toList.take len ≠ arr.toList.take len)
    (hburst : ∀ i : ℕ, (recordBits (arr'.toList.take len))[i]? ≠ (recordBits (arr.toList.take len))[i]? →
      k ≤ i ∧ i < k + 16) : verifyDataIntegrity arr' len = some false := by
  obtain ⟨hle, hok⟩ := verify_eq_some h
  have hcrc : crc16 (arr.toList.take len) = 0#16 := of_decide_eq_true hok.symm
  have hchanged := crc16_ne_of_burst (by simp only [List.length_take, Vector.length_toList]) hne hburst
  rw [hcrc] at hchanged
  rw [verify_take hle, decide_eq_false hchanged]

/-- **The check of a record**: `crc16` is the CRC-16, what is accepted behind a
record is what `appendCrcToBase8Array` appends, and no burst of at most 16 bits
is accepted. -/
theorem record_check_right :
    (∀ data, crc16 data = bitCrc16 (recordBits data)) ∧
    (∀ (n m : ℕ) (arr : Vector Byte n) (mem : Vector Byte m) (d : List Byte) (a b : Byte),
      d ++ [a, b] <+: arr.toList → d <+: mem.toList → d.length + 2 ≤ m →
      ∃ mem' : Vector Byte m, appendCrcToBase8Array mem d.length = some (mem', ((d.length + 2 : ℕ) : ℤ)) ∧
        (verifyDataIntegrity arr (d.length + 2) = some true ↔ d ++ [a, b] <+: mem'.toList)) ∧
    ∀ (n : ℕ) (arr arr' : Vector Byte n) (len k : ℕ), verifyDataIntegrity arr len = some true →
      arr'.toList.take len ≠ arr.toList.take len →
      (∀ i : ℕ, (recordBits (arr'.toList.take len))[i]? ≠ (recordBits (arr.toList.take len))[i]? →
        k ≤ i ∧ i < k + 16) →
      verifyDataIntegrity arr' len = some false :=
  ⟨crc16_eq_bitCrc16, fun _ _ _ _ _ _ _ h hmem hroom => verify_iff_appended h hmem hroom,
    fun _ _ _ _ _ h hne hburst => verify_burst h hne hburst⟩

/-- A record of two bytes, and the same record with two bits flipped. -/
theorem record_check_right_two : verifyDataIntegrity #v[(1 : Byte), 2, 0x0e, 0x7c] 4 = some true ∧
    verifyDataIntegrity #v[(1 : Byte), 1, 0x0e, 0x7c] 4 = some false := by
  have hok : verifyDataIntegrity #v[(1 : Byte), 2, 0x0e, 0x7c] 4 = some true := by decide +kernel
  have hflip : ∀ i < 32, (recordBits [1, 1, 0x0e, 0x7c])[i]? ≠ (recordBits [1, 2, 0x0e, 0x7c])[i]? →
      8 ≤ i ∧ i < 8 + 16 := by
    decide +kernel
  refine ⟨hok, record_check_right.2.2 4 _ #v[1, 1, 0x0e, 0x7c] 4 8 hok (by decide) fun i hi => ?_⟩
  by_cases hlt : i < 32
  · exact hflip i hlt hi
  · rw [List.getElem?_eq_none (by exact Nat.not_lt.mp hlt), List.getElem?_eq_none (by exact Nat.not_lt.mp hlt)] at hi
    exact absurd rfl hi

end Ventilation
