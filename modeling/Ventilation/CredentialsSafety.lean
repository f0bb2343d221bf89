/-
# Fetching credentials from any EEPROM (src/logHandler.cpp)

`fetchCredentials` uses the length byte of a record before anything has
checked it. A length of more than 64, such as that of a blank chip, makes the
CRC run over the end of the array; with a length of 3 or 4 a record can pass
without any text; and of the port's record up to 252 bytes go into an array of
10, and whatever text then stands there has to be a number. Which records are
harmless is said by `HarmlessString` and `HarmlessPort`: with these, and no
others, an output changes only where its record is good (`fetch_safe_iff`).
-/
import Ventilation.Credentials
import Ventilation.RecordCrc

namespace Ventilation

open CInt

variable {record : Vector Byte CREDENTIALS_ARR_SIZE}

/-- The length byte of a record. -/
def recordLen (record : Vector Byte CREDENTIALS_ARR_SIZE) : ℕ := (record.get ⟨1, by decide⟩).toNat

/-- The CRC over the record's length is right. -/
def Checked (record : Vector Byte CREDENTIALS_ARR_SIZE) : Prop :=
  crc16 (record.toList.take (recordLen record)) = 0#16

instance (record : Vector Byte CREDENTIALS_ARR_SIZE) : Decidable (Checked record) :=
  inferInstanceAs (Decidable (_ = _))

/-- A record that may be used. -/
structure GoodRecord (record : Vector Byte CREDENTIALS_ARR_SIZE) : Prop where
  min : 5 ≤ recordLen record
  max : recordLen record ≤ 64
  checked : Checked record

/-- A string's record that does no harm. -/
structure HarmlessString (record : Vector Byte CREDENTIALS_ARR_SIZE) : Prop where
  max : recordLen record ≤ 64
  min : Checked record → 5 ≤ recordLen record

/-- The bytes of the port's record that are copied. -/
def portField (record : Vector Byte CREDENTIALS_ARR_SIZE) : List Byte :=
  (record.toList.drop 2).take (recordLen record - 3)

/-- A port's record that does no harm: where it is good, it holds the text of a number. -/
structure HarmlessPort (record : Vector Byte CREDENTIALS_ARR_SIZE) : Prop extends HarmlessString record where
  fits : Checked record → recordLen record ≤ 13
  number : Checked record → ∃ text x, CString.read (portField record) = some text ∧ stoi text = some x

namespace LogHandler

/-- The record `i` that `fetchCredentials` reads. -/
def recordAt (h : LogHandler) (e : Eeprom) (i : ℕ) : Vector Byte CREDENTIALS_ARR_SIZE :=
  e.read_page (h.currentCommConfigAddr + CREDENTIALS_ARR_SIZE * i) CREDENTIALS_ARR_SIZE

/-- Only a good record has its flag set and its output changed. -/
def Fetched {α : Type} (record : Vector Byte CREDENTIALS_ARR_SIZE) (old new : α) (flag : ℤ) : Prop :=
  GoodRecord record ∨ flag = 0 ∧ new = old

/-- What should be so after `fetchCredentials`. -/
structure FetchedRight (h : LogHandler) (e : Eeprom) (out out' : CredentialBuffers) : Prop where
  ssid : Fetched (h.recordAt e 0) out.ssid out'.ssid (out'.arr.get 0)
  password : Fetched (h.recordAt e 1) out.password out'.password (out'.arr.get 1)
  hostname : Fetched (h.recordAt e 2) out.hostname out'.hostname (out'.arr.get 2)
  port : Fetched (h.recordAt e 3) out.port out'.port (out'.arr.get 3)

/-! ### A string -/

variable {dst : Vector Byte 64}

/-- The CRC of a record that is too long cannot be computed. -/
theorem verify_too_long (h : 64 < recordLen record) : verifyDataIntegrity record (recordLen record) = none := by
  rw [verifyDataIntegrity, Buffer.load, if_neg (by exact (by omega : ¬ 0 + recordLen record ≤ 64))]
  rfl

theorem verify_record (h : recordLen record ≤ 64) :
    verifyDataIntegrity record (recordLen record) = some (decide (Checked record)) := verify_take h

/-- First the CRC, then the copy. -/
theorem fetchString_bind (record : Vector Byte CREDENTIALS_ARR_SIZE) (dst : Vector Byte 64) :
    fetchString record dst = (verifyDataIntegrity record (recordLen record)).bind fun ok =>
      if ok then
        (Buffer.load record 2 (recordLen record - 4)).bind fun text =>
        (Buffer.store dst 0 text).bind fun dst => some (dst, 1)
      else some (dst, 0) := rfl

/-- A record that passes is copied, and the flag set. -/
theorem fetchString_checked (h : recordLen record ≤ 64) (hc : Checked record) (dst : Vector Byte 64) :
    ∃ dst', fetchString record dst = some (dst', 1) := by
  have hload : Buffer.load record 2 (recordLen record - 4) = some ((record.toList.drop 2).take (recordLen record - 4)) :=
    Buffer.load_eq_some (by exact (by omega : 2 + (recordLen record - 4) ≤ 64))
  obtain ⟨dst', hdst⟩ := Buffer.store_isSome dst (i := 0) ((record.toList.drop 2).take (recordLen record - 4))
    (by rw [List.length_take, List.length_drop, Vector.length_toList]; exact (by omega :
      0 + min (recordLen record - 4) (64 - 2) ≤ 64))
  refine ⟨dst', ?_⟩
  have hverify := verify_record h
  rw [decide_eq_true hc] at hverify
  rw [fetchString_bind, hverify, Option.bind_some, if_pos rfl, hload, Option.bind_some, hdst, Option.bind_some]

theorem fetchString_unchecked (h : recordLen record ≤ 64) (hc : ¬ Checked record) (dst : Vector Byte 64) :
    fetchString record dst = some (dst, 0) := by
  have hverify := verify_record h
  rw [decide_eq_false hc] at hverify
  rw [fetchString_bind, hverify, Option.bind_some, if_neg (by decide)]

theorem fetchString_too_long (h : 64 < recordLen record) (dst : Vector Byte 64) : fetchString record dst = none := by
  rw [fetchString_bind, verify_too_long h, Option.bind_none]

/-- Fetching a string is right exactly if its record does no harm. -/
theorem fetchString_right_iff (record : Vector Byte CREDENTIALS_ARR_SIZE) (dst : Vector Byte 64) :
    (∃ dst' flag, fetchString record dst = some (dst', flag) ∧ Fetched record dst dst' flag) ↔
      HarmlessString record := by
  constructor
  · rintro ⟨dst', flag, hfetch, hright⟩
    have hmax : recordLen record ≤ 64 := by
      by_contra hlong
      rw [fetchString_too_long (by omega)] at hfetch
      cases hfetch
    refine ⟨hmax, fun hc => ?_⟩
    obtain ⟨d, hd⟩ := fetchString_checked hmax hc dst
    rw [hd, Option.some.injEq, Prod.mk.injEq] at hfetch
    rcases hright with hgood | ⟨hflag, -⟩
    · exact hgood.min
    · rw [← hfetch.2] at hflag
      cases hflag
  · intro h
    by_cases hc : Checked record
    · obtain ⟨d, hd⟩ := fetchString_checked h.max hc dst
      exact ⟨d, 1, hd, .inl ⟨h.min hc, h.max, hc⟩⟩
    · exact ⟨dst, 0, fetchString_unchecked h.max hc dst, .inr ⟨rfl, rfl⟩⟩

/-! ### The port -/

theorem length_portField (h : recordLen record ≤ 64) : (portField record).length = recordLen record - 3 := by
  rw [portField, List.length_take, List.length_drop, Vector.length_toList]
  exact (by omega : min (recordLen record - 3) (64 - 2) = recordLen record - 3)

/-- The port is read out of an array that its text is copied to. -/
theorem fetchPort_bind (record : Vector Byte CREDENTIALS_ARR_SIZE) (array : Vector Byte 10) (port : ℤ) :
    fetchPort record array port = (verifyDataIntegrity record (recordLen record)).bind fun ok =>
      if ok then
        (size? ((recordLen record : ℤ) - 3)).bind fun len =>
        (Buffer.load record 2 len).bind fun text =>
        (Buffer.store array 0 text).bind fun array =>
        (CString.read array.toList).bind fun text =>
        (stoi text).bind fun port => some (port, 1)
      else some (port, 0) := rfl

theorem fetchPort_too_long (h : 64 < recordLen record) (array : Vector Byte 10) (port : ℤ) :
    fetchPort record array port = none := by
  rw [fetchPort_bind, verify_too_long h, Option.bind_none]

theorem fetchPort_unchecked (h : recordLen record ≤ 64) (hc : ¬ Checked record) (array : Vector Byte 10)
    (port : ℤ) : fetchPort record array port = some (port, 0) := by
  have hverify := verify_record h
  rw [decide_eq_false hc] at hverify
  rw [fetchPort_bind, hverify, Option.bind_some, if_neg (by decide)]

/-- What becomes of the port's text when its record passes. -/
theorem fetchPort_checked (h : recordLen record ≤ 64) (h3 : 3 ≤ recordLen record) (hc : Checked record)
    (array : Vector Byte 10) (port : ℤ) : fetchPort record array port = (do
      let array ← Buffer.store array 0 (portField record)
      pure (← stoi (← CString.read array.toList), 1)) := by
  have hverify := verify_record h
  rw [decide_eq_true hc] at hverify
  have hsize : size? ((recordLen record : ℤ) - 3) = some (recordLen record - 3) := size?_eq (by omega)
  have hload : Buffer.load record 2 (recordLen record - 3) = some (portField record) :=
    Buffer.load_eq_some (by exact (by omega : 2 + (recordLen record - 3) ≤ 64))
  rw [fetchPort_bind, hverify, Option.bind_some, if_pos rfl, hsize, Option.bind_some, hload, Option.bind_some]
  rfl

/-- Then the flag is set. -/
theorem flag_of_fetchPort {array : Vector Byte 10} {port port' flag : ℤ} (h : recordLen record ≤ 64)
    (hc : Checked record) (hfetch : fetchPort record array port = some (port', flag)) : flag = 1 := by
  have hverify := verify_record h
  rw [decide_eq_true hc] at hverify
  rw [fetchPort_bind, hverify, Option.bind_some, if_pos rfl] at hfetch
  obtain ⟨_, -, hfetch⟩ := Option.bind_eq_some_iff.mp hfetch
  obtain ⟨_, -, hfetch⟩ := Option.bind_eq_some_iff.mp hfetch
  obtain ⟨_, -, hfetch⟩ := Option.bind_eq_some_iff.mp hfetch
  obtain ⟨_, -, hfetch⟩ := Option.bind_eq_some_iff.mp hfetch
  obtain ⟨_, -, hfetch⟩ := Option.bind_eq_some_iff.mp hfetch
  exact (Prod.mk.inj (Option.some.inj hfetch)).2.symm

/-- Fetching the port is right, whatever the array held before, exactly if the
record does no harm. -/
theorem fetchPort_right_iff (record : Vector Byte CREDENTIALS_ARR_SIZE) (port : ℤ) :
    (∀ array, ∃ port' flag, fetchPort record array port = some (port', flag) ∧ Fetched record port port' flag) ↔
      HarmlessPort record := by
  constructor
  · intro hright
    -- a NUL has to come from the record
    obtain ⟨port', flag, hfetch, hfetched⟩ := hright (.replicate 10 1)
    have hmax : recordLen record ≤ 64 := by
      by_contra hlong
      rw [fetchPort_too_long (by omega)] at hfetch
      cases hfetch
    by_cases hc : Checked record
    · have hgood : GoodRecord record := by
        rcases hfetched with hgood | ⟨rfl, -⟩
        · exact hgood
        · exact absurd (flag_of_fetchPort hmax hc hfetch) (by decide)
      rw [fetchPort_checked hmax (by have := hgood.min; omega) hc] at hfetch
      obtain ⟨array', hstore, hfetch⟩ := Option.bind_eq_some_iff.mp hfetch
      obtain ⟨text, hread, hfetch⟩ := Option.bind_eq_some_iff.mp hfetch
      obtain ⟨x, hx, -⟩ := Option.bind_eq_some_iff.mp hfetch
      obtain ⟨hfits, hbytes⟩ := Buffer.toList_store hstore
      rw [length_portField hmax] at hfits
      refine ⟨⟨hmax, fun _ => hgood.min⟩, fun _ => by omega, fun _ => ⟨text, x, ?_, hx⟩⟩
      rw [List.take_zero, List.nil_append] at hbytes
      rw [hbytes] at hread
      refine CString.read_of_append (fun h0 => ?_) hread
      have hone := List.mem_of_mem_drop h0
      rw [Vector.toList_replicate] at hone
      exact absurd (List.eq_of_mem_replicate hone) (by decide)
    · exact ⟨⟨hmax, fun h => absurd h hc⟩, fun h => absurd h hc, fun h => absurd h hc⟩
  · intro h array
    by_cases hc : Checked record
    · obtain ⟨text, x, hread, hx⟩ := h.number hc
      have hmin := h.min hc
      have hfits := h.fits hc
      obtain ⟨array', hstore⟩ := Buffer.store_isSome array (i := 0) (portField record)
        (by rw [length_portField h.max]; omega)
      have hread' : CString.read array'.toList = some text := by
        rw [(Buffer.toList_store hstore).2, List.take_zero, List.nil_append]
        exact CString.read_append_left hread _
      refine ⟨x, 1, ?_, .inl ⟨hmin, h.max, hc⟩⟩
      rw [fetchPort_checked h.max (by omega) hc, Machine.bind_of hstore, Machine.bind_of hread', Machine.bind_of hx]
      rfl
    · exact ⟨port, 0, fetchPort_unchecked h.max hc array port, .inr ⟨rfl, rfl⟩⟩

/-! ### All four records -/

/-- The records are fetched one by one. -/
theorem fetchCredentials_eq (h : LogHandler) (e : Eeprom) (array : Vector Byte 10) (out : CredentialBuffers) :
    h.fetchCredentials e array out =
      (fetchString (h.recordAt e 0) out.ssid).bind fun p₀ =>
      (fetchString (h.recordAt e 1) out.password).bind fun p₁ =>
      (fetchString (h.recordAt e 2) out.hostname).bind fun p₂ =>
      (fetchPort (h.recordAt e 3) array out.port).bind fun p₃ =>
        some ⟨p₀.1, p₁.1, p₂.1, p₃.1, #v[p₀.2, p₁.2, p₂.2, p₃.2]⟩ := rfl

theorem fetchCredentials_right_iff (h : LogHandler) (e : Eeprom) (array : Vector Byte 10) (out : CredentialBuffers) :
    (∃ out', h.fetchCredentials e array out = some out' ∧ h.FetchedRight e out out') ↔
      (∃ dst flag, fetchString (h.recordAt e 0) out.ssid = some (dst, flag) ∧
        Fetched (h.recordAt e 0) out.ssid dst flag) ∧
      (∃ dst flag, fetchString (h.recordAt e 1) out.password = some (dst, flag) ∧
        Fetched (h.recordAt e 1) out.password dst flag) ∧
      (∃ dst flag, fetchString (h.recordAt e 2) out.hostname = some (dst, flag) ∧
        Fetched (h.recordAt e 2) out.hostname dst flag) ∧
      ∃ port flag, fetchPort (h.recordAt e 3) array out.port = some (port, flag) ∧
        Fetched (h.recordAt e 3) out.port port flag := by
  constructor
  · rintro ⟨out', hfetch, hright⟩
    rw [fetchCredentials_eq] at hfetch
    obtain ⟨⟨d₀, f₀⟩, h₀, hfetch⟩ := Option.bind_eq_some_iff.mp hfetch
    obtain ⟨⟨d₁, f₁⟩, h₁, hfetch⟩ := Option.bind_eq_some_iff.mp hfetch
    obtain ⟨⟨d₂, f₂⟩, h₂, hfetch⟩ := Option.bind_eq_some_iff.mp hfetch
    obtain ⟨⟨p, f₃⟩, h₃, hfetch⟩ := Option.bind_eq_some_iff.mp hfetch
    obtain rfl := Option.some.inj hfetch
    exact ⟨⟨d₀, f₀, h₀, hright.ssid⟩, ⟨d₁, f₁, h₁, hright.password⟩, ⟨d₂, f₂, h₂, hright.hostname⟩,
      ⟨p, f₃, h₃, hright.port⟩⟩
  · rintro ⟨⟨d₀, f₀, h₀, r₀⟩, ⟨d₁, f₁, h₁, r₁⟩, ⟨d₂, f₂, h₂, r₂⟩, ⟨p, f₃, h₃, r₃⟩⟩
    refine ⟨⟨d₀, d₁, d₂, p, #v[f₀, f₁, f₂, f₃]⟩, ?_, ⟨r₀, r₁, r₂, r₃⟩⟩
    rw [fetchCredentials_eq, h₀, Option.bind_some, h₁, Option.bind_some, h₂, Option.bind_some, h₃, Option.bind_some]

/-- Buffers that hold nothing. -/
def blankBuffers : CredentialBuffers :=
  ⟨.replicate 64 0, .replicate 64 0, .replicate 64 0, 0, .replicate 4 0⟩

/-- **When fetching is safe.** Whatever the arrays held before, nothing is read
or written outside of them, `stoi` does not throw, and only good records change
anything, exactly if none of the four records does harm. -/
theorem fetch_safe_iff (h : LogHandler) (e : Eeprom) :
    (∀ array out, ∃ out', h.fetchCredentials e array out = some out' ∧ h.FetchedRight e out out') ↔
      HarmlessString (h.recordAt e 0) ∧ HarmlessString (h.recordAt e 1) ∧ HarmlessString (h.recordAt e 2) ∧
        HarmlessPort (h.recordAt e 3) := by
  simp only [fetchCredentials_right_iff, fetchString_right_iff]
  constructor
  · intro hright
    obtain ⟨h₀, h₁, h₂, -⟩ := hright (.replicate 10 0) blankBuffers
    exact ⟨h₀, h₁, h₂, (fetchPort_right_iff _ blankBuffers.port).mp fun array => (hright array blankBuffers).2.2.2⟩
  · rintro ⟨h₀, h₁, h₂, h₃⟩ array out
    exact ⟨h₀, h₁, h₂, (fetchPort_right_iff _ out.port).mpr h₃ array⟩

/-- A first record that is too long. -/
theorem fetchCredentials_too_long {h : LogHandler} {e : Eeprom} (hlong : 64 < recordLen (h.recordAt e 0))
    (array : Vector Byte 10) (out : CredentialBuffers) : h.fetchCredentials e array out = none := by
  rw [fetchCredentials_eq, fetchString_too_long hlong, Option.bind_none]

theorem recordLen_blank (h : LogHandler) (i : ℕ) : recordLen (h.recordAt (fun _ => 0xFF) i) = 255 := by
  have hbyte : (h.recordAt (fun _ => 0xFF) i).get 1 = 0xFF := by
    simp [recordAt, Eeprom.read_page, Vector.get]
  show ((h.recordAt (fun _ => 0xFF) i).get 1).toNat = 255
  rw [hbyte]
  rfl

/-- A blank chip: the length of each record is 255, and the CRC is computed over the end of the array. -/
theorem blank_chip_overruns : (LogHandler.new fun _ => 0xFF).2.fetchCredentials (fun _ => 0xFF) (.replicate 10 0)
    blankBuffers = none :=
  fetchCredentials_too_long (by rw [recordLen_blank]; decide) _ _

end LogHandler
end Ventilation
