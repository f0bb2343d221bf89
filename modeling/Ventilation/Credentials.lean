/-
# The network credentials in the EEPROM (src/logHandler.cpp)

`storeCredentials` writes four records into four slots of 64 bytes and
`fetchCredentials` reads them back. The SSID's record is written without its
CRC, so that whether it is read back depends on what the EEPROM held there
before; the records of the password and the host name have room for 59
characters, though 60 are accepted; and a port text of more than 8 characters
overruns an array of 10 bytes. What should come back is `RoundTrips`; a record
is taken out of its slot exactly if it stands there with its CRC
(`fetchString_eq`, `checked_of_fetchString` and the same for the port).
-/
import Mathlib.Data.List.Basic
import Ventilation.Lib.Decimal
import Ventilation.Lib.Machine
import Ventilation.LogHandler

namespace Ventilation

open CInt

/-- What the arrays of `storeCredentials` hold before anything is written. -/
structure CredentialArrays where
  portStr : Vector Byte 10
  ssidArr : Vector Byte CREDENTIALS_ARR_SIZE
  passwordArr : Vector Byte CREDENTIALS_ARR_SIZE
  hostnameArr : Vector Byte CREDENTIALS_ARR_SIZE
  portArr : Vector Byte CREDENTIALS_ARR_SIZE

/-- What the caller of `fetchCredentials` passes, and gets back. -/
structure CredentialBuffers where
  ssid : Vector Byte 64
  password : Vector Byte 64
  hostname : Vector Byte 64
  port : ℤ
  arr : Vector ℤ 4

/-- `createCredentialArray`, with the length it returns. -/
def createCredentialArray (str : List Byte) (arr : Vector Byte CREDENTIALS_ARR_SIZE) :
    Option (Vector Byte CREDENTIALS_ARR_SIZE × ℤ) :=
  if 60 < str.length then some (arr, -1)
  else do
    let arr ← Buffer.store arr 0 [1, .ofNat 8 (str.length + 5)]
    let arr ← Buffer.store arr 2 (str ++ [0])
    pure (arr, (str.length + 3 : ℕ))

/-- White space, as `isspace` has it. -/
def isspace (b : Byte) : Bool := b = 32 ∨ (9 ≤ b.toNat ∧ b.toNat ≤ 13)

/-- `std::stoi`; it throws where there is no number, or none of an `int`. -/
def stoi (str : List Byte) : Option ℤ := do
  let x ← Decimal.scan (str.dropWhile isspace)
  signed? 32 x

namespace LogHandler

/-- The page written for a record of which `len` bytes are used. -/
def recordPage (address : ℕ) (arr : Vector Byte CREDENTIALS_ARR_SIZE) (len : ℤ) : Option EepromWrite := do
  pure (eeprom_write_page address (← Buffer.load arr 0 (← size? len)))

/-- The four pages that `storeCredentials` writes from `address` on. -/
def credentialPages (address : ℕ) (mem : CredentialArrays) (ssid password hostname : CString)
    (port : ℤ) : Option (List EepromWrite) := do
  let portStr ← Buffer.store mem.portStr 0 (Decimal.intText port ++ [0])
  let (ssidArr, ssidLen) ← createCredentialArray ssid.chars mem.ssidArr
  let (passwordArr, pwLen) ← createCredentialArray password.chars mem.passwordArr
  let (hostnameArr, hostnameLen) ← createCredentialArray hostname.chars mem.hostnameArr
  let (portArr, portLen) ← createCredentialArray (← CString.read portStr.toList) mem.portArr
  -- the SSID's call of `appendCrcToBase8Array` stands inside a comment
  let (passwordArr, pwLen) ← appendCrcToBase8Array passwordArr pwLen
  let (hostnameArr, hostnameLen) ← appendCrcToBase8Array hostnameArr hostnameLen
  let (portArr, portLen) ← appendCrcToBase8Array portArr portLen
  let w₀ ← recordPage (address + CREDENTIALS_ARR_SIZE * 0) ssidArr ssidLen
  let w₁ ← recordPage (address + CREDENTIALS_ARR_SIZE * 1) passwordArr pwLen
  let w₂ ← recordPage (address + CREDENTIALS_ARR_SIZE * 2) hostnameArr hostnameLen
  let w₃ ← recordPage (address + CREDENTIALS_ARR_SIZE * 3) portArr portLen
  pure [w₀, w₁, w₂, w₃]

def storeCredentials (h : LogHandler) (mem : CredentialArrays) (ssid password hostname : CString)
    (port : ℤ) : Option (List EepromWrite × LogHandler) :=
  if 60 < ssid.strlen ∨ 60 < password.strlen ∨ 60 < hostname.strlen then some ([], h)
  else do
    let pages ← credentialPages h.unusedCommConfigAddr mem ssid password hostname port
    let (ws, h) := h.incrementUnusedLogIndex .COMM_CONFIG
    pure (pages ++ ws, h)

/-- How `fetchCredentials` takes one of the strings out of its record, with the flag. -/
def fetchString (record : Vector Byte CREDENTIALS_ARR_SIZE) (dst : Vector Byte 64) :
    Option (Vector Byte 64 × ℤ) := do
  let len := (record.get 1).toNat
  if ← verifyDataIntegrity record len then
    let dst ← Buffer.store dst 0 (← Buffer.load record 2 (len - 4))
    pure (dst, 1)
  else pure (dst, 0)

/-- How it takes the port, over an array of 10 bytes. -/
def fetchPort (record : Vector Byte CREDENTIALS_ARR_SIZE) (array : Vector Byte 10) (port : ℤ) :
    Option (ℤ × ℤ) := do
  let len := (record.get 1).toNat
  if ← verifyDataIntegrity record len then
    let array ← Buffer.store array 0 (← Buffer.load record 2 (← size? ((len : ℤ) - 3)))
    pure (← stoi (← CString.read array.toList), 1)
  else pure (port, 0)

def fetchCredentials (h : LogHandler) (e : Eeprom) (array : Vector Byte 10) (out : CredentialBuffers) :
    Option CredentialBuffers := do
  let page (i : ℕ) := e.read_page (h.currentCommConfigAddr + CREDENTIALS_ARR_SIZE * i) CREDENTIALS_ARR_SIZE
  let (ssid, ok₀) ← fetchString (page 0) out.ssid
  let (password, ok₁) ← fetchString (page 1) out.password
  let (hostname, ok₂) ← fetchString (page 2) out.hostname
  let (port, ok₃) ← fetchPort (page 3) array out.port
  pure ⟨ssid, password, hostname, port, #v[ok₀, ok₁, ok₂, ok₃]⟩

end LogHandler

/-! ### What should come back -/

/-- A string that `storeCredentials` accepts. -/
structure Credential extends CString where
  accepted : chars.length ≤ 60

/-- A write inside the slot of record `i`. -/
def EepromWrite.InSlot (w : EepromWrite) (i : ℕ) : Prop :=
  CREDENTIALS_USE_ADDR + CREDENTIALS_ARR_SIZE * i ≤ w.addr ∧
    w.addr + w.data.length ≤ CREDENTIALS_USE_ADDR + CREDENTIALS_ARR_SIZE * (i + 1)

namespace LogHandler

/-- `fetchCredentials` sets all flags and gives these credentials, whatever its
arrays held before. -/
def Returns (h : LogHandler) (e : Eeprom) (ssid password hostname : Credential) (port : ℤ) : Prop :=
  ∀ array out, ∃ out', h.fetchCredentials e array out = some out' ∧ out'.arr = #v[1, 1, 1, 1] ∧
    CString.read out'.ssid.toList = some ssid.chars ∧
    CString.read out'.password.toList = some password.chars ∧
    CString.read out'.hostname.toList = some hostname.chars ∧ out'.port = port

/-- Storing stays inside its arrays and slots, and then the credentials come
back, from this handler and from a new one. -/
def RoundTrips (h : LogHandler) (e : Eeprom) (mem : CredentialArrays)
    (ssid password hostname : Credential) (port : ℤ) : Prop :=
  ∃ ws h', h.storeCredentials mem ssid.toCString password.toCString hostname.toCString port =
      some (ws, h') ∧
    List.Forall₂ EepromWrite.InSlot ws [0, 1, 2, 3] ∧
    h'.Returns (e.writes ws) ssid password hostname port ∧
    (new (e.writes ws)).2.Returns ((e.writes ws).writes (new (e.writes ws)).1)
      ssid password hostname port

end LogHandler

/-! ### A record -/

/-- What `createCredentialArray` writes. -/
def recordBytes (str : List Byte) : List Byte := [1, .ofNat 8 (str.length + 5)] ++ (str ++ [0])

/-- The record with its CRC. -/
def checkedBytes (str : List Byte) : List Byte :=
  recordBytes str ++
    [(crc16 (recordBytes str) >>> 8).setWidth 8, (crc16 (recordBytes str)).setWidth 8]

theorem length_recordBytes (str : List Byte) : (recordBytes str).length = str.length + 3 := by
  simp only [recordBytes, List.length_append, List.length_cons, List.length_nil]
  omega

theorem length_checkedBytes (str : List Byte) : (checkedBytes str).length = str.length + 5 := by
  rw [checkedBytes, List.length_append, length_recordBytes]
  rfl

theorem recordBytes_prefix_checked (str : List Byte) : recordBytes str <+: checkedBytes str :=
  List.prefix_append _ _

variable {arr page : Vector Byte CREDENTIALS_ARR_SIZE} {str : List Byte}

theorem createCredentialArray_eq (h : str.length ≤ 60) (arr : Vector Byte CREDENTIALS_ARR_SIZE) :
    ∃ arr', createCredentialArray str arr = some (arr', ((recordBytes str).length : ℤ)) ∧
      recordBytes str <+: arr'.toList := by
  obtain ⟨arr₁, h₁⟩ := Buffer.store_isSome arr (i := 0) [1, .ofNat 8 (str.length + 5)]
    (by decide : 0 + 2 ≤ 64)
  obtain ⟨arr₂, h₂⟩ := Buffer.store_isSome arr₁ (i := 2) (str ++ [0])
    (by rw [List.length_append, List.length_singleton]; exact (by omega : 2 + (str.length + 1) ≤ 64))
  refine ⟨arr₂, ?_, Buffer.prefix_store (Buffer.prefix_store List.nil_prefix h₁) h₂⟩
  rw [createCredentialArray, if_neg (by omega), Machine.bind_of h₁, Machine.bind_of h₂,
    length_recordBytes]
  rfl

/-- The CRC needs two more bytes. -/
theorem appendCrc_eq (h : recordBytes str <+: arr.toList) (hlen : str.length ≤ 59) :
    ∃ arr', appendCrcToBase8Array arr (recordBytes str).length =
        some (arr', ((checkedBytes str).length : ℤ)) ∧
      checkedBytes str <+: arr'.toList :=
  appendCrcToBase8Array_eq h (by rw [length_recordBytes]; exact (by omega : str.length + 3 + 2 ≤ 64))

theorem length_of_appendCrc {r : Vector Byte CREDENTIALS_ARR_SIZE × ℤ}
    (h : appendCrcToBase8Array arr (recordBytes str).length = some r) : str.length ≤ 59 := by
  simp only [appendCrcToBase8Array, bind, Option.bind_eq_some_iff] at h
  obtain ⟨len, hlen, data, -, arr', h', -⟩ := h
  obtain rfl : len = (recordBytes str).length := by
    rw [size?_eq rfl, Option.some.injEq] at hlen
    exact hlen.symm
  have hle := (Buffer.toList_store h').1
  rw [length_recordBytes] at hle
  exact (by omega : str.length + 3 + 2 ≤ 64 → str.length ≤ 59) hle

theorem recordPage_eq {address : ℕ} {d : List Byte} (h : d <+: arr.toList) :
    LogHandler.recordPage address arr d.length = some (eeprom_write_page address d) := by
  rw [LogHandler.recordPage, Machine.bind_of (size?_eq rfl), Machine.bind_of (Buffer.load_of_prefix h)]
  rfl

/-! ### Reading a record -/

theorem record_length (h : recordBytes str <+: page.toList) (hlen : str.length ≤ 60) :
    (page.get 1).toNat = str.length + 5 := by
  obtain ⟨rest, hrest⟩ := h
  have hget : page.get 1 = .ofNat 8 (str.length + 5) := by
    have hi : page.toList[1]? = some (page.get 1) := by
      rw [Vector.getElem?_toList, Vector.getElem?_eq_getElem (by decide)]
      rfl
    rw [← hrest] at hi
    exact (Option.some.inj hi).symm
  rw [hget, BitVec.toNat_ofNat, Nat.mod_eq_of_lt (by omega)]

/-- The CRC of a record is found right if it is its own. -/
theorem verify_iff (h : recordBytes str <+: page.toList) :
    verifyDataIntegrity page (str.length + 5) = some true ↔ checkedBytes str <+: page.toList := by
  rw [← length_checkedBytes]
  constructor
  · intro hv
    simp only [verifyDataIntegrity, bind, Option.bind_eq_some_iff, pure, Option.some.injEq,
      decide_eq_true_iff] at hv
    obtain ⟨data, hload, hcrc⟩ := hv
    obtain ⟨hpre, hlen⟩ := Buffer.prefix_of_load hload
    obtain ⟨tail, rfl⟩ : recordBytes str <+: data :=
      List.prefix_of_prefix_length_le h hpre (by rw [hlen]; exact (recordBytes_prefix_checked str).length_le)
    rw [List.length_append, length_recordBytes, length_checkedBytes] at hlen
    obtain ⟨a, b, rfl⟩ := List.length_eq_two.mp (by omega : tail.length = 2)
    obtain ⟨rfl, rfl⟩ := (crc16_append_eq_zero_iff _ a b).mp hcrc
    exact hpre
  · intro hc
    rw [verifyDataIntegrity, Machine.bind_of (Buffer.load_of_prefix hc)]
    have hcrc : crc16 (checkedBytes str) = 0#16 := (crc16_append_eq_zero_iff _ _ _).mpr ⟨rfl, rfl⟩
    rw [hcrc]
    rfl

/-- The text of a record with its NUL. -/
theorem load_text (h : recordBytes str <+: page.toList) {k : ℕ} (hk : str.length + 3 + k ≤ 64) :
    ∃ rest, rest.length = k ∧ Buffer.load page 2 (str.length + 1 + k) = some (str ++ [0] ++ rest) := by
  obtain ⟨rest, hrest⟩ := h
  have hlen : str.length + 3 + rest.length = 64 := by
    rw [← length_recordBytes, ← List.length_append, hrest, Vector.length_toList]
  refine ⟨rest.take k, by rw [List.length_take]; omega, ?_⟩
  have htext : (recordBytes str ++ rest).drop 2 = str ++ [0] ++ rest := by
    rw [recordBytes, List.append_assoc]
    exact List.drop_left' rfl
  rw [Buffer.load_eq_some (by exact (by omega : 2 + (str.length + 1 + k) ≤ 64)), ← hrest, htext,
    ← List.take_length_add_append, List.length_append, List.length_singleton]

/-- A C string stored at the front of an array is read from it. -/
theorem read_store {n : ℕ} {b b' : Vector Byte n} {s : CString} {rest : List Byte}
    (h : Buffer.store b 0 (s.bytes ++ rest) = some b') : CString.read b'.toList = some s.chars := by
  obtain ⟨tail, htail⟩ := Buffer.prefix_store List.nil_prefix h
  rw [← htail, List.nil_append, List.append_assoc]
  exact CString.read_append s _

variable {s : CString} {dst dst' : Vector Byte 64} {array : Vector Byte 10}

theorem length_of_checked (h : checkedBytes str <+: page.toList) : str.length ≤ 59 := by
  have hle := h.length_le
  rw [length_checkedBytes, Vector.length_toList] at hle
  exact (by omega : str.length + 5 ≤ 64 → str.length ≤ 59) hle

theorem fetchString_eq (h : checkedBytes s.chars <+: page.toList) (dst : Vector Byte 64) :
    ∃ dst', LogHandler.fetchString page dst = some (dst', 1) ∧
      CString.read dst'.toList = some s.chars := by
  have hr := (recordBytes_prefix_checked s.chars).trans h
  have hlen := length_of_checked h
  obtain ⟨rest, hrest, hload⟩ := load_text hr (k := 0) (by omega)
  obtain rfl := List.eq_nil_of_length_eq_zero hrest
  obtain ⟨dst', hdst⟩ := Buffer.store_isSome dst (i := 0) (s.bytes ++ [])
    (by rw [List.append_nil, CString.length_bytes, CString.strlen]; omega)
  refine ⟨dst', ?_, read_store hdst⟩
  rw [LogHandler.fetchString]
  rw [record_length hr (by omega), Machine.bind_of ((verify_iff hr).mpr h), if_pos rfl,
    show s.chars.length + 5 - 4 = s.chars.length + 1 + 0 by omega, Machine.bind_of hload,
    ← CString.bytes, Machine.bind_of hdst]
  rfl

theorem checked_of_fetchString (hr : recordBytes str <+: page.toList) (hlen : str.length ≤ 60)
    (h : LogHandler.fetchString page dst = some (dst', 1)) : checkedBytes str <+: page.toList := by
  simp only [LogHandler.fetchString, record_length hr hlen, bind, Option.bind_eq_some_iff] at h
  obtain ⟨ok, hok, h⟩ := h
  cases ok with
  | true => exact (verify_iff hr).mp hok
  | false => cases h

theorem fetchPort_eq (h : checkedBytes s.chars <+: page.toList) (hlen : s.chars.length ≤ 8)
    {x : ℤ} (hx : stoi s.chars = some x) (array : Vector Byte 10) (port : ℤ) :
    LogHandler.fetchPort page array port = some (x, 1) := by
  have hr := (recordBytes_prefix_checked s.chars).trans h
  obtain ⟨rest, hrest, hload⟩ := load_text hr (k := 1) (by omega)
  obtain ⟨array', harray⟩ := Buffer.store_isSome array (i := 0) (s.bytes ++ rest)
    (by rw [List.length_append, CString.length_bytes, CString.strlen, hrest]; omega)
  rw [LogHandler.fetchPort]
  rw [record_length hr (by omega), Machine.bind_of ((verify_iff hr).mpr h), if_pos rfl,
    Machine.bind_of (size?_eq (by omega : ((s.chars.length + 5 : ℕ) : ℤ) - 3 =
      (s.chars.length + 1 + 1 : ℕ))), Machine.bind_of hload,
    ← CString.bytes, Machine.bind_of harray, Machine.bind_of (read_store harray), Machine.bind_of hx]
  rfl

/-- The array has room for 8 characters, a NUL, and the byte of the CRC copied with them. -/
theorem checked_of_fetchPort (hr : recordBytes str <+: page.toList) (hlen : str.length ≤ 59)
    {port x : ℤ} (h : LogHandler.fetchPort page array port = some (x, 1)) :
    checkedBytes str <+: page.toList ∧ str.length ≤ 8 := by
  simp only [LogHandler.fetchPort, record_length hr (by omega), bind, Option.bind_eq_some_iff] at h
  obtain ⟨ok, hok, h⟩ := h
  cases ok with
  | true =>
    simp only [if_true, Option.bind_eq_some_iff] at h
    obtain ⟨len, hsize, src, hsrc, array', harray, -⟩ := h
    rw [size?_eq (by omega : ((str.length + 5 : ℕ) : ℤ) - 3 = (str.length + 1 + 1 : ℕ)),
      Option.some.injEq] at hsize
    obtain ⟨rest, hrest, hload⟩ := load_text hr (k := 1) (by omega)
    rw [← hsize, hload, Option.some.injEq] at hsrc
    have hle := (Buffer.toList_store harray).1
    rw [← hsrc, List.length_append, List.length_append, hrest, List.length_singleton] at hle
    exact ⟨(verify_iff hr).mp hok, by omega⟩
  | false => cases h

/-- A port of at most 8 characters is an `int`. -/
theorem stoi_intText {port : ℤ} (h1 : -10 ^ 7 < port) (h2 : port < 10 ^ 8) :
    stoi (Decimal.intText port) = some port := by
  have hspace : (Decimal.intText port).dropWhile isspace = Decimal.intText port := by
    rcases htext : Decimal.intText port with _ | ⟨b, l⟩
    · rfl
    · refine List.dropWhile_cons_of_neg fun hb => ?_
      rcases Decimal.mem_intText (htext ▸ List.mem_cons_self : b ∈ Decimal.intText port) with hd | rfl
      · unfold isspace Decimal.isDigit at *
        rw [decide_eq_true_iff] at hb hd
        rcases hb with rfl | hb
        · exact absurd hd (by decide)
        · omega
      · exact absurd hb (by decide)
  have hnil : ∀ b, ([] : List Byte).head? = some b → Decimal.isDigit b = false := fun b hb => by cases hb
  have hscan := Decimal.scan_intText port hnil
  rw [List.append_nil] at hscan
  rw [stoi, hspace, Machine.bind_of hscan]
  exact signed?_eq (by omega) (by omega)

end Ventilation
