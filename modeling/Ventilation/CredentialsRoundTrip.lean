/-
# When the credentials come back

Each record goes to a slot of its own, so that after `storeCredentials` a slot
holds what its one write put there, over the old content. From that and what
the readers take out of a slot, `credentials_round_trip_iff`: the credentials
come back exactly if they are short enough and the EEPROM happened to hold the
CRC of the SSID's record behind it.
-/
import Mathlib.Data.List.Forall2
import Ventilation.Credentials

namespace Ventilation

open CInt

/-! ### The slots -/

/-- The slot of record `i`. -/
def slot (e : Eeprom) (i : ℕ) : Vector Byte CREDENTIALS_ARR_SIZE :=
  e.read_page (CREDENTIALS_USE_ADDR + CREDENTIALS_ARR_SIZE * i) CREDENTIALS_ARR_SIZE

theorem toUnsigned_slot {i : ℕ} (hi : i < 4) :
    toUnsigned 16 ((CREDENTIALS_USE_ADDR + CREDENTIALS_ARR_SIZE * i : ℕ) : ℤ) =
      CREDENTIALS_USE_ADDR + CREDENTIALS_ARR_SIZE * i := by
  unfold CREDENTIALS_USE_ADDR CREDENTIALS_ARR_SIZE
  rw [toUnsigned_natCast, Nat.mod_eq_of_lt (by omega)]

/-- The addresses of a slot. -/
def SlotAddr (i a : ℕ) : Prop :=
  CREDENTIALS_USE_ADDR + CREDENTIALS_ARR_SIZE * i ≤ a ∧
    a < CREDENTIALS_USE_ADDR + CREDENTIALS_ARR_SIZE * (i + 1)

theorem slotAddr_add (i : ℕ) {k : ℕ} (hk : k < 64) :
    SlotAddr i (CREDENTIALS_USE_ADDR + CREDENTIALS_ARR_SIZE * i + k) :=
  ⟨Nat.le_add_right _ _, (by omega : CREDENTIALS_USE_ADDR + 64 * i + k < CREDENTIALS_USE_ADDR + 64 * (i + 1))⟩

/-- A write in another slot. -/
theorem untouched_of_inSlot {w : EepromWrite} {i j a : ℕ} (hw : w.InSlot i) (hne : i ≠ j)
    (ha : SlotAddr j a) : Eeprom.Untouched w a := by
  obtain ⟨h1, h2⟩ := hw
  obtain ⟨h3, h4⟩ := ha
  unfold CREDENTIALS_ARR_SIZE at *
  rcases Nat.lt_or_ge i j with hlt | hge
  · exact .inr (by omega)
  · exact .inl (by omega)

/-- Of writes in different slots only its own matters to a slot. -/
theorem writes_slot {w : EepromWrite} {i a : ℕ} (ha : SlotAddr i a) : ∀ {ps : List (EepromWrite × ℕ)},
    (∀ p ∈ ps, p.1.InSlot p.2) → (ps.map Prod.snd).Nodup → (w, i) ∈ ps →
    ∀ e : Eeprom, e.writes (ps.map Prod.fst) a = e.write w a
  | [], _, _, hmem, _ => by cases hmem
  | (v, j) :: ps, hin, hnd, hmem, e => by
    obtain ⟨hj, hnd⟩ := List.nodup_cons.mp hnd
    have hrest : ∀ p ∈ ps, p.1.InSlot p.2 := fun p hp => hin p (List.mem_cons_of_mem _ hp)
    have hne : ∀ p ∈ ps, j ≠ p.2 := fun p hp he =>
      hj (List.mem_map.mpr ⟨p, hp, he.symm⟩)
    rcases List.mem_cons.mp hmem with he | hmem
    · obtain ⟨rfl, rfl⟩ := Prod.mk.inj he
      refine Eeprom.writes_untouched (fun u hu => ?_) (e.write w)
      obtain ⟨p, hp, rfl⟩ := List.mem_map.mp hu
      exact untouched_of_inSlot (hrest p hp) (hne p hp).symm ha
    · have hv := untouched_of_inSlot (hin _ List.mem_cons_self) (hne _ hmem) ha
      exact (writes_slot ha hrest hnd hmem (e.write v)).trans
        (Eeprom.write_congr (Eeprom.write_untouched hv e) w)

/-- What a slot begins with. -/
theorem prefix_slot_iff {e : Eeprom} {i : ℕ} (hi : i < 4) {d : List Byte} :
    d <+: (slot e i).toList ↔ d.length ≤ 64 ∧
      ∀ k x, d[k]? = some x → e (CREDENTIALS_USE_ADDR + CREDENTIALS_ARR_SIZE * i + k) = x := by
  have hget : ∀ k, k < 64 →
      (slot e i).toList[k]? = some (e (CREDENTIALS_USE_ADDR + CREDENTIALS_ARR_SIZE * i + k)) := by
    intro k hk
    rw [Vector.getElem?_toList, slot, Eeprom.read_page, toUnsigned_slot hi, Vector.getElem?_ofFn, dif_pos hk]
  constructor
  · intro h
    have hlen : d.length ≤ 64 := by
      have := h.length_le
      rwa [Vector.length_toList] at this
    refine ⟨hlen, fun k x hx => ?_⟩
    have hk : k < d.length := (List.getElem?_eq_some_iff.mp hx).1
    have hs := List.prefix_iff_getElem?.mp h k hk
    rw [hget k (by omega), ← List.getElem?_eq_getElem hk, hx] at hs
    exact Option.some.inj hs
  · rintro ⟨hlen, h⟩
    rw [List.prefix_iff_getElem?]
    intro k hk
    rw [hget k (by omega), h k _ (List.getElem?_eq_getElem hk)]

variable {e e' : Eeprom} {h h' : LogHandler}

theorem slot_addr {i : ℕ} (hi : i < 4) (d : List Byte) :
    (eeprom_write_page (CREDENTIALS_USE_ADDR + CREDENTIALS_ARR_SIZE * i) d).addr =
      CREDENTIALS_USE_ADDR + CREDENTIALS_ARR_SIZE * i :=
  toUnsigned_slot hi

/-- A slot after the one write to it. -/
theorem slot_write {i : ℕ} (hi : i < 4) (d : List Byte) (k : ℕ) (e : Eeprom) :
    e.write (eeprom_write_page (CREDENTIALS_USE_ADDR + CREDENTIALS_ARR_SIZE * i) d)
        (CREDENTIALS_USE_ADDR + CREDENTIALS_ARR_SIZE * i + k) =
      d.getD k (e (CREDENTIALS_USE_ADDR + CREDENTIALS_ARR_SIZE * i + k)) := by
  rw [Eeprom.write, slot_addr hi, if_pos (Nat.le_add_right _ _), Nat.add_sub_cancel_left]
  rfl

/-! ### Storing -/

/-- The text of the port. -/
def portText (port : ℤ) : CString where
  chars := Decimal.intText port
  no_nul h := by
    rcases Decimal.mem_intText h with hd | hd
    · exact absurd hd (by decide)
    · exact absurd hd (by decide)

/-- What is written, and to which slots. -/
def stored (ssid password hostname port : List Byte) : List (EepromWrite × ℕ) :=
  [(eeprom_write_page (CREDENTIALS_USE_ADDR + CREDENTIALS_ARR_SIZE * 0) (recordBytes ssid), 0),
    (eeprom_write_page (CREDENTIALS_USE_ADDR + CREDENTIALS_ARR_SIZE * 1) (checkedBytes password), 1),
    (eeprom_write_page (CREDENTIALS_USE_ADDR + CREDENTIALS_ARR_SIZE * 2) (checkedBytes hostname), 2),
    (eeprom_write_page (CREDENTIALS_USE_ADDR + CREDENTIALS_ARR_SIZE * 3) (checkedBytes port), 3)]

variable {mem : CredentialArrays} {ssid password hostname : Credential} {port : ℤ}

theorem credentialPages_eq (mem : CredentialArrays) (ssid : Credential)
    (hp : password.chars.length ≤ 59) (hh : hostname.chars.length ≤ 59)
    (ht : (Decimal.intText port).length ≤ 9) :
    LogHandler.credentialPages CREDENTIALS_USE_ADDR mem ssid.toCString password.toCString
        hostname.toCString port =
      some ((stored ssid.chars password.chars hostname.chars (Decimal.intText port)).map Prod.fst) := by
  obtain ⟨portStr, hstr⟩ := Buffer.store_isSome mem.portStr (i := 0) ((portText port).bytes ++ [])
    (by rw [List.append_nil, CString.length_bytes]; exact (by omega : 0 + ((Decimal.intText port).length + 1) ≤ 10))
  have hread : CString.read portStr.toList = some (Decimal.intText port) := read_store hstr
  have hstr : Buffer.store mem.portStr 0 (Decimal.intText port ++ [0]) = some portStr := by
    rw [List.append_nil] at hstr
    exact hstr
  obtain ⟨a₀, h₀, hr₀⟩ := createCredentialArray_eq ssid.accepted mem.ssidArr
  obtain ⟨a₁, h₁, hr₁⟩ := createCredentialArray_eq password.accepted mem.passwordArr
  obtain ⟨a₂, h₂, hr₂⟩ := createCredentialArray_eq hostname.accepted mem.hostnameArr
  obtain ⟨a₃, h₃, hr₃⟩ := createCredentialArray_eq
    (by omega : (Decimal.intText port).length ≤ 60) mem.portArr
  obtain ⟨b₁, h₁', hc₁⟩ := appendCrc_eq hr₁ hp
  obtain ⟨b₂, h₂', hc₂⟩ := appendCrc_eq hr₂ hh
  obtain ⟨b₃, h₃', hc₃⟩ := appendCrc_eq hr₃ (by omega)
  rw [LogHandler.credentialPages, Machine.bind_of hstr, Machine.bind_of h₀]
  dsimp only
  rw [Machine.bind_of h₁]
  dsimp only
  rw [Machine.bind_of h₂]
  dsimp only
  rw [Machine.bind_of hread, Machine.bind_of h₃]
  dsimp only
  rw [Machine.bind_of h₁']
  dsimp only
  rw [Machine.bind_of h₂']
  dsimp only
  rw [Machine.bind_of h₃']
  dsimp only
  rw [Machine.bind_of (recordPage_eq hr₀), Machine.bind_of (recordPage_eq hc₁),
    Machine.bind_of (recordPage_eq hc₂), Machine.bind_of (recordPage_eq hc₃)]
  rfl

/-- Where the pages stay inside their arrays. -/
theorem lengths_of_pages {address : ℕ} {ws : List EepromWrite}
    (hs : LogHandler.credentialPages address mem ssid.toCString password.toCString hostname.toCString
      port = some ws) :
    password.chars.length ≤ 59 ∧ hostname.chars.length ≤ 59 ∧ (Decimal.intText port).length ≤ 9 := by
  obtain ⟨a₁, h₁, hr₁⟩ := createCredentialArray_eq password.accepted mem.passwordArr
  obtain ⟨a₂, h₂, hr₂⟩ := createCredentialArray_eq hostname.accepted mem.hostnameArr
  obtain ⟨portStr, hstr, hs⟩ := Option.bind_eq_some_iff.mp hs
  obtain ⟨⟨a₀, ssidLen⟩, -, hs⟩ := Option.bind_eq_some_iff.mp hs
  dsimp only at hs
  rw [Machine.bind_of h₁] at hs
  dsimp only at hs
  rw [Machine.bind_of h₂] at hs
  dsimp only at hs
  obtain ⟨text, -, hs⟩ := Option.bind_eq_some_iff.mp hs
  obtain ⟨⟨a₃, portLen⟩, -, hs⟩ := Option.bind_eq_some_iff.mp hs
  obtain ⟨⟨c₁, pwLen⟩, hc₁, hs⟩ := Option.bind_eq_some_iff.mp hs
  obtain ⟨⟨c₂, hostnameLen⟩, hc₂, -⟩ := Option.bind_eq_some_iff.mp hs
  have ht := (Buffer.toList_store hstr).1
  rw [List.length_append, List.length_singleton] at ht
  exact ⟨length_of_appendCrc hc₁, length_of_appendCrc hc₂, by omega⟩

namespace LogHandler

/-- Strings that are short enough reach the pages. -/
theorem storeCredentials_iff (hk : h.Kept) {ws : List EepromWrite} :
    h.storeCredentials mem ssid.toCString password.toCString hostname.toCString port = some (ws, h') ↔
      credentialPages CREDENTIALS_USE_ADDR mem ssid.toCString password.toCString hostname.toCString
        port = some ws ∧ h' = (h.incrementUnusedLogIndex .COMM_CONFIG).2 := by
  have hlen : ¬ (60 < ssid.toCString.strlen ∨ 60 < password.toCString.strlen ∨
      60 < hostname.toCString.strlen) := by
    have := ssid.accepted
    have := password.accepted
    have := hostname.accepted
    unfold CString.strlen
    omega
  rw [storeCredentials, if_neg hlen, hk.1]
  constructor
  · intro hs
    obtain ⟨pages, hpages, hs⟩ := Option.bind_eq_some_iff.mp hs
    obtain ⟨rfl, rfl⟩ := Prod.mk.inj (Option.some.inj hs)
    exact ⟨hpages.trans (congrArg some (List.append_nil pages).symm), rfl⟩
  · rintro ⟨hpages, rfl⟩
    rw [Machine.bind_of hpages]
    simp [incrementUnusedLogIndex]

theorem storeCredentials_kept (hk : h.Kept) {ssid password hostname : CString} {ws : List EepromWrite}
    (hs : h.storeCredentials mem ssid password hostname port = some (ws, h')) : h'.Kept := by
  unfold storeCredentials at hs
  split at hs
  · obtain ⟨-, rfl⟩ := Prod.mk.inj (Option.some.inj hs)
    exact hk
  · obtain ⟨pages, -, hs⟩ := Option.bind_eq_some_iff.mp hs
    obtain ⟨-, rfl⟩ := Prod.mk.inj (Option.some.inj hs)
    exact incrementUnusedLogIndex_kept hk .COMM_CONFIG

end LogHandler

/-! ### Fetching -/

namespace LogHandler

/-- What `fetchCredentials` gives depends on the four slots. -/
theorem fetchCredentials_slot (hk : h.Kept) (array : Vector Byte 10) (out : CredentialBuffers) :
    h.fetchCredentials e array out = (do
      let (ssid, ok₀) ← fetchString (slot e 0) out.ssid
      let (password, ok₁) ← fetchString (slot e 1) out.password
      let (hostname, ok₂) ← fetchString (slot e 2) out.hostname
      let (port, ok₃) ← fetchPort (slot e 3) array out.port
      pure ⟨ssid, password, hostname, port, #v[ok₀, ok₁, ok₂, ok₃]⟩) := by
  rw [fetchCredentials, hk.2]
  rfl

theorem returns_of_checked (hk : h.Kept) (h₀ : checkedBytes ssid.chars <+: (slot e 0).toList)
    (h₁ : checkedBytes password.chars <+: (slot e 1).toList)
    (h₂ : checkedBytes hostname.chars <+: (slot e 2).toList)
    (h₃ : checkedBytes (Decimal.intText port) <+: (slot e 3).toList)
    (hport : -10 ^ 7 < port ∧ port < 10 ^ 8) : h.Returns e ssid password hostname port := by
  intro array out
  obtain ⟨d₀, hd₀, hread₀⟩ := fetchString_eq (s := ssid.toCString) h₀ out.ssid
  obtain ⟨d₁, hd₁, hread₁⟩ := fetchString_eq (s := password.toCString) h₁ out.password
  obtain ⟨d₂, hd₂, hread₂⟩ := fetchString_eq (s := hostname.toCString) h₂ out.hostname
  have hlen : (Decimal.intText port).length ≤ 8 :=
    (Decimal.length_intText_le_iff port (by decide : 0 < 7)).mpr hport
  have hd₃ := fetchPort_eq (s := portText port) h₃ hlen (stoi_intText hport.1 hport.2) array out.port
  refine ⟨⟨d₀, d₁, d₂, port, #v[1, 1, 1, 1]⟩, ?_, rfl, hread₀, hread₁, hread₂, rfl⟩
  rw [fetchCredentials_slot hk, Machine.bind_of hd₀]
  dsimp only
  rw [Machine.bind_of hd₁]
  dsimp only
  rw [Machine.bind_of hd₂]
  dsimp only
  rw [Machine.bind_of hd₃]
  rfl

theorem checked_of_returns (hk : h.Kept) (hr₀ : recordBytes ssid.chars <+: (slot e 0).toList)
    (hr₃ : recordBytes (Decimal.intText port) <+: (slot e 3).toList)
    (hlen : (Decimal.intText port).length ≤ 9) (hret : h.Returns e ssid password hostname port) :
    checkedBytes ssid.chars <+: (slot e 0).toList ∧ -10 ^ 7 < port ∧ port < 10 ^ 8 := by
  obtain ⟨out', hf, harr, -⟩ := hret (.replicate _ 0)
    ⟨.replicate _ 0, .replicate _ 0, .replicate _ 0, 0, .replicate _ 0⟩
  rw [fetchCredentials_slot hk] at hf
  obtain ⟨⟨d₀, ok₀⟩, hd₀, hf⟩ := Option.bind_eq_some_iff.mp hf
  obtain ⟨⟨d₁, ok₁⟩, -, hf⟩ := Option.bind_eq_some_iff.mp hf
  obtain ⟨⟨d₂, ok₂⟩, -, hf⟩ := Option.bind_eq_some_iff.mp hf
  obtain ⟨⟨x, ok₃⟩, hd₃, hf⟩ := Option.bind_eq_some_iff.mp hf
  obtain rfl := Option.some.inj hf
  have hok₀ : ok₀ = 1 := congrArg (Vector.get · 0) harr
  have hok₃ : ok₃ = 1 := congrArg (Vector.get · 3) harr
  rw [hok₀] at hd₀
  rw [hok₃] at hd₃
  obtain ⟨-, hlen8⟩ := checked_of_fetchPort hr₃ (by omega) hd₃
  exact ⟨checked_of_fetchString hr₀ ssid.accepted hd₀,
    (Decimal.length_intText_le_iff port (by decide : 0 < 7)).mp hlen8⟩

end LogHandler

/-! ### When they come back -/

/-- **The condition**: no text is too long, and the EEPROM held the CRC of the
SSID's record behind its place. -/
structure Fits (e : Eeprom) (ssid password hostname : Credential) (port : ℤ) : Prop where
  ssid_le : ssid.chars.length ≤ 59
  password_le : password.chars.length ≤ 59
  hostname_le : hostname.chars.length ≤ 59
  port_lt : -10 ^ 7 < port ∧ port < 10 ^ 8
  left : e (CREDENTIALS_USE_ADDR + ssid.chars.length + 3) =
      (crc16 (recordBytes ssid.chars) >>> 8).setWidth 8 ∧
    e (CREDENTIALS_USE_ADDR + ssid.chars.length + 4) = (crc16 (recordBytes ssid.chars)).setWidth 8

theorem stored_nodup (ssid password hostname port : List Byte) :
    ((stored ssid password hostname port).map Prod.snd).Nodup := (by decide : [0, 1, 2, 3].Nodup)

theorem inSlot {i : ℕ} (hi : i < 4) {d : List Byte} (hd : d.length ≤ 64) :
    (eeprom_write_page (CREDENTIALS_USE_ADDR + CREDENTIALS_ARR_SIZE * i) d).InSlot i := by
  rw [EepromWrite.InSlot, slot_addr hi]
  refine ⟨le_rfl, ?_⟩
  exact (by omega : CREDENTIALS_USE_ADDR + 64 * i + d.length ≤ CREDENTIALS_USE_ADDR + 64 * (i + 1))

theorem stored_inSlot (ssid : Credential) (hp : password.chars.length ≤ 59) (hh : hostname.chars.length ≤ 59)
    {text : List Byte} (ht : text.length ≤ 9) :
    ∀ p ∈ stored ssid.chars password.chars hostname.chars text, p.1.InSlot p.2 := by
  have hs := ssid.accepted
  intro p hmem
  simp only [stored, List.mem_cons, List.not_mem_nil, or_false] at hmem
  rcases hmem with rfl | rfl | rfl | rfl
  · exact inSlot (by decide) (by rw [length_recordBytes]; omega)
  · exact inSlot (by decide) (by rw [length_checkedBytes]; omega)
  · exact inSlot (by decide) (by rw [length_checkedBytes]; omega)
  · exact inSlot (by decide) (by rw [length_checkedBytes]; omega)

/-- A slot after all writes. -/
theorem writes_stored {ps : List (EepromWrite × ℕ)} (hin : ∀ p ∈ ps, p.1.InSlot p.2)
    (hnd : (ps.map Prod.snd).Nodup) {i : ℕ} (hi : i < 4) {d : List Byte}
    (hmem : (eeprom_write_page (CREDENTIALS_USE_ADDR + CREDENTIALS_ARR_SIZE * i) d, i) ∈ ps)
    {k : ℕ} (hk : k < 64) (e : Eeprom) :
    e.writes (ps.map Prod.fst) (CREDENTIALS_USE_ADDR + CREDENTIALS_ARR_SIZE * i + k) =
      d.getD k (e (CREDENTIALS_USE_ADDR + CREDENTIALS_ARR_SIZE * i + k)) :=
  (writes_slot (slotAddr_add i hk) hin hnd hmem e).trans (slot_write hi d k e)

/-- It begins with what was written there. -/
theorem prefix_stored {ps : List (EepromWrite × ℕ)} (hin : ∀ p ∈ ps, p.1.InSlot p.2)
    (hnd : (ps.map Prod.snd).Nodup) {i : ℕ} (hi : i < 4) {d : List Byte} (hd : d.length ≤ 64)
    (hmem : (eeprom_write_page (CREDENTIALS_USE_ADDR + CREDENTIALS_ARR_SIZE * i) d, i) ∈ ps)
    (e : Eeprom) : d <+: (slot (e.writes (ps.map Prod.fst)) i).toList := by
  refine (prefix_slot_iff hi).mpr ⟨hd, fun k x hx => ?_⟩
  have hk := (List.getElem?_eq_some_iff.mp hx).1
  rw [writes_stored hin hnd hi hmem (by omega) e, List.getD_eq_getElem?_getD, hx]
  rfl

/-- Where a record lies without its CRC, what was there before decides. -/
theorem checked_slot_iff {str : List Byte}
    (h : ∀ k < 64, e' (CREDENTIALS_USE_ADDR + CREDENTIALS_ARR_SIZE * 0 + k) =
      (recordBytes str).getD k (e (CREDENTIALS_USE_ADDR + CREDENTIALS_ARR_SIZE * 0 + k))) :
    checkedBytes str <+: (slot e' 0).toList ↔ str.length ≤ 59 ∧
      e (CREDENTIALS_USE_ADDR + str.length + 3) = (crc16 (recordBytes str) >>> 8).setWidth 8 ∧
      e (CREDENTIALS_USE_ADDR + str.length + 4) = (crc16 (recordBytes str)).setWidth 8 := by
  have hold : ∀ j, str.length + 3 ≤ j → j < 64 →
      e' (CREDENTIALS_USE_ADDR + CREDENTIALS_ARR_SIZE * 0 + j) = e (CREDENTIALS_USE_ADDR + j) := by
    intro j h1 h2
    rw [h j h2, List.getD_eq_default _ _ (by rw [length_recordBytes]; exact h1)]
    rfl
  have hlast : ∀ j, (checkedBytes str)[str.length + 3 + j]? =
      [(crc16 (recordBytes str) >>> 8).setWidth 8, (crc16 (recordBytes str)).setWidth 8][j]? := by
    intro j
    rw [checkedBytes, List.getElem?_append_right (by rw [length_recordBytes]; omega), length_recordBytes,
      Nat.add_sub_cancel_left]
  rw [prefix_slot_iff (by decide), length_checkedBytes]
  constructor
  · rintro ⟨hlen, hall⟩
    refine ⟨by omega, ?_, ?_⟩
    · rw [Nat.add_assoc, ← hold (str.length + 3) le_rfl (by omega)]
      exact hall (str.length + 3) _ (hlast 0)
    · rw [Nat.add_assoc, ← hold (str.length + 4) (by omega) (by omega)]
      exact hall (str.length + 3 + 1) _ (hlast 1)
  · rintro ⟨hlen, hhigh, hlow⟩
    refine ⟨by omega, fun k x hx => ?_⟩
    by_cases hk : k < (recordBytes str).length
    · rw [checkedBytes, List.getElem?_append_left hk] at hx
      rw [length_recordBytes] at hk
      rw [h k (by omega), List.getD_eq_getElem?_getD, hx]
      rfl
    · rw [length_recordBytes] at hk
      obtain ⟨j, rfl⟩ := Nat.exists_eq_add_of_le (Nat.not_lt.mp hk)
      rw [hlast] at hx
      have hj : j < 2 := (List.getElem?_eq_some_iff.mp hx).1
      rw [hold _ (by omega) (by omega)]
      obtain rfl | rfl : j = 0 ∨ j = 1 := by omega
      · exact hhigh.trans (Option.some.inj hx)
      · exact hlow.trans (Option.some.inj hx)

/-- A new handler finds the slots as they were. -/
theorem slot_new {i : ℕ} (hi : i < 4) (e : Eeprom) :
    slot (e.writes (LogHandler.new e).1) i = slot e i := by
  unfold slot Eeprom.read_page
  rw [toUnsigned_slot hi]
  refine congrArg Vector.ofFn (funext fun k => ?_)
  exact Eeprom.writes_untouched (LogHandler.new_below (by rw [Nat.add_assoc]; exact Nat.le_add_right _ _) e) e

/-- The credentials come back exactly under the condition. -/
theorem roundTrips_iff (hk : h.Kept) (e : Eeprom) (mem : CredentialArrays)
    (ssid password hostname : Credential) (port : ℤ) :
    h.RoundTrips e mem ssid password hostname port ↔ Fits e ssid password hostname port := by
  have hs := ssid.accepted
  constructor
  · rintro ⟨ws, h', hstore, -, hret, -⟩
    have hk' := LogHandler.storeCredentials_kept hk hstore
    have hpages := ((LogHandler.storeCredentials_iff hk).mp hstore).1
    obtain ⟨hp, hh, ht⟩ := lengths_of_pages hpages
    rw [credentialPages_eq mem ssid hp hh ht] at hpages
    obtain rfl := Option.some.inj hpages
    have hin := stored_inSlot ssid hp hh ht
    have hnd := stored_nodup ssid.chars password.chars hostname.chars (Decimal.intText port)
    have hr₀ := prefix_stored hin hnd (i := 0) (by decide) (by rw [length_recordBytes]; omega)
      List.mem_cons_self e
    have hc₃ := prefix_stored hin hnd (i := 3) (d := checkedBytes (Decimal.intText port)) (by decide)
      (by rw [length_checkedBytes]; omega) (by simp [stored]) e
    obtain ⟨hc₀, hport⟩ := LogHandler.checked_of_returns hk' hr₀ ((recordBytes_prefix_checked _).trans hc₃) ht hret
    obtain ⟨hlen, hleft⟩ := (checked_slot_iff fun k hk =>
      writes_stored hin hnd (by decide) List.mem_cons_self hk e).mp hc₀
    exact ⟨hlen, hp, hh, hport, hleft⟩
  · rintro ⟨hlen, hp, hh, hport, hleft⟩
    have ht := (Decimal.length_intText_le_iff port (by decide : 0 < 7)).mpr hport
    have hstore := (LogHandler.storeCredentials_iff hk).mpr
      ⟨credentialPages_eq mem ssid hp hh (by omega : (Decimal.intText port).length ≤ 9), rfl⟩
    have hk' := LogHandler.storeCredentials_kept hk hstore
    have hin := stored_inSlot ssid hp hh (by omega : (Decimal.intText port).length ≤ 9)
    have hnd := stored_nodup ssid.chars password.chars hostname.chars (Decimal.intText port)
    have hc₀ := (checked_slot_iff fun k hk =>
      writes_stored hin hnd (by decide) List.mem_cons_self hk e).mpr ⟨hlen, hleft⟩
    have hc₁ := prefix_stored hin hnd (i := 1) (d := checkedBytes password.chars) (by decide)
      (by rw [length_checkedBytes]; omega) (by simp [stored]) e
    have hc₂ := prefix_stored hin hnd (i := 2) (d := checkedBytes hostname.chars) (by decide)
      (by rw [length_checkedBytes]; omega) (by simp [stored]) e
    have hc₃ := prefix_stored hin hnd (i := 3) (d := checkedBytes (Decimal.intText port)) (by decide)
      (by rw [length_checkedBytes]; omega) (by simp [stored]) e
    refine ⟨_, _, hstore, ?_, ?_, ?_⟩
    · exact List.forall₂_map_left_iff.mpr
        (List.forall₂_map_right_iff.mpr (List.forall₂_same.mpr hin))
    · exact LogHandler.returns_of_checked hk' hc₀ hc₁ hc₂ hc₃ hport
    · refine LogHandler.returns_of_checked (LogHandler.new_kept _) ?_ ?_ ?_ ?_ hport
      · rwa [slot_new (by decide)]
      · rwa [slot_new (by decide)]
      · rwa [slot_new (by decide)]
      · rwa [slot_new (by decide)]

/-! ### Over whole runs -/

/-- A handler and its EEPROM. -/
structure LogStore where
  handler : LogHandler
  eeprom : Eeprom

/-- The operations of a handler, and a reboot, which makes a new one. -/
inductive LogEvent
  | pushLog (mem : Vector Byte 8) (code : ℕ) (timestamp : BitVec 32)
  | pushRebootLog (mem : Vector Byte 8) (code : ℕ) (timestamp : BitVec 32)
  | storeCredentials (mem : CredentialArrays) (ssid password hostname : CString) (port : ℤ)
  | reboot

namespace LogStore

/-- What an operation leaves: its handler, and the EEPROM after its writes. -/
def after (e : Eeprom) (r : List EepromWrite × LogHandler) : LogStore := ⟨r.2, e.writes r.1⟩

def step (s : LogStore) : LogEvent → Option LogStore
  | .pushLog mem code timestamp => (s.handler.pushLog mem code timestamp).map (after s.eeprom)
  | .pushRebootLog mem code timestamp =>
    (s.handler.pushRebootLog mem code timestamp).map (after s.eeprom)
  | .storeCredentials mem ssid password hostname port =>
    (s.handler.storeCredentials mem ssid password hostname port).map (after s.eeprom)
  | .reboot => some (after s.eeprom (LogHandler.new s.eeprom))

/-- A handler constructed over an EEPROM with any content. -/
def Init (s : LogStore) : Prop := ∃ e, s = after e (LogHandler.new e)

theorem kept_of_reach {s : LogStore} (h : Machine.Reach step Init Machine.Always s) : s.handler.Kept := by
  refine h.invariant (J := fun s => s.handler.Kept) ?_ ?_
  · rintro _ ⟨e, rfl⟩
    exact LogHandler.new_kept e
  · intro s ev t hk _ hst
    cases ev with
    | pushLog mem code timestamp =>
      simp only [step, Option.map_eq_some_iff] at hst
      obtain ⟨r, hr, rfl⟩ := hst
      exact LogHandler.push_kept hk hr
    | pushRebootLog mem code timestamp =>
      simp only [step, Option.map_eq_some_iff] at hst
      obtain ⟨r, hr, rfl⟩ := hst
      exact LogHandler.push_kept hk hr
    | storeCredentials mem ssid password hostname port =>
      simp only [step, Option.map_eq_some_iff] at hst
      obtain ⟨r, hr, rfl⟩ := hst
      exact LogHandler.storeCredentials_kept hk hr
    | reboot =>
      obtain rfl := Option.some.inj hst
      exact LogHandler.new_kept _

/-- **When the credentials come back.** At any time in the life of a handler
over an EEPROM that may have held anything. -/
theorem credentials_round_trip_iff {s : LogStore} (h : Machine.Reach step Init Machine.Always s)
    (mem : CredentialArrays) (ssid password hostname : Credential) (port : ℤ) :
    s.handler.RoundTrips s.eeprom mem ssid password hostname port ↔
      Fits s.eeprom ssid password hostname port :=
  roundTrips_iff (kept_of_reach h) s.eeprom mem ssid password hostname port

/-! ### Examples -/

def zeroed : CredentialArrays :=
  ⟨.replicate _ 0, .replicate _ 0, .replicate _ 0, .replicate _ 0, .replicate _ 0⟩

/-- The string `a`. -/
def letter : Credential := ⟨⟨[0x61], by decide⟩, by decide⟩

/-- The handler of a chip that holds `e`. -/
def started (e : Eeprom) : LogStore := after e (LogHandler.new e)

theorem started_kept (e : Eeprom) : (started e).handler.Kept := LogHandler.new_kept e

theorem started_eeprom {e : Eeprom} {a : ℕ} (ha : CREDENTIALS_USE_ADDR ≤ a) : (started e).eeprom a = e a :=
  Eeprom.writes_untouched (LogHandler.new_below ha e) e

/-- A chip that happens to hold the CRC of the record of `letter`. -/
def prepared : Eeprom := fun a => if a = 4164 then 0x78 else if a = 4165 then 0xcf else 0

/-- There the credentials come back. -/
theorem credentials_round_trip_iff_prepared :
    (started prepared).handler.RoundTrips (started prepared).eeprom zeroed letter letter letter 1883 := by
  refine (credentials_round_trip_iff (.init ⟨prepared, rfl⟩) zeroed letter letter letter 1883).mpr ?_
  refine ⟨by decide, by decide, by decide, by decide, ?_, ?_⟩
  · exact (started_eeprom (by decide)).trans (by decide)
  · exact (started_eeprom (by decide)).trans (by decide)

/-- An erased chip. -/
def blank : Eeprom := fun _ => 0xff

/-- **There they do not.** -/
theorem blank_chip_loses_ssid :
    ¬ (started blank).handler.RoundTrips (started blank).eeprom zeroed letter letter letter 1883 := by
  intro h
  have hfits := (roundTrips_iff (started_kept blank) (started blank).eeprom zeroed letter letter letter 1883).mp h
  have haddr : CREDENTIALS_USE_ADDR ≤ CREDENTIALS_USE_ADDR + letter.chars.length + 3 := by decide
  have hold := started_eeprom (e := blank) haddr
  have hhigh : blank _ = _ := hold.symm.trans hfits.left.1
  exact absurd hhigh (by decide)

end LogStore
end Ventilation
