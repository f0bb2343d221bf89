/-
# The two rings of log records (src/logHandler.cpp)

Messages and reboot states are kept in two rings of 256 slots of 8 bytes. A
slot is free if its first byte, the status, is 0; `printValidLogs` lists the
slots with status 1 whose CRC is right. What a push, a clearing and the scan
of the constructor do to a ring is said here once, for a ring of either type:
`pushTo_eq`, `writes_clearing`, `findFirstAvailableLog_eq` and `new_spec`.
-/
import Ventilation.LogHandler
import Ventilation.Lib.Machine

namespace Ventilation

open CInt

/-- The types of logs that are kept in a ring. -/
inductive Ring
  | log | reboot
  deriving DecidableEq

namespace Ring

def type : Ring → LogType
  | log => .MSG_LOG
  | reboot => .REBOOT_STATUS

def start : Ring → ℕ
  | log => LOG_START_ADDR
  | reboot => REBOOT_STATUS_START_ADDR

/-- The address of slot `i`. -/
def slot (r : Ring) (i : ℕ) : ℕ := r.start + LOG_SIZE * i

/-- The addresses of a ring. -/
def Inside (r : Ring) (a : ℕ) : Prop := r.start ≤ a ∧ a < r.start + LOG_SIZE * MAX_LOGS

theorem start_le (r : Ring) : r.start ≤ 2056 := by
  cases r <;> decide

/-- The rings do not overlap. -/
theorem not_inside_of_ne {r r' : Ring} (h : r ≠ r') {a : ℕ} (ha : r.Inside a) : ¬ r'.Inside a := by
  unfold Inside LOG_SIZE MAX_LOGS at *
  cases r <;> cases r'
  · exact absurd rfl h
  · simp only [start, LOG_START_ADDR, REBOOT_STATUS_START_ADDR, LOG_END_ADDR, LOG_SIZE, MAX_LOGS] at *
    omega
  · simp only [start, LOG_START_ADDR, REBOOT_STATUS_START_ADDR, LOG_END_ADDR, LOG_SIZE, MAX_LOGS] at *
    omega
  · exact absurd rfl h

theorem inside_slot (r : Ring) {i j : ℕ} (hi : i < MAX_LOGS) (hj : j < LOG_SIZE) :
    r.Inside (r.slot i + j) := by
  unfold Inside slot LOG_SIZE MAX_LOGS at *
  omega

/-- A slot's address is a `uint16_t`. -/
theorem toUnsigned_slot (r : Ring) {i : ℕ} (hi : i < MAX_LOGS) : toUnsigned 16 (r.slot i) = r.slot i := by
  have := r.start_le
  unfold MAX_LOGS at hi
  rw [toUnsigned_natCast, slot, LOG_SIZE, Nat.mod_eq_of_lt (by omega)]

/-- Two slots do not overlap. -/
theorem slot_apart {r r' : Ring} {i k j : ℕ} (hi : i < MAX_LOGS) (hk : k < MAX_LOGS) (hj : j < LOG_SIZE)
    (hne : r' = r → i ≠ k) : r'.slot i + j < r.slot k ∨ r.slot k + LOG_SIZE ≤ r'.slot i + j := by
  by_cases hr : r' = r
  · have hik := hne hr
    subst hr
    unfold slot LOG_SIZE at *
    omega
  · have hout := not_inside_of_ne hr (r'.inside_slot hi hj)
    unfold Inside at hout
    unfold slot LOG_SIZE MAX_LOGS at *
    omega

theorem slot_injective (r : Ring) {i j : ℕ} (h : r.slot i = r.slot j) : i = j := by
  unfold slot LOG_SIZE at h
  omega

end Ring

namespace LogHandler

/-- The address a push of the type goes to. -/
def unused (h : LogHandler) : Ring → ℕ
  | .log => h.unusedLogAddr
  | .reboot => h.unusedRebootStatusAddr

def setUnused (h : LogHandler) : Ring → ℕ → LogHandler
  | .log, a => { h with unusedLogAddr := a }
  | .reboot, a => { h with unusedRebootStatusAddr := a }

@[simp] theorem unused_setUnused (h : LogHandler) (r : Ring) (a : ℕ) : (h.setUnused r a).unused r = a := by
  cases r <;> rfl

@[simp] theorem unused_setUnused_of_ne (h : LogHandler) {r r' : Ring} (hne : r' ≠ r) (a : ℕ) :
    (h.setUnused r a).unused r' = h.unused r' := by
  cases r <;> cases r' <;> first | rfl | exact absurd rfl hne

/-- `pushLog` or `pushRebootLog`. -/
def pushTo (h : LogHandler) : Ring → Vector Byte 8 → ℕ → BitVec 32 →
    Option (List EepromWrite × LogHandler)
  | .log => h.pushLog
  | .reboot => h.pushRebootLog

end LogHandler

/-! ### Records -/

/-- What a listed record says: the message code and the timestamp. -/
abbrev LogEntry := Byte × BitVec 32

/-- What a push writes. -/
def logRecord (messageCode : ℕ) (timestamp : BitVec 32) : List Byte :=
  withCrc (LogHandler.createLogArray messageCode timestamp)

theorem length_logRecord (messageCode : ℕ) (timestamp : BitVec 32) :
    (logRecord messageCode timestamp).length = LOG_SIZE := rfl

theorem enterLogToEeprom_eq (mem : Vector Byte 8) (messageCode : ℕ) (timestamp : BitVec 32) (logAddr : ℕ) :
    LogHandler.enterLogToEeprom mem (LogHandler.createLogArray messageCode timestamp) logAddr =
      some (eeprom_write_page logAddr (logRecord messageCode timestamp)) := by
  obtain ⟨arr, harr⟩ := Buffer.store_isSome mem (i := 0) (LogHandler.createLogArray messageCode timestamp)
    (by decide : 0 + 6 ≤ 8)
  have hfront : LogHandler.createLogArray messageCode timestamp <+: arr.toList := by
    rw [(Buffer.toList_store harr).2]
    exact List.prefix_append _ _
  obtain ⟨arr', harr', hfront'⟩ := appendCrcToBase8Array_eq hfront (by decide : 6 + 2 ≤ 8)
  rw [LogHandler.enterLogToEeprom, Machine.bind_of harr, Machine.bind_of harr']
  dsimp only
  rw [Machine.bind_of (size?_eq rfl), Machine.bind_of (Buffer.load_of_prefix hfront')]
  rfl

namespace Eeprom

/-- The record of a slot, if `printValidLogs` lists it. -/
def validLog (e : Eeprom) (logAddr : ℕ) : Option LogEntry :=
  let logData := e.read_page logAddr 8
  if logData[0] = 1 ∧ verifyDataIntegrity logData 8 = some true then
    some (logData[1], logData[2] ++ logData[3] ++ logData[4] ++ logData[5])
  else none

/-- `printValidLogs`: the address, the code and the timestamp of each line. -/
def printValidLogs (e : Eeprom) (r : Ring) : List (ℕ × LogEntry) :=
  (LogHandler.slots r.start).filterMap fun logAddr => (e.validLog logAddr).map fun entry => (logAddr, entry)

/-- The status byte of slot `i`. -/
def status (e : Eeprom) (r : Ring) (i : ℕ) : Byte := e.read_byte (r.slot i)

/-- Only its own 8 bytes matter to a record. -/
theorem validLog_congr {e e' : Eeprom} {r : Ring} {i : ℕ} (hi : i < MAX_LOGS)
    (h : ∀ j < LOG_SIZE, e' (r.slot i + j) = e (r.slot i + j)) :
    e'.validLog (r.slot i) = e.validLog (r.slot i) := by
  have hpage : e'.read_page (r.slot i) 8 = e.read_page (r.slot i) 8 := by
    unfold read_page
    rw [r.toUnsigned_slot hi]
    exact congrArg Vector.ofFn (funext fun j => h j j.isLt)
  rw [validLog, validLog, hpage]

theorem status_eq {e : Eeprom} {r : Ring} {i : ℕ} (hi : i < MAX_LOGS) : e.status r i = e (r.slot i) := by
  rw [status, read_byte, r.toUnsigned_slot hi]

/-- A record that is listed has the status 1. -/
theorem status_of_validLog {e : Eeprom} {r : Ring} {i : ℕ} {entry : LogEntry}
    (h : e.validLog (r.slot i) = some entry) : e.status r i = 1 := by
  simp only [validLog] at h
  split at h
  · rename_i hvalid
    simpa [read_page, status, read_byte] using hvalid.1
  · cases h

theorem timestamp_eq (t : BitVec 32) : (t >>> 24).setWidth 8 ++ (t >>> 16).setWidth 8 ++
    (t >>> 8).setWidth 8 ++ t.setWidth 8 = t := by
  ext i hi
  simp only [BitVec.getElem_append, BitVec.getElem_setWidth, BitVec.getLsbD_ushiftRight]
  split_ifs with h1 h2 h3
  · rw [BitVec.getLsbD_eq_getElem]
  · rw [← BitVec.getLsbD_eq_getElem]
    congr 1
    omega
  · rw [← BitVec.getLsbD_eq_getElem]
    congr 1
    omega
  · rw [← BitVec.getLsbD_eq_getElem]
    congr 1
    omega

/-- **A record is read back.** -/
theorem validLog_record {e : Eeprom} {r : Ring} {i : ℕ} (hi : i < MAX_LOGS) {messageCode : ℕ}
    {timestamp : BitVec 32} (h : ∀ j x, (logRecord messageCode timestamp)[j]? = some x →
      e (r.slot i + j) = x) :
    e.validLog (r.slot i) = some (.ofNat 8 messageCode, timestamp) := by
  have hpage : (e.read_page (r.slot i) 8).toList = logRecord messageCode timestamp := by
    refine List.ext_getElem (by simp [length_logRecord, LOG_SIZE]) fun j hj hj' => ?_
    simp only [read_page, r.toUnsigned_slot hi, Vector.toList_ofFn, List.getElem_ofFn]
    exact h j _ (List.getElem?_eq_getElem hj')
  have hget : ∀ j (hj : j < 8), (e.read_page (r.slot i) 8)[j] = (logRecord messageCode timestamp)[j] := by
    intro j hj
    simp only [← hpage, Vector.getElem_toList]
  have hvalid : verifyDataIntegrity (e.read_page (r.slot i) 8) 8 = some true := by
    have hfront : logRecord messageCode timestamp <+: (e.read_page (r.slot i) 8).toList :=
      ⟨[], by rw [hpage, List.append_nil]⟩
    have hload : Buffer.load (e.read_page (r.slot i) 8) 0 8 = some (logRecord messageCode timestamp) :=
      Buffer.load_of_prefix hfront
    have hcrc : crc16 (logRecord messageCode timestamp) = 0 := crc16_withCrc _
    simp [verifyDataIntegrity, hload, hcrc]
  simp only [validLog, hget, hvalid]
  simp [logRecord, withCrc, LogHandler.createLogArray, timestamp_eq]

/-! ### Writes to a ring -/

/-- A page written to a slot. -/
theorem write_page {r : Ring} {i : ℕ} (hi : i < MAX_LOGS) {d : List Byte} (hd : d.length = LOG_SIZE)
    (e : Eeprom) (a : ℕ) : e.write (eeprom_write_page (r.slot i) d) a =
      if r.slot i ≤ a ∧ a < r.slot i + LOG_SIZE then d.getD (a - r.slot i) 0 else e a := by
  unfold write eeprom_write_page
  simp only [r.toUnsigned_slot hi]
  by_cases h1 : r.slot i ≤ a
  · by_cases h2 : a < r.slot i + LOG_SIZE
    · rw [if_pos h1, if_pos ⟨h1, h2⟩, List.getD_eq_getElem _ _ (by omega), List.getD_eq_getElem _ _ (by omega)]
    · rw [if_pos h1, if_neg (fun h => h2 h.2), List.getD_eq_default _ _ (by omega)]
  · rw [if_neg h1, if_neg (fun h => h1 h.1)]

/-- The writes that clear a ring. -/
def clearing (r : Ring) : List EepromWrite := (LogHandler.slots r.start).map (eeprom_write_byte · 0)

theorem length_clearing (r : Ring) : (clearing r).length = MAX_LOGS := by
  simp [clearing, LogHandler.slots]

/-- After the first `n` writes of a clearing the first `n` slots are free. -/
theorem writes_clearing (r : Ring) {n : ℕ} (hn : n ≤ MAX_LOGS) (e : Eeprom) (a : ℕ) :
    e.writes ((clearing r).take n) a = if ∃ i < n, a = r.slot i then 0 else e a := by
  induction n with
  | zero => simp [writes]
  | succ n ih =>
    have hget : (clearing r)[n]? = some (eeprom_write_byte (r.slot n) 0) := by
      simp [clearing, LogHandler.slots, Ring.slot, (by omega : n < MAX_LOGS)]
    have htake : e.writes ((clearing r).take (n + 1)) =
        (e.writes ((clearing r).take n)).write (eeprom_write_byte (r.slot n) 0) := by
      rw [List.take_add_one, hget, writes, List.foldl_append]
      rfl
    have haddr : (eeprom_write_byte (r.slot n) 0).addr = r.slot n := r.toUnsigned_slot (by omega)
    rw [htake]
    by_cases ha : a = r.slot n
    · have hex : ∃ i < n + 1, a = r.slot i := ⟨n, Nat.lt_succ_self n, ha⟩
      rw [if_pos hex, write, haddr, ha, if_pos le_rfl, Nat.sub_self]
      rfl
    · have hiff : (∃ i < n + 1, a = r.slot i) ↔ ∃ i < n, a = r.slot i := by
        constructor
        · rintro ⟨i, hi, rfl⟩
          have hne : i ≠ n := fun h => ha (by rw [h])
          exact ⟨i, by omega, rfl⟩
        · rintro ⟨i, hi, rfl⟩
          exact ⟨i, by omega, rfl⟩
      have hout : Untouched (eeprom_write_byte (r.slot n) 0) a := by
        rw [Untouched, haddr]
        rcases Nat.lt_or_gt_of_ne ha with h | h
        · exact .inl h
        · exact .inr h
      rw [write_untouched hout, ih (by omega)]
      simp only [hiff]

/-- The writes that make room in a ring of which `k` slots are used. -/
def room (r : Ring) (k : ℕ) : List EepromWrite := if k < MAX_LOGS then [] else clearing r

/-- The slots used after that. -/
def wrapped (k : ℕ) : ℕ := if k < MAX_LOGS then k else 0

/-- What the scan finds: `k` used slots, and then a free one if there is any. -/
structure Scanned (e : Eeprom) (r : Ring) (k : ℕ) : Prop where
  le : k ≤ MAX_LOGS
  used : ∀ i < k, e.status r i ≠ 0
  free : k < MAX_LOGS → e.status r k = 0

/-- The status bytes of a ring are inside it. -/
theorem status_congr {e e' : Eeprom} {r : Ring} (he : ∀ a, r.Inside a → e' a = e a) {i : ℕ}
    (hi : i < MAX_LOGS) : e'.status r i = e.status r i := by
  rw [status_eq hi, status_eq hi]
  exact he _ (r.inside_slot hi (by decide : 0 < LOG_SIZE))

theorem Scanned.congr {e e' : Eeprom} {r : Ring} {k : ℕ} (h : e.Scanned r k)
    (he : ∀ a, r.Inside a → e' a = e a) : e'.Scanned r k := by
  have hle := h.le
  exact ⟨h.le, fun i hi => by rw [status_congr he (by omega)]; exact h.used i hi,
    fun hk => by rw [status_congr he hk]; exact h.free hk⟩

/-- What a clearing leaves alone. -/
theorem clearing_outside (r : Ring) {a : ℕ} (ha : ¬ r.Inside a) :
    ∀ w ∈ clearing r, Untouched w a := by
  intro w hw
  simp only [clearing, LogHandler.slots, List.map_map, List.mem_map, List.mem_range,
    Function.comp_apply] at hw
  obtain ⟨i, hi, rfl⟩ := hw
  have haddr : (eeprom_write_byte (r.slot i) 0).addr = r.slot i := r.toUnsigned_slot hi
  have hin := r.inside_slot hi (by decide : 0 < LOG_SIZE)
  have hne : a ≠ r.slot i := fun h => ha (h ▸ hin)
  unfold Untouched
  rw [show r.start + LOG_SIZE * i = r.slot i from rfl, haddr]
  rcases Nat.lt_or_gt_of_ne hne with h | h
  · exact .inl h
  · exact .inr h

theorem writes_room_outside (r : Ring) (k : ℕ) {a : ℕ} (ha : ¬ r.Inside a) (e : Eeprom) :
    e.writes (room r k) a = e a := by
  unfold room
  split
  · rfl
  · exact writes_untouched (clearing_outside r ha) e

/-- A record in a slot leaves everything else alone. -/
theorem write_record_of_ne {r : Ring} {k : ℕ} (hk : k < MAX_LOGS) (messageCode : ℕ)
    (timestamp : BitVec 32) (e : Eeprom) {a : ℕ} (ha : a < r.slot k ∨ r.slot k + LOG_SIZE ≤ a) :
    e.write (eeprom_write_page (r.slot k) (logRecord messageCode timestamp)) a = e a := by
  rw [write_page hk (length_logRecord _ _), if_neg (by omega)]

/-- The first `k` slots of a ring are used and the others free. -/
structure Front (e : Eeprom) (r : Ring) (k : ℕ) : Prop where
  le : k ≤ MAX_LOGS
  used : ∀ i < k, e.status r i ≠ 0
  free : ∀ i, k ≤ i → i < MAX_LOGS → e.status r i = 0

namespace Front

variable {e e' : Eeprom} {r : Ring} {k : ℕ}

theorem scanned (h : e.Front r k) : e.Scanned r k := ⟨h.le, h.used, h.free k le_rfl⟩

theorem congr (h : e.Front r k) (he : ∀ a, r.Inside a → e' a = e a) : e'.Front r k := by
  have hle := h.le
  exact ⟨h.le, fun i hi => by rw [status_congr he (by omega)]; exact h.used i hi,
    fun i hki hi => by rw [status_congr he hi]; exact h.free i hki hi⟩

/-- A record goes to the first free slot. -/
theorem write_record (h : e.Front r k) (hk : k < MAX_LOGS) (messageCode : ℕ) (timestamp : BitVec 32) :
    (e.write (eeprom_write_page (r.slot k) (logRecord messageCode timestamp))).Front r (k + 1) := by
  have hother : ∀ i, i < MAX_LOGS → i ≠ k →
      (e.write (eeprom_write_page (r.slot k) (logRecord messageCode timestamp))).status r i =
        e.status r i := by
    intro i hi hne
    rw [status_eq hi, status_eq hi, write_record_of_ne hk]
    unfold Ring.slot LOG_SIZE
    omega
  have hself : (e.write (eeprom_write_page (r.slot k) (logRecord messageCode timestamp))).status r k = 1 := by
    rw [status_eq hk, write_page hk (length_logRecord _ _), if_pos ⟨le_rfl, by unfold LOG_SIZE; omega⟩,
      Nat.sub_self]
    rfl
  refine ⟨hk, fun i hi => ?_, fun i hki hi => ?_⟩
  · by_cases hne : i = k
    · rw [hne, hself]
      decide
    · rw [hother i (by omega) hne]
      exact h.used i (by omega)
  · rw [hother i hi (by omega)]
    exact h.free i (by omega) hi

/-- A cleared ring is free. -/
theorem clearing (e : Eeprom) (r : Ring) : (e.writes (clearing r)).Front r 0 := by
  have hall := writes_clearing r le_rfl e
  rw [List.take_of_length_le (length_clearing r).le] at hall
  refine ⟨Nat.zero_le _, fun i hi => absurd hi (Nat.not_lt_zero i), fun i _ hi => ?_⟩
  rw [status_eq hi, hall, if_pos ⟨i, hi, rfl⟩]

/-- Room is made. -/
theorem room (h : e.Front r k) : (e.writes (room r k)).Front r (wrapped k) := by
  unfold Eeprom.room wrapped
  by_cases hk : k < MAX_LOGS
  · rw [if_pos hk, if_pos hk]
    exact h
  · rw [if_neg hk, if_neg hk]
    exact clearing e r

end Front

theorem wrapped_lt (k : ℕ) : wrapped k < MAX_LOGS := by
  unfold wrapped
  split
  · assumption
  · decide

end Eeprom

/-! ### The handler's operations -/

namespace LogHandler

open Eeprom

/-- The next address of a ring of which `k` slots are used; a full one is cleared. -/
theorem incrementUnusedLogIndex_eq (h : LogHandler) (r : Ring) {k : ℕ} (hu : h.unused r = r.slot k) :
    h.incrementUnusedLogIndex r.type = (room r (k + 1), h.setUnused r (r.slot (wrapped (k + 1)))) := by
  have heq : h.incrementUnusedLogIndex r.type =
      if r.start + MAX_LOGS * LOG_SIZE ≤ h.unused r + LOG_SIZE then (clearing r, h.setUnused r r.start)
      else ([], h.setUnused r (h.unused r + LOG_SIZE)) := by
    cases r <;> rfl
  have hnext : r.slot k + LOG_SIZE = r.slot (k + 1) := by
    unfold Ring.slot LOG_SIZE
    omega
  have hfull : r.start + MAX_LOGS * LOG_SIZE ≤ r.slot (k + 1) ↔ ¬ k + 1 < MAX_LOGS := by
    unfold Ring.slot LOG_SIZE MAX_LOGS
    omega
  rw [heq, hu, hnext, room, wrapped]
  by_cases hroom : k + 1 < MAX_LOGS
  · rw [if_neg (fun hle => hfull.mp hle hroom), if_pos hroom, if_pos hroom]
  · rw [if_pos (hfull.mpr hroom), if_neg hroom, if_neg hroom]
    rfl

/-- **A push** writes its record and makes room for the next. -/
theorem pushTo_eq (h : LogHandler) (r : Ring) {k : ℕ} (hu : h.unused r = r.slot k)
    (mem : Vector Byte 8) (messageCode : ℕ) (timestamp : BitVec 32) :
    h.pushTo r mem messageCode timestamp =
      some (eeprom_write_page (r.slot k) (logRecord messageCode timestamp) :: room r (k + 1),
        h.setUnused r (r.slot (wrapped (k + 1)))) := by
  have hpush : h.pushTo r mem messageCode timestamp =
      h.push r.type (h.unused r) mem messageCode timestamp := by
    cases r <;> rfl
  rw [hpush, push, Machine.bind_of (enterLogToEeprom_eq mem messageCode timestamp _),
    h.incrementUnusedLogIndex_eq r hu, hu]
  rfl

/-- **The scan** of a ring finds the first free slot; a full ring is cleared. -/
theorem findFirstAvailableLog_eq (h : LogHandler) {e : Eeprom} {r : Ring} {k : ℕ} (hs : e.Scanned r k) :
    h.findFirstAvailableLog e r.type = (room r k, h.setUnused r (r.slot (wrapped k))) := by
  have heq : h.findFirstAvailableLog e r.type = ((slots r.start).find? (e.read_byte · = 0)).elim
      (clearing r, h.setUnused r r.start) fun logAddr => ([], h.setUnused r logAddr) := by
    cases r with
    | log =>
      simp only [findFirstAvailableLog, Ring.type, Ring.start]
      cases (slots LOG_START_ADDR).find? (e.read_byte · = 0) <;> rfl
    | reboot =>
      simp only [findFirstAvailableLog, Ring.type, Ring.start]
      cases (slots REBOOT_STATUS_START_ADDR).find? (e.read_byte · = 0) <;> rfl
  have hfind : (slots r.start).find? (e.read_byte · = 0) =
      ((List.range MAX_LOGS).find? fun i => e.status r i = 0).map r.slot := by
    rw [slots, List.find?_map]
    rfl
  rw [heq, hfind, room, wrapped]
  by_cases hk : k < MAX_LOGS
  · have hfirst : (List.range MAX_LOGS).find? (fun i => decide (e.status r i = 0)) = some k := by
      rw [List.find?_range_eq_some]
      refine ⟨decide_eq_true (hs.free hk), List.mem_range.mpr hk, fun i hi => ?_⟩
      simpa using hs.used i hi
    rw [hfirst, if_pos hk, if_pos hk]
    rfl
  · have hnone : (List.range MAX_LOGS).find? (fun i => decide (e.status r i = 0)) = none := by
      rw [List.find?_eq_none]
      intro i hi
      have hlt := List.mem_range.mp hi
      simpa using hs.used i (by omega)
    rw [hnone, if_neg hk, if_neg hk]
    rfl

/-- **The constructor**, over rings of which some slots are used. -/
theorem new_spec {e : Eeprom} {k : Ring → ℕ} (hs : ∀ r, e.Scanned r (k r)) :
    (new e).1 = room .log (k .log) ++ room .reboot (k .reboot) ∧
      ∀ r, (new e).2.unused r = r.slot (wrapped (k r)) := by
  have hlog := findFirstAvailableLog_eq ⟨0, 0, 0, 0⟩ (hs .log)
  have hkept : ∀ a, Ring.reboot.Inside a → e.writes (room .log (k .log)) a = e a := fun a ha => by
    unfold room
    split
    · rfl
    · exact writes_untouched (clearing_outside .log (Ring.not_inside_of_ne (by decide) ha)) e
  have hreboot := findFirstAvailableLog_eq
    (LogHandler.setUnused ⟨0, 0, 0, 0⟩ .log (Ring.log.slot (wrapped (k .log)))) ((hs .reboot).congr hkept)
  simp only [Ring.type] at hlog hreboot
  simp only [new, hlog, hreboot]
  refine ⟨by simp [findFirstAvailableLog], fun r => ?_⟩
  cases r <;> rfl

/-- The constructor makes room in both rings. -/
theorem new_front {e : Eeprom} {k : Ring → ℕ} (hf : ∀ r, e.Front r (k r)) (r : Ring) :
    (e.writes (new e).1).Front r (wrapped (k r)) := by
  rw [(new_spec fun r => (hf r).scanned).1, writes, List.foldl_append]
  cases r with
  | log =>
    exact (hf .log).room.congr fun a ha =>
      writes_room_outside .reboot _ (Ring.not_inside_of_ne (by decide) ha) _
  | reboot =>
    have hkept := (hf .reboot).congr fun a ha =>
      writes_room_outside .log (k .log) (Ring.not_inside_of_ne (by decide) ha) e
    exact hkept.room

end LogHandler
end Ventilation
