/-
# The log handler and its EEPROM (src/logHandler.cpp, src/eeprom.c)

The handler keeps two rings of log records in the EEPROM and, behind them, the
credentials (`Ventilation.Credentials`). An operation gives the writes it makes, in
order, and the handler it leaves. A record carries the CRC of what precedes it,
high byte first; two bytes behind a message make its CRC 0 exactly if they are
that (`crc16_append_eq_zero_iff`). Whatever the EEPROM holds, the handler keeps
the credentials in one place, and its logs stay in front of them.
-/
import Mathlib.Data.List.GetD
import Ventilation.Lib.Crc
import Ventilation.Lib.CString
import Ventilation.Lib.Machine
import Ventilation.IPStack

namespace Ventilation

open CInt

/-! ### The EEPROM -/

/-- What the chip holds, by address. -/
abbrev Eeprom := ℕ → Byte

/-- What the chip writes at once: a byte or a page. -/
structure EepromWrite where
  addr : ℕ
  data : List Byte

def eeprom_write_byte (address : ℕ) (c : Byte) : EepromWrite := ⟨toUnsigned 16 address, [c]⟩

def eeprom_write_page (address : ℕ) (src : List Byte) : EepromWrite := ⟨toUnsigned 16 address, src⟩

namespace Eeprom

def write (e : Eeprom) (w : EepromWrite) : Eeprom := fun a =>
  if w.addr ≤ a then w.data.getD (a - w.addr) (e a) else e a

def writes (e : Eeprom) (ws : List EepromWrite) : Eeprom := ws.foldl write e

/-- An address that a write leaves alone. -/
def Untouched (w : EepromWrite) (a : ℕ) : Prop := a < w.addr ∨ w.addr + w.data.length ≤ a

theorem write_untouched {w : EepromWrite} {a : ℕ} (h : Untouched w a) (e : Eeprom) : e.write w a = e a := by
  unfold write
  split
  · rcases h with h | h
    · omega
    · exact List.getD_eq_default _ _ (by omega)
  · rfl

/-- A write sees of the old content what it leaves alone. -/
theorem write_congr {e e' : Eeprom} {a : ℕ} (h : e a = e' a) (w : EepromWrite) :
    e.write w a = e'.write w a := by
  unfold write
  rw [h]

theorem writes_untouched : ∀ {ws : List EepromWrite} {a : ℕ}, (∀ w ∈ ws, Untouched w a) →
    ∀ e : Eeprom, e.writes ws a = e a
  | [], _, _, _ => rfl
  | w :: ws, a, h, e => by
    have hrest := writes_untouched (fun v hv => h v (List.mem_cons_of_mem w hv)) (e.write w)
    exact hrest.trans (write_untouched (h w List.mem_cons_self) e)

/-- `eeprom_read_byte`. -/
def read_byte (e : Eeprom) (address : ℕ) : Byte := e (toUnsigned 16 address)

/-- `eeprom_read_page`. -/
def read_page (e : Eeprom) (address size : ℕ) : Vector Byte size :=
  .ofFn fun i => e (toUnsigned 16 address + i)

end Eeprom

/-! ### The CRC of a record -/

/-- A turn of the loop of `crc16`. -/
def crc16Step (crc : BitVec 16) (d : Byte) : BitVec 16 :=
  let x := (crc >>> 8).setWidth 8 ^^^ d
  let x := x ^^^ (x >>> 4)
  (crc <<< 8) ^^^ (x.setWidth 16 <<< 12) ^^^ (x.setWidth 16 <<< 5) ^^^ x.setWidth 16

def crc16 (data : List Byte) : BitVec 16 := data.foldl crc16Step 0xFFFF

/-- What a step mixes in when it looks up `x`. -/
def crc16Mix (x : Byte) : BitVec 16 :=
  let x := x ^^^ (x >>> 4)
  (x.setWidth 16 <<< 12) ^^^ (x.setWidth 16 <<< 5) ^^^ x.setWidth 16

theorem crc16Step_eq (crc : BitVec 16) (d : Byte) :
    crc16Step crc d = (crc <<< 8) ^^^ crc16Mix ((crc >>> 8).setWidth 8 ^^^ d) := by
  simp only [crc16Step, crc16Mix, BitVec.xor_assoc]

/-- Only 0 has a low byte 0. -/
theorem crc16Mix_low : ∀ x : Byte, (crc16Mix x).setWidth 8 = 0#8 ↔ x = 0#8 := by
  decide +kernel

theorem shiftLeft_low (crc : BitVec 16) : (crc <<< 8).setWidth 8 = 0#8 := by
  ext i hi
  simp

/-- The low byte comes back. -/
theorem shiftLeft_back (crc : BitVec 16) : ((crc <<< 8) >>> 8).setWidth 8 = crc.setWidth 8 := by
  ext i hi
  simp [BitVec.getElem_setWidth]
  omega

/-- The register of `crc16`. -/
def crc16Register : CrcRegister (BitVec 16) Byte where
  step := crc16Step
  out crc := (crc >>> 8).setWidth 8
  shift crc := crc <<< 8
  zero := 0#16
  Vacant crc := crc.setWidth 8 = 0#8
  vacant_step crc d := by
    rw [crc16Step_eq, BitVec.setWidth_xor, shiftLeft_low, BitVec.zero_xor, crc16Mix_low,
      BitVec.xor_eq_zero_iff]
    exact eq_comm
  step_out crc := by
    rw [crc16Step_eq, BitVec.xor_self, show crc16Mix 0#8 = 0#16 by decide, BitVec.xor_zero]
  vacant_zero := rfl
  vacant_of_shift crc h := by
    rw [← shiftLeft_back, h]
    rfl
  shift_shift crc := by
    rw [← BitVec.shiftLeft_add]
    exact BitVec.shiftLeft_eq_zero (by decide)

/-- Two bytes behind `d` make the CRC 0 exactly if they are the CRC of `d`,
high byte first. -/
theorem crc16_append_eq_zero_iff (d : List Byte) (a b : Byte) :
    crc16 (d ++ [a, b]) = 0#16 ↔ a = (crc16 d >>> 8).setWidth 8 ∧ b = (crc16 d).setWidth 8 := by
  rw [← shiftLeft_back (crc16 d)]
  exact crc16Register.check_iff 0xFFFF d a b

/-- `appendCrcToBase8Array`, with the new length of the array. -/
def appendCrcToBase8Array {n : ℕ} (base8Array : Vector Byte n) (arrayLen : ℤ) :
    Option (Vector Byte n × ℤ) := do
  let len ← size? arrayLen
  let crc := crc16 (← Buffer.load base8Array 0 len)
  let base8Array ← Buffer.store base8Array len [(crc >>> 8).setWidth 8, crc.setWidth 8]
  pure (base8Array, arrayLen + 2)

/-- `verifyDataIntegrity`. -/
def verifyDataIntegrity {n : ℕ} (base8Array : Vector Byte n) (base8ArrayLen : ℕ) : Option Bool := do
  let data ← Buffer.load base8Array 0 base8ArrayLen
  pure (crc16 data = 0)

/-- A message with its CRC behind it. -/
def withCrc (d : List Byte) : List Byte := d ++ [(crc16 d >>> 8).setWidth 8, (crc16 d).setWidth 8]

theorem crc16_withCrc (d : List Byte) : crc16 (withCrc d) = 0#16 :=
  (crc16_append_eq_zero_iff d _ _).mpr ⟨rfl, rfl⟩

theorem length_withCrc (d : List Byte) : (withCrc d).length = d.length + 2 := List.length_append

/-- The CRC needs two more bytes of the array. -/
theorem appendCrcToBase8Array_eq {n : ℕ} {arr : Vector Byte n} {d : List Byte} (h : d <+: arr.toList)
    (hlen : d.length + 2 ≤ n) : ∃ arr',
      appendCrcToBase8Array arr d.length = some (arr', ((withCrc d).length : ℤ)) ∧
        withCrc d <+: arr'.toList := by
  obtain ⟨arr', h'⟩ := Buffer.store_isSome arr (i := d.length)
    [(crc16 d >>> 8).setWidth 8, (crc16 d).setWidth 8] hlen
  refine ⟨arr', ?_, Buffer.prefix_store h h'⟩
  rw [appendCrcToBase8Array, Machine.bind_of (size?_eq rfl), Machine.bind_of (Buffer.load_of_prefix h)]
  dsimp only
  rw [Machine.bind_of h', length_withCrc]
  push_cast
  rfl

/-! ### The handler -/

def LOG_SIZE : ℕ := 8
def MAX_LOGS : ℕ := 256
def LOG_START_ADDR : ℕ := 0
def LOG_END_ADDR : ℕ := LOG_START_ADDR + MAX_LOGS * LOG_SIZE
def REBOOT_STATUS_START_ADDR : ℕ := LOG_END_ADDR + LOG_SIZE
def REBOOT_STATUS_END_ADDR : ℕ := REBOOT_STATUS_START_ADDR + MAX_LOGS * LOG_SIZE
abbrev CREDENTIALS_ARR_SIZE : ℕ := 64
/-- The next multiple of 64. -/
def CREDENTIALS_START_ADDR : ℕ :=
  REBOOT_STATUS_END_ADDR + (CREDENTIALS_ARR_SIZE - REBOOT_STATUS_END_ADDR % CREDENTIALS_ARR_SIZE)
def CREDENTIALS_USE_ADDR : ℕ := 4160

inductive LogType
  | MSG_LOG | REBOOT_STATUS | COMM_CONFIG

structure LogHandler where
  unusedLogAddr : ℕ
  unusedRebootStatusAddr : ℕ
  unusedCommConfigAddr : ℕ
  currentCommConfigAddr : ℕ

namespace LogHandler

/-- The addresses of the records of a ring. -/
def slots (start : ℕ) : List ℕ := (List.range MAX_LOGS).map fun i => start + LOG_SIZE * i

def clearAllLogs (h : LogHandler) : LogType → List EepromWrite × LogHandler
  | .MSG_LOG => ((slots LOG_START_ADDR).map (eeprom_write_byte · 0),
      { h with unusedLogAddr := LOG_START_ADDR })
  | .REBOOT_STATUS => ((slots REBOOT_STATUS_START_ADDR).map (eeprom_write_byte · 0),
      { h with unusedRebootStatusAddr := REBOOT_STATUS_START_ADDR })
  | .COMM_CONFIG => ([], h)

def findFirstAvailableLog (h : LogHandler) (e : Eeprom) : LogType → List EepromWrite × LogHandler
  | .MSG_LOG =>
    match (slots LOG_START_ADDR).find? (e.read_byte · = 0) with
    | some logAddr => ([], { h with unusedLogAddr := logAddr })
    | none => h.clearAllLogs .MSG_LOG
  | .REBOOT_STATUS =>
    match (slots REBOOT_STATUS_START_ADDR).find? (e.read_byte · = 0) with
    | some logAddr => ([], { h with unusedRebootStatusAddr := logAddr })
    | none => h.clearAllLogs .REBOOT_STATUS
  | .COMM_CONFIG => ([], { h with
      unusedCommConfigAddr := CREDENTIALS_USE_ADDR
      currentCommConfigAddr := CREDENTIALS_START_ADDR })

/-- The constructor. -/
def new (e : Eeprom) : List EepromWrite × LogHandler :=
  let (logs, h) := (⟨0, 0, 0, 0⟩ : LogHandler).findFirstAvailableLog e .MSG_LOG
  let (reboots, h) := h.findFirstAvailableLog (e.writes logs) .REBOOT_STATUS
  let (comm, h) := h.findFirstAvailableLog (e.writes (logs ++ reboots)) .COMM_CONFIG
  (logs ++ reboots ++ comm, h)

def incrementUnusedLogIndex (h : LogHandler) : LogType → List EepromWrite × LogHandler
  | .MSG_LOG =>
    let h := { h with unusedLogAddr := h.unusedLogAddr + LOG_SIZE }
    if LOG_END_ADDR ≤ h.unusedLogAddr then h.clearAllLogs .MSG_LOG else ([], h)
  | .REBOOT_STATUS =>
    let h := { h with unusedRebootStatusAddr := h.unusedRebootStatusAddr + LOG_SIZE }
    if REBOOT_STATUS_END_ADDR ≤ h.unusedRebootStatusAddr then h.clearAllLogs .REBOOT_STATUS else ([], h)
  | .COMM_CONFIG => ([], { h with
      unusedCommConfigAddr := CREDENTIALS_USE_ADDR
      currentCommConfigAddr := CREDENTIALS_START_ADDR })

/-- `createLogArray`: in use, the code, and the timestamp with its high byte first. -/
def createLogArray (messageCode : ℕ) (timestamp : BitVec 32) : List Byte :=
  [1, .ofNat 8 messageCode, (timestamp >>> 24).setWidth 8, (timestamp >>> 16).setWidth 8,
    (timestamp >>> 8).setWidth 8, timestamp.setWidth 8]

/-- `enterLogToEeprom`: the array lies in memory that held `mem`. -/
def enterLogToEeprom (mem : Vector Byte 8) (base8Array : List Byte) (logAddr : ℕ) :
    Option EepromWrite := do
  let arr ← Buffer.store mem 0 base8Array
  let (arr, arrayLen) ← appendCrcToBase8Array arr base8Array.length
  pure (eeprom_write_page logAddr (← Buffer.load arr 0 (← size? arrayLen)))

/-- What `pushLog` and `pushRebootLog` do to the EEPROM. -/
def push (h : LogHandler) (logType : LogType) (logAddr : ℕ) (mem : Vector Byte 8) (code : ℕ)
    (timestamp : BitVec 32) : Option (List EepromWrite × LogHandler) := do
  let w ← enterLogToEeprom mem (createLogArray code timestamp) logAddr
  let (ws, h) := h.incrementUnusedLogIndex logType
  pure (w :: ws, h)

def pushLog (h : LogHandler) := h.push .MSG_LOG h.unusedLogAddr

def pushRebootLog (h : LogHandler) := h.push .REBOOT_STATUS h.unusedRebootStatusAddr

/-! ### What the handler leaves alone -/

/-- The credentials have one place. -/
def Kept (h : LogHandler) : Prop :=
  h.unusedCommConfigAddr = CREDENTIALS_USE_ADDR ∧ h.currentCommConfigAddr = CREDENTIALS_USE_ADDR

variable {h h' : LogHandler} {ws : List EepromWrite}

theorem new_kept (e : Eeprom) : (new e).2.Kept := ⟨rfl, rfl⟩

theorem clearAllLogs_kept (hk : h.Kept) (logType : LogType) : (h.clearAllLogs logType).2.Kept := by
  cases logType <;> exact hk

theorem incrementUnusedLogIndex_kept (hk : h.Kept) (logType : LogType) :
    (h.incrementUnusedLogIndex logType).2.Kept := by
  cases logType with
  | MSG_LOG =>
    unfold incrementUnusedLogIndex
    dsimp only
    split
    · exact clearAllLogs_kept hk .MSG_LOG
    · exact hk
  | REBOOT_STATUS =>
    unfold incrementUnusedLogIndex
    dsimp only
    split
    · exact clearAllLogs_kept hk .REBOOT_STATUS
    · exact hk
  | COMM_CONFIG => exact ⟨rfl, rfl⟩

theorem push_kept (hk : h.Kept) {logType : LogType} {logAddr code : ℕ} {mem : Vector Byte 8}
    {timestamp : BitVec 32} (hp : h.push logType logAddr mem code timestamp = some (ws, h')) : h'.Kept := by
  simp only [push, bind, Option.bind_eq_some_iff, pure, Option.some.injEq, Prod.mk.injEq] at hp
  obtain ⟨w, -, -, rfl⟩ := hp
  exact incrementUnusedLogIndex_kept hk logType

/-- The rings of the logs end before the credentials. -/
theorem slots_below {start a : ℕ} (hstart : start ≤ REBOOT_STATUS_START_ADDR) (ha : CREDENTIALS_USE_ADDR ≤ a) :
    ∀ w ∈ (slots start).map (eeprom_write_byte · 0), Eeprom.Untouched w a := by
  intro w hw
  simp only [slots, List.map_map, List.mem_map, List.mem_range, Function.comp_apply] at hw
  obtain ⟨i, hi, rfl⟩ := hw
  unfold CREDENTIALS_USE_ADDR at ha
  unfold REBOOT_STATUS_START_ADDR LOG_END_ADDR LOG_START_ADDR MAX_LOGS LOG_SIZE at hstart
  unfold MAX_LOGS at hi
  unfold LOG_SIZE
  refine .inr ?_
  rw [eeprom_write_byte, toUnsigned_natCast, Nat.mod_eq_of_lt (by omega), List.length_singleton]
  exact (by omega : start + 8 * i + 1 ≤ a)

theorem findFirstAvailableLog_below {a : ℕ} (ha : CREDENTIALS_USE_ADDR ≤ a) (h : LogHandler) (e : Eeprom)
    (logType : LogType) : ∀ w ∈ (h.findFirstAvailableLog e logType).1, Eeprom.Untouched w a := by
  cases logType with
  | MSG_LOG =>
    unfold findFirstAvailableLog
    dsimp only
    split
    · exact fun w hw => absurd hw List.not_mem_nil
    · exact slots_below (by decide) ha
  | REBOOT_STATUS =>
    unfold findFirstAvailableLog
    dsimp only
    split
    · exact fun w hw => absurd hw List.not_mem_nil
    · exact slots_below le_rfl ha
  | COMM_CONFIG => exact fun w hw => absurd hw List.not_mem_nil

/-- The constructor does not touch the credentials. -/
theorem new_below {a : ℕ} (ha : CREDENTIALS_USE_ADDR ≤ a) (e : Eeprom) :
    ∀ w ∈ (new e).1, Eeprom.Untouched w a := by
  intro w hw
  simp only [new] at hw
  rcases List.mem_append.mp hw with hw | hw
  · rcases List.mem_append.mp hw with hw | hw
    · exact findFirstAvailableLog_below ha _ _ _ w hw
    · exact findFirstAvailableLog_below ha _ _ _ w hw
  · exact findFirstAvailableLog_below ha _ _ _ w hw

end LogHandler
end Ventilation
