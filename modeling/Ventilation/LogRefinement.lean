/-
# The log store over pushes and reboots (src/logHandler.cpp)

What the store is for: two lists of entries, appended to by `pushLog` and `pushRebootLog`,
that survive a reboot and are emptied when 256 entries would fill their
region. `log_store_refines`: from a blank chip on, the slots of a ring show exactly the
entries pushed since it was last cleared, a new handler finds the place the old
one had, and neither ring touches the other or the credentials.
-/
import Mathlib.Data.List.Basic
import Ventilation.LogRings

namespace Ventilation

open Eeprom

/-- The writes clear the ring: its first status byte is set to 0. -/
def cleared (r : Ring) (ws : List EepromWrite) : Bool := ws.any fun w => w.addr = r.start ∧ w.data = [0]

/-- A handler, its EEPROM, and the entries pushed to each ring since it was
last cleared. -/
structure LogRun where
  handler : LogHandler
  eeprom : Eeprom
  entries : Ring → List LogEntry

/-- A push with what the array in memory held, or a reboot. The values of the two
enumerations of messages fit a byte. -/
inductive RingEvent
  | push (r : Ring) (mem : Vector Byte 8) (messageCode : Byte) (timestamp : BitVec 32)
  | reboot

namespace LogRun

/-- What an operation leaves that pushes some entries. -/
def after (s : LogRun) (p : List EepromWrite × LogHandler) (pushed : Ring → List LogEntry) : LogRun where
  handler := p.2
  eeprom := s.eeprom.writes p.1
  entries r := if cleared r p.1 then [] else s.entries r ++ pushed r

def step (s : LogRun) : RingEvent → Option LogRun
  | .push r mem messageCode timestamp =>
    (s.handler.pushTo r mem messageCode.toNat timestamp).map fun p =>
      s.after p fun r' => if r' = r then [(messageCode, timestamp)] else []
  | .reboot => some (s.after (LogHandler.new s.eeprom) fun _ => [])

/-- A first start over a blank chip, or one of which every slot is free. -/
def Init (s : LogRun) : Prop :=
  ∃ e : Eeprom, ((∀ a, e a = 0xff) ∨ ∀ r, ∀ i < MAX_LOGS, e.status r i = 0) ∧
    s = ⟨(LogHandler.new e).2, e.writes (LogHandler.new e).1, fun _ => []⟩

/-- A ring shows its entries: they are in its first slots, the others are
free, and the next push goes behind them. -/
structure Shows (s : LogRun) (r : Ring) : Prop where
  few : (s.entries r).length < MAX_LOGS
  addr : s.handler.unused r = r.slot (s.entries r).length
  listed : ∀ i (hi : i < (s.entries r).length), s.eeprom.validLog (r.slot i) = some (s.entries r)[i]
  free : ∀ i, (s.entries r).length ≤ i → i < MAX_LOGS → s.eeprom.status r i = 0

/-! ### Which writes clear -/

theorem cleared_record (r : Ring) (addr : ℕ) (messageCode : ℕ) (timestamp : BitVec 32)
    (ws : List EepromWrite) :
    cleared r (eeprom_write_page addr (logRecord messageCode timestamp) :: ws) = cleared r ws := by
  have hne : (eeprom_write_page addr (logRecord messageCode timestamp)).data ≠ [0] := fun h =>
    absurd ((length_logRecord messageCode timestamp).symm.trans (congrArg List.length h)) (by decide)
  rw [cleared, List.any_cons, cleared, decide_eq_false (fun h => hne h.2), Bool.false_or]

theorem cleared_room (r : Ring) (k : ℕ) : cleared r (room r k) = decide (¬ k < MAX_LOGS) := by
  unfold room
  by_cases hk : k < MAX_LOGS
  · simp [hk, cleared]
  · have haddr : (eeprom_write_byte (r.slot 0) 0).addr = r.start := r.toUnsigned_slot (by decide)
    have hmem : eeprom_write_byte (r.slot 0) 0 ∈ clearing r :=
      List.mem_map.mpr ⟨r.slot 0, List.mem_map.mpr ⟨0, by simp [MAX_LOGS], rfl⟩, rfl⟩
    simp only [hk, if_false, not_false_eq_true, decide_true, cleared, List.any_eq_true]
    exact ⟨_, hmem, decide_eq_true ⟨haddr, rfl⟩⟩

theorem cleared_room_of_ne {r r' : Ring} (hne : r' ≠ r) (k : ℕ) : cleared r' (room r k) = false := by
  have hout : ¬ r.Inside r'.start := Ring.not_inside_of_ne hne (r'.inside_slot (by decide) (by decide) :
    r'.Inside (r'.slot 0 + 0))
  unfold room
  split
  · rfl
  · rw [cleared, List.any_eq_false]
    intro w hw hp
    obtain ⟨haddr, hdata⟩ : w.addr = r'.start ∧ w.data = [0] := by simpa using hp
    have hun : r'.start < w.addr ∨ w.addr + w.data.length ≤ r'.start := clearing_outside r hout w hw
    rw [haddr, hdata, List.length_singleton] at hun
    omega

/-! ### The steps -/

variable {s s' : LogRun}

/-- What the ring shows is what the chip holds. -/
theorem Shows.front {r : Ring} (h : s.Shows r) : s.eeprom.Front r (s.entries r).length := by
  refine ⟨h.few.le, fun i hi => ?_, h.free⟩
  rw [status_of_validLog (h.listed i hi)]
  decide

/-- What a push does. -/
theorem step_push {r : Ring} (h : s.Shows r) {mem : Vector Byte 8} {messageCode : Byte}
    {timestamp : BitVec 32} (hst : s.step (.push r mem messageCode timestamp) = some s') :
    s' = s.after (eeprom_write_page (r.slot (s.entries r).length) (logRecord messageCode.toNat timestamp) ::
        room r ((s.entries r).length + 1),
      s.handler.setUnused r (r.slot (wrapped ((s.entries r).length + 1))))
      fun r' => if r' = r then [(messageCode, timestamp)] else [] := by
  rw [step, s.handler.pushTo_eq r h.addr, Option.map_some, Option.some.injEq] at hst
  exact hst.symm

/-- The entries of the ring after a push to it. -/
theorem entries_push {r : Ring} (h : s.Shows r) {mem : Vector Byte 8} {messageCode : Byte}
    {timestamp : BitVec 32} (hst : s.step (.push r mem messageCode timestamp) = some s') :
    s'.entries r = if (s.entries r).length + 1 < MAX_LOGS then s.entries r ++ [(messageCode, timestamp)]
      else [] := by
  rw [step_push h hst]
  simp only [after, cleared_record, cleared_room]
  by_cases hk : (s.entries r).length + 1 < MAX_LOGS
  · simp [hk]
  · simp [hk]

/-- A record behind the others shows. -/
theorem validLog_push {r : Ring} (h : s.Shows r) (messageCode : Byte) (timestamp : BitVec 32) (i : ℕ)
    (hi : i < (s.entries r ++ [(messageCode, timestamp)]).length) :
    (s.eeprom.write (eeprom_write_page (r.slot (s.entries r).length)
      (logRecord messageCode.toNat timestamp))).validLog (r.slot i) =
      some (s.entries r ++ [(messageCode, timestamp)])[i] := by
  have hfew := h.few
  rw [List.length_append, List.length_singleton] at hi
  by_cases hlt : i < (s.entries r).length
  · rw [List.getElem_append_left hlt, ← h.listed i hlt]
    refine validLog_congr (by omega) fun j hj => write_record_of_ne h.few _ _ _ (.inl ?_)
    unfold Ring.slot LOG_SIZE at *
    omega
  · have hlast : i = (s.entries r).length := by omega
    subst hlast
    rw [List.getElem_append_right le_rfl]
    have hrecord : ∀ j x, (logRecord messageCode.toNat timestamp)[j]? = some x →
        s.eeprom.write (eeprom_write_page (r.slot (s.entries r).length)
          (logRecord messageCode.toNat timestamp)) (r.slot (s.entries r).length + j) = x := by
      intro j x hx
      obtain ⟨hj, rfl⟩ := List.getElem?_eq_some_iff.mp hx
      rw [length_logRecord] at hj
      rw [write_page h.few (length_logRecord _ _), if_pos (by omega), Nat.add_sub_cancel_left,
        List.getD_eq_getElem]
    rw [validLog_record h.few hrecord]
    simp

/-- A push to a ring shows in it. -/
theorem Shows.push {r : Ring} (h : s.Shows r) {mem : Vector Byte 8} {messageCode : Byte}
    {timestamp : BitVec 32} (hst : s.step (.push r mem messageCode timestamp) = some s') : s'.Shows r := by
  have hentries := entries_push h hst
  have hfront := h.front.write_record h.few messageCode.toNat timestamp
  rw [step_push h hst] at hentries ⊢
  by_cases hk : (s.entries r).length + 1 < MAX_LOGS
  · rw [if_pos hk] at hentries
    have hlen : (s.entries r ++ [(messageCode, timestamp)]).length = (s.entries r).length + 1 := by simp
    refine ⟨?_, ?_, ?_, ?_⟩
    · rw [hentries, hlen]
      exact hk
    · rw [hentries, hlen]
      simp [after, wrapped, hk]
    · intro i hi
      simp only [hentries] at hi ⊢
      simp only [after, room, if_pos hk]
      exact validLog_push h messageCode timestamp i hi
    · rw [hentries, hlen]
      simp only [after, room, if_pos hk]
      exact hfront.free
  · rw [if_neg hk] at hentries
    refine ⟨?_, ?_, ?_, ?_⟩
    · rw [hentries]
      decide
    · rw [hentries]
      simp [after, wrapped, hk]
    · intro i hi
      rw [hentries] at hi
      exact absurd hi (Nat.not_lt_zero i)
    · rw [hentries]
      have hroom := hfront.room
      rw [wrapped, if_neg hk] at hroom
      exact hroom.free

/-- What one ring shows depends on its own bytes only. -/
theorem Shows.congr {r : Ring} (h : s.Shows r) (hentries : s'.entries r = s.entries r)
    (haddr : s'.handler.unused r = s.handler.unused r)
    (he : ∀ a, r.Inside a → s'.eeprom a = s.eeprom a) : s'.Shows r := by
  have hfew := h.few
  refine ⟨by rw [hentries]; exact h.few, by rw [haddr, hentries]; exact h.addr, fun i hi => ?_, ?_⟩
  · simp only [hentries] at hi ⊢
    rw [← h.listed i hi]
    exact validLog_congr (by omega) fun j hj => he _ (r.inside_slot (by omega) hj)
  · rw [hentries]
    exact (h.front.congr he).free

/-- A push leaves alone what is outside its ring. -/
theorem push_outside {r : Ring} (h : s.Shows r) {mem : Vector Byte 8} {messageCode : Byte}
    {timestamp : BitVec 32} (hst : s.step (.push r mem messageCode timestamp) = some s') {a : ℕ}
    (ha : ¬ r.Inside a) : s'.eeprom a = s.eeprom a := by
  rw [step_push h hst]
  have hrecord : s.eeprom.write (eeprom_write_page (r.slot (s.entries r).length)
      (logRecord messageCode.toNat timestamp)) a = s.eeprom a := by
    have hfew := h.few
    refine write_record_of_ne h.few _ _ _ ?_
    unfold Ring.Inside Ring.slot LOG_SIZE at *
    omega
  exact (writes_room_outside r _ ha _).trans hrecord

/-- A push does not show in the other ring. -/
theorem Shows.push_of_ne {r r' : Ring} (hne : r' ≠ r) (h : s.Shows r) (h' : s.Shows r') {mem : Vector Byte 8}
    {messageCode : Byte} {timestamp : BitVec 32}
    (hst : s.step (.push r mem messageCode timestamp) = some s') : s'.Shows r' := by
  refine h'.congr ?_ ?_ fun a ha => push_outside h hst (Ring.not_inside_of_ne hne ha)
  · rw [step_push h hst]
    simp [after, cleared_record, cleared_room_of_ne hne, hne]
  · rw [step_push h hst]
    simp [after, hne]

/-- A reboot changes nothing. -/
theorem step_reboot (h : ∀ r, s.Shows r) (hst : s.step .reboot = some s') :
    s'.eeprom = s.eeprom ∧ s'.entries = s.entries ∧ ∀ r, s'.handler.unused r = s.handler.unused r := by
  have hnew := LogHandler.new_spec fun r => (h r).front.scanned
  have hnone : (LogHandler.new s.eeprom).1 = [] := by
    rw [hnew.1, room, room, if_pos (h .log).few, if_pos (h .reboot).few]
    rfl
  rw [step, Option.some.injEq] at hst
  rw [← hst]
  refine ⟨?_, ?_, fun r => ?_⟩
  · simp only [after, hnone]
    rfl
  · funext r
    simp [after, hnone, cleared]
  · simp only [after]
    rw [hnew.2 r, wrapped, if_pos (h r).few, (h r).addr]

theorem Shows.reboot (h : ∀ r, s.Shows r) (hst : s.step .reboot = some s') (r : Ring) : s'.Shows r := by
  obtain ⟨heeprom, hentries, haddr⟩ := step_reboot h hst
  exact (h r).congr (congrFun hentries r) (haddr r) fun a _ => congrFun heeprom a

/-- The first start. -/
theorem Shows.init (h : s.Init) (r : Ring) : s.Shows r := by
  obtain ⟨e, he, rfl⟩ := h
  have hempty : ∃ k : Ring → ℕ, (∀ r, e.Front r (k r)) ∧ ∀ r, wrapped (k r) = 0 := by
    rcases he with hblank | hfree
    · refine ⟨fun _ => MAX_LOGS, fun r => ⟨le_rfl, fun i hi => ?_, fun i hi hi' => ?_⟩, fun _ => rfl⟩
      · rw [status_eq hi, hblank]
        decide
      · exact absurd hi' (Nat.not_lt.mpr hi)
    · exact ⟨fun _ => 0, fun r => ⟨Nat.zero_le _, fun i hi => absurd hi (Nat.not_lt_zero i),
        fun i _ hi => hfree r i hi⟩, fun _ => rfl⟩
  obtain ⟨k, hfront, hzero⟩ := hempty
  have hnew := LogHandler.new_front hfront r
  rw [hzero] at hnew
  refine ⟨(by decide : 0 < MAX_LOGS), ?_, fun i hi => absurd hi (Nat.not_lt_zero i), hnew.free⟩
  simp only [(LogHandler.new_spec fun r => (hfront r).scanned).2 r, hzero]
  rfl

/-! ### Every run -/

theorem Reach.shows (h : Machine.Reach step Init Machine.Always s) : ∀ r, s.Shows r := by
  refine h.invariant (J := fun s => ∀ r, s.Shows r) (fun _ => Shows.init) fun s e t hs _ hst r' => ?_
  cases e with
  | push r mem messageCode timestamp =>
    by_cases hr : r' = r
    · subst hr
      exact (hs r').push hst
    · exact (hs r).push_of_ne hr (hs r') hst
  | reboot => exact Shows.reboot hs hst r'

/-- What `printValidLogs` prints of a ring that shows its entries. -/
theorem Shows.printed {r : Ring} (h : s.Shows r) :
    s.eeprom.printValidLogs r = (s.entries r).mapIdx fun i entry => (r.slot i, entry) := by
  have hfew := h.few
  obtain ⟨m, hm⟩ : ∃ m, MAX_LOGS = (s.entries r).length + m := ⟨_, (Nat.add_sub_cancel' hfew.le).symm⟩
  have hfront : (List.range (s.entries r).length).filterMap
      (fun i => (s.eeprom.validLog (r.slot i)).map fun entry => (r.slot i, entry)) =
        (s.entries r).mapIdx fun i entry => (r.slot i, entry) := by
    have hsome : ∀ i ∈ List.range (s.entries r).length,
        ((s.eeprom.validLog (r.slot i)).map fun entry => (r.slot i, entry)) =
          some (r.slot i, (s.entries r).getD i default) := by
      intro i hi
      have hlt := List.mem_range.mp hi
      rw [h.listed i hlt, List.getD_eq_getElem _ _ hlt]
      rfl
    rw [List.filterMap_eq_map_iff_forall_eq_some.mpr hsome]
    refine List.ext_getElem (by simp) fun i hi hi' => ?_
    rw [List.length_mapIdx] at hi'
    rw [List.getElem_map, List.getElem_range, List.getElem_mapIdx, List.getD_eq_getElem _ _ hi']
  have hback : (List.range m).filterMap (fun i =>
      (s.eeprom.validLog (r.slot ((s.entries r).length + i))).map
        fun entry => (r.slot ((s.entries r).length + i), entry)) = [] := by
    rw [List.filterMap_eq_nil_iff]
    intro i hi
    rw [Option.map_eq_none_iff, Option.eq_none_iff_forall_ne_some]
    intro entry hentry
    have hfree := h.free ((s.entries r).length + i) (Nat.le_add_right _ _)
      (by have := List.mem_range.mp hi; omega)
    rw [status_of_validLog hentry] at hfree
    exact absurd hfree (by decide)
  rw [printValidLogs, LogHandler.slots, List.filterMap_map, hm, List.range_add, List.filterMap_append,
    List.filterMap_map]
  exact (congrArg₂ _ hfront hback).trans (List.append_nil _)

/-- **The log store refines two lists that survive reboots.** -/
theorem log_store_refines (h : Machine.Reach step Init Machine.Always s) :
    (∀ r, s.Shows r ∧
      s.eeprom.printValidLogs r = (s.entries r).mapIdx (fun i entry => (r.slot i, entry)) ∧
      (LogHandler.new s.eeprom).2.unused r = s.handler.unused r) ∧
    (LogHandler.new s.eeprom).1 = [] ∧
    (∀ (r : Ring) mem messageCode timestamp, ∃ s', s.step (.push r mem messageCode timestamp) = some s' ∧
      ∀ a, ¬ r.Inside a → s'.eeprom a = s.eeprom a) ∧
    ∀ (r : Ring) (a : ℕ), ¬ r.Inside a → s.eeprom.writes (s.handler.clearAllLogs r.type).1 a = s.eeprom a := by
  have hs := Reach.shows h
  have hnew := LogHandler.new_spec fun r => (hs r).front.scanned
  refine ⟨fun r => ⟨hs r, (hs r).printed, ?_⟩, ?_, fun r mem messageCode timestamp => ?_, fun r a ha => ?_⟩
  · rw [hnew.2 r, wrapped, if_pos (hs r).few, (hs r).addr]
  · rw [hnew.1, room, room, if_pos (hs .log).few, if_pos (hs .reboot).few]
    rfl
  · have hst : ∃ s', s.step (.push r mem messageCode timestamp) = some s' := by
      rw [step, s.handler.pushTo_eq r (hs r).addr]
      exact ⟨_, rfl⟩
    obtain ⟨s', hst⟩ := hst
    exact ⟨s', hst, fun a ha => push_outside (hs r) hst ha⟩
  · have hclear : (s.handler.clearAllLogs r.type).1 = clearing r := by
      cases r <;> rfl
    rw [hclear]
    exact writes_untouched (clearing_outside r ha) _

/-- A push on a blank chip shows after it. -/
theorem log_store_refines_push : ∃ s s' : LogRun, s.Init ∧
    s.step (.push .log (.replicate 8 0) 3 7) = some s' ∧
    s'.eeprom.printValidLogs .log = [(Ring.log.slot 0, 3, 7)] := by
  let s : LogRun := ⟨(LogHandler.new fun _ => 0xff).2,
    Eeprom.writes (fun _ => 0xff) (LogHandler.new fun _ => 0xff).1, fun _ => []⟩
  have hs : s.Init := ⟨fun _ => 0xff, .inl fun _ => rfl, rfl⟩
  obtain ⟨-, -, hpush, -⟩ := log_store_refines (.init hs)
  obtain ⟨s', hst, -⟩ := hpush .log (.replicate 8 0) 3 7
  obtain ⟨hshows, -⟩ := log_store_refines (.step (.init hs) trivial hst)
  refine ⟨s, s', hs, hst, (hshows .log).2.1.trans ?_⟩
  rw [entries_push (Shows.init hs .log) hst]
  rfl

end LogRun
end Ventilation
