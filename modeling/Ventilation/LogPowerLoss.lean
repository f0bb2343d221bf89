/-
# The log store when power is lost (src/logHandler.cpp)

A push is a record and, behind the last slot, a clearing of 256 single writes;
a start clears the rings it finds full. Power may go after any of these writes.

* `power_loss_safe`: in every run in which no clearing is cut in its middle,
  the slot a push goes to is free and `printValidLogs` lists the entries in
  the order they were pushed in.
* `cut_clearing_unsafe`: a clearing cut after `n` of its writes leaves `n` free
  slots in front of used ones, and `n` pushes later the unused address is one of those.
-/
import Mathlib.Data.Nat.Find
import Ventilation.LogRings

namespace Ventilation

open Eeprom

/-- The handler while there is power, the EEPROM, how many pushes there were,
and which of them wrote the record at an address last. -/
structure PowerRun where
  handler : Option LogHandler
  eeprom : Eeprom
  count : ℕ
  number : ℕ → ℕ

/-- A start or a push, whole or cut after `n` writes. -/
inductive PowerEvent
  | boot
  | push (r : Ring) (mem : Vector Byte 8) (messageCode : Byte) (timestamp : BitVec 32)
  | bootCut (n : ℕ)
  | pushCut (r : Ring) (mem : Vector Byte 8) (messageCode : Byte) (timestamp : BitVec 32) (n : ℕ)

namespace PowerRun

def step (s : PowerRun) : PowerEvent → Option PowerRun
  | .boot =>
    let (ws, h) := LogHandler.new s.eeprom
    some { s with handler := some h, eeprom := s.eeprom.writes ws }
  | .push r mem messageCode timestamp => do
    let h ← s.handler
    let (ws, h') ← h.pushTo r mem messageCode.toNat timestamp
    pure ⟨some h', s.eeprom.writes ws, s.count + 1, Function.update s.number (h.unused r) s.count⟩
  | .bootCut n =>
    some { s with handler := none, eeprom := s.eeprom.writes ((LogHandler.new s.eeprom).1.take n) }
  | .pushCut r mem messageCode timestamp n => do
    let h ← s.handler
    let (ws, _) ← h.pushTo r mem messageCode.toNat timestamp
    let number := if n = 0 then s.number else Function.update s.number (h.unused r) s.count
    pure ⟨none, s.eeprom.writes (ws.take n), s.count + 1, number⟩

/-- A blank chip without power. -/
def Init (s : PowerRun) : Prop := s.handler = none ∧ ∀ a, s.eeprom a = 0xff

/-- Under power the slots that are written next are free, and what is listed
is in the order of the pushes. -/
def Safe (s : PowerRun) : Prop :=
  ∀ h, s.handler = some h → ∀ r, s.eeprom.read_byte (h.unused r) = 0 ∧
    s.eeprom.validLog (h.unused r) = none ∧
    ((s.eeprom.printValidLogs r).map fun line => s.number line.1).Pairwise (· < ·)

/-- How many rings have no free slot. -/
def fullRings (e : Eeprom) : ℕ := [Ring.log, .reboot].countP fun r => ∀ i < MAX_LOGS, e.status r i ≠ 0

/-- No clearing is cut between its first write and its last. A push clears
behind the last slot, after it wrote its record. -/
def Whole (s : PowerRun) : PowerEvent → Prop
  | .boot => True
  | .push .. => True
  | .bootCut n => n % MAX_LOGS = 0 ∨ fullRings s.eeprom * MAX_LOGS ≤ n
  | .pushCut r _ _ _ n => n ≤ 1 ∨ MAX_LOGS < n ∨ ∀ h, s.handler = some h → h.unused r ≠ r.slot (MAX_LOGS - 1)

/-! ### What the writes keep -/

/-- The first slots of each ring are used and the others free, and behind a
listed record there is none that was pushed before it. -/
structure Ordered (e : Eeprom) (number : ℕ → ℕ) (count : ℕ) (k : Ring → ℕ) : Prop where
  front : ∀ r, e.Front r (k r)
  past : ∀ r : Ring, ∀ i < MAX_LOGS, e.validLog (r.slot i) ≠ none → number (r.slot i) < count
  order : ∀ (r : Ring) (i j : ℕ), i < j → j < MAX_LOGS → e.validLog (r.slot i) ≠ none →
    e.validLog (r.slot j) ≠ none → number (r.slot i) < number (r.slot j)

theorem length_room (r : Ring) (k : ℕ) : (room r k).length = if k < MAX_LOGS then 0 else MAX_LOGS := by
  unfold room
  split
  · rfl
  · exact length_clearing r

namespace Ordered

variable {e : Eeprom} {number : ℕ → ℕ} {count : ℕ} {k : Ring → ℕ}

/-- A free slot is not listed. -/
theorem validLog_free (h : Ordered e number count k) {r : Ring} {i : ℕ} (hki : k r ≤ i) (hi : i < MAX_LOGS) :
    e.validLog (r.slot i) = none := by
  rw [Option.eq_none_iff_forall_ne_some]
  intro entry hentry
  have hfree := (h.front r).free i hki hi
  rw [status_of_validLog hentry] at hfree
  exact absurd hfree (by decide)

/-- Making room in a ring. -/
theorem room (h : Ordered e number count k) (r : Ring) :
    Ordered (e.writes (Eeprom.room r (k r))) number count (Function.update k r (wrapped (k r))) := by
  have hfront : ∀ r', (e.writes (Eeprom.room r (k r))).Front r' (Function.update k r (wrapped (k r)) r') := by
    intro r'
    by_cases hr : r' = r
    · rw [hr, Function.update_self]
      exact (h.front r).room
    · rw [Function.update_of_ne hr]
      exact (h.front r').congr fun a ha => writes_room_outside r _ (Ring.not_inside_of_ne hr ha) e
  -- what is listed was listed before
  have hlisted : ∀ (r' : Ring), ∀ i < MAX_LOGS, (e.writes (Eeprom.room r (k r))).validLog (r'.slot i) ≠ none →
      e.validLog (r'.slot i) ≠ none := by
    intro r' i hi hne
    by_cases hr : r' = r
    · subst hr
      by_cases hk : k r' < MAX_LOGS
      · rwa [Eeprom.room, if_pos hk] at hne
      · obtain ⟨entry, hentry⟩ := Option.ne_none_iff_exists'.mp hne
        have hfree := (hfront r').free i (by rw [Function.update_self, wrapped, if_neg hk]; omega) hi
        rw [status_of_validLog hentry] at hfree
        exact absurd hfree (by decide)
    · rwa [validLog_congr hi fun j hj =>
        writes_room_outside r _ (Ring.not_inside_of_ne hr (r'.inside_slot hi hj)) e] at hne
  refine ⟨hfront, fun r' i hi hne => h.past r' i hi (hlisted r' i hi hne), ?_⟩
  intro r' i j hij hj hi' hj'
  exact h.order r' i j hij hj (hlisted r' i (by omega) hi') (hlisted r' j hj hj')

/-- Writing a record. -/
theorem record (h : Ordered e number count k) {r : Ring} (hk : k r < MAX_LOGS) (messageCode : ℕ)
    (timestamp : BitVec 32) :
    Ordered (e.write (eeprom_write_page (r.slot (k r)) (logRecord messageCode timestamp)))
      (Function.update number (r.slot (k r)) count) (count + 1) (Function.update k r (k r + 1)) := by
  -- another slot keeps its record and its number
  have hother : ∀ (r' : Ring), ∀ i < MAX_LOGS, (r' = r → i ≠ k r) →
      (e.write (eeprom_write_page (r.slot (k r)) (logRecord messageCode timestamp))).validLog (r'.slot i) =
        e.validLog (r'.slot i) ∧
      Function.update number (r.slot (k r)) count (r'.slot i) = number (r'.slot i) := by
    intro r' i hi hne
    refine ⟨validLog_congr hi fun j hj => write_record_of_ne hk _ _ _ (Ring.slot_apart hi hk hj hne),
      Function.update_of_ne (fun heq => ?_) _ _⟩
    have hapart := Ring.slot_apart hi hk (by decide : 0 < LOG_SIZE) hne
    unfold LOG_SIZE at hapart
    omega
  have hself : Function.update number (r.slot (k r)) count (r.slot (k r)) = count := Function.update_self _ _ _
  refine ⟨fun r' => ?_, fun r' i hi hne => ?_, fun r' i j hij hj hi' hj' => ?_⟩
  · by_cases hr : r' = r
    · rw [hr, Function.update_self]
      exact (h.front r).write_record hk messageCode timestamp
    · rw [Function.update_of_ne hr]
      refine (h.front r').congr fun a ha => write_record_of_ne hk _ _ _ ?_
      have hout := Ring.not_inside_of_ne hr ha
      unfold Ring.Inside at hout
      unfold Ring.slot LOG_SIZE MAX_LOGS at *
      omega
  · by_cases hlast : r' = r ∧ i = k r
    · rw [hlast.1, hlast.2, hself]
      exact Nat.lt_succ_self count
    · have hkept := hother r' i hi fun hr hi => hlast ⟨hr, hi⟩
      rw [hkept.1] at hne
      rw [hkept.2]
      exact Nat.lt_succ_of_lt (h.past r' i hi hne)
  · by_cases hlast : r' = r ∧ i = k r
    · -- no slot behind the new record is listed
      obtain ⟨rfl, rfl⟩ := hlast
      rw [(hother r' j hj fun _ => by omega).1, h.validLog_free (by omega) hj] at hj'
      exact absurd rfl hj'
    · have hkept := hother r' i (by omega) fun hr hi => hlast ⟨hr, hi⟩
      rw [hkept.1] at hi'
      rw [hkept.2]
      by_cases hnew : r' = r ∧ j = k r
      · rw [hnew.1, hnew.2, hself, ← hnew.1]
        exact h.past r' i (by omega) hi'
      · have hkept' := hother r' j hj fun hr hj => hnew ⟨hr, hj⟩
        rw [hkept'.1] at hj'
        rw [hkept'.2]
        exact h.order r' i j hij hj hi' hj'

/-- What `printValidLogs` prints is in order. -/
theorem printed (h : Ordered e number count k) (r : Ring) :
    ((e.printValidLogs r).map fun line => number line.1).Pairwise (· < ·) := by
  rw [List.pairwise_map, printValidLogs, LogHandler.slots, List.filterMap_map, List.pairwise_filterMap]
  refine List.Pairwise.imp_of_mem (fun {i j} _ hj hij line hline line' hline' => ?_) List.pairwise_lt_range
  obtain ⟨entry, hentry, rfl⟩ := Option.map_eq_some_iff.mp hline
  obtain ⟨entry', hentry', rfl⟩ := Option.map_eq_some_iff.mp hline'
  exact h.order r i j hij (List.mem_range.mp hj) (Option.ne_none_iff_exists'.mpr ⟨entry, hentry⟩)
    (Option.ne_none_iff_exists'.mpr ⟨entry', hentry'⟩)

/-- The rings without a free slot. -/
theorem fullRings_eq (h : Ordered e number count k) :
    fullRings e * MAX_LOGS = (Eeprom.room .log (k .log)).length + (Eeprom.room .reboot (k .reboot)).length := by
  have hfull : ∀ r, (∀ i < MAX_LOGS, e.status r i ≠ 0) ↔ ¬ k r < MAX_LOGS := by
    intro r
    have hle := (h.front r).le
    constructor
    · intro hall hk
      exact hall (k r) hk ((h.front r).free _ le_rfl hk)
    · intro hk i hi
      exact (h.front r).used i (by omega)
  simp only [fullRings, List.countP_cons, List.countP_nil, decide_eq_true_eq, hfull, length_room]
  by_cases hlog : k .log < MAX_LOGS
  · by_cases hreboot : k .reboot < MAX_LOGS
    · simp [hlog, hreboot]
    · simp only [hlog, hreboot]
      simp
  · by_cases hreboot : k .reboot < MAX_LOGS
    · simp only [hlog, hreboot]
      simp
    · simp only [hlog, hreboot]
      simp [MAX_LOGS]

end Ordered

/-! ### The steps -/

/-- The handler's addresses are the first free slots. -/
def Inv (s : PowerRun) : Prop :=
  ∃ k : Ring → ℕ, Ordered s.eeprom s.number s.count k ∧
    ∀ h, s.handler = some h → ∀ r, k r < MAX_LOGS ∧ h.unused r = r.slot (k r)

variable {s s' : PowerRun}

theorem Inv.init (h : s.Init) : s.Inv := by
  obtain ⟨hhandler, hblank⟩ := h
  have hstatus : ∀ (r : Ring), ∀ i < MAX_LOGS, s.eeprom.status r i = 0xff := fun r i hi => by
    rw [status_eq hi, hblank]
  have hnone : ∀ (r : Ring), ∀ i < MAX_LOGS, s.eeprom.validLog (r.slot i) = none := by
    intro r i hi
    rw [Option.eq_none_iff_forall_ne_some]
    intro entry hentry
    have hone := status_of_validLog hentry
    rw [hstatus r i hi] at hone
    exact absurd hone (by decide)
  refine ⟨fun _ => MAX_LOGS, ⟨fun r => ⟨le_rfl, fun i hi => ?_, fun i hi hi' => ?_⟩, ?_, ?_⟩, ?_⟩
  · rw [hstatus r i hi]
    decide
  · exact absurd hi' (Nat.not_lt.mpr hi)
  · exact fun r i hi hne => absurd (hnone r i hi) hne
  · exact fun r i j _ hj _ hne => absurd (hnone r j hj) hne
  · intro h hh
    rw [hhandler] at hh
    cases hh

/-- What a whole part of a start's writes leaves. -/
theorem Inv.start (h : s.Inv) {n : ℕ} (hn : n % MAX_LOGS = 0 ∨ fullRings s.eeprom * MAX_LOGS ≤ n) :
    ∃ k, Ordered (s.eeprom.writes ((LogHandler.new s.eeprom).1.take n)) s.number s.count k := by
  obtain ⟨k, hk, -⟩ := h
  have hlog := hk.room .log
  have hboth := hlog.room .reboot
  rw [hk.fullRings_eq] at hn
  rw [(LogHandler.new_spec fun r => (hk.front r).scanned).1, List.take_append]
  rw [Function.update_of_ne (by decide : Ring.reboot ≠ .log)] at hboth
  by_cases hcut : n < (room .log (k .log)).length
  · have hzero : n = 0 := by
      rw [length_room] at hcut hn
      split at hcut
      · omega
      · rw [if_neg (by assumption)] at hn
        unfold MAX_LOGS at *
        omega
    rw [hzero, List.take_zero, Nat.zero_sub, List.take_zero]
    exact ⟨k, hk⟩
  · rw [List.take_of_length_le (Nat.not_lt.mp hcut)]
    by_cases hcut' : n - (room .log (k .log)).length < (room .reboot (k .reboot)).length
    · have hzero : n - (room .log (k .log)).length = 0 := by
        rw [length_room, length_room] at *
        unfold MAX_LOGS at *
        split_ifs at * <;> omega
      rw [hzero, List.take_zero, List.append_nil]
      exact ⟨_, hlog⟩
    · rw [List.take_of_length_le (Nat.not_lt.mp hcut'), writes, List.foldl_append]
      exact ⟨_, hboth⟩

theorem Inv.boot (h : s.Inv) (hst : s.step .boot = some s') : s'.Inv := by
  obtain ⟨k, hk, -⟩ := h
  have hnew := LogHandler.new_spec fun r => (hk.front r).scanned
  have hboth := (hk.room .log).room .reboot
  rw [Function.update_of_ne (by decide : Ring.reboot ≠ .log)] at hboth
  rw [step, Option.some.injEq] at hst
  subst hst
  refine ⟨Function.update (Function.update k .log (wrapped (k .log))) .reboot (wrapped (k .reboot)), ?_, ?_⟩
  · dsimp only
    rw [hnew.1, writes, List.foldl_append]
    exact hboth
  · intro h hh r
    cases hh
    rw [hnew.2 r]
    cases r
    · exact ⟨wrapped_lt _, rfl⟩
    · exact ⟨wrapped_lt _, rfl⟩

theorem Inv.bootCut (h : s.Inv) {n : ℕ} (hP : s.Whole (.bootCut n)) (hst : s.step (.bootCut n) = some s') :
    s'.Inv := by
  obtain ⟨k, hk⟩ := h.start hP
  rw [step, Option.some.injEq] at hst
  subst hst
  exact ⟨k, hk, fun h hh => nomatch hh⟩

theorem Inv.push (h : s.Inv) {r : Ring} {mem : Vector Byte 8} {messageCode : Byte} {timestamp : BitVec 32}
    (hst : s.step (.push r mem messageCode timestamp) = some s') : s'.Inv := by
  obtain ⟨k, hk, haddr⟩ := h
  obtain ⟨h, hh, hst⟩ := Option.bind_eq_some_iff.mp hst
  obtain ⟨hlt, hu⟩ := haddr h hh r
  rw [h.pushTo_eq r hu, Option.bind_eq_bind, Option.bind_some] at hst
  cases hst
  have hroom := (hk.record hlt messageCode.toNat timestamp).room r
  rw [Function.update_self, Function.update_idem] at hroom
  refine ⟨Function.update k r (wrapped (k r + 1)), ?_, fun h' hh' r' => ?_⟩
  · rw [hu]
    exact hroom
  · cases hh'
    by_cases hr : r' = r
    · rw [hr, Function.update_self]
      exact ⟨wrapped_lt _, h.unused_setUnused r _⟩
    · rw [Function.update_of_ne hr, h.unused_setUnused_of_ne hr]
      exact haddr h hh r'

/-- Another push was counted. -/
theorem Ordered.succ {e : Eeprom} {number : ℕ → ℕ} {count : ℕ} {k : Ring → ℕ}
    (h : Ordered e number count k) : Ordered e number (count + 1) k :=
  ⟨h.front, fun r i hi hne => Nat.lt_succ_of_lt (h.past r i hi hne), h.order⟩

theorem Inv.pushCut (h : s.Inv) {r : Ring} {mem : Vector Byte 8} {messageCode : Byte}
    {timestamp : BitVec 32} {n : ℕ} (hP : s.Whole (.pushCut r mem messageCode timestamp n))
    (hst : s.step (.pushCut r mem messageCode timestamp n) = some s') : s'.Inv := by
  obtain ⟨k, hk, haddr⟩ := h
  obtain ⟨h, hh, hst⟩ := Option.bind_eq_some_iff.mp hst
  obtain ⟨hlt, hu⟩ := haddr h hh r
  rw [h.pushTo_eq r hu, Option.bind_eq_bind, Option.bind_some] at hst
  cases hst
  have hrecord := hk.record hlt messageCode.toNat timestamp
  by_cases hzero : n = 0
  · rw [if_pos hzero, hzero, List.take_zero]
    exact ⟨k, hk.succ, fun h hh => by cases hh⟩
  rw [if_neg hzero, hu]
  obtain ⟨m, rfl⟩ := Nat.exists_eq_succ_of_ne_zero hzero
  rw [List.take_succ_cons]
  -- behind the record comes no clearing, none of it or all of it
  have hcut : (room r (k r + 1)).take m = [] ∨ (room r (k r + 1)).take m = room r (k r + 1) := by
    rcases hP with hn | hn | hn
    · left
      rw [(by omega : m = 0), List.take_zero]
    · right
      refine List.take_of_length_le ?_
      rw [length_room]
      split <;> omega
    · left
      have hne : k r ≠ MAX_LOGS - 1 := fun heq => hn h hh (heq ▸ hu)
      rw [room, if_pos (by omega), List.take_nil]
  rcases hcut with hcut | hcut
  · rw [hcut]
    exact ⟨_, hrecord, fun h hh => by cases hh⟩
  · rw [hcut]
    have hroom := hrecord.room r
    rw [Function.update_self] at hroom
    exact ⟨_, hroom, fun h hh => by cases hh⟩

theorem Reach.inv (h : Machine.Reach step Init Whole s) : s.Inv := by
  refine h.invariant (fun _ => Inv.init) fun s e t hs hP hst => ?_
  cases e with
  | boot => exact hs.boot hst
  | push r mem messageCode timestamp => exact hs.push hst
  | bootCut n => exact hs.bootCut hP hst
  | pushCut r mem messageCode timestamp n => exact hs.pushCut hP hst

/-- **The log store is safe when power is lost**, as long as no clearing is cut
in its middle. -/
theorem power_loss_safe (h : Machine.Reach step Init Whole s) : s.Safe := by
  obtain ⟨k, hk, haddr⟩ := Reach.inv h
  intro h hh r
  obtain ⟨hlt, hu⟩ := haddr h hh r
  rw [hu]
  exact ⟨(hk.front r).free _ le_rfl hlt, hk.validLog_free le_rfl hlt, hk.printed r⟩

/-- The chip without power. -/
def blank : PowerRun := ⟨none, fun _ => 0xff, 0, fun _ => 0⟩

theorem blank_init : blank.Init := ⟨rfl, fun _ => rfl⟩

theorem blank_whole : blank.Whole (.bootCut MAX_LOGS) := Or.inl (Nat.mod_self MAX_LOGS)

/-- Power that is lost between the clearings of a first start. -/
theorem power_loss_safe_start : ∃ s t, blank.step (.bootCut MAX_LOGS) = some s ∧ s.step .boot = some t ∧
    t.Safe := by
  obtain ⟨s, hs⟩ : ∃ s, blank.step (.bootCut MAX_LOGS) = some s := ⟨_, rfl⟩
  obtain ⟨t, ht⟩ : ∃ t, s.step .boot = some t := ⟨_, rfl⟩
  have hcut : Machine.Reach step Init Whole s := .step (.init blank_init) blank_whole hs
  exact ⟨s, t, hs, ht, power_loss_safe (Machine.Reach.step (e := PowerEvent.boot) hcut trivial ht)⟩

/-! ### A clearing that is cut -/

theorem exists_scanned (e : Eeprom) (r : Ring) : ∃ k, e.Scanned r k := by
  by_cases hfree : ∃ k < MAX_LOGS, e.status r k = 0
  · obtain ⟨k, ⟨hk, hzero⟩, hfirst⟩ : ∃ k, (k < MAX_LOGS ∧ e.status r k = 0) ∧
        ∀ i < k, ¬ (i < MAX_LOGS ∧ e.status r i = 0) :=
      ⟨Nat.find hfree, Nat.find_spec hfree, fun i hi => Nat.find_min hfree hi⟩
    exact ⟨k, hk.le, fun i hi hi' => hfirst i hi ⟨by omega, hi'⟩, fun _ => hzero⟩
  · exact ⟨MAX_LOGS, le_rfl, fun i hi hzero => hfree ⟨i, hi, hzero⟩, fun h => absurd h (lt_irrefl _)⟩

/-- Pushes go to slot after slot, whatever they hold. -/
theorem run_pushes {r : Ring} (mem : Vector Byte 8) (messageCode : Byte) (timestamp : BitVec 32) {m : ℕ}
    (hm : m < MAX_LOGS) : ∀ (n : ℕ) {j : ℕ} {s : PowerRun} {h : LogHandler}, j + n = m → s.handler = some h →
      h.unused r = r.slot j → s.eeprom.status r m ≠ 0 →
      ∃ t, Machine.run step s (List.replicate n (.push r mem messageCode timestamp)) = some t ∧ ¬ t.Safe
  | 0, j, s, h, hj, hh, hu, hne => by
    refine ⟨s, rfl, fun hsafe => hne ?_⟩
    have hzero := (hsafe h hh r).1
    rw [hu, (by omega : j = m)] at hzero
    exact hzero
  | n + 1, j, s, h, hj, hh, hu, hne => by
    have hroom : room r (j + 1) = [] := by
      rw [room, if_pos (by omega)]
    have hwrapped : wrapped (j + 1) = j + 1 := by
      rw [wrapped, if_pos (by omega)]
    have hpush := h.pushTo_eq r hu mem messageCode.toNat timestamp
    rw [hroom, hwrapped] at hpush
    have hkept : (s.eeprom.write (eeprom_write_page (r.slot j) (logRecord messageCode.toNat timestamp))).status r m
        ≠ 0 := by
      rw [status_eq hm] at hne ⊢
      rw [write_record_of_ne (by omega)]
      · exact hne
      · exact Ring.slot_apart hm (by omega) (by decide : 0 < LOG_SIZE) fun _ => by omega
    obtain ⟨t, ht, hunsafe⟩ := run_pushes mem messageCode timestamp hm n (j := j + 1)
      (s := ⟨some (h.setUnused r (r.slot (j + 1))), _, s.count + 1,
        Function.update s.number (h.unused r) s.count⟩)
      (by omega) rfl (h.unused_setUnused r _) hkept
    refine ⟨t, ?_, hunsafe⟩
    rw [List.replicate_succ, Machine.run_cons, step, Machine.bind_of hh, Machine.bind_of hpush]
    exact ht

/-- A free slot in front of a used one. -/
theorem torn_unsafe {r : Ring} (mem : Vector Byte 8) (messageCode : Byte) (timestamp : BitVec 32) {m : ℕ}
    (hm : m < MAX_LOGS) (h0 : s.eeprom.status r 0 = 0) (hne : s.eeprom.status r m ≠ 0) :
    ∃ t, Machine.run step s (.boot :: List.replicate m (.push r mem messageCode timestamp)) = some t ∧
      ¬ t.Safe := by
  obtain ⟨k, hk⟩ : ∃ k : Ring → ℕ, ∀ r, s.eeprom.Scanned r (k r) :=
    ⟨fun r => (exists_scanned s.eeprom r).choose, fun r => (exists_scanned s.eeprom r).choose_spec⟩
  have hzero : k r = 0 := by
    by_contra hpos
    exact (hk r).used 0 (by omega) h0
  have hnew := LogHandler.new_spec hk
  have hboot : s.step .boot = some ⟨some (LogHandler.new s.eeprom).2,
    s.eeprom.writes (LogHandler.new s.eeprom).1, s.count, s.number⟩ := rfl
  rw [Machine.run_cons, hboot, Option.bind_some]
  refine run_pushes mem messageCode timestamp hm m (Nat.zero_add m) rfl ?_ ?_
  · rw [hnew.2 r, hzero]
    rfl
  · -- the start does not clear this ring
    have hkept : ∀ (r' : Ring) (e : Eeprom), e.writes (room r' (k r')) (r.slot m) = e (r.slot m) := by
      intro r' e
      by_cases hr : r' = r
      · rw [hr, room, if_pos (by rw [hzero]; decide)]
        rfl
      · have hin := r.inside_slot hm (by decide : 0 < LOG_SIZE)
        exact writes_room_outside r' _ (Ring.not_inside_of_ne (fun h => hr h.symm) hin) e
    have hboth : s.eeprom.writes (LogHandler.new s.eeprom).1 (r.slot m) = s.eeprom (r.slot m) := by
      rw [hnew.1, writes, List.foldl_append]
      exact (hkept .reboot _).trans (hkept .log _)
    rw [status_eq hm] at hne ⊢
    exact fun hzero => hne (hboth.symm.trans hzero)

/-- A full ring whose clearing was cut. -/
theorem torn_clearing {e : Eeprom} {r : Ring} (hf : e.Front r MAX_LOGS) {m : ℕ} (hpos : 0 < m)
    (hm : m < MAX_LOGS) : (e.writes ((clearing r).take m)).status r 0 = 0 ∧
      (e.writes ((clearing r).take m)).status r m ≠ 0 := by
  have hwrites := writes_clearing r hm.le e
  have hused := hf.used m hm
  have hout : ¬ ∃ i < m, r.slot m = r.slot i := by
    rintro ⟨i, hi, heq⟩
    have := r.slot_injective heq
    omega
  rw [status_eq hm] at hused
  rw [status_eq (by omega), status_eq hm, hwrites, hwrites, if_pos ⟨0, hpos, rfl⟩, if_neg hout]
  exact ⟨rfl, hused⟩

/-- A full ring of which the first slots were cleared. -/
def Torn (e' : Eeprom) : Prop :=
  ∃ (e : Eeprom) (r : Ring) (m : ℕ), e.Front r MAX_LOGS ∧ 0 < m ∧ m < MAX_LOGS ∧ e' = e.writes ((clearing r).take m)

theorem torn_of_bootCut (h : s.Inv) {n : ℕ} (hcut : ¬ s.Whole (.bootCut n))
    (hst : s.step (.bootCut n) = some s') : Torn s'.eeprom := by
  obtain ⟨k, hk, -⟩ := h
  obtain ⟨hmod, hlt⟩ : n % MAX_LOGS ≠ 0 ∧ n < fullRings s.eeprom * MAX_LOGS := by
    simpa [Whole] using hcut
  have hwrites := (LogHandler.new_spec fun r => (hk.front r).scanned).1
  have hfull : ∀ r, ¬ k r < MAX_LOGS → s.eeprom.Front r MAX_LOGS := fun r hr => by
    have hfront := hk.front r
    rwa [(by have := hfront.le; omega : k r = MAX_LOGS)] at hfront
  rw [step, Option.some.injEq, hwrites] at hst
  rw [hk.fullRings_eq, length_room, length_room] at hlt
  subst hst
  by_cases hlog : k .log < MAX_LOGS
  · -- the reboot ring alone is cleared
    by_cases hreboot : k .reboot < MAX_LOGS
    · rw [if_pos hlog, if_pos hreboot] at hlt
      omega
    · rw [if_pos hlog, if_neg hreboot] at hlt
      refine ⟨s.eeprom, .reboot, n, hfull .reboot hreboot, by unfold MAX_LOGS at *; omega, by omega, ?_⟩
      rw [room, if_pos hlog, room, if_neg hreboot, List.nil_append]
  · by_cases hn : n < MAX_LOGS
    · -- the cut is in the first clearing
      refine ⟨s.eeprom, .log, n, hfull .log hlog, by unfold MAX_LOGS at *; omega, hn, ?_⟩
      rw [room, if_neg hlog, List.take_append_of_le_length (by rw [length_clearing]; omega)]
    · -- or in the second
      have hreboot : ¬ k .reboot < MAX_LOGS := fun hreboot => by
        rw [if_neg hlog, if_pos hreboot] at hlt
        omega
      rw [if_neg hlog, if_neg hreboot] at hlt
      have hfront := (hfull .reboot hreboot).congr fun a ha =>
        writes_room_outside .log (k .log) (Ring.not_inside_of_ne (by decide) ha) s.eeprom
      refine ⟨_, .reboot, n - MAX_LOGS, hfront, by unfold MAX_LOGS at *; omega, by omega, ?_⟩
      dsimp only
      rw [List.take_append, List.take_of_length_le (by rw [length_room]; split <;> omega), length_room,
        if_neg hlog, writes, List.foldl_append]
      simp only [room, if_neg hreboot]
      rfl

theorem torn_of_pushCut (h : s.Inv) {r : Ring} {mem : Vector Byte 8} {messageCode : Byte} {timestamp : BitVec 32}
    {n : ℕ} (hcut : ¬ s.Whole (.pushCut r mem messageCode timestamp n))
    (hst : s.step (.pushCut r mem messageCode timestamp n) = some s') : Torn s'.eeprom := by
  obtain ⟨k, hk, haddr⟩ := h
  obtain ⟨hn, hn', h, hh, hlast⟩ : 1 < n ∧ n ≤ MAX_LOGS ∧ ∃ h, s.handler = some h ∧
      h.unused r = r.slot (MAX_LOGS - 1) := by
    simpa [Whole, not_or] using hcut
  obtain ⟨h', hh', hst⟩ := Option.bind_eq_some_iff.mp hst
  cases hh.symm.trans hh'
  obtain ⟨hlt, hu⟩ := haddr h hh r
  have hk' : k r + 1 = MAX_LOGS := by
    have := r.slot_injective (hu.symm.trans hlast)
    omega
  have hfront := (hk.front r).write_record hlt messageCode.toNat timestamp
  rw [h.pushTo_eq r hu, Option.bind_eq_bind, Option.bind_some] at hst
  rw [hk'] at hfront hst
  cases hst
  obtain ⟨m, rfl⟩ := Nat.exists_eq_succ_of_ne_zero (by omega : n ≠ 0)
  refine ⟨_, r, m, hfront, by omega, by omega, ?_⟩
  rw [List.take_succ_cons, room, if_neg (lt_irrefl _)]
  rfl

/-- **A clearing that is cut** shows as many pushes later as slots were cleared. -/
theorem cut_clearing_unsafe (h : Machine.Reach step Init Whole s) {ev : PowerEvent} (hcut : ¬ s.Whole ev)
    (hst : s.step ev = some s') (mem : Vector Byte 8) (messageCode : Byte) (timestamp : BitVec 32) :
    ∃ r n t, Machine.run step s' (.boot :: List.replicate n (.push r mem messageCode timestamp)) = some t ∧
      ¬ t.Safe := by
  obtain ⟨e, r, m, hf, hpos, hm, he⟩ : Torn s'.eeprom := by
    cases ev with
    | boot => exact absurd trivial hcut
    | push r mem messageCode timestamp => exact absurd trivial hcut
    | bootCut n => exact torn_of_bootCut (Reach.inv h) hcut hst
    | pushCut r mem messageCode timestamp n => exact torn_of_pushCut (Reach.inv h) hcut hst
  obtain ⟨hzero, hne⟩ := torn_clearing hf hpos hm
  rw [← he] at hzero hne
  exact ⟨r, m, torn_unsafe mem messageCode timestamp hm hzero hne⟩

/-- Power that is lost behind the first write of a first start. -/
theorem blank_cut_unsafe : ∃ t, Machine.run step blank
    [.bootCut 1, .boot, .push .log (.replicate 8 0) 0 0] = some t ∧ ¬ t.Safe := by
  have hfront : ∀ r, Eeprom.Front (fun _ => 0xff) r MAX_LOGS := fun r =>
    ⟨le_rfl, fun i hi => by rw [status_eq hi]; decide, fun i hi hi' => absurd hi' (Nat.not_lt.mpr hi)⟩
  obtain ⟨hzero, hne⟩ := torn_clearing (hfront .log) (by decide : 0 < 1) (by decide : 1 < MAX_LOGS)
  have hwrites : (LogHandler.new blank.eeprom).1 = clearing .log ++ clearing .reboot :=
    (LogHandler.new_spec fun r => (hfront r).scanned).1
  have hcut : blank.step (.bootCut 1) = some ⟨none, Eeprom.writes (fun _ => 0xff) ((clearing .log).take 1), 0,
      fun _ => 0⟩ := by
    rw [step, hwrites, List.take_append_of_le_length (by rw [length_clearing]; decide)]
    rfl
  rw [Machine.run_cons, hcut, Option.bind_some]
  exact torn_unsafe _ _ _ (by decide : 1 < MAX_LOGS) hzero hne

end PowerRun
end Ventilation
