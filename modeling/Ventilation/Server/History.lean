/-
# The history (src/FlaskSrv/ServerImports/dbImports.py)

The requests for all rows of a table, and for those since a time. In every run of messages, requests and restarts the
readings come newest first, each as it was stored, and no logs come; and what comes since a time is the newest stretch
of the history, whatever the time, exactly if no reading was stored with an earlier time than one before it
(`history_iff`).
-/
import Ventilation.Server.PushedLogs
import Ventilation.Server.Status

namespace Ventilation
namespace Server

/-! ### The requests -/

/-- `order_by(index.desc())`. -/
def descending (rows : List Row) : List Row := rows.mergeSort fun a b => decide (b.index ≤ a.index)

/-- The members of an entry are the columns; `none` is the answer 500. -/
def get_all_readings (queried : Bool) (s : State) : Option (List Row) :=
  if queried then some (descending s.readings) else none

/-- `timestamp >= since`, of which neither is NULL. -/
def atLeast (timestamp since : Option ℕ) : Bool := timestamp.any fun t => since.any (· ≤ t)

def get_readings_since_timestamp (queried : Bool) (timestamp : Option ℕ) (s : State) : Option (List Row) :=
  if queried then some (descending (s.readings.filter fun reading => atLeast reading.timestamp timestamp)) else none

/-- The index of a log counts the insertions. -/
def get_all_logs (queried : Bool) (s : State) : Option (List LogRow) :=
  if queried then some s.logmessages.reverse else none

theorem atLeast_iff {timestamp since : Option ℕ} :
    atLeast timestamp since = true ↔ ∃ t u, timestamp = some t ∧ since = some u ∧ u ≤ t := by
  cases timestamp <;> cases since <;> simp [atLeast]

/-! ### Parts of a list -/

/-- A filtered list is where the list begins if none of those that pass comes behind one that does not. -/
theorem filter_prefix_iff {α : Type} (p : α → Bool) (l : List α) :
    l.filter p <+: l ↔ l.Pairwise fun a b => p b = true → p a = true := by
  induction l with
  | nil => simp
  | cons a l ih =>
    rw [List.pairwise_cons]
    by_cases ha : p a = true
    · rw [List.filter_cons_of_pos ha, List.prefix_cons_inj, ih]
      simp [ha]
    · rw [List.filter_cons_of_neg ha]
      constructor
      · intro h
        have hnil : l.filter p = [] := by
          cases hl : l.filter p with
          | nil => rfl
          | cons b rest =>
            rw [hl] at h
            obtain ⟨rfl, -⟩ := List.cons_prefix_cons.mp h
            exact absurd (List.of_mem_filter (hl ▸ List.mem_cons_self : b ∈ l.filter p)) ha
        have hnone : ∀ b ∈ l, ¬ p b = true := List.filter_eq_nil_iff.mp hnil
        refine ⟨fun b hb hpb => absurd hpb (hnone b hb), ?_⟩
        exact List.pairwise_of_forall_mem_list fun _ _ b hb hpb => absurd hpb (hnone b hb)
      · rintro ⟨h, -⟩
        have hnil : l.filter p = [] := List.filter_eq_nil_iff.mpr fun b hb hpb => ha (h b hb hpb)
        rw [hnil]
        exact List.nil_prefix

/-- A table that counts its index up. -/
theorem descending_eq {rows : List Row} (h : rows.Pairwise fun a b => a.index < b.index) :
    descending rows = rows.reverse := by
  have hsorted : rows.reverse.Pairwise fun a b => decide (b.index ≤ a.index) = true := by
    rw [List.pairwise_reverse]
    exact h.imp fun hlt => decide_eq_true hlt.le
  have hnodup : (rows.map Row.index).Nodup := List.pairwise_map.mpr (h.imp ne_of_lt)
  have hperm : (descending rows).Perm rows.reverse :=
    (List.mergeSort_perm rows _).trans (List.reverse_perm rows).symm
  refine List.Perm.eq_of_pairwise ?_ (List.pairwise_mergeSort ?_ ?_ rows) hsorted hperm
  · intro a b ha hb hab hba
    refine List.inj_on_of_nodup_map hnodup (List.mem_mergeSort.mp ha) (List.mem_reverse.mp hb) ?_
    exact le_antisymm (of_decide_eq_true hba) (of_decide_eq_true hab)
  · intro a b c hab hbc
    exact decide_eq_true ((of_decide_eq_true hbc).trans (of_decide_eq_true hab))
  · intro a b
    rw [Bool.or_eq_true, decide_eq_true_iff, decide_eq_true_iff]
    exact le_total _ _

namespace Served

/-! ### Runs -/

variable {s t : Served}

/-- No reading was stored with an earlier time than one before it, or with none behind one that has a time. -/
def NeverBack (s : Served) : Prop :=
  (s.stored.map Prod.fst).Pairwise fun old new =>
    ∀ time, old.timestamp = some time → ∃ time', new.timestamp = some time' ∧ time ≤ time'

/-- What every run keeps of the tables. -/
structure Listed (s : Served) : Prop where
  readings : s.stored.map Prod.fst = s.state.readings
  counted : s.state.readings.Pairwise fun old new => old.index < new.index
  logmessages : s.state.logmessages = []

theorem Listed.step {e : Event} (h : Listed s) (hstep : s.step e = some t) : Listed t := by
  cases e with
  | request => exact Option.some.inj hstep ▸ h
  | restart ventrilatorStatus =>
    cases hstep
    exact ⟨h.readings, h.counted, h.logmessages⟩
  | message env topic payload =>
    obtain ⟨-, hreadings⟩ := handle_message_readings env s.state topic payload
    have hlogs := (handle_message_logmessages env s.state topic payload).trans h.logmessages
    simp only [Served.step, Option.ite_none_right_eq_some, Option.some.injEq] at hstep
    obtain ⟨hindex, rfl⟩ := hstep
    rcases hreadings with hsame | ⟨v, reading, row, -, -, -, hadd⟩
    · refine ⟨?_, ?_, hlogs⟩
      · simpa [hsame] using h.readings
      · simpa [hsame] using h.counted
    · have hrow : (s.state.readings ++ [row]).drop s.state.readings.length = [row] := List.drop_left
      rw [hadd, hrow] at hindex ⊢
      refine ⟨?_, ?_, hlogs⟩
      · rw [List.map_append, h.readings]
        exact hadd.symm
      · show (handle_message env s.state topic payload).1.readings.Pairwise _
        rw [hadd, List.pairwise_append]
        refine ⟨h.counted, List.pairwise_singleton _ _, fun old hold new hnew => ?_⟩
        exact hindex new hnew old hold

theorem listed_of_reach (hr : Machine.Reach step (· = new) Machine.Always s) : Listed s := by
  refine hr.invariant (J := Listed) ?_ fun _ _ _ h _ hstep => h.step hstep
  rintro _ rfl
  exact ⟨rfl, List.Pairwise.nil, rfl⟩

/-- **The history**, in any run: each stored reading once and the newest first, and no logs; and the readings since a time
are its newest stretch, whatever the time, exactly if the clock behind the timestamps never went back. -/
theorem history_iff (hr : Machine.Reach step (· = new) Machine.Always s) :
    get_all_readings true s.state = some (s.stored.map Prod.fst).reverse ∧ get_all_logs true s.state = some [] ∧
      ((∀ timestamp, ∃ part, get_readings_since_timestamp true timestamp s.state = some part ∧
        part <+: (s.stored.map Prod.fst).reverse) ↔ s.NeverBack) := by
  have h := listed_of_reach hr
  refine ⟨?_, ?_, ?_⟩
  · rw [get_all_readings, if_pos rfl, descending_eq h.counted, h.readings]
  · rw [get_all_logs, if_pos rfl, h.logmessages, List.reverse_nil]
  have hsince : ∀ timestamp, get_readings_since_timestamp true timestamp s.state =
      some ((s.stored.map Prod.fst).reverse.filter fun reading => atLeast reading.timestamp timestamp) := by
    intro timestamp
    rw [get_readings_since_timestamp, if_pos rfl, descending_eq (h.counted.filter _), h.readings, List.filter_reverse]
  simp only [hsince, Option.some.injEq, exists_eq_left', filter_prefix_iff, List.pairwise_reverse]
  constructor
  · intro hall
    refine List.pairwise_iff_getElem.mpr fun i j hi hj hlt time htime => ?_
    have hnew := List.pairwise_iff_getElem.mp (hall (some time)) i j hi hj hlt
      (by rw [htime]; exact decide_eq_true le_rfl)
    obtain ⟨time', since, htime', hsince, hle⟩ := atLeast_iff.mp hnew
    cases hsince
    exact ⟨time', htime', hle⟩
  · intro hback timestamp
    refine hback.imp fun hle hold => ?_
    obtain ⟨time, since, htime, rfl, hsince⟩ := atLeast_iff.mp hold
    obtain ⟨time', htime', hle'⟩ := hle time htime
    exact atLeast_iff.mpr ⟨time', since, htime', rfl, hsince.trans hle'⟩

/-- A database that stores a reading with this index and this time. -/
def storingEnv (index timestamp : ℕ) : Env :=
  { keepingEnv with
    commit := fun reading => (keepingEnv.commit reading).map fun row =>
      { row with index, timestamp := some timestamp } }

/-- Two statuses of a device, and the times at which they are stored. -/
def afterTwo (first second : ℕ) : Option Served :=
  Machine.run step new [.message (storingEnv 1 first) statusTopic (deviceStatus "true"),
    .message (storingEnv 2 second) statusTopic (deviceStatus "false")]

theorem exists_afterTwo {first second : ℕ} (h : (afterTwo first second).any (fun s =>
    decide (s.stored.map (fun p => p.1.timestamp) = [some first, some second])) = true) :
    ∃ s, afterTwo first second = some s ∧ Machine.Reach step (· = new) Machine.Always s ∧
      s.stored.length = 2 ∧ (s.NeverBack ↔ first ≤ second) := by
  obtain ⟨s, hs, hp⟩ := (Option.any_eq_true _ _).mp h
  have htimes := of_decide_eq_true hp
  refine ⟨s, hs, .run (.init rfl) (fun _ _ _ => trivial) hs, ?_, ?_⟩
  · simpa using congrArg List.length htimes
  · have hmap : s.NeverBack ↔ (s.stored.map fun p => p.1.timestamp).Pairwise fun old new =>
        ∀ time, old = some time → ∃ time', new = some time' ∧ time ≤ time' := by
      rw [NeverBack, List.pairwise_map, List.pairwise_map]
    rw [hmap, htimes]
    simp

/-- Two readings; and two between which the clock is set back. -/
theorem history_iff_two :
    (∃ s, afterTwo 5 7 = some s ∧ s.stored.length = 2 ∧
      get_all_readings true s.state = some (s.stored.map Prod.fst).reverse ∧
      ∀ timestamp, ∃ part, get_readings_since_timestamp true timestamp s.state = some part ∧
        part <+: (s.stored.map Prod.fst).reverse) ∧
    ∃ s, afterTwo 7 5 = some s ∧ s.stored.length = 2 ∧
      ∃ timestamp, ∀ part, get_readings_since_timestamp true timestamp s.state = some part →
        ¬ part <+: (s.stored.map Prod.fst).reverse := by
  obtain ⟨s, hs, hr, hlength, hback⟩ := exists_afterTwo (by decide +kernel : (afterTwo 5 7).any (fun s =>
    decide (s.stored.map (fun p => p.1.timestamp) = [some 5, some 7])) = true)
  obtain ⟨s', hs', hr', hlength', hback'⟩ := exists_afterTwo (by decide +kernel : (afterTwo 7 5).any (fun s =>
    decide (s.stored.map (fun p => p.1.timestamp) = [some 7, some 5])) = true)
  obtain ⟨hall, -, hsince⟩ := history_iff hr
  refine ⟨⟨s, hs, hlength, hall, hsince.mpr (hback.mpr (by decide))⟩, s', hs', hlength', ?_⟩
  have hnot := mt (history_iff hr').2.2.mp (mt hback'.mp (by decide))
  obtain ⟨timestamp, hpart⟩ := not_forall.mp hnot
  exact ⟨timestamp, fun part hsome hprefix => hpart ⟨part, hsome, hprefix⟩⟩

end Served
end Server
end Ventilation
