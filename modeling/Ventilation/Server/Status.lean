/-
# The answer to a status request (src/FlaskSrv/ServerImports/dbImports.py)

`get_latest_reading` answers with the row of the greatest index and with the
module's `lastStatus`, which `push_reading` means to set and does not: it
is true from the import on (`Kept`). So in every run of messages, requests and
restarts the answer is the latest stored reading with the error of its
message exactly where that error is true (`status_right_iff`).
-/
import Mathlib.Data.List.MinMax
import Ventilation.Lib.Machine
import Ventilation.Server.Messages

namespace Ventilation
namespace Server

open Python (ascii getItem)
open Json (Text)

/-! ### The request -/

/-- The members of a status. -/
structure Status where
  index : ℕ
  speed : Option ℤ
  auto : ℤ
  setpoint : Option ℤ
  pressure : Option ℤ
  co2 : Option ℤ
  ah : Option ℤ
  rh : Option ℤ
  temp : Option ℤ
  timestamp : Option ℕ
  error : Bool

/-- `int(auto)`. -/
def intOf (auto : Bool) : ℤ := if auto then 1 else 0

/-- `none` is the answer 500: the query raises, there is no row, or its `auto` is NULL. -/
def get_latest_reading (queried : Bool) (s : State) : Option Status := do
  let readings ← if queried then s.readings.argmax Row.index else none
  let auto ← readings.auto
  pure ⟨readings.index, readings.speed, intOf auto, readings.setpoint, readings.pressure, readings.co2,
    readings.ah, readings.rh, readings.temp, readings.timestamp, s.lastStatus⟩

/-- The status has the columns of the row. -/
structure Status.Shows (status : Status) (row : Row) : Prop where
  index : status.index = row.index
  speed : status.speed = row.speed
  auto : some status.auto = row.auto.map intOf
  setpoint : status.setpoint = row.setpoint
  pressure : status.pressure = row.pressure
  co2 : status.co2 = row.co2
  ah : status.ah = row.ah
  rh : status.rh = row.rh
  temp : status.temp = row.temp
  timestamp : status.timestamp = row.timestamp

/-! ### Runs -/

/-- The server, and beside it each stored reading with the message that produced
it, in the order in which they were stored. -/
structure Served where
  state : State
  stored : List (Row × Option Json)

namespace Served

def new : Served := ⟨.new, []⟩

inductive Event
  | message (env : Env) (topic : Text) (payload : List (BitVec 8))
  | request
  /-- The modules are imported anew, and the mode is what the startup makes of it. -/
  | restart (ventrilatorStatus : Ventrilator)

/-- The table counts its index up. -/
def step (s : Served) : Event → Option Served
  | .message env topic payload =>
    let state := (handle_message env s.state topic payload).1
    let rows := state.readings.drop s.state.readings.length
    if ∀ row ∈ rows, ∀ old ∈ s.state.readings, old.index < row.index then
      some ⟨state, s.stored ++ rows.map fun row => (row, received env payload)⟩
    else none
  | .request => some s
  | .restart ventrilatorStatus => some { s with state := { s.state with ventrilatorStatus, lastStatus := true } }

/-- The answer is the latest stored reading with the error of the message that produced it. -/
def Right (queried : Bool) (s : Served) : Prop :=
  ∀ row message, s.stored.getLast? = some (row, message) →
    ∃ status, get_latest_reading queried s.state = some status ∧ status.Shows row ∧
      message.bind (getItem (ascii "error")) = some (.bool status.error)

/-- The latest stored reading can be answered with, and its message says that there is an error. -/
def Erring (queried : Bool) (s : Served) : Prop :=
  ∀ row message, s.stored.getLast? = some (row, message) →
    queried = true ∧ row.auto.isSome ∧ message.bind (getItem (ascii "error")) = some (.bool true)

/-! ### What a message does to the readings -/

variable {env : Env} {s : Served} {queried : Bool}

/-- A message adds no reading or the one that it denotes, and leaves `lastStatus`. -/
theorem handle_message_readings (env : Env) (s : State) (topic : Text) (payload : List (BitVec 8)) :
    (handle_message env s topic payload).1.lastStatus = s.lastStatus ∧
      ((handle_message env s topic payload).1.readings = s.readings ∨ ∃ v reading row,
        received env payload = some v ∧ Reading.of v = some reading ∧ env.commit reading = some row ∧
        (handle_message env s topic payload).1.readings = s.readings ++ [row]) := by
  rcases handle_message_cases env s topic payload with hsame | ⟨v, auto, setpoint, hreceived, -, -, heq⟩
  · rw [hsame]
    exact ⟨rfl, .inl rfl⟩
  · rw [heq]
    rcases push_reading_cases env { s with ventrilatorStatus := s.ventrilatorStatus.setMode auto setpoint } v with
      hsame | ⟨reading, row, hreading, hcommit, hadd⟩
    · rw [hsame]
      exact ⟨rfl, .inl rfl⟩
    · rw [hadd]
      exact ⟨rfl, .inr ⟨v, reading, row, hreceived, hreading, hcommit, rfl⟩⟩

/-- The latest reading of a table that counts up is the last. -/
theorem argmax_append {l : List Row} {row : Row} (h : ∀ old ∈ l, old.index < row.index) :
    (l ++ [row]).argmax Row.index = some row := by
  rw [List.argmax_concat]
  cases hl : l.argmax Row.index with
  | none => rfl
  | some old => exact if_pos (h old (List.argmax_mem hl))

/-! ### The invariant -/

/-- What every run keeps: the table is what was stored, its last row is the
latest, and the variable is as it was imported. -/
structure Kept (s : Served) : Prop where
  readings : s.stored.map Prod.fst = s.state.readings
  latest : s.state.readings.argmax Row.index = s.state.readings.getLast?
  lastStatus : s.state.lastStatus = true
  produced : ∀ p ∈ s.stored, ∃ env v reading, p.2 = some v ∧ Reading.of v = some reading ∧ Env.commit env reading = some p.1

theorem kept_new : Kept new := ⟨rfl, rfl, rfl, fun _ h => nomatch h⟩

theorem Kept.step {t : Served} {e : Event} (h : Kept s) (hstep : s.step e = some t) : Kept t := by
  cases e with
  | request => exact Option.some.inj hstep ▸ h
  | restart ventrilatorStatus =>
    cases hstep
    exact ⟨h.readings, h.latest, rfl, h.produced⟩
  | message env topic payload =>
    obtain ⟨hstatus, hreadings⟩ := handle_message_readings env s.state topic payload
    simp only [Served.step, Option.ite_none_right_eq_some, Option.some.injEq] at hstep
    obtain ⟨hindex, rfl⟩ := hstep
    rcases hreadings with hsame | ⟨v, reading, row, hreceived, hreading, hcommit, hadd⟩
    · rw [hsame, List.drop_length, List.map_nil, List.append_nil]
      refine ⟨?_, ?_, hstatus.trans h.lastStatus, h.produced⟩
      · exact h.readings.trans hsame.symm
      · dsimp only
        rw [hsame]
        exact h.latest
    · have hrow : (s.state.readings ++ [row]).drop s.state.readings.length = [row] := List.drop_left
      rw [hadd, hrow] at hindex ⊢
      refine ⟨?_, ?_, hstatus.trans h.lastStatus, ?_⟩
      · dsimp only
        rw [hadd, List.map_append, h.readings]
        rfl
      · dsimp only
        rw [hadd, argmax_append (hindex row (List.mem_singleton.mpr rfl)), List.getLast?_append]
        rfl
      · intro p hp
        rcases List.mem_append.mp hp with hp | hp
        · exact h.produced p hp
        · rw [List.map_singleton, List.mem_singleton] at hp
          subst hp
          exact ⟨env, v, reading, hreceived, hreading, hcommit⟩

/-- The row that a request answers with. -/
theorem Kept.latest_eq (h : Kept s) : s.state.readings.argmax Row.index = s.stored.getLast?.map Prod.fst := by
  rw [h.latest, ← h.readings, List.getLast?_map]

theorem get_latest_reading_eq {s : State} {row : Row} {auto : Bool} (hlatest : s.readings.argmax Row.index = some row)
    (hauto : row.auto = some auto) : get_latest_reading true s = some ⟨row.index, row.speed, intOf auto, row.setpoint,
      row.pressure, row.co2, row.ah, row.rh, row.temp, row.timestamp, s.lastStatus⟩ := by
  simp [get_latest_reading, hlatest, hauto]

theorem right_iff (h : Kept s) : Right queried s ↔ Erring queried s := by
  refine forall₂_congr fun row message => forall_congr' fun hlast => ?_
  have hlatest : s.state.readings.argmax Row.index = some row := by
    rw [h.latest_eq, hlast]
    rfl
  cases queried with
  | false => exact iff_of_false (fun ⟨_, hstatus, _⟩ => nomatch hstatus) fun herror => nomatch herror.1
  | true =>
    cases hauto : row.auto with
    | none =>
      refine iff_of_false (fun ⟨status, _, hshows, _⟩ => ?_) fun herror => nomatch herror.2.1
      have hnone := hshows.auto
      rw [hauto] at hnone
      cases hnone
    | some auto =>
      rw [get_latest_reading_eq hlatest hauto, h.lastStatus]
      constructor
      · rintro ⟨status, hstatus, -, herror⟩
        cases hstatus
        exact ⟨rfl, rfl, herror⟩
      · intro herror
        exact ⟨_, rfl, ⟨rfl, rfl, congrArg (Option.map intOf) hauto.symm, rfl, rfl, rfl, rfl, rfl, rfl, rfl⟩, herror.2.2⟩

/-- **When the answer is right**, in any run. -/
theorem status_right_iff (hr : Machine.Reach step (· = new) Machine.Always s) (queried : Bool) :
    Right queried s ↔ Erring queried s :=
  right_iff (hr.invariant (fun _ hs => hs ▸ kept_new) fun _ _ _ hs _ hst => hs.step hst)

/-! ### Two messages -/

/-- A database that rounds a number for its columns, and keeps what is no number as NULL. -/
def keepingEnv : Env :=
  let int : Json → Option ℤ
    | .int x => some x
    | .real text => (Python.ratOf text).map fun x => (x + 1 / 2).floor
    | _ => none
  let bool : Json → Option Bool
    | .bool b => some b
    | _ => none
  ⟨⟨fun _ => false⟩, .null, fun r => some ⟨1, int r.speed, int r.setpoint, bool r.auto, int r.pressure, int r.co2,
    int r.ah, int r.rh, int r.temp, some 0⟩, fun _ => true⟩

/-- A status as the device sends it. -/
def deviceStatus (error : String) : List (BitVec 8) :=
  ascii ("\x7b\"speed\":18,\"setpoint\":18,\"pressure\":5,\"auto\":false,\"error\":" ++ error ++
    ",\"co2\":300.0,\"ah\":7.5,\"rh\":37.0,\"temp\":20.25\x7d") ++ [0]

/-- The run of that message and a request. -/
def afterStatus (error : String) : Option Served :=
  Machine.run step new [.message keepingEnv statusTopic (deviceStatus error), .request]

def isBool (b : Bool) : Json → Bool
  | .bool c => b = c
  | _ => false

theorem isBool_iff {b : Bool} {v : Json} : isBool b v = true ↔ v = .bool b := by
  cases v <;> simp [isBool, eq_comm]

/-- The last stored reading of the run can be answered with, and what error its message has. -/
def lastIs (error : Bool) (s : Served) : Bool :=
  s.stored.getLast?.any fun p => p.1.auto.isSome && (p.2.bind (getItem (ascii "error"))).any (isBool error)

theorem of_lastIs {error : Bool} (h : lastIs error s = true) : ∃ row message, s.stored.getLast? = some (row, message) ∧
    row.auto.isSome ∧ message.bind (getItem (ascii "error")) = some (.bool error) := by
  obtain ⟨⟨row, message⟩, hlast, hp⟩ := (Option.any_eq_true _ _).mp h
  obtain ⟨hauto, herror⟩ := Bool.and_eq_true_iff.mp hp
  obtain ⟨v, hv, hb⟩ := (Option.any_eq_true _ _).mp herror
  exact ⟨row, message, hlast, hauto, hv.trans (congrArg some (isBool_iff.mp hb))⟩

theorem reach_afterStatus {error : String} (h : afterStatus error = some s) :
    Machine.Reach step (· = new) Machine.Always s :=
  .run (.init rfl) (fun _ _ _ => trivial) h

/-- A status with an error: the answer is right. -/
theorem status_right_error : ∃ s, afterStatus "true" = some s ∧ lastIs true s = true ∧ Right true s := by
  have hrun : (afterStatus "true").any (lastIs true) = true := by
    decide +kernel
  obtain ⟨s, hs, hlast⟩ := (Option.any_eq_true _ _).mp hrun
  obtain ⟨row, message, hstored, hauto, herror⟩ := of_lastIs hlast
  refine ⟨s, hs, hlast, (status_right_iff (reach_afterStatus hs) true).mpr fun row' message' h' => ?_⟩
  cases hstored.symm.trans h'
  exact ⟨rfl, hauto, herror⟩

/-- A status without: the answer says that there is one. -/
theorem error_made_up : ∃ s, afterStatus "false" = some s ∧ lastIs false s = true ∧
    (get_latest_reading true s.state).map Status.error = some true ∧ ¬ Right true s := by
  have hrun : (afterStatus "false").any (fun s => lastIs false s &&
      decide ((get_latest_reading true s.state).map Status.error = some true)) = true := by
    decide +kernel
  obtain ⟨s, hs, hp⟩ := (Option.any_eq_true _ _).mp hrun
  obtain ⟨hlast, hanswer⟩ := Bool.and_eq_true_iff.mp hp
  obtain ⟨row, message, hstored, hauto, herror⟩ := of_lastIs hlast
  refine ⟨s, hs, hlast, of_decide_eq_true hanswer, fun hright => ?_⟩
  obtain ⟨status, hstatus, -, hsame⟩ := hright row message hstored
  have htrue := of_decide_eq_true hanswer
  rw [hstatus, Option.map_some, Option.some.injEq] at htrue
  rw [herror, htrue] at hsame
  cases hsame

end Served
end Server
end Ventilation
