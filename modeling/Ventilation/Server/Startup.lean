/-
# The mode at the start of the server (src/FlaskSrv/app.py, ServerImports/dbImports.py)

The startup thread reads the latest row and then sets the mode from it; the
thread of the MQTT client sets the mode from a status and then inserts its row.
Nothing orders the two, and an insert that fails leaves the mode set. `InStep`
is what a step must meet for the mode and the latest row to agree once both
threads are idle, and any step that does not meet it makes them differ
(`mode_right_iff`).
-/
import Mathlib.Data.List.MinMax
import Ventilation.Lib.Machine
import Ventilation.Server.Messages
import Ventilation.Server.Status

namespace Ventilation
namespace Server

open Python (ascii getItem)
open Json (Text)
open Served (deviceStatus keepingEnv argmax_append)

/-! ### The mode and a row -/

/-- The real rounds to the `float` of the value `n`, of 32 bits. -/
def roundsTo (n : ℤ) (x : ℚ) : Bool :=
  if n = 0 then |x| ≤ 2 ^ (-1075 : ℤ)
  else
    let k : ℤ := Nat.log2 n.natAbs
    -- the floats below a power of two are twice as dense
    let below : ℚ := if n.natAbs = 2 ^ Nat.log2 n.natAbs then 2 ^ (k - 54) else 2 ^ (k - 53)
    let y : ℚ := n.sign * x
    n.natAbs - below ≤ y ∧ y ≤ n.natAbs + 2 ^ (k - 53)

/-- `v == column`, where `True` is 1 and a NULL is `None`. -/
def eqColumn (column : Option ℤ) (v : Json) : Bool :=
  match column, v with
  | none, .null => true
  | some n, .bool b => intOf b = n
  | some n, .int x => x = n
  | some n, .real text => (Python.ratOf text).any (roundsTo n)
  | _, _ => false

/-- The mode equals the row's `(auto, setpoint)`. -/
def Ventrilator.agrees (mode : Ventrilator) (row : Row) : Bool :=
  eqColumn (row.auto.map intOf) mode.auto && eqColumn row.setpoint mode.valueTarget

/-- The mode that `get_startup_values` sets from a row. -/
def Row.mode (readings : Row) : Ventrilator :=
  ⟨readings.auto.elim .null .bool, readings.setpoint.elim .null .int⟩

/-- `Readings.query.order_by(Readings.index.desc()).first()`. -/
def latest (s : State) : Option Row := s.readings.argmax Row.index

/-! ### The two halves of a message -/

/-- The status that `handle_message` sets the mode from, with its `auto` and `setpoint`. -/
def statusMessage (env : Env) (topic : Text) (payload : List (BitVec 8)) : Option (Json × Json × Json) := do
  let decodedMessage ← received env payload
  let auto ← getItem (ascii "auto") decodedMessage
  let setpoint ← getItem (ascii "setpoint") decodedMessage
  if statusTopic <+: topic then pure (decodedMessage, auto, setpoint) else none

/-- `ventrilatorStatus.setMode`. -/
def State.setMode (s : State) (mode valueTarget : Json) : State :=
  { s with ventrilatorStatus := s.ventrilatorStatus.setMode mode valueTarget }

@[simp] theorem State.setMode_ventrilatorStatus (s : State) (mode valueTarget : Json) :
    (s.setMode mode valueTarget).ventrilatorStatus = ⟨mode, valueTarget⟩ := rfl

@[simp] theorem latest_setMode (s : State) (mode valueTarget : Json) :
    latest (s.setMode mode valueTarget) = latest s := rfl

/-- Nothing that a key is looked up in is the number -1. -/
theorem eqMinusOne_of_getItem {key : Text} {v w : Json} (h : getItem key v = some w) : Python.eqMinusOne v = false := by
  obtain ⟨members, rfl⟩ := Python.obj_of_getItem h
  rfl

/-- A message with its value `v` on a topic of the status path. -/
theorem handle_message_status_path {env : Env} {s : State} {topic payload text : Text} {v : Json}
    (hd : Python.decode payload = some text) (hl : Python.loads env.py (dropNUL text) = .value v)
    (ht : statusTopic <+: topic) : (handle_message env s topic payload).1 =
      ((getItem (ascii "auto") v).bind fun auto => (getItem (ascii "setpoint") v).map fun setpoint =>
        (push_reading env (s.setMode auto setpoint) v).1).getD s := by
  unfold handle_message
  simp only [hd, decodeStringToJSON, hl, ht, if_true]
  cases hauto : getItem (ascii "auto") v with
  | none => split_ifs <;> rfl
  | some auto =>
    rw [eqMinusOne_of_getItem hauto, if_neg Bool.false_ne_true]
    cases getItem (ascii "setpoint") v with
    | none => rfl
    | some setpoint => rfl

/-- `handle_message` sets the mode and then pushes, or it changes nothing. -/
theorem handle_message_halves (env : Env) (s : State) (topic : Text) (payload : List (BitVec 8)) :
    (handle_message env s topic payload).1 = (statusMessage env topic payload).elim s fun (v, auto, setpoint) =>
      (push_reading env (s.setMode auto setpoint) v).1 := by
  cases hd : Python.decode payload with
  | none => simp [handle_message, statusMessage, received, hd]
  | some text =>
    cases hl : Python.loads env.py (dropNUL text) with
    | JSONDecodeError => simp [handle_message, statusMessage, received, decodeStringToJSON, hd, hl, Python.eqMinusOne]
    | otherError => simp [handle_message, statusMessage, received, decodeStringToJSON, hd, hl]
    | value v =>
      by_cases ht : statusTopic <+: topic
      · rw [handle_message_status_path hd hl ht]
        cases hauto : getItem (ascii "auto") v with
        | none => simp [statusMessage, received, hd, hl, hauto]
        | some auto =>
          cases hsetpoint : getItem (ascii "setpoint") v with
          | none => simp [statusMessage, received, hd, hl, hauto, hsetpoint]
          | some setpoint => simp [statusMessage, received, hd, hl, hauto, hsetpoint, ht]
      · have hnone : statusMessage env topic payload = none := by
          simp [statusMessage, ht]
        rw [hnone, Option.elim_none]
        cases hv : Python.eqMinusOne v with
        | true => simp [handle_message, decodeStringToJSON, hd, hl, hv]
        | false =>
          by_cases hlog : logTopic <+: topic
          · exact (handle_message_log hd hl hv ht hlog).1
          · exact congrArg Prod.fst (handle_message_other hd hl ht hlog)

/-! ### The two threads -/

/-- Where `get_startup_values` is; `read` has the row of the query. -/
inductive Startup
  | waiting
  | read (readings : Row)
  | done

def Startup.isDone : Startup → Bool
  | .done => true
  | _ => false

@[simp] theorem Startup.isDone_done : isDone .done = true := rfl

/-- Where `handle_message` is: idle, or between the mode that a status sets and
its row. `since` is the row that the startup thread has set the mode from in between. -/
inductive Handler
  | idle
  | inserting (env : Env) (decodedMessage auto setpoint : Json) (since : Option Row)

def Handler.isIdle : Handler → Bool
  | .idle => true
  | _ => false

@[simp] theorem Handler.isIdle_idle : isIdle .idle = true := rfl

@[simp] theorem Handler.isIdle_inserting (env : Env) (v auto setpoint : Json) (since : Option Row) :
    isIdle (.inserting env v auto setpoint since) = false := rfl

/-- The startup thread sets the mode from a row. -/
def Handler.overtaken (readings : Row) : Handler → Handler
  | .idle => .idle
  | .inserting env v auto setpoint _ => .inserting env v auto setpoint (some readings)

/-- A server that has started. -/
structure Started where
  state : State
  startup : Startup
  handler : Handler

namespace Started

inductive Event
  /-- The startup thread's query, and whether it gets through. -/
  | read (queried : Bool)
  | set
  /-- A message, up to the mode that it sets if it sets one. -/
  | message (env : Env) (topic : Text) (payload : List (BitVec 8))
  /-- The rest of that message. -/
  | insert

/-- The imported modules over any table, and neither thread has done anything. -/
def IsStart (s : Started) : Prop :=
  ∃ readings, s = ⟨{ State.new with readings }, .waiting, .idle⟩

/-- The table counts its index up. -/
def step (s : Started) : Event → Option Started
  | .read queried =>
    match s.startup with
    | .waiting =>
      match if queried then latest s.state else none with
      | some readings => some { s with startup := .read readings }
      | none => some { s with startup := .done } -- an exception, of the query or of `None.auto`
    | _ => none
  | .set =>
    match s.startup with
    | .read readings =>
      some ⟨s.state.setMode readings.mode.auto readings.mode.valueTarget, .done, s.handler.overtaken readings⟩
    | _ => none
  | .message env topic payload =>
    match s.handler with
    | .idle =>
      match statusMessage env topic payload with
      | some (v, auto, setpoint) =>
        some { s with state := s.state.setMode auto setpoint, handler := .inserting env v auto setpoint none }
      | none => some s
    | _ => none
  | .insert =>
    match s.handler with
    | .inserting env v _ _ _ =>
      let state := (push_reading env s.state v).1
      if ∀ row ∈ state.readings.drop s.state.readings.length, ∀ old ∈ s.state.readings, old.index < row.index then
        some { s with state, handler := .idle }
      else none
    | .idle => none

/-- Both threads are idle. -/
def idle (s : Started) : Bool := s.startup.isDone && s.handler.isIdle

/-- Once they are, the mode equals that of the latest row. -/
def Right (s : Started) : Prop :=
  s.idle = true → (latest s.state).all s.state.ventrilatorStatus.agrees = true

/-- The row that is the latest after the insert: the message's, or the one before
where the commit fails. -/
def stored (env : Env) (s : State) (v : Json) : Option Row := ((Reading.of v).bind env.commit).or (latest s)

/-- What a step must meet.
A query that fails while no message is handled finds the mode of the latest row.
The startup thread sets the mode, while no message is handled, from a row
whose mode is still that of the latest. After it, a message leaves a latest row
with the mode of the message, or with that of the row that the startup thread
set the mode from in between. -/
def InStep (s : Started) : Event → Bool
  | .read queried => queried || !s.handler.isIdle || (latest s.state).all s.state.ventrilatorStatus.agrees
  | .set =>
    match s.startup with
    | .read readings => !s.handler.isIdle || (latest s.state).all readings.mode.agrees
    | _ => true
  | .message _ _ _ => true
  | .insert =>
    match s.handler, s.startup with
    | .inserting env v auto setpoint since, .done =>
      (stored env s.state v).all (since.elim ⟨auto, setpoint⟩ Row.mode).agrees
    | _, _ => true

/-! ### One step -/

variable {s t : Started} {e : Event}

/-- The database adds the message's row or nothing. -/
theorem push_reading_state (env : Env) (s : State) (v : Json) : (push_reading env s v).1 =
    ((Reading.of v).bind env.commit).elim s fun row => { s with readings := s.readings ++ [row] } := by
  unfold push_reading
  cases (Reading.of v).bind env.commit with
  | none => rfl
  | some row =>
    cases getItem (ascii "error") v with
    | none => rfl
    | some _ => rfl

/-- The insert leaves the mode. -/
theorem push_reading_mode (env : Env) (s : State) (v : Json) :
    (push_reading env s v).1.ventrilatorStatus = s.ventrilatorStatus := by
  rw [push_reading_state]
  cases (Reading.of v).bind env.commit with
  | none => rfl
  | some row => rfl

/-- The latest row after the insert, where the index counts up. -/
theorem latest_push_reading {env : Env} {s : State} {v : Json}
    (h : ∀ row ∈ (push_reading env s v).1.readings.drop s.readings.length, ∀ old ∈ s.readings,
      old.index < row.index) :
    latest (push_reading env s v).1 = stored env s v := by
  rw [push_reading_state] at h ⊢
  unfold stored
  cases hrow : (Reading.of v).bind env.commit with
  | none => simp [latest]
  | some row =>
    rw [hrow, Option.elim_some, List.drop_left] at h
    exact argmax_append (h row (List.mem_singleton.mpr rfl))

/-- The query finds a row, or the thread ends. -/
theorem read_cases {queried : Bool} (hstep : s.step (.read queried) = some t) :
    (∃ readings, t = { s with startup := .read readings } ∧ queried = true) ∨
      (t = { s with startup := .done } ∧ (queried = true → latest s.state = none)) := by
  simp only [step] at hstep
  split at hstep
  · split at hstep
    · rename_i readings hread
      refine .inl ⟨readings, (Option.some.inj hstep).symm, ?_⟩
      by_contra hnot
      rw [if_neg hnot] at hread
      cases hread
    · rename_i hread
      exact .inr ⟨(Option.some.inj hstep).symm, fun hqueried => by rwa [if_pos hqueried] at hread⟩
  · cases hstep

theorem set_cases (hstep : s.step .set = some t) : ∃ readings, s.startup = .read readings ∧
    t = ⟨s.state.setMode readings.mode.auto readings.mode.valueTarget, .done, s.handler.overtaken readings⟩ := by
  simp only [step] at hstep
  split at hstep
  · rename_i readings hstartup
    exact ⟨readings, hstartup, (Option.some.inj hstep).symm⟩
  · cases hstep

/-- The handler takes a status, or the message changes nothing. -/
theorem message_cases {env : Env} {topic : Text} {payload : List (BitVec 8)}
    (hstep : s.step (.message env topic payload) = some t) : t = s ∨ ∃ v auto setpoint,
      t = { s with state := s.state.setMode auto setpoint, handler := .inserting env v auto setpoint none } := by
  simp only [step] at hstep
  split at hstep
  · split at hstep
    · exact .inr ⟨_, _, _, (Option.some.inj hstep).symm⟩
    · exact .inl (Option.some.inj hstep).symm
  · cases hstep

theorem insert_cases (hstep : s.step .insert = some t) : ∃ env v auto setpoint since,
    s.handler = .inserting env v auto setpoint since ∧ latest t.state = stored env s.state v ∧
      t = { s with state := (push_reading env s.state v).1, handler := .idle } := by
  simp only [step] at hstep
  split at hstep
  · rename_i env v auto setpoint since hhandler
    split at hstep
    · rename_i hindex
      have ht := (Option.some.inj hstep).symm
      refine ⟨env, v, auto, setpoint, since, hhandler, ?_, ht⟩
      rw [ht]
      exact latest_push_reading hindex
    · cases hstep
  · cases hstep

/-- Between a status's mode and its row the mode is the status's, or that of the row that the startup
thread set it from since. -/
def Held (s : Started) : Prop :=
  match s.handler with
  | .idle => True
  | .inserting _ _ auto setpoint since => s.state.ventrilatorStatus = since.elim ⟨auto, setpoint⟩ Row.mode

theorem Held.step (h : Held s) (hstep : s.step e = some t) : Held t := by
  cases e with
  | read queried =>
    rcases read_cases hstep with ⟨readings, rfl, -⟩ | ⟨rfl, -⟩
    · exact h
    · exact h
  | set =>
    obtain ⟨readings, -, rfl⟩ := set_cases hstep
    unfold Held
    cases s.handler with
    | idle => trivial
    | inserting env v auto setpoint since => rfl
  | message env topic payload =>
    rcases message_cases hstep with rfl | ⟨v, auto, setpoint, rfl⟩
    · exact h
    · exact rfl
  | insert =>
    obtain ⟨env, v, auto, setpoint, since, -, -, rfl⟩ := insert_cases hstep
    trivial

/-- **A step leaves the two agreeing exactly if it meets the condition.** -/
theorem right_step (h : Held s) (hright : Right s) (hstep : s.step e = some t) : Right t ↔ InStep s e = true := by
  cases e with
  | read queried =>
    rcases read_cases hstep with ⟨readings, rfl, rfl⟩ | ⟨rfl, hnone⟩
    · exact iff_of_true (fun hidle => by cases hidle) rfl
    · cases queried with
      | true =>
        refine iff_of_true (fun _ => ?_) rfl
        rw [hnone rfl]
        rfl
      | false =>
        cases hidle : s.handler.isIdle <;> simp [Right, idle, InStep, hidle]
  | set =>
    obtain ⟨readings, hstartup, rfl⟩ := set_cases hstep
    cases hhandler : s.handler with
    | idle => simp [Right, idle, InStep, hstartup, hhandler, Handler.overtaken]
    | inserting env v auto setpoint since => simp [Right, idle, InStep, hstartup, hhandler, Handler.overtaken]
  | message env topic payload =>
    refine iff_of_true ?_ rfl
    rcases message_cases hstep with rfl | ⟨v, auto, setpoint, rfl⟩
    · exact hright
    · intro hidle
      simp [idle] at hidle
  | insert =>
    obtain ⟨env, v, auto, setpoint, since, hhandler, hlatest, ht⟩ := insert_cases hstep
    rw [Held, hhandler] at h
    have hmode : t.state.ventrilatorStatus = since.elim ⟨auto, setpoint⟩ Row.mode := by
      rw [ht, ← h]
      exact push_reading_mode env s.state v
    rw [Right, hlatest, hmode, ht]
    cases hstartup : s.startup <;> simp [idle, InStep, Startup.isDone, hhandler, hstartup]

/-! ### Runs -/

/-- **When the mode is right**, after any run whose steps so far met the condition: it is, and
after one more step it is exactly if that step meets the condition too. -/
theorem mode_right_iff (hr : Machine.Reach step IsStart (fun s e => InStep s e = true) s) :
    Right s ∧ ∀ e t, s.step e = some t → (Right t ↔ InStep s e = true) := by
  have hstart : ∀ s, IsStart s → Held s ∧ Right s := by
    rintro s ⟨readings, rfl⟩
    exact ⟨trivial, fun hidle => by cases hidle⟩
  have hinv : Held s ∧ Right s :=
    hr.invariant hstart fun s e t h hin hstep => ⟨h.1.step hstep, (right_step h.1 h.2 hstep).mpr hin⟩
  exact ⟨hinv.2, fun e t hstep => right_step hinv.1 hinv.2 hstep⟩

/-! ### Four runs -/

instance (s : Started) : Decidable (Right s) := inferInstanceAs (Decidable (_ → _))

/-- A row of an earlier session: manual, at 30. -/
def oldRow : Row := ⟨0, some 30, some 30, some false, some 5, none, none, none, none, some 0⟩

/-- The server started over that row. -/
def overOldRow : Started := ⟨{ State.new with readings := [oldRow] }, .waiting, .idle⟩

/-- A status: manual, at 18. -/
def statusEvent (env : Env) : Event := .message env statusTopic (deviceStatus "true")

/-- The startup comes first, and the status is stored: the mode is the status's. -/
theorem mode_right_in_order :
    ∃ s, Machine.run step overOldRow [.read true, .set, statusEvent keepingEnv, .insert] = some s ∧
    s.idle = true ∧ (latest s.state).map Row.setpoint = some (some 18) ∧ Right s := by
  have hrun : (Machine.runIf step (fun s e => InStep s e = true) overOldRow
      [.read true, .set, statusEvent keepingEnv, .insert]).any (fun s =>
        s.idle && decide ((latest s.state).map Row.setpoint = some (some 18))) = true := by
    decide +kernel
  obtain ⟨s, hs, hp⟩ := (Option.any_eq_true _ _).mp hrun
  obtain ⟨hidle, hsetpoint⟩ := Bool.and_eq_true_iff.mp hp
  have hstart : IsStart overOldRow := ⟨[oldRow], rfl⟩
  obtain ⟨hreach, hs⟩ := Machine.Reach.runIf (.init hstart) hs
  exact ⟨s, hs, hidle, of_decide_eq_true hsetpoint, (mode_right_iff hreach).1⟩

/-- A run ends with both threads idle and the mode of another row than the latest. -/
def EndsWrong (events : List Event) : Prop := ∃ s, Machine.run step overOldRow events = some s ∧ ¬ Right s

instance (events : List Event) : Decidable (EndsWrong events) :=
  decidable_of_iff ((Machine.run step overOldRow events).any (fun s => !decide (Right s)) = true) (by
    simp [EndsWrong, Option.any_eq_true])

/-- The status comes between the two steps of the startup, around its second step, or after it
with an insert that fails. -/
theorem mode_wrong : EndsWrong [.read true, statusEvent keepingEnv, .insert, .set] ∧
    EndsWrong [.read true, statusEvent keepingEnv, .set, .insert] ∧
    EndsWrong [.read true, .set, statusEvent { keepingEnv with commit := fun _ => none }, .insert] := by
  decide +kernel

end Started
end Server
end Ventilation
