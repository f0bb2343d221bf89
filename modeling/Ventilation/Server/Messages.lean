/-
# Messages at the server (src/FlaskSrv/app.py, ServerImports/mqttImports.py, dbImports.py)

`handle_message` runs in the thread of the MQTT client: what it raises nobody
catches, and the `jsonify` of an `except` clause raises again there, outside the application
context. The log file and the standard output can be written.
`handle_message_proper_iff` says which messages it handles properly: it returns,
and what is not a message for its topic changes nothing.
-/
import Ventilation.Lib.CString
import Ventilation.Lib.PyJson

namespace Ventilation
namespace Server

open Python (ascii decode loads getItem eqMinusOne truthy Interpreter)
open Json (Text)

/-! ### The state -/

structure Ventrilator where
  auto : Json
  valueTarget : Json

def Ventrilator.new : Ventrilator := ⟨.bool false, .int 30⟩

def Ventrilator.setMode (_ : Ventrilator) (mode valueTarget : Json) : Ventrilator := ⟨mode, valueTarget⟩

/-- The arguments of `Readings` but the timestamp. -/
structure Reading where
  speed : Json
  pressure : Json
  auto : Json
  setpoint : Json
  co2 : Json
  ah : Json
  rh : Json
  temp : Json

/-- A row of the table `readings`; a column may be NULL. -/
structure Row where
  index : ℕ
  speed : Option ℤ
  setpoint : Option ℤ
  auto : Option Bool
  pressure : Option ℤ
  co2 : Option ℤ
  ah : Option ℤ
  rh : Option ℤ
  temp : Option ℤ
  timestamp : Option ℕ

/-- A row of the table `logmessages`. -/
structure LogRow where
  message : Option Json

/-- The two tables in the order of insertion, and the variables of the modules. -/
structure State where
  readings : List Row
  logmessages : List LogRow
  ventrilatorStatus : Ventrilator
  lastStatus : Bool

/-- The interpreter, what its clock reads, and what the database makes of a reading
or a log: `none` and `false` where the commit raises. -/
structure Env where
  py : Interpreter
  now : Json
  commit : Reading → Option Row
  commitLog : LogRow → Bool

/-- How a call ends. -/
inductive Exit
  | returned | raised
  deriving DecidableEq

/-! ### The functions -/

/-- `none` is an exception other than a `JSONDecodeError`. -/
def decodeStringToJSON (py : Interpreter) (json_string : Text) : Option Json :=
  match loads py json_string with
  | .value decodedMessage => some decodedMessage
  | .JSONDecodeError => some (.int (-1))
  | .otherError => none

/-- `v == "NULL"`. -/
def isNULL : Json → Bool
  | .str s => s = ascii "NULL"
  | _ => false

/-- `none` is an exception: no `dict`, or no such level. -/
def validateKeywordsInJSON (decodedJSON : Json) (keywordList : List Text) (verifycationLevel : ℕ) : Option Bool :=
  match decodedJSON with
  | .obj _ =>
    if verifycationLevel = 1 then some (keywordList.all fun keyword => (getItem keyword decodedJSON).isSome)
    else if verifycationLevel = 2 then
      some (keywordList.all fun keyword => (getItem keyword decodedJSON).any fun v => truthy v && !isNULL v)
    else none
  | _ => none

/-- The arguments, in the order in which they are looked up. -/
def Reading.of (json_data : Json) : Option Reading := do
  let speed ← getItem (ascii "speed") json_data
  let pressure ← getItem (ascii "pressure") json_data
  let auto ← getItem (ascii "auto") json_data
  let setpoint ← getItem (ascii "setpoint") json_data
  let co2 ← getItem (ascii "co2") json_data
  let ah ← getItem (ascii "ah") json_data
  let rh ← getItem (ascii "rh") json_data
  let temp ← getItem (ascii "temp") json_data
  pure ⟨speed, pressure, auto, setpoint, co2, ah, rh, temp⟩

/-- `push_reading`. Its `lastStatus` is a variable of its own, not the module's. -/
def push_reading (env : Env) (s : State) (json_data : Json) : State × Exit :=
  match (Reading.of json_data).bind env.commit with
  | some row =>
    let s := { s with readings := s.readings ++ [row] }
    match getItem (ascii "error") json_data with
    | some _ => (s, .returned)
    | none => (s, .raised)
  | none => (s, .raised)

/-- The constructor of the table's class: a keyword that is no column is a `TypeError`. -/
def LogMessage (kwargs : List (String × Json)) : Option LogRow :=
  if kwargs.all fun k => k.1 ∈ ["index", "message", "timestamp"] then some ⟨kwargs.lookup "message"⟩ else none

def push_log (env : Env) (s : State) (json_data : Json) : State × Exit :=
  match (getItem (ascii "logcode") json_data).bind fun logcode =>
      LogMessage [("logcode", logcode), ("timestamp", env.now)] with
  | some log =>
    if env.commitLog log then ({ s with logmessages := s.logmessages ++ [log] }, .returned)
    else (s, .raised)
  | none => (s, .raised)

/-- `text.replace("\0", '')`. -/
def dropNUL (text : Text) : Text := text.filter (· ≠ 0)

/-- What the device sends ends with the NUL of a string. -/
theorem dropNUL_bytes (string : CString) : dropNUL string.bytes = string.chars := by
  have hself : string.chars.filter (· ≠ 0) = string.chars :=
    List.filter_eq_self.mpr fun b hb => decide_eq_true fun he => string.no_nul (he ▸ hb)
  rw [dropNUL, CString.bytes, List.filter_append, hself]
  exact List.append_nil _

def statusTopic : Text := ascii "vent/controller/status"

def logTopic : Text := ascii "loghandler/logMessages"

def handle_message (env : Env) (s : State) (topic : Text) (payload : List (BitVec 8)) : State × Exit :=
  match decode payload with
  | none => (s, .raised)
  | some receivedMessage =>
    match decodeStringToJSON env.py (dropNUL receivedMessage) with
    | none => (s, .raised)
    | some decodedMessage =>
      if eqMinusOne decodedMessage then (s, .returned)
      else if statusTopic <+: topic then
        match getItem (ascii "auto") decodedMessage, getItem (ascii "setpoint") decodedMessage with
        | some auto, some setpoint =>
          push_reading env { s with ventrilatorStatus := s.ventrilatorStatus.setMode auto setpoint } decodedMessage
        | _, _ => (s, .raised)
      else if logTopic <+: topic then
        match validateKeywordsInJSON decodedMessage [ascii "log"] 2 with
        | none => (s, .raised)
        | some false => (s, .returned)
        | some true => push_log env s decodedMessage
      else if ascii "dat" <+: topic then (s, .returned) -- printed
      else (s, .returned)

/-! ### What a message does -/

/-- The value that a payload is decoded to. -/
def received (env : Env) (payload : List (BitVec 8)) : Option Json :=
  (decode payload).bind fun text =>
    match loads env.py (dropNUL text) with
    | .value v => some v
    | _ => none

/-- An object is not what the decoder answers an error with. -/
theorem received_eq {env : Env} {payload text key : Text} {v w : Json} (hd : decode payload = some text)
    (hv : decodeStringToJSON env.py (dropNUL text) = some v) (hw : getItem key v = some w) :
    received env payload = some v := by
  rw [received, hd, Option.bind_some]
  unfold decodeStringToJSON at hv
  cases hl : loads env.py (dropNUL text) with
  | value u =>
    rw [hl] at hv
    exact hv
  | JSONDecodeError =>
    rw [hl] at hv
    cases hv
    cases hw
  | otherError =>
    rw [hl] at hv
    cases hv

/-- A log is never stored: the table has no column `logcode`. -/
theorem push_log_raises (env : Env) (s : State) (v : Json) : push_log env s v = (s, .raised) := by
  have hnone : ∀ logcode, LogMessage [("logcode", logcode), ("timestamp", env.now)] = none := fun _ => rfl
  unfold push_log
  cases getItem (ascii "logcode") v with
  | none => rfl
  | some logcode => rw [Option.bind_some, hnone]

/-- A message changes nothing, or it is a status that sets the mode and is pushed. -/
theorem handle_message_cases (env : Env) (s : State) (topic : Text) (payload : List (BitVec 8)) :
    (handle_message env s topic payload).1 = s ∨ ∃ v auto setpoint, received env payload = some v ∧
      getItem (ascii "auto") v = some auto ∧ getItem (ascii "setpoint") v = some setpoint ∧
      handle_message env s topic payload =
        push_reading env { s with ventrilatorStatus := s.ventrilatorStatus.setMode auto setpoint } v := by
  unfold handle_message
  split
  · exact .inl rfl
  · rename_i text hd
    split
    · exact .inl rfl
    · rename_i v hv
      split_ifs
      · exact .inl rfl
      · split
        · rename_i auto setpoint hauto hsetpoint
          exact .inr ⟨v, auto, setpoint, received_eq hd hv hauto, hauto, hsetpoint, rfl⟩
        · exact .inl rfl
      · split
        · exact .inl rfl
        · exact .inl rfl
        · rw [push_log_raises]
          exact .inl rfl
      · exact .inl rfl
      · exact .inl rfl

/-- A status is stored as the row that the database makes of it, or not at all. -/
theorem push_reading_cases (env : Env) (s : State) (v : Json) :
    (push_reading env s v).1 = s ∨ ∃ reading row, Reading.of v = some reading ∧ env.commit reading = some row ∧
      (push_reading env s v).1 = { s with readings := s.readings ++ [row] } := by
  unfold push_reading
  split
  · rename_i row hrow
    obtain ⟨reading, hreading, hcommit⟩ := Option.bind_eq_some_iff.mp hrow
    split <;> exact .inr ⟨reading, row, hreading, hcommit, rfl⟩
  · exact .inl rfl

/-! ### What is handled properly -/

/-- The keys that the handling of a topic reads. -/
def keysRead (topic : Text) : List Text :=
  if statusTopic <+: topic then
    ["auto", "setpoint", "speed", "pressure", "co2", "ah", "rh", "temp", "error"].map ascii
  else if logTopic <+: topic then ["log", "logcode"].map ascii
  else []

/-- A payload in UTF-8 that is JSON for an object with every key the topic's handling reads. -/
def Denotes (env : Env) (topic : Text) (payload : List (BitVec 8)) : Prop :=
  ∃ text v, decode payload = some text ∧ loads env.py (dropNUL text) = .value v ∧
    (∃ members, v = .obj members) ∧ ∀ key ∈ keysRead topic, (getItem key v).isSome

/-- It returns, and what is not a message for the topic changes nothing. -/
def Proper (env : Env) (s : State) (topic : Text) (payload : List (BitVec 8)) : Prop :=
  (handle_message env s topic payload).2 = .returned ∧
    (¬ Denotes env topic payload → (handle_message env s topic payload).1 = s)

/-- A status that is stored, and has a member `error`. -/
def Storable (env : Env) (v : Json) : Prop :=
  ∃ reading row, Reading.of v = some reading ∧ env.commit reading = some row ∧ (getItem (ascii "error") v).isSome

/-- A log whose text is missing, empty or `NULL`. -/
def Ignored (v : Json) : Prop :=
  (∃ members, v = .obj members) ∧
    ∀ log, getItem (ascii "log") v = some log → truthy log = false ∨ log = .str (ascii "NULL")

/-- What the topic's handling gets through with. -/
def Accepted (env : Env) (topic : Text) (v : Json) : Prop :=
  if statusTopic <+: topic then Storable env v
  else if logTopic <+: topic then Ignored v
  else True

variable {env : Env} {s : State} {v : Json}

theorem Reading.of_eq_some {reading : Reading} (h : Reading.of v = some reading) :
    getItem (ascii "auto") v = some reading.auto ∧ getItem (ascii "setpoint") v = some reading.setpoint ∧
      ∀ key ∈ ["auto", "setpoint", "speed", "pressure", "co2", "ah", "rh", "temp"].map ascii, (getItem key v).isSome := by
  simp only [Reading.of, bind, Option.bind_eq_some_iff, pure, Option.some.injEq] at h
  obtain ⟨speed, h1, pressure, h2, auto, h3, setpoint, h4, co2, h5, ah, h6, rh, h7, temp, h8, rfl⟩ := h
  refine ⟨h3, h4, fun key hkey => ?_⟩
  simp only [List.map_cons, List.map_nil, List.mem_cons, List.not_mem_nil, or_false] at hkey
  rcases hkey with rfl | rfl | rfl | rfl | rfl | rfl | rfl | rfl
  · rw [h3]; rfl
  · rw [h4]; rfl
  · rw [h1]; rfl
  · rw [h2]; rfl
  · rw [h5]; rfl
  · rw [h6]; rfl
  · rw [h7]; rfl
  · rw [h8]; rfl

/-- `push_reading` returns exactly if the status is stored and has a member `error`. -/
theorem push_reading_returned_iff : (push_reading env s v).2 = .returned ↔ Storable env v := by
  unfold push_reading Storable
  cases hreading : Reading.of v with
  | none => simp
  | some reading =>
    rw [Option.bind_some]
    cases hrow : env.commit reading with
    | none => simp [hrow]
    | some row =>
      cases herror : getItem (ascii "error") v with
      | none => simp
      | some e => simp [hrow]

/-- What is done with a message that was decoded, by its topic. -/
theorem handle_message_status {topic : Text} {payload text : List (BitVec 8)} (hd : decode payload = some text)
    (hl : loads env.py (dropNUL text) = .value v) (hv : eqMinusOne v = false) (ht : statusTopic <+: topic) :
    ((handle_message env s topic payload).2 = .returned ↔ Storable env v) := by
  unfold handle_message
  simp only [hd, decodeStringToJSON, hl, hv, ht, if_true, Bool.false_eq_true, if_false]
  split
  · exact push_reading_returned_iff
  · rename_i hmissing
    refine iff_of_false (by simp) ?_
    rintro ⟨reading, row, hreading, -⟩
    obtain ⟨hauto, hsetpoint, -⟩ := Reading.of_eq_some hreading
    exact hmissing _ _ hauto hsetpoint

theorem isNULL_iff {w : Json} : isNULL w = true ↔ w = .str (ascii "NULL") := by
  cases w with
  | str t => simp [isNULL]
  | _ => simp [isNULL]

/-- The check of a log's one keyword. -/
theorem validate_log_iff : validateKeywordsInJSON v [ascii "log"] 2 = some false ↔ Ignored v := by
  by_cases hobj : ∃ members, v = .obj members
  · obtain ⟨members, rfl⟩ := hobj
    have hall : validateKeywordsInJSON (.obj members) [ascii "log"] 2 =
        some ((getItem (ascii "log") (.obj members)).any fun w => truthy w && !isNULL w) := by
      simp [validateKeywordsInJSON]
    rw [hall, Option.some.injEq, Ignored]
    cases hlog : getItem (ascii "log") (.obj members) with
    | none => exact iff_of_true rfl ⟨⟨members, rfl⟩, fun _ h => by cases h⟩
    | some w =>
      rw [Option.any_some, Bool.and_eq_false_iff, Bool.not_eq_false', isNULL_iff]
      constructor
      · intro hw
        exact ⟨⟨members, rfl⟩, fun log h => Option.some.inj h ▸ hw⟩
      · exact fun h => h.2 w rfl
  · refine iff_of_false (fun h => ?_) (fun h => hobj h.1)
    cases v with
    | obj members => exact hobj ⟨members, rfl⟩
    | _ => cases h

theorem handle_message_log {topic : Text} {payload text : List (BitVec 8)} (hd : decode payload = some text)
    (hl : loads env.py (dropNUL text) = .value v) (hv : eqMinusOne v = false)
    (hs : ¬ statusTopic <+: topic) (ht : logTopic <+: topic) :
    (handle_message env s topic payload).1 = s ∧
      ((handle_message env s topic payload).2 = .returned ↔ Ignored v) := by
  rw [← validate_log_iff]
  unfold handle_message
  simp only [hd, decodeStringToJSON, hl, hv, hs, ht, if_true, Bool.false_eq_true, if_false]
  split
  · rename_i h
    simp [h]
  · rename_i h
    simp [h]
  · rename_i h
    rw [push_log_raises, h]
    simp

theorem handle_message_other {topic : Text} {payload text : List (BitVec 8)} (hd : decode payload = some text)
    (hl : loads env.py (dropNUL text) = .value v) (hs : ¬ statusTopic <+: topic)
    (ht : ¬ logTopic <+: topic) : handle_message env s topic payload = (s, .returned) := by
  unfold handle_message
  simp only [hd, decodeStringToJSON, hl, hs, ht, if_false, ite_self]

/-- A status that is stored is a message for its topic. -/
theorem Storable.denotes (h : Storable env v) {topic : Text} {payload text : List (BitVec 8)}
    (hd : decode payload = some text) (hl : loads env.py (dropNUL text) = .value v)
    (ht : statusTopic <+: topic) : Denotes env topic payload := by
  obtain ⟨reading, row, hreading, -, herror⟩ := h
  obtain ⟨hauto, -, hkeys⟩ := Reading.of_eq_some hreading
  refine ⟨text, v, hd, hl, Python.obj_of_getItem hauto, fun key hkey => ?_⟩
  rw [keysRead, if_pos ht] at hkey
  rcases List.mem_append.mp (show key ∈ ["auto", "setpoint", "speed", "pressure", "co2", "ah", "rh", "temp"].map ascii ++
    [ascii "error"] from hkey) with hkey | hkey
  · exact hkeys key hkey
  · rw [List.mem_singleton.mp hkey]
    exact herror

/-- **Which messages are handled properly.** -/
theorem handle_message_proper_iff (env : Env) (s : State) (topic : Text) (payload : List (BitVec 8)) :
    Proper env s topic payload ↔ ∃ text, decode payload = some text ∧
      match loads env.py (dropNUL text) with
      | .value v => eqMinusOne v = true ∨ Accepted env topic v
      | .JSONDecodeError => True
      | .otherError => False := by
  unfold Proper
  cases hd : decode payload with
  | none =>
    refine iff_of_false (fun h => ?_) (fun ⟨_, h, _⟩ => nomatch h)
    simp [handle_message, hd] at h
  | some text =>
    simp only [Option.some.injEq, exists_eq_left']
    cases hl : loads env.py (dropNUL text) with
    | otherError =>
      refine iff_of_false (fun h => ?_) id
      simp [handle_message, hd, decodeStringToJSON, hl] at h
    | JSONDecodeError =>
      refine iff_of_true ?_ trivial
      simp [handle_message, hd, decodeStringToJSON, hl, eqMinusOne]
    | value v =>
      dsimp only
      cases hv : eqMinusOne v with
      | true =>
        refine iff_of_true ?_ (.inl rfl)
        simp [handle_message, hd, decodeStringToJSON, hl, hv]
      | false =>
        rw [or_iff_right Bool.false_ne_true, Accepted]
        by_cases hs : statusTopic <+: topic
        · rw [if_pos hs, handle_message_status hd hl hv hs]
          exact ⟨And.left, fun h => ⟨h, fun hnot => absurd (h.denotes hd hl hs) hnot⟩⟩
        · rw [if_neg hs]
          by_cases ht : logTopic <+: topic
          · obtain ⟨hsame, hreturned⟩ := handle_message_log (s := s) hd hl hv hs ht
            rw [if_pos ht, hreturned, hsame]
            exact and_iff_left fun _ => rfl
          · rw [if_neg ht, handle_message_other hd hl hs ht]
            exact iff_of_true ⟨rfl, fun _ => rfl⟩ trivial

/-! ### Messages that are not -/

/-- The modules as they are imported, over empty tables. -/
def State.new : State := ⟨[], [], .new, true⟩

/-- An interpreter that meets no limit and a database that stores everything, with the
readings as NULL. -/
def anyEnv : Env := ⟨⟨fun _ => false⟩, .null, fun _ => some ⟨1, none, none, none, none, none, none, none, none, none⟩,
  fun _ => true⟩

/-- A status with two of its members. -/
def partialStatus : Text := ascii "\x7b\"auto\":true,\"setpoint\":5\x7d"

/-- A byte that is not UTF-8, and a status with two of its members: an exception,
and the second has set the mode. -/
theorem improper_messages : ¬ Proper anyEnv .new statusTopic [0xff] ∧
    ¬ Proper anyEnv .new statusTopic partialStatus ∧
    truthy (handle_message anyEnv .new statusTopic partialStatus).1.ventrilatorStatus.auto = true := by
  have hbyte : (handle_message anyEnv .new statusTopic [0xff]).2 = .raised := by
    decide +kernel
  have hstatus : (handle_message anyEnv .new statusTopic partialStatus).2 = .raised := by
    decide +kernel
  refine ⟨fun h => ?_, fun h => ?_, by decide +kernel⟩
  · have hreturned := hbyte.symm.trans h.1
    cases hreturned
  · have hreturned := hstatus.symm.trans h.1
    cases hreturned

end Server
end Ventilation
