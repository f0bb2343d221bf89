/-
# A log between the device and the table (src/logHandler.cpp, src/FlaskSrv)

`pushLog` publishes the text of a log in JSON, for `handle_message` to store. The two
do not meet: the server does not subscribe to the topic, the message is a
string with something behind it, and the row is built with a keyword that is no column.
Each of the three alone loses every log (`pushed_log_lost`).
-/
import Ventilation.Lib.CString
import Ventilation.Server.Messages
import Ventilation.Subscriptions

namespace Ventilation
namespace Server

open Python (ascii decode loads getItem)
open Json (Text skipWs)

/-! ### The device -/

theorem zero_notMem_ascii {s : String} (h : (ascii s).all (· ≠ 0) = true) : (0 : BitVec 8) ∉ ascii s :=
  fun hmem => of_decide_eq_true (List.all_eq_true.mp h 0 hmem) rfl

/-- The string that `pushLog` puts a text of `logMessages` in. -/
def pushedMessage (log : CString) : CString where
  chars := ascii "\"\x7b\"log\":\"" ++ log.chars ++ ascii "\"\x7d\""
  no_nul := by
    rw [List.mem_append, List.mem_append]
    rintro ((h | h) | h)
    · exact zero_notMem_ascii (by decide) h
    · exact log.no_nul h
    · exact zero_notMem_ascii (by decide) h

/-- The topic of `publish(TopicType::LOG_SEND, ..)`. -/
def pushedTopic : Text := ascii (CommHandler.new.topics .LOG_SEND).1

/-- Its payload: `strlen(payload) + 1` bytes. -/
def pushedPayload (log : CString) : List (BitVec 8) := (pushedMessage log).bytes

/-! ### The server -/

def initialSubscribeTopics : List Text := [statusTopic, ascii "data"]

/-- The payload is decoded to an object whose member `log` is the text. -/
def Decoded (env : Env) (log : CString) : Prop :=
  ∃ text v, decode (pushedPayload log) = some text ∧ loads env.py (dropNUL text) = .value v ∧
    getItem (ascii "log") v = some (.str log.chars)

/-- Exactly one row is committed, with the text. -/
def Stored (env : Env) (s : State) (log : CString) : Prop :=
  (handle_message env s pushedTopic (pushedPayload log)).1.logmessages = s.logmessages ++ [⟨some (.str log.chars)⟩]

/-- The log gets from the device into the table. -/
def Arrives (env : Env) (s : State) (log : CString) : Prop :=
  pushedTopic ∈ initialSubscribeTopics ∧ Decoded env log ∧ Stored env s log

variable {env : Env} {s : State}

/-- The message begins with a string of one brace, and goes on. -/
theorem read_quoted (rest : Text) : Python.read (ascii "\"\x7b\"l" ++ rest) = none := by
  have htext : ascii "\"\x7b\"l" ++ rest = 34 :: 123 :: 34 :: 108 :: rest := rfl
  have hvalue : Python.readValue (2 * (34 :: 123 :: 34 :: 108 :: rest).length + 1)
      (skipWs (34 :: 123 :: 34 :: 108 :: rest)) = some (.str [123], 108 :: rest) := rfl
  rw [htext]
  exact Python.read_eq_none hvalue (List.cons_ne_nil _ _)

/-- The message is not JSON. -/
theorem read_payload (log : CString) : Python.read (dropNUL (pushedPayload log)) = none := by
  rw [pushedPayload, dropNUL_bytes]
  exact read_quoted (ascii "og\":\"" ++ log.chars ++ ascii "\"\x7d\"")

theorem not_decoded (env : Env) (log : CString) : ¬ Decoded env log := by
  rintro ⟨text, v, hd, hl, -⟩
  rw [Python.decode_eq_some hd] at hl
  exact Python.loads_ne_value (read_payload log) v hl

/-- No message adds to the table of logs. -/
theorem handle_message_logmessages (env : Env) (s : State) (topic : Text) (payload : List (BitVec 8)) :
    (handle_message env s topic payload).1.logmessages = s.logmessages := by
  rcases handle_message_cases env s topic payload with hsame | ⟨v, auto, setpoint, -, -, -, heq⟩
  · rw [hsame]
  · rw [heq]
    rcases push_reading_cases env { s with ventrilatorStatus := s.ventrilatorStatus.setMode auto setpoint } v with
      hsame | ⟨reading, row, -, -, hadd⟩
    · rw [hsame]
    · rw [hadd]

/-- **Every log is lost**, at each of the three. -/
theorem pushed_log_lost (env : Env) (s : State) (log : CString) :
    pushedTopic ∉ initialSubscribeTopics ∧ ¬ Decoded env log ∧ ¬ Stored env s log ∧ ¬ Arrives env s log := by
  have hdecoded := not_decoded env log
  refine ⟨by decide, hdecoded, fun hstored => ?_, fun h => hdecoded h.2.1⟩
  have hlength := congrArg List.length (hstored.symm.trans (handle_message_logmessages env s _ _))
  simp at hlength

/-- The first text of `logMessages`. -/
def testLog : CString := ⟨ascii "Test", zero_notMem_ascii (by decide)⟩

/-- It is lost though the database stores everything. -/
theorem test_log_lost : ¬ Arrives anyEnv .new testLog ∧
    (handle_message anyEnv .new pushedTopic (pushedPayload testLog)).1.logmessages.length = 0 ∧
    (handle_message anyEnv .new pushedTopic (pushedPayload testLog)).2 = .returned :=
  ⟨fun h => absurd h.1 (by decide), by decide +kernel, by decide +kernel⟩

end Server
end Ventilation
