/-
# From the settings page to the controls (src/FlaskSrv/app.py, src/commhandler.cpp)

The server makes a message of two segments of a URL, whatever they are, and
answers 200 whether or not the broker takes it; the controller reads the
message with rapidjson, which is not part of the sources (`RapidJson`).
`set_mode_obeyed_iff` says when a request is obeyed: if the broker takes the
message and both segments are integers of 32 bits written as JSON has them.
-/
import Ventilation.CommHandler
import Ventilation.IPStack
import Ventilation.Lib.CString
import Ventilation.Lib.JsonNumeral
import Ventilation.Lib.Machine

namespace Ventilation

open CInt

/-! ### The server -/

structure Message where
  topic : String
  payload : List Byte

/-- What becomes of `mqtt.publish`: the broker gets the message, or an error
code is returned, or an exception is raised. -/
inductive Publish
  | handed | refused | raised
  deriving DecidableEq

/-- What a request meets outside: whether each of the places that write to the
log file can (0 and 2 in `set_mode`, 1 where a publish has failed), and what
becomes of the publish. -/
structure Outcome where
  logs : ℕ → Bool
  publish : Publish

/-- The messages handed to the broker, and the result; `none` is an exception
out of the `except` clause. -/
def publishJSONtoMQTT (o : Outcome) (topic : String) (message : List Byte) :
    List Message × Option Bool :=
  match o.publish with
  | .handed => ([⟨topic, message⟩], some true)
  | .refused => ([], some true)
  | .raised => ([], if o.logs 1 then some false else none)

/-- The text of the message, `\x7b"auto":mode, "value":value\x7d`. -/
def settingsText (mode value : List Byte) : List Byte :=
  [0x7b, 0x22, 0x61, 0x75, 0x74, 0x6f, 0x22, 0x3a] ++ mode ++
    [0x2c, 0x20, 0x22, 0x76, 0x61, 0x6c, 0x75, 0x65, 0x22, 0x3a] ++ value ++ [0x7d]

/-- The messages handed to the broker, and the status code. -/
def set_mode (o : Outcome) (mode value : List Byte) : List Message × ℕ :=
  if o.logs 0 then
    match publishJSONtoMQTT o "vent/controller/settings" (settingsText mode value ++ [0]) with
    | (sent, some _) => (sent, if o.logs 2 then 200 else 500)
    | (sent, none) => (sent, 500)
  else ([], 500)

/-! ### The controller -/

/-- `Document::Parse`, on the text of a C string. A document may be rejected
for its numbers, but not for integers that fit 64 bits. -/
structure RapidJson where
  Parse : List Byte → Json
  Parse_malformed : ∀ text, Json.read text = none → Parse text = .null
  Parse_read : ∀ text v, Json.read text = some v → Parse text = v ∨ Parse text = .null
  Parse_ints : ∀ text ms, Json.read text = some (.obj ms) →
    (∀ m ∈ ms, ∃ x, m.2 = .int x ∧ -2 ^ 63 ≤ x ∧ x < 2 ^ 63) → Parse text = .obj ms

/-- `operator[]`; `none` where an assertion fails. -/
def member (name : List Byte) : Json → Option Json
  | .obj ms => (ms.find? fun m => m.1 = name).map Prod.snd
  | _ => none

/-- `GetInt`; `none` where an assertion fails. -/
def GetInt : Json → Option ℤ
  | .int x => signed? 32 x
  | _ => none

/-- The names `auto` and `value`. -/
def autoName : List Byte := [0x61, 0x75, 0x74, 0x6f]

def valueName : List Byte := [0x76, 0x61, 0x6c, 0x75, 0x65]

/-- `message_arrived`, with the memory from the payload on. -/
def message_arrived (rj : RapidJson) (c : Controls) (payload : List Byte) : Option Controls := do
  let doc := rj.Parse (← CString.read payload)
  let aut ← member autoName doc
  let set ← member valueName doc
  let setpoint ← GetInt set
  let aut ← GetInt aut
  pure (c.message aut setpoint)

/-! ### What is read from the message -/

section Read

variable {m v : Json.Numeral} {k : ℕ}

/-- The second member, up to the closing brace. -/
def valueMember (value : List Byte) : List Byte := 34 :: (valueName ++ 34 :: 58 :: (value ++ [125]))

/-- The text behind the opening brace. -/
def bothMembers (mode value : List Byte) : List Byte :=
  34 :: (autoName ++ 34 :: 58 :: (mode ++ 44 :: 32 :: valueMember value))

theorem settingsText_eq (mode value : List Byte) : settingsText mode value = 123 :: bothMembers mode value := by
  simp [settingsText, bothMembers, valueMember, autoName, valueName]

theorem plain_autoName : Json.Plain autoName := by
  unfold Json.Plain autoName
  decide

theorem plain_valueName : Json.Plain valueName := by
  unfold Json.Plain valueName
  decide

/-- Behind a segment comes what ends a number. -/
theorem ends_comma (l : List Byte) : Json.Ends (44 :: l) := by
  rintro b ⟨⟩
  decide

theorem ends_brace : Json.Ends [125] := by
  rintro b ⟨⟩
  decide

theorem skipWs_after (n : Json.Numeral) {b : Byte} (hb : Json.isWs b = false) (l : List Byte) :
    Json.skipWs (n.after ++ b :: l) = b :: l := by
  rw [Json.skipWs_append n.after_ws, Json.skipWs_cons hb]

theorem readMembers_value (hv : v.Canonical) :
    Json.readMembers (k + 2) (valueMember v.text) = some ([(valueName, .int v.toInt)], []) :=
  Json.readMembers_last plain_valueName (Json.readValue_canonical hv k ends_brace)
    (skipWs_after v (by decide) [])

theorem readMembers_both (hm : m.Canonical) (value : List Byte) :
    Json.readMembers (k + 3) (bothMembers m.text value) =
      (Json.readMembers (k + 2) (valueMember value)).map
        fun q => ((autoName, .int m.toInt) :: q.1, q.2) := by
  have hread := Json.readValue_canonical hm (k + 1) (ends_comma (32 :: valueMember value))
  have hskip : Json.skipWs (32 :: valueMember value) = valueMember value := by
    rw [Json.skipWs, List.dropWhile_cons_of_pos (by decide)]
    exact Json.skipWs_cons (by decide) _
  rw [← hskip]
  exact Json.readMembers_more plain_autoName hread (skipWs_after m (by decide) _)

/-- What the document is read from. -/
theorem read_settingsText (mode value : List Byte) : ∃ k, Json.read (settingsText mode value) =
    (do
      let (v, l) ← (Json.readMembers (k + 3) (bothMembers mode value)).map fun r => (Json.obj r.1, r.2)
      if Json.skipWs l = [] then some v else none) := by
  have hlen : 3 ≤ 2 * (settingsText mode value).length := by
    simp only [settingsText, List.length_append, List.length_cons]
    omega
  obtain ⟨k, hk⟩ := Nat.exists_eq_add_of_le' hlen
  refine ⟨k, ?_⟩
  rw [Json.read, hk, settingsText_eq, Json.skipWs_cons (by decide), bothMembers, Json.readValue_obj]

theorem read_canonical (hm : m.Canonical) (hv : v.Canonical) :
    Json.read (settingsText m.text v.text) =
      some (.obj [(autoName, .int m.toInt), (valueName, .int v.toInt)]) := by
  obtain ⟨k, hread⟩ := read_settingsText m.text v.text
  rw [hread, readMembers_both hm, readMembers_value hv]
  rfl

theorem read_not_canonical (h : ¬ (m.Canonical ∧ v.Canonical)) :
    Json.read (settingsText m.text v.text) = none := by
  obtain ⟨k, hread⟩ := read_settingsText m.text v.text
  have hnone : Json.readMembers (k + 3) (bothMembers m.text v.text) = none := by
    by_cases hm : m.Canonical
    · have hv : ¬ v.Canonical := fun hv => h ⟨hm, hv⟩
      have hvalue : Json.readMembers (k + 2) (valueMember v.text) = none :=
        Json.readMembers_none plain_valueName (Json.readValue_not_canonical hv k _)
      rw [readMembers_both hm, hvalue]
      rfl
    · exact Json.readMembers_none plain_autoName (Json.readValue_not_canonical hm (k + 1) _)
  rw [hread, hnone]
  rfl

/-- The message is a C string. -/
def settingsString (m v : Json.Numeral) : CString where
  chars := settingsText m.text v.text
  no_nul h := by
    simp only [settingsText, List.mem_append] at h
    rcases h with (((h | h) | h) | h) | h
    · exact absurd h (by decide)
    · exact m.zero_not_mem h
    · exact absurd h (by decide)
    · exact v.zero_not_mem h
    · exact absurd h (by decide)

/-- An integer that `GetInt` gives, written as JSON has it. -/
structure Readable (n : Json.Numeral) : Prop where
  canonical : n.Canonical
  int : -2 ^ 31 ≤ n.toInt ∧ n.toInt < 2 ^ 31

variable {rj : RapidJson} {c c' : Controls} {rest : List Byte}

/-- Only the text of the message counts, not what stands behind it. -/
theorem message_arrived_string (s : CString) : message_arrived rj c (s.bytes ++ rest) = (do
    let doc := rj.Parse s.chars
    let aut ← member autoName doc
    let set ← member valueName doc
    let setpoint ← GetInt set
    let aut ← GetInt aut
    pure (c.message aut setpoint)) := by
  rw [message_arrived, Machine.bind_of (CString.read_append s rest)]

theorem message_arrived_readable (hm : Readable m) (hv : Readable v) :
    message_arrived rj c ((settingsString m v).bytes ++ rest) =
      some ⟨decide (m.toInt = 0), v.toInt⟩ := by
  have hread := read_canonical hm.canonical hv.canonical
  have hfit : ∀ n, Readable n → ∃ x, Json.int n.toInt = .int x ∧ -2 ^ 63 ≤ x ∧ x < 2 ^ 63 := by
    intro n hn
    obtain ⟨h1, h2⟩ := hn.int
    exact ⟨_, rfl, by omega, by omega⟩
  have hparse := rj.Parse_ints _ _ hread fun x hx => by
    simp only [List.mem_cons, List.not_mem_nil, or_false] at hx
    rcases hx with rfl | rfl
    · exact hfit m hm
    · exact hfit v hv
  have hchars : rj.Parse (settingsString m v).chars =
      .obj [(autoName, .int m.toInt), (valueName, .int v.toInt)] := hparse
  have hset : GetInt (.int v.toInt) = some v.toInt := signed?_eq hv.int.1 hv.int.2
  have haut : GetInt (.int m.toInt) = some m.toInt := signed?_eq hm.int.1 hm.int.2
  rw [message_arrived_string, hchars, Machine.bind_of (rfl : member autoName _ = some (.int m.toInt)),
    Machine.bind_of (rfl : member valueName _ = some (.int v.toInt)), Machine.bind_of hset,
    Machine.bind_of haut]
  rfl

/-- Where no assertion fails, both segments are such integers. -/
theorem readable_of_message_arrived
    (h : message_arrived rj c ((settingsString m v).bytes ++ rest) = some c') :
    Readable m ∧ Readable v := by
  rw [message_arrived_string] at h
  obtain ⟨aut, haut, h⟩ := Option.bind_eq_some_iff.mp h
  obtain ⟨set, hset, h⟩ := Option.bind_eq_some_iff.mp h
  obtain ⟨x, hx, h⟩ := Option.bind_eq_some_iff.mp h
  obtain ⟨y, hy, -⟩ := Option.bind_eq_some_iff.mp h
  have hobj : rj.Parse (settingsString m v).chars ≠ .null := fun hnull => by
    rw [hnull] at haut
    cases haut
  have hcanonical : m.Canonical ∧ v.Canonical := by
    by_contra hnot
    exact hobj (rj.Parse_malformed _ (read_not_canonical hnot))
  have hparse := (rj.Parse_read _ _ (read_canonical hcanonical.1 hcanonical.2)).resolve_right hobj
  rw [show (settingsString m v).chars = settingsText m.text v.text from rfl, hparse] at haut hset
  obtain rfl := Option.some.inj haut
  obtain rfl := Option.some.inj hset
  exact ⟨⟨hcanonical.1, (of_signed? hy).2⟩, hcanonical.2, (of_signed? hx).2⟩

end Read

/-! ### When a request is obeyed -/

/-- One message goes to the broker, and it sets the controls to what the
segments denote, whatever follows it in memory. -/
def Obeyed (rj : RapidJson) (mode value : List Byte) (sent : List Message) : Prop :=
  ∃ (m v : Json.Numeral) (payload : List Byte), m.text = mode ∧ v.text = value ∧
    sent = [⟨"vent/controller/settings", payload⟩] ∧
    ∀ c rest, message_arrived rj c (payload ++ rest) = some ⟨decide (m.toInt = 0), v.toInt⟩

/-- What a request that is answered with 200 has sent. -/
theorem sent_of_ok {o : Outcome} {mode value : List Byte} (h : (set_mode o mode value).2 = 200) :
    (set_mode o mode value).1 = if o.publish = .handed then
      [⟨"vent/controller/settings", settingsText mode value ++ [0]⟩] else [] := by
  unfold set_mode publishJSONtoMQTT at *
  split at h
  · rename_i hlog
    rw [if_pos hlog]
    cases hpub : o.publish with
    | handed => rfl
    | refused => rfl
    | raised => cases o.logs 1 <;> rfl
  · cases h

/-- **When a request is obeyed** that is answered with 200: exactly if the
broker takes the message and both segments are 32-bit integers written as JSON
has them, perhaps with white space around. -/
theorem set_mode_obeyed_iff (rj : RapidJson) (o : Outcome) (mode value : List Byte)
    (h : (set_mode o mode value).2 = 200) :
    Obeyed rj mode value (set_mode o mode value).1 ↔ o.publish = .handed ∧
      ∃ m v : Json.Numeral, m.text = mode ∧ v.text = value ∧ Readable m ∧ Readable v := by
  rw [sent_of_ok h]
  constructor
  · rintro ⟨m, v, payload, rfl, rfl, hsent, hmsg⟩
    split at hsent
    · rename_i hpub
      have hpayload : settingsText m.text v.text ++ [0] = payload := by
        injection hsent with hhead _
        injection hhead
      refine ⟨hpub, m, v, rfl, rfl, ?_⟩
      have hmsg := hmsg .initial []
      rw [← hpayload] at hmsg
      exact readable_of_message_arrived hmsg
    · cases hsent
  · rintro ⟨hpub, m, v, rfl, rfl, hm, hv⟩
    rw [if_pos hpub]
    exact ⟨m, v, _, rfl, rfl, rfl, fun c rest => message_arrived_readable hm hv⟩

/-! ### Requests that are not obeyed -/

/-- A rapidjson that reads every document it should. -/
def RapidJson.documented : RapidJson where
  Parse text := (Json.read text).getD .null
  Parse_malformed text h := by rw [h]; rfl
  Parse_read text v h := by rw [h]; exact .inl rfl
  Parse_ints text ms h _ := by rw [h]; rfl

/-- A log that can be written. -/
def outcome (publish : Publish) : Outcome := ⟨fun _ => true, publish⟩

/-- The target 50, as the settings page sends it. -/
def fifty : Json.Numeral where
  before := []
  sign := []
  digits := [0x35, 0x30]
  after := []
  before_ws := by decide
  after_ws := by decide
  sign_mem := .inl rfl
  digits_ne := by decide
  digits_digit := by decide

/-- Automatic mode. -/
def one : Json.Numeral := { fifty with digits := [0x31], digits_ne := by decide, digits_digit := by decide }

theorem set_mode_obeyed_iff_fifty : Obeyed .documented one.text fifty.text
    (set_mode (outcome .handed) one.text fifty.text).1 := by
  have hone : Readable one := ⟨⟨by decide, by decide⟩, by decide⟩
  have hfifty : Readable fifty := ⟨⟨by decide, by decide⟩, by decide⟩
  exact (set_mode_obeyed_iff .documented (outcome .handed) one.text fifty.text rfl).mpr
    ⟨rfl, one, fifty, rfl, rfl, hone, hfifty⟩

/-- The same target typed with a zero in front: an assertion fails. -/
theorem leading_zero_fails : (set_mode (outcome .handed) [0x31] [0x30, 0x35, 0x30]).2 = 200 ∧
    message_arrived .documented .initial (settingsText [0x31] [0x30, 0x35, 0x30] ++ [0]) = none ∧
    ¬ Obeyed .documented [0x31] [0x30, 0x35, 0x30]
      (set_mode (outcome .handed) [0x31] [0x30, 0x35, 0x30]).1 := by
  have hnone : message_arrived .documented .initial (settingsText [0x31] [0x30, 0x35, 0x30] ++ [0]) = none := by
    rfl
  refine ⟨rfl, hnone, ?_⟩
  rintro ⟨m, v, payload, -, -, hsent, hmsg⟩
  have hpayload : settingsText [0x31] [0x30, 0x35, 0x30] ++ [0] = payload := by
    injection hsent with hhead _
    injection hhead
  have hsome := hmsg .initial []
  rw [← hpayload, List.append_nil, hnone] at hsome
  cases hsome

end Ventilation
