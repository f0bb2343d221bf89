/-
# The network set-up (main.cpp)

Before the status loop `main` lets the user choose: enter SSID, password, host
and port, use the previous settings, or go without WiFi. An iteration of that
loop accesses the shared data up to eleven times, and interrupts may come before
each access. `textInput` and `main` both take presses, the same pin for
different purposes. The drawing is left out.

`iterate_text` and `iterate_menu` put an iteration together from what the accesses give.
-/
import Ventilation.Credentials
import Ventilation.Input
import Ventilation.TextInput

namespace Ventilation

open Input (PressIrqs)

namespace Input

/-- `button.returnPin() == pin && button.returnState() == true && enabled`, with
`button.setState()` where it holds, and whether it did. -/
def takePin (s : Input) (pin : ℕ) (enabled : Bool) (irqs : PressIrqs) : Input × Bool :=
  let s := s.interrupts irqs.pin
  if s.data.ButtonPin = pin then
    let s := s.interrupts irqs.state
    if s.data.buttonPressed ∧ enabled then ((s.interrupts irqs.clear).setState, true) else (s, false)
  else (s, false)

/-- `if (button.returnState()) button.setState();` with the pin read after it. -/
def takeAny (s : Input) (irqs : PressIrqs) : Input × Option ℕ :=
  let s := s.interrupts irqs.state
  if s.data.buttonPressed then
    let s := ((s.interrupts irqs.clear).setState).interrupts irqs.pin
    (s, some s.data.ButtonPin)
  else (s, none)

end Input

/-- The variables of `main` and the static ones of `graphics.cpp`. -/
structure SetUp where
  shared : Input
  entry : TextEntry
  stage : ℕ
  ssid_stage : ℕ
  rotvalue : ℤ
  input : Vector Byte 64
  i : ℤ
  prevval : ℤ
  done : Bool
  netword_done : Bool
  use_wifi : Bool
  ssid : Vector Byte 64
  pw : Vector Byte 64
  hostname : Vector Byte 64
  port : ℤ

namespace SetUp

/-- The interrupts before the accesses of an iteration: the encoder's count
in either stage, `textInput`, and the three checks of `main`. -/
structure Irqs where
  menu : List Edge
  less : List Edge
  greater : List Edge
  copy : List Edge
  text : PressIrqs
  check7 : PressIrqs
  check12 : PressIrqs
  check9 : PressIrqs

/-- No interrupt comes. -/
def Irqs.quiet : Irqs := ⟨[], [], [], [], .quiet, .quiet, .quiet, .quiet⟩

/-- The three readings of the encoder and the position: one step of `i`,
whatever the count has done. -/
def turn (s : SetUp) (irqs : Irqs) : SetUp :=
  let shared := s.shared.interrupts irqs.less
  if s.prevval < shared.returnVal then
    let shared := shared.interrupts irqs.copy
    { s with shared, i := s.i + 1, prevval := shared.returnVal }
  else
    let shared := shared.interrupts irqs.greater
    let i := if s.prevval > shared.returnVal then s.i - 1 else s.i
    let shared := shared.interrupts irqs.copy
    { s with shared, i, prevval := shared.returnVal }

/-- `textInput`, with the characters that it shows. -/
def text (s : SetUp) (irqs : Irqs) : Option (SetUp × Option (List Byte)) := do
  let (shared, pressed) := s.shared.takeAny irqs.text
  let (entry, shown) ← s.entry.textInput pressed s.i s.ssid_stage
  pure ({ s with shared, entry }, shown)

/-- The first check took pin 7. -/
def clear (s : SetUp) : Option SetUp := do
  let (input, entry) ← s.entry.returnInput s.input
  let s := { s with input, entry }
  if (← CString.read input.toList) = [] then pure { s with stage := 0 } else pure s

/-- The `switch` over the stage. `none` may be an exception of `std::stoi`. -/
def takeField (s : SetUp) : Option SetUp :=
  match s.ssid_stage with
  | 0 => do
    let (ssid, entry) ← s.entry.returnInput s.ssid
    pure { s with ssid, entry }
  | 1 => do
    let (pw, entry) ← s.entry.returnInput s.pw
    pure { s with pw, entry }
  | 2 => do
    let (hostname, entry) ← s.entry.returnInput s.hostname
    pure { s with hostname, entry }
  | 3 => do
    let (aaa, entry) ← s.entry.returnInput (.replicate _ 0)
    let port ← stoi (← CString.read aaa.toList)
    pure { s with port, entry }
  | _ => some s

/-- The second check took pin 12. -/
def accept (s : SetUp) : Option SetUp :=
  if s.ssid_stage < 4 then s.takeField.map fun s => { s with ssid_stage := s.ssid_stage + 1 }
  else some { s with done := true }

/-- What the menu's choice does. -/
def choose (s : SetUp) : SetUp :=
  if s.rotvalue = 0 ∨ s.rotvalue = 1 then { s with stage := 1 }
  else if s.rotvalue = 2 ∨ s.rotvalue = 3 then { s with done := true }
  else if s.rotvalue = 4 ∨ s.rotvalue = 5 then { s with use_wifi := false, netword_done := true, done := true }
  else { s with rotvalue := 0 }

/-- The first two checks, in the stage of the texts. -/
def checks (s : SetUp) (irqs : Irqs) : Option SetUp :=
  let (shared, pressed7) := s.shared.takePin 7 true irqs.check7
  if pressed7 then clear { s with shared }
  else
    let (shared, pressed12) := shared.takePin 12 true irqs.check12
    if pressed12 then accept { s with shared } else some { s with shared }

/-- The last check, in both stages. -/
def select (s : SetUp) (irqs : Irqs) : SetUp :=
  let (shared, pressed9) := s.shared.takePin 9 (s.stage = 0) irqs.check9
  if pressed9 then choose { s with shared } else { s with shared }

/-- An iteration of `while (done == false)`, with what `textInput` shows if it is called. -/
def iterate (s : SetUp) (irqs : Irqs) : Option (SetUp × Option (Option (List Byte))) :=
  if s.done then none
  else if s.stage = 0 then
    let shared := s.shared.interrupts irqs.menu
    some (select { s with shared, rotvalue := shared.returnVal.tmod 6 } irqs, none)
  else if s.stage = 1 then do
    let (s, shown) ← (s.turn irqs).text irqs
    let s ← s.checks irqs
    pure (s.select irqs, some shown)
  else some (select s irqs, none)

/-- The next round of `while (!netword_done)`, after the interrupts meanwhile. -/
def retry (s : SetUp) (meanwhile : List Edge) : SetUp :=
  { s with shared := s.shared.interrupts meanwhile, stage := 0, ssid_stage := 0, rotvalue := 0, i := 10000,
           prevval := 0, done := false }

inductive Event
  | iterate (irqs : Irqs)
  | retry (meanwhile : List Edge)

/-- Without WiFi there is no next round. -/
def step (s : SetUp) : Event → Option SetUp
  | .iterate irqs => (s.iterate irqs).map Prod.fst
  | .retry meanwhile => if s.done ∧ s.use_wifi then some (s.retry meanwhile) else none

/-- The first iteration, whatever interrupts came before it. -/
structure IsStart (s : SetUp) : Prop where
  shared : ∃ es, s.shared = Input.interrupts ⟨⟨0, 0, false⟩, false⟩ es
  entry : s.entry = .new
  stage : s.stage = 0
  ssid_stage : s.ssid_stage = 0
  rotvalue : s.rotvalue = 0
  i : s.i = 10000
  prevval : s.prevval = 0
  done : s.done = false

/-! ### The functions of an iteration -/

variable {s t : SetUp} {irqs : Irqs}

/-- What `turn` leaves alone. -/
theorem turn_eq (s : SetUp) (irqs : Irqs) : ∃ shared i prevval, s.turn irqs = { s with shared, i, prevval } := by
  unfold turn
  dsimp only
  split
  · exact ⟨_, _, _, rfl⟩
  · exact ⟨_, _, _, rfl⟩

/-- The field after a call that succeeds. -/
theorem holds_of_textInput {t : TextEntry} {text : List Byte} {pressed : Option ℕ} {current_position : ℤ}
    {stage : ℕ} {r : TextEntry × Option (List Byte)} (h : t.Holds text)
    (hcall : t.textInput pressed current_position stage = some r) :
    r.1.Holds (pressed.elim text (TextEntry.typed text (t.highlighted current_position stage))) ∧
      r.1.current_Array = TextEntry.nextArray (t.array stage) pressed := by
  have hty := (TextEntry.textInput_isSome_iff h).mp (by rw [hcall]; rfl)
  obtain ⟨t', ht', hholds, harray⟩ := TextEntry.textInput_eq h hty
  cases hcall.symm.trans ht'
  exact ⟨hholds, harray⟩

/-- `text` is `textInput` with the press that it takes. -/
theorem text_eq (s : SetUp) (irqs : Irqs) : s.text irqs =
    (s.entry.textInput (s.shared.takeAny irqs.text).2 s.i s.ssid_stage).map
      fun r => ({ s with shared := (s.shared.takeAny irqs.text).1, entry := r.1 }, r.2) :=
  (Option.map_eq_bind ..).symm

/-- The first check empties the field, and leaves the stage if it was empty. -/
theorem clear_eq {text : List Byte} (h : s.entry.Holds text) : ∃ input entry, entry.Holds [] ∧
    entry.current_Array = s.entry.current_Array ∧
    s.clear = some { s with input, entry, stage := if text = [] then 0 else s.stage } := by
  obtain ⟨input, entry, hcall, hread, hholds, harray⟩ := TextEntry.returnInput_eq h s.input
  refine ⟨input, entry, hholds, harray, ?_⟩
  rw [clear, Machine.bind_of hcall]
  simp only [hread, bind, Option.bind_some]
  split
  · rfl
  · rfl

/-- A field that was handed over is empty. -/
theorem empty_of_returnInput {e e' : TextEntry} {text : List Byte} {str str' : Vector Byte 64} (h : e.Holds text)
    (hcall : e.returnInput str = some (str', e')) : e'.Holds [] ∧ e'.current_Array = e.current_Array ∧
      CString.read str'.toList = some text := by
  obtain ⟨str'', e'', hcall', hread, hholds, harray⟩ := TextEntry.returnInput_eq h str
  cases hcall.symm.trans hcall'
  exact ⟨hholds, harray, hread⟩

/-- None of the stages with a field. -/
theorem not_lt_four {n : ℕ} (h0 : n = 0 → False) (h1 : n = 1 → False) (h2 : n = 2 → False)
    (h3 : n = 3 → False) :
    ¬ n < 4 := by
  intro h
  rcases (by omega : n = 0 ∨ n = 1 ∨ n = 2 ∨ n = 3) with h | h | h | h
  · exact h0 h
  · exact h1 h
  · exact h2 h
  · exact h3 h

/-- The `switch` hands the field over to the stage's string, or to `std::stoi`. -/
theorem takeField_cases {text : List Byte} (h : s.entry.Holds text) (hstage : s.ssid_stage < 4)
    (ht : s.takeField = some t) : ∃ entry ssid pw hostname port, entry.Holds [] ∧
      entry.current_Array = s.entry.current_Array ∧ t = { s with entry, ssid, pw, hostname, port } := by
  unfold takeField at ht
  split at ht
  · obtain ⟨⟨ssid, entry⟩, hcall, ht⟩ := Option.bind_eq_some_iff.mp ht
    obtain ⟨hholds, harray, -⟩ := empty_of_returnInput h hcall
    exact ⟨entry, ssid, _, _, _, hholds, harray, (Option.some.inj ht).symm⟩
  · obtain ⟨⟨pw, entry⟩, hcall, ht⟩ := Option.bind_eq_some_iff.mp ht
    obtain ⟨hholds, harray, -⟩ := empty_of_returnInput h hcall
    exact ⟨entry, _, pw, _, _, hholds, harray, (Option.some.inj ht).symm⟩
  · obtain ⟨⟨hostname, entry⟩, hcall, ht⟩ := Option.bind_eq_some_iff.mp ht
    obtain ⟨hholds, harray, -⟩ := empty_of_returnInput h hcall
    exact ⟨entry, _, _, hostname, _, hholds, harray, (Option.some.inj ht).symm⟩
  · obtain ⟨⟨aaa, entry⟩, hcall, ht⟩ := Option.bind_eq_some_iff.mp ht
    obtain ⟨hholds, harray, -⟩ := empty_of_returnInput h hcall
    obtain ⟨text', -, ht⟩ := Option.bind_eq_some_iff.mp ht
    obtain ⟨port, -, ht⟩ := Option.bind_eq_some_iff.mp ht
    exact ⟨entry, _, _, _, port, hholds, harray, (Option.some.inj ht).symm⟩
  · rename_i h0 h1 h2 h3
    exact absurd hstage (not_lt_four h0 h1 h2 h3)

/-- The second check takes the field, or it is the last. -/
theorem accept_cases {text : List Byte} (h : s.entry.Holds text) (ht : s.accept = some t) :
    (s.ssid_stage < 4 ∧ ∃ entry ssid pw hostname port, entry.Holds [] ∧ entry.current_Array = s.entry.current_Array ∧
      t = { s with entry, ssid, pw, hostname, port, ssid_stage := s.ssid_stage + 1 }) ∨
    (4 ≤ s.ssid_stage ∧ t = { s with done := true }) := by
  unfold accept at ht
  split at ht
  · rename_i hstage
    obtain ⟨u, hu, rfl⟩ := Option.map_eq_some_iff.mp ht
    obtain ⟨entry, ssid, pw, hostname, port, hholds, harray, rfl⟩ := takeField_cases h hstage hu
    exact .inl ⟨hstage, entry, ssid, pw, hostname, port, hholds, harray, rfl⟩
  · rename_i hstage
    exact .inr ⟨by omega, (Option.some.inj ht).symm⟩

/-- What `select` leaves alone. -/
theorem select_eq (s : SetUp) (irqs : Irqs) : ∃ shared stage done netword_done use_wifi rotvalue, s.select irqs =
    { s with shared, stage, done, netword_done, use_wifi, rotvalue } ∧ (stage = s.stage ∨ stage = 1) := by
  unfold select choose
  dsimp only
  split_ifs
  · exact ⟨_, _, _, _, _, _, rfl, .inr rfl⟩
  · exact ⟨_, _, _, _, _, _, rfl, .inl rfl⟩
  · exact ⟨_, _, _, _, _, _, rfl, .inl rfl⟩
  · exact ⟨_, _, _, _, _, _, rfl, .inl rfl⟩
  · exact ⟨_, _, _, _, _, _, rfl, .inl rfl⟩

/-! ### Reachable states -/

/-- What every run keeps. At the port's stage the field has digits only. -/
structure Sound (s : SetUp) : Prop where
  field : ∃ text, s.entry.Holds text ∧ (s.ssid_stage = 3 → ∀ c ∈ text, Decimal.isDigit c = true)
  stage : s.stage = 0 ∨ s.stage = 1
  ssid_stage : s.ssid_stage ≤ 4

theorem isDigit_of_element {i : ℤ} {c : Byte} (h : TextEntry.element 3 i = some c) : Decimal.isDigit c = true := by
  have hall : ∀ c ∈ arrays.get 3, Decimal.isDigit c = true := by decide
  obtain ⟨n, -, hn⟩ := Option.bind_eq_some_iff.mp h
  exact hall c (List.mem_of_getElem? hn)

/-- A press leaves digits where it finds them. -/
theorem digits_typed {text : List Byte} {c : Option Byte} {pin : ℕ} (h : ∀ b ∈ text, Decimal.isDigit b = true)
    (hc : ∀ b, c = some b → Decimal.isDigit b = true) :
    ∀ b ∈ TextEntry.typed text c pin, Decimal.isDigit b = true := by
  intro b hb
  unfold TextEntry.typed at hb
  split_ifs at hb
  · rcases List.mem_append.mp hb with hb | hb
    · exact h b hb
    · exact hc b (Option.mem_toList.mp hb)
  · exact h b (List.dropLast_subset _ hb)
  · exact h b hb

theorem IsStart.sound (h : s.IsStart) : s.Sound := by
  refine ⟨⟨[], ?_, fun _ _ hc => absurd hc List.not_mem_nil⟩, .inl h.stage, ?_⟩
  · rw [h.entry]
    exact TextEntry.holds_new
  · rw [h.ssid_stage]
    exact Nat.zero_le 4

/-- The data shared with the interrupts and the menu's choice do not matter. -/
theorem Sound.withInput (h : s.Sound) (shared : Input) (rotvalue : ℤ) : Sound { s with shared, rotvalue } :=
  ⟨h.field, h.stage, h.ssid_stage⟩

theorem Sound.turn (h : s.Sound) (irqs : Irqs) : (s.turn irqs).Sound := by
  obtain ⟨shared, i, prevval, heq⟩ := turn_eq s irqs
  rw [heq]
  exact ⟨h.field, h.stage, h.ssid_stage⟩

theorem Sound.text {shown : Option (List Byte)} (h : s.Sound) (ht : s.text irqs = some (t, shown)) : t.Sound := by
  obtain ⟨text, hholds, hdigits⟩ := h.field
  rw [text_eq] at ht
  obtain ⟨⟨entry, shown'⟩, hcall, heq⟩ := Option.map_eq_some_iff.mp ht
  obtain ⟨rfl, -⟩ := Prod.mk.inj heq
  refine ⟨⟨_, (holds_of_textInput hholds hcall).1, fun hport => ?_⟩, h.stage, h.ssid_stage⟩
  cases (s.shared.takeAny irqs.text).2 with
  | none => exact hdigits hport
  | some pin =>
    refine digits_typed (hdigits hport) fun b hb => ?_
    have harray : s.entry.array s.ssid_stage = 3 := by
      rw [TextEntry.array, TextEntry.enterStage, if_pos hport]
    rw [TextEntry.highlighted, harray] at hb
    exact isDigit_of_element hb

/-- Nothing but digits is in an empty field. -/
theorem sound_of_empty {entry : TextEntry} (h : entry.Holds []) (n : ℕ) :
    ∃ text, entry.Holds text ∧ (n = 3 → ∀ c ∈ text, Decimal.isDigit c = true) :=
  ⟨[], h, fun _ _ hc => absurd hc List.not_mem_nil⟩

theorem Sound.clear (h : s.Sound) (ht : s.clear = some t) : t.Sound := by
  obtain ⟨text, hholds, -⟩ := h.field
  obtain ⟨input, entry, hempty, -, hclear⟩ := clear_eq hholds
  cases hclear.symm.trans ht
  refine ⟨sound_of_empty hempty _, ?_, h.ssid_stage⟩
  dsimp only
  split
  · exact .inl rfl
  · exact h.stage

theorem Sound.accept (h : s.Sound) (ht : s.accept = some t) : t.Sound := by
  obtain ⟨text, hholds, -⟩ := h.field
  rcases accept_cases hholds ht with ⟨hstage, entry, ssid, pw, hostname, port, hempty, -, rfl⟩ | ⟨-, rfl⟩
  · exact ⟨sound_of_empty hempty _, h.stage, hstage⟩
  · exact ⟨h.field, h.stage, h.ssid_stage⟩

theorem Sound.checks (h : s.Sound) (ht : s.checks irqs = some t) : t.Sound := by
  unfold SetUp.checks at ht
  have hshared : ∀ shared, Sound { s with shared } := fun shared => h.withInput shared s.rotvalue
  dsimp only at ht
  split at ht
  · exact (hshared _).clear ht
  · split at ht
    · exact (hshared _).accept ht
    · exact Option.some.inj ht ▸ hshared _

theorem Sound.select (h : s.Sound) (irqs : Irqs) : (s.select irqs).Sound := by
  obtain ⟨shared, stage, done, netword_done, use_wifi, rotvalue, heq, hstage⟩ := select_eq s irqs
  rw [heq]
  refine ⟨h.field, ?_, h.ssid_stage⟩
  rcases hstage with rfl | rfl
  · exact h.stage
  · exact .inr rfl

/-- An iteration in the stage of the menu. -/
theorem iterate_menu (hdone : s.done = false) (hstage : s.stage = 0) (irqs : Irqs) : s.iterate irqs =
    some (select { s with shared := s.shared.interrupts irqs.menu,
                          rotvalue := (s.shared.interrupts irqs.menu).returnVal.tmod 6 } irqs, none) := by
  rw [iterate, if_neg (by rw [hdone]; exact Bool.false_ne_true), if_pos hstage]

/-- An iteration in the stage of the texts. -/
theorem iterate_text (hdone : s.done = false) (hstage : s.stage = 1) (irqs : Irqs) : s.iterate irqs =
    ((s.turn irqs).text irqs).bind fun (s, shown) => (s.checks irqs).map fun s => (s.select irqs, some shown) := by
  rw [iterate, if_neg (by rw [hdone]; exact Bool.false_ne_true), if_neg (by omega : s.stage ≠ 0), if_pos hstage]
  refine congrArg (Option.bind _) (funext fun (s, shown) => ?_)
  dsimp only
  cases s.checks irqs with
  | none => rfl
  | some t => rfl

theorem Sound.iterate {shown : Option (Option (List Byte))} (h : s.Sound) (ht : s.iterate irqs = some (t, shown)) :
    t.Sound := by
  cases hdone : s.done with
  | true => simp [SetUp.iterate, hdone] at ht
  | false =>
    rcases h.stage with h0 | h1
    · rw [iterate_menu hdone h0] at ht
      cases ht
      exact (h.withInput _ _).select irqs
    · rw [iterate_text hdone h1] at ht
      obtain ⟨⟨u, shown'⟩, htext, ht⟩ := Option.bind_eq_some_iff.mp ht
      obtain ⟨v, hchecks, ht⟩ := Option.map_eq_some_iff.mp ht
      cases ht
      exact (((h.turn irqs).text htext).checks hchecks).select irqs

theorem Sound.retry (h : s.Sound) (meanwhile : List Edge) : (s.retry meanwhile).Sound := by
  obtain ⟨text, hholds, -⟩ := h.field
  exact ⟨⟨text, hholds, fun h => by cases h⟩, .inl rfl, Nat.zero_le 4⟩

/-- Every reachable state is sound. -/
theorem sound_of_reach (hr : Machine.Reach step IsStart Machine.Always s) : s.Sound := by
  refine hr.invariant (fun _ h => h.sound) fun s e t h _ hstep => ?_
  cases e with
  | iterate irqs =>
    obtain ⟨⟨t', shown⟩, hiterate, rfl⟩ := Option.map_eq_some_iff.mp hstep
    exact h.iterate hiterate
  | retry meanwhile =>
    simp only [step, Option.ite_none_right_eq_some, Option.some.injEq] at hstep
    obtain ⟨-, rfl⟩ := hstep
    exact h.retry meanwhile

/-! ### A start -/

/-- A string in its array. -/
def filled (text : String) : Vector Byte 64 := Vector.ofFn fun k => (CString.literal text).getD k 0

/-- The set-up right after the start. -/
def fresh : SetUp :=
  ⟨⟨⟨0, 0, false⟩, false⟩, .new, 0, 0, 0, .replicate _ 0, 10000, 0, false, false, true, filled "SmartIotMQTT",
    filled "SmartIot", filled "192.168.1.10", 1883⟩

theorem fresh_isStart : fresh.IsStart :=
  ⟨⟨[], rfl⟩, rfl, rfl, rfl, rfl, rfl, rfl, rfl⟩

/-- A press that `textInput` takes. -/
def Irqs.typing (pin : ℕ) : Irqs :=
  { Irqs.quiet with text := { PressIrqs.quiet with state := [⟨pin, false, false⟩] } }

def typing (pin : ℕ) : Event := .iterate (.typing pin)

/-- The press that takes the menu's choice. -/
def choosing : Event := .iterate { Irqs.quiet with check9 := { PressIrqs.quiet with pin := [⟨9, false, false⟩] } }

end SetUp
end Ventilation
