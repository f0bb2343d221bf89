/-
# One press in the set-up (main.cpp, src/display/graphics.cpp, src/input.cpp)

A press that arrives in the stage of the texts is taken by whichever of
`textInput` and the checks of `main` looks next (`taker`), and they do not do the same
with it: `textInput` swallows pin 12, the first check empties the whole field at pin 7,
and a check that has read an old pin takes any press for that one. `acted_on_iff` says
when a press does what it is for.
-/
import Ventilation.SetUp

namespace Ventilation

/-! ### A press -/

/-- The edge of a button, or of the encoder's switch. -/
structure ButtonEdge extends Edge where
  isButton : gpio = 7 ∨ gpio = 8 ∨ gpio = 9 ∨ gpio = 12

namespace Input

/-- What the handler writes. -/
def press (s : Input) (pin : ℕ) : Input := { s with data := { s.data with ButtonPin := pin, buttonPressed := true } }

variable (s : Input) (pin : ℕ) (enabled : Bool)

theorem interrupts_button (e : ButtonEdge) : s.interrupts [e.toEdge] = s.press e.gpio := by
  have hencoder : ¬ (e.gpio = 10 ∨ e.gpio = 11) := by
    have := e.isButton
    omega
  have hbutton : e.gpio = 9 ∨ e.gpio = 8 ∨ e.gpio = 7 ∨ e.gpio = 12 := by
    have := e.isButton
    omega
  rw [interrupts, List.foldl_cons, List.foldl_nil, handler, if_neg hencoder, if_pos hbutton]
  rfl

@[simp] theorem press_ButtonPin : (s.press pin).data.ButtonPin = pin := rfl

@[simp] theorem press_buttonPressed : (s.press pin).data.buttonPressed = true := rfl

@[simp] theorem returnVal_press : (s.press pin).returnVal = s.returnVal := rfl

@[simp] theorem setState_ButtonPin : s.setState.data.ButtonPin = s.data.ButtonPin := rfl

@[simp] theorem setState_buttonPressed : s.setState.data.buttonPressed = false := rfl

theorem takeAny_quiet : s.takeAny .quiet =
    if s.data.buttonPressed then (s.setState, some s.data.ButtonPin) else (s, none) := rfl

theorem takePin_quiet : s.takePin pin enabled .quiet =
    if s.data.ButtonPin = pin ∧ s.data.buttonPressed ∧ enabled then (s.setState, true) else (s, false) := by
  have h : s.takePin pin enabled .quiet = if s.data.ButtonPin = pin then
      if s.data.buttonPressed ∧ enabled then (s.setState, true) else (s, false) else (s, false) := rfl
  rw [h]
  by_cases hpin : s.data.ButtonPin = pin
  · simp [hpin]
  · simp [hpin]

/-- Nothing is taken where nothing was pressed. -/
theorem takePin_idle (h : s.data.buttonPressed = false) : s.takePin pin enabled .quiet = (s, false) := by
  rw [takePin_quiet, h, if_neg]
  simp

/-- A press that arrives before the pin is read. -/
theorem takePin_pinIrq (e : ButtonEdge) : s.takePin pin enabled { PressIrqs.quiet with pin := [e.toEdge] } =
    if e.gpio = pin ∧ enabled then ((s.press e.gpio).setState, true) else (s.press e.gpio, false) := by
  have h : s.takePin pin enabled { PressIrqs.quiet with pin := [e.toEdge] } =
      (s.interrupts [e.toEdge]).takePin pin enabled .quiet := rfl
  rw [h, interrupts_button, takePin_quiet]
  simp

/-- A press that arrives after it: the pin read was that of an older one. -/
theorem takePin_stateIrq (e : ButtonEdge) (h : s.data.ButtonPin = pin) :
    s.takePin pin enabled { PressIrqs.quiet with state := [e.toEdge] } =
      if enabled then ((s.press e.gpio).setState, true) else (s.press e.gpio, false) := by
  rw [takePin]
  simp [PressIrqs.quiet, h, interrupts_button]

end Input

namespace SetUp

/-- The accesses of an iteration in the stage of the texts. -/
inductive Point
  | less | greater | copy | textState | pin7 | state7 | pin12 | state12 | pin9 | state9
  deriving DecidableEq

/-- The one interrupt, before that access. -/
def Point.irqs (point : Point) (e : Edge) : Irqs :=
  match point with
  | .less => { Irqs.quiet with less := [e] }
  | .greater => { Irqs.quiet with greater := [e] }
  | .copy => { Irqs.quiet with copy := [e] }
  | .textState => { Irqs.quiet with text := { Input.PressIrqs.quiet with state := [e] } }
  | .pin7 => { Irqs.quiet with check7 := { Input.PressIrqs.quiet with pin := [e] } }
  | .state7 => { Irqs.quiet with check7 := { Input.PressIrqs.quiet with state := [e] } }
  | .pin12 => { Irqs.quiet with check12 := { Input.PressIrqs.quiet with pin := [e] } }
  | .state12 => { Irqs.quiet with check12 := { Input.PressIrqs.quiet with state := [e] } }
  | .pin9 => { Irqs.quiet with check9 := { Input.PressIrqs.quiet with pin := [e] } }
  | .state9 => { Irqs.quiet with check9 := { Input.PressIrqs.quiet with state := [e] } }

/-- The iteration makes that access, while no press waits. -/
def Made (s : SetUp) : Point → Prop
  | .greater => ¬ s.prevval < s.shared.returnVal
  | .state7 => s.shared.data.ButtonPin = 7
  | .state12 => s.shared.data.ButtonPin = 12
  | .state9 => s.shared.data.ButtonPin = 9
  | _ => True

/-- Who takes the press; `later` is `textInput` in the next iteration. -/
inductive Taker
  | text | first | second | later
  deriving DecidableEq

def taker (pin : ℕ) : Point → Taker
  | .less | .greater | .copy | .textState => .text
  | .pin7 => if pin = 7 then .first else if pin = 12 then .second else .later
  | .state7 => .first
  | .pin12 => if pin = 12 then .second else .later
  | .state12 => .second
  | .pin9 | .state9 => .later

/-! ### What is seen of the set-up -/

/-- The field's text, the array that the next call uses, the stages, the four
results, and whether a press waits. -/
structure View where
  text : Option (List Byte)
  array : Fin 4
  ssid_stage : ℕ
  stage : ℕ
  done : Bool
  ssid : Option (List Byte)
  pw : Option (List Byte)
  hostname : Option (List Byte)
  port : ℤ
  waiting : Bool

def view (s : SetUp) : View where
  text := CString.read s.entry.input_string.toList
  array := s.entry.array s.ssid_stage
  ssid_stage := s.ssid_stage
  stage := s.stage
  done := s.done
  ssid := CString.read s.ssid.toList
  pw := CString.read s.pw.toList
  hostname := CString.read s.hostname.toList
  port := s.port
  waiting := s.shared.data.buttonPressed

namespace View

/-- The array of a stage, where the port's has its own. -/
def arrayAt (ssid_stage : ℕ) (array : Fin 4) : Fin 4 := if ssid_stage = 3 then Fin.last 3 else array

/-- The field is accepted for the stage, and the next stage begins. -/
def accepted (v : View) : Option View :=
  let next := { v with text := some [], array := arrayAt (v.ssid_stage + 1) v.array, ssid_stage := v.ssid_stage + 1 }
  match v.ssid_stage with
  | 0 => some { next with ssid := v.text }
  | 1 => some { next with pw := v.text }
  | 2 => some { next with hostname := v.text }
  | 3 => (v.text.bind stoi).map fun port => { next with port }
  | _ => none

/-- What a press is for: 12 accepts the field, 9 goes on to the next array, 8
appends the highlighted character, 7 drops the last one. -/
def after (v : View) (highlighted : Option Byte) (pin : ℕ) : Option View :=
  if pin = 12 then v.accepted
  else if pin = 9 then some { v with array := arrayAt v.ssid_stage (TextEntry.nextArray v.array (some 9)) }
  else some { v with text := v.text.map fun text => TextEntry.typed text highlighted pin }

end View

/-- The position in the iteration: one step after the encoder. -/
def nextI (s : SetUp) : ℤ :=
  if s.prevval < s.shared.returnVal then s.i + 1
  else if s.prevval > s.shared.returnVal then s.i - 1
  else s.i

/-- The iteration in which the press arrives, and the next. -/
def two (s : SetUp) (point : Point) (e : Edge) : Option SetUp :=
  (s.iterate (point.irqs e)).bind fun r => (r.1.iterate .quiet).map Prod.fst

/-- After the two iterations the press has had the effect that it is for, once. -/
def ActedOn (s : SetUp) (point : Point) (e : Edge) : Prop :=
  ∃ v, (s.two point e).map view = some v ∧ s.view.after (s.entry.highlighted s.nextI s.ssid_stage) e.gpio = some v

/-! ### The iteration in which it arrives -/

variable {s : SetUp} {point : Point} {e : ButtonEdge}

/-- The encoder's part of an iteration without the encoder's interrupts. -/
def turned (s : SetUp) : SetUp := { s with i := s.nextI, prevval := s.shared.returnVal }

/-- The access is one to the encoder. -/
def Point.isEarly : Point → Bool
  | .less | .greater | .copy => true
  | _ => false

theorem turn_arrival (hmade : s.Made point) : s.turn (point.irqs e.toEdge) =
    { s.turned with shared := if point.isEarly then s.shared.press e.gpio else s.shared } := by
  by_cases hless : s.prevval < s.shared.returnVal
  · cases point with
    | greater => exact absurd hless hmade
    | _ => simp [turn, turned, nextI, Point.irqs, Irqs.quiet, Point.isEarly, Input.interrupts_button, hless]
  · cases point <;>
      simp [turn, turned, nextI, Point.irqs, Irqs.quiet, Point.isEarly, Input.interrupts_button, hless]

theorem turn_quiet (s : SetUp) : s.turn .quiet = { s.turned with shared := s.shared } := by
  by_cases hless : s.prevval < s.shared.returnVal
  · simp [turn, turned, nextI, Irqs.quiet, hless]
  · simp [turn, turned, nextI, Irqs.quiet, hless]

/-- What `textInput` sees of the press, and what it leaves for the checks. -/
theorem takeAny_arrival (point : Point) (e : ButtonEdge) (shared : Input) (hidle : shared.data.buttonPressed = false) :
    (if point.isEarly then shared.press e.gpio else shared).takeAny (point.irqs e.toEdge).text =
      if taker e.gpio point = .text then ((shared.press e.gpio).setState, some e.gpio) else (shared, none) := by
  have hquiet : ∀ irqs : Irqs, irqs.text = .quiet → shared.takeAny irqs.text = (shared, none) := fun irqs h => by
    rw [h, Input.takeAny_quiet, hidle]
    rfl
  cases point with
  | less | greater | copy => rfl
  | textState =>
    show shared.takeAny { Input.PressIrqs.quiet with state := [e.toEdge] } = _
    rw [Input.takeAny, Input.interrupts_button]
    rfl
  | pin7 | pin12 =>
    refine (hquiet _ rfl).trans (if_neg ?_).symm
    unfold taker
    split_ifs <;> simp
  | state7 | state12 | pin9 | state9 => exact hquiet _ rfl

theorem checks_first {u : SetUp} {irqs : Irqs} {shared : Input}
    (h7 : u.shared.takePin 7 true irqs.check7 = (shared, true)) : u.checks irqs = clear { u with shared } := by
  rw [checks, h7]
  exact if_pos rfl

theorem checks_second {u : SetUp} {irqs : Irqs} {shared shared' : Input}
    (h7 : u.shared.takePin 7 true irqs.check7 = (shared, false))
    (h12 : shared.takePin 12 true irqs.check12 = (shared', true)) :
    u.checks irqs = accept { u with shared := shared' } := by
  rw [checks, h7]
  dsimp only
  rw [if_neg Bool.false_ne_true, h12]
  exact if_pos rfl

theorem checks_neither {u : SetUp} {irqs : Irqs} {shared shared' : Input}
    (h7 : u.shared.takePin 7 true irqs.check7 = (shared, false))
    (h12 : shared.takePin 12 true irqs.check12 = (shared', false)) :
    u.checks irqs = some { u with shared := shared' } := by
  rw [checks, h7]
  dsimp only
  rw [if_neg Bool.false_ne_true, h12]
  exact if_neg Bool.false_ne_true

/-- The checks of `main` find nothing to take. -/
theorem checks_idle {u : SetUp} {irqs : Irqs} (h : u.shared.data.buttonPressed = false) (h7 : irqs.check7 = .quiet)
    (h12 : irqs.check12 = .quiet) : u.checks irqs = some u :=
  checks_neither (by rw [h7, Input.takePin_idle _ _ _ h]) (by rw [h12, Input.takePin_idle _ _ _ h])

theorem select_not_taken {u : SetUp} {irqs : Irqs} {shared : Input}
    (h9 : u.shared.takePin 9 (u.stage = 0) irqs.check9 = (shared, false)) : u.select irqs = { u with shared } := by
  rw [select, h9]
  exact if_neg Bool.false_ne_true

theorem select_idle {u : SetUp} {irqs : Irqs} (h : u.shared.data.buttonPressed = false) (h9 : irqs.check9 = .quiet) :
    u.select irqs = u :=
  select_not_taken (by rw [h9, Input.takePin_idle _ _ _ h])

/-- The third check takes no press in this stage. -/
theorem select_disabled {u : SetUp} (h : u.stage = 1) (shared : Input) (irqs : Irqs) (h9 : irqs.check9 = .quiet) :
    select { u with shared } irqs = { u with shared } :=
  select_not_taken (by rw [h9, Input.takePin_quiet, if_neg (by simp [h])])

/-- What the first two checks leave is not taken by the third. -/
theorem select_clear {u : SetUp} {shared : Input} {text : List Byte} (hholds : u.entry.Holds text)
    (h : shared.data.buttonPressed = false) (irqs : Irqs) (h9 : irqs.check9 = .quiet) :
    (clear { u with shared }).map (·.select irqs) = clear { u with shared } := by
  have hholds' : ({ u with shared } : SetUp).entry.Holds text := hholds
  obtain ⟨input, entry, -, -, hclear⟩ := clear_eq hholds'
  rw [hclear, Option.map_some, select_idle (by exact h) h9]

theorem select_accept {u : SetUp} {shared : Input} {text : List Byte} (hholds : u.entry.Holds text)
    (h : shared.data.buttonPressed = false) (irqs : Irqs) (h9 : irqs.check9 = .quiet) :
    (accept { u with shared }).map (·.select irqs) = accept { u with shared } := by
  have hholds' : ({ u with shared } : SetUp).entry.Holds text := hholds
  cases haccept : accept { u with shared } with
  | none => rfl
  | some t =>
    have hshared : t.shared = shared := by
      rcases accept_cases hholds' haccept with ⟨-, entry, ssid, pw, hostname, port, -, -, rfl⟩ | ⟨-, rfl⟩
      · rfl
      · rfl
    rw [Option.map_some, select_idle (by rw [hshared]; exact h) h9]

/-- The three checks of the iteration. -/
theorem checks_arrival {u : SetUp} {text : List Byte} (hholds : u.entry.Holds text) (hstage : u.stage = 1)
    (hidle : u.shared.data.buttonPressed = false)
    (h7 : point = .state7 → u.shared.data.ButtonPin = 7) (h12 : point = .state12 → u.shared.data.ButtonPin = 12)
    (h9 : point = .state9 → u.shared.data.ButtonPin = 9) :
    (u.checks (point.irqs e.toEdge)).map (·.select (point.irqs e.toEdge)) =
      match taker e.gpio point with
      | .text => some u
      | .first => clear { u with shared := (u.shared.press e.gpio).setState }
      | .second => accept { u with shared := (u.shared.press e.gpio).setState }
      | .later => some { u with shared := u.shared.press e.gpio } := by
  cases point with
  | less | greater | copy | textState =>
    rw [checks_idle hidle rfl rfl, Option.map_some, select_idle hidle rfl]
    rfl
  | pin7 =>
    have hpin7 := Input.takePin_pinIrq u.shared 7 true e
    by_cases h : e.gpio = 7
    · rw [if_pos ⟨h, rfl⟩] at hpin7
      rw [checks_first hpin7, select_clear hholds rfl _ rfl, taker, if_pos h]
    · rw [if_neg fun h' => h h'.1] at hpin7
      have hpin12 := Input.takePin_quiet (u.shared.press e.gpio) 12 true
      by_cases h' : e.gpio = 12
      · rw [if_pos ⟨h', rfl, rfl⟩] at hpin12
        rw [checks_second hpin7 hpin12, select_accept hholds rfl _ rfl, taker, if_neg h, if_pos h']
      · rw [if_neg fun hp => h' hp.1] at hpin12
        rw [checks_neither hpin7 hpin12, Option.map_some, select_disabled hstage _ _ rfl, taker, if_neg h, if_neg h']
  | state7 =>
    have hstate := Input.takePin_stateIrq u.shared 7 true e (h7 rfl)
    rw [if_pos rfl] at hstate
    rw [checks_first hstate, select_clear hholds rfl _ rfl]
    rfl
  | pin12 =>
    have hpin12 := Input.takePin_pinIrq u.shared 12 true e
    by_cases h : e.gpio = 12
    · rw [if_pos ⟨h, rfl⟩] at hpin12
      rw [checks_second (Input.takePin_idle _ _ _ hidle) hpin12, select_accept hholds rfl _ rfl, taker, if_pos h]
    · rw [if_neg fun h' => h h'.1] at hpin12
      rw [checks_neither (Input.takePin_idle _ _ _ hidle) hpin12, Option.map_some, select_disabled hstage _ _ rfl, taker,
        if_neg h]
  | state12 =>
    have hstate := Input.takePin_stateIrq u.shared 12 true e (h12 rfl)
    rw [if_pos rfl] at hstate
    rw [checks_second (Input.takePin_idle _ _ _ hidle) hstate, select_accept hholds rfl _ rfl]
    rfl
  | pin9 =>
    have hpin9 := Input.takePin_pinIrq u.shared 9 (u.stage = 0) e
    rw [if_neg (by simp [hstage])] at hpin9
    have hselect : u.select (Point.pin9.irqs e.toEdge) = _ := select_not_taken hpin9
    rw [checks_idle hidle rfl rfl, Option.map_some, hselect]
    rfl
  | state9 =>
    have hstate := Input.takePin_stateIrq u.shared 9 (u.stage = 0) e (h9 rfl)
    rw [if_neg (by simp [hstage])] at hstate
    have hselect : u.select (Point.state9.irqs e.toEdge) = _ := select_not_taken hstate
    rw [checks_idle hidle rfl rfl, Option.map_some, hselect]
    rfl

/-! ### The two iterations -/

/-- In the stage of the texts, and no press waits. -/
structure Entering (s : SetUp) : Prop where
  stage : s.stage = 1
  done : s.done = false
  idle : s.shared.data.buttonPressed = false

/-- An iteration by its parts, and the state it leaves. -/
theorem iterate_parts {irqs : Irqs} {shared shared' : Input} {pressed : Option ℕ} (hdone : s.done = false)
    (hstage : s.stage = 1) (hturn : s.turn irqs = { s.turned with shared })
    (htake : shared.takeAny irqs.text = (shared', pressed)) :
    (s.iterate irqs).map Prod.fst = (s.entry.textInput pressed s.nextI s.ssid_stage).bind fun r =>
      (checks { s.turned with shared := shared', entry := r.1 } irqs).map (·.select irqs) := by
  have htext : (s.turn irqs).text irqs = (s.entry.textInput pressed s.nextI s.ssid_stage).map
      fun r => ({ s.turned with shared := shared', entry := r.1 }, r.2) := by
    rw [hturn, text_eq, show ({ s.turned with shared } : SetUp).shared.takeAny irqs.text = _ from htake]
    rfl
  rw [iterate_text hdone hstage, htext]
  cases s.entry.textInput pressed s.nextI s.ssid_stage with
  | none => rfl
  | some r =>
    simp only [Option.map_some, Option.bind_some, Option.map_map]
    rfl

/-- The state in which a call of `textInput` without a press leaves the set-up. -/
def entered (s : SetUp) : SetUp := { s.turned with entry := s.entry.enterStage s.ssid_stage }

theorem textInput_none {t : TextEntry} {text : List Byte} (h : t.Holds text) (current_position : ℤ) (stage : ℕ) :
    t.textInput none current_position stage = some (t.enterStage stage, t.shown none current_position stage) := by
  rw [TextEntry.textInput, Machine.bind_of (TextEntry.enterStage_holds h stage).read]
  rfl

/-- The press comes before `textInput` looks. -/
theorem iterate_takes (hs : s.Entering) (hmade : s.Made point) (htaker : taker e.gpio point = .text) :
    (s.iterate (point.irqs e.toEdge)).map Prod.fst = (s.entry.textInput (some e.gpio) s.nextI s.ssid_stage).map
      fun r => { s.turned with shared := (s.shared.press e.gpio).setState, entry := r.1 } := by
  have htake := takeAny_arrival point e s.shared hs.idle
  rw [if_pos htaker] at htake
  have hquiet : (point.irqs e.toEdge).check7 = .quiet ∧ (point.irqs e.toEdge).check12 = .quiet ∧
      (point.irqs e.toEdge).check9 = .quiet := by
    cases point with
    | less | greater | copy | textState => exact ⟨rfl, rfl, rfl⟩
    | pin7 | pin12 =>
      unfold taker at htaker
      split_ifs at htaker
    | state7 | state12 | pin9 | state9 => cases htaker
  rw [iterate_parts hs.done hs.stage (turn_arrival hmade) htake]
  cases s.entry.textInput (some e.gpio) s.nextI s.ssid_stage with
  | none => rfl
  | some r =>
    rw [Option.bind_some, checks_idle (by rfl) hquiet.1 hquiet.2.1, Option.map_some, select_idle (by rfl) hquiet.2.2]
    rfl

/-- The press comes after it. -/
theorem iterate_leaves {text : List Byte} (hs : s.Entering) (hholds : s.entry.Holds text) (hmade : s.Made point)
    (htaker : taker e.gpio point ≠ .text) :
    (s.iterate (point.irqs e.toEdge)).map Prod.fst =
      match taker e.gpio point with
      | .text => none
      | .first => clear { s.entered with shared := (s.shared.press e.gpio).setState }
      | .second => accept { s.entered with shared := (s.shared.press e.gpio).setState }
      | .later => some { s.entered with shared := s.shared.press e.gpio } := by
  have htake := takeAny_arrival point e s.shared hs.idle
  rw [if_neg htaker] at htake
  rw [iterate_parts hs.done hs.stage (turn_arrival hmade) htake]
  rw [textInput_none hholds, Option.bind_some]
  have hholds' : s.entered.entry.Holds text := TextEntry.enterStage_holds hholds s.ssid_stage
  have h7 : point = .state7 → s.entered.shared.data.ButtonPin = 7 := by
    rintro rfl
    exact hmade
  have h12 : point = .state12 → s.entered.shared.data.ButtonPin = 12 := by
    rintro rfl
    exact hmade
  have h9 : point = .state9 → s.entered.shared.data.ButtonPin = 9 := by
    rintro rfl
    exact hmade
  refine (checks_arrival hholds' hs.stage hs.idle h7 h12 h9).trans ?_
  cases htaker' : taker e.gpio point with
  | text => exact absurd htaker' htaker
  | first => rfl
  | second => rfl
  | later => rfl

/-- An iteration without a press. -/
theorem iterate_quiet {text : List Byte} (hs : s.Entering) (hholds : s.entry.Holds text) :
    (s.iterate .quiet).map Prod.fst = some s.entered := by
  have htake : s.shared.takeAny .quiet = (s.shared, none) := by
    rw [Input.takeAny_quiet, hs.idle]
    rfl
  have hidle : s.entered.shared.data.buttonPressed = false := hs.idle
  rw [iterate_parts hs.done hs.stage (turn_quiet s) htake, textInput_none hholds, Option.bind_some]
  calc (s.entered.checks .quiet).map (·.select .quiet) = some (s.entered.select .quiet) := by
        rw [checks_idle hidle rfl rfl, Option.map_some]
    _ = some s.entered := by
        rw [select_idle hidle rfl]

/-- An iteration that begins with a press waiting. -/
theorem iterate_waiting {pin : ℕ} (hdone : s.done = false) (hstage : s.stage = 1)
    (hpressed : s.shared.data.buttonPressed = true)
    (hpin : s.shared.data.ButtonPin = pin) :
    (s.iterate .quiet).map Prod.fst = (s.entry.textInput (some pin) s.nextI s.ssid_stage).map
      fun r => { s.turned with shared := s.shared.setState, entry := r.1 } := by
  have htake : s.shared.takeAny .quiet = (s.shared.setState, some pin) := by
    rw [Input.takeAny_quiet, hpressed, hpin]
    rfl
  rw [iterate_parts hdone hstage (turn_quiet s) htake]
  cases s.entry.textInput (some pin) s.nextI s.ssid_stage with
  | none => rfl
  | some r =>
    rw [Option.bind_some, checks_idle (by rfl) rfl rfl, Option.map_some, select_idle (by rfl) rfl]
    rfl

/-! ### What is seen afterwards -/

theorem array_eq (t : TextEntry) (stage : ℕ) : t.array stage = View.arrayAt stage t.current_Array := by
  unfold TextEntry.array TextEntry.enterStage View.arrayAt
  split
  · rfl
  · rfl

@[simp] theorem arrayAt_arrayAt (stage : ℕ) (k : Fin 4) :
    View.arrayAt stage (View.arrayAt stage k) = View.arrayAt stage k := by
  unfold View.arrayAt
  split
  · rfl
  · rfl

theorem enterStage_enterStage (t : TextEntry) (stage : ℕ) :
    (t.enterStage stage).enterStage stage = t.enterStage stage := by
  unfold TextEntry.enterStage
  split
  · rfl
  · rfl

theorem textInput_enterStage (t : TextEntry) (pressed : Option ℕ) (current_position : ℤ) (stage : ℕ) :
    (t.enterStage stage).textInput pressed current_position stage = t.textInput pressed current_position stage := by
  rw [TextEntry.textInput, enterStage_enterStage]
  rfl

@[simp] theorem view_entered (s : SetUp) : s.entered.view = s.view := by
  have hstring : (s.entry.enterStage s.ssid_stage).input_string = s.entry.input_string := by
    unfold TextEntry.enterStage
    split
    · rfl
    · rfl
  have harray : (s.entry.enterStage s.ssid_stage).array s.ssid_stage = s.entry.array s.ssid_stage :=
    congrArg TextEntry.current_Array (enterStage_enterStage s.entry s.ssid_stage)
  simp [view, entered, turned, hstring, harray]

/-- An iteration without a press changes nothing that is seen. -/
theorem view_quiet (u : SetUp) {text : List Byte} (hs : u.Entering) (hholds : u.entry.Holds text) :
    ((u.iterate .quiet).map Prod.fst).map view = some u.view := by
  rw [iterate_quiet hs hholds, Option.map_some, view_entered]

theorem view_quiet_menu (u : SetUp) (hstage : u.stage = 0) (hdone : u.done = false)
    (hidle : u.shared.data.buttonPressed = false) : ((u.iterate .quiet).map Prod.fst).map view = some u.view := by
  have hmenu := iterate_menu hdone hstage .quiet
  rw [hmenu, Option.map_some, Option.map_some, select_idle (by exact hidle) rfl]
  rfl

/-- What `textInput` makes of a view. -/
def View.typed (v : View) (highlighted : Option Byte) (pin : ℕ) : View :=
  { v with text := v.text.map fun text => TextEntry.typed text highlighted pin,
           array := arrayAt v.ssid_stage (TextEntry.nextArray v.array (some pin)) }

theorem two_eq (s : SetUp) (point : Point) (e : Edge) : s.two point e =
    ((s.iterate (point.irqs e)).map Prod.fst).bind fun t => (t.iterate .quiet).map Prod.fst := by
  rw [two]
  cases s.iterate (point.irqs e) with
  | none => rfl
  | some r => rfl

/-- A press that `textInput` takes, now or in the next iteration. -/
theorem two_textInput {text : List Byte} (hs : s.Entering) (hholds : s.entry.Holds text) (hmade : s.Made point)
    (htaker : taker e.gpio point = .text ∨ taker e.gpio point = .later) :
    (s.two point e.toEdge).map view = (s.entry.textInput (some e.gpio) s.nextI s.ssid_stage).map
      fun r => { s.view with text := CString.read r.1.input_string.toList, array := r.1.array s.ssid_stage } := by
  rcases htaker with htaker | htaker
  · rw [two_eq, iterate_takes hs hmade htaker]
    cases hcall : s.entry.textInput (some e.gpio) s.nextI s.ssid_stage with
    | none => rfl
    | some r =>
      have hr := (holds_of_textInput hholds hcall).1
      have hu : Entering { s.turned with shared := (s.shared.press e.gpio).setState, entry := r.1 } :=
        ⟨hs.stage, hs.done, rfl⟩
      rw [Option.map_some, Option.bind_some, iterate_quiet hu hr, Option.map_some, view_entered]
      simp [view, turned, hs.idle]
  · have hne : taker e.gpio point ≠ .text := by
      simp [htaker]
    rw [two_eq, iterate_leaves hs hholds hmade hne, htaker]
    have hwaiting : (iterate { s.entered with shared := s.shared.press e.gpio } .quiet).map Prod.fst = _ :=
      iterate_waiting hs.done hs.stage rfl rfl
    have hnext : nextI { s.entered with shared := s.shared.press e.gpio } = s.nextI := by
      simp [nextI, entered, turned]
    have hcall : (s.entry.enterStage s.ssid_stage).textInput (some e.gpio) s.nextI s.ssid_stage =
        s.entry.textInput (some e.gpio) s.nextI s.ssid_stage := textInput_enterStage ..
    rw [hnext] at hwaiting
    rw [Option.bind_some, hwaiting, Option.map_map]
    refine (congrArg (Option.map _) hcall).trans (congrArg (Option.map · _) (funext fun r => ?_))
    simp [view, entered, turned, hs.idle]

/-- What the press has then made of the view. -/
theorem view_typed {text : List Byte} {pin : ℕ} {r : TextEntry × Option (List Byte)} (hholds : s.entry.Holds text)
    (hcall : s.entry.textInput (some pin) s.nextI s.ssid_stage = some r) :
    { s.view with text := CString.read r.1.input_string.toList, array := r.1.array s.ssid_stage } =
      s.view.typed (s.entry.highlighted s.nextI s.ssid_stage) pin := by
  obtain ⟨hr, harray⟩ := holds_of_textInput hholds hcall
  have htext : s.view.text = some text := hholds.read
  rw [View.typed, htext, hr.read, array_eq, harray]
  rfl

theorem after_of_ne_twelve (s : SetUp) (highlighted : Option Byte) {pin : ℕ} (h : pin ≠ 12) :
    s.view.after highlighted pin = some (s.view.typed highlighted pin) := by
  have harray : View.arrayAt s.view.ssid_stage s.view.array = s.view.array := by
    rw [view, array_eq, arrayAt_arrayAt]
  rw [View.after, if_neg h, View.typed]
  by_cases h9 : pin = 9
  · rw [if_pos h9]
    simp [TextEntry.nextArray, TextEntry.typed, h9]
  · rw [if_neg h9]
    simp [TextEntry.nextArray, h9, harray]

/-- Accepting a field goes on to the next stage. -/
theorem ssid_stage_accepted {v v' : View} (h : v.accepted = some v') : v'.ssid_stage = v.ssid_stage + 1 := by
  unfold View.accepted at h
  split at h
  · exact Option.some.inj h ▸ rfl
  · exact Option.some.inj h ▸ rfl
  · exact Option.some.inj h ▸ rfl
  · obtain ⟨port, -, rfl⟩ := Option.map_eq_some_iff.mp h
    rfl
  · cases h

/-- `textInput` does nothing with pin 12, and what the others are for. -/
theorem acted_on_textInput {text : List Byte} (hs : s.Entering) (hholds : s.entry.Holds text) (hmade : s.Made point)
    (htaker : taker e.gpio point = .text ∨ taker e.gpio point = .later) : s.ActedOn point e.toEdge ↔
      e.gpio ≠ 12 ∧ s.entry.Typable text (some e.gpio) s.nextI s.ssid_stage := by
  have htwo := two_textInput hs hholds hmade htaker
  unfold ActedOn
  rw [htwo, ← TextEntry.textInput_isSome_iff hholds]
  cases hcall : s.entry.textInput (some e.gpio) s.nextI s.ssid_stage with
  | none => simp
  | some r =>
    rw [Option.map_some, view_typed hholds hcall]
    by_cases h12 : e.gpio = 12
    · refine iff_of_false ?_ fun h => h.1 h12
      rintro ⟨v, hv, hafter⟩
      rw [View.after, if_pos h12] at hafter
      have hstage := ssid_stage_accepted hafter
      rw [← Option.some.inj hv] at hstage
      exact absurd hstage (Nat.succ_ne_self _).symm
    · refine iff_of_true ⟨_, rfl, after_of_ne_twelve s _ h12⟩ ⟨h12, rfl⟩

/-- The array that a call has left is the one of its stage. -/
theorem array_entered (s : SetUp) : s.entered.entry.array s.ssid_stage = s.entered.entry.current_Array :=
  congrArg TextEntry.current_Array (enterStage_enterStage s.entry s.ssid_stage)

theorem holds_entered {text : List Byte} (hholds : s.entry.Holds text) (shared : Input) :
    ({ s.entered with shared } : SetUp).entry.Holds text :=
  TextEntry.enterStage_holds hholds s.ssid_stage

/-- The first check has emptied the field. -/
theorem two_first {text : List Byte} (hs : s.Entering) (hholds : s.entry.Holds text) (hmade : s.Made point)
    (htaker : taker e.gpio point = .first) : (s.two point e.toEdge).map view =
      some { s.view with text := some [], stage := if text = [] then 0 else 1 } := by
  have hne : taker e.gpio point ≠ .text := by
    simp [htaker]
  obtain ⟨input, entry, hempty, harray, hclear⟩ := clear_eq (holds_entered hholds (s.shared.press e.gpio).setState)
  have hview : entry.array s.ssid_stage = s.entry.array s.ssid_stage := by
    rw [array_eq, harray]
    exact (array_eq ..).symm.trans (array_entered s)
  rw [two_eq, iterate_leaves hs hholds hmade hne, htaker]
  dsimp only
  rw [hclear, Option.bind_some]
  by_cases htext : text = []
  · refine (view_quiet_menu _ (by exact if_pos htext) (by exact hs.done) (by rfl)).trans ?_
    simp [view, entered, turned, htext, hempty.read, hview, hs.idle]
  · have hstage : (if text = [] then 0 else s.entered.stage) = 1 := (if_neg htext).trans hs.stage
    refine (view_quiet _ (by exact ⟨hstage, hs.done, rfl⟩) (by exact hempty)).trans ?_
    simp [view, entered, turned, htext, hempty.read, hview, hs.idle, hs.stage]

/-- What `accept` makes of a view whose array is the one of its stage. -/
theorem view_accept {u : SetUp} {text : List Byte} (hholds : u.entry.Holds text) (hlt : u.ssid_stage < 4)
    (harray : u.entry.array u.ssid_stage = u.entry.current_Array) : u.accept.map view = u.view.accepted := by
  have hread : u.view.text = some text := hholds.read
  have hnext : ∀ {entry : TextEntry}, entry.current_Array = u.entry.current_Array →
      entry.array (u.ssid_stage + 1) = View.arrayAt (u.ssid_stage + 1) u.view.array := fun h => by
    rw [array_eq, h, ← harray]
    rfl
  rw [accept, if_pos hlt, Option.map_map, takeField, View.accepted]
  split
  · rename_i h0
    obtain ⟨ssid, entry, hcall, hssid, hempty, hsame⟩ := TextEntry.returnInput_eq hholds u.ssid
    have harray' := hnext hsame
    simp [hcall, view, h0, hempty.read, hssid, hholds.read] at harray' ⊢
    exact harray'
  · rename_i h1
    obtain ⟨pw, entry, hcall, hpw, hempty, hsame⟩ := TextEntry.returnInput_eq hholds u.pw
    have harray' := hnext hsame
    simp [hcall, view, h1, hempty.read, hpw, hholds.read] at harray' ⊢
    exact harray'
  · rename_i h2
    obtain ⟨hostname, entry, hcall, hhostname, hempty, hsame⟩ := TextEntry.returnInput_eq hholds u.hostname
    have harray' := hnext hsame
    simp [hcall, view, h2, hempty.read, hhostname, hholds.read] at harray' ⊢
    exact harray'
  · rename_i h3
    obtain ⟨aaa, entry, hcall, haaa, hempty, hsame⟩ := TextEntry.returnInput_eq hholds (.replicate _ 0)
    have harray' := hnext hsame
    rw [hcall]
    cases hport : stoi text with
    | none => simp [view, h3, haaa, hholds.read, hport]
    | some port =>
      simp [view, h3, hempty.read, haaa, hholds.read, hport] at harray' ⊢
      exact harray'
  · rename_i h0 h1 h2 h3
    exact absurd hlt (not_lt_four h0 h1 h2 h3)

/-- The second check accepts the field, or ends the set-up. -/
theorem two_second {text : List Byte} (hs : s.Entering) (hholds : s.entry.Holds text) (hmade : s.Made point)
    (hstage : s.ssid_stage ≤ 4) (htaker : taker e.gpio point = .second) :
    (s.two point e.toEdge).map view = s.view.accepted := by
  have hne : taker e.gpio point ≠ .text := by
    simp [htaker]
  have hholds' := holds_entered hholds (s.shared.press e.gpio).setState
  have hview : view { s.entered with shared := (s.shared.press e.gpio).setState } = s.view := by
    rw [← view_entered s]
    simp [view, entered, turned, hs.idle]
  rw [two_eq, iterate_leaves hs hholds hmade hne, htaker]
  dsimp only
  by_cases hlt : s.ssid_stage < 4
  · have haccept := view_accept hholds' hlt (array_entered s)
    rw [hview] at haccept
    rw [← haccept]
    cases hcase : accept { s.entered with shared := (s.shared.press e.gpio).setState } with
    | none => rfl
    | some t =>
      rcases accept_cases hholds' hcase with ⟨-, entry, ssid, pw, hostname, port, hempty, -, rfl⟩ | ⟨hge, -⟩
      · exact view_quiet _ (by exact ⟨hs.stage, hs.done, rfl⟩) (by exact hempty)
      · exact absurd hlt (Nat.not_lt.mpr hge)
  · have h4 : s.view.ssid_stage = 4 := by
      show s.ssid_stage = 4
      omega
    rw [accept, if_neg (by exact hlt), Option.bind_some, View.accepted, h4]
    rfl

/-- Only one character dropped leaves nothing. -/
theorem eq_seven_of_typed_eq_nil {text : List Byte} {highlighted : Option Byte} {pin : ℕ} (hne : text ≠ [])
    (h : TextEntry.typed text highlighted pin = []) : pin = 7 ∧ text.length = 1 := by
  unfold TextEntry.typed at h
  split_ifs at h with h8 h7
  · exact absurd (List.append_eq_nil_iff.mp h).1 hne
  · have hlen := congrArg List.length h
    rw [List.length_dropLast, List.length_nil] at hlen
    have hpos := List.length_pos_of_ne_nil hne
    exact ⟨h7, by omega⟩
  · exact absurd h hne

/-- The first check has the effect of pin 7 only, and only on one character. -/
theorem acted_on_first {text : List Byte} (hs : s.Entering) (hholds : s.entry.Holds text) (hmade : s.Made point)
    (htaker : taker e.gpio point = .first) : s.ActedOn point e.toEdge ↔ e.gpio = 7 ∧ text.length = 1 := by
  have htext : s.view.text = some text := hholds.read
  unfold ActedOn
  rw [two_first hs hholds hmade htaker]
  constructor
  · rintro ⟨v, hv, hafter⟩
    have hstage := congrArg View.ssid_stage (Option.some.inj hv)
    by_cases h12 : e.gpio = 12
    · rw [View.after, if_pos h12] at hafter
      exact absurd (hstage.trans (ssid_stage_accepted hafter)) (Nat.succ_ne_self _).symm
    · rw [after_of_ne_twelve s _ h12, ← hv, Option.some.injEq] at hafter
      have hone : s.view.stage = if text = [] then 0 else 1 := congrArg View.stage hafter
      have hnil : s.view.text.map _ = some [] := congrArg View.text hafter
      have hne : text ≠ [] := by
        rintro rfl
        exact absurd (hs.stage.symm.trans hone) (by decide)
      rw [htext, Option.map_some, Option.some.injEq] at hnil
      exact eq_seven_of_typed_eq_nil hne hnil
  · rintro ⟨h7, hlen⟩
    obtain ⟨c, rfl⟩ := List.length_eq_one_iff.mp hlen
    have harray : View.arrayAt s.view.ssid_stage s.view.array = s.view.array := by
      rw [view, array_eq, arrayAt_arrayAt]
    refine ⟨_, rfl, ?_⟩
    rw [after_of_ne_twelve s _ (by omega), View.typed, htext]
    simp [TextEntry.typed, TextEntry.nextArray, h7, harray, show s.view.stage = 1 from hs.stage]

theorem accepted_isSome_iff (v : View) :
    v.accepted.isSome ↔ v.ssid_stage < 4 ∧ (v.ssid_stage = 3 → (v.text.bind stoi).isSome) := by
  unfold View.accepted
  split
  · rename_i h
    simp [h]
  · rename_i h
    simp [h]
  · rename_i h
    simp [h]
  · rename_i h
    rw [Option.isSome_map]
    simp [h]
  · rename_i h0 h1 h2 h3
    exact iff_of_false Bool.false_ne_true fun h => not_lt_four h0 h1 h2 h3 h.1

/-- The second check has the effect of pin 12 only, and only on a field that is left. -/
theorem acted_on_second {text : List Byte} (hs : s.Entering) (hholds : s.entry.Holds text) (hmade : s.Made point)
    (hstage : s.ssid_stage ≤ 4) (htaker : taker e.gpio point = .second) : s.ActedOn point e.toEdge ↔
      e.gpio = 12 ∧ s.ssid_stage < 4 ∧ (s.ssid_stage = 3 → (stoi text).isSome) := by
  have haccepted : s.view.accepted.isSome ↔ s.ssid_stage < 4 ∧ (s.ssid_stage = 3 → (stoi text).isSome) := by
    rw [accepted_isSome_iff, show s.view.text = some text from hholds.read]
    rfl
  unfold ActedOn
  rw [two_second hs hholds hmade hstage htaker, ← haccepted]
  constructor
  · rintro ⟨v, hv, hafter⟩
    by_cases h12 : e.gpio = 12
    · exact ⟨h12, by rw [hv]; rfl⟩
    · rw [after_of_ne_twelve s _ h12, Option.some.injEq] at hafter
      have hsame := ssid_stage_accepted hv
      rw [← hafter] at hsame
      exact absurd hsame (Nat.succ_ne_self _).symm
  · rintro ⟨h12, hsome⟩
    obtain ⟨v, hv⟩ := Option.isSome_iff_exists.mp hsome
    exact ⟨v, hv, by rw [View.after, if_pos h12, hv]⟩

/-! ### Every arrival -/

/-- What a press needs, by who takes it. -/
def Works (s : SetUp) (text : List Byte) (pin : ℕ) (point : Point) : Prop :=
  match taker pin point with
  | .text | .later => pin ≠ 12 ∧ s.entry.Typable text (some pin) s.nextI s.ssid_stage
  | .first => pin = 7 ∧ text.length = 1
  | .second => pin = 12 ∧ s.ssid_stage < 4 ∧ (s.ssid_stage = 3 → (stoi text).isSome)

/-- **When a press is acted on**, in every reachable state and at every point of the iteration. -/
theorem acted_on_iff {text : List Byte} (hr : Machine.Reach step IsStart Machine.Always s) (hs : s.Entering)
    (htext : CString.read s.entry.input_string.toList = some text) (hmade : s.Made point) :
    s.ActedOn point e.toEdge ↔ s.Works text e.gpio point := by
  have hsound := sound_of_reach hr
  obtain ⟨text', hholds, -⟩ := hsound.field
  obtain rfl : text' = text := Option.some.inj (hholds.read.symm.trans htext)
  unfold Works
  cases htaker : taker e.gpio point with
  | text => exact acted_on_textInput hs hholds hmade (.inl htaker)
  | later => exact acted_on_textInput hs hholds hmade (.inr htaker)
  | first => exact acted_on_first hs hholds hmade htaker
  | second => exact acted_on_second hs hholds hmade hsound.ssid_stage htaker

/-! ### Two characters in the field -/

/-- The menu's choice, and two characters. -/
def twoTyped : List Event := [choosing, typing 8, typing 8]

theorem exists_twoTyped : ∃ s, Machine.Reach step IsStart Machine.Always s ∧ s.Entering ∧
    CString.read s.entry.input_string.toList = some (CString.literal "QQ") ∧ s.ssid_stage = 0 := by
  have hrun : (Machine.run step fresh twoTyped).any (fun s => decide (s.stage = 1 ∧ s.done = false ∧
      s.shared.data.buttonPressed = false ∧
      CString.read s.entry.input_string.toList = some (CString.literal "QQ") ∧ s.ssid_stage = 0)) = true := by
    decide +kernel
  obtain ⟨s, hs, hp⟩ := (Option.any_eq_true _ _).mp hrun
  obtain ⟨hstage, hdone, hidle, htext, hssid⟩ := of_decide_eq_true hp
  exact ⟨s, .run (.init fresh_isStart) (fun _ _ _ => trivial) hs, ⟨hstage, hdone, hidle⟩, htext, hssid⟩

/-- The edges of the encoder's switch and of the button on pin 7. -/
def edge12 : ButtonEdge := ⟨⟨12, false, false⟩, by decide⟩

def edge7 : ButtonEdge := ⟨⟨7, false, false⟩, by decide⟩

/-- Before the second check pin 12 accepts the SSID. -/
theorem acted_on_before_second : ∃ s, Machine.Reach step IsStart Machine.Always s ∧ s.Entering ∧
    s.ActedOn .pin12 edge12.toEdge := by
  obtain ⟨s, hr, hs, htext, hssid⟩ := exists_twoTyped
  have hmade : s.Made .pin12 := trivial
  refine ⟨s, hr, hs, (acted_on_iff hr hs htext hmade).mpr ⟨rfl, ?_, ?_⟩⟩
  · rw [hssid]
    decide
  · rw [hssid]
    exact fun h => by cases h

/-- **Before `textInput` looks pin 12 is lost, and right after it pin 7 drops both characters.** -/
theorem press_not_acted_on : ∃ s, Machine.Reach step IsStart Machine.Always s ∧ s.Entering ∧
    ¬ s.ActedOn .textState edge12.toEdge ∧ ¬ s.ActedOn .pin7 edge7.toEdge := by
  obtain ⟨s, hr, hs, htext, -⟩ := exists_twoTyped
  obtain ⟨text, hholds, -⟩ := (sound_of_reach hr).field
  obtain rfl : text = CString.literal "QQ" := Option.some.inj (hholds.read.symm.trans htext)
  have htextState : s.Made .textState := trivial
  have hpin7 : s.Made .pin7 := trivial
  refine ⟨s, hr, hs, fun h => ?_, fun h => ?_⟩
  · exact ((acted_on_textInput hs hholds htextState (.inl rfl)).mp h).1 rfl
  · exact absurd ((acted_on_first hs hholds hpin7 rfl).mp h).2 (by decide)

end SetUp
end Ventilation
