/-
# The menus (src/display/graphics.cpp)

What `startMenu` and `mainMenu` draw on the display, as lists of calls. The entry that `startMenu` has
highlighted is the one that a press of pin 9 takes in the same iteration, and none is where it takes none
(`highlighted_chosen`). What `mainMenu` shows can be read off the pixels: two pages look alike exactly if they are
the same and say the same, as far as their lines go in the frame (`looks_alike_iff`).
-/
import Ventilation.Display.Layers
import Ventilation.Lib.FloatText
import Ventilation.SetUp
import Ventilation.StatusLoopCommands

namespace Ventilation

open CInt (signed?)
open Decimal (intText)
open FloatText (float32)
open Layers (Layer overlay painted)
open MonoVlsb (Buffers Call Lit board layerOf Rectangle Outline Written Printable)

namespace Graphics

/-! ### The code -/

/-- An entry of `startMenu`. -/
def entry (selected : Bool) (label : String) (y : BitVec 16) : List (Call Unit) :=
  [.rect 9 y 110 14 1 selected, .text (CString.literal label) 12 (y + 3) (if selected then 0 else 1)]

def startMenu (pos : ℤ) : List (Call Unit) :=
  .fill 0 :: (entry (pos = 0 ∨ pos = 1) "SELECT SSID" 5 ++ entry (pos = 2 ∨ pos = 3) "USE PREVIOUS" 25 ++
    entry (pos = 4 ∨ pos = 5) "NO WIFI" 45)

/-- `(int)` of a `float`; of a value that does not fit it is undefined. -/
def toInt (bits : BitVec 32) : Option ℤ :=
  (float32 bits).bind fun value => signed? 32 (if 0 ≤ value then value.floor else value.ceil)

/-- `snprintf` of a label and one `%d` into `output_string`. -/
def output_string (label : String) (value : ℤ) : List Byte := (CString.literal label ++ intText value).take 29

/-- What `mainMenu` shows. -/
inductive Page
  | readings (temp co2 rh ah : ℤ)
  | manual (fan_speed : ℤ)
  | automatic (pressure target_pressure : ℤ)

/-- The two boxes, of which that of the mode is filled. -/
def modeCalls (manual : Bool) : List (Call Unit) :=
  [.fill 0, .rect 4 4 58 20 1 manual, .rect 66 4 58 20 1 (!manual),
    .text (CString.literal "MANUAL") 10 10 (if manual then 0 else 1),
    .text (CString.literal "AUTO") 80 10 (if manual then 1 else 0)]

def Page.calls : Page → List (Call Unit)
  | readings temp co2 rh ah =>
    [.fill 0, .text (output_string "temp: " temp) 2 10 1, .text (output_string "co2: " co2) 2 20 1,
      .text (output_string "rh: " rh) 2 30 1, .text (output_string "ah: " ah) 2 40 1]
  | manual fan_speed => modeCalls true ++ [.text (output_string "fanspeed: " fan_speed) 4 30 1]
  | automatic pressure target_pressure => modeCalls false ++
    [.text (output_string "pressure: " pressure) 2 30 1, .text (CString.literal "target pressure: ") 2 40 1,
      .text (output_string "" target_pressure) 2 50 1]

/-- `mainMenu` behind its checks of the buttons. -/
def mainMenu (display_mode : ℕ) (mode : Bool) (fan_speed pressure target_pressure : ℤ) (temp co2 rh ah : BitVec 32) :
    Option (List (Call Unit)) :=
  if display_mode = 0 then do
    return (Page.readings (← toInt temp) (← toInt co2) (← toInt rh) (← toInt ah)).calls
  else if display_mode = 1 then
    some (if mode then Page.manual fan_speed else Page.automatic pressure target_pressure).calls
  else some []

end Graphics

/-- The calls of a function on the display. -/
def onDisplay (calls : List (Call Unit)) (buffers : Buffers board) : Option (Buffers board) :=
  Machine.run (MonoVlsb.step board) buffers (calls.map (⟨(), ·⟩))

/-- An iteration of the set-up in the stage of the menu. -/
def SetUp.display (s : SetUp) (irqs : SetUp.Irqs) : Buffers board → Option (Buffers board) :=
  onDisplay (Graphics.startMenu ((s.shared.interrupts irqs.menu).returnVal.tmod 6))

def StatusLoop.draws (s : StatusLoop) (t : Turn) : Option (List (Call Unit)) :=
  let (u, mode) := s.mainMenu t s.controls.manual
  Graphics.mainMenu u.display_mode mode (s.fan.get_speed.tdiv 10) s.fan.get_pressure s.pres_val
    (s.regs .temp).get_float (s.regs .co).get_float (s.regs .rh).get_float (s.regs .absh).get_float

/-! ### Pixels -/

/-- A pixel of the display is on. -/
def On (s : Buffers board) (X Y : ℕ) : Prop := Lit (s ()) (X, Y)

theorem onDisplay_paints {calls : List (Call Unit)} (hw : ∀ call ∈ calls, call.Within (board ())) (buffers : Buffers board) :
    ∃ b, onDisplay calls buffers = some b ∧ ∀ X Y, X < 128 → Y < 64 →
      (On b X Y ↔ painted (fun p => Lit (buffers ()) p) (calls.filterMap Call.layer) (X, Y)) :=
  MonoVlsb.run_paints MonoVlsb.board_whole (by decide) calls buffers hw

/-- A cleared display is dark. -/
theorem painted_fill (picture : ℕ × ℕ → Prop) (calls : List (Call Unit)) (p : ℕ × ℕ) :
    painted picture ((.fill 0 :: calls).filterMap Call.layer) p ↔
      painted (fun _ => False) (calls.filterMap Call.layer) p := by
  show painted picture (layerOf (fun _ _ => True) 0 :: calls.filterMap Call.layer) p ↔ _
  rw [Layers.painted_cons]
  apply Layers.painted_congr
  intro _
  simp [overlay, layerOf]

/-- The rows of a text. -/
theorem rows_of_written {str : List Byte} {x : ℤ} {y X Y : ℕ} (h : Written str x y X Y) : y ≤ Y ∧ Y < y + 8 := by
  obtain ⟨_, _, _, _, _, _, row, hrow, rfl, _⟩ := h
  omega

namespace Graphics

/-! ### The start menu -/

/-- The row below the upper side of an entry's frame is on from one side to the other. -/
def Highlighted (s : Buffers board) (k : ℕ) : Prop := ∀ X, 9 ≤ X → X < 119 → On s X (6 + 20 * k)

section Entry

variable {selected : Bool} {label : String} {y : BitVec 16}

/-- The shape of the frame. -/
def frameShape (selected : Bool) (y : ℕ) : ℕ → ℕ → Prop := if selected then Rectangle 9 y 110 14 else Outline 9 y 110 14

theorem layers_entry (hy : y.toNat ≤ 45) : (entry selected label y).filterMap Call.layer =
    [layerOf (frameShape selected y.toNat) 1,
      layerOf (Written (CString.literal label) 12 (y.toNat + 3)) (if selected then 0 else 1)] := by
  have hy3 : (y.toNat + 3) % 65536 = y.toNat + 3 := Nat.mod_eq_of_lt (by omega)
  cases selected <;> simp [entry, Call.layer, frameShape, hy3]

theorem within_entry (hlabel : ∀ c ∈ CString.literal label, c ≠ 0) (hlen : (CString.literal label).length ≤ 4096)
    (hy : y.toNat ≤ 45) : ∀ call ∈ entry selected label y, call.Within (board ()) := by
  rw [entry, List.forall_mem_cons, List.forall_mem_singleton]
  exact ⟨⟨by decide, by decide, by decide, show y.toNat + 14 ≤ 64 by omega⟩, hlabel, by omega⟩

/-- In other rows there is nothing of an entry. -/
theorem entry_outside (hy : y.toNat ≤ 45) {X Y : ℕ} (hY : Y < y.toNat ∨ y.toNat + 14 ≤ Y) :
    ∀ l ∈ (entry selected label y).filterMap Call.layer, ¬ l.shape (X, Y) := by
  rw [layers_entry hy, List.forall_mem_cons, List.forall_mem_singleton]
  constructor
  · intro h
    have hrect : Rectangle 9 y.toNat 110 14 X Y := by
      cases selected with
      | true => exact h
      | false => exact h.1
    have := hrect.2
    omega
  · intro h
    have := rows_of_written h
    omega

/-- The row below the upper side. -/
theorem painted_entry (hy : y.toNat ≤ 45) {X : ℕ} (hX : 9 ≤ X ∧ X < 119) {picture : ℕ × ℕ → Prop}
    (hdark : ¬ picture (X, y.toNat + 1)) :
    painted picture ((entry selected label y).filterMap Call.layer) (X, y.toNat + 1) ↔
      selected = true ∨ X = 9 ∨ X = 118 := by
  have htext : ¬ (layerOf (Written (CString.literal label) 12 (y.toNat + 3)) (if selected then 0 else 1)).shape
      (X, y.toNat + 1) := by
    intro h
    have := rows_of_written h
    omega
  rw [layers_entry hy, Layers.painted_cons, Layers.painted_cons, Layers.painted_nil, Layers.overlay_of_notMem htext]
  cases selected with
  | true => simp [overlay, layerOf, frameShape, Rectangle, hX.1, hX.2]
  | false =>
    simp only [overlay, layerOf, frameShape, Outline, Rectangle, hdark, and_false, or_false, Bool.false_eq_true, if_false]
    simp
    omega

end Entry

/-- **The highlighted entry** is that of the position; negative ones have none. -/
theorem highlighted_iff (pos : ℤ) (buffers : Buffers board) : ∃ b, onDisplay (startMenu pos) buffers = some b ∧
    ∀ k < 3, (Highlighted b k ↔ pos = 2 * k ∨ pos = 2 * k + 1) := by
  have hwithin : ∀ call ∈ startMenu pos, call.Within (board ()) := by
    rw [startMenu, List.forall_mem_cons, List.forall_mem_append, List.forall_mem_append]
    refine ⟨(by decide : 0 < 64), ⟨?_, ?_⟩, ?_⟩
    · exact within_entry (by decide) (by decide) (by decide)
    · exact within_entry (by decide) (by decide) (by decide)
    · exact within_entry (by decide) (by decide) (by decide)
  obtain ⟨b, hb, hon⟩ := onDisplay_paints hwithin buffers
  refine ⟨b, hb, fun k hk => ?_⟩
  have hside : ∀ selected : Bool, (∀ X, 9 ≤ X → X < 119 → (On b X (6 + 20 * k) ↔ selected = true ∨ X = 9 ∨ X = 118)) →
      (Highlighted b k ↔ selected = true) := by
    intro selected hrow
    constructor
    · intro h
      simpa using (hrow 50 (by decide) (by decide)).mp (h 50 (by decide) (by decide))
    · exact fun h X hX hX' => (hrow X hX hX').mpr (.inl h)
  have hlayers : ∀ X Y, X < 128 → Y < 64 → (On b X Y ↔ painted (painted (painted (fun _ => False)
      ((entry (pos = 0 ∨ pos = 1) "SELECT SSID" 5).filterMap Call.layer))
      ((entry (pos = 2 ∨ pos = 3) "USE PREVIOUS" 25).filterMap Call.layer))
      ((entry (pos = 4 ∨ pos = 5) "NO WIFI" 45).filterMap Call.layer) (X, Y)) := by
    intro X Y hX hY
    rw [hon X Y hX hY, startMenu, painted_fill, List.filterMap_append, List.filterMap_append,
      Layers.painted_append, Layers.painted_append]
  rcases (by omega : k = 0 ∨ k = 1 ∨ k = 2) with rfl | rfl | rfl
  · rw [hside (pos = 0 ∨ pos = 1)]
    · simp
    · intro X hX hX'
      rw [hlayers X _ (by omega) (by decide), Layers.painted_outside (entry_outside (by decide) (by decide)),
        Layers.painted_outside (entry_outside (by decide) (by decide))]
      exact painted_entry (by decide) ⟨hX, hX'⟩ not_false
  · rw [hside (pos = 2 ∨ pos = 3)]
    · simp
    · intro X hX hX'
      rw [hlayers X _ (by omega) (by decide), Layers.painted_outside (entry_outside (by decide) (by decide))]
      refine painted_entry (by decide) ⟨hX, hX'⟩ ?_
      rw [Layers.painted_outside (entry_outside (by decide) (by decide))]
      exact not_false
  · rw [hside (pos = 4 ∨ pos = 5)]
    · simp
    · intro X hX hX'
      rw [hlayers X _ (by omega) (by decide)]
      refine painted_entry (by decide) ⟨hX, hX'⟩ ?_
      rw [Layers.painted_outside (entry_outside (by decide) (by decide)),
        Layers.painted_outside (entry_outside (by decide) (by decide))]
      exact not_false

/-- What each entry is for. -/
def taken (s : SetUp) : ℕ → SetUp
  | 0 => { s with stage := 1 }
  | 1 => { s with done := true }
  | _ => { s with use_wifi := false, netword_done := true, done := true }

theorem choose_eq {s : SetUp} {k : ℕ} (hk : k < 3) (h : s.rotvalue = 2 * k ∨ s.rotvalue = 2 * k + 1) :
    s.choose = taken s k := by
  rcases (by omega : k = 0 ∨ k = 1 ∨ k = 2) with rfl | rfl | rfl
  · rw [SetUp.choose, if_pos (by omega), taken]
  · rw [SetUp.choose, if_neg (by omega), if_pos (by omega), taken]
  · rw [SetUp.choose, if_neg (by omega), if_neg (by omega), if_pos (by omega)]
    rfl

theorem choose_of_none {s : SetUp} (h : ∀ k : ℕ, k < 3 → ¬ (s.rotvalue = 2 * k ∨ s.rotvalue = 2 * k + 1)) :
    s.choose = { s with rotvalue := 0 } := by
  have h0 := h 0 (by decide)
  have h1 := h 1 (by decide)
  have h2 := h 2 (by decide)
  push_cast at h0 h1 h2
  rw [SetUp.choose, if_neg (by omega), if_neg (by omega), if_neg (by omega)]

/-- **What is highlighted is what a press takes.** Whatever was on the display, in an iteration of the menu `startMenu` highlights
the entry of the encoder's count, if any; a press of pin 9 that the iteration takes does what that entry is for, and
nothing if none is highlighted. -/
theorem highlighted_chosen {s : SetUp} (hdone : s.done = false) (hstage : s.stage = 0) (irqs : SetUp.Irqs)
    (buffers : Buffers board) :
    let press := (s.shared.interrupts irqs.menu).takePin 9 true irqs.check9
    let pos := (s.shared.interrupts irqs.menu).returnVal.tmod 6
    let u : SetUp := { s with shared := press.1, rotvalue := pos }
    ∃ b t, s.display irqs buffers = some b ∧ s.iterate irqs = some (t, none) ∧
      (∀ k < 3, (Highlighted b k ↔ pos = 2 * k ∨ pos = 2 * k + 1)) ∧
      (press.2 = false → t = u) ∧
      (press.2 = true → (∀ k < 3, Highlighted b k → t = taken u k) ∧
        ((∀ k < 3, ¬ Highlighted b k) → t = { u with rotvalue := 0 })) := by
  intro press pos u
  obtain ⟨b, hb, hk⟩ := highlighted_iff pos buffers
  have hselect : SetUp.select { s with shared := s.shared.interrupts irqs.menu, rotvalue := pos } irqs =
      if press.2 then u.choose else u := by
    have henabled : decide (s.stage = 0) = true := decide_eq_true hstage
    rw [SetUp.select]
    dsimp only
    rw [henabled]
  refine ⟨b, _, hb, SetUp.iterate_menu hdone hstage irqs, hk, fun hpress => ?_, fun hpress => ⟨fun k hlt h => ?_, fun h => ?_⟩⟩
  · rw [hselect, hpress, if_neg Bool.false_ne_true]
  · rw [hselect, hpress, if_pos rfl]
    exact choose_eq hlt ((hk k hlt).mp h)
  · rw [hselect, hpress, if_pos rfl]
    exact choose_of_none fun k hlt h' => h k hlt ((hk k hlt).mpr h')

/-- The encoder turned to the second entry, and pin 9. -/
def atSecond : SetUp := { SetUp.fresh with shared := ⟨⟨8, 0, false⟩, false⟩ }

def pressNine : SetUp.Irqs :=
  { SetUp.Irqs.quiet with check9 := { Input.PressIrqs.quiet with pin := [⟨9, false, false⟩] } }

theorem highlighted_chosen_second : ∃ b t, atSecond.display pressNine MonoVlsb.blank = some b ∧
    atSecond.iterate pressNine = some (t, none) ∧ Highlighted b 1 ∧ t.done = true := by
  obtain ⟨b, t, hb, ht, hk, -, hpress⟩ := highlighted_chosen (rfl : atSecond.done = false) rfl pressNine MonoVlsb.blank
  have hsecond : Highlighted b 1 := (hk 1 (by decide)).mpr (by decide)
  refine ⟨b, t, hb, ht, hsecond, ?_⟩
  rw [(hpress rfl).1 1 (by decide) hsecond]
  rfl

/-! ### The pages -/

/-- The pixels of the two boxes and their labels. -/
def modeShape (manual : Bool) : ℕ × ℕ → Prop := painted (fun _ => False) ((modeCalls manual).tail.filterMap Call.layer)

/-- The pixels of a page. -/
def Page.Shape : Page → ℕ → ℕ → Prop
  | readings temp co2 rh ah => fun X Y =>
    Written (output_string "temp: " temp) 2 10 X Y ∨ Written (output_string "co2: " co2) 2 20 X Y ∨
      Written (output_string "rh: " rh) 2 30 X Y ∨ Written (output_string "ah: " ah) 2 40 X Y
  | manual fan_speed => fun X Y => modeShape true (X, Y) ∨ Written (output_string "fanspeed: " fan_speed) 4 30 X Y
  | automatic pressure target_pressure => fun X Y => modeShape false (X, Y) ∨
    Written (output_string "pressure: " pressure) 2 30 X Y ∨
      Written (CString.literal "target pressure: ") 2 40 X Y ∨ Written (output_string "" target_pressure) 2 50 X Y

section Lines

variable {label : String} {v v' : ℤ} {x y n : ℕ}

theorem forall_output {P : Byte → Prop} (hlabel : ∀ c ∈ CString.literal label, P c)
    (hdigit : ∀ c, Decimal.isDigit c = true → P c) (hminus : P 45) (v : ℤ) : ∀ c ∈ output_string label v, P c := by
  intro c hc
  rcases List.mem_append.mp (List.mem_of_mem_take hc) with hc | hc
  · exact hlabel c hc
  · rcases Decimal.mem_intText hc with h | rfl
    · exact hdigit c h
    · exact hminus

theorem printable_output (hlabel : ∀ c ∈ CString.literal label, Printable c) (v : ℤ) :
    ∀ c ∈ output_string label v, Printable c := by
  refine forall_output hlabel (fun c hc => ?_) (by decide) v
  have := of_decide_eq_true hc
  exact ⟨by omega, by omega⟩

theorem within_output (hlabel : ∀ c ∈ CString.literal label, Printable c) (v : ℤ) (x y : BitVec 16) (color : BitVec 32) :
    (Call.text (output_string label v) x y color : Call Unit).Within (board ()) := by
  constructor
  · intro c hc h0
    have hprintable := printable_output hlabel v c hc
    rw [h0] at hprintable
    exact absurd hprintable (by decide)
  · have := List.length_take_le 29 (CString.literal label ++ intText v)
    unfold output_string
    omega

end Lines

theorem within_modeCalls (manual : Bool) : ∀ call ∈ modeCalls manual, call.Within (board ()) := by
  cases manual <;> simp [modeCalls, Call.Within, board, MonoVlsb.makeSsd1306, MonoVlsb.make] <;> decide

/-- **A page is drawn as it is**, whatever was on the display. -/
theorem page_drawn (d : Page) (buffers : Buffers board) : ∃ b, onDisplay d.calls buffers = some b ∧
    ∀ X Y, X < 128 → Y < 64 → (On b X Y ↔ d.Shape X Y) := by
  have hfill : ∀ manual, modeCalls manual = .fill 0 :: (modeCalls manual).tail := fun _ => rfl
  have hwithin : ∀ call ∈ d.calls, call.Within (board ()) := by
    cases d with
    | readings temp co2 rh ah =>
      simp only [Page.calls, List.forall_mem_cons]
      exact ⟨(by decide : 0 < 64), within_output (by decide) _ _ _ _, within_output (by decide) _ _ _ _,
        within_output (by decide) _ _ _ _, within_output (by decide) _ _ _ _, List.forall_mem_nil _⟩
    | manual fan_speed =>
      rw [Page.calls, List.forall_mem_append, List.forall_mem_singleton]
      exact ⟨within_modeCalls true, within_output (by decide) _ _ _ _⟩
    | automatic pressure target_pressure =>
      simp only [Page.calls, List.forall_mem_append, List.forall_mem_cons]
      exact ⟨within_modeCalls false, within_output (by decide) _ _ _ _, ⟨by decide, by decide⟩, within_output (by decide) _ _ _ _,
        List.forall_mem_nil _⟩
  obtain ⟨b, hb, hon⟩ := onDisplay_paints hwithin buffers
  refine ⟨b, hb, fun X Y hX hY => (hon X Y hX hY).trans ?_⟩
  cases d with
  | readings temp co2 rh ah =>
    rw [Page.calls, painted_fill, Layers.painted_lit (by simp [Call.layer, layerOf])]
    simp [Call.layer, layerOf, Page.Shape]
  | manual fan_speed =>
    rw [Page.calls, hfill, List.cons_append, painted_fill, List.filterMap_append, Layers.painted_append,
      Layers.painted_lit (by simp [Call.layer, layerOf])]
    simp [Call.layer, layerOf, Page.Shape, modeShape]
  | automatic pressure target_pressure =>
    rw [Page.calls, hfill, List.cons_append, painted_fill, List.filterMap_append, Layers.painted_append,
      Layers.painted_lit (by simp [Call.layer, layerOf])]
    simp [Call.layer, layerOf, Page.Shape, modeShape]

/-! ### Reading a page -/

/-- What can be read: which page it is, and the numbers' texts as far as there is room for them. -/
def Page.read : Page → ℕ × List (List Byte)
  | readings temp co2 rh ah => (0, [(intText temp).take 10, (intText co2).take 11, (intText rh).take 12, (intText ah).take 12])
  | manual fan_speed => (1, [intText fan_speed])
  | automatic pressure target_pressure => (2, [intText pressure, intText target_pressure])

/-- The values that the loop may have for the second page. -/
def Page.Ranged : Page → Prop
  | readings .. => True
  | manual fan_speed => 0 ≤ fan_speed ∧ fan_speed ≤ 100
  | automatic pressure target_pressure => (-130 ≤ pressure ∧ pressure ≤ 130) ∧ 0 ≤ target_pressure ∧ target_pressure ≤ 120

/-- The boxes stand above the lines. -/
theorem modeShape_below (manual : Bool) {X Y : ℕ} (hY : 24 ≤ Y) : ¬ modeShape manual (X, Y) := by
  have hbox : ∀ (selected : Bool) (x : BitVec 16) (l : Layer (ℕ × ℕ)),
      (Call.rect x 4 58 20 1 selected : Call Unit).layer = some l → ¬ l.shape (X, Y) := by
    intro selected x l hl h
    have hrect : Rectangle x.toNat 4 58 20 X Y := by
      cases selected with
      | true =>
        obtain rfl := Option.some.inj hl
        exact h
      | false =>
        obtain rfl := Option.some.inj hl
        exact h.1
    have := hrect.2
    omega
  rw [modeShape, Layers.painted_outside]
  · exact not_false
  · intro l hl
    obtain ⟨call, hcall, hlayer⟩ := List.mem_filterMap.mp hl
    simp only [modeCalls, List.tail_cons, List.mem_cons, List.not_mem_nil, or_false] at hcall
    rcases hcall with rfl | rfl | rfl | rfl
    · exact hbox _ _ l hlayer
    · exact hbox _ _ l hlayer
    · intro h
      obtain rfl := Option.some.inj hlayer
      have : 10 ≤ Y ∧ Y < 10 + 8 := rows_of_written h
      omega
    · intro h
      obtain rfl := Option.some.inj hlayer
      have : 10 ≤ Y ∧ Y < 10 + 8 := rows_of_written h
      omega

/-- The boxes' corners are always there, and above its label a box is filled if it is that of the mode. -/
theorem modeShape_corner (manual : Bool) : modeShape manual (4, 4) ∧ ∀ X Y, 4 < Y → Y < 10 →
    (4 < X → X < 61 → (modeShape manual (X, Y) ↔ manual = true)) ∧
      (66 < X → X < 123 → (modeShape manual (X, Y) ↔ manual ≠ true)) := by
  have hwritten : ∀ {str : List Byte} {x : ℤ} {X Y : ℕ}, Y < 10 → ¬ Written str x 10 X Y := by
    intro str x X Y hY h
    have := rows_of_written h
    omega
  constructor
  · cases manual with
    | true => simp [modeShape, modeCalls, Call.layer, painted, overlay, layerOf, Rectangle, Outline, hwritten]
    | false => simp [modeShape, modeCalls, Call.layer, painted, overlay, layerOf, Rectangle, Outline, hwritten]
  · intro X Y hY hY'
    cases manual with
    | true =>
      simp [modeShape, modeCalls, Call.layer, painted, overlay, layerOf, Rectangle, Outline, hwritten hY']
      omega
    | false =>
      simp [modeShape, modeCalls, Call.layer, painted, overlay, layerOf, Rectangle, Outline, hwritten hY']
      omega

/-- A text without blanks is its characters, read one by one. -/
theorem take_eq_of_getD {l l' : List Byte} (hl : (32 : Byte) ∉ l) (hl' : (32 : Byte) ∉ l') {n : ℕ}
    (h : ∀ j < n, l.getD j 32 = l'.getD j 32) : l.take n = l'.take n := by
  apply List.ext_getElem?
  intro j
  by_cases hj : j < n
  · have hget := h j hj
    rw [List.getD_eq_getElem?_getD, List.getD_eq_getElem?_getD] at hget
    rw [List.getElem?_take, List.getElem?_take, if_pos hj, if_pos hj]
    cases hc : l[j]? with
    | none =>
      cases hc' : l'[j]? with
      | none => rfl
      | some c' =>
        rw [hc, hc'] at hget
        obtain rfl : (32 : Byte) = c' := hget
        exact absurd (List.mem_of_getElem? hc') hl'
    | some c =>
      cases hc' : l'[j]? with
      | none =>
        rw [hc, hc'] at hget
        obtain rfl : c = (32 : Byte) := hget
        exact absurd (List.mem_of_getElem? hc) hl
      | some c' =>
        rw [hc, hc'] at hget
        exact congrArg some hget
  · rw [List.getElem?_take, List.getElem?_take, if_neg hj, if_neg hj]

section Lines

variable {label : String} {v v' : ℤ} {x : ℤ} {y n : ℕ}

theorem blank_notMem_intText (v : ℤ) : (32 : Byte) ∉ intText v := by
  intro h
  rcases Decimal.mem_intText h with h | h
  · exact absurd h (by decide)
  · exact absurd h (by decide)

/-- The number of a line is read as far as six columns of its characters are on the display. -/
theorem number_of_alike (hlabel : ∀ c ∈ CString.literal label, Printable c) (hx : 0 ≤ x)
    (hroom : x + 8 * ((CString.literal label).length + n : ℕ) ≤ 130) (hn : (CString.literal label).length + n ≤ 29)
    (h : ∀ X Y, X < 128 → y ≤ Y → Y < y + 8 →
      (Written (output_string label v) x y X Y ↔ Written (output_string label v') x y X Y)) :
    (intText v).take n = (intText v').take n := by
  have hget : ∀ (v : ℤ) (j : ℕ), j < n →
      (output_string label v).getD ((CString.literal label).length + j) 32 = (intText v).getD j 32 := by
    intro v j hj
    rw [List.getD_eq_getElem?_getD, List.getD_eq_getElem?_getD, output_string, List.getElem?_take,
      if_pos ((Nat.add_lt_add_left hj _).trans_le hn), List.getElem?_append_right (Nat.le_add_right _ _), Nat.add_sub_cancel_left]
  apply take_eq_of_getD (blank_notMem_intText v) (blank_notMem_intText v')
  intro j hj
  rw [← hget v j hj, ← hget v' j hj]
  exact MonoVlsb.getD_eq_of_written (printable_output hlabel v) (printable_output hlabel v') h (by omega) (by push_cast; omega)

/-- What is behind the edge does not matter. -/
theorem alike_of_number (hroom : 128 ≤ x + 8 * ((CString.literal label).length + n : ℕ))
    (hn : (CString.literal label).length + n ≤ 29) (h : (intText v).take n = (intText v').take n) {X : ℕ} (hX : X < 128)
    (Y : ℕ) : Written (output_string label v) x y X Y ↔ Written (output_string label v') x y X Y := by
  have htake : ∀ v : ℤ, (output_string label v).take ((CString.literal label).length + n) =
      CString.literal label ++ (intText v).take n := by
    intro v
    rw [output_string, List.take_take, Nat.min_eq_left hn, List.take_length_add_append]
  rw [← MonoVlsb.written_take (by omega : (X : ℤ) < x + 8 * ((CString.literal label).length + n : ℕ)), htake v, h, ← htake v',
    MonoVlsb.written_take (by omega)]

end Lines

theorem length_intText_le {v : ℤ} {n : ℕ} (h : -10 ^ (n + 1) < v ∧ v < 10 ^ (n + 2)) : (intText v).length ≤ n + 2 :=
  (Decimal.length_intText_le_iff v (Nat.succ_pos n)).mpr h

/-- Texts with room for them are read as they are. -/
theorem eq_of_take {v v' : ℤ} {n : ℕ} (h : (intText v).take n = (intText v').take n) (hv : (intText v).length ≤ n)
    (hv' : (intText v').length ≤ n) : intText v = intText v' := by
  rwa [List.take_of_length_le hv, List.take_of_length_le hv'] at h

/-- No pixel of a text is in other rows. -/
theorem not_written {Y y : ℕ} (hY : Y < y ∨ y + 8 ≤ Y) (str : List Byte) (x : ℤ) (X : ℕ) : ¬ Written str x y X Y := by
  intro h
  have := rows_of_written h
  omega

/-- The marks by which a page is known. -/
theorem page_marks (d : Page) : (d.Shape 4 4 ↔ d.read.1 ≠ 0) ∧ d.read.1 ≤ 2 ∧ (d.read.1 ≠ 0 → ∀ X Y, 4 < Y → Y < 10 →
    (4 < X → X < 61 → (d.Shape X Y ↔ d.read.1 = 1)) ∧ (66 < X → X < 123 → (d.Shape X Y ↔ d.read.1 ≠ 1))) := by
  have hlines : ∀ {Y y : ℕ}, Y < 10 → 10 ≤ y → ∀ (str : List Byte) (x : ℤ) (X : ℕ), ¬ Written str x y X Y :=
    fun hY hy => not_written (.inl (by omega))
  cases d with
  | readings temp co2 rh ah => simp [Page.Shape, Page.read, hlines]
  | manual fan_speed =>
    refine ⟨by simp [Page.Shape, Page.read, modeShape_corner], by simp [Page.read], fun _ X Y hY hY' => ?_⟩
    simpa [Page.Shape, Page.read, hlines hY'] using (modeShape_corner true).2 X Y hY hY'
  | automatic pressure target_pressure =>
    refine ⟨by simp [Page.Shape, Page.read, modeShape_corner], by simp [Page.read], fun _ X Y hY hY' => ?_⟩
    simpa [Page.Shape, Page.read, hlines hY'] using (modeShape_corner false).2 X Y hY hY'

/-- Two pixels tell the pages apart. -/
theorem page_of_alike {d d' : Page} (h : ∀ X Y, X < 128 → Y < 64 → (d.Shape X Y ↔ d'.Shape X Y)) :
    d.read.1 = d'.read.1 := by
  obtain ⟨h4, hle, hinside⟩ := page_marks d
  obtain ⟨h4', hle', hinside'⟩ := page_marks d'
  have hcorner := h4.symm.trans ((h 4 4 (by decide) (by decide)).trans h4')
  by_cases h0 : d.read.1 = 0
  · omega
  · have h5 := (hinside h0 5 5 (by decide) (by decide)).1 (by decide) (by decide)
    have h5' := (hinside' (hcorner.mp h0) 5 5 (by decide) (by decide)).1 (by decide) (by decide)
    have hmanual := h5.symm.trans ((h 5 5 (by decide) (by decide)).trans h5')
    omega

theorem readings_of_alike {temp co2 rh ah temp' co2' rh' ah' : ℤ} (h : ∀ X Y, X < 128 → Y < 64 →
    ((Page.readings temp co2 rh ah).Shape X Y ↔ (Page.readings temp' co2' rh' ah').Shape X Y)) :
    (Page.readings temp co2 rh ah).read = (Page.readings temp' co2' rh' ah').read := by
  have htemp := @number_of_alike "temp: " temp temp' 2 10 10 (by decide) (by decide) (by decide) (by decide)
    fun X Y hX hy hy' => by
      simpa [Page.Shape, not_written (by omega : Y < 20 ∨ 20 + 8 ≤ Y), not_written (by omega : Y < 30 ∨ 30 + 8 ≤ Y),
        not_written (by omega : Y < 40 ∨ 40 + 8 ≤ Y)] using h X Y hX (by omega)
  have hco2 := @number_of_alike "co2: " co2 co2' 2 20 11 (by decide) (by decide) (by decide) (by decide)
    fun X Y hX hy hy' => by
      simpa [Page.Shape, not_written (by omega : Y < 10 ∨ 10 + 8 ≤ Y), not_written (by omega : Y < 30 ∨ 30 + 8 ≤ Y),
        not_written (by omega : Y < 40 ∨ 40 + 8 ≤ Y)] using h X Y hX (by omega)
  have hrh := @number_of_alike "rh: " rh rh' 2 30 12 (by decide) (by decide) (by decide) (by decide)
    fun X Y hX hy hy' => by
      simpa [Page.Shape, not_written (by omega : Y < 10 ∨ 10 + 8 ≤ Y), not_written (by omega : Y < 20 ∨ 20 + 8 ≤ Y),
        not_written (by omega : Y < 40 ∨ 40 + 8 ≤ Y)] using h X Y hX (by omega)
  have hah := @number_of_alike "ah: " ah ah' 2 40 12 (by decide) (by decide) (by decide) (by decide)
    fun X Y hX hy hy' => by
      simpa [Page.Shape, not_written (by omega : Y < 10 ∨ 10 + 8 ≤ Y), not_written (by omega : Y < 20 ∨ 20 + 8 ≤ Y),
        not_written (by omega : Y < 30 ∨ 30 + 8 ≤ Y)] using h X Y hX (by omega)
  rw [Page.read, Page.read, htemp, hco2, hrh, hah]

theorem manual_of_alike {fan_speed fan_speed' : ℤ} (hd : (Page.manual fan_speed).Ranged)
    (hd' : (Page.manual fan_speed').Ranged) (h : ∀ X Y, X < 128 → Y < 64 →
      ((Page.manual fan_speed).Shape X Y ↔ (Page.manual fan_speed').Shape X Y)) :
    (Page.manual fan_speed).read = (Page.manual fan_speed').read := by
  have hspeed := @number_of_alike "fanspeed: " fan_speed fan_speed' 4 30 5 (by decide) (by decide) (by decide) (by decide)
    fun X Y hX hy hy' => by
      simpa [Page.Shape, modeShape_below true (by omega : 24 ≤ Y)] using h X Y hX (by omega)
  rw [Page.read, Page.read, eq_of_take hspeed (length_intText_le (by have := hd; unfold Page.Ranged at this; omega))
    (length_intText_le (by have := hd'; unfold Page.Ranged at this; omega))]

theorem automatic_of_alike {pressure target_pressure pressure' target_pressure' : ℤ}
    (hd : (Page.automatic pressure target_pressure).Ranged) (hd' : (Page.automatic pressure' target_pressure').Ranged)
    (h : ∀ X Y, X < 128 → Y < 64 →
      ((Page.automatic pressure target_pressure).Shape X Y ↔ (Page.automatic pressure' target_pressure').Shape X Y)) :
    (Page.automatic pressure target_pressure).read = (Page.automatic pressure' target_pressure').read := by
  obtain ⟨hp, ht⟩ := hd
  obtain ⟨hp', ht'⟩ := hd'
  have hpressure := @number_of_alike "pressure: " pressure pressure' 2 30 6 (by decide) (by decide) (by decide) (by decide)
    fun X Y hX hy hy' => by
      simpa [Page.Shape, modeShape_below false (by omega : 24 ≤ Y), not_written (by omega : Y < 40 ∨ 40 + 8 ≤ Y),
        not_written (by omega : Y < 50 ∨ 50 + 8 ≤ Y)] using h X Y hX (by omega)
  have htarget := @number_of_alike "" target_pressure target_pressure' 2 50 16 (by decide) (by decide) (by decide)
    (by decide) fun X Y hX hy hy' => by
      simpa [Page.Shape, modeShape_below false (by omega : 24 ≤ Y), not_written (by omega : Y < 40 ∨ 40 + 8 ≤ Y),
        not_written (by omega : Y < 30 ∨ 30 + 8 ≤ Y)] using h X Y hX (by omega)
  rw [Page.read, Page.read, eq_of_take hpressure (length_intText_le (by omega)) (length_intText_le (by omega)),
    eq_of_take htarget (length_intText_le (by omega)) (length_intText_le (by omega))]

/-- **Pages that look alike** are those that read alike. -/
theorem looks_alike_iff {d d' : Page} (hd : d.Ranged) (hd' : d'.Ranged) :
    (∀ X Y, X < 128 → Y < 64 → (d.Shape X Y ↔ d'.Shape X Y)) ↔ d.read = d'.read := by
  constructor
  · intro h
    have hpage := page_of_alike h
    cases d with
    | readings temp co2 rh ah => cases d' with
      | readings temp' co2' rh' ah' => exact readings_of_alike h
      | _ => simp [Page.read] at hpage
    | manual fan_speed => cases d' with
      | manual fan_speed' => exact manual_of_alike hd hd' h
      | _ => simp [Page.read] at hpage
    | automatic pressure target_pressure => cases d' with
      | automatic pressure' target_pressure' => exact automatic_of_alike hd hd' h
      | _ => simp [Page.read] at hpage
  · intro h X Y hX _
    cases d with
    | readings temp co2 rh ah => cases d' with
      | readings temp' co2' rh' ah' =>
        simp only [Page.read, Prod.mk.injEq, List.cons.injEq, true_and, and_true] at h
        obtain ⟨htemp, hco2, hrh, hah⟩ := h
        exact or_congr (alike_of_number (by decide) (by decide) htemp hX Y) (or_congr
          (alike_of_number (by decide) (by decide) hco2 hX Y) (or_congr
            (alike_of_number (by decide) (by decide) hrh hX Y) (alike_of_number (by decide) (by decide) hah hX Y)))
      | _ => simp [Page.read] at h
    | manual fan_speed => cases d' with
      | manual fan_speed' =>
        simp only [Page.read, Prod.mk.injEq, List.cons.injEq, true_and, and_true] at h
        rw [Page.Shape, Page.Shape, output_string, output_string, h]
      | _ => simp [Page.read] at h
    | automatic pressure target_pressure => cases d' with
      | automatic pressure' target_pressure' =>
        simp only [Page.read, Prod.mk.injEq, List.cons.injEq, true_and, and_true] at h
        rw [Page.Shape, Page.Shape, output_string, output_string, output_string, output_string, h.1, h.2]
      | _ => simp [Page.read] at h

end Graphics

namespace StatusLoop

open Graphics (Page)

/-! ### The status loop -/

/-- What an iteration has to show. -/
def shown (s : StatusLoop) (t : Turn) : Option Page :=
  let (u, mode) := s.mainMenu t s.controls.manual
  if u.display_mode = 0 then do
    return .readings (← Graphics.toInt (s.regs .temp).get_float) (← Graphics.toInt (s.regs .co).get_float)
      (← Graphics.toInt (s.regs .rh).get_float) (← Graphics.toInt (s.regs .absh).get_float)
  else some (if mode then .manual (s.fan.get_speed.tdiv 10) else .automatic s.fan.get_pressure s.pres_val)

/-- What it leaves on the display. -/
def display (s : StatusLoop) (t : Turn) (buffers : Buffers board) : Option (Buffers board) :=
  (s.draws t).bind fun calls => onDisplay calls buffers

/-- The pressure is one of the sensor's, and one of the two pages is shown. -/
structure Paged (s : StatusLoop) : Prop where
  pressure : -130 ≤ s.fan.pressure ∧ s.fan.pressure ≤ 130
  display_mode : s.display_mode ≤ 1

variable {s u c s' : StatusLoop} {t : Turn} {target hi x : ℤ} {acts : List Action}

theorem page_le {display_mode : ℕ} (h : display_mode ≤ 1) (pressed8 : Bool) : page display_mode pressed8 ≤ 1 := by
  unfold page
  split_ifs
  · exact Nat.le_refl 1
  · exact Nat.zero_le 1
  · exact h

theorem display_mode_mainMenu (h : s.display_mode ≤ 1) (t : Turn) (mode : Bool) : (s.mainMenu t mode).1.display_mode ≤ 1 := by
  simp only [mainMenu]
  split
  · exact page_le h _
  · exact page_le h _

theorem draws_eq (h : s.display_mode ≤ 1) (t : Turn) : s.draws t = (s.shown t).map Page.calls := by
  have hle := display_mode_mainMenu h t s.controls.manual
  unfold draws shown Graphics.mainMenu
  dsimp only
  by_cases h0 : (s.mainMenu t s.controls.manual).1.display_mode = 0
  · rw [if_pos h0, if_pos h0]
    simp only [Option.map_bind, Option.bind_eq_bind, Option.pure_def, Function.comp_def, Option.map_some]
  · rw [if_neg h0, if_neg h0, if_pos (by omega), Option.map_some]

theorem updateTarget_kept (h : s.updateTarget t target hi = some (u, x)) :
    u.fan = s.fan ∧ u.display_mode = s.display_mode := by
  obtain ⟨target', -, h⟩ := Option.bind_eq_some_iff.mp h
  dsimp only at h
  split at h
  · cases h
    exact ⟨rfl, rfl⟩
  · cases h
    exact ⟨rfl, rfl⟩

theorem pressure_adjust_speed {fan fan' : FAN} {in0 in1 : Byte} {current : BitVec 32} {value : Option ℕ}
    (h : fan.adjust_speed target in0 in1 current = some (fan', value)) : fan'.pressure = PressureRegister.get in0 in1 := by
  obtain ⟨⟨fan₁, distance⟩, hdist, h⟩ := Option.bind_eq_some_iff.mp h
  obtain ⟨d, -, hfan₁⟩ := Option.bind_eq_some_iff.mp hdist
  obtain ⟨magnitude, -, h⟩ := Option.bind_eq_some_iff.mp h
  cases hfan₁
  split at h
  · cases h
    rfl
  · obtain ⟨speed, -, h⟩ := Option.bind_eq_some_iff.mp h
    cases h
    rfl

/-- The pressure is kept, or read anew. -/
theorem control_kept (h : s.control t = some (c, acts)) :
    (c.fan.pressure = s.fan.pressure ∨ c.fan.pressure = PressureRegister.get t.in0 t.in1) ∧
      c.display_mode = s.display_mode := by
  unfold control at h
  split at h
  · obtain ⟨⟨u, speed_val⟩, hu, h⟩ := Option.bind_eq_some_iff.mp h
    obtain ⟨speed, -, h⟩ := Option.bind_eq_some_iff.mp h
    obtain ⟨hfan, hmode⟩ := updateTarget_kept hu
    have hpressure : u.fan.pressure = s.fan.pressure := congrArg FAN.pressure hfan
    cases h
    exact ⟨.inl hpressure, hmode⟩
  · obtain ⟨⟨u, pres_val⟩, hu, h⟩ := Option.bind_eq_some_iff.mp h
    obtain ⟨hfan, hmode⟩ := updateTarget_kept hu
    dsimp only at h
    split at h
    · obtain ⟨⟨fan, value⟩, hadjust, h⟩ := Option.bind_eq_some_iff.mp h
      cases h
      exact ⟨.inr (pressure_adjust_speed hadjust), hmode⟩
    · cases h
      exact ⟨.inl (congrArg FAN.pressure hfan), hmode⟩

theorem Paged.iterate {use_wifi : Bool} (h : s.Paged) (hr : InRange s) (ht : iterate use_wifi s t = some (s', acts)) :
    s'.Paged := by
  obtain ⟨c, handed, hc, -⟩ := control_spec (hr.menu t) t
  obtain ⟨send_time, regs, reported, hreport, -⟩ := report_spec use_wifi c t (s.menu t).2
  have hs' := Option.some.inj (ht.symm.trans (iterate_of hc hreport))
  obtain ⟨input, display_mode, hmenu⟩ := menu_eq s t
  obtain ⟨hpressure, hmode⟩ := control_kept hc
  have hpaged : c.Paged := by
    constructor
    · have hget := FAN.get_bounds t.in0 t.in1
      have hsame : (s.menu t).1.fan.pressure = s.fan.pressure := by rw [hmenu]
      have := h.pressure
      omega
    · rw [hmode]
      exact display_mode_mainMenu h.display_mode t s.controls.manual
  obtain ⟨rfl, -⟩ := Prod.mk.inj hs'
  cases use_wifi with
  | true => exact ⟨hpaged.pressure, hpaged.display_mode⟩
  | false => exact ⟨hpaged.pressure, hpaged.display_mode⟩

theorem paged_of_reach {use_wifi : Bool} {p : StatusLoop × List Action}
    (hr : Machine.Reach (logged use_wifi) Start Machine.Always p) : p.1.Paged := by
  refine hr.invariant_of (J := fun p => p.1.Paged) (fun _ h => inRange_of_reach h) ?_ ?_
  · rintro _ ⟨input, controls, fanMem, mem, rfl⟩
    have hzero : (start input controls fanMem mem).1.fan.pressure = 0 := rfl
    have hmode : (start input controls fanMem mem).1.display_mode = 1 := rfl
    exact ⟨by omega, by omega⟩
  · rintro ⟨s, log⟩ t p hrange h - hstep
    obtain ⟨⟨s', acts⟩, ht, rfl⟩ := Option.map_eq_some_iff.mp hstep
    exact h.iterate hrange ht

theorem ranged_of_shown {d : Page} (hr : InRange s) (h : s.Paged) (hd : s.shown t = some d) : d.Ranged := by
  unfold shown at hd
  dsimp only at hd
  split at hd
  · obtain ⟨temp, -, hd⟩ := Option.bind_eq_some_iff.mp hd
    obtain ⟨co2, -, hd⟩ := Option.bind_eq_some_iff.mp hd
    obtain ⟨rh, -, hd⟩ := Option.bind_eq_some_iff.mp hd
    obtain ⟨ah, -, hd⟩ := Option.bind_eq_some_iff.mp hd
    cases hd
    trivial
  · cases hd
    split
    · have hspeed : 0 ≤ s.fan.get_speed ∧ s.fan.get_speed ≤ 1000 := hr.speed
      exact CInt.tdiv_bounds (by decide) (by omega) (by omega)
    · exact ⟨h.pressure, hr.pres_val⟩

/-- What is to be shown is on the display. -/
theorem display_shown {use_wifi : Bool} {p : StatusLoop × List Action} {d : Page}
    (hr : Machine.Reach (logged use_wifi) Start Machine.Always p) (hd : p.1.shown t = some d) (buffers : Buffers board) :
    ∃ b, p.1.display t buffers = some b ∧ (∀ X Y, X < 128 → Y < 64 → (On b X Y ↔ d.Shape X Y)) ∧ d.Ranged := by
  have hpaged := paged_of_reach hr
  obtain ⟨b, hb, hon⟩ := Graphics.page_drawn d buffers
  refine ⟨b, ?_, hon, ranged_of_shown (inRange_of_reach hr) hpaged hd⟩
  rw [display, draws_eq hpaged.display_mode, hd, Option.map_some, Option.bind_some, hb]

/-- The page of the mode that drives the fan. -/
theorem read_mode {d : Page} (hd : s.shown t = some d) (hpage : d.read.1 ≠ 0) :
    d.read.1 = 1 ↔ (s.menu t).1.controls.manual = true := by
  unfold shown at hd
  dsimp only at hd
  split at hd
  · obtain ⟨temp, -, hd⟩ := Option.bind_eq_some_iff.mp hd
    obtain ⟨co2, -, hd⟩ := Option.bind_eq_some_iff.mp hd
    obtain ⟨rh, -, hd⟩ := Option.bind_eq_some_iff.mp hd
    obtain ⟨ah, -, hd⟩ := Option.bind_eq_some_iff.mp hd
    cases hd
    exact absurd rfl hpage
  · cases hd
    show _ ↔ (s.mainMenu t s.controls.manual).2 = true
    split
    · rename_i hmode
      exact iff_of_true rfl hmode
    · rename_i hmode
      exact iff_of_false (Nat.succ_succ_ne_one 0) hmode

/-- **What the display shows can be read off it.** In any two iterations of any runs, whatever was on the display before,
`mainMenu` leaves the same pixels exactly if the pages and what can be read of their numbers are the same. The boxes are
there on the second page only, and filled, in the rows above its label, is the one of the mode in which the iteration then
drives the fan. -/
theorem display_read_iff {use_wifi use_wifi' : Bool} {p p' : StatusLoop × List Action}
    (hr : Machine.Reach (logged use_wifi) Start Machine.Always p)
    (hr' : Machine.Reach (logged use_wifi') Start Machine.Always p') {t t' : Turn} {d d' : Page}
    (hd : p.1.shown t = some d) (hd' : p'.1.shown t' = some d') (buffers buffers' : Buffers board) :
    ∃ b b', p.1.display t buffers = some b ∧ p'.1.display t' buffers' = some b' ∧
      ((∀ X Y, X < 128 → Y < 64 → (On b X Y ↔ On b' X Y)) ↔ d.read = d'.read) ∧
      (d.read.1 ≠ 0 → (d.read.1 = 1 ↔ (p.1.menu t).1.controls.manual = true)) ∧
      (On b 4 4 ↔ d.read.1 ≠ 0) ∧ (On b 4 4 → ∀ X Y, 4 < Y → Y < 10 →
        (4 < X → X < 61 → (On b X Y ↔ (p.1.menu t).1.controls.manual = true)) ∧
          (66 < X → X < 123 → (On b X Y ↔ (p.1.menu t).1.controls.manual ≠ true))) := by
  obtain ⟨b, hb, hon, hranged⟩ := display_shown hr hd buffers
  obtain ⟨b', hb', hon', hranged'⟩ := display_shown hr' hd' buffers'
  have hmode : d.read.1 ≠ 0 → (d.read.1 = 1 ↔ (p.1.menu t).1.controls.manual = true) := read_mode hd
  obtain ⟨hcorner, -, hinside⟩ := Graphics.page_marks d
  refine ⟨b, b', hb, hb', ?_, hmode, (hon 4 4 (by decide) (by decide)).trans hcorner, ?_⟩
  · rw [← Graphics.looks_alike_iff hranged hranged']
    constructor
    · intro h X Y hX hY
      rw [← hon X Y hX hY, ← hon' X Y hX hY, h X Y hX hY]
    · intro h X Y hX hY
      rw [hon X Y hX hY, hon' X Y hX hY, h X Y hX hY]
  · intro h4 X Y hY hY'
    have hpage := hcorner.mp ((hon 4 4 (by decide) (by decide)).mp h4)
    obtain ⟨hmanual, hautomatic⟩ := hinside hpage X Y hY hY'
    constructor
    · intro hX hX'
      rw [hon X Y (by omega) (by omega), hmanual hX hX', hmode hpage]
    · intro hX hX'
      rw [hon X Y (by omega) (by omega), hautomatic hX hX', ne_eq, hmode hpage]

/-- The mode button and nothing else. -/
def modeTurn : Turn := { idleTurn [] with pin9 := { Input.PressIrqs.quiet with state := [⟨9, false, false⟩] } }

theorem display_read_iff_pressed : ∃ b b', blankStart.1.display (idleTurn []) MonoVlsb.blank = some b ∧
    blankStart.1.display modeTurn MonoVlsb.blank = some b' ∧ (¬ On b 5 5 ∧ On b 67 5) ∧
      ∃ X Y, X < 128 ∧ Y < 64 ∧ ¬ (On b X Y ↔ On b' X Y) := by
  have hr : Machine.Reach (logged true) Start Machine.Always (blankStart.1, blankStart.2) := .init ⟨_, _, _, _, rfl⟩
  have hbefore : blankStart.1.shown (idleTurn []) = some (.automatic 0 0) := rfl
  have hafter : blankStart.1.shown modeTurn = some (.manual 0) := rfl
  obtain ⟨b, b', hb, hb', hiff, hmode, hcorner, hbox⟩ := display_read_iff hr hr hbefore hafter MonoVlsb.blank MonoVlsb.blank
  have hsecond : (Page.automatic 0 0).read.1 ≠ 0 := by simp [Page.read]
  have hautomatic : ¬ (blankStart.1.menu (idleTurn [])).1.controls.manual = true := by
    rw [← hmode hsecond]
    simp [Page.read]
  obtain ⟨hmanual, -⟩ := hbox (hcorner.mpr hsecond) 5 5 (by decide) (by decide)
  obtain ⟨-, hauto⟩ := hbox (hcorner.mpr hsecond) 67 5 (by decide) (by decide)
  refine ⟨b, b', hb, hb', ⟨?_, (hauto (by decide) (by decide)).mpr hautomatic⟩, ?_⟩
  · rwa [hmanual (by decide) (by decide)]
  · by_contra hsame
    simp only [not_exists, not_and, not_not] at hsame
    have hread := congrArg Prod.fst (hiff.mp hsame)
    exact absurd hread (Nat.succ_ne_self 1)

end StatusLoop
end Ventilation
