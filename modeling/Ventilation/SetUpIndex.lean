/-
# The menu's choice and the indices into the arrays (main.cpp, src/display/graphics.cpp)

The menu's choice is the encoder's count modulo 6 and the position in an array one
modulo the array's length, and the remainder of a negative number is negative or 0. A call in which pin 9
switches to another array still uses the length of the old one, which matters
where the new one is shorter: from the characters to the digits. `InBounds` is what an
iteration must meet (`indices_right_iff`).
-/
import Ventilation.SetUp

namespace Ventilation

namespace TextEntry

variable {t : TextEntry} {pressed : Option ℕ} {current_position : ℤ} {stage : ℕ}

/-- Every index of a call lies in the array that it is used with: that of the
character appended, in the array of the call, and those of the three shown, in the array after the press. -/
def IndicesRight (t : TextEntry) (pressed : Option ℕ) (current_position : ℤ) (stage : ℕ) : Prop :=
  (pressed = some 8 → InRange (t.array stage) (t.position current_position stage)) ∧
    ∀ i ∈ shownIndices (arr_length (t.array stage)) (t.position current_position stage),
      InRange (nextArray (t.array stage) pressed) i

instance : Decidable (t.IndicesRight pressed current_position stage) := inferInstanceAs (Decidable (_ ∧ _))

theorem mapM_isSome_iff {α β : Type} (f : α → Option β) (l : List α) :
    (l.mapM f).isSome ↔ ∀ a ∈ l, (f a).isSome := by
  induction l with
  | nil => simp
  | cons a l ih =>
    rw [List.mapM_cons, List.forall_mem_cons, ← ih]
    cases f a with
    | none => simp
    | some b => cases l.mapM f <;> simp

/-- What is shown is read from the array. -/
theorem shown_isSome_iff : (t.shown pressed current_position stage).isSome ↔
    ∀ i ∈ shownIndices (arr_length (t.array stage)) (t.position current_position stage),
      InRange (nextArray (t.array stage) pressed) i := by
  rw [shown, mapM_isSome_iff]
  exact forall₂_congr fun i _ => element_isSome_iff

/-- The neighbours of a position, cyclically in an array of one length, as indices into one of another. -/
theorem shownIndices_inRange_iff {length length' : ℕ} {pos : ℤ} (hpos : pos < length) (hlength : 0 < length') :
    (∀ i ∈ shownIndices length pos, 0 ≤ i ∧ i < length') ↔
      0 ≤ pos ∧ (length' < length → 1 ≤ pos ∧ pos + 1 < length') := by
  simp only [shownIndices, List.forall_mem_cons, List.not_mem_nil, false_implies, implies_true, and_true]
  split_ifs <;> omega

theorem position_lt (t : TextEntry) (current_position : ℤ) (stage : ℕ) :
    t.position current_position stage < arr_length (t.array stage) := by
  have hpos : ∀ k : Fin 4, 0 < arr_length k := by
    decide
  exact Int.tmod_lt_of_pos _ (by exact_mod_cast hpos (t.array stage))

/-- Only the characters are followed by a shorter array, the digits. -/
theorem shorter_iff (k : Fin 4) (pressed : Option ℕ) :
    (arr_length (nextArray k pressed) < arr_length k ↔ pressed = some 9 ∧ k.val = 2) ∧
      0 < arr_length (nextArray k pressed) := by
  have hnext : ∀ k : Fin 4, (arr_length (k + 1) < arr_length k ↔ k.val = 2) ∧ 0 < arr_length (k + 1) ∧
      0 < arr_length k := by
    decide
  obtain ⟨h1, h2, h3⟩ := hnext k
  unfold nextArray
  split
  · rename_i h
    exact ⟨by rw [h1, and_iff_right h], h2⟩
  · rename_i h
    exact ⟨iff_of_false (lt_irrefl _) fun h' => h h'.1, h3⟩

/-- The position of a call is not negative, and one at which the characters are left is a
digit's with a digit on either side. -/
def PositionFits (t : TextEntry) (pressed : Option ℕ) (current_position : ℤ) (stage : ℕ) : Prop :=
  0 ≤ t.position current_position stage ∧
    (pressed = some 9 ∧ (t.array stage).val = 2 →
      1 ≤ t.position current_position stage ∧ t.position current_position stage ≤ 8)

instance : Decidable (t.PositionFits pressed current_position stage) := inferInstanceAs (Decidable (_ ∧ _))

theorem indices_right_iff : t.IndicesRight pressed current_position stage ↔
    t.PositionFits pressed current_position stage := by
  have hlt := position_lt t current_position stage
  obtain ⟨hshorter, hpos⟩ := shorter_iff (t.array stage) pressed
  unfold IndicesRight PositionFits InRange
  rw [shownIndices_inRange_iff hlt hpos, hshorter]
  have hten : pressed = some 9 ∧ (t.array stage).val = 2 → arr_length (nextArray (t.array stage) pressed) = 10 := by
    rintro ⟨h9, h2⟩
    have htwo : t.array stage = 2 := Fin.ext h2
    rw [h9, htwo]
    rfl
  constructor
  · rintro ⟨-, h0, hleave⟩
    refine ⟨h0, fun h => ?_⟩
    obtain ⟨h1, h2⟩ := hleave h
    have := hten h
    omega
  · rintro ⟨h0, hleave⟩
    refine ⟨fun _ => ⟨h0, hlt⟩, h0, fun h => ?_⟩
    obtain ⟨h1, h2⟩ := hleave h
    have := hten h
    omega

end TextEntry

namespace SetUp

variable {s : SetUp} {irqs : Irqs}

/-- The menu's choice that the iteration shows. -/
def selection (s : SetUp) (irqs : Irqs) : ℤ := (s.shared.interrupts irqs.menu).returnVal.tmod 6

/-- The press that `textInput` takes in the iteration. -/
def pressed (s : SetUp) (irqs : Irqs) : Option ℕ := ((s.turn irqs).shared.takeAny irqs.text).2

/-- The menu's choice is one, or the indices of the call are right. -/
def IterationRight (s : SetUp) (irqs : Irqs) : Prop :=
  (s.stage = 0 → 0 ≤ s.selection irqs ∧ s.selection irqs ≤ 5) ∧
    (s.stage = 1 → s.entry.IndicesRight (s.pressed irqs) (s.turn irqs).i s.ssid_stage)

/-- The count at the menu is not negative or a multiple of 6, and the position of a call fits. -/
def InBounds (s : SetUp) (irqs : Irqs) : Prop :=
  (s.stage = 0 → 0 ≤ (s.shared.interrupts irqs.menu).returnVal ∨ 6 ∣ (s.shared.interrupts irqs.menu).returnVal) ∧
    (s.stage = 1 → s.entry.PositionFits (s.pressed irqs) (s.turn irqs).i s.ssid_stage)

theorem iteration_right_iff (s : SetUp) (irqs : Irqs) : s.IterationRight irqs ↔ s.InBounds irqs := by
  unfold IterationRight InBounds
  rw [TextEntry.indices_right_iff]
  refine and_congr_left fun _ => forall_congr' fun _ => ?_
  rw [← CInt.tmod_nonneg_iff]
  have hlt : s.selection irqs < 6 := Int.tmod_lt_of_pos _ (by decide)
  exact and_iff_left (by omega)

/-! ### Runs -/

/-- Every iteration is in bounds. -/
def Bounded (s : SetUp) : Event → Prop
  | .iterate irqs => s.InBounds irqs
  | .retry _ => True

/-- The choice is one of the menu's. -/
def Chosen (s : SetUp) : Prop := 0 ≤ s.rotvalue ∧ s.rotvalue ≤ 5

theorem chosen_select (h : s.Chosen) (irqs : Irqs) : (s.select irqs).Chosen := by
  have hzero : (0 : ℤ) ≤ 0 ∧ (0 : ℤ) ≤ 5 := by
    decide
  unfold select choose
  dsimp only
  split_ifs
  · exact h
  · exact h
  · exact h
  · exact hzero
  · exact h

theorem rotvalue_checks {t : SetUp} {text : List Byte} (hholds : s.entry.Holds text) (ht : s.checks irqs = some t) :
    t.rotvalue = s.rotvalue := by
  have hshared : ∀ shared, ({ s with shared } : SetUp).entry.Holds text := fun _ => hholds
  unfold checks at ht
  dsimp only at ht
  split at ht
  · obtain ⟨input, entry, -, -, hclear⟩ := clear_eq (hshared (s.shared.takePin 7 true irqs.check7).1)
    cases hclear.symm.trans ht
    rfl
  · split at ht
    · rcases accept_cases (hshared _) ht with ⟨-, entry, ssid, pw, hostname, port, -, -, rfl⟩ | ⟨-, rfl⟩
      · rfl
      · rfl
    · exact Option.some.inj ht ▸ rfl

/-- The call of an iteration, with what it shows. -/
theorem iterate_call {t : SetUp} {shown : Option (Option (List Byte))} (hdone : s.done = false) (hstage : s.stage = 1)
    (ht : s.iterate irqs = some (t, shown)) : ∃ entry call shared t',
      s.entry.textInput (s.pressed irqs) (s.turn irqs).i s.ssid_stage = some (entry, call) ∧ shown = some call ∧
      checks { s.turn irqs with shared, entry } irqs = some t' ∧ t = t'.select irqs := by
  obtain ⟨shared, i, prevval, hturn⟩ := turn_eq s irqs
  rw [iterate_text hdone hstage] at ht
  rw [text_eq] at ht
  obtain ⟨⟨u, call⟩, htext, hrest⟩ := Option.bind_eq_some_iff.mp ht
  obtain ⟨⟨entry, call'⟩, hcall, hu⟩ := Option.map_eq_some_iff.mp htext
  obtain ⟨rfl, rfl⟩ := Prod.mk.inj hu
  obtain ⟨t', hchecks, heq⟩ := Option.map_eq_some_iff.mp hrest
  obtain ⟨rfl, rfl⟩ := Prod.mk.inj heq
  refine ⟨entry, _, _, t', ?_, rfl, hchecks, rfl⟩
  have hsame : (s.turn irqs).entry = s.entry ∧ (s.turn irqs).ssid_stage = s.ssid_stage := by
    rw [hturn]
    exact ⟨rfl, rfl⟩
  rw [← hsame.1, ← hsame.2]
  exact hcall

theorem Chosen.iterate {t : SetUp} {shown : Option (Option (List Byte))} (h : s.Chosen) (hsound : s.Sound)
    (hin : s.InBounds irqs) (ht : s.iterate irqs = some (t, shown)) : t.Chosen := by
  cases hdone : s.done with
  | true => simp [SetUp.iterate, hdone] at ht
  | false =>
    rcases hsound.stage with h0 | h1
    · rw [iterate_menu hdone h0] at ht
      obtain ⟨rfl, -⟩ := Prod.mk.inj (Option.some.inj ht)
      exact chosen_select (by exact ((iteration_right_iff s irqs).mpr hin).1 h0) irqs
    · obtain ⟨entry, call, shared, t', hcall, -, hchecks, rfl⟩ := iterate_call hdone h1 ht
      obtain ⟨text, hholds, -⟩ := hsound.field
      obtain ⟨shared', i, prevval, hturn⟩ := turn_eq s irqs
      have hentry : ({ s.turn irqs with shared, entry } : SetUp).entry.Holds _ := (holds_of_textInput hholds hcall).1
      have hrotvalue := rotvalue_checks hentry hchecks
      rw [hturn] at hrotvalue
      refine chosen_select ?_ irqs
      rw [Chosen, hrotvalue]
      exact h

/-- What an iteration in bounds shows is read from the array. -/
theorem shown_in_bounds {t : SetUp} {shown : Option (List Byte)} (hsound : s.Sound) (hin : s.InBounds irqs)
    (ht : s.iterate irqs = some (t, some shown)) : shown.isSome := by
  cases hdone : s.done with
  | true => simp [SetUp.iterate, hdone] at ht
  | false =>
    rcases hsound.stage with h0 | h1
    · rw [iterate_menu hdone h0] at ht
      cases ht
    · obtain ⟨entry, call, shared, t', hcall, hshown, -⟩ := iterate_call hdone h1 ht
      obtain ⟨text, hholds, -⟩ := hsound.field
      have hty := (TextEntry.textInput_isSome_iff hholds).mp (by rw [hcall]; rfl)
      obtain ⟨entry', hentry, -⟩ := TextEntry.textInput_eq hholds hty
      have hcall' : call = s.entry.shown (s.pressed irqs) (s.turn irqs).i s.ssid_stage :=
        congrArg Prod.snd (Option.some.inj (hcall.symm.trans hentry))
      rw [Option.some.inj hshown, hcall']
      exact TextEntry.shown_isSome_iff.mpr (((iteration_right_iff s irqs).mpr hin).2 h1).2

/-- **When the choice and the indices are right**, in every run of iterations in bounds. -/
theorem indices_in_bounds_iff (hr : Machine.Reach step IsStart Bounded s) :
    s.Chosen ∧ ∀ irqs, (s.IterationRight irqs ↔ s.InBounds irqs) ∧
      ∀ t shown, s.InBounds irqs → s.iterate irqs = some (t, some shown) → shown.isSome := by
  have hzero : (0 : ℤ) ≤ 0 ∧ (0 : ℤ) ≤ 5 := by
    decide
  have hinv : s.Sound ∧ s.Chosen := by
    refine hr.invariant (J := fun s => s.Sound ∧ s.Chosen) (fun s h => ⟨h.sound, ?_⟩) fun s e t h hin hstep => ?_
    · rw [Chosen, h.rotvalue]
      exact hzero
    · cases e with
      | iterate irqs =>
        obtain ⟨⟨t', shown⟩, hiterate, rfl⟩ := Option.map_eq_some_iff.mp hstep
        exact ⟨h.1.iterate hiterate, h.2.iterate h.1 hin hiterate⟩
      | retry meanwhile =>
        simp only [step, Option.ite_none_right_eq_some, Option.some.injEq] at hstep
        obtain ⟨-, rfl⟩ := hstep
        exact ⟨h.1.retry meanwhile, hzero⟩
  exact ⟨hinv.2, fun irqs => ⟨iteration_right_iff s irqs, fun t shown hin ht => shown_in_bounds hinv.1 hin ht⟩⟩

/-! ### A choice and a call -/

instance (s : SetUp) (irqs : Irqs) : Decidable (s.IterationRight irqs) := inferInstanceAs (Decidable (_ ∧ _))

instance (s : SetUp) (irqs : Irqs) : Decidable (s.InBounds irqs) := inferInstanceAs (Decidable (_ ∧ _))

instance (s : SetUp) : DecidablePred (Bounded s)
  | .iterate irqs => inferInstanceAs (Decidable (s.InBounds irqs))
  | .retry _ => .isTrue trivial

/-- The texts are chosen, and a character typed: the next call is in bounds. -/
theorem indices_in_bounds_typing : ∃ s, Machine.run step fresh [choosing, typing 8] = some s ∧ s.Chosen ∧
    s.IterationRight (Irqs.typing 9) := by
  have hrun : (Machine.runIf step Bounded fresh [choosing, typing 8]).any (fun s =>
      decide (s.InBounds (Irqs.typing 9))) = true := by
    decide +kernel
  obtain ⟨s, hs, hin⟩ := (Option.any_eq_true _ _).mp hrun
  obtain ⟨hreach, hs⟩ := Machine.Reach.runIf (.init fresh_isStart) hs
  obtain ⟨hchosen, hright⟩ := indices_in_bounds_iff hreach
  exact ⟨s, hs, hchosen, (hright _).1.mpr (of_decide_eq_true hin)⟩

/-- The encoder one step to the left. -/
def leftEdge : Edge := ⟨10, true, true⟩

/-- **One step to the left in the menu, and the step from the characters to the digits.** -/
theorem indices_out_of_bounds : ¬ fresh.IterationRight { Irqs.quiet with menu := [leftEdge] } ∧
    ∃ s, Machine.run step fresh [choosing, typing 9, typing 9] = some s ∧ ¬ s.IterationRight (Irqs.typing 9) := by
  have hrun : (Machine.run step fresh [choosing, typing 9, typing 9]).any (fun s =>
      decide (¬ s.IterationRight (Irqs.typing 9))) = true := by
    decide +kernel
  obtain ⟨s, hs, hnot⟩ := (Option.any_eq_true _ _).mp hrun
  exact ⟨by decide +kernel, s, hs, of_decide_eq_true hnot⟩

end SetUp
end Ventilation
