/-
# Any payload on the control topic (src/commhandler.cpp)

`message_arrived` reads a C string that begins with the payload, looks up two
members without a check and converts them one after the other.

* `message_handled_iff`: it gets through exactly if that string is a document
  whose first members `auto` and `value` are 32-bit integers; then it sets both controls.
* `leftovers_ignored_iff`: what follows the payload in memory does not matter
  exactly if the payload holds a NUL or nothing that begins with it is such a document.
-/
import Ventilation.Settings

namespace Ventilation

open CInt

/-- A document with the first members `auto` and `value`, both 32-bit integers. -/
def Commands (rj : RapidJson) (text : List Byte) (x y : ℤ) : Prop :=
  ∃ ms, Json.read text = some (.obj ms) ∧ rj.Parse text = .obj ms ∧
    member autoName (.obj ms) = some (.int x) ∧ member valueName (.obj ms) = some (.int y) ∧
    (-2 ^ 31 ≤ x ∧ x < 2 ^ 31) ∧ -2 ^ 31 ≤ y ∧ y < 2 ^ 31

/-- The message gets through, and sets both controls from its members or leaves both alone. -/
def Handled (rj : RapidJson) (c : Controls) (payload : List Byte) : Prop :=
  ∃ c', message_arrived rj c payload = some c' ∧ (c' = c ∨ ∃ text ms x y,
    CString.read payload = some text ∧ Json.read text = some (.obj ms) ∧
    member autoName (.obj ms) = some (.int x) ∧ member valueName (.obj ms) = some (.int y) ∧
    c' = ⟨decide (x = 0), y⟩)

variable {rj : RapidJson} {c c' : Controls}

/-- A value whose members are asked for is an object. -/
theorem obj_of_member {name : List Byte} {v w : Json} (h : member name v = some w) : ∃ ms, v = .obj ms := by
  cases v with
  | obj ms => exact ⟨ms, rfl⟩
  | _ => cases h

/-- Only an integer is converted. -/
theorem int_of_GetInt {v : Json} {x : ℤ} (h : GetInt v = some x) :
    v = .int x ∧ -2 ^ 31 ≤ x ∧ x < 2 ^ 31 := by
  cases v with
  | int z =>
    obtain ⟨rfl, hz⟩ := of_signed? h
    exact ⟨rfl, hz⟩
  | _ => cases h

theorem GetInt_int {x : ℤ} (h : -2 ^ 31 ≤ x ∧ x < 2 ^ 31) : GetInt (.int x) = some x := signed?_eq h.1 h.2

/-- The two members of a document. -/
theorem commands_of_members {text : List Byte} {aut set : Json} {x y : ℤ}
    (haut : member autoName (rj.Parse text) = some aut) (hset : member valueName (rj.Parse text) = some set)
    (hy : GetInt set = some y) (hx : GetInt aut = some x) : Commands rj text x y := by
  obtain ⟨ms, hms⟩ := obj_of_member haut
  have hread : Json.read text = some (.obj ms) := by
    cases hread : Json.read text with
    | none =>
      rw [rj.Parse_malformed text hread] at hms
      cases hms
    | some v =>
      rcases rj.Parse_read text v hread with hv | hv
      · rw [← hv, hms]
      · rw [hv] at hms
        cases hms
  obtain ⟨rfl, hx'⟩ := int_of_GetInt hx
  obtain ⟨rfl, hy'⟩ := int_of_GetInt hy
  rw [hms] at haut hset
  exact ⟨ms, hread, hms, haut, hset, hx', hy'⟩

/-- **What a message does**, whatever its bytes are. -/
theorem message_arrived_iff (payload : List Byte) : message_arrived rj c payload = some c' ↔
    ∃ text x y, CString.read payload = some text ∧ Commands rj text x y ∧ c' = ⟨decide (x = 0), y⟩ := by
  constructor
  · intro h
    obtain ⟨text, htext, h⟩ := Option.bind_eq_some_iff.mp h
    obtain ⟨aut, haut, h⟩ := Option.bind_eq_some_iff.mp h
    obtain ⟨set, hset, h⟩ := Option.bind_eq_some_iff.mp h
    obtain ⟨y, hy, h⟩ := Option.bind_eq_some_iff.mp h
    obtain ⟨x, hx, h⟩ := Option.bind_eq_some_iff.mp h
    exact ⟨text, x, y, htext, commands_of_members haut hset hy hx, (Option.some.inj h).symm⟩
  · rintro ⟨text, x, y, htext, ⟨ms, -, hparse, haut, hset, hx, hy⟩, rfl⟩
    rw [message_arrived, Machine.bind_of htext]
    dsimp only
    rw [hparse, Machine.bind_of haut, Machine.bind_of hset, Machine.bind_of (GetInt_int hy),
      Machine.bind_of (GetInt_int hx)]
    rfl

/-- **When a message is handled**: if what is read is a document with two integers. -/
theorem message_handled_iff (rj : RapidJson) (c : Controls) (payload : List Byte) :
    Handled rj c payload ↔ ∃ text x y, CString.read payload = some text ∧ Commands rj text x y := by
  constructor
  · rintro ⟨c', h, -⟩
    obtain ⟨text, x, y, htext, hcommands, -⟩ := (message_arrived_iff payload).mp h
    exact ⟨text, x, y, htext, hcommands⟩
  · rintro ⟨text, x, y, htext, hcommands⟩
    obtain ⟨ms, hread, -, haut, hset, -⟩ := id hcommands
    exact ⟨⟨decide (x = 0), y⟩, (message_arrived_iff payload).mpr ⟨text, x, y, htext, hcommands, rfl⟩,
      .inr ⟨text, ms, x, y, htext, hread, haut, hset, rfl⟩⟩

/-- The documented message, with a boolean. -/
theorem documented_not_handled : ¬ Handled .documented .initial
    (settingsText [0x66, 0x61, 0x6c, 0x73, 0x65] [0x31, 0x38] ++ [0]) := by
  rintro ⟨c', h, -⟩
  have hnone : message_arrived .documented .initial
      (settingsText [0x66, 0x61, 0x6c, 0x73, 0x65] [0x31, 0x38] ++ [0]) = none := by
    decide +kernel
  rw [hnone] at h
  cases h

/-! ### What follows the payload -/

theorem read_text {text rest : List Byte} (h : 0 ∉ text) : CString.read (text ++ 0 :: rest) = some text := by
  have hread := CString.read_append ⟨text, h⟩ rest
  rwa [CString.bytes, List.append_assoc] at hread

/-- A NUL ends the string, whatever follows. -/
theorem read_of_nul {payload : List Byte} (h : 0 ∈ payload) (rest : List Byte) :
    CString.read (payload ++ rest) = CString.read payload := by
  obtain ⟨text, tail, hno, rfl⟩ : ∃ text tail, (0 : Byte) ∉ text ∧ payload = text ++ 0 :: tail := by
    obtain ⟨text, tail, heq, hno⟩ := List.eq_append_cons_of_mem h
    exact ⟨text, tail, hno, heq⟩
  rw [List.append_assoc, List.cons_append, read_text hno, read_text hno]

/-- Without one, what is read begins with the payload. -/
theorem text_of_read {payload rest text : List Byte} (hno : (0 : Byte) ∉ payload)
    (h : CString.read (payload ++ rest) = some text) : payload <+: text ∧ 0 ∉ text := by
  have hne : ∀ b ∈ payload, decide (b ≠ 0) = true := fun b hb => decide_eq_true fun h0 => hno (h0 ▸ hb)
  rw [CString.read, Option.ite_none_right_eq_some, Option.some.injEq] at h
  obtain ⟨-, rfl⟩ := h
  refine ⟨?_, fun h0 => ?_⟩
  · rw [List.takeWhile_append_of_pos hne]
    exact List.prefix_append _ _
  · have hne := List.mem_takeWhile_imp h0
    simp at hne

/-- An object with a byte behind it is not one. -/
theorem not_commands_append {text : List Byte} {x y : ℤ} : ¬ Commands rj (text ++ [0x21]) x y := by
  rintro ⟨ms, hread, -⟩
  rcases Json.getLast_of_read hread with h | h
  · exact absurd h (by decide)
  · exact absurd h (by decide)

/-- **When the leftovers behind a payload do not matter.** -/
theorem leftovers_ignored_iff (rj : RapidJson) (c : Controls) (payload : List Byte) :
    (∀ r r', 0 ∈ r → 0 ∈ r' → message_arrived rj c (payload ++ r) = message_arrived rj c (payload ++ r')) ↔
      0 ∈ payload ∨ ∀ text x y, payload <+: text → 0 ∉ text → ¬ Commands rj text x y := by
  constructor
  · intro hsame
    by_cases hnul : (0 : Byte) ∈ payload
    · exact .inl hnul
    · right
      rintro text x y ⟨t, rfl⟩ hno hcommands
      have hread : CString.read (payload ++ (t ++ [0])) = some (payload ++ t) := by
        rw [← List.append_assoc]
        exact read_text hno
      have hread' : CString.read (payload ++ (t ++ [0x21, 0])) = some (payload ++ t ++ [0x21]) := by
        have hno' : (0 : Byte) ∉ payload ++ t ++ [0x21] := fun h =>
          (List.mem_append.mp h).elim hno (by decide)
        have hbytes : payload ++ (t ++ [0x21, 0]) = payload ++ t ++ [0x21] ++ 0 :: [] := by simp
        rw [hbytes]
        exact read_text hno'
      -- the same text with a byte behind it
      have harrived := (message_arrived_iff (c := c) _).mpr ⟨_, x, y, hread, hcommands, rfl⟩
      rw [hsame _ (t ++ [0x21, 0]) (by simp) (by simp)] at harrived
      obtain ⟨text, x', y', htext, hcommands', -⟩ := (message_arrived_iff _).mp harrived
      obtain rfl := Option.some.inj (hread'.symm.trans htext)
      exact not_commands_append hcommands'
  · intro hor r r' _ _
    by_cases hnul : (0 : Byte) ∈ payload
    · unfold message_arrived
      rw [read_of_nul hnul, read_of_nul hnul]
    · have hnone : ∀ rest, message_arrived rj c (payload ++ rest) = none := by
        intro rest
        rw [Option.eq_none_iff_forall_ne_some]
        intro c' h
        obtain ⟨text, x, y, htext, hcommands, -⟩ := (message_arrived_iff _).mp h
        obtain ⟨hfront, hno⟩ := text_of_read hnul htext
        exact hor.resolve_left hnul text x y hfront hno hcommands
      rw [hnone r, hnone r']

/-- A message without its NUL, behind a longer one. -/
theorem leftovers_matter :
    message_arrived .documented .initial (settingsText [0x31] [0x34, 0x30] ++ [0]) = some ⟨false, 40⟩ ∧
      message_arrived .documented .initial (settingsText [0x31] [0x34, 0x30] ++ [0x7d, 0]) = none := by
  decide +kernel

end Ventilation
