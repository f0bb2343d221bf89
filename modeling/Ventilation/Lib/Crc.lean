/-
# Checksum registers of two bytes

The register of a CRC takes a byte, looks something up with that byte and the
one it shifts out, and mixes the result into what is left. For a frame that
carries its own checksum only one thing about the lookup matters: it brings
nothing in (the place shifted to stays vacant) exactly if the byte taken is
the one shifted out. Then the two bytes behind a message that make the
register 0 are the two it shifts out, and no others (`check_iff`).
-/
import Mathlib.Tactic.Common

structure CrcRegister (α β : Type*) where
  step : α → β → α
  /-- The byte the next step shifts out. -/
  out : α → β
  shift : α → α
  zero : α
  Vacant : α → Prop
  vacant_step : ∀ c d, Vacant (step c d) ↔ d = out c
  step_out : ∀ c, step c (out c) = shift c
  vacant_zero : Vacant zero
  vacant_of_shift : ∀ c, shift c = zero → Vacant c
  shift_shift : ∀ c, shift (shift c) = zero

namespace CrcRegister

variable {α β : Type*} (R : CrcRegister α β)

/-- The register after a message. -/
def run (init : α) (d : List β) : α := d.foldl R.step init

theorem run_append (init : α) (d e : List β) : R.run init (d ++ e) = R.run (R.run init d) e :=
  List.foldl_append

/-- The two bytes that make the register 0. -/
theorem pair_iff (c : α) (a b : β) : R.run c [a, b] = R.zero ↔ a = R.out c ∧ b = R.out (R.shift c) := by
  simp only [run, List.foldl_cons, List.foldl_nil]
  constructor
  · intro h
    have hb : b = R.out (R.step c a) := (R.vacant_step _ _).mp (h ▸ R.vacant_zero)
    rw [hb, R.step_out] at h
    have ha : a = R.out c := (R.vacant_step _ _).mp (R.vacant_of_shift _ h)
    exact ⟨ha, by rw [hb, ha, R.step_out]⟩
  · rintro ⟨rfl, rfl⟩
    rw [R.step_out, R.step_out, R.shift_shift]

/-- **What a message has to carry** for the register to end at 0. -/
theorem check_iff (init : α) (d : List β) (a b : β) :
    R.run init (d ++ [a, b]) = R.zero ↔
      a = R.out (R.run init d) ∧ b = R.out (R.shift (R.run init d)) := by
  rw [run_append, pair_iff]

end CrcRegister
