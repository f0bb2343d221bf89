/-
# Pictures assigned place by place

A picture gives every place a value. A walk over a list of places assigns
to each what the picture drawn so far has for it (`assign`), as a loop that draws in place
does. If no place is given what an earlier one of the list has changed, the
walk might as well look at the picture before it (`assign_eq`).

A machine that shows a picture, and whose every step shows what is assigned, shows in the end
what the walk has assigned (`run_assign`).
-/
import Mathlib.Data.List.Basic
import Mathlib.Logic.Function.Basic
import Ventilation.Lib.Machine

namespace Picture

variable {α β : Type*} [DecidableEq α]

/-- One place gets what there is for it, if anything. -/
def put (g : (α → β) → α → Option β) (picture : α → β) (a : α) : α → β :=
  Function.update picture a ((g picture a).getD (picture a))

/-- A walk over places. -/
def assign (g : (α → β) → α → Option β) (picture : α → β) (l : List α) : α → β := l.foldl (put g) picture

variable {g : (α → β) → α → Option β} {picture : α → β} {l : List α}

theorem assign_nil : assign g picture [] = picture := rfl

theorem assign_cons (a : α) : assign g picture (a :: l) = assign g (put g picture a) l := rfl

theorem put_self (a : α) : put g picture a a = (g picture a).getD (picture a) := Function.update_self ..

theorem put_of_ne {a b : α} (h : b ≠ a) : put g picture a b = picture b := Function.update_of_ne h ..

/-- What is given to a place does not depend on the value of another. -/
def Ignores (g : (α → β) → α → Option β) (b a : α) : Prop :=
  ∀ picture c, g (Function.update picture a c) b = g picture b

/-- **Walks that do not look at what they have changed** assign from the picture before them. -/
theorem assign_eq (h : l.Pairwise fun a b => Ignores g b a) (picture : α → β) (a : α) :
    assign g picture l a = if a ∈ l then (g picture a).getD (picture a) else picture a := by
  induction l generalizing picture with
  | nil => simp [assign_nil]
  | cons b l ih =>
    obtain ⟨hb, hl⟩ := List.pairwise_cons.mp h
    rw [assign_cons, ih hl]
    by_cases hab : a = b
    · subst hab
      by_cases hal : a ∈ l
      · have hsame : g (put g picture a) a = g picture a := hb a hal picture _
        simp only [hal, if_true, List.mem_cons_self, hsame, put_self]
        cases g picture a <;> rfl
      · simp [hal, put_self]
    · rw [put_of_ne hab]
      by_cases hal : a ∈ l
      · have hsame : g (put g picture b) a = g picture a := hb a hal picture _
        simp [hal, hsame]
      · simp [hal, hab]

/-- **A machine that shows every assignment shows the walk.** -/
theorem run_assign {σ : Type*} (step : σ → α → Option σ) (g : (α → β) → α → Option β)
    (Shows : σ → (α → β) → Prop) : ∀ (l : List α) {s : σ} {picture : α → β},
      (∀ s picture, ∀ a ∈ l, Shows s picture → ∃ t, step s a = some t ∧ Shows t (put g picture a)) →
      Shows s picture → ∃ t, Machine.run step s l = some t ∧ Shows t (assign g picture l)
  | [], s, _, _, h => ⟨s, rfl, h⟩
  | a :: l, s, picture, hstep, h => by
    obtain ⟨u, hu, h⟩ := hstep s picture a List.mem_cons_self h
    rw [Machine.run_cons, hu, Option.bind_some]
    exact run_assign step g Shows l (fun s picture b hb => hstep s picture b (List.mem_cons_of_mem a hb)) h

end Picture
