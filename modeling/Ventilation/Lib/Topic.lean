/-
# Topics and their filters

A topic is a list of levels. A filter gives its levels one by one, each by its text or free,
and may leave it at any further levels. `Matches` is the rule that brokers follow, and
`MatchesFilled` the narrower one under which what is free may not be empty; the two differ as
`matchesFilled_iff` says.
-/
import Mathlib.Data.List.Basic
import Mathlib.Tactic.Common

namespace Topic

variable {α : Type*}

/-- The parts of a split list are without the separator. -/
theorem notMem_of_mem_splitOn [DecidableEq α] (a : α) : ∀ xs : List α, ∀ l ∈ xs.splitOn a, a ∉ l
  | [] => by simp
  | x :: xs => by
    have ih := notMem_of_mem_splitOn a xs
    rw [List.splitOn_cons_eq_if_modifyHead]
    by_cases hx : x = a
    · rw [if_pos (by simpa using hx)]
      simpa using ih
    · rw [if_neg (by simpa using hx)]
      cases hsplit : xs.splitOn a with
      | nil => simp
      | cons l ls =>
        rw [hsplit] at ih
        simpa [Ne.symm hx] using ih

/-- One level of a filter. -/
inductive Level (α : Type*)
  | text (t : List α)
  | any

def Level.Accepts : Level α → List α → Prop
  | .text t, l => t = l
  | .any, _ => True

/-- No free level is empty. -/
def Level.AcceptsFilled : Level α → List α → Prop
  | .text t, l => t = l
  | .any, l => l ≠ []

/-- `rest` leaves any further levels free, if there are any. -/
def Matches (rest : Bool) : List (Level α) → List (List α) → Prop
  | [], ls => rest = true ∨ ls = []
  | _ :: _, [] => False
  | f :: fs, l :: ls => f.Accepts l ∧ Matches rest fs ls

/-- Further levels there must be, and the first of them is not empty. -/
def MatchesFilled (rest : Bool) : List (Level α) → List (List α) → Prop
  | [], ls => if rest then ∃ l ls', ls = l :: ls' ∧ l ≠ [] else ls = []
  | _ :: _, [] => False
  | f :: fs, l :: ls => f.AcceptsFilled l ∧ MatchesFilled rest fs ls

theorem Level.acceptsFilled_iff (f : Level α) (l : List α) : f.AcceptsFilled l ↔ f.Accepts l ∧ (f = .any → l ≠ []) := by
  cases f with
  | text t => simp [AcceptsFilled, Accepts]
  | any => simp [AcceptsFilled, Accepts]

/-- **How the rules differ.** -/
theorem matchesFilled_iff (rest : Bool) : ∀ (fs : List (Level α)) (ls : List (List α)),
    MatchesFilled rest fs ls ↔ Matches rest fs ls ∧ (∀ p ∈ fs.zip ls, p.1 = .any → p.2 ≠ []) ∧
      (rest = true → ∃ l, ls[fs.length]? = some l ∧ l ≠ [])
  | [], ls => by
    cases rest with
    | false => simp [MatchesFilled, Matches]
    | true => cases ls <;> simp [MatchesFilled, Matches]
  | f :: fs, [] => by simp [MatchesFilled, Matches]
  | f :: fs, l :: ls => by
    have ih := matchesFilled_iff rest fs ls
    simp only [MatchesFilled, Matches, Level.acceptsFilled_iff, ih, List.zip_cons_cons, List.forall_mem_cons,
      List.length_cons, List.getElem?_cons_succ]
    tauto

end Topic
