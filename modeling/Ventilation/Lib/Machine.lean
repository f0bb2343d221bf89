/-
# Machines and their runs

A machine is a step function `σ → ε → Option σ`: from a state, an event
leads to at most one state, and `none` says the event cannot happen there
(or, for a machine that can go wrong, that it does). `Reach` is every state
a run arrives at when all its steps meet a condition on the state and the
event; `run` executes a list of events.

An invariant is proved once for the initial states and once for a step
(`Reach.invariant`), and may use an invariant proved before
(`Reach.invariant_of`).
-/
import Mathlib.Data.Option.Basic
import Mathlib.Logic.Basic
import Mathlib.Tactic.Common

namespace Machine

/-- A step of a `do` block whose result is known. -/
theorem bind_of {α β : Type _} {x : Option α} {a : α} (h : x = some a) (f : α → Option β) :
    (x >>= f) = f a := by
  rw [h]
  exact Option.bind_some a f

variable {σ ε : Type*} (step : σ → ε → Option σ)

/-- The events in order; `none` as soon as one cannot happen. -/
def run : σ → List ε → Option σ
  | s, [] => some s
  | s, e :: es => (step s e).bind fun t => run t es

/-- The states of the runs from `I` whose steps all meet `P`. -/
inductive Reach (I : σ → Prop) (P : σ → ε → Prop) : σ → Prop
  | init {s : σ} : I s → Reach I P s
  | step {s t : σ} {e : ε} : Reach I P s → P s e → step s e = some t → Reach I P t

/-- The events in order, as long as each meets the condition where it happens. -/
def runIf (P : σ → ε → Prop) [∀ s e, Decidable (P s e)] : σ → List ε → Option σ
  | s, [] => some s
  | s, e :: es => if P s e then (step s e).bind fun t => runIf P t es else none

/-- The condition every step meets. -/
def Always (_ : σ) (_ : ε) : Prop := True

variable {step} {I : σ → Prop} {P : σ → ε → Prop} {J : σ → Prop} {s t : σ}

@[simp] theorem run_nil : run step s [] = some s := rfl

@[simp] theorem run_cons (e : ε) (es : List ε) :
    run step s (e :: es) = (step s e).bind fun t => run step t es := rfl

/-- An invariant holds in the initial states and a step keeps it. -/
theorem Reach.invariant (h : Reach step I P s) (h0 : ∀ s, I s → J s)
    (hs : ∀ s e t, J s → P s e → step s e = some t → J t) : J s := by
  induction h with
  | init hI => exact h0 _ hI
  | step _ hP hst ih => exact hs _ _ _ ih hP hst

/-- A step may use an invariant proved before. -/
theorem Reach.invariant_of {K : σ → Prop} (h : Reach step I P s)
    (h' : ∀ s, Reach step I P s → K s) (h0 : ∀ s, I s → J s)
    (hs : ∀ s e t, K s → J s → P s e → step s e = some t → J t) : J s := by
  induction h with
  | init hI => exact h0 _ hI
  | step hr hP hst ih => exact hs _ _ _ (h' _ hr) ih hP hst

/-- Where none of these events goes wrong, the list does not. -/
theorem run_of_mem (step : σ → ε → Option σ) :
    ∀ (es : List ε) {s : σ}, (∀ s, ∀ e ∈ es, J s → ∃ t, step s e = some t ∧ J t) → J s →
      ∃ t, Machine.run step s es = some t ∧ J t
  | [], s, _, h => ⟨s, rfl, h⟩
  | e :: es, s, hs, h => by
    obtain ⟨u, hu, h⟩ := hs s e List.mem_cons_self h
    rw [run_cons, hu, Option.bind_some]
    exact run_of_mem step es (fun s e' he' => hs s e' (List.mem_cons_of_mem e he')) h

/-- Where no event goes wrong, no list of events does. -/
theorem run_of_total (step : σ → ε → Option σ) (hs : ∀ s e, J s → ∃ t, step s e = some t ∧ J t)
    (es : List ε) {s : σ} (h : J s) : ∃ t, Machine.run step s es = some t ∧ J t :=
  run_of_mem step es (fun s e _ => hs s e) h

/-- Every event of a list that does not go wrong happened in a state of the run. -/
theorem step_of_run (step : σ → ε → Option σ) (hs : ∀ s e t, J s → step s e = some t → J t) :
    ∀ {es : List ε} {s t : σ}, J s → Machine.run step s es = some t →
      ∀ e ∈ es, ∃ u v, J u ∧ step u e = some v
  | [], _, _, _, _, _, he => absurd he List.not_mem_nil
  | e' :: es, s, t, h, hr, e, he => by
    rw [run_cons, Option.bind_eq_some_iff] at hr
    obtain ⟨u, hu, hr⟩ := hr
    rcases List.mem_cons.mp he with rfl | he
    · exact ⟨s, u, h, hu⟩
    · exact step_of_run step hs (hs s e' u h hu) hr e he

theorem run_singleton (step : σ → ε → Option σ) (s : σ) (e : ε) : Machine.run step s [e] = step s e :=
  Option.bind_fun_some (step s e)

theorem run_append (step : σ → ε → Option σ) (s : σ) (es es' : List ε) :
    Machine.run step s (es ++ es') = (Machine.run step s es).bind fun t => Machine.run step t es' := by
  induction es generalizing s with
  | nil => rfl
  | cons e es ih =>
    rw [List.cons_append, run_cons, run_cons, Option.bind_assoc]
    exact congrArg _ (funext ih)

/-- Steps that do nothing may be left out. -/
theorem run_filter (step : σ → ε → Option σ) (p : ε → Bool) (h : ∀ s e, p e = false → step s e = some s)
    (s : σ) (es : List ε) : Machine.run step s (es.filter p) = Machine.run step s es := by
  induction es generalizing s with
  | nil => rfl
  | cons e es ih =>
    by_cases hp : p e = true
    · rw [List.filter_cons_of_pos hp, run_cons, run_cons]
      exact congrArg _ (funext ih)
    · rw [List.filter_cons_of_neg hp, run_cons, h s e (by simpa using hp), Option.bind_some, ih]

/-- What `run` computes is reached, by events that meet the condition wherever
they happen. -/
theorem Reach.run : ∀ {es : List ε} {s t : σ}, Reach step I P s → (∀ e ∈ es, ∀ u, P u e) →
    Machine.run step s es = some t → Reach step I P t
  | [], s, t, h, _, hr => by
    rw [run_nil, Option.some.injEq] at hr
    exact hr ▸ h
  | e :: es, s, t, h, hP, hr => by
    rw [run_cons, Option.bind_eq_some_iff] at hr
    obtain ⟨u, hu, hr⟩ := hr
    exact Reach.run (.step h (hP e List.mem_cons_self s) hu)
      (fun e' he' => hP e' (List.mem_cons_of_mem e he')) hr

/-- What `runIf` computes is reached, and `run` computes it. -/
theorem Reach.runIf [∀ s e, Decidable (P s e)] : ∀ {es : List ε} {s t : σ}, Reach step I P s →
    Machine.runIf step P s es = some t → Reach step I P t ∧ Machine.run step s es = some t
  | [], s, t, h, hr => by
    rw [Machine.runIf, Option.some.injEq] at hr
    exact ⟨hr ▸ h, congrArg some hr⟩
  | e :: es, s, t, h, hr => by
    rw [Machine.runIf] at hr
    split at hr
    · rename_i hP
      obtain ⟨u, hu, hr⟩ := Option.bind_eq_some_iff.mp hr
      obtain ⟨ht, hrun⟩ := Reach.runIf (.step h hP hu) hr
      exact ⟨ht, by rw [run_cons, hu, Option.bind_some, hrun]⟩
    · cases hr

end Machine
