/-
# Pictures painted layer by layer

A picture is a set of lit places. A layer lights the places of its shape or puts them out, and layers are
painted one over the other (`painted`). At a place only the last layer that is there counts
(`painted_split`); one that is everywhere hides what was there before (`painted_congr`).
-/
import Mathlib.Logic.Basic
import Mathlib.Tactic.Common

namespace Layers

variable {α : Type*}

structure Layer (α : Type*) where
  shape : α → Prop
  lit : Bool

/-- A layer over a picture. -/
def overlay (picture : α → Prop) (l : Layer α) : α → Prop := fun a => (l.shape a ∧ l.lit = true) ∨ (¬ l.shape a ∧ picture a)

/-- Layers over a picture, the last one on top. -/
def painted (picture : α → Prop) (ls : List (Layer α)) : α → Prop := ls.foldl overlay picture

variable {picture picture' : α → Prop} {l : Layer α} {ls below above : List (Layer α)} {a : α}

@[simp] theorem painted_nil : painted picture [] = picture := rfl

theorem painted_cons (picture : α → Prop) (l : Layer α) (ls : List (Layer α)) :
    painted picture (l :: ls) = painted (overlay picture l) ls := rfl

theorem painted_append (picture : α → Prop) (below above : List (Layer α)) :
    painted picture (below ++ above) = painted (painted picture below) above := List.foldl_append

theorem overlay_of_mem (h : l.shape a) : overlay picture l a ↔ l.lit = true := by
  simp [overlay, h]

theorem overlay_of_notMem (h : ¬ l.shape a) : overlay picture l a ↔ picture a := by
  simp [overlay, h]

theorem overlay_congr (h : ¬ l.shape a → (picture a ↔ picture' a)) : overlay picture l a ↔ overlay picture' l a :=
  or_congr_right (and_congr_right h)

/-- What was there before counts only where no layer is. -/
theorem painted_congr (h : (∀ l ∈ ls, ¬ l.shape a) → (picture a ↔ picture' a)) :
    painted picture ls a ↔ painted picture' ls a := by
  induction ls generalizing picture picture' with
  | nil => exact h fun l hl => absurd hl List.not_mem_nil
  | cons l ls ih =>
    apply ih
    intro hls
    apply overlay_congr
    intro hl
    apply h
    simpa [hl] using hls

/-- Where no layer is, the picture stays. -/
theorem painted_outside (h : ∀ l ∈ ls, ¬ l.shape a) : painted picture ls a ↔ picture a := by
  induction ls generalizing picture with
  | nil => exact Iff.rfl
  | cons l ls ih =>
    rw [painted_cons, ih fun k hk => h k (List.mem_cons_of_mem l hk)]
    exact overlay_of_notMem (h l List.mem_cons_self)

/-- At a place where only one of them may be, the others do not count. -/
theorem painted_split (hbelow : ∀ k ∈ below, ¬ k.shape a) (habove : ∀ k ∈ above, ¬ k.shape a) :
    painted picture (below ++ l :: above) a ↔ overlay picture l a := by
  rw [painted_append, painted_cons, painted_outside habove]
  exact overlay_congr fun _ => painted_outside hbelow

/-- Layers that light up their shapes. -/
theorem painted_lit (h : ∀ l ∈ ls, l.lit = true) : painted picture ls a ↔ picture a ∨ ∃ l ∈ ls, l.shape a := by
  induction ls generalizing picture with
  | nil => simp
  | cons l ls ih =>
    rw [painted_cons, ih fun k hk => h k (List.mem_cons_of_mem l hk)]
    have hl := h l List.mem_cons_self
    by_cases hshape : l.shape a
    · simp [overlay, hl, hshape]
    · simp [overlay, hshape]

end Layers
