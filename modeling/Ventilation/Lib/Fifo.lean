/-
# Bounded queues and rings

The abstract side is a queue that holds at most `cap` items: `offer` takes
as many of the items offered as fit, in order, and `poll` hands out items
from the front. Over any run what was polled followed by what is queued is
what was accepted (`Hist.run_conserved`).

The concrete side is a ring: `contents b rd k` are the `k` cells of `b` from
index `rd` on, indices modulo the size. A block stored behind the contents
extends them (`contents_store`), and the contents split at any point
(`contents_add`), so a reader may take them in as many parts as it likes.
-/
import Ventilation.Lib.Buffer
import Mathlib.Data.List.Induction
import Mathlib.Data.Nat.ModEq

namespace Fifo

variable {α : Type*}

/-! ### The bounded queue -/

/-- A queue of at most `cap` items. -/
structure Queue (α : Type*) (cap : ℕ) where
  items : List α
  bound : items.length ≤ cap

variable {cap : ℕ}

/-- The part of `xs` the queue has room for. -/
def Queue.accepted (q : Queue α cap) (xs : List α) : List α := xs.take (cap - q.items.length)

/-- The items of `xs` that fit join the queue. -/
def Queue.offer (q : Queue α cap) (xs : List α) : Queue α cap :=
  ⟨q.items ++ q.accepted xs, by
    have := q.bound
    simp only [Queue.accepted, List.length_append, List.length_take]
    omega⟩

/-- The first `n` items, or all if there are fewer. -/
def Queue.front (q : Queue α cap) (n : ℕ) : List α := q.items.take n

/-- The queue without its first `n` items. -/
def Queue.poll (q : Queue α cap) (n : ℕ) : Queue α cap :=
  ⟨q.items.drop n, by have := q.bound; simp only [List.length_drop]; omega⟩

/-- What can be done to a queue. -/
inductive Op (α : Type*)
  | offer (xs : List α)
  | poll (n : ℕ)

/-- A queue with what was accepted into it and what was polled from it. -/
structure Hist (α : Type*) (cap : ℕ) where
  queue : Queue α cap
  accepted : List α
  returned : List α

/-- The empty queue, before anything was done to it. -/
def Hist.empty : Hist α cap := ⟨⟨[], Nat.zero_le _⟩, [], []⟩

def Hist.apply (h : Hist α cap) : Op α → Hist α cap
  | .offer xs => ⟨h.queue.offer xs, h.accepted ++ h.queue.accepted xs, h.returned⟩
  | .poll n => ⟨h.queue.poll n, h.accepted, h.returned ++ h.queue.front n⟩

/-- The history of a list of operations. -/
def Hist.run (ops : List (Op α)) : Hist α cap := ops.foldl Hist.apply Hist.empty

theorem Hist.run_append_singleton (ops : List (Op α)) (op : Op α) :
    (Hist.run (ops ++ [op]) : Hist α cap) = (Hist.run ops).apply op := by
  simp [Hist.run]

/-- Nothing is lost, invented or reordered inside the queue. -/
def Hist.Conserved (h : Hist α cap) : Prop := h.returned ++ h.queue.items = h.accepted

theorem Hist.Conserved.apply {h : Hist α cap} (hc : h.Conserved) (op : Op α) :
    (h.apply op).Conserved := by
  unfold Hist.Conserved at *
  cases op with
  | offer xs => simp only [Hist.apply, Queue.offer, ← List.append_assoc, hc]
  | poll n =>
    simp only [Hist.apply, Queue.poll, Queue.front, List.append_assoc, List.take_append_drop, hc]

/-- Over any run what was polled followed by what is queued is what was
accepted. -/
theorem Hist.run_conserved (ops : List (Op α)) : (Hist.run ops : Hist α cap).Conserved := by
  induction ops using List.reverseRecOn with
  | nil => rfl
  | append_singleton ops op ih =>
    rw [Hist.run_append_singleton]
    exact ih.apply op

/-! ### The ring -/

variable {n : ℕ} [NeZero n]

/-- The `k` cells from index `rd` on, indices modulo the size. -/
def contents (b : Vector α n) (rd k : ℕ) : List α :=
  (List.range k).map fun i => b.get (Fin.ofNat n (rd + i))

@[simp] theorem length_contents (b : Vector α n) (rd k : ℕ) : (contents b rd k).length = k := by
  simp [contents]

theorem contents_add (b : Vector α n) (rd j k : ℕ) :
    contents b rd (j + k) = contents b rd j ++ contents b (rd + j) k := by
  simp only [contents, List.range_add, List.map_append, List.map_map, Function.comp_def,
    Nat.add_assoc]

theorem contents_mod (b : Vector α n) (rd k : ℕ) : contents b (rd % n) k = contents b rd k := by
  refine List.map_congr_left fun i _ => ?_
  congr 1
  apply Fin.ext
  simp [Fin.ofNat]

theorem get_ofNat (b : Vector α n) (i : ℕ) : b.toList[i % n]? = some (b.get (Fin.ofNat n i)) := by
  have h : i % n < n := Nat.mod_lt _ (Nat.pos_of_neZero n)
  rw [List.getElem?_eq_getElem (by simpa using h)]
  simp [Vector.get, Fin.ofNat]

theorem getElem?_contents (b : Vector α n) (rd k i : ℕ) :
    (contents b rd k)[i]? = if i < k then b.toList[(rd + i) % n]? else none := by
  rw [get_ofNat]
  split
  · rename_i h; simp [contents, h]
  · rename_i h; simp [contents, h]

/-- Contents that do not wrap are one block of the array. -/
theorem load_contents (b : Vector α n) {rd k : ℕ} (h : rd + k ≤ n) :
    Buffer.load b rd k = some (contents b rd k) := by
  rw [Buffer.load_eq_some h, Option.some.injEq]
  apply List.ext_getElem?
  intro i
  rw [getElem?_contents]
  by_cases hi : i < k
  · rw [if_pos hi, Nat.mod_eq_of_lt (by omega), List.getElem?_take_of_lt hi, List.getElem?_drop]
  · rw [if_neg hi, List.getElem?_take, if_neg hi]

/-- A block stored outside the contents leaves them. -/
theorem contents_store_of_disjoint {b b' : Vector α n} {w : ℕ} {src : List α}
    (h : Buffer.store b w src = some b') {rd k : ℕ}
    (hd : ∀ i < k, (rd + i) % n < w ∨ w + src.length ≤ (rd + i) % n) :
    contents b' rd k = contents b rd k := by
  apply List.ext_getElem?
  intro i
  rw [getElem?_contents, getElem?_contents]
  by_cases hi : i < k
  · rw [if_pos hi, if_pos hi, Buffer.getElem?_store h, if_neg (by have := hd i hi; omega)]
  · rw [if_neg hi, if_neg hi]

omit [NeZero n] in
/-- The cell behind `k` cells is not one of them, nor are those after it, as
long as the ring is not full. -/
theorem mod_outside {rd k len i : ℕ} (hi : i < k) (hk : k + len ≤ n)
    (hw : (rd + k) % n + len ≤ n) : (rd + i) % n < (rd + k) % n ∨ (rd + k) % n + len ≤ (rd + i) % n := by
  by_contra hc
  push Not at hc
  obtain ⟨h1, h2⟩ := hc
  obtain ⟨d, hd⟩ := Nat.exists_eq_add_of_le h1
  -- then `rd + i` and `rd + k + d` are congruent, and less than `n` apart
  have hmod : (rd + i) % n = (rd + k + d) % n := by
    rw [Nat.add_mod (rd + k) d n, Nat.mod_eq_of_lt (show d < n by omega), ← hd, Nat.mod_mod]
  have hdvd : n ∣ (rd + k + d) - (rd + i) := (Nat.modEq_iff_dvd' (by omega)).mp hmod
  have hle := Nat.le_of_dvd (by omega) hdvd
  omega

/-- A block stored behind the contents extends them. -/
theorem contents_store {b b' : Vector α n} {rd k : ℕ} {src : List α}
    (h : Buffer.store b ((rd + k) % n) src = some b') (hk : k + src.length ≤ n) :
    contents b' rd (k + src.length) = contents b rd k ++ src := by
  have hw := (Buffer.toList_store h).1
  have hnew : contents b' ((rd + k) % n) src.length = src := by
    have h1 := load_contents b' hw
    rw [Buffer.load_store h, Option.some.injEq] at h1
    exact h1.symm
  rw [contents_add, contents_store_of_disjoint h fun i hi => mod_outside hi hk hw,
    ← contents_mod b' (rd + k), hnew]

end Fifo
