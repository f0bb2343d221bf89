/-
# Arrays with checked access

A C array of `n` cells is a `Vector α n`. `store` copies a block of cells
into it and `load` reads one out; each is `none` when the block does not lie
inside the array, so that a model built on them fails exactly where the C
code would touch memory behind the array.
-/
import Mathlib.Data.Nat.Notation
import Mathlib.Tactic.Common

namespace Buffer

variable {α : Type*} {n : ℕ}

/-- The block `src` copied to index `i`. -/
def store (b : Vector α n) (i : ℕ) (src : List α) : Option (Vector α n) :=
  if h : i + src.length ≤ n then
    some ⟨(b.toList.take i ++ src ++ b.toList.drop (i + src.length)).toArray, by
      simp only [List.size_toArray, List.length_append, List.length_take, List.length_drop,
        Vector.length_toList]
      omega⟩
  else none

/-- The `len` cells from index `i` on. -/
def load (b : Vector α n) (i len : ℕ) : Option (List α) :=
  if i + len ≤ n then some ((b.toList.drop i).take len) else none

theorem load_eq_some {b : Vector α n} {i len : ℕ} (h : i + len ≤ n) :
    load b i len = some ((b.toList.drop i).take len) := if_pos h

theorem store_isSome (b : Vector α n) {i : ℕ} (src : List α) (h : i + src.length ≤ n) :
    ∃ b', store b i src = some b' := ⟨_, dif_pos h⟩

theorem toList_store {b b' : Vector α n} {i : ℕ} {src : List α} (h : store b i src = some b') :
    i + src.length ≤ n ∧ b'.toList = b.toList.take i ++ src ++ b.toList.drop (i + src.length) := by
  unfold store at h
  split at h
  · rename_i hle
    rw [Option.some.injEq] at h
    subst h
    exact ⟨hle, rfl⟩
  · cases h

/-- A cell of the block is the block's, any other is unchanged. -/
theorem getElem?_store {b b' : Vector α n} {i : ℕ} {src : List α} (h : store b i src = some b')
    (k : ℕ) : b'.toList[k]? = if i ≤ k ∧ k < i + src.length then src[k - i]? else b.toList[k]? := by
  obtain ⟨hle, hb⟩ := toList_store h
  have hi : i ≤ n := by omega
  rw [hb]
  simp only [List.getElem?_append, List.length_append, List.length_take, Vector.length_toList,
    Nat.min_eq_left hi, List.getElem?_take, List.getElem?_drop]
  split_ifs <;> first | rfl | omega | (congr 1; omega)

/-- What was stored is read back. -/
theorem load_store {b b' : Vector α n} {i : ℕ} {src : List α} (h : store b i src = some b') :
    load b' i src.length = some src := by
  obtain ⟨hle, hb⟩ := toList_store h
  have hi : i ≤ n := by omega
  rw [load_eq_some hle, hb]
  simp [Nat.min_eq_left hi]

@[simp] theorem store_nil (b : Vector α n) : store b 0 [] = some b := by
  obtain ⟨c, hc⟩ := store_isSome b (i := 0) [] (Nat.zero_le n)
  have hl := (toList_store hc).2
  rw [hc, Option.some.injEq, ← Vector.toList_inj, hl]
  rfl

/-- Two blocks stored one behind the other are one block. -/
theorem store_append {b b' b'' : Vector α n} {i : ℕ} {l l' : List α} (h : store b i l = some b')
    (h' : store b' (i + l.length) l' = some b'') : store b i (l ++ l') = some b'' := by
  have hle := (toList_store h').1
  obtain ⟨c, hc⟩ := store_isSome b (i := i) (l ++ l') (by rw [List.length_append]; omega)
  rw [hc, Option.some.injEq, ← Vector.toList_inj]
  refine List.ext_getElem? fun k => ?_
  rw [getElem?_store hc, getElem?_store h', getElem?_store h, List.length_append,
    List.getElem?_append]
  split_ifs <;> first | rfl | omega | (congr 1; omega)

/-! ### What an array begins with -/

theorem load_of_prefix {b : Vector α n} {d : List α} (h : d <+: b.toList) :
    load b 0 d.length = some d := by
  have hlen : d.length ≤ n := by
    have := h.length_le
    rwa [Vector.length_toList] at this
  rw [load_eq_some (by omega), List.drop_zero, ← List.prefix_iff_eq_take.mp h]

/-- What is read from the front is what the array begins with. -/
theorem prefix_of_load {b : Vector α n} {len : ℕ} {d : List α} (h : load b 0 len = some d) :
    d <+: b.toList ∧ d.length = len := by
  unfold load at h
  split at h
  · rename_i hle
    rw [List.drop_zero, Option.some.injEq] at h
    subst h
    exact ⟨List.take_prefix _ _, by rw [List.length_take, Vector.length_toList]; omega⟩
  · cases h

/-- A block stored behind what the array begins with. -/
theorem prefix_store {b b' : Vector α n} {d src : List α} (hd : d <+: b.toList)
    (h : store b d.length src = some b') : d ++ src <+: b'.toList := by
  rw [(toList_store h).2, ← List.prefix_iff_eq_take.mp hd]
  exact List.prefix_append _ _

/-- A cell set behind what the array begins with. -/
theorem prefix_set {b : Vector α n} {d : List α} (hd : d <+: b.toList) {i : ℕ} (hi : i = d.length) (hlt : i < n)
    (x : α) : d ++ [x] <+: (b.set i x).toList := by
  subst hi
  obtain ⟨rest, hrest⟩ := hd
  cases rest with
  | nil =>
    have hlen := congrArg List.length hrest
    rw [List.append_nil, Vector.length_toList] at hlen
    omega
  | cons y rest =>
    rw [Vector.toList_set, ← hrest, List.set_append_right _ _ (Nat.le_refl _), Nat.sub_self, List.set_cons_zero]
    exact ⟨rest, (List.append_cons d x rest).symm⟩

end Buffer
