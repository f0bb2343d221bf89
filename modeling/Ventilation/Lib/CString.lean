/-
# C strings

A C string is a text of bytes other than NUL with a NUL behind it. Reading one
out of memory stops at the first NUL (`read_append`); where there is none the
read runs out of the memory it was given.
-/
import Mathlib.Data.List.TakeWhile
import Mathlib.Tactic.Common

/-- The text of a C string. -/
structure CString where
  chars : List (BitVec 8)
  no_nul : (0 : BitVec 8) ∉ chars

namespace CString

/-- The bytes of a literal in ASCII. -/
def literal (s : String) : List (BitVec 8) := s.toList.map fun c => .ofNat 8 c.toNat

/-- The string as it lies in memory. -/
def bytes (s : CString) : List (BitVec 8) := s.chars ++ [0]

def strlen (s : CString) : ℕ := s.chars.length

theorem length_bytes (s : CString) : s.bytes.length = s.strlen + 1 := by
  rw [bytes, List.length_append, List.length_singleton, strlen]

/-- The string at the front of a piece of memory, if it ends there. -/
def read (mem : List (BitVec 8)) : Option (List (BitVec 8)) :=
  if 0 ∈ mem then some (mem.takeWhile (· ≠ 0)) else none

/-- Whatever stands behind its NUL. -/
theorem read_append (s : CString) (rest : List (BitVec 8)) :
    read (s.bytes ++ rest) = some s.chars := by
  have hmem : (0 : BitVec 8) ∈ s.bytes ++ rest := by
    rw [bytes, List.append_assoc]
    exact List.mem_append_right _ (List.mem_append_left _ (List.mem_singleton.mpr rfl))
  have hne : ∀ b ∈ s.chars, decide (b ≠ 0) = true := fun b hb =>
    decide_eq_true fun h => s.no_nul (h ▸ hb)
  rw [read, if_pos hmem, bytes, List.append_assoc, List.takeWhile_append_of_pos hne]
  simp

/-- What a piece of memory begins with. -/
theorem read_of_prefix {text mem : List (BitVec 8)} (h0 : 0 ∉ text) (h : text ++ [0] <+: mem) :
    read mem = some text := by
  obtain ⟨rest, hrest⟩ := h
  rw [← hrest]
  exact read_append ⟨text, h0⟩ rest

/-- A string that ends in the front part. -/
theorem read_append_left {l text : List (BitVec 8)} (h : read l = some text) (rest : List (BitVec 8)) :
    read (l ++ rest) = some text := by
  unfold read at h
  split at h
  · rename_i hmem
    have hstop : ¬ (l.takeWhile (· ≠ 0)).length = l.length := by
      intro hlen
      have hall := (List.takeWhile_prefix fun b : BitVec 8 => decide (b ≠ 0)).eq_of_length hlen
      have hne := List.takeWhile_eq_self_iff.mp hall 0 hmem
      exact absurd rfl (of_decide_eq_true hne)
    rw [read, if_pos (List.mem_append_left _ hmem), List.takeWhile_append, if_neg hstop, ← h]
  · cases h

/-- What has no NUL behind a string does not end it. -/
theorem read_of_append {l rest text : List (BitVec 8)} (h0 : 0 ∉ rest) (h : read (l ++ rest) = some text) :
    read l = some text := by
  have hmem : (0 : BitVec 8) ∈ l := by
    by_contra hl
    rw [read, if_neg (by rw [List.mem_append]; exact fun h => h.elim hl h0)] at h
    cases h
  have hl : read l = some (l.takeWhile (· ≠ 0)) := by rw [read, if_pos hmem]
  rw [hl, ← h, read_append_left hl]

end CString
