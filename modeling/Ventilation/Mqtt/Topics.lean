/-
# Filters and topics (isTopicMatched, deliverMessage of MQTTClient.h)

`isTopicMatched` walks along a filter and a name byte by byte. For the filters that MQTT
allows it comes to the rule of levels `MatchesFilled` (`isTopicMatched_iff`): the rule that
brokers follow, but a level that `+` or `#` stands for may not be empty, and `#` does not stand
for nothing. So what `deliverMessage` tests of a handler is as `delivers_iff` says.
-/
import Ventilation.Lib.Topic
import Ventilation.MqttSession

namespace Ventilation
namespace Mqtt

open Topic

/-- A level's text is neither divided nor free. -/
def Plain (t : List Byte) : Prop := 47 ∉ t ∧ 43 ∉ t ∧ 35 ∉ t

/-- A filter: `+` and `#` fill a level, and `#` is the last one. -/
structure TopicFilter where
  levels : List (Level Byte)
  rest : Bool
  plain : ∀ t, .text t ∈ levels → Plain t
  nonempty : levels ≠ [] ∨ rest = true

def levelText : Level Byte → List Byte
  | .text t => t
  | .any => [43]

/-- The levels of a filter, with the last `#`. -/
def levelTexts (rest : Bool) (levels : List (Level Byte)) : List (List Byte) :=
  levels.map levelText ++ if rest then [[35]] else []

/-- As a `subscribe` gives it. -/
def TopicFilter.text (f : TopicFilter) : List Byte := [47].intercalate (levelTexts f.rest f.levels)

/-! ### Level by level -/

/-- What stands behind a level. -/
def behind (ls : List (List Byte)) : List Byte := if ls = [] then [] else 47 :: [47].intercalate ls

theorem intercalate_cons (l : List Byte) (ls : List (List Byte)) : [47].intercalate (l :: ls) = l ++ behind ls := by
  cases ls with
  | nil => simp [behind]
  | cons l' ls => simp [behind]

/-- Behind a level a name ends or goes on with a separator. -/
theorem behind_cases (ls : List (List Byte)) : behind ls = [] ∨ ∃ bs, behind ls = 47 :: bs := by
  unfold behind
  split
  · exact Or.inl rfl
  · exact Or.inr ⟨_, rfl⟩

theorem isTopicMatched_self_cons {f : Byte} (h43 : f ≠ 43) (h35 : f ≠ 35) (curf curn : List Byte) :
    isTopicMatched (f :: curf) (f :: curn) = isTopicMatched curf curn := by
  rw [isTopicMatched, if_neg fun h => h.2 h.1, if_neg fun h => h.2.2 rfl, if_neg h43, if_neg h35]

theorem isTopicMatched_of_ne {f n : Byte} (h43 : f ≠ 43) (h35 : f ≠ 35) (hne : f ≠ n) (curf curn : List Byte) :
    isTopicMatched (f :: curf) (n :: curn) = false := by
  rw [isTopicMatched]
  split
  · rfl
  · rw [if_pos ⟨h43, h35, hne⟩]

/-- Neither stands for a separator. -/
theorem isTopicMatched_separator {f : Byte} (h : f ≠ 47) (curf curn : List Byte) :
    isTopicMatched (f :: curf) (47 :: curn) = false := by
  rw [isTopicMatched, if_pos ⟨rfl, h⟩]

/-- **A text** is compared with the level, and the walk goes on behind both. -/
theorem isTopicMatched_text : ∀ {t l : List Byte}, Plain t → 47 ∉ l → ∀ fs ls : List (List Byte),
    isTopicMatched (t ++ behind fs) (l ++ behind ls) = (decide (t = l) && isTopicMatched (behind fs) (behind ls))
  | [], [], _, _, _, _ => by simp
  | [], n :: l, _, hl, fs, ls => by
    have hn : n ≠ 47 := fun h => hl (h ▸ List.mem_cons_self)
    obtain h | ⟨bs, h⟩ := behind_cases fs
    · rw [h]
      simp [isTopicMatched]
    · rw [h, List.nil_append, List.cons_append, isTopicMatched_of_ne (by decide) (by decide) hn.symm]
      simp
  | f :: t, [], ht, _, fs, ls => by
    have hf : f ≠ 47 := fun h => ht.1 (h ▸ List.mem_cons_self)
    obtain h | ⟨bs, h⟩ := behind_cases ls
    · rw [h]
      simp [isTopicMatched]
    · rw [h, List.nil_append, List.cons_append, isTopicMatched_separator hf]
      simp
  | f :: t, n :: l, ht, hl, fs, ls => by
    have h43 : f ≠ 43 := fun h => ht.2.1 (h ▸ List.mem_cons_self)
    have h35 : f ≠ 35 := fun h => ht.2.2 (h ▸ List.mem_cons_self)
    have ht' : Plain t := ⟨fun h => ht.1 (List.mem_cons_of_mem f h), fun h => ht.2.1 (List.mem_cons_of_mem f h),
      fun h => ht.2.2 (List.mem_cons_of_mem f h)⟩
    have hl' : 47 ∉ l := fun h => hl (List.mem_cons_of_mem n h)
    rw [List.cons_append, List.cons_append]
    by_cases hfn : f = n
    · subst hfn
      rw [isTopicMatched_self_cons h43 h35, isTopicMatched_text ht' hl']
      simp
    · rw [isTopicMatched_of_ne h43 h35 hfn]
      simp [hfn]

theorem dropWhile_level {l : List Byte} (hl : 47 ∉ l) (ls : List (List Byte)) :
    (l ++ behind ls).dropWhile (· ≠ 47) = behind ls := by
  have hall : ∀ n ∈ l, decide (n ≠ 47) = true := fun n hn => decide_eq_true fun h => hl (h ▸ hn)
  rw [List.dropWhile_append_of_pos hall]
  obtain h | ⟨bs, h⟩ := behind_cases ls <;> rw [h] <;> rfl

/-- **`+`** takes the level, if there is anything in it. -/
theorem isTopicMatched_any {l : List Byte} (hl : 47 ∉ l) (fs ls : List (List Byte)) :
    isTopicMatched (43 :: behind fs) (l ++ behind ls) = (decide (l ≠ []) && isTopicMatched (behind fs) (behind ls)) := by
  cases l with
  | nil =>
    obtain h | ⟨bs, h⟩ := behind_cases ls
    · rw [h]
      simp [isTopicMatched]
    · rw [h, List.nil_append, isTopicMatched_separator (by decide)]
      simp
  | cons n l =>
    have hn : n ≠ 47 := fun h => hl (h ▸ List.mem_cons_self)
    rw [List.cons_append, isTopicMatched, if_neg fun h => hn h.1, if_neg fun h => h.1 rfl, if_pos rfl,
      dropWhile_level fun h => hl (List.mem_cons_of_mem n h)]
    simp

/-- **`#`** takes all that is left, if it does not begin with a separator. -/
theorem isTopicMatched_rest {l : List Byte} (hl : 47 ∉ l) (ls : List (List Byte)) :
    isTopicMatched [35] (l ++ behind ls) = decide (l ≠ []) := by
  cases l with
  | nil =>
    obtain h | ⟨bs, h⟩ := behind_cases ls
    · rw [h]
      rfl
    · rw [h, List.nil_append, isTopicMatched_separator (by decide)]
      rfl
  | cons n l =>
    have hn : n ≠ 47 := fun h => hl (h ▸ List.mem_cons_self)
    rw [List.cons_append, isTopicMatched, if_neg fun h => hn h.1, if_neg fun h => h.2.1 rfl, if_neg (by decide), if_pos rfl]
    simp [isTopicMatched]

/-- One level of a filter. -/
theorem isTopicMatched_level {f : Level Byte} (hf : ∀ t, f = .text t → Plain t) {l : List Byte} (hl : 47 ∉ l)
    (fs ls : List (List Byte)) : isTopicMatched (levelText f ++ behind fs) (l ++ behind ls) = true ↔
      f.AcceptsFilled l ∧ isTopicMatched (behind fs) (behind ls) = true := by
  cases f with
  | text t =>
    rw [levelText, isTopicMatched_text (hf t rfl) hl, Bool.and_eq_true, decide_eq_true_iff]
    exact Iff.rfl
  | any =>
    rw [levelText, List.singleton_append, isTopicMatched_any hl, Bool.and_eq_true, decide_eq_true_iff]
    exact Iff.rfl

theorem levelTexts_eq_nil_iff (rest : Bool) (fs : List (Level Byte)) :
    levelTexts rest fs = [] ↔ fs = [] ∧ rest = false := by
  cases rest <;> simp [levelTexts]

theorem TopicFilter.levelTexts_ne_nil (f : TopicFilter) : levelTexts f.rest f.levels ≠ [] := by
  intro h
  obtain ⟨hlevels, hrest⟩ := (levelTexts_eq_nil_iff _ _).mp h
  simpa [hlevels, hrest] using f.nonempty

/-- The levels of a filter against those of a name. -/
theorem isTopicMatched_levels (rest : Bool) : ∀ {fs : List (Level Byte)} {ls : List (List Byte)},
    (∀ t, .text t ∈ fs → Plain t) → (∀ l ∈ ls, 47 ∉ l) →
    (isTopicMatched (behind (levelTexts rest fs)) (behind ls) = true ↔ MatchesFilled rest fs ls)
  | [], [], _, _ => by
    cases rest <;> simp [levelTexts, behind, MatchesFilled, isTopicMatched]
  | [], l :: ls, _, hls => by
    cases rest with
    | false => simp [levelTexts, behind, MatchesFilled, isTopicMatched]
    | true =>
      have hbehind : behind (l :: ls) = 47 :: (l ++ behind ls) := by rw [behind, if_neg (List.cons_ne_nil l ls), intercalate_cons]
      have hfilter : behind (levelTexts true []) = 47 :: [35] := rfl
      rw [hbehind, hfilter, isTopicMatched_self_cons (by decide) (by decide), isTopicMatched_rest (hls l List.mem_cons_self)]
      simp [MatchesFilled]
  | f :: fs, [], _, _ => by
    have hfilter : behind (levelTexts rest (f :: fs)) = 47 :: [47].intercalate (levelTexts rest (f :: fs)) :=
      if_neg ((levelTexts_eq_nil_iff rest (f :: fs)).not.mpr fun h => List.cons_ne_nil f fs h.1)
    rw [hfilter]
    simp [behind, MatchesFilled, isTopicMatched]
  | f :: fs, l :: ls, hfs, hls => by
    have ih := isTopicMatched_levels rest (fun t ht => hfs t (List.mem_cons_of_mem f ht))
      fun k hk => hls k (List.mem_cons_of_mem l hk)
    have hfilter : behind (levelTexts rest (f :: fs)) = 47 :: (levelText f ++ behind (levelTexts rest fs)) := by
      rw [← intercalate_cons]
      rfl
    have hname : behind (l :: ls) = 47 :: (l ++ behind ls) := by rw [behind, if_neg (List.cons_ne_nil l ls), intercalate_cons]
    rw [hfilter, hname, isTopicMatched_self_cons (by decide) (by decide),
      isTopicMatched_level (fun t ht => hfs t (ht ▸ List.mem_cons_self)) (hls l List.mem_cons_self), ih]
    exact Iff.rfl

/-- **`isTopicMatched`, level by level.** -/
theorem isTopicMatched_iff (f : TopicFilter) (name : List Byte) :
    isTopicMatched f.text name = true ↔ MatchesFilled f.rest f.levels (name.splitOn 47) := by
  have hne := f.levelTexts_ne_nil
  have hfilter : behind (levelTexts f.rest f.levels) = 47 :: f.text := if_neg hne
  have hname : behind (name.splitOn 47) = 47 :: name := by
    rw [behind, if_neg (List.splitOn_ne_nil 47 name), List.intercalate_splitOn]
  rw [← isTopicMatched_levels f.rest f.plain (notMem_of_mem_splitOn 47 name), hfilter, hname,
    isTopicMatched_self_cons (by decide) (by decide)]

/-- Its own text is a name that a filter matches. -/
theorem matchesFilled_levelTexts (rest : Bool) : ∀ fs : List (Level Byte), MatchesFilled rest fs (levelTexts rest fs)
  | [] => by cases rest <;> simp [levelTexts, MatchesFilled]
  | .text t :: fs => ⟨rfl, matchesFilled_levelTexts rest fs⟩
  | .any :: fs => ⟨nofun, matchesFilled_levelTexts rest fs⟩

theorem notMem_levelTexts {rest : Bool} {fs : List (Level Byte)} (hfs : ∀ t, .text t ∈ fs → Plain t) :
    ∀ l ∈ levelTexts rest fs, (47 : Byte) ∉ l := by
  intro l hl
  obtain hl | hl := List.mem_append.mp hl
  · obtain ⟨f, hf, rfl⟩ := List.mem_map.mp hl
    cases f with
    | text t => exact (hfs t hf).1
    | any => decide
  · cases rest with
    | false => cases hl
    | true =>
      rw [List.mem_singleton.mp hl]
      decide

/-- So a filter that equals the name is no case of its own. -/
theorem isTopicMatched_self (f : TopicFilter) : isTopicMatched f.text f.text = true := by
  have hne := f.levelTexts_ne_nil
  have hsplit : f.text.splitOn 47 = levelTexts f.rest f.levels := List.splitOn_intercalate 47 (notMem_levelTexts f.plain) hne
  rw [isTopicMatched_iff, hsplit]
  exact matchesFilled_levelTexts f.rest f.levels

/-- **Which handlers a message goes to**: those whose filter matches by the rule that brokers follow, unless a level that
`+` stands for is empty, or none that is not is there for `#`. -/
theorem delivers_iff (f : TopicFilter) (name : List Byte) :
    (f.text = name ∨ isTopicMatched f.text name = true) ↔ Matches f.rest f.levels (name.splitOn 47) ∧
      (∀ p ∈ f.levels.zip (name.splitOn 47), p.1 = .any → p.2 ≠ []) ∧
      (f.rest = true → ∃ l, (name.splitOn 47)[f.levels.length]? = some l ∧ l ≠ []) := by
  have hself : f.text = name → isTopicMatched f.text name = true := by
    rintro rfl
    exact isTopicMatched_self f
  rw [or_iff_right_of_imp hself, isTopicMatched_iff, matchesFilled_iff]

end Mqtt
end Ventilation
