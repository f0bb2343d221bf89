/-
# Reading in order

Two ways of reading elements in order. A `Reader` walks along a buffer that lies in
memory, and fails where it would leave it. A `Reading` asks a source for so many elements
at a time and goes on with what it gets, which may be fewer.

* `Consumes`: a reader consumes `bs` for `a`, with `rest` behind it. It composes along `do` (`Consumes.bind`).
* `Supplied.run`: what a reading does on a list of elements it does with every source that
  supplies them in time.
* `line_cases`: on a line with pauses, what is expected comes in one piece, or a pause cuts it in two.
-/
import Mathlib.Data.Int.Notation
import Mathlib.Data.List.ReduceOption
import Mathlib.Tactic.Common

namespace Wire

variable {α β γ σ : Type}

/-! ### Along a buffer -/

/-- The state is what the buffer holds from the present position on. -/
abbrev Reader (β α : Type) := StateT (List β) Option α

namespace Reader

def next : Reader β β
  | [] => none
  | b :: bs => some (b, bs)

/-- The next `n`. -/
def take (n : ℕ) : Reader β (List β) := fun bs => if n ≤ bs.length then some (bs.take n, bs.drop n) else none

/-- How far ahead a position is, which is given by its distance from the end of the buffer. -/
def ahead (stop : ℤ) : Reader β ℤ := fun bs => some (bs.length - stop, bs)

end Reader

open Reader

/-- The reader takes `bs` for `a`, where `rest` stands behind it. -/
def Consumes (r : Reader β α) (rest bs : List β) (a : α) : Prop := r (bs ++ rest) = some (a, rest)

variable {r : Reader β α} {f : α → Reader β γ} {a : α} {c : γ} {bs cs rest : List β}

theorem consumes_pure (a : α) (rest : List β) : Consumes (pure a) rest [] a := rfl

theorem bind_apply (r : StateT σ Option α) (f : α → StateT σ Option γ) (s : σ) :
    (r >>= f) s = (r s).bind fun p => f p.1 p.2 := rfl

theorem lift_apply {x : Option α} (h : x = some a) (s : σ) : (liftM x : StateT σ Option α) s = some (a, s) := by
  subst h
  rfl

/-- **One after the other.** -/
theorem Consumes.bind (h : Consumes r (cs ++ rest) bs a) (h' : Consumes (f a) rest cs c) :
    Consumes (r >>= f) rest (bs ++ cs) c := by
  unfold Consumes at h h' ⊢
  rw [bind_apply, List.append_assoc, h]
  exact h'

/-- What comes after it starts behind it. -/
theorem Consumes.bind_apply (h : Consumes r rest bs a) (f : α → Reader β γ) : (r >>= f) (bs ++ rest) = f a rest := by
  unfold Consumes at h
  rw [Wire.bind_apply, h, Option.bind_some]

/-- What reads nothing can stand in front. -/
theorem Consumes.bind_nil (h : Consumes r (cs ++ rest) [] a) (h' : Consumes (f a) rest cs c) : Consumes (r >>= f) rest cs c :=
  h.bind h'

/-- Or behind. -/
theorem Consumes.bind_last (h : Consumes r rest bs a) (h' : Consumes (f a) rest [] c) : Consumes (r >>= f) rest bs c := by
  have hboth : Consumes (r >>= f) rest (bs ++ []) c := h.bind h'
  rwa [List.append_nil] at hboth

theorem consumes_get (rest : List β) : Consumes (get : Reader β (List β)) rest [] rest := rfl

theorem consumes_lift {x : Option α} (h : x = some a) (rest : List β) : Consumes (liftM x) rest [] a := lift_apply h rest

theorem consumes_next (b : β) (rest : List β) : Consumes next rest [b] b := rfl

theorem consumes_take (bs rest : List β) : Consumes (take bs.length) rest bs bs := by
  unfold Consumes take
  rw [if_pos (by simp), List.take_left, List.drop_left]

theorem consumes_ahead (stop : ℤ) (rest : List β) : Consumes (ahead stop) rest [] (rest.length - stop) := rfl

/-! ### Items one after the other -/

/-- Why no more items are read: the end is there, or there is no room for another, or it is broken. -/
inductive Ending
  | stop | full | broken
  deriving DecidableEq

/-- Items behind those of `acc` up to a position, `left` at most. -/
def Reader.items (item : Reader β (Option α)) (stop : ℤ) : ℕ → List α → Reader β (Ending × List α)
  | left, acc => do
    if 0 < (← Reader.ahead stop) then
      match left with
      | 0 => return (.full, acc)
      | left + 1 =>
        match ← item with
        | none => return (.broken, acc)
        | some a => items item stop left (acc ++ [a])
    else return (.stop, acc)

section Items

variable {ι : Type} {item : Reader β (Option α)} {enc : ι → List β} {val : ι → α} {stop : ℤ}

/-- At the end, reading stops. -/
theorem items_stop (item : Reader β (Option α)) (left : ℕ) (acc : List α) (rest : List β) :
    Consumes (items item rest.length left acc) rest [] (.stop, acc) := by
  unfold items
  refine (consumes_ahead _ rest).bind_nil ?_
  rw [Int.sub_self, if_neg (Int.lt_irrefl 0)]
  exact consumes_pure _ rest

theorem length_pos_ahead (hne : bs ≠ []) (rest : List β) : (0 : ℤ) < ((bs ++ rest).length : ℤ) - rest.length := by
  have hpos := List.length_pos_iff.mpr hne
  rw [List.length_append]
  push_cast
  omega

/-- Before it, an item is read and the rest behind it. -/
theorem items_cons (hitem : Consumes item rest bs (some a)) (hne : bs ≠ []) {tail : List β} (hrest : rest = cs ++ tail)
    (left : ℕ) (acc : List α) {r : Ending × List α} (h : Consumes (items item tail.length left (acc ++ [a])) tail cs r) :
    Consumes (items item tail.length (left + 1) acc) tail (bs ++ cs) r := by
  subst hrest
  have hpos : (0 : ℤ) < ((bs ++ cs ++ tail).length : ℤ) - tail.length := length_pos_ahead (by simp [hne]) tail
  rw [items]
  refine (consumes_ahead _ _).bind_nil ?_
  rw [if_pos hpos]
  exact hitem.bind h

/-- Where there is no room for another, nothing more is read. -/
theorem items_full (item : Reader β (Option α)) (acc : List α) (hne : bs ≠ []) (rest : List β) :
    items item rest.length 0 acc (bs ++ rest) = some ((.full, acc), bs ++ rest) := by
  have h : Consumes (items item rest.length 0 acc) (bs ++ rest) [] (.full, acc) := by
    rw [items]
    refine (consumes_ahead _ _).bind_nil ?_
    rw [List.nil_append, if_pos (length_pos_ahead hne rest)]
    exact consumes_pure _ _
  exact h

/-- **Items are read back**, as many as there is room for. -/
theorem consumes_items (hne : ∀ i, enc i ≠ []) (rest : List β) : ∀ (is : List ι),
    (∀ i ∈ is, ∀ tail, Consumes item (tail ++ rest) (enc i) (some (val i))) → ∀ (left : ℕ) (acc : List α),
    is.length ≤ left → Consumes (items item rest.length left acc) rest (is.flatMap enc) (.stop, acc ++ is.map val)
  | [], _, left, acc, _ => by
    rw [List.map_nil, List.append_nil]
    exact items_stop item left acc rest
  | i :: is, hitem, 0, acc, hlen => absurd hlen (Nat.not_succ_le_zero _)
  | i :: is, hitem, left + 1, acc, hlen => by
    have ih := consumes_items hne rest is (fun j hj => hitem j (List.mem_cons_of_mem i hj)) left (acc ++ [val i])
      (Nat.le_of_succ_le_succ hlen)
    rw [List.append_assoc, List.singleton_append, ← List.map_cons] at ih
    rw [List.flatMap_cons]
    exact items_cons (hitem i List.mem_cons_self _) (hne i) rfl left acc ih

/-- **Too many are not read to their end.** -/
theorem items_full_of_lt (hne : ∀ i, enc i ≠ []) (rest : List β) : ∀ (is : List ι),
    (∀ i ∈ is, ∀ tail, Consumes item (tail ++ rest) (enc i) (some (val i))) → ∀ (left : ℕ) (acc : List α),
    left < is.length → items item rest.length left acc (is.flatMap enc ++ rest) =
      some ((.full, acc ++ (is.take left).map val), (is.drop left).flatMap enc ++ rest)
  | [], _, left, _, hlen => absurd hlen (Nat.not_lt_zero left)
  | i :: is, _, 0, acc, _ => by
    have hflat : (i :: is).flatMap enc ≠ [] := by simp [hne i]
    rw [items_full item acc hflat rest]
    simp
  | i :: is, hitem, left + 1, acc, hlen => by
    have ih := items_full_of_lt hne rest is (fun j hj => hitem j (List.mem_cons_of_mem i hj)) left (acc ++ [val i])
      (Nat.lt_of_succ_lt_succ hlen)
    have hpos : (0 : ℤ) < ((enc i ++ (is.flatMap enc ++ rest)).length : ℤ) - rest.length := by
      rw [← List.append_assoc]
      exact length_pos_ahead (by simp [hne i]) rest
    rw [List.flatMap_cons, List.append_assoc, items, Wire.bind_apply, Reader.ahead, Option.bind_some, if_pos hpos]
    rw [(hitem i List.mem_cons_self _).bind_apply]
    dsimp only
    rw [ih, List.take_succ_cons, List.map_cons, List.drop_succ_cons, List.append_assoc, List.singleton_append]

end Items

/-! ### From a source -/

/-- A computation that asks for elements, and may fail. -/
inductive Reading (β α : Type)
  | done (a : α)
  | fail
  | read (n : ℕ) (k : List β → Reading β α)

namespace Reading

def bind : Reading β α → (α → Reading β γ) → Reading β γ
  | done a, f => f a
  | fail, _ => fail
  | read n k, f => read n fun bs => (k bs).bind f

instance : Monad (Reading β) where
  pure := done
  bind := bind

/-- The next `n`. -/
def take (n : ℕ) : Reading β (List β) := read n done

def ofOption : Option α → Reading β α
  | none => fail
  | some a => done a

instance : MonadLift Option (Reading β) := ⟨ofOption⟩

/-- Run with a source, which may fail, too. -/
def run (get : ℕ → StateT σ Option (List β)) : Reading β α → StateT σ Option α
  | done a => pure a
  | fail => fun _ => none
  | read n k => get n >>= fun bs => (k bs).run get

variable (get : ℕ → StateT σ Option (List β))

@[simp] theorem run_pure (a : α) : (pure a : Reading β α).run get = pure a := rfl

@[simp] theorem run_take (n : ℕ) : (take n).run get = get n := bind_pure (get n)

@[simp] theorem run_lift (x : Option α) : (liftM x : Reading β α).run get = liftM x := by
  cases x <;> rfl

@[simp] theorem run_bind (r : Reading β α) (f : α → Reading β γ) :
    (r >>= f).run get = r.run get >>= fun a => (f a).run get := by
  induction r with
  | done a => exact (pure_bind a fun a => (f a).run get).symm
  | fail => rfl
  | read n k ih =>
    calc (get n >>= fun bs => (k bs >>= f).run get)
        = get n >>= fun bs => (k bs).run get >>= fun a => (f a).run get := by simp only [ih]
      _ = (get n >>= fun bs => (k bs).run get) >>= fun a => (f a).run get := (bind_assoc _ _ _).symm

end Reading

section RunOnBuffer

variable {r : Reading β α} {f : α → Reading β γ}

theorem Consumes.run_bind (h : Consumes (r.run Reader.take) (cs ++ rest) bs a)
    (h' : Consumes ((f a).run Reader.take) rest cs c) : Consumes ((r >>= f).run Reader.take) rest (bs ++ cs) c := by
  rw [Reading.run_bind]
  exact h.bind h'

theorem Consumes.run_bind_last (h : Consumes (r.run Reader.take) rest bs a)
    (h' : Consumes ((f a).run Reader.take) rest [] c) : Consumes ((r >>= f).run Reader.take) rest bs c := by
  rw [Reading.run_bind]
  exact h.bind_last h'

theorem consumes_run_take (bs rest : List β) : Consumes ((Reading.take bs.length).run Reader.take) rest bs bs := by
  rw [Reading.run_take]
  exact consumes_take bs rest

theorem Consumes.run_lift_bind {x : Option α} (h : x = some a) (h' : Consumes ((f a).run Reader.take) rest cs c) :
    Consumes (((liftM x : Reading β α) >>= f).run Reader.take) rest cs c := by
  rw [Reading.run_bind, Reading.run_lift]
  exact (consumes_lift h (cs ++ rest)).bind_nil h'

end RunOnBuffer

/-- In the states of `I` the source gives `n` elements at most, and does not fail. -/
def Gives (get : ℕ → StateT σ Option (List β)) (I : σ → Prop) : Prop :=
  ∀ n s, I s → ∃ bs s', get n s = some (bs, s') ∧ bs.length ≤ n ∧ I s'

/-- In the states of `H` the source has a list of elements to give in time. -/
def Supplied (get : ℕ → StateT σ Option (List β)) (H : σ → List β → Prop) : Prop :=
  ∀ s bs n, H s bs → n ≤ bs.length → ∃ s', get n s = some (bs.take n, s') ∧ H s' (bs.drop n)

/-- **A reading that a buffer suffices for goes the same way with any source that supplies it.** -/
theorem Supplied.run {get : ℕ → StateT σ Option (List β)} {H : σ → List β → Prop} (hget : Supplied get H)
    (r : Reading β α) : ∀ {s : σ} {bs bs' : List β} {a : α}, H s bs → r.run Reader.take bs = some (a, bs') →
      ∃ s', r.run get s = some (a, s') ∧ H s' bs' := by
  induction r with
  | done a =>
    intro s bs bs' a' hs h
    obtain ⟨rfl, rfl⟩ := Prod.mk.inj (Option.some.inj h)
    exact ⟨s, rfl, hs⟩
  | fail =>
    intro s bs bs' a' hs h
    cases h
  | read n k ih =>
    intro s bs bs' a' hs h
    obtain ⟨⟨taken, left⟩, htake, h⟩ := Option.bind_eq_some_iff.mp h
    obtain ⟨hn, htake⟩ := Option.ite_none_right_eq_some.mp htake
    obtain ⟨rfl, rfl⟩ := Prod.mk.inj (Option.some.inj htake)
    obtain ⟨s₁, hs₁, hH⟩ := hget s bs n hs hn
    obtain ⟨s', hs', hH'⟩ := ih _ hH h
    refine ⟨s', ?_, hH'⟩
    calc (Reading.read n k).run get s = (get n s).bind fun p => (k p.1).run get p.2 := rfl
      _ = some (a', s') := by rw [hs₁]; exact hs'

/-- What holds at the end, whatever the source gives. -/
def Reading.Always (P : α → Prop) : Reading β α → Prop
  | .done a => P a
  | .fail => False
  | .read n k => ∀ bs : List β, bs.length ≤ n → (k bs).Always P

theorem Reading.Always.mono {P Q : α → Prop} {r : Reading β α} (hr : r.Always P) (h : ∀ a, P a → Q a) : r.Always Q := by
  induction r with
  | done a => exact h a hr
  | fail => exact hr
  | read n k ih => exact fun bs hbs => ih bs (hr bs hbs)

theorem Reading.Always.bind {P : α → Prop} {Q : γ → Prop} {r : Reading β α} {f : α → Reading β γ}
    (hr : r.Always P) (hf : ∀ a, P a → (f a).Always Q) : (r >>= f).Always Q := by
  induction r with
  | done a => exact hf a hr
  | fail => exact hr.elim
  | read n k ih => exact fun bs hbs => ih bs (hr bs hbs)

theorem Reading.Always.lift_bind {P : γ → Prop} {x : Option α} {a : α} {f : α → Reading β γ} (hx : x = some a)
    (hf : (f a).Always P) : ((liftM x : Reading β α) >>= f).Always P := by
  subst hx
  exact hf

/-- Whatever the source gives, it is not more than `n`. -/
theorem Reading.Always.take_bind {P : γ → Prop} {n : ℕ} {f : List β → Reading β γ}
    (hf : ∀ bs : List β, bs.length ≤ n → (f bs).Always P) : (Reading.take n >>= f).Always P := hf

/-- **It holds at the end of a run**, which comes. -/
theorem Reading.Always.run {get : ℕ → StateT σ Option (List β)} {I : σ → Prop} (hget : Gives get I) {P : α → Prop}
    {r : Reading β α} (hr : r.Always P) {s : σ} (hs : I s) : ∃ a s', r.run get s = some (a, s') ∧ P a ∧ I s' := by
  induction r generalizing s with
  | done a => exact ⟨a, s, rfl, hr, hs⟩
  | fail => exact hr.elim
  | read n k ih =>
    obtain ⟨bs, s₁, hs₁, hlen, hI⟩ := hget n s hs
    obtain ⟨a, s', hs', ha⟩ := ih bs (hr bs hlen) hI
    refine ⟨a, s', ?_, ha⟩
    calc (Reading.read n k).run get s = (get n s).bind fun p => (k p.1).run get p.2 := rfl
      _ = some (a, s') := by rw [hs₁]; exact hs'

/-! ### A line with pauses -/

/-- Elements that arrive in time, up to a pause at each `none`. -/
def lineRead : ℕ → StateT (List (Option β)) Option (List β)
  | 0, line => some ([], line)
  | _ + 1, [] => some ([], [])
  | _ + 1, none :: line => some ([], line)
  | n + 1, some b :: line => (lineRead n line).map fun p => (b :: p.1, p.2)

theorem lineRead_map : ∀ (n : ℕ) (bs : List β) (line : List (Option β)), n ≤ bs.length →
    lineRead n (bs.map some ++ line) = some (bs.take n, (bs.drop n).map some ++ line)
  | 0, bs, line, _ => by rw [lineRead, List.take_zero, List.drop_zero]
  | n + 1, b :: bs, line, h => by
    rw [List.map_cons, List.cons_append, lineRead, lineRead_map n bs line (Nat.le_of_succ_le_succ h)]
    rfl

/-- A read that a pause cuts short. -/
theorem lineRead_pause : ∀ (n : ℕ) (bs : List β) (line : List (Option β)), bs.length < n →
    lineRead n (bs.map some ++ none :: line) = some (bs, line)
  | n + 1, [], line, _ => by rw [List.map_nil, List.nil_append, lineRead]
  | n + 1, b :: bs, line, h => by
    rw [List.map_cons, List.cons_append, lineRead, lineRead_pause n bs line (Nat.lt_of_succ_lt_succ h)]
    rfl

/-- It supplies what comes before its next pause. -/
theorem supplied_lineRead (line : List (Option β)) : Supplied (lineRead (β := β)) fun s bs => s = bs.map some ++ line := by
  rintro _ bs n rfl hn
  exact ⟨_, lineRead_map n bs line hn, rfl⟩

/-- **In one piece, or in two**: what comes first on a line is not interrupted, or a pause cuts it. -/
theorem line_cases : ∀ (bs : List β) {rest : List β} {line : List (Option β)}, line.reduceOption = bs ++ rest →
    (∃ line', line = bs.map some ++ line' ∧ line'.reduceOption = rest) ∨
    ∃ part lost line', bs = part ++ lost ∧ lost ≠ [] ∧ line = part.map some ++ none :: line' ∧
      line'.reduceOption = lost ++ rest
  | [], rest, line, h => .inl ⟨line, rfl, h⟩
  | b :: bs, rest, [], h => by cases h
  | b :: bs, rest, none :: line, h => by
    rw [List.reduceOption_cons_of_none] at h
    exact .inr ⟨[], b :: bs, line, rfl, List.cons_ne_nil b bs, rfl, h⟩
  | b :: bs, rest, some b' :: line, h => by
    rw [List.reduceOption_cons_of_some, List.cons_append, List.cons.injEq] at h
    obtain ⟨rfl, h⟩ := h
    rcases line_cases bs h with ⟨line', rfl, hline'⟩ | ⟨part, lost, line', rfl, hlost, rfl, hline'⟩
    · exact .inl ⟨line', rfl, hline'⟩
    · exact .inr ⟨b' :: part, lost, line', rfl, hlost, rfl, hline'⟩

theorem gives_lineRead : Gives (lineRead (β := β)) fun _ => True := by
  intro n
  induction n with
  | zero => exact fun line _ => ⟨[], line, by rw [lineRead], Nat.le_refl 0, trivial⟩
  | succ n ih =>
    intro line _
    match line with
    | [] => exact ⟨[], [], by rw [lineRead], Nat.zero_le _, trivial⟩
    | none :: line => exact ⟨[], line, by rw [lineRead], Nat.zero_le _, trivial⟩
    | some b :: line =>
      obtain ⟨bs, line', hread, hlen, -⟩ := ih line trivial
      exact ⟨b :: bs, line', by rw [lineRead, hread]; rfl, Nat.succ_le_succ hlen, trivial⟩

end Wire
