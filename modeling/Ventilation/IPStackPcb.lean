/-
# The connection blocks of `IPStack` (src/IPStack.cpp, main.cpp)

A `tcp_pcb` has two owners that do not know of each other: the `unique_ptr` of the
`IPStack`, which deletes it when it is reset, reassigned or destroyed, and
lwIP, which frees it on a close, an abort and an error, and keeps calling
back with the `IPStack` as argument until then. So every `disconnect` releases the
block twice, and what else goes wrong depends on which of the two came first:
`released_right_iff`.
-/
import Mathlib.Logic.Function.Basic
import Mathlib.Order.Basic
import Ventilation.Lib.Machine

namespace Ventilation

/-- A connection block: the `IPStack` that its callbacks get, and how often
lwIP and a `unique_ptr` have released it. -/
structure TcpPcb where
  arg : Option ℕ
  freed : ℕ
  deleted : ℕ

def TcpPcb.released (pcb : TcpPcb) : ℕ := pcb.freed + pcb.deleted

/-- An `IPStack`, with what its `unique_ptr` holds. -/
structure PcbHolder where
  alive : Bool
  tcp_pcb : Option ℕ

/-- All blocks that lwIP has handed out and all `IPStack`s constructed, and whether
an lwIP function was called on a released block, or a callback had a destroyed `IPStack` as its argument. -/
structure Pcbs where
  pcbs : ℕ → TcpPcb
  obtained : ℕ
  ipStacks : ℕ → PcbHolder
  constructed : ℕ
  usedReleased : Bool
  destroyedArg : Bool

namespace Pcbs

/-! ### lwIP and `unique_ptr` -/

/-- An lwIP function is called on a block. -/
def call (s : Pcbs) (k : ℕ) : Pcbs :=
  { s with usedReleased := s.usedReleased || decide (0 < (s.pcbs k).released) }

def tcp_arg (s : Pcbs) (k : ℕ) (arg : Option ℕ) : Pcbs :=
  let s := s.call k
  { s with pcbs := Function.update s.pcbs k { s.pcbs k with arg } }

/-- `tcp_poll`, `tcp_sent`, `tcp_recv` and `tcp_err`. -/
def setCallbacks (s : Pcbs) (k : ℕ) : Pcbs := (((s.call k).call k).call k).call k

/-- lwIP frees a block. -/
def free (s : Pcbs) (k : ℕ) : Pcbs :=
  { s with pcbs := Function.update s.pcbs k { s.pcbs k with freed := (s.pcbs k).freed + 1 } }

/-- `tcp_pcb = ...`: the `unique_ptr` deletes what it held. -/
def assign (s : Pcbs) (i : ℕ) (tcp_pcb : Option ℕ) : Pcbs :=
  let t := { s with ipStacks := Function.update s.ipStacks i { s.ipStacks i with tcp_pcb } }
  match (s.ipStacks i).tcp_pcb with
  | none => t
  | some k => { t with pcbs := Function.update t.pcbs k { t.pcbs k with deleted := (t.pcbs k).deleted + 1 } }

/-! ### The `IPStack` -/

/-- The constructor. -/
def construct (s : Pcbs) : Pcbs :=
  { s with ipStacks := Function.update s.ipStacks s.constructed ⟨true, none⟩, constructed := s.constructed + 1 }

/-- How `connect` gets on: no address, no block, or a new block. -/
inductive Opening
  | badHost | noMemory | opened

def connect (s : Pcbs) (i : ℕ) : Opening → Pcbs
  | .badHost => s
  | .noMemory => s.assign i none
  | .opened =>
    let k := s.obtained
    let s := { s with pcbs := Function.update s.pcbs k ⟨none, 0, 0⟩, obtained := k + 1 }
    let s := s.assign i (some k)
    let s := s.tcp_arg k (some i)
    let s := s.setCallbacks k
    -- tcp_connect; its result is only returned
    s.call k

/-- `tcp_write` and `tcp_output`. -/
def write (s : Pcbs) (i : ℕ) : Pcbs :=
  match (s.ipStacks i).tcp_pcb with
  | none => s
  | some k => (s.call k).call k

/-- With whether `tcp_close` succeeds. -/
def disconnect (s : Pcbs) (i : ℕ) (closed : Bool) : Pcbs :=
  match (s.ipStacks i).tcp_pcb with
  | none => s
  | some k =>
    let s := s.tcp_arg k none
    let s := s.setCallbacks k
    let s := s.call k
    -- tcp_abort where the close has failed
    let s := if closed then s else s.call k
    let s := s.free k
    s.assign i none

/-- The destructor. -/
def destroy (s : Pcbs) (i : ℕ) : Pcbs :=
  let s := s.assign i none
  { s with ipStacks := Function.update s.ipStacks i ⟨false, none⟩ }

/-- The callbacks; `recv` with the length of what was received, if the
connection was not closed. -/
inductive Callback
  | connected | sent | poll | err
  | recv (tot_len : Option ℕ)

/-- lwIP calls back with the block's argument. -/
def deliver (s : Pcbs) (k : ℕ) : Pcbs :=
  { s with destroyedArg := s.destroyedArg || (s.pcbs k).arg.any fun i => !(s.ipStacks i).alive }

/-- `tcp_client_recv` calls `tcp_recved` where there are bytes, and before `tcp_client_err` lwIP frees the block. -/
def callback (s : Pcbs) (k : ℕ) : Callback → Pcbs
  | .err => (s.free k).deliver k
  | .recv (some tot_len) => if tot_len > 0 then (s.deliver k).call k else s.deliver k
  | _ => s.deliver k

inductive Event
  | construct
  | connect (i : ℕ) (opening : Opening)
  | write (i : ℕ)
  | disconnect (i : ℕ) (closed : Bool)
  | destroy (i : ℕ)
  | callback (k : ℕ) (c : Callback)

/-- The functions of an `IPStack` are called while it lives, and the callbacks of a block until lwIP frees it. -/
def step (s : Pcbs) : Event → Option Pcbs
  | .construct => some s.construct
  | .connect i opening => if (s.ipStacks i).alive then some (s.connect i opening) else none
  | .write i => if (s.ipStacks i).alive then some (s.write i) else none
  | .disconnect i closed => if (s.ipStacks i).alive then some (s.disconnect i closed) else none
  | .destroy i => if (s.ipStacks i).alive then some (s.destroy i) else none
  | .callback k c => if k < s.obtained ∧ (s.pcbs k).freed = 0 then some (s.callback k c) else none

/-- Nothing constructed yet. -/
def start : Pcbs := ⟨fun _ => ⟨none, 0, 0⟩, 0, fun _ => ⟨false, none⟩, 0, false, false⟩

/-! ### What should hold -/

/-- An `IPStack` holds the block. -/
def Held (s : Pcbs) (k : ℕ) : Prop := ∃ i, (s.ipStacks i).tcp_pcb = some k

/-- Every block is released once, at the latest when no `IPStack` holds it any
more, and neither lwIP nor a callback was given what does not exist any more. -/
structure Right (s : Pcbs) : Prop where
  released : ∀ k < s.obtained, (s.pcbs k).released ≤ 1 ∧ (¬ s.Held k → (s.pcbs k).released = 1)
  used : s.usedReleased = false
  arg : s.destroyedArg = false

/-- lwIP has not freed what the `IPStack` holds. -/
def NotFreed (s : Pcbs) (i : ℕ) : Prop := ∀ k, (s.ipStacks i).tcp_pcb = some k → (s.pcbs k).freed = 0

/-- The `IPStack` of the callbacks has not been destroyed. -/
def ArgAlive (s : Pcbs) (k : ℕ) : Prop := ∀ i, (s.pcbs k).arg = some i → (s.ipStacks i).alive = true

/-- **The condition.** -/
def Meets (s : Pcbs) : Event → Prop
  | .construct => True
  | .connect _ .badHost => True
  | .connect i _ => s.NotFreed i
  | .write i => s.NotFreed i
  | .disconnect i _ => (s.ipStacks i).tcp_pcb = none
  | .destroy i => s.NotFreed i
  | .callback k .err => s.Held k
  | .callback k (.recv (some tot_len)) => if tot_len > 0 then s.Held k else s.ArgAlive k
  | .callback k _ => s.ArgAlive k

/-- What runs that meet it keep: what is held has its `IPStack` as argument, and what is not was deleted. -/
structure Kept (s : Pcbs) : Prop where
  held : ∀ i k, (s.ipStacks i).tcp_pcb = some k → (s.ipStacks i).alive = true ∧ k < s.obtained ∧
    (s.pcbs k).arg = some i ∧ (s.pcbs k).freed ≤ 1 ∧ (s.pcbs k).deleted = 0
  loose : ∀ k < s.obtained, ¬ s.Held k → (s.pcbs k).freed = 0 ∧ (s.pcbs k).deleted = 1
  later : ∀ i, s.constructed ≤ i → s.ipStacks i = ⟨false, none⟩
  used : s.usedReleased = false
  arg : s.destroyedArg = false

variable {s t : Pcbs} {i k : ℕ}

/-! ### What an operation changes -/

@[simp] theorem pcbs_call (s : Pcbs) (k : ℕ) : (s.call k).pcbs = s.pcbs := rfl

@[simp] theorem ipStacks_call (s : Pcbs) (k : ℕ) : (s.call k).ipStacks = s.ipStacks := rfl

/-- A call is fine where nothing was released. -/
theorem call_eq (hk : (s.pcbs k).released = 0) : s.call k = s := by
  unfold call
  rw [hk]
  simp

/-- The first call on a released block shows. -/
theorem used_call_iff : (s.call k).usedReleased = false ↔ s.usedReleased = false ∧ (s.pcbs k).released = 0 := by
  simp [call]

theorem call_call (s : Pcbs) (k : ℕ) : (s.call k).call k = s.call k := by
  unfold call
  dsimp only
  rw [Bool.or_assoc, Bool.or_self]

theorem tcp_arg_eq (hk : (s.pcbs k).released = 0) (arg : Option ℕ) :
    s.tcp_arg k arg = { s with pcbs := Function.update s.pcbs k { s.pcbs k with arg } } := by
  unfold tcp_arg
  rw [call_eq hk]

theorem setCallbacks_eq (s : Pcbs) (k : ℕ) : s.setCallbacks k = s.call k := by
  rw [setCallbacks, call_call, call_call, call_call]

theorem arg_deliver_iff : (s.deliver k).destroyedArg = false ↔ s.destroyedArg = false ∧ s.ArgAlive k := by
  unfold deliver ArgAlive
  cases (s.pcbs k).arg with
  | none => simp
  | some i => simp

/-- Deleted is what was held. -/
theorem pcbs_assign (s : Pcbs) (i k : ℕ) (p : Option ℕ) : (s.assign i p).pcbs k =
    if (s.ipStacks i).tcp_pcb = some k then { s.pcbs k with deleted := (s.pcbs k).deleted + 1 } else s.pcbs k := by
  unfold assign
  cases (s.ipStacks i).tcp_pcb with
  | none => rfl
  | some k' =>
    by_cases h : k' = k
    · subst h
      simp
    · rw [if_neg fun he => h (Option.some.inj he)]
      exact Function.update_of_ne (Ne.symm h) _ _

theorem ipStacks_assign (s : Pcbs) (i : ℕ) (p : Option ℕ) :
    (s.assign i p).ipStacks = Function.update s.ipStacks i { s.ipStacks i with tcp_pcb := p } := by
  unfold assign
  cases (s.ipStacks i).tcp_pcb with
  | none => rfl
  | some k => rfl

/-- A new block with its holder. -/
def attach (s : Pcbs) (i : ℕ) : Pcbs :=
  { s with
    pcbs := Function.update s.pcbs s.obtained ⟨some i, 0, 0⟩
    obtained := s.obtained + 1
    ipStacks := Function.update s.ipStacks i { s.ipStacks i with tcp_pcb := some s.obtained } }

/-- The calls for a new block. -/
theorem register_eq (hk : s.pcbs k = ⟨none, 0, 0⟩) (i : ℕ) : ((s.tcp_arg k (some i)).setCallbacks k).call k =
    { s with pcbs := Function.update s.pcbs k ⟨some i, 0, 0⟩ } := by
  have hnew : ((Function.update s.pcbs k ⟨some i, 0, 0⟩) k).released = 0 := by
    rw [Function.update_self]
    rfl
  rw [setCallbacks_eq, call_call, tcp_arg_eq (by rw [hk]; rfl), hk]
  exact call_eq hnew

theorem ipStacks_attach (s : Pcbs) (i : ℕ) :
    (s.attach i).ipStacks = Function.update s.ipStacks i { s.ipStacks i with tcp_pcb := some s.obtained } := rfl

theorem pcbs_attach (s : Pcbs) (i : ℕ) : (s.attach i).pcbs = Function.update s.pcbs s.obtained ⟨some i, 0, 0⟩ := rfl

theorem connect_opened (hold : ∀ k, (s.ipStacks i).tcp_pcb = some k → k < s.obtained) :
    s.connect i .opened = (s.assign i none).attach i := by
  unfold connect
  dsimp only
  rw [register_eq]
  · unfold assign attach
    dsimp only
    cases hp : (s.ipStacks i).tcp_pcb with
    | none => simp
    | some k =>
      have hne : s.obtained ≠ k := Nat.ne_of_gt (hold k hp)
      simp only [Function.update_of_ne hne.symm, Function.update_self, Function.update_idem]
      congr 1
      rw [Function.update_comm hne, Function.update_idem, Function.update_comm hne.symm]
  · rw [pcbs_assign, if_neg fun h => Nat.lt_irrefl _ (hold _ h)]
    exact Function.update_self ..

/-! ### What the runs keep -/

theorem start_kept : start.Kept :=
  ⟨fun _ _ h => by simp [start] at h, fun _ hk => absurd hk (Nat.not_lt_zero _), fun _ _ => rfl, rfl, rfl⟩

/-- There is at most one holder. -/
theorem Kept.unique (h : s.Kept) {j : ℕ} (hi : (s.ipStacks i).tcp_pcb = some k) (hj : (s.ipStacks j).tcp_pcb = some k) :
    i = j :=
  Option.some.inj ((h.held i k hi).2.2.1.symm.trans (h.held j k hj).2.2.1)

theorem Kept.right (h : s.Kept) : s.Right := by
  refine ⟨fun k hk => ?_, h.used, h.arg⟩
  unfold TcpPcb.released
  by_cases hheld : s.Held k
  · obtain ⟨i, hi⟩ := hheld
    obtain ⟨-, -, -, hfreed, hdeleted⟩ := h.held i k hi
    exact ⟨by omega, fun hn => absurd ⟨i, hi⟩ hn⟩
  · obtain ⟨hfreed, hdeleted⟩ := h.loose k hk hheld
    exact ⟨by omega, fun _ => by omega⟩

/-- What is held after the holder has given up its block. -/
theorem held_assign {j : ℕ} :
    ((s.assign i none).ipStacks j).tcp_pcb = some k ↔ j ≠ i ∧ (s.ipStacks j).tcp_pcb = some k := by
  rw [ipStacks_assign]
  by_cases hji : j = i
  · subst hji
    simp
  · simp [hji]

theorem alive_assign (s : Pcbs) (i j : ℕ) (p : Option ℕ) :
    ((s.assign i p).ipStacks j).alive = (s.ipStacks j).alive := by
  rw [ipStacks_assign]
  by_cases hji : j = i
  · subst hji
    simp
  · simp [hji]

theorem rest_assign (s : Pcbs) (i : ℕ) (p : Option ℕ) : (s.assign i p).obtained = s.obtained ∧
    (s.assign i p).constructed = s.constructed ∧ (s.assign i p).usedReleased = s.usedReleased ∧
    (s.assign i p).destroyedArg = s.destroyedArg := by
  unfold assign
  cases (s.ipStacks i).tcp_pcb with
  | none => exact ⟨rfl, rfl, rfl, rfl⟩
  | some k => exact ⟨rfl, rfl, rfl, rfl⟩

/-- The holder gives up a block that lwIP still has. -/
theorem Kept.release (h : s.Kept) (hfree : s.NotFreed i) : (s.assign i none).Kept := by
  obtain ⟨hobtained, hconstructed, hused, harg⟩ := rest_assign s i none
  refine ⟨fun j k hj => ?_, fun k hk hloose => ?_, fun j hj => ?_, hused.trans h.used, harg.trans h.arg⟩
  · obtain ⟨hji, hj⟩ := held_assign.mp hj
    rw [alive_assign, hobtained, pcbs_assign, if_neg fun hi => hji (h.unique hj hi)]
    exact h.held j k hj
  · rw [hobtained] at hk
    rw [pcbs_assign]
    by_cases hi : (s.ipStacks i).tcp_pcb = some k
    · rw [if_pos hi]
      exact ⟨hfree k hi, congrArg (· + 1) (h.held i k hi).2.2.2.2⟩
    · rw [if_neg hi]
      refine h.loose k hk ?_
      rintro ⟨j, hj⟩
      exact hloose ⟨j, held_assign.mpr ⟨fun hji => hi (hji ▸ hj), hj⟩⟩
  · rw [hconstructed] at hj
    have hnone := h.later j hj
    rw [ipStacks_assign]
    by_cases hji : j = i
    · subst hji
      rw [Function.update_self, hnone]
    · rw [Function.update_of_ne hji]
      exact hnone

theorem Kept.lt_constructed (h : s.Kept) (halive : (s.ipStacks i).alive = true) : i < s.constructed := by
  by_contra hle
  rw [h.later i (Nat.not_lt.mp hle)] at halive
  cases halive

/-- A new block. -/
theorem Kept.attach (h : s.Kept) (hnone : (s.ipStacks i).tcp_pcb = none) (halive : (s.ipStacks i).alive = true) :
    (s.attach i).Kept := by
  have hheld : ∀ {j k}, ((s.attach i).ipStacks j).tcp_pcb = some k ↔
      j = i ∧ k = s.obtained ∨ (s.ipStacks j).tcp_pcb = some k := by
    intro j k
    rw [ipStacks_attach]
    by_cases hji : j = i
    · subst hji
      simp [hnone, eq_comm]
    · simp [hji]
  refine ⟨fun j k hj => ?_, fun k hk hloose => ?_, fun j hj => ?_, h.used, h.arg⟩
  · rcases hheld.mp hj with ⟨rfl, rfl⟩ | hj
    · rw [pcbs_attach, Function.update_self, ipStacks_attach, Function.update_self]
      exact ⟨halive, Nat.lt_succ_self _, rfl, Nat.zero_le _, rfl⟩
    · obtain ⟨h1, h2, h3⟩ := h.held j k hj
      have hji : j ≠ i := fun hji => by rw [hji, hnone] at hj; cases hj
      rw [pcbs_attach, Function.update_of_ne (Nat.ne_of_lt h2), ipStacks_attach, Function.update_of_ne hji]
      exact ⟨h1, Nat.lt_succ_of_lt h2, h3⟩
  · have hne : k ≠ s.obtained := fun hk => hloose ⟨i, hheld.mpr (.inl ⟨rfl, hk⟩)⟩
    rw [pcbs_attach, Function.update_of_ne hne]
    exact h.loose k (Nat.lt_of_le_of_ne (Nat.lt_succ_iff.mp hk) hne) fun ⟨j, hj⟩ =>
      hloose ⟨j, hheld.mpr (.inr hj)⟩
  · have hlt : i < s.constructed := h.lt_constructed halive
    have hji : j ≠ i := fun hji => Nat.not_lt.mpr hj (hji ▸ hlt)
    rw [ipStacks_attach, Function.update_of_ne hji]
    exact h.later j hj

theorem Kept.construct (h : s.Kept) : s.construct.Kept := by
  have hheld : ∀ {j k}, (s.construct.ipStacks j).tcp_pcb = some k ↔ (s.ipStacks j).tcp_pcb = some k := by
    intro j k
    unfold Pcbs.construct
    by_cases hj : j = s.constructed
    · subst hj
      simp [h.later _ (Nat.le_refl _)]
    · simp [hj]
  refine ⟨fun j k hj => ?_, fun k hk hloose => ?_, fun j hj => ?_, h.used, h.arg⟩
  · have hj := hheld.mp hj
    obtain ⟨h1, h2⟩ := h.held j k hj
    refine ⟨?_, h2⟩
    unfold Pcbs.construct
    dsimp only
    rw [Function.update_of_ne (Nat.ne_of_lt (h.lt_constructed h1))]
    exact h1
  · exact h.loose k hk fun ⟨j, hj⟩ => hloose ⟨j, hheld.mpr hj⟩
  · unfold Pcbs.construct at *
    dsimp only at *
    rw [Function.update_of_ne (Nat.ne_of_gt hj)]
    exact h.later j (Nat.le_of_succ_le hj)

theorem Kept.destroy (h : s.Kept) (hfree : s.NotFreed i) : (s.destroy i).Kept := by
  have hr := h.release hfree
  have hheld : ∀ {j k}, ((s.destroy i).ipStacks j).tcp_pcb = some k →
      ((s.assign i none).ipStacks j).tcp_pcb = some k ∧ j ≠ i := by
    intro j k hj
    unfold Pcbs.destroy at hj
    by_cases hji : j = i
    · subst hji
      simp at hj
    · simp only [Function.update_of_ne hji] at hj
      exact ⟨hj, hji⟩
  refine ⟨fun j k hj => ?_, fun k hk hloose => ?_, fun j hj => ?_, hr.used, hr.arg⟩
  · obtain ⟨hj, hji⟩ := hheld hj
    obtain ⟨h1, h2⟩ := hr.held j k hj
    refine ⟨?_, h2⟩
    unfold Pcbs.destroy
    dsimp only
    rw [Function.update_of_ne hji]
    exact h1
  · refine hr.loose k hk fun ⟨j, hj⟩ => hloose ⟨j, ?_⟩
    unfold Pcbs.destroy
    dsimp only
    rw [Function.update_of_ne (held_assign.mp hj).1]
    exact hj
  · have hnone := hr.later j hj
    unfold Pcbs.destroy
    by_cases hji : j = i
    · subst hji
      simp
    · simp only [Function.update_of_ne hji]
      exact hnone

/-- lwIP frees a block that is held, before it reports an error. -/
theorem Kept.free (h : s.Kept) (hheld : s.Held k) (hfreed : (s.pcbs k).freed = 0) : (s.free k).Kept := by
  refine ⟨fun j k' hj => ?_, fun k' hk' hloose => ?_, h.later, h.used, h.arg⟩
  · obtain ⟨h1, h2, h3, h4, h5⟩ := h.held j k' hj
    unfold Pcbs.free
    by_cases hk : k' = k
    · subst hk
      simp only [Function.update_self, hfreed]
      exact ⟨h1, h2, h3, Nat.le_refl _, h5⟩
    · simp only [Function.update_of_ne hk]
      exact ⟨h1, h2, h3, h4, h5⟩
  · have hk : k' ≠ k := fun hk => hloose (hk ▸ hheld)
    unfold Pcbs.free
    simp only [Function.update_of_ne hk]
    exact h.loose k' hk' hloose

/-- A callback whose `IPStack` lives changes nothing. -/
theorem deliver_eq (harg : s.destroyedArg = false) (h : s.ArgAlive k) : s.deliver k = s := by
  have h' := arg_deliver_iff.mpr ⟨harg, h⟩
  unfold deliver at *
  dsimp only at h'
  rw [h', ← harg]

theorem Kept.deliver (h : s.Kept) (harg : s.ArgAlive k) : (s.deliver k).Kept := by
  rw [deliver_eq h.arg harg]
  exact h

theorem Kept.argAlive (h : s.Kept) (hheld : s.Held k) : s.ArgAlive k := by
  obtain ⟨i, hi⟩ := hheld
  obtain ⟨halive, -, harg, -⟩ := h.held i k hi
  intro j hj
  obtain rfl : i = j := Option.some.inj (harg.symm.trans hj)
  exact halive

/-- Held, and lwIP still has it. -/
theorem Kept.released_eq (h : s.Kept) (hheld : s.Held k) (hfreed : (s.pcbs k).freed = 0) : (s.pcbs k).released = 0 := by
  obtain ⟨i, hi⟩ := hheld
  rw [TcpPcb.released, hfreed, (h.held i k hi).2.2.2.2]

/-- A step that has a guard. -/
theorem step_of_guard {p : Prop} [Decidable p] {u : Pcbs} (h : (if p then some u else none) = some t) : p ∧ u = t := by
  simpa only [Option.ite_none_right_eq_some, Option.some.injEq] using h

/-! ### A step that meets the condition -/

theorem Kept.connect (h : s.Kept) (halive : (s.ipStacks i).alive = true) {opening : Opening}
    (hm : s.Meets (.connect i opening)) : (s.connect i opening).Kept := by
  cases opening with
  | badHost => exact h
  | noMemory => exact h.release hm
  | opened =>
    rw [connect_opened fun k hk => (h.held i k hk).2.1]
    refine (h.release hm).attach ?_ ?_
    · rw [ipStacks_assign, Function.update_self]
    · rw [alive_assign, halive]

theorem Kept.write (h : s.Kept) (hm : s.NotFreed i) : (s.write i).Kept := by
  unfold Pcbs.write
  cases hp : (s.ipStacks i).tcp_pcb with
  | none => exact h
  | some k =>
    dsimp only
    rw [call_call, call_eq (h.released_eq ⟨i, hp⟩ (hm k hp))]
    exact h

theorem Kept.callback (h : s.Kept) (hfreed : (s.pcbs k).freed = 0) {c : Callback}
    (hm : s.Meets (.callback k c)) : (s.callback k c).Kept := by
  cases c with
  | connected => exact h.deliver hm
  | sent => exact h.deliver hm
  | poll => exact h.deliver hm
  | err =>
    have hf := h.free hm hfreed
    have hheld : (s.free k).Held k := hm
    exact hf.deliver (hf.argAlive hheld)
  | recv tot_len =>
    cases tot_len with
    | none => exact h.deliver hm
    | some tot_len =>
      simp only [Meets, Pcbs.callback] at hm ⊢
      split
      · rename_i hpos
        rw [if_pos hpos] at hm
        rw [deliver_eq h.arg (h.argAlive hm), call_eq (h.released_eq hm hfreed)]
        exact h
      · rename_i hpos
        rw [if_neg hpos] at hm
        exact h.deliver hm

theorem Kept.of_step (h : s.Kept) {e : Event} (hm : s.Meets e) (hst : s.step e = some t) : t.Kept := by
  cases e with
  | construct => exact Option.some.inj hst ▸ h.construct
  | connect i opening =>
    obtain ⟨halive, rfl⟩ := step_of_guard hst
    exact h.connect halive hm
  | write i =>
    obtain ⟨-, rfl⟩ := step_of_guard hst
    exact h.write hm
  | disconnect i closed =>
    obtain ⟨-, rfl⟩ := step_of_guard hst
    have hnone : (s.ipStacks i).tcp_pcb = none := hm
    rw [disconnect, hnone]
    exact h
  | destroy i =>
    obtain ⟨-, rfl⟩ := step_of_guard hst
    exact h.destroy hm
  | callback k c =>
    obtain ⟨⟨-, hfreed⟩, rfl⟩ := step_of_guard hst
    exact h.callback hfreed hm

/-! ### A step after which all is right -/

/-- A block deleted once more and released at most once is one that lwIP has not freed. -/
theorem Kept.notFreed (h : s.Kept) (hobtained : s.obtained ≤ t.obtained)
    (hpcbs : ∀ k, (s.ipStacks i).tcp_pcb = some k → t.pcbs k = { s.pcbs k with deleted := (s.pcbs k).deleted + 1 })
    (hright : t.Right) : s.NotFreed i := by
  intro k hk
  have hle := (hright.released k (Nat.lt_of_lt_of_le (h.held i k hk).2.1 hobtained)).1
  rw [TcpPcb.released, hpcbs k hk] at hle
  dsimp only at hle
  omega

theorem pcbs_assign_of (hk : (s.ipStacks i).tcp_pcb = some k) (p : Option ℕ) :
    (s.assign i p).pcbs k = { s.pcbs k with deleted := (s.pcbs k).deleted + 1 } := by
  rw [pcbs_assign, if_pos hk]

/-- A block is released twice by every `disconnect`. -/
theorem released_disconnect (hk : (s.ipStacks i).tcp_pcb = some k) (closed : Bool) :
    ((s.disconnect i closed).pcbs k).released = (s.pcbs k).released + 2 ∧
      (s.disconnect i closed).obtained = s.obtained := by
  unfold disconnect
  rw [hk]
  dsimp only
  rw [setCallbacks_eq, (rest_assign _ _ _).1]
  refine ⟨?_, by cases closed <;> rfl⟩
  cases closed with
  | true =>
    rw [if_pos rfl, pcbs_assign_of (by exact hk)]
    simp only [free, tcp_arg, pcbs_call, Function.update_self, TcpPcb.released]
    omega
  | false =>
    rw [if_neg Bool.false_ne_true, pcbs_assign_of (by exact hk)]
    simp only [free, tcp_arg, pcbs_call, Function.update_self, TcpPcb.released]
    omega

theorem Kept.connect_meets (h : s.Kept) {opening : Opening} (hright : (s.connect i opening).Right) :
    s.Meets (.connect i opening) := by
  cases opening with
  | badHost => trivial
  | noMemory =>
    exact h.notFreed (Nat.le_of_eq (rest_assign s i none).1.symm) (fun k hk => pcbs_assign_of hk none) hright
  | opened =>
    have hlt : ∀ k, (s.ipStacks i).tcp_pcb = some k → k < s.obtained := fun k hk => (h.held i k hk).2.1
    have hobtained := (rest_assign s i none).1
    refine h.notFreed ?_ (fun k hk => ?_) hright
    · rw [connect_opened hlt]
      exact Nat.le_succ_of_le (Nat.le_of_eq hobtained.symm)
    · rw [connect_opened hlt, pcbs_attach, hobtained, Function.update_of_ne (Nat.ne_of_lt (hlt k hk)),
        pcbs_assign_of hk]

theorem write_meets (hright : (s.write i).Right) : s.NotFreed i := by
  intro k hk
  have hused := hright.used
  rw [write, hk] at hused
  dsimp only at hused
  rw [call_call, used_call_iff, TcpPcb.released] at hused
  omega

theorem Kept.disconnect_meets (h : s.Kept) {closed : Bool} (hright : (s.disconnect i closed).Right) :
    (s.ipStacks i).tcp_pcb = none := by
  rcases hp : (s.ipStacks i).tcp_pcb with _ | k
  · rfl
  · obtain ⟨hreleased, hobtained⟩ := released_disconnect hp closed
    have hle := (hright.released k (by rw [hobtained]; exact (h.held i k hp).2.1)).1
    omega

theorem Kept.callback_meets (h : s.Kept) (hk : k < s.obtained) (hfreed : (s.pcbs k).freed = 0) {c : Callback}
    (hright : (s.callback k c).Right) : s.Meets (.callback k c) := by
  have hheld : (s.pcbs k).deleted = 0 → s.Held k := fun hd => by
    by_contra hloose
    have hd' := (h.loose k hk hloose).2
    omega
  cases c with
  | connected => exact (arg_deliver_iff.mp hright.arg).2
  | sent => exact (arg_deliver_iff.mp hright.arg).2
  | poll => exact (arg_deliver_iff.mp hright.arg).2
  | err =>
    have hle : ((s.free k).pcbs k).released ≤ 1 := (hright.released k hk).1
    simp only [Pcbs.free, Function.update_self, TcpPcb.released, hfreed] at hle
    exact hheld (by omega)
  | recv tot_len =>
    cases tot_len with
    | none => exact (arg_deliver_iff.mp hright.arg).2
    | some tot_len =>
      simp only [Meets]
      unfold Pcbs.callback at hright
      dsimp only at hright
      split
      · rename_i hpos
        rw [if_pos hpos] at hright
        have hreleased := (used_call_iff.mp hright.used).2
        rw [TcpPcb.released] at hreleased
        exact hheld (by exact (Nat.add_eq_zero_iff.mp hreleased).2)
      · rename_i hpos
        rw [if_neg hpos] at hright
        exact (arg_deliver_iff.mp hright.arg).2

theorem Kept.of_right (h : s.Kept) {e : Event} (hst : s.step e = some t) (hright : t.Right) : s.Meets e := by
  cases e with
  | construct => trivial
  | connect i opening =>
    obtain ⟨-, rfl⟩ := step_of_guard hst
    exact h.connect_meets hright
  | write i =>
    obtain ⟨-, rfl⟩ := step_of_guard hst
    exact write_meets hright
  | disconnect i closed =>
    obtain ⟨-, rfl⟩ := step_of_guard hst
    exact h.disconnect_meets hright
  | destroy i =>
    obtain ⟨-, rfl⟩ := step_of_guard hst
    refine h.notFreed (t := s.destroy i) ?_ (fun k hk => pcbs_assign_of hk none) hright
    exact Nat.le_of_eq (rest_assign s i none).1.symm
  | callback k c =>
    obtain ⟨⟨hk, hfreed⟩, rfl⟩ := step_of_guard hst
    exact h.callback_meets hk hfreed hright

/-- **When every block is released once and nothing is used after its end**, in
every run whose steps meet the condition, and exactly by the next step that does. -/
theorem released_right_iff (hr : Machine.Reach step (· = start) Meets s) :
    s.Right ∧ ∀ e t, s.step e = some t → (t.Right ↔ s.Meets e) := by
  have h : s.Kept := by
    refine hr.invariant (J := Kept) ?_ fun _ _ _ h hm hst => h.of_step hm hst
    rintro _ rfl
    exact start_kept
  exact ⟨h.right, fun e t hst => ⟨h.of_right hst, fun hm => (h.of_step hm hst).right⟩⟩

/-! ### A destruction, and a disconnect -/

/-- An `IPStack` that has connected. -/
def connected : Pcbs := start.construct.connect 0 .opened

theorem reach_connected : Machine.Reach step (· = start) Meets connected := by
  have hconstruct : Machine.Reach step (· = start) Meets start.construct :=
    .step (e := .construct) (.init rfl) trivial rfl
  refine .step (e := .connect 0 .opened) hconstruct ?_ rfl
  intro k hk
  cases hk

/-- Destroyed without a `disconnect`, it releases its block once. -/
theorem released_right_destroy : ∃ s, connected.step (.destroy 0) = some s ∧ s.Right ∧ (s.pcbs 0).released = 1 := by
  have hfree : connected.NotFreed 0 := fun k hk => by
    obtain rfl : 0 = k := Option.some.inj hk
    rfl
  have hr : Machine.Reach step (· = start) Meets (connected.destroy 0) :=
    .step (e := .destroy 0) reach_connected hfree rfl
  exact ⟨_, rfl, (released_right_iff hr).1, rfl⟩

/-- **`disconnect` releases it twice.** -/
theorem disconnect_releases_twice : ∃ s, Machine.run step start
    [.construct, .connect 0 .opened, .disconnect 0 true] = some s ∧ (s.pcbs 0).released = 2 ∧ ¬ s.Right := by
  refine ⟨_, rfl, rfl, fun h => ?_⟩
  have hle := (h.released 0 (by decide)).1
  exact absurd hle (by decide)

end Pcbs
end Ventilation
