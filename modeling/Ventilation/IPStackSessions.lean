/-
# The receive ring and its connections (src/IPStack.cpp)

`connect` and `disconnect` leave the ring as it is, so that bytes which were
received and not read before a `disconnect` are what the first reads after the
next `connect` return. `sessions_right_iff`: if the ring is empty at
every `connect`, each byte is returned in the connection that it was received on; and
after a `connect` that finds bytes, the first byte returned is not.
-/
import Ventilation.IPStackFlow

namespace Ventilation
namespace IPStack

open Machine

/-- An `IPStack` over its connections. Beside the ring with its log: the number
of connections opened so far, the connection that each accepted byte was
received on, and the last one opened when each returned byte was returned. -/
structure Sessions where
  log : Log
  isOpen : Bool
  connection : ℕ
  origin : List ℕ
  readers : List ℕ

namespace Sessions

variable (sdk : PicoTime) (lw : Lwip)

/-- `connect`, which may fail to open a connection; `disconnect`; a callback or a `read`. -/
inductive Event
  | connect (opened : Bool)
  | disconnect
  | ring (e : IPStack.Event sdk)

/-- What a callback or a `read` adds. -/
def observe (s : Sessions) (log : Log) : Sessions :=
  { s with
    log
    origin := s.origin ++ List.replicate (log.accepted.length - s.log.accepted.length) s.connection
    readers := s.readers ++ List.replicate (log.returned.length - s.log.returned.length) s.connection }

/-- Between a `disconnect` and the next `connect` there are no callbacks: it has removed them. -/
def step (s : Sessions) : Event sdk → Option Sessions
  | .connect opened =>
    if s.isOpen then none
    else if opened then some { s with isOpen := true, connection := s.connection + 1 } else some s
  | .disconnect => some { s with isOpen := false }
  | .ring e =>
    if s.isOpen ∨ (arrived sdk lw s.log.ring e).isEmpty then (s.log.step sdk lw e).map s.observe else none

/-- A constructed `IPStack`. -/
def Init (d₀ : ℕ) (s : Sessions) : Prop :=
  s.log.Init d₀ ∧ s.isOpen = false ∧ s.connection = 0 ∧ s.origin = [] ∧ s.readers = []

/-- The bytes returned are the first ones accepted, and each was received on the
connection that was the last one opened when it was returned. -/
structure Right (s : Sessions) : Prop where
  length_origin : s.origin.length = s.log.accepted.length
  length_readers : s.readers.length = s.log.returned.length
  returned : s.log.returned <+: s.log.accepted
  readers : s.readers <+: s.origin

/-- **The condition**: a connection is opened with an empty ring. -/
def Emptied (s : Sessions) : Event sdk → Prop
  | .connect opened => opened = true → s.log.ring.count = 0
  | _ => True

variable {sdk lw} {d₀ : ℕ} {s t : Sessions}

/-! ### What a callback or a read adds -/

/-- The log grows. -/
theorem length_step (lw : Lwip) {l l' : Log} {h : Fifo.Hist Byte BUF_SIZE} (hs : Sim d₀ l h) {e : IPStack.Event sdk}
    (hst : l.step sdk lw e = some l') : l.accepted.length ≤ l'.accepted.length ∧
      l.returned.length ≤ l'.returned.length := by
  obtain ⟨l₁, l'', ht, hl'', hacc, -⟩ := step_took lw hs e
  obtain rfl : l' = l'' := Option.some.inj (hst.symm.trans hl'')
  refine ⟨?_, ?_⟩
  · obtain ⟨as, -, ha⟩ := ht.accepted
    rw [hacc, ha, List.length_append]
    exact Nat.le_add_right _ _
  · cases e with
    | recv p =>
      obtain ⟨u, hu, -, hret, -⟩ := hs.recv lw p
      obtain rfl : l' = u := Option.some.inj (hst.symm.trans hu)
      rw [hret]
    | @read len out timeout now polls =>
      obtain ⟨u, ops, hu, -⟩ := hs.pollLoop sdk lw len (readDeadline sdk now timeout) polls.before polls.last
      rw [Log.step] at hst
      dsimp only at hst
      rw [bind_of hu] at hst
      obtain ⟨r, -, hr⟩ := Option.bind_eq_some_iff.mp hst
      obtain rfl := Option.some.inj hr
      dsimp only
      rw [List.length_append]
      exact Nat.le_add_right _ _

/-- What every run keeps: the log is that of a queue, and every list has an entry for each byte. -/
structure Kept (d₀ : ℕ) (s : Sessions) : Prop where
  sim : ∃ ops, Sim d₀ s.log (Fifo.Hist.run ops)
  length_origin : s.origin.length = s.log.accepted.length
  length_readers : s.readers.length = s.log.returned.length

theorem Kept.count (h : s.Kept d₀) : s.log.returned <+: s.log.accepted ∧
    s.origin.length = s.readers.length + s.log.ring.count := by
  obtain ⟨ops, hs⟩ := h.sim
  have hcons := hs.conserved
  refine ⟨hcons ▸ List.prefix_append _ _, ?_⟩
  rw [h.length_origin, h.length_readers, ← hcons, List.length_append, length_stored]

theorem Init.kept (hd : d₀ < 2 ^ 32) (h : s.Init d₀) : s.Kept d₀ := by
  obtain ⟨hlog, -, -, horigin, hreaders⟩ := h
  refine ⟨⟨[], sim_init hd hlog⟩, ?_, ?_⟩
  · rw [horigin, hlog.2.2.2.2.1]
    rfl
  · rw [hreaders, hlog.2.2.2.2.2.2]
    rfl

/-- A callback or a read appends entries of the connection opened last. -/
theorem Kept.ring (h : s.Kept d₀) {e : IPStack.Event sdk} (hst : s.step sdk lw (.ring e) = some t) :
    t.Kept d₀ ∧ t.connection = s.connection ∧ ∃ m n, t.origin = s.origin ++ List.replicate m s.connection ∧
      t.readers = s.readers ++ List.replicate n s.connection := by
  obtain ⟨ops, hs⟩ := h.sim
  rw [step] at hst
  split at hst
  · obtain ⟨log, hlog, rfl⟩ := Option.map_eq_some_iff.mp hst
    obtain ⟨hacc, hret⟩ := length_step lw hs hlog
    obtain ⟨log', ops', hlog', hs'⟩ := hs.step lw e
    obtain rfl : log = log' := Option.some.inj (hlog.symm.trans hlog')
    refine ⟨⟨⟨ops ++ ops', by rw [Fifo.Hist.run, List.foldl_append]; exact hs'⟩, ?_, ?_⟩, rfl, _, _, rfl, rfl⟩
    · simp only [observe, List.length_append, List.length_replicate, h.length_origin]
      omega
    · simp only [observe, List.length_append, List.length_replicate, h.length_readers]
      omega
  · cases hst

/-- A connection is opened. -/
theorem step_connect (hst : s.step sdk lw (.connect true) = some t) :
    t = { s with isOpen := true, connection := s.connection + 1 } := by
  simp only [step] at hst
  split at hst
  · cases hst
  · exact (Option.some.inj hst).symm

/-! ### Runs that open connections with an empty ring -/

/-- What was received and not yet returned is of the connection opened last. -/
structure Separate (d₀ : ℕ) (s : Sessions) : Prop extends Kept d₀ s where
  separate : s.origin = s.readers ++ List.replicate s.log.ring.count s.connection

theorem Separate.right (h : s.Separate d₀) : s.Right :=
  ⟨h.length_origin, h.length_readers, h.count.1, h.separate ▸ List.prefix_append _ _⟩

theorem Separate.ring (h : s.Separate d₀) {e : IPStack.Event sdk} (hst : s.step sdk lw (.ring e) = some t) :
    t.Separate d₀ := by
  obtain ⟨hk, hconnection, m, n, horigin, hreaders⟩ := h.toKept.ring hst
  refine ⟨hk, ?_⟩
  have hcount := hk.count.2
  have hcount' := h.count.2
  rw [horigin, hreaders] at hcount
  simp only [List.length_append, List.length_replicate] at hcount
  rw [horigin, hreaders, h.separate, hconnection, List.append_assoc, List.append_assoc, List.replicate_append_replicate,
    List.replicate_append_replicate]
  congr 2
  omega

theorem Separate.of_step (h : s.Separate d₀) {e : Event sdk} (hempty : s.Emptied sdk e)
    (hst : s.step sdk lw e = some t) : t.Separate d₀ := by
  cases e with
  | connect opened =>
    cases opened with
    | true =>
      obtain rfl := step_connect hst
      have hcount : s.log.ring.count = 0 := hempty rfl
      refine ⟨⟨h.sim, h.length_origin, h.length_readers⟩, ?_⟩
      have hseparate := h.separate
      rw [hcount] at hseparate
      dsimp only
      rw [hcount]
      exact hseparate
    | false =>
      simp only [step] at hst
      split at hst
      · cases hst
      · exact Option.some.inj hst ▸ h
  | disconnect =>
    obtain rfl := Option.some.inj hst
    exact ⟨⟨h.sim, h.length_origin, h.length_readers⟩, h.separate⟩
  | ring e => exact h.ring hst

/-! ### After a connect -/

/-- Callbacks and reads append entries of one connection. -/
theorem Kept.rings : ∀ (es : List (IPStack.Event sdk)) {s t : Sessions}, s.Kept d₀ →
    run (step sdk lw) s (es.map .ring) = some t → t.Kept d₀ ∧ ∃ m n,
      t.origin = s.origin ++ List.replicate m s.connection ∧ t.readers = s.readers ++ List.replicate n s.connection
  | [], s, t, h, hr => by
    obtain rfl := Option.some.inj hr
    exact ⟨h, 0, 0, (List.append_nil _).symm, (List.append_nil _).symm⟩
  | e :: es, s, t, h, hr => by
    rw [List.map_cons, run_cons, Option.bind_eq_some_iff] at hr
    obtain ⟨u, hu, hr⟩ := hr
    obtain ⟨hk, hconnection, m, n, ho, hn⟩ := h.ring hu
    obtain ⟨hk', m', n', ho', hn'⟩ := Kept.rings es hk hr
    refine ⟨hk', m + m', n + n', ?_, ?_⟩
    · rw [ho', ho, hconnection, List.append_assoc, List.replicate_append_replicate]
    · rw [hn', hn, hconnection, List.append_assoc, List.replicate_append_replicate]

/-- Entries of the new connection follow those of the old one only if there are none of the old one. -/
theorem prefix_replicate_iff {c k m n : ℕ} (hn : 0 < n) (hle : n ≤ k + m) :
    List.replicate n (c + 1) <+: List.replicate k c ++ List.replicate m (c + 1) ↔ k = 0 := by
  constructor
  · intro h
    obtain ⟨n, rfl⟩ := Nat.exists_eq_succ_of_ne_zero hn.ne'
    cases k with
    | zero => rfl
    | succ k =>
      rw [List.replicate_succ, List.replicate_succ, List.cons_append, List.cons_prefix_cons] at h
      exact absurd h.1 (Nat.succ_ne_self c)
  · rintro rfl
    rw [List.replicate_zero, List.nil_append]
    exact ⟨List.replicate (m - n) (c + 1), by rw [List.replicate_append_replicate]; congr 1; omega⟩

/-- What is returned first after a `connect`. -/
theorem Separate.right_iff (h : s.Separate d₀) (hc : s.step sdk lw (.connect true) = some t)
    {es : List (IPStack.Event sdk)} {u : Sessions} (hr : run (step sdk lw) t (es.map .ring) = some u)
    (hret : s.log.returned.length < u.log.returned.length) : u.Right ↔ s.log.ring.count = 0 := by
  obtain rfl := step_connect hc
  have hk : Kept d₀ { s with isOpen := true, connection := s.connection + 1 } :=
    ⟨h.sim, h.length_origin, h.length_readers⟩
  obtain ⟨hu, m, n, horigin, hreaders⟩ := hk.rings es hr
  dsimp only at horigin hreaders
  have hlen := congrArg List.length hreaders
  rw [hu.length_readers, List.length_append, List.length_replicate, h.length_readers] at hlen
  have hcount := hu.count.2
  rw [hreaders, horigin, h.separate] at hcount
  simp only [List.length_append, List.length_replicate] at hcount
  have hprefix : u.readers <+: u.origin ↔ s.log.ring.count = 0 := by
    rw [hreaders, horigin, h.separate, List.append_assoc, List.prefix_append_right_inj]
    exact prefix_replicate_iff (by omega) (by omega)
  rw [← hprefix]
  exact ⟨fun hright => hright.readers, fun hp => ⟨hu.length_origin, hu.length_readers, hu.count.1, hp⟩⟩

/-- **When every byte is returned in its own connection**, over any number of connections. -/
theorem sessions_right_iff (sdk : PicoTime) (lw : Lwip) (d₀ : Fin (2 ^ 32))
    (hr : Reach (step sdk lw) (Init d₀) (Emptied sdk) s) : s.Right ∧
      ∀ (es : List (IPStack.Event sdk)) t u, s.step sdk lw (.connect true) = some t →
        run (step sdk lw) t (es.map .ring) = some u →
        s.log.returned.length < u.log.returned.length → (u.Right ↔ s.log.ring.count = 0) := by
  have h : s.Separate d₀ := by
    refine hr.invariant (J := Separate d₀) (fun s hi => ⟨hi.kept d₀.2, ?_⟩) fun _ _ _ h hempty hst =>
      h.of_step hempty hst
    obtain ⟨hlog, -, -, horigin, hreaders⟩ := hi
    rw [horigin, hreaders, hlog.1]
    rfl
  exact ⟨h.right, fun es t u hc hrun hret => h.right_iff hc hrun hret⟩

/-! ### Two connections -/

instance (s : Sessions) : DecidablePred (s.Emptied sdk)
  | .connect opened => inferInstanceAs (Decidable (opened = true → s.log.ring.count = 0))
  | .disconnect => .isTrue trivial
  | .ring _ => .isTrue trivial

def new : Sessions := ⟨.new 0, false, 0, [], []⟩

theorem new_init : new.Init 0 := ⟨Log.new_init 0, rfl, rfl, rfl, rfl⟩

/-- Three bytes are received. -/
def three : Event .documented := .ring (.recv (Pbuf.single [1, 2, 3] (by decide)))

/-- They are read before the connection is closed and another one opened. -/
theorem sessions_right_all_read : ∃ s, run (step .documented .documented) new
    [.connect true, three, .ring (quietRead 3), .disconnect, .connect true] = some s ∧ s.Right := by
  have hrun : (runIf (step .documented .documented) (Emptied .documented) new
      [.connect true, three, .ring (quietRead 3), .disconnect, .connect true]).isSome = true := by
    decide +kernel
  obtain ⟨s, hs⟩ := Option.isSome_iff_exists.mp hrun
  obtain ⟨hreach, hs⟩ := Reach.runIf (.init new_init) hs
  exact ⟨s, hs, (sessions_right_iff .documented .documented 0 hreach).1⟩

/-- **One is left**, and is what the next connection reads. -/
theorem left_byte_returned : ∃ s, run (step .documented .documented) new
    [.connect true, three, .ring (quietRead 2), .disconnect, .connect true, .ring (quietRead 1)] = some s ∧
      s.readers = [1, 1, 2] ∧ s.origin = [1, 1, 1] ∧ ¬ s.Right := by
  have hrun : (run (step .documented .documented) new
      [.connect true, three, .ring (quietRead 2), .disconnect, .connect true, .ring (quietRead 1)]).any
        (fun s => decide (s.readers = [1, 1, 2] ∧ s.origin = [1, 1, 1])) = true := by
    decide +kernel
  obtain ⟨s, hs, hp⟩ := (Option.any_eq_true _ _).mp hrun
  obtain ⟨hreaders, horigin⟩ := of_decide_eq_true hp
  refine ⟨s, hs, hreaders, horigin, fun h => ?_⟩
  have hprefix := h.readers
  rw [hreaders, horigin] at hprefix
  exact absurd hprefix (by decide)

end Sessions
end IPStack
end Ventilation
