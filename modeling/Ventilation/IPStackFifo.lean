/-
# The receive ring is a bounded FIFO queue

Every state of the ring that callbacks and reads reach satisfies `Ok`: the
indices are inside the buffer and `wr` is `count` cells behind `rd`. From
such a state a callback succeeds and appends what there is room for
(`recv_spec`), and a read succeeds and takes from the front (`readCopy_spec`);
so a run is a run of `Fifo.Hist` (`Log.Sim`), and what was read followed by
what is stored is what was accepted (`ring_refines_fifo`).
-/
import Ventilation.IPStack
import Ventilation.Lib.Machine

namespace Ventilation
namespace IPStack

open CInt Machine

/-- The stored bytes, oldest first. -/
def stored (s : IPStack) : List Byte := Fifo.contents s.buffer s.rd s.count

/-- What holds of the ring between calls. -/
structure Ok (s : IPStack) : Prop where
  wr_lt : s.wr < BUF_SIZE
  rd_lt : s.rd < BUF_SIZE
  count_le : s.count ≤ BUF_SIZE
  wr_eq : s.wr = (s.rd + s.count) % BUF_SIZE
  dropped_lt : s.dropped < 2 ^ 32

theorem length_stored (s : IPStack) : s.stored.length = s.count := Fifo.length_contents _ _ _

theorem BUF_SIZE_eq : BUF_SIZE = 2048 := rfl

/-! ### The callback -/

section Recv

variable (lw : Lwip) {s : IPStack} {p : Pbuf}

/-- A block that fits in front of the end of the buffer and into the free
space is stored behind the stored bytes. -/
theorem put_spec (h : Ok s) (src : List Byte) (hend : s.wr + src.length ≤ BUF_SIZE)
    (hroom : s.count + src.length ≤ BUF_SIZE) : ∃ b, Buffer.store s.buffer s.wr src = some b ∧
      Fifo.contents b s.rd (s.count + src.length) = s.stored ++ src := by
  obtain ⟨b, hb⟩ := Buffer.store_isSome s.buffer src hend
  refine ⟨b, hb, ?_⟩
  rw [h.wr_eq] at hb
  exact Fifo.contents_store hb hroom

/-- The first copy of `k` bytes fills the buffer to its end. -/
theorem recvFirst_spec (h : Ok s) {k m : ℕ} (hk : s.wr + k = BUF_SIZE) (hm : 0 < m)
    (hn : k + m ≤ p.tot_len) (hroom : s.count + (k + m) ≤ BUF_SIZE) : ∃ s', recvFirst lw s p (k + m) (s.wr + (k + m)) =
        some (s', m, k) ∧ Ok s' ∧ s'.wr = 0 ∧ s'.count = s.count + k ∧ s'.dropped = s.dropped ∧
      s'.stored = s.stored ++ p.bytes.take k := by
  have hN := BUF_SIZE_eq
  have hwr := h.wr_lt
  have hlen : (p.bytes.take k).length = k := by
    rw [List.length_take]
    unfold Pbuf.tot_len at hn
    omega
  obtain ⟨b, hb, hc⟩ := put_spec h (p.bytes.take k) (by omega) (by omega)
  rw [hlen] at hc
  have h1 : unsigned? 16 ((BUF_SIZE : ℤ) - s.wr) = some k := unsigned?_eq (by omega) (by omega)
  have h2 : unsigned? 16 (((k + m : ℕ) : ℤ) - k) = some m := unsigned?_eq (by omega) (by omega)
  have h3 : unsigned? 16 ((s.count : ℤ) + k) = some (s.count + k) :=
    unsigned?_eq (by omega) (by omega)
  refine ⟨⟨b, s.count + k, s.dropped, 0, s.rd⟩, ?_, ?_, rfl, rfl, rfl, hc⟩
  · unfold recvFirst
    rw [if_pos (by omega), bind_of h1, if_pos (by omega), lw.pbuf_copy_partial_eq, List.drop_zero]
    dsimp only
    rw [bind_of hb, hlen, bind_of h2, pure_bind]
    dsimp only
    rw [bind_of h3, Option.pure_def]
  · -- the block ends at the end of the buffer: the next free cell is the first
    refine ⟨by dsimp only; omega, h.rd_lt, by dsimp only; omega, ?_, h.dropped_lt⟩
    have hw := h.wr_eq
    dsimp only
    rw [← Nat.add_assoc, Nat.add_mod, ← hw, Nat.mod_eq_of_lt (a := k) (by omega), hk, Nat.mod_self]

/-- The rest of the bytes lies in front of the end of the buffer. -/
theorem recvRest_spec (h : Ok s) {k m : ℕ} (hend : s.wr + m ≤ BUF_SIZE) (hn : k + m ≤ p.tot_len)
    (hroom : s.count + m ≤ BUF_SIZE) : ∃ s', recvRest lw s p m k = some s' ∧ Ok s' ∧
      s'.count = s.count + m ∧ s'.dropped = s.dropped ∧
      s'.stored = s.stored ++ (p.bytes.drop k).take m := by
  have hN := BUF_SIZE_eq
  have hlen : ((p.bytes.drop k).take m).length = m := by
    rw [List.length_take, List.length_drop]
    unfold Pbuf.tot_len at hn
    omega
  obtain ⟨b, hb, hc⟩ := put_spec h ((p.bytes.drop k).take m) (by omega) (by omega)
  rw [hlen] at hc
  have h1 : unsigned? 16 ((s.wr : ℤ) + m) = some (s.wr + m) := unsigned?_eq (by omega) (by omega)
  have h2 : unsigned? 16 ((s.count : ℤ) + m) = some (s.count + m) :=
    unsigned?_eq (by omega) (by omega)
  refine ⟨⟨b, s.count + m, s.dropped, (s.wr + m) % BUF_SIZE, s.rd⟩, ?_, ?_, rfl, rfl, hc⟩
  · unfold recvRest
    rw [lw.pbuf_copy_partial_eq]
    dsimp only
    rw [bind_of hb, hlen, bind_of h1, bind_of h2, Option.pure_def]
  · refine ⟨Nat.mod_lt _ (Nat.pos_of_neZero _), h.rd_lt, hroom, ?_, h.dropped_lt⟩
    dsimp only
    rw [h.wr_eq, Nat.mod_add_mod, Nat.add_assoc]

/-- The part of the chain there is room for. -/
def acceptedPart (s : IPStack) : Option Pbuf → List Byte
  | none => []
  | some p => p.bytes.take (BUF_SIZE - s.count)

/-- The number of bytes of a chain, 0 for the end of the connection. -/
def chainLen : Option Pbuf → ℕ
  | none => 0
  | some p => p.tot_len

theorem acceptedPart_eq {p : Pbuf} {n : ℕ} (hn : n = min p.tot_len (BUF_SIZE - s.count)) :
    s.acceptedPart (some p) = p.bytes.take n ∧ (s.acceptedPart (some p)).length = n := by
  unfold acceptedPart
  rw [List.length_take, List.take_eq_take_iff]
  unfold Pbuf.tot_len at hn
  omega

/-- `n` bytes behind the stored ones, in two parts or in one. -/
theorem copy_spec (h : Ok s) {n : ℕ} (hn : n ≤ p.tot_len) (hroom : s.count + n ≤ BUF_SIZE) :
    ∃ s' s'' m k, recvFirst lw s p n (s.wr + n) = some (s', m, k) ∧
      recvRest lw s' p m k = some s'' ∧ Ok s'' ∧ s''.count = s.count + n ∧ s''.dropped = s.dropped ∧
      s''.stored = s.stored ++ p.bytes.take n := by
  have hwr := h.wr_lt
  by_cases hw : s.wr + n > BUF_SIZE
  · obtain ⟨k, hk⟩ := Nat.exists_eq_add_of_le hwr.le
    obtain ⟨m, rfl⟩ := Nat.exists_eq_add_of_le (show k ≤ n by omega)
    obtain ⟨s', hs', hok, hwr0, hc, hd, hst⟩ := recvFirst_spec lw h hk.symm (by omega) hn hroom
    obtain ⟨s'', hs'', hok', hc', hd', hst'⟩ :=
      recvRest_spec lw hok (p := p) (k := k) (m := m) (by omega) hn (by omega)
    refine ⟨s', s'', m, k, hs', hs'', hok', by omega, hd'.trans hd, ?_⟩
    rw [hst', hst, List.append_assoc, List.take_add]
  · obtain ⟨s'', hs'', hok', hc', hd', hst'⟩ :=
      recvRest_spec lw h (p := p) (k := 0) (m := n) (by omega) (by omega) hroom
    exact ⟨s, s'', n, 0, if_neg hw, hs'', hok', hc', hd', by simpa using hst'⟩

/-- The drop counter, whether or not there is something to drop. -/
theorem dropped_eq (h : Ok s) {n t : ℕ} (hn : n ≤ t) :
    (if n < t then { s with dropped := toUnsigned 32 (s.dropped + ((t : ℤ) - n)) } else s) =
      { s with dropped := (s.dropped + (t - n)) % 2 ^ 32 } := by
  split
  · rw [show (s.dropped : ℤ) + ((t : ℤ) - n) = ((s.dropped + (t - n) : ℕ) : ℤ) by omega,
      toUnsigned_natCast]
  · rw [show t - n = 0 by omega, Nat.add_zero, Nat.mod_eq_of_lt h.dropped_lt]

/-- **The callback.** It never fails, appends the part of the chain there is
room for, counts the rest as dropped, and reports the whole chain. -/
theorem recv_spec (h : Ok s) (p : Option Pbuf) : ∃ s', tcp_client_recv lw s p = some (s', chainLen p) ∧
    Ok s' ∧ s'.count = s.count + (s.acceptedPart p).length ∧
      s'.stored = s.stored ++ s.acceptedPart p ∧
      s'.dropped = (s.dropped + (chainLen p - (s.acceptedPart p).length)) % 2 ^ 32 := by
  have hN := BUF_SIZE_eq
  have hcount := h.count_le
  have hwr := h.wr_lt
  rcases p with _ | p
  · exact ⟨s, rfl, h, rfl, (List.append_nil _).symm, (Nat.mod_eq_of_lt h.dropped_lt).symm⟩
  · have hp := p.tot_len_lt
    change p.tot_len < 2 ^ 16 at hp
    obtain ⟨n, hn⟩ : ∃ n, n = min p.tot_len (BUF_SIZE - s.count) := ⟨_, rfl⟩
    obtain ⟨hacc, hacclen⟩ := acceptedPart_eq (s := s) hn
    rw [hacc] at hacclen ⊢
    rw [hacclen]
    by_cases hpos : p.tot_len > 0
    · obtain ⟨room, hroom⟩ : ∃ room, BUF_SIZE = s.count + room := Nat.exists_eq_add_of_le hcount
      have h1 : unsigned? 16 ((BUF_SIZE : ℤ) - s.count) = some room :=
        unsigned?_eq (by omega) (by omega)
      have h2 : (if room > p.tot_len then p.tot_len else room) = n := by split <;> omega
      have h3 : unsigned? 16 ((s.wr : ℤ) + n) = some (s.wr + n) :=
        unsigned?_eq (by omega) (by omega)
      set s₁ : IPStack := { s with dropped := (s.dropped + (p.tot_len - n)) % 2 ^ 32 } with hs₁
      have hok₁ : Ok s₁ := ⟨h.wr_lt, h.rd_lt, h.count_le, h.wr_eq, Nat.mod_lt _ (by decide)⟩
      obtain ⟨s', s'', m, k, hcopy, hrest, hok, hc, hd, hst⟩ :=
        copy_spec lw hok₁ (show n ≤ p.tot_len by omega) (show s.count + n ≤ BUF_SIZE by omega)
      refine ⟨s'', ?_, hok, hc, hst, hd⟩
      rw [tcp_client_recv, if_pos hpos, bind_of h1, h2, bind_of h3,
        dropped_eq h (show n ≤ p.tot_len by omega), ← hs₁, bind_of hcopy]
      dsimp only
      rw [bind_of hrest]
      rfl
    · -- an empty chain changes nothing
      have hn0 : n = 0 := by omega
      have ht0 : p.tot_len = 0 := by omega
      refine ⟨s, ?_, h, by omega, by simp [hn0], ?_⟩
      · rw [tcp_client_recv, if_neg hpos, chainLen, ht0]
      · rw [chainLen, ht0, Nat.zero_sub, Nat.add_zero, Nat.mod_eq_of_lt h.dropped_lt]

end Recv
/-! ### Reading -/

section Read

variable {s : IPStack} {len : ℕ}

/-- The stored bytes split at any point. -/
theorem stored_split {n : ℕ} (hn : n ≤ s.count) : s.stored.take n = Fifo.contents s.buffer s.rd n ∧
    s.stored.drop n = Fifo.contents s.buffer ((s.rd + n) % BUF_SIZE) (s.count - n) := by
  have h : s.stored = Fifo.contents s.buffer s.rd n ++
      Fifo.contents s.buffer ((s.rd + n) % BUF_SIZE) (s.count - n) := by
    rw [Fifo.contents_mod, ← Fifo.contents_add, Nat.add_sub_cancel' hn, stored]
  rw [h]
  exact ⟨List.take_left' (Fifo.length_contents _ _ _), List.drop_left' (Fifo.length_contents _ _ _)⟩

/-- `out'` is `out` with `bs` over its first bytes. -/
def Filled (out out' : Vector Byte len) (bs : List Byte) : Prop :=
  out'.toList = bs ++ out.toList.drop bs.length

theorem store_filled {out out' : Vector Byte len} {bs : List Byte}
    (h : Buffer.store out 0 bs = some out') : Filled out out' bs := by
  have := (Buffer.toList_store h).2
  simpa [Filled] using this

theorem store_filled_append {out out' out'' : Vector Byte len} {bs bs' : List Byte}
    (h : Filled out out' bs) (h' : Buffer.store out' bs.length bs' = some out'') :
    Filled out out'' (bs ++ bs') := by
  have h2 := (Buffer.toList_store h').2
  rw [h, List.take_left, List.drop_append, List.drop_eq_nil_of_le (by omega), List.nil_append,
    List.drop_drop] at h2
  unfold Filled
  rw [h2, List.length_append]
  congr 2
  omega

/-- The copy in two parts: `k` bytes up to the end of the buffer and `m` from
its beginning. -/
theorem copyWrapped_spec (h : Ok s) (out : Vector Byte len) {k m : ℕ} (hk : s.rd + k = BUF_SIZE)
    (hm : 0 < m) (hc : k + m ≤ s.count) (hlen : k + m ≤ len) : ∃ out',
      copyWrapped s out ((k + m : ℕ) : ℤ) =
        some ({ s with rd := (s.rd + (k + m)) % BUF_SIZE, count := s.count - k }, out', (m : ℤ), k) ∧
      Filled out out' (s.stored.take (k + m)) := by
  have hN := BUF_SIZE_eq
  have hrd := h.rd_lt
  have hcount := h.count_le
  have hrd' : (s.rd + (k + m)) % BUF_SIZE = m := by
    rw [← Nat.add_assoc, hk, Nat.add_mod_left, Nat.mod_eq_of_lt (by omega)]
  have h1 : unsigned? 16 ((BUF_SIZE : ℤ) - s.rd) = some k := unsigned?_eq (by omega) (by omega)
  have h2 : unsigned? 16 ((s.count : ℤ) - k) = some (s.count - k) :=
    unsigned?_eq (by omega) (by omega)
  have h3 : size? (((k + m : ℕ) : ℤ) - k) = some m := size?_eq (by omega)
  have h4 : unsigned? 16 (((k + m : ℕ) : ℤ) - k) = some m := unsigned?_eq (by omega) (by omega)
  have hl1 : Buffer.load s.buffer s.rd k = some (Fifo.contents s.buffer s.rd k) :=
    Fifo.load_contents _ (by omega)
  have hl2 : Buffer.load s.buffer 0 m = some (Fifo.contents s.buffer (s.rd + k) m) := by
    rw [Fifo.load_contents _ (by omega), ← Fifo.contents_mod s.buffer (s.rd + k), hk, Nat.mod_self]
  obtain ⟨out₁, ho1⟩ := Buffer.store_isSome out (i := 0)
    (Fifo.contents s.buffer s.rd k) (by rw [Fifo.length_contents]; omega)
  obtain ⟨out₂, ho2⟩ := Buffer.store_isSome out₁ (i := k)
    (Fifo.contents s.buffer (s.rd + k) m) (by rw [Fifo.length_contents]; omega)
  refine ⟨out₂, ?_, ?_⟩
  · unfold copyWrapped
    rw [bind_of h1, if_pos (by omega), bind_of hl1, bind_of ho1, bind_of h2, pure_bind]
    dsimp only
    rw [bind_of h3, bind_of hl2, bind_of ho2, bind_of h4, hrd', Option.pure_def]
    congr 4
    omega
  · rw [(stored_split hc).1, Fifo.contents_add]
    exact store_filled_append (store_filled ho1) (by rw [Fifo.length_contents]; exact ho2)

theorem copyStraight_spec (out : Vector Byte len) {n : ℕ} (hend : s.rd + n ≤ BUF_SIZE)
    (hc : n ≤ s.count) (hlen : n ≤ len) : ∃ out', copyStraight s out (n : ℤ) =
        some ({ s with rd := (s.rd + n) % BUF_SIZE }, out', (n : ℤ), 0) ∧
      Filled out out' (s.stored.take n) := by
  have hN := BUF_SIZE_eq
  have h1 : size? (n : ℤ) = some n := size?_eq rfl
  have h2 : unsigned? 16 (((s.rd : ℤ) + n) % BUF_SIZE) = some ((s.rd + n) % BUF_SIZE) :=
    unsigned?_eq (by push_cast; rfl) (lt_trans (Nat.mod_lt _ (Nat.pos_of_neZero _)) (by omega))
  have hl : Buffer.load s.buffer s.rd n = some (Fifo.contents s.buffer s.rd n) :=
    Fifo.load_contents _ hend
  obtain ⟨out', ho⟩ := Buffer.store_isSome out (i := 0)
    (Fifo.contents s.buffer s.rd n) (by rw [Fifo.length_contents]; omega)
  refine ⟨out', ?_, ?_⟩
  · unfold copyStraight
    rw [bind_of h1, bind_of hl, bind_of ho, bind_of h2, Option.pure_def]
  · rw [(stored_split hc).1]
    exact store_filled ho

/-- Both copies take the first `n` stored bytes; the first leaves the count of
the second part to the caller. -/
theorem copyOut_spec (h : Ok s) (out : Vector Byte len) {n : ℕ} (hc : n ≤ s.count) (hlen : n ≤ len) :
    ∃ out' m k, m + k = n ∧ copyOut s out (n : ℤ) (s.rd + n) =
        some ({ s with rd := (s.rd + n) % BUF_SIZE, count := s.count - k }, out', (m : ℤ), k) ∧
      Filled out out' (s.stored.take n) := by
  have hrd := h.rd_lt
  by_cases hw : s.rd + n > BUF_SIZE
  · obtain ⟨k, hk⟩ := Nat.exists_eq_add_of_le hrd.le
    obtain ⟨m, rfl⟩ := Nat.exists_eq_add_of_le (show k ≤ n by omega)
    obtain ⟨out', ho, hf⟩ := copyWrapped_spec h out hk.symm (by omega) hc hlen
    exact ⟨out', m, k, Nat.add_comm _ _, by rw [copyOut, if_pos hw, ho], hf⟩
  · obtain ⟨out', ho, hf⟩ := copyStraight_spec out (show s.rd + n ≤ BUF_SIZE by omega) hc hlen
    exact ⟨out', n, 0, rfl, by rw [copyOut, if_neg hw, ho, Nat.sub_zero], hf⟩

/-- **The copy behind the polling loop.** It never fails, takes
`min count len` bytes from the front into the caller's array, and returns
their number. -/
theorem readCopy_spec (h : Ok s) (out : Vector Byte len) : ∃ s' out',
    readCopy s out = some (s', out', ((min s.count len : ℕ) : ℤ)) ∧ Ok s' ∧
      s'.stored = s.stored.drop (min s.count len) ∧ s'.dropped = s.dropped ∧
      s'.count = s.count - min s.count len ∧
      Filled out out' (s.stored.take (min s.count len)) := by
  have hN := BUF_SIZE_eq
  have hrd := h.rd_lt
  have hcount := h.count_le
  obtain ⟨n, hn⟩ : ∃ n, n = min s.count len := ⟨_, rfl⟩
  have hif : (if s.count < len then (s.count : ℤ) else (len : ℤ)) = n := by split <;> omega
  rw [← hn]
  by_cases h0 : n = 0
  · refine ⟨s, out, ?_, h, by simp [h0], rfl, by omega, by simp [Filled, h0]⟩
    unfold readCopy
    rw [hif, h0]
    rfl
  · obtain ⟨out', m, k, hmk, ho, hf⟩ := copyOut_spec h out (n := n) (by omega) (by omega)
    have h1 : unsigned? 16 ((s.rd : ℤ) + n) = some (s.rd + n) := unsigned?_eq (by omega) (by omega)
    have h2 : unsigned? 16 (((s.count - k : ℕ) : ℤ) - m) = some (s.count - n) :=
      unsigned?_eq (by omega) (by omega)
    refine ⟨{ s with rd := (s.rd + n) % BUF_SIZE, count := s.count - n }, out', ?_, ?_,
      (stored_split (s := s) (by omega)).2.symm, rfl, rfl, hf⟩
    · unfold readCopy
      rw [hif, if_pos (by omega), bind_of h1, bind_of ho]
      dsimp only
      rw [bind_of h2, Option.pure_def, ← hmk, Nat.cast_add]
    · refine ⟨h.wr_lt, Nat.mod_lt _ (Nat.pos_of_neZero _), by dsimp only; omega, ?_, h.dropped_lt⟩
      dsimp only
      rw [h.wr_eq, Nat.mod_add_mod, show s.rd + n + (s.count - n) = s.rd + s.count by omega]

end Read

/-! ### Runs -/

section Runs

variable (sdk : PicoTime) (lw : Lwip)

/-- The chains the polling loop of `read` delivers. -/
def delivered (len t : ℕ) : IPStack → List Poll → Poll → List (Option Pbuf)
  | _, [], last => last.chains
  | s, p :: ps, last =>
    match s.cyw43_arch_poll lw p.chains with
    | none => p.chains
    | some s' =>
      if s'.count < len ∧ sdk.time_reached p.now t = false then
        p.chains ++ delivered len t s' ps last
      else p.chains

/-- The polling loop does nothing but run the callbacks. -/
theorem pollLoop_eq (len t : ℕ) (last : Poll) : ∀ (s : IPStack) (ps : List Poll),
    pollLoop sdk lw len t s ps last = s.cyw43_arch_poll lw (delivered sdk lw len t s ps last)
  | s, [] => rfl
  | s, p :: ps => by
    rw [pollLoop, delivered]
    cases hp : s.cyw43_arch_poll lw p.chains with
    | none => simp [hp]
    | some s' =>
      simp only [Option.bind_eq_bind, Option.bind_some]
      split
      · rw [pollLoop_eq len t last s' ps]
        unfold cyw43_arch_poll at *
        rw [List.foldlM_append, hp]
        rfl
      · exact hp.symm

/-- The ring with what a run observed: the accepted parts of the chains, the
number of bytes not accepted, and all that `read` returned. -/
structure Log where
  ring : IPStack
  accepted : List Byte
  lost : ℕ
  returned : List Byte

/-- The callback, observed. -/
def Log.recv (l : Log) (p : Option Pbuf) : Option Log :=
  (tcp_client_recv lw l.ring p).map fun r =>
    { l with
      ring := r.1
      accepted := l.accepted ++ l.ring.acceptedPart p
      lost := l.lost + (chainLen p - (l.ring.acceptedPart p).length) }

/-- A callback outside `read`, or a `read` with all that its polls deliver. -/
inductive Event
  | recv (p : Option Pbuf)
  | read {len : ℕ} (out : Vector Byte len) (timeout : ℤ) (now : ℕ)
      (polls : Polls sdk (readDeadline sdk now timeout))

def Log.step (l : Log) : Event sdk → Option Log
  | .recv p => l.recv lw p
  | @Event.read _ len out timeout now polls => do
    let chains := delivered sdk lw len (readDeadline sdk now timeout) l.ring polls.before polls.last
    let l' ← chains.foldlM (Log.recv lw) l
    let (ring, out, k) ← l.ring.read sdk lw out timeout now polls
    pure { l' with ring, returned := l.returned ++ out.toList.take k.toNat }

/-- The constructor's ring; it leaves `dropped` at whatever it finds. -/
def Log.Init (d₀ : ℕ) (l : Log) : Prop :=
  l.ring.count = 0 ∧ l.ring.wr = 0 ∧ l.ring.rd = 0 ∧ l.ring.dropped = d₀ ∧
    l.accepted = [] ∧ l.lost = 0 ∧ l.returned = []

/-- The log shows the history `h` of a bounded queue. -/
structure Sim (d₀ : ℕ) (l : Log) (h : Fifo.Hist Byte BUF_SIZE) : Prop where
  ok : Ok l.ring
  items : h.queue.items = l.ring.stored
  accepted : h.accepted = l.accepted
  returned : h.returned = l.returned
  dropped : l.ring.dropped = (d₀ + l.lost) % 2 ^ 32

variable {sdk lw} {d₀ : ℕ} {l : Log} {h : Fifo.Hist Byte BUF_SIZE}

/-- A chain's bytes, none for the end of the connection. -/
def chainBytes : Option Pbuf → List Byte
  | none => []
  | some p => p.bytes

theorem Sim.accepted_eq (hs : Sim d₀ l h) (p : Option Pbuf) :
    h.queue.accepted (chainBytes p) = l.ring.acceptedPart p := by
  have hlen : h.queue.items.length = l.ring.count := by rw [hs.items, length_stored]
  cases p with
  | none => simp [Fifo.Queue.accepted, chainBytes, acceptedPart]
  | some p => rw [Fifo.Queue.accepted, hlen, chainBytes, acceptedPart]

/-- A callback is an offer. -/
theorem Sim.recv (lw : Lwip) (hs : Sim d₀ l h) (p : Option Pbuf) : ∃ l', l.recv lw p = some l' ∧
    Sim d₀ l' (h.apply (.offer (chainBytes p))) ∧ l'.returned = l.returned ∧
      tcp_client_recv lw l.ring p = some (l'.ring, chainLen p) := by
  obtain ⟨s', hr, hok, -, hst, hd⟩ := recv_spec lw hs.ok p
  refine ⟨⟨s', l.accepted ++ l.ring.acceptedPart p,
    l.lost + (chainLen p - (l.ring.acceptedPart p).length), l.returned⟩, by rw [Log.recv, hr]; rfl,
    ⟨hok, ?_, ?_, hs.returned, ?_⟩, rfl, hr⟩
  · simp only [Fifo.Hist.apply, Fifo.Queue.offer, hs.accepted_eq, hs.items, hst]
  · simp only [Fifo.Hist.apply, hs.accepted_eq, hs.accepted]
  · simp only [hd, hs.dropped, Nat.mod_add_mod, Nat.add_assoc]

/-- The callbacks of a poll, or of several, are as many offers. -/
theorem Sim.polls : ∀ (chains : List (Option Pbuf)) {l : Log} {h : Fifo.Hist Byte BUF_SIZE},
    Sim d₀ l h → ∃ l', chains.foldlM (Log.recv lw) l = some l' ∧
      Sim d₀ l' ((chains.map fun p => Fifo.Op.offer (chainBytes p)).foldl Fifo.Hist.apply h) ∧
      l'.returned = l.returned ∧ l.ring.cyw43_arch_poll lw chains = some l'.ring
  | [], l, h, hs => ⟨l, rfl, hs, rfl, rfl⟩
  | p :: chains, l, h, hs => by
    obtain ⟨l₁, h1, hs1, hr1, hc1⟩ := hs.recv lw p
    obtain ⟨l', h2, hs2, hr2, hc2⟩ := Sim.polls chains hs1
    refine ⟨l', by rw [List.foldlM_cons, bind_of h1, h2], hs2, hr2.trans hr1, ?_⟩
    unfold cyw43_arch_poll at *
    rw [List.foldlM_cons, bind_of (a := l₁.ring) (by rw [hc1]; rfl), hc2]

/-- The polling loop comes to its end, with the callbacks of `delivered`. -/
theorem Sim.pollLoop (sdk : PicoTime) (lw : Lwip) (hs : Sim d₀ l h) (len t : ℕ) (ps : List Poll)
    (last : Poll) : ∃ (l' : Log) (ops : List (Fifo.Op Byte)),
    (delivered sdk lw len t l.ring ps last).foldlM (Log.recv lw) l = some l' ∧
      Sim d₀ l' (ops.foldl Fifo.Hist.apply h) ∧ l'.returned = l.returned ∧
      IPStack.pollLoop sdk lw len t l.ring ps last = some l'.ring := by
  obtain ⟨l', h1, h2, h3, h4⟩ := Sim.polls (delivered sdk lw len t l.ring ps last) hs
  exact ⟨l', _, h1, h2, h3, by rw [pollLoop_eq, h4]⟩

/-- A read is a poll for as many items. -/
theorem Sim.readCopy (hs : Sim d₀ l h) {len : ℕ} (out : Vector Byte len) : ∃ s' out',
    IPStack.readCopy l.ring out = some (s', out', ((min l.ring.count len : ℕ) : ℤ)) ∧
      Sim d₀ { l with ring := s', returned := l.returned ++ out'.toList.take (min l.ring.count len) }
        (h.apply (.poll (min l.ring.count len))) := by
  obtain ⟨s', out', hr, hok, hst, hd, -, hf⟩ := readCopy_spec hs.ok out
  have htake : out'.toList.take (min l.ring.count len) = l.ring.stored.take (min l.ring.count len) := by
    have hl : (l.ring.stored.take (min l.ring.count len)).length = min l.ring.count len := by
      rw [List.length_take, length_stored]
      omega
    rw [hf]
    exact List.take_left' hl
  refine ⟨s', out', hr, hok, ?_, hs.accepted, ?_, hd.trans hs.dropped⟩
  · simp only [Fifo.Hist.apply, Fifo.Queue.poll, hs.items, hst]
  · simp only [Fifo.Hist.apply, Fifo.Queue.front, hs.items, hs.returned, htake]

/-- **Every event is a list of queue operations.** -/
theorem Sim.step (lw : Lwip) (hs : Sim d₀ l h) (e : Event sdk) :
    ∃ (l' : Log) (ops : List (Fifo.Op Byte)), l.step sdk lw e = some l' ∧
    Sim d₀ l' (ops.foldl Fifo.Hist.apply h) := by
  cases e with
  | recv p =>
    obtain ⟨l', hr, hs', -, -⟩ := hs.recv lw p
    exact ⟨l', [.offer (chainBytes p)], hr, hs'⟩
  | @read len out timeout now polls =>
    obtain ⟨l₁, ops, hd, hs₁, hret, hp⟩ := hs.pollLoop sdk lw len
      (readDeadline sdk now timeout) polls.before polls.last
    obtain ⟨s', out', hr, hs'⟩ := hs₁.readCopy out
    refine ⟨_, ops ++ [.poll (min l₁.ring.count len)], ?_, by rw [List.foldl_append]; exact hs'⟩
    rw [Log.step]
    dsimp only
    rw [bind_of hd, IPStack.read, bind_of (a := (s', out', _)) (by rw [bind_of hp]; exact hr), hret]
    rfl

theorem sim_init (hd : d₀ < 2 ^ 32) (hi : l.Init d₀) : Sim d₀ l Fifo.Hist.empty := by
  obtain ⟨hc, hw, hr, hdr, ha, hl, hret⟩ := hi
  refine ⟨⟨?_, ?_, ?_, ?_, ?_⟩, ?_, ha.symm, hret.symm, ?_⟩
  · rw [hw]; exact Nat.pos_of_neZero _
  · rw [hr]; exact Nat.pos_of_neZero _
  · rw [hc]; exact Nat.zero_le _
  · rw [hw, hr, hc]; rfl
  · rw [hdr]; exact hd
  · rw [stored, hc]; rfl
  · rw [hdr, hl, Nat.add_zero, Nat.mod_eq_of_lt hd]

/-- **The ring refines the bounded queue**: what a run's log shows is the
history of queue operations. -/
theorem reach_sim (hd : d₀ < 2 ^ 32) (hr : Reach (Log.step sdk lw) (Log.Init d₀) Always l) :
    ∃ ops, Sim d₀ l (Fifo.Hist.run ops) := by
  refine hr.invariant (J := fun l => ∃ ops, Sim d₀ l (Fifo.Hist.run ops))
    (fun l hi => ⟨[], sim_init hd hi⟩) fun l e l' ⟨ops, hs⟩ _ hst => ?_
  obtain ⟨l'', ops', hst', hs'⟩ := hs.step lw e
  obtain rfl : l'' = l' := Option.some.inj (hst'.symm.trans hst)
  exact ⟨ops ++ ops', by rw [Fifo.Hist.run, List.foldl_append]; exact hs'⟩

/-- The queue loses and repeats nothing, so neither does the ring. -/
theorem Sim.conserved {ops : List (Fifo.Op Byte)} (hs : Sim d₀ l (Fifo.Hist.run ops)) :
    l.returned ++ l.ring.stored = l.accepted := by
  have hcons : (Fifo.Hist.run ops : Fifo.Hist Byte BUF_SIZE).Conserved :=
    Fifo.Hist.run_conserved ops
  unfold Fifo.Hist.Conserved at hcons
  rwa [hs.items, hs.accepted, hs.returned] at hcons

/-- **The receive ring is a FIFO queue of 2048 bytes.** In every state that
callbacks and reads reach: what was returned followed by what is stored is
what was accepted, `dropped` has grown by the bytes not accepted, the indices
are in range, no event fails (no `uint16_t` wraps and no copy leaves its
array), and a read returns `min len count` bytes of what its polls leave. -/
theorem ring_refines_fifo (sdk : PicoTime) (lw : Lwip) (d₀ : Fin (2 ^ 32)) {l : Log}
    (hr : Reach (Log.step sdk lw) (Log.Init d₀) Always l) :
    l.returned ++ Fifo.contents l.ring.buffer l.ring.rd l.ring.count = l.accepted ∧
      l.ring.dropped = (d₀ + l.lost) % 2 ^ 32 ∧
      l.ring.wr < BUF_SIZE ∧ l.ring.rd < BUF_SIZE ∧ l.ring.count ≤ BUF_SIZE ∧
      (∀ e, ∃ l', l.step sdk lw e = some l') ∧
      ∀ (len : ℕ) (out : Vector Byte len) (timeout : ℤ) (now : ℕ)
        (polls : Polls sdk (readDeadline sdk now timeout)), ∃ s s' out',
        pollLoop sdk lw len (readDeadline sdk now timeout) l.ring polls.before polls.last = some s ∧
        l.ring.read sdk lw out timeout now polls = some (s', out', ((min s.count len : ℕ) : ℤ)) := by
  obtain ⟨ops, hs⟩ := reach_sim d₀.2 hr
  refine ⟨hs.conserved, hs.dropped, hs.ok.wr_lt, hs.ok.rd_lt, hs.ok.count_le, fun e => ?_, ?_⟩
  · obtain ⟨l', -, hst, -⟩ := hs.step lw e
    exact ⟨l', hst⟩
  · intro len out timeout now polls
    obtain ⟨l₁, ops', -, hs₁, -, hp⟩ := hs.pollLoop sdk lw len
      (readDeadline sdk now timeout) polls.before polls.last
    obtain ⟨s', out', hrc, -⟩ := hs₁.readCopy out
    exact ⟨l₁.ring, s', out', hp, by rw [IPStack.read, bind_of hp, hrc]⟩

/-- A new ring. -/
def Log.new (d₀ : ℕ) : Log := ⟨⟨Vector.replicate _ 0, 0, d₀, 0, 0⟩, [], 0, []⟩

theorem Log.new_init (d₀ : ℕ) : (Log.new d₀).Init d₀ := ⟨rfl, rfl, rfl, rfl, rfl, rfl, rfl⟩

/-- A chain of one buffer. -/
def Pbuf.single (bs : List Byte) (h : bs.length < 2 ^ 16) : Pbuf := ⟨[bs], by simpa using h⟩

/-- A poll without callbacks, at the deadline. -/
def quietPoll (t : ℕ) : Polls .documented t := ⟨[], ⟨[], t⟩, by simp [PicoTime.documented]⟩

/-- A `read` of `len` bytes at time 0, without callbacks. -/
def quietRead (len : ℕ) : Event .documented := .read (Vector.replicate len 0) 0 0 (quietPoll _)

/-- A segment of which a part is read, and a chain of two buffers that reaches past the end of the array and is not
wholly accepted; then a read that goes round the end itself. -/
def wrapping : List (Event .documented) :=
  [.recv (Pbuf.single (List.replicate 1460 1) (by decide +kernel)), quietRead 1000,
    .recv (some ⟨[List.replicate 1000 2, List.replicate 700 3], by decide +kernel⟩), quietRead 1100]

theorem ring_refines_fifo_wrapping : ∃ l, run (Log.step .documented .documented) (Log.new 7) wrapping = some l ∧
    l.lost = 112 ∧ l.returned.length = 2100 ∧ l.ring.count = 948 ∧
    l.returned ++ Fifo.contents l.ring.buffer l.ring.rd l.ring.count = l.accepted ∧ l.ring.dropped = 119 := by
  have h : (run (Log.step .documented .documented) (Log.new 7) wrapping).any
      (fun l => l.lost = 112 ∧ l.returned.length = 2100 ∧ l.ring.count = 948) = true := by decide +kernel
  obtain ⟨l, hl, hp⟩ := (Option.any_eq_true _ _).mp h
  obtain ⟨hlost, hreturned, hcount⟩ := of_decide_eq_true hp
  have hr : Reach (Log.step .documented .documented) (Log.Init 7) Always l :=
    (Reach.init (Log.new_init 7)).run (fun _ _ _ => trivial) hl
  obtain ⟨hqueue, hdropped, -⟩ := ring_refines_fifo .documented .documented 7 hr
  exact ⟨l, hl, hlost, hreturned, hcount, hqueue, by rw [hdropped, hlost]; rfl⟩

end Runs

end IPStack
end Ventilation
