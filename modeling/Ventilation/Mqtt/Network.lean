/-
# The client on its network (MQTTClient.h, src/IPStack.cpp)

`IPStack::read` is the source that the client reads from. From a ring whose indices are right
it takes what has arrived first, whatever its polls meet (`networkRead_spec`). So it is a source
of any bytes (`gives_networkRead`), and of those that have arrived (`supplied_networkRead`): the packets
that have arrived in the ring are handled one by one as the session handles them
(`ring_refines`).
-/
import Ventilation.IPStackFlow
import Ventilation.Mqtt.Safety

namespace Ventilation

open Machine Wire

namespace IPStack

variable (sdk : PicoTime) (lw : Lwip)

/-- What a `read` is called with and meets. -/
structure Call where
  timeout : ℤ
  now : ℕ
  polls : Polls sdk (readDeadline sdk now timeout)

/-- `read` of `n` bytes for the client, as its call number `k`: the bytes it returns. -/
def networkRead (calls : ℕ → Call sdk) (n : ℕ) : StateT (IPStack × ℕ) Option (List Byte) := fun (state, k) => do
  let (state, out, count) ← state.read sdk lw (Vector.replicate n 0) (calls k).timeout (calls k).now (calls k).polls
  return (out.toList.take count.toNat, state, k + 1)

variable {sdk} {s : IPStack}

/-- The callbacks keep what is stored. -/
theorem poll_prefix : ∀ (chains : List (Option Pbuf)) {s : IPStack}, Ok s →
    ∃ s', s.cyw43_arch_poll lw chains = some s' ∧ Ok s' ∧ s.stored <+: s'.stored
  | [], s, h => ⟨s, rfl, h, List.prefix_rfl⟩
  | p :: chains, s, h => by
    obtain ⟨s₁, hrecv, hok, -, hstored, -⟩ := recv_spec lw h p
    obtain ⟨s', hpoll, hok', hprefix⟩ := poll_prefix chains hok
    refine ⟨s', ?_, hok', (List.prefix_append _ _).trans (hstored ▸ hprefix)⟩
    have hmap : (tcp_client_recv lw s p).map (·.1) = some s₁ := by rw [hrecv]; rfl
    unfold cyw43_arch_poll at hpoll ⊢
    rw [List.foldlM_cons, bind_of hmap, hpoll]

/-- **A read takes what was stored first**, and leaves the rest with what has arrived behind it. -/
theorem networkRead_spec (calls : ℕ → Call sdk) (n k : ℕ) (h : Ok s) : ∃ bs s' later,
    networkRead sdk lw calls n (s, k) = some (bs, s', k + 1) ∧ Ok s' ∧ bs = (s.stored ++ later).take n ∧
      s'.stored = (s.stored ++ later).drop n := by
  obtain ⟨s₁, hpoll, hok, later, hlater⟩ := poll_prefix lw
    (delivered sdk lw n (readDeadline sdk (calls k).now (calls k).timeout) s (calls k).polls.before (calls k).polls.last) h
  obtain ⟨s', out, hcopy, hok', hstored, -, -, hfilled⟩ := readCopy_spec hok (Vector.replicate n (0 : Byte))
  have hcount : s₁.stored.length = s₁.count := length_stored s₁
  have htake : s₁.stored.take (min s₁.count n) = s₁.stored.take n := by
    rw [← hcount, List.take_eq_take_iff]
    omega
  have hdrop : s₁.stored.drop (min s₁.count n) = s₁.stored.drop n := by
    rcases Nat.le_total s₁.count n with hle | hle
    · rw [Nat.min_eq_left hle, List.drop_eq_nil_of_le (by omega), List.drop_eq_nil_of_le (by omega)]
    · rw [Nat.min_eq_right hle]
  have hout : out.toList.take (min s₁.count n) = s₁.stored.take n := by
    have hlen : (s₁.stored.take (min s₁.count n)).length = min s₁.count n := by
      rw [List.length_take]
      omega
    unfold Filled at hfilled
    rw [hfilled, List.take_append_of_le_length (by omega), List.take_of_length_le (by omega), htake]
  have hread : s.read sdk lw (Vector.replicate n (0 : Byte)) (calls k).timeout (calls k).now (calls k).polls =
      some (s', out, ((min s₁.count n : ℕ) : ℤ)) := by
    rw [IPStack.read, pollLoop_eq, bind_of hpoll, hcopy]
  refine ⟨s₁.stored.take n, s', later, ?_, hok', by rw [hlater], by rw [hlater, hstored, hdrop]⟩
  unfold networkRead
  dsimp only
  rw [bind_of hread, ← hout, Int.toNat_natCast]
  rfl

/-- Bytes have arrived. -/
def Arrived (s : IPStack × ℕ) (bs : List Byte) : Prop := Ok s.1 ∧ bs <+: s.1.stored

theorem supplied_networkRead (calls : ℕ → Call sdk) : Supplied (networkRead sdk lw calls) Arrived := by
  rintro ⟨s, k⟩ bs n ⟨hok, tail, htail⟩ hn
  obtain ⟨bs', s', later, hread, hok', hbs', hstored⟩ := networkRead_spec lw calls n k hok
  have hsplit : s.stored ++ later = bs ++ (tail ++ later) := by rw [← htail, List.append_assoc]
  refine ⟨(s', k + 1), ?_, hok', ?_⟩
  · rw [hread, hbs', hsplit, List.take_append_of_le_length hn]
  · rw [hstored, hsplit, List.drop_append_of_le_length hn]
    exact List.prefix_append _ _

theorem gives_networkRead (calls : ℕ → Call sdk) : Gives (networkRead sdk lw calls) fun s => Ok s.1 := by
  rintro n ⟨s, k⟩ hok
  obtain ⟨bs, s', later, hread, hok', rfl, -⟩ := networkRead_spec lw calls n k hok
  exact ⟨_, _, hread, List.length_take_le _ _, hok'⟩

/-- What a new ring receives in one chain. -/
theorem arrived_of_recv (bs : List Byte) (hlen : bs.length ≤ BUF_SIZE) (h : bs.length < 2 ^ 16) (k : ℕ) : ∃ s,
    tcp_client_recv lw (Log.new 0).ring (some (Pbuf.single bs h)) = some (s, bs.length) ∧ Arrived (s, k) bs := by
  have hok : Ok (Log.new 0).ring := (sim_init (by decide) (Log.new_init 0)).ok
  obtain ⟨s, hrecv, hok', -, hstored, -⟩ := recv_spec lw hok (some (Pbuf.single bs h))
  have hbytes : (Pbuf.single bs h).bytes = bs := List.flatten_singleton
  have hlength : chainLen (some (Pbuf.single bs h)) = bs.length := congrArg List.length hbytes
  refine ⟨s, hlength ▸ hrecv, hok', ?_⟩
  have hnew : (Log.new 0).ring.acceptedPart (some (Pbuf.single bs h)) = bs := by
    rw [acceptedPart, hbytes]
    exact List.take_of_length_le hlen
  have hempty : (Log.new 0).ring.stored = [] := List.eq_nil_of_length_eq_zero (length_stored _)
  rw [hstored, hnew, hempty, List.nil_append]

/-- Reads without callbacks. -/
def quietCalls (_ : ℕ) : Call .documented := ⟨0, 0, quietPoll _⟩

end IPStack

namespace Mqtt

open IPStack

variable {sdk : PicoTime} (lw : Lwip)

/-- **Packets that have arrived in the ring are handled one by one, in order**, as the session handles them, whatever
arrives meanwhile and however the reads end. -/
theorem ring_refines (calls : ℕ → Call sdk) {turns : List Turn} (hturns : ∀ t ∈ turns, t.Fits ∧ t.arriving ≠ none)
    (c : Client) {s : IPStack × ℕ} (rest : List Byte) (hs : Arrived s (burst turns ++ rest)) :
    ∃ c' s', RunRefines (networkRead sdk lw calls) turns c s c' s' ∧ Arrived s' rest :=
  burst_refines (supplied_networkRead lw calls) turns c rest hturns hs

/-- A message and a PINGRESP in a new ring. -/
theorem ring_refines_conversation : ∃ s c' s' answers,
    tcp_client_recv .documented (Log.new 0).ring (some (Pbuf.single (burst (conversation.drop 1)) (by decide +kernel))) =
      some (s, (burst (conversation.drop 1)).length) ∧
    (Client.listening.cycles ((conversation.drop 1).map Turn.flags)).run (networkRead .documented .documented quietCalls) (s, 0) =
      some ((c', answers), s') ∧
    c'.session.arrived = [switched] ∧ answers.map some = [(Packet.PUBACK 7).answerBytes] := by
  obtain ⟨s, hrecv, hs⟩ := arrived_of_recv .documented (burst (conversation.drop 1)) (by decide +kernel) (by decide +kernel) 0
  have hturns : ∀ t ∈ conversation.drop 1, t.Fits ∧ t.arriving ≠ none := by
    intro t ht
    refine ⟨fits_conversation t (List.mem_of_mem_drop ht), ?_⟩
    simp only [conversation, List.drop_succ_cons, List.drop_zero, List.mem_cons, List.not_mem_nil, or_false] at ht
    rcases ht with rfl | rfl <;> exact Option.some_ne_none _
  obtain ⟨c', s', ⟨answers, packets, hrun, hsession, hanswers⟩, -⟩ :=
    ring_refines .documented quietCalls hturns .listening [] (by rw [List.append_nil]; exact hs)
  obtain ⟨harrived, hpackets⟩ := cycles_conversation
  -- the quiet cycle in front changes nothing
  have hquiet : Client.listening.session.cycles (conversation.map Turn.event) =
      Client.listening.session.cycles ((conversation.drop 1).map Turn.event) := rfl
  rw [hquiet, hsession] at harrived hpackets
  exact ⟨s, c', s', answers, hrecv, hrun, harrived, hanswers.trans hpackets⟩

end Mqtt

end Ventilation
