/-
# What the status messages say of the sensors

The loop sends what the getters find in the receive buffers and never asks
`is_ok`. A message therefore carries each sensor's most recent good reading
as long as every transfer before it either brought an intact reply or left
the places the getters read as they were (`readings_faithful`); a corrupted
reply is published as it is (`corrupted_reading_sent`).
-/
import Ventilation.StatusLoopCommands

namespace Ventilation
namespace StatusLoop

open MODBUSRegister

/-! ### The most recent good readings -/

/-- The value a message gives of a sensor. -/
def reading (status : Status) : Sensor → BitVec 32
  | .rh => status.rh
  | .absh => status.ah
  | .temp => status.temp
  | .co => status.co2

/-- The most recent good readings behind an action: the end of a transfer for
which `is_ok` holds brings the value of its reply. -/
def noted (last : Sensor → Option (BitVec 32)) : Action → Sensor → Option (BitVec 32)
  | .transfer r bytes reg =>
    if ReadRegister.is_ok reg = some true then Function.update last r (carried bytes) else last
  | _ => last

/-- Each message gives the most recent good reading of each sensor. -/
def Faithful : (Sensor → Option (BitVec 32)) → List Action → Prop
  | _, [] => True
  | last, a :: as =>
    (∀ status, a = .send status → ∀ r, last r = some (reading status r)) ∧ Faithful (noted last a) as

/-- The most recent good readings behind a log: there is none before it. -/
def latest (log : List Action) : Sensor → Option (BitVec 32) := log.foldl noted fun _ => none

theorem faithful_append : ∀ (as bs : List Action) (last : Sensor → Option (BitVec 32)),
    Faithful last (as ++ bs) ↔ Faithful last as ∧ Faithful (as.foldl noted last) bs
  | [], bs, last => by simp [Faithful]
  | a :: as, bs, last => by
    simp only [List.cons_append, Faithful, List.foldl_cons, faithful_append as bs, and_assoc]

theorem latest_append (log as : List Action) : latest (log ++ as) = as.foldl noted (latest log) :=
  List.foldl_append

/-- A value handed to the fan neither brings nor sends a reading. -/
theorem noted_handed {as : List Action} (h : ∀ a ∈ as, Handed a)
    (last : Sensor → Option (BitVec 32)) : as.foldl noted last = last ∧ Faithful last as := by
  induction as with
  | nil => exact ⟨rfl, trivial⟩
  | cons a as ih =>
    obtain ⟨ih1, ih2⟩ := ih fun b hb => h b (List.mem_cons_of_mem a hb)
    have ha := h a List.mem_cons_self
    cases a with
    | hand value fan => exact ⟨ih1, (fun _ h => by cases h), ih2⟩
    | transfer r bytes reg => exact ha.elim
    | send status => exact ha.elim

/-! ### Clean transfers -/

/-- A transfer the getters can stand: an intact reply that carries a value, or,
once there has been one, bytes that agree with what the getters read. -/
def CleanTransfer (last : Option (BitVec 32)) (reg : MODBUSRegister) (bytes : List Byte) : Prop :=
  (Intact bytes ∧ carried bytes ≠ none) ∨ (¬ Intact bytes ∧ last ≠ none ∧ reg.Agrees bytes)

/-- In an iteration that reads the sensors to send their values, each transfer
is clean. -/
def CleanTurn (use_wifi : Bool) (p : StatusLoop × List Action) (t : Turn) : Prop :=
  use_wifi = true → p.1.Due t →
    ∀ r, CleanTransfer (latest p.2 r) (p.1.regs r) (t.reply r).bytes

/-- The getters find the most recent good readings, where there are any. -/
def Current (last : Sensor → Option (BitVec 32)) (regs : Sensor → MODBUSRegister) : Prop :=
  ∀ r v, last r = some v → (regs r).get_float = v

/-- A clean transfer keeps that, and leaves a good reading of its sensor. -/
theorem transfer_clean {s : StatusLoop} {t : Turn} {r : Sensor}
    {last : Sensor → Option (BitVec 32)} (hcur : Current last s.regs)
    (hclean : CleanTransfer (last r) (s.regs r) (t.reply r).bytes) : ∃ reg,
    s.transfer t r = some ({ s with regs := Function.update s.regs r reg },
      .transfer r (t.reply r).bytes reg) ∧
    Current (noted last (.transfer r (t.reply r).bytes reg)) (Function.update s.regs r reg) ∧
    noted last (.transfer r (t.reply r).bytes reg) r ≠ none ∧
    ∀ r', r' ≠ r → noted last (.transfer r (t.reply r).bytes reg) r' = last r' := by
  obtain ⟨reg, hreg⟩ := receive_isSome (s.regs r)
    (le_trans (t.reply r).length_le (by decide))
  refine ⟨reg, by rw [transfer, Machine.bind_of hreg]; rfl, ?_⟩
  rcases hclean with ⟨hintact, hcarried⟩ | ⟨hintact, hlast, hagrees⟩
  · have hnoted : noted last (.transfer r (t.reply r).bytes reg) =
        Function.update last r (carried (t.reply r).bytes) :=
      if_pos (by rw [is_ok_receive hreg, decide_eq_true hintact])
    rw [hnoted]
    refine ⟨?_, by rw [Function.update_self]; exact hcarried,
      fun r' hne => Function.update_of_ne hne _ _⟩
    intro r' v hv
    by_cases he : r' = r
    · subst he
      rw [Function.update_self] at hv ⊢
      exact get_float_of_carried hreg hv
    · rw [Function.update_of_ne he] at hv ⊢
      exact hcur r' v hv
  · have hnoted : noted last (.transfer r (t.reply r).bytes reg) = last :=
      if_neg (by rw [is_ok_receive hreg, decide_eq_false hintact]; decide)
    rw [hnoted]
    refine ⟨?_, hlast, fun r' _ => rfl⟩
    intro r' v hv
    by_cases he : r' = r
    · subst he
      rw [Function.update_self, get_float_of_agrees hreg hagrees]
      exact hcur r' v hv
    · rw [Function.update_of_ne he]
      exact hcur r' v hv

/-- Clean transfers one after the other, of different sensors. -/
theorem transfers_clean (t : Turn) : ∀ (rs : List Sensor) (s : StatusLoop)
    (last : Sensor → Option (BitVec 32)), rs.Nodup → Current last s.regs →
    (∀ r ∈ rs, CleanTransfer (last r) (s.regs r) (t.reply r).bytes) →
    ∃ regs acts, transfers t s rs = some ({ s with regs }, acts) ∧
      Current (acts.foldl noted last) regs ∧ Faithful last acts ∧
      (∀ r ∈ rs, acts.foldl noted last r ≠ none) ∧
      ∀ r, r ∉ rs → acts.foldl noted last r = last r
  | [], s, last, _, hcur, _ =>
    ⟨s.regs, [], rfl, hcur, trivial, (fun r hr => by cases hr), fun _ _ => rfl⟩
  | r :: rs, s, last, hnodup, hcur, hclean => by
    obtain ⟨hr, hnodup⟩ := List.nodup_cons.mp hnodup
    obtain ⟨reg, htr, hcur', hsome, hothers⟩ := transfer_clean hcur (hclean r List.mem_cons_self)
    obtain ⟨regs, acts, hrest, hcurrent, hfaithful, hread, hkept⟩ :=
      transfers_clean t rs { s with regs := Function.update s.regs r reg } _ hnodup hcur' fun r' hr' => by
        have hne : r' ≠ r := fun he => hr (he ▸ hr')
        rw [hothers r' hne]
        dsimp only
        rw [Function.update_of_ne hne]
        exact hclean r' (List.mem_cons_of_mem r hr')
    refine ⟨regs, _ :: acts, ?_, hcurrent, ⟨(fun _ h => by cases h), hfaithful⟩, ?_, ?_⟩
    · rw [transfers, Machine.bind_of htr]
      dsimp only
      rw [Machine.bind_of hrest]
      rfl
    · intro r' hr'
      rcases List.mem_cons.mp hr' with rfl | hr'
      · rw [List.foldl_cons, hkept _ hr]
        exact hsome
      · exact hread r' hr'
    · intro r' hr'
      rw [List.mem_cons, not_or] at hr'
      rw [List.foldl_cons, hkept r' hr'.2, hothers r' hr'.1]

/-! ### Runs -/

/-- A report: with clean transfers it is faithful and leaves the getters current. -/
theorem report_clean {s : StatusLoop} {t : Turn} (mode : Bool) {last : Sensor → Option (BitVec 32)}
    (hcur : Current last s.regs)
    (hclean : s.Due t → ∀ r, CleanTransfer (last r) (s.regs r) (t.reply r).bytes) :
    ∃ send_time regs acts, report true s t mode = some ({ s with send_time, regs }, acts) ∧
      Current (acts.foldl noted last) regs ∧ Faithful last acts := by
  unfold report
  split
  · rename_i hdue
    obtain ⟨regs, acts, htr, hcurrent, hfaithful, hread, -⟩ := transfers_clean t Sensor.order
      { s with send_time := t.send_now } last (by decide) hcur fun r _ => hclean hdue r
    rw [Machine.bind_of htr]
    refine ⟨_, regs, _, rfl, ?_, ?_⟩
    · rw [List.foldl_append]
      exact hcurrent
    · rw [faithful_append]
      refine ⟨hfaithful, ?_, trivial⟩
      intro status hstatus r
      obtain rfl := Action.send.inj hstatus
      obtain ⟨v, hv⟩ := Option.ne_none_iff_exists'.mp (hread r (by cases r <;> decide))
      rw [hv, ← hcurrent r v hv]
      cases r <;> rfl
  · exact ⟨s.send_time, s.regs, [], rfl, hcur, trivial⟩

/-- Where nothing is sent, nothing wrong is. -/
theorem faithful_of_no_send : ∀ (as : List Action) (last : Sensor → Option (BitVec 32)),
    (∀ status, .send status ∉ as) → Faithful last as
  | [], _, _ => trivial
  | a :: as, _, h =>
    ⟨fun status he => (h status (he ▸ List.mem_cons_self)).elim,
      faithful_of_no_send as _ fun status hs => h status (List.mem_cons_of_mem a hs)⟩

/-- An iteration with clean transfers. -/
theorem iterate_clean {s : StatusLoop} {t : Turn} (h : InRange s)
    {last : Sensor → Option (BitVec 32)} (hcur : Current last s.regs)
    (hclean : s.Due t → ∀ r, CleanTransfer (last r) (s.regs r) (t.reply r).bytes) :
    ∃ s' acts, iterate true s t = some (s', acts) ∧ Current (acts.foldl noted last) s'.regs ∧
      Faithful last acts := by
  obtain ⟨input, display_mode, hmenu⟩ := menu_eq s t
  obtain ⟨c, handed, hc, hspec⟩ := control_spec (h.menu t) t
  have hregs : c.regs = s.regs := by rw [hspec.regs, hmenu]
  have hdue : c.Due t ↔ s.Due t := by
    unfold Due
    rw [hspec.send_time, hmenu]
  obtain ⟨hlast, hfaithful⟩ := noted_handed hspec.handed last
  have hcur : Current last c.regs := hregs ▸ hcur
  obtain ⟨send_time, regs, acts, hr, hcurrent, hsent⟩ := report_clean (t := t) (s.menu t).2 hcur
    fun hd r => hregs ▸ hclean (hdue.mp hd) r
  refine ⟨_, _, iterate_of hc hr, ?_, ?_⟩
  · rw [List.foldl_append, hlast]
    exact hcurrent
  · rw [faithful_append, hlast]
    exact ⟨hfaithful, hsent⟩

/-- **What the messages say.** In every run in which each transfer brings an
intact reply, or bytes that agree with what the getters read once there has
been an intact one, every status message gives each sensor's most recent good
reading. -/
theorem readings_faithful {use_wifi : Bool} {s : StatusLoop} {log : List Action}
    (h : Machine.Reach (logged use_wifi) Start (CleanTurn use_wifi) (s, log)) :
    Faithful (fun _ => none) log := by
  cases use_wifi with
  | false =>
    refine faithful_of_no_send log _ ?_
    refine h.invariant_of (K := fun p => InRange p.1)
      (J := fun p => ∀ status, .send status ∉ p.2) (fun _ => inRange_of_reach) ?_ ?_
    · rintro _ ⟨_, _, _, _, rfl⟩ status hs
      cases List.mem_singleton.mp hs
    · rintro ⟨s, log⟩ t p hrange hno - hstep status hs
      obtain ⟨s', acts, -, hi, -, hacts, -⟩ := iterate_spec false hrange t
      rw [logged, hi, Option.map_some, Option.some.injEq] at hstep
      subst hstep
      rcases List.mem_append.mp hs with hs | hs
      · exact hno status hs
      · rcases hacts _ hs with h | h
        · exact h.elim
        · cases h
  | true =>
    refine (h.invariant_of (K := fun p => InRange p.1)
      (J := fun p => Faithful (fun _ => none) p.2 ∧ Current (latest p.2) p.1.regs)
      (fun _ => inRange_of_reach) ?_ ?_).1
    · rintro _ ⟨_, _, _, _, rfl⟩
      exact ⟨⟨(fun _ h => by cases h), trivial⟩, fun r v hv => by cases hv⟩
    · rintro ⟨s, log⟩ t p hrange ⟨hfaithful, hcur⟩ hclean hstep
      obtain ⟨s', acts, hi, hcurrent, hsent⟩ := iterate_clean hrange hcur (hclean rfl)
      rw [logged, hi, Option.map_some, Option.some.injEq] at hstep
      subst hstep
      exact ⟨(faithful_append _ _ _).mpr ⟨hfaithful, hsent⟩, latest_append log acts ▸ hcurrent⟩

/-! ### A corrupted reply -/

/-- Intact replies of the two devices, each with the value 400. -/
def goodReply : Sensor → Reply
  | .rh | .absh => ⟨[0xf1, 3, 4, 0, 0, 0x43, 0xc8, 0x3a, 0x9a], by decide⟩
  | .temp | .co => ⟨[0xf0, 3, 4, 0, 0, 0x43, 0xc8, 0x2a, 0x5a], by decide⟩

/-- The same, with a bit of the CO2 sensor's value flipped. -/
def badReply : Sensor → Reply
  | .co => ⟨[0xf0, 3, 4, 0, 0, 0x43, 0xc9, 0x2a, 0x5a], by decide⟩
  | r => goodReply r

/-- An iteration that reads the sensors and meets nothing else. -/
def readTurn (now : BitVec 32) (reply : Sensor → Reply) : Turn :=
  { idleTurn [] with send_now := now, reply }

theorem goodReply_intact : ∀ r, Intact (goodReply r).bytes ∧ carried (goodReply r).bytes ≠ none
  | .rh | .absh | .temp | .co => by decide

theorem cleanTurn_good (p : StatusLoop × List Action) (now : BitVec 32) :
    CleanTurn true p (readTurn now goodReply) := fun _ _ r => .inl (goodReply_intact r)

/-- A run of two iterations with intact replies. -/
theorem readings_faithful_good : ∃ s log,
    Machine.run (logged true) blankStart [readTurn 6000 goodReply, readTurn 12000 goodReply] =
      some (s, log) ∧ Faithful (fun _ => none) log := by
  have hstart : Machine.Reach (logged true) Start (CleanTurn true) blankStart :=
    .init ⟨_, _, _, _, rfl⟩
  have hclean : ∀ t ∈ [readTurn 6000 goodReply, readTurn 12000 goodReply], ∀ p,
      CleanTurn true p t := by
    intro t ht p
    simp only [List.mem_cons, List.not_mem_nil, or_false] at ht
    rcases ht with rfl | rfl <;> exact cleanTurn_good p _
  exact ⟨_, _, rfl, readings_faithful (hstart.run hclean rfl)⟩

/-- The corrupted reply is published, though `is_ok` does not hold for it. -/
theorem corrupted_reading_sent : ∃ s log,
    Machine.run (logged true) blankStart [readTurn 6000 goodReply, readTurn 12000 badReply] =
      some (s, log) ∧ ¬ Faithful (fun _ => none) log := by
  refine ⟨_, _, rfl, fun h => ?_⟩
  -- behind the hand-over, four transfers, a message and four transfers
  have hco := h.2.2.2.2.2.2.2.2.2.2.1 _ rfl .co
  revert hco
  decide

end StatusLoop
end Ventilation
