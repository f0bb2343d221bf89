/-
# The port of the set-up (main.cpp, src/IPStack.cpp, src/logHandler.cpp)

The text submitted at the port's stage goes through `std::stoi`, which throws where the
field is empty or its number is no `int`; any other number is taken, `tcp_connect` gets
it as 16 bits, and the EEPROM as a decimal text. The field has digits only, so
its number decides: `port_right_iff`.
-/
import Mathlib.Data.List.TakeWhile
import Ventilation.CredentialsRoundTrip
import Ventilation.SetUp

namespace Ventilation

open CInt
open Input (PressIrqs)

/-- The port that `tcp_connect` is called with. -/
def IPStack.connectPort (port : ℤ) : ℕ := toUnsigned 16 port

/-! ### Storing and fetching a port -/

namespace LogHandler

/-- `fetchCredentials` gives this port and sets its flag, whatever its arrays held before. -/
def ReturnsPort (h : LogHandler) (e : Eeprom) (port : ℤ) : Prop :=
  ∀ array out, ∃ out', h.fetchCredentials e array out = some out' ∧ out'.port = port ∧
    out'.arr.get (Fin.last 3) = 1

/-- Stored with any strings that have room in their slots, the port comes back,
from this handler and from a new one. -/
def KeepsPort (h : LogHandler) (e : Eeprom) (port : ℤ) : Prop :=
  ∀ mem (ssid password hostname : Credential), ssid.chars.length ≤ 59 → password.chars.length ≤ 59 →
    hostname.chars.length ≤ 59 →
    ∃ ws h', h.storeCredentials mem ssid.toCString password.toCString hostname.toCString port = some (ws, h') ∧
      h'.ReturnsPort (e.writes ws) port ∧
      (new (e.writes ws)).2.ReturnsPort ((e.writes ws).writes (new (e.writes ws)).1) port

variable {h : LogHandler} {e : Eeprom} {s : CString} {str : List Byte}

/-- A record is read without leaving the arrays, whether its CRC is right or not. -/
theorem fetchString_isSome {page : Vector Byte CREDENTIALS_ARR_SIZE} (hr : recordBytes str <+: page.toList)
    (hlen : str.length ≤ 59) (dst : Vector Byte 64) : ∃ r, fetchString page dst = some r := by
  obtain ⟨rest, hrest, hload⟩ := load_text hr (k := 0) (by omega)
  obtain ⟨dst', hdst⟩ := Buffer.store_isSome dst (i := 0) (str ++ [0] ++ rest)
    (by simp only [List.length_append, List.length_singleton, hrest]; omega)
  have hsub : str.length + 5 - 4 = str.length + 1 + 0 := by
    omega
  have hdata : Buffer.load page 0 (str.length + 5) = some ((page.toList.drop 0).take (str.length + 5)) :=
    Buffer.load_eq_some (by exact (by omega : 0 + (str.length + 5) ≤ 64))
  rw [fetchString]
  rw [record_length hr (by omega), verifyDataIntegrity, Machine.bind_of hdata, hsub]
  simp only [pure, bind, Option.bind_some]
  split
  · rw [hload, Option.bind_some, hdst]
    exact ⟨_, rfl⟩
  · exact ⟨_, rfl⟩

/-- Whatever the other records give, the port's is fetched. -/
theorem returnsPort_of_slots (hk : h.Kept) {ssid password hostname : List Byte} {port : ℤ}
    (hs : ssid.length ≤ 59) (hp : password.length ≤ 59) (hh : hostname.length ≤ 59)
    (h₀ : recordBytes ssid <+: (slot e 0).toList) (h₁ : recordBytes password <+: (slot e 1).toList)
    (h₂ : recordBytes hostname <+: (slot e 2).toList) (h₃ : checkedBytes (Decimal.intText port) <+: (slot e 3).toList)
    (hport : -10 ^ 7 < port ∧ port < 10 ^ 8) : h.ReturnsPort e port := by
  intro array out
  obtain ⟨⟨d₀, ok₀⟩, hr₀⟩ := fetchString_isSome h₀ hs out.ssid
  obtain ⟨⟨d₁, ok₁⟩, hr₁⟩ := fetchString_isSome h₁ hp out.password
  obtain ⟨⟨d₂, ok₂⟩, hr₂⟩ := fetchString_isSome h₂ hh out.hostname
  have hlen : (Decimal.intText port).length ≤ 8 :=
    (Decimal.length_intText_le_iff port (by decide : 0 < 7)).mpr hport
  have hr₃ := fetchPort_eq (s := portText port) h₃ hlen (stoi_intText hport.1 hport.2) array out.port
  refine ⟨⟨d₀, d₁, d₂, port, #v[ok₀, ok₁, ok₂, 1]⟩, ?_, rfl, rfl⟩
  rw [fetchCredentials_slot hk, Machine.bind_of hr₀]
  dsimp only
  rw [Machine.bind_of hr₁]
  dsimp only
  rw [Machine.bind_of hr₂]
  dsimp only
  rw [Machine.bind_of hr₃]
  rfl

/-- A port of at most 8 characters comes back. -/
theorem keepsPort_of_lt (hk : h.Kept) {port : ℤ} (hport : -10 ^ 7 < port ∧ port < 10 ^ 8) : h.KeepsPort e port := by
  intro mem ssid password hostname hs hp hh
  have ht := (Decimal.length_intText_le_iff port (by decide : 0 < 7)).mpr hport
  have hstore := (storeCredentials_iff hk).mpr
    ⟨credentialPages_eq mem ssid hp hh (by omega : (Decimal.intText port).length ≤ 9), rfl⟩
  have hk' := storeCredentials_kept hk hstore
  have hin := stored_inSlot ssid hp hh (by omega : (Decimal.intText port).length ≤ 9)
  have hnd := stored_nodup ssid.chars password.chars hostname.chars (Decimal.intText port)
  have h₀ := prefix_stored hin hnd (i := 0) (by decide) (by rw [length_recordBytes]; omega) List.mem_cons_self e
  have h₁ := prefix_stored hin hnd (i := 1) (d := checkedBytes password.chars) (by decide)
    (by rw [length_checkedBytes]; omega) (by simp [stored]) e
  have h₂ := prefix_stored hin hnd (i := 2) (d := checkedBytes hostname.chars) (by decide)
    (by rw [length_checkedBytes]; omega) (by simp [stored]) e
  have h₃ := prefix_stored hin hnd (i := 3) (d := checkedBytes (Decimal.intText port)) (by decide)
    (by rw [length_checkedBytes]; omega) (by simp [stored]) e
  have h₁' := (recordBytes_prefix_checked _).trans h₁
  have h₂' := (recordBytes_prefix_checked _).trans h₂
  refine ⟨_, _, hstore, returnsPort_of_slots hk' hs hp hh h₀ h₁' h₂' h₃ hport, ?_⟩
  refine returnsPort_of_slots (new_kept _) hs hp hh ?_ ?_ ?_ ?_ hport
  · rwa [slot_new (by decide)]
  · rwa [slot_new (by decide)]
  · rwa [slot_new (by decide)]
  · rwa [slot_new (by decide)]

end LogHandler

/-! ### The number of a text of digits -/

/-- `std::stoi` on digits. -/
theorem stoi_digits {text : List Byte} (h : ∀ c ∈ text, Decimal.isDigit c = true) :
    stoi text = if text = [] then none else signed? 32 (Decimal.value text) := by
  cases text with
  | nil => rfl
  | cons b l =>
    have hb : Decimal.isDigit b = true := h b List.mem_cons_self
    have hspace : isspace b = false := by
      unfold isspace Decimal.isDigit at *
      rw [decide_eq_true_iff] at hb
      rw [decide_eq_false_iff_not]
      rintro (rfl | hw)
      · exact absurd hb (by decide)
      · omega
    have hscan : Decimal.scan (b :: l) = some (Decimal.value (b :: l) : ℤ) := by
      rw [Decimal.scan_of_isDigit hb, Decimal.scanNat, List.takeWhile_eq_self_iff.mpr h, if_neg (List.cons_ne_nil b l)]
      rfl
    rw [stoi, List.dropWhile_cons_of_neg (by rw [hspace]; exact Bool.false_ne_true), Machine.bind_of hscan,
      if_neg (List.cons_ne_nil b l)]

/-- Nothing denotes 0. -/
theorem ne_nil_of_value_pos {text : List Byte} (h : 1 ≤ Decimal.value text) : text ≠ [] := by
  rintro rfl
  exact absurd h (by decide)

namespace SetUp

variable {s t u : SetUp} {irqs : Irqs} {text : List Byte}

/-! ### An iteration that submits a text -/

/-- The state in which the second check accepts, if it takes a press in this iteration. -/
def submitted (s : SetUp) (irqs : Irqs) : Option SetUp :=
  if s.done ∨ s.stage ≠ 1 then none
  else do
    let (s, _) ← (s.turn irqs).text irqs
    let (shared, pressed7) := s.shared.takePin 7 true irqs.check7
    let (shared, pressed12) := shared.takePin 12 true irqs.check12
    if pressed7 = false ∧ pressed12 = true then some { s with shared } else none

/-- The iteration accepts it. -/
theorem iterate_submitted (h : s.submitted irqs = some u) :
    ∃ shown, s.iterate irqs = u.accept.map fun t => (t.select irqs, some shown) := by
  unfold submitted at h
  split at h
  · cases h
  · rename_i hne
    obtain ⟨hdone, hstage⟩ := not_or.mp hne
    obtain ⟨⟨v, shown⟩, htext, h⟩ := Option.bind_eq_some_iff.mp h
    dsimp only at h
    split at h
    · rename_i hpressed
      obtain rfl := Option.some.inj h
      refine ⟨shown, ?_⟩
      rw [iterate_text (Bool.not_eq_true _ ▸ hdone) (not_not.mp hstage), htext, Option.bind_some]
      unfold checks
      dsimp only
      rw [if_neg (by rw [hpressed.1]; exact Bool.false_ne_true), if_pos hpressed.2]
    · cases h

theorem sound_submitted (hs : s.Sound) (h : s.submitted irqs = some u) : u.Sound := by
  unfold submitted at h
  split at h
  · cases h
  · obtain ⟨⟨v, shown⟩, htext, h⟩ := Option.bind_eq_some_iff.mp h
    dsimp only at h
    split at h
    · obtain rfl := Option.some.inj h
      exact ((hs.turn irqs).text htext).withInput _ _
    · cases h

/-- At the port's stage. -/
theorem accept_port (hholds : u.entry.Holds text) (h3 : u.ssid_stage = 3) : ∃ entry, entry.Holds [] ∧
    u.accept = (stoi text).map fun port => { u with entry, port, ssid_stage := 4 } := by
  obtain ⟨aaa, entry, hcall, hread, hempty, -⟩ := TextEntry.returnInput_eq hholds (.replicate _ 0)
  refine ⟨entry, hempty, ?_⟩
  rw [accept, if_pos (by omega), takeField]
  simp only [h3]
  rw [Machine.bind_of hcall]
  simp only [hread, bind, Option.bind_some]
  cases stoi text with
  | none => rfl
  | some port => rfl

/-- The last check leaves the port and its stage alone. -/
theorem port_select (t : SetUp) (irqs : Irqs) :
    (t.select irqs).port = t.port ∧ (t.select irqs).ssid_stage = t.ssid_stage := by
  obtain ⟨shared, stage, done, netword_done, use_wifi, rotvalue, heq, -⟩ := select_eq t irqs
  rw [heq]
  exact ⟨rfl, rfl⟩

/-! ### The port -/

/-- A port that `tcp_connect` gets as it is, and that every handler keeps, at any time in its life. -/
def PortKept (port : ℤ) : Prop :=
  1 ≤ port ∧ port ≤ 65535 ∧ (IPStack.connectPort port : ℤ) = port ∧
    ∀ l, Machine.Reach LogStore.step LogStore.Init Machine.Always l → l.handler.KeepsPort l.eeprom port

/-- The iteration comes to its end, and either the stage is still the same or there is a right port. -/
def PortRight (s : SetUp) (irqs : Irqs) : Prop :=
  ∃ t shown, s.iterate irqs = some (t, shown) ∧ (t.ssid_stage = s.ssid_stage ∨ PortKept t.port)

theorem portKept_of_le {port : ℤ} (h1 : 1 ≤ port) (h2 : port ≤ 65535) : PortKept port := by
  refine ⟨h1, h2, toUnsigned_cast (by omega) (by omega), fun l hl => ?_⟩
  exact LogHandler.keepsPort_of_lt (LogStore.kept_of_reach hl) ⟨by omega, by omega⟩

theorem submitted_stage (h : s.submitted irqs = some u) : u.ssid_stage = s.ssid_stage := by
  unfold submitted at h
  split at h
  · cases h
  · obtain ⟨⟨v, shown⟩, htext, h⟩ := Option.bind_eq_some_iff.mp h
    obtain ⟨shared, i, prevval, hturn⟩ := turn_eq s irqs
    rw [text_eq, hturn] at htext
    obtain ⟨r, -, hv⟩ := Option.map_eq_some_iff.mp htext
    obtain ⟨rfl, -⟩ := Prod.mk.inj hv
    dsimp only at h
    split at h
    · exact Option.some.inj h ▸ rfl
    · cases h

/-- **When a port is right**, for every text submitted in a reachable state. -/
theorem port_right_iff (hr : Machine.Reach step IsStart Machine.Always s) (hsub : s.submitted irqs = some u)
    (h3 : u.ssid_stage = 3) (htext : CString.read u.entry.input_string.toList = some text) :
    s.PortRight irqs ↔ 1 ≤ Decimal.value text ∧ Decimal.value text ≤ 65535 := by
  obtain ⟨text', hholds, hdigits⟩ := (sound_submitted (sound_of_reach hr) hsub).field
  obtain rfl : text' = text := Option.some.inj (hholds.read.symm.trans htext)
  obtain ⟨shown, hiterate⟩ := iterate_submitted hsub
  obtain ⟨entry, -, haccept⟩ := accept_port hholds h3
  have hstoi := stoi_digits (hdigits h3)
  unfold PortRight
  rw [hiterate, haccept, hstoi, ← submitted_stage hsub, h3]
  constructor
  · rintro ⟨t, shown', heq, hright⟩
    obtain ⟨v, hv, hpair⟩ := Option.map_eq_some_iff.mp heq
    obtain ⟨port, hport, rfl⟩ := Option.map_eq_some_iff.mp hv
    obtain ⟨rfl, -⟩ := Prod.mk.inj hpair
    rw [(port_select _ irqs).1, (port_select _ irqs).2] at hright
    rcases hright with hstage | hkept
    · exact absurd hstage (by decide : (4 : ℕ) ≠ 3)
    · split at hport
      · cases hport
      · obtain ⟨h1, h2, -⟩ := hkept
        obtain ⟨hvalue, -⟩ := of_signed? hport
        dsimp only at h1 h2
        omega
  · rintro ⟨h1, h2⟩
    have hport : signed? 32 (Decimal.value text') = some (Decimal.value text' : ℤ) :=
      signed?_eq (by omega) (by omega)
    rw [if_neg (ne_nil_of_value_pos h1), hport]
    refine ⟨_, _, rfl, .inr ?_⟩
    rw [(port_select _ irqs).1]
    have h1' : (1 : ℤ) ≤ Decimal.value text' := by exact_mod_cast h1
    have h2' : (Decimal.value text' : ℤ) ≤ 65535 := by exact_mod_cast h2
    exact portKept_of_le h1' h2'

/-! ### One digit, and none -/

/-- A press of pin 12 before the second check. -/
def Irqs.accepting : Irqs := { Irqs.quiet with check12 := { PressIrqs.quiet with pin := [⟨12, false, false⟩] } }

/-- The encoder one step to the right, to the digit 1, and a press of pin 8. -/
def Irqs.typingOne : Irqs := { Irqs.typing 8 with less := [⟨10, true, false⟩] }

/-- The way to the port's stage, with nothing typed. -/
def toPort : List Event :=
  [choosing, .iterate .accepting, .iterate .accepting, .iterate .accepting]

/-- The port 1 is right. -/
theorem port_right_one : ∃ s, Machine.run step fresh (toPort ++ [.iterate .typingOne]) = some s ∧
    s.PortRight .accepting := by
  have hrun : (Machine.run step fresh (toPort ++ [.iterate .typingOne])).any (fun s =>
      (s.submitted .accepting).any fun u =>
        decide (u.ssid_stage = 3 ∧ CString.read u.entry.input_string.toList = some (CString.literal "1"))) = true := by
    decide +kernel
  obtain ⟨s, hs, hu⟩ := (Option.any_eq_true _ _).mp hrun
  obtain ⟨u, hsub, hp⟩ := (Option.any_eq_true _ _).mp hu
  obtain ⟨h3, htext⟩ := of_decide_eq_true hp
  have hreach : Machine.Reach step IsStart Machine.Always s := .run (.init fresh_isStart) (fun _ _ _ => trivial) hs
  exact ⟨s, hs, (port_right_iff hreach hsub h3 htext).mpr (by decide)⟩

/-- **With nothing typed** `std::stoi` throws. -/
theorem port_empty_throws : ∃ s, Machine.run step fresh toPort = some s ∧ s.ssid_stage = 3 ∧
    s.iterate .accepting = none ∧ ¬ s.PortRight .accepting := by
  have hrun : (Machine.run step fresh toPort).any (fun s =>
      decide (s.ssid_stage = 3) && (s.iterate .accepting).isNone) = true := by
    decide +kernel
  obtain ⟨s, hs, hp⟩ := (Option.any_eq_true _ _).mp hrun
  obtain ⟨h3, hnone⟩ := Bool.and_eq_true_iff.mp hp
  have hthrows : s.iterate .accepting = none := Option.isNone_iff_eq_none.mp hnone
  refine ⟨s, hs, of_decide_eq_true h3, hthrows, ?_⟩
  rintro ⟨t, shown, ht, -⟩
  rw [hthrows] at ht
  cases ht

end SetUp
end Ventilation
