/-
# Checking keywords (src/FlaskSrv/ServerImports/mqttImports.py)

`validateKeywordsInJSON` is to tell at level 2 whether every keyword has a value that is neither
null nor empty. The code asks Python whether the value is true, which a number 0 and `false` are
not. `validateKeywordsInJSON_right_iff` says for which objects that makes a difference, and which
of the messages of `CommHandler::send` are rejected for it: all but those that have
an error, run automatically and show no 0.
-/
import Ventilation.Server.Messages
import Ventilation.StatusMessage

namespace Ventilation
namespace Server

open FloatText
open Python (ascii decode getItem truthy ratOf)
open Json (Text)

/-! ### What the levels mean -/

/-- Neither null nor empty: a number and a boolean are values. -/
def Present : Json → Prop
  | .null => False
  | .str s => s ≠ [] ∧ s ≠ ascii "NULL"
  | .arr items => items ≠ []
  | .obj members => members ≠ []
  | .bool _ | .int _ | .real _ => True

/-- `false`, or a number that is 0 to Python. -/
def Zero : Json → Prop
  | .bool b => b = false
  | .int x => x = 0
  | .real text => ∃ q, ratOf text = some q ∧ |q| ≤ 2 ^ (-1075 : ℤ)
  | _ => False

def HasKeywords (v : Json) (keywordList : List Text) : Prop := ∀ keyword ∈ keywordList, (getItem keyword v).isSome

def HasValues (v : Json) (keywordList : List Text) : Prop :=
  ∀ keyword ∈ keywordList, ∃ w, getItem keyword v = some w ∧ Present w

def HasZero (v : Json) (keywordList : List Text) : Prop :=
  ∃ keyword ∈ keywordList, ∃ w, getItem keyword v = some w ∧ Zero w

/-- It returns, and returns `True` exactly for what the level asks for. -/
def Validates (v : Json) (keywordList : List Text) (verifycationLevel : ℕ) (asked : Prop) : Prop :=
  ∃ b, validateKeywordsInJSON v keywordList verifycationLevel = some b ∧ (b = true ↔ asked)

/-- What the code takes for a value is present, and no zero. -/
theorem taken_iff (w : Json) : (truthy w && !isNULL w) = true ↔ Present w ∧ ¬ Zero w := by
  cases w with
  | null => simp [truthy, Present]
  | bool b => simp [truthy, isNULL, Present, Zero]
  | int x => simp [truthy, isNULL, Present, Zero]
  | real text =>
    simp only [truthy, isNULL, Present, Zero, Bool.not_false, Bool.and_true, true_and]
    cases ratOf text <;> simp
  | str s => simp [truthy, isNULL, Present, Zero]
  | arr items => simp [truthy, isNULL, Present, Zero]
  | obj members => simp [truthy, isNULL, Present, Zero]

/-- What level 2 lets through. -/
theorem validate_two_iff (members : List (Text × Json)) (keywordList : List Text) :
    validateKeywordsInJSON (.obj members) keywordList 2 = some true ↔
      HasValues (.obj members) keywordList ∧ ¬ HasZero (.obj members) keywordList := by
  have hkeyword : ∀ keyword, (getItem keyword (.obj members)).any (fun v => truthy v && !isNULL v) = true ↔
      (∃ w, getItem keyword (.obj members) = some w ∧ Present w) ∧
        ¬ ∃ w, getItem keyword (.obj members) = some w ∧ Zero w := by
    intro keyword
    cases getItem keyword (.obj members) with
    | none => simp
    | some w => simpa using taken_iff w
  rw [validateKeywordsInJSON, if_neg (by decide), if_pos rfl, Option.some.injEq, List.all_eq_true]
  constructor
  · intro h
    refine ⟨fun keyword hk => ((hkeyword keyword).mp (h keyword hk)).1, ?_⟩
    rintro ⟨keyword, hk, hzero⟩
    exact ((hkeyword keyword).mp (h keyword hk)).2 hzero
  · rintro ⟨hvalues, hnone⟩ keyword hk
    exact (hkeyword keyword).mpr ⟨hvalues keyword hk, fun hzero => hnone ⟨keyword, hk, hzero⟩⟩

/-- Level 1 goes by the keys alone. -/
theorem validates_one (members : List (Text × Json)) (keywordList : List Text) :
    Validates (.obj members) keywordList 1 (HasKeywords (.obj members) keywordList) := by
  have hone : validateKeywordsInJSON (.obj members) keywordList 1 =
      some (keywordList.all fun keyword => (getItem keyword (.obj members)).isSome) := rfl
  exact ⟨_, hone, List.all_eq_true⟩

/-- Level 2 goes wrong where every value is present and one is a zero. -/
theorem validates_two_iff (members : List (Text × Json)) (keywordList : List Text) :
    Validates (.obj members) keywordList 2 (HasValues (.obj members) keywordList) ↔
      ¬ (HasValues (.obj members) keywordList ∧ HasZero (.obj members) keywordList) := by
  obtain ⟨b, hb⟩ : ∃ b, validateKeywordsInJSON (.obj members) keywordList 2 = some b := ⟨_, rfl⟩
  have htwo := validate_two_iff members keywordList
  rw [hb, Option.some.injEq] at htwo
  constructor
  · rintro ⟨c, hc, hright⟩ ⟨hvalues, hzero⟩
    obtain rfl := Option.some.inj (hb.symm.trans hc)
    exact (htwo.mp (hright.mpr hvalues)).2 hzero
  · intro h
    refine ⟨b, hb, htwo.trans ⟨And.left, fun hvalues => ⟨hvalues, fun hzero => h ⟨hvalues, hzero⟩⟩⟩⟩

/-- An object asked for its own keys. -/
theorem hasValues_own {members : List (Text × Json)} (hnodup : (members.map Prod.fst).Nodup) :
    HasValues (.obj members) (members.map Prod.fst) ↔ ∀ m ∈ members, Present m.2 := by
  simp only [HasValues, List.forall_mem_map]
  refine forall₂_congr fun m hm => ?_
  rw [Python.getItem_of_mem hnodup hm]
  simp

theorem hasZero_own {members : List (Text × Json)} (hnodup : (members.map Prod.fst).Nodup) :
    HasZero (.obj members) (members.map Prod.fst) ↔ ∃ m ∈ members, Zero m.2 := by
  constructor
  · rintro ⟨key, hkey, w, hw, hzero⟩
    obtain ⟨m, hm, rfl⟩ := List.mem_map.mp hkey
    rw [Python.getItem_of_mem hnodup hm] at hw
    exact ⟨m, hm, Option.some.inj hw ▸ hzero⟩
  · rintro ⟨m, hm, hzero⟩
    exact ⟨m.1, List.mem_map_of_mem hm, m.2, Python.getItem_of_mem hnodup hm, hzero⟩

/-! ### The messages of the device -/

/-- What the server decodes the message of `send` to. -/
def decodedStatus (Double : BitVec 32 → CString) (s : Ventilation.Status) : Option Json :=
  (decode (s.jsonString Double).bytes).bind fun text => Python.read (dropNUL text)

/-- Its keys. -/
def statusKeys : List Text :=
  ["speed", "setpoint", "pressure", "auto", "error", "co2", "ah", "rh", "temp"].map ascii

theorem plain_statusKeys : ∀ name ∈ statusKeys, Json.Plain name := by
  unfold Json.Plain
  decide +kernel

/-- The message passes level 2 when it is asked for its own keys. -/
def StatusPasses (Double : BitVec 32 → CString) (s : Ventilation.Status) : Prop :=
  ∃ v, decodedStatus Double s = some v ∧ validateKeywordsInJSON v statusKeys 2 = some true

/-- Nothing in the message is 0 or `false`. -/
structure Nonzero (s : Ventilation.Status) : Prop where
  speed : s.speed ≠ 0
  setpoint : s.setpoint ≠ 0
  pressure : s.pressure ≠ 0
  aut : s.aut = true
  error : s.error = true
  readings : ∀ bits ∈ s.readings, float32 bits ≠ some 0

/-- The members as they are read. -/
def statusValues (Double : BitVec 32 → CString) (s : Ventilation.Status) : List (Text × Json) :=
  [(ascii "speed", .int s.speed), (ascii "setpoint", .int s.setpoint), (ascii "pressure", .int s.pressure),
    (ascii "auto", .bool s.aut), (ascii "error", .bool s.error),
    (ascii "co2", .real (Double s.co2).chars), (ascii "ah", .real (Double s.ah).chars),
    (ascii "rh", .real (Double s.rh).chars), (ascii "temp", .real (Double s.temp).chars)]

section Message

variable {Double : BitVec 32 → CString} {s : Ventilation.Status} (hDouble : WritesDoubles Double)
  (hfinite : ∀ bits ∈ s.readings, (float32 bits).isSome)

include hDouble hfinite

/-- **The server reads what the device has written.** -/
theorem decodedStatus_eq : decodedStatus Double s = some (.obj (statusValues Double s)) := by
  have hreads : ∀ bits ∈ s.readings, Json.Reads (Double bits).chars (.real (Double bits).chars) := by
    intro bits hbits
    obtain ⟨x, hx⟩ := Option.isSome_iff_exists.mp (hfinite bits hbits)
    exact hDouble.reads bits x hx
  have hascii : ∀ b ∈ (s.jsonString Double).bytes, b.toNat < 128 := by
    intro b hb
    rcases List.mem_append.mp hb with hb | hb
    · refine Json.forall_objectText (P := fun b => b.toNat < 128) (by decide)
        (Status.forall_members (fun _ h => h.1) fun bits hbits => ?_) b hb
      obtain ⟨x, hx⟩ := Option.isSome_iff_exists.mp (hfinite bits hbits)
      exact hDouble.ascii bits x hx
    · rw [List.mem_singleton.mp hb]
      decide
  have hplain := plain_statusKeys
  let ms : List Json.Member :=
    [⟨ascii "speed", _, _, hplain _ (by decide), Json.reads_int s.speed⟩,
      ⟨ascii "setpoint", _, _, hplain _ (by decide), Json.reads_int s.setpoint⟩,
      ⟨ascii "pressure", _, _, hplain _ (by decide), Json.reads_int s.pressure⟩,
      ⟨ascii "auto", _, _, hplain _ (by decide), Json.reads_bool s.aut⟩,
      ⟨ascii "error", _, _, hplain _ (by decide), Json.reads_bool s.error⟩,
      ⟨ascii "co2", _, _, hplain _ (by decide), hreads s.co2 (by simp [Status.readings])⟩,
      ⟨ascii "ah", _, _, hplain _ (by decide), hreads s.ah (by simp [Status.readings])⟩,
      ⟨ascii "rh", _, _, hplain _ (by decide), hreads s.rh (by simp [Status.readings])⟩,
      ⟨ascii "temp", _, _, hplain _ (by decide), hreads s.temp (by simp [Status.readings])⟩]
  have hread : Python.read (s.jsonString Double).chars = some (.obj (statusValues Double s)) :=
    Json.read_objectText (show ms ≠ [] from List.cons_ne_nil _ _)
  rw [decodedStatus, decode, if_pos (Python.isUtf8_of_ascii hascii), Option.bind_some, dropNUL_bytes, hread]

/-- A reading is 0 to Python exactly if it is. -/
theorem zero_reading_iff {bits : BitVec 32} (h : bits ∈ s.readings) :
    Zero (.real (Double bits).chars) ↔ float32 bits = some 0 := by
  obtain ⟨x, hx⟩ := Option.isSome_iff_exists.mp (hfinite bits h)
  obtain ⟨q, hq, hclose⟩ := hDouble.readsBack bits x hx
  have htiny := tiny_iff hx hclose
  rw [Zero, hq, hx, Option.some.injEq, ← htiny]
  simp

/-- **The messages that pass.** -/
theorem statusPasses_iff : StatusPasses Double s ↔ Nonzero s := by
  have hnodup : ((statusValues Double s).map Prod.fst).Nodup := (by decide : statusKeys.Nodup)
  have hkeys : statusKeys = (statusValues Double s).map Prod.fst := rfl
  have hzero : ∀ bits ∈ s.readings, Zero (.real (Double bits).chars) ↔ float32 bits = some 0 := fun _ hbits =>
    zero_reading_iff hDouble hfinite hbits
  unfold StatusPasses
  rw [decodedStatus_eq hDouble hfinite]
  simp only [Option.some.injEq, exists_eq_left']
  rw [validate_two_iff, hkeys, hasValues_own hnodup, hasZero_own hnodup]
  simp only [Status.readings, List.forall_mem_cons, List.not_mem_nil, false_imp_iff, implies_true, and_true] at hzero
  obtain ⟨hco2, hah, hrh, htemp⟩ := hzero
  simp only [statusValues, List.forall_mem_cons, List.exists_mem_cons_iff, List.not_mem_nil, false_imp_iff,
    implies_true, and_true, hco2, hah, hrh, htemp]
  constructor
  · rintro ⟨-, hnone⟩
    simp only [Zero, not_or, Bool.not_eq_false] at hnone
    obtain ⟨hspeed, hset, hpressure, haut, herror, hco2, hah, hrh, htemp, -⟩ := hnone
    refine ⟨hspeed, hset, hpressure, haut, herror, ?_⟩
    simpa [Status.readings] using ⟨hco2, hah, hrh, htemp⟩
  · intro h
    have hreadings := h.readings
    simp only [Status.readings, List.forall_mem_cons, List.not_mem_nil, false_imp_iff, implies_true,
      and_true] at hreadings
    obtain ⟨hco2, hah, hrh, htemp⟩ := hreadings
    simp [Zero, Present, h.speed, h.setpoint, h.pressure, h.aut, h.error, hco2, hah, hrh, htemp]

end Message

/-! ### The documented levels -/

/-- **When the levels mean what they say, and which messages of the device pass.** -/
theorem validateKeywordsInJSON_right_iff {Double : BitVec 32 → CString} (hDouble : WritesDoubles Double)
    (members : List (Text × Json)) (keywordList : List Text) (s : Ventilation.Status)
    (hfinite : ∀ bits ∈ s.readings, (float32 bits).isSome) :
    Validates (.obj members) keywordList 1 (HasKeywords (.obj members) keywordList) ∧
    (Validates (.obj members) keywordList 2 (HasValues (.obj members) keywordList) ↔
      ¬ (HasValues (.obj members) keywordList ∧ HasZero (.obj members) keywordList)) ∧
    (StatusPasses Double s ↔ Nonzero s) :=
  ⟨validates_one members keywordList, validates_two_iff members keywordList, statusPasses_iff hDouble hfinite⟩

/-! ### A message without an error -/

/-- The `float` 20.25. -/
def warm : BitVec 32 := 0x41a20000

def warmText : CString := ⟨ascii "20.25", by decide⟩

theorem float32_warm : float32 warm = some (2025 * 10 ^ (-2 : ℤ) : ℚ) := by
  have hs : significand warm = 10616832 := by decide
  have hp : power warm = -19 := by decide
  have hb : biased warm ≠ 255 := by decide
  rw [float32, if_neg hb, hs, hp]
  norm_num

theorem writesDoubles_warm : WritesDoubles (writtenAs warm warmText) := by
  refine writesDoubles_writtenAs (by decide) ?_ fun x h => readsBack_of_eq ?_
  · have hds : ∀ c ∈ ascii "5", Decimal.isDigit c = true := by decide
    exact Json.reads_fraction false 20 (by decide : Decimal.isDigit 50 = true) hds
  · have hvalue : ratOf warmText.chars = some (2025 * 10 ^ (-2 : ℤ) : ℚ) := by decide +kernel
    rw [hvalue, ← h, float32_warm]

/-- A message as the device sends it on an ordinary day, but for the error. -/
def warmStatus (error : Bool) : Ventilation.Status := ⟨20, 20, 5, true, error, warm, warm, warm, warm⟩

theorem feasible_warmStatus (error : Bool) : Feasible (warmStatus error) := by
  refine ⟨(by decide : (0 : ℤ) ≤ 20 ∧ (20 : ℤ) ≤ 100), (by decide : (0 : ℤ) ≤ 20 ∧ (20 : ℤ) ≤ 120),
    ⟨5, 0, (by decide : (5 : ℤ) = PressureRegister.get 5 0)⟩, fun bits hbits => ?_⟩
  have hwarm : bits = warm := by simpa [warmStatus, Status.readings] using hbits
  rw [hwarm, float32_warm]
  rfl

/-- An object that has `false` for its one value. -/
def errorFalse : List (Text × Json) := [(ascii "error", .bool false)]

/-- Its value is present, and a zero. -/
theorem values_errorFalse : HasValues (.obj errorFalse) [ascii "error"] ∧ HasZero (.obj errorFalse) [ascii "error"] := by
  have hnodup : (errorFalse.map Prod.fst).Nodup := by decide
  refine ⟨(hasValues_own hnodup).mpr fun m hm => ?_, (hasZero_own hnodup).mpr ⟨_, List.mem_cons_self, rfl⟩⟩
  rw [List.mem_singleton.mp hm]
  trivial

/-- A message with an error passes, and `false` does not. -/
theorem validateKeywordsInJSON_right_iff_warm :
    Validates (.obj errorFalse) [ascii "error"] 1 (HasKeywords (.obj errorFalse) [ascii "error"]) ∧
    ¬ Validates (.obj errorFalse) [ascii "error"] 2 (HasValues (.obj errorFalse) [ascii "error"]) ∧
    StatusPasses (writtenAs warm warmText) (warmStatus true) := by
  obtain ⟨hone, htwo, hpasses⟩ := validateKeywordsInJSON_right_iff writesDoubles_warm errorFalse [ascii "error"]
    (warmStatus true) (feasible_warmStatus true).finite
  refine ⟨hone, fun h => htwo.mp h values_errorFalse, hpasses.mpr ?_⟩
  refine ⟨by decide, by decide, by decide, rfl, rfl, fun bits hbits => ?_⟩
  have hwarm : bits = warm := by simpa [warmStatus, Status.readings] using hbits
  rw [hwarm, float32_warm]
  norm_num

/-- **The message without an error is rejected**, as is the object of one `false`. -/
theorem warm_status_rejected :
    ¬ Validates (.obj errorFalse) [ascii "error"] 2 (HasValues (.obj errorFalse) [ascii "error"]) ∧
    WritesDoubles (writtenAs warm warmText) ∧ Feasible (warmStatus false) ∧
    ∃ v, decodedStatus (writtenAs warm warmText) (warmStatus false) = some v ∧
      validateKeywordsInJSON v statusKeys 2 = some false := by
  refine ⟨fun h => (validates_two_iff _ _).mp h values_errorFalse, writesDoubles_warm,
    feasible_warmStatus false, _, decodedStatus_eq writesDoubles_warm (feasible_warmStatus false).finite, ?_⟩
  decide +kernel

end Server
end Ventilation
