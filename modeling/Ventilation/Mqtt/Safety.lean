/-
# Whatever a broker sends (MQTTClient.h, MQTTDeserializePublish.c)

The client against any bytes, from any network. `readPacket` never leaves its buffer
(`readPacket_always`), and a `cycle` goes wrong exactly on a PUBLISH of one of three kinds
(`cycle_fails_iff`): its identifier would lie behind the buffer; or it is shorter than 128
bytes and has no room for its topic, which is then taken for read without data, and followed
for a handler or acknowledged by an identifier that was never set.
-/
import Ventilation.Mqtt.Refinement

namespace Ventilation
namespace Mqtt

open Wire

variable {c : Client} {data : PublishData} {byte : Byte} {body rest : List Byte}

/-- A handler for which a topic without data is followed. -/
def FollowsNull (c : Client) : Prop := ∃ topicFilter, some topicFilter ∈ c.messageHandlers.toList ∧ topicFilter ≠ []

/-- The kinds of PUBLISH that go wrong. -/
def Misread (c : Client) (byte : Byte) (body rest : List Byte) : Prop :=
  IdOutside byte body rest ∨ (¬ TopicFits body ∧ body.length < 128 ∧
    ((topicLength body ≠ 0 ∧ FollowsNull c) ∨ MQTTHeader.qos byte = 1 ∨ MQTTHeader.qos byte = 2))

namespace Client

theorem filterMatches_null {topicFilter : List Byte} {len : ℕ} :
    filterMatches topicFilter ⟨len, none⟩ = none ↔ topicFilter ≠ [] ∧ len ≠ 0 := by
  unfold filterMatches
  dsimp only
  split_ifs with hfilter hlen
  · exact iff_of_false nofun fun h => h.1 hfilter
  · exact iff_of_false nofun fun h => h.2 hlen
  · exact iff_of_true rfl ⟨hfilter, hlen⟩

/-- A topic without data is followed for some handler, or for none. -/
theorem foldlM_deliverTo_null (hdata : data.topicName.data = none) (handlers : List (Option (List Byte))) :
    ∀ arrived : List PublishData, handlers.foldlM (deliverTo data) arrived = none ↔
      ∃ topicFilter, some topicFilter ∈ handlers ∧ topicFilter ≠ [] ∧ data.topicName.len ≠ 0 := by
  have hname : data.topicName = ⟨data.topicName.len, none⟩ := by rw [← hdata]
  induction handlers with
  | nil => exact fun arrived => iff_of_false nofun (by simp)
  | cons handler handlers ih =>
    intro arrived
    rw [List.foldlM_cons]
    cases handler with
    | none =>
      have hstep : deliverTo data arrived none = some arrived := rfl
      rw [Machine.bind_of hstep, ih]
      simp
    | some topicFilter =>
      cases hmatch : filterMatches topicFilter data.topicName with
      | none =>
        have hstep : deliverTo data arrived (some topicFilter) = none := by rw [deliverTo, hmatch]; rfl
        rw [hname] at hmatch
        rw [hstep]
        exact iff_of_true rfl ⟨topicFilter, List.mem_cons_self, filterMatches_null.mp hmatch⟩
      | some m =>
        have hstep : deliverTo data arrived (some topicFilter) = some (if m then arrived ++ [data] else arrived) := by
          rw [deliverTo, hmatch]
          rfl
        have hno : ¬ (topicFilter ≠ [] ∧ data.topicName.len ≠ 0) := by
          rw [hname] at hmatch
          intro h
          rw [filterMatches_null.mpr h] at hmatch
          cases hmatch
        rw [Machine.bind_of hstep, ih]
        constructor
        · rintro ⟨f, hf, h⟩
          exact ⟨f, List.mem_cons_of_mem _ hf, h⟩
        · rintro ⟨f, hf, h⟩
          rcases List.mem_cons.mp hf with heq | hf
          · exact absurd (Option.some.inj heq ▸ h) hno
          · exact ⟨f, hf, h⟩

theorem deliverMessage_null (hdata : data.topicName.data = none) :
    c.deliverMessage data = none ↔ data.topicName.len ≠ 0 ∧ FollowsNull c := by
  have hfold := foldlM_deliverTo_null hdata c.messageHandlers.toList c.arrived
  have hbind : c.deliverMessage data = none ↔ c.messageHandlers.toList.foldlM (deliverTo data) c.arrived = none := by
    unfold deliverMessage
    cases c.messageHandlers.toList.foldlM (deliverTo data) c.arrived <;> simp
  rw [hbind, hfold, FollowsNull]
  constructor
  · rintro ⟨f, hf, hne, hlen⟩
    exact ⟨hlen, f, hf, hne⟩
  · rintro ⟨hlen, f, hf, hne⟩
    exact ⟨f, hf, hne, hlen⟩

theorem acknowledgement_eq_none_iff (data : PublishData) :
    acknowledgement data = none ↔ (data.qos = 1 ∨ data.qos = 2) ∧ data.packetid = none := by
  unfold acknowledgement
  split_ifs with h1 h2
  · rw [Option.map_eq_none_iff, and_iff_right (Or.inl h1)]
  · rw [Option.map_eq_none_iff, and_iff_right (Or.inr h2)]
  · exact iff_of_false nofun fun h => h.1.elim h1 h2

/-- A message is acknowledged unless its identifier was never set. -/
theorem acknowledge_eq_none_iff (c : Client) (data : PublishData) (sends : Bool) :
    c.acknowledge data sends = none ↔ (data.qos = 1 ∨ data.qos = 2) ∧ data.packetid = none := by
  unfold acknowledge
  by_cases h0 : data.qos = 0
  · rw [if_pos h0]
    exact iff_of_false nofun fun h => by omega
  · rw [if_neg h0, Option.map_eq_none_iff, acknowledgement_eq_none_iff]

/-- **The case PUBLISH goes wrong on a packet of the three kinds**, and on no other. -/
theorem handlePublish_fails_iff (hbyte : MQTTHeader.type byte = PUBLISH) (hbody : body.length < 2 ^ 28)
    (hbuf : c.readbuf.toList = publishBuffer byte body rest) (sends : Bool) :
    c.handlePublish sends = none ↔ Misread c byte body rest := by
  unfold handlePublish
  rw [hbuf]
  by_cases hfits : TopicFits body
  · have hmis : Misread c byte body rest ↔ IdOutside byte body rest := or_iff_left fun h => h.1 hfits
    obtain ⟨topic, tail, htopic, rfl⟩ := (topicFits_iff body).mp hfits
    have hread := publish_of_fits hbyte hbody rest (htopic ▸ topicLength_lt _) rfl
    rw [hmis, ← (publish_accepted_iff hbyte hbody rest).1, publishBuffer, hread]
    cases hid : readPacketid (MQTTHeader.qos byte) (tail ++ rest) with
    | none => exact iff_of_true rfl rfl
    | some p =>
      refine iff_of_false (fun h => ?_) nofun
      obtain ⟨c', hdeliver, -⟩ := @deliverMessage_refines c
        (publishData byte p.1 topic p.2 (p.2.length - rest.length)) topic rfl
      rw [Option.map_some, Option.bind_eq_bind, Option.bind_some] at h
      dsimp only at h
      rw [if_pos rfl, Machine.bind_of hdeliver, acknowledge_eq_none_iff] at h
      obtain ⟨hqos, hnone⟩ := h
      have hpos : MQTTHeader.qos byte > 0 := by
        change MQTTHeader.qos byte = 1 ∨ MQTTHeader.qos byte = 2 at hqos
        omega
      exact absurd hnone (readPacketid_isSome hpos hid)
  · have hin : ¬ IdOutside byte body rest := fun h => hfits h.2.1
    obtain ⟨left, hread⟩ := publish_of_not_fits hbyte hbody rest rfl hfits
    rw [publishBuffer, Machine.bind_of hread, Misread, or_iff_right hin, and_iff_right hfits]
    dsimp only
    by_cases hshort : body.length < 128
    · rw [if_pos ((encodedLength_eq_one_iff _).mpr hshort), and_iff_right hshort]
      set data := { PublishData.ofHeader byte with topicName := ⟨topicLength body, none⟩ } with hdata
      cases hdeliver : c.deliverMessage data with
      | none =>
        refine iff_of_true rfl (Or.inl ?_)
        exact (deliverMessage_null rfl).mp hdeliver
      | some c' =>
        have hno : ¬ (topicLength body ≠ 0 ∧ FollowsNull c) := fun h => by
          rw [(@deliverMessage_null c data rfl).mpr h] at hdeliver
          cases hdeliver
        rw [or_iff_right hno]
        exact (acknowledge_eq_none_iff c' data sends).trans (and_iff_left rfl)
    · rw [if_neg fun h => hshort ((encodedLength_eq_one_iff _).mp h)]
      exact iff_of_false nofun fun h => hshort h.1

theorem work_fails_iff (c : Client) (packet_type : ℤ) (sends alive : Bool) :
    c.work packet_type sends alive = none ↔ packet_type = 3 ∧ c.handlePublish sends = none := by
  have hwork : c.work packet_type sends alive = none ↔ c.handle packet_type sends = none := by
    unfold work
    cases c.handle packet_type sends <;> simp
  rw [hwork, handle]
  split_ifs with h3 hother
  · exact (and_iff_right h3).symm
  · exact iff_of_false nofun fun h => h3 h.1
  · exact iff_of_false nofun fun h => h3 h.1

variable {σ : Type} {get : ℕ → StateT σ Option (List Byte)} {I : σ → Prop}

/-- **When a `cycle` goes wrong**, whatever bytes arrive from whatever network, and wherever it pauses: where `readPacket` has
left a PUBLISH of one of the three kinds in the buffer. -/
theorem cycle_fails_iff (hget : Gives get I) {s : σ} (hs : I s) (c : Client) (sends alive : Bool) :
    (c.cycle sends alive).run get s = none ↔ ∃ readbuf s' byte body rest,
      (readPacket c.readbuf).run get s = some ((3, readbuf), s') ∧ readbuf.toList = publishBuffer byte body rest ∧
      MQTTHeader.type byte = PUBLISH ∧ FitsReadbuf body ∧ Misread c byte body rest := by
  obtain ⟨⟨packet_type, readbuf⟩, s', hread, hr, -⟩ := (readPacket_always c.readbuf).run hget hs
  have hcycle : (c.cycle sends alive).run get s = none ↔ work { c with readbuf } packet_type sends alive = none := by
    unfold cycle
    rw [Reading.run_bind, bind_apply, hread, Option.bind_some, Reading.run_lift]
    cases work { c with readbuf } packet_type sends alive with
    | none => exact iff_of_true rfl rfl
    | some r => exact iff_of_false (lift_apply rfl s' ▸ nofun) nofun
  rw [hcycle, work_fails_iff]
  constructor
  · rintro ⟨rfl, hfails⟩
    obtain ⟨byte, body, htype, hfits, rest, hrest⟩ : ∃ byte body, (3 : ℤ) = MQTTHeader.type byte ∧ Holds readbuf byte body := by
      simpa [Read] using hr
    have hbyte : MQTTHeader.type byte = PUBLISH := (Int.ofNat_inj.mp htype).symm
    have hbuf : readbuf.toList = publishBuffer byte body rest := by
      rw [← hrest, packetBytes, List.cons_append, List.append_assoc, publishBuffer]
    have hmis := (handlePublish_fails_iff (c := { c with readbuf }) hbyte (lt_of_fitsReadbuf hfits) hbuf sends).mp hfails
    exact ⟨readbuf, s', byte, body, rest, hread, hbuf, hbyte, hfits, hmis⟩
  · rintro ⟨readbuf', s'', byte, body, rest, hread', hbuf, hbyte, hfits, hmis⟩
    obtain ⟨h, -⟩ := Prod.mk.inj (Option.some.inj (hread.symm.trans hread'))
    obtain ⟨rfl, rfl⟩ := Prod.mk.inj h
    exact ⟨rfl, (handlePublish_fails_iff (c := { c with readbuf }) hbyte (lt_of_fitsReadbuf hfits) hbuf sends).mpr hmis⟩

/-- A PUBLISH at QoS 1 that ends behind its length. -/
theorem cycle_fails_iff_empty : (blank.cycle true true).run lineRead ((packetBytes 0x32 []).map some ++ []) = none := by
  obtain ⟨readbuf, hread, hstore⟩ := consumes_readPacket blank.readbuf 0x32 (show FitsReadbuf [] by decide) []
  obtain ⟨s', hline, -⟩ := (supplied_lineRead []).run _ rfl hread
  have hbuf := (Buffer.toList_store hstore).2
  rw [List.take_zero, List.nil_append, packetBytes, List.cons_append, List.append_assoc] at hbuf
  rw [List.append_nil (packetBytes 0x32 [])] at hline
  have hmis : Misread { blank with readbuf } 0x32 [] (blank.readbuf.toList.drop (0 + (packetBytes 0x32 []).length)) :=
    .inr ⟨by decide, by decide, .inr (.inl rfl)⟩
  exact (cycle_fails_iff gives_lineRead trivial blank true true).mpr
    ⟨readbuf, s', 0x32, [], _, hline, hbuf, rfl, by decide, hmis⟩

end Client

end Mqtt
end Ventilation
