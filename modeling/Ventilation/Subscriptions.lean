/-
# What the handler believes to be subscribed to (src/commhandler.cpp)

`CommHandler` keeps a name and a flag for each type of topic; the flag is set by
`subscribe` and cleared by `unsubscribe` alone. `right_next_iff` says of every
call when it leaves the flags as the session is; so in every run whose steps
all meet that condition they are right (`subscribed_right`).
-/
import Mathlib.Data.Int.Notation
import Mathlib.Logic.Function.Basic
import Ventilation.Lib.Machine

namespace Ventilation

inductive TopicType
  | DATA_TOPIC | CONTROL_TOPIC | OTHER_TOPIC | LOG_SEND | STATUS_SEND
  deriving DecidableEq

/-- How the broker answers a request to subscribe. -/
inductive Suback
  | granted | refused | failed

/-- What becomes of a PUBLISH: one that does not fit into `sendbuf` is not sent at all. -/
inductive PublishResult
  | sent | tooLong | failed

/-! ### The client -/

/-- The client's session: whether it is open, and the names it is subscribed to. -/
structure Client where
  isconnected : Bool
  subscribed : String → Bool

namespace Client

def closeSession (c : Client) : Client := { c with isconnected := false }

/-- A session is opened with `cleansession`. -/
def connect (c : Client) (ok : Bool) : Client × ℤ :=
  if c.isconnected then (c, -1)
  else if ok then (⟨true, fun _ => false⟩, 0)
  else (c, -1)

/-- A request that is refused is answered all the same. -/
def subscribe (c : Client) (topic : String) : Suback → Client × ℤ
  | .granted =>
    if c.isconnected then ({ c with subscribed := Function.update c.subscribed topic true }, 0)
    else (c.closeSession, -1)
  | .refused => if c.isconnected then (c, 0) else (c.closeSession, -1)
  | .failed => (c.closeSession, -1)

def unsubscribe (c : Client) (topic : String) (ok : Bool) : Client × ℤ :=
  if c.isconnected && ok then ({ c with subscribed := Function.update c.subscribed topic false }, 0)
  else (c.closeSession, -1)

/-- Only a packet that cannot be sent ends the session. -/
def publish (c : Client) (result : PublishResult) : Client × ℤ :=
  if c.isconnected then
    match result with
    | .sent => (c, 0)
    | .tooLong => (c, -1)
    | .failed => (c.closeSession, -1)
  else (c, -1)

end Client

/-! ### The handler -/

/-- The handler: its client, and the name and the flag of each type of topic. -/
structure CommHandler where
  client : Client
  topics : TopicType → String × Bool

namespace CommHandler

/-- The constructor's handler, with a client that is not connected yet. -/
def new : CommHandler where
  client := ⟨false, fun _ => false⟩
  topics
    | .DATA_TOPIC => ("vent/controller/status", false)
    | .CONTROL_TOPIC => ("vent/controller/settings", false)
    | .OTHER_TOPIC => ("other", false)
    | .LOG_SEND => ("loghandler/logMessages", false)
    | .STATUS_SEND => ("loghandler/piStatusMessages", false)

def is_subscribed (h : CommHandler) (topic_type : TopicType) : ℤ := if (h.topics topic_type).2 then 1 else 0

def set_topic (h : CommHandler) (topic_type : TopicType) (new_topic : String) : CommHandler :=
  { h with topics := Function.update h.topics topic_type (new_topic, (h.topics topic_type).2) }

/-- `topics.at(topic_type).second = flag`. -/
def setFlag (h : CommHandler) (topic_type : TopicType) (flag : Bool) : CommHandler :=
  { h with topics := Function.update h.topics topic_type ((h.topics topic_type).1, flag) }

def connect_to_broker (h : CommHandler) (ok : Bool) : CommHandler × ℤ :=
  let (client, return_code) := h.client.connect ok
  ({ h with client }, return_code)

def reconnect (h : CommHandler) (ok : Bool) : CommHandler × ℤ :=
  let (client, return_code) := h.client.connect ok
  ({ h with client }, return_code)

def unsubscribe (h : CommHandler) (topic_type : TopicType) (ok : Bool) : CommHandler × ℤ :=
  if h.is_subscribed topic_type = 0 then (h, 0)
  else
    let (client, return_code) := h.client.unsubscribe (h.topics topic_type).1 ok
    let h := { h with client }
    (if return_code ≠ 0 then h else h.setFlag topic_type false, return_code)

/-- `subscribe` to the topic given; `ok` is for the call of `unsubscribe`, if there is one. -/
def subscribe (h : CommHandler) (topic_type : TopicType) (topic : String) (ok : Bool) (answer : Suback) :
    CommHandler × ℤ :=
  let (h, unsubscribed) := if h.is_subscribed topic_type ≠ 0 then h.unsubscribe topic_type ok else (h, 0)
  if unsubscribed ≠ 0 then (h, -2)
  else
    let h := if (h.topics topic_type).1 ≠ topic then h.set_topic topic_type topic else h
    let (client, return_code) := h.client.subscribe topic answer
    let h := { h with client }
    (if return_code ≠ 0 then h else h.setFlag topic_type true, return_code)

/-- `subscribe` to the topic set before. -/
def resubscribe (h : CommHandler) (topic_type : TopicType) (ok : Bool) (answer : Suback) : CommHandler × ℤ :=
  h.subscribe topic_type (h.topics topic_type).1 ok answer

def publish (h : CommHandler) (result : PublishResult) : CommHandler × ℤ :=
  let (client, return_code) := h.client.publish result
  ({ h with client }, return_code)

end CommHandler

/-! ### Runs -/

/-- A call with what becomes of the client's calls, or the loss of the connection. -/
inductive CommEvent
  | connect_to_broker (ok : Bool)
  | reconnect (ok : Bool)
  | subscribe (topic_type : TopicType) (topic : String) (ok : Bool) (answer : Suback)
  | resubscribe (topic_type : TopicType) (ok : Bool) (answer : Suback)
  | unsubscribe (topic_type : TopicType) (ok : Bool)
  | publish (result : PublishResult)
  | lost

namespace CommHandler

def next (h : CommHandler) : CommEvent → CommHandler
  | .connect_to_broker ok => (h.connect_to_broker ok).1
  | .reconnect ok => (h.reconnect ok).1
  | .subscribe topic_type topic ok answer => (h.subscribe topic_type topic ok answer).1
  | .resubscribe topic_type ok answer => (h.resubscribe topic_type ok answer).1
  | .unsubscribe topic_type ok => (h.unsubscribe topic_type ok).1
  | .publish result => (h.publish result).1
  | .lost => { h with client := h.client.closeSession }

def step (h : CommHandler) (e : CommEvent) : Option CommHandler := some (h.next e)

/-- The flags say what the session is subscribed to. -/
def Right (h : CommHandler) : Prop :=
  ∀ t, h.is_subscribed t = 1 ↔ h.client.isconnected = true ∧ h.client.subscribed (h.topics t).1 = true

/-- No type but `t` is flagged. -/
def NoOther (h : CommHandler) (t : TopicType) : Prop := ∀ t', t' ≠ t → (h.topics t').2 = false

/-- No type but `t` has its name. -/
def Own (h : CommHandler) (t : TopicType) : Prop := ∀ t', t' ≠ t → (h.topics t').1 ≠ (h.topics t).1

/-- When a subscription leaves the flags right. The old name of a flagged type must
be given up and be no other type's, the new one no unflagged type's; a refusal
does no harm only where the session has the new name already. -/
def Subscribable (h : CommHandler) (t : TopicType) (topic : String) (ok : Bool) : Suback → Prop
  | .granted => ((h.topics t).2 = true → ok = true ∧ ((h.topics t).1 = topic ∨ h.Own t)) ∧
      (h.client.isconnected = true → ∀ t', t' ≠ t → (h.topics t').1 = topic → (h.topics t').2 = true)
  | .refused => ((h.topics t).2 = true → ok = true ∧ (h.topics t).1 ≠ topic ∧ h.Own t) ∧
      (h.client.isconnected = true → h.client.subscribed topic = true)
  | .failed => ((h.topics t).2 = true → ok = true) ∧ h.NoOther t

/-- No session ends while a type is flagged, and no name is shared. -/
def Kept (h : CommHandler) : CommEvent → Prop
  | .connect_to_broker _ => True
  | .reconnect _ => True
  | .subscribe t topic ok answer => h.Subscribable t topic ok answer
  | .resubscribe t ok answer => h.Subscribable t (h.topics t).1 ok answer
  | .unsubscribe t ok => (h.topics t).2 = true → ok = true ∧ h.Own t
  | .publish result => result = .failed → ∀ t, (h.topics t).2 = false
  | .lost => ∀ t, (h.topics t).2 = false

variable {h : CommHandler}

theorem right_iff : h.Right ↔
    ∀ t, (h.topics t).2 = (h.client.isconnected && h.client.subscribed (h.topics t).1) := by
  unfold Right is_subscribed
  refine forall_congr' fun t => ?_
  cases (h.topics t).2 <;> cases h.client.isconnected <;> cases h.client.subscribed (h.topics t).1 <;> simp

/-- Without a session nothing may be flagged. -/
theorem right_closed (hc : h.client.isconnected = false) : h.Right ↔ ∀ t, (h.topics t).2 = false := by
  rw [right_iff, hc]
  simp

/-- An open session, and a new name and flag for `t`. -/
theorem right_update_iff {subscribed : String → Bool} {t : TopicType} {name : String} {flag : Bool} :
    Right ⟨⟨true, subscribed⟩, Function.update h.topics t (name, flag)⟩ ↔
      flag = subscribed name ∧ ∀ t', t' ≠ t → (h.topics t').2 = subscribed (h.topics t').1 := by
  rw [right_iff]
  simp only [Bool.true_and]
  exact Function.forall_update_iff h.topics fun _ x => x.2 = subscribed x.1

/-- A session that ended, and `t` is not flagged. -/
theorem right_closed_iff {subscribed : String → Bool} {t : TopicType} {name : String} :
    Right ⟨⟨false, subscribed⟩, Function.update h.topics t (name, false)⟩ ↔ h.NoOther t := by
  rw [right_closed rfl]
  exact (Function.forall_update_iff h.topics fun _ x => x.2 = false).trans (and_iff_right rfl)

theorem right_connect (hr : h.Right) (ok : Bool) : (h.connect_to_broker ok).1.Right := by
  unfold connect_to_broker Client.connect
  cases hc : h.client.isconnected with
  | true => exact hr
  | false =>
    have hnone := (right_closed hc).mp hr
    cases ok with
    | true =>
      rw [right_iff]
      simpa using hnone
    | false => exact hr

theorem right_publish_iff (hr : h.Right) (result : PublishResult) :
    (h.publish result).1.Right ↔ (result = .failed → ∀ t, (h.topics t).2 = false) := by
  unfold publish Client.publish
  cases hc : h.client.isconnected with
  | false =>
    have hnone := (right_closed hc).mp hr
    exact iff_of_true hr fun _ => hnone
  | true =>
    cases result with
    | sent => simpa using hr
    | tooLong => simpa using hr
    | failed =>
      have hclosed : Right { h with client := h.client.closeSession } ↔ ∀ t, (h.topics t).2 = false :=
        right_closed rfl
      simpa using hclosed

/-- A flagged type has its name subscribed to. -/
theorem Right.open (hr : h.Right) {t : TopicType} (ht : (h.topics t).2 = true) :
    h.client.isconnected = true ∧ h.client.subscribed (h.topics t).1 = true := by
  have hflag := right_iff.mp hr t
  rw [ht] at hflag
  exact Bool.and_eq_true_iff.mp hflag.symm

/-- Another type is flagged as the session without the name of `t` has it, unless it shares that name. -/
theorem Right.others_given_up (hr : h.Right) {t : TopicType} (ht : (h.topics t).2 = true) (t' : TopicType) :
    (h.topics t').2 = Function.update h.client.subscribed (h.topics t).1 false (h.topics t').1 ↔
      (h.topics t').1 ≠ (h.topics t).1 := by
  obtain ⟨hc, hsub⟩ := hr.open ht
  have hflag := right_iff.mp hr t'
  rw [hc, Bool.true_and] at hflag
  by_cases hname : (h.topics t').1 = (h.topics t).1
  · rw [hname, Function.update_self, hflag, hname, hsub]
    simp
  · rw [Function.update_of_ne hname]
    exact iff_of_true hflag hname

theorem unsubscribe_of_unflagged {t : TopicType} (ht : (h.topics t).2 = false) (ok : Bool) :
    h.unsubscribe t ok = (h, 0) := by
  simp [unsubscribe, is_subscribed, ht]

/-- What `unsubscribe` does for a flagged type. -/
theorem unsubscribe_of_flagged (hr : h.Right) {t : TopicType} (ht : (h.topics t).2 = true) (ok : Bool) :
    h.unsubscribe t ok = if ok then
        (⟨⟨true, Function.update h.client.subscribed (h.topics t).1 false⟩,
          Function.update h.topics t ((h.topics t).1, false)⟩, 0)
      else ({ h with client := h.client.closeSession }, -1) := by
  have hopen := (hr.open ht).1
  cases ok with
  | true => simp [unsubscribe, is_subscribed, ht, Client.unsubscribe, hopen, setFlag]
  | false => simp [unsubscribe, is_subscribed, ht, Client.unsubscribe]

theorem right_unsubscribe_iff (hr : h.Right) (t : TopicType) (ok : Bool) :
    (h.unsubscribe t ok).1.Right ↔ ((h.topics t).2 = true → ok = true ∧ h.Own t) := by
  cases ht : (h.topics t).2 with
  | false =>
    rw [unsubscribe_of_unflagged ht]
    exact iff_of_true hr fun h => nomatch h
  | true =>
    rw [unsubscribe_of_flagged hr ht]
    cases ok with
    | false =>
      rw [if_neg Bool.false_ne_true, right_closed rfl]
      refine iff_of_false (fun hnone => ?_) (fun h => Bool.false_ne_true (h rfl).1)
      rw [hnone t] at ht
      cases ht
    | true =>
      rw [if_pos rfl, right_update_iff]
      simp only [Function.update_self, true_and, forall_const]
      refine forall₂_congr fun t' ht' => ?_
      rw [hr.others_given_up ht]

/-- What `subscribe` does for a type that is not flagged. -/
theorem subscribe_of_unflagged {t : TopicType} (ht : (h.topics t).2 = false) (topic : String) (ok : Bool)
    (answer : Suback) : (h.subscribe t topic ok answer).1 =
      ⟨(h.client.subscribe topic answer).1,
        Function.update h.topics t (topic, decide ((h.client.subscribe topic answer).2 = 0))⟩ := by
  have hself : h.topics t = ((h.topics t).1, false) := Prod.ext rfl ht
  by_cases hname : (h.topics t).1 = topic
  · by_cases hcode : (h.client.subscribe topic answer).2 = 0
    · simp [subscribe, is_subscribed, ht, hname, hcode, setFlag]
    · rw [hname] at hself
      simp [subscribe, is_subscribed, ht, hname, hcode, ← hself]
  · by_cases hcode : (h.client.subscribe topic answer).2 = 0
    · simp [subscribe, is_subscribed, ht, hname, hcode, set_topic, setFlag]
    · simp [subscribe, is_subscribed, ht, hname, hcode, set_topic]

/-- And for one that is: it gives up the old name first. -/
theorem subscribe_of_flagged (hr : h.Right) {t : TopicType} (ht : (h.topics t).2 = true) (topic : String)
    (ok : Bool) (answer : Suback) : (h.subscribe t topic ok answer).1 =
      if ok then
        let c : Client := ⟨true, Function.update h.client.subscribed (h.topics t).1 false⟩
        ⟨(c.subscribe topic answer).1, Function.update h.topics t (topic, decide ((c.subscribe topic answer).2 = 0))⟩
      else { h with client := h.client.closeSession } := by
  have hfirst := unsubscribe_of_flagged hr ht ok
  cases ok with
  | false => simp [subscribe, is_subscribed, ht, hfirst]
  | true =>
    rw [if_pos rfl] at hfirst ⊢
    have hunflagged : ((h.unsubscribe t true).1.topics t).2 = false := by
      rw [hfirst]
      dsimp only
      rw [Function.update_self]
    have hrest := subscribe_of_unflagged hunflagged topic true answer
    have hsame : (h.subscribe t topic true answer).1 = ((h.unsubscribe t true).1.subscribe t topic true answer).1 := by
      rw [hfirst]
      simp [subscribe, is_subscribed, ht, hfirst]
    rw [hsame, hrest, hfirst, Function.update_idem]

/-- What an answer leaves, where the session is open. -/
theorem right_subscribe_open {subscribed : String → Bool} {t : TopicType} {topic : String} (answer : Suback) :
    Right ⟨(Client.subscribe ⟨true, subscribed⟩ topic answer).1, Function.update h.topics t
        (topic, decide ((Client.subscribe ⟨true, subscribed⟩ topic answer).2 = 0))⟩ ↔
      match answer with
      | .granted => ∀ t', t' ≠ t → (h.topics t').2 = Function.update subscribed topic true (h.topics t').1
      | .refused => subscribed topic = true ∧ ∀ t', t' ≠ t → (h.topics t').2 = subscribed (h.topics t').1
      | .failed => h.NoOther t := by
  cases answer with
  | granted => exact right_update_iff.trans (and_iff_right (Function.update_self topic true subscribed).symm)
  | refused => exact right_update_iff.trans (and_congr_left' eq_comm)
  | failed => exact right_closed_iff

/-- A type that has the new name must be flagged. -/
theorem Right.others_taken (hr : h.Right) (hc : h.client.isconnected = true) (topic : String) (t' : TopicType) :
    (h.topics t').2 = Function.update h.client.subscribed topic true (h.topics t').1 ↔
      ((h.topics t').1 = topic → (h.topics t').2 = true) := by
  have hflag := right_iff.mp hr t'
  rw [hc, Bool.true_and] at hflag
  by_cases hname : (h.topics t').1 = topic
  · rw [hname, Function.update_self]
    exact ⟨fun h _ => h, fun h => h rfl⟩
  · rw [Function.update_of_ne hname]
    exact iff_of_true hflag fun h => absurd h hname

/-- **`subscribe`, for a type that is not flagged.** -/
theorem right_subscribe_unflagged (hr : h.Right) {t : TopicType} (ht : (h.topics t).2 = false) (topic : String)
    (ok : Bool) (answer : Suback) :
    (h.subscribe t topic ok answer).1.Right ↔ h.Subscribable t topic ok answer := by
  rw [subscribe_of_unflagged ht]
  have hno : ∀ p : Prop, (h.topics t).2 = true → p := fun p hflag => nomatch ht.symm.trans hflag
  cases hc : h.client.isconnected with
  | false =>
    have hnone := (right_closed hc).mp hr
    have hfail : h.client.subscribe topic answer = (h.client.closeSession, -1) := by
      cases answer <;> simp [Client.subscribe, hc]
    rw [hfail]
    refine iff_of_true (right_closed_iff.mpr fun t' _ => hnone t') ?_
    cases answer <;> simp [Subscribable, ht, hc, NoOther, hnone]
  | true =>
    have hclient : h.client = ⟨true, h.client.subscribed⟩ := by rw [← hc]
    rw [hclient, right_subscribe_open]
    cases answer with
    | granted =>
      have hothers := forall₂_congr fun t' (_ : t' ≠ t) => hr.others_taken hc topic t'
      refine hothers.trans ⟨fun h => ⟨hno _, fun _ => h⟩, fun h => h.2 hc⟩
    | refused =>
      have hflags := right_iff.mp hr
      simp only [hc, Bool.true_and] at hflags
      exact ⟨fun h => ⟨hno _, fun _ => h.1⟩, fun h => ⟨h.2 hc, fun t' _ => hflags t'⟩⟩
    | failed => exact ⟨fun h => ⟨hno _, h⟩, And.right⟩

/-- The same where `t` gives up its old name. -/
theorem Right.others_moved (hr : h.Right) {t : TopicType} (ht : (h.topics t).2 = true) (topic : String)
    (t' : TopicType) :
    (h.topics t').2 = Function.update (Function.update h.client.subscribed (h.topics t).1 false) topic true
        (h.topics t').1 ↔
      ((h.topics t').1 = topic → (h.topics t').2 = true) ∧
        ((h.topics t').1 = (h.topics t).1 → (h.topics t').1 = topic) := by
  by_cases hname : (h.topics t').1 = topic
  · rw [hname, Function.update_self]
    exact ⟨fun h => ⟨fun _ => h, fun _ => rfl⟩, fun h => h.1 rfl⟩
  · rw [Function.update_of_ne hname, hr.others_given_up ht]
    exact ⟨fun h => ⟨fun heq => absurd heq hname, fun heq => absurd heq h⟩, fun h heq => hname (h.2 heq)⟩

/-- A flagged type is granted its new name. -/
theorem others_granted_iff (hr : h.Right) {t : TopicType} (ht : (h.topics t).2 = true) (topic : String) :
    (∀ t', t' ≠ t → (h.topics t').2 =
        Function.update (Function.update h.client.subscribed (h.topics t).1 false) topic true (h.topics t').1) ↔
      h.Subscribable t topic true .granted := by
  obtain ⟨hc, hsub⟩ := hr.open ht
  rw [forall₂_congr fun t' (_ : t' ≠ t) => hr.others_moved ht topic t']
  constructor
  · intro hall
    refine ⟨fun _ => ⟨rfl, ?_⟩, fun _ t' ht' => (hall t' ht').1⟩
    by_cases hname : (h.topics t).1 = topic
    · exact .inl hname
    · exact .inr fun t' ht' heq => hname (heq.symm.trans ((hall t' ht').2 heq))
  · rintro ⟨hold, hnew⟩ t' ht'
    refine ⟨hnew hc t' ht', fun heq => ?_⟩
    rcases (hold ht).2 with hname | hown
    · exact heq.trans hname
    · exact absurd heq (hown t' ht')

/-- A flagged type is refused its new name. -/
theorem others_refused_iff (hr : h.Right) {t : TopicType} (ht : (h.topics t).2 = true) (topic : String) :
    (Function.update h.client.subscribed (h.topics t).1 false topic = true ∧ ∀ t', t' ≠ t →
        (h.topics t').2 = Function.update h.client.subscribed (h.topics t).1 false (h.topics t').1) ↔
      h.Subscribable t topic true .refused := by
  obtain ⟨hc, hsub⟩ := hr.open ht
  rw [forall₂_congr fun t' (_ : t' ≠ t) => hr.others_given_up ht t']
  constructor
  · rintro ⟨htopic, hown⟩
    have hname : topic ≠ (h.topics t).1 := fun heq => by
      rw [heq, Function.update_self] at htopic
      cases htopic
    rw [Function.update_of_ne hname] at htopic
    exact ⟨fun _ => ⟨rfl, hname.symm, hown⟩, fun _ => htopic⟩
  · rintro ⟨hold, hnew⟩
    obtain ⟨-, hname, hown⟩ := hold ht
    rw [Function.update_of_ne hname.symm]
    exact ⟨hnew hc, hown⟩

/-- **`subscribe`, for a type that is.** -/
theorem right_subscribe_flagged (hr : h.Right) {t : TopicType} (ht : (h.topics t).2 = true) (topic : String)
    (ok : Bool) (answer : Suback) :
    (h.subscribe t topic ok answer).1.Right ↔ h.Subscribable t topic ok answer := by
  rw [subscribe_of_flagged hr ht]
  cases ok with
  | false =>
    rw [if_neg Bool.false_ne_true, right_closed rfl]
    refine iff_of_false (fun hnone => ?_) (fun h => ?_)
    · rw [hnone t] at ht
      cases ht
    · cases answer <;> exact Bool.false_ne_true (by first | exact (h.1 ht).1 | exact h.1 ht)
  | true =>
    rw [if_pos rfl]
    dsimp only
    rw [right_subscribe_open]
    cases answer with
    | granted => exact others_granted_iff hr ht topic
    | refused => exact others_refused_iff hr ht topic
    | failed => exact ⟨fun h => ⟨fun _ => rfl, h⟩, And.right⟩

theorem right_subscribe_iff (hr : h.Right) (t : TopicType) (topic : String) (ok : Bool) (answer : Suback) :
    (h.subscribe t topic ok answer).1.Right ↔ h.Subscribable t topic ok answer := by
  cases ht : (h.topics t).2 with
  | false => exact right_subscribe_unflagged hr ht topic ok answer
  | true => exact right_subscribe_flagged hr ht topic ok answer

/-- **When an event leaves the flags right** that finds them so. -/
theorem right_next_iff (hr : h.Right) (e : CommEvent) : (h.next e).Right ↔ h.Kept e := by
  cases e with
  | connect_to_broker ok => exact iff_of_true (right_connect hr ok) trivial
  | reconnect ok => exact iff_of_true (right_connect hr ok) trivial
  | subscribe t topic ok answer => exact right_subscribe_iff hr t topic ok answer
  | resubscribe t ok answer => exact right_subscribe_iff hr t _ ok answer
  | unsubscribe t ok => exact right_unsubscribe_iff hr t ok
  | publish result => exact right_publish_iff hr result
  | lost => exact right_closed rfl

theorem right_new : new.Right := by
  intro t
  cases t <;> exact iff_of_false (by decide) (by decide)

/-- **The flags are right in every run** in which no session ends while a type
is flagged and no name is shared; and in no other. -/
theorem subscribed_right (hr : Machine.Reach step (· = new) Kept h) :
    h.Right ∧ ∀ e, (h.next e).Right ↔ h.Kept e := by
  have hright : h.Right := by
    refine hr.invariant (J := Right) (fun s hs => hs ▸ right_new) fun s e t hs hP hst => ?_
    cases hst
    exact (right_next_iff hs e).mpr hP
  exact ⟨hright, right_next_iff hright⟩

/-- A first subscription. -/
theorem subscribed_right_first : ((new.next (.connect_to_broker true)).next
    (.resubscribe .CONTROL_TOPIC true .granted)).Right := by
  have hconnect : Machine.Reach step (· = new) Kept (new.next (.connect_to_broker true)) :=
    Machine.Reach.step (e := .connect_to_broker true) (.init rfl) trivial rfl
  refine ((subscribed_right hconnect).2 (.resubscribe .CONTROL_TOPIC true .granted)).mpr ⟨?_, ?_⟩
  · intro h
    cases h
  · intro _ t' ht' hname
    cases t' <;> first | exact absurd rfl ht' | exact absurd hname (by decide)

/-- A connection that is lost with the control topic subscribed to. -/
theorem stale_flag : ∃ h, Machine.run step new
      [.connect_to_broker true, .resubscribe .CONTROL_TOPIC true .granted, .lost] = some h ∧
    h.is_subscribed .CONTROL_TOPIC = 1 ∧ h.client.isconnected = false ∧ ¬ h.Right := by
  refine ⟨_, rfl, rfl, rfl, fun hr => ?_⟩
  exact Bool.false_ne_true ((hr .CONTROL_TOPIC).mp rfl).1

end CommHandler
end Ventilation
