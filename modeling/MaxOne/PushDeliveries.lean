import MaxOne.Library.Runs
import MaxOne.Library.Table
import MaxOne.NotificationConsumer

/-!
# Notifications on the devices of a user

`PushService` and the deliveries of events to the consumer, one handled after the
other. An endpoint answers a notification by taking it, by being gone (404 or
410) or in some other way, which is transient. The cache works, and the mark of
an event stays: the deliveries lie within its time to live.

The mark is one for the event while the endpoints answer one by one. A call that
some endpoint took and another did not throws, and the retry goes to both.
-/
namespace MaxOne.PushDeliveries
open Library Library.Runs Library.Binary64 Library.ScriptValue MaxOne.Events
  MaxOne.NotificationConsumer

/-! ## The service -/

structure PushSubscription where
  userId : String
  endpoint : String
  p256dh : String
  auth : String
  deriving DecidableEq, Repr

abbrev Subscriptions := Table PushSubscription PushSubscription.endpoint

/-- The upsert by endpoint. -/
def subscribe (subs : Subscriptions) (sub : PushSubscription) : Option Subscriptions :=
  if subs.find sub.endpoint = none then subs.insert sub
  else some (subs.modify sub.endpoint
    (fun r => { r with userId := sub.userId, p256dh := sub.p256dh, auth := sub.auth }) fun _ => rfl)

def unsubscribe (subs : Subscriptions) (userId endpoint : String) : Subscriptions :=
  subs.deleteWhere fun s => s.endpoint = endpoint && s.userId = userId

/-- What `webpush.sendNotification` ends with. -/
inductive Response where
  | accepted
  | failed (statusCode : Option ℕ) (message : Option String)
  deriving DecidableEq, Repr

namespace Response

def isAccepted : Response → Bool
  | accepted => true
  | failed _ _ => false

def isGone : Response → Bool
  | accepted => false
  | failed statusCode _ => statusCode = some 410 || statusCode = some 404

/-- The text of a transient failure. -/
def transient : Response → Option String
  | accepted => none
  | failed statusCode message =>
      if statusCode = some 410 || statusCode = some 404 then none
      else some ((statusCode.map toString).getD "network" ++ ": " ++ message.getD "send failed")

end Response

/-- How the endpoints answer in one call. -/
abbrev Answers := PushSubscription → Response

def subsOf (subs : Subscriptions) (userId : String) : List PushSubscription :=
  subs.rows.filter fun s => s.userId = userId

structure Sent where
  subs : Subscriptions
  accepted : List String
  error : Option String

/-- Every subscription is tried before the first transient failure is thrown. -/
def sendToUser (subs : Subscriptions) (userId : String) (answers : Answers) : Sent :=
  let targets := subsOf subs userId
  let transient := targets.filterMap fun s => (answers s).transient
  { subs := subs.deleteWhere fun s => s.userId = userId && (answers s).isGone
    accepted := (targets.filter fun s => (answers s).isAccepted).map PushSubscription.endpoint
    error := transient.head?.map fun first =>
      "push failed for " ++ toString transient.length ++ "/" ++ toString targets.length ++
        " subscription(s): " ++ first }

/-- Some endpoint takes the notification and another fails for now. -/
def mixed (subs : Subscriptions) (userId : String) (answers : Answers) : Bool :=
  (subsOf subs userId).any (fun s => (answers s).isAccepted) &&
    (subsOf subs userId).any fun s => (answers s).transient.isSome

/-! ## Deliveries -/

/-- `done` holds the keys of the marks; `accepted` the notifications that endpoints
took, each under its event. -/
structure State where
  subs : Subscriptions
  done : List String
  accepted : List (String × String)

def State.cached (s : State) (event : NotificationPushEvent) : Option Value :=
  if doneKey event ∈ s.done then some (.number (.finite 1)) else none

/-- What a handled message meets. -/
def outcomes (s : State) (event : NotificationPushEvent) (answers : Answers) (published : Bool) :
    Outcomes where
  cached := s.cached event
  pushError := (sendToUser s.subs event.userId answers).error
  published := published

def perform (event : NotificationPushEvent) (answers : Answers) (s : State) : Command → State
  | .sendToUser userId _ =>
      let sent := sendToUser s.subs userId answers
      { s with
        subs := sent.subs
        accepted := sent.accepted.map (fun endpoint => (endpoint, event.id)) ++ s.accepted }
  | .cacheSet key => { s with done := key :: s.done }
  | _ => s

def deliver (msg : AmqpMessage) (answers : Answers) (published : Bool) (s : State) : State :=
  match parseNotificationPushEvent msg.content with
  | .error _ => s
  | .ok event => (handle msg (outcomes s event answers published)).foldl (perform event answers) s

inductive Label where
  | subscribed (sub : PushSubscription)
  | unsubscribed (userId endpoint : String)
  | delivered (msg : AmqpMessage) (answers : Answers) (published : Bool)

def next (l : Label) (s : State) : Option State :=
  match l with
  | .subscribed sub => (subscribe s.subs sub).map fun subs => { s with subs := subs }
  | .unsubscribed userId endpoint => some { s with subs := unsubscribe s.subs userId endpoint }
  | .delivered msg answers published => some (deliver msg answers published s)

/-- Nothing was sent yet. -/
def start (subs : Subscriptions) : State := ⟨subs, [], []⟩

/-- The call that this step makes is not mixed. -/
def uniform (s : State) : Label → Bool
  | .delivered msg answers _ =>
      match parseNotificationPushEvent msg.content with
      | .error _ => true
      | .ok event => doneKey event ∈ s.done || !mixed s.subs event.userId answers
  | _ => true

/-! ## One notification an endpoint -/

/-- An event that some endpoint took is marked. -/
structure Marked (s : State) : Prop where
  once : s.accepted.Nodup
  done : ∀ p ∈ s.accepted, "mq:done:" ++ p.2 ∈ s.done

section Steps
variable {s : State} {msg : AmqpMessage} {answers : Answers} {published : Bool}
  {event : NotificationPushEvent}

theorem deliver_done (hparse : parseNotificationPushEvent msg.content = .ok event)
    (hdone : doneKey event ∈ s.done) : deliver msg answers published s = s := by
  have hcached : (outcomes s event answers published).cached.any Value.truthy = true := by
    simp [outcomes, State.cached, hdone, Value.truthy]
  simp only [deliver, hparse, handle_done hparse hcached, List.foldl_cons, List.foldl_nil, perform]

/-- The state after a call of `sendToUser`. -/
def afterSend (s : State) (event : NotificationPushEvent) (answers : Answers) : State :=
  perform event answers s (.sendToUser event.userId event.message)

theorem deliver_pushed (hparse : parseNotificationPushEvent msg.content = .ok event)
    (hdone : doneKey event ∉ s.done) (herror : (sendToUser s.subs event.userId answers).error = none) :
    deliver msg answers published s =
      { afterSend s event answers with done := doneKey event :: s.done } := by
  have hcached : (outcomes s event answers published).cached.any Value.truthy = false := by
    simp [outcomes, State.cached, hdone]
  simp only [deliver, hparse, handle_pushed hparse hcached herror, List.foldl_cons, List.foldl_nil,
    perform, afterSend]

theorem deliver_failed (hparse : parseNotificationPushEvent msg.content = .ok event)
    (hdone : doneKey event ∉ s.done) (herror : (sendToUser s.subs event.userId answers).error ≠ none) :
    deliver msg answers published s = afterSend s event answers := by
  have hcached : (outcomes s event answers published).cached.any Value.truthy = false := by
    simp [outcomes, State.cached, hdone]
  have hretry : ∀ t : State,
      (retryOrDead msg event published).foldl (perform event answers) t = t := by
    intro t
    unfold retryOrDead
    split
    · rfl
    · split
      · rfl
      · cases published <;> rfl
  simp only [deliver, hparse, handle_failed hparse hcached herror, List.foldl_cons, perform]
  exact hretry _

/-- A call that throws and is not mixed was taken by nobody. -/
theorem accepted_eq_nil (herror : (sendToUser s.subs event.userId answers).error ≠ none)
    (hmixed : mixed s.subs event.userId answers = false) :
    (sendToUser s.subs event.userId answers).accepted = [] := by
  have hfailed : (subsOf s.subs event.userId).any (fun s => (answers s).transient.isSome) = true := by
    simp only [sendToUser, ne_eq, Option.map_eq_none_iff, List.head?_eq_none_iff] at herror
    obtain ⟨text, htext⟩ := List.exists_mem_of_ne_nil _ herror
    obtain ⟨sub, hsub, hsome⟩ := List.mem_filterMap.mp htext
    rw [List.any_eq_true]
    exact ⟨sub, hsub, by rw [hsome]; rfl⟩
  rw [mixed, hfailed, Bool.and_true, List.any_eq_false] at hmixed
  have hnone : (subsOf s.subs event.userId).filter (fun s => (answers s).isAccepted) = [] :=
    List.filter_eq_nil_iff.mpr hmixed
  simp only [sendToUser, hnone, List.map_nil]

theorem accepted_nodup (subs : Subscriptions) (userId : String) :
    (sendToUser subs userId answers).accepted.Nodup := by
  have hsublist : List.Sublist ((subsOf subs userId).filter fun s => (answers s).isAccepted) subs.rows :=
    List.filter_sublist.trans List.filter_sublist
  exact subs.nodup.sublist (hsublist.map PushSubscription.endpoint)

theorem Marked.deliver (h : Marked s)
    (huniform : uniform s (.delivered msg answers published) = true) :
    Marked (deliver msg answers published s) := by
  cases hparse : parseNotificationPushEvent msg.content with
  | error e =>
      have hkeep : PushDeliveries.deliver msg answers published s = s := by
        simp only [PushDeliveries.deliver, hparse]
      rwa [hkeep]
  | ok event =>
      by_cases hdone : doneKey event ∈ s.done
      · rwa [deliver_done hparse hdone]
      · have hmixed : mixed s.subs event.userId answers = false := by
          simpa [uniform, hparse, hdone] using huniform
        by_cases herror : (sendToUser s.subs event.userId answers).error = none
        · rw [deliver_pushed hparse hdone herror]
          refine ⟨?_, fun p hp => ?_⟩
          · refine List.nodup_append'.mpr ⟨?_, h.once, fun p hp hold => ?_⟩
            · exact (accepted_nodup s.subs event.userId).map fun _ _ he => congrArg Prod.fst he
            · obtain ⟨endpoint, -, rfl⟩ := List.mem_map.mp hp
              exact hdone (h.done _ hold)
          · rcases List.mem_append.mp hp with hnew | hold
            · obtain ⟨endpoint, -, rfl⟩ := List.mem_map.mp hnew
              exact List.mem_cons_self
            · exact List.mem_cons_of_mem _ (h.done p hold)
        · rw [deliver_failed hparse hdone herror]
          have hnone := accepted_eq_nil herror hmixed
          have hkeep : (afterSend s event answers).accepted = s.accepted := by
            simp only [afterSend, perform, hnone, List.map_nil, List.nil_append]
          exact ⟨hkeep ▸ h.once, fun p hp => h.done p (hkeep ▸ hp)⟩

theorem Marked.next {l : Label} {t : State} (h : Marked s) (hn : PushDeliveries.next l s = some t)
    (huniform : uniform s l = true) : Marked t := by
  cases l with
  | subscribed sub =>
      obtain ⟨subs, -, rfl⟩ := Option.map_eq_some_iff.mp hn
      exact ⟨h.once, h.done⟩
  | unsubscribed userId endpoint =>
      cases hn
      exact ⟨h.once, h.done⟩
  | delivered msg answers published =>
      cases hn
      exact h.deliver huniform

end Steps

/-- While no call is mixed, an endpoint takes at most one notification of an event. -/
theorem endpoint_accepts_at_most_once {subs : Subscriptions} {tr : List (Event Label State)}
    {s : State} (h : Run PushDeliveries.next (start subs) tr s)
    (huniform : ∀ e ∈ tr, uniform e.pre e.label = true) (endpoint id : String) :
    s.accepted.count (endpoint, id) ≤ 1 := by
  have hmarked : Marked s := by
    refine h.invariant_when (fun e => uniform e.pre e.label = true) Marked ?_
      (fun _ _ _ hs hn hu => hs.next hn hu) huniform
    exact ⟨List.nodup_nil, fun _ hp => absurd hp List.not_mem_nil⟩
  exact List.nodup_iff_count_le_one.mp hmarked.once (endpoint, id)

/-! ## Two devices -/

def twoDevices : Subscriptions :=
  ⟨[⟨"u", "phone", "", ""⟩, ⟨"u", "laptop", "", ""⟩], by decide⟩

/-- The original and its first retry copy; each row holds one call's answers of the
phone and of the laptop. -/
def retried (phone laptop phone' laptop' : Response) : List Label :=
  let answers (p l : Response) : Answers := fun s => if s.endpoint = "phone" then p else l
  [.delivered (counted .null) (answers phone laptop) true,
    .delivered (counted (.number (.finite 1))) (answers phone' laptop') true]

theorem endpoint_accepts_at_most_once_retried :
    ∃ tr s, Run PushDeliveries.next (start twoDevices) tr s ∧
      s.accepted = [("phone", "e"), ("laptop", "e")] ∧ s.accepted.count ("phone", "e") ≤ 1 := by
  obtain ⟨tr, s, hrun, -, hs⟩ := Run.of_trace_map PushDeliveries.next
    (retried (.failed none none) (.failed (some 503) none) .accepted .accepted) (start twoDevices)
    (fun tr s => (tr.all (fun e => uniform e.pre e.label), s.accepted))
    (true, [("phone", "e"), ("laptop", "e")]) (by decide)
  have huniform : ∀ e ∈ tr, uniform e.pre e.label = true :=
    List.all_eq_true.mp (congrArg Prod.fst hs)
  exact ⟨tr, s, hrun, congrArg Prod.snd hs, endpoint_accepts_at_most_once hrun huniform "phone" "e"⟩

/-- The phone takes the original, the laptop fails, and the retry goes to both. -/
theorem retry_reaches_phone_again :
    ∃ tr s, Run PushDeliveries.next (start twoDevices) tr s ∧
      ¬ s.accepted.count ("phone", "e") ≤ 1 := by
  obtain ⟨tr, s, hrun, -, hs⟩ := Run.of_trace_map PushDeliveries.next
    (retried .accepted (.failed (some 503) none) .accepted .accepted) (start twoDevices)
    (fun _ s => s.accepted.count ("phone", "e")) 2 (by decide)
  exact ⟨tr, s, hrun, by rw [hs]; exact Nat.not_succ_le_self 1⟩

end MaxOne.PushDeliveries
