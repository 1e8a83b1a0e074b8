import MaxOne.Library.ScriptValue

/-!
# The queue's names, topology and messages

The names of `events.ts`, the objects `QueueService.open` asserts on the broker
and the check of a message body. A template text prints no two numbers alike, so
a routing key that ends in a number keeps the number. No key holds a wildcard: a
topic exchange compares them.
-/
namespace MaxOne.Events
open Library.Binary64 Library.ScriptValue

inductive Exchange where
  | events | dlx
  deriving DecidableEq, Repr

/-- `notification.push`, `notification.push.dead` and `notification.push.retry.<n>`. -/
inductive RoutingKey where
  | notificationPush
  | notificationPushDead
  | notificationPushRetry (n : Number)
  deriving DecidableEq, Repr

inductive Queue where
  | notificationsPush
  | notificationsPushDead
  | notificationsPushRetry (n : ℕ)
  deriving DecidableEq, Repr

def retryDelaysMs : List ℕ := [5000, 30000, 120000]

def maxRetries : ℕ := retryDelaysMs.length

def headerRetryCount : String := "x-retry-count"

/-! ## Topology -/

/-- A queue `open` asserts: the key that binds it, its time to live and where the
messages it gives up go. -/
structure Asserted where
  queue : Queue
  exchange : Exchange
  routingKey : RoutingKey
  messageTtl : Option ℕ
  deadLetter : Option (Exchange × RoutingKey)
  deriving DecidableEq, Repr

def retryQueue (i delay : ℕ) : Asserted where
  queue := .notificationsPushRetry (i + 1)
  exchange := .events
  routingKey := .notificationPushRetry (.finite (i + 1))
  messageTtl := some delay
  deadLetter := some (.events, .notificationPush)

def topology : List Asserted :=
  [{ queue := .notificationsPushDead, exchange := .dlx, routingKey := .notificationPushDead,
     messageTtl := none, deadLetter := none },
   { queue := .notificationsPush, exchange := .events, routingKey := .notificationPush,
     messageTtl := none, deadLetter := some (.dlx, .notificationPushDead) }] ++
  retryDelaysMs.mapIdx retryQueue

/-- Some queue is bound with the key; a message under any other key is dropped. -/
def Routable (exchange : Exchange) (key : RoutingKey) : Prop :=
  ∃ a ∈ topology, a.exchange = exchange ∧ a.routingKey = key

instance (exchange : Exchange) (key : RoutingKey) : Decidable (Routable exchange key) :=
  inferInstanceAs (Decidable (∃ a ∈ topology, a.exchange = exchange ∧ a.routingKey = key))

/-- What a queue gives up reaches another one. -/
theorem deadLetter_routable : ∀ a ∈ topology, ∀ target ∈ a.deadLetter,
    Routable target.1 target.2 := by
  intro a ha target htarget
  have hall : topology.all (fun a => a.deadLetter.all fun t => decide (Routable t.1 t.2)) = true := by
    decide
  have hthis := List.all_eq_true.mp hall a ha
  exact of_decide_eq_true ((Option.all_eq_true _ _).mp hthis target htarget)

/-- A copy comes back to the consumer after its delay. -/
theorem retry_returns {a : Asserted} (ha : a ∈ topology) {n : Number}
    (hkey : a.routingKey = .notificationPushRetry n) :
    a.deadLetter = some (.events, .notificationPush) := by
  simp only [topology, retryDelaysMs, List.mapIdx_cons, List.mapIdx_nil, List.cons_append,
    List.nil_append, List.mem_cons, List.not_mem_nil, or_false] at ha
  rcases ha with rfl | rfl | rfl | rfl | rfl
  · cases hkey
  · cases hkey
  all_goals rfl

theorem routable_retry (n : Number) : Routable .events (.notificationPushRetry n) ↔
    n = .finite 1 ∨ n = .finite 2 ∨ n = .finite 3 := by
  simp only [Routable, topology, retryDelaysMs, List.mapIdx_cons, List.mapIdx_nil, retryQueue,
    List.cons_append, List.nil_append, List.mem_cons, List.not_mem_nil, or_false, exists_eq_or_imp,
    exists_eq_left, reduceCtorEq, and_false, false_or, true_and,
    RoutingKey.notificationPushRetry.injEq]
  norm_num [eq_comm]

/-! ## Messages -/

/-- A parsed event: the checked fields, and the object they were read from. -/
structure NotificationPushEvent where
  id : String
  userId : String
  message : Value

/-- The fields the consumer must not act without. -/
def checkShape (e : Value) : Option NotificationPushEvent := do
  let id ← (e.get "id").bind Value.text?
  let type ← (e.get "type").bind Value.text?
  let userId ← (e.get "userId").bind Value.text?
  let payload ← e.get "payload"
  let _ ← (payload.get "title").bind Value.text?
  let _ ← (payload.get "body").bind Value.text?
  if type = "notification.push" ∧ payload.truthy then some ⟨id, userId, e⟩ else none

/-- `content` is what `JSON.parse` makes of the body, `none` when it throws. -/
def parseNotificationPushEvent (content : Option Value) : Except String NotificationPushEvent :=
  match content with
  | none => .error "notification.push: body is not JSON"
  | some e =>
      match checkShape e with
      | none => .error "notification.push: bad shape"
      | some event => .ok event

end MaxOne.Events
