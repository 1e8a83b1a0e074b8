import MaxOne.Library.Binary64
import MaxOne.Library.Interleaving
import MaxOne.WalletsService

/-!
# Price alerts and overlapping ticks

`PriceStreamService.tick` and `AlertCheckService.check` over the alerts of all
users, next to users who add and remove alerts. A client is one tick or one
request; ticks start while others run. The pending alerts are read before the
transaction that marks them, and the update of `markTriggered` names them by id
only. It locks the rows that are there until the commit, which is where the
notifications become visible.

`format` is the locale's text of a price. A tick runs outside any request, so its
events carry no request id; socket broadcasts and the dispatch after the commit
are left out.
-/
namespace MaxOne.PriceAlerts
open Library Library.Runs Library.Interleaving Library.Binary64 MaxOne.Schema

structure PriceAlert where
  id : Uuid
  userId : Uuid
  symbol : String
  type : String
  targetPrice : Number
  direction : String
  triggeredAt : Option Time
  deriving DecidableEq, Repr

/-- The single server-side trigger rule. -/
def isTriggered (direction : String) (targetPrice price : Number) : Bool :=
  if direction = "above" then targetPrice.le price else price.le targetPrice

structure Asset where
  symbol : String
  price : Number
  deriving DecidableEq, Repr

/-- An alert as it was read and the price it met. -/
structure Firing where
  alert : PriceAlert
  price : Number
  deriving DecidableEq, Repr

/-- Of an asset listed twice the later price counts. -/
def priceOf (assets : List Asset) (symbol : String) : Option Number :=
  (assets.reverse.find? fun a => a.symbol = symbol).map Asset.price

def fire (assets : List Asset) (alert : PriceAlert) : Option Firing :=
  (priceOf assets alert.symbol).bind fun price =>
    if isTriggered alert.direction alert.targetPrice price then some ⟨alert, price⟩ else none

def px (format : Number → String) (n : Number) : String := "$" ++ format n

def payload (format : Number → String) (f : Firing) : NotificationPayload where
  title := "🔔 " ++ f.alert.symbol ++ " crossed " ++ f.alert.direction ++ " " ++
    px format f.alert.targetPrice
  body := "now " ++ px format f.price
  tag := f.alert.id
  url := "/alerts"

/-- `NotificationService.enqueue`; `eventId` is the drawn id. -/
def pushEvent (format : Number → String) (eventId : Uuid) (now : Time) (f : Firing) :
    NotificationPushEvent where
  id := eventId
  type := WalletsService.routingKeyNotificationPush
  occurredAt := now
  userId := f.alert.userId
  payload := payload format f
  requestId := none

/-! ## The shared tables -/

/-- `used` lists the ids given out so far, `locked` the alerts a transaction has
updated, and `events` the enqueued notifications, newest last. -/
structure Shared where
  alerts : Table PriceAlert PriceAlert.id
  used : List Uuid
  locked : List Uuid
  events : List NotificationPushEvent

/-- `AlertsService.findPending`. -/
def findPending (d : Shared) : List PriceAlert := d.alerts.rows.filter fun a => a.triggeredAt = none

/-- The update of `markTriggered`, for the rows it found. -/
def markTriggered (ids : List Uuid) (now : Time) (alerts : Table PriceAlert PriceAlert.id) :
    Table PriceAlert PriceAlert.id :=
  alerts.modifyWhere (fun a => a.id ∈ ids) (fun a => { a with triggeredAt := some now }) fun _ => rfl

/-- What a client awaits. -/
inductive Pc where
  | idle
  | counting (watching : Bool)
  | listing (pending : Bool)
  | checking (assets : List Asset)
  | marking (fired : List Firing)
  | committing (fired : List Firing) (held : List Uuid) (now : Time)
  deriving DecidableEq, Repr

/-- The rows a client has locked. -/
def held : Pc → List Uuid
  | .committing _ ids _ => ids
  | _ => []

def firedIds (fired : List Firing) : List Uuid := fired.map fun f => f.alert.id

/-- The locks the update takes. -/
def found (d : Shared) (fired : List Firing) : List Uuid :=
  (firedIds fired).filter fun id => d.alerts.find id ≠ none

/-- `go` resumes a tick after a read or an update, with the clock; `fail` ends it by an
error or a crash. -/
inductive Input where
  | add (alert : PriceAlert)
  | remove (userId id : Uuid)
  | tick (watching : Bool)
  | go (now : Time)
  | assets (list : List Asset)
  | commit (eventIds : Uuid → Uuid) (now : Time)
  | fail

def release (d : Shared) (ids : List Uuid) : Shared :=
  { d with locked := d.locked.filter fun id => id ∉ ids }

def commit (format : Number → String) (eventIds : Uuid → Uuid) (now : Time) (fired : List Firing)
    (ids : List Uuid) (triggeredAt : Time) (d : Shared) : Shared :=
  release { d with
    alerts := markTriggered ids triggeredAt d.alerts
    events := d.events ++ fired.map fun f => pushEvent format (eventIds f.alert.id) now f } ids

def step (format : Number → String) (i : Input) (p : Pc) (d : Shared) : Option (Pc × Shared) :=
  match i, p with
  | .add alert, .idle =>
      if alert.id ∈ d.used then none
      else (d.alerts.insert { alert with triggeredAt := none }).map fun alerts =>
        (.idle, { d with alerts := alerts, used := alert.id :: d.used })
  | .remove userId id, .idle =>
      if id ∈ d.locked ∧ (d.alerts.find id).any (fun a => a.userId = userId) then none
      else some (.idle, { d with
        alerts := d.alerts.deleteWhere fun a => a.id = id && a.userId = userId })
  | .tick watching, .idle => some (.counting watching, d)
  | .go _, .counting watching =>
      let pending := !(findPending d).isEmpty
      if !watching && !pending then some (.idle, d) else some (.listing pending, d)
  | .assets list, .listing pending =>
      if list.isEmpty || !pending then some (.idle, d) else some (.checking list, d)
  | .go _, .checking list =>
      let fired := (findPending d).filterMap (fire list)
      if fired.isEmpty then some (.idle, d) else some (.marking fired, d)
  | .go now, .marking fired =>
      if (found d fired).any fun id => id ∈ d.locked then none
      else some (.committing fired (found d fired) now,
        { d with locked := found d fired ++ d.locked })
  | .commit eventIds now, .committing fired ids triggeredAt =>
      some (.idle, commit format eventIds now fired ids triggeredAt d)
  | .fail, p => some (.idle, release d (held p))
  | _, _ => none

abbrev Service := Pool Shared Pc

def start : Service := ⟨⟨.empty, [], [], []⟩, fun _ => .idle⟩

/-! ## One-shot alerts -/

def eventsOf (d : Shared) (id : Uuid) : List NotificationPushEvent :=
  d.events.filter fun e => e.payload.tag = id

/-- The commit from `d` to `d'` fires a pending alert for `e` at a price that triggers it. -/
def Fires (format : Number → String) (d d' : Shared) (e : NotificationPushEvent) : Prop :=
  ∃ alert ∈ d.alerts.rows, ∃ price now, alert.triggeredAt = none ∧
    isTriggered alert.direction alert.targetPrice price = true ∧ e.userId = alert.userId ∧
    e.payload = payload format ⟨alert, price⟩ ∧
    d'.alerts.find alert.id = some { alert with triggeredAt := some now }

structure OneShot (format : Number → String) (tr : List (Event (ℕ × Input) Service)) (s : Service) :
    Prop where
  once : ∀ id, (eventsOf s.data id).length ≤ 1
  fires : ∀ t ∈ tr, ∀ e ∈ t.post.data.events,
    e ∈ t.pre.data.events ∨ Fires format t.pre.data t.post.data e

/-- When a tick marks its alerts, each is still there and still pending. -/
def unfired (i : Input) (p : Pc) (d : Shared) : Bool :=
  match i, p with
  | .go _, .marking fired =>
      fired.all fun f => (d.alerts.find f.alert.id).any fun a => a.triggeredAt = none
  | _, _ => true

/-! ## Steps -/

/-- Everything a step can do. -/
inductive Does (format : Number → String) (d : Shared) : Input → Pc → Pc → Shared → Prop
  | stay {i p p'} (hp : held p = [])
      (hp' : ∀ fired ids now, p' ≠ .marking fired ∧ p' ≠ .committing fired ids now) :
      Does format d i p p' d
  | read (now : Time) (list : List Asset) :
      Does format d (.go now) (.checking list) (.marking ((findPending d).filterMap (fire list))) d
  | add (alert : PriceAlert) {alerts} (hused : alert.id ∉ d.used)
      (hinsert : d.alerts.insert { alert with triggeredAt := none } = some alerts) :
      Does format d (.add alert) .idle .idle { d with alerts := alerts, used := alert.id :: d.used }
  | remove (userId id : Uuid)
      (hfree : id ∉ d.locked ∨ ∀ a, d.alerts.find id = some a → a.userId ≠ userId) :
      Does format d (.remove userId id) .idle .idle
        { d with alerts := d.alerts.deleteWhere fun a => a.id = id && a.userId = userId }
  | lock (now : Time) (fired : List Firing) (hfree : ∀ id ∈ found d fired, id ∉ d.locked) :
      Does format d (.go now) (.marking fired) (.committing fired (found d fired) now)
        { d with locked := found d fired ++ d.locked }
  | commit (eventIds : Uuid → Uuid) (now : Time) (fired : List Firing) (ids : List Uuid)
      (triggeredAt : Time) :
      Does format d (.commit eventIds now) (.committing fired ids triggeredAt) .idle
        (commit format eventIds now fired ids triggeredAt d)
  | fail (p : Pc) : Does format d .fail p .idle (release d (held p))

variable {format : Number → String}

theorem step_does {i : Input} {p p' : Pc} {d d' : Shared} (h : step format i p d = some (p', d')) :
    Does format d i p p' d' := by
  unfold step at h
  split at h
  · split at h
    · cases h
    · next hused =>
        obtain ⟨alerts, hinsert, he⟩ := Option.map_eq_some_iff.mp h
        cases he
        exact .add _ hused hinsert
  · split at h
    · cases h
    · next userId id hfree =>
        cases h
        refine .remove userId id ?_
        by_cases hlocked : id ∈ d.locked
        · refine .inr fun a ha he => hfree ⟨hlocked, ?_⟩
          rw [ha, Option.any_some, decide_eq_true_eq]
          exact he
        · exact .inl hlocked
  · cases h
    exact .stay rfl fun _ _ _ => ⟨by simp, by simp⟩
  · dsimp only at h
    split at h
    · cases h
      exact .stay rfl fun _ _ _ => ⟨by simp, by simp⟩
    · cases h
      exact .stay rfl fun _ _ _ => ⟨by simp, by simp⟩
  · split at h
    · cases h
      exact .stay rfl fun _ _ _ => ⟨by simp, by simp⟩
    · cases h
      exact .stay rfl fun _ _ _ => ⟨by simp, by simp⟩
  · dsimp only at h
    split at h
    · cases h
      exact .stay rfl fun _ _ _ => ⟨by simp, by simp⟩
    · cases h
      exact .read _ _
  · split at h
    · cases h
    · next hfree =>
        cases h
        refine .lock _ _ fun id hid hlocked => hfree ?_
        rw [List.any_eq_true]
        exact ⟨id, hid, decide_eq_true hlocked⟩
  · cases h
    exact .commit _ _ _ _ _
  · cases h
    exact .fail _
  · cases h

/-! ## What a tick relies on -/

/-- The alert as it is created, which only `triggeredAt` ever departs from. -/
def PriceAlert.asAdded (a : PriceAlert) : PriceAlert := { a with triggeredAt := none }

/-- Fired alerts were pending when they were read, and their rows still say the same. -/
structure Read (d : Shared) (fired : List Firing) : Prop where
  nodup : (firedIds fired).Nodup
  used : ∀ f ∈ fired, f.alert.id ∈ d.used
  pending : ∀ f ∈ fired, f.alert.triggeredAt = none
  triggered : ∀ f ∈ fired, isTriggered f.alert.direction f.alert.targetPrice f.price = true
  same : ∀ f ∈ fired, ∀ a, d.alerts.find f.alert.id = some a → a.asAdded = f.alert

/-- Between the update and the commit every fired alert is locked and as it was read. -/
structure Locked (d : Shared) (fired : List Firing) (ids : List Uuid) : Prop where
  held : ∀ f ∈ fired, f.alert.id ∈ ids
  rows : ∀ f ∈ fired, d.alerts.find f.alert.id = some f.alert
  locked : ∀ id ∈ ids, id ∈ d.locked

def PcOk (d : Shared) : Pc → Prop
  | .marking fired => Read d fired
  | .committing fired ids _ => Read d fired ∧ Locked d fired ids
  | _ => True

/-- What the other clients see of a step that held the locks `ids`. -/
structure Change (ids : List Uuid) (d d' : Shared) : Prop where
  used : ∀ id ∈ d.used, id ∈ d'.used
  same : ∀ id ∈ d.used, ∀ a', d'.alerts.find id = some a' →
    ∃ a, d.alerts.find id = some a ∧ a'.asAdded = a.asAdded
  pending : ∀ id ∈ d.used, ∀ a', d'.alerts.find id = some a' → a'.triggeredAt = none →
    d.alerts.find id = some a'
  rows : ∀ id ∈ d.locked, id ∉ ids → ∀ a, d.alerts.find id = some a → d'.alerts.find id = some a
  locked : ∀ id ∈ d.locked, id ∉ ids → id ∈ d'.locked

section Change
variable {i : Input} {p p' q : Pc} {d d' : Shared} {ids : List Uuid}

theorem Change.same_alerts (hu : d'.used = d.used) (ha : d'.alerts = d.alerts)
    (hl : ∀ id ∈ d.locked, id ∉ ids → id ∈ d'.locked) : Change ids d d' where
  used := fun _ h => hu ▸ h
  same := fun _ _ a' h => ⟨a', ha ▸ h, rfl⟩
  pending := fun _ _ _ h _ => ha ▸ h
  rows := fun _ _ _ _ h => ha ▸ h
  locked := hl

theorem find_markTriggered (ids : List Uuid) (now : Time) (alerts : Table PriceAlert PriceAlert.id)
    (id : Uuid) : (markTriggered ids now alerts).find id =
      (alerts.find id).map fun a => if id ∈ ids then { a with triggeredAt := some now } else a := by
  rw [markTriggered, Table.find_modifyWhere]
  cases h : alerts.find id with
  | none => rfl
  | some a => simp [show a.id = id from Table.find_key h]

theorem mem_markTriggered {ids : List Uuid} {now : Time} {alerts : Table PriceAlert PriceAlert.id}
    {a : PriceAlert} (h : a ∈ (markTriggered ids now alerts).rows) :
    ∃ old ∈ alerts.rows, old.id = a.id ∧ a.asAdded = old.asAdded := by
  unfold markTriggered at h
  obtain ⟨old, hold, rfl⟩ := Table.mem_modifyWhere.mp h
  refine ⟨old, hold, ?_⟩
  split <;> exact ⟨rfl, rfl⟩

theorem mem_release {id : Uuid} : id ∈ (release d ids).locked ↔ id ∈ d.locked ∧ id ∉ ids := by
  rw [release, List.mem_filter, decide_eq_true_eq]

theorem Change.of_does (h : Does format d i p p' d') : Change (held p) d d' := by
  cases h with
  | stay hp hp' => exact .same_alerts rfl rfl fun _ h _ => h
  | read now list => exact .same_alerts rfl rfl fun _ h _ => h
  | @add alert alerts hused hinsert =>
      have hold : ∀ id ∈ d.used, ∀ a', alerts.find id = some a' → d.alerts.find id = some a' := by
        intro id hid a' ha'
        have hne : id ≠ alert.id := fun he => hused (he ▸ hid)
        rw [Table.find_insert hinsert, if_neg hne] at ha'
        exact ha'
      refine ⟨fun _ h => List.mem_cons_of_mem _ h, fun id hid a' ha' => ⟨a', hold id hid a' ha', rfl⟩,
        fun id hid a' ha' _ => hold id hid a' ha', fun id _ _ a ha => ?_, fun _ h _ => h⟩
      · exact Table.find_insert_of_some hinsert ha
  | remove userId id hfree =>
      refine ⟨fun _ h => h, fun id' _ a' ha' => ?_, fun id' _ a' ha' _ => ?_,
        fun id' hid' _ a ha => ?_, fun _ h _ => h⟩
      · simp only [Table.find_deleteWhere, Option.filter_eq_some_iff] at ha'
        exact ⟨a', ha'.1, rfl⟩
      · simp only [Table.find_deleteWhere, Option.filter_eq_some_iff] at ha'
        exact ha'.1
      · simp only [Table.find_deleteWhere, Option.filter_eq_some_iff]
        refine ⟨ha, ?_⟩
        have hkey : a.id = id' := Table.find_key ha
        by_cases he : id' = id
        · subst he
          have huser := hfree.resolve_left (fun hn => hn hid') a ha
          simp [huser]
        · simp [hkey, he]
  | lock now fired hfree => exact .same_alerts rfl rfl fun _ h _ => List.mem_append_right _ h
  | commit eventIds now fired ids triggeredAt =>
      refine ⟨fun _ h => h, fun id _ a' ha' => ?_, fun id _ a' ha' hnone => ?_,
        fun id _ hid a ha => ?_, fun id h hid => mem_release.mpr ⟨h, hid⟩⟩
      · change (markTriggered ids triggeredAt d.alerts).find id = some a' at ha'
        rw [find_markTriggered, Option.map_eq_some_iff] at ha'
        obtain ⟨a, ha, rfl⟩ := ha'
        refine ⟨a, ha, ?_⟩
        split <;> rfl
      · change (markTriggered ids triggeredAt d.alerts).find id = some a' at ha'
        rw [find_markTriggered, Option.map_eq_some_iff] at ha'
        obtain ⟨a, ha, rfl⟩ := ha'
        split at hnone
        · cases hnone
        · rw [if_neg (by assumption)]
          exact ha
      · change (markTriggered ids triggeredAt d.alerts).find id = some a
        have hout : id ∉ ids := hid
        rw [find_markTriggered, ha, Option.map_some, if_neg hout]
  | fail => exact .same_alerts rfl rfl fun id h hid => mem_release.mpr ⟨h, hid⟩

theorem Read.mono {fired : List Firing} (h : Read d fired) (hc : Change ids d d') : Read d' fired where
  nodup := h.nodup
  used := fun f hf => hc.used _ (h.used f hf)
  pending := h.pending
  triggered := h.triggered
  same := fun f hf a' ha' => by
    obtain ⟨a, ha, he⟩ := hc.same _ (h.used f hf) a' ha'
    exact he.trans (h.same f hf a ha)

/-- A client whose locks are its own is not disturbed. -/
theorem PcOk.mono (h : PcOk d q) (hc : Change ids d d') (hapart : ∀ id ∈ held q, id ∉ ids) :
    PcOk d' q := by
  cases q with
  | marking fired => exact Read.mono h hc
  | committing fired own now =>
      refine ⟨h.1.mono hc, h.2.held, fun f hf => ?_, fun id hid => ?_⟩
      · have hin := h.2.held f hf
        exact hc.rows _ (h.2.locked _ hin) (hapart _ hin) _ (h.2.rows f hf)
      · exact hc.locked id (h.2.locked id hid) (hapart id hid)
  | idle => trivial
  | counting watching => trivial
  | listing pending => trivial
  | checking assets => trivial

end Change

/-! ## The invariant of a run -/

structure Kept (s : Service) : Prop where
  used : ∀ a ∈ s.data.alerts.rows, a.id ∈ s.data.used
  tags : ∀ e ∈ s.data.events, e.payload.tag ∈ s.data.used ∧
    ∀ a, s.data.alerts.find e.payload.tag = some a → a.triggeredAt ≠ none
  once : (s.data.events.map fun e => e.payload.tag).Nodup
  client : ∀ c, PcOk s.data (s.client c)
  held : ∀ c, ∀ id ∈ held (s.client c), id ∈ s.data.locked
  apart : ∀ c c', c ≠ c' → ∀ id ∈ PriceAlerts.held (s.client c), id ∉ PriceAlerts.held (s.client c')

section Kept
variable {s t : Service} {i : Input} {p p' : Pc} {d d' : Shared} {c : ℕ}

theorem fire_alert {assets : List Asset} {a : PriceAlert} {f : Firing} (h : fire assets a = some f) :
    f.alert = a ∧ isTriggered f.alert.direction f.alert.targetPrice f.price = true := by
  obtain ⟨price, -, he⟩ := Option.bind_eq_some_iff.mp h
  split at he
  · next htriggered =>
      cases he
      exact ⟨rfl, htriggered⟩
  · cases he

theorem firedIds_sublist (assets : List Asset) (alerts : List PriceAlert) :
    (firedIds (alerts.filterMap (fire assets))).Sublist (alerts.map PriceAlert.id) := by
  induction alerts with
  | nil => exact .slnil
  | cons a alerts ih =>
      cases hfire : fire assets a with
      | none =>
          rw [List.filterMap_cons_none hfire, List.map_cons]
          exact ih.cons _
      | some f =>
          rw [List.filterMap_cons_some hfire, List.map_cons, firedIds, List.map_cons,
            (fire_alert hfire).1]
          exact ih.cons_cons _

/-- The alerts a check fires are pending rows of the table. -/
theorem read_findPending (hused : ∀ a ∈ d.alerts.rows, a.id ∈ d.used) (assets : List Asset) :
    Read d ((findPending d).filterMap (fire assets)) := by
  have hfired : ∀ f ∈ (findPending d).filterMap (fire assets), f.alert ∈ findPending d ∧
      isTriggered f.alert.direction f.alert.targetPrice f.price = true := by
    intro f hf
    obtain ⟨a, ha, hfire⟩ := List.mem_filterMap.mp hf
    have hf := fire_alert hfire
    exact ⟨hf.1 ▸ ha, hf.2⟩
  have hrow : ∀ f ∈ (findPending d).filterMap (fire assets), f.alert ∈ d.alerts.rows ∧
      f.alert.triggeredAt = none := fun f hf => by
    simpa [findPending] using (hfired f hf).1
  refine ⟨?_, fun f hf => hused _ (hrow f hf).1, fun f hf => (hrow f hf).2,
    fun f hf => (hfired f hf).2, fun f hf a ha => ?_⟩
  · have hsublist := (firedIds_sublist assets (findPending d)).trans
      (List.filter_sublist.map PriceAlert.id)
    exact d.alerts.nodup.sublist hsublist
  · have hsame : a = f.alert := by
      rw [Table.find_of_mem (hrow f hf).1] at ha
      exact (Option.some.inj ha).symm
    rw [hsame, PriceAlert.asAdded, ← (hrow f hf).2]

/-- What the moving client knows after its step. -/
theorem pcOk_of_does (hp : PcOk d p) (hused : ∀ a ∈ d.alerts.rows, a.id ∈ d.used)
    (hunfired : unfired i p d = true) (h : Does format d i p p' d') : PcOk d' p' := by
  cases h with
  | stay _ hp' =>
      cases p' with
      | marking fired => exact absurd rfl (hp' fired [] 0).1
      | committing fired ids now => exact absurd rfl (hp' fired ids now).2
      | idle => trivial
      | counting watching => trivial
      | listing pending => trivial
      | checking assets => trivial
  | read now list => exact read_findPending hused list
  | add alert hused hinsert => trivial
  | remove userId id hfree => trivial
  | lock now fired hfree =>
      have hread : Read d fired := hp
      have hfound : ∀ f ∈ fired, d.alerts.find f.alert.id = some f.alert := by
        intro f hf
        obtain ⟨a, ha, hpending⟩ := (Option.any_eq_true _ _).mp (List.all_eq_true.mp hunfired f hf)
        have hnone : a.triggeredAt = none := of_decide_eq_true hpending
        have hsame := hread.same f hf a ha
        rw [PriceAlert.asAdded, ← hnone] at hsame
        rw [ha, ← hsame]
      refine ⟨⟨hread.nodup, hread.used, hread.pending, hread.triggered, hread.same⟩,
        fun f hf => ?_, hfound, fun id hid => List.mem_append_left _ hid⟩
      refine List.mem_filter.mpr ⟨List.mem_map_of_mem hf, ?_⟩
      simp [hfound f hf]
  | commit eventIds now fired ids triggeredAt => trivial
  | fail => trivial

theorem used_of_does (hused : ∀ a ∈ d.alerts.rows, a.id ∈ d.used) (h : Does format d i p p' d') :
    ∀ a ∈ d'.alerts.rows, a.id ∈ d'.used := by
  cases h with
  | stay _ _ => exact hused
  | read now list => exact hused
  | add alert _ hinsert =>
      intro a ha
      rcases (Table.mem_insert hinsert).mp ha with hold | rfl
      · exact List.mem_cons_of_mem _ (hused a hold)
      · exact List.mem_cons_self
  | remove userId id _ => exact fun a ha => hused a (Table.mem_deleteWhere.mp ha).1
  | lock now fired _ => exact hused
  | commit eventIds now fired ids triggeredAt =>
      intro a ha
      obtain ⟨old, hold, he, -⟩ := mem_markTriggered ha
      exact he ▸ hused old hold
  | fail => exact hused

theorem find_commit {eventIds : Uuid → Uuid} {now triggeredAt : Time} {fired : List Firing}
    {ids : List Uuid} (hlocked : Locked d fired ids) {f : Firing} (hf : f ∈ fired) :
    (commit format eventIds now fired ids triggeredAt d).alerts.find f.alert.id =
      some { f.alert with triggeredAt := some triggeredAt } := by
  change (markTriggered ids triggeredAt d.alerts).find f.alert.id = _
  rw [find_markTriggered, hlocked.rows f hf, Option.map_some, if_pos (hlocked.held f hf)]

/-- The notifications that a step enqueues fire different alerts. -/
theorem events_of_does (hp : PcOk d p) (h : Does format d i p p' d') :
    ∃ new, d'.events = d.events ++ new ∧ (new.map fun e => e.payload.tag).Nodup ∧
      ∀ e ∈ new, e.payload.tag ∈ d.used ∧ Fires format d d' e := by
  have hnone : d'.events = d.events → ∃ new, d'.events = d.events ++ new ∧
      (new.map fun e => e.payload.tag).Nodup ∧
        ∀ e ∈ new, e.payload.tag ∈ d.used ∧ Fires format d d' e := fun hsame =>
    ⟨[], by rw [hsame, List.append_nil], List.nodup_nil, fun _ he => absurd he List.not_mem_nil⟩
  cases h with
  | stay _ _ => exact hnone rfl
  | read now list => exact hnone rfl
  | add alert _ _ => exact hnone rfl
  | remove userId id _ => exact hnone rfl
  | lock now fired _ => exact hnone rfl
  | commit eventIds now fired ids triggeredAt =>
      obtain ⟨hread, hlocked⟩ : Read d fired ∧ Locked d fired ids := hp
      have htags : (fired.map fun f => pushEvent format (eventIds f.alert.id) now f).map
          (fun e => e.payload.tag) = firedIds fired := by
        rw [List.map_map]
        rfl
      refine ⟨_, rfl, htags ▸ hread.nodup, fun e he => ?_⟩
      obtain ⟨f, hf, rfl⟩ := List.mem_map.mp he
      exact ⟨hread.used f hf, f.alert, Table.mem_of_find (hlocked.rows f hf), f.price, triggeredAt,
        hread.pending f hf, hread.triggered f hf, rfl, rfl, find_commit hlocked hf⟩
  | fail => exact hnone rfl

/-- A client holds locks only after it has taken free ones. -/
theorem held_of_does (h : Does format d i p p' d') :
    ∀ id ∈ held p', id ∈ d'.locked ∧ id ∉ d.locked := by
  have hnone : ∀ q : Pc, (∀ fired ids now, q ≠ .committing fired ids now) → ∀ id, id ∉ held q := by
    intro q hq id hid
    cases q with
    | committing fired ids now => exact hq fired ids now rfl
    | marking fired => cases hid
    | idle => cases hid
    | counting watching => cases hid
    | listing pending => cases hid
    | checking assets => cases hid
  intro id hid
  cases h with
  | stay _ hp' => exact absurd hid (hnone _ (fun fired ids now => (hp' fired ids now).2) id)
  | lock now fired hfree => exact ⟨List.mem_append_left _ hid, hfree id hid⟩
  | read now list => cases hid
  | add alert _ _ => cases hid
  | remove userId id _ => cases hid
  | commit eventIds now fired ids triggeredAt => cases hid
  | fail => cases hid

theorem Kept.next (h : Kept s) {l : ℕ × Input} (hn : Interleaving.next (step format) l s = some t)
    (hunfired : unfired l.2 (s.client l.1) s.data = true) : Kept t := by
  obtain ⟨p', d', hstep, rfl⟩ := next_cases hn
  have hdoes := step_does hstep
  have hchange := Change.of_does hdoes
  have hmoved := pcOk_of_does (h.client l.1) h.used hunfired hdoes
  have hother : ∀ c ≠ l.1, ∀ id ∈ PriceAlerts.held (s.client c), id ∉ PriceAlerts.held (s.client l.1) :=
    fun c hc => h.apart c l.1 hc
  have hheld := held_of_does hdoes
  obtain ⟨new, hevents, hnodup, hnew⟩ := events_of_does (h.client l.1) hdoes
  refine ⟨used_of_does h.used hdoes, ?_, ?_, fun c => ?_, fun c id hid => ?_,
    fun c c' hne id hid => ?_⟩
  · intro e he
    rw [hevents] at he
    rcases List.mem_append.mp he with hold | hin
    · exact ⟨hchange.used _ (h.tags e hold).1, fun a ha hpending =>
        (h.tags e hold).2 a (hchange.pending _ (h.tags e hold).1 a ha hpending) hpending⟩
    · obtain ⟨hused, alert, -, price, triggeredAt, -, -, -, hpayload, hfind⟩ := hnew e hin
      have htag : e.payload.tag = alert.id := congrArg NotificationPayload.tag hpayload
      refine ⟨hchange.used _ hused, fun a ha hpending => ?_⟩
      rw [htag] at ha
      rw [Option.some.inj (ha.symm.trans hfind)] at hpending
      cases hpending
  · change (d'.events.map _).Nodup
    rw [hevents, List.map_append]
    refine List.nodup_append'.mpr ⟨h.once, hnodup, fun id hold hin => ?_⟩
    obtain ⟨e, he, rfl⟩ := List.mem_map.mp hold
    obtain ⟨e', he', hsame⟩ := List.mem_map.mp hin
    obtain ⟨-, alert, hrow, price, triggeredAt, hpending, -, -, hpayload, -⟩ := hnew e' he'
    have htag : e'.payload.tag = alert.id := congrArg NotificationPayload.tag hpayload
    have hfind : s.data.alerts.find e.payload.tag = some alert := by
      rw [← hsame, htag]
      exact Table.find_of_mem hrow
    exact (h.tags e he).2 alert hfind hpending
  · by_cases hc : c = l.1
    · subst hc
      simp only [Function.update_self]
      exact hmoved
    · simp only [Function.update_of_ne hc]
      exact (h.client c).mono hchange (hother c hc)
  · by_cases hc : c = l.1
    · subst hc
      simp only [Function.update_self] at hid
      exact (hheld id hid).1
    · simp only [Function.update_of_ne hc] at hid
      exact hchange.locked id (h.held c id hid) (hother c hc id hid)
  · by_cases hc : c = l.1
    · subst hc
      simp only [Function.update_self] at hid
      simp only [Function.update_of_ne hne.symm]
      exact fun hid' => (hheld id hid).2 (h.held c' id hid')
    · simp only [Function.update_of_ne hc] at hid
      by_cases hc' : c' = l.1
      · subst hc'
        simp only [Function.update_self]
        exact fun hid' => (hheld id hid').2 (h.held c id hid)
      · simp only [Function.update_of_ne hc']
        exact h.apart c c' hne id hid

end Kept

theorem kept_start : Kept start where
  used := fun _ ha => absurd ha List.not_mem_nil
  tags := fun _ he => absurd he List.not_mem_nil
  once := List.nodup_nil
  client := fun _ => trivial
  held := fun _ _ hid => absurd hid List.not_mem_nil
  apart := fun _ _ _ _ hid => absurd hid List.not_mem_nil

/-- While ticks mark only alerts that are still pending, alerts are one-shot. -/
theorem alerts_one_shot {tr : List (Event (ℕ × Input) Service)} {s : Service}
    (h : Run (Interleaving.next (step format)) start tr s)
    (hunfired : ∀ e ∈ tr, unfired e.label.2 (e.pre.client e.label.1) e.pre.data = true) :
    OneShot format tr s := by
  obtain ⟨hkept, hevents⟩ := h.invariant_events
    (fun e => unfired e.label.2 (e.pre.client e.label.1) e.pre.data = true) Kept kept_start
    (fun _ _ _ hs hn hu => hs.next hn hu) hunfired
  refine ⟨fun id => ?_, fun t ht e he => ?_⟩
  · have hcount := List.nodup_iff_count_le_one.mp hkept.once id
    rwa [List.count_eq_countP, List.countP_map, List.countP_eq_length_filter] at hcount
  · obtain ⟨p', d', hstep, hpost⟩ := next_cases (h.event_next t ht)
    have hdoes := step_does hstep
    obtain ⟨new, hnew, -, hfires⟩ := events_of_does ((hevents t ht).1.client t.label.1) hdoes
    rw [hpost] at he ⊢
    change e ∈ d'.events at he
    rw [hnew] at he
    exact (List.mem_append.mp he).imp_right fun hin => (hfires e hin).2

/-! ## Where notifications come from -/

/-- The users' alerts as they were added, in every version of their rows. -/
def Added (tr : List (Event (ℕ × Input) Service)) (alert : PriceAlert) : Prop :=
  ∃ e ∈ tr, ∃ a, e.label.2 = .add a ∧ a.asAdded = alert.asAdded

/-- The notification says that an alert of its user has met this price. -/
def Told (format : Number → String) (tr : List (Event (ℕ × Input) Service)) (userId : Uuid)
    (p : NotificationPayload) : Prop :=
  ∃ f : Firing, Added tr f.alert ∧ f.alert.userId = userId ∧ p = payload format f ∧
    isTriggered f.alert.direction f.alert.targetPrice f.price = true

/-- What a client is about to fire. -/
def firing : Pc → List Firing
  | .marking fired | .committing fired _ _ => fired
  | _ => []

/-- Whatever overlaps, alerts that fire were added by their users. -/
structure Sourced (format : Number → String) (tr : List (Event (ℕ × Input) Service)) (s : Service) :
    Prop where
  rows : ∀ a ∈ s.data.alerts.rows, Added tr a
  firing : ∀ c, ∀ f ∈ firing (s.client c), Added tr f.alert ∧
    isTriggered f.alert.direction f.alert.targetPrice f.price = true
  events : ∀ e ∈ s.data.events, Told format tr e.userId e.payload

section Sourced
variable {tr : List (Event (ℕ × Input) Service)} {s t : Service} {d d' : Shared} {i : Input}
  {p p' : Pc}

theorem Added.mono {tr' : List (Event (ℕ × Input) Service)} {alert : PriceAlert}
    (h : Added tr alert) (hsub : tr ⊆ tr') : Added tr' alert := by
  obtain ⟨e, he, hadds⟩ := h
  exact ⟨e, hsub he, hadds⟩

theorem Told.mono {tr' : List (Event (ℕ × Input) Service)} {userId : Uuid} {p : NotificationPayload}
    (h : Told format tr userId p) (hsub : tr ⊆ tr') : Told format tr' userId p := by
  obtain ⟨f, hadded, hfits⟩ := h
  exact ⟨f, hadded.mono hsub, hfits⟩

/-- Rows are added, marked and removed. -/
theorem rows_of_does (h : Does format d i p p' d') {a : PriceAlert} (ha : a ∈ d'.alerts.rows) :
    (∃ old ∈ d.alerts.rows, a.asAdded = old.asAdded) ∨ ∃ b, i = .add b ∧ a.asAdded = b.asAdded := by
  cases h with
  | add alert _ hinsert =>
      rcases (Table.mem_insert hinsert).mp ha with hold | rfl
      · exact .inl ⟨a, hold, rfl⟩
      · exact .inr ⟨alert, rfl, rfl⟩
  | remove => exact .inl ⟨a, (Table.mem_deleteWhere.mp ha).1, rfl⟩
  | commit eventIds now fired ids triggeredAt =>
      obtain ⟨old, hold, -, hsame⟩ := mem_markTriggered ha
      exact .inl ⟨old, hold, hsame⟩
  | _ => exact .inl ⟨a, ha, rfl⟩

/-- A client fires what it was about to fire, or pending rows that it has just read. -/
theorem firing_of_does (h : Does format d i p p' d') {f : Firing} (hf : f ∈ firing p') :
    f ∈ firing p ∨ f.alert ∈ d.alerts.rows ∧
      isTriggered f.alert.direction f.alert.targetPrice f.price = true := by
  cases h with
  | stay _ hp' =>
      cases p' with
      | marking fired => exact absurd rfl (hp' fired [] 0).1
      | committing fired ids now => exact absurd rfl (hp' fired ids now).2
      | _ => cases hf
  | read now list =>
      obtain ⟨a, ha, hfire⟩ := List.mem_filterMap.mp hf
      obtain ⟨rfl, htriggered⟩ := fire_alert hfire
      exact .inr ⟨(List.mem_filter.mp ha).1, htriggered⟩
  | lock => exact .inl hf
  | _ => cases hf

theorem enqueued_of_does (h : Does format d i p p' d') :
    ∃ new, d'.events = d.events ++ new ∧ ∀ e ∈ new, ∃ f ∈ firing p,
      f.alert.userId = e.userId ∧ e.payload = payload format f := by
  cases h with
  | commit eventIds now fired ids triggeredAt =>
      refine ⟨_, rfl, fun e he => ?_⟩
      obtain ⟨f, hf, rfl⟩ := List.mem_map.mp he
      exact ⟨f, hf, rfl, rfl⟩
  | _ => exact ⟨[], (List.append_nil _).symm, fun _ he => absurd he List.not_mem_nil⟩

/-- Nothing that was enqueued is taken back. -/
theorem events_next {l : ℕ × Input} {e : NotificationPushEvent}
    (hn : Interleaving.next (step format) l s = some t) (he : e ∈ s.data.events) :
    e ∈ t.data.events := by
  obtain ⟨p', d', hstep, rfl⟩ := next_cases hn
  obtain ⟨new, hevents, -⟩ := enqueued_of_does (step_does hstep)
  simp only
  rw [hevents]
  exact List.mem_append_left _ he

theorem Sourced.next (h : Sourced format tr s) {l : ℕ × Input}
    (hn : Interleaving.next (step format) l s = some t) : Sourced format (tr ++ [⟨s, l, t⟩]) t := by
  obtain ⟨p', d', hstep, rfl⟩ := next_cases hn
  have hdoes := step_does hstep
  have hsub : tr ⊆ tr ++ [⟨s, l, ⟨d', Function.update s.client l.1 p'⟩⟩] :=
    List.subset_append_left _ _
  obtain ⟨new, hevents, hnew⟩ := enqueued_of_does hdoes
  refine ⟨fun a ha => ?_, fun c f hf => ?_, fun e he => ?_⟩
  · rcases rows_of_does hdoes ha with ⟨old, hold, hsame⟩ | ⟨b, hi, hsame⟩
    · obtain ⟨e, he, b, hb, hadded⟩ := h.rows old hold
      exact ⟨e, hsub he, b, hb, hadded.trans hsame.symm⟩
    · exact ⟨_, List.mem_append_right _ List.mem_cons_self, b, hi, hsame.symm⟩
  · simp only at hf
    by_cases hc : c = l.1
    · subst hc
      rw [Function.update_self] at hf
      rcases firing_of_does hdoes hf with hold | ⟨hrow, htriggered⟩
      · exact (h.firing l.1 f hold).imp_left fun hadded => hadded.mono hsub
      · exact ⟨(h.rows _ hrow).mono hsub, htriggered⟩
    · rw [Function.update_of_ne hc] at hf
      exact (h.firing c f hf).imp_left fun hadded => hadded.mono hsub
  · simp only at he
    rw [hevents] at he
    rcases List.mem_append.mp he with hold | hin
    · exact (h.events e hold).mono hsub
    · obtain ⟨f, hf, huser, hpayload⟩ := hnew e hin
      obtain ⟨hadded, htriggered⟩ := h.firing l.1 f hf
      exact ⟨f, hadded.mono hsub, huser, hpayload, htriggered⟩

theorem run_sourced (h : Run (Interleaving.next (step format)) start tr s) :
    Sourced format tr s :=
  h.history (fun _ => True) (Sourced format)
    ⟨fun _ ha => absurd ha List.not_mem_nil, fun _ _ hf => absurd hf List.not_mem_nil,
      fun _ he => absurd he List.not_mem_nil⟩
    (fun _ _ _ _ hs hn _ => hs.next hn) fun _ _ => trivial

end Sourced

/-! ## Two ticks over one alert -/

def btcAbove : PriceAlert := ⟨5, 1, "BTC", "crypto", .finite 80000, "above", none⟩

/-- Client `c` runs a tick until it is about to mark what it fires. -/
def tickToMark (c : ℕ) : List (ℕ × Input) :=
  [(c, .tick false), (c, .go 0), (c, .assets [⟨"BTC", .finite 80120⟩]), (c, .go 0)]

def markAndCommit (c : ℕ) : List (ℕ × Input) := [(c, .go 10), (c, .commit (fun id => 100 * c + id) 20)]

theorem alerts_one_shot_two_ticks :
    ∃ tr s, Run (Interleaving.next (step fun _ => "")) start tr s ∧
      (eventsOf s.data 5).length = 1 ∧ OneShot (fun _ => "") tr s := by
  obtain ⟨tr, s, hrun, -, hs⟩ := Run.of_trace_map (Interleaving.next (step fun _ => ""))
    ([(0, .add btcAbove)] ++ tickToMark 1 ++ markAndCommit 1 ++ [(2, .tick true), (2, .go 0)]) start
    (fun tr s => (tr.all fun e => unfired e.label.2 (e.pre.client e.label.1) e.pre.data,
      (eventsOf s.data 5).length)) (true, 1) (by decide)
  have hunfired : ∀ e ∈ tr, unfired e.label.2 (e.pre.client e.label.1) e.pre.data = true :=
    List.all_eq_true.mp (congrArg Prod.fst hs)
  exact ⟨tr, s, hrun, congrArg Prod.snd hs, alerts_one_shot hrun hunfired⟩

/-- Both ticks have read the alert; the first fires it, its user deletes it, and the
second fires it again. -/
theorem overlapping_ticks_fire_twice :
    ∃ tr s, Run (Interleaving.next (step fun _ => "")) start tr s ∧
      s.data.alerts.rows = [] ∧ (eventsOf s.data 5).length = 2 ∧ ¬ OneShot (fun _ => "") tr s := by
  obtain ⟨tr, s, hrun, -, hs⟩ := Run.of_trace_map (Interleaving.next (step fun _ => ""))
    ([(0, .add btcAbove)] ++ tickToMark 1 ++ tickToMark 2 ++ markAndCommit 1 ++ [(0, .remove 1 5)] ++
      markAndCommit 2) start
    (fun _ s => (s.data.alerts.rows, (eventsOf s.data 5).length)) ([], 2) (by decide)
  have htwo : (eventsOf s.data 5).length = 2 := congrArg Prod.snd hs
  refine ⟨tr, s, hrun, congrArg Prod.fst hs, htwo, fun h => ?_⟩
  have hone := h.once 5
  rw [htwo] at hone
  exact absurd hone (Nat.not_succ_le_self 1)

end MaxOne.PriceAlerts
