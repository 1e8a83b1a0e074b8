import MaxOne.Library.Interleaving
import MaxOne.WalletsService

/-!
# The outbox and its relays

`OutboxService` on any number of API instances over one table. An instance has a
channel or none, the bytes its channel still buffers, the updates its
`publishNow` calls have yet to make and the state of its relay. A write to the
channel is buffered whatever it returns; only its result decides what the row is
told. The broker has a message once it has left the buffer, and a connection that
closes takes the buffer with it.

Rows a relay has selected stay locked until it commits or fails. The hourly purge
of old published rows is in `OutboxBookkeeping`.
-/
namespace MaxOne.Outbox
open Library Library.Runs Library.Interleaving MaxOne.Schema

def relayBatch : ℕ := 50

def brokerDown : String := "publish returned false (broker unavailable)"

/-- What `publish` writes; the message id is the id of the row. -/
structure Message where
  messageId : Uuid
  routingKey : String
  payload : NotificationPushEvent
  deriving DecidableEq, Repr

/-- How `channel.publish` ends: there is room in the buffer, there is none left, or it
throws and writes nothing. -/
inductive Write where
  | room | full | thrown
  deriving DecidableEq, Repr

/-- `OutboxService.relaying`, and how far the transaction is. -/
inductive Relay where
  | idle
  | selecting
  | marking (done failed : List Message)

structure Instance where
  connected : Bool
  buffer : List Message
  marks : List (Message × Bool)
  relay : Relay

structure Shared where
  rows : Table OutboxEvent OutboxEvent.id
  locked : List Uuid
  accepted : List Message

def message (row : OutboxEvent) : Message := ⟨row.id, row.routingKey, row.payload⟩

/-- The row as it is enqueued. -/
def pendingRow (routingKey : String) (event : NotificationPushEvent) : OutboxEvent where
  id := event.id
  routingKey := routingKey
  payload := event
  status := .pending
  attempts := 0
  lastError := none
  publishedAt := none

/-! ## Publishing and marking -/

/-- `QueueService.publish`. -/
def publish (p : Instance) (m : Message) (w : Write) : Instance × Bool :=
  if p.connected then
    match w with
    | .room => ({ p with buffer := p.buffer ++ [m] }, true)
    | .full => ({ p with buffer := p.buffer ++ [m] }, false)
    | .thrown => (p, false)
  else (p, false)

/-- The loop of the relay: what was published and what was not. -/
def publishAll (writes : Message → Write) :
    Instance → List Message → Instance × List Message × List Message
  | p, [] => (p, [], [])
  | p, m :: ms =>
      let r := publish p m (writes m)
      let rest := publishAll writes r.1 ms
      if r.2 then (rest.1, m :: rest.2.1, rest.2.2) else (rest.1, rest.2.1, m :: rest.2.2)

def markPublished (now : Time) (row : OutboxEvent) : OutboxEvent :=
  { row with status := .published, publishedAt := some now }

def markFailed (row : OutboxEvent) : OutboxEvent :=
  { row with attempts := row.attempts + 1, lastError := some brokerDown }

/-- The update after `publishNow` returned `ok` from the queue. -/
def markRow (ok : Bool) (now : Time) : OutboxEvent → OutboxEvent :=
  if ok then markPublished now else markFailed

theorem markRow_id (ok : Bool) (now : Time) (row : OutboxEvent) :
    (markRow ok now row).id = row.id := by
  cases ok <;> rfl

def markOne (m : Message) (ok : Bool) (now : Time) (rows : Table OutboxEvent OutboxEvent.id) :
    Table OutboxEvent OutboxEvent.id :=
  rows.modify m.messageId (markRow ok now) (markRow_id ok now)

def ids (ms : List Message) : List Uuid := ms.map Message.messageId

/-- The two updates of the relay. -/
def markAll (now : Time) (done failed : List Message) (rows : Table OutboxEvent OutboxEvent.id) :
    Table OutboxEvent OutboxEvent.id :=
  (rows.modifyWhere (fun r => r.id ∈ ids done) (markPublished now) fun _ => rfl).modifyWhere
    (fun r => r.id ∈ ids failed) markFailed fun _ => rfl

/-- `FOR UPDATE SKIP LOCKED` on the oldest pending rows. -/
def batch (d : Shared) : List Message :=
  ((d.rows.rows.filter fun r => r.status = .pending && r.id ∉ d.locked).take relayBatch).map message

def release (d : Shared) (ms : List Message) : Shared :=
  { d with locked := d.locked.filter fun id => id ∉ ids ms }

/-! ## Steps of an instance -/

inductive Input where
  | enqueue (routingKey : String) (event : NotificationPushEvent)
  | publishNow (id : Uuid) (w : Write)
  | mark (k : ℕ) (now : Time) (fails : Bool)
  | relayPending
  | select (writes : Message → Write)
  | commit (now : Time)
  | rollback
  | flush
  | connect
  | close
  | crash

/-- The update after `publishNow`; it waits for a lock, and an error is only logged. -/
def mark (k : ℕ) (now : Time) (fails : Bool) (p : Instance) (d : Shared) :
    Option (Instance × Shared) := do
  let (m, ok) ← p.marks[k]?
  let p' := { p with marks := p.marks.eraseIdx k }
  if fails then some (p', d)
  else if m.messageId ∈ d.locked then none
  else some (p', { d with rows := markOne m ok now d.rows })

def select (writes : Message → Write) (p : Instance) (d : Shared) : Instance × Shared :=
  let ms := batch d
  let r := publishAll writes p ms
  ({ r.1 with relay := .marking r.2.1 r.2.2 }, { d with locked := d.locked ++ ids ms })

/-- A crash ends the calls of the instance, and the database rolls its transaction back. -/
def crash (p : Instance) (d : Shared) : Instance × Shared :=
  (⟨false, [], [], .idle⟩, match p.relay with
    | .marking done failed => release d (done ++ failed)
    | _ => d)

def step (i : Input) (p : Instance) (d : Shared) : Option (Instance × Shared) :=
  match i with
  | .enqueue routingKey event =>
      (d.rows.insert (pendingRow routingKey event)).map fun rows => (p, { d with rows := rows })
  | .publishNow id w => (d.rows.find id).map fun row =>
      let r := publish p (message row) w
      ({ r.1 with marks := r.1.marks ++ [(message row, r.2)] }, d)
  | .mark k now fails => mark k now fails p d
  | .relayPending =>
      match p.relay with
      | .idle => if p.connected then some ({ p with relay := .selecting }, d) else none
      | _ => none
  | .select writes =>
      match p.relay with
      | .selecting => some (select writes p d)
      | _ => none
  | .commit now =>
      match p.relay with
      | .marking done failed => some ({ p with relay := .idle },
          release { d with rows := markAll now done failed d.rows } (done ++ failed))
      | _ => none
  | .rollback =>
      match p.relay with
      | .marking done failed => some ({ p with relay := .idle }, release d (done ++ failed))
      | .selecting => some ({ p with relay := .idle }, d)
      | .idle => none
  | .flush =>
      match p.buffer with
      | m :: rest => some ({ p with buffer := rest }, { d with accepted := m :: d.accepted })
      | [] => none
  | .connect => if p.connected then none else some ({ p with connected := true }, d)
  | .close => some ({ p with connected := false, buffer := [] }, d)
  | .crash => some (crash p d)

abbrev Service := Pool Shared Instance

def start : Service := ⟨⟨.empty, [], []⟩, fun _ => ⟨false, [], [], .idle⟩⟩

/-- Every published row reached the broker. -/
def NothingLost (d : Shared) : Prop :=
  ∀ row ∈ d.rows.rows, row.status = .published → message row ∈ d.accepted

/-! ## When nothing is lost -/

/-- The messages whose rows the running calls are about to mark published. -/
def toMark (p : Instance) : List Message :=
  (p.marks.filter Prod.snd).map Prod.fst ++
    match p.relay with
    | .marking done _ => done
    | _ => []

/-- The message is no longer in the buffer, or the broker had it before. -/
def flushed (p : Instance) (d : Shared) (m : Message) : Bool := m ∉ p.buffer || m ∈ d.accepted

/-- A row is marked published only after its message has left the buffer, and no
connection closes on a buffered message whose row is about to be marked. -/
def inTime (i : Input) (p : Instance) (d : Shared) : Bool :=
  match i with
  | .mark k _ fails => (p.marks[k]?).all fun r => !r.2 || fails || flushed p d r.1
  | .commit _ =>
      match p.relay with
      | .marking done _ => done.all (flushed p d)
      | _ => true
  | .close => (toMark p).all (flushed p d)
  | _ => true

/-- What an instance is about to mark has been written, and is the message of a row. -/
structure Carried (p : Instance) (d : Shared) : Prop where
  written : ∀ m ∈ toMark p, m ∈ p.buffer ∨ m ∈ d.accepted
  owned : ∀ m ∈ toMark p, ∃ row ∈ d.rows.rows, message row = m

/-- Messages stay with the broker, and rows keep what they say. -/
structure Grows (d d' : Shared) : Prop where
  accepted : ∀ m ∈ d.accepted, m ∈ d'.accepted
  rows : ∀ row ∈ d.rows.rows, ∃ row' ∈ d'.rows.rows, message row' = message row

section Publishing
variable {p : Instance} {m : Message}

theorem publish_frame (w : Write) : (publish p m w).1.marks = p.marks ∧
    (publish p m w).1.relay = p.relay ∧ ∀ m' ∈ p.buffer, m' ∈ (publish p m w).1.buffer := by
  unfold publish
  split
  · cases w with
    | room => exact ⟨rfl, rfl, fun _ h => List.mem_append_left _ h⟩
    | full => exact ⟨rfl, rfl, fun _ h => List.mem_append_left _ h⟩
    | thrown => exact ⟨rfl, rfl, fun _ h => h⟩
  · exact ⟨rfl, rfl, fun _ h => h⟩

/-- A publish that succeeds has been buffered. -/
theorem publish_buffered {w : Write} (h : (publish p m w).2 = true) :
    m ∈ (publish p m w).1.buffer := by
  unfold publish at h ⊢
  split at h
  · next hconnected =>
      cases w with
      | room => simp [hconnected]
      | full => cases h
      | thrown => cases h
  · cases h

theorem publishAll_spec (writes : Message → Write) (ms : List Message) :
    (publishAll writes p ms).1.marks = p.marks ∧
      (∀ m ∈ p.buffer, m ∈ (publishAll writes p ms).1.buffer) ∧
      ∀ m ∈ (publishAll writes p ms).2.1, m ∈ ms ∧ m ∈ (publishAll writes p ms).1.buffer := by
  induction ms generalizing p with
  | nil => exact ⟨rfl, fun _ h => h, fun _ h => absurd h List.not_mem_nil⟩
  | cons m ms ih =>
      obtain ⟨hmarks, -, hkeep⟩ := publish_frame (p := p) (m := m) (writes m)
      obtain ⟨hmarks', hkeep', hdone⟩ := ih (p := (publish p m (writes m)).1)
      have hrest : ∀ m' ∈ (publishAll writes (publish p m (writes m)).1 ms).2.1,
          m' ∈ m :: ms ∧ m' ∈ (publishAll writes (publish p m (writes m)).1 ms).1.buffer :=
        fun m' h => ⟨List.mem_cons_of_mem _ (hdone m' h).1, (hdone m' h).2⟩
      unfold publishAll
      dsimp only
      split
      · next hok =>
          refine ⟨hmarks'.trans hmarks, fun m' h => hkeep' m' (hkeep m' h), fun m' h => ?_⟩
          rcases List.mem_cons.mp h with rfl | hin
          · exact ⟨List.mem_cons_self, hkeep' m' (publish_buffered hok)⟩
          · exact hrest m' hin
      · exact ⟨hmarks'.trans hmarks, fun m' h => hkeep' m' (hkeep m' h), hrest⟩

end Publishing

section Steps
variable {i : Input} {p p' : Instance} {d d' : Shared}

theorem mem_batch {m : Message} (h : m ∈ batch d) : ∃ row ∈ d.rows.rows, message row = m := by
  obtain ⟨row, hrow, he⟩ := List.mem_map.mp h
  exact ⟨row, (List.mem_filter.mp (List.mem_of_mem_take hrow)).1, he⟩

theorem Grows.same (hr : d'.rows = d.rows) (ha : d'.accepted = d.accepted) : Grows d d' :=
  ⟨fun _ h => ha ▸ h, fun row h => ⟨row, hr ▸ h, rfl⟩⟩

section Marking
variable {rows : Table OutboxEvent OutboxEvent.id} {m : Message} {ok : Bool} {now : Time}
  {done failed : List Message} {row : OutboxEvent}

theorem message_markRow (ok : Bool) (now : Time) (row : OutboxEvent) :
    message (markRow ok now row) = message row := by
  cases ok <;> rfl

/-- Marking a row leaves every message in the table. -/
theorem markOne_keeps (h : row ∈ rows.rows) :
    ∃ row' ∈ (markOne m ok now rows).rows, message row' = message row := by
  unfold markOne
  by_cases hid : row.id = m.messageId
  · have hfind := Table.find_of_mem h
    rw [hid] at hfind
    exact ⟨markRow ok now row, Table.mem_modify.mpr (.inr ⟨row, hfind, rfl⟩),
      message_markRow ok now row⟩
  · exact ⟨row, Table.mem_modify.mpr (.inl ⟨h, hid⟩), rfl⟩

/-- A row is published after the update if it was before or is the one marked. -/
theorem markOne_published (h : row ∈ (markOne m ok now rows).rows) (hp : row.status = .published) :
    ∃ old ∈ rows.rows, message row = message old ∧
      (old.status = .published ∨ (ok = true ∧ old.id = m.messageId)) := by
  unfold markOne at h
  rcases Table.mem_modify.mp h with ⟨hold, -⟩ | ⟨old, hfind, rfl⟩
  · exact ⟨row, hold, rfl, .inl hp⟩
  · refine ⟨old, Table.mem_of_find hfind, message_markRow ok now old, ?_⟩
    cases ok with
    | true => exact .inr ⟨rfl, Table.find_key hfind⟩
    | false => exact .inl hp

theorem markAll_keeps (h : row ∈ rows.rows) :
    ∃ row' ∈ (markAll now done failed rows).rows, message row' = message row := by
  unfold markAll
  refine ⟨_, Table.mem_modifyWhere.mpr ⟨_, Table.mem_modifyWhere.mpr ⟨row, h, rfl⟩, rfl⟩, ?_⟩
  split <;> split <;> rfl

theorem markAll_published (h : row ∈ (markAll now done failed rows).rows)
    (hp : row.status = .published) :
    ∃ old ∈ rows.rows, message row = message old ∧
      (old.status = .published ∨ ∃ m ∈ done, m.messageId = old.id) := by
  unfold markAll at h
  obtain ⟨marked, hmarked, rfl⟩ := Table.mem_modifyWhere.mp h
  obtain ⟨old, hold, rfl⟩ := Table.mem_modifyWhere.mp hmarked
  refine ⟨old, hold, by split <;> split <;> rfl, ?_⟩
  by_cases hdone : old.id ∈ ids done
  · obtain ⟨m, hm, he⟩ := List.mem_map.mp hdone
    exact .inr ⟨m, hm, he⟩
  · refine .inl ?_
    simp only [hdone, decide_false, Bool.false_eq_true, if_false] at hp
    split at hp
    · exact hp
    · exact hp

end Marking

/-- What a step does to the instance and to what all instances share. -/
inductive Does (p : Instance) (d : Shared) : Input → Instance → Shared → Prop where
  | enqueues {routingKey : String} {event : NotificationPushEvent}
      (rows : Table OutboxEvent OutboxEvent.id)
      (hinsert : d.rows.insert (pendingRow routingKey event) = some rows) :
      Does p d (.enqueue routingKey event) p { d with rows := rows }
  | publishes {id : Uuid} {w : Write} (row : OutboxEvent) (hfind : d.rows.find id = some row) :
      Does p d (.publishNow id w)
        { (publish p (message row) w).1 with
          marks := (publish p (message row) w).1.marks ++
            [(message row, (publish p (message row) w).2)] } d
  | skips {k : ℕ} {now : Time} : Does p d (.mark k now true) { p with marks := p.marks.eraseIdx k } d
  | marks {k : ℕ} {now : Time} (m : Message) (ok : Bool) (hmark : p.marks[k]? = some (m, ok)) :
      Does p d (.mark k now false) { p with marks := p.marks.eraseIdx k }
        { d with rows := markOne m ok now d.rows }
  | begins : Does p d .relayPending { p with relay := .selecting } d
  | selects {writes : Message → Write} :
      Does p d (.select writes) (Outbox.select writes p d).1 (Outbox.select writes p d).2
  | commits {now : Time} (done failed : List Message) (hrelay : p.relay = .marking done failed) :
      Does p d (.commit now) { p with relay := .idle }
        (release { d with rows := markAll now done failed d.rows } (done ++ failed))
  | rollsBack (d' : Shared) (hr : d'.rows = d.rows) (ha : d'.accepted = d.accepted) :
      Does p d .rollback { p with relay := .idle } d'
  | flushes (m : Message) (rest : List Message) (hbuffer : p.buffer = m :: rest) :
      Does p d .flush { p with buffer := rest } { d with accepted := m :: d.accepted }
  | connects : Does p d .connect { p with connected := true } d
  | closes : Does p d .close { p with connected := false, buffer := [] } d
  | crashes (d' : Shared) (hr : d'.rows = d.rows) (ha : d'.accepted = d.accepted) :
      Does p d .crash ⟨false, [], [], .idle⟩ d'

theorem step_does (h : Outbox.step i p d = some (p', d')) : Does p d i p' d' := by
  cases i with
  | enqueue routingKey event =>
      obtain ⟨rows, hinsert, he⟩ := Option.map_eq_some_iff.mp h
      cases he
      exact .enqueues rows hinsert
  | publishNow id w =>
      obtain ⟨row, hfind, he⟩ := Option.map_eq_some_iff.mp h
      cases he
      exact .publishes row hfind
  | mark k now fails =>
      obtain ⟨⟨m, ok⟩, hmark, hrest⟩ := Option.bind_eq_some_iff.mp h
      dsimp only at hrest
      cases fails with
      | true =>
          cases hrest
          exact .skips
      | false =>
          simp only [Bool.false_eq_true, if_false] at hrest
          split_ifs at hrest
          cases hrest
          exact .marks m ok hmark
  | relayPending =>
      simp only [Outbox.step] at h
      split at h
      · split_ifs at h
        cases h
        exact .begins
      · cases h
  | select writes =>
      simp only [Outbox.step] at h
      split at h
      · cases h
        exact .selects
      · cases h
  | commit now =>
      simp only [Outbox.step] at h
      split at h
      · next done failed hrelay =>
          cases h
          exact .commits done failed hrelay
      · cases h
  | rollback =>
      simp only [Outbox.step] at h
      split at h
      · cases h
        exact .rollsBack _ rfl rfl
      · cases h
        exact .rollsBack _ rfl rfl
      · cases h
  | flush =>
      simp only [Outbox.step] at h
      split at h
      · next m rest hbuffer =>
          cases h
          exact .flushes m rest hbuffer
      · cases h
  | connect =>
      simp only [Outbox.step] at h
      split_ifs at h
      cases h
      exact .connects
  | close =>
      cases h
      exact .closes
  | crash =>
      cases h
      refine .crashes _ ?_ ?_ <;> split <;> rfl

theorem Grows.of_does (h : Does p d i p' d') : Grows d d' := by
  cases h with
  | enqueues rows hinsert =>
      exact ⟨fun _ h => h, fun row hrow => ⟨row, (Table.mem_insert hinsert).mpr (.inl hrow), rfl⟩⟩
  | marks m ok hmark => exact ⟨fun _ h => h, fun row hrow => markOne_keeps hrow⟩
  | commits done failed hrelay => exact ⟨fun _ h => h, fun row hrow => markAll_keeps hrow⟩
  | flushes m rest hbuffer =>
      exact ⟨fun _ h => List.mem_cons_of_mem _ h, fun row hrow => ⟨row, hrow, rfl⟩⟩
  | rollsBack d' hr ha => exact .same hr ha
  | crashes d' hr ha => exact .same hr ha
  | _ => exact .same rfl rfl

theorem Carried.mono (h : Carried p d) (hg : Grows d d') : Carried p d' where
  written := fun m hm => (h.written m hm).imp_right (hg.accepted m)
  owned := fun m hm => by
    obtain ⟨row, hrow, he⟩ := h.owned m hm
    obtain ⟨row', hrow', he'⟩ := hg.rows row hrow
    exact ⟨row', hrow', he'.trans he⟩

/-- Nothing new is to be marked, and no buffered message of the rest is dropped. -/
theorem Carried.shrink (h : Carried p d) (hmark : ∀ m ∈ toMark p', m ∈ toMark p)
    (hbuffer : ∀ m ∈ toMark p', m ∈ p.buffer → m ∈ p'.buffer ∨ m ∈ d.accepted) : Carried p' d where
  written := fun m hm => (h.written m (hmark m hm)).elim (hbuffer m hm) .inr
  owned := fun m hm => h.owned m (hmark m hm)

/-- A published message that was about to be marked has reached the broker. -/
theorem Carried.accepted (h : Carried p d) {m : Message} (hm : m ∈ toMark p)
    (hflushed : flushed p d m = true) : m ∈ d.accepted := by
  rcases h.written m hm with hbuffer | haccepted
  · rw [flushed, Bool.or_eq_true, decide_eq_true_eq, decide_eq_true_eq] at hflushed
    exact hflushed.resolve_left fun hnot => hnot hbuffer
  · exact haccepted

/-- The row with the id of a message that is about to be marked says that message. -/
theorem Carried.message_eq (h : Carried p d) {m : Message} (hm : m ∈ toMark p) {row : OutboxEvent}
    (hrow : row ∈ d.rows.rows) (hid : row.id = m.messageId) : message row = m := by
  obtain ⟨row', hrow', he⟩ := h.owned m hm
  have hsame : row'.id = row.id := (congrArg Message.messageId he).trans hid.symm
  rw [← Table.eq_of_key hrow' hrow hsame]
  exact he

theorem mem_toMark {m : Message} : m ∈ toMark p ↔
    (m, true) ∈ p.marks ∨ ∃ done failed, p.relay = .marking done failed ∧ m ∈ done := by
  have hmarks : m ∈ (p.marks.filter Prod.snd).map Prod.fst ↔ (m, true) ∈ p.marks := by
    simp [List.mem_map, List.mem_filter]
  rw [toMark, List.mem_append, hmarks]
  refine or_congr_right ?_
  cases hrelay : p.relay <;> simp

/-- Without a batch only the marks of `publishNow` are left to do. -/
theorem Carried.setRelay (h : Carried p d) (relay : Relay)
    (hrelay : ∀ done failed, relay ≠ .marking done failed) :
    Carried { p with relay := relay } d := by
  refine h.shrink (fun m hm => ?_) fun m _ hbuffer => .inl hbuffer
  rcases mem_toMark.mp hm with hmark | ⟨done, failed, hmarking, -⟩
  · exact mem_toMark.mpr (.inl hmark)
  · exact absurd hmarking (hrelay done failed)

theorem Carried.takeMark (h : Carried p d) (k : ℕ) :
    Carried { p with marks := p.marks.eraseIdx k } d := by
  refine h.shrink (fun m hm => ?_) fun m _ hbuffer => .inl hbuffer
  rcases mem_toMark.mp hm with hmark | hmarking
  · exact mem_toMark.mpr (.inl (List.mem_of_mem_eraseIdx hmark))
  · exact mem_toMark.mpr (.inr hmarking)

theorem Carried.of_does (h : Carried p d) (htime : inTime i p d = true)
    (hdoes : Does p d i p' d') : Carried p' d' := by
  have hgrows := Grows.of_does hdoes
  cases hdoes with
  | @publishes id w row hfind =>
      obtain ⟨hmarks, hrelay, hkeep⟩ := publish_frame (p := p) (m := message row) w
      have hcases : ∀ m ∈ toMark { (publish p (message row) w).1 with
          marks := (publish p (message row) w).1.marks ++
            [(message row, (publish p (message row) w).2)] },
          m ∈ toMark p ∨ (m = message row ∧ (publish p (message row) w).2 = true) := by
        intro m hm
        rcases mem_toMark.mp hm with hmark | ⟨done, failed, hmarking, hdone⟩
        · rcases List.mem_append.mp hmark with hold | hnew
          · exact .inl (mem_toMark.mpr (.inl (hmarks ▸ hold)))
          · rw [List.mem_singleton, Prod.mk.injEq] at hnew
            exact .inr ⟨hnew.1, hnew.2.symm⟩
        · exact .inl (mem_toMark.mpr (.inr ⟨done, failed, hrelay ▸ hmarking, hdone⟩))
      refine ⟨fun m hm => ?_, fun m hm => ?_⟩
      · rcases hcases m hm with hold | ⟨rfl, hok⟩
        · exact (h.written m hold).imp_left (hkeep m)
        · exact .inl (publish_buffered hok)
      · rcases hcases m hm with hold | ⟨rfl, -⟩
        · exact h.owned m hold
        · exact ⟨row, Table.mem_of_find hfind, rfl⟩
  | @selects writes =>
      obtain ⟨hmarks, hkeep, hdone⟩ := publishAll_spec (p := p) writes (batch d)
      refine ⟨fun m hm => ?_, fun m hm => ?_⟩
      · rcases mem_toMark.mp hm with hmark | ⟨done, failed, hmarking, hin⟩
        · exact (h.written m (mem_toMark.mpr (.inl (hmarks ▸ hmark)))).imp_left (hkeep m)
        · cases hmarking
          exact .inl (hdone m hin).2
      · rcases mem_toMark.mp hm with hmark | ⟨done, failed, hmarking, hin⟩
        · exact h.owned m (mem_toMark.mpr (.inl (hmarks ▸ hmark)))
        · cases hmarking
          exact mem_batch (d := d) (hdone m hin).1
  | flushes first rest hbuffer =>
      refine ⟨fun m hm => ?_, fun m hm => h.owned m hm⟩
      rcases h.written m hm with hin | haccepted
      · rw [hbuffer] at hin
        rcases List.mem_cons.mp hin with rfl | hrest
        · exact .inr List.mem_cons_self
        · exact .inl hrest
      · exact .inr (List.mem_cons_of_mem _ haccepted)
  | closes =>
      refine h.shrink (fun m hm => hm) fun m hm hbuffer => .inr (h.accepted hm ?_)
      exact List.all_eq_true.mp htime m hm
  | crashes d' hr ha =>
      have hnone : ∀ m, m ∉ toMark ⟨false, [], [], .idle⟩ := by simp [toMark]
      exact ⟨fun m hm => absurd hm (hnone m), fun m hm => absurd hm (hnone m)⟩
  | skips => exact h.takeMark _
  | marks m ok hmark => exact (h.takeMark _).mono hgrows
  | begins => exact h.setRelay .selecting (by simp)
  | commits done failed hrelay => exact (h.setRelay .idle (by simp)).mono hgrows
  | rollsBack d' hr ha => exact (h.setRelay .idle (by simp)).mono hgrows
  | enqueues rows hinsert => exact h.mono hgrows
  | connects => exact ⟨h.written, h.owned⟩

/-- A step that marks a row published finds its message accepted. -/
theorem NothingLost.of_does (hlost : NothingLost d) (h : Carried p d) (htime : inTime i p d = true)
    (hdoes : Does p d i p' d') : NothingLost d' := by
  have hgrows := Grows.of_does hdoes
  have hsame : d'.rows = d.rows → NothingLost d' := fun hr row hrow hpublished =>
    hgrows.accepted _ (hlost row (hr ▸ hrow) hpublished)
  cases hdoes with
  | enqueues rows hinsert =>
      intro row hrow hpublished
      rcases (Table.mem_insert hinsert).mp hrow with hold | rfl
      · exact hlost row hold hpublished
      · cases hpublished
  | marks m ok hmark =>
      intro row hrow hpublished
      obtain ⟨old, hold, he, hstatus⟩ := markOne_published hrow hpublished
      rw [he]
      rcases hstatus with hwas | ⟨rfl, hid⟩
      · exact hlost old hold hwas
      · have hm : m ∈ toMark p := mem_toMark.mpr (.inl (List.mem_of_getElem? hmark))
        have hflushed : flushed p d m = true := by simpa [inTime, hmark] using htime
        rw [h.message_eq hm hold hid]
        exact h.accepted hm hflushed
  | commits done failed hrelay =>
      intro row hrow hpublished
      obtain ⟨old, hold, he, hstatus⟩ := markAll_published hrow hpublished
      rw [he]
      rcases hstatus with hwas | ⟨m, hdone, hid⟩
      · exact hlost old hold hwas
      · have hm : m ∈ toMark p := mem_toMark.mpr (.inr ⟨done, failed, hrelay, hdone⟩)
        have hall : done.all (flushed p d) = true := by simpa [inTime, hrelay] using htime
        rw [h.message_eq hm hold hid.symm]
        exact h.accepted hm (List.all_eq_true.mp hall m hdone)
  | rollsBack d' hr ha => exact hsame hr
  | crashes d' hr ha => exact hsame hr
  | _ => exact hsame rfl

end Steps

/-- While rows are marked in time, every published row has reached the broker. -/
theorem published_rows_accepted {tr : List (Event (ℕ × Input) Service)} {s : Service}
    (h : Run (Interleaving.next step) start tr s)
    (htime : ∀ e ∈ tr, inTime e.label.2 (e.pre.client e.label.1) e.pre.data = true) :
    NothingLost s.data := by
  have howned : Owned NothingLost Carried s := by
    refine Owned.run (C := fun i p d => inTime i p d = true) ?_ ?_ ⟨?_, fun _ => ⟨?_, ?_⟩⟩ h htime
    · intro i p d p' d' htime hlost hp hstep
      have hdoes := step_does hstep
      exact ⟨hlost.of_does hp htime hdoes, hp.of_does htime hdoes⟩
    · intro i p d p' d' q _ _ _ hq hstep
      exact hq.mono (Grows.of_does (step_does hstep))
    · exact fun _ hrow => absurd hrow List.not_mem_nil
    · exact fun _ hm => absurd hm List.not_mem_nil
    · exact fun _ hm => absurd hm List.not_mem_nil
  exact howned.data

/-! ## A connection that closes between the write and its flush -/

/-- Instance 0 publishes a committed event; `last` follows. -/
def publishing (last : List Input) : List (ℕ × Input) :=
  let event : NotificationPushEvent := ⟨7, "notification.push", 0, 1, ⟨"", "", 0, "/"⟩, none⟩
  [(0, .connect), (1, .connect), (0, .enqueue "notification.push" event), (0, .publishNow 7 .room)] ++
    last.map fun i => (0, i)

theorem published_rows_accepted_flushed :
    ∃ tr s, Run (Interleaving.next step) start tr s ∧
      s.data.rows.rows.map OutboxEvent.status = [.published] ∧ NothingLost s.data := by
  obtain ⟨tr, s, hrun, -, hs⟩ := Run.of_trace_map (Interleaving.next step)
    (publishing [.flush, .mark 0 5 false, .close]) start
    (fun tr s => (tr.all fun e => inTime e.label.2 (e.pre.client e.label.1) e.pre.data,
      s.data.rows.rows.map OutboxEvent.status)) (true, [.published]) (by decide)
  have htime : ∀ e ∈ tr, inTime e.label.2 (e.pre.client e.label.1) e.pre.data = true :=
    List.all_eq_true.mp (congrArg Prod.fst hs)
  exact ⟨tr, s, hrun, congrArg Prod.snd hs, published_rows_accepted hrun htime⟩

/-- The row is marked, the buffer is gone, and no relay looks at the row again. -/
theorem marked_row_never_sent :
    ∃ tr s, Run (Interleaving.next step) start tr s ∧
      s.data.rows.rows.map OutboxEvent.status = [.published] ∧
      (s.client 0).buffer = [] ∧ s.data.accepted = [] ∧ ¬ NothingLost s.data := by
  obtain ⟨tr, s, hrun, -, hs⟩ := Run.of_trace_map (Interleaving.next step)
    (publishing [.mark 0 5 false, .close]) start
    (fun _ s => (s.data.rows.rows.map OutboxEvent.status, (s.client 0).buffer, s.data.accepted))
    ([.published], [], []) (by decide)
  have hstatus : s.data.rows.rows.map OutboxEvent.status = [.published] := congrArg Prod.fst hs
  have haccepted : s.data.accepted = [] := congrArg (fun r => r.2.2) hs
  refine ⟨tr, s, hrun, hstatus, congrArg (fun r => r.2.1) hs, haccepted, fun hlost => ?_⟩
  have hmem : OutboxStatus.published ∈ s.data.rows.rows.map OutboxEvent.status := by
    rw [hstatus]
    exact List.mem_singleton.mpr rfl
  obtain ⟨row, hrow, hpublished⟩ := List.mem_map.mp hmem
  have hin := hlost row hrow hpublished
  rw [haccepted] at hin
  cases hin

end MaxOne.Outbox
