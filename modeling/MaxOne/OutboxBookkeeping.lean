import MaxOne.Outbox

/-!
# What the outbox keeps about its rows

`OutboxService` again, one statement at a time and with the purge. What a publish
returns is left to the world; the table of calls remembers what it was. The time is
one clock for all instances.

A relay selects its rows, publishes them in one go as soon as it has them, and
makes its updates visible when its transaction commits. Which of the free pending rows
come first is left to the database, since `createdAt` is the time at which the
enqueuing transaction began.
-/
namespace MaxOne.OutboxBookkeeping
open Library Library.Runs Library.Interleaving MaxOne.Schema
open MaxOne.Outbox (Message message pendingRow markRow markPublished markFailed markOne markAll ids
  relayBatch)

/-- `KEEP_PUBLISHED_MS` -/
def keepPublishedMs : ℕ := 7 * 86400000

/-- A call of `QueueService.publish` for a row, and what it returned. -/
structure Call where
  row : Message
  ok : Bool
  time : Time
  deriving DecidableEq, Repr

/-- `OutboxService.relaying`, and the variables of its transaction. -/
inductive Relay where
  | idle
  | selecting
  | selected (rows : List Message)
  | marking (rows done failed : List Message) (time : Time)

/-- The updates `publishNow` has yet to make, the relay, and when the running purges began. -/
structure Instance where
  marks : List Call
  relay : Relay
  purges : List Time

structure Shared where
  rows : Table OutboxEvent OutboxEvent.id
  locked : List Uuid
  calls : List Call
  clock : Time

inductive Input where
  | enqueue (routingKey : String) (event : NotificationPushEvent)
  | publishNow (row : Message) (ok : Bool)
  | mark (k : ℕ) (fails : Bool)
  | relayPending (connected : Bool)
  | select (chosen : List Uuid)
  | publishRows (results : Message → Bool)
  | commit
  | rollback
  | purgePublished
  | deletePublished (k : ℕ)
  | elapse (ms : ℕ)

def publish (row : Message) (ok : Bool) (d : Shared) : Shared :=
  { d with calls := ⟨row, ok, d.clock⟩ :: d.calls }

/-- The update of `publishNow`. It waits for a lock; an error, or a row that is gone, is only
logged. -/
def mark (k : ℕ) (fails : Bool) (p : Instance) (d : Shared) : Option (Instance × Shared) := do
  let call ← p.marks[k]?
  let p' := { p with marks := p.marks.eraseIdx k }
  if fails then some (p', d)
  else if call.row.messageId ∈ d.locked then none
  else some (p', { d with rows := markOne call.row call.ok call.time d.rows })

/-- What `FOR UPDATE SKIP LOCKED` may return. -/
def selectable (d : Shared) (chosen : List Uuid) : Prop :=
  chosen.Nodup ∧ chosen.length ≤ relayBatch ∧
    ∀ id ∈ chosen, id ∉ d.locked ∧ (d.rows.find id).map OutboxEvent.status = some .pending

instance (d : Shared) (chosen : List Uuid) : Decidable (selectable d chosen) :=
  inferInstanceAs (Decidable (_ ∧ _ ∧ _))

def batch (d : Shared) (chosen : List Uuid) : List Message :=
  (chosen.filterMap d.rows.find).map message

/-- The loop of the relay: each row is published and goes to `done` or to `failed`. -/
def publishRows (results : Message → Bool) : Shared → List Message →
    Shared × List Message × List Message
  | d, [] => (d, [], [])
  | d, m :: ms =>
      let rest := publishRows results (publish m (results m) d) ms
      if results m then (rest.1, m :: rest.2.1, rest.2.2) else (rest.1, rest.2.1, m :: rest.2.2)

def release (d : Shared) (ms : List Message) : Shared :=
  { d with locked := d.locked.filter fun id => id ∉ ids ms }

/-- The row the purge that began at `started` deletes. -/
def expired (started : Time) (row : OutboxEvent) : Bool :=
  row.status = .published && row.publishedAt.any fun t => t + keepPublishedMs < started

def step (i : Input) (p : Instance) (d : Shared) : Option (Instance × Shared) :=
  match i with
  | .enqueue routingKey event =>
      (d.rows.insert (pendingRow routingKey event)).map fun rows => (p, { d with rows := rows })
  | .publishNow row ok =>
      some ({ p with marks := p.marks ++ [⟨row, ok, d.clock⟩] }, publish row ok d)
  | .mark k fails => mark k fails p d
  | .relayPending connected =>
      match p.relay with
      | .idle => if connected then some ({ p with relay := .selecting }, d) else some (p, d)
      | _ => some (p, d)
  | .select chosen =>
      match p.relay with
      | .selecting =>
          if selectable d chosen then
            some ({ p with relay := .selected (batch d chosen) },
              { d with locked := d.locked ++ chosen })
          else none
      | _ => none
  | .publishRows results =>
      match p.relay with
      | .selected rows =>
          let r := publishRows results d rows
          some ({ p with relay := .marking rows r.2.1 r.2.2 d.clock }, r.1)
      | _ => none
  | .commit =>
      match p.relay with
      | .marking rows done failed time => some ({ p with relay := .idle },
          release { d with rows := markAll time done failed d.rows } rows)
      | _ => none
  | .rollback =>
      match p.relay with
      | .selecting => some ({ p with relay := .idle }, d)
      | .marking rows _ _ _ => some ({ p with relay := .idle }, release d rows)
      | _ => none
  | .purgePublished => some ({ p with purges := p.purges ++ [d.clock] }, d)
  | .deletePublished k => (p.purges[k]?).map fun started =>
      ({ p with purges := p.purges.eraseIdx k },
        { d with rows := d.rows.deleteWhere (expired started) })
  | .elapse ms => some (p, { d with clock := d.clock + ms })

abbrev Service := Pool Shared Instance

def start : Service := ⟨⟨.empty, [], [], 0⟩, fun _ => ⟨[], .idle, []⟩⟩

/-- The rows the open transaction of the relay has selected. -/
def held (p : Instance) : List Message :=
  match p.relay with
  | .selected rows => rows
  | .marking rows _ _ _ => rows
  | _ => []

/-! ## What a step does -/

/-- The publishes of one batch, the first one last. -/
def batchCalls (results : Message → Bool) (time : Time) (rows : List Message) : List Call :=
  (rows.map fun m => ⟨m, results m, time⟩).reverse

theorem publishRows_eq (results : Message → Bool) (d : Shared) (rows : List Message) :
    publishRows results d rows =
      ({ d with calls := batchCalls results d.clock rows ++ d.calls },
        rows.filter results, rows.filter fun m => !results m) := by
  induction rows generalizing d with
  | nil => rfl
  | cons m ms ih =>
      rw [publishRows, ih]
      cases hm : results m <;> simp [hm, batchCalls, publish]

inductive Does (p : Instance) (d : Shared) : Input → Instance → Shared → Prop where
  | enqueues {routingKey : String} {event : NotificationPushEvent}
      (rows : Table OutboxEvent OutboxEvent.id)
      (hinsert : d.rows.insert (pendingRow routingKey event) = some rows) :
      Does p d (.enqueue routingKey event) p { d with rows := rows }
  | publishes {row : Message} {ok : Bool} : Does p d (.publishNow row ok)
      { p with marks := p.marks ++ [⟨row, ok, d.clock⟩] } (publish row ok d)
  | skips {k : ℕ} : Does p d (.mark k true) { p with marks := p.marks.eraseIdx k } d
  | marks {k : ℕ} (call : Call) (hmark : p.marks[k]? = some call)
      (hfree : call.row.messageId ∉ d.locked) :
      Does p d (.mark k false) { p with marks := p.marks.eraseIdx k }
        { d with rows := markOne call.row call.ok call.time d.rows }
  | ticks {connected : Bool} : Does p d (.relayPending connected) p d
  | begins (hrelay : p.relay = .idle) :
      Does p d (.relayPending true) { p with relay := .selecting } d
  | selects {chosen : List Uuid} (hrelay : p.relay = .selecting) (hchosen : selectable d chosen) :
      Does p d (.select chosen) { p with relay := .selected (batch d chosen) }
        { d with locked := d.locked ++ chosen }
  | relays {results : Message → Bool} (rows : List Message) (hrelay : p.relay = .selected rows) :
      Does p d (.publishRows results)
        { p with
          relay := .marking rows (rows.filter results) (rows.filter fun m => !results m) d.clock }
        { d with calls := batchCalls results d.clock rows ++ d.calls }
  | commits (rows done failed : List Message) (time : Time)
      (hrelay : p.relay = .marking rows done failed time) :
      Does p d .commit { p with relay := .idle }
        (release { d with rows := markAll time done failed d.rows } rows)
  | givesUp (hrelay : p.relay = .selecting) : Does p d .rollback { p with relay := .idle } d
  | aborts (rows done failed : List Message) (time : Time)
      (hrelay : p.relay = .marking rows done failed time) :
      Does p d .rollback { p with relay := .idle } (release d rows)
  | purges : Does p d .purgePublished { p with purges := p.purges ++ [d.clock] } d
  | deletes {k : ℕ} (started : Time) (hstarted : p.purges[k]? = some started) :
      Does p d (.deletePublished k) { p with purges := p.purges.eraseIdx k }
        { d with rows := d.rows.deleteWhere (expired started) }
  | elapses {ms : ℕ} : Does p d (.elapse ms) p { d with clock := d.clock + ms }

section Steps
variable {i : Input} {p p' q : Instance} {d d' : Shared}

theorem step_does (h : step i p d = some (p', d')) : Does p d i p' d' := by
  cases i with
  | enqueue routingKey event =>
      obtain ⟨rows, hinsert, he⟩ := Option.map_eq_some_iff.mp h
      cases he
      exact .enqueues rows hinsert
  | publishNow row ok =>
      cases h
      exact .publishes
  | mark k fails =>
      obtain ⟨call, hmark, hrest⟩ := Option.bind_eq_some_iff.mp h
      dsimp only at hrest
      cases fails with
      | true =>
          cases hrest
          exact .skips
      | false =>
          simp only [Bool.false_eq_true, if_false] at hrest
          split_ifs at hrest with hfree
          cases hrest
          exact .marks call hmark hfree
  | relayPending connected =>
      simp only [step] at h
      split at h
      · next hrelay =>
          cases connected with
          | true =>
              cases h
              exact .begins hrelay
          | false =>
              cases h
              exact .ticks
      · cases h
        exact .ticks
  | select chosen =>
      simp only [step] at h
      split at h
      · next hrelay =>
          split_ifs at h with hchosen
          cases h
          exact .selects hrelay hchosen
      · cases h
  | publishRows results =>
      simp only [step, publishRows_eq] at h
      split at h
      · next rows hrelay =>
          cases h
          exact .relays rows hrelay
      · cases h
  | commit =>
      simp only [step] at h
      split at h
      · next rows done failed time hrelay =>
          cases h
          exact .commits rows done failed time hrelay
      · cases h
  | rollback =>
      simp only [step] at h
      split at h
      · next hrelay =>
          cases h
          exact .givesUp hrelay
      · next rows done failed time hrelay =>
          cases h
          exact .aborts rows done failed time hrelay
      · cases h
  | purgePublished =>
      cases h
      exact .purges
  | deletePublished k =>
      obtain ⟨started, hstarted, he⟩ := Option.map_eq_some_iff.mp h
      cases he
      exact .deletes started hstarted
  | elapse ms =>
      cases h
      exact .elapses

/-! ## Rows -/

section Rows
variable (rows : Table OutboxEvent OutboxEvent.id)

theorem ids_batch {chosen : List Uuid} (h : selectable d chosen) : ids (batch d chosen) = chosen := by
  have hfind : ∀ id ∈ chosen, ∃ row, d.rows.find id = some row := by
    intro id hid
    obtain ⟨row, hrow, -⟩ := Option.map_eq_some_iff.mp (h.2.2 id hid).2
    exact ⟨row, hrow⟩
  clear h
  induction chosen with
  | nil => rfl
  | cons id rest ih =>
      obtain ⟨row, hrow⟩ := hfind id List.mem_cons_self
      have hrest := ih fun id' hid' => hfind id' (List.mem_cons_of_mem _ hid')
      have hkey : row.id = id := Table.find_key hrow
      have hid : (message row).messageId = id := hkey
      simp only [batch, ids, List.filterMap_cons, hrow, List.map_cons, hid]
      exact congrArg (id :: ·) hrest

theorem find_markOne (m : Message) (ok : Bool) (time : Time) (id : Uuid) :
    (markOne m ok time rows).find id =
      (rows.find id).map fun row => if id = m.messageId then markRow ok time row else row := by
  unfold markOne
  rw [Table.find_modify]
  split_ifs with h
  · rw [h]
  · simp

/-- The two updates of a relay, row by row. -/
theorem find_markAll (time : Time) (done failed : List Message) (id : Uuid) :
    (markAll time done failed rows).find id = (rows.find id).map fun row =>
      let row := if id ∈ ids done then markPublished time row else row
      if id ∈ ids failed then markFailed row else row := by
  have hdone : (rows.modifyWhere (fun r => r.id ∈ ids done) (markPublished time) fun _ => rfl).find
      id = (rows.find id).map fun r => if decide (r.id ∈ ids done) then markPublished time r else r :=
    Table.find_modifyWhere id
  refine (Table.find_modifyWhere id).trans ((congrArg (Option.map _) hdone).trans ?_)
  rw [Option.map_map]
  refine Option.map_congr fun row hrow => ?_
  have hid : row.id = id := Table.find_key hrow
  subst hid
  by_cases hdone : row.id ∈ ids done <;> simp [hdone, markPublished]

/-- Whether the id of a row of the batch is among those the test keeps. -/
theorem mem_ids_filter {batch : List Message} (hnodup : (ids batch).Nodup) (f : Message → Bool)
    {m : Message} (hm : m ∈ batch) : m.messageId ∈ ids (batch.filter f) ↔ f m = true := by
  refine ⟨fun h => ?_, fun h => List.mem_map.mpr ⟨m, List.mem_filter.mpr ⟨hm, h⟩, rfl⟩⟩
  obtain ⟨m', hm', he⟩ := List.mem_map.mp h
  obtain ⟨hin, hok⟩ := List.mem_filter.mp hm'
  exact List.inj_on_of_nodup_map hnodup hin hm he ▸ hok

/-- Splitting a batch by its results marks each of its rows by its own result. -/
theorem find_markAll_split {batch : List Message} (hnodup : (ids batch).Nodup)
    (results : Message → Bool) (time : Time) {m : Message} (hm : m ∈ batch) :
    (markAll time (batch.filter results) (batch.filter fun m => !results m) rows).find m.messageId =
      (rows.find m.messageId).map (markRow (results m) time) := by
  rw [find_markAll]
  refine Option.map_congr fun row _ => ?_
  simp only [mem_ids_filter hnodup _ hm]
  cases results m with
  | true => rfl
  | false => rfl

theorem find_markAll_other {batch : List Message} (results : Message → Bool) (time : Time) {id : Uuid}
    (hid : id ∉ ids batch) :
    (markAll time (batch.filter results) (batch.filter fun m => !results m) rows).find id =
      rows.find id := by
  have hout : ∀ f : Message → Bool, id ∉ ids (batch.filter f) := fun f h => by
    obtain ⟨m, hm, he⟩ := List.mem_map.mp h
    exact hid (List.mem_map.mpr ⟨m, (List.mem_filter.mp hm).1, he⟩)
  rw [find_markAll]
  simp [hout]

end Rows

theorem any_expired {published : Option Time} {keep started : Time} :
    (published.any fun t => t + keep < started) = true ↔
      ∃ time, published = some time ∧ time + keep < started := by
  cases published with
  | none => simp
  | some time => simp

theorem expired_iff {started : Time} {row : OutboxEvent} : expired started row = true ↔
    row.status = .published ∧ ∃ time, row.publishedAt = some time ∧ time + keepPublishedMs < started := by
  unfold expired
  exact (Bool.and_eq_true _ _).to_iff.trans (and_congr decide_eq_true_iff any_expired)

/-! ## What an instance relies on -/

/-- A publish of the row returned true, at the time the row says. -/
def Justified (d : Shared) (row : OutboxEvent) : Prop :=
  ∃ call ∈ d.calls, call.row.messageId = row.id ∧ call.ok = true ∧ row.publishedAt = some call.time

/-- The instance's calls were made, its batch is locked and pending, and `done` and `failed`
split the batch by what its publishes returned. -/
structure Consistent (p : Instance) (d : Shared) : Prop where
  marks : ∀ call ∈ p.marks, call ∈ d.calls
  purges : ∀ started ∈ p.purges, started ≤ d.clock
  nodup : (ids (held p)).Nodup
  batch : ∀ id ∈ ids (held p), id ∈ d.locked ∧
    ∃ row, d.rows.find id = some row ∧ row.status = .pending
  results : ∀ rows done failed time, p.relay = .marking rows done failed time →
    ∃ results : Message → Bool, done = rows.filter results ∧
      failed = (rows.filter fun m => !results m) ∧ ∀ m ∈ rows, ⟨m, results m, time⟩ ∈ d.calls

/-- What a step can do to the row of one id. -/
inductive RowStep (p : Instance) (d : Shared) (id : Uuid) :
    Input → Option OutboxEvent → Option OutboxEvent → Prop where
  | keeps {i : Input} {row : Option OutboxEvent} : RowStep p d id i row row
  | enqueued {i : Input} (row : OutboxEvent) (hpending : row.status = .pending) :
      RowStep p d id i none (some row)
  | marked {i : Input} (row : OutboxEvent) (call : Call) (hcall : call ∈ d.calls)
      (hid : call.row.messageId = id) (hlock : id ∈ d.locked → id ∈ ids (held p)) :
      RowStep p d id i (some row) (some (markRow call.ok call.time row))
  | purged {k : ℕ} (row : OutboxEvent) (started : Time) (hstarted : p.purges[k]? = some started)
      (hexpired : expired started row = true) : RowStep p d id (.deletePublished k) (some row) none

theorem Consistent.rowStep (hp : Consistent p d) (h : Does p d i p' d') (id : Uuid) :
    RowStep p d id i (d.rows.find id) (d'.rows.find id) := by
  cases h with
  | @enqueues routingKey event rows hinsert =>
      rw [Table.find_insert hinsert]
      split_ifs with hid
      · rw [hid, Table.insert_fresh hinsert]
        exact .enqueued _ rfl
      · exact .keeps
  | @marks k call hmark hfree =>
      have hfind := find_markOne d.rows call.row call.ok call.time id
      dsimp only
      rw [hfind]
      cases hrow : d.rows.find id with
      | none => exact .keeps
      | some row =>
          rw [Option.map_some]
          split_ifs with hid
          · have hcall := hp.marks call (List.mem_of_getElem? hmark)
            exact .marked row call hcall hid.symm fun hlocked => absurd (hid ▸ hlocked) hfree
          · exact .keeps
  | commits rows done failed time hrelay =>
      obtain ⟨results, rfl, rfl, hcalls⟩ := hp.results rows done failed time hrelay
      have hheld : held p = rows := by rw [held, hrelay]
      by_cases hid : id ∈ ids rows
      · obtain ⟨m, hm, rfl⟩ := List.mem_map.mp hid
        have hnodup : (ids rows).Nodup := hheld ▸ hp.nodup
        have hfind := find_markAll_split d.rows hnodup results time hm
        simp only [release]
        rw [hfind]
        cases hrow : d.rows.find m.messageId with
        | none => exact .keeps
        | some row =>
            exact .marked row ⟨m, results m, time⟩ (hcalls m hm) rfl fun _ => hheld ▸ hid
      · have hfind := find_markAll_other d.rows results time hid
        simp only [release]
        rw [hfind]
        exact .keeps
  | @deletes k started hstarted =>
      dsimp only
      rw [Table.find_deleteWhere]
      cases hrow : d.rows.find id with
      | none => exact .keeps
      | some row =>
          rw [Option.filter_some]
          split_ifs with hexpired
          · exact .keeps
          · exact .purged row started hstarted (by simpa using hexpired)
  | _ => exact .keeps

/-- Calls are only added and time only passes. -/
theorem calls_grow (h : Does p d i p' d') : (∀ call ∈ d.calls, call ∈ d'.calls) ∧ d.clock ≤ d'.clock := by
  cases h with
  | publishes => exact ⟨fun _ h => List.mem_cons_of_mem _ h, le_rfl⟩
  | relays rows hrelay => exact ⟨fun _ h => List.mem_append_right _ h, le_rfl⟩
  | elapses => exact ⟨fun _ h => h, Nat.le_add_right _ _⟩
  | _ => exact ⟨fun _ h => h, le_rfl⟩

/-- A batch grows by rows nobody has locked, and only its own instance unlocks it. -/
theorem held_of_does (h : Does p d i p' d') : ∀ id ∈ ids (held p'), id ∈ ids (held p) ∨ id ∉ d.locked := by
  cases h with
  | @selects chosen hrelay hchosen =>
      intro id hid
      rw [held, ids_batch hchosen] at hid
      exact .inr (hchosen.2.2 id hid).1
  | relays rows hrelay =>
      intro id hid
      rw [held] at hid
      refine .inl ?_
      rwa [held, hrelay]
  | begins hrelay => exact fun id hid => absurd hid List.not_mem_nil
  | commits rows done failed time hrelay => exact fun id hid => absurd hid List.not_mem_nil
  | givesUp hrelay => exact fun id hid => absurd hid List.not_mem_nil
  | aborts rows done failed time hrelay => exact fun id hid => absurd hid List.not_mem_nil
  | _ => exact fun id hid => .inl hid

theorem locked_of_does (h : Does p d i p' d') {id : Uuid} (hid : id ∈ d.locked)
    (hheld : id ∉ ids (held p)) : id ∈ d'.locked := by
  cases h with
  | selects hrelay hchosen => exact List.mem_append_left _ hid
  | commits rows done failed time hrelay =>
      rw [held, hrelay] at hheld
      exact List.mem_filter.mpr ⟨hid, decide_eq_true hheld⟩
  | aborts rows done failed time hrelay =>
      rw [held, hrelay] at hheld
      exact List.mem_filter.mpr ⟨hid, decide_eq_true hheld⟩
  | _ => exact hid

/-- The batch of an instance survives the steps of the others. -/
theorem Consistent.other (hq : Consistent q d) (hp : Consistent p d)
    (hdisjoint : List.Disjoint (ids (held p)) (ids (held q))) (h : Does p d i p' d') :
    Consistent q d' where
  marks := fun call hcall => (calls_grow h).1 call (hq.marks call hcall)
  purges := fun started hstarted => (hq.purges started hstarted).trans (calls_grow h).2
  nodup := hq.nodup
  batch := fun id hid => by
    obtain ⟨hlocked, row, hrow, hpending⟩ := hq.batch id hid
    have hother : id ∉ ids (held p) := fun hin => hdisjoint hin hid
    refine ⟨locked_of_does h hlocked hother, row, ?_, hpending⟩
    have hstep := hp.rowStep h id
    rw [hrow] at hstep
    generalize d'.rows.find id = found at hstep ⊢
    cases hstep with
    | keeps => rfl
    | marked _ call hcall hid hlock => exact absurd (hlock hlocked) hother
    | purged _ started hstarted hexpired => simp [expired, hpending] at hexpired
  results := fun rows done failed time hrelay => by
    obtain ⟨results, hdone, hfailed, hcalls⟩ := hq.results rows done failed time hrelay
    exact ⟨results, hdone, hfailed, fun m hm => (calls_grow h).1 _ (hcalls m hm)⟩

/-- A step that leaves the relay alone keeps the batch, whatever it does to the calls to mark
and the purges. -/
theorem Consistent.of_frame (hp : Consistent p d) (hrelay : p'.relay = p.relay)
    (hmarks : ∀ call ∈ p'.marks, call ∈ d'.calls) (hpurges : ∀ t ∈ p'.purges, t ≤ d'.clock)
    (hcalls : ∀ call ∈ d.calls, call ∈ d'.calls) (hlocked : d'.locked = d.locked)
    (hrows : ∀ id ∈ ids (held p), d'.rows.find id = d.rows.find id) : Consistent p' d' := by
  have hheld : held p' = held p := by rw [held, held, hrelay]
  refine ⟨hmarks, hpurges, hheld ▸ hp.nodup, fun id hid => ?_, fun rows done failed time hmarking => ?_⟩
  · rw [hheld] at hid
    rw [hlocked, hrows id hid]
    exact hp.batch id hid
  · obtain ⟨results, hdone, hfailed, hall⟩ := hp.results rows done failed time (hrelay ▸ hmarking)
    exact ⟨results, hdone, hfailed, fun m hm => hcalls _ (hall m hm)⟩

/-- A relay without a batch has nothing to keep. -/
theorem Consistent.of_idle (hp : Consistent p d) {relay : Relay}
    (hrelay : relay = .idle ∨ relay = .selecting)
    (hcalls : d'.calls = d.calls) (hclock : d'.clock = d.clock) :
    Consistent { p with relay := relay } d' := by
  have hheld : held { p with relay := relay } = [] := by
    rcases hrelay with rfl | rfl
    · rfl
    · rfl
  refine ⟨fun call hcall => hcalls ▸ hp.marks call hcall, fun t ht => hclock ▸ hp.purges t ht,
    ?_, fun id hid => ?_, fun rows done failed time hmarking => ?_⟩
  · rw [hheld]
    exact List.nodup_nil
  · rw [hheld] at hid
    exact absurd hid List.not_mem_nil
  · rcases hrelay with rfl | rfl
    · cases hmarking
    · cases hmarking

theorem Consistent.own (hp : Consistent p d) (h : Does p d i p' d') : Consistent p' d' := by
  cases h with
  | enqueues rows hinsert =>
      refine hp.of_frame rfl hp.marks hp.purges (fun _ h => h) rfl fun id hid => ?_
      obtain ⟨-, row, hrow, -⟩ := hp.batch id hid
      exact (Table.find_insert_of_some hinsert hrow).trans hrow.symm
  | @publishes row ok =>
      refine hp.of_frame rfl (fun call hcall => ?_) hp.purges (fun _ h => List.mem_cons_of_mem _ h)
        rfl fun _ _ => rfl
      rcases List.mem_append.mp hcall with hold | hnew
      · exact List.mem_cons_of_mem _ (hp.marks call hold)
      · rw [List.mem_singleton.mp hnew]
        exact List.mem_cons_self
  | @skips k =>
      refine hp.of_frame rfl (fun call hcall => ?_) hp.purges (fun _ h => h) rfl fun _ _ => rfl
      exact hp.marks call (List.mem_of_mem_eraseIdx hcall)
  | marks call hmark hfree =>
      refine hp.of_frame rfl (fun call' hcall => ?_) hp.purges (fun _ h => h) rfl fun id hid => ?_
      · exact hp.marks call' (List.mem_of_mem_eraseIdx hcall)
      have hne : id ≠ call.row.messageId := fun he => hfree (he ▸ (hp.batch id hid).1)
      dsimp only
      rw [find_markOne]
      simp [hne]
  | ticks => exact hp
  | begins hrelay => exact hp.of_idle (.inr rfl) rfl rfl
  | @selects chosen hrelay hchosen =>
      refine ⟨hp.marks, hp.purges, ?_, fun id hid => ?_, fun rows done failed time hmarking => ?_⟩
      · rw [held, ids_batch hchosen]
        exact hchosen.1
      · rw [held, ids_batch hchosen] at hid
        obtain ⟨row, hrow, hpending⟩ := Option.map_eq_some_iff.mp (hchosen.2.2 id hid).2
        exact ⟨List.mem_append_right _ hid, row, hrow, hpending⟩
      · cases hmarking
  | @relays results rows hrelay =>
      have hheld : held p = rows := by rw [held, hrelay]
      refine ⟨fun call hcall => List.mem_append_right _ (hp.marks call hcall), hp.purges,
        hheld ▸ hp.nodup, fun id hid => hp.batch id (hheld ▸ hid),
        fun rows' done failed time hmarking => ?_⟩
      cases hmarking
      refine ⟨results, rfl, rfl, fun m hm => List.mem_append_left _ ?_⟩
      exact List.mem_reverse.mpr (List.mem_map.mpr ⟨m, hm, rfl⟩)
  | commits rows done failed time hrelay => exact hp.of_idle (.inl rfl) rfl rfl
  | givesUp hrelay => exact hp.of_idle (.inl rfl) rfl rfl
  | aborts rows done failed time hrelay => exact hp.of_idle (.inl rfl) rfl rfl
  | purges =>
      refine hp.of_frame rfl hp.marks (fun t ht => ?_) (fun _ h => h) rfl fun _ _ => rfl
      rcases List.mem_append.mp ht with hold | hnew
      · exact hp.purges t hold
      · exact (List.mem_singleton.mp hnew).le
  | @deletes k started hstarted =>
      refine hp.of_frame rfl hp.marks (fun t ht => hp.purges t (List.mem_of_mem_eraseIdx ht))
        (fun _ h => h) rfl fun id hid => ?_
      obtain ⟨-, row, hrow, hpending⟩ := hp.batch id hid
      have hkept : expired started row = false := by simp [expired, hpending]
      dsimp only
      rw [Table.find_deleteWhere, hrow]
      simp [hkept]
  | elapses =>
      exact hp.of_frame rfl hp.marks (fun t ht => (hp.purges t ht).trans (Nat.le_add_right _ _))
        (fun _ h => h) rfl fun _ _ => rfl

/-! ## Rows are published by a call and deleted by age -/

theorem Justified.mono {row : OutboxEvent} (h : Justified d row)
    (hcalls : ∀ call ∈ d.calls, call ∈ d'.calls) : Justified d' row := by
  obtain ⟨call, hcall, hrest⟩ := h
  exact ⟨call, hcalls call hcall, hrest⟩

/-- A row is published after a step if it was before or if its update says that a publish
returned true. -/
theorem justified_of_does (hp : Consistent p d) (h : Does p d i p' d')
    (hrows : ∀ row ∈ d.rows.rows, row.status = .published → Justified d row) :
    ∀ row ∈ d'.rows.rows, row.status = .published → Justified d' row := by
  intro row hrow hpublished
  have hcalls := (calls_grow h).1
  have hstep := hp.rowStep h row.id
  rw [Table.find_of_mem hrow] at hstep
  generalize hfound : d.rows.find row.id = found at hstep
  cases hstep with
  | keeps => exact (hrows row (Table.mem_of_find hfound) hpublished).mono hcalls
  | enqueued _ hpending => cases hpending.symm.trans hpublished
  | marked old call hcall hid hlock =>
      cases hok : call.ok with
      | true =>
          exact ⟨call, hcalls call hcall, hok ▸ hid, hok, rfl⟩
      | false =>
          rw [hok] at hpublished
          have hold := hrows old (Table.mem_of_find hfound) hpublished
          exact hold.mono hcalls

/-- A published row stays published until a purge deletes it. -/
theorem published_of_does (hp : Consistent p d) (h : Does p d i p' d') {row : OutboxEvent}
    (hrow : d.rows.find row.id = some row) (hpublished : row.status = .published) :
    (∃ row', d'.rows.find row.id = some row' ∧ row'.status = .published) ∨
      d'.rows.find row.id = none := by
  have hstep := hp.rowStep h row.id
  rw [hrow] at hstep
  generalize d'.rows.find row.id = found at hstep ⊢
  cases hstep with
  | keeps => exact .inl ⟨row, rfl, hpublished⟩
  | marked _ call hcall hid hlock =>
      refine .inl ⟨_, rfl, ?_⟩
      cases call.ok with
      | true => rfl
      | false => exact hpublished
  | purged _ started hstarted hexpired => exact .inr rfl

/-- Only the purge deletes, and only a published row it has found old enough. -/
theorem deleted_of_does (hp : Consistent p d) (h : Does p d i p' d') {row : OutboxEvent}
    (hrow : d.rows.find row.id = some row) (hgone : d'.rows.find row.id = none) :
    (∃ k, i = .deletePublished k) ∧ row.status = .published ∧
      ∃ time, row.publishedAt = some time ∧ time + keepPublishedMs < d.clock := by
  have hstep := hp.rowStep h row.id
  rw [hrow, hgone] at hstep
  cases hstep with
  | @purged k _ started hstarted hexpired =>
      obtain ⟨hpublished, time, htime, hlt⟩ := expired_iff.mp hexpired
      have hbegan := hp.purges started (List.mem_of_getElem? hstarted)
      exact ⟨⟨k, rfl⟩, hpublished, time, htime, hlt.trans_le hbegan⟩

/-- Whether a statement of the relay's transaction is taken. -/
def relayStep : Input → Bool
  | .select _ | .publishRows _ | .commit | .rollback => true
  | _ => false

/-- How a relay comes to hold a batch, and how it comes to mark it. -/
inductive RelayDoes (p : Instance) (d : Shared) : Input → Relay → Shared → Prop where
  | stays {i : Input} {d' : Shared} (hquiet : relayStep i = false) : RelayDoes p d i p.relay d'
  | empty {i : Input} {d' : Shared} {relay : Relay} (hselected : ∀ rows, relay ≠ .selected rows)
      (hmarking : ∀ rows done failed time, relay ≠ .marking rows done failed time) :
      RelayDoes p d i relay d'
  | selects {chosen : List Uuid} {d' : Shared} (hchosen : selectable d chosen) :
      RelayDoes p d (.select chosen) (.selected (batch d chosen)) d'
  | publishes {results : Message → Bool} {rows : List Message} (hrelay : p.relay = .selected rows) :
      RelayDoes p d (.publishRows results)
        (.marking rows (rows.filter results) (rows.filter fun m => !results m) d.clock)
        { d with calls := batchCalls results d.clock rows ++ d.calls }

theorem relay_of_does (h : Does p d i p' d') : RelayDoes p d i p'.relay d' := by
  cases h with
  | begins hrelay => exact .empty (by simp) (by simp)
  | selects hrelay hchosen => exact .selects hchosen
  | relays rows hrelay => exact .publishes hrelay
  | commits rows done failed time hrelay => exact .empty (by simp) (by simp)
  | givesUp hrelay => exact .empty (by simp) (by simp)
  | aborts rows done failed time hrelay => exact .empty (by simp) (by simp)
  | _ => exact .stays rfl

end Steps

/-! ## All instances -/

/-- Every published row was published, every instance may rely on its batch, and no two
instances hold the same row. -/
structure Inv (s : Service) : Prop where
  justified : ∀ row ∈ s.data.rows.rows, row.status = .published → Justified s.data row
  client : ∀ c, Consistent (s.client c) s.data
  disjoint : ∀ c c', c ≠ c' → List.Disjoint (ids (held (s.client c))) (ids (held (s.client c')))

section Runs
variable {l : ℕ × Input} {s t : Service}

theorem start_inv : Inv start where
  justified := fun _ hrow => absurd hrow List.not_mem_nil
  client := fun _ => by
    refine ⟨?_, ?_, List.nodup_nil, ?_, ?_⟩
    · exact fun _ hcall => absurd hcall List.not_mem_nil
    · exact fun _ hstarted => absurd hstarted List.not_mem_nil
    · exact fun _ hid => absurd hid List.not_mem_nil
    · intro rows done failed time hmarking
      cases hmarking
  disjoint := fun _ _ _ => List.disjoint_nil_left _

theorem Inv.next (h : Inv s) (hnext : Interleaving.next step l s = some t) : Inv t := by
  have hdoes := step_does (next_self hnext)
  have hown := h.client l.1
  have hother : ∀ c, c ≠ l.1 → t.client c = s.client c := fun c hc => next_other hnext hc
  -- what the moving instance newly holds was free, so no other instance held it
  have hapart : ∀ c, c ≠ l.1 → List.Disjoint (ids (held (t.client l.1))) (ids (held (t.client c))) := by
    intro c hc id hnew hold
    rw [hother c hc] at hold
    rcases held_of_does hdoes id hnew with hheld | hfree
    · exact h.disjoint l.1 c hc.symm hheld hold
    · exact hfree ((h.client c).batch id hold).1
  refine ⟨justified_of_does hown hdoes h.justified, fun c => ?_, fun c c' hne => ?_⟩
  · by_cases hc : c = l.1
    · subst hc
      exact hown.own hdoes
    · rw [hother c hc]
      exact (h.client c).other hown (h.disjoint l.1 c (Ne.symm hc)) hdoes
  · by_cases hc : c = l.1
    · subst hc
      exact hapart c' hne.symm
    · by_cases hc' : c' = l.1
      · subst hc'
        exact (hapart c hc).symm
      · rw [hother c hc, hother c' hc']
        exact h.disjoint c c' hne

/-! ## The course of a relay transaction -/

abbrev Happening := Event (ℕ × Input) Service

/-- Not a statement of the relay of `c`. -/
def Quiet (c : ℕ) (e : Happening) : Prop := e.label.1 = c → relayStep e.label.2 = false

/-- The relay of `c` selects these rows. -/
def Selects (c : ℕ) (rows : List Message) (e : Happening) : Prop :=
  ∃ chosen, e.label = (c, .select chosen) ∧ selectable e.pre.data chosen ∧
    rows = batch e.pre.data chosen

/-- The relay of `c` publishes each of these rows once. -/
structure Publishes (c : ℕ) (rows : List Message) (results : Message → Bool) (time : Time)
    (e : Happening) : Prop where
  label : e.label = (c, .publishRows results)
  clock : e.pre.data.clock = time
  calls : e.post.data.calls = batchCalls results time rows ++ e.pre.data.calls

/-- The open transaction of `c` has selected its rows and done nothing else yet. -/
def Selected (c : ℕ) (rows : List Message) (tr : List Happening) : Prop :=
  ∃ before sel after, tr = before ++ sel :: after ∧ Selects c rows sel ∧ ∀ e ∈ after, Quiet c e

/-- The open transaction of `c` has selected its rows, then published them, and that is all. -/
def Relayed (c : ℕ) (rows : List Message) (results : Message → Bool) (time : Time)
    (tr : List Happening) : Prop :=
  ∃ before pub after, tr = before ++ pub :: after ∧ Selected c rows before ∧
    Publishes c rows results time pub ∧ ∀ e ∈ after, Quiet c e

theorem quiet_snoc {c : ℕ} {after : List Happening} {e : Happening} (h : ∀ x ∈ after, Quiet c x)
    (he : Quiet c e) : ∀ x ∈ after ++ [e], Quiet c x := by
  intro x hx
  rcases List.mem_append.mp hx with hold | hnew
  · exact h x hold
  · rw [List.mem_singleton.mp hnew]
    exact he

theorem Selected.snoc {c : ℕ} {rows : List Message} {tr : List Happening} {e : Happening}
    (h : Selected c rows tr) (he : Quiet c e) : Selected c rows (tr ++ [e]) := by
  obtain ⟨before, sel, after, rfl, hsel, hquiet⟩ := h
  exact ⟨before, sel, after ++ [e], by simp, hsel, quiet_snoc hquiet he⟩

theorem Relayed.snoc {c : ℕ} {rows : List Message} {results : Message → Bool} {time : Time}
    {tr : List Happening} {e : Happening} (h : Relayed c rows results time tr) (he : Quiet c e) :
    Relayed c rows results time (tr ++ [e]) := by
  obtain ⟨before, pub, after, rfl, hbefore, hpub, hquiet⟩ := h
  exact ⟨before, pub, after ++ [e], by simp, hbefore, hpub, quiet_snoc hquiet he⟩

/-- A relay that holds a batch got there by one select, and one that marks a batch by one select
and one round of publishing. -/
structure History (tr : List Happening) (s : Service) : Prop where
  selected : ∀ c rows, (s.client c).relay = .selected rows → Selected c rows tr
  marking : ∀ c rows done failed time, (s.client c).relay = .marking rows done failed time →
    ∃ results : Message → Bool, done = rows.filter results ∧
      failed = (rows.filter fun m => !results m) ∧ Relayed c rows results time tr

theorem History.next {tr : List Happening} (h : History tr s)
    (hnext : Interleaving.next step l s = some t) : History (tr ++ [⟨s, l, t⟩]) t := by
  have hrelay := relay_of_does (step_does (next_self hnext))
  have hother : ∀ c, c ≠ l.1 → (t.client c).relay = (s.client c).relay ∧ Quiet c ⟨s, l, t⟩ := by
    intro c hc
    rw [next_other hnext hc]
    exact ⟨rfl, fun he => absurd he.symm hc⟩
  obtain ⟨c₀, i⟩ := l
  dsimp only at hrelay hother
  refine ⟨fun c rows hselected => ?_, fun c rows done failed time hmarking => ?_⟩
  · by_cases hc : c = c₀
    · subst hc
      generalize hafter : (t.client c).relay = after at hrelay hselected
      generalize hdata : t.data = d' at hrelay
      cases hrelay with
      | stays hquiet => exact (h.selected c rows hselected).snoc fun _ => hquiet
      | empty hno _ => exact absurd hselected (hno rows)
      | @selects chosen _ hchosen =>
          cases hselected
          exact ⟨tr, ⟨s, (c, .select chosen), t⟩, [], rfl, ⟨chosen, rfl, hchosen, rfl⟩,
            fun e he => absurd he List.not_mem_nil⟩
      | publishes hbefore => cases hselected
    · obtain ⟨hsame, hquiet⟩ := hother c hc
      exact (h.selected c rows (hsame ▸ hselected)).snoc hquiet
  · by_cases hc : c = c₀
    · subst hc
      generalize hafter : (t.client c).relay = after at hrelay hmarking
      generalize hdata : t.data = d' at hrelay
      cases hrelay with
      | stays hquiet =>
          obtain ⟨results, hdone, hfailed, hrelayed⟩ := h.marking c rows done failed time hmarking
          exact ⟨results, hdone, hfailed, hrelayed.snoc fun _ => hquiet⟩
      | empty _ hno => exact absurd hmarking (hno rows done failed time)
      | selects hchosen => cases hmarking
      | @publishes results rows hbefore =>
          cases hmarking
          have hpublishes : Publishes c rows results s.data.clock
              ⟨s, (c, .publishRows results), t⟩ := ⟨rfl, rfl, by rw [hdata]⟩
          exact ⟨results, rfl, rfl, tr, _, [], rfl, h.selected c rows hbefore, hpublishes,
            fun e he => absurd he List.not_mem_nil⟩
    · obtain ⟨hsame, hquiet⟩ := hother c hc
      obtain ⟨results, hdone, hfailed, hrelayed⟩ :=
        h.marking c rows done failed time (hsame ▸ hmarking)
      exact ⟨results, hdone, hfailed, hrelayed.snoc hquiet⟩

/-- What a purge has done to the row. -/
def Deletes (id : Uuid) (e : Happening) : Prop :=
  e.pre.data.rows.find id ≠ none ∧ e.post.data.rows.find id = none

/-- The bookkeeping over the part `tr₂` of a run, after any part `tr₁`. -/
structure Bookkept (tr₁ : List Happening) (s₁ : Service) (tr₂ : List Happening) (s₂ : Service) :
    Prop where
  /-- A published row was published. -/
  published : ∀ row ∈ s₂.data.rows.rows, row.status = .published →
    ∃ call ∈ s₂.data.calls, call.row.messageId = row.id ∧ call.ok = true
  /-- No status goes back. -/
  stays : ∀ row ∈ s₁.data.rows.rows, row.status = .published →
    (∃ row' ∈ s₂.data.rows.rows, row'.id = row.id ∧ row'.status = .published) ∨
      ∃ e ∈ tr₂, Deletes row.id e
  /-- A relay publishes what its own transaction holds, and no two of them hold the same row. -/
  own : ∀ e ∈ tr₂, ∀ c results, e.label = (c, .publishRows results) →
    e.post.data.calls =
      batchCalls results e.pre.data.clock (held (e.pre.client c)) ++ e.pre.data.calls ∧
    ∀ c', c ≠ c' → List.Disjoint (ids (held (e.pre.client c))) (ids (held (e.pre.client c')))
  disjoint : ∀ c c', c ≠ c' →
    List.Disjoint (ids (held (s₂.client c))) (ids (held (s₂.client c')))
  /-- A batch that is to be marked has been published in one round. -/
  once : ∀ c rows done failed time, (s₂.client c).relay = .marking rows done failed time →
    (ids rows).Nodup ∧ ∃ results, Relayed c rows results time (tr₁ ++ tr₂)
  /-- A commit marks each row of its batch by what its own publish returned. -/
  marked : ∀ before e after c, tr₂ = before ++ e :: after → e.label = (c, .commit) →
    ∃ rows results time, (ids rows).Nodup ∧ Relayed c rows results time (tr₁ ++ before) ∧
      ∀ m ∈ rows, ∃ row, e.pre.data.rows.find m.messageId = some row ∧ row.status = .pending ∧
        e.post.data.rows.find m.messageId = some (markRow (results m) time row)
  /-- A row goes by the purge, long after a publish of it that returned true. -/
  deleted : ∀ e ∈ tr₂, ∀ row ∈ e.pre.data.rows.rows, e.post.data.rows.find row.id = none →
    (∃ c k, e.label = (c, .deletePublished k)) ∧ row.status = .published ∧
      ∃ call ∈ e.pre.data.calls, call.row.messageId = row.id ∧ call.ok = true ∧
        row.publishedAt = some call.time ∧ call.time + keepPublishedMs < e.pre.data.clock

section Outcome
variable {tr tr₁ tr₂ : List Happening} {s₁ s₂ : Service}

theorem run_inv (h : Run (Interleaving.next step) start tr s) : Inv s :=
  h.invariant Inv start_inv fun _ _ _ hi hl => hi.next hl

theorem run_history (h : Run (Interleaving.next step) start tr s) : History tr s := by
  refine h.history (fun _ => True) History ⟨?_, ?_⟩ (fun _ _ _ _ hi hl _ => hi.next hl)
    fun _ _ => trivial
  · intro c rows hselected
    cases hselected
  · intro c rows done failed time hmarking
    cases hmarking

/-- From any state of a run on, a published row stays so until it is deleted. -/
theorem published_stays (hi : Inv s₁) (h : Run (Interleaving.next step) s₁ tr₂ s₂) {id : Uuid}
    (hrow : ∃ row, s₁.data.rows.find id = some row ∧ row.status = .published) :
    (∃ row, s₂.data.rows.find id = some row ∧ row.status = .published) ∨
      ∃ e ∈ tr₂, Deletes id e := by
  induction h with
  | start => exact .inl hrow
  | @step tr s t l hrun hl ih =>
      rcases ih with ⟨row, hfind, hpublished⟩ | ⟨e, he, hdeletes⟩
      · have hs : Inv s := hrun.invariant Inv hi fun _ _ _ hi hl => hi.next hl
        have hid : row.id = id := Table.find_key hfind
        have hkept := published_of_does (hs.client l.1) (step_does (next_self hl))
          (hid.symm ▸ hfind) hpublished
        rw [hid] at hkept
        refine hkept.imp_right fun hgone => ⟨⟨s, l, t⟩, by simp, ?_, hgone⟩
        simp [hfind]
      · exact .inr ⟨e, List.mem_append_left _ he, hdeletes⟩

/-- A commit, as the history of its transaction has it. -/
theorem commit_marks (hi : Inv s) (hh : History tr s) {c : ℕ}
    (hnext : Interleaving.next step (c, .commit) s = some t) :
    ∃ rows results time, (ids rows).Nodup ∧ Relayed c rows results time tr ∧
      ∀ m ∈ rows, ∃ row, s.data.rows.find m.messageId = some row ∧ row.status = .pending ∧
        t.data.rows.find m.messageId = some (markRow (results m) time row) := by
  have hdoes := step_does (next_self hnext)
  dsimp only at hdoes
  generalize hdata : t.data = d' at hdoes
  generalize hclient : t.client c = p' at hdoes
  cases hdoes with
  | commits rows done failed time hrelay =>
      obtain ⟨results, rfl, rfl, hrelayed⟩ := hh.marking c rows done failed time hrelay
      have hheld : held (s.client c) = rows := by rw [held, hrelay]
      have hnodup : (ids rows).Nodup := hheld ▸ (hi.client c).nodup
      refine ⟨rows, results, time, hnodup, hrelayed, fun m hm => ?_⟩
      have hid : m.messageId ∈ ids (held (s.client c)) := hheld ▸ List.mem_map_of_mem hm
      obtain ⟨-, row, hrow, hpending⟩ := (hi.client c).batch m.messageId hid
      refine ⟨row, hrow, hpending, ?_⟩
      have hfind := find_markAll_split s.data.rows hnodup results time hm
      rw [hrow] at hfind
      exact hfind

/-- A relay publishes the batch it holds. -/
theorem publishRows_calls {c : ℕ} {results : Message → Bool}
    (hnext : Interleaving.next step (c, .publishRows results) s = some t) :
    t.data.calls = batchCalls results s.data.clock (held (s.client c)) ++ s.data.calls := by
  have hdoes := step_does (next_self hnext)
  dsimp only at hdoes
  generalize hdata : t.data = d' at hdoes ⊢
  generalize hclient : t.client c = p' at hdoes
  cases hdoes with
  | relays rows hrelay => rw [held, hrelay]

end Outcome

end Runs

/-- Whatever the publishes return and whichever marks and relays fail: a published row was
published and stays so until it is seven days old, relays that are open together hold different
rows, and each of them publishes its batch once and marks it by the results. -/
theorem outbox_bookkeeping {tr₁ tr₂ : List Happening} {s₁ s₂ : Service}
    (h₁ : Run (Interleaving.next step) start tr₁ s₁)
    (h₂ : Run (Interleaving.next step) s₁ tr₂ s₂) : Bookkept tr₁ s₁ tr₂ s₂ := by
  have hi₁ := run_inv h₁
  have hi₂ := run_inv (h₁.trans h₂)
  have hat : ∀ before e after, tr₂ = before ++ e :: after →
      Run (Interleaving.next step) start (tr₁ ++ before) e.pre :=
    fun before e after htr => h₁.trans (h₂.split htr).1
  have hpre : ∀ e ∈ tr₂, Inv e.pre := by
    intro e he
    obtain ⟨before, after, htr⟩ := List.append_of_mem he
    exact run_inv (hat before e after htr)
  refine ⟨fun row hrow hpublished => ?_, fun row hrow hpublished => ?_,
    fun e he c results hlabel => ⟨?_, (hpre e he).disjoint c⟩, hi₂.disjoint,
    fun c rows done failed time hmarking => ?_, fun before e after c htr hlabel => ?_,
    fun e he row hrow hgone => ?_⟩
  · obtain ⟨call, hcall, hid, hok, -⟩ := hi₂.justified row hrow hpublished
    exact ⟨call, hcall, hid, hok⟩
  · have hfind := Table.find_of_mem hrow
    rcases published_stays hi₁ h₂ ⟨row, hfind, hpublished⟩ with ⟨row', hrow', hstatus⟩ | hdeleted
    · exact .inl ⟨row', Table.mem_of_find hrow', Table.find_key hrow', hstatus⟩
    · exact .inr hdeleted
  · have hnext := h₂.event_next e he
    rw [hlabel] at hnext
    exact publishRows_calls hnext
  · have hheld : held (s₂.client c) = rows := by rw [held, hmarking]
    obtain ⟨results, -, -, hrelayed⟩ :=
      (run_history (h₁.trans h₂)).marking c rows done failed time hmarking
    exact ⟨hheld ▸ (hi₂.client c).nodup, results, hrelayed⟩
  · have hnext := h₂.event_next e (by simp [htr])
    rw [hlabel] at hnext
    have hrun := hat before e after htr
    exact commit_marks (run_inv hrun) (run_history hrun) hnext
  · have hi := hpre e he
    have hdoes := step_does (next_self (h₂.event_next e he))
    obtain ⟨⟨k, hk⟩, hpublished, time, htime, hlt⟩ :=
      deleted_of_does (hi.client e.label.1) hdoes (Table.find_of_mem hrow) hgone
    obtain ⟨call, hcall, hid, hok, hstamp⟩ := hi.justified row hrow hpublished
    have htimes : time = call.time := Option.some.inj (htime.symm.trans hstamp)
    exact ⟨⟨e.label.1, k, by rw [← hk]⟩, hpublished, call, hcall, hid, hok, hstamp, htimes ▸ hlt⟩

/-- Two events of instance 0, of which the relay of instance 1 gets one published; eight days
later the purge of instance 0 runs. -/
def relayed : List (ℕ × Input) :=
  let event (id : Uuid) : NotificationPushEvent :=
    ⟨id, "notification.push", 0, 1, ⟨"", "", 0, "/"⟩, none⟩
  [(0, .enqueue "notification.push" (event 7)), (0, .enqueue "notification.push" (event 8)),
    (0, .publishNow (message (pendingRow "notification.push" (event 7))) false), (0, .mark 0 false),
    (1, .relayPending true), (1, .select [7, 8]), (0, .relayPending true), (0, .select []),
    (1, .publishRows fun m => m.messageId = 7), (1, .commit), (1, .elapse (8 * 86400000)),
    (0, .purgePublished), (0, .deletePublished 0)]

theorem outbox_bookkeeping_relayed : ∃ tr s, Run (Interleaving.next step) start tr s ∧
    s.data.rows.rows.map (fun row => (row.id, row.status, row.attempts)) = [(8, .pending, 1)] ∧
    s.data.calls.map (fun call => (call.row.messageId, call.ok)) =
      [(8, false), (7, true), (7, false)] ∧ Bookkept [] start tr s := by
  obtain ⟨tr, s, hrun, -, hs⟩ := Run.of_trace_map (Interleaving.next step) relayed start
    (fun _ s => (s.data.rows.rows.map fun row => (row.id, row.status, row.attempts),
      s.data.calls.map fun call => (call.row.messageId, call.ok)))
    ([(8, .pending, 1)], [(8, false), (7, true), (7, false)]) (by decide)
  exact ⟨tr, s, hrun, congrArg Prod.fst hs, congrArg Prod.snd hs, outbox_bookkeeping .start hrun⟩

end MaxOne.OutboxBookkeeping
