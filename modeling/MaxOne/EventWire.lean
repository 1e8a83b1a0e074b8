import MaxOne.Library.JsonText
import MaxOne.AuditTrail
import MaxOne.PriceAlerts
import MaxOne.NotificationConsumer

/-!
# Events from the outbox to a device

What `NotificationService.enqueue` writes travels as JSON: the request publishes the
event it holds, the relay what the column of type JSONB gives back, a consumer whose
push failed the message it has parsed. `PushService` sends the payload as JSON once
more, and the service worker shows it. `Travels` are the messages of one event.

Every event that the services write is one the consumer can act on, however it has
travelled, so a message of theirs is given up for its failed pushes only.
-/
namespace MaxOne.EventWire
open Library Library.Runs Library.Interleaving Library.Binary64 Library.ScriptValue
  Library.JsonText MaxOne.Schema MaxOne.WalletsService MaxOne.WalletsMachine MaxOne.MoneyRuns
  MaxOne.Events MaxOne.NotificationConsumer

/-! ## Texts -/

section Json
variable (uuid : Uuid → String) (iso : Time → String)

def payloadJson (payload : NotificationPayload) : Value :=
  .object [("title", .text payload.title), ("body", .text payload.body),
    ("tag", .text (uuid payload.tag)), ("url", .text payload.url)]

/-- The event as `enqueue` builds it; `occurredAt` is an ISO text. -/
def eventJson (e : Schema.NotificationPushEvent) : Value :=
  .object ([("id", .text (uuid e.id)), ("type", .text e.type),
    ("occurredAt", .text (iso e.occurredAt)), ("userId", .text (uuid e.userId)),
    ("payload", payloadJson uuid e.payload)] ++
      (e.requestId.map fun r => ("requestId", Value.text r)).toList)

end Json

/-- The messages that carry an event, by how often a consumer has put it back. A broker
may add headers of its own. -/
inductive Travels (f : NumberFormat) (event : Value) : ℕ → AmqpMessage → Prop
  /-- `publishNow` -/
  | published {headers : Option Value}
      (hheaders : headers.bind (fun table => table.get headerRetryCount) = none) :
      Travels f event 0 ⟨parse f (stringify f event), headers⟩
  /-- `relayPending` -/
  | relayed {column : Value} {headers : Option Value} (hcolumn : Rearranged event column)
      (hheaders : headers.bind (fun table => table.get headerRetryCount) = none) :
      Travels f event 0 ⟨parse f (stringify f column), headers⟩
  /-- `retryOrDead` -/
  | retried {n : ℕ} {msg : AmqpMessage} {o : Outcomes} {key : RoutingKey}
      {parsed : Events.NotificationPushEvent} {count : Number} {headers : Option Value}
      (h : Travels f event n msg) (hcopy : .publish key parsed count true ∈ handle msg o)
      (hheaders : headers.bind (fun table => table.get headerRetryCount) = some (.number count)) :
      Travels f event (n + 1) ⟨parse f (stringify f parsed.message), headers⟩

/-! ## The service worker -/

/-- What `showNotification` is called with; `none` is undefined. -/
structure Shown where
  title : Option Value
  body : Option Value
  tag : Option Value
  url : Option Value

/-- What `webpush.sendNotification` carries of an event. -/
def pushText (f : NumberFormat) (event : Events.NotificationPushEvent) : Option String :=
  (event.message.get "payload").map (stringify f)

/-- The listener of `push`; `none` when it throws. A focused window shows nothing. -/
def onPush (f : NumberFormat) (data : Option String) (focused : Bool) : Option (Option Shown) :=
  match data with
  | none => some (if focused then none else some ⟨none, none, none, none⟩)
  | some text =>
      match parse f text with
      | none => none
      | some .null => if focused then some none else none
      | some data => some (if focused then none
          else some ⟨data.get "title", data.get "body", data.get "tag", data.get "url"⟩)

/-- The listener of `notificationclick`: the page it opens. -/
def onNotificationClick (n : Shown) : Value :=
  match n.url with
  | some url => if url.truthy then url else .text "/"
  | none => .text "/"

/-! ## The events of the services -/

/-- An event the consumer can act on, for a page of the app. -/
structure Sound (e : Schema.NotificationPushEvent) : Prop where
  type_eq : e.type = "notification.push"
  url_ne : e.payload.url ≠ ""

/-- A statement writes sound events only. -/
def SoundWrite : Stmt → Prop
  | .createOutboxEvent row => Sound row.payload
  | _ => True

section Blocks
variable {draw : Draw} {P : Stmt → Prop}

theorem refuse_writes {c : Prop} [Decidable c] {e : HttpException} {b : TxBlock}
    (h : b.Writes P) : (if c then .fail e else b : TxBlock).Writes P := by
  split_ifs with hc
  · trivial
  · exact h

theorem withInt4_writes {z : ℤ} {next : Int4 → TxBlock} (h : ∀ v, (next v).Writes P) :
    (withInt4 z next).Writes P := by
  unfold withInt4
  split
  · trivial
  · exact h _

theorem withRate_writes {rate : Option Rates.Decimal} {next : Option DecimalRounding.Dec → TxBlock}
    (h : ∀ column, (next column).Writes P) : (withRate rate next).Writes P := by
  unfold withRate
  split
  · exact h none
  · split
    · trivial
    · exact h _

theorem lockWallet_writes {id : Uuid} {next : Option Wallet → TxBlock}
    (h : ∀ wallet, (next wallet).Writes P) : (lockWallet id next).Writes P := by
  intro row
  cases row with
  | none => exact h none
  | some row => cases row <;> exact h _

theorem lockTransaction_writes {id : Uuid} {next : Option Transaction → TxBlock}
    (h : ∀ txn, (next txn).Writes P) : (lockTransaction id next).Writes P := by
  intro row
  cases row with
  | none => exact h none
  | some row => cases row <;> exact h _

/-- Every event of the wallets is for the home page. -/
theorem pushEvent_sound {userId : Uuid} {payload : NotificationPayload} (h : payload.url = "/") :
    Sound (WalletsService.pushEvent draw userId payload) where
  type_eq := rfl
  url_ne := by
    change payload.url ≠ ""
    rw [h]
    decide

theorem approvalPayload_url (txn : Transaction) (currency : String) :
    (approvalPayload txn currency).url = "/" := by
  unfold approvalPayload
  split_ifs <;> rfl

theorem rejectionPayload_url (txn : Transaction) (currency : String) :
    (rejectionPayload txn currency).url = "/" := by
  unfold rejectionPayload
  split_ifs <;> rfl

theorem depositBlock_writes (id : Uuid) (actor : AuthUser) (dto : MoneyAmountDto) :
    (depositBlock id actor dto draw).Writes SoundWrite := by
  refine lockWallet_writes fun wallet => ?_
  cases wallet with
  | none => trivial
  | some wallet =>
      refine withInt4_writes fun after => ⟨trivial, withInt4_writes fun amount => ?_⟩
      exact ⟨trivial, trivial, pushEvent_sound rfl, trivial⟩

theorem approveBlock_writes (txnId : Uuid) (actor : AuthUser) :
    (approveBlock txnId actor draw).Writes SoundWrite := by
  refine lockTransaction_writes fun txn => ?_
  cases txn with
  | none => trivial
  | some txn =>
      refine refuse_writes (lockWallet_writes fun wallet => ?_)
      cases wallet with
      | none => trivial
      | some wallet =>
          dsimp only
          cases approvedBalance txn wallet.balance.val with
          | error e => trivial
          | ok after =>
              refine withInt4_writes fun after => ?_
              exact ⟨trivial, trivial, trivial, pushEvent_sound (approvalPayload_url _ _), trivial⟩

theorem rejectBlock_writes (txnId : Uuid) (actor : AuthUser) (note : Option String) :
    (rejectBlock txnId actor note draw).Writes SoundWrite := by
  refine lockTransaction_writes fun txn => ?_
  cases txn with
  | none => trivial
  | some txn =>
      refine refuse_writes ⟨trivial, trivial, fun owner => ?_⟩
      cases owner with
      | none => trivial
      | some owner => exact ⟨pushEvent_sound (rejectionPayload_url _ _), trivial⟩

theorem adjustBlock_writes (walletId : Uuid) (dto : AdjustmentDto) (actor : AuthUser) :
    (adjustBlock walletId dto actor draw).Writes SoundWrite := by
  refine lockWallet_writes fun wallet => ?_
  cases wallet with
  | none => trivial
  | some wallet =>
      refine refuse_writes (withInt4_writes fun after => ⟨trivial, withInt4_writes fun amount => ?_⟩)
      exact ⟨trivial, trivial, trivial⟩

theorem transferFound_writes (a : TransferArgs) (source dest : Option Wallet) :
    (transferFound a draw source dest).Writes SoundWrite := by
  unfold transferFound
  split
  · trivial
  · trivial
  · next source dest =>
      refine refuse_writes (withInt4_writes fun fromAfter => ⟨trivial, ?_⟩)
      cases a.credit with
      | none => trivial
      | some credit =>
          refine withInt4_writes fun toAfter => ⟨trivial, withRate_writes fun rate => ?_⟩
          refine withInt4_writes fun amount => ⟨trivial, withInt4_writes fun credited => ?_⟩
          exact ⟨trivial, trivial, pushEvent_sound rfl, trivial⟩

theorem transferBlock_writes (a : TransferArgs) : (transferBlock a draw).Writes SoundWrite := by
  unfold transferBlock
  split_ifs with horder
  · exact lockWallet_writes fun source => lockWallet_writes fun dest => transferFound_writes a _ _
  · exact lockWallet_writes fun dest => lockWallet_writes fun source => transferFound_writes a _ _

theorem block_writes (body : TxnBody) : (body.block draw).Writes SoundWrite := by
  cases body with
  | deposit id actor dto => exact depositBlock_writes id actor dto
  | review r =>
      cases r with
      | approve txnId actor => exact approveBlock_writes txnId actor
      | reject txnId actor note => exact rejectBlock_writes txnId actor note
  | adjust walletId dto actor => exact adjustBlock_writes walletId dto actor
  | transfer a => exact transferBlock_writes a

end Blocks

/-! ## Every event is sound -/

def SoundEvents (d : Db) : Prop := ∀ e ∈ AuditTrail.events d, Sound e

theorem SoundEvents.exec {w : Stmt} {d d' : Db} (hw : SoundWrite w) (hd : SoundEvents d)
    (h : w.exec d = some d') : SoundEvents d' := by
  have hsame : d'.outboxEvents = d.outboxEvents → SoundEvents d' := by
    intro heq e he
    rw [AuditTrail.events, heq] at he
    exact hd e he
  cases w with
  | updateWallet id balance =>
      refine hsame ?_
      rw [exec_updateWallet h]
      rfl
  | createTransaction row => exact hsame (Db.createTransaction_cases h).2.2.2
  | updateTransaction id settlement =>
      refine hsame ?_
      rw [exec_updateTransaction h]
      rfl
  | createAuditLog row => exact hsame (exec_createAuditLog h).2.2.1
  | createOutboxEvent row =>
      obtain ⟨-, -, -, ho⟩ := exec_createOutboxEvent h
      intro e he
      rw [AuditTrail.events, Table.insert_rows ho, List.map_append, List.mem_append] at he
      rcases he with hold | hnew
      · exact hd e hold
      · rw [List.map_singleton, List.mem_singleton] at hnew
        exact hnew ▸ hw

theorem SoundEvents.next {s t : Pool Shared Pc}
    {l : ℕ × LockedBlocks.Input Input HttpException} (h : SoundEvents s.data.db)
    (hn : Interleaving.next moneyStep l s = some t) : SoundEvents t.data.db := by
  obtain ⟨q, s', hstep, rfl⟩ := next_cases hn
  obtain ⟨i, -, hi⟩ | ⟨body, draw, r, -, hc, -⟩ | ⟨body, draw, e, -, -, rfl⟩ :=
    moneyStep_cases hstep
  · intro e he
    rw [(AuditTrail.step_keeps hi).2.2] at he
    exact h e he
  · refine LockedBlocks.Store.runOn_writes (G := fun s => SoundEvents s.db) ?_ (block_writes body) h
      hc
    intro w acc acc' hw hacc hexec
    obtain ⟨db, hdb, rfl⟩ := Option.map_eq_some_iff.mp hexec
    exact hacc.exec hw hdb
  · exact h

theorem run_soundEvents {users : Uuid → Option Account} {s : Machine}
    {tr : MoneyRuns.Trace} (h : Run MoneyRuns.next (MoneyRuns.start ⟨.empty, users, [], []⟩) tr s) :
    SoundEvents s.data.db := by
  obtain ⟨us, hus, -⟩ := LockedBlocks.run_refines (Q := program) (LockedBlocks.State.idle_ok _ _) h
  have hstart : SoundEvents (MoneyRuns.start ⟨.empty, users, [], []⟩).abs.data.db :=
    fun e he => absurd he List.not_mem_nil
  exact hus.invariant (fun s => SoundEvents s.data.db) hstart fun _ _ _ hs hn => hs.next hn

theorem run_soundAlerts {format : Number → String} {s : PriceAlerts.Service}
    {tr : List (Event (ℕ × PriceAlerts.Input) PriceAlerts.Service)}
    (h : Run (Interleaving.next (PriceAlerts.step format)) PriceAlerts.start tr s) :
    ∀ e ∈ s.data.events, Sound e := by
  refine h.invariant (fun s => ∀ e ∈ s.data.events, Sound e) (fun e he => absurd he List.not_mem_nil)
    fun l s t hs hn => ?_
  obtain ⟨p', d', hstep, rfl⟩ := next_cases hn
  generalize l.2 = i at hstep
  generalize s.client l.1 = p at hstep
  cases PriceAlerts.step_does hstep with
  | commit eventIds now fired ids triggeredAt =>
      intro e he
      rcases List.mem_append.mp he with hold | hnew
      · exact hs e hold
      · obtain ⟨f, -, rfl⟩ := List.mem_map.mp hnew
        exact ⟨rfl, (by decide : "/alerts" ≠ "")⟩
  | _ => exact hs

/-- The events of the wallets and of the price alerts, in any run. -/
inductive Enqueued (format : Number → String) : Schema.NotificationPushEvent → Prop
  | money {users : Uuid → Option Account} {s : Machine} {tr : MoneyRuns.Trace} {row : OutboxEvent}
      (h : Run MoneyRuns.next (MoneyRuns.start ⟨.empty, users, [], []⟩) tr s)
      (hrow : row ∈ s.data.db.outboxEvents.rows) : Enqueued format row.payload
  | alert {s : PriceAlerts.Service} {tr : List (Event (ℕ × PriceAlerts.Input) PriceAlerts.Service)}
      {e : Schema.NotificationPushEvent}
      (h : Run (Interleaving.next (PriceAlerts.step format)) PriceAlerts.start tr s)
      (he : e ∈ s.data.events) : Enqueued format e

theorem Enqueued.sound {format : Number → String} {e : Schema.NotificationPushEvent}
    (h : Enqueued format e) : Sound e := by
  cases h with
  | money hrun hrow => exact run_soundEvents hrun _ (List.mem_map_of_mem hrow)
  | alert hrun he => exact run_soundAlerts hrun e he

/-! ## What the consumer reads -/

section Reads
variable {f : NumberFormat} {uuid : Uuid → String} {iso : Time → String}
  {e : Schema.NotificationPushEvent} {v : Value}

theorem payloadJson_exact (payload : NotificationPayload) : Exact f (payloadJson uuid payload) := by
  refine ⟨(by decide : ["title", "body", "tag", "url"].Nodup), ?_⟩
  simp [FieldsExact, Exact]

theorem eventJson_exact : Exact f (eventJson uuid iso e) := by
  have hpayload := @payloadJson_exact f uuid e.payload
  cases hrequest : e.requestId with
  | none =>
      rw [eventJson, hrequest]
      exact ⟨(by decide : ["id", "type", "occurredAt", "userId", "payload"].Nodup),
        by simp [FieldsExact, Exact, hpayload]⟩
  | some r =>
      rw [eventJson, hrequest]
      exact ⟨(by decide : ["id", "type", "occurredAt", "userId", "payload", "requestId"].Nodup),
        by simp [FieldsExact, Exact, hpayload]⟩

/-- A text field of the event, wherever it stands. -/
theorem text_of_rearranged {w : Value} (h : Rearranged w v) (hw : Exact f w) {k s : String}
    (hget : w.get k = some (.text s)) : v.get k = some (.text s) := by
  obtain ⟨y, hy, hsame⟩ := h.get hw hget
  rw [hy, hsame.text rfl]

theorem eventJson_get {k : String} {x : Value}
    (h : (k, x) ∈ [("id", Value.text (uuid e.id)), ("type", .text e.type),
      ("userId", .text (uuid e.userId)), ("payload", payloadJson uuid e.payload)]) :
    (eventJson uuid iso e).get k = some x := by
  refine (get_object (@eventJson_exact wholeNumbers uuid iso e).1).mpr (List.mem_append_left _ ?_)
  simp only [List.mem_cons, List.not_mem_nil, or_false] at h ⊢
  rcases h with h | h | h | h <;> simp [h]

theorem payloadJson_get {k : String} {x : Value} {payload : NotificationPayload}
    (h : (k, x) ∈ [("title", Value.text payload.title), ("body", .text payload.body),
      ("tag", .text (uuid payload.tag)), ("url", .text payload.url)]) :
    (payloadJson uuid payload).get k = some x :=
  (get_object (@payloadJson_exact wholeNumbers uuid payload).1).mpr h

/-- The payload of a sound event, in the message it came in. -/
theorem payload_of_rearranged (h : Rearranged (eventJson uuid iso e) v) :
    ∃ p, v.get "payload" = some p ∧ Rearranged (payloadJson uuid e.payload) p :=
  h.get (@eventJson_exact wholeNumbers uuid iso e) (eventJson_get (by simp))

/-- A sound event passes the check of the consumer. -/
theorem parse_of_rearranged (he : Sound e) (h : Rearranged (eventJson uuid iso e) v) :
    parseNotificationPushEvent (some v) = .ok ⟨uuid e.id, uuid e.userId, v⟩ := by
  have hexact := @eventJson_exact wholeNumbers uuid iso e
  obtain ⟨p, hp, hpayload⟩ := payload_of_rearranged h
  have hinner := @payloadJson_exact wholeNumbers uuid e.payload
  have hid : v.get "id" = some (.text (uuid e.id)) :=
    text_of_rearranged h hexact (eventJson_get (by simp))
  have htype : v.get "type" = some (.text e.type) :=
    text_of_rearranged h hexact (eventJson_get (by simp))
  have huser : v.get "userId" = some (.text (uuid e.userId)) :=
    text_of_rearranged h hexact (eventJson_get (by simp))
  have htitle : p.get "title" = some (.text e.payload.title) :=
    text_of_rearranged hpayload hinner (payloadJson_get (by simp))
  have hbody : p.get "body" = some (.text e.payload.body) :=
    text_of_rearranged hpayload hinner (payloadJson_get (by simp))
  obtain ⟨fs, rfl⟩ := hpayload.object rfl
  have hshape : checkShape v = some ⟨uuid e.id, uuid e.userId, v⟩ := by
    simp [checkShape, hid, htype, huser, hp, htitle, hbody, Value.text?, Value.truthy, he.type_eq]
  rw [parseNotificationPushEvent, hshape]

end Reads

/-! ## On the way -/

section Travels
variable {f : NumberFormat} {uuid : Uuid → String} {iso : Time → String}
  {e : Schema.NotificationPushEvent} {n : ℕ} {msg : AmqpMessage}

/-- A copy that was taken comes from a push that failed, and counts one more. -/
theorem copy_of_handle {o : Outcomes} {key : RoutingKey} {parsed : Events.NotificationPushEvent}
    {count : Number} {v : Value} (hcontent : msg.content = some v) {id userId : String}
    (hparse : parseNotificationPushEvent (some v) = .ok ⟨id, userId, v⟩)
    (hcount : retryCount msg = some (.finite n)) (hn : n ≤ maxRetries)
    (hcopy : .publish key parsed count true ∈ handle msg o) :
    o.pushError ≠ none ∧ parsed.message = v ∧ n + 1 ≤ maxRetries ∧ count = .finite (n + 1 : ℕ) ∧
      key = .notificationPushRetry count := by
  rw [← hcontent] at hparse
  cases hdone : o.cached.any Value.truthy with
  | true =>
      rw [handle_done hparse hdone] at hcopy
      simp at hcopy
  | false =>
      by_cases hpush : o.pushError = none
      · rw [handle_pushed hparse hdone hpush] at hcopy
        simp at hcopy
      · rw [handle_failed hparse hdone hpush] at hcopy
        simp only [List.mem_cons, reduceCtorEq, false_or] at hcopy
        by_cases hlast : n = maxRetries
        · have hmax : (Number.finite maxRetries).le (.finite n) = true := by
            rw [hlast]
            decide
          rw [retryOrDead_used_up hcount hmax] at hcopy
          simp at hcopy
        · have hlt : n < maxRetries := lt_of_le_of_ne hn hlast
          have hcases : n = 0 ∨ n = 1 ∨ n = 2 := by
            have hthree : maxRetries = 3 := rfl
            omega
          have hmax : (Number.finite maxRetries).le (.finite n) = false := by
            rcases hcases with rfl | rfl | rfl <;> decide
          have hnext : (Number.finite n).add (.finite 1) = .finite (n + 1 : ℕ) := by
            rcases hcases with rfl | rfl | rfl
            · exact ofRat_add_one_eq_one.mpr (by norm_num)
            · exact ofRat_add_one_eq_two.mpr (by norm_num)
            · exact ofRat_add_one_eq_three.mpr (by norm_num)
          rw [retryOrDead_copy hcount hmax] at hcopy
          simp only [List.mem_cons, Command.publish.injEq, List.not_mem_nil, or_false] at hcopy
          rcases hcopy with ⟨rfl, rfl, rfl, -⟩ | hverdict
          · exact ⟨hpush, rfl, hlt, hnext, rfl⟩
          · split at hverdict <;> cases hverdict

/-- Every message of a sound event holds the event and its count. -/
theorem Travels.carries (he : Sound e) (h : Travels f (eventJson uuid iso e) n msg) :
    ∃ v, msg.content = some v ∧ Rearranged (eventJson uuid iso e) v ∧
      retryCount msg = some (.finite n) ∧ n ≤ maxRetries := by
  have hexact := @eventJson_exact f uuid iso e
  induction h with
  | published hheaders =>
      refine ⟨eventJson uuid iso e, parse_stringify f hexact, .refl _, ?_, Nat.zero_le _⟩
      simp [retryCount, hheaders]
  | @relayed column _ hcolumn hheaders =>
      refine ⟨column, parse_stringify f (hcolumn.exact hexact), hcolumn, ?_, Nat.zero_le _⟩
      simp [retryCount, hheaders]
  | @retried n msg o key parsed count headers h hcopy hheaders ih =>
      obtain ⟨v, hcontent, hsame, hcount, hn⟩ := ih
      obtain ⟨-, hmessage, hnext, rfl, -⟩ :=
        copy_of_handle hcontent (parse_of_rearranged he hsame) hcount hn hcopy
      refine ⟨v, ?_, hsame, ?_, hnext⟩
      · rw [hmessage]
        exact parse_stringify f (hsame.exact hexact)
      · simp [retryCount, hheaders, Value.toNumber]

/-- A push that fails before the last attempt puts the event back. -/
theorem Travels.again (he : Sound e) (h : Travels f (eventJson uuid iso e) n msg)
    (hn : n < maxRetries) : ∃ copy, Travels f (eventJson uuid iso e) (n + 1) copy := by
  obtain ⟨v, hcontent, hsame, hcount, -⟩ := h.carries he
  have hparse := parse_of_rearranged he hsame
  rw [← hcontent] at hparse
  have hmax : (Number.finite maxRetries).le (.finite n) = false := by
    have hlt : (n : ℚ) < (maxRetries : ℕ) := by exact_mod_cast hn
    simpa [Number.le] using hlt
  let o : Outcomes := ⟨none, some "503: unavailable", true⟩
  have hcommands := handle_failed (o := o) hparse rfl (Option.some_ne_none _)
  rw [retryOrDead_copy hcount hmax] at hcommands
  have hcopy : .publish (.notificationPushRetry ((Number.finite n).add (.finite 1)))
      ⟨uuid e.id, uuid e.userId, v⟩ ((Number.finite n).add (.finite 1)) true ∈ handle msg o := by
    rw [hcommands]
    exact List.mem_cons_of_mem _ (List.mem_cons_of_mem _ List.mem_cons_self)
  have hheaders : (some (Value.object [(headerRetryCount,
      .number ((Number.finite n).add (.finite 1)))])).bind (fun table => table.get headerRetryCount) =
      some (.number ((Number.finite n).add (.finite 1))) := by simp [Value.get]
  exact ⟨_, h.retried hcopy hheaders⟩

/-- A message is given up when its push has failed at every attempt. -/
theorem given_up {o : Outcomes} {event : Events.NotificationPushEvent}
    (hparse : parseNotificationPushEvent msg.content = .ok event)
    (hcount : retryCount msg = some (.finite n)) (hn : n ≤ maxRetries)
    (hnack : .nack false ∈ handle msg o) : n = maxRetries ∧ o.pushError ≠ none := by
  cases hdone : o.cached.any Value.truthy with
  | true =>
      rw [handle_done hparse hdone] at hnack
      simp at hnack
  | false =>
      by_cases hpush : o.pushError = none
      · rw [handle_pushed hparse hdone hpush] at hnack
        simp at hnack
      · refine ⟨?_, hpush⟩
        rw [handle_failed hparse hdone hpush] at hnack
        simp only [List.mem_cons, reduceCtorEq, false_or] at hnack
        by_contra hlast
        have hmax : (Number.finite maxRetries).le (.finite n) = false := by
          have hlt : (n : ℚ) < (maxRetries : ℕ) := by
            exact_mod_cast lt_of_le_of_ne hn hlast
          simpa [Number.le] using hlt
        rw [retryOrDead_copy hcount hmax] at hnack
        cases hpublished : o.published <;> simp [hpublished] at hnack

end Travels

/-! ## On the device -/

/-- The notification of a payload. -/
def shown (uuid : Uuid → String) (payload : NotificationPayload) : Shown where
  title := some (.text payload.title)
  body := some (.text payload.body)
  tag := some (.text (uuid payload.tag))
  url := some (.text payload.url)

theorem onPush_rearranged {f : NumberFormat} {uuid : Uuid → String} {payload : NotificationPayload}
    {p : Value} (h : Rearranged (payloadJson uuid payload) p) :
    onPush f (some (stringify f p)) false = some (some (shown uuid payload)) := by
  have hexact := @payloadJson_exact f uuid payload
  have htitle : p.get "title" = some (.text payload.title) :=
    text_of_rearranged h hexact (payloadJson_get (by simp))
  have hbody : p.get "body" = some (.text payload.body) :=
    text_of_rearranged h hexact (payloadJson_get (by simp))
  have htag : p.get "tag" = some (.text (uuid payload.tag)) :=
    text_of_rearranged h hexact (payloadJson_get (by simp))
  have hurl : p.get "url" = some (.text payload.url) :=
    text_of_rearranged h hexact (payloadJson_get (by simp))
  obtain ⟨fs, rfl⟩ := h.object rfl
  rw [onPush, parse_stringify f (h.exact hexact)]
  simp only [htitle, hbody, htag, hurl, Bool.false_eq_true, if_false, shown]

/-- However an event of the services has travelled, the consumer reads it as it was
enqueued, a device without a focused window shows its title and body under its tag, and
a click opens its page. Its messages are given up only after the push has failed at
each of four attempts, and every copy goes to a queue that exists and from there to
another one. -/
theorem events_reach_devices {f : NumberFormat} {format : Number → String} {uuid : Uuid → String}
    {iso : Time → String} {e : Schema.NotificationPushEvent} {n : ℕ} {msg : AmqpMessage}
    (he : Enqueued format e) (h : Travels f (eventJson uuid iso e) n msg) :
    (∃ event text, parseNotificationPushEvent msg.content = .ok event ∧
      Rearranged (eventJson uuid iso e) event.message ∧ event.id = uuid e.id ∧
      event.userId = uuid e.userId ∧ pushText f event = some text ∧
      onPush f (some text) false = some (some (shown uuid e.payload)) ∧
      onNotificationClick (shown uuid e.payload) = .text e.payload.url) ∧
    (∀ o, .nack false ∈ handle msg o → n = 3 ∧ o.pushError ≠ none) ∧
    ∀ o key parsed count, .publish key parsed count true ∈ handle msg o →
      o.pushError ≠ none ∧ n < 3 ∧ ∃ a ∈ topology, a.exchange = .events ∧ a.routingKey = key ∧
        ∃ target ∈ a.deadLetter, Routable target.1 target.2 := by
  obtain ⟨v, hcontent, hsame, hcount, hn⟩ := h.carries he.sound
  have hparse := parse_of_rearranged he.sound hsame
  refine ⟨?_, fun o hnack => ?_, fun o key parsed count hcopy => ?_⟩
  · obtain ⟨p, hp, hpayload⟩ := payload_of_rearranged hsame
    refine ⟨⟨uuid e.id, uuid e.userId, v⟩, stringify f p, hcontent ▸ hparse, hsame, rfl, rfl, ?_,
      onPush_rearranged hpayload, ?_⟩
    · rw [pushText, hp, Option.map_some]
    · have htruthy : (Value.text e.payload.url).truthy = true := decide_eq_true he.sound.url_ne
      simp only [onNotificationClick, shown, htruthy, if_true]
  · exact given_up (hcontent ▸ hparse) hcount hn hnack
  · obtain ⟨hpush, -, hnext, rfl, rfl⟩ := copy_of_handle hcontent hparse hcount hn hcopy
    have hthree : maxRetries = 3 := rfl
    have hroutable : Routable .events (.notificationPushRetry (.finite (n + 1 : ℕ))) := by
      rw [routable_retry]
      have hcases : n = 0 ∨ n = 1 ∨ n = 2 := by omega
      rcases hcases with rfl | rfl | rfl <;> simp
    obtain ⟨a, ha, hexchange, hkey⟩ := hroutable
    have htarget : (.events, .notificationPush) ∈ a.deadLetter := retry_returns ha hkey
    exact ⟨hpush, Nat.lt_of_succ_le hnext, a, ha, hexchange, hkey, _, htarget,
      deadLetter_routable a ha _ htarget⟩

/-- A deposit whose push failed once, put back by the consumer. -/
theorem events_reach_devices_retried :
    ∃ e msg, Enqueued (fun _ => "") e ∧ e.payload.title = "Money added" ∧
      Travels wholeNumbers (eventJson toString toString e) 1 msg ∧
      (∀ o, .nack false ∈ handle msg o → 1 = 3 ∧ o.pushError ≠ none) ∧
      ∃ event text, parseNotificationPushEvent msg.content = .ok event ∧
        pushText wholeNumbers event = some text ∧
        onPush wholeNumbers (some text) false = some (some (shown toString e.payload)) := by
  obtain ⟨tr, s, hrun, -, hs⟩ := Run.of_trace_map MoneyRuns.next
    (openWallet 0 1 "USD" 10 ++ depositInto 2 1 10 ⟨1000, none, by decide⟩ 20)
    (MoneyRuns.start ⟨.empty, fun _ => none, [], []⟩)
    (fun _ s => s.data.db.outboxEvents.rows.map fun row => row.payload.payload.title)
    ["Money added"] (by decide)
  have hmem : "Money added" ∈
      s.data.db.outboxEvents.rows.map fun row => row.payload.payload.title := by
    rw [hs]
    exact List.mem_cons_self
  obtain ⟨row, hrow, htitle⟩ := List.mem_map.mp hmem
  have he : Enqueued (fun _ => "") row.payload := .money hrun hrow
  have hfirst : Travels wholeNumbers (eventJson toString toString row.payload) 0 _ :=
    .published (rfl : (none : Option Value).bind (fun table => table.get headerRetryCount) = none)
  obtain ⟨msg, hsecond⟩ := hfirst.again he.sound (by decide)
  obtain ⟨⟨event, text, hevent, -, -, -, htext, hpush, -⟩, hnack, -⟩ :=
    events_reach_devices he hsecond
  exact ⟨row.payload, msg, he, htitle, hsecond, hnack, event, text, hevent, htext, hpush⟩

end MaxOne.EventWire
