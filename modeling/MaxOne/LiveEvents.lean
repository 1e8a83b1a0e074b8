import MaxOne.AuditTrail
import MaxOne.Markets
import MaxOne.PriceAlerts
import MaxOne.TokenPurposes
import MaxOne.TransferPrivacy

/-!
# What a connection is told

`RealtimeGateway` puts a connection into the room of the user its ticket is for, and
the services send balances and notifications to the room of the owner after their
commit. Here the money operations, the price alerts, the authentication service, in
which a connection is a request of its own, and what reaches the connections are one
machine. Prices are public and reach every connection.

A balance that is sent is one the ledger records for that wallet, not the balance at
the time it arrives: two calls may send in the other order than they committed.
-/
namespace MaxOne.LiveEvents
open Library Library.Runs Library.Interleaving Library.LockedBlocks Library.Binary64 MaxOne.Schema
  MaxOne.WalletsService MaxOne.WalletsMachine MaxOne.Ledger MaxOne.MoneyRuns MaxOne.AuditTrail
  MaxOne.TransferPrivacy

/-! ## The gateway and the services -/

/-- What a socket receives. -/
inductive Message where
  | event (e : SocketEvent)
  | pricesUpdated (assets : List Markets.MarketAsset)

def Message.event? : Message → Option SocketEvent
  | .event e => some e
  | .pricesUpdated _ => none

structure World where
  money : Machine
  auth : AuthRuns.Service
  alerts : PriceAlerts.Service
  /-- the alerts' events whose toast has been sent, by their places -/
  toasted : List ℕ
  /-- what has reached a connection, newest last -/
  heard : ℕ → List Message
  closed : List ℕ

/-- `toast` is the socket emit of the alerts' dispatch, after their commit, and
`broadcast` that of a price tick while someone is connected. -/
inductive Action where
  | money (l : ℕ × Act Input)
  | auth (l : ℕ × AuthService.Input)
  | alerts (l : ℕ × PriceAlerts.Input)
  | toast (n : ℕ)
  | broadcast (assets : List Markets.MarketAsset)
  | close (c : ℕ)

/-- `handleConnection` has let the socket stay: the room it has joined. -/
def connected (w : World) (c : ℕ) : Option (Option Uuid) :=
  if c ∈ w.closed then none
  else match w.auth.client c with
    | .done (.joined sub) => some sub
    | _ => none

/-- What the server sends to a connection of these events. -/
def delivered (w : World) (c : ℕ) (events : List SocketEvent) : List SocketEvent :=
  match (connected w c).join with
  | none => []
  | some user => heardBy user events

/-- The server sends events, each to the room of its user. -/
def World.send (w : World) (events : List SocketEvent) : World :=
  { w with heard := fun c => w.heard c ++ (delivered w c events).map .event }

def World.broadcast (w : World) (assets : List Markets.MarketAsset) : World :=
  { w with heard := fun c =>
      w.heard c ++ if (connected w c).isSome then [.pricesUpdated assets] else [] }

def next (env : Accounts.Env) (format : Number → String) : Action → World → Option World
  | .money l, w => (MoneyRuns.next l w.money).map fun money =>
      { w.send (money.data.emitted.drop w.money.data.emitted.length) with money := money }
  | .auth l, w => (AuthRuns.next env l w.auth).map fun auth => { w with auth := auth }
  | .alerts l, w => (Interleaving.next (PriceAlerts.step format) l w.alerts).map fun alerts =>
      { w with alerts := alerts }
  | .toast n, w =>
      if n ∈ w.toasted then none
      else w.alerts.data.events[n]?.map fun event =>
        { w.send [.notification event.userId event.payload] with toasted := n :: w.toasted }
  | .broadcast assets, w => some (w.broadcast assets)
  | .close c, w => some { w with closed := c :: w.closed }

def start (users : Uuid → Option Account) (s : Accounts.Shared) : World where
  money := MoneyRuns.start ⟨.empty, users, [], []⟩
  auth := AuthRuns.start s
  alerts := PriceAlerts.start
  toasted := []
  heard _ := []
  closed := []

/-- The events a connection has received, without the prices. -/
def told (w : World) (c : ℕ) : List SocketEvent := (w.heard c).filterMap Message.event?

/-- The balance `LiveBalance` shows: the last one it was told, or the one it was rendered with. -/
def liveBalance (walletId : Uuid) (initialBalance : ℤ) (events : List SocketEvent) : ℤ :=
  events.foldl (fun balance e =>
    match e with
    | .balanceUpdated payload => if payload.walletId = walletId then payload.balance else balance
    | .notification .. => balance) initialBalance

/-! ## What is sent is in the ledger -/

/-- The event is about a settled row of a wallet of the user whose room it is for. -/
def Concerns (d : Db) : SocketEvent → Prop
  | .balanceUpdated payload =>
      owner d payload.walletId = some ⟨payload.userId, payload.currency⟩ ∧
        ∃ row ∈ settledRows d, row.walletId = payload.walletId ∧
          row.balanceAfter.map Int4.val = some payload.balance
  | .notification userId payload =>
      ∃ row ∈ settledRows d, (row.id = payload.tag ∨ row.transferId = some payload.tag) ∧
        OwnedBy d row.walletId userId

theorem Concerns.mono {d d' : Db} {e : SocketEvent} (h : Concerns d e)
    (ho : ∀ {id o}, owner d id = some o → owner d' id = some o)
    (hrows : ∀ row ∈ settledRows d, row ∈ settledRows d') : Concerns d' e := by
  cases e with
  | balanceUpdated payload =>
      obtain ⟨howner, row, hrow, hfits⟩ := h
      exact ⟨ho howner, row, hrows row hrow, hfits⟩
  | notification userId payload =>
      obtain ⟨row, hrow, htag, howner⟩ := h
      exact ⟨row, hrows row hrow, htag, howner.mono ho⟩

/-- What a commit reports holds of the tables. -/
structure Reports (d : Db) (r : Committed) : Prop where
  owners : ∀ payload ∈ r.owners, Concerns d (.balanceUpdated payload)
  event : ∀ event ∈ r.event, Concerns d (.notification event.userId event.payload)

theorem Reports.mono {d d' : Db} {r : Committed} (h : Reports d r)
    (ho : ∀ {id o}, owner d id = some o → owner d' id = some o)
    (hrows : ∀ row ∈ settledRows d, row ∈ settledRows d') : Reports d' r where
  owners payload hpayload := (h.owners payload hpayload).mono ho hrows
  event event hevent := (h.event event hevent).mono ho hrows

section Blocks
variable {s acc s' : Shared} {r r₀ : Committed} {draw : Draw} {actor : AuthUser}

/-- The entry and the event are the last statements of most blocks. -/
theorem commits_entries {row : AuditLog} {event : OutboxEvent}
    (h : Commits s acc (.write (.createAuditLog row) (.write (.createOutboxEvent event)
      (.commit r₀))) r s') :
    r₀ = r ∧ s'.db.wallets = acc.db.wallets ∧ s'.db.transactions = acc.db.transactions := by
  obtain ⟨acc₁, hw₁, ht₁, h⟩ := commits_audit h
  obtain ⟨acc₂, hw₂, ht₂, h⟩ := commits_outbox h
  obtain ⟨hr, rfl⟩ := commits_commit.mp h
  exact ⟨hr, hw₂.trans hw₁, ht₂.trans ht₁⟩

theorem owner_of_wallets {d d' : Db} (h : d'.wallets = d.wallets) (id : Uuid) :
    owner d' id = owner d id := by
  rw [owner, owner, h]

theorem mem_settledRows {d : Db} {row : Transaction} (hrow : row ∈ d.transactions.rows)
    (hsettled : row.status ≠ .pending) : row ∈ settledRows d :=
  List.mem_filter.mpr ⟨hrow, decide_eq_true hsettled⟩

theorem depositBlock_reports {id : Uuid} {dto : MoneyAmountDto}
    (h : Commits s s (depositBlock id actor dto draw) r s') : Reports s'.db r := by
  obtain ⟨wallet, hfind, h⟩ := commits_found rfl h
  obtain rfl := Table.find_key hfind
  obtain ⟨after, hafter, h⟩ := commits_withInt4.mp h
  obtain ⟨amount, hamount, h⟩ := commits_withInt4.mp (commits_updateWallet h)
  obtain ⟨acc, hw, ht, h⟩ := commits_createTransaction h
  obtain ⟨rfl, hw', ht'⟩ := commits_entries h
  have howner : owner s'.db wallet.id = some ⟨wallet.userId, wallet.currency⟩ := by
    rw [owner_of_wallets (hw'.trans hw), owner_updateWallet, owner_of_find hfind]
  have hrow : settledRow draw wallet.id .deposit amount wallet.balance after actor dto.note ∈
      settledRows s'.db := by
    refine mem_settledRows ?_ nofun
    rw [ht', Table.insert_rows ht]
    exact List.mem_append_right _ List.mem_cons_self
  refine ⟨fun payload hpayload => ?_, fun event hevent => ?_⟩
  · obtain rfl := List.mem_singleton.mp hpayload
    exact ⟨howner, _, hrow, rfl, rfl⟩
  · obtain rfl := Option.some.inj hevent
    exact ⟨_, hrow, .inl rfl, congrArg (Option.map Owner.userId) howner⟩

theorem adjustBlock_reports {walletId : Uuid} {dto : AdjustmentDto}
    (h : Commits s s (adjustBlock walletId dto actor draw) r s') : Reports s'.db r := by
  obtain ⟨wallet, hfind, h⟩ := commits_found rfl h
  obtain rfl := Table.find_key hfind
  obtain ⟨-, h⟩ := commits_refuse.mp h
  obtain ⟨after, hafter, h⟩ := commits_withInt4.mp h
  obtain ⟨amount, hamount, h⟩ := commits_withInt4.mp (commits_updateWallet h)
  obtain ⟨acc, hw, ht, h⟩ := commits_createTransaction h
  obtain ⟨acc', hw', ht', h⟩ := commits_audit h
  obtain ⟨rfl, rfl⟩ := commits_commit.mp h
  have howner : owner acc'.db wallet.id = some ⟨wallet.userId, wallet.currency⟩ := by
    rw [owner_of_wallets (hw'.trans hw), owner_updateWallet, owner_of_find hfind]
  have hrow : settledRow draw wallet.id .adjustment amount wallet.balance after actor
      (some dto.note) ∈ settledRows acc'.db := by
    refine mem_settledRows ?_ nofun
    rw [ht', Table.insert_rows ht]
    exact List.mem_append_right _ List.mem_cons_self
  refine ⟨fun payload hpayload => ?_, nofun⟩
  obtain rfl := List.mem_singleton.mp hpayload
  exact ⟨howner, _, hrow, rfl, rfl⟩

theorem approveBlock_reports {txnId : Uuid}
    (h : Commits s s (approveBlock txnId actor draw) r s') : Reports s'.db r := by
  obtain ⟨row, hrow, hblock⟩ := commits_foundRow rfl h
  obtain rfl := Table.find_key hrow
  obtain ⟨hstatus, h⟩ := commits_refuse.mp hblock
  obtain ⟨wallet, hfind, h⟩ := commits_found rfl h
  dsimp only at h
  cases hbal : approvedBalance row wallet.balance.val with
  | error e =>
      rw [hbal] at h
      exact absurd h commits_fail
  | ok balance =>
      rw [hbal] at h
      obtain ⟨after, -, h⟩ := commits_withInt4.mp h
      obtain ⟨db, hdb, h⟩ := commits_write.mp (commits_updateWallet h)
      obtain rfl := exec_updateTransaction hdb
      obtain ⟨rfl, hw', ht'⟩ := commits_entries h
      let settlement : Settlement := .approve actor.id draw.now wallet.balance after
      have howner : owner s'.db row.walletId = some ⟨wallet.userId, wallet.currency⟩ := by
        rw [owner_of_wallets (d := s.db.updateWallet wallet.id after) hw', owner_updateWallet,
          owner_of_find hfind]
      have hsettled : settlement.apply row ∈ settledRows s'.db :=
        (settledRows_settle hrow (not_not.mp hstatus) ht').mem_iff.mpr
          (List.mem_append_right _ List.mem_cons_self)
      refine ⟨fun payload hpayload => ?_, fun event hevent => ?_⟩
      · obtain rfl := List.mem_singleton.mp hpayload
        refine ⟨?_, _, hsettled, (Table.find_key hfind).symm, rfl⟩
        rw [balanceOf, Table.find_key hfind]
        exact howner
      · obtain rfl := Option.some.inj hevent
        refine ⟨_, hsettled, .inl ?_, congrArg (Option.map Owner.userId) howner⟩
        change row.id = (approvalPayload row wallet.currency).tag
        unfold approvalPayload
        split_ifs <;> rfl

theorem rejectBlock_reports {txnId : Uuid} {note : Option String}
    (h : Commits s s (rejectBlock txnId actor note draw) r s') : Reports s'.db r := by
  obtain ⟨row, hrow, hblock⟩ := commits_foundRow rfl h
  obtain rfl := Table.find_key hrow
  obtain ⟨hstatus, h⟩ := commits_refuse.mp hblock
  obtain ⟨db, hdb, h⟩ := commits_write.mp h
  obtain rfl := exec_updateTransaction hdb
  obtain ⟨acc, hw, ht, h⟩ := commits_audit h
  rw [commits_peek] at h
  let settlement : Settlement := .reject actor.id draw.now (note.orElse fun _ => row.note)
  cases howner : owner s.db row.walletId with
  | none =>
      rw [howner] at h
      obtain ⟨rfl, rfl⟩ := commits_commit.mp h
      exact ⟨nofun, nofun⟩
  | some o =>
      rw [howner] at h
      obtain ⟨acc', hw', ht', h⟩ := commits_outbox h
      obtain ⟨rfl, rfl⟩ := commits_commit.mp h
      have howner' : owner acc'.db row.walletId = some o := by
        rw [owner_of_wallets (hw'.trans hw)]
        exact howner
      have hsettled : settlement.apply row ∈ settledRows acc'.db :=
        (settledRows_settle hrow (not_not.mp hstatus) (ht'.trans ht)).mem_iff.mpr
          (List.mem_append_right _ List.mem_cons_self)
      refine ⟨nofun, fun event hevent => ?_⟩
      obtain rfl := Option.some.inj hevent
      refine ⟨_, hsettled, .inl ?_, congrArg (Option.map Owner.userId) howner'⟩
      change row.id = (rejectionPayload row o.currency).tag
      unfold rejectionPayload
      dsimp only
      split_ifs <;> rfl

theorem transferWrites_reports {a : TransferArgs} {source dest : Wallet}
    (hsource : s.db.wallets.find source.id = some source)
    (hdest : s.db.wallets.find dest.id = some dest)
    (h : Commits s s (transferWrites a draw source dest) r s') : Reports s'.db r := by
  obtain ⟨-, h⟩ := commits_refuse.mp h
  obtain ⟨fromAfter, -, h⟩ := commits_withInt4.mp h
  have h := commits_updateWallet h
  cases hcredit : a.credit with
  | none =>
      rw [hcredit] at h
      exact absurd h commits_fail
  | some credit =>
      rw [hcredit] at h
      obtain ⟨toAfter, -, h⟩ := commits_withInt4.mp h
      obtain ⟨rate, -, h⟩ := commits_withRate (commits_updateWallet h)
      obtain ⟨amount, -, h⟩ := commits_withInt4.mp h
      obtain ⟨acc₁, hw₁, ht₁, h⟩ := commits_createTransaction h
      obtain ⟨credited, rfl, h⟩ := commits_withInt4.mp h
      obtain ⟨acc₂, hw₂, ht₂, h⟩ := commits_createTransaction h
      obtain ⟨rfl, hw', ht'⟩ := commits_entries h
      have howner : ∀ id, owner s'.db id = owner s.db id := by
        intro id
        rw [owner_of_wallets ((hw'.trans hw₂).trans hw₁), owner_updateWallet, owner_updateWallet]
      have hrows : ∀ row : Transaction, (row = outRow a draw rate source dest amount fromAfter ∨
          row = inRow a draw rate source dest credited toAfter) → row ∈ settledRows s'.db := by
        intro row hrow
        refine mem_settledRows ?_ ?_
        · rw [ht', Table.insert_rows ht₂, Table.insert_rows ht₁]
          rcases hrow with rfl | rfl
          · exact List.mem_append_left _ (List.mem_append_right _ List.mem_cons_self)
          · exact List.mem_append_right _ List.mem_cons_self
        · rcases hrow with rfl | rfl <;> nofun
      have hout := hrows _ (.inl rfl)
      have hinn := hrows _ (.inr rfl)
      have hto : owner s'.db dest.id = some ⟨dest.userId, dest.currency⟩ := by
        rw [howner, owner_of_find hdest]
      refine ⟨fun payload hpayload => ?_, fun event hevent => ?_⟩
      · rcases List.mem_cons.mp hpayload with rfl | hpayload
        · exact ⟨by rw [howner]; exact owner_of_find hsource, _, hout, rfl, rfl⟩
        · obtain rfl := List.mem_singleton.mp hpayload
          exact ⟨hto, _, hinn, rfl, rfl⟩
      · obtain rfl := Option.some.inj hevent
        exact ⟨_, hinn, .inr rfl, congrArg (Option.map Owner.userId) hto⟩

theorem transferBlock_reports {a : TransferArgs}
    (h : Commits s s (transferBlock a draw) r s') : Reports s'.db r := by
  obtain ⟨source, dest, hsource, hdest, h⟩ := commits_transferBlock h
  refine transferWrites_reports ?_ ?_ h
  · rwa [Table.find_key hsource]
  · rwa [Table.find_key hdest]

theorem block_reports {body : TxnBody} (h : Commits s s (body.block draw) r s') :
    Reports s'.db r := by
  cases body with
  | deposit id actor dto => exact depositBlock_reports h
  | review r =>
      cases r with
      | approve txnId actor => exact approveBlock_reports h
      | reject txnId actor note => exact rejectBlock_reports h
  | adjust walletId dto actor => exact adjustBlock_reports h
  | transfer a => exact transferBlock_reports h

end Blocks

/-! ## What is sent along a run -/

/-- The commit whose events a call still has to send. -/
def unsent : Pc → Option Committed
  | .emit r => some r
  | _ => none

/-- All that was sent and is still to be sent concerns the tables. -/
structure Truthful (s : Pool Shared Pc) : Prop where
  pending : PendingOk s.data.db
  sent : ∀ e ∈ s.data.emitted, Concerns s.data.db e
  reports : ∀ c, ∀ r ∈ unsent (s.client c), Reports s.data.db r

/-- An emit sends events of its commit. -/
theorem emit_sends {s s' : Shared} {r : Committed} {sent : ℕ} {toast : Bool} {q : Pc}
    (h : emit s r sent toast = (q, s')) : s'.db = s.db ∧ unsent q = none ∧
      ∃ events, s'.emitted = s.emitted ++ events ∧ ∀ e ∈ events,
        (∃ payload ∈ r.owners, e = .balanceUpdated payload) ∨
          ∃ event ∈ r.event, e = .notification event.userId event.payload := by
  have hbalance : ∀ e ∈ r.owners.map SocketEvent.balanceUpdated,
      ∃ payload ∈ r.owners, e = .balanceUpdated payload := by
    intro e he
    obtain ⟨payload, hpayload, rfl⟩ := List.mem_map.mp he
    exact ⟨payload, hpayload, rfl⟩
  unfold emit at h
  dsimp only at h
  split at h
  · cases h
    exact ⟨rfl, rfl, _, rfl, fun e he => .inl (hbalance e (List.mem_of_mem_take he))⟩
  · cases hevent : r.event with
    | none =>
        rw [hevent] at h
        cases h
        exact ⟨rfl, rfl, _, rfl, fun e he => .inl (hbalance e he)⟩
    | some event =>
        rw [hevent] at h
        cases h
        refine ⟨rfl, rfl, _, List.append_assoc .., fun e he => ?_⟩
        rcases List.mem_append.mp he with he | he
        · exact .inl (hbalance e he)
        · refine .inr ⟨event, rfl, ?_⟩
          cases toast with
          | true => exact List.mem_singleton.mp he
          | false => cases he

/-- Outside the blocks only an emit sends, and no commit is left to be sent. -/
theorem step_sends {i : Input} {p q : Pc} {s s' : Shared} (h : step i p s = some (q, s')) :
    unsent q = none ∧ ((∃ r ∈ unsent p, ∃ sent toast, emit s r sent toast = (q, s')) ∨
      s'.emitted = s.emitted) := by
  cases step_statement h with
  | @emits i _ r q emitted hq =>
      cases i with
      | sockets sent toast =>
          have hemit : emit s r sent toast = (q, { s with emitted := emitted }) :=
            Option.some.inj h
          exact ⟨(emit_sends hemit).2.1, .inl ⟨r, rfl, sent, toast, hemit⟩⟩
      | _ => cases h
  | _ => exact ⟨rfl, .inr rfl⟩

/-- What one step does to the tables, for events and commits. -/
theorem moneyStep_mono {a : LockedBlocks.Input Input HttpException} {p q : Pc} {s s' : Shared}
    (hpending : PendingOk s.db) (h : moneyStep a p s = some (q, s')) :
    ∀ row ∈ settledRows s.db, row ∈ settledRows s'.db := by
  obtain ⟨i, -, hi⟩ | ⟨body, draw, r, -, hc, -⟩ | ⟨body, draw, e, -, -, rfl⟩ :=
    moneyStep_cases h
  · rw [(step_keeps hi).1]
    exact fun row hrow => hrow
  · obtain ⟨c, hadds, -⟩ := block_commit hpending hc
    exact fun row hrow => hadds.rows.mem_iff.mpr (List.mem_append_left _ hrow)
  · exact fun row hrow => hrow

theorem Truthful.next {s t : Pool Shared Pc} {l : ℕ × LockedBlocks.Input Input HttpException}
    (h : Truthful s) (hn : Interleaving.next moneyStep l s = some t) : Truthful t := by
  obtain ⟨q, s', hstep, rfl⟩ := next_cases hn
  have howner : ∀ {id o}, owner s.data.db id = some o → owner s'.db id = some o :=
    moneyStep_owner hstep
  have hrows := moneyStep_mono h.pending hstep
  have hsent : ∀ e ∈ s.data.emitted, Concerns s'.db e :=
    fun e he => (h.sent e he).mono howner hrows
  -- the other calls have sent nothing, and their commits are as true as before
  have hothers : (∀ r ∈ unsent q, Reports s'.db r) → ∀ c,
      ∀ r ∈ unsent (Function.update s.client l.1 q c), Reports s'.db r := by
    intro hself c r hr
    by_cases hc : c = l.1
    · subst hc
      rw [Function.update_self] at hr
      exact hself r hr
    · rw [Function.update_of_ne hc] at hr
      exact (h.reports c r hr).mono howner hrows
  obtain ⟨i, -, hi⟩ | ⟨body, draw, r, hp, hc, rfl⟩ | ⟨body, draw, e, -, rfl, rfl⟩ :=
    moneyStep_cases hstep
  · obtain ⟨hnone, hcases⟩ := step_sends hi
    refine ⟨h.pending.single (step_single hi), ?_, hothers fun r hr => ?_⟩
    · rcases hcases with ⟨r, hr, sent, toast, hemit⟩ | hsame
      · obtain ⟨-, -, events, hemitted, hevents⟩ := emit_sends hemit
        have hreports := (h.reports l.1 r hr).mono howner hrows
        intro e he
        rw [hemitted] at he
        rcases List.mem_append.mp he with hold | hnew
        · exact hsent e hold
        · rcases hevents e hnew with ⟨payload, hpayload, rfl⟩ | ⟨event, hevent, rfl⟩
          · exact hreports.owners payload hpayload
          · exact hreports.event event hevent
      · intro e he
        rw [hsame] at he
        exact hsent e he
    · rw [hnone] at hr
      exact absurd hr (Option.not_mem_none r)
  · have hemitted : s'.emitted = s.data.emitted := by rw [commits_shared hc]
    refine ⟨h.pending.effect (block_effect hc), fun e he => ?_, hothers fun r' hr' => ?_⟩
    · rw [hemitted] at he
      exact hsent e he
    · obtain rfl := Option.some.inj hr'
      exact block_reports hc
  · exact ⟨h.pending, hsent, hothers fun r hr => absurd hr (Option.not_mem_none r)⟩

theorem run_truthful {users : Uuid → Option Account} {s : Machine} {tr : MoneyRuns.Trace}
    (h : Run MoneyRuns.next (MoneyRuns.start ⟨.empty, users, [], []⟩) tr s) :
    ∀ e ∈ s.data.emitted, Concerns s.data.db e := by
  obtain ⟨us, hus, -⟩ := run_refines (Q := program) (State.idle_ok _ _) h
  have hstart : Truthful (MoneyRuns.start ⟨.empty, users, [], []⟩).abs :=
    ⟨pendingOk_empty, fun e he => absurd he List.not_mem_nil, fun c r hr => absurd hr (Option.not_mem_none r)⟩
  exact (hus.invariant Truthful hstart fun _ _ _ hs hn => hs.next hn).sent

/-! ## Where a room comes from -/

section Auth
open Accounts AuthService AuthMachine AuthRuns TokenPurposes
variable {env : Env} {i : AuthService.Input} {p q : AuthService.Pc} {s s' : Accounts.Shared}
  {user : Uuid}

theorem dispatch_wsTicket {minted : List Jwt} {now : Time} {actor : AuthUser} {endpoint : Endpoint}
    (h : dispatch env minted now actor endpoint = .sign (.wsTicket user)) : actor.id = user := by
  unfold dispatch at h
  split at h
  · cases h
    rfl
  all_goals first | cases h | split at h
  all_goals first | cases h | split at h
  all_goals first | cases h | (split at h <;> cases h)

theorem dispatch_ne_done {minted : List Jwt} {now : Time} {actor : AuthUser} {endpoint : Endpoint}
    {response : AuthService.Response} : dispatch env minted now actor endpoint ≠ .done response := by
  intro h
  unfold dispatch at h
  split at h
  all_goals first | cases h | split at h
  all_goals first | cases h | split at h
  all_goals first | cases h | (split at h <;> cases h)

theorem dispatch_wsTicket_endpoint {minted : List Jwt} {now : Time} {actor : AuthUser}
    {endpoint : Endpoint} (h : dispatch env minted now actor endpoint = .sign (.wsTicket user)) :
    endpoint = .wsTicket := by
  unfold dispatch at h
  split at h
  · rfl
  all_goals first | cases h | split at h
  all_goals first | cases h | split at h
  all_goals first | cases h | (split at h <;> cases h)

/-- The guard lets a request for a ticket through as this user. -/
def Asks (user : Uuid) (e : Occurrence) : Prop :=
  Authenticates user e ∧ ∃ payload, e.pre.client e.label.1 = .validate payload .wsTicket

/-- A ticket is signed for the user the guard let through. -/
theorem wsTicket_source (h : AuthMachine.Statement env s i p q s') (hq : q = .sign (.wsTicket user)) :
    p = .sign (.wsTicket user) ∨ (authenticating s i p).map AuthUser.id = some user ∧
      ∃ payload, p = .validate payload .wsTicket := by
  cases h with
  | money p db => exact .inl hq
  | receives r now =>
      unfold receive at hq
      split at hq
      all_goals first | cases hq | (split at hq <;> cases hq)
  | authenticates d payload endpoint actor hvalid =>
      refine .inr ⟨?_, payload, by rw [dispatch_wsTicket_endpoint hq]⟩
      rw [authenticating, hvalid, Option.map_some, dispatch_wsTicket hq]
  | provesTotp d userId code k actor =>
      exact absurd hq (proved_rule (P := (· ≠ .sign (.wsTicket user))) (fun _ => nofun)
        (fun _ _ _ => nofun) (fun _ => nofun) fun _ => nofun)
  | consumes d userId hash remaining k actor =>
      exact absurd hq (proved_rule (P := (· ≠ .sign (.wsTicket user))) (fun _ => nofun)
        (fun _ _ _ => nofun) (fun _ => nofun) fun _ => nofun)
  | counts d id userId counter k passkeys => cases k <;> cases hq
  | permits d actor id patch row =>
      rcases patchUser_cases env actor id patch with ⟨e, he⟩ | ⟨change, he⟩ <;>
        rw [he] at hq <;> cases hq
  | _ => cases hq

/-- The statement that signs a ticket answers its request with it. -/
theorem wsTicket_signed (h : AuthMachine.Statement env s i p q s') {token : Jwt}
    (hnew : token ∉ s.minted) (htoken : token ∈ s'.minted)
    (hpurpose : token.claims.purpose = some .ws) (hsub : token.claims.sub = some user) :
    p = .sign (.wsTicket user) ∧ q = .done (.signed token) := by
  cases h with
  | issues d row =>
      rcases List.mem_cons.mp htoken with rfl | hold
      · cases hpurpose
      · exact absurd hold hnew
  | claims d existing old row =>
      rcases List.mem_cons.mp htoken with rfl | hold
      · cases hpurpose
      · exact absurd hold hnew
  | signs d m =>
      rcases List.mem_cons.mp htoken with rfl | hold
      · cases m with
        | wsTicket userId =>
            obtain rfl : userId = user := Option.some.inj hsub
            exact ⟨rfl, rfl⟩
        | _ => cases hpurpose
      · exact absurd hold hnew
  | patches =>
      simp only [sweep_minted] at htoken
      exact absurd htoken hnew
  | _ => exact absurd htoken hnew

/-- The connection was made with this ticket, which was not over. -/
def Connects (user : Uuid) (token : Jwt) (e : Occurrence) : Prop :=
  ∃ now, e.label.2 = .request (.connect token) now ∧ token ∈ e.pre.data.minted ∧
    now / 1000 < token.exp ∧ token.claims.purpose = some .ws ∧ token.claims.sub = some user

/-- A room is joined with a ticket that has been minted for its user. -/
theorem joined_source (h : AuthMachine.Statement env s i p q s') (hq : q = .done (.joined (some user))) :
    p = .done (.joined (some user)) ∨ ∃ token now, i = .request (.connect token) now ∧
      token ∈ s.minted ∧ now / 1000 < token.exp ∧ token.claims.purpose = some .ws ∧
      token.claims.sub = some user := by
  cases h with
  | money p db => exact .inl hq
  | receives r now =>
      refine .inr ?_
      unfold receive at hq
      split at hq
      case h_8 ticket =>
        split at hq
        · cases hq
        · next sub hsub =>
            cases hq
            exact ⟨ticket, now, rfl, verifyPurpose_eq_ok hsub⟩
      all_goals first | cases hq | (split at hq <;> cases hq)
  | authenticates d payload endpoint actor hvalid =>
      exact absurd hq dispatch_ne_done
  | provesTotp d userId code k actor =>
      exact absurd hq (proved_rule (P := (· ≠ .done (.joined (some user)))) (fun _ => nofun)
        (fun _ _ _ => nofun) (fun _ => nofun) fun _ => nofun)
  | consumes d userId hash remaining k actor =>
      exact absurd hq (proved_rule (P := (· ≠ .done (.joined (some user)))) (fun _ => nofun)
        (fun _ _ _ => nofun) (fun _ => nofun) fun _ => nofun)
  | counts d id userId counter k passkeys => cases k <;> cases hq
  | permits d actor id patch row =>
      rcases patchUser_cases env actor id patch with ⟨e, he⟩ | ⟨change, he⟩ <;>
        rw [he] at hq <;> cases hq
  | _ => cases hq

/-- A request that has been answered stays answered. -/
theorem done_stays {response : AuthService.Response}
    (h : AuthService.step env i (.done response) s = some (q, s')) : q = .done response := by
  cases i with
  | money db =>
      cases h
      rfl
  | _ => cases h

theorem client_done {t t' : Service} {l : ℕ × AuthService.Input} {c : ℕ}
    {response : AuthService.Response} (hn : AuthRuns.next env l t = some t')
    (hc : t.client c = .done response) : t'.client c = .done response := by
  by_cases hself : c = l.1
  · subst hself
    have hstep := next_self hn
    rw [hc] at hstep
    exact done_stays hstep
  · rw [next_other hn hself, hc]

/-- Of the tickets minted in a run, and of the rooms its connections have joined. -/
structure Ticketed (before : List Jwt) (tr : List Occurrence) (t : Service) : Prop where
  minted : ∀ token ∈ t.data.minted, token ∉ before → token.claims.purpose = some .ws →
    ∀ user, token.claims.sub = some user →
      ∃ e ∈ tr, Asks user e ∧ t.client e.label.1 = .done (.signed token)
  signing : ∀ c user, t.client c = .sign (.wsTicket user) → ∃ e ∈ tr, e.label.1 = c ∧ Asks user e
  joined : ∀ c user, t.client c = .done (.joined (some user)) →
    ∃ token ∈ t.data.minted, ∃ e ∈ tr, e.label.1 = c ∧ Connects user token e

theorem Ticketed.next {before : List Jwt} {tr : List Occurrence} {t t' : Service}
    {l : ℕ × AuthService.Input} (h : Ticketed before tr t) (hn : AuthRuns.next env l t = some t') :
    Ticketed before (tr ++ [⟨t, l, t'⟩]) t' := by
  obtain ⟨q, s', hstep, rfl⟩ := next_cases hn
  have hstatement := step_statement hstep
  refine ⟨fun token htoken hnew hpurpose user hsub => ?_, fun c user hc => ?_, fun c user hc => ?_⟩
  · by_cases hold : token ∈ t.data.minted
    · obtain ⟨e, he, hasks, hsigned⟩ := h.minted token hold hnew hpurpose user hsub
      exact ⟨e, List.mem_append_left _ he, hasks, client_done hn hsigned⟩
    · obtain ⟨hp, hq⟩ := wsTicket_signed hstatement hold htoken hpurpose hsub
      obtain ⟨e, he, hc, hasks⟩ := h.signing l.1 user hp
      refine ⟨e, List.mem_append_left _ he, hasks, ?_⟩
      simp only [hc, Function.update_self]
      exact hq
  · simp only at hc
    by_cases hself : c = l.1
    · subst hself
      rw [Function.update_self] at hc
      rcases wsTicket_source hstatement hc with hold | hasks
      · obtain ⟨e, he, hasks⟩ := h.signing l.1 user hold
        exact ⟨e, List.mem_append_left _ he, hasks⟩
      · exact ⟨_, List.mem_append_right _ List.mem_cons_self, rfl, hasks⟩
    · rw [Function.update_of_ne hself] at hc
      obtain ⟨e, he, hasks⟩ := h.signing c user hc
      exact ⟨e, List.mem_append_left _ he, hasks⟩
  · simp only at hc
    have hearlier : t.client c = .done (.joined (some user)) → ∃ token ∈ s'.minted,
        ∃ e ∈ tr ++ [⟨t, l, ⟨s', Function.update t.client l.1 q⟩⟩], e.label.1 = c ∧
          Connects user token e := by
      intro hold
      obtain ⟨token, htoken, e, he, hconnects⟩ := h.joined c user hold
      exact ⟨token, minted_mono hstatement htoken, e, List.mem_append_left _ he, hconnects⟩
    by_cases hself : c = l.1
    · subst hself
      rw [Function.update_self] at hc
      rcases joined_source hstatement hc with hold | ⟨token, now, hi, hminted, hfits⟩
      · exact hearlier hold
      · exact ⟨token, minted_mono hstatement hminted, _,
          List.mem_append_right _ List.mem_cons_self, rfl, now, hi, hminted, hfits⟩
    · rw [Function.update_of_ne hself] at hc
      exact hearlier hc

theorem run_ticketed {s₀ : Accounts.Shared} {t : Service} {tr : List Occurrence}
    (h : Run (AuthRuns.next env) (AuthRuns.start s₀) tr t) : Ticketed s₀.minted tr t :=
  h.history (fun _ => True) (Ticketed s₀.minted)
    ⟨fun token htoken hnew => absurd htoken hnew, fun c user hc => (by cases hc),
      fun c user hc => (by cases hc)⟩
    (fun _ _ _ _ ht hn _ => ht.next hn) fun _ _ => trivial

end Auth

/-! ## The services side by side -/

section World
open Accounts AuthMachine AuthRuns TokenPurposes
variable {env : Env} {format : Number → String} {users : Uuid → Option Account}
  {s₀ : Accounts.Shared} {tr : List (Event Action World)} {w t : World} {a : Action}

def authEvent (e : Event Action World) : Option Occurrence :=
  match e.label with
  | .auth l => some ⟨e.pre.auth, l, e.post.auth⟩
  | _ => none

def moneyEvent (e : Event Action World) : Option (Event (ℕ × Act Input) Machine) :=
  match e.label with
  | .money l => some ⟨e.pre.money, l, e.post.money⟩
  | _ => none

def alertEvent (e : Event Action World) :
    Option (Event (ℕ × PriceAlerts.Input) PriceAlerts.Service) :=
  match e.label with
  | .alerts l => some ⟨e.pre.alerts, l, e.post.alerts⟩
  | _ => none

/-- What one step of the machine can do. -/
inductive Moves (env : Env) (format : Number → String) (w : World) : Action → World → Prop
  | money (l : ℕ × Act Input) (money : Machine) (hnext : MoneyRuns.next l w.money = some money) :
      Moves env format w (.money l)
        { w.send (money.data.emitted.drop w.money.data.emitted.length) with money := money }
  | auth (l : ℕ × AuthService.Input) (auth : AuthRuns.Service)
      (hnext : AuthRuns.next env l w.auth = some auth) :
      Moves env format w (.auth l) { w with auth := auth }
  | alerts (l : ℕ × PriceAlerts.Input) (alerts : PriceAlerts.Service)
      (hnext : Interleaving.next (PriceAlerts.step format) l w.alerts = some alerts) :
      Moves env format w (.alerts l) { w with alerts := alerts }
  | toast (n : ℕ) (event : NotificationPushEvent) (hevent : w.alerts.data.events[n]? = some event) :
      Moves env format w (.toast n)
        { w.send [.notification event.userId event.payload] with toasted := n :: w.toasted }
  | broadcast (assets : List Markets.MarketAsset) :
      Moves env format w (.broadcast assets) (w.broadcast assets)
  | close (c : ℕ) : Moves env format w (.close c) { w with closed := c :: w.closed }

theorem next_moves (h : next env format a w = some t) : Moves env format w a t := by
  cases a with
  | money l =>
      obtain ⟨money, hmoney, rfl⟩ := Option.map_eq_some_iff.mp h
      exact .money l money hmoney
  | auth l =>
      obtain ⟨auth, hauth, rfl⟩ := Option.map_eq_some_iff.mp h
      exact .auth l auth hauth
  | alerts l =>
      obtain ⟨alerts, halerts, rfl⟩ := Option.map_eq_some_iff.mp h
      exact .alerts l alerts halerts
  | toast n =>
      simp only [next] at h
      split_ifs at h
      obtain ⟨event, hevent, rfl⟩ := Option.map_eq_some_iff.mp h
      exact .toast n event hevent
  | broadcast assets =>
      obtain rfl := Option.some.inj h
      exact .broadcast assets
  | close c =>
      obtain rfl := Option.some.inj h
      exact .close c

/-- The events of one service, of those of the whole. -/
theorem filterMap_snoc {β : Type*} (f : Event Action World → Option β) (e : Event Action World) :
    (tr ++ [e]).filterMap f = tr.filterMap f ++ (f e).toList := by
  rw [List.filterMap_append]
  cases hf : f e with
  | none => rw [List.filterMap_cons_none hf, List.filterMap_nil, Option.toList_none]
  | some b => rw [List.filterMap_cons_some hf, List.filterMap_nil, Option.toList_some]

theorem run_auth (h : Run (next env format) (start users s₀) tr w) :
    Run (AuthRuns.next env) (AuthRuns.start s₀) (tr.filterMap authEvent) w.auth := by
  induction h with
  | start => exact .start
  | step l _ hn ih =>
      rw [filterMap_snoc]
      cases next_moves hn with
      | auth l auth hauth => exact .step l ih hauth
      | _ =>
          rw [authEvent, Option.toList_none, List.append_nil]
          exact ih

theorem run_money (h : Run (next env format) (start users s₀) tr w) :
    Run MoneyRuns.next (MoneyRuns.start ⟨.empty, users, [], []⟩) (tr.filterMap moneyEvent)
      w.money := by
  induction h with
  | start => exact .start
  | step l _ hn ih =>
      rw [filterMap_snoc]
      cases next_moves hn with
      | money l money hmoney => exact .step l ih hmoney
      | _ =>
          rw [moneyEvent, Option.toList_none, List.append_nil]
          exact ih

theorem run_alerts (h : Run (next env format) (start users s₀) tr w) :
    Run (Interleaving.next (PriceAlerts.step format)) PriceAlerts.start (tr.filterMap alertEvent)
      w.alerts := by
  induction h with
  | start => exact .start
  | step l _ hn ih =>
      rw [filterMap_snoc]
      cases next_moves hn with
      | alerts l alerts halerts => exact .step l ih halerts
      | _ =>
          rw [alertEvent, Option.toList_none, List.append_nil]
          exact ih

/-- An event the server has sent. -/
def Sent (w : World) (e : SocketEvent) : Prop :=
  e ∈ w.money.data.emitted ∨
    ∃ event ∈ w.alerts.data.events, e = .notification event.userId event.payload

/-- What has reached a connection was sent to the room it is in, or to all. -/
structure Heard (tr : List (Event Action World)) (w : World) : Prop where
  ok : w.money.Ok program
  event : ∀ c e, .event e ∈ w.heard c →
    Sent w e ∧ w.auth.client c = .done (.joined (some (room e)))
  prices : ∀ c assets, .pricesUpdated assets ∈ w.heard c →
    ∃ e ∈ tr, e.label = .broadcast assets

theorem mem_delivered {c : ℕ} {events : List SocketEvent} {e : SocketEvent}
    (h : e ∈ delivered w c events) :
    e ∈ events ∧ w.auth.client c = .done (.joined (some (room e))) := by
  unfold delivered at h
  split at h
  · cases h
  · next user hjoined =>
      obtain ⟨hmem, hroom⟩ := List.mem_filter.mp h
      refine ⟨hmem, ?_⟩
      rw [of_decide_eq_true hroom]
      rw [Option.join_eq_some_iff] at hjoined
      unfold connected at hjoined
      split_ifs at hjoined
      split at hjoined
      · next sub hclient => rw [hclient, Option.some.inj hjoined]
      · cases hjoined

/-- Nothing is taken back. -/
theorem emitted_grows {l : ℕ × Act Input} {m m' : Machine} (hok : m.Ok program)
    (h : MoneyRuns.next l m = some m') :
    m'.Ok program ∧ ∃ events, m'.data.emitted = m.data.emitted ++ events := by
  obtain ⟨hok', hsame | ⟨i, -, hm⟩⟩ := next_refines hok h
  · have hdata : m'.data = m.data := congrArg Pool.data hsame
    exact ⟨hok', [], by rw [hdata, List.append_nil]⟩
  · refine ⟨hok', ?_⟩
    have hstep := next_self hm
    obtain ⟨j, -, hj⟩ | ⟨body, draw, r, -, hc, -⟩ | ⟨body, draw, e, -, -, hdata⟩ :=
      moneyStep_cases hstep
    · rcases (step_sends hj).2 with ⟨r, -, sent, toast, hemit⟩ | hkept
      · obtain ⟨-, -, events, hevents, -⟩ := emit_sends hemit
        exact ⟨events, hevents⟩
      · exact ⟨[], hkept.trans (List.append_nil _).symm⟩
    · have hkept : m'.abs.data.emitted = m.abs.data.emitted := by rw [commits_shared hc]
      exact ⟨[], hkept.trans (List.append_nil _).symm⟩
    · have hkept : m'.data.emitted = m.data.emitted := congrArg Shared.emitted hdata
      exact ⟨[], hkept.trans (List.append_nil _).symm⟩

/-- The server sends `events`, in a step that takes nothing back. -/
theorem Heard.send (h : Heard tr w) {events : List SocketEvent} {c : ℕ} {x : SocketEvent}
    (hx : .event x ∈ (w.send events).heard c) :
    (Sent w x ∨ x ∈ events) ∧ w.auth.client c = .done (.joined (some (room x))) := by
  rcases List.mem_append.mp hx with hold | hnew
  · exact (h.event c x hold).imp_left .inl
  · obtain ⟨y, hy, heq⟩ := List.mem_map.mp hnew
    cases heq
    exact (mem_delivered hy).imp_left .inr

theorem Heard.next (h : Heard tr w) (hn : next env format a w = some t) :
    Heard (tr ++ [⟨w, a, t⟩]) t := by
  have hprices : ∀ {c assets}, .pricesUpdated assets ∈ w.heard c →
      ∃ e ∈ tr ++ [⟨w, a, t⟩], e.label = .broadcast assets := by
    intro c assets hmem
    obtain ⟨e, he, hlabel⟩ := h.prices c assets hmem
    exact ⟨e, List.mem_append_left _ he, hlabel⟩
  have hsends : ∀ {events c assets}, .pricesUpdated assets ∈ (w.send events).heard c →
      .pricesUpdated assets ∈ w.heard c := by
    intro events c assets hmem
    rcases List.mem_append.mp hmem with hold | hnew
    · exact hold
    · obtain ⟨y, -, heq⟩ := List.mem_map.mp hnew
      cases heq
  cases next_moves hn with
  | money l money hmoney =>
      obtain ⟨hok, events, hevents⟩ := emitted_grows h.ok hmoney
      refine ⟨hok, fun c x hx => ?_, fun c assets hmem => hprices (hsends hmem)⟩
      obtain ⟨hsent, hclient⟩ := h.send hx
      refine ⟨?_, hclient⟩
      rcases hsent with (hmem | hevent) | hnew
      · refine .inl ?_
        rw [hevents]
        exact List.mem_append_left _ hmem
      · exact .inr hevent
      · exact .inl (List.mem_of_mem_drop hnew)
  | auth l auth hauth =>
      refine ⟨h.ok, fun c x hx => ?_, fun c assets hmem => hprices hmem⟩
      exact (h.event c x hx).imp_right fun hclient => client_done hauth hclient
  | alerts l alerts halerts =>
      refine ⟨h.ok, fun c x hx => ?_, fun c assets hmem => hprices hmem⟩
      refine (h.event c x hx).imp_left fun hsent => hsent.imp_right ?_
      rintro ⟨event, hevent, rfl⟩
      exact ⟨event, PriceAlerts.events_next halerts hevent, rfl⟩
  | toast n event hevent =>
      refine ⟨h.ok, fun c x hx => ?_, fun c assets hmem => hprices (hsends hmem)⟩
      refine (h.send hx).imp_left fun hsent => hsent.elim id fun hnew => .inr ?_
      exact ⟨event, List.mem_of_getElem? hevent, List.mem_singleton.mp hnew⟩
  | broadcast assets =>
      refine ⟨h.ok, fun c x hx => ?_, fun c assets' hmem => ?_⟩
      · rcases List.mem_append.mp hx with hold | hnew
        · exact h.event c x hold
        · split_ifs at hnew
          · cases List.mem_singleton.mp hnew
          · cases hnew
      · rcases List.mem_append.mp hmem with hold | hnew
        · exact hprices hold
        · split_ifs at hnew
          · cases List.mem_singleton.mp hnew
            exact ⟨_, List.mem_append_right _ List.mem_cons_self, rfl⟩
          · cases hnew
  | close c => exact ⟨h.ok, h.event, fun c assets hmem => hprices hmem⟩

theorem run_heard (h : Run (next env format) (start users s₀) tr w) : Heard tr w :=
  h.history (fun _ => True) Heard
    ⟨State.idle_ok _ _, fun _ _ he => absurd he List.not_mem_nil,
      fun _ _ he => absurd he List.not_mem_nil⟩
    (fun _ _ _ _ hw hn _ => hw.next hn) fun _ _ => trivial

theorem mem_told {c : ℕ} {e : SocketEvent} : e ∈ told w c ↔ .event e ∈ w.heard c := by
  rw [told, List.mem_filterMap]
  constructor
  · rintro ⟨m, hm, he⟩
    cases m with
    | event x => rwa [← Option.some.inj he]
    | pricesUpdated assets => cases he
  · intro he
    exact ⟨_, he, rfl⟩

/-- The balance shown is the first one or one that was told. -/
theorem liveBalance_told (walletId : Uuid) (initialBalance : ℤ) (events : List SocketEvent) :
    liveBalance walletId initialBalance events = initialBalance ∨
      ∃ payload, .balanceUpdated payload ∈ events ∧ payload.walletId = walletId ∧
        liveBalance walletId initialBalance events = payload.balance := by
  induction events using List.reverseRecOn with
  | nil => exact .inl rfl
  | append_singleton events e ih =>
      have hkept : liveBalance walletId initialBalance (events ++ [e]) =
          liveBalance walletId initialBalance events →
          liveBalance walletId initialBalance (events ++ [e]) = initialBalance ∨
            ∃ payload, .balanceUpdated payload ∈ events ++ [e] ∧ payload.walletId = walletId ∧
              liveBalance walletId initialBalance (events ++ [e]) = payload.balance := by
        intro hsame
        rw [hsame]
        rcases ih with hfirst | ⟨payload, hmem, hfits⟩
        · exact .inl hfirst
        · exact .inr ⟨payload, List.mem_append_left _ hmem, hfits⟩
      rw [liveBalance, List.foldl_append] at hkept ⊢
      cases e with
      | notification userId payload => exact hkept rfl
      | balanceUpdated payload =>
          by_cases hwallet : payload.walletId = walletId
          · exact .inr ⟨payload, List.mem_append_right _ List.mem_cons_self, hwallet, if_pos hwallet⟩
          · exact hkept (if_neg hwallet)

/-- The event concerns the ledger, or tells a user that one of the user's own alerts has
met its price. -/
def Justified (format : Number → String) (tr : List (Event Action World)) (w : World)
    (e : SocketEvent) : Prop :=
  Concerns w.money.data.db e ∨ ∃ userId p, e = .notification userId p ∧
    PriceAlerts.Told format (tr.filterMap alertEvent) userId p

theorem sent_justified (h : Run (next env format) (start users s₀) tr w) {e : SocketEvent}
    (he : Sent w e) : Justified format tr w e := by
  rcases he with hmoney | ⟨event, hevent, rfl⟩
  · exact .inl (run_truthful (run_money h) e hmoney)
  · exact .inr ⟨_, _, rfl, (PriceAlerts.run_sourced (run_alerts h)).events event hevent⟩

/-- Whatever calls and price ticks run and whoever signs in meanwhile, a connection
receives the broadcast prices and, for the rest, events for one user: it was made with a
ticket that was not over, and the ticket is the answer to a request for one that the guard
had let through as that very user. The events are balances that the ledger records for one
of the user's wallets, in its currency, and notifications about a settled row of such a
wallet or about an alert of the user that has met its price. So a balance card shows what
it was rendered with or a balance of the ledger. -/
theorem connection_told (h : Run (next env format) (start users s₀) tr w) (c : ℕ) :
    (∀ assets, .pricesUpdated assets ∈ w.heard c → ∃ e ∈ tr, e.label = .broadcast assets) ∧
    (told w c ≠ [] → ∃ user token,
      (∃ e ∈ tr.filterMap authEvent, e.label.1 = c ∧ Connects user token e) ∧
      (token ∉ s₀.minted → ∃ e ∈ tr.filterMap authEvent, Asks user e ∧
        w.auth.client e.label.1 = .done (.signed token)) ∧
      (∀ e ∈ told w c, room e = user ∧ Justified format tr w e) ∧
      ∀ walletId initialBalance,
        liveBalance walletId initialBalance (told w c) = initialBalance ∨
          (owner w.money.data.db walletId).map Owner.userId = some user ∧
            ∃ row ∈ settledRows w.money.data.db, row.walletId = walletId ∧
              row.balanceAfter.map Int4.val =
                some (liveBalance walletId initialBalance (told w c))) := by
  have hheard := run_heard h
  refine ⟨hheard.prices c, fun hc => ?_⟩
  have htold : ∀ e ∈ told w c, Sent w e ∧ w.auth.client c = .done (.joined (some (room e))) :=
    fun e he => hheard.event c e (mem_told.mp he)
  have hticketed := run_ticketed (run_auth h)
  obtain ⟨first, hfirst⟩ := List.exists_mem_of_ne_nil _ hc
  have hclient := (htold first hfirst).2
  have hroom : ∀ e ∈ told w c, room e = room first := by
    intro e he
    have hsame := (htold e he).2
    rw [hclient] at hsame
    simpa using hsame.symm
  obtain ⟨token, htoken, e, he, hself, hconnects⟩ := hticketed.joined c _ hclient
  have hpurpose : token.claims.purpose = some .ws ∧ token.claims.sub = some (room first) := by
    obtain ⟨now, -, -, -, hfits⟩ := hconnects
    exact hfits
  refine ⟨room first, token, ⟨e, he, hself, hconnects⟩,
    fun hnew => hticketed.minted token htoken hnew hpurpose.1 _ hpurpose.2,
    fun e he => ⟨hroom e he, sent_justified h (htold e he).1⟩, fun walletId initialBalance => ?_⟩
  rcases liveBalance_told walletId initialBalance (told w c) with hfirst' | ⟨payload, hmem, rfl, hlast⟩
  · exact .inl hfirst'
  · rcases sent_justified h (htold _ hmem).1 with hconcerns | ⟨userId, p, hno, -⟩
    · obtain ⟨howner, row, hrow, hwallet, hbalance⟩ := hconcerns
      refine .inr ⟨?_, row, hrow, hwallet, hlast ▸ hbalance⟩
      rw [howner, ← hroom _ hmem]
      rfl
    · cases hno

/-- A user with a live access token. -/
def signedIn : Accounts.Shared :=
  { usersOnly [account 1 "a" userRole false] with
    minted := [signAsync (.access (account 1 "a" userRole false)) 0] }

/-- A ticket and a connection. -/
def connects : List (ℕ × AuthService.Input) :=
  [(2, .request (.authorized (signAsync (.access (account 1 "a" userRole false)) 0) .wsTicket) 0)] ++
    statements 2 0 30 2 ++ [(9, .request (.connect (signAsync (.wsTicket 1) 0)) 0)]

/-- The connection is there when a wallet is opened and filled, when prices are
broadcast and when an alert is told. -/
def watchedDeposit : List Action :=
  connects.map .auth ++
    (openWallet 0 1 "USD" 10 ++ depositInto 2 1 10 ⟨1250, none, by decide⟩ 20).map .money ++
    ((0, PriceAlerts.Input.add PriceAlerts.btcAbove) :: PriceAlerts.tickToMark 1 ++
      PriceAlerts.markAndCommit 1).map .alerts ++ [.broadcast [], .toast 0]

theorem connection_told_deposit :
    ∃ tr w user token, Run (next (plainEnv []) fun _ => "") (start (fun _ => none) signedIn) tr w ∧
      liveBalance 10 0 (told w 9) = 1250 ∧ (told w 9).length = 3 ∧
      (owner w.money.data.db 10).map Owner.userId = some user ∧
      (∃ row ∈ settledRows w.money.data.db, row.balanceAfter.map Int4.val = some 1250) ∧
      ∃ e ∈ tr.filterMap authEvent, Asks user e ∧
        w.auth.client e.label.1 = .done (.signed token) := by
  obtain ⟨tr, w, hrun, -, hs⟩ := Run.of_trace_map (next (plainEnv []) fun _ => "") watchedDeposit
    (start (fun _ => none) signedIn)
    (fun _ w => (liveBalance 10 0 (told w 9), (told w 9).length)) (1250, 3) (by decide)
  obtain ⟨hbalance, hlength⟩ := Prod.mk.inj hs
  have hne : told w 9 ≠ [] := List.ne_nil_of_length_pos (by rw [hlength]; decide)
  obtain ⟨user, token, ⟨e, -, -, now, -, -, -, hpurpose, -⟩, hasked, -, hshown⟩ :=
    (connection_told hrun 9).2 hne
  obtain ⟨howner, row, hrow, -, hafter⟩ := (hshown 10 0).resolve_left (by rw [hbalance]; decide)
  refine ⟨tr, w, user, token, hrun, hbalance, hlength, howner, ⟨row, hrow, hbalance ▸ hafter⟩,
    hasked fun hold => ?_⟩
  rw [List.mem_singleton.mp hold] at hpurpose
  cases hpurpose

end World

end MaxOne.LiveEvents
