import MaxOne.TransferPairs

/-!
# The audit trail and the outbox

A commit of a block settles one ledger row, or the two rows of a transfer, and
writes one audit entry and, except for an adjustment, one event beside them.
`Books` says that the tables are what a list of such commits has left: the
settled rows, the entries and the events correspond one to one. Nothing outside
the blocks writes any of the three.
-/
namespace MaxOne.AuditTrail
open Library Library.Runs Library.Interleaving Library.LockedBlocks MaxOne.Rates MaxOne.Schema
  MaxOne.WalletsService MaxOne.WalletsMachine MaxOne.Ledger MaxOne.MoneyRuns MaxOne.TransferPairs

/-- Every ledger row but a waiting withdrawal request. -/
def settledRows (d : Db) : List Transaction :=
  d.transactions.rows.filter fun t => t.status ≠ .pending

def events (d : Db) : List NotificationPushEvent := d.outboxEvents.rows.map OutboxEvent.payload

/-! ## One commit -/

structure Commit where
  rows : List Transaction
  audit : AuditLog
  event : Option NotificationPushEvent

def Commit.transferId (c : Commit) : Option Uuid := c.rows.head?.bind Transaction.transferId

structure Concerns (audit : AuditLog) (action : AuditAction) (entityType : AuditEntityType)
    (entityId : Uuid) : Prop where
  action_eq : audit.action = action
  type_eq : audit.entityType = entityType
  id_eq : audit.entityId = entityId

/-- The entry records this balance column. -/
def Records (object : JsonObject) (field : String) (column : Option Int4) : Prop :=
  ∃ balance, column = some balance ∧ (field, Json.num balance.val) ∈ object

def OwnedBy (d : Db) (walletId userId : Uuid) : Prop :=
  (owner d walletId).map Owner.userId = some userId

/-- The rows, the entry and the event of one commit fit together. -/
inductive Commit.Ok (d : Db) : Commit → Prop
  | deposit {row : Transaction} {audit : AuditLog} {event : NotificationPushEvent}
      (htype : row.type = .deposit) (hstatus : row.status = .approved)
      (haudit : Concerns audit .depositSettle .transaction row.id)
      (hbefore : Records audit.oldValue "balance" row.balanceBefore)
      (hafter : Records audit.newValue "balance" row.balanceAfter)
      (howner : OwnedBy d row.walletId event.userId) : Ok d ⟨[row], audit, some event⟩
  | approval {row : Transaction} {audit : AuditLog} {event : NotificationPushEvent}
      (htype : row.type = .withdrawal) (hstatus : row.status = .approved)
      (haudit : Concerns audit .withdrawalApprove .transaction row.id)
      (hafter : Records audit.newValue "balanceAfter" row.balanceAfter)
      (howner : OwnedBy d row.walletId event.userId) : Ok d ⟨[row], audit, some event⟩
  | rejection {row : Transaction} {audit : AuditLog} {event : NotificationPushEvent}
      (htype : row.type = .withdrawal) (hstatus : row.status = .rejected)
      (haudit : Concerns audit .withdrawalReject .transaction row.id)
      (howner : OwnedBy d row.walletId event.userId) : Ok d ⟨[row], audit, some event⟩
  | adjustment {row : Transaction} {audit : AuditLog} (htype : row.type = .adjustment)
      (hstatus : row.status = .approved)
      (haudit : Concerns audit .walletAdjust .wallet row.walletId)
      (hbefore : Records audit.oldValue "balance" row.balanceBefore)
      (hafter : Records audit.newValue "balance" row.balanceAfter) : Ok d ⟨[row], audit, none⟩
  | transfer {out inn : Transaction} {audit : AuditLog} {event : NotificationPushEvent} {x : Uuid}
      (htypes : out.type = .transferOut ∧ inn.type = .transferIn)
      (hids : out.transferId = some x ∧ inn.transferId = some x)
      (haudit : Concerns audit .walletTransfer .wallet out.walletId)
      (hbefore : Records audit.oldValue "balance" out.balanceBefore)
      (hafter : Records audit.newValue "balance" out.balanceAfter)
      (howner : OwnedBy d inn.walletId event.userId) : Ok d ⟨[out, inn], audit, some event⟩

theorem OwnedBy.mono {d d' : Db} {walletId userId : Uuid} (h : OwnedBy d walletId userId)
    (ho : ∀ {id o}, owner d id = some o → owner d' id = some o) : OwnedBy d' walletId userId := by
  obtain ⟨o, hfound, huser⟩ := Option.map_eq_some_iff.mp h
  exact Option.map_eq_some_iff.mpr ⟨o, ho hfound, huser⟩

theorem Commit.Ok.mono {d d' : Db} {c : Commit} (h : c.Ok d)
    (ho : ∀ {id o}, owner d id = some o → owner d' id = some o) : c.Ok d' := by
  cases h with
  | deposit htype hstatus haudit hbefore hafter howner =>
      exact .deposit htype hstatus haudit hbefore hafter (howner.mono ho)
  | approval htype hstatus haudit hafter howner =>
      exact .approval htype hstatus haudit hafter (howner.mono ho)
  | rejection htype hstatus haudit howner =>
      exact .rejection htype hstatus haudit (howner.mono ho)
  | adjustment htype hstatus haudit hbefore hafter =>
      exact .adjustment htype hstatus haudit hbefore hafter
  | transfer htypes hids haudit hbefore hafter howner =>
      exact .transfer htypes hids haudit hbefore hafter (howner.mono ho)

/-- What a commit adds to the tables. -/
structure Adds (d d' : Db) (c : Commit) : Prop where
  rows : (settledRows d').Perm (settledRows d ++ c.rows)
  audits : d'.auditLogs.rows = d.auditLogs.rows ++ [c.audit]
  events : events d' = events d ++ c.event.toList

section Tables
variable {d d' : Db}

theorem settledRows_insert {row : Transaction} (hrow : row.status = .approved)
    (h : d.transactions.insert row = some d'.transactions) :
    settledRows d' = settledRows d ++ [row] := by
  rw [settledRows, Table.insert_rows h, List.filter_append, List.filter_singleton,
    hrow]
  rfl

theorem settledRows_settle {row : Transaction} {settlement : Settlement}
    (hrow : d.transactions.find row.id = some row) (hpending : row.status = .pending)
    (h : d'.transactions = (d.settle row.id settlement).transactions) :
    (settledRows d').Perm (settledRows d ++ [settlement.apply row]) := by
  rw [settledRows, h, Db.settle_transactions]
  refine Table.filter_modify_perm hrow (by simp [hpending]) ?_
  cases settlement <;> simp [Settlement.apply]

theorem ownedBy_of_find {wallet : Wallet} {id : Uuid} (h : d.wallets.find id = some wallet) :
    OwnedBy d id wallet.userId := by
  rw [OwnedBy, owner_of_find h, Option.map_some]

end Tables

/-! ## What each block commits -/

section Blocks
variable {s acc s' : Shared} {r : Committed} {draw : Draw} {actor : AuthUser}

/-- The last statements of an adjustment. -/
theorem adds_of_entry {d : Db} {rows : List Transaction} {row : AuditLog} {r₀ : Committed}
    (h : Commits s acc (.write (.createAuditLog row) (.commit r₀)) r s')
    (hrows : (settledRows acc.db).Perm (settledRows d ++ rows))
    (ha : acc.db.auditLogs = d.auditLogs) (ho : acc.db.outboxEvents = d.outboxEvents) :
    Adds d s'.db ⟨rows, row, none⟩ := by
  obtain ⟨db, haudit, h⟩ := commits_write.mp h
  obtain ⟨-, rfl⟩ := commits_commit.mp h
  obtain ⟨-, ht', ho', ha'⟩ := exec_createAuditLog haudit
  refine ⟨?_, ?_, ?_⟩
  · rwa [settledRows, ht']
  · change db.auditLogs.rows = _
    rw [Table.insert_rows ha', ha]
  · change db.outboxEvents.rows.map OutboxEvent.payload = _
    rw [ho', ho, Option.toList_none, List.append_nil]
    rfl

/-- The last statements of every other block. -/
theorem adds_of_entries {d : Db} {rows : List Transaction} {row : AuditLog}
    {event : NotificationPushEvent} {r₀ : Committed}
    (h : Commits s acc (.write (.createAuditLog row) (.write (.createOutboxEvent (outboxRow event))
      (.commit r₀))) r s')
    (hrows : (settledRows acc.db).Perm (settledRows d ++ rows))
    (ha : acc.db.auditLogs = d.auditLogs) (ho : acc.db.outboxEvents = d.outboxEvents) :
    Adds d s'.db ⟨rows, row, some event⟩ := by
  obtain ⟨db₁, haudit, h⟩ := commits_write.mp h
  obtain ⟨db₂, houtbox, h⟩ := commits_write.mp h
  obtain ⟨-, rfl⟩ := commits_commit.mp h
  obtain ⟨-, ht₁, ho₁, ha₁⟩ := exec_createAuditLog haudit
  obtain ⟨-, ht₂, ha₂, ho₂⟩ := exec_createOutboxEvent houtbox
  refine ⟨?_, ?_, ?_⟩
  · rwa [settledRows, ht₂, ht₁]
  · change db₂.auditLogs.rows = _
    rw [ha₂, Table.insert_rows ha₁, ha]
  · change db₂.outboxEvents.rows.map OutboxEvent.payload = _
    rw [Table.insert_rows ho₂, List.map_append, ho₁, ho]
    rfl

theorem depositBlock_commit {id : Uuid} {dto : MoneyAmountDto}
    (h : Commits s s (depositBlock id actor dto draw) r s') :
    ∃ c : Commit, Adds s.db s'.db c ∧ c.Ok s.db ∧ c.transferId = none := by
  obtain ⟨wallet, hfind, h⟩ := commits_found rfl h
  obtain ⟨after, hafter, h⟩ := commits_withInt4.mp h
  obtain ⟨amount, hamount, h⟩ := commits_withInt4.mp (commits_updateWallet h)
  obtain ⟨db, hdb, h⟩ := commits_write.mp h
  obtain ⟨ht, -, ha, ho⟩ := Db.createTransaction_cases hdb
  have hrows : settledRows db = settledRows s.db ++
      [settledRow draw id .deposit amount wallet.balance after actor dto.note] :=
    settledRows_insert rfl ht
  have hadds := adds_of_entries (d := s.db) h (.of_eq hrows) ha ho
  exact ⟨_, hadds, .deposit rfl rfl ⟨rfl, rfl, rfl⟩ ⟨wallet.balance, rfl, List.mem_cons_self⟩
    ⟨after, rfl, List.mem_cons_self⟩ (ownedBy_of_find hfind), rfl⟩

theorem adjustBlock_commit {walletId : Uuid} {dto : AdjustmentDto}
    (h : Commits s s (adjustBlock walletId dto actor draw) r s') :
    ∃ c : Commit, Adds s.db s'.db c ∧ c.Ok s.db ∧ c.transferId = none := by
  obtain ⟨wallet, hfind, h⟩ := commits_found rfl h
  obtain ⟨-, h⟩ := commits_refuse.mp h
  obtain ⟨after, hafter, h⟩ := commits_withInt4.mp h
  obtain ⟨amount, hamount, h⟩ := commits_withInt4.mp (commits_updateWallet h)
  obtain ⟨db, hdb, h⟩ := commits_write.mp h
  obtain ⟨ht, -, ha, ho⟩ := Db.createTransaction_cases hdb
  have hrows : settledRows db = settledRows s.db ++ [settledRow draw walletId .adjustment amount
      wallet.balance after actor (some dto.note)] := settledRows_insert rfl ht
  have hadds := adds_of_entry (d := s.db) h (.of_eq hrows) ha ho
  exact ⟨_, hadds, .adjustment rfl rfl ⟨rfl, rfl, rfl⟩
    ⟨wallet.balance, rfl, List.mem_cons_self⟩ ⟨after, rfl, List.mem_cons_self⟩, rfl⟩

theorem approveBlock_commit {txnId : Uuid} (hp : PendingOk s.db)
    (h : Commits s s (approveBlock txnId actor draw) r s') :
    ∃ c : Commit, Adds s.db s'.db c ∧ c.Ok s.db ∧ c.transferId = none := by
  obtain ⟨row, hrow, hblock⟩ := commits_foundRow rfl h
  obtain rfl := Table.find_key hrow
  obtain ⟨hstatus, h⟩ := commits_refuse.mp hblock
  have hpending := hp row (Table.mem_of_find hrow) (not_not.mp hstatus)
  obtain ⟨wallet, hfind, h⟩ := commits_found rfl h
  dsimp only at h
  cases hbal : approvedBalance row wallet.balance.val with
  | error e =>
      rw [hbal] at h
      exact absurd h commits_fail
  | ok balance =>
      rw [hbal] at h
      obtain ⟨after, hafter, h⟩ := commits_withInt4.mp h
      obtain ⟨db, hdb, h⟩ := commits_write.mp (commits_updateWallet h)
      obtain rfl := exec_updateTransaction hdb
      let settlement : Settlement := .approve actor.id draw.now wallet.balance after
      have hrows : (settledRows ((s.db.updateWallet wallet.id after).settle row.id
          settlement)).Perm (settledRows s.db ++ [settlement.apply row]) :=
        settledRows_settle hrow (not_not.mp hstatus) rfl
      rw [if_pos hpending.1] at h
      have hadds := adds_of_entries (d := s.db) h hrows rfl rfl
      exact ⟨_, hadds, .approval hpending.1 rfl ⟨rfl, rfl, rfl⟩
        ⟨after, rfl, List.mem_cons_of_mem _ List.mem_cons_self⟩ (ownedBy_of_find hfind),
        hpending.2.1⟩

theorem rejectBlock_commit {txnId : Uuid} {note : Option String} (hp : PendingOk s.db)
    (h : Commits s s (rejectBlock txnId actor note draw) r s') :
    ∃ c : Commit, Adds s.db s'.db c ∧ c.Ok s.db ∧ c.transferId = none := by
  obtain ⟨row, hrow, hblock⟩ := commits_foundRow rfl h
  obtain rfl := Table.find_key hrow
  obtain ⟨hstatus, h⟩ := commits_refuse.mp hblock
  have hmem := Table.mem_of_find hrow
  have hpending := hp row hmem (not_not.mp hstatus)
  obtain ⟨wallet, hfind⟩ := Option.ne_none_iff_exists'.mp (s.db.wallet_fk row hmem)
  obtain ⟨db, hdb, h⟩ := commits_write.mp h
  obtain rfl := exec_updateTransaction hdb
  let settlement : Settlement := .reject actor.id draw.now (note.orElse fun _ => row.note)
  have hrows : (settledRows (s.db.settle row.id settlement)).Perm
      (settledRows s.db ++ [settlement.apply row]) :=
    settledRows_settle hrow (not_not.mp hstatus) rfl
  obtain ⟨db₁, haudit, h⟩ := commits_write.mp h
  rw [commits_peek, owner_of_find hfind] at h
  have hentries := commits_write.mpr ⟨db₁, haudit, h⟩
  rw [if_pos hpending.1] at hentries
  dsimp only at hentries
  have hadds := adds_of_entries (d := s.db) hentries hrows rfl rfl
  exact ⟨_, hadds, .rejection hpending.1 rfl ⟨rfl, rfl, rfl⟩ (ownedBy_of_find hfind),
    hpending.2.1⟩

theorem transferWrites_commit {a : TransferArgs} {source dest : Wallet}
    (hdest : s.db.wallets.find a.dto.toWalletId = some dest)
    (h : Commits s s (transferWrites a draw source dest) r s') :
    ∃ c : Commit, Adds s.db s'.db c ∧ c.Ok s.db ∧ c.transferId = some draw.transferId := by
  obtain ⟨-, h⟩ := commits_refuse.mp h
  obtain ⟨fromAfter, -, h⟩ := commits_withInt4.mp h
  have h := commits_updateWallet h
  cases hcredit : a.credit with
  | none =>
      rw [hcredit] at h
      exact absurd h commits_fail
  | some credit =>
      rw [hcredit] at h
      obtain ⟨toAfter, -, h⟩ := commits_withInt4.mp h
      obtain ⟨rate, -, h⟩ := commits_withRate (commits_updateWallet h)
      obtain ⟨amount, -, h⟩ := commits_withInt4.mp h
      obtain ⟨db₁, hout, h⟩ := commits_write.mp h
      obtain ⟨credited, rfl, h⟩ := commits_withInt4.mp h
      obtain ⟨db₂, hin, h⟩ := commits_write.mp h
      obtain ⟨ht₁, -, ha₁, ho₁⟩ := Db.createTransaction_cases hout
      obtain ⟨ht₂, -, ha₂, ho₂⟩ := Db.createTransaction_cases hin
      have hfirst : settledRows db₁ = settledRows s.db ++
          [outRow a draw rate source dest amount fromAfter] := settledRows_insert rfl ht₁
      have hsecond : settledRows db₂ = settledRows db₁ ++
          [inRow a draw rate source dest credited toAfter] := settledRows_insert rfl ht₂
      rw [hfirst, List.append_assoc] at hsecond
      have hadds := adds_of_entries (d := s.db) h (.of_eq hsecond) (ha₂.trans ha₁) (ho₂.trans ho₁)
      have hfound : s.db.wallets.find dest.id = some dest := by rwa [Table.find_key hdest]
      exact ⟨_, hadds, .transfer ⟨rfl, rfl⟩ ⟨rfl, rfl⟩ ⟨rfl, rfl, rfl⟩
        ⟨source.balance, rfl, List.mem_cons_self⟩ ⟨fromAfter, rfl, List.mem_cons_self⟩
        (ownedBy_of_find hfound), rfl⟩

theorem transferBlock_commit {a : TransferArgs} (h : Commits s s (transferBlock a draw) r s') :
    ∃ c : Commit, Adds s.db s'.db c ∧ c.Ok s.db ∧ c.transferId = some draw.transferId := by
  obtain ⟨source, dest, -, hdest, hwrites⟩ := commits_transferBlock h
  exact transferWrites_commit hdest hwrites

/-- Every block that commits adds one commit, of its own transfer if of any. -/
theorem block_commit {body : TxnBody} (hp : PendingOk s.db)
    (h : Commits s s (body.block draw) r s') :
    ∃ c : Commit, Adds s.db s'.db c ∧ c.Ok s.db ∧
      ∀ x, c.transferId = some x → draw.transferId = x := by
  have hnone : ∀ {c : Commit}, c.transferId = none →
      ∀ x, c.transferId = some x → draw.transferId = x := by
    intro c hc x hx
    rw [hc] at hx
    cases hx
  cases body with
  | deposit id actor dto =>
      obtain ⟨c, hadds, hok, hc⟩ := depositBlock_commit h
      exact ⟨c, hadds, hok, hnone hc⟩
  | review r =>
      cases r with
      | approve txnId actor =>
          obtain ⟨c, hadds, hok, hc⟩ := approveBlock_commit hp h
          exact ⟨c, hadds, hok, hnone hc⟩
      | reject txnId actor note =>
          obtain ⟨c, hadds, hok, hc⟩ := rejectBlock_commit hp h
          exact ⟨c, hadds, hok, hnone hc⟩
  | adjust walletId dto actor =>
      obtain ⟨c, hadds, hok, hc⟩ := adjustBlock_commit h
      exact ⟨c, hadds, hok, hnone hc⟩
  | transfer a =>
      obtain ⟨c, hadds, hok, hc⟩ := transferBlock_commit h
      refine ⟨c, hadds, hok, fun x hx => ?_⟩
      rw [hc] at hx
      exact Option.some.inj hx

end Blocks

/-! ## The tables as a list of commits -/

/-- Settled rows, audit entries and events are those of these commits. -/
structure Books (d : Db) (commits : List Commit) : Prop where
  ok : ∀ c ∈ commits, c.Ok d
  rows : (settledRows d).Perm (commits.flatMap Commit.rows)
  audits : d.auditLogs.rows = commits.map Commit.audit
  events : events d = commits.filterMap Commit.event
  transfers : (commits.filterMap Commit.transferId).Nodup

section Books
variable {d d' : Db} {commits : List Commit} {c : Commit}

theorem books_empty : Books .empty [] where
  ok _ hc := absurd hc List.not_mem_nil
  rows := .of_eq rfl
  audits := rfl
  events := rfl
  transfers := List.nodup_nil

theorem Books.keep (h : Books d commits) (hrows : settledRows d' = settledRows d)
    (haudits : d'.auditLogs = d.auditLogs) (hevents : AuditTrail.events d' = AuditTrail.events d)
    (ho : ∀ {id o}, owner d id = some o → owner d' id = some o) : Books d' commits where
  ok c hc := (h.ok c hc).mono ho
  rows := by rw [hrows]; exact h.rows
  audits := by rw [haudits]; exact h.audits
  events := by rw [hevents]; exact h.events
  transfers := h.transfers

/-- The first row of a commit is settled, so its transfer is in the ledger. -/
theorem Books.pairRows_ne_nil (h : Books d commits) (hc : c ∈ commits) {x : Uuid}
    (hx : c.transferId = some x) : pairRows x d ≠ [] := by
  obtain ⟨row, hrow, hid⟩ := Option.bind_eq_some_iff.mp hx
  have hmem : row ∈ commits.flatMap Commit.rows :=
    List.mem_flatMap.mpr ⟨c, hc, List.mem_of_mem_head? hrow⟩
  have hsettled := (List.mem_filter.mp (h.rows.mem_iff.mpr hmem)).1
  exact List.ne_nil_of_mem (List.mem_filter.mpr ⟨hsettled, decide_eq_true hid⟩)

theorem Books.add (h : Books d commits) (hadds : Adds d d' c) (hc : c.Ok d)
    (ho : ∀ {id o}, owner d id = some o → owner d' id = some o)
    (hnew : ∀ x, c.transferId = some x → pairRows x d = []) : Books d' (commits ++ [c]) where
  ok e he := by
    rcases List.mem_append.mp he with hold | hlast
    · exact (h.ok e hold).mono ho
    · rw [List.mem_singleton.mp hlast]
      exact hc.mono ho
  rows := by
    rw [List.flatMap_append, List.flatMap_singleton]
    exact hadds.rows.trans (h.rows.append_right c.rows)
  audits := by rw [hadds.audits, h.audits, List.map_append, List.map_singleton]
  events := by
    rw [hadds.events, h.events, List.filterMap_append]
    cases hevent : c.event <;> simp [hevent]
  transfers := by
    rw [List.filterMap_append, List.nodup_append]
    refine ⟨h.transfers, ?_, ?_⟩
    · cases hx : c.transferId <;> simp [hx]
    · intro x hx y hy
      obtain ⟨e, he, hex⟩ := List.mem_filterMap.mp hx
      obtain ⟨c', hc', hcy⟩ := List.mem_filterMap.mp hy
      rw [List.mem_singleton.mp hc'] at hcy
      rintro rfl
      exact h.pairRows_ne_nil he hex (hnew x hcy)

end Books

/-! ## One entry for each row -/

theorem Commit.Ok.row_of_audit {d : Db} {c : Commit} (h : c.Ok d)
    (htype : c.audit.entityType = .transaction) :
    ∃ row, row ∈ c.rows ∧ c.audit.entityId = row.id := by
  cases h with
  | @deposit row _ _ _ _ haudit => exact ⟨row, List.mem_singleton_self row, haudit.id_eq⟩
  | @approval row _ _ _ _ haudit => exact ⟨row, List.mem_singleton_self row, haudit.id_eq⟩
  | @rejection row _ _ _ _ haudit => exact ⟨row, List.mem_singleton_self row, haudit.id_eq⟩
  | adjustment _ _ haudit =>
      rw [haudit.type_eq] at htype
      cases htype
  | transfer _ _ haudit =>
      rw [haudit.type_eq] at htype
      cases htype

theorem Commit.Ok.audit_of_row {d : Db} {c : Commit} (h : c.Ok d) {t : Transaction}
    (ht : t ∈ c.rows) (htype : t.type = .deposit ∨ t.type = .withdrawal) :
    c.audit.entityType = .transaction ∧ c.audit.entityId = t.id := by
  cases h with
  | deposit _ _ haudit =>
      rw [List.mem_singleton.mp ht]
      exact ⟨haudit.type_eq, haudit.id_eq⟩
  | approval _ _ haudit =>
      rw [List.mem_singleton.mp ht]
      exact ⟨haudit.type_eq, haudit.id_eq⟩
  | rejection _ _ haudit =>
      rw [List.mem_singleton.mp ht]
      exact ⟨haudit.type_eq, haudit.id_eq⟩
  | adjustment hadjusts =>
      rw [List.mem_singleton.mp ht, hadjusts] at htype
      rcases htype with hd | hw
      · cases hd
      · cases hw
  | transfer htypes =>
      rcases List.mem_cons.mp ht with rfl | hin
      · rw [htypes.1] at htype
        rcases htype with hd | hw
        · cases hd
        · cases hw
      · rw [List.mem_singleton.mp hin, htypes.2] at htype
        rcases htype with hd | hw
        · cases hd
        · cases hw

section Unique
variable {d : Db} {commits : List Commit} {c c' : Commit} {t : Transaction}

/-- No row is settled by two commits. -/
theorem Books.commit_unique (h : Books d commits) (hc : c ∈ commits) (hc' : c' ∈ commits)
    (ht : t ∈ c.rows) (ht' : t ∈ c'.rows) : c = c' := by
  have hrows : d.transactions.rows.Nodup := d.transactions.nodup.of_map _
  have hnodup : (commits.flatMap Commit.rows).Nodup := h.rows.nodup_iff.mp (hrows.filter _)
  have hpairwise := (List.nodup_flatMap.mp hnodup).2
  have hsymm : Std.Symm (Function.onFun List.Disjoint Commit.rows) :=
    ⟨fun _ _ hd => List.Disjoint.symm hd⟩
  by_contra hne
  have hdisjoint : List.Disjoint c.rows c'.rows := hpairwise.forall hc hc' hne
  exact hdisjoint ht ht'

theorem Books.mem_rows (h : Books d commits) (hc : c ∈ commits) (ht : t ∈ c.rows) :
    t ∈ d.transactions.rows :=
  (List.mem_filter.mp (h.rows.mem_iff.mpr (List.mem_flatMap.mpr ⟨c, hc, ht⟩))).1

/-- A settled deposit or withdrawal has one audit entry of its own. -/
theorem Books.audit_unique (h : Books d commits) (ht : t ∈ settledRows d)
    (htype : t.type = .deposit ∨ t.type = .withdrawal) :
    ∃! audit, audit ∈ d.auditLogs.rows ∧ audit.entityType = .transaction ∧
      audit.entityId = t.id := by
  obtain ⟨c, hc, htc⟩ := List.mem_flatMap.mp (h.rows.mem_iff.mp ht)
  have hentity := (h.ok c hc).audit_of_row htc htype
  refine ⟨c.audit, ⟨?_, hentity⟩, fun audit haudit => ?_⟩
  · rw [h.audits]
    exact List.mem_map_of_mem hc
  · obtain ⟨hmem, hkind, hid⟩ := haudit
    rw [h.audits] at hmem
    obtain ⟨c', hc', rfl⟩ := List.mem_map.mp hmem
    obtain ⟨row, hrow, hrowid⟩ := (h.ok c' hc').row_of_audit hkind
    have hsame : row = t := by
      refine Table.eq_of_key (h.mem_rows hc' hrow) (h.mem_rows hc htc) ?_
      rw [← hrowid, hid]
    subst hsame
    rw [h.commit_unique hc' hc hrow htc]

end Unique

/-- A statement outside the blocks writes none of the three. -/
theorem step_keeps {i : Input} {p q : Pc} {s s' : Shared} (h : step i p s = some (q, s')) :
    settledRows s'.db = settledRows s.db ∧ s'.db.auditLogs = s.db.auditLogs ∧
      events s'.db = events s.db := by
  cases step_statement h with
  | createsWallet db hdb =>
      obtain ⟨-, ht, ha, ho⟩ := Db.createWallet_cases hdb
      rw [settledRows, events, settledRows, events, ht, ho]
      exact ⟨rfl, ha, rfl⟩
  | requests amount db hamount hdb =>
      obtain ⟨ht, -, ha, ho⟩ := Db.createTransaction_cases hdb
      rw [settledRows, events, settledRows, events, ho, Table.insert_rows ht, List.filter_append]
      exact ⟨List.append_nil _, ha, rfl⟩
  | publishes db hw ht ha ho =>
      rw [settledRows, settledRows, ht]
      exact ⟨rfl, ha, ho⟩
  | _ => exact ⟨rfl, rfl, rfl⟩

/-- The invariant of the specification machine. -/
structure PoolBooks (s : Pool Shared Pc) : Prop where
  pending : PendingOk s.data.db
  fresh : Fresh s
  books : ∃ commits, Books s.data.db commits

theorem PoolBooks.next {s t : Pool Shared Pc} {l : ℕ × LockedBlocks.Input Input HttpException}
    (h : PoolBooks s) (hn : Interleaving.next moneyStep l s = some t) : PoolBooks t := by
  have hfresh := h.fresh.next h.pending hn
  obtain ⟨q, s', hstep, rfl⟩ := next_cases hn
  obtain ⟨commits, hbooks⟩ := h.books
  have howner : ∀ {id o}, owner s.data.db id = some o → owner s'.db id = some o :=
    moneyStep_owner hstep
  obtain ⟨i, -, hi⟩ | ⟨body, draw, r, hp, hc, rfl⟩ | ⟨body, draw, e, -, rfl, rfl⟩ :=
    moneyStep_cases hstep
  · obtain ⟨hrows, haudits, hevents⟩ := step_keeps hi
    exact ⟨h.pending.single (step_single hi), hfresh, commits,
      hbooks.keep hrows haudits hevents howner⟩
  · obtain ⟨c, hadds, hok, hx⟩ := block_commit h.pending hc
    refine ⟨h.pending.effect (block_effect hc), hfresh, commits ++ [c],
      hbooks.add hadds hok howner fun x hcx => ?_⟩
    have hdrawn := h.fresh.drawn l.1 draw (by rw [hp, drawOf])
    rw [← hx x hcx]
    exact hdrawn.2
  · exact ⟨h.pending, hfresh, commits, hbooks⟩

/-- In every reachable state the settled ledger rows, the audit entries and the
events are those of one list of commits, and the entry of a settled deposit or
withdrawal is the only one about its row. -/
theorem one_entry_per_change {users : Uuid → Option Account} {s : Machine} {tr : Trace}
    (h : Run next (start ⟨.empty, users, [], []⟩) tr s) :
    ∃ commits, Books s.data.db commits ∧ ∀ t ∈ settledRows s.data.db,
      t.type = .deposit ∨ t.type = .withdrawal →
        ∃! audit, audit ∈ s.data.db.auditLogs.rows ∧ audit.entityType = .transaction ∧
          audit.entityId = t.id := by
  obtain ⟨us, hus, -⟩ := run_refines (Q := program) (State.idle_ok _ _) h
  have hstart : PoolBooks (start ⟨.empty, users, [], []⟩).abs :=
    ⟨pendingOk_empty, start_fresh users, [], books_empty⟩
  have hbooks := (hus.invariant PoolBooks hstart fun _ _ _ hs hn => hs.next hn).books
  obtain ⟨commits, hcommits⟩ := hbooks
  exact ⟨commits, hcommits, fun t ht htype => hcommits.audit_unique ht htype⟩

theorem one_entry_per_change_across :
    ∃ tr s, Run next (start ⟨.empty, fun _ => none, [], []⟩) tr s ∧
      s.data.db.auditLogs.rows.map AuditLog.action = [.depositSettle, .walletTransfer] ∧
      ∃ commits, Books s.data.db commits ∧ commits.length = 2 := by
  obtain ⟨tr, s, hrun, -, hs⟩ := Run.of_trace_map next
    (acrossCurrencies ⟨11, 1000, none, by decide⟩ (.finite ⟨5, 0⟩))
    (start ⟨.empty, fun _ => none, [], []⟩)
    (fun _ s => s.data.db.auditLogs.rows.map AuditLog.action) [.depositSettle, .walletTransfer]
    (by decide)
  obtain ⟨commits, hbooks, -⟩ := one_entry_per_change hrun
  have hlength := congrArg List.length hs
  rw [hbooks.audits, List.length_map, List.length_map] at hlength
  exact ⟨tr, s, hrun, hs, commits, hbooks, hlength⟩

end MaxOne.AuditTrail
