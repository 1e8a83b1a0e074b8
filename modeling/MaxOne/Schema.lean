import MaxOne.Library.Table
import MaxOne.Rates

/-!
# Tables of the money path

Rows follow `schema.prisma`. INTEGER columns are `Int4`, so a row outside the
32-bit range cannot be built; primary keys and the foreign key from
`Transaction` to `Wallet` are part of `Db`. `Stmt` lists the writing statements
of the transaction blocks and `Stmt.exec` runs one: `none` is a constraint
violation, which aborts the transaction. Columns no modelled function reads
(`createdAt`, `updatedAt`) are left out.
-/
namespace MaxOne.Schema
open Library MaxOne.Rates Library.DecimalRounding

/-- Identifiers are only compared and ordered. -/
abbrev Uuid := ℕ

/-- Milliseconds since the epoch, as `Date.now()` counts. -/
abbrev Time := ℕ

/-! ## Errors of a request -/

/-- An HTTP exception, with the stable code some of them carry. -/
structure HttpException where
  status : ℕ
  message : String
  code : Option String
  deriving DecidableEq, Repr

def badRequest (message : String) : HttpException := ⟨400, message, none⟩
def unauthorized (message : String) : HttpException := ⟨401, message, none⟩
def forbidden (message : String) : HttpException := ⟨403, message, none⟩
def notFound (message : String) : HttpException := ⟨404, message, none⟩
def conflict (message : String) : HttpException := ⟨409, message, none⟩
def serviceUnavailable (message : String) : HttpException := ⟨503, message, none⟩

/-- Prisma P2025, as the exception filter renders it. -/
def recordNotFound : HttpException := ⟨404, "Record not found", some "NOT_FOUND"⟩

/-- Prisma P2002. -/
def alreadyExists : HttpException := ⟨409, "Already exists", some "CONFLICT"⟩

/-- Anything that is not an HTTP exception: a constraint violation, a lost
connection, a value no column accepts. -/
def internalError : HttpException := ⟨500, "Internal server error", none⟩

/-! ## Rows -/

/-- `request.user`, as `JwtStrategy.validate` builds it; `email` and `role` are
what the token says. -/
structure AuthUser where
  id : Uuid
  email : Option String
  role : Option String
  totpEnabled : Bool
  deriving DecidableEq, Repr

/-- `getAuditContext()`. -/
structure AuditContext where
  requestId : String
  ipAddress : Option String
  userAgent : Option String
  deriving DecidableEq, Repr

/-- An INTEGER column. -/
structure Int4 where
  val : ℤ
  range : -2147483648 ≤ val ∧ val ≤ 2147483647
  deriving DecidableEq, Repr

namespace Int4

def ofInt? (z : ℤ) : Option Int4 :=
  if h : -2147483648 ≤ z ∧ z ≤ 2147483647 then some ⟨z, h⟩ else none

def zero : Int4 := ⟨0, by norm_num⟩

theorem val_of_ofInt? {z : ℤ} {v : Int4} (h : ofInt? z = some v) : v.val = z := by
  unfold ofInt? at h
  split_ifs at h
  rw [Option.some.injEq] at h
  rw [← h]

theorem abs_val_le (v : Int4) : |v.val| ≤ 2147483648 := by
  have h := v.range
  rw [abs_le]
  omega

end Int4

inductive TxnType where
  | deposit | withdrawal | adjustment | transferOut | transferIn
  deriving DecidableEq, Repr

inductive TxnStatus where
  | pending | approved | rejected
  deriving DecidableEq, Repr

structure Wallet where
  id : Uuid
  userId : Uuid
  name : String
  currency : String
  balance : Int4
  deriving DecidableEq, Repr

structure Transaction where
  id : Uuid
  walletId : Uuid
  type : TxnType
  amount : Int4
  balanceBefore : Option Int4
  balanceAfter : Option Int4
  status : TxnStatus
  requestedBy : Uuid
  reviewedBy : Option Uuid
  reviewedAt : Option Time
  note : Option String
  transferId : Option Uuid
  counterpartyWalletId : Option Uuid
  exchangeRate : Option Dec
  deriving DecidableEq, Repr

/-- The closed set of audited actions. -/
inductive AuditAction where
  | depositSettle | depositApprove | depositReject | withdrawalApprove | withdrawalReject
  | walletAdjust | walletTransfer | userStatusChange | userRoleChange
  deriving DecidableEq, Repr

inductive AuditEntityType where
  | transaction | wallet | user
  deriving DecidableEq, Repr

/-- Values of an audit entry; `rate` is a rate's exact decimal string. -/
inductive Json where
  | null
  | num (z : ℤ)
  | str (s : String)
  | id (u : Uuid)
  | rate (r : Decimal)
  deriving DecidableEq, Repr

abbrev JsonObject := List (String × Json)

structure AuditLog where
  id : Uuid
  actorUserId : Uuid
  action : AuditAction
  entityType : AuditEntityType
  entityId : Uuid
  oldValue : JsonObject
  newValue : JsonObject
  ipAddress : Option String
  userAgent : Option String
  deriving DecidableEq, Repr

structure NotificationPayload where
  title : String
  body : String
  tag : Uuid
  url : String
  deriving DecidableEq, Repr

structure NotificationPushEvent where
  id : Uuid
  type : String
  occurredAt : Time
  userId : Uuid
  payload : NotificationPayload
  requestId : Option String
  deriving DecidableEq, Repr

inductive OutboxStatus where
  | pending | published
  deriving DecidableEq, Repr

structure OutboxEvent where
  id : Uuid
  routingKey : String
  payload : NotificationPushEvent
  status : OutboxStatus
  attempts : ℕ
  lastError : Option String
  publishedAt : Option Time
  deriving DecidableEq, Repr

/-- The tables, with the constraints the database keeps. -/
structure Db where
  wallets : Table Wallet Wallet.id
  transactions : Table Transaction Transaction.id
  auditLogs : Table AuditLog AuditLog.id
  outboxEvents : Table OutboxEvent OutboxEvent.id
  wallet_fk : ∀ t ∈ transactions.rows, wallets.find t.walletId ≠ none

namespace Db

def empty : Db := ⟨.empty, .empty, .empty, .empty, by simp⟩

/-- Rewriting wallets keeps their ids, so it keeps the foreign key. -/
def updateWallet (d : Db) (id : Uuid) (balance : Int4) : Db :=
  { d with
    wallets := d.wallets.modify id (fun w => { w with balance := balance }) fun _ => rfl
    wallet_fk := by
      intro t ht
      rw [Table.find_modify]
      split_ifs with h
      · rw [← h]
        simpa using d.wallet_fk t ht
      · exact d.wallet_fk t ht }

def createWallet (d : Db) (w : Wallet) : Option Db :=
  match h : d.wallets.insert w with
  | none => none
  | some wallets => some
      { d with
        wallets := wallets
        wallet_fk := by
          intro t ht
          obtain ⟨v, hv⟩ := Option.ne_none_iff_exists'.mp (d.wallet_fk t ht)
          rw [Table.find_insert_of_some h hv]
          exact Option.some_ne_none v }

def createTransaction (d : Db) (t : Transaction) : Option Db :=
  if hw : d.wallets.find t.walletId = none then none
  else
    match h : d.transactions.insert t with
    | none => none
    | some transactions => some
        { d with
          transactions := transactions
          wallet_fk := by
            intro u hu
            rw [Table.insert_rows h, List.mem_append, List.mem_singleton] at hu
            rcases hu with hu | rfl
            · exact d.wallet_fk u hu
            · exact hw }

/-- A settlement writes neither the id nor the wallet of a row. -/
def updateTransaction (d : Db) (id : Uuid) (f : Transaction → Transaction)
    (hid : ∀ t, (f t).id = t.id) (hwallet : ∀ t, (f t).walletId = t.walletId) : Db :=
  { d with
    transactions := d.transactions.modify id f hid
    wallet_fk := by
      intro t ht
      rw [Table.modify_rows, List.mem_map] at ht
      obtain ⟨u, hu, rfl⟩ := ht
      split_ifs
      · rw [hwallet]
        exact d.wallet_fk u hu
      · exact d.wallet_fk u hu }

@[simp] theorem updateWallet_transactions (d : Db) (id : Uuid) (b : Int4) :
    (d.updateWallet id b).transactions = d.transactions := rfl

@[simp] theorem updateWallet_wallets (d : Db) (id : Uuid) (b : Int4) :
    (d.updateWallet id b).wallets =
      d.wallets.modify id (fun w => { w with balance := b }) fun _ => rfl := rfl

@[simp] theorem updateTransaction_wallets (d : Db) (id : Uuid) (f : Transaction → Transaction)
    (h₁ : ∀ t, (f t).id = t.id) (h₂ : ∀ t, (f t).walletId = t.walletId) :
    (d.updateTransaction id f h₁ h₂).wallets = d.wallets := rfl

@[simp] theorem updateTransaction_transactions (d : Db) (id : Uuid)
    (f : Transaction → Transaction) (h₁ : ∀ t, (f t).id = t.id)
    (h₂ : ∀ t, (f t).walletId = t.walletId) :
    (d.updateTransaction id f h₁ h₂).transactions = d.transactions.modify id f h₁ := rfl

/-- Everything an accepted wallet insertion does. -/
theorem createWallet_cases {d d' : Db} {w : Wallet} (h : d.createWallet w = some d') :
    d.wallets.insert w = some d'.wallets ∧ d'.transactions = d.transactions ∧
      d'.auditLogs = d.auditLogs ∧ d'.outboxEvents = d.outboxEvents := by
  unfold createWallet at h
  split at h
  · cases h
  · next hw =>
      rw [Option.some.injEq] at h
      subst h
      exact ⟨hw, rfl, rfl, rfl⟩

/-- Everything an accepted ledger insertion does. -/
theorem createTransaction_cases {d d' : Db} {t : Transaction}
    (h : d.createTransaction t = some d') :
    d.transactions.insert t = some d'.transactions ∧ d'.wallets = d.wallets ∧
      d'.auditLogs = d.auditLogs ∧ d'.outboxEvents = d.outboxEvents := by
  unfold createTransaction at h
  split_ifs at h
  split at h
  · cases h
  · next ht =>
      rw [Option.some.injEq] at h
      subst h
      exact ⟨ht, rfl, rfl, rfl⟩

end Db

/-- The row a settlement leaves behind. -/
inductive Settlement where
  | approve (reviewedBy : Uuid) (reviewedAt : Time) (balanceBefore balanceAfter : Int4)
  | reject (reviewedBy : Uuid) (reviewedAt : Time) (note : Option String)
  deriving DecidableEq, Repr

def Settlement.apply (t : Transaction) : Settlement → Transaction
  | .approve reviewedBy reviewedAt before after =>
      { t with
        status := .approved
        reviewedBy := some reviewedBy
        reviewedAt := some reviewedAt
        balanceBefore := some before
        balanceAfter := some after }
  | .reject reviewedBy reviewedAt note =>
      { t with
        status := .rejected
        reviewedBy := some reviewedBy
        reviewedAt := some reviewedAt
        note := note }

/-- Write a settlement into its row. -/
def Db.settle (d : Db) (id : Uuid) (s : Settlement) : Db :=
  d.updateTransaction id (fun t => s.apply t)
    (fun _ => by cases s <;> rfl) (fun _ => by cases s <;> rfl)

theorem Db.settle_transactions (d : Db) (id : Uuid) (s : Settlement) :
    (d.settle id s).transactions = d.transactions.modify id (fun t => s.apply t)
      (fun _ => by cases s <;> rfl) := rfl

theorem Db.mem_settle {d : Db} {id : Uuid} {s : Settlement} {t : Transaction} :
    t ∈ (d.settle id s).transactions.rows ↔
      (t ∈ d.transactions.rows ∧ t.id ≠ id) ∨
        ∃ r, d.transactions.find id = some r ∧ t = s.apply r := by
  rw [Db.settle_transactions, Table.mem_modify]

/-- The writing statements of the transaction blocks. -/
inductive Stmt where
  | updateWallet (id : Uuid) (balance : Int4)
  | createTransaction (row : Transaction)
  | updateTransaction (id : Uuid) (settlement : Settlement)
  | createAuditLog (row : AuditLog)
  | createOutboxEvent (row : OutboxEvent)

/-- `none`: a missing row or a constraint violation. -/
def Stmt.exec (d : Db) : Stmt → Option Db
  | .updateWallet id balance =>
      if d.wallets.find id = none then none else some (d.updateWallet id balance)
  | .createTransaction row => d.createTransaction row
  | .updateTransaction id settlement =>
      if d.transactions.find id = none then none else some (d.settle id settlement)
  | .createAuditLog row =>
      (d.auditLogs.insert row).map fun auditLogs => { d with auditLogs := auditLogs }
  | .createOutboxEvent row =>
      (d.outboxEvents.insert row).map fun outboxEvents => { d with outboxEvents := outboxEvents }

section Exec
variable {d d' : Db}

theorem exec_updateWallet {id : Uuid} {b : Int4}
    (h : (Stmt.updateWallet id b).exec d = some d') : d' = d.updateWallet id b := by
  simp only [Stmt.exec] at h
  split_ifs at h
  exact (Option.some.inj h).symm

theorem exec_updateTransaction {id : Uuid} {s : Settlement}
    (h : (Stmt.updateTransaction id s).exec d = some d') : d' = d.settle id s := by
  simp only [Stmt.exec] at h
  split_ifs at h
  exact (Option.some.inj h).symm

/-- The audit trail and the outbox live beside the ledger. -/
theorem exec_createAuditLog {row : AuditLog} (h : (Stmt.createAuditLog row).exec d = some d') :
    d'.wallets = d.wallets ∧ d'.transactions = d.transactions ∧
      d'.outboxEvents = d.outboxEvents ∧ d.auditLogs.insert row = some d'.auditLogs := by
  obtain ⟨auditLogs, ha, rfl⟩ := Option.map_eq_some_iff.mp h
  exact ⟨rfl, rfl, rfl, ha⟩

theorem exec_createOutboxEvent {row : OutboxEvent}
    (h : (Stmt.createOutboxEvent row).exec d = some d') :
    d'.wallets = d.wallets ∧ d'.transactions = d.transactions ∧
      d'.auditLogs = d.auditLogs ∧ d.outboxEvents.insert row = some d'.outboxEvents := by
  obtain ⟨outboxEvents, ho, rfl⟩ := Option.map_eq_some_iff.mp h
  exact ⟨rfl, rfl, rfl, ho⟩

end Exec

end MaxOne.Schema
