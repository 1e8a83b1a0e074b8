import MaxOne.Library.LockedBlocks
import MaxOne.Schema

/-!
# WalletsService

The methods of `wallets.service.ts` that move money, statement by statement. A
call is a client of the locking machine: `Pc` names the statement it awaits
next, `step` runs the statements outside `prisma.$transaction`, and
`TxnBody.block` is the transaction block. `SELECT .. FOR UPDATE` and the read of
the locked row are one `lock` of the block. What the runtime draws for a call
(row ids, the clock, the request context) is one `Draw`, chosen when the call
starts; a drawn `transferId` is never drawn twice, as `randomUUID` promises.

Amounts are JS integers. Their sums are exact wherever a result fits an INTEGER
column, and a result that does not fit aborts the block.
-/
namespace MaxOne.WalletsService
open Library Library.LockedBlocks Library.DecimalRounding MaxOne.Rates MaxOne.Schema

/-- `IsInt` and `Min(1)` have been checked. -/
structure MoneyAmountDto where
  amount : ℤ
  note : Option String
  min_one : 1 ≤ amount

structure TransferDto where
  toWalletId : Uuid
  amount : ℤ
  note : Option String
  min_one : 1 ≤ amount

inductive Direction where
  | credit | debit
  deriving DecidableEq, Repr

structure AdjustmentDto where
  direction : Direction
  amount : ℤ
  note : String
  min_one : 1 ≤ amount
  note_min : note ≠ ""

structure CreateWalletDto where
  name : String
  currency : String

/-- Approve and reject take the same pre-checks. -/
inductive Review where
  | approve (txnId : Uuid) (actor : AuthUser)
  | reject (txnId : Uuid) (actor : AuthUser) (note : Option String)

namespace Review

def txnId : Review → Uuid
  | approve txnId _ => txnId
  | reject txnId _ _ => txnId

def actor : Review → AuthUser
  | approve _ actor => actor
  | reject _ actor _ => actor

end Review

inductive Call where
  | createWallet (actor : AuthUser) (dto : CreateWalletDto)
  | deposit (id : Uuid) (actor : AuthUser) (dto : MoneyAmountDto)
  | requestWithdrawal (id : Uuid) (actor : AuthUser) (dto : MoneyAmountDto)
  | review (r : Review)
  | adjust (walletId : Uuid) (dto : AdjustmentDto) (actor : AuthUser)
  | transfer (fromWalletId : Uuid) (actor : AuthUser) (dto : TransferDto)

/-- What the runtime supplies to one call. -/
structure Draw where
  rowId : Uuid
  inRowId : Uuid
  auditId : Uuid
  eventId : Uuid
  transferId : Uuid
  now : Time
  context : AuditContext
  deriving DecidableEq, Repr

/-! ## Texts -/

def symbols (currency : String) : Option String :=
  if currency = "USD" then some "$"
  else if currency = "EUR" then some "€"
  else if currency = "GBP" then some "£"
  else none

/-- `(amount / 100).toFixed(2)`. -/
def toFixed2 (amount : ℤ) : String :=
  let cents := amount.natAbs % 100
  (if amount < 0 then "-" else "") ++ toString (amount.natAbs / 100) ++ "." ++
    (if cents < 10 then "0" else "") ++ toString cents

/-- Minor units to a display string. -/
def formatMinor (amount : ℤ) (currency : String) : String :=
  match symbols currency with
  | some sym => sym ++ toFixed2 amount
  | none => toFixed2 amount ++ " " ++ currency

def routingKeyNotificationPush : String := "notification.push"

/-- `NotificationService.enqueue`: the event, which is also the outbox payload. -/
def pushEvent (draw : Draw) (userId : Uuid) (payload : NotificationPayload) :
    NotificationPushEvent where
  id := draw.eventId
  type := routingKeyNotificationPush
  occurredAt := draw.now
  userId := userId
  payload := payload
  requestId := if draw.context.requestId = "" then none else some draw.context.requestId

/-- `OutboxService.enqueue`. -/
def outboxRow (event : NotificationPushEvent) : OutboxEvent where
  id := event.id
  routingKey := routingKeyNotificationPush
  payload := event
  status := .pending
  attempts := 0
  lastError := none
  publishedAt := none

/-- `AuditService.log`. -/
def auditRow (draw : Draw) (actor : AuthUser) (action : AuditAction)
    (entityType : AuditEntityType) (entityId : Uuid) (oldValue newValue : JsonObject) :
    AuditLog where
  id := draw.auditId
  actorUserId := actor.id
  action := action
  entityType := entityType
  entityId := entityId
  oldValue := oldValue
  newValue := newValue
  ipAddress := draw.context.ipAddress
  userAgent := draw.context.userAgent

/-! ## Transaction blocks -/

structure BalancePayload where
  userId : Uuid
  walletId : Uuid
  currency : String
  balance : ℤ
  deriving DecidableEq, Repr

inductive Response where
  | wallet (w : Wallet)
  | transaction (t : Transaction)

/-- What a block returns to the code after the commit. -/
structure Committed where
  response : Response
  owners : List BalancePayload
  event : Option NotificationPushEvent

/-- Rows that are locked. -/
inductive RowKey where
  | wallet (id : Uuid)
  | transaction (id : Uuid)
  deriving DecidableEq, Repr

inductive Row where
  | wallet (w : Wallet)
  | transaction (t : Transaction)

/-- The columns of a wallet that no statement updates. -/
structure Owner where
  userId : Uuid
  currency : String

abbrev TxBlock := Block RowKey Row Owner Stmt HttpException Committed

def lockWallet (id : Uuid) (next : Option Wallet → TxBlock) : TxBlock :=
  .lock (.wallet id) fun
    | some (.wallet w) => next (some w)
    | _ => next none

def lockTransaction (id : Uuid) (next : Option Transaction → TxBlock) : TxBlock :=
  .lock (.transaction id) fun
    | some (.transaction t) => next (some t)
    | _ => next none

/-- A value on its way into an INTEGER column. -/
def withInt4 (z : ℤ) (next : Int4 → TxBlock) : TxBlock :=
  match Int4.ofInt? z with
  | none => .fail internalError
  | some v => next v

/-- A rate on its way into the `exchangeRate` column. -/
def withRate (rate : Option Decimal) (next : Option Dec → TxBlock) : TxBlock :=
  match rate with
  | none => next none
  | some r =>
      match r.toColumn with
      | none => .fail internalError
      | some d => next (some d)

def balanceOf (w : Wallet) (balance : Int4) : BalancePayload :=
  ⟨w.userId, w.id, w.currency, balance.val⟩

/-- A row that is settled the moment it is written: a deposit or an adjustment. -/
def settledRow (draw : Draw) (walletId : Uuid) (type : TxnType) (amount before after : Int4)
    (actor : AuthUser) (note : Option String) : Transaction where
  id := draw.rowId
  walletId := walletId
  type := type
  amount := amount
  balanceBefore := some before
  balanceAfter := some after
  status := .approved
  requestedBy := actor.id
  reviewedBy := some actor.id
  reviewedAt := some draw.now
  note := note
  transferId := none
  counterpartyWalletId := none
  exchangeRate := none

def depositBlock (id : Uuid) (actor : AuthUser) (dto : MoneyAmountDto) (draw : Draw) : TxBlock :=
  lockWallet id fun
    | none => .fail (notFound "Wallet not found")
    | some wallet =>
        withInt4 (wallet.balance.val + dto.amount) fun after =>
        .write (.updateWallet id after) <|
        withInt4 dto.amount fun amount =>
        let created := settledRow draw id .deposit amount wallet.balance after actor dto.note
        let event := pushEvent draw wallet.userId
          { title := "Money added"
            body := formatMinor dto.amount wallet.currency ++ " added to your wallet"
            tag := created.id, url := "/" }
        .write (.createTransaction created) <|
        .write (.createAuditLog (auditRow draw actor .depositSettle .transaction created.id
          [("balance", .num wallet.balance.val)]
          [("balance", .num after.val), ("amount", .num dto.amount)])) <|
        .write (.createOutboxEvent (outboxRow event)) <|
        .commit ⟨.transaction created, [balanceOf wallet after], some event⟩

/-- The balance an approval leaves, when it is allowed. -/
def approvedBalance (txn : Transaction) (before : ℤ) : Except HttpException ℤ :=
  if txn.type = .withdrawal then
    if before < txn.amount.val then .error (badRequest "Insufficient funds")
    else .ok (before - txn.amount.val)
  else .ok (before + txn.amount.val)

def approvalPayload (txn : Transaction) (currency : String) : NotificationPayload :=
  if txn.type = .withdrawal then
    { title := "Withdrawal sent", body := formatMinor txn.amount.val currency ++ " withdrawn"
      tag := txn.id, url := "/" }
  else
    { title := "Deposit approved"
      body := formatMinor txn.amount.val currency ++ " added to your wallet"
      tag := txn.id, url := "/" }

def approveBlock (txnId : Uuid) (actor : AuthUser) (draw : Draw) : TxBlock :=
  lockTransaction txnId fun
    | none => .fail (notFound "Transaction not found")
    | some txn =>
        if txn.status ≠ .pending then .fail (conflict "Transaction already reviewed")
        else lockWallet txn.walletId fun
          | none => .fail (notFound "Wallet not found")
          | some wallet =>
              match approvedBalance txn wallet.balance.val with
              | .error e => .fail e
              | .ok after =>
                  withInt4 after fun after =>
                  let settlement := Settlement.approve actor.id draw.now wallet.balance after
                  let event := pushEvent draw wallet.userId (approvalPayload txn wallet.currency)
                  .write (.updateWallet wallet.id after) <|
                  .write (.updateTransaction txn.id settlement) <|
                  .write (.createAuditLog (auditRow draw actor
                    (if txn.type = .withdrawal then .withdrawalApprove else .depositApprove)
                    .transaction txn.id [("status", .str "pending")]
                    [("status", .str "approved"), ("balanceAfter", .num after.val)])) <|
                  .write (.createOutboxEvent (outboxRow event)) <|
                  .commit ⟨.transaction (settlement.apply txn), [balanceOf wallet after], some event⟩

def noteJson : Option String → Json
  | none => .null
  | some note => .str note

def rejectionPayload (txn : Transaction) (currency : String) : NotificationPayload :=
  let money := formatMinor txn.amount.val currency
  if txn.type = .withdrawal then
    { title := "Withdrawal declined", body := "Your " ++ money ++ " withdrawal was declined"
      tag := txn.id, url := "/" }
  else
    { title := "Deposit declined", body := "Your " ++ money ++ " deposit was declined"
      tag := txn.id, url := "/" }

def rejectBlock (txnId : Uuid) (actor : AuthUser) (note : Option String) (draw : Draw) :
    TxBlock :=
  lockTransaction txnId fun
    | none => .fail (notFound "Transaction not found")
    | some txn =>
        if txn.status ≠ .pending then .fail (conflict "Transaction already reviewed")
        else
          let note' := note.orElse fun _ => txn.note
          let settlement := Settlement.reject actor.id draw.now note'
          let updated := settlement.apply txn
          .write (.updateTransaction txn.id settlement) <|
          .write (.createAuditLog (auditRow draw actor
            (if txn.type = .withdrawal then .withdrawalReject else .depositReject)
            .transaction txn.id [("status", .str "pending")]
            [("status", .str "rejected"), ("note", noteJson note')])) <|
          -- the owner is read without a lock: `userId` and `currency` only
          .peek (.wallet txn.walletId) fun
            | none => .commit ⟨.transaction updated, [], none⟩
            | some owner =>
                let event := pushEvent draw owner.userId (rejectionPayload txn owner.currency)
                .write (.createOutboxEvent (outboxRow event)) <|
                .commit ⟨.transaction updated, [], some event⟩

def adjustBlock (walletId : Uuid) (dto : AdjustmentDto) (actor : AuthUser) (draw : Draw) :
    TxBlock :=
  lockWallet walletId fun
    | none => .fail (notFound "Wallet not found")
    | some wallet =>
        let after := match dto.direction with
          | .credit => wallet.balance.val + dto.amount
          | .debit => wallet.balance.val - dto.amount
        if after < 0 then .fail (badRequest "Adjustment would make the balance negative")
        else
          withInt4 after fun after =>
          .write (.updateWallet walletId after) <|
          withInt4 dto.amount fun amount =>
          let created :=
            settledRow draw walletId .adjustment amount wallet.balance after actor (some dto.note)
          .write (.createTransaction created) <|
          .write (.createAuditLog (auditRow draw actor .walletAdjust .wallet walletId
            [("balance", .num wallet.balance.val)]
            [("balance", .num after.val),
              ("direction", .str (match dto.direction with
                | .credit => "credit"
                | .debit => "debit")),
              ("amount", .num dto.amount), ("note", .str dto.note)])) <|
          .commit ⟨.transaction created, [balanceOf wallet after], none⟩

/-- What `transfer` has settled on before its transaction opens. -/
structure TransferArgs where
  fromWalletId : Uuid
  actor : AuthUser
  dto : TransferDto
  exchangeRate : Option Decimal
  credit : Option ℤ
  sender : Option String

/-- The two rows of one transfer differ only in the columns given here. -/
def transferRow (a : TransferArgs) (draw : Draw) (rate : Option Dec) (id walletId : Uuid)
    (type : TxnType) (amount : Int4) (counterparty : Uuid) (before after : Int4) :
    Transaction where
  id := id
  walletId := walletId
  type := type
  amount := amount
  balanceBefore := some before
  balanceAfter := some after
  status := .approved
  requestedBy := a.actor.id
  reviewedBy := some a.actor.id
  reviewedAt := some draw.now
  note := a.dto.note
  transferId := some draw.transferId
  counterpartyWalletId := some counterparty
  exchangeRate := rate

/-- Both wallets are locked and present. -/
def transferWrites (a : TransferArgs) (draw : Draw) (source dest : Wallet) : TxBlock :=
  if source.balance.val < a.dto.amount then .fail (badRequest "Insufficient funds")
  else
    withInt4 (source.balance.val - a.dto.amount) fun fromAfter =>
    .write (.updateWallet source.id fromAfter) <|
    match a.credit with
    | none => .fail internalError
    | some credit =>
        withInt4 (dest.balance.val + credit) fun toAfter =>
        .write (.updateWallet dest.id toAfter) <|
        withRate a.exchangeRate fun rate =>
        withInt4 a.dto.amount fun amount =>
        let outRow := transferRow a draw rate draw.rowId source.id .transferOut amount dest.id
          source.balance fromAfter
        .write (.createTransaction outRow) <|
        withInt4 credit fun credited =>
        let event := pushEvent draw dest.userId
          { title := "Received " ++ formatMinor credit dest.currency
            body := "from @" ++ a.sender.getD "someone", tag := draw.transferId, url := "/" }
        .write (.createTransaction (transferRow a draw rate draw.inRowId dest.id .transferIn
          credited source.id dest.balance toAfter)) <|
        .write (.createAuditLog (auditRow draw a.actor .walletTransfer .wallet source.id
          [("balance", .num source.balance.val)]
          [("balance", .num fromAfter.val), ("toWalletId", .id dest.id),
            ("amount", .num a.dto.amount), ("credit", .num credit),
            ("exchangeRate", match a.exchangeRate with
              | none => .null
              | some r => .rate r)])) <|
        .write (.createOutboxEvent (outboxRow event)) <|
        .commit ⟨.transaction outRow, [balanceOf source fromAfter, balanceOf dest toAfter],
          some event⟩

def transferFound (a : TransferArgs) (draw : Draw) : Option Wallet → Option Wallet → TxBlock
  | none, _ => .fail (notFound "Wallet not found")
  | some _, none => .fail (notFound "Destination wallet not found")
  | some source, some dest => transferWrites a draw source dest

/-- Both wallets are locked in the order of their ids. -/
def transferBlock (a : TransferArgs) (draw : Draw) : TxBlock :=
  if a.fromWalletId ≤ a.dto.toWalletId then
    lockWallet a.fromWalletId fun source =>
    lockWallet a.dto.toWalletId fun dest => transferFound a draw source dest
  else
    lockWallet a.dto.toWalletId fun dest =>
    lockWallet a.fromWalletId fun source => transferFound a draw source dest

inductive TxnBody where
  | deposit (id : Uuid) (actor : AuthUser) (dto : MoneyAmountDto)
  | review (r : Review)
  | adjust (walletId : Uuid) (dto : AdjustmentDto) (actor : AuthUser)
  | transfer (a : TransferArgs)

def TxnBody.block (draw : Draw) : TxnBody → TxBlock
  | .deposit id actor dto => depositBlock id actor dto draw
  | .review (.approve txnId actor) => approveBlock txnId actor draw
  | .review (.reject txnId actor note) => rejectBlock txnId actor note draw
  | .adjust walletId dto actor => adjustBlock walletId dto actor draw
  | .transfer a => transferBlock a draw

/-! ## Statements outside the blocks -/

/-- What the permission check and the sender lookup read of a user. -/
structure Account where
  handle : Option String
  permissions : List String

inductive SocketEvent where
  | balanceUpdated (payload : BalancePayload)
  | notification (userId : Uuid) (payload : NotificationPayload)

/-- Everything the calls share: the tables, the transfer ids drawn so far and
the socket events sent so far, newest last. -/
structure Shared where
  db : Db
  users : Uuid → Option Account
  transferIds : List Uuid
  emitted : List SocketEvent

/-- The next statement of a call. -/
inductive Pc where
  | idle
  | start (call : Call) (draw : Draw)
  | createWithdrawal (id : Uuid) (actor : AuthUser) (dto : MoneyAmountDto) (draw : Draw)
  | assertApprovePermission (r : Review) (type : TxnType) (draw : Draw)
  | readDestination (source : Wallet) (actor : AuthUser) (dto : TransferDto) (draw : Draw)
  | getRate (source dest : Wallet) (actor : AuthUser) (dto : TransferDto) (draw : Draw)
  | findSender (a : TransferArgs) (draw : Draw)
  | transaction (body : TxnBody) (draw : Draw)
  | emit (r : Committed)
  | emitFailed (r : Committed)
  | publishNow (event : NotificationPushEvent) (response : Response)
  | done (response : Response)
  | failed (e : HttpException)

/-- What the outside world answers to one statement: `lost` is a statement whose
connection fails before it is sent, `sockets` says how many balance updates leave
before one throws and whether the toast leaves too. -/
inductive Input where
  | users (users : Uuid → Option Account)
  | call (call : Call) (draw : Draw)
  | go
  | lost
  | rate (answer : Except HttpException Decimal)
  | sockets (sent : ℕ) (toast : Bool)
  | published (ok marked : Bool) (now : Time)

def getOwnedWallet (d : Db) (id : Uuid) (actor : AuthUser) : Except HttpException Wallet :=
  match d.wallets.find id with
  | none => .error (notFound "Wallet not found")
  | some wallet =>
      if wallet.userId ≠ actor.id then .error (forbidden "Access denied") else .ok wallet

/-- The permission a row of this type asks for. -/
def approvePermission (type : TxnType) : String :=
  if type = .withdrawal then "withdrawal.approve" else "deposit.approve"

def holdsPermission (users : Uuid → Option Account) (user : Uuid) (code : String) : Bool :=
  match users user with
  | none => false
  | some account => account.permissions.contains code

/-- The first statement of each method. -/
def begin (s : Shared) (draw : Draw) : Call → Pc × Shared
  | .createWallet actor dto =>
      let wallet : Wallet := ⟨draw.rowId, actor.id, dto.name, dto.currency, .zero⟩
      match s.db.createWallet wallet with
      | none => (.failed internalError, s)
      | some db => (.done (.wallet wallet), { s with db := db })
  | .deposit id actor dto =>
      match getOwnedWallet s.db id actor with
      | .error e => (.failed e, s)
      | .ok _ => (.transaction (.deposit id actor dto) draw, s)
  | .requestWithdrawal id actor dto =>
      match getOwnedWallet s.db id actor with
      | .error e => (.failed e, s)
      | .ok wallet =>
          if wallet.balance.val < dto.amount then (.failed (badRequest "Insufficient funds"), s)
          else (.createWithdrawal id actor dto draw, s)
  | .review r =>
      match s.db.transactions.find r.txnId with
      | none => (.failed (notFound "Transaction not found"), s)
      | some txn => (.assertApprovePermission r txn.type draw, s)
  | .adjust walletId dto actor => (.transaction (.adjust walletId dto actor) draw, s)
  | .transfer fromWalletId actor dto =>
      if dto.toWalletId = fromWalletId then
        (.failed (badRequest "Cannot transfer to the same wallet"), s)
      else
        match getOwnedWallet s.db fromWalletId actor with
        | .error e => (.failed e, s)
        | .ok source => (.readDestination source actor dto draw, s)

/-- The pending row of a withdrawal request. -/
def withdrawalRow (id : Uuid) (actor : AuthUser) (dto : MoneyAmountDto) (draw : Draw)
    (amount : Int4) : Transaction where
  id := draw.rowId
  walletId := id
  type := .withdrawal
  amount := amount
  balanceBefore := none
  balanceAfter := none
  status := .pending
  requestedBy := actor.id
  reviewedBy := none
  reviewedAt := none
  note := dto.note
  transferId := none
  counterpartyWalletId := none
  exchangeRate := none

def createWithdrawal (s : Shared) (id : Uuid) (actor : AuthUser) (dto : MoneyAmountDto)
    (draw : Draw) : Pc × Shared :=
  match Int4.ofInt? dto.amount with
  | none => (.failed internalError, s)
  | some amount =>
      let row := withdrawalRow id actor dto draw amount
      match s.db.createTransaction row with
      | none => (.failed internalError, s)
      | some db => (.done (.transaction row), { s with db := db })

def readDestination (s : Shared) (source : Wallet) (actor : AuthUser) (dto : TransferDto)
    (draw : Draw) : Pc :=
  match s.db.wallets.find dto.toWalletId with
  | none => .failed (notFound "Destination wallet not found")
  | some dest =>
      if source.currency ≠ dest.currency then .getRate source dest actor dto draw
      else .findSender ⟨source.id, actor, dto, none, some dto.amount, none⟩ draw

/-- After the commit: balances, then the toast, whose failure is swallowed. -/
def emit (s : Shared) (r : Committed) (sent : ℕ) (toast : Bool) : Pc × Shared :=
  let balances := r.owners.map SocketEvent.balanceUpdated
  if sent < balances.length then
    (.emitFailed r, { s with emitted := s.emitted ++ balances.take sent })
  else
    match r.event with
    | none => (.done r.response, { s with emitted := s.emitted ++ balances })
    | some event =>
        let toasts := if toast then [.notification event.userId event.payload] else []
        (.publishNow event r.response, { s with emitted := s.emitted ++ balances ++ toasts })

/-- `OutboxService.publishNow` marks the row by what the broker client said. -/
def markPublished (d : Db) (id : Uuid) (ok : Bool) (now : Time) : Db :=
  let mark (row : OutboxEvent) : OutboxEvent :=
    if ok then { row with status := .published, publishedAt := some now }
    else
      { row with
        attempts := row.attempts + 1
        lastError := some "publish returned false (broker unavailable)" }
  { d with outboxEvents := d.outboxEvents.modify id mark fun _ => by cases ok <;> rfl }

/-- Statements that may lose their connection; the sender's handle is optional. -/
def lost : Pc → Option Pc
  | .start .. | .createWithdrawal .. | .assertApprovePermission .. | .readDestination .. =>
      some (.failed internalError)
  | .findSender a draw => some (.transaction (.transfer { a with sender := none }) draw)
  | _ => none

def step : Input → Pc → Shared → Option (Pc × Shared)
  | .users users, .idle, s => some (.idle, { s with users := users })
  | .call call draw, .idle, s =>
      if draw.transferId ∈ s.transferIds then none
      else some (.start call draw, { s with transferIds := draw.transferId :: s.transferIds })
  | .go, .start call draw, s => some (begin s draw call)
  | .go, .createWithdrawal id actor dto draw, s => some (createWithdrawal s id actor dto draw)
  | .go, .assertApprovePermission r type draw, s =>
      if holdsPermission s.users r.actor.id (approvePermission type) then
        some (.transaction (.review r) draw, s)
      else some (.failed (forbidden "Access denied"), s)
  | .go, .readDestination source actor dto draw, s =>
      some (readDestination s source actor dto draw, s)
  | .rate answer, .getRate source _ actor dto draw, s =>
      match answer with
      | .error e => some (.failed e, s)
      | .ok rate => some (.findSender
          ⟨source.id, actor, dto, some rate, convertMinor dto.amount rate, none⟩ draw, s)
  | .go, .findSender a draw, s =>
      some (.transaction (.transfer { a with
        sender := (s.users a.actor.id).bind Account.handle }) draw, s)
  | .sockets sent toast, .emit r, s => some (emit s r sent toast)
  | .published ok marked now, .publishNow event response, s =>
      some (.done response,
        if marked then { s with db := markPublished s.db event.id ok now } else s)
  | .lost, pc, s => (lost pc).map fun pc => (pc, s)
  | _, _, _ => none

end MaxOne.WalletsService
