import MaxOne.WalletsService

/-!
# The money operations as clients of the locking machine

`program` hands the statements and blocks of `WalletsService` to the locking
machine. What the machine asks of a program is shown here: a write overwrites
only the row it names, blocks overwrite only rows they have locked, a row that
is missing under its lock makes the block fail, the owner and the currency of a
wallet never change, and the one unlocked read of a block finds its wallet,
because the ledger row that names it is a foreign key.
-/
namespace MaxOne.WalletsMachine
open Library Library.LockedBlocks Library.DecimalRounding MaxOne.Rates MaxOne.Schema MaxOne.WalletsService

def view : RowKey → Shared → Option Row
  | .wallet id, s => (s.db.wallets.find id).map .wallet
  | .transaction id, s => (s.db.transactions.find id).map .transaction

/-- A row carries the id it was asked for by. -/
def Fits : RowKey → Row → Prop
  | .wallet id, .wallet w => w.id = id
  | .transaction id, .transaction t => t.id = id
  | _, _ => False

theorem view_fits {k : RowKey} {s : Shared} {v : Row} (h : view k s = some v) : Fits k v := by
  cases k with
  | wallet id =>
      obtain ⟨w, hw, rfl⟩ := Option.map_eq_some_iff.mp h
      exact Table.find_key hw
  | transaction id =>
      obtain ⟨t, ht, rfl⟩ := Option.map_eq_some_iff.mp h
      exact Table.find_key ht

/-- The owner and the currency of a wallet. -/
def owner (d : Db) (id : Uuid) : Option Owner :=
  (d.wallets.find id).map fun w => ⟨w.userId, w.currency⟩

def frozen : RowKey → Shared → Option Owner
  | .wallet id, s => owner s.db id
  | .transaction _, _ => none

def exec (w : Stmt) (s : Shared) : Option Shared :=
  (w.exec s.db).map fun db => { s with db := db }

def touches : Stmt → Option RowKey
  | .updateWallet id _ => some (.wallet id)
  | .updateTransaction id _ => some (.transaction id)
  | _ => none

/-! ## Statements keep the rows they do not touch -/

/-- Every wallet keeps its owner, and every row outside `touched` stays. -/
structure Keeps (touched : RowKey → Prop) (d d' : Db) : Prop where
  wallet : ∀ {id w}, ¬ touched (.wallet id) → d.wallets.find id = some w →
    d'.wallets.find id = some w
  owner : ∀ {id o}, owner d id = some o → owner d' id = some o
  transaction : ∀ {id t}, ¬ touched (.transaction id) → d.transactions.find id = some t →
    d'.transactions.find id = some t

theorem owner_of_find {d : Db} {id : Uuid} {w : Wallet} (h : d.wallets.find id = some w) :
    owner d id = some ⟨w.userId, w.currency⟩ := by
  rw [owner, h, Option.map_some]

section Keeps
variable {touched : RowKey → Prop} {d d' : Db}

theorem Keeps.of_eq (hw : d'.wallets = d.wallets) (ht : d'.transactions = d.transactions) :
    Keeps touched d d' where
  wallet _ h := by rwa [hw]
  owner h := by rwa [WalletsMachine.owner, hw]
  transaction _ h := by rwa [ht]

theorem Keeps.openWallet {w : Wallet} (h : d.createWallet w = some d') :
    Keeps touched d d' := by
  obtain ⟨hw, ht, -⟩ := Db.createWallet_cases h
  refine ⟨fun _ hf => Table.find_insert_of_some hw hf, fun ho => ?_, fun _ hf => by rwa [ht]⟩
  obtain ⟨v, hv, rfl⟩ := Option.map_eq_some_iff.mp ho
  exact owner_of_find (Table.find_insert_of_some hw hv)

theorem Keeps.createTransaction {row : Transaction} (h : d.createTransaction row = some d') :
    Keeps touched d d' := by
  obtain ⟨ht, hw, -⟩ := Db.createTransaction_cases h
  exact ⟨fun _ hf => by rwa [hw], fun ho => by rwa [WalletsMachine.owner, hw],
    fun _ hf => Table.find_insert_of_some ht hf⟩

theorem owner_updateWallet (d : Db) (id : Uuid) (b : Int4) (id' : Uuid) :
    owner (d.updateWallet id b) id' = owner d id' := by
  rw [owner, owner, Db.updateWallet_wallets, Table.find_modify]
  split_ifs with h
  · subst h
    cases d.wallets.find id' <;> rfl
  · rfl

theorem Keeps.exec {w : Stmt} (h : w.exec d = some d') :
    Keeps (fun k => touches w = some k) d d' := by
  cases w with
  | updateWallet id b =>
      rw [exec_updateWallet h]
      refine ⟨fun hk hf => ?_, fun ho => by rwa [owner_updateWallet], fun _ hf => hf⟩
      rw [Db.updateWallet_wallets, Table.find_modify_ne (by rintro rfl; exact hk rfl)]
      exact hf
  | createTransaction row => exact .createTransaction h
  | updateTransaction id s =>
      rw [exec_updateTransaction h]
      refine ⟨fun _ hf => hf, fun ho => ho, fun hk hf => ?_⟩
      rw [Db.settle, Db.updateTransaction_transactions,
        Table.find_modify_ne (by rintro rfl; exact hk rfl)]
      exact hf
  | createAuditLog row =>
      obtain ⟨hw, ht, -⟩ := exec_createAuditLog h
      exact .of_eq hw ht
  | createOutboxEvent row =>
      obtain ⟨hw, ht, -⟩ := exec_createOutboxEvent h
      exact .of_eq hw ht

theorem Keeps.view {s s' : Shared} {k : RowKey} {v : Row} (h : Keeps touched s.db s'.db)
    (hk : ¬ touched k) (hv : view k s = some v) : view k s' = some v := by
  cases k with
  | wallet id =>
      obtain ⟨w, hw, rfl⟩ := Option.map_eq_some_iff.mp hv
      rw [WalletsMachine.view, h.wallet hk hw, Option.map_some]
  | transaction id =>
      obtain ⟨t, ht, rfl⟩ := Option.map_eq_some_iff.mp hv
      rw [WalletsMachine.view, h.transaction hk ht, Option.map_some]

theorem Keeps.frozen {s s' : Shared} {k : RowKey} {f : Owner} (h : Keeps touched s.db s'.db)
    (hf : frozen k s = some f) : frozen k s' = some f := by
  cases k with
  | wallet id => exact h.owner hf
  | transaction id => cases hf

end Keeps

def store : Store Shared RowKey Row Owner Stmt where
  view := view
  Fits := Fits
  frozen := frozen
  exec := exec
  touches := touches
  view_fits := view_fits
  exec_view h hk hv := by
    obtain ⟨db, hdb, rfl⟩ := Option.map_eq_some_iff.mp h
    exact (Keeps.exec hdb).view hk hv
  exec_frozen h hf := by
    obtain ⟨db, hdb, rfl⟩ := Option.map_eq_some_iff.mp h
    exact (Keeps.exec hdb).frozen hf

/-! ## Statements outside the blocks -/

/-- What a call that has not committed has drawn. -/
def drawOf : Pc → Option Draw
  | .start _ draw | .createWithdrawal _ _ _ draw | .assertApprovePermission _ _ draw
  | .readDestination _ _ _ draw | .getRate _ _ _ _ draw | .findSender _ draw
  | .transaction _ draw => some draw
  | _ => none

/-- The call's commit, if it has one, lies behind it. -/
def afterCommit : Pc → Bool
  | .emit _ | .emitFailed _ | .publishNow .. | .done _ => true
  | _ => false

theorem drawOf_afterCommit {p : Pc} (h : afterCommit p = true) : drawOf p = none := by
  cases p <;> first | rfl | cases h

/-- Everything a statement outside the blocks can do. -/
inductive Statement : Input → Pc → Shared → Pc → Shared → Prop where
  | users {i : Input} {s : Shared} (users : Uuid → Option Account) :
      Statement i .idle s .idle { s with users := users }
  | call {i : Input} {s : Shared} (call : Call) (draw : Draw)
      (hnew : draw.transferId ∉ s.transferIds) :
      Statement i .idle s (.start call draw)
        { s with transferIds := draw.transferId :: s.transferIds }
  | fails {i : Input} {s : Shared} {p : Pc} (e : HttpException) (draw : Draw)
      (hp : drawOf p = some draw) : Statement i p s (.failed e) s
  | createsWallet {i : Input} {s : Shared} {actor : AuthUser} {dto : CreateWalletDto}
      {draw : Draw} (db : Db)
      (h : s.db.createWallet ⟨draw.rowId, actor.id, dto.name, dto.currency, .zero⟩ = some db) :
      Statement i (.start (.createWallet actor dto) draw) s
        (.done (.wallet ⟨draw.rowId, actor.id, dto.name, dto.currency, .zero⟩))
        { s with db := db }
  | opensDeposit {i : Input} {s : Shared} {id : Uuid} {actor : AuthUser} {dto : MoneyAmountDto}
      {draw : Draw} : Statement i (.start (.deposit id actor dto) draw) s
        (.transaction (.deposit id actor dto) draw) s
  | opensAdjust {i : Input} {s : Shared} {id : Uuid} {actor : AuthUser} {dto : AdjustmentDto}
      {draw : Draw} : Statement i (.start (.adjust id dto actor) draw) s
        (.transaction (.adjust id dto actor) draw) s
  | preChecks {i : Input} {s : Shared} {id : Uuid} {actor : AuthUser} {dto : MoneyAmountDto}
      {draw : Draw} : Statement i (.start (.requestWithdrawal id actor dto) draw) s
        (.createWithdrawal id actor dto draw) s
  | requests {i : Input} {s : Shared} {id : Uuid} {actor : AuthUser} {dto : MoneyAmountDto}
      {draw : Draw} (amount : Int4) (db : Db) (hamount : amount.val = dto.amount)
      (h : s.db.createTransaction (withdrawalRow id actor dto draw amount) = some db) :
      Statement i (.createWithdrawal id actor dto draw) s
        (.done (.transaction (withdrawalRow id actor dto draw amount))) { s with db := db }
  | readsType {i : Input} {s : Shared} {r : Review} {draw : Draw} (row : Transaction)
      (hrow : s.db.transactions.find r.txnId = some row) :
      Statement i (.start (.review r) draw) s (.assertApprovePermission r row.type draw) s
  | permits {i : Input} {s : Shared} {r : Review} {type : TxnType} {draw : Draw}
      (held : holdsPermission s.users r.actor.id (approvePermission type) = true) :
      Statement i (.assertApprovePermission r type draw) s (.transaction (.review r) draw) s
  | readsSource {i : Input} {s : Shared} {actor : AuthUser} {dto : TransferDto} {draw : Draw}
      (source : Wallet) (hne : source.id ≠ dto.toWalletId) (hmine : source.userId = actor.id)
      (hfind : s.db.wallets.find source.id = some source) :
      Statement i (.start (.transfer source.id actor dto) draw) s
        (.readDestination source actor dto draw) s
  | sameCurrency {i : Input} {s : Shared} {source : Wallet} {actor : AuthUser}
      {dto : TransferDto} {draw : Draw} (dest : Wallet)
      (hfind : s.db.wallets.find dto.toWalletId = some dest)
      (hcur : source.currency = dest.currency) :
      Statement i (.readDestination source actor dto draw) s
        (.findSender ⟨source.id, actor, dto, none, some dto.amount, none⟩ draw) s
  | otherCurrency {i : Input} {s : Shared} {source : Wallet} {actor : AuthUser}
      {dto : TransferDto} {draw : Draw} (dest : Wallet)
      (hfind : s.db.wallets.find dto.toWalletId = some dest)
      (hcur : source.currency ≠ dest.currency) :
      Statement i (.readDestination source actor dto draw) s
        (.getRate source dest actor dto draw) s
  | rated {s : Shared} {source dest : Wallet} {actor : AuthUser} {dto : TransferDto}
      {draw : Draw} (rate : Decimal) :
      Statement (.rate (.ok rate)) (.getRate source dest actor dto draw) s
        (.findSender ⟨source.id, actor, dto, some rate, convertMinor dto.amount rate, none⟩ draw) s
  | findsSender {i : Input} {s : Shared} {a : TransferArgs} {draw : Draw}
      (sender : Option String) : Statement i (.findSender a draw) s
        (.transaction (.transfer { a with sender := sender }) draw) s
  | emits {i : Input} {s : Shared} {r : Committed} (q : Pc) (emitted : List SocketEvent)
      (hq : afterCommit q = true) : Statement i (.emit r) s q { s with emitted := emitted }
  | publishes {i : Input} {s : Shared} {event : NotificationPushEvent} {response : Response}
      (db : Db) (hw : db.wallets = s.db.wallets) (ht : db.transactions = s.db.transactions)
      (ha : db.auditLogs = s.db.auditLogs)
      (ho : db.outboxEvents.rows.map OutboxEvent.payload =
        s.db.outboxEvents.rows.map OutboxEvent.payload) :
      Statement i (.publishNow event response) s (.done response) { s with db := db }

theorem getOwnedWallet_ok {d : Db} {id : Uuid} {actor : AuthUser} {w : Wallet}
    (h : getOwnedWallet d id actor = .ok w) :
    d.wallets.find id = some w ∧ w.id = id ∧ w.userId = actor.id := by
  unfold getOwnedWallet at h
  split at h
  · cases h
  · next wallet hfind =>
      split_ifs at h with hne
      cases h
      exact ⟨hfind, Table.find_key hfind, not_not.mp hne⟩

section Step
variable {i : Input} {s s' : Shared} {q : Pc}

theorem begin_statement {draw : Draw} {call : Call} (h : begin s draw call = (q, s')) :
    Statement i (.start call draw) s q s' := by
  cases call with
  | createWallet actor dto =>
      simp only [begin] at h
      split at h
      · cases h
        exact .fails _ draw rfl
      · next db hdb =>
          cases h
          exact .createsWallet db hdb
  | deposit id actor dto =>
      simp only [begin] at h
      split at h <;> cases h
      · exact .fails _ draw rfl
      · exact .opensDeposit
  | requestWithdrawal id actor dto =>
      simp only [begin] at h
      split at h
      · cases h
        exact .fails _ draw rfl
      · split_ifs at h <;> cases h
        · exact .fails _ draw rfl
        · exact .preChecks
  | review r =>
      simp only [begin] at h
      split at h
      · cases h
        exact .fails _ draw rfl
      · next row hrow =>
          cases h
          exact .readsType row hrow
  | adjust walletId dto actor =>
      cases h
      exact .opensAdjust
  | transfer fromWalletId actor dto =>
      simp only [begin] at h
      split_ifs at h with hsame
      · cases h
        exact .fails _ draw rfl
      · split at h
        · cases h
          exact .fails _ draw rfl
        · next source hsource =>
            cases h
            obtain ⟨hfind, rfl, hmine⟩ := getOwnedWallet_ok hsource
            exact .readsSource source (Ne.symm hsame) hmine hfind

theorem createWithdrawal_statement {id : Uuid} {actor : AuthUser} {dto : MoneyAmountDto}
    {draw : Draw} (h : createWithdrawal s id actor dto draw = (q, s')) :
    Statement i (.createWithdrawal id actor dto draw) s q s' := by
  simp only [createWithdrawal] at h
  split at h
  · cases h
    exact .fails _ draw rfl
  · next amount hamount =>
      split at h
      · cases h
        exact .fails _ draw rfl
      · next db hdb =>
          cases h
          exact .requests amount db (Int4.val_of_ofInt? hamount) hdb

theorem readDestination_statement {source : Wallet} {actor : AuthUser} {dto : TransferDto}
    {draw : Draw} : Statement i (.readDestination source actor dto draw) s
      (readDestination s source actor dto draw) s := by
  unfold readDestination
  split
  · exact .fails _ draw rfl
  · next dest hfind =>
      split_ifs with hcur
      · exact .otherCurrency dest hfind hcur
      · exact .sameCurrency dest hfind (not_not.mp hcur)

theorem emit_statement {r : Committed} {sent : ℕ} {toast : Bool}
    (h : emit s r sent toast = (q, s')) : Statement i (.emit r) s q s' := by
  simp only [emit] at h
  split_ifs at h
  · cases h
    exact .emits _ _ rfl
  all_goals
    split at h <;> cases h <;> exact .emits _ _ rfl

theorem markPublished_payloads (d : Db) (id : Uuid) (ok : Bool) (now : Time) :
    (markPublished d id ok now).outboxEvents.rows.map OutboxEvent.payload =
      d.outboxEvents.rows.map OutboxEvent.payload := by
  rw [markPublished, Table.modify_rows, List.map_map]
  refine List.map_congr_left fun row _ => ?_
  cases ok <;> (rw [Function.comp_apply]; split <;> rfl)

theorem step_statement {p : Pc} (h : step i p s = some (q, s')) : Statement i p s q s' := by
  unfold step at h
  split at h
  · cases h
    exact .users _
  · split_ifs at h with hnew
    cases h
    exact .call _ _ hnew
  · exact begin_statement (Option.some.inj h)
  · exact createWithdrawal_statement (Option.some.inj h)
  · split_ifs at h with hheld <;> cases h
    · exact .permits hheld
    · exact .fails _ _ rfl
  · cases h
    exact readDestination_statement
  · split at h <;> cases h
    · exact .fails _ _ rfl
    · exact .rated _
  · cases h
    exact .findsSender _
  · exact emit_statement (Option.some.inj h)
  · cases h
    split_ifs
    · exact .publishes (markPublished _ _ _ _) rfl rfl rfl (markPublished_payloads _ _ _ _)
    · exact .publishes s.db rfl rfl rfl rfl
  · obtain ⟨p', hp', he⟩ := Option.map_eq_some_iff.mp h
    cases he
    unfold lost at hp'
    split at hp' <;> cases hp'
    any_goals exact .fails _ _ rfl
    exact .findsSender _
  · cases h

end Step

/-- What a statement outside the blocks does to wallets and ledger rows. -/
inductive Single (d d' : Db) : Prop where
  | keep (hw : d'.wallets = d.wallets) (ht : d'.transactions = d.transactions)
  | openWallet (w : Wallet) (hzero : w.balance = .zero) (h : d.createWallet w = some d')
  | request (id : Uuid) (actor : AuthUser) (dto : MoneyAmountDto) (draw : Draw) (amount : Int4)
      (hamount : amount.val = dto.amount)
      (h : d.createTransaction (withdrawalRow id actor dto draw amount) = some d')

theorem Single.keeps {d d' : Db} (h : Single d d') (touched : RowKey → Prop) :
    Keeps touched d d' := by
  cases h with
  | keep hw ht => exact .of_eq hw ht
  | openWallet w _ h => exact .openWallet h
  | request id actor dto draw amount _ h => exact .createTransaction h

theorem step_single {i : Input} {p q : Pc} {s s' : Shared} (h : step i p s = some (q, s')) :
    Single s.db s'.db := by
  cases step_statement h with
  | createsWallet db hdb => exact .openWallet _ rfl hdb
  | requests amount db hamount hdb => exact .request _ _ _ _ _ hamount hdb
  | publishes db hw ht => exact .keep hw ht
  | _ => exact .keep rfl rfl

/-! ## Blocks -/

section Guarded
variable {H : List RowKey}

theorem guarded_lockWallet {id : Uuid} {next : Option Wallet → TxBlock}
    (hnone : (next none).Doomed)
    (hsome : ∀ w, w.id = id → store.Guarded (.wallet id :: H) (next (some w))) :
    store.Guarded H (lockWallet id next) := by
  refine ⟨hnone, fun v hv => ?_⟩
  cases v with
  | wallet w => exact hsome w hv
  | transaction t => exact hv.elim

theorem guarded_lockTransaction {id : Uuid} {next : Option Transaction → TxBlock}
    (hnone : (next none).Doomed)
    (hsome : ∀ t, t.id = id → store.Guarded (.transaction id :: H) (next (some t))) :
    store.Guarded H (lockTransaction id next) := by
  refine ⟨hnone, fun v hv => ?_⟩
  cases v with
  | wallet w => exact hv.elim
  | transaction t => exact hsome t hv

theorem guarded_refuse {c : Prop} [Decidable c] {e : HttpException} {b : TxBlock}
    (h : store.Guarded H b) : store.Guarded H (if c then .fail e else b) := by
  split
  · trivial
  · exact h

theorem guarded_withInt4 {z : ℤ} {next : Int4 → TxBlock}
    (h : ∀ v, store.Guarded H (next v)) : store.Guarded H (withInt4 z next) := by
  unfold withInt4
  split
  · trivial
  · exact h _

theorem guarded_withRate {rate : Option Decimal} {next : Option Dec → TxBlock}
    (h : ∀ v, store.Guarded H (next v)) : store.Guarded H (withRate rate next) := by
  unfold withRate
  split
  · exact h _
  · split
    · trivial
    · exact h _

theorem guarded_insert {w : Stmt} {b : TxBlock} (hw : touches w = none)
    (h : store.Guarded H b) : store.Guarded H (.write w b) := by
  refine ⟨fun k hk => ?_, h⟩
  change touches w = some k at hk
  simp [hw] at hk

theorem guarded_update {w : Stmt} {b : TxBlock} {k : RowKey} (hw : touches w = some k)
    (hk : k ∈ H) (h : store.Guarded H b) : store.Guarded H (.write w b) := by
  refine ⟨fun k' hk' => ?_, h⟩
  change touches w = some k' at hk'
  rw [hw, Option.some.injEq] at hk'
  exact hk' ▸ hk

variable {actor : AuthUser} {draw : Draw}

theorem guarded_depositBlock {id : Uuid} {dto : MoneyAmountDto} :
    store.Guarded H (depositBlock id actor dto draw) := by
  refine guarded_lockWallet trivial fun wallet _ => ?_
  refine guarded_withInt4 fun after => guarded_update rfl (by simp) ?_
  refine guarded_withInt4 fun amount => ?_
  exact guarded_insert rfl (guarded_insert rfl (guarded_insert rfl trivial))

theorem guarded_approveBlock {txnId : Uuid} : store.Guarded H (approveBlock txnId actor draw) := by
  refine guarded_lockTransaction trivial fun txn htxn => guarded_refuse ?_
  refine guarded_lockWallet trivial fun wallet hwallet => ?_
  dsimp only
  split
  · trivial
  · refine guarded_withInt4 fun after => ?_
    refine guarded_update rfl (by simp [hwallet]) (guarded_update rfl (by simp [htxn]) ?_)
    exact guarded_insert rfl (guarded_insert rfl trivial)

theorem guarded_rejectBlock {txnId : Uuid} {note : Option String} :
    store.Guarded H (rejectBlock txnId actor note draw) := by
  refine guarded_lockTransaction trivial fun txn htxn => guarded_refuse ?_
  refine guarded_update rfl (by simp [htxn]) (guarded_insert rfl fun o => ?_)
  cases o with
  | none => trivial
  | some owner => exact guarded_insert rfl trivial

theorem guarded_adjustBlock {walletId : Uuid} {dto : AdjustmentDto} :
    store.Guarded H (adjustBlock walletId dto actor draw) := by
  refine guarded_lockWallet trivial fun wallet _ => guarded_refuse ?_
  refine guarded_withInt4 fun after => guarded_update rfl (by simp) ?_
  refine guarded_withInt4 fun amount => ?_
  exact guarded_insert rfl (guarded_insert rfl trivial)

theorem guarded_transferWrites {a : TransferArgs} {source dest : Wallet}
    (hs : .wallet source.id ∈ H) (hd : .wallet dest.id ∈ H) :
    store.Guarded H (transferWrites a draw source dest) := by
  refine guarded_refuse (guarded_withInt4 fun fromAfter => guarded_update rfl hs ?_)
  split
  · trivial
  · refine guarded_withInt4 fun toAfter => guarded_update rfl hd ?_
    refine guarded_withRate fun rate => guarded_withInt4 fun amount => guarded_insert rfl ?_
    refine guarded_withInt4 fun credited => ?_
    exact guarded_insert rfl (guarded_insert rfl (guarded_insert rfl trivial))

theorem doomed_lockWallet {id : Uuid} {next : Option Wallet → TxBlock}
    (h : ∀ w, (next w).Doomed) : (lockWallet id next).Doomed := by
  intro v
  dsimp only
  split <;> exact h _

theorem guarded_transferBlock {a : TransferArgs} : store.Guarded H (transferBlock a draw) := by
  have hmissing : ∀ source, (transferFound a draw source none).Doomed := by
    intro source
    cases source <;> trivial
  have hnone : ∀ dest, (transferFound a draw none dest).Doomed := fun _ => trivial
  unfold transferBlock
  split_ifs
  · refine guarded_lockWallet (doomed_lockWallet hnone) fun source hs => ?_
    refine guarded_lockWallet (hmissing _) fun dest hd => ?_
    exact guarded_transferWrites (by simp [hs]) (by simp [hd])
  · refine guarded_lockWallet (doomed_lockWallet hmissing) fun dest hd => ?_
    refine guarded_lockWallet (hnone _) fun source hs => ?_
    exact guarded_transferWrites (by simp [hs]) (by simp [hd])

theorem guarded_block (body : TxnBody) : store.Guarded H (body.block draw) := by
  cases body with
  | deposit id actor dto => exact guarded_depositBlock
  | review r =>
      cases r with
      | approve txnId actor => exact guarded_approveBlock
      | reject txnId actor note => exact guarded_rejectBlock
  | adjust walletId dto actor => exact guarded_adjustBlock
  | transfer a => exact guarded_transferBlock

end Guarded

section Peeks
variable {s : Shared}

theorem peeks_lockWallet {id : Uuid} {next : Option Wallet → TxBlock}
    (h : ∀ w, store.PeeksSome s (next w)) : store.PeeksSome s (lockWallet id next) := by
  rw [lockWallet, Store.PeeksSome]
  split <;> exact h _

theorem peeks_withInt4 {z : ℤ} {next : Int4 → TxBlock}
    (h : ∀ v, store.PeeksSome s (next v)) : store.PeeksSome s (withInt4 z next) := by
  unfold withInt4
  split
  · trivial
  · exact h _

theorem peeks_withRate {rate : Option Decimal} {next : Option Dec → TxBlock}
    (h : ∀ v, store.PeeksSome s (next v)) : store.PeeksSome s (withRate rate next) := by
  unfold withRate
  split
  · exact h _
  · split
    · trivial
    · exact h _

theorem peeks_refuse {c : Prop} [Decidable c] {e : HttpException} {b : TxBlock}
    (h : store.PeeksSome s b) : store.PeeksSome s (if c then .fail e else b) := by
  split
  · trivial
  · exact h

variable {actor : AuthUser} {draw : Draw}

theorem peeks_depositBlock {id : Uuid} {dto : MoneyAmountDto} :
    store.PeeksSome s (depositBlock id actor dto draw) := by
  refine peeks_lockWallet fun w => ?_
  cases w with
  | none => trivial
  | some w => exact peeks_withInt4 fun _ => peeks_withInt4 fun _ => trivial

theorem peeks_approveBlock {txnId : Uuid} :
    store.PeeksSome s (approveBlock txnId actor draw) := by
  rw [approveBlock, lockTransaction, Store.PeeksSome]
  split
  · refine peeks_refuse (peeks_lockWallet fun w => ?_)
    cases w with
    | none => trivial
    | some w =>
        dsimp only
        split
        · trivial
        · exact peeks_withInt4 fun _ => trivial
  · trivial

/-- The row's wallet is there: the ledger row names it. -/
theorem peeks_rejectBlock {txnId : Uuid} {note : Option String} :
    store.PeeksSome s (rejectBlock txnId actor note draw) := by
  rw [rejectBlock, lockTransaction, Store.PeeksSome]
  split
  · next txn hview =>
      obtain ⟨t, ht, he⟩ := Option.map_eq_some_iff.mp hview
      cases he
      obtain ⟨w, hw⟩ := Option.ne_none_iff_exists'.mp (s.db.wallet_fk _ (Table.mem_of_find ht))
      have howner : store.frozen (.wallet txn.walletId) s = some ⟨w.userId, w.currency⟩ :=
        owner_of_find hw
      refine peeks_refuse ⟨by simp [howner], ?_⟩
      rw [howner]
      trivial
  · trivial

theorem peeks_adjustBlock {walletId : Uuid} {dto : AdjustmentDto} :
    store.PeeksSome s (adjustBlock walletId dto actor draw) := by
  refine peeks_lockWallet fun w => ?_
  cases w with
  | none => trivial
  | some w => exact peeks_refuse (peeks_withInt4 fun _ => peeks_withInt4 fun _ => trivial)

theorem peeks_transferFound {a : TransferArgs} {source dest : Option Wallet} :
    store.PeeksSome s (transferFound a draw source dest) := by
  cases source with
  | none => trivial
  | some source =>
      cases dest with
      | none => trivial
      | some dest =>
          refine peeks_refuse (peeks_withInt4 fun _ => ?_)
          rw [Store.PeeksSome]
          split
          · trivial
          · refine peeks_withInt4 fun _ => peeks_withRate fun _ => peeks_withInt4 fun _ => ?_
            exact peeks_withInt4 fun _ => trivial

theorem peeks_block (body : TxnBody) : store.PeeksSome s (body.block draw) := by
  cases body with
  | deposit id actor dto => exact peeks_depositBlock
  | review r =>
      cases r with
      | approve txnId actor => exact peeks_approveBlock
      | reject txnId actor note => exact peeks_rejectBlock
  | adjust walletId dto actor => exact peeks_adjustBlock
  | transfer a =>
      change store.PeeksSome s (transferBlock a draw)
      unfold transferBlock
      split_ifs <;>
        exact peeks_lockWallet fun _ => peeks_lockWallet fun _ => peeks_transferFound

end Peeks

/-- The block a call opens at its current statement. -/
def block : Pc → Option TxBlock
  | .transaction body draw => some (body.block draw)
  | _ => none

def program : Program Shared RowKey Row Owner Stmt HttpException Committed Input Pc where
  toStore := store
  aborted := internalError
  step := step
  block := block
  committed _ r := .emit r
  failed _ e := .failed e
  step_view h hv := ((step_single h).keeps fun _ => False).view (fun hk => hk) hv
  step_frozen h hf := ((step_single h).keeps fun _ => False).frozen hf
  guarded {p b} h := by
    cases p <;> cases h
    exact guarded_block _
  peeksSome {p b} s h := by
    cases p <;> cases h
    exact peeks_block _

/-! ## What a block that commits has run through -/

/-- Run on `s`, with `acc` written so far, the block commits `r` and leaves `s'`. -/
def Commits (s acc : Shared) (b : TxBlock) (r : Committed) (s' : Shared) : Prop :=
  store.runOn internalError s b acc = .ok (r, s')

section Commits
variable {s acc s' : Shared} {r : Committed}

theorem commits_lockWallet {id : Uuid} {next : Option Wallet → TxBlock} :
    Commits s acc (lockWallet id next) r s' ↔
      Commits s acc (next (s.db.wallets.find id)) r s' := by
  have hview : store.view (.wallet id) s = (s.db.wallets.find id).map .wallet := rfl
  rw [Commits, lockWallet, Store.runOn, hview]
  cases s.db.wallets.find id <;> rfl

theorem commits_lockTransaction {id : Uuid} {next : Option Transaction → TxBlock} :
    Commits s acc (lockTransaction id next) r s' ↔
      Commits s acc (next (s.db.transactions.find id)) r s' := by
  have hview : store.view (.transaction id) s = (s.db.transactions.find id).map .transaction := rfl
  rw [Commits, lockTransaction, Store.runOn, hview]
  cases s.db.transactions.find id <;> rfl

theorem commits_peek {id : Uuid} {next : Option Owner → TxBlock} :
    Commits s acc (.peek (.wallet id) next) r s' ↔ Commits s acc (next (owner s.db id)) r s' :=
  Iff.rfl

theorem commits_write {w : Stmt} {b : TxBlock} :
    Commits s acc (.write w b) r s' ↔
      ∃ db, w.exec acc.db = some db ∧ Commits s { acc with db := db } b r s' := by
  have hexec : store.exec w acc = (w.exec acc.db).map fun db => { acc with db := db } := rfl
  rw [Commits, Store.runOn, hexec]
  cases w.exec acc.db with
  | none => simp
  | some db => simp [Commits]

/-- A block writes tables and nothing else. -/
theorem commits_shared {b : TxBlock} (h : Commits s acc b r s') :
    s' = { acc with db := s'.db } := by
  induction b generalizing acc with
  | lock k next ih => exact ih _ h
  | peek k next ih => exact ih _ h
  | write w next ih =>
      obtain ⟨db, -, hnext⟩ := commits_write.mp h
      rw [ih hnext]
  | fail e => simp [Commits, Store.runOn] at h
  | commit r' =>
      simp only [Commits, Store.runOn, Except.ok.injEq, Prod.mk.injEq] at h
      rw [h.2]

theorem commits_fail {e : HttpException} : ¬ Commits s acc (.fail e) r s' := by
  simp [Commits, Store.runOn]

theorem commits_commit {r₀ : Committed} :
    Commits s acc (.commit r₀) r s' ↔ r₀ = r ∧ acc = s' := by
  simp [Commits, Store.runOn]

theorem commits_refuse {c : Prop} [Decidable c] {e : HttpException} {b : TxBlock} :
    Commits s acc (if c then .fail e else b) r s' ↔ ¬ c ∧ Commits s acc b r s' := by
  split_ifs with hc <;> simp [hc, commits_fail]

theorem commits_withInt4 {z : ℤ} {next : Int4 → TxBlock} :
    Commits s acc (withInt4 z next) r s' ↔ ∃ v, v.val = z ∧ Commits s acc (next v) r s' := by
  unfold withInt4
  split
  · next hz =>
      refine ⟨fun h => absurd h commits_fail, ?_⟩
      rintro ⟨v, rfl, -⟩
      simp [Int4.ofInt?, v.range] at hz
  · next v hv =>
      refine ⟨fun h => ⟨v, Int4.val_of_ofInt? hv, h⟩, ?_⟩
      rintro ⟨u, rfl, hu⟩
      have huv : u = v := by simpa [Int4.ofInt?, u.range] using hv
      exact huv ▸ hu

theorem commits_withRate {rate : Option Decimal} {next : Option Dec → TxBlock}
    (h : Commits s acc (withRate rate next) r s') :
    ∃ column, rate.map Decimal.toColumn = column.map some ∧ Commits s acc (next column) r s' := by
  cases rate with
  | none => exact ⟨none, rfl, h⟩
  | some x =>
      rw [withRate] at h
      cases hx : x.toColumn with
      | none =>
          rw [hx] at h
          exact absurd h commits_fail
      | some column =>
          rw [hx] at h
          exact ⟨some column, by simp [hx], h⟩

end Commits

end MaxOne.WalletsMachine
