import MaxOne.WalletsMachine

/-!
# What the transaction blocks do to the ledger

One theorem for each block reads off, from a run that commits, the rows it
found and the rows it left. `Effect` collects them; it is the only thing later
modules know about the blocks. A transfer's block is entered with arguments
settled before the locks, so its effect speaks about the wallets it finds under
them and the arguments it was given.
-/
namespace MaxOne.Ledger
open Library Library.LockedBlocks Library.DecimalRounding MaxOne.Rates MaxOne.Schema
  MaxOne.WalletsService MaxOne.WalletsMachine

/-- The balance movements a ledger row may stand for. -/
def Signed (row : Transaction) (delta : ℤ) : Prop :=
  match row.type with
  | .deposit | .transferIn => delta = row.amount.val
  | .withdrawal | .transferOut => delta = -row.amount.val
  | .adjustment => delta = row.amount.val ∨ delta = -row.amount.val

/-- An approved row that takes the balance of its wallet to `balance`. -/
structure Posts (wallet : Wallet) (row : Transaction) (balance : Int4) : Prop where
  walletId : row.walletId = wallet.id
  status : row.status = .approved
  before : row.balanceBefore = some wallet.balance
  after : row.balanceAfter = some balance
  signed : Signed row (balance.val - wallet.balance.val)

def outRow (a : TransferArgs) (draw : Draw) (rate : Option Dec) (source dest : Wallet)
    (amount fromAfter : Int4) : Transaction :=
  transferRow a draw rate draw.rowId source.id .transferOut amount dest.id source.balance fromAfter

def inRow (a : TransferArgs) (draw : Draw) (rate : Option Dec) (source dest : Wallet)
    (credited toAfter : Int4) : Transaction :=
  transferRow a draw rate draw.inRowId dest.id .transferIn credited source.id dest.balance toAfter

/-- What a committed block did to wallets and ledger rows. -/
inductive Effect (d d' : Db) : TxnBody → Draw → Prop where
  | post {body : TxnBody} {draw : Draw} (wallet : Wallet) (row : Transaction) (after : Int4)
      (hfind : d.wallets.find wallet.id = some wallet) (hposts : Posts wallet row after)
      (hamount : 1 ≤ row.amount.val) (hnonneg : 0 ≤ wallet.balance.val → 0 ≤ after.val)
      (hsingle : row.transferId = none)
      (hw : d'.wallets = (d.updateWallet wallet.id after).wallets)
      (ht : d.transactions.insert row = some d'.transactions) : Effect d d' body draw
  | approve {txnId : Uuid} {actor : AuthUser} {draw : Draw} (wallet : Wallet)
      (row : Transaction) (after : Int4) (hrow : d.transactions.find txnId = some row)
      (hpending : row.status = .pending) (hfind : d.wallets.find row.walletId = some wallet)
      (hafter : approvedBalance row wallet.balance.val = .ok after.val)
      (hw : d'.wallets = (d.updateWallet wallet.id after).wallets)
      (ht : d'.transactions =
        (d.settle txnId (.approve actor.id draw.now wallet.balance after)).transactions) :
      Effect d d' (.review (.approve txnId actor)) draw
  | reject {txnId : Uuid} {actor : AuthUser} {note : Option String} {draw : Draw}
      (row : Transaction) (note' : Option String)
      (hrow : d.transactions.find txnId = some row) (hpending : row.status = .pending)
      (hw : d'.wallets = d.wallets)
      (ht : d'.transactions = (d.settle txnId (.reject actor.id draw.now note')).transactions) :
      Effect d d' (.review (.reject txnId actor note)) draw
  | transfer {a : TransferArgs} {draw : Draw} (source dest : Wallet) (rate : Option Dec)
      (amount credited fromAfter toAfter : Int4)
      (hsource : d.wallets.find a.fromWalletId = some source)
      (hdest : d.wallets.find a.dto.toWalletId = some dest)
      (hamount : amount.val = a.dto.amount) (hcredit : a.credit = some credited.val)
      (hfunds : a.dto.amount ≤ source.balance.val)
      (hfrom : fromAfter.val = source.balance.val - amount.val)
      (hto : toAfter.val = dest.balance.val + credited.val)
      (hrate : a.exchangeRate.map Decimal.toColumn = rate.map some)
      (hw : d'.wallets =
        ((d.updateWallet source.id fromAfter).updateWallet dest.id toAfter).wallets)
      (mid : Table Transaction Transaction.id)
      (hout : d.transactions.insert (outRow a draw rate source dest amount fromAfter) = some mid)
      (hin : mid.insert (inRow a draw rate source dest credited toAfter) =
        some d'.transactions) :
      Effect d d' (.transfer a) draw

section Blocks
variable {s acc s' : Shared} {r : Committed} {draw : Draw} {actor : AuthUser}

/-- A block that commits has found the wallet it locks. -/
theorem commits_found {id : Uuid} {e : HttpException} {next : Option Wallet → TxBlock}
    (hnone : next none = .fail e) (h : Commits s acc (lockWallet id next) r s') :
    ∃ w, s.db.wallets.find id = some w ∧ Commits s acc (next (some w)) r s' := by
  rw [commits_lockWallet] at h
  cases hfind : s.db.wallets.find id with
  | none =>
      rw [hfind, hnone] at h
      exact absurd h commits_fail
  | some w =>
      rw [hfind] at h
      exact ⟨w, rfl, h⟩

theorem commits_foundRow {id : Uuid} {e : HttpException} {next : Option Transaction → TxBlock}
    (hnone : next none = .fail e) (h : Commits s acc (lockTransaction id next) r s') :
    ∃ t, s.db.transactions.find id = some t ∧ Commits s acc (next (some t)) r s' := by
  rw [commits_lockTransaction] at h
  cases hfind : s.db.transactions.find id with
  | none =>
      rw [hfind, hnone] at h
      exact absurd h commits_fail
  | some t =>
      rw [hfind] at h
      exact ⟨t, rfl, h⟩

/-- Entries beside the ledger: the audit trail and the outbox. -/
theorem commits_audit {row : AuditLog} {b : TxBlock}
    (h : Commits s acc (.write (.createAuditLog row) b) r s') :
    ∃ acc', acc'.db.wallets = acc.db.wallets ∧ acc'.db.transactions = acc.db.transactions ∧
      Commits s acc' b r s' := by
  obtain ⟨db, hdb, h⟩ := commits_write.mp h
  obtain ⟨hw, ht, -⟩ := exec_createAuditLog hdb
  exact ⟨_, hw, ht, h⟩

theorem commits_outbox {row : OutboxEvent} {b : TxBlock}
    (h : Commits s acc (.write (.createOutboxEvent row) b) r s') :
    ∃ acc', acc'.db.wallets = acc.db.wallets ∧ acc'.db.transactions = acc.db.transactions ∧
      Commits s acc' b r s' := by
  obtain ⟨db, hdb, h⟩ := commits_write.mp h
  obtain ⟨hw, ht, -⟩ := exec_createOutboxEvent hdb
  exact ⟨_, hw, ht, h⟩

theorem commits_updateWallet {id : Uuid} {balance : Int4} {b : TxBlock}
    (h : Commits s acc (.write (.updateWallet id balance) b) r s') :
    Commits s { acc with db := acc.db.updateWallet id balance } b r s' := by
  obtain ⟨db, hdb, h⟩ := commits_write.mp h
  rwa [exec_updateWallet hdb] at h

theorem commits_createTransaction {row : Transaction} {b : TxBlock}
    (h : Commits s acc (.write (.createTransaction row) b) r s') :
    ∃ acc', acc'.db.wallets = acc.db.wallets ∧
      acc.db.transactions.insert row = some acc'.db.transactions ∧ Commits s acc' b r s' := by
  obtain ⟨db, hdb, h⟩ := commits_write.mp h
  obtain ⟨ht, hw, -⟩ := Db.createTransaction_cases hdb
  exact ⟨_, hw, ht, h⟩

theorem depositBlock_effect {id : Uuid} {dto : MoneyAmountDto}
    (h : Commits s s (depositBlock id actor dto draw) r s') :
    Effect s.db s'.db (.deposit id actor dto) draw := by
  obtain ⟨wallet, hfind, h⟩ := commits_found rfl h
  obtain rfl := Table.find_key hfind
  obtain ⟨after, hafter, h⟩ := commits_withInt4.mp h
  obtain ⟨amount, hamount, h⟩ := commits_withInt4.mp (commits_updateWallet h)
  obtain ⟨acc₁, hw₁, ht₁, h⟩ := commits_createTransaction h
  obtain ⟨acc₂, hw₂, ht₂, h⟩ := commits_audit h
  obtain ⟨acc₃, hw₃, ht₃, h⟩ := commits_outbox h
  obtain ⟨-, rfl⟩ := commits_commit.mp h
  have hone := dto.min_one
  have hsigned : after.val - wallet.balance.val = amount.val := by omega
  have hposts : Posts wallet (settledRow draw wallet.id .deposit amount wallet.balance after
      actor dto.note) after := ⟨rfl, rfl, rfl, rfl, hsigned⟩
  refine .post wallet _ after hfind hposts ?_ ?_ rfl ?_ ?_
  · exact hamount.symm ▸ hone
  · omega
  · rw [hw₃, hw₂, hw₁]
  · rw [ht₃, ht₂, ← ht₁]
    rfl

theorem adjustBlock_effect {walletId : Uuid} {dto : AdjustmentDto}
    (h : Commits s s (adjustBlock walletId dto actor draw) r s') :
    Effect s.db s'.db (.adjust walletId dto actor) draw := by
  obtain ⟨wallet, hfind, h⟩ := commits_found rfl h
  obtain rfl := Table.find_key hfind
  obtain ⟨hnonneg, h⟩ := commits_refuse.mp h
  obtain ⟨after, hafter, h⟩ := commits_withInt4.mp h
  obtain ⟨amount, hamount, h⟩ := commits_withInt4.mp (commits_updateWallet h)
  obtain ⟨acc₁, hw₁, ht₁, h⟩ := commits_createTransaction h
  obtain ⟨acc₂, hw₂, ht₂, h⟩ := commits_audit h
  obtain ⟨-, rfl⟩ := commits_commit.mp h
  rw [← hafter, not_lt] at hnonneg
  have hsigned : after.val - wallet.balance.val = amount.val ∨
      after.val - wallet.balance.val = -amount.val := by
    cases hd : dto.direction <;> rw [hd] at hafter <;> dsimp only at hafter <;> omega
  have hposts : Posts wallet (settledRow draw wallet.id .adjustment amount wallet.balance
      after actor (some dto.note)) after := ⟨rfl, rfl, rfl, rfl, hsigned⟩
  refine .post wallet _ after hfind hposts ?_ (fun _ => hnonneg) rfl ?_ ?_
  · exact hamount.symm ▸ dto.min_one
  · rw [hw₂, hw₁]
  · rw [ht₂, ← ht₁]
    rfl

/-- An approval that commits has found the row pending, its wallet, and the money. -/
theorem commits_approveBlock {txnId : Uuid}
    (h : Commits s s (approveBlock txnId actor draw) r s') :
    ∃ wallet row after, s.db.transactions.find txnId = some row ∧ row.status = .pending ∧
      s.db.wallets.find row.walletId = some wallet ∧
      approvedBalance row wallet.balance.val = .ok after.val ∧
      s'.db.wallets = (s.db.updateWallet wallet.id after).wallets ∧
      s'.db.transactions =
        (s.db.settle txnId (.approve actor.id draw.now wallet.balance after)).transactions := by
  obtain ⟨row, hrow, hblock⟩ := commits_foundRow rfl h
  obtain rfl := Table.find_key hrow
  obtain ⟨hpending, h⟩ := commits_refuse.mp hblock
  obtain ⟨wallet, hfind, h⟩ := commits_found rfl h
  dsimp only at h
  cases hbal : approvedBalance row wallet.balance.val with
  | error e =>
      rw [hbal] at h
      exact absurd h commits_fail
  | ok balance =>
      rw [hbal] at h
      obtain ⟨after, hafter, h⟩ := commits_withInt4.mp h
      obtain ⟨db, hdb, h⟩ := commits_write.mp (commits_updateWallet h)
      obtain rfl := exec_updateTransaction hdb
      obtain ⟨acc₁, hw₁, ht₁, h⟩ := commits_audit h
      obtain ⟨acc₂, hw₂, ht₂, h⟩ := commits_outbox h
      obtain ⟨-, rfl⟩ := commits_commit.mp h
      refine ⟨wallet, row, after, hrow, not_not.mp hpending, hfind, hafter ▸ hbal, ?_, ?_⟩
      · rw [hw₂, hw₁]
        rfl
      · rw [ht₂, ht₁]
        rfl

theorem approveBlock_effect {txnId : Uuid}
    (h : Commits s s (approveBlock txnId actor draw) r s') :
    Effect s.db s'.db (.review (.approve txnId actor)) draw := by
  obtain ⟨wallet, row, after, hrow, hpending, hfind, hafter, hw, ht⟩ := commits_approveBlock h
  exact .approve wallet row after hrow hpending hfind hafter hw ht

theorem commits_rejectBlock {txnId : Uuid} {note : Option String}
    (h : Commits s s (rejectBlock txnId actor note draw) r s') :
    ∃ row note', s.db.transactions.find txnId = some row ∧ row.status = .pending ∧
      s'.db.wallets = s.db.wallets ∧
      s'.db.transactions = (s.db.settle txnId (.reject actor.id draw.now note')).transactions := by
  obtain ⟨row, hrow, hblock⟩ := commits_foundRow rfl h
  obtain rfl := Table.find_key hrow
  obtain ⟨hpending, h⟩ := commits_refuse.mp hblock
  obtain ⟨db, hdb, h⟩ := commits_write.mp h
  obtain rfl := exec_updateTransaction hdb
  obtain ⟨acc₁, hw₁, ht₁, h⟩ := commits_audit h
  rw [commits_peek] at h
  have hlast : s'.db.wallets = acc₁.db.wallets ∧
      s'.db.transactions = acc₁.db.transactions := by
    cases ho : owner s.db row.walletId with
    | none =>
        rw [ho] at h
        obtain ⟨-, rfl⟩ := commits_commit.mp h
        exact ⟨rfl, rfl⟩
    | some o =>
        rw [ho] at h
        obtain ⟨acc₂, hw₂, ht₂, h⟩ := commits_outbox h
        obtain ⟨-, rfl⟩ := commits_commit.mp h
        exact ⟨hw₂, ht₂⟩
  refine ⟨row, note.orElse fun _ => row.note, hrow, not_not.mp hpending, ?_, ?_⟩
  · rw [hlast.1, hw₁]
    rfl
  · rw [hlast.2, ht₁]

theorem rejectBlock_effect {txnId : Uuid} {note : Option String}
    (h : Commits s s (rejectBlock txnId actor note draw) r s') :
    Effect s.db s'.db (.review (.reject txnId actor note)) draw := by
  obtain ⟨row, note', hrow, hpending, hw, ht⟩ := commits_rejectBlock h
  exact .reject row note' hrow hpending hw ht

theorem commits_transferWrites {a : TransferArgs} {source dest : Wallet}
    (h : Commits s s (transferWrites a draw source dest) r s') :
    ∃ (rate : Option Dec) (amount credited fromAfter toAfter : Int4)
      (mid : Table Transaction Transaction.id),
      a.dto.amount ≤ source.balance.val ∧ amount.val = a.dto.amount ∧
      a.credit = some credited.val ∧ fromAfter.val = source.balance.val - amount.val ∧
      toAfter.val = dest.balance.val + credited.val ∧
      a.exchangeRate.map Decimal.toColumn = rate.map some ∧
      s'.db.wallets =
        ((s.db.updateWallet source.id fromAfter).updateWallet dest.id toAfter).wallets ∧
      s.db.transactions.insert (outRow a draw rate source dest amount fromAfter) = some mid ∧
      mid.insert (inRow a draw rate source dest credited toAfter) = some s'.db.transactions := by
  obtain ⟨hfunds, h⟩ := commits_refuse.mp h
  obtain ⟨fromAfter, hfrom, h⟩ := commits_withInt4.mp h
  have h := commits_updateWallet h
  cases hcredit : a.credit with
  | none =>
      rw [hcredit] at h
      exact absurd h commits_fail
  | some credit =>
      rw [hcredit] at h
      obtain ⟨toAfter, hto, h⟩ := commits_withInt4.mp h
      obtain ⟨rate, hrate, h⟩ := commits_withRate (commits_updateWallet h)
      obtain ⟨amount, hamount, h⟩ := commits_withInt4.mp h
      obtain ⟨acc₁, hw₁, ht₁, h⟩ := commits_createTransaction h
      obtain ⟨credited, rfl, h⟩ := commits_withInt4.mp h
      obtain ⟨acc₂, hw₂, ht₂, h⟩ := commits_createTransaction h
      obtain ⟨acc₃, hw₃, ht₃, h⟩ := commits_audit h
      obtain ⟨acc₄, hw₄, ht₄, h⟩ := commits_outbox h
      obtain ⟨-, rfl⟩ := commits_commit.mp h
      have hwallets := hw₄.trans (hw₃.trans (hw₂.trans hw₁))
      have hrows := ht₄.trans ht₃
      exact ⟨rate, amount, credited, fromAfter, toAfter, acc₁.db.transactions, not_lt.mp hfunds,
        hamount, rfl, hamount.symm ▸ hfrom, hto, hrate, hwallets, ht₁, hrows ▸ ht₂⟩

theorem transferWrites_effect {a : TransferArgs} {source dest : Wallet}
    (hsource : s.db.wallets.find a.fromWalletId = some source)
    (hdest : s.db.wallets.find a.dto.toWalletId = some dest)
    (h : Commits s s (transferWrites a draw source dest) r s') :
    Effect s.db s'.db (.transfer a) draw := by
  obtain ⟨rate, amount, credited, fromAfter, toAfter, mid, hfunds, hamount, hcredit, hfrom, hto,
    hrate, hw, hout, hin⟩ := commits_transferWrites h
  exact .transfer source dest rate amount credited fromAfter toAfter hsource hdest hamount hcredit
    hfunds hfrom hto hrate hw mid hout hin

/-- The order of the two locks is invisible to a block that runs alone. -/
theorem commits_transferBlock {a : TransferArgs} (h : Commits s s (transferBlock a draw) r s') :
    ∃ source dest, s.db.wallets.find a.fromWalletId = some source ∧
      s.db.wallets.find a.dto.toWalletId = some dest ∧
      Commits s s (transferWrites a draw source dest) r s' := by
  have hfound : Commits s s (transferFound a draw (s.db.wallets.find a.fromWalletId)
      (s.db.wallets.find a.dto.toWalletId)) r s' := by
    unfold transferBlock at h
    split_ifs at h <;> rwa [commits_lockWallet, commits_lockWallet] at h
  cases hsource : s.db.wallets.find a.fromWalletId with
  | none =>
      rw [hsource] at hfound
      exact absurd hfound commits_fail
  | some source =>
      cases hdest : s.db.wallets.find a.dto.toWalletId with
      | none =>
          rw [hsource, hdest] at hfound
          exact absurd hfound commits_fail
      | some dest =>
          rw [hsource, hdest] at hfound
          exact ⟨source, dest, rfl, rfl, hfound⟩

theorem transferBlock_effect {a : TransferArgs}
    (h : Commits s s (transferBlock a draw) r s') :
    Effect s.db s'.db (.transfer a) draw := by
  obtain ⟨source, dest, hsource, hdest, hwrites⟩ := commits_transferBlock h
  exact transferWrites_effect hsource hdest hwrites

theorem block_effect {body : TxnBody} (h : Commits s s (body.block draw) r s') :
    Effect s.db s'.db body draw := by
  cases body with
  | deposit id actor dto => exact depositBlock_effect h
  | review r =>
      cases r with
      | approve txnId actor => exact approveBlock_effect h
      | reject txnId actor note => exact rejectBlock_effect h
  | adjust walletId dto actor => exact adjustBlock_effect h
  | transfer a => exact transferBlock_effect h

end Blocks

end MaxOne.Ledger
