import MaxOne.Library.LockOrder
import MaxOne.MoneyRuns

/-!
# The row locks of the money path

The lock requests of the transaction blocks and of the insert that requests a
withdrawal: `SELECT .. FOR UPDATE`, the row lock of an UPDATE and, for a new
ledger row, the lock its foreign key takes on the wallet. The order is the same
for all of them: transaction rows before wallets, and wallets by their ids.
-/
namespace MaxOne.RowLocks
open Library Library.Runs Library.LockedBlocks Library.LockOrder MaxOne.Rates MaxOne.Schema
  MaxOne.WalletsService MaxOne.WalletsMachine

/-- One database transaction of a call. -/
inductive Job where
  | block (body : TxnBody) (draw : WalletsService.Draw)
  | createWithdrawal (id : Uuid) (actor : AuthUser) (dto : MoneyAmountDto)
      (draw : WalletsService.Draw) (amount : Int4)

def Job.body : Job → TxBlock
  | .block body draw => body.block draw
  | .createWithdrawal id actor dto draw amount =>
      let row := withdrawalRow id actor dto draw amount
      .write (.createTransaction row) (.commit ⟨.transaction row, [], none⟩)

/-- Audit entries and events reference no row of the money path. -/
def lockOf : Stmt → Option (RowKey × LockMode)
  | .updateWallet id _ => some (.wallet id, .noKeyUpdate)
  | .updateTransaction id _ => some (.transaction id, .noKeyUpdate)
  | .createTransaction row => some (.wallet row.walletId, .keyShare)
  | .createAuditLog _ | .createOutboxEvent _ => none

def request : TxBlock → Option (RowKey × LockMode)
  | .lock k _ => some (k, .update)
  | .write w _ => lockOf w
  | .peek .. | .fail _ | .commit _ => none

/-- What the database answers to a statement; one it refuses ends the transaction. -/
inductive Answer where
  | row (v : Option Row)
  | owner (o : Option Owner)
  | written

instance (k : RowKey) (v : Row) : Decidable (Fits k v) :=
  match k, v with
  | .wallet id, .wallet w => inferInstanceAs (Decidable (w.id = id))
  | .transaction id, .transaction t => inferInstanceAs (Decidable (t.id = id))
  | .wallet _, .transaction _ | .transaction _, .wallet _ => .isFalse id

def reply : TxBlock → Answer → Option (TxBlock × Bool)
  | .lock _ rest, .row none => some (rest none, false)
  | .lock k rest, .row (some v) => if Fits k v then some (rest (some v), true) else none
  | .peek _ rest, .owner o => some (rest o, true)
  | .write _ rest, .written => some (rest, true)
  | _, _ => none

def moneyPath : Protocol RowKey Job TxBlock Answer := ⟨Job.body, request, reply⟩

/-! ## The order -/

def rank : RowKey → ℕ ×ₗ ℕ
  | .transaction id => toLex (0, id)
  | .wallet id => toLex (1, id)

theorem rank_transaction_lt_wallet (id id' : Uuid) :
    rank (.transaction id) < rank (.wallet id') :=
  Prod.Lex.toLex_lt_toLex.mpr (.inl Nat.zero_lt_one)

theorem rank_wallet_lt {id id' : Uuid} (h : id < id') : rank (.wallet id) < rank (.wallet id') :=
  Prod.Lex.toLex_lt_toLex.mpr (.inr ⟨rfl, h⟩)

/-- The row is locked already, or lies above all that are. -/
def Allowed (H : List (RowKey × LockMode)) (k : RowKey) : Prop :=
  (k, .update) ∈ H ∨ ∀ h ∈ H, rank h.1 < rank k

/-- Every lock the block asks for, whatever it reads, is allowed. -/
def InOrder : List (RowKey × LockMode) → TxBlock → Prop
  | H, .lock k rest => Allowed H k ∧ InOrder H (rest none) ∧
      ∀ v, Fits k v → InOrder ((k, .update) :: H) (rest (some v))
  | H, .peek _ rest => ∀ o, InOrder H (rest o)
  | H, .write w rest =>
      (∀ r ∈ lockOf w, Allowed H r.1) ∧ InOrder ((lockOf w).toList ++ H) rest
  | _, .fail _ => True
  | _, .commit _ => True

section InOrder
variable {H : List (RowKey × LockMode)}

theorem allowed_nil (k : RowKey) : Allowed [] k := .inr fun _ hh => absurd hh List.not_mem_nil

theorem allowed_above {k k' : RowKey} {m : LockMode} (h : rank k < rank k') : Allowed [(k, m)] k' := by
  refine .inr fun held hheld => ?_
  rw [List.mem_singleton] at hheld
  rw [hheld]
  exact h

theorem inOrder_lockWallet {id : Uuid} {rest : Option Wallet → TxBlock}
    (hallowed : Allowed H (.wallet id)) (hnone : InOrder H (rest none))
    (hsome : ∀ w, w.id = id → InOrder ((.wallet id, .update) :: H) (rest (some w))) :
    InOrder H (lockWallet id rest) := by
  refine ⟨hallowed, hnone, fun v hv => ?_⟩
  cases v with
  | wallet w => exact hsome w hv
  | transaction t => exact hv.elim

theorem inOrder_lockTransaction {id : Uuid} {rest : Option Transaction → TxBlock}
    (hallowed : Allowed H (.transaction id)) (hnone : InOrder H (rest none))
    (hsome : ∀ t, t.id = id → InOrder ((.transaction id, .update) :: H) (rest (some t))) :
    InOrder H (lockTransaction id rest) := by
  refine ⟨hallowed, hnone, fun v hv => ?_⟩
  cases v with
  | wallet w => exact hv.elim
  | transaction t => exact hsome t hv

theorem inOrder_refuse {c : Prop} [Decidable c] {e : HttpException} {b : TxBlock}
    (h : InOrder H b) : InOrder H (if c then .fail e else b) := by
  split
  · trivial
  · exact h

theorem inOrder_withInt4 {z : ℤ} {rest : Int4 → TxBlock} (h : ∀ v, InOrder H (rest v)) :
    InOrder H (withInt4 z rest) := by
  unfold withInt4
  split
  · trivial
  · exact h _

theorem inOrder_withRate {rate : Option Decimal} {rest : Option Library.DecimalRounding.Dec → TxBlock}
    (h : ∀ v, InOrder H (rest v)) : InOrder H (withRate rate rest) := by
  unfold withRate
  split
  · exact h _
  · split
    · trivial
    · exact h _

/-- A statement on a row the block has locked. -/
theorem inOrder_held {w : Stmt} {b : TxBlock} {k : RowKey} {m : LockMode}
    (hw : lockOf w = some (k, m)) (hk : (k, .update) ∈ H) (h : InOrder ((k, m) :: H) b) :
    InOrder H (.write w b) := by
  refine ⟨fun r hr => ?_, ?_⟩
  · rw [hw] at hr
    cases hr
    exact .inl hk
  · rw [hw]
    exact h

/-- The audit entry and the event. -/
theorem inOrder_entry {w : Stmt} {b : TxBlock} (hw : lockOf w = none) (h : InOrder H b) :
    InOrder H (.write w b) := by
  refine ⟨fun r hr => ?_, ?_⟩
  · rw [hw] at hr
    cases hr
  · rw [hw]
    exact h

variable {actor : AuthUser} {draw : WalletsService.Draw}

theorem inOrder_depositBlock {id : Uuid} {dto : MoneyAmountDto} :
    InOrder [] (depositBlock id actor dto draw) := by
  refine inOrder_lockWallet (allowed_nil _) trivial fun wallet _ => ?_
  refine inOrder_withInt4 fun after => inOrder_held rfl (by simp) ?_
  refine inOrder_withInt4 fun amount => inOrder_held rfl (by simp [settledRow]) ?_
  exact inOrder_entry rfl (inOrder_entry rfl trivial)

theorem inOrder_adjustBlock {walletId : Uuid} {dto : AdjustmentDto} :
    InOrder [] (adjustBlock walletId dto actor draw) := by
  refine inOrder_lockWallet (allowed_nil _) trivial fun wallet _ => inOrder_refuse ?_
  refine inOrder_withInt4 fun after => inOrder_held rfl (by simp) ?_
  refine inOrder_withInt4 fun amount => inOrder_held rfl (by simp [settledRow]) ?_
  exact inOrder_entry rfl trivial

theorem inOrder_approveBlock {txnId : Uuid} : InOrder [] (approveBlock txnId actor draw) := by
  refine inOrder_lockTransaction (allowed_nil _) trivial fun txn htxn => inOrder_refuse ?_
  have hallowed := allowed_above (m := .update) (rank_transaction_lt_wallet txnId txn.walletId)
  refine inOrder_lockWallet hallowed trivial fun wallet hwallet => ?_
  dsimp only
  split
  · trivial
  · refine inOrder_withInt4 fun after => ?_
    refine inOrder_held rfl (by simp [hwallet]) (inOrder_held rfl (by simp [htxn]) ?_)
    exact inOrder_entry rfl (inOrder_entry rfl trivial)

theorem inOrder_rejectBlock {txnId : Uuid} {note : Option String} :
    InOrder [] (rejectBlock txnId actor note draw) := by
  refine inOrder_lockTransaction (allowed_nil _) trivial fun txn htxn => inOrder_refuse ?_
  refine inOrder_held rfl (by simp [htxn]) (inOrder_entry rfl fun o => ?_)
  cases o with
  | none => trivial
  | some owner => exact inOrder_entry rfl trivial

theorem inOrder_transferWrites {a : TransferArgs} {source dest : Wallet}
    (hs : (RowKey.wallet source.id, LockMode.update) ∈ H)
    (hd : (RowKey.wallet dest.id, LockMode.update) ∈ H) :
    InOrder H (transferWrites a draw source dest) := by
  refine inOrder_refuse (inOrder_withInt4 fun fromAfter => inOrder_held rfl hs ?_)
  split
  · trivial
  · refine inOrder_withInt4 fun toAfter => inOrder_held rfl (List.mem_cons_of_mem _ hd) ?_
    refine inOrder_withRate fun rate => inOrder_withInt4 fun amount => ?_
    refine inOrder_held rfl (by simp [transferRow, hs]) (inOrder_withInt4 fun credited => ?_)
    refine inOrder_held rfl (by simp [transferRow, hd]) ?_
    exact inOrder_entry rfl (inOrder_entry rfl trivial)

theorem inOrder_transferFound {a : TransferArgs} {source dest : Option Wallet}
    (hs : ∀ w ∈ source, (RowKey.wallet w.id, LockMode.update) ∈ H)
    (hd : ∀ w ∈ dest, (RowKey.wallet w.id, LockMode.update) ∈ H) :
    InOrder H (transferFound a draw source dest) := by
  cases source with
  | none => trivial
  | some source =>
      cases dest with
      | none => trivial
      | some dest => exact inOrder_transferWrites (hs source rfl) (hd dest rfl)

theorem inOrder_transferBlock {a : TransferArgs} : InOrder [] (transferBlock a draw) := by
  unfold transferBlock
  split
  · next hle =>
      refine inOrder_lockWallet (allowed_nil _) ?_ fun source hs => ?_
      · exact inOrder_lockWallet (allowed_nil _) trivial fun _ _ => trivial
      · have hallowed : Allowed [(.wallet a.fromWalletId, .update)] (.wallet a.dto.toWalletId) := by
          rcases hle.eq_or_lt with heq | hlt
          · exact .inl (by simp [heq])
          · exact allowed_above (rank_wallet_lt hlt)
        refine inOrder_lockWallet hallowed (inOrder_transferFound (by simp [hs]) (by simp)) ?_
        exact fun dest hd => inOrder_transferFound (by simp [hs]) (by simp [hd])
  · next hgt =>
      refine inOrder_lockWallet (allowed_nil _) ?_ fun dest hd => ?_
      · exact inOrder_lockWallet (allowed_nil _) trivial fun source hs =>
          inOrder_transferFound (by simp [hs]) (by simp)
      · have hallowed := allowed_above (m := .update) (rank_wallet_lt (not_le.mp hgt))
        refine inOrder_lockWallet hallowed (inOrder_transferFound (by simp) (by simp [hd])) ?_
        exact fun source hs => inOrder_transferFound (by simp [hs]) (by simp [hd])

theorem inOrder_body (job : Job) : InOrder [] job.body := by
  cases job with
  | block body draw =>
      cases body with
      | deposit id actor dto => exact inOrder_depositBlock
      | review r =>
          cases r with
          | approve txnId actor => exact inOrder_approveBlock
          | reject txnId actor note => exact inOrder_rejectBlock
      | adjust walletId dto actor => exact inOrder_adjustBlock
      | transfer a => exact inOrder_transferBlock
  | createWithdrawal id actor dto draw amount =>
      refine ⟨fun r hr => ?_, trivial⟩
      cases hr
      exact allowed_nil _

end InOrder

/-- The statements keep to the order whatever the database answers. -/
def discipline : Discipline moneyPath rank where
  Fits := InOrder
  start := inOrder_body
  order := by
    intro H b k m hb hrequest
    cases b with
    | lock key rest =>
        cases hrequest
        exact hb.1
    | write w rest => exact hb.1 (k, m) hrequest
    | peek key rest => cases hrequest
    | fail e => cases hrequest
    | commit r => cases hrequest
  granted := by
    intro H b k m answer b' hb hrequest hreply
    cases b with
    | lock key rest =>
        cases hrequest
        cases answer with
        | row v =>
            cases v with
            | none => cases hreply
            | some v =>
                obtain ⟨hfits, he⟩ := Option.ite_none_right_eq_some.mp hreply
                cases he
                exact hb.2.2 v hfits
        | owner o => cases hreply
        | written => cases hreply
    | write w rest =>
        cases answer with
        | written =>
            cases hreply
            have hlock : lockOf w = some (k, m) := hrequest
            have hrest := hb.2
            rw [hlock] at hrest
            exact hrest
        | row v => cases hreply
        | owner o => cases hreply
    | peek key rest => cases hrequest
    | fail e => cases hrequest
    | commit r => cases hrequest
  missing := by
    intro H b answer b' hb _ hreply
    cases b with
    | lock key rest =>
        cases answer with
        | row v =>
            cases v with
            | none =>
                cases hreply
                exact hb.2.1
            | some v =>
                obtain ⟨_, he⟩ := Option.ite_none_right_eq_some.mp hreply
                cases he
        | owner o => cases hreply
        | written => cases hreply
    | write w rest => cases answer <;> cases hreply
    | peek key rest => cases answer <;> cases hreply
    | fail e => cases hreply
    | commit r => cases hreply
  silent := by
    intro H b answer b' found hb hrequest hreply
    cases b with
    | lock key rest => cases hrequest
    | write w rest =>
        cases answer with
        | written =>
            cases hreply
            have hlock : lockOf w = none := hrequest
            have hrest := hb.2
            rw [hlock] at hrest
            exact hrest
        | row v => cases hreply
        | owner o => cases hreply
    | peek key rest =>
        cases answer with
        | owner o =>
            cases hreply
            exact hb o
        | row v => cases hreply
        | written => cases hreply
    | fail e => cases hreply
    | commit r => cases hreply

/-- No transactions of the money path ever wait for one another in a circle. -/
theorem money_path_deadlock_free {tr : List (Event (ℕ × Act Job Answer) (State RowKey TxBlock))}
    {s : State RowKey TxBlock} (h : Run (LockOrder.next moneyPath) idle tr s) :
    ¬ Deadlock moneyPath s :=
  no_deadlock discipline h

/-- A transfer from wallet 1 to wallet 2 that holds wallet 1, and one the other way. -/
def opposite : List (ℕ × Act Job Answer) :=
  let wallet : Wallet := ⟨1, 10, "", "USD", Int4.zero⟩
  let transfer (source dest : Uuid) : Job :=
    .block (.transfer ⟨source, MoneyRuns.customer 10, ⟨dest, 5, none, by decide⟩, none, some 5, none⟩)
      (MoneyRuns.numbered 20)
  [(0, .start (transfer 1 2)), (1, .start (transfer 2 1)), (0, .advance (.row (some (.wallet wallet))))]

theorem money_path_deadlock_free_opposite :
    ∃ tr s, Run (LockOrder.next moneyPath) idle tr s ∧ Waits moneyPath s 1 0 ∧
      (s.running 0).bind request = some (.wallet 2, .update) ∧ ¬ Deadlock moneyPath s := by
  obtain ⟨tr, s, hrun, -, hs⟩ := Run.of_trace_map (LockOrder.next moneyPath) opposite idle
    (fun _ s => (s.locks, (s.running 0).bind request, (s.running 1).bind request))
    ([⟨0, .wallet 1, .update⟩], some (.wallet 2, .update), some (.wallet 1, .update)) (by decide)
  have hlocks : s.locks = [⟨0, .wallet 1, .update⟩] := congrArg Prod.fst hs
  have hfirst : (s.running 0).bind request = some (.wallet 2, .update) :=
    congrArg (fun r => r.2.1) hs
  have hsecond : (s.running 1).bind request = some (.wallet 1, .update) :=
    congrArg (fun r => r.2.2) hs
  obtain ⟨b, hb, hrequest⟩ := Option.bind_eq_some_iff.mp hsecond
  have hwaits : Waits moneyPath s 1 0 := by
    refine ⟨b, .wallet 1, .update, hb, hrequest, Nat.one_ne_zero, ⟨0, .wallet 1, .update⟩, ?_,
      rfl, rfl, rfl⟩
    rw [hlocks]
    exact List.mem_singleton.mpr rfl
  exact ⟨tr, s, hrun, hwaits, hfirst, money_path_deadlock_free hrun⟩

end MaxOne.RowLocks
