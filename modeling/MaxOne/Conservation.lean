import MaxOne.Library.Totals
import MaxOne.LedgerChain

/-!
# Conservation of money

What the wallets of one currency hold together, compared with the approved rows
of the ledger. A row is external (a deposit, a withdrawal, an adjustment), one
half of a transfer between wallets of one currency, or one half of an exchange.
Halves of internal transfers cancel, so the money of a currency is exactly what
external rows and exchanges have put there.
-/
namespace MaxOne.Conservation
open Library Library.Runs Library.LockedBlocks Library.DecimalRounding MaxOne.Rates MaxOne.Schema
  MaxOne.WalletsService MaxOne.WalletsMachine MaxOne.Ledger MaxOne.MoneyRuns

abbrev Wallets := Table Wallet Wallet.id
abbrev Transactions := Table Transaction Transaction.id

/-- Where the money of a row comes from or goes to. -/
inductive Flow where
  | external | internal | exchange
  deriving DecidableEq

/-- Only transfers carry a `transferId`, only exchanges a rate. -/
def flowOf (t : Transaction) : Flow :=
  if t.transferId = none then .external
  else if t.exchangeRate = none then .internal
  else .exchange

/-- The balance movement of a row; an adjustment shows it in its balances only. -/
def movement (t : Transaction) : ℤ :=
  match t.type with
  | .deposit | .transferIn => t.amount.val
  | .withdrawal | .transferOut => -t.amount.val
  | .adjustment => (t.balanceAfter.map Int4.val).getD 0 - (t.balanceBefore.map Int4.val).getD 0

/-- The money in the wallets of a currency. -/
def held (currency : String) (wallets : Wallets) : ℤ :=
  wallets.total fun w => if w.currency = currency then w.balance.val else 0

def currencyOf (wallets : Wallets) (id : Uuid) : Option String :=
  (wallets.find id).map Wallet.currency

/-- What one row moves in a currency by one kind of flow. -/
def share (flow : Flow) (currency : String) (wallets : Wallets) (t : Transaction) : ℤ :=
  if t.status = .approved ∧ flowOf t = flow ∧ currencyOf wallets t.walletId = some currency
  then movement t else 0

/-- What approved rows of one kind moved in a currency. -/
def moved (flow : Flow) (currency : String) (wallets : Wallets) (transactions : Transactions) : ℤ :=
  transactions.total (share flow currency wallets)

/-! ## Wallets -/

section Wallets
variable {wallets wallets' : Wallets} {w : Wallet} {currency : String}

theorem currencyOf_of_find (h : wallets.find w.id = some w) :
    currencyOf wallets w.id = some w.currency := by
  rw [currencyOf, h, Option.map_some]

/-- A balance is all an UPDATE of a wallet changes. -/
theorem currencyOf_modify (id : Uuid) (balance : Int4) (id' : Uuid) :
    currencyOf (wallets.modify id (fun v => { v with balance := balance }) fun _ => rfl) id' =
      currencyOf wallets id' := by
  rw [currencyOf, currencyOf, Table.find_modify]
  split_ifs with h
  · rw [h, Option.map_map]
    rfl
  · rfl

theorem held_modify (h : wallets.find w.id = some w) (balance : Int4) :
    held currency (wallets.modify w.id (fun v => { v with balance := balance }) fun _ => rfl) =
      held currency wallets + if w.currency = currency then balance.val - w.balance.val else 0 := by
  rw [held, Table.total_modify h, ← held]
  split_ifs
  · rfl
  · rw [sub_zero]

/-- Same owner columns, so every row has the same share. -/
theorem share_modify (flow : Flow) (currency : String) (id : Uuid) (balance : Int4) :
    share flow currency (wallets.modify id (fun v => { v with balance := balance }) fun _ => rfl) =
      share flow currency wallets := by
  funext t
  simp only [share, currencyOf_modify]

theorem held_openWallet (h : wallets.insert w = some wallets') (hzero : w.balance = .zero) :
    held currency wallets' = held currency wallets := by
  rw [held, Table.total_insert h, hzero]
  simp [held, Int4.zero]

end Wallets

/-! ## Rows -/

section Rows
variable {flow : Flow} {currency : String} {wallets : Wallets} {t u : Transactions}
  {row : Transaction}

theorem moved_insert (h : t.insert row = some u) :
    moved flow currency wallets u =
      moved flow currency wallets t + share flow currency wallets row := by
  rw [moved, Table.total_insert h]
  rfl

theorem share_not_approved (h : row.status ≠ .approved) : share flow currency wallets row = 0 :=
  if_neg fun hs => h hs.1

/-- A review of a pending row counts the row it leaves. -/
theorem moved_settle {id : Uuid} {settlement : Settlement} {hid : ∀ r, Transaction.id
    (settlement.apply r) = r.id} (h : t.find id = some row) (hpending : row.status = .pending) :
    moved flow currency wallets (t.modify id (fun r => settlement.apply r) hid) =
      moved flow currency wallets t + share flow currency wallets (settlement.apply row) := by
  have hzero : share flow currency wallets row = 0 := share_not_approved (by simp [hpending])
  rw [moved, Table.total_modify h, hzero, sub_zero]
  rfl

/-- What the two balances of an approved row say. -/
theorem movement_of_posts {wallet : Wallet} {after : Int4} (h : Posts wallet row after) :
    movement row = after.val - wallet.balance.val := by
  have hsigned := h.signed
  unfold Signed at hsigned
  unfold movement
  cases htype : row.type with
  | adjustment =>
      rw [h.before, h.after]
      rfl
  | deposit =>
      rw [htype] at hsigned
      exact hsigned.symm
  | withdrawal =>
      rw [htype] at hsigned
      exact hsigned.symm
  | transferOut =>
      rw [htype] at hsigned
      exact hsigned.symm
  | transferIn =>
      rw [htype] at hsigned
      exact hsigned.symm

theorem share_of_posts {wallet : Wallet} {after : Int4} (h : Posts wallet row after)
    (hfind : wallets.find wallet.id = some wallet) :
    share flow currency wallets row =
      if flowOf row = flow ∧ wallet.currency = currency then after.val - wallet.balance.val
      else 0 := by
  simp only [share, h.walletId, currencyOf_of_find hfind, movement_of_posts h, h.status,
    Option.some.injEq, true_and]

/-- A new wallet has no rows yet. -/
theorem moved_openWallet {w : Wallet} {wallets' : Wallets} (h : wallets.insert w = some wallets')
    (hfk : ∀ r ∈ t.rows, wallets.find r.walletId ≠ none) :
    moved flow currency wallets' t = moved flow currency wallets t := by
  refine Table.total_congr fun r hr => ?_
  obtain ⟨v, hv⟩ := Option.ne_none_iff_exists'.mp (hfk r hr)
  simp only [share, currencyOf, hv, Table.find_insert_of_some h hv]

end Rows

/-! ## The invariant -/

structure Conserved (wallets : Wallets) (transactions : Transactions) : Prop where
  held : ∀ currency, held currency wallets =
    moved .external currency wallets transactions + moved .exchange currency wallets transactions
  internal : ∀ currency, moved .internal currency wallets transactions = 0

theorem conserved_empty : Conserved Table.empty Table.empty where
  held _ := by simp [Conservation.held, moved]
  internal _ := by simp [moved]

section Conserved
variable {wallets wallets' : Wallets} {t u : Transactions} {row : Transaction}

/-- The tables after a change that moved, in every currency, as much money as
its rows say. -/
theorem Conserved.move (h : Conserved wallets t) (delta : Flow → String → ℤ)
    (hmoved : ∀ flow currency,
      moved flow currency wallets' u = moved flow currency wallets t + delta flow currency)
    (hheld : ∀ currency, Conservation.held currency wallets' =
      Conservation.held currency wallets + delta .external currency + delta .exchange currency)
    (hinternal : ∀ currency, delta .internal currency = 0) : Conserved wallets' u where
  held currency := by
    rw [hheld, hmoved, hmoved, h.held]
    ring
  internal currency := by rw [hmoved, h.internal, hinternal, add_zero]

/-- Rows that are not approved move nothing. -/
theorem Conserved.keep (h : Conserved wallets t)
    (hmoved : ∀ flow currency, moved flow currency wallets u = moved flow currency wallets t) :
    Conserved wallets u :=
  h.move (fun _ _ => 0) (by simpa using hmoved) (by simp) fun _ => rfl

theorem Conserved.openWallet (h : Conserved wallets t) {w : Wallet}
    (hw : wallets.insert w = some wallets') (hzero : w.balance = .zero)
    (hfk : ∀ r ∈ t.rows, wallets.find r.walletId ≠ none) : Conserved wallets' t :=
  h.move (fun _ _ => 0)
    (fun _ _ => by rw [moved_openWallet hw hfk, add_zero])
    (fun _ => by rw [held_openWallet hw hzero, add_zero, add_zero]) fun _ => rfl

/-- One external row and the balance it writes. -/
theorem Conserved.post (h : Conserved wallets t) {wallet : Wallet} {after : Int4}
    (hfind : wallets.find wallet.id = some wallet) (hposts : Posts wallet row after)
    (hsingle : row.transferId = none)
    (hrows : ∀ flow currency, moved flow currency wallets u =
      moved flow currency wallets t + share flow currency wallets row) :
    Conserved (wallets.modify wallet.id (fun v => { v with balance := after }) fun _ => rfl) u := by
  have hflow : flowOf row = .external := if_pos hsingle
  refine h.move (fun flow currency => share flow currency wallets row) ?_ ?_ ?_
  · intro flow currency
    rw [moved, share_modify]
    exact hrows flow currency
  · intro currency
    rw [held_modify hfind, share_of_posts hposts hfind, share_of_posts hposts hfind, hflow]
    simp
  · intro currency
    rw [share_of_posts hposts hfind, hflow]
    simp

/-- The two rows of a transfer, and the two balances. -/
theorem Conserved.transfer (h : Conserved wallets t) {source dest : Wallet} {out inn : Transaction}
    {fromAfter toAfter : Int4} {mid : Transactions} (hne : dest.id ≠ source.id)
    (hsource : wallets.find source.id = some source) (hdest : wallets.find dest.id = some dest)
    (hout : Posts source out fromAfter) (hin : Posts dest inn toAfter)
    (hflow : flowOf inn = flowOf out) (htransfer : flowOf out ≠ .external)
    (hcancel : flowOf out = .internal → source.currency = dest.currency ∧
      fromAfter.val - source.balance.val + (toAfter.val - dest.balance.val) = 0)
    (hinsert : t.insert out = some mid) (hinsert' : mid.insert inn = some u) :
    Conserved ((wallets.modify source.id (fun v => { v with balance := fromAfter }) fun _ =>
      rfl).modify dest.id (fun v => { v with balance := toAfter }) fun _ => rfl) u := by
  have hdest' : (wallets.modify source.id (fun v => { v with balance := fromAfter }) fun _ =>
      rfl).find dest.id = some dest := by
    rw [Table.find_modify_ne hne, hdest]
  refine h.move (fun flow currency => share flow currency wallets out +
    share flow currency wallets inn) ?_ ?_ ?_
  · intro flow currency
    rw [moved, share_modify, share_modify, ← moved, moved_insert hinsert', moved_insert hinsert,
      add_assoc]
  · intro currency
    rw [held_modify hdest', held_modify hsource]
    simp only [share_of_posts hout hsource, share_of_posts hin hdest, hflow]
    cases hf : flowOf out with
    | external => exact absurd hf htransfer
    | exchange => simp [add_assoc]
    | internal =>
        obtain ⟨hcurrency, hzero⟩ := hcancel hf
        rw [hcurrency]
        by_cases hc : dest.currency = currency
        · simp [hc, add_assoc, hzero]
        · simp [hc]
  · intro currency
    simp only [share_of_posts hout hsource, share_of_posts hin hdest, hflow]
    by_cases hf : flowOf out = .internal
    · obtain ⟨hcurrency, hzero⟩ := hcancel hf
      rw [hcurrency]
      by_cases hc : dest.currency = currency
      · simpa [hf, hc] using hzero
      · simp [hc]
    · simp [hf]

end Conserved

/-! ## Changes of the ledger -/

section Change
variable {d d' : Db}

theorem conserved_change {P : ℤ → Decimal → Prop}
    (h : PendingOk d ∧ Conserved d.wallets d.transactions) (hc : Change P d d') :
    PendingOk d' ∧ Conserved d'.wallets d'.transactions := by
  refine ⟨h.1.change hc, ?_⟩
  obtain ⟨hp, hconserved⟩ := h
  cases hc with
  | single hs =>
      cases hs with
      | keep hw ht => rwa [hw, ht]
      | openWallet w hzero hw =>
          obtain ⟨hwallets, ht, -⟩ := Db.createWallet_cases hw
          rw [ht]
          exact hconserved.openWallet hwallets hzero d.wallet_fk
      | request id actor dto draw amount _ hrow =>
          obtain ⟨ht, hw, -⟩ := Db.createTransaction_cases hrow
          rw [hw]
          refine hconserved.keep fun flow currency => ?_
          rw [moved_insert ht, share_not_approved (by simp [withdrawalRow]), add_zero]
  | block body draw he hok =>
      cases he with
      | post wallet row after hfind hposts _ _ hsingle hw ht =>
          rw [hw]
          exact hconserved.post hfind hposts hsingle fun _ _ => moved_insert ht
      | @approve txnId actor _ wallet row after hrow hpending hfind hafter hw ht =>
          obtain ⟨htype, hsingle, -⟩ := hp row (Table.mem_of_find hrow) hpending
          obtain ⟨hsigned, -⟩ := LedgerChain.signed_of_approvedBalance htype hafter
          have hid := Table.find_key hfind
          have hposts : Posts wallet
              ((Settlement.approve actor.id draw.now wallet.balance after).apply row) after :=
            ⟨hid.symm, rfl, rfl, rfl, hsigned⟩
          rw [hw, ht, Db.settle_transactions]
          exact hconserved.post (hid ▸ hfind) hposts hsingle fun _ _ => moved_settle hrow hpending
      | reject row note' hrow hpending hw ht =>
          rw [hw, ht, Db.settle_transactions]
          refine hconserved.keep fun flow currency => ?_
          rw [moved_settle hrow hpending, share_not_approved (by simp [Settlement.apply]), add_zero]
      | @transfer a _ source dest rate amount credited fromAfter toAfter hsource hdest hamount
          hcredit _ hfrom hto hrate hw mid hout hin =>
          obtain ⟨sender, receiver, hsettled⟩ := hok
          have hs := Table.find_key hsource
          have hd := Table.find_key hdest
          have hne : dest.id ≠ source.id := by
            rw [hs, hd]
            exact hsettled.distinct.symm
          have hposts₁ : Posts source (outRow a draw rate source dest amount fromAfter) fromAfter :=
            ⟨rfl, rfl, rfl, rfl, show fromAfter.val - source.balance.val = -amount.val by omega⟩
          have hposts₂ : Posts dest (inRow a draw rate source dest credited toAfter) toAfter :=
            ⟨rfl, rfl, rfl, rfl, show toAfter.val - dest.balance.val = credited.val by omega⟩
          rw [hw]
          refine hconserved.transfer hne (hs ▸ hsource) (hd ▸ hdest) hposts₁ hposts₂ rfl ?_ ?_
            hout hin
          · unfold flowOf
            split_ifs <;> simp_all [outRow, transferRow]
          · intro hinternal
            have hnone : rate = none := by
              by_contra hrate'
              simp [flowOf, outRow, transferRow, hrate'] at hinternal
            have hsender := hsettled.source
            have hreceiver := hsettled.dest
            rw [owner_of_find hsource, Option.some.injEq] at hsender
            rw [owner_of_find hdest, Option.some.injEq] at hreceiver
            rcases hsettled.credit with ⟨hcurrency, -, hc⟩ | ⟨-, rate', hrate', -⟩
            · rw [← hsender, ← hreceiver] at hcurrency
              rw [hcredit, Option.some.injEq] at hc
              exact ⟨hcurrency, by omega⟩
            · rw [hnone, hrate'] at hrate
              simp at hrate

end Change

theorem ratesSatisfy_true (tr : Trace) : RatesSatisfy (fun _ _ => True) tr := by
  intro e _ c i _
  unfold RateOk
  split <;> trivial

/-- In every currency the wallets hold what external rows and exchanges put there;
transfers between wallets of one currency move nothing on the whole. -/
theorem money_conserved {users : Uuid → Option Account} {s : Machine} {tr : Trace}
    (h : Run next (start ⟨.empty, users, [], []⟩) tr s) (currency : String) :
    held currency s.data.db.wallets =
        moved .external currency s.data.db.wallets s.data.db.transactions +
          moved .exchange currency s.data.db.wallets s.data.db.transactions ∧
      moved .internal currency s.data.db.wallets s.data.db.transactions = 0 := by
  have hinv : PendingOk s.data.db ∧ Conserved s.data.db.wallets s.data.db.transactions :=
    run_invariant (P := fun _ _ => True) (G := fun d => PendingOk d ∧
      Conserved d.wallets d.transactions) (fun _ _ => conserved_change)
      ⟨pendingOk_empty, conserved_empty⟩ h (ratesSatisfy_true tr)
  exact ⟨hinv.2.held currency, hinv.2.internal currency⟩

theorem money_conserved_across :
    ∃ tr s, Run next (start ⟨.empty, fun _ => none, [], []⟩) tr s ∧
      held "EUR" s.data.db.wallets = 500 ∧
      held "EUR" s.data.db.wallets =
          moved .external "EUR" s.data.db.wallets s.data.db.transactions +
            moved .exchange "EUR" s.data.db.wallets s.data.db.transactions ∧
        moved .internal "EUR" s.data.db.wallets s.data.db.transactions = 0 := by
  obtain ⟨tr, s, hrun, -, hs⟩ := Run.of_trace_map next
    (acrossCurrencies ⟨11, 1000, none, by decide⟩ (.finite ⟨5, -1⟩))
    (start ⟨.empty, fun _ => none, [], []⟩)
    (fun _ s => held "EUR" s.data.db.wallets) 500 (by decide)
  exact ⟨tr, s, hrun, hs, money_conserved hrun "EUR"⟩

end MaxOne.Conservation
