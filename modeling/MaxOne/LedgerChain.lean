import MaxOne.Library.PostingBook
import MaxOne.MoneyRuns

/-!
# The balance chain

Every wallet's approved rows, in the order of their commits, form one unbroken
chain from zero to the wallet's balance. The abstract model is a book: one list
of postings for each wallet, chained by its type. `Tracks` relates a book to
the two tables, every change of the ledger is at most two postings, and so the
tables of a run refine the book built along it.
-/
namespace MaxOne.LedgerChain
open Library Library.Runs Library.PostingBook Library.LockedBlocks Library.Interleaving
  MaxOne.Rates MaxOne.Schema MaxOne.WalletsService MaxOne.WalletsMachine MaxOne.Ledger
  MaxOne.MoneyRuns

abbrev LedgerBook :=
  Book Uuid Transaction.balanceBefore Transaction.balanceAfter (some Int4.zero)

def approvedOf (w : Uuid) (t : Transaction) : Bool := t.walletId = w ∧ t.status = .approved

/-- Rows of `w` that are approved after a step and were not before it. -/
def approvedNow (w : Uuid) (d d' : Db) : List Transaction :=
  Table.gained (approvedOf w) d.transactions d'.transactions

/-- The approved rows of a wallet in commit order. -/
def commitOrder (w : Uuid) (tr : Trace) : List Transaction :=
  tr.flatMap fun e => approvedNow w e.pre.data.db e.post.data.db

structure Tracks (book : LedgerBook) (wallets : Table Wallet Wallet.id)
    (transactions : Table Transaction Transaction.id) : Prop where
  balance : ∀ {w : Wallet}, wallets.find w.id = some w → book.balance w.id = some w.balance
  unopened : ∀ {id : Uuid}, wallets.find id = none → book.balance id = some .zero
  rows : ∀ {id : Uuid} {t : Transaction}, t ∈ book.postings id ↔
    t ∈ transactions.rows ∧ t.walletId = id ∧ t.status = .approved
  nodup : ∀ id, (book.postings id).Nodup
  signed : ∀ {id : Uuid} {t : Transaction}, t ∈ book.postings id → ∃ before after,
    t.balanceBefore = some before ∧ t.balanceAfter = some after ∧
      Signed t (after.val - before.val)

/-- The second table has one more approved row. -/
structure Adds (t u : Table Transaction Transaction.id) (row : Transaction) : Prop where
  fresh : row ∉ t.rows
  rows : ∀ {r : Transaction}, r.status = .approved → (r ∈ u.rows ↔ r ∈ t.rows ∨ r = row)
  gained : ∀ w, Table.gained (approvedOf w) t u = if row.walletId = w then [row] else []

section Adds
variable {t u : Table Transaction Transaction.id} {row : Transaction}

theorem Adds.insert (h : t.insert row = some u) (hrow : row.status = .approved) :
    Adds t u row where
  fresh hmem := Table.find_eq_none.mp (Table.insert_fresh h) row hmem rfl
  rows _ := Table.mem_insert h
  gained w := by
    rw [Table.gained_insert h]
    simp [approvedOf, hrow]

theorem Adds.approve {id reviewer : Uuid} {at' : Time} {before after : Int4}
    {hid : ∀ r, Transaction.id ((Settlement.approve reviewer at' before after).apply r) = r.id}
    (hfind : t.find id = some row) (hpending : row.status = .pending) :
    Adds t (t.modify id (fun r => (Settlement.approve reviewer at' before after).apply r) hid)
      ((Settlement.approve reviewer at' before after).apply row) where
  fresh hmem := by
    have hsame := Table.eq_of_key hmem (Table.mem_of_find hfind) rfl
    rw [← hsame] at hpending
    cases hpending
  rows {r} hr := by
    rw [Table.mem_modify]
    constructor
    · rintro (⟨hold, -⟩ | ⟨v, hv, rfl⟩)
      · exact .inl hold
      · rw [hfind, Option.some.injEq] at hv
        exact .inr (hv ▸ rfl)
    · rintro (hold | rfl)
      · refine .inl ⟨hold, fun hk => ?_⟩
        have hsame := Table.find_of_mem hold
        rw [hk, hfind, Option.some.injEq] at hsame
        rw [hsame, hr] at hpending
        cases hpending
      · exact .inr ⟨row, hfind, rfl⟩
  gained w := by
    by_cases hw : row.walletId = w
    · rw [Table.gained_modify hfind (by simp [approvedOf, hpending])
        (by simpa [approvedOf, Settlement.apply] using hw), if_pos (by exact hw)]
    · rw [if_neg (by exact hw)]
      refine Table.gained_eq_nil fun r hr hp => ?_
      rcases Table.mem_modify.mp hr with ⟨hold, -⟩ | ⟨v, hv, rfl⟩
      · exact hold
      · rw [hfind, Option.some.injEq] at hv
        subst hv
        simp [approvedOf, Settlement.apply, hw] at hp

end Adds

section Tracks
variable {book : LedgerBook} {wallets wallets' : Table Wallet Wallet.id}
  {t u : Table Transaction Transaction.id}

theorem tracks_empty : Tracks Book.empty Table.empty Table.empty where
  balance h := by simp at h
  unopened _ := rfl
  rows := by simp [Book.empty]
  nodup _ := List.nodup_nil
  signed h := by simp [Book.empty] at h

/-- Rows that are not approved are invisible to the book. -/
theorem Tracks.keep (h : Tracks book wallets t)
    (hrows : ∀ {r : Transaction}, r.status = .approved → (r ∈ u.rows ↔ r ∈ t.rows)) :
    Tracks book wallets u ∧ ∀ w, Table.gained (approvedOf w) t u = [] := by
  refine ⟨{ h with rows := fun {id r} => ?_ }, fun w => ?_⟩
  · rw [h.rows]
    constructor
    · rintro ⟨hr, hw, ha⟩
      exact ⟨(hrows ha).mpr hr, hw, ha⟩
    · rintro ⟨hr, hw, ha⟩
      exact ⟨(hrows ha).mp hr, hw, ha⟩
  · refine Table.gained_eq_nil fun r hr hp => ?_
    rw [approvedOf, decide_eq_true_eq] at hp
    exact (hrows hp.2).mp hr

theorem Tracks.openWallet {w : Wallet} (h : Tracks book wallets t) (hzero : w.balance = .zero)
    (hw : wallets.insert w = some wallets') : Tracks book wallets' t where
  balance {v} hv := by
    rw [Table.find_insert hw] at hv
    split_ifs at hv with hid
    · rw [Option.some.injEq] at hv
      rw [← hv, hzero, h.unopened (Table.insert_fresh hw)]
    · exact h.balance hv
  unopened {id} hid := by
    rw [Table.find_insert hw] at hid
    split_ifs at hid
    exact h.unopened hid
  rows := h.rows
  nodup := h.nodup
  signed := h.signed

/-- One posting: the row is appended to its wallet's list. -/
theorem Tracks.post {wallet : Wallet} {row : Transaction} {after : Int4}
    (h : Tracks book wallets t) (hfind : wallets.find wallet.id = some wallet)
    (hposts : Posts wallet row after) (hadds : Adds t u row) :
    ∃ book' : LedgerBook,
      Tracks book' (wallets.modify wallet.id (fun v => { v with balance := after })
        fun _ => rfl) u ∧
      ∀ w, book'.postings w = book.postings w ++ Table.gained (approvedOf w) t u := by
  have hstart : row.balanceBefore = book.balance wallet.id := by
    rw [h.balance hfind, hposts.before]
  have hpostings : ∀ w, (book.post wallet.id row hstart).postings w =
      book.postings w ++ Table.gained (approvedOf w) t u := by
    intro w
    rw [Book.post_postings, hadds.gained, hposts.walletId]
    simp only [eq_comm]
  refine ⟨book.post wallet.id row hstart, ⟨?_, ?_, ?_, ?_, ?_⟩, hpostings⟩
  · intro v hv
    rw [Book.post_balance]
    rw [Table.find_modify] at hv
    split_ifs at hv with hid
    · rw [if_pos hid, hposts.after]
      rw [hfind, Option.map_some, Option.some.injEq] at hv
      rw [← hv]
    · rw [if_neg hid]
      exact h.balance hv
  · intro id hid
    rw [Book.post_balance]
    rw [Table.find_modify] at hid
    split_ifs at hid with hk
    · rw [hfind] at hid
      cases hid
    · rw [if_neg hk]
      exact h.unopened hid
  · intro id r
    rw [hpostings, hadds.gained, List.mem_append, h.rows]
    constructor
    · rintro (⟨hr, hw, ha⟩ | hr)
      · exact ⟨(hadds.rows ha).mpr (.inl hr), hw, ha⟩
      · split_ifs at hr with hw
        · rw [List.mem_singleton] at hr
          subst hr
          exact ⟨(hadds.rows hposts.status).mpr (.inr rfl), hw, hposts.status⟩
        · simp at hr
    · rintro ⟨hr, hw, ha⟩
      rcases (hadds.rows ha).mp hr with hold | rfl
      · exact .inl ⟨hold, hw, ha⟩
      · exact .inr (by simp [hw])
  · intro id
    rw [hpostings, hadds.gained]
    split_ifs
    · refine List.nodup_append'.mpr ⟨h.nodup id, List.nodup_singleton _, ?_⟩
      rw [List.disjoint_singleton]
      exact fun hmem => hadds.fresh (h.rows.mp hmem).1
    · simpa using h.nodup id
  · intro id r hr
    rw [hpostings, hadds.gained, List.mem_append] at hr
    rcases hr with hr | hr
    · exact h.signed hr
    · split_ifs at hr
      · rw [List.mem_singleton] at hr
        subst hr
        exact ⟨_, _, hposts.before, hposts.after, hposts.signed⟩
      · simp at hr

end Tracks

section Change
variable {P : ℤ → Decimal → Prop} {book : LedgerBook} {d d' : Db}

/-- What an approval adds to a withdrawal or a deposit is its signed amount. -/
theorem signed_of_approvedBalance {row : Transaction} {before after : ℤ}
    (htype : row.type = .withdrawal) (h : approvedBalance row before = .ok after) :
    Signed row (after - before) ∧ 0 ≤ after := by
  rw [approvedBalance, if_pos htype] at h
  split_ifs at h with hlt
  rw [Except.ok.injEq] at h
  rw [Signed, htype]
  dsimp only
  omega

/-- The two halves of a transfer are postings of two different wallets. -/
theorem Tracks.transfer {a : TransferArgs} {draw : Draw} {source dest : Wallet}
    {rate : Option Library.DecimalRounding.Dec} {amount credited fromAfter toAfter : Int4}
    {mid u : Table Transaction Transaction.id} (h : Tracks book d.wallets d.transactions)
    (hne : dest.id ≠ source.id) (hsource : d.wallets.find source.id = some source)
    (hdest : d.wallets.find dest.id = some dest)
    (hfrom : fromAfter.val = source.balance.val - amount.val)
    (hto : toAfter.val = dest.balance.val + credited.val)
    (hout : d.transactions.insert (outRow a draw rate source dest amount fromAfter) = some mid)
    (hin : mid.insert (inRow a draw rate source dest credited toAfter) = some u) :
    ∃ book' : LedgerBook,
      Tracks book' ((d.updateWallet source.id fromAfter).updateWallet dest.id toAfter).wallets u ∧
      ∀ w, book'.postings w = book.postings w ++ Table.gained (approvedOf w) d.transactions u := by
  have hposts₁ : Posts source (outRow a draw rate source dest amount fromAfter) fromAfter := by
    refine ⟨rfl, rfl, rfl, rfl, ?_⟩
    change fromAfter.val - source.balance.val = -amount.val
    omega
  have hposts₂ : Posts dest (inRow a draw rate source dest credited toAfter) toAfter := by
    refine ⟨rfl, rfl, rfl, rfl, ?_⟩
    change toAfter.val - dest.balance.val = credited.val
    omega
  obtain ⟨book₁, htracks₁, hbook₁⟩ := h.post hsource hposts₁ (.insert hout rfl)
  have hdest₁ : (d.updateWallet source.id fromAfter).wallets.find dest.id = some dest := by
    rw [Db.updateWallet_wallets, Table.find_modify_ne hne, hdest]
  obtain ⟨book₂, htracks₂, hbook₂⟩ := htracks₁.post hdest₁ hposts₂ (.insert hin rfl)
  refine ⟨book₂, htracks₂, fun w => ?_⟩
  rw [hbook₂, hbook₁, Table.gained_insert_insert hout hin, List.append_assoc]

/-- Every change of the ledger is at most two postings. -/
theorem Tracks.change (h : Tracks book d.wallets d.transactions) (hp : PendingOk d)
    (hc : Change P d d') :
    ∃ book' : LedgerBook, Tracks book' d'.wallets d'.transactions ∧
      ∀ w, book'.postings w = book.postings w ++ approvedNow w d d' := by
  have hkeep : d'.wallets = d.wallets →
      (∀ {r : Transaction}, r.status = .approved →
        (r ∈ d'.transactions.rows ↔ r ∈ d.transactions.rows)) →
      ∃ book' : LedgerBook, Tracks book' d'.wallets d'.transactions ∧
        ∀ w, book'.postings w = book.postings w ++ approvedNow w d d' := by
    intro hw hrows
    obtain ⟨htracks, hnil⟩ := h.keep hrows
    rw [hw]
    exact ⟨book, htracks, fun w => by rw [approvedNow, hnil, List.append_nil]⟩
  cases hc with
  | single hs =>
      cases hs with
      | keep hw ht => exact hkeep hw (by simp [ht])
      | openWallet w hzero hw =>
          obtain ⟨hwallets, ht, -⟩ := Db.createWallet_cases hw
          refine ⟨book, ht ▸ h.openWallet hzero hwallets, fun w => ?_⟩
          rw [approvedNow, ht, Table.gained_self, List.append_nil]
      | request id actor dto draw amount hamount hrow =>
          obtain ⟨ht, hw, -⟩ := Db.createTransaction_cases hrow
          refine hkeep hw fun {r} hr => ?_
          rw [Table.mem_insert ht, or_iff_left]
          rintro rfl
          cases hr
  | block body draw he hok =>
      cases he with
      | post wallet row after hfind hposts _ _ _ hw ht =>
          rw [hw]
          exact h.post hfind hposts (.insert ht hposts.status)
      | @approve txnId actor _ wallet row after hrow hpending hfind hafter hw ht =>
          obtain ⟨htype, -, -⟩ := hp row (Table.mem_of_find hrow) hpending
          obtain ⟨hsigned, -⟩ := signed_of_approvedBalance htype hafter
          have hid := Table.find_key hfind
          have hposts : Posts wallet
              ((Settlement.approve actor.id draw.now wallet.balance after).apply row) after :=
            ⟨hid.symm, rfl, rfl, rfl, hsigned⟩
          unfold approvedNow
          rw [hw, ht, Db.settle_transactions]
          exact h.post (hid ▸ hfind) hposts (.approve hrow hpending)
      | reject row note' hrow hpending hw ht =>
          refine hkeep hw fun {r} hr => ?_
          rw [ht, Db.mem_settle]
          constructor
          · rintro (⟨hold, -⟩ | ⟨v, -, rfl⟩)
            · exact hold
            · cases hr
          · refine fun hold => .inl ⟨hold, fun hk => ?_⟩
            have hsame := Table.find_of_mem hold
            rw [hk, hrow, Option.some.injEq] at hsame
            rw [hsame, hr] at hpending
            cases hpending
      | transfer source dest rate amount credited fromAfter toAfter hsource hdest _ _ _ hfrom hto _
          hw mid hout hin =>
          obtain ⟨_, _, hsettled⟩ := hok
          have hs := Table.find_key hsource
          have hd := Table.find_key hdest
          have hne : dest.id ≠ source.id := by
            rw [hs, hd]
            exact hsettled.distinct.symm
          rw [hw]
          exact h.transfer hne (hs ▸ hsource) (hd ▸ hdest) hfrom hto hout hin

end Change

/-! ## Runs -/

/-- The tables of a run refine the book of its commits. -/
theorem run_tracks {users : Uuid → Option Account} {s : Machine} {tr : Trace}
    (h : Run next (start ⟨.empty, users, [], []⟩) tr s) :
    ∃ book : LedgerBook, Tracks book s.data.db.wallets s.data.db.transactions ∧
      ∀ w, book.postings w = commitOrder w tr := by
  obtain ⟨us, hus, hobs, -⟩ := run_refines (Q := program) (State.idle_ok _ _) h
  have hatomic : ∀ {us} {t : Pool Shared Pc},
      Run (Interleaving.next moneyStep) (start ⟨.empty, users, [], []⟩).abs us t →
      Owned (fun s => PendingOk s.db) (fun p s => PcOk (fun _ _ => True) p s.db) t ∧
      ∃ book : LedgerBook, Tracks book t.data.db.wallets t.data.db.transactions ∧
        ∀ w, book.postings w = us.flatMap fun e => approvedNow w e.pre.data.db e.post.data.db := by
    intro us t hrun
    induction hrun with
    | start => exact ⟨start_owned _ pendingOk_empty, Book.empty, tracks_empty, fun _ => rfl⟩
    | @step us s t l hrun hn ih =>
        obtain ⟨howned, book, htracks, hbook⟩ := ih
        obtain ⟨q, s', hstep, rfl⟩ := next_cases hn
        have hchange := moneyStep_change (howned.client l.1) hstep
        obtain ⟨book', htracks', hbook'⟩ := htracks.change howned.data hchange
        refine ⟨?_, book', htracks', fun w => ?_⟩
        · refine howned.next (C := fun _ _ _ => True) ?_ ?_ trivial hn
          · intro i p d p' d' _ hd hp hs
            refine owned_of_change (P := fun _ _ => True)
              (fun _ _ hd hc => hd.change hc) i p d p' d' (fun j _ => ?_) hd hp hs
            unfold RateOk
            split <;> trivial
          · exact fun _ _ _ _ _ _ _ _ _ hq hs => hq.mono (moneyStep_owner hs)
        · rw [hbook', hbook, List.flatMap_append]
          simp
  obtain ⟨-, book, htracks, hbook⟩ := hatomic hus
  refine ⟨book, htracks, fun w => ?_⟩
  rw [hbook, commitOrder]
  exact (hobs (fun d d' => approvedNow w d.db d'.db) fun _ => Table.gained_self).symm

def Solvent (d : Db) : Prop := ∀ id w, d.wallets.find id = some w → 0 ≤ w.balance.val

theorem Solvent.updateWallet {d : Db} {id : Uuid} {balance : Int4} (h : Solvent d)
    (hb : 0 ≤ balance.val) : Solvent (d.updateWallet id balance) := by
  intro id' w hw
  rw [Db.updateWallet_wallets, Table.find_modify] at hw
  split_ifs at hw
  · obtain ⟨v, -, rfl⟩ := Option.map_eq_some_iff.mp hw
    exact hb
  · exact h _ _ hw

/-- With rates that are not negative no wallet is overdrawn. -/
theorem solvent_change {d d' : Db} (h : PendingOk d ∧ Solvent d)
    (hc : Change (fun _ rate => rate.Nonneg) d d') : PendingOk d' ∧ Solvent d' := by
  refine ⟨h.1.change hc, ?_⟩
  obtain ⟨hp, hs⟩ := h
  have heq : ∀ {e : Db}, d'.wallets = e.wallets → Solvent e → Solvent d' := by
    intro e hw he id w hf
    exact he id w (hw ▸ hf)
  cases hc with
  | single h =>
      cases h with
      | keep hw _ => exact heq hw hs
      | openWallet w hzero hw =>
          obtain ⟨hwallets, -⟩ := Db.createWallet_cases hw
          intro id v hf
          rw [Table.find_insert hwallets] at hf
          split_ifs at hf
          · rw [Option.some.injEq] at hf
            rw [← hf, hzero]
            exact le_refl _
          · exact hs _ _ hf
      | request id actor dto draw amount _ hrow =>
          obtain ⟨-, hw, -⟩ := Db.createTransaction_cases hrow
          exact heq hw hs
  | block body draw he hok =>
      cases he with
      | post wallet row after hfind _ _ hnonneg _ hw _ =>
          exact heq hw (hs.updateWallet (hnonneg (hs _ _ hfind)))
      | approve wallet row after hrow hpending _ hafter hw _ =>
          obtain ⟨htype, -, -⟩ := hp row (Table.mem_of_find hrow) hpending
          exact heq hw (hs.updateWallet (signed_of_approvedBalance htype hafter).2)
      | reject row note' _ _ hw _ => exact heq hw hs
      | @transfer a _ source dest rate amount credited fromAfter toAfter hsource hdest hamount
          hcredit hfunds hfrom hto _ hw mid hout hin =>
          obtain ⟨_, _, hsettled⟩ := hok
          have hone := a.dto.min_one
          have hcredited : 0 ≤ credited.val := by
            rcases hsettled.credit with ⟨-, -, hc⟩ | ⟨-, rate, -, hc, hrate⟩
            · rw [hcredit, Option.some.injEq] at hc
              omega
            · rw [hcredit] at hc
              exact convertMinor_nonneg (by omega) hrate hc.symm
          have hdest' := hs _ _ hdest
          exact heq hw ((hs.updateWallet (by omega)).updateWallet (by omega))

/-- The balance chain of every wallet, and no overdraft. -/
theorem ledger_chain {users : Uuid → Option Account} {s : Machine} {tr : Trace}
    (h : Run next (start ⟨.empty, users, [], []⟩) tr s) (w : Uuid) :
    (∀ t, t ∈ commitOrder w tr ↔
      t ∈ s.data.db.transactions.rows ∧ t.walletId = w ∧ t.status = .approved) ∧
    (commitOrder w tr).Nodup ∧
    (∀ t, (commitOrder w tr).head? = some t → t.balanceBefore = some .zero) ∧
    (∀ earlier x y later, commitOrder w tr = earlier ++ x :: y :: later →
      y.balanceBefore = x.balanceAfter) ∧
    (∀ t ∈ commitOrder w tr, ∃ before after, t.balanceBefore = some before ∧
      t.balanceAfter = some after ∧ Signed t (after.val - before.val)) ∧
    ∀ wallet, s.data.db.wallets.find w = some wallet →
      some wallet.balance =
        ((commitOrder w tr).getLast?.map Transaction.balanceAfter).getD (some .zero) ∧
      (RatesSatisfy (fun _ rate => rate.Nonneg) tr → 0 ≤ wallet.balance.val) := by
  obtain ⟨book, htracks, hbook⟩ := run_tracks h
  have hchain := book.chained w
  rw [hbook] at hchain
  refine ⟨fun t => ?_, ?_, fun t ht => hchain.head ht, ?_, fun t ht => ?_, ?_⟩
  · rw [← hbook, htracks.rows]
  · exact hbook w ▸ htracks.nodup w
  · intro earlier x y later hsplit
    rw [hsplit] at hchain
    exact hchain.adjacent
  · exact htracks.signed (hbook w ▸ ht)
  · intro wallet hfind
    obtain rfl := Table.find_key hfind
    refine ⟨(htracks.balance hfind).symm.trans hchain.last, fun hrates => ?_⟩
    have hempty : PendingOk Db.empty ∧ Solvent Db.empty :=
      ⟨pendingOk_empty, fun _ _ hf => by simp [Db.empty] at hf⟩
    exact (run_invariant (fun _ _ => solvent_change) hempty h hrates).2 _ _ hfind

/-- Ten dollars are deposited and three of them sent to a euro wallet at the rate 5. -/
theorem ledger_chain_across :
    ∃ tr s wallet deposit transfer, Run next (start ⟨.empty, fun _ => none, [], []⟩) tr s ∧
      s.data.db.wallets.find 10 = some wallet ∧ wallet.balance.val = 700 ∧
      commitOrder 10 tr = [deposit, transfer] ∧ deposit.balanceBefore = some .zero ∧
      transfer.balanceBefore = deposit.balanceAfter ∧
      transfer.balanceAfter = some wallet.balance ∧ 0 ≤ wallet.balance.val := by
  obtain ⟨tr, s, hrun, hls, hs⟩ := Run.of_trace_map next
    (acrossCurrencies ⟨11, 300, none, by decide⟩ (.finite ⟨5, 0⟩))
    (start ⟨.empty, fun _ => none, [], []⟩)
    (fun tr s => ((s.data.db.wallets.find 10).map fun w => w.balance.val,
      (commitOrder 10 tr).length)) (some 700, 2) (by decide)
  obtain ⟨hfind, hlength⟩ := Prod.mk.inj hs
  obtain ⟨wallet, hfind, hbalance⟩ := Option.map_eq_some_iff.mp hfind
  obtain ⟨deposit, transfer, hrows⟩ := List.length_eq_two.mp hlength
  obtain ⟨-, -, hhead, hchain, -, hlast⟩ := ledger_chain hrun 10
  obtain ⟨hend, hsolvent⟩ := hlast wallet hfind
  have hrates : RatesSatisfy (fun _ rate => rate.Nonneg) tr := by
    refine ratesSatisfy_of_labels ?_
    rw [hls]
    have hrate : (acrossCurrencies ⟨11, 300, none, by decide⟩ (.finite ⟨5, 0⟩)).filterMap rateOf =
        [.finite ⟨5, 0⟩] := rfl
    simp [hrate, Decimal.Nonneg]
  rw [hrows] at hhead hchain hend
  exact ⟨tr, s, wallet, deposit, transfer, hrun, hfind, hbalance, hrows, hhead deposit rfl,
    hchain [] deposit transfer [] rfl, hend.symm, hsolvent hrates⟩

end MaxOne.LedgerChain
