import MaxOne.MoneyRuns

/-!
# Settlements

Reviewers approve and reject pending rows of an arbitrary database. `RowStep`
says what one step does to one ledger row: nothing, or the settlement of a
pending row by the block of a review of that row. Everything about runs follows
from it. The permission is checked before the block opens, in a statement of
its own, with the row's type as read before that; a type never changes, so the
permission is the right one for the row that is settled later.
-/
namespace MaxOne.Settlements
open Library Library.Runs Library.Interleaving Library.LockedBlocks MaxOne.Schema
  MaxOne.WalletsService MaxOne.WalletsMachine MaxOne.Ledger MaxOne.MoneyRuns

/-- What an approval adds to the wallet. -/
def signedAmount (row : Transaction) : ℤ :=
  if row.type = .withdrawal then -row.amount.val else row.amount.val

theorem approvedBalance_eq {row : Transaction} {before after : ℤ}
    (h : approvedBalance row before = .ok after) : after = before + signedAmount row := by
  unfold approvedBalance at h
  unfold signedAmount
  split_ifs at h ⊢
  · cases h
    rfl
  · cases h
    rfl

/-- The wallet of `row` moves by the signed amount, the new row records the two
balances, and no other wallet changes. -/
def Approves (d d' : Db) (row row' : Transaction) : Prop :=
  ∃ wallet after, d.wallets.find row.walletId = some wallet ∧
    after.val = wallet.balance.val + signedAmount row ∧ row'.status = .approved ∧
    row'.balanceBefore = some wallet.balance ∧ row'.balanceAfter = some after ∧
    ∀ id, d'.wallets.find id =
      if id = row.walletId then some { wallet with balance := after } else d.wallets.find id

/-- The row is declined and the wallets stay. -/
def Rejects (d d' : Db) (row row' : Transaction) : Prop :=
  row'.status = .rejected ∧ row'.balanceBefore = row.balanceBefore ∧
    row'.balanceAfter = row.balanceAfter ∧ d'.wallets = d.wallets

/-- A pending row is settled by a review of it. -/
structure Settles (d d' : Db) (r : Review) (row row' : Transaction) : Prop where
  pending : row.status = .pending
  found : d'.transactions.find r.txnId = some row'
  amount : row'.amount = row.amount
  type : row'.type = row.type
  walletId : row'.walletId = row.walletId
  reviewedBy : row'.reviewedBy = some r.actor.id
  outcome : Approves d d' row row' ∨ Rejects d d' row row'

theorem Settles.status {d d' : Db} {r : Review} {row row' : Transaction}
    (h : Settles d d' r row row') : row'.status ≠ .pending := by
  rcases h.outcome with ⟨_, _, _, _, hs, _⟩ | ⟨hs, _⟩ <;> simp [hs]

/-- What a step at `p` does to the row `k`. -/
inductive RowStep (d d' : Db) (p : Pc) (k : Uuid) (row : Transaction) : Prop where
  | same (h : d'.transactions.find k = some row)
  | settled (r : Review) (draw : Draw) (row' : Transaction) (hp : p = .transaction (.review r) draw)
      (hk : r.txnId = k) (h : Settles d d' r row row')

section Step
variable {d d' : Db} {k : Uuid} {row : Transaction}

theorem find_settle {id : Uuid} {settlement : Settlement}
    (ht : d'.transactions = (d.settle id settlement).transactions) (k : Uuid) :
    d'.transactions.find k =
      if k = id then (d.transactions.find id).map fun t => settlement.apply t
      else d.transactions.find k := by
  rw [ht, Db.settle_transactions, Table.find_modify]

theorem approves_of_effect {wallet : Wallet} {after : Int4} {reviewer : Uuid} {at' : Time}
    (hfind : d.wallets.find row.walletId = some wallet)
    (hafter : approvedBalance row wallet.balance.val = .ok after.val)
    (hw : d'.wallets = (d.updateWallet wallet.id after).wallets) :
    Approves d d' row ((Settlement.approve reviewer at' wallet.balance after).apply row) := by
  refine ⟨wallet, after, hfind, approvedBalance_eq hafter, rfl, rfl, rfl, fun id => ?_⟩
  have hid := Table.find_key hfind
  have hfind' : d.wallets.find wallet.id = some wallet := by rw [hid, hfind]
  rw [hw, Db.updateWallet_wallets, Table.find_modify, hfind', Option.map_some]
  simp only [hid]

theorem settles_of_approve {txnId : Uuid} {actor : AuthUser} {draw : Draw} {wallet : Wallet}
    {after : Int4} (hrow : d.transactions.find txnId = some row) (hpending : row.status = .pending)
    (hfind : d.wallets.find row.walletId = some wallet)
    (hafter : approvedBalance row wallet.balance.val = .ok after.val)
    (hw : d'.wallets = (d.updateWallet wallet.id after).wallets)
    (ht : d'.transactions =
      (d.settle txnId (.approve actor.id draw.now wallet.balance after)).transactions) :
    Settles d d' (.approve txnId actor) row
      ((Settlement.approve actor.id draw.now wallet.balance after).apply row) := by
  refine ⟨hpending, ?_, rfl, rfl, rfl, rfl, .inl (approves_of_effect hfind hafter hw)⟩
  exact (find_settle ht txnId).trans (by rw [if_pos rfl, hrow, Option.map_some])

theorem settles_of_reject {txnId : Uuid} {actor : AuthUser} {note note' : Option String}
    {draw : Draw} (hrow : d.transactions.find txnId = some row) (hpending : row.status = .pending)
    (hw : d'.wallets = d.wallets)
    (ht : d'.transactions = (d.settle txnId (.reject actor.id draw.now note')).transactions) :
    Settles d d' (.reject txnId actor note) row
      ((Settlement.reject actor.id draw.now note').apply row) := by
  refine ⟨hpending, ?_, rfl, rfl, rfl, rfl, .inr ⟨rfl, rfl, rfl, hw⟩⟩
  exact (find_settle ht txnId).trans (by rw [if_pos rfl, hrow, Option.map_some])

theorem effect_row {body : TxnBody} {draw : Draw} (h : Effect d d' body draw)
    (hrow : d.transactions.find k = some row) :
    RowStep d d' (.transaction body draw) k row := by
  cases h with
  | post wallet new after _ _ _ _ _ _ ht => exact .same (Table.find_insert_of_some ht hrow)
  | @approve txnId actor _ wallet found after hfound hpending hfind hafter hw ht =>
      by_cases hk : k = txnId
      · subst hk
        rw [hrow, Option.some.injEq] at hfound
        subst hfound
        exact .settled _ _ _ rfl rfl (settles_of_approve hrow hpending hfind hafter hw ht)
      · exact .same (by rw [find_settle ht, if_neg hk, hrow])
  | @reject txnId actor note _ found note' hfound hpending hw ht =>
      by_cases hk : k = txnId
      · subst hk
        rw [hrow, Option.some.injEq] at hfound
        subst hfound
        exact .settled _ _ _ rfl rfl (settles_of_reject hrow hpending hw ht)
      · exact .same (by rw [find_settle ht, if_neg hk, hrow])
  | transfer source dest rate amount credited fromAfter toAfter _ _ _ _ _ _ _ _ _ mid hout hin =>
      exact .same (Table.find_insert_of_some hin (Table.find_insert_of_some hout hrow))

theorem step_row {a : LockedBlocks.Input Input HttpException} {p q : Pc} {s s' : Shared}
    (h : moneyStep a p s = some (q, s')) (hrow : s.db.transactions.find k = some row) :
    RowStep s.db s'.db p k row := by
  obtain ⟨i, -, hstep⟩ | ⟨body, draw, r, rfl, hc, -⟩ | ⟨body, draw, e, -, -, rfl⟩ :=
    moneyStep_cases h
  · exact .same (((step_single hstep).keeps fun _ => False).transaction (fun hk => hk) hrow)
  · exact effect_row (block_effect hc) hrow
  · exact .same hrow

theorem event_row {s : Shared} {t : Machine} {tr : Trace} (h : Run next (start s) tr t)
    {e : Event (ℕ × Act Input) Machine} (he : e ∈ tr)
    (hrow : e.pre.data.db.transactions.find k = some row) :
    RowStep e.pre.data.db e.post.data.db (e.pre.client e.label.1).pc k row := by
  rcases event_cases h e he with hsame | ⟨a, q, hstep⟩
  · exact .same (by rw [hsame, hrow])
  · exact step_row hstep hrow

end Step

/-! ## Once -/

def isPending (k : Uuid) (d : Db) : Bool :=
  (d.transactions.find k).any fun t => t.status = .pending

/-- The event takes the row `k` out of `pending`. -/
def leavesPending (k : Uuid) (e : Event (ℕ × Act Input) Machine) : Bool :=
  isPending k e.pre.data.db && !isPending k e.post.data.db

section Once
variable {s : Shared} {t : Machine} {tr : Trace} {k : Uuid} {row : Transaction}

/-- A settled row stays as it is. -/
theorem settled_stays {us : Trace} {u : Machine} (h : Run next (start s) tr t)
    (hrow : t.data.db.transactions.find k = some row) (hstatus : row.status ≠ .pending)
    (hrest : Run next t us u) : u.data.db.transactions.find k = some row := by
  induction hrest with
  | start => exact hrow
  | @step us u v l hrun hn ih =>
      have hwhole := (h.trans hrun).step l hn
      cases event_row hwhole (e := ⟨u, l, v⟩) (by simp) ih with
      | same hsame => exact hsame
      | settled r draw row' _ _ hsettles => exact absurd hsettles.pending hstatus

theorem leavesPending_once (h : Run next (start s) tr t) (k : Uuid) :
    (tr.filter (leavesPending k)).length = 0 ∨
      ((tr.filter (leavesPending k)).length ≤ 1 ∧
        ∃ row, t.data.db.transactions.find k = some row ∧ row.status ≠ .pending) := by
  induction h with
  | start => exact .inl rfl
  | @step tr t u l hrun hn ih =>
      have hwhole := hrun.step l hn
      have hlast : (⟨t, l, u⟩ : Event (ℕ × Act Input) Machine) ∈ tr ++ [⟨t, l, u⟩] := by simp
      rw [List.filter_append, List.length_append, List.filter_singleton]
      by_cases hleaves : leavesPending k ⟨t, l, u⟩ = true
      · rw [hleaves, cond_true, List.length_singleton]
        rw [leavesPending, Bool.and_eq_true, isPending, isPending] at hleaves
        obtain ⟨row, hrow, hpending⟩ := (Option.any_eq_true _ _).mp hleaves.1
        rw [decide_eq_true_eq] at hpending
        rcases ih with hzero | ⟨-, row', hrow', hnot⟩
        · refine .inr ⟨by omega, ?_⟩
          cases event_row hwhole hlast hrow with
          | same hsame => simp [hsame, hpending] at hleaves
          | settled r draw row' _ hk hsettles =>
              exact ⟨row', hk ▸ hsettles.found, hsettles.status⟩
        · rw [hrow, Option.some.injEq] at hrow'
          exact absurd (hrow' ▸ hpending) hnot
      · rw [Bool.not_eq_true] at hleaves
        rw [hleaves, cond_false, List.length_nil, Nat.add_zero]
        rcases ih with hzero | ⟨hone, row, hrow, hstatus⟩
        · exact .inl hzero
        · exact .inr ⟨hone, row, settled_stays hrun hrow hstatus (.step l .start hn), hstatus⟩

end Once

/-! ## Calls that lose -/

/-- The row is pending, and an approval finds its wallet and, for a withdrawal, the money. -/
def Reviewable (d : Db) (r : Review) : Prop :=
  ∃ row, d.transactions.find r.txnId = some row ∧ row.status = .pending ∧
    match r with
    | .approve .. => ∃ wallet, d.wallets.find row.walletId = some wallet ∧
        (row.type = .withdrawal → row.amount.val ≤ wallet.balance.val)
    | .reject .. => True

/-- The review a call is at work on. -/
def reviewOf : Pc → Option Review
  | .start (.review r) _ | .assertApprovePermission r _ _ | .transaction (.review r) _ => some r
  | _ => none

/-- What the call is about to find refuses its review: no row, no permission, or a row that
cannot be reviewed. -/
def Loses (s : Shared) : Pc → Prop
  | .start (.review r) _ => s.db.transactions.find r.txnId = none
  | .assertApprovePermission r type _ =>
      holdsPermission s.users r.actor.id (approvePermission type) = false
  | .transaction (.review r) _ => ¬ Reviewable s.db r
  | _ => False

theorem affordable_of_ok {row : Transaction} {before after : ℤ}
    (h : approvedBalance row before = .ok after) (htype : row.type = .withdrawal) :
    row.amount.val ≤ before := by
  unfold approvedBalance at h
  rw [if_pos htype] at h
  split_ifs at h with hpoor
  exact not_lt.mp hpoor

/-- The block of a review commits on a row that can be reviewed, and settles it. -/
theorem commits_review {r : Review} {draw : Draw} {answer : Committed} {s s' : Shared}
    (h : Commits s s ((TxnBody.review r).block draw) answer s') :
    Reviewable s.db r ∧ ∃ row row', s.db.transactions.find r.txnId = some row ∧
      Settles s.db s'.db r row row' := by
  cases r with
  | approve txnId actor =>
      obtain ⟨wallet, row, after, hrow, hpending, hfind, hafter, hw, ht⟩ := commits_approveBlock h
      exact ⟨⟨row, hrow, hpending, wallet, hfind, affordable_of_ok hafter⟩, row, _, hrow,
        settles_of_approve hrow hpending hfind hafter hw ht⟩
  | reject txnId actor note =>
      obtain ⟨row, note', hrow, hpending, hw, ht⟩ := commits_rejectBlock h
      exact ⟨⟨row, hrow, hpending, trivial⟩, row, _, hrow, settles_of_reject hrow hpending hw ht⟩

section Losing
variable {a : LockedBlocks.Input Input HttpException} {p q : Pc} {s s' : Shared}

/-- Before its block a review changes no table. -/
theorem step_reviewOf {i : Input} {r : Review} (hp : reviewOf p = some r)
    (h : step i p s = some (q, s')) : s'.db = s.db := by
  cases step_statement h with
  | createsWallet => cases hp
  | requests => cases hp
  | publishes => cases hp
  | _ => rfl

theorem moneyStep_review {r : Review} (hp : reviewOf p = some r)
    (h : moneyStep a p s = some (q, s')) : s'.db = s.db ∨
      ∃ row row', s.db.transactions.find r.txnId = some row ∧ Settles s.db s'.db r row row' := by
  obtain ⟨i, -, hstep⟩ | ⟨body, draw, answer, rfl, hc, -⟩ | ⟨body, draw, e, -, -, rfl⟩ :=
    moneyStep_cases h
  · exact .inl (step_reviewOf hp hstep)
  · cases body with
    | review r' =>
        obtain rfl := Option.some.inj hp
        exact .inr (commits_review hc).2
    | deposit id actor dto => cases hp
    | adjust walletId dto actor => cases hp
    | transfer args => cases hp
  · exact .inl rfl

theorem moneyStep_loses (hl : Loses s p) (h : moneyStep a p s = some (q, s')) :
    s'.db = s.db ∧ ∃ e, q = .failed e := by
  obtain ⟨i, -, hstep⟩ | ⟨body, draw, answer, rfl, hc, -⟩ | ⟨body, draw, e, -, rfl, rfl⟩ :=
    moneyStep_cases h
  · cases step_statement hstep with
    | fails e => exact ⟨rfl, e, rfl⟩
    | readsType row hrow => exact absurd (hrow.symm.trans hl) (Option.some_ne_none row)
    | permits held => exact absurd (held.symm.trans hl) (by decide)
    | emits q emitted hq => exact hl.elim
    | _ => exact hl.elim
  · cases body with
    | review r => exact absurd (commits_review hc).1 hl
    | deposit id actor dto => exact hl.elim
    | adjust walletId dto actor => exact hl.elim
    | transfer args => exact hl.elim
  · exact ⟨rfl, e, rfl⟩

end Losing

/-- An event of a run leaves the tables and its call where they are, or it is one step of the
specification machine by that call. -/
theorem event_call {s : Shared} {t : Machine} {tr : Trace} (h : Run next (start s) tr t)
    {e : Event (ℕ × Act Input) Machine} (he : e ∈ tr) :
    (e.post.data = e.pre.data ∧ (e.post.client e.label.1).pc = (e.pre.client e.label.1).pc) ∨
      ∃ a, moneyStep a (e.pre.client e.label.1).pc e.pre.data =
        some ((e.post.client e.label.1).pc, e.post.data) := by
  have hok : e.pre.Ok program :=
    h.pre_invariant (State.Ok program) (State.idle_ok _ _)
      (fun _ _ _ hs hn => (next_refines hs hn).1) e he
  obtain ⟨-, habs | ⟨i, -, hstep⟩⟩ := next_refines hok (h.event_next e he)
  · exact .inl ⟨congrArg Pool.data habs, congrFun (congrArg Pool.client habs) e.label.1⟩
  · obtain ⟨q, s', hq, ht⟩ := next_cases hstep
    have hdata : e.post.data = s' := congrArg Pool.data ht
    have hpc : (e.post.client e.label.1).pc = q :=
      (congrFun (congrArg Pool.client ht) e.label.1).trans (Function.update_self _ _ _)
    rw [hdata, hpc]
    exact .inr ⟨i, hq⟩

/-! ## Permission -/

/-- The type of the row, once read, is the type it has. -/
def TypeRead : Pc → Db → Prop
  | .assertApprovePermission r type _, d =>
      ∃ row, d.transactions.find r.txnId = some row ∧ row.type = type
  | _, _ => True

/-- A type never changes. -/
theorem type_stays {a : LockedBlocks.Input Input HttpException} {p q : Pc} {s s' : Shared}
    (h : moneyStep a p s = some (q, s')) {k : Uuid} {type : TxnType}
    (hrow : ∃ row, s.db.transactions.find k = some row ∧ row.type = type) :
    ∃ row, s'.db.transactions.find k = some row ∧ row.type = type := by
  obtain ⟨row, hfind, htype⟩ := hrow
  cases step_row h hfind with
  | same hsame => exact ⟨row, hsame, htype⟩
  | settled r draw row' _ hk hsettles =>
      exact ⟨row', hk ▸ hsettles.found, hsettles.type.trans htype⟩

theorem TypeRead.mono {a : LockedBlocks.Input Input HttpException} {p q p' : Pc} {s s' : Shared}
    (h : TypeRead p' s.db) (hs : moneyStep a p s = some (q, s')) : TypeRead p' s'.db := by
  unfold TypeRead at h ⊢
  split
  · exact type_stays hs h
  · trivial

section Steps
variable {i : Input} {p : Pc} {s s' : Shared} {r : Review} {type : TxnType} {draw : Draw}

theorem step_assert (h : step i p s = some (.assertApprovePermission r type draw, s')) :
    ∃ row, s'.db.transactions.find r.txnId = some row ∧ row.type = type := by
  cases step_statement h with
  | readsType row hrow => exact ⟨row, hrow, rfl⟩
  | emits q emitted hq => cases hq

/-- A review opens its transaction only after its permission check. -/
theorem step_review (h : step i p s = some (.transaction (.review r) draw, s')) :
    ∃ type, p = .assertApprovePermission r type draw ∧
      holdsPermission s.users r.actor.id (approvePermission type) = true := by
  cases step_statement h with
  | permits held => exact ⟨_, rfl, held⟩
  | emits q emitted hq => cases hq

end Steps

/-- The event is the permission check of a review by call `c`, and it succeeds. -/
structure Checks (c : ℕ) (r : Review) (type : TxnType) (mover : ℕ) (p : Pc) (s : Shared) :
    Prop where
  call : mover = c
  pc : ∃ draw, p = .assertApprovePermission r type draw
  held : holdsPermission s.users r.actor.id (approvePermission type) = true

/-- A review that has opened its transaction was checked for the type its row has. -/
theorem checked {s : Pool Shared Pc} {us} {u : Pool Shared Pc}
    (hs : ∀ c, s.client c = .idle) (h : Run (Interleaving.next moneyStep) s us u) :
    (∀ c, TypeRead (u.client c) u.data.db) ∧
    ∀ c r draw, u.client c = .transaction (.review r) draw →
      ∃ e ∈ us, ∃ i type, e.label.2 = .step i ∧
        Checks c r type e.label.1 (e.pre.client e.label.1) e.pre.data ∧
        ∃ row, u.data.db.transactions.find r.txnId = some row ∧ row.type = type := by
  induction h with
  | start =>
      refine ⟨fun c => ?_, fun c r draw hc => ?_⟩
      · rw [hs]
        trivial
      · rw [hs] at hc
        cases hc
  | @step us u v l hrun hn ih =>
      obtain ⟨htypes, hchecks⟩ := ih
      obtain ⟨q, s', hstep, rfl⟩ := next_cases hn
      constructor
      · intro c
        by_cases hc : c = l.1
        · subst hc
          simp only [Function.update_self]
          unfold TypeRead
          split
          · obtain ⟨i, -, hi⟩ | ⟨body, draw, r, -, -, hq⟩ | ⟨body, draw, e, -, hq, -⟩ :=
              moneyStep_cases hstep
            · exact step_assert hi
            · cases hq
            · cases hq
          · trivial
        · simp only [Function.update_of_ne hc]
          exact (htypes c).mono hstep
      · intro c r draw hc
        by_cases hcl : c = l.1
        · subst hcl
          simp only [Function.update_self] at hc
          subst hc
          obtain ⟨i, hi, hsi⟩ | ⟨body, draw', r', -, -, hq⟩ | ⟨body, draw', e, -, hq, -⟩ :=
            moneyStep_cases hstep
          · obtain ⟨type, hp, hheld⟩ := step_review hsi
            have htype := htypes l.1
            rw [hp] at htype
            exact ⟨_, List.mem_append_right _ (List.mem_singleton_self _), i, type, hi,
              ⟨rfl, ⟨draw, hp⟩, hheld⟩, type_stays hstep htype⟩
          · cases hq
          · cases hq
        · simp only [Function.update_of_ne hcl] at hc
          obtain ⟨e, he, i, type, hi, hcheck, hrow⟩ := hchecks c r draw hc
          exact ⟨e, List.mem_append_left _ he, i, type, hi, hcheck, type_stays hstep hrow⟩

/-- The same on the locking machine. -/
theorem run_checked {s : Shared} {t : Machine} {tr : Trace} (h : Run next (start s) tr t)
    {c : ℕ} {r : Review} {draw : Draw} (hc : (t.client c).pc = .transaction (.review r) draw) :
    ∃ e ∈ tr, ∃ type, Checks c r type e.label.1 (e.pre.client e.label.1).pc e.pre.data ∧
      ∃ row, t.data.db.transactions.find r.txnId = some row ∧ row.type = type := by
  obtain ⟨us, hus, -, hlab⟩ := run_refines (Q := program) (State.idle_ok _ _) h
  obtain ⟨e, he, i, type, hi, hcheck, hrow⟩ := (checked (fun _ => rfl) hus).2 c r draw hc
  obtain ⟨e', he', hl, hpre, -⟩ := hlab e he i hi
  refine ⟨e', he', type, ?_, hrow⟩
  rw [← hpre] at hcheck
  rw [show e'.label.1 = e.label.1 from congrArg Prod.fst hl]
  exact hcheck

/-- Every pending row is settled at most once and for good, by a review whose permission was
checked. A review whose row is missing, is reviewed or cannot be afforded, or whose actor may
not approve, fails; until then, and in whatever else it does but settle its row, it changes no
table. -/
theorem settled_once {s : Shared} {t : Machine} {tr : Trace} (h : Run next (start s) tr t) :
    (∀ k, (tr.filter (leavesPending k)).length ≤ 1) ∧
    (∀ e ∈ tr, ∀ k row, e.pre.data.db.transactions.find k = some row → row.status ≠ .pending →
      t.data.db.transactions.find k = some row) ∧
    (∀ e ∈ tr, ∀ k row, e.pre.data.db.transactions.find k = some row → row.status = .pending →
      e.post.data.db.transactions.find k = some row ∨
      ∃ r row', r.txnId = k ∧ Settles e.pre.data.db e.post.data.db r row row') ∧
    (∀ e ∈ tr, ∀ r, reviewOf (e.pre.client e.label.1).pc = some r →
      e.post.data.db = e.pre.data.db ∨ ∃ row row',
        e.pre.data.db.transactions.find r.txnId = some row ∧
        Settles e.pre.data.db e.post.data.db r row row') ∧
    (∀ e ∈ tr, Loses e.pre.data (e.pre.client e.label.1).pc →
      e.post.data.db = e.pre.data.db ∧
        ((e.post.client e.label.1).pc = (e.pre.client e.label.1).pc ∨
          ∃ x, (e.post.client e.label.1).pc = .failed x)) ∧
    (∀ c e, (t.client c).pc = .failed e →
      ∀ ev ∈ tr, ev.label.1 = c → ev.post.data.db = ev.pre.data.db) ∧
    ∀ before e after, tr = before ++ e :: after → ∀ k row row',
      e.pre.data.db.transactions.find k = some row → row.status = .pending →
      e.post.data.db.transactions.find k = some row' → row'.status ≠ .pending →
      ∃ r, row'.reviewedBy = some r.actor.id ∧ r.txnId = k ∧ ∃ check ∈ before,
        Checks e.label.1 r row.type check.label.1 (check.pre.client check.label.1).pc
          check.pre.data := by
  refine ⟨fun k => ?_, ?_, ?_, fun e he r hr => ?_, fun e he hl => ?_,
    fun c e hc => uncommitted_keeps h (by rw [hc]; rfl), ?_⟩
  · rcases leavesPending_once h k with hzero | ⟨hone, -⟩
    · omega
    · exact hone
  · intro e he k row hrow hstatus
    obtain ⟨before, after, htr⟩ := List.append_of_mem he
    obtain ⟨hbefore, hafter⟩ := h.split htr
    refine settled_stays hbefore hrow hstatus ((Run.step e.label .start ?_).trans hafter)
    exact h.event_next e he
  · intro e he k row hrow _
    cases event_row h he hrow with
    | same hsame => exact .inl hsame
    | settled r draw row' _ hk hsettles => exact .inr ⟨r, row', hk, hsettles⟩
  · rcases event_call h he with ⟨hdata, -⟩ | ⟨a, hstep⟩
    · exact .inl (congrArg Shared.db hdata)
    · exact moneyStep_review hr hstep
  · rcases event_call h he with ⟨hdata, hpc⟩ | ⟨a, hstep⟩
    · exact ⟨congrArg Shared.db hdata, .inl hpc⟩
    · obtain ⟨hdb, x, hq⟩ := moneyStep_loses hl hstep
      exact ⟨hdb, .inr ⟨x, hq⟩⟩
  · intro before e after htr k row row' hrow hpending hrow' hstatus
    have he : e ∈ tr := htr ▸ by simp
    cases event_row h he hrow with
    | same hsame =>
        rw [hsame, Option.some.injEq] at hrow'
        exact absurd (hrow' ▸ hpending) hstatus
    | settled r draw row'' hp hk hsettles =>
        have hfound := hsettles.found
        rw [hk, hrow', Option.some.injEq] at hfound
        subst hfound
        obtain ⟨check, hcheck, type, hchecks, read, hread, htype⟩ :=
          run_checked (h.split htr).1 hp
        rw [hk, hrow, Option.some.injEq] at hread
        subst hread
        exact ⟨r, hsettles.reviewedBy, hk, check, hcheck, htype ▸ hchecks⟩

/-- A withdrawal of 200 out of 500, approved by a member of staff. -/
def approveWithdrawal : List (ℕ × Act Input) :=
  (0, .step (.users fun _ => some ⟨none, ["withdrawal.approve"]⟩)) ::
    openWallet 0 1 "USD" 10 ++ depositInto 1 1 10 ⟨500, none, by decide⟩ 20 ++
    [(2, .step (.call (.requestWithdrawal 10 (customer 1) ⟨200, none, by decide⟩) (numbered 30))),
      (2, .step .go), (2, .step .go),
      (3, .step (.call (.review (.approve 30 ⟨2, "", "finance", true⟩)) (numbered 40))),
      (3, .step .go), (3, .step .go)] ++ commitBlock 3 6

theorem settled_once_withdrawal :
    ∃ tr t, Run next (start ⟨.empty, fun _ => none, [], []⟩) tr t ∧
      (t.data.db.transactions.find 30).map Transaction.status = some .approved ∧
      (t.data.db.wallets.find 10).map (fun w => w.balance.val) = some 300 ∧
      (tr.filter (leavesPending 30)).length ≤ 1 := by
  obtain ⟨tr, t, hrun, -, ht⟩ := Run.of_trace_map next approveWithdrawal
    (start ⟨.empty, fun _ => none, [], []⟩)
    (fun _ t => ((t.data.db.transactions.find 30).map Transaction.status,
      (t.data.db.wallets.find 10).map fun w => w.balance.val))
    (some .approved, some 300) (by decide)
  rw [Prod.mk.injEq] at ht
  exact ⟨tr, t, hrun, ht.1, ht.2, (settled_once hrun).1 30⟩

end MaxOne.Settlements
