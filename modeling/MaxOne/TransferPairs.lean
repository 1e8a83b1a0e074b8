import MaxOne.MoneyRuns

/-!
# Transfer pairs

The ledger rows of one transfer are exactly two, one for each wallet, and they
agree with each other and with the two wallets. Everything a transfer settles
before its locks concerns columns that never change, and its identifier is its
own: `Fresh` says that no call still on its way shares an identifier with
another one or with the ledger.
-/
namespace MaxOne.TransferPairs
open Library Library.Runs Library.Interleaving Library.LockedBlocks MaxOne.Rates MaxOne.Schema
  MaxOne.WalletsService MaxOne.WalletsMachine MaxOne.Ledger MaxOne.MoneyRuns

/-- The ledger rows of one transfer. -/
def pairRows (x : Uuid) (d : Db) : List Transaction :=
  d.transactions.rows.filter fun t => t.transferId = some x

/-- Two rows that are the two halves of one transfer. -/
structure Pair (d : Db) (out inn : Transaction) : Prop where
  types : out.type = .transferOut ∧ inn.type = .transferIn
  wallets : out.walletId ≠ inn.walletId
  counterparties : out.counterpartyWalletId = some inn.walletId ∧
    inn.counterpartyWalletId = some out.walletId
  statuses : out.status = .approved ∧ inn.status = .approved
  requestedBy : out.requestedBy = inn.requestedBy
  reviewedAt : out.reviewedAt = inn.reviewedAt
  note : out.note = inn.note
  exchangeRate : out.exchangeRate = inn.exchangeRate
  owners : ∃ sender receiver, owner d out.walletId = some sender ∧
    owner d inn.walletId = some receiver ∧ sender.userId = out.requestedBy ∧
    (out.exchangeRate = none ↔ sender.currency = receiver.currency)
  sameAmount : out.exchangeRate = none → out.amount.val = inn.amount.val
  converted : ∀ rate, out.exchangeRate = some rate →
    convertMinor out.amount.val (.finite rate) = some inn.amount.val

/-- Every transfer in the ledger is a pair. -/
def PairsOk (d : Db) : Prop :=
  ∀ x, pairRows x d = [] ∨ ∃ out inn, pairRows x d = [out, inn] ∧ Pair d out inn

section Change
variable {P : ℤ → Decimal → Prop} {d d' : Db}

theorem Pair.mono {out inn : Transaction} (h : Pair d out inn)
    (ho : ∀ {id o}, owner d id = some o → owner d' id = some o) : Pair d' out inn := by
  obtain ⟨sender, receiver, hs, hr, hrest⟩ := h.owners
  exact { h with owners := ⟨sender, receiver, ho hs, ho hr, hrest⟩ }

theorem pairRows_insert {row : Transaction} {t u : Table Transaction Transaction.id} (x : Uuid)
    (h : t.insert row = some u) :
    u.rows.filter (fun r => r.transferId = some x) =
      t.rows.filter (fun r => r.transferId = some x) ++
        if row.transferId = some x then [row] else [] := by
  rw [Table.insert_rows h, List.filter_append, List.filter_singleton]
  simp

theorem pairRows_single (x : Uuid) (h : Single d d') : pairRows x d' = pairRows x d := by
  cases h with
  | keep _ ht => rw [pairRows, ht, pairRows]
  | openWallet w _ hw =>
      obtain ⟨-, ht, -⟩ := Db.createWallet_cases hw
      rw [pairRows, ht, pairRows]
  | request id actor dto draw amount _ hrow =>
      obtain ⟨ht, -⟩ := Db.createTransaction_cases hrow
      rw [pairRows, pairRows_insert x ht]
      simp [withdrawalRow, pairRows]

/-- A settlement rewrites a row that belongs to no transfer. -/
theorem pairRows_settle {id : Uuid} {settlement : Settlement} {row : Transaction} (x : Uuid)
    (hp : PendingOk d) (hrow : d.transactions.find id = some row)
    (hpending : row.status = .pending)
    (ht : d'.transactions = (d.settle id settlement).transactions) :
    pairRows x d' = pairRows x d := by
  obtain ⟨-, hnone, -⟩ := hp row (Table.mem_of_find hrow) hpending
  rw [pairRows, ht, Db.settle_transactions, pairRows]
  refine Table.filter_modify fun r hr => ?_
  rw [hrow, Option.some.injEq] at hr
  subst hr
  cases settlement <;> simp [hnone, Settlement.apply]

/-- The two rows a transfer writes agree with each other and with their wallets. -/
theorem pair_of_settled {a : TransferArgs} {draw : Draw} {source dest : Wallet}
    {rate : Option Library.DecimalRounding.Dec} {amount credited fromAfter toAfter : Int4}
    {sender receiver : Owner}
    (h : Settled (fun _ rate => rate.IsJsonNumber) d a sender receiver)
    (hs : source.id = a.fromWalletId) (hd : dest.id = a.dto.toWalletId)
    (hamount : amount.val = a.dto.amount) (hcredit : a.credit = some credited.val)
    (hrate : a.exchangeRate.map Decimal.toColumn = rate.map some) :
    Pair d (outRow a draw rate source dest amount fromAfter)
      (inRow a draw rate source dest credited toAfter) where
  types := ⟨rfl, rfl⟩
  wallets := by
    change source.id ≠ dest.id
    rw [hs, hd]
    exact h.distinct
  counterparties := ⟨rfl, rfl⟩
  statuses := ⟨rfl, rfl⟩
  requestedBy := rfl
  reviewedAt := rfl
  note := rfl
  exchangeRate := rfl
  owners := by
    refine ⟨sender, receiver, ?_, ?_, h.mine, ?_⟩
    · change owner d source.id = some sender
      rw [hs, h.source]
    · change owner d dest.id = some receiver
      rw [hd, h.dest]
    change rate = none ↔ _
    rcases h.credit with ⟨hcur, hnone, -⟩ | ⟨hcur, r, hsome, -⟩
    · rw [hnone, Option.map_none] at hrate
      simp [hcur, Option.map_eq_none_iff.mp hrate.symm]
    · rw [hsome, Option.map_some] at hrate
      cases rate with
      | none => cases hrate
      | some r' => simp [hcur]
  sameAmount := by
    change rate = none → amount.val = credited.val
    rintro rfl
    rcases h.credit with ⟨-, -, hc⟩ | ⟨-, r, hsome, -⟩
    · rw [hcredit, Option.some.injEq] at hc
      rw [hamount, hc]
    · simp [hsome] at hrate
  converted := by
    intro column
    change rate = some column → convertMinor amount.val (.finite column) = some credited.val
    rintro rfl
    rcases h.credit with ⟨-, hnone, -⟩ | ⟨-, r, hsome, hc, hjson⟩
    · simp [hnone] at hrate
    · rw [hsome, Option.map_some, Option.map_some, Option.some.injEq] at hrate
      rw [convertMinor_toColumn amount.abs_val_le hjson hrate, hamount, ← hc, hcredit]

/-- A block adds rows to no transfer but its own, and to that one a pair. -/
theorem effect_pairRows {body : TxnBody} {draw : Draw} (hp : PendingOk d)
    (h : Effect d d' body draw) :
    (∀ x, pairRows x d' = pairRows x d) ∨
    ∃ out inn,
      (PcOk (fun _ rate => rate.IsJsonNumber) (.transaction body draw) d → Pair d out inn) ∧
      ∀ x, pairRows x d' = pairRows x d ++ if draw.transferId = x then [out, inn] else [] := by
  cases h with
  | post wallet row after _ _ _ _ hsingle _ ht =>
      refine .inl fun x => ?_
      rw [pairRows, pairRows_insert x ht]
      simp [hsingle, pairRows]
  | approve wallet row after hrow hpending _ _ _ ht =>
      exact .inl fun x => pairRows_settle x hp hrow hpending ht
  | reject row note' hrow hpending _ ht =>
      exact .inl fun x => pairRows_settle x hp hrow hpending ht
  | @transfer a _ source dest rate amount credited fromAfter toAfter hsource hdest hamount hcredit
      _ _ _ hrate _ mid hout hin =>
      refine .inr ⟨outRow a draw rate source dest amount fromAfter,
        inRow a draw rate source dest credited toAfter, fun hok => ?_, fun x => ?_⟩
      · obtain ⟨sender, receiver, hsettled⟩ := hok
        exact pair_of_settled hsettled (Table.find_key hsource) (Table.find_key hdest) hamount
          hcredit hrate
      rw [pairRows, pairRows_insert x hin, pairRows_insert x hout, pairRows, List.append_assoc]
      by_cases hx : draw.transferId = x <;> simp [outRow, inRow, transferRow, hx]

theorem PairsOk.mono (h : PairsOk d) (hrows : ∀ x, pairRows x d' = pairRows x d)
    (ho : ∀ {id o}, owner d id = some o → owner d' id = some o) : PairsOk d' := by
  intro x
  rw [hrows]
  rcases h x with hnil | ⟨out, inn, hpair, hok⟩
  · exact .inl hnil
  · exact .inr ⟨out, inn, hpair, hok.mono ho⟩

end Change

/-! ## Identifiers -/

/-- Later statements of a call keep its draw; only a new call draws. -/
inductive DrawStep (p q : Pc) (s s' : Shared) : Prop where
  | keep (hids : s'.transferIds = s.transferIds)
      (hdraw : ∀ draw, drawOf q = some draw → drawOf p = some draw)
  | fresh (draw : Draw) (hq : drawOf q = some draw) (hnew : draw.transferId ∉ s.transferIds)
      (hids : s'.transferIds = draw.transferId :: s.transferIds) (hdb : s'.db = s.db)

theorem step_draw {i : Input} {p q : Pc} {s s' : Shared} (h : step i p s = some (q, s')) :
    DrawStep p q s s' := by
  cases step_statement h with
  | call call draw hnew => exact .fresh draw rfl hnew rfl rfl
  | emits q emitted hq =>
      refine .keep rfl fun draw hd => ?_
      rw [drawOf_afterCommit hq] at hd
      cases hd
  | fails e draw hp => exact .keep rfl fun _ hd => by cases hd
  | createsWallet db hdb => exact .keep rfl fun _ hd => by cases hd
  | requests amount db hamount hdb => exact .keep rfl fun _ hd => by cases hd
  | publishes => exact .keep rfl fun _ hd => by cases hd
  | _ => exact .keep rfl fun _ hd => hd

/-- Calls on their way have identifiers of their own, seen but not in the ledger. -/
structure Fresh (s : Pool Shared Pc) : Prop where
  seen : ∀ x, pairRows x s.data.db ≠ [] → x ∈ s.data.transferIds
  drawn : ∀ c draw, drawOf (s.client c) = some draw →
    draw.transferId ∈ s.data.transferIds ∧ pairRows draw.transferId s.data.db = []
  distinct : ∀ c c' draw draw', c ≠ c' → drawOf (s.client c) = some draw →
    drawOf (s.client c') = some draw' → draw.transferId ≠ draw'.transferId

section Fresh
variable {s : Pool Shared Pc} {s' : Shared} {c : ℕ} {q : Pc}

/-- A call moves on: it keeps its draw, or it ends and its rows are in the ledger. -/
theorem Fresh.move (h : Fresh s) (hids : s'.transferIds = s.data.transferIds)
    (hdraw : ∀ draw, drawOf q = some draw → drawOf (s.client c) = some draw)
    (hrows : ∀ x, pairRows x s'.db = pairRows x s.data.db ∨
      ∃ draw, drawOf (s.client c) = some draw ∧ draw.transferId = x ∧ drawOf q = none) :
    Fresh ⟨s', Function.update s.client c q⟩ := by
  have hold : ∀ c' draw, drawOf (Function.update s.client c q c') = some draw →
      drawOf (s.client c') = some draw := by
    intro c' draw hd
    by_cases hc : c' = c
    · subst hc
      rw [Function.update_self] at hd
      exact hdraw draw hd
    · rwa [Function.update_of_ne hc] at hd
  refine ⟨fun x hx => ?_, fun c' draw hd => ?_, fun c₁ c₂ d₁ d₂ hne h₁ h₂ =>
    h.distinct c₁ c₂ d₁ d₂ hne (hold _ _ h₁) (hold _ _ h₂)⟩
  · change x ∈ s'.transferIds
    rw [hids]
    rcases hrows x with he | ⟨draw, hd, rfl, -⟩
    · exact h.seen x (he ▸ hx)
    · exact (h.drawn c draw hd).1
  · obtain ⟨hmem, hnil⟩ := h.drawn c' draw (hold c' draw hd)
    refine ⟨by simpa only [hids] using hmem, ?_⟩
    rcases hrows draw.transferId with he | ⟨mine, hmine, hsame, hq⟩
    · exact he.trans hnil
    · have hc : c ≠ c' := by
        rintro rfl
        simp only [Function.update_self] at hd
        rw [hq] at hd
        cases hd
      exact absurd hsame (h.distinct c c' mine draw hc hmine (hold c' draw hd))

/-- A new call draws an identifier nobody has. -/
theorem Fresh.call (h : Fresh s) {draw : Draw} (hq : drawOf q = some draw)
    (hnew : draw.transferId ∉ s.data.transferIds)
    (hids : s'.transferIds = draw.transferId :: s.data.transferIds) (hdb : s'.db = s.data.db) :
    Fresh ⟨s', Function.update s.client c q⟩ := by
  have hcases : ∀ c' d', drawOf (Function.update s.client c q c') = some d' →
      (c' = c ∧ d' = draw) ∨ (c' ≠ c ∧ drawOf (s.client c') = some d') := by
    intro c' d' hd
    by_cases hc : c' = c
    · subst hc
      rw [Function.update_self, hq, Option.some.injEq] at hd
      exact .inl ⟨rfl, hd.symm⟩
    · rw [Function.update_of_ne hc] at hd
      exact .inr ⟨hc, hd⟩
  have hne : ∀ c' d', drawOf (s.client c') = some d' → d'.transferId ≠ draw.transferId := by
    intro c' d' hd he
    exact hnew (he ▸ (h.drawn c' d' hd).1)
  refine ⟨fun x hx => ?_, fun c' d' hd => ?_, fun c₁ c₂ d₁ d₂ hcc h₁ h₂ => ?_⟩
  · simp only [hdb] at hx
    simp only [hids]
    exact List.mem_cons_of_mem _ (h.seen x hx)
  · simp only [hids, hdb]
    rcases hcases c' d' hd with ⟨-, rfl⟩ | ⟨-, hd⟩
    · exact ⟨List.mem_cons_self, not_not.mp fun hrows => hnew (h.seen _ hrows)⟩
    · exact ⟨List.mem_cons_of_mem _ (h.drawn c' d' hd).1, (h.drawn c' d' hd).2⟩
  · rcases hcases c₁ d₁ h₁ with ⟨rfl, rfl⟩ | ⟨-, h₁⟩
    · rcases hcases c₂ d₂ h₂ with ⟨rfl, -⟩ | ⟨-, h₂⟩
      · exact absurd rfl hcc
      · exact (hne c₂ d₂ h₂).symm
    · rcases hcases c₂ d₂ h₂ with ⟨-, rfl⟩ | ⟨-, h₂⟩
      · exact hne c₁ d₁ h₁
      · exact h.distinct c₁ c₂ d₁ d₂ hcc h₁ h₂

/-- A commit puts rows of its own identifier into the ledger, and of no other. -/
theorem Fresh.next {t : Pool Shared Pc} {l : ℕ × LockedBlocks.Input Input HttpException}
    (h : Fresh s) (hp : PendingOk s.data.db) (hn : Interleaving.next moneyStep l s = some t) :
    Fresh t := by
  obtain ⟨q, s', hstep, rfl⟩ := next_cases hn
  obtain ⟨i, -, hi⟩ | ⟨body, draw, r, hbody, hc, rfl⟩ | ⟨body, draw, e, hbody, rfl, rfl⟩ :=
    moneyStep_cases hstep
  · have hrows := fun x => pairRows_single x (step_single hi)
    cases step_draw hi with
    | keep hids hdraw => exact h.move hids hdraw fun x => .inl (hrows x)
    | fresh draw hq hnew hids hdb => exact h.call hq hnew hids hdb
  · have hids : s'.transferIds = s.data.transferIds := by rw [commits_shared hc]
    have hdraw : drawOf (s.client l.1) = some draw := by rw [hbody, drawOf]
    refine h.move hids (fun _ hd => by cases hd) fun x => ?_
    rcases effect_pairRows hp (block_effect hc) with hrows | ⟨out, inn, -, hrows⟩
    · exact .inl (hrows x)
    · by_cases hx : draw.transferId = x
      · exact .inr ⟨draw, hdraw, hx, rfl⟩
      · exact .inl (by rw [hrows, if_neg hx, List.append_nil])
  · exact h.move rfl (fun _ hd => by cases hd) fun _ => .inl rfl

theorem start_fresh (users : Uuid → Option Account) :
    Fresh (start ⟨.empty, users, [], []⟩).abs where
  seen _ hx := absurd rfl hx
  drawn _ _ (hd : none = _) := by cases hd
  distinct _ _ _ _ _ (hd : none = _) := by cases hd

end Fresh

/-- The invariant of the specification machine. -/
structure PoolOk (s : Pool Shared Pc) : Prop where
  owned : Owned (fun s => PendingOk s.db)
    (fun p s => PcOk (fun _ rate => rate.IsJsonNumber) p s.db) s
  pairs : PairsOk s.data.db
  fresh : Fresh s

theorem PoolOk.next {s t : Pool Shared Pc} {l : ℕ × LockedBlocks.Input Input HttpException}
    (hs : PoolOk s)
    (hl : ∀ i, l.2 = .step i → RateOk (fun _ rate => rate.IsJsonNumber) i (s.client l.1))
    (h : Interleaving.next moneyStep l s = some t) : PoolOk t := by
  have howned := hs.owned.next
    (C := fun a p _ => ∀ i, a = .step i → RateOk (fun _ rate => rate.IsJsonNumber) i p)
    (owned_of_change fun _ _ hd hc => PendingOk.change hd hc)
    (fun _ _ _ _ _ _ _ _ _ hq hstep => hq.mono (moneyStep_owner hstep)) hl h
  have hfresh := hs.fresh.next hs.owned.data h
  obtain ⟨q, s', hstep, rfl⟩ := next_cases h
  have howner : ∀ {id o}, owner s.data.db id = some o → owner s'.db id = some o :=
    moneyStep_owner hstep
  obtain ⟨i, -, hi⟩ | ⟨body, draw, r, hp, hc, rfl⟩ | ⟨body, draw, e, hp, rfl, rfl⟩ :=
    moneyStep_cases hstep
  · have hrows := fun x => pairRows_single x (step_single hi)
    exact ⟨howned, hs.pairs.mono hrows howner, hfresh⟩
  · have hdraw : drawOf (s.client l.1) = some draw := by rw [hp, drawOf]
    have hpc := hs.owned.client l.1
    rw [hp] at hpc
    rcases effect_pairRows hs.owned.data (block_effect hc) with hrows | ⟨out, inn, hpair, hrows⟩
    · exact ⟨howned, hs.pairs.mono hrows howner, hfresh⟩
    · have hnil := (hs.fresh.drawn l.1 draw hdraw).2
      refine ⟨howned, fun x => ?_, hfresh⟩
      change pairRows x s'.db = [] ∨ _
      rw [hrows]
      split_ifs with hx
      · subst hx
        rw [hnil]
        exact .inr ⟨out, inn, rfl, (hpair hpc).mono howner⟩
      · rw [List.append_nil]
        rcases hs.pairs x with hx | ⟨out', inn', hx, hpair'⟩
        · exact .inl hx
        · exact .inr ⟨out', inn', hx, hpair'.mono howner⟩
  · exact ⟨howned, hs.pairs, hfresh⟩

theorem start_poolOk (users : Uuid → Option Account) :
    PoolOk (start ⟨.empty, users, [], []⟩).abs where
  owned := start_owned _ pendingOk_empty
  pairs _ := .inl rfl
  fresh := start_fresh users

/-- The rows of every transfer are a pair, and a call that fails changes no table. -/
theorem transfer_pairs {users : Uuid → Option Account} {s : Machine} {tr : Trace}
    (h : Run next (start ⟨.empty, users, [], []⟩) tr s)
    (hrates : RatesSatisfy (fun _ rate => rate.IsJsonNumber) tr) :
    (∀ t ∈ s.data.db.transactions.rows, ∀ x, t.transferId = some x →
      ∃ out inn, s.data.db.transactions.rows.filter (fun r => r.transferId = some x) = [out, inn] ∧
        Pair s.data.db out inn) ∧
    ∀ c e, (s.client c).pc = .failed e →
      ∀ ev ∈ tr, ev.label.1 = c → ev.post.data.db = ev.pre.data.db := by
  obtain ⟨us, hus, hlab⟩ := run_atomic h hrates
  have hok : PoolOk s.abs := hus.invariant_when
    (fun e => ∀ i, e.label.2 = .step i →
      RateOk (fun _ rate => rate.IsJsonNumber) i (e.pre.client e.label.1))
    PoolOk (start_poolOk users) (fun _ _ _ hi hl hc => hi.next hc hl) hlab
  refine ⟨fun t ht x hx => ?_, fun c e hc => uncommitted_keeps h (by rw [hc]; rfl)⟩
  rcases hok.pairs x with hnil | hpair
  · have hmem : t ∈ pairRows x s.data.db := List.mem_filter.mpr ⟨ht, by simpa using hx⟩
    rw [show pairRows x s.data.db = [] from hnil] at hmem
    cases hmem
  · exact hpair

theorem transfer_pairs_across :
    ∃ tr s, Run next (start ⟨.empty, fun _ => none, [], []⟩) tr s ∧
      ∃ out inn, s.data.db.transactions.rows.filter (fun r => r.transferId = some 34) = [out, inn] ∧
        Pair s.data.db out inn := by
  obtain ⟨tr, s, hrun, hls, hs⟩ := Run.of_trace_map next
    (acrossCurrencies ⟨11, 1000, none, by decide⟩ (.finite ⟨5, -1⟩))
    (start ⟨.empty, fun _ => none, [], []⟩)
    (fun _ s => (s.data.db.transactions.find 30).map Transaction.transferId) (some (some 34))
    (by decide)
  have hrates : RatesSatisfy (fun _ rate => rate.IsJsonNumber) tr := by
    refine ratesSatisfy_of_labels fun rate hmem _ _ => ?_
    have hrate : (acrossCurrencies ⟨11, 1000, none, by decide⟩ (.finite ⟨5, -1⟩)).filterMap rateOf =
        [.finite ⟨5, -1⟩] := rfl
    rw [hls, hrate, List.mem_singleton] at hmem
    rw [hmem]
    norm_num [Decimal.IsJsonNumber]
  obtain ⟨t, ht, hid⟩ := Option.map_eq_some_iff.mp hs
  exact ⟨tr, s, hrun, (transfer_pairs hrun hrates).1 t (Table.mem_of_find ht) 34 hid⟩

end MaxOne.TransferPairs
