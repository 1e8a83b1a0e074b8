import MaxOne.MoneyRuns

/-!
# Amounts in the ledger

`schema.prisma` says of a ledger row that its amount is always positive. Every
amount is taken from a request that was checked, except the receiver's half of
a transfer between currencies, which is rounded to an integer. It is positive
exactly when the product of amount and rate reaches the first value that does
not round to zero.
-/
namespace MaxOne.LedgerAmounts
open Library Library.Runs MaxOne.Rates MaxOne.Schema MaxOne.WalletsService
  MaxOne.WalletsMachine MaxOne.Ledger MaxOne.MoneyRuns

def AmountsOk (d : Db) : Prop := ∀ t ∈ d.transactions.rows, 1 ≤ t.amount.val

/-- A strictly positive rate that does not round the transfer's credit away. -/
def Payable (amount : ℤ) (rate : Decimal) : Prop := rate.Positive ∧ ReachesOne amount rate

section Change
variable {d d' : Db}

theorem AmountsOk.insert {row : Transaction} {t u : Table Transaction Transaction.id}
    (h : ∀ r ∈ t.rows, 1 ≤ r.amount.val) (hrow : 1 ≤ row.amount.val)
    (ht : t.insert row = some u) : ∀ r ∈ u.rows, 1 ≤ r.amount.val := by
  intro r hr
  rcases (Table.mem_insert ht).mp hr with hold | rfl
  · exact h r hold
  · exact hrow

theorem AmountsOk.settle {id : Uuid} {settlement : Settlement} (h : AmountsOk d) :
    AmountsOk (d.settle id settlement) := by
  intro t ht
  rcases Db.mem_settle.mp ht with ⟨hold, -⟩ | ⟨r, hr, rfl⟩
  · exact h t hold
  · cases settlement <;> exact h r (Table.mem_of_find hr)

/-- The receiver's half of a transfer. -/
theorem credit_pos {a : TransferArgs} {sender receiver : Owner} {credited : Int4}
    (h : Settled Payable d a sender receiver) (hcredit : a.credit = some credited.val) :
    1 ≤ credited.val := by
  have hone := a.dto.min_one
  rcases h.credit with ⟨-, -, hc⟩ | ⟨-, rate, -, hc, hpos, hreach⟩
  · rw [hcredit, Option.some.injEq] at hc
    omega
  · rw [hcredit] at hc
    exact (one_le_convertMinor hone hpos hc.symm).mpr hreach

theorem AmountsOk.change (h : AmountsOk d) (hc : Change Payable d d') : AmountsOk d' := by
  cases hc with
  | single hs =>
      cases hs with
      | keep _ ht => rwa [AmountsOk, ht]
      | openWallet w _ hw =>
          obtain ⟨-, ht, -⟩ := Db.createWallet_cases hw
          rwa [AmountsOk, ht]
      | request id actor dto draw amount hamount hrow =>
          obtain ⟨ht, -⟩ := Db.createTransaction_cases hrow
          refine AmountsOk.insert h ?_ ht
          change 1 ≤ amount.val
          exact hamount ▸ dto.min_one
  | block body draw he hok =>
      cases he with
      | post wallet row after _ _ hamount _ _ _ ht => exact AmountsOk.insert h hamount ht
      | approve wallet row after _ _ _ _ _ ht =>
          rw [AmountsOk, ht]
          exact h.settle
      | reject row note' _ _ _ ht =>
          rw [AmountsOk, ht]
          exact h.settle
      | @transfer a _ source dest rate amount credited fromAfter toAfter _ _ hamount hcredit _ _ _
          _ _ mid hout hin =>
          obtain ⟨sender, receiver, hsettled⟩ := hok
          have hone : 1 ≤ amount.val := hamount ▸ a.dto.min_one
          have hcredited := credit_pos hsettled hcredit
          exact AmountsOk.insert (AmountsOk.insert h hone hout) hcredited hin

end Change

/-- Every ledger amount is positive as long as no credit rounds to zero. -/
theorem amounts_positive {users : Uuid → Option Account} {s : Machine} {tr : Trace}
    (h : Run next (start ⟨.empty, users, [], []⟩) tr s) (hrates : RatesSatisfy Payable tr) :
    AmountsOk s.data.db := by
  have hempty : AmountsOk Db.empty := by simp [AmountsOk, Db.empty]
  exact run_invariant (fun _ _ hd hc => AmountsOk.change hd hc) hempty h hrates

/-- Ten dollars move at the rate 5. -/
theorem amounts_positive_across :
    ∃ tr s, Run next (start ⟨.empty, fun _ => none, [], []⟩) tr s ∧
      s.data.db.transactions.rows.map (fun t => (t.type, t.amount.val)) =
        [(.deposit, 1000), (.transferOut, 1000), (.transferIn, 5000)] ∧
      AmountsOk s.data.db := by
  obtain ⟨tr, s, hrun, hls, hs⟩ := Run.of_trace_map next
    (acrossCurrencies ⟨11, 1000, none, by decide⟩ (.finite ⟨5, 0⟩))
    (start ⟨.empty, fun _ => none, [], []⟩)
    (fun _ s => s.data.db.transactions.rows.map fun t => (t.type, t.amount.val))
    [(.deposit, 1000), (.transferOut, 1000), (.transferIn, 5000)] (by decide)
  refine ⟨tr, s, hrun, hs, amounts_positive hrun (ratesSatisfy_of_labels ?_)⟩
  rw [hls]
  have hrate : (acrossCurrencies ⟨11, 1000, none, by decide⟩ (.finite ⟨5, 0⟩)).filterMap rateOf =
      [.finite ⟨5, 0⟩] := rfl
  rw [hrate]
  intro rate hmem amount hone
  rw [List.mem_singleton] at hmem
  subst hmem
  have hq : (1 : ℚ) ≤ amount := by exact_mod_cast hone
  refine ⟨by simp [Decimal.Positive], ?_⟩
  norm_num [ReachesOne, Library.DecimalRounding.Dec.value]
  linarith

/-- One cent sent at the rate 0.4: the sender pays it and the receiver gets nothing. -/
theorem credit_rounds_to_zero :
    ∃ tr s, Run next (start ⟨.empty, fun _ => none, [], []⟩) tr s ∧
      RatesSatisfy (fun _ rate => rate.Positive) tr ∧
      s.data.db.transactions.rows.map (fun t => (t.type, t.amount.val)) =
        [(.deposit, 1000), (.transferOut, 1), (.transferIn, 0)] ∧
      ¬ ∀ t ∈ s.data.db.transactions.rows, 1 ≤ t.amount.val := by
  obtain ⟨tr, s, hrun, hls, hs⟩ := Run.of_trace_map next
    (acrossCurrencies ⟨11, 1, none, by decide⟩ (.finite ⟨4, -1⟩))
    (start ⟨.empty, fun _ => none, [], []⟩)
    (fun _ s => s.data.db.transactions.rows.map fun t => (t.type, t.amount.val))
    [(.deposit, 1000), (.transferOut, 1), (.transferIn, 0)] (by decide)
  refine ⟨tr, s, hrun, ratesSatisfy_of_labels ?_, hs, fun h => ?_⟩
  · rw [hls]
    have hrate : (acrossCurrencies ⟨11, 1, none, by decide⟩ (.finite ⟨4, -1⟩)).filterMap rateOf =
        [.finite ⟨4, -1⟩] := rfl
    simp [hrate, Decimal.Positive]
  · have hmem : (TxnType.transferIn, (0 : ℤ)) ∈
        s.data.db.transactions.rows.map fun t => (t.type, t.amount.val) := by simp [hs]
    obtain ⟨t, ht, he⟩ := List.mem_map.mp hmem
    have hone := h t ht
    have hzero : t.amount.val = 0 := congrArg Prod.snd he
    omega

end MaxOne.LedgerAmounts
