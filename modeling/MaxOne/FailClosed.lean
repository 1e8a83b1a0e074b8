import Mathlib
import MaxOne.MoneyRuns
import MaxOne.RatesService

/-!
# Transfers when the rate provider misbehaves

A transfer between currencies takes its rate from `getRate`, before it locks a
row. If the service failed closed, the transfer either stops there or credits an
amount that is not negative. If it did not, nothing later in the transfer stands
in the way: a negative rate takes money from the receiver.
-/
namespace MaxOne.FailClosed
open Library Library.Runs Library.Interleaving Library.LockedBlocks Library.Binary64
  Library.ScriptValue Library.DecimalRounding MaxOne.Rates MaxOne.Schema MaxOne.RatesService
  MaxOne.WalletsService MaxOne.WalletsMachine MaxOne.Ledger MaxOne.MoneyRuns

/-- The transfers of the run got what `getRate` made of requests in `S` for their
currencies. -/
def AnsweredBy (js : DecimalJs) (S : RateRequest → Prop) (tr : Trace) : Prop :=
  ∀ e ∈ tr, ∀ c answer source dest actor dto draw, e.label = (c, .step (.rate answer)) →
    (e.pre.client c).pc = .getRate source dest actor dto draw →
      ∃ r, S r ∧ r.fromCurrency = source.currency ∧ r.toCurrency = dest.currency ∧
        answer = (getRate js r).result

/-- A transfer that has not committed has changed no wallet, and one that commits
does not lower the receiver's balance. -/
structure TransfersSafe (tr : Trace) (s : Machine) : Prop where
  uncommitted : ∀ c, afterCommit (s.client c).pc = false →
    ∀ e ∈ tr, e.label.1 = c → e.post.data.db.wallets = e.pre.data.db.wallets
  committed : ∀ e ∈ tr, ∀ a draw, (e.pre.client e.label.1).pc = .transaction (.transfer a) draw →
    ∀ receiver, e.pre.data.db.wallets.find a.dto.toWalletId = some receiver →
      ∃ after, e.post.data.db.wallets.find a.dto.toWalletId = some after ∧
        receiver.balance.val ≤ after.balance.val

section Transfers
variable {js : DecimalJs} {S : RateRequest → Prop} {tr : Trace}

theorem credit_nonneg {d : Db} {a : TransferArgs} {sender receiver : Owner} {credited : Int4}
    (h : Settled (fun _ rate => rate.Nonneg) d a sender receiver)
    (hcredit : a.credit = some credited.val) : 0 ≤ credited.val := by
  have hone := a.dto.min_one
  rcases h.credit with ⟨-, -, hc⟩ | ⟨-, rate, -, hc, hnonneg⟩
  · rw [hcredit, Option.some.injEq] at hc
    omega
  · rw [hcredit] at hc
    exact convertMinor_nonneg (by omega) hnonneg hc.symm

theorem transferBlock_receiver {s s' : Shared} {r : Committed} {draw : Draw} {a : TransferArgs}
    {receiver : Wallet}
    (hok : PcOk (fun _ rate => rate.Nonneg) (.transaction (.transfer a) draw) s.db)
    (hfind : s.db.wallets.find a.dto.toWalletId = some receiver)
    (h : Commits s s (transferBlock a draw) r s') :
    ∃ after, s'.db.wallets.find a.dto.toWalletId = some after ∧
      receiver.balance.val ≤ after.balance.val := by
  obtain ⟨source, dest, hsource, hdest, hwrites⟩ := commits_transferBlock h
  obtain ⟨rate, amount, credited, fromAfter, toAfter, mid, -, -, hcredit, -, hto, -, hw, -, -⟩ :=
    commits_transferWrites hwrites
  obtain ⟨sender, owner, hsettled⟩ := hok
  obtain rfl : dest = receiver := Option.some.inj (hdest.symm.trans hfind)
  have hkey : dest.id = a.dto.toWalletId := Table.find_key hdest
  have hne : dest.id ≠ source.id := by
    rw [hkey, Table.find_key hsource]
    exact hsettled.distinct.symm
  have hbefore : s.db.wallets.find dest.id = some dest := by rwa [hkey]
  have hafter : s'.db.wallets.find dest.id = some { dest with balance := toAfter } := by
    rw [hw, Db.updateWallet_wallets, Table.find_modify, if_pos rfl, Db.updateWallet_wallets,
      Table.find_modify_ne hne, hbefore, Option.map_some]
  refine ⟨_, hkey ▸ hafter, ?_⟩
  have hcredited := credit_nonneg hsettled hcredit
  change dest.balance.val ≤ toAfter.val
  omega

/-- One event of a transfer inside its transaction; only the commit changes a wallet. -/
theorem event_receiver {s : Shared} {t : Machine} (h : Run next (start s) tr t)
    (hrates : RatesSatisfy (fun _ rate => rate.Nonneg) tr) :
    ∀ e ∈ tr, ∀ a draw, (e.pre.client e.label.1).pc = .transaction (.transfer a) draw →
      ∀ receiver, e.pre.data.db.wallets.find a.dto.toWalletId = some receiver →
        ∃ after, e.post.data.db.wallets.find a.dto.toWalletId = some after ∧
          receiver.balance.val ≤ after.balance.val := by
  intro e he a draw hpc receiver hfind
  have hkeep : e.post.data.db = e.pre.data.db →
      ∃ after, e.post.data.db.wallets.find a.dto.toWalletId = some after ∧
        receiver.balance.val ≤ after.balance.val := fun hdb => ⟨receiver, hdb ▸ hfind, le_rfl⟩
  rcases event_cases h e he with hdata | ⟨input, q, hstep⟩
  · exact hkeep (congrArg Shared.db hdata)
  · rw [hpc] at hstep
    obtain ⟨i, -, hi⟩ | ⟨body, draw', r, hp, hc, -⟩ | ⟨body, draw', e', -, -, hdata⟩ :=
      moneyStep_cases hstep
    · cases i <;> cases hi
    · cases hp
      obtain ⟨before, after, htr⟩ := List.append_of_mem he
      have hbefore : RatesSatisfy (fun _ rate => rate.Nonneg) before := fun e' he' =>
        hrates e' (htr ▸ List.mem_append_left _ he')
      have howned := run_pcOk (h.split htr).1 hbefore e.label.1
      rw [hpc] at howned
      exact transferBlock_receiver howned hfind hc
    · exact hkeep (congrArg Shared.db hdata)

theorem ratesSatisfy_of_failsClosed
    (hS : ∀ r, S r → r.fromCurrency ≠ r.toCurrency → FailsClosed (getRate js r))
    (h : AnsweredBy js S tr) : RatesSatisfy (fun _ rate => rate.Nonneg) tr := by
  intro e he c i hl
  unfold RateOk
  split
  · next rate source dest actor dto draw hpc =>
      obtain ⟨r, hr, -, -, hanswer⟩ := h e he c _ source dest actor dto draw hl hpc
      by_cases hne : r.fromCurrency = r.toCurrency
      · rw [getRate_same hne] at hanswer
        cases hanswer
        exact (by decide : (0 : ℤ) ≤ 1)
      · rcases hS r hr hne with ⟨message, hm⟩ | ⟨d, hd, hpos⟩
        · rw [hm] at hanswer
          cases hanswer
        · rw [hd] at hanswer
          cases hanswer
          exact hpos.le
  · trivial

theorem transfersSafe_of_failsClosed {s : Shared} {t : Machine} (h : Run next (start s) tr t)
    (hS : ∀ r, S r → r.fromCurrency ≠ r.toCurrency → FailsClosed (getRate js r))
    (hanswered : AnsweredBy js S tr) : TransfersSafe tr t where
  uncommitted _ hc e he hec := congrArg Db.wallets (uncommitted_keeps h hc e he hec)
  committed := event_receiver h (ratesSatisfy_of_failsClosed hS hanswered)

end Transfers

/-! ## An instance of the library -/

section Plain

/-- Integers as the library prints them, other numbers with an exponent. -/
def plainText : Decimal → String
  | .nan => "NaN"
  | .infinity negative => if negative then "-Infinity" else "Infinity"
  | .finite d => if d.exp = 0 then d.coeff.repr else d.coeff.repr ++ "e" ++ d.exp.repr

/-- An integer, or two of them around an `e`. -/
def plainNumeral (cs : List Char) : Option Dec := do
  let coeff ← (String.ofList (cs.takeWhile (· ≠ 'e'))).toInt?
  match cs.dropWhile (· ≠ 'e') with
  | [] => some ⟨coeff, 0⟩
  | _ :: rest => (String.ofList rest).toInt?.map fun exp => ⟨coeff, exp⟩

def plainOfText (s : String) : Option Decimal :=
  if s = "NaN" then some .nan
  else if s = "Infinity" then some (.infinity false)
  else if s = "-Infinity" then some (.infinity true)
  else (plainNumeral s.toList).map .finite

/-- The expansion of a binary fraction. -/
def plainOfRat (q : ℚ) : Dec := ⟨q.num * 5 ^ q.den.log2, -q.den.log2⟩

theorem repr_chars (z : ℤ) : ∀ c ∈ z.repr.toList, c.isDigit ∨ c = '-' := by
  intro c hc
  have hdigit : ∀ n : ℕ, c ∈ n.repr.toList → c.isDigit := by
    intro n hn
    rw [Nat.toList_repr] at hn
    exact Nat.isDigit_of_mem_toDigits (by decide) (by decide) hn
  rw [Int.repr_eq_if] at hc
  split_ifs at hc
  · exact .inl (hdigit _ hc)
  · rw [String.toList_append, List.mem_append] at hc
    rcases hc with hminus | hn
    · exact .inr (by simpa using hminus)
    · exact .inl (hdigit _ hn)

theorem repr_ne_e (z : ℤ) : ∀ c ∈ z.repr.toList, decide (c ≠ 'e') = true := by
  intro c hc
  rw [decide_eq_true_eq]
  intro he
  subst he
  exact absurd (repr_chars z 'e' hc) (by decide)

theorem plainNumeral_int (z : ℤ) : plainNumeral z.repr.toList = some ⟨z, 0⟩ := by
  have htake : z.repr.toList.takeWhile (· ≠ 'e') = z.repr.toList :=
    List.takeWhile_eq_self_iff.mpr (repr_ne_e z)
  have hdrop : z.repr.toList.dropWhile (· ≠ 'e') = [] :=
    List.dropWhile_eq_nil_iff.mpr (repr_ne_e z)
  simp only [plainNumeral, htake, hdrop, String.ofList_toList, Int.toInt?_repr]
  rfl

theorem plainNumeral_exponent (d : Dec) :
    plainNumeral (d.coeff.repr ++ "e" ++ d.exp.repr).toList = some d := by
  have hlist : (d.coeff.repr ++ "e" ++ d.exp.repr).toList =
      d.coeff.repr.toList ++ 'e' :: d.exp.repr.toList := by
    rw [String.toList_append, String.toList_append, List.append_assoc]
    rfl
  have htake : (d.coeff.repr.toList ++ 'e' :: d.exp.repr.toList).takeWhile (· ≠ 'e') =
      d.coeff.repr.toList := by
    rw [List.takeWhile_append_of_pos (repr_ne_e _)]
    simp
  have hdrop : (d.coeff.repr.toList ++ 'e' :: d.exp.repr.toList).dropWhile (· ≠ 'e') =
      'e' :: d.exp.repr.toList := by
    rw [List.dropWhile_append_of_pos (repr_ne_e _)]
    simp
  rw [hlist]
  simp only [plainNumeral, htake, hdrop, String.ofList_toList, Int.toInt?_repr]
  rfl

/-- A text of digits, signs and exponents is none of the three names. -/
theorem plainOfText_numeral {s : String} {d : Dec} (hs : ∀ c ∈ s.toList, c ≠ 'N' ∧ c ≠ 'I')
    (h : plainNumeral s.toList = some d) : plainOfText s = some (.finite d) := by
  have hnan : s ≠ "NaN" := fun he => (hs 'N' (by simp [he])).1 rfl
  have hinfinity : s ≠ "Infinity" := fun he => (hs 'I' (by simp [he])).2 rfl
  have hnegative : s ≠ "-Infinity" := fun he => (hs 'I' (by simp [he])).2 rfl
  rw [plainOfText, if_neg hnan, if_neg hinfinity, if_neg hnegative, h, Option.map_some]

theorem plainOfText_plainText (d : Decimal) : plainOfText (plainText d) = some d := by
  have hchars : ∀ z : ℤ, ∀ c ∈ z.repr.toList, c ≠ 'N' ∧ c ≠ 'I' := by
    intro z c hc
    constructor <;>
    · intro he
      subst he
      exact absurd (repr_chars z _ hc) (by decide)
  cases d with
  | nan => rfl
  | infinity negative => cases negative <;> rfl
  | finite d =>
      obtain ⟨coeff, exp⟩ := d
      by_cases hexp : exp = 0
      · subst hexp
        exact plainOfText_numeral (hchars coeff) (plainNumeral_int coeff)
      · rw [plainText, if_neg hexp]
        refine plainOfText_numeral (fun c hc => ?_) (plainNumeral_exponent ⟨coeff, exp⟩)
        simp only [String.toList_append, List.mem_append] at hc
        rcases hc with (hc | hc) | hc
        · exact hchars coeff c hc
        · obtain rfl : c = 'e' := by simpa using hc
          decide
        · exact hchars exp c hc

def plainConstruct : Value → Option Decimal
  | .number (.finite q) => some (.finite (plainOfRat q))
  | .number (.infinity negative) => some (.infinity negative)
  | .number .nan => some .nan
  | .text s => plainOfText s
  | _ => none

theorem plainOfRat_pos (q : ℚ) : 0 < (plainOfRat q).coeff ↔ 0 < q := by
  have hpow : (0 : ℤ) < 5 ^ q.den.log2 := by positivity
  rw [plainOfRat, mul_pos_iff_of_pos_right hpow, Rat.num_pos]

def plain : DecimalJs where
  construct := plainConstruct
  toText := plainText
  construct_finite q := ⟨plainOfRat q, rfl, plainOfRat_pos q⟩
  construct_infinity _ := rfl
  construct_nan := rfl
  construct_null := rfl
  construct_bool _ := rfl
  construct_array _ := rfl
  construct_toText _ := plainOfText_plainText _

end Plain

/-! ## Failing closed -/

/-- Whatever the provider and the cache may answer, the service and the transfers
that ask it fail closed exactly when all of it is sound. -/
theorem rates_fail_closed (js : DecimalJs) (S : RateRequest → Prop) :
    ((∀ r, S r → r.fromCurrency ≠ r.toCurrency → FailsClosed (getRate js r)) ∧
      ∀ s t tr, Run next (start s) tr t → AnsweredBy js S tr → TransfersSafe tr t) ↔
      ∀ r, S r → r.fromCurrency ≠ r.toCurrency → Sound js r := by
  constructor
  · rintro ⟨hclosed, -⟩ r hr hne
    exact (failsClosed_iff hne).mp (hclosed r hr hne)
  · intro hsound
    have hclosed : ∀ r, S r → r.fromCurrency ≠ r.toCurrency → FailsClosed (getRate js r) :=
      fun r hr hne => (failsClosed_iff hne).mpr (hsound r hr hne)
    exact ⟨hclosed, fun s t tr h hanswered => transfersSafe_of_failsClosed h hclosed hanswered⟩

/-! ### Dollars to euros -/

/-- A response with this status and body, and nothing in the cache. -/
def usdToEur (status : ℕ) (body : Option Value) : RateRequest :=
  ⟨"USD", "EUR", .nil, .response status body⟩

def eurRate (q : ℚ) : Value := .object [("rates", .object [("EUR", .number (.finite q))])]

/-- The rate an event answers, with the pair it was asked for. -/
def answerOf (e : Event (ℕ × Act Input) Machine) : Option (String × String × Option Decimal) :=
  match e.label, (e.pre.client e.label.1).pc with
  | (_, .step (.rate answer)), .getRate source dest .. =>
      some (source.currency, dest.currency, answer.toOption)
  | _, _ => none

theorem answeredBy_of_answers {js : DecimalJs} {r : RateRequest} {rate : Decimal} {tr : Trace}
    (hrate : (getRate js r).result = .ok rate)
    (h : tr.filterMap answerOf = [(r.fromCurrency, r.toCurrency, some rate)]) :
    AnsweredBy js (· = r) tr := by
  intro e he c answer source dest actor dto draw hl hpc
  have hanswer : answerOf e = some (source.currency, dest.currency, answer.toOption) := by
    simp [answerOf, hl, hpc]
  have hmem := List.mem_filterMap.mpr ⟨e, he, hanswer⟩
  rw [h, List.mem_singleton] at hmem
  cases answer with
  | error e => simp [Except.toOption] at hmem
  | ok d =>
      simp only [Except.toOption, Prod.mk.injEq, Option.some.injEq] at hmem
      exact ⟨r, rfl, hmem.1.symm, hmem.2.1.symm, by rw [hrate, hmem.2.2]⟩

/-- The receiver's balance before and after an event of a transfer's transaction. -/
def receiverOf (e : Event (ℕ × Act Input) Machine) : Option (ℤ × ℤ) :=
  match (e.pre.client e.label.1).pc with
  | .transaction (.transfer a) _ => do
      let before ← e.pre.data.db.wallets.find a.dto.toWalletId
      let after ← e.post.data.db.wallets.find a.dto.toWalletId
      some (before.balance.val, after.balance.val)
  | _ => none

theorem not_transfersSafe {tr : Trace} {s : Machine} {before after : ℤ} (hlt : after < before)
    (h : (before, after) ∈ tr.filterMap receiverOf) : ¬ TransfersSafe tr s := by
  intro hsafe
  obtain ⟨e, he, hreceiver⟩ := List.mem_filterMap.mp h
  unfold receiverOf at hreceiver
  split at hreceiver
  · next a draw hpc =>
      cases hbefore : e.pre.data.db.wallets.find a.dto.toWalletId with
      | none => simp [hbefore] at hreceiver
      | some w =>
          obtain ⟨w', hafter, hle⟩ := hsafe.committed e he a draw hpc w hbefore
          simp [hbefore, hafter] at hreceiver
          omega
  · cases hreceiver

theorem plainOfRat_int (z : ℤ) : plainOfRat z = ⟨z, 0⟩ := by
  have hlog : Nat.log2 1 = 0 := by decide
  simp [plainOfRat, hlog]

theorem getRate_eur (z : ℤ) : getRate plain (usdToEur 200 (some (eurRate z))) =
    ⟨.ok (.finite ⟨z, 0⟩), some (cacheKey "USD" "EUR", .text (plainText (.finite ⟨z, 0⟩)))⟩ := by
  have hne : "USD" ≠ "EUR" := by decide
  have hfetch : fetchRate plain (.response 200 (some (eurRate z))) "USD" "EUR" =
      .ok (.finite (plainOfRat z)) := rfl
  rw [plainOfRat_int] at hfetch
  exact getRate_miss_ok hne rfl hfetch

/-- Ten dollars at the rate 2. -/
theorem rates_fail_closed_two :
    FailsClosed (getRate plain (usdToEur 200 (some (eurRate 2)))) ∧
      ∃ tr s, Run next (start ⟨.empty, fun _ => none, [], []⟩) tr s ∧
        s.data.db.wallets.rows.map (fun w => (w.id, w.balance.val)) = [(10, 0), (11, 2000)] ∧
        TransfersSafe tr s := by
  have hsound : ∀ r, r = usdToEur 200 (some (eurRate 2)) → r.fromCurrency ≠ r.toCurrency →
      Sound plain r := by
    rintro r rfl -
    exact fun _ => ⟨_, rfl, 2, rfl, by norm_num⟩
  have hclosed := (rates_fail_closed plain (· = usdToEur 200 (some (eurRate 2)))).mpr hsound
  obtain ⟨tr, s, hrun, -, hs⟩ := Run.of_trace_map next
    (acrossCurrencies ⟨11, 1000, none, by decide⟩ (.finite ⟨2, 0⟩))
    (start ⟨.empty, fun _ => none, [], []⟩)
    (fun tr s => (tr.filterMap answerOf, s.data.db.wallets.rows.map fun w => (w.id, w.balance.val)))
    ([("USD", "EUR", some (.finite ⟨2, 0⟩))], [(10, 0), (11, 2000)]) (by decide)
  have hrate : (getRate plain (usdToEur 200 (some (eurRate 2)))).result = .ok (.finite ⟨2, 0⟩) :=
    congrArg Outcome.result (getRate_eur 2)
  have hanswered := answeredBy_of_answers hrate (congrArg Prod.fst hs)
  exact ⟨hclosed.1 _ rfl (by decide), tr, s, hrun, congrArg Prod.snd hs,
    hclosed.2 _ _ _ hrun hanswered⟩

/-- A body that is not JSON makes the service throw 500. The rate -2 it accepts and
stores, and the transfer that asked for it takes 20 euros from the receiver. -/
theorem negative_rate_accepted :
    (usdToEur 200 none).fromCurrency ≠ (usdToEur 200 none).toCurrency ∧
      (getRate plain (usdToEur 200 none)).result = .error internalError ∧
      ¬ FailsClosed (getRate plain (usdToEur 200 none)) ∧
      ¬ FailsClosed (getRate plain (usdToEur 200 (some (eurRate (-2))))) ∧
      ∃ tr s, Run next (start ⟨.empty, fun _ => none, [], []⟩) tr s ∧
        AnsweredBy plain (· = usdToEur 200 (some (eurRate (-2)))) tr ∧
        (tr.filterMap receiverOf).getLast? = some (0, -2000) ∧ ¬ TransfersSafe tr s := by
  have hne : (usdToEur 200 none).fromCurrency ≠ (usdToEur 200 none).toCurrency := by decide
  have hne' : (usdToEur 200 (some (eurRate (-2)))).fromCurrency ≠
      (usdToEur 200 (some (eurRate (-2)))).toCurrency := by decide
  have hbody : ¬ Sound plain (usdToEur 200 none) := by
    intro h
    obtain ⟨json, hjson, -⟩ := h (by decide)
    cases hjson
  have hnegative : ¬ Sound plain (usdToEur 200 (some (eurRate (-2)))) := by
    intro h
    obtain ⟨json, hjson, hsound⟩ := h (by decide)
    cases hjson
    obtain ⟨q, hq, hpos⟩ : ∃ q, Number.finite (-2) = .finite q ∧ 0 < q := hsound
    cases hq
    norm_num at hpos
  obtain ⟨tr, s, hrun, -, hs⟩ := Run.of_trace_map next
    (acrossCurrencies ⟨11, 1000, none, by decide⟩ (.finite ⟨-2, 0⟩))
    (start ⟨.empty, fun _ => none, [], []⟩)
    (fun tr _ => (tr.filterMap answerOf, (tr.filterMap receiverOf).getLast?))
    ([("USD", "EUR", some (.finite ⟨-2, 0⟩))], some (0, -2000)) (by decide)
  have hrate : (getRate plain (usdToEur 200 (some (eurRate (-2))))).result =
      .ok (.finite ⟨-2, 0⟩) := by
    have heur := congrArg Outcome.result (getRate_eur (-2))
    push_cast at heur
    exact heur
  have hanswered := answeredBy_of_answers hrate (congrArg Prod.fst hs)
  have hlast : (tr.filterMap receiverOf).getLast? = some (0, -2000) := congrArg Prod.snd hs
  have hsafe := not_transfersSafe (s := s) (by decide) (List.mem_of_getLast? hlast)
  exact ⟨hne, rfl, (failsClosed_iff hne).not.mpr hbody, (failsClosed_iff hne').not.mpr hnegative,
    tr, s, hrun, hanswered, hlast, hsafe⟩

end MaxOne.FailClosed
