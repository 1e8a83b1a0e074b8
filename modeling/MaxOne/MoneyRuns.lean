import MaxOne.Ledger

/-!
# Runs of the money operations

`next` is the locking machine over the calls of `WalletsService`; a run starts
with no call in progress and may hold any number of calls, interleaved
statement by statement. Theorems about runs are proved on the specification
machine, where a block is one step, and `Change` says what such a step does to
the ledger. `PcOk` is what a transfer has established by the time it opens its
transaction, and the columns it relies on never change.
-/
namespace MaxOne.MoneyRuns
open Library Library.Runs Library.Interleaving Library.LockedBlocks MaxOne.Rates MaxOne.Schema
  MaxOne.WalletsService MaxOne.WalletsMachine MaxOne.Ledger

abbrev Machine := State Shared RowKey Row Owner Stmt HttpException Committed Pc

abbrev Trace := List (Event (ℕ × Act Input) Machine)

def next : ℕ × Act Input → Machine → Option Machine := LockedBlocks.next program

/-- No call is in progress. -/
def start (s : Shared) : Machine := State.idle s fun _ => .idle

/-- One statement outside the blocks, one whole block, or a block given up. -/
def moneyStep : LockedBlocks.Input Input HttpException → Pc → Shared → Option (Pc × Shared) :=
  LockedBlocks.atomicStep program

section AtomicStep
variable {a : LockedBlocks.Input Input HttpException} {p q : Pc} {s s' : Shared}

theorem moneyStep_cases (h : moneyStep a p s = some (q, s')) :
    (∃ i, a = .step i ∧ step i p s = some (q, s')) ∨
    (∃ body draw r, p = .transaction body draw ∧ Commits s s (body.block draw) r s' ∧
      q = .emit r) ∨
    (∃ body draw e, p = .transaction body draw ∧ q = .failed e ∧ s' = s) := by
  have hblock : ∀ {p : Pc} {b : TxBlock}, block p = some b →
      ∃ body draw, p = .transaction body draw ∧ b = body.block draw := by
    intro p b hb
    cases p <;> cases hb
    exact ⟨_, _, rfl, rfl⟩
  obtain ⟨i, hi, -, hstep⟩ | ⟨b, r, -, hb, hrun, rfl⟩ | ⟨b, e, hb, rfl, rfl⟩ :=
    LockedBlocks.atomicStep_cases h
  · exact .inl ⟨i, hi, hstep⟩
  · obtain ⟨body, draw, rfl, rfl⟩ := hblock hb
    exact .inr (.inl ⟨body, draw, r, rfl, hrun, rfl⟩)
  · obtain ⟨body, draw, rfl, rfl⟩ := hblock hb
    exact .inr (.inr ⟨body, draw, e, rfl, rfl, rfl⟩)

theorem moneyStep_owner (h : moneyStep a p s = some (q, s')) {id : Uuid} {o : Owner}
    (ho : owner s.db id = some o) : owner s'.db id = some o :=
  atomicStep_frozen (Q := program) (k := .wallet id) h ho

end AtomicStep

/-! ## What a transfer knows before its transaction -/

section Settled
variable (P : ℤ → Decimal → Prop)

/-- The arguments fit the two wallets: the source is the actor's, and the credit
is the amount itself or its conversion by a rate that satisfies `P`. -/
structure Settled (d : Db) (a : TransferArgs) (sender receiver : Owner) : Prop where
  distinct : a.fromWalletId ≠ a.dto.toWalletId
  source : owner d a.fromWalletId = some sender
  dest : owner d a.dto.toWalletId = some receiver
  mine : sender.userId = a.actor.id
  credit : (sender.currency = receiver.currency ∧ a.exchangeRate = none ∧
      a.credit = some a.dto.amount) ∨
    (sender.currency ≠ receiver.currency ∧ ∃ rate, a.exchangeRate = some rate ∧
      a.credit = convertMinor a.dto.amount rate ∧ P a.dto.amount rate)

/-- What holds of a call at its current statement. -/
def PcOk : Pc → Db → Prop
  | .readDestination source actor dto _, d =>
      source.id ≠ dto.toWalletId ∧ source.userId = actor.id ∧
        owner d source.id = some ⟨source.userId, source.currency⟩
  | .getRate source dest actor dto _, d =>
      source.id ≠ dto.toWalletId ∧ source.userId = actor.id ∧
        owner d source.id = some ⟨source.userId, source.currency⟩ ∧
        owner d dto.toWalletId = some ⟨dest.userId, dest.currency⟩ ∧
        source.currency ≠ dest.currency
  | .findSender a _, d => ∃ source dest, Settled P d a source dest
  | .transaction (.transfer a) _, d => ∃ source dest, Settled P d a source dest
  | _, _ => True

/-- The rate `getRate` hands to a transfer satisfies `P`. -/
def RateOk : Input → Pc → Prop
  | .rate (.ok rate), .getRate _ _ _ dto _ => P dto.amount rate
  | _, _ => True

end Settled

section PcOk
variable {P : ℤ → Decimal → Prop} {d d' : Db} {s s' : Shared} {q : Pc}

theorem Settled.mono {a : TransferArgs} {source dest : Owner} (h : Settled P d a source dest)
    (ho : ∀ {id o}, owner d id = some o → owner d' id = some o) :
    Settled P d' a source dest :=
  ⟨h.distinct, ho h.source, ho h.dest, h.mine, h.credit⟩

theorem PcOk.mono {p : Pc} (h : PcOk P p d)
    (ho : ∀ {id o}, owner d id = some o → owner d' id = some o) : PcOk P p d' := by
  unfold PcOk at h ⊢
  split
  · exact ⟨h.1, h.2.1, ho h.2.2⟩
  · exact ⟨h.1, h.2.1, ho h.2.2.1, ho h.2.2.2.1, h.2.2.2.2⟩
  · obtain ⟨source, dest, hs⟩ := h
    exact ⟨source, dest, hs.mono ho⟩
  · obtain ⟨source, dest, hs⟩ := h
    exact ⟨source, dest, hs.mono ho⟩
  · trivial

theorem step_pcOk {i : Input} {p : Pc} (hi : RateOk P i p) (hp : PcOk P p s.db)
    (h : step i p s = some (q, s')) : PcOk P q s'.db := by
  cases step_statement h with
  | readsSource source hne hmine hfind => exact ⟨hne, hmine, owner_of_find hfind⟩
  | sameCurrency dest hfind hcur =>
      obtain ⟨hne, hmine, hsource⟩ := hp
      exact ⟨_, _, hne, hsource, owner_of_find hfind, hmine, .inl ⟨hcur, rfl, rfl⟩⟩
  | otherCurrency dest hfind hcur =>
      obtain ⟨hne, hmine, hsource⟩ := hp
      exact ⟨hne, hmine, hsource, owner_of_find hfind, hcur⟩
  | rated rate =>
      obtain ⟨hne, hmine, hsource, hdest, hcur⟩ := hp
      exact ⟨_, _, hne, hsource, hdest, hmine, .inr ⟨hcur, rate, rfl, rfl, hi⟩⟩
  | findsSender sender =>
      obtain ⟨source, dest, hs⟩ := hp
      exact ⟨source, dest, hs.distinct, hs.source, hs.dest, hs.mine, hs.credit⟩
  | emits q emitted hq =>
      cases q with
      | transaction body draw => cases hq
      | readDestination source actor dto draw => cases hq
      | getRate source dest actor dto draw => cases hq
      | findSender a draw => cases hq
      | _ => trivial
  | _ => trivial

/-! ## Ledger changes -/

/-- What one step of the specification machine does to the ledger. -/
inductive Change (P : ℤ → Decimal → Prop) (d d' : Db) : Prop where
  | single (h : Single d d')
  | block (body : TxnBody) (draw : Draw) (h : Effect d d' body draw)
      (hok : PcOk P (.transaction body draw) d)

theorem moneyStep_change {a : LockedBlocks.Input Input HttpException} {p : Pc}
    (hp : PcOk P p s.db) (h : moneyStep a p s = some (q, s')) : Change P s.db s'.db := by
  obtain ⟨i, -, hstep⟩ | ⟨body, draw, r, rfl, hc, -⟩ | ⟨body, draw, e, -, -, rfl⟩ :=
    moneyStep_cases h
  · exact .single (step_single hstep)
  · exact .block body draw (block_effect hc) hp
  · exact .single (.keep rfl rfl)

theorem moneyStep_pcOk {a : LockedBlocks.Input Input HttpException} {p : Pc}
    (ha : ∀ i, a = .step i → RateOk P i p) (hp : PcOk P p s.db)
    (h : moneyStep a p s = some (q, s')) : PcOk P q s'.db := by
  obtain ⟨i, hi, hstep⟩ | ⟨body, draw, r, -, -, rfl⟩ | ⟨body, draw, e, -, rfl, -⟩ :=
    moneyStep_cases h
  · exact step_pcOk (ha i hi) hp hstep
  · trivial
  · trivial

end PcOk

/-! ## Invariants along runs -/

/-- Every rate the provider answers in the run satisfies `P`, together with the
amount of the transfer that asked for it. -/
def RatesSatisfy (P : ℤ → Decimal → Prop) (tr : Trace) : Prop :=
  ∀ e ∈ tr, ∀ c i, e.label = (c, .step i) → RateOk P i (e.pre.client c).pc

theorem start_owned (P : ℤ → Decimal → Prop) {G : Db → Prop} {s : Shared} (h₀ : G s.db) :
    Owned (fun s => G s.db) (fun p s => PcOk P p s.db) (start s).abs :=
  ⟨h₀, fun _ => trivial⟩

/-- The specification machine sees the same rates. -/
theorem run_atomic {P : ℤ → Decimal → Prop} {s : Shared} {t : Machine} {tr : Trace}
    (h : Run next (start s) tr t) (hrates : RatesSatisfy P tr) :
    ∃ us, Run (Interleaving.next moneyStep) (start s).abs us t.abs ∧
      ∀ e ∈ us, ∀ i, e.label.2 = .step i → RateOk P i (e.pre.client e.label.1) := by
  obtain ⟨us, hus, -, hlab⟩ := run_refines (Q := program) (State.idle_ok _ _) h
  refine ⟨us, hus, fun e he i hi => ?_⟩
  obtain ⟨e', he', hl, hpre, -⟩ := hlab e he i hi
  rw [← hpre]
  exact hrates e' he' _ i hl

section Invariant
variable {P : ℤ → Decimal → Prop} {G : Db → Prop}
  (hG : ∀ d d', G d → Change P d d' → G d')
include hG

theorem owned_of_change (i : LockedBlocks.Input Input HttpException) (p : Pc) (s : Shared)
    (q : Pc) (s' : Shared) (hi : ∀ j, i = .step j → RateOk P j p) (hd : G s.db)
    (hp : PcOk P p s.db) (h : moneyStep i p s = some (q, s')) :
    G s'.db ∧ PcOk P q s'.db :=
  ⟨hG _ _ hd (moneyStep_change hp h), moneyStep_pcOk hi hp h⟩

theorem run_ledger {s : Shared} {t : Machine} {tr : Trace} (h₀ : G s.db)
    (h : Run next (start s) tr t) (hrates : RatesSatisfy P tr) :
    Owned (fun s => G s.db) (fun p s => PcOk P p s.db) t.abs :=
  run_owned (Q := program) (G := fun s => G s.db) (A := fun p s => PcOk P p s.db)
    (fun i p d p' d' hi hd hp hs => owned_of_change hG i p d p' d' hi hd hp hs)
    (fun _ _ _ _ _ _ _ _ _ hq hs => hq.mono (moneyStep_owner hs))
    (State.idle_ok _ _) (start_owned P h₀) h hrates

/-- A property of the tables that every change keeps holds along every run. -/
theorem run_invariant {s : Shared} {t : Machine} {tr : Trace} (h₀ : G s.db)
    (h : Run next (start s) tr t) (hrates : RatesSatisfy P tr) :
    G t.data.db :=
  (run_ledger hG h₀ h hrates).data

end Invariant

/-- What a call has established by the end of a run. -/
theorem run_pcOk {P : ℤ → Decimal → Prop} {s : Shared} {t : Machine} {tr : Trace}
    (h : Run next (start s) tr t) (hrates : RatesSatisfy P tr) (c : ℕ) :
    PcOk P (t.client c).pc t.data.db :=
  (run_ledger (G := fun _ => True) (fun _ _ _ _ => trivial) trivial h hrates).client c

/-! ## Calls that have not committed -/

theorem step_before {i : Input} {p q : Pc} {s s' : Shared} (h : step i p s = some (q, s'))
    (hq : afterCommit q = false) : s'.db = s.db ∧ afterCommit p = false := by
  cases step_statement h with
  | fails e draw hp =>
      refine ⟨rfl, Bool.eq_false_iff.mpr fun hafter => ?_⟩
      rw [drawOf_afterCommit hafter] at hp
      cases hp
  | createsWallet db hdb => cases hq
  | requests amount db hamount hdb => cases hq
  | emits q emitted hq' =>
      rw [hq'] at hq
      cases hq
  | publishes => cases hq
  | _ => exact ⟨rfl, rfl⟩

theorem moneyStep_before {a : LockedBlocks.Input Input HttpException} {p q : Pc} {s s' : Shared}
    (h : moneyStep a p s = some (q, s')) (hq : afterCommit q = false) :
    s'.db = s.db ∧ afterCommit p = false := by
  obtain ⟨i, -, hstep⟩ | ⟨body, draw, r, -, -, rfl⟩ | ⟨body, draw, e, rfl, rfl, rfl⟩ :=
    moneyStep_cases h
  · exact step_before hstep hq
  · cases hq
  · exact ⟨rfl, rfl⟩

/-- An event of a run changes nothing visible, or it is one step of the
specification machine by the same call. -/
theorem event_cases {s : Shared} {t : Machine} {tr : Trace} (h : Run next (start s) tr t) :
    ∀ e ∈ tr, e.post.data = e.pre.data ∨ ∃ a q,
      moneyStep a (e.pre.client e.label.1).pc e.pre.data = some (q, e.post.data) := by
  intro e he
  have hok : e.pre.Ok program :=
    h.pre_invariant (State.Ok program) (State.idle_ok _ _)
      (fun _ _ _ hs hn => (next_refines hs hn).1) e he
  obtain ⟨-, habs | ⟨i, -, hstep⟩⟩ := next_refines hok (h.event_next e he)
  · exact .inl (congrArg Pool.data habs)
  · obtain ⟨q, s', hq, ht⟩ := next_cases hstep
    have hdata : e.post.data = s' := congrArg Pool.data ht
    exact .inr ⟨i, q, hdata ▸ hq⟩

/-- A call whose commit does not lie behind it has changed no table. -/
theorem uncommitted_keeps {s : Shared} {t : Machine} {tr : Trace}
    (h : Run next (start s) tr t) {c : ℕ} (hc : afterCommit (t.client c).pc = false) :
    ∀ e ∈ tr, e.label.1 = c → e.post.data.db = e.pre.data.db := by
  induction h with
  | start => simp
  | @step tr s t l hrun hn ih =>
      have hkeep : afterCommit (s.client c).pc = false ∧
          (l.1 = c → t.data.db = s.data.db) := by
        obtain ⟨-, habs | ⟨i, -, hstep⟩⟩ := next_refines (run_ok (State.idle_ok _ _) hrun) hn
        · have hpc : (t.client c).pc = (s.client c).pc :=
            congrFun (congrArg Pool.client habs) c
          exact ⟨hpc ▸ hc, fun _ => congrArg (fun p : Pool Shared Pc => p.data.db) habs⟩
        · by_cases hl : l.1 = c
          · obtain ⟨q, s', hq, ht⟩ := next_cases hstep
            have hclient : (t.client c).pc = q := by
              have hct := congrFun (congrArg Pool.client ht) c
              rw [← hl] at hct ⊢
              exact hct.trans (Function.update_self _ _ _)
            obtain ⟨hdb, hp⟩ := moneyStep_before hq (hclient ▸ hc)
            exact ⟨hl ▸ hp, fun _ => (congrArg (fun p : Pool Shared Pc => p.data.db) ht).trans hdb⟩
          · have hpc : (t.client c).pc = (s.client c).pc := next_other hstep (fun he => hl he.symm)
            exact ⟨hpc ▸ hc, fun he => absurd he hl⟩
      intro e he hec
      rcases List.mem_append.mp he with he | he
      · exact ih hkeep.1 e he hec
      · rw [List.mem_singleton] at he
        subst he
        exact hkeep.2 hec

/-! ## Rows that wait for a review -/

/-- Only withdrawal requests are ever pending. -/
def PendingOk (d : Db) : Prop :=
  ∀ t ∈ d.transactions.rows, t.status = .pending →
    t.type = .withdrawal ∧ t.transferId = none ∧ 1 ≤ t.amount.val

section PendingOk
variable {d d' : Db}

theorem pendingOk_empty : PendingOk Db.empty := by
  simp [PendingOk, Db.empty]

theorem PendingOk.insert {row : Transaction} (h : PendingOk d)
    (hrow : row.status = .pending →
      row.type = .withdrawal ∧ row.transferId = none ∧ 1 ≤ row.amount.val)
    (ht : d.transactions.insert row = some d'.transactions) : PendingOk d' := by
  intro t hmem hpending
  rcases (Table.mem_insert ht).mp hmem with hold | rfl
  · exact h t hold hpending
  · exact hrow hpending

theorem PendingOk.settle {id : Uuid} {settlement : Settlement} (h : PendingOk d)
    (ht : d'.transactions = (d.settle id settlement).transactions) : PendingOk d' := by
  intro t hmem hpending
  rw [ht] at hmem
  rcases Db.mem_settle.mp hmem with ⟨hold, -⟩ | ⟨r, -, rfl⟩
  · exact h t hold hpending
  · cases settlement <;> cases hpending

theorem PendingOk.single (h : PendingOk d) (hs : Single d d') : PendingOk d' := by
  cases hs with
  | keep _ ht => rwa [PendingOk, ht]
  | openWallet w _ hw =>
      obtain ⟨-, ht, -⟩ := Db.createWallet_cases hw
      rwa [PendingOk, ht]
  | request id actor dto draw amount hamount hrow =>
      obtain ⟨ht, -⟩ := Db.createTransaction_cases hrow
      refine h.insert (fun _ => ⟨rfl, rfl, ?_⟩) ht
      change 1 ≤ amount.val
      exact hamount ▸ dto.min_one

theorem PendingOk.effect {body : TxnBody} {draw : Draw} (h : PendingOk d)
    (he : Effect d d' body draw) : PendingOk d' := by
  have happroved : ∀ {row : Transaction}, row.status = .approved → row.status = .pending →
      row.type = .withdrawal ∧ row.transferId = none ∧ 1 ≤ row.amount.val := by
    intro row ha hp
    rw [ha] at hp
    cases hp
  cases he with
  | post wallet row after _ hposts _ _ _ _ ht =>
      exact h.insert (happroved hposts.status) ht
  | approve wallet row after _ _ _ _ _ ht => exact h.settle ht
  | reject row note' _ _ _ ht => exact h.settle ht
  | transfer source dest rate amount credited fromAfter toAfter _ _ _ _ _ _ _ _ _ mid hout hin =>
      intro t hmem hpending
      rcases (Table.mem_insert hin).mp hmem with hmid | rfl
      · rcases (Table.mem_insert hout).mp hmid with hold | rfl
        · exact h t hold hpending
        · cases hpending
      · cases hpending

theorem PendingOk.change {P : ℤ → Decimal → Prop} (h : PendingOk d) (hc : Change P d d') :
    PendingOk d' := by
  cases hc with
  | single hs => exact h.single hs
  | block body draw he _ => exact h.effect he

end PendingOk

/-! ## Labels of whole calls, for concrete runs -/

/-- Identifiers counted from `n`. -/
def numbered (n : ℕ) : Draw := ⟨n, n + 1, n + 2, n + 3, n + 4, n, ⟨"", none, none⟩⟩

def customer (id : Uuid) : AuthUser := ⟨id, none, some "user", false⟩

/-- Client `c` runs a block of `n` statements and commits. -/
def commitBlock (c n : ℕ) : List (ℕ × Act Input) :=
  (c, .enter) :: List.replicate n (c, .advance) ++ [(c, .commit)]

def openWallet (c : ℕ) (user : Uuid) (currency : String) (rowId : ℕ) : List (ℕ × Act Input) :=
  [(c, .step (.call (.createWallet (customer user) ⟨"", currency⟩) (numbered rowId))),
    (c, .step .go)]

def depositInto (c : ℕ) (user wallet : Uuid) (dto : MoneyAmountDto) (rowId : ℕ) :
    List (ℕ × Act Input) :=
  [(c, .step (.call (.deposit wallet (customer user) dto) (numbered rowId))), (c, .step .go)] ++
    commitBlock c 5 ++ [(c, .step (.sockets 1 true))]

def transferAcross (c : ℕ) (user source : Uuid) (dto : TransferDto) (rate : Decimal)
    (rowId : ℕ) : List (ℕ × Act Input) :=
  [(c, .step (.call (.transfer source (customer user) dto) (numbered rowId))), (c, .step .go),
    (c, .step .go), (c, .step (.rate (.ok rate))), (c, .step .go)] ++
    commitBlock c 8 ++ [(c, .step (.sockets 2 true))]

/-- Two users, a dollar and a euro wallet, ten dollars, and one transfer across. -/
def acrossCurrencies (dto : TransferDto) (rate : Decimal) : List (ℕ × Act Input) :=
  openWallet 0 1 "USD" 10 ++ openWallet 1 2 "EUR" 11 ++
    depositInto 2 1 10 ⟨1000, none, by decide⟩ 20 ++ transferAcross 3 1 10 dto rate 30

def rateOf : ℕ × Act Input → Option Decimal
  | (_, .step (.rate (.ok rate))) => some rate
  | _ => none

theorem ratesSatisfy_of_labels {P : ℤ → Decimal → Prop} {tr : Trace}
    (h : ∀ rate ∈ (tr.map Event.label).filterMap rateOf, ∀ amount, 1 ≤ amount → P amount rate) :
    RatesSatisfy P tr := by
  intro e he c i hl
  unfold RateOk
  split
  · next rate _ _ _ dto _ _ =>
      refine h rate (List.mem_filterMap.mpr ⟨e.label, List.mem_map_of_mem he, ?_⟩)
        dto.amount dto.min_one
      rw [hl, rateOf]
  · trivial

end MaxOne.MoneyRuns
