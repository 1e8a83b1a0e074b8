import MaxOne.EarnedAnswers
import MaxOne.RatesService

/-!
# One key for one logical send

The money screens of the customer app in front of the interceptor. A tab holds what
its form says, the idempotency key of the operation it has begun, the request it
waits for and the receipts it has shown. The network may lose a request or its
answer, keep a request for later or deliver it again; other tabs, devices and users
send whatever they like under keys of their own. A key is drawn when an operation is
first submitted, used again for every retry, also of an edited form, and dropped
with the receipt, or with the screen when it is left.
-/
namespace MaxOne.LogicalSends
open Library Library.Runs Library.Interleaving Library.ScriptValue MaxOne.Schema MaxOne.Idempotency
  MaxOne.EarnedAnswers

/-! ## The screens -/

/-- What a screen posts. In a wizard the form is out of reach while a request waits. -/
structure Screen (V : Type) where
  url : V → String
  body : V → String
  wizard : Bool

structure Transfer where
  toWalletId : String
  amount : ℕ
  note : String
  deriving DecidableEq

structure Exchange where
  fromId : String
  toId : String
  amount : ℕ
  deriving DecidableEq

structure MoneyRequest where
  amount : ℕ
  note : String
  deriving DecidableEq

/-- `note: values.note || undefined`, a field that is undefined being left out. -/
def noteField (note : String) : List (String × Value) :=
  if note = "" then [] else [("note", .text note)]

section Screens
variable (stringify : Value → String)

/-- `send` of `SendMoneyWizard`. -/
def sendMoneyWizard (myWalletId : String) : Screen Transfer where
  url _ := "/wallets/" ++ myWalletId ++ "/transfers"
  body v := stringify (.object
    ([("toWalletId", .text v.toWalletId), ("amount", .number (.finite v.amount))] ++
      noteField v.note))
  wizard := true

/-- `submit` of `ExchangeScreen`, whose inputs stay within reach: the amount, and the two wallets,
which `swap` and `pick` change. -/
def exchangeScreen : Screen Exchange where
  url v := "/wallets/" ++ v.fromId ++ "/transfers"
  body v := stringify (.object
    [("toWalletId", .text v.toId), ("amount", .number (.finite v.amount))])
  wizard := false

/-- `submit` of `MoneyRequestWizard`. -/
def moneyRequestWizard (deposit : Bool) (walletId : String) : Screen MoneyRequest where
  url _ := "/wallets/" ++ walletId ++ (if deposit then "/deposits" else "/withdrawals")
  body v := stringify (.object ([("amount", .number (.finite v.amount))] ++ noteField v.note))
  wizard := true

end Screens

/-! ## A tab and the world around it -/

/-- The screen that is mounted, and what the tab has seen: `abandoned` are the keys of screens that
were left without a receipt. -/
structure Tab (V : Type) where
  values : Option V
  /-- `ref.current` of `useIdempotencyKey` -/
  key : Option String
  pending : Option (V × String)
  receipts : List (V × String)
  abandoned : List String

/-- `drawn` are the keys that exist, `sent` what has left the tab, `origin` what a
request at the interceptor is a copy of. -/
structure World (V : Type) where
  tab : Tab V
  minted : List String
  drawn : List String
  sent : List (V × String)
  origin : ℕ → Option (V × String)
  pool : Pool Shared Pc

inductive Action (V : Type) where
  | fill (v : V)
  /-- `fresh` is what `uuid()` draws, should a key be needed -/
  | submit (fresh : String)
  /-- a copy of a request passes the guards and reaches the interceptor -/
  | arrive (c : ℕ) (r : V × String)
  | foreign (c : ℕ) (r : Request)
  | backend (c : ℕ) (i : Input)
  | reply (c : ℕ)
  /-- no answer, or one of a guard -/
  | lost
  /-- the screen is unmounted; it may be opened again -/
  | leave

section World
variable {V : Type} (screen : Screen V) (sha256 : String → String) (user : Uuid)

/-- The request as the interceptor sees it. -/
def request (r : V × String) : Request where
  userId := some user
  key := some r.2
  required := true
  method := "POST"
  url := screen.url r.1
  body := screen.body r.1

def World.withTab (w : World V) (tab : Tab V) : World V := { w with tab := tab }

/-- `apiRequest` with the key `k`. -/
def World.dispatch (w : World V) (v : V) (k : String) : World V :=
  { w with
    tab := { w.tab with pending := some (v, k) }
    sent := (v, k) :: w.sent }

/-- `idem.key()` of an operation that has none. -/
def World.mint (w : World V) (k : String) : World V :=
  { w with
    tab := { w.tab with key := some k }
    minted := k :: w.minted
    drawn := k :: w.drawn }

def World.fail (w : World V) : World V := w.withTab { w.tab with pending := none }

/-- `idem.reset()` and the receipt; a wizard is done with its values. -/
def World.receipt (w : World V) (r : V × String) : World V :=
  w.withTab
    { values := if screen.wizard then none else w.tab.values
      key := none
      pending := none
      receipts := r :: w.tab.receipts
      abandoned := w.tab.abandoned }

/-- The reference goes with the screen, and nobody waits for the answer. -/
def World.leave (w : World V) : World V :=
  w.withTab
    { values := none
      key := none
      pending := none
      receipts := w.tab.receipts
      abandoned := w.tab.key.toList ++ w.tab.abandoned }

def World.answer (w : World V) (r : V × String) : Pc → Option (World V)
  | .done statusCode _ => some (if RatesService.isOk statusCode then w.receipt screen r else w.fail)
  | .failed _ => some w.fail
  | _ => none

/-- The key of a request, if it is one of this user. -/
def keyOf (r : Request) : Option String := if r.userId = some user then r.key else none

def World.serve (w : World V) (l : ℕ × Input) : Option (World V) :=
  (Idempotency.next sha256 l w.pool).map fun pool => { w with pool := pool }

variable [DecidableEq V]

def next : Action V → World V → Option (World V)
  | .fill v, w =>
      if screen.wizard ∧ w.tab.pending ≠ none then none
      else some (w.withTab { w.tab with values := some v })
  | .submit fresh, w =>
      match w.tab.values, w.tab.pending with
      | some v, none =>
          match w.tab.key with
          | some k => some (w.dispatch v k)
          | none => if fresh = "" ∨ fresh ∈ w.drawn then none else some ((w.mint fresh).dispatch v fresh)
      | _, _ => none
  | .arrive c r, w =>
      if r ∈ w.sent then
        (w.serve sha256 (c, .request (request screen user r))).map fun w' =>
          { w' with origin := Function.update w.origin c (some r) }
      else none
  | .foreign c r, w =>
      if (keyOf user r).any (· ∈ w.minted) then none
      else
        (w.serve sha256 (c, .request r)).map fun w' =>
          { w' with
            drawn := (keyOf user r).toList ++ w.drawn
            origin := Function.update w.origin c none }
  | .backend _ (.request _), _ => none
  | .backend c i, w => w.serve sha256 (c, i)
  | .reply c, w =>
      match w.tab.pending with
      | some r => if w.origin c = some r then w.answer screen r (w.pool.client c) else none
      | none => none
  | .lost, w => if w.tab.pending = none then none else some w.fail
  | .leave, w => some w.leave

/-- An empty form, and no request anywhere. -/
def start (keys : KeyTable) : World V where
  tab := ⟨none, none, none, [], []⟩
  minted := []
  drawn := (keys.table.rows.filter fun row => row.userId = user).map IdempotencyKey.key
  sent := []
  origin _ := none
  pool := Idempotency.start keys

end World

/-! ## The interceptor's part of a run -/

section Pool
variable {V : Type} [DecidableEq V] {screen : Screen V} {sha256 : String → String} {user : Uuid}
  {a : Action V} {w w' : World V} {keys : KeyTable} {tr : List (Event (Action V) (World V))}

def backendLabel (screen : Screen V) (user : Uuid) : Action V → Option (ℕ × Input)
  | .arrive c r => some (c, .request (request screen user r))
  | .foreign c r => some (c, .request r)
  | .backend c i => some (c, i)
  | _ => none

def backendEvent (screen : Screen V) (user : Uuid) (e : Event (Action V) (World V)) :
    Option (Event (ℕ × Input) (Pool Shared Pc)) :=
  (backendLabel screen user e.label).map fun l => ⟨e.pre.pool, l, e.post.pool⟩

/-- What the interceptor sees of a run. -/
def backendTrace (screen : Screen V) (user : Uuid) (tr : List (Event (Action V) (World V))) :
    Idempotency.Trace :=
  tr.filterMap (backendEvent screen user)

omit [DecidableEq V] in
theorem serve_cases {l : ℕ × Input} (h : w.serve sha256 l = some w') :
    ∃ pool, Idempotency.next sha256 l w.pool = some pool ∧ w' = { w with pool := pool } := by
  obtain ⟨pool, hpool, rfl⟩ := Option.map_eq_some_iff.mp h
  exact ⟨pool, hpool, rfl⟩

omit [DecidableEq V] in
theorem answer_cases {r : V × String} {p : Pc} (h : w.answer screen r p = some w') :
    (w' = w.receipt screen r ∧ ∃ statusCode body, p = .done statusCode body) ∨ w' = w.fail := by
  cases p with
  | done statusCode body =>
      simp only [World.answer, Option.some.injEq] at h
      split_ifs at h with hok
      · exact .inl ⟨h.symm, statusCode, body, rfl⟩
      · exact .inr h.symm
  | failed err => exact .inr (Option.some.inj h).symm
  | _ => cases h

/-- Everything a step can do. -/
inductive Moves (screen : Screen V) (sha256 : String → String) (user : Uuid) (w : World V) :
    Action V → World V → Prop where
  | fill (v : V) (hlocked : screen.wizard → w.tab.pending = none) :
      Moves screen sha256 user w (.fill v) (w.withTab { w.tab with values := some v })
  | retry (fresh : String) (v : V) (k : String) (hv : w.tab.values = some v)
      (hkey : w.tab.key = some k) :
      Moves screen sha256 user w (.submit fresh) (w.dispatch v k)
  | begin (fresh : String) (v : V) (hv : w.tab.values = some v) (hkey : w.tab.key = none)
      (hne : fresh ≠ "") (hfresh : fresh ∉ w.drawn) :
      Moves screen sha256 user w (.submit fresh) ((w.mint fresh).dispatch v fresh)
  | arrive (c : ℕ) (r : V × String) (hr : r ∈ w.sent) (pool : Pool Shared Pc)
      (hpool : Idempotency.next sha256 (c, .request (request screen user r)) w.pool = some pool) :
      Moves screen sha256 user w (.arrive c r)
        { w with pool := pool, origin := Function.update w.origin c (some r) }
  | foreign (c : ℕ) (r : Request) (hkey : ∀ k ∈ keyOf user r, k ∉ w.minted) (pool : Pool Shared Pc)
      (hpool : Idempotency.next sha256 (c, .request r) w.pool = some pool) :
      Moves screen sha256 user w (.foreign c r)
        { w with
          pool := pool
          drawn := (keyOf user r).toList ++ w.drawn
          origin := Function.update w.origin c none }
  | backend (c : ℕ) (i : Input) (pool : Pool Shared Pc)
      (hpool : Idempotency.next sha256 (c, i) w.pool = some pool) :
      Moves screen sha256 user w (.backend c i) { w with pool := pool }
  | receipt (c : ℕ) (r : V × String) (hr : w.tab.pending = some r) (horigin : w.origin c = some r)
      (statusCode : ℕ) (body : Option String) (hdone : w.pool.client c = .done statusCode body) :
      Moves screen sha256 user w (.reply c) (w.receipt screen r)
  | fail (b : Action V) (hlabel : backendLabel screen user b = none) :
      Moves screen sha256 user w b w.fail
  | leave : Moves screen sha256 user w .leave w.leave

theorem next_moves (h : next screen sha256 user a w = some w') :
    Moves screen sha256 user w a w' := by
  cases a with
  | fill v =>
      simp only [next] at h
      split_ifs at h with hlocked
      obtain rfl := Option.some.inj h
      exact .fill v fun hwizard => by_contra fun hne => hlocked ⟨hwizard, hne⟩
  | submit fresh =>
      simp only [next] at h
      split at h
      · next v hv hpending =>
          split at h
          · next k hkey =>
              obtain rfl := Option.some.inj h
              exact .retry fresh v k hv hkey
          · next hkey =>
              split_ifs at h with hfresh
              rw [not_or] at hfresh
              obtain rfl := Option.some.inj h
              exact .begin fresh v hv hkey hfresh.1 hfresh.2
      · cases h
  | arrive c r =>
      simp only [next] at h
      split_ifs at h with hr
      obtain ⟨u, hu, rfl⟩ := Option.map_eq_some_iff.mp h
      obtain ⟨pool, hpool, rfl⟩ := serve_cases hu
      exact .arrive c r hr pool hpool
  | foreign c r =>
      simp only [next] at h
      split_ifs at h with hkey
      obtain ⟨u, hu, rfl⟩ := Option.map_eq_some_iff.mp h
      obtain ⟨pool, hpool, rfl⟩ := serve_cases hu
      refine .foreign c r (fun k hk hminted => hkey ?_) pool hpool
      rw [Option.mem_def] at hk
      simp [hk, hminted]
  | backend c i =>
      have hserve : w.serve sha256 (c, i) = some w' := by
        cases i with
        | request r => cases h
        | _ => exact h
      obtain ⟨pool, hpool, rfl⟩ := serve_cases hserve
      exact .backend c i pool hpool
  | reply c =>
      simp only [next] at h
      split at h
      · next r hr =>
          split_ifs at h with horigin
          obtain ⟨rfl, statusCode, body, hdone⟩ | rfl := answer_cases h
          · exact .receipt c r hr horigin statusCode body hdone
          · exact .fail _ rfl
      · cases h
  | lost =>
      simp only [next] at h
      split_ifs at h
      obtain rfl := Option.some.inj h
      exact .fail _ rfl
  | leave =>
      obtain rfl := Option.some.inj h
      exact .leave

omit [DecidableEq V] in
theorem Moves.pool (h : Moves screen sha256 user w a w') :
    (backendLabel screen user a = none ∧ w'.pool = w.pool) ∨
      ∃ l, backendLabel screen user a = some l ∧
        Idempotency.next sha256 l w.pool = some w'.pool := by
  cases h with
  | arrive c r hr pool hpool => exact .inr ⟨_, rfl, hpool⟩
  | foreign c r hkey pool hpool => exact .inr ⟨_, rfl, hpool⟩
  | backend c i pool hpool => exact .inr ⟨_, rfl, hpool⟩
  | fail b hlabel => exact .inl ⟨hlabel, rfl⟩
  | _ => exact .inl ⟨rfl, rfl⟩

omit [DecidableEq V] in
theorem backendTrace_concat (e : Event (Action V) (World V)) :
    backendTrace screen user (tr ++ [e]) =
      backendTrace screen user tr ++ (backendEvent screen user e).toList := by
  unfold backendTrace
  rw [List.filterMap_append]
  cases h : backendEvent screen user e <;> simp [h]

theorem run_pool (h : Run (next screen sha256 user) (start user keys) tr w) :
    Run (Idempotency.next sha256) (Idempotency.start keys) (backendTrace screen user tr) w.pool := by
  induction h with
  | start => exact .start
  | @step tr s t l _ hn ih =>
      rw [backendTrace_concat]
      rcases (next_moves hn).pool with ⟨hnone, hpool⟩ | ⟨lb, hsome, hpool⟩
      · simpa [backendEvent, hnone, hpool] using ih
      · simpa [backendEvent, hsome] using Run.step lb ih hpool

end Pool

/-! ## Keys and receipts -/

section Tab
variable {V : Type} [DecidableEq V] {screen : Screen V} {sha256 : String → String} {user : Uuid}
  {a : Action V} {w w' : World V} {keys : KeyTable} {tr : List (Event (Action V) (World V))}

def receiptKeys (w : World V) : List String := w.tab.receipts.map Prod.snd

/-- What holds of the keys of a tab; `old` are the keys there were before it. -/
structure TabOk (old : List String) (w : World V) : Prop where
  old_drawn : ∀ k ∈ old, k ∈ w.drawn
  minted_drawn : ∀ k ∈ w.minted, k ∈ w.drawn ∧ k ∉ old ∧ k ≠ ""
  receipts_nodup : (receiptKeys w).Nodup
  receipts_minted : ∀ k ∈ receiptKeys w, k ∈ w.minted
  current : ∀ k, w.tab.key = some k → k ∈ w.minted ∧ k ∉ receiptKeys w
  covered : ∀ k ∈ w.minted, k ∈ receiptKeys w ∨ k ∈ w.tab.abandoned ∨ w.tab.key = some k
  sent : ∀ r ∈ w.sent, r.2 ∈ w.minted
  pending : ∀ r, w.tab.pending = some r → w.tab.key = some r.2
  origin : ∀ c r, w.origin c = some r → r ∈ w.sent

section TabOk
variable {old : List String}

omit [DecidableEq V] in
/-- A step that leaves the keys of the tab alone. -/
theorem TabOk.same (h : TabOk old w) (hkey : w'.tab.key = w.tab.key)
    (hreceipts : w'.tab.receipts = w.tab.receipts)
    (habandoned : w'.tab.abandoned = w.tab.abandoned) (hminted : w'.minted = w.minted)
    (hdrawn : ∀ k ∈ w.drawn, k ∈ w'.drawn) (hsent : ∀ r ∈ w'.sent, r.2 ∈ w.minted)
    (hpending : ∀ r, w'.tab.pending = some r → w'.tab.key = some r.2)
    (horigin : ∀ c r, w'.origin c = some r → r ∈ w'.sent) : TabOk old w' := by
  have hkeys : receiptKeys w' = receiptKeys w := by rw [receiptKeys, hreceipts, receiptKeys]
  refine ⟨fun k hk => hdrawn k (h.old_drawn k hk), ?_, ?_, ?_, ?_, ?_, ?_, hpending, horigin⟩
  · rw [hminted]
    exact fun k hk => ⟨hdrawn k (h.minted_drawn k hk).1, (h.minted_drawn k hk).2⟩
  · rw [hkeys]
    exact h.receipts_nodup
  · rw [hkeys, hminted]
    exact h.receipts_minted
  · rw [hkey, hkeys, hminted]
    exact h.current
  · rw [hkey, hkeys, habandoned, hminted]
    exact h.covered
  · rw [hminted]
    exact hsent

omit [DecidableEq V] in
theorem TabOk.dispatch (h : TabOk old w) {v : V} {k : String} (hkey : w.tab.key = some k) :
    TabOk old (w.dispatch v k) := by
  have hk := (h.current k hkey).1
  refine h.same rfl rfl rfl rfl (fun _ hd => hd) (fun r hr => ?_) (fun r hr => ?_) fun c r hr => ?_
  · rcases List.mem_cons.mp hr with rfl | hr
    · exact hk
    · exact h.sent r hr
  · rw [← Option.some.inj hr]
    exact hkey
  · exact List.mem_cons_of_mem _ (h.origin c r hr)

omit [DecidableEq V] in
/-- A new key is one nobody has used. -/
theorem TabOk.mint (h : TabOk old w) {k : String} (hkey : w.tab.key = none) (hne : k ≠ "")
    (hfresh : k ∉ w.drawn) : TabOk old (w.mint k) where
  old_drawn k' hk' := List.mem_cons_of_mem _ (h.old_drawn k' hk')
  minted_drawn k' hk' := by
    rcases List.mem_cons.mp hk' with rfl | hk'
    · exact ⟨List.mem_cons_self, fun hold => hfresh (h.old_drawn _ hold), hne⟩
    · exact ⟨List.mem_cons_of_mem _ (h.minted_drawn k' hk').1, (h.minted_drawn k' hk').2⟩
  receipts_nodup := h.receipts_nodup
  receipts_minted k' hk' := List.mem_cons_of_mem _ (h.receipts_minted k' hk')
  current k' hk' := by
    obtain rfl : k = k' := Option.some.inj hk'
    refine ⟨List.mem_cons_self, fun hmem => hfresh ?_⟩
    exact (h.minted_drawn k (h.receipts_minted k hmem)).1
  covered k' hk' := by
    rcases List.mem_cons.mp hk' with rfl | hk'
    · exact .inr (.inr rfl)
    · rcases h.covered k' hk' with hmem | hleft | hmine
      · exact .inl hmem
      · exact .inr (.inl hleft)
      · rw [hkey] at hmine
        cases hmine
  sent r hr := List.mem_cons_of_mem _ (h.sent r hr)
  pending r hr := by
    have hmine := h.pending r hr
    rw [hkey] at hmine
    cases hmine
  origin := h.origin

omit [DecidableEq V] in
theorem TabOk.receipt (h : TabOk old w) {r : V × String} (hr : w.tab.pending = some r) :
    TabOk old (w.receipt screen r) := by
  have hkey := h.pending r hr
  obtain ⟨hminted, hnew⟩ := h.current r.2 hkey
  refine ⟨h.old_drawn, h.minted_drawn, ?_, ?_, fun k hk => (by cases hk), fun k hk => ?_, h.sent,
    fun _ hp => (by cases hp), h.origin⟩
  · exact List.nodup_cons.mpr ⟨hnew, h.receipts_nodup⟩
  · intro k hk
    rcases List.mem_cons.mp hk with rfl | hk
    · exact hminted
    · exact h.receipts_minted k hk
  · rcases h.covered k hk with hmem | hleft | hmine
    · exact .inl (List.mem_cons_of_mem _ hmem)
    · exact .inr (.inl hleft)
    · rw [hkey, Option.some.injEq] at hmine
      exact .inl (hmine ▸ List.mem_cons_self)

omit [DecidableEq V] in
/-- A key that was in use when its screen was left is abandoned. -/
theorem TabOk.leave (h : TabOk old w) : TabOk old w.leave where
  old_drawn := h.old_drawn
  minted_drawn := h.minted_drawn
  receipts_nodup := h.receipts_nodup
  receipts_minted := h.receipts_minted
  current k hk := by cases hk
  covered k hk := by
    rcases h.covered k hk with hmem | hleft | hmine
    · exact .inl hmem
    · exact .inr (.inl (List.mem_append_right _ hleft))
    · refine .inr (.inl (List.mem_append_left _ ?_))
      rw [hmine]
      exact List.mem_cons_self
  sent := h.sent
  pending r hr := by cases hr
  origin := h.origin

omit [DecidableEq V] in
theorem TabOk.next (h : TabOk old w) (hm : Moves screen sha256 user w a w') : TabOk old w' := by
  cases hm with
  | fill v hlocked => exact h.same rfl rfl rfl rfl (fun _ hd => hd) h.sent h.pending h.origin
  | retry fresh v k hv hkey => exact h.dispatch hkey
  | begin fresh v hv hkey hne hfresh => exact (h.mint hkey hne hfresh).dispatch rfl
  | arrive c r hr pool hpool =>
      refine h.same rfl rfl rfl rfl (fun _ hd => hd) h.sent h.pending fun c' r' hr' => ?_
      dsimp only at hr'
      by_cases hc : c' = c
      · rw [hc, Function.update_self, Option.some.injEq] at hr'
        exact hr' ▸ hr
      · rw [Function.update_of_ne hc] at hr'
        exact h.origin c' r' hr'
  | foreign c r hkey pool hpool =>
      refine h.same rfl rfl rfl rfl (fun _ hd => List.mem_append_right _ hd) h.sent h.pending
        fun c' r' hr' => ?_
      dsimp only at hr'
      by_cases hc : c' = c
      · rw [hc, Function.update_self] at hr'
        cases hr'
      · rw [Function.update_of_ne hc] at hr'
        exact h.origin c' r' hr'
  | backend c i pool hpool =>
      exact h.same rfl rfl rfl rfl (fun _ hd => hd) h.sent h.pending h.origin
  | receipt c r hr horigin statusCode body hdone => exact h.receipt hr
  | fail b hlabel =>
      exact h.same rfl rfl rfl rfl (fun _ hd => hd) h.sent (fun _ hr => by cases hr) h.origin
  | leave => exact h.leave

end TabOk

omit [DecidableEq V] in
theorem Moves.origin (h : Moves screen sha256 user w a w') {c : ℕ} {r : V × String}
    (hr : w'.origin c = some r) :
    w.origin c = some r ∨ backendLabel screen user a = some (c, .request (request screen user r)) := by
  cases h with
  | arrive c' r' hr' pool hpool =>
      by_cases hc : c = c'
      · subst hc
        obtain rfl : r' = r := by simpa using hr
        exact .inr rfl
      · exact .inl (by simpa [hc] using hr)
  | foreign c' r' hkey pool hpool =>
      by_cases hc : c = c'
      · simp [hc] at hr
      · exact .inl (by simpa [hc] using hr)
  | _ => exact .inl hr

omit [DecidableEq V] in
theorem Moves.receipts (h : Moves screen sha256 user w a w') {r : V × String}
    (hr : r ∈ w'.tab.receipts) : r ∈ w.tab.receipts ∨ ∃ c, w.origin c = some r ∧
      ∃ statusCode body, w.pool.client c = .done statusCode body := by
  cases h with
  | receipt c r' hpending horigin statusCode body hdone =>
      rcases List.mem_cons.mp hr with rfl | hr
      · exact .inr ⟨c, horigin, statusCode, body, hdone⟩
      · exact .inl hr
  | _ => exact .inl hr

/-- The claim of a request of the tab. -/
def sendClaim (screen : Screen V) (sha256 : String → String) (user : Uuid) (r : V × String) : Claim :=
  ⟨user, r.2, fingerprint sha256 (request screen user r)⟩

omit [DecidableEq V] in
theorem claimed_request {r : V × String} (hne : r.2 ≠ "") :
    claimed sha256 (request screen user r) = some (sendClaim screen sha256 user r) := by
  unfold claimed intercept
  split
  · next hkey => cases hkey
  · next hkey => exact absurd (Option.some.inj hkey) hne
  · next key hne' hkey =>
      obtain rfl : r.2 = key := Option.some.inj hkey
      rfl

def oldKeys (user : Uuid) (keys : KeyTable) : List String :=
  (keys.table.rows.filter fun row => row.userId = user).map IdempotencyKey.key

/-- A tab in a run: its keys are in order and its receipts were earned. -/
structure Sound (screen : Screen V) (sha256 : String → String) (user : Uuid) (keys : KeyTable)
    (seen : Idempotency.Trace) (w : World V) : Prop where
  tab : TabOk (oldKeys user keys) w
  labels : ∀ c r, w.origin c = some r →
    (c, .request (request screen user r)) ∈ seen.map Event.label
  earned : ∀ r ∈ w.tab.receipts, ∃ m ∈ moved seen, m.claim = sendClaim screen sha256 user r

theorem run_sound (h : Run (next screen sha256 user) (start user keys) tr w) :
    Sound screen sha256 user keys (backendTrace screen user tr) w := by
  induction h with
  | start =>
      exact ⟨⟨fun _ hk => hk, by simp [start], List.nodup_nil, by simp [receiptKeys, start],
        by simp [start], by simp [start], by simp [start], by simp [start], by simp [start]⟩,
        by simp [start], by simp [start]⟩
  | @step tr s t l hrun hn ih =>
      have hmoves := next_moves hn
      rw [backendTrace_concat]
      refine ⟨ih.tab.next hmoves, fun c r hr => ?_, fun r hr => ?_⟩
      · rw [List.map_append, List.mem_append]
        rcases hmoves.origin hr with hold | hlabel
        · exact .inl (ih.labels c r hold)
        · refine .inr ?_
          rw [backendEvent, hlabel]
          exact List.mem_cons_self
      · rcases hmoves.receipts hr with hold | ⟨c, horigin, statusCode, body, hdone⟩
        · obtain ⟨m, hm, hclaim⟩ := ih.earned r hold
          exact ⟨m, mem_moved_append hm, hclaim⟩
        · have hminted := ih.tab.sent r (ih.tab.origin c r horigin)
          obtain ⟨-, hnew, hne⟩ := ih.tab.minted_drawn r.2 hminted
          have hfollows := run_follows (run_pool hrun) (ih.labels c r horigin) (claimed_request hne)
          rw [hdone] at hfollows
          rcases hfollows with ⟨row, hrow, hclaim, -⟩ | ⟨m, hm, hclaim, -⟩
          · refine absurd (List.mem_map.mpr ⟨row, List.mem_filter.mpr ⟨hrow, ?_⟩, ?_⟩) hnew
            · exact decide_eq_true (congrArg Claim.userId hclaim)
            · exact congrArg Claim.key hclaim
          · exact ⟨m, mem_moved_append hm, hclaim⟩

section Count
variable {done : List Commit} {k : String}

/-- The commits of the tab's operations. -/
def tabMoves (user : Uuid) (minted : List String) (done : List Commit) : List Commit :=
  done.filter fun m => m.claim.userId = user ∧ m.claim.key ∈ minted

/-- The commits under one key. -/
def keyMoves (user : Uuid) (k : String) (done : List Commit) : List Commit :=
  done.filter fun m => m.claim.owner = (user, k)

theorem count_tabMoves {minted : List String} (hk : k ∈ minted) :
    ((tabMoves user minted done).map fun m => m.claim.key).count k = (keyMoves user k done).length := by
  rw [List.count_eq_countP, List.countP_map, List.countP_eq_length_filter, tabMoves,
    List.filter_filter, keyMoves]
  congr 2
  funext m
  by_cases hm : m.claim.key = k
  · simp [Claim.owner, hm, hk]
  · simp [Claim.owner, hm]

theorem keyMoves_length (h : Run (Idempotency.next sha256) (Idempotency.start keys) seen p) :
    (keyMoves user k (moved seen)).length = p.data.commits.count (user, k) := by
  rw [run_commits h, List.count_reverse, List.count_eq_countP, List.countP_map,
    List.countP_eq_length_filter, keyMoves]
  congr 2
  funext m
  simp only [Function.comp_apply, beq_eq_decide]

end Count

/-- The guarantee of the interceptor, for the keys of the tab. -/
theorem keyMoves_le_one (h : Run (next screen sha256 user) (start user keys) tr w) {k : String}
    {t₀ : Time} (hk : k ∈ w.minted)
    (hwindow : ∀ e ∈ backendTrace screen user tr, InWindow (user, k) t₀ e)
    (hlate : ∀ e ∈ backendTrace screen user tr, ¬ LateRelease (user, k) e) :
    (keyMoves user k (moved (backendTrace screen user tr))).length ≤ 1 := by
  have hnew := ((run_sound h).tab.minted_drawn k hk).2.1
  have hfirst : keys.lookup (user, k) = none := by
    rw [IndexedTable.lookup_eq_none]
    intro row hrow howner
    obtain ⟨huser, hkey⟩ := Prod.mk.inj howner
    exact hnew (List.mem_map.mpr ⟨row, List.mem_filter.mpr ⟨hrow, decide_eq_true huser⟩, hkey⟩)
  have hinv : Inv (user, k) t₀ w.pool.client w.pool.data := (run_pool h).invariant_when
    (fun e => InWindow (user, k) t₀ e ∧ ¬ LateRelease (user, k) e)
    (fun s => Inv (user, k) t₀ s.client s.data) (start_inv hfirst)
    (fun _ _ _ hi hn hc => hi.next hc.1 hc.2 hn) fun e he => ⟨hwindow e he, hlate e he⟩
  rw [keyMoves_length (run_pool h)]
  exact hinv.count_le_one

/-- Within the life of its keys, and as long as no reservation is released after its
commit, a tab moves money once for each receipt, namely what the receipt says, and
at most once more for an operation whose outcome it does not know yet, and for each
whose screen was left before its receipt. -/
theorem receipts_exact (h : Run (next screen sha256 user) (start user keys) tr w)
    (hwindow : ∀ k ∈ w.minted, ∃ t₀, ∀ e ∈ backendTrace screen user tr, InWindow (user, k) t₀ e)
    (hlate : ∀ k ∈ w.minted, ∀ e ∈ backendTrace screen user tr, ¬ LateRelease (user, k) e) :
    (∀ r ∈ w.tab.receipts, ∃ m, keyMoves user r.2 (moved (backendTrace screen user tr)) = [m] ∧
      m.claim = sendClaim screen sha256 user r) ∧
    (∀ k ∈ w.minted, (keyMoves user k (moved (backendTrace screen user tr))).length ≤ 1) ∧
    w.tab.receipts.length ≤
      (tabMoves user w.minted (moved (backendTrace screen user tr))).length ∧
    (tabMoves user w.minted (moved (backendTrace screen user tr))).length ≤
      w.tab.receipts.length + w.tab.abandoned.length + if w.tab.key = none then 0 else 1 := by
  have hsound := run_sound h
  have hone : ∀ k ∈ w.minted, (keyMoves user k (moved (backendTrace screen user tr))).length ≤ 1 := by
    intro k hk
    obtain ⟨t₀, hw⟩ := hwindow k hk
    exact keyMoves_le_one h hk hw (hlate k hk)
  have hreceipt : ∀ r ∈ w.tab.receipts, ∃ m,
      keyMoves user r.2 (moved (backendTrace screen user tr)) = [m] ∧
        m.claim = sendClaim screen sha256 user r := by
    intro r hr
    obtain ⟨m, hm, hclaim⟩ := hsound.earned r hr
    have hmem : m ∈ keyMoves user r.2 (moved (backendTrace screen user tr)) :=
      List.mem_filter.mpr ⟨hm, by simp [hclaim, sendClaim, Claim.owner]⟩
    have hlength := hone r.2 (hsound.tab.receipts_minted r.2 (List.mem_map_of_mem hr))
    obtain ⟨m', hm'⟩ := List.length_eq_one_iff.mp
      (le_antisymm hlength (List.length_pos_of_mem hmem))
    rw [hm', List.mem_singleton] at hmem
    exact ⟨m', hm', hmem ▸ hclaim⟩
  set moves := tabMoves user w.minted (moved (backendTrace screen user tr)) with hmoves
  have hcount : ∀ k ∈ w.minted, (moves.map fun m => m.claim.key).count k ≤ 1 := by
    intro k hk
    rw [hmoves, count_tabMoves hk]
    exact hone k hk
  have hkeys : ∀ k ∈ moves.map fun m => m.claim.key, k ∈ w.minted := by
    intro k hk
    obtain ⟨m, hm, rfl⟩ := List.mem_map.mp hk
    have hmine := (List.mem_filter.mp hm).2
    rw [decide_eq_true_eq] at hmine
    exact hmine.2
  refine ⟨hreceipt, hone, ?_, ?_⟩
  · -- the keys of the receipts are different keys that have moved money
    have hsub : receiptKeys w ⊆ moves.map fun m => m.claim.key := by
      intro k hk
      obtain ⟨r, hr, rfl⟩ := List.mem_map.mp hk
      obtain ⟨m, hm, hclaim⟩ := hsound.earned r hr
      refine List.mem_map.mpr ⟨m, List.mem_filter.mpr ⟨hm, ?_⟩, by rw [hclaim]; rfl⟩
      simpa [hclaim, sendClaim] using hsound.tab.receipts_minted r.2 hk
    have hle := (List.subperm_of_subset hsound.tab.receipts_nodup hsub).length_le
    simpa [receiptKeys] using hle
  · -- every other key is the current one, or was left
    have hnodup : (moves.map fun m => m.claim.key).Nodup := by
      rw [List.nodup_iff_count_le_one]
      intro k
      by_cases hk : k ∈ moves.map fun m => m.claim.key
      · exact hcount k (hkeys k hk)
      · rw [List.count_eq_zero_of_not_mem hk]
        exact zero_le_one
    have hsub : (moves.map fun m => m.claim.key) ⊆
        (receiptKeys w ++ w.tab.abandoned) ++ w.tab.key.toList := by
      intro k hk
      rw [List.mem_append, List.mem_append, or_assoc]
      refine (hsound.tab.covered k (hkeys k hk)).imp_right (Or.imp_right fun hkey => ?_)
      rw [hkey]
      exact List.mem_cons_self
    have hle := (List.subperm_of_subset hnodup hsub).length_le
    rw [List.length_map, List.length_append, List.length_append, receiptKeys, List.length_map] at hle
    refine hle.trans (Nat.add_le_add_left ?_ _)
    cases w.tab.key <;> simp

end Tab

/-- What `JSON.stringify` makes of the body below. -/
def fiveHundredTo (_ : Value) : String := "\x7b\"toWalletId\":\"8\",\"amount\":500\x7d"

/-- The first answer is lost, the retry gets the stored response. -/
theorem receipts_exact_retried :
    ∃ tr w, Run (next (sendMoneyWizard fiveHundredTo "9") id 1) (start 1 .empty) tr w ∧
      w.tab.receipts = [(⟨"8", 500, ""⟩, "k")] ∧
      (tabMoves 1 w.minted (moved (backendTrace (sendMoneyWizard fiveHundredTo "9") 1 tr))).length ≤
        1 := by
  obtain ⟨tr, w, hrun, -, hs⟩ := Run.of_trace_map (next (sendMoneyWizard fiveHundredTo "9") id 1)
    [.fill ⟨"8", 500, ""⟩, .submit "k", .arrive 0 (⟨"8", 500, ""⟩, "k"), .backend 0 (.create 7 10),
      .backend 0 (.handlerCommits 201 (some "row")), .lost, .backend 0 .go, .backend 0 .go,
      .submit "", .arrive 1 (⟨"8", 500, ""⟩, "k"), .backend 1 (.create 8 20), .backend 1 (.now 21),
      .reply 1]
    (start 1 .empty)
    (fun tr w => (decide (∀ e ∈ backendTrace (sendMoneyWizard fiveHundredTo "9") 1 tr,
      InWindow (1, "k") 0 e ∧ ¬ LateRelease (1, "k") e), w.minted, w.tab.receipts,
      decide (w.tab.abandoned = [] ∧ w.tab.key = none)))
    (true, ["k"], [(⟨"8", 500, ""⟩, "k")], true) (by decide)
  simp only [Prod.mk.injEq, decide_eq_true_eq] at hs
  obtain ⟨hevents, hminted, hreceipts, habandoned, hkey⟩ := hs
  have hk : ∀ k ∈ w.minted, k = "k" := by
    rw [hminted]
    exact fun k hk => List.mem_singleton.mp hk
  have hexact := (receipts_exact hrun (fun k hmem => ⟨0, fun e he => hk k hmem ▸ (hevents e he).1⟩)
    fun k hmem e he => hk k hmem ▸ (hevents e he).2).2.2.2
  rw [hkey, hreceipts, habandoned] at hexact
  exact ⟨tr, w, hrun, hreceipts, hexact⟩

end MaxOne.LogicalSends
