import MaxOne.Idempotency

/-!
# Answers of the interceptor

A request under a key is answered with success by its own handler or by the
stored response of an earlier one. Either way a handler has committed for this
user, under this key, for a request of the same fingerprint: the row of a
reservation carries the fingerprint of the request that made it, and only a
request that has committed completes its row.
-/
namespace MaxOne.EarnedAnswers
open Library Library.Runs Library.Interleaving MaxOne.Schema MaxOne.Idempotency

/-- What `intercept` asks the service to reserve, if it does. -/
def claimed (sha256 : String → String) (r : Request) : Option Claim :=
  claimOf (intercept sha256 r)

/-- A commit: the claim its handler worked under, and its response. -/
structure Commit where
  claim : Claim
  statusCode : ℕ
  body : Option String

def commitOf : Input → Pc → Option Commit
  | .handlerCommits statusCode body, .handle c _ => some ⟨c, statusCode, body⟩
  | _, _ => none

/-- The commits of a run, oldest first. -/
def moved (tr : Trace) : List Commit :=
  tr.filterMap fun e => commitOf e.label.2 (e.pre.client e.label.1)

/-- The commit of a request that has not answered yet. -/
def committed : Pc → Option Commit
  | .afterCommit c _ statusCode body | .complete c _ statusCode body => some ⟨c, statusCode, body⟩
  | _ => none

/-- The claim a row was made with. -/
def claimOfRow (row : IdempotencyKey) : Claim := ⟨row.userId, row.key, row.fingerprint⟩

/-- The response of a commit as `complete` stores it; an undefined body is JSON null. -/
def Stores (row : IdempotencyKey) (m : Commit) : Prop :=
  claimOfRow row = m.claim ∧ row.statusCode = some m.statusCode ∧
    row.responseBody = some (m.body.getD "null")

theorem moved_concat (tr : Trace) (e : Event (ℕ × Input) (Pool Shared Pc)) :
    moved (tr ++ [e]) = moved tr ++ (commitOf e.label.2 (e.pre.client e.label.1)).toList := by
  rw [moved, List.filterMap_append]
  cases h : commitOf e.label.2 (e.pre.client e.label.1) <;> simp [moved, h]

theorem mem_moved_append {tr us : Trace} {m : Commit} (h : m ∈ moved tr) : m ∈ moved (tr ++ us) := by
  rw [moved, List.filterMap_append]
  exact List.mem_append_left _ h

/-- A step records the commits it makes, and no others. -/
theorem step_commits {sha256 : String → String} {i : Input} {p q : Pc} {s s' : Shared}
    (h : step sha256 i p s = some (q, s')) :
    s'.commits = ((commitOf i p).map fun m => m.claim.owner).toList ++ s.commits := by
  have hstatement := step_statement h
  cases i with
  | handlerCommits statusCode body =>
      cases p with
      | unguarded =>
          cases h
          rfl
      | handle c id =>
          cases h
          rfl
      | _ => cases h
  | _ => cases hstatement <;> rfl

/-- A stored response is replayed for the claim it was stored under. -/
theorem findUnique_done {s : Shared} {c : Claim} {t : Time} {statusCode : ℕ} {body : Option String}
    (h : findUnique s c t = .done statusCode body) :
    ∃ row ∈ s.keys.table.rows, claimOfRow row = c ∧ row.status = .completed ∧
      row.statusCode.getD 200 = statusCode ∧ row.responseBody = body := by
  unfold findUnique at h
  split at h
  · cases h
  · next row hrow =>
      obtain ⟨hmem, howner⟩ := IndexedTable.lookup_eq_some.mp hrow
      split_ifs at h
      unfold existing at h
      split_ifs at h with hfingerprint hstatus
      · cases h
      · cases h
      · rw [not_not] at hfingerprint hstatus
        obtain ⟨huser, hkey⟩ := Prod.mk.inj howner
        obtain ⟨hcode, hbody⟩ := Pc.done.inj h
        exact ⟨row, hmem, by rw [claimOfRow, huser, hkey, hfingerprint], hstatus, hcode, hbody⟩

/-! ## Rows and their makers -/

/-- What the rows and the requests know of the commits in `done`; `old` are the rows
there were at the start. -/
structure Kept (old : List IdempotencyKey) (done : List Commit) (client : ℕ → Pc) (s : Shared) : Prop where
  drawn : ∀ row ∈ s.keys.table.rows, row.id ∈ s.drawn
  held : ∀ x c id, heldBy (client x) = some (c, id) → id ∈ s.drawn ∧
    ∀ row ∈ s.keys.table.rows, row.id = id → claimOfRow row = c
  committed : ∀ x m, committed (client x) = some m → m ∈ done
  completed : ∀ row ∈ s.keys.table.rows, row.status = .completed →
    row ∈ old ∨ ∃ m ∈ done, Stores row m

section Kept
variable {old : List IdempotencyKey} {done done' : List Commit} {client : ℕ → Pc} {s : Shared} {x : ℕ} {p q : Pc}

/-- One request moves and the data stay. -/
theorem Kept.move (h : Kept old done client s)
    (hheld : ∀ c id, heldBy q = some (c, id) → id ∈ s.drawn ∧
      ∀ row ∈ s.keys.table.rows, row.id = id → claimOfRow row = c)
    (hcommitted : ∀ m, EarnedAnswers.committed q = some m → m ∈ done) :
    Kept old done (Function.update client x q) s where
  drawn := h.drawn
  held := by
    rw [Function.forall_update_iff client fun _ p => ∀ c id, heldBy p = some (c, id) →
      id ∈ s.drawn ∧ ∀ row ∈ s.keys.table.rows, row.id = id → claimOfRow row = c]
    exact ⟨hheld, fun y _ => h.held y⟩
  committed := by
    rw [Function.forall_update_iff client fun _ p =>
      ∀ m, EarnedAnswers.committed p = some m → m ∈ done]
    exact ⟨hcommitted, fun y _ => h.committed y⟩
  completed := h.completed

theorem heldBy_of_committed {m : Commit} (h : committed p = some m) :
    ∃ id, heldBy p = some (m.claim, id) := by
  cases p with
  | afterCommit c id statusCode body =>
      cases h
      exact ⟨id, rfl⟩
  | complete c id statusCode body =>
      cases h
      exact ⟨id, rfl⟩
  | _ => cases h

/-- A request that holds no row. -/
theorem Kept.leave (h : Kept old done client s) (hq : heldBy q = none) :
    Kept old done (Function.update client x q) s := by
  refine h.move (fun c id hheld => ?_) fun c hc => ?_
  · rw [hq] at hheld
    cases hheld
  · obtain ⟨id, hheld⟩ := heldBy_of_committed hc
    rw [hq] at hheld
    cases hheld

/-- A request that keeps its row. -/
theorem Kept.keep (h : Kept old done client s) (hp : client x = p) (hq : heldBy q = heldBy p)
    (hcommitted : ∀ m, EarnedAnswers.committed q = some m → EarnedAnswers.committed p = some m) :
    Kept old done (Function.update client x q) s := by
  subst hp
  refine h.move (fun c id hheld => ?_) fun c hc => h.committed x c (hcommitted c hc)
  rw [hq] at hheld
  exact h.held x c id hheld

theorem Kept.mono (h : Kept old done client s) (hsub : ∀ m ∈ done, m ∈ done') :
    Kept old done' client s where
  drawn := h.drawn
  held := h.held
  committed y c hc := hsub c (h.committed y c hc)
  completed row hrow hstatus := (h.completed row hrow hstatus).imp_right fun ⟨m, hm, hs⟩ =>
    ⟨m, hsub m hm, hs⟩

/-- Drawn identifiers only grow. -/
theorem Kept.draw (h : Kept old done client s) (id : Uuid) :
    Kept old done client { s with drawn := id :: s.drawn } where
  drawn row hrow := List.mem_cons_of_mem _ (h.drawn row hrow)
  held y c id' hheld := ⟨List.mem_cons_of_mem _ (h.held y c id' hheld).1, (h.held y c id' hheld).2⟩
  committed := h.committed
  completed := h.completed

theorem Kept.reserve (h : Kept old done client s) {c : Claim} {id : Uuid} {now : Time}
    {keys : KeyTable} (hnew : id ∉ s.drawn)
    (hinsert : s.keys.insert (claimRow c id now) = some keys) :
    Kept old done (Function.update client x (.handle c id))
      { s with keys := keys, drawn := id :: s.drawn } := by
  have hdata : Kept old done client { s with keys := keys, drawn := id :: s.drawn } := by
    refine ⟨fun row hrow => ?_, fun y c' id' hheld => ?_, h.committed, fun row hrow hstatus => ?_⟩
    · rcases (IndexedTable.mem_insert hinsert).mp hrow with hold | rfl
      · exact List.mem_cons_of_mem _ (h.drawn row hold)
      · exact List.mem_cons_self
    · obtain ⟨hdrawn, hrows⟩ := h.held y c' id' hheld
      refine ⟨List.mem_cons_of_mem _ hdrawn, fun row hrow hid => ?_⟩
      rcases (IndexedTable.mem_insert hinsert).mp hrow with hold | rfl
      · exact hrows row hold hid
      · exact absurd hdrawn (show id' ∉ s.drawn from hid ▸ hnew)
    · rcases (IndexedTable.mem_insert hinsert).mp hrow with hold | rfl
      · exact h.completed row hold hstatus
      · cases hstatus
  refine hdata.move (fun c' id' hheld => ?_) fun c' hc' => by cases hc'
  obtain ⟨rfl, rfl⟩ : c = c' ∧ id = id' := by simpa [heldBy] using hheld
  refine ⟨List.mem_cons_self, fun row hrow hid => ?_⟩
  rcases (IndexedTable.mem_insert hinsert).mp hrow with hold | rfl
  · exact absurd (hid ▸ h.drawn row hold) hnew
  · rfl

theorem Kept.delete (h : Kept old done client s) (id : Uuid) :
    Kept old done client (deleteId s id) where
  drawn row hrow := h.drawn row (IndexedTable.mem_deleteWhere.mp hrow).1
  held y c id' hheld := ⟨(h.held y c id' hheld).1, fun row hrow =>
    (h.held y c id' hheld).2 row (IndexedTable.mem_deleteWhere.mp hrow).1⟩
  committed := h.committed
  completed row hrow := h.completed row (IndexedTable.mem_deleteWhere.mp hrow).1

/-- Only a request that has committed completes a row, and the row is its own. -/
theorem Kept.complete (h : Kept old done client s) {c : Claim} {id : Uuid} {statusCode : ℕ}
    {body : Option String} (hx : client x = .complete c id statusCode body) :
    Kept old done client (completeRow s id statusCode body) where
  drawn row hrow := by
    rcases mem_completeRow.mp hrow with ⟨hold, -⟩ | ⟨r, hr, rfl⟩
    · exact h.drawn row hold
    · exact h.drawn r (Table.mem_of_find hr)
  held y c' id' hheld := by
    obtain ⟨hdrawn, hrows⟩ := h.held y c' id' hheld
    refine ⟨hdrawn, fun row hrow hid => ?_⟩
    rcases mem_completeRow.mp hrow with ⟨hold, -⟩ | ⟨r, hr, rfl⟩
    · exact hrows row hold hid
    · exact hrows r (Table.mem_of_find hr) hid
  committed := h.committed
  completed row hrow hstatus := by
    rcases mem_completeRow.mp hrow with ⟨hold, -⟩ | ⟨r, hr, rfl⟩
    · exact h.completed row hold hstatus
    · have hmine := (h.held x c id (by rw [hx]; rfl)).2 r (Table.mem_of_find hr)
        (Table.find_key hr)
      exact .inr ⟨_, h.committed x ⟨c, statusCode, body⟩ (by rw [hx]; rfl), hmine, rfl, rfl⟩

end Kept

theorem Kept.next {sha256 : String → String} {old : List IdempotencyKey} {done : List Commit}
    {l : ℕ × Input} {s t : Pool Shared Pc} (h : Kept old done s.client s.data)
    (hn : Idempotency.next sha256 l s = some t) :
    Kept old (done ++ (commitOf l.2 (s.client l.1)).toList) t.client t.data := by
  have hgrown : Kept old (done ++ (commitOf l.2 (s.client l.1)).toList) s.client s.data :=
    h.mono fun c hc => List.mem_append_left _ hc
  obtain ⟨q, s', hstep, rfl⟩ := next_cases hn
  obtain ⟨x, i⟩ := l
  have hstatement := step_statement hstep
  dsimp only at hgrown ⊢
  generalize hp : s.client x = p at hstatement hgrown ⊢
  cases hstatement with
  | request r =>
      refine hgrown.leave ?_
      unfold intercept
      split
      · split_ifs <;> rfl
      · split_ifs <;> rfl
      · split <;> rfl
  | reserves id now keys hnew hinsert => exact hgrown.reserve hnew hinsert
  | taken id now => exact (hgrown.draw id).leave rfl
  | vanished t => exact hgrown.leave rfl
  | expired t row => exact hgrown.leave rfl
  | answered hq =>
      refine hgrown.leave ?_
      rcases hq with ⟨statusCode, body, rfl⟩ | ⟨err, rfl⟩ <;> rfl
  | deletes => exact (hgrown.delete _).leave rfl
  | unguarded statusCode body => exact hgrown.leave rfl
  | @commits _ c id statusCode body =>
      have hmoved : Kept old (done ++ [⟨c, statusCode, body⟩]) s.client
          { s.data with commits := c.owner :: s.data.commits } :=
        ⟨hgrown.drawn, hgrown.held, hgrown.committed, hgrown.completed⟩
      refine hmoved.move (fun c' id' hheld => ?_) fun c' hc' => ?_
      · exact hgrown.held x c' id' (by rw [hp]; exact hheld)
      · rw [← Option.some.inj hc']
        exact List.mem_append_right _ List.mem_cons_self
  | emits => exact hgrown.keep hp rfl fun _ hc => hc
  | completes => exact (hgrown.complete hp).leave rfl
  | handlerFails err => exact hgrown.keep hp rfl fun _ hc => by cases hc
  | lateFailure err hp' =>
      obtain ⟨statusCode, body, rfl | rfl⟩ := hp'
      · exact hgrown.keep hp rfl fun _ hc => by cases hc
      · exact hgrown.keep hp rfl fun _ hc => by cases hc
  | releases => exact (hgrown.delete _).leave rfl
  | fails err => exact hgrown.leave rfl

theorem start_kept (keys : KeyTable) :
    Kept keys.table.rows [] (start keys).client (start keys).data where
  drawn _ hrow := List.mem_map_of_mem hrow
  held _ _ _ hheld := by cases hheld
  committed _ _ hc := by cases hc
  completed _ hrow _ := .inl hrow

theorem run_commits {sha256 : String → String} {keys : KeyTable} {tr : Trace} {s : Pool Shared Pc}
    (h : Run (Idempotency.next sha256) (start keys) tr s) :
    s.data.commits = ((moved tr).map fun m => m.claim.owner).reverse := by
  induction h with
  | start => rfl
  | @step tr s t l _ hn ih =>
      rw [step_commits (next_self hn), ih, moved_concat, List.map_append, List.reverse_append]
      cases commitOf l.2 (s.client l.1) <;> rfl

theorem run_kept {sha256 : String → String} {keys : KeyTable} {tr : Trace} {s : Pool Shared Pc}
    (h : Run (Idempotency.next sha256) (start keys) tr s) :
    Kept keys.table.rows (moved tr) s.client s.data := by
  induction h with
  | start => exact start_kept keys
  | step l _ hn ih =>
      rw [moved_concat]
      exact ih.next hn

/-! ## Requests and their answers -/

/-- A response is the one a commit under the claim gave, or what a row stores of it. -/
def Earned (old : List IdempotencyKey) (done : List Commit) (c : Claim) (statusCode : ℕ)
    (body : Option String) : Prop :=
  (∃ row ∈ old, claimOfRow row = c ∧ row.status = .completed ∧
    row.statusCode.getD 200 = statusCode ∧ row.responseBody = body) ∨
  ∃ m ∈ done, m.claim = c ∧ m.statusCode = statusCode ∧
    (m.body = body ∨ some (m.body.getD "null") = body)

/-- A request that claimed `c` is at work on it, has failed, or has earned its answer. -/
def Follows (old : List IdempotencyKey) (done : List Commit) (c : Claim) : Pc → Prop
  | .done statusCode body => Earned old done c statusCode body
  | .failed _ => True
  | p => claimOf p = some c

section Follows
variable {old : List IdempotencyKey} {done done' : List Commit} {c : Claim} {p q : Pc} {s s' : Shared}
  {client : ℕ → Pc} {x : ℕ}

theorem Earned.mono {statusCode : ℕ} {body : Option String} (h : Earned old done c statusCode body)
    (hsub : ∀ m ∈ done, m ∈ done') : Earned old done' c statusCode body :=
  h.imp_right fun ⟨m, hm, hs⟩ => ⟨m, hsub m hm, hs⟩

theorem Follows.mono (h : Follows old done c p) (hsub : ∀ m ∈ done, m ∈ done') :
    Follows old done' c p := by
  cases p with
  | done statusCode body => exact Earned.mono h hsub
  | _ => exact h

theorem follows_of_claimOf (h : claimOf p = some c) : Follows old done c p := by
  cases p with
  | done statusCode body => cases h
  | failed err => trivial
  | _ => exact h

/-- A replayed response is one that was stored. -/
theorem Kept.earned (h : Kept old done client s) {t : Time} {statusCode : ℕ}
    {body : Option String} (hq : findUnique s c t = .done statusCode body) :
    Earned old done c statusCode body := by
  obtain ⟨row, hrow, hclaim, hstatus, hcode, hbody⟩ := findUnique_done hq
  rcases h.completed row hrow hstatus with hold | ⟨m, hm, hmine, hstored, hresponse⟩
  · exact .inl ⟨row, hold, hclaim, hstatus, hcode, hbody⟩
  · rw [hstored, Option.getD_some] at hcode
    rw [hresponse] at hbody
    exact .inr ⟨m, hm, hmine.symm.trans hclaim, hcode, .inr hbody⟩

/-- One statement of the request itself. -/
theorem Follows.step {sha256 : String → String} {i : Input} (h : Follows old done c p)
    (hkept : Kept old done client s) (hx : client x = p) (hidle : p ≠ .idle)
    (hstep : step sha256 i p s = some (q, s')) : Follows old done c q := by
  have hstatement := step_statement hstep
  cases hstatement with
  | request r => exact absurd rfl hidle
  | reserves id now keys hnew hinsert => exact follows_of_claimOf h
  | taken id now => exact follows_of_claimOf h
  | vanished t => exact follows_of_claimOf h
  | expired t row => exact follows_of_claimOf h
  | @answered _ _ c' _ hq =>
      rcases hq with ⟨statusCode, body, rfl⟩ | ⟨err, rfl⟩
      · obtain rfl : c' = c := Option.some.inj h
        cases i with
        | now t =>
            have hfound : findUnique s c' t = .done statusCode body := (Prod.mk.inj
              (Option.some.inj hstep)).1
            exact hkept.earned hfound
        | _ => cases hstep
      · trivial
  | deletes => exact follows_of_claimOf h
  | unguarded statusCode body => cases h
  | commits statusCode body => exact follows_of_claimOf h
  | emits => exact follows_of_claimOf h
  | @completes _ c' id statusCode body =>
      obtain rfl : c' = c := Option.some.inj h
      have hmine : (⟨c', statusCode, body⟩ : Commit) ∈ done :=
        hkept.committed x _ (by rw [hx]; rfl)
      exact .inr ⟨_, hmine, rfl, rfl, .inl rfl⟩
  | handlerFails err => exact follows_of_claimOf h
  | lateFailure err hp =>
      obtain ⟨statusCode, body, rfl | rfl⟩ := hp
      · exact follows_of_claimOf h
      · exact follows_of_claimOf h
  | releases => trivial
  | fails err => trivial

end Follows

theorem run_follows {sha256 : String → String} {keys : KeyTable} {tr : Trace}
    {s : Pool Shared Pc} (h : Run (Idempotency.next sha256) (start keys) tr s) {x : ℕ} {r : Request}
    {c : Claim} (hr : (x, .request r) ∈ tr.map Event.label) (hc : claimed sha256 r = some c) :
    Follows keys.table.rows (moved tr) c (s.client x) := by
  induction h with
  | start => simp at hr
  | @step tr s t l hrun hn ih =>
      have hsub : ∀ m ∈ moved tr, m ∈ moved (tr ++ [⟨s, l, t⟩]) := fun _ => mem_moved_append
      rw [List.map_append, List.mem_append, List.map_singleton, List.mem_singleton] at hr
      rcases hr with hr | hl
      · have hfollows := (ih hr).mono hsub
        by_cases hx : x = l.1
        · subst hx
          refine hfollows.step ((run_kept hrun).mono hsub) rfl (fun hidle => ?_) (next_self hn)
          rw [hidle] at hfollows
          cases hfollows
        · rwa [next_other hn hx]
      · have hself := next_self hn
        dsimp only at hl
        rw [← hl] at hself
        have hclient : t.client x = intercept sha256 r := by
          dsimp only at hself
          generalize s.client x = p at hself
          cases p with
          | idle => exact ((Prod.mk.inj (Option.some.inj hself)).1).symm
          | _ => cases hself
        rw [hclient]
        exact follows_of_claimOf hc

/-- A request under a key that is answered with success reports a commit of this very
request: the handler ran for the same user and key and the same fingerprint, and
the answer is its response. Rows from before the run answer for their own commits. -/
theorem answers_earned {sha256 : String → String} {keys : KeyTable} {tr : Trace}
    {s : Pool Shared Pc} (h : Run (Idempotency.next sha256) (start keys) tr s) {x : ℕ} {r : Request}
    {c : Claim} (hr : (x, .request r) ∈ tr.map Event.label) (hc : claimed sha256 r = some c)
    {statusCode : ℕ} {body : Option String} (hdone : s.client x = .done statusCode body) :
    Earned keys.table.rows (moved tr) c statusCode body := by
  have hfollows := run_follows h hr hc
  rwa [hdone] at hfollows

/-- The retry of a deposit gets the stored response. -/
theorem answers_earned_replay :
    ∃ tr s, Run (Idempotency.next id) (start .empty) tr s ∧ s.client 1 = .done 201 (some "null") ∧
      Earned [] (moved tr) ⟨1, "k", "POST /wallets/9/deposits \x7b\"amount\":1000\x7d"⟩ 201
        (some "null") := by
  obtain ⟨tr, s, hrun, hlabels, hs⟩ := Run.of_trace_map (Idempotency.next id)
    [(0, .request depositRequest), (0, .create 7 10), (0, .handlerCommits 201 none), (0, .go),
      (0, .go), (1, .request depositRequest), (1, .create 8 20), (1, .now 21)]
    (start .empty)
    (fun _ s => match s.client 1 with
      | .done statusCode body => (statusCode, body)
      | _ => (0, none)) (201, some "null") (by decide)
  have hdone : s.client 1 = .done 201 (some "null") := by
    generalize s.client 1 = p at hs
    cases p with
    | done statusCode body =>
        obtain ⟨rfl, rfl⟩ := Prod.mk.inj hs
        rfl
    | _ => cases hs
  refine ⟨tr, s, hrun, hdone, answers_earned hrun (r := depositRequest) ?_ ?_ hdone⟩
  · rw [hlabels]
    simp
  · rfl

end MaxOne.EarnedAnswers
