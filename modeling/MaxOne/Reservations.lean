import MaxOne.Idempotency

/-!
# Reservations

`IdempotencyService` by itself: any number of concurrent calls of `reserve`,
`complete` and `release`, one database statement at a time and on the rows of
`Idempotency`. A call is a client; nothing ties a `complete` or a `release` to
the reservation it belongs to except the identifier it is given, which only the
holder was told. `commits` of the shared value is not used at this level.

`reserve` reads outside a transaction. What it answers is right about the row
it has read, and the unique index decides who is told `new`; but its DELETE of
an expired row is by identifier and throws when another call was faster.
-/
namespace MaxOne.Reservations
open Library Library.Runs Library.Interleaving MaxOne.Schema
open MaxOne.Idempotency (Claim IdempotencyKey KeyTable Reservation Shared claimRow completeRow
  deleteId existing ttl)

inductive Call where
  | reserve (c : Claim)
  | complete (id : Uuid) (statusCode : ℕ) (body : Option String)
  | release (id : Uuid)

/-- The statement a call awaits. -/
inductive Pc where
  | idle
  | create (c : Claim)
  | findUnique (c : Claim)
  | delete (c : Claim) (id : Uuid)
  | update (id : Uuid) (statusCode : ℕ) (body : Option String)
  | deleteMany (id : Uuid)
  | answered (c : Claim) (r : Reservation)
  | finished
  | failed (err : HttpException)

/-- Answers of the outside world; `lost` is a statement that throws by itself. -/
inductive Input where
  | call (k : Call)
  | create (id : Uuid) (now : Time)
  | now (t : Time)
  | go
  | lost (err : HttpException)

def Call.enter : Call → Pc
  | .reserve c => .create c
  | .complete id statusCode body => .update id statusCode body
  | .release id => .deleteMany id

/-- The INSERT of `reserve`. -/
def create (s : Shared) (c : Claim) (id : Uuid) (now : Time) : Pc × Shared :=
  match s.keys.insert (claimRow c id now) with
  | none => (.findUnique c, { s with drawn := id :: s.drawn })
  | some keys => (.answered c (.new id), { s with keys := keys, drawn := id :: s.drawn })

def findUnique (s : Shared) (c : Claim) (now : Time) : Pc :=
  match s.keys.lookup c.owner with
  | none => .create c
  | some row =>
      if row.createdAt + ttl < now then .delete c row.id
      else .answered c (existing c row)

def lost (err : HttpException) : Pc → Option Pc
  | .create _ | .findUnique _ | .delete .. | .update .. | .deleteMany _ => some (.failed err)
  | _ => none

/-- `delete` and `update` of a missing row are P2025; `deleteMany` is not. -/
def step : Input → Pc → Shared → Option (Pc × Shared)
  | .call k, .idle, s => some (k.enter, s)
  | .create id now, .create c, s => if id ∈ s.drawn then none else some (create s c id now)
  | .now t, .findUnique c, s => some (findUnique s c t, s)
  | .go, .delete c id, s =>
      if s.keys.find id = none then some (.failed recordNotFound, s)
      else some (.create c, deleteId s id)
  | .go, .update id statusCode body, s =>
      if s.keys.find id = none then some (.failed recordNotFound, s)
      else some (.finished, completeRow s id statusCode body)
  | .go, .deleteMany id, s => some (.finished, deleteId s id)
  | .lost err, pc, s => (lost err pc).map fun pc => (pc, s)
  | _, _, _ => none

abbrev State := Pool Shared Pc

abbrev Trace := List (Event (ℕ × Input) State)

def next : ℕ × Input → State → Option State := Interleaving.next step

/-- No call is in progress. -/
def start (keys : KeyTable) : State :=
  ⟨⟨keys, keys.table.rows.map IdempotencyKey.id, []⟩, fun _ => .idle⟩

/-! ## What one statement does -/

/-- Everything a statement can do. -/
inductive Statement : Input → Pc → Shared → Pc → Shared → Prop where
  | call {s : Shared} (k : Call) : Statement (.call k) .idle s k.enter s
  | reserves {s : Shared} {c : Claim} (id : Uuid) (now : Time) (keys : KeyTable)
      (hnew : id ∉ s.drawn) (hinsert : s.keys.insert (claimRow c id now) = some keys) :
      Statement (.create id now) (.create c) s (.answered c (.new id))
        { s with keys := keys, drawn := id :: s.drawn }
  | taken {s : Shared} {c : Claim} (id : Uuid) (now : Time) (hnew : id ∉ s.drawn)
      (hinsert : s.keys.insert (claimRow c id now) = none) :
      Statement (.create id now) (.create c) s (.findUnique c) { s with drawn := id :: s.drawn }
  | vanished {s : Shared} {c : Claim} (t : Time) (hgone : s.keys.lookup c.owner = none) :
      Statement (.now t) (.findUnique c) s (.create c) s
  | expired {s : Shared} {c : Claim} (t : Time) (row : IdempotencyKey)
      (hrow : s.keys.lookup c.owner = some row) (hold : row.createdAt + ttl < t) :
      Statement (.now t) (.findUnique c) s (.delete c row.id) s
  | answers {s : Shared} {c : Claim} (t : Time) (row : IdempotencyKey)
      (hrow : s.keys.lookup c.owner = some row) (hyoung : t ≤ row.createdAt + ttl) :
      Statement (.now t) (.findUnique c) s (.answered c (existing c row)) s
  | deletes {s : Shared} {c : Claim} {id : Uuid} (hfound : s.keys.find id ≠ none) :
      Statement .go (.delete c id) s (.create c) (deleteId s id)
  | deletesGone {s : Shared} {c : Claim} {id : Uuid} (hgone : s.keys.find id = none) :
      Statement .go (.delete c id) s (.failed recordNotFound) s
  | completes {s : Shared} {id : Uuid} {statusCode : ℕ} {body : Option String} :
      Statement .go (.update id statusCode body) s .finished (completeRow s id statusCode body)
  | completesGone {s : Shared} {id : Uuid} {statusCode : ℕ} {body : Option String} :
      Statement .go (.update id statusCode body) s (.failed recordNotFound) s
  | releases {s : Shared} {id : Uuid} : Statement .go (.deleteMany id) s .finished (deleteId s id)
  | lost {s : Shared} {p : Pc} (err : HttpException)
      (hp : ∃ q, Reservations.lost err p = some q) : Statement (.lost err) p s (.failed err) s

section Step
variable {i : Input} {p q : Pc} {s s' : Shared}

theorem create_statement {c : Claim} {id : Uuid} {now : Time} (hnew : id ∉ s.drawn)
    (h : create s c id now = (q, s')) : Statement (.create id now) (.create c) s q s' := by
  unfold create at h
  split at h
  · next hinsert =>
      cases h
      exact .taken id now hnew hinsert
  · next keys hinsert =>
      cases h
      exact .reserves id now keys hnew hinsert

theorem findUnique_statement {c : Claim} {t : Time} :
    Statement (.now t) (.findUnique c) s (findUnique s c t) s := by
  unfold findUnique
  split
  · next hgone => exact .vanished t hgone
  · next row hrow =>
      split_ifs with hold
      · exact .expired t row hrow hold
      · exact .answers t row hrow (not_lt.mp hold)

theorem step_statement (h : step i p s = some (q, s')) : Statement i p s q s' := by
  unfold step at h
  split at h
  · cases h
    exact .call _
  · split_ifs at h with hnew
    exact create_statement hnew (Option.some.inj h)
  · cases h
    exact findUnique_statement
  · split_ifs at h with hgone <;> cases h
    · exact .deletesGone hgone
    · exact .deletes hgone
  · split_ifs at h <;> cases h
    · exact .completesGone
    · exact .completes
  · cases h
    exact .releases
  · obtain ⟨p', hp', he⟩ := Option.map_eq_some_iff.mp h
    cases he
    have hlost := hp'
    unfold lost at hp'
    split at hp' <;> cases hp' <;> exact .lost _ ⟨_, hlost⟩
  · cases h

theorem next_statement {l : ℕ × Input} {s t : State} (h : next l s = some t) :
    ∃ q d, Statement l.2 (s.client l.1) s.data q d ∧
      t = ⟨d, Function.update s.client l.1 q⟩ := by
  obtain ⟨q, d, hstep, ht⟩ := next_cases h
  exact ⟨q, d, step_statement hstep, ht⟩

end Step

/-! ## One holder of a key -/

/-- The reservation of a call that was answered `new`. -/
def holds : Pc → Option (Claim × Uuid)
  | .answered c (.new id) => some (c, id)
  | _ => none

theorem holds_eq {p : Pc} {c : Claim} {id : Uuid} (h : holds p = some (c, id)) :
    p = .answered c (.new id) := by
  unfold holds at h
  split at h <;> cases h
  rfl

/-- The row a `complete` or a `release` is about to touch. -/
def finishes : Pc → Option Uuid
  | .update id .. | .deleteMany id => some id
  | _ => none

theorem existing_ne_new (c : Claim) (row : IdempotencyKey) (id : Uuid) :
    existing c row ≠ .new id := by
  unfold existing
  split_ifs <;> exact nofun

theorem holds_existing (c : Claim) (row : IdempotencyKey) :
    holds (.answered c (existing c row)) = none := by
  unfold holds
  split
  · next id h =>
      rw [Pc.answered.injEq] at h
      exact absurd h.2 (existing_ne_new c row id)
  · rfl

/-- Identifiers are told to one holder, and the row is that holder's. -/
structure Inv (client : ℕ → Pc) (s : Shared) : Prop where
  drawn : ∀ row ∈ s.keys.table.rows, row.id ∈ s.drawn
  held : ∀ x c id, holds (client x) = some (c, id) →
    id ∈ s.drawn ∧ ∀ row ∈ s.keys.table.rows, row.id = id → row.owner = c.owner
  sole : ∀ x y c c' id, holds (client x) = some (c, id) → holds (client y) = some (c', id) → x = y

section Inv
variable {client : ℕ → Pc} {s s' : Shared} {x : ℕ} {q : Pc}

/-- A call that is told nothing new moves. -/
theorem Inv.move (h : Inv client s) (hq : holds q = none) : Inv (Function.update client x q) s := by
  have hold : ∀ y r, holds (Function.update client x q y) = some r → holds (client y) = some r := by
    intro y r hy
    by_cases hyx : y = x
    · subst hyx
      rw [Function.update_self, hq] at hy
      cases hy
    · rwa [Function.update_of_ne hyx] at hy
  exact
    { drawn := h.drawn
      held := fun y c id hy => h.held y c id (hold y _ hy)
      sole := fun y z c c' id hy hz => h.sole y z c c' id (hold y _ hy) (hold z _ hz) }

/-- No row appears and none changes its identity. -/
theorem Inv.shrink (h : Inv client s) (hdrawn : s.drawn ⊆ s'.drawn)
    (hrows : ∀ row ∈ s'.keys.table.rows,
      ∃ r ∈ s.keys.table.rows, row.id = r.id ∧ row.owner = r.owner) : Inv client s' where
  drawn row hrow := by
    obtain ⟨r, hr, hid, -⟩ := hrows row hrow
    rw [hid]
    exact hdrawn (h.drawn r hr)
  held y c id hy := by
    obtain ⟨hmem, howner⟩ := h.held y c id hy
    refine ⟨hdrawn hmem, fun row hrow hid => ?_⟩
    obtain ⟨r, hr, hrid, hro⟩ := hrows row hrow
    rw [hro]
    exact howner r hr (hrid.symm.trans hid)
  sole := h.sole

theorem mem_deleteId {id : Uuid} {row : IdempotencyKey} :
    row ∈ (deleteId s id).keys.table.rows ↔ row ∈ s.keys.table.rows ∧ row.id ≠ id := by
  simp [deleteId]

theorem completeRow_rows {id : Uuid} {statusCode : ℕ} {body : Option String} :
    ∀ row ∈ (completeRow s id statusCode body).keys.table.rows,
      ∃ r ∈ s.keys.table.rows, row.id = r.id ∧ row.owner = r.owner := by
  intro row hrow
  rcases Idempotency.mem_completeRow.mp hrow with ⟨hold, -⟩ | ⟨r, hr, rfl⟩
  · exact ⟨row, hold, rfl, rfl⟩
  · exact ⟨r, Table.mem_of_find hr, rfl, rfl⟩

theorem find_deleteId_ne {id id' : Uuid} (hne : id' ≠ id) :
    (deleteId s id).keys.find id' = s.keys.find id' := by
  rw [deleteId, IndexedTable.find_deleteWhere]
  cases hrow : s.keys.find id' with
  | none => rfl
  | some row =>
      have hid : row.id = id' := Table.find_key hrow
      simp [hid, hne]

theorem find_completeRow_ne {id id' : Uuid} {statusCode : ℕ} {body : Option String}
    (hne : id' ≠ id) : (completeRow s id statusCode body).keys.find id' = s.keys.find id' := by
  rw [completeRow, IndexedTable.find_modify, if_neg hne]

theorem Inv.delete (h : Inv client s) (id : Uuid) : Inv client (deleteId s id) :=
  h.shrink (List.Subset.refl _) fun row hrow => ⟨row, (mem_deleteId.mp hrow).1, rfl, rfl⟩

theorem Inv.complete (h : Inv client s) (id : Uuid) (statusCode : ℕ) (body : Option String) :
    Inv client (completeRow s id statusCode body) :=
  h.shrink (List.Subset.refl _) completeRow_rows

/-- A fresh identifier is told to the call whose row is inserted. -/
theorem Inv.reserve (h : Inv client s) {c : Claim} {id : Uuid} {now : Time} {keys : KeyTable}
    (hnew : id ∉ s.drawn) (hinsert : s.keys.insert (claimRow c id now) = some keys) :
    Inv (Function.update client x (.answered c (.new id)))
      { s with keys := keys, drawn := id :: s.drawn } := by
  have hcases : ∀ y c' id', holds (Function.update client x (.answered c (.new id)) y) =
      some (c', id') → (y = x ∧ c' = c ∧ id' = id) ∨
        (y ≠ x ∧ holds (client y) = some (c', id') ∧ id' ≠ id) := by
    intro y c' id' hy
    by_cases hyx : y = x
    · subst hyx
      rw [Function.update_self, holds, Option.some.injEq, Prod.mk.injEq] at hy
      exact .inl ⟨rfl, hy.1.symm, hy.2.symm⟩
    · rw [Function.update_of_ne hyx] at hy
      refine .inr ⟨hyx, hy, ?_⟩
      rintro rfl
      exact hnew (h.held y c' id' hy).1
  refine ⟨fun row hrow => ?_, fun y c' id' hy => ?_, fun y z c₁ c₂ id' hy hz => ?_⟩
  · rcases (IndexedTable.mem_insert hinsert).mp hrow with hold | rfl
    · exact List.mem_cons_of_mem _ (h.drawn row hold)
    · exact List.mem_cons_self
  · rcases hcases y c' id' hy with ⟨-, rfl, rfl⟩ | ⟨-, hheld, hne⟩
    · refine ⟨List.mem_cons_self, fun row hrow hid => ?_⟩
      rcases (IndexedTable.mem_insert hinsert).mp hrow with hold | rfl
      · exact absurd (hid ▸ h.drawn row hold) hnew
      · rfl
    · obtain ⟨hmem, howner⟩ := h.held y c' id' hheld
      refine ⟨List.mem_cons_of_mem _ hmem, fun row hrow hid => ?_⟩
      rcases (IndexedTable.mem_insert hinsert).mp hrow with hold | rfl
      · exact howner row hold hid
      · exact absurd hid.symm hne
  · rcases hcases y c₁ id' hy with ⟨rfl, -, rfl⟩ | ⟨-, hy', hne⟩
    · rcases hcases z c₂ id' hz with ⟨hzy, -, -⟩ | ⟨-, -, hne⟩
      · exact hzy.symm
      · exact absurd rfl hne
    · rcases hcases z c₂ id' hz with ⟨-, -, hid⟩ | ⟨-, hz', -⟩
      · exact absurd hid hne
      · exact h.sole y z c₁ c₂ id' hy' hz'

theorem Inv.statement {i : Input} (h : Inv client s) (hs : Statement i (client x) s q s') :
    Inv (Function.update client x q) s' := by
  generalize client x = p at hs
  cases hs with
  | call k => exact h.move (by cases k <;> rfl)
  | reserves id now keys hnew hinsert => exact h.reserve hnew hinsert
  | taken id now =>
      have hdraw : Inv client { s with drawn := id :: s.drawn } :=
        h.shrink (List.subset_cons_self _ _) fun row hrow => ⟨row, hrow, rfl, rfl⟩
      exact hdraw.move rfl
  | vanished t => exact h.move rfl
  | expired t row => exact h.move rfl
  | answers t row => exact h.move (holds_existing _ row)
  | deletes => exact (h.delete _).move rfl
  | deletesGone => exact h.move rfl
  | completes =>
      exact (h.complete _ _ _).move rfl
  | completesGone => exact h.move rfl
  | releases => exact (h.delete _).move rfl
  | lost err hp => exact h.move rfl

theorem Inv.next {l : ℕ × Input} {s t : State} (h : Inv s.client s.data)
    (hn : Reservations.next l s = some t) : Inv t.client t.data := by
  obtain ⟨q, d, hs, rfl⟩ := next_statement hn
  exact h.statement hs

theorem start_inv (keys : KeyTable) : Inv (start keys).client (start keys).data where
  drawn row hrow := List.mem_map_of_mem hrow
  held _ _ _ hh := by cases hh
  sole _ _ _ _ _ hh := by cases hh

end Inv

/-- Two calls that were told `new` for one key, both with their row still there,
are one call. -/
theorem Inv.one_holder {client : ℕ → Pc} {s : Shared} (h : Inv client s) {x y : ℕ} {c c' : Claim}
    {id id' : Uuid} (hx : holds (client x) = some (c, id)) (hy : holds (client y) = some (c', id'))
    (howner : c.owner = c'.owner) (hid : s.keys.find id ≠ none) (hid' : s.keys.find id' ≠ none) :
    x = y := by
  obtain ⟨row, hrow⟩ := Option.ne_none_iff_exists'.mp hid
  obtain ⟨row', hrow'⟩ := Option.ne_none_iff_exists'.mp hid'
  have hmem := Table.mem_of_find hrow
  have hmem' := Table.mem_of_find hrow'
  have ho := (h.held x c id hx).2 row hmem (Table.find_key hrow)
  have ho' := (h.held y c' id' hy).2 row' hmem' (Table.find_key hrow')
  have hsame : row = row' := s.keys.unique row hmem row' hmem' (by rw [ho, ho', howner])
  have hids : id = id' := by rw [← Table.find_key hrow, ← Table.find_key hrow', hsame]
  subst hids
  exact h.sole x y c c' id hx hy

/-- A `complete` or a `release` touches the row of its own identifier only. -/
theorem finishes_frame {i : Input} {p q : Pc} {s s' : Shared} (hs : Statement i p s q s')
    {id id' : Uuid} (hp : finishes p = some id) (hne : id' ≠ id) :
    s'.keys.find id' = s.keys.find id' := by
  cases hs with
  | completes =>
      obtain rfl := Option.some.inj hp
      exact find_completeRow_ne hne
  | releases =>
      obtain rfl := Option.some.inj hp
      exact find_deleteId_ne hne
  | completesGone => rfl
  | lost err => rfl
  | _ => cases hp

/-! ## What a replay repeats -/

/-- Call `x` inserted the row `id` for `c` at time `t` and was told `new`. -/
def Reserved (tr : Trace) (x : ℕ) (c : Claim) (id : Uuid) (t : Time) : Prop :=
  ∃ e ∈ tr, e.label = (x, .create id t) ∧ e.pre.client x = .create c ∧
    e.post.client x = .answered c (.new id)

/-- A `complete` stored this answer in the row `id`. -/
def Stored (tr : Trace) (id : Uuid) (statusCode : ℕ) (body : Option String) : Prop :=
  ∃ e ∈ tr, e.pre.client e.label.1 = .update id statusCode body ∧
    e.post.client e.label.1 = .finished

/-- The answer was stored under a reservation, made at `t₀`, of the same user, key
and fingerprint. -/
def StoredByHolder (tr : Trace) (c : Claim) (statusCode : ℕ) (body : Option String) (t₀ : Time) :
    Prop :=
  ∃ x c' id body', Reserved tr x c' id t₀ ∧ c'.owner = c.owner ∧ c'.fingerprint = c.fingerprint ∧
    Stored tr id statusCode body' ∧ body = some (body'.getD "null")

/-- Where a row and its answer come from. -/
structure Origin (tr : Trace) (row : IdempotencyKey) : Prop where
  reserved : ∃ x c, Reserved tr x c row.id row.createdAt ∧ c.owner = row.owner ∧
    c.fingerprint = row.fingerprint
  stored : row.status = .completed → ∃ statusCode body, Stored tr row.id statusCode body ∧
    row.statusCode = some statusCode ∧ row.responseBody = some (body.getD "null")

section History
variable {tr us : Trace} {row : IdempotencyKey}

theorem Reserved.mono {x : ℕ} {c : Claim} {id : Uuid} {t : Time} (h : Reserved tr x c id t) :
    Reserved (tr ++ us) x c id t := by
  obtain ⟨e, he, hrest⟩ := h
  exact ⟨e, List.mem_append_left _ he, hrest⟩

theorem Stored.mono {id : Uuid} {statusCode : ℕ} {body : Option String}
    (h : Stored tr id statusCode body) : Stored (tr ++ us) id statusCode body := by
  obtain ⟨e, he, hrest⟩ := h
  exact ⟨e, List.mem_append_left _ he, hrest⟩

theorem Origin.mono (h : Origin tr row) : Origin (tr ++ us) row where
  reserved := by
    obtain ⟨x, c, hres, hrest⟩ := h.reserved
    exact ⟨x, c, hres.mono, hrest⟩
  stored hcompleted := by
    obtain ⟨statusCode, body, hst, hrest⟩ := h.stored hcompleted
    exact ⟨statusCode, body, hst.mono, hrest⟩

/-- Every row's origin is in the run so far. -/
def Traced (tr : Trace) (s : State) : Prop := ∀ row ∈ s.data.keys.table.rows, Origin tr row

theorem Traced.event {s t : State} {l : ℕ × Input} (h : Traced tr s)
    (hn : Reservations.next l s = some t) : Traced (tr ++ [⟨s, l, t⟩]) t := by
  obtain ⟨q, d, hs, rfl⟩ := next_statement hn
  obtain ⟨x, i⟩ := l
  have hkeep : ∀ row ∈ s.data.keys.table.rows,
      Origin (tr ++ [⟨s, (x, i), ⟨d, Function.update s.client x q⟩⟩]) row :=
    fun row hrow => (h row hrow).mono
  generalize hp : s.client x = p at hs
  cases hs with
  | @reserves _ c id now keys hnew hinsert =>
      intro row hrow
      rcases (IndexedTable.mem_insert hinsert).mp hrow with hold | rfl
      · exact hkeep row hold
      · refine ⟨⟨x, c, ⟨_, List.mem_append_right _ List.mem_cons_self, rfl, hp, ?_⟩, rfl, rfl⟩, ?_⟩
        · exact Function.update_self x _ _
        · exact nofun
  | @completes _ id statusCode body =>
      intro row hrow
      rcases Idempotency.mem_completeRow.mp hrow with ⟨hold, -⟩ | ⟨r, hr, rfl⟩
      · exact hkeep row hold
      · have hmem := Table.mem_of_find hr
        have hid : r.id = id := Table.find_key hr
        refine ⟨(hkeep r hmem).reserved, fun _ => ⟨statusCode, body, ?_, rfl, rfl⟩⟩
        refine ⟨_, List.mem_append_right _ List.mem_cons_self, ?_, Function.update_self x _ _⟩
        change s.client x = .update r.id statusCode body
        rw [hp, hid]
  | deletes => exact fun row hrow => hkeep row (mem_deleteId.mp hrow).1
  | releases => exact fun row hrow => hkeep row (mem_deleteId.mp hrow).1
  | _ => exact hkeep

theorem traced {s : State} (h : Run Reservations.next (start .empty) tr s) : Traced tr s := by
  refine h.history (fun _ => True) Traced ?_ (fun tr l s t hi hl _ => hi.event hl)
    (fun _ _ => trivial)
  intro row hrow
  cases hrow

theorem existing_replay {c : Claim} {statusCode : ℕ} {body : Option String}
    (h : existing c row = .replay statusCode body) : row.fingerprint = c.fingerprint ∧
      row.status = .completed ∧ row.statusCode.getD 200 = statusCode ∧
      row.responseBody = body := by
  unfold existing at h
  split_ifs at h with hfingerprint hstatus
  rw [Reservation.replay.injEq] at h
  exact ⟨not_not.mp hfingerprint, not_not.mp hstatus, h⟩

/-- Only the read of a row that has not expired leads to a replay. -/
theorem replay_statement {i : Input} {p : Pc} {s s' : Shared} {c : Claim} {statusCode : ℕ}
    {body : Option String} (hs : Statement i p s (.answered c (.replay statusCode body)) s') :
    ∃ t row, i = .now t ∧ s.keys.lookup c.owner = some row ∧ t ≤ row.createdAt + ttl ∧
      existing c row = .replay statusCode body := by
  generalize hq : Pc.answered c (.replay statusCode body) = q at hs
  cases hs with
  | call k => cases k <;> cases hq
  | answers t row hrow hyoung =>
      rw [Pc.answered.injEq] at hq
      obtain ⟨rfl, hreplay⟩ := hq
      exact ⟨t, row, rfl, hrow, hyoung, hreplay.symm⟩
  | _ => cases hq

/-- A replay repeats what was stored in the row it read. -/
theorem replay_origin {s t : State} {l : ℕ × Input} {c : Claim} {statusCode : ℕ}
    {body : Option String} (h : Traced tr s) (hn : Reservations.next l s = some t)
    (hreplay : t.client l.1 = .answered c (.replay statusCode body)) :
    ∃ t t₀, l.2 = .now t ∧ t ≤ t₀ + ttl ∧ StoredByHolder tr c statusCode body t₀ := by
  obtain ⟨q, d, hs, rfl⟩ := next_statement hn
  have hq : q = .answered c (.replay statusCode body) :=
    (Function.update_self l.1 q s.client).symm.trans hreplay
  rw [hq] at hs
  obtain ⟨t, row, hnow, hrow, hyoung, hexisting⟩ := replay_statement hs
  obtain ⟨hmem, howner⟩ := IndexedTable.lookup_eq_some.mp hrow
  obtain ⟨hfingerprint, hcompleted, hcode, hbody⟩ := existing_replay hexisting
  obtain ⟨⟨x, c', hreserved, howner', hfingerprint'⟩, hstored⟩ := h row hmem
  obtain ⟨code, body', hst, hcode', hbody'⟩ := hstored hcompleted
  have hsame : code = statusCode := by rw [← hcode, hcode', Option.getD_some]
  rw [hsame] at hst
  exact ⟨t, row.createdAt, hnow, hyoung, x, c', row.id, body', hreserved, howner'.trans howner,
    hfingerprint'.trans hfingerprint, hst, by rw [← hbody, hbody']⟩

end History

/-- A request for the key with another fingerprint is told so. -/
theorem mismatch_statement {p q : Pc} {s s' : Shared} {c : Claim} {t : Time}
    {row : IdempotencyKey} (hs : Statement (.now t) p s q s') (hp : p = .findUnique c)
    (hrow : s.keys.lookup c.owner = some row) (hyoung : t ≤ row.createdAt + ttl)
    (hfingerprint : row.fingerprint ≠ c.fingerprint) : q = .answered c .mismatch := by
  cases hs with
  | vanished _ hgone =>
      cases hp
      rw [hrow] at hgone
      cases hgone
  | expired _ row' hrow' hold =>
      cases hp
      obtain rfl : row = row' := Option.some.inj (hrow.symm.trans hrow')
      exact absurd hold (not_lt.mpr hyoung)
  | answers _ row' hrow' =>
      cases hp
      obtain rfl : row = row' := Option.some.inj (hrow.symm.trans hrow')
      rw [existing, if_pos hfingerprint]

/-- The reservation protocol: one holder of a key has its row, a holder finishes
its own row only, a replay repeats what a holder of the same request stored no more
than 24 hours after it had reserved, and another request is told that it differs. -/
theorem reservation_protocol {tr : Trace} {s : State} (h : Run next (start .empty) tr s) :
    (∀ x y c c' id id', holds (s.client x) = some (c, id) → holds (s.client y) = some (c', id') →
      c.owner = c'.owner → s.data.keys.find id ≠ none → s.data.keys.find id' ≠ none → x = y) ∧
    (∀ e ∈ tr, ∀ x y c c' id id', holds (e.pre.client x) = some (c, id) →
      holds (e.pre.client y) = some (c', id') → x ≠ y →
      finishes (e.pre.client e.label.1) = some id →
      e.post.data.keys.find id' = e.pre.data.keys.find id') ∧
    (∀ before e after, tr = before ++ e :: after → ∀ c statusCode body,
      e.post.client e.label.1 = .answered c (.replay statusCode body) →
      ∃ t t₀, e.label.2 = .now t ∧ t ≤ t₀ + ttl ∧
        StoredByHolder before c statusCode body t₀) ∧
    (∀ e ∈ tr, ∀ c t row, e.pre.client e.label.1 = .findUnique c → e.label.2 = .now t →
      e.pre.data.keys.lookup c.owner = some row → t ≤ row.createdAt + ttl →
      row.fingerprint ≠ c.fingerprint → e.post.client e.label.1 = .answered c .mismatch) := by
  have hstep : ∀ l s t, Inv s.client s.data → next l s = some t → Inv t.client t.data :=
    fun _ _ _ hi hn => hi.next hn
  have hinv := h.invariant (fun s => Inv s.client s.data) (start_inv .empty) hstep
  have hpre := h.pre_invariant (fun s => Inv s.client s.data) (start_inv .empty) hstep
  refine ⟨fun x y c c' id id' hx hy ho hid hid' => hinv.one_holder hx hy ho hid hid', ?_, ?_, ?_⟩
  · intro e he x y c c' id id' hx hy hxy hfin
    obtain ⟨q, d, hs, hpost⟩ := next_statement (h.event_next e he)
    have hne : id' ≠ id := by
      rintro rfl
      exact hxy ((hpre e he).sole x y c c' id' hx hy)
    rw [hpost]
    exact finishes_frame hs hfin hne
  · intro before e after htr c statusCode body hreplay
    have he : e ∈ tr := by rw [htr]; exact List.mem_append_right _ List.mem_cons_self
    exact replay_origin (traced (h.split htr).1) (h.event_next e he) hreplay
  · intro e he c t row hp hnow hrow hyoung hfingerprint
    obtain ⟨q, d, hs, hpost⟩ := next_statement (h.event_next e he)
    rw [hnow] at hs
    rw [hpost, ← mismatch_statement hs hp hrow hyoung hfingerprint]
    exact Function.update_self _ _ _

def replayOf : Pc → Option (ℕ × Option String)
  | .answered _ (.replay statusCode body) => some (statusCode, body)
  | _ => none

theorem replayOf_eq {p : Pc} {r : ℕ × Option String} (h : replayOf p = some r) :
    ∃ c, p = .answered c (.replay r.1 r.2) := by
  unfold replayOf at h
  split at h
  · next c statusCode body =>
      cases h
      exact ⟨c, rfl⟩
  · cases h

/-- A deposit of user 1 under the key `"k"`. -/
def deposit : Claim := ⟨1, "k", "POST /wallets/9/deposits"⟩

/-- The first holder's row expires and goes to a second holder; what the first one
still has to store and to release finds nothing, and the second one's answer is
replayed. -/
theorem reservation_protocol_expired :
    ∃ tr s, Run next (start .empty) tr s ∧
      replayOf (s.client 4) = some (201, some "later") ∧ s.data.keys.find 7 = none ∧
      ∀ x y c c' id id', holds (s.client x) = some (c, id) → holds (s.client y) = some (c', id') →
        c.owner = c'.owner → s.data.keys.find id ≠ none → s.data.keys.find id' ≠ none →
        x = y := by
  obtain ⟨tr, s, hrun, -, hs⟩ := Run.of_trace_map next
    [(0, .call (.reserve deposit)), (0, .create 7 10),
      (1, .call (.reserve deposit)), (1, .create 8 90000000), (1, .now 90000000), (1, .go),
      (1, .create 9 90000000),
      (2, .call (.complete 7 201 (some "earlier"))), (2, .go),
      (3, .call (.release 7)), (3, .go),
      (5, .call (.complete 9 201 (some "later"))), (5, .go),
      (4, .call (.reserve deposit)), (4, .create 10 90000000), (4, .now 90000001)]
    (start .empty) (fun _ s => (replayOf (s.client 4), s.data.keys.find 7))
    (some (201, some "later"), none) (by decide)
  rw [Prod.mk.injEq] at hs
  exact ⟨tr, s, hrun, hs.1, hs.2, (reservation_protocol hrun).1⟩

/-- Exactly 24 hours after it was reserved a key still replays. -/
theorem replays_on_the_day :
    ∃ before e s, Run next (start .empty) (before ++ [e]) s ∧ ∃ c statusCode body t,
      e.post.client e.label.1 = .answered c (.replay statusCode body) ∧ e.label.2 = .now t ∧
      ¬ ∃ t₀, t < t₀ + ttl ∧ StoredByHolder before c statusCode body t₀ := by
  obtain ⟨before, s, hrun, hlabels, hs⟩ := Run.of_trace_map next
    [(0, .call (.reserve deposit)), (0, .create 7 0),
      (1, .call (.complete 7 201 none)), (1, .go),
      (2, .call (.reserve deposit)), (2, .create 8 0)]
    (start .empty) (fun _ s => (next (2, .now ttl) s).map fun t => replayOf (t.client 2))
    (some (some (201, some "null"))) (by decide)
  obtain ⟨t, hnext, hreplay⟩ := Option.map_eq_some_iff.mp hs
  obtain ⟨c, hc⟩ := replayOf_eq hreplay
  refine ⟨before, _, t, hrun.step (2, .now ttl) hnext, c, 201, some "null", ttl, hc, rfl, ?_⟩
  rintro ⟨t₀, hlt, x, c', id, body, ⟨e, he, hlabel, -⟩, -⟩
  have hmem : (x, Input.create id t₀) ∈ before.map Event.label :=
    List.mem_map.mpr ⟨e, he, hlabel⟩
  rw [hlabels] at hmem
  have ht₀ : t₀ = 0 := by
    simp only [List.mem_cons, Prod.mk.injEq, reduceCtorEq, Input.create.injEq, and_false,
      false_or, List.not_mem_nil, or_false] at hmem
    rcases hmem with ⟨-, -, ht⟩ | ⟨-, -, ht⟩
    · exact ht
    · exact ht
  rw [ht₀, Nat.zero_add] at hlt
  exact lt_irrefl ttl hlt

/-! ## Every reservation is answered -/

/-- The call may still insert a row. -/
def mayInsert : Pc → ℕ
  | .idle | .create _ | .findUnique _ | .delete .. => 1
  | _ => 0

/-- Statements a call has before it, as long as nobody deletes a row. A read that
will find nothing leads back to the INSERT. -/
def weight (s : Shared) : Pc → ℕ
  | .idle => 4
  | .create _ => 3
  | .findUnique c => if s.keys.lookup c.owner = none then 4 else 2
  | .delete .. | .update .. | .deleteMany _ => 1
  | _ => 0

/-- A deletion costs each of `n` calls at most two statements more. There are at most
as many deletions as rows, those that are there and those that may be inserted. -/
def value (n : ℕ) (s : Shared) (p : Pc) : ℕ := weight s p + (2 * n + 1) * mayInsert p

def rowCount (s : Shared) : ℕ := s.keys.table.rows.length

def potential (n : ℕ) (s : State) : ℕ :=
  ∑ x ∈ Finset.range n, value n s.data (s.client x) + (2 * n + 1) * rowCount s.data

section Potential
variable {s s' : Shared} {p q : Pc} {n : ℕ}

theorem weight_le_add_two (r : Pc) : weight s' r ≤ weight s r + 2 := by
  cases r with
  | findUnique c =>
      simp only [weight]
      split_ifs <;> omega
  | _ => exact Nat.le_add_right _ _

/-- As long as no key loses its row, no call gets more to do. -/
theorem weight_le (h : ∀ o, s'.keys.lookup o = none → s.keys.lookup o = none) (r : Pc) :
    weight s' r ≤ weight s r := by
  cases r with
  | findUnique c =>
      simp only [weight]
      split_ifs with hnew hold
      · exact le_rfl
      · exact absurd (h _ hnew) hold
      · omega
      · exact le_rfl
  | _ => exact le_rfl

theorem lookup_none_of_owners {keys : KeyTable}
    (h : ∀ row ∈ s.keys.table.rows, ∃ r ∈ keys.table.rows, r.owner = row.owner)
    (o : Uuid × String) (ho : keys.lookup o = none) : s.keys.lookup o = none := by
  rw [IndexedTable.lookup_eq_none] at ho ⊢
  intro row hrow
  obtain ⟨r, hr, hro⟩ := h row hrow
  rw [← hro]
  exact ho r hr

theorem rowCount_deleteId_le (id : Uuid) : rowCount (deleteId s id) ≤ rowCount s :=
  List.length_filter_le _ _

theorem rowCount_deleteId {id : Uuid} (h : s.keys.find id ≠ none) :
    rowCount (deleteId s id) < rowCount s := by
  obtain ⟨row, hrow⟩ := Option.ne_none_iff_exists'.mp h
  have hid : row.id = id := Table.find_key hrow
  have hlt : (s.keys.table.rows.filter fun row => !decide (row.id = id)).length <
      s.keys.table.rows.length := by
    rw [List.length_filter_lt_length_iff_exists]
    exact ⟨row, Table.mem_of_find hrow, by simp [hid]⟩
  exact hlt

theorem rowCount_completeRow (id : Uuid) (statusCode : ℕ) (body : Option String) :
    rowCount (completeRow s id statusCode body) = rowCount s :=
  List.length_map _

theorem rowCount_insert {c : Claim} {id : Uuid} {now : Time} {keys : KeyTable}
    (h : s.keys.insert (claimRow c id now) = some keys) :
    rowCount { s with keys := keys, drawn := id :: s.drawn } = rowCount s + 1 := by
  simp only [rowCount, Table.insert_rows (IndexedTable.insert_table h), List.length_append,
    List.length_singleton]

theorem lookup_of_insert {c : Claim} {id : Uuid} {now : Time} {keys : KeyTable}
    (h : s.keys.insert (claimRow c id now) = some keys) (o : Uuid × String)
    (ho : keys.lookup o = none) : s.keys.lookup o = none := by
  refine lookup_none_of_owners (fun row hrow => ⟨row, ?_, rfl⟩) o ho
  exact (IndexedTable.mem_insert h).mpr (.inl hrow)

theorem lookup_of_complete {id : Uuid} {statusCode : ℕ} {body : Option String}
    (o : Uuid × String) (ho : (completeRow s id statusCode body).keys.lookup o = none) :
    s.keys.lookup o = none := by
  refine lookup_none_of_owners (fun row hrow => ?_) o ho
  by_cases hid : row.id = id
  · have hfind : s.keys.find id = some row := hid ▸ Table.find_of_mem hrow
    exact ⟨_, Idempotency.mem_completeRow.mpr (.inr ⟨row, hfind, rfl⟩), rfl⟩
  · exact ⟨row, Idempotency.mem_completeRow.mpr (.inl ⟨hrow, hid⟩), rfl⟩

theorem lookup_of_deleteId {id : Uuid} (h : s.keys.find id = none) (o : Uuid × String)
    (ho : (deleteId s id).keys.lookup o = none) : s.keys.lookup o = none := by
  refine lookup_none_of_owners (fun row hrow => ⟨row, mem_deleteId.mpr ⟨hrow, ?_⟩, rfl⟩) o ho
  exact Table.find_eq_none.mp h row hrow

/-- The id is fresh, so a refused INSERT has met a row of the same key. -/
theorem lookup_of_taken {c : Claim} {id : Uuid} {now : Time}
    (hdrawn : ∀ row ∈ s.keys.table.rows, row.id ∈ s.drawn) (hnew : id ∉ s.drawn)
    (hinsert : s.keys.insert (claimRow c id now) = none) : s.keys.lookup c.owner ≠ none := by
  rcases IndexedTable.insert_refused hinsert with hid | howner
  · obtain ⟨row, hrow⟩ := Option.ne_none_iff_exists'.mp hid
    have hmem := hdrawn row (Table.mem_of_find hrow)
    rw [Table.find_key hrow] at hmem
    exact absurd hmem hnew
  · exact howner

/-- What one statement does to the potential: it is used up, or a row goes and the
others get at most two statements more. -/
inductive Spends (n : ℕ) (p : Pc) (s : Shared) (q : Pc) (s' : Shared) : Prop
  | uses (hothers : ∀ r, weight s' r ≤ weight s r)
      (hown : value n s' q + (2 * n + 1) * rowCount s' < value n s p + (2 * n + 1) * rowCount s)
  | deletes (hrows : rowCount s' < rowCount s) (hown : value n s' q ≤ value n s p + 2)

/-- The statement leaves the number of rows and its call's right to insert. -/
theorem Spends.keeps (hothers : ∀ r, weight s' r ≤ weight s r) (hrows : rowCount s' = rowCount s)
    (hinsert : mayInsert q ≤ mayInsert p) (hown : weight s' q < weight s p) :
    Spends n p s q s' := by
  refine .uses hothers ?_
  have hle := Nat.mul_le_mul_left (2 * n + 1) hinsert
  rw [hrows, value, value]
  omega

theorem Spends.same (hinsert : mayInsert q ≤ mayInsert p) (hown : weight s q < weight s p) :
    Spends n p s q s :=
  .keeps (fun _ => le_rfl) rfl hinsert hown

theorem weight_absent {c : Claim} (h : s.keys.lookup c.owner = none) :
    weight s (.findUnique c) = 4 := if_pos h

theorem weight_present {c : Claim} (h : s.keys.lookup c.owner ≠ none) :
    weight s (.findUnique c) = 2 := if_neg h

theorem weight_findUnique_pos (c : Claim) : 0 < weight s (.findUnique c) := by
  by_cases h : s.keys.lookup c.owner = none
  · rw [weight_absent h]
    decide
  · rw [weight_present h]
    decide

theorem weight_lost {err : HttpException} (h : ∃ q, Reservations.lost err p = some q) :
    0 < weight s p := by
  obtain ⟨q, h⟩ := h
  cases p with
  | findUnique c => exact weight_findUnique_pos c
  | create c => exact Nat.succ_pos 2
  | delete | update | deleteMany => exact Nat.one_pos
  | _ => cases h

theorem Statement.spends {i : Input} (hs : Statement i p s q s')
    (hdrawn : ∀ row ∈ s.keys.table.rows, row.id ∈ s.drawn) : Spends n p s q s' := by
  cases hs with
  | call k =>
      cases k with
      | reserve c => exact .same le_rfl (by decide : 3 < 4)
      | complete | release => exact .same (Nat.zero_le 1) (by decide : 1 < 4)
  | reserves id now keys hnew hinsert =>
      refine .uses (weight_le (lookup_of_insert hinsert)) ?_
      rw [rowCount_insert hinsert, Nat.mul_add]
      simp only [value, weight, mayInsert]
      omega
  | taken id now hnew hinsert =>
      refine .keeps (weight_le fun _ ho => ho) rfl le_rfl ?_
      have hfound := lookup_of_taken hdrawn hnew hinsert
      exact (weight_present hfound).trans_lt (by decide : 2 < 3)
  | vanished t hgone =>
      refine .same le_rfl ?_
      rw [weight_absent hgone]
      exact (by decide : 3 < 4)
  | @expired _ c t row hrow =>
      have hfound : s.keys.lookup c.owner ≠ none := Option.ne_none_iff_exists'.mpr ⟨row, hrow⟩
      refine .same le_rfl ?_
      rw [weight_present hfound]
      exact (by decide : 1 < 2)
  | @answers _ c t row hrow => exact .same (Nat.zero_le 1) (weight_findUnique_pos c)
  | deletes hfound =>
      refine .deletes (rowCount_deleteId hfound) ?_
      simp only [value, weight, mayInsert]
      omega
  | deletesGone => exact .same (Nat.zero_le 1) Nat.one_pos
  | completes =>
      exact .keeps (weight_le lookup_of_complete) (rowCount_completeRow _ _ _) le_rfl Nat.one_pos
  | completesGone => exact .same le_rfl Nat.one_pos
  | @releases _ id =>
      by_cases hfound : s.keys.find id = none
      · refine .uses (weight_le (lookup_of_deleteId hfound)) ?_
        have hle := Nat.mul_le_mul_left (2 * n + 1) (rowCount_deleteId_le (s := s) id)
        simp only [value, weight, mayInsert]
        omega
      · refine .deletes (rowCount_deleteId hfound) ?_
        simp only [value, weight, mayInsert]
        omega
  | lost err hp => exact .same (Nat.zero_le _) (weight_lost hp)

theorem potential_next {l : ℕ × Input} {s t : State} (hn : Reservations.next l s = some t)
    (hl : l.1 < n) (hdrawn : ∀ row ∈ s.data.keys.table.rows, row.id ∈ s.data.drawn) :
    potential n t < potential n s := by
  obtain ⟨q, d, hs, rfl⟩ := next_statement hn
  simp only [potential]
  have hmoved : ∀ y ≠ l.1, Function.update s.client l.1 q y = s.client y :=
    fun y hy => Function.update_of_ne hy _ _
  cases hs.spends (n := n) hdrawn with
  | uses hothers hown =>
      have hsum := sum_client_le (f := fun x => value n s.data (s.client x))
        (g := fun x => value n d (Function.update s.client l.1 q x)) (d := 0) hl fun y hy => by
          simp only [hmoved y hy, value]
          exact Nat.add_le_add_right (hothers _) _
      simp only [Function.update_self, Nat.mul_zero, Nat.add_zero] at hsum
      omega
  | deletes hrows hown =>
      have hsum := sum_client_le (f := fun x => value n s.data (s.client x))
        (g := fun x => value n d (Function.update s.client l.1 q x)) (d := 2) hl fun y hy => by
          simp only [hmoved y hy, value]
          have hle : weight d (s.client y) ≤ weight s.data (s.client y) + 2 :=
            weight_le_add_two _
          omega
      simp only [Function.update_self] at hsum
      have hless := Nat.mul_le_mul_left (2 * n + 1) (Nat.succ_le_of_lt hrows)
      rw [Nat.mul_succ] at hless
      omega

/-- However `n` calls are interleaved, they execute a bounded number of statements. -/
theorem statements_bounded {keys : KeyTable} {tr : Trace} {s : State}
    (h : Run Reservations.next (start keys) tr s) (hn : ∀ e ∈ tr, e.label.1 < n) :
    tr.length ≤ n * (2 * n + 5) + (2 * n + 1) * keys.table.rows.length := by
  have hpre := h.pre_invariant (fun s => Inv s.client s.data) (start_inv keys)
    fun _ _ _ hi hn => hi.next hn
  have hlength := h.length_add_le (potential n) fun e he =>
    potential_next (h.event_next e he) (hn e he) (hpre e he).drawn
  have hstart : potential n (start keys) =
      n * (2 * n + 5) + (2 * n + 1) * keys.table.rows.length := by
    simp only [potential, start, value, weight, mayInsert, rowCount, Finset.sum_const,
      Finset.card_range, smul_eq_mul]
    ring
  omega

end Potential

/-! ## The expired row that is already gone -/

/-- Call `x` was made to reserve `c`. -/
def Called (tr : Trace) (x : ℕ) (c : Claim) : Prop :=
  ∃ e ∈ tr, e.label = (x, .call (.reserve c))

/-- The claim of a `reserve` that has not answered. -/
def reserving : Pc → Option Claim
  | .create c | .findUnique c | .delete c _ => some c
  | _ => none

/-- The DELETE of an expired row that finds it, or any other statement. -/
def FindsRow (e : Event (ℕ × Input) State) : Prop :=
  ∀ c id, e.pre.client e.label.1 = .delete c id → e.label.2 = .go →
    e.pre.data.keys.find id ≠ none

/-- Where a call stands that was made to reserve `c`. -/
inductive Stands (tr : Trace) (x : ℕ) (c : Claim) : Pc → Prop
  | reserving {p : Pc} (hp : reserving p = some c) : Stands tr x c p
  | answered (r : Reservation) : Stands tr x c (.answered c r)
  | failed (e : Event (ℕ × Input) State) (he : e ∈ tr) (hx : e.label.1 = x)
      (hgone : ¬ FindsRow e) : Stands tr x c (.failed recordNotFound)

/-- What the calls' states say about the run so far. -/
structure Told (tr : Trace) (s : State) : Prop where
  called : ∀ x c, reserving (s.client x) = some c → Called tr x c
  stands : ∀ x c, Called tr x c → Stands tr x c (s.client x)
  failed : ∀ e ∈ tr, ¬ FindsRow e →
    (∃ c, Called tr e.label.1 c) ∧ s.client e.label.1 = .failed recordNotFound

section Told
variable {tr us : Trace} {s t : State} {x : ℕ} {c : Claim}

theorem Called.mono (h : Called tr x c) : Called (tr ++ us) x c := by
  obtain ⟨e, he, hlabel⟩ := h
  exact ⟨e, List.mem_append_left _ he, hlabel⟩

theorem called_append {l : ℕ × Input} : Called (tr ++ [⟨s, l, t⟩]) x c ↔
    Called tr x c ∨ l = (x, .call (.reserve c)) := by
  constructor
  · rintro ⟨e, he, hlabel⟩
    rcases List.mem_append.mp he with he | he
    · exact .inl ⟨e, he, hlabel⟩
    · rw [List.mem_singleton] at he
      subst he
      exact .inr hlabel
  · rintro (h | h)
    · exact h.mono
    · exact ⟨_, List.mem_append_right _ List.mem_cons_self, h⟩

theorem Stands.mono {p : Pc} (h : Stands tr x c p) : Stands (tr ++ us) x c p := by
  cases h with
  | reserving hp => exact .reserving hp
  | answered r => exact .answered r
  | failed e he hx hgone => exact .failed e (List.mem_append_left _ he) hx hgone

/-- One statement of a call that reserves `c`. -/
theorem Stands.statement {i : Input} {p q : Pc} {d d' : Shared} (h : Stands tr x c p)
    (hs : Statement i p d q d') (hout : ∀ err, i ≠ .lost err) :
    Stands tr x c q ∨ (q = .failed recordNotFound ∧ ∃ id, p = .delete c id ∧ i = .go ∧
      d.keys.find id = none) := by
  cases h with
  | reserving hp =>
      cases hs with
      | reserves id =>
          obtain rfl := Option.some.inj hp
          exact .inl (.answered _)
      | taken => exact .inl (.reserving hp)
      | vanished => exact .inl (.reserving hp)
      | expired => exact .inl (.reserving hp)
      | answers =>
          obtain rfl := Option.some.inj hp
          exact .inl (.answered _)
      | deletes => exact .inl (.reserving hp)
      | @deletesGone _ _ id hgone =>
          obtain rfl := Option.some.inj hp
          exact .inr ⟨rfl, id, rfl, rfl, hgone⟩
      | lost err => exact absurd rfl (hout err)
      | _ => cases hp
  | answered r =>
      cases hs with
      | lost err => exact absurd rfl (hout err)
  | failed =>
      cases hs with
      | lost err => exact absurd rfl (hout err)

/-- A statement that leaves the call reserving `c` belongs to a call that does already
or that begins to. -/
theorem called_of_statement {i : Input} {p q : Pc} {d d' : Shared} (hs : Statement i p d q d')
    (hq : reserving q = some c) : reserving p = some c ∨ i = .call (.reserve c) := by
  cases hs with
  | call k =>
      cases k with
      | reserve c' =>
          obtain rfl := Option.some.inj hq
          exact .inr rfl
      | _ => cases hq
  | taken => exact .inl hq
  | vanished => exact .inl hq
  | expired => exact .inl hq
  | deletes => exact .inl hq
  | _ => cases hq

theorem deletesGone_of_statement {i : Input} {q : Pc} {id : Uuid} {d d' : Shared}
    (hs : Statement i (.delete c id) d q d') (hgo : i = .go) (hgone : d.keys.find id = none) :
    q = .failed recordNotFound := by
  cases hs with
  | deletes hfound => exact absurd hgone hfound
  | deletesGone => rfl
  | lost err => cases hgo

theorem reserving_of_call {i : Input} {p q : Pc} {d d' : Shared} (hs : Statement i p d q d')
    (hi : i = .call (.reserve c)) : reserving q = some c := by
  cases hs with
  | call k =>
      cases hi
      rfl
  | _ => cases hi

/-- A call that has thrown executes nothing any more. -/
theorem not_statement_failed {i : Input} {q : Pc} {err : HttpException} {d d' : Shared} :
    ¬ Statement i (.failed err) d q d' := by
  intro hs
  cases hs with
  | lost _ hp =>
      obtain ⟨q, hq⟩ := hp
      cases hq

theorem not_findsRow {e : Event (ℕ × Input) State} (h : ¬ FindsRow e) :
    ∃ c id, e.pre.client e.label.1 = .delete c id ∧ e.label.2 = .go ∧
      e.pre.data.keys.find id = none := by
  simp only [FindsRow, not_forall, not_not] at h
  obtain ⟨c, id, hp, hgo, hgone⟩ := h
  exact ⟨c, id, hp, hgo, hgone⟩

theorem Told.event {l : ℕ × Input} (h : Told tr s) (hn : Reservations.next l s = some t)
    (hout : ∀ err, l.2 ≠ .lost err) : Told (tr ++ [⟨s, l, t⟩]) t := by
  obtain ⟨q, d, hs, rfl⟩ := next_statement hn
  have hlast : (⟨s, l, ⟨d, Function.update s.client l.1 q⟩⟩ : Event (ℕ × Input) State) ∈
      tr ++ [⟨s, l, ⟨d, Function.update s.client l.1 q⟩⟩] :=
    List.mem_append_right _ List.mem_cons_self
  refine ⟨fun y c hy => ?_, fun y c hy => ?_, fun e he hgone => ?_⟩
  · rw [called_append]
    by_cases hyx : y = l.1
    · subst hyx
      simp only [Function.update_self] at hy
      rcases called_of_statement hs hy with hold | hcall
      · exact .inl (h.called _ c hold)
      · exact .inr (by rw [← hcall])
    · simp only [Function.update_of_ne hyx] at hy
      exact .inl (h.called y c hy)
  · by_cases hyx : y = l.1
    · subst hyx
      simp only [Function.update_self]
      rcases called_append.mp hy with hold | hcall
      · rcases (h.stands _ c hold).statement hs hout with hq | ⟨rfl, id, hp, hgo, hgone⟩
        · exact hq.mono
        · refine .failed ⟨s, l, _⟩ hlast rfl fun hfinds => ?_
          exact hfinds c id hp hgo hgone
      · exact .reserving (reserving_of_call hs (by rw [hcall]))
    · simp only [Function.update_of_ne hyx]
      rcases called_append.mp hy with hold | hcall
      · exact (h.stands y c hold).mono
      · exact absurd (by rw [hcall]) hyx
  · rcases List.mem_append.mp he with he | he
    · obtain ⟨⟨c, hcalled⟩, hfailed⟩ := h.failed e he hgone
      refine ⟨⟨c, hcalled.mono⟩, ?_⟩
      have hne : e.label.1 ≠ l.1 := by
        intro heq
        rw [← heq, hfailed] at hs
        exact not_statement_failed hs
      exact (Function.update_of_ne hne _ _).trans hfailed
    · rw [List.mem_singleton] at he
      subst he
      obtain ⟨c, id, hp, hgo, hmissing⟩ := not_findsRow hgone
      refine ⟨⟨c, (h.called l.1 c (by rw [hp, reserving])).mono⟩, ?_⟩
      rw [hp] at hs
      have hq := deletesGone_of_statement hs hgo hmissing
      exact (Function.update_self _ _ _).trans hq

theorem told {keys : KeyTable} (h : Run Reservations.next (start keys) tr s)
    (hout : ∀ e ∈ tr, ∀ err, e.label.2 ≠ .lost err) : Told tr s := by
  refine h.history (fun e => ∀ err, e.label.2 ≠ .lost err) Told ?_
    (fun tr l s t hi hn hc => hi.event hn hc) hout
  have hcalled : ∀ x c, ¬ Called [] x c := fun x c ⟨e, he, _⟩ => List.not_mem_nil he
  exact
    { called := fun x c hx => by cases hx
      stands := fun x c hc => absurd hc (hcalled x c)
      failed := fun e he => absurd he List.not_mem_nil }

/-- A `reserve` that has not answered can execute its next statement. -/
theorem reserving_moves (hp : reserving (s.client x) = some c) {id : Uuid}
    (hid : id ∉ s.data.drawn) (now : Time) :
    ∃ i t, (i = .create id now ∨ i = .now now ∨ i = .go) ∧
      Reservations.next (x, i) s = some t := by
  generalize hpc : s.client x = p at hp
  cases p with
  | create c' =>
      have hstep : step (.create id now) (s.client x) s.data =
          some (create s.data c' id now) := by rw [hpc, step, if_neg hid]
      exact ⟨_, _, .inl rfl, next_of_step hstep⟩
  | findUnique c' =>
      have hstep : step (.now now) (s.client x) s.data =
          some (findUnique s.data c' now, s.data) := by rw [hpc, step]
      exact ⟨_, _, .inr (.inl rfl), next_of_step hstep⟩
  | delete c' id' =>
      by_cases hgone : s.data.keys.find id' = none
      · have hstep : step .go (s.client x) s.data = some (.failed recordNotFound, s.data) := by
          rw [hpc, step, if_pos hgone]
        exact ⟨_, _, .inr (.inr rfl), next_of_step hstep⟩
      · have hstep : step .go (s.client x) s.data =
            some (.create c', deleteId s.data id') := by rw [hpc, step, if_neg hgone]
        exact ⟨_, _, .inr (.inr rfl), next_of_step hstep⟩
  | _ => cases hp

end Told

/-- `n` calls execute a bounded number of statements, and without an outage each
`reserve` among them has answered, can go on, or has thrown because the expired row
it wanted to delete was gone. So none throws exactly when every such row is found. -/
theorem reserve_always_answers {keys : KeyTable} {tr : Trace} {s : State} {n : ℕ}
    (h : Run next (start keys) tr s) (hn : ∀ e ∈ tr, e.label.1 < n)
    (hout : ∀ e ∈ tr, ∀ err, e.label.2 ≠ .lost err) :
    tr.length ≤ n * (2 * n + 5) + (2 * n + 1) * keys.table.rows.length ∧
    (∀ x c, Called tr x c → (∃ r, s.client x = .answered c r) ∨
      s.client x = .failed recordNotFound ∨ ∀ id ∉ s.data.drawn, ∀ now,
        ∃ i t, (i = .create id now ∨ i = .now now ∨ i = .go) ∧ next (x, i) s = some t) ∧
    ((∀ x c, Called tr x c → ∀ err, s.client x ≠ .failed err) ↔ ∀ e ∈ tr, FindsRow e) := by
  have htold := told h hout
  refine ⟨statements_bounded h hn, fun x c hcalled => ?_, fun hnone e he => ?_,
    fun hfinds x c hcalled err hfailed => ?_⟩
  · have hstands := htold.stands x c hcalled
    generalize hp : s.client x = p at hstands
    cases hstands with
    | reserving hr => exact .inr (.inr fun id hid now => reserving_moves (hp ▸ hr) hid now)
    | answered r => exact .inl ⟨r, rfl⟩
    | failed => exact .inr (.inl rfl)
  · by_contra hgone
    obtain ⟨⟨c, hcalled⟩, hfailed⟩ := htold.failed e he hgone
    exact hnone _ c hcalled _ hfailed
  · have hstands := htold.stands x c hcalled
    rw [hfailed] at hstands
    cases hstands with
    | reserving hr => cases hr
    | failed e he hx hgone => exact hgone (hfinds e he)

def isLost : Input → Bool
  | .lost _ => true
  | _ => false

theorem ne_lost {i : Input} (h : isLost i = false) (err : HttpException) : i ≠ .lost err := by
  rintro rfl
  cases h

/-- The row a call wants to delete is there. -/
def deletesPresent (e : Event (ℕ × Input) State) : Bool :=
  match e.pre.client e.label.1 with
  | .delete _ id => (e.pre.data.keys.find id).isSome
  | _ => true

theorem findsRow_of_present {e : Event (ℕ × Input) State} (h : deletesPresent e = true) :
    FindsRow e := by
  intro c id hp _ hgone
  have hsome : (e.pre.data.keys.find id).isSome = true := by
    rw [deletesPresent, hp] at h
    exact h
  rw [hgone] at hsome
  cases hsome

def thrown : Pc → Option HttpException
  | .failed err => some err
  | _ => none

theorem thrown_eq {p : Pc} {err : HttpException} (h : thrown p = some err) : p = .failed err := by
  unfold thrown at h
  split at h <;> cases h
  rfl

/-- What user 1 left under the key `"k"` at the beginning of the epoch. -/
def expiredRow : IdempotencyKey :=
  { claimRow deposit 5 0 with
    status := .completed
    statusCode := some 201 }

def expiredKeys : KeyTable := (IndexedTable.empty.insert expiredRow).getD .empty

/-- One call replaces the expired row, the other one finds the new reservation. -/
theorem reserve_always_answers_expired :
    ∃ tr s, Run next (start expiredKeys) tr s ∧ (∃ c, s.client 0 = .answered c (.new 8)) ∧
      ∀ x c, Called tr x c → ∀ err, s.client x ≠ .failed err := by
  obtain ⟨tr, s, hrun, -, hs⟩ := Run.of_trace_map next
    [(0, .call (.reserve deposit)), (0, .create 7 90000000), (0, .now 90000000),
      (1, .call (.reserve deposit)), (0, .go), (0, .create 8 90000001),
      (1, .create 9 90000001), (1, .now 90000002)]
    (start expiredKeys)
    (fun tr s => (tr.all fun e => decide (e.label.1 < 2) && !isLost e.label.2 && deletesPresent e,
      (holds (s.client 0)).map Prod.snd)) (true, some 8) (by decide)
  rw [Prod.mk.injEq, List.all_eq_true] at hs
  simp only [Bool.and_eq_true, decide_eq_true_eq, Bool.not_eq_true'] at hs
  obtain ⟨⟨c, id⟩, hheld, hid⟩ := Option.map_eq_some_iff.mp hs.2
  obtain rfl : id = 8 := hid
  refine ⟨tr, s, hrun, ⟨c, holds_eq hheld⟩, ?_⟩
  have hanswers := reserve_always_answers hrun (fun e he => (hs.1 e he).1.1)
    (fun e he => ne_lost (hs.1 e he).1.2)
  exact hanswers.2.2.mpr fun e he => findsRow_of_present (hs.1 e he).2

/-- Two calls read the same expired row, both delete it, the second one throws. -/
theorem reserve_throws :
    ∃ tr s, Run next (start expiredKeys) tr s ∧ (∀ e ∈ tr, ∀ err, e.label.2 ≠ .lost err) ∧
      Called tr 1 deposit ∧ s.client 1 = .failed recordNotFound := by
  obtain ⟨tr, s, hrun, hlabels, hs⟩ := Run.of_trace_map next
    [(0, .call (.reserve deposit)), (0, .create 7 90000000), (0, .now 90000000),
      (1, .call (.reserve deposit)), (1, .create 8 90000000), (1, .now 90000000),
      (0, .go), (1, .go)]
    (start expiredKeys)
    (fun tr s => (tr.all fun e => !isLost e.label.2, thrown (s.client 1)))
    (true, some recordNotFound) (by decide)
  rw [Prod.mk.injEq, List.all_eq_true] at hs
  simp only [Bool.not_eq_true'] at hs
  refine ⟨tr, s, hrun, fun e he => ne_lost (hs.1 e he), ?_, thrown_eq hs.2⟩
  have hmem : (1, Input.call (.reserve deposit)) ∈ tr.map Event.label := by
    rw [hlabels]
    simp
  exact List.mem_map.mp hmem

/-! ## The interceptor's calls -/

/-- Request `x` of the interceptor makes the calls `3 * x` of `reserve`, `3 * x + 1` of
`complete` and `3 * x + 2` of `release`; where these stand when it awaits a statement. -/
def Phase : Idempotency.Pc → Pc → Pc → Pc → Prop
  | .idle, reserve, complete, release =>
      reserve = .idle ∧ complete = .idle ∧ release = .idle
  | .create c, reserve, complete, release =>
      reserve = .create c ∧ complete = .idle ∧ release = .idle
  | .findUnique c, reserve, complete, release =>
      reserve = .findUnique c ∧ complete = .idle ∧ release = .idle
  | .delete c id, reserve, complete, release =>
      reserve = .delete c id ∧ complete = .idle ∧ release = .idle
  | .handle c id, reserve, complete, release | .afterCommit c id .., reserve, complete, release
  | .complete c id .., reserve, complete, release =>
      reserve = .answered c (.new id) ∧ complete = .idle ∧ release = .idle
  | .release c id .., reserve, _, release => reserve = .answered c (.new id) ∧ release = .idle
  | .unguarded, _, _, _ | .done .., _, _, _ | .failed _, _, _, _ => True

/-- The rows agree, and so do the calls of every request. -/
structure Serves (s : Pool Shared Idempotency.Pc) (u : State) : Prop where
  keys : u.data.keys = s.data.keys
  drawn : u.data.drawn = s.data.drawn
  phase : ∀ x, Phase (s.client x) (u.client (3 * x)) (u.client (3 * x + 1)) (u.client (3 * x + 2))

section Serves
variable {sha256 : String → String} {s t : Pool Shared Idempotency.Pc} {u v : State}

/-- The moving request's calls have moved along, the other requests' calls are where
they were. -/
theorem Serves.move (h : Serves s u) {x : ℕ} {q : Idempotency.Pc} {d : Shared}
    (hkeys : v.data.keys = d.keys) (hdrawn : v.data.drawn = d.drawn)
    (hphase : Phase q (v.client (3 * x)) (v.client (3 * x + 1)) (v.client (3 * x + 2)))
    (hother : ∀ k, k / 3 ≠ x → v.client k = u.client k) :
    Serves ⟨d, Function.update s.client x q⟩ v where
  keys := hkeys
  drawn := hdrawn
  phase y := by
    by_cases hyx : y = x
    · subst hyx
      simpa only [Function.update_self] using hphase
    · have hold := h.phase y
      rw [← hother (3 * y) (by omega), ← hother (3 * y + 1) (by omega),
        ← hother (3 * y + 2) (by omega)] at hold
      simpa only [Function.update_of_ne hyx] using hold

/-- The request moves without a call. -/
theorem Serves.stay (h : Serves s u) {x : ℕ} {q : Idempotency.Pc} {d : Shared}
    (hkeys : d.keys = s.data.keys) (hdrawn : d.drawn = s.data.drawn)
    (hphase : Phase q (u.client (3 * x)) (u.client (3 * x + 1)) (u.client (3 * x + 2))) :
    ∃ us v, Run Reservations.next u us v ∧ Serves ⟨d, Function.update s.client x q⟩ v :=
  ⟨[], u, .start, h.move (h.keys.trans hkeys.symm) (h.drawn.trans hdrawn.symm) hphase
    fun _ _ => rfl⟩

/-- The statement of the request is a statement of its `reserve`. -/
theorem Serves.reserve (h : Serves s u) {x : ℕ} {q : Idempotency.Pc} {d d' : Shared} {i : Input}
    {p : Pc} (hstep : step i (u.client (3 * x)) u.data = some (p, d')) (hkeys : d'.keys = d.keys)
    (hdrawn : d'.drawn = d.drawn)
    (hphase : Phase q p (u.client (3 * x + 1)) (u.client (3 * x + 2))) :
    ∃ us v, Run Reservations.next u us v ∧ Serves ⟨d, Function.update s.client x q⟩ v := by
  refine ⟨_, _, Run.step (3 * x, i) .start (next_of_step hstep), h.move hkeys hdrawn ?_ ?_⟩
  · have h₁ : 3 * x + 1 ≠ 3 * x := by omega
    have h₂ : 3 * x + 2 ≠ 3 * x := by omega
    simpa only [Function.update_self, Function.update_of_ne h₁, Function.update_of_ne h₂]
      using hphase
  · intro k hk
    exact Function.update_of_ne (by omega) _ _

/-- The request enters a `complete` or a `release` and executes its only statement. -/
theorem Serves.finish (h : Serves s u) {x k : ℕ} {q : Idempotency.Pc} {d d' : Shared} {c : Call}
    {p : Pc} (hk : k = 3 * x + 1 ∨ k = 3 * x + 2) (hidle : u.client k = .idle)
    (hstep : step .go c.enter u.data = some (p, d')) (hkeys : d'.keys = d.keys)
    (hdrawn : d'.drawn = d.drawn)
    (hphase : Phase q (u.client (3 * x)) (Function.update u.client k p (3 * x + 1))
      (Function.update u.client k p (3 * x + 2))) :
    ∃ us v, Run Reservations.next u us v ∧ Serves ⟨d, Function.update s.client x q⟩ v := by
  have hcall : Reservations.next (k, .call c) u =
      some ⟨u.data, Function.update u.client k c.enter⟩ :=
    next_of_step (by rw [hidle, step])
  have hgo : Reservations.next (k, .go) ⟨u.data, Function.update u.client k c.enter⟩ =
      some ⟨d', Function.update (Function.update u.client k c.enter) k p⟩ :=
    next_of_step (by simpa only [Function.update_self] using hstep)
  refine ⟨_, _, (Run.step (k, .call c) .start hcall).step (k, .go) hgo,
    h.move hkeys hdrawn ?_ ?_⟩
  · have hne : 3 * x ≠ k := by omega
    simpa only [Function.update_idem, Function.update_of_ne hne] using hphase
  · intro y hy
    have hne : y ≠ k := by omega
    simp only [Function.update_of_ne hne]

theorem Serves.create (h : Serves s u) {x : ℕ} {c : Claim} {id : Uuid} {now : Time}
    {q : Idempotency.Pc} {d : Shared} (hp : s.client x = .create c) (hnew : id ∉ s.data.drawn)
    (he : Idempotency.create s.data c id now = (q, d)) :
    ∃ us v, Run Reservations.next u us v ∧ Serves ⟨d, Function.update s.client x q⟩ v := by
  have hphase := h.phase x
  rw [hp] at hphase
  obtain ⟨hcreate, hcomplete, hrelease⟩ := hphase
  have hdrawn : id :: u.data.drawn = id :: s.data.drawn := by rw [h.drawn]
  have hstep : step (.create id now) (u.client (3 * x)) u.data =
      some (Reservations.create u.data c id now) := by
    rw [hcreate, step, if_neg (by rwa [h.drawn])]
  rw [Reservations.create, h.keys] at hstep
  unfold Idempotency.create at he
  cases hinsert : s.data.keys.insert (claimRow c id now) with
  | none =>
      rw [hinsert] at hstep he
      cases he
      exact h.reserve hstep rfl hdrawn ⟨rfl, hcomplete, hrelease⟩
  | some keys =>
      rw [hinsert] at hstep he
      cases he
      exact h.reserve hstep rfl hdrawn ⟨rfl, hcomplete, hrelease⟩

theorem Serves.findUnique (h : Serves s u) {x : ℕ} {c : Claim} {now : Time}
    (hp : s.client x = .findUnique c) :
    ∃ us v, Run Reservations.next u us v ∧
      Serves ⟨s.data, Function.update s.client x (Idempotency.findUnique s.data c now)⟩ v := by
  have hphase := h.phase x
  rw [hp] at hphase
  obtain ⟨hfind, hcomplete, hrelease⟩ := hphase
  have hstep : step (.now now) (u.client (3 * x)) u.data =
      some (Reservations.findUnique u.data c now, u.data) := by rw [hfind, step]
  refine h.reserve hstep h.keys h.drawn ?_
  rw [Reservations.findUnique, Idempotency.findUnique, h.keys]
  cases s.data.keys.lookup c.owner with
  | none => exact ⟨rfl, hcomplete, hrelease⟩
  | some row =>
      by_cases hold : row.createdAt + ttl < now
      · simp only [if_pos hold]
        exact ⟨rfl, hcomplete, hrelease⟩
      · simp only [if_neg hold]
        rcases Idempotency.onReservation_existing c row with ⟨statusCode, body, hq⟩ | ⟨err, hq⟩
        · rw [hq]
          trivial
        · rw [hq]
          trivial

theorem Serves.delete (h : Serves s u) {x : ℕ} {c : Claim} {id : Uuid}
    (hp : s.client x = .delete c id) (hfound : s.data.keys.find id ≠ none) :
    ∃ us v, Run Reservations.next u us v ∧
      Serves ⟨deleteId s.data id, Function.update s.client x (.create c)⟩ v := by
  have hphase := h.phase x
  rw [hp] at hphase
  obtain ⟨hdelete, hcomplete, hrelease⟩ := hphase
  have hstep : step .go (u.client (3 * x)) u.data = some (.create c, deleteId u.data id) := by
    rw [hdelete, step, if_neg (by rwa [h.keys])]
  exact h.reserve hstep (by simp only [deleteId, h.keys]) h.drawn ⟨rfl, hcomplete, hrelease⟩

theorem Serves.complete (h : Serves s u) {x : ℕ} {c : Claim} {id : Uuid} {statusCode : ℕ}
    {body : Option String} (hp : s.client x = .complete c id statusCode body)
    (hfound : s.data.keys.find id ≠ none) :
    ∃ us v, Run Reservations.next u us v ∧ Serves ⟨completeRow s.data id statusCode body,
      Function.update s.client x (.done statusCode body)⟩ v := by
  have hphase := h.phase x
  rw [hp] at hphase
  have hstep : step .go (Call.enter (.complete id statusCode body)) u.data =
      some (.finished, completeRow u.data id statusCode body) := by
    rw [Call.enter, step, if_neg (by rwa [h.keys])]
  exact h.finish (.inl rfl) hphase.2.1 hstep (by simp only [completeRow, h.keys]) h.drawn trivial

theorem Serves.release (h : Serves s u) {x : ℕ} {c : Claim} {id : Uuid} {err : HttpException}
    {committed : Bool} (hp : s.client x = .release c id err committed) :
    ∃ us v, Run Reservations.next u us v ∧
      Serves ⟨deleteId s.data id, Function.update s.client x (.failed err)⟩ v := by
  have hphase := h.phase x
  rw [hp] at hphase
  have hstep : step .go (Call.enter (.release id)) u.data =
      some (.finished, deleteId u.data id) := by rw [Call.enter, step]
  exact h.finish (.inr rfl) hphase.2 hstep (by simp only [deleteId, h.keys]) h.drawn trivial

theorem Serves.request (h : Serves s u) {x : ℕ} (r : Idempotency.Request)
    (hp : s.client x = .idle) :
    ∃ us v, Run Reservations.next u us v ∧
      Serves ⟨s.data, Function.update s.client x (Idempotency.intercept sha256 r)⟩ v := by
  have hphase := h.phase x
  rw [hp] at hphase
  unfold Idempotency.intercept
  split
  · split_ifs
    · exact h.stay rfl rfl trivial
    · exact h.stay rfl rfl trivial
  · split_ifs
    · exact h.stay rfl rfl trivial
    · exact h.stay rfl rfl trivial
  · split
    · exact h.stay rfl rfl trivial
    · have hstep : ∀ c, step (.call (.reserve c)) (u.client (3 * x)) u.data =
          some (.create c, u.data) := fun c => by rw [hphase.1, step, Call.enter]
      exact h.reserve (hstep _) h.keys h.drawn ⟨rfl, hphase.2⟩

theorem Serves.step (h : Serves s u) {l : ℕ × Idempotency.Input}
    (hn : Idempotency.next sha256 l s = some t) :
    ∃ us v, Run Reservations.next u us v ∧ Serves t v := by
  obtain ⟨q, d, hstep, rfl⟩ := next_cases hn
  obtain ⟨x, i⟩ := l
  have hphase := h.phase x
  simp only at hstep
  generalize hp : s.client x = p at hstep
  rw [hp] at hphase
  unfold Idempotency.step at hstep
  split at hstep
  · cases hstep
    exact h.request _ hp
  · split_ifs at hstep with hnew
    exact h.create hp hnew (Option.some.inj hstep)
  · cases hstep
    exact h.findUnique hp
  · split_ifs at hstep with hgone <;> cases hstep
    · exact h.stay rfl rfl trivial
    · exact h.delete hp hgone
  · cases hstep
    exact h.stay rfl rfl trivial
  · cases hstep
    exact h.stay rfl rfl hphase
  · cases hstep
    exact h.stay rfl rfl hphase
  · split_ifs at hstep with hgone <;> cases hstep
    · exact h.stay rfl rfl ⟨hphase.1, hphase.2.2⟩
    · exact h.complete hp hgone
  · cases hstep
    exact h.release hp
  · obtain ⟨p', hlost, he⟩ := Option.map_eq_some_iff.mp hstep
    cases he
    refine h.stay rfl rfl ?_
    unfold Idempotency.lost at hlost
    split at hlost <;> cases hlost
    any_goals trivial
    · exact ⟨hphase.1, hphase.2.2⟩
    · exact ⟨hphase.1, hphase.2.2⟩
    · exact ⟨hphase.1, hphase.2.2⟩
  · cases hstep

/-- What the interceptor does to the reservations is a run of the service's calls. -/
theorem interceptor_calls {keys : KeyTable} {tr : Idempotency.Trace}
    (h : Run (Idempotency.next sha256) (Idempotency.start keys) tr s) :
    ∃ us u, Run Reservations.next (start keys) us u ∧ Serves s u := by
  refine h.simulates Serves (fun l s t u hs hn => hs.step hn) ⟨rfl, rfl, fun x => ?_⟩
  exact ⟨rfl, rfl, rfl⟩

/-- Two requests that work under reservations of one key, both still there, are one. -/
theorem one_request_holds {keys : KeyTable} {tr : Idempotency.Trace}
    (h : Run (Idempotency.next sha256) (Idempotency.start keys) tr s) {x y : ℕ} {c c' : Claim}
    {id id' : Uuid} (hx : Idempotency.heldBy (s.client x) = some (c, id))
    (hy : Idempotency.heldBy (s.client y) = some (c', id')) (howner : c.owner = c'.owner)
    (hid : s.data.keys.find id ≠ none) (hid' : s.data.keys.find id' ≠ none) : x = y := by
  obtain ⟨us, u, hrun, hserves⟩ := interceptor_calls h
  have hinv := hrun.invariant (fun s => Inv s.client s.data) (start_inv keys)
    fun _ _ _ hi hn => hi.next hn
  have hheld : ∀ z c id, Idempotency.heldBy (s.client z) = some (c, id) →
      holds (u.client (3 * z)) = some (c, id) := by
    intro z c id hz
    have hphase := hserves.phase z
    generalize s.client z = p at hz hphase
    cases p with
    | handle | afterCommit | complete | release =>
        cases hz
        rw [hphase.1, holds]
    | _ => cases hz
  rw [← hserves.keys] at hid hid'
  have hsame := hinv.one_holder (hheld x c id hx) (hheld y c' id' hy) howner hid hid'
  omega

end Serves

end MaxOne.Reservations
