import MaxOne.Library.Interleaving
import MaxOne.Schema

/-!
# Idempotency keys

`IdempotencyInterceptor` around `IdempotencyService`, one database statement at a
time. A request is a client; `Pc` names the statement it awaits. The handler is
the controller method behind the interceptor, of which only two moments matter
here: its transaction commits or it fails before that, and after the commit it
still emits and may throw. `commits` records the commits, by user and key. Row
identifiers are drawn as `uuid()` draws them, never twice.

The interceptor's `catchError` covers the handler and `complete` alike, so it
releases a reservation also when the money has moved. As long as no release of
that kind succeeds, a key moves money at most once.
-/
namespace MaxOne.Idempotency
open Library Library.Runs Library.Interleaving MaxOne.Schema

/-- 24 hours in milliseconds. -/
def ttl : Time := 24 * 60 * 60 * 1000

inductive KeyStatus where
  | pending | completed
  deriving DecidableEq, Repr

structure IdempotencyKey where
  id : Uuid
  userId : Uuid
  key : String
  fingerprint : String
  status : KeyStatus
  statusCode : Option ℕ
  responseBody : Option String
  createdAt : Time
  deriving DecidableEq, Repr

/-- `@@unique([userId, key])`. -/
def IdempotencyKey.owner (row : IdempotencyKey) : Uuid × String := (row.userId, row.key)

abbrev KeyTable := IndexedTable IdempotencyKey IdempotencyKey.id IdempotencyKey.owner

inductive Reservation where
  | new (id : Uuid)
  | replay (statusCode : ℕ) (body : Option String)
  | mismatch
  | inProgress

/-- What the interceptor reads of a request; the body is its JSON text. -/
structure Request where
  userId : Option Uuid
  key : Option String
  required : Bool
  method : String
  url : String
  body : String

/-- The arguments of `reserve`. -/
structure Claim where
  userId : Uuid
  key : String
  fingerprint : String

def Claim.owner (c : Claim) : Uuid × String := (c.userId, c.key)

def keyRequired : HttpException :=
  ⟨400, "Idempotency-Key header is required", some "IDEMPOTENCY_KEY_REQUIRED"⟩

def idempotencyConflict (message : String) : HttpException :=
  ⟨409, message, some "IDEMPOTENCY_CONFLICT"⟩

structure Shared where
  keys : KeyTable
  drawn : List Uuid
  commits : List (Uuid × String)

inductive Pc where
  | idle
  /-- the handler of a request without a key -/
  | unguarded
  | create (c : Claim)
  | findUnique (c : Claim)
  | delete (c : Claim) (id : Uuid)
  | handle (c : Claim) (id : Uuid)
  | afterCommit (c : Claim) (id : Uuid) (statusCode : ℕ) (body : Option String)
  | complete (c : Claim) (id : Uuid) (statusCode : ℕ) (body : Option String)
  | release (c : Claim) (id : Uuid) (err : HttpException) (committed : Bool)
  | done (statusCode : ℕ) (body : Option String)
  | failed (err : HttpException)

/-- Answers of the outside world; `lost` is a statement, an emit or a handler
that throws. -/
inductive Input where
  | request (r : Request)
  | create (id : Uuid) (now : Time)
  | now (t : Time)
  | go
  | handlerCommits (statusCode : ℕ) (body : Option String)
  | lost (err : HttpException)

/-- The key means this exact request. -/
def fingerprint (sha256 : String → String) (r : Request) : String :=
  sha256 (r.method ++ " " ++ r.url ++ " " ++ r.body)

def intercept (sha256 : String → String) (r : Request) : Pc :=
  match r.key with
  | none | some "" => if r.required then .failed keyRequired else .unguarded
  | some key =>
      match r.userId with
      | none => .failed (badRequest "Idempotency requires an authenticated user")
      | some userId => .create ⟨userId, key, fingerprint sha256 r⟩

/-- `reserve`, once it has found a row that has not expired. -/
def existing (c : Claim) (row : IdempotencyKey) : Reservation :=
  if row.fingerprint ≠ c.fingerprint then .mismatch
  else if row.status ≠ .completed then .inProgress
  else .replay (row.statusCode.getD 200) row.responseBody

def onReservation (c : Claim) : Reservation → Pc
  | .new id => .handle c id
  | .replay statusCode body => .done statusCode body
  | .mismatch => .failed (idempotencyConflict
      "Idempotency-Key was already used for a different request")
  | .inProgress => .failed (idempotencyConflict
      "A request with this Idempotency-Key is still in progress")

def claimRow (c : Claim) (id : Uuid) (now : Time) : IdempotencyKey where
  id := id
  userId := c.userId
  key := c.key
  fingerprint := c.fingerprint
  status := .pending
  statusCode := none
  responseBody := none
  createdAt := now

/-- The INSERT of `reserve`; a taken `(userId, key)` is P2002. -/
def create (s : Shared) (c : Claim) (id : Uuid) (now : Time) : Pc × Shared :=
  match s.keys.insert (claimRow c id now) with
  | none => (.findUnique c, { s with drawn := id :: s.drawn })
  | some keys => (onReservation c (.new id), { s with keys := keys, drawn := id :: s.drawn })

def findUnique (s : Shared) (c : Claim) (now : Time) : Pc :=
  match s.keys.lookup c.owner with
  | none => .create c
  | some row =>
      if row.createdAt + ttl < now then .delete c row.id
      else onReservation c (existing c row)

def deleteId (s : Shared) (id : Uuid) : Shared :=
  { s with keys := s.keys.deleteWhere fun row => row.id = id }

/-- The data of `complete`; an undefined body is stored as JSON null. -/
def IdempotencyKey.completed (statusCode : ℕ) (body : Option String) (row : IdempotencyKey) :
    IdempotencyKey :=
  { row with
    status := .completed
    statusCode := some statusCode
    responseBody := some (body.getD "null") }

theorem completed_id (statusCode : ℕ) (body : Option String) (row : IdempotencyKey) :
    (row.completed statusCode body).id = row.id := rfl

theorem completed_owner (statusCode : ℕ) (body : Option String) (row : IdempotencyKey) :
    (row.completed statusCode body).owner = row.owner := rfl

def completeRow (s : Shared) (id : Uuid) (statusCode : ℕ) (body : Option String) : Shared :=
  let keys := s.keys.modify id (.completed statusCode body) (completed_id statusCode body)
    (completed_owner statusCode body)
  { s with keys := keys }

/-- A statement throws. -/
def lost (err : HttpException) : Pc → Option Pc
  | .unguarded | .create _ | .findUnique _ | .delete .. => some (.failed err)
  | .handle c id => some (.release c id err false)
  | .afterCommit c id .. | .complete c id .. => some (.release c id err true)
  | .release .. => some (.failed err)
  | _ => none

def step (sha256 : String → String) : Input → Pc → Shared → Option (Pc × Shared)
  | .request r, .idle, s => some (intercept sha256 r, s)
  | .create id now, .create c, s => if id ∈ s.drawn then none else some (create s c id now)
  | .now t, .findUnique c, s => some (findUnique s c t, s)
  | .go, .delete c id, s =>
      if s.keys.find id = none then some (.failed recordNotFound, s)
      else some (.create c, deleteId s id)
  | .handlerCommits statusCode body, .unguarded, s => some (.done statusCode body, s)
  | .handlerCommits statusCode body, .handle c id, s =>
      some (.afterCommit c id statusCode body, { s with commits := c.owner :: s.commits })
  | .go, .afterCommit c id statusCode body, s => some (.complete c id statusCode body, s)
  | .go, .complete c id statusCode body, s =>
      if s.keys.find id = none then some (.release c id recordNotFound true, s)
      else some (.done statusCode body, completeRow s id statusCode body)
  | .go, .release _ id err _, s => some (.failed err, deleteId s id)
  | .lost err, pc, s => (lost err pc).map fun pc => (pc, s)
  | _, _, _ => none

abbrev Trace := List (Event (ℕ × Input) (Pool Shared Pc))

def next (sha256 : String → String) : ℕ × Input → Pool Shared Pc → Option (Pool Shared Pc) :=
  Interleaving.next (step sha256)

/-- No request is in progress. -/
def start (keys : KeyTable) : Pool Shared Pc :=
  ⟨⟨keys, keys.table.rows.map IdempotencyKey.id, []⟩, fun _ => .idle⟩

/-! ## What one statement does -/

/-- Everything a statement can do. -/
inductive Statement (sha256 : String → String) : Input → Pc → Shared → Pc → Shared → Prop where
  | request {s : Shared} (r : Request) :
      Statement sha256 (.request r) .idle s (intercept sha256 r) s
  | reserves {s : Shared} {c : Claim} (id : Uuid) (now : Time) (keys : KeyTable)
      (hnew : id ∉ s.drawn) (hinsert : s.keys.insert (claimRow c id now) = some keys) :
      Statement sha256 (.create id now) (.create c) s (.handle c id)
        { s with keys := keys, drawn := id :: s.drawn }
  | taken {s : Shared} {c : Claim} (id : Uuid) (now : Time) :
      Statement sha256 (.create id now) (.create c) s (.findUnique c)
        { s with drawn := id :: s.drawn }
  | vanished {s : Shared} {c : Claim} (t : Time) :
      Statement sha256 (.now t) (.findUnique c) s (.create c) s
  | expired {s : Shared} {c : Claim} (t : Time) (row : IdempotencyKey)
      (hrow : row ∈ s.keys.table.rows) (howner : row.owner = c.owner)
      (hold : row.createdAt + ttl < t) :
      Statement sha256 (.now t) (.findUnique c) s (.delete c row.id) s
  | answered {i : Input} {s : Shared} {c : Claim} {q : Pc}
      (hq : (∃ statusCode body, q = .done statusCode body) ∨ ∃ err, q = .failed err) :
      Statement sha256 i (.findUnique c) s q s
  | deletes {s : Shared} {c : Claim} {id : Uuid} :
      Statement sha256 .go (.delete c id) s (.create c) (deleteId s id)
  | unguarded {i : Input} {s : Shared} (statusCode : ℕ) (body : Option String) :
      Statement sha256 i .unguarded s (.done statusCode body) s
  | commits {s : Shared} {c : Claim} {id : Uuid} (statusCode : ℕ) (body : Option String) :
      Statement sha256 (.handlerCommits statusCode body) (.handle c id) s
        (.afterCommit c id statusCode body) { s with commits := c.owner :: s.commits }
  | emits {s : Shared} {c : Claim} {id : Uuid} {statusCode : ℕ} {body : Option String} :
      Statement sha256 .go (.afterCommit c id statusCode body) s (.complete c id statusCode body) s
  | completes {s : Shared} {c : Claim} {id : Uuid} {statusCode : ℕ} {body : Option String} :
      Statement sha256 .go (.complete c id statusCode body) s (.done statusCode body)
        (completeRow s id statusCode body)
  | handlerFails {i : Input} {s : Shared} {c : Claim} {id : Uuid} (err : HttpException) :
      Statement sha256 i (.handle c id) s (.release c id err false) s
  | lateFailure {i : Input} {s : Shared} {c : Claim} {id : Uuid} {p : Pc} (err : HttpException)
      (hp : ∃ statusCode body,
        p = .afterCommit c id statusCode body ∨ p = .complete c id statusCode body) :
      Statement sha256 i p s (.release c id err true) s
  | releases {s : Shared} {c : Claim} {id : Uuid} {err : HttpException} {committed : Bool} :
      Statement sha256 .go (.release c id err committed) s (.failed err) (deleteId s id)
  | fails {i : Input} {s : Shared} {p : Pc} (err : HttpException) :
      Statement sha256 i p s (.failed err) s

section Step
variable {sha256 : String → String} {i : Input} {p q : Pc} {s s' : Shared}

theorem onReservation_existing (c : Claim) (row : IdempotencyKey) :
    (∃ statusCode body, onReservation c (existing c row) = .done statusCode body) ∨
      ∃ err, onReservation c (existing c row) = .failed err := by
  unfold existing
  split_ifs
  · exact .inr ⟨_, rfl⟩
  · exact .inr ⟨_, rfl⟩
  · exact .inl ⟨_, _, rfl⟩

theorem findUnique_statement {c : Claim} {t : Time} :
    Statement sha256 (.now t) (.findUnique c) s (findUnique s c t) s := by
  unfold findUnique
  split
  · exact .vanished t
  · next row hrow =>
      obtain ⟨hmem, howner⟩ := IndexedTable.lookup_eq_some.mp hrow
      split_ifs with hold
      · exact .expired t row hmem howner hold
      · exact .answered (onReservation_existing c row)

theorem step_statement (h : step sha256 i p s = some (q, s')) :
    Statement sha256 i p s q s' := by
  unfold step at h
  split at h
  · cases h
    exact .request _
  · split_ifs at h with hnew
    obtain h := Option.some.inj h
    unfold create at h
    split at h <;> cases h
    · exact .taken _ _
    · next keys hinsert => exact .reserves _ _ keys hnew hinsert
  · cases h
    exact findUnique_statement
  · split_ifs at h <;> cases h
    · exact .fails _
    · exact .deletes
  · cases h
    exact .unguarded _ _
  · cases h
    exact .commits _ _
  · cases h
    exact .emits
  · split_ifs at h <;> cases h
    · exact .lateFailure _ ⟨_, _, .inr rfl⟩
    · exact .completes
  · cases h
    exact .releases
  · obtain ⟨p', hp', he⟩ := Option.map_eq_some_iff.mp h
    cases he
    unfold lost at hp'
    split at hp' <;> cases hp'
    any_goals exact .fails _
    · exact .handlerFails _
    · exact .lateFailure _ ⟨_, _, .inl rfl⟩
    · exact .lateFailure _ ⟨_, _, .inr rfl⟩
  · cases h

end Step

/-! ## Rows of a key -/

/-- There is a row with this id, owner and time of creation. -/
def Has (s : Shared) (id : Uuid) (o : Uuid × String) (t : Time) : Prop :=
  ∃ row ∈ s.keys.table.rows, row.id = id ∧ row.owner = o ∧ row.createdAt = t

section Has
variable {s : Shared} {id id' : Uuid} {o o' : Uuid × String} {t t' : Time}

theorem Has.owner_eq (h : Has s id o t) (h' : Has s id o' t') : o = o' := by
  obtain ⟨row, hrow, rfl, rfl, -⟩ := h
  obtain ⟨row', hrow', hid, rfl, -⟩ := h'
  rw [Table.eq_of_key hrow hrow' hid.symm]

theorem Has.id_eq (h : Has s id o t) (h' : Has s id' o t') : id = id' := by
  obtain ⟨row, hrow, rfl, rfl, -⟩ := h
  obtain ⟨row', hrow', rfl, ho, -⟩ := h'
  rw [s.keys.unique row hrow row' hrow' ho.symm]

theorem has_insert {c : Claim} {x : Uuid} {now : Time} {keys : KeyTable}
    (h : s.keys.insert (claimRow c x now) = some keys) {drawn : List Uuid} :
    Has { s with keys := keys, drawn := drawn } id o t ↔
      Has s id o t ∨ (id = x ∧ o = c.owner ∧ t = now) := by
  constructor
  · rintro ⟨row, hrow, rfl, rfl, rfl⟩
    rcases (IndexedTable.mem_insert h).mp hrow with hold | rfl
    · exact .inl ⟨row, hold, rfl, rfl, rfl⟩
    · exact .inr ⟨rfl, rfl, rfl⟩
  · rintro (⟨row, hrow, hid, ho, ht⟩ | ⟨rfl, rfl, rfl⟩)
    · exact ⟨row, (IndexedTable.mem_insert h).mpr (.inl hrow), hid, ho, ht⟩
    · exact ⟨_, (IndexedTable.mem_insert h).mpr (.inr rfl), rfl, rfl, rfl⟩

theorem not_has_of_insert {c : Claim} {x : Uuid} {now : Time} {keys : KeyTable}
    (h : s.keys.insert (claimRow c x now) = some keys) : ¬ Has s id c.owner t := by
  rintro ⟨row, hrow, -, ho, -⟩
  exact IndexedTable.lookup_eq_none.mp (IndexedTable.insert_fresh h) row hrow ho

theorem has_deleteId {x : Uuid} : Has (deleteId s x) id o t ↔ Has s id o t ∧ id ≠ x := by
  constructor
  · rintro ⟨row, hrow, rfl, ho, ht⟩
    obtain ⟨hold, hne⟩ := IndexedTable.mem_deleteWhere.mp hrow
    exact ⟨⟨row, hold, rfl, ho, ht⟩, by simpa using hne⟩
  · rintro ⟨⟨row, hrow, rfl, ho, ht⟩, hne⟩
    exact ⟨row, IndexedTable.mem_deleteWhere.mpr ⟨hrow, by simpa using hne⟩, rfl, ho, ht⟩

theorem mem_completeRow {x : Uuid} {statusCode : ℕ} {body : Option String}
    {row : IdempotencyKey} : row ∈ (completeRow s x statusCode body).keys.table.rows ↔
      (row ∈ s.keys.table.rows ∧ row.id ≠ x) ∨
        ∃ r, s.keys.find x = some r ∧ row = r.completed statusCode body := by
  simp only [completeRow, IndexedTable.mem_modify]

theorem has_completeRow {x : Uuid} {statusCode : ℕ} {body : Option String} :
    Has (completeRow s x statusCode body) id o t ↔ Has s id o t := by
  constructor
  · rintro ⟨row, hrow, rfl, rfl, rfl⟩
    rcases mem_completeRow.mp hrow with ⟨hold, -⟩ | ⟨r, hr, rfl⟩
    · exact ⟨row, hold, rfl, rfl, rfl⟩
    · exact ⟨r, Table.mem_of_find hr, rfl, rfl, rfl⟩
  · rintro ⟨row, hrow, rfl, rfl, rfl⟩
    by_cases hx : row.id = x
    · have hfind : s.keys.find x = some row := hx ▸ Table.find_of_mem hrow
      exact ⟨_, mem_completeRow.mpr (.inr ⟨row, hfind, rfl⟩), rfl, rfl, rfl⟩
    · exact ⟨row, mem_completeRow.mpr (.inl ⟨hrow, hx⟩), rfl, rfl, rfl⟩

end Has

/-! ## One holder at a time -/

/-- The reservation a request works under. -/
def working : Pc → Option (Claim × Uuid)
  | .handle c id | .afterCommit c id .. | .complete c id .. => some (c, id)
  | _ => none

/-- The reservation a request will complete or release. -/
def heldBy : Pc → Option (Claim × Uuid)
  | .handle c id | .afterCommit c id .. | .complete c id .. | .release c id .. => some (c, id)
  | _ => none

/-- The row a request is about to change or delete. -/
def refersTo : Pc → Option (Claim × Uuid)
  | .delete c id => some (c, id)
  | p => heldBy p

/-- The holder's handler has not committed. -/
def uncommitted : Pc → Bool
  | .handle .. | .release _ _ _ false => true
  | _ => false

theorem heldBy_of_working {p : Pc} {c : Claim} {id : Uuid} (h : working p = some (c, id)) :
    heldBy p = some (c, id) := by
  cases p <;> first | exact h | cases h

theorem refersTo_of_heldBy {p : Pc} {c : Claim} {id : Uuid} (h : heldBy p = some (c, id)) :
    refersTo p = some (c, id) := by
  cases p <;> first | exact h | cases h

/-- The invariant for the key `o`, first reserved no earlier than `t₀`. -/
structure Inv (o : Uuid × String) (t₀ : Time) (client : ℕ → Pc) (s : Shared) : Prop where
  drawn : ∀ id o' t, Has s id o' t → id ∈ s.drawn
  refers : ∀ x c id, refersTo (client x) = some (c, id) →
    id ∈ s.drawn ∧ ∀ o' t, Has s id o' t → o' = c.owner
  sole : ∀ x y c c' id, heldBy (client x) = some (c, id) → heldBy (client y) = some (c', id) →
    x = y
  deleting : ∀ x c id, client x = .delete c id → c.owner ≠ o
  since : ∀ id t, Has s id o t → t₀ ≤ t
  present : ∀ x c id, working (client x) = some (c, id) → c.owner = o → ∃ t, Has s id o t
  locked : ∀ id t, Has s id o t → s.commits.count o = 0 ∨ (s.commits.count o = 1 ∧
    ∀ x c, heldBy (client x) = some (c, id) → uncommitted (client x) = false)
  free : (∀ id t, ¬ Has s id o t) → s.commits.count o = 0

section Inv
variable {o : Uuid × String} {t₀ : Time} {client : ℕ → Pc} {s : Shared} {x : ℕ} {p q : Pc}

theorem Inv.count_le_one (h : Inv o t₀ client s) : s.commits.count o ≤ 1 := by
  by_cases hrow : ∃ id t, Has s id o t
  · obtain ⟨id, t, hhas⟩ := hrow
    rcases h.locked id t hhas with hzero | ⟨hone, -⟩
    · omega
    · omega
  · push Not at hrow
    have hzero := h.free hrow
    omega

/-- One request moves and the data stay. -/
theorem Inv.move (h : Inv o t₀ client s)
    (hrefers : ∀ c id, refersTo q = some (c, id) →
      id ∈ s.drawn ∧ ∀ o' t, Has s id o' t → o' = c.owner)
    (hsole : ∀ c id, heldBy q = some (c, id) → ∀ y c', y ≠ x → heldBy (client y) ≠ some (c', id))
    (hdeleting : ∀ c id, q = .delete c id → c.owner ≠ o)
    (hpresent : ∀ c id, working q = some (c, id) → c.owner = o → ∃ t, Has s id o t)
    (hlocked : ∀ c id, heldBy q = some (c, id) → uncommitted q = true → ∀ t, Has s id o t →
      s.commits.count o = 0) : Inv o t₀ (Function.update client x q) s := by
  have hcases : ∀ y, (y = x ∧ Function.update client x q y = q) ∨
      (y ≠ x ∧ Function.update client x q y = client y) := by
    intro y
    by_cases hy : y = x
    · exact .inl ⟨hy, by rw [hy, Function.update_self]⟩
    · exact .inr ⟨hy, Function.update_of_ne hy _ _⟩
  refine ⟨h.drawn, fun y c id hr => ?_, fun y z c c' id hy hz => ?_, fun y c id hd => ?_, h.since,
    fun y c id hw ho => ?_, fun id t hhas => ?_, h.free⟩
  · rcases hcases y with ⟨-, he⟩ | ⟨-, he⟩ <;> rw [he] at hr
    · exact hrefers c id hr
    · exact h.refers y c id hr
  · rcases hcases y with ⟨rfl, he⟩ | ⟨hyx, he⟩ <;> rw [he] at hy
    · rcases hcases z with ⟨rfl, -⟩ | ⟨hzx, he'⟩
      · rfl
      · rw [he'] at hz
        exact absurd hz (hsole c id hy z c' hzx)
    · rcases hcases z with ⟨rfl, he'⟩ | ⟨-, he'⟩ <;> rw [he'] at hz
      · exact absurd hy (hsole c' id hz y c hyx)
      · exact h.sole y z c c' id hy hz
  · rcases hcases y with ⟨-, he⟩ | ⟨-, he⟩ <;> rw [he] at hd
    · exact hdeleting c id hd
    · exact h.deleting y c id hd
  · rcases hcases y with ⟨-, he⟩ | ⟨-, he⟩ <;> rw [he] at hw
    · exact hpresent c id hw ho
    · exact h.present y c id hw ho
  · rcases h.locked id t hhas with hzero | ⟨hone, hheld⟩
    · exact .inl hzero
    · refine .inr ⟨hone, fun y c hy => ?_⟩
      rcases hcases y with ⟨-, he⟩ | ⟨-, he⟩ <;> rw [he] at hy ⊢
      · by_contra hun
        rw [Bool.not_eq_false] at hun
        have hzero := hlocked c id hy hun t hhas
        omega
      · exact hheld y c hy

/-- A request that lets go of its row, or has none. -/
theorem Inv.leave (h : Inv o t₀ client s) (hq : refersTo q = none) :
    Inv o t₀ (Function.update client x q) s := by
  have hheld : ∀ {c id}, heldBy q ≠ some (c, id) := by
    intro c id hh
    rw [refersTo_of_heldBy hh] at hq
    cases hq
  refine h.move ?_ (fun _ _ hh => absurd hh hheld) ?_
    (fun _ _ hw => absurd (heldBy_of_working hw) hheld) (fun _ _ hh => absurd hh hheld)
  · intro c id hr
    rw [hq] at hr
    cases hr
  · rintro c id rfl
    cases hq

/-- A request that keeps its reservation. -/
theorem Inv.keep (h : Inv o t₀ client s) (hp : client x = p) (hheld : heldBy q = heldBy p)
    (hq : refersTo q = heldBy q) (hworking : ∀ r, working q = some r → working p = some r)
    (hun : uncommitted q = true → uncommitted p = true) :
    Inv o t₀ (Function.update client x q) s := by
  subst hp
  refine h.move (fun c id hr => ?_) (fun c id hh y c' hy hh' => ?_) ?_ (fun c id hw ho => ?_)
    (fun c id hh hu t hhas => ?_)
  · rw [hq, hheld] at hr
    exact h.refers x c id (refersTo_of_heldBy hr)
  · rw [hheld] at hh
    exact hy (h.sole y x c' c id hh' hh)
  · rintro c id rfl
    cases hq
  · exact h.present x c id (hworking _ hw) ho
  · rw [hheld] at hh
    rcases h.locked id t hhas with hzero | ⟨-, hother⟩
    · exact hzero
    · have hfalse := hother x c hh
      rw [hun hu] at hfalse
      cases hfalse

/-! ### Data steps -/

/-- Drawn identifiers only grow. -/
theorem Inv.draw (h : Inv o t₀ client s) (id : Uuid) :
    Inv o t₀ client { s with drawn := id :: s.drawn } :=
  { h with
    drawn := fun id' o' t hhas => List.mem_cons_of_mem _ (h.drawn id' o' t hhas)
    refers := fun x c id' hr => ⟨List.mem_cons_of_mem _ (h.refers x c id' hr).1,
      (h.refers x c id' hr).2⟩ }

theorem Inv.reserve (h : Inv o t₀ client s) {c : Claim} {id : Uuid} {now : Time} {keys : KeyTable}
    (hnew : id ∉ s.drawn) (hinsert : s.keys.insert (claimRow c id now) = some keys)
    (hnow : c.owner = o → t₀ ≤ now) :
    Inv o t₀ client { s with keys := keys, drawn := id :: s.drawn } where
  drawn id' o' t hhas := by
    rcases (has_insert hinsert).mp hhas with hold | ⟨rfl, -, -⟩
    · exact List.mem_cons_of_mem _ (h.drawn id' o' t hold)
    · exact List.mem_cons_self
  refers x c' id' hr := by
    obtain ⟨hdrawn, howner⟩ := h.refers x c' id' hr
    refine ⟨List.mem_cons_of_mem _ hdrawn, fun o' t hhas => ?_⟩
    rcases (has_insert hinsert).mp hhas with hold | ⟨rfl, -, -⟩
    · exact howner o' t hold
    · exact absurd hdrawn hnew
  sole := h.sole
  deleting := h.deleting
  since id' t hhas := by
    rcases (has_insert hinsert).mp hhas with hold | ⟨-, rfl, rfl⟩
    · exact h.since id' t hold
    · exact hnow rfl
  present x c' id' hw ho := by
    obtain ⟨t, hhas⟩ := h.present x c' id' hw ho
    exact ⟨t, (has_insert hinsert).mpr (.inl hhas)⟩
  locked id' t hhas := by
    rcases (has_insert hinsert).mp hhas with hold | ⟨-, rfl, -⟩
    · exact h.locked id' t hold
    · exact .inl (h.free fun _ _ => not_has_of_insert hinsert)
  free hnone := h.free fun id' t hhas => hnone id' t ((has_insert hinsert).mpr (.inl hhas))

theorem Inv.complete (h : Inv o t₀ client s) (id : Uuid) (statusCode : ℕ) (body : Option String) :
    Inv o t₀ client (completeRow s id statusCode body) where
  drawn id' o' t hhas := h.drawn id' o' t (has_completeRow.mp hhas)
  refers x c id' hr := ⟨(h.refers x c id' hr).1,
    fun o' t hhas => (h.refers x c id' hr).2 o' t (has_completeRow.mp hhas)⟩
  sole := h.sole
  deleting := h.deleting
  since id' t hhas := h.since id' t (has_completeRow.mp hhas)
  present x c id' hw ho := by
    obtain ⟨t, hhas⟩ := h.present x c id' hw ho
    exact ⟨t, has_completeRow.mpr hhas⟩
  locked id' t hhas := h.locked id' t (has_completeRow.mp hhas)
  free hnone := h.free fun id' t hhas => hnone id' t (has_completeRow.mpr hhas)

/-- A row of another key may go. -/
theorem Inv.deleteOther (h : Inv o t₀ client s) {id : Uuid}
    (hid : ∀ t, ¬ Has s id o t) : Inv o t₀ client (deleteId s id) where
  drawn id' o' t hhas := h.drawn id' o' t (has_deleteId.mp hhas).1
  refers x c id' hr := ⟨(h.refers x c id' hr).1,
    fun o' t hhas => (h.refers x c id' hr).2 o' t (has_deleteId.mp hhas).1⟩
  sole := h.sole
  deleting := h.deleting
  since id' t hhas := h.since id' t (has_deleteId.mp hhas).1
  present x c id' hw ho := by
    obtain ⟨t, hhas⟩ := h.present x c id' hw ho
    refine ⟨t, has_deleteId.mpr ⟨hhas, ?_⟩⟩
    rintro rfl
    exact hid t hhas
  locked id' t hhas := h.locked id' t (has_deleteId.mp hhas).1
  free hnone := h.free fun id' t hhas => by
    refine hnone id' t (has_deleteId.mpr ⟨hhas, ?_⟩)
    rintro rfl
    exact hid t hhas

/-- The row of a handler that failed before its commit may go: nobody works under it. -/
theorem Inv.deleteMine (h : Inv o t₀ client s) {c : Claim} {id : Uuid} {err : HttpException}
    (hx : client x = .release c id err false) : Inv o t₀ client (deleteId s id) := by
  by_cases hhas : ∃ t, Has s id o t
  · obtain ⟨t, hhas⟩ := hhas
    have hheld : heldBy (client x) = some (c, id) := by rw [hx, heldBy]
    have hzero : s.commits.count o = 0 := by
      rcases h.locked id t hhas with hzero | ⟨-, hother⟩
      · exact hzero
      · have hfalse := hother x c hheld
        rw [hx] at hfalse
        cases hfalse
    have hgone : ∀ id' t', ¬ Has (deleteId s id) id' o t' := by
      intro id' t' hhas'
      obtain ⟨hold, hne⟩ := has_deleteId.mp hhas'
      exact hne (hold.id_eq hhas)
    refine ⟨fun id' o' t hhas => h.drawn id' o' t (has_deleteId.mp hhas).1, fun y c id' hr =>
      ⟨(h.refers y c id' hr).1,
        fun o' t hhas => (h.refers y c id' hr).2 o' t (has_deleteId.mp hhas).1⟩,
      h.sole, h.deleting, fun id' t hhas => absurd hhas (hgone id' t), fun y c' id' hw ho => ?_,
      fun id' t hhas => absurd hhas (hgone id' t), fun _ => hzero⟩
    obtain ⟨t', hhas'⟩ := h.present y c' id' hw ho
    have hsame : id' = id := hhas'.id_eq hhas
    subst hsame
    have hyx := h.sole y x c' c id' (heldBy_of_working hw) hheld
    rw [hyx, hx] at hw
    cases hw
  · push Not at hhas
    exact h.deleteOther hhas

/-- A commit by the only one who may commit. -/
theorem Inv.commit (h : Inv o t₀ client s) {c : Claim} {id : Uuid} {statusCode : ℕ}
    {body : Option String} (hx : client x = .handle c id) :
    Inv o t₀ (Function.update client x (.afterCommit c id statusCode body))
      { s with commits := c.owner :: s.commits } := by
  have hmoved : Inv o t₀ (Function.update client x (.afterCommit c id statusCode body)) s :=
    h.keep hx rfl rfl (fun _ hr => hr) (fun hu => by cases hu)
  by_cases ho : c.owner = o
  · obtain ⟨t, hhas⟩ := h.present x c id (by rw [hx, working]) ho
    have hheld : heldBy (client x) = some (c, id) := by rw [hx, heldBy]
    have hzero : s.commits.count o = 0 := by
      rcases h.locked id t hhas with hzero | ⟨-, hother⟩
      · exact hzero
      · have hfalse := hother x c hheld
        rw [hx] at hfalse
        cases hfalse
    refine { hmoved with locked := fun id' t' hhas' => .inr ⟨?_, fun y c' hy => ?_⟩, free := ?_ }
    · rw [ho, List.count_cons_self, hzero]
    · have hsame : id' = id := Has.id_eq (s := s) hhas' hhas
      subst hsame
      have hyx : y = x := hmoved.sole y x c' c id' hy (by rw [Function.update_self, heldBy])
      rw [hyx, Function.update_self]
      rfl
    · exact fun hnone => absurd hhas (hnone id t)
  · have hcount : (c.owner :: s.commits).count o = s.commits.count o := List.count_cons_of_ne ho
    refine { hmoved with locked := fun id' t' hhas' => ?_, free := fun hnone => ?_ }
    · rw [hcount]
      exact hmoved.locked id' t' hhas'
    · rw [hcount]
      exact hmoved.free hnone

end Inv

/-! ## Runs -/

def claimOf : Pc → Option Claim
  | .create c | .findUnique c | .delete c _ | .handle c _ | .afterCommit c .. | .complete c ..
  | .release c .. => some c
  | _ => none

def clockOf : Input → Option Time
  | .create _ now => some now
  | .now t => some t
  | _ => none

/-- A request for the key `o` reads its clock within 24 hours of `t₀`. -/
def InWindow (o : Uuid × String) (t₀ : Time) (e : Event (ℕ × Input) (Pool Shared Pc)) : Prop :=
  ∀ c ∈ claimOf (e.pre.client e.label.1), c.owner = o →
    ∀ t ∈ clockOf e.label.2, t₀ ≤ t ∧ t ≤ t₀ + ttl

instance (o : Uuid × String) (t₀ : Time) : DecidablePred (InWindow o t₀) := fun e =>
  inferInstanceAs (Decidable (∀ c ∈ claimOf (e.pre.client e.label.1), c.owner = o →
    ∀ t ∈ clockOf e.label.2, t₀ ≤ t ∧ t ≤ t₀ + ttl))

/-- The key whose reservation a request releases after its handler has committed. -/
def releasesLate : Input → Pc → Option (Uuid × String)
  | .go, .release c _ _ true => some c.owner
  | _, _ => none

def LateRelease (o : Uuid × String) (e : Event (ℕ × Input) (Pool Shared Pc)) : Prop :=
  releasesLate e.label.2 (e.pre.client e.label.1) = some o

instance (o : Uuid × String) : DecidablePred (LateRelease o) := fun e =>
  inferInstanceAs (Decidable (releasesLate e.label.2 (e.pre.client e.label.1) = some o))

theorem Inv.next {sha256 : String → String} {o : Uuid × String} {t₀ : Time} {l : ℕ × Input}
    {s t : Pool Shared Pc} (h : Inv o t₀ s.client s.data) (hwindow : InWindow o t₀ ⟨s, l, t⟩)
    (hlate : ¬ LateRelease o ⟨s, l, t⟩) (hn : Idempotency.next sha256 l s = some t) :
    Inv o t₀ t.client t.data := by
  obtain ⟨q, s', hstep, rfl⟩ := next_cases hn
  obtain ⟨x, i⟩ := l
  have hstatement := step_statement hstep
  generalize hp : s.client x = p at hstatement
  have hcase : ∀ c, claimOf p = some c → ∀ t, c.owner = o → clockOf i = some t →
      t₀ ≤ t ∧ t ≤ t₀ + ttl := by
    intro c hc t ho ht
    exact hwindow c (hp ▸ hc) ho t ht
  cases hstatement with
  | request r =>
      refine h.leave ?_
      unfold intercept
      split
      · split_ifs <;> rfl
      · split_ifs <;> rfl
      · split <;> rfl
  | @reserves _ c id now keys hnew hinsert =>
      have hnow : c.owner = o → t₀ ≤ now := fun ho => (hcase c rfl now ho rfl).1
      have hdata := h.reserve hnew hinsert hnow
      refine hdata.move (fun c' id' hr => ?_) (fun c' id' hh y c'' hy hy' => ?_) ?_
        (fun c' id' hw ho => ?_) (fun c' id' hh _ t hhas => ?_)
      · obtain ⟨rfl, rfl⟩ : c = c' ∧ id = id' := by simpa [refersTo, heldBy] using hr
        refine ⟨List.mem_cons_self, fun o' t hhas => ?_⟩
        rcases (has_insert hinsert).mp hhas with hold | ⟨-, rfl, -⟩
        · exact absurd (h.drawn _ _ _ hold) hnew
        · rfl
      · obtain ⟨rfl, rfl⟩ : c = c' ∧ id = id' := by simpa [heldBy] using hh
        exact hnew (h.refers y c'' id (refersTo_of_heldBy hy')).1
      · rintro c' id' hd
        cases hd
      · obtain ⟨rfl, rfl⟩ : c = c' ∧ id = id' := by simpa [working] using hw
        exact ⟨now, (has_insert hinsert).mpr (.inr ⟨rfl, ho.symm, rfl⟩)⟩
      · obtain ⟨rfl, rfl⟩ : c = c' ∧ id = id' := by simpa [heldBy] using hh
        rcases (has_insert hinsert).mp hhas with hold | ⟨-, rfl, -⟩
        · exact absurd (h.drawn _ _ _ hold) hnew
        · exact h.free fun _ _ => not_has_of_insert hinsert
  | taken id now => exact (h.draw id).leave rfl
  | vanished t => exact h.leave rfl
  | @expired _ c t row hrow howner hold =>
      have hhas : Has s.data row.id c.owner row.createdAt := ⟨row, hrow, rfl, howner, rfl⟩
      refine h.move (fun c' id' hr => ?_) (fun c' id' hh => ?_) ?_ (fun c' id' hw => ?_)
        (fun c' id' hh => ?_)
      · obtain ⟨rfl, rfl⟩ : c = c' ∧ row.id = id' := by simpa [refersTo] using hr
        exact ⟨h.drawn _ _ _ hhas, fun o' t' hhas' => hhas'.owner_eq hhas⟩
      · cases hh
      · rintro c' id' hd ho
        obtain ⟨rfl, -⟩ : c = c' ∧ row.id = id' := by simpa using hd
        have hsince := h.since row.id row.createdAt (ho ▸ hhas)
        have hlatest := (hcase c rfl t ho rfl).2
        exact absurd (hlatest.trans (Nat.add_le_add_right hsince ttl)) (not_le.mpr hold)
      · cases hw
      · cases hh
  | answered hq =>
      refine h.leave ?_
      rcases hq with ⟨statusCode, body, rfl⟩ | ⟨err, rfl⟩ <;> rfl
  | @deletes _ c id =>
      have hne := h.deleting x c id hp
      have howner := (h.refers x c id (by rw [hp, refersTo])).2
      exact (h.deleteOther fun t hhas => hne (howner o t hhas).symm).leave rfl
  | unguarded statusCode body => exact h.leave rfl
  | commits statusCode body => exact h.commit hp
  | emits => exact h.keep hp rfl rfl (fun _ hr => hr) (fun hu => by cases hu)
  | completes => exact (h.complete _ _ _).leave rfl
  | handlerFails err =>
      exact h.keep hp rfl rfl (fun _ hr => by cases hr) (fun _ => rfl)
  | lateFailure err hp' =>
      obtain ⟨statusCode, body, rfl | rfl⟩ := hp'
      · exact h.keep hp rfl rfl (fun _ hr => by cases hr) (fun hu => by cases hu)
      · exact h.keep hp rfl rfl (fun _ hr => by cases hr) (fun hu => by cases hu)
  | @releases _ c id err committed =>
      cases committed with
      | false => exact (h.deleteMine hp).leave rfl
      | true =>
          have hne : c.owner ≠ o := fun ho => hlate (by rw [LateRelease, hp, releasesLate, ho])
          have howner := (h.refers x c id (refersTo_of_heldBy (by rw [hp, heldBy]))).2
          exact (h.deleteOther fun t hhas => hne (howner o t hhas).symm).leave rfl
  | fails err => exact h.leave rfl

theorem start_has {keys : KeyTable} {o : Uuid × String} (hfirst : keys.lookup o = none)
    (id : Uuid) (t : Time) : ¬ Has (start keys).data id o t := by
  rintro ⟨row, hrow, -, ho, -⟩
  exact IndexedTable.lookup_eq_none.mp hfirst row hrow ho

theorem start_inv {keys : KeyTable} {o : Uuid × String} {t₀ : Time}
    (hfirst : keys.lookup o = none) : Inv o t₀ (start keys).client (start keys).data where
  drawn := by
    rintro id o' t ⟨row, hrow, rfl, -, -⟩
    exact List.mem_map_of_mem hrow
  refers _ _ _ hr := by cases hr
  sole _ _ _ _ _ hh := by cases hh
  deleting _ _ _ hd := by cases hd
  since id t hhas := absurd hhas (start_has hfirst id t)
  present _ _ _ hw := by cases hw
  locked id t hhas := absurd hhas (start_has hfirst id t)
  free _ := rfl

/-- A key that is first reserved at `t₀` moves money at most once in the 24 hours
after it, as long as no reservation is released after its commit. -/
theorem commits_at_most_once {sha256 : String → String} {keys : KeyTable} {tr : Trace}
    {s : Pool Shared Pc} {o : Uuid × String} {t₀ : Time}
    (h : Run (next sha256) (start keys) tr s) (hfirst : keys.lookup o = none)
    (hwindow : ∀ e ∈ tr, InWindow o t₀ e) (hlate : ∀ e ∈ tr, ¬ LateRelease o e) :
    s.data.commits.count o ≤ 1 := by
  have hinv : Inv o t₀ s.client s.data := h.invariant_when
    (fun e => InWindow o t₀ e ∧ ¬ LateRelease o e) (fun s => Inv o t₀ s.client s.data)
    (start_inv hfirst) (fun _ _ _ hi hn hc => hi.next hc.1 hc.2 hn)
    (fun e he => ⟨hwindow e he, hlate e he⟩)
  exact hinv.count_le_one

/-- A deposit by user 1 under the key `"k"`, as `POST /wallets/:id/deposits` receives it. -/
def depositRequest : Request where
  userId := some 1
  key := some "k"
  required := true
  method := "POST"
  url := "/wallets/9/deposits"
  body := "\x7b\"amount\":1000\x7d"

theorem commits_at_most_once_retried :
    ∃ tr s, Run (next id) (start .empty) tr s ∧ s.data.commits = [(1, "k")] ∧
      s.data.commits.count (1, "k") ≤ 1 := by
  obtain ⟨tr, s, hrun, -, hs⟩ := Run.of_trace_map (next id)
    [(0, .request depositRequest), (0, .create 7 10), (0, .handlerCommits 201 none),
      (1, .request depositRequest), (1, .create 8 20), (1, .now 21), (0, .go), (0, .go),
      (2, .request depositRequest), (2, .create 9 30), (2, .now 31)]
    (start .empty)
    (fun tr s => (decide (∀ e ∈ tr, InWindow (1, "k") 0 e ∧ ¬ LateRelease (1, "k") e),
      s.data.commits)) (true, [(1, "k")]) (by decide)
  rw [Prod.mk.injEq, decide_eq_true_eq] at hs
  exact ⟨tr, s, hrun, hs.2, commits_at_most_once hrun rfl
    (fun e he => (hs.1 e he).1) (fun e he => (hs.1 e he).2)⟩

/-- The deposit commits, its emit throws, the reservation is released, and a
retry with the same key commits again. -/
theorem commits_twice :
    ∃ tr s, Run (next id) (start .empty) tr s ∧ (∀ e ∈ tr, InWindow (1, "k") 0 e) ∧
      s.data.commits = [(1, "k"), (1, "k")] ∧ ¬ s.data.commits.count (1, "k") ≤ 1 := by
  obtain ⟨tr, s, hrun, -, hs⟩ := Run.of_trace_map (next id)
    [(0, .request depositRequest), (0, .create 7 10), (0, .handlerCommits 201 none),
      (0, .lost internalError), (0, .go),
      (1, .request depositRequest), (1, .create 8 20), (1, .handlerCommits 201 none)]
    (start .empty)
    (fun tr s => (decide (∀ e ∈ tr, InWindow (1, "k") 0 e), s.data.commits))
    (true, [(1, "k"), (1, "k")]) (by decide)
  rw [Prod.mk.injEq, decide_eq_true_eq] at hs
  refine ⟨tr, s, hrun, hs.1, hs.2, ?_⟩
  rw [hs.2]
  decide

end MaxOne.Idempotency
