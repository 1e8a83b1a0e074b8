import Mathlib.Data.String.Basic
import MaxOne.Library.Paging
import MaxOne.Library.Table
import MaxOne.Schema

/-!
# The staff lists

The lists of wallets, users and audit rows: a filter, one sort key and a page of the
result, with the number of all matching rows. A row has the fields the lists read, a user
with the name of the role and a wallet with the email of its owner. What a query gets as
`sorted` is the order in which the database happens to return the matching rows.

How the database compares texts is `Text`. Every `take` the DTOs accept is positive.
-/
namespace MaxOne.StaffLists
open Library Library.Paging MaxOne.Schema

/-- `contains` and `startsWith` take the value first; `contains` ignores case. -/
structure Text where
  contains : String → String → Bool
  startsWith : String → String → Bool
  toUpperCase : String → String
  collation : SortOrder String

inductive Direction where
  | asc | desc
  deriving DecidableEq, Repr

def directed {Row : Type*} (o : SortOrder Row) : Direction → SortOrder Row
  | .asc => o
  | .desc => o.flip

structure Page (Row : Type*) where
  total : ℕ
  skip : ℕ
  take : ℕ
  rows : List Row

/-- An empty text is no filter. -/
def given (q : Option String) : Option String := q.filter fun s => s ≠ ""

section Rows
variable {Row : Type*}

/-- Ask for `take` rows after `take` rows, until as many are asked for as the first answer says
there are. -/
def walked (take : ℕ) (list : ℕ → List Row → Page Row) (results : ℕ → List Row) : List Row :=
  (List.range (pageCount (list 0 (results 0)).total take)).flatMap fun i =>
    (list (i * take) (results i)).rows

/-- Whatever the queries do with ties, the pages have every matching row once. -/
def Partitions (order : SortOrder Row) (matching : List Row) (take : ℕ)
    (list : ℕ → List Row → Page Row) : Prop :=
  ∀ results : ℕ → List Row, (∀ i, Sorted order matching (results i)) →
    (walked take list results).Perm matching

/-- `findMany` and `count` with one filter. -/
def findPage (matching : List Row) (skip take : ℕ) (sorted : List Row) : Page Row where
  total := matching.length
  skip := skip
  take := take
  rows := page skip take sorted

theorem partitions_iff {order : SortOrder Row} {matching : List Row} {take : ℕ} (htake : 0 < take)
    (hnodup : matching.Nodup) :
    Partitions order matching take (fun skip => findPage matching skip take) ↔
      NoSplit order matching take :=
  walk_perm_iff order matching hnodup htake

theorem partitions_capped_iff {order : SortOrder Row} {matching : List Row} {take cap : ℕ}
    (htake : 0 < take) (hnodup : matching.Nodup) :
    Partitions order matching take (fun skip => findPage matching skip (min take cap)) ↔
      (take ≤ cap ∧ NoSplit order matching take) ∨ (cap < take ∧ matching.length ≤ cap) :=
  walkCapped_perm_iff order hnodup htake

/-- Rows of a table that pass a filter. -/
theorem filter_nodup {Key : Type*} {key : Row → Key} (t : Table Row key) (p : Row → Bool) :
    (t.rows.filter p).Nodup := (List.Nodup.of_map key t.nodup).filter p

end Rows

/-! ## Wallets -/

structure StaffWallet where
  id : Uuid
  name : String
  currency : String
  balance : ℤ
  createdAt : Time
  email : String
  deriving DecidableEq, Repr

inductive WalletField where
  | balance | createdAt | name
  deriving DecidableEq, Repr

structure ListWalletsQuery where
  skip : Option ℕ
  take : Option ℕ+
  q : Option String
  currency : Option String
  sort : Option (WalletField × Direction)

def walletWhere (text : Text) (query : ListWalletsQuery) (w : StaffWallet) : Bool :=
  ((given query.q).all fun q => text.contains w.name q || text.contains w.email q) &&
    (given query.currency).all fun currency => w.currency = text.toUpperCase currency

def walletOrder (text : Text) (sort : Option (WalletField × Direction)) : SortOrder StaffWallet :=
  let (field, dir) := sort.getD (.createdAt, .asc)
  directed (match field with
    | .balance => (SortOrder.ofLinear ℤ).onField StaffWallet.balance
    | .createdAt => (SortOrder.ofLinear ℕ).onField StaffWallet.createdAt
    | .name => text.collation.onField StaffWallet.name) dir

def listAllWallets (text : Text) (wallets : List StaffWallet) (query : ListWalletsQuery)
    (sorted : List StaffWallet) : Page StaffWallet :=
  findPage (wallets.filter (walletWhere text query)) (query.skip.getD 0) (query.take.getD 20 : ℕ+) sorted

/-! ## Users -/

/-- `toSafeUser` takes the hashes off the rows of a page. -/
structure StaffUser where
  id : Uuid
  email : String
  handle : Option String
  firstName : String
  lastName : String
  role : String
  status : String
  createdAt : Time
  deriving DecidableEq, Repr

inductive UserField where
  | createdAt | email | status
  deriving DecidableEq, Repr

structure ListUsersQuery where
  skip : Option ℕ
  take : Option ℕ+
  q : Option String
  role : Option String
  status : Option String
  sort : Option (UserField × Direction)

def userWhere (text : Text) (query : ListUsersQuery) (u : StaffUser) : Bool :=
  ((given query.q).all fun q => text.contains u.email q || u.handle.any (text.contains · q) ||
      text.contains u.firstName q || text.contains u.lastName q) &&
    ((given query.role).all fun role => u.role = role) &&
    (given query.status).all fun status => u.status = status

def userOrder (text : Text) (sort : Option (UserField × Direction)) : SortOrder StaffUser :=
  let (field, dir) := sort.getD (.createdAt, .desc)
  directed (match field with
    | .createdAt => (SortOrder.ofLinear ℕ).onField StaffUser.createdAt
    | .email => text.collation.onField StaffUser.email
    | .status => text.collation.onField StaffUser.status) dir

/-- `UsersService.findMany` -/
def findManyUsers (text : Text) (users : List StaffUser) (query : ListUsersQuery)
    (sorted : List StaffUser) : Page StaffUser :=
  findPage (users.filter (userWhere text query)) (query.skip.getD 0) (query.take.getD 20 : ℕ+) sorted

/-! ## Audit rows -/

structure AuditRow where
  id : Uuid
  actorUserId : String
  action : String
  entityType : String
  entityId : String
  createdAt : Time
  deriving DecidableEq, Repr

/-- A date given may be before the epoch. -/
structure AuditQuery where
  skip : Option ℕ
  take : Option ℕ+
  actorId : Option String
  entityType : Option String
  entityId : Option String
  action : Option String
  q : Option String
  fromDate : Option ℤ
  toDate : Option ℤ

def auditWhere (text : Text) (query : AuditQuery) (log : AuditRow) : Bool :=
  ((given query.actorId).all fun actorId => log.actorUserId = actorId) &&
    ((given query.entityType).all fun entityType => log.entityType = entityType) &&
    ((given query.entityId).all fun entityId => log.entityId = entityId) &&
    ((given query.action).all fun action => log.action = action) &&
    ((given query.q).all fun q => text.contains log.action q || text.startsWith log.entityId q) &&
    (query.fromDate.all fun t : ℤ => t ≤ log.createdAt) &&
    query.toDate.all fun t : ℤ => log.createdAt ≤ t

/-- Newest first. -/
def auditOrder : SortOrder AuditRow := ((SortOrder.ofLinear ℕ).onField AuditRow.createdAt).flip

/-- `AuditService.findMany`; a page has at most 100 rows. -/
def findManyLogs (text : Text) (logs : List AuditRow) (query : AuditQuery)
    (sorted : List AuditRow) : Page AuditRow :=
  findPage (logs.filter (auditWhere text query)) (query.skip.getD 0) (min (query.take.getD 20 : ℕ+) 100) sorted

/-! ## Pages -/

/-- Each list finds every matching row once, in whatever order ties come, exactly when none of its
pages ends between two rows with equal sort keys. An answer of the audit list has at most 100 rows;
by steps of more it finds every row only where the first answer has them all. -/
theorem staff_lists_partition_iff (text : Text) :
    (∀ (wallets : Table StaffWallet StaffWallet.id) (query : ListWalletsQuery),
      let matching := wallets.rows.filter (walletWhere text query)
      Partitions (walletOrder text query.sort) matching (query.take.getD 20 : ℕ+)
          (fun skip => listAllWallets text wallets.rows { query with skip := some skip }) ↔
        NoSplit (walletOrder text query.sort) matching (query.take.getD 20 : ℕ+)) ∧
    (∀ (users : Table StaffUser StaffUser.id) (query : ListUsersQuery),
      let matching := users.rows.filter (userWhere text query)
      Partitions (userOrder text query.sort) matching (query.take.getD 20 : ℕ+)
          (fun skip => findManyUsers text users.rows { query with skip := some skip }) ↔
        NoSplit (userOrder text query.sort) matching (query.take.getD 20 : ℕ+)) ∧
    ∀ (logs : Table AuditRow AuditRow.id) (query : AuditQuery),
      let matching := logs.rows.filter (auditWhere text query)
      let take : ℕ := (query.take.getD 20 : ℕ+)
      Partitions auditOrder matching take
          (fun skip => findManyLogs text logs.rows { query with skip := some skip }) ↔
        (take ≤ 100 ∧ NoSplit auditOrder matching take) ∨ (100 < take ∧ matching.length ≤ 100) := by
  refine ⟨fun wallets query => ?_, fun users query => ?_, fun logs query => ?_⟩
  · exact partitions_iff (query.take.getD 20).pos (filter_nodup wallets (walletWhere text query))
  · exact partitions_iff (query.take.getD 20).pos (filter_nodup users (userWhere text query))
  · exact partitions_capped_iff (query.take.getD 20).pos (filter_nodup logs (auditWhere text query))

/-- A zero balance fills two pages of one row; the second query returns the tied wallets the other
way round, and one wallet is never seen. -/
theorem tied_wallets_repeat :
    let text : Text := ⟨fun _ _ => true, fun _ _ => true, id, SortOrder.ofLinear String⟩
    let first : StaffWallet := ⟨1, "Main", "EUR", 0, 10, "ann@example.org"⟩
    let second : StaffWallet := ⟨2, "Main", "EUR", 0, 11, "ben@example.org"⟩
    let query : ListWalletsQuery := ⟨none, some 1, none, none, some (.balance, .asc)⟩
    let list : ℕ → List StaffWallet → Page StaffWallet := fun skip =>
      listAllWallets text [first, second] { query with skip := some skip }
    walked 1 list (fun i => if i = 0 then [first, second] else [second, first]) = [first, first] ∧
      ¬ Partitions (walletOrder text query.sort) [first, second] 1 list := by
  intro text first second query list
  have hwalked : walked 1 list (fun i => if i = 0 then [first, second] else [second, first]) =
      [first, first] := by decide
  refine ⟨hwalked, fun hall => ?_⟩
  have hsorted : ∀ i : ℕ, Sorted (walletOrder text query.sort) [first, second]
      (if i = 0 then [first, second] else [second, first]) := by
    intro i
    split_ifs
    · exact ⟨.refl _, by decide⟩
    · exact ⟨.swap _ _ _, by decide⟩
  have hperm := hall _ hsorted
  rw [hwalked] at hperm
  exact absurd (hperm.nodup_iff.mpr (by decide)) (by decide)

/-- Emails are unique, so the list of users by email has no ties. -/
theorem users_by_email (text : Text)
    (htext : ∀ a b, text.collation.le a b = true → text.collation.le b a = true → a = b)
    (users : Table StaffUser StaffUser.email) (dir : Direction) (query : ListUsersQuery)
    (hsort : query.sort = some (.email, dir)) :
    Partitions (userOrder text query.sort) (users.rows.filter (userWhere text query))
      (query.take.getD 20 : ℕ+)
      (fun skip => findManyUsers text users.rows { query with skip := some skip }) := by
  have hnodup := filter_nodup users (userWhere text query)
  refine (partitions_iff (query.take.getD 20).pos hnodup).mpr (noSplit_of_separates hnodup ?_ _)
  intro a ha b hb hab hba
  have hsame : a.email = b.email := by
    rw [hsort] at hab hba
    cases dir with
    | asc => exact htext _ _ hab hba
    | desc => exact htext _ _ hba hab
  exact Table.eq_of_key (List.mem_of_mem_filter ha) (List.mem_of_mem_filter hb) hsame

end MaxOne.StaffLists
