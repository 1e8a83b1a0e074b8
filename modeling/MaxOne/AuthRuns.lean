import MaxOne.AuthMachine

/-!
# What every run of the authentication service records

A run starts with any tables and no request in progress. `drawn` and `issued`
start with what the refresh tokens in the table use, and `Recorded` says that
they keep covering it: a session is known by its identifier, its family and its
hash for the rest of the run, also after its row has been deleted.
-/
namespace MaxOne.AuthRuns
open Library Library.Runs Library.Interleaving MaxOne.Schema MaxOne.Accounts MaxOne.AuthService
  MaxOne.AuthMachine

abbrev Service := Pool Shared Pc

abbrev Occurrence := Event (ℕ × Input) Service

def next (env : Env) : ℕ × Input → Service → Option Service := Interleaving.next (step env)

def start (s : Shared) : Service where
  data :=
    { s with
      drawn := s.refreshTokens.table.rows.map RefreshToken.id ++
        s.refreshTokens.table.rows.map RefreshToken.familyId
      issued := s.refreshTokens.table.rows.map fun row => (row.tokenHash, row.userId) }
  client _ := .idle

/-! ## The first statements of a request -/

/-- The states before the first statement of a route: nothing has been verified
but tokens, and nothing has been read but the caller. -/
def entry : Pc → Bool
  | .sign (.wsTicket _) | .proveFactor _ _ .disable | .proveFactor _ _ .stepUp => true
  | .sign _ | .proveFactor .. | .createUser .. | .loginWithPasskey _ | .issueTokens .. | .claim ..
  | .deleteFamily _ | .deleteExpired _ | .setTotpPending .. | .enableTotp .. | .disableTotp _
  | .readRecoveryHashes .. | .writeRecoveryHashes .. | .updateCounter .. | .readBefore ..
  | .writeUser .. => false
  | _ => true

section Entry
variable {env : Env} {minted : List Jwt} {now : Time} {p : Pc}

theorem entry_receive (r : Request) : entry (receive minted now r) = true := by
  unfold receive
  split
  all_goals first | rfl | split
  all_goals rfl

theorem entry_dispatch (user : AuthUser) (endpoint : Endpoint) :
    entry (dispatch env minted now user endpoint) = true := by
  unfold dispatch
  split
  all_goals first | rfl | split
  all_goals first | rfl | split
  all_goals first | rfl | split
  all_goals rfl

theorem patchUser_cases (env : Env) (actor : AuthUser) (id : Uuid) (patch : UserPatch) :
    (∃ e, patchUser env actor id patch = .failed e) ∨
      ∃ change, patchUser env actor id patch = .readBefore actor id change := by
  unfold patchUser
  split
  · split_ifs
    · exact .inl ⟨_, rfl⟩
    · exact .inr ⟨_, rfl⟩
  · split_ifs
    · exact .inl ⟨_, rfl⟩
    · exact .inl ⟨_, rfl⟩
    · split
      · exact .inl ⟨_, rfl⟩
      · exact .inr ⟨_, rfl⟩

theorem pendingSession_entry (h : entry p = true) : pendingSession p = none := by
  cases p <;> first | rfl | cases h

theorem pendingSession_authenticated (userId : Uuid) (k : Ceremony) :
    pendingSession (authenticated userId k) = none := by
  cases k <;> rfl

/-- The session `proved` leads to is a new one of the user that was read before. -/
theorem pendingSession_proved {userId : Uuid} {k : ProofOf} {user : User} {familyId : Option Uuid}
    (h : pendingSession (proved userId k) = some (user, familyId)) :
    k = .login user ∧ user.status = .active ∧ familyId = none := by
  revert h
  refine proved_rule (P := (pendingSession · = some (user, familyId) →
    k = .login user ∧ user.status = .active ∧ familyId = none)) nofun ?_ (fun _ => nofun)
    fun _ => nofun
  intro reader hk hactive h
  cases h
  exact ⟨hk, hactive, rfl⟩

theorem proved_ne_deleteFamily (userId : Uuid) (k : ProofOf) (familyId : Uuid) :
    proved userId k ≠ .deleteFamily familyId :=
  proved_rule (P := (· ≠ .deleteFamily familyId)) (fun _ => nofun) (fun _ _ _ => nofun)
    (fun _ => nofun) fun _ => nofun

end Entry

/-! ## Where a session comes from -/

/-- The statement after which a new session of `user` is pending, and why. -/
inductive Opens (env : Env) (s : Shared) : Draw → Pc → User → Prop where
  | registered (d : Draw) (dto : RegisterDto) (role : Role)
      (hnew : s.users.find (newUser d dto role).id = none) :
      Opens env s d (.createUser dto role) (newUser d dto role)
  | password (d : Draw) (dto : LoginDto) (user : User)
      (hfind : s.users.find user.id = some user) (hactive : user.status = .active)
      (htotp : user.totpEnabled = false) : Opens env s d (.login dto) user
  | passkey (d : Draw) (user : User) (hfind : s.users.find user.id = some user)
      (hactive : user.status = .active) : Opens env s d (.loginWithPasskey user.id) user
  | totp (d : Draw) (userId : Uuid) (code : String) (user stored : User)
      (hfind : s.users.find userId = some stored)
      (hmatches : totpMatches env d.now stored code) (hactive : user.status = .active) :
      Opens env s d (.proveFactor userId code (.login user)) user
  | recovery (d : Draw) (userId : Uuid) (hash : String) (remaining : List String) (user : User)
      (hactive : user.status = .active) :
      Opens env s d (.writeRecoveryHashes userId hash remaining (.login user)) user

/-- A pending session was pending before, continues a row that has been read, or is new. -/
theorem pendingSession_change {env : Env} {i : Input} {p q : Pc} {s s' : Shared} {user : User}
    {familyId : Option Uuid} (h : Statement env s i p q s')
    (hq : pendingSession q = some (user, familyId)) :
    pendingSession p = some (user, familyId) ∨
      (∃ row ∈ s.refreshTokens.table.rows, familyId = some row.familyId ∧
        s.users.find row.userId = some user ∧ user.status = .active) ∨
      (familyId = none ∧ ∃ d, i = .run d ∧ Opens env s d p user) := by
  cases h with
  | receives r now =>
      rw [pendingSession_entry (entry_receive _)] at hq
      cases hq
  | money => exact .inl hq
  | registers d dto role users hinsert =>
      cases hq
      have hnew := Table.insert_fresh (IndexedTable.insert_table hinsert)
      exact .inr (.inr ⟨rfl, d, rfl, .registered d dto role hnew⟩)
  | logsIn d dto user hfind hactive htotp =>
      cases hq
      exact .inr (.inr ⟨rfl, d, rfl, .password d dto user hfind hactive htotp⟩)
  | passkeyUser d userId user hfind hactive =>
      cases hq
      obtain rfl : user.id = userId := Table.find_key hfind
      exact .inr (.inr ⟨rfl, d, rfl, .passkey d user hfind hactive⟩)
  | siblings d refreshToken row user hrow hfind hactive =>
      cases hq
      exact .inr (.inl ⟨row, hrow, rfl, hfind, hactive⟩)
  | rotates d refreshToken row user hrow hfind hactive =>
      cases hq
      exact .inr (.inl ⟨row, hrow, rfl, hfind, hactive⟩)
  | loses => exact .inl hq
  | authenticates =>
      rw [pendingSession_entry (entry_dispatch _ _)] at hq
      cases hq
  | provesTotp d userId code k stored hfind htotp hmatches =>
      obtain ⟨rfl, hactive, rfl⟩ := pendingSession_proved hq
      exact .inr (.inr ⟨rfl, d, rfl, .totp d userId code user stored hfind hmatches hactive⟩)
  | consumes d userId hash remaining k =>
      obtain ⟨rfl, hactive, rfl⟩ := pendingSession_proved hq
      exact .inr (.inr ⟨rfl, d, rfl, .recovery d userId hash remaining user hactive⟩)
  | counts =>
      rw [pendingSession_authenticated] at hq
      cases hq
  | permits d actor id patch =>
      rcases patchUser_cases env actor id patch with ⟨e, he⟩ | ⟨change, he⟩ <;>
        rw [he] at hq <;> cases hq
  | _ => cases hq

/-- Only a replay beyond the grace period leads to a revocation. -/
theorem deleteFamily_change {env : Env} {i : Input} {p : Pc} {s s' : Shared} {familyId : Uuid}
    (h : Statement env s i p (.deleteFamily familyId) s') :
    p = .deleteFamily familyId ∨ ∃ row ∈ s.refreshTokens.table.rows, row.familyId = familyId := by
  generalize hq : Pc.deleteFamily familyId = q at h
  have hentry : entry q = false := by rw [← hq]; rfl
  cases h with
  | receives r now =>
      rw [entry_receive] at hentry
      cases hentry
  | money => exact .inl rfl
  | replayed d refreshToken row usedAt hrow =>
      cases hq
      exact .inr ⟨row, hrow, rfl⟩
  | authenticates =>
      rw [entry_dispatch] at hentry
      cases hentry
  | provesTotp d userId code k => exact absurd hq.symm (proved_ne_deleteFamily userId k familyId)
  | consumes d userId hash remaining k =>
      exact absurd hq.symm (proved_ne_deleteFamily userId k familyId)
  | counts d id userId counter k =>
      cases k <;> cases hq
  | permits d actor id patch =>
      rcases patchUser_cases env actor id patch with ⟨e, he⟩ | ⟨change, he⟩ <;>
        rw [he] at hq <;> cases hq
  | _ => cases hq

/-! ## The record of sessions -/

structure Recorded (s : Shared) : Prop where
  id : ∀ row ∈ s.refreshTokens.table.rows, row.id ∈ s.drawn
  family : ∀ row ∈ s.refreshTokens.table.rows, row.familyId ∈ s.drawn
  issued : ∀ row ∈ s.refreshTokens.table.rows, (row.tokenHash, row.userId) ∈ s.issued
  unique : (s.issued.map Prod.fst).Nodup

/-- The families a request works with have been drawn. -/
def FamilyDrawn (p : Pc) (s : Shared) : Prop :=
  (∀ user familyId, pendingSession p = some (user, some familyId) → familyId ∈ s.drawn) ∧
    ∀ familyId, p = .deleteFamily familyId → familyId ∈ s.drawn

section Recorded
variable {env : Env} {i : Input} {p q : Pc} {s s' : Shared}

theorem Recorded.step (hs : Recorded s) (hp : FamilyDrawn p s) (h : Statement env s i p q s') :
    Recorded s' where
  id row hrow := by
    rcases tokens_change h hrow with ⟨old, hold, hsame⟩ | ⟨d, user, familyId, hissues, rfl⟩
    · rw [hsame.id_eq]
      exact drawn_mono h (hs.id old hold)
    · rw [hissues.drawn]
      exact List.mem_cons_self
  family row hrow := by
    rcases tokens_change h hrow with ⟨old, hold, hsame⟩ | ⟨d, user, familyId, hissues, rfl⟩
    · rw [hsame.familyId_eq]
      exact drawn_mono h (hs.family old hold)
    · cases familyId with
      | none =>
          rw [hissues.drawn]
          exact List.mem_cons_of_mem _ List.mem_cons_self
      | some familyId => exact drawn_mono h (hp.1 user familyId hissues.pending)
  issued row hrow := by
    rcases tokens_change h hrow with ⟨old, hold, hsame⟩ | ⟨d, user, familyId, hissues, rfl⟩
    · rw [hsame.tokenHash_eq, hsame.userId_eq]
      exact issued_mono h (hs.issued old hold)
    · rw [hissues.issued]
      exact List.mem_cons_self
  unique := by
    rcases record_change h with ⟨-, hsame⟩ | ⟨d, user, familyId, hissues⟩
    · rw [hsame]
      exact hs.unique
    · rw [hissues.issued, List.map_cons, List.nodup_cons]
      exact ⟨hissues.fresh.2.2.2, hs.unique⟩

theorem FamilyDrawn.step (hs : Recorded s) (hp : FamilyDrawn p s) (h : Statement env s i p q s') :
    FamilyDrawn q s' := by
  constructor
  · intro user familyId hq
    rcases pendingSession_change h hq with hp' | ⟨row, hrow, hfamily, -⟩ | ⟨hnone, -⟩
    · exact drawn_mono h (hp.1 user familyId hp')
    · cases hfamily
      exact drawn_mono h (hs.family row hrow)
    · cases hnone
  · rintro familyId rfl
    rcases deleteFamily_change h with hp' | ⟨row, hrow, rfl⟩
    · exact drawn_mono h (hp.2 familyId hp')
    · exact drawn_mono h (hs.family row hrow)

theorem start_recorded (s : Shared) : Recorded (start s).data where
  id row hrow := List.mem_append_left _ (List.mem_map_of_mem hrow)
  family row hrow := List.mem_append_right _ (List.mem_map_of_mem hrow)
  issued row hrow :=
    List.mem_map_of_mem (f := fun row : RefreshToken => (row.tokenHash, row.userId)) hrow
  unique := by
    have hinj : ∀ r ∈ s.refreshTokens.table.rows, ∀ r' ∈ s.refreshTokens.table.rows,
        r.tokenHash = r'.tokenHash → r = r' := s.refreshTokens.unique
    have hnodup : s.refreshTokens.table.rows.Nodup := s.refreshTokens.table.nodup.of_map _
    have hhashes : (start s).data.issued.map Prod.fst =
        s.refreshTokens.table.rows.map RefreshToken.tokenHash := by
      simp only [start, List.map_map, Function.comp_def]
    rw [hhashes]
    exact hnodup.map_on hinj

theorem run_recorded {s₀ : Shared} {tr : List Occurrence} {t : Service}
    (h : Run (next env) (start s₀) tr t) : Owned Recorded FamilyDrawn t := by
  refine Owned.run (C := fun _ _ _ => True) ?_ ?_ ⟨start_recorded s₀, fun c => ⟨?_, ?_⟩⟩ h
    fun _ _ => trivial
  · intro i p s q s' _ hs hp hstep
    have hstatement := step_statement hstep
    exact ⟨hs.step hp hstatement, hp.step hs hstatement⟩
  · intro i p s q s' r _ _ _ hr hstep
    have hstatement := step_statement hstep
    exact ⟨fun user familyId hpending => drawn_mono hstatement (hr.1 user familyId hpending),
      fun familyId hdelete => drawn_mono hstatement (hr.2 familyId hdelete)⟩
  · intro user familyId hpending
    cases hpending
  · intro familyId hdelete
    cases hdelete

end Recorded

/-! ## Concrete runs -/

def userRole : Role := ⟨1, "user", []⟩

def account (id : Uuid) (email : String) (role : Role) (totpEnabled : Bool) : User where
  id := id
  email := email
  handle := none
  passwordHash := "password"
  firstName := ""
  lastName := ""
  status := .active
  totpSecret := some "secret"
  totpEnabled := totpEnabled
  totpRecoveryHashes := []
  role := role

/-- Hashes, codes and assertions are compared as texts. -/
def plainEnv (roles : List Role) : Env where
  sha256 := id
  compare password hash := password = hash
  check _ code secret := code = secret
  verifyRegistrationResponse response challenge :=
    if response = "key " ++ challenge then .verified ⟨"key", "key", 0⟩ else .rejected
  verifyAuthenticationResponse response challenge passkey :=
    if response.id = passkey.publicKey ∧ response.json = challenge then .verified 1 else .rejected
  roles := roles

/-- Tables that hold only users. -/
def usersOnly (users : List User) : Shared where
  users := users.foldl (fun table user => (table.insert user).getD table) .empty
  refreshTokens := .empty
  passkeys := .empty
  auditLogs := .empty
  money := .empty
  minted := []
  drawn := []
  issued := []

/-- A statement at `now` that may draw `id`, `id + 1` and `text`. -/
def draw (now : Time) (id : Uuid) (text : String) : Draw where
  now := now
  id := id
  familyId := id + 1
  refreshToken := text
  challenge := text
  secret := text
  codes _ := text
  passwordHash := text
  context := ⟨"", none, none⟩

/-- A user who may manage users. -/
def staff (id : Uuid) (email : String) (roleName : String) : User :=
  account id email ⟨id, roleName, ["user.manage"]⟩ false

/-- `n` statements of one request at one time. -/
def statements (c : ℕ) (now : Time) (id : Uuid) (n : ℕ) : List (ℕ × Input) :=
  List.replicate n (c, .run (draw now id ""))

/-- A PATCH by a user whose access token was signed at time 0. -/
def patchBy (c : ℕ) (user : User) (now : Time) (id : Uuid) (patch : UserPatch) (auditId : Uuid) :
    List (ℕ × Input) :=
  (c, .request (.authorized (signAsync (.access user) 0) (.patchUser id patch)) now) ::
    statements c now auditId 4

/-- A password login: the request, the read and the session. -/
def passwordLogin (c : ℕ) (email : String) (now : Time) (id : Uuid) (refreshToken : String) :
    List (ℕ × Input) :=
  [(c, .request (.login ⟨email, "password"⟩) now), (c, .run (draw now 0 "")),
    (c, .run (draw now id refreshToken))]

end MaxOne.AuthRuns
