import MaxOne.Library.Interleaving
import MaxOne.AuthService

/-!
# Runs of the authentication service

`Statement` lists everything one statement of a request can do, and
`step_statement` reads it off `step`; all later case analyses go through it. The
frame theorems say what a statement can do to one table: which request writes a
user, issues a refresh token, signs a token or changes a passkey. A run starts
with no request in progress and holds any number of them.
-/
namespace MaxOne.AuthMachine
open Library Library.Runs Library.Interleaving MaxOne.Schema MaxOne.Accounts MaxOne.AuthService

/-- Everything a statement can do. -/
inductive Statement (env : Env) (s : Shared) : Input → Pc → Pc → Shared → Prop where
  | receives (r : Request) (now : Time) :
      Statement env s (.request r now) .idle (receive s.minted now r) s
  | money (p : Pc) (db : Db) : Statement env s (.money db) p p { s with money := db }
  | fails {i : Input} {p : Pc} (e : HttpException) : Statement env s i p (.failed e) s
  | emailFree (d : Draw) (dto : RegisterDto) :
      Statement env s (.run d) (.findByEmail dto) (.findByHandle dto) s
  | handleFree (d : Draw) (dto : RegisterDto) (role : Role) (hname : role.name = "user") :
      Statement env s (.run d) (.findByHandle dto) (.createUser dto role) s
  | registers (d : Draw) (dto : RegisterDto) (role : Role) (users : UserTable)
      (hinsert : s.users.insert (newUser d dto role) = some users) :
      Statement env s (.run d) (.createUser dto role) (.issueTokens (newUser d dto role) none)
        { s with users := users }
  | challenges (d : Draw) (dto : LoginDto) (user : User)
      (hfind : s.users.find user.id = some user) (hactive : user.status = .active)
      (htotp : user.totpEnabled = true) :
      Statement env s (.run d) (.login dto) (.sign (.twoFactorChallenge user.id)) s
  | logsIn (d : Draw) (dto : LoginDto) (user : User)
      (hfind : s.users.find user.id = some user) (hactive : user.status = .active)
      (htotp : user.totpEnabled = false) :
      Statement env s (.run d) (.login dto) (.issueTokens user none) s
  | secondStep (d : Draw) (userId : Uuid) (code : String) (user : User)
      (hfind : s.users.find userId = some user) :
      Statement env s (.run d) (.login2fa userId code) (.proveFactor userId code (.login user)) s
  | passkeyUser (d : Draw) (userId : Uuid) (user : User)
      (hfind : s.users.find userId = some user) (hactive : user.status = .active) :
      Statement env s (.run d) (.loginWithPasskey userId) (.issueTokens user none) s
  | issues (d : Draw) (user : User) (familyId : Option Uuid) (refreshTokens : RefreshTokenTable)
      (hfresh : d.Fresh env s)
      (hinsert : s.refreshTokens.insert (refreshTokenRow env d user (familyId.getD d.familyId)) =
        some refreshTokens) :
      Statement env s (.run d) (.issueTokens user familyId) (session d user familyId)
        (recordSession env d s user refreshTokens)
  | signs (d : Draw) (m : Mint) : Statement env s (.run d) (.sign m)
      (.done (.signed (signAsync m d.now))) (s.mint (signAsync m d.now))
  | siblings (d : Draw) (refreshToken : String) (row : RefreshToken) (user : User)
      (hrow : row ∈ s.refreshTokens.table.rows) (hfind : s.users.find row.userId = some user)
      (hactive : user.status = .active) :
      Statement env s (.run d) (.rotate refreshToken) (.issueTokens user (some row.familyId)) s
  | replayed (d : Draw) (refreshToken : String) (row : RefreshToken) (usedAt : Time)
      (hrow : row ∈ s.refreshTokens.table.rows) (hused : row.usedAt = some usedAt)
      (hlate : usedAt + reuseGrace ≤ d.now) :
      Statement env s (.run d) (.rotate refreshToken) (.deleteFamily row.familyId) s
  | expired (d : Draw) (refreshToken : String) (row : RefreshToken)
      (hrow : row ∈ s.refreshTokens.table.rows) :
      Statement env s (.run d) (.rotate refreshToken) (.deleteExpired row.id) s
  | rotates (d : Draw) (refreshToken : String) (row : RefreshToken) (user : User)
      (hrow : row ∈ s.refreshTokens.table.rows) (hfind : s.users.find row.userId = some user)
      (hactive : user.status = .active) :
      Statement env s (.run d) (.rotate refreshToken) (.claim row user) s
  | claims (d : Draw) (existing row : RefreshToken) (user : User)
      (refreshTokens : RefreshTokenTable) (hfresh : d.Fresh env s)
      (hrow : s.refreshTokens.find existing.id = some row) (hunused : row.usedAt = none)
      (hinsert : (s.useToken existing.id d.now).refreshTokens.insert
        (refreshTokenRow env d user existing.familyId) = some refreshTokens) :
      Statement env s (.run d) (.claim existing user) (session d user (some existing.familyId))
        (recordSession env d s user refreshTokens)
  | loses (d : Draw) (existing : RefreshToken) (user : User) :
      Statement env s (.run d) (.claim existing user)
        (.issueTokens user (some existing.familyId)) s
  | revokesFamily (d : Draw) (familyId : Uuid) (e : HttpException) :
      Statement env s (.run d) (.deleteFamily familyId) (.failed e)
        (s.deleteTokens fun row => row.familyId = familyId)
  | cleansUp (d : Draw) (id : Uuid) (e : HttpException) :
      Statement env s (.run d) (.deleteExpired id) (.failed e)
        (s.deleteTokens fun row => row.id = id)
  | logsOut (d : Draw) (refreshToken : String) :
      Statement env s (.run d) (.revoke refreshToken) (.done .noContent)
        (s.deleteTokens fun row => row.tokenHash = env.sha256 refreshToken)
  | authenticates (d : Draw) (payload : Claims) (endpoint : Endpoint) (user : AuthUser)
      (hvalid : validate s payload = some user) :
      Statement env s (.run d) (.validate payload endpoint)
        (dispatch env s.minted d.now user endpoint) s
  | setsUp (d : Draw) (user : AuthUser)
      (hoff : (s.users.find user.id).any User.totpEnabled = false) :
      Statement env s (.run d) (.setup user) (.setTotpPending user d.secret) s
  | pends (d : Draw) (actor : AuthUser) (secret : String) (user : User)
      (hfind : s.users.find actor.id = some user) :
      Statement env s (.run d) (.setTotpPending actor secret) (.done (.otpauth actor.email secret))
        (s.setUser actor.id (.setTotpPending secret))
  | checksCode (d : Draw) (userId : Uuid) (code : String) (user : User)
      (hfind : s.users.find userId = some user) (hmatches : totpMatches env d.now user code) :
      Statement env s (.run d) (.verifyAndEnable userId code)
        (.enableTotp userId (List.ofFn d.codes)) s
  | enables (d : Draw) (userId : Uuid) (codes : List String) (user : User)
      (hfind : s.users.find userId = some user) :
      Statement env s (.run d) (.enableTotp userId codes) (.done (.recoveryCodes codes))
        (s.setUser userId (.enableTotp (codes.map env.sha256)))
  | provesTotp (d : Draw) (userId : Uuid) (code : String) (k : ProofOf) (user : User)
      (hfind : s.users.find userId = some user) (htotp : user.totpEnabled = true)
      (hmatches : totpMatches env d.now user code) :
      Statement env s (.run d) (.proveFactor userId code k) (proved userId k) s
  | provesRecovery (d : Draw) (userId : Uuid) (code : String) (k : ProofOf) (user : User)
      (hfind : s.users.find userId = some user) (htotp : user.totpEnabled = true)
      (hmem : recoveryHash env code ∈ user.totpRecoveryHashes) :
      Statement env s (.run d) (.proveFactor userId code k)
        (.readRecoveryHashes userId (recoveryHash env code) k) s
  | readsHashes (d : Draw) (userId : Uuid) (hash : String) (k : ProofOf) (remaining : List String)
      (hremaining : ∀ h ∈ remaining, h ≠ hash ∧ ∃ user ∈ s.users.find userId,
        h ∈ user.totpRecoveryHashes) :
      Statement env s (.run d) (.readRecoveryHashes userId hash k)
        (.writeRecoveryHashes userId hash remaining k) s
  | consumes (d : Draw) (userId : Uuid) (hash : String) (remaining : List String) (k : ProofOf)
      (user : User)
      (hfind : s.users.find userId = some user) :
      Statement env s (.run d) (.writeRecoveryHashes userId hash remaining k) (proved userId k)
        (s.setUser userId (.setRecoveryHashes remaining))
  | disables (d : Draw) (userId : Uuid) (user : User)
      (hfind : s.users.find userId = some user) :
      Statement env s (.run d) (.disableTotp userId) (.done .noContent)
        (s.setUser userId .disableTotp)
  | offersRegistration (d : Draw) (userId : Uuid) :
      Statement env s (.run d) (.registrationOptions userId)
        (.sign (.webAuthnChallenge d.challenge (some userId))) s
  | offersAuthentication (d : Draw) :
      Statement env s (.run d) .authenticationOptions
        (.sign (.webAuthnChallenge d.challenge none)) s
  | createsPasskey (d : Draw) (userId : Uuid) (credential : Credential) (label : Option String)
      (passkeys : PasskeyTable)
      (hinsert : s.passkeys.insert ⟨d.id, userId, credential.id, credential.publicKey,
        credential.counter, label⟩ = some passkeys) :
      Statement env s (.run d) (.createPasskey userId credential label)
        (.done (.passkey d.id label))
        { s with passkeys := passkeys }
  | removesPasskey (d : Draw) (userId id : Uuid) :
      Statement env s (.run d) (.removePasskey userId id) (.done .noContent)
        { s with passkeys := s.passkeys.deleteWhere fun row => row.id = id ∧ row.userId = userId }
  | verifiesAssertion (d : Draw) (response : AuthenticationResponse) (challenge : String)
      (k : Ceremony) (passkey : Passkey) (counter : ℕ)
      (hrow : passkey ∈ s.passkeys.table.rows) (hid : passkey.credentialId = response.id)
      (hexpects : k.expects passkey.userId = true)
      (hverified : env.verifyAuthenticationResponse response challenge passkey =
        .verified counter) :
      Statement env s (.run d) (.verifyAuthentication response challenge k)
        (.updateCounter passkey.id passkey.userId counter k) s
  | counts (d : Draw) (id userId : Uuid) (counter : ℕ) (k : Ceremony) (passkeys : PasskeyTable)
      (hpasskeys : ∀ row ∈ passkeys.table.rows, ∃ old ∈ s.passkeys.table.rows,
        row = { old with counter := row.counter }) :
      Statement env s (.run d) (.updateCounter id userId counter k) (authenticated userId k)
        { s with passkeys := passkeys }
  | permits (d : Draw) (actor : AuthUser) (id : Uuid) (patch : UserPatch) (user : User)
      (hfind : s.users.find actor.id = some user) (hactive : user.status = .active)
      (hheld : "user.manage" ∈ user.role.permissions) :
      Statement env s (.run d) (.permissions actor id patch) (patchUser env actor id patch) s
  | readsBefore (d : Draw) (actor : AuthUser) (id : Uuid) (change : Change) (before : User)
      (hfind : s.users.find id = some before) :
      Statement env s (.run d) (.readBefore actor id change) (.writeUser actor id change before) s
  | patches (d : Draw) (actor : AuthUser) (id : Uuid) (change : Change) (before : User)
      (user : User) (auditLogs : Table AuditLog AuditLog.id)
      (hfind : s.users.find id = some user)
      (haudit : s.auditLogs.insert (auditRow d actor id before change) = some auditLogs) :
      Statement env s (.run d) (.writeUser actor id change before)
        (.done (.user (toPublic (change.update.set user)) (change.update.set user).status))
        { change.sweep id (s.setUser id change.update) with auditLogs := auditLogs }
  | admits (d : Draw) (actor : AuthUser) (walletId : Uuid) (wallet : Wallet)
      (howned : WalletsService.getOwnedWallet s.money walletId actor = .ok wallet) :
      Statement env s (.run d) (.transfer actor walletId) (.done (.admitted wallet)) s

section Step
variable {env : Env} {i : Input} {p q : Pc} {s s' : Shared} {d : Draw}

theorem assertActive_cases (user : User) (next : Pc) :
    assertActive user next = .failed suspended ∨
      (user.status = .active ∧ assertActive user next = next) := by
  unfold assertActive
  split_ifs with h
  · exact .inl rfl
  · exact .inr ⟨not_not.mp h, rfl⟩

/-- What a proof of the second factor leads to has a property if each of its outcomes has. -/
theorem proved_rule {P : Pc → Prop} {userId : Uuid} {k : ProofOf} (hfailed : ∀ e, P (.failed e))
    (hlogin : ∀ user, k = .login user → user.status = .active → P (.issueTokens user none))
    (hdisable : k = .disable → P (.disableTotp userId))
    (hstepUp : k = .stepUp → P (.sign (.stepUpGrant userId))) : P (proved userId k) := by
  cases k with
  | login user =>
      rcases assertActive_cases user (.issueTokens user none) with hs | ⟨hactive, hs⟩
      · rw [proved, hs]
        exact hfailed suspended
      · rw [proved, hs]
        exact hlogin user rfl hactive
  | disable => exact hdisable rfl
  | stepUp => exact hstepUp rfl

theorem findByHandle_statement {dto : RegisterDto} :
    Statement env s (.run d) (.findByHandle dto) (findByHandle env s dto) s := by
  unfold findByHandle
  split_ifs
  · exact .fails _
  · split
    · exact .fails _
    · next role hrole =>
        have hname := List.find?_some hrole
        exact .handleFree d dto role (of_decide_eq_true hname)

theorem createUser_statement {dto : RegisterDto} {role : Role} :
    Statement env s (.run d) (.createUser dto role) (createUser d s dto role).1
      (createUser d s dto role).2 := by
  unfold createUser
  dsimp only
  split_ifs
  · exact .fails _
  · split
    · exact .fails _
    · next users hinsert => exact .registers d dto role users hinsert

theorem find_of_lookup {email : String} {user : User} (h : s.users.lookup email = some user) :
    s.users.find user.id = some user :=
  Table.find_of_mem (IndexedTable.lookup_eq_some.mp h).1

theorem login_statement {dto : LoginDto} :
    Statement env s (.run d) (.login dto) (login env s dto) s := by
  unfold login
  split
  · exact .fails _
  · next user hlookup =>
      have hfind := find_of_lookup hlookup
      split_ifs with hpassword htotp
      · rcases assertActive_cases user (.sign (.twoFactorChallenge user.id)) with h | ⟨ha, h⟩
        · rw [h]
          exact .fails _
        · rw [h]
          exact .challenges d dto user hfind ha htotp
      · rcases assertActive_cases user (.issueTokens user none) with h | ⟨ha, h⟩
        · rw [h]
          exact .fails _
        · rw [h]
          exact .logsIn d dto user hfind ha (by simpa using htotp)
      · exact .fails _

theorem loginWithPasskey_statement {userId : Uuid} :
    Statement env s (.run d) (.loginWithPasskey userId) (loginWithPasskey s userId) s := by
  unfold loginWithPasskey
  split
  · exact .fails _
  · next user hfind =>
      rcases assertActive_cases user (.issueTokens user none) with h | ⟨ha, h⟩
      · rw [h]
        exact .fails _
      · rw [h]
        exact .passkeyUser d userId user hfind ha

theorem rotate_statement {refreshToken : String} :
    Statement env s (.run d) (.rotate refreshToken) (rotate env d.now s refreshToken) s := by
  unfold rotate
  split
  · exact .fails _
  · next row hlookup =>
      have hrow := (IndexedTable.lookup_eq_some.mp hlookup).1
      split
      · exact .fails _
      · next user hfind =>
          unfold assertActive
          split
          · exact .fails _
          · next hactive =>
              rw [not_not] at hactive
              split
              · next usedAt hused =>
                  split_ifs with hgrace
                  · exact .siblings d refreshToken row user hrow hfind hactive
                  · exact .replayed d refreshToken row usedAt hrow hused (not_lt.mp hgrace)
              · split_ifs
                · exact .expired d refreshToken row hrow
                · exact .rotates d refreshToken row user hrow hfind hactive

theorem issueTokens_statement {user : User} {familyId : Option Uuid} (hfresh : d.Fresh env s) :
    Statement env s (.run d) (.issueTokens user familyId) (issueTokens env d s user familyId).1
      (issueTokens env d s user familyId).2 := by
  unfold issueTokens
  split
  · exact .fails _
  · next s₁ hcreate =>
      obtain ⟨refreshTokens, hinsert, rfl⟩ := Option.map_eq_some_iff.mp hcreate
      exact .issues d user familyId refreshTokens hfresh hinsert

theorem claim_statement {existing : RefreshToken} {user : User} (hfresh : d.Fresh env s) :
    Statement env s (.run d) (.claim existing user) (claim env d s existing user).1
      (claim env d s existing user).2 := by
  unfold claim
  split_ifs with hunused
  · obtain ⟨row, hrow, hnone⟩ := (Option.any_eq_true _ _).mp hunused
    split
    · exact .fails _
    · next s₁ hcreate =>
        obtain ⟨refreshTokens, hinsert, rfl⟩ := Option.map_eq_some_iff.mp hcreate
        exact .claims d existing row user refreshTokens hfresh hrow (of_decide_eq_true hnone)
          hinsert
  · exact .loses d existing user

theorem proveFactor_statement {userId : Uuid} {code : String} {k : ProofOf} :
    Statement env s (.run d) (.proveFactor userId code k)
      (proveFactor env d.now s userId code k) s := by
  unfold proveFactor
  split
  · exact .fails _
  · next user hfind =>
      split_ifs with hoff htotp hrecovery
      · exact .fails _
      · exact .provesTotp d userId code k user hfind (by simpa using hoff) htotp
      · exact .provesRecovery d userId code k user hfind (by simpa using hoff) hrecovery
      · exact .fails _

theorem readRecoveryHashes_statement {userId : Uuid} {hash : String} {k : ProofOf} :
    Statement env s (.run d) (.readRecoveryHashes userId hash k)
      (readRecoveryHashes s userId hash k) s := by
  unfold readRecoveryHashes
  refine .readsHashes d userId hash k _ fun h hmem => ?_
  rw [List.mem_filter, decide_eq_true_eq] at hmem
  refine ⟨hmem.2, ?_⟩
  cases hfind : s.users.find userId with
  | none =>
      rw [hfind] at hmem
      exact absurd hmem.1 List.not_mem_nil
  | some user =>
      rw [hfind] at hmem
      exact ⟨user, rfl, hmem.1⟩

theorem updateThen_statement {id : Uuid} {u : UserUpdate} {next : Pc}
    (h : ∀ user, s.users.find id = some user → Statement env s i p next (s.setUser id u)) :
    Statement env s i p (updateThen s id u next).1 (updateThen s id u next).2 := by
  unfold updateThen
  split
  · exact .fails _
  · next s₁ hupdate =>
      obtain ⟨⟨user, hfind⟩, rfl⟩ := Shared.updateUser_eq_some hupdate
      exact h user hfind

theorem createPasskey_statement {userId : Uuid} {credential : Credential} {label : Option String} :
    Statement env s (.run d) (.createPasskey userId credential label)
      (createPasskey d s userId credential label).1
      (createPasskey d s userId credential label).2 := by
  unfold createPasskey
  dsimp only
  split
  · exact .fails _
  · next passkeys hinsert =>
      exact .createsPasskey d userId credential label passkeys hinsert

theorem removePasskey_statement {userId id : Uuid} :
    Statement env s (.run d) (.removePasskey userId id) (removePasskey s userId id).1
      (removePasskey s userId id).2 := by
  unfold removePasskey
  split_ifs
  · exact .removesPasskey d userId id
  · exact .fails _

theorem verifyAuthentication_statement {response : AuthenticationResponse} {challenge : String}
    {k : Ceremony} :
    Statement env s (.run d) (.verifyAuthentication response challenge k)
      (verifyAuthentication env s response challenge k) s := by
  unfold verifyAuthentication
  split
  · exact .fails _
  · next passkey hlookup =>
      obtain ⟨hrow, hid⟩ := IndexedTable.lookup_eq_some.mp hlookup
      split_ifs with hexpects
      · exact .fails _
      · rw [Bool.not_eq_true', Bool.not_eq_false] at hexpects
        split
        · exact .fails _
        · exact .fails _
        · next counter hverified =>
            exact .verifiesAssertion d response challenge k passkey counter hrow hid hexpects
              hverified

theorem updateCounter_statement {id userId : Uuid} {counter : ℕ} {k : Ceremony} :
    Statement env s (.run d) (.updateCounter id userId counter k)
      (updateCounter s id userId counter k).1 (updateCounter s id userId counter k).2 := by
  unfold updateCounter
  split_ifs
  · exact .fails _
  · refine .counts d id userId counter k _ fun row hrow => ?_
    rcases IndexedTable.mem_modify.mp hrow with ⟨hold, -⟩ | ⟨old, hold, rfl⟩
    · exact ⟨row, hold, rfl⟩
    · exact ⟨old, Table.mem_of_find hold, rfl⟩

theorem permissions_statement {actor : AuthUser} {id : Uuid} {patch : UserPatch} :
    Statement env s (.run d) (.permissions actor id patch) (permissions env s actor id patch) s := by
  unfold permissions
  split
  · exact .fails _
  · next user hfind =>
      split_ifs with hactive hheld
      · exact .fails _
      · exact .permits d actor id patch user hfind (not_not.mp hactive) hheld
      · exact .fails _

theorem writeUser_statement {actor : AuthUser} {id : Uuid} {change : Change} {before : User} :
    Statement env s (.run d) (.writeUser actor id change before)
      (writeUser d s actor id change before).1 (writeUser d s actor id change before).2 := by
  unfold writeUser
  split
  · next stored updated hstored hupdate =>
      obtain ⟨-, rfl⟩ := Shared.updateUser_eq_some hupdate
      split
      · exact .fails _
      · next auditLogs haudit =>
          exact .patches d actor id change before stored auditLogs hstored haudit
  · exact .fails _

theorem statement_statement (h : statement env d s p = some (q, s')) :
    Statement env s (.run d) p q s' := by
  cases p with
  | idle => cases h
  | findByEmail dto =>
      cases h
      unfold findByEmail
      split_ifs
      · exact .emailFree d dto
      · exact .fails _
  | findByHandle dto => cases h; exact findByHandle_statement
  | createUser dto role =>
      obtain ⟨rfl, rfl⟩ := Prod.ext_iff.mp (Option.some.inj h)
      exact createUser_statement
  | login dto => cases h; exact login_statement
  | login2fa userId code =>
      cases h
      unfold login2fa
      split
      · exact .fails _
      · next user hfind => exact .secondStep d userId code user hfind
  | loginWithPasskey userId => cases h; exact loginWithPasskey_statement
  | issueTokens user familyId =>
      simp only [statement] at h
      split_ifs at h with hfresh
      obtain ⟨rfl, rfl⟩ := Prod.ext_iff.mp (Option.some.inj h)
      exact issueTokens_statement hfresh
  | sign m => cases h; exact .signs d m
  | rotate refreshToken => cases h; exact rotate_statement
  | claim existing user =>
      simp only [statement] at h
      split_ifs at h with hfresh
      obtain ⟨rfl, rfl⟩ := Prod.ext_iff.mp (Option.some.inj h)
      exact claim_statement hfresh
  | deleteFamily familyId => cases h; exact .revokesFamily d familyId _
  | deleteExpired id =>
      obtain ⟨rfl, rfl⟩ := Prod.ext_iff.mp (Option.some.inj h)
      unfold deleteExpired
      split_ifs
      · exact .fails _
      · exact .cleansUp d id _
  | revoke refreshToken => cases h; exact .logsOut d refreshToken
  | validate payload endpoint =>
      simp only [statement] at h
      split at h
      · cases h; exact .fails _
      · next user hvalid => cases h; exact .authenticates d payload endpoint user hvalid
  | setup user =>
      cases h
      unfold setup
      split_ifs with hon
      · exact .fails _
      · exact .setsUp d user (by simpa using hon)
  | setTotpPending user secret =>
      obtain ⟨rfl, rfl⟩ := Prod.ext_iff.mp (Option.some.inj h)
      exact updateThen_statement fun stored hfind => .pends d user secret stored hfind
  | verifyAndEnable userId code =>
      cases h
      unfold verifyAndEnable
      split_ifs with hany
      · obtain ⟨user, hfind, hmatches⟩ := (Option.any_eq_true _ _).mp hany
        exact .checksCode d userId code user hfind hmatches
      · exact .fails _
  | enableTotp userId codes =>
      obtain ⟨rfl, rfl⟩ := Prod.ext_iff.mp (Option.some.inj h)
      exact updateThen_statement fun user hfind => .enables d userId codes user hfind
  | proveFactor userId code k => cases h; exact proveFactor_statement
  | readRecoveryHashes userId hash k => cases h; exact readRecoveryHashes_statement
  | writeRecoveryHashes userId hash remaining k =>
      obtain ⟨rfl, rfl⟩ := Prod.ext_iff.mp (Option.some.inj h)
      exact updateThen_statement fun user hfind => .consumes d userId hash remaining k user hfind
  | disableTotp userId =>
      obtain ⟨rfl, rfl⟩ := Prod.ext_iff.mp (Option.some.inj h)
      exact updateThen_statement fun user hfind => .disables d userId user hfind
  | registrationOptions userId => cases h; exact .offersRegistration d userId
  | createPasskey userId credential label =>
      obtain ⟨rfl, rfl⟩ := Prod.ext_iff.mp (Option.some.inj h)
      exact createPasskey_statement
  | removePasskey userId id =>
      obtain ⟨rfl, rfl⟩ := Prod.ext_iff.mp (Option.some.inj h)
      exact removePasskey_statement
  | authenticationOptions => cases h; exact .offersAuthentication d
  | verifyAuthentication response challenge k => cases h; exact verifyAuthentication_statement
  | updateCounter id userId counter k =>
      obtain ⟨rfl, rfl⟩ := Prod.ext_iff.mp (Option.some.inj h)
      exact updateCounter_statement
  | permissions actor id patch => cases h; exact permissions_statement
  | readBefore actor id change =>
      cases h
      unfold readBefore
      split
      · exact .fails _
      · next before hfind => exact .readsBefore d actor id change before hfind
  | writeUser actor id change before =>
      obtain ⟨rfl, rfl⟩ := Prod.ext_iff.mp (Option.some.inj h)
      exact writeUser_statement
  | transfer actor walletId =>
      simp only [statement] at h
      split at h
      · cases h; exact .fails _
      · next wallet howned => cases h; exact .admits d actor walletId wallet howned
  | done r => cases h
  | failed e => cases h

theorem step_statement (h : step env i p s = some (q, s')) : Statement env s i p q s' := by
  cases i with
  | request r now =>
      cases p <;> cases h
      exact .receives r now
  | run d => exact statement_statement h
  | lost =>
      obtain ⟨q', hq, he⟩ := Option.map_eq_some_iff.mp h
      cases he
      cases p <;> cases hq <;> exact .fails _
  | money db => cases h; exact .money p db

end Step

/-! ## What a statement can do to one table -/

/-- The session a request is about to issue: its user, as read, and its family. -/
def pendingSession : Pc → Option (User × Option Uuid)
  | .issueTokens user familyId => some (user, familyId)
  | .claim existing user => some (user, some existing.familyId)
  | _ => none

/-- The token a request is about to sign. -/
def pendingMint : Pc → Option Mint
  | .sign m => some m
  | .issueTokens user _ | .claim _ user => some (.access user)
  | _ => none

/-- The UPDATE of a user a request is about to run. -/
def pendingUpdate (env : Env) : Pc → Option (Uuid × UserUpdate)
  | .setTotpPending user secret => some (user.id, .setTotpPending secret)
  | .enableTotp userId codes => some (userId, .enableTotp (codes.map env.sha256))
  | .writeRecoveryHashes userId _ remaining _ => some (userId, .setRecoveryHashes remaining)
  | .disableTotp userId => some (userId, .disableTotp)
  | .writeUser _ id change _ => some (id, change.update)
  | _ => none

/-- Two versions of one row: only `usedAt` is ever updated. -/
def SameToken (old row : RefreshToken) : Prop := row = { old with usedAt := row.usedAt }

theorem SameToken.refl (row : RefreshToken) : SameToken row row := rfl

section SameToken
variable {old row : RefreshToken}

theorem SameToken.id_eq (h : SameToken old row) : row.id = old.id := by rw [h]

theorem SameToken.tokenHash_eq (h : SameToken old row) : row.tokenHash = old.tokenHash := by rw [h]

theorem SameToken.familyId_eq (h : SameToken old row) : row.familyId = old.familyId := by rw [h]

theorem SameToken.userId_eq (h : SameToken old row) : row.userId = old.userId := by rw [h]

end SameToken

/-- The request that moves issues a session. -/
structure Issues (env : Env) (s s' : Shared) (i : Input) (p : Pc) (d : Draw) (user : User)
    (familyId : Option Uuid) : Prop where
  input : i = .run d
  fresh : d.Fresh env s
  pending : pendingSession p = some (user, familyId)
  drawn : s'.drawn = d.id :: d.familyId :: s.drawn
  issued : s'.issued = (env.sha256 d.refreshToken, user.id) :: s.issued

section Frame
variable {env : Env} {i : Input} {p q : Pc} {s s' : Shared} {d : Draw}

theorem sweep_users (id : Uuid) (change : Change) : (change.sweep id s).users = s.users := by
  unfold Change.sweep
  split <;> rfl

theorem sweep_minted (id : Uuid) (change : Change) : (change.sweep id s).minted = s.minted := by
  unfold Change.sweep
  split <;> rfl

theorem sweep_passkeys (id : Uuid) (change : Change) : (change.sweep id s).passkeys = s.passkeys := by
  unfold Change.sweep
  split <;> rfl

theorem sweep_drawn (id : Uuid) (change : Change) : (change.sweep id s).drawn = s.drawn := by
  unfold Change.sweep
  split <;> rfl

theorem sweep_issued (id : Uuid) (change : Change) : (change.sweep id s).issued = s.issued := by
  unfold Change.sweep
  split <;> rfl

theorem mem_sweep {id : Uuid} {change : Change} {row : RefreshToken} :
    row ∈ (change.sweep id s).refreshTokens.table.rows ↔
      row ∈ s.refreshTokens.table.rows ∧
        (change = .status .suspended → row.userId ≠ id) := by
  unfold Change.sweep
  split
  · simp [Shared.mem_deleteTokens]
  · next hother =>
      simp only [iff_self_and]
      intro _ hsuspends
      exact absurd hsuspends hother

/-- A user stays, and changes only by the UPDATE of the request that moves. -/
theorem users_change (h : Statement env s i p q s') {id : Uuid} {user : User}
    (hfind : s.users.find id = some user) :
    s'.users.find id = some user ∨ ∃ d u, i = .run d ∧ pendingUpdate env p = some (id, u) ∧
      s'.users.find id = some (u.set user) := by
  have hwrite : ∀ d target u, i = .run d → pendingUpdate env p = some (target, u) →
      (s.setUser target u).users.find id = some user ∨ ∃ d v, i = .run d ∧
        pendingUpdate env p = some (id, v) ∧
          (s.setUser target u).users.find id = some (v.set user) := by
    intro d target u hi hpending
    rw [Shared.find_setUser]
    split_ifs with hid
    · subst hid
      rw [hfind]
      exact .inr ⟨d, u, hi, hpending, rfl⟩
    · exact .inl hfind
  cases h with
  | registers d dto role users hinsert =>
      exact .inl (IndexedTable.find_insert_of_some hinsert hfind)
  | pends => exact hwrite _ _ _ rfl rfl
  | enables => exact hwrite _ _ _ rfl rfl
  | consumes => exact hwrite _ _ _ rfl rfl
  | disables => exact hwrite _ _ _ rfl rfl
  | patches =>
      simp only [sweep_users]
      exact hwrite _ _ _ rfl rfl
  | _ => exact .inl hfind

/-- A refresh token was there before or is the one the request issues. -/
theorem tokens_change (h : Statement env s i p q s') {row : RefreshToken}
    (hrow : row ∈ s'.refreshTokens.table.rows) :
    (∃ old ∈ s.refreshTokens.table.rows, SameToken old row) ∨
      ∃ d user familyId, Issues env s s' i p d user familyId ∧
        row = refreshTokenRow env d user (familyId.getD d.familyId) := by
  cases h with
  | issues d user familyId refreshTokens hfresh hinsert =>
      rcases (IndexedTable.mem_insert hinsert).mp hrow with hold | hnew
      · exact .inl ⟨row, hold, .refl row⟩
      · exact .inr ⟨d, user, familyId, ⟨rfl, hfresh, rfl, rfl, rfl⟩, hnew⟩
  | claims d existing old user refreshTokens hfresh hfind hunused hinsert =>
      rcases (IndexedTable.mem_insert hinsert).mp hrow with hold | hnew
      · rcases Shared.mem_useToken.mp hold with ⟨hold, -⟩ | ⟨r, hr, rfl⟩
        · exact .inl ⟨row, hold, .refl row⟩
        · exact .inl ⟨r, Table.mem_of_find hr, rfl⟩
      · exact .inr ⟨d, user, some existing.familyId, ⟨rfl, hfresh, rfl, rfl, rfl⟩, hnew⟩
  | patches => exact .inl ⟨row, (mem_sweep.mp hrow).1, .refl row⟩
  | revokesFamily => exact .inl ⟨row, (Shared.mem_deleteTokens.mp hrow).1, .refl row⟩
  | cleansUp => exact .inl ⟨row, (Shared.mem_deleteTokens.mp hrow).1, .refl row⟩
  | logsOut => exact .inl ⟨row, (Shared.mem_deleteTokens.mp hrow).1, .refl row⟩
  | _ => exact .inl ⟨row, hrow, .refl row⟩

theorem record_change (h : Statement env s i p q s') :
    (s'.drawn = s.drawn ∧ s'.issued = s.issued) ∨
      ∃ d user familyId, Issues env s s' i p d user familyId := by
  cases h with
  | issues d user familyId refreshTokens hfresh hinsert =>
      exact .inr ⟨d, user, familyId, rfl, hfresh, rfl, rfl, rfl⟩
  | claims d existing old user refreshTokens hfresh hfind hunused hinsert =>
      exact .inr ⟨d, user, some existing.familyId, rfl, hfresh, rfl, rfl, rfl⟩
  | patches =>
      simp only [sweep_drawn, sweep_issued]
      exact .inl ⟨rfl, rfl⟩
  | _ => exact .inl ⟨rfl, rfl⟩

theorem drawn_mono (h : Statement env s i p q s') {id : Uuid} (hid : id ∈ s.drawn) :
    id ∈ s'.drawn := by
  rcases record_change h with ⟨hsame, -⟩ | ⟨d, user, familyId, hissues⟩
  · rw [hsame]
    exact hid
  · rw [hissues.drawn]
    exact List.mem_cons_of_mem _ (List.mem_cons_of_mem _ hid)

theorem issued_mono (h : Statement env s i p q s') {token : String × Uuid}
    (htoken : token ∈ s.issued) : token ∈ s'.issued := by
  rcases record_change h with ⟨-, hsame⟩ | ⟨d, user, familyId, hissues⟩
  · rw [hsame]
    exact htoken
  · rw [hissues.issued]
    exact List.mem_cons_of_mem _ htoken

/-- Every token is signed by the request that moves, if it is new. -/
theorem minted_change (h : Statement env s i p q s') {token : Jwt} (htoken : token ∈ s'.minted) :
    token ∈ s.minted ∨ ∃ d m, i = .run d ∧ pendingMint p = some m ∧ token = signAsync m d.now := by
  cases h with
  | issues d user =>
      rcases List.mem_cons.mp htoken with hnew | hold
      · exact .inr ⟨d, _, rfl, rfl, hnew⟩
      · exact .inl hold
  | claims d existing row user =>
      rcases List.mem_cons.mp htoken with hnew | hold
      · exact .inr ⟨d, _, rfl, rfl, hnew⟩
      · exact .inl hold
  | signs d m =>
      rcases List.mem_cons.mp htoken with hnew | hold
      · exact .inr ⟨d, m, rfl, rfl, hnew⟩
      · exact .inl hold
  | patches =>
      simp only [sweep_minted] at htoken
      exact .inl htoken
  | _ => exact .inl htoken

theorem minted_mono (h : Statement env s i p q s') {token : Jwt} (htoken : token ∈ s.minted) :
    token ∈ s'.minted := by
  cases h with
  | issues | claims | signs => exact List.mem_cons_of_mem _ htoken
  | patches =>
      simp only [sweep_minted]
      exact htoken
  | _ => exact htoken

/-- A passkey was there before, up to its counter, or is registered by this request. -/
theorem passkeys_change (h : Statement env s i p q s') {row : Passkey}
    (hrow : row ∈ s'.passkeys.table.rows) :
    (∃ old ∈ s.passkeys.table.rows, row = { old with counter := row.counter }) ∨
      ∃ credential label, p = .createPasskey row.userId credential label := by
  cases h with
  | createsPasskey d userId credential label passkeys hinsert =>
      rcases (IndexedTable.mem_insert hinsert).mp hrow with hold | rfl
      · exact .inl ⟨row, hold, rfl⟩
      · exact .inr ⟨credential, label, rfl⟩
  | removesPasskey => exact .inl ⟨row, (IndexedTable.mem_deleteWhere.mp hrow).1, rfl⟩
  | counts d id userId counter k passkeys hpasskeys => exact .inl (hpasskeys row hrow)
  | patches =>
      simp only [sweep_passkeys] at hrow
      exact .inl ⟨row, hrow, rfl⟩
  | _ => exact .inl ⟨row, hrow, rfl⟩

end Frame

end MaxOne.AuthMachine
