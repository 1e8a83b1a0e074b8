import MaxOne.Accounts
import MaxOne.WalletsService

/-!
# The authentication service

The routes of `auth.controller.ts`, the two PATCH routes of
`users.controller.ts` and the admission of `POST /wallets/:id/transfers`, one
database statement at a time. A request is a client of the machine; `Pc` names
the statement it awaits and carries what it has read. A transaction block of
these services is one statement, and so is each signature. What follows a read
without another statement (password and code checks, comparisons, the clock)
belongs to that read.

`Draw` is what the runtime supplies to one statement. Row and family identifiers
of sessions and the hashes of refresh tokens are never drawn twice.
-/
namespace MaxOne.AuthService
open Library MaxOne.Schema MaxOne.Accounts
open Library.LowerCase (toLowerCase)

/-! ## Requests -/

structure RegisterDto where
  email : String
  handle : String
  password : String
  firstName : String
  lastName : String

structure LoginDto where
  email : String
  password : String

/-- The body of the two PATCH routes. -/
inductive UserPatch where
  | status (status : UserStatus)
  | role (roleName : String)

/-- The routes behind `JwtAuthGuard`. -/
inductive Endpoint where
  | wsTicket
  | setup2fa
  | verify2fa (code : String)
  | disable2fa (code : String)
  | stepUp (code : String)
  | passkeyRegisterOptions
  | passkeyRegisterVerify (response : String) (challengeToken : Jwt) (label : Option String)
  | removePasskey (id : Uuid)
  | stepUpPasskeyOptions
  | stepUpPasskeyVerify (response : AuthenticationResponse) (challengeToken : Jwt)
  | patchUser (id : Uuid) (patch : UserPatch)
  | transfer (walletId : Uuid) (grant : Option Jwt)

inductive Request where
  | register (dto : RegisterDto)
  | login (dto : LoginDto)
  | login2fa (challengeToken : Jwt) (code : String)
  | refresh (refreshToken : String)
  | logout (refreshToken : String)
  | passkeyLoginOptions
  | passkeyLoginVerify (response : AuthenticationResponse) (challengeToken : Jwt)
  | connect (ticket : Jwt)
  | authorized (accessToken : Jwt) (endpoint : Endpoint)

structure PublicUser where
  id : Uuid
  email : String
  role : String
  firstName : String
  lastName : String
  handle : Option String
  deriving DecidableEq, Repr

def toPublic (user : User) : PublicUser :=
  ⟨user.id, user.email, user.role.name, user.firstName, user.lastName, user.handle⟩

inductive Response where
  | session (user : Option PublicUser) (accessToken : Jwt) (refreshToken : String)
  | signed (token : Jwt)
  | otpauth (email : Option String) (secret : String)
  | recoveryCodes (codes : List String)
  | passkey (id : Uuid) (label : Option String)
  | user (user : PublicUser) (status : UserStatus)
  | admitted (wallet : Wallet)
  | joined (room : Option Uuid)
  | disconnected
  | noContent
  deriving DecidableEq, Repr

/-! ## Control states -/

/-- What a proof of the second factor is for; `login2fa` has read its user. -/
inductive ProofOf where
  | login (user : User)
  | disable
  | stepUp

/-- The caller of `verifyAuthentication`. -/
inductive Ceremony where
  | login
  | stepUp (expectUserId : Uuid)

/-- An admitted PATCH. -/
inductive Change where
  | status (status : UserStatus)
  | role (role : Role)

def Change.update : Change → UserUpdate
  | .status value => .setStatus value
  | .role value => .setRole value

inductive Pc where
  | idle
  | findByEmail (dto : RegisterDto)
  | findByHandle (dto : RegisterDto)
  | createUser (dto : RegisterDto) (role : Role)
  | login (dto : LoginDto)
  | login2fa (userId : Uuid) (code : String)
  | loginWithPasskey (userId : Uuid)
  /-- `none`: a new family, whose response names the user -/
  | issueTokens (user : User) (familyId : Option Uuid)
  | sign (m : Mint)
  | rotate (refreshToken : String)
  | claim (existing : RefreshToken) (user : User)
  | deleteFamily (familyId : Uuid)
  | deleteExpired (id : Uuid)
  | revoke (refreshToken : String)
  | validate (payload : Claims) (endpoint : Endpoint)
  | setup (user : AuthUser)
  | setTotpPending (user : AuthUser) (secret : String)
  | verifyAndEnable (userId : Uuid) (code : String)
  | enableTotp (userId : Uuid) (codes : List String)
  | proveFactor (userId : Uuid) (code : String) (k : ProofOf)
  | readRecoveryHashes (userId : Uuid) (hash : String) (k : ProofOf)
  | writeRecoveryHashes (userId : Uuid) (hash : String) (remaining : List String) (k : ProofOf)
  | disableTotp (userId : Uuid)
  | registrationOptions (userId : Uuid)
  | createPasskey (userId : Uuid) (credential : Credential) (label : Option String)
  | removePasskey (userId id : Uuid)
  | authenticationOptions
  | verifyAuthentication (response : AuthenticationResponse) (challenge : String) (k : Ceremony)
  | updateCounter (id userId : Uuid) (counter : ℕ) (k : Ceremony)
  | permissions (actor : AuthUser) (id : Uuid) (patch : UserPatch)
  | readBefore (actor : AuthUser) (id : Uuid) (change : Change)
  | writeUser (actor : AuthUser) (id : Uuid) (change : Change) (before : User)
  | transfer (actor : AuthUser) (walletId : Uuid)
  | done (response : Response)
  | failed (e : HttpException)

def recoveryCount : ℕ := 8

/-- What the runtime supplies to a statement. -/
structure Draw where
  now : Time
  id : Uuid
  familyId : Uuid
  refreshToken : String
  challenge : String
  secret : String
  codes : Fin recoveryCount → String
  passwordHash : String
  context : AuditContext

/-- `lost` is a statement whose connection fails before it is sent. -/
inductive Input where
  | request (r : Request) (now : Time)
  | run (draw : Draw)
  | lost
  | money (db : Db)

/-! ## Sessions -/

def refreshTtl : Time := 7 * 24 * 60 * 60 * 1000

def reuseGrace : Time := 30000

def suspended : HttpException :=
  forbidden "This account has been suspended. Please contact support."

def assertActive (user : User) (next : Pc) : Pc :=
  if user.status ≠ .active then .failed suspended else next

/-- Session identifiers and hashes that have not been drawn before. -/
def Draw.Fresh (env : Env) (draw : Draw) (s : Shared) : Prop :=
  draw.id ∉ s.drawn ∧ draw.familyId ∉ s.drawn ∧ draw.id ≠ draw.familyId ∧
    env.sha256 draw.refreshToken ∉ s.issued.map Prod.fst

instance (env : Env) (draw : Draw) (s : Shared) : Decidable (draw.Fresh env s) :=
  inferInstanceAs (Decidable (_ ∧ _ ∧ _ ∧ _))

def refreshTokenRow (env : Env) (draw : Draw) (user : User) (familyId : Uuid) : RefreshToken where
  id := draw.id
  tokenHash := env.sha256 draw.refreshToken
  familyId := familyId
  usedAt := none
  userId := user.id
  expiresAt := draw.now + refreshTtl

/-- The row of `issueTokens` is in the table, and its access token is signed. -/
def recordSession (env : Env) (draw : Draw) (s : Shared) (user : User)
    (refreshTokens : RefreshTokenTable) : Shared :=
  { s with
    refreshTokens := refreshTokens
    minted := signAsync (.access user) draw.now :: s.minted
    drawn := draw.id :: draw.familyId :: s.drawn
    issued := (env.sha256 draw.refreshToken, user.id) :: s.issued }

/-- The access token and the refresh row of `issueTokens`. -/
def createSession (env : Env) (draw : Draw) (s : Shared) (user : User) (familyId : Uuid) :
    Option Shared :=
  (s.refreshTokens.insert (refreshTokenRow env draw user familyId)).map
    (recordSession env draw s user)

def session (draw : Draw) (user : User) (familyId : Option Uuid) : Pc :=
  .done (.session (if familyId = none then some (toPublic user) else none)
    (signAsync (.access user) draw.now) draw.refreshToken)

def issueTokens (env : Env) (draw : Draw) (s : Shared) (user : User) (familyId : Option Uuid) :
    Pc × Shared :=
  match createSession env draw s user (familyId.getD draw.familyId) with
  | none => (.failed alreadyExists, s)
  | some s' => (session draw user familyId, s')

/-- The read of `rotate` and what it decides. -/
def rotate (env : Env) (now : Time) (s : Shared) (refreshToken : String) : Pc :=
  match s.refreshTokens.lookup (env.sha256 refreshToken) with
  | none => .failed (unauthorized "Invalid refresh token")
  | some existing =>
      match s.users.find existing.userId with
      | none => .failed internalError
      | some user =>
          assertActive user <|
          match existing.usedAt with
          | some usedAt =>
              if now < usedAt + reuseGrace then .issueTokens user (some existing.familyId)
              else .deleteFamily existing.familyId
          | none =>
              if existing.expiresAt < now then .deleteExpired existing.id
              else .claim existing user

/-- The transaction of `rotate`: claim the row and issue its successor. A row that
is used, or gone, is not claimed, and the caller issues a sibling instead. -/
def claim (env : Env) (draw : Draw) (s : Shared) (existing : RefreshToken) (user : User) :
    Pc × Shared :=
  if (s.refreshTokens.find existing.id).any (fun row => row.usedAt = none) then
    match createSession env draw (s.useToken existing.id draw.now) user existing.familyId with
    | none => (.failed alreadyExists, s)
    | some s' => (session draw user (some existing.familyId), s')
  else (.issueTokens user (some existing.familyId), s)

def deleteExpired (s : Shared) (id : Uuid) : Pc × Shared :=
  if s.refreshTokens.find id = none then (.failed recordNotFound, s)
  else (.failed (unauthorized "Refresh token expired"), s.deleteTokens fun row => row.id = id)

/-! ## Registration and login -/

def findByEmail (s : Shared) (dto : RegisterDto) : Pc :=
  if s.users.lookup dto.email = none then .findByHandle dto
  else .failed (conflict "Email already registered")

/-- The role is looked up next; a seed without it is a 404. -/
def findByHandle (env : Env) (s : Shared) (dto : RegisterDto) : Pc :=
  if s.users.table.rows.any (fun u => u.handle = some (toLowerCase dto.handle)) then
    .failed (conflict "Handle already taken")
  else
    match env.roles.find? fun role => role.name = "user" with
    | none => .failed recordNotFound
    | some role => .createUser dto role

def newUser (draw : Draw) (dto : RegisterDto) (role : Role) : User where
  id := draw.id
  email := dto.email
  handle := some (toLowerCase dto.handle)
  passwordHash := draw.passwordHash
  firstName := dto.firstName
  lastName := dto.lastName
  status := .active
  totpSecret := none
  totpEnabled := false
  totpRecoveryHashes := []
  role := role

def createUser (draw : Draw) (s : Shared) (dto : RegisterDto) (role : Role) : Pc × Shared :=
  let user := newUser draw dto role
  if s.users.table.rows.any (fun u => u.handle = user.handle) then (.failed alreadyExists, s)
  else
    match s.users.insert user with
    | none => (.failed alreadyExists, s)
    | some users => (.issueTokens user none, { s with users := users })

def login (env : Env) (s : Shared) (dto : LoginDto) : Pc :=
  match s.users.lookup dto.email with
  | none => .failed (unauthorized "Invalid credentials")
  | some user =>
      if env.compare dto.password user.passwordHash then
        assertActive user <|
        if user.totpEnabled then .sign (.twoFactorChallenge user.id) else .issueTokens user none
      else .failed (unauthorized "Invalid credentials")

def login2fa (s : Shared) (userId : Uuid) (code : String) : Pc :=
  match s.users.find userId with
  | none => .failed (unauthorized "Invalid code")
  | some user => .proveFactor userId code (.login user)

def loginWithPasskey (s : Shared) (userId : Uuid) : Pc :=
  match s.users.find userId with
  | none => .failed (unauthorized "Invalid credentials")
  | some user => assertActive user (.issueTokens user none)

/-! ## The second factor -/

/-- `String.prototype.trim` and `\s` remove the same characters. -/
def isSpace (c : Char) : Bool :=
  c.val ∈ [0x9, 0xA, 0xB, 0xC, 0xD, 0x20, 0xA0, 0x1680, 0x2028, 0x2029, 0x202F, 0x205F, 0x3000,
    0xFEFF] || (0x2000 ≤ c.val && c.val ≤ 0x200A)

def normalize (code : String) : String :=
  String.ofList ((toLowerCase code).toList.filter fun c => !isSpace c)

/-- Once the factor is proved. -/
def proved (userId : Uuid) : ProofOf → Pc
  | .login user => assertActive user (.issueTokens user none)
  | .disable => .disableTotp userId
  | .stepUp => .sign (.stepUpGrant userId)

/-- The code is a live TOTP code of this user. -/
def totpMatches (env : Env) (now : Time) (user : User) (code : String) : Bool :=
  user.totpSecret.any fun secret => secret ≠ "" && env.check now (normalize code) secret

def recoveryHash (env : Env) (code : String) : String := env.sha256 (normalize code)

/-- `disable` and `verifyForLogin` read the user and prove the factor. -/
def proveFactor (env : Env) (now : Time) (s : Shared) (userId : Uuid) (code : String)
    (k : ProofOf) : Pc :=
  match s.users.find userId with
  | none => .failed (unauthorized "Invalid code")
  | some user =>
      if !user.totpEnabled then .failed (unauthorized "Invalid code")
      else if totpMatches env now user code then proved userId k
      else if recoveryHash env code ∈ user.totpRecoveryHashes then
        .readRecoveryHashes userId (recoveryHash env code) k
      else .failed (unauthorized "Invalid code")

def readRecoveryHashes (s : Shared) (userId : Uuid) (hash : String) (k : ProofOf) : Pc :=
  let stored := ((s.users.find userId).map User.totpRecoveryHashes).getD []
  .writeRecoveryHashes userId hash (stored.filter fun h => h ≠ hash) k

def setup (draw : Draw) (s : Shared) (user : AuthUser) : Pc :=
  if (s.users.find user.id).any User.totpEnabled then
    .failed (conflict "2FA is already enabled — turn it off first")
  else .setTotpPending user draw.secret

def verifyAndEnable (env : Env) (draw : Draw) (s : Shared) (userId : Uuid) (code : String) : Pc :=
  if (s.users.find userId).any (fun user => totpMatches env draw.now user code) then
    .enableTotp userId (List.ofFn draw.codes)
  else .failed (unauthorized "Invalid code")

/-- An UPDATE by primary key, then `next`. -/
def updateThen (s : Shared) (id : Uuid) (u : UserUpdate) (next : Pc) : Pc × Shared :=
  match s.updateUser id u with
  | none => (.failed recordNotFound, s)
  | some s' => (next, s')

/-! ## Passkeys -/

def createPasskey (draw : Draw) (s : Shared) (userId : Uuid) (credential : Credential)
    (label : Option String) : Pc × Shared :=
  let row : Passkey :=
    ⟨draw.id, userId, credential.id, credential.publicKey, credential.counter, label⟩
  match s.passkeys.insert row with
  | none => (.failed alreadyExists, s)
  | some passkeys => (.done (.passkey draw.id label), { s with passkeys := passkeys })

/-- A step-up ceremony is bound to the caller. -/
def Ceremony.expects : Ceremony → Uuid → Bool
  | .login, _ => true
  | .stepUp expectUserId, userId => userId = expectUserId

def verifyAuthentication (env : Env) (s : Shared) (response : AuthenticationResponse)
    (challenge : String) (k : Ceremony) : Pc :=
  match s.passkeys.lookup response.id with
  | none => .failed (unauthorized "Unknown passkey")
  | some passkey =>
      if !k.expects passkey.userId then .failed (unauthorized "Passkey belongs to another user")
      else
        match env.verifyAuthenticationResponse response challenge passkey with
        | .throws => .failed internalError
        | .rejected => .failed (unauthorized "Passkey verification failed")
        | .verified counter => .updateCounter passkey.id passkey.userId counter k

def authenticated (userId : Uuid) : Ceremony → Pc
  | .login => .loginWithPasskey userId
  | .stepUp expectUserId => .sign (.stepUpGrant expectUserId)

def updateCounter (s : Shared) (id userId : Uuid) (counter : ℕ) (k : Ceremony) : Pc × Shared :=
  if s.passkeys.find id = none then (.failed recordNotFound, s)
  else
    let passkeys := s.passkeys.modify id (fun row => { row with counter := counter })
      (fun _ => rfl) fun _ => rfl
    (authenticated userId k, { s with passkeys := passkeys })

def removePasskey (s : Shared) (userId id : Uuid) : Pc × Shared :=
  if s.passkeys.table.rows.any (fun row => row.id = id ∧ row.userId = userId) then
    (.done .noContent,
      { s with passkeys := s.passkeys.deleteWhere fun row => row.id = id ∧ row.userId = userId })
  else (.failed (notFound "Passkey not found"), s)

/-! ## Users -/

def accessDenied : HttpException := forbidden "Access denied"

/-- The checks of `updateStatus` and `updateRole` before their first read. -/
def patchUser (env : Env) (actor : AuthUser) (id : Uuid) : UserPatch → Pc
  | .status status =>
      if id = actor.id then .failed (forbidden "You cannot change your own status")
      else .readBefore actor id (.status status)
  | .role roleName =>
      if id = actor.id then .failed (forbidden "You cannot change your own role")
      else if roleName = "super_admin" ∧ actor.role ≠ some "super_admin" then
        .failed (forbidden "Only a super_admin may assign the super_admin role")
      else
        match env.roles.find? fun role => role.name = roleName with
        | none => .failed (notFound ("Unknown role: " ++ roleName))
        | some role => .readBefore actor id (.role role)

/-- `PermissionsGuard` for `user.manage`. -/
def permissions (env : Env) (s : Shared) (actor : AuthUser) (id : Uuid) (patch : UserPatch) : Pc :=
  match s.users.find actor.id with
  | none => .failed accessDenied
  | some user =>
      if user.status ≠ .active then .failed (forbidden "Account suspended")
      else if "user.manage" ∈ user.role.permissions then patchUser env actor id patch
      else .failed accessDenied

def readBefore (s : Shared) (actor : AuthUser) (id : Uuid) (change : Change) : Pc :=
  match s.users.find id with
  | none => .failed (notFound "User not found")
  | some before => .writeUser actor id change before

def auditRow (draw : Draw) (actor : AuthUser) (id : Uuid) (before : User) : Change → AuditLog
  | .status status =>
      ⟨draw.id, actor.id, .userStatusChange, .user, id, [("status", .str before.status.text)],
        [("status", .str status.text)], draw.context.ipAddress, draw.context.userAgent⟩
  | .role role =>
      ⟨draw.id, actor.id, .userRoleChange, .user, id, [("role", .str before.role.name)],
        [("role", .str role.name)], draw.context.ipAddress, draw.context.userAgent⟩

/-- A suspension revokes every session of the user. -/
def Change.sweep (id : Uuid) (s : Shared) : Change → Shared
  | .status .suspended => s.deleteTokens fun row => row.userId = id
  | _ => s

/-- The transaction of `updateStatus` and `updateRole`. -/
def writeUser (draw : Draw) (s : Shared) (actor : AuthUser) (id : Uuid) (change : Change)
    (before : User) : Pc × Shared :=
  match s.users.find id, s.updateUser id change.update with
  | some stored, some updated =>
      match updated.auditLogs.insert (auditRow draw actor id before change) with
      | none => (.failed alreadyExists, s)
      | some auditLogs =>
          let user := change.update.set stored
          (.done (.user (toPublic user) user.status),
            { change.sweep id updated with auditLogs := auditLogs })
  | _, _ => (.failed recordNotFound, s)

/-! ## Guards -/

def unauthenticated : HttpException := unauthorized "Unauthorized"

/-- `JwtStrategy.validate`: the user behind a verified payload, if it is active. -/
def validate (s : Shared) (payload : Claims) : Option AuthUser :=
  payload.sub.bind fun id => (s.users.find id).bind fun user =>
    if user.status = .active then some ⟨id, payload.email, payload.role, user.totpEnabled⟩
    else none

def stepUpRequired : HttpException :=
  ⟨403, "Re-verify your authenticator to continue", some "STEP_UP_REQUIRED"⟩

def stepUpGuard (minted : List Jwt) (now : Time) (user : AuthUser) (grant : Option Jwt) : Bool :=
  !user.totpEnabled || grant.any fun token =>
    match verifyPurpose minted now token .stepUp with
    | .error _ => false
    | .ok sub => sub = some user.id

/-- The first statement of a route, for an authenticated user. -/
def dispatch (env : Env) (minted : List Jwt) (now : Time) (user : AuthUser) : Endpoint → Pc
  | .wsTicket => .sign (.wsTicket user.id)
  | .setup2fa => .setup user
  | .verify2fa code => .verifyAndEnable user.id code
  | .disable2fa code => .proveFactor user.id code .disable
  | .stepUp code =>
      if !user.totpEnabled then .failed (badRequest "2FA is not enabled")
      else .proveFactor user.id code .stepUp
  | .passkeyRegisterOptions => .registrationOptions user.id
  | .passkeyRegisterVerify response challengeToken label =>
      match verifyWebAuthnChallenge minted now challengeToken with
      | .error e => .failed e
      | .ok c =>
          if c.userId ≠ some user.id then
            .failed (unauthorized "Challenge does not belong to this user")
          else
            match env.verifyRegistrationResponse response c.challenge with
            | .throws => .failed internalError
            | .rejected => .failed (unauthorized "Passkey registration failed")
            | .verified credential => .createPasskey user.id credential label
  | .removePasskey id => .removePasskey user.id id
  | .stepUpPasskeyOptions => .authenticationOptions
  | .stepUpPasskeyVerify response challengeToken =>
      match verifyWebAuthnChallenge minted now challengeToken with
      | .error e => .failed e
      | .ok c => .verifyAuthentication response c.challenge (.stepUp user.id)
  | .patchUser id patch => .permissions user id patch
  | .transfer walletId grant =>
      if stepUpGuard minted now user grant then .transfer user walletId
      else .failed stepUpRequired

/-- What a request does before its first statement. -/
def receive (minted : List Jwt) (now : Time) : Request → Pc
  | .register dto => .findByEmail dto
  | .login dto => .login dto
  | .login2fa challengeToken code =>
      match verifyPurpose minted now challengeToken .twoFactor with
      | .error e => .failed e
      | .ok none => .failed internalError
      | .ok (some userId) => .login2fa userId code
  | .refresh refreshToken => .rotate refreshToken
  | .logout refreshToken => .revoke refreshToken
  | .passkeyLoginOptions => .authenticationOptions
  | .passkeyLoginVerify response challengeToken =>
      match verifyWebAuthnChallenge minted now challengeToken with
      | .error e => .failed e
      | .ok c => .verifyAuthentication response c.challenge .login
  | .connect ticket =>
      match verifyPurpose minted now ticket .ws with
      | .error _ => .done .disconnected
      | .ok sub => .done (.joined sub)
  | .authorized accessToken endpoint =>
      match verifyAsync minted now accessToken with
      | none => .failed unauthenticated
      | some payload => .validate payload endpoint

/-! ## One step -/

def statement (env : Env) (draw : Draw) (s : Shared) : Pc → Option (Pc × Shared)
  | .findByEmail dto => some (findByEmail s dto, s)
  | .findByHandle dto => some (findByHandle env s dto, s)
  | .createUser dto role => some (createUser draw s dto role)
  | .login dto => some (login env s dto, s)
  | .login2fa userId code => some (login2fa s userId code, s)
  | .loginWithPasskey userId => some (loginWithPasskey s userId, s)
  | .issueTokens user familyId =>
      if draw.Fresh env s then some (issueTokens env draw s user familyId) else none
  | .sign m =>
      let token := signAsync m draw.now
      some (.done (.signed token), s.mint token)
  | .rotate refreshToken => some (rotate env draw.now s refreshToken, s)
  | .claim existing user =>
      if draw.Fresh env s then some (claim env draw s existing user) else none
  | .deleteFamily familyId => some (.failed (unauthorized "Refresh token reuse detected"),
      s.deleteTokens fun row => row.familyId = familyId)
  | .deleteExpired id => some (deleteExpired s id)
  | .revoke refreshToken => some (.done .noContent,
      s.deleteTokens fun row => row.tokenHash = env.sha256 refreshToken)
  | .validate payload endpoint =>
      match validate s payload with
      | none => some (.failed unauthenticated, s)
      | some user => some (dispatch env s.minted draw.now user endpoint, s)
  | .setup user => some (setup draw s user, s)
  | .setTotpPending user secret => some (updateThen s user.id (.setTotpPending secret)
      (.done (.otpauth user.email secret)))
  | .verifyAndEnable userId code => some (verifyAndEnable env draw s userId code, s)
  | .enableTotp userId codes => some (updateThen s userId (.enableTotp (codes.map env.sha256))
      (.done (.recoveryCodes codes)))
  | .proveFactor userId code k => some (proveFactor env draw.now s userId code k, s)
  | .readRecoveryHashes userId hash k => some (readRecoveryHashes s userId hash k, s)
  | .writeRecoveryHashes userId _ remaining k =>
      some (updateThen s userId (.setRecoveryHashes remaining) (proved userId k))
  | .disableTotp userId => some (updateThen s userId .disableTotp (.done .noContent))
  | .registrationOptions userId =>
      some (.sign (.webAuthnChallenge draw.challenge (some userId)), s)
  | .createPasskey userId credential label =>
      some (createPasskey draw s userId credential label)
  | .removePasskey userId id => some (removePasskey s userId id)
  | .authenticationOptions => some (.sign (.webAuthnChallenge draw.challenge none), s)
  | .verifyAuthentication response challenge k =>
      some (verifyAuthentication env s response challenge k, s)
  | .updateCounter id userId counter k => some (updateCounter s id userId counter k)
  | .permissions actor id patch => some (permissions env s actor id patch, s)
  | .readBefore actor id change => some (readBefore s actor id change, s)
  | .writeUser actor id change before => some (writeUser draw s actor id change before)
  | .transfer actor walletId =>
      match WalletsService.getOwnedWallet s.money walletId actor with
      | .error e => some (.failed e, s)
      | .ok wallet => some (.done (.admitted wallet), s)
  | .idle | .done _ | .failed _ => none

/-- `JwtStrategy.validate` turns every failure into a 401. -/
def lost : Pc → Option Pc
  | .idle | .done _ | .failed _ => none
  | .validate .. => some (.failed unauthenticated)
  | _ => some (.failed internalError)

def step (env : Env) (i : Input) (p : Pc) (s : Shared) : Option (Pc × Shared) :=
  match i with
  | .request r now =>
      match p with
      | .idle => some (receive s.minted now r, s)
      | _ => none
  | .run draw => statement env draw s p
  | .lost => (lost p).map fun q => (q, s)
  | .money db => some (p, { s with money := db })

end MaxOne.AuthService
