import MaxOne.Library.LowerCase
import MaxOne.Schema

/-!
# Accounts, sessions and tokens

The rows behind `auth` and `users`, and the JSON web tokens of `TokensService`.
Everything the repository takes from a library, a secret or the configuration is
a field of `Env`. A token is its payload with its times; `verifyAsync` accepts
exactly the unexpired tokens that have been signed, and `minted` lists those.
-/
namespace MaxOne.Accounts
open Library MaxOne.Schema

/-! ## Rows -/

/-- Roles and their permissions are seeded; no route changes them. -/
structure Role where
  id : Uuid
  name : String
  permissions : List String
  deriving DecidableEq, Repr

inductive UserStatus where
  | active | suspended
  deriving DecidableEq, Repr

def UserStatus.text : UserStatus → String
  | active => "active"
  | suspended => "suspended"

/-- A user, read together with the role it references. -/
structure User where
  id : Uuid
  email : String
  handle : Option String
  passwordHash : String
  firstName : String
  lastName : String
  status : UserStatus
  totpSecret : Option String
  totpEnabled : Bool
  totpRecoveryHashes : List String
  role : Role
  deriving DecidableEq, Repr

structure RefreshToken where
  id : Uuid
  tokenHash : String
  familyId : Uuid
  usedAt : Option Time
  userId : Uuid
  expiresAt : Time
  deriving DecidableEq, Repr

structure Passkey where
  id : Uuid
  userId : Uuid
  credentialId : String
  publicKey : String
  counter : ℕ
  label : Option String
  deriving DecidableEq, Repr

abbrev UserTable := IndexedTable User User.id User.email

abbrev RefreshTokenTable := IndexedTable RefreshToken RefreshToken.id RefreshToken.tokenHash

abbrev PasskeyTable := IndexedTable Passkey Passkey.id Passkey.credentialId

/-! ## What comes from outside the repository -/

/-- A library verdict: it throws, does not verify, or verifies with a result. -/
inductive Verdict (α : Type) where
  | throws
  | rejected
  | verified (result : α)

/-- A browser's answer to a challenge. -/
structure AuthenticationResponse where
  id : String
  json : String
  deriving DecidableEq, Repr

structure Credential where
  id : String
  publicKey : String
  counter : ℕ
  deriving DecidableEq, Repr

structure Env where
  sha256 : String → String
  /-- `bcrypt.compare` -/
  compare : String → String → Bool
  /-- `authenticator.check`, which reads the clock -/
  check : Time → String → String → Bool
  verifyRegistrationResponse : String → String → Verdict Credential
  verifyAuthenticationResponse : AuthenticationResponse → String → Passkey → Verdict ℕ
  roles : List Role

/-! ## Tokens -/

inductive Purpose where
  | ws | twoFactor | stepUp | webauthn
  deriving DecidableEq, Repr

def Purpose.text : Purpose → String
  | ws => "ws"
  | twoFactor => "2fa"
  | stepUp => "step-up"
  | webauthn => "webauthn"

/-- A payload; a claim a token does not carry is undefined. -/
structure Claims where
  sub : Option Uuid
  email : Option String
  role : Option String
  purpose : Option Purpose
  challenge : Option String
  deriving DecidableEq, Repr

/-- `iat` and `exp` are seconds. -/
structure Jwt where
  claims : Claims
  iat : ℕ
  exp : ℕ
  deriving DecidableEq, Repr

/-- What `TokensService` signs. -/
inductive Mint where
  | access (user : User)
  | wsTicket (userId : Uuid)
  | twoFactorChallenge (userId : Uuid)
  | stepUpGrant (userId : Uuid)
  | webAuthnChallenge (challenge : String) (userId : Option Uuid)

namespace Mint

def purposeClaims (userId : Uuid) (purpose : Purpose) : Claims :=
  ⟨some userId, none, none, some purpose, none⟩

def claims : Mint → Claims
  | access user => ⟨some user.id, some user.email, some user.role.name, none, none⟩
  | wsTicket userId => purposeClaims userId .ws
  | twoFactorChallenge userId => purposeClaims userId .twoFactor
  | stepUpGrant userId => purposeClaims userId .stepUp
  | webAuthnChallenge challenge userId => ⟨userId, none, none, some .webauthn, some challenge⟩

/-- `expiresIn`, in seconds; an access token takes the module's default. -/
def expiresIn : Mint → ℕ
  | access _ => 15 * 60
  | wsTicket _ => 60
  | twoFactorChallenge _ | stepUpGrant _ | webAuthnChallenge .. => 5 * 60

end Mint

def signAsync (m : Mint) (now : Time) : Jwt := ⟨m.claims, now / 1000, now / 1000 + m.expiresIn⟩

def verifyAsync (minted : List Jwt) (now : Time) (token : Jwt) : Option Claims :=
  if token ∈ minted ∧ now / 1000 < token.exp then some token.claims else none

theorem verifyAsync_eq_some {minted : List Jwt} {now : Time} {token : Jwt} {claims : Claims} :
    verifyAsync minted now token = some claims ↔
      token ∈ minted ∧ now / 1000 < token.exp ∧ token.claims = claims := by
  unfold verifyAsync
  split_ifs with h
  · simp [h]
  · rw [not_and] at h
    simp only [false_iff, not_and]
    intro hmem hexp
    exact absurd hexp (h hmem)

/-- The token's `sub`, when it is unexpired and of this purpose. -/
def verifyPurpose (minted : List Jwt) (now : Time) (token : Jwt) (purpose : Purpose) :
    Except HttpException (Option Uuid) :=
  match verifyAsync minted now token with
  | none => .error (unauthorized ("Invalid or expired " ++ purpose.text ++ " token"))
  | some claims =>
      if claims.purpose = some purpose then .ok claims.sub
      else .error (unauthorized ("Invalid or expired " ++ purpose.text ++ " token"))

theorem verifyPurpose_eq_ok {minted : List Jwt} {now : Time} {token : Jwt} {purpose : Purpose}
    {sub : Option Uuid} (h : verifyPurpose minted now token purpose = .ok sub) :
    token ∈ minted ∧ now / 1000 < token.exp ∧ token.claims.purpose = some purpose ∧
      token.claims.sub = sub := by
  unfold verifyPurpose at h
  split at h
  · cases h
  · next claims hclaims =>
      have htoken := verifyAsync_eq_some.mp hclaims
      split_ifs at h with hpurpose
      cases h
      rw [htoken.2.2]
      exact ⟨htoken.1, htoken.2.1, hpurpose, rfl⟩

structure WebAuthnChallenge where
  challenge : String
  userId : Option Uuid

/-- An empty challenge is none. -/
def verifyWebAuthnChallenge (minted : List Jwt) (now : Time) (token : Jwt) :
    Except HttpException WebAuthnChallenge :=
  let invalid := unauthorized "Invalid or expired WebAuthn challenge"
  match verifyAsync minted now token with
  | none => .error invalid
  | some claims =>
      match claims.purpose, claims.challenge with
      | some .webauthn, some challenge =>
          if challenge = "" then .error invalid else .ok ⟨challenge, claims.sub⟩
      | _, _ => .error invalid

theorem verifyWebAuthnChallenge_eq_ok {minted : List Jwt} {now : Time} {token : Jwt}
    {c : WebAuthnChallenge} (h : verifyWebAuthnChallenge minted now token = .ok c) :
    token ∈ minted ∧ now / 1000 < token.exp ∧ token.claims.purpose = some .webauthn ∧
      token.claims.challenge = some c.challenge ∧ token.claims.sub = c.userId := by
  unfold verifyWebAuthnChallenge at h
  split at h
  · cases h
  · next claims hclaims =>
      have htoken := verifyAsync_eq_some.mp hclaims
      split at h
      · next challenge hpurpose hchallenge =>
          split_ifs at h
          cases h
          rw [htoken.2.2]
          exact ⟨htoken.1, htoken.2.1, hpurpose, hchallenge, rfl⟩
      · cases h

/-! ## The tables -/

/-- Every table, every token signed so far, every identifier drawn for a session
and, for every refresh token issued so far, its hash and user. The money tables
change under the requests as their own machine says. -/
structure Shared where
  users : UserTable
  refreshTokens : RefreshTokenTable
  passkeys : PasskeyTable
  auditLogs : Table AuditLog AuditLog.id
  money : Db
  minted : List Jwt
  drawn : List Uuid
  issued : List (String × Uuid)

/-- An UPDATE of one user; the identifying columns stay. -/
structure UserUpdate where
  set : User → User
  id_eq : ∀ u, (set u).id = u.id
  email_eq : ∀ u, (set u).email = u.email

namespace UserUpdate

def setTotpPending (secret : String) : UserUpdate where
  set u := { u with totpSecret := some secret, totpEnabled := false, totpRecoveryHashes := [] }
  id_eq _ := rfl
  email_eq _ := rfl

def enableTotp (recoveryHashes : List String) : UserUpdate where
  set u := { u with totpEnabled := true, totpRecoveryHashes := recoveryHashes }
  id_eq _ := rfl
  email_eq _ := rfl

def disableTotp : UserUpdate where
  set u := { u with totpSecret := none, totpEnabled := false, totpRecoveryHashes := [] }
  id_eq _ := rfl
  email_eq _ := rfl

def setRecoveryHashes (remaining : List String) : UserUpdate where
  set u := { u with totpRecoveryHashes := remaining }
  id_eq _ := rfl
  email_eq _ := rfl

def setStatus (status : UserStatus) : UserUpdate where
  set u := { u with status := status }
  id_eq _ := rfl
  email_eq _ := rfl

def setRole (role : Role) : UserUpdate where
  set u := { u with role := role }
  id_eq _ := rfl
  email_eq _ := rfl

end UserUpdate

namespace Shared

def setUser (s : Shared) (id : Uuid) (u : UserUpdate) : Shared :=
  { s with users := s.users.modify id u.set u.id_eq u.email_eq }

/-- `none`: there is no such user (P2025). -/
def updateUser (s : Shared) (id : Uuid) (u : UserUpdate) : Option Shared :=
  if s.users.find id = none then none else some (s.setUser id u)

def deleteTokens (s : Shared) (p : RefreshToken → Bool) : Shared :=
  { s with refreshTokens := s.refreshTokens.deleteWhere p }

/-- `UPDATE … SET "usedAt"`. -/
def useToken (s : Shared) (id : Uuid) (now : Time) : Shared :=
  { s with
    refreshTokens := s.refreshTokens.modify id (fun r => { r with usedAt := some now })
      (fun _ => rfl) fun _ => rfl }

def mint (s : Shared) (token : Jwt) : Shared := { s with minted := token :: s.minted }

section Lemmas
variable {s s' : Shared} {id : Uuid} {u : UserUpdate} {p : RefreshToken → Bool}

theorem updateUser_eq_some (h : s.updateUser id u = some s') :
    (∃ user, s.users.find id = some user) ∧ s' = s.setUser id u := by
  unfold updateUser at h
  split_ifs at h with hid
  exact ⟨Option.ne_none_iff_exists'.mp hid, (Option.some.inj h).symm⟩

theorem find_setUser (k : Uuid) : (s.setUser id u).users.find k =
    if k = id then (s.users.find id).map u.set else s.users.find k := by
  simp only [setUser, IndexedTable.find_modify]

@[simp] theorem mem_deleteTokens {row : RefreshToken} :
    row ∈ (s.deleteTokens p).refreshTokens.table.rows ↔
      row ∈ s.refreshTokens.table.rows ∧ p row = false := IndexedTable.mem_deleteWhere

theorem mem_useToken {now : Time} {row : RefreshToken} :
    row ∈ (s.useToken id now).refreshTokens.table.rows ↔
      (row ∈ s.refreshTokens.table.rows ∧ row.id ≠ id) ∨
        ∃ r, s.refreshTokens.find id = some r ∧ row = { r with usedAt := some now } := by
  simp only [useToken, IndexedTable.mem_modify]

end Lemmas

end Shared

end MaxOne.Accounts
