import MaxOne.SecondFactor

/-!
# What each kind of token is accepted for

Five kinds of token are signed with one secret, and five places accept one. Four
of the places compare the purpose claim; `JwtStrategy` does not, so a token of
any purpose is an access token as long as its subject is an active user. Where no
such token is presented, an account with two-factor authentication is only used
by requests that come after a proof of its factor.
-/
namespace MaxOne.TokenPurposes
open Library Library.Runs Library.Interleaving MaxOne.Schema MaxOne.Accounts MaxOne.AuthService
  MaxOne.AuthMachine MaxOne.AuthRuns MaxOne.SecondFactor

/-! ## Minting and accepting -/

inductive Acceptor where
  | jwtAuthGuard | handleConnection | verify2faChallenge | verifyStepUpGrant
  | verifyWebAuthnChallenge
  deriving DecidableEq, Repr

def acceptor : Mint → Acceptor
  | .access _ => .jwtAuthGuard
  | .wsTicket _ => .handleConnection
  | .twoFactorChallenge _ => .verify2faChallenge
  | .stepUpGrant _ => .verifyStepUpGrant
  | .webAuthnChallenge .. => .verifyWebAuthnChallenge

def Accepts (s : Shared) (now : Time) (token : Jwt) : Acceptor → Prop
  | .jwtAuthGuard => ∃ payload user, verifyAsync s.minted now token = some payload ∧
      validate s payload = some user
  | .handleConnection => ∃ sub, verifyPurpose s.minted now token .ws = .ok sub
  | .verify2faChallenge => ∃ sub, verifyPurpose s.minted now token .twoFactor = .ok sub
  | .verifyStepUpGrant => ∃ sub, verifyPurpose s.minted now token .stepUp = .ok sub
  | .verifyWebAuthnChallenge => ∃ c, verifyWebAuthnChallenge s.minted now token = .ok c

/-- The user is stored, and active. -/
def Active (s : Shared) (id : Uuid) : Prop :=
  ∃ user ∈ s.users.find id, user.status = .active

instance (s : Shared) (id : Uuid) : Decidable (Active s id) :=
  inferInstanceAs (Decidable (∃ user ∈ s.users.find id, user.status = .active))

/-- The subject of a token is an active user. -/
def ActiveSubject (s : Shared) (claims : Claims) : Prop :=
  ∃ id ∈ claims.sub, Active s id

/-- `validate` asks for nothing else. -/
theorem validates_iff {s : Shared} {claims : Claims} :
    (∃ user, validate s claims = some user) ↔ ActiveSubject s claims := by
  constructor
  · rintro ⟨user, hvalid⟩
    obtain ⟨hsub, row, hfind, hactive, -⟩ := validate_eq_some hvalid
    exact ⟨user.id, hsub, row, hfind, hactive⟩
  · rintro ⟨id, hsub, user, hfind, hactive⟩
    refine ⟨⟨id, claims.email, claims.role, user.totpEnabled⟩, ?_⟩
    rw [validate, Option.mem_def.mp hsub, Option.bind_some, Option.mem_def.mp hfind,
      Option.bind_some, if_pos hactive]

theorem purpose_of_accepts {s : Shared} {now : Time} {token : Jwt} {m : Mint} {a : Acceptor}
    (hclaims : token.claims = m.claims) (h : Accepts s now token a) (ha : a ≠ .jwtAuthGuard) :
    a = acceptor m := by
  cases a with
  | jwtAuthGuard => exact absurd rfl ha
  | handleConnection =>
      obtain ⟨sub, hsub⟩ := h
      have hpurpose := (verifyPurpose_eq_ok hsub).2.2.1
      rw [hclaims] at hpurpose
      cases m <;> cases hpurpose
      rfl
  | verify2faChallenge =>
      obtain ⟨sub, hsub⟩ := h
      have hpurpose := (verifyPurpose_eq_ok hsub).2.2.1
      rw [hclaims] at hpurpose
      cases m <;> cases hpurpose
      rfl
  | verifyStepUpGrant =>
      obtain ⟨sub, hsub⟩ := h
      have hpurpose := (verifyPurpose_eq_ok hsub).2.2.1
      rw [hclaims] at hpurpose
      cases m <;> cases hpurpose
      rfl
  | verifyWebAuthnChallenge =>
      obtain ⟨c, hc⟩ := h
      have hpurpose := (verifyWebAuthnChallenge_eq_ok hc).2.2.1
      rw [hclaims] at hpurpose
      cases m <;> cases hpurpose
      rfl

/-- The guard accepts every unexpired token of an active user. -/
theorem accepts_jwtAuthGuard {s : Shared} {now : Time} {token : Jwt} (hmem : token ∈ s.minted) :
    Accepts s now token .jwtAuthGuard ↔
      now / 1000 < token.exp ∧ ActiveSubject s token.claims := by
  constructor
  · intro h
    obtain ⟨payload, user, hverified, hvalid⟩ := h
    have htoken := verifyAsync_eq_some.mp hverified
    rw [← htoken.2.2] at hvalid
    exact ⟨htoken.2.1, validates_iff.mp ⟨user, hvalid⟩⟩
  · intro h
    obtain ⟨user, hvalid⟩ := validates_iff.mpr h.2
    have hexp := h.1
    exact ⟨token.claims, user, verifyAsync_eq_some.mpr ⟨hmem, hexp, rfl⟩, hvalid⟩

/-- A signed token is only good for its own purpose exactly when it is an access
token, has expired or has no active subject. -/
theorem accepted_for_own_purpose {s : Shared} {now : Time} {m : Mint} {signedAt : Time}
    (hmem : signAsync m signedAt ∈ s.minted) :
    (∀ a, Accepts s now (signAsync m signedAt) a → a = acceptor m) ↔
      ¬ (acceptor m ≠ .jwtAuthGuard ∧ now / 1000 < (signAsync m signedAt).exp ∧
        ActiveSubject s m.claims) := by
  constructor
  · intro h hmisused
    have hguard := h .jwtAuthGuard ((accepts_jwtAuthGuard hmem).mpr hmisused.2)
    exact hmisused.1 hguard.symm
  · intro h a ha
    by_cases hguard : a = .jwtAuthGuard
    · subst hguard
      by_contra hother
      exact h ⟨Ne.symm hother, (accepts_jwtAuthGuard hmem).mp ha⟩
    · exact purpose_of_accepts rfl ha hguard

/-! ## Authentication and its events -/

def authenticating (s : Shared) : Input → Pc → Option AuthUser
  | .run _, .validate payload _ => validate s payload
  | _, _ => none

/-- What `JwtAuthGuard` is given to validate. -/
def presented : Input → Pc → Option Claims
  | .run _, .validate payload _ => some payload
  | _, _ => none

/-- `JwtAuthGuard` lets a request through as this user. -/
def Authenticates (userId : Uuid) (e : Occurrence) : Prop :=
  (authenticating e.pre.data e.label.2 (e.pre.client e.label.1)).map AuthUser.id = some userId

/-- A token of this user that was minted for another purpose is presented to the guard,
while the user is active. -/
def Misused (userId : Uuid) (e : Occurrence) : Prop :=
  ∃ payload ∈ presented e.label.2 (e.pre.client e.label.1),
    payload.purpose ≠ none ∧ payload.sub = some userId ∧ Active e.pre.data userId

/-- The owner of the passkey a statement verifies. -/
def provesPasskey (env : Env) (s : Shared) : Input → Pc → Option Uuid
  | .run _, .verifyAuthentication response challenge _ =>
      (s.passkeys.lookup response.id).bind fun passkey =>
        match env.verifyAuthenticationResponse response challenge passkey with
        | .verified _ => some passkey.userId
        | _ => none
  | _, _ => none

/-- A TOTP code, a recovery code or a passkey of the user is verified. -/
def VerifiesFactor (env : Env) (userId : Uuid) (e : Occurrence) : Prop :=
  provesFactor env e.pre.data e.label.2 (e.pre.client e.label.1) = some userId ∨
    provesPasskey env e.pre.data e.label.2 (e.pre.client e.label.1) = some userId

instance (userId : Uuid) : DecidablePred (Authenticates userId) := fun e =>
  inferInstanceAs (Decidable
    ((authenticating e.pre.data e.label.2 (e.pre.client e.label.1)).map AuthUser.id =
      some userId))

instance (userId : Uuid) : DecidablePred (Misused userId) := fun e =>
  inferInstanceAs (Decidable (∃ payload ∈ presented e.label.2 (e.pre.client e.label.1),
    payload.purpose ≠ none ∧ payload.sub = some userId ∧ Active e.pre.data userId))

instance (env : Env) (userId : Uuid) : DecidablePred (VerifiesFactor env userId) := fun e =>
  inferInstanceAs (Decidable
    (provesFactor env e.pre.data e.label.2 (e.pre.client e.label.1) = some userId ∨
      provesPasskey env e.pre.data e.label.2 (e.pre.client e.label.1) = some userId))

/-! ## No session without the factor -/

/-- The request is not about to open a session of this user. -/
def Anonymous (userId : Uuid) : Pc → Prop
  | .issueTokens user _ | .claim _ user | .sign (.access user)
  | .readRecoveryHashes _ _ (.login user) | .writeRecoveryHashes _ _ _ (.login user) =>
      user.id ≠ userId
  | .proveFactor id _ (.login user) => user.id = id
  | .loginWithPasskey id | .updateCounter _ id _ .login => id ≠ userId
  | .validate payload _ => payload.sub = some userId → payload.purpose ≠ none
  | _ => True

structure Sessionless (userId : Uuid) (t : Service) : Prop where
  rows : ∀ row ∈ t.data.refreshTokens.table.rows, row.userId ≠ userId
  tokens : ∀ token ∈ t.data.minted, token.claims.sub = some userId → token.claims.purpose ≠ none
  clients : ∀ c, Anonymous userId (t.client c)

section Statement
variable {env : Env} {i : Input} {p q : Pc} {s s' : Shared} {userId : Uuid} {minted : List Jwt}
  {now : Time}

theorem Anonymous.session (h : Anonymous userId p) {user : User} {familyId : Option Uuid}
    (hp : pendingSession p = some (user, familyId)) : user.id ≠ userId := by
  cases p <;> cases hp <;> exact h

theorem Anonymous.mint (h : Anonymous userId p) {m : Mint} (hp : pendingMint p = some m)
    (hsub : m.claims.sub = some userId) : m.claims.purpose ≠ none := by
  cases m with
  | access user =>
      refine absurd (Option.some.inj hsub) ?_
      cases p <;> cases hp <;> exact h
  | wsTicket id => exact Option.some_ne_none _
  | twoFactorChallenge id => exact Option.some_ne_none _
  | stepUpGrant id => exact Option.some_ne_none _
  | webAuthnChallenge challenge id => exact Option.some_ne_none _

theorem anonymous_receive (hminted : ∀ token ∈ minted, token.claims.sub = some userId →
    token.claims.purpose ≠ none) (r : Request) : Anonymous userId (receive minted now r) := by
  cases r with
  | authorized accessToken endpoint =>
      simp only [receive]
      split
      · trivial
      · next payload hpayload =>
          have htoken := verifyAsync_eq_some.mp hpayload
          intro hsub
          rw [← htoken.2.2] at hsub ⊢
          exact hminted accessToken htoken.1 hsub
  | login2fa challengeToken code => simp only [receive]; split <;> trivial
  | passkeyLoginVerify response challengeToken => simp only [receive]; split <;> trivial
  | connect ticket => simp only [receive]; split <;> trivial
  | _ => trivial

theorem anonymous_dispatch (user : AuthUser) (endpoint : Endpoint) :
    Anonymous userId (dispatch env minted now user endpoint) := by
  unfold dispatch
  split
  all_goals first | trivial | split
  all_goals first | trivial | split
  all_goals first | trivial | split
  all_goals trivial

theorem anonymous_proved {id : Uuid} {k : ProofOf} (h : ∀ user, k = .login user → user.id ≠ userId) :
    Anonymous userId (proved id k) :=
  proved_rule (fun _ => trivial) (fun user hk _ => h user hk) (fun _ => trivial) fun _ => trivial

end Statement

section Step
variable {env : Env} {userId : Uuid} {l : ℕ × Input} {s t : Service}

theorem Sessionless.client (h : Sessionless userId s) (hon : totpOn userId s.data = true)
    (hfactor : ¬ VerifiesFactor env userId ⟨s, l, t⟩) {q : Pc} {s' : Shared}
    (hstatement : Statement env s.data l.2 (s.client l.1) q s') : Anonymous userId q := by
  have hp := h.clients l.1
  rw [VerifiesFactor, not_or] at hfactor
  have hcode := hfactor.1
  have hkey := hfactor.2
  dsimp only at hcode hkey
  generalize s.client l.1 = p at hp hcode hkey hstatement
  generalize l.2 = i at hcode hkey hstatement
  cases hstatement with
  | receives r now => exact anonymous_receive h.tokens r
  | money => exact hp
  | registers d dto role users hinsert =>
      have hnew : s.data.users.find (newUser d dto role).id = none :=
        Table.insert_fresh (IndexedTable.insert_table hinsert)
      intro hid
      rw [totpOn, ← hid, hnew] at hon
      cases hon
  | logsIn d dto user hfind hactive htotp =>
      intro hid
      rw [totpOn, ← hid, hfind, Option.any_some, htotp] at hon
      cases hon
  | secondStep d id code user hfind => exact Table.find_key hfind
  | passkeyUser d id user hfind hactive =>
      have hid : user.id = id := Table.find_key hfind
      intro hsame
      exact hp (hid.symm.trans hsame)
  | siblings d refreshToken row user hrow hfind hactive =>
      have hid : user.id = row.userId := Table.find_key hfind
      intro hsame
      exact h.rows row hrow (hid.symm.trans hsame)
  | rotates d refreshToken row user hrow hfind hactive =>
      have hid : user.id = row.userId := Table.find_key hfind
      intro hsame
      exact h.rows row hrow (hid.symm.trans hsame)
  | loses => exact hp
  | authenticates d payload endpoint user hvalid => exact anonymous_dispatch user endpoint
  | provesTotp d id code k stored hfind htotp hmatches =>
      refine anonymous_proved fun user hk hid => hcode ?_
      subst hk
      have hsame : id = userId := hp.symm.trans hid
      rw [provesFactor, hfind, Option.any_some, hmatches, Bool.true_or, if_pos rfl, hsame]
  | provesRecovery d id code k stored hfind htotp hmem =>
      cases k with
      | login user =>
          intro hid
          have hsame : id = userId := hp.symm.trans hid
          refine hcode ?_
          rw [provesFactor, hfind, Option.any_some, decide_eq_true hmem, Bool.or_true, if_pos rfl,
            hsame]
      | disable => trivial
      | stepUp => trivial
  | readsHashes d id hash k remaining => cases k <;> exact hp
  | consumes d id hash remaining k =>
      refine anonymous_proved fun user hk => ?_
      subst hk
      exact hp
  | verifiesAssertion d response challenge k passkey counter hrow hid hexpects hverified =>
      cases k with
      | login =>
          rintro rfl
          refine hkey ?_
          rw [provesPasskey, IndexedTable.lookup_eq_some.mpr ⟨hrow, hid⟩, Option.bind_some,
            hverified]
      | stepUp expected => trivial
  | counts d id owner counter k =>
      cases k with
      | login => exact hp
      | stepUp expected => trivial
  | permits d actor id patch =>
      rcases patchUser_cases env actor id patch with ⟨e, he⟩ | ⟨change, he⟩ <;> rw [he] <;> trivial
  | _ => trivial

/-- Without a proof of the factor no session of the user comes into being. -/
theorem Sessionless.next (h : Sessionless userId s) (hon : totpOn userId s.data = true)
    (hfactor : ¬ VerifiesFactor env userId ⟨s, l, t⟩) (hn : AuthRuns.next env l s = some t) :
    Sessionless userId t := by
  obtain ⟨q, s', hstep, rfl⟩ := next_cases hn
  have hstatement := step_statement hstep
  have hp := h.clients l.1
  refine ⟨fun row hrow => ?_, fun token htoken => ?_, fun c => ?_⟩
  · rcases tokens_change hstatement hrow with ⟨old, hold, hsame⟩ | ⟨d, user, familyId, hissues, rfl⟩
    · rw [hsame.userId_eq]
      exact h.rows old hold
    · exact hp.session hissues.pending
  · rcases minted_change hstatement htoken with hold | ⟨d, m, -, hpending, rfl⟩
    · exact h.tokens token hold
    · exact hp.mint hpending
  · by_cases hc : c = l.1
    · subst hc
      simp only [Function.update_self]
      exact h.client hon hfactor hstatement
    · simp only [Function.update_of_ne hc]
      exact h.clients c

end Step

theorem Sessionless.authenticates {userId : Uuid} {e : Occurrence}
    (h : Sessionless userId e.pre) (he : Authenticates userId e) : Misused userId e := by
  have hp := h.clients e.label.1
  unfold Authenticates at he
  unfold Misused
  generalize e.pre.client e.label.1 = p at he hp ⊢
  generalize e.label.2 = i at he ⊢
  unfold authenticating at he
  split at he
  · next _ payload _ =>
      obtain ⟨user, hvalid, hid⟩ := Option.map_eq_some_iff.mp he
      obtain ⟨hsub, row, hfind, hactive, -⟩ := validate_eq_some hvalid
      rw [hid] at hsub hfind
      exact ⟨payload, rfl, hp hsub, hsub, row, hfind, hactive⟩
  · cases he

/-- A signed token is accepted for another purpose than its own exactly by
`JwtAuthGuard`, unexpired and for an active user. Where that does not happen, an
account with two-factor authentication is only used after a proof of its factor. -/
theorem purposes_isolated (env : Env) (userId : Uuid) :
    (∀ (s : Shared) (now signedAt : Time) (m : Mint), signAsync m signedAt ∈ s.minted →
      ((∀ a, Accepts s now (signAsync m signedAt) a → a = acceptor m) ↔
        ¬ (acceptor m ≠ .jwtAuthGuard ∧ now / 1000 < (signAsync m signedAt).exp ∧
          ActiveSubject s m.claims))) ∧
    ∀ (s₀ : Shared) (tr : List Occurrence) (s : Service),
      Run (AuthRuns.next env) (start s₀) tr s →
      (∀ row ∈ s₀.refreshTokens.table.rows, row.userId ≠ userId) →
      (∀ token ∈ s₀.minted, token.claims.sub = some userId → token.claims.purpose ≠ none) →
      (∀ e ∈ tr, totpOn userId e.pre.data = true) → (∀ e ∈ tr, ¬ Misused userId e) →
      ∀ before e after, tr = before ++ e :: after → Authenticates userId e →
        ∃ g ∈ before, VerifiesFactor env userId g := by
  refine ⟨fun s now signedAt m hmem => accepted_for_own_purpose hmem,
    fun s₀ tr s h hrows htokens hon hused before e after htr hauth => ?_⟩
  have hhistory : (∃ g ∈ before, VerifiesFactor env userId g) ∨ Sessionless userId e.pre := by
    refine (h.split htr).1.history (fun g => totpOn userId g.pre.data = true)
      (fun us t => (∃ g ∈ us, VerifiesFactor env userId g) ∨ Sessionless userId t)
      (.inr ⟨hrows, htokens, fun c => by trivial⟩) (fun us l s t hi hn hc => ?_)
      (fun g hg => hon g (by rw [htr]; simp [hg]))
    rcases hi with hearlier | hnone
    · obtain ⟨g, hg, hverifies⟩ := hearlier
      exact .inl ⟨g, List.mem_append_left _ hg, hverifies⟩
    · by_cases hfactor : VerifiesFactor env userId ⟨s, l, t⟩
      · exact .inl ⟨_, List.mem_append_right _ List.mem_cons_self, hfactor⟩
      · exact .inr (hnone.next hc hfactor hn)
  rcases hhistory with hverified | hnone
  · exact hverified
  · exact absurd (hnone.authenticates hauth) (hused e (by rw [htr]; simp))

/-! ## Concrete runs -/

/-- The user of `owner` and nothing else. -/
def enrolled : Shared := usersOnly [owner]

def challengeToken : Jwt := signAsync (.twoFactorChallenge 1) 0

def accessToken : Jwt := signAsync (.access owner) 0

/-- A login by password and TOTP code, and a request with its access token. -/
def twoStepLogin : List (ℕ × Input) :=
  [(0, .request (.login ⟨"a", "password"⟩) 0)] ++ statements 0 0 10 2 ++
  [(1, .request (.login2fa challengeToken "secret") 0)] ++ statements 1 0 20 3 ++
  [(2, .request (.authorized accessToken .wsTicket) 0)] ++ statements 2 0 30 1

theorem purposes_isolated_login :
    (∀ a, Accepts { enrolled with minted := [accessToken] } 0 accessToken a → a = .jwtAuthGuard) ∧
    ∃ tr s, Run (AuthRuns.next (plainEnv [])) (start enrolled) tr s ∧
      ∃ before e after, tr = before ++ e :: after ∧ Authenticates 1 e ∧
        ∃ g ∈ before, VerifiesFactor (plainEnv []) 1 g := by
  have hisolated := purposes_isolated (plainEnv []) 1
  constructor
  · refine (hisolated.1 { enrolled with minted := [accessToken] } 0 0 (.access owner)
      List.mem_cons_self).mpr fun hmisused => ?_
    exact hmisused.1 rfl
  · obtain ⟨tr, s, hrun, -, hs⟩ := Run.of_trace_map (AuthRuns.next (plainEnv [])) twoStepLogin
      (start enrolled)
      (fun tr _ => (decide (∀ e ∈ tr, totpOn 1 e.pre.data = true ∧ ¬ Misused 1 e),
        decide (∃ e ∈ tr, Authenticates 1 e))) (true, true) (by decide)
    rw [Prod.mk.injEq, decide_eq_true_eq, decide_eq_true_eq] at hs
    obtain ⟨e, he, hauth⟩ := hs.2
    obtain ⟨before, after, htr⟩ := List.append_of_mem he
    exact ⟨tr, s, hrun, before, e, after, htr, hauth,
      hisolated.2 enrolled tr s hrun (fun row hrow => absurd hrow List.not_mem_nil)
        (fun token htoken => absurd htoken List.not_mem_nil) (fun e he => (hs.1 e he).1)
        (fun e he => (hs.1 e he).2) before e after htr hauth⟩

/-- A login by password alone, and a request with the challenge token it returns. -/
def passwordOnly : List (ℕ × Input) :=
  [(0, .request (.login ⟨"a", "password"⟩) 0)] ++ statements 0 0 10 2 ++
  [(1, .request (.authorized challengeToken .wsTicket) 0)] ++ statements 1 0 20 1

theorem challenge_token_authenticates :
    ∃ tr s, Run (AuthRuns.next (plainEnv [])) (start enrolled) tr s ∧
      (∀ e ∈ tr, totpOn 1 e.pre.data = true) ∧ challengeToken ∈ s.data.minted ∧
      Accepts s.data 0 challengeToken .jwtAuthGuard ∧
      (∃ e ∈ tr, Authenticates 1 e) ∧ ∀ e ∈ tr, ¬ VerifiesFactor (plainEnv []) 1 e := by
  obtain ⟨tr, s, hrun, -, hs⟩ := Run.of_trace_map (AuthRuns.next (plainEnv [])) passwordOnly
    (start enrolled)
    (fun tr s => (decide (∀ e ∈ tr, totpOn 1 e.pre.data = true ∧
      ¬ VerifiesFactor (plainEnv []) 1 e), decide (∃ e ∈ tr, Authenticates 1 e), s.data.minted,
      validate s.data challengeToken.claims))
    (true, true, [challengeToken], some ⟨1, none, none, true⟩) (by decide)
  rw [Prod.mk.injEq, Prod.mk.injEq, Prod.mk.injEq, decide_eq_true_eq, decide_eq_true_eq] at hs
  obtain ⟨hevents, hauth, hminted, hvalid⟩ := hs
  have hmem : challengeToken ∈ s.data.minted := by
    rw [hminted]
    exact List.mem_singleton_self _
  exact ⟨tr, s, hrun, fun e he => (hevents e he).1, hmem,
    (accepts_jwtAuthGuard hmem).mpr ⟨by decide, validates_iff.mp ⟨_, hvalid⟩⟩, hauth, fun e he => (hevents e he).2⟩

end MaxOne.TokenPurposes
