import MaxOne.AuthRuns
import MaxOne.MoneyRuns

/-!
# What a live session can do without the second factor

The requests of a party that holds access tokens of a user with two-factor
authentication, none of the user's codes and none of the user's passkeys.
`setup` and `disable` ask for the factor, and so does every way to a step-up
grant, but registering a passkey does not: a passkey the party registers for the
user opens the step-up ceremony. Without such a registration no transfer of the
user is admitted and the second factor stays on.
-/
namespace MaxOne.SecondFactor
open Library Library.Runs Library.Interleaving MaxOne.Schema MaxOne.Accounts MaxOne.AuthService
  MaxOne.AuthMachine MaxOne.AuthRuns

/-- Verification accepts only what the registered key has signed, for the given challenge. -/
structure WebAuthn (env : Env) (signedBy challengeOf : AuthenticationResponse → String) :
    Prop where
  signed : ∀ response challenge passkey counter,
    env.verifyAuthenticationResponse response challenge passkey = .verified counter →
      signedBy response = passkey.publicKey ∧ challengeOf response = challenge

/-- The user whose second factor a code proves. -/
def provesFactor (env : Env) (s : Shared) : Input → Pc → Option Uuid
  | .run d, .proveFactor userId code _ =>
      if (s.users.find userId).any fun user => totpMatches env d.now user code ||
        recoveryHash env code ∈ user.totpRecoveryHashes then some userId else none
  | .run d, .verifyAndEnable userId code =>
      if (s.users.find userId).any fun user => totpMatches env d.now user code then some userId
      else none
  | _, _ => none

/-- The assertion a statement verifies. -/
def asserted : Pc → Option AuthenticationResponse
  | .verifyAuthentication response _ _ => some response
  | _ => none

/-- A statement of the party: its codes prove no factor of the user, and its
assertions are signed by keys it controls. -/
structure ByParty (env : Env) (signedBy : AuthenticationResponse → String)
    (controlled : Set String) (userId : Uuid) (e : Occurrence) : Prop where
  code : provesFactor env e.pre.data e.label.2 (e.pre.client e.label.1) ≠ some userId
  key : ∀ response ∈ asserted (e.pre.client e.label.1), signedBy response ∈ controlled

/-- The user for whom a verified registration is about to be stored. -/
def registering : Pc → Option Uuid
  | .createPasskey userId _ _ => some userId
  | _ => none

def RegistersPasskey (userId : Uuid) (e : Occurrence) : Prop :=
  registering (e.pre.client e.label.1) = some userId

/-- The owner of the wallet from which a transfer is admitted. -/
def transferred : Pc → Option Uuid
  | .done (.admitted wallet) => some wallet.userId
  | _ => none

/-- `POST /wallets/:id/transfers` passes its guards and its ownership check. -/
def TransfersFrom (userId : Uuid) (e : Occurrence) : Prop :=
  transferred (e.post.client e.label.1) = some userId ∧
    transferred (e.pre.client e.label.1) = none

/-! ## The invariant -/

/-- The request is not past a proof of this user's second factor. -/
def Unproved (userId : Uuid) : Pc → Prop
  | .disableTotp id | .readRecoveryHashes id _ _ | .writeRecoveryHashes id _ _ _
  | .sign (.stepUpGrant id) | .updateCounter _ _ _ (.stepUp id) => id ≠ userId
  | .setTotpPending user _ | .transfer user _ => user.id ≠ userId
  | _ => True

def totpOn (userId : Uuid) (s : Shared) : Bool :=
  (s.users.find userId).any User.totpEnabled

structure Protected (controlled : Set String) (userId : Uuid) (t : Service) : Prop where
  on : ∃ user, t.data.users.find userId = some user ∧ user.totpEnabled = true
  passkeys : ∀ row ∈ t.data.passkeys.table.rows, row.userId = userId → row.publicKey ∉ controlled
  grants : ∀ token ∈ t.data.minted, token.claims.purpose = some .stepUp →
    token.claims.sub ≠ some userId
  clients : ∀ c, Unproved userId (t.client c)

section Statement
variable {env : Env} {i : Input} {p q : Pc} {s s' : Shared} {userId : Uuid} {minted : List Jwt}
  {now : Time}

theorem unproved_receive (r : Request) : Unproved userId (receive minted now r) := by
  unfold receive
  split
  all_goals first | trivial | split
  all_goals trivial

theorem unproved_proved {id : Uuid} (k : ProofOf) (hid : id ≠ userId) :
    Unproved userId (proved id k) :=
  proved_rule (fun _ => trivial) (fun _ _ _ => trivial) (fun _ => hid) fun _ => hid

/-- Only the step-up guard lets a route on to the user's transfer. -/
theorem unproved_dispatch {user : AuthUser} (endpoint : Endpoint)
    (hguard : ∀ grant, user.id = userId → stepUpGuard minted now user grant = false) :
    Unproved userId (dispatch env minted now user endpoint) := by
  cases endpoint with
  | transfer walletId grant =>
      simp only [dispatch]
      split_ifs with hpass
      · intro hid
        rw [hguard grant hid] at hpass
        cases hpass
      · trivial
  | stepUp code => simp only [dispatch]; split_ifs <;> trivial
  | passkeyRegisterVerify response challengeToken label =>
      simp only [dispatch]
      split
      · trivial
      · split_ifs
        · trivial
        · split <;> trivial
  | stepUpPasskeyVerify response challengeToken => simp only [dispatch]; split <;> trivial
  | _ => trivial

/-- Without a grant of its own the guard refuses a user with two-factor authentication. -/
theorem stepUpGuard_refuses {user : AuthUser} (hon : user.totpEnabled = true)
    (hgrants : ∀ token ∈ minted, token.claims.purpose = some .stepUp →
      token.claims.sub ≠ some user.id) (grant : Option Jwt) :
    stepUpGuard minted now user grant = false := by
  rw [stepUpGuard, hon, Bool.not_true, Bool.false_or]
  by_contra hpass
  rw [Bool.not_eq_false, Option.any_eq_true] at hpass
  obtain ⟨token, -, hverified⟩ := hpass
  split at hverified
  · cases hverified
  · next sub hsub =>
      obtain ⟨hmem, -, hpurpose, hclaims⟩ := verifyPurpose_eq_ok hsub
      rw [of_decide_eq_true hverified] at hclaims
      exact hgrants token hmem hpurpose hclaims

theorem validate_eq_some {payload : Claims} {user : AuthUser} (h : validate s payload = some user) :
    payload.sub = some user.id ∧ ∃ stored, s.users.find user.id = some stored ∧
      stored.status = .active ∧ user.totpEnabled = stored.totpEnabled ∧
        user.role = payload.role := by
  obtain ⟨id, hsub, hfind⟩ := Option.bind_eq_some_iff.mp h
  obtain ⟨stored, hstored, hactive⟩ := Option.bind_eq_some_iff.mp hfind
  split_ifs at hactive with hstatus
  cases hactive
  exact ⟨hsub, stored, hstored, hstatus, rfl, rfl⟩

/-- The flag survives every UPDATE but that of `setup` and `disable`. -/
theorem totpEnabled_stays (h : Statement env s i p q s') (hp : Unproved userId p)
    (hon : ∃ user, s.users.find userId = some user ∧ user.totpEnabled = true) :
    ∃ user, s'.users.find userId = some user ∧ user.totpEnabled = true := by
  obtain ⟨user, hfind, henabled⟩ := hon
  rcases users_change h hfind with hsame | ⟨-, u, -, hpending, hset⟩
  · exact ⟨user, hsame, henabled⟩
  · refine ⟨u.set user, hset, ?_⟩
    cases p with
    | setTotpPending actor secret => cases hpending; exact absurd rfl hp
    | enableTotp id codes => cases hpending; rfl
    | writeRecoveryHashes id hash remaining k => cases hpending; exact henabled
    | disableTotp id => cases hpending; exact absurd rfl hp
    | writeUser actor id change before =>
        cases hpending
        cases change <;> exact henabled
    | _ => cases hpending

theorem grants_stay (h : Statement env s i p q s') (hp : Unproved userId p)
    (hgrants : ∀ token ∈ s.minted, token.claims.purpose = some .stepUp →
      token.claims.sub ≠ some userId) :
    ∀ token ∈ s'.minted, token.claims.purpose = some .stepUp →
      token.claims.sub ≠ some userId := by
  intro token htoken hpurpose
  rcases minted_change h htoken with hold | ⟨d, m, -, hpending, rfl⟩
  · exact hgrants token hold hpurpose
  · cases m with
    | stepUpGrant id =>
        have hid : id ≠ userId := by
          cases p <;> cases hpending
          exact hp
        intro hsub
        exact hid (Option.some.inj hsub)
    | access user => cases hpurpose
    | wsTicket id => cases hpurpose
    | twoFactorChallenge id => cases hpurpose
    | webAuthnChallenge challenge id => cases hpurpose

theorem transferred_receive (r : Request) : transferred (receive minted now r) = none := by
  unfold receive
  split
  all_goals first | rfl | split
  all_goals rfl

theorem transferred_dispatch (user : AuthUser) (endpoint : Endpoint) :
    transferred (dispatch env minted now user endpoint) = none := by
  unfold dispatch
  split
  all_goals first | rfl | split
  all_goals first | rfl | split
  all_goals first | rfl | split
  all_goals rfl

theorem transferred_proved (id : Uuid) (k : ProofOf) : transferred (proved id k) = none :=
  proved_rule (P := (transferred · = none)) (fun _ => rfl) (fun _ _ _ => rfl) (fun _ => rfl)
    fun _ => rfl

/-- A transfer is admitted after its ownership check, for the caller that passed the guard. -/
theorem transferred_change (h : Statement env s i p q s') (hq : transferred q = some userId) :
    transferred p = some userId ∨
      ∃ actor walletId, p = .transfer actor walletId ∧ actor.id = userId := by
  cases h with
  | receives r now =>
      rw [transferred_receive] at hq
      cases hq
  | money => exact .inl hq
  | authenticates =>
      rw [transferred_dispatch] at hq
      cases hq
  | provesTotp =>
      rw [transferred_proved] at hq
      cases hq
  | consumes =>
      rw [transferred_proved] at hq
      cases hq
  | counts d id owner counter k => cases k <;> cases hq
  | permits d actor id patch =>
      rcases patchUser_cases env actor id patch with ⟨e, he⟩ | ⟨change, he⟩ <;>
        rw [he] at hq <;> cases hq
  | admits d actor walletId wallet howned =>
      unfold WalletsService.getOwnedWallet at howned
      split at howned
      · cases howned
      · split_ifs at howned with hmine
        cases howned
        rw [not_not] at hmine
        exact .inr ⟨actor, walletId, rfl, hmine.symm.trans (Option.some.inj hq)⟩
  | _ => cases hq

end Statement

section Step
variable {env : Env} {signedBy challengeOf : AuthenticationResponse → String}
  {controlled : Set String} {userId : Uuid} {l : ℕ × Input} {s t : Service}

theorem Protected.totpOn (h : Protected controlled userId s) : totpOn userId s.data = true := by
  obtain ⟨user, hfind, henabled⟩ := h.on
  rw [SecondFactor.totpOn, hfind]
  exact henabled

/-- The request that moves proves nothing. -/
theorem Protected.unproved (h : Protected controlled userId s)
    (hwebauthn : WebAuthn env signedBy challengeOf)
    (hparty : ByParty env signedBy controlled userId ⟨s, l, t⟩) {q : Pc} {s' : Shared}
    (hstatement : Statement env s.data l.2 (s.client l.1) q s') : Unproved userId q := by
  obtain ⟨stored, hfind, henabled⟩ := h.on
  have hp := h.clients l.1
  have hcode := hparty.code
  have hkey := hparty.key
  obtain ⟨c, i⟩ := l
  dsimp only at hcode hkey hp hstatement
  generalize s.client c = p at hcode hkey hp hstatement
  cases hstatement with
  | receives r now => exact unproved_receive r
  | money => exact hp
  | authenticates d payload endpoint user hvalid =>
      refine unproved_dispatch endpoint fun grant hid => ?_
      obtain ⟨-, found, hfound, -, hflag, -⟩ := validate_eq_some hvalid
      rw [hid, hfind] at hfound
      cases hfound
      refine stepUpGuard_refuses (hflag.trans henabled) ?_ grant
      rw [hid]
      exact h.grants
  | setsUp d user hoff =>
      intro hid
      rw [hid, hfind, Option.any_some, henabled] at hoff
      cases hoff
  | provesTotp d id code k user hfound htotp hmatches =>
      refine unproved_proved k fun hid => hcode ?_
      rw [provesFactor, hfound, Option.any_some, hmatches, Bool.true_or, if_pos rfl, hid]
  | provesRecovery d id code k user hfound htotp hmem =>
      intro hid
      refine hcode ?_
      rw [provesFactor, hfound, Option.any_some, decide_eq_true hmem, Bool.or_true, if_pos rfl, hid]
  | readsHashes => exact hp
  | consumes d id hash remaining k => exact unproved_proved k hp
  | verifiesAssertion d response challenge k passkey counter hrow hid hexpects hverified =>
      cases k with
      | login => trivial
      | stepUp expected =>
          have howner : passkey.userId = expected := of_decide_eq_true hexpects
          rintro rfl
          have hsigned := (hwebauthn.signed response challenge passkey counter hverified).1
          have hcontrolled := hkey response rfl
          rw [hsigned] at hcontrolled
          exact h.passkeys passkey hrow howner hcontrolled
  | counts d id owner counter k =>
      cases k with
      | login => trivial
      | stepUp expected => exact hp
  | permits d actor id patch =>
      rcases patchUser_cases env actor id patch with ⟨e, he⟩ | ⟨change, he⟩ <;> rw [he] <;> trivial
  | _ => trivial

theorem Protected.next (h : Protected controlled userId s)
    (hwebauthn : WebAuthn env signedBy challengeOf)
    (hparty : ByParty env signedBy controlled userId ⟨s, l, t⟩)
    (hregisters : ¬ RegistersPasskey userId ⟨s, l, t⟩) (hn : AuthRuns.next env l s = some t) :
    Protected controlled userId t := by
  obtain ⟨q, s', hstep, rfl⟩ := next_cases hn
  have hstatement := step_statement hstep
  have hp := h.clients l.1
  refine ⟨totpEnabled_stays hstatement hp h.on, fun row hrow hid => ?_,
    grants_stay hstatement hp h.grants, fun c => ?_⟩
  · rcases passkeys_change hstatement hrow with ⟨old, hold, hsame⟩ | ⟨credential, label, hcreate⟩
    · rw [hsame] at hid ⊢
      exact h.passkeys old hold hid
    · refine absurd ?_ hregisters
      change registering (s.client l.1) = some userId
      rw [hcreate, registering, hid]
  · by_cases hc : c = l.1
    · subst hc
      simp only [Function.update_self]
      exact h.unproved hwebauthn hparty hstatement
    · simp only [Function.update_of_ne hc]
      exact h.clients c

theorem Protected.no_transfer (h : Protected controlled userId s)
    (hn : AuthRuns.next env l s = some t) : ¬ TransfersFrom userId ⟨s, l, t⟩ := by
  obtain ⟨q, s', hstep, rfl⟩ := next_cases hn
  have hp := h.clients l.1
  intro htransfers
  have hafter : transferred (Function.update s.client l.1 q l.1) = some userId := htransfers.1
  rw [Function.update_self] at hafter
  rcases transferred_change (step_statement hstep) hafter with hbefore | ⟨actor, walletId, hpc, hid⟩
  · rw [htransfers.2] at hbefore
    cases hbefore
  · rw [hpc] at hp
    exact hp hid

end Step

/-- Without registering a passkey for the user, the holder of a live session
neither gets a transfer of the user admitted nor turns the second factor off. -/
theorem second_factor_holds {env : Env} {signedBy challengeOf : AuthenticationResponse → String}
    {controlled : Set String} {userId : Uuid} {user : User} {s₀ : Shared} {tr : List Occurrence}
    {s : Service} (h : Run (AuthRuns.next env) (start s₀) tr s)
    (hwebauthn : WebAuthn env signedBy challengeOf)
    (huser : s₀.users.find userId = some user) (hon : user.totpEnabled = true)
    (hgrants : ∀ token ∈ s₀.minted, token.claims.purpose = some .stepUp →
      token.claims.sub ≠ some userId)
    (hpasskeys : ∀ row ∈ s₀.passkeys.table.rows, row.userId = userId →
      row.publicKey ∉ controlled)
    (hparty : ∀ e ∈ tr, ByParty env signedBy controlled userId e)
    (hregisters : ∀ e ∈ tr, ¬ RegistersPasskey userId e) :
    (∀ e ∈ tr, ¬ TransfersFrom userId e ∧ totpOn userId e.post.data = true) ∧
      totpOn userId s.data = true := by
  have hstart : Protected controlled userId (start s₀) :=
    ⟨⟨user, huser, hon⟩, hpasskeys, hgrants, fun _ => trivial⟩
  have hinvariant := h.invariant_events
    (fun e => ByParty env signedBy controlled userId e ∧ ¬ RegistersPasskey userId e)
    (Protected controlled userId) hstart
    (fun l s t hprotected hn hc => hprotected.next hwebauthn hc.1 hc.2 hn)
    (fun e he => ⟨hparty e he, hregisters e he⟩)
  refine ⟨fun e he => ⟨?_, (hinvariant.2 e he).2.totpOn⟩, hinvariant.1.totpOn⟩
  exact (hinvariant.2 e he).1.no_transfer (h.event_next e he)

/-! ## Concrete runs -/

/-- A user with two-factor authentication, a second user, and a wallet of each. -/
def owner : User := account 1 "a" userRole true

def purse : Db :=
  (Db.empty.createWallet ⟨9, 1, "", "USD", ⟨1000, by decide⟩⟩).bind
    (fun db => db.createWallet ⟨10, 2, "", "USD", .zero⟩) |>.getD .empty

/-- One live access token of the user. -/
def session : Jwt := signAsync (.access owner) 0

def live : Shared :=
  { usersOnly [owner, account 2 "b" userRole false] with money := purse, minted := [session] }

theorem plainEnv_webAuthn (roles : List Role) : WebAuthn (plainEnv roles)
    AuthenticationResponse.id AuthenticationResponse.json where
  signed response challenge passkey counter h := by
    simp only [plainEnv] at h
    split_ifs at h with hsigned
    exact hsigned

/-- A request with that token and its statements. -/
def attempt (c : ℕ) (endpoint : Endpoint) (n : ℕ) (text : String) : List (ℕ × Input) :=
  (c, .request (.authorized session endpoint) 1000) ::
    List.replicate n (c, .run (draw 1000 (10 * c) text))

/-- The tests of `ByParty`, for the key of the party and user 1. -/
def byParty (env : Env) (e : Occurrence) : Bool :=
  provesFactor env e.pre.data e.label.2 (e.pre.client e.label.1) ≠ some 1 &&
    (asserted (e.pre.client e.label.1)).all fun response => response.id = "key"

theorem byParty_of_tests {env : Env} {e : Occurrence} (h : byParty env e = true) :
    ByParty env AuthenticationResponse.id {"key"} 1 e where
  code := by
    rw [byParty, Bool.and_eq_true] at h
    exact of_decide_eq_true h.1
  key response hresponse := by
    rw [byParty, Bool.and_eq_true] at h
    rw [Option.mem_def.mp hresponse] at h
    exact of_decide_eq_true h.2

/-- Without a code the token turns nothing off and moves nothing. -/
def refused : List (ℕ × Input) :=
  attempt 0 .setup2fa 2 "c1" ++ attempt 1 (.disable2fa "guess") 2 "c1" ++
    attempt 2 (.transfer 9 none) 1 "c1" ++ attempt 3 .passkeyRegisterOptions 3 "c1"

theorem second_factor_holds_refused :
    ∃ tr s, Run (AuthRuns.next (plainEnv [])) (start live) tr s ∧ tr.length = 12 ∧
      (∀ e ∈ tr, ¬ TransfersFrom 1 e ∧ totpOn 1 e.post.data = true) ∧ totpOn 1 s.data = true := by
  obtain ⟨tr, s, hrun, -, hs⟩ := Run.of_trace_map (AuthRuns.next (plainEnv [])) refused
    (start live)
    (fun tr _ => (decide (∀ e ∈ tr, byParty (plainEnv []) e = true ∧
      registering (e.pre.client e.label.1) ≠ some 1), tr.length)) (true, 12) (by decide)
  rw [Prod.mk.injEq, decide_eq_true_eq] at hs
  refine ⟨tr, s, hrun, hs.2, second_factor_holds hrun (plainEnv_webAuthn [])
    (by rfl : live.users.find 1 = some owner) rfl (by decide)
    (fun row hrow => absurd hrow List.not_mem_nil)
    (fun e he => byParty_of_tests (hs.1 e he).1) fun e he => (hs.1 e he).2⟩

/-- The party registers its own key, steps up with it and moves the money. -/
def takeover : List (ℕ × Input) :=
  attempt 0 .passkeyRegisterOptions 3 "c1" ++
  attempt 1 (.passkeyRegisterVerify "key c1" (signAsync (.webAuthnChallenge "c1" (some 1)) 1000)
    none) 2 "" ++
  attempt 2 .stepUpPasskeyOptions 3 "c2" ++
  attempt 3 (.stepUpPasskeyVerify ⟨"key", "c2"⟩
    (signAsync (.webAuthnChallenge "c2" none) 1000)) 4 "" ++
  attempt 4 (.transfer 9 (some (signAsync (.stepUpGrant 1) 1000))) 2 ""

/-- The money part of the last request. -/
def movesMoney (dto : WalletsService.TransferDto) :
    List (ℕ × LockedBlocks.Act WalletsService.Input) :=
  [(0, .step (.call (.transfer 9 (MoneyRuns.customer 1) dto) (MoneyRuns.numbered 20))),
    (0, .step .go), (0, .step .go), (0, .step .go)] ++ MoneyRuns.commitBlock 0 8

theorem second_factor_bypassed :
    (∃ tr s, Run (AuthRuns.next (plainEnv [])) (start live) tr s ∧
      (∀ e ∈ tr, ByParty (plainEnv []) AuthenticationResponse.id {"key"} 1 e) ∧
      ∃ e ∈ tr, TransfersFrom 1 e) ∧
    ∃ tr t, Run MoneyRuns.next (MoneyRuns.start ⟨purse, fun _ => none, [], []⟩) tr t ∧
      t.data.db.wallets.rows.map (fun w => (w.id, w.balance.val)) = [(9, 0), (10, 1000)] := by
  constructor
  · obtain ⟨tr, s, hrun, -, hs⟩ := Run.of_trace_map (AuthRuns.next (plainEnv [])) takeover
      (start live)
      (fun tr _ => (decide (∀ e ∈ tr, byParty (plainEnv []) e = true),
        decide (∃ e ∈ tr, transferred (e.post.client e.label.1) = some 1 ∧
          transferred (e.pre.client e.label.1) = none))) (true, true) (by decide)
    rw [Prod.mk.injEq, decide_eq_true_eq, decide_eq_true_eq] at hs
    exact ⟨tr, s, hrun, fun e he => byParty_of_tests (hs.1 e he), hs.2⟩
  · obtain ⟨tr, t, hrun, -, ht⟩ := Run.of_trace_map MoneyRuns.next
      (movesMoney ⟨10, 1000, none, by decide⟩)
      (MoneyRuns.start ⟨purse, fun _ => none, [], []⟩)
      (fun _ t => t.data.db.wallets.rows.map fun w => (w.id, w.balance.val)) [(9, 0), (10, 1000)]
      (by decide)
    exact ⟨tr, t, hrun, ht⟩

end MaxOne.SecondFactor
