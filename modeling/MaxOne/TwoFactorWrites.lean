import MaxOne.SecondFactor

/-!
# The writes of setup, verification and disable

`setup` reads that the second factor is off and later writes secret and flag;
`verifyAndEnable` checks a code against one secret and later sets the flag
beside whatever secret is stored. A write of `setup` or `disable` between these
two, or one of `setup` after the flag was set, is a downgrade. Without one the
flag falls only by a proved `disable`, and it stands only beside a secret that
was checked.
-/
namespace MaxOne.TwoFactorWrites
open Library Library.Runs Library.Interleaving MaxOne.Schema MaxOne.Accounts MaxOne.AuthService
  MaxOne.AuthMachine MaxOne.AuthRuns MaxOne.SecondFactor

def storedSecret (userId : Uuid) (s : Shared) : Option String :=
  (s.users.find userId).bind User.totpSecret

/-! ## Events -/

def TurnsOff (userId : Uuid) (e : Occurrence) : Prop :=
  totpOn userId e.pre.data = true ∧ totpOn userId e.post.data = false

/-- The secret against which `verifyAndEnable` accepts a code. -/
def checked (env : Env) (s : Shared) : Input → Pc → Option (Uuid × Option String)
  | .run d, .verifyAndEnable userId code =>
      if (s.users.find userId).any fun user => totpMatches env d.now user code then
        some (userId, storedSecret userId s) else none
  | _, _ => none

def ChecksSecret (env : Env) (userId : Uuid) (secret : String) (e : Occurrence) : Prop :=
  checked env e.pre.data e.label.2 (e.pre.client e.label.1) = some (userId, some secret)

/-- Call `c` of `disable` verifies a TOTP code or a recovery code of the user. -/
def ProvesForDisable (env : Env) (userId : Uuid) (c : ℕ) (e : Occurrence) : Prop :=
  e.label.1 = c ∧ (∃ code, e.pre.client c = .proveFactor userId code .disable) ∧
    provesFactor env e.pre.data e.label.2 (e.pre.client c) = some userId

/-- The user whose secret a statement of `setup` overwrites. -/
def settingUp : Input → Pc → Option Uuid
  | .run _, .setTotpPending user _ => some user.id
  | _, _ => none

/-- The user whose secret a statement of `setup` or `disable` overwrites. -/
def overwriting : Input → Pc → Option Uuid
  | .run _, .disableTotp userId => some userId
  | i, p => settingUp i p

/-- The call has checked a code and is about to set the flag. -/
def enabling : Pc → Option Uuid
  | .enableTotp userId _ => some userId
  | _ => none

/-- `setup` writes while the factor is on, or it or `disable` writes while a
verification has checked its code and not yet written. -/
def Undercuts (userId : Uuid) (e : Occurrence) : Prop :=
  (settingUp e.label.2 (e.pre.client e.label.1) = some userId ∧
    totpOn userId e.pre.data = true) ∨
  (overwriting e.label.2 (e.pre.client e.label.1) = some userId ∧
    ∃ c, enabling (e.pre.client c) = some userId)

/-- `disable` is past its proof. -/
def disabling : Pc → Option Uuid
  | .disableTotp userId | .readRecoveryHashes userId _ .disable
  | .writeRecoveryHashes userId _ _ .disable => some userId
  | _ => none

/-! ## What one statement does to the flag and the secret -/

section Statement
variable {env : Env} {i : Input} {p q : Pc} {s s' : Shared} {userId : Uuid}

theorem totpOn_of_find {user : User} (h : s.users.find userId = some user) :
    totpOn userId s = user.totpEnabled := by rw [totpOn, h, Option.any_some]

theorem storedSecret_of_find {user : User} (h : s.users.find userId = some user) :
    storedSecret userId s = user.totpSecret := by rw [storedSecret, h, Option.bind_some]

/-- A user that did not exist still does not, or has just been registered. -/
theorem users_new (h : Statement env s i p q s') (hnone : s.users.find userId = none) :
    s'.users.find userId = none ∨
      ∃ d dto role, s'.users.find userId = some (newUser d dto role) := by
  have hwrite : ∀ target u, (s.setUser target u).users.find userId = none := by
    intro target u
    rw [Shared.find_setUser]
    split_ifs with hid
    · rw [← hid, hnone, Option.map_none]
    · exact hnone
  cases h with
  | registers d dto role users hinsert =>
      rw [IndexedTable.find_insert hinsert]
      split_ifs
      · exact .inr ⟨d, dto, role, rfl⟩
      · exact .inl hnone
  | pends => exact .inl (hwrite _ _)
  | enables => exact .inl (hwrite _ _)
  | consumes => exact .inl (hwrite _ _)
  | disables => exact .inl (hwrite _ _)
  | patches =>
      simp only [sweep_users]
      exact .inl (hwrite _ _)
  | _ => exact .inl hnone

/-- The flag and the secret stay, or the statement is the write of `setup`,
`disable` or `verifyAndEnable`. -/
theorem totp_change (userId : Uuid) (h : Statement env s i p q s') :
    (totpOn userId s' = totpOn userId s ∧ storedSecret userId s' = storedSecret userId s) ∨
      (overwriting i p = some userId ∧ totpOn userId s' = false) ∨
      (enabling p = some userId ∧ totpOn userId s' = true ∧
        storedSecret userId s' = storedSecret userId s) := by
  cases hfind : s.users.find userId with
  | none =>
      left
      rcases users_new h hfind with hsame | ⟨d, dto, role, hnew⟩
      · rw [totpOn, totpOn, storedSecret, storedSecret, hsame, hfind]
        exact ⟨rfl, rfl⟩
      · rw [totpOn_of_find hnew, storedSecret_of_find hnew, totpOn, storedSecret, hfind]
        exact ⟨rfl, rfl⟩
  | some user =>
      rw [totpOn_of_find hfind, storedSecret_of_find hfind]
      rcases users_change h hfind with hsame | ⟨d, u, rfl, hpending, hset⟩
      · left
        rw [totpOn_of_find hsame, storedSecret_of_find hsame]
        exact ⟨rfl, rfl⟩
      · rw [totpOn_of_find hset, storedSecret_of_find hset]
        cases p with
        | setTotpPending actor secret => cases hpending; exact .inr (.inl ⟨rfl, rfl⟩)
        | disableTotp id => cases hpending; exact .inr (.inl ⟨rfl, rfl⟩)
        | enableTotp id codes => cases hpending; exact .inr (.inr ⟨rfl, rfl, rfl⟩)
        | writeRecoveryHashes id hash remaining k => cases hpending; exact .inl ⟨rfl, rfl⟩
        | writeUser actor id change before =>
            cases hpending
            cases change <;> exact .inl ⟨rfl, rfl⟩
        | _ => cases hpending

theorem enabling_entry (h : entry p = true) : enabling p = none := by
  cases p <;> first | rfl | cases h

theorem disabling_entry (h : entry p = true) : disabling p = none := by
  cases p <;> first | rfl | cases h

theorem enabling_proved (id : Uuid) (k : ProofOf) : enabling (proved id k) = none :=
  proved_rule (P := (enabling · = none)) (fun _ => rfl) (fun _ _ _ => rfl) (fun _ => rfl)
    fun _ => rfl

theorem disabling_proved {id : Uuid} {k : ProofOf} (h : disabling (proved id k) = some userId) :
    k = .disable ∧ id = userId := by
  revert h
  exact proved_rule (P := (disabling · = some userId → k = .disable ∧ id = userId)) nofun
    (fun _ _ _ => nofun) (fun hk h => ⟨hk, Option.some.inj h⟩) fun _ => nofun

/-- A verification is about to set the flag once its code has been checked. -/
theorem enabling_change (h : Statement env s i p q s') (hq : enabling q = some userId) :
    enabling p = some userId ∨
      (s' = s ∧ ∃ secret, storedSecret userId s = some secret ∧
        checked env s i p = some (userId, some secret)) := by
  cases h with
  | receives r now =>
      rw [enabling_entry (entry_receive r)] at hq
      cases hq
  | money => exact .inl hq
  | authenticates =>
      rw [enabling_entry (entry_dispatch _ _)] at hq
      cases hq
  | checksCode d id code user hfind hmatches =>
      cases hq
      have hsome := hmatches
      rw [totpMatches, Option.any_eq_true] at hsome
      obtain ⟨secret, hsecret, -⟩ := hsome
      have hstored : storedSecret userId s = some secret :=
        (storedSecret_of_find hfind).trans hsecret
      refine .inr ⟨rfl, secret, hstored, ?_⟩
      rw [checked, hfind, Option.any_some, if_pos hmatches, hstored]
  | provesTotp =>
      rw [enabling_proved] at hq
      cases hq
  | consumes =>
      rw [enabling_proved] at hq
      cases hq
  | counts d id owner counter k => cases k <;> cases hq
  | permits d actor id patch =>
      rcases patchUser_cases env actor id patch with ⟨e, he⟩ | ⟨change, he⟩ <;>
        rw [he] at hq <;> cases hq
  | _ => cases hq

/-- `disable` gets past its proof only by a code. -/
theorem disabling_change (h : Statement env s i p q s') (hq : disabling q = some userId) :
    disabling p = some userId ∨
      ((∃ code, p = .proveFactor userId code .disable) ∧ provesFactor env s i p = some userId) := by
  cases h with
  | receives r now =>
      rw [disabling_entry (entry_receive r)] at hq
      cases hq
  | money => exact .inl hq
  | authenticates =>
      rw [disabling_entry (entry_dispatch _ _)] at hq
      cases hq
  | provesTotp d id code k user hfind htotp hmatches =>
      obtain ⟨rfl, rfl⟩ := disabling_proved hq
      refine .inr ⟨⟨code, rfl⟩, ?_⟩
      rw [provesFactor, hfind, Option.any_some, hmatches, Bool.true_or, if_pos rfl]
  | provesRecovery d id code k user hfind htotp hmem =>
      cases k with
      | disable =>
          cases hq
          refine .inr ⟨⟨code, rfl⟩, ?_⟩
          rw [provesFactor, hfind, Option.any_some, decide_eq_true hmem, Bool.or_true, if_pos rfl]
      | login user => cases hq
      | stepUp => cases hq
  | readsHashes d id hash k remaining => cases k <;> exact .inl hq
  | consumes d id hash remaining k =>
      obtain ⟨rfl, rfl⟩ := disabling_proved hq
      exact .inl rfl
  | counts d id owner counter k => cases k <;> cases hq
  | permits d actor id patch =>
      rcases patchUser_cases env actor id patch with ⟨e, he⟩ | ⟨change, he⟩ <;>
        rw [he] at hq <;> cases hq
  | _ => cases hq

end Statement

/-! ## The history of the flag -/

/-- Some verification checked a code against the secret, or it was the secret of a
factor that was on at the start. -/
def Verified (env : Env) (s₀ : Shared) (userId : Uuid) (tr : List Occurrence)
    (secret : Option String) : Prop :=
  (∃ value, secret = some value ∧ ∃ g ∈ tr, ChecksSecret env userId value g) ∨
    (totpOn userId s₀ = true ∧ secret = storedSecret userId s₀)

structure History (env : Env) (s₀ : Shared) (userId : Uuid) (tr : List Occurrence) (t : Service) :
    Prop where
  on : totpOn userId t.data = true → Verified env s₀ userId tr (storedSecret userId t.data)
  verified : ∀ c, enabling (t.client c) = some userId →
    ∃ secret, storedSecret userId t.data = some secret ∧
      ∃ g ∈ tr, ChecksSecret env userId secret g
  proved : ∀ c, disabling (t.client c) = some userId →
    ∃ g ∈ tr, ProvesForDisable env userId c g

section Step
variable {env : Env} {s₀ : Shared} {userId : Uuid} {tr : List Occurrence} {l : ℕ × Input}
  {s t : Service}

theorem Verified.snoc {secret : Option String} (h : Verified env s₀ userId tr secret)
    (e : Occurrence) : Verified env s₀ userId (tr ++ [e]) secret := by
  rcases h with hchecked | hstart
  · obtain ⟨value, hvalue, g, hg, hchecks⟩ := hchecked
    exact .inl ⟨value, hvalue, g, List.mem_append_left _ hg, hchecks⟩
  · exact .inr hstart

theorem History.next (h : History env s₀ userId tr s) (hn : AuthRuns.next env l s = some t)
    (hundercuts : ¬ Undercuts userId ⟨s, l, t⟩) :
    History env s₀ userId (tr ++ [⟨s, l, t⟩]) t := by
  obtain ⟨q, s', hstep, rfl⟩ := next_cases hn
  have hstatement := step_statement hstep
  have hchange := totp_change userId hstatement
  have hpending : ∀ c, enabling (s.client c) = some userId →
      storedSecret userId s' = storedSecret userId s.data := by
    intro c hc
    rcases hchange with ⟨-, hsame⟩ | ⟨hoverwrites, -⟩ | ⟨-, -, hsame⟩
    · exact hsame
    · exact absurd (.inr ⟨hoverwrites, c, hc⟩) hundercuts
    · exact hsame
  refine ⟨fun hon => ?_, fun c hc => ?_, fun c hc => ?_⟩
  · rcases hchange with ⟨hflag, hsecret⟩ | ⟨-, hoff⟩ | ⟨henabling, -, hsecret⟩
    · dsimp only at hon ⊢
      rw [hflag] at hon
      rw [hsecret]
      exact (h.on hon).snoc _
    · rw [hoff] at hon
      cases hon
    · obtain ⟨secret, hstored, g, hg, hchecks⟩ := h.verified l.1 henabling
      dsimp only
      rw [hsecret, hstored]
      exact .inl ⟨secret, rfl, g, List.mem_append_left _ hg, hchecks⟩
  · have hearlier : enabling (s.client c) = some userId → ∃ secret,
        storedSecret userId s' = some secret ∧
          ∃ g ∈ tr ++ [⟨s, l, ⟨s', Function.update s.client l.1 q⟩⟩],
            ChecksSecret env userId secret g := by
      intro hold
      obtain ⟨secret, hstored, g, hg, hchecks⟩ := h.verified c hold
      exact ⟨secret, (hpending c hold).trans hstored, g, List.mem_append_left _ hg, hchecks⟩
    by_cases hmoves : c = l.1
    · subst hmoves
      simp only [Function.update_self] at hc
      rcases enabling_change hstatement hc with hold | ⟨rfl, secret, hstored, hchecks⟩
      · exact hearlier hold
      · exact ⟨secret, hstored, _, List.mem_append_right _ List.mem_cons_self, hchecks⟩
    · simp only [Function.update_of_ne hmoves] at hc
      exact hearlier hc
  · by_cases hmoves : c = l.1
    · subst hmoves
      simp only [Function.update_self] at hc
      rcases disabling_change hstatement hc with hold | hproves
      · obtain ⟨g, hg, hearlier⟩ := h.proved l.1 hold
        exact ⟨g, List.mem_append_left _ hg, hearlier⟩
      · exact ⟨_, List.mem_append_right _ List.mem_cons_self, rfl, hproves⟩
    · simp only [Function.update_of_ne hmoves] at hc
      obtain ⟨g, hg, hearlier⟩ := h.proved c hc
      exact ⟨g, List.mem_append_left _ hg, hearlier⟩

end Step

/-- Where no write of `setup` or `disable` undercuts a verification, the flag
falls only by a `disable` that verified a code, and it stands only beside a
secret against which a code was checked. -/
theorem never_downgraded {env : Env} {s₀ : Shared} {tr : List Occurrence} {s : Service}
    (h : Run (AuthRuns.next env) (start s₀) tr s) {userId : Uuid}
    (hundercuts : ∀ e ∈ tr, ¬ Undercuts userId e) :
    (∀ before e after, tr = before ++ e :: after → TurnsOff userId e →
      e.pre.client e.label.1 = .disableTotp userId ∧
        ∃ g ∈ before, ProvesForDisable env userId e.label.1 g) ∧
      (totpOn userId s.data = true →
        Verified env s₀ userId tr (storedSecret userId s.data)) := by
  have hhistory : ∀ {us : List Occurrence} {t : Service}, Run (AuthRuns.next env) (start s₀) us t →
      (∀ e ∈ us, ¬ Undercuts userId e) → History env s₀ userId us t := by
    intro us t hus hquiet
    refine hus.history (fun e => ¬ Undercuts userId e) (History env s₀ userId)
      ⟨fun hon => .inr ⟨hon, rfl⟩, fun c hc => ?_, fun c hc => ?_⟩
      (fun us l s t hi hn hc => hi.next hn hc) hquiet
    · cases hc
    · cases hc
  refine ⟨fun before e after htr hoff => ?_, (hhistory h hundercuts).on⟩
  have he : e ∈ tr := by rw [htr]; simp
  have hpre := hhistory (h.split htr).1 fun g hg => hundercuts g (by rw [htr]; simp [hg])
  obtain ⟨q, s', hstep, hpost⟩ := next_cases (h.event_next e he)
  have hoffpost : totpOn userId s' = false := by
    have := hoff.2
    rwa [hpost] at this
  rcases totp_change userId (step_statement hstep) with hsame | hover | henables
  · rw [hoff.1, hoffpost] at hsame
    cases hsame.1
  · have hnotsetup : settingUp e.label.2 (e.pre.client e.label.1) ≠ some userId := by
      intro hsetup
      exact hundercuts e he (.inl ⟨hsetup, hoff.1⟩)
    have hpc : e.pre.client e.label.1 = .disableTotp userId := by
      have hoverwrites := hover.1
      unfold overwriting at hoverwrites
      split at hoverwrites
      · next hpc =>
          rw [hpc]
          exact congrArg Pc.disableTotp (Option.some.inj hoverwrites)
      · exact absurd hoverwrites hnotsetup
    refine ⟨hpc, hpre.proved e.label.1 ?_⟩
    rw [hpc, disabling]
  · rw [hoffpost] at henables
    cases henables.2.1

/-! ## Concrete runs -/

instance (userId : Uuid) : DecidablePred (TurnsOff userId) := fun e =>
  inferInstanceAs (Decidable (totpOn userId e.pre.data = true ∧ totpOn userId e.post.data = false))

instance (env : Env) (userId : Uuid) (secret : String) :
    DecidablePred (ChecksSecret env userId secret) := fun e =>
  inferInstanceAs (Decidable (checked env e.pre.data e.label.2 (e.pre.client e.label.1) =
    some (userId, some secret)))

def customer : User := { account 1 "a" userRole false with totpSecret := none }

/-- A user without a second factor and with a live access token. -/
def unprotected : Shared :=
  { usersOnly [customer] with minted := [signAsync (.access customer) 0] }

/-- A request with that token, its first `n` statements, and the secret they may draw. -/
def calls (c : ℕ) (endpoint : Endpoint) (n : ℕ) (secret : String) : List (ℕ × Input) :=
  (c, .request (.authorized (signAsync (.access customer) 0) endpoint) 0) ::
    List.replicate n (c, .run (draw 0 0 secret))

/-- The tests of `Undercuts` for user 1, over requests below `n`. -/
def undercutsBelow (n : ℕ) (e : Occurrence) : Bool :=
  (settingUp e.label.2 (e.pre.client e.label.1) = some 1 && totpOn 1 e.pre.data) ||
    (overwriting e.label.2 (e.pre.client e.label.1) = some 1 &&
      (List.range n).any fun c => enabling (e.pre.client c) = some 1)

theorem not_undercuts_of_below {env : Env} {s₀ : Shared} {tr : List Occurrence} {s : Service}
    (h : Run (AuthRuns.next env) (start s₀) tr s) {n : ℕ} (hn : ∀ e ∈ tr, e.label.1 < n)
    {e : Occurrence} (he : e ∈ tr) (hbelow : undercutsBelow n e = false) : ¬ Undercuts 1 e := by
  rw [undercutsBelow, Bool.or_eq_false_iff] at hbelow
  rintro (⟨hsetup, hon⟩ | ⟨hover, c, hc⟩)
  · rw [decide_eq_true hsetup, hon] at hbelow
    cases hbelow.1
  · have hlt : c < n := by
      by_contra hge
      have hidle := (run_untouched h (c := c) fun e' he' hec => hge (hec ▸ hn e' he')).2 e he
      rw [hidle] at hc
      cases hc
    rw [decide_eq_true hover, Bool.true_and, List.any_eq_false] at hbelow
    exact hbelow.2 c (List.mem_range.mpr hlt) (decide_eq_true hc)

/-- Set up, verified, turned off, set up and verified again. -/
def reEnrolled : List (ℕ × Input) :=
  calls 0 .setup2fa 3 "s1" ++ calls 1 (.verify2fa "s1") 3 "" ++ calls 2 (.disable2fa "s1") 3 "" ++
    calls 3 .setup2fa 3 "s2" ++ calls 4 (.verify2fa "s2") 3 ""

theorem never_downgraded_reEnrolled :
    ∃ tr s, Run (AuthRuns.next (plainEnv [])) (start unprotected) tr s ∧
      (∃ before e after, tr = before ++ e :: after ∧ TurnsOff 1 e ∧
        ∃ g ∈ before, ProvesForDisable (plainEnv []) 1 e.label.1 g) ∧
      storedSecret 1 s.data = some "s2" ∧
      Verified (plainEnv []) unprotected 1 tr (storedSecret 1 s.data) := by
  obtain ⟨tr, s, hrun, -, hs⟩ := Run.of_trace_map (AuthRuns.next (plainEnv [])) reEnrolled
    (start unprotected)
    (fun tr s => (decide (∀ e ∈ tr, e.label.1 < 5 ∧ undercutsBelow 5 e = false),
      decide (∃ e ∈ tr, TurnsOff 1 e), totpOn 1 s.data, storedSecret 1 s.data))
    (true, true, true, some "s2") (by decide)
  rw [Prod.mk.injEq, Prod.mk.injEq, Prod.mk.injEq, decide_eq_true_eq, decide_eq_true_eq] at hs
  obtain ⟨hchecked, ⟨e, he, hoff⟩, hon, hsecret⟩ := hs
  obtain ⟨before, after, htr⟩ := List.append_of_mem he
  have hundercuts : ∀ e ∈ tr, ¬ Undercuts 1 e := fun e he =>
    not_undercuts_of_below hrun (fun e he => (hchecked e he).1) he (hchecked e he).2
  have hnever := never_downgraded hrun hundercuts
  exact ⟨tr, s, hrun, ⟨before, e, after, htr, hoff, (hnever.1 before e after htr hoff).2⟩, hsecret,
    hnever.2 hon⟩

/-- A `setup` that has seen the factor off writes after another has been verified. -/
def lateSetup : List (ℕ × Input) :=
  calls 0 .setup2fa 2 "s1" ++ calls 1 .setup2fa 3 "s2" ++ calls 2 (.verify2fa "s2") 3 "" ++
    [(0, .run (draw 0 0 ""))]

/-- A verification sets the flag after the secret it checked has been replaced. -/
def lateVerification : List (ℕ × Input) :=
  calls 0 .setup2fa 3 "s1" ++ calls 1 (.verify2fa "s1") 2 "" ++ calls 2 .setup2fa 3 "s2" ++
    [(1, .run (draw 0 0 ""))]

theorem silently_downgraded :
    (∃ tr s, Run (AuthRuns.next (plainEnv [])) (start unprotected) tr s ∧
      (∃ e ∈ tr, TurnsOff 1 e) ∧
      ∀ e ∈ tr, ∀ c, disabling (e.pre.client c) = none) ∧
    ∃ tr s, Run (AuthRuns.next (plainEnv [])) (start unprotected) tr s ∧
      totpOn 1 s.data = true ∧ storedSecret 1 s.data = some "s2" ∧
      ∀ e ∈ tr, ¬ ChecksSecret (plainEnv []) 1 "s2" e := by
  constructor
  · obtain ⟨tr, s, hrun, -, hs⟩ := Run.of_trace_map (AuthRuns.next (plainEnv [])) lateSetup
      (start unprotected)
      (fun tr _ => (decide (∃ e ∈ tr, TurnsOff 1 e), decide (∀ e ∈ tr, e.label.1 < 3 ∧
        (List.range 3).all (fun c => disabling (e.pre.client c) = none) = true))) (true, true)
      (by decide)
    rw [Prod.mk.injEq, decide_eq_true_eq, decide_eq_true_eq] at hs
    refine ⟨tr, s, hrun, hs.1, fun e he => run_forall_client hrun (fun e he => (hs.2 e he).1)
      (C := fun p => disabling p = none) (fun _ => rfl) he fun c hc => ?_⟩
    have hbelow := List.all_eq_true.mp (hs.2 e he).2 c (List.mem_range.mpr hc)
    exact of_decide_eq_true hbelow
  · obtain ⟨tr, s, hrun, -, hs⟩ := Run.of_trace_map (AuthRuns.next (plainEnv [])) lateVerification
      (start unprotected)
      (fun tr s => (totpOn 1 s.data, storedSecret 1 s.data,
        decide (∀ e ∈ tr, ¬ ChecksSecret (plainEnv []) 1 "s2" e))) (true, some "s2", true)
      (by decide)
    rw [Prod.mk.injEq, Prod.mk.injEq, decide_eq_true_eq] at hs
    exact ⟨tr, s, hrun, hs⟩

end MaxOne.TwoFactorWrites
