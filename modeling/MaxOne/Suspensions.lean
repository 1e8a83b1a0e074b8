import MaxOne.AuthRuns
import Mathlib.Data.List.TakeWhile

/-!
# Suspension and sessions

`updateStatus` deletes the refresh tokens of the user it suspends, in the
transaction of the suspension. Every route that issues tokens has checked the
status on a row it read before, so a request that was past its check when the
suspension committed still inserts its token. Without such a request the
suspended user has no token until it is set active again, and no token issued
before is ever rotated.
-/
namespace MaxOne.Suspensions
open Library Library.Runs Library.Interleaving MaxOne.Schema MaxOne.Accounts MaxOne.AuthService
  MaxOne.AuthMachine MaxOne.AuthRuns

/-- The user whose status a statement commits, and the status. -/
def statusCommit : Pc → Pc → Option (Uuid × UserStatus)
  | .writeUser _ id (.status status) _, .done _ => some (id, status)
  | _, _ => none

def SetsStatus (userId : Uuid) (status : UserStatus) (e : Occurrence) : Prop :=
  statusCommit (e.pre.client e.label.1) (e.post.client e.label.1) = some (userId, status)

instance (userId : Uuid) (status : UserStatus) : DecidablePred (SetsStatus userId status) :=
  fun e => inferInstanceAs (Decidable (statusCommit (e.pre.client e.label.1)
    (e.post.client e.label.1) = some (userId, status)))

/-- A request has found the user active and will issue a session without looking again. -/
def holdsActive (userId : Uuid) : Pc → Bool
  | .issueTokens user _ | .claim _ user => user.id = userId
  | .proveFactor _ _ (.login user) | .readRecoveryHashes _ _ (.login user)
  | .writeRecoveryHashes _ _ _ (.login user) => user.id = userId ∧ user.status = .active
  | _ => false

/-- No request is past its status check when a suspension commits. -/
def Undisturbed (e : Occurrence) : Prop :=
  ∀ userId, SetsStatus userId .suspended e → ∀ c, holdsActive userId (e.pre.client c) = false

/-- The same for requests below `n`, as a check. -/
def undisturbedBelow (n : ℕ) (e : Occurrence) : Bool :=
  (statusCommit (e.pre.client e.label.1) (e.post.client e.label.1)).all fun commit =>
    commit.2 = .active || (List.range n).all fun c => !holdsActive commit.1 (e.pre.client c)

theorem undisturbed_of_below {env : Env} {s₀ : Shared} {tr : List Occurrence} {s : Service}
    (h : Run (AuthRuns.next env) (start s₀) tr s) {n : ℕ} (hn : ∀ e ∈ tr, e.label.1 < n)
    {e : Occurrence} (he : e ∈ tr) (hbelow : undisturbedBelow n e = true) : Undisturbed e := by
  intro userId hset
  rw [SetsStatus] at hset
  rw [undisturbedBelow, hset, Option.all_some, Bool.or_eq_true] at hbelow
  have hclients := hbelow.resolve_left (by simp)
  rw [List.all_eq_true] at hclients
  refine run_forall_client h hn (C := fun p => holdsActive userId p = false) (fun _ => rfl) he ?_
  intro c hc
  simpa using hclients c (List.mem_range.mpr hc)

section Statement
variable {env : Env} {i : Input} {p q : Pc} {s s' : Shared} {userId : Uuid}

theorem holdsActive_of_pending {user : User} {familyId : Option Uuid}
    (h : pendingSession p = some (user, familyId)) : holdsActive user.id p = true := by
  cases p <;> cases h <;> simp [holdsActive]

theorem holdsActive_entry (h : entry p = true) : holdsActive userId p = false := by
  cases p with
  | proveFactor id code k => cases k <;> first | rfl | cases h
  | _ => first | rfl | cases h

/-- A statement changes the status of a user only by committing it. -/
theorem status_change (h : Statement env s i p q s') {user : User}
    (hfind : s.users.find userId = some user) :
    ∃ user', s'.users.find userId = some user' ∧
      (user'.status = user.status ∨ statusCommit p q = some (userId, user'.status)) := by
  rcases users_change h hfind with hsame | ⟨d, u, hi, hpending, hset⟩
  · exact ⟨user, hsame, .inl rfl⟩
  · refine ⟨u.set user, hset, ?_⟩
    cases p with
    | setTotpPending actor secret => cases hpending; exact .inl rfl
    | enableTotp id codes => cases hpending; exact .inl rfl
    | writeRecoveryHashes id hash remaining k => cases hpending; exact .inl rfl
    | disableTotp id => cases hpending; exact .inl rfl
    | writeUser actor id change before =>
        cases hpending
        cases change with
        | role role => exact .inl rfl
        | status status =>
            cases h with
            | patches => exact .inr rfl
            | fails =>
                rw [hfind] at hset
                exact .inl (congrArg User.status (Option.some.inj hset)).symm
            | money => cases hi
    | _ => cases hpending

theorem holdsActive_proved {id : Uuid} {k : ProofOf}
    (h : holdsActive userId (proved id k) = true) :
    ∃ user, k = .login user ∧ user.id = userId ∧ user.status = .active := by
  revert h
  exact proved_rule (P := (holdsActive userId · = true →
      ∃ user, k = .login user ∧ user.id = userId ∧ user.status = .active)) nofun
    (fun user hk ha h => ⟨user, hk, of_decide_eq_true h, ha⟩) (fun _ => nofun) fun _ => nofun

/-- Only a read of an active user takes a request past its check. -/
theorem holdsActive_change (h : Statement env s i p q s') (hq : holdsActive userId q = true) :
    holdsActive userId p = true ∨ s.users.find userId = none ∨
      ∃ user, s.users.find userId = some user ∧ user.status = .active := by
  have hread : ∀ {id : Uuid} {user : User}, s.users.find id = some user → user.status = .active →
      user.id = userId → s.users.find userId = none ∨
        ∃ user, s.users.find userId = some user ∧ user.status = .active := by
    intro id user hfind hactive hid
    have hkey : user.id = id := Table.find_key hfind
    exact .inr ⟨user, by rw [← hid, hkey]; exact hfind, hactive⟩
  cases h with
  | receives r now =>
      rw [holdsActive_entry (entry_receive r)] at hq
      cases hq
  | money => exact .inl hq
  | registers d dto role users hinsert =>
      have hid : (newUser d dto role).id = userId := of_decide_eq_true hq
      have hnew := Table.insert_fresh (IndexedTable.insert_table hinsert)
      rw [hid] at hnew
      exact .inr (.inl hnew)
  | logsIn d dto user hfind hactive => exact .inr (hread hfind hactive (of_decide_eq_true hq))
  | secondStep d id code user hfind =>
      have hholds : user.id = userId ∧ user.status = .active := of_decide_eq_true hq
      exact .inr (hread hfind hholds.2 hholds.1)
  | passkeyUser d id user hfind hactive =>
      exact .inr (hread hfind hactive (of_decide_eq_true hq))
  | siblings d refreshToken row user hrow hfind hactive =>
      exact .inr (hread hfind hactive (of_decide_eq_true hq))
  | rotates d refreshToken row user hrow hfind hactive =>
      exact .inr (hread hfind hactive (of_decide_eq_true hq))
  | loses => exact .inl hq
  | authenticates =>
      rw [holdsActive_entry (entry_dispatch _ _)] at hq
      cases hq
  | provesTotp d id code k =>
      obtain ⟨user, rfl, hid, hactive⟩ := holdsActive_proved hq
      exact .inl (decide_eq_true ⟨hid, hactive⟩)
  | provesRecovery d id code k => cases k <;> exact .inl hq
  | readsHashes d id hash k => cases k <;> exact .inl hq
  | consumes d id hash remaining k =>
      obtain ⟨user, rfl, hid, hactive⟩ := holdsActive_proved hq
      exact .inl (decide_eq_true ⟨hid, hactive⟩)
  | counts d id id' counter k => cases k <;> cases hq
  | permits d actor id patch =>
      rcases patchUser_cases env actor id patch with ⟨e, he⟩ | ⟨change, he⟩ <;>
        rw [he] at hq <;> cases hq
  | _ => cases hq

end Statement

/-! ## While the user is suspended -/

structure Cut (userId : Uuid) (t : Service) : Prop where
  suspended : ∃ user, t.data.users.find userId = some user ∧ user.status = .suspended
  rows : ∀ row ∈ t.data.refreshTokens.table.rows, row.userId ≠ userId
  quiet : ∀ c, holdsActive userId (t.client c) = false

/-- None of these tokens is stored, or will be. -/
structure Buried (hashes : List String) (t : Service) : Prop where
  issued : ∀ hash ∈ hashes, hash ∈ t.data.issued.map Prod.fst
  rows : ∀ row ∈ t.data.refreshTokens.table.rows, row.tokenHash ∉ hashes

section Run
variable {env : Env} {userId : Uuid} {hashes : List String} {l : ℕ × Input} {s t : Service}

theorem Cut.next (h : Cut userId s) (hn : AuthRuns.next env l s = some t)
    (hset : ¬ SetsStatus userId .active ⟨s, l, t⟩) : Cut userId t := by
  obtain ⟨q, s', hstep, rfl⟩ := next_cases hn
  have hstatement := step_statement hstep
  obtain ⟨user, hfind, hsuspended⟩ := h.suspended
  refine ⟨?_, fun row hrow => ?_, fun c => ?_⟩
  · obtain ⟨user', hfind', hstatus⟩ := status_change hstatement hfind
    refine ⟨user', hfind', ?_⟩
    rcases hstatus with hsame | hcommit
    · rw [hsame, hsuspended]
    · cases hvalue : user'.status with
      | suspended => rfl
      | active =>
          rw [hvalue] at hcommit
          exact absurd (by simpa [SetsStatus] using hcommit) hset
  · rcases tokens_change hstatement hrow with ⟨old, hold, hsame⟩ | ⟨d, owner, family, hissues, rfl⟩
    · rw [hsame.userId_eq]
      exact h.rows old hold
    · rintro rfl
      have hholds := holdsActive_of_pending hissues.pending
      rw [← Bool.not_eq_false] at hholds
      exact hholds (h.quiet l.1)
  · by_cases hc : c = l.1
    · subst hc
      simp only [Function.update_self]
      by_contra hholds
      rw [Bool.not_eq_false] at hholds
      rcases holdsActive_change hstatement hholds with hp | hnone | ⟨reader, hread, hactive⟩
      · rw [h.quiet l.1] at hp
        cases hp
      · rw [hfind] at hnone
        cases hnone
      · rw [hfind] at hread
        cases hread
        rw [hsuspended] at hactive
        cases hactive
    · simp only [Function.update_of_ne hc]
      exact h.quiet c

theorem Buried.next (h : Buried hashes s) (hn : AuthRuns.next env l s = some t) :
    Buried hashes t := by
  obtain ⟨q, s', hstep, rfl⟩ := next_cases hn
  have hstatement := step_statement hstep
  refine ⟨fun hash hmem => ?_, fun row hrow => ?_⟩
  · obtain ⟨token, htoken, rfl⟩ := List.mem_map.mp (h.issued hash hmem)
    exact List.mem_map_of_mem (issued_mono hstatement htoken)
  · rcases tokens_change hstatement hrow with ⟨old, hold, hsame⟩ | ⟨d, owner, family, hissues, rfl⟩
    · rw [hsame.tokenHash_eq]
      exact h.rows old hold
    · intro hmem
      exact hissues.fresh.2.2.2 (h.issued _ hmem)

theorem SetsStatus.commits {status : UserStatus} {e : Occurrence}
    (h : SetsStatus userId status e) : ∃ actor before r,
      e.pre.client e.label.1 = .writeUser actor userId (.status status) before ∧
        e.post.client e.label.1 = .done r := by
  unfold SetsStatus statusCommit at h
  split at h
  · next actor id value before r hpre hpost =>
      cases h
      exact ⟨actor, before, r, hpre, hpost⟩
  · cases h

/-- The suspension itself. -/
theorem SetsStatus.cut {e : Occurrence} (hset : SetsStatus userId .suspended e)
    (hquiet : Undisturbed e) (hn : AuthRuns.next env e.label e.pre = some e.post) :
    Cut userId e.post := by
  have hothers := hquiet userId hset
  obtain ⟨actor, before, r, hpre, hpost⟩ := hset.commits
  obtain ⟨q, s', hstep, he⟩ := next_cases hn
  have hq : q = .done r := by
    rw [he] at hpost
    simpa only [Function.update_self] using hpost
  have hstatement := step_statement hstep
  rw [hpre, hq] at hstatement
  rw [he]
  generalize e.label.2 = i at hstatement
  cases hstatement with
  | patches d _ _ _ _ user auditLogs hfind haudit =>
      refine ⟨⟨{ user with status := .suspended }, ?_, rfl⟩, fun row hrow => ?_, fun c => ?_⟩
      · simp only [sweep_users, Shared.find_setUser, if_true, hfind]
        rfl
      · exact (mem_sweep.mp hrow).2 rfl
      · by_cases hc : c = e.label.1
        · subst hc
          simp only [Function.update_self, hq]
          rfl
        · simp only [Function.update_of_ne hc]
          exact hothers c

/-- Every token the user has been issued is buried with the suspension. -/
theorem Cut.buried (h : Cut userId t) (hrecorded : Recorded t.data) :
    Buried ((t.data.issued.filter fun token => token.2 = userId).map Prod.fst) t where
  issued hash hmem := by
    obtain ⟨token, htoken, rfl⟩ := List.mem_map.mp hmem
    exact List.mem_map_of_mem (List.mem_filter.mp htoken).1
  rows row hrow hmem := by
    obtain ⟨token, htoken, hhash⟩ := List.mem_map.mp hmem
    obtain ⟨hissued, hid⟩ := List.mem_filter.mp htoken
    have hsame : token = (row.tokenHash, row.userId) :=
      List.inj_on_of_nodup_map hrecorded.unique hissued (hrecorded.issued row hrow) hhash
    have howner : token.2 = userId := of_decide_eq_true hid
    rw [hsame] at howner
    exact h.rows row hrow howner

theorem issued_stays {tr : List Occurrence} {token : String × Uuid}
    (h : Run (AuthRuns.next env) s tr t) (htoken : token ∈ s.data.issued) :
    token ∈ t.data.issued := by
  refine h.invariant (fun s => token ∈ s.data.issued) htoken fun l s t hi hn => ?_
  obtain ⟨q, s', hstep, rfl⟩ := next_cases hn
  exact issued_mono (step_statement hstep) hi

end Run

/-- When no request is past its status check at the suspension, the user has no
refresh token from the suspension until it is set active again, and no refresh
token issued until then is ever rotated. -/
theorem suspension_cuts_sessions {env : Env} {s₀ : Shared} {tr : List Occurrence} {s : Service}
    (h : Run (AuthRuns.next env) (start s₀) tr s) (hquiet : ∀ e ∈ tr, Undisturbed e)
    {before mid after : List Occurrence} {e : Occurrence}
    (htr : tr = before ++ e :: (mid ++ after)) {userId : Uuid}
    (hsuspends : SetsStatus userId .suspended e)
    (hmid : ∀ e' ∈ mid, ¬ SetsStatus userId .active e') :
    (∀ t, t = e.post ∨ (∃ e' ∈ mid, t = e'.post) →
      ∀ row ∈ t.data.refreshTokens.table.rows, row.userId ≠ userId) ∧
    ∀ x ∈ after, ∀ y ∈ before ++ e :: mid, ∀ refreshToken d,
      (env.sha256 refreshToken, userId) ∈ y.post.data.issued →
      x.pre.client x.label.1 = .rotate refreshToken → x.label.2 = .run d →
        x.post.client x.label.1 = .failed (unauthorized "Invalid refresh token") := by
  have he : e ∈ tr := by rw [htr]; simp
  have hcut : Cut userId e.post := hsuspends.cut (hquiet e he) (h.event_next e he)
  obtain ⟨hbefore, hrest⟩ := h.split htr
  obtain ⟨t, hmidrun, hafter⟩ := hrest.split_append rfl
  have hheld := hmidrun.invariant_events (fun e' => ¬ SetsStatus userId .active e') (Cut userId)
    hcut (fun l s t hi hn hc => hi.next hn hc) hmid
  have hfirst : Run (AuthRuns.next env) (start s₀) (before ++ e :: mid) t := by
    have hstep := Run.step e.label hbefore (h.event_next e he)
    simpa using hstep.trans hmidrun
  constructor
  · rintro u (rfl | ⟨e', he', rfl⟩)
    · exact hcut.rows
    · exact (hheld.2 e' he').2.rows
  · intro x hx y hy refreshToken d hissued hpc hd
    have hissuedt : (env.sha256 refreshToken, userId) ∈ t.data.issued := by
      obtain ⟨pre, post, hsplit⟩ := List.append_of_mem hy
      exact issued_stays (hfirst.split hsplit).2 hissued
    have hburied := hafter.invariant_events (fun _ => True) (Buried _)
      (hheld.1.buried (run_recorded hfirst).data) (fun l s t hi hn _ => hi.next hn)
      fun _ _ => trivial
    obtain ⟨q, s', hstep, hpost⟩ := next_cases (hafter.event_next x hx)
    rw [hpc, hd] at hstep
    cases hstep
    rw [hpost]
    simp only [Function.update_self]
    have hnone : x.pre.data.refreshTokens.lookup (env.sha256 refreshToken) = none := by
      rw [IndexedTable.lookup_eq_none]
      intro row hrow hhash
      have hrows := (hburied.2 x hx).1.rows row hrow
      rw [hhash] at hrows
      exact hrows (List.mem_map.mpr ⟨_, List.mem_filter.mpr ⟨hissuedt, by simp⟩, rfl⟩)
    rw [rotate, hnone]

/-- A customer, and a member of staff who holds an access token. -/
def members : Shared :=
  { usersOnly [account 1 "a" userRole false, staff 2 "b" "admin"] with
    minted := [signAsync (.access (staff 2 "b" "admin")) 0] }

/-- Login, suspension, a refresh, re-activation and another refresh. -/
def suspendAndReactivate : List (ℕ × Input) :=
  passwordLogin 0 "a" 0 10 "first" ++
  patchBy 1 (staff 2 "b" "admin") 0 1 (.status .suspended) 50 ++
  [(2, .request (.refresh "first") 0), (2, .run (draw 0 0 ""))] ++
  patchBy 3 (staff 2 "b" "admin") 0 1 (.status .active) 51 ++
  [(4, .request (.refresh "first") 0), (4, .run (draw 0 0 ""))]

theorem suspension_cuts_sessions_reactivated :
    ∃ tr s, Run (AuthRuns.next (plainEnv [])) (start members) tr s ∧
      ∃ before e mid after, tr = before ++ e :: (mid ++ after) ∧ SetsStatus 1 .suspended e ∧
        (∀ t, t = e.post ∨ (∃ e' ∈ mid, t = e'.post) →
          ∀ row ∈ t.data.refreshTokens.table.rows, row.userId ≠ 1) ∧
        ∀ x ∈ after, ∀ y ∈ before ++ e :: mid, ∀ refreshToken d,
          (refreshToken, 1) ∈ y.post.data.issued →
          x.pre.client x.label.1 = .rotate refreshToken → x.label.2 = .run d →
            x.post.client x.label.1 = .failed (unauthorized "Invalid refresh token") := by
  obtain ⟨tr, s, hrun, -, hs⟩ := Run.of_trace_map (AuthRuns.next (plainEnv []))
    suspendAndReactivate (start members)
    (fun tr _ => (decide (∃ e ∈ tr, SetsStatus 1 .suspended e),
      decide (∀ e ∈ tr, e.label.1 < 5 ∧ undisturbedBelow 5 e = true))) (true, true) (by decide)
  rw [Prod.mk.injEq, decide_eq_true_eq, decide_eq_true_eq] at hs
  obtain ⟨⟨e, he, hsuspends⟩, hchecked⟩ := hs
  obtain ⟨before, rest, htr⟩ := List.append_of_mem he
  have hrest := List.takeWhile_append_dropWhile (p := fun e => decide (¬ SetsStatus 1 .active e))
    (l := rest)
  rw [← hrest] at htr
  refine ⟨tr, s, hrun, before, e, _, _, htr, hsuspends, suspension_cuts_sessions hrun
    (fun e he => undisturbed_of_below hrun (fun e he => (hchecked e he).1) he (hchecked e he).2)
    htr hsuspends fun e' he' => ?_⟩
  have hkept := List.mem_takeWhile_imp he'
  simpa using hkept

/-- A login has read its user when the suspension commits, and inserts its token after it. -/
def lateLogin : List (ℕ × Input) :=
  [(0, .request (.login ⟨"a", "password"⟩) 0), (0, .run (draw 0 0 ""))] ++
  patchBy 1 (staff 2 "b" "admin") 0 1 (.status .suspended) 50 ++
  [(0, .run (draw 0 10 "first"))]

theorem token_survives_suspension :
    ∃ tr s, Run (AuthRuns.next (plainEnv [])) (start members) tr s ∧
      (∃ e ∈ tr, SetsStatus 1 .suspended e) ∧ (∀ e ∈ tr, ¬ SetsStatus 1 .active e) ∧
      s.data.refreshTokens.table.rows.map RefreshToken.userId = [1] ∧
      ¬ ∀ before e mid after, tr = before ++ e :: (mid ++ after) → SetsStatus 1 .suspended e →
        (∀ e' ∈ mid, ¬ SetsStatus 1 .active e') →
          ∀ t, t = e.post ∨ (∃ e' ∈ mid, t = e'.post) →
            ∀ row ∈ t.data.refreshTokens.table.rows, row.userId ≠ 1 := by
  obtain ⟨tr, s, hrun, -, hs⟩ := Run.of_trace_map (AuthRuns.next (plainEnv [])) lateLogin
    (start members)
    (fun tr s => (decide ((∃ e ∈ tr, SetsStatus 1 .suspended e) ∧
      ∀ e ∈ tr, ¬ SetsStatus 1 .active e), s.data.refreshTokens.table.rows.map RefreshToken.userId))
    (true, [1]) (by decide)
  rw [Prod.mk.injEq, decide_eq_true_eq] at hs
  obtain ⟨⟨⟨e, he, hsuspends⟩, hnever⟩, hrows⟩ := hs
  refine ⟨tr, s, hrun, ⟨e, he, hsuspends⟩, hnever, hrows, fun hcut => ?_⟩
  obtain ⟨before, after, htr⟩ := List.append_of_mem he
  have hnone := hcut before e after [] (by rw [List.append_nil]; exact htr) hsuspends
    (fun e' he' => hnever e' (by rw [htr]; simp [he'])) s (hrun.split htr).2.end_eq
  have huser : 1 ∈ s.data.refreshTokens.table.rows.map RefreshToken.userId := by
    rw [hrows]
    exact List.mem_singleton_self 1
  obtain ⟨row, hrow, hid⟩ := List.mem_map.mp huser
  exact hnone row hrow hid

end MaxOne.Suspensions
