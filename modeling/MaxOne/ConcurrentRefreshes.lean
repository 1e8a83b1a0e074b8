import MaxOne.AuthRuns

/-!
# Concurrent refreshes of one token

Parallel requests of one browser present the same refresh token. One of them
claims it; a request that loses the claim, or finds the token used, gets a
sibling pair, as long as it reads its clock less than 30 seconds after the claim.
`Presented` is the invariant of any number of such requests: where each of them
stands, that the token is claimed by at most one, and that every pair issued so
far is live and its own.
-/
namespace MaxOne.ConcurrentRefreshes
open Library Library.Runs Library.Interleaving MaxOne.Schema MaxOne.Accounts MaxOne.AuthService
  MaxOne.AuthMachine MaxOne.AuthRuns

/-- The token's `usedAt`; `none` when the row is gone. -/
def usedAtOf (s : Shared) (id : Uuid) : Option (Option Time) :=
  (s.refreshTokens.find id).map RefreshToken.usedAt

/-- The event writes the token's `usedAt`. -/
def setsUsedAt (id : Uuid) (e : Occurrence) : Bool :=
  usedAtOf e.pre.data id ≠ usedAtOf e.post.data id

/-- The statement is one of `rotate` for this token, and none is lost. -/
def Calls (raw : String) (e : Occurrence) : Prop :=
  e.label.2 ≠ .lost ∧ ∀ r now, e.label.2 = .request r now → r = .refresh raw

/-- The clock as `rotate` reads it with the row: before the token expires or, once
it is claimed, less than 30 seconds after the claim. -/
def Timely (token : RefreshToken) (raw : String) (e : Occurrence) : Prop :=
  ∀ d, e.label.2 = .run d → e.pre.client e.label.1 = .rotate raw →
    (usedAtOf e.pre.data token.id = some none → d.now ≤ token.expiresAt) ∧
      ∀ usedAt, usedAtOf e.pre.data token.id = some (some usedAt) → d.now < usedAt + reuseGrace

def userActive (s : Shared) (userId : Uuid) : Prop :=
  ∃ user, s.users.find userId = some user ∧ user.status = .active

/-- An event of another request leaves the family and the user's standing alone. -/
def Quiet (token : RefreshToken) (e : Occurrence) : Prop :=
  (∀ row : RefreshToken, row.familyId = token.familyId →
    (row ∈ e.post.data.refreshTokens.table.rows ↔ row ∈ e.pre.data.refreshTokens.table.rows)) ∧
  (userActive e.pre.data token.userId → userActive e.post.data token.userId)

/-- Where a call stands that has not ended. -/
inductive Stage (token : RefreshToken) (raw : String) (used : Prop) : Pc → Prop
  | idle : Stage token raw used .idle
  | rotate : Stage token raw used (.rotate raw)
  | claim (existing : RefreshToken) (user : User) (hid : existing.id = token.id)
      (hfamily : existing.familyId = token.familyId) (huser : user.id = token.userId) :
      Stage token raw used (.claim existing user)
  | issue (user : User) (huser : user.id = token.userId) (hused : used) :
      Stage token raw used (.issueTokens user (some token.familyId))

/-- The refresh token of a call that has returned a pair. -/
def pairOf : Pc → Option String
  | .done (.session none _ refreshToken) => some refreshToken
  | _ => none

/-- The pair's row: unused, of the token's user and family, and not the token itself. -/
def Live (env : Env) (token : RefreshToken) (s : Shared) (refreshToken : String) : Prop :=
  ∃ row ∈ s.refreshTokens.table.rows, row.tokenHash = env.sha256 refreshToken ∧
    row.usedAt = none ∧ row.userId = token.userId ∧ row.familyId = token.familyId ∧
    row.id ≠ token.id

/-- The token has been claimed. -/
def Used (s : Shared) (token : RefreshToken) : Prop :=
  ∃ usedAt, usedAtOf s token.id = some (some usedAt)

/-- A pair that has been issued, and for a claim. -/
structure Paired (env : Env) (token : RefreshToken) (s : Shared) (refreshToken : String) :
    Prop where
  live : Live env token s refreshToken
  issued : env.sha256 refreshToken ∈ s.issued.map Prod.fst
  used : Used s token

/-! ## One statement of a call -/

/-- What a statement of a call does: nothing to the sessions, or it issues a pair and
has claimed the token before if nobody had. -/
inductive Moves (env : Env) (token : RefreshToken) (raw : String) (p : Pc) (s : Shared) (q : Pc)
    (s' : Shared) : Prop
  | stays (htokens : s'.refreshTokens = s.refreshTokens) (husers : s'.users = s.users)
      (hissued : s'.issued = s.issued) (hq : q = p)
  | waits (htokens : s'.refreshTokens = s.refreshTokens) (husers : s'.users = s.users)
      (hissued : s'.issued = s.issued) (hstage : Stage token raw (Used s token) q)
  | pairs (d : Draw) (user : User) (hfresh : d.Fresh env s) (huser : user.id = token.userId)
      (hq : pairOf q = some d.refreshToken) (husers : s'.users = s.users)
      (hissued : s'.issued = (env.sha256 d.refreshToken, user.id) :: s.issued)
      (hnew : refreshTokenRow env d user token.familyId ∈ s'.refreshTokens.table.rows)
      (hkeep : ∀ row ∈ s.refreshTokens.table.rows, row.id ≠ token.id →
        row ∈ s'.refreshTokens.table.rows)
      (htoken : ∃ row, s'.refreshTokens.find token.id = some row ∧ SameToken token row)
      (hused : Used s' token) (hsame : Used s token → usedAtOf s' token.id = usedAtOf s token.id)

section Statement
variable {env : Env} {token : RefreshToken} {raw : String} {s : Shared} {d : Draw} {user : User}
  {familyId : Uuid}

theorem SameToken.setUsedAt {old row : RefreshToken} (h : SameToken old row)
    (usedAt : Option Time) : SameToken old { row with usedAt := usedAt } := by
  have hfields : row = { old with usedAt := row.usedAt } := h
  exact congrArg (fun r : RefreshToken => { r with usedAt := usedAt }) hfields

/-- A session with fresh draws can be inserted. -/
theorem insert_fresh_session {tokens : RefreshTokenTable}
    (hid : ∀ row ∈ tokens.table.rows, row.id ∈ s.drawn)
    (hhash : ∀ row ∈ tokens.table.rows, row.tokenHash ∈ s.issued.map Prod.fst)
    (hfresh : d.Fresh env s) :
    ∃ tokens', tokens.insert (refreshTokenRow env d user familyId) = some tokens' := by
  rw [← Option.ne_none_iff_exists']
  intro hrefused
  rcases IndexedTable.insert_refused hrefused with hkey | hindex
  · obtain ⟨row, hrow⟩ := Option.ne_none_iff_exists'.mp hkey
    have hmem := hid row (Table.mem_of_find hrow)
    rw [Table.find_key hrow] at hmem
    exact hfresh.1 hmem
  · obtain ⟨row, hrow⟩ := Option.ne_none_iff_exists'.mp hindex
    obtain ⟨hmem, hsame⟩ := IndexedTable.lookup_eq_some.mp hrow
    have hissued := hhash row hmem
    rw [hsame] at hissued
    exact hfresh.2.2.2 hissued

theorem Recorded.hash_issued (h : Recorded s) :
    ∀ row ∈ s.refreshTokens.table.rows, row.tokenHash ∈ s.issued.map Prod.fst :=
  fun row hrow => List.mem_map.mpr ⟨_, h.issued row hrow, rfl⟩

/-- The stored version of the token. -/
structure Stored (token : RefreshToken) (s : Shared) (row : RefreshToken) : Prop where
  find : s.refreshTokens.find token.id = some row
  same : SameToken token row

theorem Stored.usedAtOf_eq {row : RefreshToken} (h : Stored token s row) :
    usedAtOf s token.id = some row.usedAt := by
  rw [usedAtOf, h.find, Option.map_some]

theorem Stored.used_iff {row : RefreshToken} (h : Stored token s row) :
    Used s token ↔ row.usedAt ≠ none := by
  rw [Used, h.usedAtOf_eq]
  simp only [Option.some.injEq]
  exact Option.ne_none_iff_exists'.symm

/-- A sibling pair, next to the claimed token. -/
theorem issueTokens_moves {row : RefreshToken} (hrec : Recorded s) (hstored : Stored token s row)
    (hused : Used s token) (huser : user.id = token.userId) (hfresh : d.Fresh env s) :
    ∃ q s', issueTokens env d s user (some token.familyId) = (q, s') ∧
      Moves env token raw (.issueTokens user (some token.familyId)) s q s' := by
  obtain ⟨tokens, hinsert⟩ : ∃ tokens,
      s.refreshTokens.insert (refreshTokenRow env d user token.familyId) = some tokens :=
    insert_fresh_session hrec.id (Recorded.hash_issued hrec) hfresh
  have hkept : tokens.find token.id = some row := IndexedTable.find_insert_of_some hinsert hstored.find
  have hafter : usedAtOf (recordSession env d s user tokens) token.id = usedAtOf s token.id := by
    rw [hstored.usedAtOf_eq, usedAtOf, recordSession, hkept, Option.map_some]
  refine ⟨session d user (some token.familyId), recordSession env d s user tokens, ?_, ?_⟩
  · simp only [issueTokens, createSession, Option.getD_some, hinsert, Option.map_some]
  · refine .pairs d user hfresh huser ?_ rfl rfl ?_ ?_ ⟨row, hkept, hstored.same⟩ ?_ fun _ => hafter
    · simp [session, pairOf]
    · exact (IndexedTable.mem_insert hinsert).mpr (.inr rfl)
    · exact fun r hr _ => (IndexedTable.mem_insert hinsert).mpr (.inl hr)
    · rw [Used, hafter]
      exact hused

theorem useToken_origin {id : Uuid} {now : Time} :
    ∀ row ∈ (s.useToken id now).refreshTokens.table.rows,
      ∃ r ∈ s.refreshTokens.table.rows, row.id = r.id ∧ row.tokenHash = r.tokenHash := by
  intro row hrow
  rcases Shared.mem_useToken.mp hrow with ⟨hold, -⟩ | ⟨r, hr, rfl⟩
  · exact ⟨row, hold, rfl, rfl⟩
  · exact ⟨r, Table.mem_of_find hr, rfl, rfl⟩

theorem find_useToken {id : Uuid} {now : Time} {row : RefreshToken}
    (h : s.refreshTokens.find id = some row) :
    (s.useToken id now).refreshTokens.find id = some { row with usedAt := some now } := by
  rw [Shared.useToken, IndexedTable.find_modify, if_pos rfl, h, Option.map_some]

/-- The claim and its pair. -/
theorem claim_wins {existing row : RefreshToken} (hrec : Recorded s)
    (hstored : Stored token s row) (hunused : row.usedAt = none) (hid : existing.id = token.id)
    (hfamily : existing.familyId = token.familyId) (huser : user.id = token.userId)
    (hfresh : d.Fresh env s) : ∃ q s', claim env d s existing user = (q, s') ∧
      Moves env token raw (.claim existing user) s q s' := by
  have horigin : ∀ r ∈ (s.useToken existing.id d.now).refreshTokens.table.rows,
      ∃ r' ∈ s.refreshTokens.table.rows, r.id = r'.id ∧ r.tokenHash = r'.tokenHash :=
    useToken_origin
  obtain ⟨tokens, hinsert⟩ : ∃ tokens, (s.useToken existing.id d.now).refreshTokens.insert
      (refreshTokenRow env d user token.familyId) = some tokens := by
    refine insert_fresh_session (fun r hr => ?_) (fun r hr => ?_) hfresh
    · obtain ⟨r', hr', hkey, -⟩ := horigin r hr
      exact hkey ▸ hrec.id r' hr'
    · obtain ⟨r', hr', -, hhash⟩ := horigin r hr
      exact hhash ▸ Recorded.hash_issued hrec r' hr'
  have hclaimed : (s.useToken existing.id d.now).refreshTokens.find token.id =
      some { row with usedAt := some d.now } := hid ▸ find_useToken (hid ▸ hstored.find)
  have hkept := IndexedTable.find_insert_of_some hinsert hclaimed
  have hstored' : Stored token (recordSession env d (s.useToken existing.id d.now) user tokens)
      { row with usedAt := some d.now } := ⟨hkept, SameToken.setUsedAt hstored.same _⟩
  have hany : (s.refreshTokens.find existing.id).any (fun row => row.usedAt = none) = true := by
    rw [hid, hstored.find, Option.any_some]
    exact decide_eq_true hunused
  refine ⟨session d user (some token.familyId),
    recordSession env d (s.useToken existing.id d.now) user tokens, ?_,
    .pairs d user hfresh huser ?_ rfl rfl ?_ (fun r hr hne => ?_) ⟨_, hkept, hstored'.same⟩ ?_
      fun hused => ?_⟩
  · simp only [claim, hany, if_pos, hfamily, createSession, hinsert, Option.map_some]
  · simp [session, pairOf]
  · exact (IndexedTable.mem_insert hinsert).mpr (.inr rfl)
  · refine (IndexedTable.mem_insert hinsert).mpr (.inl (Shared.mem_useToken.mpr (.inl ⟨hr, ?_⟩)))
    rwa [hid]
  · exact hstored'.used_iff.mpr (Option.some_ne_none d.now)
  · exact absurd hunused (hstored.used_iff.mp hused)

theorem claim_moves {existing row : RefreshToken} (hrec : Recorded s)
    (hstored : Stored token s row) (hid : existing.id = token.id)
    (hfamily : existing.familyId = token.familyId) (huser : user.id = token.userId)
    (hfresh : d.Fresh env s) : ∃ q s', claim env d s existing user = (q, s') ∧
      Moves env token raw (.claim existing user) s q s' := by
  by_cases hunused : row.usedAt = none
  · exact claim_wins hrec hstored hunused hid hfamily huser hfresh
  · have hany : (s.refreshTokens.find existing.id).any (fun row => row.usedAt = none) = false := by
      rw [hid, hstored.find, Option.any_some]
      exact decide_eq_false hunused
    refine ⟨.issueTokens user (some token.familyId), s, ?_, .waits rfl rfl rfl ?_⟩
    · simp only [claim, hany, hfamily, Bool.false_eq_true, if_false]
    · exact .issue user huser (hstored.used_iff.mpr hunused)

/-- The read, and what it decides in time. -/
theorem rotate_moves {row : RefreshToken} (hstored : Stored token s row)
    (hhash : token.tokenHash = env.sha256 raw) (hactive : userActive s token.userId)
    (hexpires : usedAtOf s token.id = some none → d.now ≤ token.expiresAt)
    (hgrace : ∀ usedAt, usedAtOf s token.id = some (some usedAt) → d.now < usedAt + reuseGrace) :
    Moves env token raw (.rotate raw) s (rotate env d.now s raw) s := by
  obtain ⟨user, hfind, hstatus⟩ := hactive
  have hid : user.id = token.userId := Table.find_key hfind
  have hlookup : s.refreshTokens.lookup (env.sha256 raw) = some row :=
    IndexedTable.lookup_eq_some.mpr ⟨Table.mem_of_find hstored.find,
      hstored.same.tokenHash_eq.trans hhash⟩
  refine .waits rfl rfl rfl ?_
  cases hused : row.usedAt with
  | some usedAt =>
      have hin : d.now < usedAt + reuseGrace := hgrace usedAt (by rw [hstored.usedAtOf_eq, hused])
      have hread : rotate env d.now s raw = .issueTokens user (some row.familyId) := by
        simp only [rotate, hlookup, hstored.same.userId_eq, hfind, assertActive, hstatus, ne_eq,
          not_true, if_false, hused, if_pos hin]
      rw [hread, hstored.same.familyId_eq]
      refine .issue user hid (hstored.used_iff.mpr ?_)
      rw [hused]
      exact Option.some_ne_none usedAt
  | none =>
      have hlate : ¬ row.expiresAt < d.now := by
        have hsame : row.expiresAt = token.expiresAt := by rw [hstored.same]
        rw [hsame, not_lt]
        exact hexpires (by rw [hstored.usedAtOf_eq, hused])
      have hread : rotate env d.now s raw = .claim row user := by
        simp only [rotate, hlookup, hstored.same.userId_eq, hfind, assertActive, hstatus, ne_eq,
          not_true, if_false, hused, if_neg hlate]
      rw [hread]
      exact .claim row user hstored.same.id_eq hstored.same.familyId_eq hid

/-- Every statement of a call is one of these moves. -/
theorem call_moves {i : Input} {p q : Pc} {s' : Shared} {row : RefreshToken} (hrec : Recorded s)
    (hstored : Stored token s row) (hhash : token.tokenHash = env.sha256 raw)
    (hactive : userActive s token.userId)
    (hp : Stage token raw (Used s token) p ∨ ∃ refreshToken, pairOf p = some refreshToken)
    (h : step env i p s = some (q, s')) (hlost : i ≠ .lost)
    (hrequest : ∀ r now, i = .request r now → r = .refresh raw)
    (htimely : ∀ d, i = .run d → p = .rotate raw →
      (usedAtOf s token.id = some none → d.now ≤ token.expiresAt) ∧
        ∀ usedAt, usedAtOf s token.id = some (some usedAt) → d.now < usedAt + reuseGrace) :
    Moves env token raw p s q s' := by
  cases i with
  | request r now =>
      cases p with
      | idle =>
          cases h
          rw [hrequest r now rfl]
          exact .waits rfl rfl rfl .rotate
      | _ => cases h
  | run d =>
      rcases hp with hstage | ⟨refreshToken, hpair⟩
      · cases hstage with
        | idle => cases h
        | rotate =>
            obtain ⟨hexpires, hgrace⟩ := htimely d rfl rfl
            cases h
            exact rotate_moves hstored hhash hactive hexpires hgrace
        | claim existing user hid hfamily huser =>
            simp only [step, statement] at h
            split_ifs at h with hfresh
            obtain ⟨q', s₁, hclaim, hmoves⟩ :=
              claim_moves hrec hstored hid hfamily huser hfresh
            rw [hclaim] at h
            cases h
            exact hmoves
        | issue user huser hused =>
            simp only [step, statement] at h
            split_ifs at h with hfresh
            obtain ⟨q', s₁, hissue, hmoves⟩ := issueTokens_moves hrec hstored hused huser hfresh
            rw [hissue] at h
            cases h
            exact hmoves
      · cases p with
        | done => cases h
        | _ => cases hpair
  | lost => exact absurd rfl hlost
  | money db =>
      cases h
      exact .stays rfl rfl rfl rfl

/-! ## What an event keeps -/

/-- What no event of the run takes away: the user's standing, the token's row, the
pairs that have been issued, and every other row of the family. -/
structure Keeps (env : Env) (token : RefreshToken) (s s' : Shared) : Prop where
  active : userActive s' token.userId
  stored : ∃ row, Stored token s' row
  live : ∀ refreshToken, Live env token s refreshToken → Live env token s' refreshToken
  issued : ∀ hash ∈ s.issued.map Prod.fst, hash ∈ s'.issued.map Prod.fst
  used : Used s token → usedAtOf s' token.id = usedAtOf s token.id
  family : ∀ row ∈ s.refreshTokens.table.rows, row.familyId = token.familyId →
    ∃ row' ∈ s'.refreshTokens.table.rows, SameToken row row'

section Keeps
variable {s' : Shared} {row : RefreshToken}

theorem Keeps.of_same (hstored : Stored token s row) (hactive : userActive s token.userId)
    (htokens : s'.refreshTokens = s.refreshTokens) (husers : s'.users = s.users)
    (hissued : s'.issued = s.issued) : Keeps env token s s' where
  active := by
    rw [userActive, husers]
    exact hactive
  stored := ⟨row, by rw [htokens]; exact hstored.find, hstored.same⟩
  live refreshToken hlive := by
    rw [Live, htokens]
    exact hlive
  issued hash hmem := by rwa [hissued]
  used _ := by rw [usedAtOf, htokens, usedAtOf]
  family r hr _ := ⟨r, by rwa [htokens], .refl r⟩

theorem Keeps.of_quiet {i : Input} {p q : Pc} (hstored : Stored token s row)
    (hactive : userActive s token.userId) (hstatement : AuthMachine.Statement env s i p q s')
    (hrows : ∀ row : RefreshToken, row.familyId = token.familyId →
      (row ∈ s'.refreshTokens.table.rows ↔ row ∈ s.refreshTokens.table.rows))
    (huser : userActive s token.userId → userActive s' token.userId) : Keeps env token s s' := by
  have hmem := (hrows row hstored.same.familyId_eq).mpr (Table.mem_of_find hstored.find)
  have hfind : s'.refreshTokens.find token.id = some row :=
    hstored.same.id_eq ▸ Table.find_of_mem hmem
  refine ⟨huser hactive, ⟨row, hfind, hstored.same⟩, ?_, fun hash hhash => ?_, fun _ => ?_,
    fun r hr hfamily => ⟨r, (hrows r hfamily).mpr hr, .refl r⟩⟩
  · rintro refreshToken ⟨r, hr, hrest⟩
    exact ⟨r, (hrows r hrest.2.2.2.1).mpr hr, hrest⟩
  · obtain ⟨issued, hissued, rfl⟩ := List.mem_map.mp hhash
    exact List.mem_map_of_mem (issued_mono hstatement hissued)
  · rw [hstored.usedAtOf_eq, usedAtOf, hfind, Option.map_some]

theorem Keeps.of_moves {p q : Pc} (hstored : Stored token s row)
    (hactive : userActive s token.userId) (h : Moves env token raw p s q s') :
    Keeps env token s s' := by
  cases h with
  | stays htokens husers hissued => exact .of_same hstored hactive htokens husers hissued
  | waits htokens husers hissued => exact .of_same hstored hactive htokens husers hissued
  | pairs d user hfresh huser hq husers hissued hnew hkeep htoken hused hsame =>
      obtain ⟨row', hfind, hrow'⟩ := htoken
      refine ⟨by rw [userActive, husers]; exact hactive, ⟨row', hfind, hrow'⟩, ?_, ?_, hsame, ?_⟩
      · rintro refreshToken ⟨r, hr, hhash, hunused, hu, hf, hne⟩
        exact ⟨r, hkeep r hr hne, hhash, hunused, hu, hf, hne⟩
      · intro hash hhash
        rw [hissued, List.map_cons]
        exact List.mem_cons_of_mem _ hhash
      · intro r hr _
        by_cases hid : r.id = token.id
        · have hr' : r = row := Table.eq_of_key hr (Table.mem_of_find hstored.find)
            (hid.trans hstored.same.id_eq.symm)
          subst hr'
          refine ⟨row', Table.mem_of_find hfind, ?_⟩
          have hfields : r = { token with usedAt := r.usedAt } := hstored.same
          have hfields' : row' = { token with usedAt := row'.usedAt } := hrow'
          rw [SameToken, hfields, hfields']
        · exact ⟨r, hkeep r hr hid, .refl r⟩

end Keeps

/-! ## How many statements a call has -/

def rank : Pc → ℕ
  | .idle => 4
  | .rotate _ => 3
  | .claim .. => 2
  | .issueTokens .. => 1
  | _ => 0

def isMoney : Input → Bool
  | .money _ => true
  | _ => false

theorem rank_lt {i : Input} {p q : Pc} {s' : Shared} {used : Prop}
    (hp : Stage token raw used p) (h : AuthMachine.Statement env s i p q s')
    (hmoney : isMoney i = false) (hrequest : ∀ r now, i = .request r now → r = .refresh raw) :
    rank q < rank p := by
  cases hp with
  | idle =>
      cases h with
      | receives r now =>
          rw [hrequest r now rfl]
          exact Nat.lt_succ_self 3
      | fails => exact Nat.succ_pos 3
      | money => cases hmoney
  | rotate =>
      cases h with
      | siblings => exact (by decide : 1 < 3)
      | rotates => exact Nat.lt_succ_self 2
      | replayed | expired | fails => exact Nat.succ_pos 2
      | money => cases hmoney
  | claim =>
      cases h with
      | loses => exact Nat.lt_succ_self 1
      | claims | fails => exact Nat.succ_pos 1
      | money => cases hmoney
  | issue =>
      cases h with
      | issues | fails => exact Nat.one_pos
      | money => cases hmoney

end Statement

theorem money_same {env : Env} {i : Input} {p q : Pc} {s s' : Shared}
    (h : step env i p s = some (q, s')) (hmoney : isMoney i = true) : q = p := by
  cases i with
  | money db =>
      cases h
      rfl
  | _ => cases hmoney

/-- A call that has returned executes nothing more. -/
theorem pair_ended {env : Env} {i : Input} {p q : Pc} {s s' : Shared} {refreshToken : String}
    (hp : pairOf p = some refreshToken) (h : step env i p s = some (q, s')) :
    isMoney i = true := by
  cases p with
  | done response =>
      cases i with
      | money => rfl
      | _ => cases h
  | _ => cases hp

/-! ## The invariant -/

/-- The statements of call `c` so far. -/
def statementsOf (c : ℕ) (tr : List Occurrence) : List Occurrence :=
  tr.filter fun e => e.label.1 = c ∧ isMoney e.label.2 = false

/-- No row of the family is deleted. -/
def KeepsFamily (token : RefreshToken) (e : Occurrence) : Prop :=
  ∀ row ∈ e.pre.data.refreshTokens.table.rows, row.familyId = token.familyId →
    ∃ row' ∈ e.post.data.refreshTokens.table.rows, SameToken row row'

/-- `n` calls present the token. -/
structure Presented (env : Env) (s₀ : Shared) (token : RefreshToken) (raw : String) (n : ℕ)
    (tr : List Occurrence) (s : Service) : Prop where
  run : Run (AuthRuns.next env) (start s₀) tr s
  active : userActive s.data token.userId
  stored : ∃ row, Stored token s.data row
  unclaimed : ¬ Used s.data token → tr.filter (setsUsedAt token.id) = []
  claimed : Used s.data token → ∃ e, tr.filter (setsUsedAt token.id) = [e] ∧ e.label.1 < n
  calls : ∀ c < n, Stage token raw (Used s.data token) (s.client c) ∨
    ∃ refreshToken, pairOf (s.client c) = some refreshToken ∧ Paired env token s.data refreshToken
  distinct : ∀ c < n, ∀ c' < n, ∀ r ∈ pairOf (s.client c), ∀ r' ∈ pairOf (s.client c'),
    env.sha256 r = env.sha256 r' → c = c'
  spent : ∀ c < n, (statementsOf c tr).length + rank (s.client c) ≤ 4
  family : ∀ e ∈ tr, KeepsFamily token e

theorem Stage.mono {token : RefreshToken} {raw : String} {used used' : Prop} {p : Pc}
    (h : Stage token raw used p) (hused : used → used') : Stage token raw used' p := by
  cases h with
  | idle => exact .idle
  | rotate => exact .rotate
  | claim existing user hid hfamily huser => exact .claim existing user hid hfamily huser
  | issue user huser hold => exact .issue user huser (hused hold)

theorem pairOf_stage {token : RefreshToken} {raw : String} {used : Prop} {p : Pc}
    (h : Stage token raw used p) : pairOf p = none := by
  cases h <;> rfl

section Event
variable {env : Env} {s₀ : Shared} {token : RefreshToken} {raw : String} {n : ℕ}
  {tr : List Occurrence} {s t : Service} {l : ℕ × Input}

theorem Keeps.used_mono {s s' : Shared} (h : Keeps env token s s') (hused : Used s token) :
    Used s' token := by
  have hsame := h.used hused
  rw [Used, hsame]
  exact hused

/-- A token is claimed, or it is not, and the row tells. -/
theorem usedAtOf_unused {s : Shared} {row : RefreshToken} (hstored : Stored token s row)
    (hunused : ¬ Used s token) : usedAtOf s token.id = some none := by
  rw [hstored.used_iff, not_not] at hunused
  rw [hstored.usedAtOf_eq, hunused]

theorem statementsOf_other {c : ℕ} (hc : c ≠ l.1) :
    statementsOf c (tr ++ [⟨s, l, t⟩]) = statementsOf c tr := by
  have hne : ¬ l.1 = c := fun h => hc h.symm
  rw [statementsOf, List.filter_append, statementsOf]
  simp [hne]

theorem statementsOf_le (c : ℕ) :
    (statementsOf c (tr ++ [⟨s, l, t⟩])).length ≤ (statementsOf c tr).length + 1 := by
  rw [statementsOf, List.filter_append, List.length_append]
  exact Nat.add_le_add_left (List.length_filter_le _ _) _

theorem statementsOf_money {c : ℕ} (hmoney : isMoney l.2 = true) :
    statementsOf c (tr ++ [⟨s, l, t⟩]) = statementsOf c tr := by
  rw [statementsOf, List.filter_append, statementsOf]
  simp [hmoney]

theorem Paired.keep {s s' : Shared} {refreshToken : String} (h : Paired env token s refreshToken)
    (hkeeps : Keeps env token s s') : Paired env token s' refreshToken :=
  ⟨hkeeps.live _ h.live, hkeeps.issued _ h.issued, hkeeps.used_mono h.used⟩

theorem used_congr {s s' : Shared} (h : usedAtOf s' token.id = usedAtOf s token.id) :
    Used s' token ↔ Used s token := by
  rw [Used, Used, h]

/-- What the mover of an event has to show for its new state. -/
def Advances (env : Env) (token : RefreshToken) (raw : String) (p : Pc) (s : Shared) (q : Pc)
    (s' : Shared) : Prop :=
  Stage token raw (Used s' token) q ∨ ∃ refreshToken, pairOf q = some refreshToken ∧
    Paired env token s' refreshToken ∧
    (pairOf p = some refreshToken ∨ env.sha256 refreshToken ∉ s.issued.map Prod.fst)

theorem Moves.advances {p q : Pc} {s s' : Shared} (h : Moves env token raw p s q s')
    (hkeeps : Keeps env token s s') (hrec : Recorded s) {row : RefreshToken}
    (hstored : Stored token s row)
    (hp : Stage token raw (Used s token) p ∨ ∃ refreshToken, pairOf p = some refreshToken ∧
      Paired env token s refreshToken) : Advances env token raw p s q s' := by
  cases h with
  | stays htokens husers hissued hq =>
      rw [hq]
      rcases hp with hstage | ⟨refreshToken, hpair, hpaired⟩
      · exact .inl (hstage.mono hkeeps.used_mono)
      · exact .inr ⟨refreshToken, hpair, hpaired.keep hkeeps, .inl hpair⟩
  | waits htokens husers hissued hstage => exact .inl (hstage.mono hkeeps.used_mono)
  | pairs d user hfresh huser hq husers hissued hnew hkeep htoken hused =>
      refine .inr ⟨d.refreshToken, hq, ⟨?_, ?_, hused⟩, .inr hfresh.2.2.2⟩
      · refine ⟨_, hnew, rfl, rfl, huser, rfl, fun hid => hfresh.1 ?_⟩
        have hmem := hrec.id row (Table.mem_of_find hstored.find)
        rwa [hstored.same.id_eq, ← hid] at hmem
      · rw [hissued, List.map_cons]
        exact List.mem_cons_self

theorem Moves.used {p q : Pc} {s s' : Shared} (h : Moves env token raw p s q s') :
    usedAtOf s' token.id = usedAtOf s token.id ∨ (¬ Used s token ∧ Used s' token) := by
  cases h with
  | stays htokens => exact .inl (by rw [usedAtOf, htokens, usedAtOf])
  | waits htokens => exact .inl (by rw [usedAtOf, htokens, usedAtOf])
  | pairs d user hfresh huser hq husers hissued hnew hkeep htoken hused hsame =>
      by_cases hold : Used s token
      · exact .inl (hsame hold)
      · exact .inr ⟨hold, hused⟩

/-- The pair of a call has been issued. -/
theorem Presented.pair_issued (h : Presented env s₀ token raw n tr s) {c : ℕ} (hc : c < n)
    {r : String} (hr : r ∈ pairOf (s.client c)) : env.sha256 r ∈ s.data.issued.map Prod.fst := by
  rcases h.calls c hc with hstage | ⟨refreshToken, hpair, hpaired⟩
  · rw [pairOf_stage hstage] at hr
    cases hr
  · obtain rfl : refreshToken = r := Option.some.inj (hpair.symm.trans hr)
    exact hpaired.issued

/-- A pair the mover shows was its own before, or is fresh. -/
theorem Advances.pair {p q : Pc} {s s' : Shared} (h : Advances env token raw p s q s') {r : String}
    (hr : r ∈ pairOf q) : r ∈ pairOf p ∨ env.sha256 r ∉ s.issued.map Prod.fst := by
  rcases h with hstage | ⟨refreshToken, hpair, -, hfrom⟩
  · rw [pairOf_stage hstage] at hr
    cases hr
  · obtain rfl : refreshToken = r := Option.some.inj (hpair.symm.trans hr)
    exact hfrom

/-- The invariant after an event, from what the event keeps and what its mover shows. -/
theorem Presented.advance (h : Presented env s₀ token raw n tr s)
    (hn : AuthRuns.next env l s = some t) (hkeeps : Keeps env token s.data t.data)
    (hused : usedAtOf t.data token.id = usedAtOf s.data token.id ∨
      (¬ Used s.data token ∧ Used t.data token ∧ l.1 < n))
    (hmover : l.1 < n →
      Advances env token raw (s.client l.1) s.data (t.client l.1) t.data)
    (hspent : l.1 < n →
      (statementsOf l.1 (tr ++ [⟨s, l, t⟩])).length + rank (t.client l.1) ≤ 4) :
    Presented env s₀ token raw n (tr ++ [⟨s, l, t⟩]) t := by
  have hother : ∀ c, c ≠ l.1 → t.client c = s.client c := fun c hc => next_other hn hc
  have hset : ∀ e : Occurrence, (tr ++ [e]).filter (setsUsedAt token.id) =
      tr.filter (setsUsedAt token.id) ++ if setsUsedAt token.id e then [e] else [] := by
    intro e
    rw [List.filter_append, List.filter_cons, List.filter_nil]
  refine
    { run := h.run.step l hn
      active := hkeeps.active
      stored := hkeeps.stored
      unclaimed := fun hnot => ?_
      claimed := fun hclaimed => ?_
      calls := fun c hc => ?_
      distinct := fun c hc c' hc' r hr r' hr' hsame => ?_
      spent := fun c hc => ?_
      family := fun e he => ?_ }
  · have hnot' : ¬ Used s.data token := fun hold => hnot (hkeeps.used_mono hold)
    rcases hused with heq | ⟨-, hnow, -⟩
    · rw [hset, h.unclaimed hnot', if_neg (by simp [setsUsedAt, heq]), List.append_nil]
    · exact absurd hnow hnot
  · rcases hused with heq | ⟨hnot, hnow, hl⟩
    · obtain ⟨e, he, hmoved⟩ := h.claimed ((used_congr heq).mp hclaimed)
      refine ⟨e, ?_, hmoved⟩
      rw [hset, he, if_neg (by simp [setsUsedAt, heq]), List.append_nil]
    · have hsets : setsUsedAt token.id ⟨s, l, t⟩ = true := by
        obtain ⟨row, hstored⟩ := h.stored
        obtain ⟨usedAt, hu⟩ := hnow
        simp [setsUsedAt, usedAtOf_unused hstored hnot, hu]
      refine ⟨⟨s, l, t⟩, ?_, hl⟩
      rw [hset, h.unclaimed hnot, if_pos hsets, List.nil_append]
  · by_cases hcl : c = l.1
    · subst hcl
      rcases hmover hc with hstage | ⟨refreshToken, hpair, hpaired, -⟩
      · exact .inl hstage
      · exact .inr ⟨refreshToken, hpair, hpaired⟩
    · rw [hother c hcl]
      rcases h.calls c hc with hstage | ⟨refreshToken, hpair, hpaired⟩
      · exact .inl (hstage.mono hkeeps.used_mono)
      · exact .inr ⟨refreshToken, hpair, hpaired.keep hkeeps⟩
  · -- a fresh pair differs from every pair that has been issued
    have hmixed : ∀ d < n, d ≠ l.1 → l.1 < n → ∀ r ∈ pairOf (t.client l.1),
        ∀ r' ∈ pairOf (t.client d), env.sha256 r = env.sha256 r' → l.1 = d := by
      intro d hd hdl hl r hr r' hr' hsame
      rw [hother d hdl] at hr'
      rcases (hmover hl).pair hr with hold | hfresh
      · exact h.distinct l.1 hl d hd r hold r' hr' hsame
      · rw [hsame] at hfresh
        exact absurd (h.pair_issued hd hr') hfresh
    by_cases hcl : c = l.1
    · subst hcl
      by_cases hcl' : c' = l.1
      · exact hcl'.symm
      · exact hmixed c' hc' hcl' hc r hr r' hr' hsame
    · by_cases hcl' : c' = l.1
      · subst hcl'
        exact (hmixed c hc hcl hc' r' hr' r hr hsame.symm).symm
      · rw [hother c hcl] at hr
        rw [hother c' hcl'] at hr'
        exact h.distinct c hc c' hc' r hr r' hr' hsame
  · by_cases hcl : c = l.1
    · subst hcl
      exact hspent hc
    · rw [hother c hcl, statementsOf_other hcl]
      exact h.spent c hc
  · rcases List.mem_append.mp he with he | he
    · exact h.family e he
    · rw [List.mem_singleton] at he
      subst he
      exact hkeeps.family

theorem Presented.event (hhash : token.tokenHash = env.sha256 raw)
    (h : Presented env s₀ token raw n tr s) (hn : AuthRuns.next env l s = some t)
    (hcalls : l.1 < n → Calls raw ⟨s, l, t⟩) (htimely : l.1 < n → Timely token raw ⟨s, l, t⟩)
    (hquiet : n ≤ l.1 → Quiet token ⟨s, l, t⟩) :
    Presented env s₀ token raw n (tr ++ [⟨s, l, t⟩]) t := by
  have hrec := (run_recorded h.run).data
  obtain ⟨row, hstored⟩ := h.stored
  have hnext := hn
  obtain ⟨q, d, hstep, ht⟩ := next_cases hn
  have hdata : t.data = d := by rw [ht]
  have hclient : t.client l.1 = q := by rw [ht]; exact Function.update_self _ _ _
  have hstatement := step_statement hstep
  by_cases hl : l.1 < n
  · have hstage : Stage token raw (Used s.data token) (s.client l.1) ∨
        ∃ refreshToken, pairOf (s.client l.1) = some refreshToken := by
      rcases h.calls l.1 hl with hstage | ⟨refreshToken, hpair, -⟩
      · exact .inl hstage
      · exact .inr ⟨refreshToken, hpair⟩
    obtain ⟨hlost, hrequest⟩ := hcalls hl
    have hmoves := call_moves hrec hstored hhash h.active hstage hstep hlost hrequest
      fun d' hd hp => htimely hl d' hd hp
    have hkeeps := Keeps.of_moves hstored h.active hmoves
    rw [← hdata] at hkeeps
    refine h.advance hnext hkeeps ?_ (fun _ => ?_) fun _ => ?_
    · rw [hdata]
      exact hmoves.used.imp_right fun hused => ⟨hused.1, hused.2, hl⟩
    · rw [hdata] at hkeeps ⊢
      rw [hclient]
      exact hmoves.advances hkeeps hrec hstored (h.calls l.1 hl)
    · rw [hclient]
      have hspent := h.spent l.1 hl
      cases hmoney : isMoney l.2 with
      | true =>
          rw [statementsOf_money hmoney, money_same hstep hmoney]
          exact hspent
      | false =>
          have hle : (statementsOf l.1 (tr ++ [⟨s, l, t⟩])).length ≤
              (statementsOf l.1 tr).length + 1 := statementsOf_le l.1
          have hlt : rank q < rank (s.client l.1) := by
            rcases hstage with hstage | ⟨refreshToken, hpair⟩
            · exact rank_lt hstage hstatement hmoney hrequest
            · rw [pair_ended hpair hstep] at hmoney
              cases hmoney
          omega
  · obtain ⟨hrows, huser⟩ := hquiet (not_lt.mp hl)
    simp only [hdata] at hrows huser
    have hkeeps := Keeps.of_quiet hstored h.active hstatement hrows huser
    have hfind : d.refreshTokens.find token.id = some row := by
      have hmem := (hrows row hstored.same.familyId_eq).mpr (Table.mem_of_find hstored.find)
      exact hstored.same.id_eq ▸ Table.find_of_mem hmem
    rw [← hdata] at hkeeps hfind
    refine h.advance hnext hkeeps (.inl ?_) (fun hlt => absurd hlt hl) fun hlt => absurd hlt hl
    rw [hstored.usedAtOf_eq, usedAtOf, hfind, Option.map_some]

theorem start_presented (htoken : token ∈ s₀.refreshTokens.table.rows)
    (hunused : token.usedAt = none) (hactive : userActive s₀ token.userId) :
    Presented env s₀ token raw n [] (start s₀) := by
  have hstored : Stored token (start s₀).data token := ⟨Table.find_of_mem htoken, .refl token⟩
  have hnot : ¬ Used (start s₀).data token := by
    rw [hstored.used_iff, not_not]
    exact hunused
  exact
    { run := .start
      active := hactive
      stored := ⟨token, hstored⟩
      unclaimed := fun _ => rfl
      claimed := fun hused => absurd hused hnot
      calls := fun _ _ => .inl .idle
      distinct := fun _ _ _ _ _ hr => by cases hr
      spent := fun _ _ => le_rfl
      family := fun _ he => absurd he List.not_mem_nil }

def Ended (p : Pc) : Prop := (∃ response, p = .done response) ∨ ∃ e, p = .failed e

theorem not_ended_stage {used : Prop} {p : Pc} (h : Stage token raw used p) : ¬ Ended p := by
  rintro (⟨response, rfl⟩ | ⟨e, rfl⟩) <;> cases h

/-- A call that has not ended can execute its next statement. -/
theorem stage_moves {used : Prop} {c : ℕ} (h : Stage token raw used (s.client c)) {d : Draw}
    (hfresh : d.Fresh env s.data) :
    ∃ i t, (i = .run d ∨ i = .request (.refresh raw) d.now) ∧
      AuthRuns.next env (c, i) s = some t := by
  generalize hp : s.client c = p at h
  cases h with
  | idle =>
      have hstep : step env (.request (.refresh raw) d.now) (s.client c) s.data =
          some (.rotate raw, s.data) := by rw [hp, step, receive]
      exact ⟨_, _, .inr rfl, next_of_step hstep⟩
  | rotate =>
      have hstep : step env (.run d) (s.client c) s.data =
          some (rotate env d.now s.data raw, s.data) := by rw [hp, step, statement]
      exact ⟨_, _, .inl rfl, next_of_step hstep⟩
  | claim existing user =>
      have hstep : step env (.run d) (s.client c) s.data =
          some (claim env d s.data existing user) := by rw [hp, step, statement, if_pos hfresh]
      exact ⟨_, _, .inl rfl, next_of_step hstep⟩
  | issue user =>
      have hstep : step env (.run d) (s.client c) s.data =
          some (issueTokens env d s.data user (some token.familyId)) := by
        rw [hp, step, statement, if_pos hfresh]
      exact ⟨_, _, .inl rfl, next_of_step hstep⟩

end Event

/-- Any number of calls that present one token in time, whatever happens to other
families meanwhile: each has at most four statements, no row of the family is
deleted, and when all have ended all have returned a pair of their own, live and of
the token's user and family, and exactly one of them has claimed the token. -/
theorem concurrent_refreshes {env : Env} {s₀ : Shared} {token : RefreshToken} {raw : String}
    {n : ℕ} {tr : List Occurrence} {s : Service} (h : Run (AuthRuns.next env) (start s₀) tr s)
    (htoken : token ∈ s₀.refreshTokens.table.rows) (hunused : token.usedAt = none)
    (hactive : userActive s₀ token.userId) (hhash : token.tokenHash = env.sha256 raw)
    (hcalls : ∀ e ∈ tr, e.label.1 < n → Calls raw e)
    (htimely : ∀ e ∈ tr, e.label.1 < n → Timely token raw e)
    (hquiet : ∀ e ∈ tr, n ≤ e.label.1 → Quiet token e) :
    (∀ c < n, (statementsOf c tr).length ≤ 4 ∧ (Ended (s.client c) ∨ ∀ d, d.Fresh env s.data →
      ∃ i t, (i = .run d ∨ i = .request (.refresh raw) d.now) ∧
        AuthRuns.next env (c, i) s = some t)) ∧
    (∀ e ∈ tr, KeepsFamily token e) ∧
    ((∀ c < n, Ended (s.client c)) →
      (∀ c < n, ∃ r, pairOf (s.client c) = some r ∧ Live env token s.data r) ∧
      (∀ c < n, ∀ c' < n, c ≠ c' → pairOf (s.client c) ≠ pairOf (s.client c')) ∧
      (0 < n → ∃ e, tr.filter (setsUsedAt token.id) = [e] ∧ e.label.1 < n)) := by
  have hpresented : Presented env s₀ token raw n tr s := h.history
    (fun e => (e.label.1 < n → Calls raw e) ∧ (e.label.1 < n → Timely token raw e) ∧
      (n ≤ e.label.1 → Quiet token e))
    (Presented env s₀ token raw n) (start_presented htoken hunused hactive)
    (fun tr l s t hi hn hc => hi.event hhash hn hc.1 hc.2.1 hc.2.2)
    (fun e he => ⟨hcalls e he, htimely e he, hquiet e he⟩)
  refine ⟨fun c hc => ⟨?_, ?_⟩, hpresented.family, fun hended => ?_⟩
  · exact (Nat.le_add_right _ _).trans (hpresented.spent c hc)
  · rcases hpresented.calls c hc with hstage | ⟨r, hpair, -⟩
    · exact .inr fun d hfresh => stage_moves hstage hfresh
    · refine .inl (.inl ?_)
      unfold pairOf at hpair
      split at hpair
      · next hdone => exact ⟨_, hdone⟩
      · cases hpair
  · have hpairs : ∀ c < n, ∃ r, pairOf (s.client c) = some r ∧ Paired env token s.data r := by
      intro c hc
      rcases hpresented.calls c hc with hstage | hpair
      · exact absurd (hended c hc) (not_ended_stage hstage)
      · exact hpair
    refine ⟨fun c hc => ?_, fun c hc c' hc' hne hsame => ?_, fun hpos => ?_⟩
    · obtain ⟨r, hpair, hpaired⟩ := hpairs c hc
      exact ⟨r, hpair, hpaired.live⟩
    · obtain ⟨r, hpair, -⟩ := hpairs c hc
      exact hne (hpresented.distinct c hc c' hc' r hpair r (hsame ▸ hpair) rfl)
    · obtain ⟨r, -, hpaired⟩ := hpairs 0 hpos
      exact hpresented.claimed hpaired.used

/-! ## Three tabs -/

/-- `Calls`, as a check. -/
def isCall (raw : String) : Input → Bool
  | .request (.refresh r) _ => r = raw
  | .request .. | .lost => false
  | _ => true

theorem calls_of_check {raw : String} {e : Occurrence} (h : isCall raw e.label.2 = true) :
    Calls raw e := by
  refine ⟨fun hlost => ?_, fun r now hrequest => ?_⟩
  · rw [hlost] at h
    cases h
  · rw [hrequest] at h
    cases r <;> first | (exact congrArg Request.refresh (of_decide_eq_true h)) | cases h

/-- `Timely`, as a check. -/
def inTime (token : RefreshToken) (e : Occurrence) : Bool :=
  match e.label.2, usedAtOf e.pre.data token.id with
  | .run d, some none => d.now ≤ token.expiresAt
  | .run d, some (some usedAt) => d.now < usedAt + reuseGrace
  | _, _ => true

theorem timely_of_check {token : RefreshToken} {raw : String} {e : Occurrence}
    (h : inTime token e = true) : Timely token raw e := by
  intro d hd _
  rw [inTime, hd] at h
  refine ⟨fun hnone => ?_, fun usedAt hused => ?_⟩
  · rw [hnone] at h
    exact of_decide_eq_true h
  · rw [hused] at h
    exact of_decide_eq_true h

def ended : Pc → Bool
  | .done _ | .failed _ => true
  | _ => false

theorem ended_of_check {n : ℕ} {s : Service}
    (h : ((List.range n).all fun c => ended (s.client c)) = true) : ∀ c < n, Ended (s.client c) := by
  intro c hc
  have hended := List.all_eq_true.mp h c (List.mem_range.mpr hc)
  generalize s.client c = p at hended
  cases p with
  | done response => exact .inl ⟨response, rfl⟩
  | failed e => exact .inr ⟨e, rfl⟩
  | _ => cases hended

/-- The session of user 1. -/
def token : RefreshToken where
  id := 10
  tokenHash := "first"
  familyId := 11
  usedAt := none
  userId := 1
  expiresAt := 604800000

def signedIn : Shared :=
  { usersOnly [account 1 "a" userRole false] with
    refreshTokens := (IndexedTable.empty.insert token).getD .empty }

/-- The first call claims the token, the second one has read it before, the third one
finds it used 19 seconds later. -/
def threeTabs : List (ℕ × Input) :=
  [(0, .request (.refresh "first") 1000), (1, .request (.refresh "first") 1000),
    (0, .run (draw 1000 0 "")), (1, .run (draw 1000 0 "")),
    (0, .run (draw 1000 20 "a")), (1, .run (draw 1001 22 "b")), (1, .run (draw 1002 22 "b")),
    (2, .request (.refresh "first") 20000), (2, .run (draw 20000 0 "")),
    (2, .run (draw 20000 24 "c"))]

theorem concurrent_refreshes_tabs :
    ∃ tr s, Run (AuthRuns.next (plainEnv [])) (start signedIn) tr s ∧
      pairOf (s.client 1) = some "b" ∧
      (∀ c < 3, ∃ r, pairOf (s.client c) = some r ∧ Live (plainEnv []) token s.data r) ∧
      ∃ e, tr.filter (setsUsedAt 10) = [e] ∧ e.label.1 < 3 := by
  obtain ⟨tr, s, hrun, -, hs⟩ := Run.of_trace_map (AuthRuns.next (plainEnv [])) threeTabs
    (start signedIn)
    (fun tr s => (tr.all fun e => decide (e.label.1 < 3) && isCall "first" e.label.2 &&
      inTime token e, decide (((List.range 3).all fun c => ended (s.client c)) = true ∧
        pairOf (s.client 1) = some "b"))) (true, true) (by decide)
  rw [Prod.mk.injEq, List.all_eq_true, decide_eq_true_eq] at hs
  simp only [Bool.and_eq_true, decide_eq_true_eq] at hs
  obtain ⟨hchecked, hended, hpair⟩ := hs
  have hrefreshes := @concurrent_refreshes (plainEnv []) signedIn token "first" 3 tr s hrun
    (List.mem_singleton_self token) rfl ⟨account 1 "a" userRole false, rfl, rfl⟩ rfl
    (fun e he _ => calls_of_check (hchecked e he).1.2)
    (fun e he _ => timely_of_check (hchecked e he).2)
    (fun e he hn => absurd (hchecked e he).1.1 (not_lt.mpr hn))
  obtain ⟨hpairs, -, hclaimed⟩ := hrefreshes.2.2 (ended_of_check hended)
  exact ⟨tr, s, hrun, hpair, hpairs, hclaimed (by decide)⟩

/-- The second call starts 29.999 seconds after the claim and reads the row a
millisecond later. -/
def slowRead : List (ℕ × Input) :=
  [(0, .request (.refresh "first") 1000), (0, .run (draw 1000 0 "")),
    (0, .run (draw 1000 20 "a")),
    (1, .request (.refresh "first") 30999), (1, .run (draw 31000 0 "")),
    (1, .run (draw 31000 0 ""))]

theorem slow_read_revokes :
    ∃ tr s, Run (AuthRuns.next (plainEnv [])) (start signedIn) tr s ∧
      (∀ e ∈ tr, e.label.1 < 2 ∧ Calls "first" e) ∧
      (∃ e ∈ tr, usedAtOf e.post.data 10 = some (some 1000)) ∧
      (∀ e ∈ tr, ∀ r now, e.label.2 = .request r now → now < 1000 + reuseGrace) ∧
      (∀ e ∈ tr, ∀ d, e.label.2 = .run d → d.now < token.expiresAt) ∧
      (∀ c < 2, Ended (s.client c)) ∧ s.data.refreshTokens.table.rows = [] ∧
      ¬ ∀ c < 2, ∃ r, pairOf (s.client c) = some r := by
  obtain ⟨tr, s, hrun, -, hs⟩ := Run.of_trace_map (AuthRuns.next (plainEnv [])) slowRead
    (start signedIn)
    (fun tr s => (tr.all fun e => decide (e.label.1 < 2) && isCall "first" e.label.2 &&
      (match e.label.2 with
      | .request _ now => now < 1000 + reuseGrace
      | .run d => d.now < token.expiresAt
      | _ => true),
      decide ((∃ e ∈ tr, usedAtOf e.post.data 10 = some (some 1000)) ∧
        ((List.range 2).all fun c => ended (s.client c)) = true ∧ s.data.refreshTokens.table.rows = [] ∧
          pairOf (s.client 1) = none))) (true, true) (by decide)
  rw [Prod.mk.injEq, List.all_eq_true, decide_eq_true_eq] at hs
  simp only [Bool.and_eq_true, decide_eq_true_eq] at hs
  obtain ⟨hchecked, hclaimed, hended, hrows, hnone⟩ := hs
  refine ⟨tr, s, hrun, fun e he => ⟨(hchecked e he).1.1, calls_of_check (hchecked e he).1.2⟩,
    hclaimed, fun e he r now hrequest => ?_, fun e he d hd => ?_,
    ended_of_check hended, hrows, fun hpairs => ?_⟩
  · have hclock := (hchecked e he).2
    rw [hrequest] at hclock
    exact of_decide_eq_true hclock
  · have hclock := (hchecked e he).2
    rw [hd] at hclock
    exact of_decide_eq_true hclock
  · obtain ⟨r, hr⟩ := hpairs 1 (by decide)
    rw [hnone] at hr
    cases hr

end MaxOne.ConcurrentRefreshes
