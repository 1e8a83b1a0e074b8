import MaxOne.EdgeSessions

/-!
# The tokens a browser keeps

Pages, prefetches and writes of one browser refresh side by side, each with the
token it was sent with. The service takes a token back for 30 seconds after its
first use; so as long as no answer takes half of that, no request of the browser
ever presents a token that the service treats as stolen. `Kept` is the invariant
of the browser, the requests under way and the service together.
-/
namespace MaxOne.EdgeTokens
open Library Library.Runs Library.Interleaving MaxOne.Schema MaxOne.Accounts MaxOne.AuthService
  MaxOne.AuthMachine MaxOne.AuthRuns MaxOne.ConcurrentRefreshes MaxOne.EdgeSessions

/-- A session of the service, and the time its first token expires. -/
structure Session where
  familyId : Uuid
  userId : Uuid
  expiresAt : Time

/-! ## The tokens of the session -/

/-- The token is one of the session's. -/
structure Held (env : Env) (σ : Session) (s : Shared) (r : String) (row : RefreshToken) :
    Prop where
  nonempty : r ≠ ""
  lookup : s.refreshTokens.lookup (env.sha256 r) = some row
  family : row.familyId = σ.familyId
  user : row.userId = σ.userId
  expires : σ.expiresAt ≤ row.expiresAt

/-- Every token stays, and stays as used as it was; at most `spent` is used for the
first time, now. -/
def Passes (env : Env) (σ : Session) (spent : Option String) (now : Time) (s s' : Shared) : Prop :=
  ∀ r row, Held env σ s r row → ∃ row', Held env σ s' r row' ∧ row'.id = row.id ∧
    (row'.usedAt = row.usedAt ∨ (∃ raw ∈ spent, env.sha256 r = env.sha256 raw) ∧
      row.usedAt = none ∧ row'.usedAt = some now)

/-- The pair a refresh has just drawn. -/
def Fresh (env : Env) (σ : Session) (s s' : Shared) (r : String) : Prop :=
  (∃ row, Held env σ s' r row ∧ row.usedAt = none) ∧
    ∀ r' row, Held env σ s r' row → env.sha256 r' ≠ env.sha256 r

/-- Events of others leave the session and the user's standing alone. -/
def Quiet (σ : Session) (s s' : Shared) : Prop :=
  (∀ row : RefreshToken, row.familyId = σ.familyId →
    (row ∈ s'.refreshTokens.table.rows ↔ row ∈ s.refreshTokens.table.rows)) ∧
  (userActive s σ.userId → userActive s' σ.userId)

section Tokens
variable {env : Env} {σ : Session} {s s' : Shared} {r raw : String} {row : RefreshToken}
  {now : Time} {i : Input} {p q : Pc}

theorem Held.mem (h : Held env σ s r row) : row ∈ s.refreshTokens.table.rows :=
  (IndexedTable.lookup_eq_some.mp h.lookup).1

theorem Held.hash (h : Held env σ s r row) : row.tokenHash = env.sha256 r :=
  (IndexedTable.lookup_eq_some.mp h.lookup).2

theorem Held.stored (h : Held env σ s r row) : Stored row s row :=
  ⟨Table.find_of_mem h.mem, .refl row⟩

theorem Held.unique {row' : RefreshToken} (h : Held env σ s r row) (h' : Held env σ s r row') :
    row = row' := Option.some.inj (h.lookup.symm.trans h'.lookup)

theorem Held.used_iff (h : Held env σ s r row) : Used s row ↔ row.usedAt ≠ none :=
  h.stored.used_iff

/-- The same row under another version, found in other tables. -/
theorem Held.move {row' : RefreshToken} (h : Held env σ s r row) (hsame : SameToken row row')
    (hmem : row' ∈ s'.refreshTokens.table.rows) : Held env σ s' r row' where
  nonempty := h.nonempty
  lookup := IndexedTable.lookup_eq_some.mpr ⟨hmem, hsame.tokenHash_eq.trans h.hash⟩
  family := hsame.familyId_eq.trans h.family
  user := hsame.userId_eq.trans h.user
  expires := by
    have hexpires : row'.expiresAt = row.expiresAt := by rw [hsame]
    rw [hexpires]
    exact h.expires

theorem Passes.of_same (h : s'.refreshTokens = s.refreshTokens) : Passes env σ none now s s' :=
  fun _ row hrow => ⟨row, hrow.move (.refl row) (h ▸ hrow.mem), rfl, .inl rfl⟩

theorem Passes.of_quiet (h : Quiet σ s s') : Passes env σ none now s s' :=
  fun _ row hrow => ⟨row, hrow.move (.refl row) ((h.1 row hrow.family).mpr hrow.mem), rfl, .inl rfl⟩

/-- The only time a token can be stamped with is the clock of the statement. -/
theorem usedAt_change (h : AuthMachine.Statement env s i p q s') {usedAt : Time}
    (hrow : row ∈ s'.refreshTokens.table.rows) (hused : row.usedAt = some usedAt) :
    (∃ old ∈ s.refreshTokens.table.rows, old.id = row.id ∧ old.usedAt = some usedAt) ∨
      ∃ d, i = .run d ∧ usedAt = d.now := by
  cases h with
  | issues d user familyId refreshTokens hfresh hinsert =>
      rcases (IndexedTable.mem_insert hinsert).mp hrow with hold | hnew
      · exact .inl ⟨row, hold, rfl, hused⟩
      · rw [hnew] at hused
        cases hused
  | claims d existing old user refreshTokens hfresh hfind hunused hinsert =>
      rcases (IndexedTable.mem_insert hinsert).mp hrow with hold | hnew
      · rcases Shared.mem_useToken.mp hold with ⟨hold, -⟩ | ⟨r, hr, rfl⟩
        · exact .inl ⟨row, hold, rfl, hused⟩
        · exact .inr ⟨d, rfl, (Option.some.inj hused).symm⟩
      · rw [hnew] at hused
        cases hused
  | patches => exact .inl ⟨row, (mem_sweep.mp hrow).1, rfl, hused⟩
  | revokesFamily => exact .inl ⟨row, (Shared.mem_deleteTokens.mp hrow).1, rfl, hused⟩
  | cleansUp => exact .inl ⟨row, (Shared.mem_deleteTokens.mp hrow).1, rfl, hused⟩
  | logsOut => exact .inl ⟨row, (Shared.mem_deleteTokens.mp hrow).1, rfl, hused⟩
  | _ => exact .inl ⟨row, hrow, rfl, hused⟩

theorem pairOf_done (h : pairOf p = some r) : ∃ access, p = .done (.session none access r) := by
  unfold pairOf at h
  split at h
  · cases h
    exact ⟨_, rfl⟩
  · cases h

/-- A pair that a statement of a refresh returns is the one it draws and signs, for the
user of the token. -/
theorem stage_session {used : Prop} {identity : Option PublicUser} {access : Jwt}
    {drawn : String}
    (hstage : Stage row raw used p) (hstep : step env i p s = some (q, s'))
    (hrequest : ∀ r now, i = .request r now → r = .refresh raw)
    (hq : q = .done (.session identity access drawn)) :
    (∃ d, i = .run d ∧ drawn = d.refreshToken) ∧ access ∈ s'.minted ∧
      access.claims.sub = some row.userId := by
  have hstatement := step_statement hstep
  cases hstage with
  | idle =>
      cases hstatement with
      | receives r now =>
          rw [hrequest r now rfl] at hq
          cases hq
      | _ => cases hq
  | rotate => cases hstatement <;> cases hq
  | claim existing user hid hfamily huser =>
      cases hstatement with
      | claims d =>
          cases hq
          exact ⟨⟨d, rfl, rfl⟩, List.mem_cons_self, congrArg some huser⟩
      | _ => cases hq
  | issue user huser hused =>
      cases hstatement with
      | issues d =>
          cases hq
          exact ⟨⟨d, rfl, rfl⟩, List.mem_cons_self, congrArg some huser⟩
      | _ => cases hq

/-- A statement of one of the browser's refreshes, in time. -/
theorem own_statement (hrec : Recorded s) (hheld : Held env σ s raw row)
    (hactive : userActive s σ.userId)
    (hp : Stage row raw (row.usedAt ≠ none) p ∨ ∃ r, pairOf p = some r)
    (hstep : step env i p s = some (q, s')) (hlost : i ≠ .lost)
    (hrequest : ∀ r now, i = .request r now → r = .refresh raw)
    (hclock : ∀ d, i = .run d → d.now = now) (hdrawn : ∀ d, i = .run d → d.refreshToken ≠ "")
    (hexpires : now ≤ σ.expiresAt)
    (hgrace : ∀ usedAt, row.usedAt = some usedAt → now < usedAt + reuseGrace)
    (httl : σ.expiresAt ≤ now + refreshTtl) :
    userActive s' σ.userId ∧
      (Passes env σ none now s s' ∧ (q = p ∨ Stage row raw (row.usedAt ≠ none) q) ∨
        Passes env σ (some raw) now s s' ∧ ∃ r, pairOf q = some r ∧ Fresh env σ s s' r) := by
  rcases hp with hstage | ⟨r, hpair⟩
  swap
  · have hmoney := pair_ended hpair hstep
    cases i with
    | money db =>
        cases hstep
        exact ⟨hactive, .inl ⟨.of_same rfl, .inl rfl⟩⟩
    | _ => cases hmoney
  have hstored := hheld.stored
  have hmoves := call_moves hrec hstored hheld.hash (hheld.user ▸ hactive)
    (.inl (hstage.mono hheld.used_iff.mpr)) hstep hlost hrequest
    fun d hd _ => ⟨fun _ => ?_, fun usedAt hused => ?_⟩
  · have hkeeps := Keeps.of_moves hstored (hheld.user ▸ hactive) hmoves
    refine ⟨hheld.user ▸ hkeeps.active, ?_⟩
    cases hmoves with
    | stays htokens _ _ hq => exact .inl ⟨.of_same htokens, .inl hq⟩
    | waits htokens _ _ hstage =>
        exact .inl ⟨.of_same htokens, .inr (hstage.mono hheld.used_iff.mp)⟩
    | pairs d user hfresh huser hq husers hissued hnew hkeep htoken hused hsame =>
        have hstatement := step_statement hstep
        refine .inr ⟨fun r' row' hrow' => ?_, d.refreshToken, hq,
          ⟨refreshTokenRow env d user row.familyId, ?_, rfl⟩, ?_⟩
        · by_cases hid : row'.id = row.id
          · obtain rfl : row' = row := Table.eq_of_key hrow'.mem hheld.mem hid
            obtain ⟨after, hfind, hafter⟩ := htoken
            have hmem := Table.mem_of_find hfind
            refine ⟨after, hrow'.move hafter hmem, hafter.id_eq, ?_⟩
            cases hold : row'.usedAt with
            | some usedAt =>
                have hbefore : usedAtOf s row'.id = some (some usedAt) := by
                  rw [hstored.usedAtOf_eq, hold]
                have hkept := hsame ⟨usedAt, hbefore⟩
                rw [usedAtOf, hfind, hbefore, Option.map_some] at hkept
                exact .inl (Option.some.inj hkept)
            | none =>
                obtain ⟨usedAt, hafterUsed⟩ := hused
                rw [usedAtOf, hfind, Option.map_some, Option.some.injEq] at hafterUsed
                rcases usedAt_change hstatement hmem hafterUsed with
                  ⟨old, holdMem, holdId, holdUsed⟩ | ⟨d', hd', rfl⟩
                · obtain rfl : old = row' := Table.eq_of_key holdMem hrow'.mem
                    (holdId.trans hafter.id_eq)
                  rw [hold] at holdUsed
                  cases holdUsed
                · rw [hclock d' hd'] at hafterUsed
                  exact .inr ⟨⟨raw, rfl, hrow'.hash.symm.trans hheld.hash⟩, rfl, hafterUsed⟩
          · exact ⟨row', hrow'.move (.refl row') (hkeep row' hrow'.mem hid), rfl, .inl rfl⟩
        · have hnonempty : d.refreshToken ≠ "" := by
            obtain ⟨access, hdone⟩ := pairOf_done hq
            obtain ⟨⟨d', hd', hsame'⟩, -⟩ := stage_session hstage hstep hrequest hdone
            rw [hsame']
            exact hdrawn d' hd'
          refine ⟨hnonempty, IndexedTable.lookup_eq_some.mpr ⟨hnew, rfl⟩, hheld.family,
            huser.trans hheld.user, ?_⟩
          rcases tokens_change hstatement hnew with ⟨old, hold, hsame'⟩ | ⟨d', _, _, hissues, heq⟩
          · refine absurd ?_ hfresh.2.2.2
            have hhash : old.tokenHash = env.sha256 d.refreshToken := hsame'.tokenHash_eq.symm
            rw [← hhash]
            exact Recorded.hash_issued hrec old hold
          · have hat : (refreshTokenRow env d user row.familyId).expiresAt = now + refreshTtl := by
              rw [heq, refreshTokenRow, hclock d' hissues.input]
            rw [hat]
            exact httl
        · intro r' row' hrow' heq
          refine hfresh.2.2.2 ?_
          rw [← heq, ← hrow'.hash]
          exact Recorded.hash_issued hrec row' hrow'.mem
  · rw [hclock d hd]
    exact hexpires.trans hheld.expires
  · rw [hclock d hd]
    rw [hstored.usedAtOf_eq, Option.some.injEq] at hused
    exact hgrace usedAt hused

end Tokens

/-! ## The invariant -/

/-- When a request that is under way left the browser. -/
def sentAt : Flight → Option Time
  | .unsent | .landed => none
  | .rendering _ _ _ t | .calling _ t | .refreshing _ _ t | .retrying _ t | .signingIn t
  | .signingOut t | .answered _ t => some t

/-- The refresh token a request may still present. -/
def carries : Flight → Option String
  | .calling cookies _ => cookies.refresh
  | .refreshing _ r _ => some r
  | _ => none

/-- The refresh token a request will set when its answer arrives. -/
def brings (p : Pc) : Flight → Option String
  | .refreshing .. => pairOf p
  | .retrying tokens _ | .rendering _ (.refreshAuthCookies tokens) _ _
  | .answered ⟨_, .refreshAuthCookies tokens⟩ _ => some tokens.refreshToken
  | _ => none

/-- A response of a refresh that has not been refused. -/
def Renews (cookies : SetCookies) : Prop :=
  cookies = .keep ∨ ∃ tokens, cookies = .refreshAuthCookies tokens

/-- No refresh has been refused. -/
def Stands (env : Env) (σ : Session) (s : Shared) (p : Pc) : Flight → Prop
  | .calling .. => p = .idle
  | .refreshing _ r _ => ∀ row, Held env σ s r row →
      Stage row r (row.usedAt ≠ none) p ∨ ∃ r', pairOf p = some r'
  | .rendering _ cookies _ _ => Renews cookies
  | .answered response _ => Renews response.cookies
  | .signingIn _ | .signingOut _ => False
  | .unsent | .retrying .. | .landed => True

/-- A token that has been used leaves the browser with the answer of the request that
used it, so whoever still carries it was sent soon after. -/
structure Kept (env : Env) (σ : Session) (L : Time) (mirror : Option (Cookie PublicUser))
    (s₀ : Shared) (w : World) : Prop where
  service : Reachable (AuthRuns.next env) (AuthRuns.start s₀) w.service
  active : userActive w.service.data σ.userId
  ttl : σ.expiresAt ≤ w.clock + refreshTtl
  user : w.jar.user = mirror
  stands : ∀ c, Stands env σ w.service.data (w.service.client c) (w.flights c)
  sent : ∀ c, ∀ t ∈ sentAt (w.flights c), t ≤ w.clock
  jar : ∃ cookie row, w.jar.refresh = some cookie ∧ σ.expiresAt ≤ cookie.expiresAt ∧
    Held env σ w.service.data cookie.value row ∧ ∀ usedAt, row.usedAt = some usedAt →
      ∃ c, (brings (w.service.client c) (w.flights c)).isSome ∧
        ∃ t ∈ sentAt (w.flights c), t ≤ usedAt
  carried : ∀ c, ∀ r ∈ carries (w.flights c), ∃ row, Held env σ w.service.data r row ∧
    ∀ usedAt, row.usedAt = some usedAt → ∀ t ∈ sentAt (w.flights c), t ≤ usedAt + L
  brought : ∀ c, ∀ r ∈ brings (w.service.client c) (w.flights c),
    ∃ row, Held env σ w.service.data r row ∧ row.usedAt = none
  unseen : ∀ c, ∀ r ∈ brings (w.service.client c) (w.flights c),
    (∀ cookie ∈ w.jar.refresh, env.sha256 cookie.value ≠ env.sha256 r) ∧
      ∀ c', ∀ r' ∈ carries (w.flights c'), env.sha256 r' ≠ env.sha256 r
  distinct : ∀ c, ∀ r ∈ brings (w.service.client c) (w.flights c), ∀ c',
    ∀ r' ∈ brings (w.service.client c') (w.flights c'), env.sha256 r = env.sha256 r' → c = c'

section Kept
variable {env : Env} {σ : Session} {L : Time} {mirror : Option (Cookie PublicUser)} {s₀ : Shared}
  {w : World} {c : ℕ}

theorem sentAt_of_carries {flight : Flight} {r : String} (h : r ∈ carries flight) :
    ∃ t, t ∈ sentAt flight := by
  cases flight with
  | calling _ t | refreshing _ _ t => exact ⟨t, rfl⟩
  | _ => cases h

theorem Stage.same {row row' : RefreshToken} {r : String} {used : Prop} {p : Pc}
    (h : Stage row r used p) (hid : row'.id = row.id) (hfamily : row'.familyId = row.familyId)
    (huser : row'.userId = row.userId) : Stage row' r used p := by
  cases h with
  | idle => exact .idle
  | rotate => exact .rotate
  | claim existing user h₁ h₂ h₃ =>
      exact .claim existing user (h₁.trans hid.symm) (h₂.trans hfamily.symm) (h₃.trans huser.symm)
  | issue user h₁ hused => exact hfamily ▸ .issue user (h₁.trans huser.symm) hused

/-- A statement leaves the requests of others where they stand. -/
theorem Stands.pass {s s' : Shared} {p : Pc} {flight : Flight} {spent : Option String} {now : Time}
    (h : Stands env σ s p flight) (hpass : Passes env σ spent now s s')
    (hcarried : ∀ r ∈ carries flight, ∃ row, Held env σ s r row) :
    Stands env σ s' p flight := by
  cases flight with
  | refreshing via r t =>
      intro row' hrow'
      obtain ⟨row, hrow⟩ := hcarried r rfl
      obtain ⟨after, hafter, hid, hused⟩ := hpass r row hrow
      obtain rfl := hrow'.unique hafter
      refine (h row hrow).imp_left fun hstage => ?_
      have hsame := Stage.same hstage hid (hafter.family.trans hrow.family.symm)
        (hafter.user.trans hrow.user.symm)
      refine hsame.mono fun hold => ?_
      rcases hused with heq | ⟨-, hnone, -⟩
      · rwa [heq]
      · exact absurd hnone hold
  | _ => exact h

theorem Kept.tick (h : Kept env σ L mirror s₀ w) (ms : ℕ) :
    Kept env σ L mirror s₀ { w with clock := w.clock + ms } :=
  { h with
    ttl := h.ttl.trans (Nat.add_le_add_right (Nat.le_add_right _ _) _)
    sent := fun c t ht => (h.sent c t ht).trans (Nat.le_add_right _ _) }

/-- A statement of the service, seen from the browser. -/
theorem Kept.serve {i : Input} {s' : Service} {spent : Option String}
    (h : Kept env σ L mirror s₀ w) (hnext : AuthRuns.next env (c, i) w.service = some s')
    (hactive : userActive s'.data σ.userId)
    (hpass : Passes env σ spent w.clock w.service.data s'.data)
    (hstands : Stands env σ s'.data (s'.client c) (w.flights c))
    (hspent : ∀ raw ∈ spent, raw ∈ carries (w.flights c) ∧
      (brings (s'.client c) (w.flights c)).isSome)
    (hkeep : (brings (w.service.client c) (w.flights c)).isSome →
      (brings (s'.client c) (w.flights c)).isSome)
    (hbrings : ∀ r ∈ brings (s'.client c) (w.flights c),
      r ∈ brings (w.service.client c) (w.flights c) ∨
        Fresh env σ w.service.data s'.data r) :
    Kept env σ L mirror s₀ { w with service := s' } := by
  have hother : ∀ x, x ≠ c → s'.client x = w.service.client x := fun x hx => next_other hnext hx
  have hfrom : ∀ x, ∀ r ∈ brings (s'.client x) (w.flights x),
      r ∈ brings (w.service.client x) (w.flights x) ∨
        x = c ∧ Fresh env σ w.service.data s'.data r := by
    intro x r hr
    by_cases hx : x = c
    · subst hx
      exact (hbrings r hr).imp_right fun hfresh => ⟨rfl, hfresh⟩
    · rw [hother x hx] at hr
      exact .inl hr
  have hstays : ∀ x, (brings (w.service.client x) (w.flights x)).isSome →
      (brings (s'.client x) (w.flights x)).isSome := by
    intro x hx
    by_cases hc : x = c
    · subst hc
      exact hkeep hx
    · rwa [hother x hc]
  refine
    { service := ?_
      active := hactive
      ttl := h.ttl
      user := h.user
      stands := fun x => ?_
      sent := h.sent
      jar := ?_
      carried := fun x r hr => ?_
      brought := fun x r hr => ?_
      unseen := fun x r hr => ?_
      distinct := fun x r hr x' r' hr' hsame => ?_ }
  · obtain ⟨us, hus⟩ := h.service
    exact ⟨_, hus.step (c, i) hnext⟩
  · by_cases hx : x = c
    · subst hx
      exact hstands
    · simp only [hother x hx]
      exact (h.stands x).pass hpass fun r hr => (h.carried x r hr).imp fun _ hrow => hrow.1
  · obtain ⟨cookie, row, hcookie, hage, hrow, hsoon⟩ := h.jar
    obtain ⟨row', hrow', -, hused⟩ := hpass _ row hrow
    refine ⟨cookie, row', hcookie, hage, hrow', fun usedAt hat => ?_⟩
    rcases hused with heq | ⟨⟨raw, hraw, -⟩, -, hnow⟩
    · obtain ⟨x, hx, hsent⟩ := hsoon usedAt (heq ▸ hat)
      exact ⟨x, hstays x hx, hsent⟩
    · -- the request whose statement this is brings the successor
      obtain ⟨hcarries, hbrings'⟩ := hspent raw hraw
      obtain rfl : w.clock = usedAt := Option.some.inj (hnow.symm.trans hat)
      obtain ⟨t, ht⟩ := sentAt_of_carries hcarries
      exact ⟨c, hbrings', t, ht, h.sent c t ht⟩
  · obtain ⟨row, hrow, hsoon⟩ := h.carried x r hr
    obtain ⟨row', hrow', -, hused⟩ := hpass _ row hrow
    refine ⟨row', hrow', fun usedAt hat t ht => ?_⟩
    rcases hused with heq | ⟨-, -, hnow⟩
    · exact hsoon usedAt (heq ▸ hat) t ht
    · obtain rfl : w.clock = usedAt := Option.some.inj (hnow.symm.trans hat)
      exact (h.sent x t ht).trans (Nat.le_add_right _ _)
  · rcases hfrom x r hr with hold | ⟨-, hfresh⟩
    · obtain ⟨row, hrow, hunused⟩ := h.brought x r hold
      obtain ⟨row', hrow', -, hused⟩ := hpass _ row hrow
      refine ⟨row', hrow', ?_⟩
      rcases hused with heq | ⟨⟨raw, hraw, hsame⟩, -, -⟩
      · rw [heq, hunused]
      · exact absurd hsame.symm ((h.unseen x r hold).2 c raw (hspent raw hraw).1)
    · exact hfresh.1
  · rcases hfrom x r hr with hold | ⟨-, -, hnew⟩
    · exact h.unseen x r hold
    · refine ⟨fun cookie hcookie => ?_, fun x' r' hr' => ?_⟩
      · obtain ⟨cookie', row, hcookie', -, hrow, -⟩ := h.jar
        obtain rfl : cookie' = cookie := Option.some.inj (hcookie'.symm.trans hcookie)
        exact hnew _ row hrow
      · obtain ⟨row, hrow, -⟩ := h.carried x' r' hr'
        exact hnew _ row hrow
  · rcases hfrom x r hr with hold | ⟨hx, hfresh⟩
    · rcases hfrom x' r' hr' with hold' | ⟨hx', hfresh'⟩
      · exact h.distinct x r hold x' r' hold' hsame
      · obtain ⟨row, hrow, -⟩ := h.brought x r hold
        exact absurd hsame (hfresh'.2 r row hrow)
    · rcases hfrom x' r' hr' with hold' | ⟨hx', hfresh'⟩
      · obtain ⟨row, hrow, -⟩ := h.brought x' r' hold'
        exact absurd hsame.symm (hfresh.2 r' row hrow)
      · rw [hx, hx']

/-- A request moves on, and the service and the cookies stay as they are. -/
theorem Kept.put {flight : Flight} (h : Kept env σ L mirror s₀ w)
    (hstands : Stands env σ w.service.data (w.service.client c) flight)
    (hsent : ∀ t ∈ sentAt flight, t ≤ w.clock)
    (hbrings : brings (w.service.client c) flight = brings (w.service.client c) (w.flights c))
    (hsame : (brings (w.service.client c) flight).isSome → sentAt flight = sentAt (w.flights c))
    (hcarried : ∀ r ∈ carries flight,
      (r ∈ carries (w.flights c) ∨ ∃ cookie ∈ w.jar.refresh, cookie.value = r) ∧
        ∃ row, Held env σ w.service.data r row ∧
          ∀ usedAt, row.usedAt = some usedAt → ∀ t ∈ sentAt flight, t ≤ usedAt + L) :
    Kept env σ L mirror s₀ (w.put c flight) := by
  have hall : ∀ x, brings (w.service.client x) ((w.put c flight).flights x) =
      brings (w.service.client x) (w.flights x) := by
    intro x
    rw [put_flights]
    split_ifs with hx
    · rw [hx, hbrings]
    · rfl
  refine
    { service := h.service
      active := h.active
      ttl := h.ttl
      user := h.user
      stands := fun x => ?_
      sent := fun x t ht => ?_
      jar := ?_
      carried := fun x r hr => ?_
      brought := fun x r hr => h.brought x r (hall x ▸ hr)
      unseen := fun x r hr => ⟨(h.unseen x r (hall x ▸ hr)).1, fun x' r' hr' => ?_⟩
      distinct := fun x r hr x' r' hr' => h.distinct x r (hall x ▸ hr) x' r' (hall x' ▸ hr') }
  · rw [put_flights]
    split_ifs with hx
    · subst hx
      exact hstands
    · exact h.stands x
  · rw [put_flights] at ht
    split_ifs at ht
    · exact hsent t ht
    · exact h.sent x t ht
  · obtain ⟨cookie, row, hcookie, hage, hrow, hsoon⟩ := h.jar
    refine ⟨cookie, row, hcookie, hage, hrow, fun usedAt hat => ?_⟩
    obtain ⟨x, hx, hsent'⟩ := hsoon usedAt hat
    have hx' := hx
    rw [← hall x] at hx'
    refine ⟨x, hx', ?_⟩
    rw [put_flights]
    split_ifs with hxc
    · subst hxc
      rw [hsame (hbrings ▸ hx)]
      exact hsent'
    · exact hsent'
  · rw [put_flights] at hr ⊢
    split_ifs at hr ⊢
    · exact (hcarried r hr).2
    · exact h.carried x r hr
  · have hunseen := h.unseen x r (hall x ▸ hr)
    rw [put_flights] at hr'
    split_ifs at hr'
    · rcases (hcarried r' hr').1 with hold | ⟨cookie, hcookie, rfl⟩
      · exact hunseen.2 c r' hold
      · exact hunseen.1 cookie hcookie
    · exact hunseen.2 x' r' hr'

/-- A new pair arrives. -/
theorem Kept.receive {outcome : Outcome} {tokens : Tokens} {t : Time}
    (h : Kept env σ L mirror s₀ w)
    (hflight : w.flights c = .answered ⟨outcome, .refreshAuthCookies tokens⟩ t) :
    Kept env σ L mirror s₀
      { w.put c .landed with
        jar := w.jar.receive w.clock (.refreshAuthCookies tokens) } := by
  have hbrought : tokens.refreshToken ∈ brings (w.service.client c) (w.flights c) := by
    rw [hflight]
    rfl
  have hfrom : ∀ x, ∀ r ∈ brings (w.service.client x) ((w.put c .landed).flights x),
      x ≠ c ∧ r ∈ brings (w.service.client x) (w.flights x) := by
    intro x r hr
    rw [put_flights] at hr
    split_ifs at hr with hx
    · cases hr
    · exact ⟨hx, hr⟩
  refine
    { service := h.service
      active := h.active
      ttl := h.ttl
      user := h.user
      stands := fun x => ?_
      sent := fun x t ht => ?_
      jar := ?_
      carried := fun x r hr => ?_
      brought := fun x r hr => h.brought x r (hfrom x r hr).2
      unseen := fun x r hr => ⟨fun cookie hcookie hsame => ?_, fun x' r' hr' => ?_⟩
      distinct := fun x r hr x' r' hr' =>
        h.distinct x r (hfrom x r hr).2 x' r' (hfrom x' r' hr').2 }
  · simp only [put_flights]
    split_ifs with hx
    · trivial
    · exact h.stands x
  · simp only [put_flights] at ht
    split_ifs at ht
    · cases ht
    · exact h.sent x t ht
  · obtain ⟨row, hrow, hunused⟩ := h.brought c _ hbrought
    refine ⟨_, row, rfl, h.ttl, hrow, fun usedAt hat => ?_⟩
    rw [hunused] at hat
    cases hat
  · simp only [put_flights] at hr ⊢
    split_ifs at hr ⊢
    · cases hr
    · exact h.carried x r hr
  · cases hcookie
    obtain ⟨hx, hr'⟩ := hfrom x r hr
    exact hx (h.distinct c _ hbrought x r hr' hsame).symm
  · simp only [put_flights] at hr'
    split_ifs at hr'
    · cases hr'
    · exact (h.unseen x r (hfrom x r hr).2).2 x' r' hr'

/-- The refresh token of the browser is sent until the session is over. -/
theorem Kept.refreshToken_ne_none (h : Kept env σ L mirror s₀ w) (hclock : w.clock < σ.expiresAt) :
    (w.jar.send w.clock).refreshToken ≠ none := by
  obtain ⟨cookie, row, hcookie, hage, hrow, -⟩ := h.jar
  have hsent : (w.jar.send w.clock).refresh = some cookie.value := by
    simp only [Jar.send, hcookie]
    exact if_pos (hclock.trans_le hage)
  rw [Cookies.refreshToken, hsent, Option.filter_some, if_pos (by simpa using hrow.nonempty)]
  exact Option.some_ne_none _

end Kept

/-! ## What one event does -/

/-- No answer with a new pair is lost, no refresh is lost once the service has it, no
read of the user by a page's call is lost, and the user does not sign in or out. -/
def Calmly (app : App) (p : Pc) (flight : Flight) : Action → Prop
  | .signIn | .signOut => False
  | .lose | .replies none => brings p flight = none
  | .fails code => p = .idle ∧ (app = .customer ∨ code = none)
  | .reads lost => lost = false
  | _ => True

/-- Every answer arrives within `L`, the session is not over, others leave it alone, and
a refresh token that is drawn is not the empty text. -/
structure Calm (app : App) (σ : Session) (L : Time) (e : Event (ℕ × Action) World) : Prop where
  clock : e.post.clock < σ.expiresAt
  prompt : ∀ c, ∀ t ∈ sentAt (e.post.flights c), e.post.clock ≤ t + L
  calmly : Calmly app (e.pre.service.client e.label.1) (e.pre.flights e.label.1) e.label.2
  own : ∀ via r t, e.pre.flights e.label.1 = .refreshing via r t → e.label.2 ≠ .backend .lost
  drawn : ∀ via r t d, e.pre.flights e.label.1 = .refreshing via r t →
    e.label.2 = .backend (.run d) → d.refreshToken ≠ ""
  others : ∀ i, e.label.2 = .backend i →
    (∀ via r t, e.pre.flights e.label.1 ≠ .refreshing via r t) →
      Quiet σ e.pre.service.data e.post.service.data

section Step
variable {app : App} {env : Env} {σ : Session} {L : Time} {mirror : Option (Cookie PublicUser)}
  {s₀ : Shared} {w t : World} {c : ℕ} {p : Pc} {flight flight' : Flight} {a : Action}

theorem stage_answer {row : RefreshToken} {r : String} {used : Prop} (h : Stage row r used p) :
    answerOf p = none := by
  cases h <;> rfl

/-- Where a request goes from where it stands, without a refusal. -/
theorem advance_calmly (h : advance app p a flight = some flight')
    (hstands : Stands env σ w.service.data p flight)
    (hheld : ∀ r ∈ carries flight, ∃ row, Held env σ w.service.data r row)
    (hcalm : Calmly app p flight a) :
    Stands env σ w.service.data p flight' ∧ sentAt flight' = sentAt flight ∧
      brings p flight' = brings p flight ∧ ∀ r ∈ carries flight', r ∈ carries flight := by
  unfold advance at h
  split at h
  · next via r sent =>
      obtain ⟨answer, hanswer, rfl⟩ := Option.map_eq_some_iff.mp h
      obtain ⟨row, hrow⟩ := hheld r rfl
      rcases hstands row hrow with hstage | ⟨r', hpair⟩
      · rw [stage_answer hstage] at hanswer
        cases hanswer
      · obtain ⟨access, rfl⟩ := pairOf_done hpair
        cases hanswer
        cases via with
        | edge => exact ⟨.inr ⟨_, rfl⟩, rfl, rfl, fun r hr => by cases hr⟩
        | route => exact ⟨trivial, rfl, rfl, fun r hr => by cases hr⟩
  · next via r sent =>
      cases h
      obtain ⟨rfl, happ⟩ := hcalm
      cases via <;> cases app <;>
        exact ⟨.inl rfl, rfl, rfl, fun r hr => by cases hr⟩
  · next code via r sent =>
      obtain ⟨rfl, happ⟩ := hcalm
      obtain rfl : app = .customer := happ.resolve_right (Option.some_ne_none code)
      split_ifs at h with hrejects
      cases h
      cases via <;> simp only [settle, refreshAtEdge, refreshInRoute, if_neg hrejects] <;>
        exact ⟨.inl rfl, rfl, rfl, fun r hr => by cases hr⟩
  · next page access cookies refused sent =>
      split_ifs at h
      cases h
      exact ⟨hstands, rfl, by cases cookies <;> rfl, fun r hr => by cases hr⟩
  · cases h
    exact ⟨.inl rfl, rfl, rfl, fun r hr => by cases hr⟩
  · cases hcalm
  · exact hstands.elim
  · next code cookies sent =>
      have hanswered : ∀ flight' : Flight, flight' = .answered ⟨.status code, .keep⟩ sent →
          Stands env σ w.service.data p flight' ∧ sentAt flight' = some sent ∧
            brings p flight' = none ∧ ∀ r ∈ carries flight', r ∈ cookies.refresh := by
        rintro _ rfl
        exact ⟨.inl rfl, rfl, rfl, fun r hr => by cases hr⟩
      split at h
      · next r hr =>
          split_ifs at h
          · cases h
            obtain rfl : p = .idle := hstands
            refine ⟨fun row _ => .inl .idle, rfl, rfl, fun r' hr' => ?_⟩
            rw [← Option.some.inj hr']
            exact refreshToken_eq_some hr
          · exact hanswered flight' (Option.some.inj h).symm
      · exact hanswered flight' (Option.some.inj h).symm
  · cases h
    exact ⟨.inr ⟨_, rfl⟩, rfl, rfl, fun r hr => by cases hr⟩
  · exact hstands.elim
  · exact hstands.elim
  · exact hstands.elim
  · cases h

/-- The cookies of a request that leaves now. -/
theorem Kept.sends (h : Kept env σ L mirror s₀ w) (hunsent : w.flights c = .unsent)
    (hprompt : ∀ x, x ≠ c → ∀ t ∈ sentAt (w.flights x), w.clock ≤ t + L) {r : String}
    (hr : (w.jar.send w.clock).refresh = some r) :
    (∃ cookie ∈ w.jar.refresh, cookie.value = r) ∧
      ∃ row, Held env σ w.service.data r row ∧
        ∀ usedAt, row.usedAt = some usedAt → w.clock ≤ usedAt + L := by
  obtain ⟨cookie, row, hcookie, hage, hrow, hsoon⟩ := h.jar
  have hvalue : cookie.value = r := by
    simp only [Jar.send, hcookie] at hr
    rw [Option.bind_some, Cookie.sent] at hr
    split at hr
    · exact Option.some.inj hr
    · cases hr
  subst hvalue
  refine ⟨⟨cookie, hcookie, rfl⟩, row, hrow, fun usedAt hat => ?_⟩
  obtain ⟨x, hx, t, ht, hle⟩ := hsoon usedAt hat
  have hxc : x ≠ c := by
    rintro rfl
    rw [hunsent] at hx
    cases hx
  exact (hprompt x hxc t ht).trans (Nat.add_le_add_right hle L)

theorem depart_calmly (h : Kept env σ L mirror s₀ w) (hunsent : w.flights c = .unsent)
    (hidle : w.service.client c = .idle)
    (hdepart : depart app w.clock (w.jar.send w.clock) a = some flight)
    (hcalm : Calmly app (w.service.client c) (w.flights c) a)
    (hprompt : ∀ x, x ≠ c → ∀ t ∈ sentAt (w.flights x), w.clock ≤ t + L) :
    Kept env σ L mirror s₀ (w.put c flight) := by
  have hsends := fun r hr => h.sends hunsent hprompt (r := r) hr
  have hgo : ∀ flight, Stands env σ w.service.data .idle flight →
      sentAt flight = some w.clock → brings .idle flight = none →
      (∀ r ∈ carries flight, (w.jar.send w.clock).refresh = some r) →
      Kept env σ L mirror s₀ (w.put c flight) := by
    intro flight hstands hsent hbrings hcarries
    refine h.put (hidle ▸ hstands) (fun t ht => ?_) ?_ (fun hsome => ?_) fun r hr => ?_
    · rw [hsent] at ht
      exact (Option.some.inj ht).symm.le
    · rw [hidle, hunsent, hbrings]
      rfl
    · rw [hidle, hbrings] at hsome
      cases hsome
    · obtain ⟨hcookie, row, hrow, hsoon⟩ := hsends r (hcarries r hr)
      refine ⟨.inr hcookie, row, hrow, fun usedAt hat t ht => ?_⟩
      rw [hsent] at ht
      exact Option.some.inj ht ▸ hsoon usedAt hat
  cases a with
  | visit pathname =>
      cases hdepart
      unfold visit
      split
      · next outcome _ =>
          split_ifs
          · exact hgo _ (.inl rfl) rfl rfl fun r hr => nomatch hr
          · rcases render_cases (w.jar.send w.clock).access w.clock ⟨outcome, .keep⟩ with
              ⟨-, token, hrender⟩ | ⟨-, hrender⟩ <;> rw [hrender]
            · exact hgo _ (.inl rfl) rfl rfl fun r hr => nomatch hr
            · exact hgo _ (.inl rfl) rfl rfl fun r hr => nomatch hr
      · next r hproxy =>
          refine hgo _ (fun row _ => .inl .idle) rfl rfl fun r' hr' => ?_
          rw [← Option.some.inj hr']
          exact proxy_refresh hproxy
  | write =>
      cases hdepart
      exact hgo _ rfl rfl rfl fun r hr => hr
  | signIn | signOut => exact hcalm.elim
  | _ => cases hdepart

/-- A statement of one of the browser's refreshes. -/
theorem serve_own {i : Input} {s' : Service} {via : Via} {raw : String} {sent : Time}
    (hL : 2 * L < reuseGrace) (h : Kept env σ L mirror s₀ w)
    (hflight : w.flights c = .refreshing via raw sent)
    (hpermits : permits w.clock i (w.flights c) = true)
    (hnext : AuthRuns.next env (c, i) w.service = some s') (hclock : w.clock < σ.expiresAt)
    (hprompt : w.clock ≤ sent + L) (hlost : i ≠ .lost)
    (hdrawn : ∀ d, i = .run d → d.refreshToken ≠ "") :
    Kept env σ L mirror s₀ { w with service := s' } := by
  have hstep : step env i (w.service.client c) w.service.data = some (s'.client c, s'.data) :=
    next_self hnext
  obtain ⟨us, hus⟩ := h.service
  obtain ⟨row, hrow, hsoon⟩ := h.carried c raw (by rw [hflight]; rfl)
  have hstands := h.stands c
  have hpair : ∀ q, brings q (w.flights c) = pairOf q := by
    intro q
    rw [hflight, brings]
  rw [hflight] at hpermits hstands hsoon
  have hnow : ∀ d, i = .run d → d.now = w.clock := by
    rintro d rfl
    simpa [permits, inputAt] using hpermits
  have hrequest : ∀ r now, i = .request r now → r = .refresh raw := by
    rintro r now rfl
    exact permits_refresh hpermits
  have hgrace : ∀ usedAt, row.usedAt = some usedAt → w.clock < usedAt + reuseGrace := by
    intro usedAt hat
    calc w.clock ≤ sent + L := hprompt
      _ ≤ usedAt + L + L := Nat.add_le_add_right (hsoon usedAt hat sent rfl) L
      _ = usedAt + 2 * L := by ring
      _ < usedAt + reuseGrace := Nat.add_lt_add_left hL usedAt
  obtain ⟨hactive, hown⟩ := own_statement (run_recorded hus).data hrow h.active (hstands row hrow)
    hstep hlost hrequest hnow hdrawn hclock.le hgrace h.ttl
  rcases hown with ⟨hpass, hq⟩ | ⟨hpass, r, hq, hfresh⟩
  · have hstill : Stands env σ w.service.data (s'.client c) (.refreshing via raw sent) := by
      intro row' hrow'
      obtain rfl := hrow.unique hrow'
      rcases hq with heq | hstage
      · rw [heq]
        exact hstands row hrow
      · exact .inl hstage
    refine h.serve hnext hactive hpass ?_ (fun raw hraw => by cases hraw) (fun hsome => ?_)
      fun r hr => ?_
    · rw [hflight]
      exact hstill.pass hpass fun r hr => ⟨row, Option.some.inj hr ▸ hrow⟩
    · rw [hpair] at hsome ⊢
      obtain ⟨r, hr⟩ := Option.isSome_iff_exists.mp hsome
      rw [money_same hstep (pair_ended hr hstep)]
      exact hsome
    · rw [hpair] at hr ⊢
      rcases hq with heq | hstage
      · rw [heq] at hr
        exact .inl hr
      · rw [pairOf_stage hstage] at hr
        cases hr
  · refine h.serve hnext hactive hpass ?_ (fun raw' hraw => ?_) (fun _ => ?_) fun r' hr' => ?_
    · rw [hflight]
      exact fun _ _ => .inr ⟨r, hq⟩
    · rw [← Option.some.inj hraw, hpair, hq, hflight]
      exact ⟨rfl, rfl⟩
    · rw [hpair, hq]
      rfl
    · rw [hpair, hq] at hr'
      rw [← Option.some.inj hr']
      exact .inr hfresh

/-- A statement of anybody else. -/
theorem serve_other {i : Input} {s' : Service} (h : Kept env σ L mirror s₀ w)
    (hflight : ∀ via r t, w.flights c ≠ .refreshing via r t)
    (hpermits : permits w.clock i (w.flights c) = true)
    (hnext : AuthRuns.next env (c, i) w.service = some s')
    (hquiet : Quiet σ w.service.data s'.data) :
    Kept env σ L mirror s₀ { w with service := s' } := by
  have hbrings : ∀ q q', brings q (w.flights c) = brings q' (w.flights c) := by
    intro q q'
    cases hf : w.flights c with
    | refreshing via r t => exact absurd hf (hflight via r t)
    | rendering access cookies => cases cookies <;> rfl
    | answered response t =>
        obtain ⟨outcome, cookies⟩ := response
        cases cookies <;> rfl
    | _ => rfl
  have hstands : Stands env σ w.service.data (s'.client c) (w.flights c) := by
    have hold := h.stands c
    cases hf : w.flights c with
    | refreshing via r t => exact absurd hf (hflight via r t)
    | calling cookies t =>
        rw [hf] at hold hpermits
        have hstep := next_self hnext
        rw [show w.service.client c = .idle from hold] at hstep
        exact calling_idle hpermits hstep
    | _ =>
        rw [hf] at hold
        exact hold
  have hpass : Passes env σ none w.clock w.service.data s'.data := .of_quiet hquiet
  refine h.serve hnext (hquiet.2 h.active) hpass
    (hstands.pass hpass fun r hr => (h.carried c r hr).imp fun _ hrow => hrow.1)
    (fun raw hraw => nomatch hraw) (fun hsome => ?_) fun r hr => .inl ?_
  · rwa [hbrings _ (w.service.client c)]
  · rwa [hbrings _ (s'.client c)]

theorem Kept.event {l : ℕ × Action} (hL : 2 * L < reuseGrace) (h : Kept env σ L mirror s₀ w)
    (hn : EdgeSessions.next app env l w = some t) (hcalm : Calm app σ L ⟨w, l, t⟩) :
    Kept env σ L mirror s₀ t := by
  obtain ⟨hclock, hprompt, hcalmly, hown, hdrawn, hothers⟩ := hcalm
  simp only at hclock hprompt hcalmly hown hdrawn hothers
  cases next_moves hn with
  | ticks c ms => exact h.tick ms
  | serves c i s' hpermits hnext =>
      by_cases hflight : ∃ via r sent, w.flights c = .refreshing via r sent
      · obtain ⟨via, r, sent, hflight⟩ := hflight
        have hsent : w.clock ≤ sent + L := hprompt c sent (by simp only [hflight]; rfl)
        refine serve_own hL h hflight hpermits hnext hclock hsent
          (fun hi => hown via r sent hflight (by rw [hi])) fun d hd => ?_
        exact hdrawn via r sent d hflight (by rw [hd])
      · simp only [not_exists] at hflight
        exact serve_other h hflight hpermits hnext (hothers i rfl hflight)
  | arrives c response sent hflight =>
      have hstands := h.stands c
      rw [hflight] at hstands
      obtain ⟨outcome, cookies⟩ := response
      obtain rfl | ⟨tokens, rfl⟩ : Renews cookies := hstands
      · have hbrings : brings (w.service.client c) .landed =
            brings (w.service.client c) (w.flights c) := by
          rw [hflight]
          rfl
        exact h.put trivial (fun t ht => nomatch ht) hbrings (fun hsome => nomatch hsome)
          fun r hr => nomatch hr
      · exact h.receive hflight
  | loses c response sent hflight =>
      refine h.put trivial (fun t ht => nomatch ht) ?_ (fun hsome => nomatch hsome)
        fun r hr => nomatch hr
      exact hcalmly.symm
  | reads c lost access cookies refused sent hflight =>
      have hstands := h.stands c
      have hsent := h.sent c
      rw [hflight] at hstands hsent
      have hbrings : ∀ refused', brings (w.service.client c) (w.flights c) =
          brings (w.service.client c) (.rendering access cookies refused' sent) := by
        intro refused'
        rw [hflight]
        cases cookies <;> rfl
      exact h.put hstands hsent (hbrings _).symm (fun _ => by rw [hflight]; rfl)
        fun r hr => nomatch hr
  | departs c a flight hunsent hidle hdepart =>
      refine depart_calmly h hunsent hidle hdepart hcalmly fun x hx t ht => hprompt x t ?_
      rwa [put_of_ne flight hx]
  | advances c a flight hadvance =>
      obtain ⟨hstands, hsent, hbrings, hcarries⟩ := advance_calmly hadvance (h.stands c)
        (fun r hr => (h.carried c r hr).imp fun _ hrow => hrow.1) hcalmly
      refine h.put hstands (fun t ht => ?_) hbrings (fun _ => hsent) fun r hr => ?_
      · rw [hsent] at ht
        exact h.sent c t ht
      · refine ⟨.inl (hcarries r hr), ?_⟩
        rw [hsent]
        exact h.carried c r (hcarries r hr)

end Step

end MaxOne.EdgeTokens
