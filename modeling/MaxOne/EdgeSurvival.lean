import MaxOne.EdgeTokens
import MaxOne.EdgeVisits

/-!
# A session survives its own refreshes

While no answer takes half of the reuse grace, no refresh of a browser is refused. What
remains of the ways to the login page is a page whose access token is over or missing
when it makes its calls: `Bears` says whose access tokens the pages render with.
-/
namespace MaxOne.EdgeSurvival
open Library Library.Runs Library.Interleaving MaxOne.Schema MaxOne.Accounts MaxOne.AuthService
  MaxOne.AuthMachine MaxOne.AuthRuns MaxOne.ConcurrentRefreshes MaxOne.EdgeSessions
  MaxOne.EdgeTokens MaxOne.EdgeVisits

/-! ## What the pages render with -/

/-- The token verifies, until it expires, and is one of the session's user. -/
def Signed (σ : Session) (s : Shared) (token : Jwt) : Prop :=
  token ∈ s.minted ∧ token.claims.sub = some σ.userId

def accessOf : Pc → List Jwt
  | .done (.session _ access _) => [access]
  | _ => []

def accessIn : SetCookies → List Jwt
  | .refreshAuthCookies tokens => [tokens.accessToken]
  | _ => []

/-- The access tokens a request may set, or its page use. -/
def accesses (p : Pc) : Flight → List Jwt
  | .refreshing .. => accessOf p
  | .retrying tokens _ => [tokens.accessToken]
  | .rendering access cookies _ _ => access.toList ++ accessIn cookies
  | .answered response _ => accessIn response.cookies
  | _ => []

/-- A page renders without an access token only after a refresh that has failed. -/
structure Bears (σ : Session) (tr : List (Event (ℕ × Action) World)) (w : World) : Prop where
  jar : ∀ cookie ∈ w.jar.access, Signed σ w.service.data cookie.value
  flights : ∀ c, ∀ token ∈ accesses (w.service.client c) (w.flights c),
    Signed σ w.service.data token
  bare : ∀ c cookies refused t, w.flights c = .rendering none cookies refused t →
    ∃ e ∈ tr, ∃ code, e.label = (c, .fails code)

section Bears
variable {app : App} {env : Env} {σ : Session} {L : Time} {mirror : Option (Cookie PublicUser)}
  {s₀ : Shared} {w t : World} {c : ℕ} {p : Pc} {flight flight' : Flight} {a : Action}
  {tr tr' : List (Event (ℕ × Action) World)}

theorem accesses_render {access : Option Jwt} {sent : Time} {response : NextResponse} :
    ∀ token ∈ accesses p (render access sent response),
      token ∈ access ∨ token ∈ accessIn response.cookies := by
  intro token htoken
  obtain ⟨outcome, cookies⟩ := response
  cases outcome with
  | next =>
      cases cookies with
      | refreshAuthCookies tokens =>
          right
          simpa [render, accesses, accessIn] using htoken
      | _ =>
          left
          simpa [render, accesses, accessIn] using htoken
  | redirect | status => exact .inr htoken

theorem accesses_settle {answer : Answer} {via : Via} {sent : Time} :
    ∀ token ∈ accesses p (settle app sent answer via),
      ∃ tokens, answer = .ok tokens ∧ tokens.accessToken = token := by
  intro token htoken
  have hedge : ∀ response : NextResponse, accessIn response.cookies = [] →
      token ∉ accesses p (render none sent response) := by
    intro response hnone hrender
    rcases accesses_render token hrender with hold | hset
    · cases hold
    · rw [hnone] at hset
      cases hset
  cases answer with
  | ok tokens =>
      refine ⟨tokens, rfl, ?_⟩
      cases via with
      | edge => simpa [settle, refreshAtEdge, render, accesses, accessIn, eq_comm] using htoken
      | route => exact (List.mem_singleton.mp htoken).symm
  | unreachable =>
      cases via with
      | edge =>
          refine absurd htoken (hedge (refreshAtEdge app .unreachable) ?_)
          cases app <;> rfl
      | route => cases app <;> cases htoken
  | status code =>
      cases via with
      | edge =>
          refine absurd htoken (hedge (refreshAtEdge app (.status code)) ?_)
          cases app
          · simp only [refreshAtEdge]
            split_ifs <;> rfl
          · rfl
      | route =>
          cases app
          · simp only [settle, refreshInRoute] at htoken
            split_ifs at htoken <;> cases htoken
          · cases htoken

/-- A request sets and uses the access tokens it had before, or the one of its refresh. -/
theorem advance_accesses (h : advance app p a flight = some flight')
    (hidle : ∀ cookies t, flight = .calling cookies t → p = .idle) :
    ∀ token ∈ accesses p flight', token ∈ accesses p flight := by
  intro token htoken
  unfold advance at h
  split at h
  · obtain ⟨answer, hanswer, rfl⟩ := Option.map_eq_some_iff.mp h
    obtain ⟨tokens, rfl, rfl⟩ := accesses_settle token htoken
    unfold answerOf at hanswer
    split at hanswer
    · cases hanswer
      exact List.mem_singleton_self _
    · cases hanswer
    · cases hanswer
  · cases h
    obtain ⟨tokens, hok, -⟩ := accesses_settle token htoken
    cases hok
  · split_ifs at h
    cases h
    obtain ⟨tokens, hok, -⟩ := accesses_settle token htoken
    cases hok
  · split_ifs at h
    cases h
    exact List.mem_append_right _ htoken
  · cases h
    cases htoken
  · cases h
    cases htoken
  · cases h
    cases htoken
  · split at h
    · split_ifs at h with hcode <;> cases h
      · rw [hidle _ _ rfl] at htoken
        cases htoken
      · cases htoken
    · cases h
      cases htoken
  · cases h
    exact htoken
  · cases h
    cases htoken
  · cases h
    cases htoken
  · cases h
    cases htoken
  · cases h

theorem Bears.mono (h : Bears σ tr w) (hsub : tr ⊆ tr') : Bears σ tr' w where
  jar := h.jar
  flights := h.flights
  bare c cookies refused t hflight :=
    let ⟨e, he, hfails⟩ := h.bare c cookies refused t hflight
    ⟨e, hsub he, hfails⟩

theorem Bears.put (h : Bears σ tr w)
    (hflight : ∀ token ∈ accesses (w.service.client c) flight, Signed σ w.service.data token)
    (hbare : ∀ cookies refused t, flight = .rendering none cookies refused t →
      ∃ e ∈ tr, ∃ code, e.label = (c, .fails code)) :
    Bears σ tr (w.put c flight) where
  jar := h.jar
  flights x token htoken := by
    rw [put_flights] at htoken
    split_ifs at htoken with hx
    · subst hx
      exact hflight token htoken
    · exact h.flights x token htoken
  bare x cookies refused t hx := by
    rw [put_flights] at hx
    split_ifs at hx with hxc
    · subst hxc
      exact hbare cookies refused t hx
    · exact h.bare x cookies refused t hx

theorem advance_bare (h : advance app p a flight = some flight')
    (hstands : Stands env σ w.service.data p flight)
    (hheld : ∀ r ∈ carries flight, ∃ row, Held env σ w.service.data r row)
    {cookies : SetCookies} {refused : Bool} {sent : Time}
    (hbare : flight' = .rendering none cookies refused sent) : ∃ code, a = .fails code := by
  subst hbare
  unfold advance at h
  split at h
  · next via r sent =>
      exfalso
      obtain ⟨answer, hanswer, hsettle⟩ := Option.map_eq_some_iff.mp h
      obtain ⟨row, hrow⟩ := hheld r rfl
      rcases hstands row hrow with hstage | ⟨r', hpair⟩
      · rw [stage_answer hstage] at hanswer
        cases hanswer
      · obtain ⟨access, rfl⟩ := pairOf_done hpair
        cases hanswer
        cases via <;> cases hsettle
  · exact ⟨_, rfl⟩
  · exact ⟨_, rfl⟩
  · split_ifs at h
    cases h
  · cases h
  · cases h
  · cases h
  · split at h
    · split_ifs at h <;> cases h
    · cases h
  all_goals cases h

theorem visit_bare {now : Time} {cookies : Cookies} {pathname : String} {access : Option Jwt}
    {set : SetCookies} {refused : Bool} {sent : Time}
    (h : visit app now cookies pathname = .rendering access set refused sent) :
    access = cookies.access ∧ set = .keep ∧ (access = none → cookies.refreshToken = none) := by
  unfold visit at h
  cases hpublic : isPublic app pathname with
  | true =>
      rw [proxy_public hpublic] at h
      simp [hpublic] at h
  | false =>
      rcases proxy_protected hpublic with ⟨-, hproxy⟩ | ⟨-, hbare, hproxy⟩ | ⟨-, r, -, hproxy⟩ <;>
        rw [hproxy] at h <;> simp only [hpublic, Bool.false_eq_true, if_false] at h
      · cases h
      · cases h
        exact ⟨rfl, rfl, hbare⟩
      · cases h

/-- A page that renders at once does so with the access token of its request. -/
theorem visit_access {pathname : String} {token : Jwt}
    (h : token ∈ accesses .idle (visit app w.clock (w.jar.send w.clock) pathname)) :
    ∃ cookie ∈ w.jar.access, cookie.value = token := by
  unfold visit at h
  split at h
  · split_ifs at h
    · cases h
    · rcases accesses_render token h with hold | hset
      · obtain ⟨cookie, hcookie, hsent⟩ := Option.bind_eq_some_iff.mp hold
        unfold Cookie.sent at hsent
        split_ifs at hsent
        exact ⟨cookie, hcookie, Option.some.inj hsent⟩
      · cases hset
  · cases h

theorem accessOf_eq {token : Jwt} (h : token ∈ accessOf p) :
    ∃ identity refreshToken, p = .done (.session identity token refreshToken) := by
  unfold accessOf at h
  split at h
  · rw [List.mem_singleton.mp h]
    exact ⟨_, _, rfl⟩
  · cases h

/-- The access token of a refresh is signed for the session's user. -/
theorem serve_access {i : Input} {q : Pc} {s' : Shared} {token : Jwt}
    (hkept : Kept env σ L mirror s₀ w) (hpermits : permits w.clock i (w.flights c) = true)
    (hstep : step env i (w.service.client c) w.service.data = some (q, s'))
    (htoken : token ∈ accesses q (w.flights c)) :
    token ∈ accesses (w.service.client c) (w.flights c) ∨ Signed σ s' token := by
  have hstands := hkept.stands c
  have hcarried := hkept.carried c
  cases hflight : w.flights c with
  | refreshing via r sent =>
      rw [hflight] at hpermits htoken hstands hcarried
      obtain ⟨row, hrow, -⟩ := hcarried r rfl
      rcases hstands row hrow with hstage | ⟨r', hpair⟩
      · obtain ⟨identity, drawn, hq⟩ := accessOf_eq htoken
        have hrequest : ∀ r' now, i = .request r' now → r' = .refresh r := by
          rintro r' now rfl
          exact permits_refresh hpermits
        obtain ⟨-, hminted, hsub⟩ := stage_session hstage hstep hrequest hq
        exact .inr ⟨hminted, hrow.user ▸ hsub⟩
      · rw [money_same hstep (pair_ended hpair hstep)] at htoken
        exact .inl htoken
  | _ =>
      rw [hflight] at htoken
      exact .inl htoken

theorem Bears.event {l : ℕ × Action} (hkept : Kept env σ L mirror s₀ w) (h : Bears σ tr w)
    (hn : EdgeSessions.next app env l w = some t) (hcalm : Calm app σ L ⟨w, l, t⟩) :
    Bears σ (tr ++ [⟨w, l, t⟩]) t := by
  have hsub : tr ⊆ tr ++ [⟨w, l, t⟩] := List.subset_append_left _ _
  have hlast : ⟨w, l, t⟩ ∈ tr ++ [(⟨w, l, t⟩ : Event (ℕ × Action) World)] :=
    List.mem_append_right _ List.mem_cons_self
  have hclock := hcalm.clock
  have hheld : ∀ c, ∀ r ∈ carries (w.flights c), ∃ row, Held env σ w.service.data r row :=
    fun c r hr => (hkept.carried c r hr).imp fun _ hrow => hrow.1
  cases next_moves hn with
  | ticks => exact ⟨h.jar, h.flights, (h.mono hsub).bare⟩
  | serves c i s' hpermits hnext =>
      have hstep := next_self hnext
      have hsigned : ∀ token, Signed σ w.service.data token → Signed σ s'.data token :=
        fun token hold => ⟨minted_mono (step_statement hstep) hold.1, hold.2⟩
      refine ⟨fun cookie hcookie => hsigned _ (h.jar cookie hcookie), fun x token htoken => ?_,
        (h.mono hsub).bare⟩
      by_cases hx : x = c
      · subst hx
        rcases serve_access hkept hpermits hstep htoken with hold | hnew
        · exact hsigned token (h.flights x token hold)
        · exact hnew
      · simp only [next_other hnext hx] at htoken
        exact hsigned token (h.flights x token htoken)
  | arrives c response sent hflight =>
      have hput : Bears σ (tr ++ [_]) (w.put c .landed) :=
        (h.mono hsub).put (fun _ htoken => nomatch htoken) fun _ _ _ hlanded => nomatch hlanded
      refine ⟨fun cookie hcookie => ?_, hput.flights, hput.bare⟩
      have hstands := hkept.stands c
      have hold := h.flights c
      rw [hflight] at hstands hold
      obtain ⟨outcome, cookies⟩ := response
      obtain rfl | ⟨tokens, rfl⟩ : Renews cookies := hstands
      · exact h.jar cookie hcookie
      · cases hcookie
        exact hold tokens.accessToken (List.mem_singleton_self _)
  | loses c response sent hflight =>
      exact (h.mono hsub).put (fun _ htoken => nomatch htoken) fun _ _ _ hlanded => nomatch hlanded
  | reads c lost access cookies refused sent hflight =>
      have hold := h.flights c
      rw [hflight] at hold
      refine (h.mono hsub).put hold fun cookies' refused' t' hbare => ?_
      cases hbare
      exact (h.mono hsub).bare c _ _ _ hflight
  | departs c a flight hunsent hidle hdepart =>
      refine (h.mono hsub).put (fun token htoken => ?_) fun cookies refused sent hbare => ?_
      · cases a with
        | visit pathname =>
            cases hdepart
            obtain ⟨cookie, hcookie, rfl⟩ := visit_access (hidle ▸ htoken)
            exact h.jar cookie hcookie
        | write | signIn | signOut =>
            cases hdepart
            cases htoken
        | _ => cases hdepart
      · cases a with
        | visit pathname =>
            have hnone := (visit_bare (Option.some.inj hdepart ▸ hbare)).2.2 rfl
            exact absurd hnone (hkept.refreshToken_ne_none hclock)
        | write | signIn | signOut =>
            cases hdepart
            cases hbare
        | _ => cases hdepart
  | advances c a flight hadvance =>
      refine (h.mono hsub).put (fun token htoken => ?_) fun cookies refused sent hbare => ?_
      · have hcalling : ∀ cookies t, w.flights c = .calling cookies t →
            w.service.client c = .idle := by
          intro cookies t hcalling
          have hstands := hkept.stands c
          rw [hcalling] at hstands
          exact hstands
        exact h.flights c token (advance_accesses hadvance hcalling token htoken)
      · obtain ⟨code, rfl⟩ := advance_bare hadvance (hkept.stands c) (hheld c) hbare
        exact ⟨_, hlast, code, rfl⟩

end Bears

/-! ## The whole run -/

def sessionOf (token : RefreshToken) : Session := ⟨token.familyId, token.userId, token.expiresAt⟩

/-- The browser holds an unused token of an active user, in a cookie that lasts as long,
and access tokens of no other user. -/
structure SignedIn (env : Env) (now : Time) (jar : Jar) (s₀ : Shared) (token : RefreshToken)
    (cookie : Cookie String) : Prop where
  refresh : jar.refresh = some cookie
  nonempty : cookie.value ≠ ""
  stored : token ∈ s₀.refreshTokens.table.rows
  hash : token.tokenHash = env.sha256 cookie.value
  unused : token.usedAt = none
  active : userActive s₀ token.userId
  ttl : token.expiresAt ≤ now + refreshTtl
  lasts : token.expiresAt ≤ cookie.expiresAt
  access : ∀ cookie' ∈ jar.access, Signed (sessionOf token) s₀ cookie'.value

section Whole
variable {app : App} {env : Env} {L now : Time} {jar : Jar} {s₀ : Shared} {token : RefreshToken}
  {cookie : Cookie String} {tr before : List (Event (ℕ × Action) World)} {w : World}
  {e : Event (ℕ × Action) World} {c : ℕ}

theorem start_kept (h : SignedIn env now jar s₀ token cookie) :
    Kept env (sessionOf token) L jar.user s₀ (EdgeSessions.start now jar s₀) where
  service := ⟨[], .start⟩
  active := h.active
  ttl := h.ttl
  user := rfl
  stands _ := trivial
  sent _ _ ht := nomatch ht
  jar := by
    refine ⟨cookie, token, h.refresh, h.lasts, ⟨h.nonempty,
      IndexedTable.lookup_eq_some.mpr ⟨h.stored, h.hash⟩, rfl, rfl, le_rfl⟩, fun usedAt hat => ?_⟩
    rw [h.unused] at hat
    cases hat
  carried _ _ hr := nomatch hr
  brought _ _ hr := nomatch hr
  unseen _ _ hr := nomatch hr
  distinct _ _ hr := nomatch hr

theorem start_bears (h : SignedIn env now jar s₀ token cookie) :
    Bears (sessionOf token) [] (EdgeSessions.start now jar s₀) where
  jar := h.access
  flights _ _ htoken := nomatch htoken
  bare _ _ _ _ hflight := nomatch hflight

theorem run_kept (h : Run (EdgeSessions.next app env) (EdgeSessions.start now jar s₀) tr w)
    (hin : SignedIn env now jar s₀ token cookie) (hL : 2 * L < reuseGrace)
    (hcalm : ∀ e ∈ tr, Calm app (sessionOf token) L e) :
    Kept env (sessionOf token) L jar.user s₀ w ∧ Bears (sessionOf token) tr w :=
  h.history (Calm app (sessionOf token) L)
    (fun tr w => Kept env (sessionOf token) L jar.user s₀ w ∧ Bears (sessionOf token) tr w)
    ⟨start_kept hin, start_bears hin⟩
    (fun _ _ _ _ hk hn hc => ⟨hk.1.event hL hn hc, hk.2.event hk.1 hn hc⟩) hcalm

/-- Request `c` visits a page without the identity cookie. -/
def Anonymous (c : ℕ) (e : Event (ℕ × Action) World) : Prop :=
  ∃ pathname, e.label = (c, .visit pathname) ∧ (e.pre.jar.send e.pre.clock).user = none

end Whole

end MaxOne.EdgeSurvival
