import MaxOne.ConcurrentRefreshes

/-!
# Sessions between a browser and the API

The browser holds three cookies, and every page visit and every write passes
through the Next server: the proxy in front of the pages refreshes an expired
access token before the page renders, the page makes calls of its own, and a route
handler refreshes a token that the API has refused and retries once. Any number of
requests are under way at a time. A request carries the cookies as they were when it
was sent, and what its answer sets applies when the answer arrives. The refreshes are
requests of the modelled authentication service, next to those of everybody else, on
one clock.
-/
namespace MaxOne.EdgeSessions
open Library Library.Runs Library.Interleaving MaxOne.Schema MaxOne.Accounts MaxOne.AuthService
  MaxOne.AuthRuns
open MaxOne.ConcurrentRefreshes (userActive)

/-- The customers' site and the back office. -/
inductive App where
  | customer
  | staff
  deriving DecidableEq, Repr

/-! ## Cookies -/

structure Cookie (α : Type) where
  value : α
  expiresAt : Time
  deriving DecidableEq, Repr

/-- `Max-Age` counts seconds from the arrival of the response. -/
def Cookie.set {α : Type} (now : Time) (maxAge : ℕ) (value : α) : Cookie α :=
  ⟨value, now + maxAge * 1000⟩

def Cookie.sent {α : Type} (now : Time) (cookie : Cookie α) : Option α :=
  if now < cookie.expiresAt then some cookie.value else none

theorem Cookie.sent_set {α : Type} (now : Time) (maxAge : ℕ) (value : α) (h : 0 < maxAge) :
    (Cookie.set now maxAge value).sent now = some value :=
  if_pos (Nat.lt_add_of_pos_right (Nat.mul_pos h (by decide)))

def accessMaxAge : ℕ := 60 * 15

def refreshMaxAge : ℕ := 60 * 60 * 24 * 7

theorem refreshMaxAge_pos : 0 < refreshMaxAge := by decide

/-- The cookies of the browser: `access_token`, `refresh_token`, `session_user`. -/
structure Jar where
  access : Option (Cookie Jwt)
  refresh : Option (Cookie String)
  user : Option (Cookie PublicUser)
  deriving DecidableEq, Repr

/-- `request.cookies` -/
structure Cookies where
  access : Option Jwt
  refresh : Option String
  user : Option PublicUser
  deriving DecidableEq, Repr

def Jar.send (jar : Jar) (now : Time) : Cookies :=
  ⟨jar.access.bind (·.sent now), jar.refresh.bind (·.sent now), jar.user.bind (·.sent now)⟩

/-- What `/auth/refresh` returns. -/
structure Tokens where
  accessToken : Jwt
  refreshToken : String
  deriving DecidableEq, Repr

/-- What a response does to the cookies. -/
inductive SetCookies where
  | keep
  | refreshAuthCookies (tokens : Tokens)
  | setAuthCookies (user : PublicUser) (tokens : Tokens)
  | clearAuthCookies
  deriving DecidableEq, Repr

def Jar.receive (jar : Jar) (now : Time) : SetCookies → Jar
  | .keep => jar
  | .refreshAuthCookies tokens =>
      { jar with
        access := some (.set now accessMaxAge tokens.accessToken)
        refresh := some (.set now refreshMaxAge tokens.refreshToken) }
  | .setAuthCookies user tokens =>
      { access := some (.set now accessMaxAge tokens.accessToken)
        refresh := some (.set now refreshMaxAge tokens.refreshToken)
        user := some (.set now refreshMaxAge user) }
  | .clearAuthCookies => ⟨none, none, none⟩

theorem Jar.receive_session {jar : Jar} {now : Time} {user : PublicUser} {tokens : Tokens} :
    ((jar.receive now (.setAuthCookies user tokens)).user.bind (·.sent now)) = some user := by
  simp only [Jar.receive]
  rw [Option.bind_some]
  exact Cookie.sent_set now refreshMaxAge user refreshMaxAge_pos

/-! ## The Next server -/

/-- The page that follows, a redirect, or the status of a route handler. -/
inductive Outcome where
  | next
  | redirect (path : String)
  | status (code : ℕ)
  deriving DecidableEq, Repr

structure NextResponse where
  outcome : Outcome
  cookies : SetCookies
  deriving DecidableEq, Repr

/-- How a call of `/auth/refresh` ends; `status` is one that is not `ok`. -/
inductive Answer where
  | unreachable
  | status (code : ℕ)
  | ok (tokens : Tokens)
  deriving DecidableEq, Repr

def publicPaths : App → List String
  | .customer => ["/login", "/signup"]
  | .staff => ["/login"]

def isPublic (app : App) (pathname : String) : Bool :=
  (publicPaths app).any fun p =>
    pathname = p || (p ++ "/").toList.isPrefixOf pathname.toList

/-- A refresh token that is not the empty text. -/
def Cookies.refreshToken (cookies : Cookies) : Option String :=
  cookies.refresh.filter fun raw => raw ≠ ""

/-- What the proxy decides: an answer, or a refresh with this token. -/
def proxy (app : App) (cookies : Cookies) (pathname : String) : Outcome ⊕ String :=
  let isPublic := isPublic app pathname
  let hasSession := cookies.user.isSome
  if hasSession && isPublic then .inl (.redirect "/")
  else if !hasSession && !isPublic then .inl (.redirect "/login")
  else match cookies.refreshToken with
    | some refreshToken =>
        if hasSession && !isPublic && cookies.access.isNone then .inr refreshToken
        else .inl .next
    | none => .inl .next

theorem proxy_public {app : App} {cookies : Cookies} {pathname : String}
    (h : isPublic app pathname = true) :
    proxy app cookies pathname = .inl (if cookies.user.isSome then .redirect "/" else .next) := by
  cases huser : cookies.user with
  | none => cases hrefresh : cookies.refreshToken <;> simp [proxy, h, huser, hrefresh]
  | some user => simp [proxy, h, huser]

/-- The three ways of a visit to a page that is not public. -/
theorem proxy_protected {app : App} {cookies : Cookies} {pathname : String}
    (h : isPublic app pathname = false) :
    (cookies.user = none ∧ proxy app cookies pathname = .inl (.redirect "/login")) ∨
    (cookies.user ≠ none ∧ (cookies.access = none → cookies.refreshToken = none) ∧
      proxy app cookies pathname = .inl .next) ∨
    (cookies.user ≠ none ∧ ∃ refreshToken, cookies.refreshToken = some refreshToken ∧
      proxy app cookies pathname = .inr refreshToken) := by
  cases huser : cookies.user with
  | none => exact .inl ⟨rfl, by simp [proxy, h, huser]⟩
  | some user =>
      right
      cases hrefresh : cookies.refreshToken with
      | none => exact .inl ⟨by simp, fun _ => rfl, by simp [proxy, h, huser, hrefresh]⟩
      | some refreshToken =>
          cases haccess : cookies.access with
          | none =>
              exact .inr ⟨by simp, refreshToken, rfl, by simp [proxy, h, huser, hrefresh, haccess]⟩
          | some access =>
              exact .inl ⟨by simp, by simp, by simp [proxy, h, huser, hrefresh, haccess]⟩

def rejects (code : ℕ) : Bool := code = 401 || code = 403

def refreshAtEdge : App → Answer → NextResponse
  | _, .ok tokens => ⟨.next, .refreshAuthCookies tokens⟩
  | .customer, .unreachable => ⟨.next, .keep⟩
  | .customer, .status code =>
      if rejects code then ⟨.redirect "/login", .clearAuthCookies⟩ else ⟨.next, .keep⟩
  | .staff, .unreachable => ⟨.status 500, .keep⟩
  | .staff, .status _ => ⟨.redirect "/login", .clearAuthCookies⟩

/-- The refresh is made by the proxy or by a route handler. -/
inductive Via where
  | edge
  | route
  deriving DecidableEq, Repr

/-- Where a request of the browser stands. `calling`, `refreshing` and `retrying`
are the three calls of `serverApiWithRefresh`. A page that is `rendering` makes its
calls with an access token, sets the cookies of the proxy, and remembers whether a call
it cannot do without has been refused. -/
inductive Flight where
  | unsent
  | rendering (access : Option Jwt) (cookies : SetCookies) (refused : Bool) (sentAt : Time)
  | calling (cookies : Cookies) (sentAt : Time)
  | refreshing (via : Via) (refreshToken : String) (sentAt : Time)
  | retrying (tokens : Tokens) (sentAt : Time)
  | signingIn (sentAt : Time)
  | signingOut (sentAt : Time)
  | answered (response : NextResponse) (sentAt : Time)
  | landed
  deriving DecidableEq, Repr

/-- A handler that throws answers 500 and sets nothing. -/
def thrown : NextResponse := ⟨.status 500, .keep⟩

/-- A page that the proxy lets through reads the cookies the proxy has just set, or else
those of the request. -/
def render (access : Option Jwt) (sentAt : Time) : NextResponse → Flight
  | ⟨.next, .refreshAuthCookies tokens⟩ =>
      .rendering (some tokens.accessToken) (.refreshAuthCookies tokens) false sentAt
  | ⟨.next, cookies⟩ => .rendering access cookies false sentAt
  | response => .answered response sentAt

theorem render_cases (access : Option Jwt) (sentAt : Time) (response : NextResponse) :
    (response.outcome = .next ∧
      ∃ token, render access sentAt response = .rendering token response.cookies false sentAt) ∨
    (response.outcome ≠ .next ∧ render access sentAt response = .answered response sentAt) := by
  obtain ⟨outcome, cookies⟩ := response
  cases outcome with
  | next => cases cookies <;> exact .inl ⟨rfl, _, rfl⟩
  | redirect | status => exact .inr ⟨by simp, rfl⟩

/-- The API lets a call of `serverApi` pass. A read of the user that is `lost` counts as
one that finds nobody. -/
def jwtAuthGuard (s : Shared) (now : Time) (lost : Bool) (access : Option Jwt) : Bool :=
  match access.bind (verifyAsync s.minted now) with
  | none => false
  | some payload => !lost && (validate s payload).isSome

/-- A page goes to the login page when a call has been refused and only then, unless
another call of it throws. -/
def renders (refused : Bool) (page : Outcome) : Bool :=
  page = .status 500 || decide (page = .redirect "/login") == refused

/-- After the refresh of `serverApiWithRefresh`: the first answer stands, or the
call is made again. -/
def refreshInRoute (app : App) (sentAt : Time) : Answer → Flight
  | .ok tokens => .retrying tokens sentAt
  | .unreachable =>
      match app with
      | .customer => .answered ⟨.status 401, .keep⟩ sentAt
      | .staff => .answered thrown sentAt
  | .status code =>
      match app with
      | .customer =>
          if rejects code then .answered ⟨.status 401, .clearAuthCookies⟩ sentAt
          else .answered ⟨.status 401, .keep⟩ sentAt
      | .staff => .answered ⟨.status 401, .clearAuthCookies⟩ sentAt

def settle (app : App) (sentAt : Time) (answer : Answer) : Via → Flight
  | .edge => render none sentAt (refreshAtEdge app answer)
  | .route => refreshInRoute app sentAt answer

/-- The answer a request of the authentication service has come to. -/
def answerOf : Pc → Option Answer
  | .done (.session _ accessToken refreshToken) => some (.ok ⟨accessToken, refreshToken⟩)
  | .failed e => some (.status e.status)
  | _ => none

/-! ## The machine -/

structure World where
  clock : Time
  jar : Jar
  flights : ℕ → Flight
  service : Service

/-- `fails` is a refresh that its handler never answers: unreachable, or a status of
the rate limiter or a gateway. `reads` is a call a page cannot do without, `renders` what
the page comes to, and `replies` how any other call ends. -/
inductive Action where
  | tick (ms : ℕ)
  | visit (pathname : String)
  | write
  | signIn
  | signOut
  | backend (i : Input)
  | refreshed
  | fails (code : Option ℕ)
  | reads (lost : Bool)
  | renders (page : Outcome)
  | replies (code : Option ℕ)
  | signedIn (user : PublicUser) (tokens : Tokens)
  | arrive
  | lose

/-- A public page asks the API for nothing. -/
def visit (app : App) (now : Time) (cookies : Cookies) (pathname : String) : Flight :=
  match proxy app cookies pathname with
  | .inl outcome =>
      if isPublic app pathname then .answered ⟨outcome, .keep⟩ now
      else render cookies.access now ⟨outcome, .keep⟩
  | .inr refreshToken => .refreshing .edge refreshToken now

/-- A request leaves the browser and meets the proxy or its route handler. -/
def depart (app : App) (now : Time) (cookies : Cookies) : Action → Option Flight
  | .visit pathname => some (visit app now cookies pathname)
  | .write => some (.calling cookies now)
  | .signIn => some (.signingIn now)
  | .signOut => some (.signingOut now)
  | _ => none

/-- What a request waits for ends; `p` is where its refresh stands. -/
def advance (app : App) (p : Pc) : Action → Flight → Option Flight
  | .refreshed, .refreshing via _ sentAt =>
      (answerOf p).map fun answer => settle app sentAt answer via
  | .fails none, .refreshing via _ sentAt => some (settle app sentAt .unreachable via)
  | .fails (some code), .refreshing via _ sentAt =>
      if rejects code then none else some (settle app sentAt (.status code) via)
  | .renders page, .rendering _ cookies refused sentAt =>
      if renders refused page then some (.answered ⟨page, cookies⟩ sentAt) else none
  | .replies none, .calling _ sentAt | .replies none, .retrying _ sentAt
  | .replies none, .signingIn sentAt => some (.answered thrown sentAt)
  | .replies (some code), .calling cookies sentAt =>
      match cookies.refreshToken with
      | some refreshToken =>
          if code = 401 then some (.refreshing .route refreshToken sentAt)
          else some (.answered ⟨.status code, .keep⟩ sentAt)
      | none => some (.answered ⟨.status code, .keep⟩ sentAt)
  | .replies (some code), .retrying tokens sentAt =>
      some (.answered ⟨.status code, .refreshAuthCookies tokens⟩ sentAt)
  | .replies (some code), .signingIn sentAt => some (.answered ⟨.status code, .keep⟩ sentAt)
  | .signedIn user tokens, .signingIn sentAt =>
      some (.answered ⟨.status 200, .setAuthCookies user tokens⟩ sentAt)
  | .replies _, .signingOut sentAt => some (.answered ⟨.status 204, .clearAuthCookies⟩ sentAt)
  | _, _ => none

/-- The time at which an input is supplied. -/
def inputAt : Input → Option Time
  | .request _ now => some now
  | .run d => some d.now
  | .lost | .money _ => none

/-- A request of the service that belongs to a flight is that flight's refresh. -/
def permits (now : Time) (i : Input) (flight : Flight) : Bool :=
  (inputAt i).all (fun at' => at' = now) &&
    match i, flight with
    | .request _ _, .unsent => true
    | .request (.refresh r) _, .refreshing _ refreshToken _ => r = refreshToken
    | .request _ _, _ => false
    | _, _ => true

def World.put (w : World) (c : ℕ) (flight : Flight) : World :=
  { w with flights := Function.update w.flights c flight }

/-- A browser with some cookies and nothing under way. -/
def start (now : Time) (jar : Jar) (s : Shared) : World where
  clock := now
  jar := jar
  flights _ := .unsent
  service := AuthRuns.start s

def isIdle : Pc → Bool
  | .idle => true
  | _ => false

def next (app : App) (env : Env) (l : ℕ × Action) (w : World) : Option World :=
  match l.2 with
  | .tick ms => some { w with clock := w.clock + ms }
  | .backend i =>
      if permits w.clock i (w.flights l.1) then
        (AuthRuns.next env (l.1, i) w.service).map fun s => { w with service := s }
      else none
  | .arrive =>
      match w.flights l.1 with
      | .answered response _ =>
          some { w.put l.1 .landed with jar := w.jar.receive w.clock response.cookies }
      | _ => none
  | .lose =>
      match w.flights l.1 with
      | .answered _ _ => some (w.put l.1 .landed)
      | _ => none
  | .reads lost =>
      match w.flights l.1 with
      | .rendering access cookies refused sentAt =>
          let passes := jwtAuthGuard w.service.data w.clock lost access
          some (w.put l.1 (.rendering access cookies (refused || !passes) sentAt))
      | _ => none
  | a =>
      match w.flights l.1 with
      | .unsent =>
          if isIdle (w.service.client l.1) then
            (depart app w.clock (w.jar.send w.clock) a).map (w.put l.1)
          else none
      | flight => (advance app (w.service.client l.1) a flight).map (w.put l.1)

/-! ## What one step does -/

inductive Moves (app : App) (env : Env) (w : World) : ℕ × Action → World → Prop
  | ticks (c ms : ℕ) : Moves app env w (c, .tick ms) { w with clock := w.clock + ms }
  | serves (c : ℕ) (i : Input) (s : Service) (hpermits : permits w.clock i (w.flights c) = true)
      (hnext : AuthRuns.next env (c, i) w.service = some s) :
      Moves app env w (c, .backend i) { w with service := s }
  | arrives (c : ℕ) (response : NextResponse) (sentAt : Time)
      (hflight : w.flights c = .answered response sentAt) :
      Moves app env w (c, .arrive)
        { w.put c .landed with jar := w.jar.receive w.clock response.cookies }
  | loses (c : ℕ) (response : NextResponse) (sentAt : Time)
      (hflight : w.flights c = .answered response sentAt) :
      Moves app env w (c, .lose) (w.put c .landed)
  | reads (c : ℕ) (lost : Bool) (access : Option Jwt) (cookies : SetCookies) (refused : Bool)
      (sentAt : Time) (hflight : w.flights c = .rendering access cookies refused sentAt) :
      Moves app env w (c, .reads lost) (w.put c (.rendering access cookies
        (refused || !jwtAuthGuard w.service.data w.clock lost access) sentAt))
  | departs (c : ℕ) (a : Action) (flight : Flight) (hunsent : w.flights c = .unsent)
      (hidle : w.service.client c = .idle)
      (hdepart : depart app w.clock (w.jar.send w.clock) a = some flight) :
      Moves app env w (c, a) (w.put c flight)
  | advances (c : ℕ) (a : Action) (flight : Flight)
      (hadvance : advance app (w.service.client c) a (w.flights c) = some flight) :
      Moves app env w (c, a) (w.put c flight)

section Moves
variable {app : App} {env : Env} {w t : World} {l : ℕ × Action}

theorem isIdle_iff {p : Pc} : isIdle p = true ↔ p = .idle := by
  cases p <;> simp [isIdle]

theorem next_moves (h : next app env l w = some t) : Moves app env w l t := by
  obtain ⟨c, a⟩ := l
  have hcall : ∀ a, (match w.flights c with
      | .unsent =>
          if isIdle (w.service.client c) then
            (depart app w.clock (w.jar.send w.clock) a).map (w.put c)
          else none
      | flight => (advance app (w.service.client c) a flight).map (w.put c)) = some t →
      Moves app env w (c, a) t := by
    intro a h
    split at h
    · next hunsent =>
        split_ifs at h with hidle
        obtain ⟨flight, hflight, rfl⟩ := Option.map_eq_some_iff.mp h
        exact .departs c a flight hunsent (isIdle_iff.mp hidle) hflight
    · obtain ⟨flight, hflight, rfl⟩ := Option.map_eq_some_iff.mp h
      exact .advances c a flight hflight
  cases a with
  | tick ms =>
      cases h
      exact .ticks c ms
  | backend i =>
      simp only [next] at h
      split_ifs at h with hpermits
      obtain ⟨s, hs, rfl⟩ := Option.map_eq_some_iff.mp h
      exact .serves c i s hpermits hs
  | arrive =>
      simp only [next] at h
      split at h
      · next response sentAt hflight =>
          cases h
          exact .arrives c response sentAt hflight
      · cases h
  | lose =>
      simp only [next] at h
      split at h
      · next response sentAt hflight =>
          cases h
          exact .loses c response sentAt hflight
      · cases h
  | reads lost =>
      simp only [next] at h
      split at h
      · next access cookies refused sentAt hflight =>
          cases h
          exact .reads c lost access cookies refused sentAt hflight
      · cases h
  | _ => exact hcall _ h

theorem put_flights (c : ℕ) (flight : Flight) (x : ℕ) :
    (w.put c flight).flights x = if x = c then flight else w.flights x := by
  simp only [World.put, Function.update_apply]

theorem put_self (c : ℕ) (flight : Flight) : (w.put c flight).flights c = flight :=
  Function.update_self _ _ _

theorem put_of_ne {c x : ℕ} (flight : Flight) (hx : x ≠ c) :
    (w.put c flight).flights x = w.flights x :=
  Function.update_of_ne hx _ _

end Moves

/-! ## When a session ends

A customer's session ends in the browser when the identity cookie is gone. -/

def hasSession (w : World) : Bool := (w.jar.send w.clock).user.isSome

/-- The read of `rotate` rejects the token for good: unknown, of a user who may not
sign in, used 30 seconds ago or longer, or expired. -/
def Dead (env : Env) (s : Shared) (refreshToken : String) (now : Time) : Prop :=
  ∀ row, s.refreshTokens.lookup (env.sha256 refreshToken) = some row →
    (∃ user, s.users.find row.userId = some user ∧ user.status ≠ .active) ∨
      (∃ usedAt, row.usedAt = some usedAt ∧ usedAt + reuseGrace ≤ now) ∨
      (row.usedAt = none ∧ row.expiresAt < now)

/-- The service has read the refresh token that request `c` was sent with, and
rejected it. -/
def Verdict (env : Env) (tr : List (Event (ℕ × Action) World)) (c : ℕ) (refreshToken : String) :
    Prop :=
  ∃ e ∈ tr, ∃ d, e.label = (c, .backend (.run d)) ∧
    e.pre.service.client c = .rotate refreshToken ∧
    Dead env e.pre.service.data refreshToken d.now

/-- At this event request `c` leaves the browser. -/
def Departs (c : ℕ) (e : Event (ℕ × Action) World) : Prop :=
  e.label.1 = c ∧ e.pre.flights c = .unsent ∧ e.post.flights c ≠ .unsent

/-- Request `c` was sent with this refresh token. -/
def Carried (tr : List (Event (ℕ × Action) World)) (c : ℕ) (refreshToken : String) : Prop :=
  ∃ e ∈ tr, Departs c e ∧ (e.pre.jar.send e.pre.clock).refresh = some refreshToken

def SignedOut (tr : List (Event (ℕ × Action) World)) (c : ℕ) : Prop :=
  ∃ e ∈ tr, e.label = (c, .signOut)

/-- The reasons for which request `c` may end the session. -/
def Told (env : Env) (tr : List (Event (ℕ × Action) World)) (c : ℕ) : Prop :=
  SignedOut tr c ∨ ∃ refreshToken, Carried tr c refreshToken ∧ Verdict env tr c refreshToken

/-- Where a refresh stands, and what has been found if it is to be refused. -/
def Waiting (dead : Prop) (refreshToken : String) : Pc → Prop
  | .rotate r => r = refreshToken
  | .idle | .claim .. | .issueTokens .. | .done _ => True
  | .deleteFamily _ | .deleteExpired _ => dead
  | .failed e => rejects e.status = true → dead
  | _ => False

/-- What the events so far say about a request. -/
def Story (env : Env) (tr : List (Event (ℕ × Action) World)) (c : ℕ) (p : Pc) : Flight → Prop
  | .calling cookies _ => p = .idle ∧ ∀ r ∈ cookies.refresh, Carried tr c r
  | .refreshing _ refreshToken _ =>
      Carried tr c refreshToken ∧ Waiting (Verdict env tr c refreshToken) refreshToken p
  | .signingOut _ => SignedOut tr c
  | .rendering _ cookies _ _ => cookies ≠ .clearAuthCookies
  | .answered response _ => response.cookies = .clearAuthCookies → Told env tr c
  | .unsent | .retrying .. | .signingIn _ | .landed => True

section Ends
variable {env : Env} {tr : List (Event (ℕ × Action) World)} {c : ℕ} {p q : Pc} {dead dead' : Prop}
  {refreshToken : String}

theorem Waiting.mono (h : Waiting dead refreshToken p) (hdead : dead → dead') :
    Waiting dead' refreshToken p := by
  cases p with
  | deleteFamily | deleteExpired => exact hdead h
  | failed e => exact fun hrejects => hdead (h hrejects)
  | _ => exact h

/-- Whatever the read of `rotate` finds, a refusal is a verdict on the token. -/
theorem rotate_waiting {s : Shared} {now : Time} (hdead : Dead env s refreshToken now → dead) :
    Waiting dead refreshToken (rotate env now s refreshToken) := by
  cases hlookup : s.refreshTokens.lookup (env.sha256 refreshToken) with
  | none =>
      simp only [rotate, hlookup, Waiting]
      exact fun _ => hdead fun row hrow => by rw [hlookup] at hrow; cases hrow
  | some row =>
      cases hfind : s.users.find row.userId with
      | none => simp [rotate, hlookup, hfind, Waiting, internalError, rejects]
      | some user =>
          have hof : (user.status ≠ .active ∨
              (∃ usedAt, row.usedAt = some usedAt ∧ usedAt + reuseGrace ≤ now) ∨
              (row.usedAt = none ∧ row.expiresAt < now)) → dead := by
            refine fun hwhy => hdead fun row' hrow' => ?_
            rw [hlookup, Option.some.injEq] at hrow'
            subst hrow'
            exact hwhy.imp_left fun hstatus => ⟨user, hfind, hstatus⟩
          simp only [rotate, hlookup, hfind, assertActive]
          by_cases hstatus : user.status ≠ .active
          · rw [if_pos hstatus]
            exact fun _ => hof (.inl hstatus)
          · rw [if_neg hstatus]
            cases hused : row.usedAt with
            | some usedAt =>
                simp only
                split_ifs with hgrace
                · trivial
                · exact hof (.inr (.inl ⟨usedAt, hused, not_lt.mp hgrace⟩))
            | none =>
                simp only
                split_ifs with hlate
                · exact hof (.inr (.inr ⟨hused, hlate⟩))
                · trivial

theorem claim_waiting {s : Shared} {d : Draw} {existing : RefreshToken} {user : User} :
    Waiting dead refreshToken (claim env d s existing user).1 := by
  unfold claim
  split_ifs
  · split
    · simp [Waiting, alreadyExists, rejects]
    · trivial
  · trivial

theorem issueTokens_waiting {s : Shared} {d : Draw} {user : User} {familyId : Option Uuid} :
    Waiting dead refreshToken (issueTokens env d s user familyId).1 := by
  unfold issueTokens
  split
  · simp [Waiting, alreadyExists, rejects]
  · trivial

/-- A statement of a refresh. -/
theorem Waiting.step {i : Input} {s s' : Shared} (h : Waiting dead refreshToken p)
    (hstep : step env i p s = some (q, s'))
    (hrequest : ∀ r now, i = .request r now → r = .refresh refreshToken)
    (hdead : dead → dead')
    (hverdict : ∀ d, i = .run d → p = .rotate refreshToken →
      Dead env s refreshToken d.now → dead') : Waiting dead' refreshToken q := by
  cases i with
  | request r now =>
      cases p with
      | idle =>
          cases hstep
          rw [hrequest r now rfl]
          exact rfl
      | _ => cases hstep
  | run d =>
      cases p with
      | rotate r =>
          obtain rfl : r = refreshToken := h
          cases hstep
          exact rotate_waiting fun hd => hverdict d rfl rfl hd
      | claim existing user =>
          simp only [step, statement] at hstep
          split_ifs at hstep
          have hq : q = (claim env d s existing user).1 := by rw [Option.some.inj hstep]
          rw [hq]
          exact claim_waiting
      | issueTokens user familyId =>
          simp only [step, statement] at hstep
          split_ifs at hstep
          have hq : q = (issueTokens env d s user familyId).1 := by rw [Option.some.inj hstep]
          rw [hq]
          exact issueTokens_waiting
      | deleteFamily familyId =>
          cases hstep
          exact fun _ => hdead h
      | deleteExpired id =>
          simp only [step, statement, deleteExpired] at hstep
          split_ifs at hstep
          · cases hstep
            simp [Waiting, recordNotFound, rejects]
          · cases hstep
            exact fun _ => hdead h
      | idle | done | failed => cases hstep
      | _ => exact h.elim
  | lost =>
      cases p with
      | rotate | claim | issueTokens | deleteFamily | deleteExpired =>
          cases hstep
          simp [Waiting, internalError, rejects]
      | idle | done | failed => cases hstep
      | _ => exact h.elim
  | money db =>
      cases hstep
      exact h.mono hdead

theorem Carried.mono {tr' : List (Event (ℕ × Action) World)} (hsub : tr ⊆ tr')
    (h : Carried tr c refreshToken) : Carried tr' c refreshToken := by
  obtain ⟨e, he, hcarried⟩ := h
  exact ⟨e, hsub he, hcarried⟩

theorem Verdict.mono {tr' : List (Event (ℕ × Action) World)} (hsub : tr ⊆ tr')
    (h : Verdict env tr c refreshToken) : Verdict env tr' c refreshToken := by
  obtain ⟨e, he, hverdict⟩ := h
  exact ⟨e, hsub he, hverdict⟩

theorem SignedOut.mono {tr' : List (Event (ℕ × Action) World)} (hsub : tr ⊆ tr')
    (h : SignedOut tr c) : SignedOut tr' c := by
  obtain ⟨e, he, hsigned⟩ := h
  exact ⟨e, hsub he, hsigned⟩

theorem Told.mono {tr' : List (Event (ℕ × Action) World)} (hsub : tr ⊆ tr') (h : Told env tr c) :
    Told env tr' c := by
  rcases h with hsigned | ⟨r, hcarried, hverdict⟩
  · exact .inl (hsigned.mono hsub)
  · exact .inr ⟨r, hcarried.mono hsub, hverdict.mono hsub⟩

theorem Story.mono {tr' : List (Event (ℕ × Action) World)} {flight : Flight} (hsub : tr ⊆ tr')
    (h : Story env tr c p flight) : Story env tr' c p flight := by
  cases flight with
  | calling => exact ⟨h.1, fun r hr => (h.2 r hr).mono hsub⟩
  | refreshing => exact ⟨h.1.mono hsub, h.2.mono fun hverdict => hverdict.mono hsub⟩
  | signingOut => exact SignedOut.mono hsub h
  | answered => exact fun hclear => (h hclear).mono hsub
  | _ => exact h

theorem refreshToken_eq_some {cookies : Cookies} (h : cookies.refreshToken = some refreshToken) :
    cookies.refresh = some refreshToken :=
  (Option.filter_eq_some_iff.mp h).1

theorem proxy_refresh {app : App} {cookies : Cookies} {pathname : String}
    (h : proxy app cookies pathname = .inr refreshToken) :
    cookies.refresh = some refreshToken := by
  simp only [proxy] at h
  split at h
  · cases h
  · split at h
    · cases h
    · split at h
      · next r hr =>
          split at h
          · cases h
            exact refreshToken_eq_some hr
          · cases h
      · cases h

theorem answered_story {response : NextResponse} {sentAt : Time}
    (h : response.cookies ≠ .clearAuthCookies) :
    Story env tr c p (.answered response sentAt) :=
  fun hclear => absurd hclear h

theorem render_story {access : Option Jwt} {response : NextResponse} {sentAt : Time}
    (h : response.cookies ≠ .clearAuthCookies) :
    Story env tr c p (render access sentAt response) := by
  rcases render_cases access sentAt response with ⟨-, token, hrender⟩ | ⟨-, hrender⟩
  · rw [hrender]
    exact h
  · rw [hrender]
    exact answered_story h

/-- The answer of a refused refresh is a refusal, and only that clears the cookies. -/
theorem settle_story {via : Via} {sentAt : Time} {answer : Answer}
    (htold : ∀ code, answer = .status code → rejects code = true → Told env tr c) :
    Story env tr c p (settle .customer sentAt answer via) := by
  cases answer with
  | unreachable =>
      cases via with
      | edge =>
          simp only [settle, refreshAtEdge]
          exact render_story (by decide)
      | route => exact answered_story (by decide)
  | ok tokens =>
      cases via with
      | edge =>
          simp only [settle, refreshAtEdge]
          exact render_story (by simp)
      | route => trivial
  | status code =>
      cases via <;>
        simp only [settle, refreshAtEdge, refreshInRoute] <;>
        split_ifs with hrejects
      · exact fun _ => htold code rfl hrejects
      · exact render_story (by simp)
      · exact fun _ => htold code rfl hrejects
      · exact answered_story (by simp)

theorem depart_ne_unsent {app : App} {now : Time} {cookies : Cookies} {a : Action}
    {flight : Flight} (h : depart app now cookies a = some flight) : flight ≠ .unsent := by
  rintro rfl
  cases a with
  | visit pathname =>
      simp only [depart, visit] at h
      split at h
      · next outcome _ =>
          rcases render_cases cookies.access now ⟨outcome, .keep⟩ with
            ⟨-, token, hrender⟩ | ⟨-, hrender⟩
          all_goals
            rw [hrender] at h
            split at h <;> cases h
      · cases h
  | _ => cases h

theorem depart_story {w : World} {a : Action} {flight : Flight} {e : Event (ℕ × Action) World}
    (h : depart .customer w.clock (w.jar.send w.clock) a = some flight) (he : e ∈ tr)
    (hlabel : e.label = (c, a)) (hpre : e.pre = w) (hunsent : w.flights c = .unsent)
    (hpost : e.post = w.put c flight) : Story env tr c .idle flight := by
  have hdeparts : Departs c e := by
    refine ⟨by rw [hlabel], by rw [hpre, hunsent], ?_⟩
    rw [hpost, put_self]
    exact depart_ne_unsent h
  have hcarried : ∀ r, (w.jar.send w.clock).refresh = some r → Carried tr c r :=
    fun r hr => ⟨e, he, hdeparts, by rw [hpre]; exact hr⟩
  cases a with
  | visit pathname =>
      cases h
      unfold visit
      split
      · split_ifs
        · exact answered_story (by simp)
        · exact render_story (by simp)
      · next hrefresh => exact ⟨hcarried _ (proxy_refresh hrefresh), trivial⟩
  | write =>
      cases h
      exact ⟨rfl, fun r hr => hcarried r hr⟩
  | signIn =>
      cases h
      trivial
  | signOut =>
      cases h
      exact ⟨e, he, hlabel⟩
  | _ => cases h

theorem advance_story {a : Action} {flight flight' : Flight}
    (h : advance .customer p a flight = some flight') (hstory : Story env tr c p flight) :
    Story env tr c p flight' := by
  unfold advance at h
  split at h
  · obtain ⟨answer, hanswer, rfl⟩ := Option.map_eq_some_iff.mp h
    refine settle_story fun code hcode hrejects => .inr ⟨_, hstory.1, ?_⟩
    subst hcode
    unfold answerOf at hanswer
    split at hanswer
    · cases hanswer
    · cases hanswer
      exact hstory.2 hrejects
    · cases hanswer
  · cases h
    refine settle_story fun code hcode => ?_
    cases hcode
  · split_ifs at h with hrejects
    cases h
    refine settle_story fun code hcode hcode' => ?_
    cases hcode
    exact absurd hcode' hrejects
  · split_ifs at h
    cases h
    exact answered_story hstory
  · cases h
    exact answered_story (by decide)
  · cases h
    exact answered_story (by decide)
  · cases h
    exact answered_story (by decide)
  · split at h
    · next hrefresh =>
        split_ifs at h
        · cases h
          refine ⟨hstory.2 _ (refreshToken_eq_some hrefresh), ?_⟩
          rw [hstory.1]
          trivial
        · cases h
          exact answered_story (by simp)
    · cases h
      exact answered_story (by simp)
  · cases h
    exact answered_story (by simp)
  · cases h
    exact answered_story (by simp)
  · cases h
    exact answered_story (by simp)
  · cases h
    exact fun _ => .inl hstory
  · cases h

/-- A request of the service whose flight has not come to its refresh waits. -/
theorem calling_idle {now : Time} {i : Input} {cookies : Cookies} {sentAt : Time} {s s' : Shared}
    (hpermits : permits now i (.calling cookies sentAt) = true)
    (hstep : step env i .idle s = some (q, s')) : q = .idle := by
  cases i with
  | request r now => simp [permits] at hpermits
  | money db =>
      simp only [step, Option.some.injEq, Prod.mk.injEq] at hstep
      exact hstep.1.symm
  | _ => cases hstep

/-- The refresh of a flight presents the token the flight carries. -/
theorem permits_refresh {now : Time} {r : Request} {at' : Time} {via : Via} {sentAt : Time}
    (h : permits now (.request r at') (.refreshing via refreshToken sentAt) = true) :
    r = .refresh refreshToken := by
  simp only [permits, Bool.and_eq_true] at h
  cases r with
  | refresh r => rw [of_decide_eq_true h.2]
  | _ => cases h.2

theorem step_story {w t : World} {l : ℕ × Action}
    (h : ∀ c, Story env tr c (w.service.client c) (w.flights c))
    (hn : next .customer env l w = some t) (c : ℕ) :
    Story env (tr ++ [⟨w, l, t⟩]) c (t.service.client c) (t.flights c) := by
  have hsub : tr ⊆ tr ++ [⟨w, l, t⟩] := List.subset_append_left _ _
  have hlast : ⟨w, l, t⟩ ∈ tr ++ [(⟨w, l, t⟩ : Event (ℕ × Action) World)] :=
    List.mem_append_right _ List.mem_cons_self
  have hold := (h c).mono hsub
  cases next_moves hn with
  | ticks => exact hold
  | serves c' i s' hpermits hnext =>
      by_cases hc : c = c'
      · subst hc
        have hstep := next_self hnext
        cases hflight : w.flights c with
        | calling =>
            rw [hflight] at hold hpermits
            rw [hold.1] at hstep
            exact ⟨calling_idle hpermits hstep, hold.2⟩
        | refreshing via refreshToken sentAt =>
            rw [hflight] at hold hpermits
            refine ⟨hold.1, hold.2.step hstep (fun r now hi => ?_) id fun d hi hp hdead => ?_⟩
            · simp only at hi
              subst hi
              exact permits_refresh hpermits
            · simp only at hi
              subst hi
              exact ⟨_, hlast, d, rfl, hp, hdead⟩
        | _ =>
            rw [hflight] at hold
            exact hold
      · simp only [next_other hnext hc]
        exact hold
  | arrives c' response sentAt hflight | loses c' response sentAt hflight =>
      simp only [put_flights]
      split_ifs
      · trivial
      · exact hold
  | reads c' lost access cookies refused sentAt hflight =>
      rw [put_flights]
      split_ifs with hc
      · subst hc
        rw [hflight] at hold
        exact hold
      · exact hold
  | departs c' a flight hunsent hidle hdepart =>
      rw [put_flights]
      split_ifs with hc
      · subst hc
        simp only [World.put, hidle]
        exact depart_story hdepart hlast rfl rfl hunsent rfl
      · exact hold
  | advances c' a flight hadvance =>
      rw [put_flights]
      split_ifs with hc
      · subst hc
        exact advance_story hadvance hold
      · exact hold

theorem run_story {now : Time} {jar : Jar} {s₀ : Shared} {w : World}
    (h : Run (next .customer env) (start now jar s₀) tr w) :
    ∀ c, Story env tr c (w.service.client c) (w.flights c) := by
  refine h.history (fun _ => True)
    (fun tr w => ∀ c, Story env tr c (w.service.client c) (w.flights c)) (fun c => ?_)
    (fun _ _ _ _ hstory hn _ => step_story hstory hn) fun _ _ => trivial
  trivial

theorem receive_user {w : World} {response : SetCookies}
    (hsent : (w.jar.user.bind (·.sent w.clock)).isSome)
    (hgone : ((w.jar.receive w.clock response).user.bind (·.sent w.clock)) = none) :
    response = .clearAuthCookies := by
  cases response with
  | keep | refreshAuthCookies =>
      rw [Option.isSome_iff_ne_none] at hsent
      exact absurd hgone hsent
  | setAuthCookies user tokens =>
      rw [Jar.receive_session] at hgone
      exact absurd hgone (Option.some_ne_none user)
  | clearAuthCookies => rfl

end Ends

/-- Whatever the API does and whatever is lost on the way, a customer is signed out by
three things only: the identity cookie reaches its age, the customer signs out, or the
service has read the refresh token of one of the browser's requests and found it
unknown, expired, used 30 seconds ago or longer, or of a user who may not sign in. -/
theorem signed_out_when_told {env : Env} {now : Time} {jar : Jar} {s₀ : Shared}
    {tr before after : List (Event (ℕ × Action) World)} {w : World}
    {e : Event (ℕ × Action) World} (h : Run (next .customer env) (start now jar s₀) tr w)
    (htr : tr = before ++ e :: after) (hin : hasSession e.pre = true)
    (hout : hasSession e.post = false) :
    (∃ ms cookie, e.label.2 = .tick ms ∧ e.pre.jar.user = some cookie ∧
      cookie.expiresAt ≤ e.post.clock) ∨
    ∃ c, e.label = (c, .arrive) ∧ (SignedOut before c ∨
      ∃ refreshToken, Carried before c refreshToken ∧ Verdict env before c refreshToken) := by
  have hstory := run_story (h.split htr).1
  have hn := h.event_next e (by simp [htr])
  obtain ⟨w', l, t⟩ := e
  simp only at hin hout hn hstory ⊢
  cases next_moves hn with
  | ticks c ms =>
      left
      cases hcookie : w'.jar.user with
      | none => simp [hasSession, Jar.send, hcookie] at hin
      | some cookie =>
          refine ⟨ms, cookie, rfl, rfl, ?_⟩
          simpa [hasSession, Jar.send, hcookie, Cookie.sent] using hout
  | arrives c response sentAt hflight =>
      right
      refine ⟨c, rfl, ?_⟩
      have hclear : response.cookies = .clearAuthCookies := by
        refine receive_user (w := w') hin ?_
        simpa [hasSession, Jar.send, World.put] using hout
      have htold := hstory c
      rw [hflight] at htold
      exact htold hclear
  | _ =>
      rw [hasSession] at hin hout
      exact absurd (hin.symm.trans hout) (by decide)

/-- A browser whose access token has expired, with the refresh token `first`. -/
def expiredJar : Jar where
  access := none
  refresh := some ⟨"first", 604800000⟩
  user := some ⟨⟨1, "a", "user", "", "", none⟩, 604800000⟩

/-- The proxy's refresh with this token, up to where `n` statements bring it. -/
def edgeRefresh (c : ℕ) (refreshToken : String) (now : Time) (n : ℕ) (id : Uuid) (text : String) :
    List (ℕ × Action) :=
  [(c, .visit "/"), (c, .backend (.request (.refresh refreshToken) now))] ++
    List.replicate n (c, .backend (.run (draw now id text))) ++ [(c, .refreshed)]

/-- The answer with the new pair is lost, and the old token comes back 40 seconds later. -/
def lostPair : List (ℕ × Action) :=
  (0, .tick 1000) :: edgeRefresh 0 "first" 1000 2 20 "a" ++
    [(0, .renders .next), (0, .lose), (0, .tick 40000)] ++
    edgeRefresh 1 "first" 41000 2 22 "b"

theorem signed_out_when_told_lost :
    ∃ before e, Run (next .customer (plainEnv [])) (start 0 expiredJar ConcurrentRefreshes.signedIn)
      (before ++ [e]) e.post ∧ hasSession e.pre = true ∧ hasSession e.post = false ∧
      ∃ c, e.label = (c, .arrive) ∧ ¬ SignedOut before c ∧ ∃ refreshToken,
        Carried before c refreshToken ∧ Verdict (plainEnv []) before c refreshToken := by
  obtain ⟨before, w, hrun, hlabels, hw⟩ := Run.of_trace_map (next .customer (plainEnv [])) lostPair
    (start 0 expiredJar ConcurrentRefreshes.signedIn)
    (fun _ w => (hasSession w, (next .customer (plainEnv []) (1, .arrive) w).map hasSession))
    (true, some false) (by decide +kernel)
  rw [Prod.mk.injEq] at hw
  obtain ⟨t, ht, hout⟩ := Option.map_eq_some_iff.mp hw.2
  have hsigned : ¬ SignedOut before 1 := by
    rintro ⟨e, he, hlabel⟩
    have hmem : e.label ∈ lostPair := hlabels ▸ List.mem_map_of_mem he
    rw [hlabel] at hmem
    simp [lostPair, edgeRefresh] at hmem
  have hrun' := hrun.step (1, .arrive) ht
  refine ⟨before, ⟨w, (1, .arrive), t⟩, hrun', hw.1, hout, 1, rfl, hsigned, ?_⟩
  rcases signed_out_when_told hrun' rfl hw.1 hout with ⟨ms, cookie, htick, -⟩ | ⟨c, hc, htold⟩
  · cases htick
  · cases hc
    exact htold.resolve_left hsigned

end MaxOne.EdgeSessions
