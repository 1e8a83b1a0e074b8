import MaxOne.EdgeSessions

/-!
# Where a page visit ends

A visit to a page that is not public meets the proxy, which looks for the identity
cookie and may refresh; the page that is let through makes its own calls. Each of the
three can send it to the login page. `Course` follows a request from its departure.
-/
namespace MaxOne.EdgeVisits
open Library Library.Runs Library.Interleaving MaxOne.Schema MaxOne.Accounts MaxOne.AuthService
  MaxOne.AuthRuns MaxOne.EdgeSessions
open MaxOne.ConcurrentRefreshes (userActive)

section Lasts
variable {app : App} {env : Env} {w t : World} {l : ℕ × Action}

section Course
variable {admitted turned : Prop} {c : ℕ} {tr : List (Event (ℕ × Action) World)} {sentAt : Time}
  {p : Pc} {a : Action} {flight flight' : Flight}

end Course

end Lasts

/-- The sign-in arrives a second late, and the cookie of its access token outlives the
token by as much: the API refuses a page that the proxy has let through. -/
example : (trace (next .customer (plainEnv []))
    [(0, .signIn), (0, .signedIn ⟨1, "a", "user", "", "", none⟩
        ⟨signAsync (.access (account 1 "a" userRole false)) 0, "first"⟩), (0, .tick 1000),
      (0, .arrive), (0, .tick 899500), (1, .visit "/wallets"), (1, .reads false),
      (1, .renders (.redirect "/login"))]
    (start 0 ⟨none, none, none⟩ { ConcurrentRefreshes.signedIn with
      minted := [signAsync (.access (account 1 "a" userRole false)) 0] })).map
      (fun r => (hasSession r.2, r.2.flights 1)) =
    some (true, .answered ⟨.redirect "/login", .keep⟩ 900500) := by decide +kernel

end MaxOne.EdgeVisits
