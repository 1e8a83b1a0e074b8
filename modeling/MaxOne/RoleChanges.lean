import MaxOne.AuthRuns

/-!
# Who makes a super_admin

`PermissionsGuard` reads the caller's permissions from the database, but
`updateRole` compares the role its access token claims. The two agree as long as
a token that claims `super_admin` is only used while its holder is one; then
every super_admin was made by a super_admin.
-/
namespace MaxOne.RoleChanges
open Library Library.Runs Library.Interleaving MaxOne.Schema MaxOne.Accounts MaxOne.AuthService
  MaxOne.AuthMachine MaxOne.AuthRuns

/-- `PATCH /users/:id/role` has been admitted to make a super_admin. -/
def crowning : Pc → Option Uuid
  | .readBefore actor _ (.role role) | .writeUser actor _ (.role role) _ =>
      if role.name = "super_admin" then some actor.id else none
  | _ => none

/-- The acting user of a statement that commits such a role. -/
def crowned : Pc → Pc → Option Uuid
  | .writeUser actor _ (.role role) _, .done _ =>
      if role.name = "super_admin" then some actor.id else none
  | _, _ => none

/-- The acting user makes a super_admin by `updateRole`. -/
def Crowns (actorId : Uuid) (e : Occurrence) : Prop :=
  crowned (e.pre.client e.label.1) (e.post.client e.label.1) = some actorId

/-- The caller whose stored authority a statement checks for such a request. -/
def checked : Input → Pc → Option AuthUser
  | .run _, .permissions actor _ (.role roleName) =>
      if roleName = "super_admin" then some actor else none
  | _, _ => none

def storedRole (s : Shared) (userId : Uuid) : Option String :=
  (s.users.find userId).map fun user => user.role.name

/-- Request `c` is handled while its acting user is stored as a super_admin. A
client is one request, so an event of `c` is an event of that request. -/
def HandledAs (c : ℕ) (actorId : Uuid) (e : Occurrence) : Prop :=
  e.label.1 = c ∧ (checked e.label.2 (e.pre.client c)).map AuthUser.id = some actorId ∧
    storedRole e.pre.data actorId = some "super_admin"

/-- A caller that still may manage users and whose token claims `super_admin`
is no longer stored as one. -/
def Stale (e : Occurrence) : Prop :=
  ∃ actor ∈ checked e.label.2 (e.pre.client e.label.1),
    actor.role = some "super_admin" ∧ storedRole e.pre.data actor.id ≠ some "super_admin" ∧
      ∃ user ∈ e.pre.data.users.find actor.id,
        user.status = .active ∧ "user.manage" ∈ user.role.permissions

instance (actorId : Uuid) : DecidablePred (Crowns actorId) := fun e =>
  inferInstanceAs (Decidable (crowned (e.pre.client e.label.1) (e.post.client e.label.1) =
    some actorId))

instance (c : ℕ) (actorId : Uuid) : DecidablePred (HandledAs c actorId) := fun e =>
  inferInstanceAs (Decidable (e.label.1 = c ∧
    (checked e.label.2 (e.pre.client c)).map AuthUser.id = some actorId ∧
      storedRole e.pre.data actorId = some "super_admin"))

instance : DecidablePred Stale := fun e =>
  inferInstanceAs (Decidable (∃ actor ∈ checked e.label.2 (e.pre.client e.label.1),
    actor.role = some "super_admin" ∧ storedRole e.pre.data actor.id ≠ some "super_admin" ∧
      ∃ user ∈ e.pre.data.users.find actor.id,
        user.status = .active ∧ "user.manage" ∈ user.role.permissions))

section Statement
variable {env : Env} {i : Input} {p q : Pc} {s s' : Shared} {actorId : Uuid}

theorem crowning_entry (h : entry p = true) : crowning p = none := by
  cases p <;> first | rfl | cases h

theorem crowning_proved (userId : Uuid) (k : ProofOf) : crowning (proved userId k) = none :=
  proved_rule (P := (crowning · = none)) (fun _ => rfl) (fun _ _ _ => rfl) (fun _ => rfl)
    fun _ => rfl

/-- `updateRole` lets a request through that names `super_admin` when the token does. -/
theorem crowning_patchUser {actor : AuthUser} {id : Uuid} {patch : UserPatch}
    (h : crowning (patchUser env actor id patch) = some actorId) :
    patch = .role "super_admin" ∧ actor.role = some "super_admin" ∧ actor.id = actorId := by
  unfold patchUser at h
  split at h
  · split_ifs at h <;> cases h
  · next roleName =>
      split_ifs at h with hself hclaim
      · cases h
      · cases h
      · split at h
        · cases h
        · next role hrole =>
            have hfound := List.find?_some hrole
            have hname : role.name = roleName := of_decide_eq_true hfound
            simp only [crowning] at h
            split_ifs at h with hsuper
            rw [hname] at hsuper
            rw [not_and, not_not] at hclaim
            exact ⟨by rw [hsuper], hclaim hsuper, Option.some.inj h⟩

/-- A request comes to making a super_admin only by the check of its caller. -/
theorem crowning_change (h : Statement env s i p q s') (hq : crowning q = some actorId) :
    crowning p = some actorId ∨ ∃ actor ∈ checked i p, actor.id = actorId ∧
      actor.role = some "super_admin" ∧ ∃ user ∈ s.users.find actor.id,
        user.status = .active ∧ "user.manage" ∈ user.role.permissions := by
  cases h with
  | receives r now =>
      rw [crowning_entry (entry_receive r)] at hq
      cases hq
  | money => exact .inl hq
  | authenticates =>
      rw [crowning_entry (entry_dispatch _ _)] at hq
      cases hq
  | provesTotp =>
      rw [crowning_proved] at hq
      cases hq
  | consumes =>
      rw [crowning_proved] at hq
      cases hq
  | counts d id userId counter k => cases k <;> cases hq
  | permits d actor id patch user hfind hactive hheld =>
      obtain ⟨rfl, hrole, hid⟩ := crowning_patchUser hq
      exact .inr ⟨actor, rfl, hid, hrole, user, hfind, hactive, hheld⟩
  | readsBefore d actor id change before =>
      cases change with
      | status status => cases hq
      | role role => exact .inl hq
  | _ => cases hq

end Statement

/-- A request on its way to make a super_admin has been handled as one by a super_admin. -/
def History (tr : List Occurrence) (t : Service) : Prop :=
  ∀ c actorId, crowning (t.client c) = some actorId → ∃ g ∈ tr, HandledAs c actorId g

theorem History.next {env : Env} {tr : List Occurrence} {l : ℕ × Input} {s t : Service}
    (h : History tr s) (hn : AuthRuns.next env l s = some t) (hfresh : ¬ Stale ⟨s, l, t⟩) :
    History (tr ++ [⟨s, l, t⟩]) t := by
  obtain ⟨q, s', hstep, rfl⟩ := next_cases hn
  intro c actorId hcrowning
  have hearlier : crowning (s.client c) = some actorId →
      ∃ g ∈ tr ++ [⟨s, l, ⟨s', Function.update s.client l.1 q⟩⟩], HandledAs c actorId g := by
    intro hold
    obtain ⟨g, hg, hhandled⟩ := h c actorId hold
    exact ⟨g, List.mem_append_left _ hg, hhandled⟩
  by_cases hc : c = l.1
  · subst hc
    simp only [Function.update_self] at hcrowning
    rcases crowning_change (step_statement hstep) hcrowning with hold | ⟨actor, hchecked, hid, hrole,
      huser⟩
    · exact hearlier hold
    · refine ⟨_, List.mem_append_right _ List.mem_cons_self, rfl, ?_, ?_⟩
      · rw [Option.mem_def.mp hchecked, Option.map_some, hid]
      · by_contra hstored
        rw [← hid] at hstored
        exact hfresh ⟨actor, hchecked, hrole, hstored, huser⟩
  · simp only [Function.update_of_ne hc] at hcrowning
    exact hearlier hcrowning

/-- As long as no caller uses a token that claims `super_admin` after losing the
role, whoever makes a super_admin was stored as one when the request was handled. -/
theorem super_admin_made_by_super_admin {env : Env} {s₀ : Shared} {tr : List Occurrence}
    {s : Service} (h : Run (AuthRuns.next env) (start s₀) tr s) (hfresh : ∀ e ∈ tr, ¬ Stale e)
    {before after : List Occurrence} {e : Occurrence} (htr : tr = before ++ e :: after)
    {actorId : Uuid} (hcrowns : Crowns actorId e) :
    ∃ g ∈ before, HandledAs e.label.1 actorId g := by
  have hhistory : History before e.pre := (h.split htr).1.history (fun e => ¬ Stale e) History
    (fun c actorId hc => by cases hc) (fun tr l s t hi hn hc => hi.next hn hc)
    (fun e he => hfresh e (by rw [htr]; simp [he]))
  refine hhistory e.label.1 actorId ?_
  unfold Crowns crowned at hcrowns
  split at hcrowns
  · next hpre hpost =>
      rw [hpre]
      exact hcrowns
  · cases hcrowns

def roles : List Role := [⟨1, "super_admin", ["user.manage"]⟩, ⟨2, "admin", ["user.manage"]⟩]

def office : Shared := usersOnly
  [staff 1 "a" "super_admin", staff 2 "b" "super_admin", account 3 "c" userRole false]

/-- The first user logs in and makes the third a super_admin. -/
def promotion : List (ℕ × Input) :=
  passwordLogin 0 "a" 0 10 "first" ++
  patchBy 1 (staff 1 "a" "super_admin") 1000 3 (.role "super_admin") 50

theorem super_admin_made_by_super_admin_promotion :
    ∃ tr s, Run (AuthRuns.next (plainEnv roles)) (start office) tr s ∧
      storedRole s.data 3 = some "super_admin" ∧ ∃ before e after, tr = before ++ e :: after ∧
        Crowns 1 e ∧ ∃ g ∈ before, HandledAs e.label.1 1 g := by
  obtain ⟨tr, s, hrun, -, hs⟩ := Run.of_trace_map (AuthRuns.next (plainEnv roles)) promotion
    (start office)
    (fun tr s => (decide ((∃ e ∈ tr, Crowns 1 e) ∧ ∀ e ∈ tr, ¬ Stale e), storedRole s.data 3))
    (true, some "super_admin") (by decide)
  rw [Prod.mk.injEq, decide_eq_true_eq] at hs
  obtain ⟨⟨⟨e, he, hcrowns⟩, hfresh⟩, hrole⟩ := hs
  obtain ⟨before, after, htr⟩ := List.append_of_mem he
  exact ⟨tr, s, hrun, hrole, before, e, after, htr, hcrowns,
    super_admin_made_by_super_admin hrun hfresh htr hcrowns⟩

/-- The second user demotes the first, whose access token is a minute old and
still makes the third a super_admin. -/
def demotion : List (ℕ × Input) :=
  passwordLogin 0 "a" 0 10 "first" ++ passwordLogin 1 "b" 0 12 "second" ++
  patchBy 2 (staff 2 "b" "super_admin") 1000 1 (.role "admin") 50 ++
  patchBy 3 (staff 1 "a" "super_admin") 60000 3 (.role "super_admin") 51

theorem super_admin_made_by_admin :
    ∃ tr s, Run (AuthRuns.next (plainEnv roles)) (start office) tr s ∧
      storedRole s.data 1 = some "admin" ∧ storedRole s.data 3 = some "super_admin" ∧
      ¬ ∀ before e after, tr = before ++ e :: after → Crowns 1 e →
        ∃ g ∈ before, HandledAs e.label.1 1 g := by
  obtain ⟨tr, s, hrun, -, hs⟩ := Run.of_trace_map (AuthRuns.next (plainEnv roles)) demotion
    (start office)
    (fun tr s => (decide (∃ e ∈ tr, Crowns 1 e ∧ ∀ g ∈ tr, ¬ HandledAs e.label.1 1 g),
      storedRole s.data 1, storedRole s.data 3)) (true, some "admin", some "super_admin")
    (by decide)
  rw [Prod.mk.injEq, Prod.mk.injEq, decide_eq_true_eq] at hs
  obtain ⟨⟨e, he, hcrowns, hnever⟩, hdemoted, hrole⟩ := hs
  refine ⟨tr, s, hrun, hdemoted, hrole, fun hhandled => ?_⟩
  obtain ⟨before, after, htr⟩ := List.append_of_mem he
  obtain ⟨g, hg, hgood⟩ := hhandled before e after htr hcrowns
  exact hnever g (by rw [htr]; simp [hg]) hgood

end MaxOne.RoleChanges
