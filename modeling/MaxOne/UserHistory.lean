import MaxOne.AuthRuns
import MaxOne.Library.PostingBook

/-!
# The audit history of a user

`updateStatus` and `updateRole` read the user before their transaction and put
what they have read into the audit entry as its `oldValue`; the transaction
itself neither locks nor reads the user again. The entries of a user form a
chain from its first value to the present one, in commit order, as long as no
other commit of the field comes between a read and the commit it is for.
-/
namespace MaxOne.UserHistory
open Library Library.Runs Library.Interleaving Library.PostingBook MaxOne.Schema MaxOne.Accounts
  MaxOne.AuthService MaxOne.AuthMachine MaxOne.AuthRuns

/-- What a PATCH of a user changes. -/
inductive Field where
  | status | role
  deriving DecidableEq, Repr

def Field.action : Field → AuditAction
  | status => .userStatusChange
  | role => .userRoleChange

/-- The field of a user, as an audit entry records it. -/
def Field.stored : Field → User → JsonObject
  | status, user => [("status", .str user.status.text)]
  | role, user => [("role", .str user.role.name)]

def fieldOf : Change → Field
  | .status _ => .status
  | .role _ => .role

/-- The user's entries for this field, in the order of their commits. -/
def history (k : Field) (id : Uuid) (s : Shared) : List AuditLog :=
  s.auditLogs.rows.filter fun row => row.action = k.action ∧ row.entityId = id

/-- The field as it is stored. -/
def value (k : Field) (id : Uuid) (s : Shared) : Option JsonObject :=
  (s.users.find id).map k.stored

/-- The user a committed PATCH had read before its transaction. -/
def committed (k : Field) (id : Uuid) : Pc → Pc → Option User
  | .writeUser _ id' change before, .done _ =>
      if id' = id ∧ fieldOf change = k then some before else none
  | _, _ => none

/-- The commit replaces the value its call had read. -/
def ReadCurrent (k : Field) (id : Uuid) (e : Occurrence) : Prop :=
  ∀ before ∈ committed k id (e.pre.client e.label.1) (e.post.client e.label.1),
    value k id e.pre.data = some (k.stored before)

/-! ## Commits between a read and its commit -/

/-- The call reads the user that it is about to change. -/
def readsBefore (c : ℕ) (e : Occurrence) : Bool :=
  e.label.1 = c && match e.pre.client c with
    | .readBefore .. => true
    | _ => false

/-- What a commit of the field leaves stored. -/
def written (k : Field) (id : Uuid) (e : Occurrence) : Option JsonObject :=
  (committed k id (e.pre.client e.label.1) (e.post.client e.label.1)).bind fun _ =>
    value k id e.post.data

/-- What the commits of the field have written since call `c` read the user. -/
def sinceRead (k : Field) (id : Uuid) (c : ℕ) (tr : List Occurrence) : List JsonObject :=
  tr.foldl (fun vs e => if readsBefore c e then [] else vs ++ (written k id e).toList) []

/-- No other commit of the field comes between the read of a call and its commit. -/
def Undisturbed (k : Field) (id : Uuid) : List Occurrence → Prop :=
  Along fun tr e => committed k id (e.pre.client e.label.1) (e.post.client e.label.1) ≠ none →
    sinceRead k id e.label.1 tr = []

/-- Where others come between, the last of them writes back what the call had read. -/
def Restored (k : Field) (id : Uuid) : List Occurrence → Prop :=
  Along fun tr e => ∀ before ∈ committed k id (e.pre.client e.label.1) (e.post.client e.label.1),
    ∀ v ∈ (sinceRead k id e.label.1 tr).getLast?, v = k.stored before

instance (k : Field) (id : Uuid) : DecidablePred (Undisturbed k id) := fun tr =>
  inferInstanceAs (Decidable (Along (fun tr e =>
    committed k id (e.pre.client e.label.1) (e.post.client e.label.1) ≠ none →
      sinceRead k id e.label.1 tr = []) tr))

instance (k : Field) (id : Uuid) : DecidablePred (Restored k id) := fun tr =>
  inferInstanceAs (Decidable (Along (fun tr e =>
    ∀ before ∈ committed k id (e.pre.client e.label.1) (e.post.client e.label.1),
      ∀ v ∈ (sinceRead k id e.label.1 tr).getLast?, v = k.stored before) tr))

/-- An entry that an event adds tells the value before it and the value after it. -/
def Faithful (k : Field) (id : Uuid) (e : Occurrence) : Prop :=
  ∀ entry, history k id e.post.data = history k id e.pre.data ++ [entry] →
    value k id e.pre.data = some entry.oldValue ∧ value k id e.post.data = some entry.newValue

section Statement
variable {env : Env} {k : Field} {id : Uuid} {s : Shared} {u : UserUpdate}

/-- An UPDATE of other columns. -/
theorem value_setUser (id' : Uuid) (hu : ∀ user, k.stored (u.set user) = k.stored user) :
    value k id (s.setUser id' u) = value k id s := by
  rw [value, Shared.find_setUser]
  split_ifs with hid
  · subst hid
    rw [Option.map_map]
    exact congrArg (fun f => (s.users.find id).map f) (funext hu)
  · rfl

theorem value_setUser_ne {id' : Uuid} (hid : id ≠ id') :
    value k id (s.setUser id' u) = value k id s := by
  rw [value, Shared.find_setUser, if_neg hid, value]

theorem stored_update_ne {change : Change} (hk : fieldOf change ≠ k) (user : User) :
    k.stored (change.update.set user) = k.stored user := by
  cases change <;> cases k <;> first | rfl | exact absurd rfl hk

theorem auditRow_fields (d : Draw) (actor : AuthUser) (id : Uuid) (before user : User)
    (change : Change) :
    (auditRow d actor id before change).action = (fieldOf change).action ∧
      (auditRow d actor id before change).entityId = id ∧
      (auditRow d actor id before change).oldValue = (fieldOf change).stored before ∧
      (auditRow d actor id before change).newValue =
        (fieldOf change).stored (change.update.set user) := by
  cases change <;> exact ⟨rfl, rfl, rfl, rfl⟩

theorem action_injective {k k' : Field} (h : k.action = k'.action) : k = k' := by
  cases k <;> cases k' <;> first | rfl | cases h

theorem history_insert (k : Field) (id : Uuid) {auditLogs : Table AuditLog AuditLog.id}
    {row : AuditLog} (h : s.auditLogs.insert row = some auditLogs) (s' : Shared)
    (hs' : s'.auditLogs = auditLogs) : history k id s' = history k id s ++ if row.action = k.action ∧ row.entityId = id then [row]
      else [] := by
  rw [history, hs', Table.insert_rows h, List.filter_append, history]
  simp only [List.filter_cons, List.filter_nil, decide_eq_true_eq]

/-- What a statement does to one field and its history: nothing, or a commit of the
field adds one entry. -/
inductive Recorded (k : Field) (id : Uuid) (p : Pc) (s : Shared) (q : Pc) (s' : Shared) : Prop
  | same (hnone : committed k id p q = none) (hhistory : history k id s' = history k id s)
      (hvalue : value k id s' = value k id s)
  | commit (before : User) (entry : AuditLog) (hsome : committed k id p q = some before)
      (hhistory : history k id s' = history k id s ++ [entry])
      (hold : entry.oldValue = k.stored before) (hnew : value k id s' = some entry.newValue)

theorem patches_recorded {d : Draw} {actor : AuthUser} {id' : Uuid} {change : Change}
    {before user : User} {auditLogs : Table AuditLog AuditLog.id} {response : Response}
    (hfind : s.users.find id' = some user)
    (haudit : s.auditLogs.insert (auditRow d actor id' before change) = some auditLogs) :
    Recorded k id (.writeUser actor id' change before) s (.done response)
      { change.sweep id' (s.setUser id' change.update) with auditLogs := auditLogs } := by
  obtain ⟨haction, hentity, hold, hnew⟩ := auditRow_fields d actor id' before user change
  have hhistory := history_insert k id haudit
    { change.sweep id' (s.setUser id' change.update) with auditLogs := auditLogs } rfl
  have hvalue : value k id { change.sweep id' (s.setUser id' change.update) with
      auditLogs := auditLogs } = value k id (s.setUser id' change.update) := by
    rw [value, value]
    exact congrArg (fun users : UserTable => (users.find id).map k.stored)
      (sweep_users id' change)
  rw [haction, hentity] at hhistory
  by_cases hk : fieldOf change = k
  · subst hk
    by_cases hid : id' = id
    · subst hid
      rw [if_pos ⟨rfl, rfl⟩] at hhistory
      refine .commit before _ (if_pos ⟨rfl, rfl⟩) hhistory hold ?_
      rw [hvalue, value, Shared.find_setUser, if_pos rfl, hfind, Option.map_some,
        Option.map_some, hnew]
    · rw [if_neg fun h => hid h.2, List.append_nil] at hhistory
      refine .same (if_neg fun h => hid h.1) hhistory ?_
      rw [hvalue, value_setUser_ne (Ne.symm hid)]
  · rw [if_neg fun h => hk (action_injective h.1), List.append_nil] at hhistory
    refine .same (if_neg fun h => hk h.2) hhistory ?_
    rw [hvalue, value_setUser id' (stored_update_ne hk)]

theorem committed_failed (p : Pc) (e : HttpException) : committed k id p (.failed e) = none := by
  cases p <;> rfl

theorem committed_self (p : Pc) : committed k id p p = none := by
  cases p <;> rfl

theorem statement_recorded {i : Input} {p q : Pc} {s' : Shared} (h : Statement env s i p q s')
    (hthere : s.users.find id ≠ none) : Recorded k id p s q s' := by
  cases h with
  | fails e => exact .same (committed_failed p e) rfl rfl
  | registers d dto role users hinsert =>
      obtain ⟨user, huser⟩ := Option.ne_none_iff_exists'.mp hthere
      refine .same rfl rfl ?_
      have hkept := IndexedTable.find_insert_of_some hinsert huser
      rw [value, value, huser]
      exact congrArg (Option.map k.stored) hkept
  | money => exact .same (committed_self p) rfl rfl
  | pends => exact .same rfl rfl (value_setUser _ fun _ => by cases k <;> rfl)
  | enables => exact .same rfl rfl (value_setUser _ fun _ => by cases k <;> rfl)
  | consumes => exact .same rfl rfl (value_setUser _ fun _ => by cases k <;> rfl)
  | disables => exact .same rfl rfl (value_setUser _ fun _ => by cases k <;> rfl)
  | patches d actor id' change before user auditLogs hfind haudit =>
      exact patches_recorded hfind haudit
  | _ => exact .same rfl rfl rfl

theorem there_mono {i : Input} {p q : Pc} {s' : Shared} (h : Statement env s i p q s')
    (hthere : s.users.find id ≠ none) : s'.users.find id ≠ none := by
  obtain ⟨user, huser⟩ := Option.ne_none_iff_exists'.mp hthere
  rcases users_change h huser with hsame | ⟨d, u, -, -, hset⟩
  · rw [hsame]
    exact Option.some_ne_none user
  · rw [hset]
    exact Option.some_ne_none _

end Statement

section Runs
variable {env : Env} {k : Field} {id : Uuid}

theorem event_recorded {l : ℕ × Input} {s t : Service} (hn : AuthRuns.next env l s = some t)
    (hthere : s.data.users.find id ≠ none) :
    Recorded k id (s.client l.1) s.data (t.client l.1) t.data ∧ t.data.users.find id ≠ none := by
  obtain ⟨q, d, hstep, rfl⟩ := next_cases hn
  have hstatement := step_statement hstep
  simp only [Function.update_self]
  exact ⟨statement_recorded hstatement hthere, there_mono hstatement hthere⟩

/-- An event is faithful exactly when its commit replaces the value it had read. -/
theorem faithful_iff {e : Occurrence}
    (h : Recorded k id (e.pre.client e.label.1) e.pre.data (e.post.client e.label.1) e.post.data) :
    Faithful k id e ↔ ReadCurrent k id e := by
  cases h with
  | same hnone hhistory hvalue =>
      constructor
      · intro _ before hbefore
        rw [Option.mem_def, hnone] at hbefore
        cases hbefore
      · intro _ entry hentry
        rw [hhistory] at hentry
        exact absurd hentry (by simp)
  | commit before entry hsome hhistory hold hnew =>
      constructor
      · intro hfaithful before' hbefore
        obtain rfl : before = before' := Option.some.inj (hsome.symm.trans hbefore)
        rw [← hold]
        exact (hfaithful entry hhistory).1
      · intro hcurrent entry' hentry
        obtain rfl : entry = entry' := by simpa using hhistory.symm.trans hentry
        rw [hold]
        exact ⟨hcurrent before hsome, hnew⟩

/-- The user is stored, and the entries so far lead from its first value to this one. -/
def Chained (k : Field) (id : Uuid) (s₀ : Shared) (v₀ : JsonObject) (s : Service) : Prop :=
  s.data.users.find id ≠ none ∧ ∃ new v, history k id s.data = history k id s₀ ++ new ∧
    value k id s.data = some v ∧ Chain AuditLog.oldValue AuditLog.newValue v₀ new v

theorem Chained.event {s₀ : Shared} {v₀ : JsonObject} {l : ℕ × Input} {s t : Service}
    (h : Chained k id s₀ v₀ s) (hn : AuthRuns.next env l s = some t)
    (hcurrent : ReadCurrent k id ⟨s, l, t⟩) : Chained k id s₀ v₀ t := by
  obtain ⟨hthere, new, v, hhistory, hvalue, hchain⟩ := h
  obtain ⟨hrecorded, hthere'⟩ := event_recorded (k := k) hn hthere
  refine ⟨hthere', ?_⟩
  cases hrecorded with
  | same hnone hsame hkept =>
      exact ⟨new, v, hsame.trans hhistory, hkept.trans hvalue, hchain⟩
  | commit before entry hsome hadds hold hnew =>
      have hv : v = k.stored before :=
        Option.some.inj (hvalue.symm.trans (hcurrent before hsome))
      refine ⟨new ++ [entry], entry.newValue, ?_, hnew, hchain.snoc (hold.trans hv.symm)⟩
      rw [hadds, hhistory, List.append_assoc]

theorem run_faithful_iff {s₀ : Shared} {tr : List Occurrence} {s : Service}
    (h : Run (AuthRuns.next env) (start s₀) tr s) (hthere₀ : s₀.users.find id ≠ none) :
    (∀ e ∈ tr, Faithful k id e) ↔ ∀ e ∈ tr, ReadCurrent k id e := by
  have hthere : ∀ e ∈ tr, e.pre.data.users.find id ≠ none := h.pre_invariant
    (fun s => s.data.users.find id ≠ none) hthere₀
    fun _ _ _ hi hn => (event_recorded (k := k) hn hi).2
  have hiff : ∀ e ∈ tr, (Faithful k id e ↔ ReadCurrent k id e) := fun e he =>
    faithful_iff (event_recorded (h.event_next e he) (hthere e he)).1
  exact forall₂_congr hiff

/-- A call that is about to commit has read what is stored, or what was before others wrote. -/
def Told (k : Field) (id : Uuid) (tr : List Occurrence) (s : Service) : Prop :=
  s.data.users.find id ≠ none ∧ ∀ c actor change before,
    s.client c = .writeUser actor id change before →
      value k id s.data = some ((sinceRead k id c tr).getLast?.getD (k.stored before))

theorem sinceRead_snoc (k : Field) (id : Uuid) (c : ℕ) (tr : List Occurrence) (e : Occurrence) :
    sinceRead k id c (tr ++ [e]) =
      if readsBefore c e then [] else sinceRead k id c tr ++ (written k id e).toList := by
  rw [sinceRead, List.foldl_append, List.foldl_cons, List.foldl_nil, ← sinceRead]

/-- The user a call is about to change has been read for it. -/
theorem writeUser_source {i : Input} {p q : Pc} {s s' : Shared} (h : Statement env s i p q s')
    {actor : AuthUser} {change : Change} {before : User}
    (hq : q = .writeUser actor id change before) :
    p = q ∨ (p = .readBefore actor id change ∧ s' = s ∧ s.users.find id = some before) := by
  have hentry : entry q = false := by
    rw [hq]
    rfl
  cases h with
  | receives r now => exact absurd (hentry.symm.trans (entry_receive r)) (by decide)
  | money => exact .inl rfl
  | authenticates d payload endpoint user hvalid =>
      exact absurd (hentry.symm.trans (entry_dispatch user endpoint)) (by decide)
  | provesTotp d id' code kind stored =>
      exact absurd hq (proved_rule (P := (· ≠ .writeUser actor id change before))
        (fun _ => nofun) (fun _ _ _ => nofun) (fun _ => nofun) fun _ => nofun)
  | consumes d id' hash remaining kind =>
      exact absurd hq (proved_rule (P := (· ≠ .writeUser actor id change before))
        (fun _ => nofun) (fun _ _ _ => nofun) (fun _ => nofun) fun _ => nofun)
  | counts d id' owner counter kind => cases kind <;> cases hq
  | permits d actor' id' patch =>
      rcases patchUser_cases env actor' id' patch with ⟨e, he⟩ | ⟨change', he⟩ <;>
        rw [he] at hq <;> cases hq
  | readsBefore d actor' id' change' before' hfind =>
      cases hq
      exact .inr ⟨rfl, rfl, hfind⟩
  | _ => cases hq

theorem Told.next {tr : List Occurrence} {l : ℕ × Input} {s t : Service} (h : Told k id tr s)
    (hn : AuthRuns.next env l s = some t) : Told k id (tr ++ [⟨s, l, t⟩]) t := by
  obtain ⟨hrecorded, hthere⟩ := event_recorded (k := k) hn h.1
  refine ⟨hthere, fun c actor change before hc => ?_⟩
  obtain ⟨q, s', hstep, rfl⟩ := next_cases hn
  simp only [Function.update_self] at hrecorded
  have hwritten : written k id ⟨s, l, ⟨s', Function.update s.client l.1 q⟩⟩ =
      (committed k id (s.client l.1) q).bind fun _ => value k id s' := by
    simp only [written, Function.update_self]
  rw [sinceRead_snoc, hwritten]
  by_cases hcl : c = l.1
  · subst hcl
    simp only [Function.update_self] at hc
    rcases writeUser_source (step_statement hstep) hc with hsame | ⟨hp, hdata, hfind⟩
    · have hreads : readsBefore l.1 ⟨s, l, ⟨s', Function.update s.client l.1 q⟩⟩ = false := by
        simp [readsBefore, hsame, hc]
      cases hrecorded with
      | same hnone hhistory hvalue =>
          rw [hreads, hnone, hvalue]
          simpa using h.2 l.1 actor change before (hsame.trans hc)
      | commit before' entry hsome =>
          rw [hsame, committed_self] at hsome
          cases hsome
    · have hreads : readsBefore l.1 ⟨s, l, ⟨s', Function.update s.client l.1 q⟩⟩ = true := by
        simp [readsBefore, hp]
      rw [hreads, if_pos rfl, hdata, value, hfind]
      rfl
  · simp only [Function.update_of_ne hcl] at hc
    have hreads : readsBefore c ⟨s, l, ⟨s', Function.update s.client l.1 q⟩⟩ = false := by
      simp [readsBefore, Ne.symm hcl]
    rw [hreads]
    cases hrecorded with
    | same hnone hhistory hvalue =>
        rw [hnone, hvalue]
        simpa using h.2 c actor change before hc
    | commit before' entry hsome hhistory hold hnew =>
        rw [hsome, hnew]
        simp

theorem run_told {s₀ : Shared} {tr : List Occurrence} {s : Service}
    (h : Run (AuthRuns.next env) (start s₀) tr s) (hthere₀ : s₀.users.find id ≠ none) :
    Told k id tr s :=
  h.history (fun _ => True) (Told k id) ⟨hthere₀, fun _ _ _ _ hc => by cases hc⟩
    (fun _ _ _ _ hi hn _ => hi.next hn) fun _ _ => trivial

theorem committed_source {p q : Pc} {before : User} (h : committed k id p q = some before) :
    ∃ actor change, p = .writeUser actor id change before := by
  unfold committed at h
  split at h
  · next actor id' change before' r =>
      split_ifs at h with hfits
      obtain rfl := Option.some.inj h
      exact ⟨actor, change, by rw [hfits.1]⟩
  · cases h

/-- What a call has read is stored at its commit exactly when the last commit since, if any, has
written it. -/
theorem Told.readCurrent_iff {tr : List Occurrence} {e : Occurrence} (h : Told k id tr e.pre) :
    ReadCurrent k id e ↔
      ∀ before ∈ committed k id (e.pre.client e.label.1) (e.post.client e.label.1),
        ∀ v ∈ (sinceRead k id e.label.1 tr).getLast?, v = k.stored before := by
  refine forall₂_congr fun before hbefore => ?_
  obtain ⟨actor, change, hpc⟩ := committed_source hbefore
  rw [h.2 e.label.1 actor change before hpc, Option.some.injEq]
  cases (sinceRead k id e.label.1 tr).getLast? with
  | none => simp
  | some v => simp

theorem readCurrent_iff_restored {s₀ : Shared} {tr : List Occurrence} {s : Service}
    (h : Run (AuthRuns.next env) (start s₀) tr s) (hthere₀ : s₀.users.find id ≠ none) :
    (∀ e ∈ tr, ReadCurrent k id e) ↔ Restored k id tr := by
  induction h with
  | start => exact ⟨fun _ => along_nil _, fun _ e he => absurd he List.not_mem_nil⟩
  | @step tr s t l hrun hn ih =>
      have hlast := (run_told (k := k) hrun hthere₀).readCurrent_iff (e := ⟨s, l, t⟩)
      rw [List.forall_mem_append, List.forall_mem_singleton, ih, hlast]
      exact along_snoc.symm

theorem Undisturbed.restored {tr : List Occurrence} (h : Undisturbed k id tr) :
    Restored k id tr := by
  intro n hn e he before hbefore v hv
  have hnone := h n hn e he (by rw [Option.mem_def.mp hbefore]; exact Option.some_ne_none before)
  rw [hnone] at hv
  cases hv

/-- While no other commit of the field comes between the read of a call and its commit, each entry
tells what its commit replaced; the entries are faithful exactly when, where others do, the last of
them writes back what had been read. Faithful entries form one chain from the user's first value
to its present one. -/
theorem history_faithful {s₀ : Shared} {tr : List Occurrence} {s : Service} {v₀ : JsonObject}
    (h : Run (AuthRuns.next env) (start s₀) tr s) (hvalue : value k id s₀ = some v₀) :
    (Undisturbed k id tr → ∀ e ∈ tr, Faithful k id e) ∧
      ((∀ e ∈ tr, Faithful k id e) ↔ Restored k id tr) ∧
      ((∀ e ∈ tr, Faithful k id e) → ∃ new v, history k id s.data = history k id s₀ ++ new ∧
        value k id s.data = some v ∧ Chain AuditLog.oldValue AuditLog.newValue v₀ new v) := by
  have hthere₀ : s₀.users.find id ≠ none := by
    intro hnone
    rw [value, hnone] at hvalue
    cases hvalue
  have hiff : (∀ e ∈ tr, Faithful k id e) ↔ Restored k id tr :=
    (run_faithful_iff h hthere₀).trans (readCurrent_iff_restored h hthere₀)
  refine ⟨fun hquiet => hiff.mpr hquiet.restored, hiff, fun hfaithful => ?_⟩
  have hchained := h.invariant_when (ReadCurrent k id) (Chained k id s₀ v₀)
    ⟨hthere₀, [], v₀, (List.append_nil _).symm, hvalue, rfl⟩
    (fun _ _ _ hi hn hc => hi.event hn hc) ((run_faithful_iff h hthere₀).mp hfaithful)
  exact hchained.2

end Runs

/-! ## Two PATCHes of one user -/

def office : Shared := usersOnly
  [staff 1 "a" "admin", staff 2 "b" "admin", account 3 "c" userRole false]

def logins : List (ℕ × Input) :=
  passwordLogin 0 "a" 0 10 "first" ++ passwordLogin 1 "b" 0 12 "second"

/-- User 1 suspends the third user, then user 2 reactivates it. -/
def oneByOne : List (ℕ × Input) :=
  logins ++ patchBy 2 (staff 1 "a" "admin") 1000 3 (.status .suspended) 50 ++
  patchBy 3 (staff 2 "b" "admin") 2000 3 (.status .active) 51

/-- Both users suspend the third one; each reads it before the other has committed. -/
def overlapping : List (ℕ × Input) :=
  logins ++ (patchBy 2 (staff 1 "a" "admin") 1000 3 (.status .suspended) 50).take 4 ++
  (patchBy 3 (staff 2 "b" "admin") 1000 3 (.status .suspended) 51).take 4 ++
  statements 2 1000 50 1 ++ statements 3 1000 51 1

def oldAndNew (row : AuditLog) : JsonObject × JsonObject := (row.oldValue, row.newValue)

def changed (old new : UserStatus) : JsonObject × JsonObject :=
  ([("status", .str old.text)], [("status", .str new.text)])

theorem history_faithful_one_by_one :
    ∃ tr s, Run (AuthRuns.next (plainEnv [])) (start office) tr s ∧
      (history .status 3 s.data).map oldAndNew =
        [changed .active .suspended, changed .suspended .active] ∧
      ∀ e ∈ tr, Faithful .status 3 e := by
  obtain ⟨tr, s, hrun, -, hs⟩ := Run.of_trace_map (AuthRuns.next (plainEnv [])) oneByOne
    (start office)
    (fun tr s => decide (Undisturbed .status 3 tr ∧
      (history .status 3 s.data).map oldAndNew =
        [changed .active .suspended, changed .suspended .active])) true (by decide)
  obtain ⟨hquiet, hhistory⟩ := of_decide_eq_true hs
  have hvalue : value .status 3 office = some (changed .active .active).1 := by decide
  exact ⟨tr, s, hrun, hhistory, (history_faithful hrun hvalue).1 hquiet⟩

/-- The second entry says that an active user was suspended; it was suspended already. -/
theorem history_stale :
    ∃ tr s, Run (AuthRuns.next (plainEnv [])) (start office) tr s ∧
      (history .status 3 s.data).map oldAndNew =
        [changed .active .suspended, changed .active .suspended] ∧
      ¬ ∀ e ∈ tr, Faithful .status 3 e := by
  obtain ⟨tr, s, hrun, -, hs⟩ := Run.of_trace_map (AuthRuns.next (plainEnv [])) overlapping
    (start office)
    (fun tr s => decide (¬ Restored .status 3 tr ∧
      (history .status 3 s.data).map oldAndNew =
        [changed .active .suspended, changed .active .suspended])) true (by decide)
  obtain ⟨hstale, hhistory⟩ := of_decide_eq_true hs
  refine ⟨tr, s, hrun, hhistory, fun hfaithful => hstale ?_⟩
  exact (readCurrent_iff_restored hrun (by decide)).mp
    ((run_faithful_iff hrun (by decide)).mp hfaithful)

end MaxOne.UserHistory
