import MaxOne.AuthRuns

/-!
# One use for each recovery code

`proveFactor` accepts a recovery code on one read of the hashes;
`consumeRecoveryHash` reads them again and writes the whole list back. While one
call is between its check and its write, another that writes is undone by it, or
accepts the same code. When no such call is pending at a write, a code that has
been accepted is gone until it is issued again.
-/
namespace MaxOne.RecoveryCodes
open Library Library.Runs Library.Interleaving MaxOne.Schema MaxOne.Accounts MaxOne.AuthService
  MaxOne.AuthMachine MaxOne.AuthRuns

def storedHashes (s : Shared) (userId : Uuid) : List String :=
  ((s.users.find userId).map User.totpRecoveryHashes).getD []

/-- The write of a use: `proveFactor` returns true after it. -/
def accepted (s : Shared) : Input → Pc → Option (Uuid × String)
  | .run _, .writeRecoveryHashes userId hash _ _ =>
      (s.users.find userId).map fun _ => (userId, hash)
  | _, _ => none

def Accepts (userId : Uuid) (hash : String) (e : Occurrence) : Prop :=
  accepted e.pre.data e.label.2 (e.pre.client e.label.1) = some (userId, hash)

/-- The codes whose hashes `verifyAndEnable` is about to store. -/
def issuing (env : Env) : Input → Pc → Option (Uuid × List String)
  | .run _, .enableTotp userId codes => some (userId, codes.map env.sha256)
  | _, _ => none

def IssuesCode (env : Env) (userId : Uuid) (hash : String) (e : Occurrence) : Prop :=
  ∃ codes ∈ issuing env e.label.2 (e.pre.client e.label.1), codes.1 = userId ∧ hash ∈ codes.2

/-- The use a call is in the middle of: its code, and the hashes it writes once it has
read them. -/
def consuming : Pc → Option (Uuid × String × Option (List String))
  | .readRecoveryHashes userId hash _ => some (userId, hash, none)
  | .writeRecoveryHashes userId hash remaining _ => some (userId, hash, some remaining)
  | _ => none

/-- The call has checked this code of the user, or will write its hash back. -/
def spends (userId : Uuid) (hash : String) (p : Pc) : Bool :=
  (consuming p).any fun use =>
    use.1 = userId && (use.2.1 = hash || use.2.2.any fun remaining => hash ∈ remaining)

/-- A use is written while another call still has the code or its hash. -/
def Overlaps (userId : Uuid) (e : Occurrence) : Prop :=
  ∃ hash, Accepts userId hash e ∧ ∃ c, c ≠ e.label.1 ∧ spends userId hash (e.pre.client c) = true

instance (userId : Uuid) (hash : String) : DecidablePred (Accepts userId hash) := fun e =>
  inferInstanceAs (Decidable
    (accepted e.pre.data e.label.2 (e.pre.client e.label.1) = some (userId, hash)))

instance (env : Env) (userId : Uuid) (hash : String) : DecidablePred (IssuesCode env userId hash) :=
  fun e => inferInstanceAs (Decidable
    (∃ codes ∈ issuing env e.label.2 (e.pre.client e.label.1), codes.1 = userId ∧ hash ∈ codes.2))

section Statement
variable {env : Env} {i : Input} {p q : Pc} {s s' : Shared} {userId : Uuid} {hash : String}
  {remaining : Option (List String)}

theorem consuming_entry (h : entry p = true) : consuming p = none := by
  cases p <;> first | rfl | cases h

theorem consuming_proved (id : Uuid) (k : ProofOf) : consuming (proved id k) = none :=
  proved_rule (P := (consuming · = none)) (fun _ => rfl) (fun _ _ _ => rfl) (fun _ => rfl)
    fun _ => rfl

/-- A call comes to its check and to its read of the hashes in this order. -/
theorem consuming_change (h : Statement env s i p q s')
    (hq : consuming q = some (userId, hash, remaining)) :
    consuming p = some (userId, hash, remaining) ∨
      (remaining = none ∧ ∃ user ∈ s.users.find userId, hash ∈ user.totpRecoveryHashes) ∨
      (consuming p = some (userId, hash, none) ∧ ∀ hashes ∈ remaining, ∀ old ∈ hashes,
        old ≠ hash ∧ ∃ user ∈ s.users.find userId, old ∈ user.totpRecoveryHashes) := by
  cases h with
  | receives r now =>
      rw [consuming_entry (entry_receive r)] at hq
      cases hq
  | money => exact .inl hq
  | authenticates =>
      rw [consuming_entry (entry_dispatch _ _)] at hq
      cases hq
  | provesTotp =>
      rw [consuming_proved] at hq
      cases hq
  | provesRecovery d id code k user hfind htotp hmem =>
      cases hq
      exact .inr (.inl ⟨rfl, user, hfind, hmem⟩)
  | readsHashes d id used k left hleft =>
      cases hq
      refine .inr (.inr ⟨rfl, fun hashes hhashes => ?_⟩)
      cases hhashes
      exact hleft
  | consumes =>
      rw [consuming_proved] at hq
      cases hq
  | counts d id owner counter k => cases k <;> cases hq
  | permits d actor id patch =>
      rcases patchUser_cases env actor id patch with ⟨e, he⟩ | ⟨change, he⟩ <;>
        rw [he] at hq <;> cases hq
  | _ => cases hq

/-- No call takes up a code whose hash is not stored. -/
theorem spends_change (h : Statement env s i p q s') (hq : spends userId hash q = true) :
    spends userId hash p = true ∨ ∃ user ∈ s.users.find userId, hash ∈ user.totpRecoveryHashes := by
  rw [spends, Option.any_eq_true] at hq
  obtain ⟨⟨id, used, left⟩, huse, hspends⟩ := hq
  rw [Bool.and_eq_true, Bool.or_eq_true, decide_eq_true_eq, decide_eq_true_eq] at hspends
  obtain ⟨rfl, hhash⟩ := hspends
  rcases consuming_change h huse with hsame | ⟨rfl, user, hfind, hmem⟩ | ⟨hread, hleft⟩
  · left
    rw [spends, hsame, Option.any_some]
    simpa using hhash
  · rcases hhash with rfl | hnone
    · exact .inr ⟨user, hfind, hmem⟩
    · cases hnone
  · rcases hhash with rfl | hback
    · left
      rw [spends, hread]
      simp
    · rw [Option.any_eq_true] at hback
      obtain ⟨hashes, hhashes, hmem⟩ := hback
      exact .inr (hleft hashes hhashes hash (of_decide_eq_true hmem)).2

end Statement

/-- What a call writes back does not hold its own code. -/
def Trimmed (t : Service) : Prop :=
  ∀ c userId hash remaining, consuming (t.client c) = some (userId, hash, some remaining) →
    hash ∉ remaining

/-- The code has been used up: it is not stored and nobody will accept it or write it back. -/
structure Spent (userId : Uuid) (hash : String) (t : Service) : Prop where
  stored : ∃ user, t.data.users.find userId = some user ∧ hash ∉ user.totpRecoveryHashes
  clients : ∀ c, spends userId hash (t.client c) = false

section Step
variable {env : Env} {userId : Uuid} {hash : String} {l : ℕ × Input} {s t : Service}

theorem Trimmed.next (h : Trimmed s) (hn : AuthRuns.next env l s = some t) : Trimmed t := by
  obtain ⟨q, s', hstep, rfl⟩ := next_cases hn
  intro c id used remaining hconsuming
  by_cases hc : c = l.1
  · subst hc
    simp only [Function.update_self] at hconsuming
    rcases consuming_change (step_statement hstep) hconsuming with hsame | ⟨hnone, -⟩ | ⟨-, hleft⟩
    · exact h l.1 id used remaining hsame
    · cases hnone
    · intro hmem
      exact (hleft remaining rfl used hmem).1 rfl
  · simp only [Function.update_of_ne hc] at hconsuming
    exact h c id used remaining hconsuming

theorem Spent.not_mem_storedHashes (h : Spent userId hash t) :
    hash ∉ storedHashes t.data userId := by
  obtain ⟨user, hfind, hgone⟩ := h.stored
  rw [storedHashes, hfind]
  exact hgone

theorem Spent.not_accepts (h : Spent userId hash s) : ¬ Accepts userId hash ⟨s, l, t⟩ := by
  intro haccepts
  have hspends := h.clients l.1
  unfold Accepts accepted at haccepts
  dsimp only at haccepts
  split at haccepts
  · next hpc =>
      obtain ⟨-, -, he⟩ := Option.map_eq_some_iff.mp haccepts
      cases he
      rw [hpc] at hspends
      simp [spends, consuming] at hspends
  · cases haccepts

theorem Spent.next (h : Spent userId hash s) (hn : AuthRuns.next env l s = some t)
    (hissues : ¬ IssuesCode env userId hash ⟨s, l, t⟩) : Spent userId hash t := by
  obtain ⟨q, s', hstep, rfl⟩ := next_cases hn
  have hstatement := step_statement hstep
  obtain ⟨user, hfind, hgone⟩ := h.stored
  have hidle := h.clients l.1
  refine ⟨?_, fun c => ?_⟩
  · rcases users_change hstatement hfind with hsame | ⟨d, u, hi, hpending, hset⟩
    · exact ⟨user, hsame, hgone⟩
    · refine ⟨u.set user, hset, ?_⟩
      unfold IssuesCode at hissues
      dsimp only at hissues
      rw [hi] at hissues
      generalize s.client l.1 = p at hpending hidle hissues
      cases p with
      | setTotpPending actor secret => cases hpending; exact List.not_mem_nil
      | enableTotp id codes =>
          cases hpending
          intro hmem
          exact hissues ⟨_, rfl, rfl, hmem⟩
      | writeRecoveryHashes id used remaining k =>
          cases hpending
          intro hmem
          have hmem : hash ∈ remaining := hmem
          simp [spends, consuming, hmem] at hidle
      | disableTotp id => cases hpending; exact List.not_mem_nil
      | writeUser actor id change before => cases hpending; cases change <;> exact hgone
      | _ => cases hpending
  · by_cases hc : c = l.1
    · subst hc
      simp only [Function.update_self]
      by_contra hspends
      rw [Bool.not_eq_false] at hspends
      rcases spends_change hstatement hspends with hold | ⟨stored, hstored, hmem⟩
      · rw [hidle] at hold
        cases hold
      · rw [hfind] at hstored
        cases hstored
        exact hgone hmem
    · simp only [Function.update_of_ne hc]
      exact h.clients c

/-- A use that no other call overlaps uses the code up. -/
theorem Trimmed.spent (h : Trimmed s) (hn : AuthRuns.next env l s = some t)
    (haccepts : Accepts userId hash ⟨s, l, t⟩) (halone : ¬ Overlaps userId ⟨s, l, t⟩) :
    Spent userId hash t := by
  have hothers : ∀ c, c ≠ l.1 → spends userId hash (s.client c) = false := by
    intro c hc
    by_contra hspends
    rw [Bool.not_eq_false] at hspends
    exact halone ⟨hash, haccepts, c, hc, hspends⟩
  obtain ⟨q, s', hstep, rfl⟩ := next_cases hn
  have htrimmed := h l.1
  unfold Accepts accepted at haccepts
  dsimp only at haccepts
  split at haccepts
  · next d id used remaining k hi hpc =>
      obtain ⟨user, hfind, he⟩ := Option.map_eq_some_iff.mp haccepts
      cases he
      rw [hpc] at htrimmed hstep
      rw [hi] at hstep
      have hgone : hash ∉ remaining := htrimmed userId hash remaining rfl
      have hwrite : (q, s') =
          (proved userId k, s.data.setUser userId (.setRecoveryHashes remaining)) := by
        simp only [step, statement, updateThen, Shared.updateUser, hfind, reduceCtorEq, if_false]
          at hstep
        exact (Option.some.inj hstep).symm
      obtain ⟨rfl, rfl⟩ := Prod.mk.inj hwrite
      refine ⟨⟨(UserUpdate.setRecoveryHashes remaining).set user, ?_, hgone⟩, fun c => ?_⟩
      · rw [Shared.find_setUser, if_pos rfl, hfind, Option.map_some]
      · by_cases hc : c = l.1
        · subst hc
          simp only [Function.update_self]
          rw [spends, consuming_proved, Option.any_none]
        · simp only [Function.update_of_ne hc]
          exact hothers c hc
  · cases haccepts

end Step

/-- When no use is written while another call holds the code or its hash, a code
that has been accepted is not accepted again and its hash is not stored, until
`verifyAndEnable` issues it again. -/
theorem recovery_codes_one_time {env : Env} {s₀ : Shared} {tr : List Occurrence} {s : Service}
    (h : Run (AuthRuns.next env) (start s₀) tr s) {userId : Uuid}
    (halone : ∀ e ∈ tr, ¬ Overlaps userId e) {before mid after : List Occurrence} {e : Occurrence}
    (htr : tr = before ++ e :: (mid ++ after)) {hash : String}
    (haccepts : Accepts userId hash e) (hissues : ∀ e' ∈ mid, ¬ IssuesCode env userId hash e') :
    (∀ e' ∈ mid, ¬ Accepts userId hash e') ∧
      ∀ t, t = e.post ∨ (∃ e' ∈ mid, t = e'.post) → hash ∉ storedHashes t.data userId := by
  have htrimmed : Trimmed e.pre := by
    refine (h.split htr).1.invariant Trimmed (fun c id used remaining hc => ?_)
      fun l s t hs hn => hs.next hn
    cases hc
  have he : e ∈ tr := by rw [htr]; simp
  have hspent : Spent userId hash e.post :=
    htrimmed.spent (h.event_next e he) haccepts (halone e he)
  obtain ⟨t, hmid, -⟩ := (h.split htr).2.split_append rfl
  have hstays := hmid.invariant_events (fun e' => ¬ IssuesCode env userId hash e')
    (Spent userId hash) hspent (fun l s t hs hn hc => hs.next hn hc) hissues
  refine ⟨fun e' he' => (hstays.2 e' he').1.not_accepts, ?_⟩
  rintro t (rfl | ⟨e', he', rfl⟩)
  · exact hspent.not_mem_storedHashes
  · exact (hstays.2 e' he').2.not_mem_storedHashes

/-! ## Concrete runs -/

/-- A user with two recovery codes and a live access token. -/
def holder : User :=
  { account 1 "a" userRole true with totpRecoveryHashes := ["r1", "r2"] }

def enrolled : Shared :=
  { usersOnly [holder] with minted := [signAsync (.access holder) 0] }

/-- A step-up with a code, up to its check. -/
def checks (c : ℕ) (code : String) : List (ℕ × Input) :=
  (c, .request (.authorized (signAsync (.access holder) 0) (.stepUp code)) 0) ::
    statements c 0 0 2

/-- One code after the other, and one of them again. -/
def inTurn : List (ℕ × Input) :=
  checks 0 "r1" ++ statements 0 0 0 2 ++ checks 1 "r2" ++ statements 1 0 0 2 ++ checks 2 "r1"

/-- The tests of `Overlaps`, for requests below `n`. -/
def aloneBelow (n : ℕ) (e : Occurrence) : Bool :=
  (accepted e.pre.data e.label.2 (e.pre.client e.label.1)).all fun use =>
    (List.range n).all fun c => c = e.label.1 || !spends use.1 use.2 (e.pre.client c)

theorem not_overlaps_of_below {env : Env} {s₀ : Shared} {tr : List Occurrence} {s : Service}
    (h : Run (AuthRuns.next env) (start s₀) tr s) {n : ℕ} (hn : ∀ e ∈ tr, e.label.1 < n)
    {e : Occurrence} (he : e ∈ tr) (hbelow : aloneBelow n e = true) {userId : Uuid} :
    ¬ Overlaps userId e := by
  rintro ⟨hash, haccepts, c, hc, hspends⟩
  rw [Accepts] at haccepts
  rw [aloneBelow, haccepts, Option.all_some, List.all_eq_true] at hbelow
  by_cases hlt : c < n
  · have hquiet := hbelow c (List.mem_range.mpr hlt)
    rw [hspends, Bool.not_true, Bool.or_false] at hquiet
    exact hc (of_decide_eq_true hquiet)
  · have hidle := (run_untouched h (c := c) fun e' he' hec => hlt (hec ▸ hn e' he')).2 e he
    rw [hidle] at hspends
    cases hspends

theorem recovery_codes_one_time_in_turn :
    ∃ tr s, Run (AuthRuns.next (plainEnv [])) (start enrolled) tr s ∧
      storedHashes s.data 1 = [] ∧ ∃ before e after, tr = before ++ e :: after ∧
        Accepts 1 "r1" e ∧ (∀ e' ∈ after, ¬ Accepts 1 "r1" e') ∧
          ∀ t, t = e.post ∨ (∃ e' ∈ after, t = e'.post) → "r1" ∉ storedHashes t.data 1 := by
  obtain ⟨tr, s, hrun, -, hs⟩ := Run.of_trace_map (AuthRuns.next (plainEnv [])) inTurn
    (start enrolled)
    (fun tr s => (decide (∃ e ∈ tr, Accepts 1 "r1" e),
      decide (∀ e ∈ tr, e.label.1 < 3 ∧ aloneBelow 3 e = true ∧
        ¬ IssuesCode (plainEnv []) 1 "r1" e), storedHashes s.data 1)) (true, true, []) (by decide)
  rw [Prod.mk.injEq, Prod.mk.injEq, decide_eq_true_eq, decide_eq_true_eq] at hs
  obtain ⟨⟨e, he, haccepts⟩, hchecked, hnone⟩ := hs
  obtain ⟨before, after, htr⟩ := List.append_of_mem he
  refine ⟨tr, s, hrun, hnone, before, e, after, htr, haccepts, ?_⟩
  exact recovery_codes_one_time hrun
    (fun e he => not_overlaps_of_below hrun (fun e he => (hchecked e he).1) he (hchecked e he).2.1)
    (by rw [List.append_nil]; exact htr : tr = before ++ e :: (after ++ [])) haccepts
    fun e' he' => (hchecked e' (by rw [htr]; simp [he'])).2.2

/-- Two calls check the same code before either writes. -/
def together : List (ℕ × Input) :=
  checks 0 "r1" ++ checks 1 "r1" ++ statements 0 0 0 2 ++ statements 1 0 0 2

/-- Two calls read the hashes before either writes. -/
def writtenBack : List (ℕ × Input) :=
  checks 0 "r1" ++ checks 1 "r2" ++ statements 0 0 0 1 ++ statements 1 0 0 1 ++
    statements 0 0 0 1 ++ statements 1 0 0 1

theorem recovery_code_accepted_twice :
    (∃ tr s, Run (AuthRuns.next (plainEnv [])) (start enrolled) tr s ∧
      (∀ e ∈ tr, ¬ IssuesCode (plainEnv []) 1 "r1" e) ∧
      (tr.filter fun e => Accepts 1 "r1" e).length = 2) ∧
    ∃ tr s, Run (AuthRuns.next (plainEnv [])) (start enrolled) tr s ∧
      (∀ e ∈ tr, ¬ IssuesCode (plainEnv []) 1 "r1" e) ∧
      (∃ e ∈ tr, Accepts 1 "r1" e ∧ "r1" ∉ storedHashes e.post.data 1) ∧
      "r1" ∈ storedHashes s.data 1 := by
  constructor
  · obtain ⟨tr, s, hrun, -, hs⟩ := Run.of_trace_map (AuthRuns.next (plainEnv [])) together
      (start enrolled)
      (fun tr _ => (decide (∀ e ∈ tr, ¬ IssuesCode (plainEnv []) 1 "r1" e),
        (tr.filter fun e => Accepts 1 "r1" e).length)) (true, 2) (by decide)
    rw [Prod.mk.injEq, decide_eq_true_eq] at hs
    exact ⟨tr, s, hrun, hs⟩
  · obtain ⟨tr, s, hrun, -, hs⟩ := Run.of_trace_map (AuthRuns.next (plainEnv [])) writtenBack
      (start enrolled)
      (fun tr s => (decide (∀ e ∈ tr, ¬ IssuesCode (plainEnv []) 1 "r1" e),
        decide (∃ e ∈ tr, Accepts 1 "r1" e ∧ "r1" ∉ storedHashes e.post.data 1),
        decide ("r1" ∈ storedHashes s.data 1))) (true, true, true) (by decide)
    rw [Prod.mk.injEq, Prod.mk.injEq, decide_eq_true_eq, decide_eq_true_eq, decide_eq_true_eq] at hs
    exact ⟨tr, s, hrun, hs⟩

end MaxOne.RecoveryCodes
