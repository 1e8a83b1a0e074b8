import MaxOne.AuthRuns

/-!
# Revoked session families

`rotate` deletes a family when one of its tokens is replayed after the grace
period. A rotation that has read a row of the family before still claims or
issues after the deletion: an UPDATE that finds the row gone is taken for a lost
race, and the sibling it issues brings the family back. Without such a rotation
in flight the family stays dead.
-/
namespace MaxOne.RevokedFamilies
open Library Library.Runs Library.Interleaving MaxOne.Schema MaxOne.Accounts MaxOne.AuthService
  MaxOne.AuthMachine MaxOne.AuthRuns

/-- The family whose rows a statement deletes. -/
def revoked : Input → Pc → Option Uuid
  | .run _, .deleteFamily familyId => some familyId
  | _, _ => none

/-- The deletion of a family after a replay. -/
def Revokes (familyId : Uuid) (e : Occurrence) : Prop :=
  revoked e.label.2 (e.pre.client e.label.1) = some familyId

instance (familyId : Uuid) : DecidablePred (Revokes familyId) := fun e =>
  inferInstanceAs (Decidable (revoked e.label.2 (e.pre.client e.label.1) = some familyId))

theorem Revokes.deletes {familyId : Uuid} {e : Occurrence} (h : Revokes familyId e) :
    e.pre.client e.label.1 = .deleteFamily familyId ∧ ∃ d, e.label.2 = .run d := by
  unfold Revokes revoked at h
  split at h
  · next d family hd hpc =>
      cases h
      exact ⟨hpc, d, hd⟩
  · cases h

/-- A rotation has read a row of the family and has not issued its session. -/
def inFlight (familyId : Uuid) (p : Pc) : Bool :=
  (pendingSession p).any fun pending => pending.2 = some familyId

theorem inFlight_iff {familyId : Uuid} {p : Pc} :
    inFlight familyId p = true ↔ ∃ user, pendingSession p = some (user, some familyId) := by
  rw [inFlight, Option.any_eq_true]
  constructor
  · rintro ⟨⟨user, family⟩, hpending, hfamily⟩
    obtain rfl : family = some familyId := of_decide_eq_true hfamily
    exact ⟨user, hpending⟩
  · rintro ⟨user, hpending⟩
    exact ⟨_, hpending, by simp⟩

/-- No rotation of the family is in flight when its rows are deleted. -/
def Undisturbed (e : Occurrence) : Prop :=
  ∀ familyId, Revokes familyId e → ∀ c, inFlight familyId (e.pre.client c) = false

/-- The same for requests below `n`, as a check. -/
def undisturbedBelow (n : ℕ) (e : Occurrence) : Bool :=
  (revoked e.label.2 (e.pre.client e.label.1)).all fun familyId =>
    (List.range n).all fun c => !inFlight familyId (e.pre.client c)

theorem undisturbed_of_below {env : Env} {s₀ : Shared} {tr : List Occurrence} {s : Service}
    (h : Run (AuthRuns.next env) (start s₀) tr s) {n : ℕ} (hn : ∀ e ∈ tr, e.label.1 < n)
    {e : Occurrence} (he : e ∈ tr) (hbelow : undisturbedBelow n e = true) : Undisturbed e := by
  intro familyId hrevokes
  rw [Revokes] at hrevokes
  rw [undisturbedBelow, hrevokes, Option.all_some, List.all_eq_true] at hbelow
  refine run_forall_client h hn (C := fun p => inFlight familyId p = false) (fun _ => rfl) he ?_
  intro c hc
  simpa using hbelow c (List.mem_range.mpr hc)

/-- No row of the family is left, and nobody is about to issue one. -/
structure Dead (familyId : Uuid) (t : Service) : Prop where
  drawn : familyId ∈ t.data.drawn
  rows : ∀ row ∈ t.data.refreshTokens.table.rows, row.familyId ≠ familyId
  quiet : ∀ c, inFlight familyId (t.client c) = false

section Step
variable {env : Env} {familyId : Uuid} {l : ℕ × Input} {s t : Service}

theorem Dead.next (h : Dead familyId s) (hn : AuthRuns.next env l s = some t) :
    Dead familyId t := by
  obtain ⟨q, s', hstep, rfl⟩ := next_cases hn
  have hstatement := step_statement hstep
  refine ⟨drawn_mono hstatement h.drawn, fun row hrow => ?_, fun c => ?_⟩
  · rcases tokens_change hstatement hrow with ⟨old, hold, hsame⟩ | ⟨d, user, family, hissues, rfl⟩
    · rw [hsame.familyId_eq]
      exact h.rows old hold
    · have hfresh := hissues.fresh.2.1
      cases family with
      | none =>
          rintro rfl
          exact hfresh h.drawn
      | some family =>
          rintro rfl
          have hflight := inFlight_iff.mpr ⟨user, hissues.pending⟩
          have hquiet := h.quiet l.1
          simp only [refreshTokenRow, Option.getD_some] at hquiet
          rw [hflight] at hquiet
          cases hquiet
  · by_cases hc : c = l.1
    · subst hc
      simp only [Function.update_self]
      by_contra hflight
      rw [Bool.not_eq_false, inFlight_iff] at hflight
      obtain ⟨user, hpending⟩ := hflight
      rcases pendingSession_change hstatement hpending with hp | ⟨row, hrow, hfamily, -⟩ | ⟨hnone, -⟩
      · have hold := inFlight_iff.mpr ⟨user, hp⟩
        rw [h.quiet l.1] at hold
        cases hold
      · cases hfamily
        exact h.rows row hrow rfl
      · cases hnone
    · simp only [Function.update_of_ne hc]
      exact h.quiet c

/-- The deletion itself. -/
theorem Revokes.dead {e : Occurrence} (hrevokes : Revokes familyId e)
    (howned : Owned Recorded FamilyDrawn e.pre)
    (hquiet : ∀ c, inFlight familyId (e.pre.client c) = false)
    (hn : AuthRuns.next env e.label e.pre = some e.post) : Dead familyId e.post := by
  obtain ⟨hpc, d, hd⟩ := hrevokes.deletes
  obtain ⟨q, s', hstep, hpost⟩ := next_cases hn
  rw [hpc, hd] at hstep
  cases hstep
  rw [hpost]
  refine ⟨(howned.client e.label.1).2 familyId hpc, fun row hrow => ?_, fun c => ?_⟩
  · have hkept := (Shared.mem_deleteTokens.mp hrow).2
    exact of_decide_eq_false hkept
  · by_cases hc : c = e.label.1
    · subst hc
      simp only [Function.update_self]
      rfl
    · simp only [Function.update_of_ne hc]
      exact hquiet c

end Step

/-- Once a replay has deleted a family while no rotation of it was in flight, no
later state has a row of that family. -/
theorem family_stays_dead {env : Env} {s₀ : Shared} {tr : List Occurrence} {s : Service}
    (h : Run (AuthRuns.next env) (start s₀) tr s)
    (hquiet : ∀ e ∈ tr, Undisturbed e) {before after : List Occurrence} {e : Occurrence}
    (htr : tr = before ++ e :: after)
    {familyId : Uuid} (hrevokes : Revokes familyId e) :
    ∀ t, t = e.post ∨ (∃ e' ∈ after, t = e'.post) →
      ∀ row ∈ t.data.refreshTokens.table.rows, row.familyId ≠ familyId := by
  have he : e ∈ tr := by rw [htr]; simp
  have hsplit := h.split htr
  have hdead : Dead familyId e.post := hrevokes.dead (run_recorded hsplit.1)
    (hquiet e he familyId hrevokes) (h.event_next e he)
  have hlater := hsplit.2.invariant_events (fun _ => True) (Dead familyId) hdead
    (fun _ _ _ hi hn _ => hi.next hn) fun _ _ => trivial
  rintro t (rfl | ⟨e', he', rfl⟩)
  · exact hdead.rows
  · exact (hlater.2 e' he').2.rows

/-- Login, a rotation, and a replay of the first token after the grace period. -/
def replay : List (ℕ × Input) :=
  passwordLogin 0 "a" 0 10 "first" ++
  [(1, .request (.refresh "first") 1000), (1, .run (draw 1000 0 "")),
    (1, .run (draw 1000 20 "second")),
    (2, .request (.refresh "first") 60000), (2, .run (draw 60000 0 "")),
    (2, .run (draw 60000 0 "")),
    (3, .request (.refresh "second") 61000), (3, .run (draw 61000 0 ""))]

theorem family_stays_dead_replay :
    ∃ tr s, Run (AuthRuns.next (plainEnv [])) (start (usersOnly [account 1 "a" userRole false]))
        tr s ∧ ∃ before e after, tr = before ++ e :: after ∧ Revokes 11 e ∧
      ∀ t, t = e.post ∨ (∃ e' ∈ after, t = e'.post) →
        ∀ row ∈ t.data.refreshTokens.table.rows, row.familyId ≠ 11 := by
  obtain ⟨tr, s, hrun, -, hs⟩ := Run.of_trace_map (AuthRuns.next (plainEnv [])) replay
    (start (usersOnly [account 1 "a" userRole false]))
    (fun tr _ => (decide (∃ e ∈ tr, Revokes 11 e),
      decide (∀ e ∈ tr, e.label.1 < 4 ∧ undisturbedBelow 4 e = true))) (true, true) (by decide)
  rw [Prod.mk.injEq, decide_eq_true_eq, decide_eq_true_eq] at hs
  obtain ⟨⟨e, he, hrevokes⟩, hchecked⟩ := hs
  obtain ⟨before, after, htr⟩ := List.append_of_mem he
  exact ⟨tr, s, hrun, before, e, after, htr, hrevokes, family_stays_dead hrun
    (fun e he => undisturbed_of_below hrun (fun e he => (hchecked e he).1) he (hchecked e he).2)
    htr hrevokes⟩

/-- A rotation of the second token has read its row when the replay of the first
deletes the family; its claim finds no row, and it issues a sibling. -/
def resurrection : List (ℕ × Input) :=
  passwordLogin 0 "a" 0 10 "first" ++
  [(1, .request (.refresh "first") 1000), (1, .run (draw 1000 0 "")),
    (1, .run (draw 1000 20 "second")),
    (2, .request (.refresh "second") 60000), (2, .run (draw 60000 0 "")),
    (3, .request (.refresh "first") 60000), (3, .run (draw 60000 0 "")),
    (3, .run (draw 60000 0 "")),
    (2, .run (draw 60000 30 "third")), (2, .run (draw 60000 30 "third"))]

theorem family_comes_back :
    ∃ tr s, Run (AuthRuns.next (plainEnv [])) (start (usersOnly [account 1 "a" userRole false]))
        tr s ∧ (∃ e ∈ tr, Revokes 11 e) ∧
      s.data.refreshTokens.table.rows.map RefreshToken.familyId = [11] ∧
      ¬ ∀ before e after, tr = before ++ e :: after → Revokes 11 e →
        ∀ t, t = e.post ∨ (∃ e' ∈ after, t = e'.post) →
          ∀ row ∈ t.data.refreshTokens.table.rows, row.familyId ≠ 11 := by
  obtain ⟨tr, s, hrun, -, hs⟩ := Run.of_trace_map (AuthRuns.next (plainEnv [])) resurrection
    (start (usersOnly [account 1 "a" userRole false]))
    (fun tr s => (decide (∃ e ∈ tr, Revokes 11 e),
      s.data.refreshTokens.table.rows.map RefreshToken.familyId)) (true, [11]) (by decide)
  rw [Prod.mk.injEq, decide_eq_true_eq] at hs
  refine ⟨tr, s, hrun, hs.1, hs.2, fun hdead => ?_⟩
  obtain ⟨e, he, hrevokes⟩ := hs.1
  obtain ⟨before, after, htr⟩ := List.append_of_mem he
  have hrows := hdead before e after htr hrevokes s (hrun.split htr).2.end_eq
  have hfamily : 11 ∈ s.data.refreshTokens.table.rows.map RefreshToken.familyId := by
    rw [hs.2]
    exact List.mem_singleton_self 11
  obtain ⟨row, hrow, hrow11⟩ := List.mem_map.mp hfamily
  exact hrows row hrow hrow11

end MaxOne.RevokedFamilies
