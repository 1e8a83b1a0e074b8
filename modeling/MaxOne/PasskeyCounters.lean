import MaxOne.AuthRuns

/-!
# Passkey counters

`verifyAuthentication` checks the counter of an assertion against the one it has
read and writes it back later, by identifier and without a condition. The check
decides while nobody else writes the passkey in between: the stored counter never
decreases and no two accepted assertions carry one non-zero counter, exactly when
every counter that is written is still newer than the one it overwrites.
-/
namespace MaxOne.PasskeyCounters
open Library Library.Runs Library.Interleaving MaxOne.Schema MaxOne.Accounts MaxOne.AuthService
  MaxOne.AuthMachine MaxOne.AuthRuns

/-- What `verifyAuthenticationResponse` demands of an assertion's counter. -/
def Newer (stored counter : ℕ) : Prop := stored < counter ∨ (stored = 0 ∧ counter = 0)

instance (stored counter : ℕ) : Decidable (Newer stored counter) :=
  inferInstanceAs (Decidable (_ ∨ _))

/-- Every verified counter is newer than the one of the passkey it was given. -/
def ChecksCounter (env : Env) : Prop :=
  ∀ response challenge passkey counter,
    env.verifyAuthenticationResponse response challenge passkey = .verified counter →
      Newer passkey.counter counter

def storedCounter (s : Shared) (id : Uuid) : Option ℕ := (s.passkeys.find id).map Passkey.counter

/-- The counter a call has verified and is about to write. -/
def verifiedCounter (id : Uuid) : Pc → Option ℕ
  | .updateCounter id' _ counter _ => if id' = id then some counter else none
  | _ => none

def running : Input → Bool
  | .run _ => true
  | _ => false

/-- The counter with which an assertion is accepted: its UPDATE finds the passkey. -/
def accepted (id : Uuid) (e : Occurrence) : Option ℕ :=
  if running e.label.2 ∧ storedCounter e.pre.data id ≠ none then
    verifiedCounter id (e.pre.client e.label.1)
  else none

/-- The counters of the accepted assertions, oldest first. -/
def acceptedCounters (id : Uuid) (tr : List Occurrence) : List ℕ := tr.filterMap (accepted id)

def NeverDecreases (id : Uuid) (e : Occurrence) : Prop :=
  ∀ c ∈ storedCounter e.pre.data id, ∀ c' ∈ storedCounter e.post.data id, c ≤ c'

/-- The counter that is written is newer than the one it overwrites. -/
def StillNewer (id : Uuid) (e : Occurrence) : Prop :=
  ∀ counter ∈ accepted id e, ∀ stored ∈ storedCounter e.pre.data id, Newer stored counter

instance (id : Uuid) : DecidablePred (StillNewer id) := fun e =>
  inferInstanceAs (Decidable (∀ counter ∈ accepted id e, ∀ stored ∈ storedCounter e.pre.data id,
    Newer stored counter))

/-- `DELETE /auth/passkeys/:id` reaches its statement. -/
def Removes (id : Uuid) (e : Occurrence) : Prop :=
  ∃ userId, e.pre.client e.label.1 = .removePasskey userId id

section Statement
variable {env : Env} {i : Input} {p q : Pc} {s s' : Shared} {id : Uuid}

/-- Only three statements write the passkeys. -/
theorem passkeys_frame (h : Statement env s i p q s')
    (hcount : ∀ id userId counter k, p ≠ .updateCounter id userId counter k)
    (hremove : ∀ userId, p ≠ .removePasskey userId id) {c : ℕ}
    (hc : storedCounter s id = some c) : storedCounter s' id = some c := by
  obtain ⟨row, hrow, hcounter⟩ := Option.map_eq_some_iff.mp hc
  cases h with
  | createsPasskey d userId credential label passkeys hinsert =>
      have hkept := IndexedTable.find_insert_of_some hinsert hrow
      rw [storedCounter, hkept, Option.map_some, hcounter]
  | removesPasskey d userId id' =>
      have hid : row.id = id := Table.find_key hrow
      have hne : id ≠ id' := by
        rintro rfl
        exact hremove userId rfl
      have hkept : (s.passkeys.deleteWhere fun row =>
          decide (row.id = id' ∧ row.userId = userId)).find id = some row := by
        rw [IndexedTable.find_deleteWhere, hrow]
        simp [hid, hne]
      rw [storedCounter, hkept, Option.map_some, hcounter]
  | counts d id' userId counter k => exact absurd rfl (hcount id' userId counter k)
  | patches =>
      rw [storedCounter]
      simp only [sweep_passkeys]
      exact hc
  | _ => exact hc

theorem storedCounter_updateCounter {id' userId : Uuid} {counter : ℕ} {k : Ceremony} :
    storedCounter (updateCounter s id' userId counter k).2 id =
      if id' = id ∧ storedCounter s id ≠ none then some counter else storedCounter s id := by
  by_cases hid : id' = id
  · subst hid
    cases hrow : s.passkeys.find id' with
    | none => simp [updateCounter, storedCounter, hrow]
    | some row => simp [updateCounter, storedCounter, hrow, IndexedTable.find_modify]
  · rw [if_neg fun h => hid h.1]
    unfold updateCounter
    by_cases hgone : s.passkeys.find id' = none
    · rw [if_pos hgone]
    · rw [if_neg hgone]
      simp [storedCounter, IndexedTable.find_modify, Ne.symm hid]

/-- What an event leaves in a passkey that nobody removes. -/
theorem stored_event {l : ℕ × Input} {s t : Service} (hn : AuthRuns.next env l s = some t)
    (hremove : ¬ Removes id ⟨s, l, t⟩) {c : ℕ} (hc : storedCounter s.data id = some c) :
    storedCounter t.data id = some ((accepted id ⟨s, l, t⟩).getD c) := by
  obtain ⟨q, d, hstep, rfl⟩ := next_cases hn
  obtain ⟨x, i⟩ := l
  have hsome : storedCounter s.data id ≠ none := by rw [hc]; exact Option.some_ne_none c
  by_cases hcount : ∃ id' userId counter k, s.client x = .updateCounter id' userId counter k
  · obtain ⟨id', userId, counter, k, hp⟩ := hcount
    simp only [hp] at hstep
    cases i with
    | request r now => cases hstep
    | run draw =>
        have hd : d = (updateCounter s.data id' userId counter k).2 :=
          (congrArg Prod.snd (Option.some.inj hstep)).symm
        simp only [accepted, running, hp, verifiedCounter, hd, storedCounter_updateCounter]
        by_cases hid : id' = id
        · simp [hid, hsome]
        · simp [hid, hc]
    | lost =>
        cases hstep
        simp [accepted, running, hc]
    | money db =>
        cases hstep
        simp only [accepted, running]
        exact hc
  · push Not at hcount
    have hframe := passkeys_frame (step_statement hstep) hcount
      (fun userId hp => hremove ⟨userId, hp⟩) hc
    have hnone : verifiedCounter id (s.client x) = none := by
      unfold verifiedCounter
      split
      · next id' userId counter k hp => exact absurd hp (hcount id' userId counter k)
      · rfl
    simp only [accepted, hnone, ite_self, Option.getD_none]
    exact hframe

theorem verifiedCounter_entry (h : entry p = true) : verifiedCounter id p = none := by
  cases p <;> first | rfl | cases h

theorem verifiedCounter_proved (userId : Uuid) (k : ProofOf) :
    verifiedCounter id (proved userId k) = none :=
  proved_rule (P := (verifiedCounter id · = none)) (fun _ => rfl) (fun _ _ _ => rfl) (fun _ => rfl)
    fun _ => rfl

/-- A counter about to be written is newer than the one that was read with it. -/
theorem verifiedCounter_change (hchecks : ChecksCounter env) (h : Statement env s i p q s')
    {counter : ℕ} (hq : verifiedCounter id q = some counter) :
    verifiedCounter id p = some counter ∨
      ∃ c, storedCounter s id = some c ∧ Newer c counter := by
  cases h with
  | receives r now =>
      rw [verifiedCounter_entry (entry_receive r)] at hq
      cases hq
  | money => exact .inl hq
  | authenticates =>
      rw [verifiedCounter_entry (entry_dispatch _ _)] at hq
      cases hq
  | provesTotp =>
      rw [verifiedCounter_proved] at hq
      cases hq
  | consumes =>
      rw [verifiedCounter_proved] at hq
      cases hq
  | verifiesAssertion d response challenge k passkey verified hrow hid hexpects hverified =>
      simp only [verifiedCounter] at hq
      split_ifs at hq with hsame
      obtain rfl := Option.some.inj hq
      have hfind : s.passkeys.find id = some passkey := hsame ▸ Table.find_of_mem hrow
      exact .inr ⟨passkey.counter, by rw [storedCounter, hfind, Option.map_some],
        hchecks response challenge passkey verified hverified⟩
  | counts d id' userId counter' k => cases k <;> cases hq
  | permits d actor id' patch =>
      rcases patchUser_cases env actor id' patch with ⟨e, he⟩ | ⟨change, he⟩ <;>
        rw [he] at hq <;> cases hq
  | _ => cases hq

end Statement

/-! ## Counters along a run -/

section Runs
variable {env : Env} {id : Uuid} {tr : List Occurrence} {s t : Service} {l : ℕ × Input}

theorem acceptedCounters_append (e : Occurrence) :
    acceptedCounters id (tr ++ [e]) = acceptedCounters id tr ++ (accepted id e).toList := by
  rw [acceptedCounters, List.filterMap_append]
  cases h : accepted id e with
  | none => simp [acceptedCounters, h]
  | some c => simp [acceptedCounters, h]

theorem accepted_spec {e : Occurrence} {counter : ℕ} (h : accepted id e = some counter) :
    (∃ c, storedCounter e.pre.data id = some c) ∧
      verifiedCounter id (e.pre.client e.label.1) = some counter := by
  unfold accepted at h
  split_ifs at h with hrun
  exact ⟨Option.ne_none_iff_exists'.mp hrun.2, h⟩

/-- While every written counter is newer, the stored one bounds those accepted so far
and grows with each of them. -/
structure Bounded (id : Uuid) (tr : List Occurrence) (s : Service) : Prop where
  le : ∀ a ∈ acceptedCounters id tr, ∃ c, storedCounter s.data id = some c ∧ a ≤ c
  nodup : ((acceptedCounters id tr).filter (· ≠ 0)).Nodup
  grows : ∀ e ∈ tr, NeverDecreases id e

theorem bounded_start : Bounded id [] s where
  le _ ha := absurd ha List.not_mem_nil
  nodup := List.nodup_nil
  grows _ he := absurd he List.not_mem_nil

theorem Bounded.event (h : Bounded id tr s) (hn : AuthRuns.next env l s = some t)
    (hremove : ¬ Removes id ⟨s, l, t⟩) (hnewer : StillNewer id ⟨s, l, t⟩) :
    Bounded id (tr ++ [⟨s, l, t⟩]) t := by
  have hstored : ∀ c, storedCounter s.data id = some c →
      storedCounter t.data id = some ((accepted id ⟨s, l, t⟩).getD c) :=
    fun c hc => stored_event hn hremove hc
  have hle : ∀ c, storedCounter s.data id = some c → c ≤ (accepted id ⟨s, l, t⟩).getD c := by
    intro c hc
    cases ha : accepted id ⟨s, l, t⟩ with
    | none => exact le_rfl
    | some counter =>
        rw [Option.getD_some]
        rcases hnewer counter ha c hc with hlt | ⟨hzero, -⟩
        · exact hlt.le
        · exact hzero ▸ Nat.zero_le _
  refine ⟨fun a ha => ?_, ?_, fun e he => ?_⟩
  · rw [acceptedCounters_append, List.mem_append] at ha
    rcases ha with hold | hnew
    · obtain ⟨c, hc, hac⟩ := h.le a hold
      exact ⟨_, hstored c hc, hac.trans (hle c hc)⟩
    · rw [Option.mem_toList] at hnew
      obtain ⟨⟨c, hc⟩, -⟩ := accepted_spec hnew
      refine ⟨_, hstored c hc, ?_⟩
      rw [Option.mem_def.mp hnew, Option.getD_some]
  · rw [acceptedCounters_append, List.filter_append, List.nodup_append']
    refine ⟨h.nodup, ?_, ?_⟩
    · cases accepted id ⟨s, l, t⟩ with
      | none => exact List.nodup_nil
      | some counter => exact (List.nodup_singleton counter).filter _
    · intro a hold hnew
      rw [List.mem_filter, Option.mem_toList] at hnew
      obtain ⟨⟨c, hc⟩, -⟩ := accepted_spec hnew.1
      obtain ⟨c', hc', hac⟩ := h.le a (List.mem_filter.mp hold).1
      obtain rfl : c = c' := Option.some.inj (hc.symm.trans hc')
      have hzero : a ≠ 0 := by simpa using hnew.2
      rcases hnewer a hnew.1 c hc with hlt | ⟨-, ha⟩
      · omega
      · exact hzero ha
  · rcases List.mem_append.mp he with he | he
    · exact h.grows e he
    · rw [List.mem_singleton] at he
      subst he
      intro c hc c' hc'
      have hsame : c' = (accepted id ⟨s, l, t⟩).getD c :=
        Option.some.inj ((Option.mem_def.mp hc').symm.trans (hstored c hc))
      rw [hsame]
      exact hle c hc

/-- Where a verified counter was checked, as long as the stored one never decreases:
against a value that has not grown since, or that an accepted one has replaced. -/
def Checked (id : Uuid) (tr : List Occurrence) (s : Service) : Prop :=
  ∀ x counter, verifiedCounter id (s.client x) = some counter →
    ∃ r c, Newer r counter ∧ storedCounter s.data id = some c ∧ r ≤ c ∧
      (c = r ∨ c ∈ acceptedCounters id tr)

theorem Checked.event (hchecks : ChecksCounter env) (h : Checked id tr s)
    (hn : AuthRuns.next env l s = some t) (hremove : ¬ Removes id ⟨s, l, t⟩)
    (hgrows : NeverDecreases id ⟨s, l, t⟩) : Checked id (tr ++ [⟨s, l, t⟩]) t := by
  -- a value that was checked against stays a lower bound over this event
  have hkeep : ∀ r c, storedCounter s.data id = some c → r ≤ c →
      (c = r ∨ c ∈ acceptedCounters id tr) → ∃ c', storedCounter t.data id = some c' ∧ r ≤ c' ∧
        (c' = r ∨ c' ∈ acceptedCounters id (tr ++ [⟨s, l, t⟩])) := by
    intro r c hc hrc hfrom
    have hstored := stored_event hn hremove hc
    have hle := hgrows c hc _ hstored
    refine ⟨_, hstored, hrc.trans hle, ?_⟩
    rw [acceptedCounters_append, List.mem_append]
    cases ha : accepted id ⟨s, l, t⟩ with
    | none => exact hfrom.imp_right .inl
    | some counter => exact .inr (.inr (by simp))
  obtain ⟨q, d, hstep, rfl⟩ := next_cases hn
  intro x counter hx
  have hread : verifiedCounter id (s.client x) = some counter ∨
      ∃ c, storedCounter s.data id = some c ∧ Newer c counter := by
    by_cases hxl : x = l.1
    · subst hxl
      simp only [Function.update_self] at hx
      exact verifiedCounter_change hchecks (step_statement hstep) hx
    · simp only [Function.update_of_ne hxl] at hx
      exact .inl hx
  rcases hread with hold | ⟨c, hc, hnewer⟩
  · obtain ⟨r, c, hnewer, hc, hrc, hfrom⟩ := h x counter hold
    obtain ⟨c', hc', hrest⟩ := hkeep r c hc hrc hfrom
    exact ⟨r, c', hnewer, hc', hrest⟩
  · obtain ⟨c', hc', hrest⟩ := hkeep c c hc le_rfl (.inl rfl)
    exact ⟨c, c', hnewer, hc', hrest⟩

/-- A counter accepted once and again occurs twice. -/
theorem not_nodup_of_twice {e : Occurrence} {after : List Occurrence} {a : ℕ}
    (hold : a ∈ acceptedCounters id tr) (hnew : a ∈ accepted id e) (hne : a ≠ 0) :
    ¬ ((acceptedCounters id (tr ++ [e] ++ after)).filter (· ≠ 0)).Nodup := by
  have hsplit : acceptedCounters id (tr ++ [e] ++ after) =
      acceptedCounters id tr ++ (accepted id e).toList ++ acceptedCounters id after := by
    rw [← acceptedCounters_append, acceptedCounters, List.filterMap_append]
    rfl
  rw [hsplit, List.filter_append, List.filter_append, List.nodup_append', List.nodup_append']
  rintro ⟨⟨-, -, hdisjoint⟩, -⟩
  refine hdisjoint (List.mem_filter.mpr ⟨hold, by simpa using hne⟩)
    (List.mem_filter.mpr ⟨?_, by simpa using hne⟩)
  exact Option.mem_toList.mpr hnew

end Runs

/-- With a library that checks counters, and while nobody removes the passkey: its
counter never goes back and no two accepted assertions share a non-zero counter, if
and only if every written counter is newer than the one it overwrites. -/
theorem counters_never_go_back {env : Env} {s₀ : Shared} {tr : List Occurrence} {s : Service}
    {id : Uuid} (hchecks : ChecksCounter env) (h : Run (AuthRuns.next env) (start s₀) tr s)
    (hremove : ∀ e ∈ tr, ¬ Removes id e) :
    ((∀ e ∈ tr, NeverDecreases id e) ∧ ((acceptedCounters id tr).filter (· ≠ 0)).Nodup) ↔
      ∀ e ∈ tr, StillNewer id e := by
  constructor
  · rintro ⟨hgrows, hnodup⟩ e he counter ha stored hc
    obtain ⟨before, after, htr⟩ := List.append_of_mem he
    have hsplit := h.split htr
    have hchecked : Checked id before e.pre := hsplit.1.history
      (fun e => ¬ Removes id e ∧ NeverDecreases id e) (Checked id)
      (fun x counter hx => by cases hx)
      (fun tr l s t hi hn hC => hi.event hchecks hn hC.1 hC.2)
      (fun e' he' => ⟨hremove e' (by rw [htr]; exact List.mem_append_left _ he'),
        hgrows e' (by rw [htr]; exact List.mem_append_left _ he')⟩)
    obtain ⟨r, c, hnewer, hc', hrc, hfrom⟩ := hchecked e.label.1 counter (accepted_spec ha).2
    obtain rfl : stored = c := Option.some.inj ((Option.mem_def.mp hc).symm.trans hc')
    have hpost := stored_event (h.event_next e he) (hremove e he) hc
    have hle : stored ≤ counter := by
      have hgrow := hgrows e he stored hc _ hpost
      rwa [Option.mem_def.mp ha, Option.getD_some] at hgrow
    rcases hfrom with rfl | hmem
    · exact hnewer
    · rcases hle.lt_or_eq with hlt | rfl
      · exact .inl hlt
      · -- the same counter was accepted before, so it is zero
        have hzero : stored = 0 := by
          by_contra hne
          rw [htr, ← List.singleton_append, ← List.append_assoc] at hnodup
          exact not_nodup_of_twice hmem ha hne hnodup
        exact .inr ⟨hzero, hzero⟩
  · intro hnewer
    have hbounded : Bounded id tr s := h.history
      (fun e => ¬ Removes id e ∧ StillNewer id e) (Bounded id)
      bounded_start
      (fun tr l s t hi hn hC => hi.event hn hC.1 hC.2) (fun e he => ⟨hremove e he, hnewer e he⟩)
    exact ⟨hbounded.grows, hbounded.nodup⟩

/-! ## Two ceremonies -/

/-- An assertion carries its counter as the length of its text. -/
def countingEnv : Env :=
  { plainEnv [] with
    verifyAuthenticationResponse := fun response _ passkey =>
      if Newer passkey.counter response.json.length then .verified response.json.length
      else .rejected }

theorem countingEnv_checks : ChecksCounter countingEnv := by
  intro response challenge passkey counter h
  simp only [countingEnv] at h
  split_ifs at h with hnewer
  obtain rfl := Verdict.verified.inj h
  exact hnewer

/-- User 1 with a passkey that has counted to 5. -/
def registered : Shared :=
  { usersOnly [account 1 "a" userRole false] with
    passkeys := (IndexedTable.empty.insert ⟨7, 1, "key", "key", 5, none⟩).getD .empty }

def challengeToken : Jwt := signAsync (.webAuthnChallenge "c" none) 0

/-- A client is given the challenge that all ceremonies below answer. -/
def options : List (ℕ × Input) :=
  (0, .request .passkeyLoginOptions 0) :: [(0, .run (draw 0 0 "c")), (0, .run (draw 0 0 "c"))]

def present (c : ℕ) (json : String) : List (ℕ × Input) :=
  [(c, .request (.passkeyLoginVerify ⟨"key", json⟩ challengeToken) 1000),
    (c, .run (draw 1000 0 ""))]

def record (c : ℕ) : List (ℕ × Input) := [(c, .run (draw 1000 0 ""))]

/-- Checks what the theorem asks of a run, and lists the accepted counters. -/
def observe (tr : List Occurrence) (s : Service) : Bool × List ℕ × Option ℕ :=
  (tr.all fun e => match e.pre.client e.label.1 with
    | .removePasskey .. => false
    | _ => true, acceptedCounters 7 tr, storedCounter s.data 7)

theorem not_removes {tr : List Occurrence} (h : (tr.all fun e =>
    match e.pre.client e.label.1 with
    | .removePasskey .. => false
    | _ => true) = true) : ∀ e ∈ tr, ¬ Removes 7 e := by
  rintro e he ⟨userId, hp⟩
  have hnot := List.all_eq_true.mp h e he
  rw [hp] at hnot
  cases hnot

/-- Two ceremonies one after the other. -/
theorem counters_never_go_back_sequential :
    ∃ tr s, Run (AuthRuns.next countingEnv) (start registered) tr s ∧
      acceptedCounters 7 tr = [6, 7] ∧ ∀ e ∈ tr, NeverDecreases 7 e := by
  obtain ⟨tr, s, hrun, -, hs⟩ := Run.of_trace_map (AuthRuns.next countingEnv)
    (options ++ present 1 "123456" ++ record 1 ++ present 2 "1234567" ++ record 2)
    (start registered)
    (fun tr s => (observe tr s, decide (∀ e ∈ tr, StillNewer 7 e)))
    ((true, [6, 7], some 7), true) (by decide)
  rw [Prod.mk.injEq, decide_eq_true_eq] at hs
  obtain ⟨hobserved, hnewer⟩ := hs
  rw [observe, Prod.mk.injEq, Prod.mk.injEq] at hobserved
  obtain ⟨hkept, haccepted, -⟩ := hobserved
  exact ⟨tr, s, hrun, haccepted,
    ((counters_never_go_back countingEnv_checks hrun (not_removes hkept)).mpr hnewer).1⟩

/-- Both ceremonies read the counter 5; the later one is written first, and the
earlier one takes the stored counter back. -/
theorem counter_goes_back :
    ∃ tr s, ChecksCounter countingEnv ∧ Run (AuthRuns.next countingEnv) (start registered) tr s ∧
      (∀ e ∈ tr, ¬ Removes 7 e) ∧ acceptedCounters 7 tr = [7, 6] ∧
      storedCounter s.data 7 = some 6 ∧ ¬ ∀ e ∈ tr, NeverDecreases 7 e := by
  obtain ⟨tr, s, hrun, -, hs⟩ := Run.of_trace_map (AuthRuns.next countingEnv)
    (options ++ present 1 "123456" ++ present 2 "1234567" ++ record 2 ++ record 1)
    (start registered)
    (fun tr s => (observe tr s, decide (∃ e ∈ tr, storedCounter e.pre.data 7 = some 7 ∧
      storedCounter e.post.data 7 = some 6)))
    ((true, [7, 6], some 6), true) (by decide)
  rw [Prod.mk.injEq, decide_eq_true_eq] at hs
  obtain ⟨hobserved, e, he, hpre, hpost⟩ := hs
  rw [observe, Prod.mk.injEq, Prod.mk.injEq] at hobserved
  obtain ⟨hkept, haccepted, hstored⟩ := hobserved
  refine ⟨tr, s, countingEnv_checks, hrun, not_removes hkept, haccepted, hstored, fun hgrows => ?_⟩
  exact absurd (hgrows e he 7 hpre 6 hpost) (by decide)

end MaxOne.PasskeyCounters
