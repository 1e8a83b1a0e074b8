import Mathlib.Tactic

/-!
# Finite runs of labelled partial machines

A machine is a partial function `next : L → S → Option S`: a label names what
is attempted and `none` says that it is not possible in that state. A run
remembers every transition it took, oldest first, as an event carrying the
state before, the label and the state after. Properties of single states are
proved by `Run.invariant`; properties of what happened earlier are proved by
induction on the run itself, and `trace` turns a list of labels into a run.
-/
namespace Library.Runs

variable {L S : Type*}

/-- One transition as it was taken. -/
structure Event (L S : Type*) where
  pre : S
  label : L
  post : S

/-- Runs grow at their end, so an induction meets the latest event first. -/
inductive Run (next : L → S → Option S) (s₀ : S) : List (Event L S) → S → Prop
  | start : Run next s₀ [] s₀
  | step {tr : List (Event L S)} {s t : S} (l : L) :
      Run next s₀ tr s → next l s = some t → Run next s₀ (tr ++ [⟨s, l, t⟩]) t

/-- Some run ends in `s`. -/
def Reachable (next : L → S → Option S) (s₀ s : S) : Prop :=
  ∃ tr, Run next s₀ tr s

section
variable {next : L → S → Option S} {s₀ s t : S} {tr us : List (Event L S)}

theorem Run.trans (h : Run next s₀ tr s) (k : Run next s us t) :
    Run next s₀ (tr ++ us) t := by
  induction k with
  | start => simpa only [List.append_nil] using h
  | step l _ hl ih =>
      rw [← List.append_assoc]
      exact .step l ih hl

/-- An invariant only has to survive the events the run is allowed to contain. -/
theorem Run.invariant_when (C : Event L S → Prop) (I : S → Prop) (h₀ : I s₀)
    (hs : ∀ l s t, I s → next l s = some t → C ⟨s, l, t⟩ → I t)
    (h : Run next s₀ tr s) (hC : ∀ e ∈ tr, C e) : I s := by
  induction h with
  | start => exact h₀
  | step l _ hl ih =>
      have hpre := ih (fun e he => hC e (List.mem_append_left _ he))
      exact hs l _ _ hpre hl (hC _ (by simp))

theorem Run.invariant (I : S → Prop) (h₀ : I s₀)
    (hs : ∀ l s t, I s → next l s = some t → I t) (h : Run next s₀ tr s) : I s :=
  h.invariant_when (fun _ => True) I h₀ (fun l s t hi hl _ => hs l s t hi hl)
    (fun _ _ => trivial)

/-- As `Run.invariant_when`, for every state the run passes through. -/
theorem Run.invariant_events (C : Event L S → Prop) (I : S → Prop) (h₀ : I s₀)
    (hs : ∀ l s t, I s → next l s = some t → C ⟨s, l, t⟩ → I t)
    (h : Run next s₀ tr s) (hC : ∀ e ∈ tr, C e) : I s ∧ ∀ e ∈ tr, I e.pre ∧ I e.post := by
  induction h with
  | start => exact ⟨h₀, by simp⟩
  | step l _ hl ih =>
      have hpre := ih fun e he => hC e (List.mem_append_left _ he)
      have hpost := hs l _ _ hpre.1 hl (hC _ (by simp))
      refine ⟨hpost, fun e he => ?_⟩
      rcases List.mem_append.mp he with he | he
      · exact hpre.2 e he
      · rw [List.mem_singleton] at he
        subst he
        exact ⟨hpre.1, hpost⟩

/-- An invariant that also speaks of the events so far. -/
theorem Run.history (C : Event L S → Prop) (I : List (Event L S) → S → Prop) (h₀ : I [] s₀)
    (hs : ∀ tr l s t, I tr s → next l s = some t → C ⟨s, l, t⟩ → I (tr ++ [⟨s, l, t⟩]) t)
    (h : Run next s₀ tr s) (hC : ∀ e ∈ tr, C e) : I tr s := by
  induction h with
  | start => exact h₀
  | step l _ hl ih =>
      have hpre := ih fun e he => hC e (List.mem_append_left _ he)
      exact hs _ l _ _ hpre hl (hC _ (by simp))

/-- `P` holds of every event and the events before it. -/
def Along (P : List (Event L S) → Event L S → Prop) (tr : List (Event L S)) : Prop :=
  ∀ n < tr.length, ∀ e ∈ tr[n]?, P (tr.take n) e

instance (P : List (Event L S) → Event L S → Prop) [∀ tr e, Decidable (P tr e)]
    (tr : List (Event L S)) : Decidable (Along P tr) :=
  inferInstanceAs (Decidable (∀ n < tr.length, ∀ e ∈ tr[n]?, P (tr.take n) e))

theorem along_nil (P : List (Event L S) → Event L S → Prop) : Along P [] :=
  fun n hn => absurd hn (Nat.not_lt_zero n)

theorem along_snoc {P : List (Event L S) → Event L S → Prop} {e : Event L S} :
    Along P (tr ++ [e]) ↔ Along P tr ∧ P tr e := by
  constructor
  · intro h
    refine ⟨fun n hn g hg => ?_, ?_⟩
    · rw [← List.take_append_of_le_length hn.le]
      refine h n ?_ g ?_
      · rw [List.length_append]
        omega
      · rwa [List.getElem?_append_left hn]
    · have hlast := h tr.length (by simp) e (by simp)
      rwa [List.take_left] at hlast
  · rintro ⟨hold, hlast⟩ n hn g hg
    rw [List.length_append, List.length_singleton, Nat.lt_succ_iff] at hn
    rcases hn.lt_or_eq with hlt | rfl
    · rw [List.getElem?_append_left hlt] at hg
      rw [List.take_append_of_le_length hlt.le]
      exact hold n hlt g hg
    · rw [List.take_left]
      obtain rfl : e = g := by simpa using hg
      exact hlast

/-- Every recorded event is a transition of the machine. -/
theorem Run.event_next (h : Run next s₀ tr s) :
    ∀ e ∈ tr, next e.label e.pre = some e.post := by
  induction h with
  | start => simp
  | step l _ hl ih =>
      intro e he
      rcases List.mem_append.mp he with he | he
      · exact ih e he
      · rw [List.mem_singleton] at he
        subst he
        exact hl

/-- A run ends where it starts or where one of its events ends. -/
theorem Run.end_eq (h : Run next s₀ tr s) : s = s₀ ∨ ∃ e ∈ tr, s = e.post := by
  cases h with
  | start => exact .inl rfl
  | step l => exact .inr ⟨_, List.mem_append_right _ List.mem_cons_self, rfl⟩

/-- A run splits at any of its events. -/
theorem Run.split (h : Run next s₀ tr s) {e : Event L S} {before after : List (Event L S)}
    (htr : tr = before ++ e :: after) :
    Run next s₀ before e.pre ∧ Run next e.post after s := by
  induction h generalizing after with
  | start => simp at htr
  | @step tr s t l hrun hl ih =>
      rcases List.eq_nil_or_concat after with rfl | ⟨rest, last, rfl⟩
      · obtain ⟨rfl, he⟩ := List.append_inj' htr rfl
        rw [List.cons.injEq] at he
        obtain ⟨rfl, -⟩ := he
        exact ⟨hrun, .start⟩
      · rw [List.concat_eq_append, ← List.cons_append, ← List.append_assoc] at htr
        obtain ⟨hpre, he⟩ := List.append_inj' htr rfl
        rw [List.cons.injEq] at he
        obtain ⟨rfl, -⟩ := he
        obtain ⟨h₁, h₂⟩ := ih hpre
        rw [List.concat_eq_append]
        exact ⟨h₁, h₂.step l hl⟩

theorem Run.split_append (h : Run next s₀ tr s) {before after : List (Event L S)}
    (htr : tr = before ++ after) : ∃ t, Run next s₀ before t ∧ Run next t after s := by
  cases after with
  | nil =>
      rw [List.append_nil] at htr
      rw [← htr]
      exact ⟨s, h, .start⟩
  | cons e after =>
      have hsplit := h.split htr
      exact ⟨e.pre, hsplit.1,
        (Run.step e.label .start (h.event_next e (by simp [htr]))).trans hsplit.2⟩

/-- The state before a recorded event satisfies every invariant of the run. -/
theorem Run.pre_invariant (I : S → Prop) (h₀ : I s₀)
    (hs : ∀ l s t, I s → next l s = some t → I t) (h : Run next s₀ tr s) :
    ∀ e ∈ tr, I e.pre := by
  intro e he
  obtain ⟨before, after, htr⟩ := List.append_of_mem he
  exact (h.split htr).1.invariant I h₀ hs

/-- Every event uses up some of the potential, so a run is no longer than the
potential it starts with. -/
theorem Run.length_add_le (potential : S → ℕ) (h : Run next s₀ tr s)
    (hs : ∀ e ∈ tr, potential e.post < potential e.pre) :
    tr.length + potential s ≤ potential s₀ := by
  induction h with
  | start => exact (Nat.zero_add _).le
  | @step tr s t l _ _ ih =>
      have hbefore := ih fun e he => hs e (List.mem_append_left _ he)
      have hlast : potential t < potential s :=
        hs ⟨s, l, t⟩ (List.mem_append_right _ List.mem_cons_self)
      rw [List.length_append, List.length_singleton]
      omega

/-- A forward simulation: each step of the one machine is answered by finitely
many steps of the other, so is each run. -/
theorem Run.simulates {L' S' : Type*} {next' : L' → S' → Option S'} (R : S → S' → Prop)
    (hs : ∀ l s t u, R s u → next l s = some t → ∃ us v, Run next' u us v ∧ R t v)
    (h : Run next s₀ tr s) {u₀ : S'} (h₀ : R s₀ u₀) :
    ∃ us u, Run next' u₀ us u ∧ R s u := by
  induction h with
  | start => exact ⟨[], u₀, .start, h₀⟩
  | step l _ hl ih =>
      obtain ⟨us, u, hrun, hu⟩ := ih
      obtain ⟨vs, v, hrun', hv⟩ := hs l _ _ u hu hl
      exact ⟨us ++ vs, v, hrun.trans hrun', hv⟩

end

/-! ## Evaluating a run -/

/-- Take the labels in order and keep every event; `none` as soon as one is not
possible. -/
def trace (next : L → S → Option S) : List L → S → Option (List (Event L S) × S)
  | [], s => some ([], s)
  | l :: ls, s => (next l s).bind fun t =>
      (trace next ls t).map fun r => (⟨s, l, t⟩ :: r.1, r.2)

/-- An evaluated trace is a run with exactly these labels. -/
theorem Run.of_trace {next : L → S → Option S} {ls : List L} {s t : S} {tr : List (Event L S)}
    (h : trace next ls s = some (tr, t)) : Run next s tr t ∧ tr.map Event.label = ls := by
  induction ls generalizing s tr with
  | nil =>
      cases h
      exact ⟨.start, rfl⟩
  | cons l ls ih =>
      obtain ⟨u, hu, hrest⟩ := Option.bind_eq_some_iff.mp h
      obtain ⟨⟨us, v⟩, htrace, he⟩ := Option.map_eq_some_iff.mp hrest
      cases he
      have hrun := ih htrace
      exact ⟨(Run.step l .start hu).trans hrun.1, by rw [List.map_cons, hrun.2]⟩

/-- What a trace evaluates to is a fact about a run. -/
theorem Run.of_trace_map {X : Type*} (next : L → S → Option S) (ls : List L) (s : S)
    (g : List (Event L S) → S → X) (x : X)
    (h : (trace next ls s).map (fun r => g r.1 r.2) = some x) :
    ∃ tr t, Run next s tr t ∧ tr.map Event.label = ls ∧ g tr t = x := by
  obtain ⟨⟨tr, t⟩, htrace, hg⟩ := Option.map_eq_some_iff.mp h
  have hrun := Run.of_trace htrace
  exact ⟨tr, t, hrun.1, hrun.2, hg⟩

end Library.Runs
