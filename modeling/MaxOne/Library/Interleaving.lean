import MaxOne.Library.Runs

/-!
# Interleaved clients over one shared value

A pool is a shared value together with one control state for each of
unboundedly many clients. `next` lets one client take one local step; nothing
else moves. Which client moves is part of the label, so every interleaving of
the clients' steps is a run. The local step also receives an input: the answer
of the outside world to this step (a clock reading, a drawn identifier, a
failure).

`Owned` is the usual non-interference rule: each client's own assertion is
kept by its own steps and is not disturbed by the steps of the others.
-/
namespace Library.Interleaving
open Library.Runs

/-- The shared value and every client's control state. -/
structure Pool (D P : Type*) where
  data : D
  client : ℕ → P

variable {D P I : Type*}

/-- One client moves, with one input. -/
def next (step : I → P → D → Option (P × D)) (l : ℕ × I) (s : Pool D P) :
    Option (Pool D P) :=
  (step l.2 (s.client l.1) s.data).map fun r =>
    ⟨r.2, Function.update s.client l.1 r.1⟩

variable {step : I → P → D → Option (P × D)} {l : ℕ × I} {s t : Pool D P}

/-- Everything a pool step can do. -/
theorem next_cases (h : next step l s = some t) :
    ∃ p d, step l.2 (s.client l.1) s.data = some (p, d) ∧
      t = ⟨d, Function.update s.client l.1 p⟩ := by
  obtain ⟨⟨p, d⟩, hr, ht⟩ := Option.map_eq_some_iff.mp h
  exact ⟨p, d, hr, ht.symm⟩

theorem next_of_step {c : ℕ} {i : I} {p : P} {d : D}
    (h : step i (s.client c) s.data = some (p, d)) :
    next step (c, i) s = some ⟨d, Function.update s.client c p⟩ := by
  rw [next, h, Option.map_some]

theorem next_other (h : next step l s = some t) {c : ℕ} (hc : c ≠ l.1) :
    t.client c = s.client c := by
  obtain ⟨p, d, -, rfl⟩ := next_cases h
  exact Function.update_of_ne hc _ _

/-- The step of the client that moves. -/
theorem next_self (h : next step l s = some t) :
    step l.2 (s.client l.1) s.data = some (t.client l.1, t.data) := by
  obtain ⟨p, d, hstep, rfl⟩ := next_cases h
  rw [hstep]
  exact congrArg (fun q => some (q, d)) (Function.update_self l.1 p s.client).symm

/-- A client that never moves stays where it started. -/
theorem run_untouched {s₀ : Pool D P} {tr : List (Event (ℕ × I) (Pool D P))}
    (h : Run (next step) s₀ tr s) {c : ℕ} (hc : ∀ e ∈ tr, e.label.1 ≠ c) :
    s.client c = s₀.client c ∧ ∀ e ∈ tr, e.pre.client c = s₀.client c := by
  induction h with
  | start => exact ⟨rfl, by simp⟩
  | step l _ hl ih =>
      have hold := ih fun e he => hc e (List.mem_append_left _ he)
      have hother := next_other hl (hc _ (List.mem_append_right _ List.mem_cons_self)).symm
      refine ⟨hother.trans hold.1, fun e he => ?_⟩
      rcases List.mem_append.mp he with he | he
      · exact hold.2 e he
      · rw [List.mem_singleton] at he
        subst he
        exact hold.1

/-- When only clients below `n` move, a condition on all clients is one on these. -/
theorem run_forall_client {s₀ : Pool D P} {tr : List (Event (ℕ × I) (Pool D P))}
    (h : Run (next step) s₀ tr s) {n : ℕ} (hn : ∀ e ∈ tr, e.label.1 < n) {C : P → Prop}
    (hidle : ∀ c, C (s₀.client c)) {e : Event (ℕ × I) (Pool D P)} (he : e ∈ tr)
    (hC : ∀ c < n, C (e.pre.client c)) (c : ℕ) : C (e.pre.client c) := by
  by_cases hc : c < n
  · exact hC c hc
  · have hother : ∀ e ∈ tr, e.label.1 ≠ c := by
      intro e he hec
      exact hc (hec.symm.trans_lt (hn e he))
    rw [(run_untouched h hother).2 e he]
    exact hidle c

/-- The sum over the clients below `n` when one of them moves: its own summand is
exchanged, and the step may cost the others up to `d` each. -/
theorem sum_client_le {f g : ℕ → ℕ} {n x d : ℕ} (hx : x < n)
    (hother : ∀ y, y ≠ x → g y ≤ f y + d) :
    ∑ y ∈ Finset.range n, g y + f x ≤ ∑ y ∈ Finset.range n, f y + g x + (n - 1) * d := by
  have hmem : x ∈ Finset.range n := Finset.mem_range.mpr hx
  have hcard : ((Finset.range n).erase x).card = n - 1 := by
    rw [Finset.card_erase_of_mem hmem, Finset.card_range]
  have hrest : ∑ y ∈ (Finset.range n).erase x, g y ≤
      ∑ y ∈ (Finset.range n).erase x, f y + (n - 1) * d :=
    calc ∑ y ∈ (Finset.range n).erase x, g y
        ≤ ∑ y ∈ (Finset.range n).erase x, (f y + d) :=
          Finset.sum_le_sum fun y hy => hother y (Finset.ne_of_mem_erase hy)
      _ = ∑ y ∈ (Finset.range n).erase x, f y + (n - 1) * d := by
          rw [Finset.sum_add_distrib, Finset.sum_const, hcard, smul_eq_mul]
  rw [← Finset.add_sum_erase _ f hmem, ← Finset.add_sum_erase _ g hmem]
  omega

/-- A global condition with one assertion for each client. -/
structure Owned (G : D → Prop) (A : P → D → Prop) (s : Pool D P) : Prop where
  data : G s.data
  client : ∀ c, A (s.client c) s.data

section Owned
variable {G : D → Prop} {A : P → D → Prop} {C : I → P → D → Prop}
  (own : ∀ i p d p' d', C i p d → G d → A p d → step i p d = some (p', d') → G d' ∧ A p' d')
  (other : ∀ i p d p' d' q, C i p d → G d → A p d → A q d → step i p d = some (p', d') → A q d')
include own other

/-- Non-interference: own steps keep the assertion, and so do the steps of
every other client. `C` restricts the inputs a client may receive. -/
theorem Owned.next (hs : Owned G A s) (hC : C l.2 (s.client l.1) s.data)
    (h : Interleaving.next step l s = some t) : Owned G A t := by
  obtain ⟨p, d, hstep, rfl⟩ := next_cases h
  obtain ⟨hG, hA⟩ := own _ _ _ _ _ hC hs.data (hs.client l.1) hstep
  refine ⟨hG, fun c => ?_⟩
  by_cases hc : c = l.1
  · subst hc
    simpa only [Function.update_self] using hA
  · simp only [Function.update_of_ne hc]
    exact other _ _ _ _ _ _ hC hs.data (hs.client l.1) (hs.client c) hstep

theorem Owned.run {s₀ : Pool D P} {tr : List (Event (ℕ × I) (Pool D P))} (h₀ : Owned G A s₀)
    (h : Run (Interleaving.next step) s₀ tr s)
    (hC : ∀ e ∈ tr, C e.label.2 (e.pre.client e.label.1) e.pre.data) : Owned G A s :=
  h.invariant_when (fun e => C e.label.2 (e.pre.client e.label.1) e.pre.data) (Owned G A) h₀
    (fun _ _ _ hi hl hc => hi.next own other hc hl) hC

end Owned

end Library.Interleaving
