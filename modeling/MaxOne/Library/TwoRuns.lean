import MaxOne.Library.LockedBlocks

/-!
# Two runs under one schedule

A secret leaks when two starts that differ in nothing else can be told apart by
what a run gives away. `trace_rel` takes one list of labels through two
machines side by side: related states answer every label alike, with a related
state or with a refusal. `Likeness` makes this a rule for the locking machine.
It fixes which data, rows, writes and control states count as alike; two blocks
are `Alike` when they take the same statements, whatever alike rows they read.
What they read may be `excused`, and then nothing is asked of what follows;
whoever uses the rule has to exclude it for the two runs at hand.
-/
namespace Library.Runs

variable {L S S' : Type*}

/-- Every step the labels lead to passes the test on its label and its end. -/
def passes (next : L → S → Option S) (test : L → S → Bool) : List L → S → Bool
  | [], _ => true
  | l :: ls, s =>
      match next l s with
      | none => true
      | some t => test l t && passes next test ls t

theorem passes_cons {next : L → S → Option S} {test : L → S → Bool} {l : L} {ls : List L}
    {s : S} (h : passes next test (l :: ls) s = true) {t : S} (ht : next l s = some t) :
    test l t = true ∧ passes next test ls t = true := by
  rw [passes, ht] at h
  exact (Bool.and_eq_true _ _).mp h

section Rel
variable {α β : Type*} {r : α → β → Prop} {o : Option α} {o' : Option β}

theorem rel_none (h : Option.Rel r o o') : o = none ↔ o' = none := by
  cases h with
  | none => exact ⟨fun _ => rfl, fun _ => rfl⟩
  | some _ => exact ⟨nofun, nofun⟩

theorem rel_of_some (hnone : o = none ↔ o' = none)
    (hsome : ∀ a b, o = some a → o' = some b → r a b) : Option.Rel r o o' := by
  cases ho : o with
  | none =>
      rw [hnone.mp ho]
      exact .none
  | some a =>
      cases ho' : o' with
      | none =>
          rw [hnone.mpr ho'] at ho
          cases ho
      | some b => exact .some (hsome a b ho ho')

end Rel

/-- Related states stay related under one list of labels, and neither machine
can take a label the other cannot. -/
theorem trace_rel {next : L → S → Option S} {next' : L → S' → Option S'}
    {test : L → S → Bool} {test' : L → S' → Bool} (C : L → Prop) (rel : S → S' → Prop)
    (hs : ∀ l s s', C l → rel s s' → (∀ t, next l s = some t → test l t = true) →
      (∀ t, next' l s' = some t → test' l t = true) → Option.Rel rel (next l s) (next' l s'))
    {ls : List L} (hC : ∀ l ∈ ls, C l) {s : S} {s' : S'} (h₀ : rel s s')
    (h : passes next test ls s = true) (h' : passes next' test' ls s' = true) :
    Option.Rel (fun r r' => rel r.2 r'.2) (trace next ls s) (trace next' ls s') := by
  induction ls generalizing s s' with
  | nil => exact .some h₀
  | cons l ls ih =>
      have hstep := hs l s s' (hC l List.mem_cons_self) h₀
        (fun _ ht => (passes_cons h ht).1) (fun _ ht => (passes_cons h' ht).1)
      rw [trace, trace]
      generalize hn : next l s = o at hstep
      generalize hn' : next' l s' = o' at hstep
      cases hstep with
      | none => exact .none
      | @some t t' ht =>
          have hrest := ih (fun k hk => hC k (List.mem_cons_of_mem _ hk)) ht
            (passes_cons h hn).2 (passes_cons h' hn').2
          rw [Option.bind_some, Option.bind_some]
          generalize trace next ls t = r at hrest
          generalize trace next' ls t' = r' at hrest
          cases hrest with
          | none => exact .none
          | some hr => exact .some hr

theorem trace_append {next : L → S → Option S} {ls ks : List L} {s t u : S}
    {tr us : List (Event L S)} (h : trace next ls s = some (tr, t))
    (h' : trace next ks t = some (us, u)) : trace next (ls ++ ks) s = some (tr ++ us, u) := by
  induction ls generalizing s tr with
  | nil =>
      cases h
      exact h'
  | cons l ls ih =>
      obtain ⟨v, hv, hrest⟩ := Option.bind_eq_some_iff.mp h
      obtain ⟨⟨vs, w⟩, htrace, he⟩ := Option.map_eq_some_iff.mp hrest
      cases he
      rw [List.cons_append, trace, hv, Option.bind_some, ih htrace, Option.map_some,
        List.cons_append]

/-- A run is what its labels evaluate to. -/
theorem Run.trace_eq {next : L → S → Option S} {s t : S} {tr : List (Event L S)}
    (h : Run next s tr t) : trace next (tr.map Event.label) s = some (tr, t) := by
  induction h with
  | start => rfl
  | @step tr u v l _ hl ih =>
      have hlast : trace next [l] u = some ([⟨u, l, v⟩], v) := by
        rw [trace, hl, Option.bind_some, trace, Option.map_some]
      rw [List.map_append, List.map_singleton]
      exact trace_append ih hlast

end Library.Runs

namespace Library.LockedBlocks
open Library.Runs

variable {D K V F W E R I P : Type}

/-! ## Alike blocks -/

/-- What two runs may differ in. `shown` are the keys whose rows both runs see,
if they exist, and `excused` are reads after which nothing more is compared. -/
structure Likeness (D K V W R I P : Type) where
  data : D → D → Prop
  shown : K → Prop
  row : K → V → V → Prop
  write : W → W → Prop
  result : R → R → Prop
  pc : P → P → Prop
  input : I → Prop
  excused : P → List (K × V × V) → Prop

variable {T : Likeness D K V W R I P}

/-- The two blocks, opened at `p`, take the same statements from here on; the
list holds the rows that were read under locks so far, the latest first. -/
inductive Likeness.Alike (T : Likeness D K V W R I P) (p : P) :
    List (K × V × V) → Block K V F W E R → Block K V F W E R → Prop
  | lock {reads : List (K × V × V)} {k : K} {next next' : Option V → Block K V F W E R} :
      T.shown k → T.Alike p reads (next none) (next' none) →
      (∀ v v', T.row k v v' → ¬ T.excused p ((k, v, v') :: reads) →
        T.Alike p ((k, v, v') :: reads) (next (some v)) (next' (some v'))) →
      T.Alike p reads (.lock k next) (.lock k next')
  | peek {reads : List (K × V × V)} {k : K} {next next' : Option F → Block K V F W E R} :
      (∀ f, T.Alike p reads (next f) (next' f)) → T.Alike p reads (.peek k next) (.peek k next')
  | write {reads : List (K × V × V)} {w w' : W} {next next' : Block K V F W E R} :
      T.write w w' → T.Alike p reads next next' →
      T.Alike p reads (.write w next) (.write w' next')
  | fail {reads : List (K × V × V)} (e : E) : T.Alike p reads (.fail e) (.fail e)
  | commit {reads : List (K × V × V)} {r r' : R} : T.result r r' →
      T.Alike p reads (.commit r) (.commit r')

/-- The program answers alike to what is alike. -/
structure Likeness.Lawful (T : Likeness D K V W R I P) (Q : Program D K V F W E R I P) : Prop where
  view : ∀ {d d' k}, T.shown k → T.data d d' → Option.Rel (T.row k) (Q.view k d) (Q.view k d')
  frozen : ∀ {d d' k}, T.data d d' → Q.frozen k d = Q.frozen k d'
  exec : ∀ {d d' w w'}, T.data d d' → T.write w w' → Option.Rel T.data (Q.exec w d) (Q.exec w' d')
  step : ∀ {i p p' d d'}, T.input i → T.pc p p' → T.data d d' →
    Option.Rel (fun r r' => T.pc r.1 r'.1 ∧ T.data r.2 r'.2) (Q.step i p d) (Q.step i p' d')
  block : ∀ {p p'}, T.pc p p' → Option.Rel (T.Alike p []) (Q.block p) (Q.block p')
  committed : ∀ {p p' r r'}, T.pc p p' → T.result r r' → T.pc (Q.committed p r) (Q.committed p' r')
  failed : ∀ {p p'} (e : E), T.pc p p' → T.pc (Q.failed p e) (Q.failed p' e)

theorem Likeness.Lawful.publish {Q : Program D K V F W E R I P} (hT : T.Lawful Q) {ws ws' : List W}
    (hw : List.Forall₂ T.write ws ws') {d d' : D} (hd : T.data d d') :
    Option.Rel T.data (Q.publish ws d) (Q.publish ws' d') := by
  induction hw generalizing d d' with
  | nil => exact .some hd
  | @cons w w' ws ws' hw _ ih =>
      rw [Store.publish, Store.publish]
      have hexec := hT.exec hd hw
      generalize Q.exec w d = o at hexec
      generalize Q.exec w' d' = o' at hexec
      cases hexec with
      | none => exact .none
      | some hmid => exact ih hmid

/-! ## Twin states -/

/-- Client `c` holds these rows in both states, and they are as they were read. -/
def ReadBy (Q : Program D K V F W E R I P) (s s' : State D K V F W E R P) (c : ℕ)
    (reads : List (K × V × V)) : Prop :=
  ∀ k v v', (k, v, v') ∈ reads → (s.holds c k ∧ Q.view k s.data = some v) ∧
    s'.holds c k ∧ Q.view k s'.data = some v'

/-- The client is outside its blocks in both states, or at the same statement
of two alike blocks. -/
inductive TwinPhase (T : Likeness D K V W R I P) (Q : Program D K V F W E R I P)
    (s s' : State D K V F W E R P) (c : ℕ) : Phase K V F W E R P → Phase K V F W E R P → Prop
  | outside {p p' : P} : T.pc p p' → TwinPhase T Q s s' c (.outside p) (.outside p')
  | inside {p p' : P} {rest rest' : Block K V F W E R} {ws ws' : List W}
      (reads : List (K × V × V)) : T.pc p p' → List.Forall₂ T.write ws ws' →
      ReadBy Q s s' c reads → T.Alike p reads rest rest' →
      TwinPhase T Q s s' c (.inside p rest ws) (.inside p' rest' ws')

structure Twins (T : Likeness D K V W R I P) (Q : Program D K V F W E R I P)
    (s s' : State D K V F W E R P) : Prop where
  ok : s.Ok Q
  ok' : s'.Ok Q
  data : T.data s.data s'.data
  locks : s.locks = s'.locks
  client : ∀ c, TwinPhase T Q s s' c (s.client c) (s'.client c)

/-- What client `c` has read in its open block is not excused. -/
def Unexcused (T : Likeness D K V W R I P) (Q : Program D K V F W E R I P)
    (s s' : State D K V F W E R P) (c : ℕ) : Prop :=
  ∀ p p' rest rest' ws ws' reads, s.client c = .inside p rest ws →
    s'.client c = .inside p' rest' ws' → T.pc p p' → ReadBy Q s s' c reads → ¬ T.excused p reads

section Twins
variable [DecidableEq K] {Q : Program D K V F W E R I P} {s s' t t' : State D K V F W E R P} {c : ℕ}

omit [DecidableEq K] in
theorem TwinPhase.other {ph ph' : Phase K V F W E R P} {c' : ℕ} (h : TwinPhase T Q s s' c' ph ph')
    (hs : Spares Q c s t) (hs' : Spares Q c s' t') (hc : c' ≠ c) :
    TwinPhase T Q t t' c' ph ph' := by
  cases h with
  | outside hpc => exact .outside hpc
  | inside reads hpc hws hread hrest =>
      refine .inside reads hpc hws (fun k v v' hmem => ?_) hrest
      obtain ⟨⟨hk, hv⟩, hk', hv'⟩ := hread k v v' hmem
      exact ⟨⟨hs.holds c' hc k hk, hs.view c' hc k v hk hv⟩,
        hs'.holds c' hc k hk', hs'.view c' hc k v' hk' hv'⟩

/-- Twin states stay twins when one client moves alike in both. -/
theorem Twins.next {l : Act I} (h : Twins T Q s s') (hn : next Q (c, l) s = some t)
    (hn' : next Q (c, l) s' = some t') (hdata : T.data t.data t'.data) (hlocks : t.locks = t'.locks)
    (hown : TwinPhase T Q t t' c (t.client c) (t'.client c)) : Twins T Q t t' where
  ok := (next_refines h.ok hn).1
  ok' := (next_refines h.ok' hn').1
  data := hdata
  locks := hlocks
  client c' := by
    by_cases hc : c' = c
    · subst hc
      exact hown
    · have hs := next_spares h.ok hn
      have hs' := next_spares h.ok' hn'
      rw [hs.client c' hc, hs'.client c' hc]
      exact (h.client c').other hs hs' hc

omit [DecidableEq K] in
theorem Twins.idle {d d' : D} {client client' : ℕ → P} (hd : T.data d d')
    (hpc : ∀ c, T.pc (client c) (client' c)) :
    Twins T Q (State.idle d client) (State.idle d' client') where
  ok := State.idle_ok _ _
  ok' := State.idle_ok _ _
  data := hd
  locks := rfl
  client c := .outside (hpc c)

/-- As far as client `c` goes, the two states are twins. -/
structure OwnTwins (T : Likeness D K V W R I P) (Q : Program D K V F W E R I P) (c : ℕ)
    (t t' : State D K V F W E R P) : Prop where
  data : T.data t.data t'.data
  locks : t.locks = t'.locks
  client : TwinPhase T Q t t' c (t.client c) (t'.client c)

omit [DecidableEq K] in
theorem State.move_client {ph : Phase K V F W E R P} : (s.move c ph).client c = ph :=
  Function.update_self _ _ _

omit [DecidableEq K] in
theorem OwnTwins.move {ph ph' : Phase K V F W E R P} (h : Twins T Q s s')
    (hph : TwinPhase T Q s s' c ph ph') : OwnTwins T Q c (s.move c ph) (s'.move c ph') where
  data := h.data
  locks := h.locks
  client := by
    rw [State.move_client, State.move_client]
    cases hph with
    | outside hpc => exact .outside hpc
    | inside reads hpc hws hread hrest => exact .inside reads hpc hws hread hrest

omit [DecidableEq K] in
/-- The client ends up outside its blocks. -/
theorem OwnTwins.outside {p p' : P} (hd : T.data t.data t'.data) (hlocks : t.locks = t'.locks)
    (ht : t.client = Function.update s.client c (.outside p))
    (ht' : t'.client = Function.update s'.client c (.outside p')) (hpc : T.pc p p') :
    OwnTwins T Q c t t' where
  data := hd
  locks := hlocks
  client := by
    rw [ht, ht', Function.update_self, Function.update_self]
    exact .outside hpc

omit [DecidableEq K] in
theorem OwnTwins.close {d d' : D} {p p' : P} (h : Twins T Q s s') (hd : T.data d d')
    (hpc : T.pc p p') : OwnTwins T Q c (s.close c d p) (s'.close c d' p') :=
  .outside hd (congrArg (fun locks => release locks c) h.locks) rfl rfl hpc

section Advance
variable {p p' : P} {rest rest' : Block K V F W E R} {ws ws' : List W}
  {reads : List (K × V × V)}

/-- A row is locked and read alike in both states. -/
theorem lock_twins {k : K} {v v' : V} {next next' : Option V → Block K V F W E R}
    (h : Twins T Q s s') (hpc : T.pc p p') (hws : List.Forall₂ T.write ws ws')
    (hread : ReadBy Q s s' c reads) (hv : Q.view k s.data = some v)
    (hv' : Q.view k s'.data = some v')
    (hnext : ¬ T.excused p ((k, v, v') :: reads) →
      T.Alike p ((k, v, v') :: reads) (next (some v)) (next' (some v')))
    (hex : Unexcused T Q ((s.acquire c k).move c (.inside p (next (some v)) ws))
      ((s'.acquire c k).move c (.inside p' (next' (some v')) ws')) c) :
    OwnTwins T Q c ((s.acquire c k).move c (.inside p (next (some v)) ws))
      ((s'.acquire c k).move c (.inside p' (next' (some v')) ws')) := by
  have hread' : ReadBy Q ((s.acquire c k).move c (.inside p (next (some v)) ws))
      ((s'.acquire c k).move c (.inside p' (next' (some v')) ws')) c ((k, v, v') :: reads) := by
    intro k' u u' hmem
    rcases List.mem_cons.mp hmem with he | hmem
    · cases he
      exact ⟨⟨State.acquire_holds, hv⟩, State.acquire_holds, hv'⟩
    · obtain ⟨⟨hk, hu⟩, hk', hu'⟩ := hread k' u u' hmem
      exact ⟨⟨State.holds_acquire hk, hu⟩, State.holds_acquire hk', hu'⟩
  have hlocks : (s.acquire c k).locks = (s'.acquire c k).locks := by
    rw [State.acquire, State.acquire, h.locks]
  refine ⟨h.data, hlocks, ?_⟩
  rw [State.move_client, State.move_client]
  exact .inside _ hpc hws hread'
    (hnext (hex p p' _ _ ws ws' _ State.move_client State.move_client hpc hread'))

theorem advance_twins (hT : T.Lawful Q) (h : Twins T Q s s') (hpc : T.pc p p')
    (hws : List.Forall₂ T.write ws ws') (hread : ReadBy Q s s' c reads)
    (hrest : T.Alike p reads rest rest')
    (hex : ∀ t t', advance Q c s p ws rest = some t → advance Q c s' p' ws' rest' = some t' →
      Unexcused T Q t t' c) :
    Option.Rel (OwnTwins T Q c) (advance Q c s p ws rest) (advance Q c s' p' ws' rest') := by
  cases hrest with
  | @lock _ k next next' hshown hnone hsome =>
      simp only [advance] at hex ⊢
      rw [← h.locks] at hex ⊢
      split_ifs at hex ⊢ with hfree
      · have hrow := hT.view hshown h.data
        generalize hv : Q.view k s.data = o at hrow hex
        generalize hv' : Q.view k s'.data = o' at hrow hex
        cases hrow with
        | none => exact .some (.move h (.inside reads hpc hws hread hnone))
        | some hrow => exact .some (lock_twins h hpc hws hread hv hv' (hsome _ _ hrow)
            (hex _ _ rfl rfl))
      · exact .none
  | peek hnext =>
      rw [advance, advance, hT.frozen h.data]
      exact .some (.move h (.inside reads hpc hws hread (hnext _)))
  | @write _ w w' next next' hw hnext =>
      rw [advance, advance]
      exact .some (.move h (.inside reads hpc
        (List.rel_append hws (.cons hw .nil)) hread hnext))
  | fail e =>
      rw [advance, advance]
      exact .some (.close h h.data (hT.failed e hpc))
  | commit hr => exact .none

omit [DecidableEq K] in
theorem commit_twins (hT : T.Lawful Q) (h : Twins T Q s s') (hpc : T.pc p p')
    (hws : List.Forall₂ T.write ws ws') (hrest : T.Alike p reads rest rest') :
    Option.Rel (OwnTwins T Q c) (commit Q c s p ws rest) (commit Q c s' p' ws' rest') := by
  cases hrest with
  | @commit _ r r' hr =>
      rw [commit, commit]
      have hpublish := hT.publish hws h.data
      generalize Q.publish ws s.data = o at hpublish
      generalize Q.publish ws' s'.data = o' at hpublish
      cases hpublish with
      | none => exact .none
      | some hd => exact .some (.close h hd (hT.committed hpc hr))
  | lock _ _ _ => exact .none
  | peek _ => exact .none
  | write _ _ => exact .none
  | fail _ => exact .none

end Advance

/-- What is possible in one of the twins is possible in the other. -/
theorem next_ownTwins (hT : T.Lawful Q) {a : Act I} (h : Twins T Q s s')
    (ha : ∀ i, a = .step i → T.input i)
    (hex : ∀ t t', next Q (c, a) s = some t → next Q (c, a) s' = some t' →
      Unexcused T Q t t' c) :
    Option.Rel (OwnTwins T Q c) (next Q (c, a) s) (next Q (c, a) s') := by
  have hphase := h.client c
  simp only [next] at hex ⊢
  generalize s.client c = ph at hphase hex
  generalize s'.client c = ph' at hphase hex
  cases hphase with
  | @outside p p' hpc =>
      have hblock := hT.block hpc
      dsimp only
      generalize Q.block p = b at hblock
      generalize Q.block p' = b' at hblock
      cases hblock with
      | none =>
          cases a with
          | step i =>
              have hstep := hT.step (ha i rfl) hpc h.data
              dsimp only
              generalize Q.step i p s.data = o at hstep
              generalize Q.step i p' s'.data = o' at hstep
              cases hstep with
              | none => exact .none
              | some hr => exact .some (.outside hr.2 h.locks rfl rfl hr.1)
          | enter => exact .none
          | advance => exact .none
          | commit => exact .none
          | abort => exact .none
      | some hb =>
          cases a with
          | enter =>
              exact .some (.move h (.inside [] hpc .nil (fun _ _ _ hm => absurd hm List.not_mem_nil) hb))
          | step i => exact .none
          | advance => exact .none
          | commit => exact .none
          | abort => exact .none
  | inside reads hpc hws hread hrest =>
      cases a with
      | advance => exact advance_twins hT h hpc hws hread hrest hex
      | commit => exact commit_twins hT h hpc hws hrest
      | abort => exact .some (.close h h.data (hT.failed _ hpc))
      | step i => exact .none
      | enter => exact .none

theorem next_twins (hT : T.Lawful Q) {a : Act I} (h : Twins T Q s s')
    (ha : ∀ i, a = .step i → T.input i)
    (hex : ∀ t t', next Q (c, a) s = some t → next Q (c, a) s' = some t' →
      Unexcused T Q t t' c) :
    Option.Rel (Twins T Q) (next Q (c, a) s) (next Q (c, a) s') := by
  have hown := next_ownTwins hT h ha hex
  generalize hn : next Q (c, a) s = o at hown
  generalize hn' : next Q (c, a) s' = o' at hown
  cases hown with
  | none => exact .none
  | some ho => exact .some (h.next hn hn' ho.data ho.locks ho.client)

end Twins

end Library.LockedBlocks
