import MaxOne.Library.Interleaving

/-!
# Strict two-phase locking

A block is what one database transaction does: it locks rows and reads them,
reads columns that never change, writes, and ends by committing or by failing.
Many clients run blocks at once. A lock waits while another client holds the
row and is kept to the end of the block; writes stay private in a buffer until
the commit publishes them together; any open block may be aborted at any
moment, which publishes nothing. Between blocks a client runs single statements
given by the program.

`next_refines` says that this machine refines the one where a block runs in a
single step on the committed data: what a client read under its locks is still
true when it commits. The laws it needs are collected in `Store` (a statement
changes only the row it names, columns called frozen never change once they
are there) and in `Program` (a block only overwrites rows it has locked, and a
block that found a row missing can only fail).
-/
namespace Library.LockedBlocks
open Library.Runs Library.Interleaving

/-- `view` is what a lock request reads, `Fits` what a row read under a key
satisfies, `frozen` the columns of a row that never change, `exec` a writing
statement (`none`: a constraint refuses it) and `touches` the existing row that
statement may overwrite. -/
structure Store (D K V F W : Type) where
  view : K → D → Option V
  Fits : K → V → Prop
  frozen : K → D → Option F
  exec : W → D → Option D
  touches : W → Option K
  view_fits : ∀ {k d v}, view k d = some v → Fits k v
  exec_view : ∀ {w d d' k v}, exec w d = some d' → touches w ≠ some k →
    view k d = some v → view k d' = some v
  exec_frozen : ∀ {w d d' k f}, exec w d = some d' → frozen k d = some f →
    frozen k d' = some f

/-- The statements of one transaction, in source order. -/
inductive Block (K V F W E R : Type) where
  | lock (k : K) (next : Option V → Block K V F W E R)
  | peek (k : K) (next : Option F → Block K V F W E R)
  | write (w : W) (next : Block K V F W E R)
  | fail (e : E)
  | commit (r : R)

variable {D K V F W E R I P : Type}

/-- No path through the block commits. -/
def Block.Doomed : Block K V F W E R → Prop
  | .lock _ next => ∀ v, (next v).Doomed
  | .peek _ next => ∀ f, (next f).Doomed
  | .write _ next => next.Doomed
  | .fail _ => True
  | .commit _ => False

/-- Every writing statement of the block satisfies `P`. -/
def Block.Writes (P : W → Prop) : Block K V F W E R → Prop
  | .lock _ next => ∀ v, (next v).Writes P
  | .peek _ next => ∀ f, (next f).Writes P
  | .write w next => P w ∧ next.Writes P
  | .fail _ => True
  | .commit _ => True

namespace Store
variable (S : Store D K V F W)

/-- The block overwrites only rows in `H` or rows it locked on the way, and a
missing row dooms it. -/
def Guarded : List K → Block K V F W E R → Prop
  | H, .lock k next =>
      (next none).Doomed ∧ ∀ v, S.Fits k v → Guarded (k :: H) (next (some v))
  | H, .peek _ next => ∀ f, Guarded H (next f)
  | H, .write w next => (∀ k, S.touches w = some k → k ∈ H) ∧ Guarded H next
  | _, .fail _ => True
  | _, .commit _ => True

/-- Run a block in one step: reads come from `d`, writes go to a copy. -/
def runOn (aborted : E) (d : D) : Block K V F W E R → D → Except E (R × D)
  | .lock k next, acc => runOn aborted d (next (S.view k d)) acc
  | .peek k next, acc => runOn aborted d (next (S.frozen k d)) acc
  | .write w next, acc =>
      match S.exec w acc with
      | none => .error aborted
      | some acc' => runOn aborted d next acc'
  | .fail e, _ => .error e
  | .commit r, acc => .ok (r, acc)

def run (aborted : E) (b : Block K V F W E R) (d : D) : Except E (R × D) :=
  S.runOn aborted d b d

/-- Apply buffered writes in order. -/
def publish : List W → D → Option D
  | [], d => some d
  | w :: ws, d => (S.exec w d).bind (publish ws)

/-- Every unlocked read of the block finds its row. -/
def PeeksSome (d : D) : Block K V F W E R → Prop
  | .lock k next => PeeksSome d (next (S.view k d))
  | .peek k next => S.frozen k d ≠ none ∧ PeeksSome d (next (S.frozen k d))
  | .write _ next => PeeksSome d next
  | .fail _ => True
  | .commit _ => True

theorem publish_append (ws : List W) (w : W) (d : D) :
    S.publish (ws ++ [w]) d = (S.publish ws d).bind (S.exec w) := by
  induction ws generalizing d with
  | nil =>
      rw [List.nil_append, publish, publish, Option.bind_some]
      cases S.exec w d <;> rfl
  | cons u us ih =>
      simp only [List.cons_append, publish]
      cases S.exec u d with
      | none => rfl
      | some d' => simpa only [Option.bind_some] using ih d'

variable {S}

theorem publish_view {ws : List W} {d d' : D} {k : K} {v : V}
    (h : S.publish ws d = some d') (hk : ∀ w ∈ ws, S.touches w ≠ some k)
    (hv : S.view k d = some v) : S.view k d' = some v := by
  induction ws generalizing d with
  | nil =>
      rw [publish, Option.some.injEq] at h
      exact h ▸ hv
  | cons w ws ih =>
      obtain ⟨e, he, ht⟩ := Option.bind_eq_some_iff.mp h
      exact ih ht (fun u hu => hk u (by simp [hu])) (S.exec_view he (hk w (by simp)) hv)

theorem publish_frozen {ws : List W} {d d' : D} {k : K} {f : F}
    (h : S.publish ws d = some d') (hf : S.frozen k d = some f) :
    S.frozen k d' = some f := by
  induction ws generalizing d with
  | nil =>
      rw [publish, Option.some.injEq] at h
      exact h ▸ hf
  | cons w ws ih =>
      obtain ⟨e, he, ht⟩ := Option.bind_eq_some_iff.mp h
      exact ih ht (S.exec_frozen he hf)

/-- What the writes of a block keep, the block keeps. -/
theorem runOn_writes {P : W → Prop} {G : D → Prop} {aborted : E} {b : Block K V F W E R}
    {d acc d' : D} {r : R} (hkeeps : ∀ w e e', P w → G e → S.exec w e = some e' → G e')
    (hb : b.Writes P) (hacc : G acc) (h : S.runOn aborted d b acc = .ok (r, d')) : G d' := by
  induction b generalizing acc with
  | lock k next ih => exact ih _ (hb _) hacc h
  | peek k next ih => exact ih _ (hb _) hacc h
  | write w next ih =>
      rw [runOn] at h
      cases hw : S.exec w acc with
      | none =>
          rw [hw] at h
          cases h
      | some acc' =>
          rw [hw] at h
          exact ih hb.2 (hkeeps w acc acc' hb.1 hacc hw) h
  | fail e => cases h
  | commit r' =>
      cases h
      exact hacc

/-- A block that runs alone keeps frozen columns too. -/
theorem runOn_frozen {aborted : E} {b : Block K V F W E R} {d acc d' : D} {r : R} {k : K} {f : F}
    (h : S.runOn aborted d b acc = .ok (r, d')) (hf : S.frozen k acc = some f) :
    S.frozen k d' = some f := by
  induction b generalizing acc with
  | lock j next ih => exact ih _ h hf
  | peek j next ih => exact ih _ h hf
  | write w next ih =>
      rw [runOn] at h
      cases hw : S.exec w acc with
      | none => simp [hw] at h
      | some acc' =>
          rw [hw] at h
          exact ih h (S.exec_frozen hw hf)
  | fail e => cases h
  | commit r' =>
      cases h
      exact hf

/-- The path of a block that is open: from `b` it came to the second block,
with the third argument buffered, and what it read on the way still holds. -/
inductive Follows (S : Store D K V F W) (d : D) (holds : K → Prop) (b : Block K V F W E R) :
    Block K V F W E R → List W → Prop
  | refl : Follows S d holds b b []
  | lock {k : K} {next : Option V → Block K V F W E R} {ws : List W} {v : V} :
      Follows S d holds b (.lock k next) ws → holds k → S.view k d = some v →
      Follows S d holds b (next (some v)) ws
  | peek {k : K} {next : Option F → Block K V F W E R} {ws : List W} {f : F} :
      Follows S d holds b (.peek k next) ws → S.frozen k d = some f →
      Follows S d holds b (next (some f)) ws
  | write {w : W} {next : Block K V F W E R} {ws : List W} :
      Follows S d holds b (.write w next) ws → Follows S d holds b next (ws ++ [w])

variable {d d' : D} {holds holds' : K → Prop} {b rest : Block K V F W E R} {ws : List W}

/-- Rest and buffer together compute what the whole block computes. -/
theorem Follows.runOn_eq {aborted : E} (h : Follows S d holds b rest ws) :
    ∀ acc, S.publish ws d = some acc →
      S.runOn aborted d b d = S.runOn aborted d rest acc := by
  induction h with
  | refl =>
      intro acc hacc
      rw [publish, Option.some.injEq] at hacc
      rw [hacc]
  | lock _ _ hv ih =>
      intro acc hacc
      rw [ih acc hacc, runOn, hv]
  | peek _ hf ih =>
      intro acc hacc
      rw [ih acc hacc, runOn, hf]
  | @write w next ws _ ih =>
      intro acc hacc
      rw [publish_append] at hacc
      obtain ⟨mid, hmid, hw⟩ := Option.bind_eq_some_iff.mp hacc
      rw [ih mid hmid, runOn, hw]

theorem Follows.peeks (h : Follows S d holds b rest ws) (hb : S.PeeksSome d b) :
    S.PeeksSome d rest := by
  induction h with
  | refl => exact hb
  | lock _ _ hv ih =>
      rw [PeeksSome, hv] at ih
      exact ih
  | peek _ hf ih =>
      rw [PeeksSome, hf] at ih
      exact ih.2
  | write _ ih => exact ih

/-- The path survives every change that spares the locked rows. -/
theorem Follows.transfer (h : Follows S d holds b rest ws) (hh : ∀ k, holds k → holds' k)
    (hview : ∀ k v, holds k → S.view k d = some v → S.view k d' = some v)
    (hfrozen : ∀ k f, S.frozen k d = some f → S.frozen k d' = some f) :
    Follows S d' holds' b rest ws := by
  induction h with
  | refl => exact .refl
  | lock _ hk hv ih => exact .lock ih (hh _ hk) (hview _ _ hk hv)
  | peek _ hf ih => exact .peek ih (hfrozen _ _ hf)
  | write _ ih => exact .write ih

end Store

/-- A program: single statements outside blocks, and the block a client at a
control state opens. Statements outside blocks never overwrite a row. -/
structure Program (D K V F W E R I P : Type) extends Store D K V F W where
  aborted : E
  step : I → P → D → Option (P × D)
  block : P → Option (Block K V F W E R)
  committed : P → R → P
  failed : P → E → P
  step_view : ∀ {i p d p' d' k v}, step i p d = some (p', d') →
    view k d = some v → view k d' = some v
  step_frozen : ∀ {i p d p' d' k f}, step i p d = some (p', d') →
    frozen k d = some f → frozen k d' = some f
  guarded : ∀ {p b}, block p = some b → toStore.Guarded [] b
  peeksSome : ∀ {p b} (d : D), block p = some b → toStore.PeeksSome d b

/-- A client is outside any block, or inside the one it opened at `p`. -/
inductive Phase (K V F W E R P : Type) where
  | outside (p : P)
  | inside (p : P) (rest : Block K V F W E R) (buffer : List W)

def Phase.pc : Phase K V F W E R P → P
  | .outside p => p
  | .inside p _ _ => p

structure State (D K V F W E R P : Type) where
  data : D
  locks : K → Option ℕ
  client : ℕ → Phase K V F W E R P

inductive Act (I : Type) where
  | step (i : I)
  | enter
  | advance
  | commit
  | abort

def release (locks : K → Option ℕ) (c : ℕ) : K → Option ℕ :=
  fun k => if locks k = some c then none else locks k

namespace State

def move (s : State D K V F W E R P) (c : ℕ) (ph : Phase K V F W E R P) :
    State D K V F W E R P :=
  { s with client := Function.update s.client c ph }

/-- The block of `c` ends: its locks go, its data become `d`. -/
def close (s : State D K V F W E R P) (c : ℕ) (d : D) (p : P) : State D K V F W E R P :=
  ⟨d, release s.locks c, Function.update s.client c (.outside p)⟩

def acquire [DecidableEq K] (s : State D K V F W E R P) (c : ℕ) (k : K) :
    State D K V F W E R P :=
  { s with locks := Function.update s.locks k (some c) }

end State

section Machine
variable [DecidableEq K] (Q : Program D K V F W E R I P)

/-- One statement inside an open block. -/
def advance (c : ℕ) (s : State D K V F W E R P) (p : P) (ws : List W) :
    Block K V F W E R → Option (State D K V F W E R P)
  | .lock k next =>
      if s.locks k = none ∨ s.locks k = some c then
        match Q.view k s.data with
        | none => some (s.move c (.inside p (next none) ws))
        | some v => some ((s.acquire c k).move c (.inside p (next (some v)) ws))
      else none
  | .peek k next => some (s.move c (.inside p (next (Q.frozen k s.data)) ws))
  | .write w next => some (s.move c (.inside p next (ws ++ [w])))
  | .fail e => some (s.close c s.data (Q.failed p e))
  | .commit _ => none

def commit (c : ℕ) (s : State D K V F W E R P) (p : P) (ws : List W) :
    Block K V F W E R → Option (State D K V F W E R P)
  | .commit r => (Q.publish ws s.data).map fun d => s.close c d (Q.committed p r)
  | _ => none

def next : ℕ × Act I → State D K V F W E R P → Option (State D K V F W E R P)
  | (c, a), s =>
      match s.client c with
      | .outside p =>
          match a, Q.block p with
          | .step i, none => (Q.step i p s.data).map fun r =>
              { s.move c (.outside r.1) with data := r.2 }
          | .enter, some b => some (s.move c (.inside p b []))
          | _, _ => none
      | .inside p rest ws =>
          match a with
          | .advance => advance Q c s p ws rest
          | .commit => commit Q c s p ws rest
          | .abort => some (s.close c s.data (Q.failed p Q.aborted))
          | _ => none

end Machine

/-- The specification machine: one client at a time runs a statement, a whole
block, or gives a block up. -/
inductive Input (I E : Type) where
  | step (i : I)
  | block
  | giveUp (e : E)

def atomicStep (Q : Program D K V F W E R I P) : Input I E → P → D → Option (P × D)
  | a, p, d =>
      match a, Q.block p with
      | .step i, none => Q.step i p d
      | .block, some b =>
          match Q.run Q.aborted b d with
          | .ok (r, d') => some (Q.committed p r, d')
          | .error e => some (Q.failed p e, d)
      | .giveUp e, some _ => some (Q.failed p e, d)
      | _, _ => none

section AtomicStep
variable {Q : Program D K V F W E R I P} {p q : P} {d d' : D} {b : Block K V F W E R}

theorem atomicStep_step {i : I} (hb : Q.block p = none) (h : Q.step i p d = some (q, d')) :
    atomicStep Q (.step i) p d = some (q, d') := by
  simp only [atomicStep, hb, h]

theorem atomicStep_block {r : R} (hb : Q.block p = some b)
    (h : Q.run Q.aborted b d = .ok (r, d')) :
    atomicStep Q .block p d = some (Q.committed p r, d') := by
  simp only [atomicStep, hb, h]

theorem atomicStep_giveUp {e : E} (hb : Q.block p = some b) :
    atomicStep Q (.giveUp e) p d = some (Q.failed p e, d) := by
  simp only [atomicStep, hb]

/-- Everything a step of the specification machine can do. -/
theorem atomicStep_cases {a : Input I E} (h : atomicStep Q a p d = some (q, d')) :
    (∃ i, a = .step i ∧ Q.block p = none ∧ Q.step i p d = some (q, d')) ∨
    (∃ b r, a = .block ∧ Q.block p = some b ∧ Q.run Q.aborted b d = .ok (r, d') ∧
      q = Q.committed p r) ∨
    (∃ b e, Q.block p = some b ∧ q = Q.failed p e ∧ d' = d) := by
  cases hb : Q.block p with
  | none =>
      cases a with
      | step i => exact .inl ⟨i, rfl, rfl, by simpa only [atomicStep, hb] using h⟩
      | block => simp [atomicStep, hb] at h
      | giveUp e => simp [atomicStep, hb] at h
  | some b =>
      refine .inr ?_
      cases a with
      | step i => simp [atomicStep, hb] at h
      | block =>
          cases hr : Q.run Q.aborted b d with
          | ok rd =>
              simp only [atomicStep, hb, hr, Option.some.injEq, Prod.mk.injEq] at h
              obtain ⟨rfl, rfl⟩ := h
              exact .inl ⟨b, rd.1, rfl, rfl, hr, rfl⟩
          | error e =>
              simp only [atomicStep, hb, hr, Option.some.injEq, Prod.mk.injEq] at h
              obtain ⟨rfl, rfl⟩ := h
              exact .inr ⟨b, e, rfl, rfl, rfl⟩
      | giveUp e =>
          simp only [atomicStep, hb, Option.some.injEq, Prod.mk.injEq] at h
          obtain ⟨rfl, rfl⟩ := h
          exact .inr ⟨b, e, rfl, rfl, rfl⟩

theorem atomicStep_frozen {a : Input I E} {k : K} {f : F}
    (h : atomicStep Q a p d = some (q, d')) (hf : Q.frozen k d = some f) :
    Q.frozen k d' = some f := by
  obtain ⟨i, -, -, hstep⟩ | ⟨b, r, -, -, hrun, -⟩ | ⟨b, e, -, -, rfl⟩ := atomicStep_cases h
  · exact Q.step_frozen hstep hf
  · exact Store.runOn_frozen hrun hf
  · exact hf

end AtomicStep

/-- Forget locks, buffers and how far the open blocks have come. -/
def State.abs (s : State D K V F W E R P) : Pool D P :=
  ⟨s.data, fun c => (s.client c).pc⟩

/-- A client inside a block that can still commit: it holds the locks its
remaining statements and its buffer rely on, and what it has read still holds. -/
structure Live (Q : Program D K V F W E R I P) (d : D) (holds : K → Prop)
    (b rest : Block K V F W E R) (ws : List W) : Prop where
  guarded : ∃ H, (∀ k ∈ H, holds k) ∧ Q.Guarded H rest
  buffer : ∀ w ∈ ws, ∀ k, Q.touches w = some k → holds k
  path : Q.Follows d holds b rest ws

def State.holds (s : State D K V F W E R P) (c : ℕ) (k : K) : Prop := s.locks k = some c

/-- Every open block is doomed or live. -/
def State.Ok (Q : Program D K V F W E R I P) (s : State D K V F W E R P) : Prop :=
  ∀ c p rest ws, s.client c = .inside p rest ws → ∃ b, Q.block p = some b ∧
    (rest.Doomed ∨ Live Q s.data (s.holds c) b rest ws)

section Live
variable {Q : Program D K V F W E R I P} {d d' : D} {holds holds' : K → Prop}
  {b rest : Block K V F W E R} {ws : List W}

theorem Live.enter {p : P} (hb : Q.block p = some b) : Live Q d holds b b [] where
  guarded := ⟨[], by simp, Q.guarded hb⟩
  buffer := by simp
  path := .refl

theorem Live.transfer (h : Live Q d holds b rest ws) (hh : ∀ k, holds k → holds' k)
    (hview : ∀ k v, holds k → Q.view k d = some v → Q.view k d' = some v)
    (hfrozen : ∀ k f, Q.frozen k d = some f → Q.frozen k d' = some f) :
    Live Q d' holds' b rest ws where
  guarded := by
    obtain ⟨H, hH, hg⟩ := h.guarded
    exact ⟨H, fun k hk => hh k (hH k hk), hg⟩
  buffer w hw k hk := hh k (h.buffer w hw k hk)
  path := h.path.transfer hh hview hfrozen

/-- A row that was found is locked and stays as it was read. -/
theorem Live.lock_some {k : K} {next : Option V → Block K V F W E R} {v : V}
    (h : Live Q d holds b (.lock k next) ws) (hk : holds k) (hv : Q.view k d = some v) :
    Live Q d holds b (next (some v)) ws where
  guarded := by
    obtain ⟨H, hH, hg⟩ := h.guarded
    refine ⟨k :: H, ?_, hg.2 v (Q.view_fits hv)⟩
    intro j hj
    rcases List.mem_cons.mp hj with rfl | hj
    · exact hk
    · exact hH j hj
  buffer := h.buffer
  path := .lock h.path hk hv

/-- A missing row dooms the block. -/
theorem Live.lock_none {k : K} {next : Option V → Block K V F W E R}
    (h : Live Q d holds b (.lock k next) ws) : (next none).Doomed := by
  obtain ⟨H, -, hg⟩ := h.guarded
  exact hg.1

theorem Live.peek {k : K} {next : Option F → Block K V F W E R} {p : P}
    (h : Live Q d holds b (.peek k next) ws) (hb : Q.block p = some b) :
    Live Q d holds b (next (Q.frozen k d)) ws := by
  obtain ⟨f, hf⟩ := Option.ne_none_iff_exists'.mp (h.path.peeks (Q.peeksSome d hb)).1
  rw [hf]
  refine ⟨?_, h.buffer, .peek h.path hf⟩
  obtain ⟨H, hH, hg⟩ := h.guarded
  exact ⟨H, hH, hg _⟩

theorem Live.write {w : W} {next : Block K V F W E R}
    (h : Live Q d holds b (.write w next) ws) : Live Q d holds b next (ws ++ [w]) where
  guarded := by
    obtain ⟨H, hH, hg⟩ := h.guarded
    exact ⟨H, hH, hg.2⟩
  buffer u hu k hk := by
    obtain ⟨H, hH, hg⟩ := h.guarded
    rcases List.mem_append.mp hu with hu | hu
    · exact h.buffer u hu k hk
    · rw [List.mem_singleton] at hu
      subst hu
      exact hH k (hg.1 k hk)
  path := .write h.path

/-- A block that reaches its commit publishes what the whole block computes. -/
theorem Live.commit {r : R} (h : Live Q d holds b (.commit r) ws)
    (hp : Q.publish ws d = some d') : Q.run Q.aborted b d = .ok (r, d') := by
  rw [Store.run, h.path.runOn_eq d' hp, Store.runOn]

end Live

theorem release_other {locks : K → Option ℕ} {c c' : ℕ} (h : c' ≠ c) {k : K}
    (hk : locks k = some c') : release locks c k = some c' := by
  have hne : locks k ≠ some c := by
    rw [hk]
    exact fun he => h (Option.some.inj he)
  rw [release, if_neg hne, hk]

/-! ## What the steps of one client leave alone -/

/-- The others stay where they are and keep their locks, and the rows they hold
stay as they were read. -/
structure Spares (Q : Program D K V F W E R I P) (c : ℕ) (s t : State D K V F W E R P) : Prop where
  client : ∀ c', c' ≠ c → t.client c' = s.client c'
  holds : ∀ c', c' ≠ c → ∀ k, s.holds c' k → t.holds c' k
  view : ∀ c', c' ≠ c → ∀ k v, s.holds c' k → Q.view k s.data = some v → Q.view k t.data = some v

section Spares
variable [DecidableEq K] {Q : Program D K V F W E R I P} {s t : State D K V F W E R P} {c : ℕ}
  {p : P} {rest : Block K V F W E R} {ws : List W}

omit [DecidableEq K] in
theorem spares_move {ph : Phase K V F W E R P} : Spares Q c s (s.move c ph) where
  client _ hc := Function.update_of_ne hc _ _
  holds _ _ _ hk := hk
  view _ _ _ _ _ hv := hv

omit [DecidableEq K] in
theorem spares_close {d : D} (hview : ∀ c', c' ≠ c → ∀ k v, s.holds c' k →
    Q.view k s.data = some v → Q.view k d = some v) : Spares Q c s (s.close c d p) where
  client _ hc := Function.update_of_ne hc _ _
  holds _ hc _ hk := release_other hc hk
  view := hview

theorem spares_acquire {k : K} {ph : Phase K V F W E R P}
    (hfree : s.locks k = none ∨ s.locks k = some c) :
    Spares Q c s ((s.acquire c k).move c ph) where
  client _ hc := Function.update_of_ne hc _ _
  holds c' hc k' hk := by
    have hne : k' ≠ k := by
      rintro rfl
      rw [State.holds] at hk
      rcases hfree with hnone | hmine
      · rw [hnone] at hk
        cases hk
      · rw [hmine] at hk
        exact hc (Option.some.inj hk).symm
    exact (Function.update_of_ne hne _ _).trans hk
  view _ _ _ _ _ hv := hv

theorem State.acquire_holds {k : K} {ph : Phase K V F W E R P} :
    ((s.acquire c k).move c ph).holds c k := Function.update_self _ _ _

theorem State.holds_acquire {k k' : K} {ph : Phase K V F W E R P} (hk : s.holds c k') :
    ((s.acquire c k).move c ph).holds c k' := by
  by_cases hkk : k' = k
  · subst hkk
    exact State.acquire_holds
  · exact (Function.update_of_ne hkk _ _).trans hk

theorem advance_spares (h : advance Q c s p ws rest = some t) : Spares Q c s t := by
  cases rest with
  | lock k next =>
      simp only [advance] at h
      split_ifs at h with hfree
      cases hv : Q.view k s.data with
      | none =>
          rw [hv, Option.some.injEq] at h
          exact h ▸ spares_move
      | some v =>
          rw [hv, Option.some.injEq] at h
          exact h ▸ spares_acquire hfree
  | peek k next =>
      rw [advance, Option.some.injEq] at h
      exact h ▸ spares_move
  | write w next =>
      rw [advance, Option.some.injEq] at h
      exact h ▸ spares_move
  | fail e =>
      rw [advance, Option.some.injEq] at h
      exact h ▸ spares_close fun _ _ _ _ _ hv => hv
  | commit r => simp [advance] at h

omit [DecidableEq K] in
/-- A commit overwrites only rows that its own client holds. -/
theorem commit_spares (hs : s.Ok Q) (hc : s.client c = .inside p rest ws)
    (h : commit Q c s p ws rest = some t) : Spares Q c s t := by
  cases rest with
  | commit r =>
      obtain ⟨d, hd, rfl⟩ := Option.map_eq_some_iff.mp h
      refine spares_close fun c' hcc k v hk hv => Store.publish_view hd (fun w hw htouch => ?_) hv
      obtain ⟨b, -, hdoom | hl⟩ := hs c p _ ws hc
      · exact hdoom
      · have hmine := hl.buffer w hw k htouch
        rw [State.holds] at hk hmine
        exact hcc (Option.some.inj (hk.symm.trans hmine))
  | lock k next => simp [commit] at h
  | peek k next => simp [commit] at h
  | write w next => simp [commit] at h
  | fail e => simp [commit] at h

theorem next_spares {a : Act I} (hs : s.Ok Q) (h : next Q (c, a) s = some t) : Spares Q c s t := by
  cases hc : s.client c with
  | outside p =>
      simp only [next, hc] at h
      cases hb : Q.block p with
      | none =>
          cases a with
          | step i =>
              rw [hb] at h
              obtain ⟨⟨q, d⟩, hstep, rfl⟩ := Option.map_eq_some_iff.mp h
              exact ⟨fun _ hcc => Function.update_of_ne hcc _ _, fun _ _ _ hk => hk,
                fun _ _ _ _ _ hv => Q.step_view hstep hv⟩
          | enter => simp [hb] at h
          | advance => simp at h
          | commit => simp at h
          | abort => simp at h
      | some b =>
          cases a with
          | enter =>
              rw [hb, Option.some.injEq] at h
              exact h ▸ spares_move
          | step i => simp [hb] at h
          | advance => simp at h
          | commit => simp at h
          | abort => simp at h
  | inside p rest ws =>
      simp only [next, hc] at h
      cases a with
      | advance => exact advance_spares h
      | commit => exact commit_spares hs hc h
      | abort =>
          rw [Option.some.injEq] at h
          exact h ▸ spares_close fun _ _ _ _ _ hv => hv
      | step i => simp at h
      | enter => simp at h

end Spares

section Others
variable {Q : Program D K V F W E R I P} {s t : State D K V F W E R P}

/-- The other clients stay in order when one of them moves and spares them. -/
theorem State.Ok.other (hs : s.Ok Q) {c : ℕ} (h : Spares Q c s t)
    (hfrozen : ∀ k f, Q.frozen k s.data = some f → Q.frozen k t.data = some f)
    (hown : ∀ p rest ws, t.client c = .inside p rest ws → ∃ b, Q.block p = some b ∧
      (rest.Doomed ∨ Live Q t.data (t.holds c) b rest ws)) : t.Ok Q := by
  intro c' p rest ws hc'
  by_cases hc : c' = c
  · subst hc
    exact hown p rest ws hc'
  · rw [h.client c' hc] at hc'
    obtain ⟨b, hb, hd | hl⟩ := hs c' p rest ws hc'
    · exact ⟨b, hb, .inl hd⟩
    · exact ⟨b, hb, .inr (hl.transfer (h.holds c' hc) (h.view c' hc) hfrozen)⟩

/-- A client that ends its block leaves the others in order. -/
theorem State.Ok.close (hs : s.Ok Q) {c : ℕ} {d : D} {p : P} (h : Spares Q c s (s.close c d p))
    (hfrozen : ∀ k f, Q.frozen k s.data = some f → Q.frozen k d = some f) :
    (s.close c d p).Ok Q :=
  hs.other h hfrozen (fun q rest ws h => by simp [State.close] at h)

end Others

section Refinement
variable [DecidableEq K] {Q : Program D K V F W E R I P} {s t : State D K V F W E R P}
  {c : ℕ} {p : P} {rest : Block K V F W E R} {ws : List W}

omit [DecidableEq K] in
theorem State.abs_client (h : s.client c = .inside p rest ws) : s.abs.client c = p := by
  change (s.client c).pc = p
  rw [h, Phase.pc]

omit [DecidableEq K] in
/-- Moving on inside a block is invisible. -/
theorem State.abs_stutter (hc : (s.client c).pc = p)
    (ht : t.client = Function.update s.client c (.inside p rest ws)) (hd : t.data = s.data) :
    t.abs = s.abs := by
  rw [State.abs, State.abs, ht, hd]
  congr 1
  funext c'
  by_cases hcc : c' = c
  · subst hcc
    rw [Function.update_self, Phase.pc, hc]
  · rw [Function.update_of_ne hcc]

omit [DecidableEq K] in
theorem State.abs_outside {u : State D K V F W E R P} {d : D}
    (hu : u.client = Function.update s.client c (.outside p)) (hd : u.data = d) :
    u.abs = ⟨d, Function.update s.abs.client c p⟩ := by
  rw [State.abs, hu, hd]
  congr 1
  funext c'
  by_cases hcc : c' = c
  · subst hcc
    rw [Function.update_self, Function.update_self, Phase.pc]
  · rw [Function.update_of_ne hcc, Function.update_of_ne hcc, State.abs]

/-- `t` comes from `s` by nothing visible or by one step of the specification
machine, taken by the same client. -/
def Matches (Q : Program D K V F W E R I P) (c : ℕ) (a : Act I)
    (s t : State D K V F W E R P) : Prop :=
  t.abs = s.abs ∨ ∃ i, (∀ j, i = Input.step j → a = .step j) ∧
    Interleaving.next (atomicStep Q) (c, i) s.abs = some t.abs

omit [DecidableEq K] in
theorem giveUp_matches {b : Block K V F W E R} {a : Act I} {e : E}
    (hc : s.client c = .inside p rest ws) (hb : Q.block p = some b) :
    Matches Q c a s (s.close c s.data (Q.failed p e)) := by
  refine .inr ⟨.giveUp e, by simp, ?_⟩
  rw [State.abs_outside (u := s.close c s.data (Q.failed p e)) rfl rfl]
  refine next_of_step ?_
  rw [State.abs_client hc]
  exact atomicStep_giveUp hb

omit [DecidableEq K] in
/-- Only `c` moves, inside its block, and the data stay. -/
theorem State.Ok.inside (hs : s.Ok Q) {b : Block K V F W E R} (h : Spares Q c s t)
    (ht : t.client = Function.update s.client c (.inside p rest ws)) (hd : t.data = s.data)
    (hb : Q.block p = some b) (hown : rest.Doomed ∨ Live Q t.data (t.holds c) b rest ws) :
    t.Ok Q := by
  refine hs.other h (fun k f hf => by rwa [hd]) ?_
  intro q rest' ws' h
  rw [ht, Function.update_self, Phase.inside.injEq] at h
  obtain ⟨rfl, rfl, rfl⟩ := h
  exact ⟨b, hb, hown⟩

theorem advance_refines {a : Act I} (hs : s.Ok Q) (hc : s.client c = .inside p rest ws)
    (h : advance Q c s p ws rest = some t) : t.Ok Q ∧ Matches Q c a s t := by
  obtain ⟨b, hb, hown⟩ := hs c p rest ws hc
  have hpc : (s.client c).pc = p := by rw [hc, Phase.pc]
  have hspares := advance_spares h
  cases rest with
  | lock k next =>
      simp only [advance] at h
      split_ifs at h with hfree
      cases hv : Q.view k s.data with
      | none =>
          rw [hv, Option.some.injEq] at h
          subst h
          refine ⟨hs.inside hspares rfl rfl hb (.inl ?_), .inl (State.abs_stutter hpc rfl rfl)⟩
          rcases hown with hd | hl
          · exact hd none
          · exact hl.lock_none
      | some v =>
          rw [hv, Option.some.injEq] at h
          subst h
          refine ⟨hs.inside hspares rfl rfl hb ?_, .inl (State.abs_stutter hpc rfl rfl)⟩
          rcases hown with hd | hl
          · exact .inl (hd _)
          · exact .inr ((hl.transfer (fun _ hk => State.holds_acquire hk) (fun _ _ _ hv => hv)
              (fun _ _ hf => hf)).lock_some State.acquire_holds hv)
  | peek k next =>
      rw [advance, Option.some.injEq] at h
      subst h
      refine ⟨hs.inside hspares rfl rfl hb ?_, .inl (State.abs_stutter hpc rfl rfl)⟩
      rcases hown with hd | hl
      · exact .inl (hd _)
      · exact .inr (hl.peek hb)
  | write w next =>
      rw [advance, Option.some.injEq] at h
      subst h
      refine ⟨hs.inside hspares rfl rfl hb ?_, .inl (State.abs_stutter hpc rfl rfl)⟩
      rcases hown with hd | hl
      · exact .inl hd
      · exact .inr hl.write
  | fail e =>
      rw [advance, Option.some.injEq] at h
      subst h
      exact ⟨hs.close hspares (fun _ _ hf => hf), giveUp_matches hc hb⟩
  | commit r => simp [advance] at h

omit [DecidableEq K] in
theorem commit_refines {a : Act I} (hs : s.Ok Q) (hc : s.client c = .inside p rest ws)
    (h : commit Q c s p ws rest = some t) : t.Ok Q ∧ Matches Q c a s t := by
  obtain ⟨b, hb, hown⟩ := hs c p rest ws hc
  have hspares := commit_spares hs hc h
  cases rest with
  | commit r =>
      obtain ⟨d, hd, rfl⟩ := Option.map_eq_some_iff.mp h
      refine ⟨hs.close hspares fun k f hf => Store.publish_frozen hd hf, ?_⟩
      rcases hown with hdoom | hl
      · exact hdoom.elim
      · refine .inr ⟨.block, by simp, ?_⟩
        rw [State.abs_outside (u := s.close c d (Q.committed p r)) rfl rfl]
        refine next_of_step ?_
        rw [State.abs_client hc]
        exact atomicStep_block hb (hl.commit hd)
  | lock k next => simp [commit] at h
  | peek k next => simp [commit] at h
  | write w next => simp [commit] at h
  | fail e => simp [commit] at h

/-- Every step keeps the open blocks in order and is a step of the
specification machine, or invisible to it. -/
theorem next_refines {a : Act I} (hs : s.Ok Q) (h : next Q (c, a) s = some t) :
    t.Ok Q ∧ Matches Q c a s t := by
  have hspares := next_spares hs h
  cases hc : s.client c with
  | outside p =>
      simp only [next, hc] at h
      cases hb : Q.block p with
      | none =>
          cases a with
          | step i =>
              rw [hb] at h
              obtain ⟨⟨q, d⟩, hstep, rfl⟩ := Option.map_eq_some_iff.mp h
              constructor
              · refine hs.other hspares (fun _ _ hf => Q.step_frozen hstep hf) ?_
                intro q' rest' ws' hq
                simp [State.move] at hq
              · refine .inr ⟨.step i, by simp, ?_⟩
                rw [State.abs_outside (u := { s.move c (.outside q) with data := d }) rfl rfl]
                refine next_of_step ?_
                have hpc : s.abs.client c = p := by
                  change (s.client c).pc = p
                  rw [hc, Phase.pc]
                rw [hpc]
                exact atomicStep_step hb hstep
          | enter => simp [hb] at h
          | advance => simp at h
          | commit => simp at h
          | abort => simp at h
      | some b =>
          cases a with
          | enter =>
              rw [hb, Option.some.injEq] at h
              subst h
              exact ⟨hs.inside hspares rfl rfl hb (.inr (Live.enter hb)),
                .inl (State.abs_stutter (by rw [hc, Phase.pc]) rfl rfl)⟩
          | step i => simp [hb] at h
          | advance => simp at h
          | commit => simp at h
          | abort => simp at h
  | inside p rest ws =>
      simp only [next, hc] at h
      cases a with
      | advance => exact advance_refines hs hc h
      | commit => exact commit_refines hs hc h
      | abort =>
          rw [Option.some.injEq] at h
          subst h
          obtain ⟨b, hb, -⟩ := hs c p rest ws hc
          exact ⟨hs.close hspares (fun _ _ hf => hf), giveUp_matches hc hb⟩
      | step i => simp at h
      | enter => simp at h

/-- A machine at rest: no block is open. -/
def State.idle (d : D) (client : ℕ → P) : State D K V F W E R P :=
  ⟨d, fun _ => none, fun c => .outside (client c)⟩

omit [DecidableEq K] in
theorem State.idle_ok (d : D) (client : ℕ → P) : (State.idle d client).Ok Q := by
  intro c p rest ws h
  simp [State.idle] at h

theorem run_ok {s₀ : State D K V F W E R P} {tr : List (Event (ℕ × Act I) _)}
    (h₀ : s₀.Ok Q) (h : Run (next Q) s₀ tr s) : s.Ok Q :=
  h.invariant (State.Ok Q) h₀ fun _ _ _ hs hn => (next_refines hs hn).1

/-- A run of the locking machine is a run of the specification machine on the
same data. The second clause compares what an observer of the data collects
along the two runs; the third finds every single statement again. -/
theorem run_refines {s₀ : State D K V F W E R P} {tr : List (Event (ℕ × Act I) _)}
    (h₀ : s₀.Ok Q) (h : Run (next Q) s₀ tr s) :
    ∃ us, Run (Interleaving.next (atomicStep Q)) s₀.abs us s.abs ∧
      (∀ {X : Type} (f : D → D → List X), (∀ d, f d d = []) →
        tr.flatMap (fun e => f e.pre.data e.post.data) =
          us.flatMap fun e => f e.pre.data e.post.data) ∧
      ∀ e ∈ us, ∀ i, e.label.2 = .step i → ∃ e' ∈ tr,
        e'.label = (e.label.1, .step i) ∧ e'.pre.abs = e.pre ∧ e'.post.abs = e.post := by
  induction h with
  | start => exact ⟨[], .start, fun _ _ => rfl, by simp⟩
  | @step tr s t l hrun hn ih =>
      obtain ⟨us, hus, hobs, hlab⟩ := ih
      obtain ⟨c, a⟩ := l
      obtain ⟨-, hst | ⟨i, hi, hm⟩⟩ := next_refines (run_ok h₀ hrun) hn
      · refine ⟨us, hst ▸ hus, fun f hf => ?_, fun e he i hi => ?_⟩
        · have hd : t.data = s.data := congrArg Pool.data hst
          rw [List.flatMap_append, hobs f hf]
          simp [hd, hf]
        · obtain ⟨e', he', h'⟩ := hlab e he i hi
          exact ⟨e', List.mem_append_left _ he', h'⟩
      · refine ⟨us ++ [⟨s.abs, (c, i), t.abs⟩], hus.step _ hm, fun f hf => ?_, fun e he j hj => ?_⟩
        · rw [List.flatMap_append, List.flatMap_append, hobs f hf]
          simp [State.abs]
        · rcases List.mem_append.mp he with he | he
          · obtain ⟨e', he', h'⟩ := hlab e he j hj
            exact ⟨e', List.mem_append_left _ he', h'⟩
          · rw [List.mem_singleton] at he
            subst he
            refine ⟨⟨s, (c, a), t⟩, by simp, ?_, rfl, rfl⟩
            rw [hi j hj]

/-- Assertions that single statements and whole blocks keep hold along every run. -/
theorem run_owned {G : D → Prop} {A : P → D → Prop} {C : I → P → Prop}
    (own : ∀ i p d p' d', (∀ j, i = Input.step j → C j p) → G d → A p d →
      atomicStep Q i p d = some (p', d') → G d' ∧ A p' d')
    (other : ∀ i p d p' d' q, (∀ j, i = Input.step j → C j p) → G d → A p d → A q d →
      atomicStep Q i p d = some (p', d') → A q d')
    {s₀ : State D K V F W E R P} {tr : List (Event (ℕ × Act I) _)} (h₀ : s₀.Ok Q)
    (howned : Owned G A s₀.abs) (h : Run (next Q) s₀ tr s)
    (hC : ∀ e ∈ tr, ∀ c i, e.label = (c, .step i) → C i (e.pre.client c).pc) :
    Owned G A s.abs := by
  obtain ⟨us, hus, -, hlab⟩ := run_refines h₀ h
  refine howned.run own other hus fun e he j hj => ?_
  obtain ⟨e', he', hl, hpre, -⟩ := hlab e he j hj
  rw [← hpre]
  exact hC e' he' _ j hl

end Refinement

end Library.LockedBlocks
