import MaxOne.Library.Runs

/-!
# Row locks and deadlock

Transactions that take row locks in four strengths, keep them until they end and
wait while another transaction holds a conflicting one. A protocol says which
lock the next statement of a transaction asks for and how it goes on; the rows it
finds are an answer from outside. A deadlock is a cycle of transactions each
waiting for a lock the next one holds.

`no_deadlock` is the usual argument from a global order: when every request of a
transaction is for a row it already holds exclusively, or for a row above all
those it holds, no state of a run has such a cycle.
-/
namespace Library.LockOrder
open Library.Runs

/-- The strengths of a row lock, weakest first. -/
inductive LockMode where
  | keyShare | share | noKeyUpdate | update
  deriving DecidableEq, Repr

/-- Two transactions may not hold these on one row. -/
def LockMode.conflicts : LockMode → LockMode → Bool
  | .keyShare, other => other = .update
  | .share, other => other = .noKeyUpdate || other = .update
  | .noKeyUpdate, other => other ≠ .keyShare
  | .update, _ => true

theorem LockMode.conflicts_comm (m m' : LockMode) : m.conflicts m' = m'.conflicts m := by
  cases m <;> cases m' <;> rfl

/-- `body` is a transaction at its start, `request` the lock its next statement
takes and `reply` how it goes on; the flag says whether the row is there to be
locked. -/
structure Protocol (K X B A : Type) where
  body : X → B
  request : B → Option (K × LockMode)
  reply : B → A → Option (B × Bool)

/-- `finish` ends a transaction at any moment, by a commit or an abort. -/
inductive Act (X A : Type) where
  | start (x : X)
  | advance (answer : A)
  | finish

/-- A lock and the transaction that holds it. -/
structure Held (K : Type) where
  holder : ℕ
  key : K
  mode : LockMode
  deriving DecidableEq, Repr

structure State (K B : Type) where
  running : ℕ → Option B
  locks : List (Held K)

variable {K X B A : Type}

/-- Another transaction holds a lock in the way of this request. -/
def blocked [DecidableEq K] (locks : List (Held K)) (c : ℕ) (k : K) (m : LockMode) : Bool :=
  locks.any fun h => h.holder ≠ c && h.key = k && m.conflicts h.mode

/-- The locks after a granted request; a row that is not there is not locked. -/
def grant (locks : List (Held K)) (c : ℕ) (found : Bool) : Option (K × LockMode) → List (Held K)
  | some (k, m) => if found then ⟨c, k, m⟩ :: locks else locks
  | none => locks

def next [DecidableEq K] (P : Protocol K X B A) (l : ℕ × Act X A) (s : State K B) :
    Option (State K B) :=
  match l.2, s.running l.1 with
  | .start x, none => some { s with running := Function.update s.running l.1 (some (P.body x)) }
  | .advance answer, some b =>
      if (P.request b).any fun r => blocked s.locks l.1 r.1 r.2 then none
      else (P.reply b answer).map fun r =>
        ⟨Function.update s.running l.1 (some r.1), grant s.locks l.1 r.2 (P.request b)⟩
  | .finish, some _ => some ⟨Function.update s.running l.1 none,
      s.locks.filter fun h => h.holder ≠ l.1⟩
  | _, _ => none

/-- No transaction is open. -/
def idle : State K B := ⟨fun _ => none, []⟩

/-- `c` waits for a lock that `d` holds. -/
def Waits (P : Protocol K X B A) (s : State K B) (c d : ℕ) : Prop :=
  ∃ b k m, s.running c = some b ∧ P.request b = some (k, m) ∧ c ≠ d ∧
    ∃ h ∈ s.locks, h.holder = d ∧ h.key = k ∧ m.conflicts h.mode = true

/-- Transactions wait for one another in a circle. -/
def Deadlock (P : Protocol K X B A) (s : State K B) : Prop :=
  ∃ c, Relation.TransGen (Waits P s) c c

/-- What one transaction holds. -/
def heldBy (locks : List (Held K)) (c : ℕ) : List (Held K) := locks.filter fun h => h.holder = c

/-! ## The order discipline -/

/-- `Fits H b`: a transaction at `b` that holds the locks `H` keeps to the order `rank`. -/
structure Discipline (P : Protocol K X B A) {R : Type} [Preorder R] (rank : K → R) where
  Fits : List (K × LockMode) → B → Prop
  start : ∀ x, Fits [] (P.body x)
  order : ∀ {H b k m}, Fits H b → P.request b = some (k, m) →
    (k, .update) ∈ H ∨ ∀ h ∈ H, rank h.1 < rank k
  granted : ∀ {H b k m answer b'}, Fits H b → P.request b = some (k, m) →
    P.reply b answer = some (b', true) → Fits ((k, m) :: H) b'
  missing : ∀ {H b answer b'}, Fits H b → P.request b ≠ none →
    P.reply b answer = some (b', false) → Fits H b'
  silent : ∀ {H b answer b' found}, Fits H b → P.request b = none →
    P.reply b answer = some (b', found) → Fits H b'

/-- A lock without its holder. -/
def Held.lock (h : Held K) : K × LockMode := (h.key, h.mode)

/-- Only running transactions hold locks, they keep to the order, and no two hold
conflicting locks. -/
structure Ordered (P : Protocol K X B A) {R : Type} [Preorder R] {rank : K → R}
    (D : Discipline P rank) (s : State K B) : Prop where
  holders : ∀ h ∈ s.locks, s.running h.holder ≠ none
  fits : ∀ c b, s.running c = some b → D.Fits ((heldBy s.locks c).map Held.lock) b
  apart : ∀ h ∈ s.locks, ∀ h' ∈ s.locks, h.holder ≠ h'.holder → h.key = h'.key →
    h.mode.conflicts h'.mode = false

section Step
variable {P : Protocol K X B A} {s t : State K B} {l : ℕ × Act X A} {locks : List (Held K)}
  {c d : ℕ}

/-- Everything a step can do. -/
theorem next_cases [DecidableEq K] (h : next P l s = some t) :
    (∃ x, s.running l.1 = none ∧
      t = { s with running := Function.update s.running l.1 (some (P.body x)) }) ∨
    (∃ b answer b' found, s.running l.1 = some b ∧
      (∀ k m, P.request b = some (k, m) → blocked s.locks l.1 k m = false) ∧
      P.reply b answer = some (b', found) ∧
      t = ⟨Function.update s.running l.1 (some b'), grant s.locks l.1 found (P.request b)⟩) ∨
    t = ⟨Function.update s.running l.1 none, s.locks.filter fun h => h.holder ≠ l.1⟩ := by
  unfold next at h
  split at h
  · next x _ hidle => exact .inl ⟨x, hidle, (Option.some.inj h).symm⟩
  · next answer b _ hrunning =>
      split_ifs at h with hblocked
      obtain ⟨r, hreply, rfl⟩ := Option.map_eq_some_iff.mp h
      refine .inr (.inl ⟨b, answer, r.1, r.2, hrunning, fun k m hrequest => ?_, hreply, rfl⟩)
      rw [hrequest, Option.any_some, Bool.not_eq_true] at hblocked
      exact hblocked
  · exact .inr (.inr (Option.some.inj h).symm)
  · cases h

theorem mem_heldBy {h : Held K} : h ∈ heldBy locks c ↔ h ∈ locks ∧ h.holder = c := by
  rw [heldBy, List.mem_filter, decide_eq_true_eq]

theorem heldBy_grant_other {found : Bool} {request : Option (K × LockMode)} (hd : d ≠ c) :
    heldBy (grant locks c found request) d = heldBy locks d := by
  unfold grant
  split
  · split
    · exact List.filter_cons_of_neg (by simpa using hd.symm)
    · rfl
  · rfl

theorem heldBy_finish_other (hd : d ≠ c) :
    heldBy (locks.filter fun h => h.holder ≠ c) d = heldBy locks d := by
  rw [heldBy, List.filter_filter]
  refine List.filter_congr fun h _ => ?_
  by_cases hholder : h.holder = d <;> simp [hholder, hd]

theorem mem_grant {h : Held K} {found : Bool} {request : Option (K × LockMode)}
    (hmem : h ∈ grant locks c found request) :
    h ∈ locks ∨ ∃ k m, request = some (k, m) ∧ h = ⟨c, k, m⟩ := by
  unfold grant at hmem
  split at hmem
  · next k m =>
      split at hmem
      · rcases List.mem_cons.mp hmem with hnew | hold
        · exact .inr ⟨k, m, rfl, hnew⟩
        · exact .inl hold
      · exact .inl hmem
  · exact .inl hmem

theorem blocked_eq_false [DecidableEq K] {k : K} {m : LockMode} :
    blocked locks c k m = false ↔
      ∀ h ∈ locks, h.holder ≠ c → h.key = k → m.conflicts h.mode = false := by
  rw [blocked, List.any_eq_false]
  refine forall₂_congr fun h _ => ?_
  simp only [Bool.and_eq_true, decide_eq_true_eq, not_and, Bool.not_eq_true, and_imp]

variable {R : Type} [Preorder R] {rank : K → R} {D : Discipline P rank}

theorem Ordered.start (h : Ordered P D s) (x : X) (hidle : s.running c = none) :
    Ordered P D { s with running := Function.update s.running c (some (P.body x)) } := by
  refine ⟨fun g hg => ?_, fun d b hrunning => ?_, h.apart⟩
  · have hne : g.holder ≠ c := fun he => h.holders g hg (he ▸ hidle)
    simp only [Function.update_of_ne hne]
    exact h.holders g hg
  · by_cases hd : d = c
    · subst hd
      simp only [Function.update_self, Option.some.injEq] at hrunning
      have hnone : heldBy s.locks d = [] := by
        rw [List.eq_nil_iff_forall_not_mem]
        intro g hg
        obtain ⟨hmem, rfl⟩ := mem_heldBy.mp hg
        exact h.holders g hmem hidle
      simp only [hnone, ← hrunning]
      exact D.start x
    · simp only [Function.update_of_ne hd] at hrunning
      exact h.fits d b hrunning

theorem Ordered.advance [DecidableEq K] (h : Ordered P D s) {b b' : B} {answer : A} {found : Bool}
    (hrunning : s.running c = some b)
    (hfree : ∀ k m, P.request b = some (k, m) → blocked s.locks c k m = false)
    (hreply : P.reply b answer = some (b', found)) :
    Ordered P D ⟨Function.update s.running c (some b'), grant s.locks c found (P.request b)⟩ := by
  have hfits := h.fits c b hrunning
  refine ⟨fun g hg => ?_, fun d b₁ hd => ?_, fun g hg g' hg' hne hkey => ?_⟩
  · by_cases he : g.holder = c
    · simp only [he, Function.update_self]
      exact Option.some_ne_none b'
    · simp only [Function.update_of_ne he]
      rcases mem_grant hg with hold | ⟨k, m, -, rfl⟩
      · exact h.holders g hold
      · exact absurd rfl he
  · by_cases hdc : d = c
    · subst hdc
      simp only [Function.update_self, Option.some.injEq] at hd
      subst hd
      cases hrequest : P.request b with
      | none => exact D.silent hfits hrequest hreply
      | some r =>
          cases found with
          | false => exact D.missing hfits (by rw [hrequest]; exact Option.some_ne_none r) hreply
          | true =>
              have hgranted := D.granted hfits hrequest hreply
              have hheld : heldBy (grant s.locks d true (some r)) d = ⟨d, r.1, r.2⟩ ::
                  heldBy s.locks d := List.filter_cons_of_pos (by simp)
              rw [hheld]
              exact hgranted
    · simp only [Function.update_of_ne hdc] at hd
      dsimp only
      rw [heldBy_grant_other hdc]
      exact h.fits d b₁ hd
  · have hnew : ∀ k m, P.request b = some (k, m) → ∀ f ∈ s.locks, f.holder ≠ c → f.key = k →
        m.conflicts f.mode = false := fun k m hrequest => blocked_eq_false.mp (hfree k m hrequest)
    rcases mem_grant hg with hold | ⟨k, m, hrequest, rfl⟩
    · rcases mem_grant hg' with hold' | ⟨k, m, hrequest, rfl⟩
      · exact h.apart g hold g' hold' hne hkey
      · rw [LockMode.conflicts_comm]
        exact hnew k m hrequest g hold hne hkey
    · rcases mem_grant hg' with hold' | ⟨k', m', hrequest', rfl⟩
      · exact hnew k m hrequest g' hold' hne.symm hkey.symm
      · exact absurd rfl hne

theorem Ordered.finish (h : Ordered P D s) :
    Ordered P D ⟨Function.update s.running c none, s.locks.filter fun g => g.holder ≠ c⟩ := by
  have hkept : ∀ g ∈ s.locks.filter (fun g => g.holder ≠ c), g ∈ s.locks ∧ g.holder ≠ c := by
    intro g hg
    rw [List.mem_filter, decide_eq_true_eq] at hg
    exact hg
  refine ⟨fun g hg => ?_, fun d b hd => ?_, fun g hg g' hg' =>
    h.apart g (hkept g hg).1 g' (hkept g' hg').1⟩
  · simp only [Function.update_of_ne (hkept g hg).2]
    exact h.holders g (hkept g hg).1
  · by_cases hdc : d = c
    · subst hdc
      simp only [Function.update_self, reduceCtorEq] at hd
    · simp only [Function.update_of_ne hdc] at hd
      dsimp only
      rw [heldBy_finish_other hdc]
      exact h.fits d b hd

theorem Ordered.next [DecidableEq K] (h : Ordered P D s) (hn : LockOrder.next P l s = some t) :
    Ordered P D t := by
  rcases next_cases hn with ⟨x, hidle, rfl⟩ | ⟨b, answer, b', found, hrunning, hfree, hreply, rfl⟩ | rfl
  · exact h.start x hidle
  · exact h.advance hrunning hfree hreply
  · exact h.finish

/-- A transaction that waits asks for a row above all it holds. -/
theorem Ordered.waits_above (h : Ordered P D s) {b : B} {k : K} {m : LockMode}
    (hrunning : s.running c = some b) (hrequest : P.request b = some (k, m))
    {g : Held K} (hg : g ∈ s.locks) (hother : g.holder ≠ c) (hkey : g.key = k) :
    ∀ f ∈ heldBy s.locks c, rank f.key < rank k := by
  rcases D.order (h.fits c b hrunning) hrequest with hown | habove
  · obtain ⟨f, hf, he⟩ := List.mem_map.mp hown
    obtain ⟨hmem, hholder⟩ := mem_heldBy.mp hf
    have hmode : f.mode = .update := congrArg Prod.snd he
    have hsame : f.key = g.key := (congrArg Prod.fst he).trans hkey.symm
    have hfree := h.apart f hmem g hg (fun he => hother (he ▸ hholder)) hsame
    rw [hmode] at hfree
    cases hfree
  · intro f hf
    exact habove f.lock (List.mem_map_of_mem hf)

/-- Along a chain of waiting transactions the rows asked for rise. -/
theorem Ordered.waits_rise (h : Ordered P D s) {e : ℕ} (hwaits : Relation.TransGen (Waits P s) c e) :
    ∃ b k m, s.running c = some b ∧ P.request b = some (k, m) ∧
      (∀ f ∈ heldBy s.locks c, rank f.key < rank k) ∧
      ∃ g ∈ heldBy s.locks e, rank k ≤ rank g.key := by
  induction hwaits with
  | single hw =>
      obtain ⟨b, k, m, hrunning, hrequest, hne, g, hg, rfl, hkey, -⟩ := hw
      exact ⟨b, k, m, hrunning, hrequest, h.waits_above hrunning hrequest hg hne.symm hkey, g,
        mem_heldBy.mpr ⟨hg, rfl⟩, hkey ▸ le_refl _⟩
  | tail _ hw ih =>
      obtain ⟨b, k, m, hrunning, hrequest, habove, f, hf, hle⟩ := ih
      obtain ⟨b', k', m', hrunning', hrequest', hne, g, hg, rfl, hkey, -⟩ := hw
      have hhigher := h.waits_above hrunning' hrequest' hg hne.symm hkey f hf
      refine ⟨b, k, m, hrunning, hrequest, habove, g, mem_heldBy.mpr ⟨hg, rfl⟩, ?_⟩
      rw [hkey]
      exact hle.trans hhigher.le

theorem Ordered.not_deadlock (h : Ordered P D s) : ¬ Deadlock P s := by
  intro hdeadlock
  obtain ⟨c, hcycle⟩ := hdeadlock
  obtain ⟨b, k, m, -, -, habove, g, hg, hle⟩ := h.waits_rise hcycle
  exact absurd hle (habove g hg).not_ge

/-- With a global order on the rows, no state of a run has a deadlock. -/
theorem no_deadlock [DecidableEq K] {tr : List (Event (ℕ × Act X A) (State K B))}
    (D : Discipline P rank)
    (h : Run (LockOrder.next P) idle tr s) : ¬ Deadlock P s := by
  have hstart : Ordered P D idle := by
    refine ⟨fun g hg => absurd hg List.not_mem_nil, fun c b hc => ?_,
      fun g hg => absurd hg List.not_mem_nil⟩
    cases hc
  exact (h.invariant (Ordered P D) hstart fun _ _ _ hs hn => hs.next hn).not_deadlock

end Step

end Library.LockOrder
