import MaxOne.Library.Runs
import MaxOne.Events

/-!
# The link to the broker

`QueueService` from `onModuleInit` on and before `onModuleDestroy`, so `closing` is
false: the fields it keeps, the calls of `open` under way, and the connections it has
made, each with at most one channel. Answers of the broker, closes and the timer are the
labels. `connection 'close'` reaches `onConnectionClosed` only if the listener was there
when the connection closed.

The answer to the last assertion and what `open` does with it are two steps: the promise
is resolved while frames are read, the rest of `open` runs when they have been read.
-/
namespace MaxOne.BrokerLink
open Library.Runs MaxOne.Events

def reconnectCapMs : ℕ := 10000

/-- What `open` asserts, in its order. -/
inductive Call where
  | assertExchange (exchange : Exchange)
  | assertQueue (a : Asserted)
  | bindQueue (a : Asserted)

def topologyCalls : List Call :=
  [.assertExchange .events, .assertExchange .dlx] ++
    topology.flatMap fun a => [.assertQueue a, .bindQueue a]

/-- The await at which a call of `open` stands; the first of `calls` has been sent. -/
inductive Stage where
  | connecting
  | creating (n : ℕ)
  | asserting (n : ℕ) (calls : List Call)
  | answered (n : ℕ)

/-- A connection: it is open, its channel is open, its `close` is listened to. -/
structure Conn where
  alive : Bool
  channel : Bool
  listening : Bool
  deriving DecidableEq, Repr

/-- `conn`, `channel`, `attempt` and `timer` are the fields of `QueueService`, a
connection and its channel by their number; the timer is its delay. -/
structure State where
  conns : ℕ → Conn
  made : ℕ
  conn : Option ℕ
  channel : Option ℕ
  attempt : ℕ
  timer : Option ℕ
  opens : List Stage

/-- `onModuleInit` has called `open`. -/
def start : State := ⟨fun _ => ⟨false, false, false⟩, 0, none, none, 0, none, [.connecting]⟩

inductive Label where
  | connected (k : ℕ)
  | connectFailed (k : ℕ)
  | channelCreated (k : ℕ)
  | createFailed (k : ℕ)
  | asserted (k : ℕ)
  | refused (k : ℕ)
  | resumed (k : ℕ)
  | connectionClosed (n : ℕ)
  | channelClosed (n : ℕ)
  | timerFired

def setConn (n : ℕ) (f : Conn → Conn) (s : State) : State :=
  { s with conns := Function.update s.conns n (f (s.conns n)) }

def scheduleReconnect (s : State) : State :=
  if s.timer.isSome then s
  else { s with
    attempt := s.attempt + 1
    timer := some (min ((s.attempt + 1) * 500) reconnectCapMs) }

/-- The `catch` of `open`. -/
def fail (k : ℕ) (s : State) : State := scheduleReconnect { s with opens := s.opens.eraseIdx k }

def onConnectionClosed (s : State) : State :=
  scheduleReconnect { s with channel := none, conn := none }

/-- The end of `open`. -/
def finish (k n : ℕ) (s : State) : State :=
  { setConn n (fun c => { c with listening := true }) s with
    conn := some n
    channel := some n
    attempt := 0
    opens := s.opens.eraseIdx k }

/-- A call of `open` is answered; an assertion that is refused costs the channel. -/
def next (l : Label) (s : State) : Option State :=
  match l with
  | .connected k =>
      match s.opens[k]? with
      | some .connecting => some { s with
          conns := Function.update s.conns s.made ⟨true, false, false⟩
          made := s.made + 1
          opens := s.opens.set k (.creating s.made) }
      | _ => none
  | .connectFailed k =>
      match s.opens[k]? with
      | some .connecting => some (fail k s)
      | _ => none
  | .channelCreated k =>
      match s.opens[k]? with
      | some (.creating n) =>
          if (s.conns n).alive then
            some { setConn n (fun c => { c with channel := true }) s with
              opens := s.opens.set k (.asserting n topologyCalls) }
          else none
      | _ => none
  | .createFailed k =>
      match s.opens[k]? with
      | some (.creating _) => some (fail k s)
      | _ => none
  | .asserted k =>
      match s.opens[k]? with
      | some (.asserting n (_ :: rest)) =>
          if (s.conns n).channel then
            some { s with
              opens := s.opens.set k (if rest.isEmpty then .answered n else .asserting n rest) }
          else none
      | _ => none
  | .refused k =>
      match s.opens[k]? with
      | some (.asserting n _) =>
          some (fail k (setConn n (fun c => { c with channel := false }) s))
      | _ => none
  | .resumed k =>
      match s.opens[k]? with
      | some (.answered n) => some (finish k n s)
      | _ => none
  | .connectionClosed n =>
      if (s.conns n).alive then
        let t := setConn n (fun c => { c with alive := false, channel := false }) s
        if (s.conns n).listening then some (onConnectionClosed t) else some t
      else none
  | .channelClosed n =>
      if (s.conns n).alive && (s.conns n).channel then
        some (setConn n (fun c => { c with channel := false }) s)
      else none
  | .timerFired =>
      match s.timer with
      | some _ => some { s with timer := none, opens := s.opens ++ [.connecting] }
      | none => none

/-- At most one connection is open, and the stored channel is an open channel of it or a
reconnect is under way. -/
structure NotStuck (s : State) : Prop where
  one : ∀ n m, (s.conns n).alive = true → (s.conns m).alive = true → n = m
  linked : (∃ n, s.channel = some n ∧ (s.conns n).alive = true ∧ (s.conns n).channel = true) ∨
    s.timer ≠ none ∨ s.opens ≠ []

/-- No connection is open when a new one is made, `open` ends on an open channel, and the
stored channel does not close by itself. -/
def spared (l : Label) (s : State) : Bool :=
  match l with
  | .connected _ => (List.range s.made).all fun n => !(s.conns n).alive
  | .resumed k =>
      match s.opens[k]? with
      | some (.answered n) => (s.conns n).alive && (s.conns n).channel
      | _ => true
  | .channelClosed n => s.channel ≠ some n
  | _ => true

/-- Connections are numbered as they are made. -/
def Numbered (s : State) : Prop := ∀ n, (s.conns n).alive = true → n < s.made

/-! ## The three phases of a link that is not stuck -/

/-- The connection a call of `open` has made. -/
def Stage.conn : Stage → Option ℕ
  | .connecting => none
  | .creating n => some n
  | .asserting n _ => some n
  | .answered n => some n

/-- No open connection is listened to and at most one is open at all, as is the case while no
channel is stored. -/
structure Unlinked (s : State) : Prop where
  channel : s.channel = none
  quiet : ∀ n, (s.conns n).listening = true → (s.conns n).alive = false
  one : ∀ n m, (s.conns n).alive = true → (s.conns m).alive = true → n = m

/-- One call of `open` is under way, or the timer is set, or the stored channel is open on the
only open connection, which is listened to. -/
inductive Phase (s : State) : Prop
  | opening (stage : Stage) (hopens : s.opens = [stage]) (htimer : s.timer = none)
      (hunlinked : Unlinked s)
      (hown : ∀ n m, stage.conn = some n → (s.conns m).alive = true → m = n)
  | waiting (hopens : s.opens = []) (htimer : s.timer ≠ none) (hunlinked : Unlinked s)
  | linked (n : ℕ) (hopens : s.opens = []) (htimer : s.timer = none) (hchannel : s.channel = some n)
      (halive : (s.conns n).alive = true) (hopen : (s.conns n).channel = true)
      (hlistening : (s.conns n).listening = true) (hone : ∀ m, (s.conns m).alive = true → m = n)

theorem start_phase : Phase start := by
  refine .opening .connecting rfl rfl ⟨rfl, fun _ h => ?_, fun _ _ h => ?_⟩ fun _ _ h => ?_
  · rfl
  · cases h
  · cases h

section Frames
variable {s t : State} {n m k : ℕ} {f : Conn → Conn}

@[simp] theorem scheduleReconnect_conns (s : State) : (scheduleReconnect s).conns = s.conns := by
  unfold scheduleReconnect
  split_ifs
  · rfl
  · rfl

@[simp] theorem scheduleReconnect_channel (s : State) : (scheduleReconnect s).channel = s.channel := by
  unfold scheduleReconnect
  split_ifs
  · rfl
  · rfl

@[simp] theorem scheduleReconnect_opens (s : State) : (scheduleReconnect s).opens = s.opens := by
  unfold scheduleReconnect
  split_ifs
  · rfl
  · rfl

@[simp] theorem scheduleReconnect_made (s : State) : (scheduleReconnect s).made = s.made := by
  unfold scheduleReconnect
  split_ifs
  · rfl
  · rfl

theorem scheduleReconnect_timer (s : State) : (scheduleReconnect s).timer ≠ none := by
  unfold scheduleReconnect
  split_ifs with htimer
  · exact Option.isSome_iff_ne_none.mp htimer
  · exact Option.some_ne_none _

@[simp] theorem setConn_self (n : ℕ) (f : Conn → Conn) (s : State) :
    (setConn n f s).conns n = f (s.conns n) := Function.update_self n _ s.conns

theorem setConn_ne (hm : m ≠ n) : (setConn n f s).conns m = s.conns m :=
  Function.update_of_ne hm _ s.conns

theorem finish_conns : (finish k n s).conns =
    (setConn n (fun c => { c with listening := true }) s).conns := rfl

/-- A connection is not opened by rewriting one that was not open. -/
theorem alive_setConn (hf : (f (s.conns n)).alive = true → (s.conns n).alive = true)
    (h : ((setConn n f s).conns m).alive = true) : (s.conns m).alive = true := by
  by_cases hm : m = n
  · subst hm
    rw [setConn_self] at h
    exact hf h
  · rwa [setConn_ne hm] at h

theorem listening_setConn (hf : (f (s.conns n)).listening = (s.conns n).listening) :
    ((setConn n f s).conns m).listening = (s.conns m).listening := by
  by_cases hm : m = n
  · subst hm
    rw [setConn_self]
    exact hf
  · rw [setConn_ne hm]

theorem Unlinked.mono (h : Unlinked s) (hchannel : t.channel = none)
    (halive : ∀ n, (t.conns n).alive = true → (s.conns n).alive = true)
    (hlistening : ∀ n, (t.conns n).listening = (s.conns n).listening) : Unlinked t where
  channel := hchannel
  quiet := fun n hn => by
    have hdead := h.quiet n ((hlistening n).symm.trans hn)
    by_contra hne
    rw [Bool.not_eq_false] at hne
    rw [halive n hne] at hdead
    cases hdead
  one := fun n m hn hm => h.one n m (halive n hn) (halive m hm)

/-- The only call of `open` is at this stage. -/
theorem stage_of_single {stage stage' : Stage} (hopens : s.opens = [stage])
    (hk : s.opens[k]? = some stage') : k = 0 ∧ stage' = stage := by
  rw [hopens] at hk
  cases k with
  | zero => exact ⟨rfl, (Option.some.inj hk).symm⟩
  | succ k => cases hk

end Frames

/-- Everything a step can do. -/
inductive Does (s : State) : Label → State → Prop
  | connected {k : ℕ} (hk : s.opens[k]? = some .connecting) :
      Does s (.connected k)
        { s with
          conns := Function.update s.conns s.made ⟨true, false, false⟩
          made := s.made + 1
          opens := s.opens.set k (.creating s.made) }
  | fails {l : Label} {k : ℕ} {stage : Stage} (hk : s.opens[k]? = some stage) : Does s l (fail k s)
  | channelCreated {k n : ℕ} (hk : s.opens[k]? = some (.creating n)) :
      Does s (.channelCreated k)
        { setConn n (fun c => { c with channel := true }) s with
          opens := s.opens.set k (.asserting n topologyCalls) }
  | asserted {k n : ℕ} {call : Call} {rest : List Call} {stage : Stage}
      (hk : s.opens[k]? = some (.asserting n (call :: rest))) (hstage : stage.conn = some n) :
      Does s (.asserted k) { s with opens := s.opens.set k stage }
  | refused {k n : ℕ} {rest : List Call} (hk : s.opens[k]? = some (.asserting n rest)) :
      Does s (.refused k) (fail k (setConn n (fun c => { c with channel := false }) s))
  | resumed {k n : ℕ} (hk : s.opens[k]? = some (.answered n)) : Does s (.resumed k) (finish k n s)
  | heard {n : ℕ} (halive : (s.conns n).alive = true) (hlistening : (s.conns n).listening = true) :
      Does s (.connectionClosed n)
        (onConnectionClosed (setConn n (fun c => { c with alive := false, channel := false }) s))
  | unheard {n : ℕ} (halive : (s.conns n).alive = true) (hquiet : (s.conns n).listening = false) :
      Does s (.connectionClosed n) (setConn n (fun c => { c with alive := false, channel := false }) s)
  | channelClosed {n : ℕ} (halive : (s.conns n).alive = true) :
      Does s (.channelClosed n) (setConn n (fun c => { c with channel := false }) s)
  | timerFired {delay : ℕ} (htimer : s.timer = some delay) :
      Does s .timerFired { s with timer := none, opens := s.opens ++ [.connecting] }

theorem next_does {s t : State} {l : Label} (h : next l s = some t) : Does s l t := by
  cases l with
  | connected k =>
      simp only [next] at h
      split at h
      · next hk =>
          cases h
          exact .connected hk
      · cases h
  | connectFailed k =>
      simp only [next] at h
      split at h
      · next hk =>
          cases h
          exact .fails hk
      · cases h
  | channelCreated k =>
      simp only [next] at h
      split at h
      · next n hk =>
          split_ifs at h
          cases h
          exact .channelCreated hk
      · cases h
  | createFailed k =>
      simp only [next] at h
      split at h
      · next hk =>
          cases h
          exact .fails hk
      · cases h
  | asserted k =>
      simp only [next] at h
      split at h
      · next n _ rest hk =>
          split_ifs at h
          · cases h
            exact .asserted hk rfl
          · cases h
            exact .asserted hk rfl
      · cases h
  | refused k =>
      simp only [next] at h
      split at h
      · next hk =>
          cases h
          exact .refused hk
      · cases h
  | resumed k =>
      simp only [next] at h
      split at h
      · next hk =>
          cases h
          exact .resumed hk
      · cases h
  | connectionClosed n =>
      simp only [next] at h
      split_ifs at h with halive hlistening
      · cases h
        exact .heard halive hlistening
      · cases h
        exact .unheard halive (Bool.eq_false_iff.mpr hlistening)
  | channelClosed n =>
      simp only [next] at h
      split_ifs at h with hopen
      cases h
      exact .channelClosed ((Bool.and_eq_true _ _).mp hopen).1
  | timerFired =>
      simp only [next] at h
      split at h
      · next htimer =>
          cases h
          exact .timerFired htimer
      · cases h

section Phases
variable {s t : State} {l : Label}

theorem Phase.notStuck (h : Phase s) : NotStuck s := by
  cases h with
  | opening stage hopens _ hunlinked _ => exact ⟨hunlinked.one, .inr (.inr (by simp [hopens]))⟩
  | waiting _ htimer hunlinked => exact ⟨hunlinked.one, .inr (.inl htimer)⟩
  | linked n _ _ hchannel halive hopen _ hone =>
      refine ⟨fun m m' hm hm' => ?_, .inl ⟨n, hchannel, halive, hopen⟩⟩
      exact (hone m hm).trans (hone m' hm').symm

/-- The `catch` of the only call of `open` sets the timer. -/
theorem Phase.of_fail {k : ℕ} {stage : Stage} (hopens : s.opens = [stage]) (hk : k = 0)
    (hunlinked : Unlinked s) : Phase (fail k s) := by
  subst hk
  refine .waiting ?_ (scheduleReconnect_timer _) (hunlinked.mono ?_ (fun n hn => ?_) fun n => ?_)
  · simp [fail, hopens]
  · simpa [fail] using hunlinked.channel
  · simpa [fail] using hn
  · simp [fail]

/-- What a step does where one call of `open` is under way. -/
theorem Phase.next_opening {stage : Stage} (hopens : s.opens = [stage]) (htimer : s.timer = none)
    (hunlinked : Unlinked s)
    (hown : ∀ n m, stage.conn = some n → (s.conns m).alive = true → m = n) (hnumbered : Numbered s)
    (h : Does s l t) (hspared : spared l s = true) : Phase t := by
  cases h with
  | @connected k hk =>
      obtain ⟨rfl, -⟩ := stage_of_single hopens hk
      have hdead : ∀ m, (s.conns m).alive = false := by
        intro m
        by_contra hne
        rw [Bool.not_eq_false] at hne
        have hm := List.all_eq_true.mp hspared m (List.mem_range.mpr (hnumbered m hne))
        rw [hne] at hm
        cases hm
      have hone : ∀ m, (Function.update s.conns s.made ⟨true, false, false⟩ m).alive = true →
          m = s.made := by
        intro m hm
        by_contra hne
        rw [Function.update_of_ne hne, hdead m] at hm
        cases hm
      refine .opening (.creating s.made) (by simp [hopens]) htimer
        ⟨hunlinked.channel, fun n hn => ?_, fun n m hn hm => (hone n hn).trans (hone m hm).symm⟩
        fun n m hn hm => ?_
      · dsimp only at hn ⊢
        by_cases hne : n = s.made
        · rw [hne, Function.update_self] at hn
          cases hn
        · rw [Function.update_of_ne hne] at hn ⊢
          exact hunlinked.quiet n hn
      · cases hn
        exact hone m hm
  | fails hk => exact .of_fail hopens (stage_of_single hopens hk).1 hunlinked
  | @channelCreated k n hk =>
      obtain ⟨rfl, rfl⟩ := stage_of_single hopens hk
      have halive : ∀ m, ((setConn n (fun c => { c with channel := true }) s).conns m).alive = true →
          (s.conns m).alive = true := fun m => alive_setConn fun hm => hm
      have hlistening : ∀ m, ((setConn n (fun c => { c with channel := true }) s).conns
          m).listening = (s.conns m).listening := fun m => listening_setConn rfl
      refine .opening (.asserting n topologyCalls) (by simp [hopens]) htimer
        (hunlinked.mono hunlinked.channel halive hlistening) fun n' m hn' hm => ?_
      exact hown n' m hn' (halive m hm)
  | @asserted k n call rest stage' hk hstage =>
      obtain ⟨rfl, rfl⟩ := stage_of_single hopens hk
      refine .opening stage' (by simp [hopens]) htimer
        ⟨hunlinked.channel, hunlinked.quiet, hunlinked.one⟩ fun n' m hn' hm => ?_
      exact hown n' m (hstage.symm.trans hn') hm
  | @refused k n rest hk =>
      have hopens' : (setConn n (fun c => { c with channel := false }) s).opens = [stage] := hopens
      refine .of_fail hopens' (stage_of_single hopens hk).1 ?_
      exact hunlinked.mono hunlinked.channel (fun m => alive_setConn fun hm => hm) fun m =>
        listening_setConn rfl
  | @resumed k n hk =>
      obtain ⟨rfl, rfl⟩ := stage_of_single hopens hk
      simp only [spared, hk, Bool.and_eq_true] at hspared
      obtain ⟨halive, hopen⟩ := hspared
      refine .linked n (by simp [finish, hopens]) htimer rfl ?_ ?_ ?_ fun m hm => ?_
      · rw [finish_conns, setConn_self]
        exact halive
      · rw [finish_conns, setConn_self]
        exact hopen
      · rw [finish_conns, setConn_self]
      · rw [finish_conns] at hm
        exact hown n m rfl (alive_setConn (fun hm => hm) hm)
  | @heard n halive hlistening =>
      rw [hunlinked.quiet n hlistening] at halive
      cases halive
  | @unheard n =>
      have hless : ∀ m, ((setConn n (fun c => { c with alive := false, channel := false }) s).conns
          m).alive = true → (s.conns m).alive = true := fun m => alive_setConn (by simp)
      exact .opening stage hopens htimer
        (hunlinked.mono hunlinked.channel hless fun m => listening_setConn rfl)
        fun n' m hn' hm => hown n' m hn' (hless m hm)
  | @channelClosed n =>
      have hless : ∀ m, ((setConn n (fun c => { c with channel := false }) s).conns m).alive = true →
          (s.conns m).alive = true := fun m => alive_setConn fun hm => hm
      exact .opening stage hopens htimer
        (hunlinked.mono hunlinked.channel hless fun m => listening_setConn rfl)
        fun n' m hn' hm => hown n' m hn' (hless m hm)
  | timerFired hset =>
      rw [htimer] at hset
      cases hset

/-- Where no call of `open` is under way, no answer reaches one. -/
theorem no_stage {k : ℕ} {stage : Stage} (hopens : s.opens = []) (hk : s.opens[k]? = some stage) :
    False := by
  rw [hopens] at hk
  cases hk

theorem Phase.next_waiting (hopens : s.opens = []) (htimer : s.timer ≠ none) (hunlinked : Unlinked s)
    (h : Does s l t) : Phase t := by
  cases h with
  | @heard n halive hlistening =>
      rw [hunlinked.quiet n hlistening] at halive
      cases halive
  | unheard =>
      exact .waiting hopens htimer (hunlinked.mono hunlinked.channel
        (fun m => alive_setConn (by simp)) fun m => listening_setConn rfl)
  | channelClosed =>
      exact .waiting hopens htimer (hunlinked.mono hunlinked.channel
        (fun m => alive_setConn fun hm => hm) fun m => listening_setConn rfl)
  | timerFired =>
      refine .opening .connecting (by simp [hopens]) rfl
        ⟨hunlinked.channel, hunlinked.quiet, hunlinked.one⟩ fun n m hn => ?_
      cases hn
  | connected hk => exact (no_stage hopens hk).elim
  | fails hk => exact (no_stage hopens hk).elim
  | channelCreated hk => exact (no_stage hopens hk).elim
  | asserted hk => exact (no_stage hopens hk).elim
  | refused hk => exact (no_stage hopens hk).elim
  | resumed hk => exact (no_stage hopens hk).elim

theorem Phase.next_linked {n : ℕ} (hopens : s.opens = []) (htimer : s.timer = none)
    (hchannel : s.channel = some n) (hlistening : (s.conns n).listening = true)
    (hone : ∀ m, (s.conns m).alive = true → m = n) (h : Does s l t)
    (hspared : spared l s = true) : Phase t := by
  cases h with
  | @heard m hm =>
      have hmn : m = n := hone m hm
      subst hmn
      have hdead : ∀ m', ((setConn m (fun c => { c with alive := false, channel := false }) s).conns
          m').alive = false := by
        intro m'
        by_cases hm' : m' = m
        · rw [hm', setConn_self]
        · rw [setConn_ne hm']
          by_contra hne
          rw [Bool.not_eq_false] at hne
          exact hm' (hone m' hne)
      refine .waiting ?_ (scheduleReconnect_timer _) ⟨?_, fun m' _ => ?_, fun m' m'' hm' => ?_⟩
      · simpa [onConnectionClosed, setConn] using hopens
      · simp [onConnectionClosed]
      · simpa [onConnectionClosed] using hdead m'
      · have hcontra := hdead m'
        simp only [onConnectionClosed, scheduleReconnect_conns] at hm'
        rw [hcontra] at hm'
        cases hm'
  | @unheard m hm hquiet =>
      rw [hone m hm, hlistening] at hquiet
      cases hquiet
  | @channelClosed m hm =>
      rw [hone m hm] at hspared
      exact absurd hchannel (of_decide_eq_true hspared)
  | timerFired hset =>
      rw [htimer] at hset
      cases hset
  | connected hk => exact (no_stage hopens hk).elim
  | fails hk => exact (no_stage hopens hk).elim
  | channelCreated hk => exact (no_stage hopens hk).elim
  | asserted hk => exact (no_stage hopens hk).elim
  | refused hk => exact (no_stage hopens hk).elim
  | resumed hk => exact (no_stage hopens hk).elim

theorem Phase.next (hs : Phase s) (hnumbered : Numbered s) (h : BrokerLink.next l s = some t)
    (hspared : spared l s = true) : Phase t := by
  cases hs with
  | opening stage hopens htimer hunlinked hown =>
      exact .next_opening hopens htimer hunlinked hown hnumbered (next_does h) hspared
  | waiting hopens htimer hunlinked => exact .next_waiting hopens htimer hunlinked (next_does h)
  | linked n hopens htimer hchannel _ _ hlistening hone =>
      exact .next_linked hopens htimer hchannel hlistening hone (next_does h) hspared

/-! ## A step that is not spared leaves the link stuck -/

/-- A connection made beside an open one. -/
theorem stuck_connected {k n : ℕ} (hopen : (s.conns n).alive = true) (hfresh : n ≠ s.made)
    (h : BrokerLink.next (.connected k) s = some t) : ¬ NotStuck t := by
  intro hstuck
  simp only [BrokerLink.next] at h
  split at h
  · cases h
    refine hfresh (hstuck.one n s.made ?_ ?_)
    · dsimp only
      rw [Function.update_of_ne hfresh]
      exact hopen
    · dsimp only
      rw [Function.update_self]
  · cases h

/-- A dead channel is stored and nothing is under way. -/
theorem stuck_dead {n : ℕ} (hopens : s.opens = []) (htimer : s.timer = none)
    (hchannel : s.channel = some n)
    (hdead : ¬ ((s.conns n).alive = true ∧ (s.conns n).channel = true)) : ¬ NotStuck s := by
  intro hstuck
  rcases hstuck.linked with ⟨m, hm, halive, hopen⟩ | hset | hunder
  · have hmn : m = n := Option.some.inj (hm.symm.trans hchannel)
    exact hdead (hmn ▸ ⟨halive, hopen⟩)
  · exact hset htimer
  · exact hunder hopens

/-- `open` ends on a connection or a channel that is no longer open. -/
theorem stuck_resumed {stage : Stage} {k n : ℕ} (hopens : s.opens = [stage]) (htimer : s.timer = none)
    (hk : s.opens[k]? = some (.answered n))
    (hdead : ¬ ((s.conns n).alive = true ∧ (s.conns n).channel = true))
    (h : BrokerLink.next (.resumed k) s = some t) : ¬ NotStuck t := by
  obtain ⟨rfl, -⟩ := stage_of_single hopens hk
  simp only [BrokerLink.next, hk, Option.some.injEq] at h
  subst h
  refine stuck_dead (n := n) (by simp [finish, hopens]) htimer rfl ?_
  rw [finish_conns, setConn_self]
  exact hdead

/-- The stored channel closes and the connection does not. -/
theorem stuck_channelClosed {n : ℕ} (hopens : s.opens = []) (htimer : s.timer = none)
    (hchannel : s.channel = some n) (h : BrokerLink.next (.channelClosed n) s = some t) :
    ¬ NotStuck t := by
  simp only [BrokerLink.next] at h
  split_ifs at h
  cases h
  refine stuck_dead hopens htimer hchannel ?_
  rw [setConn_self]
  exact fun hdead => Bool.false_ne_true hdead.2

/-- Only a new connection is opened, and it has the next number. -/
theorem Does.alive (h : Does s l t) {n : ℕ} (hn : (t.conns n).alive = true) :
    (s.made ≤ t.made ∧ (s.conns n).alive = true) ∨ n < t.made := by
  cases h with
  | connected hk =>
      dsimp only at hn ⊢
      by_cases hne : n = s.made
      · exact .inr (hne ▸ Nat.lt_succ_self _)
      · rw [Function.update_of_ne hne] at hn
        exact .inl ⟨Nat.le_succ _, hn⟩
  | fails hk => exact .inl ⟨by simp [fail], by simpa [fail] using hn⟩
  | channelCreated hk =>
      dsimp only at hn
      exact .inl ⟨le_rfl, alive_setConn (fun hm => hm) hn⟩
  | asserted hk => exact .inl ⟨le_rfl, hn⟩
  | refused hk =>
      simp only [fail, scheduleReconnect_conns] at hn
      exact .inl ⟨by simp [fail, setConn], alive_setConn (fun hm => hm) hn⟩
  | resumed hk =>
      rw [finish_conns] at hn
      exact .inl ⟨le_rfl, alive_setConn (fun hm => hm) hn⟩
  | heard =>
      simp only [onConnectionClosed, scheduleReconnect_conns] at hn
      exact .inl ⟨by simp [onConnectionClosed, setConn], alive_setConn (by simp) hn⟩
  | unheard => exact .inl ⟨le_rfl, alive_setConn (by simp) hn⟩
  | channelClosed => exact .inl ⟨le_rfl, alive_setConn (fun hm => hm) hn⟩
  | timerFired => exact .inl ⟨le_rfl, hn⟩

theorem Numbered.next (hs : Numbered s) (h : BrokerLink.next l s = some t) : Numbered t := by
  intro n hn
  rcases (next_does h).alive hn with ⟨hle, hold⟩ | hnew
  · exact (hs n hold).trans_le hle
  · exact hnew

theorem not_spared (hs : Phase s) (hnumbered : Numbered s) (h : BrokerLink.next l s = some t)
    (hspared : spared l s = false) : ¬ NotStuck t := by
  cases l with
  | connected k =>
      obtain ⟨n, -, hn⟩ := List.all_eq_false.mp hspared
      have halive : (s.conns n).alive = true := by simpa using hn
      exact stuck_connected halive (hnumbered n halive).ne h
  | resumed k =>
      simp only [spared] at hspared
      split at hspared
      · next n hk =>
          have hdead : ¬ ((s.conns n).alive = true ∧ (s.conns n).channel = true) := by
            rw [← Bool.and_eq_true, hspared]
            exact Bool.false_ne_true
          cases hs with
          | opening stage hopens htimer _ _ => exact stuck_resumed hopens htimer hk hdead h
          | waiting hopens _ _ => simp [hopens] at hk
          | linked _ hopens => simp [hopens] at hk
      · cases hspared
  | channelClosed n =>
      have hstored : s.channel = some n := not_not.mp (of_decide_eq_false hspared)
      cases hs with
      | opening stage _ _ hunlinked _ => cases hunlinked.channel.symm.trans hstored
      | waiting _ _ hunlinked => cases hunlinked.channel.symm.trans hstored
      | linked m hopens htimer _ _ _ _ _ => exact stuck_channelClosed hopens htimer hstored h
  | _ => cases hspared

end Phases

theorem start_numbered : Numbered start := by
  intro n hn
  cases hn

/-- A run is never stuck exactly when each of its steps is spared. -/
theorem link_not_stuck_iff {tr : List (Event Label State)} {s : State} (h : Run next start tr s) :
    (NotStuck start ∧ ∀ e ∈ tr, NotStuck e.post) ↔ ∀ e ∈ tr, spared e.label e.pre = true := by
  refine ⟨fun hall => ?_, fun hspared => ?_⟩
  · have hinv : Phase s ∧ Numbered s ∧ ∀ e ∈ tr, spared e.label e.pre = true := by
      refine h.history (fun e => NotStuck e.post)
        (fun tr s => Phase s ∧ Numbered s ∧ ∀ e ∈ tr, spared e.label e.pre = true) ?_ ?_ hall.2
      · exact ⟨start_phase, start_numbered, fun e he => absurd he List.not_mem_nil⟩
      · rintro tr l s t ⟨hs, hnumbered, hbefore⟩ hnext hpost
        have hl : spared l s = true := by
          by_contra hnot
          exact not_spared hs hnumbered hnext (Bool.eq_false_iff.mpr hnot) hpost
        refine ⟨hs.next hnumbered hnext hl, hnumbered.next hnext, fun e he => ?_⟩
        rcases List.mem_append.mp he with hold | hnew
        · exact hbefore e hold
        · rw [List.mem_singleton.mp hnew]
          exact hl
    exact hinv.2.2
  · have hevents := (h.invariant_events (fun e => spared e.label e.pre = true)
      (fun s => Phase s ∧ Numbered s) ⟨start_phase, start_numbered⟩
      (fun _ _ _ hs hnext hl => ⟨hs.1.next hs.2 hnext hl, hs.2.next hnext⟩) hspared).2
    exact ⟨start_phase.notStuck, fun e he => (hevents e he).2.1.notStuck⟩

/-- `open` gets all its answers. -/
def opened : List Label :=
  [.connected 0, .channelCreated 0] ++ topologyCalls.map (fun _ => .asserted 0) ++ [.resumed 0]

/-- The link survives a broker that goes away and comes back. -/
theorem link_not_stuck_iff_reconnect : ∃ tr s, Run next start tr s ∧
    tr.map Event.label =
      opened ++ [.connectionClosed 0, .timerFired, .connectFailed 0, .timerFired] ++ opened ∧
    s.channel = some 1 ∧ NotStuck start ∧ ∀ e ∈ tr, NotStuck e.post := by
  obtain ⟨tr, s, hrun, hlabels, hs⟩ := Run.of_trace_map next
    (opened ++ [.connectionClosed 0, .timerFired, .connectFailed 0, .timerFired] ++ opened) start
    (fun tr s => (s.channel, tr.all fun e => spared e.label e.pre)) (some 1, true) (by decide)
  have hspared : ∀ e ∈ tr, spared e.label e.pre = true :=
    List.all_eq_true.mp (congrArg Prod.snd hs)
  exact ⟨tr, s, hrun, hlabels, congrArg Prod.fst hs, (link_not_stuck_iff hrun).mpr hspared⟩

/-- A run that leaves a dead channel of the first connection stored, with nothing under way. -/
theorem run_stuck (ls : List Label)
    (h : (trace next ls start).map (fun r => (r.2.channel, (r.2.conns 0).channel, r.2.timer,
      r.2.opens.isEmpty)) = some (some 0, false, none, true)) :
    ∃ tr s, Run next start tr s ∧ tr.map Event.label = ls ∧ s.channel = some 0 ∧
      (s.conns 0).channel = false ∧ ¬ NotStuck s := by
  obtain ⟨tr, s, hrun, hlabels, hs⟩ := Run.of_trace_map next ls start
    (fun _ s => (s.channel, (s.conns 0).channel, s.timer, s.opens.isEmpty)) _ h
  have hchannel : s.channel = some 0 := congrArg Prod.fst hs
  have hclosed : (s.conns 0).channel = false := congrArg (fun r => r.2.1) hs
  have htimer : s.timer = none := congrArg (fun r => r.2.2.1) hs
  have hopens : s.opens.isEmpty = true := congrArg (fun r => r.2.2.2) hs
  refine ⟨tr, s, hrun, hlabels, hchannel, hclosed, ?_⟩
  exact stuck_dead (List.isEmpty_iff.mp hopens) htimer hchannel (by simp [hclosed])

/-- A refused assertion leaves its connection open and the next `open` makes a second one; a
channel that closes on its own, or a connection that closes before it is listened to, stays
stored with no reconnect under way. -/
theorem link_stuck :
    (∃ tr s, Run next start tr s ∧
      tr.map Event.label =
        [.connected 0, .channelCreated 0, .refused 0, .timerFired, .connected 0] ∧
      (s.conns 0).alive = true ∧ (s.conns 1).alive = true ∧ ¬ NotStuck s) ∧
    (∃ tr s, Run next start tr s ∧ tr.map Event.label = opened ++ [.channelClosed 0] ∧
      s.channel = some 0 ∧ (s.conns 0).channel = false ∧ ¬ NotStuck s) ∧
    ∃ tr s, Run next start tr s ∧
      tr.map Event.label = opened.dropLast ++ [.connectionClosed 0, .resumed 0] ∧
      s.channel = some 0 ∧ (s.conns 0).channel = false ∧ ¬ NotStuck s := by
  refine ⟨?_, run_stuck _ (by decide), run_stuck _ (by decide)⟩
  obtain ⟨tr, s, hrun, hlabels, hs⟩ := Run.of_trace_map next
    [.connected 0, .channelCreated 0, .refused 0, .timerFired, .connected 0] start
    (fun _ s => ((s.conns 0).alive, (s.conns 1).alive)) (true, true) (by decide)
  have hzero : (s.conns 0).alive = true := congrArg Prod.fst hs
  have hone : (s.conns 1).alive = true := congrArg Prod.snd hs
  refine ⟨tr, s, hrun, hlabels, hzero, hone, fun hstuck => ?_⟩
  exact absurd (hstuck.one 0 1 hzero hone) (by decide)

end MaxOne.BrokerLink
