import MaxOne.Library.Edges
import MaxOne.Library.Runs

/-!
# The operations watcher

`OpsWatchService.refresh` takes a snapshot and watches two numbers of it. What a
snapshot reads is the label of a step: the broker's channel with the answer to
`checkQueue`, the outbox, the clock. A call whose snapshot has come runs to its
end without a pause, so calls that overlap are steps in the order they finish.

A number that is in breach is reported once and its recovery once. The watcher
follows the last snapshot. It is truthful as long as no snapshot comes without the
depth of the dead letter queue while that queue is in breach.
-/
namespace MaxOne.OpsWatch
open Library.Edges Library.Runs

def outboxPendingAgeLimitS : ℤ := 60

/-- `QUEUES.notificationsPushDead`. -/
def notificationsPushDead : String := "notifications.push.dead"

structure OpsSnapshot where
  redisUp : Bool
  rabbitmqUp : Bool
  outboxPending : ℕ
  outboxOldestPendingSec : ℤ
  deadLetters : ℕ
  deriving DecidableEq, Repr

/-- What one snapshot reads: the reply to PING, the channel with its answer, whether
there is a channel when all reads have come, the rows of the outbox and the time. -/
structure Reads where
  pong : Option String
  channel : Option (Except String ℕ)
  isConnected : Bool
  pendingCount : Except String ℕ
  oldest : Except String (Option ℤ)
  oldestFailsFirst : Bool
  now : ℤ

/-- `QueueService.depth`: `none` without a channel and after an exception. -/
def depth (channel : Option (Except String ℕ)) : Option ℕ := channel.bind Except.toOption

/-- `createdAt` of the oldest pending row, in whole seconds before now. -/
def ageSec (now : ℤ) : Option ℤ → ℤ
  | none => 0
  | some createdAt => (now - createdAt) / 1000

/-- Of two queries that fail the first failure counts. -/
def snapshot (r : Reads) : Except String OpsSnapshot :=
  match r.pendingCount, r.oldest with
  | .ok pendingCount, .ok oldest =>
      .ok { redisUp := r.pong = some "PONG"
            rabbitmqUp := r.isConnected
            outboxPending := pendingCount
            outboxOldestPendingSec := ageSec r.now oldest
            deadLetters := (depth r.channel).getD 0 }
  | .error e, .ok _ => .error e
  | .ok _, .error e => .error e
  | .error e, .error e' => .error (if r.oldestFailsFirst then e' else e)

structure Gauges where
  outboxPending : ℕ
  outboxOldest : ℤ
  deadLetters : ℕ
  redisUp : ℕ
  rabbitmqUp : ℕ
  deriving DecidableEq, Repr

structure OpsWatchService where
  gauges : Gauges
  breached : Finset String
  deriving DecidableEq

def start : OpsWatchService := ⟨⟨0, 0, 0, 0, 0⟩, ∅⟩

/-- An alert goes to the log and to Sentry as `ALERT <key>: <message>`. -/
inductive Report where
  | warn (text : String)
  | alert (key message : String)
  | recovered (key : String)
  deriving DecidableEq, Repr

/-- A state with what was reported on the way to it. -/
structure Watched where
  service : OpsWatchService
  reports : List Report

def watch (key : String) (isBreached : Bool) (message : String) (s : OpsWatchService) : Watched :=
  if isBreached ∧ key ∉ s.breached then
    ⟨{ s with breached := insert key s.breached }, [.alert key message]⟩
  else if ¬ isBreached ∧ key ∈ s.breached then
    ⟨{ s with breached := s.breached.erase key }, [.recovered key]⟩
  else ⟨s, []⟩

def setGauges (snap : OpsSnapshot) (s : OpsWatchService) : OpsWatchService :=
  { s with gauges :=
      { outboxPending := snap.outboxPending
        outboxOldest := snap.outboxOldestPendingSec
        deadLetters := snap.deadLetters
        redisUp := snap.redisUp.toNat
        rabbitmqUp := snap.rabbitmqUp.toNat } }

def deadLettersKey : String := "dead-letters"

def outboxStuckKey : String := "outbox-stuck"

def deadLettersMessage (snap : OpsSnapshot) : String :=
  toString snap.deadLetters ++ " message(s) in " ++ notificationsPushDead ++ " need a human"

def outboxStuckMessage (snap : OpsSnapshot) : String :=
  "oldest pending outbox event is " ++ toString snap.outboxOldestPendingSec ++ "s old (" ++
    toString snap.outboxPending ++ " pending) — events are not reaching the broker"

structure Refreshed where
  result : Option OpsSnapshot
  service : OpsWatchService
  reports : List Report

def refresh (r : Reads) (s : OpsWatchService) : Refreshed :=
  match snapshot r with
  | .error e => ⟨none, s, [.warn ("ops snapshot failed: " ++ e)]⟩
  | .ok snap =>
      let dead := watch deadLettersKey (0 < snap.deadLetters) (deadLettersMessage snap)
        (setGauges snap s)
      let stuck := watch outboxStuckKey (outboxPendingAgeLimitS < snap.outboxOldestPendingSec)
        (outboxStuckMessage snap) dead.service
      ⟨some snap, stuck.service, dead.reports ++ stuck.reports⟩

def next (r : Reads) (s : OpsWatchService) : Option OpsWatchService := some (refresh r s).service

abbrev Trace := List (Event Reads OpsWatchService)

/-- What was reported in a step. -/
def reports (e : Event Reads OpsWatchService) : List Report := (refresh e.label e.pre).reports

/-! ## The signals behind the reports -/

/-- The level a key is watched at; no other key is watched. -/
def OpsSnapshot.watched (snap : OpsSnapshot) (key : String) : Option Bool :=
  if key = deadLettersKey then some (0 < snap.deadLetters)
  else if key = outboxStuckKey then some (outboxPendingAgeLimitS < snap.outboxOldestPendingSec)
  else none

/-- The sample of a key a refresh acts on. -/
def sample (key : String) (r : Reads) : Option Bool :=
  (snapshot r).toOption.bind fun snap => snap.watched key

/-- A measurement of a key: of the dead letters there is none without their depth. -/
def measured (key : String) (r : Reads) : Option Bool :=
  if key = deadLettersKey ∧ depth r.channel = none then none else sample key r

/-- The edge a report tells of. -/
def Report.edge (key : String) : Report → Option Edge
  | warn _ => none
  | alert k _ => if k = key then some .rise else none
  | recovered k => if k = key then some .fall else none

def samples (key : String) (tr : Trace) : List Bool := tr.filterMap fun e => sample key e.label

def measurements (key : String) (tr : Trace) : List Bool :=
  tr.filterMap fun e => measured key e.label

/-- The alerts and recoveries of a key, in their order. -/
def reported (key : String) (tr : Trace) : List Edge :=
  tr.flatMap fun e => (reports e).filterMap (Report.edge key)

/-! ## One refresh -/

section Refresh
variable {key k message : String} {b : Bool} {s : OpsWatchService} {r : Reads} {snap : OpsSnapshot}

theorem watch_reports_self (s : OpsWatchService) :
    (watch key b message s).reports.filterMap (Report.edge key) =
      (edge (decide (key ∈ s.breached)) b).toList := by
  unfold watch
  by_cases hmem : key ∈ s.breached
  · cases b <;> simp [hmem, edge, Report.edge]
  · cases b <;> simp [hmem, edge, Report.edge]

theorem watch_reports_other (s : OpsWatchService) (hk : k ≠ key) :
    (watch k b message s).reports.filterMap (Report.edge key) = [] := by
  unfold watch
  split_ifs <;> simp [Report.edge, hk]

theorem watch_breached_self (s : OpsWatchService) :
    key ∈ (watch key b message s).service.breached ↔ b = true := by
  unfold watch
  by_cases hmem : key ∈ s.breached
  · cases b <;> simp [hmem]
  · cases b <;> simp [hmem]

theorem watch_breached_other (s : OpsWatchService) (hk : k ≠ key) :
    key ∈ (watch k b message s).service.breached ↔ key ∈ s.breached := by
  unfold watch
  split_ifs <;> simp [Ne.symm hk]

theorem decide_watch_other (s : OpsWatchService) (hk : k ≠ key) :
    decide (key ∈ (watch k b message s).service.breached) = decide (key ∈ s.breached) :=
  decide_eq_decide.mpr (watch_breached_other s hk)

theorem keys_ne : deadLettersKey ≠ outboxStuckKey := by decide

theorem sample_ok (h : snapshot r = .ok snap) : sample key r = snap.watched key := by
  rw [sample, h]
  rfl

theorem sample_error {e : String} (h : snapshot r = .error e) : sample key r = none := by
  rw [sample, h]
  rfl

theorem watched_deadLetters (snap : OpsSnapshot) :
    snap.watched deadLettersKey = some (decide (0 < snap.deadLetters)) := if_pos rfl

theorem watched_outboxStuck (snap : OpsSnapshot) : snap.watched outboxStuckKey =
    some (decide (outboxPendingAgeLimitS < snap.outboxOldestPendingSec)) := by
  rw [OpsSnapshot.watched, if_neg keys_ne.symm, if_pos rfl]

theorem watched_other (snap : OpsSnapshot) (hdead : key ≠ deadLettersKey)
    (hstuck : key ≠ outboxStuckKey) : snap.watched key = none := by
  rw [OpsSnapshot.watched, if_neg hdead, if_neg hstuck]

/-- The step lemma of the reports: a key without a sample is left alone, the edge to a
sample is told. -/
theorem refresh_reports (key : String) (r : Reads) (s : OpsWatchService) :
    (refresh r s).reports.filterMap (Report.edge key) =
      ((sample key r).bind (edge (decide (key ∈ s.breached)))).toList := by
  cases hsnap : snapshot r with
  | error e =>
      rw [sample_error hsnap, refresh, hsnap]
      rfl
  | ok snap =>
      rw [sample_ok hsnap, refresh, hsnap]
      simp only [List.filterMap_append]
      by_cases hdead : key = deadLettersKey
      · subst hdead
        rw [watch_reports_self, watch_reports_other _ keys_ne.symm, watched_deadLetters,
          List.append_nil]
        rfl
      · by_cases hstuck : key = outboxStuckKey
        · subst hstuck
          rw [watch_reports_other _ keys_ne, watch_reports_self, decide_watch_other _ keys_ne,
            watched_outboxStuck]
          rfl
        · rw [watch_reports_other _ (Ne.symm hdead), watch_reports_other _ (Ne.symm hstuck),
            watched_other snap hdead hstuck]
          rfl

/-- The step lemma of the state: the level of a key is its last sample. -/
theorem refresh_breached (key : String) (r : Reads) (s : OpsWatchService) :
    key ∈ (refresh r s).service.breached ↔ (sample key r).getD (decide (key ∈ s.breached)) = true := by
  cases hsnap : snapshot r with
  | error e =>
      rw [sample_error hsnap, refresh, hsnap]
      exact decide_eq_true_iff.symm
  | ok snap =>
      rw [sample_ok hsnap, refresh, hsnap]
      by_cases hdead : key = deadLettersKey
      · subst hdead
        rw [watched_deadLetters, Option.getD_some]
        exact (watch_breached_other _ keys_ne.symm).trans (watch_breached_self _)
      · by_cases hstuck : key = outboxStuckKey
        · subst hstuck
          rw [watched_outboxStuck, Option.getD_some]
          exact watch_breached_self _
        · rw [watched_other snap hdead hstuck, Option.getD_none, decide_eq_true_iff]
          exact (watch_breached_other _ (Ne.symm hstuck)).trans
            (watch_breached_other _ (Ne.symm hdead))

theorem rise_mem (l : List Report) :
    .rise ∈ l.filterMap (Report.edge key) ↔ ∃ message, .alert key message ∈ l := by
  rw [List.mem_filterMap]
  constructor
  · intro h
    obtain ⟨report, hmem, hedge⟩ := h
    cases report with
    | warn text => cases hedge
    | recovered k =>
        rw [Report.edge] at hedge
        split_ifs at hedge
        cases hedge
    | alert k message =>
        rw [Report.edge] at hedge
        split_ifs at hedge with hk
        rw [← hk]
        exact ⟨message, hmem⟩
  · intro h
    obtain ⟨message, hmem⟩ := h
    exact ⟨_, hmem, if_pos rfl⟩

theorem fall_mem (l : List Report) :
    .fall ∈ l.filterMap (Report.edge key) ↔ .recovered key ∈ l := by
  rw [List.mem_filterMap]
  constructor
  · intro h
    obtain ⟨report, hmem, hedge⟩ := h
    cases report with
    | warn text => cases hedge
    | alert k message =>
        rw [Report.edge] at hedge
        split_ifs at hedge
        cases hedge
    | recovered k =>
        rw [Report.edge] at hedge
        split_ifs at hedge with hk
        rw [← hk]
        exact hmem
  · intro h
    exact ⟨_, h, if_pos rfl⟩

theorem alert_mem (key : String) (r : Reads) (s : OpsWatchService) :
    (∃ message, .alert key message ∈ (refresh r s).reports) ↔
      sample key r = some true ∧ key ∉ s.breached := by
  rw [← rise_mem, refresh_reports, Option.mem_toList, Option.bind_eq_some_iff]
  simp only [edge_eq_rise, decide_eq_false_iff_not]
  constructor
  · intro h
    obtain ⟨b, hb, hmem, rfl⟩ := h
    exact ⟨hb, hmem⟩
  · intro h
    exact ⟨true, h.1, h.2, rfl⟩

theorem recovered_mem (key : String) (r : Reads) (s : OpsWatchService) :
    .recovered key ∈ (refresh r s).reports ↔ sample key r = some false ∧ key ∈ s.breached := by
  rw [← fall_mem, refresh_reports, Option.mem_toList, Option.bind_eq_some_iff]
  simp only [edge_eq_fall, decide_eq_true_iff]
  constructor
  · intro h
    obtain ⟨b, hb, hmem, rfl⟩ := h
    exact ⟨hb, hmem⟩
  · intro h
    exact ⟨false, h.1, h.2, rfl⟩

/-! ### Samples that are measurements -/

theorem measured_blind (h : depth r.channel = none) : measured deadLettersKey r = none :=
  if_pos ⟨rfl, h⟩

theorem deadLetters_eq (hsnap : snapshot r = .ok snap) :
    snap.deadLetters = (depth r.channel).getD 0 := by
  unfold snapshot at hsnap
  split at hsnap
  · rw [← Except.ok.inj hsnap]
  all_goals cases hsnap

/-- An unknown depth is sampled as an empty queue. -/
theorem sample_blind (hsnap : snapshot r = .ok snap) (h : depth r.channel = none) :
    sample deadLettersKey r = some false := by
  rw [sample_ok hsnap, watched_deadLetters, deadLetters_eq hsnap, h]
  rfl

theorem measured_true (key : String) (r : Reads) :
    measured key r = some true ↔ sample key r = some true := by
  by_cases hb : key = deadLettersKey ∧ depth r.channel = none
  · obtain ⟨rfl, hdepth⟩ := hb
    rw [measured_blind hdepth]
    cases hsnap : snapshot r with
    | error e => rw [sample_error hsnap]
    | ok snap => simp [sample_blind hsnap hdepth]
  · rw [measured, if_neg hb]

end Refresh

/-! ## Runs -/

section Runs
variable {tr : Trace} {s : OpsWatchService} {e : Event Reads OpsWatchService}

theorem samples_append (key : String) (tr : Trace) (e : Event Reads OpsWatchService) :
    samples key (tr ++ [e]) = samples key tr ++ (sample key e.label).toList := by
  rw [samples, List.filterMap_append]
  cases h : sample key e.label <;> simp [samples, h]

theorem measurements_append (key : String) (tr : Trace) (e : Event Reads OpsWatchService) :
    measurements key (tr ++ [e]) = measurements key tr ++ (measured key e.label).toList := by
  rw [measurements, List.filterMap_append]
  cases h : measured key e.label <;> simp [measurements, h]

theorem reported_append (key : String) (tr : Trace) (e : Event Reads OpsWatchService) :
    reported key (tr ++ [e]) = reported key tr ++ (reports e).filterMap (Report.edge key) := by
  simp [reported]

/-- The watcher refines the edge detector: it keeps the level of the last sample and
reports the edges of all. -/
theorem reported_eq_edges (h : Run next start tr s) (key : String) :
    decide (key ∈ s.breached) = level false (samples key tr) ∧
      reported key tr = edges false (samples key tr) := by
  induction h with
  | start => exact ⟨rfl, rfl⟩
  | @step tr s t r _ hn ih =>
      have hlevel := refresh_breached key r s
      have hreports := refresh_reports key r s
      have ht : (refresh r s).service = t := Option.some.inj hn
      rw [ht] at hlevel
      rw [samples_append, reported_append, reports, hreports, ih.2]
      cases hsample : sample key r with
      | none =>
          rw [hsample, Option.getD_none, decide_eq_true_iff] at hlevel
          rw [Option.toList_none, List.append_nil, decide_eq_decide.mpr hlevel]
          exact ⟨ih.1, List.append_nil _⟩
      | some b =>
          rw [hsample, Option.getD_some] at hlevel
          rw [Option.toList_some, level_append, edges_append, ih.1]
          exact ⟨by simp [hlevel], rfl⟩

theorem reported_alternate (h : Run next start tr s) (key : String) :
    Alternate false (reported key tr) := by
  rw [(reported_eq_edges h key).2]
  exact alternate_edges false _

/-- A snapshot comes without the depth of the queue that is in breach. -/
def Blind (e : Event Reads OpsWatchService) : Prop :=
  deadLettersKey ∈ e.pre.breached ∧ (snapshot e.label).isOk ∧ depth e.label.channel = none

/-- Alerts tell of what was measured, alerts and recoveries take turns, and the
recovery of the dead letters tells of a queue that was measured as empty. -/
structure Truthful (tr : Trace) : Prop where
  alert_iff : ∀ before e after, tr = before ++ e :: after → ∀ key,
    (∃ message, .alert key message ∈ reports e) ↔
      measured key e.label = some true ∧ (measurements key before).getLast? ≠ some true
  alternate : ∀ key, Alternate false (reported key tr)
  recovered : ∀ e ∈ tr, .recovered deadLettersKey ∈ reports e →
    (snapshot e.label).isOk ∧ depth e.label.channel = some 0

theorem isOk_of_sample {key : String} {r : Reads} {b : Bool} (h : sample key r = some b) :
    ∃ snap, snapshot r = .ok snap := by
  cases hsnap : snapshot r with
  | error e =>
      rw [sample_error hsnap] at h
      cases h
  | ok snap => exact ⟨snap, rfl⟩

/-- Without a blind snapshot the level of a key is its last measurement. -/
theorem breached_iff_measured (h : Run next start tr s) (hb : ∀ e ∈ tr, ¬ Blind e) (key : String) :
    key ∈ s.breached ↔ (measurements key tr).getLast? = some true := by
  induction h with
  | start => simp [start, measurements]
  | @step tr s t r _ hn ih =>
      have hpre := ih fun e he => hb e (List.mem_append_left _ he)
      have hlast := hb ⟨s, r, t⟩ (List.mem_append_right _ List.mem_cons_self)
      have hlevel := refresh_breached key r s
      have ht : (refresh r s).service = t := Option.some.inj hn
      rw [ht] at hlevel
      rw [hlevel, measurements_append]
      by_cases hblind : key = deadLettersKey ∧ depth r.channel = none
      · obtain ⟨rfl, hdepth⟩ := hblind
        rw [measured_blind hdepth, Option.toList_none, List.append_nil, ← hpre]
        cases hsnap : snapshot r with
        | error e => rw [sample_error hsnap, Option.getD_none, decide_eq_true_iff]
        | ok snap =>
            have hlow : deadLettersKey ∉ s.breached := fun hmem =>
              hlast ⟨hmem, by rw [hsnap]; rfl, hdepth⟩
            rw [sample_blind hsnap hdepth]
            simp [hlow]
      · rw [measured, if_neg hblind]
        cases hsample : sample key r with
        | none => rw [Option.getD_none, decide_eq_true_iff, Option.toList_none, List.append_nil, hpre]
        | some b => simp

theorem truthful_of_not_blind (h : Run next start tr s) (hb : ∀ e ∈ tr, ¬ Blind e) :
    Truthful tr where
  alert_iff := by
    intro before e after htr key
    have hrun := (h.split htr).1
    have hbefore := breached_iff_measured hrun (fun e' he' => hb e' (by simp [htr, he'])) key
    rw [reports, alert_mem, measured_true, hbefore]
  alternate := reported_alternate h
  recovered := by
    intro e he hrec
    rw [reports, recovered_mem] at hrec
    obtain ⟨snap, hsnap⟩ := isOk_of_sample hrec.1
    have hdepth : depth e.label.channel ≠ none := fun hnone =>
      hb e he ⟨hrec.2, by rw [hsnap]; rfl, hnone⟩
    rw [hsnap]
    refine ⟨rfl, ?_⟩
    have hlow := hrec.1
    rw [sample_ok hsnap, watched_deadLetters, deadLetters_eq hsnap] at hlow
    cases hd : depth e.label.channel with
    | none => exact absurd hd hdepth
    | some n => simpa [hd] using hlow

/-- A blind snapshot reports a recovery. -/
theorem not_truthful_of_blind {e : Event Reads OpsWatchService} (he : e ∈ tr) (hb : Blind e) :
    ¬ Truthful tr := by
  intro h
  obtain ⟨hmem, hok, hdepth⟩ := hb
  cases hsnap : snapshot e.label with
  | error err =>
      rw [hsnap] at hok
      cases hok
  | ok snap =>
      have hrec := (recovered_mem _ e.label e.pre).mpr ⟨sample_blind hsnap hdepth, hmem⟩
      have hzero := (h.recovered e he hrec).2
      rw [hdepth] at hzero
      cases hzero

/-- The watcher is truthful in exactly the runs without a blind snapshot. -/
theorem refresh_truthful_iff (h : Run next start tr s) : Truthful tr ↔ ∀ e ∈ tr, ¬ Blind e := by
  constructor
  · intro ht e he hb
    exact not_truthful_of_blind he hb ht
  · exact truthful_of_not_blind h

end Runs

/-- A snapshot of an empty outbox. -/
def deadLetterReads (channel : Option (Except String ℕ)) : Reads where
  pong := some "PONG"
  channel := channel
  isConnected := channel.isSome
  pendingCount := .ok 0
  oldest := .ok none
  oldestFailsFirst := false
  now := 0

/-- Two dead letters, seen twice, then none. -/
theorem refresh_truthful_measured : ∃ tr s, Run next start tr s ∧
    tr.map Event.label = [some (.ok 2), some (.ok 2), some (.ok 0)].map deadLetterReads ∧
      reported deadLettersKey tr = [.rise, .fall] ∧ Truthful tr := by
  obtain ⟨tr, s, hrun, hlabels, hg⟩ := Run.of_trace_map next
    ([some (.ok 2), some (.ok 2), some (.ok 0)].map deadLetterReads) start
    (fun tr _ => (reported deadLettersKey tr, tr.all fun e => (depth e.label.channel).isSome))
    ([.rise, .fall], true) (by decide)
  have hreported := (Prod.mk.inj hg).1
  have hdepths := List.all_eq_true.mp (Prod.mk.inj hg).2
  refine ⟨tr, s, hrun, hlabels, hreported, (refresh_truthful_iff hrun).mpr ?_⟩
  intro e he hb
  have hdepth := hdepths e he
  rw [hb.2.2] at hdepth
  cases hdepth

/-- Two dead letters; the broker is away for a while; the same two dead letters. -/
theorem refresh_recovers_unmeasured : ∃ tr s, Run next start tr s ∧
    tr.map Event.label = [some (.ok 2), none, some (.ok 2)].map deadLetterReads ∧
      reported deadLettersKey tr = [.rise, .fall, .rise] ∧ ¬ Truthful tr := by
  obtain ⟨tr, s, hrun, hlabels, hg⟩ := Run.of_trace_map next
    ([some (.ok 2), none, some (.ok 2)].map deadLetterReads) start
    (fun tr _ => (reported deadLettersKey tr, tr.any fun e =>
      decide (deadLettersKey ∈ e.pre.breached) && (snapshot e.label).isOk &&
        (depth e.label.channel).isNone))
    ([.rise, .fall, .rise], true) (by decide)
  have hreported := (Prod.mk.inj hg).1
  have hblind := List.any_eq_true.mp (Prod.mk.inj hg).2
  obtain ⟨e, he, hb⟩ := hblind
  simp only [Bool.and_eq_true, decide_eq_true_iff, Option.isNone_iff_eq_none] at hb
  exact ⟨tr, s, hrun, hlabels, hreported, not_truthful_of_blind he ⟨hb.1.1, hb.1.2, hb.2⟩⟩

end MaxOne.OpsWatch
