import MaxOne.Library.Runs
import MaxOne.Library.Table
import MaxOne.NotificationConsumer

/-!
# Acknowledgements across reconnects

One process that runs the consumer over `QueueService`, and the broker it talks
to. Channels are numbered as they are opened; the broker numbers the deliveries
of each channel from one. A message on its way to the process or in the hands of
a handler is `InFlight` under its delivery. `QueueService.ack` and `nack` speak
on whatever channel is current, under the tag of the delivery.

The broker may lose a channel before the process hears of it. What was not
acknowledged on a lost channel is queued again, and an unknown tag loses the
channel too.
-/
namespace MaxOne.ConsumerChannels
open Library Library.Runs Library.ScriptValue MaxOne.NotificationConsumer

/-- How many unacknowledged messages the consumer holds at once. -/
def prefetch : ℕ := 10

structure Delivery where
  channel : ℕ
  tag : ℕ
  deriving DecidableEq, Repr

structure Unacked where
  delivery : Delivery
  msg : AmqpMessage

/-- `none`: the message has not reached the process. -/
structure InFlight where
  delivery : Delivery
  msg : AmqpMessage
  stage : Option Stage

/-- An ack or nack for a delivery, and the channel it was sent on. -/
structure Verdict where
  delivery : Delivery
  channel : ℕ
  deriving DecidableEq, Repr

/-- `channel` is the field of `QueueService`; `live`, `consuming`, `tags`, `ready`
and `unacked` are the broker's; `settled` lists the deliveries it let go. -/
structure State where
  ready : List AmqpMessage
  opened : ℕ
  channel : Option ℕ
  live : ℕ → Bool
  consuming : ℕ → Bool
  tags : ℕ → ℕ
  unacked : Table Unacked Unacked.delivery
  inFlight : Table InFlight InFlight.delivery
  sent : List Verdict
  settled : List Delivery

def idle : State :=
  ⟨[], 0, none, fun _ => false, fun _ => false, fun _ => 0, .empty, .empty, [], []⟩

/-! ## The broker -/

/-- The broker loses a channel. -/
def lose (n : ℕ) (s : State) : State :=
  { s with
    live := Function.update s.live n false
    ready := s.ready ++ (s.unacked.rows.filter fun u => u.delivery.channel = n).map Unacked.msg
    unacked := s.unacked.deleteWhere fun u => u.delivery.channel = n }

/-- An ack or nack arrives on channel `d.channel` under `d.tag`. -/
def settle (d : Delivery) (requeue : Bool) (s : State) : State :=
  if s.live d.channel then
    match s.unacked.find d with
    | some u =>
        { s with
          ready := if requeue then s.ready ++ [u.msg] else s.ready
          unacked := s.unacked.deleteWhere fun u => u.delivery = d
          settled := d :: s.settled }
    | none => lose d.channel s
  else s

/-- The next message that is ready goes to channel `n`. -/
def deliver (n i : ℕ) (s : State) : Option State :=
  if s.live n ∧ s.consuming n ∧
      (s.unacked.rows.filter fun u => u.delivery.channel = n).length < prefetch then do
    let msg ← s.ready[i]?
    let d : Delivery := ⟨n, s.tags n + 1⟩
    let unacked ← s.unacked.insert ⟨d, msg⟩
    let inFlight ← s.inFlight.insert ⟨d, msg, none⟩
    some { s with
      ready := s.ready.eraseIdx i
      tags := Function.update s.tags n (s.tags n + 1)
      unacked := unacked
      inFlight := inFlight }
  else none

/-! ## The process -/

/-- `this.channel?.ack(msg)` and `this.channel?.nack(msg, false, requeue)`. -/
def verdict (d : Delivery) (requeue : Bool) (s : State) : State :=
  match s.channel with
  | none => s
  | some n => settle ⟨n, d.tag⟩ requeue { s with sent := ⟨d, n⟩ :: s.sent }

def perform (d : Delivery) (s : State) : Command → State
  | .ack => verdict d false s
  | .nack requeue => verdict d requeue s
  | _ => s

/-- The next turn of a handler; a message arrives on the current channel only. -/
def InFlight.turn (f : InFlight) (channel : Option ℕ) (reply : Reply) (published : Bool) :
    Option Turn :=
  match f.stage with
  | none => if channel = some f.delivery.channel then some (start f.msg) else none
  | some stage => resume f.msg published stage reply

def setStage (d : Delivery) (stage : Option Stage) (s : State) : State :=
  match stage with
  | some stage =>
      { s with inFlight := s.inFlight.modify d (fun f => { f with stage := some stage }) fun _ => rfl }
  | none => { s with inFlight := s.inFlight.deleteWhere fun f => f.delivery = d }

def takeTurn (d : Delivery) (reply : Reply) (published : Bool) (s : State) : Option State := do
  let f ← s.inFlight.find d
  let turn ← f.turn s.channel reply published
  some (setStage d turn.stage (turn.commands.foldl (perform d) s))

/-- `connected`, `subscribed` and `closed` are what `open`, `consume` and
`onConnectionClosed` do to the process; the other steps but `turned` are the
broker's. -/
inductive Label where
  | queued (msg : AmqpMessage)
  | connected
  | subscribed
  | delivered (n i : ℕ)
  | turned (d : Delivery) (reply : Reply) (published : Bool)
  | lost (n : ℕ)
  | closed

def next (l : Label) (s : State) : Option State :=
  match l with
  | .queued msg => some { s with ready := s.ready ++ [msg] }
  | .connected =>
      if s.channel = none then
        some { s with
          opened := s.opened + 1
          channel := some s.opened
          live := Function.update s.live s.opened true }
      else none
  | .subscribed => s.channel.map fun n => { s with consuming := Function.update s.consuming n true }
  | .delivered n i => deliver n i s
  | .turned d reply published => takeTurn d reply published s
  | .lost n => some (lose n s)
  | .closed => some { s with channel := none }

/-! ## What the channels promise -/

/-- Every ack and nack goes to the channel its message came on, and no message is
let go while its handler is at work. -/
structure Addressed (s : State) : Prop where
  channel : ∀ v ∈ s.sent, v.channel = v.delivery.channel
  finished : ∀ d ∈ s.settled, ∀ f ∈ s.inFlight.rows, f.delivery ≠ d

/-- A handler that speaks does so while its channel is current, or while none is. -/
def prompt (s : State) : Label → Bool
  | .turned d reply published =>
      (s.inFlight.find d).all fun f => (f.turn s.channel reply published).all fun turn =>
        !turn.commands.any Command.isVerdict || s.channel = none || s.channel = some d.channel
  | _ => true

/-- What holds in every state: tags in use have been given out. -/
structure Sound (s : State) : Prop extends Addressed s where
  issued : ∀ f ∈ s.inFlight.rows, f.delivery.tag ≤ s.tags f.delivery.channel
  counted : ∀ d ∈ s.settled, d.tag ≤ s.tags d.channel

/-- What the handler of `d` says changes nothing else. -/
structure Spoken (d : Delivery) (s t : State) : Prop where
  channel : t.channel = s.channel
  tags : t.tags = s.tags
  inFlight : t.inFlight = s.inFlight
  sent : ∀ v ∈ t.sent, v ∈ s.sent ∨ v = ⟨d, d.channel⟩
  settled : ∀ e ∈ t.settled, e ∈ s.settled ∨ e = d

section Steps
variable {d : Delivery} {s t u : State}

theorem Spoken.refl : Spoken d s s :=
  ⟨rfl, rfl, rfl, fun _ hv => .inl hv, fun _ he => .inl he⟩

theorem Spoken.trans (h : Spoken d s t) (k : Spoken d t u) : Spoken d s u where
  channel := k.channel.trans h.channel
  tags := k.tags.trans h.tags
  inFlight := k.inFlight.trans h.inFlight
  sent := fun v hv => (k.sent v hv).elim (h.sent v) .inr
  settled := fun e he => (k.settled e he).elim (h.settled e) .inr

theorem spoken_settle (requeue : Bool) : Spoken d s (settle d requeue s) := by
  unfold settle
  split
  · split
    · exact ⟨rfl, rfl, rfl, fun _ hv => .inl hv, fun _ he => (List.mem_cons.mp he).symm⟩
    · exact ⟨rfl, rfl, rfl, fun _ hv => .inl hv, fun _ he => .inl he⟩
  · exact .refl

/-- On its own channel a handler speaks for its own delivery. -/
theorem spoken_verdict (h : s.channel = none ∨ s.channel = some d.channel) (requeue : Bool) :
    Spoken d s (verdict d requeue s) := by
  unfold verdict
  split
  · exact .refl
  · next n hn =>
      have hchannel : n = d.channel := by
        rcases h with hnone | hown
        · rw [hn] at hnone
          cases hnone
        · exact Option.some.inj (hn.symm.trans hown)
      subst hchannel
      have hsaid : Spoken d s { s with sent := ⟨d, d.channel⟩ :: s.sent } :=
        ⟨rfl, rfl, rfl, fun _ hv => (List.mem_cons.mp hv).symm, fun _ he => .inl he⟩
      exact hsaid.trans (spoken_settle requeue)

theorem spoken_perform {commands : List Command}
    (h : commands.any Command.isVerdict = true → s.channel = none ∨ s.channel = some d.channel) :
    Spoken d s (commands.foldl (perform d) s) := by
  induction commands generalizing s with
  | nil => exact .refl
  | cons c commands ih =>
      have hfirst : Spoken d s (perform d s c) := by
        cases c with
        | ack => exact spoken_verdict (h rfl) false
        | nack requeue => exact spoken_verdict (h rfl) requeue
        | cacheGet key => exact .refl
        | sendToUser userId message => exact .refl
        | cacheSet key => exact .refl
        | publish key event count ok => exact .refl
      refine hfirst.trans (ih fun hrest => ?_)
      rw [hfirst.channel]
      exact h (by rw [List.any_cons, hrest, Bool.or_true])

/-- A handler that awaits something has not spoken yet. -/
theorem silent_of_awaits {f : InFlight} {channel : Option ℕ} {reply : Reply} {published : Bool}
    {turn : Turn} {stage : Stage} (h : f.turn channel reply published = some turn)
    (hstage : turn.stage = some stage) : turn.commands.any Command.isVerdict = false := by
  unfold InFlight.turn at h
  split at h
  · split at h
    · cases h
      unfold start at hstage ⊢
      split
      · next he => simp [he] at hstage
      · rfl
    · cases h
  · unfold resume at h
    split at h
    · cases h
      split
      · next hmarked => simp [hmarked] at hstage
      · rfl
    · cases h
      cases hstage
    · cases h
      rfl
    · cases h
      cases hstage
    · cases h

theorem Sound.delivered (h : Sound s) {n i : ℕ} (hn : deliver n i s = some t) : Sound t := by
  unfold deliver at hn
  split at hn
  · obtain ⟨msg, -, hn⟩ := Option.bind_eq_some_iff.mp hn
    obtain ⟨unacked, -, hn⟩ := Option.bind_eq_some_iff.mp hn
    obtain ⟨inFlight, hinsert, hn⟩ := Option.bind_eq_some_iff.mp hn
    cases hn
    have hgrow : ∀ e : Delivery, e.tag ≤ s.tags e.channel →
        e.tag ≤ Function.update s.tags n (s.tags n + 1) e.channel := by
      intro e he
      by_cases hc : e.channel = n
      · rw [hc, Function.update_self]
        rw [hc] at he
        exact he.trans (Nat.le_succ _)
      · rw [Function.update_of_ne hc]
        exact he
    refine ⟨⟨h.channel, fun d hd f hf => ?_⟩, fun f hf => ?_, fun d hd => hgrow d (h.counted d hd)⟩
    · rcases (Table.mem_insert hinsert).mp hf with hold | rfl
      · exact h.finished d hd f hold
      · intro he
        have hle := h.counted d hd
        rw [← he] at hle
        exact absurd hle (Nat.not_succ_le_self _)
    · rcases (Table.mem_insert hinsert).mp hf with hold | rfl
      · exact hgrow f.delivery (h.issued f hold)
      · simp only [Function.update_self, le_refl]
  · cases hn

theorem Sound.spoken (h : Sound s) (hs : Spoken d s t) {f : InFlight} (hf : s.inFlight.find d = some f)
    (hgone : t.settled = s.settled ∨ ∀ g ∈ u.inFlight.rows, g.delivery ≠ d)
    (hsent : u.sent = t.sent) (hsettled : u.settled = t.settled) (htags : u.tags = t.tags)
    (hin : ∀ g ∈ u.inFlight.rows, ∃ g' ∈ s.inFlight.rows, g'.delivery = g.delivery) : Sound u := by
  have hkey : f.delivery = d := Table.find_key hf
  refine ⟨⟨fun v hv => ?_, fun e he g hg => ?_⟩, fun g hg => ?_, fun e he => ?_⟩
  · rw [hsent] at hv
    rcases hs.sent v hv with hold | rfl
    · exact h.channel v hold
    · rfl
  · obtain ⟨g', hg', hsame⟩ := hin g hg
    rw [hsettled] at he
    rw [← hsame]
    rcases hs.settled e he with hold | rfl
    · exact h.finished e hold g' hg'
    · rcases hgone with hkept | hgone
      · rw [hkept] at he
        exact h.finished e he g' hg'
      · rw [hsame]
        exact hgone g hg
  · obtain ⟨g', hg', hsame⟩ := hin g hg
    rw [htags, hs.tags, ← hsame]
    exact h.issued g' hg'
  · rw [hsettled] at he
    rw [htags, hs.tags]
    rcases hs.settled e he with hold | rfl
    · exact h.counted e hold
    · rw [← hkey]
      exact h.issued f (Table.mem_of_find hf)

theorem perform_silent {commands : List Command} (h : commands.any Command.isVerdict = false) :
    commands.foldl (perform d) s = s := by
  induction commands with
  | nil => rfl
  | cons c commands ih =>
      rw [List.any_cons, Bool.or_eq_false_iff] at h
      have hkeep : perform d s c = s := by
        cases c with
        | ack => cases h.1
        | nack requeue => cases h.1
        | cacheGet key => rfl
        | sendToUser userId message => rfl
        | cacheSet key => rfl
        | publish key event count ok => rfl
      rw [List.foldl_cons, hkeep]
      exact ih h.2

theorem Sound.turned (h : Sound s) {reply : Reply} {published : Bool}
    (hn : takeTurn d reply published s = some t)
    (hprompt : prompt s (.turned d reply published) = true) : Sound t := by
  obtain ⟨f, hf, hn⟩ := Option.bind_eq_some_iff.mp hn
  obtain ⟨turn, hturn, hn⟩ := Option.bind_eq_some_iff.mp hn
  cases hn
  cases hstage : turn.stage with
  | some stage =>
      rw [perform_silent (silent_of_awaits hturn hstage)]
      refine h.spoken .refl hf (.inl rfl) rfl rfl rfl fun g hg => ?_
      have hmem : g ∈ (s.inFlight.modify d (fun f => { f with stage := some stage })
        fun _ => rfl).rows := hg
      rcases Table.mem_modify.mp hmem with ⟨hold, -⟩ | ⟨g', hg', rfl⟩
      · exact ⟨g, hold, rfl⟩
      · exact ⟨g', Table.mem_of_find hg', rfl⟩
  | none =>
      have hown : turn.commands.any Command.isVerdict = true →
          s.channel = none ∨ s.channel = some d.channel := by
        intro hverdict
        simpa [prompt, hf, hturn, hverdict] using hprompt
      have hspoken := spoken_perform hown
      refine h.spoken hspoken hf (.inr fun g hg => ?_) rfl rfl rfl fun g hg => ?_
      · simpa using (Table.mem_deleteWhere.mp hg).2
      · have hmem := (Table.mem_deleteWhere.mp hg).1
        rw [hspoken.inFlight] at hmem
        exact ⟨g, hmem, rfl⟩

theorem Sound.next {l : Label} (h : Sound s) (hn : ConsumerChannels.next l s = some t)
    (hprompt : prompt s l = true) : Sound t := by
  cases l with
  | queued msg =>
      cases hn
      exact ⟨⟨h.channel, h.finished⟩, h.issued, h.counted⟩
  | connected =>
      simp only [ConsumerChannels.next] at hn
      split at hn
      · cases hn
        exact ⟨⟨h.channel, h.finished⟩, h.issued, h.counted⟩
      · cases hn
  | subscribed =>
      obtain ⟨n, -, rfl⟩ := Option.map_eq_some_iff.mp hn
      exact ⟨⟨h.channel, h.finished⟩, h.issued, h.counted⟩
  | delivered n i => exact h.delivered hn
  | turned d reply published => exact h.turned hn hprompt
  | lost n =>
      cases hn
      exact ⟨⟨h.channel, h.finished⟩, h.issued, h.counted⟩
  | closed =>
      cases hn
      exact ⟨⟨h.channel, h.finished⟩, h.issued, h.counted⟩

end Steps

theorem sound_idle : Sound idle where
  channel := fun _ hv => absurd hv List.not_mem_nil
  finished := fun _ hd => absurd hd List.not_mem_nil
  issued := fun _ hf => absurd hf List.not_mem_nil
  counted := fun _ hd => absurd hd List.not_mem_nil

/-! ## Handlers that a reconnect overtakes -/

def atWork (s : State) : List Delivery :=
  (s.inFlight.rows.filter fun f => f.stage.isSome).map InFlight.delivery

/-- The handlers that were at work when the channel that is open was opened. -/
def overtaken (tr : List (Event Label State)) : List Delivery :=
  tr.foldl (fun ds e =>
    match e.label with
    | .connected => atWork e.pre
    | .closed => []
    | _ => ds) []

/-- A retry count that is no number throws out of the handler of a failed push. -/
def InFlight.throws (f : InFlight) : Reply → Bool
  | .pushed (some _) =>
      match f.stage with
      | some (.push _) => (retryCount f.msg).isNone
      | _ => false
  | _ => false

/-- The handler of `d` comes to its end, and does not throw. -/
def ends (d : Delivery) (e : Event Label State) : Bool :=
  match e.label with
  | .turned d' reply _ =>
      d' = d && (e.pre.inFlight.find d).any (fun f => !f.throws reply) &&
        (e.post.inFlight.find d).isNone
  | _ => false

/-- No handler that was at work when a channel was opened ends while that channel is open. -/
def Undisturbed : List (Event Label State) → Prop :=
  Along fun tr e => ∀ d ∈ overtaken tr, ends d e = false

instance : DecidablePred Undisturbed := fun tr =>
  inferInstanceAs (Decidable (Along (fun tr e => ∀ d ∈ overtaken tr, ends d e = false) tr))

/-- What is known of the channels after the events `tr`. -/
structure Tracked (tr : List (Event Label State)) (s : State) : Prop where
  placed : ∀ f ∈ s.inFlight.rows, f.stage ≠ none →
    s.channel = none ∨ s.channel = some f.delivery.channel ∨ f.delivery ∈ overtaken tr
  numbered : ∀ f ∈ s.inFlight.rows, f.stage ≠ none → f.delivery.channel < s.opened
  current : ∀ n ∈ s.channel, n < s.opened
  later : ∀ d ∈ overtaken tr, ∃ n, s.channel = some n ∧ d.channel < n

/-- What a handler says leaves the process as it is. -/
structure Unmoved (s t : State) : Prop where
  channel : t.channel = s.channel
  opened : t.opened = s.opened
  inFlight : t.inFlight = s.inFlight
  sent : ∀ v ∈ s.sent, v ∈ t.sent

section Overtaken
variable {tr : List (Event Label State)} {e : Event Label State} {d : Delivery} {s t u : State}

theorem overtaken_snoc (tr : List (Event Label State)) (e : Event Label State) :
    overtaken (tr ++ [e]) =
      match e.label with
      | .connected => atWork e.pre
      | .closed => []
      | _ => overtaken tr := by
  rw [overtaken, List.foldl_append, List.foldl_cons, List.foldl_nil, ← overtaken]

theorem mem_atWork : d ∈ atWork s ↔ ∃ f ∈ s.inFlight.rows, f.stage ≠ none ∧ f.delivery = d := by
  simp only [atWork, List.mem_map, List.mem_filter, and_assoc, Option.isSome_iff_ne_none]

theorem Unmoved.refl : Unmoved s s := ⟨rfl, rfl, rfl, fun _ hv => hv⟩

theorem Unmoved.trans (h : Unmoved s t) (k : Unmoved t u) : Unmoved s u :=
  ⟨k.channel.trans h.channel, k.opened.trans h.opened, k.inFlight.trans h.inFlight,
    fun v hv => k.sent v (h.sent v hv)⟩

theorem unmoved_settle (requeue : Bool) : Unmoved s (settle d requeue s) := by
  unfold settle
  split
  · split <;> exact ⟨rfl, rfl, rfl, fun _ hv => hv⟩
  · exact .refl

theorem unmoved_verdict (requeue : Bool) : Unmoved s (verdict d requeue s) := by
  unfold verdict
  split
  · exact .refl
  · next n hn =>
      have hsaid : Unmoved s { s with sent := ⟨d, n⟩ :: s.sent } :=
        ⟨rfl, rfl, rfl, fun _ hv => List.mem_cons_of_mem _ hv⟩
      exact hsaid.trans (unmoved_settle requeue)

theorem unmoved_perform (c : Command) : Unmoved s (perform d s c) := by
  cases c with
  | ack => exact unmoved_verdict false
  | nack requeue => exact unmoved_verdict requeue
  | cacheGet key => exact .refl
  | sendToUser userId message => exact .refl
  | cacheSet key => exact .refl
  | publish key event count ok => exact .refl

theorem unmoved_performs (commands : List Command) :
    Unmoved s (commands.foldl (perform d) s) := by
  induction commands generalizing s with
  | nil => exact .refl
  | cons c commands ih => exact (unmoved_perform c).trans ih

/-- An ack or nack goes out on the channel that is current. -/
theorem sent_of_verdict {n : ℕ} (hn : s.channel = some n) (requeue : Bool) :
    (⟨d, n⟩ : Verdict) ∈ (verdict d requeue s).sent := by
  unfold verdict
  rw [hn]
  exact (unmoved_settle requeue).sent _ List.mem_cons_self

theorem sent_of_verdicts {commands : List Command} {n : ℕ} (hn : s.channel = some n)
    (h : commands.any Command.isVerdict = true) :
    (⟨d, n⟩ : Verdict) ∈ (commands.foldl (perform d) s).sent := by
  induction commands generalizing s with
  | nil => cases h
  | cons c commands ih =>
      rw [List.any_cons, Bool.or_eq_true] at h
      rcases h with hfirst | hrest
      · refine (unmoved_performs commands).sent _ ?_
        cases c with
        | ack => exact sent_of_verdict hn false
        | nack requeue => exact sent_of_verdict hn requeue
        | _ => cases hfirst
      · exact ih ((unmoved_perform c).channel.trans hn) hrest

theorem find_setStage (d : Delivery) (stage : Stage) (s : State) :
    (setStage d (some stage) s).inFlight.find d =
      (s.inFlight.find d).map fun f => { f with stage := some stage } := by
  rw [setStage, Table.find_modify, if_pos rfl]

/-- A handler that comes to its end without throwing has spoken. -/
theorem speaks_of_ends {f : InFlight} {channel : Option ℕ} {reply : Reply} {published : Bool}
    {turn : Turn} (h : f.turn channel reply published = some turn) (hstage : turn.stage = none)
    (hthrows : f.throws reply = false) : turn.commands.any Command.isVerdict = true := by
  unfold InFlight.turn at h
  split at h
  · split at h
    · cases h
      unfold start at hstage ⊢
      split
      · rfl
      · next he => simp [he] at hstage
    · cases h
  · next stage hf =>
      unfold resume at h
      split at h
      · cases h
        split
        · rfl
        · next hmarked => simp [hmarked] at hstage
      · next event error =>
          cases h
          have hcount : (retryCount f.msg).isNone = false := by
            simpa [InFlight.throws, hf] using hthrows
          unfold retryOrDead
          split
          · next hnone => simp [hnone] at hcount
          · split_ifs <;> rfl
      · cases h
        cases hstage
      · cases h
        rfl
      · cases h

end Overtaken

section Reconnects
variable {tr : List (Event Label State)} {s t : State}

/-- A message in hand after a turn was in hand before it, or its handler has just begun. -/
theorem turned_inFlight {d : Delivery} {reply : Reply} {published : Bool}
    (hn : takeTurn d reply published s = some t) {g : InFlight} (hg : g ∈ t.inFlight.rows)
    (hstage : g.stage ≠ none) :
    (∃ g' ∈ s.inFlight.rows, g'.stage ≠ none ∧ g'.delivery = g.delivery) ∨
      s.channel = some g.delivery.channel := by
  obtain ⟨f, hf, hn⟩ := Option.bind_eq_some_iff.mp hn
  obtain ⟨turn, hturn, hn⟩ := Option.bind_eq_some_iff.mp hn
  cases hn
  have hkept := (unmoved_performs (d := d) (s := s) turn.commands).inFlight
  cases hnext : turn.stage with
  | none =>
      rw [hnext] at hg
      have hmem := (Table.mem_deleteWhere.mp hg).1
      rw [hkept] at hmem
      exact .inl ⟨g, hmem, hstage, rfl⟩
  | some stage =>
      rw [hnext] at hg
      have hmem : g ∈ ((turn.commands.foldl (perform d) s).inFlight.modify d
        (fun f => { f with stage := some stage }) fun _ => rfl).rows := hg
      rcases Table.mem_modify.mp hmem with ⟨hold, -⟩ | ⟨g', hg', rfl⟩
      · rw [hkept] at hold
        exact .inl ⟨g, hold, hstage, rfl⟩
      · rw [hkept, hf] at hg'
        obtain rfl := Option.some.inj hg'
        by_cases hbegun : f.stage = none
        · unfold InFlight.turn at hturn
          rw [hbegun] at hturn
          dsimp only at hturn
          split_ifs at hturn with hown
          exact .inr hown
        · exact .inl ⟨f, Table.mem_of_find hf, hbegun, rfl⟩

theorem turned_unmoved {d : Delivery} {reply : Reply} {published : Bool}
    (hn : takeTurn d reply published s = some t) : t.channel = s.channel ∧ t.opened = s.opened := by
  obtain ⟨f, -, hn⟩ := Option.bind_eq_some_iff.mp hn
  obtain ⟨turn, -, hn⟩ := Option.bind_eq_some_iff.mp hn
  cases hn
  have hkept := unmoved_performs (d := d) (s := s) turn.commands
  cases turn.stage <;> exact ⟨hkept.channel, hkept.opened⟩

/-- A step that neither opens nor closes a channel, and hands no message to a handler. -/
theorem Tracked.still {l : Label} (h : Tracked tr s) (hchannel : t.channel = s.channel)
    (hopened : t.opened = s.opened) (hover : overtaken (tr ++ [⟨s, l, t⟩]) = overtaken tr)
    (hin : ∀ f ∈ t.inFlight.rows, f.stage ≠ none →
      (∃ g ∈ s.inFlight.rows, g.stage ≠ none ∧ g.delivery = f.delivery) ∨
        s.channel = some f.delivery.channel) : Tracked (tr ++ [⟨s, l, t⟩]) t := by
  refine ⟨fun f hf hstage => ?_, fun f hf hstage => ?_, ?_, ?_⟩
  · rw [hchannel, hover]
    rcases hin f hf hstage with ⟨g, hg, hbusy, hsame⟩ | hown
    · rw [← hsame]
      exact h.placed g hg hbusy
    · exact .inr (.inl hown)
  · rw [hopened]
    rcases hin f hf hstage with ⟨g, hg, hbusy, hsame⟩ | hown
    · rw [← hsame]
      exact h.numbered g hg hbusy
    · exact h.current _ hown
  · rw [hchannel, hopened]
    exact h.current
  · rw [hover, hchannel]
    exact h.later

theorem Tracked.next {l : Label} (h : Tracked tr s) (hn : ConsumerChannels.next l s = some t) :
    Tracked (tr ++ [⟨s, l, t⟩]) t := by
  have hkept : ∀ f ∈ s.inFlight.rows, f.stage ≠ none →
      (∃ g ∈ s.inFlight.rows, g.stage ≠ none ∧ g.delivery = f.delivery) ∨
        s.channel = some f.delivery.channel := fun f hf hstage => .inl ⟨f, hf, hstage, rfl⟩
  cases l with
  | queued msg =>
      cases hn
      exact h.still rfl rfl (overtaken_snoc _ _) hkept
  | connected =>
      simp only [ConsumerChannels.next] at hn
      split at hn
      · cases hn
        have hover := overtaken_snoc tr ⟨s, .connected, { s with
          opened := s.opened + 1
          channel := some s.opened
          live := Function.update s.live s.opened true }⟩
        refine ⟨fun f hf hstage => .inr (.inr ?_), fun f hf hstage => ?_, fun n hn => ?_,
          fun d hd => ⟨s.opened, rfl, ?_⟩⟩
        · rw [hover]
          exact mem_atWork.mpr ⟨f, hf, hstage, rfl⟩
        · exact (h.numbered f hf hstage).trans (Nat.lt_succ_self _)
        · obtain rfl := Option.some.inj hn
          exact Nat.lt_succ_self _
        · rw [hover] at hd
          obtain ⟨f, hf, hstage, rfl⟩ := mem_atWork.mp hd
          exact h.numbered f hf hstage
      · cases hn
  | subscribed =>
      obtain ⟨n, -, rfl⟩ := Option.map_eq_some_iff.mp hn
      exact h.still rfl rfl (overtaken_snoc _ _) hkept
  | delivered n i =>
      simp only [ConsumerChannels.next, deliver] at hn
      split at hn
      · obtain ⟨msg, -, hn⟩ := Option.bind_eq_some_iff.mp hn
        obtain ⟨unacked, -, hn⟩ := Option.bind_eq_some_iff.mp hn
        obtain ⟨inFlight, hinsert, hn⟩ := Option.bind_eq_some_iff.mp hn
        cases hn
        refine h.still rfl rfl (overtaken_snoc _ _) fun f hf hstage => ?_
        rcases (Table.mem_insert hinsert).mp hf with hold | rfl
        · exact hkept f hold hstage
        · exact absurd rfl hstage
      · cases hn
  | turned d reply published =>
      obtain ⟨hchannel, hopened⟩ := turned_unmoved hn
      exact h.still hchannel hopened (overtaken_snoc _ _) fun f hf hstage =>
        turned_inFlight hn hf hstage
  | lost n =>
      cases hn
      exact h.still rfl rfl (overtaken_snoc _ _) hkept
  | closed =>
      cases hn
      have hover := overtaken_snoc tr ⟨s, .closed, { s with channel := none }⟩
      refine ⟨fun f hf hstage => .inl rfl, h.numbered, fun n hn => (by cases hn), fun d hd => ?_⟩
      rw [hover] at hd
      cases hd

theorem tracked_idle : Tracked [] idle where
  placed := fun _ hf => absurd hf List.not_mem_nil
  numbered := fun _ hf => absurd hf List.not_mem_nil
  current := fun _ hn => by cases hn
  later := fun _ hd => absurd hd List.not_mem_nil

theorem run_tracked (h : Run ConsumerChannels.next idle tr s) : Tracked tr s :=
  h.history (fun _ => True) Tracked tracked_idle (fun _ _ _ _ hi hn _ => hi.next hn)
    fun _ _ => trivial

theorem silent_of_throws {f : InFlight} {channel : Option ℕ} {reply : Reply} {published : Bool}
    {turn : Turn} (h : f.turn channel reply published = some turn) (hthrows : f.throws reply = true) :
    turn.commands.any Command.isVerdict = false := by
  unfold InFlight.throws at hthrows
  split at hthrows
  · split at hthrows
    · next event hf =>
        unfold InFlight.turn at h
        rw [hf] at h
        obtain rfl := Option.some.inj h
        rw [retryOrDead, Option.isNone_iff_eq_none.mp hthrows]
        rfl
    · cases hthrows
  · cases hthrows

/-- A handler that speaks comes to its end, and does not throw. -/
theorem ends_of_speaks {d : Delivery} {reply : Reply} {published : Bool} {f : InFlight} {turn : Turn}
    (hf : s.inFlight.find d = some f) (hturn : f.turn s.channel reply published = some turn)
    (hspeaks : turn.commands.any Command.isVerdict = true) :
    ends d ⟨s, .turned d reply published,
      setStage d turn.stage (turn.commands.foldl (perform d) s)⟩ = true := by
  have hstage : turn.stage = none := by
    by_contra hawaits
    obtain ⟨stage, hstage⟩ := Option.ne_none_iff_exists'.mp hawaits
    rw [silent_of_awaits hturn hstage] at hspeaks
    cases hspeaks
  have hthrows : f.throws reply = false := by
    by_contra hthrows
    rw [silent_of_throws hturn (by simpa using hthrows)] at hspeaks
    cases hspeaks
  have hgone : ((setStage d turn.stage (turn.commands.foldl (perform d) s)).inFlight.find d) =
      none := by
    rw [hstage]
    refine Table.find_eq_none.mpr fun g hg => ?_
    simpa using (Table.mem_deleteWhere.mp hg).2
  simp [ends, hf, hthrows, hgone]

/-- A handler that no reconnect has overtaken is prompt. -/
theorem Tracked.prompt {l : Label} (h : Tracked tr s) (hn : ConsumerChannels.next l s = some t)
    (hends : ∀ d ∈ overtaken tr, ends d ⟨s, l, t⟩ = false) : prompt s l = true := by
  cases l with
  | turned d reply published =>
      obtain ⟨f, hf, hn⟩ := Option.bind_eq_some_iff.mp hn
      obtain ⟨turn, hturn, hn⟩ := Option.bind_eq_some_iff.mp hn
      cases hn
      have hkey : f.delivery = d := Table.find_key hf
      simp only [ConsumerChannels.prompt, hf, Option.all_some, hturn, Bool.or_eq_true,
        Bool.not_eq_true', decide_eq_true_eq]
      cases hspeaks : turn.commands.any Command.isVerdict with
      | false => exact .inl (.inl rfl)
      | true =>
          have hlast := ends_of_speaks hf hturn hspeaks
          by_cases hbegun : f.stage = none
          · unfold InFlight.turn at hturn
            rw [hbegun] at hturn
            dsimp only at hturn
            split_ifs at hturn with hown
            exact .inr (hown.trans (by rw [hkey]))
          · rcases h.placed f (Table.mem_of_find hf) hbegun with hnone | hown | hover
            · exact .inl (.inr hnone)
            · exact .inr (hown.trans (by rw [hkey]))
            · rw [hkey] at hover
              rw [hends d hover] at hlast
              cases hlast
  | _ => rfl

/-- A handler that a reconnect has overtaken speaks on another channel than its own. -/
theorem Tracked.strays {l : Label} {d : Delivery} (h : Tracked tr s)
    (hn : ConsumerChannels.next l s = some t) (hover : d ∈ overtaken tr)
    (hends : ends d ⟨s, l, t⟩ = true) : ¬ Addressed t := by
  cases l with
  | turned d' reply published =>
      obtain ⟨f, hf, hn⟩ := Option.bind_eq_some_iff.mp hn
      obtain ⟨turn, hturn, hn⟩ := Option.bind_eq_some_iff.mp hn
      cases hn
      simp only [ends, Bool.and_eq_true, decide_eq_true_eq, Option.isNone_iff_eq_none] at hends
      obtain ⟨⟨rfl, hthrows⟩, hgone⟩ := hends
      rw [hf, Option.any_some, Bool.not_eq_true'] at hthrows
      have hstage : turn.stage = none := by
        by_contra hawaits
        obtain ⟨stage, hstage⟩ := Option.ne_none_iff_exists'.mp hawaits
        rw [hstage, find_setStage, (unmoved_performs turn.commands).inFlight, hf] at hgone
        cases hgone
      obtain ⟨n, hchannel, hlt⟩ := h.later d' hover
      have hsent := sent_of_verdicts (d := d') hchannel (speaks_of_ends hturn hstage hthrows)
      intro haddressed
      have hown : n = d'.channel := haddressed.channel ⟨d', n⟩ (by rw [hstage]; exact hsent)
      exact absurd hown (Nat.ne_of_gt hlt)
  | _ => cases hends

end Reconnects

theorem run_sound {tr : List (Event Label State)} {s : State}
    (h : Run ConsumerChannels.next idle tr s) (hquiet : Undisturbed tr) :
    Sound s ∧ ∀ e ∈ tr, Addressed e.post := by
  induction h with
  | start => exact ⟨sound_idle, fun e he => absurd he List.not_mem_nil⟩
  | @step tr s t l hrun hn ih =>
      obtain ⟨hold, hlast⟩ := along_snoc.mp hquiet
      obtain ⟨hsound, hevents⟩ := ih hold
      have hnext := hsound.next hn ((run_tracked hrun).prompt hn hlast)
      refine ⟨hnext, fun e he => ?_⟩
      rcases List.mem_append.mp he with he | he
      · exact hevents e he
      · rw [List.mem_singleton] at he
        subst he
        exact hnext.toAddressed

/-- Acknowledgements reach the channel that delivered the message exactly while no handler ends
on a channel that was opened while it was at work. -/
theorem acks_reach_delivering_channel {tr : List (Event Label State)} {s : State}
    (h : Run ConsumerChannels.next idle tr s) :
    (∀ e ∈ tr, Addressed e.post) ↔ Undisturbed tr := by
  refine ⟨fun haddressed => ?_, fun hquiet => (run_sound h hquiet).2⟩
  induction h with
  | start => exact along_nil _
  | @step tr s t l hrun hn ih =>
      have hlast : Addressed t := haddressed ⟨s, l, t⟩ (by simp)
      refine along_snoc.mpr ⟨ih fun e he => haddressed e (List.mem_append_left _ he), ?_⟩
      intro d hd
      by_contra hends
      exact (run_tracked hrun).strays hn hd (by simpa using hends) hlast

/-! ## A loss in the middle of a push -/

/-- Two messages; the first is being pushed when the connection is lost. -/
def lostInPush : List Label :=
  let msg := counted .null
  [.queued msg, .queued msg, .connected, .subscribed, .delivered 0 0,
    .turned ⟨0, 1⟩ .marked false, .turned ⟨0, 1⟩ (.cached none) false, .lost 0, .closed]

/-- Its push ends before the reconnect: the message comes again and is a duplicate. -/
def endsBeforeReconnect : List Label :=
  lostInPush ++
    [.turned ⟨0, 1⟩ (.pushed none) false, .turned ⟨0, 1⟩ .marked false, .connected, .subscribed,
      .delivered 1 1, .turned ⟨1, 1⟩ .marked false,
      .turned ⟨1, 1⟩ (.cached (some (.number (.finite 1)))) false]

theorem acks_reach_delivering_channel_redelivered :
    ∃ tr s, Run ConsumerChannels.next idle tr s ∧ s.sent = [⟨⟨1, 1⟩, 1⟩] ∧
      ∀ e ∈ tr, Addressed e.post := by
  obtain ⟨tr, s, hrun, -, hs⟩ := Run.of_trace_map ConsumerChannels.next endsBeforeReconnect idle
    (fun tr s => (decide (Undisturbed tr), s.sent)) (true, [⟨⟨1, 1⟩, 1⟩]) (by decide)
  have hquiet : Undisturbed tr := of_decide_eq_true (congrArg Prod.fst hs)
  exact ⟨tr, s, hrun, congrArg Prod.snd hs, (acks_reach_delivering_channel hrun).mpr hquiet⟩

/-- Its push ends after the reconnect: tag 1 is another message by then. -/
def endsAfterReconnect : List Label :=
  lostInPush ++
    [.connected, .subscribed, .delivered 1 0, .turned ⟨1, 1⟩ .marked false,
      .turned ⟨0, 1⟩ (.pushed none) false, .turned ⟨0, 1⟩ .marked false]

/-- The ack of the first message settles the second one, whose handler is at work. -/
theorem stale_ack_settles_other_message :
    ∃ tr s, Run ConsumerChannels.next idle tr s ∧ s.sent = [⟨⟨0, 1⟩, 1⟩] ∧ s.settled = [⟨1, 1⟩] ∧
      s.inFlight.rows.map InFlight.delivery = [⟨1, 1⟩] ∧ ¬ Addressed s := by
  obtain ⟨tr, s, hrun, -, hs⟩ := Run.of_trace_map ConsumerChannels.next endsAfterReconnect idle
    (fun _ s => (s.sent, s.settled, s.inFlight.rows.map InFlight.delivery))
    ([⟨⟨0, 1⟩, 1⟩], [⟨1, 1⟩], [⟨1, 1⟩]) (by decide)
  have hsent : s.sent = [⟨⟨0, 1⟩, 1⟩] := congrArg Prod.fst hs
  refine ⟨tr, s, hrun, hsent, congrArg (fun r => r.2.1) hs, congrArg (fun r => r.2.2) hs, ?_⟩
  intro haddressed
  have hchannel := haddressed.channel ⟨⟨0, 1⟩, 1⟩ (by rw [hsent]; exact List.mem_singleton.mpr rfl)
  cases hchannel

end MaxOne.ConsumerChannels
