import MaxOne.Events

/-!
# One message through the notification consumer

`NotificationConsumer.handle`, as the calls it makes in order. The outcomes of
its calls come from outside: what the cache holds under the done key, how
`sendToUser` ends and what `publish` returns. Between two calls that it awaits
the handler is a `Stage`, so that `start` and `resume` are the same handler one
turn at a time.

The retry count of a message is whatever its header coerces to. It is compared
with the maximum and then counted on, and the sum is part of the routing key.
-/
namespace MaxOne.NotificationConsumer
open Library.Binary64 Library.ScriptValue MaxOne.Events

/-- `content` is what `JSON.parse` makes of the body; `headers` is missing or a table. -/
structure AmqpMessage where
  content : Option Value
  headers : Option Value

/-- A call of the handler; `publish` carries what it returned. -/
inductive Command where
  | cacheGet (key : String)
  | sendToUser (userId : String) (message : Value)
  | cacheSet (key : String)
  | publish (key : RoutingKey) (event : NotificationPushEvent) (retryCount : Number) (ok : Bool)
  | ack
  | nack (requeue : Bool)

/-- `sendToUser` ends with no error or with one, `none` in `cached` is a miss. -/
structure Outcomes where
  cached : Option Value
  pushError : Option String
  published : Bool

def doneKey (event : NotificationPushEvent) : String := "mq:done:" ++ event.id

/-- `Number(msg.properties.headers?.[HEADER_RETRY_COUNT] ?? 0)`; `none` is a TypeError. -/
def retryCount (msg : AmqpMessage) : Option Number :=
  match msg.headers.bind fun table => table.get headerRetryCount with
  | none => some (.finite 0)
  | some value => value.toNumber

/-- A retry count that is not a number throws out of the handler. -/
def retryOrDead (msg : AmqpMessage) (event : NotificationPushEvent) (published : Bool) :
    List Command :=
  match retryCount msg with
  | none => []
  | some attempt =>
      if (Number.finite maxRetries).le attempt then [.nack false]
      else
        let next := attempt.add (.finite 1)
        [.publish (.notificationPushRetry next) event next published,
          if published then .ack else .nack true]

def handle (msg : AmqpMessage) (o : Outcomes) : List Command :=
  match parseNotificationPushEvent msg.content with
  | .error _ => [.nack false]
  | .ok event =>
      .cacheGet (doneKey event) ::
        if o.cached.any Value.truthy then [.ack]
        else
          .sendToUser event.userId event.message ::
            match o.pushError with
            | some _ => retryOrDead msg event o.published
            | none => [.cacheSet (doneKey event), .ack]

/-! ## One turn at a time -/

/-- What the handler awaits. -/
inductive Stage where
  | lookup (event : NotificationPushEvent)
  | push (event : NotificationPushEvent)
  | mark

inductive Reply where
  | cached (value : Option Value)
  | pushed (error : Option String)
  | marked

/-- The calls up to the next await; `none`: the handler is done. -/
structure Turn where
  commands : List Command
  stage : Option Stage

def start (msg : AmqpMessage) : Turn :=
  match parseNotificationPushEvent msg.content with
  | .error _ => ⟨[.nack false], none⟩
  | .ok event => ⟨[.cacheGet (doneKey event)], some (.lookup event)⟩

def resume (msg : AmqpMessage) (published : Bool) : Stage → Reply → Option Turn
  | .lookup event, .cached value =>
      some (if value.any Value.truthy then ⟨[.ack], none⟩
        else ⟨[.sendToUser event.userId event.message], some (.push event)⟩)
  | .push event, .pushed (some _) => some ⟨retryOrDead msg event published, none⟩
  | .push event, .pushed none => some ⟨[.cacheSet (doneKey event)], some .mark⟩
  | .mark, .marked => some ⟨[.ack], none⟩
  | _, _ => none

/-- The reply the outcomes hold for a stage. -/
def Outcomes.reply (o : Outcomes) : Stage → Reply
  | .lookup _ => .cached o.cached
  | .push _ => .pushed o.pushError
  | .mark => .marked

/-- Resume until the handler is done, at most `n` times. -/
def finish (msg : AmqpMessage) (o : Outcomes) : ℕ → Turn → List Command
  | n + 1, ⟨commands, some stage⟩ =>
      commands ++ ((resume msg o.published stage (o.reply stage)).map (finish msg o n)).getD []
  | _, ⟨commands, _⟩ => commands

/-- Three awaits are all there are. -/
theorem finish_start (msg : AmqpMessage) (o : Outcomes) :
    finish msg o 3 (start msg) = handle msg o := by
  unfold start handle
  cases parseNotificationPushEvent msg.content with
  | error e => rfl
  | ok event =>
      cases hcached : o.cached.any Value.truthy with
      | true => simp [finish, Outcomes.reply, resume, hcached]
      | false => cases hpush : o.pushError <;> simp [finish, Outcomes.reply, resume, hcached, hpush]

/-! ## What becomes of a message -/

def Command.isVerdict : Command → Bool
  | ack => true
  | nack _ => true
  | _ => false

/-- The reasons the handler may have to acknowledge a message. -/
structure Acknowledges (msg : AmqpMessage) (o : Outcomes) (event : NotificationPushEvent)
    (commands : List Command) : Prop where
  reason : o.cached.any Value.truthy = true ∨
    (.sendToUser event.userId event.message ∈ commands ∧ o.pushError = none) ∨
    ∃ key own next, .publish key event next true ∈ commands ∧ Routable .events key ∧
      retryCount msg = some own ∧ own.lt next = true ∧ next.le (.finite maxRetries) = true

/-- No message is dropped. -/
structure Kept (msg : AmqpMessage) (o : Outcomes) : Prop where
  verdict : ((handle msg o).filter Command.isVerdict).length = 1
  acks : .ack ∈ handle msg o → ∃ event, parseNotificationPushEvent msg.content = .ok event ∧
    Acknowledges msg o event (handle msg o)
  refused : ∀ e, parseNotificationPushEvent msg.content = .error e → handle msg o = [.nack false]

/-! ## Retry counts that lead to a bound key -/

/-- Half a unit in the last place around 0, 1 and 2, where adding one gives 1, 2 or 3. -/
def CountsOn (x : ℚ) : Prop :=
  (-(1 / 2 ^ 54) ≤ x ∧ x ≤ 1 / 2 ^ 53) ∨ (1 - 1 / 2 ^ 53 ≤ x ∧ x ≤ 1 + 1 / 2 ^ 52) ∨
    (2 - 1 / 2 ^ 52 ≤ x ∧ x ≤ 2 + 1 / 2 ^ 52)

/-- The count is used up, or the next one has a queue. -/
def Countable : Number → Prop
  | .finite x => 3 ≤ x ∨ CountsOn x
  | .infinity negative => negative = false
  | .nan => False

section Counts
variable {x : ℚ}

theorem ofRat_add_one_eq_one : ofRat (x + 1) = .finite 1 ↔ -(1 / 2 ^ 54) ≤ x ∧ x ≤ 1 / 2 ^ 53 := by
  have hround := nearest_eq_zpow (q := x + 1) (k := 0) (by norm_num)
  have hfinite := ofRat_eq_finite (q := x + 1) (n := 1) (by norm_num)
  norm_num at hround hfinite ⊢
  rw [hfinite, hround]
  constructor <;> intro h <;> exact ⟨by linarith [h.1], by linarith [h.2]⟩

theorem ofRat_add_one_eq_two :
    ofRat (x + 1) = .finite 2 ↔ 1 - 1 / 2 ^ 53 ≤ x ∧ x ≤ 1 + 1 / 2 ^ 52 := by
  have hround := nearest_eq_zpow (q := x + 1) (k := 1) (by norm_num)
  have hfinite := ofRat_eq_finite (q := x + 1) (n := 2) (by norm_num)
  norm_num at hround hfinite ⊢
  rw [hfinite, hround]
  constructor <;> intro h <;> exact ⟨by linarith [h.1], by linarith [h.2]⟩

theorem ofRat_add_one_eq_three :
    ofRat (x + 1) = .finite 3 ↔ 2 - 1 / 2 ^ 52 ≤ x ∧ x ≤ 2 + 1 / 2 ^ 52 := by
  have hround := nearest_eq_of_between (q := x + 1) (n := 3) (k := 1) (by norm_num) (by norm_num)
    (by norm_num)
  have hfinite := ofRat_eq_finite (q := x + 1) (n := 3) (by norm_num)
  norm_num [abs_le] at hround hfinite ⊢
  rw [hfinite, hround]
  constructor <;> intro h <;> exact ⟨by linarith [h.1], by linarith [h.2]⟩

theorem routable_next (own : Number) :
    Routable .events (.notificationPushRetry (own.add (.finite 1))) ↔
      ∃ x, own = .finite x ∧ CountsOn x := by
  rw [routable_retry]
  cases own with
  | finite x =>
      simp only [Number.add, ofRat_add_one_eq_one, ofRat_add_one_eq_two, ofRat_add_one_eq_three,
        Number.finite.injEq, CountsOn, exists_eq_left']
  | infinity negative => simp [Number.add]
  | nan => simp [Number.add]

/-- A count that leads to a bound key is below the next one, and that is in range. -/
theorem next_in_range (h : CountsOn x) :
    (Number.finite x).lt ((Number.finite x).add (.finite 1)) = true ∧
      ((Number.finite x).add (.finite 1)).le (.finite maxRetries) = true := by
  have hmax : ((maxRetries : ℕ) : ℚ) = 3 := by norm_num [maxRetries, retryDelaysMs]
  have hnext : ∀ n : ℚ, ofRat (x + 1) = .finite n → x < n → n ≤ 3 →
      (Number.finite x).lt ((Number.finite x).add (.finite 1)) = true ∧
        ((Number.finite x).add (.finite 1)).le (.finite maxRetries) = true := by
    intro n hn hlt hle
    simp [Number.add, hn, Number.lt, Number.le, hmax, hlt, hlt.le, hle]
  rcases h with hone | htwo | hthree
  · exact hnext 1 (ofRat_add_one_eq_one.mpr hone) (by linarith [hone.2]) (by norm_num)
  · exact hnext 2 (ofRat_add_one_eq_two.mpr htwo) (by linarith [htwo.2]) (by norm_num)
  · exact hnext 3 (ofRat_add_one_eq_three.mpr hthree) (by linarith [hthree.2]) le_rfl

end Counts

/-! ## When no message is dropped -/

/-- A message whose push fails carries a count that leads to a bound key, unless the
broker does not take the copy. -/
def Parked (msg : AmqpMessage) (o : Outcomes) : Prop :=
  ∀ event, parseNotificationPushEvent msg.content = .ok event →
    o.cached.any Value.truthy = false → o.pushError ≠ none →
      ∃ own, retryCount msg = some own ∧ (Countable own ∨ o.published = false)

section Handle
variable {msg : AmqpMessage} {o : Outcomes} {event : NotificationPushEvent}

theorem handle_refused {e : String} (h : parseNotificationPushEvent msg.content = .error e) :
    handle msg o = [.nack false] := by
  simp only [handle, h]

theorem handle_done (h : parseNotificationPushEvent msg.content = .ok event)
    (hdone : o.cached.any Value.truthy = true) :
    handle msg o = [.cacheGet (doneKey event), .ack] := by
  simp only [handle, h, hdone, if_true]

theorem handle_pushed (h : parseNotificationPushEvent msg.content = .ok event)
    (hdone : o.cached.any Value.truthy = false) (hpush : o.pushError = none) :
    handle msg o = [.cacheGet (doneKey event), .sendToUser event.userId event.message,
      .cacheSet (doneKey event), .ack] := by
  simp only [handle, h, hdone, hpush, Bool.false_eq_true, if_false]

theorem handle_failed (h : parseNotificationPushEvent msg.content = .ok event)
    (hdone : o.cached.any Value.truthy = false) (hpush : o.pushError ≠ none) :
    handle msg o = .cacheGet (doneKey event) :: .sendToUser event.userId event.message ::
      retryOrDead msg event o.published := by
  obtain ⟨error, herror⟩ := Option.ne_none_iff_exists'.mp hpush
  simp only [handle, h, hdone, herror, Bool.false_eq_true, if_false]

theorem retryOrDead_used_up {own : Number} (h : retryCount msg = some own)
    (hmax : (Number.finite maxRetries).le own = true) (published : Bool) :
    retryOrDead msg event published = [.nack false] := by
  simp only [retryOrDead, h, hmax, if_true]

theorem retryOrDead_copy {own : Number} (h : retryCount msg = some own)
    (hmax : (Number.finite maxRetries).le own = false) (published : Bool) :
    retryOrDead msg event published =
      [.publish (.notificationPushRetry (own.add (.finite 1))) event (own.add (.finite 1)) published,
        if published then .ack else .nack true] := by
  simp only [retryOrDead, h, hmax, Bool.false_eq_true, if_false]

/-- A handler that ends in one verdict, and acknowledges for a reason. -/
theorem kept_of_ends {l : List Command} {verdict : Command}
    (hparse : parseNotificationPushEvent msg.content = .ok event)
    (hcommands : handle msg o = l ++ [verdict])
    (hbefore : ∀ c ∈ l, c.isVerdict = false) (hverdict : verdict.isVerdict = true)
    (hreason : verdict = .ack → Acknowledges msg o event (handle msg o)) : Kept msg o where
  verdict := by
    have hnone : l.filter Command.isVerdict = [] := by
      rw [List.filter_eq_nil_iff]
      intro c hc
      rw [hbefore c hc]
      exact Bool.false_ne_true
    rw [hcommands, List.filter_append, hnone, List.nil_append, List.filter_singleton, hverdict]
    rfl
  acks := by
    intro hack
    refine ⟨event, hparse, hreason ?_⟩
    rw [hcommands, List.mem_append, List.mem_singleton] at hack
    rcases hack with hin | heq
    · cases hbefore .ack hin
    · exact heq.symm
  refused := by
    intro e he
    rw [hparse] at he
    cases he

theorem countable_not_used_up {own : Number} (h : Countable own)
    (hmax : (Number.finite maxRetries).le own = false) : ∃ x, own = .finite x ∧ CountsOn x := by
  cases own with
  | finite x =>
      refine ⟨x, rfl, h.resolve_left fun hle => ?_⟩
      have hthree : ((maxRetries : ℕ) : ℚ) = 3 := by norm_num [maxRetries, retryDelaysMs]
      simp only [Number.le, hthree, decide_eq_false_iff_not] at hmax
      exact hmax hle
  | infinity negative =>
      rw [Countable] at h
      simp [Number.le, h] at hmax
  | nan => exact h.elim

theorem kept_of_copy {own : Number} (hparse : parseNotificationPushEvent msg.content = .ok event)
    (hdone : o.cached.any Value.truthy = false) (hpush : o.pushError ≠ none)
    (hcount : retryCount msg = some own) (hmax : (Number.finite maxRetries).le own = false)
    (hsafe : Countable own ∨ o.published = false) : Kept msg o := by
  have hcommands := handle_failed hparse hdone hpush
  rw [retryOrDead_copy hcount hmax] at hcommands
  refine kept_of_ends (l := [_, _, _]) hparse hcommands ?_ ?_ ?_
  · simp [Command.isVerdict]
  · cases o.published <;> rfl
  · intro hack
    have hpublished : o.published = true := by
      cases h : o.published with
      | true => rfl
      | false => simp [h] at hack
    have hcountable : Countable own := hsafe.resolve_right (by rw [hpublished]; exact Bool.noConfusion)
    obtain ⟨x, rfl, hx⟩ := countable_not_used_up hcountable hmax
    have hrange := next_in_range hx
    refine ⟨.inr (.inr ⟨_, _, _, ?_, (routable_next _).mpr ⟨x, rfl, hx⟩, hcount, hrange.1, hrange.2⟩)⟩
    rw [hcommands, hpublished]
    simp

theorem kept_of_parked (h : Parked msg o) : Kept msg o := by
  cases hparse : parseNotificationPushEvent msg.content with
  | error e =>
      have hcommands := handle_refused (o := o) hparse
      refine ⟨by rw [hcommands]; rfl, fun hack => ?_, fun _ _ => hcommands⟩
      rw [hcommands] at hack
      simp at hack
  | ok event =>
      cases hdone : o.cached.any Value.truthy with
      | true =>
          have hcommands := handle_done hparse hdone
          exact kept_of_ends (l := [_]) hparse hcommands (by simp [Command.isVerdict]) rfl
            fun _ => ⟨.inl hdone⟩
      | false =>
          by_cases hpush : o.pushError = none
          · have hcommands := handle_pushed hparse hdone hpush
            refine kept_of_ends (l := [_, _, _]) hparse hcommands (by simp [Command.isVerdict])
              rfl fun _ => ⟨.inr (.inl ⟨?_, hpush⟩)⟩
            rw [hcommands]
            simp
          · obtain ⟨own, hcount, hsafe⟩ := h event hparse hdone hpush
            cases hmax : (Number.finite maxRetries).le own with
            | true =>
                have hcommands := handle_failed hparse hdone hpush
                rw [retryOrDead_used_up hcount hmax] at hcommands
                exact kept_of_ends (l := [_, _]) hparse hcommands (by simp [Command.isVerdict])
                  rfl fun hack => by cases hack
            | false => exact kept_of_copy hparse hdone hpush hcount hmax hsafe

/-- A copy under a key without a queue is no reason. -/
theorem parked_of_kept (h : Kept msg o) : Parked msg o := by
  intro event hparse hdone hpush
  have hcommands := handle_failed hparse hdone hpush
  cases hcount : retryCount msg with
  | none =>
      have hone := h.verdict
      simp [hcommands, retryOrDead, hcount, Command.isVerdict] at hone
  | some own =>
      refine ⟨own, rfl, ?_⟩
      cases hmax : (Number.finite maxRetries).le own with
      | true =>
          refine .inl ?_
          cases own with
          | finite x =>
              have hthree : ((maxRetries : ℕ) : ℚ) = 3 := by norm_num [maxRetries, retryDelaysMs]
              simp only [Number.le, hthree, decide_eq_true_eq] at hmax
              exact .inl hmax
          | infinity negative =>
              change negative = false
              simpa [Number.le] using hmax
          | nan => cases hmax
      | false =>
          cases hpublished : o.published with
          | false => exact .inr rfl
          | true =>
              rw [retryOrDead_copy hcount hmax, hpublished] at hcommands
              obtain ⟨event', hparse', hack⟩ := h.acks (by rw [hcommands]; simp)
              rcases hack.reason with hmarked | ⟨-, hok⟩ | ⟨key, own', next, hmem, hroutable, -⟩
              · rw [hdone] at hmarked
                cases hmarked
              · exact absurd hok hpush
              · rw [hcommands] at hmem
                simp only [List.mem_cons, reduceCtorEq, false_or, Command.publish.injEq, if_true,
                  List.not_mem_nil, or_false, and_true] at hmem
                rw [hmem.1] at hroutable
                obtain ⟨x, rfl, hx⟩ := (routable_next own).mp hroutable
                exact .inl (.inr hx)

end Handle

/-- The handler keeps a message exactly when a failed push finds a count that leads to
a bound retry key, or has none left, or the copy is not taken. -/
theorem message_kept_iff (msg : AmqpMessage) (o : Outcomes) : Kept msg o ↔ Parked msg o :=
  ⟨parked_of_kept, kept_of_parked⟩

/-- A well formed event with the given retry count. -/
def counted (count : Value) : AmqpMessage where
  content := some (.object [("id", .text "e"), ("type", .text "notification.push"),
    ("userId", .text "u"), ("payload", .object [("title", .text "t"), ("body", .text "b")])])
  headers := some (.object [(headerRetryCount, count)])

/-- The count -1 leads to the key of retry 0, which no queue is bound with. -/
theorem drops_count_below_zero : ∃ msg o, retryCount msg = some (.finite (-1)) ∧ ¬ Kept msg o := by
  refine ⟨counted (.number (.finite (-1))), ⟨none, some "network: send failed", true⟩, rfl, ?_⟩
  intro h
  obtain ⟨own, hcount, hsafe⟩ := parked_of_kept h _ rfl rfl (by simp)
  have hown : own = .finite (-1) := (Option.some.inj hcount).symm
  rw [hown] at hsafe
  norm_num [Countable, CountsOn] at hsafe

end MaxOne.NotificationConsumer
