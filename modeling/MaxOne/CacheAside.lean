import MaxOne.Library.Interleaving
import MaxOne.Library.JsonText
import MaxOne.Markets

/-!
# What the cache may serve

`CacheService.wrap` as any number of requests run it on one Redis: a read, the
function on a miss, and a write with an expiry. Redis may fail at each command, drop
an entry at any time, and a write may come long after the value it writes. `made`,
`stored` and `served` record what the functions returned, what was written and what
the requests were given, each with its time.
-/
namespace MaxOne.CacheAside
open Library Library.Runs Library.Interleaving Library.ScriptValue Library.JsonText MaxOne.Schema
  MaxOne.RatesService MaxOne.Markets

/-! ## The four calls of `wrap` -/

def rateTtl : ℕ := 60

def tickerTtl : ℕ := 15

def supplyTtl : ℕ := 3600

inductive Use where
  | rates (fromCurrency toCurrency : String)
  | tickers
  | candles (id range : String)
  | supply
  deriving DecidableEq

namespace Use

def key : Use → String
  | rates fromCurrency toCurrency => cacheKey fromCurrency toCurrency
  | tickers => "markets:tickers"
  | candles id range => "markets:candles:" ++ id ++ ":" ++ range
  | supply => "markets:supply"

def ttlSeconds : Use → ℕ
  | rates .. => rateTtl
  | tickers => tickerTtl
  | candles .. => candleTtl
  | supply => supplyTtl

/-- What the function of a call may return. -/
def returns : Use → Value → Bool
  | rates .., .text _ => true
  | tickers, .array _ | candles .., .array _ => true
  | supply, .object _ => true
  | _, _ => false

def cacheable (value : Value) : Use → Decision
  | rates .. => if defaultCacheable value then .keep else .skip
  | tickers | candles .. =>
      match value with
      | .array items => listDecision items
      | _ => .keepFor negativeTtl
  | supply =>
      match value with
      | .object (_ :: _) => .keep
      | _ => .skip

/-- For how many seconds a value is stored, if it is. -/
def seconds (u : Use) (value : Value) : Option ℕ :=
  match u.cacheable value with
  | .keep => some u.ttlSeconds
  | .keepFor ttl => some ttl
  | .skip => none

/-- On a miss `wrap` of one request sends a SET exactly when the value has seconds to live. -/
theorem wrap_stored {reply : RedisReply} (hmiss : cacheGet reply = none)
    (fromCurrency toCurrency : String) (value : Value) :
    (wrap (rates fromCurrency toCurrency).key reply (.ok value)).stored =
      ((rates fromCurrency toCurrency).seconds value).map fun _ =>
        ((rates fromCurrency toCurrency).key, value) := by
  simp only [wrap, hmiss, seconds, cacheable]
  by_cases hkeep : defaultCacheable value
  · rw [if_pos hkeep, if_pos hkeep]
    rfl
  · rw [if_neg hkeep, if_neg hkeep]
    rfl

theorem wrapTimed_ttl (id range : String) (items : List Value) (now : ℚ) :
    (wrapTimed none now candleTtl items listDecision).2.map Entry.ttl =
      (candles id range).seconds (.array items) := by
  simp only [wrapTimed, Option.filter_none, seconds, cacheable]
  cases listDecision items with
  | keep => rfl
  | keepFor ttl => rfl
  | skip => rfl

/-- The four places of the source that call `wrap`. -/
inductive Kind where
  | rates
  | tickers
  | candles
  | supply
  deriving DecidableEq

def Kind.letter : Kind → Char
  | .rates => 'r'
  | .tickers => 't'
  | .candles => 'c'
  | .supply => 's'

/-- The letter that tells the kind of a key: the ninth, unless the first is an `r`. -/
def keyLetter (key : String) : Option Char :=
  if key.toList[0]? = some 'r' then some 'r' else key.toList[8]?

def kind : Use → Kind
  | rates .. => .rates
  | tickers => .tickers
  | candles .. => .candles
  | supply => .supply

theorem key_candles (id range : String) :
    (candles id range).key = "markets:candles:" ++ id ++ ":" ++ range := rfl

theorem key_rates (fromCurrency toCurrency : String) :
    (rates fromCurrency toCurrency).key = "rates:" ++ fromCurrency ++ ":" ++ toCurrency := rfl

theorem keyLetter_candles (id range : String) :
    keyLetter (candles id range).key = some 'c' := by
  have hkey : (candles id range).key.toList = ['m', 'a', 'r', 'k', 'e', 't', 's', ':', 'c'] ++
      ("andles:".toList ++ (id.toList ++ (":".toList ++ range.toList))) := by
    have hhead : "markets:candles:".toList =
        ['m', 'a', 'r', 'k', 'e', 't', 's', ':', 'c'] ++ "andles:".toList := by decide
    rw [key_candles, String.toList_append, String.toList_append, String.toList_append, hhead]
    simp only [List.append_assoc]
  have hfirst : (candles id range).key.toList[0]? ≠ some 'r' := by
    rw [hkey]
    simp
  rw [keyLetter, if_neg hfirst, hkey]
  rfl

theorem keyLetter_rates (fromCurrency toCurrency : String) :
    keyLetter (rates fromCurrency toCurrency).key = some 'r' := by
  have hkey : (rates fromCurrency toCurrency).key.toList = ['r'] ++
      ("ates:".toList ++ (fromCurrency.toList ++ (":".toList ++ toCurrency.toList))) := by
    have hhead : "rates:".toList = ['r'] ++ "ates:".toList := by decide
    rw [key_rates, String.toList_append, String.toList_append, String.toList_append, hhead]
    simp only [List.append_assoc]
  have hfirst : (rates fromCurrency toCurrency).key.toList[0]? = some 'r' := by
    rw [hkey]
    rfl
  rw [keyLetter, if_pos hfirst]

theorem keyLetter_key (u : Use) : keyLetter u.key = some u.kind.letter := by
  cases u with
  | rates fromCurrency toCurrency => exact keyLetter_rates fromCurrency toCurrency
  | tickers => decide
  | candles id range => exact keyLetter_candles id range
  | supply => decide

/-- No text is the key of two kinds of call. -/
theorem kind_of_key {u v : Use} (h : u.key = v.key) : u.kind = v.kind := by
  have hletter : u.kind.letter = v.kind.letter := by
    have hkeys := congrArg keyLetter h
    rwa [keyLetter_key, keyLetter_key, Option.some.injEq] at hkeys
  revert hletter
  cases u.kind <;> cases v.kind <;> decide

theorem seconds_of_kind {u v : Use} (h : u.kind = v.kind) : u.seconds = v.seconds := by
  cases u <;> cases v <;> first | rfl | cases h

end Use

/-! ## Redis and the requests -/

/-- One call of `wrap`; calls are numbered as they come. -/
structure Call where
  number : ℕ
  use : Use
  deriving DecidableEq

structure Made where
  call : Call
  value : Value
  time : Time

structure Stored where
  call : Call
  value : Value
  seconds : ℕ
  time : Time

structure Served where
  call : Call
  value : Value
  time : Time
  hit : Bool

/-- An entry is a text and the last time at which it is read. -/
structure Redis where
  now : Time
  entries : String → Option (String × Time)
  asked : List Use
  made : List Made
  stored : List Stored
  served : List Served

inductive Pc where
  | idle
  | get (call : Call)
  | fn (call : Call)
  | set (call : Call) (value : Value) (seconds : ℕ)

/-- How a command ends. One that is `lost` was carried out, but its reply never came. -/
inductive Command where
  | replied
  | failed
  | lost
  deriving DecidableEq

/-- `evict` and `tick` are no client's steps. -/
inductive Input where
  | request (u : Use)
  | redis (command : Command)
  | returns (value : Value)
  | throws
  | evict (key : String)
  | tick (ms : ℕ)

section Step
variable (f : NumberFormat)

/-- The reply to GET. -/
def Redis.reply (d : Redis) (key : String) : RedisReply :=
  match d.entries key with
  | none => .nil
  | some (text, expiresAt) => if d.now ≤ expiresAt then .text (parse f text) else .nil

/-- What `wrap` sees of a GET. -/
def Redis.answer (d : Redis) (key : String) : Command → RedisReply
  | .replied => d.reply f key
  | .failed | .lost => .fails

/-- SET with EX. -/
def Redis.store (d : Redis) (call : Call) (value : Value) (seconds : ℕ) : Redis :=
  { d with
    entries := Function.update d.entries call.use.key
      (some (stringify f value, d.now + seconds * 1000))
    stored := ⟨call, value, seconds, d.now⟩ :: d.stored }

/-- SET, where a command that failed never reached Redis. -/
def Redis.set (d : Redis) (call : Call) (value : Value) (seconds : ℕ) : Command → Redis
  | .replied | .lost => d.store f call value seconds
  | .failed => d

def Redis.serve (d : Redis) (call : Call) (value : Value) (hit : Bool) : Redis :=
  { d with served := ⟨call, value, d.now, hit⟩ :: d.served }

def Redis.make (d : Redis) (call : Call) (value : Value) : Redis :=
  { d with made := ⟨call, value, d.now⟩ :: d.made }

def Redis.ask (d : Redis) (u : Use) : Redis := { d with asked := d.asked ++ [u] }

/-- An exception of the function passes through `wrap`; a failure of Redis does not. -/
def step : Input → Pc → Redis → Option (Pc × Redis)
  | .tick ms, p, d => some (p, { d with now := d.now + ms })
  | .evict key, p, d => some (p, { d with entries := Function.update d.entries key none })
  | .request u, .idle, d => some (.get ⟨d.asked.length, u⟩, d.ask u)
  | .redis command, .get call, d =>
      match cacheGet (d.answer f call.use.key command) with
      | some hit => some (.idle, d.serve call hit true)
      | none => some (.fn call, d)
  | .returns value, .fn call, d =>
      if call.use.returns value then
        match call.use.seconds value with
        | none => some (.idle, (d.make call value).serve call value false)
        | some seconds => some (.set call value seconds, d.make call value)
      else none
  | .throws, .fn _, d => some (.idle, d)
  | .redis command, .set call value seconds, d =>
      some (.idle, (d.set f call value seconds command).serve call value false)
  | _, _, _ => none

/-- What one step can do. -/
inductive Moves (d : Redis) : Pc → Pc → Redis → Prop
  | ticks (p : Pc) (ms : ℕ) : Moves d p p { d with now := d.now + ms }
  | evicts (p : Pc) (key : String) :
      Moves d p p { d with entries := Function.update d.entries key none }
  | asks (u : Use) : Moves d .idle (.get ⟨d.asked.length, u⟩) (d.ask u)
  | hits (call : Call) (value : Value) (hlive : cacheGet (d.reply f call.use.key) = some value) :
      Moves d (.get call) .idle (d.serve call value true)
  | misses (call : Call) : Moves d (.get call) (.fn call) d
  | skips (call : Call) (value : Value) (hskips : call.use.seconds value = none) :
      Moves d (.fn call) .idle ((d.make call value).serve call value false)
  | makes (call : Call) (value : Value) (seconds : ℕ)
      (hseconds : call.use.seconds value = some seconds) :
      Moves d (.fn call) (.set call value seconds) (d.make call value)
  | throws (call : Call) : Moves d (.fn call) .idle d
  | sets (call : Call) (value : Value) (seconds : ℕ) (command : Command) :
      Moves d (.set call value seconds) .idle
        ((d.set f call value seconds command).serve call value false)

theorem step_moves {i : Input} {p q : Pc} {d d' : Redis} (h : step f i p d = some (q, d')) :
    Moves f d p q d' := by
  unfold step at h
  split at h
  · cases h
    exact .ticks p _
  · cases h
    exact .evicts p _
  · cases h
    exact .asks _
  · next command call =>
      split at h
      · next hit hhit =>
          cases h
          cases command with
          | replied => exact .hits call hit hhit
          | failed | lost => cases hhit
      · cases h
        exact .misses call
  · next value call =>
      split_ifs at h
      split at h
      · next hskips =>
          cases h
          exact .skips call value hskips
      · next seconds hseconds =>
          cases h
          exact .makes call value seconds hseconds
  · cases h
    exact .throws _
  · cases h
    exact .sets _ _ _ _
  · cases h

end Step

def start (now : Time) : Pool Redis Pc := ⟨⟨now, fun _ => none, [], [], [], []⟩, fun _ => .idle⟩

/-! ## Where a served value comes from -/

/-- Nothing that was recorded is lost. -/
structure Grows (d d' : Redis) : Prop where
  made : ∀ m ∈ d.made, m ∈ d'.made
  stored : ∀ e ∈ d.stored, e ∈ d'.stored
  now : d.now ≤ d'.now

theorem Grows.refl (d : Redis) : Grows d d := ⟨fun _ hm => hm, fun _ he => he, le_rfl⟩

theorem Grows.trans {d d' d'' : Redis} (h : Grows d d') (h' : Grows d' d'') : Grows d d'' :=
  ⟨fun m hm => h'.made m (h.made m hm), fun e he => h'.stored e (h.stored e he), h.now.trans h'.now⟩

theorem Grows.ask (d : Redis) (u : Use) : Grows d (d.ask u) :=
  ⟨fun _ hm => hm, fun _ he => he, le_rfl⟩

theorem Grows.make (d : Redis) (call : Call) (value : Value) : Grows d (d.make call value) :=
  ⟨fun _ hm => List.mem_cons_of_mem _ hm, fun _ he => he, le_rfl⟩

theorem Grows.serve (d : Redis) (call : Call) (value : Value) (hit : Bool) :
    Grows d (d.serve call value hit) := ⟨fun _ hm => hm, fun _ he => he, le_rfl⟩

theorem Grows.store (f : NumberFormat) (d : Redis) (call : Call) (value : Value) (seconds : ℕ) :
    Grows d (d.store f call value seconds) :=
  ⟨fun _ hm => hm, fun _ he => List.mem_cons_of_mem _ he, le_rfl⟩

theorem Grows.set (f : NumberFormat) (d : Redis) (call : Call) (value : Value) (seconds : ℕ)
    (command : Command) : Grows d (d.set f call value seconds command) := by
  cases command with
  | replied | lost => exact Grows.store f d call value seconds
  | failed => exact Grows.refl d

theorem Grows.tick (d : Redis) (ms : ℕ) : Grows d { d with now := d.now + ms } :=
  ⟨fun _ hm => hm, fun _ he => he, Nat.le_add_right _ _⟩

theorem Grows.evict (d : Redis) (key : String) :
    Grows d { d with entries := Function.update d.entries key none } :=
  ⟨fun _ hm => hm, fun _ he => he, le_rfl⟩

def IsMade (d : Redis) (call : Call) (value : Value) (time : Time) : Prop :=
  ∃ m ∈ d.made, m.call = call ∧ m.value = value ∧ m.time ≤ time

section Records
variable (f : NumberFormat)

structure Stored.Ok (d : Redis) (e : Stored) : Prop where
  seconds : e.call.use.seconds e.value = some e.seconds
  made : IsMade d e.call e.value e.time

/-- A value this call has just made, or one that was stored at most its seconds ago. -/
def Served.Ok (d : Redis) (s : Served) : Prop :=
  if s.hit then ∃ e ∈ d.stored, e.call.use.key = s.call.use.key ∧
    parse f (stringify f e.value) = some s.value ∧ e.time ≤ s.time ∧
      s.time ≤ e.time + e.seconds * 1000
  else IsMade d s.call s.value s.time

structure Redis.Ok (d : Redis) : Prop where
  entries : ∀ key text expiresAt, d.entries key = some (text, expiresAt) →
    ∃ e ∈ d.stored, e.call.use.key = key ∧ text = stringify f e.value ∧ e.time ≤ d.now ∧
      expiresAt = e.time + e.seconds * 1000
  stored : ∀ e ∈ d.stored, e.Ok d
  served : ∀ s ∈ d.served, s.Ok f d

/-- A value on its way to Redis has been made by its own call. -/
def PcOk : Pc → Redis → Prop
  | .set call value seconds, d =>
      call.use.seconds value = some seconds ∧ IsMade d call value d.now
  | _, _ => True

variable {f} {d d' : Redis}

theorem IsMade.mono {call : Call} {value : Value} {time time' : Time}
    (h : IsMade d call value time) (hg : Grows d d') (ht : time ≤ time') :
    IsMade d' call value time' := by
  obtain ⟨m, hm, hcall, hvalue, hle⟩ := h
  exact ⟨m, hg.made m hm, hcall, hvalue, hle.trans ht⟩

theorem Stored.Ok.mono {e : Stored} (h : e.Ok d) (hg : Grows d d') : e.Ok d' :=
  ⟨h.seconds, h.made.mono hg le_rfl⟩

theorem Served.Ok.mono {s : Served} (h : s.Ok f d) (hg : Grows d d') : s.Ok f d' := by
  unfold Served.Ok at h ⊢
  split_ifs at h ⊢
  · obtain ⟨e, he, hfits⟩ := h
    exact ⟨e, hg.stored e he, hfits⟩
  · exact h.mono hg le_rfl

theorem PcOk.mono {p : Pc} (h : PcOk p d) (hg : Grows d d') : PcOk p d' := by
  cases p with
  | set call value seconds => exact ⟨h.1, h.2.mono hg hg.now⟩
  | _ => trivial

theorem Redis.Ok.ask (h : d.Ok f) (u : Use) : (d.ask u).Ok f := by
  have hg := Grows.ask d u
  exact ⟨h.entries, fun e he => (h.stored e he).mono hg, fun s hs => (h.served s hs).mono hg⟩

theorem Redis.Ok.make (h : d.Ok f) (call : Call) (value : Value) : (d.make call value).Ok f := by
  have hg := Grows.make d call value
  exact ⟨h.entries, fun e he => (h.stored e he).mono hg, fun s hs => (h.served s hs).mono hg⟩

theorem Redis.Ok.serve (h : d.Ok f) {call : Call} {value : Value} {hit : Bool}
    (hs : (Served.mk call value d.now hit).Ok f d) : (d.serve call value hit).Ok f := by
  have hg := Grows.serve d call value hit
  refine ⟨h.entries, fun e he => (h.stored e he).mono hg, fun s hs' => ?_⟩
  rcases List.mem_cons.mp hs' with rfl | hs'
  · exact hs.mono hg
  · exact (h.served s hs').mono hg

theorem Redis.Ok.store (h : d.Ok f) {call : Call} {value : Value} {seconds : ℕ}
    (hseconds : call.use.seconds value = some seconds) (hmade : IsMade d call value d.now) :
    (d.store f call value seconds).Ok f := by
  have hg := Grows.store f d call value seconds
  refine ⟨fun key text expiresAt hentry => ?_, fun e he => ?_, fun s hs => (h.served s hs).mono hg⟩
  · by_cases hkey : key = call.use.key
    · subst hkey
      simp only [Redis.store, Function.update_self, Option.some.injEq, Prod.mk.injEq] at hentry
      exact ⟨_, List.mem_cons_self, rfl, hentry.1.symm, le_rfl, hentry.2.symm⟩
    · simp only [Redis.store, Function.update_of_ne hkey] at hentry
      obtain ⟨e, he, hfits⟩ := h.entries key text expiresAt hentry
      exact ⟨e, hg.stored e he, hfits⟩
  · rcases List.mem_cons.mp he with rfl | he
    · exact ⟨hseconds, hmade.mono hg le_rfl⟩
    · exact (h.stored e he).mono hg

/-- What GET answers was stored, and has not expired. -/
theorem Redis.Ok.hit (h : d.Ok f) {call : Call} {value : Value}
    (hget : cacheGet (d.reply f call.use.key) = some value) :
    (Served.mk call value d.now true).Ok f d := by
  unfold Redis.reply at hget
  split at hget
  · cases hget
  · next text expiresAt hentry =>
      split_ifs at hget with hlive
      · obtain ⟨e, he, hkey, rfl, hle, rfl⟩ := h.entries _ _ _ hentry
        have hparse : parse f (stringify f e.value) = some value := by
          revert hget
          generalize parse f (stringify f e.value) = parsed
          intro hget
          cases parsed with
          | none => cases hget
          | some v =>
              cases v with
              | null => cases hget
              | _ => exact hget
        rw [Served.Ok, if_pos rfl]
        exact ⟨e, he, hkey, hparse, hle, hlive⟩
      · cases hget

theorem Redis.Ok.tick (h : d.Ok f) (ms : ℕ) : Redis.Ok f { d with now := d.now + ms } := by
  have hg := Grows.tick d ms
  refine ⟨fun key text expiresAt hentry => ?_, fun e he => (h.stored e he).mono hg,
    fun s hs => (h.served s hs).mono hg⟩
  obtain ⟨e, he, hkey, htext, hle, hexpires⟩ := h.entries key text expiresAt hentry
  exact ⟨e, he, hkey, htext, hle.trans hg.now, hexpires⟩

theorem Redis.Ok.evict (h : d.Ok f) (key : String) :
    Redis.Ok f { d with entries := Function.update d.entries key none } := by
  have hg := Grows.evict d key
  refine ⟨fun key' text expiresAt hentry => ?_, fun e he => (h.stored e he).mono hg,
    fun s hs => (h.served s hs).mono hg⟩
  by_cases hkey : key' = key
  · subst hkey
    simp only [Function.update_self] at hentry
    cases hentry
  · simp only [Function.update_of_ne hkey] at hentry
    exact h.entries key' text expiresAt hentry

/-- One step keeps the records, and its client's own. -/
theorem step_ok {i : Input} {p q : Pc} (h : step f i p d = some (q, d')) (hd : d.Ok f)
    (hp : PcOk p d) : d'.Ok f ∧ PcOk q d' ∧ Grows d d' := by
  cases step_moves f h with
  | ticks p ms => exact ⟨hd.tick ms, hp.mono (Grows.tick d ms), Grows.tick d ms⟩
  | evicts p key => exact ⟨hd.evict key, hp.mono (Grows.evict d key), Grows.evict d key⟩
  | asks u => exact ⟨hd.ask u, trivial, Grows.ask d u⟩
  | hits call value hlive => exact ⟨hd.serve (hd.hit hlive), trivial, Grows.serve d call value true⟩
  | misses | throws => exact ⟨hd, trivial, Grows.refl d⟩
  | skips call value =>
      have hmade : IsMade (d.make call value) call value d.now :=
        ⟨_, List.mem_cons_self, rfl, rfl, le_rfl⟩
      exact ⟨(hd.make call value).serve hmade, trivial,
        (Grows.make d call value).trans (Grows.serve _ call value false)⟩
  | makes call value seconds hseconds =>
      have hmade : IsMade (d.make call value) call value d.now :=
        ⟨_, List.mem_cons_self, rfl, rfl, le_rfl⟩
      exact ⟨hd.make call value, ⟨hseconds, hmade⟩, Grows.make d call value⟩
  | sets call value seconds command =>
      obtain ⟨hseconds, hmade⟩ := hp
      have hg := Grows.set f d call value seconds command
      have hset : (d.set f call value seconds command).Ok f := by
        cases command with
        | replied | lost => exact hd.store hseconds hmade
        | failed => exact hd
      exact ⟨hset.serve (hmade.mono hg hg.now), trivial, hg.trans (Grows.serve _ call value false)⟩

theorem start_ok (f : NumberFormat) (now : Time) : (start now).data.Ok f where
  entries _ _ _ hentry := by cases hentry
  stored e he := by cases he
  served v hv := by cases hv

theorem run_ok {now : Time} {tr : List (Event (ℕ × Input) (Pool Redis Pc))} {s : Pool Redis Pc}
    (h : Run (next (step f)) (start now) tr s) : s.data.Ok f := by
  have howned : Owned (Redis.Ok f) PcOk s := by
    refine Owned.run (C := fun _ _ _ => True) ?_ ?_ ⟨start_ok f now, fun c => ?_⟩ h fun _ _ => trivial
    · intro i p d q d' _ hd hp hstep
      exact ⟨(step_ok hstep hd hp).1, (step_ok hstep hd hp).2.1⟩
    · intro i p d q d' r _ hd hp hr hstep
      exact hr.mono (step_ok hstep hd hp).2.2
    · trivial
  exact howned.data

end Records

/-! ## Which call is which -/

/-- The call a request is at work on. -/
def Pc.call : Pc → Option Call
  | .idle => none
  | .get call | .fn call | .set call _ _ => some call

/-- The call whose function has not returned yet. -/
def Pc.waits : Pc → Option Call
  | .get call | .fn call => some call
  | .idle | .set .. => none

theorem Pc.call_of_waits {p : Pc} {call : Call} (h : call ∈ p.waits) : call ∈ p.call := by
  cases p with
  | get | fn => exact h
  | idle | set => cases h

/-- The number stands for one call of `wrap`. -/
def Asked (d : Redis) (call : Call) : Prop := d.asked[call.number]? = some call.use

/-- No number is at work twice; none at work has been served, and none that waits has
been made. -/
structure Numbered (s : Pool Redis Pc) : Prop where
  asked : ∀ c, ∀ call ∈ (s.client c).call, Asked s.data call
  alone : ∀ c c', ∀ call ∈ (s.client c).call, ∀ call' ∈ (s.client c').call,
    call.number = call'.number → c = c'
  unserved : ∀ c, ∀ call ∈ (s.client c).call, ∀ v ∈ s.data.served, v.call.number ≠ call.number
  unmade : ∀ c, ∀ call ∈ (s.client c).waits, ∀ m ∈ s.data.made, m.call.number ≠ call.number
  served : ∀ v ∈ s.data.served, Asked s.data v.call
  made : ∀ m ∈ s.data.made, Asked s.data m.call
  servedOnce : (s.data.served.map fun v => v.call.number).Nodup
  madeOnce : (s.data.made.map fun m => m.call.number).Nodup
  hits : ∀ v ∈ s.data.served, v.hit = true → ∀ m ∈ s.data.made, m.call.number ≠ v.call.number

section Numbered
variable {s : Pool Redis Pc} {c : ℕ} {q : Pc} {call : Call} {value : Value}

theorem Asked.lt {d : Redis} (h : Asked d call) : call.number < d.asked.length :=
  (List.getElem?_eq_some_iff.mp h).1

/-- What a client is at work on after one of them has moved. -/
theorem mem_update (at' : Pc → Option Call) {client : ℕ → Pc} {x : ℕ}
    (h : call ∈ at' (Function.update client c q x)) :
    (x = c ∧ call ∈ at' q) ∨ (x ≠ c ∧ call ∈ at' (client x)) := by
  by_cases hx : x = c
  · subst hx
    rw [Function.update_self] at h
    exact .inl ⟨rfl, h⟩
  · rw [Function.update_of_ne hx] at h
    exact .inr ⟨hx, h⟩

/-- A client goes on with the call it is at work on, or drops it. -/
theorem Numbered.goes (h : Numbered s) (hcall : ∀ call ∈ q.call, call ∈ (s.client c).call)
    (hwaits : ∀ call ∈ q.waits, call ∈ (s.client c).waits) :
    Numbered ⟨s.data, Function.update s.client c q⟩ := by
  have hcalls : ∀ x, ∀ call ∈ (Function.update s.client c q x).call,
      call ∈ (s.client x).call := by
    intro x call hx
    rcases mem_update Pc.call hx with ⟨rfl, hq⟩ | ⟨-, hold⟩
    · exact hcall call hq
    · exact hold
  refine { h with
    asked := fun x call hx => h.asked x call (hcalls x call hx)
    alone := fun x x' call hx call' hx' => h.alone x x' call (hcalls x call hx) call'
      (hcalls x' call' hx')
    unserved := fun x call hx => h.unserved x call (hcalls x call hx)
    unmade := fun x call hx => h.unmade x call ?_ }
  rcases mem_update Pc.waits hx with ⟨rfl, hq⟩ | ⟨-, hold⟩
  · exact hwaits call hq
  · exact hold

theorem Numbered.data {d : Redis} (h : Numbered s) (hasked : d.asked = s.data.asked)
    (hmade : d.made = s.data.made) (hserved : d.served = s.data.served) :
    Numbered ⟨d, s.client⟩ := by
  obtain ⟨now, entries, asked, made, stored, served⟩ := d
  cases hasked
  cases hmade
  cases hserved
  exact { h with }

theorem Numbered.ask (h : Numbered s) (u : Use) :
    Numbered ⟨s.data.ask u, Function.update s.client c (.get ⟨s.data.asked.length, u⟩)⟩ := by
  have hnew : Asked (s.data.ask u) ⟨s.data.asked.length, u⟩ := by
    simp [Asked, Redis.ask]
  have hold : ∀ {call}, Asked s.data call → Asked (s.data.ask u) call := by
    intro call hasked
    rw [Asked, Redis.ask, List.getElem?_append_left hasked.lt]
    exact hasked
  exact {
    asked := by
      intro x call hx
      rcases mem_update Pc.call hx with ⟨-, hx⟩ | ⟨-, hx⟩
      · cases hx
        exact hnew
      · exact hold (h.asked x call hx)
    alone := by
      intro x x' call hx call' hx' heq
      rcases mem_update Pc.call hx with ⟨rfl, hq⟩ | ⟨-, hx⟩
      · cases hq
        rcases mem_update Pc.call hx' with ⟨rfl, -⟩ | ⟨-, hx'⟩
        · rfl
        · exact absurd heq.symm (h.asked x' call' hx').lt.ne
      · rcases mem_update Pc.call hx' with ⟨-, hx'⟩ | ⟨-, hx'⟩
        · cases hx'
          exact absurd heq (h.asked x call hx).lt.ne
        · exact h.alone x x' call hx call' hx' heq
    unserved := by
      intro x call hx v hv
      rcases mem_update Pc.call hx with ⟨-, hx⟩ | ⟨-, hx⟩
      · cases hx
        exact (h.served v hv).lt.ne
      · exact h.unserved x call hx v hv
    unmade := by
      intro x call hx m hm
      rcases mem_update Pc.waits hx with ⟨-, hx⟩ | ⟨-, hx⟩
      · cases hx
        exact (h.made m hm).lt.ne
      · exact h.unmade x call hx m hm
    served := fun v hv => hold (h.served v hv)
    made := fun m hm => hold (h.made m hm)
    servedOnce := h.servedOnce
    madeOnce := h.madeOnce
    hits := h.hits }

/-- The function of a call returns. -/
theorem Numbered.make (h : Numbered s) (hwaits : call ∈ (s.client c).waits)
    (hcall : ∀ call' ∈ q.call, call' = call) (hdone : q.waits = none) :
    Numbered ⟨s.data.make call value, Function.update s.client c q⟩ := by
  have hat : call ∈ (s.client c).call := Pc.call_of_waits hwaits
  have hgoes : Numbered ⟨s.data, Function.update s.client c q⟩ := by
    refine h.goes (fun call' hq => ?_) fun call' hq => ?_
    · rwa [hcall call' hq]
    · rw [hdone] at hq
      cases hq
  exact { hgoes with
    unmade := by
      intro x call' hx m hm
      rcases List.mem_cons.mp hm with rfl | hm
      · intro heq
        rcases mem_update Pc.waits hx with ⟨-, hx⟩ | ⟨hc, hx⟩
        · rw [hdone] at hx
          cases hx
        · exact hc (h.alone x c call' (Pc.call_of_waits hx) call hat heq.symm)
      · exact hgoes.unmade x call' hx m hm
    made := by
      intro m hm
      rcases List.mem_cons.mp hm with rfl | hm
      · exact h.asked c call hat
      · exact h.made m hm
    madeOnce := by
      refine List.nodup_cons.mpr ⟨fun hmem => ?_, h.madeOnce⟩
      obtain ⟨m, hm, hnumber⟩ := List.mem_map.mp hmem
      exact h.unmade c call hwaits m hm hnumber
    hits := by
      intro v hv hhit m hm
      rcases List.mem_cons.mp hm with rfl | hm
      · exact (h.unserved c call hat v hv).symm
      · exact h.hits v hv hhit m hm }

/-- A call is given its value; a hit is one whose function never ran. -/
theorem Numbered.serve {hit : Bool} (h : Numbered s) (hat : call ∈ (s.client c).call)
    (hhit : hit = true → call ∈ (s.client c).waits) :
    Numbered ⟨s.data.serve call value hit, Function.update s.client c .idle⟩ := by
  have hgoes : Numbered ⟨s.data, Function.update s.client c .idle⟩ :=
    h.goes (fun _ hq => by cases hq) fun _ hq => by cases hq
  exact { hgoes with
    unserved := by
      intro x call' hx v hv
      rcases List.mem_cons.mp hv with rfl | hv
      · intro heq
        rcases mem_update Pc.call hx with ⟨-, hx⟩ | ⟨hc, hx⟩
        · cases hx
        · exact hc (h.alone x c call' hx call hat heq.symm)
      · exact hgoes.unserved x call' hx v hv
    served := by
      intro v hv
      rcases List.mem_cons.mp hv with rfl | hv
      · exact h.asked c call hat
      · exact h.served v hv
    servedOnce := by
      refine List.nodup_cons.mpr ⟨fun hmem => ?_, h.servedOnce⟩
      obtain ⟨v, hv, hnumber⟩ := List.mem_map.mp hmem
      exact h.unserved c call hat v hv hnumber
    hits := by
      intro v hv hhit' m hm
      rcases List.mem_cons.mp hv with rfl | hv
      · exact h.unmade c call (hhit hhit') m hm
      · exact h.hits v hv hhit' m hm }

theorem Numbered.step {f : NumberFormat} {l : ℕ × Input} {t : Pool Redis Pc} (h : Numbered s)
    (hn : next (CacheAside.step f) l s = some t) : Numbered t := by
  obtain ⟨c, i⟩ := l
  obtain ⟨q, d, hstep, rfl⟩ := next_cases hn
  have hmoves := step_moves f hstep
  have hself : Function.update s.client c (s.client c) = s.client := Function.update_eq_self c _
  simp only at hmoves ⊢
  generalize hp : s.client c = p at hmoves
  cases hmoves with
  | ticks | evicts =>
      rw [← hp, hself]
      exact h.data rfl rfl rfl
  | asks u => exact h.ask u
  | hits call value =>
      exact h.serve (by rw [hp]; rfl) fun _ => by rw [hp]; rfl
  | misses call =>
      exact h.goes (fun call' hq => by rwa [hp]) fun call' hq => by rwa [hp]
  | skips call value =>
      have hmade : Numbered ⟨s.data.make call value, Function.update s.client c (.set call value 0)⟩ :=
        h.make (by rw [hp]; rfl) (fun _ hq => (Option.some.inj hq).symm) rfl
      have hat : call ∈ (Function.update s.client c (.set call value 0) c).call := by
        rw [Function.update_self]
        rfl
      have hserved : Numbered ⟨(s.data.make call value).serve call value false,
          Function.update (Function.update s.client c (.set call value 0)) c .idle⟩ :=
        hmade.serve hat fun hhit => by cases hhit
      rwa [Function.update_idem] at hserved
  | makes call value seconds =>
      exact h.make (by rw [hp]; rfl) (fun _ hq => (Option.some.inj hq).symm) rfl
  | throws => exact h.goes (fun _ hq => by cases hq) fun _ hq => by cases hq
  | sets call value seconds command =>
      have hset : Numbered ⟨s.data.set f call value seconds command, s.client⟩ := by
        cases command with
        | replied | lost | failed => exact h.data rfl rfl rfl
      exact hset.serve (by simp only [hp]; rfl) fun hhit => by cases hhit

theorem run_numbered {f : NumberFormat} {now : Time}
    {tr : List (Event (ℕ × Input) (Pool Redis Pc))}
    (h : Run (next (CacheAside.step f)) (start now) tr s) : Numbered s := by
  refine h.invariant Numbered ?_ fun l s t hs hn => hs.step hn
  exact {
    asked := fun _ _ hcall => by cases hcall
    alone := fun _ _ _ hcall => by cases hcall
    unserved := fun _ _ hcall => by cases hcall
    unmade := fun _ _ hcall => by cases hcall
    served := fun _ hv => by cases hv
    made := fun _ hm => by cases hm
    servedOnce := List.nodup_nil
    madeOnce := List.nodup_nil
    hits := fun _ hv => by cases hv }

end Numbered

/-- Keys of different kinds of call are different texts. However requests, failures of
Redis, evictions and late writes interleave, a call is served once and its function
returns at most once; what it is given on a miss is what its own function has just
returned, and on a hit, where its function never ran, what is read from the text of what
another call of the same key returned and wrote, for as long as the rule of that key says,
and has not expired. -/
theorem served_fresh (f : NumberFormat) {now : Time}
    {tr : List (Event (ℕ × Input) (Pool Redis Pc))} {s : Pool Redis Pc}
    (h : Run (next (step f)) (start now) tr s) :
    (∀ u v : Use, u.key = v.key → u.kind = v.kind) ∧
    (s.data.served.map fun v => v.call.number).Nodup ∧
    (s.data.made.map fun m => m.call.number).Nodup ∧
    ∀ v ∈ s.data.served, Asked s.data v.call ∧ ∃ m ∈ s.data.made, Asked s.data m.call ∧
      m.call.use.key = v.call.use.key ∧ m.time ≤ v.time ∧
      (Exact f m.value → v.value = m.value) ∧
      (v.hit = false → m.call = v.call ∧ m.value = v.value) ∧
      (v.hit = true → (∀ m' ∈ s.data.made, m'.call.number ≠ v.call.number) ∧
        parse f (stringify f m.value) = some v.value ∧
        ∃ e ∈ s.data.stored, e.call = m.call ∧ e.value = m.value ∧
          m.time ≤ e.time ∧ e.time ≤ v.time ∧ v.call.use.seconds m.value = some e.seconds ∧
          v.time ≤ e.time + e.seconds * 1000) := by
  have hok := run_ok h
  have hnumbered := run_numbered h
  refine ⟨fun u v => Use.kind_of_key, hnumbered.servedOnce, hnumbered.madeOnce,
    fun v hv => ⟨hnumbered.served v hv, ?_⟩⟩
  have hserved := hok.served v hv
  unfold Served.Ok at hserved
  split_ifs at hserved with hhit
  · obtain ⟨e, he, hkey, hparse, hle, hlive⟩ := hserved
    obtain ⟨m, hm, hcall, hvalue, hmade⟩ := (hok.stored e he).made
    refine ⟨m, hm, hnumbered.made m hm, hcall ▸ hkey, hmade.trans hle, fun hexact => ?_,
      fun hmiss => ?_, fun _ => ⟨hnumbered.hits v hv hhit, ?_, e, he, hcall.symm, hvalue.symm,
        hmade, hle, ?_, hlive⟩⟩
    · rw [← hvalue, parse_stringify f hexact, Option.some.injEq] at hparse
      exact hparse.symm
    · rw [hhit] at hmiss
      cases hmiss
    · rw [hvalue]
      exact hparse
    · rw [← Use.seconds_of_kind (Use.kind_of_key hkey), hvalue]
      exact (hok.stored e he).seconds
  · obtain ⟨m, hm, hcall, hvalue, hmade⟩ := hserved
    exact ⟨m, hm, hnumbered.made m hm, congrArg (fun call => call.use.key) hcall, hmade,
      fun _ => hvalue.symm, fun _ => ⟨hcall, hvalue⟩, fun hhit' => absurd hhit' hhit⟩

/-- Two requests for the tickers, ten seconds apart; the reply to the write is lost. -/
def twoRequests : List (ℕ × Input) :=
  [(0, .request .tickers), (0, .redis .replied),
    (0, .returns (.array [.object [("symbol", .text "BTC")]])), (0, .redis .lost), (0, .tick 10000),
    (1, .request .tickers), (1, .redis .replied)]

theorem served_fresh_twoRequests :
    ∃ tr s, Run (next (step wholeNumbers)) (start 0) tr s ∧
      ∃ v ∈ s.data.served, v.call = ⟨1, .tickers⟩ ∧ v.hit = true ∧
        ∃ e ∈ s.data.stored, v.time ≤ e.time + e.seconds * 1000 := by
  obtain ⟨tr, s, hrun, -, hs⟩ := Run.of_trace_map (next (step wholeNumbers)) twoRequests (start 0)
    (fun _ s => s.data.served.map fun v => (v.call, v.hit))
    [(⟨1, .tickers⟩, true), (⟨0, .tickers⟩, false)] (by decide +kernel)
  have hmem : ((⟨1, .tickers⟩ : Call), true) ∈ s.data.served.map fun v => (v.call, v.hit) := by
    rw [hs]
    exact List.mem_cons_self
  obtain ⟨v, hv, hfits⟩ := List.mem_map.mp hmem
  obtain ⟨hcall, hhit⟩ : v.call = ⟨1, .tickers⟩ ∧ v.hit = true := by simpa using hfits
  obtain ⟨-, -, -, hserved⟩ := served_fresh wholeNumbers hrun
  obtain ⟨-, m, -, -, -, -, -, -, hstored⟩ := hserved v hv
  obtain ⟨-, -, e, he, -, -, -, -, -, hlive⟩ := hstored hhit
  exact ⟨tr, s, hrun, v, hv, hcall, hhit, e, he, hlive⟩

end MaxOne.CacheAside
