import MaxOne.Library.Runs
import MaxOne.Library.ScriptValue
import MaxOne.Schema

/-!
# The rate service

`getRate` asks the cache, then the provider, whose answer is an arbitrary value.
A rate is stored as a text and read back from it, so the decimal library meets
every rate twice. The library is a parameter: `DecimalJs` holds its constructor
and its `toString` with what their documentation says of them.

The service fails closed when it answers a finite rate above zero, or throws 503
and stores nothing. It does so exactly when what it reads is `Sound`. The
exceptions are a body that is not JSON, and a rate that is zero, negative, infinite
or not a number.
-/
namespace MaxOne.RatesService
open Library.Binary64 Library.ScriptValue Library.Runs Library.DecimalRounding MaxOne.Rates
  MaxOne.Schema

/-! ## The decimal library -/

structure DecimalJs where
  /-- `new Prisma.Decimal(v)`; `none` is a DecimalError. -/
  construct : Value → Option Decimal
  /-- `d.toString()`. -/
  toText : Decimal → String
  construct_finite (q : ℚ) :
    ∃ d, construct (.number (.finite q)) = some (.finite d) ∧ (0 < d.coeff ↔ 0 < q)
  construct_infinity (negative : Bool) :
    construct (.number (.infinity negative)) = some (.infinity negative)
  construct_nan : construct (.number .nan) = some .nan
  construct_null : construct .null = none
  construct_bool (b : Bool) : construct (.bool b) = none
  construct_array (items : List Value) : construct (.array items) = none
  construct_toText {v : Value} {d : Decimal} (h : construct v = some d) :
    construct (.text (toText d)) = some d

def DecimalJs.newDecimal (js : DecimalJs) (v : Value) : Except HttpException Decimal :=
  match js.construct v with
  | none => .error internalError
  | some d => .ok d

/-! ## The provider -/

/-- What `fetch` and `res.json()` do; a body of `none` is one that does not parse. -/
inductive Provider where
  | unreachable
  | response (status : ℕ) (body : Option Value)

/-- `res.ok`. -/
def isOk (status : ℕ) : Bool := 200 ≤ status ∧ status ≤ 299

/-- What reading a property yields. Some reads yield no JSON value: an inherited
method, or one half of a surrogate pair. -/
inductive Property where
  | undefined
  | value (v : Value)
  | other

/-- The index a key stands for, if it is written the canonical way. -/
def arrayIndex (key : String) : Option ℕ :=
  (natural 10 key.toList).filter fun i => toString i = key

/-- The code units of a text. -/
def codeUnits (s : String) : List (Option Char) :=
  s.toList.flatMap fun c => if c.val < 0x10000 then [some c] else [none, none]

/-- `v[key]` for a key of three characters, the length of a currency code: an array
and a text inherit no other names of that length. -/
def property (v : Value) (key : String) : Property :=
  match v with
  | .object _ =>
      match v.get key with
      | none => .undefined
      | some field => .value field
  | .array items =>
      if key ∈ ["map", "pop"] then .other
      else
        match (arrayIndex key).bind (items[·]?) with
        | none => .undefined
        | some item => .value item
  | .text s =>
      if key ∈ ["big", "sub", "sup"] then .other
      else
        match (arrayIndex key).bind ((codeUnits s)[·]?) with
        | none => .undefined
        | some none => .other
        | some (some c) => .value (.text (String.singleton c))
  | _ => .undefined

/-- `body?.rates?.[to]`. -/
def rateIn (body : Value) (toCurrency : String) : Property :=
  match body.get "rates" with
  | none => .undefined
  | some rates => property rates toCurrency

def providerUnavailable : HttpException := serviceUnavailable "Exchange rate provider unavailable"

def noRate (fromCurrency toCurrency : String) : HttpException :=
  serviceUnavailable ("No exchange rate for " ++ fromCurrency ++ " -> " ++ toCurrency)

/-- `res.json()` stands outside the `try`. -/
def fetchRate (js : DecimalJs) (provider : Provider) (fromCurrency toCurrency : String) :
    Except HttpException Decimal :=
  match provider with
  | .unreachable => .error providerUnavailable
  | .response status body =>
      if isOk status then
        match body with
        | none => .error internalError
        | some body =>
            match rateIn body toCurrency with
            | .undefined | .value .null => .error (noRate fromCurrency toCurrency)
            | .value rate => js.newDecimal rate
            | .other => .error internalError
      else .error providerUnavailable

/-! ## The cache -/

/-- What a GET answers: an error, no entry, or a text with what `JSON.parse` makes of it. -/
inductive RedisReply where
  | fails
  | nil
  | text (parsed : Option Value)

/-- `CacheService.get`, of which `null` is a miss. -/
def cacheGet : RedisReply → Option Value
  | .fails | .nil | .text none | .text (some .null) => none
  | .text (some v) => some v

def defaultCacheable : Value → Bool
  | .null => false
  | .array items => !items.isEmpty
  | _ => true

/-- A value or an exception, with the SET that was sent. -/
structure Outcome (α : Type) where
  result : Except HttpException α
  stored : Option (String × Value)

/-- `CacheService.wrap`; an exception of `fn` passes through. -/
def wrap (key : String) (reply : RedisReply) (fn : Except HttpException Value) : Outcome Value :=
  match cacheGet reply with
  | some hit => ⟨.ok hit, none⟩
  | none =>
      match fn with
      | .error e => ⟨.error e, none⟩
      | .ok value => ⟨.ok value, if defaultCacheable value then some (key, value) else none⟩

/-! ## getRate -/

structure RateRequest where
  fromCurrency : String
  toCurrency : String
  reply : RedisReply
  provider : Provider

def cacheKey (fromCurrency toCurrency : String) : String :=
  "rates:" ++ fromCurrency ++ ":" ++ toCurrency

/-- The function handed to `wrap`. -/
def fetchText (js : DecimalJs) (r : RateRequest) : Except HttpException Value := do
  let rate ← fetchRate js r.provider r.fromCurrency r.toCurrency
  .ok (.text (js.toText rate))

def getRate (js : DecimalJs) (r : RateRequest) : Outcome Decimal :=
  if r.fromCurrency = r.toCurrency then ⟨.ok (.finite ⟨1, 0⟩), none⟩
  else
    let rate := wrap (cacheKey r.fromCurrency r.toCurrency) r.reply (fetchText js r)
    ⟨rate.result >>= js.newDecimal, rate.stored⟩

structure Quote where
  fromCurrency : String
  toCurrency : String
  amount : ℤ
  rate : String
  converted : Option ℤ

def quote (js : DecimalJs) (r : RateRequest) (amount : ℤ) : Except HttpException Quote := do
  let rate ← (getRate js r).result
  .ok ⟨r.fromCurrency, r.toCurrency, amount, js.toText rate, convertMinor amount rate⟩

/-! ## Failing closed -/

/-- 503, or a finite rate above zero. -/
def Closed (result : Except HttpException Decimal) : Prop :=
  (∃ message, result = .error (serviceUnavailable message)) ∨
    ∃ d, result = .ok (.finite d) ∧ 0 < d.coeff

/-- An exception is 503 and leaves nothing in the cache. -/
def FailsClosed (o : Outcome Decimal) : Prop :=
  (∃ message, o = ⟨.error (serviceUnavailable message), none⟩) ∨
    ∃ d, o.result = .ok (.finite d) ∧ 0 < d.coeff

/-- What the constructor reads as a finite number above zero; what it makes of a text
is the library's affair. -/
def DecimalJs.Usable (js : DecimalJs) : Value → Prop
  | .number n => ∃ q, n = .finite q ∧ 0 < q
  | .text s => ∃ d, js.construct (.text s) = some (.finite d) ∧ 0 < d.coeff
  | .object fields => ∃ d, js.construct (.object fields) = some (.finite d) ∧ 0 < d.coeff
  | .null | .bool _ | .array _ => False

/-- The pair is missing, or its rate is usable. -/
def SoundBody (js : DecimalJs) (body : Value) (toCurrency : String) : Prop :=
  match rateIn body toCurrency with
  | .undefined | .value .null => True
  | .value rate => js.Usable rate
  | .other => False

/-- No answer, an error status, or a body that is JSON and sound. -/
def SoundProvider (js : DecimalJs) (provider : Provider) (toCurrency : String) : Prop :=
  match provider with
  | .unreachable => True
  | .response status body => isOk status → ∃ json, body = some json ∧ SoundBody js json toCurrency

/-- What the request reads is usable: the cached rate, or on a miss the provider's. -/
def Sound (js : DecimalJs) (r : RateRequest) : Prop :=
  match cacheGet r.reply with
  | some hit => js.Usable hit
  | none => SoundProvider js r.provider r.toCurrency

section Closed
variable {js : DecimalJs} {r : RateRequest} {result : Except HttpException Decimal}

theorem closed_unavailable (message : String) : Closed (.error (serviceUnavailable message)) :=
  .inl ⟨message, rfl⟩

theorem not_closed_internalError : ¬ Closed (.error internalError) := by
  intro h
  rcases h with ⟨message, hm⟩ | ⟨d, hd, -⟩
  · have hstatus : 500 = 503 := congrArg HttpException.status (Except.error.inj hm)
    omega
  · cases hd

theorem closed_ok {d : Decimal} : Closed (.ok d) ↔ ∃ x, d = .finite x ∧ 0 < x.coeff := by
  constructor
  · rintro (⟨message, hm⟩ | ⟨x, hx, hpos⟩)
    · cases hm
    · exact ⟨x, Except.ok.inj hx, hpos⟩
  · rintro ⟨x, rfl, hpos⟩
    exact .inr ⟨x, rfl, hpos⟩

theorem usable_iff (v : Value) :
    js.Usable v ↔ ∃ d, js.construct v = some (.finite d) ∧ 0 < d.coeff := by
  cases v with
  | number n =>
      cases n with
      | finite q =>
          obtain ⟨d, hd, hsign⟩ := js.construct_finite q
          simp [DecimalJs.Usable, hd, hsign]
      | infinity negative => simp [DecimalJs.Usable, js.construct_infinity]
      | nan => simp [DecimalJs.Usable, js.construct_nan]
  | text s => rfl
  | object fields => rfl
  | null => simp [DecimalJs.Usable, js.construct_null]
  | bool b => simp [DecimalJs.Usable, js.construct_bool]
  | array items => simp [DecimalJs.Usable, js.construct_array]

theorem newDecimal_closed (v : Value) : Closed (js.newDecimal v) ↔ js.Usable v := by
  rw [usable_iff, DecimalJs.newDecimal]
  cases hv : js.construct v with
  | none => simp [not_closed_internalError]
  | some d => simp [closed_ok]

theorem newDecimal_ok {v : Value} {d : Decimal} (h : js.newDecimal v = .ok d) :
    js.construct v = some d := by
  unfold DecimalJs.newDecimal at h
  split at h
  · cases h
  · next e hv =>
      rw [hv, Except.ok.inj h]

/-! ### fetchRate -/

theorem fetchRate_closed (provider : Provider) (fromCurrency toCurrency : String) :
    Closed (fetchRate js provider fromCurrency toCurrency) ↔
      SoundProvider js provider toCurrency := by
  cases provider with
  | unreachable => simp [fetchRate, SoundProvider, providerUnavailable, closed_unavailable]
  | response status body =>
      by_cases hok : isOk status = true
      · cases body with
        | none => simp [fetchRate, SoundProvider, hok, not_closed_internalError]
        | some json =>
            simp only [fetchRate, SoundProvider, hok, if_true, SoundBody, Option.some.injEq,
              exists_eq_left', forall_const]
            cases rateIn json toCurrency with
            | undefined => simp [noRate, closed_unavailable]
            | other => simp [not_closed_internalError]
            | value rate =>
                cases rate with
                | null => simp [noRate, closed_unavailable]
                | _ => exact newDecimal_closed _
      · simp [fetchRate, SoundProvider, hok, providerUnavailable, closed_unavailable]

/-- A rate that was fetched comes out of the constructor. -/
theorem fetchRate_ok {provider : Provider} {fromCurrency toCurrency : String} {d : Decimal}
    (h : fetchRate js provider fromCurrency toCurrency = .ok d) : ∃ v, js.construct v = some d := by
  cases provider with
  | unreachable => cases h
  | response status body =>
      simp only [fetchRate] at h
      split_ifs at h with hok
      cases body with
      | none => cases h
      | some json =>
          simp only at h
          split at h
          · cases h
          · cases h
          · exact ⟨_, newDecimal_ok h⟩
          · cases h

/-! ### getRate -/

theorem getRate_hit (hne : r.fromCurrency ≠ r.toCurrency) {hit : Value}
    (hget : cacheGet r.reply = some hit) : getRate js r = ⟨js.newDecimal hit, none⟩ := by
  simp only [getRate, if_neg hne, wrap, hget]
  rfl

theorem getRate_miss_error (hne : r.fromCurrency ≠ r.toCurrency) (hget : cacheGet r.reply = none)
    {e : HttpException} (hfetch : fetchRate js r.provider r.fromCurrency r.toCurrency = .error e) :
    getRate js r = ⟨.error e, none⟩ := by
  simp only [getRate, if_neg hne, wrap, hget, fetchText, hfetch]
  rfl

/-- The text form loses nothing. -/
theorem getRate_miss_ok (hne : r.fromCurrency ≠ r.toCurrency) (hget : cacheGet r.reply = none)
    {d : Decimal} (hfetch : fetchRate js r.provider r.fromCurrency r.toCurrency = .ok d) :
    getRate js r =
      ⟨.ok d, some (cacheKey r.fromCurrency r.toCurrency, .text (js.toText d))⟩ := by
  obtain ⟨v, hv⟩ := fetchRate_ok hfetch
  have hread : js.newDecimal (.text (js.toText d)) = .ok d := by
    rw [DecimalJs.newDecimal, js.construct_toText hv]
  simp only [getRate, if_neg hne, wrap, hget, fetchText, hfetch]
  exact congrArg (Outcome.mk · _) hread

theorem failsClosed_hit {v : Value} : FailsClosed ⟨js.newDecimal v, none⟩ ↔ js.Usable v := by
  rw [← newDecimal_closed]
  simp only [FailsClosed, Closed, Outcome.mk.injEq, and_true]

/-- The service fails closed exactly on what is sound. -/
theorem failsClosed_iff (hne : r.fromCurrency ≠ r.toCurrency) :
    FailsClosed (getRate js r) ↔ Sound js r := by
  unfold Sound
  cases hget : cacheGet r.reply with
  | some hit =>
      rw [getRate_hit hne hget]
      exact failsClosed_hit
  | none =>
      change _ ↔ SoundProvider js r.provider r.toCurrency
      rw [← fetchRate_closed r.provider r.fromCurrency]
      cases hfetch : fetchRate js r.provider r.fromCurrency r.toCurrency with
      | error e =>
          rw [getRate_miss_error hne hget hfetch]
          simp [FailsClosed, Closed]
      | ok d =>
          rw [getRate_miss_ok hne hget hfetch]
          simp [FailsClosed, Closed]

theorem stored_usable {key : String} {v : Value} (hclosed : FailsClosed (getRate js r))
    (h : (getRate js r).stored = some (key, v)) : js.Usable v := by
  by_cases hne : r.fromCurrency = r.toCurrency
  · simp [getRate, hne] at h
  · cases hget : cacheGet r.reply with
    | some hit => simp [getRate_hit hne hget] at h
    | none =>
        cases hfetch : fetchRate js r.provider r.fromCurrency r.toCurrency with
        | error e => simp [getRate_miss_error hne hget hfetch] at h
        | ok d =>
            rw [getRate_miss_ok hne hget hfetch] at h hclosed
            obtain ⟨v', hv'⟩ := fetchRate_ok hfetch
            rcases hclosed with ⟨message, hm⟩ | ⟨x, hx, hpos⟩
            · cases hm
            · cases h
              cases hx
              exact (usable_iff _).mpr ⟨x, js.construct_toText hv', hpos⟩

theorem getRate_same (h : r.fromCurrency = r.toCurrency) :
    getRate js r = ⟨.ok (.finite ⟨1, 0⟩), none⟩ := if_pos h

/-- A preview shows a number, and not a negative one. -/
theorem FailsClosed.quote_nonneg {amount : ℤ} {q : Quote} (hclosed : FailsClosed (getRate js r))
    (ha : 0 ≤ amount) (h : quote js r amount = .ok q) :
    ∃ converted, q.converted = some converted ∧ 0 ≤ converted := by
  rcases hclosed with ⟨message, hm⟩ | ⟨d, hd, hpos⟩
  · rw [quote, hm] at h
    cases h
  · rw [quote, hd] at h
    cases h
    have hnonneg : (Decimal.finite d).Nonneg := hpos.le
    exact ⟨_, rfl, convertMinor_nonneg ha hnonneg rfl⟩

end Closed

/-! ## Requests that share a cache -/

/-- Texts under their keys, as `JSON.parse` reads them. -/
abbrev Cache := String → Option Value

/-- Entries expire at any time, and any command to Redis may fail. -/
inductive Label where
  | expire (key : String)
  | request (fromCurrency toCurrency : String) (provider : Provider) (getFails setFails : Bool)

def Cache.reply (cache : Cache) (key : String) (getFails : Bool) : RedisReply :=
  if getFails then .fails
  else
    match cache key with
    | none => .nil
    | some v => .text (some v)

/-- What a request reads, given the cache. -/
def Label.read (cache : Cache) : Label → Option RateRequest
  | .expire _ => none
  | .request fromCurrency toCurrency provider getFails _ =>
      let reply := cache.reply (cacheKey fromCurrency toCurrency) getFails
      some ⟨fromCurrency, toCurrency, reply, provider⟩

def Cache.set (cache : Cache) (setFails : Bool) : Option (String × Value) → Cache
  | none => cache
  | some (key, v) => if setFails then cache else Function.update cache key (some v)

def next (js : DecimalJs) (l : Label) (cache : Cache) : Option Cache :=
  match l with
  | .expire key => some (Function.update cache key none)
  | .request _ _ _ _ setFails =>
      (l.read cache).map fun r => cache.set setFails (getRate js r).stored

/-- The provider of a request that fetches is sound. -/
def Label.Sound (js : DecimalJs) : Label → Prop
  | .expire _ => True
  | .request _ toCurrency provider _ _ => SoundProvider js provider toCurrency

section Cache
variable {js : DecimalJs} {cache cache' : Cache} {l : Label}

def CacheOk (js : DecimalJs) (cache : Cache) : Prop :=
  ∀ key v, cache key = some v → js.Usable v

theorem CacheOk.update (h : CacheOk js cache) {key : String} {entry : Option Value}
    (hentry : ∀ v, entry = some v → js.Usable v) :
    CacheOk js (Function.update cache key entry) := by
  intro k v hk
  by_cases he : k = key
  · subst he
    rw [Function.update_self] at hk
    exact hentry v hk
  · rw [Function.update_of_ne he] at hk
    exact h k v hk

theorem cacheGet_reply {key : String} {getFails : Bool} {hit : Value}
    (h : cacheGet (cache.reply key getFails) = some hit) : cache key = some hit := by
  cases getFails with
  | true => cases h
  | false =>
      cases hentry : cache key with
      | none => simp [Cache.reply, hentry, cacheGet] at h
      | some v =>
          simp only [Cache.reply, hentry] at h
          cases v with
          | null => cases h
          | _ => exact h

theorem CacheOk.failsClosed (h : CacheOk js cache) (hl : l.Sound js) {r : RateRequest}
    (hr : l.read cache = some r) : FailsClosed (getRate js r) := by
  by_cases hne : r.fromCurrency = r.toCurrency
  · rw [getRate_same hne]
    exact .inr ⟨⟨1, 0⟩, rfl, by decide⟩
  · rw [failsClosed_iff hne]
    cases l with
    | expire key => cases hr
    | request fromCurrency toCurrency provider getFails setFails =>
        cases hr
        unfold Sound
        split
        · next hit hget => exact h _ hit (cacheGet_reply hget)
        · exact hl

theorem CacheOk.next (h : CacheOk js cache) (hl : l.Sound js)
    (hn : next js l cache = some cache') : CacheOk js cache' := by
  cases l with
  | expire key =>
      cases hn
      exact h.update fun v hv => nomatch hv
  | request fromCurrency toCurrency provider getFails setFails =>
      rw [RatesService.next] at hn
      obtain ⟨r, hr, hcache⟩ := Option.map_eq_some_iff.mp hn
      have hclosed := h.failsClosed hl hr
      rw [← hcache]
      cases hstored : (getRate js r).stored with
      | none => exact h
      | some entry =>
          have husable := stored_usable hclosed hstored
          cases setFails with
          | true => exact h
          | false => exact h.update fun v hv => Option.some.inj hv ▸ husable

/-- From an empty cache on, sound providers are enough: no unusable rate is ever stored, so
none is read back, and a preview of an amount shows a number that is not negative. -/
theorem requests_failClosed {tr : List (Event Label Cache)}
    (h : Run (next js) (fun _ => none) tr cache) (hs : ∀ e ∈ tr, e.label.Sound js) :
    CacheOk js cache ∧
      ∀ e ∈ tr, ∀ r, e.label.read e.pre = some r → FailsClosed (getRate js r) ∧
        ∀ amount, 0 ≤ amount → ∀ q, quote js r amount = .ok q →
          ∃ converted, q.converted = some converted ∧ 0 ≤ converted := by
  have hempty : CacheOk js fun _ => none := fun _ _ hv => nomatch hv
  have hok := h.invariant_events (fun e => e.label.Sound js) (CacheOk js) hempty
    (fun _ _ _ hi hn hl => hi.next hl hn) hs
  refine ⟨hok.1, fun e he r hr => ?_⟩
  have hclosed := (hok.2 e he).1.failsClosed (hs e he) hr
  exact ⟨hclosed, fun amount ha q hq => hclosed.quote_nonneg ha hq⟩

end Cache

end MaxOne.RatesService
