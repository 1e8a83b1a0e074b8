import Mathlib.Data.List.ReduceOption
import Mathlib.Data.List.Sort
import MaxOne.RatesService

/-!
# Prices and candles of Kraken

`CryptoProvider`: one HTTP answer, the pick of a pair's entry in it and the reading of
its rows, each number through `Number`. `none` in a reading is a TypeError, which the
methods catch around everything they do.

A row is charted when its five numbers are finite. A coin is listed when its price is
finite and above zero; its high and low of the day are taken as they are read.
-/
namespace MaxOne.Kraken
open Library.Binary64 Library.ScriptValue MaxOne.RatesService

/-! ## Coins and candles -/

structure Coin where
  id : String
  symbol : String
  name : String
  krakenPair : String
  krakenBase : String
  image : String
  deriving DecidableEq, Repr

def bitcoin : Coin := ⟨"bitcoin", "BTC", "Bitcoin", "XBTUSD", "XBT",
  "https://assets.coingecko.com/coins/images/1/large/bitcoin.png"⟩

/-- `COINS`. -/
def coins : List Coin :=
  [bitcoin,
   ⟨"ethereum", "ETH", "Ethereum", "ETHUSD", "ETH",
      "https://assets.coingecko.com/coins/images/279/large/ethereum.png"⟩,
   ⟨"solana", "SOL", "Solana", "SOLUSD", "SOL",
      "https://assets.coingecko.com/coins/images/4128/large/solana.png"⟩,
   ⟨"cardano", "ADA", "Cardano", "ADAUSD", "ADA",
      "https://assets.coingecko.com/coins/images/975/large/cardano.png"⟩,
   ⟨"dogecoin", "DOGE", "Dogecoin", "XDGUSD", "XDG",
      "https://assets.coingecko.com/coins/images/5/large/dogecoin.png"⟩]

def coinById (id : String) : Option Coin := coins.find? fun c => c.id = id

/-- `RANGES`. -/
inductive Range where
  | m1 | m5 | m15 | h1 | h4 | d1
  deriving DecidableEq, Repr

/-- `KRAKEN_INTERVAL`, in minutes. -/
def krakenInterval : Range → ℕ
  | .m1 => 1
  | .m5 => 5
  | .m15 => 15
  | .h1 => 60
  | .h4 => 240
  | .d1 => 1440

/-- Open, high, low and close of the interval from `t` on, in seconds. -/
structure Candle where
  t : ℚ
  o : ℚ
  h : ℚ
  l : ℚ
  c : ℚ
  deriving DecidableEq, Repr

/-- A ticker is made of a finite price only. -/
structure Ticker where
  symbol : String
  price : ℚ
  high24h : Number
  low24h : Number
  deriving DecidableEq, Repr

/-! ## The answer -/

/-- `error?.length` is truthy. -/
def hasLength : Value → Bool
  | .text s => s ≠ ""
  | .array items => !items.isEmpty
  | .object fields => ((Value.object fields).get "length").elim false Value.truthy
  | _ => false

/-- The value of `result` in a body that reports no error. Only an object has the two
properties; a body of null throws and a nonempty error ends in null too. -/
def resultOf (body : Value) : Option Value :=
  if (body.get "error").elim false hasLength then none
  else
    match body.get "result" with
    | none | some .null => none
    | some result => some result

/-- `CryptoProvider.get`. -/
def get : Provider → Option Value
  | .unreachable => none
  | .response status body => if isOk status then body.bind resultOf else none

/-! ## pickResult -/

/-- An array index comes first among the keys of an object. -/
def isIndex (key : String) : Bool := (arrayIndex key).any fun i => i < 2 ^ 32 - 1

/-- `Object.keys`: a field given twice keeps its first place. -/
def keys : Value → List String
  | .object fields =>
      let names := (fields.map Prod.fst).reverse.dedup.reverse
      (names.filter isIndex).insertionSort (fun a b => (arrayIndex a).getD 0 ≤ (arrayIndex b).getD 0) ++
        names.filter fun name => !isIndex name
  | .array items => (List.range items.length).map toString
  | .text s => (List.range (codeUnits s).length).map toString
  | _ => []

/-- `k.includes(base) && k.endsWith('USD')`. -/
def isPair (base key : String) : Bool := base.toList <:+: key.toList ∧ "USD".toList <:+ key.toList

/-- `result[key]` of one of its own keys. -/
def own (result : Value) (key : String) : Option Value :=
  match result with
  | .array items => (arrayIndex key).bind (items[·]?)
  | .text s => (arrayIndex key).bind fun i =>
      ((codeUnits s)[i]?).map fun unit => .text (unit.elim "\uFFFD" String.singleton)
  | result => result.get key

def pickResult (result : Value) (base : Option String) : Option Value :=
  let names := (keys result).filter fun k => k ≠ "last"
  let key := match base with
    | some base => names.find? (isPair base)
    | none => names.head?
  key.bind (own result)

/-! ## Readings -/

/-- `Number(v[i])`; a `v` of null throws. -/
def numberAt (i : ℕ) : Value → Option Number
  | .null => none
  | .array items => (items[i]?).elim (some .nan) Value.toNumber
  | .object fields => ((Value.object fields).get (toString i)).elim (some .nan) Value.toNumber
  | .text s => some (match (codeUnits s)[i]? with
      | some (some c) => ofText (String.singleton c)
      | _ => .nan)
  | _ => some .nan

structure Reading where
  price : Number
  high24h : Number
  low24h : Number
  deriving DecidableEq, Repr

/-- `row.c[0]`, `row.h[1]` and `row.l[1]` as numbers. -/
def readRow (row : Value) : Option Reading := do
  let price ← numberAt 0 (← row.get "c")
  let high24h ← numberAt 1 (← row.get "h")
  let low24h ← numberAt 1 (← row.get "l")
  some ⟨price, high24h, low24h⟩

/-- The coin is skipped unless the price is finite and above zero. -/
def priced (symbol : String) (r : Reading) : Option Ticker :=
  match r.price with
  | .finite price => if price ≤ 0 then none else some ⟨symbol, price, r.high24h, r.low24h⟩
  | _ => none

/-- One turn of the loop: what is pushed, if it does not throw. -/
def tickerOf (result : Value) (coin : Coin) : Option (Option Ticker) :=
  match pickResult result (some coin.krakenBase) with
  | none => some none
  | some row => if row.truthy then (readRow row).map (priced coin.symbol) else some none

def fetchTickers (provider : Provider) : List Ticker :=
  match get provider with
  | none => []
  | some result =>
      if result.truthy then ((coins.mapM (tickerOf result)).map List.reduceOption).getD [] else []

/-- `nums`. -/
def nums : Value → Option (List Number)
  | .array items => items.mapM Value.toNumber
  | _ => none

/-- The candle of a row, if its five numbers are finite. -/
def charted : List Number → Option Candle
  | .finite t :: .finite o :: .finite h :: .finite l :: .finite c :: _ => some ⟨t, o, h, l, c⟩
  | _ => none

/-- The rows of an answer as candles. -/
def candlesOf : Value → List Candle
  | .array rows => ((rows.mapM nums).map (List.filterMap charted)).getD []
  | _ => []

def fetchCandles (provider : Provider) : List Candle :=
  match get provider with
  | none => []
  | some result => if result.truthy then ((pickResult result none).map candlesOf).getD [] else []

/-! ## Clean tickers -/

def isFinite : Number → Bool
  | .finite _ => true
  | _ => false

/-- What `JSON.stringify` and `JSON.parse` leave of a number. -/
def throughJson : Number → Value
  | .finite q => .number (.finite q)
  | _ => .null

namespace Ticker

def value (t : Ticker) : Value :=
  .object [("symbol", .text t.symbol), ("price", .number (.finite t.price)),
    ("high24h", .number t.high24h), ("low24h", .number t.low24h)]

/-- The ticker as it comes back from the cache. -/
def cached (t : Ticker) : Value :=
  .object [("symbol", .text t.symbol), ("price", throughJson (.finite t.price)),
    ("high24h", throughJson t.high24h), ("low24h", throughJson t.low24h)]

end Ticker

/-- At most one ticker for each coin, with a price above zero and a finite high and
low, and the cache gives back what was stored. -/
structure Clean (tickers : List Ticker) : Prop where
  symbols : (tickers.map Ticker.symbol).Sublist (coins.map Coin.symbol)
  nodup : (tickers.map Ticker.symbol).Nodup
  price_pos : ∀ t ∈ tickers, 0 < t.price
  high_low : ∀ t ∈ tickers, isFinite t.high24h ∧ isFinite t.low24h
  cached : tickers.map Ticker.cached = tickers.map Ticker.value

/-- No row that is picked makes a reading throw. -/
def Readable (result : Value) : Prop :=
  ∀ coin ∈ coins, ∀ row, pickResult result (some coin.krakenBase) = some row →
    row.truthy → (readRow row).isSome

/-- The row of a coin has a price to list and a high or a low that is no finite number. -/
def Spoiled (result : Value) : Prop :=
  ∃ coin ∈ coins, ∃ row r price, pickResult result (some coin.krakenBase) = some row ∧ row.truthy ∧
    readRow row = some r ∧ r.price = .finite price ∧ 0 < price ∧
      ¬ (isFinite r.high24h ∧ isFinite r.low24h)

/-- An answer all of whose rows can be read, with one that is spoiled. -/
def Degraded (provider : Provider) : Prop :=
  ∃ result, get provider = some result ∧ result.truthy ∧ Readable result ∧ Spoiled result

section Reading
variable {α β : Type*} {f : α → Option β} {l : List α} {ys : List β}

/-- A loop that does not throw has a value for every item. -/
theorem mapM_eq_some : l.mapM f = some ys ↔ l.map f = ys.map some := by
  induction l generalizing ys with
  | nil => cases ys <;> simp
  | cons x l ih =>
      rw [List.mapM_cons, List.map_cons]
      cases hx : f x with
      | none => cases ys <;> simp
      | some y =>
          cases hl : l.mapM f with
          | none =>
              cases ys with
              | nil => simp
              | cons z zs =>
                  have hne : l.map f ≠ zs.map some := fun h => by simp [ih.mpr h] at hl
                  simp [hne]
          | some rest =>
              have hrest := ih.mp hl
              cases ys with
              | nil => simp
              | cons z zs =>
                  have hinj : List.map some rest = List.map some zs ↔ rest = zs :=
                    (Option.some_injective β).list_map.eq_iff
                  simp [hrest, hinj]

theorem mapM_isSome (h : ∀ x ∈ l, (f x).isSome) : ∃ ys, l.mapM f = some ys := by
  induction l with
  | nil => exact ⟨[], rfl⟩
  | cons x l ih =>
      obtain ⟨rest, hrest⟩ := ih fun y hy => h y (List.mem_cons_of_mem _ hy)
      obtain ⟨y, hy⟩ := Option.isSome_iff_exists.mp (h x List.mem_cons_self)
      exact ⟨y :: rest, by simp [hy, hrest]⟩

theorem mem_of_mapM (h : l.mapM f = some ys) (y : β) : y ∈ ys ↔ ∃ x ∈ l, f x = some y := by
  have hmap := mapM_eq_some.mp h
  calc y ∈ ys ↔ some y ∈ ys.map some := by simp
    _ ↔ some y ∈ l.map f := by rw [hmap]
    _ ↔ ∃ x ∈ l, f x = some y := List.mem_map

theorem isSome_of_mapM (h : l.mapM f = some ys) {x : α} (hx : x ∈ l) : (f x).isSome := by
  have hmem : f x ∈ ys.map some := by
    rw [← mapM_eq_some.mp h]
    exact List.mem_map_of_mem hx
  obtain ⟨y, -, hy⟩ := List.mem_map.mp hmem
  rw [← hy]
  rfl

end Reading

section Tickers
variable {result : Value} {coin : Coin} {provider : Provider} {t : Ticker}

theorem priced_eq_some {symbol : String} {r : Reading} : priced symbol r = some t ↔
    ∃ price, r.price = .finite price ∧ 0 < price ∧ t = ⟨symbol, price, r.high24h, r.low24h⟩ := by
  unfold priced
  split
  · next price hprice =>
      by_cases hpos : price ≤ 0
      · rw [if_pos hpos]
        constructor
        · intro h
          cases h
        · intro h
          obtain ⟨q, hq, hlt, -⟩ := h
          rw [hprice, Number.finite.injEq] at hq
          linarith
      · rw [if_neg hpos, Option.some.injEq]
        constructor
        · intro h
          exact ⟨price, hprice, not_le.mp hpos, h.symm⟩
        · intro h
          obtain ⟨q, hq, -, ht⟩ := h
          rw [hprice, Number.finite.injEq] at hq
          rw [ht, hq]
  · next hother =>
      constructor
      · intro h
        cases h
      · intro h
        obtain ⟨q, hq, -⟩ := h
        exact absurd hq (hother q)

theorem tickerOf_eq_some : tickerOf result coin = some (some t) ↔
    ∃ row r, pickResult result (some coin.krakenBase) = some row ∧ row.truthy ∧
      readRow row = some r ∧ priced coin.symbol r = some t := by
  unfold tickerOf
  cases hpick : pickResult result (some coin.krakenBase) with
  | none => simp
  | some row =>
      by_cases htruthy : row.truthy = true
      · cases hread : readRow row <;> simp [htruthy, hread]
      · simp [htruthy]

theorem tickerOf_isSome : (tickerOf result coin).isSome ↔
    ∀ row, pickResult result (some coin.krakenBase) = some row → row.truthy → (readRow row).isSome := by
  unfold tickerOf
  cases hpick : pickResult result (some coin.krakenBase) with
  | none => simp
  | some row =>
      by_cases htruthy : row.truthy = true
      · simp [htruthy]
      · simp [htruthy]

theorem tickerOf_symbol (h : tickerOf result coin = some (some t)) : t.symbol = coin.symbol := by
  obtain ⟨row, r, -, -, -, hpriced⟩ := tickerOf_eq_some.mp h
  obtain ⟨price, -, -, ht⟩ := priced_eq_some.mp hpriced
  rw [ht]

/-- The loop over the coins: everything it pushed, or nothing once a row throws. -/
theorem mem_fetchTickers : t ∈ fetchTickers provider ↔
    ∃ result, get provider = some result ∧ result.truthy ∧ Readable result ∧
      ∃ coin ∈ coins, tickerOf result coin = some (some t) := by
  unfold fetchTickers
  cases hget : get provider with
  | none => simp
  | some result =>
      by_cases htruthy : result.truthy = true
      · simp only [htruthy, if_true, Option.some.injEq, exists_eq_left', true_and]
        cases hloop : coins.mapM (tickerOf result) with
        | none =>
            have hthrows : ¬ Readable result := by
              intro hread
              obtain ⟨ys, hys⟩ := mapM_isSome fun coin hc => tickerOf_isSome.mpr (hread coin hc)
              rw [hloop] at hys
              cases hys
            simp [hthrows]
        | some pushed =>
            have hread : Readable result := fun coin hc =>
              tickerOf_isSome.mp (isSome_of_mapM hloop hc)
            rw [Option.map_some, Option.getD_some, List.reduceOption_mem_iff, mem_of_mapM hloop]
            simp only [hread, true_and]
      · simp [htruthy]

theorem symbols_sublist {l : List Coin} {pushed : List (Option Ticker)}
    (h : l.mapM (tickerOf result) = some pushed) :
    (pushed.reduceOption.map Ticker.symbol).Sublist (l.map Coin.symbol) := by
  induction l generalizing pushed with
  | nil =>
      cases h
      exact List.Sublist.refl _
  | cons coin l ih =>
      cases pushed with
      | nil => cases mapM_eq_some.mp h
      | cons first rest =>
          have hmap := mapM_eq_some.mp h
          rw [List.map_cons, List.map_cons, List.cons.injEq] at hmap
          have hrest := ih (mapM_eq_some.mpr hmap.2)
          cases first with
          | none =>
              rw [List.reduceOption_cons_of_none]
              exact hrest.cons _
          | some t =>
              rw [List.reduceOption_cons_of_some, List.map_cons, List.map_cons,
                tickerOf_symbol hmap.1]
              exact hrest.cons_cons _

theorem fetchTickers_symbols (provider : Provider) :
    ((fetchTickers provider).map Ticker.symbol).Sublist (coins.map Coin.symbol) := by
  unfold fetchTickers
  cases hget : get provider with
  | none => exact List.nil_sublist _
  | some result =>
      simp only
      split
      · cases hloop : coins.mapM (tickerOf result) with
        | none => exact List.nil_sublist _
        | some pushed => exact symbols_sublist hloop
      · exact List.nil_sublist _

theorem price_pos_of_mem (h : t ∈ fetchTickers provider) : 0 < t.price := by
  obtain ⟨result, -, -, -, coin, -, hticker⟩ := mem_fetchTickers.mp h
  obtain ⟨row, r, -, -, -, hpriced⟩ := tickerOf_eq_some.mp hticker
  obtain ⟨price, -, hpos, ht⟩ := priced_eq_some.mp hpriced
  rw [ht]
  exact hpos

theorem throughJson_eq {n : Number} : throughJson n = .number n ↔ isFinite n := by
  cases n <;> simp [throughJson, isFinite]

theorem cached_eq : t.cached = t.value ↔ isFinite t.high24h ∧ isFinite t.low24h := by
  simp [Ticker.cached, Ticker.value, throughJson_eq, isFinite]

theorem not_clean_of_degraded (h : Degraded provider) : ¬ Clean (fetchTickers provider) := by
  intro hclean
  obtain ⟨result, hget, htruthy, hread, coin, hc, row, r, price, hpick, hrow, hr, hprice, hpos, hbad⟩ := h
  have hpriced : priced coin.symbol r = some ⟨coin.symbol, price, r.high24h, r.low24h⟩ :=
    priced_eq_some.mpr ⟨price, hprice, hpos, rfl⟩
  have hticker := tickerOf_eq_some.mpr ⟨row, r, hpick, hrow, hr, hpriced⟩
  have hmem := mem_fetchTickers.mpr ⟨result, hget, htruthy, hread, coin, hc, hticker⟩
  exact hbad (hclean.high_low _ hmem)

theorem clean_of_not_degraded (h : ¬ Degraded provider) : Clean (fetchTickers provider) := by
  have hfinite : ∀ t ∈ fetchTickers provider, isFinite t.high24h ∧ isFinite t.low24h := by
    intro t ht
    obtain ⟨result, hget, htruthy, hread, coin, hc, hticker⟩ := mem_fetchTickers.mp ht
    obtain ⟨row, r, hpick, hrow, hr, hpriced⟩ := tickerOf_eq_some.mp hticker
    obtain ⟨price, hprice, hpos, heq⟩ := priced_eq_some.mp hpriced
    by_contra hbad
    rw [heq] at hbad
    exact h ⟨result, hget, htruthy, hread, coin, hc, row, r, price, hpick, hrow, hr, hprice, hpos, hbad⟩
  have hsymbols := fetchTickers_symbols provider
  exact
    { symbols := hsymbols
      nodup := hsymbols.nodup (by decide)
      price_pos := fun t ht => price_pos_of_mem ht
      high_low := hfinite
      cached := List.map_congr_left fun t ht => cached_eq.mpr (hfinite t ht) }

/-- What is listed is clean unless the answer is degraded. -/
theorem fetchTickers_clean_iff (provider : Provider) :
    Clean (fetchTickers provider) ↔ ¬ Degraded provider :=
  ⟨fun h hbad => not_clean_of_degraded hbad h, clean_of_not_degraded⟩

/-- Bitcoin at 77684 with a high of today only. -/
def partialAnswer : Provider :=
  .response 200 (some (.object [("error", .array []), ("result", .object [("XXBTZUSD", .object [
    ("c", .array [.number (.finite 77684), .text "0.01"]),
    ("h", .array [.number (.finite 77829)]),
    ("l", .array [.number (.finite 76500), .number (.finite 76349)])])])]))

theorem fetchTickers_high_nan : fetchTickers partialAnswer = [⟨"BTC", 77684, .nan, .finite 76349⟩] ∧
    ¬ Clean (fetchTickers partialAnswer) := by
  have hlist : fetchTickers partialAnswer = [⟨"BTC", 77684, .nan, .finite 76349⟩] := by decide
  refine ⟨hlist, ?_⟩
  intro h
  have hhigh := (h.high_low ⟨"BTC", 77684, .nan, .finite 76349⟩ (by rw [hlist]; exact List.mem_singleton_self _)).1
  cases hhigh

end Tickers

end MaxOne.Kraken
