import Mathlib.Order.Interval.Finset.Nat
import Mathlib.Data.Int.Interval
import MaxOne.Kraken

/-!
# Charts and the change of a day

`MarketsService` over a cache that keeps a history for a minute, and the rules of
`candle-math.ts`. Prices are rationals, times are seconds.

The last candle of a history is restated with the live price when the history is
served, the change of a day is counted back in candles. The first is right while that
candle is still open, the second while no hour is missing.
-/
namespace MaxOne.Markets
open Library.Binary64 Library.ScriptValue MaxOne.Kraken MaxOne.RatesService

/-! ## candle-math -/

def close (candle : Option Candle) : ℚ := (candle.map Candle.c).getD 0

def changeFromCandles (candles : List Candle) (hours : ℕ) : ℚ :=
  if candles.length < 2 then 0
  else
    let now := close candles[candles.length - 1]?
    let reference := close candles[candles.length - 1 - hours]?
    if reference = 0 then 0 else (now - reference) / reference * 100

/-- The open candle with the live price. -/
def restate (candle : Candle) (live : ℚ) : Candle :=
  { candle with c := live, h := max candle.h live, l := min candle.l live }

def restateOpenCandle (candles : List Candle) (live : ℚ) : List Candle :=
  match candles.getLast? with
  | none => candles
  | some last => if live = 0 then candles else candles.dropLast ++ [restate last live]

/-! ## The service -/

def candleTtl : ℕ := 60

def negativeTtl : ℕ := 8

/-- An entry of the cache with the time of its SET. -/
structure Entry (α : Type) where
  value : α
  storedAt : ℚ
  ttl : ℕ

def Entry.alive {α : Type} (e : Entry α) (now : ℚ) : Bool := now < e.storedAt + e.ttl

/-- What `cacheable` decides. -/
inductive Decision where
  | keep
  | keepFor (ttl : ℕ)
  | skip

/-- An empty list is kept for a short time. -/
def listDecision {α : Type} (l : List α) : Decision := if l = [] then .keepFor negativeTtl else .keep

/-- `CacheService.wrap` of a key at a time: the value and the entry from then on. -/
def wrapTimed {α : Type} (entry : Option (Entry α)) (now : ℚ) (ttlSeconds : ℕ) (fn : α)
    (cacheable : α → Decision) : α × Option (Entry α) :=
  match entry.filter (·.alive now) with
  | some hit => (hit.value, some hit)
  | none =>
      (fn, match cacheable fn with
        | .keep => some ⟨fn, now, ttlSeconds⟩
        | .keepFor ttl => some ⟨fn, now, ttl⟩
        | .skip => none)

/-- `MarketsService.candles` of a coin, `fetched` being what the provider would answer. -/
def candles (entry : Option (Entry (List Candle))) (now : ℚ) (fetched : List Candle) :
    List Candle × Option (Entry (List Candle)) :=
  wrapTimed entry now candleTtl fetched listDecision

/-- The price of the coin's ticker, zero without one. -/
def livePrice (coin : Coin) (tickers : List Ticker) : ℚ :=
  ((tickers.find? fun t => t.symbol = coin.symbol).map Ticker.price).getD 0

def chart (id : String) (entry : Option (Entry (List Candle))) (now : ℚ) (fetched : List Candle)
    (tickers : List Ticker) : List Candle :=
  match coinById id with
  | none => []
  | some coin => restateOpenCandle (candles entry now fetched).1 (livePrice coin tickers)

structure MarketAsset where
  id : String
  symbol : String
  name : String
  price : ℚ
  change24h : ℚ
  image : String

def marketAsset (coin : Coin) (ticker : Ticker) (history : List Candle) : MarketAsset where
  id := coin.id
  symbol := coin.symbol
  name := coin.name
  price := ticker.price
  change24h := changeFromCandles (restateOpenCandle history ticker.price) 24
  image := coin.image

/-! ## Candles that are served -/

/-- The length of a candle's interval. -/
def seconds (range : Range) : ℚ := krakenInterval range * 60

/-- The interval of the candle contains the time. -/
def OpenAt (range : Range) (now : ℚ) (candle : Candle) : Prop :=
  candle.t ≤ now ∧ now < candle.t + seconds range

/-- Candles whose interval has ended are those of the history, and only an open one
differs from it. -/
structure ClosedKept (range : Range) (now : ℚ) (history served : List Candle) : Prop where
  closed : ∀ (i : ℕ) (candle : Candle), served[i]? = some candle →
    candle.t + seconds range ≤ now → history[i]? = some candle
  live : ∀ (i : ℕ) (candle : Candle), served[i]? = some candle →
    history[i]? ≠ some candle → OpenAt range now candle

/-- The live price of a coin by its id. -/
def liveOf (id : String) (tickers : List Ticker) : ℚ := (coinById id).elim 0 (livePrice · tickers)

/-- The last candle is open, or the live price is missing or changes nothing in it. -/
def LastOpen (range : Range) (now : ℚ) (history : List Candle) (live : ℚ) : Prop :=
  ∀ last, history.getLast? = some last →
    OpenAt range now last ∨ live = 0 ∨ (last.c = live ∧ last.l ≤ live ∧ live ≤ last.h)

section Restate
variable {range : Range} {now live : ℚ} {history : List Candle} {last : Candle}

theorem restate_eq_self : restate last live = last ↔ last.c = live ∧ last.l ≤ live ∧ live ≤ last.h := by
  cases last
  simp only [restate, Candle.mk.injEq, true_and, sup_eq_left, inf_eq_left]
  constructor
  · intro h
    exact ⟨h.2.2.symm, h.2.1, h.1⟩
  · intro h
    exact ⟨h.2.2, h.2.1, h.1.symm⟩

theorem restateOpenCandle_zero (history : List Candle) : restateOpenCandle history 0 = history := by
  unfold restateOpenCandle
  split
  · rfl
  · exact if_pos rfl

theorem restateOpenCandle_last (hlast : history.getLast? = some last) (hlive : live ≠ 0) :
    restateOpenCandle history live = history.dropLast ++ [restate last live] := by
  rw [restateOpenCandle, hlast]
  exact if_neg hlive

theorem dropLast_append (hlast : history.getLast? = some last) : history.dropLast ++ [last] = history :=
  List.dropLast_append_getLast? last hlast

/-- Below the last index the two lists agree. -/
theorem restated_getElem (hlast : history.getLast? = some last) (hlive : live ≠ 0) {i : ℕ}
    (hi : i < history.length - 1) : (restateOpenCandle history live)[i]? = history[i]? := by
  have hlen : i < history.dropLast.length := by rw [List.length_dropLast]; exact hi
  rw [restateOpenCandle_last hlast hlive, List.getElem?_append_left hlen]
  nth_rewrite 2 [← dropLast_append hlast]
  rw [List.getElem?_append_left hlen]

theorem closedKept_self (range : Range) (now : ℚ) (history : List Candle) :
    ClosedKept range now history history where
  closed := fun _ _ h _ => h
  live := fun _ _ h hne => absurd h hne

theorem closedKept_restate (hlast : history.getLast? = some last) (hlive : live ≠ 0) :
    ClosedKept range now history (restateOpenCandle history live) ↔
      OpenAt range now last ∨ restate last live = last := by
  rw [restateOpenCandle_last hlast hlive]
  set init := history.dropLast with hinit
  have hsplit : history = init ++ [last] := (dropLast_append hlast).symm
  have hlater : ∀ {i : ℕ} {candle : Candle}, (init ++ [restate last live])[i]? = some candle →
      history[i]? = some candle ∨ i = init.length ∧ candle = restate last live := by
    intro i candle hi
    rcases lt_or_ge i init.length with hlt | hge
    · rw [List.getElem?_append_left hlt] at hi
      rw [hsplit, List.getElem?_append_left hlt]
      exact .inl hi
    · rw [List.getElem?_append_right hge, List.getElem?_singleton] at hi
      split_ifs at hi with hz
      exact .inr ⟨by omega, (Option.some.inj hi).symm⟩
  have hend : (init ++ [restate last live])[init.length]? = some (restate last live) := by simp
  have hendHistory : history[init.length]? = some last := by
    rw [hsplit]
    simp
  constructor
  · intro h
    by_cases hsame : restate last live = last
    · exact .inr hsame
    · refine .inl (h.live init.length (restate last live) hend ?_)
      rw [hendHistory]
      intro he
      exact hsame (Option.some.inj he).symm
  · intro h
    have hkept : ∀ (i : ℕ) (candle : Candle), (init ++ [restate last live])[i]? = some candle →
        history[i]? ≠ some candle → OpenAt range now candle := by
      intro i candle hi hne
      rcases hlater hi with hsame | ⟨rfl, rfl⟩
      · exact absurd hsame hne
      · rcases h with hopen | hsame
        · exact hopen
        · rw [hsame] at hne
          exact absurd hendHistory hne
    refine ⟨?_, hkept⟩
    intro i candle hi hclosed
    by_contra hne
    exact absurd (hkept i candle hi hne).2 (not_lt.mpr hclosed)

theorem closedKept_iff (range : Range) (now : ℚ) (history : List Candle) (live : ℚ) :
    ClosedKept range now history (restateOpenCandle history live) ↔
      LastOpen range now history live := by
  unfold LastOpen
  cases hlast : history.getLast? with
  | none =>
      rw [restateOpenCandle, hlast]
      simp [closedKept_self]
  | some last =>
      simp only [Option.some.injEq, forall_eq']
      by_cases hlive : live = 0
      · subst hlive
        rw [restateOpenCandle_zero]
        simp [closedKept_self]
      · rw [closedKept_restate hlast hlive, restate_eq_self]
        simp [hlive]

/-- A chart keeps the closed candles of its history, cached or fetched, exactly while the
last of them is open or there is nothing to restate. -/
theorem chart_closed_iff (id : String) (range : Range) (entry : Option (Entry (List Candle)))
    (now : ℚ) (fetched : List Candle) (tickers : List Ticker) :
    ClosedKept range now (candles entry now fetched).1 (chart id entry now fetched tickers) ↔
      LastOpen range now (candles entry now fetched).1 (liveOf id tickers) := by
  rw [← closedKept_iff, chart, liveOf]
  cases coinById id with
  | none =>
      rw [Option.elim_none, restateOpenCandle_zero]
      refine ⟨fun _ => closedKept_self range now _, fun _ => ⟨?_, ?_⟩⟩
      · intro i candle h
        cases h
      · intro i candle h
        cases h
  | some coin => rfl

/-- The minute candle of bitcoin is cached while it is open and served a second after its end. -/
theorem chart_rewrites_closed : ∃ history tickers,
    let entry := (candles none 59 history).2
    (∀ last ∈ history, OpenAt .m1 59 last) ∧ (candles entry 61 []).1 = history ∧
      ¬ ClosedKept .m1 61 history (chart "bitcoin" entry 61 [] tickers) := by
  refine ⟨[⟨0, 10, 10, 10, 10⟩], [⟨"BTC", 11, .nan, .nan⟩], ?_, by decide +kernel, ?_⟩
  · intro last hlast
    rw [List.mem_singleton] at hlast
    subst hlast
    constructor <;> norm_num [seconds, krakenInterval]
  · intro h
    have hserved : chart "bitcoin" (candles none 59 [⟨0, 10, 10, 10, 10⟩]).2 61 []
        [⟨"BTC", 11, .nan, .nan⟩] = [⟨0, 10, 11, 10, 11⟩] := by decide +kernel
    rw [hserved] at h
    have hkept := h.closed 0 _ rfl (by norm_num [seconds, krakenInterval])
    exact absurd hkept (by decide +kernel)

end Restate

/-! ## The change of a day -/

def day : ℚ := 24 * 3600

section Hours
variable {l : List ℤ} {a b : ℤ}

/-- Increasing integers of an interval are no more than it holds. -/
theorem length_le_of_increasing (h : l.Pairwise (· < ·)) (hmem : ∀ n ∈ l, a < n ∧ n ≤ b) :
    l.length ≤ (b - a).toNat := by
  have hnodup : l.Nodup := h.imp fun hlt => hlt.ne
  have hsub : l.toFinset ⊆ Finset.Ioc a b := by
    intro n hn
    exact Finset.mem_Ioc.mpr (hmem n (List.mem_toFinset.mp hn))
  calc l.length = l.toFinset.card := (List.toFinset_card_of_nodup hnodup).symm
    _ ≤ (Finset.Ioc a b).card := Finset.card_le_card hsub
    _ = (b - a).toNat := Int.card_Ioc a b

/-- As many of them as it holds are all of it. -/
theorem mem_of_full (h : l.Pairwise (· < ·)) (hmem : ∀ n ∈ l, a < n ∧ n ≤ b)
    (hfull : (b - a).toNat ≤ l.length) {n : ℤ} (hlow : a < n) (hhigh : n ≤ b) : n ∈ l := by
  have hnodup : l.Nodup := h.imp fun hlt => hlt.ne
  have hsub : l.toFinset ⊆ Finset.Ioc a b := by
    intro n hn
    exact Finset.mem_Ioc.mpr (hmem n (List.mem_toFinset.mp hn))
  have hcard : (Finset.Ioc a b).card ≤ l.toFinset.card := by
    rw [Int.card_Ioc, List.toFinset_card_of_nodup hnodup]
    exact hfull
  have hall : l.toFinset = Finset.Ioc a b := Finset.eq_of_subset_of_card_le hsub hcard
  rw [← List.mem_toFinset, hall]
  exact Finset.mem_Ioc.mpr ⟨hlow, hhigh⟩

/-- With all of them there are as many. -/
theorem length_ge_of_complete (hmem : ∀ n, a < n → n ≤ b → n ∈ l) : (b - a).toNat ≤ l.length := by
  have hsub : Finset.Ioc a b ⊆ l.toFinset := by
    intro n hn
    have hb := Finset.mem_Ioc.mp hn
    exact List.mem_toFinset.mpr (hmem n hb.1 hb.2)
  calc (b - a).toNat = (Finset.Ioc a b).card := (Int.card_Ioc a b).symm
    _ ≤ l.toFinset.card := Finset.card_le_card hsub
    _ ≤ l.length := l.toFinset_card_le

end Hours

/-- Every hour between the candle of a day ago and the last one has its candle. -/
def NoHourMissing (kept : List Candle) (dayAgo : Candle) : Prop :=
  ∀ n : ℕ, 0 < n → n < 24 → ∃ candle ∈ kept, candle.t = dayAgo.t + n * 3600

/-- No candle is older than the one of a day ago. -/
def Oldest (kept : List Candle) (dayAgo : Candle) : Prop := ∀ candle ∈ kept, dayAgo.t ≤ candle.t

/-- The candle 24 places before the last, or the first one, is older than a day. -/
def TakesOlder (kept : List Candle) (dayAgo older : Candle) : Prop :=
  kept[kept.length - 25]? = some older ∧ older.t < dayAgo.t

/-- An older candle happens to give the same change. -/
def SameChange (older dayAgo : Candle) (live : ℚ) : Prop :=
  older.c = dayAgo.c ∨ (older.c = 0 ∧ live = dayAgo.c)

/-- Candles with increasing times on full hours. -/
structure Hourly (kept : List Candle) : Prop where
  increasing : kept.Pairwise fun x y => x.t < y.t
  onHour : ∀ candle ∈ kept, ∃ n : ℤ, candle.t = n * 3600

section Change
variable {kept init later : List Candle} {dayAgo last : Candle} {live r k : ℚ}

/-- The change of a history is counted from the candle 24 places before the last. -/
theorem changeFromCandles_restated (hlast : kept.getLast? = some last) (hlive : live ≠ 0)
    (hlen : 2 ≤ kept.length) : changeFromCandles (restateOpenCandle kept live) 24 =
      if close kept[kept.length - 25]? = 0 then 0
      else (live - close kept[kept.length - 25]?) / close kept[kept.length - 25]? * 100 := by
  have hsame : (restateOpenCandle kept live)[kept.length - 1 - 24]? = kept[kept.length - 25]? := by
    rw [restated_getElem hlast hlive (by omega), Nat.sub_sub]
  have hlength : (restateOpenCandle kept live).length = kept.length := by
    rw [restateOpenCandle_last hlast hlive, List.length_append, List.length_dropLast,
      List.length_singleton]
    omega
  have hnow : close (restateOpenCandle kept live)[kept.length - 1]? = live := by
    rw [restateOpenCandle_last hlast hlive, ← List.length_dropLast, List.getElem?_concat_length]
    rfl
  rw [changeFromCandles, hlength, if_neg (by omega), hsame, hnow]

/-- Two references give the same change only if they are one, or if the first is zero. -/
theorem change_eq_iff (hlive : live ≠ 0) (hk : k ≠ 0) :
    (if r = 0 then 0 else (live - r) / r * 100) = (live - k) / k * 100 ↔
      r = k ∨ (r = 0 ∧ live = k) := by
  by_cases hr : r = 0
  · rw [if_pos hr]
    constructor
    · intro h
      have hzero : (live - k) / k = 0 := by linarith
      have hsub : live - k = 0 := (div_eq_zero_iff.mp hzero).resolve_right hk
      exact .inr ⟨hr, by linarith⟩
    · intro h
      rcases h with hrk | ⟨-, hlk⟩
      · exact absurd (hrk.symm.trans hr) hk
      · rw [hlk, sub_self, zero_div, zero_mul]
  · rw [if_neg hr]
    constructor
    · intro h
      have hdiv : live / r = live / k := by
        have h₁ : (live - r) / r = live / r - 1 := by rw [sub_div, div_self hr]
        have h₂ : (live - k) / k = live / k - 1 := by rw [sub_div, div_self hk]
        linarith
      rw [div_eq_div_iff hr hk] at hdiv
      exact .inl (mul_left_cancel₀ hlive hdiv).symm
    · intro h
      rcases h with hrk | ⟨hzero, -⟩
      · rw [hrk]
      · exact absurd hzero hr

/-- The number of the hour a candle begins. -/
def hour (candle : Candle) : ℤ := ⌊candle.t / 3600⌋

theorem Hourly.t_eq (h : Hourly kept) {candle : Candle} (hmem : candle ∈ kept) :
    candle.t = hour candle * 3600 := by
  obtain ⟨n, hn⟩ := h.onHour candle hmem
  have hdiv : candle.t / 3600 = n := by rw [hn]; ring
  rw [hour, hdiv, Int.floor_intCast, hn]

/-- The candles after the one of a day ago. -/
structure Split (init : List Candle) (dayAgo : Candle) (later : List Candle) (last : Candle) : Prop where
  hourly : Hourly (init ++ dayAgo :: later)
  isLast : later.getLast? = some last
  apart : dayAgo.t = last.t - day

theorem Split.increasing (h : Split init dayAgo later last) :
    (∀ x ∈ init, x.t < dayAgo.t) ∧ (∀ y ∈ later, dayAgo.t < y.t) ∧
      later.Pairwise fun x y => x.t < y.t := by
  have hall := List.pairwise_append.mp h.hourly.increasing
  have htail := List.pairwise_cons.mp hall.2.1
  exact ⟨fun x hx => hall.2.2 x hx dayAgo List.mem_cons_self, htail.1, htail.2⟩

theorem Split.le_last (h : Split init dayAgo later last) : ∀ y ∈ later, y.t ≤ last.t := by
  intro y hy
  have hsplit := List.dropLast_append_getLast? last h.isLast
  have hinc := h.increasing.2.2
  rw [← hsplit] at hy hinc
  rcases List.mem_append.mp hy with hbefore | hend
  · exact ((List.pairwise_append.mp hinc).2.2 y hbefore last (List.mem_singleton_self _)).le
  · rw [List.mem_singleton.mp hend]

theorem Split.hours (h : Split init dayAgo later last) : ∀ y ∈ dayAgo :: later, y.t = hour y * 3600 :=
  fun _ hy => h.hourly.t_eq (List.mem_append_right _ hy)

theorem Split.last_mem (h : Split init dayAgo later last) : last ∈ later := List.mem_of_getLast? h.isLast

theorem Split.hour_last (h : Split init dayAgo later last) : hour last = hour dayAgo + 24 := by
  have hlast := h.hours last (List.mem_cons_of_mem _ h.last_mem)
  have hago := h.hours dayAgo List.mem_cons_self
  have hday := h.apart
  rw [hlast, hago, day] at hday
  have hrat : (hour last : ℚ) = (hour dayAgo : ℚ) + 24 := by linarith
  exact_mod_cast hrat

theorem Split.hours_increasing (h : Split init dayAgo later last) :
    (later.map hour).Pairwise (· < ·) := by
  rw [List.pairwise_map]
  refine h.increasing.2.2.imp_of_mem ?_
  intro x y hx hy hlt
  rw [h.hours x (List.mem_cons_of_mem _ hx), h.hours y (List.mem_cons_of_mem _ hy)] at hlt
  have hrat : (hour x : ℚ) < hour y := by linarith
  exact_mod_cast hrat

theorem Split.hours_mem (h : Split init dayAgo later last) :
    ∀ n ∈ later.map hour, hour dayAgo < n ∧ n ≤ hour dayAgo + 24 := by
  intro n hn
  obtain ⟨y, hy, rfl⟩ := List.mem_map.mp hn
  have hlow := h.increasing.2.1 y hy
  have hhigh := h.le_last y hy
  rw [h.hours dayAgo List.mem_cons_self, h.hours y (List.mem_cons_of_mem _ hy)] at hlow
  rw [h.hours y (List.mem_cons_of_mem _ hy),
    h.hours last (List.mem_cons_of_mem _ h.last_mem)] at hhigh
  have hlow' : (hour dayAgo : ℚ) < hour y := by linarith
  have hhigh' : (hour y : ℚ) ≤ hour last := by linarith
  rw [← h.hour_last]
  exact ⟨by exact_mod_cast hlow', by exact_mod_cast hhigh'⟩

/-- At most 24 candles follow. -/
theorem Split.length_le (h : Split init dayAgo later last) : later.length ≤ 24 := by
  have hlen := length_le_of_increasing h.hours_increasing h.hours_mem
  rw [List.length_map] at hlen
  omega

/-- Fewer than 24 follow if an hour is missing. -/
theorem Split.length_lt (h : Split init dayAgo later last)
    (hmissing : ¬ NoHourMissing (init ++ dayAgo :: later) dayAgo) : later.length < 24 := by
  by_contra hge
  refine hmissing fun n hpos hlt => ?_
  have hfull : (hour dayAgo + 24 - hour dayAgo).toNat ≤ (later.map hour).length := by
    rw [List.length_map]
    omega
  obtain ⟨y, hy, hn⟩ := List.mem_map.mp (mem_of_full h.hours_increasing h.hours_mem hfull
    (n := hour dayAgo + n) (by omega) (by omega))
  refine ⟨y, List.mem_append_right _ (List.mem_cons_of_mem _ hy), ?_⟩
  rw [h.hours y (List.mem_cons_of_mem _ hy), h.hours dayAgo List.mem_cons_self, hn]
  push_cast
  ring

/-- Exactly 24 follow if no hour is missing. -/
theorem Split.length_ge (h : Split init dayAgo later last)
    (hno : NoHourMissing (init ++ dayAgo :: later) dayAgo) : 24 ≤ later.length := by
  have hmem : ∀ n, hour dayAgo < n → n ≤ hour dayAgo + 24 → n ∈ later.map hour := by
    intro n hlow hhigh
    rcases eq_or_lt_of_le hhigh with heq | hlt
    · rw [heq, ← h.hour_last]
      exact List.mem_map_of_mem h.last_mem
    · obtain ⟨candle, hcandle, ht⟩ := hno (n - hour dayAgo).toNat (by omega) (by omega)
      have hcast : (((n - hour dayAgo).toNat : ℕ) : ℚ) = n - hour dayAgo := by
        have hint : (((n - hour dayAgo).toNat : ℕ) : ℤ) = n - hour dayAgo := by omega
        exact_mod_cast hint
      have hpos : (hour dayAgo : ℚ) + 1 ≤ n := by exact_mod_cast hlow
      have hlater : candle ∈ later := by
        rcases List.mem_append.mp hcandle with hbefore | hafter
        · have hlt := h.increasing.1 candle hbefore
          rw [ht, hcast] at hlt
          linarith
        · rcases List.mem_cons.mp hafter with rfl | hafter
          · rw [hcast] at ht
            linarith
          · exact hafter
      have hn : hour candle = n := by
        have htimes := h.hours candle (List.mem_cons_of_mem _ hlater)
        rw [ht, hcast, h.hours dayAgo List.mem_cons_self] at htimes
        have hrat : (hour candle : ℚ) = n := by linarith
        exact_mod_cast hrat
      rw [← hn]
      exact List.mem_map_of_mem hlater
  have hlen := length_ge_of_complete hmem
  rw [List.length_map] at hlen
  omega

/-- The candle of a day ago stands 24 places before the last, or is the first. -/
theorem Split.reference (h : Split init dayAgo later last)
    (hplace : NoHourMissing (init ++ dayAgo :: later) dayAgo ∨ Oldest (init ++ dayAgo :: later) dayAgo) :
    (init ++ dayAgo :: later)[(init ++ dayAgo :: later).length - 25]? = some dayAgo := by
  have hle := h.length_le
  have hindex : (init ++ dayAgo :: later).length - 25 = init.length := by
    rw [List.length_append, List.length_cons]
    rcases hplace with hno | hold
    · have hge := h.length_ge hno
      omega
    · have hnil : init = [] := by
        refine List.eq_nil_iff_forall_not_mem.mpr ?_
        intro x hx
        exact absurd (h.increasing.1 x hx) (not_lt.mpr (hold x (List.mem_append_left _ hx)))
      rw [hnil, List.length_nil]
      omega
  rw [hindex]
  simp

/-- Otherwise the candle that is taken is older. -/
theorem Split.older (h : Split init dayAgo later last)
    (hmissing : ¬ NoHourMissing (init ++ dayAgo :: later) dayAgo)
    (hold : ¬ Oldest (init ++ dayAgo :: later) dayAgo) :
    ∃ older, TakesOlder (init ++ dayAgo :: later) dayAgo older := by
  have hlt := h.length_lt hmissing
  have hpos : 0 < init.length := by
    refine List.length_pos_of_ne_nil fun hnil => hold fun candle hmem => ?_
    rw [hnil, List.nil_append] at hmem
    rcases List.mem_cons.mp hmem with rfl | hlater
    · exact le_rfl
    · exact (h.increasing.2.1 candle hlater).le
  have hin : (init ++ dayAgo :: later).length - 25 < init.length := by
    rw [List.length_append, List.length_cons]
    omega
  refine ⟨init[(init ++ dayAgo :: later).length - 25], ?_, h.increasing.1 _ (List.getElem_mem hin)⟩
  rw [List.getElem?_append_left hin, List.getElem?_eq_getElem hin]

theorem split_of_mem (hhourly : Hourly kept) (hlast : kept.getLast? = some last)
    (hmem : dayAgo ∈ kept) (ht : dayAgo.t = last.t - day) :
    ∃ init later, kept = init ++ dayAgo :: later ∧ Split init dayAgo later last := by
  obtain ⟨init, later, rfl⟩ := List.append_of_mem hmem
  refine ⟨init, later, rfl, hhourly, ?_, ht⟩
  cases later with
  | nil =>
      rw [List.getLast?_concat, Option.some.injEq] at hlast
      rw [hlast, day] at ht
      linarith
  | cons first rest =>
      rw [List.getLast?_append, List.getLast?_cons_cons] at hlast
      cases hrest : (first :: rest).getLast? with
      | none => cases List.getLast?_eq_none_iff.mp hrest
      | some final => rw [hrest, Option.some_or] at hlast; exact hlast

/-- The change of a day is counted from the candle of a day ago exactly while no hour
between is missing or no older candle is kept. Otherwise an older candle is taken, and the
change is that of a day only if that candle happens to give the same. -/
theorem change24h_iff (provider : Provider) (coin : Coin) (ticker : Ticker)
    (hhourly : Hourly (fetchCandles provider)) (hprice : 0 < ticker.price)
    (hlast : (fetchCandles provider).getLast? = some last) (hmem : dayAgo ∈ fetchCandles provider)
    (ht : dayAgo.t = last.t - day) (hclose : dayAgo.c ≠ 0) :
    ((marketAsset coin ticker (fetchCandles provider)).change24h =
        (ticker.price - dayAgo.c) / dayAgo.c * 100 ↔
      NoHourMissing (fetchCandles provider) dayAgo ∨ Oldest (fetchCandles provider) dayAgo ∨
        ∃ older, TakesOlder (fetchCandles provider) dayAgo older ∧
          SameChange older dayAgo ticker.price) ∧
    (¬ NoHourMissing (fetchCandles provider) dayAgo → ¬ Oldest (fetchCandles provider) dayAgo →
      ∃ older, TakesOlder (fetchCandles provider) dayAgo older) := by
  obtain ⟨init, later, hkept, hsplit⟩ := split_of_mem hhourly hlast hmem ht
  have hlen : 2 ≤ (fetchCandles provider).length := by
    rw [hkept, List.length_append, List.length_cons]
    have hpos := List.length_pos_of_mem hsplit.last_mem
    omega
  have holder : ¬ NoHourMissing (fetchCandles provider) dayAgo →
      ¬ Oldest (fetchCandles provider) dayAgo →
        ∃ older, TakesOlder (fetchCandles provider) dayAgo older := by
    rw [hkept]
    exact hsplit.older
  have hplaced : NoHourMissing (fetchCandles provider) dayAgo ∨
      Oldest (fetchCandles provider) dayAgo →
        (fetchCandles provider)[(fetchCandles provider).length - 25]? = some dayAgo := by
    rw [hkept]
    exact hsplit.reference
  refine ⟨?_, holder⟩
  rw [marketAsset, changeFromCandles_restated hlast hprice.ne' hlen, change_eq_iff hprice.ne' hclose]
  constructor
  · intro h
    by_cases hplace : NoHourMissing (fetchCandles provider) dayAgo ∨
        Oldest (fetchCandles provider) dayAgo
    · exact hplace.imp_right .inl
    · rw [not_or] at hplace
      obtain ⟨older, htaken⟩ := holder hplace.1 hplace.2
      rw [htaken.1] at h
      exact .inr (.inr ⟨older, htaken, h⟩)
  · intro h
    rcases h with hno | hold | ⟨older, htaken, hsame⟩
    · rw [hplaced (.inl hno)]
      exact .inl rfl
    · rw [hplaced (.inr hold)]
      exact .inl rfl
    · rw [htaken.1]
      exact hsame

/-! ### Twenty-six hours -/

/-- A row of an hour; the open of some is no number. -/
def hourRow (isBroken : ℕ → Bool) (n : ℕ) : Value :=
  .array [.number (.finite (n * 3600)),
    if isBroken n then .text "N/A" else .number (.finite 100), .number (.finite 100),
    .number (.finite 50), .number (.finite (if n = 0 then 50 else 100))]

def hourRows (isBroken : ℕ → Bool) : Provider :=
  .response 200 (some (.object [("error", .array []), ("result", .object [
    ("XXBTZUSD", .array ((List.range 26).map (hourRow isBroken))),
    ("last", .number (.finite 90000))])]))

def hourCandle (n : ℕ) : Candle := ⟨n * 3600, 100, 100, 50, if n = 0 then 50 else 100⟩

theorem hourly_of_hours (h : kept.Pairwise fun x y => x.t < y.t)
    (hhour : ∀ candle ∈ kept, candle.t = hour candle * 3600) : Hourly kept :=
  ⟨h, fun candle hc => ⟨hour candle, hhour candle hc⟩⟩

/-- No row is dropped, and the price has gone up from 100 to 110. -/
theorem change24h_ten :
    (marketAsset bitcoin ⟨"BTC", 110, .nan, .nan⟩
      (fetchCandles (hourRows fun _ => false))).change24h = (110 - 100) / 100 * 100 := by
  have hkept : fetchCandles (hourRows fun _ => false) = (List.range 26).map hourCandle := by
    decide +kernel
  have hhourly : Hourly (fetchCandles (hourRows fun _ => false)) := by
    rw [hkept]
    exact hourly_of_hours (by decide +kernel) (by decide +kernel)
  have hlast : (fetchCandles (hourRows fun _ => false)).getLast? = some (hourCandle 25) := by
    rw [hkept]
    decide +kernel
  have hmem : hourCandle 1 ∈ fetchCandles (hourRows fun _ => false) := by
    rw [hkept]
    decide +kernel
  have hno : NoHourMissing (fetchCandles (hourRows fun _ => false)) (hourCandle 1) := by
    intro n hpos hlt
    refine ⟨hourCandle (1 + n), ?_, ?_⟩
    · rw [hkept]
      exact List.mem_map_of_mem (List.mem_range.mpr (by omega))
    · rw [hourCandle, hourCandle]
      push_cast
      ring
  exact (change24h_iff _ bitcoin ⟨"BTC", 110, .nan, .nan⟩ hhourly (by norm_num) hlast hmem
    (by norm_num [hourCandle, day]) (by norm_num [hourCandle])).1.mpr (.inl hno)

/-- One row of the day is dropped: the candle of 25 hours ago, which closed at 50, is
taken, and 10 per cent are shown as 120. -/
theorem change24h_shifted : ∃ ticker dayAgo last,
    let kept := fetchCandles (hourRows fun n => n = 10)
    Hourly kept ∧ 0 < ticker.price ∧ kept.getLast? = some last ∧ dayAgo ∈ kept ∧
      dayAgo.t = last.t - day ∧ dayAgo.c ≠ 0 ∧
        (ticker.price - dayAgo.c) / dayAgo.c * 100 = 10 ∧
          (marketAsset bitcoin ticker kept).change24h = 120 := by
  have hkept : fetchCandles (hourRows fun n => n = 10) =
      ((List.range 26).filter (· ≠ 10)).map hourCandle := by decide +kernel
  refine ⟨⟨"BTC", 110, .nan, .nan⟩, hourCandle 1, hourCandle 25, ?_⟩
  rw [hkept]
  refine ⟨hourly_of_hours (by decide +kernel) (by decide +kernel), ?_⟩
  decide +kernel

end Change

end MaxOne.Markets
