import Mathlib.Data.List.DropRight
import TradeAgent.Library.Machine
import TradeAgent.Library.Rounding
import TradeAgent.ShadowRecorder

/-! Features of a minute or five-minute bar, kept as bars and quotes stream in, and what they are of the stream: of the
bars of the symbol's own session, of earlier volumes at the same time of day and of the latest quote. -/
namespace TradeAgent.Intraday

open Rounding Shadow

inductive MarketRegime where
  | warmup | calm | trending | highVolatility
  deriving DecidableEq, Repr

structure IntradayFeatureVector where
  symbol : String
  timestamp : Instant
  sessionVwapDistance : ℚ
  relativeVolume : Option ℚ
  spreadBps : Option ℚ
  realizedVolatility : Option ℚ
  momentum15m : Option ℚ
  momentum30m : Option ℚ
  momentum60m : Option ℚ
  regime : MarketRegime
  deriving DecidableEq

/-- The date and the time of day in the configured zone, the age a quote may have, and returns as floating-point
numbers: how one is rounded, and the yearly volatility of at least two. -/
structure FeatureSetup (φ : Type) where
  date : Instant → ℤ
  time : Instant → ℤ
  quoteMaxAge : ℤ
  float : ℚ → φ
  volatility : List φ → ℚ

structure FeatureState (φ : Type) where
  sessionDate : ℤ
  prices : List ℚ := []
  returns : List φ := []
  priceVolume : ℚ := 0
  volume : ℚ := 0

structure FeatureEngine (φ : Type) where
  states : Dict String (FeatureState φ) := .empty
  quotes : Dict String MarketQuote := .empty
  volumeHistory : Dict (String × ℤ) (List ℚ) := .empty

/-- A bounded queue takes one more. -/
def push {α : Type} (capacity : ℕ) (kept : List α) (a : α) : List α := (kept ++ [a]).rtake capacity

def returnOf (before current : ℚ) : ℚ := context (context (current / before) - 1)

def typical (bar : MarketBar) : ℚ := context (context (context (bar.high + bar.low) + bar.close) / 3)

def sum (values : List ℚ) : ℚ := values.foldl (fun total value => context (total + value)) 0

def momentum (prices : List ℚ) (periods : ℕ) : Option ℚ :=
  match prices.getLast?, prices.reverse[periods]? with
  | some current, some before => some (returnOf before current)
  | _, _ => none

def relativeVolume (history : List ℚ) (volume : ℚ) : Option ℚ :=
  if history ≠ [] ∧ 0 < sum history then some (context (volume / context (sum history / history.length))) else none

def spreadBps (quoteMaxAge : ℤ) (quote : MarketQuote) (at_ : Instant) : Option ℚ :=
  let midpoint := context (context (quote.bidPrice + quote.askPrice) / 2)
  if quote.timestamp ≤ at_ ∧ at_ - quote.timestamp ≤ quoteMaxAge * second ∧ 0 < midpoint then
    some (context (context (context (quote.askPrice - quote.bidPrice) / midpoint) * 10000))
  else none

def vwap (priceVolume volume close : ℚ) : ℚ := if 0 < volume then context (priceVolume / volume) else close

def regimeOf (momentum60m realizedVolatility : Option ℚ) : MarketRegime :=
  match momentum60m with
  | none => .warmup
  | some momentum =>
    if realizedVolatility.any (3 / 10 ≤ ·) then .highVolatility
    else if 3 / 1000 ≤ |momentum| then .trending
    else .calm

namespace FeatureEngine

variable {φ : Type} (setup : FeatureSetup φ)

/-- A quote older than the one held raises. -/
def onQuote (e : FeatureEngine φ) (quote : MarketQuote) : FeatureEngine φ :=
  if (e.quotes.get? quote.symbol).any (quote.timestamp < ·.timestamp) then e
  else { e with quotes := e.quotes.set quote.symbol quote }

/-- The state of the session of a bar, which a new date begins. -/
def current (e : FeatureEngine φ) (bar : MarketBar) : FeatureState φ :=
  match e.states.get? bar.symbol with
  | some state =>
    if state.sessionDate = setup.date bar.timestamp then state else { sessionDate := setup.date bar.timestamp }
  | none => { sessionDate := setup.date bar.timestamp }

def grow (state : FeatureState φ) (bar : MarketBar) : FeatureState φ :=
  { state with
    prices := push 13 state.prices bar.close
    returns := match state.prices.getLast? with
      | some before => push 12 state.returns (setup.float (returnOf before bar.close))
      | none => state.returns
    priceVolume := context (state.priceVolume + context (typical bar * bar.volume))
    volume := context (state.volume + bar.volume) }

def vectorOf (state : FeatureState φ) (history : List ℚ) (quote : Option MarketQuote) (bar : MarketBar) :
    IntradayFeatureVector :=
  let realizedVolatility := if 2 ≤ state.returns.length then some (setup.volatility state.returns) else none
  let momentum60m := momentum state.prices 12
  { symbol := bar.symbol
    timestamp := bar.timestamp
    sessionVwapDistance := returnOf (vwap state.priceVolume state.volume bar.close) bar.close
    relativeVolume := Intraday.relativeVolume history bar.volume
    spreadBps := quote.bind fun quote => Intraday.spreadBps setup.quoteMaxAge quote bar.timestamp
    realizedVolatility
    momentum15m := momentum state.prices 3
    momentum30m := momentum state.prices 6
    momentum60m
    regime := regimeOf momentum60m realizedVolatility }

def onBar (e : FeatureEngine φ) (bar : MarketBar) : IntradayFeatureVector × FeatureEngine φ :=
  let state := grow setup (current setup e bar) bar
  let slot := (bar.symbol, setup.time bar.timestamp)
  let history := e.volumeHistory.getD slot []
  (vectorOf setup state history (e.quotes.get? bar.symbol) bar,
    { e with
      states := e.states.set bar.symbol state
      volumeHistory := e.volumeHistory.set slot (push 20 history bar.volume) })

end FeatureEngine

inductive Input where
  | quote (quote : MarketQuote)
  | bar (bar : MarketBar)

def FeatureEngine.step {φ : Type} (setup : FeatureSetup φ) (e : FeatureEngine φ) : Input → FeatureEngine φ
  | .quote quote => e.onQuote quote
  | .bar bar => (e.onBar setup bar).2

/-! ## The stream -/

def Input.bar? : Input → Option MarketBar
  | .bar b => some b
  | .quote _ => none

def Input.quote? : Input → Option MarketQuote
  | .quote q => some q
  | .bar _ => none

def barsOf (symbol : String) (inputs : List Input) : List MarketBar :=
  (inputs.filterMap Input.bar?).filter (·.symbol = symbol)

def quotesOf (symbol : String) (inputs : List Input) : List MarketQuote :=
  (inputs.filterMap Input.quote?).filter (·.symbol = symbol)

variable {φ : Type} (setup : FeatureSetup φ)

/-- The bars of a symbol back to the first of the date. -/
def session (bars : List MarketBar) (date : ℤ) : List MarketBar :=
  bars.rtakeWhile fun bar => setup.date bar.timestamp = date

/-- The returns from each bar to the next. -/
def returns (bars : List MarketBar) : List φ :=
  (bars.zip bars.tail).map fun pair => setup.float (returnOf pair.1.close pair.2.close)

def tradedValue (bars : List MarketBar) : ℚ := sum (bars.map fun bar => context (typical bar * bar.volume))

def volumesAt (bars : List MarketBar) (time : ℤ) : List ℚ :=
  (bars.filter fun bar => setup.time bar.timestamp = time).map MarketBar.volume

/-- The quote that stands: none is later, and none as late came after it. -/
def Stands (quotes : List MarketQuote) (quote : MarketQuote) : Prop :=
  ∃ before after, quotes = before ++ quote :: after ∧ (∀ other ∈ before, other.timestamp ≤ quote.timestamp) ∧
    ∀ other ∈ after, other.timestamp < quote.timestamp

/-- The state of a session: its last thirteen prices and twelve returns, and what it traded. -/
def stateOf (date : ℤ) (bars : List MarketBar) : FeatureState φ where
  sessionDate := date
  prices := (bars.map MarketBar.close).rtake 13
  returns := (returns setup bars).rtake 12
  priceVolume := tradedValue bars
  volume := sum (bars.map MarketBar.volume)

structure Tracks (e : FeatureEngine φ) (inputs : List Input) : Prop where
  states : ∀ symbol, e.states.get? symbol = (barsOf symbol inputs).getLast?.map fun last =>
    stateOf setup (setup.date last.timestamp) (session setup (barsOf symbol inputs) (setup.date last.timestamp))
  quotes : ∀ symbol, match e.quotes.get? symbol with
    | some quote => Stands (quotesOf symbol inputs) quote
    | none => quotesOf symbol inputs = []
  volumes : ∀ symbol time, e.volumeHistory.getD (symbol, time) [] =
    (volumesAt setup (barsOf symbol inputs) time).rtake 20

variable {setup}

theorem rtake_rtake {α : Type} (l : List α) {m n : ℕ} (le : m ≤ n) : (l.rtake n).rtake m = l.rtake m := by
  simp [List.rtake_eq_reverse_take_reverse, List.take_take, min_eq_left le]

/-- A bounded queue holds the last of what was put into it. -/
theorem push_rtake {α : Type} (l : List α) (a : α) (n : ℕ) :
    push (n + 1) (l.rtake (n + 1)) a = (l ++ [a]).rtake (n + 1) := by
  rw [push, List.rtake_concat_succ, List.rtake_concat_succ, rtake_rtake l (Nat.le_succ n)]

theorem sum_snoc (values : List ℚ) (value : ℚ) : sum (values ++ [value]) = context (sum values + value) := by
  simp [sum]

theorem returns_snoc (bars : List MarketBar) (last bar : MarketBar) : returns setup (bars ++ [last] ++ [bar]) =
    returns setup (bars ++ [last]) ++ [setup.float (returnOf last.close bar.close)] := by
  induction bars with
  | nil => rfl
  | cons first rest ih =>
    have step : ∀ one two : MarketBar, ∀ others : List MarketBar, returns setup (one :: two :: others) =
        setup.float (returnOf one.close two.close) :: returns setup (two :: others) := fun _ _ _ => rfl
    cases rest with
    | nil => rfl
    | cons second others =>
      simp only [List.cons_append] at ih ⊢
      rw [step, step, ih]
      rfl

/-- A session and one more bar. -/
theorem grow_stateOf (date : ℤ) (bars : List MarketBar) (bar : MarketBar) :
    FeatureEngine.grow setup (stateOf setup date bars) bar = stateOf setup date (bars ++ [bar]) := by
  have prices : push 13 ((bars.map MarketBar.close).rtake 13) bar.close =
      ((bars ++ [bar]).map MarketBar.close).rtake 13 := by
    rw [push_rtake, List.map_append, List.map_singleton]
  have value : context (tradedValue bars + context (typical bar * bar.volume)) = tradedValue (bars ++ [bar]) := by
    rw [tradedValue, tradedValue, List.map_append, List.map_singleton, sum_snoc]
  have volume : context (sum (bars.map MarketBar.volume) + bar.volume) =
      sum ((bars ++ [bar]).map MarketBar.volume) := by
    rw [List.map_append, List.map_singleton, sum_snoc]
  unfold FeatureEngine.grow stateOf
  simp only [prices, value, volume, FeatureState.mk.injEq, true_and, and_true]
  cases bars using List.reverseRecOn with
  | nil => rfl
  | append_singleton init last =>
    have newest : (((init ++ [last]).map MarketBar.close).rtake 13).getLast? = some last.close := by
      rw [List.map_append, List.map_singleton, List.rtake_concat_succ, List.getLast?_concat]
    simp only [newest]
    rw [push_rtake, returns_snoc]

variable {e : FeatureEngine φ} {inputs : List Input} {bar : MarketBar} {quote : MarketQuote}

@[simp] theorem barsOf_bar (symbol : String) : barsOf symbol (inputs ++ [.bar bar]) =
    barsOf symbol inputs ++ if bar.symbol = symbol then [bar] else [] := by
  by_cases same : bar.symbol = symbol <;> simp [barsOf, Input.bar?, same]

@[simp] theorem barsOf_quote (symbol : String) : barsOf symbol (inputs ++ [.quote quote]) = barsOf symbol inputs := by
  simp [barsOf, Input.bar?]

@[simp] theorem quotesOf_bar (symbol : String) : quotesOf symbol (inputs ++ [.bar bar]) = quotesOf symbol inputs := by
  simp [quotesOf, Input.quote?]

@[simp] theorem quotesOf_quote (symbol : String) : quotesOf symbol (inputs ++ [.quote quote]) =
    quotesOf symbol inputs ++ if quote.symbol = symbol then [quote] else [] := by
  by_cases same : quote.symbol = symbol <;> simp [quotesOf, Input.quote?, same]

/-- A session ends with the bar that is in it, and is empty before one that begins it. -/
theorem session_snoc (bars : List MarketBar) (bar : MarketBar) :
    session setup (bars ++ [bar]) (setup.date bar.timestamp) =
      session setup bars (setup.date bar.timestamp) ++ [bar] := by
  simp [session]

theorem session_other {bars : List MarketBar} {date : ℤ}
    (other : ∀ last ∈ bars.getLast?, setup.date last.timestamp ≠ date) : session setup bars date = [] := by
  cases bars using List.reverseRecOn with
  | nil => rfl
  | append_singleton init last =>
    have apart := other last (by simp)
    simp [session, apart]

/-- The state that a bar finds is that of its session so far. -/
theorem Tracks.current (h : Tracks setup e inputs) (bar : MarketBar) : e.current setup bar =
    stateOf setup (setup.date bar.timestamp) (session setup (barsOf bar.symbol inputs) (setup.date bar.timestamp)) := by
  have fresh : stateOf setup (setup.date bar.timestamp) [] = { sessionDate := setup.date bar.timestamp } := by
    simp [stateOf, returns, tradedValue, sum]
  simp only [FeatureEngine.current, h.states]
  cases newest : (barsOf bar.symbol inputs).getLast? with
  | none =>
    rw [session_other (by simp [newest])]
    exact fresh.symm
  | some last =>
    by_cases same : setup.date last.timestamp = setup.date bar.timestamp
    · simp [stateOf, same]
    · rw [session_other (by simpa [newest] using same)]
      simp [stateOf, same, returns, tradedValue, sum]

theorem Tracks.onBar (h : Tracks setup e inputs) (bar : MarketBar) :
    Tracks setup (e.onBar setup bar).2 (inputs ++ [.bar bar]) := by
  constructor
  · intro symbol
    by_cases same : bar.symbol = symbol
    · subst same
      simp [FeatureEngine.onBar, Dict.get?_set, h.current, grow_stateOf, session_snoc]
    · simp [FeatureEngine.onBar, Dict.get?_set, same, h.states]
  · intro symbol
    simpa [FeatureEngine.onBar] using h.quotes symbol
  · intro symbol time
    have kept := h.volumes bar.symbol (setup.time bar.timestamp)
    have before := h.volumes symbol time
    simp only [FeatureEngine.onBar, Dict.getD_set, Prod.mk.injEq, kept, push_rtake, before, barsOf_bar]
    by_cases same : bar.symbol = symbol <;> by_cases now : setup.time bar.timestamp = time
    · subst same now
      simp [volumesAt]
    · simp [volumesAt, same, now]
    · simp [volumesAt, same]
    · simp [volumesAt, same]

theorem Stands.snoc {quotes : List MarketQuote} {standing : MarketQuote} (h : Stands quotes standing) :
    Stands (quotes ++ [quote]) (if quote.timestamp < standing.timestamp then standing else quote) := by
  obtain ⟨before, after, rfl, least, later⟩ := h
  by_cases older : quote.timestamp < standing.timestamp
  · refine ⟨before, after ++ [quote], by simp [older], by simpa [older] using least, ?_⟩
    simpa [older, or_imp, forall_and] using later
  · refine ⟨before ++ standing :: after, [], by simp [older], ?_, by simp⟩
    have all : ∀ other ∈ before ++ standing :: after, other.timestamp ≤ standing.timestamp := by
      intro other member
      simp only [List.mem_append, List.mem_cons] at member
      rcases member with old | rfl | new
      · exact least other old
      · exact le_rfl
      · exact (later other new).le
    simpa [older] using fun other member => (all other member).trans (not_lt.mp older)

theorem Tracks.onQuote (h : Tracks setup e inputs) (quote : MarketQuote) :
    Tracks setup (e.onQuote quote) (inputs ++ [.quote quote]) := by
  have held := h.quotes quote.symbol
  have states : (e.onQuote quote).states = e.states := by
    simp only [FeatureEngine.onQuote]
    split <;> rfl
  have volumes : (e.onQuote quote).volumeHistory = e.volumeHistory := by
    simp only [FeatureEngine.onQuote]
    split <;> rfl
  constructor
  · intro symbol
    simpa [states] using h.states symbol
  · intro symbol
    by_cases same : quote.symbol = symbol
    · subst same
      cases found : e.quotes.get? quote.symbol with
      | none =>
        rw [found] at held
        have first : (e.onQuote quote).quotes.get? quote.symbol = some quote := by
          simp [FeatureEngine.onQuote, found, Dict.get?_set]
        simp only [first, quotesOf_quote, held, if_true]
        exact ⟨[], [], rfl, by simp, by simp⟩
      | some standing =>
        rw [found] at held
        have next : (e.onQuote quote).quotes.get? quote.symbol =
            some (if quote.timestamp < standing.timestamp then standing else quote) := by
          by_cases older : quote.timestamp < standing.timestamp <;>
            simp [FeatureEngine.onQuote, found, older, Dict.get?_set]
        simp only [next, quotesOf_quote, if_true]
        exact Stands.snoc held
    · have kept : (e.onQuote quote).quotes.get? symbol = e.quotes.get? symbol := by
        simp only [FeatureEngine.onQuote]
        split <;> simp [Dict.get?_set, same]
      simpa [kept, same] using h.quotes symbol
  · intro symbol time
    simpa [volumes] using h.volumes symbol time

theorem run_tracks (setup : FeatureSetup φ) (inputs : List Input) :
    Tracks setup (Machine.run (FeatureEngine.step setup) {} inputs) inputs := by
  induction inputs using List.reverseRecOn with
  | nil => exact ⟨by simp [barsOf, Dict.get?_empty], by simp [quotesOf, Dict.get?_empty], fun _ _ => rfl⟩
  | append_singleton init input ih =>
    rw [Machine.run_append, Machine.run_cons, Machine.run_nil]
    cases input with
    | quote quote => exact ih.onQuote quote
    | bar bar => exact ih.onBar bar

/-! ## The features of a bar -/

/-- What a vector says of a bar: of the bars of its session, which it ends, of the earlier volumes at its time of day
and of the quote that stands. -/
structure Describes (setup : FeatureSetup φ) (inputs : List Input) (bar : MarketBar) (v : IntradayFeatureVector)
    (own : List MarketBar) : Prop where
  named : v.symbol = bar.symbol ∧ v.timestamp = bar.timestamp
  momentum15m : v.momentum15m = own.reverse[3]?.map fun before => returnOf before.close bar.close
  momentum30m : v.momentum30m = own.reverse[6]?.map fun before => returnOf before.close bar.close
  momentum60m : v.momentum60m = own.reverse[12]?.map fun before => returnOf before.close bar.close
  vwapDistance : v.sessionVwapDistance =
    returnOf (vwap (tradedValue own) (sum (own.map MarketBar.volume)) bar.close) bar.close
  realizedVolatility : v.realizedVolatility =
    if 3 ≤ own.length then some (setup.volatility ((returns setup own).rtake 12)) else none
  relativeVolume : v.relativeVolume = Intraday.relativeVolume
    ((volumesAt setup (barsOf bar.symbol inputs) (setup.time bar.timestamp)).rtake 20) bar.volume
  spreadBps : (quotesOf bar.symbol inputs = [] ∧ v.spreadBps = none) ∨
    ∃ quote, Stands (quotesOf bar.symbol inputs) quote ∧
      v.spreadBps = Intraday.spreadBps setup.quoteMaxAge quote bar.timestamp
  regime : v.regime = regimeOf v.momentum60m v.realizedVolatility

theorem returns_length (bars : List MarketBar) : (returns setup bars).length = bars.length - 1 := by
  simp [returns]

theorem length_rtake {α : Type} (l : List α) (n : ℕ) : (l.rtake n).length = min n l.length := by
  simp [List.rtake_eq_reverse_take_reverse]

/-- A momentum over some bars, from prices that reach that far back. -/
theorem momentum_rtake (earlier : List MarketBar) (bar : MarketBar) {periods kept : ℕ} (within : periods < kept) :
    momentum (((earlier ++ [bar]).map MarketBar.close).rtake kept) periods =
      (earlier ++ [bar]).reverse[periods]?.map fun before => returnOf before.close bar.close := by
  obtain ⟨room, rfl⟩ := Nat.exists_eq_add_of_lt within
  have newest : (((earlier ++ [bar]).map MarketBar.close).rtake (periods + room + 1)).getLast? = some bar.close := by
    rw [List.map_append, List.map_singleton, List.rtake_concat_succ, List.getLast?_concat]
  have back : (((earlier ++ [bar]).map MarketBar.close).rtake (periods + room + 1)).reverse[periods]? =
      (earlier ++ [bar]).reverse[periods]?.map MarketBar.close := by
    have inside : periods < periods + room + 1 := by omega
    rw [List.rtake_eq_reverse_take_reverse, List.reverse_reverse, List.getElem?_take_of_lt inside, ← List.map_reverse,
      List.getElem?_map]
  simp only [momentum, newest, back]
  cases (earlier ++ [bar]).reverse[periods]? <;> rfl

/-- After any stream of bars and quotes the features of the next bar are those of the bars of its own session so far,
however the bars of other symbols, of other sessions and the quotes come between. -/
theorem features_of_stream (setup : FeatureSetup φ) (inputs : List Input) (bar : MarketBar) :
    Describes setup inputs bar ((Machine.run (FeatureEngine.step setup) {} inputs).onBar setup bar).1
      (session setup (barsOf bar.symbol (inputs ++ [.bar bar])) (setup.date bar.timestamp)) := by
  have tracks := run_tracks setup inputs
  generalize Machine.run (FeatureEngine.step setup) {} inputs = e at *
  have own : session setup (barsOf bar.symbol (inputs ++ [.bar bar])) (setup.date bar.timestamp) =
      session setup (barsOf bar.symbol inputs) (setup.date bar.timestamp) ++ [bar] := by simp [session_snoc]
  have quotes := tracks.quotes bar.symbol
  rw [own]
  simp only [FeatureEngine.onBar, tracks.current, grow_stateOf, tracks.volumes]
  generalize session setup (barsOf bar.symbol inputs) (setup.date bar.timestamp) = earlier
  constructor
  · exact ⟨rfl, rfl⟩
  · exact momentum_rtake earlier bar (by omega)
  · exact momentum_rtake earlier bar (by omega)
  · exact momentum_rtake earlier bar (by omega)
  · rfl
  · have enough : 2 ≤ ((returns setup (earlier ++ [bar])).rtake 12).length ↔ 3 ≤ (earlier ++ [bar]).length := by
      rw [length_rtake, returns_length]
      omega
    simp only [FeatureEngine.vectorOf, stateOf, enough]
  · rfl
  · cases found : e.quotes.get? bar.symbol with
    | none =>
      rw [found] at quotes
      exact .inl ⟨quotes, rfl⟩
    | some quote =>
      rw [found] at quotes
      exact .inr ⟨quote, quotes, rfl⟩
  · rfl

end TradeAgent.Intraday
