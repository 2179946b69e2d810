import Mathlib.Algebra.Order.Ring.Rat
import TradeAgent.Library.Dict
import TradeAgent.Library.Numeral
import TradeAgent.Library.Procedure

/-! The feature engine of the crypto feed: one book and one rolling history for each symbol, kept
from quotes, trades, book snapshots and deltas that arrive over one connection at a time. -/
namespace TradeAgent.Market

abbrev Uuid := String

def nsPerSecond : ℤ := 1000000000

structure BookLevel where
  price : ℚ
  quantity : ℚ
  priced : 0 < price
  counted : 0 ≤ quantity
  deriving DecidableEq

inductive TakerSide where
  | buy | sell
  deriving DecidableEq, Repr

/-- What an event says, by its type. -/
inductive Content where
  | book (bids asks : List BookLevel) (reset : Bool)
  | quote (bid ask : BookLevel)
  | trade (price quantity : ℚ) (tradeId : String) (takerSide : Option TakerSide)
      (priced : 0 < price) (counted : 0 < quantity)
  | reset (reason : String)
  deriving DecidableEq

/-- A tape record. The microsecond timestamps are those in nanoseconds, cut. -/
structure MarketEvent where
  eventId : String
  symbol : String
  exchangeAtNs : ℤ
  exchangeTimestamp : String
  receivedAtNs : ℤ
  receivedMonotonicNs : ℤ
  decodedAtNs : Option ℤ := none
  decodedMonotonicNs : Option ℤ := none
  connectionId : Uuid
  receiveSequence : ℕ
  providerSequence : Option (ℤ ⊕ String) := none
  content : Content
  deriving DecidableEq

structure Settings where
  symbols : List String
  maxLevels : ℕ := 2000
  maxEvents : ℕ := 20000
  staleNs : ℤ := 5 * nsPerSecond
  retentionNs : ℤ := 90 * nsPerSecond
  levelsPositive : 1 ≤ maxLevels
  eventsPositive : 2 ≤ maxEvents

theorem levels_kept : 1 ≤ 2000 := by decide

theorem events_kept : 2 ≤ 20000 := by decide

/-! ## Arithmetic -/

/-- What the engine catches. -/
inductive Fault where
  | marketData | decimal | validation | overflow
  deriving DecidableEq, Repr

/-- Decimal arithmetic in its context, which rounds and may signal; `float` raises where the
conversion leaves the finite range. -/
structure Arithmetic where
  add : ℚ → ℚ → Except Fault ℚ
  sub : ℚ → ℚ → Except Fault ℚ
  mul : ℚ → ℚ → Except Fault ℚ
  div : ℚ → ℚ → Except Fault ℚ
  float : ℚ → Except Fault Unit

def Arithmetic.sum (arith : Arithmetic) (values : List ℚ) : Except Fault ℚ :=
  values.foldlM arith.add 0

/-! ## Book -/

structure Book where
  bids : Dict ℚ ℚ := .empty
  asks : Dict ℚ ℚ := .empty
  valid : Bool := false
  awaitingCurrentUpdate : Bool := false
  reason : String := "snapshot_required"
  exchangeNs : ℤ := 0
  receivedNs : ℤ := 0
  version : Option String := none

def Book.invalidate (book : Book) (reason : String) : Book :=
  { book with
    bids := .empty
    asks := .empty
    valid := false
    awaitingCurrentUpdate := false
    reason
    version := none }

def applyLevel (side : Dict ℚ ℚ) (level : BookLevel) : Dict ℚ ℚ :=
  if level.quantity = 0 then side.erase level.price else side.set level.price level.quantity

def applyLevels (side : Dict ℚ ℚ) (levels : List BookLevel) : Dict ℚ ℚ := levels.foldl applyLevel side

def bestBid (bids : Dict ℚ ℚ) : Option ℚ := bids.keys.max?
def bestAsk (asks : Dict ℚ ℚ) : Option ℚ := asks.keys.min?

/-- Why two sides make no book. -/
def refusal (maxLevels : ℕ) (bids asks : Dict ℚ ℚ) : Option String :=
  if maxLevels < bids.entries.length ∨ maxLevels < asks.entries.length then
    some "book_capacity_exceeded"
  else match bestBid bids, bestAsk asks with
    | some bid, some ask => if ask ≤ bid then some "locked_or_crossed_book" else none
    | _, _ => some "empty_book"

/-- Why an event cannot apply to the book. -/
def Book.untimely (book : Book) (staleNs : ℤ) (event : MarketEvent) (reset : Bool) : Option String :=
  if event.receivedAtNs < event.exchangeAtNs then some "future_book"
  else if event.exchangeAtNs < book.exchangeNs then some "out_of_order_book"
  else if !reset ∧ staleNs < event.receivedAtNs - event.exchangeAtNs then some "stale_book_event"
  else if !reset ∧ !book.valid then some "snapshot_required"
  else none

def Book.apply (book : Book) (settings : Settings) (event : MarketEvent) (bids asks : List BookLevel)
    (reset : Bool) : Book × Option String :=
  match book.untimely settings.staleNs event reset with
  | some reason => (book.invalidate reason, some reason)
  | none =>
    let bids := applyLevels (if reset then .empty else book.bids) bids
    let asks := applyLevels (if reset then .empty else book.asks) asks
    match refusal settings.maxLevels bids asks with
    | some reason => (book.invalidate reason, some reason)
    | none =>
      let awaiting := decide (settings.staleNs < event.receivedAtNs - event.exchangeAtNs)
      ({ bids, asks, valid := true, awaitingCurrentUpdate := awaiting
         reason := if awaiting then "awaiting_current_book_update" else "valid"
         exchangeNs := event.exchangeAtNs
         receivedNs := event.receivedAtNs
         version := some event.eventId }, none)

/-! ## The state of a symbol -/

structure ScalpQuote where
  symbol : String
  exchangeTimeNs : ℤ
  receivedAtNs : ℤ
  bid : ℚ
  ask : ℚ
  bidSize : ℚ
  askSize : ℚ
  bidPositive : 0 < bid
  askPositive : 0 < ask
  uncrossed : bid ≤ ask
  deriving DecidableEq

structure Bbo where
  exchangeNs : ℤ
  receivedNs : ℤ
  quote : ScalpQuote
  ofi : ℚ
  sourceId : String
  deriving DecidableEq

structure Change where
  exchangeNs : ℤ
  receivedNs : ℤ
  bidAdd : ℚ
  askAdd : ℚ
  bidRemove : ℚ
  askRemove : ℚ
  bidDepletion : ℚ
  askDepletion : ℚ
  deriving DecidableEq, Repr

structure Minute where
  startNs : ℤ
  high : ℚ
  low : ℚ
  close : ℚ
  deriving DecidableEq, Repr

/-- What identifies a trade at the venue. -/
structure TradeIdentity where
  symbol : String
  tradeId : String
  exchangeAtNs : ℤ
  deriving DecidableEq, Repr

structure SymbolState where
  book : Book := {}
  connectionId : Option Uuid := none
  lastReceivedNs : ℤ := 0
  lastQuoteNs : ℤ := 0
  lastTradeNs : ℤ := 0
  historyStartNs : ℤ := 0
  bbo : List Bbo := []
  changes : List Change := []
  trades : List MarketEvent := []
  events : List (ℤ × ℤ) := []
  tradeIds : List TradeIdentity := []
  dedupExhaustedAtNs : ℤ := 0
  sessionDay : Option ℤ := none
  sessionNotional : ℚ := 0
  sessionVolume : ℚ := 0
  sessionCount : ℕ := 0
  priceVolume : Dict ℚ ℚ := .empty
  pocOverflow : Bool := false
  minute : Option Minute := none
  minuteCovered : Bool := false
  previousClose : Option ℚ := none
  trueRanges : List ℚ := []
  resnapshotRequired : Bool := false
  resnapshotReason : Option String := none
  -- What `on_resnapshot` was called with for this symbol.
  requests : List (String × Option Uuid) := []

namespace SymbolState

def clearHistory (state : SymbolState) : SymbolState :=
  { state with
    historyStartNs := 0
    bbo := []
    changes := []
    trades := []
    events := []
    minute := none
    minuteCovered := false
    previousClose := none
    trueRanges := [] }

def invalidate (state : SymbolState) (reason : String) (requestSnapshot : Bool) : SymbolState :=
  let state := { state.clearHistory with book := state.book.invalidate reason }
  if !requestSnapshot then { state with resnapshotRequired := false, resnapshotReason := none }
  else if state.resnapshotRequired then state
  else
    { state with
      resnapshotRequired := true
      resnapshotReason := some reason
      requests := state.requests ++ [(reason, state.connectionId)] }

def prune (settings : Settings) (state : SymbolState) (atNs : ℤ) : SymbolState :=
  let cutoff := atNs - settings.retentionNs
  let state := { state with
    bbo := state.bbo.dropWhile fun sample => sample.receivedNs < cutoff
    changes := state.changes.dropWhile fun sample => sample.receivedNs < cutoff
    trades := state.trades.dropWhile fun trade => trade.receivedAtNs < cutoff
    events := state.events.dropWhile fun times => times.2 < cutoff }
  -- A truncated rolling window is not valid feature history.
  if settings.maxEvents ≤ state.bbo.length ∨ settings.maxEvents ≤ state.changes.length ∨
      settings.maxEvents ≤ state.trades.length ∨ settings.maxEvents ≤ state.events.length then
    state.clearHistory
  else state

end SymbolState

abbrev Handler := Procedure SymbolState Fault

section handlers

open Procedure (view modify lift raise)

variable (settings : Settings) (arith : Arithmetic)

def difference (before after : Dict ℚ ℚ) : Except Fault (ℚ × ℚ) := do
  let additions ← after.entries.foldlM (fun total (price, quantity) => do
    arith.add total (max 0 (← arith.sub quantity (before.getD price 0)))) 0
  let removals ← before.entries.foldlM (fun total (price, quantity) => do
    arith.add total (max 0 (← arith.sub quantity (after.getD price 0)))) 0
  return (additions, removals)

def depletion (removed : ℚ) (before : Dict ℚ ℚ) : Except Fault ℚ :=
  if before.entries.isEmpty then .ok 0
  else do arith.div removed (← arith.sum before.values)

def bookChange (event : MarketEvent) (before after : Book) : Except Fault Change := do
  let (bidAdd, bidRemove) ← difference arith before.bids after.bids
  let (askAdd, askRemove) ← difference arith before.asks after.asks
  let bidDepletion ← depletion arith bidRemove before.bids
  let askDepletion ← depletion arith askRemove before.asks
  return ⟨event.exchangeAtNs, event.receivedAtNs, bidAdd, askAdd, bidRemove, askRemove, bidDepletion,
    askDepletion⟩

/-- A quote that `ScalpQuote` accepts. -/
def scalpQuote (event : MarketEvent) (bid ask bidSize askSize : ℚ) : Except Fault ScalpQuote :=
  if valid : 0 < bid ∧ 0 < ask ∧ bid ≤ ask ∧ 0 < event.exchangeAtNs ∧ 0 ≤ bidSize ∧ 0 ≤ askSize ∧
      event.exchangeAtNs / 1000 ≤ event.receivedAtNs / 1000 then
    .ok ⟨event.symbol, event.exchangeAtNs, event.receivedAtNs, bid, ask, bidSize, askSize,
      valid.1, valid.2.1, valid.2.2.1⟩
  else .error .validation

def orderFlow (old : ScalpQuote) (bid ask bidSize askSize : ℚ) : Except Fault ℚ := do
  let gained ← arith.sub (if old.bid ≤ bid then bidSize else 0) (if bid ≤ old.bid then old.bidSize else 0)
  let offered ← arith.sub gained (if ask ≤ old.ask then askSize else 0)
  arith.add offered (if old.ask ≤ ask then old.askSize else 0)

/-- The next sample of the best bid and offer, unless its channel lags behind the last. -/
def nextBbo (previous : Option Bbo) (event : MarketEvent) (bid ask bidSize askSize : ℚ) :
    Except Fault (Option Bbo) :=
  match previous with
  | none => do
    let quote ← scalpQuote event bid ask bidSize askSize
    return some ⟨event.exchangeAtNs, event.receivedAtNs, quote, 0, event.eventId⟩
  | some old =>
    if event.exchangeAtNs < old.exchangeNs then .ok none
    else do
      let quote ← scalpQuote event bid ask bidSize askSize
      let ofi ← orderFlow arith old.quote bid ask bidSize askSize
      return some ⟨event.exchangeAtNs, event.receivedAtNs, quote, ofi, event.eventId⟩

def observeBbo (event : MarketEvent) (bid ask bidSize askSize : ℚ) : Handler Unit := do
  let previous ← view fun state => state.bbo.getLast?
  match ← lift (nextBbo arith previous event bid ask bidSize askSize) with
  | none => return ()
  | some sample => modify fun state => { state with
      bbo := state.bbo ++ [sample]
      historyStartNs := if state.historyStartNs = 0 then event.exchangeAtNs else state.historyStartNs }

def dayNs : ℤ := 86400 * nsPerSecond
def minuteNs : ℤ := 60 * nsPerSecond

def openSession (day : ℤ) (state : SymbolState) : SymbolState :=
  if state.sessionDay = some day then state
  else { state with
    sessionDay := some day
    sessionNotional := 0
    sessionVolume := 0
    sessionCount := 0
    priceVolume := .empty
    pocOverflow := false }

def observeSession (price quantity : ℚ) : Handler Unit := do
  let state ← view id
  let volume ← lift (arith.add state.sessionVolume quantity)
  let notional ← lift (do arith.add state.sessionNotional (← arith.mul price quantity))
  lift (arith.float volume)
  lift (do arith.float (← arith.div notional volume))
  modify fun state => { state with
    sessionNotional := notional
    sessionVolume := volume
    sessionCount := state.sessionCount + 1 }
  if state.pocOverflow then return ()
  else if state.priceVolume.get? price = none ∧ 4096 ≤ state.priceVolume.entries.length then
    modify fun state => { state with pocOverflow := true, priceVolume := .empty }
  else
    let total ← lift (arith.add (state.priceVolume.getD price 0) quantity)
    modify fun state => { state with priceVolume := state.priceVolume.set price total }

def trueRange (bar : Minute) (previousClose : ℚ) : Except Fault ℚ := do
  let spread ← arith.sub bar.high bar.low
  let rise ← arith.sub bar.high previousClose
  let fall ← arith.sub bar.low previousClose
  return max spread (max |rise| |fall|)

/-- The bar that a trade of the next minute closes. -/
def closeMinute (bar : Minute) : Handler Unit := do
  let state ← view id
  match state.minuteCovered, state.previousClose with
  | true, some close =>
    let range ← lift (trueRange arith bar close)
    modify fun state => { state with
      trueRanges := (state.trueRanges ++ [range]).drop (state.trueRanges.length + 1 - 14) }
  | _, _ => return ()

def observeMinute (price : ℚ) (startNs : ℤ) : Handler Unit := do
  let state ← view id
  let opened : Minute := ⟨startNs, price, price, price⟩
  match state.minute with
  | none => modify fun state => { state with minute := some opened }
  | some bar =>
    if startNs = bar.startNs then
      modify fun state => { state with
        minute := some { bar with high := max bar.high price, low := min bar.low price, close := price } }
    else if startNs = bar.startNs + minuteNs then
      closeMinute arith bar
      modify fun state => { state with
        previousClose := some bar.close, minuteCovered := true, minute := some opened }
    else
      modify fun state => { state with
        trueRanges := []
        previousClose := none
        minuteCovered := false
        minute := some opened }

def observeTrade (event : MarketEvent) (price quantity : ℚ) : Handler Unit := do
  modify (openSession (event.exchangeAtNs / dayNs))
  observeSession arith price quantity
  observeMinute arith price (event.exchangeAtNs / minuteNs * minuteNs)

/-- Every number of an event converts to a finite float. -/
def checkFloats : Content → Except Fault Unit
  | .book bids asks _ => (bids ++ asks).forM fun level => do
    arith.float level.price
    arith.float level.quantity
  | .quote bid ask => [bid, ask].forM fun level => do
    arith.float level.price
    arith.float level.quantity
  | .trade price quantity .. => do
    arith.float price
    arith.float quantity
  | .reset _ => .ok ()

def refuse (reason : String) : Handler Bool := do
  modify fun state => state.invalidate reason true
  return false

def accepted (event : MarketEvent) : Handler Bool := do
  modify fun state => { state with
    events := state.events ++ [(event.exchangeAtNs, event.receivedAtNs)] }
  return true

/-- What a book event adds to the rolling history, or that it starts the history over. -/
def recordChange (event : MarketEvent) (before after : Book) (reset : Bool) : Handler Unit :=
  if reset ∨ before.awaitingCurrentUpdate then modify SymbolState.clearHistory
  else do
    let change ← lift (bookChange arith event before after)
    modify fun state => { state with changes := state.changes ++ [change] }

/-- An old provider snapshot seeds reconstruction, not elapsed history. -/
def recordBbo (event : MarketEvent) (book : Book) : Handler Unit :=
  match book.awaitingCurrentUpdate, bestBid book.bids, bestAsk book.asks with
  | false, some bid, some ask =>
    observeBbo arith event bid ask (book.bids.getD bid 0) (book.asks.getD ask 0)
  | _, _, _ => return ()

def processBook (event : MarketEvent) (bids asks : List BookLevel) (reset : Bool) : Handler Bool := do
  let before ← view SymbolState.book
  let (book, reason) := before.apply settings event bids asks reset
  modify fun state => { state with book }
  match reason with
  | some reason => refuse reason
  | none =>
    modify fun state =>
      if reset then { state with resnapshotRequired := false, resnapshotReason := none } else state
    recordChange arith event before book reset
    recordBbo arith event book
    accepted event

def recordQuote (event : MarketEvent) (bid ask : BookLevel) : Handler Unit := do
  let book ← view SymbolState.book
  if book.valid ∧ !book.awaitingCurrentUpdate then
    observeBbo arith event bid.price ask.price bid.quantity ask.quantity
  else return ()

def processQuote (event : MarketEvent) (bid ask : BookLevel) : Handler Bool := do
  let state ← view id
  if event.exchangeAtNs < state.lastQuoteNs then return false
  else
    modify fun state => { state with lastQuoteNs := event.exchangeAtNs }
    if ask.price ≤ bid.price ∨ bid.quantity = 0 ∨ ask.quantity = 0 then refuse "invalid_quote"
    else
      recordQuote arith event bid ask
      accepted event

/-- The trade's bucket of identities is full. -/
def exhausted (state : SymbolState) (exchangeAtNs : ℤ) : Bool :=
  exchangeAtNs = state.dedupExhaustedAtNs ∨
    settings.maxEvents ≤ state.tradeIds.length ∧
      state.tradeIds.head?.map TradeIdentity.exchangeAtNs = some exchangeAtNs

def processTrade (event : MarketEvent) (price quantity : ℚ) (tradeId : String) : Handler Bool := do
  let identity : TradeIdentity := ⟨event.symbol, tradeId, event.exchangeAtNs⟩
  let state ← view id
  if identity ∈ state.tradeIds then return false
  else if event.exchangeAtNs < state.lastTradeNs then return false
  else if exhausted settings state event.exchangeAtNs then
    modify fun state => { state.clearHistory with dedupExhaustedAtNs := event.exchangeAtNs }
    return false
  else
    modify fun state => { state with
      lastTradeNs := event.exchangeAtNs
      tradeIds := (state.tradeIds ++ [identity]).drop (state.tradeIds.length + 1 - settings.maxEvents)
      trades := state.trades ++ [event] }
    observeTrade arith event price quantity
    accepted event

/-- What an event in receive order does to its symbol. -/
def applyEvent (event : MarketEvent) : Handler Bool :=
  match event.content with
  | .reset reason => do
    modify fun state => state.invalidate reason false
    return true
  | content =>
    if event.receivedAtNs < event.exchangeAtNs then refuse "future_market_event"
    else do
      lift (checkFloats arith content)
      modify fun state => state.prune settings event.receivedAtNs
      match content with
      | .book bids asks reset => processBook settings arith event bids asks reset
      | .quote bid ask => processQuote arith event bid ask
      | .trade price quantity tradeId .. => processTrade settings arith event price quantity tradeId
      | .reset _ => return true

end handlers

/-! ## The engine -/

structure Engine where
  states : Dict String SymbolState
  connectionId : Option Uuid := none
  retiredConnections : List Uuid := []
  lastEvent : Option MarketEvent := none

/-- `base.strip().upper()`, a pair against the dollar. -/
def cryptoSymbol (value : String) : Option String :=
  let symbol := (Numeral.strip value.toList).map Char.toUpper
  let base := symbol.takeWhile (· ≠ '/')
  if base ≠ [] ∧ base.all Char.isAlphanum ∧ symbol.dropWhile (· ≠ '/') = "/USD".toList then
    some (String.ofList symbol)
  else none

namespace Engine

variable (settings : Settings) (arith : Arithmetic)

def start : Engine where
  states := .ofList (settings.symbols.map fun symbol => (symbol, {}))

def resetAll (e : Engine) (reason : String) : Engine :=
  { e with states := e.states.mapValues fun state => state.invalidate reason true }

/-- `reset`; it raises on an empty reason and on a symbol that is not configured. -/
def reset (e : Engine) (symbol : Option String) (reason : String) : Option Engine :=
  if reason = "" then none
  else match symbol with
    | none => some (e.resetAll reason)
    | some name => do
      let symbol ← cryptoSymbol name
      let state ← e.states.get? symbol
      return { e with states := e.states.set symbol (state.invalidate reason true) }

/-- Another connection starts every symbol over. -/
def connect (e : Engine) (connectionId : Uuid) : Engine where
  connectionId := some connectionId
  lastEvent := none
  retiredConnections :=
    match e.connectionId with
    | none => e.retiredConnections
    | some old =>
      let retired := if old ∈ e.retiredConnections then e.retiredConnections
        else e.retiredConnections ++ [old]
      retired.drop (retired.length - 64)
  states := e.states.mapValues fun state =>
    { state.invalidate "connection_changed" false with
      book := {}
      connectionId := some connectionId
      lastReceivedNs := 0
      lastQuoteNs := 0 }

/-- The event takes its place after the last one. -/
def place (e : Engine) (event : MarketEvent) : Engine :=
  { e with
    lastEvent := some event
    states := e.states.modify event.symbol fun state =>
      { state with lastReceivedNs := event.receivedAtNs } }

/-- `_receive` on the connection the event came over. -/
def follow (e : Engine) (event : MarketEvent) : Engine × Bool :=
  match e.lastEvent with
  | none => (e.place event, true)
  | some previous =>
    if event = previous then (e, false)
    else if event.receiveSequence ≤ previous.receiveSequence then
      (e.resetAll "local_receive_order_error", false)
    else if event.receivedAtNs < previous.receivedAtNs ∨
        event.receivedMonotonicNs < previous.receivedMonotonicNs then
      (e.resetAll "local_clock_regression", false)
    else if event.receiveSequence ≠ previous.receiveSequence + 1 then
      ((e.resetAll "local_receive_sequence_gap").place event, true)
    else (e.place event, true)

def receive (e : Engine) (event : MarketEvent) : Engine × Bool :=
  if e.connectionId = some event.connectionId then e.follow event
  else if event.connectionId ∈ e.retiredConnections then
    (e.resetAll "retired_connection_event", false)
  else (e.connect event.connectionId).follow event

/-- The symbol's part of an event, with what the engine catches. -/
def handle (state : SymbolState) (event : MarketEvent) : SymbolState × Bool :=
  match applyEvent settings arith event state with
  | (.ok accepted, state) => (state, accepted)
  | (.error _, state) => (state.invalidate "invalid_market_numeric_domain" true, false)

def onEvent (e : Engine) (event : MarketEvent) : Engine × Bool :=
  match e.states.get? event.symbol with
  | none => (e.resetAll "unconfigured_market_symbol", false)
  | some _ =>
    match e.receive event with
    | (e, false) => (e, false)
    | (e, true) =>
      match e.states.get? event.symbol with
      | none => (e, false)
      | some state =>
        let (state, accepted) := handle settings arith state event
        ({ e with states := e.states.set event.symbol state }, accepted)

def quote (e : Engine) (symbol : String) : Option ScalpQuote :=
  (e.states.get? symbol).bind fun state =>
    if state.book.valid then state.bbo.getLast?.map Bbo.quote else none

/-- The last quote, when it and the book are both recent. -/
def quoteAtNs (e : Engine) (symbol : String) (nowNs : ℤ) : Option ScalpQuote := do
  let state ← e.states.get? symbol
  let quote ← e.quote symbol
  let sample ← state.bbo.getLast?
  if [state.book.exchangeNs, state.book.receivedNs, quote.exchangeTimeNs, sample.receivedNs].all
      fun at_ => 0 ≤ nowNs - at_ ∧ nowNs - at_ ≤ settings.staleNs then some quote
  else none

inductive BookSide where
  | bid | ask
  deriving DecidableEq, Repr

/-- The levels of one side, best first. -/
def levels (e : Engine) (symbol : String) (side : BookSide) (depth : ℕ) : List (ℚ × ℚ) :=
  match e.states.get? symbol with
  | none => []
  | some state =>
    if state.book.valid then
      match side with
      | .bid => (state.book.bids.entries.insertionSort fun a b => b.1 ≤ a.1).take depth
      | .ask => (state.book.asks.entries.insertionSort fun a b => a.1 ≤ b.1).take depth
    else []

end Engine

/-- What the engine is given. -/
inductive Input where
  | event (event : MarketEvent)
  | reset (symbol : Option String) (reason : String)

def Engine.step (settings : Settings) (arith : Arithmetic) (e : Engine) : Input → Engine
  | .event event => (e.onEvent settings arith event).1
  | .reset symbol reason => (e.reset symbol reason).getD e

end TradeAgent.Market
