import TradeAgent.ScalpStrategy

/-! The replay of a recorded tape: orders travel to a simulated venue and back with fixed latencies,
rest in modelled queues, take observed depth, and are accounted for fill by fill. Work lies in one
queue of timers; market records at an instant come before the work due at it. -/
namespace TradeAgent.Simulation

open Market (MarketEvent ScalpQuote Engine nsPerSecond)
open Market.Engine (BookSide)

structure ReplayLatency where
  decisionToSendMs : ℚ := 0
  sendToArrivalMs : ℚ := 20
  arrivalToAckMs : ℚ := 20
  cancelLatencyMs : ℚ := 20
  sendNonneg : 0 ≤ decisionToSendMs
  arrivalNonneg : 0 ≤ sendToArrivalMs
  ackNonneg : 0 ≤ arrivalToAckMs
  cancelNonneg : 0 ≤ cancelLatencyMs

structure ExecutionAssumptions where
  slippageBps : ℚ := 0
  queueAheadMultiplier : ℚ := 1
  participationRate : ℚ := 1
  slippageNonneg : 0 ≤ slippageBps
  slippageBelow : slippageBps < 10000
  multiplierLe : 1 ≤ queueAheadMultiplier
  ratePositive : 0 < participationRate
  rateLe : participationRate ≤ 1

/-- A delay in nanoseconds, rounded up. -/
def delayNs (milliseconds : ℚ) : ℤ := ⌈milliseconds * 1000000⌉

structure Setup where
  config : ScalpingConfig
  latency : ReplayLatency
  assumptions : ExecutionAssumptions

namespace Setup

variable (setup : Setup)

def sendDelay : ℤ := delayNs setup.latency.decisionToSendMs
def arrivalDelay : ℤ := delayNs setup.latency.sendToArrivalMs
def ackDelay : ℤ := delayNs setup.latency.arrivalToAckMs
def cancelDelay : ℤ := delayNs setup.latency.cancelLatencyMs
def decisionInterval : ℤ := max 1 (delayNs (setup.config.decisionIntervalSeconds * 1000))
def entryTtl : ℤ := delayNs (setup.config.entryOrderTtlSeconds * 1000)

/-- The feature engine under a replay. -/
def settings : Market.Settings where
  symbols := setup.config.symbols
  staleNs := ⌊setup.config.featureHorizonSeconds * nsPerSecond⌋
  retentionNs := ⌊max 90 (setup.config.featureHorizonSeconds + 15) * nsPerSecond⌋
  levelsPositive := Market.levels_kept
  eventsPositive := Market.events_kept

end Setup

/-! ## The tape -/

/-- What is remembered of a connection: its last event, receive sequence and monotonic time. -/
abbrev Connections := Dict Market.Uuid (String × ℕ × ℤ)

/-- The order of receipt a tape must keep. -/
def records : ℤ → Connections → List MarketEvent → Bool
  | _, _, [] => true
  | lastReceived, previous, event :: rest =>
    lastReceived ≤ event.receivedAtNs &&
    (match previous.get? event.connectionId with
      | none => true
      | some (eventId, sequence, monotonicNs) =>
        sequence ≤ event.receiveSequence && monotonicNs ≤ event.receivedMonotonicNs &&
          (event.receiveSequence ≠ sequence || event.eventId = eventId)) &&
    records event.receivedAtNs (previous.set event.connectionId
      (event.eventId, event.receiveSequence, event.receivedMonotonicNs)) rest

/-- A tape that the replay does not refuse. -/
def Validated (tape : List MarketEvent) : Prop := records 0 .empty tape

instance (tape : List MarketEvent) : Decidable (Validated tape) :=
  inferInstanceAs (Decidable (records 0 .empty tape = true))

/-! ## State -/

inductive Status where
  | pendingSend | inFlight | resting | partiallyFilled | filled | canceled | rejected | withdrawn
  deriving DecidableEq, Repr

def Status.terminal : Status → Bool
  | .filled | .canceled | .rejected | .withdrawn => true
  | .pendingSend | .inFlight | .resting | .partiallyFilled => false

inductive Liquidity where
  | maker | taker
  deriving DecidableEq, Repr

/-- An order; it is known by its place in the list of orders. -/
structure Order where
  orderId : ℕ
  symbol : String
  side : Side
  quantity : ℚ
  limitPrice : Option ℚ
  decision : ScalpSignal
  decisionAtNs : ℤ
  arrivalDueNs : ℤ
  status : Status := .pendingSend
  filledQuantity : ℚ := 0
  sentAtNs : Option ℤ := none
  arrivedAtNs : Option ℤ := none
  acknowledgedAtNs : Option ℤ := none
  terminalAtNs : Option ℤ := none
  terminalReported : Bool := false
  cancelRequestedAtNs : Option ℤ := none
  cancelArrivedAtNs : Option ℤ := none
  cancelAcknowledgedAtNs : Option ℤ := none
  cancelReason : Option String := none
  rejection : Option String := none
  queueAheadInitial : Option ℚ := none
  queueAheadRemaining : ℚ := 0
  queueValid : Bool := false
  queueRebases : ℕ := 0
  arrivalMid : Option ℚ := none
  fills : List ℕ := []

def Order.remaining (order : Order) : ℚ := order.quantity - order.filledQuantity

structure Markout where
  targetAtNs : ℤ
  exchangeAtNs : ℤ
  ageNs : ℤ
  midpoint : ℚ
  grossBps : ℚ

structure Fill where
  orderId : ℕ
  symbol : String
  side : Side
  quantity : ℚ
  price : ℚ
  fee : ℚ
  feeBps : ℚ
  liquidity : Liquidity
  filledAtNs : ℤ
  midpointAtArrival : Option ℚ
  triggerExchangeAtNs : Option ℤ
  triggerReceivedAtNs : Option ℤ
  baseFeeQuantity : ℚ
  reportedAtNs : Option ℤ := none
  exposureClosedAtNs : Option ℤ := none
  maeBps : Option ℚ := none
  mfeBps : Option ℚ := none
  markouts : Dict ℤ Markout := .empty

structure Position where
  symbol : String
  openedAtNs : ℤ
  quantity : ℚ := 0
  cost : ℚ := 0
  entryFeeRemaining : ℚ := 0
  enteredQuantity : ℚ := 0
  exitedQuantity : ℚ := 0
  grossRealized : ℚ := 0
  realizedFees : ℚ := 0
  maeBps : Option ℚ := none
  mfeBps : Option ℚ := none

structure ClosedPosition where
  symbol : String
  openedAtNs : ℤ
  closedAtNs : ℤ
  enteredQuantity : ℚ
  exitedQuantity : ℚ
  grossPnlUsd : ℚ
  feesUsd : ℚ
  maeBps : Option ℚ
  mfeBps : Option ℚ

inductive Kind where
  | decision
  | send (order : ℕ)
  | arrival (order : ℕ)
  | ack (order : ℕ)
  | fillReport (fill : ℕ)
  | markout (fill : ℕ) (horizon : ℤ)
  | expiry (order : ℕ)
  | cancelArrival (order : ℕ)
  | cancelAck (order : ℕ)
  deriving DecidableEq, Repr

structure Timer where
  atNs : ℤ
  sequence : ℕ
  kind : Kind
  deriving DecidableEq, Repr

/-- Earlier, or at the same time and scheduled before. -/
def Timer.before (a b : Timer) : Prop := a.atNs < b.atNs ∨ a.atNs = b.atNs ∧ a.sequence < b.sequence

instance : DecidableRel Timer.before := fun a b =>
  inferInstanceAs (Decidable (a.atNs < b.atNs ∨ a.atNs = b.atNs ∧ a.sequence < b.sequence))

structure DepthKey where
  symbol : String
  side : BookSide
  price : ℚ
  deriving DecidableEq

structure Replay where
  market : Engine
  orders : List Order := []
  fills : List Fill := []
  positions : Dict String Position := .empty
  reportedPositions : Dict String ScalpInventory := .empty
  closedPositions : List ClosedPosition := []
  -- Earliest first.
  timers : List Timer := []
  timerSequence : ℕ := 0
  nowNs : ℤ := 0
  startNs : Option ℤ := none
  cash : ℚ := 0
  grossRealized : ℚ := 0
  realizedFees : ℚ := 0
  feesPaid : ℚ := 0
  consumedDepth : Dict DepthKey ℚ := .empty

/-- What the feature formulas give at an instant. -/
inductive Measured where
  | unavailable | nonfinite
  | features (ready positiveMomentum positiveReversion falling : Bool)

/-- What the floating-point and economic parts of the program answer. -/
structure Environment where
  arith : Market.Arithmetic
  measure : Engine → String → (nowNs : ℤ) → Measured
  decide : Replay → BookFeatures → Option ScalpInventory → Instant → Except Fault ScalpSignal
  revalidate : Replay → EconomicDecision → ScalpQuote → EconomicAction

abbrev Action := Procedure Replay Fault

section actions

open Procedure (view modify raise lift forEach whileEach)

variable (setup : Setup) (env : Environment)

def divide (a b : ℚ) : Except Fault ℚ := if b = 0 then .error .zeroDivision else .ok (a / b)

def schedule (atNs : ℤ) (kind : Kind) : Action Unit := do
  let nowNs ← view Replay.nowNs
  if atNs < nowNs then raise .past
  else modify fun r => { r with
    timers := r.timers.orderedInsert Timer.before ⟨atNs, r.timerSequence + 1, kind⟩
    timerSequence := r.timerSequence + 1 }

def orderAt (id : ℕ) : Action Order := do
  match ← view fun r => r.orders[id]? with
  | some order => return order
  | none => raise .missing

def modifyOrder (id : ℕ) (change : Order → Order) : Action Unit :=
  modify fun r => { r with orders := r.orders.modify id change }

def Replay.currentQuote (r : Replay) (symbol : String) : Option ScalpQuote :=
  r.market.quoteAtNs setup.settings symbol r.nowNs

def midpoint (quote : ScalpQuote) : ℚ := (quote.bid + quote.ask) / 2

/-! ### Accounting -/

def reject (id : ℕ) (reason : String) : Action Unit := do
  let nowNs ← view Replay.nowNs
  modifyOrder id fun order =>
    { order with status := .rejected, rejection := some reason, terminalAtNs := some nowNs }

def bought (position : Position) (fill : Fill) : Position :=
  let netQuantity := fill.quantity - fill.baseFeeQuantity
  { position with
    quantity := position.quantity + netQuantity
    cost := position.cost + fill.price * netQuantity
    enteredQuantity := position.enteredQuantity + fill.quantity
    entryFeeRemaining := position.entryFeeRemaining + fill.fee }

/-- What a sale realizes on its fraction of the position's cost, and the fees that go with it. -/
def saleGross (position : Position) (fill : Fill) (fraction : ℚ) : ℚ :=
  fill.price * fill.quantity - position.cost * fraction

def saleFees (position : Position) (fill : Fill) (fraction : ℚ) : ℚ :=
  position.entryFeeRemaining * fraction + fill.fee

def sold (position : Position) (fill : Fill) (fraction : ℚ) : Position :=
  { position with
    quantity := position.quantity - fill.quantity
    cost := position.cost - position.cost * fraction
    entryFeeRemaining := position.entryFeeRemaining - position.entryFeeRemaining * fraction
    exitedQuantity := position.exitedQuantity + fill.quantity
    grossRealized := position.grossRealized + saleGross position fill fraction
    realizedFees := position.realizedFees + saleFees position fill fraction }

def closed (position : Position) (fill : Fill) : ClosedPosition :=
  ⟨fill.symbol, position.openedAtNs, fill.filledAtNs, position.enteredQuantity,
    position.exitedQuantity, position.grossRealized, position.realizedFees, position.maeBps,
    position.mfeBps⟩

/-- The buys that a position's end no longer exposes. -/
def closeExposure (sale : Fill) (entry : Fill) : Fill :=
  if entry.symbol = sale.symbol ∧ entry.side = .buy ∧ entry.exposureClosedAtNs = none then
    { entry with exposureClosedAtNs := some sale.filledAtNs }
  else entry

def bookBuy (fill : Fill) (r : Replay) : Replay :=
  let position := (r.positions.get? fill.symbol).getD { symbol := fill.symbol, openedAtNs := fill.filledAtNs }
  { r with
    positions := r.positions.set fill.symbol (bought position fill)
    cash := r.cash - (fill.price * fill.quantity + if fill.baseFeeQuantity ≠ 0 then 0 else fill.fee) }

def bookSale (fill : Fill) (position : Position) (fraction : ℚ) (r : Replay) : Replay :=
  let after := sold position fill fraction
  let r := { r with
    positions := r.positions.set fill.symbol after
    grossRealized := r.grossRealized + saleGross position fill fraction
    realizedFees := r.realizedFees + saleFees position fill fraction
    cash := r.cash + (fill.price * fill.quantity - fill.fee) }
  if after.quantity = 0 then
    { r with
      fills := r.fills.map (closeExposure fill)
      closedPositions := r.closedPositions ++ [closed after fill]
      positions := r.positions.erase fill.symbol }
  else r

def bookFill (fill : Fill) : Action Unit :=
  match fill.side with
  | .buy => modify (bookBuy fill)
  | .sell => do
    match ← view fun r => r.positions.get? fill.symbol with
    | none => raise .short
    | some position =>
      if position.quantity < fill.quantity then raise .short
      else
        let fraction ← lift (divide fill.quantity position.quantity)
        modify (bookSale fill position fraction)

def markoutHorizons : List ℤ :=
  [nsPerSecond / 10, nsPerSecond / 4, nsPerSecond / 2, nsPerSecond, 2 * nsPerSecond, 5 * nsPerSecond,
    10 * nsPerSecond]

def feeBps (liquidity : Liquidity) : ℚ :=
  match liquidity with
  | .maker => setup.config.makerFeeBps
  | .taker => setup.config.takerFeeBps

/-- Under the action-value policy a buy pays its fee in the coin bought. -/
def baseFee (side : Side) (fee price : ℚ) : Except Fault ℚ :=
  if setup.config.decisionPolicy = .actionValue ∧ side = .buy then divide fee price else .ok 0

def Order.filledBy (order : Order) (index : ℕ) (quantity : ℚ) (nowNs : ℤ) : Order :=
  let filledQuantity := order.filledQuantity + quantity
  if order.quantity - filledQuantity = 0 then
    { order with
      fills := order.fills ++ [index], filledQuantity, status := .filled, terminalAtNs := some nowNs }
  else { order with fills := order.fills ++ [index], filledQuantity, status := .partiallyFilled }

def recordFill (fill : Fill) (r : Replay) : Replay :=
  { r with
    fills := r.fills ++ [fill]
    orders := r.orders.modify fill.orderId fun order =>
      order.filledBy r.fills.length fill.quantity fill.filledAtNs
    feesPaid := r.feesPaid + fill.fee }

def scheduleReports (index : ℕ) (nowNs : ℤ) : Action Unit := do
  schedule (nowNs + setup.ackDelay) (.fillReport index)
  forEach (fun horizon => schedule (nowNs + horizon) (.markout index horizon)) markoutHorizons

def fill (id : ℕ) (quantity price : ℚ) (liquidity : Liquidity) (trigger : Option MarketEvent) :
    Action Unit := do
  let order ← orderAt id
  if quantity ≤ 0 ∨ order.remaining < quantity then raise .fillQuantity
  else
    let nowNs ← view Replay.nowNs
    let index ← view fun r => r.fills.length
    let fee := quantity * price * feeBps setup liquidity / 10000
    let baseFeeQuantity ← lift (baseFee setup order.side fee price)
    let fill : Fill :=
      { orderId := id, symbol := order.symbol, side := order.side, quantity, price, fee
        feeBps := feeBps setup liquidity, liquidity, filledAtNs := nowNs
        midpointAtArrival := order.arrivalMid
        triggerExchangeAtNs := trigger.map MarketEvent.exchangeAtNs
        triggerReceivedAtNs := trigger.map MarketEvent.receivedAtNs, baseFeeQuantity }
    modify (recordFill fill)
    bookFill fill
    scheduleReports setup index nowNs

/-! ### Reports -/

/-- An order is over for the strategy once its end, its cancellation and all its fills are known. -/
def released (fills : List Fill) (order : Order) : Bool :=
  order.status.terminal && order.acknowledgedAtNs.isSome &&
    (order.cancelRequestedAtNs.isNone || order.cancelAcknowledgedAtNs.isSome) &&
    order.fills.all fun index => fills[index]?.any fun fill => fill.reportedAtNs.isSome

def release (id : ℕ) : Action Unit :=
  modify fun r => { r with
    orders := r.orders.modify id fun order =>
      if released r.fills order then { order with terminalReported := true } else order }

def exitDue (owned : Option ScalpInventory) (decision : ScalpSignal) : Option Instant :=
  match owned.bind ScalpInventory.exitDueAt with
  | some due => some due
  | none => (decision.economics.bind EconomicDecision.predictionExpiresAt).map fun expires =>
    expires + Rounding.toIntegral .halfEven (setup.config.latencyGraceSeconds * 1000000)

/-- The inventory reported after a buy. -/
def boughtInventory (owned : Option ScalpInventory) (fill : Fill) (decision : ScalpSignal) :
    Except Fault ScalpInventory := do
  let netQuantity := fill.quantity - fill.baseFeeQuantity
  let quantity := (owned.map ScalpInventory.quantity).getD 0 + netQuantity
  let cost := (owned.map fun owned => owned.quantity * owned.openingVwap).getD 0
  let openingVwap ← divide (cost + fill.price * netQuantity) quantity
  if valid : 0 ≤ quantity ∧ 0 < openingVwap then
    return { symbol := fill.symbol, quantity
             openedAt := (owned.map ScalpInventory.openedAt).getD (fill.filledAtNs / 1000)
             openingVwap
             family := (owned.map ScalpInventory.family).getD decision.family
             exitDueAt := exitDue setup owned decision
             quantityNonneg := valid.1, vwapPositive := valid.2 }
  else throw .validation

def reportBuy (fill : Fill) : Action Unit := do
  let order ← orderAt fill.orderId
  let owned ← view fun r => r.reportedPositions.get? fill.symbol
  let inventory ← lift (boughtInventory setup owned fill order.decision)
  modify fun r => { r with reportedPositions := r.reportedPositions.set fill.symbol inventory }

/-- The inventory reported after a sale; none once it is all sold. -/
def soldInventory (owned : Option ScalpInventory) (fill : Fill) :
    Except Fault (Option ScalpInventory) :=
  match owned with
  | none => .error .feedback
  | some owned =>
    if enough : fill.quantity ≤ owned.quantity then
      if owned.quantity - fill.quantity = 0 then .ok none
      else .ok (some { owned with
        quantity := owned.quantity - fill.quantity
        quantityNonneg := sub_nonneg.mpr enough })
    else .error .feedback

def reportSale (fill : Fill) : Action Unit := do
  let owned ← view fun r => r.reportedPositions.get? fill.symbol
  match ← lift (soldInventory owned fill) with
  | none => modify fun r => { r with reportedPositions := r.reportedPositions.erase fill.symbol }
  | some inventory =>
    modify fun r => { r with reportedPositions := r.reportedPositions.set fill.symbol inventory }

def fillAt (index : ℕ) : Action Fill := do
  match ← view fun r => r.fills[index]? with
  | some fill => return fill
  | none => raise .missing

def reportInventory (fill : Fill) : Action Unit :=
  match fill.side with
  | .buy => reportBuy setup fill
  | .sell => reportSale fill

def reportFill (index : ℕ) : Action Unit := do
  let fill ← fillAt index
  modify fun r => { r with
    fills := r.fills.modify index fun fill => { fill with reportedAtNs := some r.nowNs } }
  reportInventory setup fill
  release fill.orderId

def cancel (id : ℕ) (reason : String) : Action Unit := do
  let order ← orderAt id
  if order.status.terminal ∨ order.cancelRequestedAtNs.isSome then return ()
  else
    let nowNs ← view Replay.nowNs
    modifyOrder id fun order =>
      { order with cancelRequestedAtNs := some nowNs, cancelReason := some reason }
    if order.sentAtNs = none then
      modifyOrder id fun order => { order with
        status := .withdrawn, terminalAtNs := some nowNs, terminalReported := true }
    else schedule (max (nowNs + setup.cancelDelay) order.arrivalDueNs) (.cancelArrival id)

/-! ### Queues and depth -/

/-- What is displayed at the order's price, times the multiplier. -/
def visibleQueue (order : Order) (r : Replay) : ℚ :=
  let level := (r.market.levels order.symbol .bid 2000).find? fun level => order.limitPrice = some level.1
  let visible := (level.map Prod.snd).getD 0
  let visible := match r.currentQuote setup order.symbol with
    | some quote => if order.limitPrice = some quote.bid then max visible quote.bidSize else visible
    | none => visible
  visible * setup.assumptions.queueAheadMultiplier

def Order.rebased (order : Order) (visible : ℚ) : Order :=
  match order.queueAheadInitial with
  | none => { order with
    queueAheadInitial := some visible, queueAheadRemaining := visible, queueValid := true }
  | some _ => { order with
    queueAheadRemaining := max order.queueAheadRemaining visible
    queueRebases := order.queueRebases + 1
    queueValid := true }

def rebaseQueue (id : ℕ) : Action Unit := do
  let order ← orderAt id
  let visible ← view (visibleQueue setup order)
  modifyOrder id fun order => order.rebased visible

def direction (side : Side) : ℚ :=
  match side with
  | .buy => 1
  | .sell => -1

/-- The side of the book an order takes from. -/
def against (side : Side) : BookSide :=
  match side with
  | .buy => .ask
  | .sell => .bid

def slipped (side : Side) (price : ℚ) : ℚ :=
  price * (1 + direction side * setup.assumptions.slippageBps / 10000)

/-- The level is better than the quote says the market is. -/
def beyondQuote (quote : ScalpQuote) (side : BookSide) (price : ℚ) : Bool :=
  match side with
  | .ask => price < quote.ask
  | .bid => quote.bid < price

def displayedSize (quote : ScalpQuote) (side : BookSide) (level : ℚ × ℚ) : ℚ :=
  match side with
  | .ask => if level.1 = quote.ask then min level.2 quote.askSize else level.2
  | .bid => if level.1 = quote.bid then min level.2 quote.bidSize else level.2

/-- Whether the price is past the order's limit. -/
def Order.forbids (order : Order) (price : ℚ) : Bool := order.limitPrice.any (· < price)

/-- Takes what is left of one level, and whether to go on to the next. -/
def takeLevel (id : ℕ) (quote : ScalpQuote) (level : ℚ × ℚ) : Action Bool := do
  let order ← orderAt id
  let side := against order.side
  if beyondQuote quote side level.1 then return true
  else
    let key : DepthKey := ⟨order.symbol, side, level.1⟩
    let consumed ← view fun r => r.consumedDepth.getD key 0
    let available := max 0 (displayedSize quote side level * setup.assumptions.participationRate - consumed)
    let price := slipped setup order.side level.1
    if order.forbids price then return false
    else
      let quantity := min order.remaining available
      if 0 < quantity then
        modify fun r => { r with consumedDepth := r.consumedDepth.set key (consumed + quantity) }
        fill setup id quantity price .taker none
        let order ← orderAt id
        return order.remaining ≠ 0
      else return order.remaining ≠ 0

/-- What becomes of an order that depth did not fill. -/
def restRemainder (id : ℕ) : Action Unit := do
  let order ← orderAt id
  if order.remaining = 0 then return ()
  else if order.limitPrice.isSome then
    modifyOrder id fun order =>
      { order with status := if order.filledQuantity ≠ 0 then .partiallyFilled else .resting }
    rebaseQueue setup id
  else
    -- No synthetic liquidity past observed depth: market orders are modeled as IOC.
    let nowNs ← view Replay.nowNs
    modifyOrder id fun order => { order with
      status := .canceled
      terminalAtNs := some nowNs
      cancelReason := some "modeled_ioc_unfilled_remainder" }

def takeLiquidity (id : ℕ) : Action Unit := do
  let order ← orderAt id
  match ← view fun r => r.currentQuote setup order.symbol with
  | none => reject id "market_data_unavailable_at_arrival"
  | some quote =>
    let levels ← view fun r =>
      r.market.levels order.symbol (against order.side) 2000
    whileEach (takeLevel setup id quote) levels
    restRemainder setup id

/-- A sale goes no further than the position. -/
def oversells (order : Order) (r : Replay) : Bool :=
  order.side = .sell && !(r.positions.get? order.symbol).any fun position =>
    order.quantity ≤ position.quantity

def arrive (id : ℕ) : Action Unit := do
  let nowNs ← view Replay.nowNs
  modifyOrder id fun order => { order with arrivedAtNs := some nowNs }
  schedule (nowNs + setup.ackDelay) (.ack id)
  let order ← orderAt id
  match ← view fun r => r.currentQuote setup order.symbol with
  | none => reject id "market_data_unavailable_at_arrival"
  | some quote =>
    modifyOrder id fun order => { order with arrivalMid := some (midpoint quote) }
    if ← view (oversells order) then reject id "sell_exceeds_observed_owned_inventory"
    else if order.limitPrice.any (· < quote.ask) then
      modifyOrder id fun order => { order with status := .resting }
      rebaseQueue setup id
    else takeLiquidity setup id

/-- Consumption never outlives the level it was taken from, nor exceeds what it shows. -/
def syncDepth (symbol : String) : Action Unit :=
  modify fun r =>
    let shown (key : DepthKey) : Option ℚ :=
      ((r.market.levels symbol key.side 2000).find? fun level => level.1 = key.price).map fun level =>
        level.2 * setup.assumptions.participationRate
    { r with consumedDepth := r.consumedDepth.entries.foldl (fun consumed entry =>
        if entry.1.symbol ≠ symbol then consumed
        else match shown entry.1 with
          | none => consumed.erase entry.1
          | some current => consumed.set entry.1 (min entry.2 current)) r.consumedDepth }

/-- The order stands in the queue that a sale at the price reaches. -/
def Order.eligible (order : Order) (event : MarketEvent) (price : ℚ) : Bool :=
  order.symbol = event.symbol && order.side = .buy &&
    (order.status = .resting || order.status = .partiallyFilled) && order.queueValid &&
    order.limitPrice.any (price ≤ ·) && order.arrivedAtNs.any (· ≤ event.exchangeAtNs)

/-- What a trade's volume does to one order, and what is left of the volume. -/
def passiveOrder (event : MarketEvent) (price volume : ℚ) (id : ℕ) : Action ℚ := do
  let order ← orderAt id
  if !order.eligible event price then return volume
  else
    let ahead := min volume order.queueAheadRemaining
    modifyOrder id fun order => { order with queueAheadRemaining := order.queueAheadRemaining - ahead }
    let volume := volume - ahead
    let quantity := min order.remaining (volume * setup.assumptions.participationRate)
    if 0 < quantity then
      fill setup id quantity (order.limitPrice.getD 0) .maker (some event)
      return volume - quantity
    else return volume

def passiveOrders (event : MarketEvent) (price : ℚ) : List ℕ → ℚ → Action Unit
  | [], _ => return ()
  | id :: rest, volume => do
    let volume ← passiveOrder setup event price volume id
    if volume = 0 then return () else passiveOrders event price rest volume

def passiveTrade (event : MarketEvent) (price quantity : ℚ) (takerSide : Option Market.TakerSide) :
    Action Unit := do
  let quote ← view fun r => r.currentQuote setup event.symbol
  if takerSide ≠ some .sell ∨ quote.isNone then return ()
  else
    let orders ← view fun r => r.orders.length
    passiveOrders setup event price (List.range orders) quantity

/-! ### Marks -/

def signed (side : Side) (bps : ℚ) : ℚ := bps * direction side

def sampleMarkout (index : ℕ) (horizon : ℤ) : Action Unit := do
  let fill ← fillAt index
  match ← view fun r => (r.currentQuote setup fill.symbol).map fun quote => (quote, r.nowNs) with
  | none => return ()
  | some (quote, nowNs) =>
    let age := nowNs - quote.exchangeTimeNs
    if age < 0 ∨ min horizon (nsPerSecond / 4) < age then return ()
    else
      let mid := midpoint quote
      let ratio ← lift (divide mid fill.price)
      let markout : Markout :=
        ⟨nowNs, quote.exchangeTimeNs, age, mid, signed fill.side ((ratio - 1) * 10000)⟩
      modify fun r => { r with
        fills := r.fills.modify index fun fill =>
          { fill with markouts := fill.markouts.set horizon markout } }

/-- The worst and the best so far; nothing yet counts as zero. -/
def excursion (mae mfe : Option ℚ) (bps : ℚ) : Option ℚ × Option ℚ :=
  (some (min (mae.getD 0) bps), some (max (mfe.getD 0) bps))

def observeFill (symbol : String) (quote : ScalpQuote) (index : ℕ) : Action Unit := do
  let fill ← fillAt index
  if fill.symbol ≠ symbol ∨ quote.exchangeTimeNs < fill.filledAtNs ∨ fill.side ≠ .buy ∨
      fill.exposureClosedAtNs.isSome then return ()
  else
    let ratio ← lift (divide (midpoint quote) fill.price)
    let marks := excursion fill.maeBps fill.mfeBps ((ratio - 1) * 10000)
    modify fun r => { r with
      fills := r.fills.modify index fun fill => { fill with maeBps := marks.1, mfeBps := marks.2 } }

def observePosition (symbol : String) (quote : ScalpQuote) : Action Unit := do
  match ← view fun r => r.positions.get? symbol with
  | none => return ()
  | some position =>
    if quote.exchangeTimeNs < position.openedAtNs then return ()
    else
      let vwap ← lift (divide position.cost position.quantity)
      let ratio ← lift (divide quote.bid vwap)
      let marks := excursion position.maeBps position.mfeBps ((ratio - 1) * 10000)
      modify fun r => { r with
        positions := r.positions.set symbol { position with maeBps := marks.1, mfeBps := marks.2 } }

def observeMarkouts (symbol : String) : Action Unit := do
  match ← view fun r => r.currentQuote setup symbol with
  | none => return ()
  | some quote =>
    let fills ← view fun r => r.fills.length
    forEach (observeFill symbol quote) (List.range fills)
    observePosition symbol quote

/-! ### Events -/

def invalidateQueues (symbol : String) : Action Unit :=
  modify fun r => { r with
    orders := r.orders.map fun order =>
      if order.symbol = symbol then { order with queueValid := false } else order }

/-- Queues are lost with the market they stand in. -/
def checkQueues (event : MarketEvent) : Action Unit := do
  let market ← view Replay.market
  match event.content, market.states.get? event.symbol with
  | .reset _, _ => invalidateQueues event.symbol
  | _, none => raise .unconfigured
  | _, some _ => if market.quote event.symbol = none then invalidateQueues event.symbol else return ()

def rebaseAfter (event : MarketEvent) (reset : Bool) (id : ℕ) : Action Unit := do
  let order ← orderAt id
  let quote ← view fun r => r.currentQuote setup event.symbol
  if order.symbol = event.symbol ∧ order.limitPrice.isSome ∧
      (order.status = .resting ∨ order.status = .partiallyFilled) ∧
      (reset ∨ !order.queueValid) ∧ quote.isSome then rebaseQueue setup id
  else return ()

def applyContent (event : MarketEvent) : Action Unit :=
  match event.content with
  | .book _ _ reset => do
    syncDepth setup event.symbol
    let orders ← view fun r => r.orders.length
    forEach (rebaseAfter setup event reset) (List.range orders)
  | .trade price quantity _ takerSide .. => passiveTrade setup event price quantity takerSide
  | .quote .. | .reset _ => return ()

def marketEvent (event : MarketEvent) : Action Unit := do
  let (market, accepted) ← view fun r => r.market.onEvent setup.settings env.arith event
  modify fun r => { r with market }
  checkQueues event
  if !accepted then return ()
  else
    applyContent setup event
    observeMarkouts setup event.symbol

/-! ### Decisions -/

/-- The symbol's order that is not yet reported as finished. -/
def Replay.active (r : Replay) (symbol : String) : Option Order :=
  r.orders.reverse.find? fun order => order.symbol = symbol && !order.terminalReported

/-- Features that are not finite cost the symbol its book. -/
def unreadable (market : Engine) (symbol : String) : Engine :=
  { market with
    states := market.states.modify symbol fun state => state.invalidate "nonfinite_feature" true }

def features (symbol : String) : Action (Option BookFeatures) := do
  let r ← view id
  let nowNs := r.nowNs / 1000 * 1000
  match r.market.quoteAtNs setup.settings symbol nowNs with
  | none => return none
  | some quote =>
    if (r.market.states.get? symbol).any fun state => nowNs < state.lastReceivedNs then return none
    else match env.measure r.market symbol nowNs with
      | .unavailable => return none
      | .nonfinite => do
        modify fun r => { r with market := unreadable r.market symbol }
        return none
      | .features ready positiveMomentum positiveReversion falling =>
        return some ⟨symbol, nowNs, quote, ready, positiveMomentum, positiveReversion, falling⟩

/-- The price a buy is limited to. -/
def entryPrice (signal : ScalpSignal) : ℚ :=
  let aggressive : Bool := match setup.config.decisionPolicy with
    | .actionValue => signal.economics.any fun d => d.selectedAction = .aggressiveBuy
    | .legacy => setup.config.entryStyle = .marketable
  if aggressive then signal.quote.ask else signal.quote.bid

/-- Side, quantity and limit of the order a signal asks for. -/
def sizing (signal : ScalpSignal) (owned : Option ScalpInventory) :
    Except Fault (Side × ℚ × Option ℚ) :=
  if signal.action = .buy then do
    let quantity ← divide setup.config.orderNotionalUsd (entryPrice setup signal)
    return (.buy, quantity, some (entryPrice setup signal))
  else match owned with
    | none => .error .unsupportedShort
    | some owned =>
      if owned.quantity ≤ 0 then .error .unsupportedShort else .ok (.sell, owned.quantity, none)

def expiryAt (signal : ScalpSignal) (nowNs : ℤ) : ℤ :=
  let expiry := nowNs + setup.entryTtl
  match setup.config.decisionPolicy with
  | .legacy => expiry
  | .actionValue =>
    min expiry (((signal.economics.bind EconomicDecision.validUntil).map (· * 1000)).getD nowNs)

def place (symbol : String) (signal : ScalpSignal) : Action Unit := do
  let owned ← view fun r => r.reportedPositions.get? symbol
  let (side, quantity, limitPrice) ← lift (sizing setup signal owned)
  let nowNs ← view Replay.nowNs
  let id ← view fun r => r.orders.length
  let order : Order :=
    { orderId := id, symbol, side, quantity, limitPrice, decision := signal, decisionAtNs := nowNs
      arrivalDueNs := nowNs + setup.sendDelay + setup.arrivalDelay }
  modify fun r => { r with orders := r.orders ++ [order] }
  schedule (nowNs + setup.sendDelay) (.send id)
  if signal.action = .buy then schedule (expiryAt setup signal nowNs) (.expiry id) else return ()

/-- The signal no longer supports an entry. -/
def ScalpSignal.withdraws (signal : ScalpSignal) : Bool :=
  signal.action = .sell || signal.action = .hold && "positive_alpha_maintained" ∉ signal.reasons

def cancelBuy (active : Option Order) (reason : String) : Action Unit :=
  match active with
  | some order => if order.side = .buy then cancel setup order.orderId reason else return ()
  | none => return ()

def decideSymbol (symbol : String) : Action Unit := do
  let active ← view fun r => r.active symbol
  match ← features setup env symbol with
  | none => cancelBuy setup active "market_data_unavailable"
  | some features =>
    let r ← view id
    let signal ← lift (env.decide r features (r.reportedPositions.get? symbol) (r.nowNs / 1000))
    if active.isSome then
      if signal.withdraws then cancelBuy setup active "entry_signal_invalidated" else return ()
    else if signal.action = .hold then return ()
    else place setup symbol signal

/-! ### Timers -/

/-- The last economic check before an order goes out. -/
def economicSend (order : Order) (r : Replay) : Bool :=
  match order.decision.economics, r.currentQuote setup order.symbol with
  | some economics, some quote =>
    match env.revalidate r economics quote with
    | .passiveBuy => order.limitPrice = some quote.bid
    | .aggressiveBuy => order.limitPrice.any (quote.ask ≤ ·)
    | .noTrade | .passiveSell | .aggressiveSell => false
  | _, _ => false

def send (id : ℕ) : Action Unit := do
  let order ← orderAt id
  let nowNs ← view Replay.nowNs
  if order.status ≠ .pendingSend then return ()
  else
    let fenced ← view fun r => setup.config.decisionPolicy = .actionValue && !economicSend setup env order r
    if fenced then
      modifyOrder id fun order => { order with
        status := .withdrawn, terminalAtNs := some nowNs, terminalReported := true
        rejection := some "final_economic_fence" }
    else
      modifyOrder id fun order => { order with sentAtNs := some nowNs, status := .inFlight }
      schedule order.arrivalDueNs (.arrival id)

def cancelArrival (id : ℕ) : Action Unit := do
  let nowNs ← view Replay.nowNs
  modifyOrder id fun order =>
    let order := { order with cancelArrivedAtNs := some nowNs }
    if order.status.terminal then order
    else { order with status := .canceled, terminalAtNs := some nowNs }
  schedule (nowNs + setup.ackDelay) (.cancelAck id)

def decision : Action Unit := do
  forEach (decideSymbol setup env) setup.config.symbols
  let nowNs ← view Replay.nowNs
  schedule (nowNs + setup.decisionInterval) .decision

def timer : Kind → Action Unit
  | .decision => decision setup env
  | .fillReport index => reportFill setup index
  | .markout index horizon => sampleMarkout setup index horizon
  | .send id => send setup env id
  | .arrival id => do
    let order ← orderAt id
    if order.status ≠ .inFlight then return () else arrive setup id
  | .ack id => do
    modify fun r => { r with
      orders := r.orders.modify id fun order => { order with acknowledgedAtNs := some r.nowNs } }
    release id
  | .expiry id => cancel setup id "entry_ttl"
  | .cancelArrival id => cancelArrival setup id
  | .cancelAck id => do
    modify fun r => { r with
      orders := r.orders.modify id fun order => { order with cancelAcknowledgedAtNs := some r.nowNs } }
    release id

/-- The first timer, taken out of the queue. -/
def popped (due : Timer) (rest : List Timer) : Action Unit := do
  modify fun r => { r with timers := rest, nowNs := due.atNs }
  timer setup env due.kind

/-- The first record starts the clock and the decisions, on a whole microsecond. -/
def start (receivedNs : ℤ) : Action Unit := do
  let startNs ← view Replay.startNs
  if startNs.isSome then return ()
  else
    modify fun r => { r with startNs := some receivedNs, nowNs := receivedNs }
    schedule ((receivedNs + 999) / 1000 * 1000) .decision

/-- What the report divides: the cost of each open position by its quantity. -/
def report : Action (List (String × ℚ)) := do
  let positions ← view Replay.positions
  lift (positions.entries.mapM fun (symbol, position) => do
    return (symbol, ← divide position.cost position.quantity))

end actions

/-! ## Runs -/

/-- Where a run stands: between batches of records, before, in or after one, or at its end. -/
inductive Phase where
  | next
  | before (receivedNs : ℤ)
  | records (receivedNs : ℤ)
  | after (receivedNs : ℤ)
  | reported (openingVwaps : List (String × ℚ))
  | raised (fault : Fault)

structure Run where
  replay : Replay
  tape : List MarketEvent
  phase : Phase

namespace Run

variable (setup : Setup) (env : Environment)

def perform {α : Type} (run : Run) (action : Action α) (tape : List MarketEvent) (phase : α → Phase) :
    Run :=
  match action run.replay with
  | (.ok value, replay) => ⟨replay, tape, phase value⟩
  | (.error fault, replay) => ⟨replay, tape, .raised fault⟩

/-- One timer that is due, or the clock moves on to the records. -/
def drain (run : Run) (due : Timer → Bool) (untilNs : ℤ) (onward : Phase) : Run :=
  match run.replay.timers with
  | [] => { run with replay := { run.replay with nowNs := untilNs }, phase := onward }
  | first :: rest =>
    if due first then run.perform (popped setup env first rest) run.tape fun _ => run.phase
    else { run with replay := { run.replay with nowNs := untilNs }, phase := onward }

def step (run : Run) : Run :=
  match run.phase with
  | .next =>
    match run.tape with
    | [] => run.perform report [] .reported
    | event :: _ => run.perform (start event.receivedAtNs) run.tape fun _ => .before event.receivedAtNs
  | .before receivedNs =>
    run.drain setup env (fun timer => timer.atNs < receivedNs) receivedNs (.records receivedNs)
  | .records receivedNs =>
    match run.tape with
    | event :: rest =>
      if event.receivedAtNs = receivedNs then
        run.perform (marketEvent setup env event) rest fun _ => .records receivedNs
      else { run with phase := .after receivedNs }
    | [] => { run with phase := .after receivedNs }
  | .after receivedNs => run.drain setup env (fun timer => timer.atNs ≤ receivedNs) receivedNs .next
  | .reported _ | .raised _ => run

/-- The start of a replay. -/
def ofTape (tape : List MarketEvent) : Run :=
  ⟨{ market := Engine.start setup.settings }, tape, .next⟩

/-- The run after a number of steps. -/
def after (tape : List MarketEvent) (steps : ℕ) : Run := (step setup env)^[steps] (ofTape setup tape)

end Run

end TradeAgent.Simulation
