import TradeAgent.BookFeatureEngine
import TradeAgent.ScalpExperiment

/-! The evaluator of shadow actions: for each candidate it follows, on the market events received, what a
passive and an aggressive buy would have come to. What the market last showed is kept by symbol and is
shared by all candidates of the symbol. -/
namespace TradeAgent.Scalp.Shadow

open Market (BookLevel MarketEvent nsPerSecond)
open Market.Engine (BookSide)

structure ScalpQuote extends Experiment.ScalpQuote where
  exchangeTimeNs : ℤ
  timed : 0 < exchangeTimeNs

/-- `datetime_ns`. -/
def datetimeNs (at_ : Instant) : ℤ := at_ * 1000

structure ShadowPolicy where
  arrivalLatencyMs : ℕ := 350
  horizonQuoteMaxAgeMs : ℕ := 250
  arrivalMarketMaxAgeMs : ℕ := 250
  queueAheadMultiplier : ℚ := 1
  participationRate : ℚ := 1
  horizonAgePositive : 0 < horizonQuoteMaxAgeMs
  arrivalAgePositive : 0 < arrivalMarketMaxAgeMs
  multiplierLe : 1 ≤ queueAheadMultiplier
  ratePositive : 0 < participationRate
  rateLe : participationRate ≤ 1

theorem age_positive : 0 < 250 := by decide

theorem whole_le : (1 : ℚ) ≤ 1 := le_rfl

theorem whole_positive : (0 : ℚ) < 1 := one_pos

/-- A candidate. Its signal is of the same symbol and quotes what was received by then. -/
structure ShadowCandidate where
  candidateId : String
  symbol : String
  observedAt : Instant
  quote : ScalpQuote
  sourceEventId : String
  shadowSendAtNs : ℤ
  quantity : ℚ
  passiveLimit : ℚ
  aggressiveLimit : ℚ
  passiveQueueAhead : ℚ
  horizonSeconds : ℚ
  cancellationHorizonSeconds : ℚ
  quoteSymbol : quote.symbol = symbol
  quoteReceived : quote.receivedAt ≤ observedAt
  causal : observedAt ≤ shadowSendAtNs / 1000
  quantityPositive : 0 < quantity
  passivePositive : 0 < passiveLimit
  aggressivePositive : 0 < aggressiveLimit
  queueNonneg : 0 ≤ passiveQueueAhead
  horizonPositive : 0 < horizonSeconds
  cancellationPositive : 0 < cancellationHorizonSeconds

inductive ShadowAction where
  | passiveBuy | aggressiveBuy
  deriving DecidableEq, Repr

structure ActionState where
  action : ShadowAction
  arrivalAtNs : ℤ
  expiresAtNs : ℤ
  quantity : ℚ
  limitPrice : ℚ
  queueAhead : ℚ := 0
  sent : Bool := false
  rejectedReason : Option String := none
  entryQuantity : ℚ := 0
  entryValue : ℚ := 0
  firstFillAtNs : Option ℤ := none
  lastFillAtNs : Option ℤ := none

/-- A candidate that is followed, with both its actions. -/
structure Pending where
  candidate : ShadowCandidate
  passive : ActionState
  aggressive : ActionState
  horizonAtNs : ℤ
  horizonQuote : Option ScalpQuote := none
  horizonBidLevels : List BookLevel := []
  integrityLost : Bool := false
  horizonDepthAtNs : ℤ := 0

/-- An outcome: what it copies from the candidate and the policy, and what the market made of it. -/
structure ShadowActionOutcome where
  candidate : ShadowCandidate
  policy : ShadowPolicy
  action : ShadowAction
  arrivalAtNs : ℤ
  horizonAtNs : ℤ
  quantity : ℚ
  entryQuantity : ℚ
  entryValue : ℚ
  fillDelayNs : Option ℤ
  exitQuantity : ℚ
  exitValue : ℚ
  grossReturnBps : Option ℚ
  directionalReturnBps : Option ℚ
  horizonMid : Option ℚ
  complete : Bool
  missingReasons : List String
  sourceEventFirst : Option String
  sourceEventLast : Option String
  sourceEventCount : ℕ
  sourceEventSha256 : String

/-- The digests, and the comparison of an age in floating point. -/
structure Platform where
  identity : ShadowActionOutcome → String
  sourceDigest : List String → String
  olderThan : (ageNs : ℤ) → (milliseconds : ℕ) → Bool

/-! ## Ladders -/

/-- What a quantity takes from the levels in turn: how much, and its value. -/
def levelsValue : List BookLevel → ℚ → ℚ × ℚ
  | [], _ => (0, 0)
  | level :: rest, remaining =>
    let take := min remaining (max 0 level.quantity)
    if remaining - take ≤ 0 then (take, take * level.price)
    else
      let (filled, value) := levelsValue rest (remaining - take)
      (take + filled, take * level.price + value)

def deeper (side : BookSide) (price : ℚ) (level : BookLevel) : Bool :=
  match side with
  | .bid => level.price < price
  | .ask => price < level.price

/-- Best first. -/
def sorted (side : BookSide) (levels : List BookLevel) : List BookLevel :=
  match side with
  | .bid => levels.insertionSort fun a b => b.price ≤ a.price
  | .ask => levels.insertionSort fun a b => a.price ≤ b.price

def touch (quote : ScalpQuote) (side : BookSide) : BookLevel :=
  match side with
  | .bid => ⟨quote.bid, quote.bidSize, quote.bidPositive, quote.bidSizeNonneg⟩
  | .ask => ⟨quote.ask, quote.askSize, quote.askPositive, quote.askSizeNonneg⟩

/-- The touch of the quote, and of the levels only those behind it. -/
def withBbo (quote : Option ScalpQuote) (levels : List BookLevel) (side : BookSide) : List BookLevel :=
  match quote with
  | none => levels
  | some quote =>
    let best := touch quote side
    best :: sorted side (levels.filter (deeper side best.price))

/-- What the market last showed of a symbol. -/
structure View where
  quote : Option ScalpQuote
  bids : List BookLevel
  asks : List BookLevel
  depthAtNs : ℤ

/-! ## One action -/

section actions

variable (policy : ShadowPolicy)

def fresh (ageNs : ℤ) (milliseconds : ℕ) : Bool := 0 ≤ ageNs && ageNs ≤ milliseconds * 1000000

def ActionState.reject (state : ActionState) (reason : String) : ActionState :=
  { state with rejectedReason := some reason }

/-- A passive buy joins the queue at its price, where that is still the touch. -/
def join (quote : ScalpQuote) (bids : List BookLevel) (state : ActionState) : ActionState :=
  if quote.bid ≠ state.limitPrice then state.reject "passive_touch_changed_before_arrival"
  else
    let shown := ((bids.find? fun level => level.price = state.limitPrice).map BookLevel.quantity).getD
      quote.bidSize
    { state with queueAhead := max state.queueAhead (shown * policy.queueAheadMultiplier) }

/-- An aggressive buy takes what is offered within its limit. -/
def take (quote : ScalpQuote) (asks : List BookLevel) (state : ActionState) : ActionState :=
  if state.limitPrice < quote.ask then state.reject "aggressive_limit_missed_before_arrival"
  else
    let eligible := (withBbo (some quote) asks .ask).filter fun level => level.price ≤ state.limitPrice
    let (quantity, value) := levelsValue eligible (state.quantity * policy.participationRate)
    if quantity ≤ 0 then state.reject "aggressive_observed_depth_unavailable"
    else { state with
      entryQuantity := quantity, entryValue := value
      firstFillAtNs := some state.arrivalAtNs, lastFillAtNs := some state.arrivalAtNs }

/-- `_arrive`: an action meets the market as it is shown, once. -/
def arrive (view : View) (state : ActionState) : ActionState :=
  if state.sent || state.rejectedReason.isSome then state
  else
    let timely := fresh (state.arrivalAtNs - view.depthAtNs) policy.arrivalMarketMaxAgeMs
    let bids := if timely then view.bids else withBbo view.quote [] .bid
    let asks := if timely then view.asks else withBbo view.quote [] .ask
    if state.expiresAtNs < state.arrivalAtNs then state.reject "simulated_arrival_after_action_expiry"
    else
      let state := { state with sent := true }
      match view.quote with
      | none => state.reject "no_fresh_market_at_simulated_arrival"
      | some quote =>
        if state.arrivalAtNs < datetimeNs quote.receivedAt ∨
            !fresh (state.arrivalAtNs - quote.exchangeTimeNs) policy.arrivalMarketMaxAgeMs then
          state.reject "no_fresh_market_at_simulated_arrival"
        else match state.action with
          | .passiveBuy => join policy quote bids state
          | .aggressiveBuy => take policy quote asks state

/-- `_advance_action`: a sale at or below the limit goes to the queue ahead, and then to the buy. -/
def advanceAction (event : MarketEvent) (state : ActionState) : ActionState :=
  match event.content with
  | .trade price quantity _ (some .sell) .. =>
    if state.rejectedReason.isSome ∨ state.sent = false ∨ state.action ≠ .passiveBuy ∨
        state.quantity ≤ state.entryQuantity ∨ event.exchangeAtNs < state.arrivalAtNs ∨
        state.expiresAtNs < event.receivedAtNs ∨ state.limitPrice < price then state
    else
      let available := quantity * policy.participationRate
      let ahead := min available state.queueAhead
      let state := { state with queueAhead := state.queueAhead - ahead }
      let filled := min (state.quantity - state.entryQuantity) (available - ahead)
      if 0 < filled then { state with
        entryQuantity := state.entryQuantity + filled
        entryValue := state.entryValue + filled * state.limitPrice
        firstFillAtNs := some ((state.firstFillAtNs.filter (· ≠ 0)).getD event.receivedAtNs)
        lastFillAtNs := some event.receivedAtNs }
      else state
  | _ => state

end actions

/-! ## Outcomes -/

section outcomes

variable (platform : Platform) (policy : ShadowPolicy)

/-- What is missing before the exit is looked at. -/
def missingBefore (pending : Pending) : List String :=
  (if pending.integrityLost then ["market_integrity_lost_during_outcome"] else []) ++
    match pending.horizonQuote with
    | none => ["no_horizon_quote"]
    | some quote =>
      if platform.olderThan (max 0 (pending.horizonAtNs - quote.exchangeTimeNs)) policy.horizonQuoteMaxAgeMs then
        ["horizon_quote_too_old"]
      else []

def mid (quote : ScalpQuote) : ℚ := (quote.bid + quote.ask) / 2

/-- The middle at the horizon, where the quote is of its time. -/
def horizonMid (pending : Pending) : Option ℚ :=
  pending.horizonQuote.bind fun quote =>
    if platform.olderThan (max 0 (pending.horizonAtNs - quote.exchangeTimeNs)) policy.horizonQuoteMaxAgeMs then none
    else some (mid quote)

/-- What leaving what was entered would bring at the horizon. -/
def exitAt (pending : Pending) (state : ActionState) : ℚ × ℚ :=
  if 0 < state.entryQuantity ∧ missingBefore platform policy pending = [] then
    let levels := if fresh (pending.horizonAtNs - pending.horizonDepthAtNs) policy.horizonQuoteMaxAgeMs then
      pending.horizonBidLevels else withBbo pending.horizonQuote [] .bid
    levelsValue levels (state.entryQuantity * policy.participationRate)
  else (0, 0)

/-- `_finish`, for one action. -/
def finishAction (pending : Pending) (sources : List String) (state : ActionState) : ShadowActionOutcome :=
  let before := missingBefore platform policy pending
  let exit := exitAt platform policy pending state
  let leaving : Bool := 0 < state.entryQuantity ∧ before = []
  let shallow : Bool := leaving && exit.1 < state.entryQuantity
  let missing := before ++ (if shallow then ["insufficient_observed_exit_depth"] else []) ++
    state.rejectedReason.toList
  let sources := sources.reverse.dedup.reverse
  { candidate := pending.candidate
    policy
    action := state.action
    arrivalAtNs := state.arrivalAtNs
    horizonAtNs := pending.horizonAtNs
    quantity := state.quantity
    entryQuantity := state.entryQuantity
    entryValue := state.entryValue
    fillDelayNs := state.firstFillAtNs.map (· - datetimeNs pending.candidate.observedAt)
    exitQuantity := exit.1
    exitValue := exit.2
    grossReturnBps :=
      if leaving && !shallow && 0 < state.entryValue then
        some ((exit.2 / exit.1 / (state.entryValue / state.entryQuantity) - 1) * 10000)
      else none
    directionalReturnBps := (horizonMid platform policy pending).map fun middle =>
      (middle / mid pending.candidate.quote - 1) * 10000
    horizonMid := horizonMid platform policy pending
    complete := missing = [] ∧ (state.entryQuantity = 0 ∨ exit.1 = state.entryQuantity)
    missingReasons := missing.dedup.insertionSort (· ≤ ·)
    sourceEventFirst := sources.head?
    sourceEventLast := sources.getLast?
    sourceEventCount := sources.length
    sourceEventSha256 := platform.sourceDigest sources }

def finish (pending : Pending) (sources : List String) : List ShadowActionOutcome :=
  [finishAction platform policy pending sources pending.passive,
    finishAction platform policy pending sources pending.aggressive]

end outcomes

/-! ## The evaluator -/

structure Evaluator where
  pending : Dict String Pending := .empty
  lastQuote : Dict String ScalpQuote := .empty
  lastBids : Dict String (List BookLevel) := .empty
  lastAsks : Dict String (List BookLevel) := .empty
  lastDepthAtNs : Dict String ℤ := .empty
  sourceIds : Dict String (List String) := .empty
  ready : Dict String ShadowActionOutcome := .empty
  lastEventNs : ℤ := 0

inductive EvaluatorFault where
  | disordered
  deriving DecidableEq, Repr

section evaluator

variable (platform : Platform) (policy : ShadowPolicy)

def Evaluator.view (e : Evaluator) (symbol : String) : View :=
  ⟨e.lastQuote.get? symbol, e.lastBids.getD symbol [], e.lastAsks.getD symbol [], e.lastDepthAtNs.getD symbol 0⟩

def ShadowCandidate.horizonNs (c : ShadowCandidate) : ℤ :=
  datetimeNs c.observedAt + ⌊c.horizonSeconds * nsPerSecond⌋

def ShadowCandidate.arrivalNs (c : ShadowCandidate) : ℤ :=
  c.shadowSendAtNs + policy.arrivalLatencyMs * 1000000

def ShadowCandidate.expiryNs (c : ShadowCandidate) : ℤ :=
  min (datetimeNs c.observedAt + ⌊c.cancellationHorizonSeconds * nsPerSecond⌋) c.horizonNs

/-- A candidate as it is first followed. -/
def followed (c : ShadowCandidate) : Pending :=
  { candidate := c
    passive := {
      action := .passiveBuy, arrivalAtNs := c.arrivalNs policy, expiresAtNs := c.expiryNs
      quantity := c.quantity, limitPrice := c.passiveLimit
      queueAhead := c.passiveQueueAhead * policy.queueAheadMultiplier }
    aggressive := {
      action := .aggressiveBuy, arrivalAtNs := c.arrivalNs policy, expiresAtNs := c.expiryNs
      quantity := c.quantity, limitPrice := c.aggressiveLimit }
    horizonAtNs := c.horizonNs
    horizonQuote := some c.quote
    horizonBidLevels := withBbo (some c.quote) [] .bid }

/-- The candidate's own quote becomes the last of its symbol, unless a later one was received. -/
def Evaluator.keepQuote (e : Evaluator) (c : ShadowCandidate) : Evaluator :=
  if (e.lastQuote.get? c.symbol).all fun previous => previous.receivedAt ≤ c.quote.receivedAt then
    { e with
      lastQuote := e.lastQuote.set c.symbol c.quote
      lastBids := e.lastBids.set c.symbol (withBbo (some c.quote) [] .bid)
      lastAsks := e.lastAsks.set c.symbol (withBbo (some c.quote) [] .ask) }
  else e

def Evaluator.add (e : Evaluator) (c : ShadowCandidate) : Evaluator :=
  if (e.pending.get? c.candidateId).isSome then e
  else
    let e := { e with
      pending := e.pending.set c.candidateId (followed policy c)
      sourceIds := e.sourceIds.set c.candidateId [c.sourceEventId] }
    e.keepQuote c

/-- Whether a time has come. -/
def due (atNs nowNs : ℤ) (inclusive : Bool) : Bool := atNs < nowNs || inclusive && atNs = nowNs

def Pending.arrived (view : View) (nowNs : ℤ) (inclusive : Bool) (p : Pending) : Pending :=
  let arriveDue (state : ActionState) :=
    if due state.arrivalAtNs nowNs inclusive then arrive policy view state else state
  { p with passive := arriveDue p.passive, aggressive := arriveDue p.aggressive }

/-- One candidate of `_advance_time`. -/
def advanceOne (nowNs : ℤ) (inclusive : Bool) (e : Evaluator) (entry : String × Pending) : Evaluator :=
  let pending := entry.2.arrived policy (e.view entry.2.candidate.symbol) nowNs inclusive
  if due pending.horizonAtNs nowNs inclusive then
    { e with
      ready := (finish platform policy pending (e.sourceIds.getD entry.1 [])).foldl
        (fun ready outcome => ready.set (platform.identity outcome) outcome) e.ready
      pending := e.pending.erase entry.1
      sourceIds := e.sourceIds.erase entry.1 }
  else { e with pending := e.pending.set entry.1 pending }

def Evaluator.advanceTime (e : Evaluator) (nowNs : ℤ) (inclusive : Bool) : Evaluator :=
  e.pending.entries.foldl (advanceOne platform policy nowNs inclusive) e

/-- A market event, with what the engine shows of its symbol. -/
structure Shown where
  event : MarketEvent
  quote : Option ScalpQuote
  bidLevels : List BookLevel
  askLevels : List BookLevel
  depthAtNs : Option ℤ := none

/-- What a market event shows becomes the last of its symbol; its depth's time outlives the quote. -/
def Evaluator.display (e : Evaluator) (m : Shown) : Evaluator :=
  match m.quote with
  | some quote => { e with
      lastDepthAtNs := e.lastDepthAtNs.set m.event.symbol (m.depthAtNs.getD m.event.exchangeAtNs)
      lastQuote := e.lastQuote.set m.event.symbol quote
      lastBids := e.lastBids.set m.event.symbol (withBbo quote m.bidLevels .bid)
      lastAsks := e.lastAsks.set m.event.symbol (withBbo quote m.askLevels .ask) }
  | none => { e with
      lastQuote := e.lastQuote.erase m.event.symbol
      lastBids := e.lastBids.erase m.event.symbol
      lastAsks := e.lastAsks.erase m.event.symbol }

/-- What an event of its symbol does to a candidate. -/
def Pending.meet (view : View) (m : Shown) (p : Pending) : Pending :=
  let advance (state : ActionState) :=
    advanceAction policy m.event
      (if state.arrivalAtNs = m.event.receivedAtNs then arrive policy view state else state)
  let p := { p with
    integrityLost := p.integrityLost || m.quote.isNone
    passive := advance p.passive, aggressive := advance p.aggressive }
  if m.event.receivedAtNs ≤ p.horizonAtNs then
    { p with
      horizonQuote := m.quote
      horizonBidLevels := withBbo m.quote m.bidLevels .bid
      horizonDepthAtNs := view.depthAtNs }
  else p

def meetOne (m : Shown) (e : Evaluator) (entry : String × Pending) : Evaluator :=
  if entry.2.candidate.symbol ≠ m.event.symbol then e
  else { e with
    sourceIds := e.sourceIds.modify entry.1 (· ++ [m.event.eventId])
    pending := e.pending.set entry.1 (entry.2.meet policy (e.view m.event.symbol) m) }

def Evaluator.onMarket (e : Evaluator) (m : Shown) : Except EvaluatorFault Evaluator :=
  if m.event.receivedAtNs < e.lastEventNs then .error .disordered
  else
    let e := { e with lastEventNs := m.event.receivedAtNs }
    let e := (e.advanceTime platform policy m.event.receivedAtNs false).display m
    let e := e.pending.entries.foldl (meetOne policy m) e
    .ok (e.advanceTime platform policy m.event.receivedAtNs true)

def Evaluator.flush (e : Evaluator) (observedAt : Instant) : Evaluator :=
  e.advanceTime platform policy (datetimeNs observedAt) true

def Evaluator.acknowledge (e : Evaluator) (outcomes : List ShadowActionOutcome) : Evaluator :=
  { e with ready := outcomes.foldl (fun ready outcome => ready.erase (platform.identity outcome)) e.ready }

/-- What is done to an evaluator. -/
inductive Input where
  | market (shown : Shown)
  | add (candidate : ShadowCandidate)
  | flush (observedAt : Instant)
  | acknowledge (outcomes : List ShadowActionOutcome)

def Evaluator.step (e : Evaluator) : Input → Except EvaluatorFault Evaluator
  | .market m => e.onMarket platform policy m
  | .add c => .ok (e.add policy c)
  | .flush observedAt => .ok (e.flush platform policy observedAt)
  | .acknowledge outcomes => .ok (e.acknowledge platform outcomes)

def Evaluator.run (e : Evaluator) : List Input → Except EvaluatorFault Evaluator
  | [] => .ok e
  | input :: rest => do
    let e ← e.step platform policy input
    e.run rest

end evaluator

end TradeAgent.Scalp.Shadow
