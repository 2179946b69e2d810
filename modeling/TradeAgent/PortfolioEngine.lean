import TradeAgent.EngineLedger
import TradeAgent.Library.Procedure

/-! The synchronized multi-asset engine: each frame marks all its bars, turns target
weights into orders bar by bar, and samples the gross exposure; after the last frame what
is still held is liquidated. A step that raises leaves no result. -/
namespace TradeAgent.Portfolio

open Paper Risk

structure UniverseFrame where
  timestamp : Instant
  bars : List MarketBar
  nonempty : bars ≠ []
  distinct : (bars.map MarketBar.symbol).Nodup
  sameTime : ∀ bar ∈ bars, bar.timestamp = timestamp

structure Setup (σ : Type) where
  config : AppConfig
  hashing : Hashing
  fingerprint : String
  strategyId : String
  onFrame : σ → UniverseFrame → Option PortfolioIntent × σ

structure Engine (σ : Type) where
  broker : PaperBroker
  risk : RiskEngine
  strategy : σ

variable {σ : Type} (s : Setup σ)

def weightOf (intent : PortfolioIntent) (symbol : String) : Weight :=
  (intent.targetWeights.get? symbol).getD Weight.zero

def orderId (intent : PortfolioIntent) (symbol : String) : String :=
  s.hashing.clientOrderId intent.strategyId symbol intent.timestamp (weightOf intent symbol)

/-- Whole shares, or with the intraday policy millionths of a share within its notional
bounds. -/
def targetQuantity (equity weight close : ℚ) : ℚ :=
  let intraday := s.config.intraday
  let notional := equity * weight
  if intraday.enabled ∧ 0 < weight then
    let capped := min notional intraday.maximumOrderNotional
    let notional := if capped < intraday.minimumOrderNotional then 0 else capped
    Rounding.quantize .down (1 / 1000000) (notional / close)
  else Rounding.toIntegral .down (notional / close)

def orderToward (account : AccountSnapshot) (intent : PortfolioIntent) (frame : UniverseFrame)
    (bar : MarketBar) : Option OrderRequest :=
  let target := targetQuantity s account.equity (weightOf intent bar.symbol).value bar.close
  let difference := target - account.quantityOf bar.symbol
  if moves : difference ≠ 0 then
    if s.config.intraday.enabled ∧ 0 < target ∧
        |difference| * bar.close < s.config.intraday.minimumOrderNotional then none
    else some (.toward (orderId s intent bar.symbol) bar.symbol difference moves frame.timestamp)
  else none

def executeBar (e : Engine σ) (frame : UniverseFrame) (intent : PortfolioIntent) (bar : MarketBar) :
    Except EngineError (Engine σ × List LedgerEvent) := do
  let (broker, account) ← accept (account e.broker frame.timestamp)
  match orderToward s account intent frame bar with
  | none => .ok ({ e with broker := broker }, [])
  | some order =>
    let (risk, decision) := evaluate e.risk order bar account frame.timestamp s.config.tradingEnabled
    let decided : LedgerEvent := ⟨.riskDecision decision, frame.timestamp⟩
    if decision.approved then do
      let (broker, fill) ← accept (submit broker order bar)
      .ok ({ e with broker := broker, risk := risk },
        [decided, ⟨.orderSubmitted order, frame.timestamp⟩, ⟨.orderFilled fill, frame.timestamp⟩])
    else .ok ({ e with broker := broker, risk := risk }, [decided])

def executeBars (e : Engine σ) (frame : UniverseFrame) (intent : PortfolioIntent) :
    List MarketBar → Except EngineError (Engine σ × List LedgerEvent)
  | [] => .ok (e, [])
  | bar :: rest => do
    let (e, events) ← executeBar s e frame intent bar
    let (e, later) ← executeBars e frame intent rest
    .ok (e, events ++ later)

def sortedBars (frame : UniverseFrame) : List MarketBar :=
  frame.bars.mergeSort fun x y => decide (x.symbol ≤ y.symbol)

def sortedSymbols (frame : UniverseFrame) : List String := (sortedBars frame).map MarketBar.symbol

def executeTargets (e : Engine σ) (frame : UniverseFrame) (intent : PortfolioIntent) :
    Except EngineError (Engine σ × List LedgerEvent) := do
  let (e, events) ← executeBars s e frame intent (sortedBars frame)
  .ok (e, ⟨.portfolioIntent intent, frame.timestamp⟩ :: events)

/-- Gross exposure over equity; a snapshot's equity is positive. -/
def exposureRatio (account : AccountSnapshot) : ℚ :=
  if 0 < account.equity then account.grossExposure / account.equity else 0

def markFrame (b : PaperBroker) (frame : UniverseFrame) : PaperBroker := frame.bars.foldl mark b

/-- One frame; `symbols` are those of the first. -/
def processFrame (symbols : List String) (e : Engine σ) (frame : UniverseFrame) :
    Except EngineError (Engine σ × List LedgerEvent × ℚ) :=
  if sortedSymbols frame ≠ symbols then .error .symbolsChanged
  else do
    let broker := markFrame e.broker frame
    let (intent, strategy) := s.onFrame e.strategy frame
    let e : Engine σ := ⟨broker, e.risk, strategy⟩
    let (e, events) ← match intent with
      | none => .ok (e, [])
      | some intent =>
        let unknown := intent.targetWeights.keys.filter fun symbol => symbol ∉ symbols
        if unknown ≠ [] then .error (.unknownSymbols (unknown.mergeSort fun x y => decide (x ≤ y)))
        else executeTargets s e frame intent
    let (broker, account) ← accept (account e.broker frame.timestamp)
    .ok ({ e with broker := broker },
      events ++ [⟨.portfolioProgress frame.timestamp s.strategyId s.fingerprint, frame.timestamp⟩],
      exposureRatio account)

def processFrames (symbols : List String) (e : Engine σ) :
    List UniverseFrame → Except EngineError (Engine σ × List LedgerEvent × List ℚ)
  | [] => .ok (e, [], [])
  | frame :: rest => do
    let (e, events, sample) ← processFrame s symbols e frame
    let (e, later, samples) ← processFrames symbols e rest
    .ok (e, events ++ later, sample :: samples)

theorem zeroWeight {bars : List MarketBar} {weight : Weight}
    (member : weight ∈ (Dict.ofList (bars.map fun bar => (bar.symbol, Weight.zero))).values) :
    weight = Weight.zero := by
  obtain ⟨key, found⟩ := Dict.mem_values.mp member
  obtain ⟨bar, _, same⟩ := List.mem_map.mp (Dict.mem_ofList (Dict.mem_entries.mpr found))
  cases same
  rfl

theorem zeroWeights_sum (bars : List MarketBar) :
    (((Dict.ofList (bars.map fun bar => (bar.symbol, Weight.zero))).values).map Weight.value).sum = 0 :=
  List.sum_eq_zero fun value member => by
    obtain ⟨weight, inside, rfl⟩ := List.mem_map.mp member
    rw [zeroWeight inside]
    rfl

/-- Weight zero for every bar of the last frame. -/
def liquidation (frame : UniverseFrame) : PortfolioIntent where
  strategyId := s.strategyId
  timestamp := frame.timestamp
  targetWeights := .ofList (frame.bars.map fun bar => (bar.symbol, Weight.zero))
  rationale := "forced end-of-run liquidation"
  weightRange weight member := by rw [zeroWeight member]; exact ⟨le_refl _, zero_le_one⟩
  weightSum := by rw [zeroWeights_sum]; norm_num

/-- What a run leaves: the account engine, its events and the exposure samples. -/
structure Outcome (σ : Type) where
  engine : Engine σ
  ledger : List LedgerEvent
  grossExposures : List ℚ

def Outcome.averageGrossExposure (o : Outcome σ) : ℚ := o.grossExposures.sum / o.grossExposures.length

/-- After the last frame: liquidate what is held and set the last sample to zero. -/
def finish (last : UniverseFrame) (o : Outcome σ) : Except EngineError (Outcome σ) := do
  let (broker, account) ← accept (account o.engine.broker last.timestamp)
  let e := { o.engine with broker := broker }
  if account.positions.isEmpty then .ok { o with engine := e }
  else do
    let (e, events) ← executeTargets s e last (liquidation s last)
    let (broker, _) ← accept (Paper.account e.broker last.timestamp)
    .ok ⟨{ e with broker := broker }, o.ledger ++ events, o.grossExposures.dropLast ++ [0]⟩

def run (e : Engine σ) (frames : List UniverseFrame) : Except EngineError (Outcome σ) :=
  match frames.head?, frames.getLast? with
  | some first, some last => do
    let (broker, _) ← accept (account e.broker first.timestamp)
    let (e, events, samples) ←
      processFrames s (sortedSymbols first) { e with broker := broker } frames
    let o ← finish s last ⟨e, events, samples⟩
    let (broker, _) ← accept (account o.engine.broker last.timestamp)
    let state ← exported broker
    .ok { o with
      engine := { o.engine with broker := broker }
      ledger := o.ledger ++ [⟨.brokerCheckpoint state, last.timestamp⟩] }
  | _, _ => .error .noFrames

end TradeAgent.Portfolio
