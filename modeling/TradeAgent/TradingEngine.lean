import TradeAgent.EngineLedger
import TradeAgent.Library.Procedure

/-! The single-symbol order engine and the command that runs it on a ledger: a bar is
marked, its intent planned, judged and submitted, and each step is appended. A bar that
raises leaves no result; the events it had appended are not kept here. -/
namespace TradeAgent.Trading

open Paper Risk

/-- What a process is started with; `onBar` is the strategy, `fresh` its first state. -/
structure Setup (σ : Type) where
  config : AppConfig
  hashing : Hashing
  fingerprint : String
  killSwitch : Bool
  onBar : σ → MarketBar → Option TradeIntent × σ
  fresh : σ

structure Engine (σ : Type) where
  broker : PaperBroker
  risk : RiskEngine
  strategy : σ

variable {σ : Type} (s : Setup σ)

def intentId (intent : TradeIntent) : String :=
  s.hashing.clientOrderId intent.strategyId intent.symbol intent.generatedAt intent.targetWeight

/-- Whole shares towards the target weight. -/
def orderToward (account : AccountSnapshot) (intent : TradeIntent) (equity : ℚ) (bar : MarketBar) :
    Option OrderRequest :=
  let targetNotional := equity * intent.targetWeight.value
  let targetQuantity : ℚ := Rounding.toIntegral .down (targetNotional / bar.close)
  let difference := targetQuantity - account.quantityOf intent.symbol
  if moves : difference ≠ 0 then
    some (.toward (intentId s intent) intent.symbol difference moves bar.timestamp)
  else none

def planOrder (broker : PaperBroker) (intent : TradeIntent) (equity : ℚ) (bar : MarketBar) :
    Except EngineError (PaperBroker × Option OrderRequest) := do
  let (broker, account) ← accept (account broker bar.timestamp)
  .ok (broker, orderToward s account intent equity bar)

def progressed (bar : MarketBar) : LedgerEvent :=
  ⟨.engineProgress bar.symbol bar.timestamp s.fingerprint, bar.timestamp⟩

/-- An approved order: submitted, filled and checkpointed. -/
def fulfil (broker : PaperBroker) (order : OrderRequest) (bar : MarketBar) :
    Except EngineError (PaperBroker × List LedgerEvent) := do
  let (broker, fill) ← accept (submit broker order bar)
  let (broker, _) ← accept (account broker bar.timestamp)
  let state ← exported broker
  .ok (broker, [⟨.orderSubmitted order, bar.timestamp⟩, ⟨.orderFilled fill, bar.timestamp⟩,
    ⟨.brokerCheckpoint state, bar.timestamp⟩])

/-- `observedAt` defaults to the bar's own time. -/
def processBar (e : Engine σ) (bar : MarketBar) (observedAt : Option Instant) :
    Except EngineError (Engine σ × List LedgerEvent) := do
  let observation := observedAt.getD bar.timestamp
  let broker := mark e.broker bar
  let (intent, strategy) := s.onBar e.strategy bar
  let (broker, account) ← accept (account broker bar.timestamp)
  match intent with
  | none => .ok (⟨broker, e.risk, strategy⟩, [progressed s bar])
  | some intent =>
    let intended : LedgerEvent := ⟨.tradeIntent intent, bar.timestamp⟩
    let (broker, order) ← planOrder s broker intent account.equity bar
    match order with
    | none => .ok (⟨broker, e.risk, strategy⟩, [intended, progressed s bar])
    | some order =>
      let (risk, decision) := evaluate e.risk order bar account observation s.config.tradingEnabled
      let decided : LedgerEvent := ⟨.riskDecision decision, bar.timestamp⟩
      if decision.approved then do
        let (broker, events) ← fulfil broker order bar
        .ok (⟨broker, risk, strategy⟩, [intended, decided] ++ events ++ [progressed s bar])
      else .ok (⟨broker, risk, strategy⟩, [intended, decided, progressed s bar])

def processBars (e : Engine σ) : List MarketBar → Except EngineError (Engine σ × List LedgerEvent)
  | [] => .ok (e, [])
  | bar :: rest => do
    let (e, events) ← processBar s e bar none
    let (e, later) ← processBars e rest
    .ok (e, events ++ later)

def run (e : Engine σ) (bars : List MarketBar) : Except EngineError (Engine σ × List LedgerEvent) := do
  match bars.head?, bars.getLast? with
  | some first, some last => do
    let (broker, _) ← accept (account e.broker first.timestamp)
    let (e, events) ← processBars s { e with broker := broker } bars
    let (broker, _) ← accept (account e.broker last.timestamp)
    let state ← exported broker
    .ok ({ e with broker := broker },
      events ++ [⟨.brokerCheckpoint state, last.timestamp⟩])
  | _, _ => .error .noBars

/-- The broker a process starts from: the last checkpoint, else a fresh one. -/
def restored (ledger : List LedgerEvent) : PaperBroker :=
  match latest LedgerEvent.checkpoint ledger with
  | some (state, _) => fromState s.config.broker state
  | none => init s.config.broker

/-- A bar already processed feeds the strategy; the broker is marked when its
checkpoint is older. -/
def replayBar (checkpointTime : Option Instant) (e : PaperBroker × σ) (bar : MarketBar) :
    PaperBroker × σ :=
  let broker := if checkpointTime.all (fun at_ => decide (at_ < bar.timestamp)) then mark e.1 bar
    else e.1
  (broker, (s.onBar e.2 bar).2)

def replayed (ledger : List LedgerEvent) (processed : List MarketBar) : PaperBroker × σ :=
  processed.foldl (replayBar s ((latest LedgerEvent.checkpoint ledger).map Prod.snd))
    (restored s ledger, s.fresh)

def processedBars (progress : Option (Instant × String)) (bars : List MarketBar) : List MarketBar :=
  match progress with
  | some (last, _) => bars.filter fun bar => decide (bar.timestamp ≤ last)
  | none => []

def pendingBars (progress : Option (Instant × String)) (bars : List MarketBar) : List MarketBar :=
  match progress with
  | some (last, _) => bars.filter fun bar => decide (last < bar.timestamp)
  | none => bars

def freshRisk : RiskEngine := { limits := s.config.risk, killSwitchActive := s.killSwitch }

/-- One `paper` command over all bars of the feed, on the ledger it finds. -/
def paper (bars : List MarketBar) (ledger : List LedgerEvent) :
    Except EngineError (PaperBroker × List LedgerEvent) :=
  match bars.getLast? with
  | none => .error .noBars
  | some last =>
    let progress := latest LedgerEvent.progress ledger
    if progress.any fun p => p.2 ≠ s.fingerprint then .error .configurationDiffers
    else
      let (broker, strategy) := replayed s ledger (processedBars progress bars)
      let pending := pendingBars progress bars
      if pending.isEmpty then do
        let asOf := (progress.map Prod.fst).getD last.timestamp
        let (broker, _) ← accept (account broker asOf)
        .ok (broker, ledger)
      else do
        let (e, events) ← run s ⟨broker, freshRisk s, strategy⟩ pending
        .ok (e.broker, ledger ++ events)

/-- The bars a command reads: one symbol, strictly chronological. -/
structure Feed where
  symbol : String
  bars : List MarketBar
  single : ∀ bar ∈ bars, bar.symbol = symbol
  chronological : bars.Pairwise fun earlier later => earlier.timestamp < later.timestamp

end TradeAgent.Trading
