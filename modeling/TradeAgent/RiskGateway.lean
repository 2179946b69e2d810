import Mathlib.Tactic.Linarith
import Mathlib.Tactic.NormNum
import TradeAgent.Domain
import TradeAgent.PaperBroker

/-! The pre-trade risk gateway and the application settings it is built from. The
hourly order window is the only state an evaluation changes. -/
namespace TradeAgent

def hour : Instant := 60 * minute

structure RiskLimits where
  maxGrossExposure : ℚ := 1 / 2
  maxPositionExposure : ℚ := 1 / 20
  maxOrderExposure : ℚ := 1 / 50
  maxPositions : ℕ := 10
  maxDailyLoss : ℚ := 1 / 100
  maxDrawdown : ℚ := 3 / 200
  maxOrdersPerHour : ℕ := 20
  maxDataAgeSeconds : ℕ := 120
  maxVolumeParticipation : ℚ := 1 / 100
  allowShorting : Bool := false
  allowLeverage : Bool := false
  grossRange : 0 < maxGrossExposure ∧ maxGrossExposure ≤ 1 := by norm_num
  orderPositive : 0 < maxOrderExposure := by norm_num
  positionsPositive : 0 < maxPositions := by norm_num
  dailyLossRange : 0 < maxDailyLoss ∧ maxDailyLoss < 1 := by norm_num
  drawdownRange : 0 < maxDrawdown ∧ maxDrawdown < 1 := by norm_num
  ordersPositive : 0 < maxOrdersPerHour := by norm_num
  dataAgePositive : 0 < maxDataAgeSeconds := by norm_num
  participationRange : 0 < maxVolumeParticipation ∧ maxVolumeParticipation ≤ 1 := by norm_num
  orderWithinPosition : maxOrderExposure ≤ maxPositionExposure := by norm_num
  positionWithinGross : maxPositionExposure ≤ maxGrossExposure := by norm_num

structure IntradayConfig where
  enabled : Bool := false
  minimumOrderNotional : ℚ := 10
  maximumOrderNotional : ℚ := 25
  maximumPositionExposure : ℚ := 1 / 200
  maximumGrossExposure : ℚ := 1 / 100
  maximumPositions : ℕ := 2
  minimumPositive : 0 < minimumOrderNotional := by norm_num
  notionalOrdered : minimumOrderNotional ≤ maximumOrderNotional := by norm_num
  positionPositive : 0 < maximumPositionExposure := by norm_num
  grossLeOne : maximumGrossExposure ≤ 1 := by norm_num
  positionsPositive : 0 < maximumPositions := by norm_num
  positionWithinGross : maximumPositionExposure ≤ maximumGrossExposure := by norm_num

/-- The settings the two order engines read; `targetWeight` is the strategy's. -/
structure AppConfig where
  tradingEnabled : Bool := true
  risk : RiskLimits := {}
  broker : Paper.BrokerConfig
  targetWeight : ℚ := 1 / 50
  intraday : IntradayConfig := {}
  targetWeightPositive : 0 < targetWeight := by norm_num
  targetFitsOrder : targetWeight ≤ risk.maxOrderExposure := by norm_num
  intradayPosition : intraday.maximumPositionExposure ≤ risk.maxPositionExposure := by norm_num
  intradayGross : intraday.maximumGrossExposure ≤ risk.maxGrossExposure := by norm_num
  intradayPositions : intraday.maximumPositions ≤ risk.maxPositions := by norm_num

def RiskLimits.standard : RiskLimits := {}

/-- The settings of a broker that leaves the rest as it is shipped. -/
def AppConfig.standard (broker : Paper.BrokerConfig) : AppConfig := { broker }

namespace Risk

inductive RiskCode where
  | staleData | tradingDisabled | shortingDisabled | noLiquidity | maxVolumeParticipation
  | maxOrderExposure | maxPositionExposure | maxGrossExposure | maxPositions | maxDailyLoss
  | maxDrawdown | leverageDisabled | orderRateLimit
  deriving DecidableEq, Repr

def RiskCode.text : RiskCode → String
  | .staleData => "STALE_DATA"
  | .tradingDisabled => "TRADING_DISABLED"
  | .shortingDisabled => "SHORTING_DISABLED"
  | .noLiquidity => "NO_LIQUIDITY"
  | .maxVolumeParticipation => "MAX_VOLUME_PARTICIPATION"
  | .maxOrderExposure => "MAX_ORDER_EXPOSURE"
  | .maxPositionExposure => "MAX_POSITION_EXPOSURE"
  | .maxGrossExposure => "MAX_GROSS_EXPOSURE"
  | .maxPositions => "MAX_POSITIONS"
  | .maxDailyLoss => "MAX_DAILY_LOSS"
  | .maxDrawdown => "MAX_DRAWDOWN"
  | .leverageDisabled => "LEVERAGE_DISABLED"
  | .orderRateLimit => "ORDER_RATE_LIMIT"

structure RiskDecision where
  approved : Bool
  codes : List RiskCode
  message : String
  projectedGrossExposure : ℚ
  deriving DecidableEq, Repr

structure RiskEngine where
  limits : RiskLimits
  orderTimes : List Instant := []
  killSwitchActive : Bool := false

def when (c : Prop) [Decidable c] (code : RiskCode) : List RiskCode := if c then [code] else []

section Evaluate

variable (r : RiskEngine) (order : OrderRequest) (bar : MarketBar) (account : AccountSnapshot)

def projectedQuantity : ℚ :=
  let signed := match order.side with
    | .buy => order.quantity
    | .sell => -order.quantity
  account.quantityOf order.symbol + signed

def riskReducing : Bool :=
  decide (|projectedQuantity order account| < |account.quantityOf order.symbol|)

def projectedSymbolValue : ℚ := |projectedQuantity order account * bar.close|

def projectedGrossRatio : ℚ :=
  (account.grossExposure - |account.quantityOf order.symbol * bar.close| +
    projectedSymbolValue order bar account) / account.equity

def projectedSymbols : List String :=
  let held := account.positions.map Position.symbol
  (if 0 < projectedQuantity order account then order.symbol :: held else held).dedup

/-- The checks an order that does not shrink its position must pass besides. -/
def exposureCodes : List RiskCode :=
  let notional := order.quantity * bar.close
  when (r.limits.maxOrderExposure < notional / account.equity) .maxOrderExposure ++
  when (r.limits.maxPositionExposure < projectedSymbolValue order bar account / account.equity)
    .maxPositionExposure ++
  when (r.limits.maxGrossExposure < projectedGrossRatio order bar account) .maxGrossExposure ++
  when (r.limits.maxPositions < (projectedSymbols order account).length) .maxPositions ++
  when (account.dailyReturn ≤ -r.limits.maxDailyLoss) .maxDailyLoss ++
  when (account.drawdown ≤ -r.limits.maxDrawdown) .maxDrawdown ++
  when (r.limits.allowLeverage = false ∧ order.side = .buy ∧ account.cash < notional)
    .leverageDisabled

def liquidityCodes : List RiskCode :=
  if bar.volume ≤ 0 then [.noLiquidity]
  else when (r.limits.maxVolumeParticipation < order.quantity / bar.volume) .maxVolumeParticipation

/-- Every code but the order rate, in the order the gateway appends them. -/
def hardCodes (observedAt : Instant) (tradingEnabled : Bool) : List RiskCode :=
  let age := observedAt - bar.timestamp
  when (age < 0 ∨ (r.limits.maxDataAgeSeconds : ℤ) * second < age) .staleData ++
  when ((!tradingEnabled || r.killSwitchActive) && !riskReducing order account) .tradingDisabled ++
  when (projectedQuantity order account < 0 ∧ r.limits.allowShorting = false) .shortingDisabled ++
  liquidityCodes r order bar ++
  (if riskReducing order account then [] else exposureCodes r order bar account)

/-- The approvals of the last hour. -/
def RiskEngine.recent (observedAt : Instant) : List Instant :=
  r.orderTimes.dropWhile fun at_ => decide (at_ ≤ observedAt - hour)

def RiskEngine.rateLimited (observedAt : Instant) : Bool :=
  decide (r.limits.maxOrdersPerHour ≤ (r.recent observedAt).length) && !riskReducing order account

def codes (observedAt : Instant) (tradingEnabled : Bool) : List RiskCode :=
  hardCodes r order bar account observedAt tradingEnabled ++
    when (r.rateLimited order account observedAt) .orderRateLimit

def evaluate (observedAt : Instant) (tradingEnabled : Bool) : RiskEngine × RiskDecision :=
  let codes := codes r order bar account observedAt tradingEnabled
  let approved := codes.isEmpty
  let message := if approved then "approved"
    else "rejected: " ++ ", ".intercalate (codes.map RiskCode.text)
  let times := if approved then r.recent observedAt ++ [observedAt] else r.recent observedAt
  ({ r with orderTimes := times },
    ⟨approved, codes, message, projectedGrossRatio order bar account⟩)

@[simp] theorem evaluate_limits (observedAt : Instant) (tradingEnabled : Bool) :
    (evaluate r order bar account observedAt tradingEnabled).1.limits = r.limits := rfl

@[simp] theorem evaluate_killSwitch (observedAt : Instant) (tradingEnabled : Bool) :
    (evaluate r order bar account observedAt tradingEnabled).1.killSwitchActive =
      r.killSwitchActive := rfl

theorem when_nil_iff {c : Prop} [Decidable c] {code : RiskCode} : when c code = [] ↔ ¬c := by
  unfold when
  split <;> simp_all

theorem evaluate_approved (observedAt : Instant) (tradingEnabled : Bool) :
    (evaluate r order bar account observedAt tradingEnabled).2.approved = true ↔
      hardCodes r order bar account observedAt tradingEnabled = [] ∧
      r.rateLimited order account observedAt = false := by
  simp only [evaluate, codes, List.isEmpty_iff, List.append_eq_nil_iff, when_nil_iff,
    Bool.not_eq_true]

end Evaluate

/-- The window an engine counts is the only way two engines with the same limits and
switch can disagree. -/
theorem hardCodes_congr {r s : RiskEngine} (limits : r.limits = s.limits)
    (killSwitch : r.killSwitchActive = s.killSwitchActive) (order : OrderRequest) (bar : MarketBar)
    (account : AccountSnapshot) (observedAt : Instant) (tradingEnabled : Bool) :
    hardCodes r order bar account observedAt tradingEnabled =
      hardCodes s order bar account observedAt tradingEnabled := by
  simp only [hardCodes, liquidityCodes, exposureCodes, limits, killSwitch]

end Risk

end TradeAgent
