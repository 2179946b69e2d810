import TradeAgent.PaperAccount
import TradeAgent.PortfolioEngine
import TradeAgent.TradingEngine

/-! What a risk approval is worth at the paper broker: the gateway judges at the close and
by its own participation, the broker fills whole shares at a worse price and charges. -/
namespace TradeAgent.Execution

open Paper Risk Rounding

/-- The order is new and is filled to its last share. -/
def ExecutesInFull (b : PaperBroker) (order : OrderRequest) (bar : MarketBar) : Prop :=
  b.fills.get? order.clientOrderId = none ∧
  ∃ after fill, submit b order bar = (after, .ok fill) ∧ fill.quantity = order.quantity

/-- What the broker checks besides: the bar, the id, whole-share liquidity under its own
participation limit, a price that does not vanish, and cash for the costs of a buy. -/
structure Executable (b : PaperBroker) (order : OrderRequest) (bar : MarketBar) : Prop where
  symbol : order.symbol = bar.symbol
  unused : b.fills.get? order.clientOrderId = none
  liquid : order.quantity ≤ availableQuantity b.config bar
  priced : 0 < fillPrice b.config order.side bar
  funded : order.side = .buy →
    fillPrice b.config .buy bar * order.quantity +
      commissionOn b.config (fillPrice b.config .buy bar * order.quantity) ≤ b.cash

theorem recordFill_of {b : PaperBroker} {order : OrderRequest} {bar : MarketBar}
    {quantity price commission : ℚ} (valid : 0 < quantity ∧ 0 < price ∧ 0 ≤ commission) :
    ∃ after fill, recordFill b order bar quantity price commission = (after, .ok fill) ∧
      fill.quantity = quantity := by
  rw [recordFill, dif_pos valid]
  exact ⟨_, _, rfl, rfl⟩

theorem recordFill_priced {b after : PaperBroker} {order : OrderRequest} {bar : MarketBar}
    {quantity price commission : ℚ} {fill : Fill}
    (recorded : recordFill b order bar quantity price commission = (after, .ok fill)) : 0 < price := by
  unfold recordFill at recorded
  split at recorded
  next valid => exact valid.2.1
  next => cases recorded

theorem submit_unused {b : PaperBroker} {order : OrderRequest} {bar : MarketBar}
    (market : order.orderType = .market) (unused : b.fills.get? order.clientOrderId = none)
    (symbol : order.symbol = bar.symbol) :
    submit b order bar =
      execute { b with positions := b.positions.setDefault order.symbol {} } order bar := by
  rw [submit, if_neg (not_not.mpr market), unused]
  exact if_neg (not_not.mpr symbol)

/-- A market order that sells no more than is held is filled in full exactly when the
broker's own checks pass. -/
theorem executes_iff {b : PaperBroker} {order : OrderRequest} {bar : MarketBar}
    (market : order.orderType = .market)
    (covered : order.symbol = bar.symbol → order.side = .sell → order.quantity ≤ held b order.symbol) :
    ExecutesInFull b order bar ↔ Executable b order bar := by
  have current : (b.positions.setDefault order.symbol {}).getD order.symbol {} =
      b.positions.getD order.symbol {} := by simp [Dict.getD, Dict.get?_setDefault]
  have positive := order.quantityPositive
  constructor
  · rintro ⟨unused, after, fill, sent, full⟩
    have filled : Filled b order bar after fill := by
      rcases submit_ok sent with ⟨used, _⟩ | filled
      · rw [unused] at used; cases used
      · exact filled
    have liquid : order.quantity ≤ availableQuantity b.config bar := by
      have least := filled.quantity
      rw [full] at least
      exact min_eq_left_iff.mp least.symm
    rw [submit_unused market unused filled.symbol] at sent
    simp only [execute, current, min_eq_left liquid] at sent
    split at sent
    next => cases sent
    next =>
      rw [if_neg (not_le.mpr positive)] at sent
      cases side : order.side with
      | buy =>
        simp only [side] at sent
        split at sent
        next => cases sent
        next funded =>
          exact ⟨filled.symbol, unused, liquid, side ▸ recordFill_priced sent, fun _ => not_lt.mp funded⟩
      | sell =>
        simp only [side] at sent
        exact ⟨filled.symbol, unused, liquid, side ▸ recordFill_priced sent, fun buy => by
          rw [side] at buy; cases buy⟩
  · intro executable
    obtain ⟨symbol, unused, liquid, priced, funded⟩ := executable
    refine ⟨unused, ?_⟩
    have enough : ¬(order.side = .sell ∧ (b.positions.getD order.symbol {}).quantity < order.quantity) :=
      fun short => absurd short.2 (not_lt.mpr (covered symbol short.1))
    have charged : 0 ≤ commissionOn b.config (fillPrice b.config order.side bar * order.quantity) :=
      commissionOn_nonneg b.config (mul_nonneg priced.le positive.le)
    rw [submit_unused market unused symbol]
    simp only [execute, current, min_eq_left liquid, if_neg enough, if_neg (not_le.mpr positive)]
    cases side : order.side with
    | buy =>
      rw [side] at priced charged
      simp only [if_neg (not_lt.mpr (funded side))]
      exact recordFill_of ⟨positive, priced, charged⟩
    | sell =>
      rw [side] at priced charged
      exact recordFill_of ⟨positive, priced, charged⟩

/-- Orders the two engines plan from an account read of `b`; `after` is the broker they
are submitted to. -/
inductive Planned (σ : Type) (config : AppConfig) (b : PaperBroker) (bar : MarketBar) :
    PaperBroker → AccountSnapshot → OrderRequest → Prop where
  | single (s : Trading.Setup σ) (settings : s.config = config) (intent : TradeIntent)
      {middle after : PaperBroker} {a : AccountSnapshot} {order : OrderRequest}
      (read : account b bar.timestamp = (middle, .ok a))
      (plan : Trading.planOrder s middle intent a.equity bar = .ok (after, some order)) :
      Planned σ config b bar after a order
  | multi (s : Portfolio.Setup σ) (settings : s.config = config) (intent : PortfolioIntent)
      (frame : Portfolio.UniverseFrame) (member : bar ∈ frame.bars)
      {after : PaperBroker} {a : AccountSnapshot} {order : OrderRequest}
      (read : account b frame.timestamp = (after, .ok a))
      (plan : Portfolio.orderToward s a intent frame bar = some order) :
      Planned σ config b bar after a order

theorem toward_sell {id symbol : String} {target current : ℚ} (moves : target - current ≠ 0)
    (at_ : Instant) (nonneg : 0 ≤ target)
    (sell : (OrderRequest.toward id symbol (target - current) moves at_).side = .sell) :
    (OrderRequest.toward id symbol (target - current) moves at_).quantity ≤ current := by
  simp only [OrderRequest.toward] at sell ⊢
  split at sell
  next => cases sell
  next down => rw [abs_of_nonpos (not_lt.mp down)]; linarith

theorem targetQuantity_nonneg {σ : Type} (s : Portfolio.Setup σ) {equity weight close : ℚ}
    (funds : 0 < equity) (share : 0 ≤ weight) (price : 0 < close) :
    0 ≤ Portfolio.targetQuantity s equity weight close := by
  have notional : 0 ≤ equity * weight := mul_nonneg funds.le share
  have bound : 0 ≤ s.config.intraday.maximumOrderNotional :=
    s.config.intraday.minimumPositive.le.trans s.config.intraday.notionalOrdered
  unfold Portfolio.targetQuantity
  dsimp only
  split
  next =>
    apply quantize_nonneg _ (by norm_num)
    apply div_nonneg _ price.le
    split
    · exact le_refl _
    · exact le_min notional bound
  next => exact_mod_cast toIntegral_nonneg .down (div_nonneg notional price.le)

theorem weightOf_nonneg (intent : PortfolioIntent) (symbol : String) :
    0 ≤ (Portfolio.weightOf intent symbol).value := by
  unfold Portfolio.weightOf
  cases found : intent.targetWeights.get? symbol with
  | none => exact le_refl _
  | some weight => exact (intent.weightRange weight (Dict.mem_values.mpr ⟨symbol, found⟩)).1

/-- The positions a broker keeps when its account is read. -/
theorem account_held {b after : PaperBroker} {a : AccountSnapshot} {asOf : Instant}
    (read : account b asOf = (after, .ok a)) :
    after.config = b.config ∧ after.cash = b.cash ∧ after.marks = b.marks ∧
    (∀ symbol, held after symbol = held b symbol) := by
  obtain ⟨rfl, _⟩ := account_ok read
  exact ⟨rfl, rfl, rfl, fun _ => rfl⟩

section Planned

variable {σ : Type} {config : AppConfig} {b after : PaperBroker} {bar : MarketBar}
  {a : AccountSnapshot} {order : OrderRequest}

theorem Planned.kept (planned : Planned σ config b bar after a order) :
    after.config = b.config ∧ order.orderType = .market := by
  cases planned with
  | single s settings intent read plan =>
    obtain ⟨⟨last, later⟩, again, rest⟩ := bind_ok_iff.mp plan
    obtain ⟨rfl, ordered⟩ := Prod.mk.inj (Except.ok.inj rest)
    refine ⟨(account_held (accept_ok.mp again)).1.trans (account_held read).1, ?_⟩
    unfold Trading.orderToward at ordered
    dsimp only at ordered
    split at ordered
    next => cases ordered; rfl
    next => cases ordered
  | multi s settings intent frame member read plan =>
    refine ⟨(account_held read).1, ?_⟩
    unfold Portfolio.orderToward at plan
    dsimp only at plan
    split at plan
    next => split at plan <;> cases plan; rfl
    next => cases plan

/-- Targets are never negative, so a sell stays within what is held. -/
theorem Planned.covered (planned : Planned σ config b bar after a order)
    (marked : b.marks.get? bar.symbol = some bar.close) (symbol : order.symbol = bar.symbol)
    (sell : order.side = .sell) : order.quantity ≤ held after order.symbol := by
  have known : (b.marks.get? bar.symbol).isSome := by rw [marked]; rfl
  cases planned with
  | single s settings intent read plan =>
    obtain ⟨⟨last, later⟩, again, rest⟩ := bind_ok_iff.mp plan
    obtain ⟨rfl, ordered⟩ := Prod.mk.inj (Except.ok.inj rest)
    have again := accept_ok.mp again
    obtain ⟨_, _, marks, _⟩ := account_held read
    obtain ⟨_, _, _, kept⟩ := account_held again
    unfold Trading.orderToward at ordered
    dsimp only at ordered
    split at ordered
    next moves =>
      cases ordered
      have same : intent.symbol = bar.symbol := symbol
      have marked := known
      rw [← same, ← marks] at marked
      have reads := (account_ok again).2.quantityOf marked
      rw [← kept] at reads
      refine (toward_sell moves _ ?_ sell).trans_eq reads
      have share := intent.weightRange.1
      exact_mod_cast toIntegral_nonneg .down
        (div_nonneg (mul_nonneg a.equityPositive.le share) bar.closePositive.le)
    next => cases ordered
  | multi s settings intent frame member read plan =>
    obtain ⟨_, _, _, kept⟩ := account_held read
    have reads := (account_ok read).2.quantityOf known
    rw [← kept] at reads
    unfold Portfolio.orderToward at plan
    dsimp only at plan
    split at plan
    next moves =>
      split at plan
      next => cases plan
      next =>
        cases plan
        refine (toward_sell moves _ ?_ sell).trans_eq reads
        exact targetQuantity_nonneg s a.equityPositive (weightOf_nonneg intent _) bar.closePositive
    next => cases plan

end Planned

/-- Approval bounds the quantity by the gateway's participation limit. -/
theorem approved_participation {r : RiskEngine} {order : OrderRequest} {bar : MarketBar}
    {a : AccountSnapshot} {observedAt : Instant} {tradingEnabled : Bool}
    (approved : (evaluate r order bar a observedAt tradingEnabled).2.approved = true) :
    order.quantity ≤ bar.volume * r.limits.maxVolumeParticipation := by
  have passed := ((evaluate_approved _ _ _ _ _ _).mp approved).1
  simp only [hardCodes, List.append_eq_nil_iff] at passed
  have liquidity := passed.1.2
  unfold liquidityCodes at liquidity
  split at liquidity
  next => cases liquidity
  next traded =>
    have traded : 0 < bar.volume := not_le.mp traded
    have within := not_lt.mp (when_nil_iff.mp liquidity)
    rw [div_le_iff₀ traded] at within
    rwa [mul_comm]

/-- The order of the single-symbol engine for an intent, with the account it is judged by
and the broker it is submitted to. -/
def firstOrder {σ : Type} (s : Trading.Setup σ) (b : PaperBroker) (intent : TradeIntent) (bar : MarketBar) :
    Option (PaperBroker × AccountSnapshot × OrderRequest) :=
  match account b bar.timestamp with
  | (_, .error _) => none
  | (middle, .ok a) => match Trading.planOrder s middle intent a.equity bar with
    | .ok (after, some order) => some (after, a, order)
    | _ => none

theorem firstOrder_planned {σ : Type} {s : Trading.Setup σ} {b after : PaperBroker} {intent : TradeIntent}
    {bar : MarketBar} {a : AccountSnapshot} {order : OrderRequest}
    (first : firstOrder s b intent bar = some (after, a, order)) :
    Planned σ s.config b bar after a order := by
  unfold firstOrder at first
  split at first
  next => cases first
  next middle read =>
    split at first
    next plan => cases first; exact .single s rfl intent read plan
    next => cases first

theorem allIn_pos : (0 : ℚ) < 1 := one_pos

theorem allIn_range : (0 : ℚ) < 1 ∧ (1 : ℚ) ≤ 1 := by norm_num

theorem allIn_within : (1 : ℚ) ≤ 1 := le_rfl

def allInRisk : RiskLimits :=
  { RiskLimits.standard with
    maxGrossExposure := 1
    maxPositionExposure := 1
    maxOrderExposure := 1
    grossRange := allIn_range
    orderPositive := allIn_pos
    orderWithinPosition := allIn_within
    positionWithinGross := allIn_within }

theorem allInRisk_holds : (1 / 50 : ℚ) ≤ allInRisk.maxOrderExposure ∧ (1 / 200 : ℚ) ≤ allInRisk.maxPositionExposure ∧
    (1 / 100 : ℚ) ≤ allInRisk.maxGrossExposure ∧ 2 ≤ allInRisk.maxPositions := by
  simp only [allInRisk, RiskLimits.standard]
  norm_num

/-- Exposure limits of one: the whole equity may go into one order. -/
def allIn : Trading.Setup Unit where
  config := { AppConfig.standard ⟨100000, 2, 1, 1, 1 / 100, sampleCash_pos, sampleSlippage_range, samplePoint_range,
      samplePoint_range, samplePercent_range⟩ with
    risk := allInRisk
    targetFitsOrder := allInRisk_holds.1
    intradayPosition := allInRisk_holds.2.1
    intradayGross := allInRisk_holds.2.2.1
    intradayPositions := allInRisk_holds.2.2.2 }
  hashing := plainHashing
  fingerprint := "settings"
  killSwitch := false
  onBar _ _ := (none, ())
  fresh := ()

def allInIntent : TradeIntent :=
  ⟨"all-in", "SPY", ⟨1, "1", by decide⟩, 0, "buy", by norm_num⟩

def quietBar : MarketBar :=
  ⟨"SPY", 0, 100, 100, 100, 100, 1000000, hundred_pos, hundred_pos, hundred_pos, million_nonneg,
    hundred_highest, hundred_lowest⟩

/-- Verdict and submission of the first order. -/
def allInOutcome : Option (Bool × Except BrokerError ℚ) :=
  (firstOrder allIn (run allIn.config.broker [.mark quietBar]) allInIntent quietBar).map fun first =>
    ((evaluate { limits := allIn.config.risk } first.2.2 quietBar first.2.1 0 true).2.approved,
      ((submit first.1 first.2.2 quietBar).2).map Fill.quantity)

end TradeAgent.Execution
