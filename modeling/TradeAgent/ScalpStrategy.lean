import TradeAgent.BookFeatureEngine
import TradeAgent.Domain

/-! The scalping strategy: what it makes of one symbol's features and of what it is told it holds,
by two families of hypotheses and, under the action-value policy, by what each action is worth. -/
namespace TradeAgent.Simulation

open Market (ScalpQuote nsPerSecond)

inductive DecisionPolicy where
  | legacy | actionValue
  deriving DecidableEq, Repr

inductive EntryStyle where
  | passive | marketable
  deriving DecidableEq, Repr

inductive Family where
  | momentum | reversion | none
  deriving DecidableEq, Repr

inductive EconomicAction where
  | noTrade | passiveBuy | aggressiveBuy | passiveSell | aggressiveSell
  deriving DecidableEq, Repr

structure ScalpingConfig where
  symbols : List String
  orderNotionalUsd : ℚ
  decisionIntervalSeconds : ℚ
  featureHorizonSeconds : ℚ
  exitAfterSeconds : Option ℚ
  entryOrderTtlSeconds : ℚ
  entryStyle : EntryStyle
  makerFeeBps : ℚ
  takerFeeBps : ℚ
  decisionPolicy : DecisionPolicy
  latencyGraceSeconds : ℚ
  distinct : symbols.Nodup
  notionalPositive : 0 < orderNotionalUsd
  intervalPositive : 0 < decisionIntervalSeconds
  horizonPositive : 0 < featureHorizonSeconds
  ttlPositive : 0 < entryOrderTtlSeconds
  makerFeeNonneg : 0 ≤ makerFeeBps
  takerFeeNonneg : 0 ≤ takerFeeBps
  graceNonneg : 0 ≤ latencyGraceSeconds

/-- What a replay raises: first its own consistency errors, then what it is refused. -/
inductive Fault where
  | past | short | unsupportedShort | fillQuantity | feedback | zeroDivision
  | validation | unconfigured | future | foreignInventory | economics | missing
  deriving DecidableEq, Repr

/-- An economic decision that passed its validation. -/
structure EconomicDecision where
  selectedAction : EconomicAction
  family : Family
  evaluatedAt : Instant
  validUntil : Option Instant
  predictionExpiresAt : Option Instant
  conservativeNetEdgeBps : ℚ
  reasonCodes : List String
  current : selectedAction ≠ .noTrade → ∃ until_, validUntil = some until_ ∧ evaluatedAt < until_

def EconomicDecision.buys (d : EconomicDecision) : Bool :=
  d.selectedAction = .passiveBuy ∨ d.selectedAction = .aggressiveBuy

/-- A row of features. What the strategy's float formulas make of the numbers stands in place of
the numbers. -/
structure BookFeatures where
  symbol : String
  asOfNs : ℤ
  quote : ScalpQuote
  ready : Bool
  positiveMomentum : Bool
  positiveReversion : Bool
  falling : Bool

structure ScalpInventory where
  symbol : String
  quantity : ℚ
  openedAt : Instant
  openingVwap : ℚ
  family : Family
  exitDueAt : Option Instant
  quantityNonneg : 0 ≤ quantity
  vwapPositive : 0 < openingVwap

inductive SignalAction where
  | buy | sell | hold
  deriving DecidableEq, Repr

structure ScalpSignal where
  symbol : String
  observedAt : Instant
  action : SignalAction
  family : Family
  reasons : List String
  quote : ScalpQuote
  economics : Option EconomicDecision

/-- The economic evaluation of a family at an instant; `none` where it raises. -/
abbrev Evaluate := BookFeatures → (family : Family) → (now : Instant) →
  Option { d : EconomicDecision // d.family = family ∧ d.evaluatedAt = now }

namespace ScalpStrategy

variable (config : ScalpingConfig) (evaluate : Evaluate)

/-- What a decision comes to. -/
structure Verdict where
  action : SignalAction
  family : Family
  reasons : List String
  economics : Option EconomicDecision := none

def candidates (features : BookFeatures) : List Family :=
  (if features.positiveMomentum then [.momentum] else []) ++
    if features.positiveReversion then [.reversion] else []

def exitDue (owned : ScalpInventory) (now : Instant) : Bool :=
  match config.decisionPolicy with
  | .actionValue => owned.exitDueAt.any (· ≤ now)
  | .legacy => config.exitAfterSeconds.any fun limit => limit ≤ ((now - owned.openedAt : ℤ) : ℚ) / 1000000

/-- While inventory is held. -/
def held (features : BookFeatures) (owned : ScalpInventory) (now : Instant) : Verdict :=
  let family := (candidates features).head?.getD .none
  if exitDue config owned now then ⟨.sell, family, ["strategy_time_exit"], none⟩
  else if config.decisionPolicy = .actionValue ∧ owned.exitDueAt = none then
    ⟨.sell, family, ["missing_entry_horizon"], none⟩
  else if !features.ready then ⟨.hold, .none, ["insufficient_actual_feature_history"], none⟩
  else if family ≠ .none ∧ (config.decisionPolicy = .legacy ∨ owned.family = family) then
    ⟨.hold, family, ["positive_alpha_maintained"], none⟩
  else
    ⟨.sell, family, [if config.decisionPolicy = .actionValue ∧ owned.family ≠ family
      then "original_regime_invalidated" else "entry_signal_invalidated"], none⟩

/-- The more valuable decision, momentum before reversion, the earlier one where they are even. -/
def better (d e : EconomicDecision) : EconomicDecision :=
  if d.conservativeNetEdgeBps < e.conservativeNetEdgeBps ∨
      d.conservativeNetEdgeBps = e.conservativeNetEdgeBps ∧ d.family ≠ .momentum ∧ e.family = .momentum
  then e else d

def economic (decisions : List EconomicDecision) (family : Family) : Verdict :=
  match decisions with
  | [] => ⟨.hold, family, [], none⟩
  | first :: rest =>
    let chosen := rest.foldl better first
    if chosen.buys then
      ⟨.buy, chosen.family, ["positive_action_value", if chosen.selectedAction = .passiveBuy
        then "passive_buy" else "aggressive_buy"], some chosen⟩
    else ⟨.hold, chosen.family, "economic_no_trade" :: chosen.reasonCodes, some chosen⟩

/-- While nothing is held. -/
def flat (features : BookFeatures) (now : Instant) : Except Fault Verdict :=
  let family := (candidates features).head?.getD .none
  if !features.ready then .ok ⟨.hold, .none, ["insufficient_actual_feature_history"], none⟩
  else if family = .none then
    .ok ⟨.hold, family, [if features.falling then "negative_alpha_no_crypto_short"
      else "no_positive_alpha"], none⟩
  else match config.decisionPolicy with
    | .legacy => .ok ⟨.buy, family, if family = .momentum
        then ["positive_momentum", "advancing_price_and_order_flow"]
        else ["liquidity_shock_reversion", "bid_depletion_then_replenishment_and_recovery"], none⟩
    | .actionValue =>
      match (candidates features).mapM fun family => (evaluate features family now).map (·.1) with
      | none => .error .economics
      | some decisions => .ok (economic decisions family)

def verdict (features : BookFeatures) (inventory : Option ScalpInventory) (now : Instant) :
    Except Fault Verdict :=
  match inventory with
  | some owned => if 0 < owned.quantity then .ok (held config features owned now)
    else flat config evaluate features now
  | none => flat config evaluate features now

def decide (features : BookFeatures) (inventory : Option ScalpInventory) (now : Instant) :
    Except Fault ScalpSignal :=
  if features.symbol ∉ config.symbols then .error .unconfigured
  else if now * 1000 < features.asOfNs ∨ now < features.quote.receivedAtNs / 1000 then .error .future
  else if inventory.any fun owned => owned.symbol ≠ features.symbol ∨ now < owned.openedAt then
    .error .foreignInventory
  else do
    let v ← verdict config evaluate features inventory now
    return ⟨features.symbol, now, v.action, v.family, v.reasons, features.quote, v.economics⟩

end ScalpStrategy

end TradeAgent.Simulation
