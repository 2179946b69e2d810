import Mathlib.Algebra.Order.Ring.Rat
import TradeAgent.Library.Rounding

/-! Order, bar and fill records shared by the paper broker and the order engines.
Amounts are exact rationals. A validated record carries its field constraints. -/
namespace TradeAgent

/-- UTC time in microseconds; aware datetimes compare as these numbers. -/
abbrev Instant := ℤ

def second : Instant := 1000000
def minute : Instant := 60 * second
def day : Instant := 86400 * second

/-- Calendar day of a UTC timestamp. -/
def date (at_ : Instant) : ℤ := at_ / day

/-- The precision of the decimal context every product and quotient is rounded to. -/
def context (x : ℚ) : ℚ := Rounding.significant 28 x

theorem context_mono {x y : ℚ} (nonneg : 0 ≤ x) (le : x ≤ y) : context x ≤ context y :=
  Rounding.significant_mono (by decide) nonneg le

inductive Side where
  | buy | sell
  deriving DecidableEq, Repr

inductive OrderType where
  | market | limit
  deriving DecidableEq, Repr

structure MarketBar where
  symbol : String
  timestamp : Instant
  openPrice : ℚ
  high : ℚ
  low : ℚ
  close : ℚ
  volume : ℚ
  openPositive : 0 < openPrice
  closePositive : 0 < close
  lowPositive : 0 < low
  volumeNonneg : 0 ≤ volume
  highest : max openPrice close ≤ high
  lowest : low ≤ min openPrice close

/-! What a flat bar at a hundred keeps, for the sample bars. -/

theorem hundred_pos : (0 : ℚ) < 100 := by norm_num

theorem hundred_highest : max (100 : ℚ) 100 ≤ 100 := by norm_num

theorem hundred_lowest : (100 : ℚ) ≤ min 100 100 := by norm_num

theorem million_nonneg : (0 : ℚ) ≤ 1000000 := by norm_num

structure OrderRequest where
  clientOrderId : String
  symbol : String
  side : Side
  quantity : ℚ
  orderType : OrderType := .market
  submittedAt : Instant
  quantityPositive : 0 < quantity

structure Fill where
  clientOrderId : String
  symbol : String
  side : Side
  quantity : ℚ
  price : ℚ
  commission : ℚ
  filledAt : Instant
  quantityPositive : 0 < quantity
  pricePositive : 0 < price
  commissionNonneg : 0 ≤ commission

structure Position where
  symbol : String
  quantity : ℚ
  averagePrice : ℚ
  marketPrice : ℚ
  realizedPnl : ℚ
  averagePriceNonneg : 0 ≤ averagePrice
  marketPricePositive : 0 < marketPrice

def Position.marketValue (p : Position) : ℚ := p.quantity * p.marketPrice

structure AccountSnapshot where
  asOf : Instant
  cash : ℚ
  equity : ℚ
  dayStartEquity : ℚ
  highWatermark : ℚ
  positions : List Position
  equityPositive : 0 < equity
  dayStartPositive : 0 < dayStartEquity
  highWatermarkPositive : 0 < highWatermark

namespace AccountSnapshot

def positionFor (a : AccountSnapshot) (symbol : String) : Option Position :=
  a.positions.find? fun p => p.symbol = symbol

/-- The quantity of a symbol's position, zero when there is none. -/
def quantityOf (a : AccountSnapshot) (symbol : String) : ℚ :=
  ((a.positionFor symbol).map Position.quantity).getD 0

def grossExposure (a : AccountSnapshot) : ℚ := (a.positions.map fun p => |p.marketValue|).sum

def dailyReturn (a : AccountSnapshot) : ℚ := a.equity / a.dayStartEquity - 1

def drawdown (a : AccountSnapshot) : ℚ := a.equity / a.highWatermark - 1

end AccountSnapshot

structure PaperPositionState where
  symbol : String
  quantity : ℚ
  averagePrice : ℚ
  realizedPnl : ℚ
  entryCommission : ℚ
  averagePriceNonneg : 0 ≤ averagePrice
  entryCommissionNonneg : 0 ≤ entryCommission

end TradeAgent
