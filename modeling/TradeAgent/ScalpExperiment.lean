import TradeAgent.Domain
import Mathlib.Algebra.Order.Floor.Ring
import Mathlib.Algebra.Order.Field.Rat
import Mathlib.Data.Rat.Lemmas

/-! The size of a bounded paper experiment: its limit price rounded to the price grid, and a
quantity whose part left after the fees lies on the quantity grid. -/
namespace TradeAgent.Scalp.Experiment

structure ScalpQuote where
  symbol : String
  exchangeAt : Instant
  receivedAt : Instant
  bid : ℚ
  ask : ℚ
  bidSize : ℚ
  askSize : ℚ
  bidPositive : 0 < bid
  askPositive : 0 < ask
  bidSizeNonneg : 0 ≤ bidSize
  askSizeNonneg : 0 ≤ askSize
  uncrossed : bid ≤ ask
  ordered : exchangeAt ≤ receivedAt

structure PaperCryptoAsset where
  minOrderSize : ℚ
  minTradeIncrement : ℚ
  priceIncrement : ℚ
  sizePositive : 0 < minOrderSize
  incrementPositive : 0 < minTradeIncrement
  pricePositive : 0 < priceIncrement

structure Fees where
  makerFeeBps : ℚ
  takerFeeBps : ℚ
  makerNonneg : 0 ≤ makerFeeBps
  takerNonneg : 0 ≤ takerFeeBps

inductive EntryStyle where
  | passiveLimit | marketableLimit
  deriving DecidableEq, Repr

/-- A policy of either kind; a probe has neither a price cap nor a minimum notional. -/
structure Policy where
  symbols : List String
  entryStyle : EntryStyle := .passiveLimit
  maximumPriceCapBps : ℚ := 0
  brokerMinimumOrderNotionalUsd : ℚ := 0
  exitNotionalBufferBps : ℚ := 0
  maxOrderNotionalUsd : ℚ
  maxQuoteAge : Instant
  scheduleIntervalSeconds : ℤ
  authorizationCutoff : Instant
  capNonneg : 0 ≤ maximumPriceCapBps
  minimumNonneg : 0 ≤ brokerMinimumOrderNotionalUsd
  bufferNonneg : 0 ≤ exitNotionalBufferBps
  maximumPositive : 0 < maxOrderNotionalUsd
  intervalPositive : 0 < scheduleIntervalSeconds

inductive ExperimentError where
  | divisionByZero | retention | lease
  deriving DecidableEq, Repr

def ExperimentError.text : ExperimentError → String
  | .divisionByZero => "division by zero"
  | .retention => "paper experiment fee retention must be within (0, 1]"
  | .lease => "current fresh global event-worker lease required"

def divide (x y : ℚ) : Except ExperimentError ℚ :=
  if y = 0 then .error .divisionByZero else .ok (x / y)

def quoteValid (quote : ScalpQuote) (now maximumAge : Instant) : Bool :=
  decide (0 < quote.bid) && decide (quote.bid ≤ quote.ask) && decide (0 < quote.bidSize) &&
    decide (0 < quote.askSize) && decide (quote.exchangeAt ≤ quote.receivedAt) &&
    decide (quote.receivedAt ≤ now) && decide (now - quote.exchangeAt ≤ maximumAge)

def maximumPrice (policy : Policy) (quote : ScalpQuote) : ℚ :=
  quote.ask * (1 + policy.maximumPriceCapBps / 10000)

/-- The price that is rounded down to the price grid. -/
def referencePrice (policy : Policy) (quote : ScalpQuote) : ℚ :=
  match policy.entryStyle with
  | .marketableLimit => maximumPrice policy quote
  | .passiveLimit => quote.bid

def limitPrice (policy : Policy) (quote : ScalpQuote) (asset : PaperCryptoAsset) :
    Except ExperimentError ℚ := do
  let units ← divide (referencePrice policy quote) asset.priceIncrement
  return Rounding.toIntegral .floor units * asset.priceIncrement

/-- What the fees leave of a bought quantity. -/
def retention (fees : Fees) : ℚ := 1 - max fees.makerFeeBps fees.takerFeeBps / 10000

def minimumRetainedNotional (policy : Policy) : ℚ :=
  policy.brokerMinimumOrderNotionalUsd * (1 + policy.exitNotionalBufferBps / 10000)

/-- The quantity in trade increments: a multiple of the retention's denominator. -/
def quantityUnits (policy : Policy) (asset : PaperCryptoAsset) (retention price : ℚ) :
    Except ExperimentError ℤ :=
  if 0 < minimumRetainedNotional policy then do
    let x ← divide (minimumRetainedNotional policy) retention
    let x ← divide x price
    let x ← divide x asset.minTradeIncrement
    let x ← divide (Rounding.toIntegral .ceiling x) retention.den
    return Rounding.toIntegral .ceiling x * retention.den
  else do
    let x ← divide policy.maxOrderNotionalUsd price
    let x ← divide x asset.minTradeIncrement
    let x ← divide (Rounding.toIntegral .floor x) retention.den
    return Rounding.toIntegral .down x * retention.den

/-- An experiment's order and the schedule slot that names its decision. -/
structure Sized where
  price : ℚ
  quantity : ℚ
  scheduleSlot : ℤ
  deriving DecidableEq

/-- What the reserving transaction finds: its lease, an active cycle, or its own cycle. -/
structure Account where
  leased : Bool
  activeCycle : Bool
  knownCycle : Bool

/-- The order that a submission reserves, if it reserves one. -/
def submitPaperExperiment (fees : Fees) (policy : Policy) (quote : ScalpQuote)
    (asset : PaperCryptoAsset) (account : Account) (now : Instant) :
    Except ExperimentError (Option Sized) := do
  if policy.authorizationCutoff ≤ now ∨ quote.symbol ∉ policy.symbols then return none
  else if !quoteValid quote now policy.maxQuoteAge then return none
  else
    let price ← limitPrice policy quote asset
    if policy.entryStyle = .marketableLimit ∧ maximumPrice policy quote < price then return none
    else if ¬ (0 < retention fees ∧ retention fees ≤ 1) then .error .retention
    else
      let units ← quantityUnits policy asset (retention fees) price
      let quantity := units * asset.minTradeIncrement
      if quantity < asset.minOrderSize ∨ policy.maxOrderNotionalUsd < quantity * price then return none
      else
        let slot := now.tdiv second / policy.scheduleIntervalSeconds
        if !account.leased then .error .lease
        else if account.activeCycle || account.knownCycle then return none
        else return some ⟨price, quantity, slot⟩

/-- An order whose retained part can be sold again. -/
structure Sellable (fees : Fees) (policy : Policy) (asset : PaperCryptoAsset) (order : Sized) : Prop where
  priced : 0 < order.price
  grid : ∃ n : ℤ, order.quantity * retention fees = n * asset.minTradeIncrement
  size : asset.minOrderSize ≤ order.quantity * retention fees
  notional : minimumRetainedNotional policy ≤ order.quantity * retention fees * order.price
  capped : order.quantity * order.price ≤ policy.maxOrderNotionalUsd

/-- No division by zero, and every order that is reserved can be sold again. -/
def SizesWell (fees : Fees) (policy : Policy) (quote : ScalpQuote) (asset : PaperCryptoAsset)
    (account : Account) (now : Instant) : Prop :=
  let result := submitPaperExperiment fees policy quote asset account now
  result ≠ .error .divisionByZero ∧
    ∀ order, result = .ok (some order) → Sellable fees policy asset order

/-- The rounded price in closed form. -/
def gridPrice (policy : Policy) (quote : ScalpQuote) (asset : PaperCryptoAsset) : ℚ :=
  ⌊referencePrice policy quote / asset.priceIncrement⌋ * asset.priceIncrement

/-- How many lots are requested, each of so many increments that its retained part lies on the grid:
the fewest that reach the minimum notional, or without one the most that stay below the cap. -/
def lots (fees : Fees) (policy : Policy) (asset : PaperCryptoAsset) (price : ℚ) : ℤ :=
  let lot := (retention fees).den * asset.minTradeIncrement
  if 0 < minimumRetainedNotional policy then
    ⌈minimumRetainedNotional policy / (retention fees * price * lot)⌉
  else ⌊policy.maxOrderNotionalUsd / (price * lot)⌋

/-- The checks before the price. -/
structure Accepted (policy : Policy) (quote : ScalpQuote) (now : Instant) : Prop where
  before : now < policy.authorizationCutoff
  symbol : quote.symbol ∈ policy.symbols
  valid : quoteValid quote now policy.maxQuoteAge

/-- When an accepted quote is sized well: the price grid is not coarser than the price, and the
minimum order size does not fall between the retained and the requested part of the lots. -/
structure Sizeable (fees : Fees) (policy : Policy) (quote : ScalpQuote) (asset : PaperCryptoAsset)
    (account : Account) : Prop where
  grid : asset.priceIncrement ≤ referencePrice policy quote
  size : account.leased → account.activeCycle = false → account.knownCycle = false →
    let price := gridPrice policy quote asset
    let lots := lots fees policy asset price
    let requested := lots * (retention fees).den * asset.minTradeIncrement
    let retained := lots * (retention fees).num * asset.minTradeIncrement
    asset.minOrderSize ≤ requested → requested * price ≤ policy.maxOrderNotionalUsd →
      asset.minOrderSize ≤ retained

section sizing

variable {fees : Fees} {policy : Policy} {quote : ScalpQuote} {asset : PaperCryptoAsset} {price : ℚ}

theorem divide_ok {x y : ℚ} (nonzero : y ≠ 0) : divide x y = .ok (x / y) := if_neg nonzero

theorem referencePrice_pos (policy : Policy) (quote : ScalpQuote) : 0 < referencePrice policy quote := by
  unfold referencePrice maximumPrice
  split
  next =>
    have := policy.capNonneg
    have := quote.askPositive
    positivity
  next => exact quote.bidPositive

theorem retention_le_one (fees : Fees) : retention fees ≤ 1 := by
  have largest : 0 ≤ max fees.makerFeeBps fees.takerFeeBps := fees.makerNonneg.trans (le_max_left _ _)
  unfold retention
  linarith

theorem limitPrice_eq : limitPrice policy quote asset = .ok (gridPrice policy quote asset) := by
  unfold limitPrice
  rw [divide_ok asset.pricePositive.ne']
  rfl

theorem gridPrice_nonneg : 0 ≤ gridPrice policy quote asset := by
  have units : 0 ≤ ⌊referencePrice policy quote / asset.priceIncrement⌋ :=
    Int.floor_nonneg.mpr (div_nonneg (referencePrice_pos policy quote).le asset.pricePositive.le)
  exact mul_nonneg (by exact_mod_cast units) asset.pricePositive.le

theorem gridPrice_pos_iff :
    0 < gridPrice policy quote asset ↔ asset.priceIncrement ≤ referencePrice policy quote := by
  rw [gridPrice, mul_pos_iff_of_pos_right asset.pricePositive, Int.cast_pos, Int.floor_pos,
    one_le_div asset.pricePositive]

theorem gridPrice_le : gridPrice policy quote asset ≤ referencePrice policy quote := by
  rw [gridPrice, ← le_div_iff₀ asset.pricePositive]
  exact Int.floor_le _

/-- Rounding up in two steps, to the grid and then to whole lots, is rounding up once. -/
theorem ceil_ceil_div (x : ℚ) (n : ℕ) : ⌈(⌈x⌉ : ℚ) / n⌉ = ⌈x / n⌉ := by
  have down : ⌊(⌊-x⌋ : ℚ) / n⌋ = ⌊-x / n⌋ := by
    rw [Int.floor_div_natCast, Int.floor_div_natCast, Int.floor_intCast]
  rw [← neg_inj, ← Int.floor_neg, ← Int.floor_neg, ← neg_div, ← neg_div, ← down, Int.floor_neg]
  push_cast
  rfl

theorem floor_floor_div (x : ℚ) (n : ℕ) : ⌊(⌊x⌋ : ℚ) / n⌋ = ⌊x / n⌋ := by
  rw [Int.floor_div_natCast, Int.floor_div_natCast, Int.floor_intCast]

theorem quantityUnits_zero (kept : 0 < retention fees) :
    quantityUnits policy asset (retention fees) 0 = .error .divisionByZero := by
  unfold quantityUnits
  split
  next => rw [divide_ok kept.ne']; rfl
  next => rfl

/-- The code's two roundings give whole lots. -/
theorem quantityUnits_eq (kept : 0 < retention fees) (priced : 0 < price) :
    quantityUnits policy asset (retention fees) price =
      .ok (lots fees policy asset price * (retention fees).den) := by
  have den : ((retention fees).den : ℚ) ≠ 0 := by exact_mod_cast (retention fees).den_ne_zero
  unfold quantityUnits lots
  split
  next minimum =>
    have flat : minimumRetainedNotional policy / retention fees / price / asset.minTradeIncrement /
        (retention fees).den = minimumRetainedNotional policy /
          (retention fees * price * ((retention fees).den * asset.minTradeIncrement)) := by
      rw [div_div, div_div, div_div]
      congr 1
      ring
    simp only [divide_ok kept.ne', divide_ok priced.ne', divide_ok asset.incrementPositive.ne',
      divide_ok den, bind, Except.bind, pure, Except.pure, Rounding.toIntegral, ceil_ceil_div, flat]
  next =>
    have flat : policy.maxOrderNotionalUsd / price / asset.minTradeIncrement / (retention fees).den =
        policy.maxOrderNotionalUsd / (price * ((retention fees).den * asset.minTradeIncrement)) := by
      rw [div_div, div_div]
      congr 1
      ring
    have units : 0 ≤ ⌊policy.maxOrderNotionalUsd / price / asset.minTradeIncrement⌋ := by
      have := policy.maximumPositive
      have := asset.incrementPositive
      apply Int.floor_nonneg.mpr
      positivity
    have whole : 0 ≤ (⌊policy.maxOrderNotionalUsd / price / asset.minTradeIncrement⌋ : ℚ) /
        (retention fees).den := div_nonneg (by exact_mod_cast units) (Nat.cast_nonneg _)
    simp only [divide_ok priced.ne', divide_ok asset.incrementPositive.ne', divide_ok den, bind,
      Except.bind, pure, Except.pure, Rounding.toIntegral, if_pos whole, floor_floor_div, flat]

/-- The quantity of the lots, in trade increments of the asset. -/
def requested (fees : Fees) (policy : Policy) (quote : ScalpQuote) (asset : PaperCryptoAsset) : ℚ :=
  lots fees policy asset (gridPrice policy quote asset) * (retention fees).den * asset.minTradeIncrement

/-- What a submission does once its quote is accepted and its price is on the grid. -/
def reserveRequested (fees : Fees) (policy : Policy) (quote : ScalpQuote) (asset : PaperCryptoAsset)
    (account : Account) (now : Instant) : Except ExperimentError (Option Sized) :=
  let price := gridPrice policy quote asset
  let quantity := requested fees policy quote asset
  if quantity < asset.minOrderSize ∨ policy.maxOrderNotionalUsd < quantity * price then .ok none
  else if !account.leased then .error .lease
  else if account.activeCycle || account.knownCycle then .ok none
  else .ok (some ⟨price, quantity, now.tdiv second / policy.scheduleIntervalSeconds⟩)

variable {account : Account} {now : Instant}

theorem submit_refused (refused : ¬ Accepted policy quote now) :
    submitPaperExperiment fees policy quote asset account now = .ok none := by
  unfold submitPaperExperiment
  split
  next => rfl
  next inside =>
    split
    next => rfl
    next valid =>
      rw [not_or, not_le, not_not] at inside
      exact absurd ⟨inside.1, inside.2, by simpa using valid⟩ refused

theorem submit_accepted (accepted : Accepted policy quote now) :
    submitPaperExperiment fees policy quote asset account now =
      if ¬ (0 < retention fees ∧ retention fees ≤ 1) then .error .retention
      else if gridPrice policy quote asset = 0 then .error .divisionByZero
      else reserveRequested fees policy quote asset account now := by
  unfold submitPaperExperiment
  rw [if_neg (not_or.mpr ⟨not_le.mpr accepted.before, not_not.mpr accepted.symbol⟩),
    if_neg (by simp [accepted.valid]), limitPrice_eq]
  simp only [bind, Except.bind]
  have capped : ¬ (policy.entryStyle = .marketableLimit ∧
      maximumPrice policy quote < gridPrice policy quote asset) := by
    rintro ⟨marketable, above⟩
    have below : gridPrice policy quote asset ≤ referencePrice policy quote := gridPrice_le
    rw [referencePrice, marketable] at below
    exact absurd above (not_lt.mpr below)
  rw [if_neg capped]
  split
  next => rfl
  next kept =>
    replace kept := (not_not.mp kept).1
    by_cases zero : gridPrice policy quote asset = 0
    · rw [zero, quantityUnits_zero kept, if_pos rfl]
    · rw [quantityUnits_eq kept (lt_of_le_of_ne gridPrice_nonneg (Ne.symm zero)), if_neg zero]
      simp only [reserveRequested, requested, Int.cast_mul, Int.cast_natCast]
      rfl

/-- What a submission that reserves an order has found. -/
structure Reserves (policy : Policy) (quote : ScalpQuote) (account : Account) (now : Instant)
    (order : Sized) : Prop where
  accepted : Accepted policy quote now
  leased : account.leased = true
  inactive : account.activeCycle = false
  unknown : account.knownCycle = false
  positive : 0 < order.quantity

theorem submit_reserves {order : Sized}
    (reserved : submitPaperExperiment fees policy quote asset account now = .ok (some order)) :
    Reserves policy quote account now order := by
  by_cases accepted : Accepted policy quote now
  · rw [submit_accepted accepted] at reserved
    unfold reserveRequested at reserved
    dsimp only at reserved
    split at reserved
    next => cases reserved
    next =>
      split at reserved
      next => cases reserved
      next =>
        split at reserved
        next => cases reserved
        next fits =>
          split at reserved
          next => cases reserved
          next leased =>
            split at reserved
            next => cases reserved
            next free =>
              cases reserved
              simp only [Bool.or_eq_true, not_or, Bool.not_eq_true] at free
              exact ⟨accepted, by simpa using leased, free.1, free.2,
                asset.sizePositive.trans_le (not_lt.mp (not_or.mp fits).1)⟩
  · rw [submit_refused accepted] at reserved
    cases reserved

theorem submit_positive {order : Sized}
    (reserved : submitPaperExperiment fees policy quote asset account now = .ok (some order)) :
    0 < order.quantity := (submit_reserves reserved).positive

theorem requested_retained : requested fees policy quote asset * retention fees =
    lots fees policy asset (gridPrice policy quote asset) * (retention fees).num *
      asset.minTradeIncrement := by
  have den : ((retention fees).den : ℚ) ≠ 0 := by exact_mod_cast (retention fees).den_ne_zero
  have ratio : ((retention fees).den : ℚ) * retention fees = (retention fees).num := by
    rw [mul_comm, Rat.mul_den_eq_num]
  rw [requested, ← ratio]
  ring

/-- The retained part of the lots is worth the minimum notional. -/
theorem requested_notional (kept : 0 < retention fees) (priced : 0 < gridPrice policy quote asset)
    (sized : 0 ≤ requested fees policy quote asset) : minimumRetainedNotional policy ≤
      requested fees policy quote asset * retention fees * gridPrice policy quote asset := by
  by_cases minimum : 0 < minimumRetainedNotional policy
  · have lot : (0 : ℚ) < (retention fees).den * asset.minTradeIncrement :=
      mul_pos (by exact_mod_cast (retention fees).den_pos) asset.incrementPositive
    have enough := Int.le_ceil (minimumRetainedNotional policy /
      (retention fees * gridPrice policy quote asset * ((retention fees).den * asset.minTradeIncrement)))
    rw [div_le_iff₀ (mul_pos (mul_pos kept priced) lot)] at enough
    rw [requested, lots, if_pos minimum]
    refine enough.trans_eq ?_
    ring
  · exact (not_lt.mp minimum).trans (mul_nonneg (mul_nonneg sized kept.le) priced.le)

end sizing

/-- A submission sizes its order well exactly when its quote is refused, its retention is none, or the
price grid is not coarser than its price and the minimum order size does not fall between the retained
and the requested quantity of its lots. -/
theorem submit_sizesWell_iff (fees : Fees) (policy : Policy) (quote : ScalpQuote)
    (asset : PaperCryptoAsset) (account : Account) (now : Instant) :
    SizesWell fees policy quote asset account now ↔
      (Accepted policy quote now → 0 < retention fees → Sizeable fees policy quote asset account) := by
  constructor
  · rintro ⟨undivided, sellable⟩ accepted kept
    have price : gridPrice policy quote asset ≠ 0 := by
      intro zero
      apply undivided
      rw [submit_accepted accepted, if_neg (not_not.mpr ⟨kept, retention_le_one fees⟩), if_pos zero]
    rw [submit_accepted accepted, if_neg (not_not.mpr ⟨kept, retention_le_one fees⟩), if_neg price] at sellable
    constructor
    · exact gridPrice_pos_iff.mp (lt_of_le_of_ne gridPrice_nonneg price.symm)
    · intro leased inactive unknown price lots requested' retained size capped
      replace size : asset.minOrderSize ≤ requested fees policy quote asset := size
      replace capped : requested fees policy quote asset * gridPrice policy quote asset ≤
        policy.maxOrderNotionalUsd := capped
      have reserved := (sellable ⟨gridPrice policy quote asset, requested fees policy quote asset,
        now.tdiv second / policy.scheduleIntervalSeconds⟩ ?_).size
      · rw [requested_retained] at reserved
        exact reserved
      · rw [reserveRequested, if_neg (not_or.mpr ⟨not_lt.mpr size, not_lt.mpr capped⟩)]
        simp [leased, inactive, unknown]
  · intro sizeable
    by_cases accepted : Accepted policy quote now
    · unfold SizesWell
      rw [submit_accepted accepted]
      split
      next => simp
      next kept =>
        replace kept := (not_not.mp kept).1
        obtain ⟨grid, size⟩ := sizeable accepted kept
        have priced : 0 < gridPrice policy quote asset := gridPrice_pos_iff.mpr grid
        rw [if_neg priced.ne']
        unfold reserveRequested
        dsimp only
        split
        next => simp
        next fits =>
          obtain ⟨large, capped⟩ := not_or.mp fits
          rw [not_lt] at large capped
          split
          next => simp
          next leased =>
            split
            next => simp
            next free =>
              refine ⟨by simp, fun order reserved => ?_⟩
              obtain rfl := Option.some.inj (Except.ok.inj reserved)
              simp only [Bool.or_eq_true, not_or, Bool.not_eq_true] at free
              have retained := size (by simpa using leased) free.1 free.2 large capped
              rw [← requested_retained] at retained
              constructor
              · exact priced
              · exact ⟨lots fees policy asset (gridPrice policy quote asset) * (retention fees).num, by
                  rw [requested_retained]
                  push_cast
                  rfl⟩
              · exact retained
              · exact requested_notional kept priced (asset.sizePositive.le.trans large)
              · exact capped
    · unfold SizesWell
      rw [submit_refused accepted]
      simp

def defaultFees : Fees := ⟨15, 25, by decide, by decide⟩

/-- The policy of the paper experiments, with its defaults. -/
def defaultPolicy : Policy where
  symbols := ["BTC/USD"]
  entryStyle := .marketableLimit
  maximumPriceCapBps := 2
  brokerMinimumOrderNotionalUsd := 10
  exitNotionalBufferBps := 50
  maxOrderNotionalUsd := 41 / 4
  maxQuoteAge := 2 * second
  scheduleIntervalSeconds := 60
  authorizationCutoff := 100 * second
  capNonneg := by decide
  minimumNonneg := by decide
  bufferNonneg := by decide
  maximumPositive := by decide +kernel
  intervalPositive := by decide

def quoteAt (ask : ℚ) (positive : 0 < ask) : ScalpQuote where
  symbol := "BTC/USD"
  exchangeAt := 0
  receivedAt := 0
  bid := ask
  ask := ask
  bidSize := 1
  askSize := 1
  bidPositive := positive
  askPositive := positive
  bidSizeNonneg := by decide
  askSizeNonneg := by decide
  uncrossed := le_rfl
  ordered := le_rfl

/-- A price grid of one dollar at a price of half a dollar: the price rounds to zero. -/
theorem submit_divides_by_zero : ¬ SizesWell defaultFees defaultPolicy
    (quoteAt (1 / 2) (by decide +kernel)) ⟨1 / 10000, 1 / 10000, 1, by decide +kernel, by decide +kernel, by decide⟩
    ⟨true, false, false⟩ 0 := by
  rintro ⟨undivided, -⟩
  apply undivided
  decide +kernel

/-- A minimum order size that the order meets and its retained part does not. -/
example : ∃ order, submitPaperExperiment defaultFees defaultPolicy (quoteAt 100 (by decide))
    ⟨1007 / 10000, 1 / 1000000, 1 / 100, by decide +kernel, by decide +kernel, by decide +kernel⟩
    ⟨true, false, false⟩ 0 = .ok (some order) ∧ order.quantity * retention defaultFees < 1007 / 10000 :=
  ⟨⟨10002 / 100, 1008 / 10000, 0⟩, by decide +kernel, by decide +kernel⟩

end TradeAgent.Scalp.Experiment
