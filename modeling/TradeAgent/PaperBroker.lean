import Mathlib.Tactic.Ring
import TradeAgent.Domain
import TradeAgent.Library.Dict
import TradeAgent.Library.Rounding

/-! The deterministic paper broker: costs, slippage and idempotent orders over
exact rationals. A rejected `submit` returns the broker it leaves behind, since the
source may have created an empty position before it raises. -/
namespace TradeAgent.Paper

open Rounding

structure BrokerConfig where
  startingCash : ℚ
  slippageBps : ℚ
  spreadBps : ℚ
  commissionBps : ℚ
  maxVolumeParticipation : ℚ
  startingCashPositive : 0 < startingCash
  slippageRange : 0 ≤ slippageBps ∧ slippageBps ≤ 100
  spreadRange : 0 ≤ spreadBps ∧ spreadBps ≤ 100
  commissionRange : 0 ≤ commissionBps ∧ commissionBps ≤ 100
  participationRange : 0 < maxVolumeParticipation ∧ maxVolumeParticipation ≤ 1

/-! The ranges of a sample broker: two points of slippage, one of spread and of commission. -/

theorem sampleCash_pos : (0 : ℚ) < 100000 := by norm_num

theorem sampleSlippage_range : (0 : ℚ) ≤ 2 ∧ (2 : ℚ) ≤ 100 := by norm_num

theorem samplePoint_range : (0 : ℚ) ≤ 1 ∧ (1 : ℚ) ≤ 100 := by norm_num

theorem samplePercent_range : (0 : ℚ) < 1 / 100 ∧ (1 / 100 : ℚ) ≤ 1 := by norm_num

def moneyQuantum : ℚ := 1 / 10000
def priceQuantum : ℚ := 1 / 1000000

def money (value : ℚ) : ℚ := quantize .halfUp moneyQuantum value

structure PositionState where
  quantity : ℚ := 0
  averagePrice : ℚ := 0
  realizedPnl : ℚ := 0
  entryCommission : ℚ := 0

structure PaperBroker where
  config : BrokerConfig
  cash : ℚ
  positions : Dict String PositionState
  marks : Dict String ℚ
  fills : Dict String Fill
  sessionDate : Option ℤ
  dayStartEquity : ℚ
  highWatermark : ℚ

def init (config : BrokerConfig) : PaperBroker where
  config := config
  cash := config.startingCash
  positions := .empty
  marks := .empty
  fills := .empty
  sessionDate := none
  dayStartEquity := config.startingCash
  highWatermark := config.startingCash

structure PaperBrokerState where
  cash : ℚ
  positions : List PaperPositionState
  marks : Dict String ℚ
  fills : List Fill
  sessionDate : Option ℤ
  dayStartEquity : ℚ
  highWatermark : ℚ
  dayStartPositive : 0 < dayStartEquity
  highWatermarkPositive : 0 < highWatermark

inductive BrokerError where
  | limitOrder | symbolMismatch | createsShort | illiquidBar | insufficientCash | invalidRecord
  deriving DecidableEq, Repr

/-- The text each error carries; `invalidRecord` stands for a model validation error. -/
def BrokerError.text : BrokerError → String
  | .limitOrder => "bar-only broker cannot infer limit fills from OHLC touches"
  | .symbolMismatch => "order symbol does not match execution bar"
  | .createsShort => "paper broker rejected order that would create a short"
  | .illiquidBar => "paper broker rejected order for insufficient bar liquidity"
  | .insufficientCash => "paper broker rejected order for insufficient cash"
  | .invalidRecord => "validation error"

def sortedPositions (b : PaperBroker) : List (String × PositionState) :=
  b.positions.entries.mergeSort fun x y => decide (x.1 ≤ y.1)

def restorePosition (p : PaperPositionState) : PositionState :=
  ⟨p.quantity, p.averagePrice, p.realizedPnl, p.entryCommission⟩

def fromState (config : BrokerConfig) (state : PaperBrokerState) : PaperBroker where
  config := config
  cash := state.cash
  positions := .ofList (state.positions.map fun p => (p.symbol, restorePosition p))
  marks := state.marks
  fills := .ofList (state.fills.map fun fill => (fill.clientOrderId, fill))
  sessionDate := state.sessionDate
  dayStartEquity := state.dayStartEquity
  highWatermark := state.highWatermark

def exportPosition (symbol : String) (p : PositionState) : Except BrokerError PaperPositionState :=
  if valid : 0 ≤ p.averagePrice ∧ 0 ≤ p.entryCommission then
    .ok ⟨symbol, p.quantity, p.averagePrice, p.realizedPnl, p.entryCommission, valid.1, valid.2⟩
  else .error .invalidRecord

def exportState (b : PaperBroker) : Except BrokerError PaperBrokerState := do
  let positions ← (sortedPositions b).mapM fun e => exportPosition e.1 e.2
  if valid : 0 < b.dayStartEquity ∧ 0 < b.highWatermark then
    .ok ⟨b.cash, positions, b.marks, b.fills.values, b.sessionDate, b.dayStartEquity,
      b.highWatermark, valid.1, valid.2⟩
  else .error .invalidRecord

def calculateEquity (b : PaperBroker) : ℚ :=
  b.cash + (b.positions.entries.map fun e =>
    e.2.quantity * b.marks.getD e.1 e.2.averagePrice).sum

def mark (b : PaperBroker) (bar : MarketBar) : PaperBroker :=
  let priorEquity := calculateEquity b
  let b := if b.sessionDate ≠ some (date bar.timestamp) then
      { b with sessionDate := some (date bar.timestamp), dayStartEquity := priorEquity }
    else b
  let b := { b with marks := b.marks.set bar.symbol bar.close }
  { b with highWatermark := max b.highWatermark (calculateEquity b) }

def fillPrice (config : BrokerConfig) (side : Side) (bar : MarketBar) : ℚ :=
  let slip := config.slippageBps / 10000
  let halfSpread := config.spreadBps / 20000
  let executionCost := slip + halfSpread
  let multiplier := match side with
    | .buy => 1 + executionCost
    | .sell => 1 - executionCost
  quantize .halfUp priceQuantum (bar.close * multiplier)

def availableQuantity (config : BrokerConfig) (bar : MarketBar) : ℚ :=
  toIntegral .down (bar.volume * config.maxVolumeParticipation)

def commissionOn (config : BrokerConfig) (notional : ℚ) : ℚ :=
  money (notional * config.commissionBps / 10000)

def PositionState.buy (p : PositionState) (price quantity commission : ℚ) : PositionState :=
  let newQuantity := p.quantity + quantity
  { p with
    averagePrice := (p.quantity * p.averagePrice + price * quantity) / newQuantity
    quantity := newQuantity
    entryCommission := p.entryCommission + commission }

def PositionState.sell (p : PositionState) (price quantity commission : ℚ) : PositionState :=
  let allocated := p.entryCommission * quantity / p.quantity
  let sold := { p with
    realizedPnl := p.realizedPnl + ((price - p.averagePrice) * quantity - commission - allocated)
    entryCommission := p.entryCommission - allocated
    quantity := p.quantity - quantity }
  if sold.quantity = 0 then { sold with averagePrice := 0, entryCommission := 0 } else sold

/-- Recording validates the fill after cash and position have moved. -/
def recordFill (b : PaperBroker) (order : OrderRequest) (bar : MarketBar)
    (quantity price commission : ℚ) : PaperBroker × Except BrokerError Fill :=
  if valid : 0 < quantity ∧ 0 < price ∧ 0 ≤ commission then
    let fill : Fill := ⟨order.clientOrderId, order.symbol, order.side, quantity, price, commission,
      bar.timestamp, valid.1, valid.2.1, valid.2.2⟩
    (mark { b with fills := b.fills.set order.clientOrderId fill } bar, .ok fill)
  else (b, .error .invalidRecord)

/-- The part of `submit` after the order passed the checks on its own shape;
`b` already holds a position record for the symbol. -/
def execute (b : PaperBroker) (order : OrderRequest) (bar : MarketBar) :
    PaperBroker × Except BrokerError Fill :=
  let position := b.positions.getD order.symbol {}
  if order.side = .sell ∧ position.quantity < order.quantity then (b, .error .createsShort)
  else
    let price := fillPrice b.config order.side bar
    let quantity := min order.quantity (availableQuantity b.config bar)
    if quantity ≤ 0 then (b, .error .illiquidBar)
    else
      let notional := price * quantity
      let commission := commissionOn b.config notional
      match order.side with
      | .buy =>
        let requiredCash := notional + commission
        if b.cash < requiredCash then (b, .error .insufficientCash)
        else
          let position := position.buy price quantity commission
          recordFill { b with
            positions := b.positions.set order.symbol position
            cash := b.cash - requiredCash } order bar quantity price commission
      | .sell =>
        let position := position.sell price quantity commission
        recordFill { b with
          positions := b.positions.set order.symbol position
          cash := b.cash + (notional - commission) } order bar quantity price commission

def submit (b : PaperBroker) (order : OrderRequest) (bar : MarketBar) :
    PaperBroker × Except BrokerError Fill :=
  if order.orderType ≠ .market then (b, .error .limitOrder)
  else match b.fills.get? order.clientOrderId with
    | some existing => (b, .ok existing)
    | none =>
      if order.symbol ≠ bar.symbol then (b, .error .symbolMismatch)
      else execute { b with positions := b.positions.setDefault order.symbol {} } order bar

def accountPosition (b : PaperBroker) (symbol : String) (p : PositionState) :
    Option (Except BrokerError Position) :=
  match b.marks.get? symbol with
  | none => none
  | some price =>
    if p.quantity = 0 then none
    else if valid : 0 ≤ p.averagePrice ∧ 0 < price then
      some (.ok ⟨symbol, p.quantity, p.averagePrice, price, p.realizedPnl, valid.1, valid.2⟩)
    else some (.error .invalidRecord)

def snapshot (asOf : Instant) (cash equity dayStart highWatermark : ℚ) (positions : List Position) :
    Except BrokerError AccountSnapshot :=
  if valid : 0 < equity ∧ 0 < dayStart ∧ 0 < highWatermark then
    .ok ⟨asOf, cash, equity, dayStart, highWatermark, positions, valid.1, valid.2.1, valid.2.2⟩
  else .error .invalidRecord

/-- The high watermark moves before the snapshot is validated. -/
def account (b : PaperBroker) (asOf : Instant) : PaperBroker × Except BrokerError AccountSnapshot :=
  match ((sortedPositions b).filterMap fun e => accountPosition b e.1 e.2).mapM id with
  | .error e => (b, .error e)
  | .ok positions =>
    let equity := b.cash + (positions.map Position.marketValue).sum
    let highWatermark := max b.highWatermark equity
    ({ b with highWatermark := highWatermark },
      snapshot asOf (money b.cash) (money equity) (money b.dayStartEquity) (money highWatermark)
        positions)

inductive Op where
  | mark (bar : MarketBar)
  | submit (order : OrderRequest) (bar : MarketBar)
  | account (asOf : Instant)
  | roundTrip

def step (b : PaperBroker) : Op → PaperBroker
  | .mark bar => mark b bar
  | .submit order bar => (submit b order bar).1
  | .account asOf => (account b asOf).1
  | .roundTrip => match exportState b with
    | .ok state => fromState b.config state
    | .error _ => b

def run (config : BrokerConfig) (ops : List Op) : PaperBroker := ops.foldl step (init config)

/-- Cost basis plus the entry commission a position still carries. -/
def PositionState.basis (p : PositionState) : ℚ := p.quantity * p.averagePrice + p.entryCommission

structure PositionState.Sound (p : PositionState) : Prop where
  quantity : 0 ≤ p.quantity
  entryCommission : 0 ≤ p.entryCommission
  flat : p.quantity = 0 → p.averagePrice = 0 ∧ p.entryCommission = 0

/-- Double entry: cash and basis account for the starting cash and what was realized. -/
structure Balanced (b : PaperBroker) : Prop where
  identity : b.cash + b.positions.total PositionState.basis =
    b.config.startingCash + b.positions.total PositionState.realizedPnl
  cash : 0 ≤ b.cash
  sound : ∀ symbol p, b.positions.get? symbol = some p → p.Sound

theorem default_sound : ({} : PositionState).Sound := ⟨le_refl _, le_refl _, fun _ => ⟨rfl, rfl⟩⟩

theorem init_balanced (config : BrokerConfig) : Balanced (init config) where
  identity := by simp [init]
  cash := config.startingCashPositive.le
  sound := by simp [init]

@[simp] theorem mark_config (b : PaperBroker) (bar) : (mark b bar).config = b.config := by
  simp only [mark]; split <;> rfl
@[simp] theorem mark_cash (b : PaperBroker) (bar) : (mark b bar).cash = b.cash := by
  simp only [mark]; split <;> rfl
@[simp] theorem mark_positions (b : PaperBroker) (bar) : (mark b bar).positions = b.positions := by
  simp only [mark]; split <;> rfl

theorem fillPrice_nonneg (config : BrokerConfig) (side : Side) (bar : MarketBar) :
    0 ≤ fillPrice config side bar := by
  have slip := config.slippageRange
  have spread := config.spreadRange
  apply quantize_nonneg _ (by norm_num [priceQuantum])
  apply mul_nonneg bar.closePositive.le
  cases side <;> dsimp only <;> linarith

theorem commissionOn_nonneg (config : BrokerConfig) {notional : ℚ} (nonneg : 0 ≤ notional) :
    0 ≤ commissionOn config notional := by
  have rate := config.commissionRange.1
  exact quantize_nonneg _ (by norm_num [moneyQuantum]) (by positivity)

/-- A commission of at most one percent, rounded to the money quantum, leaves proceeds
nonnegative: rounding up needs half a quantum of exact commission. -/
theorem commissionOn_le (config : BrokerConfig) {notional : ℚ} (nonneg : 0 ≤ notional) :
    commissionOn config notional ≤ notional := by
  have rate := config.commissionRange
  have exact_nonneg : 0 ≤ notional * config.commissionBps / 10000 := by
    have := rate.1; positivity
  have unit : 0 < moneyQuantum := by norm_num [moneyQuantum]
  have rounded := quantize_halfUp_le unit exact_nonneg
  have capped : notional * config.commissionBps ≤ notional * 100 :=
    mul_le_mul_of_nonneg_left rate.2 nonneg
  simp only [commissionOn, money]
  linarith

section Trade

variable {p : PositionState} {price quantity commission : ℚ}

theorem buy_basis (held : 0 ≤ p.quantity) (bought : 0 < quantity) :
    (p.buy price quantity commission).basis = p.basis + price * quantity + commission := by
  have total : p.quantity + quantity ≠ 0 := by linarith
  simp only [PositionState.buy, PositionState.basis]
  field_simp
  ring

theorem buy_sound (sound : p.Sound) (bought : 0 < quantity) (charged : 0 ≤ commission) :
    (p.buy price quantity commission).Sound where
  quantity := add_nonneg sound.quantity bought.le
  entryCommission := add_nonneg sound.entryCommission charged
  flat zero := by
    have zero : p.quantity + quantity = 0 := zero
    have := sound.quantity
    linarith

theorem sell_realized (enough : quantity ≤ p.quantity) (sold : 0 < quantity) :
    (p.sell price quantity commission).basis + (price * quantity - commission) =
      p.basis + ((p.sell price quantity commission).realizedPnl - p.realizedPnl) := by
  have held : p.quantity ≠ 0 := by linarith
  simp only [PositionState.sell]
  split
  next zero =>
    have all : p.quantity = quantity := by linarith
    simp only [PositionState.basis, all]
    field_simp
    ring
  next => simp only [PositionState.basis]; ring

theorem sell_sound (sound : p.Sound) (enough : quantity ≤ p.quantity) (sold : 0 < quantity) :
    (p.sell price quantity commission).Sound := by
  have held : 0 < p.quantity := lt_of_lt_of_le sold enough
  have allocated : p.entryCommission * quantity / p.quantity ≤ p.entryCommission := by
    rw [div_le_iff₀ held]
    exact mul_le_mul_of_nonneg_left enough sound.entryCommission
  simp only [PositionState.sell]
  split
  next => exact ⟨by simpa using enough, le_refl _, fun _ => ⟨rfl, rfl⟩⟩
  next partly =>
    exact ⟨by simpa using enough, by simpa using allocated, fun zero => absurd zero partly⟩

end Trade

theorem Balanced.congr {b c : PaperBroker} (balanced : Balanced b) (config : c.config = b.config)
    (cash : c.cash = b.cash) (positions : c.positions = b.positions) : Balanced c where
  identity := by rw [config, cash, positions]; exact balanced.identity
  cash := by rw [cash]; exact balanced.cash
  sound := by rw [positions]; exact balanced.sound

theorem Balanced.mark {b : PaperBroker} (balanced : Balanced b) (bar : MarketBar) :
    Balanced (mark b bar) :=
  balanced.congr (mark_config b bar) (mark_cash b bar) (mark_positions b bar)

/-- An empty record for a new symbol changes no sum. -/
theorem Balanced.touch {b : PaperBroker} (balanced : Balanced b) (symbol : String) :
    Balanced { b with positions := b.positions.setDefault symbol {} } where
  identity := by
    have basis := b.positions.total_setDefault symbol {} PositionState.basis
      (by simp [PositionState.basis])
    have realized := b.positions.total_setDefault symbol {} PositionState.realizedPnl rfl
    dsimp only
    rw [basis, realized]
    exact balanced.identity
  cash := balanced.cash
  sound other p present := by
    rw [Dict.get?_setDefault] at present
    split at present
    next same =>
      cases old : b.positions.get? symbol with
      | some q => simp [old] at present; subst present; exact balanced.sound _ _ old
      | none => simp [old] at present; subst present; exact default_sound
    next => exact balanced.sound _ _ present

/-- Moving `change` into cash against one position keeps the books balanced when the
position's basis and realized profit account for it. -/
theorem Balanced.trade {b : PaperBroker} (balanced : Balanced b) {symbol : String}
    {p q : PositionState} (present : b.positions.get? symbol = some p) (sound : q.Sound)
    (change : ℚ) (moved : q.basis + change = p.basis + (q.realizedPnl - p.realizedPnl))
    (funded : 0 ≤ b.cash + change) :
    Balanced { b with positions := b.positions.set symbol q, cash := b.cash + change } where
  identity := by
    have identity := balanced.identity
    rw [Dict.total_set_of_get present, Dict.total_set_of_get present]
    dsimp only
    linarith
  cash := funded
  sound other r found := by
    rw [Dict.get?_set] at found
    split at found
    next => cases found; exact sound
    next => exact balanced.sound _ _ found

theorem recordFill_balanced {b : PaperBroker} (balanced : Balanced b) (order bar quantity price commission) :
    Balanced (recordFill b order bar quantity price commission).1 := by
  unfold recordFill
  split
  next =>
    apply Balanced.mark
    exact balanced.congr rfl rfl rfl
  next => exact balanced

theorem execute_balanced {b : PaperBroker} (balanced : Balanced b) (order : OrderRequest)
    (bar : MarketBar) (known : (b.positions.get? order.symbol).isSome) :
    Balanced (execute b order bar).1 := by
  obtain ⟨p, present⟩ := Option.isSome_iff_exists.mp known
  have held : b.positions.getD order.symbol {} = p := by simp [Dict.getD, present]
  have sound := balanced.sound _ _ present
  simp only [execute, held]
  split
  next => exact balanced
  next covered =>
    split
    next => exact balanced
    next liquid =>
      have priced := fillPrice_nonneg b.config order.side bar
      have filled := min_le_left order.quantity (availableQuantity b.config bar)
      generalize fillPrice b.config order.side bar = price at *
      generalize min order.quantity (availableQuantity b.config bar) = quantity at *
      rw [not_le] at liquid
      have notional := mul_nonneg priced liquid.le
      have charged := commissionOn_nonneg b.config notional
      have proceeds := commissionOn_le b.config notional
      generalize commissionOn b.config (price * quantity) = commission at *
      have cash := balanced.cash
      cases side : order.side with
      | buy =>
        dsimp only
        split
        next => exact balanced
        next affordable =>
          apply recordFill_balanced
          rw [sub_eq_add_neg]
          apply balanced.trade present (buy_sound sound liquid charged)
          · rw [buy_basis sound.quantity liquid]; simp [PositionState.buy]
          · linarith
      | sell =>
        have enough : quantity ≤ p.quantity := by
          have uncovered : ¬p.quantity < order.quantity := fun short => covered ⟨side, short⟩
          linarith
        apply recordFill_balanced
        apply balanced.trade present (sell_sound sound enough liquid) _ (sell_realized enough liquid)
        linarith

theorem submit_balanced {b : PaperBroker} (balanced : Balanced b) (order : OrderRequest)
    (bar : MarketBar) : Balanced (submit b order bar).1 := by
  unfold submit
  split
  next => exact balanced
  next =>
    split
    next => exact balanced
    next =>
      split
      next => exact balanced
      next => exact execute_balanced (balanced.touch order.symbol) order bar (by simp [Dict.get?_setDefault])

theorem account_balanced {b : PaperBroker} (balanced : Balanced b) (asOf : Instant) :
    Balanced (account b asOf).1 := by
  unfold account
  split
  next => exact balanced
  next => exact balanced.congr rfl rfl rfl

theorem restore_export {l : List (String × PositionState)} {states : List PaperPositionState}
    (exported : l.mapM (fun e => exportPosition e.1 e.2) = .ok states) :
    states.map (fun p => (p.symbol, restorePosition p)) = l := by
  induction l generalizing states with
  | nil => cases exported; rfl
  | cons e rest ih =>
    rw [List.mapM_cons] at exported
    cases first : exportPosition e.1 e.2 with
    | error => rw [first] at exported; cases exported
    | ok head =>
      cases others : rest.mapM (fun e => exportPosition e.1 e.2) with
      | error => rw [first, others] at exported; cases exported
      | ok tail =>
        rw [first, others] at exported
        cases exported
        unfold exportPosition at first
        split at first
        next =>
          cases first
          simp only [List.map_cons, ih others]
          rfl
        next => cases first

/-- A saved and reloaded broker holds the same positions, in sorted order. -/
theorem fromState_positions {b : PaperBroker} {state : PaperBrokerState}
    (exported : exportState b = .ok state) :
    (fromState b.config state).cash = b.cash ∧
    (fromState b.config state).positions.entries.Perm b.positions.entries := by
  unfold exportState at exported
  cases saved : (sortedPositions b).mapM (fun e => exportPosition e.1 e.2) with
  | error => rw [saved] at exported; cases exported
  | ok positions =>
    rw [saved] at exported
    change (if valid : _ then _ else _) = _ at exported
    split at exported
    next =>
      cases exported
      refine ⟨rfl, ?_⟩
      have sorted : (sortedPositions b).Perm b.positions.entries := List.mergeSort_perm _ _
      have distinct := (sorted.map Prod.fst).nodup_iff.mpr b.positions.distinct
      simp only [fromState, restore_export saved, Dict.ofList_entries distinct]
      exact sorted
    next => cases exported

theorem roundTrip_balanced {b : PaperBroker} (balanced : Balanced b) {state : PaperBrokerState}
    (exported : exportState b = .ok state) : Balanced (fromState b.config state) := by
  obtain ⟨cash, perm⟩ := fromState_positions exported
  constructor
  · rw [cash, Dict.total_perm perm, Dict.total_perm perm]
    exact balanced.identity
  · rw [cash]; exact balanced.cash
  · intro symbol p present
    rw [Dict.get?_perm perm] at present
    exact balanced.sound _ _ present

theorem step_balanced {b : PaperBroker} (balanced : Balanced b) (op : Op) : Balanced (step b op) := by
  cases op with
  | mark bar => exact balanced.mark bar
  | submit order bar => exact submit_balanced balanced order bar
  | account asOf => exact account_balanced balanced asOf
  | roundTrip =>
    simp only [step]
    split
    next exported => exact roundTrip_balanced balanced exported
    next => exact balanced

theorem run_balanced (config : BrokerConfig) (ops : List Op) : Balanced (run config ops) := by
  suffices keeps : ∀ b, Balanced b → Balanced (ops.foldl step b) from keeps _ (init_balanced config)
  induction ops with
  | nil => exact fun _ balanced => balanced
  | cons op rest ih => exact fun b balanced => ih _ (step_balanced balanced op)

/-- Every operation keeps the configuration the broker was built with. -/
theorem step_config (b : PaperBroker) (op : Op) : (step b op).config = b.config := by
  cases op with
  | mark bar => exact mark_config b bar
  | submit order bar =>
    simp only [step, submit, execute, recordFill]
    repeat' split
    all_goals simp
  | account asOf => simp only [step, account]; split <;> rfl
  | roundTrip => simp only [step]; split <;> rfl

theorem run_config (config : BrokerConfig) (ops : List Op) : (run config ops).config = config := by
  suffices keeps : ∀ b, (ops.foldl step b).config = b.config from keeps (init config)
  induction ops with
  | nil => exact fun _ => rfl
  | cons op rest ih => exact fun b => (ih _).trans (step_config b op)

/-- Double entry over every run: rejected orders, marks, account reads and restarts from
a saved state included. -/
theorem run_double_entry (config : BrokerConfig) (ops : List Op) :
    let b := run config ops
    b.cash + b.positions.total (fun p => p.quantity * p.averagePrice + p.entryCommission) =
      config.startingCash + b.positions.total (fun p => p.realizedPnl) ∧
    0 ≤ b.cash ∧
    ∀ symbol p, b.positions.get? symbol = some p →
      0 ≤ p.quantity ∧ 0 ≤ p.entryCommission ∧
      (p.quantity = 0 → p.averagePrice = 0 ∧ p.entryCommission = 0) := by
  have balanced := run_balanced config ops
  refine ⟨?_, balanced.cash, ?_⟩
  · have identity := balanced.identity
    rw [run_config] at identity
    exact identity
  · intro symbol p present
    have sound := balanced.sound symbol p present
    exact ⟨sound.quantity, sound.entryCommission, sound.flat⟩

end TradeAgent.Paper
