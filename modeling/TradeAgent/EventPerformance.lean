import TradeAgent.EventOrder
import TradeAgent.Library.Grouping

/-! The performance of event orders from what the broker filled of them: one economics of any orders, taken of
all, of each round of a symbol and of each ledger. -/
namespace TradeAgent.Event.Performance

open Scalp (Stamp)

/-! ## Orders -/

/-- What the broker reports of an order, as the reconciliation admits it. -/
structure BrokerSnapshot where
  orderId : String
  status : String
  filledQuantity : ℚ
  filledAveragePrice : Option ℚ
  filledAt : Option Stamp := none
  filledNonneg : 0 ≤ filledQuantity

structure OrderLink where
  broker : Option BrokerSnapshot := none
  entryKind : Option String := none
  tradeClassification : Option String := none
  calibration : Bool := false
  practice : Bool := false

structure OrderRow where
  clientOrderId : String
  brokerOrderId : Option String
  symbol : String
  side : Side
  quantity : ℚ
  createdAt : Instant
  link : OrderLink

inductive TradeClassification where
  | equipmentTest | newsStrategy | unclassified
  deriving DecidableEq, Repr

def isCalibration (link : OrderLink) : Bool :=
  link.entryKind = some "calibration" || link.tradeClassification = some "calibration" ||
    link.tradeClassification = some "EQUIPMENT_TEST" || link.calibration

def tradeClassification (link : OrderLink) : TradeClassification :=
  if isCalibration link then .equipmentTest
  else if link.tradeClassification = some "NEWS_STRATEGY" || link.entryKind = some "strategy" then .newsStrategy
  else .unclassified

def reportingPurpose (purpose : Purpose) (links : List OrderLink) : Purpose :=
  if purpose = .iexPractice || links.any OrderLink.practice then .iexPractice else .research

def OrderRow.filled (row : OrderRow) : ℚ := (row.link.broker.map BrokerSnapshot.filledQuantity).getD 0

theorem OrderRow.filled_nonneg (row : OrderRow) : 0 ≤ row.filled := by
  unfold OrderRow.filled
  cases row.link.broker with
  | none => exact le_rfl
  | some broker => exact broker.filledNonneg

def OrderRow.signed (row : OrderRow) : ℚ := if row.side = .buy then row.filled else -row.filled

def fillPrice (value : Option ℚ) : Option ℚ := value.filter fun price => 0 < price

def OrderRow.price (row : OrderRow) : Option ℚ :=
  row.link.broker.bind fun broker => fillPrice broker.filledAveragePrice

/-- `_confirmed_rows`: an order once, with the last of its largest fills. -/
def confirm (unique : Dict String OrderRow) (row : OrderRow) : Dict String OrderRow :=
  if (unique.get? row.clientOrderId).elim (-1) OrderRow.filled ≤ row.filled then
    unique.set row.clientOrderId row
  else unique

def confirmedRows (rows : List OrderRow) : List OrderRow := (rows.foldl confirm .empty).values

/-! ## Economics -/

def residualRate : ℚ := 5 / 100000
def sellValueRate : ℚ := 206 / 10000000
def sellShareRate : ℚ := 195 / 1000000
def sellMinimum : ℚ := 1 / 100
def stressMultipliers : List (String × ℚ) := [("1.5x", 3 / 2), ("2x", 2), ("3x", 3)]

/-- The reserve for the fees of a fill. -/
def feeReserve (side : Side) (quantity notional : ℚ) : ℚ :=
  if side = .buy then 0 else max sellMinimum (notional * sellValueRate + quantity * sellShareRate)

structure ExecutionCost where
  clientOrderId : String
  brokerOrderId : String
  side : Side
  filledQuantity : ℚ
  filledAveragePrice : Option ℚ
  brokerStatus : String
  brokerFillAt : Option Stamp
  filledNotional : Option ℚ
  partiallyFilled : Bool
  residualExecutionCost : Option ℚ
  regulatoryFeeReserve : Option ℚ
  totalAdditionalCost : Option ℚ

structure UnvaluedFill where
  clientOrderId : String
  symbol : String
  side : Side
  filledQuantity : ℚ

structure Totals where
  cashFlow : ℚ := 0
  entryNotional : ℚ := 0
  exitNotional : ℚ := 0
  fees : ℚ := 0
  omissions : ℚ := 0
  quantities : Dict String ℚ := .empty
  executionCosts : List ExecutionCost := []
  unvaluedFills : List UnvaluedFill := []
  entryPriceMissing : Bool := false
  exitPriceMissing : Bool := false

def executionCost (row : OrderRow) (broker : BrokerSnapshot) : ExecutionCost :=
  let price := fillPrice broker.filledAveragePrice
  let notional := price.map fun price => broker.filledQuantity * price
  { clientOrderId := row.clientOrderId
    brokerOrderId := broker.orderId
    side := row.side
    filledQuantity := broker.filledQuantity
    filledAveragePrice := price
    brokerStatus := broker.status
    brokerFillAt := broker.filledAt
    filledNotional := notional
    partiallyFilled := broker.filledQuantity < row.quantity
    residualExecutionCost := notional.map (· * residualRate)
    regulatoryFeeReserve := notional.map (feeReserve row.side broker.filledQuantity)
    totalAdditionalCost := notional.map fun notional =>
      notional * residualRate + feeReserve row.side broker.filledQuantity notional }

/-- One order of `_economics`. -/
def Totals.add (t : Totals) (row : OrderRow) : Totals :=
  match row.link.broker with
  | none => t
  | some broker =>
    if broker.filledQuantity = 0 then t
    else
      let quantity := broker.filledQuantity
      let signed := if row.side = .buy then quantity else -quantity
      let t := { t with
        quantities := t.quantities.set row.symbol (t.quantities.getD row.symbol 0 + signed)
        executionCosts := t.executionCosts ++ [executionCost row broker] }
      match fillPrice broker.filledAveragePrice with
      | none => { t with
          entryPriceMissing := t.entryPriceMissing || row.side = .buy
          exitPriceMissing := t.exitPriceMissing || row.side ≠ .buy
          unvaluedFills := t.unvaluedFills ++ [⟨row.clientOrderId, row.symbol, row.side, quantity⟩] }
      | some price => { t with
          cashFlow := t.cashFlow - signed * price
          omissions := t.omissions + quantity * price * residualRate
          fees := t.fees + feeReserve row.side quantity (quantity * price)
          entryNotional := if row.side = .buy then t.entryNotional + quantity * price else t.entryNotional
          exitNotional := if row.side = .buy then t.exitNotional else t.exitNotional + quantity * price }

def ratio (value denominator : Option ℚ) : Option ℚ :=
  match value, denominator with
  | some value, some denominator => if denominator = 0 then none else some (value / denominator)
  | _, _ => none

structure StressScenario where
  name : String
  additionalExecutionCost : Option ℚ
  netPnl : Option ℚ
  returnOnDeployedNotional : Option ℚ
  returnOnStrategyCapital : Option ℚ

structure Economics where
  valued : Bool
  missingMarks : List String
  unvaluedFills : List UnvaluedFill
  positions : List (String × ℚ)
  brokerPaperPnl : Option ℚ
  economicPaperPnl : Option ℚ
  actualDeployedNotional : Option ℚ
  exitFilledNotional : Option ℚ
  brokerReturnOnDeployedNotional : Option ℚ
  economicReturnOnDeployedNotional : Option ℚ
  brokerReturnOnStrategyCapital : Option ℚ
  economicReturnOnStrategyCapital : Option ℚ
  omittedSlippageAssumption : Option ℚ
  regulatoryFeeReserve : Option ℚ
  executionCosts : List ExecutionCost
  stressScenarios : List StressScenario

def Totals.missingMarks (t : Totals) (marks : Dict String ℚ) : List String :=
  (t.quantities.entries.filter fun e => e.2 ≠ 0 && (marks.get? e.1).isNone).map Prod.fst

/-- What the open positions are worth. -/
def Totals.marked (t : Totals) (marks : Dict String ℚ) : ℚ :=
  ((t.quantities.entries.filter fun e => e.2 ≠ 0).map fun e => e.2 * marks.getD e.1 0).sum

def Totals.pnl (t : Totals) (marks : Dict String ℚ) : Option ℚ :=
  if t.missingMarks marks ≠ [] ∨ t.unvaluedFills.isEmpty = false then none else some (t.cashFlow + t.marked marks)

/-- `_economics`. -/
def economics (rows : List OrderRow) (marks : Dict String ℚ) (capital : Option ℚ) : Economics :=
  let t := rows.foldl Totals.add {}
  let missing := t.missingMarks marks
  let pnl := t.pnl marks
  let economic := pnl.map fun pnl => pnl - t.fees - t.omissions
  let deployed := if t.entryPriceMissing then none else some t.entryNotional
  { valued := missing = [] && t.unvaluedFills.isEmpty
    missingMarks := missing
    unvaluedFills := t.unvaluedFills
    positions := t.quantities.entries.filter fun e => e.2 ≠ 0
    brokerPaperPnl := pnl
    economicPaperPnl := economic
    actualDeployedNotional := deployed
    exitFilledNotional := if t.exitPriceMissing then none else some t.exitNotional
    brokerReturnOnDeployedNotional := ratio pnl deployed
    economicReturnOnDeployedNotional := ratio economic deployed
    brokerReturnOnStrategyCapital := ratio pnl capital
    economicReturnOnStrategyCapital := ratio economic capital
    omittedSlippageAssumption := if t.unvaluedFills.isEmpty then some t.omissions else none
    regulatoryFeeReserve := if t.exitPriceMissing then none else some t.fees
    executionCosts := t.executionCosts
    stressScenarios := stressMultipliers.map fun (name, multiplier) =>
      let net := pnl.map fun pnl => pnl - t.fees - t.omissions * multiplier
      { name
        additionalExecutionCost := if t.unvaluedFills.isEmpty then some (t.omissions * multiplier) else none
        netPnl := net
        returnOnDeployedNotional := ratio net deployed
        returnOnStrategyCapital := ratio net capital } }

/-! ## Rounds -/

/-- The rounds so far, and for each symbol and classification that is not flat the round it is in. -/
structure Rounds where
  groups : List (List OrderRow) := []
  active : Dict (String × TradeClassification) (ℕ × ℚ) := .empty

def OrderRow.key (row : OrderRow) : String × TradeClassification := (row.symbol, tradeClassification row.link)

/-- The round an order is of; the next one where none is active. -/
def Rounds.opened (r : Rounds) (key : String × TradeClassification) : List (List OrderRow) × ℕ × ℚ :=
  match r.active.get? key with
  | some (index, quantity) => (r.groups, index, quantity)
  | none => (r.groups ++ [[]], r.groups.length, 0)

def Rounds.add (r : Rounds) (row : OrderRow) : Rounds :=
  if row.filled = 0 then r
  else
    let (groups, index, quantity) := r.opened row.key
    { groups := groups.modify index (· ++ [row])
      active := if quantity + row.signed = 0 then r.active.erase row.key
        else r.active.set row.key (index, quantity + row.signed) }

def roundsOf (rows : List OrderRow) : Rounds := rows.foldl Rounds.add {}

structure Trade where
  tradeClassification : TradeClassification
  symbol : String
  closed : Bool
  orderIds : List String
  economics : Economics
  closedRoundTrips : ℕ
  qualifyingClosedRoundTrips : ℕ
  qualificationEligible : Bool

def trade (marks : Dict String ℚ) (capital : Option ℚ) (purpose : Purpose) (group : List OrderRow) : Trade :=
  let classification := group.head?.elim .unclassified fun first => Performance.tradeClassification first.link
  let economics := economics group marks capital
  let closed : Bool := economics.positions.isEmpty && group.head?.any fun first => first.side = .buy
  { tradeClassification := classification
    symbol := group.head?.elim "" OrderRow.symbol
    closed
    orderIds := group.map OrderRow.clientOrderId
    economics
    closedRoundTrips := closed.toNat
    qualifyingClosedRoundTrips :=
      if purpose = .research ∧ classification = .newsStrategy ∧ economics.valued then closed.toNat else 0
    qualificationEligible := purpose = .research && classification = .newsStrategy }

def tradeEconomics (rows : List OrderRow) (marks : Dict String ℚ) (capital : Option ℚ) (purpose : Purpose) :
    List Trade :=
  (roundsOf (confirmedRows rows)).groups.map (trade marks capital purpose)

/-! ## Ledgers -/

structure Ledger where
  tradeClassification : TradeClassification
  economics : Economics
  qualificationEligible : Bool
  closedRoundTrips : ℕ
  qualifyingClosedRoundTrips : ℕ
  trades : List Trade

structure LedgerReport where
  economics : Economics
  virtualEquityAnchor : Option ℚ
  brokerPaperEquity : Option ℚ
  economicPaperEquity : Option ℚ
  separateLedgers : List Ledger
  closedRoundTrips : ℕ
  turnover : Option ℚ

def TradeClassification.all : List TradeClassification := [.equipmentTest, .newsStrategy, .unclassified]

def classified (rows : List OrderRow) (classification : TradeClassification) : List OrderRow :=
  rows.filter fun row => tradeClassification row.link = classification

def ledger (rows : List OrderRow) (rounds : List Trade) (marks : Dict String ℚ) (virtualEquity : Option ℚ)
    (purpose : Purpose) (classification : TradeClassification) : Ledger :=
  let trades := rounds.filter fun trade => trade.tradeClassification = classification
  { tradeClassification := classification
    economics := economics (classified rows classification) marks virtualEquity
    qualificationEligible := purpose = .research && classification = .newsStrategy
    closedRoundTrips := (trades.map Trade.closedRoundTrips).sum
    qualifyingClosedRoundTrips := (trades.map Trade.qualifyingClosedRoundTrips).sum
    trades }

def allocationLedgers (rows : List OrderRow) (marks : Dict String ℚ) (virtualEquity : Option ℚ)
    (purpose : Purpose := .research) : LedgerReport :=
  let purpose := reportingPurpose purpose (rows.map OrderRow.link)
  let rows := confirmedRows rows
  let aggregate := economics rows marks virtualEquity
  let rounds := tradeEconomics rows marks virtualEquity purpose
  let anchored (pnl : Option ℚ) := pnl.bind fun pnl => virtualEquity.map fun equity => equity + pnl
  { economics := aggregate
    virtualEquityAnchor := virtualEquity
    brokerPaperEquity := anchored aggregate.brokerPaperPnl
    economicPaperEquity := anchored aggregate.economicPaperPnl
    separateLedgers := TradeClassification.all.map (ledger rows rounds marks virtualEquity purpose)
    closedRoundTrips := (rounds.map Trade.closedRoundTrips).sum
    turnover := ratio (aggregate.actualDeployedNotional.bind fun entry =>
      aggregate.exitFilledNotional.map fun exit => entry + exit) virtualEquity }

/-! ## What the economics of orders are -/

variable {rows : List OrderRow} {row : OrderRow} {marks : Dict String ℚ} {capital : Option ℚ} {t : Totals}

/-- An order that was filled. -/
def OrderRow.isFilled (row : OrderRow) : Bool := row.filled ≠ 0

/-- What the fill of an order cost, in friction and fees. -/
def OrderRow.cost (row : OrderRow) : ℚ :=
  if row.filled = 0 then 0
  else row.filled * row.price.getD 0 * residualRate + feeReserve row.side row.filled (row.filled * row.price.getD 0)

def OrderRow.cash (row : OrderRow) : ℚ := -(row.signed * row.price.getD 0)

/-- What is held of a symbol after orders. -/
def net (rows : List OrderRow) (symbol : String) : ℚ := Grouping.sumOf OrderRow.symbol OrderRow.signed rows symbol

/-- Every fill has a price. -/
def Priced (rows : List OrderRow) : Prop := ∀ row ∈ rows, row.filled ≠ 0 → row.price.isSome

/-- Every symbol that is held has a mark. -/
def Marked (rows : List OrderRow) (marks : Dict String ℚ) : Prop :=
  ∀ symbol, net rows symbol ≠ 0 → (marks.get? symbol).isSome

theorem add_unfilled (unfilled : row.filled = 0) : t.add row = t := by
  unfold OrderRow.filled at unfilled
  unfold Totals.add
  cases found : row.link.broker with
  | none => rfl
  | some broker =>
    rw [found] at unfilled
    exact if_pos unfilled

/-- What a priced fill adds. -/
structure Adds (row : OrderRow) (t t' : Totals) : Prop where
  cashFlow : t'.cashFlow = t.cashFlow + row.cash
  costs : t'.fees + t'.omissions = t.fees + t.omissions + row.cost
  quantities : t'.quantities = t.quantities.set row.symbol (t.quantities.getD row.symbol 0 + row.signed)
  unvaluedFills : t'.unvaluedFills = t.unvaluedFills
  executionCosts : t'.executionCosts.map ExecutionCost.clientOrderId =
    t.executionCosts.map ExecutionCost.clientOrderId ++ [row.clientOrderId]

theorem add_adds (filled : row.filled ≠ 0) (priced : row.price.isSome) : Adds row t (t.add row) := by
  obtain ⟨price, known⟩ := Option.isSome_iff_exists.mp priced
  unfold OrderRow.price at known
  obtain ⟨broker, found, known⟩ := Option.bind_eq_some_iff.mp known
  have quantity : row.filled = broker.filledQuantity := by
    unfold OrderRow.filled
    rw [found]
    rfl
  have paid : row.price = some price := by
    unfold OrderRow.price
    rw [found]
    exact known
  rw [quantity] at filled
  unfold Totals.add
  rw [found]
  dsimp only
  rw [if_neg filled, known]
  refine ⟨?_, ?_, ?_, rfl, ?_⟩
  · simp [OrderRow.cash, OrderRow.signed, quantity, paid, sub_eq_add_neg]
  · dsimp only
    rw [OrderRow.cost, if_neg (quantity ▸ filled), quantity, paid]
    simp
    ring
  · simp [OrderRow.signed, quantity]
  · simp [executionCost]

theorem clientOrderIds_add (t : Totals) (row : OrderRow) : (t.add row).executionCosts.map ExecutionCost.clientOrderId =
    t.executionCosts.map ExecutionCost.clientOrderId ++ if row.isFilled then [row.clientOrderId] else [] := by
  unfold OrderRow.isFilled
  by_cases unfilled : row.filled = 0
  · simp [add_unfilled unfilled, unfilled]
  · unfold OrderRow.filled at unfilled
    cases found : row.link.broker with
    | none => simp [found] at unfilled
    | some broker =>
      rw [found] at unfilled
      have filled : broker.filledQuantity ≠ 0 := unfilled
      have same : row.filled = broker.filledQuantity := by simp [OrderRow.filled, found]
      unfold Totals.add
      rw [found]
      dsimp only
      rw [if_neg filled]
      split <;> simp [executionCost, same, filled]

/-- The orders a ledger or a round lists are those that were filled. -/
theorem economics_orders (rows : List OrderRow) (marks : Dict String ℚ) (capital : Option ℚ) :
    (economics rows marks capital).executionCosts.map ExecutionCost.clientOrderId =
      (rows.filter OrderRow.isFilled).map OrderRow.clientOrderId := by
  have all (l : List OrderRow) (t : Totals) : (l.foldl Totals.add t).executionCosts.map ExecutionCost.clientOrderId =
      t.executionCosts.map ExecutionCost.clientOrderId ++ (l.filter OrderRow.isFilled).map OrderRow.clientOrderId := by
    induction l generalizing t with
    | nil => simp
    | cons row rest ih =>
      rw [List.foldl_cons, ih, clientOrderIds_add, List.append_assoc]
      by_cases filled : row.isFilled <;> simp [filled]
  exact all rows {}

theorem signed_of_unfilled (unfilled : row.filled = 0) : row.signed = 0 := by simp [OrderRow.signed, unfilled]

/-- What priced orders add up to. -/
structure Sums (rows : List OrderRow) (t t' : Totals) : Prop where
  cashFlow : t'.cashFlow = t.cashFlow + (rows.map OrderRow.cash).sum
  costs : t'.fees + t'.omissions = t.fees + t.omissions + (rows.map OrderRow.cost).sum
  held : ∀ symbol, t'.quantities.getD symbol 0 = t.quantities.getD symbol 0 + net rows symbol
  worth : ∀ mark : String → ℚ, t'.quantities.weigh (fun symbol quantity => quantity * mark symbol) =
    t.quantities.weigh (fun symbol quantity => quantity * mark symbol) +
      (rows.map fun row => row.signed * mark row.symbol).sum
  unvaluedFills : t'.unvaluedFills = t.unvaluedFills

theorem Adds.sums {t' : Totals} (adds : Adds row t t') : Sums [row] t t' := by
  refine ⟨?_, ?_, fun symbol => ?_, fun mark => ?_, adds.unvaluedFills⟩
  · simp [adds.cashFlow]
  · simp [adds.costs]
  · rw [adds.quantities, Dict.getD_set]
    unfold net
    rw [Grouping.sumOf_cons]
    by_cases same : row.symbol = symbol
    · simp [same, Grouping.sumOf]
    · simp [same, Grouping.sumOf]
  · have change := t.quantities.weigh_set row.symbol (t.quantities.getD row.symbol 0 + row.signed)
      fun symbol quantity => quantity * mark symbol
    have before : ((t.quantities.get? row.symbol).map fun quantity => quantity * mark row.symbol).getD 0 =
        t.quantities.getD row.symbol 0 * mark row.symbol := by
      unfold Dict.getD
      cases t.quantities.get? row.symbol <;> simp
    rw [before] at change
    rw [adds.quantities, List.map_singleton, List.sum_singleton]
    linarith

theorem Sums.nil (t : Totals) : Sums [] t t := by
  refine ⟨?_, ?_, fun symbol => ?_, fun mark => ?_, rfl⟩ <;> simp [net, Grouping.sumOf]

theorem Sums.cons {t' t'' : Totals} {rest : List OrderRow} (first : Sums [row] t t') (later : Sums rest t' t'') :
    Sums (row :: rest) t t'' := by
  refine ⟨?_, ?_, fun symbol => ?_, fun mark => ?_, later.unvaluedFills.trans first.unvaluedFills⟩
  · rw [later.cashFlow, first.cashFlow]
    simp [add_assoc]
  · rw [later.costs, first.costs]
    simp [add_assoc]
  · have split : net (row :: rest) symbol = net [row] symbol + net rest symbol := by
      unfold net
      rw [Grouping.sumOf_cons, Grouping.sumOf_cons]
      simp [Grouping.sumOf]
    rw [later.held, first.held, split, add_assoc]
  · rw [later.worth, first.worth]
    simp [add_assoc]

theorem Sums.unfilled (unfilled : row.filled = 0) (t : Totals) : Sums [row] t t := by
  have signed := signed_of_unfilled unfilled
  refine ⟨?_, ?_, fun symbol => ?_, fun mark => ?_, rfl⟩
  · simp [OrderRow.cash, signed]
  · simp [OrderRow.cost, unfilled]
  · unfold net
    rw [Grouping.sumOf_cons]
    simp [signed, Grouping.sumOf]
  · simp [signed]

theorem fold_sums (rows : List OrderRow) (t : Totals) (priced : Priced rows) :
    Sums rows t (rows.foldl Totals.add t) := by
  induction rows generalizing t with
  | nil => exact .nil t
  | cons row rest ih =>
    have later := fun t => ih t fun other member => priced other (List.mem_cons_of_mem _ member)
    rw [List.foldl_cons]
    by_cases unfilled : row.filled = 0
    · rw [add_unfilled unfilled]
      exact (Sums.unfilled unfilled t).cons (later t)
    · exact (add_adds unfilled (priced row List.mem_cons_self unfilled)).sums.cons (later _)

/-- What an order gained at its mark, before its cost. -/
def OrderRow.gain (marks : Dict String ℚ) (row : OrderRow) : ℚ := row.cash + row.signed * marks.getD row.symbol 0

theorem marked_weigh (t : Totals) (marks : Dict String ℚ) :
    t.marked marks = t.quantities.weigh fun symbol quantity => quantity * marks.getD symbol 0 := by
  unfold Totals.marked Dict.weigh
  induction t.quantities.entries with
  | nil => rfl
  | cons e rest ih =>
    by_cases flat : e.2 = 0
    · simpa [flat] using ih
    · simpa [flat] using ih

/-- What an order gained, less its cost. -/
def OrderRow.earned (marks : Dict String ℚ) (row : OrderRow) : ℚ := row.gain marks - row.cost

theorem sum_earned (rows : List OrderRow) (marks : Dict String ℚ) : (rows.map (OrderRow.earned marks)).sum =
    (rows.map (OrderRow.gain marks)).sum - (rows.map OrderRow.cost).sum := by
  induction rows with
  | nil => simp
  | cons row rest ih =>
    simp only [List.map_cons, List.sum_cons, ih, OrderRow.earned]
    ring

/-- Priced orders whose open positions are marked are valued at what they gained and what they earned. -/
theorem economics_valued (priced : Priced rows) (marked : Marked rows marks) (capital : Option ℚ) :
    (economics rows marks capital).brokerPaperPnl = some (rows.map (OrderRow.gain marks)).sum ∧
      (economics rows marks capital).economicPaperPnl = some (rows.map (OrderRow.earned marks)).sum := by
  have sums := fold_sums rows {} priced
  have none : (rows.foldl Totals.add {}).missingMarks marks = [] := by
    unfold Totals.missingMarks
    rw [List.map_eq_nil_iff, List.filter_eq_nil_iff]
    intro e member missing
    rw [Bool.and_eq_true, decide_eq_true_eq] at missing
    have held := sums.held e.1
    have found : (rows.foldl Totals.add {}).quantities.get? e.1 = some e.2 := Dict.mem_entries.mp member
    rw [Dict.getD, found] at held
    have known := marked e.1 (by
      have start : ({} : Totals).quantities.getD e.1 0 = 0 := rfl
      rw [start, zero_add] at held
      exact held ▸ missing.1)
    rw [Option.isSome_iff_ne_none] at known
    exact known (Option.isNone_iff_eq_none.mp missing.2)
  have pnl : (rows.foldl Totals.add {}).pnl marks = some (rows.map (OrderRow.gain marks)).sum := by
    have cash := sums.cashFlow
    have worth := sums.worth fun symbol => marks.getD symbol 0
    unfold Totals.pnl
    rw [if_neg (by simp [none, sums.unvaluedFills]), marked_weigh, worth, cash]
    have gains : (rows.map (OrderRow.gain marks)).sum = (rows.map OrderRow.cash).sum +
        (rows.map fun row => row.signed * marks.getD row.symbol 0).sum := by
      unfold OrderRow.gain
      exact List.sum_map_add
    rw [gains]
    simp [Dict.weigh, Dict.empty]
  have costs := sums.costs
  unfold economics
  dsimp only
  rw [pnl, sum_earned]
  refine ⟨rfl, congrArg some ?_⟩
  have start : ({} : Totals).fees + ({} : Totals).omissions = 0 := by simp
  linarith

/-- A fill without a price is left unvalued, and stays so. -/
theorem unvalued_add (t : Totals) (row : OrderRow)
    (unvalued : t.unvaluedFills ≠ [] ∨ row.filled ≠ 0 ∧ row.price = none) : (t.add row).unvaluedFills ≠ [] := by
  unfold OrderRow.filled OrderRow.price at unvalued
  unfold Totals.add
  cases found : row.link.broker with
  | none =>
    rw [found] at unvalued
    simpa using unvalued
  | some broker =>
    simp only [found, Option.map_some, Option.getD_some, Option.bind_some] at unvalued
    by_cases unfilled : broker.filledQuantity = 0
    · simpa [unfilled] using unvalued
    · cases price : fillPrice broker.filledAveragePrice with
      | none => simp [unfilled, price]
      | some value => simpa [unfilled, price] using unvalued

theorem priced_of_valued (all : (rows.foldl Totals.add t).unvaluedFills = []) : Priced rows := by
  have stays (l : List OrderRow) (t : Totals) (some : t.unvaluedFills ≠ []) :
      (l.foldl Totals.add t).unvaluedFills ≠ [] := by
    induction l generalizing t with
    | nil => exact some
    | cons row rest ih => exact ih _ (unvalued_add t row (.inl some))
  induction rows generalizing t with
  | nil => exact fun _ member => (List.not_mem_nil member).elim
  | cons row rest ih =>
    intro other member filled
    rcases List.mem_cons.mp member with rfl | later
    · by_contra unpriced
      exact stays rest _ (unvalued_add t other (.inr ⟨filled, Option.not_isSome_iff_eq_none.mp unpriced⟩)) all
    · exact ih all other later filled

/-! ## Confirmed orders -/

/-- What is kept of the orders so far: of each id one of them, with its largest fill. -/
structure Confirmed (rows : List OrderRow) (unique : Dict String OrderRow) : Prop where
  owned : ∀ id kept, unique.get? id = some kept → kept ∈ rows ∧ kept.clientOrderId = id
  largest : ∀ row ∈ rows, ∃ kept, unique.get? row.clientOrderId = some kept ∧ row.filled ≤ kept.filled

theorem Confirmed.confirm {unique : Dict String OrderRow} (before : Confirmed rows unique) (row : OrderRow) :
    Confirmed (rows ++ [row]) (confirm unique row) := by
  unfold Performance.confirm
  by_cases grows : (unique.get? row.clientOrderId).elim (-1) OrderRow.filled ≤ row.filled
  · rw [if_pos grows]
    refine ⟨fun id kept found => ?_, fun other member => ?_⟩
    · rw [Dict.get?_set] at found
      by_cases same : row.clientOrderId = id
      · rw [if_pos same] at found
        cases found
        exact ⟨by simp, same⟩
      · rw [if_neg same] at found
        have owned := before.owned id kept found
        exact ⟨List.mem_append_left _ owned.1, owned.2⟩
    · rw [Dict.get?_set]
      by_cases same : row.clientOrderId = other.clientOrderId
      · rw [if_pos same]
        refine ⟨row, rfl, ?_⟩
        rcases List.mem_append.mp member with old | new
        · obtain ⟨kept, found, below⟩ := before.largest other old
          rw [same, found] at grows
          exact below.trans grows
        · rw [List.mem_singleton.mp new]
      · rw [if_neg same]
        rcases List.mem_append.mp member with old | new
        · exact before.largest other old
        · exact absurd (congrArg OrderRow.clientOrderId (List.mem_singleton.mp new)).symm same
  · rw [if_neg grows]
    refine ⟨fun id kept found => ?_, fun other member => ?_⟩
    · have owned := before.owned id kept found
      exact ⟨List.mem_append_left _ owned.1, owned.2⟩
    · rcases List.mem_append.mp member with old | new
      · exact before.largest other old
      · cases List.mem_singleton.mp new
        cases found : unique.get? row.clientOrderId with
        | none =>
          rw [found] at grows
          have nonneg := row.filled_nonneg
          exact absurd (show (-1 : ℚ) ≤ row.filled by linarith) grows
        | some kept =>
          rw [found] at grows
          exact ⟨kept, rfl, (not_le.mp grows).le⟩

theorem confirmed (rows : List OrderRow) : Confirmed rows (rows.foldl confirm .empty) := by
  have all (done l : List OrderRow) (unique : Dict String OrderRow) (before : Confirmed done unique) :
      Confirmed (done ++ l) (l.foldl confirm unique) := by
    induction l generalizing done unique with
    | nil => simpa using before
    | cons row rest ih =>
      have later := ih (done ++ [row]) _ (before.confirm row)
      rwa [List.append_assoc] at later
  exact all [] rows .empty ⟨fun _ _ found => by simp at found, fun _ member => by simp at member⟩

theorem mem_confirmedRows : row ∈ confirmedRows rows ↔ (rows.foldl confirm .empty).get? row.clientOrderId = some row := by
  unfold confirmedRows
  rw [Dict.mem_values]
  refine ⟨fun ⟨id, found⟩ => ?_, fun found => ⟨_, found⟩⟩
  rw [((confirmed rows).owned id row found).2]
  exact found

/-- An order is confirmed once. -/
theorem confirmedRows_nodup (rows : List OrderRow) : ((confirmedRows rows).map OrderRow.clientOrderId).Nodup := by
  have ids : (confirmedRows rows).map OrderRow.clientOrderId = (rows.foldl confirm .empty).keys := by
    unfold confirmedRows Dict.values Dict.keys
    rw [List.map_map]
    refine List.map_congr_left fun e member => ?_
    exact ((confirmed rows).owned e.1 e.2 (Dict.mem_entries.mp member)).2
  rw [ids]
  exact Dict.distinct _

/-- Of an order's reports the one with the largest fill is confirmed. -/
theorem confirmedRows_largest (member : row ∈ rows) :
    ∃ kept ∈ confirmedRows rows, kept ∈ rows ∧ kept.clientOrderId = row.clientOrderId ∧ row.filled ≤ kept.filled := by
  obtain ⟨kept, found, below⟩ := (confirmed rows).largest row member
  obtain ⟨listed, same⟩ := (confirmed rows).owned _ kept found
  exact ⟨kept, mem_confirmedRows.mpr (same ▸ found), listed, same, below⟩

/-- Orders that are reported once each are confirmed as they are. -/
theorem confirmedRows_of_nodup (distinct : (rows.map OrderRow.clientOrderId).Nodup) : confirmedRows rows = rows := by
  have all (l : List OrderRow) (unique : Dict String OrderRow) (apart : (l.map OrderRow.clientOrderId).Nodup)
      (fresh : ∀ row ∈ l, row.clientOrderId ∉ unique.keys) :
      (l.foldl confirm unique).values = unique.values ++ l := by
    induction l generalizing unique with
    | nil => simp
    | cons row rest ih =>
      have absent := Dict.get?_none_iff.mpr (fresh row List.mem_cons_self)
      have nonneg := row.filled_nonneg
      have kept : confirm unique row = unique.set row.clientOrderId row := by
        unfold confirm
        rw [absent]
        exact if_pos (show (-1 : ℚ) ≤ row.filled by linarith)
      rw [List.map_cons, List.nodup_cons] at apart
      rw [List.foldl_cons, kept, ih _ apart.2, Dict.values_set_absent absent, List.append_assoc]
      · rfl
      · intro other member
        rw [Dict.keys_set, if_neg (fresh row List.mem_cons_self), List.mem_append, not_or]
        refine ⟨fresh other (List.mem_cons_of_mem _ member), fun same => apart.1 ?_⟩
        rw [← List.mem_singleton.mp same]
        exact List.mem_map_of_mem member
  exact all rows .empty distinct fun _ _ member => by simp [Dict.keys, Dict.empty] at member

theorem confirmedRows_twice (rows : List OrderRow) : confirmedRows (confirmedRows rows) = confirmedRows rows :=
  confirmedRows_of_nodup (confirmedRows_nodup rows)

/-! ## Rounds -/

/-- Orders of one symbol and classification. -/
structure Round (key : String × TradeClassification) (group : List OrderRow) : Prop where
  begun : group ≠ []
  alike : ∀ row ∈ group, row.key = key

theorem Round.append {key : String × TradeClassification} {group : List OrderRow} (round : Round key group)
    (same : row.key = key) : Round key (group ++ [row]) :=
  ⟨by simp, fun other member => (List.mem_append.mp member).elim (round.alike other)
    fun last => List.mem_singleton.mp last ▸ same⟩

/-- Every group is a round, and the active rounds are those of their keys. -/
structure Rounds.Sound (r : Rounds) : Prop where
  rounds : ∀ group ∈ r.groups, ∃ key, Round key group
  active : ∀ key index quantity, r.active.get? key = some (index, quantity) →
    ∃ group, r.groups[index]? = some group ∧ Round key group

variable {r : Rounds}

theorem add_active {active : Dict (String × TradeClassification) (ℕ × ℚ)} {key other : String × TradeClassification}
    {index : ℕ} {quantity : ℚ} {found : ℕ × ℚ}
    (now : (if quantity = 0 then active.erase key else active.set key (index, quantity)).get? other = some found) :
    other = key ∧ found.1 = index ∨ other ≠ key ∧ active.get? other = some found := by
  by_cases same : key = other
  · by_cases flat : quantity = 0
    · simp [flat, same] at now
    · simp [flat, same] at now
      exact .inl ⟨same.symm, now ▸ rfl⟩
  · by_cases flat : quantity = 0
    · simp [flat, same] at now
      exact .inr ⟨fun back => same back.symm, now⟩
    · simp [flat, same] at now
      exact .inr ⟨fun back => same back.symm, now⟩

/-- An order of a round that is active goes on with it. -/
theorem Rounds.Sound.goes_on (sound : r.Sound) {index : ℕ} {quantity : ℚ} (filled : row.filled ≠ 0)
    (found : r.active.get? row.key = some (index, quantity)) :
    (r.add row).Sound ∧ (r.add row).groups.flatten.Perm (r.groups.flatten ++ [row]) := by
  obtain ⟨group, at_index, round⟩ := sound.active _ _ _ found
  obtain ⟨inside, here⟩ := List.getElem?_eq_some_iff.mp at_index
  have added : r.add row =
      { groups := r.groups.modify index (· ++ [row])
        active := if quantity + row.signed = 0 then r.active.erase row.key
          else r.active.set row.key (index, quantity + row.signed) } := by
    unfold Rounds.add Rounds.opened
    rw [if_neg filled, found]
  have changed : (r.groups.modify index (· ++ [row]))[index]? = some (group ++ [row]) := by
    simp [at_index]
  rw [added]
  refine ⟨⟨fun other member => ?_, fun key index' quantity' now => ?_⟩, Grouping.flatten_modify _ _ inside _⟩
  · obtain ⟨i, at_i⟩ := List.mem_iff_getElem?.mp member
    by_cases same : index = i
    · rw [← same, changed] at at_i
      cases at_i
      exact ⟨row.key, round.append rfl⟩
    · rw [List.getElem?_modify_ne _ _ same] at at_i
      exact sound.rounds other (List.mem_of_getElem? at_i)
  · rcases add_active now with ⟨same, at_same⟩ | ⟨apart, before⟩
    · cases at_same
      exact ⟨_, changed, same ▸ round.append rfl⟩
    · obtain ⟨other, at_other, its⟩ := sound.active _ _ _ before
      have elsewhere : index ≠ index' := by
        rintro rfl
        rw [at_index] at at_other
        cases at_other
        obtain ⟨first, member⟩ := List.exists_mem_of_ne_nil group round.begun
        exact apart ((its.alike first member).symm.trans (round.alike first member))
      refine ⟨other, ?_, its⟩
      rw [List.getElem?_modify_ne _ _ elsewhere]
      exact at_other

/-- An order of no active round begins one. -/
theorem Rounds.Sound.begins (sound : r.Sound) (filled : row.filled ≠ 0) (absent : r.active.get? row.key = none) :
    (r.add row).Sound ∧ (r.add row).groups.flatten.Perm (r.groups.flatten ++ [row]) := by
  have added : r.add row =
      { groups := r.groups ++ [[row]]
        active := if 0 + row.signed = 0 then r.active.erase row.key
          else r.active.set row.key (r.groups.length, 0 + row.signed) } := by
    unfold Rounds.add Rounds.opened
    rw [if_neg filled, absent]
    simp [List.modify_eq_take_cons_drop]
  have begun : Round row.key [row] := ⟨by simp, fun other member => by rw [List.mem_singleton.mp member]⟩
  rw [added]
  refine ⟨⟨fun other member => ?_, fun key index quantity now => ?_⟩, by simp⟩
  · rcases List.mem_append.mp member with old | new
    · exact sound.rounds other old
    · exact ⟨row.key, List.mem_singleton.mp new ▸ begun⟩
  · rcases add_active now with ⟨same, at_same⟩ | ⟨apart, before⟩
    · cases at_same
      exact ⟨[row], by simp, same ▸ begun⟩
    · obtain ⟨other, at_other, its⟩ := sound.active _ _ _ before
      refine ⟨other, ?_, its⟩
      rw [List.getElem?_append_left (List.getElem?_eq_some_iff.mp at_other).1]
      exact at_other

theorem Rounds.Sound.add (sound : r.Sound) (row : OrderRow) : (r.add row).Sound ∧
    (r.add row).groups.flatten.Perm (r.groups.flatten ++ if row.isFilled then [row] else []) := by
  by_cases unfilled : row.filled = 0
  · have same : r.add row = r := if_pos unfilled
    rw [same]
    exact ⟨sound, by simp [OrderRow.isFilled, unfilled]⟩
  · have kept : row.isFilled = true := by simp [OrderRow.isFilled, unfilled]
    rw [if_pos kept]
    cases found : r.active.get? row.key with
    | none => exact sound.begins unfilled found
    | some entry => exact sound.goes_on unfilled found

/-- Every order that was filled is of one round. -/
theorem roundsOf_perm (rows : List OrderRow) :
    (roundsOf rows).Sound ∧ (roundsOf rows).groups.flatten.Perm (rows.filter OrderRow.isFilled) := by
  have all (l : List OrderRow) (r : Rounds) (sound : r.Sound) : (l.foldl Rounds.add r).Sound ∧
      (l.foldl Rounds.add r).groups.flatten.Perm (r.groups.flatten ++ l.filter OrderRow.isFilled) := by
    induction l generalizing r with
    | nil => exact ⟨sound, by simp⟩
    | cons row rest ih =>
      obtain ⟨next, perm⟩ := sound.add row
      obtain ⟨last, later⟩ := ih _ next
      refine ⟨last, later.trans ((perm.append_right _).trans ?_)⟩
      rw [List.append_assoc]
      by_cases filled : row.isFilled <;> simp [filled]
  exact all rows {} ⟨fun _ member => by simp at member, fun _ _ _ found => by simp at found⟩

/-! ## Fills are partitioned -/

/-- The sum of values that are all known. -/
def summed : List (Option ℚ) → Option ℚ
  | [] => some 0
  | value :: rest => value.bind fun value => (summed rest).map (value + ·)

theorem summed_known (f : α → ℚ) (l : List α) : summed (l.map fun a => some (f a)) = some (l.map f).sum := by
  induction l with
  | nil => rfl
  | cons a rest ih =>
    rw [List.map_cons, summed, ih]
    rfl

theorem sum_filled (f : OrderRow → ℚ) (zero : ∀ row, row.filled = 0 → f row = 0) (rows : List OrderRow) :
    ((rows.filter OrderRow.isFilled).map f).sum = (rows.map f).sum := by
  induction rows with
  | nil => rfl
  | cons row rest ih =>
    by_cases unfilled : row.filled = 0
    · simp [OrderRow.isFilled, unfilled, zero row unfilled, ← ih]
    · simp [OrderRow.isFilled, unfilled, ← ih]

/-- What rounds amount to is what their orders do. -/
theorem sum_rounds {groups : List (List OrderRow)} (perm : groups.flatten.Perm (rows.filter OrderRow.isFilled))
    (f : OrderRow → ℚ) (zero : ∀ row, row.filled = 0 → f row = 0) :
    (groups.map fun group => (group.map f).sum).sum = (rows.map f).sum := by
  have flat : (groups.flatten.map f).sum = (groups.map fun group => (group.map f).sum).sum := by
    rw [List.map_flatten, List.sum_flatten, List.map_map]
    rfl
  rw [← flat, (perm.map f).sum_eq, sum_filled f zero]

theorem gain_of_unfilled (unfilled : row.filled = 0) : row.gain marks = 0 := by
  simp [OrderRow.gain, OrderRow.cash, signed_of_unfilled unfilled]

theorem earned_of_unfilled (unfilled : row.filled = 0) : row.earned marks = 0 := by
  simp [OrderRow.earned, OrderRow.cost, gain_of_unfilled unfilled, unfilled]

theorem net_eq (rows : List OrderRow) (symbol : String) :
    net rows symbol = (rows.map fun row => if row.symbol = symbol then row.signed else 0).sum := by
  unfold net
  induction rows with
  | nil => rfl
  | cons row rest ih => rw [Grouping.sumOf_cons, ih, List.map_cons, List.sum_cons]

/-- Where the open positions of rounds are marked, so are those of their orders together. -/
theorem marked_of_rounds {groups : List (List OrderRow)}
    (perm : groups.flatten.Perm (rows.filter OrderRow.isFilled)) (each : ∀ group ∈ groups, Marked group marks) :
    Marked rows marks := by
  intro symbol held
  by_contra unmarked
  have flat : ∀ group ∈ groups, net group symbol = 0 := by
    intro group member
    by_contra open_
    exact unmarked (each group member symbol open_)
  refine held ?_
  rw [net_eq, ← sum_rounds perm]
  · refine List.sum_eq_zero fun value member => ?_
    obtain ⟨group, listed, rfl⟩ := List.mem_map.mp member
    rw [← net_eq]
    exact flat group listed
  · intro row unfilled
    simp [signed_of_unfilled unfilled]

theorem Priced.subset {rows' : List OrderRow} (priced : Priced rows) (subset : rows' ⊆ rows) : Priced rows' :=
  fun row member => priced row (subset member)

/-- Orders whose reported positions are marked are marked. -/
theorem marked_of_positions (priced : Priced rows)
    (known : ∀ e ∈ (economics rows marks capital).positions, (marks.get? e.1).isSome) : Marked rows marks := by
  intro symbol held
  have sums := (fold_sums rows {} priced).held symbol
  have start : ({} : Totals).quantities.getD symbol 0 = 0 := rfl
  rw [start, zero_add] at sums
  cases found : (rows.foldl Totals.add {}).quantities.get? symbol with
  | none =>
    rw [Dict.getD, found] at sums
    exact absurd sums.symm held
  | some quantity =>
    rw [Dict.getD, found] at sums
    have open_ : quantity ≠ 0 := fun flat => held (sums.symm.trans flat)
    refine known (symbol, quantity) (List.mem_filter.mpr ⟨Dict.mem_entries.mpr found, ?_⟩)
    simpa using open_

theorem Round.classified {key : String × TradeClassification} {group : List OrderRow} (round : Round key group)
    (marks : Dict String ℚ) (capital : Option ℚ) (purpose : Purpose) :
    (trade marks capital purpose group).tradeClassification = key.2 ∧
      ∀ row ∈ group, tradeClassification row.link = key.2 := by
  have same : ∀ row ∈ group, tradeClassification row.link = key.2 :=
    fun row member => congrArg Prod.snd (round.alike row member)
  refine ⟨?_, same⟩
  cases group with
  | nil => exact absurd rfl round.begun
  | cons first rest => exact same first List.mem_cons_self

/-- The orders of a classification are those of its rounds. -/
theorem classified_rounds {groups : List (List OrderRow)} (rounds : ∀ group ∈ groups, ∃ key, Round key group)
    (marks : Dict String ℚ) (capital : Option ℚ) (purpose : Purpose) (classification : TradeClassification) :
    (groups.filter fun group =>
      (trade marks capital purpose group).tradeClassification = classification).flatten =
      classified groups.flatten classification := by
  unfold Performance.classified
  induction groups with
  | nil => rfl
  | cons group rest ih =>
    obtain ⟨key, round⟩ := rounds group List.mem_cons_self
    obtain ⟨whole, each⟩ := round.classified marks capital purpose
    have later := ih fun other member => rounds other (List.mem_cons_of_mem _ member)
    rw [List.flatten_cons, List.filter_append]
    by_cases same : key.2 = classification
    · rw [List.filter_cons_of_pos (by simp [whole, same]), List.flatten_cons, later]
      refine congrArg (· ++ _) (List.filter_eq_self.mpr fun row member => ?_).symm
      simp [each row member, same]
    · rw [List.filter_cons_of_neg (by simp [whole, same]), later]
      have none : (group.filter fun row => tradeClassification row.link = classification) = [] := by
        refine List.filter_eq_nil_iff.mpr fun row member => ?_
        simp [each row member, same]
      rw [none, List.nil_append]

theorem classifications_cover (classification : TradeClassification) : classification ∈ TradeClassification.all := by
  cases classification <;> decide

theorem classifications_nodup : TradeClassification.all.Nodup := by decide

/-- The report on orders that are confirmed, in their rounds. -/
theorem allocationLedgers_rounds (rows : List OrderRow) (marks : Dict String ℚ) (capital : Option ℚ)
    (purpose : Purpose) : (allocationLedgers rows marks capital purpose).separateLedgers =
      TradeClassification.all.map (ledger (confirmedRows rows)
        (tradeEconomics rows marks capital (reportingPurpose purpose (rows.map OrderRow.link))) marks capital
        (reportingPurpose purpose (rows.map OrderRow.link))) := by
  unfold allocationLedgers tradeEconomics
  dsimp only
  rw [confirmedRows_twice]

section valued

variable {groups : List (List OrderRow)}

/-- What the rounds and the ledgers of valued orders add up to. -/
structure Valued (rows : List OrderRow) (groups : List (List OrderRow)) (marks : Dict String ℚ) : Prop where
  sound : ∀ group ∈ groups, ∃ key, Round key group
  perm : groups.flatten.Perm (rows.filter OrderRow.isFilled)
  priced : Priced rows
  marked : ∀ group ∈ groups, Marked group marks

theorem Valued.priced_group (valued : Valued rows groups marks) {group : List OrderRow} (member : group ∈ groups) :
    Priced group :=
  valued.priced.subset fun _ listed =>
    (List.mem_filter.mp (valued.perm.subset (List.mem_flatten_of_mem member listed))).1

/-- The orders of a classification, in the rounds of it, are valued if all orders are. -/
theorem Valued.classified (valued : Valued rows groups marks) (capital : Option ℚ) (purpose : Purpose)
    (classification : TradeClassification) : Valued (classified rows classification)
      (groups.filter fun group => (trade marks capital purpose group).tradeClassification = classification)
      marks := by
  refine ⟨fun group member => valued.sound group (List.mem_filter.mp member).1, ?_,
    valued.priced.subset (List.filter_subset_self _), fun group member => valued.marked group (List.mem_filter.mp member).1⟩
  rw [classified_rounds valued.sound]
  refine (valued.perm.filter _).trans ?_
  unfold Performance.classified
  rw [List.filter_filter, List.filter_filter]
  exact .of_eq (List.filter_congr fun row _ => Bool.and_comm _ _)

/-- Valued orders gain and earn what their rounds do. -/
theorem Valued.rounds (valued : Valued rows groups marks) (capital : Option ℚ) :
    (economics rows marks capital).brokerPaperPnl =
      summed (groups.map fun group => (economics group marks capital).brokerPaperPnl) ∧
    (economics rows marks capital).economicPaperPnl =
      summed (groups.map fun group => (economics group marks capital).economicPaperPnl) := by
  have whole := economics_valued valued.priced (marked_of_rounds valued.perm valued.marked) capital
  have each (group : List OrderRow) (member : group ∈ groups) :=
    economics_valued (valued.priced_group member) (valued.marked group member) capital
  constructor
  · rw [whole.1, List.map_congr_left fun group member => (each group member).1, summed_known,
      sum_rounds valued.perm _ fun _ => gain_of_unfilled]
  · rw [whole.2, List.map_congr_left fun group member => (each group member).2, summed_known,
      sum_rounds valued.perm _ fun _ => earned_of_unfilled]

theorem sum_classified (f : OrderRow → ℚ) (rows : List OrderRow) :
    (TradeClassification.all.map fun c => ((classified rows c).map f).sum).sum = (rows.map f).sum := by
  have perm := Grouping.perm_groups (fun row : OrderRow => tradeClassification row.link) rows
    classifications_nodup fun _ _ => classifications_cover _
  rw [← (perm.map f).sum_eq, List.flatMap_def, List.map_flatten, List.sum_flatten, List.map_map, List.map_map]
  rfl

/-- They gain and earn what their ledgers do. -/
theorem Valued.ledgers (valued : Valued rows groups marks) (capital : Option ℚ) :
    (economics rows marks capital).brokerPaperPnl =
      summed (TradeClassification.all.map fun c =>
        (economics (Performance.classified rows c) marks capital).brokerPaperPnl) ∧
    (economics rows marks capital).economicPaperPnl =
      summed (TradeClassification.all.map fun c =>
        (economics (Performance.classified rows c) marks capital).economicPaperPnl) := by
  have whole := economics_valued valued.priced (marked_of_rounds valued.perm valued.marked) capital
  have each (c : TradeClassification) (_ : c ∈ TradeClassification.all) :=
    have part := valued.classified capital .research c
    economics_valued part.priced (marked_of_rounds part.perm part.marked) capital
  constructor
  · rw [whole.1, List.map_congr_left fun c member => (each c member).1, summed_known, sum_classified]
  · rw [whole.2, List.map_congr_left fun c member => (each c member).2, summed_known, sum_classified]

end valued

/-- The rounds of orders that are priced, and marked where they are open. -/
theorem valued_rounds (purpose : Purpose) (priced : Priced (confirmedRows rows))
    (known : ∀ round ∈ tradeEconomics rows marks capital purpose, ∀ e ∈ round.economics.positions,
      (marks.get? e.1).isSome) :
    Valued (confirmedRows rows) (roundsOf (confirmedRows rows)).groups marks := by
  obtain ⟨sound, perm⟩ := roundsOf_perm (confirmedRows rows)
  refine ⟨sound.rounds, perm, priced, fun group member => ?_⟩
  have part : Priced group := priced.subset fun _ listed =>
    (List.mem_filter.mp (perm.subset (List.mem_flatten_of_mem member listed))).1
  exact marked_of_positions part (known _ (List.mem_map_of_mem member))

/-- The ids of the confirmed orders that were filled. -/
def filledIds (rows : List OrderRow) : List String :=
  ((confirmedRows rows).filter OrderRow.isFilled).map OrderRow.clientOrderId

/-- The rounds list the filled orders. -/
theorem rounds_orders (rows : List OrderRow) (marks : Dict String ℚ) (capital : Option ℚ) (purpose : Purpose) :
    ((tradeEconomics rows marks capital purpose).flatMap Trade.orderIds).Perm (filledIds rows) := by
  have perm := (roundsOf_perm (confirmedRows rows)).2.map OrderRow.clientOrderId
  rw [List.map_flatten] at perm
  unfold tradeEconomics
  rw [List.flatMap_def, List.map_map]
  exact perm

/-- So do the ledgers. -/
theorem ledgers_orders (rows : List OrderRow) (marks : Dict String ℚ) (capital : Option ℚ) :
    (TradeClassification.all.flatMap fun c =>
      (economics (classified rows c) marks capital).executionCosts.map ExecutionCost.clientOrderId).Perm
      ((rows.filter OrderRow.isFilled).map OrderRow.clientOrderId) := by
  have perm := (Grouping.perm_groups (fun row : OrderRow => tradeClassification row.link)
    (rows.filter OrderRow.isFilled) classifications_nodup fun _ _ => classifications_cover _).map
    OrderRow.clientOrderId
  rw [List.flatMap_def, List.map_flatten, List.map_map] at perm
  refine .trans (.of_eq ?_) perm
  rw [List.flatMap_def]
  refine congrArg List.flatten (List.map_congr_left fun c _ => ?_)
  rw [economics_orders]
  unfold classified
  rw [Function.comp_apply, List.filter_filter, List.filter_filter]
  exact congrArg _ (List.filter_congr fun row _ => Bool.and_comm _ _)

/-- Each confirmed fill is of one round and of one ledger, an order counts once with its largest fill, and where fills
are priced and what is held is marked, the rounds and the ledgers add up to the whole. -/
theorem fills_partitioned (rows : List OrderRow) (marks : Dict String ℚ) (capital : Option ℚ) (purpose : Purpose)
    (report : LedgerReport) (rounds : List Trade) (reported : report = allocationLedgers rows marks capital purpose)
    (rebuilt : rounds = tradeEconomics rows marks capital (reportingPurpose purpose (rows.map OrderRow.link))) :
    ((confirmedRows rows).map OrderRow.clientOrderId).Nodup ∧
    (∀ row ∈ rows, ∃ kept ∈ confirmedRows rows, kept.clientOrderId = row.clientOrderId) ∧
    (∀ kept ∈ confirmedRows rows, kept ∈ rows ∧
      ∀ row ∈ rows, row.clientOrderId = kept.clientOrderId → row.filled ≤ kept.filled) ∧
    (rounds.flatMap Trade.orderIds).Perm (filledIds rows) ∧
    (report.separateLedgers.flatMap fun ledger =>
      ledger.economics.executionCosts.map ExecutionCost.clientOrderId).Perm (filledIds rows) ∧
    (report.separateLedgers.flatMap Ledger.trades).Perm rounds ∧
    (Priced (confirmedRows rows) →
      (∀ round ∈ rounds, ∀ e ∈ round.economics.positions, (marks.get? e.1).isSome) →
      (∃ broker economic, report.economics.brokerPaperPnl = some broker ∧
        report.economics.economicPaperPnl = some economic) ∧
      summed (report.separateLedgers.map fun ledger => ledger.economics.brokerPaperPnl) =
        report.economics.brokerPaperPnl ∧
      summed (rounds.map fun round => round.economics.brokerPaperPnl) = report.economics.brokerPaperPnl ∧
      summed (report.separateLedgers.map fun ledger => ledger.economics.economicPaperPnl) =
        report.economics.economicPaperPnl ∧
      summed (rounds.map fun round => round.economics.economicPaperPnl) = report.economics.economicPaperPnl) := by
  have separate : report.separateLedgers = TradeClassification.all.map (ledger (confirmedRows rows) rounds marks
      capital (reportingPurpose purpose (rows.map OrderRow.link))) := by
    rw [reported, rebuilt]
    exact allocationLedgers_rounds rows marks capital purpose
  have whole : report.economics = economics (confirmedRows rows) marks capital := congrArg _ reported
  refine ⟨confirmedRows_nodup rows, fun row member => ?_, fun kept member => ⟨?_, fun row listed same => ?_⟩,
    rebuilt ▸ rounds_orders rows marks capital _, ?_, ?_, fun priced known => ?_⟩
  · obtain ⟨kept, confirmed, -, same, -⟩ := confirmedRows_largest member
    exact ⟨kept, confirmed, same⟩
  · exact ((confirmed rows).owned _ kept (mem_confirmedRows.mp member)).1
  · obtain ⟨other, found, below⟩ := (confirmed rows).largest row listed
    rw [same, mem_confirmedRows.mp member] at found
    cases found
    exact below
  · rw [separate, List.flatMap_map]
    exact ledgers_orders _ marks capital
  · rw [separate, List.flatMap_map]
    exact Grouping.perm_groups _ _ classifications_nodup fun _ _ => classifications_cover _
  · have valued := valued_rounds _ priced (rebuilt ▸ known)
    have paid := economics_valued priced (marked_of_rounds valued.perm valued.marked) capital
    have byRound := valued.rounds capital
    have byLedger := valued.ledgers capital
    rw [separate, whole, List.map_map, List.map_map, rebuilt]
    unfold tradeEconomics
    rw [List.map_map, List.map_map]
    exact ⟨⟨_, _, paid⟩, byLedger.1.symm, byRound.1.symm, byLedger.2.symm, byRound.2.symm⟩

def filledRow (id : String) (side : Side) (filled price : ℚ) (filledNonneg : 0 ≤ filled) (kind : String) : OrderRow where
  clientOrderId := id
  brokerOrderId := some id
  symbol := "SPY"
  side
  quantity := 2
  createdAt := 0
  link :=
    { broker := some
        { orderId := id, status := "filled", filledQuantity := filled, filledAveragePrice := some price, filledNonneg }
      entryKind := some kind }

/-- A partial exit leaves one share of a round open, its order reported twice, beside a closed round of a test. -/
def partialExit : List OrderRow :=
  [filledRow "entry" .buy 1 10 (by norm_num) "strategy", filledRow "test" .buy 1 10 (by norm_num) "calibration",
    filledRow "entry" .buy 2 10 (by norm_num) "strategy", filledRow "exit" .sell 1 12 (by norm_num) "strategy",
    filledRow "tested" .sell 1 11 (by norm_num) "calibration"]

theorem fills_partitioned_partialExit :
    let report := allocationLedgers partialExit (Dict.empty.set "SPY" 13) (some 25)
    let rounds := tradeEconomics partialExit (Dict.empty.set "SPY" 13) (some 25) .research
    filledIds partialExit = ["entry", "test", "exit", "tested"] ∧
    report.economics.brokerPaperPnl = some 6 ∧
    summed (report.separateLedgers.map fun ledger => ledger.economics.brokerPaperPnl) = some 6 ∧
    summed (rounds.map fun round => round.economics.brokerPaperPnl) = some 6 := by
  have parts := fills_partitioned partialExit (Dict.empty.set "SPY" 13) (some 25) .research _ _ rfl rfl
  have priced : Priced (confirmedRows partialExit) := by
    unfold Priced
    decide +kernel
  have sums := parts.2.2.2.2.2.2 priced (by decide +kernel)
  have worth : (allocationLedgers partialExit (Dict.empty.set "SPY" 13) (some 25)).economics.brokerPaperPnl = some 6 := by
    decide +kernel
  exact ⟨by decide +kernel, worth, sums.2.1.trans worth, sums.2.2.1.trans worth⟩

end TradeAgent.Event.Performance
