import TradeAgent.Library.Dict
import TradeAgent.ScalpOrder

/-! The ownership projection of the scalp engine: which part of the account's coins each
cycle may call its own. A refresh reads the stored cycles with their orders, the account's
activities and the broker's positions, and writes everything in one transaction or nothing. -/
namespace TradeAgent.Scalp

inductive CycleState where
  | noFill | closedOwnedFlat | ownershipPending | exitPending | residual | entryPending | opened
  deriving DecidableEq, Repr

def CycleState.closed : CycleState → Bool
  | .noFill | .closedOwnedFlat => true
  | _ => false

inductive Settlement where
  | settled | evidencePending | mixedUnresolved | positionPending | orderPositionPending
  | provisionalNet
  deriving DecidableEq, Repr

def Settlement.unresolved : Settlement → Bool
  | .evidencePending | .mixedUnresolved | .positionPending | .orderPositionPending => true
  | .settled | .provisionalNet => false

/-- The ownership record of a cycle; a record of an earlier version lacks some of it. -/
structure Ownership where
  version : Option ℕ := none
  netEntitlement : Option ℚ := none
  establishedEntitlement : Option ℚ := none
  acknowledgedNetUpperBound : Option ℚ := none
  unresolvedAcknowledgedCredit : Option ℚ := none
  cumulativeOwnedBuys : Option ℚ := none
  cumulativeOwnedSells : Option ℚ := none
  cumulativeReduction : Option ℚ := none
  provenBaseFees : Option ℚ := none
  provenExternalDisposals : Option ℚ := none
  provisionalReduction : Option ℚ := none
  unresolvedSettlementQuantity : Option ℚ := none
  unresolvedBuyQuantity : Option ℚ := none
  settlementState : Option Settlement := none
  mixedFlowPending : Option Bool := none
  unresolved : Option Bool := none
  balanceSettlementAllowed : Option Bool := none
  positionObservedAt : Option Instant := none
  deriving DecidableEq

structure Ledger where
  ownedQuantity : ℚ
  entryQuantity : ℚ
  exitQuantity : ℚ
  actualBaseFees : ℚ
  deriving DecidableEq

/-- A stored cycle. The ledger keeps exact quantities once one was written; until then the
row's own columns stand in. -/
structure OwnedCycle where
  cycleId : String
  symbol : String
  createdAt : Instant
  updatedAt : Instant
  state : CycleState
  columns : Ledger
  ledger : Option Ledger := none
  ownership : Ownership := {}
  exitRequested : Bool := false

def ledgerAmount (cycle : OwnedCycle) (key : Ledger → ℚ) : ℚ := key (cycle.ledger.getD cycle.columns)

inductive ActivityKind where
  | fill | cfee | fee | other
  deriving DecidableEq, Repr

def ActivityKind.isFee : ActivityKind → Bool
  | .cfee | .fee => true
  | _ => false

/-- A stored account activity; `byOrder` says it was attributed by its broker order. -/
structure Activity where
  activityKey : String
  kind : ActivityKind
  side : Option Side
  symbol : Option String
  occurredAt : Instant
  cycleId : Option String
  brokerOrderId : Option String
  byOrder : Bool
  quantity : ℚ
  netAmount : ℚ
  executed : Bool
  dollars : Bool

/-- What was accounted for of a symbol's foreign activity; records of an earlier version
have no provisional reduction. -/
structure Evidence where
  buys : ℚ := 0
  sells : ℚ := 0
  fees : ℚ := 0
  provisionalReduction : Option ℚ := none
  newBuys : ℚ := 0
  unsettledExternalCredit : Bool := false
  deriving DecidableEq

structure AccountState where
  capturedAt : Instant
  unownedPositions : Dict String ℚ
  initialUnownedPositions : Dict String ℚ
  foreignEvidence : Dict String Evidence
  externalAcquisitions : Dict String ℚ
  externalDebits : Dict String ℚ
  ownershipPositions : Dict String ℚ
  activityWatermark : Option Instant
  activityInitialComplete : Bool
  activityWindowUntil : Option Instant

/-- Everything one pass reads: stored rows, the engine's positions, and its arguments. -/
structure Reading where
  cycles : List OwnedCycle
  orders : String → List OwnedOrder
  account : AccountState
  activities : List Activity
  ownedBrokerIds : List String
  positions : Dict String ℚ
  positionsAt : Option Instant
  minOrderSize : String → Option ℚ
  protectBeforeBuy : Option String

inductive RefreshError where
  | missingWatermark | missingAsset | fillsRegressed | lease | projectionChanged | cycleChanged
  deriving DecidableEq, Repr

def RefreshError.text : RefreshError → String
  | .missingWatermark => "activity_watermark"
  | .missingAsset => "crypto asset unavailable"
  | .fillsRegressed => "owned cumulative fills regressed"
  | .lease => "current fresh global event-worker lease required"
  | .projectionChanged => "ownership projection changed during reconciliation"
  | .cycleChanged => "cycle changed during ownership reconciliation"

def OwnedOrder.acknowledged (order : OwnedOrder) : ℚ := previousQuantity order.broker

def filledOn (side : Side) (rows : List OwnedOrder) : ℚ :=
  ((rows.filter fun row => row.intent.side = side).map OwnedOrder.acknowledged).sum

def positive (x : ℚ) : ℚ := max 0 x

section Foreign

structure Totals where
  buys : ℚ := 0
  sells : ℚ := 0
  fees : ℚ := 0

/-- Activities of the account that belong to no owned order. -/
def foreignActivities (r : Reading) : List Activity := r.activities.filter fun row =>
  r.account.capturedAt < row.occurredAt && row.cycleId = none &&
    match row.brokerOrderId with
    | some id => id ∉ r.ownedBrokerIds
    | none => false

/-- The symbol an activity is accounted under, if the positions already reflect it. -/
def accountedSymbol (r : Reading) (row : Activity) : Option String :=
  match row.symbol, r.positionsAt with
  | some symbol, some observed => if symbol ≠ "" ∧ row.occurredAt ≤ observed then some symbol else none
  | _, _ => none

def addTotals (quantityOf : Activity → ℚ) (total : Totals) (row : Activity) : Totals :=
  if row.kind = .fill ∧ 0 < row.quantity ∧ row.side = some .buy then
    { total with buys := total.buys + quantityOf row }
  else if row.kind = .fill ∧ 0 < row.quantity ∧ row.side = some .sell then
    { total with sells := total.sells + quantityOf row }
  else if row.kind.isFee ∧ row.quantity < 0 ∧ row.netAmount = 0 ∧ row.executed ∧ row.dollars then
    { total with fees := total.fees + quantityOf row }
  else total

/-- What the positions reflect of a symbol's foreign activity. -/
def foreignTotals (rows : List Activity) : Totals := rows.foldl (addTotals fun row => |row.quantity|) {}

/-- What an earlier version had accounted for, activity by activity. -/
def legacyTotals (account : AccountState) (rows : List Activity) : Totals :=
  rows.foldl (addTotals fun row =>
    if row.side = some .buy ∧ row.kind = .fill then account.externalAcquisitions.getD row.activityKey 0
    else account.externalDebits.getD row.activityKey 0) {}

structure Debit where
  quantity : ℚ
  evidence : Evidence
  disposal : ℚ
  acquired : Bool

def externalDebit (account : AccountState) (symbol : String) (rows : List Activity) : Debit :=
  let total := foreignTotals rows
  let legacy := legacyTotals account rows
  let held := account.unownedPositions.getD symbol 0
  let previous := (account.foreignEvidence.get? symbol).getD
    { buys := legacy.buys, sells := legacy.sells, fees := legacy.fees }
  let oldProvisional := previous.provisionalReduction.getD
    (positive (account.initialUnownedPositions.getD symbol 0 + previous.buys - previous.sells -
      previous.fees - held))
  let newBuys := positive (total.buys - previous.buys)
  let newSells := positive (total.sells - previous.sells)
  let newFees := positive (total.fees - previous.fees)
  let feeOverlap := min oldProvisional newFees
  let available := held + newBuys
  let debit := newSells + newFees - feeOverlap
  { quantity := positive (available - debit)
    evidence := {
      buys := max previous.buys total.buys
      sells := max previous.sells total.sells
      fees := max previous.fees total.fees
      provisionalReduction := some (oldProvisional - feeOverlap)
      newBuys := newBuys
      unsettledExternalCredit := previous.unsettledExternalCredit ||
        (decide (0 < newFees) && decide (feeOverlap < oldProvisional)) }
    disposal := positive (debit - available)
    acquired := newBuys ≠ 0 }

/-- Every symbol with protected inventory, foreign activity or earlier evidence. -/
def debitSymbols (r : Reading) : List String :=
  (r.account.unownedPositions.keys ++ (foreignActivities r).filterMap (accountedSymbol r) ++
    r.account.foreignEvidence.keys).dedup

def externalInventoryDebits (r : Reading) : Dict String Debit :=
  .ofList ((debitSymbols r).map fun symbol => (symbol, externalDebit r.account symbol
    ((foreignActivities r).filter fun row => accountedSymbol r row = some symbol)))

end Foreign

/-- What the first pass over the cycles establishes of one. -/
structure Fact where
  upper : ℚ
  claim : ℚ
  safeCarry : ℚ
  pendingBuy : ℚ
  mixed : Bool
  closed : Bool
  recoveryCredit : Bool
  acknowledgedUpper : ℚ
  provenFee : ℚ
  disposal : ℚ
  newBuys : ℚ
  newSells : ℚ
  unacknowledgedBuy : ℚ

def feeRows (r : Reading) (cycle : OwnedCycle) : List Activity :=
  r.activities.filter fun row => row.cycleId = some cycle.cycleId && row.kind.isFee

def baseFees (rows : List Activity) : ℚ :=
  ((rows.filter Activity.byOrder).map fun row => -row.quantity).sum

def unacknowledgedBuy (rows : List OwnedOrder) : ℚ :=
  ((rows.filter fun row => row.intent.side = .buy && !row.status.final &&
    row.submissionStartedAt.isSome).map fun row =>
      positive (row.intent.quantity - row.acknowledged)).sum

/-- The disposal a cycle is charged of what is left to charge on its symbol. -/
def chargedDisposal (closed : Bool) (delta room : ℚ) : ℚ :=
  if closed then 0 else min delta (positive room)

def fact (r : Reading) (acquired : Bool) (delta : ℚ) (cycle : OwnedCycle) : Fact × ℚ :=
  let rows := r.orders cycle.cycleId
  let bought := filledOn .buy rows
  let sold := filledOn .sell rows
  let previous := cycle.ownership
  let previousBought := ledgerAmount cycle Ledger.entryQuantity
  let previousSold := ledgerAmount cycle Ledger.exitQuantity
  let previousSafe := ledgerAmount cycle Ledger.ownedQuantity
  let previousClaim := previous.establishedEntitlement.getD previousSafe
  let paid := baseFees (feeRows r cycle)
  let provenFee := max paid
    (previous.provenBaseFees.getD ((cycle.ledger.map Ledger.actualBaseFees).getD 0))
  let closed := cycle.state.closed && bought = previousBought && sold = previousSold
  let previousDisposal := previous.provenExternalDisposals.getD 0
  let disposal := chargedDisposal closed delta (bought - sold - provenFee - previousDisposal)
  let totalDisposal := previousDisposal + disposal
  let upper := positive (bought - sold - provenFee - totalDisposal)
  let recoveryCredit := closed && decide (0 < paid) && decide (0 < upper)
  let carry := min upper (positive (previousClaim - (sold - previousSold) - disposal))
  let safeCarry := min carry (positive (previousSafe - (sold - previousSold) - disposal))
  let pendingBuy := previous.unresolvedBuyQuantity.getD 0 + (bought - previousBought)
  let pendingBuy :=
    if previous.version ≠ some 2 ∧ 0 < bought ∧ previousSafe = 0 ∧ sold = 0 then max pendingBuy bought
    else pendingBuy
  let pendingBuy := if closed then 0 else pendingBuy
  let mixed := previous.mixedFlowPending.getD (previous.settlementState = some .mixedUnresolved) ||
    (decide (0 < pendingBuy) && acquired)
  ({ upper := if closed && !recoveryCredit then 0 else upper
     claim := if closed then 0 else carry
     safeCarry := if closed then 0 else safeCarry
     pendingBuy := pendingBuy
     mixed := mixed
     closed := closed
     recoveryCredit := recoveryCredit
     acknowledgedUpper := upper
     provenFee := provenFee
     disposal := totalDisposal
     newBuys := bought - previousBought
     newSells := sold - previousSold
     unacknowledgedBuy := unacknowledgedBuy rows },
   disposal)

def acquiredSymbol (debits : Dict String Debit) (symbol : String) : Bool :=
  ((debits.get? symbol).map Debit.acquired).getD false

/-- The first pass: disposals are charged to the cycles of a symbol in turn. -/
def facts (r : Reading) (debits : Dict String Debit) :
    Dict String ℚ → List OwnedCycle → List (OwnedCycle × Fact)
  | _, [] => []
  | deltas, cycle :: rest =>
    let delta := deltas.getD cycle.symbol 0
    let result := fact r (acquiredSymbol debits cycle.symbol) delta cycle
    (cycle, result.1) :: facts r debits (deltas.set cycle.symbol (positive (delta - result.2))) rest

def totalOf (of_ : Fact → ℚ) (known : List (OwnedCycle × Fact)) (symbol : String) : ℚ :=
  ((known.filter fun k => k.1.symbol = symbol).map fun k => of_ k.2).sum

def pendingSymbol (known : List (OwnedCycle × Fact)) (symbol : String) : Bool :=
  known.any fun k => k.1.symbol = symbol &&
    (decide (0 < k.2.pendingBuy) || k.2.mixed || decide (0 < k.2.unacknowledgedBuy))

/-- Protected inventory and evidence of one symbol, where it has any. -/
structure Protection where
  quantity : Option ℚ
  evidence : Option Evidence

def Protection.amount (p : Protection) : ℚ := p.quantity.getD 0

def Protection.reduce (p : Protection) (reduction quantity : ℚ) : Protection :=
  { quantity := some quantity
    evidence := p.evidence.map fun e =>
      { e with provisionalReduction := some (e.provisionalReduction.getD 0 + reduction) } }

/-- A provisional credit is given back once the position has room for it. -/
def restoreCredit (room : ℚ) (p : Protection) : Protection :=
  match p.evidence with
  | some e =>
    let restored := p.amount + e.provisionalReduction.getD 0
    if e.unsettledExternalCredit ∧ restored ≤ room then
      { quantity := some restored
        evidence := some { e with provisionalReduction := some 0, unsettledExternalCredit := false } }
    else p
  | none => p

/-- Surplus of an acquired symbol is protected, unless pending owned fills may explain it. -/
def protectSurplus (r : Reading) (known : List (OwnedCycle × Fact)) (symbol : String)
    (p : Protection) : Protection :=
  let observed := r.positions.getD symbol 0 - totalOf Fact.safeCarry known symbol
  if pendingSymbol known symbol then
    if 0 ≤ observed ∧ observed < p.amount then p.reduce (p.amount - observed) observed else p
  else if 0 ≤ observed ∧ (r.protectBeforeBuy = some symbol ∨
      r.account.unownedPositions.getD symbol 0 < observed) then
    let kept := if totalOf Fact.safeCarry known symbol < totalOf Fact.upper known symbol then
        min observed p.amount
      else observed
    p.reduce (positive (p.amount - kept)) kept
  else p

def protection (r : Reading) (debits : Dict String Debit) (known : List (OwnedCycle × Fact))
    (evidenceReady : Bool) (symbol : String) : Protection :=
  let p : Protection := match debits.get? symbol with
    | some d => ⟨some d.quantity, some d.evidence⟩
    | none => ⟨none, none⟩
  if evidenceReady then
    let p := restoreCredit (r.positions.getD symbol 0 - totalOf Fact.safeCarry known symbol) p
    if acquiredSymbol debits symbol ∨ r.protectBeforeBuy = some symbol then
      protectSurplus r known symbol p
    else p
  else p

def watermarkReached (r : Reading) : Except RefreshError Bool :=
  match r.positionsAt with
  | none => .ok false
  | some observed => match r.account.activityWatermark with
    | some watermark => .ok (decide (observed ≤ watermark))
    | none => .error .missingWatermark

def evidenceReady (r : Reading) : Except RefreshError Bool :=
  if r.account.activityInitialComplete ∧ r.account.activityWindowUntil = none then watermarkReached r
  else .ok false

/-- What the second pass decides about one cycle. -/
structure Settled where
  owned : ℚ
  claim : ℚ
  cap : ℚ
  pendingBuy : ℚ
  mixed : Bool
  growFromPosition : Bool
  settlement : Settlement

def filledBuyIds (rows : List OwnedOrder) : List (Option String) :=
  (rows.filter fun row => row.intent.side = .buy && decide (0 < row.acknowledged)).map
    OwnedOrder.brokerOrderId

/-- Every filled buy has a fee attributed to it. -/
def buyFeeEvidence (rows : List OwnedOrder) (fees : List Activity) : Bool :=
  let buys := filledBuyIds rows
  let exact_ := (fees.filter Activity.byOrder).map Activity.brokerOrderId
  !buys.isEmpty && buys.all (· ∈ exact_)

/-- The position itself settles the cycle's claim, as far as it fits under the bound. -/
def settleFromPosition (f : Fact) (observed : ℚ) (feeEvidence acquired grow : Bool) : Settled :=
  if observed ≤ f.upper then
    let claim := max f.claim observed
    let claim := if 0 < f.pendingBuy ∧ feeEvidence then f.upper else claim
    let owned := min claim observed
    let pendingBuy := if 0 < owned ∧ (!feeEvidence ∨ owned = claim) then 0 else f.pendingBuy
    { owned := owned, claim := claim, cap := f.upper, pendingBuy := pendingBuy, mixed := f.mixed
      growFromPosition := grow
      settlement :=
        if owned < claim ∨ (0 < pendingBuy ∧ owned = 0) then .positionPending
        else if owned < f.upper then .provisionalNet
        else .settled }
  else
    let owned := min f.safeCarry observed
    if !f.mixed ∧ !acquired ∧ 0 < f.unacknowledgedBuy ∧ observed ≤ f.upper + f.unacknowledgedBuy then
      { owned := owned, claim := f.claim, cap := f.upper, pendingBuy := f.pendingBuy, mixed := f.mixed
        growFromPosition := true, settlement := .orderPositionPending }
    else
      { owned := owned, claim := f.claim, cap := f.upper, pendingBuy := f.pendingBuy, mixed := true
        growFromPosition := false, settlement := .mixedUnresolved }

/-- A settled cycle keeps its claim; what is left of a finished one below the smallest
order is dropped as dust. -/
def settleClaim (f : Fact) (observed : ℚ) (grow : Bool) (sold : ℚ) (rows : List OwnedOrder)
    (dustLimit : ℚ) : Settled :=
  let owned := min f.claim observed
  if 0 < sold ∧ rows ≠ [] ∧ (rows.all fun row => row.status.final) ∧
      max (max (max owned f.claim) f.upper) observed < dustLimit then
    { owned := 0, claim := 0, cap := 0, pendingBuy := f.pendingBuy, mixed := f.mixed
      growFromPosition := grow, settlement := .settled }
  else
    { owned := owned, claim := f.claim, cap := f.upper, pendingBuy := f.pendingBuy, mixed := f.mixed
      growFromPosition := grow
      settlement :=
        if owned < f.claim then .positionPending
        else if owned < f.upper then .provisionalNet
        else .settled }

def alreadyClosed (f : Fact) (jointSettled : Bool) : Bool :=
  f.closed && !(f.recoveryCredit && jointSettled)

/-- A cycle whose position or evidence is still in doubt keeps what it safely had. -/
def settleSafe (f : Fact) (observed : ℚ) (grow : Bool) (settlement : Settlement) : Settled :=
  { owned := min f.safeCarry observed, claim := f.claim, cap := f.upper, pendingBuy := f.pendingBuy
    mixed := f.mixed, growFromPosition := grow, settlement := settlement }

/-- All fees of the buys are known and the account's balance adds up. -/
def settleJointFees (f : Fact) (observed : ℚ) : Settled :=
  let owned := min f.upper observed
  let pendingBuy := positive (f.upper - owned)
  { owned := owned, claim := f.upper, cap := f.upper, pendingBuy := pendingBuy, mixed := false
    growFromPosition := false
    settlement := if pendingBuy = 0 then .settled else .positionPending }

/-- The account's balance adds up while fees are still outstanding. -/
def settleJoint (f : Fact) (observed : ℚ) : Settled :=
  let owned := min f.upper observed
  { owned := owned, claim := f.upper, cap := f.upper
    pendingBuy := if owned = f.upper then 0 else f.pendingBuy, mixed := false
    growFromPosition := false
    settlement := if owned = f.upper then .settled else .positionPending }

def settleClosed (f : Fact) (grow : Bool) : Settled :=
  { owned := 0, claim := 0, cap := f.upper, pendingBuy := 0, mixed := f.mixed
    growFromPosition := grow, settlement := .settled }

def growFromPosition (cycle : OwnedCycle) (f : Fact) (acquired : Bool) : Bool :=
  let previousOwned := ledgerAmount cycle Ledger.ownedQuantity
  (cycle.ownership.balanceSettlementAllowed.getD (previousOwned = 0) || decide (0 < f.newBuys)) &&
    !(acquired || decide (0 < f.newSells) || f.mixed)

def settle (r : Reading) (evidenceReady jointSettled acquired : Bool) (cycle : OwnedCycle) (f : Fact)
    (observed : ℚ) : Except RefreshError Settled :=
  let rows := r.orders cycle.cycleId
  let feeEvidence := buyFeeEvidence rows (feeRows r cycle)
  let grow := growFromPosition cycle f acquired
  if alreadyClosed f jointSettled then .ok (settleClosed f grow)
  else if !evidenceReady then .ok (settleSafe f observed grow .evidencePending)
  else if f.mixed ∧ !jointSettled then .ok (settleSafe f observed grow .mixedUnresolved)
  else if feeEvidence ∧ jointSettled then .ok (settleJointFees f observed)
  else if f.mixed ∨ (0 < f.pendingBuy ∧ jointSettled) then .ok (settleJoint f observed)
  else if grow ∨ 0 < f.pendingBuy then .ok (settleFromPosition f observed feeEvidence acquired grow)
  else match r.minOrderSize cycle.symbol with
    | some limit => .ok (settleClaim f observed grow (filledOn .sell rows) rows limit)
    | none => .error .missingAsset

def nextOwnership (r : Reading) (f : Fact) (s : Settled) (bought sold : ℚ) : Ownership :=
  let provisionalDebit := positive (bought - sold - s.claim - f.provenFee - f.disposal - s.pendingBuy)
  { version := some 2
    netEntitlement := some s.owned
    establishedEntitlement := some s.claim
    acknowledgedNetUpperBound := some s.cap
    unresolvedAcknowledgedCredit := some (positive (f.acknowledgedUpper - s.claim))
    cumulativeOwnedBuys := some bought
    cumulativeOwnedSells := some sold
    cumulativeReduction := some (f.provenFee + f.disposal + provisionalDebit)
    provenBaseFees := some f.provenFee
    provenExternalDisposals := some f.disposal
    provisionalReduction := some provisionalDebit
    unresolvedSettlementQuantity := some (positive (s.cap - s.owned))
    unresolvedBuyQuantity := some s.pendingBuy
    settlementState := some s.settlement
    mixedFlowPending := some s.mixed
    unresolved := some s.settlement.unresolved
    balanceSettlementAllowed := some s.growFromPosition
    positionObservedAt := r.positionsAt }

def nextState (cycle : OwnedCycle) (rows : List OwnedOrder) (s : Settled) (closed : Bool)
    (bought sold position held : ℚ) : CycleState :=
  let pending := rows.any fun row => !row.status.final
  let allFinal := !rows.isEmpty && !pending
  if rows.isEmpty ∨ (allFinal ∧ bought = 0) then .noFill
  else if s.settlement.unresolved then .ownershipPending
  else if allFinal ∧ s.owned = 0 ∧ s.claim = 0 ∧ 0 < sold ∧
      (closed ∨ s.cap = 0 ∨ position ≤ held) then .closedOwnedFlat
  else if cycle.exitRequested then (if pending then .exitPending else .residual)
  else if pending then .entryPending
  else .opened

def written (r : Reading) (now : Instant) (jointSettled : Bool) (held : ℚ) (cycle : OwnedCycle)
    (f : Fact) (s : Settled) : OwnedCycle :=
  let rows := r.orders cycle.cycleId
  let bought := filledOn .buy rows
  let sold := filledOn .sell rows
  let ledger : Ledger := ⟨s.owned, bought, sold, baseFees (feeRows r cycle)⟩
  { cycle with
    updatedAt := now
    state := nextState cycle rows s (alreadyClosed f jointSettled) bought sold
      (r.positions.getD cycle.symbol 0) held
    columns := ledger, ledger := some ledger
    ownership := nextOwnership r f s bought sold }

/-- The second pass: cycles draw on the symbol's remaining position in turn. -/
def settleAll (r : Reading) (now : Instant) (evidenceReady : Bool) (debits : Dict String Debit)
    (held : String → ℚ) (jointSettled : String → Bool) :
    (remaining : String → ℚ) → List (OwnedCycle × Fact) → Except RefreshError (List OwnedCycle)
  | _, [] => .ok []
  | remaining, (cycle, f) :: rest =>
    if f.newBuys < 0 ∨ f.newSells < 0 then .error .fillsRegressed
    else do
      let s ← settle r evidenceReady (jointSettled cycle.symbol) (acquiredSymbol debits cycle.symbol)
        cycle f (remaining cycle.symbol)
      let later ← settleAll r now evidenceReady debits held jointSettled
        (fun symbol => if symbol = cycle.symbol then positive (remaining symbol - s.owned)
          else remaining symbol) rest
      return written r now (jointSettled cycle.symbol) (held cycle.symbol) cycle f s :: later

/-- All that a completed refresh writes. -/
structure Projection where
  cycles : List OwnedCycle
  unownedPositions : Dict String ℚ
  foreignEvidence : Dict String Evidence
  ownershipPositions : Dict String ℚ

def byCreation (cycles : List OwnedCycle) : List OwnedCycle :=
  cycles.mergeSort fun a b => decide (a.createdAt ≤ b.createdAt)

/-- Symbols whose protection a refresh may write. -/
def protectedSymbols (r : Reading) (debits : Dict String Debit) : List String :=
  (debits.keys ++ r.protectBeforeBuy.toList).dedup

def project (r : Reading) (now : Instant) : Except RefreshError Projection := do
  let ready ← evidenceReady r
  let debits := externalInventoryDebits r
  let deltas : Dict String ℚ := .ofList (debits.entries.map fun e => (e.1, e.2.disposal))
  let known := facts r debits deltas (byCreation r.cycles)
  let protections := protection r debits known ready
  let unowned : Dict String ℚ := .ofList ((protectedSymbols r debits).filterMap fun symbol =>
    (protections symbol).quantity.map fun q => (symbol, q))
  let evidence : Dict String Evidence := .ofList (debits.keys.filterMap fun symbol =>
    (protections symbol).evidence.map fun e => (symbol, e))
  let jointSettled symbol := ready &&
    r.positions.getD symbol 0 = unowned.getD symbol 0 + totalOf Fact.upper known symbol
  let remaining symbol := match r.positions.get? symbol with
    | some value => positive (value - unowned.getD symbol 0)
    | none => 0
  let cycles ← settleAll r now ready debits (unowned.getD · 0) jointSettled remaining known
  return ⟨cycles, unowned, evidence, r.positions⟩

/-- What the writing transaction finds: the lease, the projection stored by now, and the
version of each cycle. -/
structure Found where
  leased : Bool
  unownedPositions : Dict String ℚ
  foreignEvidence : Dict String Evidence
  ownershipPositions : Dict String ℚ
  versions : String → Option Instant

def commit (r : Reading) (found : Found) (p : Projection) : Except RefreshError Projection :=
  if found.leased = false then .error .lease
  else if ¬(found.unownedPositions.Same r.account.unownedPositions ∧
      found.foreignEvidence.Same r.account.foreignEvidence ∧
      found.ownershipPositions.Same r.account.ownershipPositions) then .error .projectionChanged
  else if r.cycles.all fun c => found.versions c.cycleId = some c.updatedAt then .ok p
  else .error .cycleChanged

/-- Whether the account's activities must be read anew before the projection is made. -/
def needsSync (r : Reading) : Bool :=
  let changedFills := r.cycles.any fun c =>
    decide (filledOn .buy (r.orders c.cycleId) ≠ ledgerAmount c Ledger.entryQuantity) ||
    decide (filledOn .sell (r.orders c.cycleId) ≠ ledgerAmount c Ledger.exitQuantity)
  let positionChanged := !decide (r.positions.Same r.account.ownershipPositions)
  match r.positionsAt with
  | none => false
  | some observed =>
    let stale := match r.account.activityWatermark with
      | none => true
      | some watermark => decide (watermark < observed)
    changedFills || positionChanged ||
      ((!r.cycles.isEmpty || r.protectBeforeBuy.isSome) && stale)

/-- One refresh: `synced` is what is read after the activities were synchronised. -/
def refreshCycles (r synced : Reading) (now later : Instant) (found : Found) :
    Except RefreshError Projection :=
  if needsSync r then project synced later >>= commit synced found
  else project r now >>= commit r found

theorem positive_nonneg (x : ℚ) : 0 ≤ positive x := le_max_left _ _

theorem positive_of_nonneg {x : ℚ} (nonneg : 0 ≤ x) : positive x = x := max_eq_right nonneg

/-- The bounds the first pass establishes are all nonnegative. -/
structure Fact.Bounded (f : Fact) : Prop where
  upper : 0 ≤ f.upper
  claim : 0 ≤ f.claim
  safeCarry : 0 ≤ f.safeCarry

theorem fact_bounded (r : Reading) (acquired : Bool) (delta : ℚ) (cycle : OwnedCycle) :
    (fact r acquired delta cycle).1.Bounded where
  upper := by
    dsimp only [fact]
    split
    next => exact le_refl _
    next => exact positive_nonneg _
  claim := by
    dsimp only [fact]
    split
    next => exact le_refl _
    next => exact le_min (positive_nonneg _) (positive_nonneg _)
  safeCarry := by
    dsimp only [fact]
    split
    next => exact le_refl _
    next => exact le_min (le_min (positive_nonneg _) (positive_nonneg _)) (positive_nonneg _)

theorem facts_bounded (r : Reading) (debits : Dict String Debit) (deltas : Dict String ℚ)
    (cycles : List OwnedCycle) : ∀ k ∈ facts r debits deltas cycles, k.2.Bounded := by
  induction cycles generalizing deltas with
  | nil => simp [facts]
  | cons cycle rest ih =>
    simp only [facts, List.forall_mem_cons]
    exact ⟨fact_bounded _ _ _ _, ih _⟩

section Settle

variable {f : Fact} {observed : ℚ}

/-- A cycle is given something between nothing and what is left of the position. -/
structure Settled.Within (s : Settled) (observed : ℚ) : Prop where
  nonneg : 0 ≤ s.owned
  within : s.owned ≤ observed

theorem settleFromPosition_within (bounded : f.Bounded) (nonneg : 0 ≤ observed)
    (feeEvidence acquired grow : Bool) :
    (settleFromPosition f observed feeEvidence acquired grow).Within observed := by
  unfold settleFromPosition
  dsimp only
  split
  next under =>
    refine ⟨le_min ?_ nonneg, min_le_right _ _⟩
    split
    next => exact bounded.upper
    next => exact le_max_of_le_left bounded.claim
  next => split <;> exact ⟨le_min bounded.safeCarry nonneg, min_le_right _ _⟩

theorem settleClaim_within (bounded : f.Bounded) (nonneg : 0 ≤ observed) (grow : Bool) (sold : ℚ)
    (rows : List OwnedOrder) (dustLimit : ℚ) :
    (settleClaim f observed grow sold rows dustLimit).Within observed := by
  unfold settleClaim
  dsimp only
  split
  next => exact ⟨le_refl _, nonneg⟩
  next => exact ⟨le_min bounded.claim nonneg, min_le_right _ _⟩

/-- Whichever settlement applies, it stays within the remaining position. -/
theorem settle_within {r : Reading} {evidenceReady jointSettled acquired : Bool} {cycle : OwnedCycle}
    {s : Settled} (bounded : f.Bounded) (nonneg : 0 ≤ observed)
    (settled : settle r evidenceReady jointSettled acquired cycle f observed = .ok s) :
    s.Within observed := by
  unfold settle at settled
  dsimp only at settled
  repeat' split at settled
  all_goals cases settled
  next => exact ⟨le_refl _, nonneg⟩
  next => exact ⟨le_min bounded.safeCarry nonneg, min_le_right _ _⟩
  next => exact ⟨le_min bounded.safeCarry nonneg, min_le_right _ _⟩
  next => exact ⟨le_min bounded.upper nonneg, min_le_right _ _⟩
  next => exact ⟨le_min bounded.upper nonneg, min_le_right _ _⟩
  next => exact settleFromPosition_within bounded nonneg _ _ _
  next => exact settleClaim_within bounded nonneg _ _ _ _

end Settle

def ownedOf (cycles : List OwnedCycle) (symbol : String) : ℚ :=
  ((cycles.filter fun c => c.symbol = symbol).map fun c => c.columns.ownedQuantity).sum

/-- Drawing in turn on what remains, the cycles of a symbol never draw more than it. -/
theorem settleAll_within {r : Reading} {now : Instant} {evidenceReady : Bool}
    {debits : Dict String Debit} {held : String → ℚ} {jointSettled : String → Bool}
    {remaining : String → ℚ} {known : List (OwnedCycle × Fact)} {cycles : List OwnedCycle}
    (bounded : ∀ k ∈ known, k.2.Bounded) (nonneg : ∀ symbol, 0 ≤ remaining symbol)
    (settled : settleAll r now evidenceReady debits held jointSettled remaining known = .ok cycles) :
    (∀ c ∈ cycles, 0 ≤ c.columns.ownedQuantity) ∧ ∀ symbol, ownedOf cycles symbol ≤ remaining symbol := by
  induction known generalizing remaining cycles with
  | nil => cases settled; exact ⟨by simp, fun symbol => by simpa [ownedOf] using nonneg symbol⟩
  | cons k rest ih =>
    obtain ⟨cycle, f⟩ := k
    rw [List.forall_mem_cons] at bounded
    rw [settleAll] at settled
    split at settled
    next => cases settled
    next =>
      cases first : settle r evidenceReady (jointSettled cycle.symbol)
          (acquiredSymbol debits cycle.symbol) cycle f (remaining cycle.symbol) with
      | error e => rw [first] at settled; cases settled
      | ok s =>
        have within := settle_within bounded.1 (nonneg _) first
        cases others : settleAll r now evidenceReady debits held jointSettled
            (fun symbol => if symbol = cycle.symbol then positive (remaining symbol - s.owned)
              else remaining symbol) rest with
        | error e => simp only [first, others, bind, Except.bind] at settled; cases settled
        | ok later =>
          simp only [first, others, bind, Except.bind, pure, Except.pure, Except.ok.injEq] at settled
          subst settled
          obtain ⟨owned, sums⟩ := ih bounded.2 (fun symbol => by
            split
            next => exact positive_nonneg _
            next => exact nonneg _) others
          refine ⟨by rw [List.forall_mem_cons]; exact ⟨within.nonneg, owned⟩, fun symbol => ?_⟩
          have sum := sums symbol
          by_cases same : cycle.symbol = symbol
          · subst same
            rw [if_pos rfl, positive_of_nonneg (by linarith [within.within])] at sum
            simp only [ownedOf, written, List.filter_cons, decide_true, if_true, List.map_cons,
              List.sum_cons] at sum ⊢
            linarith
          · rw [if_neg (Ne.symm same)] at sum
            simpa [ownedOf, written, same] using sum

theorem commit_same {r : Reading} {found : Found} {p q : Projection} (done : commit r found p = .ok q) :
    q = p := by
  unfold commit at done
  repeat' split at done
  all_goals cases done
  rfl

theorem project_within {r : Reading} {now : Instant} {p : Projection} (done : project r now = .ok p) :
    (∀ c ∈ p.cycles, 0 ≤ c.columns.ownedQuantity) ∧ p.ownershipPositions = r.positions ∧
    ∀ symbol, ownedOf p.cycles symbol ≤
      max 0 (r.positions.getD symbol 0 - p.unownedPositions.getD symbol 0) := by
  unfold project at done
  cases ready : evidenceReady r with
  | error e => rw [ready] at done; cases done
  | ok ready =>
    simp only [ready, bind, Except.bind, pure, Except.pure] at done
    split at done
    next => cases done
    next cycles settled =>
      cases done
      have within := settleAll_within (facts_bounded _ _ _ _) (fun symbol => by
        split
        next => exact positive_nonneg _
        next => exact le_refl _) settled
      refine ⟨within.1, rfl, fun symbol => (within.2 symbol).trans ?_⟩
      cases held : r.positions.get? symbol with
      | none => exact le_max_left _ _
      | some value => simp [Dict.getD, held, positive]

/-- A completed refresh never gives its cycles more of a symbol than the broker holds of it
beyond what the same transaction protects for others. -/
theorem refresh_within_unprotected (r synced : Reading) (now later : Instant) (found : Found)
    (p : Projection) (done : refreshCycles r synced now later found = .ok p) :
    let positions := if needsSync r then synced.positions else r.positions
    (∀ c ∈ p.cycles, 0 ≤ c.columns.ownedQuantity) ∧
    ∀ symbol, ((p.cycles.filter fun c => c.symbol = symbol).map fun c => c.columns.ownedQuantity).sum ≤
      max 0 (positions.getD symbol 0 - p.unownedPositions.getD symbol 0) := by
  have committed : ∀ {r : Reading} {now : Instant}, (project r now >>= commit r found) = .ok p →
      project r now = .ok p := by
    intro r now done
    cases projected : project r now with
    | error e => rw [projected] at done; cases done
    | ok q =>
      rw [projected] at done
      exact congrArg Except.ok (commit_same done).symm
  unfold refreshCycles at done
  split at done
  next sync =>
    have within := project_within (committed done)
    simp only [sync, if_true]
    exact ⟨within.1, within.2.2⟩
  next fresh =>
    have within := project_within (committed done)
    simp only [fresh, Bool.false_eq_true, if_false]
    exact ⟨within.1, within.2.2⟩

def boughtOrder : OwnedOrder where
  intent := boughtIntent
  status := .broker .filled
  filledQuantity := 2
  brokerOrderId := some "b1"
  broker := some completeFill
  dispatchState := .acknowledged
  updatedAt := 2
  sound := by
    simp only [Option.mem_some_iff, forall_eq']
    decide +kernel

/-- A cycle that bought two coins, an account that holds them, and nobody else's. -/
def boughtReading : Reading where
  cycles := [{ cycleId := "cycle", symbol := "BTC/USD", createdAt := 0, updatedAt := 0
               state := .opened, columns := ⟨0, 2, 0, 0⟩ }]
  orders _ := [boughtOrder]
  account := {
    capturedAt := 0, unownedPositions := .empty, initialUnownedPositions := .empty
    foreignEvidence := .empty, externalAcquisitions := .empty, externalDebits := .empty
    ownershipPositions := .ofList [("BTC/USD", 2)], activityWatermark := some 10
    activityInitialComplete := true, activityWindowUntil := none }
  activities := []
  ownedBrokerIds := ["b1"]
  positions := .ofList [("BTC/USD", 2)]
  positionsAt := some 10
  minOrderSize _ := some (1 / 10)
  protectBeforeBuy := none

def boughtFound : Found :=
  ⟨true, .empty, .empty, .ofList [("BTC/USD", 2)], fun _ => some 0⟩

theorem refresh_within_unprotected_bought :
    ∃ p, refreshCycles boughtReading boughtReading 20 20 boughtFound = .ok p ∧
      p.cycles.map (fun c => c.columns.ownedQuantity) = [2] ∧ ∀ symbol,
        ((p.cycles.filter fun c => c.symbol = symbol).map fun c => c.columns.ownedQuantity).sum ≤
          max 0 (boughtReading.positions.getD symbol 0 - p.unownedPositions.getD symbol 0) := by
  have completes : ((refreshCycles boughtReading boughtReading 20 20 boughtFound).toOption.map
      fun p => p.cycles.map fun c => c.columns.ownedQuantity) = some [2] := by decide +kernel
  cases done : refreshCycles boughtReading boughtReading 20 20 boughtFound with
  | error e => rw [done] at completes; cases completes
  | ok p =>
    rw [done] at completes
    refine ⟨p, rfl, Option.some.inj completes, ?_⟩
    have within := (refresh_within_unprotected boughtReading boughtReading 20 20 boughtFound p done).2
    simpa using within

end TradeAgent.Scalp
