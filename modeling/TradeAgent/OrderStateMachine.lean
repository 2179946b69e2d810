import Mathlib.Data.List.Induction
import TradeAgent.Domain
import TradeAgent.Library.Dict
import TradeAgent.Library.Machine
import TradeAgent.Library.Procedure

/-! The durable order store: rows that only legal transitions move, and the log of those
transitions. Each call runs in one transaction, which a raise rolls back. -/
namespace TradeAgent.OrderState

inductive OrderLifecycleState where
  | created | riskRejected | approved | submitting | acknowledged | partiallyFilled | filled
  | cancelPending | canceled | rejected | expired | reconciliationRequired
  deriving DecidableEq, Repr

open OrderLifecycleState

def OrderLifecycleState.value : OrderLifecycleState → String
  | created => "created"
  | riskRejected => "risk_rejected"
  | approved => "approved"
  | submitting => "submitting"
  | acknowledged => "acknowledged"
  | partiallyFilled => "partially_filled"
  | filled => "filled"
  | cancelPending => "cancel_pending"
  | canceled => "canceled"
  | rejected => "rejected"
  | expired => "expired"
  | reconciliationRequired => "reconciliation_required"

def terminalStates : List OrderLifecycleState := [riskRejected, filled, canceled, rejected, expired]

def allowedTransitions : OrderLifecycleState → List OrderLifecycleState
  | created => [riskRejected, approved]
  | approved => [submitting, reconciliationRequired]
  | submitting => [acknowledged, rejected, reconciliationRequired]
  | acknowledged =>
    [partiallyFilled, filled, cancelPending, rejected, expired, reconciliationRequired]
  | partiallyFilled => [partiallyFilled, filled, cancelPending, canceled, reconciliationRequired]
  | cancelPending => [partiallyFilled, filled, canceled, reconciliationRequired]
  | reconciliationRequired => [acknowledged, partiallyFilled, filled, canceled, rejected, expired]
  | _ => []

theorem terminal_allowed {state : OrderLifecycleState} (terminal : state ∈ terminalStates) :
    allowedTransitions state = [] := by
  revert state
  decide

abbrev Uuid := BitVec 128

/-- A decimal as a caller may pass it. -/
inductive Figure where
  | finite (value : ℚ)
  | infinite (negative : Bool)
  | nan
  deriving DecidableEq, Repr

inductive OrderError where
  | missing (orderId : Uuid)
  | invalidTransition (fromState toState : OrderLifecycleState)
  | decreased | exceeded | partialFill
  | invalidOperation
  | validation
  | integrity
  | data
  deriving DecidableEq, Repr

/-- The message of an error that this module raises itself; an order is shown by its id. -/
def OrderError.text (shown : Uuid → String) : OrderError → Option String
  | .missing orderId => some ("order " ++ shown orderId ++ " does not exist")
  | .invalidTransition fromState toState =>
    some ("invalid order transition " ++ fromState.value ++ " -> " ++ toState.value)
  | .decreased => some "filled quantity cannot decrease"
  | .exceeded => some "filled quantity cannot exceed order quantity"
  | .partialFill => some "partial fill quantity must be between zero and order quantity"
  | _ => none

structure StrategyRequest extends OrderRequest where
  strategyId : String

/-- A row of the orders table, its key apart. -/
structure Row where
  clientOrderId : String
  brokerOrderId : Option String
  strategyVersion : String
  symbol : String
  side : Side
  quantity : ℚ
  filledQuantity : ℚ
  status : OrderLifecycleState
  createdAt : Instant
  updatedAt : Instant
  deriving DecidableEq

/-- A row read back, with the constraints of its model. -/
structure TrackedOrder extends Row where
  orderId : Uuid
  quantityPositive : 0 < quantity
  filledNonneg : 0 ≤ filledQuantity

@[ext] structure OrderTransition where
  orderId : Uuid
  fromState : OrderLifecycleState
  toState : OrderLifecycleState
  eventAt : Instant
  reason : String
  filledQuantity : ℚ
  brokerOrderId : Option String := none
  reasoned : reason ≠ ""
  filledNonneg : 0 ≤ filledQuantity

instance : DecidableEq OrderTransition := fun _ _ => decidable_of_iff _ OrderTransition.ext_iff.symm

structure Event where
  eventId : Uuid
  occurredAt : Instant
  traceId : String
  payload : OrderTransition
  deriving DecidableEq

structure Store where
  orders : Dict Uuid Row := .empty
  events : List Event := []

/-- A column of twelve decimal places and twenty-eight digits: ties round away from zero. -/
def numeric (x : ℚ) : Except OrderError ℚ :=
  let stored := Rounding.quantize .halfUp (1 / 10 ^ 12) x
  if |stored| < 10 ^ 16 then .ok stored else .error .data

/-- A column of bounded text, which only loses trailing blanks. -/
def varchar (limit : ℕ) (text : String) : Except OrderError String :=
  let beyond := text.toList.drop limit
  if beyond.all (· = ' ') then .ok (String.ofList (text.toList.take limit)) else .error .data

def brokerColumn : Option String → Except OrderError (Option String)
  | none => .ok none
  | some text => (varchar 128 text).map some

/-- The row as its columns hold it. -/
def Row.stored (row : Row) : Except OrderError Row := do
  let clientOrderId ← varchar 48 row.clientOrderId
  let brokerOrderId ← brokerColumn row.brokerOrderId
  let strategyVersion ← varchar 128 row.strategyVersion
  let symbol ← varchar 32 row.symbol
  let quantity ← numeric row.quantity
  let filledQuantity ← numeric row.filledQuantity
  return { row with clientOrderId, brokerOrderId, strategyVersion, symbol, quantity, filledQuantity }

/-- The columns that a transition writes. -/
def Row.write (row : Row) (brokerOrderId : Option String) (filledQuantity : ℚ)
    (status : OrderLifecycleState) (updatedAt : Instant) : Except OrderError Row := do
  let brokerOrderId ← brokerColumn brokerOrderId
  let filledQuantity ← numeric filledQuantity
  return { row with brokerOrderId, filledQuantity, status, updatedAt }

def insertOrder (s : Store) (orderId : Uuid) (row : Row) : Except OrderError Store := do
  let row ← row.stored
  if (s.orders.get? orderId).isSome ∨ row.clientOrderId ∈ s.orders.values.map Row.clientOrderId then
    .error .integrity
  else return { s with orders := s.orders.set orderId row }

/-- No other row has the broker's id. -/
def brokerFree (s : Store) (orderId : Uuid) (brokerOrderId : Option String) : Bool :=
  s.orders.entries.all fun entry =>
    entry.1 = orderId || brokerOrderId.isNone || entry.2.brokerOrderId ≠ brokerOrderId

def updateOrder (s : Store) (orderId : Uuid) (row : Row) (brokerOrderId : Option String)
    (filledQuantity : ℚ) (status : OrderLifecycleState) (updatedAt : Instant) :
    Except OrderError Store := do
  let row ← row.write brokerOrderId filledQuantity status updatedAt
  if brokerFree s orderId row.brokerOrderId then
    return { s with orders := s.orders.set orderId row }
  else .error .integrity

def appendTransitionEvent (s : Store) (eventId : Uuid) (transition : OrderTransition)
    (traceId : String) : Except OrderError Store := do
  let traceId ← varchar 128 traceId
  if eventId ∈ s.events.map Event.eventId then .error .integrity
  else
    let event := ⟨eventId, transition.eventAt, traceId, transition⟩
    return { s with events := s.events ++ [event] }

def trackedOrder (orderId : Uuid) (row : Row) : Except OrderError TrackedOrder :=
  if valid : 0 < row.quantity ∧ 0 ≤ row.filledQuantity then
    .ok { row with orderId, quantityPositive := valid.1, filledNonneg := valid.2 }
  else .error .validation

def get (s : Store) (orderId : Uuid) : Except OrderError TrackedOrder :=
  match s.orders.get? orderId with
  | none => .error (.missing orderId)
  | some row => trackedOrder orderId row

/-- The order that a request creates. -/
def createdOrder (orderId : Uuid) (request : StrategyRequest) : TrackedOrder where
  orderId
  clientOrderId := request.clientOrderId
  brokerOrderId := none
  strategyVersion := request.strategyId
  symbol := request.symbol
  side := request.side
  quantity := request.quantity
  filledQuantity := 0
  status := created
  createdAt := request.submittedAt
  updatedAt := request.submittedAt
  quantityPositive := request.quantityPositive
  filledNonneg := le_rfl

def creation (order : TrackedOrder) : OrderTransition where
  orderId := order.orderId
  fromState := created
  toState := created
  eventAt := order.createdAt
  reason := "order created"
  filledQuantity := 0
  reasoned := by decide
  filledNonneg := le_rfl

/-- Create an order under the fresh ids of its row and of its event. -/
def create (s : Store) (orderId eventId : Uuid) (request : StrategyRequest) :
    Except OrderError (Store × TrackedOrder) := do
  let order := createdOrder orderId request
  let s ← insertOrder s orderId order.toRow
  let s ← appendTransitionEvent s eventId (creation order) order.clientOrderId
  return (s, order)

/-- The quantity filled after a transition, checked against the order. -/
def nextFilled (current : TrackedOrder) (toState : OrderLifecycleState)
    (filledQuantity : Option Figure) : Except OrderError ℚ :=
  let next := if toState = filled then .finite current.quantity
    else filledQuantity.getD (.finite current.filledQuantity)
  match next with
  | .nan => .error .invalidOperation
  | .infinite true => .error .decreased
  | .infinite false => .error .exceeded
  | .finite next =>
    if next < current.filledQuantity then .error .decreased
    else if current.quantity < next then .error .exceeded
    else if toState = partiallyFilled ∧ ¬ (0 < next ∧ next < current.quantity) then .error .partialFill
    else .ok next

structure TransitionRequest where
  orderId : Uuid
  toState : OrderLifecycleState
  reason : String
  eventAt : Instant
  filledQuantity : Option Figure := none
  brokerOrderId : Option String := none

/-- An id that is given and not empty replaces the one the order has. -/
def resolvedBrokerId (given current : Option String) : Option String :=
  (given.filter (· ≠ "")).or current

def orderTransition (request : TransitionRequest) (fromState : OrderLifecycleState)
    (filledQuantity : ℚ) (brokerOrderId : Option String) : Except OrderError OrderTransition :=
  if valid : request.reason ≠ "" ∧ 0 ≤ filledQuantity then
    .ok {
      orderId := request.orderId, fromState, toState := request.toState
      eventAt := request.eventAt, reason := request.reason, filledQuantity, brokerOrderId
      reasoned := valid.1, filledNonneg := valid.2 }
  else .error .validation

/-- The transaction of a transition. -/
def transit (s : Store) (eventId : Uuid) (request : TransitionRequest) : Except OrderError Store := do
  match s.orders.get? request.orderId with
  | none => .error (.missing request.orderId)
  | some row =>
    let current ← trackedOrder request.orderId row
    if request.toState ∉ allowedTransitions current.status then
      .error (.invalidTransition current.status request.toState)
    else
      let next ← nextFilled current request.toState request.filledQuantity
      let brokerId := resolvedBrokerId request.brokerOrderId current.brokerOrderId
      let transition ← orderTransition request current.status next brokerId
      let s ← updateOrder s request.orderId row brokerId next request.toState request.eventAt
      appendTransitionEvent s eventId transition current.clientOrderId

inductive Call where
  | create (orderId eventId : Uuid) (request : StrategyRequest)
  | transition (eventId : Uuid) (request : TransitionRequest)

/-- What a call leaves in the store, and what it returns. A transition reads its order back in a
transaction of its own, after the first has committed. -/
def Call.apply (s : Store) : Call → Store × Except OrderError TrackedOrder
  | .create orderId eventId request =>
    match OrderState.create s orderId eventId request with
    | .ok (s, order) => (s, .ok order)
    | .error e => (s, .error e)
  | .transition eventId request =>
    match transit s eventId request with
    | .ok s => (s, get s request.orderId)
    | .error e => (s, .error e)

/-- The store after a sequence of calls on an empty one. -/
def after (calls : List Call) : Store := Machine.run (fun s call => (Call.apply s call).1) {} calls

theorem numeric_ok {x y : ℚ} (stored : numeric x = .ok y) :
    y = Rounding.quantize .halfUp (1 / 10 ^ 12) x ∧ |y| < 10 ^ 16 := by
  simp only [numeric] at stored
  split at stored
  next fits =>
    obtain rfl := Except.ok.inj stored
    exact ⟨rfl, fits⟩
  next => cases stored

theorem numeric_mono {x y a b : ℚ} (le : x ≤ y) (first : numeric x = .ok a)
    (second : numeric y = .ok b) : a ≤ b := by
  rw [(numeric_ok first).1, (numeric_ok second).1]
  exact Rounding.quantize_mono _ (by norm_num) le

/-- What a column holds it holds unchanged. -/
theorem numeric_stable {x y : ℚ} (stored : numeric x = .ok y) : numeric y = .ok y := by
  obtain ⟨rounded, fits⟩ := numeric_ok stored
  have same : Rounding.quantize .halfUp (1 / 10 ^ 12) y = y := by
    rw [rounded, Rounding.quantize]
    exact Rounding.quantize_multiple _ (by norm_num) _
  rw [numeric, same, if_pos fits]

theorem numeric_zero : numeric 0 = .ok 0 := by
  have same : Rounding.quantize .halfUp (1 / 10 ^ 12) 0 = 0 := by
    have unit : (0 : ℚ) < 1 / 10 ^ 12 := by norm_num
    simpa using Rounding.quantize_multiple .halfUp unit 0
  rw [numeric, same]
  norm_num

/-- The law of a stored row; its quantities are what their columns hold. -/
structure Row.Sound (row : Row) : Prop where
  quantityStored : numeric row.quantity = .ok row.quantity
  filledStored : numeric row.filledQuantity = .ok row.filledQuantity
  nonneg : 0 ≤ row.filledQuantity
  within : row.filledQuantity ≤ row.quantity
  full : row.status = filled → row.filledQuantity = row.quantity

/-- What any transition leaves of a row. -/
structure Row.Precedes (row next : Row) : Prop where
  filled : row.filledQuantity ≤ next.filledQuantity
  terminal : row.status ∈ terminalStates → next = row

theorem Row.Precedes.rfl {row : Row} : row.Precedes row := ⟨le_rfl, fun _ => Eq.refl row⟩

theorem Row.Precedes.trans {row middle next : Row} (first : row.Precedes middle)
    (second : middle.Precedes next) : row.Precedes next where
  filled := first.filled.trans second.filled
  terminal terminal := by
    have same := first.terminal terminal
    subst same
    exact second.terminal terminal

/-- All that a call can do to the store. -/
inductive Moved (s : Store) : Call → Store → Prop where
  | kept (call) : Moved s call s
  | created {orderId eventId request row traceId} (fresh : s.orders.get? orderId = none)
      (stored : (createdOrder orderId request).toRow.stored = .ok row) :
      Moved s (.create orderId eventId request) {
        orders := s.orders.set orderId row
        events := s.events ++
          [⟨eventId, request.submittedAt, traceId, creation (createdOrder orderId request)⟩] }
  | transited {eventId request row next} {current : TrackedOrder} {transition : OrderTransition}
      {traceId : String} (found : s.orders.get? request.orderId = some row)
      (tracked : trackedOrder request.orderId row = .ok current)
      (allowed : request.toState ∈ allowedTransitions current.status)
      (filled : nextFilled current request.toState request.filledQuantity = .ok transition.filledQuantity)
      (same : transition.orderId = request.orderId ∧ transition.toState = request.toState ∧
        transition.eventAt = request.eventAt)
      (written : row.write transition.brokerOrderId transition.filledQuantity request.toState
        request.eventAt = .ok next) :
      Moved s (.transition eventId request) {
        orders := s.orders.set request.orderId next
        events := s.events ++ [⟨eventId, request.eventAt, traceId, transition⟩] }

theorem insertOrder_ok {s after : Store} {orderId : Uuid} {row : Row}
    (inserted : insertOrder s orderId row = .ok after) : ∃ stored, row.stored = .ok stored ∧
      s.orders.get? orderId = none ∧ after = { s with orders := s.orders.set orderId stored } := by
  obtain ⟨stored, columns, rest⟩ := bind_ok_iff.mp inserted
  split at rest
  next => cases rest
  next free =>
    rw [not_or, Option.isSome_iff_ne_none, not_not] at free
    exact ⟨stored, columns, free.1, (Except.ok.inj rest).symm⟩

theorem updateOrder_ok {s after : Store} {orderId : Uuid} {row : Row} {brokerOrderId : Option String}
    {filledQuantity : ℚ} {status : OrderLifecycleState} {updatedAt : Instant}
    (updated : updateOrder s orderId row brokerOrderId filledQuantity status updatedAt = .ok after) :
    ∃ next, row.write brokerOrderId filledQuantity status updatedAt = .ok next ∧
      after = { s with orders := s.orders.set orderId next } := by
  obtain ⟨next, written, rest⟩ := bind_ok_iff.mp updated
  split at rest
  next => exact ⟨next, written, (Except.ok.inj rest).symm⟩
  next => cases rest

theorem appendTransitionEvent_ok {s after : Store} {eventId : Uuid} {transition : OrderTransition}
    {traceId : String} (appended : appendTransitionEvent s eventId transition traceId = .ok after) :
    ∃ stored, after =
      { s with events := s.events ++ [⟨eventId, transition.eventAt, stored, transition⟩] } := by
  obtain ⟨stored, -, rest⟩ := bind_ok_iff.mp appended
  split at rest
  next => cases rest
  next => exact ⟨stored, (Except.ok.inj rest).symm⟩

theorem orderTransition_ok {request : TransitionRequest} {fromState : OrderLifecycleState}
    {filledQuantity : ℚ} {brokerOrderId : Option String} {transition : OrderTransition}
    (valid : orderTransition request fromState filledQuantity brokerOrderId = .ok transition) :
    transition.orderId = request.orderId ∧ transition.toState = request.toState ∧
      transition.eventAt = request.eventAt ∧ transition.filledQuantity = filledQuantity ∧
      transition.brokerOrderId = brokerOrderId := by
  unfold orderTransition at valid
  split at valid
  next => simp [← Except.ok.inj valid]
  next => cases valid

theorem trackedOrder_ok {orderId : Uuid} {row : Row} {current : TrackedOrder}
    (tracked : trackedOrder orderId row = .ok current) : current.toRow = row := by
  unfold trackedOrder at tracked
  split at tracked
  next => rw [← Except.ok.inj tracked]
  next => cases tracked

theorem Call.moved (s : Store) (call : Call) : Moved s call (call.apply s).1 := by
  cases call with
  | create orderId eventId request =>
    simp only [Call.apply]
    cases ran : OrderState.create s orderId eventId request with
    | error e => exact .kept _
    | ok result =>
      obtain ⟨inserted, insert, ran⟩ := bind_ok_iff.mp ran
      obtain ⟨appended, append, ran⟩ := bind_ok_iff.mp ran
      obtain ⟨row, stored, fresh, rfl⟩ := insertOrder_ok insert
      obtain ⟨traceId, rfl⟩ := appendTransitionEvent_ok append
      obtain rfl := Except.ok.inj ran
      exact .created fresh stored
  | transition eventId request =>
    simp only [Call.apply]
    cases ran : transit s eventId request with
    | error e => exact .kept _
    | ok result =>
      unfold transit at ran
      cases found : s.orders.get? request.orderId with
      | none => simp [found] at ran
      | some row =>
        simp only [found] at ran
        obtain ⟨current, tracked, ran⟩ := bind_ok_iff.mp ran
        split at ran
        next => cases ran
        next allowed =>
          obtain ⟨filledQuantity, filled, ran⟩ := bind_ok_iff.mp ran
          obtain ⟨transition, valid, ran⟩ := bind_ok_iff.mp ran
          obtain ⟨updated, update, ran⟩ := bind_ok_iff.mp ran
          obtain ⟨next, written, rfl⟩ := updateOrder_ok update
          obtain ⟨traceId, rfl⟩ := appendTransitionEvent_ok ran
          obtain ⟨sameId, sameState, sameTime, sameFilled, sameBroker⟩ := orderTransition_ok valid
          simp only [sameTime]
          refine .transited found tracked (not_not.mp allowed) (sameFilled ▸ filled)
            ⟨sameId, sameState, sameTime⟩ ?_
          rw [sameFilled, sameBroker]
          exact written

theorem nextFilled_ok {current : TrackedOrder} {toState : OrderLifecycleState} {given : Option Figure}
    {next : ℚ} (filled' : nextFilled current toState given = .ok next) :
    current.filledQuantity ≤ next ∧ next ≤ current.quantity ∧
      (toState = filled → next = current.quantity) := by
  simp only [nextFilled] at filled'
  split at filled'
  next => cases filled'
  next => cases filled'
  next => cases filled'
  next value chosen =>
    split at filled'
    next => cases filled'
    next larger =>
      split at filled'
      next => cases filled'
      next within =>
        split at filled'
        next => cases filled'
        next =>
          obtain rfl := Except.ok.inj filled'
          refine ⟨not_lt.mp larger, not_lt.mp within, fun full => ?_⟩
          rw [if_pos full] at chosen
          exact (Figure.finite.inj chosen).symm

theorem stored_ok {row stored : Row} (columns : row.stored = .ok stored) :
    numeric row.quantity = .ok stored.quantity ∧ numeric row.filledQuantity = .ok stored.filledQuantity ∧
      brokerColumn row.brokerOrderId = .ok stored.brokerOrderId ∧ stored.status = row.status ∧
      stored.updatedAt = row.updatedAt := by
  obtain ⟨_, -, columns⟩ := bind_ok_iff.mp columns
  obtain ⟨_, broker, columns⟩ := bind_ok_iff.mp columns
  obtain ⟨_, -, columns⟩ := bind_ok_iff.mp columns
  obtain ⟨_, -, columns⟩ := bind_ok_iff.mp columns
  obtain ⟨_, quantity, columns⟩ := bind_ok_iff.mp columns
  obtain ⟨_, filled, columns⟩ := bind_ok_iff.mp columns
  obtain rfl := Except.ok.inj columns
  exact ⟨quantity, filled, broker, rfl, rfl⟩

theorem write_ok {row next : Row} {brokerOrderId : Option String} {filledQuantity : ℚ}
    {status : OrderLifecycleState} {updatedAt : Instant}
    (written : row.write brokerOrderId filledQuantity status updatedAt = .ok next) :
    numeric filledQuantity = .ok next.filledQuantity ∧ next.quantity = row.quantity ∧
      next.status = status := by
  obtain ⟨_, -, written⟩ := bind_ok_iff.mp written
  obtain ⟨_, filled, written⟩ := bind_ok_iff.mp written
  obtain rfl := Except.ok.inj written
  exact ⟨filled, rfl, rfl⟩

theorem createdOrder_stored {orderId : Uuid} {request : StrategyRequest} {row : Row}
    (columns : (createdOrder orderId request).toRow.stored = .ok row) :
    row.filledQuantity = 0 ∧ row.brokerOrderId = none ∧ row.status = created ∧
      row.updatedAt = request.submittedAt ∧ row.Sound := by
  obtain ⟨quantity, filled, broker, status, updated⟩ := stored_ok columns
  have zero : row.filledQuantity = 0 := Except.ok.inj (filled.symm.trans numeric_zero)
  refine ⟨zero, (Except.ok.inj broker).symm, status, updated, ?_⟩
  constructor
  · exact numeric_stable quantity
  · exact numeric_stable filled
  · exact zero.ge
  · rw [zero]
    exact numeric_mono request.quantityPositive.le numeric_zero quantity
  · intro full
    have reached : OrderLifecycleState.created = .filled := status.symm.trans full
    cases reached

theorem write_sound {row next : Row} {current : TrackedOrder} {request : TransitionRequest}
    {filledQuantity : ℚ} {brokerOrderId : Option String} (sound : row.Sound) (same : current.toRow = row)
    (filled' : nextFilled current request.toState request.filledQuantity = .ok filledQuantity)
    (written : row.write brokerOrderId filledQuantity request.toState request.eventAt = .ok next) :
    next.Sound ∧ row.filledQuantity ≤ next.filledQuantity := by
  obtain ⟨more, within, full⟩ := nextFilled_ok filled'
  obtain ⟨stored, quantity, status⟩ := write_ok written
  rw [same] at more within full
  have grown := numeric_mono more sound.filledStored stored
  refine ⟨?_, grown⟩
  constructor
  · rw [quantity]
    exact sound.quantityStored
  · exact numeric_stable stored
  · exact sound.nonneg.trans grown
  · rw [quantity]
    exact numeric_mono within stored sound.quantityStored
  · intro reached
    rw [full (status.symm.trans reached), sound.quantityStored] at stored
    rw [quantity]
    exact (Except.ok.inj stored).symm

/-- A call's effect on one row: it creates it, transforms it, or leaves it. -/
theorem Moved.row {s after : Store} {call : Call} (moved : Moved s call after)
    (sound : ∀ orderId row, s.orders.get? orderId = some row → row.Sound) {orderId : Uuid} {next : Row}
    (found : after.orders.get? orderId = some next) :
    next.Sound ∧ ∀ row, s.orders.get? orderId = some row → row.Precedes next := by
  cases moved with
  | kept =>
    refine ⟨sound orderId next found, fun row before => ?_⟩
    obtain rfl := Option.some.inj (before.symm.trans found)
    exact .rfl
  | @created id eventId request inserted traceId fresh stored =>
    rw [Dict.get?_set] at found
    split at found
    next same =>
      subst same
      obtain rfl := Option.some.inj found
      refine ⟨(createdOrder_stored stored).2.2.2.2, fun row before => ?_⟩
      exact absurd (fresh.symm.trans before) (by simp)
    next =>
      refine ⟨sound orderId next found, fun row before => ?_⟩
      obtain rfl := Option.some.inj (before.symm.trans found)
      exact .rfl
  | @transited eventId request old written current transition traceId present tracked allowed filled
      same wrote =>
    rw [Dict.get?_set] at found
    split at found
    next same =>
      subst same
      obtain rfl := Option.some.inj found
      obtain ⟨nextSound, grown⟩ := write_sound (sound _ _ present) (trackedOrder_ok tracked) filled wrote
      refine ⟨nextSound, fun row before => ?_⟩
      obtain rfl := Option.some.inj (present.symm.trans before)
      refine ⟨grown, fun terminal => ?_⟩
      rw [trackedOrder_ok tracked, terminal_allowed terminal] at allowed
      cases allowed
    next =>
      refine ⟨sound orderId next found, fun row before => ?_⟩
      obtain rfl := Option.some.inj (before.symm.trans found)
      exact .rfl

theorem Moved.persists {s after : Store} {call : Call} (moved : Moved s call after) {orderId : Uuid}
    (present : (s.orders.get? orderId).isSome) : (after.orders.get? orderId).isSome := by
  cases moved with
  | kept => exact present
  | created fresh =>
    rw [Dict.get?_set]
    split
    next => rfl
    next => exact present
  | transited =>
    rw [Dict.get?_set]
    split
    next => rfl
    next => exact present

/-- The transitions that the log holds of an order, oldest first. -/
def Store.transitions (s : Store) (orderId : Uuid) : List OrderTransition :=
  (s.events.map Event.payload).filter (·.orderId = orderId)

/-- A logged transition applied to a row again, through the row's columns. -/
def Row.replay (row : Row) (t : OrderTransition) : Except OrderError Row :=
  row.write t.brokerOrderId t.filledQuantity t.toState t.eventAt

def replay (row : Row) (ts : List OrderTransition) : Except OrderError Row := ts.foldlM Row.replay row

/-- The row that a call of the run has put under a free key. -/
def Created (calls : List Call) (orderId : Uuid) (row : Row) : Prop :=
  ∃ before eventId request, before ++ [.create orderId eventId request] <+: calls ∧
    (after before).orders.get? orderId = none ∧
    (after (before ++ [.create orderId eventId request])).orders.get? orderId = some row

theorem after_snoc (calls : List Call) (call : Call) :
    after (calls ++ [call]) = (call.apply (after calls)).1 := Machine.run_append _ _ _ _

theorem Created.extend {calls : List Call} {orderId : Uuid} {row : Row} (made : Created calls orderId row)
    (call : Call) : Created (calls ++ [call]) orderId row := by
  obtain ⟨before, eventId, request, front, rest⟩ := made
  exact ⟨before, eventId, request, front.trans (List.prefix_append _ _), rest⟩

/-- The law of the store that a run has reached. -/
structure Lawful (calls : List Call) (s : Store) : Prop where
  sound : ∀ orderId row, s.orders.get? orderId = some row → row.Sound
  logged : ∀ event ∈ s.events, (s.orders.get? event.payload.orderId).isSome
  replays : ∀ orderId row, s.orders.get? orderId = some row →
    ∃ first, Created calls orderId first ∧ replay first (s.transitions orderId) = .ok row

theorem transitions_append (s : Store) (orders : Dict Uuid Row) (event : Event) (orderId : Uuid) :
    Store.transitions { orders, events := s.events ++ [event] } orderId =
      s.transitions orderId ++ if event.payload.orderId = orderId then [event.payload] else [] := by
  simp [Store.transitions, List.filter_cons]

theorem replay_append (row : Row) (ts : List OrderTransition) (t : OrderTransition) :
    replay row (ts ++ [t]) = replay row ts >>= fun next => next.replay t := by
  simp [replay]

theorem Lawful.fresh {calls : List Call} {s : Store} (lawful : Lawful calls s) {orderId : Uuid}
    (fresh : s.orders.get? orderId = none) : s.transitions orderId = [] := by
  rw [Store.transitions, List.filter_eq_nil_iff]
  intro transition member
  obtain ⟨event, logged, rfl⟩ := List.mem_map.mp member
  intro same
  have present := lawful.logged event logged
  rw [of_decide_eq_true same, fresh] at present
  cases present

/-- The row just created, replayed over its own creation event. -/
theorem createdOrder_replay {orderId : Uuid} {request : StrategyRequest} {row : Row}
    (columns : (createdOrder orderId request).toRow.stored = .ok row) :
    replay row [creation (createdOrder orderId request)] = .ok row := by
  obtain ⟨filled, broker, status, updated, -⟩ := createdOrder_stored columns
  simp only [replay, List.foldlM_cons, List.foldlM_nil, Row.replay, Row.write, creation, createdOrder,
    brokerColumn, numeric_zero, bind, Except.bind, pure, Except.pure]
  rw [← filled, ← broker, ← status, ← updated]

theorem Lawful.replays_step {calls : List Call} (lawful : Lawful calls (after calls)) (call : Call)
    {next : Store} (moved : Moved (after calls) call next) (reached : after (calls ++ [call]) = next)
    {orderId : Uuid} {row : Row} (found : next.orders.get? orderId = some row) :
    ∃ first, Created (calls ++ [call]) orderId first ∧
      replay first (next.transitions orderId) = .ok row := by
  cases moved with
  | kept =>
    obtain ⟨first, made, replayed⟩ := lawful.replays orderId row found
    exact ⟨first, made.extend call, replayed⟩
  | @created id eventId request inserted traceId fresh stored =>
    rw [transitions_append]
    dsimp only
    split
    next same =>
      replace same : id = orderId := same
      subst same
      rw [Dict.get?_set, if_pos rfl] at found
      obtain rfl := Option.some.inj found
      rw [lawful.fresh fresh, List.nil_append]
      refine ⟨inserted, ⟨calls, eventId, request, List.prefix_refl _, fresh, ?_⟩,
        createdOrder_replay stored⟩
      rw [reached, Dict.get?_set, if_pos rfl]
    next other =>
      replace other : id ≠ orderId := other
      rw [Dict.get?_set, if_neg other] at found
      obtain ⟨first, made, replayed⟩ := lawful.replays orderId row found
      rw [List.append_nil]
      exact ⟨first, made.extend _, replayed⟩
  | @transited eventId request old written current transition traceId present tracked allowed filled
      same wrote =>
    obtain ⟨sameId, sameState, sameTime⟩ := same
    rw [transitions_append]
    dsimp only
    rw [sameId]
    split
    next same =>
      subst same
      rw [Dict.get?_set, if_pos rfl] at found
      obtain rfl := Option.some.inj found
      obtain ⟨first, made, replayed⟩ := lawful.replays _ old present
      refine ⟨first, made.extend _, ?_⟩
      rw [replay_append, replayed]
      show old.replay transition = _
      rw [Row.replay, sameState, sameTime]
      exact wrote
    next other =>
      rw [Dict.get?_set, if_neg other] at found
      obtain ⟨first, made, replayed⟩ := lawful.replays orderId row found
      rw [List.append_nil]
      exact ⟨first, made.extend _, replayed⟩

theorem Moved.logged {s after : Store} {call : Call} (moved : Moved s call after)
    (logged : ∀ event ∈ s.events, (s.orders.get? event.payload.orderId).isSome) :
    ∀ event ∈ after.events, (after.orders.get? event.payload.orderId).isSome := by
  intro event member
  cases moved with
  | kept => exact logged event member
  | created fresh stored =>
    rcases List.mem_append.mp member with old | new
    · exact (Moved.created fresh stored).persists (logged event old)
    · obtain rfl := List.mem_singleton.mp new
      rw [Dict.get?_set]
      exact if_pos rfl ▸ rfl
  | transited found tracked allowed filled same written =>
    rcases List.mem_append.mp member with old | new
    · exact (Moved.transited found tracked allowed filled same written).persists (logged event old)
    · obtain rfl := List.mem_singleton.mp new
      rw [Dict.get?_set, if_pos same.1.symm]
      rfl

theorem lawful_after (calls : List Call) : Lawful calls (after calls) := by
  induction calls using List.reverseRecOn with
  | nil =>
    constructor
    · intro orderId row found
      cases found
    · intro event member
      cases member
    · intro orderId row found
      cases found
  | append_singleton calls call lawful =>
    have moved := call.moved (after calls)
    have reached := after_snoc calls call
    constructor
    · intro orderId row found
      exact (moved.row lawful.sound (reached ▸ found)).1
    · rw [reached]
      exact moved.logged lawful.logged
    · intro orderId row found
      rw [reached] at found ⊢
      exact lawful.replays_step call moved reached found

/-- A row that a transition has written can be read back: a raise comes before any write. -/
theorem Call.raised {calls : List Call} (call : Call) {e : OrderError}
    (raised : (call.apply (after calls)).2 = .error e) :
    (call.apply (after calls)).1 = after calls := by
  have moved := call.moved (after calls)
  have sound := (lawful_after calls).sound
  generalize after calls = s at raised moved sound
  cases call with
  | create orderId eventId request =>
    simp only [Call.apply] at raised ⊢
    split at raised
    next => cases raised
    next => rfl
  | transition eventId request =>
    simp only [Call.apply] at raised moved ⊢
    cases ran : transit s eventId request with
    | error e => rfl
    | ok next =>
      rw [ran] at raised moved
      dsimp only at raised moved ⊢
      cases moved with
      | kept => rfl
      | @transited eventId request old written current transition traceId present tracked allowed filled
          same wrote =>
        exfalso
        have soundNext := (write_sound (sound _ _ present) (trackedOrder_ok tracked) filled wrote).1
        have positive : 0 < written.quantity := by
          rw [(write_ok wrote).2.1, ← trackedOrder_ok tracked]
          exact current.quantityPositive
        rw [get, Dict.get?_set, if_pos rfl] at raised
        dsimp only at raised
        rw [trackedOrder, dif_pos ⟨positive, soundNext.nonneg⟩] at raised
        cases raised

theorem after_precedes (calls more : List Call) {orderId : Uuid} {row : Row}
    (found : (after calls).orders.get? orderId = some row) :
    ∃ next, (after (calls ++ more)).orders.get? orderId = some next ∧ row.Precedes next := by
  induction more using List.reverseRecOn with
  | nil => exact ⟨row, by rwa [List.append_nil], .rfl⟩
  | append_singleton more call ih =>
    obtain ⟨middle, present, precedes⟩ := ih
    rw [← List.append_assoc, after_snoc]
    have moved := call.moved (after (calls ++ more))
    obtain ⟨next, found⟩ := Option.isSome_iff_exists.mp (moved.persists (by rw [present]; rfl))
    exact ⟨next, found, precedes.trans ((moved.row (lawful_after _).sound found).2 middle present)⟩

/-- In the store that any sequence of calls reaches, every row keeps its law, later calls only add to
what it has filled and leave it alone once terminal, its logged transitions lead from the row that
was created to the row as it stands, and a raising call changes nothing. -/
theorem order_store_runs (calls : List Call) :
    (∀ orderId row, (after calls).orders.get? orderId = some row →
      0 ≤ row.filledQuantity ∧ row.filledQuantity ≤ row.quantity ∧
      (row.status = filled → row.filledQuantity = row.quantity) ∧
      (∃ first, Created calls orderId first ∧
        replay first ((after calls).transitions orderId) = .ok row) ∧
      ∀ more, ∃ next, (after (calls ++ more)).orders.get? orderId = some next ∧
        row.filledQuantity ≤ next.filledQuantity ∧
        (row.status ∈ terminalStates → next.status = row.status)) ∧
    ∀ call e, (Call.apply (after calls) call).2 = .error e →
      (Call.apply (after calls) call).1 = after calls := by
  constructor
  · intro orderId row found
    have lawful := lawful_after calls
    have sound := lawful.sound orderId row found
    refine ⟨sound.nonneg, sound.within, sound.full, lawful.replays orderId row found, fun more => ?_⟩
    obtain ⟨next, present, precedes⟩ := after_precedes calls more found
    exact ⟨next, present, precedes.filled, fun terminal => by rw [precedes.terminal terminal]⟩
  · intro call e raised
    exact call.raised raised

example :
    let request : StrategyRequest := ⟨⟨"client", "ABC", .buy, 10, .market, 0, by decide⟩, "v1"⟩
    let move (eventId : Uuid) (toState : OrderLifecycleState) (filled : Option Figure) : Call :=
      .transition eventId { orderId := 1, toState, reason := "moved", eventAt := 5, filledQuantity := filled }
    let store := after [.create 1 1 request, move 2 approved none, move 3 submitting none,
      move 4 acknowledged none, move 5 partiallyFilled (some (.finite 10)),
      move 6 partiallyFilled (some (.finite 4)), move 7 cancelPending none, move 8 canceled none]
    ((store.orders.get? 1).map fun row => (row.status, row.filledQuantity)) = some (canceled, 4) ∧
      store.events.length = 7 := by decide +kernel

end TradeAgent.OrderState
