import TradeAgent.Domain
import TradeAgent.Library.Numeral

/-! One owned order of the scalp engine and the snapshots it takes from the broker, over
REST or the stream. A raising update rolls its transaction back, so it leaves the stored
order alone. -/
namespace TradeAgent.Scalp

inductive BrokerStatus where
  | new | partiallyFilled | filled | doneForDay | canceled | expired | replaced | pendingCancel
  | pendingReplace | accepted | pendingNew | acceptedForBidding | stopped | rejected | suspended
  | calculated | held
  deriving DecidableEq, Repr

/-- A stored status: two that only this side writes, and those the broker reports. -/
inductive OrderStatus where
  | approved
  | reconciliationRequired
  | broker (status : BrokerStatus)
  deriving DecidableEq, Repr

def BrokerStatus.final : BrokerStatus → Bool
  | .filled | .canceled | .expired | .rejected => true
  | _ => false

def OrderStatus.final : OrderStatus → Bool
  | .broker status => status.final
  | _ => false

inductive DispatchState where
  | intent | dispatching | acknowledged | unknown | brokerRejected | expiredUnsent
  deriving DecidableEq, Repr

/-- A parsed timestamp; most of the code refuses one without an offset. -/
inductive Stamp where
  | aware (at_ : Instant)
  | naive (local_ : Instant)
  deriving DecidableEq, Repr

inductive OrderError where
  | naiveStamp | identity | futureFill | uninitialized | staleReceipt | postdated | lease
  deriving DecidableEq, Repr

def OrderError.text : OrderError → String
  | .naiveStamp => "broker timestamp must be aware"
  | .identity => "broker response does not match the durable order intent"
  | .futureFill => "future broker fill"
  | .uninitialized => "initialize the engine before consuming order updates"
  | .staleReceipt => "a current paper-stream receipt is required"
  | .postdated => "order state cannot postdate its stream receipt"
  | .lease => "current fresh global event-worker lease required"

def stamp : Stamp → Except OrderError Instant
  | .aware t => .ok t
  | .naive _ => .error .naiveStamp

def upper (text : List Char) : List Char := text.map Char.toUpper

/-- A dollar pair with its slash, from either spelling. -/
def canonicalCryptoSymbol (symbol : String) : Option (List Char) :=
  let value := upper (Numeral.strip symbol.toList)
  let value := if '/' ∉ value ∧ "USD".toList <:+ value then
      value.take (value.length - 3) ++ "/USD".toList
    else value
  let base := value.takeWhile (· ≠ '/')
  let quote := (value.dropWhile (· ≠ '/')).drop 1
  if '/' ∈ value ∧ base ≠ [] ∧ base.all Char.isAlphanum ∧ quote = "USD".toList then some value
  else none

def symbolKey (symbol : String) : List Char :=
  (canonicalCryptoSymbol symbol).getD (upper symbol.toList)

structure AlpacaPaperOrder where
  id : String
  clientOrderId : String
  status : BrokerStatus
  symbol : String
  side : Side
  quantity : Option ℚ
  notional : Option ℚ := none
  filledQuantity : ℚ
  filledAveragePrice : Option ℚ
  createdAt : Stamp
  updatedAt : Option Stamp := none
  submittedAt : Option Stamp := none
  filledAt : Option Stamp := none
  canceledAt : Option Stamp := none
  extra : List (String × String) := []
  sizeBasis : quantity = none → ∃ n ∈ notional, 0 < n
  deriving DecidableEq

/-- What an order was durably intended as; its snapshots must match it. -/
structure OrderIntent where
  clientOrderId : String
  cycleId : String
  symbol : List Char
  side : Side
  quantity : ℚ
  deriving DecidableEq

/-- The identity check of a snapshot, its creation time apart. -/
structure OrderIntent.Matches (intent : OrderIntent) (s : AlpacaPaperOrder) : Prop where
  client : s.clientOrderId = intent.clientOrderId
  symbol : symbolKey s.symbol = intent.symbol
  side : s.side = intent.side
  nonneg : 0 ≤ s.filledQuantity
  requested : s.quantity = some intent.quantity
  within : s.filledQuantity ≤ intent.quantity
  priced : ∀ p ∈ s.filledAveragePrice, 0 < p

instance (intent : OrderIntent) (s : AlpacaPaperOrder) : Decidable (intent.Matches s) :=
  decidable_of_iff (s.clientOrderId = intent.clientOrderId ∧ symbolKey s.symbol = intent.symbol ∧
      s.side = intent.side ∧ 0 ≤ s.filledQuantity ∧ s.quantity = some intent.quantity ∧
      s.filledQuantity ≤ intent.quantity ∧ ∀ p ∈ s.filledAveragePrice, 0 < p)
    ⟨fun ⟨client, symbol, side, nonneg, requested, within, priced⟩ =>
      ⟨client, symbol, side, nonneg, requested, within, priced⟩,
    fun m => ⟨m.client, m.symbol, m.side, m.nonneg, m.requested, m.within, m.priced⟩⟩

/-- Why a submission failed: refused before it was sent, or answered with an error. -/
inductive SubmissionError where
  | preSubmit (reason : String)
  | answered (definitiveRejection : Bool) (statusCode : Option ℕ)
  deriving DecidableEq, Repr

def SubmissionError.definitive : SubmissionError → Bool
  | .preSubmit _ => false
  | .answered definitiveRejection _ => definitiveRejection

/-- An order row with its link: a stored snapshot has passed the identity check. -/
structure OwnedOrder where
  intent : OrderIntent
  status : OrderStatus := .approved
  filledQuantity : ℚ := 0
  brokerOrderId : Option String := none
  broker : Option AlpacaPaperOrder := none
  dispatchState : DispatchState := .intent
  submissionStartedAt : Option Instant := none
  submissionError : Option SubmissionError := none
  expiresAt : Option Instant := none
  cancelRequestedAt : Option Instant := none
  lastCancelAttemptAt : Option Instant := none
  firstPositiveFillAt : Option Instant := none
  lastReconciledAt : Option Instant := none
  updatedAt : Instant
  sound : ∀ p ∈ broker, intent.Matches p

def previousQuantity (previous : Option AlpacaPaperOrder) : ℚ :=
  (previous.map AlpacaPaperOrder.filledQuantity).getD 0

/-- A version older than the stored one that brings no further fill. -/
def olderVersion (previous : Option AlpacaPaperOrder) (s : AlpacaPaperOrder) : Except OrderError Bool :=
  match s.updatedAt, previous.bind AlpacaPaperOrder.updatedAt with
  | some current, some stored => do
    let current ← stamp current
    let stored ← stamp stored
    return current < stored && s.filledQuantity ≤ previousQuantity previous
  | _, _ => .ok false

def regressiveNotional (previous : Option AlpacaPaperOrder) (s : AlpacaPaperOrder) : Bool :=
  match previous.bind AlpacaPaperOrder.filledAveragePrice, s.filledAveragePrice with
  | some stored, some price =>
    context (s.filledQuantity * price) < context (previousQuantity previous * stored)
  | _, _ => false

/-- Whether a snapshot is ignored, against what is stored. -/
def ignored (previous : Option AlpacaPaperOrder) (status : OrderStatus) (s : AlpacaPaperOrder) :
    Except OrderError Bool := do
  let older ← olderVersion previous s
  return older || s.filledQuantity < previousQuantity previous || regressiveNotional previous s ||
    (status.final && !s.status.final)

def candidateFill (s : AlpacaPaperOrder) (received : Instant) : Except OrderError Instant :=
  match s.filledAt with
  | some filled => stamp filled
  | none => .ok received

def firstFill (first : Option Instant) (s : AlpacaPaperOrder) (received : Instant) :
    Except OrderError (Option Instant) :=
  if 0 < s.filledQuantity then do
    let candidate ← candidateFill s received
    let created ← stamp s.createdAt
    if received < candidate ∨ candidate < created then .error .futureFill
    else return some (match first with
      | some earlier => min earlier candidate
      | none => candidate)
  else .ok first

inductive Outcome where
  | ignored
  | stored (positionsDirty : Bool)
  deriving DecidableEq, Repr

def positionsDirty (order : OwnedOrder) (s : AlpacaPaperOrder) (first : Option Instant) : Bool :=
  (order.broker ≠ some s || first ≠ order.firstPositiveFillAt) &&
    (s.filledQuantity ≠ previousQuantity order.broker ||
      (order.intent.side = .sell && order.status ≠ .broker s.status))

def OwnedOrder.store (order : OwnedOrder) (s : AlpacaPaperOrder) (matching : order.intent.Matches s)
    (now : Instant) (first : Option Instant) : OwnedOrder :=
  { order with
    brokerOrderId := some s.id, filledQuantity := s.filledQuantity, status := .broker s.status
    updatedAt := now, broker := some s, dispatchState := .acknowledged
    firstPositiveFillAt := first, lastReconciledAt := some now
    sound := by simpa using matching }

/-- Apply one snapshot at `now`; a stream update also carries its receipt. -/
def updateOrder (order : OwnedOrder) (s : AlpacaPaperOrder) (now : Instant)
    (receivedAt : Option Instant) : Except OrderError (OwnedOrder × Outcome) :=
  if matching : order.intent.Matches s then do
    let created ← stamp s.createdAt
    if now < created then .error .identity
    else if ← ignored order.broker order.status s then return (order, .ignored)
    else
      let first ← firstFill order.firstPositiveFillAt s (receivedAt.getD now)
      return (order.store s matching now first, .stored (positionsDirty order s first))
  else .error .identity

/-- What a stream update finds of its engine: a run, the paper host and the lease. -/
structure Desk where
  initialized : Bool
  paperHost : Bool
  leased : Bool
  deriving DecidableEq, Repr

def consumeOrderUpdate (desk : Desk) (order : OwnedOrder) (s : AlpacaPaperOrder) (observedAt : Stamp)
    (now : Instant) : Except OrderError (OwnedOrder × Outcome) :=
  if desk.initialized = false then .error .uninitialized
  else do
    let receivedAt ← stamp observedAt
    if now < receivedAt ∨ desk.paperHost = false then .error .staleReceipt
    else
      match s.updatedAt with
      | some updated =>
        let updated ← stamp updated
        if receivedAt < updated then .error .postdated
        else if desk.leased = false then .error .lease
        else updateOrder order s now (some receivedAt)
      | none =>
        if desk.leased = false then .error .lease else updateOrder order s now (some receivedAt)

/-- All that one update can do to the stored order. -/
inductive Updated (order : OwnedOrder) (s : AlpacaPaperOrder) (now received : Instant) :
    Except OrderError (OwnedOrder × Outcome) → Prop where
  | raised (e) : Updated order s now received (.error e)
  | ignored (stale : ignored order.broker order.status s = .ok true) :
      Updated order s now received (.ok (order, .ignored))
  | stored (matching : order.intent.Matches s) (first dirty)
      (fresh : Scalp.ignored order.broker order.status s = .ok false)
      (filled : firstFill order.firstPositiveFillAt s received = .ok first) :
      Updated order s now received (.ok (order.store s matching now first, .stored dirty))

theorem updateOrder_updated (order : OwnedOrder) (s : AlpacaPaperOrder) (now : Instant)
    (receivedAt : Option Instant) :
    Updated order s now (receivedAt.getD now) (updateOrder order s now receivedAt) := by
  unfold updateOrder
  split
  next matching =>
    cases created : stamp s.createdAt with
    | error e => exact .raised e
    | ok t =>
      simp only [bind, Except.bind]
      split
      next => exact .raised _
      next =>
        cases stale : ignored order.broker order.status s with
        | error e => exact .raised e
        | ok old =>
          cases old with
          | true => exact .ignored stale
          | false =>
            cases first : firstFill order.firstPositiveFillAt s (receivedAt.getD now) with
            | error e => exact .raised e
            | ok filled => exact .stored matching filled _ stale first
  next => exact .raised _

theorem consumeOrderUpdate_updated (desk : Desk) (order : OwnedOrder) (s : AlpacaPaperOrder)
    (observedAt : Stamp) (now : Instant) :
    ∃ received, Updated order s now received (consumeOrderUpdate desk order s observedAt now) := by
  unfold consumeOrderUpdate
  split
  next => exact ⟨now, .raised _⟩
  next =>
    cases observedAt with
    | naive => exact ⟨now, .raised _⟩
    | aware received =>
      refine ⟨received, ?_⟩
      simp only [stamp, bind, Except.bind]
      repeat' split
      all_goals first
        | exact .raised _
        | exact updateOrder_updated order s now (some received)

/-- How a snapshot reaches the engine. -/
inductive Delivery where
  | rest (snapshot : AlpacaPaperOrder) (now : Instant)
  | stream (desk : Desk) (snapshot : AlpacaPaperOrder) (observedAt : Stamp) (now : Instant)

def Delivery.snapshot : Delivery → AlpacaPaperOrder
  | .rest s _ => s
  | .stream _ s _ _ => s

def Delivery.apply (order : OwnedOrder) : Delivery → Except OrderError (OwnedOrder × Outcome)
  | .rest s now => updateOrder order s now none
  | .stream desk s observedAt now => consumeOrderUpdate desk order s observedAt now

/-- The order after a delivery; a raising one leaves it alone. -/
def deliver (order : OwnedOrder) (d : Delivery) : OwnedOrder :=
  match d.apply order with
  | .ok (order, _) => order
  | .error _ => order

def deliverAll (order : OwnedOrder) (ds : List Delivery) : OwnedOrder := ds.foldl deliver order

def Delivery.now : Delivery → Instant
  | .rest _ now => now
  | .stream _ _ _ now => now

/-- The time a fill may not postdate: the receipt of a stream update, else the clock. -/
def Delivery.received : Delivery → Instant
  | .rest _ now => now
  | .stream _ _ (.aware received) _ => received
  | .stream _ _ (.naive _) now => now

/-- The stream's own checks: a live engine and a receipt between the update and the clock. -/
def Delivery.Receipt : Delivery → Prop
  | .rest _ _ => True
  | .stream desk s observedAt now =>
    desk.initialized = true ∧ desk.paperHost = true ∧ desk.leased = true ∧
    ∃ received, observedAt = .aware received ∧ received ≤ now ∧
      ∀ u ∈ s.updatedAt, ∃ t, u = .aware t ∧ t ≤ received

/-- A delivery that passes every check on itself: identity, creation and fill times, and the
stream's receipt. The stored order plays no part in these. -/
structure Admissible (intent : OrderIntent) (d : Delivery) : Prop where
  matching : intent.Matches d.snapshot
  times : ∃ created, d.snapshot.createdAt = .aware created ∧ created ≤ d.now ∧
    (0 < d.snapshot.filledQuantity → ∃ candidate, candidateFill d.snapshot d.received = .ok candidate ∧
      created ≤ candidate ∧ candidate ≤ d.received)
  receipt : d.Receipt

theorem Delivery.updated (order : OwnedOrder) (d : Delivery) :
    ∃ received, Updated order d.snapshot d.now received (d.apply order) := by
  cases d with
  | rest s now => exact ⟨now, updateOrder_updated order s now none⟩
  | stream desk s observedAt now => exact consumeOrderUpdate_updated desk order s observedAt now

/-- Only a snapshot found fresh changes the stored order. -/
theorem deliver_stale {order : OwnedOrder} {d : Delivery}
    (stale : ignored order.broker order.status d.snapshot ≠ .ok false) : deliver order d = order := by
  obtain ⟨received, updated⟩ := d.updated order
  unfold deliver
  generalize d.apply order = result at updated
  cases updated with
  | raised => rfl
  | ignored => rfl
  | stored _ _ _ fresh => exact absurd fresh stale

theorem firstFill_ok {s : AlpacaPaperOrder} {created received : Instant}
    (stamped : s.createdAt = .aware created)
    (filled : 0 < s.filledQuantity → ∃ candidate, candidateFill s received = .ok candidate ∧
      created ≤ candidate ∧ candidate ≤ received) (first : Option Instant) :
    ∃ next, firstFill first s received = .ok next := by
  unfold firstFill
  split
  next positive =>
    obtain ⟨candidate, found, after, before⟩ := filled positive
    rw [found, stamped]
    simp only [bind, Except.bind, stamp]
    rw [if_neg (not_or.mpr ⟨not_lt.mpr before, not_lt.mpr after⟩)]
    exact ⟨_, rfl⟩
  next => exact ⟨first, rfl⟩

theorem updateOrder_fresh {order : OwnedOrder} {s : AlpacaPaperOrder} {now created : Instant}
    {receivedAt : Option Instant} (matching : order.intent.Matches s)
    (stamped : s.createdAt = .aware created) (past : created ≤ now)
    (filled : 0 < s.filledQuantity → ∃ candidate, candidateFill s (receivedAt.getD now) = .ok candidate ∧
      created ≤ candidate ∧ candidate ≤ receivedAt.getD now)
    (fresh : ignored order.broker order.status s = .ok false) :
    ∃ first dirty, updateOrder order s now receivedAt =
      .ok (order.store s matching now first, .stored dirty) := by
  obtain ⟨first, found⟩ := firstFill_ok stamped filled order.firstPositiveFillAt
  refine ⟨first, positionsDirty order s first, ?_⟩
  rw [updateOrder, dif_pos matching, stamped]
  simp only [stamp, bind, Except.bind]
  rw [if_neg (not_lt.mpr past), fresh, found]
  rfl

theorem deliver_fresh {order : OwnedOrder} {d : Delivery} (admissible : Admissible order.intent d)
    (fresh : ignored order.broker order.status d.snapshot = .ok false) :
    ∃ first, deliver order d = order.store d.snapshot admissible.matching d.now first := by
  obtain ⟨matching, ⟨created, stamped, past, filled⟩, receipt⟩ := admissible
  cases d with
  | rest s now =>
    obtain ⟨first, dirty, result⟩ := @updateOrder_fresh _ _ _ _ none matching stamped past filled fresh
    refine ⟨first, ?_⟩
    rw [deliver, show (Delivery.rest s now).apply order = _ from result]
  | stream desk s observedAt now =>
    obtain ⟨initialized, paper, leased, received, rfl, before, updates⟩ := receipt
    obtain ⟨first, dirty, result⟩ :=
      @updateOrder_fresh _ _ _ _ (some received) matching stamped past filled fresh
    refine ⟨first, ?_⟩
    have consumed : consumeOrderUpdate desk order s (.aware received) now =
        updateOrder order s now (some received) := by
      unfold consumeOrderUpdate
      rw [if_neg (by simp [initialized])]
      simp only [stamp, bind, Except.bind]
      rw [if_neg (not_or.mpr ⟨not_lt.mpr before, by simp [paper]⟩)]
      cases updated : s.updatedAt with
      | none => simp [leased]
      | some u =>
        obtain ⟨t, rfl, early⟩ := updates u updated
        simp only
        rw [if_neg (not_lt.mpr early), if_neg (by simp [leased])]
    rw [deliver, show (Delivery.stream desk s (.aware received) now).apply order = _ from
      consumed.trans result]

/-- A purchase of two coins and the snapshots of its two fills. -/
def boughtIntent : OrderIntent := ⟨"v30-1", "cycle", "BTC/USD".toList, .buy, 2⟩

theorem boughtIntent_positive : 0 < boughtIntent.quantity := zero_lt_two

theorem snapshot_sized : some (2 : ℚ) = none → ∃ n ∈ (none : Option ℚ), 0 < n := by simp

def snapshotAt (status : BrokerStatus) (filled : ℚ) (updated : Instant) : AlpacaPaperOrder where
  id := "b1"
  clientOrderId := "v30-1"
  status := status
  symbol := "BTC/USD"
  side := .buy
  quantity := some 2
  filledQuantity := filled
  filledAveragePrice := some 100
  createdAt := .aware 0
  updatedAt := some (.aware updated)
  sizeBasis := snapshot_sized

def partialFill : AlpacaPaperOrder := snapshotAt .partiallyFilled 1 1
def completeFill : AlpacaPaperOrder := snapshotAt .filled 2 2

end TradeAgent.Scalp
