import Mathlib.Data.List.Sort
import TradeAgent.Library.Dict
import TradeAgent.ScalpOrder

/-! The event engine's order rows with their links, its session budgets, and every database
transaction it makes over them. A transaction that raises is rolled back. -/
namespace TradeAgent.Event

open Scalp (BrokerStatus Stamp AlpacaPaperOrder)

inductive LifecycleState where
  | created | riskRejected | approved | submitting | acknowledged | partiallyFilled | filled
  | cancelPending | canceled | rejected | expired | reconciliationRequired
  deriving DecidableEq, Repr

def LifecycleState.final : LifecycleState → Bool
  | .filled | .canceled | .rejected | .expired | .riskRejected => true
  | _ => false

def lifecycleStateFromAlpaca (order : AlpacaPaperOrder) : LifecycleState :=
  match order.status with
  | .new | .accepted => .acknowledged
  | .pendingNew => .submitting
  | .partiallyFilled => .partiallyFilled
  | .filled => .filled
  | .pendingCancel => .cancelPending
  | .canceled => .canceled
  | .expired => .expired
  | .rejected => .rejected
  | _ => .reconciliationRequired

inductive Purpose where
  | research | iexPractice
  deriving DecidableEq, Repr

inductive EntryPolicy where
  | eventStrategy | equipmentOnlyDemo | newsPaper | operatorCalibration | scheduledOperator
  deriving DecidableEq, Repr

/-- The policies whose positions carry a local stop and target. -/
def EntryPolicy.locallyProtected : EntryPolicy → Bool
  | .newsPaper | .operatorCalibration => true
  | _ => false

inductive Feed where
  | sip | iex | unknown
  deriving DecidableEq, Repr

structure ExperimentalSettings where
  cohortId : String
  experimentalPaper : Bool
  purpose : Purpose
  entryPolicy : EntryPolicy
  practiceStartDate : Option ℤ
  maxEntriesPerSession : ℕ
  maximumRoundTripsPerDay : ℕ
  dated : practiceStartDate.isSome = true ↔ purpose = .iexPractice
  protectedPractice : entryPolicy.locallyProtected = true → purpose = .iexPractice
  deriving DecidableEq

def ExperimentalSettings.executionFeed (settings : ExperimentalSettings) : Feed :=
  if settings.purpose = .iexPractice then .iex else .sip

/-- First and last minute of the calibration window, from the session's open. -/
def ExperimentalSettings.calibrationWindowMinutes (settings : ExperimentalSettings) : ℤ × ℤ :=
  match settings.entryPolicy with
  | .equipmentOnlyDemo | .newsPaper => (40, 60)
  | _ => (0, 30)

/-- A registered cohort: its frozen settings, and the two hashes recovery compares. -/
structure Cohort where
  settings : ExperimentalSettings
  configHash : String
  manifestHash : String
  deriving DecidableEq

/-- What a session's identity hashes. -/
structure Session where
  accountDigest : String
  sessionDate : ℤ
  deriving DecidableEq, Repr

/-- What a claim key hashes. -/
inductive ClaimKey where
  | equipment (session : Session)
  | cluster (cohort cluster : String)
  deriving DecidableEq, Repr

inductive EntryKind where
  | strategy | calibration
  deriving DecidableEq, Repr

inductive Fault where
  | value (text : String)
  | type
  | key (name : String)
  | http (status : Option ℕ)
  | leaseLost
  | integrity
  | noRow
  | crash
  deriving DecidableEq, Repr

def stopFraction : ℚ := 5 / 1000
def targetFraction : ℚ := 1 / 100

structure Protection where
  stopPrice : ℚ
  takeProfitPrice : ℚ
  /-- Based on the broker's cumulative fill price, not on the planned limit. -/
  fillBasis : Bool := false
  deriving DecidableEq, Repr

def protection (price : ℚ) : Except Fault Protection :=
  if price ≤ 0 then .error (.value "positive actual/planned price required")
  else .ok { stopPrice := context (price * (1 - stopFraction))
             takeProfitPrice := context (price * (1 + targetFraction)) }

inductive TriggerReason where
  | localStopLoss | localTakeProfit | localProtectionUnavailableRiskExit
  deriving DecidableEq, Repr

structure Trigger where
  reason : TriggerReason
  observedAt : Instant
  deriving DecidableEq, Repr

/-- The payload beside an order row. -/
structure Link where
  entryKind : Option EntryKind := none
  limitPrice : Option ℚ := none
  expiresAt : Option Instant := none
  exitAt : Option Instant := none
  quoteAt : Option Instant := none
  accountDigest : Option String := none
  plannedSessionDate : Option ℤ := none
  sessionId : Option Session := none
  entryClientOrderId : Option String := none
  protection : Option Protection := none
  protectionTrigger : Option Trigger := none
  broker : Option AlpacaPaperOrder := none
  submissionPreparedAt : Option Instant := none
  submissionAttemptedAt : Option Instant := none
  cancelRequestedAt : Option Instant := none
  definitivelyUnsentAt : Option Instant := none
  reservationReleasedAt : Option Instant := none
  deriving DecidableEq

structure EventOrder where
  orderId : ℕ
  clientOrderId : String
  owningCohort : String
  symbol : String
  side : Side
  quantity : ℚ
  filledQuantity : ℚ := 0
  status : LifecycleState := .approved
  brokerOrderId : Option String := none
  createdAt : Instant
  link : Link
  deriving DecidableEq

def EventOrder.signed (row : EventOrder) : ℚ :=
  if row.side = .buy then row.filledQuantity else -row.filledQuantity

/-- Orders are read in this order: by creation, ties by the order id. -/
def EventOrder.before (a b : EventOrder) : Prop :=
  a.createdAt < b.createdAt ∨ a.createdAt = b.createdAt ∧ a.orderId ≤ b.orderId

instance : DecidableRel EventOrder.before := fun _ _ =>
  inferInstanceAs (Decidable (_ ∨ _ ∧ _))

/-- Held per symbol, symbols in the order they appear; flat symbols are left out. -/
def inventory (rows : List EventOrder) : List (String × ℚ) :=
  (rows.foldl (fun (held : Dict String ℚ) row =>
    held.set row.symbol (held.getD row.symbol 0 + row.signed)) Dict.empty).entries.filter
    fun held => held.2 ≠ 0

/-! ## Observing a broker snapshot -/

/-- Comparing an aware stamp with a naive one raises. -/
def Stamp.before : Stamp → Stamp → Except Fault Bool
  | .aware a, .aware b | .naive a, .naive b => .ok (a < b)
  | _, _ => .error .type

/-- Older than the snapshot kept, or reopening a final order without a further fill. -/
def EventOrder.stale (row : EventOrder) (response : AlpacaPaperOrder) : Except Fault Bool := do
  let older ← match row.link.broker.bind (·.updatedAt), response.updatedAt with
    | some previousAt, some updatedAt => Stamp.before updatedAt previousAt
    | _, _ => .ok false
  return older || (row.status.final && !(lifecycleStateFromAlpaca response).final &&
    response.filledQuantity ≤ row.filledQuantity)

def EventOrder.reconciles (row : EventOrder) (response : AlpacaPaperOrder) : Prop :=
  response.clientOrderId = row.clientOrderId ∧ response.symbol = row.symbol ∧
    response.side = row.side ∧ (∀ id ∈ row.brokerOrderId, response.id = id) ∧
    0 ≤ response.filledQuantity ∧ response.filledQuantity ≤ row.quantity

instance (row : EventOrder) (response : AlpacaPaperOrder) : Decidable (row.reconciles response) :=
  inferInstanceAs (Decidable (_ ∧ _ ∧ _ ∧ _ ∧ _ ∧ _))

/-- The protection after a snapshot: one with an entry's fill price rebases it. -/
def EventOrder.protectionAfter (row : EventOrder) (policy : EntryPolicy)
    (response : AlpacaPaperOrder) : Except Fault (Option Protection) :=
  match response.filledAveragePrice with
  | some price =>
    if policy.locallyProtected ∧ row.side = .buy ∧ 0 < response.filledQuantity then do
      let plan ← TradeAgent.Event.protection price
      return some { plan with fillBasis := true }
    else .ok row.link.protection
  | none => .ok row.link.protection

def EventOrder.take (row : EventOrder) (response : AlpacaPaperOrder) (plan : Option Protection) :
    EventOrder :=
  { row with
    brokerOrderId := some response.id
    filledQuantity := response.filledQuantity
    status := lifecycleStateFromAlpaca response
    link := { row.link with broker := some response, protection := plan } }

/-- The row after a broker snapshot; none where the snapshot is ignored as out of order. -/
def EventOrder.observe (row : EventOrder) (policy : EntryPolicy) (response : AlpacaPaperOrder) :
    Except Fault (Option EventOrder) :=
  if ¬row.reconciles response then
    .error (.value "broker state does not reconcile to durable intent")
  else do
    if ← row.stale response then return none
    else if response.filledQuantity < row.filledQuantity then
      throw (.value "unexplained decrease in broker cumulative filled quantity")
    else
      let plan ← row.protectionAfter policy response
      return some (row.take response plan)

/-! ## The database -/

structure SessionBudget where
  totalEntriesReserved : ℤ := 0
  newsEntriesReserved : ℤ := 0
  equipmentClientOrderId : Option String := none
  equipmentCohortId : Option String := none
  scheduledEntryReserved : Bool := false
  deriving DecidableEq, Repr

/-- The tables, and the orders handed to the broker so far. -/
structure Store where
  orders : Dict String EventOrder
  cohorts : Dict String Cohort
  pauses : Dict String String
  killSwitch : Bool
  brokerAccounts : Dict String String
  budgets : Dict Session SessionBudget
  claims : List ClaimKey
  handoffs : List (String × String × String)
  handed : List OrderRequest

def Store.linkedOrders (store : Store) (cohortId : String) : List EventOrder :=
  (store.orders.values.filter (·.owningCohort = cohortId)).insertionSort EventOrder.before

/-- The orders of the cohort and of every cohort that trades the session. -/
def EventOrder.inSession (row : EventOrder) (cohortId accountDigest : String)
    (sessionDate : ℤ) : Prop :=
  row.owningCohort = cohortId ∨ row.link.sessionId = some ⟨accountDigest, sessionDate⟩ ∨
    row.link.accountDigest = some accountDigest ∧ row.link.plannedSessionDate = some sessionDate

instance (row : EventOrder) (cohortId accountDigest : String) (sessionDate : ℤ) :
    Decidable (row.inSession cohortId accountDigest sessionDate) :=
  inferInstanceAs (Decidable (_ ∨ _ ∨ _ ∧ _))

def Store.sessionOrders (store : Store) (cohortId accountDigest : String) (sessionDate : ℤ) :
    List EventOrder :=
  (store.orders.values.filter (·.inSession cohortId accountDigest sessionDate)).insertionSort
    EventOrder.before

def Store.paused (store : Store) (cohortId : String) : Bool := store.pauses.getD cohortId "" ≠ ""

def Store.setOrder (store : Store) (row : EventOrder) : Store :=
  { store with orders := store.orders.set row.clientOrderId row }

/-- Rewrites the row of an id; a missing row makes it an update of no row. -/
def Store.rewrite (store : Store) (clientId : String) (change : EventOrder → EventOrder) : Store :=
  { store with orders := store.orders.modify clientId change }

/-- The rewrite made only where the row is still in a status; else no row is touched. -/
def Store.rewriteFrom (store : Store) (clientId : String) (status : LifecycleState)
    (change : EventOrder → EventOrder) : Bool × Store :=
  match store.orders.get? clientId with
  | some row => if row.status = status then (true, store.rewrite clientId change) else (false, store)
  | none => (false, store)

/-! ## Transactions -/

/-- An approved entry, with what its reservation reads besides the database. -/
structure EntryIntent where
  settings : ExperimentalSettings
  configHash : String
  kind : EntryKind
  claimKey : ClaimKey
  session : Session
  /-- The broker has neither a position nor an open order. -/
  flat : Bool
  /-- The operator request that the session's scheduled entry was reserved for. -/
  ownsSchedule : Bool
  orderId : ℕ
  request : OrderRequest
  limitPrice : ℚ
  expiresAt : Instant
  exitAt : Instant
  quoteAt : Instant

structure ExitIntent where
  cohortId : String
  orderId : ℕ
  request : OrderRequest
  entry : EventOrder

inductive Transaction where
  | register (cohort : Cohort)
  | enter (intent : EntryIntent)
  | reserveExit (intent : ExitIntent)
  | claim (clientId : String)
  | updateLink (clientId : String) (link : Link)
  | hand (request : OrderRequest)
  | attempted (clientId : String) (at_ : Instant)
  | observe (policy : EntryPolicy) (clientId : String) (response : AlpacaPaperOrder)
  | reject (clientId : String)
  | expireUnsent (cohortId clientId : String) (at_ : Instant) (claimedInThisDispatch : Bool)
  | expireExit (clientId : String)
  | cancelPending (clientId : String)
  | recordAccount (cohortId digest : String)
  | handOff (key : String × String × String)
  | pause (cohortId reason : String)
  | terminate (cohortId reason : String)
  | control (cohortId reason : String) (killSwitch : Bool)

def EntryIntent.link (intent : EntryIntent) (plan : Option Protection) : Link where
  entryKind := some intent.kind
  limitPrice := some intent.limitPrice
  expiresAt := some intent.expiresAt
  exitAt := some intent.exitAt
  quoteAt := some intent.quoteAt
  accountDigest := some intent.session.accountDigest
  plannedSessionDate := some intent.session.sessionDate
  sessionId := if intent.settings.purpose = .iexPractice then some intent.session else none
  protection := plan

def ExitIntent.link (intent : ExitIntent) : Link where
  entryKind := some (intent.entry.link.entryKind.getD .strategy)
  accountDigest := intent.entry.link.accountDigest
  plannedSessionDate := intent.entry.link.plannedSessionDate
  sessionId := intent.entry.link.sessionId
  entryClientOrderId := some intent.entry.clientOrderId
  protection := intent.entry.link.protection

def reserved (cohortId : String) (orderId : ℕ) (request : OrderRequest) (link : Link) :
    EventOrder where
  orderId := orderId
  clientOrderId := request.clientOrderId
  owningCohort := cohortId
  symbol := request.symbol
  side := request.side
  quantity := request.quantity
  createdAt := request.submittedAt
  link := link

/-- The client id is unique. -/
def Store.reserve (store : Store) (row : EventOrder) : Except Fault Store :=
  if (store.orders.get? row.clientOrderId).isSome then .error .integrity else .ok (store.setOrder row)

/-- The rows an entry's reservation looks at: of its session, else of its cohort. -/
def Store.entryRows (store : Store) (intent : EntryIntent) : List EventOrder :=
  store.orders.values.filter fun row =>
    if intent.settings.purpose = .iexPractice then row.link.sessionId = some intent.session
    else row.owningCohort = intent.settings.cohortId

def Store.entriesToday (store : Store) (intent : EntryIntent) (owns : Bool) : ℤ :=
  if intent.settings.purpose = .iexPractice then
    ((store.budgets.getD intent.session {}).totalEntriesReserved - if owns then 1 else 0)
  else ((store.entryRows intent).countP fun row =>
    row.side = .buy ∧ date row.createdAt = date intent.request.submittedAt : ℕ)

def Store.ownsScheduledReservation (store : Store) (intent : EntryIntent) : Bool :=
  (store.budgets.getD intent.session {}).scheduledEntryReserved && intent.ownsSchedule &&
    intent.settings.entryPolicy = .operatorCalibration

/-- What refuses an entry inside its reservation. -/
def Store.refuses (store : Store) (intent : EntryIntent) : Prop :=
  let budget := store.budgets.getD intent.session {}
  let owns := store.ownsScheduledReservation intent
  (intent.settings.purpose = .iexPractice ∧
    (budget.scheduledEntryReserved ∧ ¬owns ∨
      intent.kind = .calibration ∧ budget.equipmentClientOrderId ≠ none ∨
      intent.kind = .strategy ∧ 1 ≤ budget.newsEntriesReserved)) ∨
    intent.claimKey ∈ store.claims ∨
    (∃ row ∈ store.entryRows intent, ¬row.status.final) ∨
    inventory (store.entryRows intent) ≠ [] ∨ ¬intent.flat ∨
    (min intent.settings.maxEntriesPerSession intent.settings.maximumRoundTripsPerDay : ℤ) ≤
      store.entriesToday intent (intent.settings.purpose = .iexPractice ∧ owns)

instance (store : Store) (intent : EntryIntent) : Decidable (store.refuses intent) :=
  inferInstanceAs (Decidable (_ ∨ _))

def SessionBudget.reserve (budget : SessionBudget) (intent : EntryIntent) (owns : Bool) :
    SessionBudget :=
  let budget := if owns then { budget with scheduledEntryReserved := false }
    else { budget with totalEntriesReserved := budget.totalEntriesReserved + 1 }
  match intent.kind with
  | .strategy => { budget with newsEntriesReserved := budget.newsEntriesReserved + 1 }
  | .calibration => { budget with
      equipmentClientOrderId := some intent.request.clientOrderId
      equipmentCohortId := some intent.settings.cohortId }

/-- The protection planned from the limit, for the policies that carry one. -/
def EntryIntent.plan (intent : EntryIntent) : Except Fault (Option Protection) :=
  if intent.settings.entryPolicy.locallyProtected then (protection intent.limitPrice).map some
  else .ok none

def Store.enter (store : Store) (intent : EntryIntent) : Except Fault (Bool × Store) := do
  let some cohort := store.cohorts.get? intent.settings.cohortId | throw .noRow
  if cohort.configHash ≠ intent.configHash then throw (.value "cohort configuration mismatch")
  if store.refuses intent then return (false, store)
  let owns := store.ownsScheduledReservation intent
  let budgets := if intent.settings.purpose = .iexPractice then
      store.budgets.set intent.session ((store.budgets.getD intent.session {}).reserve intent owns)
    else store.budgets
  let plan ← intent.plan
  let kept := { store with claims := store.claims ++ [intent.claimKey], budgets }
  let store ← kept.reserve
    (reserved intent.settings.cohortId intent.orderId intent.request (intent.link plan))
  return (true, store)

/-- No order of the cohort may be unsettled when its exit is reserved. -/
def Store.reserveExit (store : Store) (intent : ExitIntent) : Except Fault (Bool × Store) := do
  let some _ := store.cohorts.get? intent.cohortId | throw .noRow
  if ∃ row ∈ store.orders.values, row.owningCohort = intent.cohortId ∧ ¬row.status.final then
    return (false, store)
  let store ← store.reserve (reserved intent.cohortId intent.orderId intent.request intent.link)
  return (true, store)

/-- A local expiry proven unsent; a prepared submission of an earlier run is never released. -/
def EventOrder.unsent (row : EventOrder) (claimedInThisDispatch : Bool) : Prop :=
  row.status = (if claimedInThisDispatch then .reconciliationRequired else .approved) ∧
    row.brokerOrderId = none ∧ row.filledQuantity = 0 ∧
    row.link.submissionAttemptedAt = none ∧ row.link.reservationReleasedAt = none

instance (row : EventOrder) (claimedInThisDispatch : Bool) :
    Decidable (row.unsent claimedInThisDispatch) :=
  inferInstanceAs (Decidable (_ ∧ _ ∧ _ ∧ _ ∧ _))

def SessionBudget.release (budget : SessionBudget) (kind : EntryKind) :
    Except Fault SessionBudget :=
  if budget.totalEntriesReserved < 1 ∨ kind = .strategy ∧ budget.newsEntriesReserved < 1 then
    .error (.value "unsent reservation counter mismatch")
  else .ok { budget with
    totalEntriesReserved := budget.totalEntriesReserved - 1
    newsEntriesReserved := budget.newsEntriesReserved - if kind = .strategy then 1 else 0 }

def EventOrder.expire (row : EventOrder) (at_ : Instant) (budgeted : Bool) : EventOrder :=
  { row with
    status := .expired
    link := { row.link with
      definitivelyUnsentAt := some at_
      reservationReleasedAt := if budgeted then some at_ else none } }

/-- The session a link's reservation was booked in. -/
def Link.budgetSession (link : Link) : Except Fault (Option Session) :=
  match link.sessionId with
  | none => .ok none
  | some _ => match link.accountDigest, link.plannedSessionDate with
    | some accountDigest, some sessionDate => .ok (some ⟨accountDigest, sessionDate⟩)
    | none, _ => .error (.key "account_digest")
    | _, none => .error (.key "planned_session_date")

def Store.expireUnsent (store : Store) (cohortId clientId : String) (at_ : Instant)
    (claimedInThisDispatch : Bool) : Except Fault (Bool × Store) := do
  let some _ := store.cohorts.get? cohortId | throw .noRow
  let some row := store.orders.get? clientId | throw .noRow
  let session ← row.link.budgetSession
  if ¬row.unsent claimedInThisDispatch then return (false, store)
  match session with
  | none => return (true, store.rewrite clientId fun row => row.expire at_ false)
  | some session => do
    if row.link.sessionId ≠ some session then
      throw (.value "unsent reservation session identity mismatch")
    let some kind := row.link.entryKind | throw (.key "entry_kind")
    let budget ← (store.budgets.getD session {}).release kind
    return (true, { store.rewrite clientId (fun row => row.expire at_ true) with
      budgets := store.budgets.set session budget })

def Store.observe (store : Store) (policy : EntryPolicy) (clientId : String)
    (response : AlpacaPaperOrder) : Except Fault (Bool × Store) := do
  let some row := store.orders.get? clientId | throw .noRow
  let some row ← row.observe policy response | return (false, store)
  -- Broker order ids are unique as well.
  if ∃ other ∈ store.orders.values,
      other.clientOrderId ≠ clientId ∧ other.brokerOrderId = some response.id then
    throw .integrity
  return (true, store.rewrite clientId fun _ => row)

def Store.pause (store : Store) (cohortId reason : String) : Store :=
  { store with pauses := store.pauses.set cohortId reason }

/-- Ends the cohort's entries for good: paused unless it was, under the kill switch. -/
def Store.terminate (store : Store) (cohortId reason : String) : Store :=
  let store := if store.paused cohortId then store else store.pause cohortId reason
  { store with killSwitch := true }

/-- Whether the transaction took effect, and the database after it. -/
def Store.apply (store : Store) : Transaction → Except Fault (Bool × Store)
  | .register cohort => .ok (true,
      { store with cohorts := store.cohorts.setDefault cohort.settings.cohortId cohort })
  | .enter intent => store.enter intent
  | .reserveExit intent => store.reserveExit intent
  | .claim clientId => .ok (store.rewriteFrom clientId .approved
      fun row => { row with status := .reconciliationRequired })
  | .updateLink clientId link => .ok (true, store.rewrite clientId fun row => { row with link })
  | .hand request => .ok (true, { store with handed := store.handed ++ [request] })
  | .attempted clientId at_ => .ok (true, store.rewrite clientId fun row =>
      { row with link := { row.link with submissionAttemptedAt := some at_ } })
  | .observe policy clientId response => store.observe policy clientId response
  | .reject clientId => .ok (true, store.rewrite clientId fun row => { row with status := .rejected })
  | .expireUnsent cohortId clientId at_ claimed => store.expireUnsent cohortId clientId at_ claimed
  | .expireExit clientId => .ok (store.rewriteFrom clientId .reconciliationRequired
      fun row => { row with status := .expired })
  | .cancelPending clientId => .ok (true,
      store.rewrite clientId fun row => { row with status := .cancelPending })
  | .recordAccount cohortId digest => .ok (true,
      { store with brokerAccounts := store.brokerAccounts.setDefault cohortId digest })
  | .handOff key => .ok (true, { store with handoffs := store.handoffs ++ [key] })
  | .pause cohortId reason => .ok (true, store.pause cohortId reason)
  | .terminate cohortId reason => .ok (true, store.terminate cohortId reason)
  | .control cohortId reason killSwitch => .ok (true,
      { store.pause cohortId reason with killSwitch })

end TradeAgent.Event
