import Mathlib.Data.Finset.Card
import TradeAgent.EventStore

/-! The entry budget of a session, as submissions, local expiries, scheduled reservations and
imports of the account's history change it. -/
namespace TradeAgent.Event

/-! ## The books -/

structure TimelineRow where
  at_ : Instant
  symbol : String
  quantity : ℚ
  cash : ℚ
  reserve : ℚ
  externalCashFlow : Option ℚ := none
  deriving DecidableEq, Repr

/-- The valued history of an account. -/
structure Baseline where
  accountDigest : String
  observedAt : Instant
  brokerOrderIds : List String
  /-- The client ids of the BUYs created on each day. -/
  buyClientIds : List (ℤ × List String)
  timeline : Dict String TimelineRow

/-- Who a session's scheduled entry was reserved for, and the BUYs of the account's history that no
local order made. -/
structure BudgetOrigin where
  scheduledRequestId : Option String := none
  externalBuyClientIds : Finset String := ∅
  deriving DecidableEq

/-- The database, and the orders whose reservations were released so far. -/
structure Books where
  store : Store
  origins : Dict Session BudgetOrigin
  baselines : Dict String Baseline
  released : List String

def Books.empty : Books where
  store := ⟨.empty, .empty, .empty, false, .empty, .empty, [], [], []⟩
  origins := .empty
  baselines := .empty
  released := []

/-- A budget is created empty where it is first locked. -/
def Books.budget (books : Books) (session : Session) : SessionBudget :=
  books.store.budgets.getD session {}

def Books.origin (books : Books) (session : Session) : BudgetOrigin := books.origins.getD session {}

def Books.setBudget (books : Books) (session : Session) (budget : SessionBudget)
    (origin : BudgetOrigin) : Books :=
  { books with
    store := { books.store with budgets := books.store.budgets.set session budget }
    origins := books.origins.set session origin }

/-! ## The transactions -/

/-- An entry is a BUY; it may run under an operator scope that names a scheduled session. -/
structure Submission where
  intent : EntryIntent
  buys : intent.request.side = .buy
  scheduledRequestId : Option String

/-- The submission knows whether it owns the session's scheduled reservation. -/
def Books.owning (books : Books) (submission : Submission) : EntryIntent :=
  { submission.intent with
    ownsSchedule := submission.scheduledRequestId.isSome &&
      (books.origin submission.intent.session).scheduledRequestId = submission.scheduledRequestId }

def Books.submitEntry (books : Books) (submission : Submission) : Except Fault (Bool × Books) := do
  let (reserved, store) ← books.store.enter (books.owning submission)
  return (reserved, { books with store })

def Store.holdsRelease (store : Store) (clientId : String) : Bool :=
  (store.orders.get? clientId).any (·.link.reservationReleasedAt.isSome)

def Books.expireUnsent (books : Books) (cohortId clientId : String) (at_ : Instant)
    (claimedInThisDispatch : Bool) : Except Fault (Bool × Books) := do
  let (expired, store) ← books.store.expireUnsent cohortId clientId at_ claimedInThisDispatch
  return (expired, { books with
    store
    released := books.released ++ if expired && store.holdsRelease clientId then [clientId] else [] })

/-- What `_issue` writes of the budget. -/
def Books.reserveScheduled (books : Books) (session : Session) (requestId : String) :
    Except Fault Books :=
  let budget := books.budget session
  let origin := books.origin session
  if 2 ≤ budget.totalEntriesReserved ∨ budget.equipmentClientOrderId ≠ none ∨
      origin.scheduledRequestId ≠ none then
    .error (.value "account-day or equipment budget already consumed")
  else
    .ok (books.setBudget session
      { budget with
        totalEntriesReserved := budget.totalEntriesReserved + 1
        scheduledEntryReserved := true }
      { origin with scheduledRequestId := some requestId })

/-- A baseline never goes back in time, and never drops or changes what an earlier one valued. -/
def Baseline.extends (old report : Baseline) : Except Fault Unit :=
  if report.observedAt < old.observedAt then
    .error (.value "cannot replace a newer account baseline")
  else if ¬old.brokerOrderIds ⊆ report.brokerOrderIds ∨
      ∃ row ∈ old.timeline.entries, report.timeline.get? row.1 ≠ some row.2 then
    .error (.value "baseline cannot discard or rewrite previously valued history")
  else .ok ()

/-- Only the BUYs that no local order made, and those not counted before, are added. -/
def Books.countBuys (digest : String) (localIds : List String) (books : Books)
    (buys : ℤ × List String) : Except Fault Books :=
  let session : Session := ⟨digest, buys.1⟩
  let budget := books.budget session
  let previous := (books.origin session).externalBuyClientIds
  let external := buys.2.toFinset \ localIds.toFinset
  if ¬previous ⊆ external then
    .error (.value "history cannot remove previously counted BUY attempts")
  else
    .ok (books.setBudget session
      { budget with totalEntriesReserved := budget.totalEntriesReserved + (external \ previous).card }
      { books.origin session with externalBuyClientIds := external })

def LifecycleState.concluded : LifecycleState → Bool
  | .filled | .canceled | .expired | .rejected => true
  | _ => false

def Books.linked (books : Books) (digest : String) : List EventOrder :=
  books.store.orders.values.filter (·.link.accountDigest = some digest)

/-- What refuses a baseline before any budget is corrected. -/
def Books.checkBaseline (books : Books) (report : Baseline) (now : Instant) : Except Fault Unit := do
  if ¬(0 ≤ now - report.observedAt ∧ now - report.observedAt ≤ 60 * second) then
    throw (.value "fresh history baseline required")
  if let some old := books.baselines.get? report.accountDigest then old.extends report
  if ∃ row ∈ books.linked report.accountDigest, ¬row.status.concluded then
    throw (.value "unresolved local history blocks baseline")
  if ∃ row ∈ books.linked report.accountDigest, ∃ id ∈ row.brokerOrderId,
      id ∉ report.brokerOrderIds then
    throw (.value "broker snapshot omits retained OMS history")

def Books.saveBaseline (books : Books) (report : Baseline) (now : Instant) : Except Fault Books := do
  books.checkBaseline report now
  let localIds := (books.linked report.accountDigest).map (·.clientOrderId)
  let counted ← report.buyClientIds.foldlM (Books.countBuys report.accountDigest localIds) books
  return { counted with baselines := counted.baselines.set report.accountDigest report }

/-- The transactions that neither book nor release an entry. An exit is a SELL, and every rewrite of
a link keeps the session it was booked in and whether that was undone. -/
def Transaction.Aside (store : Store) : Transaction → Prop
  | .enter _ | .expireUnsent .. => False
  | .reserveExit intent => intent.request.side = .sell
  | .updateLink clientId link => ∀ row, store.orders.get? clientId = some row →
    link.sessionId = row.link.sessionId ∧
      link.reservationReleasedAt = row.link.reservationReleasedAt
  | _ => True

/-- One committed transaction. `_dispatch` expires the BUY it claimed and the cleanup BUYs only. -/
inductive Books.Step (books : Books) : Books → Prop
  | submitted (submission : Submission) {reserved : Bool} {next : Books}
      (done : books.submitEntry submission = .ok (reserved, next)) : Step books next
  | expired (cohortId clientId : String) (at_ : Instant) (claimed : Bool)
      (buys : ∀ row, books.store.orders.get? clientId = some row → row.side = .buy)
      {expired : Bool} {next : Books}
      (done : books.expireUnsent cohortId clientId at_ claimed = .ok (expired, next)) :
      Step books next
  | scheduled (session : Session) (requestId : String) {next : Books}
      (done : books.reserveScheduled session requestId = .ok next) : Step books next
  | imported (report : Baseline) (now : Instant) {next : Books}
      (done : books.saveBaseline report now = .ok next) : Step books next
  | aside (transaction : Transaction) (aside : transaction.Aside books.store)
      {effective : Bool} {store : Store}
      (done : books.store.apply transaction = .ok (effective, store)) :
      Step books { books with store }

/-- By any transactions in any order; one that raises, or that a crash cuts off, leaves nothing. -/
def Books.Reaches : Books → Books → Prop := Relation.ReflTransGen Books.Step

end TradeAgent.Event
