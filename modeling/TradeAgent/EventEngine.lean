import TradeAgent.EventOrder
import TradeAgent.Library.Procedure

/-! The event order manager: reconciliation, dispatch and supervision. Every database
transaction and every call to the broker is one step, and the process may stop before any. -/
namespace TradeAgent.Event

open Scalp (Stamp AlpacaPaperOrder)

/-- The database, and how many more steps the process lives. -/
structure World where
  store : Store
  life : ℕ

abbrev Pass := Procedure World Fault

structure Account where
  id : String
  active : Bool
  tradingBlocked : Bool
  accountBlocked : Bool
  deriving DecidableEq, Repr

structure PaperClock where
  timestamp : Instant
  isOpen : Bool
  deriving DecidableEq, Repr

structure EventQuote where
  symbol : String
  bid : ℚ
  ask : ℚ
  timestamp : Instant
  receivedAt : Instant
  feed : Feed
  deriving DecidableEq, Repr

/-- The exchange calendar, and the configured times of each local day. -/
structure Calendar where
  localDate : Instant → ℤ
  sessionBounds : ℤ → Option (Instant × Instant)
  entryStart : ℤ → Instant
  noNewEntriesAfter : ℤ → Instant
  flattenStart : ℤ → Instant

inductive SessionPhase where
  | closed | preEntry | entry | manageOnly | flatten
  deriving DecidableEq, Repr

structure SessionGate where
  phase : SessionPhase
  session : Option (Instant × Instant)
  deriving DecidableEq, Repr

def SessionGate.canEnter (gate : SessionGate) : Bool := gate.phase = .entry

def SessionGate.mustFlatten (gate : SessionGate) : Bool := gate.phase = .flatten

/-- The regular session is open, its close excluded. -/
def SessionGate.contains (gate : SessionGate) (at_ : Instant) : Prop :=
  ∃ bounds ∈ gate.session, bounds.1 ≤ at_ ∧ at_ < bounds.2

instance (gate : SessionGate) (at_ : Instant) : Decidable (gate.contains at_) :=
  inferInstanceAs (Decidable (∃ bounds ∈ gate.session, _))

def Calendar.gate (calendar : Calendar) (observedAt : Instant) : SessionGate :=
  let day := calendar.localDate observedAt
  match calendar.sessionBounds day with
  | none => ⟨.closed, none⟩
  | some (opens, closes) =>
    let noEntry := min (calendar.noNewEntriesAfter day) (closes - 30 * minute)
    let flatten := min (calendar.flattenStart day) (closes - 10 * minute)
    ⟨if observedAt < opens ∨ closes < observedAt then .closed
      else if observedAt < calendar.entryStart day then .preEntry
      else if observedAt < noEntry then .entry
      else if observedAt < flatten then .manageOnly
      else .flatten, some (opens, closes)⟩

/-- Everything the manager asks for outside its database. An answer may change from step to
step, and any of them may raise. -/
structure Outside where
  sha256 : String → String
  paperHost : Bool
  liveEnvironment : Bool
  calendar : String → Calendar
  operatorScope : String → Option String
  leaseHeld : World → Bool
  operatorAuthorized : World → Bool
  entryAuthorized : World → Bool
  entryFence : World → Bool × Instant
  nextOrderId : World → ℕ
  account : World → Except Fault Account
  positions : World → Except Fault (List (String × ℚ))
  openOrders : World → Except Fault (List AlpacaPaperOrder)
  clock : World → Except Fault PaperClock
  quote : World → String → Except Fault EventQuote
  find : World → String → Except Fault (Option AlpacaPaperOrder)
  submit : World → OrderRequest → Option ℚ → Except Fault AlpacaPaperOrder
  cancel : World → String → Except Fault Unit

structure Manager where
  settings : ExperimentalSettings
  configHash : String
  owned : Bool
  quoteProvider : Bool
  recoveryOnly : Bool := false
  /-- The other cohorts it has made recovery managers for. -/
  recoveries : List String := []
  others : settings.cohortId ∉ recoveries

/-! ## Steps -/

def tick : Pass Unit := Procedure.attempt fun w =>
  match w.life with
  | 0 => .error .crash
  | life + 1 => .ok ((), { w with life })

/-- A call outside. -/
def ask {α : Type} (call : World → Except Fault α) : Pass α := do
  tick
  Procedure.attempt fun w => (call w).map fun answer => (answer, w)

def commit (transaction : Transaction) : Pass Bool := do
  tick
  Procedure.attempt fun w =>
    (w.store.apply transaction).map fun done => (done.1, { w with store := done.2 })

def Account.digest (out : Outside) (account : Account) : String := out.sha256 account.id

section manager

variable (m : Manager) (out : Outside) (now : Instant)

def Manager.assertOwner : Pass Unit := do
  if m.owned then
    let held ← ask fun w => .ok (out.leaseHeld w)
    if ¬held then Procedure.raise .leaseLost

def Manager.operatorAuthorized (w : World) : Bool :=
  m.owned && m.settings.entryPolicy = .operatorCalibration &&
    (out.operatorScope m.settings.cohortId).isSome && out.operatorAuthorized w

def Manager.entryPaused (w : World) : Bool :=
  w.store.paused m.settings.cohortId ||
    (m.settings.entryPolicy = .operatorCalibration && !m.operatorAuthorized out w) ||
    (w.store.killSwitch && !m.operatorAuthorized out w)

def Manager.pause (reason : String) : Pass Unit := do
  let _ ← commit (.pause m.settings.cohortId reason)

def Manager.scopedOrders : Pass (List EventOrder) := do
  match m.settings.practiceStartDate with
  | some sessionDate => do
    let account ← ask out.account
    Procedure.view fun w =>
      w.store.sessionOrders m.settings.cohortId (account.digest out) sessionDate
  | none => Procedure.view fun w => w.store.linkedOrders m.settings.cohortId

def Manager.observe (clientId : String) (response : AlpacaPaperOrder) : Pass Unit := do
  let _ ← commit (.observe m.settings.entryPolicy clientId response)

/-! ## Reconciliation -/

/-- A manager for an earlier cohort, under its frozen settings. The registry of cohorts never
changes, so one made before is the one made again. -/
def Manager.recovering (cohortId : String) : Pass Manager := do
  let some sessionDate := m.settings.practiceStartDate
    | Procedure.raise (.value "recovery requires a planned session")
  let some cohort ← Procedure.view fun w => w.store.cohorts.get? cohortId
    | Procedure.raise .noRow
  if cohort.settings.cohortId ≠ cohortId ∨ cohort.settings.purpose ≠ .iexPractice ∨
      cohort.settings.practiceStartDate ≠ some sessionDate ∨ ¬cohort.settings.experimentalPaper ∨
      cohort.manifestHash ≠ cohort.configHash then
    Procedure.raise (.value "prior cohort recovery scope mismatch")
  return { settings := cohort.settings, configHash := cohort.configHash, owned := m.owned,
           quoteProvider := m.quoteProvider, recoveryOnly := true, others := List.not_mem_nil }

def Manager.recoveryManager (cohortId digest : String) : Pass Manager := do
  if m.settings.practiceStartDate = none then
    Procedure.raise (.value "recovery requires a planned session")
  let recorded ← Procedure.view fun w => w.store.brokerAccounts.get? cohortId
  if recorded ≠ some digest then
    Procedure.raise (.value "prior cohort account ownership is unverified")
  let manager ← m.recovering cohortId
  let key := (cohortId, m.settings.cohortId, digest)
  let known ← Procedure.view fun w => decide (key ∈ w.store.handoffs)
  if ¬m.recoveryOnly ∧ ¬known then
    m.assertOwner out
    let _ ← commit (.handOff key)
  return manager

structure RowVerdict where
  cohort : String
  unverified : Bool := false
  mismatch : Bool := false
  /-- The cohort's recovery manager exists. -/
  recovered : Bool := false

/-- A practice row must carry the session of this account. -/
def Manager.verifies (digest : String) (row : EventOrder) : Prop :=
  m.settings.purpose = .iexPractice →
    row.link.accountDigest = some digest ∧
      ∃ sessionDate ∈ m.settings.practiceStartDate, row.link.sessionId = some ⟨digest, sessionDate⟩

instance (digest : String) (row : EventOrder) : Decidable (m.verifies digest row) :=
  inferInstanceAs (Decidable (_ → _ ∧ ∃ sessionDate ∈ m.settings.practiceStartDate, _))

/-- The manager whose row it is; none where its ownership cannot be verified. -/
def Manager.ownerOf (digest : String) (row : EventOrder) : Pass (Option Manager) := do
  if row.owningCohort = m.settings.cohortId then return some m
  match ← Procedure.caught (m.recoveryManager out row.owningCohort digest) with
  | .ok manager => return some manager
  | .error (.value _) | .error (.key _) => return none
  | .error fault => Procedure.raise fault

/-- A final order is looked up again only on the day it was created. -/
def EventOrder.settledEarlier (row : EventOrder) (now : Instant) : Prop :=
  row.status.final ∧ (row.brokerOrderId = none ∨ date row.createdAt ≠ date now)

instance (row : EventOrder) (now : Instant) : Decidable (row.settledEarlier now) :=
  inferInstanceAs (Decidable (_ ∧ _))

def Manager.reconcileRow (digest : String) (row : EventOrder) : Pass RowVerdict := do
  if ¬m.verifies digest row then
    return { cohort := row.owningCohort, unverified := true, mismatch := true }
  let some manager ← m.ownerOf out digest row
    | return { cohort := row.owningCohort, unverified := true, mismatch := true }
  let recovered : Bool := row.owningCohort ≠ m.settings.cohortId
  if row.settledEarlier now then return { cohort := row.owningCohort, recovered }
  match ← ask fun w => out.find w row.clientOrderId with
  | some brokerOrder => do
    manager.observe row.clientOrderId brokerOrder
    return { cohort := row.owningCohort, recovered }
  | none =>
    return { cohort := row.owningCohort, recovered
             mismatch := row.status ≠ .created ∧ row.status ≠ .approved }

structure Reconciliation where
  healthy : Bool
  unverified : List String
  /-- The other cohorts for which a recovery manager exists. -/
  recoveries : List String

def actualPositions (positions : List (String × ℚ)) : Dict String ℚ := Dict.ofList positions

/-- Final fills whose price the broker did not confirm pause the cohort. -/
def Manager.notifyCompletedCycles : Pass Unit := do
  if m.settings.entryPolicy ≠ .operatorCalibration then
    let rows ← Procedure.view fun w => w.store.linkedOrders m.settings.cohortId
    Procedure.forEach (fun row => do
      if 0 < row.filledQuantity ∧ row.status.final then
        if row.link.broker.any (·.filledAveragePrice.isNone) then
          m.pause "FILL_PRICE_UNCONFIRMED") rows

def Manager.reconcile (recoveries : List String) : Pass Reconciliation := do
  if ¬out.paperHost then Procedure.raise (.value "live or unknown broker endpoint forbidden")
  let account ← ask out.account
  let digest := account.digest out
  if m.settings.entryPolicy = .operatorCalibration ∧
      out.operatorScope m.settings.cohortId ≠ some digest then
    m.pause "OPERATOR_ACCOUNT_PIN_MISMATCH"
    Procedure.raise (.value "operator account does not match the immutable request")
  match ← Procedure.view fun w => w.store.brokerAccounts.get? m.settings.cohortId with
  | none => let _ ← commit (.recordAccount m.settings.cohortId digest)
  | some recorded =>
    if recorded ≠ digest then
      m.pause "ACCOUNT_RESET_OR_SWITCH"
      Procedure.raise (.value "account reset or switch; recovery forbidden")
  let _ ← ask out.positions
  let _ ← ask out.openOrders
  let rows ← m.scopedOrders out
  let verdicts ← Procedure.mapEach (m.reconcileRow out now digest) rows
  let rows ← m.scopedOrders out
  let positions ← ask out.positions
  let openOrders ← ask out.openOrders
  let localIds := rows.map (·.clientOrderId)
  let healthy : Bool := ¬verdicts.any (·.mismatch) ∧
    (inventory rows).isPerm ((actualPositions positions).entries.filter (·.2 ≠ 0)) ∧
    (∀ order ∈ openOrders, order.clientOrderId ∈ localIds) ∧
    ¬account.accountBlocked ∧ ¬account.tradingBlocked ∧ account.active
  if healthy then m.notifyCompletedCycles else m.pause "RECONCILIATION_REQUIRED"
  return { healthy
           unverified := (verdicts.filter (·.unverified)).map (·.cohort)
           recoveries := (recoveries ++ (verdicts.filter (·.recovered)).map (·.cohort)).dedup }

/-! ## Dispatch -/

def expectLink {α : Type} (field : Option α) (name : String) : Pass α :=
  Procedure.lift (field.elim (.error (.key name)) .ok)

/-- An entry is submitted only on a fresh quote, in its window and under its authorizations. -/
def Manager.entryRefused (request : OrderRequest) (link : Link) (quoteAt expiresAt : Instant)
    (clock : PaperClock) (authorized paused : Bool) : Prop :=
  let calendar := out.calendar m.settings.cohortId
  let gate := calendar.gate clock.timestamp
  let today := calendar.localDate clock.timestamp
  let window := m.settings.calibrationWindowMinutes
  let opens := gate.session.map Prod.fst
  ¬clock.isOpen ∨ ¬gate.canEnter ∨
    ¬(0 ≤ clock.timestamp - request.submittedAt ∧ clock.timestamp - request.submittedAt ≤ 5 * second) ∨
    ¬(0 ≤ clock.timestamp - quoteAt ∧ clock.timestamp - quoteAt ≤ 5 * second) ∨
    expiresAt < clock.timestamp ∨
    (link.entryKind = some .calibration ∧
      (m.settings.practiceStartDate ≠ some today ∨ opens = none ∨
        (out.operatorScope m.settings.cohortId = none ∧ ∃ start ∈ opens,
          ¬(start + window.1 * minute ≤ clock.timestamp ∧
            clock.timestamp < start + window.2 * minute)))) ∨
    (m.settings.entryPolicy = .newsPaper ∧
      (m.settings.practiceStartDate ≠ some today ∨
        ∀ start ∈ opens, clock.timestamp < start + 40 * minute)) ∨
    (link.entryKind = some .strategy ∧
      ∀ bounds ∈ gate.session, bounds.2 < clock.timestamp + 70 * minute) ∨
    ¬authorized ∨ paused

instance (request : OrderRequest) (link : Link) (quoteAt expiresAt : Instant) (clock : PaperClock)
    (authorized paused : Bool) :
    Decidable (m.entryRefused out request link quoteAt expiresAt clock authorized paused) :=
  inferInstanceAs (Decidable (_ ∨ _))

/-- The clock of the submission; none where the order is expired unsent instead. -/
def Manager.revalidate (request : OrderRequest) (link : Link) : Pass (Option Instant) := do
  match request.side with
  | .buy => do
    let authorized ← Procedure.view out.entryAuthorized
    let paused ← Procedure.view (m.entryPaused out)
    m.assertOwner out
    let clock ← ask out.clock
    let quoteAt ← expectLink link.quoteAt "quote_at"
    let expiresAt ← expectLink link.expiresAt "expires_at"
    if m.entryRefused out request link quoteAt expiresAt clock authorized paused then
      let _ ← commit
        (.expireUnsent m.settings.cohortId request.clientOrderId clock.timestamp true)
      return none
    if m.settings.entryPolicy ≠ .operatorCalibration then return some clock.timestamp
    let (fenced, dispatchAt) ← ask fun w => .ok (out.entryFence w)
    if ¬fenced ∨ ¬((out.calendar m.settings.cohortId).gate dispatchAt).canEnter ∨
        ¬(0 ≤ dispatchAt - clock.timestamp ∧ dispatchAt - clock.timestamp ≤ 5 * second) ∨
        ¬(0 ≤ dispatchAt - request.submittedAt ∧ dispatchAt - request.submittedAt ≤ 5 * second) ∨
        ¬(0 ≤ dispatchAt - quoteAt ∧ dispatchAt - quoteAt ≤ 5 * second) ∨
        expiresAt ≤ dispatchAt then
      let _ ← commit (.expireUnsent m.settings.cohortId request.clientOrderId dispatchAt true)
      return none
    return some dispatchAt
  | .sell => do
    m.assertOwner out
    if ¬m.settings.entryPolicy.locallyProtected then return some now
    let clock ← ask out.clock
    if ¬clock.isOpen ∨
        ¬((out.calendar m.settings.cohortId).gate clock.timestamp).contains clock.timestamp ∨
        ¬(0 ≤ clock.timestamp - request.submittedAt ∧
          clock.timestamp - request.submittedAt ≤ 5 * second) then
      let _ ← commit (.expireExit request.clientOrderId)
      return none
    return some clock.timestamp

def rejectionCodes : List ℕ := [400, 401, 403, 404, 422]

/-- What follows an answered submission. -/
def Manager.settle (request : OrderRequest) : Except Fault AlpacaPaperOrder → Pass Unit
  | .ok response => m.observe request.clientOrderId response
  | .error (.http (some code)) =>
    if code ∈ rejectionCodes then do
      let existing ← if code = 422 then ask fun w => out.find w request.clientOrderId
        else pure none
      match existing with
      | some existing => m.observe request.clientOrderId existing
      | none => let _ ← commit (.reject request.clientOrderId)
    else m.pause "SUBMISSION_OUTCOME_UNKNOWN"
  | .error (.http none) => m.pause "SUBMISSION_OUTCOME_UNKNOWN"
  | .error fault => Procedure.raise fault

/-- The call to the broker, and the note that it was made; a stop between leaves no note. -/
def Manager.submit (request : OrderRequest) (limit : Option ℚ) (submittedAt : Instant) :
    Pass Unit := do
  let _ ← commit (.hand request)
  let reply ← Procedure.caught (ask fun w => out.submit w request limit)
  if reply matches .error .crash then Procedure.raise .crash
  let _ ← commit (.attempted request.clientOrderId submittedAt)
  m.settle out request reply

def Manager.dispatch (request : OrderRequest) (limit : Option ℚ) : Pass Unit := do
  if out.liveEnvironment then Procedure.raise (.value "live environment")
  if ¬out.paperHost then Procedure.raise (.value "broker dispatch requires the paper host")
  m.assertOwner out
  match ← ask fun w => out.find w request.clientOrderId with
  | some existing => m.observe request.clientOrderId existing
  | none => do
    let claimed ← commit (.claim request.clientOrderId)
    if claimed then
      let link ← Procedure.view fun w => (w.store.orders.get? request.clientOrderId).map (·.link)
      let some link := link | Procedure.raise .noRow
      let _ ← commit (.updateLink request.clientOrderId
        { link with submissionPreparedAt := some now })
      let account ← ask out.account
      let digest := account.digest out
      let recorded ← Procedure.view fun w => w.store.brokerAccounts.get? m.settings.cohortId
      if recorded ≠ some digest ∨ (m.settings.entryPolicy = .operatorCalibration ∧
          out.operatorScope m.settings.cohortId ≠ some digest) then
        Procedure.raise (.value "account changed before dispatch")
      let submittedAt ← m.revalidate out now request link
      match submittedAt with
      | some submittedAt => m.submit out request limit submittedAt
      | none => return

/-! ## Supervision -/

def Manager.cancel (row : EventOrder) (brokerOrderId : String) : Pass Unit := do
  m.assertOwner out
  match ← Procedure.caught (ask fun w => out.cancel w brokerOrderId) with
  | .ok () => do
    let _ ← commit (.updateLink row.clientOrderId
      { row.link with cancelRequestedAt := some now })
    let _ ← commit (.cancelPending row.clientOrderId)
  | .error fault => do
    if fault ≠ .http (some 404) ∧ fault ≠ .http (some 422) then Procedure.raise fault
    match ← ask fun w => out.find w row.clientOrderId with
    | some actual =>
      if (lifecycleStateFromAlpaca actual).final then m.observe row.clientOrderId actual
      else Procedure.raise fault
    | none => Procedure.raise fault

/-- The buys filled since the symbol was last flat. -/
def openBuys (rows : List EventOrder) (symbol : String) : List EventOrder :=
  ((rows.filter (·.symbol = symbol)).foldl (fun (state : ℚ × List EventOrder) row =>
    let running := state.1 + row.signed
    let buys := if row.side = .buy ∧ 0 < row.filledQuantity then state.2 ++ [row] else state.2
    (running, if running = 0 then [] else buys)) (0, [])).2

/-- The symbols with such buys, in the order they were opened. -/
def activeSymbols (rows : List EventOrder) : List String :=
  (rows.foldl (fun (state : Dict String ℚ × List String) row =>
    let quantity := state.1.getD row.symbol 0 + row.signed
    let active := if row.side = .buy ∧ 0 < row.filledQuantity ∧ row.symbol ∉ state.2 then
        state.2 ++ [row.symbol] else state.2
    (state.1.set row.symbol quantity,
      if quantity = 0 then active.erase row.symbol else active)) (Dict.empty, [])).2

/-- What a fresh quote says of the plan; an unusable quote raises. -/
def Protection.judge (plan : Protection) (symbol : String) (feed : Feed) (quote : EventQuote)
    (checkedAt : Instant) : Except Fault (Option TriggerReason) :=
  if quote.symbol ≠ symbol ∨ quote.feed ≠ feed ∨
      ¬(quote.timestamp ≤ quote.receivedAt ∧ quote.receivedAt ≤ checkedAt) ∨
      ¬(0 ≤ checkedAt - quote.timestamp ∧ checkedAt - quote.timestamp ≤ 5 * second) ∨
      quote.bid ≤ 0 ∨ quote.ask < quote.bid then
    .error (.value "protective quote stale/invalid")
  else if quote.bid ≤ plan.stopPrice then .ok (some .localStopLoss)
  else if plan.takeProfitPrice ≤ quote.bid then .ok (some .localTakeProfit)
  else .ok none

def Manager.protectionReason (symbol : String) (plan : Option Protection) :
    Pass (Option TriggerReason) := do
  let judged ← Procedure.caught do
    let usable := plan.filter fun plan => m.quoteProvider && plan.fillBasis
    let some plan := usable
      | Procedure.raise (.value "protective quote provider/fill basis missing")
    let quote ← ask fun w => out.quote w symbol
    let clock ← ask out.clock
    Procedure.lift (plan.judge symbol m.settings.executionFeed quote clock.timestamp)
  match judged with
  | .ok reason => return reason
  | .error (.value _) | .error (.key _) | .error (.http _) => do
    m.pause "LOCAL_PROTECTION_UNAVAILABLE"
    return some .localProtectionUnavailableRiskExit
  | .error fault => Procedure.raise fault

/-- Whether the symbol's protection has tripped; a trip is recorded on its latest buy. -/
def Manager.protectionTrigger (rows : List EventOrder) (symbol : String) :
    Pass (Option String) := do
  let some row := (openBuys rows symbol).getLast? | return none
  if row.link.protectionTrigger.isSome then return some symbol
  match ← m.protectionReason out symbol row.link.protection with
  | none => return none
  | some reason => do
    let _ ← commit (.updateLink row.clientOrderId
      { row.link with protectionTrigger := some ⟨reason, now⟩ })
    return some symbol

def Manager.protectionTriggers : Pass (List String) := do
  if ¬m.settings.entryPolicy.locallyProtected then return []
  let rows ← Procedure.view fun w => w.store.linkedOrders m.settings.cohortId
  let triggered ← Procedure.mapEach (m.protectionTrigger out now rows) (activeSymbols rows)
  return triggered.filterMap id

/-- Withdraws an entry that may no longer fill, and an exit that has been open too long. -/
def Manager.cleanUp (feedHealthy : Bool) (triggered : List String) (gate : SessionGate)
    (row : EventOrder) : Pass Unit := do
  if row.side = .buy ∧ ¬row.status.final then
    let expiry ← expectLink row.link.expiresAt "expires_at"
    let paused ← Procedure.view (m.entryPaused out)
    if ¬feedHealthy ∨ expiry ≤ now ∨ gate.mustFlatten ∨ paused ∨ row.symbol ∈ triggered then
      match row.brokerOrderId with
      | some brokerOrderId =>
        if row.status ≠ .cancelPending then m.cancel out now row brokerOrderId
      | none =>
        if row.status = .approved then
          let _ ← commit (.expireUnsent m.settings.cohortId row.clientOrderId now false)
  else if row.side = .sell ∧ ¬row.status.final ∧ row.status ≠ .cancelPending ∧
      row.createdAt + 30 * second ≤ now then
    match row.brokerOrderId with
    | some brokerOrderId => m.cancel out now row brokerOrderId
    | none => return

/-- The earliest holding deadline of the open buys. -/
def exitDeadline (buys : List EventOrder) : Except Fault Instant := do
  let deadlines ← buys.mapM fun row => row.link.exitAt.elim (.error (.key "exit_at")) .ok
  match deadlines with
  | [] => throw (.value "min() iterable argument is empty")
  | first :: rest => return rest.foldl min first

def exitKey (cohortId : String) (entry : EventOrder) (sequence : ℕ) : String :=
  cohortId ++ ":" ++ entry.clientOrderId ++ ":exit:" ++ toString sequence

def exitClientId (key : String) : String := "ta20-" ++ String.ofList ((out.sha256 key).toList.take 40)

/-- The market order that closes what the cohort owns of a symbol. -/
def Manager.exitRequest (rows : List EventOrder) (entry : EventOrder) (symbol : String) (owned : ℚ)
    (positive : 0 < owned) : OrderRequest where
  clientOrderId := exitClientId out (exitKey m.settings.cohortId entry
    (rows.countP fun row => row.symbol = symbol ∧ row.side = .sell))
  symbol := symbol
  side := .sell
  quantity := owned
  submittedAt := now
  quantityPositive := positive

/-- An unsettled order of the symbol, here or at the broker. -/
def Manager.unsettled (symbol : String) : Pass Bool := do
  let rows ← m.scopedOrders out
  if ∃ row ∈ rows, row.symbol = symbol ∧ ¬row.status.final then return true
  let openOrders ← ask out.openOrders
  return openOrders.any (·.symbol = symbol)

def Manager.exit (feedHealthy : Bool) (triggered : List String) (gate : SessionGate)
    (rows : List EventOrder) (positions : Dict String ℚ) (held : String × ℚ) : Pass Unit := do
  let (symbol, owned) := held
  let buys := openBuys rows symbol
  let due ← Procedure.lift (exitDeadline buys)
  let paused ← Procedure.view (m.entryPaused out)
  if gate.mustFlatten ∨ due ≤ now ∨ ¬feedHealthy ∨ paused ∨ symbol ∈ triggered then
    if matched : 0 < owned ∧ positions.get? symbol = some owned then
      -- A cancellation or an unknown outcome must settle before the exit could oversell.
      if ← m.unsettled out symbol then return
      let clock ← ask out.clock
      if ¬clock.isOpen ∨ ¬gate.contains now then
        m.pause "POSITION_REQUIRES_NEXT_OPEN_EXIT"
      else
        let some entry := buys.getLast? | Procedure.raise (.key "buys")
        let orderId ← Procedure.view out.nextOrderId
        let request := m.exitRequest out now rows entry symbol owned matched.1
        let reserved ← commit (.reserveExit
          { cohortId := m.settings.cohortId, orderId, request, entry })
        if reserved then m.dispatch out now request none
    else m.pause "EXIT_POSITION_MISMATCH"

/-- An equipment demo ends with its window, or once its attempt is flat again. -/
def Manager.finishDemo : Pass Unit := do
  if m.settings.entryPolicy = .equipmentOnlyDemo then
    let bounds := m.settings.practiceStartDate.bind
      (out.calendar m.settings.cohortId).sessionBounds
    let rows ← Procedure.view fun w => w.store.linkedOrders m.settings.cohortId
    if ∃ session ∈ bounds, session.1 + m.settings.calibrationWindowMinutes.2 * minute ≤ now then
      let _ ← commit (.terminate m.settings.cohortId "DEMO_TERMINAL")
    else if rows ≠ [] ∧ (∀ row ∈ rows, row.status.final) ∧ inventory rows = [] then
      if (← ask out.positions) = [] then
        if (← ask out.openOrders) = [] then
          let _ ← commit (.terminate m.settings.cohortId "DEMO_TERMINAL")

/-- A news session ends with the exchange's, or once its one attempt is over. -/
def Manager.finishNews : Pass Unit := do
  if m.settings.entryPolicy = .newsPaper then
    let bounds := m.settings.practiceStartDate.bind
      (out.calendar m.settings.cohortId).sessionBounds
    let own ← Procedure.view fun w => w.store.linkedOrders m.settings.cohortId
    let digest ← Procedure.view fun w => w.store.brokerAccounts.get? m.settings.cohortId
    let digest ← match digest with
      | some digest => pure digest
      | none => do
        let account ← ask out.account
        pure (account.digest out)
    let budget ← Procedure.view fun w => m.settings.practiceStartDate.map
      fun sessionDate => w.store.budgets.getD ⟨digest, sessionDate⟩ {}
    if (∃ session ∈ bounds, session.2 ≤ now) ∨
        (∃ row ∈ own, row.side = .buy ∧ row.link.entryKind = some .calibration ∧
          row.status.final ∧ row.filledQuantity = 0) ∨
        ((∃ row ∈ own, row.side = .buy ∧ row.link.entryKind = some .strategy) ∧
          (∀ row ∈ own, row.status.final) ∧ inventory own = []) ∨
        ((∃ session ∈ bounds, session.1 + 60 * minute ≤ now) ∧
          (budget.bind (·.equipmentClientOrderId)) = none) then
      let _ ← commit (.terminate m.settings.cohortId "NEWS_SESSION_TERMINAL")

/-- The part of a pass that works on the manager's own cohort. -/
def Manager.superviseOwn (feedHealthy : Bool) (recoveries : List String) : Pass Unit := do
  m.finishNews out now
  let triggered ← m.protectionTriggers out now
  let rows ← Procedure.view fun w => w.store.linkedOrders m.settings.cohortId
  let gate := (out.calendar m.settings.cohortId).gate now
  Procedure.forEach (m.cleanUp out now feedHealthy triggered gate) rows
  let _ ← m.reconcile out now recoveries
  let rows ← Procedure.view fun w => w.store.linkedOrders m.settings.cohortId
  let positions ← ask out.positions
  Procedure.forEach (m.exit out now feedHealthy triggered gate rows (actualPositions positions))
    (inventory rows)

/-- A pass of a manager that recovers an earlier cohort. -/
def Manager.superviseRecovery (feedHealthy : Bool) (recoveries : List String) : Pass Unit := do
  m.assertOwner out
  let reconciliation ← m.reconcile out now recoveries
  m.finishDemo out now
  if m.settings.cohortId ∉ reconciliation.unverified then
    m.superviseOwn out now feedHealthy reconciliation.recoveries

/-- One pass: reconcile, let the earlier cohorts recover, then supervise the own one. -/
def Manager.supervise (feedHealthy : Bool) (supervised : List String) : Pass Unit := do
  if m.recoveryOnly then m.superviseRecovery out now feedHealthy m.recoveries
  else
    m.assertOwner out
    let reconciliation ← m.reconcile out now m.recoveries
    m.finishDemo out now
    Procedure.forEach (fun cohortId => do
      if cohortId ∉ reconciliation.unverified ∧ cohortId ∉ supervised then
        let manager ← m.recovering cohortId
        manager.superviseRecovery out now false []) reconciliation.recoveries
    let reconciliation ← m.reconcile out now reconciliation.recoveries
    if m.settings.cohortId ∉ reconciliation.unverified then
      m.superviseOwn out now feedHealthy reconciliation.recoveries

end manager

end TradeAgent.Event
