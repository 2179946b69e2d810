import TradeAgent.EntryBudget
import TradeAgent.Library.Procedure

/-! The scheduled paper session: readiness is observed step by step, kept durably between steps, and
once certified delegates one entry. Each write is one step, and the process may stop before any. -/
namespace TradeAgent.Scheduled

open Event (Fault Books Baseline)

/-! ## Physical progress -/

def recorderSymbols : List String := ["SPY", "QQQ", "IWM", "TLT", "GLD"]

structure MarketRow where
  symbol : String
  count : ℤ
  latestExchangeAt : Instant
  latestReceivedAt : Instant
  latestCommittedAt : Instant
  deriving DecidableEq, Repr

/-- The recorded rows of each table inside a window of exchange time. -/
structure MarketCounts where
  quotes : List MarketRow
  trades : List MarketRow
  bars : List MarketRow
  deriving DecidableEq, Repr

structure Endpoint where
  observedAt : Instant
  sinceExchangeAt : Instant
  untilExchangeAt : Instant
  symbols : List String
  market : MarketCounts
  deriving DecidableEq, Repr

structure Window where
  first : Endpoint
  last : Endpoint
  deriving DecidableEq, Repr

def Window.since (window : Window) : Instant := window.first.sinceExchangeAt
def Window.until_ (window : Window) : Instant := window.last.untilExchangeAt

def Endpoint.wellScoped (endpoint : Endpoint) : Prop :=
  (0 ≤ endpoint.untilExchangeAt - endpoint.sinceExchangeAt ∧
    endpoint.untilExchangeAt - endpoint.sinceExchangeAt ≤ 30 * minute) ∧
    endpoint.symbols.length = recorderSymbols.length ∧
    (∀ symbol ∈ endpoint.symbols, symbol ∈ recorderSymbols) ∧
    ∀ symbol ∈ recorderSymbols, symbol ∈ endpoint.symbols

instance (endpoint : Endpoint) : Decidable endpoint.wellScoped :=
  inferInstanceAs (Decidable (_ ∧ _ ∧ _ ∧ _))

def validRows (since until_ : Instant) (rows : List MarketRow) : Prop :=
  (rows.map (·.symbol)).Nodup ∧ ∀ row ∈ rows, row.symbol ∈ recorderSymbols ∧ 0 < row.count ∧
    (since ≤ row.latestExchangeAt ∧ row.latestExchangeAt ≤ until_) ∧
    row.latestExchangeAt ≤ row.latestReceivedAt ∧ row.latestReceivedAt ≤ row.latestCommittedAt

instance (since until_ : Instant) (rows : List MarketRow) :
    Decidable (validRows since until_ rows) := inferInstanceAs (Decidable (_ ∧ _))

def advances (before after : Option MarketRow) : Bool :=
  match before, after with
  | _, none => false
  | none, some after => 0 < after.count
  | some before, some after =>
    before.count < after.count ∧ before.latestExchangeAt < after.latestExchangeAt

def tableFailures (table : String) (first last : Endpoint) (before after : List MarketRow) :
    List String :=
  if validRows first.sinceExchangeAt first.untilExchangeAt before ∧
      validRows first.sinceExchangeAt last.untilExchangeAt after then
    (recorderSymbols.filter fun symbol =>
      !advances (before.find? (·.symbol = symbol)) (after.find? (·.symbol = symbol))).map
      fun symbol => "physical:" ++ table ++ ":" ++ symbol ++ ":not_advancing"
  else ["physical:" ++ table ++ ":invalid_rows_or_timestamps"]

def physicalProgressFailures (first last : Endpoint) : List String :=
  if first.sinceExchangeAt ≠ last.sinceExchangeAt ∨
      ¬(0 < last.untilExchangeAt - first.untilExchangeAt ∧
        last.untilExchangeAt - first.untilExchangeAt < 25 * minute) ∨
      ¬first.wellScoped ∨ ¬last.wellScoped then
    ["physical:invalid_or_changed_fixed_window"]
  else
    tableFailures "market_quotes" first last first.market.quotes last.market.quotes ++
      tableFailures "market_trades" first last first.market.trades last.market.trades ++
      tableFailures "market_bars" first last first.market.bars last.market.bars

/-- The windows still to check, with what those before covered and where the last of them ended. -/
def covers (now : Instant) : List Window → (covered : ℤ) → (previousEnd : Option Instant) → Bool
  | [], covered, some previousEnd =>
    1800 * second ≤ covered ∧ 0 ≤ now - previousEnd ∧ now - previousEnd ≤ 90 * second
  | [], _, none => false
  | window :: rest, covered, previousEnd =>
    if physicalProgressFailures window.first window.last ≠ [] ∨
        window.until_ - window.first.untilExchangeAt < 600 * second ∨
        (∃ ended ∈ previousEnd, window.since ≠ ended) ∨ now < window.until_ then false
    else covers now rest (covered + (window.until_ - window.since)) (some window.until_)

def physicalCoverageValid (windows : List Window) (now : Instant) : Bool :=
  covers now windows 0 none

/-! ## What is kept of a session -/

structure ObservationIdentity where
  workerOwner : String
  workerCodeSha : String
  workerConfigHash : String
  recorderOwner : Option String
  recorderGapCount : Option ℤ
  streamConnections : Option ℤ
  streamGaps : Option ℤ
  streamDisconnects : Option ℤ
  deriving DecidableEq, Repr

structure Progress where
  startedAt : Option Instant := none
  anchor : Option Endpoint := none
  physicalProofs : List Window := []
  failures : List String := []
  observationIdentity : Option ObservationIdentity := none
  lastAt : Option Instant := none
  entryBlocker : Option String := none
  deriving DecidableEq

/-- The reviewed value of each control, with the time it was set. -/
abbrev ControlVersions := List (String × Option (String × Instant))

structure ScheduledPaperSession where
  sessionId : String
  requestId : String
  operatorCohortId : String
  workerCohortId : String
  workerConfigHash : String
  codeSha : String
  accountDigest : String
  sessionDate : ℤ
  approvedAt : Instant
  notBefore : Instant
  entryDeadline : Instant
  controlVersions : ControlVersions
  deriving DecidableEq

def maximumObservationGap : ℤ := 90 * second
def continuousReadiness : ℤ := 1800 * second
def physicalProgressWindow : ℤ := 600 * second
def maximumPhysicalProgressWindow : ℤ := 1200 * second
def readinessCertificateTtl : ℤ := 90 * second

structure OperatorPaperRequest where
  requestId : String
  cohortId : String
  workerCohortId : String
  accountDigest : String
  sessionDate : ℤ
  scheduledSessionId : String
  approvedAt : Instant
  notBefore : Instant
  entryDeadline : Instant
  issuedAt : Instant
  deriving DecidableEq

def OperatorPaperRequest.inWindow (request : OperatorPaperRequest) (now : Instant) : Prop :=
  (request.issuedAt ≤ now ∧ now < request.entryDeadline) ∧
    now < request.issuedAt + readinessCertificateTtl

instance (request : OperatorPaperRequest) (now : Instant) : Decidable (request.inWindow now) :=
  inferInstanceAs (Decidable (_ ∧ _))

/-- The readiness certificate that a delegation rests on. -/
structure Proof where
  observationIdentity : ObservationIdentity
  physicalProgressWindows : List Window
  continuousSince : Instant
  deriving DecidableEq

inductive Reason where
  | certificateExpiredUnsent
  | readinessChanged
  | readinessUnavailable (fault : Fault)
  | authorityChanged
  | deadlineElapsed (lastReadiness : List String)
  | deadlineDuringCollection
  deriving DecidableEq

structure Schedule where
  terminal : Option Reason := none
  delegation : Option OperatorPaperRequest := none
  certificate : Option Proof := none
  progress : Option Progress := none

/-- An observation that was stored, with the windows recorded by then. -/
structure Observation where
  at_ : Instant
  failures : List String
  identity : ObservationIdentity
  windows : List Window
  deriving DecidableEq

/-- What happened to each session, in order. -/
inductive Entry where
  | observed (sessionId : String) (observation : Observation)
  | errored (sessionId : String) (at_ : Instant)
  | issuing (sessionId : String) (at_ : Instant) (windows : List Window)
  | reserved (sessionId : String)
  | delegated (sessionId : String)
  | missed (sessionId : String) (reason : Reason)
  deriving DecidableEq

def Entry.sessionId : Entry → String
  | .observed sessionId _ | .errored sessionId _ | .issuing sessionId _ _ | .reserved sessionId
  | .delegated sessionId | .missed sessionId _ => sessionId

/-- The database, what happened so far, and how many more writes the process lives. -/
structure Desk where
  books : Books
  schedules : Dict String Schedule
  revoked : List String
  operatorActive : Option OperatorPaperRequest
  operatorRequests : Dict String OperatorPaperRequest
  operatorTerminals : Dict String String
  operatorScopes : Dict String OperatorPaperRequest
  log : List Entry
  life : ℕ

def Desk.empty : Desk := ⟨.empty, .empty, [], none, .empty, .empty, .empty, [], 0⟩

def Desk.schedule (desk : Desk) (sessionId : String) : Schedule := desk.schedules.getD sessionId {}

def Desk.setSchedule (desk : Desk) (sessionId : String) (schedule : Schedule)
    (entries : List Entry) : Desk :=
  { desk with
    schedules := desk.schedules.set sessionId schedule
    log := desk.log ++ entries }

/-! ## Outside -/

structure Worker where
  scheduledOperator : Bool
  experimentalPaper : Bool
  instanceId : String
  codeSha : String
  configHash : String
  cohortId : String
  newsAccountDigest : Option String
  practiceStartDate : Option ℤ
  deriving DecidableEq, Repr

/-- What one collection found. -/
structure Reading where
  observedAt : Instant
  baseline : Option (Baseline × Instant)
  checks : List (String × Bool)
  market : MarketCounts
  recorderOwner : Option String
  recorderGapCount : Option ℤ
  streamConnections : Option ℤ
  streamGaps : Option ℤ
  streamDisconnects : Option ℤ

/-- Everything a step asks for outside its records. An answer may change from one write to the
next, and any of those that may raise can raise anything. -/
structure Outside where
  loadSession : Desk → Except Fault (Option ScheduledPaperSession)
  controlVersions : Desk → ControlVersions
  opening : ℤ → Instant
  clock : Desk → Instant
  collect : Desk → Except Fault Reading
  windowCounts : Desk → Except Fault (Instant × MarketCounts)
  accountHistory : Desk → Except Fault Baseline
  audit : Desk → Except Fault Unit
  leaseAndControlsKept : Desk → Bool
  authorityKept : Desk → Bool
  delegationValid : Desk → OperatorPaperRequest → Bool
  entryObservationValid : Desk → Instant → Bool
  faultText : Fault → String

/-- The faults a step answers for; any other ends it. -/
def handled : Fault → Bool
  | .value _ | .type | .key _ | .http _ => true
  | _ => false

inductive Status where
  | inactive | invalidSchedule | notAuthorized | preopen | awaitingCollection | warmingUp | delegated
  | operatorFinished
  | blocked (fault : Fault)
  | missed (reason : Reason)
  deriving DecidableEq

abbrev Pass := Procedure Desk Fault

def tick : Pass Unit := Procedure.attempt fun desk =>
  match desk.life with
  | 0 => .error .crash
  | life + 1 => .ok ((), { desk with life })

def ask {α : Type} (call : Desk → Except Fault α) : Pass α := do
  tick
  Procedure.attempt fun desk => (call desk).map fun answer => (answer, desk)

def write (change : Desk → Desk) : Pass Unit := do
  tick
  Procedure.attempt fun desk => .ok ((), change desk)

def importBaseline (report : Baseline) (now : Instant) : Pass Unit := do
  tick
  Procedure.attempt fun desk =>
    (desk.books.saveBaseline report now).map fun books => ((), { desk with books })

/-! ## Collection -/

structure Sample where
  reading : Reading
  endpoint : Option Endpoint
  identity : ObservationIdentity

def Sample.observedAt (sample : Sample) : Instant := sample.reading.observedAt

def Sample.failures (sample : Sample) : List String :=
  (sample.reading.checks.filter fun check => !check.2).map (·.1)

section step

variable (worker : Worker) (out : Outside) (session : ScheduledPaperSession)

def collectReadiness (since : Instant) (includePhysical : Bool) : Pass Sample := do
  let beganAt ← Procedure.view out.clock
  if includePhysical ∧ ¬(0 ≤ beganAt - since ∧ beganAt - since ≤ 25 * minute) then
    Procedure.raise (.value "physical progress queries require a bounded current window")
  let reading ← ask out.collect
  if let some (report, at_) := reading.baseline then importBaseline report at_
  return {
    reading
    endpoint := if includePhysical then
        some ⟨reading.observedAt, since, reading.observedAt, recorderSymbols, reading.market⟩
      else none
    identity := ⟨worker.instanceId, worker.codeSha, worker.configHash, reading.recorderOwner,
      reading.recorderGapCount, reading.streamConnections, reading.streamGaps,
      reading.streamDisconnects⟩ }

def physicalAnchor (since : Instant) : Pass Endpoint := do
  let (observedAt, market) ← ask out.windowCounts
  return ⟨observedAt, since, observedAt, recorderSymbols, market⟩

/-! ## Issuance and the end of a session -/

def ScheduledPaperSession.request (issuedAt : Instant) : OperatorPaperRequest where
  requestId := session.requestId
  cohortId := session.operatorCohortId
  workerCohortId := session.workerCohortId
  accountDigest := session.accountDigest
  sessionDate := session.sessionDate
  scheduledSessionId := session.sessionId
  approvedAt := session.approvedAt
  notBefore := session.notBefore
  entryDeadline := session.entryDeadline
  issuedAt := issuedAt

/-- The transaction of `_issue`: a delegation already made is returned as it stands. -/
def Desk.delegate (desk : Desk) (proof : Proof) (now : Instant) :
    Except Fault (OperatorPaperRequest × Desk) := do
  let schedule := desk.schedule session.sessionId
  if ¬out.leaseAndControlsKept desk then
    throw (.value "lease or reviewed controls changed during issuance")
  if ¬out.authorityKept desk then throw (.value "immutable scheduled authority changed")
  if schedule.terminal ≠ none ∨ session.sessionId ∈ desk.revoked then
    throw (.value "schedule terminal or revoked")
  match schedule.delegation with
  | some prior => return (prior, desk)
  | none => do
    if desk.operatorActive ≠ none ∨ desk.operatorRequests.get? session.workerCohortId ≠ none ∨
        desk.operatorTerminals.get? session.operatorCohortId ≠ none ∨
        desk.operatorScopes.get? session.operatorCohortId ≠ none then
      throw (.value "another operator request or terminal already exists")
    let books ← desk.books.reserveScheduled ⟨session.accountDigest, session.sessionDate⟩
      session.requestId
    let request := session.request now
    let next := { desk with
      books
      operatorActive := some request
      operatorRequests := desk.operatorRequests.set session.workerCohortId request
      operatorScopes := desk.operatorScopes.set session.operatorCohortId request }
    return (request, next.setSchedule session.sessionId
      { schedule with delegation := some request, certificate := some proof }
      [.reserved session.sessionId, .delegated session.sessionId])

def issue (proof : Proof) : Pass OperatorPaperRequest := do
  let history ← ask out.accountHistory
  let now ← Procedure.view out.clock
  if ¬physicalCoverageValid proof.physicalProgressWindows now then
    Procedure.raise (.value "complete current aggregate physical readiness proof required")
  if ¬(session.notBefore ≤ now ∧ now < session.entryDeadline) then
    Procedure.raise (.value "entry deadline reached during readiness/history collection")
  importBaseline history now
  tick
  Procedure.attempt fun desk => desk.delegate out session proof now

/-- The first reason a session was missed for stands. -/
def terminate (reason : Reason) : Pass Status := do
  let schedule ← Procedure.view fun desk => desk.schedule session.sessionId
  if schedule.terminal = none then
    write fun desk => desk.setSchedule session.sessionId
      { desk.schedule session.sessionId with terminal := some reason }
      [.missed session.sessionId reason]
    ask out.audit
  return .missed reason

/-! ## One observation -/

/-- What a new observation continues: nothing across a gap or under another identity. -/
def Progress.carried (progress : Progress) (now : Instant) (identity : ObservationIdentity) :
    Progress :=
  let kept := match progress.lastAt with
    | some lastAt => if 0 ≤ now - lastAt ∧ now - lastAt ≤ maximumObservationGap then progress else {}
    | none => progress
  if kept.observationIdentity = some identity then kept else {}

/-- The last window is closed anew while it starts at the anchor. -/
def recordWindow (windows : List Window) (window : Window) : List Window :=
  match windows.getLast? with
  | some last =>
    if last.since = window.since then windows.dropLast ++ [window] else windows ++ [window]
  | none => [window]

/-- The failures of the anchor's window, the windows with it, and the anchor after it. -/
def closeWindow (windows : List Window) (anchor : Endpoint) (endpoint : Option Endpoint)
    (now : Instant) : Pass (List String × List Window × Option Endpoint) := do
  let some endpoint := endpoint
    | return (["physical:missing_or_invalid_window_metadata"], windows, some anchor)
  let failures := physicalProgressFailures anchor endpoint
  if failures ≠ [] then return (failures, windows, some anchor)
  let windows := recordWindow windows ⟨anchor, endpoint⟩
  if ¬physicalCoverageValid windows now ∨
      maximumPhysicalProgressWindow ≤ now - anchor.sinceExchangeAt then
    let anchor ← physicalAnchor out now
    return ([], windows, some anchor)
  return ([], windows, some anchor)

/-- A window that is due is closed only while every check passes. -/
def examine (carried : Progress) (physicalDue : Bool) (sample : Sample) :
    Pass (List String × List Window × Option Endpoint) :=
  match sample.failures, carried.anchor, physicalDue with
  | [], some anchor, true =>
    closeWindow out carried.physicalProofs anchor sample.endpoint sample.observedAt
  | failures, anchor, _ => Pure.pure (failures, carried.physicalProofs, anchor)

def keepAnchor (now : Instant) : Option Endpoint → Pass Endpoint
  | some anchor => Pure.pure anchor
  | none => physicalAnchor out now

/-- The progress after an observation. -/
def observe (progress : Progress) (physicalDue : Bool) (sample : Sample) : Pass Progress := do
  let now := sample.observedAt
  let carried := progress.carried now sample.identity
  let (failures, windows, anchor) ← examine out carried physicalDue sample
  if failures ≠ [] then
    return { failures, observationIdentity := some sample.identity, lastAt := some now }
  let anchor ← keepAnchor out now anchor
  return {
    startedAt := some (carried.startedAt.getD now)
    anchor := some anchor
    physicalProofs := windows
    failures := []
    observationIdentity := some sample.identity
    lastAt := some now
    entryBlocker := carried.entryBlocker }

def storeProgress (progress : Progress) (entries : List Entry) : Pass Unit :=
  write fun desk => desk.setSchedule session.sessionId
    { desk.schedule session.sessionId with progress := some progress } entries

/-- Stores the observation, and issues where it completes the proof. -/
def certify (progress : Progress) (physicalDue : Bool) (sample : Sample) : Pass Status := do
  let now := sample.observedAt
  if session.entryDeadline ≤ now then return ← terminate out session .deadlineDuringCollection
  let progress ← observe out progress physicalDue sample
  storeProgress session progress
    [.observed session.sessionId ⟨now, progress.failures, sample.identity, progress.physicalProofs⟩]
  ask out.audit
  let some startedAt := progress.startedAt | return .warmingUp
  if ¬(continuousReadiness ≤ now - startedAt ∧ session.notBefore ≤ now ∧
      physicalCoverageValid progress.physicalProofs now) then return .warmingUp
  let valid ← Procedure.view fun desk => out.entryObservationValid desk now
  if ¬valid then
    storeProgress session { progress with
      entryBlocker := some "completed_regular_observation_or_receipt_latency" } []
    return .warmingUp
  Procedure.attempt fun desk => .ok ((), { desk with
    log := desk.log ++ [.issuing session.sessionId now progress.physicalProofs] })
  let _ ← issue out session ⟨sample.identity, progress.physicalProofs, startedAt⟩
  return .delegated

/-- What a fault leaves of the progress. -/
def blockedBy (now : Instant) : Except Fault Status → Pass Status
  | .ok status => Pure.pure status
  | .error fault => do
    if ¬handled fault then Procedure.raise fault
    storeProgress session { lastAt := some now, failures := [out.faultText fault] }
      [.errored session.sessionId now]
    return .blocked fault

/-- A physical window is due once the anchor is old enough, and then refreshed. -/
def physicalDue (progress : Progress) (now : Instant) : Bool :=
  match progress.anchor with
  | none => false
  | some anchor =>
    let last := progress.physicalProofs.getLast?
    let sameWindow := last.any fun window => window.since = anchor.sinceExchangeAt
    let endpointOlder (age : ℤ) := last.all fun window => age ≤ now - window.until_
    (physicalProgressWindow ≤ now - anchor.untilExchangeAt : Bool) &&
      (!sameWindow || endpointOlder (600 * second) ||
        ((session.notBefore ≤ now : Bool) && endpointOlder (60 * second)))

/-- Progress older than the gap is not continued. -/
def resume (now : Instant) : Option Progress → Except Fault Progress
  | none => .ok {}
  | some progress => match progress.lastAt with
    | none => .error (.key "last_at")
    | some lastAt =>
      if 0 ≤ now - lastAt ∧ now - lastAt ≤ maximumObservationGap then .ok progress else .ok {}

def readinessStep (now : Instant) : Pass Status := do
  let stored ← Procedure.view fun desk => (desk.schedule session.sessionId).progress
  let progress ← Procedure.lift (resume now stored)
  let due := physicalDue session progress now
  let since := (progress.anchor.map (·.sinceExchangeAt)).getD now
  match ← Procedure.caught (collectReadiness worker out since due) with
  | .error fault => blockedBy out session now (.error fault)
  | .ok sample => do
    let outcome ← Procedure.caught (certify out session progress due sample)
    blockedBy out session sample.observedAt outcome

/-! ## One step -/

/-- The delegated entry stands only while the readiness it was issued on does. -/
def recheck (request : OperatorPaperRequest) (now : Instant) : Pass Status := do
  let current ← collectReadiness worker out (now - minute) false
  let certificate ← Procedure.view fun desk => (desk.schedule session.sessionId).certificate
  let valid ← Procedure.view fun desk => out.delegationValid desk request
  if current.failures ≠ [] ∨ ¬valid ∨
      ¬physicalCoverageValid ((certificate.map (·.physicalProgressWindows)).getD [])
        current.observedAt ∨
      certificate.map (·.observationIdentity) ≠ some current.identity then
    return ← terminate out session .readinessChanged
  return .delegated

def delegatedStep (request : OperatorPaperRequest) (now : Instant) (collect : Bool) :
    Pass Status := do
  let finished ← Procedure.view fun desk => desk.operatorTerminals.get? request.cohortId
  if finished ≠ none then return .operatorFinished
  let untouched ← Procedure.view fun desk =>
    (desk.books.store.linkedOrders request.cohortId).isEmpty
  if ¬(collect ∧ untouched) then return .delegated
  if ¬request.inWindow now then return ← terminate out session .certificateExpiredUnsent
  match ← Procedure.caught (recheck worker out session request now) with
  | .ok status => return status
  | .error fault =>
    if handled fault then return ← terminate out session (.readinessUnavailable fault)
    else Procedure.raise fault

def changed (desk : Desk) : Prop :=
  session.codeSha ≠ worker.codeSha ∨ session.workerConfigHash ≠ worker.configHash ∨
    session.workerCohortId ≠ worker.cohortId ∨
    worker.newsAccountDigest ≠ some session.accountDigest ∨
    worker.practiceStartDate ≠ some session.sessionDate ∨ ¬worker.experimentalPaper ∨
    out.controlVersions desk ≠ session.controlVersions ∨ session.sessionId ∈ desk.revoked ∨
    desk.operatorTerminals.get? session.operatorCohortId ≠ none

instance (desk : Desk) : Decidable (changed worker out session desk) :=
  inferInstanceAs (Decidable (_ ∨ _))

def sessionStep (now : Instant) (collect : Bool) : Pass Status := do
  let schedule ← Procedure.view fun desk => desk.schedule session.sessionId
  match schedule.terminal, schedule.delegation with
  | some reason, _ => return .missed reason
  | none, some request => delegatedStep worker out session request now collect
  | none, none => do
    let changed ← Procedure.view fun desk => decide (changed worker out session desk)
    if changed then return ← terminate out session .authorityChanged
    if session.entryDeadline ≤ now then
      let prior := schedule.progress.getD {}
      return ← terminate out session
        (.deadlineElapsed (prior.failures ++ prior.entryBlocker.toList))
    if now < out.opening session.sessionDate then return .preopen
    if ¬collect then return .awaitingCollection
    readinessStep worker out session now

def step (now : Instant) (collect : Bool) : Pass Status := do
  if ¬worker.scheduledOperator then return .inactive
  match ← Procedure.caught (ask out.loadSession) with
  | .error fault => if handled fault then return .invalidSchedule else Procedure.raise fault
  | .ok none => return .notAuthorized
  | .ok (some session) => sessionStep worker out session now collect

end step

end TradeAgent.Scheduled
