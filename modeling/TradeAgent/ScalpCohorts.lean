import Mathlib.Data.List.MinMax
import TradeAgent.ScalpEngine
import TradeAgent.ScalpExperiment

/-! The cohorts of bounded paper experiments over one engine: how each counts its stored cycles, what
it checks on a visit, and how an accepted quote becomes a cycle whose entry is then placed. The
account may also trade a strategy of its own. A restart loses what the cohorts only remember. -/
namespace TradeAgent.Scalp.Experiment

inductive Classification where
  | executionAcceptanceTest | experimentalSignalScalp | executionValidationProbe
  deriving DecidableEq, Repr

/-- The head of the client ids of a classification's orders. -/
def Classification.clientPrefix : Classification → String
  | .executionAcceptanceTest => "ta30x-"
  | .experimentalSignalScalp => "ta30e-"
  | .executionValidationProbe => "ta30p-"

structure Cohort where
  classification : Classification
  cohortId : String
  deriving DecidableEq, Repr

/-- The policy of a cohort: how its entries are sized, and what it may do in a day. The loss limit and
the thresholds belong to the experimental scalps. -/
structure CohortPolicy extends Policy where
  identity : String
  decisionPrefix : String
  dailySubmittedCap : ℕ
  dailyFilledCycleCap : ℕ
  entryTtlSeconds : ℤ
  dailyLossLimitUsd : ℚ := 5
  momentumScoreThreshold : ℚ := 1 / 4
  reversionScoreThreshold : ℚ := 13 / 20

/-- What stays fixed over a run; the digests are any functions of their texts. -/
structure Setup where
  fees : Fees
  policy : Cohort → CohortPolicy
  uuid5 : String → String
  sha256 : String → String

def firstChars (n : ℕ) (text : String) : String := String.ofList (text.toList.take n)

def scheduleSlot (policy : Policy) (now : Instant) : ℤ := now.tdiv second / policy.scheduleIntervalSeconds

/-- The identity of a decision, stable over retries and restarts. -/
def decisionId (policy : CohortPolicy) (now : Instant) (symbol : String) : String :=
  policy.decisionPrefix ++ ":" ++ firstChars 16 policy.identity ++ ":" ++
    toString (scheduleSlot policy.toPolicy now) ++ ":" ++ symbol

def Setup.cycleId (setup : Setup) (c : Cohort) (now : Instant) (symbol : String) : String :=
  setup.uuid5 (c.cohortId ++ ":" ++ decisionId (setup.policy c) now symbol)

/-- The client id of a cycle's entry after `sequence` earlier ones. -/
def Setup.entryId (setup : Setup) (c : Cohort) (cycleId : String) (sequence : ℕ) : String :=
  c.classification.clientPrefix ++
    firstChars 40 (setup.sha256 (cycleId ++ ":buy:" ++ toString sequence))

/-- The cohort's call that is under way. -/
structure Submission where
  cohort : Cohort
  cycleId : String
  now : Instant
  deriving DecidableEq

/-- An engine with its cohorts. The labels of the stored cycles are stored with them; the slots and
the evaluation times are in memory. -/
structure Runtime where
  engine : Engine
  labels : Dict String Cohort
  lastSlot : Cohort → Option ℤ
  lastScheduleEvaluationAt : Cohort → Option Instant
  submission : Option Submission

/-- What a step is called with, and what it reads besides the rows of the model. -/
structure Visit where
  now : Instant
  ownerId : String
  quotes : Dict String ScalpQuote
  asset : String → Option PaperCryptoAsset
  modeledNetPnl : String → Option ℚ
  knownElsewhere : String → Bool

inductive SubmitError where
  | assetUnavailable
  | experiment (error : ExperimentError)
  deriving DecidableEq, Repr

namespace Runtime

def initial (lease : Option Lease) : Runtime where
  engine := .initial lease
  labels := .empty
  lastSlot _ := none
  lastScheduleEvaluationAt _ := none
  submission := none

section Counts

variable (s : Runtime)

def tally (test : OwnedCycle → Bool) : ℕ := s.engine.cycles.values.countP test

def belongs (c : Cohort) (cycle : OwnedCycle) : Bool := decide (s.labels.get? cycle.cycleId = some c)

def classified (classification : Classification) (cycle : OwnedCycle) : Bool :=
  (s.labels.get? cycle.cycleId).any fun c => decide (c.classification = classification)

/-- Midnight of the day of an instant. -/
def dayStart (now : Instant) : Instant := date now * day

def active : Bool := s.engine.cycles.values.any fun cycle => !cycle.state.closed

structure Counts where
  submitted : ℕ
  filled : ℕ
  completed : ℕ

/-- A cohort's cycles since the day began, those of them with an entry, and its completed ones. -/
def counts (c : Cohort) (now : Instant) : Counts where
  submitted := s.tally fun cycle => s.belongs c cycle && decide (dayStart now ≤ cycle.createdAt)
  filled := s.tally fun cycle => s.belongs c cycle && decide (dayStart now ≤ cycle.createdAt) &&
    decide (0 < cycle.columns.entryQuantity)
  completed := s.tally fun cycle => s.belongs c cycle && decide (cycle.state = .closedOwnedFlat)

structure ProbeCounts where
  submitted : ℕ
  filled : ℕ
  outstanding : ℕ
  lastSubmittedAt : Option Instant
  submittedBySymbol : String → ℕ

/-- The probes count only what was created before their cutoff, their outstanding cycles apart. -/
def probeCounts (policy : CohortPolicy) (c : Cohort) (now : Instant) : ProbeCounts :=
  let before cycle := s.belongs c cycle && decide (cycle.createdAt < policy.authorizationCutoff)
  let today cycle := before cycle && decide (dayStart now ≤ cycle.createdAt)
  { submitted := s.tally today
    filled := s.tally fun cycle => today cycle && decide (0 < cycle.columns.entryQuantity)
    outstanding := s.tally fun cycle => s.belongs c cycle && !cycle.state.closed
    lastSubmittedAt := ((s.engine.cycles.values.filter before).map OwnedCycle.createdAt).max?
    submittedBySymbol := fun symbol => s.tally fun cycle => today cycle && decide (cycle.symbol = symbol) }

/-- What the day's completed cycles of a classification made, over all its cohorts. -/
def dailyNetPnl (classification : Classification) (v : Visit) : ℚ :=
  ((s.engine.cycles.values.filter fun cycle => s.classified classification cycle &&
    decide (dayStart v.now ≤ cycle.createdAt) && decide (cycle.state = .closedOwnedFlat)).filterMap
      fun cycle => v.modeledNetPnl cycle.cycleId).sum

def acceptanceComplete : Bool :=
  s.engine.cycles.values.any fun cycle => s.classified .executionAcceptanceTest cycle &&
    decide (cycle.state = .closedOwnedFlat) && decide (cycle.columns.ownedQuantity = 0)

end Counts

section Submit

variable (setup : Setup) (s : Runtime)

/-- What the reserving transaction finds. -/
def account (c : Cohort) (v : Visit) (symbol : String) : Account where
  leased := s.engine.store.leased v.ownerId v.now
  activeCycle := s.active
  knownCycle := (s.engine.cycles.get? (setup.cycleId c v.now symbol)).isSome ||
    v.knownElsewhere (setup.cycleId c v.now symbol)

/-- The checks of a quote that come before its asset is read. -/
def accepts (policy : Policy) (quote : ScalpQuote) (now : Instant) : Bool :=
  decide (now < policy.authorizationCutoff) && decide (quote.symbol ∈ policy.symbols) &&
    quoteValid quote now policy.maxQuoteAge

/-- The first order of a new cycle. Its symbol is the quote's: a policy's symbols are canonical. -/
def entry (c : Cohort) (v : Visit) (symbol : String) (order : Sized) (positive : 0 < order.quantity) :
    Reservation where
  intent :=
    let cycleId := setup.cycleId c v.now symbol
    let sequence := (cycleOrders s.engine.store cycleId).countP fun row => decide (row.intent.side = .buy)
    ⟨setup.entryId c cycleId sequence, cycleId, symbol.toList, .buy, order.quantity⟩
  expiresAt := some (v.now + (setup.policy c).entryTtlSeconds * second)
  positive := positive

/-- The cycle is stored, then its order is reserved; a crash may come between. -/
def enter (c : Cohort) (v : Visit) (symbol : String) (r : Reservation) : Runtime :=
  let cycleId := setup.cycleId c v.now symbol
  { s with
    engine := (s.engine.step (.openCycle cycleId symbol v.now)).step (.enter r)
    labels := s.labels.set cycleId c
    submission := some ⟨c, cycleId, v.now⟩ }

/-- A submission: nothing, a new cycle whose entry comes next, or a raise. -/
def submit (c : Cohort) (v : Visit) (quote : ScalpQuote) : Except SubmitError (Option Runtime) :=
  let policy := (setup.policy c).toPolicy
  match v.asset quote.symbol with
  | none => if accepts policy quote v.now then .error .assetUnavailable else .ok none
  | some asset =>
    match sized : submitPaperExperiment setup.fees policy quote asset
        (s.account setup c v quote.symbol) v.now with
    | .error error => .error (.experiment error)
    | .ok none => .ok none
    | .ok (some order) =>
      .ok (some (s.enter setup c v quote.symbol (s.entry setup c v quote.symbol order (submit_positive sized))))

/-- A submission as its caller sees it, where it is the last thing the caller does. -/
def submitted (c : Cohort) (v : Visit) (quote : ScalpQuote) : Runtime :=
  match s.submit setup c v quote with
  | .ok (some next) => next
  | _ => s

end Submit

section Steps

variable (setup : Setup) (s : Runtime)

/-- The checks of a candidate, by their names in the audit. -/
inductive Check where
  | authorizationCutoff | completedRoundTrip | dailySubmissionCap | freshQuote
  | executionAcceptanceComplete | dailyFilledCycleCap | dailyLossLimit | signalFamily | signalScore
  deriving DecidableEq, Repr

def passed (checks : List (Check × Bool)) : Bool := checks.all Prod.snd

def acceptanceChecks (policy : CohortPolicy) (counts : Counts) (quote : Option ScalpQuote)
    (now : Instant) : List (Check × Bool) :=
  [ (.authorizationCutoff, decide (now < policy.authorizationCutoff)),
    (.completedRoundTrip, decide (counts.completed = 0)),
    (.dailySubmissionCap, decide (counts.submitted < policy.dailySubmittedCap)),
    (.freshQuote, quote.any fun quote => quoteValid quote now policy.maxQuoteAge) ]

def visitedAt (c : Cohort) (slot : ℤ) : Runtime :=
  { s with lastSlot := Function.update s.lastSlot c (some slot) }

/-- One step of an acceptance cohort: once a slot, and never again after a completed round trip. -/
def acceptanceStep (cohortId : String) (v : Visit) : Runtime :=
  let c : Cohort := ⟨.executionAcceptanceTest, cohortId⟩
  let policy := setup.policy c
  let slot := scheduleSlot policy.toPolicy v.now
  let counts := s.counts c v.now
  if s.lastSlot c = some slot then s
  else
    let s := s.visitedAt c slot
    if counts.completed ≠ 0 then s
    else if policy.authorizationCutoff ≤ v.now then s
    else
      match policy.symbols.head?.bind v.quotes.get? with
      | none => s
      | some quote =>
        if passed (acceptanceChecks policy counts (some quote) v.now) then s.submitted setup c v quote else s

inductive Family where
  | momentum | reversion | none
  deriving DecidableEq, Repr

/-- A signal as the experimental scalps read it. -/
structure Candidate where
  symbol : String
  family : Family
  score : ℚ
  quoteSymbol : String

/-- The first of the best signals of the families. -/
def candidate (policy : Policy) (signals : List Candidate) : Option Candidate :=
  (signals.filter fun signal => decide (signal.symbol ∈ policy.symbols) &&
    decide (signal.family ≠ .none) && decide (signal.quoteSymbol = signal.symbol)).argmax Candidate.score

def scoreThreshold (policy : CohortPolicy) (signal : Candidate) : ℚ :=
  match signal.family with
  | .momentum => policy.momentumScoreThreshold
  | _ => policy.reversionScoreThreshold

def quoteAge (quote : ScalpQuote) (now : Instant) : Instant :=
  max (now - quote.exchangeAt) (now - quote.receivedAt)

def experimentalChecks (policy : CohortPolicy) (counts : Counts) (complete : Bool) (dailyNet : ℚ)
    (signal : Option Candidate) (quote : Option ScalpQuote) (now : Instant) : List (Check × Bool) :=
  [ (.executionAcceptanceComplete, complete),
    (.authorizationCutoff, decide (now < policy.authorizationCutoff)),
    (.dailySubmissionCap, decide (counts.submitted < policy.dailySubmittedCap)),
    (.dailyFilledCycleCap, decide (counts.filled < policy.dailyFilledCycleCap)),
    (.dailyLossLimit, decide (-policy.dailyLossLimitUsd < dailyNet)),
    (.signalFamily, signal.isSome),
    (.signalScore, signal.any fun signal => decide (scoreThreshold policy signal ≤ signal.score)),
    (.freshQuote, quote.any fun quote =>
      decide (0 ≤ quoteAge quote now) && decide (quoteAge quote now ≤ policy.maxQuoteAge)) ]

/-- One step of the experimental scalps: once a slot, for the best signal of the families. -/
def experimentalStep (cohortId : String) (signals : List Candidate) (v : Visit) : Runtime :=
  let c : Cohort := ⟨.experimentalSignalScalp, cohortId⟩
  let policy := setup.policy c
  let slot := scheduleSlot policy.toPolicy v.now
  let counts := s.counts c v.now
  let dailyNet := s.dailyNetPnl c.classification v
  if s.lastSlot c = some slot then s
  else
    let s := s.visitedAt c slot
    let signal := candidate policy.toPolicy signals
    let quote := signal.bind fun signal => v.quotes.get? signal.symbol
    match quote with
    | none => s
    | some quote =>
      if passed (experimentalChecks policy counts s.acceptanceComplete dailyNet signal (some quote) v.now) then
        s.submitted setup c v quote
      else s

/-- A probe is due when its interval has passed since the last one, or since the last evaluation. -/
def scheduleDue (policy : CohortPolicy) (counts : ProbeCounts) (lastEvaluation : Option Instant)
    (now : Instant) : Bool :=
  ((counts.lastSubmittedAt).or lastEvaluation).all fun reference =>
    decide (policy.scheduleIntervalSeconds * second ≤ now - reference)

def probeEligible (policy : CohortPolicy) (counts : ProbeCounts) (due : Bool) (now : Instant) : Bool :=
  due && decide (now < policy.authorizationCutoff) &&
    decide (counts.submitted < policy.dailySubmittedCap) &&
    decide (counts.filled < policy.dailyFilledCycleCap) && decide (counts.outstanding = 0) &&
    counts.lastSubmittedAt.all fun last =>
      decide (policy.scheduleIntervalSeconds * second ≤ now - last)

/-- The quoted symbols, those with the fewest probes of the day first. -/
def probeSymbols (policy : CohortPolicy) (counts : ProbeCounts) (quotes : Dict String ScalpQuote) :
    List String :=
  (policy.symbols.filter fun symbol => (quotes.get? symbol).isSome).insertionSort fun a b =>
    counts.submittedBySymbol a < counts.submittedBySymbol b ∨
      counts.submittedBySymbol a = counts.submittedBySymbol b ∧ policy.symbols.idxOf a ≤ policy.symbols.idxOf b

/-- The first symbol whose submission is taken; a raise ends the step. -/
def tryProbes (c : Cohort) (v : Visit) : List String → Runtime
  | [] => s
  | symbol :: rest =>
    match v.quotes.get? symbol with
    | none => tryProbes c v rest
    | some quote =>
      match s.submit setup c v quote with
      | .ok (some next) => next
      | .ok none => tryProbes c v rest
      | .error _ => s

/-- The second half of a probe step, over what its reconciliation left. -/
def probeAfter (c : Cohort) (due : Bool) (v : Visit) : Runtime :=
  let policy := setup.policy c
  let s := if due then
      { s with lastScheduleEvaluationAt := Function.update s.lastScheduleEvaluationAt c (some v.now) }
    else s
  let counts := s.probeCounts policy c v.now
  if probeEligible policy counts due v.now then
    s.tryProbes setup c v (probeSymbols policy counts v.quotes)
  else s

/-- A call that is over leaves no submission under way. -/
def settled : Runtime :=
  match s.engine.job with
  | .idle => { s with submission := none }
  | _ => s

/-- The engine's own moves: a strategy's entry goes to a cycle that is not closed, and an entry of a
cohort is reserved at the time of its step. -/
def admitted : Move → Option Move
  | .enter r =>
    if (s.engine.cycles.get? r.intent.cycleId).any fun cycle => !cycle.state.closed then some (.enter r)
    else none
  | .act ownerId outside taken =>
    let now := match s.engine.job, s.submission with
      | .task (.reserving _), some submission => submission.now
      | _, _ => outside.now
    some (.act ownerId { outside with now := now } taken)
  | m => some m

def move (m : Move) : Runtime :=
  match s.admitted m with
  | some m => settled { s with engine := s.engine.step m }
  | none => s

def moves (ms : List Move) : Runtime := ms.foldl move s

/-- What a reconciliation consists of, with what happens meanwhile. -/
def reconciles : Move → Bool
  | .reconcile _ _ | .act _ _ _ | .deliver _ | .refresh _ _ _ _ | .report _ | .lease _ => true
  | _ => false

/-- One step of a probe cohort. It reconciles when a probe is due or outstanding, which may raise, and
counts again before it decides. -/
def probeStep (cohortId : String) (v : Visit) (reconciliation : List Move) (raises : Bool) : Runtime :=
  let c : Cohort := ⟨.executionValidationProbe, cohortId⟩
  let policy := setup.policy c
  let counts := s.probeCounts policy c v.now
  let due := scheduleDue policy counts (s.lastScheduleEvaluationAt c) v.now
  if !due && counts.outstanding = 0 then s
  else
    let s := s.moves (reconciliation.filter reconciles)
    if raises then s.move .crash
    else
      match s.engine.job with
      | .idle => s.probeAfter setup c due v
      | _ => s

end Steps

/-- All that happens to a runtime. A cohort's step begins with the thread idle. -/
inductive Action where
  | engine (move : Move)
  | acceptance (cohortId : String) (v : Visit)
  | experimental (cohortId : String) (signals : List Candidate) (v : Visit)
  | probe (cohortId : String) (v : Visit) (reconciliation : List Move) (raises : Bool)
  | restart

/-- A new process over the same rows. -/
def restarted (s : Runtime) : Runtime :=
  { s with
    engine := s.engine.step .crash
    lastSlot := fun _ => none, lastScheduleEvaluationAt := fun _ => none, submission := none }

def step (setup : Setup) (s : Runtime) (action : Action) : Runtime :=
  match action, s.engine.job with
  | .engine m, _ => s.move m
  | .restart, _ => s.restarted
  | .acceptance cohortId v, .idle => s.acceptanceStep setup cohortId v
  | .experimental cohortId signals v, .idle => s.experimentalStep setup cohortId signals v
  | .probe cohortId v reconciliation raises, .idle => s.probeStep setup cohortId v reconciliation raises
  | _, _ => s

def run (setup : Setup) (s : Runtime) (actions : List Action) : Runtime := actions.foldl (step setup) s

end Runtime

end TradeAgent.Scalp.Experiment
