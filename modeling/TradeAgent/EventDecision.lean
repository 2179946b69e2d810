import TradeAgent.EventResearch
import TradeAgent.Library.Dict

/-! Whether an event may be traded: a list of reasons against it, over the evidence there is by now, the
quote, the market and the issuer. An event without a reason against it is eligible. -/
namespace TradeAgent.Research

section inputs

inductive SecurityType where
  | commonStock | unsupported
  deriving DecidableEq, Repr

structure IssuerEligibility where
  symbol : String
  issuerId : String
  cik : String
  availableAt : Instant
  validFrom : Instant
  validUntil : Option Instant := none
  securityType : SecurityType := .unsupported
  exchangeListed : Option Bool := none
  tradable : Option Bool := none
  fractionable : Option Bool := none
  medianDailyDollarVolume : Option ℚ := none
  liquidityAvailableAt : Option Instant := none
  liquidityCompletedSessions : Option ℕ := none

inductive QuoteFeed where
  | sip | iex | unknown
  deriving DecidableEq, Repr

inductive SizeUnit where
  | shares | roundLots | unknown
  deriving DecidableEq, Repr

structure EventQuote where
  symbol : String
  bid : ℚ
  ask : ℚ
  bidSize : Option ℚ := none
  askSize : Option ℚ := none
  timestamp : Instant
  receivedAt : Instant
  feed : QuoteFeed
  sizeUnit : SizeUnit := .unknown
  bidPositive : 0 < bid
  askPositive : 0 < ask

def EventQuote.mid (quote : EventQuote) : ℚ := (quote.bid + quote.ask) / 2

inductive Mode where
  | offlineReplay | shadow | experimentalPaper
  deriving DecidableEq, Repr

structure MarketContext where
  symbol : Option String := none
  mode : Mode := .shadow
  sessionOpen : Option Instant := none
  sessionClose : Option Instant := none
  observationStart : Option Instant := none
  observationEnd : Option Instant := none
  observationAvailableAt : Option Instant := none
  preEventPrice : Option ℚ := none
  preEventVolatilityFraction : Option ℚ := none
  preEventAvailableAt : Option Instant := none
  halted : Option Bool := none
  feedHealthy : Option Bool := none
  macroCalendarAvailableAt : Option Instant := none
  macroCalendarCoversUntil : Option Instant := none
  scheduledMacroEvents : List Instant := []
  contradictions : List String := []

structure EventPolicy where
  maxSpreadBps : ℚ := 10
  maxAbsoluteChaseFraction : ℚ := 2 / 100
  maxVolatilityChaseMultiple : ℚ := 1
  h1MinGuidanceIncreaseFraction : ℚ := 1 / 100
  h2MinContractToAnnualRevenue : ℚ := 5 / 100
  minimumPrice : ℚ := 5
  minimumMedianDailyDollarVolume : ℚ := 50000000
  allowIexExperimentalPaper : Bool := false
  maxEntryNotionalUsd : ℚ := 25

namespace EventPolicy

def observation : Instant := 300 * second
def processingLatency : Instant := 2 * second
def maxSourceAge : Instant := 1800 * second
def maxPublicationToReceipt : Instant := 900 * second
def maxQuoteAge : Instant := 5 * second
def maxReferenceAge : Instant := 550 * day
def maxContractMonths : ℚ := 60
def horizon : Instant := 60 * minute
def entryExpiry : Instant := 30 * second
def flattenBeforeClose : Instant := 10 * minute
def macroBlackout : Instant := 30 * minute
def minimumLiquiditySessions : ℕ := 20
def h1Variant : String := "comparable-guidance-v1"
def h2Variant : String := "valued-contract-scale-v1"

end EventPolicy

/-- What a decision is asked with. -/
structure DecisionInput where
  extraction : ExtractionResult
  evidence : List SourceEvent
  now : Instant
  quote : Option EventQuote
  market : MarketContext
  eligibility : Option IssuerEligibility
  policy : EventPolicy := {}
  seenClusterIds : List String := []

/-- The digests that a decision is recorded with. -/
structure DecisionDigests extends Digests where
  extractionHash : ExtractionResult → String
  policyHash : EventPolicy → String
  decisionId : String × String × Instant × Option EventQuote × MarketContext × Option IssuerEligibility ×
    List String → String

end inputs

section evidence

variable (u : Unicode) (d : Digests) (x : DecisionInput)

namespace DecisionInput

/-- The evidence there is by now, by its id. -/
def available : Dict String SourceEvent :=
  .ofList ((x.evidence.filter fun item => item.availableBy x.now).map fun item => (item.evidenceId d, item))

def event : Option SourceEvent := (x.available d).get? x.extraction.sourceEventId

/-- The evidence that the extraction cites, as far as it is there. -/
def packet : List SourceEvent := x.extraction.evidenceIds.filterMap (x.available d).get?

def mapping : Option IssuerMapping := mappingFor x.extraction.issuerId

end DecisionInput

def packetVetoes : List String :=
  veto ((x.packet d).length ≠ x.extraction.evidenceIds.length ∨ d.packetHash (x.packet d) ≠ x.extraction.inputSha256)
    "evidence_packet_mismatch" ++
  veto (x.now < x.extraction.completedAt ∨ x.now < x.extraction.availableAt) "extraction_not_yet_available"

/-- The extraction as it is made again of an event and what is cited beside it. -/
def baselineOf (event : SourceEvent) : Except ResearchError ExtractionResult :=
  extractEvent u d event x.extraction.completedAt
    ((x.packet d).filter fun item => item.evidenceId d ≠ event.evidenceId d)

/-- What order-critical content of the extraction is not what it is when it is made again. -/
def baselineVetoes : Except ResearchError (List String) :=
  match x.event d with
  | none => return ["missing_source_evidence"]
  | some event => do
    let baseline ← baselineOf u d x event
    let e := x.extraction
    return veto (e.facts ≠ baseline.facts ∨ e.issuerId ≠ baseline.issuerId ∨
        e.eventClusterId ≠ baseline.eventClusterId ∨ e.eventType ≠ baseline.eventType ∨
        e.configurationSha256 ≠ baseline.configurationSha256 ∨ e.promptSha256 ≠ baseline.promptSha256 ∨
        e.schemaSha256 ≠ baseline.schemaSha256 ∨ e.availableAt ≠ baseline.availableAt ∨
        e.implementationSha256 ≠ baseline.implementationSha256) "extraction_evidence_mismatch" ++
      baseline.contradictions ++ baseline.missingRequiredFields

/-- Evidence that corrects, retracts or revises other evidence. -/
def SourceEvent.Corrects (item : SourceEvent) : Prop :=
  item.isRetraction ∨ item.isCorrection ∨ item.revisionOf ≠ none

instance (item : SourceEvent) : Decidable item.Corrects := inferInstanceAs (Decidable (_ ∨ _))

def correctionVetoes : List String :=
  (x.available d).values.flatMap fun item =>
    veto (item.issuerId = x.extraction.issuerId ∧
      (item.eventClusterId = x.extraction.eventClusterId ∨
        ∃ revised ∈ item.revisionOf, revised ∈ x.extraction.evidenceIds) ∧ item.Corrects)
      "known_correction_or_retraction"

def sourceVetoes : List String :=
  match x.event d with
  | none => []
  | some event =>
    veto (event.cik ≠ x.mapping.map IssuerMapping.cik) "source_cik_mismatch" ++
    veto (x.market.mode = .experimentalPaper ∧ event.availabilityBasis ≠ .observedReceipt)
      "non_observed_evidence_not_forward_paper" ++
    (match event.publishedAt with
    | none => ["publication_time_unknown"]
    | some published =>
      veto (event.firstReceivedAt < published ∨
        EventPolicy.maxPublicationToReceipt < event.firstReceivedAt - published) "late_or_inconsistent_publication") ++
    veto (EventPolicy.maxSourceAge < x.now - event.contentAvailableAt) "source_expired" ++
    veto (event.mappingAvailableAt.all (event.contentAvailableAt < ·)) "mapping_not_available_with_source"

end evidence

section market

variable (x : DecisionInput)

/-- The issuer's row says by now that its stock can be traded. -/
def issuerEligible (now : Instant) (mapping : IssuerMapping) (eligibility : IssuerEligibility) : Bool :=
  ¬(eligibility.symbol ≠ mapping.symbol ∨ eligibility.cik ≠ mapping.cik ∨ eligibility.issuerId ≠ mapping.issuerId ∨
    now < eligibility.availableAt ∨ now < eligibility.validFrom ∨ now < mapping.availableAt ∨
    eligibility.validUntil.any (· ≤ now) ∨ eligibility.securityType ≠ .commonStock ∨
    eligibility.exchangeListed ≠ some true ∨ eligibility.tradable ≠ some true ∨
    eligibility.fractionable ≠ some true)

def liquid (now : Instant) (policy : EventPolicy) (eligibility : IssuerEligibility) : Bool :=
  ¬(eligibility.medianDailyDollarVolume.all (· < policy.minimumMedianDailyDollarVolume) ∨
    eligibility.liquidityAvailableAt.all (now < ·) ∨
    eligibility.liquidityCompletedSessions.all (· < EventPolicy.minimumLiquiditySessions))

def issuerVetoes : List String :=
  veto (¬x.eligibility.any fun eligibility => x.mapping.any fun mapping => issuerEligible x.now mapping eligibility)
    "issuer_not_point_in_time_eligible" ++
  veto (¬x.eligibility.any fun eligibility => liquid x.now x.policy eligibility)
    "missing_or_ineligible_completed_session_liquidity" ++
  veto (¬x.eligibility.any fun eligibility => x.market.symbol = some eligibility.symbol)
    "market_context_symbol_mismatch"

def healthVetoes : List String :=
  veto (x.market.halted ≠ some false) "halt_status_unknown_or_halted" ++
  veto (x.market.feedHealthy ≠ some true) "feed_health_unknown_or_degraded"

def calendarVetoes : List String :=
  veto (x.market.macroCalendarAvailableAt.all (x.now < ·) ∨
    x.market.macroCalendarCoversUntil.all (· < x.now + EventPolicy.horizon)) "macro_calendar_missing_or_incomplete"

def releaseVetoes : List String :=
  veto (∃ release ∈ x.market.scheduledMacroEvents, x.now - EventPolicy.macroBlackout ≤ release ∧
    release ≤ x.now + (EventPolicy.horizon + EventPolicy.macroBlackout)) "scheduled_macro_risk_window"

/-- The session's end, while it is open. -/
def openUntil : Option Instant :=
  match x.market.sessionOpen, x.market.sessionClose with
  | some opens, some closes => if opens ≤ x.now ∧ x.now < closes then some closes else none
  | _, _ => none

def exitAt : Option Instant := (openUntil x).map fun _ => x.now + EventPolicy.horizon

def sessionVetoes : List String :=
  match openUntil x with
  | none => ["outside_verified_regular_session"]
  | some closes =>
    veto (closes - EventPolicy.flattenBeforeClose < x.now + EventPolicy.horizon) "insufficient_intraday_horizon"

/-- When the observation of the market after the event was there, if it was complete. -/
def observedAt : Option Instant :=
  match x.market.observationStart, x.market.observationEnd, x.market.observationAvailableAt,
    x.market.sessionOpen with
  | some start, some end_, some availableAt, some opens =>
    if start < max x.extraction.availableAt opens ∨ end_ - start < EventPolicy.observation ∨ x.now < end_ ∨
        availableAt < end_ ∨ x.now < availableAt then none
    else some availableAt
  | _, _, _, _ => none

def eligibleAt : Instant :=
  let read := max x.extraction.completedAt x.extraction.availableAt + EventPolicy.processingLatency
  (observedAt x).elim read fun availableAt => max read (availableAt + EventPolicy.processingLatency)

def observationVetoes : List String :=
  veto (observedAt x = none) "completed_post_availability_observation_missing" ++
  veto (x.now < eligibleAt x) "processing_latency_not_elapsed"

/-- The price before the event, where it was known before it was published, and the highest to be paid. -/
def chaseReference (event : Option SourceEvent) : Option (ℚ × ℚ) :=
  match x.market.preEventPrice, x.market.preEventVolatilityFraction, x.market.preEventAvailableAt,
    event.bind SourceEvent.publishedAt with
  | some price, some volatility, some availableAt, some published =>
    if published ≤ availableAt then none
    else
      let cap := min x.policy.maxAbsoluteChaseFraction (x.policy.maxVolatilityChaseMultiple * volatility)
      some (price, price * (1 + cap))
  | _, _, _, _ => none

def quoteVetoes (event : Option SourceEvent) : List String :=
  match x.quote with
  | none => ["quote_missing"]
  | some quote =>
    veto (¬x.eligibility.any fun eligibility => quote.symbol = eligibility.symbol) "quote_symbol_mismatch" ++
    veto (x.now < quote.timestamp ∨ x.now < quote.receivedAt ∨ quote.receivedAt < quote.timestamp ∨
      EventPolicy.maxQuoteAge < x.now - quote.timestamp ∨ quote.timestamp < eligibleAt x) "quote_not_causal_or_fresh" ++
    veto (quote.ask < quote.bid) "crossed_quote" ++
    veto (x.policy.maxSpreadBps < (quote.ask - quote.bid) / quote.mid * 10000) "spread_exceeds_policy" ++
    veto (quote.mid < x.policy.minimumPrice) "price_below_universe_floor" ++
    veto (quote.bidSize.all (· ≤ 0) ∨ quote.askSize.all (· ≤ 0) ∨ quote.sizeUnit ≠ .shares)
      "quote_size_unknown_or_invalid" ++
    veto (quote.feed = .unknown) "quote_feed_unknown" ++
    veto (quote.feed = .iex ∧ x.market.mode = .experimentalPaper ∧ ¬x.policy.allowIexExperimentalPaper)
      "iex_non_nbbo_shadow_only" ++
    match chaseReference x event with
    | none => ["pre_event_chase_reference_missing"]
    | some (price, permitted) =>
      veto (permitted < quote.ask) "post_event_chase_exceeds_policy" ++
      veto (quote.mid < price) "negative_price_response"

def permittedPrice (event : Option SourceEvent) : Option ℚ :=
  x.quote.bind fun _ => (chaseReference x event).map Prod.snd

end market

section hypotheses

inductive Hypothesis where
  | h1 | h2
  deriving DecidableEq, Repr

/-- What an event is taken for, and what speaks against that. -/
structure Judgement where
  reasons : List String
  hypothesis : Option Hypothesis := none
  variant : Option String := none
  revision : Option ℚ := none
  scaleRatio : Option ℚ := none

def judgeGuidance (policy : EventPolicy) (facts : List NumericFact) : Judgement :=
  let prior := facts.filter fun fact => fact.role = .priorGuidance
  let new := facts.filter fun fact => fact.role = .newGuidance
  let pairs := prior.zip new
  let changes := (pairs.filter fun pair => 0 < pair.1.midpoint).map fun pair =>
    (pair.2.midpoint - pair.1.midpoint) / pair.1.midpoint
  let revision := changes.min?
  { reasons :=
      veto (prior.length ≠ new.length ∨ prior = []) "comparable_guidance_missing" ++
      pairs.flatMap (fun pair => veto (pair.1.midpoint ≤ 0) "guidance_denominator_invalid") ++
      veto (revision.all (· < policy.h1MinGuidanceIncreaseFraction)) "guidance_increase_below_frozen_threshold"
    hypothesis := some .h1
    variant := some EventPolicy.h1Variant
    revision }

/-- Whether the evidence of an annual revenue is missing or too old. -/
def staleReference (now : Instant) (reference : Option SourceEvent) : Bool :=
  (reference.bind SourceEvent.publishedAt).all fun published =>
    EventPolicy.maxReferenceAge < now - published ∨ now < published

def judgeContract (available : Dict String SourceEvent) (now : Instant) (policy : EventPolicy)
    (facts : List NumericFact) : Except ResearchError Judgement := do
  let unjudged : Judgement := { reasons := [], hypothesis := some .h2, variant := some EventPolicy.h2Variant }
  match facts.filter (fun fact => fact.metric = .contractValue),
    facts.filter (fun fact => fact.metric = .contractDurationMonths), annualRevenues facts with
  | [contract], [duration], [revenue] =>
    if revenue.midpoint ≤ 0 then return { unjudged with reasons := ["annual_revenue_denominator_invalid"] }
    match revenue.evidenceIds with
    | [] => throw .noEvidenceId
    | id :: _ =>
      let ratio := contract.midpoint / revenue.midpoint
      return { unjudged with
        reasons :=
          veto (staleReference now (available.get? id)) "annual_revenue_reference_stale_or_unknown" ++
          veto (ratio < policy.h2MinContractToAnnualRevenue) "contract_scale_below_frozen_threshold" ++
          veto (¬(0 < duration.midpoint ∧ duration.midpoint ≤ EventPolicy.maxContractMonths))
            "contract_duration_outside_policy"
        scaleRatio := some ratio }
  | _, _, _ => return { unjudged with reasons := ["unique_contract_duration_and_revenue_required"] }

def judge (available : Dict String SourceEvent) (now : Instant) (policy : EventPolicy)
    (extraction : ExtractionResult) : Except ResearchError Judgement :=
  match extraction.eventType with
  | .earningsAndGuidance => return judgeGuidance policy extraction.facts
  | .valuedContract => judgeContract available now policy extraction.facts
  | _ => return { reasons := ["unsupported_event_hypothesis"] }

end hypotheses

section decision

inductive Action where
  | abstain | eligible
  deriving DecidableEq, Repr

structure EventDecision where
  decisionId : String
  action : Action
  eventClusterId : String
  issuerId : Option String
  symbol : Option String
  hypothesis : Option Hypothesis
  variant : Option String
  reasons : List String
  decidedAt : Instant
  eligibleAt : Option Instant
  expiresAt : Option Instant
  exitAt : Option Instant
  permittedLimitPrice : Option ℚ
  evidenceIds : List String
  extractionSha256 : String
  policySha256 : String
  mode : Mode
  quoteFeed : QuoteFeed
  quoteIsNbbo : Bool
  quoteSnapshot : Option EventQuote
  marketSnapshot : MarketContext
  issuerEligibilitySnapshot : Option IssuerEligibility
  guidanceRevisionFraction : Option ℚ
  totalContractToAnnualRevenue : Option ℚ
  positionReviewRequired : Bool

def mentions (reason word : String) : Bool := word.toList.IsInfix reason.toList

/-- Whether a position that was taken on the event has to be looked at again. -/
def reviewRequired (market : MarketContext) (reasons : List String) : Bool :=
  reasons.any (fun reason => mentions reason "retract" || mentions reason "correction") ∨
    market.halted = some true ∨ market.contradictions ≠ [] ∨
    "negative_or_conditional_qualification" ∈ reasons ∨ "conflicting_or_widened_guidance" ∈ reasons

variable (u : Unicode) (d : DecisionDigests)

def decideEvent (x : DecisionInput) : Except ResearchError EventDecision := do
  let event := x.event d.toDigests
  let checked ← baselineVetoes u d.toDigests x
  let judged ← judge (x.available d.toDigests) x.now x.policy x.extraction
  let reasons := (x.extraction.contradictions ++ x.extraction.missingRequiredFields ++ packetVetoes d.toDigests x ++
    checked ++ correctionVetoes d.toDigests x ++
    veto (x.extraction.eventClusterId ∈ x.seenClusterIds) "duplicate_event_cluster" ++ issuerVetoes x ++
    sourceVetoes d.toDigests x ++ healthVetoes x ++ x.market.contradictions ++ calendarVetoes x ++ releaseVetoes x ++
    sessionVetoes x ++ observationVetoes x ++ quoteVetoes x event ++ judged.reasons).eraseDups
  let clear := decide (reasons = [])
  let extractionHash := d.extractionHash x.extraction
  let policyHash := d.policyHash x.policy
  return {
    decisionId := d.decisionId (extractionHash, policyHash, x.now, x.quote, x.market, x.eligibility, reasons)
    action := if clear then .eligible else .abstain
    eventClusterId := x.extraction.eventClusterId
    issuerId := x.extraction.issuerId
    symbol := x.eligibility.map IssuerEligibility.symbol
    hypothesis := judged.hypothesis
    variant := judged.variant
    reasons
    decidedAt := x.now
    eligibleAt := if clear then some (eligibleAt x) else none
    expiresAt := if clear then some (x.now + EventPolicy.entryExpiry) else none
    exitAt := if clear then exitAt x else none
    permittedLimitPrice := if clear then permittedPrice x event else none
    evidenceIds := x.extraction.evidenceIds
    extractionSha256 := extractionHash
    policySha256 := policyHash
    mode := x.market.mode
    quoteFeed := x.quote.elim .unknown EventQuote.feed
    quoteIsNbbo := x.quote.any fun quote => quote.feed = .sip
    quoteSnapshot := x.quote
    marketSnapshot := x.market
    issuerEligibilitySnapshot := x.eligibility
    guidanceRevisionFraction := judged.revision
    totalContractToAnnualRevenue := judged.scaleRatio
    positionReviewRequired := reviewRequired x.market reasons }

/-- The event of these inputs is found eligible. -/
def Eligible (x : DecisionInput) : Prop := ∃ decision, decideEvent u d x = .ok decision ∧ decision.action = .eligible

end decision

section eligibility

variable {u : Unicode} {d : DecisionDigests} {x : DecisionInput}

@[simp] theorem veto_eq_nil {holds : Prop} [Decidable holds] {reason : String} : veto holds reason = [] ↔ ¬holds := by
  unfold veto
  split
  next yes => simp [yes]
  next no => simp [no]

theorem eraseDups_eq_nil {l : List String} : l.eraseDups = [] ↔ l = [] := by
  cases l with
  | nil => simp
  | cons first rest => simp [List.eraseDups_cons]

/-- No reason stands against the event. -/
structure Clear (u : Unicode) (d : DecisionDigests) (x : DecisionInput) : Prop where
  contradictions : x.extraction.contradictions = []
  missing : x.extraction.missingRequiredFields = []
  packet : packetVetoes d.toDigests x = []
  baseline : baselineVetoes u d.toDigests x = .ok []
  corrections : correctionVetoes d.toDigests x = []
  unseen : x.extraction.eventClusterId ∉ x.seenClusterIds
  issuer : issuerVetoes x = []
  source : sourceVetoes d.toDigests x = []
  health : healthVetoes x = []
  consistent : x.market.contradictions = []
  calendar : calendarVetoes x = []
  releases : releaseVetoes x = []
  session : sessionVetoes x = []
  observation : observationVetoes x = []
  quote : quoteVetoes x (x.event d.toDigests) = []
  hypothesis : ∃ judged, judge (x.available d.toDigests) x.now x.policy x.extraction = .ok judged ∧ judged.reasons = []

theorem eligible_iff_clear : Eligible u d x ↔ Clear u d x := by
  constructor
  · rintro ⟨decision, decided, eligible⟩
    unfold decideEvent at decided
    dsimp only at decided
    obtain ⟨checked, baseline, decided⟩ := bind_ok_iff.mp decided
    obtain ⟨judged, hypothesis, decided⟩ := bind_ok_iff.mp decided
    cases decided
    dsimp only at eligible
    split at eligible
    next clear =>
      rw [decide_eq_true_eq, eraseDups_eq_nil] at clear
      simp only [List.append_eq_nil_iff, veto_eq_nil, and_assoc] at clear
      obtain ⟨contradictions, missing, packet, rfl, corrections, unseen, issuer, source, health, consistent, calendar,
        releases, session, observation, quote, judged_⟩ := clear
      exact ⟨contradictions, missing, packet, baseline, corrections, unseen, issuer, source, health, consistent,
        calendar, releases, session, observation, quote, judged, hypothesis, judged_⟩
    next => cases eligible
  · intro clear
    obtain ⟨judged, hypothesis, judged_⟩ := clear.hypothesis
    unfold Eligible decideEvent
    dsimp only
    rw [clear.baseline, hypothesis]
    refine ⟨_, rfl, ?_⟩
    dsimp only
    rw [if_pos]
    rw [decide_eq_true_eq, eraseDups_eq_nil]
    simp only [List.append_eq_nil_iff, veto_eq_nil, and_assoc]
    exact ⟨clear.contradictions, clear.missing, clear.packet, trivial, clear.corrections, clear.unseen, clear.issuer,
      clear.source, clear.health, clear.consistent, clear.calendar, clear.releases, clear.session, clear.observation,
      clear.quote, judged_⟩

end eligibility

end TradeAgent.Research
