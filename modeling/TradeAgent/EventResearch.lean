import TradeAgent.Domain
import TradeAgent.Library.Procedure
import TradeAgent.Library.Regex

/-! The deterministic reading of an issuer's event: which sources are verified, which numbers a text
states, and what speaks against taking them for facts. -/
namespace TradeAgent.Research

open Regex (sequence choice words optional literal)

/-- The tables of Unicode that text is handled by. -/
structure Unicode extends Alphabet where
  lower : List Char → List Char
  upper : List Char → List Char
  nfkc : List Char → List Char

/-- A year, by the Gregorian calendar, of a day counted from the epoch. -/
def yearOfDay (days : ℤ) : ℤ :=
  let shifted := days + 719468
  let era := shifted / 146097
  let dayOfEra := shifted - era * 146097
  let yearOfEra := (dayOfEra - dayOfEra / 1460 + dayOfEra / 36524 - dayOfEra / 146096) / 365
  let dayOfYear := dayOfEra - (365 * yearOfEra + yearOfEra / 4 - yearOfEra / 100)
  -- The years of the era start in March, so that January and February belong to the next one.
  yearOfEra + era * 400 + if (5 * dayOfYear + 2) / 153 < 10 then 0 else 1

def year (at_ : Instant) : ℤ := yearOfDay (date at_)

section evidence

structure IssuerMapping where
  symbol : String
  issuerId : String
  cik : String
  primaryDomains : List String
  availableAt : Instant
  deriving DecidableEq

def supportedIssuerMappings : List IssuerMapping :=
  let recorded : Instant := 1788731520 * second
  [ ⟨"AAPL", "sec:0000320193", "0000320193", ["www.apple.com", "investor.apple.com"], recorded⟩,
    ⟨"MSFT", "sec:0000789019", "0000789019", ["www.microsoft.com"], recorded⟩,
    ⟨"NVDA", "sec:0001045810", "0001045810", ["nvidianews.nvidia.com", "investor.nvidia.com"], recorded⟩ ]

def mappingFor (issuerId : Option String) : Option IssuerMapping :=
  supportedIssuerMappings.find? fun item => some item.issuerId = issuerId

inductive AvailabilityBasis where
  | observedReceipt | synthetic | replayAssumption
  deriving DecidableEq, Repr

structure SourceEvent where
  sourceEventId : String
  source : String
  sourceUrl : String
  sourceVersion : String
  publishedAt : Option Instant := none
  providerCreatedAt : Option Instant := none
  providerUpdatedAt : Option Instant := none
  firstReceivedAt : Instant
  contentAvailableAt : Instant
  contentSha256 : String
  content : Option String := none
  rawMetadataJson : String := "\x7b\x7d"
  rawPayloadSha256 : Option String := none
  revisionOf : Option String := none
  eventClusterId : String
  issuerId : Option String := none
  cik : Option String := none
  relatedInstruments : List String := []
  providerSymbols : List String := []
  mappingAvailableAt : Option Instant := none
  eventType : String := "unclassified"
  isPrimarySource : Bool := false
  isCorrection : Bool := false
  isRetraction : Bool := false
  rightsProfile : String
  availabilityBasis : AvailabilityBasis := .observedReceipt
  headline : String := ""
  deriving DecidableEq

/-- Content of an event can be used from a time on. -/
def SourceEvent.availableBy (event : SourceEvent) (now : Instant) : Bool :=
  event.contentAvailableAt ≤ now ∧ event.firstReceivedAt ≤ now

inductive Metric where
  | revenue | eps | contractValue | contractDurationMonths
  deriving DecidableEq, Repr

inductive Role where
  | priorGuidance | newGuidance | annualRevenue | contract
  deriving DecidableEq, Repr

inductive UnitScale where
  | units | million | billion | perShare | months
  deriving DecidableEq, Repr

inductive AccountingBasis where
  | gaap | adjusted | contractual
  deriving DecidableEq, Repr

structure SourceSpan where
  evidenceId : String
  start : ℕ
  end_ : ℕ
  text : List Char
  deriving DecidableEq

structure NumericFact where
  metric : Metric
  role : Role
  low : ℚ
  high : ℚ
  inDollars : Bool
  unitScale : UnitScale
  accountingBasis : Option AccountingBasis
  fiscalPeriod : Option (List Char)
  evidenceIds : List String
  sourceOffsets : List SourceSpan
  availableAt : Instant
  deriving DecidableEq

def UnitScale.factor : UnitScale → ℚ
  | .million => 10 ^ 6
  | .billion => 10 ^ 9
  | _ => 1

def NumericFact.midpoint (fact : NumericFact) : ℚ := (fact.low + fact.high) / 2 * fact.unitScale.factor

inductive EventType where
  | earningsAndGuidance | valuedContract | risk | unclassified
  deriving DecidableEq, Repr

inductive ExtractionMethod where
  | deterministic | validatedModelOutput
  deriving DecidableEq, Repr

structure ExtractionResult where
  sourceEventId : String
  eventClusterId : String
  issuerId : Option String
  eventType : EventType
  facts : List NumericFact
  evidenceIds : List String
  availableAt : Instant
  completedAt : Instant
  contradictions : List String
  missingRequiredFields : List String
  reasonForAbstention : Option String
  inferenceProvider : Option String := none
  modelId : Option String := none
  extractionMethod : ExtractionMethod
  modelOutputSha256 : Option String
  inputSha256 : String
  promptSha256 : String
  schemaSha256 : String
  configurationSha256 : String
  implementationSha256 : String
  deriving DecidableEq

/-- What a model answers, once it is read. -/
structure ModelExtraction where
  issuerId : Option String
  eventType : EventType
  facts : List NumericFact
  contradictions : List String
  missingRequiredFields : List String
  deriving DecidableEq

/-- The digests of evidence: of texts, of the three names of a version and of whole packets, and those
of the prompt, the schema, the configuration and the code themselves. -/
structure Digests where
  textHash : List Char → String
  evidenceId : String × String × String → String
  packetHash : List SourceEvent → String
  prompt : String
  schema : String
  configuration : String
  implementation : String

def SourceEvent.evidenceId (d : Digests) (event : SourceEvent) : String :=
  d.evidenceId (event.source, event.sourceEventId, event.sourceVersion)

end evidence

section grammar

def number : Regex := sequence [
  optional (.char '-'), .many 1 .digit, .many 0 (sequence [.char ',', .times 3 0 true .digit]),
  optional (sequence [.char '.', .many 1 .digit])]

def blanks : Regex := .many 1 .space

def fiscalYear : Regex := choice [
  sequence [literal "FY", optional .space, .times 4 0 true .digit],
  sequence [literal "fiscal", blanks, .times 4 0 true .digit]]

def period : Regex := choice [
  sequence [literal "FY", optional .space, .times 4 0 true .digit],
  sequence [optional (sequence [.char 'Q', .oneOf ['1', '2', '3', '4'], blanks]), literal "fiscal", blanks,
    .times 4 0 true .digit]]

def dollars : Regex := choice [sequence [literal "USD", blanks], .char '$']

def sentenceEnd : Regex := .ahead (.alt (.oneOf ['.', ';', '\n']) .ending)

def guidanceScale : Regex := words ["million", "billion", "per share"]

/-- A bound, perhaps with a second one after it, and the scale of both. -/
def guidanceRange (low high scale : String) : Regex := sequence [
  dollars, .group low number,
  optional (sequence [.many 0 .space, choice [literal "to", .char '-', .char '–'], .many 0 .space,
    optional (.char '$'), .group high number]),
  blanks, .group scale guidanceScale]

def guidanceRe : Regex := sequence [
  optional (sequence [literal "For", blanks]), .group "period" period, optional (.char ','), blanks,
  .group "basis" (words ["GAAP", "adjusted"]), blanks, .group "metric" (words ["revenue", "EPS"]), blanks,
  literal "guidance", blanks, optional (sequence [literal "was", blanks]),
  words ["raised", "increased", "revised", "lowered", "cut"], blanks, literal "from", blanks,
  guidanceRange "prior_low" "prior_high" "prior_scale", blanks, literal "to", blanks,
  guidanceRange "new_low" "new_high" "new_scale", sentenceEnd]

def annualRe : Regex := sequence [
  optional (sequence [literal "For", blanks]), .group "period" fiscalYear, optional (.char ','), blanks,
  literal "GAAP", blanks, literal "annual", blanks, literal "revenue", blanks, words ["was", "of"], blanks,
  dollars, .group "value" number, blanks, .group "scale" (words ["million", "billion"]), sentenceEnd]

def contractRe : Regex := sequence [
  words ["signed", "awarded"], blanks, optional (sequence [literal "a", blanks]),
  optional (sequence [literal "new", blanks]), optional (sequence [literal "binding", blanks]),
  literal "contract", blanks,
  optional (sequence [literal "with", blanks, .times 1 79 false (.noneOf ['.', ';', '\n']), blanks]),
  choice [sequence [literal "valued", blanks, literal "at"], literal "worth"], blanks,
  dollars, .group "value" number, blanks, .group "scale" (words ["million", "billion"]), blanks,
  words ["over", "for"], blanks, .group "months" (.many 1 .digit), blanks, literal "months", sentenceEnd]

def injectionRe : Regex := choice [
  sequence [literal "ignore", blanks,
    .many 0 (choice [sequence [literal "all", blanks], sequence [literal "previous", blanks],
      sequence [literal "prior", blanks]]), words ["instructions", "rules"]],
  sequence [literal "system", .many 0 .space, literal "prompt"],
  sequence [literal "api", optional (.oneOf ['_', ' ', '-']), literal "key"],
  sequence [literal "send", blanks, words ["secrets", "credentials"]],
  sequence [words ["execute", "run"], blanks, words ["shell", "command"]],
  sequence [literal "override", blanks, words ["risk", "policy"]],
  sequence [literal "<|", words ["system", "assistant"], literal "|>"]]

def negativeRe : Regex := sequence [.boundary, choice [
  sequence [literal "withdraw", optional (words ["s", "n", "al"])],
  sequence [literal "retract", optional (words ["ed", "ion"])],
  sequence [literal "halt", optional (literal "ed")], literal "restatement",
  sequence [literal "bankrupt", optional (literal "cy")],
  literal "nonbinding", literal "non-binding", literal "conditional", literal "subject to approval",
  literal "below expectations", literal "below consensus", literal "worse adjusted",
  sequence [literal "guidance ", words ["cut", "lowered"]],
  sequence [literal "cut", optional (.char 's'), .char ' ', words ["guidance", "outlook"]],
  literal "negative qualification", literal "hypothetical", literal "illustrative",
  sequence [literal "adjusted ", words ["EPS", "earnings"], .char ' ', words ["fell", "declined"]],
  sequence [
    choice [literal "revenue", literal "EPS", literal "earnings", literal "cash flow",
      sequence [literal "margin", optional (.char 's')]],
    .char ' ', words ["fell", "declined", "decreased", "dropped", "worsened"]],
  sequence [literal "not ", words ["raised", "increased", "signed", "awarded"]]], .boundary]

def recapRe : Regex := sequence [.boundary, choice [
  sequence [literal "shares ", words ["rose", "jumped", "rallied"]], literal "previously announced",
  sequence [literal "reiterat", words ["ed", "es"]], literal "unconfirmed",
  sequence [literal "rumo", optional (.char 'u'), .char 'r'], literal "subsidiary", literal "on behalf of"],
  .boundary]

def nameRe (name : String) : Regex := sequence [.boundary, literal name, .boundary]

def additionalRe : Regex := sequence [words ["guidance", "outlook"], .times 0 100 true .any, .digit]

end grammar

section texts

/-- A text with every occurrence of another, which is not empty, replaced, left to right; so many
characters are skipped first. -/
def replaceFrom (old new : List Char) : ℕ → List Char → List Char
  | _, [] => []
  | skipped + 1, _ :: rest => replaceFrom old new skipped rest
  | 0, c :: rest =>
    if old.isPrefixOf (c :: rest) then new ++ replaceFrom old new (old.length - 1) rest
    else c :: replaceFrom old new 0 rest

def replaceAll (text old new : List Char) : List Char := replaceFrom old new 0 text

variable (u : Unicode)

/-- A fiscal period as it is compared: without blanks, and `FY` for `fiscal`. -/
def periodOf (value : List Char) : List Char :=
  (replaceAll (u.upper value) "FISCAL".toList "FY".toList).filter fun c => ¬u.space c

/-- The digits of a text as a number. -/
def digits (text : List Char) : Option ℕ :=
  (text.mapM u.decimal).map fun values => values.foldl (fun n value => 10 * n + value) 0

/-- A decimal as the grammar writes it, without its commas. -/
def decimalOf (text : List Char) : Option ℚ := do
  let text := text.filter (· ≠ ',')
  let body := if text.head? = some '-' then text.tail else text
  let whole := body.takeWhile (· ≠ '.')
  let fraction := (body.dropWhile (· ≠ '.')).tail
  let coefficient ← digits u (whole ++ fraction)
  let value := (coefficient : ℚ) / 10 ^ fraction.length
  return if text.head? = some '-' then -value else value

def unitScaleOf (scale : List Char) : Option UnitScale :=
  match String.ofList (replaceAll (u.lower scale) "per share".toList "per_share".toList) with
  | "units" => some .units
  | "million" => some .million
  | "billion" => some .billion
  | "per_share" => some .perShare
  | "months" => some .months
  | _ => none

end texts

section urls

/-- The parts of an address that a source is verified by. -/
structure SplitUrl where
  scheme : List Char
  userInfo : Bool
  hostname : Option (List Char)
  port : Option ℕ
  path : List Char

def schemeCharacter (c : Char) : Bool := c.isAlphanum || c = '+' || c = '-' || c = '.'

/-- The scheme of an address and the rest of it. -/
def splitScheme (u : Unicode) (url : List Char) : List Char × List Char :=
  let scheme := url.takeWhile (· ≠ ':')
  match url.dropWhile (· ≠ ':') with
  | _ :: rest =>
    if scheme.head?.any Char.isAlpha ∧ scheme.all schemeCharacter then (u.lower scheme, rest) else ([], url)
  | [] => ([], url)

/-- A network location that normalizes to one with a separator in it is refused. -/
def checkNetloc (u : Unicode) (netloc : List Char) : Bool :=
  let plain := netloc.filter (· ∉ ['@', ':', '#', '?'])
  netloc.all (fun c => c.toNat < 128) ∨ u.nfkc plain = plain ∨
    (u.nfkc plain).all (· ∉ ['/', '?', '#', '@', ':'])

/-- A port is a number of ASCII digits up to 65535; where there is none it is absent. -/
def portOf (text : List Char) : Option (Option ℕ) :=
  if text = [] then some none
  else if text.all Char.isDigit then
    let value := text.foldl (fun n c => 10 * n + (c.toNat - '0'.toNat)) 0
    if value ≤ 65535 then some (some value) else none
  else none

/-- An address, split into its parts. Nothing where the source raises, and also for a bracketed host: that
is the number of a machine or is refused, and never the name of an issuer's. -/
def urlsplit (u : Unicode) (url : String) : Option SplitUrl := do
  let text := (url.toList.dropWhile fun c => c.toNat ≤ 32).filter (· ∉ ['\t', '\r', '\n'])
  let (scheme, rest) := splitScheme u text
  let located := ['/', '/'].isPrefixOf rest
  let netloc := if located then (rest.drop 2).takeWhile (· ∉ ['/', '?', '#']) else []
  let rest := if located then (rest.drop 2).dropWhile (· ∉ ['/', '?', '#']) else rest
  guard (netloc.all (· ∉ ['[', ']']))
  guard (checkNetloc u netloc)
  let host := (netloc.reverse.takeWhile (· ≠ '@')).reverse
  let name := host.takeWhile (· ≠ ':')
  let port ← portOf (host.dropWhile (· ≠ ':')).tail
  return {
    scheme
    userInfo := decide ('@' ∈ netloc)
    hostname := if name = [] then none
      else some (u.lower (name.takeWhile (· ≠ '%')) ++ name.dropWhile (· ≠ '%'))
    port
    path := rest.takeWhile (· ∉ ['?', '#']) }

/-- The registration number of an issuer without its leading zeros. -/
def IssuerMapping.number (mapping : IssuerMapping) : List Char := mapping.cik.toList.dropWhile (· = '0')

def verifiedSource (u : Unicode) (event : SourceEvent) : Bool :=
  match mappingFor event.issuerId with
  | none => false
  | some mapping =>
    if event.cik ≠ some mapping.cik ∨ ¬event.isPrimarySource then false
    else
      match urlsplit u event.sourceUrl with
      | none => false
      | some url =>
        if url.scheme ≠ "https".toList ∨ url.userInfo ∨ (url.port ≠ none ∧ url.port ≠ some 443) ∨
            '\\' ∈ event.sourceUrl.toList ∨ '%' ∈ url.path ∨ ['.', '.'].IsInfix url.path ∨
            ['/', '/'].IsInfix url.path then false
        else if url.hostname = some "www.sec.gov".toList then
          ("/Archives/edgar/data/".toList ++ mapping.number ++ ['/']).isPrefixOf url.path
        else mapping.primaryDomains.any fun domain => url.hostname = some domain.toList

end urls

section extraction

/-- What a reading raises: text that is no integer, and a list of pairs with an odd member. -/
inductive ResearchError where
  | notInteger | unpaired | noEvidenceId
  deriving DecidableEq, Repr

/-- One reason against an event, where it holds. -/
def veto (holds : Prop) [Decidable holds] (reason : String) : List String := if holds then [reason] else []

variable (u : Unicode) (d : Digests)

/-- A fact, from the texts of its bounds. It is refused where a bound or the scale is no number or scale
of the grammar's, or where the bounds are reversed. -/
def factOf (event : SourceEvent) (found : Regex.Found) (metric : Metric) (role : Role) (low : Option (List Char))
    (high : Option (List Char)) (scale : List Char) (period : Option (List Char))
    (basis : Option AccountingBasis) : Option NumericFact := do
  let lowText ← low
  let lowest ← decimalOf u lowText
  let highest ← decimalOf u (high.getD lowText)
  let unitScale ← unitScaleOf u scale
  guard (lowest ≤ highest)
  return {
    metric, role, unitScale
    low := lowest
    high := highest
    inDollars := decide (scale ≠ "months".toList)
    accountingBasis := basis
    fiscalPeriod := period.map (periodOf u)
    evidenceIds := [event.evidenceId d]
    sourceOffsets := [⟨event.evidenceId d, found.begins, found.after.position, found.text⟩]
    availableAt := event.contentAvailableAt }

/-- The prior and the new range of one statement of guidance. -/
def guidanceFacts (event : SourceEvent) (found : Regex.Found) : Option (List NumericFact) := do
  let s := found.after
  let metricText := (s.group? "metric").getD []
  let basisText := (s.group? "basis").getD []
  let metric := if u.lower metricText = "eps".toList then Metric.eps else .revenue
  let basis := if u.upper basisText = "GAAP".toList then AccountingBasis.gaap else .adjusted
  let prior ← factOf u d event found metric .priorGuidance (s.group? "prior_low") (s.group? "prior_high")
    ((s.group? "prior_scale").getD []) (s.group? "period") (some basis)
  let new ← factOf u d event found metric .newGuidance (s.group? "new_low") (s.group? "new_high")
    ((s.group? "new_scale").getD []) (s.group? "period") (some basis)
  return [prior, new]

def annualFacts (event : SourceEvent) (found : Regex.Found) : Option (List NumericFact) := do
  let s := found.after
  let revenue ← factOf u d event found .revenue .annualRevenue (s.group? "value") none
    ((s.group? "scale").getD []) (s.group? "period") (some .gaap)
  return [revenue]

def contractFacts (event : SourceEvent) (found : Regex.Found) : Option (List NumericFact) := do
  let s := found.after
  let value ← factOf u d event found .contractValue .contract (s.group? "value") none
    ((s.group? "scale").getD []) none (some .contractual)
  let months ← factOf u d event found .contractDurationMonths .contract (s.group? "months") none
    "months".toList none (some .contractual)
  return [value, months]

/-- The facts that a text states in the grammar; nothing where one of them is refused. -/
def parseFacts (event : SourceEvent) : Option (List NumericFact) := do
  let text := (event.content.getD "").toList
  let guidance ← (Regex.finditer u.toAlphabet guidanceRe text).mapM (guidanceFacts u d event)
  let annual ← (Regex.finditer u.toAlphabet annualRe text).mapM (annualFacts u d event)
  let contracts ← (Regex.finditer u.toAlphabet contractRe text).mapM (contractFacts u d event)
  return guidance.flatten ++ annual.flatten ++ contracts.flatten

/-- The text that is searched for what speaks against an event. -/
def searched (event : SourceEvent) : List Char := event.headline.toList ++ '\n' :: (event.content.getD "").toList

def SourceEvent.revises (event : SourceEvent) : Bool := event.revisionOf.any (· ≠ "")

def issuerNames : List (String × String) :=
  [("sec:0000320193", "Apple"), ("sec:0000789019", "Microsoft"), ("sec:0001045810", "NVIDIA")]

/-- What speaks against the event itself. -/
def sourceErrors (event : SourceEvent) (now : Instant) : List String :=
  let search (r : Regex) : Bool := Regex.search u.toAlphabet r (searched event)
  veto (now < event.contentAvailableAt ∨ now < event.firstReceivedAt) "source_not_yet_available" ++
  veto (event.providerUpdatedAt.any (now < ·)) "provider_timestamp_in_future" ++
  veto (event.providerCreatedAt.any fun created => event.providerUpdatedAt.any (· < created))
    "provider_timestamps_inconsistent" ++
  veto (event.isCorrection ∨ event.revises) "correction_requires_review" ++
  veto event.isRetraction "source_retracted" ++
  veto (search injectionRe) "untrusted_instruction_content" ++
  veto (search negativeRe) "negative_or_conditional_qualification" ++
  veto (search recapRe) "recap_rumor_or_issuer_ambiguity" ++
  veto (issuerNames.any fun named => some named.1 ≠ event.issuerId ∧ search (nameRe named.2))
    "multiple_or_wrong_issuer_mentioned"

def sourceMissing (event : SourceEvent) (now : Instant) : List String :=
  veto (event.content.all fun content => content.toList.all u.space) "retained_source_content" ++
  veto (¬verifiedSource u event) "verified_primary_issuer" ++
  veto (event.mappingAvailableAt.all (now < ·)) "point_in_time_issuer_mapping"

/-- What one item of the packet adds: what speaks against it, and its facts. Of items other than the
event's own only the annual revenue counts. -/
def readItem (event : SourceEvent) (own : Bool) (item : SourceEvent) : List String × List NumericFact :=
  if item.issuerId ≠ event.issuerId ∨ ¬verifiedSource u item then
    (veto (own = false) "evidence_issuer_or_primary_mismatch", [])
  else if item.content.any fun content => d.textHash content.toList ≠ item.contentSha256 then
    (["evidence_content_hash_mismatch"], [])
  else
    let errors :=
      veto (item.mappingAvailableAt.all (item.contentAvailableAt < ·)) "evidence_mapping_not_available" ++
      veto (item.isRetraction ∨ item.isCorrection ∨ item.revises) "related_correction_or_retraction"
    match parseFacts u d item with
    | none => (errors ++ ["invalid_numeric_evidence"], [])
    | some parsed => (errors, if own then parsed else parsed.filter fun fact => fact.role = .annualRevenue)

/-- The year that a fiscal period ends with. -/
def periodYear (period : List Char) : Except ResearchError ℕ :=
  match digits u (period.drop (period.length - 4)) with
  | some value => .ok value
  | none => .error .notInteger

/-- Whether some period is absent or outside the years. -/
def anyOutside (periods : List (Option (List Char))) (first last : ℤ) : Except ResearchError Bool :=
  periods.anyM fun
    | none => return true
    | some period => do
      let value ← periodYear u period
      return ¬(first ≤ (value : ℤ) ∧ (value : ℤ) ≤ last)

/-- The facts two by two, the prior range before the new one. -/
def guidancePairs : List NumericFact → Except ResearchError (List (NumericFact × NumericFact))
  | [] => .ok []
  | [_] => .error .unpaired
  | before :: after :: rest => do return (before, after) :: (← guidancePairs rest)

def pairErrors (pair : NumericFact × NumericFact) : List String :=
  let (before, after) := pair
  veto (before.metric ≠ after.metric ∨ before.unitScale ≠ after.unitScale ∨
      before.accountingBasis ≠ after.accountingBasis ∨ before.fiscalPeriod ≠ after.fiscalPeriod ∨
      (before.metric = .eps ∧ before.unitScale ≠ .perShare) ∨
      (before.metric = .revenue ∧ before.unitScale = .perShare))
    "incomparable_guidance_basis_period_or_units" ++
  veto (before.low ≤ 0 ∨ after.low ≤ 0) "nonpositive_guidance_denominator" ++
  veto (after.low < before.low ∨ after.high < before.high) "conflicting_or_widened_guidance"

def guidanceErrors (event : SourceEvent) (now : Instant) (guidance : List NumericFact) :
    Except ResearchError (List String) := do
  if guidance = [] then return []
  let pairs ← guidancePairs guidance
  let periods := (guidance.map NumericFact.fiscalPeriod).eraseDups
  let outside ← anyOutside u periods (year now) (year now + 2)
  let firsts := pairs.map Prod.fst
  let claims := firsts.map fun fact => (fact.metric, fact.accountingBasis)
  let scrubbed := firsts.foldl (fun text fact =>
    (fact.sourceOffsets.head?.map SourceSpan.text).elim text (replaceAll text · [])) (event.content.getD "").toList
  return pairs.flatMap pairErrors ++
    veto (periods.length ≠ 1) "multiple_fiscal_periods" ++
    veto outside "guidance_fiscal_period_not_current_or_forward" ++
    veto (¬claims.Nodup) "duplicate_or_conflicting_numeric_claims" ++
    veto ((guidance.map NumericFact.accountingBasis).eraseDups.length ≠ 1) "mixed_accounting_basis" ++
    veto (Regex.search u.toAlphabet additionalRe scrubbed) "unreconciled_additional_guidance"

def annualRevenues (facts : List NumericFact) : List NumericFact := facts.filter fun fact => fact.role = .annualRevenue

def contractErrors (now : Instant) (facts contracts : List NumericFact) : Except ResearchError (List String) := do
  if contracts = [] then return []
  let outside ← anyOutside u ((annualRevenues facts).map NumericFact.fiscalPeriod) (year now - 1) (year now)
  return veto (contracts.length ≠ 1) "multiple_contract_values" ++
    veto outside "annual_revenue_fiscal_period_stale_or_future" ++
    veto (facts.any fun fact => (fact.role = .contract ∨ fact.role = .annualRevenue) ∧ fact.low ≤ 0)
      "nonpositive_contract_or_revenue"

/-- What the facts of a packet are about. -/
def eventTypeOf (event : SourceEvent) (guidance contracts : List NumericFact) : EventType :=
  if guidance ≠ [] ∧ contracts ≠ [] then .unclassified
  else if guidance ≠ [] then .earningsAndGuidance
  else if contracts ≠ [] then .valuedContract
  else if event.isRetraction ∨ Regex.search u.toAlphabet negativeRe (searched event) then .risk
  else .unclassified

/-- What is read from an event and the evidence before it. A model's answer, where one is asked, counts only
if it says the same; one that cannot be read is an answer without a value. -/
def extractEvent (event : SourceEvent) (now : Instant) (priorEvidence : List SourceEvent)
    (modelOutput : Option (String × Option ModelExtraction) := none) : Except ResearchError ExtractionResult := do
  let prior := priorEvidence.filter fun item => item.availableBy now
  let packet := event :: prior
  let read := readItem u d event true event :: prior.map (readItem u d event false)
  let facts := read.flatMap Prod.snd
  let guidance := facts.filter fun fact => fact.role = .priorGuidance ∨ fact.role = .newGuidance
  let contracts := facts.filter fun fact => fact.metric = .contractValue
  let eventType := eventTypeOf u event guidance contracts
  let guided ← guidanceErrors u event now guidance
  let contracted ← contractErrors u now facts contracts
  let errors := (sourceErrors u event now ++ read.flatMap Prod.fst ++
    veto (guidance ≠ [] ∧ contracts ≠ []) "multiple_hypotheses_in_one_event" ++ guided ++ contracted).eraseDups
  let missing := (sourceMissing u event now ++
    veto (guidance = [] ∧ contracts = [] ∧ eventType = .unclassified) "supported_quantitative_event" ++
    veto (contracts ≠ [] ∧ annualRevenues facts = []) "point_in_time_annual_revenue").eraseDups
  let expected : ModelExtraction := ⟨event.issuerId, eventType, facts, errors, missing⟩
  let validated := modelOutput.any fun output => output.2 = some expected
  let answered := match modelOutput with
    | none => []
    | some (_, none) => ["invalid_model_output_schema"]
    | some (_, some answer) => veto (answer ≠ expected) "model_output_evidence_mismatch"
  let reasons := errors ++ answered ++ missing
  return {
    sourceEventId := event.evidenceId d
    eventClusterId := event.eventClusterId
    issuerId := event.issuerId
    eventType, facts
    evidenceIds := packet.map (SourceEvent.evidenceId d)
    availableAt := prior.foldl (fun latest item => max latest item.contentAvailableAt) event.contentAvailableAt
    completedAt := now
    contradictions := errors ++ answered
    missingRequiredFields := missing
    reasonForAbstention := if reasons = [] then none else some (";".intercalate reasons)
    extractionMethod := if validated then .validatedModelOutput else .deterministic
    modelOutputSha256 := modelOutput.map fun output => d.textHash output.1.toList
    inputSha256 := d.packetHash packet
    promptSha256 := d.prompt
    schemaSha256 := d.schema
    configurationSha256 := d.configuration
    implementationSha256 := d.implementation }

end extraction

section citations

variable {u : Unicode} {d : Digests} {event : SourceEvent}

/-- A fact that cites one version of evidence, by the slice of its content that states it. -/
structure Cites (d : Digests) (item : SourceEvent) (fact : NumericFact) : Prop where
  evidence : fact.evidenceIds = [item.evidenceId d]
  span : ∃ span, fact.sourceOffsets = [span] ∧ span.evidenceId = item.evidenceId d ∧
    ((item.content.getD "").toList.drop span.start).take (span.end_ - span.start) = span.text
  ordered : fact.low ≤ fact.high

theorem factOf_cites {found : Regex.Found} {metric : Metric} {role : Role} {low high : Option (List Char)}
    {scale : List Char} {period : Option (List Char)} {basis : Option AccountingBasis} {fact : NumericFact}
    {r : Regex} (member : found ∈ Regex.finditer u.toAlphabet r (event.content.getD "").toList)
    (read : factOf u d event found metric role low high scale period basis = some fact) : Cites d event fact := by
  unfold factOf at read
  obtain ⟨lowText, -, read⟩ := Option.bind_eq_some_iff.mp read
  obtain ⟨lowest, -, read⟩ := Option.bind_eq_some_iff.mp read
  obtain ⟨highest, -, read⟩ := Option.bind_eq_some_iff.mp read
  obtain ⟨unitScale, -, read⟩ := Option.bind_eq_some_iff.mp read
  obtain ⟨_, ordered, read⟩ := Option.bind_eq_some_iff.mp read
  cases read
  refine ⟨rfl, ⟨_, rfl, rfl, Regex.finditer_slice member⟩, ?_⟩
  simpa [guard] using ordered

theorem mem_flatten_mapM {α β : Type} {f : α → Option (List β)} {l : List α} {parts : List (List β)} {b : β}
    (read : l.mapM f = some parts) (member : b ∈ parts.flatten) : ∃ a ∈ l, ∃ part, f a = some part ∧ b ∈ part := by
  induction l generalizing parts with
  | nil =>
    cases read
    cases member
  | cons a l ih =>
    rw [List.mapM_cons] at read
    obtain ⟨part, first, read⟩ := Option.bind_eq_some_iff.mp read
    obtain ⟨others, rest, read⟩ := Option.bind_eq_some_iff.mp read
    cases read
    rcases List.mem_append.mp member with here | later
    · exact ⟨a, List.mem_cons_self, part, first, here⟩
    · obtain ⟨a', there, found⟩ := ih rest later
      exact ⟨a', List.mem_cons_of_mem _ there, found⟩

/-- Every fact that is parsed cites the slice of the text it was parsed from. -/
theorem parseFacts_cites {facts : List NumericFact} (parsed : parseFacts u d event = some facts) :
    ∀ fact ∈ facts, Cites d event fact := by
  unfold parseFacts at parsed
  obtain ⟨guidance, guided, parsed⟩ := Option.bind_eq_some_iff.mp parsed
  obtain ⟨annual, reported, parsed⟩ := Option.bind_eq_some_iff.mp parsed
  obtain ⟨contracts, signed, parsed⟩ := Option.bind_eq_some_iff.mp parsed
  cases parsed
  intro fact member
  rcases List.mem_append.mp member with member | member
  · rcases List.mem_append.mp member with member | member
    · obtain ⟨found, on, part, read, inside⟩ := mem_flatten_mapM guided member
      unfold guidanceFacts at read
      obtain ⟨prior, first, read⟩ := Option.bind_eq_some_iff.mp read
      obtain ⟨new, second, read⟩ := Option.bind_eq_some_iff.mp read
      cases read
      rcases List.mem_cons.mp inside with rfl | inside
      · exact factOf_cites on first
      · obtain rfl := List.mem_singleton.mp inside
        exact factOf_cites on second
    · obtain ⟨found, on, part, read, inside⟩ := mem_flatten_mapM reported member
      unfold annualFacts at read
      obtain ⟨revenue, only, read⟩ := Option.bind_eq_some_iff.mp read
      cases read
      obtain rfl := List.mem_singleton.mp inside
      exact factOf_cites on only
  · obtain ⟨found, on, part, read, inside⟩ := mem_flatten_mapM signed member
    unfold contractFacts at read
    obtain ⟨value, first, read⟩ := Option.bind_eq_some_iff.mp read
    obtain ⟨months, second, read⟩ := Option.bind_eq_some_iff.mp read
    cases read
    rcases List.mem_cons.mp inside with rfl | inside
    · exact factOf_cites on first
    · obtain rfl := List.mem_singleton.mp inside
      exact factOf_cites on second

theorem readItem_cites {own : Bool} {item : SourceEvent} :
    ∀ fact ∈ (readItem u d event own item).2, Cites d item fact := by
  intro fact member
  unfold readItem at member
  split at member
  next => cases member
  next =>
    split at member
    next => cases member
    next =>
      dsimp only at member
      split at member
      next => cases member
      next parsed read =>
        refine parseFacts_cites read fact ?_
        dsimp only at member
        split at member
        next => exact member
        next => exact List.mem_of_mem_filter member

/-- Every fact of an extraction cites the event or evidence that was there before it. -/
theorem extractEvent_cites {now : Instant} {priorEvidence : List SourceEvent}
    {modelOutput : Option (String × Option ModelExtraction)} {result : ExtractionResult}
    (extracted : extractEvent u d event now priorEvidence modelOutput = .ok result) :
    ∀ fact ∈ result.facts, ∃ item ∈ event :: priorEvidence, Cites d item fact := by
  unfold extractEvent at extracted
  obtain ⟨guided, -, extracted⟩ := bind_ok_iff.mp extracted
  obtain ⟨contracted, -, extracted⟩ := bind_ok_iff.mp extracted
  cases extracted
  intro fact member
  rw [List.flatMap_cons] at member
  rcases List.mem_append.mp member with own | other
  · exact ⟨event, List.mem_cons_self, readItem_cites fact own⟩
  · obtain ⟨read, on, inside⟩ := List.mem_flatMap.mp other
    obtain ⟨item, before, rfl⟩ := List.mem_map.mp on
    exact ⟨item, List.mem_cons_of_mem _ (List.mem_of_mem_filter before), readItem_cites fact inside⟩

end citations

end TradeAgent.Research
