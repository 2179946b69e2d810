import TradeAgent.EventDecision

/-! What an eligible event rests on. Evidence that is not there yet plays no part, more evidence against an
event never makes it eligible, and what is eligible was read again from its source. -/
namespace TradeAgent.Research

variable {u : Unicode} {d : DecisionDigests} {x : DecisionInput}

section evidence

/-- Each version of evidence is there once. -/
def DecisionInput.Distinct (d : DecisionDigests) (x : DecisionInput) : Prop :=
  (x.evidence.map (SourceEvent.evidenceId d.toDigests)).Nodup

instance : Decidable (x.Distinct d) := inferInstanceAs (Decidable (List.Nodup _))

theorem get?_available (distinct : x.Distinct d) {id : String} {item : SourceEvent} :
    (x.available d.toDigests).get? id = some item ↔
      item ∈ x.evidence ∧ item.availableBy x.now ∧ item.evidenceId d.toDigests = id := by
  unfold DecisionInput.available
  set there := x.evidence.filter fun item => item.availableBy x.now with there_
  have keys : ((there.map fun item => (item.evidenceId d.toDigests, item)).map Prod.fst).Nodup := by
    rw [List.map_map]
    exact distinct.sublist (List.filter_sublist.map _)
  rw [Dict.get?_ofList keys]
  constructor
  · intro found
    obtain ⟨item', member, same⟩ := List.mem_map.mp (Dict.find_mem found)
    cases same
    obtain ⟨present, available⟩ := List.mem_filter.mp member
    exact ⟨present, available, rfl⟩
  · rintro ⟨present, available, rfl⟩
    exact Dict.find_of_mem keys (List.mem_map_of_mem (List.mem_filter.mpr ⟨present, available⟩))

theorem mem_available_values (distinct : x.Distinct d) {item : SourceEvent} :
    item ∈ (x.available d.toDigests).values ↔ item ∈ x.evidence ∧ item.availableBy x.now := by
  rw [Dict.mem_values]
  constructor
  · rintro ⟨id, found⟩
    obtain ⟨present, available, -⟩ := (get?_available distinct).mp found
    exact ⟨present, available⟩
  · rintro ⟨present, available⟩
    exact ⟨_, (get?_available distinct).mpr ⟨present, available, rfl⟩⟩

theorem mem_packet (distinct : x.Distinct d) {item : SourceEvent} (member : item ∈ x.packet d.toDigests) :
    item ∈ x.evidence ∧ item.availableBy x.now ∧ item.evidenceId d.toDigests ∈ x.extraction.evidenceIds := by
  obtain ⟨id, cited, found⟩ := List.mem_filterMap.mp member
  obtain ⟨present, available, rfl⟩ := (get?_available distinct).mp found
  exact ⟨present, available, cited⟩

/-- Evidence that is not there by now can be added, taken away or changed. -/
theorem decideEvent_unavailable {evidence : List SourceEvent}
    (same : evidence.filter (fun item => item.availableBy x.now) = x.evidence.filter fun item => item.availableBy x.now) :
    decideEvent u d { x with evidence } = decideEvent u d x := by
  have available : DecisionInput.available d.toDigests { x with evidence } = x.available d.toDigests := by
    unfold DecisionInput.available
    dsimp only
    rw [same]
  unfold decideEvent packetVetoes baselineVetoes baselineOf correctionVetoes sourceVetoes DecisionInput.event
    DecisionInput.packet
  rw [available]
  rfl

end evidence

section reading

/-- The extraction says of its event what reading it again says, and neither speaks against it. -/
structure Reread (u : Unicode) (d : Digests) (x : DecisionInput) (event : SourceEvent) (fresh : ExtractionResult) :
    Prop where
  found : x.event d = some event
  extracted : baselineOf u d x event = .ok fresh
  contradictions : fresh.contradictions = []
  missing : fresh.missingRequiredFields = []
  facts : x.extraction.facts = fresh.facts
  issuerId : x.extraction.issuerId = event.issuerId
  eventClusterId : x.extraction.eventClusterId = event.eventClusterId

theorem extractEvent_names {u : Unicode} {d : Digests} {event : SourceEvent} {now : Instant}
    {priorEvidence : List SourceEvent} {modelOutput : Option (String × Option ModelExtraction)}
    {result : ExtractionResult} (extracted : extractEvent u d event now priorEvidence modelOutput = .ok result) :
    result.issuerId = event.issuerId ∧ result.eventClusterId = event.eventClusterId := by
  unfold extractEvent at extracted
  obtain ⟨guided, -, extracted⟩ := bind_ok_iff.mp extracted
  obtain ⟨contracted, -, extracted⟩ := bind_ok_iff.mp extracted
  cases extracted
  exact ⟨rfl, rfl⟩

theorem baselineVetoes_eq_nil (clear : baselineVetoes u d.toDigests x = .ok []) :
    ∃ event fresh, Reread u d.toDigests x event fresh := by
  unfold baselineVetoes at clear
  split at clear
  next => cases clear
  next event found =>
    obtain ⟨fresh, extracted, clear⟩ := bind_ok_iff.mp clear
    have nothing := Except.ok.inj clear
    simp only [List.append_eq_nil_iff, veto_eq_nil, not_or, not_not] at nothing
    obtain ⟨⟨⟨facts, issuer, cluster, -⟩, contradictions⟩, missing⟩ := nothing
    obtain ⟨issuer', cluster'⟩ := extractEvent_names extracted
    exact ⟨event, fresh, found, extracted, contradictions, missing, facts, issuer.trans issuer',
      cluster.trans cluster'⟩

/-- Every fact of an extraction that was read again cites evidence that is there: the event or what is cited. -/
theorem Reread.cites (distinct : x.Distinct d) {event : SourceEvent} {fresh : ExtractionResult}
    (reread : Reread u d.toDigests x event fresh) :
    ∀ fact ∈ x.extraction.facts, ∃ id, fact.evidenceIds = [id] ∧
      (id = x.extraction.sourceEventId ∨ id ∈ x.extraction.evidenceIds) := by
  intro fact member
  rw [reread.facts] at member
  obtain ⟨item, among, cites⟩ := extractEvent_cites reread.extracted fact member
  refine ⟨_, cites.evidence, ?_⟩
  rcases List.mem_cons.mp among with rfl | cited
  · exact .inl ((get?_available distinct).mp reread.found).2.2
  · exact .inr (mem_packet distinct (List.mem_of_mem_filter cited)).2.2

end reading

section adding

/-- The same question, asked with other evidence, contradictions of the market, releases and seen clusters. -/
def DecisionInput.given (x : DecisionInput) (evidence : List SourceEvent) (contradictions : List String)
    (releases : List Instant) (seen : List String) : DecisionInput :=
  { x with
    evidence
    market := { x.market with contradictions, scheduledMacroEvents := releases }
    seenClusterIds := seen }

/-- More that may speak against an event: evidence under ids that the extraction does not name,
contradictions of the market, releases and seen clusters. -/
structure DecisionInput.Adds (d : DecisionDigests) (x : DecisionInput) (evidence : List SourceEvent)
    (contradictions : List String) (releases : List Instant) (seen : List String) : Prop where
  grows : x.evidence.Sublist evidence
  fresh : ∀ item ∈ evidence, item ∉ x.evidence →
    item.evidenceId d.toDigests ≠ x.extraction.sourceEventId ∧
      item.evidenceId d.toDigests ∉ x.extraction.evidenceIds
  distinct : (evidence.map (SourceEvent.evidenceId d.toDigests)).Nodup
  contradicts : x.market.contradictions ⊆ contradictions
  scheduled : x.market.scheduledMacroEvents ⊆ releases
  known : x.seenClusterIds ⊆ seen

variable {evidence : List SourceEvent} {contradictions : List String} {releases : List Instant} {seen : List String}

theorem DecisionInput.Adds.before (adds : x.Adds d evidence contradictions releases seen) : x.Distinct d :=
  adds.distinct.sublist (adds.grows.map _)

theorem DecisionInput.Adds.get? (adds : x.Adds d evidence contradictions releases seen) {id : String}
    (named : id = x.extraction.sourceEventId ∨ id ∈ x.extraction.evidenceIds) :
    ((x.given evidence contradictions releases seen).available d.toDigests).get? id =
      (x.available d.toDigests).get? id := by
  apply Option.ext
  intro item
  have after : (x.given evidence contradictions releases seen).Distinct d := adds.distinct
  rw [get?_available adds.before, get?_available after]
  constructor
  · rintro ⟨present, available, rfl⟩
    refine ⟨?_, available, rfl⟩
    by_contra new
    obtain ⟨notSource, notCited⟩ := adds.fresh item present new
    exact named.elim notSource notCited
  · rintro ⟨present, available, same⟩
    exact ⟨adds.grows.subset present, available, same⟩

theorem DecisionInput.Adds.packet (adds : x.Adds d evidence contradictions releases seen) :
    (x.given evidence contradictions releases seen).packet d.toDigests = x.packet d.toDigests :=
  List.filterMap_congr fun _ cited => adds.get? (.inr cited)

theorem DecisionInput.Adds.event (adds : x.Adds d evidence contradictions releases seen) :
    (x.given evidence contradictions releases seen).event d.toDigests = x.event d.toDigests :=
  adds.get? (.inl rfl)

/-- The judgement of a contract looks up one piece of evidence, the one its annual revenue cites. -/
theorem judge_congr {available available' : Dict String SourceEvent} {now : Instant} {policy : EventPolicy}
    {extraction : ExtractionResult}
    (same : ∀ fact ∈ extraction.facts, ∀ id ∈ fact.evidenceIds, available.get? id = available'.get? id) :
    judge available now policy extraction = judge available' now policy extraction := by
  unfold judge
  split
  next => rfl
  next =>
    unfold judgeContract
    dsimp only
    split
    next contract duration revenue _ _ only =>
      have member : revenue ∈ extraction.facts :=
        List.mem_of_mem_filter (only ▸ List.mem_singleton_self revenue)
      split
      next => rfl
      next =>
        split
        next => rfl
        next id rest cited =>
          rw [same revenue member id (cited ▸ List.mem_cons_self)]
    next => rfl
  next => rfl

theorem correctionVetoes_eq_nil (distinct : x.Distinct d) :
    correctionVetoes d.toDigests x = [] ↔ ∀ item ∈ x.evidence, item.availableBy x.now →
      item.issuerId = x.extraction.issuerId →
      (item.eventClusterId = x.extraction.eventClusterId ∨
        ∃ revised ∈ item.revisionOf, revised ∈ x.extraction.evidenceIds) → ¬item.Corrects := by
  unfold correctionVetoes
  rw [List.flatMap_eq_nil_iff]
  constructor
  · intro nothing item present available issuer related corrects
    have here := nothing item ((mem_available_values distinct).mpr ⟨present, available⟩)
    exact veto_eq_nil.mp here ⟨issuer, related, corrects⟩
  · intro none_ item member
    obtain ⟨present, available⟩ := (mem_available_values distinct).mp member
    rw [veto_eq_nil]
    rintro ⟨issuer, related, corrects⟩
    exact none_ item present available issuer related corrects

/-- What speaks against the event with less speaks against it with more. -/
theorem Clear.less (adds : x.Adds d evidence contradictions releases seen)
    (clear : Clear u d (x.given evidence contradictions releases seen)) : Clear u d x := by
  have after : (x.given evidence contradictions releases seen).Distinct d := adds.distinct
  have baseline : baselineVetoes u d.toDigests x = .ok [] := by
    have same := clear.baseline
    unfold baselineVetoes baselineOf at same ⊢
    rw [adds.event, adds.packet] at same
    exact same
  obtain ⟨event, fresh, reread⟩ := baselineVetoes_eq_nil baseline
  obtain ⟨judged, hypothesis, nothing⟩ := clear.hypothesis
  constructor
  case contradictions => exact clear.contradictions
  case missing => exact clear.missing
  case packet =>
    have same := clear.packet
    unfold packetVetoes at same ⊢
    rw [adds.packet] at same
    exact same
  case baseline => exact baseline
  case corrections =>
    have none_ := (correctionVetoes_eq_nil after).mp clear.corrections
    exact (correctionVetoes_eq_nil adds.before).mpr fun item present => none_ item (adds.grows.subset present)
  case unseen => exact fun known => clear.unseen (adds.known known)
  case issuer => exact clear.issuer
  case source =>
    have same := clear.source
    unfold sourceVetoes at same ⊢
    rw [adds.event] at same
    exact same
  case health => exact clear.health
  case consistent => exact List.subset_nil.mp (clear.consistent ▸ adds.contradicts)
  case calendar => exact clear.calendar
  case releases =>
    have none_ := clear.releases
    unfold releaseVetoes at none_ ⊢
    rw [veto_eq_nil] at none_ ⊢
    exact fun ⟨release, scheduled, inside⟩ => none_ ⟨release, adds.scheduled scheduled, inside⟩
  case session => exact clear.session
  case observation => exact clear.observation
  case quote =>
    have same := clear.quote
    rw [adds.event] at same
    exact same
  case hypothesis =>
    refine ⟨judged, ?_, nothing⟩
    rw [← hypothesis]
    refine judge_congr fun fact member id cited => ?_
    obtain ⟨only, cites, named⟩ := reread.cites adds.before fact member
    rw [cites] at cited
    obtain rfl := List.mem_singleton.mp cited
    exact (adds.get? named).symm

end adding

section soundness

/-- No evidence there is by now of the event's issuer corrects, retracts or revises what belongs to the event's
cluster, the event itself or what is cited beside it. -/
def NoKnownCorrection (d : DecisionDigests) (x : DecisionInput) (event : SourceEvent) : Prop :=
  ∀ item ∈ x.evidence, item.availableBy x.now → item.issuerId = event.issuerId →
    (item.eventClusterId = event.eventClusterId ∨ ∃ revised ∈ item.revisionOf,
      revised = event.evidenceId d.toDigests ∨ revised ∈ x.extraction.evidenceIds) → ¬item.Corrects

/-- The extraction cites its own source, or else every revision of that source is in the cluster. -/
def DecisionInput.Traceable (x : DecisionInput) : Prop :=
  x.extraction.sourceEventId ∈ x.extraction.evidenceIds ∨
    ∀ item ∈ x.evidence, item.availableBy x.now → item.issuerId = x.extraction.issuerId →
      item.revisionOf = some x.extraction.sourceEventId → item.eventClusterId = x.extraction.eventClusterId

/-- What is cited is there, piece by piece. -/
theorem packet_complete (distinct : x.Distinct d) (clear : packetVetoes d.toDigests x = []) :
    (x.packet d.toDigests).map (SourceEvent.evidenceId d.toDigests) = x.extraction.evidenceIds := by
  unfold packetVetoes DecisionInput.packet at clear
  rw [List.append_eq_nil_iff, veto_eq_nil, not_or, not_not] at clear
  obtain ⟨⟨whole, -⟩, -⟩ := clear
  unfold DecisionInput.packet
  generalize x.extraction.evidenceIds = cited at whole ⊢
  induction cited with
  | nil => rfl
  | cons id rest ih =>
    cases found : (x.available d.toDigests).get? id with
    | none =>
      rw [List.filterMap_cons_none found] at whole
      exact absurd (whole ▸ List.length_filterMap_le _ rest) (Nat.not_succ_le_self _)
    | some item =>
      rw [List.filterMap_cons_some found] at whole ⊢
      rw [List.map_cons, ih (Nat.succ.inj whole), ((get?_available distinct).mp found).2.2]

theorem Reread.noKnownCorrection_iff (distinct : x.Distinct d) (clear : correctionVetoes d.toDigests x = [])
    {event : SourceEvent} {fresh : ExtractionResult} (reread : Reread u d.toDigests x event fresh) :
    NoKnownCorrection d x event ↔ x.Traceable := by
  have none_ := (correctionVetoes_eq_nil distinct).mp clear
  have source : event.evidenceId d.toDigests = x.extraction.sourceEventId :=
    ((get?_available distinct).mp reread.found).2.2
  unfold NoKnownCorrection
  rw [source, ← reread.issuerId, ← reread.eventClusterId]
  constructor
  · intro nothing
    refine .inr fun item present available issuer revises => ?_
    have corrects : item.Corrects := .inr (.inr (by rw [revises]; exact Option.some_ne_none _))
    exact absurd corrects (nothing item present available issuer (.inr ⟨_, revises, .inl rfl⟩))
  · intro traceable item present available issuer related corrects
    refine none_ item present available issuer ?_ corrects
    rcases related with cluster | ⟨revised, revises, rfl | cited⟩
    · exact .inl cluster
    · rcases traceable with cited | inside
      · exact .inr ⟨_, revises, cited⟩
      · exact .inl (inside item present available issuer revises)
    · exact .inr ⟨revised, revises, cited⟩

/-- What is not there yet changes nothing, and what is added never makes an event eligible. An eligible event is
there, and reading it again with what is cited gives the same facts and nothing against them; and it is
free of known corrections exactly when the extraction is traceable to its source. -/
theorem eligible_sound_iff (u : Unicode) (d : DecisionDigests) :
    (∀ (x : DecisionInput) (evidence : List SourceEvent),
      evidence.filter (fun item => item.availableBy x.now) = x.evidence.filter (fun item => item.availableBy x.now) →
      decideEvent u d { x with evidence } = decideEvent u d x) ∧
    (∀ (x : DecisionInput) (evidence : List SourceEvent) (contradictions : List String) (releases : List Instant)
      (seen : List String), x.Adds d evidence contradictions releases seen →
      Eligible u d (x.given evidence contradictions releases seen) → Eligible u d x) ∧
    ∀ x : DecisionInput, x.Distinct d → Eligible u d x → ∃ event ∈ x.evidence, event.availableBy x.now ∧
      event.evidenceId d.toDigests = x.extraction.sourceEventId ∧
      (x.packet d.toDigests).map (SourceEvent.evidenceId d.toDigests) = x.extraction.evidenceIds ∧
      (∃ fresh, extractEvent u d.toDigests event x.extraction.completedAt ((x.packet d.toDigests).filter fun item =>
          item.evidenceId d.toDigests ≠ event.evidenceId d.toDigests) = .ok fresh ∧
        fresh.contradictions = [] ∧ fresh.missingRequiredFields = [] ∧ fresh.facts = x.extraction.facts) ∧
      (NoKnownCorrection d x event ↔ x.Traceable) := by
  refine ⟨fun x evidence same => decideEvent_unavailable same, ?_, ?_⟩
  · intro x evidence contradictions releases seen adds eligible
    exact eligible_iff_clear.mpr (.less adds (eligible_iff_clear.mp eligible))
  · intro x distinct eligible
    have clear := eligible_iff_clear.mp eligible
    obtain ⟨event, fresh, reread⟩ := baselineVetoes_eq_nil clear.baseline
    obtain ⟨present, available, source⟩ := (get?_available distinct).mp reread.found
    exact ⟨event, present, available, source, packet_complete distinct clear.packet,
      ⟨fresh, reread.extracted, reread.contradictions, reread.missing, reread.facts.symm⟩,
      reread.noKnownCorrection_iff distinct clear.corrections⟩

end soundness

section examples_

/-- The part of Unicode that is ASCII. -/
def asciiText : Unicode where
  decimal c := if c.isDigit then some (c.toNat - '0'.toNat) else none
  space := Char.isWhitespace
  word c := c.isAlphanum || c = '_'
  alike expected c := expected.toLower = c.toLower
  lower text := text.map Char.toLower
  upper text := text.map Char.toUpper
  nfkc := id

/-- Digests that name evidence by its source's id. -/
def namingDigests : DecisionDigests where
  textHash := String.ofList
  evidenceId names := names.2.1
  packetHash packet := ";".intercalate (packet.map SourceEvent.sourceEventId)
  prompt := "prompt"
  schema := "schema"
  configuration := "configuration"
  implementation := "implementation"
  extractionHash extraction := extraction.sourceEventId
  policyHash _ := "policy"
  decisionId values := values.1

def arrival : Instant := 1788876000 * second

def outlookText : String :=
  "For fiscal 2027, GAAP revenue guidance increased from USD 100 million to USD 110 million."

/-- An issuer's outlook, as it is received. -/
def outlook : SourceEvent where
  sourceEventId := "outlook"
  source := "issuer"
  sourceUrl := "https://www.apple.com/newsroom/2026/09/outlook/"
  sourceVersion := "1"
  publishedAt := some (arrival - second)
  firstReceivedAt := arrival
  contentAvailableAt := arrival
  content := some outlookText
  contentSha256 := outlookText
  eventClusterId := "cluster-1"
  issuerId := some "sec:0000320193"
  cik := some "0000320193"
  mappingAvailableAt := some (1788731520 * second)
  isPrimarySource := true
  rightsProfile := "fixture"

/-- A correction of it that is filed under a cluster of its own. -/
def outlookCorrection : SourceEvent :=
  { outlook with
    sourceEventId := "correction"
    eventClusterId := "cluster-2"
    revisionOf := some "outlook"
    isCorrection := true }

def outlookExtraction : ExtractionResult where
  sourceEventId := "outlook"
  eventClusterId := "cluster-1"
  issuerId := some "sec:0000320193"
  eventType := .earningsAndGuidance
  facts := (parseFacts asciiText namingDigests.toDigests outlook).getD []
  evidenceIds := ["outlook"]
  availableAt := arrival
  completedAt := arrival + second
  contradictions := []
  missingRequiredFields := []
  reasonForAbstention := none
  extractionMethod := .deterministic
  modelOutputSha256 := none
  inputSha256 := "outlook"
  promptSha256 := "prompt"
  schemaSha256 := "schema"
  configurationSha256 := "configuration"
  implementationSha256 := "implementation"

def outlookInput : DecisionInput where
  extraction := outlookExtraction
  evidence := [outlook]
  now := arrival + 5 * minute + 3 * second
  quote := some {
    symbol := "AAPL"
    bid := 10009 / 100
    ask := 10011 / 100
    bidSize := some 100
    askSize := some 100
    timestamp := arrival + 5 * minute + 3 * second
    receivedAt := arrival + 5 * minute + 3 * second
    feed := .sip
    sizeUnit := .shares
    bidPositive := by norm_num
    askPositive := by norm_num }
  market := {
    symbol := some "AAPL"
    sessionOpen := some (arrival - 30 * minute)
    sessionClose := some (arrival + 360 * minute)
    observationStart := some arrival
    observationEnd := some (arrival + 5 * minute)
    observationAvailableAt := some (arrival + 5 * minute)
    preEventPrice := some 100
    preEventVolatilityFraction := some (1 / 100)
    preEventAvailableAt := some (arrival - 5 * minute)
    halted := some false
    feedHealthy := some true
    macroCalendarAvailableAt := some (arrival - day)
    macroCalendarCoversUntil := some (arrival + day) }
  eligibility := some {
    symbol := "AAPL"
    issuerId := "sec:0000320193"
    cik := "0000320193"
    availableAt := arrival - day
    validFrom := arrival - day
    securityType := .commonStock
    exchangeListed := some true
    tradable := some true
    fractionable := some true
    medianDailyDollarVolume := some 1000000000
    liquidityAvailableAt := some (arrival - day)
    liquidityCompletedSessions := some 20 }

theorem eligible_of_action {u : Unicode} {d : DecisionDigests} {x : DecisionInput}
    (decided : ((decideEvent u d x).toOption.map EventDecision.action) = some .eligible) : Eligible u d x := by
  cases result : decideEvent u d x with
  | error raised =>
    rw [result] at decided
    cases decided
  | ok decision =>
    rw [result] at decided
    exact ⟨decision, result, Option.some.inj decided⟩

/-- The outlook is eligible, and known corrections of it are ruled out. -/
theorem outlook_eligible : Eligible asciiText namingDigests outlookInput ∧
    ∃ event ∈ outlookInput.evidence, NoKnownCorrection namingDigests outlookInput event := by
  have eligible : Eligible asciiText namingDigests outlookInput := eligible_of_action (by decide +kernel)
  obtain ⟨event, present, -, -, -, -, exact_⟩ :=
    (eligible_sound_iff asciiText namingDigests).2.2 outlookInput (by decide) eligible
  exact ⟨eligible, event, present, exact_.mpr (.inl (by decide))⟩

/-- The same question with an extraction that cites nothing, and with the correction at hand. -/
def forgedInput : DecisionInput :=
  { outlookInput with
    extraction := { outlookExtraction with evidenceIds := [], inputSha256 := "" }
    evidence := [outlook, outlookCorrection] }

/-- It is eligible although a correction of its source is known. -/
theorem forged_eligible : forgedInput.Distinct namingDigests ∧ Eligible asciiText namingDigests forgedInput ∧
    outlook.evidenceId namingDigests.toDigests = forgedInput.extraction.sourceEventId ∧
    ¬NoKnownCorrection namingDigests forgedInput outlook := by
  refine ⟨by decide, eligible_of_action (by decide +kernel), rfl, ?_⟩
  intro nothing
  exact nothing outlookCorrection (by decide) (by decide) rfl (.inr ⟨"outlook", rfl, .inl rfl⟩) (by decide)

end examples_

end TradeAgent.Research
