import TradeAgent.Library.History
import TradeAgent.LiveShadowEvidence

/-! Whole lives of a processor: what a stream received, batch after batch, and the stop. Its decisions are on the frames
of the bars, and nothing of one epoch is measured by another. -/
namespace TradeAgent.LiveShadow

open Portfolio Rounding

variable {σ : Type}

/-- A life up to some batch, or to the stop after it. -/
def Processor.life (setup : Setup σ) (batches : List (List Shadow.ReceivedStreamEvent)) (stoppedAt : Option Instant) :
    Processor σ :=
  let p := Machine.run (Processor.onRecordedBatch setup) (.start setup) batches
  match stoppedAt with
  | none => p
  | some at_ => p.finishRecordedBatches setup at_

def barOf (receipt : Shadow.ReceivedStreamEvent) : Option MarketBar :=
  match receipt.event with
  | .bar bar => some bar
  | .quote _ | .trade _ => none

/-- The builder's part of a life. -/
def sessionOf (symbols : Symbols) (bars : List MarketBar) : Session := Machine.run (Session.step symbols) {} bars

def Record.resets : Record → Bool
  | .frameUnusable .. => true
  | .decision _ | .decay _ | .outcome _ | .quotesUnusable .. => false

def resetsIn (log : List Record) : ℕ := log.countP Record.resets

/-- Every decision is of the epoch that the unusable frames before it lead to, complete only if there were none. -/
def Numbered (log : List Record) : Prop := History.Each (fun before record => ∀ d ∈ record.decision?,
  d.evidenceEpoch = resetsIn before ∧ d.cumulativeEvidenceComplete = decide (resetsIn before = 0)) log

/-- A processor beside a session of its builder. The last decision of the epoch is at the edge. -/
structure Linked (setup : Setup σ) (s : Session) (edge : Option Instant) (p : Processor σ) : Prop where
  evident : Evident setup p
  builder : p.builder = s.builder
  frames : (p.log.filterMap Record.decision?).map Decision.frame = s.frames
  edge : ∀ d ∈ (decisionsOf p.evidenceEpoch p.log).getLast?, edge = some d.frame.timestamp
  epoch : p.evidenceEpoch = resetsIn p.log
  complete : p.evidenceComplete = decide (resetsIn p.log = 0)
  numbered : Numbered p.log

variable {setup : Setup σ} {s : Session} {edge : Option Instant} {p q : Processor σ} {log more : List Record}
  {d : Decision} {frame : UniverseFrame}

theorem resetsIn_append : resetsIn (log ++ more) = resetsIn log + resetsIn more := List.countP_append

theorem Numbered.silent (h : Numbered log) (none_ : more.filterMap Record.decision? = []) : Numbered (log ++ more) := by
  apply h.append
  apply History.Extends.of_forall
  intro record member before d decided
  rw [List.filterMap_eq_nil_iff.mp none_ record member] at decided
  cases decided

/-! ## What the builder reports -/

/-- What is left alone, and what the log gets, where nothing is decided and nothing earned. -/
structure Quiet (p q : Processor σ) (more : List Record) : Prop where
  log : q.log = p.log ++ more
  decisions : more.filterMap Record.decision? = []
  epoch : q.evidenceEpoch = p.evidenceEpoch + resetsIn more
  complete : q.evidenceComplete = (p.evidenceComplete && decide (resetsIn more = 0))

theorem Quiet.decisionsOf (h : Quiet p q more) (epoch : ℕ) : decisionsOf epoch q.log = decisionsOf epoch p.log := by
  rw [h.log, decisionsOf_append, LiveShadow.decisionsOf, LiveShadow.decisionsOf, h.decisions, List.filter_nil,
    List.append_nil]

theorem Linked.quiet (h : Linked setup s edge p) (quiet : Quiet p q more) (evident : Evident setup q)
    {edge' : Option Instant} (kept : resetsIn more = 0 → ∀ at_, edge = some at_ → edge' = some at_) :
    Linked setup ⟨q.builder, s.frames⟩ edge' q := by
  refine ⟨evident, rfl, ?_, ?_, ?_, ?_, ?_⟩
  · rw [quiet.log, List.filterMap_append, quiet.decisions, List.append_nil]
    exact h.frames
  · intro d last
    rw [quiet.decisionsOf] at last
    by_cases reset : resetsIn more = 0
    · rw [quiet.epoch, reset] at last
      exact kept reset _ (h.edge d last)
    · have none_ : decisionsOf q.evidenceEpoch p.log = [] := by
        refine (h.evident.ahead ?_).1
        rw [quiet.epoch]
        omega
      rw [none_] at last
      cases last
  · rw [quiet.epoch, quiet.log, resetsIn_append, h.epoch]
  · rw [quiet.complete, quiet.log, resetsIn_append, h.complete, ← Bool.decide_and]
    exact decide_eq_decide.mpr Nat.add_eq_zero_iff.symm
  · rw [quiet.log]
    exact h.numbered.silent quiet.decisions

/-- The callbacks of the reports: an epoch each. -/
theorem foldl_unusable (h : Evident setup p) (fresh : List Issue) :
    ∃ more, Quiet p (fresh.foldl (Processor.onUnusableFrame setup) p) more ∧ resetsIn more = fresh.length ∧
      Evident setup (fresh.foldl (Processor.onUnusableFrame setup) p) ∧
      (fresh.foldl (Processor.onUnusableFrame setup) p).builder = p.builder := by
  induction fresh using List.reverseRecOn with
  | nil => exact ⟨[], ⟨by simp, rfl, rfl, by simp [resetsIn]⟩, rfl, h, rfl⟩
  | append_singleton init issue ih =>
    obtain ⟨more, quiet, counted, evident, builder⟩ := ih
    rw [List.foldl_append, List.foldl_cons, List.foldl_nil]
    generalize init.foldl (Processor.onUnusableFrame setup) p = q at *
    refine ⟨more ++ [.frameUnusable issue (q.evidenceEpoch + 1)], ⟨?_, ?_, ?_, ?_⟩, ?_, evident.reset issue, builder⟩
    · rw [← List.append_assoc, ← quiet.log]
      rfl
    · rw [List.filterMap_append, quiet.decisions]
      rfl
    · rw [resetsIn_append, ← Nat.add_assoc, ← quiet.epoch]
      rfl
    · rw [resetsIn_append]
      simp [Processor.onUnusableFrame, resetsIn, Record.resets]
    · rw [resetsIn_append, counted, List.length_append]
      rfl

/-- The reports of the builder, and what they begin anew. -/
theorem adopt_quiet (h : Evident setup p) {builder : Builder} {fresh : List Issue}
    (reported : builder.issues = p.builder.issues ++ fresh) :
    ∃ more, Quiet p (p.adopt setup builder) more ∧ resetsIn more = fresh.length ∧
      Evident setup (p.adopt setup builder) ∧ (p.adopt setup builder).builder = builder := by
  have dropped : builder.issues.drop p.builder.issues.length = fresh := by
    rw [reported, List.drop_left]
  unfold Processor.adopt
  rw [dropped]
  obtain ⟨more, quiet, counted, evident, same⟩ := foldl_unusable
    (h.aside builder p.strategy p.latestQuoteAt p.ignoredQuotes p.rejections) fresh
  exact ⟨more, ⟨quiet.log, quiet.decisions, quiet.epoch, quiet.complete⟩, counted, evident, same⟩

/-! ## One bar -/

theorem Linked.onFrame (h : Linked setup s edge p) (columns : frame.bars.map MarketBar.symbol = setup.symbols.names)
    (next : ∀ at_, edge = some at_ → frame.timestamp = at_ + fiveMinutes) :
    Linked setup ⟨s.builder, s.frames ++ [frame]⟩ (some frame.timestamp) (p.onFrame setup frame) := by
  have evident := h.evident.onFrame columns fun d last => next _ (h.edge d last)
  obtain ⟨d, framed⟩ := onFrame_framed setup p frame
  have decisions := framed.appended.decisions
  generalize p.onFrame setup frame = q at *
  have log := framed.log
  generalize made : ((p.signals.map Processor.advance).filterMap
    (Processor.decayOf p.evidenceEpoch frame)).map Record.decay = decays at log
  have silent : (decays ++ (p.priorOutcome setup frame).toList.map Record.outcome).filterMap Record.decision? = [] ∧
      resetsIn (decays ++ (p.priorOutcome setup frame).toList.map Record.outcome) = 0 := by
    rw [← made]
    constructor
    · simp [Record.decision?]
    · simp [resetsIn, Record.resets]
  rw [← List.append_assoc decays, ← List.append_assoc] at log
  have counted : resetsIn q.log = resetsIn p.log := by
    rw [log, resetsIn_append, resetsIn_append, silent.2]
    rfl
  refine ⟨evident, framed.builder.trans h.builder, ?_, ?_, ?_, ?_, ?_⟩
  · rw [log, List.filterMap_append, List.filterMap_append, silent.1, List.append_nil, List.map_append, h.frames]
    exact congrArg (s.frames ++ [·]) framed.shown
  · intro last member
    rw [framed.epoch, decisions, if_pos rfl, List.getLast?_concat] at member
    cases member
    rw [framed.shown]
  · rw [framed.epoch, counted, h.epoch]
  · rw [framed.complete, counted, h.complete]
  · rw [log]
    apply History.Each.snoc (h.numbered.silent silent.1)
    rintro _ ⟨⟩
    rw [resetsIn_append, silent.2, Nat.add_zero, framed.decided, framed.marked]
    exact ⟨h.epoch, h.complete⟩

theorem sessionOf_snoc (symbols : Symbols) (bars : List MarketBar) (bar : MarketBar) :
    sessionOf symbols (bars ++ [bar]) = (sessionOf symbols bars).step symbols bar := Machine.run_append _ _ _ _

theorem session_tracks (symbols : Symbols) (bars : List MarketBar) :
    Tracks symbols [] (relevant symbols bars) (sessionOf symbols bars) := run_tracks symbols {} 0 bars

theorem session_grid (symbols : Symbols) (bars : List MarketBar) :
    ∀ opened ∈ (sessionOf symbols bars).builder.bucket, opened % fiveMinutes = 0 := by
  intro opened member
  have newest := (session_tracks symbols bars).newest
  rw [Option.mem_def.mp member] at newest
  obtain ⟨⟨x, -, rfl⟩, -⟩ := newest
  exact bucketOf_start x.timestamp

theorem Linked.onBar {bars : List MarketBar} (bar : MarketBar)
    (h : Linked setup (sessionOf setup.symbols bars) (sessionOf setup.symbols bars).builder.edge p) :
    Linked setup (sessionOf setup.symbols (bars ++ [bar])) (sessionOf setup.symbols (bars ++ [bar])).builder.edge
      (p.onBar setup bar) := by
  have edged := add_edge setup.symbols _ bar (session_grid setup.symbols bars)
  have shown := (session_tracks setup.symbols (bars ++ [bar])).frames
  have same := h.builder
  rw [sessionOf_snoc] at *
  generalize sessionOf setup.symbols bars = s at *
  unfold Processor.onBar
  unfold Session.step at *
  rw [same]
  generalize s.builder.add setup.symbols bar = added at *
  obtain ⟨builder, result⟩ := added
  dsimp only at *
  obtain ⟨fresh, reported⟩ := edged.reported
  obtain ⟨more, quiet, counted, evident, now⟩ := adopt_quiet h.evident (same ▸ reported)
  have unchanged : resetsIn more = 0 → builder.issues = s.builder.issues := by
    intro none_
    rw [counted, List.length_eq_zero_iff] at none_
    rw [reported, none_, List.append_nil]
  generalize p.adopt setup builder = q at *
  subst now
  have idle : (∀ frame, result ≠ .ok (some frame)) → Linked setup ⟨q.builder, s.frames⟩ q.builder.edge q :=
    fun none_ => h.quiet quiet evident fun reset at_ held => edged.kept none_ (unchanged reset) at_ held
  cases result with
  | error fault =>
    simpa [Except.toOption] using idle (by simp)
  | ok made =>
    cases made with
    | none => simpa [Except.toOption] using idle (by simp)
    | some frame =>
      obtain ⟨at_, follows⟩ := edged.made frame rfl
      have linked : Linked setup ⟨q.builder, s.frames⟩ (some (frame.timestamp - fiveMinutes)) q := by
        refine h.quiet quiet evident fun reset at_ held => ?_
        rw [follows (unchanged reset) at_ held]
        simp
      obtain ⟨-, -, -, -, -, columns, -⟩ := (shown frame).mp (by simp [Except.toOption])
      change Linked setup ⟨q.builder, s.frames ++ [frame]⟩ q.builder.edge _
      rw [at_]
      apply linked.onFrame columns
      rintro _ ⟨⟩
      simp

/-! ## A life -/

/-- A processor that has seen some bars. -/
abbrev Follows (setup : Setup σ) (bars : List MarketBar) (p : Processor σ) : Prop :=
  Linked setup (sessionOf setup.symbols bars) (sessionOf setup.symbols bars).builder.edge p

theorem Linked.aside (h : Linked setup s edge p) (strategy : σ) (latestQuoteAt : Dict String Instant)
    (ignoredQuotes : ℕ) (rejections : List Rejection) :
    Linked setup s edge { p with strategy, latestQuoteAt, ignoredQuotes, rejections } :=
  ⟨h.evident.aside p.builder strategy latestQuoteAt ignoredQuotes rejections, h.builder, h.frames, h.edge, h.epoch,
    h.complete, h.numbered⟩

theorem Linked.onQuote (h : Linked setup s edge p) (quote : Shadow.MarketQuote) :
    Linked setup s edge (p.onQuote setup quote) := by
  unfold Processor.onQuote
  split
  next prior found =>
    split
    next => exact h.aside _ _ _ _
    next => exact h.aside _ _ _ _
  next => exact h.aside _ _ _ _

theorem Linked.tellQuotes (h : Linked setup s edge p) (rejections : List Rejection) (at_ : Instant) :
    Linked setup s edge { p with log := p.log ++ [.quotesUnusable rejections at_] } := by
  have quiet : Quiet p { p with log := p.log ++ [.quotesUnusable rejections at_] } [.quotesUnusable rejections at_] :=
    ⟨rfl, rfl, rfl, (Bool.and_true _).symm⟩
  have linked := h.quiet quiet (h.evident.tell _ rfl) fun _ _ same => same
  have same : (⟨p.builder, s.frames⟩ : Session) = s := by rw [h.builder]
  change Linked setup ⟨p.builder, s.frames⟩ edge _ at linked
  rwa [same] at linked

variable {bars : List MarketBar} (receipts : List Shadow.ReceivedStreamEvent)

theorem Linked.onReceipt (h : Follows setup bars p) (receipt : Shadow.ReceivedStreamEvent) :
    Follows setup (bars ++ (barOf receipt).toList) (p.onReceipt setup receipt) := by
  unfold Processor.onReceipt barOf
  cases receipt.event with
  | bar bar => exact h.onBar bar
  | quote quote =>
    rw [Option.toList_none, List.append_nil]
    exact Linked.onQuote h quote
  | trade trade =>
    rw [Option.toList_none, List.append_nil]
    exact h

theorem Linked.onReceipts (h : Follows setup bars p) :
    Follows setup (bars ++ receipts.filterMap barOf) (receipts.foldl (Processor.onReceipt setup) p) := by
  induction receipts generalizing bars p with
  | nil => simpa using h
  | cons receipt rest ih =>
    have step := ih (Linked.onReceipt h receipt)
    rw [List.append_assoc] at step
    rw [List.foldl_cons, List.filterMap_cons]
    cases read : barOf receipt <;> simpa [read] using step

theorem Linked.onRecordedBatch (h : Follows setup bars p) :
    Follows setup (bars ++ receipts.filterMap barOf) (p.onRecordedBatch setup receipts) := by
  have heard := Linked.onReceipts receipts (Linked.aside h p.strategy p.latestQuoteAt p.ignoredQuotes [])
  unfold Processor.onRecordedBatch
  simp only
  split
  next => exact heard.aside _ _ _ _
  next => exact heard.aside _ _ _ _
  next => exact (heard.tellQuotes _ _).aside _ _ _ _

theorem run_follows (setup : Setup σ) (batches : List (List Shadow.ReceivedStreamEvent)) :
    Follows setup (batches.flatten.filterMap barOf)
      (Machine.run (Processor.onRecordedBatch setup) (.start setup) batches) := by
  induction batches using List.reverseRecOn with
  | nil =>
    refine ⟨.start setup, rfl, rfl, ?_, rfl, rfl, ?_⟩
    · rintro d ⟨⟩
    · exact History.Each.nil
  | append_singleton init batch ih =>
    rw [Machine.run_append, Machine.run_cons, Machine.run_nil, List.flatten_append, List.filterMap_append]
    have step := Linked.onRecordedBatch batch ih
    simpa using step

theorem finish_reported (symbols : Symbols) (b : Builder) (at_ : Instant) :
    ∃ fresh, (b.finish symbols at_).issues = b.issues ++ fresh := by
  unfold Builder.finish
  split
  next =>
    split
    · exact ⟨[], by simp⟩
    · exact ⟨_, rfl⟩
  next => exact ⟨[], by simp⟩

theorem life_linked (setup : Setup σ) (batches : List (List Shadow.ReceivedStreamEvent)) (stoppedAt : Option Instant) :
    ∃ builder edge, Linked setup ⟨builder, (sessionOf setup.symbols (batches.flatten.filterMap barOf)).frames⟩ edge
      (.life setup batches stoppedAt) := by
  have run := run_follows setup batches
  unfold Processor.life
  generalize Machine.run (Processor.onRecordedBatch setup) (.start setup) batches = p at *
  cases stoppedAt with
  | none => exact ⟨_, _, run⟩
  | some at_ =>
    obtain ⟨fresh, reported⟩ := finish_reported setup.symbols p.builder at_
    obtain ⟨more, quiet, -, evident, -⟩ := adopt_quiet run.evident reported
    exact ⟨_, _, run.quiet quiet evident fun _ _ same => same⟩

/-! ## What a decay measures -/

/-- A decay is of a symbol that one decision took up, from its frame to that of a later one. -/
structure Measured (prior : Dict String ℚ) (opening closing : Decision) (frames : ℕ) (r : Decay) : Prop where
  horizon : r.horizonFrames = frames
  listed : frames ∈ [1, 3, 6]
  entered : Processor.Entered prior opening.targets r.symbol
  signalAt : r.signalAt = opening.frame.timestamp
  observedAt : r.observedAt = closing.frame.timestamp
  elapsed : closing.frame.timestamp = opening.frame.timestamp + frames * fiveMinutes
  gross : ∃ entry ∈ opening.frame.bars, ∃ current ∈ closing.frame.bars, entry.symbol = r.symbol ∧
    current.symbol = r.symbol ∧
    r.grossReturnBps = context (context (context (current.close / entry.close) - 1) * 10000)

theorem closeOf_iff {symbol : String} {price : ℚ} :
    Processor.closeOf frame symbol = some price ↔ ∃ bar ∈ frame.bars, bar.symbol = symbol ∧ bar.close = price := by
  unfold Processor.closeOf
  constructor
  · intro found
    obtain ⟨bar, search, rfl⟩ := Option.map_eq_some_iff.mp found
    exact ⟨bar, List.mem_of_find?_eq_some search, of_decide_eq_true (List.find?_some search :), rfl⟩
  · rintro ⟨bar, member, rfl, rfl⟩
    cases search : frame.bars.find? fun other => other.symbol = bar.symbol with
    | none => exact absurd (decide_eq_true rfl) (List.find?_eq_none.mp search bar member)
    | some other =>
      have same := List.inj_on_of_nodup_map frame.distinct (List.mem_of_find?_eq_some search) member
        (of_decide_eq_true (List.find?_some search :))
      rw [same]
      rfl

theorem mem_entries {prior next : Dict String ℚ} {g : Signal} : g ∈ Processor.entries prior next frame ↔
    Processor.Entered prior next g.symbol ∧ g.signalAt = frame.timestamp ∧ g.elapsedFrames = 0 ∧
      ∃ bar ∈ frame.bars, bar.symbol = g.symbol ∧ bar.close = g.referencePrice := by
  unfold Processor.entries
  rw [List.mem_map]
  constructor
  · rintro ⟨bar, member, rfl⟩
    obtain ⟨listed, entered⟩ := List.mem_filter.mp member
    exact ⟨of_decide_eq_true entered, rfl, rfl, bar, listed, rfl, rfl⟩
  · rintro ⟨entered, at_, young, bar, listed, named, price⟩
    refine ⟨bar, List.mem_filter.mpr ⟨listed, ?_⟩, ?_⟩
    · rw [named]
      exact decide_eq_true entered
    · cases g
      cases named
      cases price
      cases at_
      cases young
      rfl

/-- Decisions that follow each other are as far apart as there are frames between them. -/
theorem chain_elapsed {between after : List Decision} {opening closing : Decision}
    (chain : (opening :: (between ++ closing :: after)).IsChain fun d next =>
      next.frame.timestamp = d.frame.timestamp + fiveMinutes) :
    closing.frame.timestamp = opening.frame.timestamp + (between.length + 1 : ℕ) * fiveMinutes := by
  induction between generalizing opening with
  | nil =>
    rw [(List.isChain_cons_cons.mp chain).1]
    simp
  | cons d rest ih =>
    obtain ⟨next, others⟩ := List.isChain_cons_cons.mp chain
    rw [ih others, next, List.length_cons]
    push_cast
    ring

theorem decayed_iff {ds : List Decision} {r : Decay}
    (steady : ds.IsChain fun d next => next.frame.timestamp = d.frame.timestamp + fiveMinutes) :
    Decayed ds r ↔ ∃ before opening between closing after, ds = before ++ opening :: (between ++ closing :: after) ∧
      Measured (standing before) opening closing (between.length + 1) r := by
  constructor
  · rintro ⟨_, closing, after, g, rfl, ⟨before, opening, between, rfl, aged, new⟩, made⟩
    obtain ⟨entered, at_, -, entry, listed, named, price⟩ := mem_entries.mp new
    obtain ⟨-, horizon, counted⟩ := decayOf_spec made
    generalize r.evidenceEpoch = epoch at made
    unfold Processor.decayOf at made
    rw [if_pos counted] at made
    obtain ⟨current, close, rfl⟩ := Option.map_eq_some_iff.mp made
    obtain ⟨bar, inside, same, rfl⟩ := closeOf_iff.mp close
    rw [List.append_assoc, List.cons_append] at steady ⊢
    refine ⟨before, opening, between, closing, after, rfl, ?_, ?_, entered, at_, rfl,
      chain_elapsed (List.isChain_append.mp steady).2.1,
      entry, listed, bar, inside, named, same, ?_⟩
    · rw [aged]
      exact horizon
    · rw [aged]
      exact counted
    · rw [price]
      rfl
  · rintro ⟨before, opening, between, closing, after, rfl, m⟩
    obtain ⟨entry, listed, bar, inside, named, same, gross⟩ := m.gross
    refine ⟨before ++ opening :: between, closing, after, ⟨r.symbol, r.signalAt, entry.close, between.length⟩, by simp,
      ⟨before, opening, between, rfl, rfl, mem_entries.mpr ⟨m.entered, m.signalAt, rfl, entry, listed, named, rfl⟩⟩, ?_⟩
    have close := closeOf_iff.mpr ⟨bar, inside, same, rfl⟩
    unfold Processor.decayOf Processor.advance
    dsimp only
    rw [if_pos m.listed, close, Option.map_some, ← gross, ← m.observedAt, ← m.horizon]

/-! ## What the evidence is worth -/

/-- There is a decision on each frame of the bars and on no other; an epoch ends with every frame that is not usable,
and within one the frames come every five minutes. -/
theorem decisions_by_epoch (setup : Setup σ) (batches : List (List Shadow.ReceivedStreamEvent))
    (stoppedAt : Option Instant) :
    let log := (Processor.life setup batches stoppedAt).log
    (log.filterMap Record.decision?).map Decision.frame =
        (sessionOf setup.symbols (batches.flatten.filterMap barOf)).frames ∧ Numbered log ∧
      ∀ epoch, (decisionsOf epoch log).IsChain fun d next =>
        next.frame.timestamp = d.frame.timestamp + fiveMinutes := by
  obtain ⟨builder, edge, linked⟩ := life_linked setup batches stoppedAt
  exact ⟨linked.frames, linked.numbered, linked.evident.steady⟩

/-- Of every symbol that a decision took up there is a decay after one, three and six frames of its epoch, and of
nothing else; each is from the close at the signal to that many times five minutes later. -/
theorem decays_measured (setup : Setup σ) (batches : List (List Shadow.ReceivedStreamEvent))
    (stoppedAt : Option Instant) (r : Decay) :
    let log := (Processor.life setup batches stoppedAt).log
    .decay r ∈ log ↔ ∃ before opening between closing after,
      decisionsOf r.evidenceEpoch log = before ++ opening :: (between ++ closing :: after) ∧
        Measured (standing before) opening closing (between.length + 1) r := by
  obtain ⟨builder, edge, linked⟩ := life_linked setup batches stoppedAt
  exact (linked.evident.decays r).trans (decayed_iff (linked.evident.steady r.evidenceEpoch))

/-- Every decision but the first of its epoch brings one outcome, that of the targets of the one before over the five
minutes between; the value at the end is the starting cash with all of them, epoch after epoch. -/
theorem outcomes_accrued (setup : Setup σ) (batches : List (List Shadow.ReceivedStreamEvent))
    (stoppedAt : Option Instant) :
    let p := Processor.life setup batches stoppedAt
    (∀ epoch, (outcomesOf epoch p.log).map Outcome.occurredAt =
        (decisionsOf epoch p.log).tail.map fun d => d.frame.timestamp) ∧
      (∀ epoch, ∀ o ∈ outcomesOf epoch p.log, ∃ before opening closing after,
        decisionsOf epoch p.log = before ++ opening :: closing :: after ∧ Bridges opening closing o ∧
          closing.frame.timestamp = opening.frame.timestamp + fiveMinutes) ∧
      Accrued setup.startingCash (p.log.filterMap Record.outcome?) ∧
      p.state.nav =
        ((p.log.filterMap Record.outcome?).getLast?.map Outcome.shadowNav).getD setup.startingCash := by
  obtain ⟨builder, edge, linked⟩ := life_linked setup batches stoppedAt
  refine ⟨linked.evident.timed, fun epoch o member => ?_, linked.evident.accrued, linked.evident.nav⟩
  obtain ⟨before, opening, closing, after, split, bridges⟩ := linked.evident.bridged epoch o member
  have steady := linked.evident.steady epoch
  rw [split] at steady
  exact ⟨before, opening, closing, after, split, bridges,
    (List.isChain_cons_cons.mp (List.isChain_append.mp steady).2.1).1⟩

end TradeAgent.LiveShadow
