import TradeAgent.LiveShadowFrames
import TradeAgent.ShadowRecorder

/-! Decisions of a strategy that trades nothing, on the frames of a live stream, and the evidence recorded of them:
how a signal decays and what the targets would have returned. An unusable frame begins the evidence anew. -/
namespace TradeAgent.LiveShadow

open Portfolio Rounding

/-- A strategy and its costs. The template is the strategy as it was given. -/
structure Setup (σ : Type) where
  symbols : Symbols
  startingCash : ℚ
  slippageBps : ℚ
  spreadBps : ℚ
  commissionBps : ℚ
  template : σ
  onQuote : σ → Shadow.MarketQuote → σ
  onFrame : σ → UniverseFrame → PortfolioIntent × σ
  permitsEntry : String → Instant → Bool := fun _ _ => true

structure ShadowState where
  nav : ℚ
  closes : Dict String ℚ
  targets : Dict String ℚ
  pendingTurnover : ℚ := 0

structure Signal where
  symbol : String
  signalAt : Instant
  referencePrice : ℚ
  elapsedFrames : ℕ := 0
  deriving DecidableEq

structure Rejection where
  symbol : String
  eventAt : Instant
  latestAcceptedEventAt : Instant

structure Decision where
  frame : UniverseFrame
  strategyId : String
  rationale : String
  targets : Dict String ℚ
  shadowNav : ℚ
  evidenceEpoch : ℕ
  cumulativeEvidenceComplete : Bool
  expectedRoundTripCostBps : ℚ

structure Decay where
  symbol : String
  signalAt : Instant
  observedAt : Instant
  horizonFrames : ℕ
  evidenceEpoch : ℕ
  grossReturnBps : ℚ
  deriving DecidableEq

structure Outcome where
  occurredAt : Instant
  grossReturn : ℚ
  modeledCost : ℚ
  pnl : ℚ
  shadowNav : ℚ
  evidenceEpoch : ℕ
  cumulativeEvidenceComplete : Bool
  deriving DecidableEq

inductive Record where
  | decision (decision : Decision)
  | decay (decay : Decay)
  | outcome (outcome : Outcome)
  | frameUnusable (issue : Issue) (nextEvidenceEpoch : ℕ)
  | quotesUnusable (rejections : List Rejection) (occurredAt : Instant)

/-- The processor. Epochs are numbered in the order in which they are drawn. -/
structure Processor (σ : Type) where
  builder : Builder := {}
  strategy : σ
  signals : List Signal := []
  evidenceEpoch : ℕ := 0
  evidenceComplete : Bool := true
  lastFrameAt : Option Instant := none
  latestQuoteAt : Dict String Instant := .empty
  ignoredQuotes : ℕ := 0
  rejections : List Rejection := []
  state : ShadowState
  log : List Record := []

variable {σ : Type} (setup : Setup σ)

def Setup.costBps : ℚ := context (context (setup.slippageBps + context (setup.spreadBps / 2)) + setup.commissionBps)

def Processor.start : Processor σ where
  strategy := setup.template
  state :=
    { nav := setup.startingCash
      closes := .empty
      targets := .ofList (setup.symbols.names.map fun symbol => (symbol, 0)) }

namespace Processor

def onUnusableFrame (p : Processor σ) (issue : Issue) : Processor σ :=
  { p with
    strategy := setup.template
    signals := []
    evidenceEpoch := p.evidenceEpoch + 1
    evidenceComplete := false
    lastFrameAt := none
    latestQuoteAt := .empty
    state := { p.state with closes := .empty, targets := p.state.targets.mapValues fun _ => 0, pendingTurnover := 0 }
    log := p.log ++ [.frameUnusable issue (p.evidenceEpoch + 1)] }

def closeOf (frame : UniverseFrame) (symbol : String) : Option ℚ :=
  (frame.bars.find? fun bar => bar.symbol = symbol).map MarketBar.close

def advance (signal : Signal) : Signal := { signal with elapsedFrames := signal.elapsedFrames + 1 }

/-- The record of an advanced signal, at three of its six frames. A signal's symbol is in every frame. -/
def decayOf (epoch : ℕ) (frame : UniverseFrame) (signal : Signal) : Option Decay :=
  if signal.elapsedFrames ∈ [1, 3, 6] then
    (closeOf frame signal.symbol).map fun current => {
      symbol := signal.symbol
      signalAt := signal.signalAt
      observedAt := frame.timestamp
      horizonFrames := signal.elapsedFrames
      evidenceEpoch := epoch
      grossReturnBps := context (context (context (current / signal.referencePrice) - 1) * 10000) }
  else none

def recordSignalDecay (p : Processor σ) (frame : UniverseFrame) : Processor σ :=
  let advanced := p.signals.map advance
  { p with
    signals := advanced.filter (·.elapsedFrames < 6)
    log := p.log ++ (advanced.filterMap (decayOf p.evidenceEpoch frame)).map .decay }

/-- The return of the targets from the closes before to those of a frame, none where a close is not known. -/
def grossReturn (closes targets : Dict String ℚ) (frame : UniverseFrame) : Option ℚ :=
  (frame.bars.mapM fun bar => (closes.get? bar.symbol).map fun before =>
    context (targets.getD bar.symbol 0 * context (context (bar.close / before) - 1))).map
    (·.foldl (fun total part => context (total + part)) 0)

def priorOutcome (p : Processor σ) (frame : UniverseFrame) : Option Outcome :=
  if p.state.closes.entries = [] then none
  else
    (grossReturn p.state.closes p.state.targets frame).map fun gross =>
      let cost := context (context (context (p.state.nav * p.state.pendingTurnover) * setup.costBps) / 10000)
      let pnl := context (context (p.state.nav * gross) - cost)
      { occurredAt := frame.timestamp
        grossReturn := gross
        modeledCost := cost
        pnl
        shadowNav := context (p.state.nav + pnl)
        evidenceEpoch := p.evidenceEpoch
        cumulativeEvidenceComplete := p.evidenceComplete }

def recordPriorOutcome (p : Processor σ) (frame : UniverseFrame) : Processor σ :=
  match priorOutcome setup p frame with
  | none => p
  | some outcome =>
    { p with state := { p.state with nav := outcome.shadowNav }, log := p.log ++ [.outcome outcome] }

/-- Target weights, less those that the news does not let in. -/
def permitted (weights : Dict String Weight) (at_ : Instant) : Dict String ℚ where
  entries := weights.entries.map fun e =>
    (e.1, if 0 < e.2.value ∧ setup.permitsEntry e.1 at_ = false then 0 else e.2.value)
  distinct := by
    rw [List.map_map]
    exact weights.distinct

def turnoverTo (before next : Dict String ℚ) : ℚ :=
  (before.entries.map fun e => |context (next.getD e.1 0 - e.2)|).foldl (fun total part => context (total + part)) 0

/-- A symbol that a decision takes up. -/
def Entered (prior next : Dict String ℚ) (symbol : String) : Prop :=
  0 < next.getD symbol 0 ∧ prior.getD symbol 0 = 0

instance (prior next : Dict String ℚ) (symbol : String) : Decidable (Entered prior next symbol) :=
  inferInstanceAs (Decidable (_ ∧ _))

def entries (prior next : Dict String ℚ) (frame : UniverseFrame) : List Signal :=
  (frame.bars.filter fun bar => Entered prior next bar.symbol).map fun bar =>
    { symbol := bar.symbol, signalAt := frame.timestamp, referencePrice := bar.close }

def decisionOn (p : Processor σ) (frame : UniverseFrame) : Decision :=
  let intent := (setup.onFrame p.strategy frame).1
  { frame
    strategyId := intent.strategyId
    rationale := intent.rationale
    targets := permitted setup intent.targetWeights frame.timestamp
    shadowNav := p.state.nav
    evidenceEpoch := p.evidenceEpoch
    cumulativeEvidenceComplete := p.evidenceComplete
    expectedRoundTripCostBps := context (2 * setup.costBps) }

def closesOf (frame : UniverseFrame) : Dict String ℚ := .ofList (frame.bars.map fun bar => (bar.symbol, bar.close))

def decide (p : Processor σ) (frame : UniverseFrame) : Processor σ :=
  let decision := decisionOn setup p frame
  { p with
    strategy := (setup.onFrame p.strategy frame).2
    signals := p.signals ++ entries p.state.targets decision.targets frame
    state :=
      { p.state with
        closes := closesOf frame
        targets := decision.targets
        pendingTurnover := turnoverTo p.state.targets decision.targets }
    log := p.log ++ [.decision decision] }

def onFrame (p : Processor σ) (frame : UniverseFrame) : Processor σ :=
  let p := recordSignalDecay { p with lastFrameAt := some frame.timestamp } frame
  decide setup (recordPriorOutcome setup p frame) frame

/-- What became of the builder, and each report that it made on the way, as it calls back. -/
def adopt (p : Processor σ) (builder : Builder) : Processor σ :=
  (builder.issues.drop p.builder.issues.length).foldl (onUnusableFrame setup) { p with builder }

/-- A bar: the builder's reports first, and then its frame. -/
def onBar (p : Processor σ) (bar : MarketBar) : Processor σ :=
  let (builder, result) := p.builder.add setup.symbols bar
  match result with
  | .ok (some frame) => onFrame setup (adopt setup p builder) frame
  | .ok none | .error _ => adopt setup p builder

def onQuote (p : Processor σ) (quote : Shadow.MarketQuote) : Processor σ :=
  match p.latestQuoteAt.get? quote.symbol with
  | some prior =>
    if quote.timestamp < prior then
      { p with
        ignoredQuotes := p.ignoredQuotes + 1
        rejections := p.rejections ++ [⟨quote.symbol, quote.timestamp, prior⟩] }
    else
      { p with
        strategy := setup.onQuote p.strategy quote
        latestQuoteAt := p.latestQuoteAt.set quote.symbol quote.timestamp }
  | none =>
    { p with
      strategy := setup.onQuote p.strategy quote
      latestQuoteAt := p.latestQuoteAt.set quote.symbol quote.timestamp }

def onReceipt (p : Processor σ) (receipt : Shadow.ReceivedStreamEvent) : Processor σ :=
  match receipt.event with
  | .bar bar => onBar setup p bar
  | .quote quote => onQuote setup p quote
  | .trade _ => p

def onRecordedBatch (p : Processor σ) (receipts : List Shadow.ReceivedStreamEvent) : Processor σ :=
  let p := receipts.foldl (onReceipt setup) { p with rejections := [] }
  match p.rejections, receipts.getLast? with
  | [], _ | _, none => { p with rejections := [] }
  | rejections, some last =>
    { p with rejections := [], log := p.log ++ [.quotesUnusable rejections last.receivedAt] }

def finishRecordedBatches (p : Processor σ) (observedAt : Instant) : Processor σ :=
  adopt setup p (p.builder.finish setup.symbols observedAt)

end Processor

/-! ## The record by epoch -/

def Record.decision? : Record → Option Decision
  | .decision d => some d
  | .decay _ | .outcome _ | .frameUnusable .. | .quotesUnusable .. => none

def Record.outcome? : Record → Option Outcome
  | .outcome o => some o
  | .decision _ | .decay _ | .frameUnusable .. | .quotesUnusable .. => none

def Record.epoch? : Record → Option ℕ
  | .decision d => some d.evidenceEpoch
  | .decay r => some r.evidenceEpoch
  | .outcome o => some o.evidenceEpoch
  | .frameUnusable .. | .quotesUnusable .. => none

def decisionsOf (epoch : ℕ) (log : List Record) : List Decision :=
  (log.filterMap Record.decision?).filter (·.evidenceEpoch = epoch)

def outcomesOf (epoch : ℕ) (log : List Record) : List Outcome :=
  (log.filterMap Record.outcome?).filter (·.evidenceEpoch = epoch)

/-- The targets that stand after decisions of an epoch: at its start, none. -/
def standing (before : List Decision) : Dict String ℚ := (before.getLast?.map Decision.targets).getD .empty

/-- A signal of a decision, as many frames old as decisions followed. -/
def Taken (ds : List Decision) (g : Signal) : Prop :=
  ∃ before d after, ds = before ++ d :: after ∧ after.length = g.elapsedFrames ∧
    { g with elapsedFrames := 0 } ∈ Processor.entries (standing before) d.targets d.frame

/-- The decay of a signal that was taken before a decision of its epoch. -/
def Decayed (ds : List Decision) (r : Decay) : Prop :=
  ∃ before d after g, ds = before ++ d :: after ∧ Taken before g ∧
    Processor.decayOf r.evidenceEpoch d.frame (Processor.advance g) = some r

open Processor (closesOf)

variable {setup : Setup σ} {p : Processor σ} {ds : List Decision} {d : Decision} {g : Signal} {r : Decay}
  {log more : List Record} {epoch : ℕ} {frame : UniverseFrame}

theorem decisionsOf_append : decisionsOf epoch (log ++ more) = decisionsOf epoch log ++ decisionsOf epoch more := by
  simp [decisionsOf, List.filterMap_append]

theorem outcomesOf_append : outcomesOf epoch (log ++ more) = outcomesOf epoch log ++ outcomesOf epoch more := by
  simp [outcomesOf, List.filterMap_append]

/-- A list with one more at its end, split: at the end or before it. -/
theorem snoc_eq_split {α : Type} {l before after : List α} {a x : α} :
    l ++ [a] = before ++ x :: after ↔
      (l = before ∧ a = x ∧ after = []) ∨ ∃ rest, l = before ++ x :: rest ∧ after = rest ++ [a] := by
  constructor
  · intro same
    induction after using List.reverseRecOn with
    | nil =>
      obtain ⟨rfl, last⟩ := List.append_inj' same rfl
      exact .inl ⟨rfl, (List.cons.inj last).1, rfl⟩
    | append_singleton rest y _ =>
      rw [← List.cons_append, ← List.append_assoc] at same
      obtain ⟨rfl, last⟩ := List.append_inj' same rfl
      obtain rfl := (List.cons.inj last).1
      exact .inr ⟨rest, rfl, rfl⟩
  · rintro (⟨rfl, rfl, rfl⟩ | ⟨rest, rfl, rfl⟩)
    · rfl
    · simp

theorem entries_new (member : g ∈ Processor.entries prior next frame) : g.elapsedFrames = 0 := by
  obtain ⟨bar, -, rfl⟩ := List.mem_map.mp member
  rfl

theorem Taken.snoc : Taken (ds ++ [d]) g ↔
    (∃ g', Taken ds g' ∧ Processor.advance g' = g) ∨ g ∈ Processor.entries (standing ds) d.targets d.frame := by
  constructor
  · rintro ⟨before, d', after, split, aged, new⟩
    rcases snoc_eq_split.mp split with ⟨rfl, rfl, rfl⟩ | ⟨rest, rfl, rfl⟩
    · right
      have young : g = { g with elapsedFrames := 0 } := by
        cases g
        cases aged
        rfl
      rw [young]
      exact new
    · left
      refine ⟨{ g with elapsedFrames := rest.length }, ⟨before, d', rest, rfl, rfl, new⟩, ?_⟩
      cases g
      rw [List.length_append] at aged
      cases aged
      rfl
  · rintro (⟨g', ⟨before, d', after, rfl, aged, new⟩, rfl⟩ | new)
    · refine ⟨before, d', after ++ [d], by simp, ?_, new⟩
      rw [List.length_append, aged]
      rfl
    · have young := entries_new new
      refine ⟨ds, d, [], rfl, young.symm, ?_⟩
      have same : { g with elapsedFrames := 0 } = g := by
        cases g
        cases young
        rfl
      rw [same]
      exact new

theorem Decayed.snoc : Decayed (ds ++ [d]) r ↔
    Decayed ds r ∨ ∃ g, Taken ds g ∧ Processor.decayOf r.evidenceEpoch d.frame (Processor.advance g) = some r := by
  constructor
  · rintro ⟨before, d', after, g, split, taken, made⟩
    rcases snoc_eq_split.mp split with ⟨rfl, rfl, rfl⟩ | ⟨rest, rfl, rfl⟩
    · exact .inr ⟨g, taken, made⟩
    · exact .inl ⟨before, d', rest, g, rfl, taken, made⟩
  · rintro (⟨before, d', after, g, rfl, taken, made⟩ | ⟨g, taken, made⟩)
    · exact ⟨before, d', after ++ [d], g, by simp, taken, made⟩
    · exact ⟨ds, d, [], g, rfl, taken, made⟩

/-- Outcomes one after another, each on the value that the one before it left. -/
def Accrued : ℚ → List Outcome → Prop
  | _, [] => True
  | nav, o :: rest => o.pnl = context (context (nav * o.grossReturn) - o.modeledCost) ∧
      o.shadowNav = context (nav + o.pnl) ∧ Accrued o.shadowNav rest

/-- The outcome of a decision: what its targets returned to the frame of the next one. -/
structure Bridges (opening closing : Decision) (o : Outcome) : Prop where
  occurredAt : o.occurredAt = closing.frame.timestamp
  grossReturn : Processor.grossReturn (closesOf opening.frame) opening.targets closing.frame = some o.grossReturn

/-- What the log and the state have of each other. -/
structure Evident (setup : Setup σ) (p : Processor σ) : Prop where
  bounded : ∀ record ∈ p.log, ∀ epoch ∈ record.epoch?, epoch ≤ p.evidenceEpoch
  columns : ∀ d, .decision d ∈ p.log → d.frame.bars.map MarketBar.symbol = setup.symbols.names
  steady : ∀ epoch, (decisionsOf epoch p.log).IsChain fun d next =>
    next.frame.timestamp = d.frame.timestamp + fiveMinutes
  signals : ∀ g, g ∈ p.signals ↔ Taken (decisionsOf p.evidenceEpoch p.log) g ∧ g.elapsedFrames < 6
  decays : ∀ r, .decay r ∈ p.log ↔ Decayed (decisionsOf r.evidenceEpoch p.log) r
  closes : p.state.closes =
    ((decisionsOf p.evidenceEpoch p.log).getLast?.map fun d => closesOf d.frame).getD .empty
  targets : ∀ symbol, p.state.targets.getD symbol 0 =
    (standing (decisionsOf p.evidenceEpoch p.log)).getD symbol 0
  timed : ∀ epoch, (outcomesOf epoch p.log).map Outcome.occurredAt =
    (decisionsOf epoch p.log).tail.map fun d => d.frame.timestamp
  bridged : ∀ epoch, ∀ o ∈ outcomesOf epoch p.log, ∃ before opening closing after,
    decisionsOf epoch p.log = before ++ opening :: closing :: after ∧ Bridges opening closing o
  accrued : Accrued setup.startingCash (p.log.filterMap Record.outcome?)
  nav : p.state.nav = ((p.log.filterMap Record.outcome?).getLast?.map Outcome.shadowNav).getD setup.startingCash

theorem mem_decisionsOf : d ∈ decisionsOf epoch log ↔ .decision d ∈ log ∧ d.evidenceEpoch = epoch := by
  rw [decisionsOf, List.mem_filter, List.mem_filterMap, decide_eq_true_eq]
  constructor
  · rintro ⟨⟨record, member, found⟩, same⟩
    cases record <;> cases found
    exact ⟨member, same⟩
  · rintro ⟨member, same⟩
    exact ⟨⟨_, member, rfl⟩, same⟩

theorem mem_outcomesOf {o : Outcome} : o ∈ outcomesOf epoch log ↔ .outcome o ∈ log ∧ o.evidenceEpoch = epoch := by
  rw [outcomesOf, List.mem_filter, List.mem_filterMap, decide_eq_true_eq]
  constructor
  · rintro ⟨⟨record, member, found⟩, same⟩
    cases record <;> cases found
    exact ⟨member, same⟩
  · rintro ⟨member, same⟩
    exact ⟨⟨_, member, rfl⟩, same⟩

theorem not_taken_nil : ¬Taken [] g := by
  rintro ⟨before, d, after, split, -⟩
  simp at split

theorem not_decayed_nil : ¬Decayed [] r := by
  rintro ⟨before, d, after, g, split, -⟩
  simp at split

/-- An epoch after the last has nothing. -/
theorem Evident.ahead (h : Evident setup p) (later : p.evidenceEpoch < epoch) :
    decisionsOf epoch p.log = [] ∧ outcomesOf epoch p.log = [] := by
  constructor
  · rw [List.eq_nil_iff_forall_not_mem]
    intro d member
    obtain ⟨listed, rfl⟩ := mem_decisionsOf.mp member
    exact absurd (h.bounded _ listed _ rfl) (not_le.mpr later)
  · rw [List.eq_nil_iff_forall_not_mem]
    intro o member
    obtain ⟨listed, rfl⟩ := mem_outcomesOf.mp member
    exact absurd (h.bounded _ listed _ rfl) (not_le.mpr later)

theorem getD_empty (symbol : String) : (Dict.empty : Dict String ℚ).getD symbol 0 = 0 := rfl

theorem getD_zeros (targets : Dict String ℚ) (symbol : String) : (targets.mapValues fun _ => 0).getD symbol 0 = 0 := by
  rw [Dict.getD, Dict.get?_mapValues]
  cases targets.get? symbol <;> rfl

theorem Evident.start (setup : Setup σ) : Evident setup (.start setup) := by
  constructor
  · simp [Processor.start]
  · simp [Processor.start]
  · intro epoch
    exact List.IsChain.nil
  · intro g
    simp [Processor.start, decisionsOf, not_taken_nil]
  · intro r
    simp [Processor.start, decisionsOf, not_decayed_nil]
  · rfl
  · intro symbol
    change (Dict.ofList (setup.symbols.names.map fun symbol => (symbol, (0 : ℚ)))).getD symbol 0 = 0
    rw [Dict.getD, Dict.get?_ofKeys (setup.symbols.sorted.imp ne_of_lt)]
    split <;> rfl
  · intro epoch
    rfl
  · intro epoch o member
    cases member
  · trivial
  · rfl

/-- A record of no epoch leaves the record of every epoch as it was. -/
theorem Evident.tell (h : Evident setup p) (record : Record) (silent : record.epoch? = none) :
    Evident setup { p with log := p.log ++ [record] } := by
  have decision : record.decision? = none := by cases record <;> first | rfl | cases silent
  have outcome : record.outcome? = none := by cases record <;> first | rfl | cases silent
  have decisions : ∀ epoch, decisionsOf epoch (p.log ++ [record]) = decisionsOf epoch p.log := by
    intro epoch
    simp [decisionsOf, decision]
  have all : (p.log ++ [record]).filterMap Record.outcome? = p.log.filterMap Record.outcome? := by simp [outcome]
  have outcomes : ∀ epoch, outcomesOf epoch (p.log ++ [record]) = outcomesOf epoch p.log := by
    intro epoch
    rw [outcomesOf, all, outcomesOf]
  constructor
  · intro record' member epoch recorded
    rcases List.mem_append.mp member with old | new
    · exact h.bounded record' old epoch recorded
    · rw [List.mem_singleton.mp new, silent] at recorded
      cases recorded
  · intro d member
    rcases List.mem_append.mp member with old | new
    · exact h.columns d old
    · rw [← List.mem_singleton.mp new] at decision
      cases decision
  · intro epoch
    rw [decisions]
    exact h.steady epoch
  · intro g
    rw [decisions]
    exact h.signals g
  · intro r
    rw [decisions, ← h.decays r, List.mem_append, or_iff_left_iff_imp]
    intro new
    rw [← List.mem_singleton.mp new] at silent
    cases silent
  · rw [decisions]
    exact h.closes
  · intro symbol
    rw [decisions]
    exact h.targets symbol
  · intro epoch
    rw [outcomes, decisions]
    exact h.timed epoch
  · intro epoch
    rw [outcomes, decisions]
    exact h.bridged epoch
  · rw [all]
    exact h.accrued
  · rw [all]
    exact h.nav

theorem Evident.reset (h : Evident setup p) (issue : Issue) : Evident setup (p.onUnusableFrame setup issue) := by
  have told := h.tell (.frameUnusable issue (p.evidenceEpoch + 1)) rfl
  obtain ⟨none_, -⟩ := told.ahead (Nat.lt_succ_self p.evidenceEpoch)
  have now : (p.onUnusableFrame setup issue).evidenceEpoch = p.evidenceEpoch + 1 := rfl
  constructor
  · exact fun record member epoch recorded => Nat.le_succ_of_le (told.bounded record member epoch recorded)
  · exact told.columns
  · exact told.steady
  · intro g
    rw [now, show decisionsOf _ (p.onUnusableFrame setup issue).log = [] from none_]
    simp [Processor.onUnusableFrame, not_taken_nil]
  · exact told.decays
  · rw [now, show decisionsOf _ (p.onUnusableFrame setup issue).log = [] from none_]
    rfl
  · intro symbol
    rw [now, show decisionsOf _ (p.onUnusableFrame setup issue).log = [] from none_]
    exact getD_zeros p.state.targets symbol
  · exact told.timed
  · exact told.bridged
  · exact told.accrued
  · exact told.nav

/-- Neither what the builder holds nor what came of the quotes is evidence. -/
theorem Evident.aside (h : Evident setup p) (builder : Builder) (strategy : σ) (latestQuoteAt : Dict String Instant)
    (ignoredQuotes : ℕ) (rejections : List Rejection) :
    Evident setup { p with builder, strategy, latestQuoteAt, ignoredQuotes, rejections } :=
  ⟨h.bounded, h.columns, h.steady, h.signals, h.decays, h.closes, h.targets, h.timed, h.bridged, h.accrued, h.nav⟩

/-- What a frame adds. -/
structure Framed (setup : Setup σ) (p : Processor σ) (frame : UniverseFrame) (q : Processor σ) (d : Decision) :
    Prop where
  shown : d.frame = frame
  decided : d.evidenceEpoch = p.evidenceEpoch
  marked : d.cumulativeEvidenceComplete = p.evidenceComplete
  epoch : q.evidenceEpoch = p.evidenceEpoch
  complete : q.evidenceComplete = p.evidenceComplete
  builder : q.builder = p.builder
  signals : q.signals = (p.signals.map Processor.advance).filter (·.elapsedFrames < 6) ++
    Processor.entries p.state.targets d.targets frame
  closes : q.state.closes = closesOf frame
  targets : q.state.targets = d.targets
  nav : q.state.nav = ((p.priorOutcome setup frame).map Outcome.shadowNav).getD p.state.nav
  log : q.log = p.log ++ (((p.signals.map Processor.advance).filterMap
    (Processor.decayOf p.evidenceEpoch frame)).map .decay ++
    ((p.priorOutcome setup frame).toList.map .outcome ++ [.decision d]))

theorem recordPriorOutcome_spec (setup : Setup σ) (p : Processor σ) (frame : UniverseFrame) :
    p.recordPriorOutcome setup frame = { p with
      state := { p.state with
        nav := ((p.priorOutcome setup frame).map Outcome.shadowNav).getD p.state.nav }
      log := p.log ++ (p.priorOutcome setup frame).toList.map .outcome } := by
  unfold Processor.recordPriorOutcome
  cases p.priorOutcome setup frame with
  | none => simp
  | some outcome => rfl

theorem onFrame_framed (setup : Setup σ) (p : Processor σ) (frame : UniverseFrame) :
    ∃ d, Framed setup p frame (p.onFrame setup frame) d := by
  unfold Processor.onFrame
  simp only [recordPriorOutcome_spec]
  generalize made : Processor.priorOutcome setup
    (Processor.recordSignalDecay { p with lastFrameAt := some frame.timestamp } frame) frame = outcome
  have same : Processor.priorOutcome setup p frame = outcome := made
  refine ⟨_, ⟨?_, ?_, ?_, ?_, ?_, ?_, rfl, ?_, ?_, ?_, ?_⟩⟩
  · rfl
  · rfl
  · rfl
  · rfl
  · rfl
  · rfl
  · rfl
  · rfl
  · rw [same]
    rfl
  · rw [same, ← List.append_assoc, ← List.append_assoc]
    rfl

theorem entries_congr {one two next : Dict String ℚ} (same : ∀ symbol, one.getD symbol 0 = two.getD symbol 0) :
    Processor.entries one next frame = Processor.entries two next frame := by
  unfold Processor.entries
  congr 1
  apply List.filter_congr
  intro bar _
  exact decide_eq_decide.mpr (by rw [Processor.Entered, Processor.Entered, same])

theorem mem_closesOf {symbol : String} :
    ((closesOf frame).get? symbol).isSome ↔ symbol ∈ frame.bars.map MarketBar.symbol := by
  rw [closesOf, Dict.isSome_ofList, List.map_map]
  rfl

/-- Between frames of the same symbols every return is known. -/
theorem grossReturn_known {opening closing : UniverseFrame} (targets : Dict String ℚ)
    (same : opening.bars.map MarketBar.symbol = closing.bars.map MarketBar.symbol) :
    ∃ gross, Processor.grossReturn (closesOf opening) targets closing = some gross := by
  have all : ∀ bars : List MarketBar, (∀ bar ∈ bars, ((closesOf opening).get? bar.symbol).isSome) →
      ∃ parts, bars.mapM (fun bar => ((closesOf opening).get? bar.symbol).map fun before =>
        context (targets.getD bar.symbol 0 * context (context (bar.close / before) - 1))) = some parts := by
    intro bars
    induction bars with
    | nil => exact fun _ => ⟨[], rfl⟩
    | cons bar rest ih =>
      intro known
      obtain ⟨here, later⟩ := List.forall_mem_cons.mp known
      obtain ⟨before, found⟩ := Option.isSome_iff_exists.mp here
      obtain ⟨parts, made⟩ := ih later
      refine ⟨context (targets.getD bar.symbol 0 * context (context (bar.close / before) - 1)) :: parts, ?_⟩
      rw [List.mapM_cons, found, made]
      rfl
  obtain ⟨parts, made⟩ := all closing.bars fun bar member => by
    rw [mem_closesOf, same]
    exact List.mem_map_of_mem member
  exact ⟨_, congrArg (Option.map _) made⟩

theorem Processor.closesOf_nonempty (frame : UniverseFrame) : (closesOf frame).entries ≠ [] := by
  intro empty
  obtain ⟨bar, member⟩ := List.exists_mem_of_ne_nil _ frame.nonempty
  have known := mem_closesOf.mpr (List.mem_map_of_mem (f := MarketBar.symbol) member)
  rw [Dict.get?, empty] at known
  cases known

theorem accrued_snoc {nav : ℚ} {l : List Outcome} {o : Outcome} : Accrued nav (l ++ [o]) ↔ Accrued nav l ∧
    o.pnl = context (context ((l.getLast?.map Outcome.shadowNav).getD nav * o.grossReturn) - o.modeledCost) ∧
    o.shadowNav = context ((l.getLast?.map Outcome.shadowNav).getD nav + o.pnl) := by
  induction l generalizing nav with
  | nil => simp [Accrued]
  | cons first rest ih =>
    have last : ((first :: rest).getLast?.map Outcome.shadowNav).getD nav =
        (rest.getLast?.map Outcome.shadowNav).getD first.shadowNav := by
      cases rest with
      | nil => rfl
      | cons x others =>
        rw [List.getLast?_cons_cons, List.getLast?_eq_some_getLast (List.cons_ne_nil x others)]
        rfl
    rw [List.cons_append, Accrued, ih, last, Accrued]
    simp only [and_assoc]

theorem chain_snoc {α : Type} {R : α → α → Prop} {l : List α} {a : α} (chain : l.IsChain R)
    (last : ∀ x ∈ l.getLast?, R x a) : (l ++ [a]).IsChain R := by
  apply List.IsChain.append chain (List.IsChain.singleton a)
  intro x member y inside
  cases inside
  exact last x member

/-- The outcome that a frame brings: none to the first decision of an epoch, one to each later one. -/
theorem Evident.outcome (h : Evident setup p) (columns : frame.bars.map MarketBar.symbol = setup.symbols.names) :
    (decisionsOf p.evidenceEpoch p.log = [] ∧ p.priorOutcome setup frame = none) ∨
    ∃ init last o, decisionsOf p.evidenceEpoch p.log = init ++ [last] ∧ p.priorOutcome setup frame = some o ∧
      o.occurredAt = frame.timestamp ∧ o.evidenceEpoch = p.evidenceEpoch ∧
      Processor.grossReturn (closesOf last.frame) last.targets frame = some o.grossReturn ∧
      o.pnl = context (context (p.state.nav * o.grossReturn) - o.modeledCost) ∧
      o.shadowNav = context (p.state.nav + o.pnl) := by
  have closes := h.closes
  have targets := h.targets
  cases listed : decisionsOf p.evidenceEpoch p.log using List.reverseRecOn with
  | nil =>
    left
    rw [listed] at closes
    refine ⟨rfl, ?_⟩
    unfold Processor.priorOutcome
    rw [if_pos (by rw [closes]; rfl)]
  | append_singleton init last =>
    right
    rw [listed] at closes targets
    simp only [standing, List.getLast?_append_cons, List.getLast?_singleton, Option.map_some, Option.getD_some]
      at closes targets
    have member : last ∈ decisionsOf p.evidenceEpoch p.log := by
      rw [listed]
      exact List.mem_append_right _ (List.mem_singleton_self last)
    have own : .decision last ∈ p.log := (mem_decisionsOf.mp member).1
    obtain ⟨gross, known⟩ := grossReturn_known last.targets ((h.columns last own).trans columns.symm)
    have same : Processor.grossReturn p.state.closes p.state.targets frame = some gross := by
      rw [← known, closes]
      unfold Processor.grossReturn
      simp only [targets]
    unfold Processor.priorOutcome
    rw [if_neg (by rw [closes]; exact Processor.closesOf_nonempty last.frame), same]
    exact ⟨init, last, _, rfl, rfl, rfl, rfl, known, rfl, rfl⟩

theorem decayOf_spec {frame : UniverseFrame} {g : Signal} (made : Processor.decayOf epoch frame g = some r) :
    r.evidenceEpoch = epoch ∧ r.horizonFrames = g.elapsedFrames ∧ g.elapsedFrames ∈ [1, 3, 6] := by
  unfold Processor.decayOf at made
  split at made
  next listed =>
    obtain ⟨current, -, rfl⟩ := Option.map_eq_some_iff.mp made
    exact ⟨rfl, rfl, listed⟩
  next => cases made

/-- The records of a frame, read epoch by epoch. -/
structure Appended (p : Processor σ) (o : Option Outcome) (q : Processor σ) (d : Decision) : Prop where
  decisions : ∀ epoch, decisionsOf epoch q.log =
    decisionsOf epoch p.log ++ if p.evidenceEpoch = epoch then [d] else []
  all : q.log.filterMap Record.outcome? = p.log.filterMap Record.outcome? ++ o.toList
  outcomes : ∀ epoch, outcomesOf epoch q.log =
    outcomesOf epoch p.log ++ o.toList.filter (·.evidenceEpoch = epoch)

theorem Framed.appended {q : Processor σ} (h : Framed setup p frame q d) :
    Appended p (p.priorOutcome setup frame) q d := by
  have silent : ∀ l : List Decay, (l.map Record.decay).filterMap Record.decision? = [] ∧
      (l.map Record.decay).filterMap Record.outcome? = [] := by
    intro l
    constructor
    · simp [Record.decision?]
    · simp [Record.outcome?]
  have told : ∀ l : List Outcome, (l.map Record.outcome).filterMap Record.decision? = [] ∧
      (l.map Record.outcome).filterMap Record.outcome? = l := by
    intro l
    constructor
    · simp [Record.decision?]
    · simp [List.filterMap_map, Record.outcome?, Function.comp_def]
  have all : q.log.filterMap Record.outcome? =
      p.log.filterMap Record.outcome? ++ (p.priorOutcome setup frame).toList := by
    rw [h.log]
    simp [List.filterMap_append, (silent _).2, (told _).2, Record.outcome?]
  refine ⟨fun epoch => ?_, all, fun epoch => ?_⟩
  · rw [h.log, decisionsOf_append, List.append_cancel_left_eq, decisionsOf]
    simp only [List.filterMap_append, (silent _).1, (told _).1, List.nil_append, List.filterMap_cons,
      Record.decision?, List.filterMap_nil, List.filter_cons, h.decided, decide_eq_true_eq, List.filter_nil]
  · rw [outcomesOf, all, List.filter_append]
    rfl

theorem Evident.onFrame (h : Evident setup p) (columns : frame.bars.map MarketBar.symbol = setup.symbols.names)
    (next : ∀ d ∈ (decisionsOf p.evidenceEpoch p.log).getLast?,
      frame.timestamp = d.frame.timestamp + fiveMinutes) :
    Evident setup (p.onFrame setup frame) := by
  obtain ⟨d, framed⟩ := onFrame_framed setup p frame
  obtain ⟨decisions, all, outcomes⟩ := framed.appended
  have brought := h.outcome columns
  generalize p.onFrame setup frame = q at *
  have here : decisionsOf q.evidenceEpoch q.log = decisionsOf p.evidenceEpoch p.log ++ [d] := by
    rw [framed.epoch, decisions, if_pos rfl]
  have there : ∀ epoch, epoch ≠ p.evidenceEpoch →
      decisionsOf epoch q.log = decisionsOf epoch p.log ∧ outcomesOf epoch q.log = outcomesOf epoch p.log := by
    intro epoch other
    refine ⟨by rw [decisions, if_neg (Ne.symm other), List.append_nil], ?_⟩
    rw [outcomes, List.append_right_eq_self, List.filter_eq_nil_iff]
    intro o member
    rcases brought with ⟨-, none_⟩ | ⟨init, last, o', -, made, -, own, -⟩
    · rw [none_] at member
      cases member
    · rw [made, Option.mem_toList] at member
      cases member
      rw [decide_eq_true_eq, own]
      exact Ne.symm other
  have own : ∀ o ∈ p.priorOutcome setup frame, o.evidenceEpoch = p.evidenceEpoch := by
    intro o member
    rcases brought with ⟨-, none_⟩ | ⟨init, last, o', -, made, -, same, -⟩
    · rw [none_] at member
      cases member
    · rw [made] at member
      cases member
      exact same
  have decay : ∀ r, .decay r ∈ q.log ↔ .decay r ∈ p.log ∨
      ∃ g ∈ p.signals, Processor.decayOf p.evidenceEpoch frame (Processor.advance g) = some r := by
    intro r
    rw [framed.log]
    simp [List.mem_append]
  constructor
  · intro record member epoch recorded
    rw [framed.epoch]
    rw [framed.log] at member
    simp only [List.mem_append, List.mem_map, List.mem_filterMap, Option.mem_toList, List.mem_singleton] at member
    rcases member with old | ⟨r, ⟨g, -, made⟩, rfl⟩ | ⟨o, made, rfl⟩ | rfl
    · exact h.bounded record old epoch recorded
    · cases recorded
      exact (decayOf_spec made).1.le
    · cases recorded
      exact (own o made).le
    · cases recorded
      exact framed.decided.le
  · intro d' member
    rw [framed.log] at member
    simp only [List.mem_append, List.mem_map, reduceCtorEq, and_false, exists_false, List.mem_singleton,
      Record.decision.injEq, false_or] at member
    rcases member with old | rfl
    · exact h.columns d' old
    · rw [framed.shown]
      exact columns
  · intro epoch
    by_cases same : epoch = p.evidenceEpoch
    · subst same
      rw [decisions, if_pos rfl]
      exact chain_snoc (h.steady _) fun x member => framed.shown ▸ next x member
    · rw [(there epoch same).1]
      exact h.steady epoch
  · intro g
    rw [here, Taken.snoc, framed.signals, List.mem_append, List.mem_filter, entries_congr h.targets,
      ← framed.shown]
    simp only [List.mem_map, h.signals, decide_eq_true_eq]
    constructor
    · rintro (⟨⟨g', ⟨taken, young⟩, rfl⟩, below⟩ | new)
      · exact ⟨.inl ⟨g', taken, rfl⟩, below⟩
      · exact ⟨.inr new, by rw [entries_new new]; exact Nat.succ_pos 5⟩
    · rintro ⟨⟨g', taken, rfl⟩ | new, below⟩
      · exact .inl ⟨⟨g', ⟨taken, Nat.lt_of_succ_lt below⟩, rfl⟩, below⟩
      · exact .inr new
  · intro r
    rw [decay, h.decays]
    by_cases same : r.evidenceEpoch = p.evidenceEpoch
    · rw [same, decisions, if_pos rfl, Decayed.snoc, same]
      apply or_congr_right
      constructor
      · rintro ⟨g, member, made⟩
        exact ⟨g, ((h.signals g).mp member).1, framed.shown ▸ made⟩
      · rintro ⟨g, taken, made⟩
        rw [framed.shown] at made
        refine ⟨g, (h.signals g).mpr ⟨taken, ?_⟩, made⟩
        have aged := (decayOf_spec made).2.2
        simp only [Processor.advance, List.mem_cons, List.not_mem_nil, or_false] at aged
        omega
    · rw [(there _ same).1, or_iff_left_iff_imp]
      rintro ⟨g, -, made⟩
      exact absurd (decayOf_spec made).1 same
  · rw [here, framed.closes, List.getLast?_concat, Option.map_some, Option.getD_some, framed.shown]
  · intro symbol
    rw [here, standing, framed.targets, List.getLast?_concat, Option.map_some, Option.getD_some]
  · intro epoch
    by_cases same : epoch = p.evidenceEpoch
    · subst same
      rw [outcomes, decisions, if_pos rfl, List.map_append, h.timed]
      rcases brought with ⟨none_, unmade⟩ | ⟨init, last, o, listed, made, at_, same, -⟩
      · rw [none_, unmade]
        rfl
      · have tail : ((init ++ [last]) ++ [d]).tail = (init ++ [last]).tail ++ [d] := by cases init <;> rfl
        rw [made, listed, tail, List.map_append]
        simp [same, at_, framed.shown]
    · rw [(there epoch same).1, (there epoch same).2]
      exact h.timed epoch
  · intro epoch o member
    by_cases same : epoch = p.evidenceEpoch
    · subst same
      rw [outcomes, List.mem_append] at member
      rw [decisions, if_pos rfl]
      rcases member with old | new
      · obtain ⟨before, opening, closing, after, split, bridges⟩ := h.bridged _ o old
        exact ⟨before, opening, closing, after ++ [d], by rw [split]; simp, bridges⟩
      · have made := Option.mem_toList.mp (List.mem_filter.mp new).1
        rcases brought with ⟨-, unmade⟩ | ⟨init, last, o', listed, made', at_, -, returned, -⟩
        · rw [unmade] at made
          cases made
        · rw [made'] at made
          cases made
          refine ⟨init, last, d, [], by rw [listed]; simp, ⟨?_, ?_⟩⟩
          · rw [at_, framed.shown]
          · rw [framed.shown]
            exact returned
    · rw [(there epoch same).2] at member
      rw [(there epoch same).1]
      exact h.bridged epoch o member
  · rw [all]
    rcases brought with ⟨-, unmade⟩ | ⟨init, last, o, -, made, -, -, -, pnl, nav⟩
    · rw [unmade, Option.toList_none, List.append_nil]
      exact h.accrued
    · rw [made, Option.toList_some, accrued_snoc, ← h.nav]
      exact ⟨h.accrued, pnl, nav⟩
  · rw [all, framed.nav]
    rcases brought with ⟨-, unmade⟩ | ⟨init, last, o, -, made, -⟩
    · rw [unmade, Option.toList_none, List.append_nil]
      exact h.nav
    · rw [made, Option.toList_some, List.getLast?_concat]
      rfl

end TradeAgent.LiveShadow
