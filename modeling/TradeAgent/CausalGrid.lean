import TradeAgent.Domain
import TradeAgent.KrakenBook
import TradeAgent.Library.Retention

/-! The prospective confirmation grid: one evaluation of each symbol every ten seconds
and one label a minute later, selected from a bounded ring of accepted quotes. Calls
return the grid they leave behind, since a raising call keeps what it wrote. -/
namespace TradeAgent.Confirmation

open Kraken (BookQuote)
open Retention (Verdict latest Retains)

def ns : ℤ := 1000000000
def slots : ℕ := 25920

inductive Symbol where
  | btc | eth
  deriving DecidableEq, Repr

def symbols : List Symbol := [.btc, .eth]

/-- Day of the week of a calendar day, Monday first. -/
def weekday (day : ℤ) : ℤ := (day + 3) % 7

structure ConfirmationProtocol where
  frozenAt : Instant
  start : Instant
  frozenBefore : frozenAt < start
  aligned : start % (10 * second) = 0
  mixedDays : ∃ weekend ∈ [0, 1, 2, 3], ∃ workday ∈ [0, 1, 2, 3],
    (date start + weekend) * day < start + 3 * day ∧ 5 ≤ weekday (date start + weekend) ∧
    (date start + workday) * day < start + 3 * day ∧ weekday (date start + workday) < 5

def datetimeNs (at_ : Instant) : ℤ := at_ * 1000

/-- Time of a slot; the frozen grid has `slots` of them. -/
def slotNs (protocol : ConfirmationProtocol) (slot : ℕ) : ℤ :=
  datetimeNs protocol.start + slot * 10 * ns

structure Quote extends BookQuote where
  symbol : Symbol
  frameId : ℕ
  connectionId : String
  epoch : ℕ
  receivedNs : ℤ
  receivedMonotonicNs : ℤ
  acceptedNs : ℤ
  framePositive : 0 < frameId
  causal : providerBookUpdateNs ≤ receivedNs ∧ receivedNs ≤ acceptedNs
  uncrossed : bid.value < ask.value
  changesCausal : bidPriceLastChangedNs ≤ providerBookUpdateNs ∧
    askPriceLastChangedNs ≤ providerBookUpdateNs ∧ bidSizeLastChangedNs ≤ providerBookUpdateNs ∧
    askSizeLastChangedNs ≤ providerBookUpdateNs
  deriving DecidableEq

structure Invalidation where
  acceptedNs : ℤ
  reason : String
  epoch : ℕ
  deriving DecidableEq

inductive Item where
  | quote (q : Quote)
  | invalidation (i : Invalidation)

def Item.acceptedNs : Item → ℤ
  | .quote q => q.acceptedNs
  | .invalidation i => i.acceptedNs

structure Eligibility where
  integrityEligible : Bool
  entryFresh : Bool
  futureFresh : Bool
  entrySize : Bool
  futureSize : Bool
  complete : Bool
  reasons : List String
  deriving DecidableEq, Repr

def fresh (quote : Option Quote) (target : ℤ) : Bool := quote.any fun q =>
  [q.providerBookUpdateNs, q.receivedNs].all fun clock =>
    0 ≤ target - clock && target - clock ≤ 2 * ns

def sized (quote : Option Quote) (side : Quote → Numeral × Numeral) : Bool := quote.any fun q =>
  10.25 ≤ context ((side q).1.value * (side q).2.value)

def sameEpoch : Option Quote → Option Quote → Bool
  | some entry, some future => entry.epoch = future.epoch
  | _, _ => false

def measure (entry future : Option Quote) (atNs : ℤ) : Eligibility :=
  let entryFresh := fresh entry atNs
  let futureFresh := fresh future (atNs + 60 * ns)
  let continuity := sameEpoch entry future
  let entrySize := sized entry fun q => (q.ask, q.askSize)
  let futureSize := sized future fun q => (q.bid, q.bidSize)
  let reasons :=
    (if entryFresh then [] else ["DECISION_QUOTE_STALE_OR_MISSING"]) ++
    (if futureFresh then [] else ["HORIZON_QUOTE_STALE_OR_MISSING"]) ++
    (if entry.isSome && future.isSome && !continuity then ["LOCAL_CONTINUITY_CHANGED"] else [])
  let reasons := reasons ++
    (if reasons.isEmpty && !(entrySize && futureSize) then ["INSUFFICIENT_DISPLAYED_LONG_SIZE"]
     else [])
  ⟨continuity, entryFresh, futureFresh, entrySize, futureSize, reasons.isEmpty, reasons⟩

def longGross (eligibility : Eligibility) (entry future : Option Quote) : Option ℚ :=
  match entry, future with
  | some entry, some future =>
    if eligibility.complete then
      some (context (context (context (future.bid.value / entry.ask.value) - 1) * 10000))
    else none
  | _, _ => none

inductive GridError where
  | clockRegression | cacheBudget | backlogBudget | slotRange | missedFlag | decisionInput
  | settlementClock | horizonQuote | primaryContract | scalarContract
  deriving DecidableEq, Repr

def GridError.text : GridError → String
  | .clockRegression => "local_acceptance_clock_regression"
  | .cacheBudget => "quote_cache_budget_exceeded"
  | .backlogBudget => "scheduler_backlog_budget_exceeded"
  | .slotRange => "validation error"
  | .missedFlag => "scheduled slot timing and missed-slot flag disagree"
  | .decisionInput => "missed or forward-looking decision input"
  | .settlementClock => "labels cannot mature before the fixed settlement clock"
  | .horizonQuote => "forward-looking horizon quote"
  | .primaryContract => "label differs from the immutable primary contract"
  | .scalarContract => "label scalar units or price contract changed"

/-- Errors raised by the record validators, as against those of the grid's own budgets. -/
def GridError.validator : GridError → Bool
  | .clockRegression | .cacheBudget | .backlogBudget => false
  | _ => true

structure Evaluation where
  slot : ℕ
  symbol : Symbol
  atNs : ℤ
  recordedNs : ℤ
  missedScheduledSlot : Bool
  entry : Option Quote
  slotRange : slot < slots
  timing : atNs ≤ recordedNs ∧ missedScheduledSlot = decide (10 * ns ≤ recordedNs - atNs)
  decision : ∀ q ∈ entry, missedScheduledSlot = false ∧ q.symbol = symbol ∧ q.acceptedNs ≤ atNs
  deriving DecidableEq

def evaluation (slot : ℕ) (symbol : Symbol) (atNs recordedNs : ℤ) (missed : Bool)
    (entry : Option Quote) : Except GridError Evaluation :=
  if slotRange : slot < slots then
    if timing : atNs ≤ recordedNs ∧ missed = decide (10 * ns ≤ recordedNs - atNs) then
      if decision : ∀ q ∈ entry, missed = false ∧ q.symbol = symbol ∧ q.acceptedNs ≤ atNs then
        .ok ⟨slot, symbol, atNs, recordedNs, missed, entry, slotRange, timing, decision⟩
      else .error .decisionInput
    else .error .missedFlag
  else .error .slotRange

structure Label where
  evaluation : Evaluation
  resolvedNs : ℤ
  informationAvailableNs : ℤ
  future : Option Quote
  eligibility : Eligibility
  longGrossBps : Option ℚ
  matured : informationAvailableNs = evaluation.atNs + 62 * ns ∧
    evaluation.atNs + 62 * ns ≤ resolvedNs
  horizon : ∀ q ∈ future, q.receivedNs ≤ evaluation.atNs + 60 * ns ∧
    q.acceptedNs ≤ evaluation.atNs + 62 * ns
  primary : eligibility = measure evaluation.entry future evaluation.atNs
  scalar : longGrossBps = longGross eligibility evaluation.entry future
  deriving DecidableEq

/-- The decision quote is checked again here, but an evaluation already carries that. -/
def label (e : Evaluation) (resolvedNs informationAvailableNs : ℤ) (future : Option Quote)
    (eligibility : Eligibility) (gross : Option ℚ) : Except GridError Label :=
  if matured : informationAvailableNs = e.atNs + 62 * ns ∧ e.atNs + 62 * ns ≤ resolvedNs then
    if horizon : ∀ q ∈ future, q.receivedNs ≤ e.atNs + 60 * ns ∧ q.acceptedNs ≤ e.atNs + 62 * ns then
      if primary : eligibility = measure e.entry future e.atNs then
        if scalar : gross = longGross eligibility e.entry future then
          .ok ⟨e, resolvedNs, informationAvailableNs, future, eligibility, gross, matured, horizon,
            primary, scalar⟩
        else .error .scalarContract
      else .error .primaryContract
    else .error .horizonQuote
  else .error .settlementClock

structure Grid where
  protocol : ConfirmationProtocol
  history : Symbol → List Item
  pending : List Evaluation
  nextSlot : ℕ
  lastClock : ℤ
  maximumBacklog : ℕ
  maximumCache : ℕ

def Grid.init (protocol : ConfirmationProtocol) : Grid where
  protocol := protocol
  history _ := []
  pending := []
  nextSlot := 0
  lastClock := datetimeNs protocol.frozenAt
  maximumBacklog := 0
  maximumCache := 0

def Grid.setHistory (grid : Grid) (symbol : Symbol) (items : List Item) : Grid :=
  { grid with history := fun s => if s = symbol then items else grid.history s }

def Grid.append (grid : Grid) (symbol : Symbol) (item : Item) : Grid :=
  grid.setHistory symbol (grid.history symbol ++ [item])

/-- The ring is pruned one symbol after the other; an overlong one stops the loop. -/
def prune (atNs : ℤ) (grid : Grid) : List Symbol → Grid × Except GridError Unit
  | [] => (grid, .ok ())
  | symbol :: rest =>
    let kept := Retention.prune Item.acceptedNs (atNs - 70 * ns) (grid.history symbol)
    let grid := grid.setHistory symbol kept
    if 60000 < kept.length then (grid, .error .cacheBudget)
    else prune atNs { grid with maximumCache := max grid.maximumCache kept.length } rest

def clock (grid : Grid) (atNs : ℤ) : Grid × Except GridError Unit :=
  if atNs < grid.lastClock then (grid, .error .clockRegression)
  else ({ grid with lastClock := atNs }, .ok ())

def accept (grid : Grid) (quote : Quote) : Grid × Except GridError Unit :=
  match clock grid quote.acceptedNs with
  | (grid, .error e) => (grid, .error e)
  | (grid, .ok ()) => prune quote.acceptedNs (grid.append quote.symbol (.quote quote)) symbols

def invalidate (grid : Grid) (i : Invalidation) : Grid × Except GridError Unit :=
  match clock grid i.acceptedNs with
  | (grid, .error e) => (grid, .error e)
  | (grid, .ok ()) =>
    prune i.acceptedNs (symbols.foldl (fun g s => g.append s (.invalidation i)) grid) symbols

/-- One step of the backward search: a decision is cut off by acceptance, a horizon by
receipt, and an invalidation ends the search. -/
def judge (target known : ℤ) (decision : Bool) (item : Item) : Verdict Quote :=
  if known < item.acceptedNs then .skip
  else match item with
    | .invalidation _ => .stop
    | .quote q => if (if decision then q.acceptedNs else q.receivedNs) ≤ target then .take q else .skip

def select (history : List Item) (target known : ℤ) (decision : Bool) : Option Quote :=
  latest (judge target known decision) history.reverse

def evaluateSymbols (now : ℤ) (slot : ℕ) (grid : Grid) :
    List Symbol → Grid × Except GridError (List Evaluation)
  | [] => ({ grid with nextSlot := slot + 1 }, .ok [])
  | symbol :: rest =>
    let atNs := slotNs grid.protocol slot
    let missed : Bool := 10 * ns ≤ now - atNs
    let entry := if missed then none else select (grid.history symbol) atNs atNs true
    match evaluation slot symbol atNs now missed entry with
    | .error e => (grid, .error e)
    | .ok e =>
      match evaluateSymbols now slot { grid with pending := grid.pending ++ [e] } rest with
      | (grid, .ok later) => (grid, .ok (e :: later))
      | (grid, .error error) => (grid, .error error)

/-- The first loop of `advance`, over the slots still ahead. -/
def evaluateSlots (now : ℤ) (grid : Grid) : List ℕ → Grid × Except GridError (List Evaluation)
  | [] => (grid, .ok [])
  | slot :: rest =>
    if slotNs grid.protocol slot ≤ now then
      match evaluateSymbols now slot grid symbols with
      | (grid, .error error) => (grid, .error error)
      | (grid, .ok first) =>
        match evaluateSlots now grid rest with
        | (grid, .ok later) => (grid, .ok (first ++ later))
        | (grid, .error error) => (grid, .error error)
    else (grid, .ok [])

def resolve (now : ℤ) (grid : Grid) (e : Evaluation) : Except GridError Label :=
  let known := e.atNs + 62 * ns
  let future := select (grid.history e.symbol) (e.atNs + 60 * ns) known false
  let eligibility := measure e.entry future e.atNs
  label e now known future eligibility (longGross eligibility e.entry future)

/-- The second loop of `advance`, over the pending evaluations in order. -/
def settle (now : ℤ) (grid : Grid) : List Evaluation → Grid × Except GridError (List Label)
  | [] => ({ grid with pending := [] }, .ok [])
  | e :: rest =>
    if e.atNs + 62 * ns ≤ now then
      match resolve now grid e with
      | .error error => ({ grid with pending := rest }, .error error)
      | .ok l =>
        match settle now grid rest with
        | (grid, .ok later) => (grid, .ok (l :: later))
        | (grid, .error error) => (grid, .error error)
    else ({ grid with pending := e :: rest }, .ok [])

def ahead (grid : Grid) : List ℕ := List.range' grid.nextSlot (slots - grid.nextSlot)

/-- The checks `advance` makes before it touches any slot. -/
def moveClock (grid : Grid) (now : ℤ) : Grid × Except GridError Unit :=
  match clock grid now with
  | (grid, .error e) => (grid, .error e)
  | (grid, .ok ()) =>
    if grid.nextSlot < slots ∧ 2560 * ns ≤ now - slotNs grid.protocol grid.nextSlot then
      (grid, .error .backlogBudget)
    else (grid, .ok ())

def advance (grid : Grid) (now : ℤ) : Grid × Except GridError (List Evaluation × List Label) :=
  match moveClock grid now with
  | (grid, .error e) => (grid, .error e)
  | (grid, .ok ()) => match evaluateSlots now grid (ahead grid) with
    | (grid, .error e) => (grid, .error e)
    | (grid, .ok evaluations) =>
      let grid := { grid with maximumBacklog := max grid.maximumBacklog grid.pending.length }
      match settle now grid grid.pending with
      | (grid, .error e) => (grid, .error e)
      | (grid, .ok labels) => match prune now grid symbols with
        | (grid, .error e) => (grid, .error e)
        | (grid, .ok ()) => (grid, .ok (evaluations, labels))

/-- The evaluations a call makes, also where it raises after making them. -/
def madeBy (grid : Grid) (now : ℤ) : List Evaluation :=
  match moveClock grid now with
  | (grid, .ok ()) => match (evaluateSlots now grid (ahead grid)).2 with
    | .ok evaluations => evaluations
    | .error _ => []
  | _ => []

inductive Op where
  | accept (quote : Quote)
  | invalidate (i : Invalidation)
  | advance (now : ℤ)

def Op.atNs : Op → ℤ
  | .accept q => q.acceptedNs
  | .invalidate i => i.acceptedNs
  | .advance now => now

/-- What a call could have known: every item received before it, and the latest clock. -/
structure Sighting where
  log : List Item
  clock : ℤ

/-- A grid with the complete log of its items and everything it returned. -/
structure Trace where
  grid : Grid
  log : List Item
  made : List (Evaluation × Sighting)
  evaluations : List Evaluation
  labels : List (Label × Sighting)
  lastAdvance : Option ℤ
  raised : List GridError

def start (protocol : ConfirmationProtocol) : Trace := ⟨.init protocol, [], [], [], [], none, []⟩

def failure : Except GridError α → List GridError
  | .ok _ => []
  | .error e => [e]

def Trace.receive (t : Trace) (item : Item) (outcome : Grid × Except GridError Unit) : Trace :=
  { t with
    grid := outcome.1
    log := if item.acceptedNs < t.grid.lastClock then t.log else t.log ++ [item]
    raised := t.raised ++ failure outcome.2 }

def Trace.sighting (t : Trace) : Sighting := ⟨t.log, t.grid.lastClock⟩

def step (t : Trace) : Op → Trace
  | .accept q => t.receive (.quote q) (accept t.grid q)
  | .invalidate i => t.receive (.invalidation i) (invalidate t.grid i)
  | .advance now =>
    let outcome := advance t.grid now
    let returned := match outcome.2 with
      | .ok records => records
      | .error _ => ([], [])
    { t with
      grid := outcome.1
      made := t.made ++ (madeBy t.grid now).map (·, t.sighting)
      evaluations := t.evaluations ++ returned.1
      labels := t.labels ++ returned.2.map (·, t.sighting)
      lastAdvance := some now
      raised := t.raised ++ failure outcome.2 }

def run (protocol : ConfirmationProtocol) (ops : List Op) : Trace := ops.foldl step (start protocol)

def concerns (symbol : Symbol) : Item → Bool
  | .quote q => q.symbol = symbol
  | .invalidation _ => true

/-- The complete history of one symbol. -/
def seen (symbol : Symbol) (log : List Item) : List Item := log.filter (concerns symbol)

section Select

variable {history : List Item} {target known : ℤ} {decision : Bool} {q : Quote}

theorem judge_take {item : Item} (taken : judge target known decision item = .take q) :
    item = .quote q ∧ q.acceptedNs ≤ known ∧
    (if decision then q.acceptedNs else q.receivedNs) ≤ target := by
  unfold judge at taken
  split at taken
  next => cases taken
  next reached =>
    rw [not_lt] at reached
    cases item with
    | invalidation i => cases taken
    | quote r =>
      dsimp only at taken
      by_cases within : (if decision then r.acceptedNs else r.receivedNs) ≤ target
      · rw [if_pos within] at taken
        cases taken
        exact ⟨rfl, reached, within⟩
      · rw [if_neg within] at taken
        cases taken

theorem select_sound (found : select history target known decision = some q) :
    .quote q ∈ history ∧ q.acceptedNs ≤ known ∧
    (if decision then q.acceptedNs else q.receivedNs) ≤ target := by
  obtain ⟨item, member, taken⟩ := Retention.latest_mem found
  obtain ⟨rfl, bounds⟩ := judge_take taken
  exact ⟨List.mem_reverse.mp member, bounds⟩

end Select

/-- Every symbol's history holds quotes of that symbol only. -/
def Owned (grid : Grid) : Prop := ∀ symbol q, .quote q ∈ grid.history symbol → q.symbol = symbol

def key (e : Evaluation) : ℕ × Symbol := (e.slot, e.symbol)

def slotKeys (slot : ℕ) : List (ℕ × Symbol) := symbols.map fun symbol => (slot, symbol)

/-- What the first loop records of one evaluation. -/
structure Evaluated (grid : Grid) (now : ℤ) (e : Evaluation) : Prop where
  atNs : e.atNs = slotNs grid.protocol e.slot
  recordedNs : e.recordedNs = now
  entry : e.missedScheduledSlot = false →
    e.entry = select (grid.history e.symbol) e.atNs e.atNs true

theorem evaluated_ok {grid : Grid} (owned : Owned grid) {now : ℤ} {slot : ℕ}
    (inside : slot < slots) (due : slotNs grid.protocol slot ≤ now) (symbol : Symbol) :
    let atNs := slotNs grid.protocol slot
    let missed : Bool := 10 * ns ≤ now - atNs
    let entry := if missed then none else select (grid.history symbol) atNs atNs true
    ∃ e, evaluation slot symbol atNs now missed entry = .ok e ∧ key e = (slot, symbol) ∧
      Evaluated grid now e := by
  intro atNs missed entry
  have decision : ∀ q ∈ entry, missed = false ∧ q.symbol = symbol ∧ q.acceptedNs ≤ atNs := by
    intro q found
    cases shown : missed with
    | true => simp [entry, shown] at found
    | false =>
      simp only [entry, shown, Bool.false_eq_true, if_false, Option.mem_def] at found
      obtain ⟨member, accepted, -⟩ := select_sound found
      exact ⟨rfl, owned symbol q member, accepted⟩
  have timing : atNs ≤ now ∧ missed = decide (10 * ns ≤ now - atNs) := ⟨due, rfl⟩
  refine ⟨⟨slot, symbol, atNs, now, missed, entry, inside, timing, decision⟩, ?_, rfl, rfl, rfl, ?_⟩
  · rw [evaluation, dif_pos inside, dif_pos timing, dif_pos decision]
  · intro shown
    exact if_neg (by simpa using shown)

theorem evaluateSymbols_ok {grid : Grid} (owned : Owned grid) {now : ℤ} {slot : ℕ}
    (inside : slot < slots) (due : slotNs grid.protocol slot ≤ now) (rest : List Symbol) :
    ∃ es, evaluateSymbols now slot grid rest =
        ({ grid with pending := grid.pending ++ es, nextSlot := slot + 1 }, .ok es) ∧
      es.map key = rest.map (fun symbol => (slot, symbol)) ∧ ∀ e ∈ es, Evaluated grid now e := by
  induction rest generalizing grid with
  | nil => exact ⟨[], by simp [evaluateSymbols], rfl, by simp⟩
  | cons symbol rest ih =>
    obtain ⟨e, made, named, evaluated⟩ := evaluated_ok owned inside due symbol
    obtain ⟨es, result, keys, others⟩ := @ih { grid with pending := grid.pending ++ [e] } owned due
    refine ⟨e :: es, ?_, by simp [named, keys], ?_⟩
    · simp only [evaluateSymbols]
      rw [made]
      dsimp only
      rw [result]
      simp
    · rw [List.forall_mem_cons]
      exact ⟨evaluated, fun o member => ⟨(others o member).atNs, (others o member).recordedNs,
        (others o member).entry⟩⟩

theorem evaluateSlots_ok {grid : Grid} (owned : Owned grid) (now : ℤ) {count : ℕ}
    (fits : grid.nextSlot + count ≤ slots) :
    ∃ es due, evaluateSlots now grid (List.range' grid.nextSlot count) =
        ({ grid with pending := grid.pending ++ es, nextSlot := grid.nextSlot + due }, .ok es) ∧
      due ≤ count ∧ es.map key = (List.range' grid.nextSlot due).flatMap slotKeys ∧
      (∀ e ∈ es, Evaluated grid now e) ∧
      (∀ slot, grid.nextSlot ≤ slot → slot < grid.nextSlot + due →
        slotNs grid.protocol slot ≤ now) ∧
      (due < count → now < slotNs grid.protocol (grid.nextSlot + due)) := by
  induction count generalizing grid with
  | zero => exact ⟨[], 0, by simp [evaluateSlots], le_refl _, rfl, by simp, by omega, by omega⟩
  | succ count ih =>
    rw [List.range'_succ, evaluateSlots]
    by_cases reached : slotNs grid.protocol grid.nextSlot ≤ now
    · rw [if_pos reached]
      obtain ⟨first, swept, firstKeys, firstEvaluated⟩ :=
        evaluateSymbols_ok owned (by omega) reached symbols
      obtain ⟨es, due, result, bound, keys, evaluated, early, stopped⟩ :=
        @ih { grid with pending := grid.pending ++ first, nextSlot := grid.nextSlot + 1 } owned
          (by dsimp only; omega)
      dsimp only at result bound keys early stopped
      refine ⟨first ++ es, due + 1, ?_, by omega, ?_, ?_, ?_, ?_⟩
      · rw [swept]
        dsimp only
        rw [result]
        simp only [List.append_assoc, Prod.mk.injEq, and_true]
        congr 1
        omega
      · rw [List.map_append, keys, firstKeys, List.range'_succ, List.flatMap_cons]
        rfl
      · intro e member
        rcases List.mem_append.mp member with here | later
        · exact firstEvaluated e here
        · exact ⟨(evaluated e later).atNs, (evaluated e later).recordedNs, (evaluated e later).entry⟩
      · intro slot low high
        rcases eq_or_lt_of_le low with rfl | above
        · exact reached
        · exact early slot (by omega) (by omega)
      · intro less
        have next := stopped (by omega)
        rwa [show grid.nextSlot + (due + 1) = grid.nextSlot + 1 + due by omega]
    · rw [if_neg reached]
      exact ⟨[], 0, by simp, by omega, rfl, by simp, by omega, fun _ => not_le.mp reached⟩

/-- What the second loop records of one label. -/
structure Settled (grid : Grid) (now : ℤ) (l : Label) : Prop where
  resolvedNs : l.resolvedNs = now
  future : l.future = select (grid.history l.evaluation.symbol) (l.evaluation.atNs + 60 * ns)
    (l.evaluation.atNs + 62 * ns) false

theorem resolve_ok (grid : Grid) {now : ℤ} {e : Evaluation} (due : e.atNs + 62 * ns ≤ now) :
    ∃ l, resolve now grid e = .ok l ∧ l.evaluation = e ∧ Settled grid now l := by
  generalize found : select (grid.history e.symbol) (e.atNs + 60 * ns) (e.atNs + 62 * ns) false =
    future
  have horizon : ∀ q ∈ future, q.receivedNs ≤ e.atNs + 60 * ns ∧ q.acceptedNs ≤ e.atNs + 62 * ns := by
    intro q member
    obtain ⟨-, accepted, received⟩ := select_sound (found.trans member)
    exact ⟨received, accepted⟩
  refine ⟨⟨e, now, _, future, _, _, ⟨rfl, due⟩, horizon, rfl, rfl⟩, ?_, rfl, rfl, found.symm⟩
  simp only [resolve, found]
  rw [label, dif_pos ⟨rfl, due⟩, dif_pos horizon, dif_pos rfl, dif_pos rfl]

theorem settle_ok (grid : Grid) (now : ℤ) (queue : List Evaluation) :
    ∃ ls rest, settle now grid queue = ({ grid with pending := rest }, .ok ls) ∧
      ls.map Label.evaluation ++ rest = queue ∧ (∀ l ∈ ls, Settled grid now l) ∧
      ∀ e ∈ rest.head?, now < e.atNs + 62 * ns := by
  induction queue with
  | nil => exact ⟨[], [], rfl, rfl, by simp, by simp⟩
  | cons e queue ih =>
    rw [settle]
    by_cases due : e.atNs + 62 * ns ≤ now
    · rw [if_pos due]
      obtain ⟨l, resolved, same, settled⟩ := resolve_ok grid due
      obtain ⟨ls, rest, result, order, others, stopped⟩ := ih
      refine ⟨l :: ls, rest, ?_, by simp [same, order], ?_, stopped⟩
      · rw [resolved]
        dsimp only
        rw [result]
      · rw [List.forall_mem_cons]
        exact ⟨settled, others⟩
    · rw [if_neg due]
      exact ⟨[], e :: queue, rfl, rfl, by simp, by simpa using due⟩

/-- Pruning only drops items past the horizon, and raises nothing but its own budget. -/
theorem prune_spec (atNs : ℤ) (grid : Grid) (order : List Symbol) :
    ∃ kept cache, (prune atNs grid order).1 = { grid with history := kept, maximumCache := cache } ∧
      (∀ symbol log, Retains Item.acceptedNs (atNs - 70 * ns) log (grid.history symbol) →
        Retains Item.acceptedNs (atNs - 70 * ns) log (kept symbol)) ∧
      ((prune atNs grid order).2 = .ok () ∨ (prune atNs grid order).2 = .error .cacheBudget) := by
  induction order generalizing grid with
  | nil => exact ⟨grid.history, grid.maximumCache, rfl, fun _ _ retains => retains, .inl rfl⟩
  | cons symbol order ih =>
    have drops : ∀ s log, Retains Item.acceptedNs (atNs - 70 * ns) log (grid.history s) →
        Retains Item.acceptedNs (atNs - 70 * ns) log
          ((grid.setHistory symbol (Retention.prune Item.acceptedNs (atNs - 70 * ns)
            (grid.history symbol))).history s) := by
      intro s log retains
      dsimp only [Grid.setHistory]
      split
      next same => subst same; exact retains.prune
      next => exact retains
    rw [prune]
    split
    next => exact ⟨_, grid.maximumCache, rfl, drops, .inr rfl⟩
    next =>
      obtain ⟨kept, cache, result, retains, outcome⟩ := ih _
      exact ⟨kept, cache, result, fun s log before => retains s log (drops s log before), outcome⟩

/-- All that receiving one item can do. -/
inductive Received (grid : Grid) (item : Item) : Grid × Except GridError Unit → Prop where
  | regressed (backwards : item.acceptedNs < grid.lastClock) :
      Received grid item (grid, .error .clockRegression)
  | stored (kept cache outcome) (forwards : grid.lastClock ≤ item.acceptedNs)
      (retains : ∀ symbol log, Retains Item.acceptedNs (item.acceptedNs - 70 * ns) log
          (grid.history symbol ++ seen symbol [item]) →
        Retains Item.acceptedNs (item.acceptedNs - 70 * ns) log (kept symbol))
      (sound : outcome = .ok () ∨ outcome = .error .cacheBudget) :
      Received grid item ({ grid with
        lastClock := item.acceptedNs, history := kept, maximumCache := cache }, outcome)

theorem Received.of_prune {grid stamped : Grid} {item : Item} (forwards : grid.lastClock ≤ item.acceptedNs)
    (frame : stamped = { grid with
      lastClock := item.acceptedNs, history := fun s => grid.history s ++ seen s [item] }) :
    Received grid item (prune item.acceptedNs stamped symbols) := by
  obtain ⟨kept, cache, result, retains, sound⟩ := prune_spec item.acceptedNs stamped symbols
  rw [frame] at result retains
  rw [← Prod.eta (prune item.acceptedNs stamped symbols), frame, result]
  rw [frame] at sound
  exact .stored kept cache _ forwards retains sound

theorem accept_received (grid : Grid) (q : Quote) : Received grid (.quote q) (accept grid q) := by
  unfold accept clock
  by_cases backwards : q.acceptedNs < grid.lastClock
  · rw [if_pos backwards]; exact .regressed backwards
  · rw [if_neg backwards]
    refine @Received.of_prune grid _ (.quote q) (not_lt.mp backwards) ?_
    simp only [Grid.append, Grid.setHistory, Item.acceptedNs, Grid.mk.injEq, and_true, true_and]
    funext s
    by_cases same : s = q.symbol
    · simp [same, seen, concerns]
    · simp [same, seen, concerns, Ne.symm same]

theorem invalidate_received (grid : Grid) (i : Invalidation) :
    Received grid (.invalidation i) (invalidate grid i) := by
  unfold invalidate clock
  by_cases backwards : i.acceptedNs < grid.lastClock
  · rw [if_pos backwards]; exact .regressed backwards
  · rw [if_neg backwards]
    refine @Received.of_prune grid _ (.invalidation i) (not_lt.mp backwards) ?_
    simp only [Grid.append, Grid.setHistory, Item.acceptedNs, symbols, List.foldl, Grid.mk.injEq,
      and_true, true_and]
    funext s
    cases s <;> rfl

/-- A sweep over the due slots and the matured labels, followed by pruning. -/
structure Swept (grid : Grid) (now : ℤ) (next : Grid) (es : List Evaluation) (ls : List Label) :
    Prop where
  forwards : grid.lastClock ≤ now
  protocol : next.protocol = grid.protocol
  lastClock : next.lastClock = now
  history : ∀ symbol log, Retains Item.acceptedNs (now - 70 * ns) log (grid.history symbol) →
    Retains Item.acceptedNs (now - 70 * ns) log (next.history symbol)
  queue : ls.map Label.evaluation ++ next.pending = grid.pending ++ es
  progress : grid.nextSlot ≤ next.nextSlot ∧ next.nextSlot ≤ slots
  keys : es.map key =
    (List.range' grid.nextSlot (next.nextSlot - grid.nextSlot)).flatMap slotKeys
  early : ∀ slot, grid.nextSlot ≤ slot → slot < next.nextSlot → slotNs grid.protocol slot ≤ now
  stopped : next.nextSlot < slots → now < slotNs grid.protocol next.nextSlot
  evaluated : ∀ e ∈ es, Evaluated grid now e
  settled : ∀ l ∈ ls, Settled grid now l
  waiting : ∀ e ∈ next.pending.head?, now < e.atNs + 62 * ns

/-- All that one `advance` can do, with the evaluations it makes. -/
inductive Advanced (grid : Grid) (now : ℤ) :
    Grid × Except GridError (List Evaluation × List Label) → List Evaluation → Prop where
  | regressed (backwards : now < grid.lastClock) :
      Advanced grid now (grid, .error .clockRegression) []
  | overdue (forwards : grid.lastClock ≤ now) :
      Advanced grid now ({ grid with lastClock := now }, .error .backlogBudget) []
  | overfull (next es ls) (swept : Swept grid now next es ls) :
      Advanced grid now (next, .error .cacheBudget) es
  | returned (next es ls) (swept : Swept grid now next es ls) :
      Advanced grid now (next, .ok (es, ls)) es

theorem advance_outcome {grid : Grid} (owned : Owned grid) (inside : grid.nextSlot ≤ slots) (now : ℤ) :
    Advanced grid now (advance grid now) (madeBy grid now) := by
  unfold advance madeBy moveClock clock
  by_cases backwards : now < grid.lastClock
  · rw [if_pos backwards]; exact .regressed backwards
  · rw [if_neg backwards]
    rw [not_lt] at backwards
    dsimp only
    by_cases late : grid.nextSlot < slots ∧ 2560 * ns ≤ now - slotNs grid.protocol grid.nextSlot
    · rw [if_pos late]; exact .overdue backwards
    · rw [if_neg late]
      obtain ⟨es, due, evaluated, bound, keys, facts, early, stopped⟩ :=
        @evaluateSlots_ok { grid with lastClock := now } owned now (slots - grid.nextSlot)
          (by dsimp only; omega)
      dsimp only [ahead] at evaluated bound keys early stopped ⊢
      rw [evaluated]
      dsimp only
      obtain ⟨ls, rest, settled, queue, resolved, waiting⟩ := settle_ok { grid with
        lastClock := now, pending := grid.pending ++ es, nextSlot := grid.nextSlot + due
        maximumBacklog := max grid.maximumBacklog (grid.pending ++ es).length } now (grid.pending ++ es)
      rw [settled]
      dsimp only
      obtain ⟨kept, cache, pruned, retains, outcome⟩ := prune_spec now { grid with
        lastClock := now, pending := rest, nextSlot := grid.nextSlot + due
        maximumBacklog := max grid.maximumBacklog (grid.pending ++ es).length } symbols
      generalize prune now _ symbols = result at pruned outcome ⊢
      obtain ⟨next, raised⟩ := result
      dsimp only at pruned outcome
      have sweep : Swept grid now next es ls := by
        subst pruned
        exact {
          forwards := backwards
          protocol := rfl
          lastClock := rfl
          history := retains
          queue := queue
          progress := by dsimp only; omega
          keys := by simpa using keys
          early := early
          stopped := fun less => stopped (by dsimp only at less; omega)
          evaluated := fun e member => ⟨(facts e member).atNs, (facts e member).recordedNs,
            (facts e member).entry⟩
          settled := fun l member => ⟨(resolved l member).resolvedNs, (resolved l member).future⟩
          waiting := waiting }
      rcases outcome with rfl | rfl
      · exact .returned next es ls sweep
      · exact .overfull next es ls sweep

end TradeAgent.Confirmation
