import Mathlib.Data.List.Induction
import TradeAgent.FeatureBook

/-! What the engine's books have to do with the events received: the last snapshot accepted, the
deltas accepted since, and no break in the receive sequence between. -/
namespace TradeAgent.Market

section feed

variable (settings : Settings) (arith : Arithmetic) (symbol : String)

def MarketEvent.isSnapshot (event : MarketEvent) : Bool :=
  match event.content with
  | .book _ _ reset => reset
  | _ => false

def MarketEvent.isBook (event : MarketEvent) : Bool :=
  match event.content with
  | .book .. => true
  | _ => false

/-- The two sides after one more book event of the feed. -/
def feedStep (sides : Dict ℚ ℚ × Dict ℚ ℚ) (event : MarketEvent) : Dict ℚ ℚ × Dict ℚ ℚ :=
  match event.content with
  | .book bids asks reset =>
    (applyLevels (if reset then .empty else sides.1) bids,
      applyLevels (if reset then .empty else sides.2) asks)
  | _ => sides

def feedBook (books : List MarketEvent) : Dict ℚ ℚ × Dict ℚ ℚ :=
  books.foldl feedStep (.empty, .empty)

/-- The symbol's book event that the engine accepts at this input, if it is one. -/
def acceptedBook (e : Engine) : Input → Option MarketEvent
  | .event event =>
    if event.symbol = symbol ∧ event.isBook ∧ (e.onEvent settings arith event).2 then some event
    else none
  | .reset .. => none

def acceptedBooks : Engine → List Input → List MarketEvent
  | _, [] => []
  | e, input :: rest =>
    (acceptedBook settings arith symbol e input).toList ++
      acceptedBooks (e.step settings arith input) rest

/-- Where a feed stands: the last event received and the time of the symbol's last book. -/
structure Standing where
  last : MarketEvent
  clock : ℤ

def Follows (previous event : MarketEvent) : Prop :=
  event.connectionId = previous.connectionId ∧
    event.receiveSequence = previous.receiveSequence + 1 ∧
    previous.receivedAtNs ≤ event.receivedAtNs ∧
    previous.receivedMonotonicNs ≤ event.receivedMonotonicNs

instance : Decidable (Follows previous event) := inferInstanceAs (Decidable (_ ∧ _ ∧ _ ∧ _))

/-- A reset from outside that the symbol feels. -/
def touches (name : Option String) (reason : String) : Bool :=
  reason ≠ "" ∧ (name = none ∨ name.bind cryptoSymbol = some symbol)

/-- The feed goes on unbroken: an event received twice, the next one of the connection, a reset of
another symbol. Its book events keep their own time. -/
def advance (at_ : Standing) : Input → Option Standing
  | .event event =>
    if event = at_.last then some at_
    else if Follows at_.last event ∧ event.symbol ∈ settings.symbols then
      if event.symbol ≠ symbol then some ⟨event, at_.clock⟩
      else match event.content with
        | .reset _ => none
        | .book .. => if at_.clock ≤ event.exchangeAtNs then some ⟨event, event.exchangeAtNs⟩ else none
        | _ => some ⟨event, at_.clock⟩
    else none
  | .reset name reason => if touches symbol name reason then none else some at_

def engineAfter (inputs : List Input) : Engine :=
  Machine.run (Engine.step settings arith) (Engine.start settings) inputs

/-- The book is what the feed's last accepted snapshot and the deltas accepted since make, and the
feed was unbroken all the while. -/
structure Since (inputs : List Input) (book : Book) (before : List Input) (snapshot : MarketEvent)
    (after : List Input) (standing : Standing) : Prop where
  split : inputs = before ++ .event snapshot :: after
  accepted : acceptedBook settings arith symbol (engineAfter settings arith before) (.event snapshot) =
    some snapshot
  whole : snapshot.isSnapshot
  deltas : ∀ event ∈ acceptedBooks settings arith symbol
    (engineAfter settings arith (before ++ [.event snapshot])) after, ¬event.isSnapshot
  sides : feedBook (snapshot :: acceptedBooks settings arith symbol
    (engineAfter settings arith (before ++ [.event snapshot])) after) = (book.bids, book.asks)
  unbroken : after.foldlM (advance settings symbol) ⟨snapshot, snapshot.exchangeAtNs⟩ = some standing

theorem engineAfter_snoc (inputs : List Input) (input : Input) :
    engineAfter settings arith (inputs ++ [input]) =
      (engineAfter settings arith inputs).step settings arith input := by
  unfold engineAfter
  rw [Machine.run_append]
  rfl

theorem engineAfter_append (before after : List Input) :
    engineAfter settings arith (before ++ after) =
      Machine.run (Engine.step settings arith) (engineAfter settings arith before) after :=
  Machine.run_append _ _ _ _

theorem acceptedBooks_snoc (e : Engine) (inputs : List Input) (input : Input) :
    acceptedBooks settings arith symbol e (inputs ++ [input]) =
      acceptedBooks settings arith symbol e inputs ++
        (acceptedBook settings arith symbol
          (Machine.run (Engine.step settings arith) e inputs) input).toList := by
  induction inputs generalizing e with
  | nil => simp [acceptedBooks]
  | cons first rest ih =>
    rw [List.cons_append, acceptedBooks, acceptedBooks, ih, List.append_assoc]
    rfl

variable {settings arith symbol} {inputs before after : List Input} {book next : Book}
  {snapshot : MarketEvent} {standing moved : Standing} {input : Input}

/-- An input with no accepted book of the symbol leaves the book the feed's. -/
theorem Since.idle (h : Since settings arith symbol inputs book before snapshot after standing)
    (none : acceptedBook settings arith symbol (engineAfter settings arith inputs) input = none)
    (advanced : advance settings symbol standing input = some moved) (bids : next.bids = book.bids)
    (asks : next.asks = book.asks) :
    Since settings arith symbol (inputs ++ [input]) next before snapshot (after ++ [input]) moved := by
  have here : Machine.run (Engine.step settings arith)
      (engineAfter settings arith (before ++ [.event snapshot])) after =
        engineAfter settings arith inputs := by
    rw [← engineAfter_append, h.split, List.append_assoc]
    rfl
  have same : acceptedBooks settings arith symbol
      (engineAfter settings arith (before ++ [.event snapshot])) (after ++ [input]) =
        acceptedBooks settings arith symbol
          (engineAfter settings arith (before ++ [.event snapshot])) after := by
    rw [acceptedBooks_snoc, here, none, Option.toList_none, List.append_nil]
  exact {
    split := by rw [h.split, List.append_assoc, List.cons_append]
    accepted := h.accepted
    whole := h.whole
    deltas := by rw [same]; exact h.deltas
    sides := by rw [same, bids, asks]; exact h.sides
    unbroken := by
      rw [List.foldlM_append, h.unbroken]
      simpa using advanced }

/-- An accepted delta takes the book on. -/
theorem Since.delta (h : Since settings arith symbol inputs book before snapshot after standing)
    {event : MarketEvent} (some_ : acceptedBook settings arith symbol (engineAfter settings arith inputs)
      (.event event) = some event) (delta : ¬event.isSnapshot)
    (advanced : advance settings symbol standing (.event event) = some moved)
    (sides : feedStep (book.bids, book.asks) event = (next.bids, next.asks)) :
    Since settings arith symbol (inputs ++ [.event event]) next before snapshot
      (after ++ [.event event]) moved := by
  have here : Machine.run (Engine.step settings arith)
      (engineAfter settings arith (before ++ [.event snapshot])) after =
        engineAfter settings arith inputs := by
    rw [← engineAfter_append, h.split, List.append_assoc]
    rfl
  have grown : acceptedBooks settings arith symbol
      (engineAfter settings arith (before ++ [.event snapshot])) (after ++ [.event event]) =
        acceptedBooks settings arith symbol
          (engineAfter settings arith (before ++ [.event snapshot])) after ++ [event] := by
    rw [acceptedBooks_snoc, here, some_, Option.toList_some]
  exact {
    split := by rw [h.split, List.append_assoc, List.cons_append]
    accepted := h.accepted
    whole := h.whole
    deltas := by
      rw [grown]
      intro other member
      rcases List.mem_append.mp member with old | new
      · exact h.deltas other old
      · rw [List.mem_singleton] at new
        exact new ▸ delta
    sides := by
      rw [grown, feedBook, ← List.cons_append, List.foldl_append]
      change feedStep (feedBook _) event = _
      rw [h.sides, sides]
    unbroken := by
      rw [List.foldlM_append, h.unbroken]
      simpa using advanced }

/-- An accepted snapshot starts the feed's book. -/
theorem Since.first {event : MarketEvent}
    (some_ : acceptedBook settings arith symbol (engineAfter settings arith inputs) (.event event) =
      some event) (whole : event.isSnapshot)
    (sides : feedStep (.empty, .empty) event = (next.bids, next.asks)) :
    Since settings arith symbol (inputs ++ [.event event]) next inputs event []
      ⟨event, event.exchangeAtNs⟩ where
  split := rfl
  accepted := some_
  whole := whole
  deltas := by simp [acceptedBooks]
  sides := by simpa [acceptedBooks, feedBook] using sides
  unbroken := rfl

end feed

section timeline

/-- The samples are in order, and none is later than the last event received. -/
structure Timeline (last : Option MarketEvent) (bbo : List Bbo) : Prop where
  sorted : bbo.Pairwise fun a b => a.exchangeNs ≤ b.exchangeNs ∧ a.receivedNs ≤ b.receivedNs
  recent : ∀ sample ∈ bbo, ∃ event, last = some event ∧ sample.receivedNs ≤ event.receivedAtNs

theorem Timeline.empty (last : Option MarketEvent) : Timeline last [] := ⟨.nil, by simp⟩

theorem Timeline.later {last : Option MarketEvent} {event : MarketEvent} {bbo : List Bbo}
    (h : Timeline last bbo) (ordered : ∀ previous, last = some previous →
      previous.receivedAtNs ≤ event.receivedAtNs) : Timeline (some event) bbo := by
  refine ⟨h.sorted, fun sample member => ⟨event, rfl, ?_⟩⟩
  obtain ⟨previous, found, early⟩ := h.recent sample member
  exact early.trans (ordered previous found)

theorem Timeline.extends {event : MarketEvent} {old new : List Bbo} (h : Timeline (some event) old)
    (grown : Extends event old new) : Timeline (some event) new := by
  obtain ⟨kept, suffix, rfl | ⟨sample, rfl, exchange, received, ordered⟩⟩ := grown.samples
  · exact ⟨h.sorted.sublist suffix.sublist, fun sample member => h.recent sample (suffix.subset member)⟩
  have sorted := h.sorted.sublist suffix.sublist
  have recent : ∀ a ∈ kept, a.receivedNs ≤ event.receivedAtNs := by
    intro a member
    obtain ⟨found, same, early⟩ := h.recent a (suffix.subset member)
    cases same
    exact early
  constructor
  · refine List.pairwise_append.mpr ⟨sorted, List.pairwise_singleton _ _, ?_⟩
    intro a member b last
    rw [List.mem_singleton] at last
    subst last
    refine ⟨?_, received ▸ recent a member⟩
    -- The newest sample kept is at least as late as every other one.
    obtain ⟨front, newest, rfl⟩ := List.eq_nil_or_concat kept |>.resolve_left (by
      rintro rfl
      cases member)
    have bound := ordered newest (by simp)
    rw [List.concat_eq_append] at sorted member
    rcases List.mem_append.mp member with early | same
    · exact ((List.pairwise_append.mp sorted).2.2 a early newest (by simp)).1.trans
        (exchange ▸ bound)
    · rw [List.mem_singleton] at same
      exact same ▸ exchange ▸ bound
  · intro a member
    refine ⟨event, rfl, ?_⟩
    rcases List.mem_append.mp member with old_ | new_
    · exact recent a old_
    · rw [List.mem_singleton] at new_
      exact new_ ▸ received.le

end timeline

section engine

variable {settings : Settings} {arith : Arithmetic}

/-- All that `receive` can make of an event. -/
inductive Engine.Received (e : Engine) (event : MarketEvent) : Engine → Bool → Prop
  | duplicate (same : e.lastEvent = some event) : Received e event e false
  | broken (reason : String) : Received e event (e.resetAll reason) false
  | follows (previous : MarketEvent) (last : e.lastEvent = some previous) (other : event ≠ previous)
      (linked : e.connectionId = some event.connectionId)
      (next : event.receiveSequence = previous.receiveSequence + 1)
      (received : previous.receivedAtNs ≤ event.receivedAtNs)
      (monotonic : previous.receivedMonotonicNs ≤ event.receivedMonotonicNs) :
      Received e event (e.place event) true
  | first (none : e.lastEvent = none) (linked : e.connectionId = some event.connectionId) :
      Received e event (e.place event) true
  | anew (base : Engine) (linked : base.connectionId = some event.connectionId)
      (cleared : ∀ symbol state, base.states.get? symbol = some state → state.Cleared)
      (same : ∀ symbol, (base.states.get? symbol).isSome = (e.states.get? symbol).isSome) :
      Received e event (base.place event) true

theorem Engine.resetAll_cleared (e : Engine) (reason : String) {symbol : String} {state : SymbolState}
    (found : (e.resetAll reason).states.get? symbol = some state) : state.Cleared := by
  rw [resetAll, Dict.get?_mapValues] at found
  obtain ⟨old, -, rfl⟩ := Option.map_eq_some_iff.mp found
  exact invalidate_cleared old reason true

theorem Engine.resetAll_symbols (e : Engine) (reason : String) (symbol : String) :
    ((e.resetAll reason).states.get? symbol).isSome = (e.states.get? symbol).isSome := by
  rw [resetAll, Dict.get?_mapValues, Option.isSome_map]

theorem Engine.connect_cleared (e : Engine) (connectionId : Uuid) {symbol : String}
    {state : SymbolState} (found : (e.connect connectionId).states.get? symbol = some state) :
    state.Cleared := by
  rw [connect, Dict.get?_mapValues] at found
  obtain ⟨old, -, rfl⟩ := Option.map_eq_some_iff.mp found
  exact ⟨⟨rfl, rfl, rfl⟩, (invalidate_cleared old "connection_changed" false).bbo⟩

theorem Engine.connect_symbols (e : Engine) (connectionId : Uuid) (symbol : String) :
    ((e.connect connectionId).states.get? symbol).isSome = (e.states.get? symbol).isSome := by
  rw [connect, Dict.get?_mapValues, Option.isSome_map]

theorem Engine.receive_received (e : Engine) (event : MarketEvent) :
    e.Received event (e.receive event).1 (e.receive event).2 := by
  unfold receive
  split
  next linked =>
    unfold follow
    split
    next none => exact .first none linked
    next previous last =>
      split
      next same => exact .duplicate (same ▸ last)
      next other =>
        split
        next => exact .broken _
        next =>
          split
          next => exact .broken _
          next ordered =>
            rw [not_or, not_lt, not_lt] at ordered
            split
            next => exact .anew _ linked (fun _ _ => e.resetAll_cleared _) (e.resetAll_symbols _)
            next next_ =>
              exact .follows previous last other linked (not_not.mp next_) ordered.1 ordered.2
  next =>
    split
    next => exact .broken _
    next => exact .anew _ rfl (fun _ _ => e.connect_cleared _) (e.connect_symbols _)

theorem Engine.place_get (e : Engine) (event : MarketEvent) (symbol : String) :
    (e.place event).states.get? symbol =
      (e.states.get? symbol).map fun state =>
        if symbol = event.symbol then { state with lastReceivedNs := event.receivedAtNs } else state := by
  rw [place, Dict.get?_modify]
  by_cases same : event.symbol = symbol
  · subst same
    simp
  · rw [if_neg same]
    simp [Ne.symm same]

variable (settings arith) in
/-- What holds of a symbol after the inputs, `last` being the event received last. -/
structure Tracked (inputs : List Input) (last : Option MarketEvent) (symbol : String)
    (state : SymbolState) : Prop where
  feed : state.book.valid = true → ∃ before snapshot after standing,
    Since settings arith symbol inputs state.book before snapshot after standing ∧
      last = some standing.last ∧ state.book.exchangeNs = standing.clock
  sides : state.book.valid = true → Sides settings.maxLevels state.book.bids state.book.asks
  positive : Positive state.book.bids ∧ Positive state.book.asks
  empty : state.book.valid = false → state.book.bids = .empty ∧ state.book.asks = .empty
  timeline : Timeline last state.bbo

variable (settings arith) in
/-- A symbol whose feed the event goes on, or that has none. -/
structure Ready (inputs : List Input) (event : MarketEvent) (symbol : String) (state : SymbolState) :
    Prop where
  feed : state.book.valid = true → ∃ before snapshot after standing,
    Since settings arith symbol inputs state.book before snapshot after standing ∧
      event ≠ standing.last ∧ Follows standing.last event ∧ state.book.exchangeNs = standing.clock
  sides : state.book.valid = true → Sides settings.maxLevels state.book.bids state.book.asks
  positive : Positive state.book.bids ∧ Positive state.book.asks
  empty : state.book.valid = false → state.book.bids = .empty ∧ state.book.asks = .empty
  timeline : Timeline (some event) state.bbo

variable {inputs : List Input} {last : Option MarketEvent} {event : MarketEvent} {symbol : String}
  {state : SymbolState} {e : Engine}

theorem positive_empty : Positive .empty := fun _ member => nomatch member

theorem SymbolState.Cleared.tracked (cleared : state.Cleared) :
    Tracked settings arith inputs last symbol state where
  feed valid := by rw [cleared.book.invalid] at valid; cases valid
  sides valid := by rw [cleared.book.invalid] at valid; cases valid
  positive := by rw [cleared.book.bids, cleared.book.asks]; exact ⟨positive_empty, positive_empty⟩
  empty _ := ⟨cleared.book.bids, cleared.book.asks⟩
  timeline := cleared.bbo ▸ .empty last

theorem SymbolState.Cleared.ready (cleared : state.Cleared) :
    Ready settings arith inputs event symbol state where
  feed valid := by rw [cleared.book.invalid] at valid; cases valid
  sides valid := by rw [cleared.book.invalid] at valid; cases valid
  positive := by rw [cleared.book.bids, cleared.book.asks]; exact ⟨positive_empty, positive_empty⟩
  empty _ := ⟨cleared.book.bids, cleared.book.asks⟩
  timeline := cleared.bbo ▸ .empty _

/-- The next event on the connection finds every tracked symbol ready. -/
theorem Tracked.ready {previous : MarketEvent}
    (h : Tracked settings arith inputs (some previous) symbol state) (other : event ≠ previous)
    (follows : Follows previous event) : Ready settings arith inputs event symbol state where
  feed valid := by
    obtain ⟨before, snapshot, after, standing, since, same, clock⟩ := h.feed valid
    cases same
    exact ⟨before, snapshot, after, standing, since, other, follows, clock⟩
  sides := h.sides
  positive := h.positive
  empty := h.empty
  timeline := h.timeline.later fun _ same => Option.some.inj same ▸ follows.2.2.1

/-- Before any event nothing is valid. -/
theorem Tracked.ready_first (h : Tracked settings arith inputs none symbol state) :
    Ready settings arith inputs event symbol state where
  feed valid := by
    obtain ⟨before, snapshot, after, standing, -, impossible, -⟩ := h.feed valid
    cases impossible
  sides := h.sides
  positive := h.positive
  empty := h.empty
  timeline := h.timeline.later fun _ impossible => by cases impossible

/-- `place` writes the time of receipt, which nothing here reads. -/
theorem Ready.stamped (h : Ready settings arith inputs event symbol state) (at_ : ℤ) :
    Ready settings arith inputs event symbol { state with lastReceivedNs := at_ } := { h with }

theorem Ready.other (h : Ready settings arith inputs event symbol state)
    (apart : event.symbol ≠ symbol) (configured : event.symbol ∈ settings.symbols) :
    Tracked settings arith (inputs ++ [.event event]) (some event) symbol state where
  feed valid := by
    obtain ⟨before, snapshot, after, standing, since, other, follows, clock⟩ := h.feed valid
    refine ⟨before, snapshot, after ++ [.event event], ⟨event, standing.clock⟩,
      since.idle ?_ ?_ rfl rfl, rfl, clock⟩
    · rw [acceptedBook, if_neg fun own => apart own.1]
    · rw [advance, if_neg other, if_pos ⟨follows, configured⟩, if_pos apart]
  sides := h.sides
  positive := h.positive
  empty := h.empty
  timeline := h.timeline

theorem Book.Taken.positive {before after : Book} {bids asks : List BookLevel} {reset : Bool}
    (taken : before.Taken settings after event bids asks reset)
    (positive : Positive before.bids ∧ Positive before.asks) :
    Positive after.bids ∧ Positive after.asks := by
  rw [taken.bids, taken.asks]
  cases reset with
  | true => exact ⟨applyLevels_positive positive_empty _, applyLevels_positive positive_empty _⟩
  | false => exact ⟨applyLevels_positive positive.1 _, applyLevels_positive positive.2 _⟩

/-- The symbol of the event itself. -/
theorem Ready.handled (h : Ready settings arith inputs event symbol state)
    (own : event.symbol = symbol) (configured : event.symbol ∈ settings.symbols)
    (answered : ((engineAfter settings arith inputs).onEvent settings arith event).2 =
      (Engine.handle settings arith state event).2) :
    Tracked settings arith (inputs ++ [.event event]) (some event) symbol
      (Engine.handle settings arith state event).1 := by
  have outcome := handle_handled settings arith event state
  generalize Engine.handle settings arith state event = result at outcome answered ⊢
  obtain ⟨t, answer⟩ := result
  dsimp only at outcome answered ⊢
  cases outcome with
  | refused cleared => exact cleared.tracked
  | ended reason content cleared => exact cleared.tracked
  | taken bids asks reset content taken bbo =>
    have isBook : event.isBook := by rw [MarketEvent.isBook, content]
    have snapshot : event.isSnapshot = reset := by rw [MarketEvent.isSnapshot, content]
    have accepted : acceptedBook settings arith symbol (engineAfter settings arith inputs)
        (.event event) = some event := by
      rw [acceptedBook, if_pos ⟨own, isBook, answered⟩]
    have step : ∀ sides, feedStep sides event =
        (applyLevels (if reset then .empty else sides.1) bids,
          applyLevels (if reset then .empty else sides.2) asks) := by
      intro sides
      rw [feedStep, content]
    refine ⟨fun _ => ?_, fun _ => taken.sides, taken.positive h.positive, ?_, h.timeline.extends bbo⟩
    · cases reset with
      | true =>
        refine ⟨inputs, event, [], ⟨event, event.exchangeAtNs⟩, .first accepted snapshot ?_, rfl,
          taken.exchangeNs⟩
        rw [step, taken.bids, taken.asks]
        rfl
      | false =>
        have valid := taken.based.resolve_left nofun
        obtain ⟨before, first, after, standing, since, other, follows, clock⟩ := h.feed valid
        refine ⟨before, first, after ++ [.event event], ⟨event, event.exchangeAtNs⟩,
          since.delta accepted (by rw [snapshot]; nofun) ?_ ?_, rfl, taken.exchangeNs⟩
        · have ordered := taken.ordered
          rw [clock] at ordered
          rw [advance, if_neg other, if_pos ⟨follows, configured⟩, if_neg (not_not.mpr own), content]
          exact if_pos ordered
        · rw [step, taken.bids, taken.asks]
    · intro invalid
      rw [taken.valid] at invalid
      cases invalid
  | kept _ noBook noReset same bbo =>
    refine ⟨fun valid => ?_, ?_, ?_, ?_, h.timeline.extends bbo⟩
    · rw [same] at valid ⊢
      obtain ⟨before, first, after, standing, since, other, follows, clock⟩ := h.feed valid
      have isBook : ¬event.isBook := by
        unfold MarketEvent.isBook
        split
        next bids asks reset content => exact absurd content (noBook bids asks reset)
        next => nofun
      refine ⟨before, first, after ++ [.event event], ⟨event, standing.clock⟩,
        since.idle ?_ ?_ rfl rfl, rfl, clock⟩
      · rw [acceptedBook, if_neg fun book => isBook book.2.1]
      · rw [advance, if_neg other, if_pos ⟨follows, configured⟩, if_neg (not_not.mpr own)]
        split
        next reason content => exact absurd content (noReset reason)
        next bids asks reset content => exact absurd content (noBook bids asks reset)
        next => rfl
    · rw [same]; exact h.sides
    · rw [same]; exact h.positive
    · rw [same]; exact h.empty

variable (settings arith) in
structure Sound (inputs : List Input) (e : Engine) : Prop where
  configured : ∀ symbol, (e.states.get? symbol).isSome ↔ symbol ∈ settings.symbols
  linked : ∀ last, e.lastEvent = some last → e.connectionId = some last.connectionId
  tracked : ∀ symbol state, e.states.get? symbol = some state →
    Tracked settings arith inputs e.lastEvent symbol state

theorem Sound.broken {input : Input} (h : Sound settings arith inputs e) (reason : String) :
    Sound settings arith (inputs ++ [input]) (e.resetAll reason) where
  configured symbol := by rw [Engine.resetAll_symbols]; exact h.configured symbol
  linked := h.linked
  tracked _ _ found := (e.resetAll_cleared reason found).tracked

/-- An input that changes nothing, and that the feed of every tracked symbol allows. -/
theorem Sound.idle {input : Input} (h : Sound settings arith inputs e)
    (allowed : ∀ symbol state standing, e.states.get? symbol = some state →
      e.lastEvent = some standing.last →
      acceptedBook settings arith symbol (engineAfter settings arith inputs) input = none ∧
        advance settings symbol standing input = some standing) :
    Sound settings arith (inputs ++ [input]) e where
  configured := h.configured
  linked := h.linked
  tracked symbol state found := by
    have before_ := h.tracked symbol state found
    refine ⟨fun valid => ?_, before_.sides, before_.positive, before_.empty, before_.timeline⟩
    obtain ⟨before, snapshot, after, standing, since, last, clock⟩ := before_.feed valid
    obtain ⟨none, advanced⟩ := allowed symbol state standing found last
    exact ⟨before, snapshot, after ++ [input], standing, since.idle none advanced rfl rfl, last, clock⟩

/-- An event that takes its place is handled by its symbol and passes the others by. -/
theorem Sound.placed {base : Engine} {state : SymbolState}
    (configured : ∀ symbol, (base.states.get? symbol).isSome ↔ symbol ∈ settings.symbols)
    (linked : base.connectionId = some event.connectionId)
    (ready : ∀ symbol state, base.states.get? symbol = some state →
      Ready settings arith inputs event symbol state)
    (found : (base.place event).states.get? event.symbol = some state)
    (answered : ((engineAfter settings arith inputs).onEvent settings arith event).2 =
      (Engine.handle settings arith state event).2) :
    Sound settings arith (inputs ++ [.event event])
      { base.place event with
        states := (base.place event).states.set event.symbol
          (Engine.handle settings arith state event).1 } := by
  have there : ∀ symbol state, (base.place event).states.get? symbol = some state →
      Ready settings arith inputs event symbol state := by
    intro symbol state found
    rw [Engine.place_get] at found
    obtain ⟨old, here, rfl⟩ := Option.map_eq_some_iff.mp found
    split
    next => exact (ready symbol old here).stamped _
    next => exact ready symbol old here
  have isConfigured : event.symbol ∈ settings.symbols := by
    apply (configured event.symbol).mp
    rw [Engine.place_get] at found
    obtain ⟨old, here, -⟩ := Option.map_eq_some_iff.mp found
    rw [here]
    rfl
  constructor
  · intro symbol
    rw [← configured symbol, Dict.get?_set]
    split
    next same =>
      subst same
      exact iff_of_true rfl ((configured event.symbol).mpr isConfigured)
    next => rw [Engine.place_get, Option.isSome_map]
  · rintro last ⟨⟩
    exact linked
  · intro symbol after here
    rw [Dict.get?_set] at here
    split at here
    next same =>
      cases here
      subst same
      exact (there event.symbol state found).handled rfl isConfigured answered
    next apart => exact (there symbol after here).other apart isConfigured

theorem Sound.onEvent (h : Sound settings arith inputs (engineAfter settings arith inputs))
    (event : MarketEvent) : Sound settings arith (inputs ++ [.event event])
      ((engineAfter settings arith inputs).onEvent settings arith event).1 := by
  set e := engineAfter settings arith inputs with here
  have placed : ∀ (base : Engine), e.receive event = (base.place event, true) →
      (∀ symbol, (base.states.get? symbol).isSome ↔ symbol ∈ settings.symbols) →
      base.connectionId = some event.connectionId →
      (∀ symbol state, base.states.get? symbol = some state →
        Ready settings arith inputs event symbol state) →
      event.symbol ∈ settings.symbols →
      Sound settings arith (inputs ++ [.event event]) (e.onEvent settings arith event).1 := by
    intro base received configured linked ready member
    obtain ⟨old, present⟩ := Option.isSome_iff_exists.mp ((h.configured event.symbol).mpr member)
    obtain ⟨own, there⟩ := Option.isSome_iff_exists.mp ((configured event.symbol).mpr member)
    obtain ⟨state, found⟩ : ∃ state, (base.place event).states.get? event.symbol = some state := by
      rw [Engine.place_get, there]
      exact ⟨_, rfl⟩
    have ran : e.onEvent settings arith event =
        ({ base.place event with
            states := (base.place event).states.set event.symbol
              (Engine.handle settings arith state event).1 },
          (Engine.handle settings arith state event).2) := by
      simp only [Engine.onEvent, present, received, found]
    rw [ran]
    exact Sound.placed configured linked ready found (by rw [← here, ran])
  cases present : e.states.get? event.symbol with
  | none =>
    simp only [Engine.onEvent, present]
    exact h.broken _
  | some old =>
    have member : event.symbol ∈ settings.symbols := (h.configured _).mp (by rw [present]; rfl)
    have outcome := e.receive_received event
    generalize received : e.receive event = result at outcome
    obtain ⟨next, answer⟩ := result
    dsimp only at outcome
    cases outcome with
    | duplicate same =>
      have ran : e.onEvent settings arith event = (e, false) := by
        simp only [Engine.onEvent, present, received]
      rw [ran]
      refine h.idle fun symbol state standing found last => ⟨?_, ?_⟩
      · rw [acceptedBook, ← here, ran, if_neg fun accepted => by cases accepted.2.2]
      · rw [same] at last
        exact if_pos (Option.some.inj last)
    | broken reason =>
      have ran : e.onEvent settings arith event = (e.resetAll reason, false) := by
        simp only [Engine.onEvent, present, received]
      rw [ran]
      exact h.broken reason
    | follows previous last other linked next received_ monotonic =>
      have same := h.linked previous last
      rw [linked] at same
      refine placed e received h.configured linked (fun symbol state found => ?_) member
      have tracked := h.tracked symbol state found
      rw [last] at tracked
      exact tracked.ready other ⟨Option.some.inj same, next, received_, monotonic⟩
    | first none linked =>
      refine placed e received h.configured linked (fun symbol state found => ?_) member
      have tracked := h.tracked symbol state found
      rw [none] at tracked
      exact tracked.ready_first
    | anew base linked cleared same =>
      refine placed base received (fun symbol => ?_) linked
        (fun symbol state found => (cleared symbol state found).ready) member
      rw [same, h.configured symbol]

theorem Sound.reset (h : Sound settings arith inputs e) (name : Option String) (reason : String) :
    Sound settings arith (inputs ++ [.reset name reason]) ((e.reset name reason).getD e) := by
  have untouched : (∀ symbol, symbol ∈ settings.symbols → touches symbol name reason = false) →
      Sound settings arith (inputs ++ [.reset name reason]) e := by
    intro apart
    refine h.idle fun symbol state standing found _ => ⟨rfl, ?_⟩
    have member := (h.configured symbol).mp (by rw [found]; rfl)
    simp [advance, apart symbol member]
  unfold Engine.reset
  split
  next blank => exact untouched fun symbol _ => by simp [touches, blank]
  next =>
    split
    next => exact h.broken reason
    next name =>
      cases canonical : cryptoSymbol name with
      | none => exact untouched fun symbol _ => by simp [touches, canonical]
      | some target =>
        cases present : e.states.get? target with
        | none =>
          have unknown : target ∉ settings.symbols := by
            rw [← h.configured target, present]
            intro known
            cases known
          simp only [Option.bind_eq_bind, Option.bind_some, present, Option.bind_none, Option.getD_none]
          refine untouched fun symbol member => ?_
          have apart : target ≠ symbol := fun same => unknown (same ▸ member)
          simp [touches, canonical, apart]
        | some old =>
          simp only [Option.bind_eq_bind, Option.bind_some, present, Option.pure_def, Option.getD_some]
          constructor
          · intro symbol
            rw [← h.configured symbol, Dict.get?_set]
            split
            next same => exact iff_of_true rfl (by rw [← same, present]; rfl)
            next => rfl
          · exact h.linked
          · intro symbol state found
            rw [Dict.get?_set] at found
            split at found
            next => cases found; exact (invalidate_cleared old reason true).tracked
            next apart =>
              have before_ := h.tracked symbol state found
              refine ⟨fun valid => ?_, before_.sides, before_.positive, before_.empty,
                before_.timeline⟩
              obtain ⟨before, snapshot, after, standing, since, last, clock⟩ := before_.feed valid
              refine ⟨before, snapshot, after ++ [.reset (some name) reason], standing,
                since.idle rfl ?_ rfl rfl, last, clock⟩
              simp [advance, touches, canonical, apart]

theorem get?_start (symbol : String) (state : SymbolState)
    (found : (Engine.start settings).states.get? symbol = some state) : state = {} := by
  rcases Dict.get?_update found with member | ⟨impossible, -⟩
  · obtain ⟨name, -, same⟩ := List.mem_map.mp member
    exact (Prod.mk.inj same).2.symm
  · cases impossible

theorem Sound.start : Sound settings arith [] (Engine.start settings) where
  configured symbol := by
    show ((Dict.ofList _).get? symbol).isSome ↔ _
    rw [Dict.isSome_ofList, List.map_map]
    simp
  linked := by
    intro last impossible
    cases impossible
  tracked symbol state found := by
    rw [get?_start symbol state found]
    exact SymbolState.Cleared.tracked ⟨⟨rfl, rfl, rfl⟩, rfl⟩

variable (settings arith) in
theorem run_sound (inputs : List Input) :
    Sound settings arith inputs (engineAfter settings arith inputs) := by
  induction inputs using List.reverseRecOn with
  | nil => exact .start
  | append_singleton before input ih =>
    rw [engineAfter_snoc]
    cases input with
    | event event => exact ih.onEvent event
    | reset name reason => exact ih.reset name reason

variable (settings arith) in
/-- Every configured symbol has a book, and after any inputs it is what the feed made it. -/
theorem book_is_feed (inputs : List Input) :
    let e := engineAfter settings arith inputs
    (∀ symbol, (e.states.get? symbol).isSome ↔ symbol ∈ settings.symbols) ∧
      ∀ symbol state, e.states.get? symbol = some state →
        Tracked settings arith inputs e.lastEvent symbol state := by
  have sound := run_sound settings arith inputs
  exact ⟨sound.configured, sound.tracked⟩

/-- Arithmetic that neither rounds nor fails. -/
def exactArithmetic : Arithmetic where
  add a b := .ok (a + b)
  sub a b := .ok (a - b)
  mul a b := .ok (a * b)
  div a b := .ok (a / b)
  float _ := .ok ()

def oneSymbol : Settings where
  symbols := ["BTC/USD"]
  levelsPositive := levels_kept
  eventsPositive := events_kept

def level (price quantity : ℕ) (priced : 0 < price) : BookLevel :=
  ⟨price, quantity, by exact_mod_cast priced, by positivity⟩

def bookEvent (sequence : ℕ) (bids asks : List BookLevel) (reset : Bool) : MarketEvent where
  eventId := "c:" ++ toString sequence
  symbol := "BTC/USD"
  exchangeAtNs := 1000 * sequence
  exchangeTimestamp := ""
  receivedAtNs := 1000 * sequence
  receivedMonotonicNs := sequence
  connectionId := "c"
  receiveSequence := sequence
  content := .book bids asks reset

/-- A snapshot and a delta make a valid book, a gap after them an empty one. -/
example :
    let snapshot := bookEvent 1 [level 9 2 (by decide)] [level 11 3 (by decide)] true
    let delta := bookEvent 2 [level 10 1 (by decide), level 9 0 (by decide)] [] false
    let later := bookEvent 4 [] [level 12 1 (by decide)] false
    let book := fun inputs => ((engineAfter oneSymbol exactArithmetic inputs).states.get?
      "BTC/USD").map fun state => (state.book.valid, state.book.bids.entries)
    book [.event snapshot, .event delta] = some (true, [(10, 1)]) ∧
      book [.event snapshot, .event delta, .event later] = some (false, []) := by
  decide +kernel

end engine

end TradeAgent.Market
