import TradeAgent.FeatureFeed

/-! The depth the engine shows: when a book is valid its levels are what its sides hold, and only a
book event that was accepted changes it. -/
namespace TradeAgent.Market

open Engine (BookSide)

def Book.side (book : Book) : BookSide → Dict ℚ ℚ
  | .bid => book.bids
  | .ask => book.asks

/-- The quantity a symbol's book holds at a price; nothing while the book is not valid. -/
def Engine.displayed (e : Engine) (symbol : String) (side : BookSide) (price : ℚ) : ℚ :=
  match e.states.get? symbol with
  | some state => if state.book.valid then (state.book.side side).getD price 0 else 0
  | none => 0

def Engine.bookValid (e : Engine) (symbol : String) : Bool :=
  (e.states.get? symbol).any fun state => state.book.valid

/-! ## What receiving an event carries over -/

/-- The book stays or is cleared; the trades known stay. -/
structure SymbolState.Carried (old new : SymbolState) : Prop where
  book : new.book = old.book ∨ new.book.Cleared
  tradeIds : new.tradeIds = old.tradeIds
  lastTradeNs : new.lastTradeNs = old.lastTradeNs

theorem SymbolState.Carried.refl (s : SymbolState) : s.Carried s := ⟨.inl rfl, rfl, rfl⟩

theorem SymbolState.Carried.trans {s t u : SymbolState} (first : s.Carried t) (second : t.Carried u) :
    s.Carried u where
  book := second.book.elim (fun same => same ▸ first.book) .inr
  tradeIds := second.tradeIds.trans first.tradeIds
  lastTradeNs := second.lastTradeNs.trans first.lastTradeNs

theorem SymbolState.invalidate_carried (s : SymbolState) (reason : String) (request : Bool) :
    s.Carried (s.invalidate reason request) := by
  refine ⟨.inr (invalidate_cleared s reason request).book, ?_, ?_⟩
  · unfold SymbolState.invalidate
    dsimp only
    split
    next => rfl
    next => split <;> rfl
  · unfold SymbolState.invalidate
    dsimp only
    split
    next => rfl
    next => split <;> rfl

/-- A relation of the states of a symbol that holds over all that receiving an event does to them. -/
structure Receives (R : SymbolState → SymbolState → Prop) : Prop where
  refl : ∀ s, R s s
  trans : ∀ {s t u}, R s t → R t u → R s u
  invalidated : ∀ (s : SymbolState) (reason : String) (request : Bool), R s (s.invalidate reason request)
  placed : ∀ (s : SymbolState) (at_ : ℤ), R s { s with lastReceivedNs := at_ }
  connected : ∀ (s : SymbolState) (connectionId : Uuid),
    R s { s with book := {}, connectionId := some connectionId, lastReceivedNs := 0, lastQuoteNs := 0 }

theorem SymbolState.carried_receives : Receives SymbolState.Carried where
  refl := .refl
  trans := .trans
  invalidated := invalidate_carried
  placed _ _ := ⟨.inl rfl, rfl, rfl⟩
  connected _ _ := ⟨.inr ⟨rfl, rfl, rfl⟩, rfl, rfl⟩

/-- Every symbol's state comes from its own before. -/
def Engine.Relates (R : SymbolState → SymbolState → Prop) (e f : Engine) : Prop :=
  ∀ symbol t, f.states.get? symbol = some t → ∃ s, e.states.get? symbol = some s ∧ R s t

section carrying

variable {settings : Settings} {arith : Arithmetic} {event : MarketEvent} {e f g : Engine}
  {symbol : String} {R : SymbolState → SymbolState → Prop} (h : Receives R)

include h

theorem Receives.same (e : Engine) : e.Relates R e := fun _ t here => ⟨t, here, h.refl t⟩

theorem Receives.chain (first : e.Relates R f) (second : f.Relates R g) : e.Relates R g := by
  intro symbol u here
  obtain ⟨t, there, later⟩ := second symbol u here
  obtain ⟨s, at_, earlier⟩ := first symbol t there
  exact ⟨s, at_, h.trans earlier later⟩

theorem Receives.resetAll (e : Engine) (reason : String) : e.Relates R (e.resetAll reason) := by
  intro symbol t here
  rw [Engine.resetAll, Dict.get?_mapValues] at here
  obtain ⟨s, there, rfl⟩ := Option.map_eq_some_iff.mp here
  exact ⟨s, there, h.invalidated s reason true⟩

theorem Receives.place (e : Engine) (event : MarketEvent) : e.Relates R (e.place event) := by
  intro symbol t here
  rw [Engine.place_get] at here
  obtain ⟨s, there, rfl⟩ := Option.map_eq_some_iff.mp here
  refine ⟨s, there, ?_⟩
  split
  · exact h.placed s _
  · exact h.refl s

theorem Receives.connect (e : Engine) (connectionId : Uuid) : e.Relates R (e.connect connectionId) := by
  intro symbol t here
  rw [Engine.connect, Dict.get?_mapValues] at here
  obtain ⟨s, there, rfl⟩ := Option.map_eq_some_iff.mp here
  exact ⟨s, there, h.trans (h.invalidated s "connection_changed" false) (h.connected _ connectionId)⟩

theorem Receives.follow (e : Engine) (event : MarketEvent) : e.Relates R (e.follow event).1 := by
  unfold Engine.follow
  split
  next => exact h.place e event
  next =>
    split
    next => exact h.same e
    next =>
      split
      next => exact h.resetAll e _
      next =>
        split
        next => exact h.resetAll e _
        next =>
          split
          next => exact h.chain (h.resetAll e _) (h.place _ event)
          next => exact h.place e event

theorem Receives.receive (e : Engine) (event : MarketEvent) : e.Relates R (e.receive event).1 := by
  unfold Engine.receive
  split
  next => exact h.follow e event
  next =>
    split
    next => exact h.resetAll e _
    next => exact h.chain (h.connect e _) (h.follow _ event)

theorem Receives.reset {name : Option String} {reason : String} (done : e.reset name reason = some f) :
    e.Relates R f := by
  unfold Engine.reset at done
  split at done
  next => cases done
  next =>
    split at done
    next =>
      obtain rfl := Option.some.inj done
      exact h.resetAll e reason
    next =>
      obtain ⟨found, -, done⟩ := Option.bind_eq_some_iff.mp done
      obtain ⟨state, there, done⟩ := Option.bind_eq_some_iff.mp done
      obtain rfl := Option.some.inj done
      intro symbol t here
      rw [Dict.get?_set] at here
      split at here
      next same =>
        obtain rfl := Option.some.inj here
        exact ⟨state, same ▸ there, h.invalidated state reason true⟩
      next => exact ⟨t, here, h.refl t⟩

/-- What an event makes of a symbol: the state received, or what handling the event makes of it. -/
theorem Receives.onEvent {state : SymbolState}
    (found : (e.onEvent settings arith event).1.states.get? symbol = some state) :
    ∃ old mid, e.states.get? symbol = some old ∧ R old mid ∧
      ((event.symbol ≠ symbol ∨ (e.onEvent settings arith event).2 = false) ∧ state = mid ∨
        event.symbol = symbol ∧ state = (Engine.handle settings arith mid event).1 ∧
          (Engine.handle settings arith mid event).2 = (e.onEvent settings arith event).2) := by
  have related : ∀ {f : Engine}, e.Relates R f → f.states.get? symbol = some state →
      ∃ old, e.states.get? symbol = some old ∧ R old state := fun relates here => relates _ _ here
  revert found
  unfold Engine.onEvent
  split
  next =>
    intro found
    obtain ⟨old, here, same⟩ := related (h.resetAll e _) found
    exact ⟨old, state, here, same, .inl ⟨.inr rfl, rfl⟩⟩
  next =>
    split
    next f received =>
      intro found
      obtain ⟨old, here, same⟩ := related (by simpa [received] using h.receive e event) found
      exact ⟨old, state, here, same, .inl ⟨.inr rfl, rfl⟩⟩
    next f received =>
      have relates : e.Relates R f := by simpa [received] using h.receive e event
      split
      next =>
        intro found
        obtain ⟨old, here, same⟩ := related relates found
        exact ⟨old, state, here, same, .inl ⟨.inr rfl, rfl⟩⟩
      next current there =>
        dsimp only
        rw [Dict.get?_set]
        intro found
        split at found
        next own =>
          obtain rfl := Option.some.inj found
          obtain ⟨old, here, same⟩ := relates _ _ there
          exact ⟨old, current, own ▸ here, same, .inr ⟨own, rfl, rfl⟩⟩
        next apart =>
          obtain ⟨old, here, same⟩ := related relates found
          exact ⟨old, state, here, same, .inl ⟨.inl apart, rfl⟩⟩

end carrying

/-! ## Depth -/

/-- Positive levels, and a valid book within its capacity. -/
structure Book.Deep (settings : Settings) (book : Book) : Prop where
  positive : Positive book.bids ∧ Positive book.asks
  sides : book.valid = true → Sides settings.maxLevels book.bids book.asks

/-- What an event leaves of a symbol's book. -/
inductive Book.Left (settings : Settings) (event : MarketEvent) (accepted : Bool) (symbol : String)
    (before after : Book) : Prop
  | same (same : after = before) (other : accepted = true → event.symbol = symbol →
      ∀ bids asks reset, event.content ≠ .book bids asks reset)
  | cleared (cleared : after.Cleared) (other : accepted = true → event.symbol = symbol →
      ∀ bids asks reset, event.content ≠ .book bids asks reset)
  | taken (bids asks : List BookLevel) (reset : Bool) (base : Book) (own : event.symbol = symbol)
      (answered : accepted = true) (content : event.content = .book bids asks reset)
      (based : base = before ∨ base.Cleared) (taken : base.Taken settings after event bids asks reset)

section books

variable {settings : Settings} {arith : Arithmetic} {event : MarketEvent} {e : Engine} {symbol : String}

theorem Book.Cleared.deep {book : Book} (cleared : book.Cleared) : book.Deep settings where
  positive := by rw [cleared.bids, cleared.asks]; exact ⟨positive_empty, positive_empty⟩
  sides valid := by rw [cleared.invalid] at valid; cases valid

theorem Book.Left.deep {accepted : Bool} {before after : Book}
    (left : Book.Left settings event accepted symbol before after) (deep : before.Deep settings) :
    after.Deep settings := by
  cases left with
  | same same _ => exact same ▸ deep
  | cleared cleared _ => exact cleared.deep
  | taken bids asks reset base own answered content based taken =>
    refine ⟨taken.positive ?_, fun _ => taken.sides⟩
    rcases based with rfl | cleared
    · exact deep.positive
    · exact (show Book.Deep settings _ from cleared.deep).positive

theorem Engine.onEvent_left {state : SymbolState}
    (found : (e.onEvent settings arith event).1.states.get? symbol = some state) :
    ∃ old, e.states.get? symbol = some old ∧
      Book.Left settings event (e.onEvent settings arith event).2 symbol old.book state.book := by
  obtain ⟨old, mid, here, carried, ⟨unhandled, rfl⟩ | ⟨own, rfl, answered⟩⟩ :=
    SymbolState.carried_receives.onEvent found
  · have other : (e.onEvent settings arith event).2 = true → event.symbol = symbol →
        ∀ bids asks reset, event.content ≠ .book bids asks reset := by
      rintro accepted own
      rcases unhandled with apart | refused
      · exact absurd own apart
      · rw [accepted] at refused
        cases refused
    exact ⟨old, here, carried.book.elim (.same · other) (.cleared · other)⟩
  · refine ⟨old, here, ?_⟩
    have outcome := handle_handled settings arith event mid
    rw [← answered]
    generalize Engine.handle settings arith mid event = result at outcome ⊢
    obtain ⟨after, answer⟩ := result
    dsimp only at outcome ⊢
    cases outcome with
    | refused cleared => exact .cleared cleared.book fun impossible => nomatch impossible
    | ended reason content cleared => exact .cleared cleared.book (by simp [content])
    | taken bids asks reset content taken bbo =>
      exact .taken bids asks reset mid.book own rfl content carried.book taken
    | kept answer noBook noReset same bbo =>
      rcases carried.book with still | cleared
      · exact .same (same.trans still) fun _ _ => noBook
      · exact .cleared (same ▸ cleared) fun _ _ => noBook

/-- An accepted event is about a configured symbol. -/
theorem Engine.onEvent_found (accepted : (e.onEvent settings arith event).2 = true) :
    ∃ state, (e.onEvent settings arith event).1.states.get? event.symbol = some state := by
  revert accepted
  unfold onEvent
  split
  next => intro impossible; cases impossible
  next =>
    split
    next => intro impossible; cases impossible
    next =>
      split
      next => intro impossible; cases impossible
      next => exact fun _ => ⟨_, Dict.get?_set_same _ _ _⟩

/-- Every book the engine holds is sound. -/
def Engine.Deep (settings : Settings) (e : Engine) : Prop :=
  ∀ symbol state, e.states.get? symbol = some state → state.book.Deep settings

theorem Engine.Deep.onEvent (deep : e.Deep settings) (event : MarketEvent) :
    (e.onEvent settings arith event).1.Deep settings := by
  intro symbol state found
  obtain ⟨old, here, left⟩ := Engine.onEvent_left found
  exact left.deep (deep symbol old here)

theorem Engine.Deep.start (settings : Settings) : (Engine.start settings).Deep settings := by
  intro symbol state found
  obtain rfl := get?_start symbol state found
  exact Book.Cleared.deep ⟨rfl, rfl, rfl⟩

end books

section depth

variable {settings : Settings} {e : Engine} {symbol : String} {side : BookSide} {price : ℚ}

theorem Book.Deep.quantity {book : Book} (deep : book.Deep settings) (side : BookSide) :
    Positive (book.side side) := by
  cases side with
  | bid => exact deep.positive.1
  | ask => exact deep.positive.2

theorem Engine.Deep.displayed_nonneg (deep : e.Deep settings) : 0 ≤ e.displayed symbol side price := by
  unfold displayed
  split
  next state found =>
    split
    next =>
      unfold Dict.getD
      cases held : (state.book.side side).get? price with
      | none => exact le_rfl
      | some quantity =>
        exact ((deep symbol state found).quantity side _ (Dict.mem_entries.mpr held)).2.le
    next => exact le_rfl
  next => exact le_rfl

/-- All levels of a valid book are shown, each at the quantity it holds. -/
theorem Engine.Deep.mem_levels (deep : e.Deep settings) {depth : ℕ} (enough : settings.maxLevels ≤ depth)
    {level : ℚ × ℚ} : level ∈ e.levels symbol side depth ↔
      ∃ state, e.states.get? symbol = some state ∧ state.book.valid = true ∧
        (state.book.side side).get? level.1 = some level.2 := by
  unfold levels
  cases found : e.states.get? symbol with
  | none => simp
  | some state =>
    dsimp only
    by_cases valid : state.book.valid = true
    · rw [if_pos valid]
      have sized := (deep symbol state found).sides valid
      have bids : (state.book.bids.entries.insertionSort fun a b => b.1 ≤ a.1).take depth =
          state.book.bids.entries.insertionSort fun a b => b.1 ≤ a.1 :=
        List.take_of_length_le (by rw [List.length_insertionSort]; exact sized.bidLevels.2.trans enough)
      have asks : (state.book.asks.entries.insertionSort fun a b => a.1 ≤ b.1).take depth =
          state.book.asks.entries.insertionSort fun a b => a.1 ≤ b.1 :=
        List.take_of_length_le (by rw [List.length_insertionSort]; exact sized.askLevels.2.trans enough)
      cases side with
      | bid =>
        dsimp only
        rw [bids, List.mem_insertionSort]
        obtain ⟨price, quantity⟩ := level
        rw [Dict.mem_entries]
        simp [valid, Book.side]
      | ask =>
        dsimp only
        rw [asks, List.mem_insertionSort]
        obtain ⟨price, quantity⟩ := level
        rw [Dict.mem_entries]
        simp [valid, Book.side]
    · rw [if_neg valid]
      simp [valid]

theorem Engine.Deep.displayed_level (deep : e.Deep settings) {depth : ℕ}
    (enough : settings.maxLevels ≤ depth) {level : ℚ × ℚ} (shown : level ∈ e.levels symbol side depth) :
    e.displayed symbol side level.1 = level.2 ∧ 0 < level.1 ∧ 0 < level.2 := by
  obtain ⟨state, found, valid, held⟩ := (deep.mem_levels enough).mp shown
  refine ⟨?_, (deep symbol state found).quantity side _ (Dict.mem_entries.mpr held)⟩
  simp only [displayed, found, valid, if_true, Dict.getD, held, Option.getD_some]

theorem Engine.displayed_valid (shown : 0 < e.displayed symbol side price) : e.bookValid symbol = true := by
  unfold displayed at shown
  unfold bookValid
  split at shown
  next state found =>
    split at shown
    next valid => rw [found]; exact valid
    next => exact absurd shown (lt_irrefl 0)
  next => exact absurd shown (lt_irrefl 0)

/-- The level at a price is found where a book shows it, with the quantity it shows. -/
theorem Engine.Deep.find_level (deep : e.Deep settings) {depth : ℕ} (enough : settings.maxLevels ≤ depth) :
    (((e.levels symbol side depth).find? fun level => level.1 = price).map Prod.snd).getD 0 =
      e.displayed symbol side price := by
  cases found : (e.levels symbol side depth).find? fun level => level.1 = price with
  | some level =>
    have here : level.1 = price := by simpa using List.find?_some found
    exact here ▸ (deep.displayed_level enough (List.mem_of_find?_eq_some found)).1.symm
  | none =>
    unfold displayed
    split
    next state there =>
      split
      next valid =>
        unfold Dict.getD
        cases held : (state.book.side side).get? price with
        | none => rfl
        | some quantity =>
          have member : (price, quantity) ∈ e.levels symbol side depth :=
            (deep.mem_levels enough).mpr ⟨state, there, valid, held⟩
          exact absurd (List.find?_eq_none.mp found _ member) (by simp)
      next => rfl
    next => rfl

/-- An event leaves what a book shows, or makes it invalid, unless it is the symbol's own book event. -/
theorem Engine.onEvent_displayed {arith : Arithmetic} {event : MarketEvent} :
    (e.onEvent settings arith event).1.bookValid symbol = false ∨
      (∀ side price, (e.onEvent settings arith event).1.displayed symbol side price =
        e.displayed symbol side price) ∧ e.bookValid symbol = true ∨
      event.symbol = symbol ∧ (e.onEvent settings arith event).2 = true ∧
        ∃ bids asks reset, event.content = .book bids asks reset := by
  unfold bookValid displayed
  cases found : (e.onEvent settings arith event).1.states.get? symbol with
  | none => exact .inl rfl
  | some state =>
    obtain ⟨old, here, left⟩ := onEvent_left found
    rw [here]
    cases left with
    | same same _ =>
      dsimp only [Option.any_some]
      rw [same]
      cases valid : old.book.valid with
      | true => exact .inr (.inl ⟨fun _ _ => rfl, rfl⟩)
      | false => exact .inl rfl
    | cleared cleared _ => exact .inl cleared.invalid
    | taken bids asks reset base own answered content based taken =>
      exact .inr (.inr ⟨own, answered, bids, asks, reset, content⟩)

/-- The symbol's own accepted book event leaves a valid book. -/
theorem Engine.onEvent_valid {arith : Arithmetic} {event : MarketEvent} {bids asks : List BookLevel}
    {reset : Bool} (accepted : (e.onEvent settings arith event).2 = true)
    (content : event.content = .book bids asks reset) {state : SymbolState}
    (found : (e.onEvent settings arith event).1.states.get? event.symbol = some state) :
    state.book.valid = true := by
  obtain ⟨old, here, left⟩ := onEvent_left found
  cases left with
  | same same other => exact absurd content (other accepted rfl bids asks reset)
  | cleared cleared other => exact absurd content (other accepted rfl bids asks reset)
  | taken _ _ _ _ _ _ _ _ taken => exact taken.valid

end depth

end TradeAgent.Market
