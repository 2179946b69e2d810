import TradeAgent.CryptoMarketFeed
import TradeAgent.Library.Machine

/-! No overflow is silent: what was dropped is followed by a reset of every symbol before any later
market event comes out of the queue. -/
namespace TradeAgent.Market.Feed

/-- What was consumed, what the stream holds and what is queued, in that order. -/
def line (f : Feed) : List Item := f.consumed ++ (f.consumer.hand ++ f.queue)

/-- The queue only ever holds what was produced, in the order it was. -/
structure Lined (f : Feed) : Prop where
  serials : f.produced.map Item.serial = List.range f.produced.length
  ordered : f.line.Sublist f.produced

/-- New items follow the ones produced before. -/
structure Continues (f : Feed) (items : List Item) : Prop where
  serials : items.map Item.serial = List.range' f.produced.length items.length

/-- A reset of each symbol, nothing else. -/
structure Resets (symbols : List String) (items : List Item) : Prop where
  all : ∀ symbol ∈ symbols, ∃ item ∈ items, item.resets symbol
  only : ∀ item ∈ items, item.isMarket = false

/-- The producer adds to the queue. -/
structure Grows (f g : Feed) (items : List Item) : Prop where
  consumer : g.consumer = f.consumer
  consumed : g.consumed = f.consumed
  dropped : g.dropped = f.dropped
  queue : g.queue = f.queue ++ items
  produced : g.produced = f.produced ++ items
  continues : Continues f items

/-- The producer empties the queue and puts resets there, then perhaps more. -/
structure Spills (symbols : List String) (f g : Feed) (lost resets tail : List Item) : Prop where
  consumer : g.consumer = f.consumer
  consumed : g.consumed = f.consumed
  dropped : ∃ more, g.dropped = f.dropped ++ more ∧ ∀ d ∈ more, d ∈ f.queue ∨ d ∈ lost
  queue : g.queue = resets ++ tail
  produced : g.produced = f.produced ++ (lost ++ (resets ++ tail))
  continues : Continues f (lost ++ (resets ++ tail))
  resets : Resets symbols resets

/-- What a move of the producer can do. -/
def Flows (symbols : List String) (f g : Feed) : Prop :=
  (∃ items, Grows f g items) ∨ ∃ lost resets tail, Spills symbols f g lost resets tail

section producer

variable {settings : FeedSettings} {symbols : List String} {f g h : Feed} {items more : List Item}

theorem Continues.append (first : Continues f items) (same : g.produced = f.produced ++ items)
    (second : Continues g more) : Continues f (items ++ more) where
  serials := by
    rw [List.map_append, first.serials, second.serials, same, List.length_append, List.length_append,
      List.range'_append_1]

theorem Grows.refl (f : Feed) : Grows f f [] :=
  ⟨rfl, rfl, rfl, (List.append_nil _).symm, (List.append_nil _).symm, ⟨rfl⟩⟩

theorem Grows.trans (first : Grows f g items) (second : Grows g h more) :
    Grows f h (items ++ more) where
  consumer := second.consumer.trans first.consumer
  consumed := second.consumed.trans first.consumed
  dropped := second.dropped.trans first.dropped
  queue := by rw [second.queue, first.queue, List.append_assoc]
  produced := by rw [second.produced, first.produced, List.append_assoc]
  continues := first.continues.append first.produced second.continues

theorem Grows.spills {lost resets tail : List Item} (first : Grows f g items)
    (second : Spills symbols g h lost resets tail) :
    Spills symbols f h (items ++ lost) resets tail where
  consumer := second.consumer.trans first.consumer
  consumed := second.consumed.trans first.consumed
  dropped := by
    obtain ⟨more, dropped, origin⟩ := second.dropped
    refine ⟨more, by rw [dropped, first.dropped], fun d member => ?_⟩
    rcases origin d member with queued | lost_
    · rw [first.queue] at queued
      rcases List.mem_append.mp queued with old | new
      · exact .inl old
      · exact .inr (List.mem_append_left _ new)
    · exact .inr (List.mem_append_right _ lost_)
  queue := second.queue
  produced := by rw [second.produced, first.produced]; simp
  continues := by
    have both := first.continues.append first.produced second.continues
    rwa [← List.append_assoc] at both
  resets := second.resets

theorem Spills.grows {lost resets tail : List Item} (first : Spills symbols f g lost resets tail)
    (second : Grows g h items) : Spills symbols f h lost resets (tail ++ items) where
  consumer := second.consumer.trans first.consumer
  consumed := second.consumed.trans first.consumed
  dropped := second.dropped ▸ first.dropped
  queue := by rw [second.queue, first.queue, List.append_assoc]
  produced := by rw [second.produced, first.produced]; simp
  continues := by
    have both := first.continues.append first.produced second.continues
    simpa only [List.append_assoc] using both
  resets := first.resets

/-- What the first spill put into the queue may be lost to the second. -/
theorem Spills.spills {lost resets tail lost' resets' tail' : List Item}
    (first : Spills symbols f g lost resets tail) (second : Spills symbols g h lost' resets' tail') :
    Spills symbols f h (lost ++ (resets ++ tail) ++ lost') resets' tail' where
  consumer := second.consumer.trans first.consumer
  consumed := second.consumed.trans first.consumed
  dropped := by
    obtain ⟨more, dropped, origin⟩ := first.dropped
    obtain ⟨more', dropped', origin'⟩ := second.dropped
    refine ⟨more ++ more', by rw [dropped', dropped, List.append_assoc], fun d member => ?_⟩
    rcases List.mem_append.mp member with early | late
    · rcases origin d early with old | new
      · exact .inl old
      · exact .inr (List.mem_append_left _ (List.mem_append_left _ new))
    · rcases origin' d late with queued | new
      · rw [first.queue] at queued
        exact .inr (List.mem_append_left _ (List.mem_append_right _ queued))
      · exact .inr (List.mem_append_right _ new)
  queue := second.queue
  produced := by rw [second.produced, first.produced]; simp
  continues := by
    have both := first.continues.append first.produced second.continues
    rwa [← List.append_assoc] at both
  resets := second.resets

theorem Flows.refl (f : Feed) : Flows symbols f f := .inl ⟨[], .refl f⟩

theorem Flows.trans (first : Flows symbols f g) (second : Flows symbols g h) :
    Flows symbols f h := by
  rcases first with ⟨items, grows⟩ | ⟨lost, resets, tail, spills⟩
  · rcases second with ⟨more, grows'⟩ | ⟨lost', resets', tail', spills'⟩
    · exact .inl ⟨_, grows.trans grows'⟩
    · exact .inr ⟨_, _, _, grows.spills spills'⟩
  · rcases second with ⟨more, grows'⟩ | ⟨lost', resets', tail', spills'⟩
    · exact .inr ⟨_, _, _, spills.grows grows'⟩
    · exact .inr ⟨_, _, _, spills.spills spills'⟩

/-- Nothing but the queue and its history matters. -/
structure SameLine (f g : Feed) : Prop where
  consumer : g.consumer = f.consumer
  consumed : g.consumed = f.consumed
  dropped : g.dropped = f.dropped
  queue : g.queue = f.queue
  produced : g.produced = f.produced

theorem SameLine.flows (same : SameLine f g) : Flows symbols f g := by
  refine .inl ⟨[], same.consumer, same.consumed, same.dropped, ?_, ?_, ⟨rfl⟩⟩
  · rw [same.queue, List.append_nil]
  · rw [same.produced, List.append_nil]

variable (settings)

/-- The resets that `resetEvents` puts into the queue. -/
def resetItems (f : Feed) (connectionId : Uuid) (reason : String) (reading : Reading) : List Item :=
  settings.symbols.mapIdx fun i symbol =>
    ⟨f.produced.length + i, resetEvent connectionId (f.sequence + 1 + i) symbol reason reading i⟩

theorem resetItems_continues (f : Feed) (connectionId : Uuid) (reason : String) (reading : Reading) :
    Continues f (f.resetItems settings connectionId reason reading) where
  serials := by
    apply List.ext_getElem?
    intro i
    by_cases inside : i < settings.symbols.length <;> simp [resetItems, inside]

theorem resetItems_resets (f : Feed) (connectionId : Uuid) (reason : String) (reading : Reading) :
    Resets settings.symbols (f.resetItems settings connectionId reason reading) where
  all symbol member := by
    obtain ⟨i, inside, rfl⟩ := List.mem_iff_getElem.mp member
    refine ⟨_, List.mem_iff_getElem.mpr ⟨i, by simpa [resetItems] using inside, rfl⟩, ?_⟩
    simp [resetItems, Item.resets, resetEvent, Content.isReset]
  only item member := by
    obtain ⟨i, inside, rfl⟩ := List.mem_iff_getElem.mp member
    simp [resetItems, Item.isMarket, resetEvent, Content.isReset]

theorem resetEvents_flows (f : Feed) (reason : String) (reading : Reading) :
    Flows settings.symbols f (f.resetEvents settings reason reading) := by
  unfold resetEvents
  split
  next => exact .refl f
  next connectionId _ =>
    dsimp only
    split
    next =>
      refine .inr ⟨[], f.resetItems settings connectionId reason reading, [], rfl, rfl,
        ⟨f.queue, rfl, fun d member => .inl member⟩, (List.append_nil _).symm, ?_, ?_, ?_⟩
      · rw [List.append_nil]
        rfl
      · rw [List.append_nil]
        exact resetItems_continues settings f connectionId reason reading
      · exact resetItems_resets settings f connectionId reason reading
    next =>
      exact .inl ⟨f.resetItems settings connectionId reason reading, rfl, rfl, rfl, rfl, rfl,
        resetItems_continues settings f connectionId reason reading⟩

theorem resetEvents_after (same : SameLine f g) (reason : String) (reading : Reading) :
    Flows settings.symbols f (g.resetEvents settings reason reading) :=
  same.flows.trans (resetEvents_flows settings g reason reading)

/-- A full queue spills: with a reset of every symbol there would be no room for the rest. -/
theorem publish_flows (f : Feed) (event : MarketEvent) (reading : Reading) {connectionId : Uuid}
    (connected : f.connectionId = some connectionId) :
    Flows settings.symbols f (f.publish settings event reading).1 := by
  unfold publish
  dsimp only
  split
  next full =>
    have some_ : 0 < settings.symbols.length := List.length_pos_of_ne_nil settings.nonempty
    have crowded : settings.queueCapacity < f.queue.length + settings.symbols.length := by omega
    let item : Item := ⟨f.produced.length, event⟩
    let lost : Feed := { f with
      produced := f.produced ++ [item], dropped := f.dropped ++ [item], health := .reconnecting }
    have continues : Continues f [item] := ⟨rfl⟩
    refine .inr ⟨[item], lost.resetItems settings connectionId "queue_overflow" reading, [], ?_⟩
    have ran : lost.resetEvents settings "queue_overflow" reading =
        { lost.drain with
          queue := [] ++ lost.resetItems settings connectionId "queue_overflow" reading
          produced := lost.produced ++ lost.resetItems settings connectionId "queue_overflow" reading
          sequence := lost.sequence + settings.symbols.length
          books := lost.books.update
            (settings.symbols.map fun symbol => (symbol, { reason := "queue_overflow" })) } := by
      simp only [resetEvents, lost, connected, if_pos crowded]
      rfl
    show Spills _ f (lost.resetEvents settings "queue_overflow" reading) _ _ _
    rw [ran]
    constructor
    · rfl
    · rfl
    · refine ⟨[item] ++ f.queue, List.append_assoc .., fun d member => ?_⟩
      exact (List.mem_append.mp member).symm
    · exact (List.append_nil _).symm
    · rw [List.append_nil]
      exact List.append_assoc ..
    · rw [List.append_nil]
      exact continues.append rfl (resetItems_continues settings lost connectionId _ reading)
    · exact resetItems_resets settings lost connectionId _ reading
  next =>
    exact .inl ⟨[⟨f.produced.length, event⟩], rfl, rfl, rfl, rfl, rfl, ⟨rfl⟩⟩

theorem publish_connected (f : Feed) (event : MarketEvent) (reading : Reading) :
    (f.publish settings event reading).1.connectionId = f.connectionId := by
  unfold publish
  dsimp only
  split
  next =>
    unfold resetEvents
    split <;> rename_i found
    · rfl
    · dsimp only
      split <;> rfl
  next => rfl

theorem check_same (f : Feed) (event : MarketEvent) : SameLine f (f.check settings event).1 ∧
    (f.check settings event).1.connectionId = f.connectionId := by
  have same : SameLine f f ∧ f.connectionId = f.connectionId := ⟨⟨rfl, rfl, rfl, rfl, rfl⟩, rfl⟩
  unfold check
  split
  next => exact same
  next =>
    split
    next =>
      split
      next => exact same
      next => exact ⟨⟨rfl, rfl, rfl, rfl, rfl⟩, rfl⟩
    next => split <;> exact same
    next => exact same

theorem accept_flows (f : Feed) (event : MarketEvent) (reading : Reading) {connectionId : Uuid}
    (connected : f.connectionId = some connectionId) :
    Flows settings.symbols f (f.accept settings event reading).1 ∧
      (f.accept settings event reading).1.connectionId = some connectionId := by
  unfold accept
  split
  next => exact ⟨.refl f, connected⟩
  next =>
    have flows := publish_flows settings f event reading connected
    have linked := (publish_connected settings f event reading).trans connected
    split
    next g fault published =>
      rw [published] at flows linked
      exact ⟨flows, linked⟩
    next g published =>
      rw [published] at flows linked
      obtain ⟨same, kept⟩ := check_same settings g event
      exact ⟨flows.trans same.flows, kept.trans linked⟩

theorem consumeMessage_flows (f : Feed) {connectionId : Uuid}
    (connected : f.connectionId = some connectionId) (atNs monotonicNs : ℤ) (reading : Reading)
    (message : Message) :
    Flows settings.symbols f
      (f.consumeMessage settings connectionId atNs monotonicNs reading message).1 ∧
    (f.consumeMessage settings connectionId atNs monotonicNs reading message).1.connectionId =
      some connectionId := by
  have counted : Flows settings.symbols f { f with sequence := f.sequence + 1 } :=
    SameLine.flows ⟨rfl, rfl, rfl, rfl, rfl⟩
  cases message with
  | control => exact ⟨.refl f, connected⟩
  | undecodable => exact ⟨counted, connected⟩
  | market decoded =>
    obtain ⟨flows, linked⟩ := accept_flows settings { f with sequence := f.sequence + 1 }
      (decoded.event connectionId (f.sequence + 1) atNs monotonicNs) reading connected
    exact ⟨counted.trans flows, linked⟩

theorem consumeMessages_flows (f : Feed) {connectionId : Uuid}
    (connected : f.connectionId = some connectionId) (atNs monotonicNs : ℤ) (reading : Reading)
    (messages : List Message) :
    Flows settings.symbols f
      (f.consumeMessages settings connectionId atNs monotonicNs reading messages).1 := by
  induction messages generalizing f with
  | nil => exact .refl f
  | cons message rest ih =>
    obtain ⟨flows, linked⟩ :=
      consumeMessage_flows settings f connected atNs monotonicNs reading message
    unfold consumeMessages
    split
    next g fault consumed =>
      rw [consumed] at flows
      exact flows
    next g consumed =>
      rw [consumed] at flows linked
      exact flows.trans (ih g linked)

theorem settleHealth_same (f : Feed) (atNs : ℤ) : SameLine f (f.settleHealth settings atNs).1 := by
  have same : SameLine f f := ⟨rfl, rfl, rfl, rfl, rfl⟩
  unfold settleHealth
  dsimp only
  split
  next =>
    split
    next => exact same
    next => split <;> exact ⟨rfl, rfl, rfl, rfl, rfl⟩
  next => split <;> exact ⟨rfl, rfl, rfl, rfl, rfl⟩

theorem consume_flows (f : Feed) (messages : List Message) (atNs monotonicNs : ℤ) (reading : Reading) :
    Flows settings.symbols f (f.consume settings messages atNs monotonicNs reading).1 := by
  unfold consume
  split
  next => exact .refl f
  next => exact .refl f
  next connectionId _ connected =>
    have flows := consumeMessages_flows settings f connected atNs monotonicNs reading messages
    split
    next g fault consumed =>
      rw [consumed] at flows
      exact flows
    next g consumed =>
      rw [consumed] at flows
      exact flows.trans (settleHealth_same settings g atNs).flows

theorem raise_same (f : Feed) (fault : Option FeedFault) : SameLine f (f.raise fault) := by
  cases fault <;> exact ⟨rfl, rfl, rfl, rfl, rfl⟩

theorem requestResnapshot_flows (f : Feed) (reason : String) (connectionId : Option Uuid)
    (reading : Reading) :
    Flows settings.symbols f (f.requestResnapshot settings reason connectionId reading) := by
  unfold requestResnapshot
  split
  next => exact .refl f
  next =>
    split
    next => exact .refl f
    next =>
      split
      next => exact .refl f
      next =>
        refine resetEvents_after settings ?_ reason reading
        exact ⟨rfl, rfl, rfl, rfl, rfl⟩

theorem announce_flows (f : Feed) (fault : FeedFault) (reading : Reading) :
    Flows settings.symbols f (f.announce settings fault reading) := by
  unfold announce
  split
  next =>
    refine resetEvents_after settings ?_ _ reading
    exact ⟨rfl, rfl, rfl, rfl, rfl⟩
  next => exact SameLine.flows ⟨rfl, rfl, rfl, rfl, rfl⟩

theorem handle_flows (f : Feed) (fault : FeedFault) (reading : Reading) :
    Flows settings.symbols f (f.handle settings fault reading) := by
  have announced := announce_flows settings f fault reading
  unfold handle
  split
  next => exact SameLine.flows ⟨rfl, rfl, rfl, rfl, rfl⟩
  next => split <;> exact announced.trans (SameLine.flows ⟨rfl, rfl, rfl, rfl, rfl⟩)

theorem stepRunner_flows (f : Feed) (move : FeedMove) :
    Flows settings.symbols f (f.stepRunner settings move) := by
  unfold stepRunner
  split
  next connectionId reading =>
    split
    next => exact .refl f
    next =>
      refine resetEvents_after settings ?_ _ reading
      exact ⟨rfl, rfl, rfl, rfl, rfl⟩
  next messages atNs monotonicNs reading =>
    split
    next => exact .refl f
    next =>
      have opened : Flows settings.symbols f { f with
          subscriptionStartedNs := some atNs, health := .awaitingSnapshots, runner := .connected } :=
        SameLine.flows ⟨rfl, rfl, rfl, rfl, rfl⟩
      exact (opened.trans (consume_flows settings _ messages atNs monotonicNs reading)).trans
        (raise_same _ _).flows
  next messages atNs monotonicNs reading =>
    split
    next => exact .refl f
    next =>
      exact (consume_flows settings f messages atNs monotonicNs reading).trans (raise_same _ _).flows
  next fault =>
    split
    next => exact (raise_same f (some fault)).flows
    next => exact .refl f
  next =>
    split
    next => exact (raise_same f _).flows
    next => exact (raise_same f _).flows
    next => exact .refl f
  next reading =>
    split
    next fault _ => exact handle_flows settings f fault reading
    next => exact .refl f
  next =>
    split
    next => exact .refl f
    next => exact SameLine.flows ⟨rfl, rfl, rfl, rfl, rfl⟩
  next =>
    split
    next => exact .refl f
    next => exact SameLine.flows ⟨rfl, rfl, rfl, rfl, rfl⟩
  next reading =>
    split
    next =>
      unfold finish
      refine resetEvents_after settings ?_ _ reading
      exact ⟨rfl, rfl, rfl, rfl, rfl⟩
    next => exact .refl f
  next => exact .refl f

end producer

section order

variable {settings : FeedSettings} {symbols : List String} {f g : Feed} {items : List Item}

theorem Continues.bound (continues : Continues f items) {item : Item} (member : item ∈ items) :
    f.produced.length ≤ item.serial := by
  have serial : item.serial ∈ items.map Item.serial := List.mem_map_of_mem member
  rw [continues.serials, List.mem_range'_1] at serial
  exact serial.1

theorem Lined.produced_serials (h : Lined f) (continues : Continues f items) :
    (f.produced ++ items).map Item.serial = List.range (f.produced ++ items).length := by
  rw [List.map_append, h.serials, continues.serials, List.length_append, List.range_eq_range',
    List.range_eq_range', ← List.range'_append_1]
  simp

theorem Lined.bound (h : Lined f) {item : Item} (member : item ∈ f.produced) :
    item.serial < f.produced.length := by
  have serial : item.serial ∈ f.produced.map Item.serial := List.mem_map_of_mem member
  rwa [h.serials, List.mem_range] at serial

theorem Lined.increasing (h : Lined f) : f.line.Pairwise fun a b => a.serial < b.serial := by
  have produced : f.produced.Pairwise fun a b => a.serial < b.serial := by
    rw [← List.pairwise_map, h.serials]
    exact List.pairwise_lt_range
  exact produced.sublist h.ordered

theorem Lined.flows (h : Lined f) (flows : Flows symbols f g) : Lined g := by
  rcases flows with ⟨items, grows⟩ | ⟨lost, resets, tail, spills⟩
  · constructor
    · rw [grows.produced]
      exact h.produced_serials grows.continues
    · rw [line, grows.consumed, grows.consumer, grows.queue, grows.produced, ← List.append_assoc,
        ← List.append_assoc]
      exact (show ((f.consumed ++ f.consumer.hand) ++ f.queue).Sublist f.produced by
        simpa [line] using h.ordered).append (List.Sublist.refl items)
  · constructor
    · rw [spills.produced]
      exact h.produced_serials spills.continues
    · have kept : (f.consumed ++ f.consumer.hand).Sublist f.produced := by
        refine List.Sublist.trans ?_ h.ordered
        rw [line, ← List.append_assoc]
        exact List.sublist_append_left _ _
      rw [line, spills.consumed, spills.consumer, spills.queue, spills.produced, ← List.append_assoc]
      exact kept.append (List.sublist_append_right lost _)

/-- The stream passes items on, or closes and drops what it holds. -/
structure Passes (f g : Feed) : Prop where
  produced : g.produced = f.produced
  dropped : g.dropped = f.dropped
  closed : f.consumer = .closed → g.consumer = .closed
  consumed : f.consumed <+: g.consumed
  line : g.line = f.line ∨ g.consumer = .closed ∧ g.line.Sublist f.line

theorem Passes.refl (f : Feed) : Passes f f := ⟨rfl, rfl, id, List.prefix_rfl, .inl rfl⟩

theorem stepConsumer_passes (settings : FeedSettings) (f : Feed) (move : FeedMove) :
    Passes f (f.stepConsumer settings move) := by
  unfold stepConsumer
  split
  next =>
    split
    next => exact .refl f
    next unstarted =>
      rw [not_not] at unstarted
      split
      all_goals
        refine ⟨rfl, rfl, fun closed => ?_, List.prefix_rfl, .inl ?_⟩
        · rw [unstarted] at closed
          cases closed
        · simp [line, Consumer.hand, unstarted]
  next =>
    split
    next item rest ready queue =>
      refine ⟨rfl, rfl, id, List.prefix_append _ _, .inl ?_⟩
      simp [line, Consumer.hand, ready, queue]
    next => exact .refl f
  next =>
    split
    next idle =>
      refine ⟨rfl, rfl, fun closed => ?_, List.prefix_rfl, .inl ?_⟩
      · rw [idle.1] at closed
        cases closed
      · simp [line, Consumer.hand, idle.1]
    next => exact .refl f
  next =>
    split
    next item rest waiting queue =>
      refine ⟨rfl, rfl, fun closed => ?_, List.prefix_rfl, .inl ?_⟩
      · rw [waiting] at closed
        cases closed
      · simp [line, Consumer.hand, waiting, queue]
    next => exact .refl f
  next =>
    split
    next item holding =>
      refine ⟨rfl, rfl, fun closed => ?_, List.prefix_append _ _, .inl ?_⟩
      · rw [holding] at closed
        cases closed
      · simp [line, Consumer.hand, holding]
    next => exact .refl f
  next =>
    split
    next idle =>
      refine ⟨rfl, rfl, fun closed => ?_, List.prefix_rfl, .inl ?_⟩
      · rw [idle.1] at closed
        cases closed
      · simp [line, Consumer.hand, idle.1]
    next => exact .refl f
  next =>
    split
    next idle =>
      refine ⟨rfl, rfl, fun closed => ?_, List.prefix_rfl, .inl ?_⟩
      · rw [idle.1] at closed
        cases closed
      · simp [line, Consumer.hand, idle.1]
    next => exact .refl f
  next =>
    refine ⟨rfl, rfl, fun _ => rfl, List.prefix_rfl, .inr ⟨rfl, ?_⟩⟩
    simp [line, Consumer.hand]
  next => exact .refl f

theorem Lined.passes (h : Lined f) (passes : Passes f g) : Lined g where
  serials := by rw [passes.produced]; exact h.serials
  ordered := by
    rw [passes.produced]
    rcases passes.line with same | ⟨-, fewer⟩
    · rw [same]; exact h.ordered
    · exact fewer.trans h.ordered

/-- Every move is one of the producer's or one of the stream's. -/
theorem step_cases (settings : FeedSettings) (f : Feed) (move : FeedMove) :
    Flows settings.symbols f (f.step settings move) ∨ Passes f (f.step settings move) := by
  unfold step
  split
  next reason connectionId reading =>
    exact .inl (requestResnapshot_flows settings f reason connectionId reading)
  next => exact .inl (SameLine.flows ⟨rfl, rfl, rfl, rfl, rfl⟩)
  all_goals first
    | exact .inl (stepRunner_flows settings f _)
    | exact .inr (stepConsumer_passes settings f _)

theorem Lined.step (h : Lined f) (move : FeedMove) : Lined (f.step settings move) := by
  rcases step_cases settings f move with flows | passes
  · exact h.flows flows
  · exact h.passes passes

variable (settings) in
def after (moves : List FeedMove) : Feed := Machine.run (Feed.step settings) {} moves

variable (settings) in
theorem after_lined (moves : List FeedMove) : Lined (after settings moves) := by
  have initial : Lined {} := ⟨rfl, List.Sublist.slnil⟩
  exact Machine.run_invariant (fun f move (h : Lined f) => h.step move) initial moves

end order

section announced

variable {settings : FeedSettings} {symbols : List String} {f g : Feed} {symbol : String} {d n : ℕ}

/-- A reset of the symbol later than `d` comes before all market events later than `d`. -/
def Announced (symbol : String) (d : ℕ) (l : List Item) : Prop :=
  ∃ before reset rest, l = before ++ reset :: rest ∧ reset.resets symbol ∧ d < reset.serial ∧
    ∀ item ∈ before, item.isMarket → item.serial ≤ d

theorem Announced.append {l : List Item} (h : Announced symbol d l) (more : List Item) :
    Announced symbol d (l ++ more) := by
  obtain ⟨before, reset, rest, rfl, resets, later, quiet⟩ := h
  exact ⟨before, reset, rest ++ more, by simp, resets, later, quiet⟩

/-- Resets of every symbol announce whatever an early front comes before. -/
theorem Announced.of_resets {front resets tail : List Item} (all : Resets symbols resets)
    (member : symbol ∈ symbols) (later : ∀ reset ∈ resets, d < reset.serial)
    (quiet : ∀ item ∈ front, item.isMarket → item.serial ≤ d) :
    Announced symbol d (front ++ (resets ++ tail)) := by
  obtain ⟨reset, here, found⟩ := all.all symbol member
  obtain ⟨earlier, rest, split⟩ := List.append_of_mem here
  refine ⟨front ++ earlier, reset, rest ++ tail, by simp [split], found, later reset here, ?_⟩
  intro item member market
  rcases List.mem_append.mp member with old | new
  · exact quiet item old market
  · have isReset := all.only item (split ▸ List.mem_append_left _ new)
    rw [isReset] at market
    cases market

/-- What takes the place of a queue keeps the drop announced, with resets of every symbol first. -/
theorem Announced.replace {front queue resets tail : List Item}
    (h : Announced symbol d (front ++ queue)) (all : Resets symbols resets) (member : symbol ∈ symbols)
    (later : ∀ reset ∈ resets, d < reset.serial) :
    Announced symbol d (front ++ (resets ++ tail)) := by
  obtain ⟨before, reset, rest, split, found, late, quiet⟩ := h
  rcases List.append_eq_append_iff.mp split with ⟨middle, same, -⟩ | ⟨middle, same, inQueue⟩
  · apply Announced.of_resets all member later
    exact fun item inside => quiet item (same ▸ List.mem_append_left _ inside)
  · cases middle with
    | nil =>
      apply Announced.of_resets all member later
      rw [same, List.append_nil]
      exact quiet
    | cons first others =>
      obtain ⟨rfl, -⟩ := List.cons.inj inQueue
      exact Announced.append ⟨before, reset, others, same, found, late, quiet⟩ _

/-- The drop of the item with serial `d`, when `n` items were consumed, stays announced. -/
structure Warned (symbol : String) (d n : ℕ) (f : Feed) : Prop where
  consumed : n ≤ f.consumed.length
  produced : d < f.produced.length
  announced : f.consumer = .closed ∨ Announced symbol d (f.line.drop n)

theorem line_drop (f : Feed) (consumed : n ≤ f.consumed.length) (queue : List Item) :
    (f.consumed ++ (f.consumer.hand ++ queue)).drop n =
      (f.consumed ++ f.consumer.hand).drop n ++ queue := by
  rw [← List.append_assoc, List.drop_append_of_le_length (by simp; omega)]

theorem Warned.flows (h : Warned symbol d n f) (flows : Flows symbols f g) (member : symbol ∈ symbols) :
    Warned symbol d n g := by
  rcases flows with ⟨items, grows⟩ | ⟨lost, resets, tail, spills⟩
  · refine ⟨grows.consumed ▸ h.consumed, ?_, h.announced.imp (grows.consumer.trans ·) fun old => ?_⟩
    · rw [grows.produced, List.length_append]
      exact h.produced.trans_le (Nat.le_add_right _ _)
    · rw [line, grows.consumed, grows.consumer, grows.queue, line_drop f h.consumed,
        ← List.append_assoc]
      rw [line, line_drop f h.consumed] at old
      exact old.append items
  · have later : ∀ reset ∈ resets, d < reset.serial := by
      intro reset inside
      have bound := spills.continues.bound
        (List.mem_append_right lost (List.mem_append_left tail inside))
      exact h.produced.trans_le bound
    refine ⟨spills.consumed ▸ h.consumed, ?_, h.announced.imp (spills.consumer.trans ·) fun old => ?_⟩
    · rw [spills.produced, List.length_append]
      exact h.produced.trans_le (Nat.le_add_right _ _)
    · rw [line, spills.consumed, spills.consumer, spills.queue, line_drop f h.consumed]
      rw [line, line_drop f h.consumed] at old
      exact old.replace spills.resets member later

theorem Warned.passes (h : Warned symbol d n f) (passes : Passes f g) : Warned symbol d n g := by
  refine ⟨h.consumed.trans passes.consumed.length_le, passes.produced ▸ h.produced, ?_⟩
  rcases passes.line with same | ⟨closed, -⟩
  · rw [same]
    exact h.announced.imp_left passes.closed
  · exact .inl closed

theorem Warned.step (h : Warned symbol d n f) (member : symbol ∈ settings.symbols) (move : FeedMove) :
    Warned symbol d n (f.step settings move) := by
  rcases step_cases settings f move with flows | passes
  · exact h.flows flows member
  · exact h.passes passes

/-- A move that drops an item announces the drop. -/
theorem Lined.warned (lined : Lined f) (move : FeedMove) {item : Item}
    (dropped : item ∈ (f.step settings move).dropped.drop f.dropped.length)
    (member : symbol ∈ settings.symbols) :
    Warned symbol item.serial f.consumed.length (f.step settings move) := by
  rcases step_cases settings f move with flows | passes
  · rcases flows with ⟨items, grows⟩ | ⟨lost, resets, tail, spills⟩
    · rw [grows.dropped, List.drop_length] at dropped
      cases dropped
    · obtain ⟨more, grown, origin⟩ := spills.dropped
      rw [grown, List.drop_left] at dropped
      have increasing := lined.increasing
      rw [line, List.pairwise_append] at increasing
      have handFirst := (List.pairwise_append.mp increasing.2.1).2.2
      have inProduced : ∀ x ∈ f.consumer.hand ++ f.queue, x ∈ f.produced := fun x inside =>
        lined.ordered.subset (List.mem_append_right _ inside)
      have serials := lined.produced_serials spills.continues
      rw [← spills.produced] at serials
      have here : item ∈ (f.step settings move).produced := by
        rw [spills.produced]
        rcases origin item dropped with queued | new
        · exact List.mem_append_left _ (inProduced item (List.mem_append_right _ queued))
        · exact List.mem_append_right _ (List.mem_append_left _ new)
      have later : ∀ reset ∈ resets, item.serial < reset.serial := by
        intro reset inside
        rcases origin item dropped with queued | new
        · exact (lined.bound (inProduced item (List.mem_append_right _ queued))).trans_le
            (spills.continues.bound (List.mem_append_right lost (List.mem_append_left tail inside)))
        · have order := spills.continues.serials
          have sorted : (lost ++ (resets ++ tail)).Pairwise fun a b => a.serial < b.serial := by
            rw [← List.pairwise_map, order]
            exact List.pairwise_lt_range'
          exact (List.pairwise_append.mp sorted).2.2 item new reset (List.mem_append_left _ inside)
      have early : ∀ x ∈ f.consumer.hand, x.isMarket → x.serial ≤ item.serial := by
        intro x inside _
        rcases origin item dropped with queued | new
        · exact (handFirst x inside item queued).le
        · exact (lined.bound (inProduced x (List.mem_append_left _ inside))).le.trans
            (spills.continues.bound (List.mem_append_left _ new))
      refine ⟨spills.consumed ▸ le_rfl, ?_, .inr ?_⟩
      · have serial : item.serial ∈ (f.step settings move).produced.map Item.serial :=
          List.mem_map_of_mem here
        rwa [serials, List.mem_range] at serial
      · rw [line, spills.consumed, spills.consumer, spills.queue, List.drop_left]
        exact .of_resets spills.resets member later early
  · rw [passes.dropped, List.drop_length] at dropped
    cases dropped

end announced

/-- The stream yields what was produced in its order; and of every item dropped, each symbol hears
by a later reset, before it gets any later market event and at the latest with the queue's end. -/
theorem overflow_announced (settings : FeedSettings) (moves : List FeedMove) :
    let t := after settings moves
    (t.consumed.filter Item.isMarket).Sublist (t.produced.filter Item.isMarket) ∧
    t.produced.map Item.serial = List.range t.produced.length ∧
    ∀ before move rest, moves = before ++ move :: rest →
      let f := after settings before
      ∀ d ∈ (f.step settings move).dropped.drop f.dropped.length, ∀ symbol ∈ settings.symbols,
        t.consumer ≠ .closed →
        (∀ early item late, t.consumed.drop f.consumed.length = early ++ item :: late →
          item.isMarket → d.serial < item.serial →
          ∃ reset ∈ early, reset.resets symbol ∧ d.serial < reset.serial) ∧
        (t.consumer.hand = [] → t.queue = [] →
          ∃ reset ∈ t.consumed.drop f.consumed.length, reset.resets symbol ∧ d.serial < reset.serial) := by
  intro t
  have lined : Lined t := after_lined settings moves
  have consumed : t.consumed.Sublist t.produced :=
    (List.sublist_append_left _ _).trans lined.ordered
  refine ⟨consumed.filter _, lined.serials, ?_⟩
  intro before move rest split f d dropped symbol member open_
  have first : Warned symbol d.serial f.consumed.length (f.step settings move) :=
    (after_lined settings before).warned move dropped member
  have warned : Warned symbol d.serial f.consumed.length t := by
    have ran : t = Machine.run (Feed.step settings) (f.step settings move) rest := by
      simp only [t, split, after, Machine.run_append, f]
      rfl
    rw [ran]
    exact Machine.run_invariant
      (fun g move (h : Warned symbol d.serial f.consumed.length g) => h.step member move) first rest
  obtain ⟨front, reset, later, whole, found, late, quiet⟩ := warned.announced.resolve_left open_
  rw [line, List.drop_append_of_le_length warned.consumed] at whole
  constructor
  · intro early item late_ cut market after_
    rw [cut, List.append_assoc] at whole
    rcases List.append_eq_append_iff.mp whole with ⟨middle, same, next⟩ | ⟨middle, same, next⟩
    · cases middle with
      | nil =>
        obtain ⟨rfl, -⟩ := List.cons.inj next
        rw [Item.resets, decide_eq_true_eq] at found
        simp [Item.isMarket, found.1] at market
      | cons head tail =>
        obtain ⟨rfl, -⟩ := List.cons.inj next
        exact absurd (quiet item (same ▸ by simp) market) (not_le.mpr after_)
    · cases middle with
      | nil =>
        obtain ⟨rfl, -⟩ := List.cons.inj next
        rw [Item.resets, decide_eq_true_eq] at found
        simp [Item.isMarket, found.1] at market
      | cons head tail =>
        obtain ⟨rfl, -⟩ := List.cons.inj next
        exact ⟨reset, same ▸ by simp, found, late⟩
  · intro hand queue
    rw [hand, queue, List.append_nil, List.append_nil] at whole
    exact ⟨reset, by rw [whole]; simp, found, late⟩

def narrow : FeedSettings where
  symbols := ["BTC/USD"]
  queueCapacity := 1
  nonempty := by decide
  distinct := by decide
  accommodates := by decide

/-- In a queue of one place the first trade pushes the connection's reset out, and is lost too. -/
example :
    let reading : Reading := ⟨1000, "", fun _ => 1⟩
    let trade : Decoded := ⟨"BTC/USD", 1, "", 1, 1, none, .trade 1 1 "t" none (by decide) (by decide), rfl⟩
    let f := after narrow [.begin_, .open_ "c" reading, .subscribed [.market trade] 1 1 reading, .take]
    f.dropped.map Item.serial = [1, 0] ∧ f.consumed.map Item.serial = [2] := by
  decide +kernel

end TradeAgent.Market.Feed
