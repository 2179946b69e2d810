import TradeAgent.BookFeatureEngine
import TradeAgent.Library.Machine

/-! A valid book is the feed's book: the last accepted snapshot with every accepted delta since, on
one unbroken receive sequence. -/
namespace TradeAgent.Market

open Procedure (Triple)

section book

/-- Positive levels on both sides, no more than the book may hold, no bid at an ask. -/
structure Sides (maxLevels : ℕ) (bids asks : Dict ℚ ℚ) : Prop where
  bidLevels : bids.entries ≠ [] ∧ bids.entries.length ≤ maxLevels
  askLevels : asks.entries ≠ [] ∧ asks.entries.length ≤ maxLevels
  uncrossed : ∀ bid ∈ bids.keys, ∀ ask ∈ asks.keys, bid < ask

/-- Prices and quantities above zero. -/
def Positive (side : Dict ℚ ℚ) : Prop := ∀ e ∈ side.entries, 0 < e.1 ∧ 0 < e.2

theorem applyLevel_positive {side : Dict ℚ ℚ} (positive : Positive side) (level : BookLevel) :
    Positive (applyLevel side level) := by
  unfold applyLevel
  split
  next => exact fun e member => positive e (List.mem_of_mem_filter member)
  next counted =>
    intro e member
    rcases Dict.put_mem member with rfl | old
    · exact ⟨level.priced, lt_of_le_of_ne level.counted (Ne.symm counted)⟩
    · exact positive e old

theorem applyLevels_positive {side : Dict ℚ ℚ} (positive : Positive side) (levels : List BookLevel) :
    Positive (applyLevels side levels) := by
  induction levels generalizing side with
  | nil => exact positive
  | cons level rest ih => exact ih (applyLevel_positive positive level)

theorem refusal_none {maxLevels : ℕ} {bids asks : Dict ℚ ℚ} (fits : refusal maxLevels bids asks = none) :
    Sides maxLevels bids asks := by
  unfold refusal at fits
  split at fits
  next => cases fits
  next sized =>
    rw [not_or, not_lt, not_lt] at sized
    cases highest : bestBid bids with
    | none => rw [highest] at fits; cases fits
    | some bid =>
      cases lowest : bestAsk asks with
      | none => rw [highest, lowest] at fits; cases fits
      | some ask =>
        rw [highest, lowest] at fits
        dsimp only at fits
        split at fits
        next => cases fits
        next apart =>
          obtain ⟨bidHere, bidMost⟩ := List.max?_eq_some_iff.mp highest
          obtain ⟨askHere, askLeast⟩ := List.min?_eq_some_iff.mp lowest
          refine ⟨⟨?_, sized.1⟩, ⟨?_, sized.2⟩, ?_⟩
          · rintro none
            simp [Dict.keys, none] at bidHere
          · rintro none
            simp [Dict.keys, none] at askHere
          · intro b isBid a isAsk
            exact ((bidMost b isBid).trans_lt (not_le.mp apart)).trans_le (askLeast a isAsk)

structure Book.Cleared (book : Book) : Prop where
  bids : book.bids = .empty
  asks : book.asks = .empty
  invalid : book.valid = false

theorem Book.invalidate_cleared (book : Book) (reason : String) : (book.invalidate reason).Cleared :=
  ⟨rfl, rfl, rfl⟩

/-- What a book becomes that takes an event. -/
structure Book.Taken (settings : Settings) (before after : Book) (event : MarketEvent)
    (bids asks : List BookLevel) (reset : Bool) : Prop where
  bids : after.bids = applyLevels (if reset then .empty else before.bids) bids
  asks : after.asks = applyLevels (if reset then .empty else before.asks) asks
  valid : after.valid = true
  exchangeNs : after.exchangeNs = event.exchangeAtNs
  ordered : before.exchangeNs ≤ event.exchangeAtNs
  based : reset = true ∨ before.valid = true
  sides : Sides settings.maxLevels after.bids after.asks

theorem Book.apply_outcome (book : Book) (settings : Settings) (event : MarketEvent)
    (bids asks : List BookLevel) (reset : Bool) :
    (∃ reason, (book.apply settings event bids asks reset).2 = some reason) ∨
    (book.apply settings event bids asks reset).2 = none ∧
      book.Taken settings (book.apply settings event bids asks reset).1 event bids asks reset := by
  unfold Book.apply
  split
  next reason _ => exact .inl ⟨reason, rfl⟩
  next timely =>
    dsimp only
    split
    next reason _ => exact .inl ⟨reason, rfl⟩
    next fits =>
      unfold Book.untimely at timely
      split at timely
      next => cases timely
      next =>
        split at timely
        next => cases timely
        next ordered =>
          split at timely
          next => cases timely
          next =>
            split at timely
            next => cases timely
            next based =>
              refine .inr ⟨rfl, rfl, rfl, rfl, rfl, not_lt.mp ordered, ?_, refusal_none fits⟩
              cases reset
              · exact .inr (by simpa using based)
              · exact .inl rfl

end book

section handlers

variable {settings : Settings} {arith : Arithmetic} {event : MarketEvent} {book : Book}
  {old new : List Bbo} {s t : SymbolState}

/-- The samples kept are the newest ones, and at most one of the event's own follows them. -/
structure Extends (event : MarketEvent) (old new : List Bbo) : Prop where
  samples : ∃ kept, kept <:+ old ∧ (new = kept ∨ ∃ sample, new = kept ++ [sample] ∧
    sample.exchangeNs = event.exchangeAtNs ∧ sample.receivedNs = event.receivedAtNs ∧
    ∀ last, kept.getLast? = some last → last.exchangeNs ≤ event.exchangeAtNs)

theorem Extends.suffix (suffix : new <:+ old) : Extends event old new := ⟨new, suffix, .inl rfl⟩

/-- No sample of the event is in yet. -/
structure Awaiting (book : Book) (old : List Bbo) (s : SymbolState) : Prop where
  book : s.book = book
  bbo : s.bbo <:+ old

structure Observed (event : MarketEvent) (book : Book) (old : List Bbo) (s : SymbolState) : Prop where
  book : s.book = book
  bbo : Extends event old s.bbo

structure SymbolState.Cleared (s : SymbolState) : Prop where
  book : s.book.Cleared
  bbo : s.bbo = []

theorem Awaiting.observed (h : Awaiting book old s) : Observed event book old s :=
  ⟨h.book, .suffix h.bbo⟩

theorem invalidate_cleared (s : SymbolState) (reason : String) (request : Bool) :
    (s.invalidate reason request).Cleared := by
  unfold SymbolState.invalidate
  dsimp only
  split
  next => exact ⟨⟨rfl, rfl, rfl⟩, rfl⟩
  next => split <;> exact ⟨⟨rfl, rfl, rfl⟩, rfl⟩

theorem Awaiting.clearHistory (h : Awaiting book old s) : Awaiting book old s.clearHistory :=
  ⟨h.book, List.nil_suffix⟩

theorem Awaiting.prune (h : Awaiting book old s) (atNs : ℤ) :
    Awaiting book old (s.prune settings atNs) := by
  have dropped : Awaiting book old { s with
      bbo := s.bbo.dropWhile fun sample => sample.receivedNs < atNs - settings.retentionNs } :=
    ⟨h.book, (List.dropWhile_suffix _).trans h.bbo⟩
  unfold SymbolState.prune
  dsimp only
  split
  next => exact ⟨h.book, List.nil_suffix⟩
  next => exact ⟨dropped.book, dropped.bbo⟩

theorem nextBbo_sample {previous : Option Bbo} {bid ask bidSize askSize : ℚ} {sample : Bbo}
    (next : nextBbo arith previous event bid ask bidSize askSize = .ok (some sample)) :
    sample.exchangeNs = event.exchangeAtNs ∧ sample.receivedNs = event.receivedAtNs ∧
      ∀ last, previous = some last → last.exchangeNs ≤ event.exchangeAtNs := by
  cases previous with
  | none =>
    obtain ⟨quote, -, made⟩ := bind_ok_iff.mp next
    cases made
    exact ⟨rfl, rfl, by simp⟩
  | some old =>
    rw [nextBbo] at next
    split at next
    next => cases next
    next later =>
      obtain ⟨quote, -, rest⟩ := bind_ok_iff.mp next
      obtain ⟨ofi, -, made⟩ := bind_ok_iff.mp rest
      cases made
      exact ⟨rfl, rfl, fun last same => Option.some.inj same ▸ not_lt.mp later⟩

theorem observeBbo_spec (bid ask bidSize askSize : ℚ) :
    Triple (Awaiting book old) (observeBbo arith event bid ask bidSize askSize)
      (fun _ => Observed event book old) fun _ _ => True := by
  refine Triple.bindView fun previous => Triple.bind (Q := fun next s =>
    (Awaiting book old s ∧ s.bbo.getLast? = previous) ∧
      nextBbo arith previous event bid ask bidSize askSize = .ok next)
    (Triple.lift (fun s h next made => ⟨h, made⟩) fun _ _ _ _ => trivial) fun next => ?_
  cases next with
  | none => exact Triple.pure () fun s h => h.1.1.observed
  | some sample =>
    refine Triple.modify fun s h => ⟨h.1.1.book, ?_⟩
    obtain ⟨exchange, received, ordered⟩ := nextBbo_sample h.2
    exact ⟨s.bbo, h.1.1.bbo, .inr ⟨sample, rfl, exchange, received, fun last here =>
      ordered last (h.1.2 ▸ here)⟩⟩

theorem observeSession_leaves (price quantity : ℚ) :
    Procedure.Leaves (fun s : SymbolState => (s.book, s.bbo)) (observeSession arith price quantity) := by
  refine Procedure.Leaves.bind (.view id) fun state => Procedure.Leaves.bind (.lift _) fun volume =>
    Procedure.Leaves.bind (.lift _) fun notional => Procedure.Leaves.bind (.lift _) fun _ =>
    Procedure.Leaves.bind (.lift _) fun _ => Procedure.Leaves.bind (.modify fun _ => rfl) fun _ => ?_
  refine Procedure.Leaves.ite (.pure ()) (Procedure.Leaves.ite (.modify fun _ => rfl) ?_)
  exact Procedure.Leaves.bind (.lift _) fun total => .modify fun _ => rfl

theorem closeMinute_leaves (bar : Minute) :
    Procedure.Leaves (fun s : SymbolState => (s.book, s.bbo)) (closeMinute arith bar) := by
  refine Procedure.Leaves.bind (.view id) fun state => ?_
  split
  next => exact Procedure.Leaves.bind (.lift _) fun range => .modify fun _ => rfl
  next => exact .pure ()

theorem observeMinute_leaves (price : ℚ) (startNs : ℤ) :
    Procedure.Leaves (fun s : SymbolState => (s.book, s.bbo)) (observeMinute arith price startNs) := by
  refine Procedure.Leaves.bind (.view id) fun state => ?_
  split
  next => exact .modify fun _ => rfl
  next bar _ =>
    refine .ite (.modify fun _ => rfl) (.ite ?_ (.modify fun _ => rfl))
    exact .bind (closeMinute_leaves bar) fun _ => .modify fun _ => rfl

variable (arith event) in
theorem observeTrade_leaves (price quantity : ℚ) :
    Procedure.Leaves (fun s : SymbolState => (s.book, s.bbo))
      (observeTrade arith event price quantity) := by
  refine .bind (.modify fun s => ?_) fun _ => .bind (observeSession_leaves price quantity) fun _ =>
    observeMinute_leaves price _
  unfold openSession
  split <;> rfl

/-- All that an event can do to its symbol, with what the engine answers. -/
inductive Handled (settings : Settings) (event : MarketEvent) (before : Book) (old : List Bbo)
    (t : SymbolState) : Bool → Prop
  | refused (cleared : t.Cleared) : Handled settings event before old t false
  | ended (reason : String) (content : event.content = .reset reason) (cleared : t.Cleared) :
      Handled settings event before old t true
  | taken (bids asks : List BookLevel) (reset : Bool) (content : event.content = .book bids asks reset)
      (taken : before.Taken settings t.book event bids asks reset) (bbo : Extends event old t.bbo) :
      Handled settings event before old t true
  | kept (answer : Bool) (noBook : ∀ bids asks reset, event.content ≠ .book bids asks reset)
      (noReset : ∀ reason, event.content ≠ .reset reason) (same : t.book = before)
      (bbo : Extends event old t.bbo) : Handled settings event before old t answer

theorem refuse_spec {P : SymbolState → Prop} {E : Fault → SymbolState → Prop} (reason : String) :
    Triple P (refuse reason) (fun answer t => Handled settings event book old t answer) E := by
  refine Triple.bind (Q := fun _ t => t.Cleared) (Triple.modify fun s _ => invalidate_cleared s _ _)
    fun _ => Triple.pure false fun t cleared => .refused cleared

theorem accepted_spec {Q : Bool → SymbolState → Prop}
    (post : ∀ t, Observed event book old t → Q true t) :
    Triple (Observed event book old) (accepted event) Q fun _ _ => True := by
  refine Triple.bind (Q := fun _ => Observed event book old) (Triple.modify fun s h => ⟨h.book, h.bbo⟩)
    fun _ => Triple.pure true post

theorem recordChange_spec (before after : Book) (reset : Bool) :
    Triple (Awaiting book old) (recordChange arith event before after reset)
      (fun _ => Awaiting book old) fun _ _ => True := by
  refine Triple.ite (fun _ => Triple.modify fun s h => h.clearHistory) fun _ => ?_
  refine Triple.bind (Q := fun _ => Awaiting book old)
    (Triple.lift (fun s h _ _ => h) fun _ _ _ _ => trivial) fun change => ?_
  exact Triple.modify fun s h => ⟨h.book, h.bbo⟩

theorem recordBbo_spec (current : Book) :
    Triple (Awaiting book old) (recordBbo arith event current)
      (fun _ => Observed event book old) fun _ _ => True := by
  unfold recordBbo
  split
  next => exact observeBbo_spec _ _ _ _
  next => exact Triple.pure () fun s h => h.observed

theorem processBook_spec {bids asks : List BookLevel} {reset : Bool}
    (content : event.content = .book bids asks reset) :
    Triple (Awaiting book old) (processBook settings arith event bids asks reset)
      (fun answer t => Handled settings event book old t answer) fun _ _ => True := by
  refine Triple.bindView fun before => ?_
  refine Triple.pre (P := fun s => s.bbo <:+ old ∧ before = book) ?_ fun s h =>
    ⟨h.1.bbo, h.2.symm.trans h.1.book⟩
  refine Triple.given fun same => ?_
  subst same
  dsimp only
  refine Triple.bind (Q := fun _ => Awaiting (before.apply settings event bids asks reset).1 old)
    (Triple.modify fun s h => ⟨rfl, h⟩) fun _ => ?_
  rcases before.apply_outcome settings event bids asks reset with ⟨reason, refused⟩ | ⟨fits, taken⟩
  · rw [refused]
    exact refuse_spec reason
  · rw [fits]
    refine Triple.bind (Q := fun _ => Awaiting (before.apply settings event bids asks reset).1 old)
      (Triple.modify fun s h => ?_) fun _ => ?_
    · split <;> exact ⟨h.book, h.bbo⟩
    refine Triple.bind (recordChange_spec _ _ _) fun _ => Triple.bind (recordBbo_spec _) fun _ => ?_
    exact accepted_spec fun t h => .taken bids asks reset content (h.book ▸ taken) h.bbo

theorem processQuote_spec {bid ask : BookLevel} (content : event.content = .quote bid ask) :
    Triple (Awaiting book old) (processQuote arith event bid ask)
      (fun answer t => Handled settings event book old t answer) fun _ _ => True := by
  have kept : ∀ answer t, Observed event book old t → Handled settings event book old t answer :=
    fun answer t h => .kept answer (by simp [content]) (by simp [content]) h.book h.bbo
  refine Triple.bindView fun state => Triple.pre (P := Awaiting book old) ?_ fun s h => h.1
  refine Triple.ite (fun _ => Triple.pure false fun t h => kept false t h.observed) fun _ => ?_
  refine Triple.bind (Q := fun _ => Awaiting book old) (Triple.modify fun s h => ⟨h.book, h.bbo⟩)
    fun _ => ?_
  refine Triple.ite (fun _ => refuse_spec _) fun _ => ?_
  refine Triple.bind (Q := fun _ => Observed event book old) ?_ fun _ => accepted_spec (kept true)
  refine Triple.bindView fun current => Triple.pre (P := Awaiting book old) ?_ fun s h => h.1
  exact Triple.ite (fun _ => observeBbo_spec _ _ _ _) fun _ => Triple.pure () fun s h => h.observed

theorem processTrade_spec {price quantity : ℚ} (tradeId : String)
    (noBook : ∀ bids asks reset, event.content ≠ .book bids asks reset)
    (noReset : ∀ reason, event.content ≠ .reset reason) :
    Triple (Awaiting book old) (processTrade settings arith event price quantity tradeId)
      (fun answer t => Handled settings event book old t answer) fun _ _ => True := by
  have kept : ∀ answer t, Awaiting book old t → Handled settings event book old t answer :=
    fun answer t h => .kept answer noBook noReset h.book h.observed.bbo
  refine Triple.bindView fun state => Triple.pre (P := Awaiting book old) ?_ fun s h => h.1
  refine Triple.ite (fun _ => Triple.pure false fun t => kept false t) fun _ => ?_
  refine Triple.ite (fun _ => Triple.pure false fun t => kept false t) fun _ => ?_
  refine Triple.ite (fun _ => ?_) fun _ => ?_
  · refine Triple.bind (Q := fun _ => Awaiting book old)
      (Triple.modify fun s h => ⟨h.book, List.nil_suffix⟩) fun _ => Triple.pure false fun t => kept false t
  · refine Triple.bind (Q := fun _ => Awaiting book old) (Triple.modify fun s h => ⟨h.book, h.bbo⟩)
      fun _ => Triple.bind (Q := fun _ => Awaiting book old) ?_ fun _ => ?_
    · have keeps := (observeTrade_leaves arith event price quantity).keeps
        fun sides => sides.1 = book ∧ sides.2 <:+ old
      exact keeps.conseq (fun s h => ⟨h.book, h.bbo⟩) (fun _ s h => ⟨h.1, h.2⟩) fun _ _ _ => trivial
    · exact Triple.pre (accepted_spec fun t h => .kept true noBook noReset h.book h.bbo)
        fun s h => h.observed

variable (settings arith event) in
theorem applyEvent_spec :
    Triple (Awaiting book old) (applyEvent settings arith event)
      (fun answer t => Handled settings event book old t answer) fun _ _ => True := by
  unfold applyEvent
  split
  next reason content =>
    exact Triple.bind (Q := fun _ t => t.Cleared) (Triple.modify fun s _ => invalidate_cleared s _ _)
      fun _ => Triple.pure true fun t cleared => .ended reason content cleared
  next noReset =>
    refine Triple.ite (fun _ => refuse_spec _) fun _ => ?_
    refine Triple.bind (Q := fun _ => Awaiting book old)
      (Triple.lift (fun s h _ _ => h) fun _ _ _ _ => trivial) fun _ => ?_
    refine Triple.bind (Q := fun _ => Awaiting book old) (Triple.modify fun s h => h.prune _) fun _ => ?_
    split
    next bids asks reset content => exact processBook_spec content
    next bid ask content => exact processQuote_spec content
    next price quantity tradeId side priced counted content =>
      exact processTrade_spec tradeId (by simp [content]) (by simp [content])
    next reason content => exact absurd content (noReset reason)

variable (settings arith event) in
/-- An event that raises leaves its symbol cleared. -/
theorem handle_handled (s : SymbolState) :
    Handled settings event s.book s.bbo (Engine.handle settings arith s event).1
      (Engine.handle settings arith s event).2 := by
  obtain ⟨returned, -⟩ := applyEvent_spec settings arith event s ⟨rfl, List.suffix_rfl⟩
  unfold Engine.handle
  split
  next answer t ran => exact returned answer t ran
  next fault t ran => exact .refused (invalidate_cleared t "invalid_market_numeric_domain" true)

end handlers

end TradeAgent.Market
