import TradeAgent.CausalGrid
import TradeAgent.Library.Machine

/-! The last-change clocks of the depth-ten book against the history of its best quotes, and the quotes that the
confirmation builds from the book. -/
namespace TradeAgent.Kraken

/-- Best bid and ask of the stored levels. -/
def Book.bbo (book : Book) : Option Bbo :=
  match bestBid book.bids, bestAsk book.asks with
  | some bid, some ask => some ⟨bid.1, bid.2, ask.1, ask.2⟩
  | _, _ => none

/-- An accepted message: its provider time, and the best quote after it. -/
structure Moment where
  providerNs : ℤ
  bbo : Bbo

/-- A book with the messages it accepted since it was last invalidated, newest first. -/
structure Trail where
  book : Book := {}
  moments : List Moment := []

def Book.moments (book : Book) (providerNs : ℤ) : List Moment := book.bbo.toList.map fun bbo => ⟨providerNs, bbo⟩

def Trail.record (trail : Trail) (providerNs : ℤ) : Book × Except BookError (Option BookQuote) → Trail
  | (book, .ok (some _)) => ⟨book, book.moments providerNs ++ trail.moments⟩
  | (book, _) => ⟨book, if book.valid then trail.moments else []⟩

def Trail.step (trail : Trail) : Op → Trail
  | .apply m => trail.record m.providerNs (apply trail.book m.row m.messageType m.providerNs)
  | .invalidate reason => ⟨trail.book.invalidate reason, []⟩

/-- Time of the latest message at which the best quote moved; the first one counts as a move. -/
def lastMoved (moved : Bbo → Bbo → Bool) : List Moment → Option ℤ
  | [] => none
  | [first] => some first.providerNs
  | latest :: before :: rest =>
    if moved latest.bbo before.bbo then some latest.providerNs else lastMoved moved (before :: rest)

def differs (entry : Bbo → Numeral) (latest before : Bbo) : Bool := (entry latest).value ≠ (entry before).value

def Newest (moments : List Moment) : Prop := moments.Pairwise fun later earlier => earlier.providerNs ≤ later.providerNs

theorem lastMoved_le {moved : Bbo → Bbo → Bool} {latest : Moment} {rest : List Moment} {clock : ℤ}
    (newest : Newest (latest :: rest)) (found : lastMoved moved (latest :: rest) = some clock) :
    clock ≤ latest.providerNs := by
  induction rest generalizing latest with
  | nil => exact (Option.some.inj found).symm.le
  | cons before rest ih =>
    obtain ⟨later, newest⟩ := List.pairwise_cons.mp newest
    rw [lastMoved] at found
    split at found
    next => exact (Option.some.inj found).symm.le
    next => exact (ih newest found).trans (later before List.mem_cons_self)

/-- Something moved when the one or the other did, whichever was later. -/
theorem lastMoved_or {first second : Bbo → Bbo → Bool} {moments : List Moment} {a b : ℤ} (newest : Newest moments)
    (one : lastMoved first moments = some a) (two : lastMoved second moments = some b) :
    lastMoved (fun latest before => first latest before || second latest before) moments = some (max a b) := by
  induction moments with
  | nil => cases one
  | cons latest rest ih =>
    have below := lastMoved_le newest one
    have below' := lastMoved_le newest two
    cases rest with
    | nil =>
      obtain rfl := Option.some.inj one
      obtain rfl := Option.some.inj two
      exact congrArg some (max_self _).symm
    | cons before rest =>
      rw [lastMoved] at one two ⊢
      cases moved : first latest.bbo before.bbo with
      | true =>
        rw [if_pos moved] at one
        obtain rfl := Option.some.inj one
        rw [Bool.true_or, if_pos rfl, max_eq_left below']
      | false =>
        rw [moved, if_neg Bool.false_ne_true] at one
        rw [Bool.false_or]
        cases moved' : second latest.bbo before.bbo with
        | true =>
          rw [if_pos moved'] at two
          obtain rfl := Option.some.inj two
          rw [if_pos rfl, max_eq_right below]
        | false =>
          rw [moved', if_neg Bool.false_ne_true] at two
          rw [if_neg Bool.false_ne_true]
          exact ih newest.of_cons one two

/-- The stamp of an accepted message keeps a clock exact. -/
theorem lastMoved_stamp (entry : Bbo → Numeral) {before : Moment} {rest : List Moment} {clock : ℤ}
    (exact_ : lastMoved (differs entry) (before :: rest) = some clock) (now : ℤ) (bbo : Bbo) :
    lastMoved (differs entry) (⟨now, bbo⟩ :: before :: rest) =
      some (stamp clock now (changed (some before.bbo) entry bbo)) := by
  rw [lastMoved, exact_]
  change (if differs entry bbo before.bbo = true then _ else _) = some (if differs entry bbo before.bbo = true then _ else _)
  split <;> rfl

theorem stamp_ge {clock now : ℤ} (past : clock ≤ now) (moved : Bool) : clock ≤ stamp clock now moved := by
  unfold stamp
  split
  · exact past
  · exact le_rfl

/-- What the clocks of a valid book say. -/
structure Clocked (book : Book) (moments : List Moment) : Prop where
  bidPrice : lastMoved (differs Bbo.bid) moments = some book.lastPriceChangeNs.bid
  askPrice : lastMoved (differs Bbo.ask) moments = some book.lastPriceChangeNs.ask
  bidSize : lastMoved (differs Bbo.bidSize) moments = some book.lastSizeChangeNs.bid
  askSize : lastMoved (differs Bbo.askSize) moments = some book.lastSizeChangeNs.ask

/-- The clocks with the history that they depend on. -/
structure Followed (trail : Trail) (latest : Moment) (rest : List Moment) : Prop where
  moments : trail.moments = latest :: rest
  newest : Newest trail.moments
  stored : trail.book.lastBbo = some latest.bbo
  clock : trail.book.lastProviderNs = some latest.providerNs
  clocked : Clocked trail.book trail.moments

inductive Trail.Exact (trail : Trail) : Prop where
  | cleared (empty : Cleared trail.book) (forgotten : trail.moments = [])
  | live (latest : Moment) (rest : List Moment) (valid : trail.book.valid = true)
      (followed : Followed trail latest rest)

section accepting

variable (book : Book) (bids asks : Levels) (providerNs expected actual : ℤ)

theorem accept_bbo {bid ask : Numeral × Numeral} (foundBid : bestBid bids = some bid) (foundAsk : bestAsk asks = some ask) :
    (accept book bids asks ⟨bid.1, bid.2, ask.1, ask.2⟩ providerNs expected actual).1.moments providerNs =
      [⟨providerNs, ⟨bid.1, bid.2, ask.1, ask.2⟩⟩] := by
  simp [accept, Book.moments, Book.bbo, foundBid, foundAsk]

/-- Accepting a message keeps the clocks exact. -/
theorem accept_followed {trail : Trail} (exact_ : trail.Exact) (kept : book.lastBbo = trail.book.lastBbo)
    (prices : book.lastPriceChangeNs = trail.book.lastPriceChangeNs)
    (sizes : book.lastSizeChangeNs = trail.book.lastSizeChangeNs)
    (ordered : ∀ last ∈ trail.book.lastProviderNs, last ≤ providerNs) (bbo : Bbo) :
    Followed ⟨(accept book bids asks bbo providerNs expected actual).1, ⟨providerNs, bbo⟩ :: trail.moments⟩
      ⟨providerNs, bbo⟩ trail.moments := by
  cases exact_ with
  | cleared empty forgotten =>
    have fresh : book.lastBbo = none := kept.trans empty.lastBbo
    rw [forgotten]
    refine ⟨rfl, List.pairwise_singleton _ _, rfl, rfl, ?_⟩
    constructor <;> simp [accept, fresh, changed, stamp, lastMoved]
  | live latest rest valid followed =>
    obtain ⟨moments, newest, stored, clock, clocked⟩ := followed
    rw [moments] at newest clocked ⊢
    have later := ordered latest.providerNs clock
    refine ⟨rfl, List.pairwise_cons.mpr ⟨fun earlier member => ?_, newest⟩, rfl, rfl, ?_⟩
    · rcases List.mem_cons.mp member with rfl | member
      · exact later
      · exact (List.rel_of_pairwise_cons newest member).trans later
    · have same : book.lastBbo = some latest.bbo := kept.trans stored
      constructor
      all_goals
        simp only [accept, same, prices, sizes]
      · exact lastMoved_stamp Bbo.bid clocked.bidPrice providerNs bbo
      · exact lastMoved_stamp Bbo.ask clocked.askPrice providerNs bbo
      · exact lastMoved_stamp Bbo.bidSize clocked.bidSize providerNs bbo
      · exact lastMoved_stamp Bbo.askSize clocked.askSize providerNs bbo

end accepting

/-- The sides are sound and the clocks are exact. -/
structure Trail.Kept (trail : Trail) : Prop where
  bids : trail.book.bids.Sound
  asks : trail.book.asks.Sound
  exact_ : trail.Exact

theorem Trail.Kept.forget {trail : Trail} {book : Book} (empty : Cleared book) :
    (⟨book, if book.valid then trail.moments else []⟩ : Trail).Kept where
  bids := empty.bids ▸ .empty
  asks := empty.asks ▸ .empty
  exact_ := .cleared empty (by simp [empty.invalid])

/-- Accepting a decoded message records its moment. -/
theorem accept_kept {trail : Trail} (kept : trail.Kept) {row : List (String × Json)} {messageType : String}
    {bids asks : Levels} {bid ask : Numeral × Numeral} {providerNs expected actual : ℤ}
    (decoded : decode trail.book row messageType = .ok (bids, asks, expected))
    (foundBid : bestBid bids = some bid) (foundAsk : bestAsk asks = some ask)
    (ordered : ∀ last ∈ trail.book.lastProviderNs, last ≤ providerNs) :
    (trail.record providerNs (accept { trail.book with checks := trail.book.checks + 1 } bids asks
      ⟨bid.1, bid.2, ask.1, ask.2⟩ providerNs expected actual)).Kept := by
  obtain ⟨soundBids, soundAsks, -, -, -⟩ := decode_sound kept.bids kept.asks decoded
  have followed := accept_followed { trail.book with checks := trail.book.checks + 1 } bids asks providerNs expected
    actual kept.exact_ rfl rfl rfl ordered ⟨bid.1, bid.2, ask.1, ask.2⟩
  have moment := accept_bbo { trail.book with checks := trail.book.checks + 1 } bids asks providerNs expected actual
    foundBid foundAsk
  unfold accept at followed moment ⊢
  dsimp only at followed moment ⊢
  obtain ⟨quote, total⟩ := quoteOf_total _ ⟨bid.1, bid.2, ask.1, ask.2⟩ soundBids soundAsks (best_mem foundBid)
    (best_mem foundAsk) providerNs expected actual
  rw [total]
  refine ⟨soundBids, soundAsks, .live ⟨providerNs, ⟨bid.1, bid.2, ask.1, ask.2⟩⟩ trail.moments rfl ?_⟩
  change Followed ⟨_, Book.moments _ providerNs ++ trail.moments⟩ _ _
  rw [moment]
  exact followed

theorem step_kept {trail : Trail} (kept : trail.Kept) (op : Op) : (trail.step op).Kept := by
  cases op with
  | invalidate reason => exact ⟨.empty, .empty, .cleared (invalidate_cleared _ _) rfl⟩
  | apply m =>
    have applied := apply_applied trail.book m.row m.messageType m.providerNs
    unfold Trail.step
    dsimp only
    generalize apply trail.book m.row m.messageType m.providerNs = result at applied
    cases applied with
    | accepted decoded bestBid bestAsk apart ordered => exact accept_kept kept decoded bestBid bestAsk ordered
    | cleared next empty => exact .forget empty
    | waiting invalid =>
      cases kept.exact_ with
      | cleared empty => exact .forget ⟨invalid, empty.bids, empty.asks, empty.lastBbo, empty.lastProviderNs⟩
      | live _ _ valid => rw [invalid] at valid; cases valid
    | untouched e =>
      cases kept.exact_ with
      | cleared empty => exact .forget empty
      | live latest rest valid followed =>
        refine ⟨kept.bids, kept.asks, ?_⟩
        rw [show trail.record m.providerNs (trail.book, .error e) = trail from by simp [Trail.record, valid]]
        exact kept.exact_
    | rejected e => exact .forget (invalidate_cleared _ _)

/-- The book after a run, with its history. -/
def trail (ops : List Op) : Trail := Machine.run Trail.step {} ops

theorem trail_kept (ops : List Op) : (trail ops).Kept := by
  have initial : ({} : Trail).Kept := ⟨.empty, .empty, .cleared ⟨rfl, rfl, rfl, rfl, rfl⟩ rfl⟩
  have kept (trail : Trail) (op : Op) (held : trail.Kept) : (trail.step op).Kept := step_kept held op
  exact Machine.run_invariant kept initial ops

/-- The six last-change times that a valid book implies, and their bound. -/
structure ClocksExact (trail : Trail) : Prop where
  clocked : Clocked trail.book trail.moments
  price : lastMoved (fun latest before => differs Bbo.bid latest before || differs Bbo.ask latest before)
    trail.moments = some (max trail.book.lastPriceChangeNs.bid trail.book.lastPriceChangeNs.ask)
  size : lastMoved (fun latest before => differs Bbo.bidSize latest before || differs Bbo.askSize latest before)
    trail.moments = some (max trail.book.lastSizeChangeNs.bid trail.book.lastSizeChangeNs.ask)
  bounded : ∃ last, trail.book.lastProviderNs = some last ∧ trail.book.lastPriceChangeNs.bid ≤ last ∧
    trail.book.lastPriceChangeNs.ask ≤ last ∧ trail.book.lastSizeChangeNs.bid ≤ last ∧
    trail.book.lastSizeChangeNs.ask ≤ last

/-- Each clock of the first is at most that of the second. -/
structure SideClocks.Le (before after : SideClocks) : Prop where
  bid : before.bid ≤ after.bid
  ask : before.ask ≤ after.ask

theorem Followed.clocksExact {trail : Trail} {latest : Moment} {rest : List Moment}
    (followed : Followed trail latest rest) : ClocksExact trail := by
  obtain ⟨moments, newest, -, clock, clocked⟩ := followed
  have bound {moved : Bbo → Bbo → Bool} {at_ : ℤ} (found : lastMoved moved trail.moments = some at_) :
      at_ ≤ latest.providerNs := by
    rw [moments] at found newest
    exact lastMoved_le newest found
  exact ⟨clocked, lastMoved_or newest clocked.bidPrice clocked.askPrice,
    lastMoved_or newest clocked.bidSize clocked.askSize, latest.providerNs, clock, bound clocked.bidPrice,
    bound clocked.askPrice, bound clocked.bidSize, bound clocked.askSize⟩

theorem Trail.Exact.followed {trail : Trail} (exact_ : trail.Exact) (valid : trail.book.valid = true) :
    ∃ latest rest, Followed trail latest rest := by
  cases exact_ with
  | cleared empty =>
    rw [empty.invalid] at valid
    cases valid
  | live latest rest _ followed => exact ⟨latest, rest, followed⟩

/-- No operation that leaves the book valid sets a clock back. -/
theorem step_clocks {trail : Trail} (exact_ : trail.Exact) (valid : trail.book.valid = true) (op : Op)
    (still : (trail.step op).book.valid = true) :
    trail.book.lastPriceChangeNs.Le (trail.step op).book.lastPriceChangeNs ∧
    trail.book.lastSizeChangeNs.Le (trail.step op).book.lastSizeChangeNs := by
  obtain ⟨latest, rest, followed⟩ := exact_.followed valid
  obtain ⟨-, -, -, last, clock, bidPrice, askPrice, bidSize, askSize⟩ := followed.clocksExact
  cases op with
  | invalidate reason => cases still
  | apply m =>
    have book : (trail.step (.apply m)).book = (apply trail.book m.row m.messageType m.providerNs).1 := by
      unfold Trail.step Trail.record
      dsimp only
      split
      next same => rw [same]
      next same => rw [same]
    rw [book] at still ⊢
    have applied := apply_applied trail.book m.row m.messageType m.providerNs
    generalize apply trail.book m.row m.messageType m.providerNs = result at applied still ⊢
    cases applied with
    | accepted _ _ _ _ ordered =>
      have later := ordered last clock
      exact ⟨⟨stamp_ge (bidPrice.trans later) _, stamp_ge (askPrice.trans later) _⟩,
        ⟨stamp_ge (bidSize.trans later) _, stamp_ge (askSize.trans later) _⟩⟩
    | cleared next empty =>
      rw [empty.invalid] at still
      cases still
    | waiting invalid =>
      rw [invalid] at valid
      cases valid
    | untouched e => exact ⟨⟨le_rfl, le_rfl⟩, ⟨le_rfl, le_rfl⟩⟩
    | rejected e => cases still

end TradeAgent.Kraken

namespace TradeAgent.Confirmation

open Kraken (BookQuote)

/-- What a frame adds to the quote of its book. -/
structure Frame where
  symbol : Symbol
  frameId : ℕ
  connectionId : String
  epoch : ℕ
  receivedNs : ℤ
  receivedMonotonicNs : ℤ
  acceptedNs : ℤ
  framePositive : 0 < frameId

inductive QuoteError where
  | clocks | crossed | changeClocks
  deriving DecidableEq, Repr

def QuoteError.text : QuoteError → String
  | .clocks => "quote provider/receipt/acceptance clocks are not causal"
  | .crossed => "locked or crossed quote"
  | .changeClocks => "side change clocks exceed validated book-state clock"

/-- The quote of a frame, or what its validation refuses. -/
def Frame.causal (frame : Frame) (quote : BookQuote) : Except QuoteError Quote :=
  if clocks : quote.providerBookUpdateNs ≤ frame.receivedNs ∧ frame.receivedNs ≤ frame.acceptedNs then
    if uncrossed : quote.bid.value < quote.ask.value then
      if changes : quote.bidPriceLastChangedNs ≤ quote.providerBookUpdateNs ∧
          quote.askPriceLastChangedNs ≤ quote.providerBookUpdateNs ∧
          quote.bidSizeLastChangedNs ≤ quote.providerBookUpdateNs ∧
          quote.askSizeLastChangedNs ≤ quote.providerBookUpdateNs then
        .ok { quote with
          symbol := frame.symbol, frameId := frame.frameId, connectionId := frame.connectionId, epoch := frame.epoch
          receivedNs := frame.receivedNs, receivedMonotonicNs := frame.receivedMonotonicNs
          acceptedNs := frame.acceptedNs, framePositive := frame.framePositive, causal := clocks
          uncrossed := uncrossed, changesCausal := changes }
      else .error .changeClocks
    else .error .crossed
  else .error .clocks

end TradeAgent.Confirmation

namespace TradeAgent.Kraken

/-- The quote of an accepted message has the clocks of the book that it leaves. -/
theorem apply_quote {ops : List Op} {row : List (String × Json)} {messageType : String} {providerNs : ℤ}
    {quote : BookQuote} (accepted : (apply (trail ops).book row messageType providerNs).2 = .ok (some quote)) :
    quote.bid.value < quote.ask.value ∧ quote.providerBookUpdateNs = providerNs ∧
    quote.bidPriceLastChangedNs ≤ providerNs ∧ quote.askPriceLastChangedNs ≤ providerNs ∧
    quote.bidSizeLastChangedNs ≤ providerNs ∧ quote.askSizeLastChangedNs ≤ providerNs := by
  have kept := trail_kept ops
  have applied := apply_applied (trail ops).book row messageType providerNs
  generalize apply (trail ops).book row messageType providerNs = result at applied accepted
  cases applied with
  | @accepted bids asks bid ask expected decoded _ _ apart ordered =>
    have followed := accept_followed { (trail ops).book with checks := (trail ops).book.checks + 1 } bids asks
      providerNs expected (checksum bids asks) kept.exact_ rfl rfl rfl ordered ⟨bid.1, bid.2, ask.1, ask.2⟩
    obtain ⟨-, -, -, last, clock, bidPrice, askPrice, bidSize, askSize⟩ := followed.clocksExact
    obtain rfl : providerNs = last := Option.some.inj clock
    unfold accept quoteOf at accepted
    dsimp only at accepted
    split at accepted
    next =>
      obtain rfl := Option.some.inj (Except.ok.inj accepted)
      exact ⟨apart, rfl, bidPrice, askPrice, bidSize, askSize⟩
    next => cases accepted
  | _ => cases accepted

/-- In every run of messages and invalidations: the clocks of a valid book are the times of the latest moves of its
best quotes, no operation that leaves it valid sets one back, and the quote of an accepted message is refused for no
clock but those of its receipt. -/
theorem clocks_exact (ops : List Op) :
    ((trail ops).book.valid = true → ClocksExact (trail ops)) ∧
    (∀ op, (trail ops).book.valid = true → ((trail ops).step op).book.valid = true →
      (trail ops).book.lastPriceChangeNs.Le ((trail ops).step op).book.lastPriceChangeNs ∧
      (trail ops).book.lastSizeChangeNs.Le ((trail ops).step op).book.lastSizeChangeNs) ∧
    ∀ row messageType providerNs quote,
      (apply (trail ops).book row messageType providerNs).2 = .ok (some quote) → ∀ frame : Confirmation.Frame,
        (∃ built, frame.causal quote = .ok built) ↔
          providerNs ≤ frame.receivedNs ∧ frame.receivedNs ≤ frame.acceptedNs := by
  have kept := trail_kept ops
  refine ⟨fun valid => ?_, fun op valid still => step_clocks kept.exact_ valid op still,
    fun row messageType providerNs quote accepted frame => ?_⟩
  · obtain ⟨latest, rest, followed⟩ := kept.exact_.followed valid
    exact followed.clocksExact
  · obtain ⟨apart, rfl, changes⟩ := apply_quote accepted
    unfold Confirmation.Frame.causal
    constructor
    · rintro ⟨built, done⟩
      by_contra late
      rw [dif_neg late] at done
      cases done
    · intro clocks
      rw [dif_pos clocks, dif_pos apart, dif_pos changes]
      exact ⟨_, rfl⟩

end TradeAgent.Kraken
