import Mathlib.Data.List.Sort
import TradeAgent.Library.Numeral

/-! The depth-ten book reconstruction of the public feed, checked by the provider's
CRC over the printed levels. Rows are decoded JSON, so parsing can raise at every
field; `apply` returns the book it leaves behind together with its outcome. -/
namespace TradeAgent.Kraken

/-- Decoded JSON, with decimal objects where the decoder produces them. -/
inductive Json where
  | null
  | bool (b : Bool)
  | int (n : ℤ)
  | float
  | decimal (d : Numeral.Reading)
  | str (text : List Char)
  | arr (items : List Json)
  | obj (fields : List (String × Json))

inductive BookError where
  | messageType | levelsNotArray | levelNotObject | missingKey (name : String)
  | numberType | invalidDecimal | nonFinite | invalidLevel | checksumType | invalidQuote
  deriving DecidableEq, Repr

def BookError.text : BookError → String
  | .messageType => "unsupported book message type"
  | .levelsNotArray => "book levels must be an ordered array"
  | .levelNotObject => "book level must be an object"
  | .missingKey name => name
  | .numberType => "decode book numbers as Decimal, never binary floats"
  | .invalidDecimal => "invalid book decimal"
  | .nonFinite => "non-finite book decimal"
  | .invalidLevel => "invalid book price or quantity"
  | .checksumType => "checksum must be an unsigned integer"
  | .invalidQuote => "validation error"

def finite : Numeral.Reading → Except BookError Numeral
  | .finite d => .ok d
  | .special => .error .nonFinite

def decimal : Json → Except BookError Numeral
  | .decimal d => finite d
  | .int n => .ok (.ofInt n)
  | .str text => match Numeral.read text with
    | some d => finite d
    | none => .error .invalidDecimal
  | _ => .error .numberType

def field (row : List (String × Json)) (name : String) : Except BookError Json :=
  match row.lookup name with
  | some value => .ok value
  | none => .error (.missingKey name)

/-- One side of the book: a dictionary from price to quantity, in insertion order.
Equal prices share a key even when written differently; the first writing stays. -/
abbrev Levels := List (Numeral × Numeral)

def assign (side : Levels) (price quantity : Numeral) : Levels :=
  match side with
  | [] => [(price, quantity)]
  | (p, q) :: rest =>
    if p.value = price.value then (p, quantity) :: rest else (p, q) :: assign rest price quantity

def discard (side : Levels) (price : Numeral) : Levels :=
  side.filter fun l => l.1.value ≠ price.value

/-- The ten best levels, best first. -/
def topBids (side : Levels) : Levels :=
  (side.mergeSort fun a b => decide (b.1.value ≤ a.1.value)).take 10

def topAsks (side : Levels) : Levels :=
  (side.mergeSort fun a b => decide (a.1.value ≤ b.1.value)).take 10

def crcBit (crc : ℕ) : ℕ := if crc % 2 = 1 then (crc >>> 1) ^^^ 0xEDB88320 else crc >>> 1

def crcByte (crc byte : ℕ) : ℕ :=
  crcBit (crcBit (crcBit (crcBit (crcBit (crcBit (crcBit (crcBit (crc ^^^ byte))))))))

def crc32 (bytes : List ℕ) : ℕ := bytes.foldl crcByte 0xFFFFFFFF ^^^ 0xFFFFFFFF

def chunk (d : Numeral) : List Char :=
  ((d.fixed.filter (· ≠ '.'))).dropWhile (· = '0')

def checksum (bids asks : Levels) : ℕ :=
  let chunks := (topAsks asks ++ topBids bids).flatMap fun l => chunk l.1 ++ chunk l.2
  crc32 (chunks.map Char.toNat) &&& 0xFFFFFFFF

structure BookQuote where
  bid : Numeral
  ask : Numeral
  bidSize : Numeral
  askSize : Numeral
  providerBookUpdateNs : ℤ
  bidPriceLastChangedNs : ℤ
  askPriceLastChangedNs : ℤ
  bidSizeLastChangedNs : ℤ
  askSizeLastChangedNs : ℤ
  checksumExpected : ℤ
  checksumComputed : ℤ
  bidPositive : 0 < bid.value
  askPositive : 0 < ask.value
  bidSizePositive : 0 < bidSize.value
  askSizePositive : 0 < askSize.value
  deriving DecidableEq

structure SideClocks where
  bid : ℤ := 0
  ask : ℤ := 0
  deriving DecidableEq, Repr

/-- Best bid and ask with their sizes. -/
structure Bbo where
  bid : Numeral
  bidSize : Numeral
  ask : Numeral
  askSize : Numeral
  deriving DecidableEq, Repr

structure Book where
  bids : Levels := []
  asks : Levels := []
  valid : Bool := false
  lastProviderNs : Option ℤ := none
  lastBbo : Option Bbo := none
  lastPriceChangeNs : SideClocks := {}
  lastSizeChangeNs : SideClocks := {}
  checks : ℕ := 0
  failures : ℕ := 0
  lastReason : String := "snapshot_required"

def Book.invalidate (book : Book) (reason : String) : Book :=
  { book with
    bids := [], asks := [], valid := false, lastProviderNs := none, lastBbo := none
    lastPriceChangeNs := {}, lastSizeChangeNs := {}, lastReason := reason }

def applyLevel (side : Levels) : Json → Except BookError Levels
  | .obj fields => do
    let price ← decimal (← field fields "price")
    let quantity ← decimal (← field fields "qty")
    if price.value ≤ 0 ∨ quantity.value < 0 then .error .invalidLevel
    else if quantity.value = 0 then .ok (discard side price)
    else .ok (assign side price quantity)
  | _ => .error .levelNotObject

def applyLevels (side : Levels) : Json → Except BookError Levels
  | .arr updates => updates.foldlM applyLevel side
  | _ => .error .levelsNotArray

def checksumField : Json → Except BookError ℤ
  | .int n => .ok n
  | _ => .error .checksumType

/-- Everything `apply` reads from a row before it first writes to the book. -/
def decode (book : Book) (row : List (String × Json)) (messageType : String) :
    Except BookError (Levels × Levels × ℤ) := do
  let fresh := messageType = "snapshot"
  let bids ← applyLevels (if fresh then [] else book.bids) ((row.lookup "bids").getD (.arr []))
  let asks ← applyLevels (if fresh then [] else book.asks) ((row.lookup "asks").getD (.arr []))
  let expected ← checksumField (← field row "checksum")
  return (topBids bids, topAsks asks, expected)

/-- The first best level under an order on prices, as `max` and `min` pick it. -/
def best (better : ℚ → ℚ → Bool) : Levels → Option (Numeral × Numeral)
  | [] => none
  | l :: rest => match best better rest with
    | some m => if better m.1.value l.1.value then some m else some l
    | none => some l

def bestBid : Levels → Option (Numeral × Numeral) := best fun a b => decide (b < a)
def bestAsk : Levels → Option (Numeral × Numeral) := best fun a b => decide (a < b)

def changed (previous : Option Bbo) (entry : Bbo → Numeral) (current : Bbo) : Bool :=
  match previous with
  | none => true
  | some last => (entry current).value ≠ (entry last).value

def stamp (clock now : ℤ) (moved : Bool) : ℤ := if moved then now else clock

def quoteOf (book : Book) (bbo : Bbo) (providerNs expected actual : ℤ) : Except BookError BookQuote :=
  if valid : 0 < bbo.bid.value ∧ 0 < bbo.ask.value ∧ 0 < bbo.bidSize.value ∧ 0 < bbo.askSize.value then
    .ok ⟨bbo.bid, bbo.ask, bbo.bidSize, bbo.askSize, providerNs, book.lastPriceChangeNs.bid,
      book.lastPriceChangeNs.ask, book.lastSizeChangeNs.bid, book.lastSizeChangeNs.ask, expected,
      actual, valid.1, valid.2.1, valid.2.2.1, valid.2.2.2⟩
  else .error .invalidQuote

/-- The accepting path of `apply`: all fields move together, then the quote is built. -/
def accept (book : Book) (bids asks : Levels) (bbo : Bbo) (providerNs expected actual : ℤ) :
    Book × Except BookError (Option BookQuote) :=
  let last := book.lastBbo
  let next := { book with
    bids := bids, asks := asks, lastBbo := some bbo, lastProviderNs := some providerNs
    valid := true, lastReason := "checksum_validated"
    lastPriceChangeNs := {
      bid := stamp book.lastPriceChangeNs.bid providerNs (changed last Bbo.bid bbo)
      ask := stamp book.lastPriceChangeNs.ask providerNs (changed last Bbo.ask bbo) }
    lastSizeChangeNs := {
      bid := stamp book.lastSizeChangeNs.bid providerNs (changed last Bbo.bidSize bbo)
      ask := stamp book.lastSizeChangeNs.ask providerNs (changed last Bbo.askSize bbo) } }
  (next, (quoteOf next bbo providerNs expected actual).map some)

/-- The checks on a decoded row, in source order. -/
def validate (book : Book) (bids asks : Levels) (expected providerNs : ℤ) :
    Book × Except BookError (Option BookQuote) :=
  let book := { book with checks := book.checks + 1 }
  let actual : ℤ := checksum bids asks
  if actual ≠ expected then
    ({ book with failures := book.failures + 1 }.invalidate "checksum_mismatch", .ok none)
  else match bestBid bids, bestAsk asks with
    | some bid, some ask =>
      if ask.1.value ≤ bid.1.value then
        (book.invalidate "empty_locked_or_crossed_book", .ok none)
      else if book.lastProviderNs.any (providerNs < ·) then
        ({ book with failures := book.failures + 1 }.invalidate "provider_book_timestamp_regression",
          .ok none)
      else accept book bids asks ⟨bid.1, bid.2, ask.1, ask.2⟩ providerNs expected actual
    | _, _ => (book.invalidate "empty_locked_or_crossed_book", .ok none)

def apply (book : Book) (row : List (String × Json)) (messageType : String) (providerNs : ℤ) :
    Book × Except BookError (Option BookQuote) :=
  if messageType ≠ "snapshot" ∧ messageType ≠ "update" then (book, .error .messageType)
  else if messageType = "update" ∧ book.valid = false then
    ({ book with lastReason := "update_before_valid_snapshot" }, .ok none)
  else match decode book row messageType with
    | .error .invalidLevel => (book.invalidate "invalid_book_level", .error .invalidLevel)
    | .error e => (book, .error e)
    | .ok (bids, asks, expected) => validate book bids asks expected providerNs

/-- A side as the dictionary keeps it: distinct prices, positive entries. -/
structure Levels.Sound (side : Levels) : Prop where
  positive : ∀ l ∈ side, 0 < l.1.value ∧ 0 < l.2.value
  distinct : (side.map fun l => l.1.value).Nodup

theorem Levels.Sound.empty : Levels.Sound [] := ⟨by simp, by simp⟩

theorem Levels.Sound.sublist {side kept : Levels} (sound : side.Sound) (sub : kept.Sublist side) :
    kept.Sound :=
  ⟨fun l member => sound.positive l (sub.subset member), sound.distinct.sublist (sub.map _)⟩

theorem Levels.Sound.perm {side sorted : Levels} (sound : side.Sound) (perm : sorted.Perm side) :
    sorted.Sound :=
  ⟨fun l member => sound.positive l (perm.subset member),
    (perm.map _).nodup_iff.mpr sound.distinct⟩

theorem assign_prices (side : Levels) (price quantity : Numeral) :
    (assign side price quantity).map (fun l => l.1.value) =
      if price.value ∈ side.map (fun l => l.1.value) then side.map fun l => l.1.value
      else side.map (fun l => l.1.value) ++ [price.value] := by
  induction side with
  | nil => simp [assign]
  | cons l rest ih =>
    obtain ⟨p, q⟩ := l
    by_cases here : p.value = price.value
    · simp [assign, here]
    · simp only [assign, if_neg here, List.map_cons, ih, List.mem_cons, Ne.symm here, false_or]
      split <;> simp

theorem assign_positive {side : Levels} {price quantity : Numeral} (priced : 0 < price.value)
    (sized : 0 < quantity.value) (positive : ∀ l ∈ side, 0 < l.1.value ∧ 0 < l.2.value) :
    ∀ l ∈ assign side price quantity, 0 < l.1.value ∧ 0 < l.2.value := by
  induction side with
  | nil => simpa [assign] using ⟨priced, sized⟩
  | cons l rest ih =>
    obtain ⟨p, q⟩ := l
    simp only [List.forall_mem_cons] at positive
    simp only [assign]
    split
    next => simpa using ⟨⟨positive.1.1, sized⟩, fun a b m => positive.2 (a, b) m⟩
    next => simpa using ⟨positive.1, fun a b m => ih positive.2 (a, b) m⟩

theorem Levels.Sound.assign {side : Levels} (sound : side.Sound) {price quantity : Numeral}
    (priced : 0 < price.value) (sized : 0 < quantity.value) :
    (Kraken.assign side price quantity).Sound where
  positive := assign_positive priced sized sound.positive
  distinct := by
    rw [assign_prices]
    split
    next => exact sound.distinct
    next fresh => exact sound.distinct.append (by simp) (by simpa using fresh)

theorem Levels.Sound.discard {side : Levels} (sound : side.Sound) (price : Numeral) :
    (Kraken.discard side price).Sound :=
  sound.sublist List.filter_sublist

theorem Levels.Sound.topBids {side : Levels} (sound : side.Sound) : (Kraken.topBids side).Sound :=
  (sound.perm (List.mergeSort_perm _ _)).sublist (List.take_sublist _ _)

theorem Levels.Sound.topAsks {side : Levels} (sound : side.Sound) : (Kraken.topAsks side).Sound :=
  (sound.perm (List.mergeSort_perm _ _)).sublist (List.take_sublist _ _)

theorem applyLevel_sound {side next : Levels} (sound : side.Sound) {level : Json}
    (applied : applyLevel side level = .ok next) : next.Sound := by
  cases level with
  | obj fields =>
    simp only [applyLevel, bind, Except.bind] at applied
    repeat' split at applied
    all_goals try cases applied
    next => exact sound.discard _
    next invalid nonzero =>
      simp only [not_or, not_le, not_lt] at invalid
      exact sound.assign invalid.1 (lt_of_le_of_ne invalid.2 (Ne.symm nonzero))
  | _ => cases applied

theorem applyLevels_sound {side next : Levels} (sound : side.Sound) {updates : Json}
    (applied : applyLevels side updates = .ok next) : next.Sound := by
  cases updates with
  | arr items =>
    simp only [applyLevels] at applied
    induction items generalizing side with
    | nil => cases applied; exact sound
    | cons level rest ih =>
      rw [List.foldlM_cons] at applied
      cases first : applyLevel side level with
      | error e => rw [first] at applied; cases applied
      | ok mid => rw [first] at applied; exact ih (applyLevel_sound sound first) applied
  | _ => cases applied

section Best

variable {better : ℚ → ℚ → Bool} {side : Levels} {top : Numeral × Numeral}

theorem best_mem (found : best better side = some top) : top ∈ side := by
  induction side generalizing top with
  | nil => cases found
  | cons l rest ih =>
    simp only [best] at found
    repeat' split at found
    all_goals cases found
    next found _ => exact List.mem_cons_of_mem _ (ih found)
    all_goals exact List.mem_cons_self

theorem best_eq_none (missing : best better side = none) : side = [] := by
  cases side with
  | nil => rfl
  | cons l rest => simp only [best] at missing; repeat' split at missing
                   all_goals cases missing

/-- No level beats the one picked, for any order on prices whose negation is transitive. -/
theorem best_optimal (trans : ∀ a b c, better a b = false → better b c = false → better a c = false)
    (irrefl : ∀ a, better a a = false) (asymm : ∀ a b, better a b = true → better b a = false)
    (found : best better side = some top) : ∀ l ∈ side, better l.1.value top.1.value = false := by
  induction side generalizing top with
  | nil => cases found
  | cons l rest ih =>
    simp only [best] at found
    intro other member
    cases inner : best better rest with
    | none =>
      rw [inner] at found
      cases found
      have none_left := best_eq_none inner
      subst none_left
      simp only [List.mem_singleton] at member
      subst member
      exact irrefl _
    | some m =>
      rw [inner] at found
      dsimp only at found
      have below := ih inner
      split at found <;> cases found
      next ahead =>
        rcases List.mem_cons.mp member with rfl | later
        · exact asymm _ _ ahead
        · exact below _ later
      next behind =>
        rcases List.mem_cons.mp member with rfl | later
        · exact irrefl _
        · exact trans _ _ _ (below _ later) (by simpa using behind)

end Best

theorem bestBid_max {side : Levels} {top : Numeral × Numeral} (found : bestBid side = some top) :
    ∀ l ∈ side, l.1.value ≤ top.1.value := by
  intro l member
  have unbeaten := best_optimal (by simp; intro a b c hab hbc; linarith) (by simp)
    (by simp; intro a b h; exact h.le) found l member
  simpa using unbeaten

theorem bestAsk_min {side : Levels} {top : Numeral × Numeral} (found : bestAsk side = some top) :
    ∀ l ∈ side, top.1.value ≤ l.1.value := by
  intro l member
  have unbeaten := best_optimal (by simp; intro a b c hab hbc; linarith) (by simp)
    (by simp; intro a b h; exact h.le) found l member
  simpa using unbeaten

/-- What a valid book holds: both sides are ten sound levels at most, and the stored best
bid and offer are the ends of the two sides, apart from each other. -/
structure Represents (book : Book) (bbo : Bbo) : Prop where
  bids : book.bids.Sound
  asks : book.asks.Sound
  bidDepth : 1 ≤ book.bids.length ∧ book.bids.length ≤ 10
  askDepth : 1 ≤ book.asks.length ∧ book.asks.length ≤ 10
  stored : book.lastBbo = some bbo
  bestBid : (bbo.bid, bbo.bidSize) ∈ book.bids ∧ ∀ l ∈ book.bids, l.1.value ≤ bbo.bid.value
  bestAsk : (bbo.ask, bbo.askSize) ∈ book.asks ∧ ∀ l ∈ book.asks, bbo.ask.value ≤ l.1.value
  uncrossed : bbo.bid.value < bbo.ask.value

structure Cleared (book : Book) : Prop where
  invalid : book.valid = false
  bids : book.bids = []
  asks : book.asks = []
  lastBbo : book.lastBbo = none
  lastProviderNs : book.lastProviderNs = none

theorem invalidate_cleared (book : Book) (reason : String) : Cleared (book.invalidate reason) :=
  ⟨rfl, rfl, rfl, rfl, rfl⟩

theorem Levels.Sound.start {side : Levels} (sound : side.Sound) (fresh : Prop) [Decidable fresh] :
    Levels.Sound (if fresh then [] else side) := by
  split
  next => exact .empty
  next => exact sound

theorem decode_sound {book : Book} (bids : book.bids.Sound) (asks : book.asks.Sound)
    {row : List (String × Json)} {messageType : String} {nextBids nextAsks : Levels} {expected : ℤ}
    (decoded : decode book row messageType = .ok (nextBids, nextAsks, expected)) :
    nextBids.Sound ∧ nextAsks.Sound ∧ nextBids.length ≤ 10 ∧ nextAsks.length ≤ 10 ∧
    field row "checksum" = .ok (.int expected) := by
  simp only [decode, bind, Except.bind, pure, Except.pure] at decoded
  repeat' split at decoded
  all_goals try cases decoded
  next _ readBids _ _ readAsks _ rowChecksum present _ typed =>
    refine ⟨(applyLevels_sound (bids.start _) readBids).topBids,
      (applyLevels_sound (asks.start _) readAsks).topAsks, by simp [topBids], by simp [topAsks], ?_⟩
    cases rowChecksum <;> cases typed
    exact present

/-- What an accepted row establishes. -/
structure Accepted (book next : Book) (row : List (String × Json)) (providerNs : ℤ) : Prop where
  valid : next.valid = true
  represents : ∃ bbo, Represents next bbo
  checksum : field row "checksum" = .ok (.int (checksum next.bids next.asks))
  clock : next.lastProviderNs = some providerNs
  ordered : ∀ last, book.lastProviderNs = some last → last ≤ providerNs

/-- All that one `apply` can do. -/
inductive Outcome (book : Book) (row : List (String × Json)) (providerNs : ℤ) :
    Book × Except BookError (Option BookQuote) → Prop where
  | accepted (next quote) (held : Accepted book next row providerNs) :
      Outcome book row providerNs (next, .ok (some quote))
  | cleared (next) (empty : Cleared next) : Outcome book row providerNs (next, .ok none)
  | waiting (invalid : book.valid = false) :
      Outcome book row providerNs ({ book with lastReason := "update_before_valid_snapshot" }, .ok none)
  | untouched (e) : Outcome book row providerNs (book, .error e)
  | rejected (e) : Outcome book row providerNs (book.invalidate "invalid_book_level", .error e)

theorem quoteOf_total (book : Book) (bbo : Bbo) {bids asks : Levels} (soundBids : bids.Sound)
    (soundAsks : asks.Sound) (bid : (bbo.bid, bbo.bidSize) ∈ bids)
    (ask : (bbo.ask, bbo.askSize) ∈ asks) (providerNs expected actual : ℤ) :
    ∃ quote, quoteOf book bbo providerNs expected actual = .ok quote := by
  have bidPositive := soundBids.positive _ bid
  have askPositive := soundAsks.positive _ ask
  unfold quoteOf
  split
  next => exact ⟨_, rfl⟩
  next invalid => exact absurd ⟨bidPositive.1, askPositive.1, bidPositive.2, askPositive.2⟩ invalid

theorem validate_outcome {book : Book} {bids asks : Levels} {row : List (String × Json)}
    {expected : ℤ} (soundBids : bids.Sound) (soundAsks : asks.Sound) (bidDepth : bids.length ≤ 10)
    (askDepth : asks.length ≤ 10) (present : field row "checksum" = .ok (.int expected))
    (providerNs : ℤ) : Outcome book row providerNs (validate book bids asks expected providerNs) := by
  unfold validate
  dsimp only
  split
  next => exact .cleared _ (invalidate_cleared _ _)
  next matched =>
    rw [not_not] at matched
    split
    next bid ask foundBid foundAsk =>
      split
      next => exact .cleared _ (invalidate_cleared _ _)
      next apart =>
        split
        next => exact .cleared _ (invalidate_cleared _ _)
        next regular =>
          unfold accept
          obtain ⟨quote, total⟩ := quoteOf_total _ ⟨bid.1, bid.2, ask.1, ask.2⟩ soundBids soundAsks
            (best_mem foundBid) (best_mem foundAsk) providerNs expected (checksum bids asks)
          dsimp only
          rw [total]
          refine .accepted _ quote ⟨rfl, ⟨_, soundBids, soundAsks,
            ⟨List.length_pos_of_mem (best_mem foundBid), bidDepth⟩,
            ⟨List.length_pos_of_mem (best_mem foundAsk), askDepth⟩, rfl,
            ⟨best_mem foundBid, bestBid_max foundBid⟩, ⟨best_mem foundAsk, bestAsk_min foundAsk⟩,
            not_le.mp apart⟩, ?_, rfl, ?_⟩
          · dsimp only; rw [matched]; exact present
          · intro last stored
            simpa [stored] using regular
    next => exact .cleared _ (invalidate_cleared _ _)

theorem apply_outcome {book : Book} (bids : book.bids.Sound) (asks : book.asks.Sound)
    (row : List (String × Json)) (messageType : String) (providerNs : ℤ) :
    Outcome book row providerNs (apply book row messageType providerNs) := by
  unfold apply
  split
  next => exact .untouched _
  next =>
    split
    next early => exact .waiting early.2
    next =>
      split
      next => exact .rejected _
      next => exact .untouched _
      next decoded =>
        obtain ⟨soundBids, soundAsks, bidDepth, askDepth, present⟩ := decode_sound bids asks decoded
        exact validate_outcome soundBids soundAsks bidDepth askDepth present providerNs

/-- All that one `apply` can do, with what it read. -/
inductive Applied (book : Book) (row : List (String × Json)) (messageType : String) (providerNs : ℤ) :
    Book × Except BookError (Option BookQuote) → Prop where
  | accepted {bids asks : Levels} {bid ask : Numeral × Numeral} {expected : ℤ}
      (decoded : decode book row messageType = .ok (bids, asks, expected))
      (bestBid : bestBid bids = some bid) (bestAsk : bestAsk asks = some ask)
      (apart : bid.1.value < ask.1.value) (ordered : ∀ last ∈ book.lastProviderNs, last ≤ providerNs) :
      Applied book row messageType providerNs (accept { book with checks := book.checks + 1 } bids asks
        ⟨bid.1, bid.2, ask.1, ask.2⟩ providerNs expected (checksum bids asks))
  | cleared (next) (empty : Cleared next) : Applied book row messageType providerNs (next, .ok none)
  | waiting (invalid : book.valid = false) :
      Applied book row messageType providerNs ({ book with lastReason := "update_before_valid_snapshot" }, .ok none)
  | untouched (e) (malformed : (messageType ≠ "snapshot" ∧ messageType ≠ "update") ∨
        decode book row messageType = .error e ∧ e ≠ .invalidLevel) :
      Applied book row messageType providerNs (book, .error e)
  | rejected (e) : Applied book row messageType providerNs (book.invalidate "invalid_book_level", .error e)

theorem validate_applied {book : Book} {bids asks : Levels} {row : List (String × Json)} {messageType : String}
    {expected : ℤ} (decoded : decode book row messageType = .ok (bids, asks, expected)) (providerNs : ℤ) :
    Applied book row messageType providerNs (validate book bids asks expected providerNs) := by
  unfold validate
  dsimp only
  split
  next => exact .cleared _ (invalidate_cleared _ _)
  next =>
    split
    next bid ask foundBid foundAsk =>
      split
      next => exact .cleared _ (invalidate_cleared _ _)
      next apart =>
        split
        next => exact .cleared _ (invalidate_cleared _ _)
        next regular =>
          refine .accepted decoded foundBid foundAsk (not_le.mp apart) fun last stored => ?_
          rw [Option.mem_def.mp stored] at regular
          simpa using regular
    next => exact .cleared _ (invalidate_cleared _ _)

theorem apply_applied (book : Book) (row : List (String × Json)) (messageType : String) (providerNs : ℤ) :
    Applied book row messageType providerNs (apply book row messageType providerNs) := by
  unfold apply
  split
  next other => exact .untouched _ (.inl other)
  next =>
    split
    next early => exact .waiting early.2
    next =>
      split
      next => exact .rejected _
      next e other decoded => exact .untouched e (.inr ⟨decoded, other⟩)
      next decoded => exact validate_applied decoded providerNs

/-- One message of the feed as the book sees it. -/
structure Message where
  row : List (String × Json)
  messageType : String
  providerNs : ℤ

inductive Op where
  | apply (message : Message)
  | invalidate (reason : String)

/-- A book together with the messages it accepted since it was last invalidated,
newest first. -/
structure Session where
  book : Book := {}
  accepted : List Message := []

def record (session : Session) (message : Message) :
    Book × Except BookError (Option BookQuote) → Session
  | (book, .ok (some _)) => ⟨book, message :: session.accepted⟩
  | (book, _) => ⟨book, if book.valid then session.accepted else []⟩

def step (session : Session) : Op → Session
  | .apply m => record session m (apply session.book m.row m.messageType m.providerNs)
  | .invalidate reason => ⟨session.book.invalidate reason, []⟩

def run (ops : List Op) : Session := ops.foldl step {}

/-- The latest accepted message sealed the stored levels, and provider clocks never ran
backwards since the last invalidation. -/
structure Sealed (session : Session) : Prop where
  latest : ∃ message rest, session.accepted = message :: rest ∧
    session.book.lastProviderNs = some message.providerNs ∧
    field message.row "checksum" =
      .ok (.int (checksum session.book.bids session.book.asks))
  monotone : session.accepted.Pairwise fun later earlier => earlier.providerNs ≤ later.providerNs

inductive Coherent (session : Session) : Prop where
  | cleared (empty : Cleared session.book) (forgotten : session.accepted = [])
  | live (bbo : Bbo) (valid : session.book.valid = true)
      (represents : Represents session.book bbo) (sealed : Sealed session)

theorem Coherent.bids {session : Session} (coherent : Coherent session) :
    session.book.bids.Sound := by
  cases coherent with
  | cleared empty => rw [empty.bids]; exact .empty
  | live _ _ represents => exact represents.bids

theorem Coherent.asks {session : Session} (coherent : Coherent session) :
    session.book.asks.Sound := by
  cases coherent with
  | cleared empty => rw [empty.asks]; exact .empty
  | live _ _ represents => exact represents.asks

theorem Sealed.extend {session : Session} (coherent : Coherent session) {next : Book}
    {message : Message} (held : Accepted session.book next message.row message.providerNs) :
    Sealed ⟨next, message :: session.accepted⟩ where
  latest := ⟨message, session.accepted, rfl, held.clock, held.checksum⟩
  monotone := by
    cases coherent with
    | cleared _ forgotten => simp [forgotten]
    | live _ _ _ sealed =>
      obtain ⟨last, rest, history, clock, -⟩ := sealed.latest
      have monotone := sealed.monotone
      have ordered := held.ordered _ clock
      rw [history] at monotone ⊢
      refine List.pairwise_cons.mpr ⟨?_, monotone⟩
      simp only [List.forall_mem_cons]
      refine ⟨ordered, fun earlier member => ?_⟩
      exact (List.rel_of_pairwise_cons monotone member).trans ordered

theorem step_coherent {session : Session} (coherent : Coherent session) (op : Op) :
    Coherent (step session op) := by
  cases op with
  | invalidate reason => exact .cleared (invalidate_cleared _ _) rfl
  | apply m =>
    have outcome := apply_outcome coherent.bids coherent.asks m.row m.messageType m.providerNs
    unfold step
    dsimp only
    generalize apply session.book m.row m.messageType m.providerNs = result at outcome
    cases outcome with
    | accepted next quote held =>
      obtain ⟨bbo, represents⟩ := held.represents
      exact .live bbo held.valid represents (.extend coherent held)
    | cleared next empty => exact .cleared empty (by simp [record, empty.invalid])
    | waiting invalid =>
      cases coherent with
      | cleared empty => exact .cleared ⟨invalid, empty.bids, empty.asks, empty.lastBbo,
          empty.lastProviderNs⟩ (by simp [record, invalid])
      | live _ valid => simp [valid] at invalid
    | untouched e =>
      cases coherent with
      | cleared empty forgotten => exact .cleared empty (by simp [record, forgotten])
      | live bbo valid represents sealed =>
        simp only [record, valid, if_true]
        exact .live bbo valid represents sealed
    | rejected e => exact .cleared (invalidate_cleared _ _) rfl

theorem run_coherent (ops : List Op) : Coherent (run ops) := by
  suffices keeps : ∀ session, Coherent session → Coherent (ops.foldl step session) from
    keeps _ (.cleared ⟨rfl, rfl, rfl, rfl, rfl⟩ rfl)
  induction ops with
  | nil => exact fun _ coherent => coherent
  | cons op rest ih => exact fun session coherent => ih _ (step_coherent coherent op)

/-- The representation over every run of messages and invalidations. A raising `apply`
either leaves the book it found or clears it. -/
theorem run_representation (ops : List Op) :
    let session := run ops
    let book := session.book
    (book.valid = true → (∃ bbo, Represents book bbo) ∧ Sealed session) ∧
    (book.valid = false → book.bids = [] ∧ book.asks = [] ∧ book.lastBbo = none ∧
      book.lastProviderNs = none) ∧
    ∀ row messageType providerNs e, (apply book row messageType providerNs).2 = .error e →
      (apply book row messageType providerNs).1 = book ∨
      (apply book row messageType providerNs).1 = book.invalidate "invalid_book_level" := by
  have coherent := run_coherent ops
  refine ⟨fun valid => ?_, fun invalid => ?_, fun row messageType providerNs e raised => ?_⟩
  · cases coherent with
    | cleared empty => simp [empty.invalid] at valid
    | live bbo _ represents sealed => exact ⟨⟨bbo, represents⟩, sealed⟩
  · cases coherent with
    | cleared empty => exact ⟨empty.bids, empty.asks, empty.lastBbo, empty.lastProviderNs⟩
    | live _ valid => simp [valid] at invalid
  · have outcome := apply_outcome coherent.bids coherent.asks row messageType providerNs
    generalize apply (run ops).book row messageType providerNs = result at outcome raised
    cases outcome with
    | untouched => exact .inl rfl
    | rejected => exact .inr rfl
    | _ => cases raised

end TradeAgent.Kraken
