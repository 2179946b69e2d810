import TradeAgent.KrakenBook
import TradeAgent.Library.Machine
import TradeAgent.Library.TopLevels

/-! The depth-ten book against the whole book of the server that feeds it. -/
namespace TradeAgent.Kraken

open TopLevels

/-- Decimals compare by their values, however they are written. -/
def Levels.values (side : Levels) : List (ℚ × ℚ) := side.map fun l => (l.1.value, l.2.value)

def higher (a b : ℚ) : Bool := decide (b ≤ a)
def lower (a b : ℚ) : Bool := decide (a ≤ b)

theorem higher_ranks : Ranks higher where
  trans a b c ab bc := by
    simp only [higher, decide_eq_true_eq] at *
    exact bc.trans ab
  total a b := by simpa [higher] using le_total b a
  antisymm a b ab ba := by
    simp only [higher, decide_eq_true_eq] at *
    exact le_antisymm ba ab

theorem lower_ranks : Ranks lower where
  trans a b c ab bc := by
    simp only [lower, decide_eq_true_eq] at *
    exact ab.trans bc
  total a b := by simpa [lower] using le_total a b
  antisymm a b ab ba := by
    simp only [lower, decide_eq_true_eq] at *
    exact le_antisymm ab ba

/-- The whole book that the server keeps. -/
structure Server where
  bids : Dict ℚ ℚ := .empty
  asks : Dict ℚ ℚ := .empty

/-- The numbers of a level of a message. -/
def levelOf : Json → Except BookError (Numeral × Numeral)
  | .obj fields => do
    let price ← decimal (← field fields "price")
    let quantity ← decimal (← field fields "qty")
    return (price, quantity)
  | _ => .error .levelNotObject

/-- What a level says: a quantity of zero takes the price away. -/
def updateOf (level : Numeral × Numeral) : Update ℚ ℚ :=
  (level.1.value, if level.2.value = 0 then none else some level.2.value)

/-- The JSON of a side carries these updates, in wire order. -/
def Carries (json : Json) (updates : List (Update ℚ ℚ)) : Prop :=
  ∃ items levels, json = .arr items ∧ List.Forall₂ (fun item level => levelOf item = .ok level) items levels ∧
    updates = levels.map updateOf

/-- A well-formed message that announces, on both sides, how the top ten came from one book to another. -/
structure Describes (row : List (String × Json)) (before after : Server) : Prop where
  bids : ∃ updates, Carries ((row.lookup "bids").getD (.arr [])) updates ∧
    Announces higher 10 before.bids after.bids updates
  asks : ∃ updates, Carries ((row.lookup "asks").getD (.arr [])) updates ∧
    Announces lower 10 before.asks after.asks updates
  checksum : ∃ n, field row "checksum" = .ok (.int n)

/-- What happens between the server and the book: a message that the server sends for the book it has now, or a local
invalidation. -/
inductive FeedEvent where
  | sent (message : Message) (after : Server)
  | invalidate (reason : String)

/-- The server's book at its last message, and the book that follows it. -/
structure Line where
  server : Server
  book : Book := {}

def Line.step (line : Line) : FeedEvent → Line
  | .sent message after =>
    ⟨after, (apply line.book message.row message.messageType message.providerNs).1⟩
  | .invalidate reason => { line with book := line.book.invalidate reason }

/-- A snapshot announces the top ten to a reader that has nothing, an update to a reader that has the last one. -/
def Line.Documented (line : Line) : FeedEvent → Prop
  | .sent message after =>
    message.messageType = "snapshot" ∧ Describes message.row {} after ∨
    message.messageType = "update" ∧ Describes message.row line.server after
  | .invalidate _ => True

/-- The stored levels are the server's top ten. -/
structure Mirrors (book : Book) (server : Server) : Prop where
  bids : book.bids.values = top higher 10 server.bids
  asks : book.asks.values = top lower 10 server.asks

section levels

theorem assign_values (side : Levels) (price quantity : Numeral) :
    (assign side price quantity).values = Dict.put side.values price.value quantity.value := by
  induction side with
  | nil => rfl
  | cons l rest ih =>
    unfold Levels.values at ih ⊢
    simp only [assign, List.map_cons, Dict.put]
    split
    next same => rw [List.map_cons, same]
    next => rw [List.map_cons, ih]

theorem discard_values (side : Levels) (price : Numeral) :
    (discard side price).values = side.values.filter fun e => e.1 ≠ price.value := by
  unfold discard Levels.values
  rw [List.filter_map]
  rfl

theorem topBids_values {side : Levels} {book : Dict ℚ ℚ} (same : side.values = book.entries) :
    (topBids side).values = top higher 10 book := by
  have sorted : (side.mergeSort fun a b => decide (b.1.value ≤ a.1.value)).map (fun l => (l.1.value, l.2.value)) =
      side.values.mergeSort fun a b => higher a.1 b.1 := List.map_mergeSort fun _ _ _ _ => rfl
  unfold topBids top ranked Levels.values
  rw [List.map_take, sorted, same]

theorem topAsks_values {side : Levels} {book : Dict ℚ ℚ} (same : side.values = book.entries) :
    (topAsks side).values = top lower 10 book := by
  have sorted : (side.mergeSort fun a b => decide (a.1.value ≤ b.1.value)).map (fun l => (l.1.value, l.2.value)) =
      side.values.mergeSort fun a b => lower a.1 b.1 := List.map_mergeSort fun _ _ _ _ => rfl
  unfold topAsks top ranked Levels.values
  rw [List.map_take, sorted, same]

theorem applyLevel_of {item : Json} {level : Numeral × Numeral} (read : levelOf item = .ok level) (side : Levels) :
    applyLevel side item =
      if level.1.value ≤ 0 ∨ level.2.value < 0 then .error .invalidLevel
      else if level.2.value = 0 then .ok (discard side level.1)
      else .ok (assign side level.1 level.2) := by
  cases item with
  | obj fields =>
    simp only [levelOf, bind, Except.bind, pure, Except.pure] at read
    simp only [applyLevel, bind, Except.bind]
    repeat' split at read
    all_goals cases read
    simp only [*]
  | _ => cases read

/-- A level that can be read is applied as the change it stands for, unless its numbers are refused. -/
theorem applyLevel_change {side : Levels} {book : Dict ℚ ℚ} (same : side.values = book.entries) {item : Json}
    {level : Numeral × Numeral} (read : levelOf item = .ok level) :
    applyLevel side item = .error .invalidLevel ∨
    ∃ next, applyLevel side item = .ok next ∧ next.values = (change book (updateOf level)).entries := by
  rw [applyLevel_of read]
  unfold updateOf change
  by_cases refused : level.1.value ≤ 0 ∨ level.2.value < 0
  · exact .inl (if_pos refused)
  · rw [if_neg refused]
    right
    by_cases gone : level.2.value = 0
    · rw [if_pos gone, if_pos gone]
      refine ⟨_, rfl, ?_⟩
      rw [discard_values, same]
      rfl
    · rw [if_neg gone, if_neg gone]
      refine ⟨_, rfl, ?_⟩
      rw [assign_values, same]
      rfl

theorem applyLevels_change {side : Levels} {book : Dict ℚ ℚ} (same : side.values = book.entries) {json : Json}
    {updates : List (Update ℚ ℚ)} (carries : Carries json updates) :
    applyLevels side json = .error .invalidLevel ∨
    ∃ next, applyLevels side json = .ok next ∧ next.values = (updates.foldl change book).entries := by
  obtain ⟨items, levels, rfl, read, rfl⟩ := carries
  change items.foldlM applyLevel side = _ ∨ ∃ next, items.foldlM applyLevel side = _ ∧ _
  induction read generalizing side book with
  | nil => exact .inr ⟨side, rfl, same⟩
  | cons first rest ih =>
    rw [List.foldlM_cons]
    rcases applyLevel_change same first with refused | ⟨next, applied, same⟩
    · rw [refused]
      exact .inl rfl
    · rw [applied]
      exact ih same

end levels

section mirror

/-- The levels that a message is applied to show the best levels of what the message starts from. -/
def Starts (book : Book) (fresh : Prop) [Decidable fresh] (before : Server) : Prop :=
  Levels.values (if fresh then [] else book.bids) = top higher 10 before.bids ∧
  Levels.values (if fresh then [] else book.asks) = top lower 10 before.asks

/-- The dictionary of the best levels. -/
def topDict (better : ℚ → ℚ → Bool) (book : Dict ℚ ℚ) : Dict ℚ ℚ where
  entries := top better 10 book
  distinct := by
    unfold top
    rw [List.map_take]
    exact (ranked_distinct book).sublist (List.take_sublist _ _)

/-- A documented message is decoded to the server's top ten, unless a number in it is refused. -/
theorem decode_described {book : Book} {row : List (String × Json)} {messageType : String} {before after : Server}
    (starts : Starts book (messageType = "snapshot") before) (described : Describes row before after) :
    decode book row messageType = .error .invalidLevel ∨
    ∃ bids asks expected, decode book row messageType = .ok (bids, asks, expected) ∧
      bids.values = top higher 10 after.bids ∧ asks.values = top lower 10 after.asks := by
  obtain ⟨⟨bidUpdates, bidCarries, bidAnnounces⟩, ⟨askUpdates, askCarries, askAnnounces⟩, n, expected⟩ := described
  unfold decode
  have bidStarts : Levels.values _ = (topDict higher before.bids).entries := starts.1
  have askStarts : Levels.values _ = (topDict lower before.asks).entries := starts.2
  rcases applyLevels_change bidStarts bidCarries with refused | ⟨bids, read, same⟩
  · dsimp only
    rw [refused]
    exact .inl rfl
  rcases applyLevels_change askStarts askCarries with refused | ⟨asks, read', same'⟩
  · dsimp only
    rw [read, refused]
    exact .inl rfl
  · dsimp only
    rw [read, read', expected]
    refine .inr ⟨topBids bids, topAsks asks, n, rfl, ?_, ?_⟩
    · rw [topBids_values same]
      exact top_announced higher_ranks bidAnnounces rfl
    · rw [topAsks_values same']
      exact top_announced lower_ranks askAnnounces rfl

theorem Starts.fresh (book : Book) : Starts book ("snapshot" = "snapshot") {} := by
  refine ⟨?_, ?_⟩ <;> simp [Levels.values, top, ranked, Dict.empty]

/-- What a valid book is after a documented message: the server's top ten. -/
theorem apply_described {line : Line} (mirrors : line.book.valid = true → Mirrors line.book line.server)
    {message : Message} {after : Server} (documented : line.Documented (.sent message after))
    (valid : (line.step (.sent message after)).book.valid = true) :
    Mirrors (line.step (.sent message after)).book after := by
  change (apply line.book message.row message.messageType message.providerNs).1.valid = true at valid
  change Mirrors (apply line.book message.row message.messageType message.providerNs).1 after
  -- An update is only read by a book that mirrors the server already.
  by_cases early : message.messageType = "update" ∧ line.book.valid = false
  · have waits : apply line.book message.row message.messageType message.providerNs =
        ({ line.book with lastReason := "update_before_valid_snapshot" }, .ok none) := by
      unfold apply
      rw [if_neg (fun other => other.2 early.1), if_pos early]
    rw [waits] at valid
    exact absurd (valid : line.book.valid = true) (by simp [early.2])
  obtain ⟨known, decoded⟩ : (message.messageType = "snapshot" ∨ message.messageType = "update") ∧
      (decode line.book message.row message.messageType = .error .invalidLevel ∨
      ∃ bids asks expected, decode line.book message.row message.messageType = .ok (bids, asks, expected) ∧
        bids.values = top higher 10 after.bids ∧ asks.values = top lower 10 after.asks) := by
    rcases documented with ⟨snapshot, described⟩ | ⟨update, described⟩
    · exact ⟨.inl snapshot, decode_described (snapshot ▸ Starts.fresh line.book) described⟩
    · refine ⟨.inr update, decode_described ?_ described⟩
      have held := mirrors (by simpa [update] using early)
      have stale : ¬message.messageType = "snapshot" := by rw [update]; decide
      unfold Starts
      rw [if_neg stale, if_neg stale]
      exact ⟨held.bids, held.asks⟩
  have applied := apply_applied line.book message.row message.messageType message.providerNs
  generalize apply line.book message.row message.messageType message.providerNs = result at applied valid ⊢
  cases applied with
  | accepted read =>
    rcases decoded with refused | ⟨bids, asks, expected, decoded, sameBids, sameAsks⟩
    · rw [refused] at read
      cases read
    · rw [decoded] at read
      cases read
      exact ⟨sameBids, sameAsks⟩
  | cleared next empty =>
    rw [empty.invalid] at valid
    cases valid
  | waiting invalid => exact absurd (valid : line.book.valid = true) (by simp [invalid])
  | untouched e malformed =>
    rcases malformed with other | ⟨failed, other⟩
    · exact absurd known (by simp [other.1, other.2])
    · rcases decoded with refused | ⟨bids, asks, expected, decoded, -, -⟩
      · rw [refused] at failed
        exact absurd (Except.error.inj failed).symm other
      · rw [decoded] at failed
        cases failed
  | rejected e => cases valid

/-- Along every documented history a valid book holds the server's top ten. -/
theorem documented_mirrors {line : Line} {events : List FeedEvent}
    (documented : Machine.Along Line.step Line.Documented line events)
    (mirrors : line.book.valid = true → Mirrors line.book line.server) :
    (Machine.run Line.step line events).book.valid = true →
      Mirrors (Machine.run Line.step line events).book (Machine.run Line.step line events).server := by
  have kept (line : Line) (event : FeedEvent) (mirrors : line.book.valid = true → Mirrors line.book line.server)
      (documented : line.Documented event) :
      (line.step event).book.valid = true → Mirrors (line.step event).book (line.step event).server := by
    cases event with
    | sent message after => exact apply_described mirrors documented
    | invalidate reason => exact fun valid => nomatch (valid : false = true)
  exact documented.invariant kept mirrors

end mirror

/-- An accepted message leaves a valid book. -/
theorem accepted_valid {book : Book} {row : List (String × Json)} {messageType : String} {providerNs : ℤ}
    {quote : BookQuote} (accepted : (apply book row messageType providerNs).2 = .ok (some quote)) :
    (apply book row messageType providerNs).1.valid = true := by
  have applied := apply_applied book row messageType providerNs
  generalize apply book row messageType providerNs = result at applied accepted ⊢
  cases applied with
  | accepted => rfl
  | _ => cases accepted

/-- For every history of the server's book, from any book that it starts with: after every message that the book
accepts, its sides are the server's top ten. -/
theorem true_top_ten (start : Server) (history : List FeedEvent) (message : Message) (after : Server)
    (documented : Machine.Along Line.step Line.Documented ⟨start, {}⟩ (history ++ [.sent message after]))
    {quote : BookQuote} (accepted : (apply (Machine.run Line.step ⟨start, {}⟩ history).book message.row
      message.messageType message.providerNs).2 = .ok (some quote)) :
    Mirrors (apply (Machine.run Line.step ⟨start, {}⟩ history).book message.row message.messageType
      message.providerNs).1 after := by
  have mirrors := documented_mirrors documented fun valid => nomatch (valid : false = true)
  rw [Machine.run_append] at mirrors
  exact mirrors (accepted_valid accepted)

def levelJson (price quantity : String) : Json := .obj [("price", .str price.toList), ("qty", .str quantity.toList)]

def openingMessage : Message where
  row := [("bids", .arr [levelJson "999" "0.011"]), ("asks", .arr [levelJson "1000" "0.011"]),
    ("checksum", .int 494270978)]
  messageType := "snapshot"
  providerNs := 1

def refillMessage : Message where
  row := [("bids", .arr [levelJson "999" "0.02"]), ("checksum", .int 1418282941)]
  messageType := "update"
  providerNs := 2

def openingServer : Server := ⟨⟨[(999, 11 / 1000)], by simp⟩, ⟨[(1000, 11 / 1000)], by simp⟩⟩
def refilledServer : Server := ⟨⟨[(999, 1 / 50)], by simp⟩, ⟨[(1000, 11 / 1000)], by simp⟩⟩

theorem opening_documented : Machine.Along Line.step Line.Documented ⟨{}, {}⟩
    [.sent openingMessage openingServer, .sent refillMessage refilledServer] := by
  refine ⟨.inl ⟨rfl, ⟨_, ?_, announcement_announces _ _⟩, ⟨_, ?_, announcement_announces _ _⟩, ⟨_, rfl⟩⟩,
    .inr ⟨rfl, ⟨_, ?_, announcement_announces _ _⟩, ⟨_, ?_, announcement_announces _ _⟩, ⟨_, rfl⟩⟩, trivial⟩
  · exact ⟨_, [(⟨false, 999, 0⟩, ⟨false, 11, -3⟩)], rfl, .cons (by rfl) .nil, by decide +kernel⟩
  · exact ⟨_, [(⟨false, 1000, 0⟩, ⟨false, 11, -3⟩)], rfl, .cons (by rfl) .nil, by decide +kernel⟩
  · exact ⟨_, [(⟨false, 999, 0⟩, ⟨false, 2, -2⟩)], rfl, .cons (by rfl) .nil, by decide +kernel⟩
  · exact ⟨_, [], rfl, .nil, by decide +kernel⟩

/-- After a snapshot and one update. -/
theorem true_top_ten_refilled :
    Mirrors (apply (Machine.run Line.step ⟨{}, {}⟩ [.sent openingMessage openingServer]).book refillMessage.row
      refillMessage.messageType refillMessage.providerNs).1 refilledServer := by
  have accepted : ((apply (Machine.run Line.step ⟨{}, {}⟩ [.sent openingMessage openingServer]).book refillMessage.row
      refillMessage.messageType refillMessage.providerNs).2.toOption.bind id).isSome = true := by decide +kernel
  cases outcome : (apply (Machine.run Line.step ⟨{}, {}⟩ [.sent openingMessage openingServer]).book refillMessage.row
      refillMessage.messageType refillMessage.providerNs).2 with
  | error e =>
    rw [outcome] at accepted
    cases accepted
  | ok quote =>
    cases quote with
    | none =>
      rw [outcome] at accepted
      cases accepted
    | some quote =>
      exact true_top_ten {} [.sent openingMessage openingServer] refillMessage refilledServer opening_documented outcome

end TradeAgent.Kraken
