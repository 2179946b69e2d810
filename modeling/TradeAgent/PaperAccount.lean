import TradeAgent.PaperBroker

/-! What an account read, a mark and a submission leave of the paper broker: the
snapshot's positions, the reads that change nothing, and the one fill a submission adds. -/
namespace TradeAgent.Paper

open Rounding

/-- The shares a broker holds of a symbol. -/
def held (b : PaperBroker) (symbol : String) : ℚ := (b.positions.getD symbol {}).quantity

/-- Every position has a mark, so that reads value all of them. -/
def Marked (b : PaperBroker) : Prop := ∀ symbol ∈ b.positions.keys, (b.marks.get? symbol).isSome

def Settled (b : PaperBroker) : Prop := calculateEquity b ≤ b.highWatermark

theorem init_marked (config : BrokerConfig) : Marked (init config) := by
  intro symbol present
  cases present

theorem init_settled (config : BrokerConfig) : Settled (init config) := by
  simp [Settled, calculateEquity, init, Dict.empty]

section Listed

variable {b : PaperBroker} {l : List (String × PositionState)} {positions : List Position}

theorem listed_cons {e : String × PositionState} {rest : List (String × PositionState)}
    (read : ((e :: rest).filterMap fun e => accountPosition b e.1 e.2).mapM id = .ok positions) :
    (accountPosition b e.1 e.2 = none ∧
      (rest.filterMap fun e => accountPosition b e.1 e.2).mapM id = .ok positions) ∨
    ∃ p others, accountPosition b e.1 e.2 = some (.ok p) ∧ positions = p :: others ∧
      (rest.filterMap fun e => accountPosition b e.1 e.2).mapM id = .ok others := by
  rw [List.filterMap_cons] at read
  cases first : accountPosition b e.1 e.2 with
  | none => rw [first] at read; exact .inl ⟨rfl, read⟩
  | some result =>
    rw [first] at read
    dsimp only at read
    rw [List.mapM_cons] at read
    cases result with
    | error => cases read
    | ok p =>
      cases others : (rest.filterMap fun e => accountPosition b e.1 e.2).mapM id with
      | error => rw [others] at read; cases read
      | ok ps => rw [others] at read; cases read; exact .inr ⟨p, ps, rfl, rfl, rfl⟩

theorem accountPosition_some {symbol : String} {state : PositionState} {p : Position}
    (read : accountPosition b symbol state = some (.ok p)) :
    p.symbol = symbol ∧ p.quantity = state.quantity ∧ state.quantity ≠ 0 ∧
    p.averagePrice = state.averagePrice ∧ b.marks.get? symbol = some p.marketPrice := by
  unfold accountPosition at read
  split at read
  next => cases read
  next price marked =>
    split at read
    next => cases read
    next moved =>
      split at read
      next => cases read; exact ⟨rfl, rfl, moved, rfl, marked⟩
      next => cases read

theorem accountPosition_none {symbol : String} {state : PositionState}
    (marked : (b.marks.get? symbol).isSome) (read : accountPosition b symbol state = none) :
    state.quantity = 0 := by
  obtain ⟨price, marked⟩ := Option.isSome_iff_exists.mp marked
  unfold accountPosition at read
  simp only [marked] at read
  split at read
  next zero => exact zero
  next => split at read <;> cases read

theorem mem_listed (read : (l.filterMap fun e => accountPosition b e.1 e.2).mapM id = .ok positions)
    {p : Position} (member : p ∈ positions) :
    ∃ state, (p.symbol, state) ∈ l ∧ accountPosition b p.symbol state = some (.ok p) := by
  induction l generalizing positions with
  | nil => cases read; cases member
  | cons e rest ih =>
    rcases listed_cons read with ⟨_, later⟩ | ⟨q, others, here, rfl, later⟩
    · obtain ⟨state, inside, known⟩ := ih later member
      exact ⟨state, List.mem_cons_of_mem _ inside, known⟩
    · rcases List.mem_cons.mp member with rfl | elsewhere
      · have name := (accountPosition_some here).1
        exact ⟨e.2, by rw [name]; exact List.mem_cons_self, by rw [name]; exact here⟩
      · obtain ⟨state, inside, known⟩ := ih later elsewhere
        exact ⟨state, List.mem_cons_of_mem _ inside, known⟩

/-- The listed market values are the marked values of all positions. -/
theorem listed_value (marked : ∀ e ∈ l, (b.marks.get? e.1).isSome)
    (read : (l.filterMap fun e => accountPosition b e.1 e.2).mapM id = .ok positions) :
    (positions.map Position.marketValue).sum =
      (l.map fun e => e.2.quantity * b.marks.getD e.1 e.2.averagePrice).sum := by
  induction l generalizing positions with
  | nil => cases read; rfl
  | cons e rest ih =>
    have known := marked e List.mem_cons_self
    have others := fun x member => marked x (List.mem_cons_of_mem e member)
    rw [List.map_cons, List.sum_cons]
    rcases listed_cons read with ⟨absent, later⟩ | ⟨p, ps, here, rfl, later⟩
    · rw [accountPosition_none known absent, zero_mul, zero_add, ih others later]
    · obtain ⟨_, quantity, _, _, price⟩ := accountPosition_some here
      have value : b.marks.getD e.1 e.2.averagePrice = p.marketPrice := by
        simp [Dict.getD, price]
      rw [List.map_cons, List.sum_cons, ih others later, value, Position.marketValue, quantity]

theorem listed_quantity {symbol : String} (marked : (b.marks.get? symbol).isSome)
    (distinct : (l.map Prod.fst).Nodup)
    (read : (l.filterMap fun e => accountPosition b e.1 e.2).mapM id = .ok positions) :
    ((positions.find? fun p => p.symbol = symbol).map Position.quantity).getD 0 =
      ((Dict.find l symbol).getD {}).quantity := by
  induction l generalizing positions with
  | nil => cases read; rfl
  | cons e rest ih =>
    rw [List.map_cons, List.nodup_cons] at distinct
    rcases listed_cons read with ⟨absent, later⟩ | ⟨p, ps, here, rfl, later⟩
    · rw [ih distinct.2 later]
      by_cases same : e.1 = symbol
      · have known : (b.marks.get? e.1).isSome := same ▸ marked
        have nowhere : Dict.find rest symbol = none := Dict.find_none_iff.mpr (same ▸ distinct.1)
        rw [nowhere, Dict.find, if_pos same]
        exact (accountPosition_none known absent).symm
      · rw [Dict.find, if_neg same]
    · obtain ⟨name, quantity, _⟩ := accountPosition_some here
      by_cases same : e.1 = symbol
      · simp [Dict.find, name, same, quantity]
      · simp only [List.find?_cons, name, same, decide_false, Dict.find, if_false]
        exact ih distinct.2 later

end Listed

theorem sorted_perm (b : PaperBroker) : (sortedPositions b).Perm b.positions.entries :=
  List.mergeSort_perm _ _

theorem sorted_distinct (b : PaperBroker) : ((sortedPositions b).map Prod.fst).Nodup :=
  ((sorted_perm b).map Prod.fst).nodup_iff.mpr b.positions.distinct

theorem sorted_marked {b : PaperBroker} (marked : Marked b) :
    ∀ e ∈ sortedPositions b, (b.marks.get? e.1).isSome := fun e member =>
  marked e.1 (List.mem_map_of_mem ((sorted_perm b).mem_iff.mp member))

theorem find_sorted (b : PaperBroker) (symbol : String) :
    Dict.find (sortedPositions b) symbol = b.positions.get? symbol := by
  have same := Dict.get?_perm (d := ⟨sortedPositions b, sorted_distinct b⟩) (sorted_perm b) symbol
  exact same

/-- What a snapshot says of the broker it was read from. -/
structure Reads (b : PaperBroker) (a : AccountSnapshot) : Prop where
  listed : ((sortedPositions b).filterMap fun e => accountPosition b e.1 e.2).mapM id = .ok a.positions
  cash : a.cash = money b.cash
  equity : a.equity = money (b.cash + (a.positions.map Position.marketValue).sum)
  dayStart : a.dayStartEquity = money b.dayStartEquity
  highWatermark : a.highWatermark =
    money (max b.highWatermark (b.cash + (a.positions.map Position.marketValue).sum))

theorem account_ok {b after : PaperBroker} {a : AccountSnapshot} {asOf : Instant}
    (read : account b asOf = (after, .ok a)) :
    after = { b with
      highWatermark := max b.highWatermark (b.cash + (a.positions.map Position.marketValue).sum) } ∧
    Reads b a := by
  unfold account at read
  split at read
  next => cases read
  next positions listed =>
    simp only [snapshot] at read
    split at read
    next => cases read; exact ⟨rfl, listed, rfl, rfl, rfl, rfl⟩
    next => cases read

/-- With every position marked the snapshot values all of them. -/
theorem Reads.value {b : PaperBroker} {a : AccountSnapshot} (reads : Reads b a) (marked : Marked b) :
    b.cash + (a.positions.map Position.marketValue).sum = calculateEquity b := by
  rw [listed_value (sorted_marked marked) reads.listed, calculateEquity]
  rw [((sorted_perm b).map _).sum_eq]

/-- A settled broker is not changed by being read. -/
theorem account_settled {b after : PaperBroker} {a : AccountSnapshot} {asOf : Instant}
    (marked : Marked b) (settled : Settled b) (read : account b asOf = (after, .ok a)) : after = b := by
  obtain ⟨rfl, reads⟩ := account_ok read
  have same : max b.highWatermark (calculateEquity b) = b.highWatermark := max_eq_left settled
  rw [reads.value marked, same]

/-- The snapshot does not depend on what the broker is asked as of, beyond its stamp. -/
theorem account_ok_of {b after : PaperBroker} {a : AccountSnapshot} {asOf : Instant} (later : Instant)
    (read : account b asOf = (after, .ok a)) :
    account b later = (after, .ok { a with asOf := later }) := by
  unfold account at read ⊢
  split at read
  next => cases read
  next positions listed =>
    simp only [snapshot] at read ⊢
    split at read
    next valid => cases read; rw [dif_pos valid]
    next => cases read

namespace Reads

variable {b : PaperBroker} {a : AccountSnapshot}

theorem quantityOf (reads : Reads b a) {symbol : String} (marked : (b.marks.get? symbol).isSome) :
    a.quantityOf symbol = held b symbol := by
  have known := listed_quantity marked (sorted_distinct b) reads.listed
  rw [find_sorted] at known
  exact known

theorem position (reads : Reads b a) {p : Position} (member : p ∈ a.positions) :
    p.quantity = held b p.symbol ∧ p.quantity ≠ 0 ∧ b.marks.get? p.symbol = some p.marketPrice := by
  obtain ⟨state, inside, known⟩ := mem_listed reads.listed member
  obtain ⟨_, quantity, moved, _, price⟩ := accountPosition_some known
  have found : b.positions.get? p.symbol = some state := by
    rw [← find_sorted]; exact Dict.find_of_mem (sorted_distinct b) inside
  refine ⟨?_, by rw [quantity]; exact moved, price⟩
  rw [held, Dict.getD, found]
  exact quantity

/-- A read validates the average price of every open position. -/
theorem averagePrice (reads : Reads b a) (marked : Marked b) {symbol : String} {state : PositionState}
    (present : b.positions.get? symbol = some state) (moved : state.quantity ≠ 0) :
    0 ≤ state.averagePrice := by
  have inside : (symbol, state) ∈ sortedPositions b :=
    (sorted_perm b).mem_iff.mpr (Dict.mem_entries.mpr present)
  have quantity := reads.quantityOf (marked symbol (List.mem_map_of_mem (Dict.mem_entries.mpr present)))
  rw [held, Dict.getD, present] at quantity
  cases found : a.positionFor symbol with
  | none =>
    rw [AccountSnapshot.quantityOf, found] at quantity
    exact absurd quantity.symm moved
  | some p =>
    have member := List.mem_of_find?_eq_some found
    have name : p.symbol = symbol := by simpa using List.find?_some found
    obtain ⟨other, listed, known⟩ := mem_listed reads.listed member
    obtain ⟨_, _, _, average, _⟩ := accountPosition_some known
    have same : other = state := by
      have one := Dict.find_of_mem (sorted_distinct b) listed
      have two := Dict.find_of_mem (sorted_distinct b) inside
      rw [name] at one
      exact Option.some.inj (one.symm.trans two)
    rw [← same, ← average]
    exact p.averagePriceNonneg

end Reads

section Mark

variable (b : PaperBroker) (bar : MarketBar)

@[simp] theorem mark_fills : (mark b bar).fills = b.fills := by
  simp only [mark]; split <;> rfl
@[simp] theorem mark_marks : (mark b bar).marks = b.marks.set bar.symbol bar.close := by
  simp only [mark]; split <;> rfl
@[simp] theorem mark_sessionDate : (mark b bar).sessionDate = some (date bar.timestamp) := by
  simp only [mark]
  split
  next => rfl
  next same => exact not_not.mp same

theorem calculateEquity_congr {b c : PaperBroker} (cash : c.cash = b.cash)
    (positions : c.positions = b.positions) (marks : c.marks = b.marks) :
    calculateEquity c = calculateEquity b := by
  simp only [calculateEquity, cash, positions, marks]

theorem mark_highWatermark :
    (mark b bar).highWatermark = max b.highWatermark (calculateEquity (mark b bar)) := by
  simp only [mark]
  split <;> exact congrArg (max b.highWatermark) (calculateEquity_congr (by rfl) (by rfl) (by rfl))

theorem mark_settled : Settled (mark b bar) := by
  rw [Settled, mark_highWatermark]
  exact le_max_right _ _

theorem mark_marked (only : ∀ symbol ∈ b.positions.keys, symbol ≠ bar.symbol →
    (b.marks.get? symbol).isSome) : Marked (mark b bar) := by
  intro symbol present
  rw [mark_positions] at present
  rw [mark_marks, Dict.get?_set]
  split
  next => rfl
  next other => exact only symbol present (Ne.symm other)

/-- Marking again with the bar just marked changes nothing. -/
theorem mark_again {b : PaperBroker} {bar : MarketBar}
    (session : b.sessionDate = some (date bar.timestamp))
    (price : b.marks.get? bar.symbol = some bar.close) (settled : Settled b) : mark b bar = b := by
  have marks : b.marks.set bar.symbol bar.close = b.marks := Dict.set_present price
  have high : max b.highWatermark (calculateEquity b) = b.highWatermark := max_eq_left settled
  obtain ⟨config, cash, positions, prices, fills, sessionDate, dayStart, highWatermark⟩ := b
  dsimp only at session price marks high
  subst session
  simp only [mark, ne_eq, not_true_eq_false, if_false, marks, high]

end Mark

/-- A fill's quantity with the sign it moves a position by. -/
def signed (fill : Fill) : ℚ := match fill.side with
  | .buy => fill.quantity
  | .sell => -fill.quantity

/-- A submission that fills: the order's id was unused, and nothing but the position of
its symbol, cash, marks and watermarks moves. -/
structure Filled (b : PaperBroker) (order : OrderRequest) (bar : MarketBar) (after : PaperBroker)
    (fill : Fill) : Prop where
  unused : b.fills.get? order.clientOrderId = none
  symbol : order.symbol = bar.symbol
  named : fill.clientOrderId = order.clientOrderId ∧ fill.symbol = order.symbol ∧
    fill.side = order.side ∧ fill.filledAt = bar.timestamp
  quantity : fill.quantity = min order.quantity (availableQuantity b.config bar)
  traded : ∃ (position : PositionState) (cash : ℚ),
    position.quantity = held b order.symbol + signed fill ∧
    after = mark { b with
      positions := b.positions.set order.symbol position
      cash := cash
      fills := b.fills.set order.clientOrderId fill } bar

theorem recordFill_ok {b after : PaperBroker} {order : OrderRequest} {bar : MarketBar}
    {quantity price commission : ℚ} {fill : Fill}
    (recorded : recordFill b order bar quantity price commission = (after, .ok fill)) :
    (fill.clientOrderId = order.clientOrderId ∧ fill.symbol = order.symbol ∧
      fill.side = order.side ∧ fill.filledAt = bar.timestamp) ∧
    fill.quantity = quantity ∧ after = mark { b with fills := b.fills.set order.clientOrderId fill } bar := by
  unfold recordFill at recorded
  split at recorded
  next => cases recorded; exact ⟨⟨rfl, rfl, rfl, rfl⟩, rfl, rfl⟩
  next => cases recorded

theorem sell_quantity (p : PositionState) (price quantity commission : ℚ) :
    (p.sell price quantity commission).quantity = p.quantity - quantity := by
  simp only [PositionState.sell]
  split <;> rfl

/-- Either the id was filled before and the old fill is returned, or there is one new fill. -/
theorem submit_ok {b after : PaperBroker} {order : OrderRequest} {bar : MarketBar} {fill : Fill}
    (submitted : submit b order bar = (after, .ok fill)) :
    (b.fills.get? order.clientOrderId = some fill ∧ after = b) ∨ Filled b order bar after fill := by
  unfold submit at submitted
  split at submitted
  next => cases submitted
  next =>
    split at submitted
    next existing known => cases submitted; exact .inl ⟨known, rfl⟩
    next unused =>
      refine .inr ?_
      split at submitted
      next => cases submitted
      next symbol =>
        have symbol : order.symbol = bar.symbol := not_not.mp symbol
        have current : (b.positions.setDefault order.symbol {}).getD order.symbol {} =
            b.positions.getD order.symbol {} := by
          simp [Dict.getD, Dict.get?_setDefault]
        simp only [execute, current] at submitted
        split at submitted
        next => cases submitted
        next =>
          split at submitted
          next => cases submitted
          next =>
            split at submitted
            next buy =>
              split at submitted
              next => cases submitted
              next =>
                obtain ⟨named, quantity, rfl⟩ := recordFill_ok submitted
                refine ⟨unused, symbol, named, quantity, _, _, ?_, by rw [Dict.setDefault_set]⟩
                rw [signed, named.2.2.1, buy, quantity]
                rfl
            next sell =>
              obtain ⟨named, quantity, rfl⟩ := recordFill_ok submitted
              refine ⟨unused, symbol, named, quantity, _, _, ?_, by rw [Dict.setDefault_set]⟩
              rw [signed, named.2.2.1, sell, quantity, sell_quantity, held, sub_eq_add_neg]

namespace Filled

variable {b after : PaperBroker} {order : OrderRequest} {bar : MarketBar} {fill : Fill}

theorem fills (filled : Filled b order bar after fill) :
    after.fills = b.fills.set order.clientOrderId fill := by
  obtain ⟨position, cash, _, rfl⟩ := filled.traded
  rw [mark_fills]

theorem config (filled : Filled b order bar after fill) : after.config = b.config := by
  obtain ⟨position, cash, _, rfl⟩ := filled.traded
  rw [mark_config]

theorem marks (filled : Filled b order bar after fill) :
    after.marks = b.marks.set bar.symbol bar.close := by
  obtain ⟨position, cash, _, rfl⟩ := filled.traded
  rw [mark_marks]

theorem sessionDate (filled : Filled b order bar after fill) :
    after.sessionDate = some (date bar.timestamp) := by
  obtain ⟨position, cash, _, rfl⟩ := filled.traded
  rw [mark_sessionDate]

theorem settled (filled : Filled b order bar after fill) : Settled after := by
  obtain ⟨position, cash, _, rfl⟩ := filled.traded
  exact mark_settled _ _

theorem positionKeys (filled : Filled b order bar after fill) :
    ∀ symbol ∈ after.positions.keys, symbol = order.symbol ∨ symbol ∈ b.positions.keys := by
  obtain ⟨position, cash, _, rfl⟩ := filled.traded
  intro symbol present
  rw [mark_positions, Dict.keys_set] at present
  split at present
  next => exact .inr present
  next =>
    rcases List.mem_append.mp present with old | new
    · exact .inr old
    · exact .inl (List.mem_singleton.mp new)

theorem held (filled : Filled b order bar after fill) (symbol : String) :
    Paper.held after symbol =
      Paper.held b symbol + if symbol = order.symbol then signed fill else 0 := by
  obtain ⟨position, cash, quantity, rfl⟩ := filled.traded
  rw [Paper.held, mark_positions, Dict.getD, Dict.get?_set]
  split
  next same => subst same; rw [if_pos rfl]; exact quantity
  next other => rw [if_neg (Ne.symm other), add_zero]; rfl

theorem marked (filled : Filled b order bar after fill) (known : Marked b) : Marked after := by
  intro symbol present
  rw [filled.marks, Dict.get?_set]
  split
  next => rfl
  next other =>
    rcases filled.positionKeys symbol present with same | old
    · exact absurd (same.trans filled.symbol).symm other
    · exact known symbol old

end Filled

theorem exportPosition_ok {symbol : String} {state : PositionState} (average : 0 ≤ state.averagePrice)
    (entry : 0 ≤ state.entryCommission) : ∃ saved, exportPosition symbol state = .ok saved := by
  rw [exportPosition, dif_pos ⟨average, entry⟩]
  exact ⟨_, rfl⟩

theorem exportPositions_ok {l : List (String × PositionState)}
    (valid : ∀ e ∈ l, 0 ≤ e.2.averagePrice ∧ 0 ≤ e.2.entryCommission) :
    ∃ states, l.mapM (fun e => exportPosition e.1 e.2) = .ok states := by
  induction l with
  | nil => exact ⟨[], rfl⟩
  | cons e rest ih =>
    obtain ⟨head, first⟩ := @exportPosition_ok e.1 _ (valid e List.mem_cons_self).1
      (valid e List.mem_cons_self).2
    obtain ⟨tail, others⟩ := ih fun x member => valid x (List.mem_cons_of_mem e member)
    refine ⟨head :: tail, ?_⟩
    rw [List.mapM_cons, first, others]
    rfl

/-- A broker whose account can be read can be saved. -/
theorem exportState_ok {b : PaperBroker} {a : AccountSnapshot} (balanced : Balanced b)
    (marked : Marked b) (settled : Settled b) (reads : Reads b a) :
    ∃ state, exportState b = .ok state := by
  have unit : 0 < moneyQuantum := by norm_num [moneyQuantum]
  have day : 0 < b.dayStartEquity :=
    pos_of_quantize_pos unit (reads.dayStart ▸ a.dayStartPositive)
  have high : 0 < b.highWatermark := by
    have known := pos_of_quantize_pos unit (reads.highWatermark ▸ a.highWatermarkPositive)
    rwa [reads.value marked, max_eq_left settled] at known
  have valid : ∀ e ∈ sortedPositions b, 0 ≤ e.2.averagePrice ∧ 0 ≤ e.2.entryCommission := by
    intro e member
    have present := Dict.mem_entries.mp ((sorted_perm b).mem_iff.mp member)
    have sound := balanced.sound _ _ present
    refine ⟨?_, sound.entryCommission⟩
    by_cases flat : e.2.quantity = 0
    · exact (sound.flat flat).1.ge
    · exact reads.averagePrice marked present flat
  obtain ⟨positions, saved⟩ := exportPositions_ok valid
  refine ⟨⟨b.cash, positions, b.marks, b.fills.values, b.sessionDate, b.dayStartEquity,
    b.highWatermark, day, high⟩, ?_⟩
  rw [exportState, saved]
  exact dif_pos ⟨day, high⟩

/-- Saving and reloading is exact when the positions are in sorted order and every fill
is kept under its own id. -/
theorem fromState_exportState {b : PaperBroker} {state : PaperBrokerState}
    (sorted : sortedPositions b = b.positions.entries)
    (named : ∀ id fill, b.fills.get? id = some fill → fill.clientOrderId = id)
    (saved : exportState b = .ok state) : fromState b.config state = b := by
  unfold exportState at saved
  cases listed : (sortedPositions b).mapM (fun e => exportPosition e.1 e.2) with
  | error => rw [listed] at saved; cases saved
  | ok positions =>
    rw [listed] at saved
    change (if valid : _ then _ else _) = _ at saved
    split at saved
    next =>
      cases saved
      have restored : Dict.ofList (positions.map fun p => (p.symbol, restorePosition p)) = b.positions := by
        apply Dict.ext_entries
        rw [restore_export listed, sorted, Dict.ofList_entries b.positions.distinct]
      have keyed : b.fills.values.map (fun fill => (fill.clientOrderId, fill)) = b.fills.entries := by
        rw [Dict.values, List.map_map]
        refine (List.map_congr_left fun e member => ?_).trans (List.map_id _)
        exact Prod.ext (named e.1 e.2 (Dict.mem_entries.mp member)) rfl
      have refilled : Dict.ofList (b.fills.values.map fun fill => (fill.clientOrderId, fill)) = b.fills := by
        apply Dict.ext_entries
        rw [keyed, Dict.ofList_entries b.fills.distinct]
      simp only [fromState, restored, refilled]
    next => cases saved

end TradeAgent.Paper
