import TradeAgent.PaperAccount

/-! What a rejected order leaves behind at the paper broker. The broker opens a position record before its
checks and moves cash and shares before it validates the fill. -/
namespace TradeAgent.Paper

/-- The shares an order would be filled with. -/
def fillQuantity (b : PaperBroker) (order : OrderRequest) (bar : MarketBar) : ℚ :=
  min order.quantity (availableQuantity b.config bar)

/-- The checks that an order passes before anything is moved. -/
structure Affordable (b : PaperBroker) (order : OrderRequest) (bar : MarketBar) : Prop where
  covered : order.side = .sell → order.quantity ≤ (b.positions.getD order.symbol {}).quantity
  liquid : 0 < fillQuantity b order bar
  funded : order.side = .buy →
    fillPrice b.config .buy bar * fillQuantity b order bar +
      commissionOn b.config (fillPrice b.config .buy bar * fillQuantity b order bar) ≤ b.cash

/-- An order that is turned away before the broker looks at the position. -/
def TurnedAway (b : PaperBroker) (order : OrderRequest) (bar : MarketBar) : Prop :=
  order.orderType ≠ .market ∨ b.fills.get? order.clientOrderId ≠ none ∨ order.symbol ≠ bar.symbol

/-- An order that is rejected cleanly, if it is rejected: the symbol has its record already, and the price of an
affordable order does not vanish when it is rounded. -/
structure Clean (b : PaperBroker) (order : OrderRequest) (bar : MarketBar) : Prop where
  recorded : ¬Affordable b order bar → b.positions.get? order.symbol ≠ none
  priced : Affordable b order bar → 0 < fillPrice b.config order.side bar

/-- The broker can be saved at all. -/
def Savable (b : PaperBroker) : Prop := 0 < b.dayStartEquity ∧ 0 < b.highWatermark

section exports

variable {b c : PaperBroker} {state : PaperBrokerState}

/-- Brokers that are saved alike hold the same positions. -/
theorem exportState_positions (config : c.config = b.config) (saved : exportState b = .ok state)
    (same : exportState c = .ok state) (symbol : String) : c.positions.get? symbol = b.positions.get? symbol := by
  have one := (fromState_positions saved).2
  have two := (fromState_positions same).2
  rw [config] at two
  rw [← Dict.get?_perm one, ← Dict.get?_perm two]

/-- A record that is there already is not opened again. -/
theorem exportState_setDefault {symbol : String} (present : b.positions.get? symbol ≠ none) (p : PositionState) :
    { b with positions := b.positions.setDefault symbol p } = b := by
  obtain ⟨old, found⟩ := Option.ne_none_iff_exists'.mp present
  rw [Dict.setDefault_of_get found]

end exports

section rejection

variable {b : PaperBroker} {order : OrderRequest} {bar : MarketBar}

def chargedCommission (b : PaperBroker) (order : OrderRequest) (bar : MarketBar) : ℚ :=
  commissionOn b.config (fillPrice b.config order.side bar * fillQuantity b order bar)

/-- The position that an affordable order leaves. -/
def movedPosition (b : PaperBroker) (order : OrderRequest) (bar : MarketBar) : PositionState :=
  let held := b.positions.getD order.symbol {}
  match order.side with
  | .buy => held.buy (fillPrice b.config .buy bar) (fillQuantity b order bar) (chargedCommission b order bar)
  | .sell => held.sell (fillPrice b.config .sell bar) (fillQuantity b order bar) (chargedCommission b order bar)

/-- The position that `execute` finds is the one before its record was opened. -/
theorem getD_setDefault (b : PaperBroker) (symbol : String) :
    (b.positions.setDefault symbol {}).getD symbol {} = b.positions.getD symbol {} := by
  simp [Dict.getD, Dict.get?_setDefault]

theorem execute_unaffordable (un : ¬Affordable b order bar) : ∃ error,
    execute { b with positions := b.positions.setDefault order.symbol {} } order bar =
      ({ b with positions := b.positions.setDefault order.symbol {} }, .error error) := by
  unfold execute
  dsimp only
  rw [getD_setDefault]
  split
  next => exact ⟨_, rfl⟩
  next covered =>
    split
    next => exact ⟨_, rfl⟩
    next liquid =>
      cases side : order.side with
      | sell =>
        refine absurd ⟨fun _ => ?_, not_le.mp liquid, fun buys => ?_⟩ un
        · exact not_lt.mp fun short => covered ⟨side, short⟩
        · rw [side] at buys
          cases buys
      | buy =>
        dsimp only
        split
        next => exact ⟨_, rfl⟩
        next funded =>
          refine absurd ⟨fun sells => ?_, not_le.mp liquid, fun _ => not_lt.mp funded⟩ un
          rw [side] at sells
          cases sells

theorem execute_affordable (affordable : Affordable b order bar) : ∃ cash,
    execute { b with positions := b.positions.setDefault order.symbol {} } order bar =
      recordFill { b with
        positions := (b.positions.setDefault order.symbol {}).set order.symbol (movedPosition b order bar)
        cash := cash } order bar (fillQuantity b order bar) (fillPrice b.config order.side bar)
        (chargedCommission b order bar) := by
  obtain ⟨covered, liquid, funded⟩ := affordable
  unfold execute movedPosition chargedCommission
  unfold fillQuantity at liquid funded ⊢
  dsimp only
  rw [getD_setDefault, if_neg (fun short => absurd (covered short.1) (not_le.mpr short.2)), if_neg (not_le.mpr liquid)]
  cases side : order.side with
  | buy =>
    dsimp only
    rw [if_neg (not_lt.mpr (funded side))]
    exact ⟨_, rfl⟩
  | sell => exact ⟨_, rfl⟩

/-- An affordable order moves shares. -/
theorem movedPosition_quantity (affordable : Affordable b order bar) :
    (movedPosition b order bar).quantity ≠ (b.positions.getD order.symbol {}).quantity := by
  have liquid := affordable.liquid
  unfold movedPosition
  cases order.side with
  | buy =>
    unfold PositionState.buy
    dsimp only
    intro same
    linarith
  | sell =>
    unfold PositionState.sell
    dsimp only
    intro same
    split at same
    all_goals
      dsimp only at same
      linarith

theorem recordFill_rejected {c : PaperBroker} {quantity price commission : ℚ} (vanished : ¬0 < price) :
    recordFill c order bar quantity price commission = (c, .error .invalidRecord) := by
  unfold recordFill
  rw [dif_neg fun valid => vanished valid.2.1]

theorem recordFill_accepted {c : PaperBroker} {quantity price commission : ℚ} (bought : 0 < quantity)
    (priced : 0 < price) (charged : 0 ≤ commission) :
    ∃ after fill, recordFill c order bar quantity price commission = (after, .ok fill) := by
  unfold recordFill
  rw [dif_pos ⟨bought, priced, charged⟩]
  exact ⟨_, _, rfl⟩

/-- What a rejected order leaves: the broker as it was, or one with a record opened, or one whose shares moved. -/
inductive Rejected (b : PaperBroker) (order : OrderRequest) (bar : MarketBar) : PaperBroker → Prop where
  | turnedAway (away : TurnedAway b order bar) : Rejected b order bar b
  | opened (un : ¬Affordable b order bar) :
      Rejected b order bar { b with positions := b.positions.setDefault order.symbol {} }
  | moved (affordable : Affordable b order bar) (vanished : ¬0 < fillPrice b.config order.side bar) (cash : ℚ) :
      Rejected b order bar { b with
        positions := (b.positions.setDefault order.symbol {}).set order.symbol (movedPosition b order bar)
        cash := cash }

/-- An order that is turned away leaves the broker as it was. -/
theorem submit_turnedAway (away : TurnedAway b order bar) : (submit b order bar).1 = b := by
  unfold submit
  split
  next => rfl
  next market =>
    split
    next => rfl
    next unused =>
      split
      next => rfl
      next symbol =>
        rcases away with other | used | mismatch
        · exact absurd other market
        · exact absurd unused used
        · exact absurd mismatch symbol

theorem submit_executes (kept : ¬TurnedAway b order bar) :
    submit b order bar = execute { b with positions := b.positions.setDefault order.symbol {} } order bar := by
  unfold TurnedAway at kept
  simp only [not_or, not_not] at kept
  obtain ⟨market, unused, symbol⟩ := kept
  unfold submit
  rw [if_neg (not_not.mpr market), unused]
  exact if_neg (not_not.mpr symbol)

theorem submit_rejected {after : PaperBroker} {error : BrokerError}
    (sent : submit b order bar = (after, .error error)) : Rejected b order bar after := by
  by_cases away : TurnedAway b order bar
  · have same := submit_turnedAway away
    rw [sent] at same
    obtain rfl : after = b := same
    exact .turnedAway away
  rw [submit_executes away] at sent
  by_cases affordable : Affordable b order bar
  · obtain ⟨cash, executed⟩ := execute_affordable affordable
    rw [executed] at sent
    by_cases priced : 0 < fillPrice b.config order.side bar
    · have charged : 0 ≤ chargedCommission b order bar :=
        commissionOn_nonneg b.config (mul_nonneg priced.le affordable.liquid.le)
      obtain ⟨done, fill, filled⟩ := recordFill_accepted affordable.liquid priced charged
      rw [filled] at sent
      cases (Prod.mk.inj sent).2
    · rw [recordFill_rejected priced] at sent
      obtain ⟨rfl, -⟩ := Prod.mk.inj sent
      exact .moved affordable priced cash
  · obtain ⟨raised, executed⟩ := execute_unaffordable affordable
    rw [executed] at sent
    obtain ⟨rfl, -⟩ := Prod.mk.inj sent
    exact .opened affordable

/-- The positions after an order: as they were, with a record opened, or with shares moved. -/
theorem submit_positions (b : PaperBroker) (order : OrderRequest) (bar : MarketBar) :
    (submit b order bar).1.positions = b.positions ∨
    (submit b order bar).1.positions = b.positions.setDefault order.symbol {} ∨
    Affordable b order bar ∧ (submit b order bar).1.positions =
      (b.positions.setDefault order.symbol {}).set order.symbol (movedPosition b order bar) := by
  by_cases away : TurnedAway b order bar
  · rw [submit_turnedAway away]
    exact .inl rfl
  · rw [submit_executes away]
    by_cases affordable : Affordable b order bar
    · obtain ⟨cash, executed⟩ := execute_affordable affordable
      rw [executed]
      refine .inr (.inr ⟨affordable, ?_⟩)
      unfold recordFill
      split
      next => exact mark_positions _ _
      next => rfl
    · obtain ⟨error, executed⟩ := execute_unaffordable affordable
      rw [executed]
      exact .inr (.inl rfl)

end rejection

section reachable

/-- No position was bought at a negative price. -/
def Priced (b : PaperBroker) : Prop := ∀ symbol p, b.positions.get? symbol = some p → 0 ≤ p.averagePrice

theorem Priced.opened {b : PaperBroker} (priced : Priced b) (symbol : String) {other : String} {p : PositionState}
    (found : (b.positions.setDefault symbol {}).get? other = some p) : 0 ≤ p.averagePrice := by
  rw [Dict.get?_setDefault] at found
  split at found
  next =>
    cases held : b.positions.get? symbol with
    | none =>
      rw [held] at found
      obtain rfl := Option.some.inj found
      exact le_rfl
    | some q =>
      rw [held] at found
      obtain rfl := Option.some.inj found
      exact priced _ _ held
  next => exact priced _ _ found

theorem movedPosition_average {b : PaperBroker} (balanced : Balanced b) (priced : Priced b) {order : OrderRequest}
    {bar : MarketBar} (affordable : Affordable b order bar) : 0 ≤ (movedPosition b order bar).averagePrice := by
  have held : 0 ≤ (b.positions.getD order.symbol {}).quantity ∧
      0 ≤ (b.positions.getD order.symbol {}).averagePrice := by
    cases found : b.positions.get? order.symbol with
    | none => simp [Dict.getD, found]
    | some p =>
      simp only [Dict.getD, found, Option.getD_some]
      exact ⟨(balanced.sound _ _ found).quantity, priced _ _ found⟩
  obtain ⟨quantity, average⟩ := held
  have liquid := affordable.liquid
  unfold movedPosition
  cases order.side with
  | buy =>
    have price := fillPrice_nonneg b.config .buy bar
    unfold PositionState.buy
    dsimp only
    positivity
  | sell =>
    unfold PositionState.sell
    dsimp only
    split
    next => exact le_rfl
    next => exact average

theorem step_priced {b : PaperBroker} (balanced : Balanced b) (priced : Priced b) (op : Op) : Priced (step b op) := by
  cases op with
  | mark bar =>
    intro symbol p found
    exact priced symbol p (mark_positions b bar ▸ found)
  | submit order bar =>
    intro symbol p found
    change (submit b order bar).1.positions.get? symbol = some p at found
    rcases submit_positions b order bar with same | opened | ⟨affordable, moved⟩
    · exact priced symbol p (same ▸ found)
    · exact priced.opened order.symbol (opened ▸ found)
    · rw [moved, Dict.get?_set] at found
      split at found
      next =>
        obtain rfl := Option.some.inj found
        exact movedPosition_average balanced priced affordable
      next => exact priced.opened order.symbol found
  | account asOf =>
    intro symbol p found
    change (account b asOf).1.positions.get? symbol = some p at found
    unfold account at found
    split at found
    next => exact priced symbol p found
    next => exact priced symbol p found
  | roundTrip =>
    intro symbol p found
    simp only [step] at found
    split at found
    next state saved =>
      rw [Dict.get?_perm (fromState_positions saved).2] at found
      exact priced symbol p found
    next => exact priced symbol p found

theorem run_priced (config : BrokerConfig) (ops : List Op) : Priced (run config ops) := by
  suffices keeps : ∀ b, Balanced b → Priced b → Priced (ops.foldl step b) from
    keeps _ (init_balanced config) fun _ _ found => nomatch found
  induction ops with
  | nil => exact fun _ _ priced => priced
  | cons op rest ih =>
    exact fun b balanced priced => ih _ (step_balanced balanced op) (step_priced balanced priced op)

/-- A reachable broker is saved if its equities are positive, and refused otherwise. -/
theorem exportState_savable {b : PaperBroker} (balanced : Balanced b) (priced : Priced b) :
    (Savable b ∧ ∃ state, exportState b = .ok state) ∨ (¬Savable b ∧ exportState b = .error .invalidRecord) := by
  have valid : ∀ e ∈ sortedPositions b, 0 ≤ e.2.averagePrice ∧ 0 ≤ e.2.entryCommission := by
    intro e member
    have present := Dict.mem_entries.mp ((List.mergeSort_perm _ _).mem_iff.mp member)
    exact ⟨priced _ _ present, (balanced.sound _ _ present).entryCommission⟩
  obtain ⟨positions, saved⟩ := exportPositions_ok valid
  unfold exportState
  rw [saved]
  by_cases savable : Savable b
  · exact .inl ⟨savable, _, dif_pos savable⟩
  · exact .inr ⟨savable, dif_neg savable⟩

theorem Rejected.savable {b after : PaperBroker} {order : OrderRequest} {bar : MarketBar}
    (rejected : Rejected b order bar after) : Savable after ↔ Savable b := by
  cases rejected <;> rfl

/-- A rejected order leaves the saved state as it was exactly if the order was turned away at once, the broker
cannot be saved at all, or the rejection is a clean one. -/
theorem rejected_unchanged_iff (config : BrokerConfig) (ops : List Op) (order : OrderRequest) (bar : MarketBar) :
    (∀ after error, submit (run config ops) order bar = (after, .error error) →
      exportState after = exportState (run config ops)) ↔
    TurnedAway (run config ops) order bar ∨ ¬Savable (run config ops) ∨ Clean (run config ops) order bar := by
  have balanced := run_balanced config ops
  have priced := run_priced config ops
  have reached : (submit (run config ops) order bar).1 = step (run config ops) (.submit order bar) := rfl
  generalize run config ops = b at *
  have balanced' := step_balanced balanced (.submit order bar)
  have priced' := step_priced balanced priced (.submit order bar)
  rw [← reached] at balanced' priced'
  constructor
  · intro unchanged
    by_contra unclean
    rw [not_or, not_or, not_not] at unclean
    obtain ⟨kept, savable, unclean⟩ := unclean
    obtain ⟨state, saved⟩ := ((exportState_savable balanced priced).resolve_right fun refused => refused.1 savable).2
    -- The position of the symbol would have to be the one before, and it is not.
    have samePosition {after : PaperBroker} {error : BrokerError}
        (sent : submit b order bar = (after, .error error)) (config : after.config = b.config) :
        after.positions.get? order.symbol = b.positions.get? order.symbol :=
      exportState_positions config saved ((unchanged after error sent).trans saved) order.symbol
    refine unclean ⟨fun un absent => ?_, fun affordable => ?_⟩
    · obtain ⟨error, executed⟩ := execute_unaffordable un
      have same := samePosition ((submit_executes kept).trans executed) rfl
      rw [Dict.get?_setDefault, if_pos rfl, absent] at same
      cases same
    · by_contra vanished
      obtain ⟨cash, executed⟩ := execute_affordable affordable
      rw [recordFill_rejected vanished] at executed
      have same := samePosition ((submit_executes kept).trans executed) rfl
      rw [Dict.get?_set, if_pos rfl] at same
      refine movedPosition_quantity affordable ?_
      simp only [Dict.getD, ← same, Option.getD_some]
  · intro clean after error sent
    have rejected := submit_rejected sent
    rw [sent] at balanced' priced'
    rcases clean with away | refused | clean
    · have same := submit_turnedAway away
      rw [sent] at same
      rw [show after = b from same]
    · have before := (exportState_savable balanced priced).resolve_left fun saved => refused saved.1
      have later := (exportState_savable balanced' priced').resolve_left fun saved =>
        refused (rejected.savable.mp saved.1)
      rw [before.2, later.2]
    · cases rejected with
      | turnedAway => rfl
      | opened un => rw [exportState_setDefault (clean.recorded un)]
      | moved affordable vanished => exact absurd (clean.priced affordable) vanished

end reachable

def freshConfig : BrokerConfig :=
  ⟨100000, 2, 1, 1, 1 / 100, sampleCash_pos, sampleSlippage_range, samplePoint_range, samplePoint_range,
    samplePercent_range⟩

def flatBar : MarketBar :=
  ⟨"SPY", 0, 100, 100, 100, 100, 1000000, hundred_pos, hundred_pos, hundred_pos, million_nonneg,
    hundred_highest, hundred_lowest⟩

theorem flatQuantity_pos : (0 : ℚ) < 1 := one_pos

/-- One share of a symbol that a fresh broker does not hold. -/
def flatSell : OrderRequest :=
  { clientOrderId := "flat", symbol := "SPY", side := .sell, quantity := 1, submittedAt := 0,
    quantityPositive := flatQuantity_pos }

/-- The sale is rejected, and the saved state has a position more than before. -/
theorem rejected_sale_recorded : ∃ after error,
    submit (run freshConfig []) flatSell flatBar = (after, .error error) ∧
    exportState after ≠ exportState (run freshConfig []) := by
  have kept : ¬TurnedAway (init freshConfig) flatSell flatBar := by
    rintro (other | used | mismatch)
    · exact other rfl
    · exact used rfl
    · exact mismatch rfl
  have un : ¬Affordable (init freshConfig) flatSell flatBar := by
    intro affordable
    have covered : (1 : ℚ) ≤ 0 := affordable.covered rfl
    norm_num at covered
  obtain ⟨error, executed⟩ := execute_unaffordable un
  refine ⟨_, error, (submit_executes kept).trans executed, fun same => ?_⟩
  have savable : Savable (init freshConfig) := ⟨freshConfig.startingCashPositive, freshConfig.startingCashPositive⟩
  have priced : Priced (init freshConfig) := fun _ _ found => nomatch found
  obtain ⟨state, saved⟩ :=
    ((exportState_savable (init_balanced freshConfig) priced).resolve_right fun refused => refused.1 savable).2
  have position := exportState_positions (by rfl) saved (same.trans saved) flatSell.symbol
  rw [Dict.get?_setDefault, if_pos rfl] at position
  cases position

end TradeAgent.Paper
