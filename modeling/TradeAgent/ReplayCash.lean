import TradeAgent.ReplayMoves

/-! The cash of a replay is what it realized, less what its open positions still cost. -/
namespace TradeAgent.Simulation

open Market (MarketEvent ScalpQuote)
open Procedure (Keeps Triple)

/-- What an open position still ties up. -/
def Position.tied (position : Position) : ℚ := position.cost + position.entryFeeRemaining

structure Balanced (r : Replay) : Prop where
  cash : r.cash = r.grossRealized - r.realizedFees - r.positions.total Position.tied
  gross : (r.closedPositions.map ClosedPosition.grossPnlUsd).sum +
    r.positions.total Position.grossRealized = r.grossRealized
  fees : (r.closedPositions.map ClosedPosition.feesUsd).sum +
    r.positions.total Position.realizedFees = r.realizedFees

theorem Balanced.start (setup : Setup) (tape : List MarketEvent) :
    Balanced (Run.ofTape setup tape).replay where
  cash := by simp [Run.ofTape]
  gross := by simp [Run.ofTape]
  fees := by simp [Run.ofTape]

/-- The accounts are the same. -/
structure SameAccounts (r s : Replay) : Prop where
  cash : s.cash = r.cash
  gross : s.grossRealized = r.grossRealized
  fees : s.realizedFees = r.realizedFees
  positions : s.positions = r.positions
  closed : s.closedPositions = r.closedPositions

theorem Balanced.same {r s : Replay} (h : Balanced r) (same : SameAccounts r s) : Balanced s where
  cash := by rw [same.cash, same.gross, same.fees, same.positions]; exact h.cash
  gross := by rw [same.gross, same.positions, same.closed]; exact h.gross
  fees := by rw [same.fees, same.positions, same.closed]; exact h.fees

section booking

variable {setup : Setup} {r : Replay} {fill : Fill}

/-- The position a buy adds to: the open one, or a new one that nothing is tied up in. -/
theorem total_bought (positions : Dict String Position) (f : Position → ℚ)
    (nothing : f { symbol := fill.symbol, openedAtNs := fill.filledAtNs } = 0) (after : Position) :
    (positions.set fill.symbol after).total f = positions.total f + f after -
      f ((positions.get? fill.symbol).getD { symbol := fill.symbol, openedAtNs := fill.filledAtNs }) := by
  have change := positions.total_set fill.symbol after f
  cases present : positions.get? fill.symbol with
  | none =>
    rw [present] at change
    simp only [Option.map_none, Option.getD_none, add_zero] at change
    rw [Option.getD_none, nothing, change, sub_zero]
  | some position =>
    rw [present] at change
    simp only [Option.map_some, Option.getD_some] at change ⊢
    linarith

/-- A buy's cash goes into its position, whichever coin its fee is paid in. -/
theorem bookBuy_balanced (h : Balanced r)
    (fee : fill.baseFeeQuantity ≠ 0 → fill.price * fill.baseFeeQuantity = fill.fee) :
    Balanced (bookBuy fill r) where
  cash := by
    change r.cash - _ = r.grossRealized - r.realizedFees - (r.positions.set _ _).total Position.tied
    rw [total_bought r.positions Position.tied (by simp [Position.tied]), h.cash]
    simp only [Position.tied, bought]
    split
    next base => linarith [fee base]
    next cash => rw [not_not.mp cash]; linarith
  gross := by
    change (r.closedPositions.map _).sum + (r.positions.set _ _).total Position.grossRealized =
      r.grossRealized
    rw [total_bought r.positions Position.grossRealized (by rfl)]
    simp only [bought]
    linarith [h.gross]
  fees := by
    change (r.closedPositions.map _).sum + (r.positions.set _ _).total Position.realizedFees =
      r.realizedFees
    rw [total_bought r.positions Position.realizedFees (by rfl)]
    simp only [bought]
    linarith [h.fees]

/-- What a sale takes out of its position is realized, and the rest stays. -/
theorem bookSale_balanced (h : Balanced r) {position : Position}
    (owned : r.positions.get? fill.symbol = some position) {fraction : ℚ}
    (share : divide fill.quantity position.quantity = .ok fraction) :
    Balanced (bookSale fill position fraction r) := by
  have kept : Balanced { r with
      positions := r.positions.set fill.symbol (sold position fill fraction)
      grossRealized := r.grossRealized + saleGross position fill fraction
      realizedFees := r.realizedFees + saleFees position fill fraction
      cash := r.cash + (fill.price * fill.quantity - fill.fee) } := by
    constructor
    · dsimp only
      rw [Dict.total_set_of_get owned, h.cash]
      simp only [Position.tied, sold, saleGross, saleFees]
      linarith
    · dsimp only
      rw [Dict.total_set_of_get owned]
      simp only [sold]
      linarith [h.gross]
    · dsimp only
      rw [Dict.total_set_of_get owned]
      simp only [sold]
      linarith [h.fees]
  unfold bookSale
  dsimp only
  split
  next empty =>
    -- The whole position is sold, so that nothing of its cost is left to lose.
    have whole : fraction = 1 := by
      unfold divide at share
      split at share
      next => cases share
      next open_ =>
        obtain rfl := Except.ok.inj share
        rw [← sub_eq_zero.mp empty, div_self open_]
    have here : (r.positions.set fill.symbol (sold position fill fraction)).get? fill.symbol =
        some (sold position fill fraction) := Dict.get?_set_same _ _ _
    constructor
    · refine kept.cash.trans ?_
      dsimp only
      rw [Dict.total_erase here]
      simp only [Position.tied, sold, whole]
      ring
    · refine Eq.trans ?_ kept.gross
      dsimp only
      rw [Dict.total_erase here, List.map_append, List.sum_append]
      simp only [List.map_cons, List.map_nil, List.sum_cons, List.sum_nil, closed]
      ring
    · refine Eq.trans ?_ kept.fees
      dsimp only
      rw [Dict.total_erase here, List.map_append, List.sum_append]
      simp only [List.map_cons, List.map_nil, List.sum_cons, List.sum_nil, closed]
      ring
  next => exact kept

theorem divide_mul {a b q : ℚ} (divided : divide a b = .ok q) : b * q = a := by
  unfold divide at divided
  split at divided
  next => cases divided
  next nonzero =>
    obtain rfl := Except.ok.inj divided
    exact mul_div_cancel₀ a nonzero

theorem baseFee_paid {side : Side} {fee price base : ℚ} (charged : baseFee setup side fee price = .ok base)
    (nonzero : base ≠ 0) : price * base = fee := by
  unfold baseFee at charged
  split at charged
  next => exact divide_mul charged
  next =>
    obtain rfl := Except.ok.inj charged
    exact absurd rfl nonzero

theorem bookFill_balanced (fee : fill.baseFeeQuantity ≠ 0 → fill.price * fill.baseFeeQuantity = fill.fee) :
    Keeps Balanced (bookFill fill) := by
  unfold bookFill
  cases fill.side with
  | buy => exact .modify fun r h => bookBuy_balanced h fee
  | sell =>
    refine Triple.bindView fun position => ?_
    cases position with
    | none => exact Triple.raise fun r h => h.1
    | some position =>
      refine Triple.ite (fun _ => Triple.raise fun r h => h.1) fun _ => ?_
      refine Triple.bind (Q := fun fraction r => (Balanced r ∧ r.positions.get? fill.symbol = some position) ∧
        divide fill.quantity position.quantity = .ok fraction)
        (Triple.lift (fun r h fraction share => ⟨h, share⟩) fun r h _ _ => h.1) fun fraction => ?_
      exact Triple.modify fun r h => bookSale_balanced h.1.1 h.1.2 h.2

/-- The accounts do not see how timers are kept. -/
theorem schedule_balanced (atNs : ℤ) (kind : Kind) : Keeps Balanced (schedule atNs kind) :=
  .bind (.view _) fun _ => .ite (fun _ => .raise _) fun _ =>
    .modify fun _ h => h.same ⟨rfl, rfl, rfl, rfl, rfl⟩

theorem fill_balanced (id : ℕ) (quantity price : ℚ) (liquidity : Liquidity)
    (trigger : Option MarketEvent) :
    Keeps Balanced (TradeAgent.Simulation.fill setup id quantity price liquidity trigger) := by
  refine .bind (orderAt_keeps id) fun order => .ite (fun _ => .raise _) fun _ => ?_
  refine .bind (.view _) fun nowNs => .bind (.view _) fun index => ?_
  refine Triple.bind (Q := fun base r => Balanced r ∧ baseFee setup order.side
    (quantity * price * feeBps setup liquidity / 10000) price = .ok base)
    (Triple.lift (fun r h base charged => ⟨h, charged⟩) fun r h _ _ => h) fun base => ?_
  refine Triple.given fun charged => ?_
  refine Keeps.bind (.modify fun r h => h.same ⟨rfl, rfl, rfl, rfl, rfl⟩) fun _ => ?_
  refine .bind (bookFill_balanced (baseFee_paid charged)) fun _ => ?_
  exact .bind (schedule_balanced _ _) fun _ => .forEach (fun horizon => schedule_balanced _ _) _

end booking

theorem takeLevel_balanced {setup : Setup} (id : ℕ) (quote : ScalpQuote) (level : ℚ × ℚ) :
    Keeps Balanced (takeLevel setup id quote level) := by
  refine .bind (orderAt_keeps id) fun order => .ite (fun _ => .pure _) fun _ => ?_
  refine .bind (.view _) fun consumed => .ite (fun _ => .pure _) fun _ => .ite (fun _ => ?_) fun _ => .pure _
  exact .bind (.modify fun r h => h.same ⟨rfl, rfl, rfl, rfl, rfl⟩) fun _ =>
    .bind (fill_balanced _ _ _ _ _) fun _ => .bind (orderAt_keeps id) fun _ => .pure _

theorem passiveOrder_balanced {setup : Setup} (event : MarketEvent) (price volume : ℚ) (id : ℕ) :
    Keeps Balanced (passiveOrder setup event price volume id) := by
  refine .bind (orderAt_keeps id) fun order => .ite (fun _ => .pure _) fun _ => ?_
  refine .bind (.modify fun r h => h.same ⟨rfl, rfl, rfl, rfl, rfl⟩) fun _ => .ite (fun _ => ?_) fun _ =>
    .pure _
  exact .bind (fill_balanced _ _ _ _ _) fun _ => .pure _

/-- Marks change nothing that is summed. -/
theorem Balanced.marked {r : Replay} (h : Balanced r) {symbol : String} {position : Position}
    (here : r.positions.get? symbol = some position) (maeBps mfeBps : Option ℚ) :
    Balanced { r with positions := r.positions.set symbol { position with maeBps, mfeBps } } := by
  have same (f : Position → ℚ) (blind : f { position with maeBps, mfeBps } = f position) :
      (r.positions.set symbol { position with maeBps, mfeBps }).total f = r.positions.total f := by
    rw [Dict.total_set_of_get here, blind, sub_add_cancel]
  exact ⟨by dsimp only; rw [same _ rfl]; exact h.cash, by dsimp only; rw [same _ rfl]; exact h.gross,
    by dsimp only; rw [same _ rfl]; exact h.fees⟩

theorem balanced_quiet (setup : Setup) : Quiet setup Balanced where
  clock _ _ _ _ _ h := h.same ⟨rfl, rfl, rfl, rfl, rfl⟩
  orders _ _ _ h := h.same ⟨rfl, rfl, rfl, rfl, rfl⟩
  placed _ _ _ h := h.same ⟨rfl, rfl, rfl, rfl, rfl⟩
  rebased _ _ _ _ h := h.same ⟨rfl, rfl, rfl, rfl, rfl⟩
  fills _ _ _ h := h.same ⟨rfl, rfl, rfl, rfl, rfl⟩
  inventory _ _ h := h.same ⟨rfl, rfl, rfl, rfl, rfl⟩
  marked _ _ _ _ _ here h := h.marked here _ _
  unreadable _ _ h := h.same ⟨rfl, rfl, rfl, rfl, rfl⟩

theorem balanced_stable (setup : Setup) : Stable setup Balanced :=
  { balanced_quiet setup with
    taken := fun id => (balanced_quiet setup).takeLiquidity id (takeLevel_balanced id) }

/-- After every timer and every record of every replay, cash is what was realized less fees and what
the open positions cost, and the positions, closed and open, add up to the totals. -/
theorem replay_balances (setup : Setup) (env : Environment) (tape : List MarketEvent) (steps : ℕ) :
    Balanced (Run.after setup env tape steps).replay := by
  have stable := balanced_stable setup
  refine Run.after_replay stable (fun event => ?_) (Balanced.start setup tape) steps
  exact stable.marketEvent (fun _ _ h => h.same ⟨rfl, rfl, rfl, rfl, rfl⟩)
    (fun _ _ h => h.same ⟨rfl, rfl, rfl, rfl, rfl⟩) passiveOrder_balanced event

end TradeAgent.Simulation
