import TradeAgent.ReplayTrades

/-! What is taken from a level: never more, over all orders, than the participation rate of what the
level shows, for as long as it shows the same. -/
namespace TradeAgent.Simulation

open Market (MarketEvent ScalpQuote Engine)
open Procedure (Keeps Triple Leaves)

/-- A fill that took from the level. -/
def takenFrom (setup : Setup) (key : DepthKey) (fill : Fill) : Bool :=
  fill.liquidity = .taker && fill.symbol = key.symbol && against fill.side = key.side &&
    fill.price = slipped setup fill.side key.price

theorem takenFrom_blind (setup : Setup) (key : DepthKey) : Blind (takenFrom setup key) :=
  fun before after kept => by
    rw [takenFrom, takenFrom, kept.liquidity, kept.symbol, kept.side, kept.price]

theorem slip_positive (setup : Setup) (side : Side) :
    0 < 1 + direction side * setup.assumptions.slippageBps / 10000 := by
  have nonneg := setup.assumptions.slippageNonneg
  have below := setup.assumptions.slippageBelow
  cases side with
  | buy =>
    simp only [direction, one_mul]
    positivity
  | sell =>
    have fraction : setup.assumptions.slippageBps / 10000 < 1 := (div_lt_one (by norm_num)).mpr below
    simp only [direction, neg_mul, one_mul, neg_div]
    linarith

/-- Different levels fill at different prices. -/
theorem slipped_injective (setup : Setup) (side : Side) {price other : ℚ}
    (same : slipped setup side price = slipped setup side other) : price = other :=
  mul_right_cancel₀ (slip_positive setup side).ne' same

variable (setup : Setup) (key : DepthKey) (tracked : Prop) (base cap : ℚ)

/-- The level's consumption is within what it shows. Where it is tracked, what was taken since a base
is consumed and within the cap that the level shows. -/
structure Drawn (r : Replay) : Prop where
  deep : r.market.Deep setup.settings
  nonneg : 0 ≤ r.consumedDepth.getD key 0
  within : r.market.bookValid key.symbol = true → r.consumedDepth.getD key 0 ≤
    setup.assumptions.participationRate * r.market.displayed key.symbol key.side key.price
  shown : tracked → r.market.bookValid key.symbol = true →
    setup.assumptions.participationRate * r.market.displayed key.symbol key.side key.price = cap
  drawn : tracked → r.filled (takenFrom setup key) - base ≤ r.consumedDepth.getD key 0
  bound : tracked → r.filled (takenFrom setup key) - base ≤ cap

variable {setup key tracked base cap} {env : Environment} {r : Replay} {id : ℕ} {event : MarketEvent}

theorem Drawn.unaccounted : Unaccounted (Drawn setup key tracked base cap) where
  clock _ _ _ _ _ h := ⟨h.deep, h.nonneg, h.within, h.shown, h.drawn, h.bound⟩
  booked _ _ _ _ _ _ h := ⟨h.deep, h.nonneg, h.within, h.shown, h.drawn, h.bound⟩
  fills r fills kept h := by
    have same := filled_kept (r := r) (takenFrom_blind setup key) kept
    exact ⟨h.deep, h.nonneg, h.within, h.shown, fun t => same ▸ h.drawn t, fun t => same ▸ h.bound t⟩

theorem unreadable_displayed (market : Engine) (symbol other : String) :
    (unreadable market symbol).bookValid other = false ∨
      ((unreadable market symbol).bookValid other = market.bookValid other ∧
        ∀ side price, (unreadable market symbol).displayed other side price =
          market.displayed other side price) := by
  unfold Market.Engine.bookValid Market.Engine.displayed unreadable
  dsimp only
  rw [Dict.get?_modify]
  split
  next same =>
    subst same
    cases found : market.states.get? symbol with
    | none => exact .inl rfl
    | some state =>
      refine .inl ?_
      simpa [found] using (Market.invalidate_cleared state _ _).book.invalid
  next => exact .inr ⟨rfl, fun _ _ => rfl⟩

theorem Drawn.quiet : Quiet setup (Drawn setup key tracked base cap) where
  clock := Drawn.unaccounted.clock
  fills := Drawn.unaccounted.fills
  orders _ _ _ h := ⟨h.deep, h.nonneg, h.within, h.shown, h.drawn, h.bound⟩
  placed _ _ _ h := ⟨h.deep, h.nonneg, h.within, h.shown, h.drawn, h.bound⟩
  rebased _ _ _ _ h := ⟨h.deep, h.nonneg, h.within, h.shown, h.drawn, h.bound⟩
  inventory _ _ h := ⟨h.deep, h.nonneg, h.within, h.shown, h.drawn, h.bound⟩
  marked _ _ _ _ _ _ h := ⟨h.deep, h.nonneg, h.within, h.shown, h.drawn, h.bound⟩
  unreadable r symbol h := by
    refine ⟨unreadable_deep h.deep symbol, h.nonneg, fun valid => ?_, fun t valid => ?_, h.drawn, h.bound⟩
    · rcases unreadable_displayed r.market symbol key.symbol with invalid | ⟨same, displayed⟩
      · exact absurd (valid.symm.trans invalid) (by decide)
      · dsimp only
        rw [displayed]
        exact h.within (same ▸ valid)
    · rcases unreadable_displayed r.market symbol key.symbol with invalid | ⟨same, displayed⟩
      · exact absurd (valid.symm.trans invalid) (by decide)
      · dsimp only
        rw [displayed]
        exact h.shown t (same ▸ valid)

section taking

/-- The levels are the ones the order's side of the book shows. -/
def Offered (id : ℕ) (levels : List (ℚ × ℚ)) (r : Replay) : Prop :=
  ∀ order : Order, r.orders[id]? = some order → ∀ level ∈ levels,
    level ∈ r.market.levels order.symbol (against order.side) 2000

theorem displayedSize_le (quote : ScalpQuote) (side : Market.Engine.BookSide) (level : ℚ × ℚ) :
    displayedSize quote side level ≤ level.2 := by
  unfold displayedSize
  cases side <;> dsimp only <;> split
  all_goals first | exact min_le_left _ _ | exact le_rfl

/-- Taking from a level leaves its consumption within what it shows. -/
theorem Drawn.consumed (h : Drawn setup key tracked base cap r) {order : Order} {quote : ScalpQuote}
    {level : ℚ × ℚ} {quantity : ℚ}
    (offered : level ∈ r.market.levels order.symbol (against order.side) 2000)
    (positive : 0 < quantity) (part : quantity ≤ max 0 (displayedSize quote (against order.side) level *
      setup.assumptions.participationRate -
        r.consumedDepth.getD ⟨order.symbol, against order.side, level.1⟩ 0)) :
    Drawn setup key tracked base cap { r with
      consumedDepth := r.consumedDepth.set ⟨order.symbol, against order.side, level.1⟩
        (r.consumedDepth.getD ⟨order.symbol, against order.side, level.1⟩ 0 + quantity) } ∧
      (key = ⟨order.symbol, against order.side, level.1⟩ →
        r.consumedDepth.getD key 0 + quantity ≤ setup.assumptions.participationRate *
          r.market.displayed key.symbol key.side key.price) := by
  by_cases own : key = ⟨order.symbol, against order.side, level.1⟩
  · subst own
    obtain ⟨displayed, -, -⟩ := h.deep.displayed_level le_rfl offered
    have room : quantity ≤ displayedSize quote (against order.side) level *
        setup.assumptions.participationRate -
          r.consumedDepth.getD ⟨order.symbol, against order.side, level.1⟩ 0 :=
      (le_max_iff.mp part).resolve_left (not_le.mpr positive)
    have whole : r.consumedDepth.getD ⟨order.symbol, against order.side, level.1⟩ 0 + quantity ≤
        setup.assumptions.participationRate *
          r.market.displayed order.symbol (against order.side) level.1 := by
      have size := mul_le_mul_of_nonneg_right (displayedSize_le quote (against order.side) level)
        setup.assumptions.ratePositive.le
      rw [displayed]
      linarith
    refine ⟨⟨h.deep, ?_, fun _ => ?_, h.shown, fun t => ?_, h.bound⟩, fun _ => whole⟩
    · rw [Dict.getD_set, if_pos rfl]
      linarith [h.nonneg]
    · rw [Dict.getD_set, if_pos rfl]
      exact whole
    · rw [Dict.getD_set, if_pos rfl]
      exact (h.drawn t).trans (le_add_of_nonneg_right positive.le)
  · have same : (r.consumedDepth.set ⟨order.symbol, against order.side, level.1⟩
        (r.consumedDepth.getD ⟨order.symbol, against order.side, level.1⟩ 0 + quantity)).getD key 0 =
        r.consumedDepth.getD key 0 := by
      rw [Dict.getD_set, if_neg (Ne.symm own)]
    exact ⟨⟨h.deep, same ▸ h.nonneg, fun valid => same ▸ h.within valid, h.shown,
      fun t => same ▸ h.drawn t, h.bound⟩, fun same => absurd same own⟩

theorem takeLevel_drawn (id : ℕ) (quote : ScalpQuote) (level : ℚ × ℚ) (rest : List (ℚ × ℚ)) :
    Triple (fun r => Drawn setup key tracked base cap r ∧ Offered id (level :: rest) r)
      (takeLevel setup id quote level)
      (fun _ r => Drawn setup key tracked base cap r ∧ Offered id rest r)
      fun _ => Drawn setup key tracked base cap := by
  have fewer {r : Replay} (h : Offered id (level :: rest) r) : Offered id rest r :=
    fun order here l member => h order here l (List.mem_cons_of_mem _ member)
  refine Triple.bind ((orderAt_reads id).conseq (fun _ h => h) (fun _ _ h => h) fun _ r h => h.1)
    fun order => ?_
  have done {value : Bool} : Triple (fun r => (Drawn setup key tracked base cap r ∧
      Offered id (level :: rest) r) ∧ r.orders[id]? = some order) (pure value : Action Bool)
      (fun _ r => Drawn setup key tracked base cap r ∧ Offered id rest r)
      fun _ => Drawn setup key tracked base cap :=
    Triple.pure value fun r h => ⟨h.1.1, fewer h.1.2⟩
  refine Triple.ite (fun _ => done) fun _ => Triple.bindView fun consumed => ?_
  refine Triple.ite (fun _ => done.pre fun r h => h.1) fun _ => Triple.ite (fun filled => ?_) fun _ =>
    done.pre fun r h => h.1
  let level' : DepthKey := ⟨order.symbol, against order.side, level.1⟩
  let quantity := min order.remaining (max 0
    (displayedSize quote (against order.side) level * setup.assumptions.participationRate - consumed))
  refine Triple.bind (Q := fun _ r => ∃ before, (Drawn setup key tracked base cap before ∧
      Offered id (level :: rest) before) ∧ before.orders[id]? = some order ∧
      before.consumedDepth.getD level' 0 = consumed ∧
      r = { before with consumedDepth := before.consumedDepth.set level' (consumed + quantity) })
    (Triple.modify fun r h => ⟨r, h.1.1, h.1.2, h.2, rfl⟩) fun _ => ?_
  have unaccounted : Unaccounted fun r => Drawn setup key tracked base cap r ∧ Offered id rest r :=
    { clock := fun r t s n b h => ⟨Drawn.unaccounted.clock r t s n b h.1, h.2⟩
      fills := fun r fills kept h => ⟨Drawn.unaccounted.fills r fills kept h.1, h.2⟩
      booked := fun r p c m g f h => ⟨Drawn.unaccounted.booked r p c m g f h.1, h.2⟩ }
  refine Triple.bind ((unaccounted.fill ?_ ?_).conseq (fun _ h => h) (fun _ _ h => h) fun _ _ h => h.1)
    fun _ => Triple.bind ((orderAt_keeps id).conseq (fun _ h => h) (fun _ _ h => h) fun _ _ h => h.1)
      fun _ => Triple.pure _ fun _ h => h
  · rintro r ⟨before, ⟨h, offered⟩, here, rfl, rfl⟩
    exact ⟨(h.consumed (offered order here level List.mem_cons_self) filled (min_le_right _ _)).1,
      fewer offered⟩
  · rintro r other fill ⟨before, ⟨h, offered⟩, here, rfl, rfl⟩ there positive of
    rw [show before.orders[id]? = some other from there] at here
    obtain rfl := Option.some.inj here
    obtain ⟨kept, whole⟩ := h.consumed (offered other there level List.mem_cons_self) filled
      (min_le_right _ _)
    -- The fill counts for the level it was taken from and for no other.
    have count : takenFrom setup key fill = true →
        key = ⟨other.symbol, against other.side, level.1⟩ := by
      intro taken
      simp only [takenFrom, Bool.and_eq_true, decide_eq_true_eq, of.liquidity, of.symbol, of.side,
        of.price] at taken
      obtain ⟨⟨⟨-, symbol⟩, side⟩, price⟩ := taken
      have level := slipped_injective setup other.side price
      rw [symbol, side, level]
    refine ⟨⟨kept.deep, kept.nonneg, kept.within, kept.shown, fun t => ?_, fun t => ?_⟩, ?_⟩
    · rw [filled_record]
      split
      next taken =>
        have own := count taken
        have before_ := h.drawn t
        rw [of.quantity]
        change before.filled (takenFrom setup key) + quantity - base ≤
          (before.consumedDepth.set level' (before.consumedDepth.getD level' 0 + quantity)).getD key 0
        have same : level' = key := own.symm
        rw [same, Dict.getD_set, if_pos rfl]
        linarith
      next => exact (add_zero (Replay.filled _ _)).symm ▸ kept.drawn t
    · rw [filled_record]
      split
      next taken =>
        have own := count taken
        have valid : before.market.bookValid key.symbol = true := by
          have level := h.deep.displayed_level le_rfl (offered other there level List.mem_cons_self)
          rw [own]
          exact Engine.displayed_valid (level.1.symm ▸ level.2.2)
        have sized := (whole own).trans (h.shown t valid).le
        have before_ := h.drawn t
        rw [of.quantity]
        change before.filled (takenFrom setup key) + _ - base ≤ cap
        linarith
      next => exact (add_zero (Replay.filled _ _)).symm ▸ kept.bound t
    · intro after at_ l member
      obtain ⟨old, same, ⟨-, rfl⟩ | ⟨-, rfl⟩⟩ := getElem?_modified at_
      · have unmoved : (old.filledBy before.fills.length fill.quantity fill.filledAtNs).symbol = old.symbol ∧
            (old.filledBy before.fills.length fill.quantity fill.filledAtNs).side = old.side := by
          unfold Order.filledBy
          dsimp only
          split <;> exact ⟨rfl, rfl⟩
        change l ∈ before.market.levels _ _ 2000
        rw [unmoved.1, unmoved.2]
        exact offered old same l (List.mem_cons_of_mem _ member)
      · exact offered after same l (List.mem_cons_of_mem _ member)

theorem takeLiquidity_drawn (id : ℕ) :
    Keeps (Drawn setup key tracked base cap) (takeLiquidity setup id) := by
  refine Triple.bind (orderAt_reads id) fun order => Triple.bind (Triple.view
    (Q := fun _ r => Drawn setup key tracked base cap r ∧ r.orders[id]? = some order) fun r h => h)
    fun quote => ?_
  cases quote with
  | none => exact (Drawn.quiet.reject id _).pre fun r h => h.1
  | some quote =>
    refine Triple.bindView fun levels => Triple.bind (Q := fun _ => Drawn setup key tracked base cap)
      (Triple.pre (Triple.whileEach (I := fun rest r => Drawn setup key tracked base cap r ∧
        Offered id rest r) (fun level rest => (takeLevel_drawn id quote level rest).post
          fun _ r h => ⟨fun _ => h, fun _ => h.1⟩) (fun r h => h.1) levels) fun r h => ⟨h.1.1, ?_⟩)
      fun _ => Drawn.quiet.restRemainder id
    intro other here level member
    rw [h.1.2] at here
    obtain rfl := Option.some.inj here
    exact h.2 ▸ member

theorem Drawn.stable : Stable setup (Drawn setup key tracked base cap) :=
  { Drawn.quiet with taken := takeLiquidity_drawn }

/-- Makers take nothing from the levels. -/
theorem passiveOrder_drawn (event : MarketEvent) (price volume : ℚ) (id : ℕ) :
    Keeps (Drawn setup key tracked base cap) (passiveOrder setup event price volume id) := by
  refine .bind (orderAt_keeps id) fun order => .ite (fun _ => .pure _) fun _ => ?_
  refine .bind (.modify fun r h => ⟨h.deep, h.nonneg, h.within, h.shown, h.drawn, h.bound⟩) fun _ =>
    .ite (fun _ => ?_) fun _ => .pure _
  refine .bind (Drawn.unaccounted.fill (fun r h => h) fun r other fill h here _ of => ?_) fun _ => .pure _
  have none : takenFrom setup key fill = false := by simp [takenFrom, of.liquidity]
  have same : (recordFill fill r).filled (takenFrom setup key) = r.filled (takenFrom setup key) := by
    rw [filled_record, none]
    exact add_zero _
  exact ⟨h.deep, h.nonneg, h.within, h.shown, fun t => same ▸ h.drawn t, fun t => same ▸ h.bound t⟩

end taking

end TradeAgent.Simulation
