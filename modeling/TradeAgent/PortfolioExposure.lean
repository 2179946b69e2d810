import TradeAgent.PaperAccount
import TradeAgent.PortfolioEngine

/-! The ledger's fills against the broker's and the exposure samples against the account:
ids differ between frames and between symbols, so only the forced liquidation, which shares
its time with the last frame, can repeat one. -/
namespace TradeAgent.Portfolio

open Paper Risk

variable {σ : Type} (s : Setup σ)

/-- The fills of a ledger, in order. -/
def filledEvents (ledger : List LedgerEvent) : List Fill := ledger.filterMap LedgerEvent.filled

/-- What the fills of a symbol add up to. -/
def replay (fills : List Fill) (symbol : String) : ℚ :=
  ((fills.filter fun fill => fill.symbol = symbol).map signed).sum

/-- A broker between two frames: positions in the universe, accounted for by its fills. -/
structure Open (symbols : List String) (b : PaperBroker) : Prop where
  config : b.config = s.config.broker
  only : ∀ key ∈ b.positions.keys, key ∈ symbols
  balanced : Balanced b
  replayed : ∀ symbol, held b symbol = replay b.fills.values symbol

/-- A broker inside a frame: every symbol of the universe has a mark. -/
structure Framed (symbols : List String) (b : PaperBroker) : Prop extends Open s symbols b where
  priced : ∀ symbol ∈ symbols, (b.marks.get? symbol).isSome
  settled : Settled b

theorem init_open (symbols : List String) : Open s symbols (init s.config.broker) where
  config := rfl
  only key present := by cases present
  balanced := init_balanced _
  replayed symbol := rfl

variable {s}

theorem Framed.marked {symbols : List String} {b : PaperBroker} (framed : Framed s symbols b) : Marked b :=
  fun symbol present => framed.priced symbol (framed.only symbol present)

theorem Open.mark {symbols : List String} {b : PaperBroker} (known : Open s symbols b) (bar : MarketBar) :
    Open s symbols (mark b bar) where
  config := by rw [mark_config]; exact known.config
  only := by rw [mark_positions]; exact known.only
  balanced := known.balanced.mark bar
  replayed symbol := by
    rw [held, mark_positions, mark_fills]
    exact known.replayed symbol

theorem marks_kept (b : PaperBroker) (bars : List MarketBar) (symbol : String)
    (priced : (b.marks.get? symbol).isSome ∨ ∃ bar ∈ bars, bar.symbol = symbol) :
    ((bars.foldl Paper.mark b).marks.get? symbol).isSome := by
  induction bars generalizing b with
  | nil =>
    rcases priced with known | ⟨_, member, _⟩
    · exact known
    · cases member
  | cons bar rest ih =>
    rw [List.foldl_cons]
    apply ih
    by_cases same : bar.symbol = symbol
    · left
      rw [mark_marks, Dict.get?_set, if_pos same]
      rfl
    · rcases priced with known | ⟨x, member, here⟩
      · left
        rw [mark_marks, Dict.get?_set, if_neg same]
        exact known
      · rcases List.mem_cons.mp member with rfl | later
        · exact absurd here same
        · exact .inr ⟨x, later, here⟩

theorem mem_sortedBars {frame : UniverseFrame} {bar : MarketBar} :
    bar ∈ sortedBars frame ↔ bar ∈ frame.bars := (List.mergeSort_perm _ _).mem_iff

theorem sortedBars_distinct (frame : UniverseFrame) :
    ((sortedBars frame).map MarketBar.symbol).Nodup :=
  ((List.mergeSort_perm _ _).map MarketBar.symbol).nodup_iff.mpr frame.distinct

/-- Marking a whole frame of the universe prices all of it. -/
theorem Open.frame {symbols : List String} {b : PaperBroker} {frame : UniverseFrame}
    (known : Open s symbols b) (traded : sortedSymbols frame = symbols) :
    Framed s symbols (markFrame b frame) := by
  have kept : ∀ (bars : List MarketBar) (c : PaperBroker), Open s symbols c →
      Open s symbols (bars.foldl Paper.mark c) := by
    intro bars
    induction bars with
    | nil => exact fun _ known => known
    | cons bar rest ih => exact fun c known => ih _ (known.mark bar)
  refine { kept frame.bars b known with priced := ?_, settled := ?_ }
  · intro symbol member
    subst traded
    obtain ⟨bar, inside, name⟩ := List.mem_map.mp member
    exact marks_kept b frame.bars symbol (.inr ⟨bar, mem_sortedBars.mp inside, name⟩)
  · obtain ⟨front, last, bars⟩ := List.eq_nil_or_concat frame.bars |>.resolve_left frame.nonempty
    rw [markFrame, bars, List.concat_eq_append, List.foldl_append]
    exact mark_settled _ _

theorem replay_concat (fills : List Fill) (fill : Fill) (symbol : String) :
    replay (fills ++ [fill]) symbol =
      replay fills symbol + if symbol = fill.symbol then signed fill else 0 := by
  unfold replay
  rw [List.filter_append, List.map_append, List.sum_append]
  congr 1
  by_cases same : symbol = fill.symbol
  · simp [same]
  · simp [same, Ne.symm same]

theorem Framed.filled {symbols : List String} {b after : PaperBroker} {order : OrderRequest}
    {bar : MarketBar} {fill : Fill} (framed : Framed s symbols b) (inside : bar.symbol ∈ symbols)
    (sent : submit b order bar = (after, .ok fill)) (filled : Filled b order bar after fill) :
    Framed s symbols after where
  config := by rw [filled.config]; exact framed.config
  only symbol present := by
    rcases filled.positionKeys symbol present with same | old
    · rw [same, filled.symbol]; exact inside
    · exact framed.only symbol old
  balanced := by
    have kept := submit_balanced framed.balanced order bar
    rwa [sent] at kept
  replayed symbol := by
    rw [filled.held, filled.fills, Dict.values_set_absent filled.unused, replay_concat,
      framed.replayed, filled.named.2.1]
  priced symbol member := by
    rw [filled.marks, Dict.get?_set]
    split
    next => rfl
    next => exact framed.priced symbol member
  settled := filled.settled

theorem orderToward_some {a : AccountSnapshot} {intent : PortfolioIntent} {frame : UniverseFrame}
    {bar : MarketBar} {order : OrderRequest} (plan : orderToward s a intent frame bar = some order) :
    order.orderType = .market ∧ order.symbol = bar.symbol ∧
    order.clientOrderId = orderId s intent bar.symbol := by
  unfold orderToward at plan
  dsimp only at plan
  split at plan
  next => split at plan <;> cases plan; exact ⟨rfl, rfl, rfl⟩
  next => cases plan

variable (s)

def judged (e : Engine σ) (order : OrderRequest) (frame : UniverseFrame) (bar : MarketBar)
    (a : AccountSnapshot) : RiskEngine × RiskDecision :=
  evaluate e.risk order bar a frame.timestamp s.config.tradingEnabled

/-- What one bar of an intent can do to an engine and which events it appends. -/
inductive Executed (e : Engine σ) (frame : UniverseFrame) (intent : PortfolioIntent) (bar : MarketBar)
    (a : AccountSnapshot) : Engine σ → List LedgerEvent → Prop where
  | idle (plan : orderToward s a intent frame bar = none) : Executed e frame intent bar a e []
  | refused (order : OrderRequest) (plan : orderToward s a intent frame bar = some order)
      (refused : (judged s e order frame bar a).2.approved = false) :
      Executed e frame intent bar a { e with risk := (judged s e order frame bar a).1 }
        [⟨.riskDecision (judged s e order frame bar a).2, frame.timestamp⟩]
  | sent (order : OrderRequest) (after : PaperBroker) (fill : Fill)
      (plan : orderToward s a intent frame bar = some order)
      (approved : (judged s e order frame bar a).2.approved = true)
      (sent : submit e.broker order bar = (after, .ok fill)) :
      Executed e frame intent bar a ⟨after, (judged s e order frame bar a).1, e.strategy⟩
        [⟨.riskDecision (judged s e order frame bar a).2, frame.timestamp⟩,
          ⟨.orderSubmitted order, frame.timestamp⟩, ⟨.orderFilled fill, frame.timestamp⟩]

variable {s}

theorem executeBar_executed {symbols : List String} {e e' : Engine σ} {frame : UniverseFrame}
    {intent : PortfolioIntent} {bar : MarketBar} {events : List LedgerEvent}
    (framed : Framed s symbols e.broker) (done : executeBar s e frame intent bar = .ok (e', events)) :
    ∃ a, Reads e.broker a ∧ Executed s e frame intent bar a e' events := by
  unfold executeBar at done
  obtain ⟨⟨after, a⟩, accepted, rest⟩ := bind_ok_iff.mp done
  have read := accept_ok.mp accepted
  obtain rfl := account_settled framed.marked framed.settled read
  refine ⟨a, (account_ok read).2, ?_⟩
  dsimp only at rest
  split at rest
  next plan => cases rest; exact .idle plan
  next order plan =>
    split at rest
    next approved =>
      obtain ⟨⟨later, fill⟩, sent, rest⟩ := bind_ok_iff.mp rest
      cases rest
      exact .sent order later fill plan approved (accept_ok.mp sent)
    next refused =>
      cases rest
      exact .refused order plan (by simpa [judged] using refused)

namespace Executed

variable {e e' : Engine σ} {frame : UniverseFrame} {intent : PortfolioIntent} {bar : MarketBar}
  {a : AccountSnapshot} {events : List LedgerEvent}

theorem limits (executed : Executed s e frame intent bar a e' events) :
    e'.risk.limits = e.risk.limits ∧ e'.strategy = e.strategy := by
  cases executed <;> exact ⟨rfl, rfl⟩

/-- The broker stays, or it gains the fill of a new order. -/
theorem broker (executed : Executed s e frame intent bar a e' events) :
    e'.broker = e.broker ∨ ∃ order fill, orderToward s a intent frame bar = some order ∧
      submit e.broker order bar = (e'.broker, .ok fill) ∧
      Filled e.broker order bar e'.broker fill ∧ filledEvents events = [fill] := by
  cases executed with
  | idle => exact .inl rfl
  | refused => exact .inl rfl
  | sent order after fill plan approved sent =>
    rcases submit_ok sent with ⟨_, same⟩ | filled
    · exact .inl same
    · exact .inr ⟨order, fill, plan, sent, filled, rfl⟩

theorem framed {symbols : List String} (executed : Executed s e frame intent bar a e' events)
    (inside : bar.symbol ∈ symbols) (before : Framed s symbols e.broker) :
    Framed s symbols e'.broker := by
  rcases executed.broker with same | ⟨order, fill, _, sent, filled, _⟩
  · rw [same]; exact before
  · exact before.filled inside sent filled

/-- With the bar's id unused the ledger gains exactly the broker's new fills. -/
theorem matched (executed : Executed s e frame intent bar a e' events)
    (unused : e.broker.fills.get? (orderId s intent bar.symbol) = none) :
    e'.broker.fills.values = e.broker.fills.values ++ filledEvents events := by
  cases executed with
  | idle => simp [filledEvents]
  | refused => simp [filledEvents, LedgerEvent.filled]
  | sent order after fill plan approved sent =>
    have id := (orderToward_some plan).2.2
    rcases submit_ok sent with ⟨used, _⟩ | filled
    · rw [id, unused] at used; cases used
    · rw [filled.fills, Dict.values_set_absent filled.unused]; rfl

/-- Only the bar's own id and symbol are touched. -/
theorem untouched (executed : Executed s e frame intent bar a e' events) :
    (∀ id, id ≠ orderId s intent bar.symbol →
      e'.broker.fills.get? id = e.broker.fills.get? id) ∧
    (∀ symbol, symbol ≠ bar.symbol → held e'.broker symbol = held e.broker symbol) ∧
    (∀ id, e'.broker.fills.get? id = none → e.broker.fills.get? id = none) := by
  rcases executed.broker with same | ⟨order, fill, plan, _, filled, _⟩
  · rw [same]; exact ⟨fun _ _ => rfl, fun _ _ => rfl, fun _ none => none⟩
  · obtain ⟨_, symbol, id⟩ := orderToward_some plan
    refine ⟨fun other apart => ?_, fun other apart => ?_, fun other none => ?_⟩
    · rw [filled.fills, Dict.get?_set, if_neg (id ▸ Ne.symm apart)]
    · rw [filled.held, if_neg (symbol ▸ apart), add_zero]
    · rw [filled.fills, Dict.get?_set] at none
      split at none
      next => cases none
      next => exact none

end Executed

theorem executeBars_cons {e e' : Engine σ} {frame : UniverseFrame} {intent : PortfolioIntent}
    {bar : MarketBar} {rest : List MarketBar} {events : List LedgerEvent} :
    executeBars s e frame intent (bar :: rest) = .ok (e', events) ↔
    ∃ middle here later, executeBar s e frame intent bar = .ok (middle, here) ∧
      executeBars s middle frame intent rest = .ok (e', later) ∧ events = here ++ later := by
  rw [executeBars]
  constructor
  · intro done
    obtain ⟨⟨middle, here⟩, first, others⟩ := bind_ok_iff.mp done
    obtain ⟨⟨last, later⟩, second, finished⟩ := bind_ok_iff.mp others
    cases finished
    exact ⟨middle, here, later, first, second, rfl⟩
  · rintro ⟨middle, here, later, first, second, rfl⟩
    exact bind_ok_iff.mpr ⟨(middle, here), first, bind_ok_iff.mpr ⟨(e', later), second, rfl⟩⟩

theorem filledEvents_append (ledger later : List LedgerEvent) :
    filledEvents (ledger ++ later) = filledEvents ledger ++ filledEvents later :=
  List.filterMap_append

/-- The bars of one intent, while none of their ids is used before. -/
theorem executeBars_matched {symbols : List String} {e e' : Engine σ} {frame : UniverseFrame}
    {intent : PortfolioIntent} {bars : List MarketBar} {events : List LedgerEvent}
    (framed : Framed s symbols e.broker) (inside : ∀ bar ∈ bars, bar.symbol ∈ symbols)
    (distinct : (bars.map MarketBar.symbol).Nodup)
    (apart : ∀ x ∈ symbols, ∀ y ∈ symbols, orderId s intent x = orderId s intent y → x = y)
    (unused : ∀ bar ∈ bars, e.broker.fills.get? (orderId s intent bar.symbol) = none)
    (done : executeBars s e frame intent bars = .ok (e', events)) :
    Framed s symbols e'.broker ∧ e'.risk.limits = e.risk.limits ∧
    e'.broker.fills.values = e.broker.fills.values ++ filledEvents events ∧
    ∀ id, (∀ bar ∈ bars, id ≠ orderId s intent bar.symbol) →
      e'.broker.fills.get? id = e.broker.fills.get? id := by
  induction bars generalizing e events with
  | nil => cases done; exact ⟨framed, rfl, by simp [filledEvents], fun _ _ => rfl⟩
  | cons bar rest ih =>
    obtain ⟨middle, here, later, first, others, rfl⟩ := executeBars_cons.mp done
    obtain ⟨a, _, executed⟩ := executeBar_executed framed first
    rw [List.map_cons, List.nodup_cons] at distinct
    have member := inside bar List.mem_cons_self
    have remaining : ∀ x ∈ rest, x.symbol ∈ symbols := fun x later =>
      inside x (List.mem_cons_of_mem bar later)
    have still : ∀ x ∈ rest, middle.broker.fills.get? (orderId s intent x.symbol) = none := by
      intro x later
      rw [executed.untouched.1]
      · exact unused x (List.mem_cons_of_mem bar later)
      · intro same
        exact distinct.1 (apart _ (remaining x later) _ member same ▸ List.mem_map_of_mem later)
    obtain ⟨kept, limits, values, ids⟩ :=
      ih (executed.framed member framed) remaining distinct.2 still others
    refine ⟨kept, limits.trans executed.limits.1, ?_, fun id outside => ?_⟩
    · rw [values, executed.matched (unused bar List.mem_cons_self), filledEvents_append,
        List.append_assoc]
    · rw [ids id fun x later => outside x (List.mem_cons_of_mem bar later),
        executed.untouched.1 id (outside bar List.mem_cons_self)]

section Liquidation

variable (s)

/-- What a liquidation order needs to sell a whole position: both participation limits
and an id the last frame has not filled. -/
structure Sellable (last : UniverseFrame) (b : PaperBroker) (bar : MarketBar) : Prop where
  approved : held b bar.symbol ≤ bar.volume * s.config.risk.maxVolumeParticipation
  liquid : held b bar.symbol ≤ availableQuantity s.config.broker bar
  unused : b.fills.get? (orderId s (liquidation s last) bar.symbol) = none

variable {s}

theorem liquidation_weight (last : UniverseFrame) (symbol : String) :
    (weightOf (liquidation s last) symbol).value = 0 := by
  unfold weightOf
  cases found : (liquidation s last).targetWeights.get? symbol with
  | none => rfl
  | some weight => rw [Option.getD_some, zeroWeight (Dict.mem_values.mpr ⟨symbol, found⟩)]; rfl

theorem targetQuantity_zero (equity close : ℚ) : targetQuantity s equity 0 close = 0 := by
  simp [targetQuantity, Rounding.toIntegral]

/-- The liquidation order of a held symbol sells all of it; nothing else is planned. -/
theorem liquidation_plan {symbols : List String} {b : PaperBroker} {a : AccountSnapshot}
    {last : UniverseFrame} {bar : MarketBar} (framed : Framed s symbols b) (reads : Reads b a)
    (inside : bar.symbol ∈ symbols) :
    (held b bar.symbol = 0 ∧ orderToward s a (liquidation s last) last bar = none) ∨
    (0 < held b bar.symbol ∧ ∃ order, orderToward s a (liquidation s last) last bar = some order ∧
      order.side = .sell ∧ order.quantity = held b bar.symbol) := by
  have quantity := reads.quantityOf (framed.priced bar.symbol inside)
  have nonneg : 0 ≤ held b bar.symbol := by
    unfold held Dict.getD
    cases present : b.positions.get? bar.symbol with
    | none => exact le_refl _
    | some p => exact (framed.balanced.sound _ _ present).quantity
  unfold orderToward
  simp only [liquidation_weight, targetQuantity_zero, quantity, lt_irrefl, false_and, and_false, if_false]
  by_cases none : held b bar.symbol = 0
  · left
    simp [none]
  · right
    have positive : 0 < held b bar.symbol := lt_of_le_of_ne nonneg (Ne.symm none)
    refine ⟨positive, _, dif_pos (by simpa using none), ?_, ?_⟩
    · simp only [OrderRequest.toward]
      rw [if_neg (by linarith)]
    · simp only [OrderRequest.toward, zero_sub, abs_neg]
      exact abs_of_pos positive

/-- Selling all of a position reduces risk: only the gateway's participation can object. -/
theorem liquidation_approved {symbols : List String} {e : Engine σ} {a : AccountSnapshot}
    {last : UniverseFrame} {bar : MarketBar} {order : OrderRequest}
    (framed : Framed s symbols e.broker) (reads : Reads e.broker a) (inside : bar.symbol ∈ symbols)
    (member : bar ∈ last.bars) (limits : e.risk.limits = s.config.risk)
    (plan : orderToward s a (liquidation s last) last bar = some order) (sell : order.side = .sell)
    (all : order.quantity = held e.broker bar.symbol) :
    (judged s e order last bar a).2.approved = true ↔
      held e.broker bar.symbol ≤ bar.volume * s.config.risk.maxVolumeParticipation := by
  have symbol := (orderToward_some plan).2.1
  have current : a.quantityOf order.symbol = held e.broker bar.symbol := by
    rw [symbol]; exact reads.quantityOf (framed.priced bar.symbol inside)
  have positive : 0 < held e.broker bar.symbol := all ▸ order.quantityPositive
  have none : projectedQuantity order a = 0 := by
    simp only [projectedQuantity, sell, current, all]; ring
  have reducing : riskReducing order a = true := by
    rw [riskReducing, none, current]
    simpa using positive.ne'
  have age : last.timestamp - bar.timestamp = 0 := by
    rw [last.sameTime bar member]; exact sub_self _
  rw [judged, evaluate_approved]
  have current : ¬((s.config.risk.maxDataAgeSeconds : ℤ) * second < 0) :=
    not_lt.mpr (mul_nonneg (Int.natCast_nonneg _) (by decide))
  simp only [hardCodes, age, none, reducing, RiskEngine.rateLimited, liquidityCodes, limits, all,
    List.append_eq_nil_iff, when_nil_iff, lt_irrefl, false_or, current, false_and, not_false_eq_true,
    Bool.not_true, Bool.and_false, Bool.false_eq_true, if_true, true_and, and_true]
  have share := s.config.risk.participationRange.1
  by_cases traded : bar.volume ≤ 0
  · have nothing : bar.volume * s.config.risk.maxVolumeParticipation ≤ 0 :=
      mul_nonpos_of_nonpos_of_nonneg traded share.le
    simp only [if_pos traded, List.cons_ne_nil, false_iff, not_le]
    linarith
  · rw [if_neg traded, when_nil_iff, not_lt, div_le_iff₀ (not_le.mp traded), mul_comm]

/-- One bar of the liquidation leaves nothing of its symbol exactly when all of it could
be sold, and then the ledger gains the broker's fill. -/
theorem liquidateBar {symbols : List String} {e e' : Engine σ} {a : AccountSnapshot}
    {last : UniverseFrame} {bar : MarketBar} {events : List LedgerEvent}
    (framed : Framed s symbols e.broker) (reads : Reads e.broker a) (inside : bar.symbol ∈ symbols)
    (member : bar ∈ last.bars) (limits : e.risk.limits = s.config.risk)
    (executed : Executed s e last (liquidation s last) bar a e' events) :
    (held e'.broker bar.symbol = 0 ↔
      (held e.broker bar.symbol ≠ 0 → Sellable s last e.broker bar)) ∧
    ((held e.broker bar.symbol ≠ 0 → Sellable s last e.broker bar) →
      e'.broker.fills.values = e.broker.fills.values ++ filledEvents events) := by
  rcases liquidation_plan framed reads inside with ⟨empty, idle⟩ | ⟨positive, order, plan, sell, all⟩
  · cases executed with
    | idle => exact ⟨⟨fun _ some => absurd empty some, fun _ => empty⟩, fun _ => by simp [filledEvents]⟩
    | refused order plan => rw [idle] at plan; cases plan
    | sent order after fill plan => rw [idle] at plan; cases plan
  · have approval := liquidation_approved framed reads inside member limits plan sell all
    have some := positive.ne'
    obtain ⟨_, symbol, id⟩ := orderToward_some plan
    cases executed with
    | idle idle => rw [idle] at plan; cases plan
    | refused other planned refused =>
      obtain rfl := Option.some.inj (plan.symm.trans planned)
      have never : ¬(held e.broker bar.symbol ≠ 0 → Sellable s last e.broker bar) := fun sellable => by
        rw [approval.mpr (sellable some).approved] at refused
        cases refused
      exact ⟨⟨fun gone => absurd gone some, fun sellable => absurd sellable never⟩,
        fun sellable => absurd sellable never⟩
    | sent other after fill planned approved sent =>
      obtain rfl := Option.some.inj (plan.symm.trans planned)
      rcases submit_ok sent with ⟨used, rfl⟩ | filled
      · have never : ¬(held e.broker bar.symbol ≠ 0 → Sellable s last e.broker bar) := fun sellable => by
          rw [id, (sellable some).unused] at used
          cases used
        exact ⟨⟨fun gone => absurd gone some, fun sellable => absurd sellable never⟩,
          fun sellable => absurd sellable never⟩
      · have left : held after bar.symbol = held e.broker bar.symbol -
            min (held e.broker bar.symbol) (availableQuantity s.config.broker bar) := by
          rw [filled.held, if_pos symbol.symm, signed, filled.named.2.2.1, sell, filled.quantity, all,
            framed.config, sub_eq_add_neg]
        refine ⟨⟨fun gone _ => ⟨approval.mp approved, ?_, id ▸ filled.unused⟩, fun sellable => ?_⟩, fun _ => ?_⟩
        · dsimp only at gone
          rw [left, sub_eq_zero] at gone
          exact min_eq_left_iff.mp gone.symm
        · dsimp only
          rw [left, min_eq_left (sellable some).liquid, sub_self]
        · dsimp only
          rw [filled.fills, Dict.values_set_absent filled.unused]
          rfl

/-- The whole liquidation. -/
theorem liquidateBars {symbols : List String} {e e' : Engine σ} {last : UniverseFrame}
    {bars : List MarketBar} {events : List LedgerEvent} (framed : Framed s symbols e.broker)
    (inside : ∀ bar ∈ bars, bar.symbol ∈ symbols) (distinct : (bars.map MarketBar.symbol).Nodup)
    (members : ∀ bar ∈ bars, bar ∈ last.bars) (limits : e.risk.limits = s.config.risk)
    (apart : ∀ x ∈ symbols, ∀ y ∈ symbols,
      orderId s (liquidation s last) x = orderId s (liquidation s last) y → x = y)
    (done : executeBars s e last (liquidation s last) bars = .ok (e', events)) :
    Framed s symbols e'.broker ∧
    (∀ symbol, (∀ bar ∈ bars, symbol ≠ bar.symbol) → held e'.broker symbol = held e.broker symbol) ∧
    ((∀ bar ∈ bars, held e'.broker bar.symbol = 0) ↔
      ∀ bar ∈ bars, held e.broker bar.symbol ≠ 0 → Sellable s last e.broker bar) ∧
    ((∀ bar ∈ bars, held e.broker bar.symbol ≠ 0 → Sellable s last e.broker bar) →
      e'.broker.fills.values = e.broker.fills.values ++ filledEvents events) := by
  induction bars generalizing e events with
  | nil =>
    cases done
    exact ⟨framed, fun _ _ => rfl, by simp, fun _ => by simp [filledEvents]⟩
  | cons bar rest ih =>
    obtain ⟨middle, here, later, first, others, rfl⟩ := executeBars_cons.mp done
    obtain ⟨a, reads, executed⟩ := executeBar_executed framed first
    rw [List.map_cons, List.nodup_cons] at distinct
    have member := inside bar List.mem_cons_self
    have remaining : ∀ x ∈ rest, x.symbol ∈ symbols := fun x later =>
      inside x (List.mem_cons_of_mem bar later)
    have other : ∀ x ∈ rest, x.symbol ≠ bar.symbol := fun x later same =>
      distinct.1 (same ▸ List.mem_map_of_mem later)
    obtain ⟨one, gained⟩ :=
      liquidateBar framed reads member (members bar List.mem_cons_self) limits executed
    obtain ⟨kept, elsewhere, zero, values⟩ :=
      ih (executed.framed member framed) remaining distinct.2
        (fun x later => members x (List.mem_cons_of_mem bar later))
        (executed.limits.1.trans limits) others
    -- what the first bar does is invisible to the condition of the others
    have same : ∀ x ∈ rest, (held middle.broker x.symbol ≠ 0 → Sellable s last middle.broker x) ↔
        (held e.broker x.symbol ≠ 0 → Sellable s last e.broker x) := by
      intro x later
      have amount := executed.untouched.2.1 x.symbol (other x later)
      have ids := executed.untouched.1 (orderId s (liquidation s last) x.symbol) fun clash =>
        other x later (apart _ (remaining x later) _ member clash)
      constructor
      · intro sellable held
        obtain ⟨approved, liquid, unused⟩ := sellable (amount ▸ held)
        exact ⟨amount ▸ approved, amount ▸ liquid, ids ▸ unused⟩
      · intro sellable held
        obtain ⟨approved, liquid, unused⟩ := sellable (amount ▸ held)
        exact ⟨amount ▸ approved, amount ▸ liquid, ids ▸ unused⟩
    have final : held e'.broker bar.symbol = held middle.broker bar.symbol :=
      elsewhere bar.symbol fun x later => (other x later).symm
    refine ⟨kept, fun symbol outside => ?_, ?_, fun sellable => ?_⟩
    · rw [elsewhere symbol fun x later => outside x (List.mem_cons_of_mem bar later),
        executed.untouched.2.1 symbol (outside bar List.mem_cons_self)]
    · rw [List.forall_mem_cons, List.forall_mem_cons, final, one, zero]
      exact and_congr_right fun _ => forall₂_congr same
    · obtain ⟨this, rest⟩ := List.forall_mem_cons.mp sellable
      rw [values fun x later => (same x later).mpr (rest x later), gained this, filledEvents_append,
        List.append_assoc]

end Liquidation

end TradeAgent.Portfolio
