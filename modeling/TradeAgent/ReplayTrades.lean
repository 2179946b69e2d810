import TradeAgent.ReplayQueue

/-! What one trade record fills: its volume goes once through the orders' queues, and what it serves
never comes to more than its size. -/
namespace TradeAgent.Simulation

open Market (MarketEvent ScalpQuote Engine)
open Procedure (Keeps Triple Leaves)

/-- What a record sells into an order: its size, when it is a sale at or below the limit of an order
that had arrived by then. -/
def soldInto (event : MarketEvent) (order : Order) : ℚ :=
  match event.content with
  | .trade price quantity _ (some .sell) .. =>
    if order.symbol = event.symbol ∧ order.limitPrice.any (price ≤ ·) ∧
      order.arrivedAtNs.any (· ≤ event.exchangeAtNs) then quantity else 0
  | _ => 0

def Replay.gains (r : Replay) (event : MarketEvent) (id : ℕ) : ℚ :=
  (r.orders[id]?).elim 0 (soldInto event)

/-- The size of a trade record. -/
def tradeSize (event : MarketEvent) : ℚ :=
  match event.content with
  | .trade _ quantity .. => quantity
  | _ => 0

theorem tradeSize_nonneg (event : MarketEvent) : 0 ≤ tradeSize event := by
  unfold tradeSize
  split
  next counted _ => exact counted.le
  next => exact le_rfl

section serving

variable {setup : Setup} {event : MarketEvent} {price size total left : ℚ} {seen gain : ℕ → ℚ}
  {id : ℕ} {rest : List ℕ} {r : Replay}

/-- The orders still to serve have seen what they had; the others have seen the trade, too. -/
def partly (seen gain : ℕ → ℚ) (rest : List ℕ) (id : ℕ) : ℚ :=
  if id ∈ rest then seen id else seen id + gain id

/-- Part of a trade's volume is left, and part of the orders are still to be served from it. -/
structure Serving (setup : Setup) (event : MarketEvent) (price size total : ℚ) (seen gain : ℕ → ℚ)
    (rest : List ℕ) (left : ℚ) (r : Replay) : Prop where
  queues : Queues setup (partly seen gain rest) (total - left) r
  waiting : ∀ id ∈ rest, ∀ order : Order, r.orders[id]? = some order → order.eligible event price →
    size ≤ gain id
  nonneg : 0 ≤ left
  le : left ≤ size

theorem Queues.mono {more : ℕ → ℚ} {larger : ℚ} (h : Queues setup seen total r)
    (le : ∀ id, seen id ≤ more id) (le_total : total ≤ larger) : Queues setup more larger r where
  deep := h.deep
  owned := h.owned
  limited := h.limited
  within := h.within
  queued id order here := (h.queued id order here).mono setup.assumptions.ratePositive (le id)
  spent := h.spent.trans le_total

variable (left) in
theorem Serving.unaccounted :
    Unaccounted (Serving setup event price size total seen gain rest left) where
  clock r t s n b h := ⟨Queues.unaccounted.clock r t s n b h.queues, h.waiting, h.nonneg, h.le⟩
  fills r fills kept h := ⟨Queues.unaccounted.fills r fills kept h.queues, h.waiting, h.nonneg, h.le⟩
  booked r p c m g f h := ⟨Queues.unaccounted.booked r p c m g f h.queues, h.waiting, h.nonneg, h.le⟩

theorem partly_le_partly (gains : ∀ id, 0 ≤ gain id) (other : ℕ) :
    partly seen gain (id :: rest) other ≤ partly seen gain rest other := by
  unfold partly
  by_cases here : other ∈ rest
  · simp [here]
  · rw [if_neg here]
    split
    next => exact le_add_of_nonneg_right (gains other)
    next => exact le_rfl

theorem partly_le (gains : ∀ id, 0 ≤ gain id) (other : ℕ) :
    partly seen gain rest other ≤ seen other + gain other := by
  unfold partly
  split
  next => exact le_add_of_nonneg_right (gains other)
  next => exact le_rfl

/-- An order passed over. -/
theorem Serving.skip (h : Serving setup event price size total seen gain (id :: rest) left r)
    (gains : ∀ id, 0 ≤ gain id) : Serving setup event price size total seen gain rest left r where
  queues := h.queues.mono (partly_le_partly gains) le_rfl
  waiting other member := h.waiting other (List.mem_cons_of_mem _ member)
  nonneg := h.nonneg
  le := h.le

/-- Less of what is ahead of one order, by a volume it has now seen. -/
theorem Queues.shortened (h : Queues setup seen total r) {order : Order} {volume ahead : ℚ}
    {more : ℕ → ℚ} (here : r.orders[id]? = some order) (sized : 0 ≤ volume)
    (through : ahead = min volume order.queueAheadRemaining) (le : ∀ id, seen id ≤ more id)
    (own : seen id + volume ≤ more id) :
    Queues setup more total { r with orders := r.orders.modify id fun order =>
      { order with queueAheadRemaining := order.queueAheadRemaining - ahead } } where
  deep := h.deep
  owned fill member := by
    dsimp only
    rw [List.length_modify]
    exact h.owned fill member
  limited other after there bought := by
    obtain ⟨before, old, ⟨-, rfl⟩ | ⟨-, rfl⟩⟩ := getElem?_modified there
    · exact h.limited other before old bought
    · exact h.limited other after old bought
  within fill member after there := by
    obtain ⟨before, old, ⟨-, rfl⟩ | ⟨-, rfl⟩⟩ := getElem?_modified there
    · exact h.within fill member before old
    · exact h.within fill member after old
  queued other after there := by
    obtain ⟨before, old, ⟨rfl, rfl⟩ | ⟨-, rfl⟩⟩ := getElem?_modified there
    · rw [here] at old
      obtain rfl := Option.some.inj old
      rw [through]
      exact ((h.queued id order here).shortened sized setup.assumptions.ratePositive).mono
        setup.assumptions.ratePositive own
    · exact (h.queued other after old).mono setup.assumptions.ratePositive (le other)
  spent := h.spent

/-- The order after part of a volume went to what was ahead of it. -/
theorem Serving.shortened (h : Serving setup event price size total seen gain (id :: rest) left r)
    {order : Order} (here : r.orders[id]? = some order) (gains : ∀ id, 0 ≤ gain id) (fresh : id ∉ rest)
    (eligible : order.eligible event price) {less : ℚ} (nonneg : 0 ≤ less) (le : less ≤ left) :
    Serving setup event price size total seen gain rest less
      { r with orders := r.orders.modify id fun o =>
        { o with queueAheadRemaining := o.queueAheadRemaining - min left order.queueAheadRemaining } } where
  queues := by
    have own : partly seen gain (id :: rest) id + left ≤ partly seen gain rest id := by
      simp only [partly, List.mem_cons_self, if_true, if_neg fresh]
      linarith [h.le, h.waiting id List.mem_cons_self order here eligible]
    exact (h.queues.shortened here h.nonneg rfl (partly_le_partly gains) own).mono (fun _ => le_rfl)
      (by linarith)
  waiting other member after there := by
    obtain ⟨before, old, ⟨rfl, -⟩ | ⟨-, rfl⟩⟩ := getElem?_modified there
    · exact absurd member fresh
    · exact h.waiting other (List.mem_cons_of_mem _ member) after old
  nonneg := nonneg
  le := le.trans h.le

/-- What is over, whether or not the loop ran to its end. -/
theorem Serving.ended (h : Serving setup event price size total seen gain rest left r)
    (gains : ∀ id, 0 ≤ gain id) : Queues setup (fun id => seen id + gain id) total r :=
  h.queues.mono (partly_le gains) (by linarith [h.nonneg])

theorem passiveOrder_serves (gains : ∀ id, 0 ≤ gain id) (fresh : id ∉ rest) (volume : ℚ) :
    Triple (Serving setup event price size total seen gain (id :: rest) volume)
      (passiveOrder setup event price volume id)
      (fun left => Serving setup event price size total seen gain rest left)
      fun _ => Queues setup (fun id => seen id + gain id) total := by
  refine Triple.bind ((orderAt_reads id).conseq (fun _ h => h) (fun _ _ h => h) fun _ r h => h.ended gains)
    fun order => Triple.ite (fun _ => Triple.pure volume fun r h => h.1.skip gains) fun eligible => ?_
  replace eligible : order.eligible event price = true := by simpa using eligible
  dsimp only
  set ahead := min volume order.queueAheadRemaining with through
  set quantity := min order.remaining ((volume - ahead) * setup.assumptions.participationRate)
  -- The state in which the queue is already shorter, by the state before.
  refine Triple.bind (Q := fun _ r => ∃ before,
    (Serving setup event price size total seen gain (id :: rest) volume before ∧
      before.orders[id]? = some order) ∧ r = { before with
        orders := before.orders.modify id fun o =>
          { o with queueAheadRemaining := o.queueAheadRemaining - ahead } })
    (Triple.modify fun r h => ⟨r, h, rfl⟩) fun _ => ?_
  have most : ahead ≤ volume := min_le_left _ _
  refine Triple.ite (fun filled => ?_) fun _ => Triple.pure _ fun r h => ?_
  · have part : quantity ≤ (volume - ahead) * setup.assumptions.participationRate := min_le_right _ _
    have small : quantity ≤ volume - ahead := part.trans
      (mul_le_of_le_one_right (sub_nonneg.mpr most) setup.assumptions.rateLe)
    have nonneg (before : Replay) (h : Serving setup event price size total seen gain (id :: rest) volume before)
        (here : before.orders[id]? = some order) : 0 ≤ ahead :=
      le_min h.nonneg (h.queues.queued id order here).ahead
    refine Triple.bind ((Serving.unaccounted (volume - ahead - quantity)).fill ?_ ?_ |>.conseq
      (fun _ h => h) (fun _ _ h => h) fun _ r h => h.ended gains) fun _ => Triple.pure _ fun r h => h
    · rintro r ⟨before, ⟨h, here⟩, rfl⟩
      exact h.shortened here gains fresh eligible (by linarith) (by linarith [nonneg before h here])
    · rintro r other fill ⟨before, ⟨h, here⟩, rfl⟩ there positive of
      have kept : 0 ≤ volume - ahead - quantity := by linarith
      have less := h.shortened here gains fresh eligible kept (by linarith [nonneg before h here])
      have after : other = { order with
          queueAheadRemaining := order.queueAheadRemaining - ahead } := by
        obtain ⟨old, same, ⟨-, rfl⟩ | ⟨apart, -⟩⟩ := getElem?_modified there
        · rw [here] at same
          obtain rfl := Option.some.inj same
          rfl
        · exact absurd rfl apart
      have entered : order.queueAheadInitial.isSome := by
        refine (h.queues.queued id order here).entered ?_
        unfold Order.eligible at eligible
        simp only [Bool.and_eq_true] at eligible
        exact eligible.1.1.2
      have reached : partly seen gain (id :: rest) id + volume ≤ partly seen gain rest id := by
        simp only [partly, List.mem_cons_self, if_true, if_neg fresh]
        linarith [h.le, h.waiting id List.mem_cons_self order here eligible]
      refine ⟨?_, fun i member o at_ => ?_, less.nonneg, less.le⟩
      · refine less.queues.recorded there of (fun _ limit same => ?_) fun _ => ⟨?_, ?_⟩
        · subst after
          change order.limitPrice = some limit at same
          rw [same]
          exact le_rfl
        · subst after
          have served := (h.queues.queued id order here).served setup.assumptions.ratePositive part filled
            entered { order with queueAheadRemaining := order.queueAheadRemaining - ahead } rfl rfl
          exact served.mono setup.assumptions.ratePositive reached
        · have spent := h.queues.spent
          change before.filled made + quantity ≤ _
          linarith [nonneg before h here]
      · obtain ⟨old, same, ⟨own, -⟩ | ⟨apart, rfl⟩⟩ := getElem?_modified at_
        · rw [of.orderId] at own
          exact absurd (own ▸ member) fresh
        · exact less.waiting i member o same
  · obtain ⟨before, ⟨h, here⟩, rfl⟩ := h
    have nonneg : 0 ≤ ahead := le_min h.nonneg (h.queues.queued id order here).ahead
    exact h.shortened here gains fresh eligible (by linarith) (by linarith)

theorem passiveOrders_serve (gains : ∀ id, 0 ≤ gain id) (ids : List ℕ) (distinct : ids.Nodup)
    (volume : ℚ) :
    Triple (Serving setup event price size total seen gain ids volume)
      (passiveOrders setup event price ids volume)
      (fun _ => Queues setup (fun id => seen id + gain id) total)
      fun _ => Queues setup (fun id => seen id + gain id) total := by
  induction ids generalizing volume with
  | nil => exact Triple.pure () fun r h => h.ended gains
  | cons id rest ih =>
    obtain ⟨fresh, distinct⟩ := List.nodup_cons.mp distinct
    refine Triple.bind (passiveOrder_serves gains fresh volume) fun left => Triple.ite (fun _ => ?_) fun _ => ?_
    · exact Triple.pure () fun r h => h.ended gains
    · exact ih distinct left

end serving

section records

variable {setup : Setup} {env : Environment} {event : MarketEvent} {seen gain : ℕ → ℚ} {total : ℚ}

theorem soldInto_eligible {price quantity : ℚ} {tradeId : String} {priced : 0 < price}
    {counted : 0 < quantity}
    (content : event.content = .trade price quantity tradeId (some .sell) priced counted) {order : Order}
    (eligible : order.eligible event price) : soldInto event order = quantity := by
  unfold Order.eligible at eligible
  simp only [Bool.and_eq_true, decide_eq_true_eq] at eligible
  obtain ⟨⟨⟨⟨⟨symbol, -⟩, -⟩, -⟩, limit⟩, arrived⟩ := eligible
  unfold soldInto
  rw [content]
  exact if_pos ⟨symbol, limit, arrived⟩

theorem passiveTrade_serves {price quantity : ℚ} {tradeId : String} {takerSide : Option Market.TakerSide}
    {priced : 0 < price} {counted : 0 < quantity} (gains : ∀ id, 0 ≤ gain id)
    (content : event.content = .trade price quantity tradeId takerSide priced counted) :
    Triple (fun r => Queues setup seen total r ∧ r.gains event = gain)
      (passiveTrade setup event price quantity takerSide)
      (fun _ => Queues setup (fun id => seen id + gain id) (total + quantity))
      fun _ => Queues setup (fun id => seen id + gain id) (total + quantity) := by
  have grown {r : Replay} (h : Queues setup seen total r) :
      Queues setup (fun id => seen id + gain id) (total + quantity) r :=
    h.mono (fun id => le_add_of_nonneg_right (gains id)) (le_add_of_nonneg_right counted.le)
  refine Triple.bindView fun quote => Triple.ite (fun _ => Triple.pure () fun r h => grown h.1.1) fun sale => ?_
  refine Triple.bindView fun count => Triple.pre (P := Serving setup event price quantity
    (total + quantity) seen gain (List.range count) quantity)
    (passiveOrders_serve gains (List.range count) List.nodup_range quantity) fun r h => ?_
  obtain ⟨⟨⟨queues, rfl⟩, -⟩, -⟩ := h
  rw [not_or, not_not] at sale
  obtain ⟨rfl, -⟩ := sale
  refine ⟨queues.mono (fun id => ?_) (by linarith), fun id _ order here eligible => ?_, counted.le, le_rfl⟩
  · unfold partly
    split
    next => exact le_rfl
    next => exact le_add_of_nonneg_right (gains id)
  · unfold Replay.gains
    rw [here]
    exact (soldInto_eligible content eligible).ge

/-- What an accepted record sells into the orders, and its size if it is a trade. -/
theorem applyContent_serves (seenNonneg : ∀ id, 0 ≤ seen id) (gains : ∀ id, 0 ≤ gain id) :
    Triple (fun r => Queues setup seen total r ∧ r.gains event = gain) (applyContent setup event)
      (fun _ => Queues setup (fun id => seen id + gain id) (total + tradeSize event))
      fun _ => Queues setup (fun id => seen id + gain id) (total + tradeSize event) := by
  have still {p : Action Unit} (keeps : Keeps (Queues setup seen total) p) :
      Triple (fun r => Queues setup seen total r ∧ r.gains event = gain) p
        (fun _ => Queues setup (fun id => seen id + gain id) (total + tradeSize event))
        fun _ => Queues setup (fun id => seen id + gain id) (total + tradeSize event) := by
    have grown {r : Replay} (h : Queues setup seen total r) :
        Queues setup (fun id => seen id + gain id) (total + tradeSize event) r :=
      h.mono (fun id => le_add_of_nonneg_right (gains id))
        (le_add_of_nonneg_right (tradeSize_nonneg event))
    exact keeps.conseq (fun r h => h.1) (fun _ _ h => grown h) fun _ _ h => grown h
  have stable : Stable setup (Queues setup seen total) := Queues.stable seenNonneg
  unfold applyContent
  split
  next reset _ =>
    exact still (.bind (.modify fun r h => ⟨h.deep, h.owned, h.limited, h.within, h.queued, h.spent⟩)
      fun _ => .bind (.view _) fun _ => .forEach (fun id => stable.rebaseAfter event reset id) _)
  next price quantity tradeId takerSide priced counted content =>
    have size : tradeSize event = quantity := by rw [tradeSize, content]
    rw [size]
    exact passiveTrade_serves gains content
  next => exact still (.pure ())
  next => exact still (.pure ())

/-- Clearing queues changes nothing that decides what a record sells into an order. -/
theorem checkQueues_gains : Leaves (fun r => r.gains event) (checkQueues event) := by
  have cleared : Leaves (fun r : Replay => r.gains event) (invalidateQueues event.symbol) := by
    refine .modify fun r => funext fun id => ?_
    unfold Replay.gains
    rw [List.getElem?_map]
    cases r.orders[id]? with
    | none => rfl
    | some order =>
      simp only [Option.map_some, Option.elim_some]
      split <;> rfl
  refine .bind (.view _) fun market => ?_
  split
  next => exact cleared
  next => exact .raise _
  next => exact .ite cleared (.pure ())

/-- A record that is not accepted sells into no order. -/
theorem marketEvent_serves (seenNonneg : ∀ id, 0 ≤ seen id) (gains : ∀ id, 0 ≤ gain id) (answer : Bool) :
    Triple (fun r => (Queues setup seen total r ∧ r.gains event = gain) ∧
        (r.market.onEvent setup.settings env.arith event).2 = answer)
      (marketEvent setup env event)
      (fun _ => Queues setup (fun id => seen id + if answer then gain id else 0)
        (total + if answer then tradeSize event else 0))
      fun _ => Queues setup (fun id => seen id + if answer then gain id else 0)
        (total + if answer then tradeSize event else 0) := by
  have seenLater : ∀ id, 0 ≤ seen id + if answer then gain id else 0 := by
    intro id
    split
    next => exact add_nonneg (seenNonneg id) (gains id)
    next => exact (add_zero (seen id)).symm ▸ seenNonneg id
  have later {r : Replay} (h : Queues setup seen total r) :
      Queues setup (fun id => seen id + if answer then gain id else 0)
        (total + if answer then tradeSize event else 0) r := by
    refine h.mono (fun id => le_add_of_nonneg_right ?_) (le_add_of_nonneg_right ?_)
    · split
      next => exact gains id
      next => exact le_rfl
    · split
      next => exact tradeSize_nonneg event
      next => exact le_rfl
  refine Triple.bindView fun outcome => ?_
  refine Triple.bind (Q := fun _ r => (Queues setup seen total r ∧ r.gains event = gain) ∧
    outcome.2 = answer) (Triple.modify fun r h => ?_) fun _ => Triple.given fun answered => ?_
  · obtain ⟨⟨⟨queues, same⟩, answered⟩, rfl⟩ := h
    exact ⟨⟨⟨queues.deep.onEvent event, queues.owned, queues.limited, queues.within, queues.queued,
      queues.spent⟩, same⟩, answered⟩
  · refine Triple.bind (Q := fun _ r => Queues setup seen total r ∧ r.gains event = gain)
      (((Queues.stable seenNonneg).checkQueues event).and (checkQueues_gains gain) |>.conseq
        (fun _ h => h) (fun _ _ h => h) fun _ _ h => later h.1) fun _ => ?_
    refine Triple.ite (fun _ => Triple.pure () fun r h => later h.1) fun accepted => ?_
    have yes : answer = true := answered ▸ by simpa using accepted
    subst yes
    simp only [if_true] at seenLater ⊢
    exact Triple.bind (applyContent_serves seenNonneg gains) fun _ =>
      (Queues.stable seenLater).observeMarkouts event.symbol

end records

end TradeAgent.Simulation
