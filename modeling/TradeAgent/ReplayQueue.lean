import TradeAgent.FeatureDepth
import TradeAgent.ReplayMoves

/-! What fills a resting order: no more than the sales that came through its queue, never past its
limit, and in all never more than the size of the trade. -/
namespace TradeAgent.Simulation

open Market (MarketEvent ScalpQuote Engine)
open Procedure (Keeps Triple)

/-! ## Executions -/

/-- A fill of an order. -/
structure Fill.Of (fill : Fill) (order : Order) (id : ℕ) (quantity price : ℚ) (liquidity : Liquidity) :
    Prop where
  orderId : fill.orderId = id
  symbol : fill.symbol = order.symbol
  side : fill.side = order.side
  quantity : fill.quantity = quantity
  price : fill.price = price
  liquidity : fill.liquidity = liquidity

/-- Says nothing of the accounts, the timers or what is known of a fill. -/
structure Unaccounted (J : Replay → Prop) : Prop where
  clock : ∀ r timers timerSequence nowNs startNs, J r →
    J { r with timers, timerSequence, nowNs, startNs }
  fills : ∀ r fills, List.Forall₂ Fill.Kept r.fills fills → J r → J { r with fills }
  booked : ∀ r positions closedPositions cash grossRealized realizedFees, J r →
    J { r with positions, closedPositions, cash, grossRealized, realizedFees }

section executions

variable {setup : Setup} {J P : Replay → Prop}

theorem Unaccounted.schedule (h : Unaccounted J) (atNs : ℤ) (kind : Kind) : Keeps J (schedule atNs kind) :=
  .bind (.view _) fun _ => .ite (fun _ => .raise _) fun _ =>
    .modify fun r holds => h.clock r _ _ r.nowNs r.startNs holds

theorem Unaccounted.bookFill (h : Unaccounted J) (fill : Fill) : Keeps J (bookFill fill) := by
  have exposure (sale entry : Fill) : entry.Kept (closeExposure sale entry) := by
    unfold closeExposure
    split
    next => exact ⟨rfl, rfl, rfl, rfl, rfl, rfl, rfl, rfl⟩
    next => exact .refl entry
  unfold TradeAgent.Simulation.bookFill
  cases fill.side with
  | buy => exact .modify fun r holds => h.booked r _ r.closedPositions _ r.grossRealized r.realizedFees holds
  | sell =>
    refine .bind (.view _) fun position => ?_
    cases position with
    | none => exact .raise _
    | some position =>
      refine .ite (fun _ => .raise _) fun _ => .bind (.lift _) fun fraction => .modify fun r holds => ?_
      unfold bookSale
      dsimp only
      split
      next =>
        have marked := h.fills r _ (forall₂_map (exposure fill) r.fills) holds
        exact h.booked _ _ _ _ _ _ marked
      next => exact h.booked r _ r.closedPositions _ _ _ holds

/-- Once a fill is recorded, its booking and the reports it schedules change no execution. -/
theorem Unaccounted.fill (h : Unaccounted J) {id : ℕ} {quantity price : ℚ} {liquidity : Liquidity}
    {trigger : Option MarketEvent} (early : ∀ r, P r → J r)
    (recorded : ∀ r order fill, P r → r.orders[id]? = some order → 0 < quantity →
      fill.Of order id quantity price liquidity → J (recordFill fill r)) :
    Triple P (fill setup id quantity price liquidity trigger) (fun _ => J) fun _ => J := by
  refine Triple.bind ((orderAt_reads id).conseq (fun _ h => h) (fun _ _ h => h) fun _ => early)
    fun order => Triple.ite (fun _ => Triple.raise fun r holds => early r holds.1) fun sized => ?_
  rw [not_or, not_le, not_lt] at sized
  refine Triple.bindView fun nowNs => Triple.bindView fun index => ?_
  refine Triple.bind (Triple.lift (Q := fun _ r => P r ∧ r.orders[id]? = some order)
    (fun r holds _ _ => holds.1.1) fun r holds _ _ => early r holds.1.1.1) fun base => ?_
  refine Triple.bind (Q := fun _ => J) (Triple.modify fun r holds =>
    recorded r order _ holds.1 holds.2 sized.1 ⟨rfl, rfl, rfl, rfl, rfl, rfl⟩) fun _ => ?_
  exact Keeps.bind (h.bookFill _) fun _ => .bind (h.schedule _ _) fun _ =>
    .forEach (fun horizon => h.schedule _ _) _

end executions

/-! ## Quantities filled -/

/-- What was filled in all by the fills that pass a test. -/
def Replay.filled (r : Replay) (test : Fill → Bool) : ℚ :=
  (r.fills.map fun fill => if test fill then fill.quantity else 0).sum

/-- A test of what was executed, not of what is known of it. -/
def Blind (test : Fill → Bool) : Prop := ∀ before after : Fill, before.Kept after → test after = test before

def madeBy (id : ℕ) (fill : Fill) : Bool := fill.orderId = id && fill.liquidity = .maker

def made (fill : Fill) : Bool := fill.liquidity = .maker

section filled

variable {r : Replay} {test : Fill → Bool}

theorem madeBy_blind (id : ℕ) : Blind (madeBy id) := fun before after kept => by
  rw [madeBy, madeBy, kept.orderId, kept.liquidity]

theorem made_blind : Blind made := fun before after kept => by rw [made, made, kept.liquidity]

theorem filled_kept (blind : Blind test) {fills : List Fill} (kept : List.Forall₂ Fill.Kept r.fills fills) :
    { r with fills }.filled test = r.filled test := by
  unfold Replay.filled
  generalize r.fills = before at kept
  induction kept with
  | nil => rfl
  | cons same _ ih => rw [List.map_cons, List.map_cons, List.sum_cons, List.sum_cons, ih,
      blind _ _ same, same.quantity]

theorem filled_record (fill : Fill) :
    (recordFill fill r).filled test = r.filled test + if test fill then fill.quantity else 0 := by
  unfold Replay.filled recordFill
  rw [List.map_append, List.sum_append, List.map_singleton, List.sum_singleton]

end filled

/-! ## Queues -/

/-- An order that has seen a volume since it arrived, and was filled that much as a maker. -/
structure Queued (rate volume made : ℚ) (order : Order) : Prop where
  ahead : 0 ≤ order.queueAheadRemaining
  entered : order.queueValid = true → order.queueAheadInitial.isSome
  unentered : order.queueAheadInitial = none → made = 0
  account : ∀ initial, order.queueAheadInitial = some initial →
    initial ≤ order.queueAheadRemaining + volume - made / rate
  bound : ∀ initial, order.queueAheadInitial = some initial → made ≤ rate * max 0 (volume - initial)

section queued

variable {rate volume more made : ℚ} {order after : Order}

theorem Queued.mono (h : Queued rate volume made order) (positive : 0 < rate) (le : volume ≤ more) :
    Queued rate more made order where
  ahead := h.ahead
  entered := h.entered
  unentered := h.unentered
  account initial here := (h.account initial here).trans (by linarith)
  bound initial here := (h.bound initial here).trans (mul_le_mul_of_nonneg_left
    (max_le_max le_rfl (by linarith)) positive.le)

theorem Queued.kept (h : Queued rate volume made order) (kept : order.Kept after) :
    Queued rate volume made after where
  ahead := kept.queueAheadRemaining ▸ h.ahead
  entered valid := kept.queueAheadInitial ▸ h.entered (kept.queueValid valid)
  unentered none := h.unentered (kept.queueAheadInitial ▸ none)
  account initial here :=
    kept.queueAheadRemaining ▸ h.account initial (kept.queueAheadInitial ▸ here)
  bound initial here := h.bound initial (kept.queueAheadInitial ▸ here)

/-- Rebasing only ever puts more ahead. -/
theorem Queued.rebased (h : Queued rate volume made order) (seen : 0 ≤ volume) (positive : 0 < rate)
    {visible : ℚ} (nonneg : 0 ≤ visible) : Queued rate volume made (order.rebased visible) := by
  unfold Order.rebased
  cases here : order.queueAheadInitial with
  | none =>
    obtain rfl := h.unentered here
    refine ⟨nonneg, fun _ => rfl, fun _ => rfl, fun initial same => ?_, fun initial _ => ?_⟩
    · obtain rfl := Option.some.inj same
      rw [zero_div]
      linarith
    · exact mul_nonneg positive.le (le_max_left _ _)
  | some initial =>
    refine ⟨nonneg.trans (le_max_right _ _), fun _ => rfl, fun impossible => (nomatch impossible),
      fun other same => ?_, fun other same => h.bound other (here.trans same)⟩
    have before := h.account other (here.trans same)
    exact before.trans (by linarith [le_max_left order.queueAheadRemaining visible])

/-- A volume first goes to what is ahead, then, at the participation rate, to the order. -/
theorem Queued.served (h : Queued rate volume made order) (positive : 0 < rate) {size quantity : ℚ}
    (taken : quantity ≤ (size - min size order.queueAheadRemaining) * rate)
    (filled : 0 < quantity) (enters : order.queueAheadInitial.isSome)
    (after : Order) (ahead : after.queueAheadRemaining =
      order.queueAheadRemaining - min size order.queueAheadRemaining)
    (initial : after.queueAheadInitial = order.queueAheadInitial) :
    Queued rate (volume + size) (made + quantity) after := by
  -- Something was left of the volume, so nothing is left ahead.
  have through : min size order.queueAheadRemaining = order.queueAheadRemaining := by
    refine min_eq_right (le_of_not_ge fun le => ?_)
    rw [min_eq_left le, sub_self, zero_mul] at taken
    exact absurd filled (not_lt.mpr taken)
  rw [through] at taken
  rw [through, sub_self] at ahead
  have share : quantity / rate ≤ size - order.queueAheadRemaining := (div_le_iff₀ positive).mpr taken
  have account : ∀ start, after.queueAheadInitial = some start →
      start ≤ volume + size - (made + quantity) / rate := by
    intro start here
    have before := h.account start (initial ▸ here)
    rw [add_div]
    linarith
  refine ⟨ahead.ge, fun _ => initial ▸ enters, fun none => ?_, fun start here => ?_, fun start here => ?_⟩
  · rw [initial] at none
    rw [none] at enters
    cases enters
  · rw [ahead, zero_add]
    exact account start here
  · have bound : (made + quantity) / rate ≤ volume + size - start := by linarith [account start here]
    rw [div_le_iff₀ positive, mul_comm] at bound
    exact bound.trans (mul_le_mul_of_nonneg_left (le_max_right _ _) positive.le)

/-- A volume that does not get through the queue shortens it. -/
theorem Queued.shortened (h : Queued rate volume made order) {size : ℚ} (sized : 0 ≤ size)
    (positive : 0 < rate) :
    Queued rate (volume + size) made
      { order with queueAheadRemaining :=
          order.queueAheadRemaining - min size order.queueAheadRemaining } where
  ahead := sub_nonneg.mpr (min_le_right _ _)
  entered := h.entered
  unentered := h.unentered
  account initial here := by
    have before := h.account initial here
    have less := min_le_left size order.queueAheadRemaining
    dsimp only
    linarith
  bound := (h.mono positive (le_add_of_nonneg_right sized)).bound

end queued

/-- Every order within its limit, each in a queue that has let through no more than the volume it has
seen, and no more filled to makers in all than a total. -/
structure Queues (setup : Setup) (volume : ℕ → ℚ) (total : ℚ) (r : Replay) : Prop where
  deep : r.market.Deep setup.settings
  owned : ∀ fill ∈ r.fills, fill.orderId < r.orders.length
  limited : ∀ (id : ℕ) (order : Order), r.orders[id]? = some order → order.side = .buy → order.limitPrice.isSome
  within : ∀ fill ∈ r.fills, ∀ order : Order, r.orders[fill.orderId]? = some order → fill.side = order.side ∧
    (order.side = .buy → ∀ limit, order.limitPrice = some limit → fill.price ≤ limit)
  queued : ∀ (id : ℕ) (order : Order), r.orders[id]? = some order →
    Queued setup.assumptions.participationRate (volume id) (r.filled (madeBy id)) order
  spent : r.filled made ≤ total

section queues

variable {setup : Setup} {volume : ℕ → ℚ} {total : ℚ} {r : Replay}

theorem Queues.unaccounted : Unaccounted (Queues setup volume total) where
  clock _ _ _ _ _ h := ⟨h.deep, h.owned, h.limited, h.within, h.queued, h.spent⟩
  booked _ _ _ _ _ _ h := ⟨h.deep, h.owned, h.limited, h.within, h.queued, h.spent⟩
  fills r fills kept h := by
    have origin : ∀ fill ∈ fills, ∃ before ∈ r.fills, before.Kept fill := by
      intro fill member
      obtain ⟨index, here⟩ := List.mem_iff_getElem?.mp member
      obtain ⟨before, there, same⟩ := forall₂_getElem? kept here
      exact ⟨before, List.mem_of_getElem? there, same⟩
    refine ⟨h.deep, fun fill member => ?_, h.limited, fun fill member order here => ?_,
      fun id order here => ?_, (filled_kept made_blind kept).trans_le h.spent⟩
    · obtain ⟨before, there, same⟩ := origin fill member
      exact same.orderId ▸ h.owned before there
    · obtain ⟨before, there, same⟩ := origin fill member
      rw [same.side, same.price]
      exact h.within before there order (same.orderId ▸ here)
    · rw [filled_kept (madeBy_blind id) kept]
      exact h.queued id order here

theorem Queues.ordered (h : Queues setup volume total r) {orders : List Order}
    (kept : List.Forall₂ Order.Kept r.orders orders) : Queues setup volume total { r with orders } where
  deep := h.deep
  owned fill member := kept.length_eq ▸ h.owned fill member
  limited id order here bought := by
    obtain ⟨before, there, same⟩ := forall₂_getElem? kept here
    exact same.limitPrice ▸ h.limited id before there (same.side ▸ bought)
  within fill member order here := by
    obtain ⟨before, there, same⟩ := forall₂_getElem? kept here
    rw [same.side, same.limitPrice]
    exact h.within fill member before there
  queued id order here := by
    obtain ⟨before, there, same⟩ := forall₂_getElem? kept here
    exact (h.queued id before there).kept same
  spent := h.spent

theorem Queues.placed (h : Queues setup volume total r) {order : Order}
    (fresh : Order.Fresh r order) : Queues setup volume total { r with orders := r.orders ++ [order] } where
  deep := h.deep
  owned fill member := (h.owned fill member).trans_le (by simp)
  limited id other here bought := by
    rcases getElem?_appended here with old | ⟨-, rfl⟩
    · exact h.limited id other old bought
    · exact fresh.limited bought
  within fill member other here := by
    rcases getElem?_appended here with old | ⟨last, -⟩
    · exact h.within fill member other old
    · exact absurd last (h.owned fill member).ne
  queued id other here := by
    rcases getElem?_appended here with old | ⟨rfl, rfl⟩
    · exact h.queued id other old
    · have nothing : r.filled (madeBy r.orders.length) = 0 := by
        refine List.sum_eq_zero fun quantity member => ?_
        obtain ⟨fill, there, rfl⟩ := List.mem_map.mp member
        refine if_neg ?_
        simp [madeBy, (h.owned fill there).ne]
      change Queued _ _ (r.filled (madeBy r.orders.length)) _
      rw [nothing]
      refine ⟨fresh.queueAheadRemaining.ge, fun valid => ?_, fun _ => rfl, fun _ impossible => ?_,
        fun _ impossible => ?_⟩
      · rw [fresh.queueValid] at valid
        cases valid
      · rw [fresh.queueAheadInitial] at impossible
        cases impossible
      · rw [fresh.queueAheadInitial] at impossible
        cases impossible
  spent := h.spent

theorem visibleQueue_nonneg (deep : r.market.Deep setup.settings) (order : Order) :
    0 ≤ visibleQueue setup order r := by
  have level : 0 ≤ (((r.market.levels order.symbol .bid 2000).find? fun level =>
      order.limitPrice = some level.1).map Prod.snd).getD 0 := by
    cases found : (r.market.levels order.symbol .bid 2000).find? fun level =>
        order.limitPrice = some level.1 with
    | none => exact le_rfl
    | some level => exact (deep.displayed_level le_rfl (List.mem_of_find?_eq_some found)).2.2.le
  unfold visibleQueue
  refine mul_nonneg ?_ (zero_le_one.trans setup.assumptions.multiplierLe)
  split
  next =>
    split
    next => exact level.trans (le_max_left _ _)
    next => exact level
  next => exact level

theorem Order.rebased_same (order : Order) (visible : ℚ) :
    (order.rebased visible).side = order.side ∧ (order.rebased visible).limitPrice = order.limitPrice := by
  unfold Order.rebased
  split <;> exact ⟨rfl, rfl⟩

theorem Queues.rebased (h : Queues setup volume total r) (seen : ∀ id, 0 ≤ volume id) (id : ℕ) (order : Order) :
    Queues setup volume total
      { r with orders := r.orders.modify id fun o => o.rebased (visibleQueue setup order r) } where
  deep := h.deep
  owned fill member := by
    dsimp only
    rw [List.length_modify]
    exact h.owned fill member
  limited other after here bought := by
    obtain ⟨before, there, ⟨-, rfl⟩ | ⟨-, rfl⟩⟩ := getElem?_modified here
    · rw [(before.rebased_same _).2]
      exact h.limited other before there ((before.rebased_same _).1 ▸ bought)
    · exact h.limited other after there bought
  within fill member after here := by
    obtain ⟨before, there, ⟨-, rfl⟩ | ⟨-, rfl⟩⟩ := getElem?_modified here
    · rw [(before.rebased_same _).1, (before.rebased_same _).2]
      exact h.within fill member before there
    · exact h.within fill member after there
  queued other after here := by
    obtain ⟨before, there, ⟨-, rfl⟩ | ⟨-, rfl⟩⟩ := getElem?_modified here
    · exact (h.queued other before there).rebased (seen other) setup.assumptions.ratePositive
        (visibleQueue_nonneg h.deep order)
    · exact h.queued other after there
  spent := h.spent

theorem unreadable_deep {settings : Market.Settings} {market : Engine} (deep : market.Deep settings)
    (symbol : String) : (unreadable market symbol).Deep settings := by
  intro other state found
  rw [unreadable, Dict.get?_modify] at found
  split at found
  next =>
    obtain ⟨old, -, rfl⟩ := Option.map_eq_some_iff.mp found
    exact (Market.invalidate_cleared old _ _).book.deep
  next => exact deep other state found

theorem Queues.quiet (seen : ∀ id, 0 ≤ volume id) : Quiet setup (Queues setup volume total) where
  clock := Queues.unaccounted.clock
  fills := Queues.unaccounted.fills
  orders _ _ kept h := h.ordered kept
  placed _ _ fresh h := h.placed fresh
  rebased _ id order _ h := h.rebased seen id order
  inventory _ _ h := ⟨h.deep, h.owned, h.limited, h.within, h.queued, h.spent⟩
  marked _ _ _ _ _ _ h := ⟨h.deep, h.owned, h.limited, h.within, h.queued, h.spent⟩
  unreadable _ symbol h := ⟨unreadable_deep h.deep symbol, h.owned, h.limited, h.within, h.queued, h.spent⟩

/-- A fill changes neither what was ordered nor the queue. -/
structure Order.Unqueued (before after : Order) : Prop where
  side : after.side = before.side
  limitPrice : after.limitPrice = before.limitPrice
  queueAheadInitial : after.queueAheadInitial = before.queueAheadInitial
  queueAheadRemaining : after.queueAheadRemaining = before.queueAheadRemaining
  queueValid : after.queueValid = before.queueValid

theorem Order.filledBy_unqueued (order : Order) (index : ℕ) (quantity : ℚ) (nowNs : ℤ) :
    order.Unqueued (order.filledBy index quantity nowNs) := by
  unfold Order.filledBy
  dsimp only
  split <;> exact ⟨rfl, rfl, rfl, rfl, rfl⟩

theorem Queued.unqueued {rate seen filled : ℚ} {before after : Order}
    (h : Queued rate seen filled before) (same : before.Unqueued after) :
    Queued rate seen filled after where
  ahead := same.queueAheadRemaining ▸ h.ahead
  entered valid := same.queueAheadInitial ▸ h.entered (same.queueValid ▸ valid)
  unentered none := h.unentered (same.queueAheadInitial ▸ none)
  account initial here :=
    same.queueAheadRemaining ▸ h.account initial (same.queueAheadInitial ▸ here)
  bound initial here := h.bound initial (same.queueAheadInitial ▸ here)

theorem Queues.recorded (h : Queues setup volume total r) {id : ℕ} {order : Order} {quantity price : ℚ}
    {liquidity : Liquidity} (here : r.orders[id]? = some order) {fill : Fill}
    (of : fill.Of order id quantity price liquidity)
    (within : order.side = .buy → ∀ limit, order.limitPrice = some limit → price ≤ limit)
    (served : liquidity = .maker → Queued setup.assumptions.participationRate (volume id)
      (r.filled (madeBy id) + quantity) order ∧ r.filled made + quantity ≤ total) :
    Queues setup volume total (recordFill fill r) where
  deep := h.deep
  owned other member := by
    change other.orderId < (r.orders.modify _ _).length
    rw [List.length_modify]
    rcases List.mem_append.mp member with old | new
    · exact h.owned other old
    · obtain rfl := List.mem_singleton.mp new
      exact of.orderId ▸ (List.getElem?_eq_some_iff.mp here).1
  limited other after there bought := by
    obtain ⟨before, old, ⟨-, rfl⟩ | ⟨-, rfl⟩⟩ := getElem?_modified there
    · have same := before.filledBy_unqueued r.fills.length fill.quantity fill.filledAtNs
      exact same.limitPrice ▸ h.limited other before old (same.side ▸ bought)
    · exact h.limited other after old bought
  within other member after there := by
    obtain ⟨before, old, known⟩ := getElem?_modified there
    have same : before.Unqueued after := by
      rcases known with ⟨-, rfl⟩ | ⟨-, rfl⟩
      · exact before.filledBy_unqueued _ _ _
      · exact ⟨rfl, rfl, rfl, rfl, rfl⟩
    rw [same.side, same.limitPrice]
    rcases List.mem_append.mp member with earlier | new
    · exact h.within other earlier before old
    · obtain rfl := List.mem_singleton.mp new
      rw [of.orderId, here] at old
      obtain rfl := Option.some.inj old
      exact ⟨of.side, of.price ▸ within⟩
  queued other after there := by
    rw [filled_record]
    obtain ⟨before, old, ⟨own, rfl⟩ | ⟨apart, rfl⟩⟩ := getElem?_modified there
    · rw [of.orderId] at own
      subst own
      rw [here] at old
      obtain rfl := Option.some.inj old
      refine Queued.unqueued ?_ (order.filledBy_unqueued _ _ _)
      rw [madeBy, of.orderId, of.liquidity, of.quantity]
      cases liquidity with
      | maker => simpa using (served rfl).1
      | taker => simpa using h.queued id order here
    · have none : madeBy other fill = false := by simp [madeBy, apart]
      rw [none]
      simpa using h.queued other after old
  spent := by
    rw [filled_record, made, of.liquidity, of.quantity]
    cases liquidity with
    | maker => simpa using (served rfl).2
    | taker => simpa using h.spent

/-- Depth is taken within the limit, and as a taker. -/
theorem takeLevel_queues (id : ℕ) (quote : ScalpQuote) (level : ℚ × ℚ) :
    Keeps (Queues setup volume total) (takeLevel setup id quote level) := by
  refine Triple.bind (orderAt_reads id) fun order => ?_
  have done {value : Bool} : Triple (fun r => Queues setup volume total r ∧ r.orders[id]? = some order)
      (pure value : Action Bool) (fun _ => Queues setup volume total) fun _ => Queues setup volume total :=
    Triple.pure value fun r h => h.1
  refine Triple.ite (fun _ => done) fun _ => Triple.bind (Triple.view
    (Q := fun _ r => Queues setup volume total r ∧ r.orders[id]? = some order) fun r h => h) fun consumed => ?_
  refine Triple.ite (fun _ => done) fun allowed => Triple.ite (fun _ => ?_) fun _ => done
  refine Triple.bind (Q := fun _ r => Queues setup volume total r ∧ r.orders[id]? = some order)
    (Triple.modify fun r h => ⟨⟨h.1.deep, h.1.owned, h.1.limited, h.1.within, h.1.queued, h.1.spent⟩, h.2⟩) fun _ => ?_
  refine Triple.bind (Queues.unaccounted.fill (fun r h => h.1) fun r other fill h here _ of => ?_)
    fun _ => Keeps.bind (orderAt_keeps id) fun _ => .pure _
  rw [h.2] at here
  obtain rfl := Option.some.inj here
  refine h.1.recorded h.2 of (fun _ limit same => ?_) fun impossible => nomatch impossible
  unfold Order.forbids at allowed
  rw [same] at allowed
  simpa using allowed

theorem Queues.stable (seen : ∀ id, 0 ≤ volume id) : Stable setup (Queues setup volume total) :=
  { Queues.quiet seen with taken := fun id => (Queues.quiet seen).takeLiquidity id (takeLevel_queues id) }

end queues

end TradeAgent.Simulation
