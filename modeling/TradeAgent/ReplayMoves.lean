import TradeAgent.ScalpReplay

/-! What the replay's actions change between two fills: a property that survives these changes and
what is taken from a level survives every timer. -/
namespace TradeAgent.Simulation

open Market (MarketEvent ScalpQuote)
open Procedure (Keeps Triple)

/-- What was ordered and filled is the same, and so is the place in the queue. -/
structure Order.Kept (before after : Order) : Prop where
  orderId : after.orderId = before.orderId
  symbol : after.symbol = before.symbol
  side : after.side = before.side
  quantity : after.quantity = before.quantity
  limitPrice : after.limitPrice = before.limitPrice
  filledQuantity : after.filledQuantity = before.filledQuantity
  fills : after.fills = before.fills
  queueAheadInitial : after.queueAheadInitial = before.queueAheadInitial
  queueAheadRemaining : after.queueAheadRemaining = before.queueAheadRemaining
  queueValid : after.queueValid = true → before.queueValid = true

theorem Order.Kept.refl (order : Order) : order.Kept order :=
  ⟨rfl, rfl, rfl, rfl, rfl, rfl, rfl, rfl, rfl, fun valid => valid⟩

/-- The execution is the same; what is known or marked of it may differ. -/
structure Fill.Kept (before after : Fill) : Prop where
  orderId : after.orderId = before.orderId
  symbol : after.symbol = before.symbol
  side : after.side = before.side
  quantity : after.quantity = before.quantity
  price : after.price = before.price
  liquidity : after.liquidity = before.liquidity
  baseFeeQuantity : after.baseFeeQuantity = before.baseFeeQuantity
  filledAtNs : after.filledAtNs = before.filledAtNs

theorem Fill.Kept.refl (fill : Fill) : fill.Kept fill := ⟨rfl, rfl, rfl, rfl, rfl, rfl, rfl, rfl⟩

theorem forall₂_modify {α : Type} {R : α → α → Prop} (refl : ∀ a, R a a) {change : α → α}
    (changed : ∀ a, R a (change a)) (l : List α) (index : ℕ) :
    List.Forall₂ R l (l.modify index change) := by
  induction l generalizing index with
  | nil => simp
  | cons a rest ih =>
    cases index with
    | zero => exact .cons (changed a) (List.forall₂_same.mpr fun b _ => refl b)
    | succ index => exact .cons (refl a) (ih index)

theorem forall₂_map {α : Type} {R : α → α → Prop} {change : α → α} (changed : ∀ a, R a (change a))
    (l : List α) : List.Forall₂ R l (l.map change) :=
  List.forall₂_map_right_iff.mpr (List.forall₂_same.mpr fun a _ => changed a)

theorem forall₂_getElem? {α : Type} {R : α → α → Prop} {l l' : List α} (related : List.Forall₂ R l l')
    {index : ℕ} {b : α} (here : l'[index]? = some b) : ∃ a, l[index]? = some a ∧ R a b := by
  induction related generalizing index with
  | nil => simp at here
  | @cons a _ _ _ same _ ih =>
    cases index with
    | zero =>
      obtain rfl := Option.some.inj here
      exact ⟨a, rfl, same⟩
    | succ index => exact ih here

theorem getElem?_modified {α : Type} {l : List α} {change : α → α} {index other : ℕ} {b : α}
    (here : (l.modify index change)[other]? = some b) :
    ∃ a, l[other]? = some a ∧ (index = other ∧ b = change a ∨ index ≠ other ∧ b = a) := by
  rw [List.getElem?_modify] at here
  obtain ⟨a, there, rfl⟩ := Option.map_eq_some_iff.mp here
  refine ⟨a, there, ?_⟩
  by_cases same : index = other
  · exact .inl ⟨same, if_pos same⟩
  · exact .inr ⟨same, if_neg same⟩

theorem getElem?_appended {α : Type} {l : List α} {a b : α} {index : ℕ}
    (here : (l ++ [a])[index]? = some b) : l[index]? = some b ∨ index = l.length ∧ b = a := by
  rcases lt_trichotomy index l.length with inside | rfl | outside
  · exact .inl (List.getElem?_append_left inside ▸ here)
  · rw [List.getElem?_concat_length] at here
    exact .inr ⟨rfl, (Option.some.inj here).symm⟩
  · rw [List.getElem?_eq_none (by rw [List.length_append]; exact outside)] at here
    cases here

/-- A new order has done nothing yet. -/
structure Order.Fresh (r : Replay) (order : Order) : Prop where
  orderId : order.orderId = r.orders.length
  filledQuantity : order.filledQuantity = 0
  fills : order.fills = []
  queueAheadInitial : order.queueAheadInitial = none
  queueAheadRemaining : order.queueAheadRemaining = 0
  queueValid : order.queueValid = false
  limited : order.side = .buy → order.limitPrice.isSome

/-- Survives all that happens between fills, the market aside. -/
structure Still (setup : Setup) (I : Replay → Prop) : Prop where
  clock : ∀ r timers timerSequence nowNs startNs, I r →
    I { r with timers, timerSequence, nowNs, startNs }
  orders : ∀ r orders, List.Forall₂ Order.Kept r.orders orders → I r → I { r with orders }
  placed : ∀ r order, Order.Fresh r order → I r → I { r with orders := r.orders ++ [order] }
  rebased : ∀ r id order, r.orders[id]? = some order → I r →
    I { r with orders := r.orders.modify id fun o => o.rebased (visibleQueue setup order r) }
  fills : ∀ r fills, List.Forall₂ Fill.Kept r.fills fills → I r → I { r with fills }
  inventory : ∀ r reportedPositions, I r → I { r with reportedPositions }
  marked : ∀ r symbol position maeBps mfeBps, r.positions.get? symbol = some position → I r →
    I { r with positions := r.positions.set symbol { position with maeBps, mfeBps } }

/-- Survives all that happens between fills. -/
structure Quiet (setup : Setup) (I : Replay → Prop) : Prop extends Still setup I where
  unreadable : ∀ r symbol, I r → I { r with market := unreadable r.market symbol }

/-- Survives what an arriving order takes, too. -/
structure Stable (setup : Setup) (I : Replay → Prop) : Prop extends Quiet setup I where
  taken : ∀ id, Keeps I (takeLiquidity setup id)

section reading

variable {I : Replay → Prop}

theorem orderAt_reads (id : ℕ) :
    Triple I (orderAt id) (fun order r => I r ∧ r.orders[id]? = some order) fun _ => I := by
  refine Triple.bindView fun order => ?_
  cases order with
  | none => exact Triple.raise fun r holds => holds.1
  | some order => exact Triple.pure order fun r holds => holds

theorem orderAt_keeps (id : ℕ) : Keeps I (orderAt id) := (orderAt_reads id).post fun _ _ h => h.1

theorem fillAt_reads (index : ℕ) :
    Triple I (fillAt index) (fun fill r => I r ∧ r.fills[index]? = some fill) fun _ => I := by
  refine Triple.bindView fun fill => ?_
  cases fill with
  | none => exact Triple.raise fun r holds => holds.1
  | some fill => exact Triple.pure fill fun r holds => holds

theorem fillAt_keeps (index : ℕ) : Keeps I (fillAt index) := (fillAt_reads index).post fun _ _ h => h.1

end reading

namespace Still

variable {setup : Setup} {env : Environment} {I : Replay → Prop}

theorem schedule (h : Still setup I) (atNs : ℤ) (kind : Kind) : Keeps I (schedule atNs kind) :=
  .bind (.view _) fun _ => .ite (fun _ => .raise _) fun _ =>
    .modify fun r holds => h.clock r _ _ r.nowNs r.startNs holds

theorem modifyOrder (h : Still setup I) (id : ℕ) {change : Order → Order}
    (changed : ∀ order : Order, order.Kept (change order)) : Keeps I (modifyOrder id change) :=
  .modify fun r holds => h.orders r _ (forall₂_modify .refl changed r.orders id) holds

theorem reject (h : Still setup I) (id : ℕ) (reason : String) : Keeps I (reject id reason) :=
  .bind (.view _) fun _ => h.modifyOrder id fun _ => ⟨rfl, rfl, rfl, rfl, rfl, rfl, rfl, rfl, rfl, fun valid => valid⟩

theorem release (h : Still setup I) (id : ℕ) : Keeps I (release id) := by
  refine .modify fun r holds => h.orders r _ (forall₂_modify .refl (fun order => ?_) r.orders id) holds
  split
  next => exact ⟨rfl, rfl, rfl, rfl, rfl, rfl, rfl, rfl, rfl, fun valid => valid⟩
  next => exact .refl order

theorem cancel (h : Still setup I) (id : ℕ) (reason : String) : Keeps I (cancel setup id reason) := by
  refine .bind (orderAt_keeps id) fun order => .ite (fun _ => .pure ()) fun _ => .bind (.view _) fun nowNs => ?_
  refine .bind (h.modifyOrder id fun _ => ⟨rfl, rfl, rfl, rfl, rfl, rfl, rfl, rfl, rfl, fun valid => valid⟩) fun _ => ?_
  exact .ite (fun _ => h.modifyOrder id fun _ => ⟨rfl, rfl, rfl, rfl, rfl, rfl, rfl, rfl, rfl, fun valid => valid⟩)
    fun _ => h.schedule _ _

theorem rebaseQueue (h : Still setup I) (id : ℕ) : Keeps I (rebaseQueue setup id) :=
  Triple.bind (orderAt_reads id) fun order => Triple.bindView fun visible => Triple.modify fun r holds => by
    obtain ⟨⟨kept, here⟩, rfl⟩ := holds
    exact h.rebased r id order here kept

theorem restRemainder (h : Still setup I) (id : ℕ) : Keeps I (restRemainder setup id) := by
  refine .bind (orderAt_keeps id) fun order => .ite (fun _ => .pure ()) fun _ => .ite (fun _ => ?_) fun _ => ?_
  · exact .bind (h.modifyOrder id fun _ => ⟨rfl, rfl, rfl, rfl, rfl, rfl, rfl, rfl, rfl, fun valid => valid⟩)
      fun _ => h.rebaseQueue id
  · exact .bind (.view _) fun _ =>
      h.modifyOrder id fun _ => ⟨rfl, rfl, rfl, rfl, rfl, rfl, rfl, rfl, rfl, fun valid => valid⟩

/-- An order takes one level after another. -/
theorem takeLiquidity (h : Still setup I) (id : ℕ)
    (levels : ∀ quote level, Keeps I (takeLevel setup id quote level)) :
    Keeps I (takeLiquidity setup id) := by
  refine .bind (orderAt_keeps id) fun order => .bind (.view _) fun quote => ?_
  cases quote with
  | none => exact h.reject id _
  | some quote =>
    exact .bind (.view _) fun shown => .bind (.whileEach (levels quote) shown) fun _ => h.restRemainder id

theorem markFill (h : Still setup I) (index : ℕ) {change : Fill → Fill}
    (changed : ∀ fill : Fill, fill.Kept (change fill)) :
    Keeps I (Procedure.modify fun r => { r with fills := r.fills.modify index change } : Action Unit) :=
  .modify fun r holds => h.fills r _ (forall₂_modify .refl changed r.fills index) holds

theorem observeMarkouts (h : Still setup I) (symbol : String) :
    Keeps I (observeMarkouts setup symbol) := by
  refine .bind (.view _) fun quote => ?_
  cases quote with
  | none => exact .pure ()
  | some quote =>
    refine .bind (.view _) fun fills => .bind (.forEach (fun index => ?_) _) fun _ => ?_
    · exact .bind (fillAt_keeps index) fun fill => .ite (fun _ => .pure ()) fun _ => .bind (.lift _)
        fun ratio => h.markFill index fun _ => ⟨rfl, rfl, rfl, rfl, rfl, rfl, rfl, rfl⟩
    · refine Triple.bindView fun position => ?_
      cases position with
      | none => exact Triple.pure () fun r holds => holds.1
      | some position =>
        refine Triple.ite (fun _ => Triple.pure () fun r holds => holds.1) fun _ => ?_
        have lifted {α : Type} (x : Except Fault α) :
            Triple (fun r => I r ∧ r.positions.get? symbol = some position)
              (Procedure.lift x : Action α)
              (fun _ r => I r ∧ r.positions.get? symbol = some position) fun _ => I :=
          Triple.lift (fun r holds _ _ => holds) fun r holds _ _ => holds.1
        exact (lifted _).bind fun vwap => (lifted _).bind fun ratio =>
          Triple.modify fun r holds => h.marked r symbol position _ _ holds.2 holds.1

theorem checkQueues (h : Still setup I) (event : MarketEvent) : Keeps I (checkQueues event) := by
  have cleared : Keeps I (invalidateQueues event.symbol) := by
    refine .modify fun r holds => h.orders r _ (forall₂_map (fun order => ?_) r.orders) holds
    split
    next => exact ⟨rfl, rfl, rfl, rfl, rfl, rfl, rfl, rfl, rfl, fun impossible => nomatch impossible⟩
    next => exact .refl order
  refine .bind (.view _) fun market => ?_
  split
  next => exact cleared
  next => exact .raise _
  next => exact .ite (fun _ => cleared) fun _ => .pure ()

theorem rebaseAfter (h : Still setup I) (event : MarketEvent) (reset : Bool) (id : ℕ) :
    Keeps I (rebaseAfter setup event reset id) :=
  .bind (orderAt_keeps id) fun _ => .bind (.view _) fun _ => .ite (fun _ => h.rebaseQueue id) fun _ => .pure ()

end Still

namespace Stable

variable {setup : Setup} {env : Environment} {I : Replay → Prop}

theorem arrive (h : Stable setup I) (id : ℕ) : Keeps I (arrive setup id) := by
  refine .bind (.view _) fun nowNs => .bind (h.modifyOrder id fun _ =>
    ⟨rfl, rfl, rfl, rfl, rfl, rfl, rfl, rfl, rfl, fun valid => valid⟩) fun _ => ?_
  refine .bind (h.schedule _ _) fun _ => .bind (orderAt_keeps id) fun order => .bind (.view _) fun quote => ?_
  cases quote with
  | none => exact h.reject id _
  | some quote =>
    refine .bind (h.modifyOrder id fun _ =>
      ⟨rfl, rfl, rfl, rfl, rfl, rfl, rfl, rfl, rfl, fun valid => valid⟩) fun _ => ?_
    refine .bind (.view _) fun oversold => .ite (fun _ => h.reject id _) fun _ => .ite (fun _ => ?_)
      fun _ => h.taken id
    exact .bind (h.modifyOrder id fun _ =>
      ⟨rfl, rfl, rfl, rfl, rfl, rfl, rfl, rfl, rfl, fun valid => valid⟩) fun _ => h.rebaseQueue id

theorem reportFill (h : Stable setup I) (index : ℕ) : Keeps I (reportFill setup index) := by
  refine .bind (fillAt_keeps index) fun fill => .bind (.modify fun r holds => ?_) fun _ => ?_
  · exact h.fills r _ (forall₂_modify .refl
      (fun _ => ⟨rfl, rfl, rfl, rfl, rfl, rfl, rfl, rfl⟩) r.fills index) holds
  · refine .bind ?_ fun _ => h.release fill.orderId
    unfold reportInventory
    cases fill.side with
    | buy =>
      exact .bind (orderAt_keeps _) fun _ => .bind (.view _) fun _ => .bind (.lift _) fun _ =>
        .modify fun r holds => h.inventory r _ holds
    | sell =>
      refine .bind (.view _) fun _ => .bind (.lift _) fun inventory => ?_
      cases inventory with
      | none => exact .modify fun r holds => h.inventory r _ holds
      | some inventory => exact .modify fun r holds => h.inventory r _ holds

theorem sampleMarkout (h : Stable setup I) (index : ℕ) (horizon : ℤ) :
    Keeps I (sampleMarkout setup index horizon) := by
  refine .bind (fillAt_keeps index) fun fill => .bind (.view _) fun quote => ?_
  cases quote with
  | none => exact .pure ()
  | some quote =>
    exact .ite (fun _ => .pure ()) fun _ => .bind (.lift _) fun ratio =>
      h.markFill index fun _ => ⟨rfl, rfl, rfl, rfl, rfl, rfl, rfl, rfl⟩

theorem features (h : Stable setup I) (symbol : String) : Keeps I (features setup env symbol) := by
  refine .bind (.view _) fun r => ?_
  dsimp only
  split
  next => exact .pure none
  next quote _ =>
    refine .ite (fun _ => .pure none) fun _ => ?_
    split
    next => exact .pure none
    next => exact .bind (.modify fun r holds => h.unreadable r symbol holds) fun _ => .pure none
    next => exact .pure _

theorem sizing_limited {signal : ScalpSignal} {owned : Option ScalpInventory} {sized : Side × ℚ × Option ℚ}
    (made : sizing setup signal owned = .ok sized) : sized.1 = .buy → sized.2.2.isSome := by
  unfold sizing at made
  split at made
  next =>
    obtain ⟨quantity, -, same⟩ := bind_ok_iff.mp made
    obtain rfl := Except.ok.inj same
    exact fun _ => rfl
  next =>
    split at made
    next => cases made
    next =>
      split at made
      next => cases made
      next =>
        obtain rfl := Except.ok.inj made
        exact fun impossible => nomatch impossible

theorem place (h : Stable setup I) (symbol : String) (signal : ScalpSignal) :
    Keeps I (place setup symbol signal) := by
  refine .bind (.view _) fun owned => Triple.bind (Q := fun sized r => I r ∧
    (sized.1 = .buy → sized.2.2.isSome)) (Triple.lift (fun r holds sized made =>
      ⟨holds, sizing_limited made⟩) fun r holds _ _ => holds) fun sized => ?_
  refine Triple.given fun limited => Keeps.bind (.view _) fun nowNs => ?_
  refine Triple.bindView fun id => ?_
  refine Triple.bind (Q := fun _ => I) (Triple.modify fun r holds => ?_) fun _ => ?_
  · exact h.placed r _ ⟨holds.2.symm, rfl, rfl, rfl, rfl, rfl, limited⟩ holds.1
  · exact Keeps.bind (h.schedule _ _) fun _ => .ite (fun _ => h.schedule _ _) fun _ => .pure ()

theorem cancelBuy (h : Stable setup I) (active : Option Order) (reason : String) :
    Keeps I (cancelBuy setup active reason) := by
  cases active with
  | none => exact .pure ()
  | some order => exact .ite (fun _ => h.cancel _ _) fun _ => .pure ()

theorem decideSymbol (h : Stable setup I) (symbol : String) : Keeps I (decideSymbol setup env symbol) := by
  refine .bind (.view _) fun active => .bind (h.features symbol) fun features => ?_
  cases features with
  | none => exact h.cancelBuy _ _
  | some features =>
    refine .bind (.view _) fun r => .bind (.lift _) fun signal => .ite (fun _ => ?_) fun _ => ?_
    · exact .ite (fun _ => h.cancelBuy _ _) fun _ => .pure ()
    · exact .ite (fun _ => .pure ()) fun _ => h.place symbol signal

theorem send (h : Stable setup I) (id : ℕ) : Keeps I (send setup env id) := by
  refine .bind (orderAt_keeps id) fun order => .bind (.view _) fun nowNs => .ite (fun _ => .pure ()) fun _ => ?_
  refine .bind (.view _) fun fenced => .ite (fun _ => ?_) fun _ => ?_
  · exact h.modifyOrder id fun _ =>
      ⟨rfl, rfl, rfl, rfl, rfl, rfl, rfl, rfl, rfl, fun valid => valid⟩
  · exact .bind (h.modifyOrder id fun _ =>
      ⟨rfl, rfl, rfl, rfl, rfl, rfl, rfl, rfl, rfl, fun valid => valid⟩) fun _ => h.schedule _ _

theorem cancelArrival (h : Stable setup I) (id : ℕ) : Keeps I (cancelArrival setup id) := by
  refine .bind (.view _) fun nowNs => .bind (h.modifyOrder id fun order => ?_) fun _ => h.schedule _ _
  dsimp only
  split <;> exact ⟨rfl, rfl, rfl, rfl, rfl, rfl, rfl, rfl, rfl, fun valid => valid⟩

theorem acknowledged (h : Stable setup I) (id : ℕ) {change : Replay → Order → Order}
    (changed : ∀ r (order : Order), order.Kept (change r order)) :
    Keeps I (do
      Procedure.modify fun r => { r with orders := r.orders.modify id (change r) }
      TradeAgent.Simulation.release id : Action Unit) :=
  .bind (.modify fun r holds => h.orders r _ (forall₂_modify .refl (changed r) r.orders id) holds)
    fun _ => h.release id

theorem timer (h : Stable setup I) (kind : Kind) : Keeps I (timer setup env kind) := by
  cases kind with
  | decision =>
    exact .bind (.forEach (fun symbol => h.decideSymbol symbol) _) fun _ => .bind (.view _) fun _ =>
      h.schedule _ _
  | send id => exact h.send id
  | arrival id => exact .bind (orderAt_keeps id) fun _ => .ite (fun _ => .pure ()) fun _ => h.arrive id
  | ack id => exact h.acknowledged id fun _ _ =>
      ⟨rfl, rfl, rfl, rfl, rfl, rfl, rfl, rfl, rfl, fun valid => valid⟩
  | fillReport index => exact h.reportFill index
  | markout index horizon => exact h.sampleMarkout index horizon
  | expiry id => exact h.cancel id _
  | cancelArrival id => exact h.cancelArrival id
  | cancelAck id => exact h.acknowledged id fun _ _ =>
      ⟨rfl, rfl, rfl, rfl, rfl, rfl, rfl, rfl, rfl, fun valid => valid⟩

theorem popped (h : Stable setup I) (due : Timer) (rest : List Timer) :
    Keeps I (popped setup env due rest) :=
  .bind (.modify fun r holds => h.clock r _ _ _ r.startNs holds) fun _ => h.timer due.kind

theorem start (h : Stable setup I) (receivedNs : ℤ) : Keeps I (start receivedNs) :=
  .bind (.view _) fun _ => .ite (fun _ => .pure ()) fun _ =>
    .bind (.modify fun r holds => h.clock r r.timers r.timerSequence _ _ holds) fun _ => h.schedule _ _

/-- A trade goes from one order to the next. -/
theorem passiveTrade_keeps {event : MarketEvent} {price : ℚ}
    (passive : ∀ volume id, Keeps I (passiveOrder setup event price volume id)) (quantity : ℚ)
    (takerSide : Option Market.TakerSide) : Keeps I (passiveTrade setup event price quantity takerSide) := by
  have orders (ids : List ℕ) : ∀ volume, Keeps I (passiveOrders setup event price ids volume) := by
    induction ids with
    | nil => exact fun _ => .pure ()
    | cons id rest ih =>
      exact fun volume => .bind (passive volume id) fun left => .ite (fun _ => .pure ()) fun _ => ih left
  exact .bind (.view _) fun quote => .ite (fun _ => .pure ()) fun _ => .bind (.view _) fun count =>
    orders _ quantity

/-- Survives records too, where the market itself is no part of it. -/
theorem marketEvent (h : Stable setup I) (market : ∀ r market, I r → I { r with market })
    (synced : ∀ r consumedDepth, I r → I { r with consumedDepth })
    (passive : ∀ event price volume id, Keeps I (passiveOrder setup event price volume id))
    (event : MarketEvent) : Keeps I (marketEvent setup env event) := by
  refine .bind (.view _) fun answer => .bind (.modify fun r holds => market r _ holds) fun _ => ?_
  refine .bind (h.checkQueues event) fun _ => .ite (fun _ => .pure ()) fun _ => ?_
  refine .bind ?_ fun _ => h.observeMarkouts event.symbol
  unfold applyContent
  split
  next reset _ =>
    exact .bind (.modify fun r holds => synced r _ holds) fun _ => .bind (.view _) fun orders =>
      .forEach (fun id => h.rebaseAfter event reset id) _
  next price quantity _ takerSide _ _ _ =>
    exact passiveTrade_keeps (fun volume id => passive event price volume id) quantity takerSide
  next => exact .pure ()
  next => exact .pure ()

end Stable

namespace Run

variable {setup : Setup} {env : Environment} {I : Replay → Prop}

theorem perform_replay {α : Type} (run : Run) {action : Action α} (keeps : Keeps I action)
    (holds : I run.replay) (tape : List MarketEvent) (phase : α → Phase) :
    I (run.perform action tape phase).replay := by
  have kept := keeps.after holds
  unfold perform
  split
  next ran =>
    rw [ran] at kept
    exact kept
  next ran =>
    rw [ran] at kept
    exact kept

theorem drain_replay (h : Stable setup I) (run : Run) (holds : I run.replay) (due : Timer → Bool)
    (untilNs : ℤ) (onward : Phase) : I (run.drain setup env due untilNs onward).replay := by
  have clock : I { run.replay with nowNs := untilNs } :=
    h.clock run.replay run.replay.timers run.replay.timerSequence untilNs run.replay.startNs holds
  unfold drain
  split
  next => exact clock
  next first rest _ =>
    split
    next => exact run.perform_replay (h.popped first rest) holds run.tape _
    next => exact clock

/-- The record that the next step takes from the tape, where it takes one. -/
def record (run : Run) : Option MarketEvent :=
  match run.phase, run.tape with
  | .records receivedNs, event :: _ => if event.receivedAtNs = receivedNs then some event else none
  | _, _ => none

theorem step_record {run : Run} {event : MarketEvent} (taken : run.record = some event) :
    (run.step setup env).replay = (marketEvent setup env event run.replay).2 := by
  unfold record at taken
  split at taken
  next receivedNs first rest phase tape =>
    split at taken
    next now =>
      obtain rfl := Option.some.inj taken
      unfold step
      rw [phase, tape]
      dsimp only
      rw [if_pos now]
      unfold perform
      split
      next ran => rw [ran]
      next ran => rw [ran]
    next => cases taken
  next => cases taken

/-- Between records only timers act. -/
theorem step_unrecorded (h : Stable setup I) {run : Run} (none : run.record = none) (holds : I run.replay) :
    I (run.step setup env).replay := by
  unfold step
  split
  next =>
    split
    next => exact run.perform_replay (.bind (.view _) fun _ => .lift _) holds [] _
    next event _ _ => exact run.perform_replay (h.start event.receivedAtNs) holds run.tape _
  next receivedNs _ => exact drain_replay h run holds _ receivedNs _
  next receivedNs phase =>
    split
    next event rest tape =>
      split
      next now =>
        unfold record at none
        rw [phase, tape] at none
        dsimp only at none
        rw [if_pos now] at none
        cases none
      next => exact holds
    next => exact holds
  next receivedNs _ => exact drain_replay h run holds _ receivedNs _
  next => exact holds
  next => exact holds

theorem step_replay (h : Stable setup I) (events : ∀ event, Keeps I (marketEvent setup env event))
    (run : Run) (holds : I run.replay) : I (run.step setup env).replay := by
  cases taken : run.record with
  | none => exact step_unrecorded h taken holds
  | some event => exact step_record taken ▸ (events event).after holds

theorem after_succ (tape : List MarketEvent) (steps : ℕ) :
    after setup env tape (steps + 1) = (after setup env tape steps).step setup env :=
  Function.iterate_succ_apply' ..

/-- What every timer and every record preserves holds all along a replay. -/
theorem after_replay (h : Stable setup I) (events : ∀ event, Keeps I (marketEvent setup env event))
    {tape : List MarketEvent} (initial : I (ofTape setup tape).replay) (steps : ℕ) :
    I (after setup env tape steps).replay := by
  induction steps with
  | zero => exact initial
  | succ steps ih =>
    rw [after_succ]
    exact step_replay h events _ ih

end Run

end TradeAgent.Simulation
