import Mathlib.Algebra.BigOperators.Group.Finset.Basic
import Mathlib.Algebra.Order.BigOperators.Group.Finset
import TradeAgent.FeatureTrades
import TradeAgent.ReplayDepth

/-! Fills over a whole replay. What a level gives is brought up to date by the symbol's own book events
only, so that no window in which it shows the same gives more than its share of it. -/
namespace TradeAgent.Simulation

open Market (MarketEvent ScalpQuote Engine)
open Procedure (Keeps Triple Leaves)

section syncing

variable {setup : Setup} {env : Environment} {key : DepthKey} {tracked : Prop} {base cap : ℚ} {r : Replay}
  {symbol : String} {event : MarketEvent}

/-- One binding brought up to date with what the levels show. -/
def current (setup : Setup) (symbol : String) (r : Replay) (consumed : Dict DepthKey ℚ)
    (entry : DepthKey × ℚ) : Dict DepthKey ℚ :=
  if entry.1.symbol ≠ symbol then consumed
  else match ((r.market.levels symbol entry.1.side 2000).find? fun level =>
      level.1 = entry.1.price).map fun level => level.2 * setup.assumptions.participationRate with
    | none => consumed.erase entry.1
    | some shown => consumed.set entry.1 (min entry.2 shown)

theorem current_other (setup : Setup) (symbol : String) (r : Replay) (consumed : Dict DepthKey ℚ)
    (entry : DepthKey × ℚ) (other : DepthKey) (apart : entry.1 ≠ other) :
    (current setup symbol r consumed entry).get? other = consumed.get? other := by
  unfold current
  split
  next => rfl
  next =>
    split
    next => rw [Dict.get?_erase, if_neg apart]
    next => rw [Dict.get?_set, if_neg apart]

theorem syncDepth_entries : (syncDepth setup symbol r).2.consumedDepth =
    r.consumedDepth.entries.foldl (current setup symbol r) r.consumedDepth := rfl

/-- The depth of other symbols stays as it is. -/
theorem syncDepth_apart (apart : key.symbol ≠ symbol) :
    (syncDepth setup symbol r).2.consumedDepth.getD key 0 = r.consumedDepth.getD key 0 := by
  rw [syncDepth_entries]
  unfold Dict.getD
  rcases Dict.get?_foldl (current_other setup symbol r) r.consumedDepth.distinct r.consumedDepth key with
    ⟨-, same⟩ | ⟨value, before, -, earlier, last⟩
  · rw [same]
  · rw [last, current, if_pos apart, earlier]

/-- What of a level is consumed once its symbol's depth is brought up to date. -/
theorem syncDepth_own (deep : r.market.Deep setup.settings) (nonneg : 0 ≤ r.consumedDepth.getD key 0) :
    (syncDepth setup key.symbol r).2.consumedDepth.getD key 0 = min (r.consumedDepth.getD key 0)
      (setup.assumptions.participationRate * r.market.displayed key.symbol key.side key.price) := by
  have share : 0 ≤ setup.assumptions.participationRate *
      r.market.displayed key.symbol key.side key.price :=
    mul_nonneg setup.assumptions.ratePositive.le deep.displayed_nonneg
  have level : (((r.market.levels key.symbol key.side 2000).find? fun level =>
      level.1 = key.price).map Prod.snd).getD 0 = r.market.displayed key.symbol key.side key.price :=
    deep.find_level le_rfl
  rw [syncDepth_entries]
  unfold Dict.getD at nonneg ⊢
  rcases Dict.get?_foldl (current_other setup key.symbol r) r.consumedDepth.distinct r.consumedDepth key with
    ⟨absent, same⟩ | ⟨value, before, member, -, last⟩
  · rw [same, Dict.get?_none_iff.mpr absent]
    exact (min_eq_left share).symm
  · rw [Dict.mem_entries.mp member] at nonneg ⊢
    rw [last, current, if_neg (not_not.mpr rfl)]
    cases found : (r.market.levels key.symbol key.side 2000).find? fun level => level.1 = key.price with
    | none =>
      rw [found] at level
      simp only [Option.map_none, Dict.get?_erase, if_true, Option.getD_some, Option.getD_none] at level nonneg ⊢
      rw [← level, mul_zero, min_eq_right nonneg]
    | some shown =>
      rw [found] at level
      simp only [Option.map_some, Dict.get?_set, if_true, Option.getD_some] at level ⊢
      rw [← level, mul_comm]

/-- The consumption is within what another market shows, once brought up to date with it. -/
theorem Drawn.renewed (h : Drawn setup key tracked base cap r) {market : Engine}
    (deep : market.Deep setup.settings) (valid : market.bookValid key.symbol = true)
    (shown : tracked → market.bookValid key.symbol = true → setup.assumptions.participationRate *
      market.displayed key.symbol key.side key.price = cap) :
    Drawn setup key tracked base cap (syncDepth setup key.symbol { r with market }).2 := by
  have consumed := @syncDepth_own setup key { r with market } deep h.nonneg
  have share : 0 ≤ setup.assumptions.participationRate *
      market.displayed key.symbol key.side key.price :=
    mul_nonneg setup.assumptions.ratePositive.le deep.displayed_nonneg
  refine ⟨deep, ?_, fun _ => ?_, shown, fun t => ?_, h.bound⟩
  · rw [consumed]
    exact le_min h.nonneg share
  · rw [consumed]
    exact min_le_right _ _
  · rw [consumed]
    exact le_min (h.drawn t) ((h.bound t).trans (shown t valid).ge)

/-- Orders and what is known of fills have no part in bringing the depth up to date. -/
theorem Drawn.synced : Still setup fun r => Drawn setup key tracked base cap (syncDepth setup key.symbol r).2 where
  clock r timers timerSequence nowNs startNs h :=
    Drawn.quiet.clock (syncDepth setup key.symbol r).2 timers timerSequence nowNs startNs h
  orders r orders kept h := Drawn.quiet.orders (syncDepth setup key.symbol r).2 orders kept h
  placed r order fresh h := Drawn.quiet.placed (syncDepth setup key.symbol r).2 order
    ⟨fresh.orderId, fresh.filledQuantity, fresh.fills, fresh.queueAheadInitial,
      fresh.queueAheadRemaining, fresh.queueValid, fresh.limited⟩ h
  rebased r id order here h := Drawn.quiet.rebased (syncDepth setup key.symbol r).2 id order here h
  fills r fills kept h := Drawn.quiet.fills (syncDepth setup key.symbol r).2 fills kept h
  inventory r inventory h := Drawn.quiet.inventory (syncDepth setup key.symbol r).2 inventory h
  marked r symbol position maeBps mfeBps here h :=
    Drawn.quiet.marked (syncDepth setup key.symbol r).2 symbol position maeBps mfeBps here h

/-- The depth of another symbol brought up to date. -/
theorem Drawn.apart (h : Drawn setup key tracked base cap r) (apart : key.symbol ≠ symbol) :
    Drawn setup key tracked base cap (syncDepth setup symbol r).2 := by
  have same : (syncDepth setup symbol r).2.consumedDepth.getD key 0 = r.consumedDepth.getD key 0 :=
    syncDepth_apart apart
  exact ⟨h.deep, same ▸ h.nonneg, fun valid => same.trans_le (h.within valid), h.shown,
    fun t => same ▸ h.drawn t, h.bound⟩

end syncing

section events

variable {setup : Setup} {env : Environment} {key : DepthKey} {tracked : Prop} {base cap : ℚ}
  {event : MarketEvent} {I : Replay → Prop}

/-- The queues of a configured symbol are checked without a fault. -/
theorem checkQueues_found (h : Still setup I) {E : Fault → Replay → Prop} :
    Triple (fun r => I r ∧ ∃ state, r.market.states.get? event.symbol = some state) (checkQueues event)
      (fun _ => I) E := by
  have cleared : Triple I (invalidateQueues event.symbol) (fun _ => I) E := by
    refine Triple.modify fun r holds => h.orders r _ (forall₂_map (fun order => ?_) r.orders) holds
    split
    next => exact ⟨rfl, rfl, rfl, rfl, rfl, rfl, rfl, rfl, rfl, fun impossible => nomatch impossible⟩
    next => exact .refl order
  refine Triple.bindView fun market => ?_
  split
  next => exact cleared.pre fun r holds => holds.1.1
  next absent _ =>
    rintro r ⟨⟨-, state, found⟩, rfl⟩
    rw [found] at absent
    cases absent
  next =>
    refine Triple.ite (fun _ => cleared.pre fun r holds => holds.1.1) fun _ => ?_
    exact Triple.pure () fun r holds => holds.1.1

/-- What a record leaves of the level: only the symbol's own accepted book events change what it shows. -/
theorem marketEvent_drawn {before : Engine}
    (shown : tracked → (before.onEvent setup.settings env.arith event).1.bookValid key.symbol = true →
      setup.assumptions.participationRate *
        (before.onEvent setup.settings env.arith event).1.displayed key.symbol key.side key.price = cap) :
    Triple (fun r => Drawn setup key tracked base cap r ∧ r.market = before) (marketEvent setup env event)
      (fun _ => Drawn setup key tracked base cap) fun _ => Drawn setup key tracked base cap := by
  have stable : Stable setup (Drawn setup key tracked base cap) := Drawn.stable
  refine Triple.bindView fun answer => ?_
  by_cases own : event.symbol = key.symbol ∧ answer.2 = true ∧
      ∃ bids asks reset, event.content = .book bids asks reset
  · obtain ⟨symbol, accepted, bids, asks, reset, content⟩ := own
    refine Triple.bind (Q := fun _ r => Drawn setup key tracked base cap (syncDepth setup key.symbol r).2 ∧
      ∃ state, r.market.states.get? event.symbol = some state) (Triple.modify fun r h => ?_) fun _ => ?_
    · obtain ⟨⟨drawn, rfl⟩, rfl⟩ := h
      obtain ⟨state, found⟩ := Engine.onEvent_found accepted
      refine ⟨drawn.renewed (drawn.deep.onEvent event) ?_ shown, state, found⟩
      unfold Engine.bookValid
      rw [← symbol, found]
      exact Engine.onEvent_valid accepted content found
    · refine Triple.bind (checkQueues_found Drawn.synced) fun _ => ?_
      rw [accepted, if_neg (by decide)]
      refine Triple.bind (Q := fun _ => Drawn setup key tracked base cap) ?_ fun _ =>
        stable.observeMarkouts event.symbol
      unfold applyContent
      rw [content, symbol]
      refine Triple.bind (Q := fun _ => Drawn setup key tracked base cap) (Triple.modify fun r h => h)
        fun _ => Keeps.bind (.view _) fun _ => .forEach (fun id => stable.rebaseAfter event reset id) _
  · refine Triple.bind (Q := fun _ => Drawn setup key tracked base cap) (Triple.modify fun r h => ?_)
      fun _ => ?_
    · obtain ⟨⟨drawn, rfl⟩, rfl⟩ := h
      refine ⟨drawn.deep.onEvent event, drawn.nonneg, fun valid => ?_, shown, drawn.drawn, drawn.bound⟩
      rcases @Engine.onEvent_displayed setup.settings r.market key.symbol env.arith event with invalid | ⟨same, before⟩ | other
      · rw [invalid] at valid
        cases valid
      · exact same key.side key.price ▸ drawn.within before
      · exact absurd other own
    · refine Keeps.bind (stable.checkQueues event) fun _ => .ite (fun _ => .pure ()) fun accepted => ?_
      refine .bind ?_ fun _ => stable.observeMarkouts event.symbol
      unfold applyContent
      split
      next bids asks reset content =>
        have apart : key.symbol ≠ event.symbol := fun same =>
          own ⟨same.symm, by simpa using accepted, bids, asks, reset, content⟩
        exact .bind (.modify fun r h => h.apart apart) fun _ => .bind (.view _) fun _ =>
          .forEach (fun id => stable.rebaseAfter event reset id) _
      next price quantity _ takerSide _ _ _ =>
        exact Stable.passiveTrade_keeps (fun volume id => passiveOrder_drawn event price volume id)
          quantity takerSide
      next => exact .pure ()
      next => exact .pure ()

/-! ### The market -/

section market

variable {M : Engine → Prop}

theorem market_still : Still setup fun r => M r.market where
  clock _ _ _ _ _ h := h
  orders _ _ _ h := h
  placed _ _ _ h := h
  rebased _ _ _ _ h := h
  fills _ _ _ h := h
  inventory _ _ h := h
  marked _ _ _ _ _ _ h := h

theorem market_unaccounted : Unaccounted fun r => M r.market where
  clock _ _ _ _ _ h := h
  fills _ _ _ h := h
  booked _ _ _ _ _ _ h := h

/-- Of what timers do, the market notices only that features are not finite. -/
theorem market_stable (unread : ∀ market symbol, M market → M (unreadable market symbol)) :
    Stable setup fun r => M r.market where
  toStill := market_still
  unreadable r symbol h := unread r.market symbol h
  taken id := by
    refine market_still.takeLiquidity id fun quote level => .bind (orderAt_keeps id) fun order => ?_
    refine .ite (fun _ => .pure _) fun _ => .bind (.view _) fun consumed => ?_
    refine .ite (fun _ => .pure _) fun _ => .ite (fun _ => ?_) fun _ => .pure _
    exact .bind (.modify fun r h => h) fun _ => .bind (market_unaccounted.fill (fun r h => h)
      fun r other fill h _ _ _ => h) fun _ => .bind (orderAt_keeps id) fun _ => .pure _

theorem market_passive (price volume : ℚ) (id : ℕ) :
    Keeps (fun r => M r.market) (passiveOrder setup event price volume id) := by
  refine .bind (orderAt_keeps id) fun order => .ite (fun _ => .pure _) fun _ => ?_
  refine .bind (.modify fun r h => h) fun _ => .ite (fun _ => ?_) fun _ => .pure _
  exact .bind (market_unaccounted.fill (fun r h => h) fun r other fill h _ _ _ => h) fun _ => .pure _

end market

/-- A record leaves the market that the engine makes of it. -/
theorem marketEvent_market {before : Engine} :
    Triple (fun r => r.market = before) (marketEvent setup env event)
      (fun _ r => r.market = (before.onEvent setup.settings env.arith event).1)
      fun _ r => r.market = (before.onEvent setup.settings env.arith event).1 := by
  have still : Still setup fun r => r.market = (before.onEvent setup.settings env.arith event).1 :=
    market_still (M := fun market => market = _)
  refine Triple.bindView fun answer => ?_
  refine Triple.bind (Q := fun _ r => r.market = (before.onEvent setup.settings env.arith event).1)
    (Triple.modify fun r h => ?_) fun _ => ?_
  · obtain ⟨rfl, rfl⟩ := h
    rfl
  · refine Keeps.bind (still.checkQueues event) fun _ => .ite (fun _ => .pure ()) fun _ => ?_
    refine .bind ?_ fun _ => still.observeMarkouts event.symbol
    unfold applyContent
    split
    next reset _ =>
      exact .bind (.modify fun r h => h) fun _ => .bind (.view _) fun _ =>
        .forEach (fun id => still.rebaseAfter event reset id) _
    next price quantity _ takerSide _ _ _ =>
      exact Stable.passiveTrade_keeps (fun volume id =>
        market_passive (M := fun market => market = _) price volume id) quantity takerSide
    next => exact .pure ()
    next => exact .pure ()

end events

/-! ## Whole replays -/

namespace Run

section volumes

variable (setup : Setup) (env : Environment)

/-- The record that the next step takes, where the market accepts it. -/
def accepted (run : Run) : Option MarketEvent :=
  run.record.filter fun event => (run.replay.market.onEvent setup.settings env.arith event).2

/-- What the first steps sold into an order. -/
def volumeSince (tape : List MarketEvent) (id n : ℕ) : ℚ :=
  ∑ k ∈ Finset.range n, ((after setup env tape k).accepted setup env).elim 0 fun event =>
    (after setup env tape k).replay.gains event id

/-- What one trade filled to makers in the first steps. -/
def servedBy (tape : List MarketEvent) (identity : Market.TradeIdentity) (n : ℕ) : ℚ :=
  ∑ k ∈ Finset.range n,
    if ((after setup env tape k).accepted setup env).bind MarketEvent.identity = some identity then
      (after setup env tape (k + 1)).replay.filled made - (after setup env tape k).replay.filled made
    else 0

end volumes

section queues

variable {setup : Setup} {env : Environment} {run : Run} {event : MarketEvent} {seen : ℕ → ℚ} {total : ℚ}

theorem soldInto_nonneg (event : MarketEvent) (order : Order) : 0 ≤ soldInto event order := by
  unfold soldInto
  split
  next counted _ =>
    split
    next => exact counted.le
    next => exact le_rfl
  next => exact le_rfl

theorem gains_nonneg (r : Replay) (event : MarketEvent) (id : ℕ) : 0 ≤ r.gains event id := by
  unfold Replay.gains
  cases r.orders[id]? with
  | none => exact le_rfl
  | some order => exact soldInto_nonneg event order

theorem accepted_nonneg (run : Run) (id : ℕ) :
    0 ≤ (run.accepted setup env).elim 0 fun event => run.replay.gains event id := by
  cases run.accepted setup env with
  | none => exact le_rfl
  | some event => exact gains_nonneg run.replay event id

/-- One step: the orders have seen what it sold into them, and the makers were filled from that. -/
theorem step_queues (h : Queues setup seen total run.replay) (seenNonneg : ∀ id, 0 ≤ seen id) :
    Queues setup
      (fun id => seen id + (run.accepted setup env).elim 0 fun event => run.replay.gains event id)
      (total + (run.accepted setup env).elim 0 tradeSize) (run.step setup env).replay := by
  cases taken : run.record with
  | none =>
    have none : run.accepted setup env = none := by rw [accepted, taken]; rfl
    rw [none]
    simp only [Option.elim_none, add_zero]
    exact step_unrecorded (Queues.stable seenNonneg) taken h
  | some event =>
    rw [step_record taken]
    have queues : ∀ answer, (run.replay.market.onEvent setup.settings env.arith event).2 = answer →
        Queues setup (fun id => seen id + if answer then run.replay.gains event id else 0)
          (total + if answer then tradeSize event else 0) (marketEvent setup env event run.replay).2 := by
      intro answer answered
      exact (marketEvent_serves seenNonneg (gains_nonneg run.replay event) answer).after ⟨⟨h, rfl⟩, answered⟩
    cases answered : (run.replay.market.onEvent setup.settings env.arith event).2 with
    | true =>
      have same : run.accepted setup env = some event := by
        rw [accepted, taken, Option.filter_some, answered, if_pos rfl]
      simpa [same] using queues true answered
    | false =>
      have same : run.accepted setup env = none := by
        rw [accepted, taken, Option.filter_some, answered, if_neg (by decide)]
      simpa [same] using queues false answered

end queues

section runs

variable {setup : Setup} {env : Environment} {tape : List MarketEvent}

theorem Queues.start : Queues setup (fun _ => 0) 0 (ofTape setup tape).replay where
  deep := Engine.Deep.start setup.settings
  owned _ member := nomatch member
  limited _ _ here := nomatch here
  within _ member := nomatch member
  queued _ _ here := nomatch here
  spent := le_rfl

theorem volumeSince_nonneg (id n : ℕ) : 0 ≤ volumeSince setup env tape id n :=
  Finset.sum_nonneg fun k _ => accepted_nonneg (after setup env tape k) id

/-- At every point each order's queue has let through no more than what was sold into the order. -/
theorem after_queues (n : ℕ) : Queues setup (fun id => volumeSince setup env tape id n)
    ((after setup env tape n).replay.filled made) (after setup env tape n).replay := by
  induction n with
  | zero => exact Queues.start
  | succ n ih =>
    have next := @step_queues setup env _ _ _ ih fun id => volumeSince_nonneg id n
    rw [← after_succ] at next
    refine { next with queued := fun id order here => ?_, spent := le_rfl }
    have queued := next.queued id order here
    rwa [volumeSince, Finset.sum_range_succ]

/-- No step fills more to makers than the size of the trade it accepts. -/
theorem made_step (k : ℕ) : (after setup env tape (k + 1)).replay.filled made ≤
    (after setup env tape k).replay.filled made +
      ((after setup env tape k).accepted setup env).elim 0 tradeSize := by
  rw [after_succ]
  exact (step_queues (after_queues k) fun id => volumeSince_nonneg id k).spent

/-! ### One trade, once -/

theorem step_marketEvent {run : Run} {event : MarketEvent} (taken : run.record = some event) :
    (run.step setup env).replay.market = (run.replay.market.onEvent setup.settings env.arith event).1 := by
  rw [step_record taken]
  exact marketEvent_market.after rfl

/-- What survives every event and the loss of a book holds of the market after every step. -/
theorem step_market {M : Engine → Prop} (unread : ∀ market symbol, M market → M (unreadable market symbol))
    (events : ∀ market event, M market → M (market.onEvent setup.settings env.arith event).1) {run : Run}
    (holds : M run.replay.market) : M (run.step setup env).replay.market := by
  cases taken : run.record with
  | none => exact step_unrecorded (market_stable unread) taken holds
  | some event =>
    rw [step_marketEvent taken]
    exact events run.replay.market event holds

theorem unreadable_known {market : Engine} {symbol other : String} {state : Market.SymbolState}
    (found : (unreadable market symbol).states.get? other = some state) :
    ∃ old, market.states.get? other = some old ∧ state.known = old.known := by
  rw [unreadable, Dict.get?_modify] at found
  split at found
  next =>
    obtain ⟨old, here, rfl⟩ := Option.map_eq_some_iff.mp found
    exact ⟨old, here, (old.invalidate_carried _ _).known⟩
  next => exact ⟨state, found, rfl⟩

theorem unreadable_deduplicated {settings : Market.Settings} {market : Engine}
    (h : market.Deduplicated settings) (symbol : String) : (unreadable market symbol).Deduplicated settings := by
  intro other state found
  obtain ⟨old, here, same⟩ := unreadable_known found
  obtain ⟨ids, last⟩ := Prod.mk.inj same
  have before := h other old here
  exact ⟨ids ▸ before.sorted, ids ▸ last ▸ before.recent, ids ▸ before.sized⟩

theorem unreadable_seen {market : Engine} {identity : Market.TradeIdentity} (seen : market.Seen identity)
    (symbol : String) : (unreadable market symbol).Seen identity := by
  intro state found
  obtain ⟨old, here, same⟩ := unreadable_known found
  obtain ⟨ids, last⟩ := Prod.mk.inj same
  exact (seen old here).imp (fun member => ids ▸ member) fun early => last ▸ early

theorem after_deduplicated (n : ℕ) :
    (after setup env tape n).replay.market.Deduplicated setup.settings := by
  induction n with
  | zero => exact Engine.Deduplicated.start setup.settings
  | succ n ih =>
    rw [after_succ]
    exact step_market (M := fun market => market.Deduplicated setup.settings)
      (fun _ symbol h => unreadable_deduplicated h symbol) (fun _ event h => h.onEvent event) ih

theorem accepted_eq_some {run : Run} {event : MarketEvent} (accepts : run.accepted setup env = some event) :
    run.record = some event ∧ (run.replay.market.onEvent setup.settings env.arith event).2 = true :=
  Option.filter_eq_some_iff.mp accepts

/-- A trade that was accepted is known from then on. -/
theorem after_seen {j : ℕ} {event : MarketEvent} {identity : Market.TradeIdentity}
    (accepts : (after setup env tape j).accepted setup env = some event)
    (here : event.identity = some identity) {k : ℕ} (later : j < k) :
    (after setup env tape k).replay.market.Seen identity := by
  obtain ⟨taken, answer⟩ := accepted_eq_some accepts
  induction k, later using Nat.le_induction with
  | base =>
    rw [after_succ, step_marketEvent taken]
    exact (Engine.onEvent_accepts (after_deduplicated j) answer here).2
  | succ k later ih =>
    rw [after_succ]
    exact (step_market (M := fun market => market.Deduplicated setup.settings ∧ market.Seen identity)
      (fun _ symbol h => ⟨unreadable_deduplicated h.1 symbol, unreadable_seen h.2 symbol⟩)
      (fun _ event h => ⟨h.1.onEvent event, h.2.onEvent h.1 event⟩) ⟨after_deduplicated k, ih⟩).2

/-- No trade is accepted at two steps. -/
theorem accepted_once {j k : ℕ} {identity : Market.TradeIdentity}
    (first : ((after setup env tape j).accepted setup env).bind MarketEvent.identity = some identity)
    (second : ((after setup env tape k).accepted setup env).bind MarketEvent.identity = some identity) :
    j = k := by
  have apart : ∀ {j k : ℕ}, j < k →
      ((after setup env tape j).accepted setup env).bind MarketEvent.identity = some identity →
      ((after setup env tape k).accepted setup env).bind MarketEvent.identity ≠ some identity := by
    intro j k later first second
    obtain ⟨event, accepts, here⟩ := Option.bind_eq_some_iff.mp first
    obtain ⟨again, accepts', here'⟩ := Option.bind_eq_some_iff.mp second
    exact (Engine.onEvent_accepts (after_deduplicated k) (accepted_eq_some accepts').2 here').1
      (after_seen accepts here later)
  rcases lt_trichotomy j k with before | same | later
  · exact absurd second (apart before first)
  · exact same
  · exact absurd first (apart later second)

/-- One trade's volume goes to fills of no more than its size. -/
theorem servedBy_le {k : ℕ} {event : MarketEvent} {identity : Market.TradeIdentity}
    (accepts : (after setup env tape k).accepted setup env = some event)
    (here : event.identity = some identity) (n : ℕ) :
    servedBy setup env tape identity n ≤ tradeSize event := by
  have own : ((after setup env tape k).accepted setup env).bind MarketEvent.identity = some identity := by
    rw [accepts]
    exact here
  unfold servedBy
  by_cases within : k ∈ Finset.range n
  · rw [Finset.sum_eq_single k (fun j _ apart => if_neg fun other => apart (accepted_once other own))
      (fun outside => absurd within outside), if_pos own, sub_le_iff_le_add']
    have step := @made_step setup env tape k
    rwa [accepts] at step
  · refine (Finset.sum_eq_zero fun j member => if_neg fun other => within ?_).trans_le (tradeSize_nonneg event)
    exact accepted_once other own ▸ member

/-! ### One level, in a window -/

theorem Drawn.start (setup : Setup) (key : DepthKey) (tape : List MarketEvent) :
    Drawn setup key False 0 0 (ofTape setup tape).replay where
  deep := Engine.Deep.start setup.settings
  nonneg := le_rfl
  within _ := mul_nonneg setup.assumptions.ratePositive.le (Engine.Deep.start setup.settings).displayed_nonneg
  shown impossible := impossible.elim
  drawn impossible := impossible.elim
  bound impossible := impossible.elim

/-- One step of a window in which the level is tracked. -/
theorem step_drawn {key : DepthKey} {tracked : Prop} {base cap : ℚ} {run : Run}
    (h : Drawn setup key tracked base cap run.replay)
    (shown : tracked → (run.step setup env).replay.market.bookValid key.symbol = true →
      setup.assumptions.participationRate *
        (run.step setup env).replay.market.displayed key.symbol key.side key.price = cap) :
    Drawn setup key tracked base cap (run.step setup env).replay := by
  cases taken : run.record with
  | none => exact step_unrecorded Drawn.stable taken h
  | some event =>
    rw [step_marketEvent taken] at shown
    rw [step_record taken]
    exact (marketEvent_drawn shown).after ⟨h, rfl⟩

theorem after_drawn (key : DepthKey) (n : ℕ) : Drawn setup key False 0 0 (after setup env tape n).replay := by
  induction n with
  | zero => exact Drawn.start setup key tape
  | succ n ih =>
    rw [after_succ]
    exact step_drawn ih fun impossible => impossible.elim

/-- The takers of a level get no more of it than its share, as long as the level shows the same. -/
theorem taken_le (key : DepthKey) {m n : ℕ} (le : m ≤ n)
    (same : ∀ k, m ≤ k → k ≤ n → (after setup env tape k).replay.market.bookValid key.symbol = true →
      (after setup env tape k).replay.market.displayed key.symbol key.side key.price =
        (after setup env tape m).replay.market.displayed key.symbol key.side key.price) :
    (after setup env tape n).replay.filled (takenFrom setup key) -
        (after setup env tape m).replay.filled (takenFrom setup key) ≤
      setup.assumptions.participationRate *
        (after setup env tape m).replay.market.displayed key.symbol key.side key.price := by
  have window : Drawn setup key True ((after setup env tape m).replay.filled (takenFrom setup key))
      (setup.assumptions.participationRate *
        (after setup env tape m).replay.market.displayed key.symbol key.side key.price)
      (after setup env tape n).replay := by
    induction n, le using Nat.le_induction with
    | base =>
      have h := @after_drawn setup env tape key m
      refine ⟨h.deep, h.nonneg, h.within, fun _ _ => rfl, fun _ => ?_, fun _ => ?_⟩
      · rw [sub_self]
        exact h.nonneg
      · rw [sub_self]
        exact mul_nonneg setup.assumptions.ratePositive.le h.deep.displayed_nonneg
    | succ n le ih =>
      have before := ih fun k from_ upto => same k from_ (upto.trans (Nat.le_succ n))
      have valid := same (n + 1) (le.trans (Nat.le_succ n)) le_rfl
      rw [after_succ] at valid ⊢
      exact step_drawn before fun _ shown => congrArg _ (valid shown)
  exact window.bound trivial

end runs

end Run

/-- Fills are conservative at every point of a replay. A resting buy's maker fills stay within the
participation rate of the sales at or below its limit since it arrived, less what was first ahead of it.
While a level shows the same quantity, what all takers get of it stays within the rate of that quantity.
One trade's volume goes to fills of no more than its size. No buy is filled above its limit. -/
theorem replay_conservative (setup : Setup) (env : Environment) (tape : List MarketEvent) (n : ℕ) :
    (∀ (id : ℕ) (order : Order), (Run.after setup env tape n).replay.orders[id]? = some order →
      (order.queueAheadInitial = none → (Run.after setup env tape n).replay.filled (madeBy id) = 0) ∧
      ∀ initial, order.queueAheadInitial = some initial →
        (Run.after setup env tape n).replay.filled (madeBy id) ≤ setup.assumptions.participationRate *
          max 0 (Run.volumeSince setup env tape id n - initial)) ∧
    (∀ (key : DepthKey) (m : ℕ), m ≤ n →
      (∀ k, m ≤ k → k ≤ n → (Run.after setup env tape k).replay.market.bookValid key.symbol = true →
        (Run.after setup env tape k).replay.market.displayed key.symbol key.side key.price =
          (Run.after setup env tape m).replay.market.displayed key.symbol key.side key.price) →
      (Run.after setup env tape n).replay.filled (takenFrom setup key) -
          (Run.after setup env tape m).replay.filled (takenFrom setup key) ≤
        setup.assumptions.participationRate *
          (Run.after setup env tape m).replay.market.displayed key.symbol key.side key.price) ∧
    (∀ (k : ℕ) (event : MarketEvent) (identity : Market.TradeIdentity),
      (Run.after setup env tape k).accepted setup env = some event → event.identity = some identity →
      Run.servedBy setup env tape identity n ≤ tradeSize event) ∧
    ∀ fill ∈ (Run.after setup env tape n).replay.fills, fill.side = .buy →
      ∃ (order : Order) (limit : ℚ), (Run.after setup env tape n).replay.orders[fill.orderId]? = some order ∧
        order.limitPrice = some limit ∧ fill.price ≤ limit := by
  have queues := @Run.after_queues setup env tape n
  refine ⟨fun id order here => ?_, fun key m le same => Run.taken_le key le same,
    fun k event identity accepts here => Run.servedBy_le accepts here n, fun fill member bought => ?_⟩
  · exact ⟨(queues.queued id order here).unentered, (queues.queued id order here).bound⟩
  · have inside := queues.owned fill member
    have here : (Run.after setup env tape n).replay.orders[fill.orderId]? =
        some (Run.after setup env tape n).replay.orders[fill.orderId] := List.getElem?_eq_getElem inside
    obtain ⟨side, within⟩ := queues.within fill member _ here
    obtain ⟨limit, limited⟩ := Option.isSome_iff_exists.mp (queues.limited _ _ here (side ▸ bought))
    exact ⟨_, limit, here, limited, within (side ▸ bought) limit limited⟩

end TradeAgent.Simulation
