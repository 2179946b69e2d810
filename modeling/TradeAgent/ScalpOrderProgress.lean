import Mathlib.Data.List.Induction
import TradeAgent.ScalpOrderConvergence
import TradeAgent.ScalpSubmission

/-! What an owned order has reached it keeps: whatever the broker says and however the engines
interleave, its fills only grow, a final status stays final, and an account has one open order
a symbol. A store holds the orders of one account. -/
namespace TradeAgent.Scalp

open Interleaving

/-- The law of a stored order: its fill is the one of the snapshot it holds, and an order not yet
dispatched is open. -/
structure OwnedOrder.Lawful (row : OwnedOrder) : Prop where
  filled : row.filledQuantity = previousQuantity row.broker
  requested : 0 < row.intent.quantity
  undispatched : row.dispatchState = .intent → row.status.final = false

/-- What one order may become. -/
structure OwnedOrder.Advances (row next : OwnedOrder) : Prop where
  intent : next.intent = row.intent
  filled : row.filledQuantity ≤ next.filledQuantity
  final : row.status.final → next.status.final
  first : ∀ time ∈ row.firstPositiveFillAt, ∃ earlier ∈ next.firstPositiveFillAt, earlier ≤ time

theorem OwnedOrder.Advances.refl (row : OwnedOrder) : row.Advances row where
  intent := rfl
  filled := le_rfl
  final final := final
  first time found := ⟨time, found, le_rfl⟩

theorem OwnedOrder.Advances.trans {row middle next : OwnedOrder} (before : row.Advances middle)
    (after : middle.Advances next) : row.Advances next where
  intent := after.intent.trans before.intent
  filled := before.filled.trans after.filled
  final final := after.final (before.final final)
  first time found := by
    obtain ⟨earlier, found, le⟩ := before.first time found
    obtain ⟨earliest, found, le'⟩ := after.first earlier found
    exact ⟨earliest, found, le'.trans le⟩

theorem OwnedOrder.Lawful.bounds {row : OwnedOrder} (lawful : row.Lawful) :
    0 ≤ row.filledQuantity ∧ row.filledQuantity ≤ row.intent.quantity := by
  rw [lawful.filled]
  cases stored : row.broker with
  | none => exact ⟨le_rfl, lawful.requested.le⟩
  | some snapshot =>
    have matching := row.sound snapshot stored
    exact ⟨matching.nonneg, matching.within⟩

theorem firstFill_earlier {first next : Option Instant} {s : AlpacaPaperOrder} {received : Instant}
    (filled : firstFill first s received = .ok next) :
    ∀ time ∈ first, ∃ earlier ∈ next, earlier ≤ time := by
  intro time found
  unfold firstFill at filled
  split at filled
  next =>
    cases candidate : candidateFill s received with
    | error e => simp [candidate, bind, Except.bind] at filled
    | ok candidate =>
      cases created : stamp s.createdAt with
      | error e => simp_all [bind, Except.bind]
      | ok created =>
        simp only [*, bind, Except.bind] at filled
        split at filled
        next => cases filled
        next =>
          obtain rfl := Except.ok.inj filled
          obtain rfl := Option.mem_def.mp found
          exact ⟨_, rfl, min_le_left _ _⟩
  next =>
    obtain rfl := Except.ok.inj filled
    exact ⟨time, found, le_rfl⟩

/-- A snapshot taken in adds to the fill and keeps a final status final. -/
theorem updateOrder_advances {row next : OwnedOrder} {s : AlpacaPaperOrder} {now : Instant}
    {received : Option Instant} {outcome : Outcome} (lawful : row.Lawful)
    (updated : updateOrder row s now received = .ok (next, outcome)) :
    row.Advances next ∧ next.Lawful := by
  have cases := updateOrder_updated row s now received
  rw [updated] at cases
  cases cases with
  | ignored => exact ⟨.refl row, lawful⟩
  | stored matching first dirty fresh filled =>
    obtain ⟨-, grown, -, status⟩ := ignored_false_iff.mp fresh
    constructor
    · constructor
      · rfl
      · rw [lawful.filled]
        exact grown
      · exact status
      · exact firstFill_earlier filled
    · exact ⟨rfl, lawful.requested, fun intent => by cases intent⟩

/-- The law of an account's orders: each keeps its own, and a symbol has one open order. -/
structure Store.Tidy (s : Store) : Prop where
  lawful : ∀ clientId row, s.orders.get? clientId = some row → row.Lawful
  single : ∀ clientId other row open_, s.orders.get? clientId = some row →
    s.orders.get? other = some open_ → row.intent.symbol = open_.intent.symbol →
    row.status.final = false → open_.status.final = false → clientId = other

/-- What a transaction leaves of the orders there were, and of their law. -/
structure Store.Tends (s next : Store) : Prop where
  tidy : next.Tidy
  advances : ∀ clientId row, s.orders.get? clientId = some row →
    ∃ later, next.orders.get? clientId = some later ∧ row.Advances later

section transactions

variable {s : Store} {clientId : String}

theorem Store.Tidy.same (tidy : s.Tidy) {next : Store} (same : next.orders = s.orders) : s.Tends next := by
  constructor
  · constructor
    · rw [same]
      exact tidy.lawful
    · rw [same]
      exact tidy.single
  · rw [same]
    exact fun clientId row found => ⟨row, found, .refl row⟩

/-- Writing one order that advances. -/
theorem Store.Tidy.write (tidy : s.Tidy) {next : Store} {row later : OwnedOrder}
    (found : s.orders.get? clientId = some row) (advances : row.Advances later) (lawful : later.Lawful)
    (written : ∀ other, next.orders.get? other =
      if clientId = other then some later else s.orders.get? other) : s.Tends next := by
  have before : ∀ other row', next.orders.get? other = some row' →
      ∃ old, s.orders.get? other = some old ∧ old.Advances row' := by
    intro other row' stored
    rw [written] at stored
    split at stored
    next same =>
      obtain rfl := Option.some.inj stored
      exact ⟨row, same ▸ found, advances⟩
    next => exact ⟨row', stored, .refl row'⟩
  constructor
  · constructor
    · intro other row' stored
      rw [written] at stored
      split at stored
      next => exact Option.some.inj stored ▸ lawful
      next => exact tidy.lawful other row' stored
    · intro first second row' open_ storedFirst storedSecond symbol openFirst openSecond
      obtain ⟨old, foundFirst, advanced⟩ := before first row' storedFirst
      obtain ⟨old', foundSecond, advanced'⟩ := before second open_ storedSecond
      rw [advanced.intent, advanced'.intent] at symbol
      apply tidy.single first second old old' foundFirst foundSecond symbol
      · by_contra final
        simp [advanced.final (by simpa using final)] at openFirst
      · by_contra final
        simp [advanced'.final (by simpa using final)] at openSecond
  · intro other old stored
    rw [written]
    split
    next same =>
      subst same
      obtain rfl := Option.some.inj (found.symm.trans stored)
      exact ⟨later, rfl, advances⟩
    next => exact ⟨old, stored, .refl old⟩

theorem Store.Tidy.modify (tidy : s.Tidy) {change : OwnedOrder → OwnedOrder}
    (advances : ∀ row, row.Lawful → row.Advances (change row) ∧ (change row).Lawful) :
    s.Tends { s with orders := s.orders.modify clientId change } := by
  cases found : s.orders.get? clientId with
  | none => exact tidy.same (Dict.modify_of_absent found change)
  | some row =>
    obtain ⟨advanced, lawful⟩ := advances row (tidy.lawful clientId row found)
    refine tidy.write found advanced lawful fun other => ?_
    rw [Dict.get?_modify]
    split
    next same =>
      subst same
      rw [found]
      rfl
    next => rfl

theorem Store.Tidy.reserve (tidy : s.Tidy) {r : Reservation} (now : Instant)
    (free : s.pending r.intent.symbol = false) :
    s.Tends { s with orders := s.orders.setDefault r.intent.clientOrderId (r.order now) } := by
  cases found : s.orders.get? r.intent.clientOrderId with
  | some row => exact tidy.same (Dict.setDefault_of_get found _)
  | none =>
    have settled : ∀ clientId row, s.orders.get? clientId = some row →
        row.intent.symbol = r.intent.symbol → row.status.final := by
      intro clientId row stored symbol
      have closed := List.any_eq_false.mp free row (Dict.mem_values.mpr ⟨clientId, stored⟩)
      simpa [symbol] using closed
    have reserved : ∀ clientId, (s.orders.setDefault r.intent.clientOrderId (r.order now)).get? clientId =
        if r.intent.clientOrderId = clientId then some (r.order now) else s.orders.get? clientId := by
      intro clientId
      rw [Dict.setDefault_of_absent found, Dict.get?_set]
    constructor
    · constructor
      · intro clientId row stored
        rw [reserved] at stored
        split at stored
        next =>
          obtain rfl := Option.some.inj stored
          exact ⟨rfl, r.positive, fun _ => rfl⟩
        next => exact tidy.lawful clientId row stored
      · intro first second row open_ storedFirst storedSecond symbol openFirst openSecond
        rw [reserved] at storedFirst storedSecond
        split at storedFirst
        next same =>
          obtain rfl := Option.some.inj storedFirst
          split at storedSecond
          next same' => exact same.symm.trans same'
          next => simp [settled second open_ storedSecond symbol.symm] at openSecond
        next =>
          split at storedSecond
          next =>
            obtain rfl := Option.some.inj storedSecond
            simp [settled first row storedFirst symbol] at openFirst
          next => exact tidy.single first second row open_ storedFirst storedSecond symbol openFirst openSecond
    · intro clientId row stored
      refine ⟨row, ?_, .refl row⟩
      rw [reserved, if_neg fun same => by simp [← same, found] at stored]
      exact stored

/-- A change of the bookkeeping of an order, its fill and its intent apart. -/
theorem OwnedOrder.Lawful.touch {row next : OwnedOrder} (lawful : row.Lawful)
    (kept : next.intent = row.intent ∧ next.filledQuantity = row.filledQuantity ∧
      next.broker = row.broker ∧ next.firstPositiveFillAt = row.firstPositiveFillAt)
    (final : row.status.final → next.status.final)
    (undispatched : next.dispatchState = .intent → next.status.final = false) :
    row.Advances next ∧ next.Lawful := by
  obtain ⟨intent, filled, broker, first⟩ := kept
  constructor
  · refine ⟨intent, filled.ge, final, fun time found => ⟨time, ?_, le_rfl⟩⟩
    rw [first]
    exact found
  · refine ⟨?_, ?_, undispatched⟩
    · rw [filled, broker]
      exact lawful.filled
    · rw [intent]
      exact lawful.requested

theorem Store.Tidy.expireUnsent (tidy : s.Tidy) (now : Instant) (reason : Option String) :
    s.Tends (s.expireUnsent clientId now reason) := by
  unfold Store.expireUnsent
  split
  next row found =>
    have touched : row.Advances (row.expireUnsent now reason) ∧ (row.expireUnsent now reason).Lawful :=
      (tidy.lawful clientId row found).touch ⟨rfl, rfl, rfl, rfl⟩ (fun _ => rfl)
        (fun intent => by cases intent)
    obtain ⟨advances, lawful⟩ := touched
    exact tidy.write found advances lawful fun other => Dict.get?_set _ _ _ _
  next => exact tidy.same rfl

/-- Every transaction of an engine. -/
theorem transact_tends (tidy : s.Tidy) (ownerId : String) (outside : Outside) (task : Task) :
    s.Tends (transact s ownerId outside task).1 := by
  cases task with
  | reserving r =>
    rw [transact]
    split
    next passes =>
      rw [Bool.and_eq_true, Bool.not_eq_true'] at passes
      exact tidy.reserve outside.now passes.2
    next => exact tidy.same rfl
  | dispatching clientId =>
    rw [transact]
    split
    next => exact tidy.same rfl
    next => exact tidy.same rfl
  | claiming clientId =>
    rw [transact]
    split
    next row found =>
      split
      next passes =>
        -- An order not yet dispatched is open, so its claim reopens nothing.
        rw [Bool.and_eq_true, decide_eq_true_eq] at passes
        have lawful := tidy.lawful clientId row found
        have isOpen := lawful.undispatched passes.2
        have touched : row.Advances (row.claim outside.now) ∧ (row.claim outside.now).Lawful :=
          lawful.touch ⟨rfl, rfl, rfl, rfl⟩ (fun final => by simp [isOpen] at final)
            (fun intent => by cases intent)
        obtain ⟨advances, claimed⟩ := touched
        exact tidy.write found advances claimed fun other => Dict.get?_set _ _ _ _
      next => exact tidy.same rfl
    next => exact tidy.same rfl
  | fencing clientId row =>
    rw [transact]
    split
    next =>
      split
      next =>
        split
        next => exact tidy.expireUnsent _ _
        next => split <;> exact tidy.same rfl
      next => exact tidy.same rfl
    next => exact tidy.same rfl
  | submitting clientId => exact tidy.same rfl
  | unsent clientId => exact tidy.expireUnsent _ _
  | failed clientId definitive rateLimited statusCode =>
    exact tidy.modify fun row lawful =>
      lawful.touch ⟨rfl, rfl, rfl, rfl⟩ id (fun intent => by cases intent)
  | lookingUp clientId definitive => exact tidy.same rfl
  | rejecting clientId reconciled =>
    exact tidy.modify fun row lawful =>
      lawful.touch ⟨rfl, rfl, rfl, rfl⟩ (fun _ => rfl) (fun intent => by cases intent)
  | updating clientId snapshot received =>
    rw [transact]
    split
    next order found =>
      split
      next next outcome updated =>
        obtain ⟨advances, lawful⟩ := updateOrder_advances (tidy.lawful clientId order found) updated
        exact tidy.write found advances lawful fun other => Dict.get?_set _ _ _ _
      next => exact tidy.same rfl
    next => exact tidy.same rfl
  | reconciling clientId pass => exact tidy.same rfl
  | expiring clientId =>
    rw [transact]
    split
    next => exact tidy.expireUnsent _ _
    next => exact tidy.same rfl
  | inspecting clientId definitive => exact tidy.same rfl
  | marking clientId definitive =>
    exact tidy.modify fun row lawful => lawful.touch ⟨rfl, rfl, rfl, rfl⟩ id lawful.undispatched
  | cancelling clientId pass => exact tidy.same rfl
  | requesting clientId cancelRequestedAt now =>
    rw [transact]
    split
    next =>
      exact tidy.modify fun row lawful => lawful.touch ⟨rfl, rfl, rfl, rfl⟩ id lawful.undispatched
    next => exact tidy.same rfl
  | requested clientId => exact tidy.same rfl
  | finding clientId => exact tidy.same rfl

end transactions

/-- Whichever thread steps, starts or dies, and whoever takes the lease. -/
theorem step_tends {p : Pool Store Thread} (tidy : p.shared.Tidy)
    (event : Event Thread Outside (Option Lease)) : p.shared.Tends (engines.step p event).shared := by
  cases event with
  | spawn i t =>
    rw [Program.step]
    split
    next => exact tidy.same rfl
    next => exact tidy.same rfl
  | crash i => exact tidy.same rfl
  | act i outside =>
    rw [Program.step]
    split
    next t live => exact transact_tends tidy t.ownerId outside t.task
    next => exact tidy.same rfl
  | env change => exact tidy.same rfl

def ordersAfter (lease : Option Lease) (events : List (Event Thread Outside (Option Lease))) :
    Dict String OwnedOrder :=
  (engines.run (.idle (.initial lease)) events).shared.orders

theorem run_tidy (lease : Option Lease) (events : List (Event Thread Outside (Option Lease))) :
    (engines.run (.idle (.initial lease)) events).shared.Tidy := by
  induction events using List.reverseRecOn with
  | nil =>
    constructor
    · intro clientId row found
      cases found
    · intro clientId other row open_ found
      cases found
  | append_singleton events event tidy =>
    rw [Program.run_append]
    exact (step_tends tidy event).tidy

theorem run_advances (lease : Option Lease) (events more : List (Event Thread Outside (Option Lease)))
    {clientId : String} {row : OwnedOrder}
    (found : (ordersAfter lease events).get? clientId = some row) :
    ∃ later, (ordersAfter lease (events ++ more)).get? clientId = some later ∧ row.Advances later := by
  induction more using List.reverseRecOn with
  | nil => exact ⟨row, by rwa [List.append_nil], .refl row⟩
  | append_singleton more event ih =>
    obtain ⟨middle, stored, advances⟩ := ih
    rw [← List.append_assoc, ordersAfter, Program.run_append]
    obtain ⟨later, found, next⟩ := (step_tends (run_tidy lease (events ++ more)) event).advances _ _ stored
    exact ⟨later, found, advances.trans next⟩

/-- In any interleaving of reservations, dispatches and updates with whatever snapshots, an order's
fill never falls or passes its requested quantity, a final status stays final, the first positive fill
moves only back, and no two open orders share a symbol. -/
theorem owned_orders_progress (lease : Option Lease)
    (events : List (Event Thread Outside (Option Lease))) :
    (∀ clientId row, (ordersAfter lease events).get? clientId = some row →
      0 ≤ row.filledQuantity ∧ row.filledQuantity ≤ row.intent.quantity ∧
      ∀ more, ∃ later, (ordersAfter lease (events ++ more)).get? clientId = some later ∧
        later.intent = row.intent ∧ row.filledQuantity ≤ later.filledQuantity ∧
        (row.status.final → later.status.final) ∧
        ∀ time ∈ row.firstPositiveFillAt, ∃ earlier ∈ later.firstPositiveFillAt, earlier ≤ time) ∧
    ∀ clientId other row open_, (ordersAfter lease events).get? clientId = some row →
      (ordersAfter lease events).get? other = some open_ → row.intent.symbol = open_.intent.symbol →
      row.status.final = false → open_.status.final = false → clientId = other := by
  have tidy := run_tidy lease events
  refine ⟨fun clientId row found => ?_, tidy.single⟩
  obtain ⟨nonneg, within⟩ := (tidy.lawful clientId row found).bounds
  refine ⟨nonneg, within, fun more => ?_⟩
  obtain ⟨later, stored, advances⟩ := run_advances lease events more found
  exact ⟨later, stored, advances.intent, advances.filled, advances.final, advances.first⟩

end TradeAgent.Scalp
