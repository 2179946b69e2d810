import TradeAgent.Library.EventLog
import TradeAgent.ScalpOrder

/-! Reconciliation of the paper order manager: the ledger's newest events against what the broker shows. -/
namespace TradeAgent.Oms

open Scalp (BrokerStatus AlpacaPaperOrder)

def terminalOrderStatuses : List BrokerStatus :=
  [.filled, .doneForDay, .canceled, .expired, .replaced, .stopped, .rejected, .suspended, .calculated]

structure AlpacaPaperAccount where
  id : String
  status : String
  currency : String
  cash : ℚ
  portfolioValue : ℚ
  buyingPower : ℚ
  nonMarginableBuyingPower : Option ℚ := none
  patternDayTrader : Bool := false
  tradingBlocked : Bool
  transfersBlocked : Bool
  accountBlocked : Bool

structure AlpacaPaperPosition where
  symbol : String
  quantity : ℚ
  averageEntryPrice : ℚ
  marketValue : ℚ
  unrealizedPnl : ℚ
  availableQuantity : Option ℚ := none

inductive Mismatch where
  | brokerTradingBlocked
  | duplicateBrokerClientOrderId (clientOrderId : String)
  | localOrderMissingAtBroker (clientOrderId : String)
  deriving DecidableEq, Repr

def Mismatch.text : Mismatch → String
  | .brokerTradingBlocked => "BROKER_TRADING_BLOCKED"
  | .duplicateBrokerClientOrderId clientOrderId => "DUPLICATE_BROKER_CLIENT_ORDER_ID:" ++ clientOrderId
  | .localOrderMissingAtBroker clientOrderId => "LOCAL_ORDER_MISSING_AT_BROKER:" ++ clientOrderId

structure ReconciliationResult where
  healthy : Bool
  account : AlpacaPaperAccount
  positions : List AlpacaPaperPosition
  openOrders : List AlpacaPaperOrder
  mismatches : List Mismatch

/-- What an event of the ledger carries; the events that no reconciliation reads have their type only. -/
inductive Payload where
  | brokerOrderState (order : AlpacaPaperOrder)
  | brokerReconciliation (result : ReconciliationResult)
  | controlChanged (key value : String)
  | other (eventType : String)

structure Event where
  occurredAt : Instant
  payload : Payload

/-- The two tables: events in the order of their sequence, and the controls. -/
structure Ledger where
  rows : List Event := []
  controls : Dict String String := .empty

namespace Ledger

def append (ledger : Ledger) (payload : Payload) (occurredAt : Instant) : Ledger :=
  { ledger with rows := ledger.rows ++ [⟨occurredAt, payload⟩] }

/-- Newest first. -/
def events (ledger : Ledger) (limit : ℕ) : List Event := EventLog.newest limit ledger.rows

def getControl (ledger : Ledger) (key fallback : String) : String := ledger.controls.getD key fallback

def setControl (ledger : Ledger) (key value : String) (occurredAt : Instant) : Ledger :=
  { ledger with controls := ledger.controls.set key value }.append (.controlChanged key value) occurredAt

end Ledger

/-- The broker, as the gateway shows it: an order that is found by a client id has that id. -/
structure Gateway where
  account : AlpacaPaperAccount
  positions : List AlpacaPaperPosition
  openOrders : List AlpacaPaperOrder
  findOrderByClientId : String → Option AlpacaPaperOrder
  identified : ∀ clientOrderId order, findOrderByClientId clientOrderId = some order →
    order.clientOrderId = clientOrderId

def orderState (event : Event) : Option (String × AlpacaPaperOrder) :=
  match event.payload with
  | .brokerOrderState order => some (order.clientOrderId, order)
  | _ => none

/-- How far back the order manager reads its ledger. -/
def eventWindow : ℕ := 10000

def latestLocalOrderStates (ledger : Ledger) : Dict String AlpacaPaperOrder :=
  EventLog.firsts orderState (ledger.events eventWindow)

def recordOrderState (ledger : Ledger) (order : AlpacaPaperOrder) (observedAt : Instant) : Ledger :=
  ledger.append (.brokerOrderState order) observedAt

/-- What a reconciliation has gathered on its way. -/
structure Progress where
  ledger : Ledger
  brokerByClientId : Dict String AlpacaPaperOrder := .empty
  mismatches : List Mismatch

/-- An order that the broker lists as open. -/
def recordOpen (observedAt : Instant) (p : Progress) (order : AlpacaPaperOrder) : Progress where
  ledger := recordOrderState p.ledger order observedAt
  brokerByClientId := p.brokerByClientId.set order.clientOrderId order
  mismatches := if (p.brokerByClientId.get? order.clientOrderId).isSome then
      p.mismatches ++ [.duplicateBrokerClientOrderId order.clientOrderId]
    else p.mismatches

/-- An order that the ledger knows. -/
def settleLocal (gateway : Gateway) (observedAt : Instant) (p : Progress) (entry : String × AlpacaPaperOrder) :
    Progress :=
  if entry.2.status ∈ terminalOrderStatuses then p
  else match (p.brokerByClientId.get? entry.1).or (gateway.findOrderByClientId entry.1) with
    | none => { p with mismatches := p.mismatches ++ [.localOrderMissingAtBroker entry.1] }
    | some order => { p with ledger := recordOrderState p.ledger order observedAt }

def reconcile (ledger : Ledger) (gateway : Gateway) (observedAt : Instant) : Ledger × ReconciliationResult :=
  let account := gateway.account
  let blocked := if account.accountBlocked || account.tradingBlocked then [Mismatch.brokerTradingBlocked] else []
  let p := gateway.openOrders.foldl (recordOpen observedAt) { ledger, mismatches := blocked }
  let p := (latestLocalOrderStates p.ledger).entries.foldl (settleLocal gateway observedAt) p
  let result : ReconciliationResult :=
    ⟨p.mismatches.isEmpty, account, gateway.positions, gateway.openOrders, p.mismatches⟩
  let ledger := p.ledger.append (.brokerReconciliation result) observedAt
  let ledger := if p.mismatches ≠ [] then ledger.setControl "kill_switch" "active" observedAt else ledger
  (ledger, result)

/-! ## What a reconciliation leaves -/

/-- The latest recorded state of an order, in the whole ledger. -/
def Ledger.latest (ledger : Ledger) (clientOrderId : String) : Option AlpacaPaperOrder :=
  EventLog.latest orderState ledger.rows clientOrderId

/-- The order that the broker lists under a client id, the last one where it lists several. -/
def Gateway.listed (gateway : Gateway) (clientOrderId : String) : Option AlpacaPaperOrder :=
  gateway.openOrders.reverse.find? fun order => order.clientOrderId = clientOrderId

/-- The broker's state of an order: none where it is neither listed nor found. -/
def Gateway.current (gateway : Gateway) (clientOrderId : String) : Option AlpacaPaperOrder :=
  (gateway.listed clientOrderId).or (gateway.findOrderByClientId clientOrderId)

/-- The latest recorded state is not a terminal one. -/
def Outstanding (ledger : Ledger) (clientOrderId : String) (order : AlpacaPaperOrder) : Prop :=
  ledger.latest clientOrderId = some order ∧ order.status ∉ terminalOrderStatuses

/-- Every outstanding order raises the alarm or is brought to the broker's state. -/
structure Complete (ledger : Ledger) (gateway : Gateway) (after : Ledger) (result : ReconciliationResult) : Prop where
  missing : ∀ clientOrderId order, Outstanding ledger clientOrderId order → gateway.current clientOrderId = none →
    result.healthy = false ∧ after.getControl "kill_switch" "inactive" = "active"
  settled : ∀ clientOrderId order broker, Outstanding ledger clientOrderId order →
    gateway.current clientOrderId = some broker → after.latest clientOrderId = some broker

/-- What the order manager reads of an order that the broker does not list: its latest state, if that is among the
newest events once the listed orders have been recorded. -/
def Ledger.seen (ledger : Ledger) (gateway : Gateway) (clientOrderId : String) : Option AlpacaPaperOrder :=
  (ledger.events (eventWindow - gateway.openOrders.length)).findSome? (EventLog.about orderState clientOrderId)

/-- What the order manager finds wrong. -/
def Suspect (ledger : Ledger) (gateway : Gateway) : Prop :=
  gateway.account.accountBlocked = true ∨ gateway.account.tradingBlocked = true ∨
  ¬(gateway.openOrders.map (·.clientOrderId)).Nodup ∨
  ∃ clientOrderId order, ledger.seen gateway clientOrderId = some order ∧ order.status ∉ terminalOrderStatuses ∧
    gateway.current clientOrderId = none

/-- Every outstanding order that the broker does not list is within the window, or overlooking it does no harm: the
broker has it as it is recorded, or lost it while something else is wrong. -/
def Watched (ledger : Ledger) (gateway : Gateway) : Prop :=
  ∀ clientOrderId order, Outstanding ledger clientOrderId order → gateway.listed clientOrderId = none →
    ledger.seen gateway clientOrderId = none →
    match gateway.findOrderByClientId clientOrderId with
    | some broker => broker = order
    | none => Suspect ledger gateway

section gathering

variable {gateway : Gateway} {observedAt : Instant}

/-- An order's state as the ledger records it. -/
def recorded (observedAt : Instant) (order : AlpacaPaperOrder) : Event := ⟨observedAt, .brokerOrderState order⟩

theorem about_recorded {clientOrderId : String} {order other : AlpacaPaperOrder} :
    EventLog.about orderState clientOrderId (recorded observedAt order) = some other ↔
      order.clientOrderId = clientOrderId ∧ order = other := by
  rw [EventLog.about_eq_some]
  simp [orderState, recorded]

theorem latest_recorded (orders : List AlpacaPaperOrder) (clientOrderId : String) :
    EventLog.latest orderState (orders.map (recorded observedAt)) clientOrderId =
      orders.reverse.find? fun order => order.clientOrderId = clientOrderId := by
  induction orders with
  | nil => rfl
  | cons order rest ih =>
    rw [List.map_cons, List.reverse_cons, List.find?_append, ← List.singleton_append, EventLog.latest_append, ih]
    congr 1
    by_cases same : order.clientOrderId = clientOrderId <;>
      simp [EventLog.latest, EventLog.about, orderState, recorded, same]

theorem Gateway.listed_id {clientOrderId : String} {order : AlpacaPaperOrder}
    (listed : gateway.listed clientOrderId = some order) : order.clientOrderId = clientOrderId := by
  simpa using List.find?_some listed

theorem Gateway.current_id {clientOrderId : String} {order : AlpacaPaperOrder}
    (current : gateway.current clientOrderId = some order) : order.clientOrderId = clientOrderId := by
  unfold Gateway.current at current
  cases listed : gateway.listed clientOrderId with
  | some other =>
    rw [listed] at current
    obtain rfl : other = order := Option.some.inj current
    exact gateway.listed_id listed
  | none =>
    rw [listed] at current
    exact gateway.identified _ _ current

theorem recordOpen_rows (p : Progress) (orders : List AlpacaPaperOrder) :
    (orders.foldl (recordOpen observedAt) p).ledger.rows = p.ledger.rows ++ orders.map (recorded observedAt) ∧
    (orders.foldl (recordOpen observedAt) p).ledger.controls = p.ledger.controls := by
  induction orders generalizing p with
  | nil => exact ⟨(List.append_nil _).symm, rfl⟩
  | cons order rest ih =>
    obtain ⟨rows, controls⟩ := ih (recordOpen observedAt p order)
    refine ⟨rows.trans ?_, controls⟩
    simp [recordOpen, recordOrderState, Ledger.append, recorded]

theorem recordOpen_known (p : Progress) (orders : List AlpacaPaperOrder) (clientOrderId : String) :
    (orders.foldl (recordOpen observedAt) p).brokerByClientId.get? clientOrderId =
      (orders.reverse.find? fun order => order.clientOrderId = clientOrderId).or
        (p.brokerByClientId.get? clientOrderId) := by
  induction orders generalizing p with
  | nil => rfl
  | cons order rest ih =>
    rw [List.foldl_cons, ih, List.reverse_cons, List.find?_append, Option.or_assoc]
    congr 1
    simp only [recordOpen, Dict.get?_set]
    by_cases same : order.clientOrderId = clientOrderId <;> simp [same]

/-- Listing the open orders finds nothing wrong exactly if no client id is listed twice. -/
theorem recordOpen_clean (p : Progress) (orders : List AlpacaPaperOrder) :
    (orders.foldl (recordOpen observedAt) p).mismatches = [] ↔
      p.mismatches = [] ∧ (orders.map (·.clientOrderId)).Nodup ∧
      ∀ order ∈ orders, p.brokerByClientId.get? order.clientOrderId = none := by
  induction orders generalizing p with
  | nil => simp
  | cons order rest ih =>
    rw [List.foldl_cons, ih]
    simp only [recordOpen, Dict.get?_set, List.map_cons, List.nodup_cons, List.mem_cons, forall_eq_or_imp,
      List.mem_map, not_exists, not_and]
    cases known : p.brokerByClientId.get? order.clientOrderId with
    | some other => simp
    | none =>
      simp only [Option.isSome_none, Bool.false_eq_true, if_false, true_and]
      constructor
      · rintro ⟨clean, distinct, fresh⟩
        refine ⟨clean, ⟨fun other member same => ?_, distinct⟩, fun other member => ?_⟩
        · simpa [same] using fresh other member
        · by_contra present
          have absent := fresh other member
          split at absent
          next => cases absent
          next => exact present absent
      · rintro ⟨clean, ⟨unlisted, distinct⟩, fresh⟩
        refine ⟨clean, distinct, fun other member => ?_⟩
        rw [if_neg (Ne.symm (unlisted other member)), fresh other member]

end gathering

section settling

variable {gateway : Gateway} {observedAt : Instant}

/-- The state that settling an entry of the ledger records. -/
def Gateway.settles (gateway : Gateway) (entry : String × AlpacaPaperOrder) : Option AlpacaPaperOrder :=
  if entry.2.status ∈ terminalOrderStatuses then none else gateway.current entry.1

theorem settleLocal_eq {p : Progress} (known : ∀ id, p.brokerByClientId.get? id = gateway.listed id)
    (entry : String × AlpacaPaperOrder) : settleLocal gateway observedAt p entry =
      if entry.2.status ∈ terminalOrderStatuses then p
      else match gateway.current entry.1 with
        | none => { p with mismatches := p.mismatches ++ [.localOrderMissingAtBroker entry.1] }
        | some order => { p with ledger := recordOrderState p.ledger order observedAt } := by
  unfold settleLocal Gateway.current
  rw [known]

theorem settleLocal_rows {p : Progress} (known : ∀ id, p.brokerByClientId.get? id = gateway.listed id)
    (entries : List (String × AlpacaPaperOrder)) :
    (entries.foldl (settleLocal gateway observedAt) p).ledger.rows =
      p.ledger.rows ++ (entries.filterMap gateway.settles).map (recorded observedAt) ∧
    (entries.foldl (settleLocal gateway observedAt) p).ledger.controls = p.ledger.controls := by
  induction entries generalizing p with
  | nil => exact ⟨(List.append_nil _).symm, rfl⟩
  | cons entry rest ih =>
    have settles : gateway.settles entry =
      if entry.2.status ∈ terminalOrderStatuses then none else gateway.current entry.1 := rfl
    rw [List.foldl_cons, List.filterMap_cons, settleLocal_eq known, settles]
    by_cases terminal : entry.2.status ∈ terminalOrderStatuses
    · rw [if_pos terminal, if_pos terminal]
      exact ih known
    · rw [if_neg terminal, if_neg terminal]
      cases current : gateway.current entry.1 with
      | none => exact ih (p := { p with mismatches := _ }) known
      | some order =>
        obtain ⟨rows, controls⟩ := ih (p := { p with ledger := recordOrderState p.ledger order observedAt }) known
        refine ⟨rows.trans ?_, controls⟩
        simp [recordOrderState, Ledger.append, recorded]

/-- Settling finds nothing wrong exactly if the broker has every entry that is not terminal. -/
theorem settleLocal_clean {p : Progress} (known : ∀ id, p.brokerByClientId.get? id = gateway.listed id)
    (entries : List (String × AlpacaPaperOrder)) :
    (entries.foldl (settleLocal gateway observedAt) p).mismatches = [] ↔
      p.mismatches = [] ∧ ∀ entry ∈ entries, entry.2.status ∉ terminalOrderStatuses → gateway.current entry.1 ≠ none := by
  induction entries generalizing p with
  | nil => simp
  | cons entry rest ih =>
    rw [List.foldl_cons, settleLocal_eq known, List.forall_mem_cons]
    by_cases terminal : entry.2.status ∈ terminalOrderStatuses
    · rw [if_pos terminal]
      exact (ih known).trans (and_congr_right fun _ => by simp [terminal])
    · rw [if_neg terminal]
      cases current : gateway.current entry.1 with
      | none =>
        refine (ih (p := { p with mismatches := p.mismatches ++ [.localOrderMissingAtBroker entry.1] }) known).trans
          ⟨fun clean => ?_, fun clean => ?_⟩
        · simp at clean
        · exact absurd rfl (clean.2.1 terminal)
      | some order =>
        refine (ih (p := { p with ledger := recordOrderState p.ledger order observedAt }) known).trans ?_
        simp

variable (observedAt) in
/-- What is recorded for an order while settling is the broker's state of it. -/
theorem settles_latest {entries : List (String × AlpacaPaperOrder)} {clientOrderId : String} {order : AlpacaPaperOrder}
    (latest : EventLog.latest orderState ((entries.filterMap gateway.settles).map (recorded observedAt))
      clientOrderId = some order) :
    gateway.current clientOrderId = some order ∧ ∃ local_, (clientOrderId, local_) ∈ entries := by
  rw [latest_recorded] at latest
  have same : order.clientOrderId = clientOrderId := by simpa using List.find?_some latest
  have member := List.mem_reverse.mp (List.mem_of_find?_eq_some latest)
  obtain ⟨entry, inside, settled⟩ := List.mem_filterMap.mp member
  unfold Gateway.settles at settled
  split at settled
  next => cases settled
  next =>
    obtain rfl : entry.1 = clientOrderId := (gateway.current_id settled).symm.trans same
    exact ⟨settled, entry.2, inside⟩

theorem settles_latest_of {entries : List (String × AlpacaPaperOrder)} {clientOrderId : String}
    {local_ broker : AlpacaPaperOrder} (member : (clientOrderId, local_) ∈ entries)
    (active : local_.status ∉ terminalOrderStatuses) (current : gateway.current clientOrderId = some broker) :
    EventLog.latest orderState ((entries.filterMap gateway.settles).map (recorded observedAt)) clientOrderId =
      some broker := by
  have settled : gateway.settles (clientOrderId, local_) = some broker := (if_neg active).trans current
  rw [latest_recorded]
  cases found : (entries.filterMap gateway.settles).reverse.find? fun order => order.clientOrderId = clientOrderId with
  | none =>
    have absent := List.find?_eq_none.mp found broker
      (List.mem_reverse.mpr (List.mem_filterMap.mpr ⟨_, member, settled⟩))
    simp [gateway.current_id current] at absent
  | some order =>
    have latest := (settles_latest observedAt ((latest_recorded _ _).trans found)).1
    rw [← latest, current]

end settling

section reconciliation

variable (ledger : Ledger) (gateway : Gateway) (observedAt : Instant)

/-- The progress after the orders that the broker lists. -/
def listing : Progress :=
  gateway.openOrders.foldl (recordOpen observedAt)
    { ledger, mismatches := if gateway.account.accountBlocked || gateway.account.tradingBlocked then
        [.brokerTradingBlocked] else [] }

/-- The progress after the orders that the ledger knows as well. -/
def gathered : Progress :=
  (latestLocalOrderStates (listing ledger gateway observedAt).ledger).entries.foldl (settleLocal gateway observedAt)
    (listing ledger gateway observedAt)

theorem listing_rows : (listing ledger gateway observedAt).ledger.rows =
    ledger.rows ++ gateway.openOrders.map (recorded observedAt) := (recordOpen_rows _ gateway.openOrders).1

theorem listing_known (clientOrderId : String) :
    (listing ledger gateway observedAt).brokerByClientId.get? clientOrderId = gateway.listed clientOrderId :=
  (recordOpen_known _ gateway.openOrders clientOrderId).trans (Option.or_none ..)

/-- Of an order that the broker does not list, the order manager reads what it has seen of it. -/
theorem states_unlisted {clientOrderId : String} (unlisted : gateway.listed clientOrderId = none) :
    (latestLocalOrderStates (listing ledger gateway observedAt).ledger).get? clientOrderId =
      ledger.seen gateway clientOrderId := by
  have silent : (EventLog.newest eventWindow (gateway.openOrders.map (recorded observedAt))).findSome?
      (EventLog.about orderState clientOrderId) = none := by
    cases found : (EventLog.newest eventWindow (gateway.openOrders.map (recorded observedAt))).findSome?
        (EventLog.about orderState clientOrderId) with
    | none => rfl
    | some order =>
      have latest := EventLog.newest_latest found
      rw [latest_recorded] at latest
      cases unlisted.symm.trans latest
  unfold latestLocalOrderStates Ledger.events
  rw [EventLog.get?_firsts, listing_rows, EventLog.newest_append, List.findSome?_append,
    silent, List.length_map]
  rfl

theorem gathered_clean : (gathered ledger gateway observedAt).mismatches = [] ↔ ¬Suspect ledger gateway := by
  unfold gathered
  rw [settleLocal_clean (listing_known ledger gateway observedAt)]
  unfold listing
  rw [recordOpen_clean]
  change (_ ∧ _) ∧ (∀ entry ∈ (latestLocalOrderStates (listing ledger gateway observedAt).ledger).entries, _) ↔ _
  unfold Suspect
  simp only [Dict.get?_empty, implies_true, and_true, not_or, not_not, not_exists, not_and]
  constructor
  · rintro ⟨⟨allowed, distinct⟩, kept⟩
    have unblocked : (gateway.account.accountBlocked || gateway.account.tradingBlocked) = false := by
      by_contra blocked
      rw [if_pos (Bool.not_eq_false _ ▸ blocked)] at allowed
      cases allowed
    simp only [Bool.or_eq_false_iff] at unblocked
    refine ⟨by simp [unblocked.1], by simp [unblocked.2], distinct, fun clientOrderId order seen active gone => ?_⟩
    have unlisted : gateway.listed clientOrderId = none := (Option.or_eq_none_iff.mp gone).1
    have state := (states_unlisted ledger gateway observedAt unlisted).trans seen
    exact kept (clientOrderId, order) (Dict.mem_entries.mpr state) active gone
  · rintro ⟨account, trading, distinct, found⟩
    refine ⟨⟨if_neg (by simp [account, trading]), distinct⟩, fun entry member active gone => ?_⟩
    have unlisted : gateway.listed entry.1 = none := (Option.or_eq_none_iff.mp gone).1
    have state := (states_unlisted ledger gateway observedAt unlisted).symm.trans (Dict.mem_entries.mp member)
    exact found entry.1 entry.2 state active gone

/-- After the orders come the result and the kill switch, which record no order. -/
theorem reconcile_rows : ∃ tail, (reconcile ledger gateway observedAt).1.rows =
    (gathered ledger gateway observedAt).ledger.rows ++ tail ∧ ∀ event ∈ tail, orderState event = none := by
  change ∃ tail, (if (gathered ledger gateway observedAt).mismatches ≠ [] then _ else _ : Ledger).rows = _ ∧ _
  split
  next =>
    refine ⟨_, List.append_assoc _ _ _, ?_⟩
    simp [orderState]
  next =>
    refine ⟨_, rfl, ?_⟩
    simp [orderState]

/-- The latest recorded state after a reconciliation: what it settled, what it listed, or what was there. -/
theorem reconcile_latest (clientOrderId : String) :
    (reconcile ledger gateway observedAt).1.latest clientOrderId =
      (EventLog.latest orderState
        (((latestLocalOrderStates (listing ledger gateway observedAt).ledger).entries.filterMap
          gateway.settles).map (recorded observedAt)) clientOrderId).or
        ((gateway.listed clientOrderId).or (ledger.latest clientOrderId)) := by
  obtain ⟨tail, rows, silent⟩ := reconcile_rows ledger gateway observedAt
  have quiet : EventLog.latest orderState tail clientOrderId = none :=
    EventLog.latest_none fun event member => by simp [EventLog.about, silent event member]
  unfold Ledger.latest
  rw [rows, EventLog.latest_append, quiet, Option.none_or]
  unfold gathered
  rw [(settleLocal_rows (listing_known ledger gateway observedAt) _).1, EventLog.latest_append, listing_rows,
    EventLog.latest_append, latest_recorded gateway.openOrders]
  rfl

theorem reconcile_healthy : (reconcile ledger gateway observedAt).2.healthy = true ↔ ¬Suspect ledger gateway :=
  List.isEmpty_iff.trans (gathered_clean ledger gateway observedAt)

theorem reconcile_killSwitch (suspect : Suspect ledger gateway) :
    (reconcile ledger gateway observedAt).1.getControl "kill_switch" "inactive" = "active" := by
  have wrong : (gathered ledger gateway observedAt).mismatches ≠ [] :=
    fun clean => (gathered_clean ledger gateway observedAt).mp clean suspect
  change (if (gathered ledger gateway observedAt).mismatches ≠ [] then _ else _ : Ledger).getControl _ _ = _
  rw [if_pos wrong]
  simp [Ledger.getControl, Ledger.setControl, Ledger.append, Dict.getD_set]

end reconciliation

/-- What the order manager has seen of an order is the latest of it. -/
theorem seen_latest {ledger : Ledger} {gateway : Gateway} {clientOrderId : String} {order : AlpacaPaperOrder}
    (seen : ledger.seen gateway clientOrderId = some order) : ledger.latest clientOrderId = some order :=
  EventLog.newest_latest seen

/-- An order that is neither listed nor seen keeps its latest recorded state. -/
theorem reconcile_overlooked {ledger : Ledger} {gateway : Gateway} (observedAt : Instant) {clientOrderId : String}
    (unlisted : gateway.listed clientOrderId = none) (unseen : ledger.seen gateway clientOrderId = none) :
    (reconcile ledger gateway observedAt).1.latest clientOrderId = ledger.latest clientOrderId := by
  rw [reconcile_latest, unlisted, Option.none_or]
  cases settled : EventLog.latest orderState
      (((latestLocalOrderStates (listing ledger gateway observedAt).ledger).entries.filterMap
        gateway.settles).map (recorded observedAt)) clientOrderId with
  | none => rfl
  | some order =>
    obtain ⟨-, other, member⟩ := settles_latest observedAt settled
    have state := (states_unlisted ledger gateway observedAt unlisted).symm.trans (Dict.mem_entries.mp member)
    rw [unseen] at state
    cases state

/-- An order that is listed, or seen while it is outstanding, ends in the broker's state. -/
theorem reconcile_settled {ledger : Ledger} {gateway : Gateway} (observedAt : Instant) {clientOrderId : String}
    {order broker : AlpacaPaperOrder} (outstanding : Outstanding ledger clientOrderId order)
    (current : gateway.current clientOrderId = some broker)
    (noticed : gateway.listed clientOrderId ≠ none ∨ ledger.seen gateway clientOrderId ≠ none) :
    (reconcile ledger gateway observedAt).1.latest clientOrderId = some broker := by
  rw [reconcile_latest]
  cases settled : EventLog.latest orderState
      (((latestLocalOrderStates (listing ledger gateway observedAt).ledger).entries.filterMap
        gateway.settles).map (recorded observedAt)) clientOrderId with
  | some other =>
    rw [← (settles_latest observedAt settled).1, current]
    rfl
  | none =>
    cases listed : gateway.listed clientOrderId with
    | some other =>
      rw [Gateway.current, listed] at current
      exact current
    | none =>
      obtain ⟨seen, found⟩ := Option.ne_none_iff_exists'.mp (noticed.resolve_left fun some_ => some_ listed)
      obtain rfl : seen = order := Option.some.inj ((seen_latest found).symm.trans outstanding.1)
      have state := (states_unlisted ledger gateway observedAt listed).trans found
      rw [settles_latest_of (Dict.mem_entries.mpr state) outstanding.2 current] at settled
      cases settled

/-- A reconciliation is complete exactly if no outstanding order is overlooked to any harm. -/
theorem reconcile_complete_iff (ledger : Ledger) (gateway : Gateway) (observedAt : Instant) :
    Complete ledger gateway (reconcile ledger gateway observedAt).1 (reconcile ledger gateway observedAt).2 ↔
      Watched ledger gateway := by
  have alarmed : Suspect ledger gateway ↔ (reconcile ledger gateway observedAt).2.healthy = false := by
    rw [← Bool.not_eq_true, reconcile_healthy, not_not]
  constructor
  · rintro ⟨missing, settled⟩ clientOrderId order outstanding unlisted unseen
    cases found : gateway.findOrderByClientId clientOrderId with
    | none =>
      refine alarmed.mpr (missing clientOrderId order outstanding ?_).1
      rw [Gateway.current, unlisted, found]
      rfl
    | some broker =>
      have after := settled clientOrderId order broker outstanding (by rw [Gateway.current, unlisted, found]; rfl)
      rw [reconcile_overlooked observedAt unlisted unseen, outstanding.1] at after
      exact (Option.some.inj after).symm
  · intro watched
    refine ⟨fun clientOrderId order outstanding gone => ?_, fun clientOrderId order broker outstanding current => ?_⟩
    · obtain ⟨unlisted, lost⟩ := Option.or_eq_none_iff.mp gone
      have suspect : Suspect ledger gateway := by
        cases seen : ledger.seen gateway clientOrderId with
        | none =>
          have harmless := watched clientOrderId order outstanding unlisted seen
          rw [lost] at harmless
          exact harmless
        | some other =>
          obtain rfl : other = order := Option.some.inj ((seen_latest seen).symm.trans outstanding.1)
          exact .inr (.inr (.inr ⟨clientOrderId, other, seen, outstanding.2, gone⟩))
      exact ⟨alarmed.mp suspect, reconcile_killSwitch ledger gateway observedAt suspect⟩
    · by_cases noticed : gateway.listed clientOrderId ≠ none ∨ ledger.seen gateway clientOrderId ≠ none
      · exact reconcile_settled observedAt outstanding current noticed
      · simp only [not_or, not_not] at noticed
        obtain ⟨unlisted, unseen⟩ := noticed
        have harmless := watched clientOrderId order outstanding unlisted unseen
        rw [Gateway.current, unlisted, Option.none_or] at current
        rw [current] at harmless
        rw [reconcile_overlooked observedAt unlisted unseen, outstanding.1, harmless]

/-- An order that the ledger has as new. -/
def forgottenOrder : AlpacaPaperOrder :=
  { id := "b-1", clientOrderId := "c-1", status := .new, symbol := "SPY", side := .buy, quantity := some 1,
    filledQuantity := 0, filledAveragePrice := none, createdAt := .aware 0, sizeBasis := fun absent => nomatch absent }

def accountEvent : Event := ⟨0, .other "account_snapshot"⟩

/-- The order, and then so many events of another kind. -/
def longLedger (events : ℕ) : Ledger where
  rows := recorded 0 forgottenOrder :: List.replicate events accountEvent

/-- A broker that knows no order. -/
def emptyBroker : Gateway where
  account :=
    { id := "paper", status := "ACTIVE", currency := "USD", cash := 100000, portfolioValue := 100000,
      buyingPower := 100000, tradingBlocked := false, transfersBlocked := false, accountBlocked := false }
  positions := []
  openOrders := []
  findOrderByClientId := fun _ => none
  identified := fun _ _ found => nomatch found

theorem longLedger_outstanding (events : ℕ) : Outstanding (longLedger events) "c-1" forgottenOrder := by
  refine ⟨EventLog.latest_of_agree ?_ (List.mem_cons_self : recorded 0 forgottenOrder ∈ _)
    (about_recorded.mpr ⟨rfl, rfl⟩), by decide⟩
  intro event member order about
  rcases List.mem_cons.mp member with rfl | member
  · exact (about_recorded.mp about).2.symm
  · rw [List.eq_of_mem_replicate member] at about
    exact nomatch (about : none = some order)

/-- Once enough other events have followed, nothing looks wrong. -/
theorem longLedger_unsuspected {events : ℕ} (long : eventWindow ≤ events) :
    ¬Suspect (longLedger events) emptyBroker := by
  rintro (blocked | blocked | repeated | ⟨clientOrderId, order, seen, -, -⟩)
  · exact nomatch (blocked : false = true)
  · exact nomatch (blocked : false = true)
  · exact repeated List.nodup_nil
  · obtain ⟨event, member, about⟩ := List.exists_of_findSome?_eq_some seen
    -- The window ends before the order's event.
    have newest : (longLedger events).events eventWindow ⊆ List.replicate events accountEvent := by
      unfold Ledger.events EventLog.newest longLedger
      rw [List.reverse_cons, List.reverse_replicate, List.take_append_of_le_length (by simpa using long)]
      exact List.take_subset _ _
    rw [List.eq_of_mem_replicate (newest member)] at about
    exact nomatch (about : none = some order)

/-- The order is gone at the broker, and the reconciliation finds everything healthy. -/
theorem forgotten_order_healthy : ∃ ledger gateway observedAt,
    gateway.current "c-1" = none ∧ Outstanding ledger "c-1" forgottenOrder ∧
    ¬Complete ledger gateway (reconcile ledger gateway observedAt).1 (reconcile ledger gateway observedAt).2 := by
  have outstanding := longLedger_outstanding eventWindow
  have healthy := (reconcile_healthy (longLedger eventWindow) emptyBroker 0).mpr (longLedger_unsuspected le_rfl)
  refine ⟨longLedger eventWindow, emptyBroker, 0, rfl, outstanding, fun complete => ?_⟩
  have alarm := (complete.missing "c-1" forgottenOrder outstanding rfl).1
  rw [healthy] at alarm
  cases alarm

end TradeAgent.Oms
