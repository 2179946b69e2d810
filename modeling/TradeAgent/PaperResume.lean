import TradeAgent.PaperAccount
import TradeAgent.TradingEngine

/-! Stopping the paper command after any ledger append and starting it again. The
checkpoint and the replayed marks restore the broker and the replayed bars the strategy;
only the hourly order window starts empty. -/
namespace TradeAgent.Trading

open Paper Risk

variable {σ : Type} (s : Setup σ)

/-- What every broker of a single-symbol run satisfies. -/
structure Steady (symbol : String) (b : PaperBroker) : Prop where
  config : b.config = s.config.broker
  only : ∀ key ∈ b.positions.keys, key = symbol
  marked : Marked b
  settled : Settled b
  named : ∀ id fill, b.fills.get? id = some fill → fill.clientOrderId = id
  balanced : Balanced b

theorem init_steady (symbol : String) : Steady s symbol (init s.config.broker) where
  config := rfl
  only key present := by cases present
  marked := init_marked _
  settled := init_settled _
  named id fill present := by cases present
  balanced := init_balanced _

variable {s}

theorem Steady.mark {b : PaperBroker} {bar : MarketBar} (steady : Steady s bar.symbol b) :
    Steady s bar.symbol (mark b bar) where
  config := by rw [mark_config]; exact steady.config
  only := by rw [mark_positions]; exact steady.only
  marked := mark_marked b bar fun symbol present other => absurd (steady.only symbol present) other
  settled := mark_settled b bar
  named := by rw [mark_fills]; exact steady.named
  balanced := steady.balanced.mark bar

theorem Steady.filled {b after : PaperBroker} {order : OrderRequest} {bar : MarketBar} {fill : Fill}
    (steady : Steady s bar.symbol b) (submitted : submit b order bar = (after, .ok fill))
    (filled : Filled b order bar after fill) : Steady s bar.symbol after where
  config := by rw [filled.config]; exact steady.config
  only symbol present := by
    rcases filled.positionKeys symbol present with same | old
    · exact same.trans filled.symbol
    · exact steady.only symbol old
  marked := filled.marked steady.marked
  settled := filled.settled
  named id other present := by
    rw [filled.fills, Dict.get?_set] at present
    split at present
    next same => cases present; exact filled.named.1.trans same
    next => exact steady.named id other present
  balanced := by
    have kept := submit_balanced steady.balanced order bar
    rwa [submitted] at kept

/-- With at most one symbol, sorting the positions changes nothing. -/
theorem Steady.sorted {symbol : String} {b : PaperBroker} (steady : Steady s symbol b) :
    sortedPositions b = b.positions.entries := by
  have distinct := b.positions.distinct
  have only : ∀ e ∈ b.positions.entries, e.1 = symbol := fun e member =>
    steady.only e.1 (List.mem_map_of_mem member)
  unfold sortedPositions
  match entries : b.positions.entries with
  | [] => exact List.mergeSort_nil
  | [e] => exact List.mergeSort_singleton e
  | e :: f :: rest =>
    rw [entries] at distinct only
    have one := only e (by simp)
    have two := only f (by simp)
    simp [one, two] at distinct

theorem Steady.restores {symbol : String} {b : PaperBroker} {state : PaperBrokerState}
    (steady : Steady s symbol b) (saved : exportState b = .ok state) :
    fromState s.config.broker state = b := by
  rw [← steady.config]
  exact fromState_exportState steady.sorted steady.named saved

theorem Steady.reads {symbol : String} {b after : PaperBroker} {a : AccountSnapshot} {asOf : Instant}
    (steady : Steady s symbol b) (read : account b asOf = (after, .ok a)) : after = b ∧ Reads b a :=
  ⟨account_settled steady.marked steady.settled read, (account_ok read).2⟩

variable (s)

/-- The order a bar leads to, given the account read after the mark. -/
def planned (e : Engine σ) (bar : MarketBar) (a : AccountSnapshot) : Option OrderRequest :=
  (s.onBar e.strategy bar).1.bind fun intent => orderToward s a intent a.equity bar

def judged (e : Engine σ) (order : OrderRequest) (bar : MarketBar) (a : AccountSnapshot) :
    RiskEngine × RiskDecision :=
  evaluate e.risk order bar a bar.timestamp s.config.tradingEnabled

def intents (e : Engine σ) (bar : MarketBar) : List LedgerEvent :=
  ((s.onBar e.strategy bar).1.map fun intent => ⟨.tradeIntent intent, bar.timestamp⟩).toList

variable {s}

theorem planned_order {e : Engine σ} {bar : MarketBar} {a : AccountSnapshot} {order : OrderRequest}
    (plan : planned s e bar a = some order) :
    order.orderType = .market ∧ ∃ intent, (s.onBar e.strategy bar).1 = some intent ∧
      order.clientOrderId = intentId s intent := by
  obtain ⟨intent, emitted, ordered⟩ := Option.bind_eq_some_iff.mp plan
  unfold orderToward at ordered
  dsimp only at ordered
  split at ordered
  next => cases ordered; exact ⟨rfl, intent, emitted, rfl⟩
  next => cases ordered

/-- A bar once its account can be read: quiet, rejected, or submitted. -/
theorem processBar_eq {e : Engine σ} {bar : MarketBar} {a : AccountSnapshot}
    (read : account (mark e.broker bar) bar.timestamp = (mark e.broker bar, .ok a)) :
    processBar s e bar none = match planned s e bar a with
      | none => .ok (⟨mark e.broker bar, e.risk, (s.onBar e.strategy bar).2⟩,
          intents s e bar ++ [progressed s bar])
      | some order =>
        let decided : LedgerEvent := ⟨.riskDecision (judged s e order bar a).2, bar.timestamp⟩
        if (judged s e order bar a).2.approved then do
          let (broker, events) ← fulfil (mark e.broker bar) order bar
          .ok (⟨broker, (judged s e order bar a).1, (s.onBar e.strategy bar).2⟩,
            intents s e bar ++ [decided] ++ events ++ [progressed s bar])
        else .ok (⟨mark e.broker bar, (judged s e order bar a).1, (s.onBar e.strategy bar).2⟩,
          intents s e bar ++ [decided, progressed s bar]) := by
  unfold processBar planned intents planOrder judged
  rcases emitted : s.onBar e.strategy bar with ⟨_ | intent, strategy⟩
  · simp [read, accept, bind, Except.bind]
  · cases ordered : orderToward s a intent a.equity bar <;>
      simp [read, accept, bind, Except.bind, ordered]

theorem processBar_reads {e e' : Engine σ} {bar : MarketBar} {events : List LedgerEvent}
    (steady : Steady s bar.symbol e.broker) (processed : processBar s e bar none = .ok (e', events)) :
    ∃ a, account (mark e.broker bar) bar.timestamp = (mark e.broker bar, .ok a) ∧
      Reads (mark e.broker bar) a := by
  unfold processBar at processed
  rcases emitted : s.onBar e.strategy bar with ⟨intent, strategy⟩
  simp only [emitted] at processed
  obtain ⟨⟨after, a⟩, accepted, _⟩ := bind_ok_iff.mp processed
  have read := accept_ok.mp accepted
  obtain ⟨rfl, reads⟩ := steady.mark.reads read
  exact ⟨a, read, reads⟩

theorem fulfil_ok {b after : PaperBroker} {order : OrderRequest} {bar : MarketBar}
    {events : List LedgerEvent} (done : fulfil b order bar = .ok (after, events)) :
    ∃ (middle : PaperBroker) (fill : Fill) (a : AccountSnapshot) (state : PaperBrokerState),
      submit b order bar = (middle, .ok fill) ∧
      account middle bar.timestamp = (after, .ok a) ∧ exportState after = .ok state ∧
      events = [⟨.orderSubmitted order, bar.timestamp⟩, ⟨.orderFilled fill, bar.timestamp⟩,
        ⟨.brokerCheckpoint state, bar.timestamp⟩] := by
  unfold fulfil at done
  obtain ⟨⟨middle, fill⟩, submitted, rest⟩ := bind_ok_iff.mp done
  obtain ⟨⟨last, a⟩, read, rest⟩ := bind_ok_iff.mp rest
  obtain ⟨state, saved, rest⟩ := bind_ok_iff.mp rest
  cases rest
  exact ⟨middle, fill, a, state, accept_ok.mp submitted, accept_ok.mp read, exported_ok.mp saved, rfl⟩

/-- An id filled before: the old fill is recorded again and the broker stays. -/
theorem fulfil_used {b : PaperBroker} {order : OrderRequest} {bar : MarketBar} {fill : Fill}
    {a : AccountSnapshot} {state : PaperBrokerState} (market : order.orderType = .market)
    (used : b.fills.get? order.clientOrderId = some fill)
    (read : account b bar.timestamp = (b, .ok a)) (saved : exportState b = .ok state) :
    ∃ events, fulfil b order bar = .ok (b, events) := by
  have submitted : submit b order bar = (b, .ok fill) := by
    rw [submit, if_neg (not_not.mpr market), used]
  have kept : exported b = .ok state := exported_ok.mpr saved
  refine ⟨[⟨.orderSubmitted order, bar.timestamp⟩, ⟨.orderFilled fill, bar.timestamp⟩,
    ⟨.brokerCheckpoint state, bar.timestamp⟩], ?_⟩
  simp only [fulfil, submitted, accept, read, kept, bind, Except.bind]

/-- What processing a bar can do to an engine and which events it appends. -/
inductive Stepped (s : Setup σ) (e : Engine σ) (bar : MarketBar) (a : AccountSnapshot) :
    Engine σ → List LedgerEvent → Prop where
  | quiet (idle : planned s e bar a = none) :
      Stepped s e bar a ⟨mark e.broker bar, e.risk, (s.onBar e.strategy bar).2⟩
        (intents s e bar ++ [progressed s bar])
  | rejected (order : OrderRequest) (plan : planned s e bar a = some order)
      (refused : (judged s e order bar a).2.approved = false) :
      Stepped s e bar a
        ⟨mark e.broker bar, (judged s e order bar a).1, (s.onBar e.strategy bar).2⟩
        (intents s e bar ++ [⟨.riskDecision (judged s e order bar a).2, bar.timestamp⟩,
          progressed s bar])
  | submitted (order : OrderRequest) (after : PaperBroker) (fill : Fill) (state : PaperBrokerState)
      (later : AccountSnapshot) (plan : planned s e bar a = some order)
      (approved : (judged s e order bar a).2.approved = true)
      (sent : submit (mark e.broker bar) order bar = (after, .ok fill))
      (read : account after bar.timestamp = (after, .ok later))
      (saved : exportState after = .ok state) :
      Stepped s e bar a ⟨after, (judged s e order bar a).1, (s.onBar e.strategy bar).2⟩
        (intents s e bar ++ [⟨.riskDecision (judged s e order bar a).2, bar.timestamp⟩,
          ⟨.orderSubmitted order, bar.timestamp⟩, ⟨.orderFilled fill, bar.timestamp⟩,
          ⟨.brokerCheckpoint state, bar.timestamp⟩, progressed s bar])

theorem submit_steady {b after : PaperBroker} {order : OrderRequest} {bar : MarketBar} {fill : Fill}
    (steady : Steady s bar.symbol b) (sent : submit b order bar = (after, .ok fill)) :
    Steady s bar.symbol after := by
  rcases submit_ok sent with ⟨_, rfl⟩ | filled
  · exact steady
  · exact steady.filled sent filled

theorem processBar_stepped {e e' : Engine σ} {bar : MarketBar} {events : List LedgerEvent}
    (steady : Steady s bar.symbol e.broker) (processed : processBar s e bar none = .ok (e', events)) :
    ∃ a, account (mark e.broker bar) bar.timestamp = (mark e.broker bar, .ok a) ∧
      Reads (mark e.broker bar) a ∧ Stepped s e bar a e' events := by
  obtain ⟨a, read, reads⟩ := processBar_reads steady processed
  refine ⟨a, read, reads, ?_⟩
  rw [processBar_eq read] at processed
  cases plan : planned s e bar a with
  | none => rw [plan] at processed; cases processed; exact .quiet plan
  | some order =>
    rw [plan] at processed
    dsimp only at processed
    split at processed
    next approved =>
      obtain ⟨⟨after, made⟩, done, rest⟩ := bind_ok_iff.mp processed
      obtain ⟨middle, fill, later, state, sent, accounted, saved, rfl⟩ := fulfil_ok done
      obtain ⟨rfl, _⟩ := (submit_steady steady.mark sent).reads accounted
      cases rest
      simpa using Stepped.submitted order after fill state later plan approved sent accounted saved
    next refused =>
      cases processed
      exact .rejected order plan (by simpa using refused)

namespace Stepped

variable {e e' : Engine σ} {bar : MarketBar} {a : AccountSnapshot} {events : List LedgerEvent}

theorem strategy (stepped : Stepped s e bar a e' events) :
    e'.strategy = (s.onBar e.strategy bar).2 := by cases stepped <;> rfl

theorem limits (stepped : Stepped s e bar a e' events) :
    e'.risk.limits = e.risk.limits ∧ e'.risk.killSwitchActive = e.risk.killSwitchActive := by
  cases stepped <;> exact ⟨rfl, rfl⟩

theorem steady (stepped : Stepped s e bar a e' events) (before : Steady s bar.symbol e.broker) :
    Steady s bar.symbol e'.broker := by
  cases stepped with
  | quiet => exact before.mark
  | rejected => exact before.mark
  | submitted order after fill state later plan approved sent => exact submit_steady before.mark sent

theorem broker (stepped : Stepped s e bar a e' events) :
    e'.broker = mark e.broker bar ∨
    ∃ order fill, planned s e bar a = some order ∧ Filled (mark e.broker bar) order bar e'.broker fill := by
  cases stepped with
  | quiet => exact .inl rfl
  | rejected => exact .inl rfl
  | submitted order after fill state later plan approved sent =>
    rcases submit_ok sent with ⟨_, same⟩ | filled
    · exact .inl same
    · exact .inr ⟨order, fill, plan, filled⟩

/-- The account of the broker left behind can be read. -/
theorem read (stepped : Stepped s e bar a e' events)
    (before : account (mark e.broker bar) bar.timestamp = (mark e.broker bar, .ok a)) :
    ∃ later, account e'.broker bar.timestamp = (e'.broker, .ok later) := by
  cases stepped with
  | quiet => exact ⟨a, before⟩
  | rejected => exact ⟨a, before⟩
  | submitted order after fill state later plan approved sent read => exact ⟨later, read⟩

/-- The broker left behind has seen the bar. -/
theorem seen (stepped : Stepped s e bar a e' events) : mark e'.broker bar = e'.broker := by
  rcases stepped.broker with same | ⟨order, fill, _, filled⟩
  · rw [same]
    exact mark_again (mark_sessionDate _ _) (by rw [mark_marks, Dict.get?_set_same]) (mark_settled _ _)
  · exact mark_again filled.sessionDate (by rw [filled.marks, Dict.get?_set_same]) filled.settled

/-- Fills stay, and a new one carries the bar's time. -/
theorem fills (stepped : Stepped s e bar a e' events) (id : String) (fill : Fill) :
    (e.broker.fills.get? id = some fill → e'.broker.fills.get? id = some fill) ∧
    (e'.broker.fills.get? id = some fill →
      e.broker.fills.get? id = some fill ∨ fill.filledAt = bar.timestamp) := by
  rcases stepped.broker with same | ⟨order, made, _, filled⟩
  · rw [same, mark_fills]
    exact ⟨fun known => known, fun known => .inl known⟩
  · have unused := filled.unused
    rw [filled.fills, Dict.get?_set, mark_fills]
    rw [mark_fills] at unused
    constructor
    · intro known
      rw [if_neg]
      · exact known
      · intro same
        rw [same, known] at unused
        cases unused
    · intro known
      split at known
      next => cases known; exact .inr filled.named.2.2.2
      next => exact .inl known

end Stepped

theorem processBars_cons {e e' : Engine σ} {bar : MarketBar} {rest : List MarketBar}
    {events : List LedgerEvent} :
    processBars s e (bar :: rest) = .ok (e', events) ↔
    ∃ middle here later, processBar s e bar none = .ok (middle, here) ∧
      processBars s middle rest = .ok (e', later) ∧ events = here ++ later := by
  rw [processBars]
  constructor
  · intro processed
    obtain ⟨⟨middle, here⟩, first, others⟩ := bind_ok_iff.mp processed
    obtain ⟨⟨last, later⟩, second, done⟩ := bind_ok_iff.mp others
    cases done
    exact ⟨middle, here, later, first, second, rfl⟩
  · rintro ⟨middle, here, later, first, second, rfl⟩
    exact bind_ok_iff.mpr ⟨(middle, here), first, bind_ok_iff.mpr ⟨(e', later), second, rfl⟩⟩

theorem processBars_append {e e' : Engine σ} {bars more : List MarketBar} {events : List LedgerEvent} :
    processBars s e (bars ++ more) = .ok (e', events) ↔
    ∃ middle here later, processBars s e bars = .ok (middle, here) ∧
      processBars s middle more = .ok (e', later) ∧ events = here ++ later := by
  induction bars generalizing e events with
  | nil => simp [processBars]
  | cons bar rest ih =>
    rw [List.cons_append, processBars_cons]
    constructor
    · rintro ⟨first, one, others, begun, continued, rfl⟩
      obtain ⟨middle, two, later, reached, finished, rfl⟩ := ih.mp continued
      exact ⟨middle, one ++ two, later, processBars_cons.mpr ⟨first, one, two, begun, reached, rfl⟩,
        finished, by simp⟩
    · rintro ⟨middle, here, later, reached, finished, rfl⟩
      obtain ⟨first, one, two, begun, continued, rfl⟩ := processBars_cons.mp reached
      exact ⟨first, one, two ++ later, begun, ih.mpr ⟨middle, two, later, continued, finished, rfl⟩,
        by simp⟩

theorem processBars_steady {symbol : String} {e e' : Engine σ} {bars : List MarketBar}
    {events : List LedgerEvent} (single : ∀ bar ∈ bars, bar.symbol = symbol)
    (steady : Steady s symbol e.broker) (processed : processBars s e bars = .ok (e', events)) :
    Steady s symbol e'.broker ∧ e'.risk.limits = e.risk.limits ∧
    e'.risk.killSwitchActive = e.risk.killSwitchActive := by
  induction bars generalizing e events with
  | nil => cases processed; exact ⟨steady, rfl, rfl⟩
  | cons bar rest ih =>
    obtain ⟨middle, here, later, first, others, rfl⟩ := processBars_cons.mp processed
    obtain rfl := single bar List.mem_cons_self
    obtain ⟨a, read, _, stepped⟩ := processBar_stepped steady first
    obtain ⟨kept, limits, killSwitch⟩ :=
      ih (fun x member => single x (List.mem_cons_of_mem bar member)) (stepped.steady steady) others
    exact ⟨kept, limits.trans stepped.limits.1, killSwitch.trans stepped.limits.2⟩

theorem processBars_fills {symbol : String} {e e' : Engine σ} {bars : List MarketBar}
    {events : List LedgerEvent} (single : ∀ bar ∈ bars, bar.symbol = symbol)
    (steady : Steady s symbol e.broker) (processed : processBars s e bars = .ok (e', events))
    (id : String) (fill : Fill) :
    (e.broker.fills.get? id = some fill → e'.broker.fills.get? id = some fill) ∧
    (e'.broker.fills.get? id = some fill →
      e.broker.fills.get? id = some fill ∨ ∃ bar ∈ bars, fill.filledAt = bar.timestamp) := by
  induction bars generalizing e events with
  | nil => cases processed; exact ⟨fun known => known, fun known => .inl known⟩
  | cons bar rest ih =>
    obtain ⟨middle, here, later, first, others, rfl⟩ := processBars_cons.mp processed
    obtain rfl := single bar List.mem_cons_self
    obtain ⟨a, read, _, stepped⟩ := processBar_stepped steady first
    obtain ⟨forward, back⟩ :=
      ih (fun x member => single x (List.mem_cons_of_mem bar member)) (stepped.steady steady) others
    refine ⟨fun known => forward ((stepped.fills id fill).1 known), fun known => ?_⟩
    rcases back known with before | ⟨x, member, at_⟩
    · rcases (stepped.fills id fill).2 before with old | new
      · exact .inl old
      · exact .inr ⟨bar, List.mem_cons_self, new⟩
    · exact .inr ⟨x, List.mem_cons_of_mem bar member, at_⟩

/-- Two engines that differ at most in the orders of the last hour they remember. -/
structure Twins (e r : Engine σ) : Prop where
  broker : r.broker = e.broker
  strategy : r.strategy = e.strategy
  limits : r.risk.limits = e.risk.limits
  killSwitch : r.risk.killSwitchActive = e.risk.killSwitchActive

variable (s)

/-- Where an unfilled order passes every other check, both engines' windows lead to the
same rate verdict. -/
def SameVerdict (e r : Engine σ) (bar : MarketBar) : Prop :=
  ∀ a order, account (mark e.broker bar) bar.timestamp = (mark e.broker bar, .ok a) →
    planned s e bar a = some order → e.broker.fills.get? order.clientOrderId = none →
    hardCodes e.risk order bar a bar.timestamp s.config.tradingEnabled = [] →
    e.risk.rateLimited order a bar.timestamp = r.risk.rateLimited order a bar.timestamp

/-- The verdicts agree at every bar of a run of both engines. -/
def RateAgrees : Engine σ → Engine σ → List MarketBar → Prop
  | _, _, [] => True
  | e, r, bar :: rest => SameVerdict s e r bar ∧ ∀ e' r' here there,
    processBar s e bar none = .ok (e', here) → processBar s r bar none = .ok (r', there) →
    RateAgrees e' r' rest

variable {s}

namespace Twins

variable {e r : Engine σ}

theorem planned (twins : Twins e r) (bar : MarketBar) (a : AccountSnapshot) :
    Trading.planned s r bar a = Trading.planned s e bar a := by
  simp only [Trading.planned, twins.strategy]

theorem hardCodes (twins : Twins e r) (order : OrderRequest) (bar : MarketBar) (a : AccountSnapshot) :
    Risk.hardCodes r.risk order bar a bar.timestamp s.config.tradingEnabled =
      Risk.hardCodes e.risk order bar a bar.timestamp s.config.tradingEnabled :=
  hardCodes_congr twins.limits twins.killSwitch order bar a _ _

theorem approved_iff (twins : Twins e r) {order : OrderRequest} {bar : MarketBar} {a : AccountSnapshot}
    (rate : Risk.hardCodes e.risk order bar a bar.timestamp s.config.tradingEnabled = [] →
      e.risk.rateLimited order a bar.timestamp = r.risk.rateLimited order a bar.timestamp) :
    (judged s r order bar a).2.approved = (judged s e order bar a).2.approved := by
  rw [Bool.eq_iff_iff, judged, judged, evaluate_approved, evaluate_approved, twins.hardCodes]
  constructor
  · rintro ⟨passed, free⟩; exact ⟨passed, (rate passed).trans free⟩
  · rintro ⟨passed, free⟩; exact ⟨passed, (rate passed).symm.trans free⟩

end Twins

/-- One bar with the same verdict keeps the engines twins. -/
theorem sameVerdict_twins {e e' r : Engine σ} {bar : MarketBar} {here : List LedgerEvent}
    (twins : Twins e r) (steady : Steady s bar.symbol e.broker)
    (processed : processBar s e bar none = .ok (e', here)) (same : SameVerdict s e r bar) :
    ∃ r' there, processBar s r bar none = .ok (r', there) ∧ Twins e' r' := by
  obtain ⟨a, read, reads, stepped⟩ := processBar_stepped steady processed
  have marked : mark r.broker bar = mark e.broker bar := by rw [twins.broker]
  have there : account (mark r.broker bar) bar.timestamp = (mark r.broker bar, .ok a) := by
    rw [marked]; exact read
  have next : (s.onBar r.strategy bar).2 = (s.onBar e.strategy bar).2 := by rw [twins.strategy]
  have kept : ∀ {risk : RiskEngine}, risk.limits = r.risk.limits →
      risk.killSwitchActive = r.risk.killSwitchActive →
      Twins e' ⟨e'.broker, risk, (s.onBar r.strategy bar).2⟩ := fun limits killSwitch =>
    ⟨rfl, next.trans stepped.strategy.symm, (limits.trans twins.limits).trans stepped.limits.1.symm,
      (killSwitch.trans twins.killSwitch).trans stepped.limits.2.symm⟩
  rw [processBar_eq there, twins.planned, marked]
  cases plan : planned s e bar a with
  | none =>
    have idle : e'.broker = mark e.broker bar := by
      rcases stepped.broker with same | ⟨order, fill, other, _⟩
      · exact same
      · rw [plan] at other; cases other
    refine ⟨_, _, rfl, ?_⟩
    rw [← idle]
    exact kept rfl rfl
  | some order =>
    dsimp only
    obtain ⟨market, _⟩ := planned_order plan
    cases used : e.broker.fills.get? order.clientOrderId with
    | none =>
      have verdict := twins.approved_iff (s := s) (same a order read plan used)
      rw [verdict]
      cases stepped with
      | quiet idle => rw [plan] at idle; cases idle
      | rejected other here refused =>
        obtain rfl := Option.some.inj (plan.symm.trans here)
        rw [if_neg (by simp [refused])]
        exact ⟨_, _, rfl, kept rfl rfl⟩
      | submitted other after fill state later here approved sent accounted saved =>
        obtain rfl := Option.some.inj (plan.symm.trans here)
        have done : ∃ events, fulfil (mark e.broker bar) order bar = .ok (after, events) := by
          refine ⟨[⟨.orderSubmitted order, bar.timestamp⟩, ⟨.orderFilled fill, bar.timestamp⟩,
            ⟨.brokerCheckpoint state, bar.timestamp⟩], ?_⟩
          simp only [fulfil, sent, accept, accounted, exported_ok.mpr saved, bind, Except.bind]
        obtain ⟨events, done⟩ := done
        rw [if_pos approved, done]
        exact ⟨_, _, rfl, kept rfl rfl⟩
    | some fill =>
      have idle : e'.broker = mark e.broker bar := by
        rcases stepped.broker with same | ⟨other, made, here, filled⟩
        · exact same
        · obtain rfl := Option.some.inj (plan.symm.trans here)
          have unused := filled.unused
          rw [mark_fills, used] at unused
          cases unused
      obtain ⟨state, saved⟩ :=
        exportState_ok steady.mark.balanced steady.mark.marked steady.mark.settled reads
      obtain ⟨events, done⟩ :=
        fulfil_used market (by rw [mark_fills]; exact used) read saved
      rw [← idle] at done ⊢
      rw [done]
      split
      next => exact ⟨_, _, rfl, kept rfl rfl⟩
      next => exact ⟨_, _, rfl, kept rfl rfl⟩

/-- An order approved with an unused id is filled, one refused is not. -/
theorem stepped_unused {e e' : Engine σ} {bar : MarketBar} {a : AccountSnapshot}
    {events : List LedgerEvent} {order : OrderRequest} (stepped : Stepped s e bar a e' events)
    (plan : planned s e bar a = some order) (unused : e.broker.fills.get? order.clientOrderId = none) :
    ((judged s e order bar a).2.approved = false ∧
      e'.broker.fills.get? order.clientOrderId = none) ∨
    ((judged s e order bar a).2.approved = true ∧ ∃ fill, fill.filledAt = bar.timestamp ∧
      e'.broker.fills.get? order.clientOrderId = some fill) := by
  cases stepped with
  | quiet idle => rw [plan] at idle; cases idle
  | rejected other here refused =>
    obtain rfl := Option.some.inj (plan.symm.trans here)
    exact .inl ⟨refused, by rw [mark_fills]; exact unused⟩
  | submitted other after fill state later here approved sent =>
    obtain rfl := Option.some.inj (plan.symm.trans here)
    rcases submit_ok sent with ⟨used, _⟩ | filled
    · rw [mark_fills, unused] at used; cases used
    · exact .inr ⟨approved, fill, filled.named.2.2.2, by rw [filled.fills, Dict.get?_set_same]⟩

/-- Where the verdicts differ one engine gains a fill the other does not. -/
theorem otherVerdict_fills {e e' r r' : Engine σ} {bar : MarketBar} {here there : List LedgerEvent}
    (twins : Twins e r) (steady : Steady s bar.symbol e.broker)
    (one : processBar s e bar none = .ok (e', here)) (two : processBar s r bar none = .ok (r', there))
    (differ : ¬SameVerdict s e r bar) :
    ∃ id fill, fill.filledAt = bar.timestamp ∧
      ((e'.broker.fills.get? id = some fill ∧ r'.broker.fills.get? id = none) ∨
        (e'.broker.fills.get? id = none ∧ r'.broker.fills.get? id = some fill)) := by
  unfold SameVerdict at differ
  push Not at differ
  obtain ⟨a, order, read, plan, unused, passed, differ⟩ := differ
  obtain ⟨a', read', _, stepped⟩ := processBar_stepped steady one
  obtain ⟨b, readb, _, other⟩ := processBar_stepped (twins.broker ▸ steady) two
  rw [read'] at read
  cases read
  rw [twins.broker, read'] at readb
  cases readb
  have opposite : (judged s r order bar a).2.approved ≠ (judged s e order bar a).2.approved := by
    intro same
    rw [Bool.eq_iff_iff, judged, judged, evaluate_approved, evaluate_approved, twins.hardCodes,
      passed] at same
    simp only [true_and] at same
    apply differ
    cases hr : r.risk.rateLimited order a bar.timestamp <;>
      cases he : e.risk.rateLimited order a bar.timestamp <;> simp_all
  have planr : planned s r bar a = some order := by rw [twins.planned]; exact plan
  rcases stepped_unused stepped plan unused with ⟨refused, empty⟩ | ⟨approved, fill, at_, filled⟩
  · rcases stepped_unused other planr (by rw [twins.broker]; exact unused) with
      ⟨alsoRefused, _⟩ | ⟨_, fill, at_, filled⟩
    · exact absurd (alsoRefused.trans refused.symm) opposite
    · exact ⟨order.clientOrderId, fill, at_, .inr ⟨empty, filled⟩⟩
  · rcases stepped_unused other planr (by rw [twins.broker]; exact unused) with
      ⟨_, empty⟩ | ⟨alsoApproved, _⟩
    · exact ⟨order.clientOrderId, fill, at_, .inl ⟨filled, empty⟩⟩
    · exact absurd (alsoApproved.trans approved.symm) opposite

/-- Twins end with the same broker exactly when their rate verdicts agree throughout. -/
theorem processBars_twins {symbol : String} {e e' r : Engine σ} {bars : List MarketBar}
    {events : List LedgerEvent} (single : ∀ bar ∈ bars, bar.symbol = symbol)
    (chronological : bars.Pairwise fun earlier later => earlier.timestamp < later.timestamp)
    (twins : Twins e r) (steady : Steady s symbol e.broker)
    (processed : processBars s e bars = .ok (e', events)) :
    (∃ r' there, processBars s r bars = .ok (r', there) ∧ r'.broker = e'.broker) ↔
      RateAgrees s e r bars := by
  induction bars generalizing e r events with
  | nil => cases processed; exact ⟨fun _ => trivial, fun _ => ⟨r, [], rfl, twins.broker⟩⟩
  | cons bar rest ih =>
    obtain ⟨middle, here, later, first, others, rfl⟩ := processBars_cons.mp processed
    obtain rfl := single bar List.mem_cons_self
    obtain ⟨before, chronological⟩ := List.pairwise_cons.mp chronological
    have single := fun x member => single x (List.mem_cons_of_mem bar member)
    obtain ⟨a, read, _, stepped⟩ := processBar_stepped steady first
    have kept := stepped.steady steady
    rw [RateAgrees]
    constructor
    · rintro ⟨r', there, ended, equal⟩
      obtain ⟨middler, begun, continued, reached, finished, rfl⟩ := processBars_cons.mp ended
      have same : SameVerdict s e r bar := by
        by_contra differ
        obtain ⟨id, fill, at_, apart⟩ := otherVerdict_fills twins steady first reached differ
        obtain ⟨b, _, _, otherStep⟩ := processBar_stepped (twins.broker ▸ steady) reached
        have fresh : ¬∃ x ∈ rest, fill.filledAt = x.timestamp := by
          rintro ⟨x, member, same⟩
          have := before x member
          rw [← same, at_] at this
          exact lt_irrefl _ this
        have one := processBars_fills single kept others id fill
        have two := processBars_fills single (otherStep.steady (twins.broker ▸ steady)) finished id fill
        rw [equal] at two
        rcases apart with ⟨filled, empty⟩ | ⟨empty, filled⟩
        · rcases two.2 (one.1 filled) with old | new
          · rw [empty] at old; cases old
          · exact fresh new
        · rcases one.2 (two.1 filled) with old | new
          · rw [empty] at old; cases old
          · exact fresh new
      refine ⟨same, fun e₁ r₁ here₁ there₁ one two => ?_⟩
      rw [first] at one
      rw [reached] at two
      cases one
      cases two
      obtain ⟨r₂, there₂, again, next⟩ := sameVerdict_twins twins steady first same
      rw [reached] at again
      cases again
      exact (ih single chronological next kept others).mp ⟨r', continued, finished, equal⟩
    · rintro ⟨same, onward⟩
      obtain ⟨r₁, there₁, reached, next⟩ := sameVerdict_twins twins steady first same
      obtain ⟨r', there, finished, equal⟩ :=
        (ih single chronological next kept others).mpr (onward _ _ _ _ first reached)
      exact ⟨r', there₁ ++ there, processBars_cons.mpr ⟨r₁, there₁, there, reached, finished, rfl⟩,
        equal⟩

end TradeAgent.Trading
