import TradeAgent.PaperResume

/-! What a stopped run leaves in the ledger and what the next command makes of it: the
bars up to the last progress event are replayed, the rest is processed again. -/
namespace TradeAgent.Trading

open Paper Risk

variable {σ : Type} (s : Setup σ)

def start : Engine σ := ⟨init s.config.broker, freshRisk s, s.fresh⟩

/-- The condition on a stop: at every remaining bar the restarted process, which only
counts approvals since the restart, and the process that was never stopped come to the
same rate verdict on a new order. -/
def RateKept (bars : List MarketBar) (stopped : List LedgerEvent) : Prop :=
  let progress := latest LedgerEvent.progress stopped
  let (broker, strategy) := replayed s stopped (processedBars progress bars)
  ∀ e events, processBars s (start s) (processedBars progress bars) = .ok (e, events) →
    RateAgrees s e ⟨broker, freshRisk s, strategy⟩ (pendingBars progress bars)

/-- The events of one bar: nothing is restored from those before the checkpoint, and a
checkpoint follows the fill of an approved order. -/
inductive Written (bar : MarketBar) (a : AccountSnapshot) (e e' : Engine σ) : List LedgerEvent → Prop where
  | marked (lead : List LedgerEvent)
      (plain : ∀ x ∈ lead, x.progress = none ∧ x.checkpoint = none)
      (quiet : e'.broker = mark e.broker bar) : Written bar a e e' (lead ++ [progressed s bar])
  | saved (lead : List LedgerEvent) (state : PaperBrokerState) (order : OrderRequest) (fill : Fill)
      (plain : ∀ x ∈ lead, x.progress = none ∧ x.checkpoint = none)
      (state_ok : exportState e'.broker = .ok state) (plan : planned s e bar a = some order)
      (approved : (judged s e order bar a).2.approved = true)
      (filled : e'.broker.fills.get? order.clientOrderId = some fill) :
      Written bar a e e' (lead ++ [⟨.brokerCheckpoint state, bar.timestamp⟩, progressed s bar])

/-- The ledger of completed bars leads back to the broker and the strategy after them. -/
structure Recovered (ledger : List LedgerEvent) (done : List MarketBar) (e : Engine σ) : Prop where
  progress : latest LedgerEvent.progress ledger =
    done.getLast?.map fun bar => (bar.timestamp, s.fingerprint)
  replayed : replayed s ledger done = (e.broker, e.strategy)
  dated : ∀ state at_, latest LedgerEvent.checkpoint ledger = some (state, at_) →
    ∃ bar ∈ done, at_ = bar.timestamp

variable {s}

theorem intents_plain (e : Engine σ) (bar : MarketBar) :
    ∀ x ∈ intents s e bar, x.progress = none ∧ x.checkpoint = none := by
  intro x member
  unfold intents at member
  cases intent : (s.onBar e.strategy bar).1 with
  | none => simp [intent] at member
  | some intent' =>
    simp only [intent, Option.map_some, Option.toList_some, List.mem_singleton] at member
    subst member
    exact ⟨rfl, rfl⟩

theorem Stepped.written {e e' : Engine σ} {bar : MarketBar} {a : AccountSnapshot}
    {events : List LedgerEvent} (stepped : Stepped s e bar a e' events) : Written s bar a e e' events := by
  have plain := intents_plain (s := s) e bar
  cases stepped with
  | quiet => exact .marked _ plain rfl
  | rejected order plan refused =>
    rw [List.append_cons]
    refine .marked _ (fun x member => ?_) rfl
    rcases List.mem_append.mp member with early | decided
    · exact plain x early
    · rw [List.mem_singleton.mp decided]; exact ⟨rfl, rfl⟩
  | submitted order after fill state later plan approved sent read saved =>
    have shape (decided submitted filled checkpoint done : LedgerEvent) :
        intents s e bar ++ [decided, submitted, filled, checkpoint, done] =
          (intents s e bar ++ [decided, submitted, filled]) ++ [checkpoint, done] := by simp
    have filled : ∃ kept, after.fills.get? order.clientOrderId = some kept := by
      rcases submit_ok sent with ⟨used, rfl⟩ | filled
      · exact ⟨fill, used⟩
      · exact ⟨fill, by rw [filled.fills, Dict.get?_set_same]⟩
    obtain ⟨kept, filled⟩ := filled
    rw [shape]
    refine .saved _ state order kept (fun x member => ?_) saved plan approved filled
    rcases List.mem_append.mp member with early | others
    · exact plain x early
    · simp only [List.mem_cons, List.not_mem_nil, or_false] at others
      rcases others with rfl | rfl | rfl <;> exact ⟨rfl, rfl⟩

theorem latest_none {kind : LedgerEvent → Option α} {events : List LedgerEvent}
    (absent : ∀ x ∈ events, kind x = none) : latest kind events = none := by
  rw [latest, List.filterMap_eq_nil_iff.mpr absent]
  rfl

/-- Bars at or before the checkpoint only feed the strategy. -/
theorem replay_past {at_ : Instant} (bars : List MarketBar) (broker : PaperBroker) (strategy : σ)
    (past : ∀ bar ∈ bars, bar.timestamp ≤ at_) :
    bars.foldl (replayBar s (some at_)) (broker, strategy) =
      (broker, bars.foldl (fun state bar => (s.onBar state bar).2) strategy) := by
  induction bars generalizing strategy with
  | nil => rfl
  | cons bar rest ih =>
    have old : ¬at_ < bar.timestamp := not_lt.mpr (past bar List.mem_cons_self)
    rw [List.foldl_cons, List.foldl_cons, replayBar]
    simp only [Option.all_some, old, decide_false, Bool.false_eq_true, if_false]
    exact ih _ fun x member => past x (List.mem_cons_of_mem bar member)

theorem replay_strategy (time : Option Instant) (bars : List MarketBar) (broker : PaperBroker) (strategy : σ) :
    (bars.foldl (replayBar s time) (broker, strategy)).2 =
      bars.foldl (fun state bar => (s.onBar state bar).2) strategy := by
  induction bars generalizing broker strategy with
  | nil => rfl
  | cons bar rest ih => rw [List.foldl_cons, List.foldl_cons, replayBar]; exact ih _ _

theorem Recovered.strategy {ledger : List LedgerEvent} {done : List MarketBar} {e : Engine σ}
    (recovered : Recovered s ledger done e) :
    e.strategy = done.foldl (fun state bar => (s.onBar state bar).2) s.fresh := by
  have known := congrArg Prod.snd recovered.replayed
  rw [Trading.replayed, replay_strategy] at known
  exact known.symm

/-- With a checkpoint at or after every replayed bar the broker is the saved one. -/
theorem replayed_checkpoint {symbol : String} {ledger : List LedgerEvent} {done : List MarketBar}
    {broker : PaperBroker} {state : PaperBrokerState} {at_ : Instant} (steady : Steady s symbol broker)
    (newest : latest LedgerEvent.checkpoint ledger = some (state, at_))
    (saved : exportState broker = .ok state) (past : ∀ bar ∈ done, bar.timestamp ≤ at_) :
    replayed s ledger done =
      (broker, done.foldl (fun state bar => (s.onBar state bar).2) s.fresh) := by
  rw [replayed, newest, Option.map_some, replay_past done _ _ past, restored, newest]
  dsimp only
  rw [steady.restores saved]

theorem recovered_nil : Recovered s [] [] (start s) where
  progress := rfl
  replayed := rfl
  dated state at_ newest := by cases newest

theorem Recovered.step {ledger events : List LedgerEvent} {done : List MarketBar} {e e' : Engine σ}
    {bar : MarketBar} {a : AccountSnapshot} (recovered : Recovered s ledger done e) (written : Written s bar a e e' events)
    (strategy : e'.strategy = (s.onBar e.strategy bar).2) (steady : Steady s bar.symbol e'.broker)
    (before : ∀ x ∈ done, x.timestamp < bar.timestamp) :
    Recovered s (ledger ++ events) (done ++ [bar]) e' := by
  have fed : e'.strategy = (done ++ [bar]).foldl (fun state bar => (s.onBar state bar).2) s.fresh := by
    rw [List.foldl_concat, ← recovered.strategy, strategy]
  have past : ∀ x ∈ done ++ [bar], x.timestamp ≤ bar.timestamp := by
    intro x member
    rcases List.mem_append.mp member with old | new
    · exact (before x old).le
    · rw [List.mem_singleton.mp new]
  cases written with
  | marked lead plain quiet =>
    have none : latest LedgerEvent.checkpoint (lead ++ [progressed s bar]) = none := by
      rw [latest_append, latest_none fun x member => (plain x member).2]
      rfl
    have same : latest LedgerEvent.checkpoint (ledger ++ (lead ++ [progressed s bar])) =
        latest LedgerEvent.checkpoint ledger := by rw [latest_append, none, Option.none_or]
    refine ⟨?_, ?_, ?_⟩
    · rw [latest_append, latest_append, List.getLast?_concat]; rfl
    · have known := recovered.replayed
      unfold Trading.replayed restored at known ⊢
      rw [same, List.foldl_append, known, List.foldl_cons, List.foldl_nil, replayBar, ← strategy, ← quiet]
      cases newest : latest LedgerEvent.checkpoint ledger with
      | none => rfl
      | some entry =>
        obtain ⟨x, member, at_⟩ := recovered.dated entry.1 entry.2 newest
        have older : entry.2 < bar.timestamp := by rw [at_]; exact before x member
        simp [older]
    · intro state at_ newest
      rw [same] at newest
      obtain ⟨x, member, at_⟩ := recovered.dated state at_ newest
      exact ⟨x, List.mem_append_left _ member, at_⟩
  | saved lead state order fill plain state_ok =>
    have newest : latest LedgerEvent.checkpoint
        (ledger ++ (lead ++ [⟨.brokerCheckpoint state, bar.timestamp⟩, progressed s bar])) =
        some (state, bar.timestamp) := by
      rw [latest_append, latest_append]; rfl
    refine ⟨?_, ?_, ?_⟩
    · rw [latest_append, latest_append, List.getLast?_concat]; rfl
    · rw [replayed_checkpoint steady newest state_ok past, fed]
    · intro other at_ found
      rw [newest] at found
      cases found
      exact ⟨bar, by simp, rfl⟩

theorem processBars_recovered {symbol : String} {e : Engine σ} {bars : List MarketBar}
    {events : List LedgerEvent} (single : ∀ bar ∈ bars, bar.symbol = symbol)
    (chronological : bars.Pairwise fun earlier later => earlier.timestamp < later.timestamp)
    (processed : processBars s (start s) bars = .ok (e, events)) :
    Recovered s events bars e := by
  induction bars using List.reverseRecOn generalizing e events with
  | nil => cases processed; exact recovered_nil
  | append_singleton done bar ih =>
    obtain ⟨middle, here, later, reached, last, rfl⟩ := processBars_append.mp processed
    obtain ⟨e₁, ev, tail, first, done', rfl⟩ := processBars_cons.mp last
    cases done'
    obtain rfl := single bar (by simp)
    have singles : ∀ x ∈ done, x.symbol = bar.symbol := fun x member =>
      single x (List.mem_append_left _ member)
    obtain ⟨earlier, _, before⟩ := List.pairwise_append.mp chronological
    obtain ⟨steady, _⟩ := processBars_steady singles (init_steady s bar.symbol) reached
    obtain ⟨a, _, _, stepped⟩ := processBar_stepped steady first
    rw [List.append_nil]
    exact (ih singles earlier reached).step stepped.written stepped.strategy (stepped.steady steady)
      fun x member => before x member bar (List.mem_singleton_self bar)

/-- A stop inside a run is a stop inside one of its bars. -/
theorem processBars_stop {e e' : Engine σ} {bars : List MarketBar} {events : List LedgerEvent}
    (processed : processBars s e bars = .ok (e', events)) {n : ℕ} (short : n < events.length) :
    ∃ done bar rest middle here next ev m, bars = done ++ bar :: rest ∧
      processBars s e done = .ok (middle, here) ∧ processBar s middle bar none = .ok (next, ev) ∧
      m < ev.length ∧ events.take n = here ++ ev.take m := by
  induction bars generalizing e events n with
  | nil => cases processed; cases short
  | cons bar rest ih =>
    obtain ⟨first, ev, later, begun, others, rfl⟩ := processBars_cons.mp processed
    by_cases inside : n < ev.length
    · exact ⟨[], bar, rest, e, [], first, ev, n, rfl, rfl, begun, inside,
        by simp [List.take_append_of_le_length inside.le]⟩
    · rw [List.length_append] at short
      have shorter : n - ev.length < later.length := by omega
      obtain ⟨done, x, tail, middle, here, next, made, m, rfl, reached, stopped, fits, taken⟩ :=
        ih others shorter
      refine ⟨bar :: done, x, tail, middle, ev ++ here, next, made, m, rfl,
        processBars_cons.mpr ⟨first, ev, here, begun, reached, rfl⟩, stopped, fits, ?_⟩
      rw [List.take_append, List.take_of_length_le (by omega), taken, List.append_assoc]

/-- A stop inside a bar keeps either nothing to restore from or its checkpoint. -/
theorem Written.take {e e' : Engine σ} {bar : MarketBar} {a : AccountSnapshot}
    {events : List LedgerEvent} (written : Written s bar a e e' events) {m : ℕ}
    (short : m < events.length) :
    (∀ x ∈ events.take m, x.progress = none ∧ x.checkpoint = none) ∨
    ∃ lead state order fill, events.take m = lead ++ [⟨.brokerCheckpoint state, bar.timestamp⟩] ∧
      (∀ x ∈ lead, x.progress = none ∧ x.checkpoint = none) ∧
      exportState e'.broker = .ok state ∧ planned s e bar a = some order ∧
      (judged s e order bar a).2.approved = true ∧
      e'.broker.fills.get? order.clientOrderId = some fill := by
  cases written with
  | marked lead plain quiet =>
    left
    intro x member
    rw [List.length_append, List.length_singleton] at short
    rw [List.take_append_of_le_length (by omega)] at member
    exact plain x (List.mem_of_mem_take member)
  | saved lead state order fill plain state_ok plan approved filled =>
    rw [List.length_append, List.length_cons, List.length_singleton] at short
    by_cases early : m ≤ lead.length
    · left
      intro x member
      rw [List.take_append_of_le_length early] at member
      exact plain x (List.mem_of_mem_take member)
    · right
      have exactly : m = lead.length + 1 := by omega
      refine ⟨lead, state, order, fill, ?_, plain, state_ok, plan, approved, filled⟩
      rw [exactly, List.take_length_add_append]
      rfl

/-- Chronological bars are split where the last processed one stands. -/
theorem split_bars {done todo : List MarketBar} {fingerprint : String}
    (chronological : (done ++ todo).Pairwise fun earlier later => earlier.timestamp < later.timestamp) :
    processedBars (done.getLast?.map fun bar => (bar.timestamp, fingerprint)) (done ++ todo) = done ∧
    pendingBars (done.getLast?.map fun bar => (bar.timestamp, fingerprint)) (done ++ todo) = todo := by
  obtain ⟨earlier, _, before⟩ := List.pairwise_append.mp chronological
  rcases List.eq_nil_or_concat done with rfl | ⟨front, last, rfl⟩
  · exact ⟨rfl, rfl⟩
  · rw [List.concat_eq_append] at *
    have upto : ∀ x ∈ front ++ [last], x.timestamp ≤ last.timestamp := by
      intro x member
      rcases List.mem_append.mp member with old | new
      · exact ((List.pairwise_append.mp earlier).2.2 x old last (by simp)).le
      · rw [List.mem_singleton.mp new]
    have after : ∀ x ∈ todo, last.timestamp < x.timestamp := fun x member =>
      before last (by simp) x member
    have kept : (front ++ [last]).filter (fun x => decide (x.timestamp ≤ last.timestamp)) =
        front ++ [last] := List.filter_eq_self.mpr fun x member => by simpa using upto x member
    have gone : todo.filter (fun x => decide (x.timestamp ≤ last.timestamp)) = [] :=
      List.filter_eq_nil_iff.mpr fun x member => by simpa using after x member
    have past : (front ++ [last]).filter (fun x => decide (last.timestamp < x.timestamp)) = [] :=
      List.filter_eq_nil_iff.mpr fun x member => by simpa using upto x member
    have left : todo.filter (fun x => decide (last.timestamp < x.timestamp)) = todo :=
      List.filter_eq_self.mpr fun x member => by simpa using after x member
    rw [List.getLast?_concat, Option.map_some, processedBars, pendingBars,
      List.filter_append (front ++ [last]) todo, List.filter_append (front ++ [last]) todo, kept, gone,
      past, left]
    exact ⟨List.append_nil _, List.nil_append _⟩

/-- The account of a settled broker can be read, at any time. -/
def Readable (b : PaperBroker) : Prop := ∃ asOf a, account b asOf = (b, .ok a)

theorem Readable.at {b : PaperBroker} (readable : Readable b) (asOf : Instant) :
    ∃ a, accept (account b asOf) = .ok (b, a) := by
  obtain ⟨_, a, read⟩ := readable
  exact ⟨_, accept_ok.mpr (account_ok_of asOf read)⟩

theorem processBars_readable {symbol : String} {e e' : Engine σ} {bars : List MarketBar}
    {events : List LedgerEvent} (single : ∀ bar ∈ bars, bar.symbol = symbol)
    (steady : Steady s symbol e.broker) (readable : Readable e.broker)
    (processed : processBars s e bars = .ok (e', events)) : Readable e'.broker := by
  induction bars generalizing e events with
  | nil => cases processed; exact readable
  | cons bar rest ih =>
    obtain ⟨middle, here, later, first, others, rfl⟩ := processBars_cons.mp processed
    obtain rfl := single bar List.mem_cons_self
    obtain ⟨a, read, _, stepped⟩ := processBar_stepped steady first
    obtain ⟨after, accounted⟩ := stepped.read read
    exact ih (fun x member => single x (List.mem_cons_of_mem bar member)) (stepped.steady steady)
      ⟨_, after, accounted⟩ others

/-- A run is its bars between two account reads that change nothing. -/
theorem run_ok {symbol : String} {e f : Engine σ} {bars : List MarketBar} {events : List LedgerEvent}
    (single : ∀ bar ∈ bars, bar.symbol = symbol) (steady : Steady s symbol e.broker)
    (ran : run s e bars = .ok (f, events)) :
    ∃ middle made last state, bars.getLast? = some last ∧
      processBars s e bars = .ok (middle, made) ∧ f.broker = middle.broker ∧
      Readable e.broker ∧ Readable middle.broker ∧ exportState middle.broker = .ok state ∧
      events = made ++ [⟨.brokerCheckpoint state, last.timestamp⟩] := by
  unfold run at ran
  split at ran
  next first last _ ends =>
    obtain ⟨⟨b, a⟩, before, rest⟩ := bind_ok_iff.mp ran
    obtain ⟨⟨middle, made⟩, processed, rest⟩ := bind_ok_iff.mp rest
    obtain ⟨⟨c, later⟩, after, rest⟩ := bind_ok_iff.mp rest
    obtain ⟨state, saved, rest⟩ := bind_ok_iff.mp rest
    have before := accept_ok.mp before
    have after := accept_ok.mp after
    obtain ⟨rfl, _⟩ := steady.reads before
    obtain ⟨kept, _⟩ := processBars_steady single steady processed
    obtain ⟨rfl, _⟩ := kept.reads after
    cases rest
    exact ⟨middle, made, last, state, ends, processed, rfl, ⟨_, a, before⟩, ⟨_, later, after⟩,
      exported_ok.mp saved, rfl⟩
  next => cases ran

theorem run_of {e middle : Engine σ} {bars : List MarketBar} {made : List LedgerEvent}
    {state : PaperBrokerState} (nonempty : bars ≠ []) (readable : Readable e.broker)
    (processed : processBars s e bars = .ok (middle, made)) (after : Readable middle.broker)
    (saved : exportState middle.broker = .ok state) :
    ∃ f events, run s e bars = .ok (f, events) ∧ f.broker = middle.broker := by
  obtain ⟨first, rest, rfl⟩ := List.exists_cons_of_ne_nil nonempty
  obtain ⟨a, before⟩ := readable.at first.timestamp
  have ends := List.getLast?_eq_some_getLast (List.cons_ne_nil first rest)
  obtain ⟨b, finish⟩ := after.at ((first :: rest).getLast (List.cons_ne_nil _ _)).timestamp
  refine ⟨middle, made ++ [⟨.brokerCheckpoint state,
    ((first :: rest).getLast (List.cons_ne_nil _ _)).timestamp⟩], ?_, rfl⟩
  unfold run
  rw [ends]
  simp only [List.head?_cons, before, processed, finish, exported_ok.mpr saved, bind, Except.bind]

/-- The process that repeats the bar its predecessor had filled and checkpointed. -/
theorem processBar_repeated {e e' r : Engine σ} {bar : MarketBar} {a : AccountSnapshot}
    {here : List LedgerEvent} {state : PaperBrokerState} {order : OrderRequest} {fill : Fill}
    (read : account (mark e.broker bar) bar.timestamp = (mark e.broker bar, .ok a))
    (stepped : Stepped s e bar a e' here) (saved : exportState e'.broker = .ok state)
    (plan : planned s e bar a = some order)
    (filled : e'.broker.fills.get? order.clientOrderId = some fill)
    (broker : r.broker = e'.broker) (strategy : r.strategy = e.strategy)
    (limits : r.risk.limits = e.risk.limits)
    (killSwitch : r.risk.killSwitchActive = e.risk.killSwitchActive) :
    ∃ r' there, processBar s r bar none = .ok (r', there) ∧ Twins e' r' := by
  obtain ⟨later, accounted⟩ := stepped.read read
  have marked : mark r.broker bar = e'.broker := by rw [broker, stepped.seen]
  have known : account (mark r.broker bar) bar.timestamp = (mark r.broker bar, .ok later) := by
    rw [marked]; exact accounted
  have kept : ∀ {risk : RiskEngine}, risk.limits = r.risk.limits →
      risk.killSwitchActive = r.risk.killSwitchActive →
      Twins e' ⟨e'.broker, risk, (s.onBar r.strategy bar).2⟩ := fun one two =>
    ⟨rfl, by rw [strategy, stepped.strategy], (one.trans limits).trans stepped.limits.1.symm,
      (two.trans killSwitch).trans stepped.limits.2.symm⟩
  rw [processBar_eq known, marked]
  cases again : planned s r bar later with
  | none => exact ⟨_, _, rfl, kept rfl rfl⟩
  | some other =>
    dsimp only
    obtain ⟨_, intent, emitted, id⟩ := planned_order plan
    obtain ⟨market, intent', emitted', id'⟩ := planned_order again
    rw [strategy, emitted] at emitted'
    cases emitted'
    obtain ⟨events, done⟩ :=
      fulfil_used market (by rw [id', ← id]; exact filled) accounted saved
    rw [done]
    split
    next => exact ⟨_, _, rfl, kept rfl rfl⟩
    next => exact ⟨_, _, rfl, kept rfl rfl⟩

/-- A process without a single approval is never limited. -/
theorem freshRisk_free (order : OrderRequest) (a : AccountSnapshot) (at_ : Instant) :
    (freshRisk s).rateLimited order a at_ = false := by
  have some := s.config.risk.ordersPositive
  have free : s.config.risk.maxOrdersPerHour ≠ 0 := some.ne'
  simp [RiskEngine.rateLimited, RiskEngine.recent, freshRisk, free]

/-- Repeating a checkpointed bar brings the two processes together; what follows decides. -/
theorem repeated_twins {e e' f r : Engine σ} {bar : MarketBar} {rest : List MarketBar}
    {a : AccountSnapshot} {here later : List LedgerEvent} {state : PaperBrokerState}
    {order : OrderRequest} {fill : Fill} (single : ∀ x ∈ bar :: rest, x.symbol = bar.symbol)
    (chronological : (bar :: rest).Pairwise fun earlier later => earlier.timestamp < later.timestamp)
    (steady : Steady s bar.symbol e.broker)
    (read : account (mark e.broker bar) bar.timestamp = (mark e.broker bar, .ok a))
    (first : processBar s e bar none = .ok (e', here)) (stepped : Stepped s e bar a e' here)
    (saved : exportState e'.broker = .ok state) (plan : planned s e bar a = some order)
    (approved : (judged s e order bar a).2.approved = true)
    (filled : e'.broker.fills.get? order.clientOrderId = some fill)
    (broker : r.broker = e'.broker) (strategy : r.strategy = e.strategy)
    (risk : r.risk = freshRisk s) (limits : r.risk.limits = e.risk.limits)
    (killSwitch : r.risk.killSwitchActive = e.risk.killSwitchActive)
    (others : processBars s e' rest = .ok (f, later)) :
    (∃ r' there, processBars s r (bar :: rest) = .ok (r', there) ∧ r'.broker = f.broker) ↔
      RateAgrees s e r (bar :: rest) := by
  obtain ⟨r₁, there₁, reached, twins⟩ :=
    processBar_repeated read stepped saved plan filled broker strategy limits killSwitch
  have onward := processBars_twins (fun x member => single x (List.mem_cons_of_mem bar member))
    (List.pairwise_cons.mp chronological).2 twins (stepped.steady steady) others
  have same : SameVerdict s e r bar := by
    intro b other readb planb _ _
    rw [read] at readb
    cases readb
    obtain rfl := Option.some.inj (plan.symm.trans planb)
    rw [risk, freshRisk_free, ((evaluate_approved _ _ _ _ _ _).mp approved).2]
  rw [RateAgrees]
  constructor
  · rintro ⟨r', there, ended, equal⟩
    obtain ⟨middle, begun, continued, again, finished, rfl⟩ := processBars_cons.mp ended
    rw [reached] at again
    cases again
    refine ⟨same, fun e₁ r₂ _ _ one two => ?_⟩
    rw [first] at one
    rw [reached] at two
    cases one
    cases two
    exact onward.mp ⟨r', continued, finished, equal⟩
  · rintro ⟨_, next⟩
    obtain ⟨r', there, finished, equal⟩ := onward.mpr (next _ _ _ _ first reached)
    exact ⟨r', there₁ ++ there, processBars_cons.mpr ⟨r₁, there₁, there, reached, finished, rfl⟩, equal⟩

/-- The command on a ledger whose remaining bars are known. -/
theorem paper_pending {symbol : String} {feed done todo : List MarketBar} {stopped : List LedgerEvent}
    {broker final : PaperBroker} {strategy : σ} (split : feed = done ++ todo) (more : todo ≠ [])
    (single : ∀ bar ∈ todo, bar.symbol = symbol) (steady : Steady s symbol broker)
    (readable : Readable broker) (after : Readable final)
    (saved : ∃ state, exportState final = .ok state)
    (chronological : feed.Pairwise fun earlier later => earlier.timestamp < later.timestamp)
    (progress : latest LedgerEvent.progress stopped =
      done.getLast?.map fun bar => (bar.timestamp, s.fingerprint))
    (known : replayed s stopped done = (broker, strategy)) :
    (∃ later, paper s feed stopped = .ok (final, later)) ↔
      ∃ r' there, processBars s ⟨broker, freshRisk s, strategy⟩ todo = .ok (r', there) ∧
        r'.broker = final := by
  subst split
  obtain ⟨processed, pending⟩ := @split_bars done todo s.fingerprint chronological
  have nonempty : done ++ todo ≠ [] := by simp [more]
  have ends := List.getLast?_eq_some_getLast nonempty
  have agrees : ((done.getLast?.map fun bar => (bar.timestamp, s.fingerprint)).any
      fun p => decide (p.2 ≠ s.fingerprint)) = false := by
    cases done.getLast? <;> simp
  have waiting : todo.isEmpty = false := by simpa using more
  have shape : paper s (done ++ todo) stopped =
      (run s ⟨broker, freshRisk s, strategy⟩ todo >>= fun ran => .ok (ran.1.broker, stopped ++ ran.2)) := by
    simp only [paper, ends, progress, agrees, processed, pending, known, waiting, Bool.false_eq_true,
      if_false]
  rw [shape]
  constructor
  · rintro ⟨later, ended⟩
    obtain ⟨⟨f, events⟩, ran, rest⟩ := bind_ok_iff.mp ended
    obtain ⟨middle, made, last, state, _, processed, same, _⟩ := run_ok single steady ran
    cases rest
    exact ⟨middle, made, processed, same.symm⟩
  · rintro ⟨middle, made, processed, rfl⟩
    obtain ⟨state, saved⟩ := saved
    obtain ⟨f, events, ran, same⟩ := run_of more readable processed after saved
    exact ⟨stopped ++ events, bind_ok_iff.mpr ⟨(f, events), ran, by dsimp only; rw [same]⟩⟩

/-- The command on a ledger that has every bar: nothing is left to process. -/
theorem paper_done {feed : List MarketBar} {stopped : List LedgerEvent} {broker : PaperBroker}
    {strategy : σ} (nonempty : feed ≠ []) (readable : Readable broker)
    (chronological : feed.Pairwise fun earlier later => earlier.timestamp < later.timestamp)
    (progress : latest LedgerEvent.progress stopped =
      feed.getLast?.map fun bar => (bar.timestamp, s.fingerprint))
    (known : replayed s stopped feed = (broker, strategy)) :
    paper s feed stopped = .ok (broker, stopped) := by
  have split := @split_bars feed [] s.fingerprint
    (by rw [List.append_nil]; exact chronological)
  rw [List.append_nil] at split
  have ends := List.getLast?_eq_some_getLast nonempty
  rw [ends, Option.map_some] at split progress
  obtain ⟨a, read⟩ := readable.at (feed.getLast nonempty).timestamp
  simp only [paper, ends, progress, split.1, split.2, known, Option.any_some, ne_eq,
    not_true_eq_false, decide_false, Bool.false_eq_true, if_false, List.isEmpty_nil, if_true,
    Option.map_some, Option.getD_some, read, bind, Except.bind]

theorem replayed_congr {ledger other : List LedgerEvent} (done : List MarketBar)
    (same : latest LedgerEvent.checkpoint ledger = latest LedgerEvent.checkpoint other) :
    replayed s ledger done = replayed s other done := by
  unfold replayed restored
  rw [same]

theorem rateKept_iff {feed done todo : List MarketBar} {stopped here : List LedgerEvent}
    {middle : Engine σ} {broker : PaperBroker} {strategy : σ} (split : feed = done ++ todo)
    (chronological : feed.Pairwise fun earlier later => earlier.timestamp < later.timestamp)
    (progress : latest LedgerEvent.progress stopped =
      done.getLast?.map fun bar => (bar.timestamp, s.fingerprint))
    (known : replayed s stopped done = (broker, strategy))
    (reached : processBars s (start s) done = .ok (middle, here)) :
    RateKept s feed stopped ↔ RateAgrees s middle ⟨broker, freshRisk s, strategy⟩ todo := by
  subst split
  obtain ⟨processed, pending⟩ := @split_bars done todo s.fingerprint chronological
  unfold RateKept
  simp only [progress, processed, pending, known]
  constructor
  · exact fun kept => kept middle here reached
  · intro agrees e events again
    rw [reached] at again
    cases again
    exact agrees

/-- A stop anywhere in the ledger of a completed run is survived exactly when the rate
verdicts of the remaining bars do not depend on the approvals before it. -/
theorem paper_resume_iff (s : Setup σ) (feed : Feed) {final : PaperBroker} {ledger : List LedgerEvent}
    (whole : paper s feed.bars [] = .ok (final, ledger)) (n : ℕ) :
    (∃ later, paper s feed.bars (ledger.take n) = .ok (final, later)) ↔
      RateKept s feed.bars (ledger.take n) := by
  have single := feed.single
  have chronological := feed.chronological
  have fresh := init_steady s feed.symbol
  generalize feed.bars = bars at *
  -- the uninterrupted run: all bars from the start, then one more checkpoint
  obtain ⟨e, events, last, state, ends, processed, rfl, begun, readable, saved, rfl⟩ :
      ∃ (e : Engine σ) (made : List LedgerEvent) (last : MarketBar) (state : PaperBrokerState),
        bars.getLast? = some last ∧ processBars s (start s) bars = .ok (e, made) ∧ final = e.broker ∧
        Readable (start s).broker ∧ Readable e.broker ∧ exportState e.broker = .ok state ∧
        ledger = made ++ [⟨.brokerCheckpoint state, last.timestamp⟩] := by
    unfold paper at whole
    split at whole
    next => cases whole
    next last ends =>
      have waiting : (pendingBars none bars).isEmpty = false := by
        cases bars
        · cases ends
        · rfl
      change (if (pendingBars none bars).isEmpty then _ else _) = _ at whole
      rw [waiting] at whole
      obtain ⟨⟨f, made⟩, ran, rest⟩ := bind_ok_iff.mp whole
      obtain ⟨e, evs, last, state, ends, processed, same, one, two, saved, rfl⟩ :=
        run_ok (e := start s) single fresh ran
      cases rest
      exact ⟨e, evs, last, state, ends, processed, same, one, two, saved, rfl⟩
  have steady := (processBars_steady single fresh processed).1
  have recovered := processBars_recovered single chronological processed
  by_cases short : n < events.length
  · obtain ⟨done, bar, rest, middle, here, next, ev, m, split, reached, stepped, inside, taken⟩ :=
      processBars_stop processed short
    rw [List.take_append_of_le_length short.le, taken]
    subst split
    have earlier : ∀ x ∈ done, x.symbol = feed.symbol := fun x member =>
      single x (List.mem_append_left _ member)
    have remaining : ∀ x ∈ bar :: rest, x.symbol = feed.symbol := fun x member =>
      single x (List.mem_append_right _ member)
    obtain ⟨past, future, _⟩ := List.pairwise_append.mp chronological
    obtain ⟨_, _, later, again, onward, _⟩ := processBars_append.mp processed
    rw [reached] at again
    cases again
    obtain ⟨kept, limits, killSwitch⟩ := processBars_steady earlier fresh reached
    have mid := processBars_recovered earlier past reached
    have open_ := processBars_readable earlier fresh begun reached
    have symbol := remaining bar List.mem_cons_self
    obtain ⟨a, read, _, happened⟩ := processBar_stepped (symbol ▸ kept) stepped
    rcases happened.written.take inside with plain |
      ⟨lead, state', order, fill, shape, plain, state_ok, plan, approved, filled⟩
    · have progress : latest LedgerEvent.progress (here ++ ev.take m) =
          done.getLast?.map fun bar => (bar.timestamp, s.fingerprint) := by
        rw [latest_append, latest_none fun x member => (plain x member).1, Option.none_or, mid.progress]
      have known : replayed s (here ++ ev.take m) done = (middle.broker, middle.strategy) := by
        rw [replayed_congr done, mid.replayed]
        rw [latest_append, latest_none fun x member => (plain x member).2, Option.none_or]
      rw [rateKept_iff rfl chronological progress known reached,
        paper_pending rfl (List.cons_ne_nil _ _) remaining kept open_ readable ⟨state, saved⟩
          chronological progress known]
      exact processBars_twins remaining future ⟨rfl, rfl, limits.symm, killSwitch.symm⟩ kept onward
    · obtain ⟨next', evs, others, first, continued, _⟩ := processBars_cons.mp onward
      rw [stepped] at first
      cases first
      have after := happened.steady (symbol ▸ kept)
      have before : ∀ x ∈ done, x.timestamp ≤ bar.timestamp := fun x member =>
        ((List.pairwise_append.mp chronological).2.2 x member bar List.mem_cons_self).le
      have newest : latest LedgerEvent.checkpoint (here ++ ev.take m) =
          some (state', bar.timestamp) := by
        rw [shape, latest_append, latest_append]; rfl
      have progress : latest LedgerEvent.progress (here ++ ev.take m) =
          done.getLast?.map fun bar => (bar.timestamp, s.fingerprint) := by
        rw [shape, latest_append, latest_append, latest_none fun x member => (plain x member).1,
          mid.progress]
        rfl
      have known := replayed_checkpoint after newest state_ok before
      rw [← mid.strategy] at known
      obtain ⟨_, accounted⟩ := happened.read read
      rw [rateKept_iff rfl chronological progress known reached,
        paper_pending rfl (List.cons_ne_nil _ _) remaining (symbol ▸ after) ⟨_, _, accounted⟩ readable
          ⟨state, saved⟩ chronological progress known]
      exact repeated_twins (fun x member => (remaining x member).trans symbol.symm) future
        (symbol ▸ kept) read stepped happened state_ok plan approved filled rfl rfl rfl limits.symm
        killSwitch.symm continued
  · have nonempty : bars ≠ [] := by rintro rfl; cases ends
    generalize final : (⟨.brokerCheckpoint state, last.timestamp⟩ : LedgerEvent) = checkpoint
    have whole : latest LedgerEvent.progress ((events ++ [checkpoint]).take n) =
          bars.getLast?.map (fun bar => (bar.timestamp, s.fingerprint)) ∧
        replayed s ((events ++ [checkpoint]).take n) bars = (e.broker, e.strategy) := by
      rcases (Nat.lt_or_ge events.length n) with all | exactly
      · subst final
        rw [List.take_of_length_le (by simpa using Nat.succ_le_of_lt all)]
        have upto : ∀ x ∈ bars, x.timestamp ≤ last.timestamp := by
          intro x member
          obtain ⟨front, rfl⟩ := List.getLast?_eq_some_iff.mp ends
          rcases List.mem_append.mp member with old | new
          · exact ((List.pairwise_append.mp chronological).2.2 x old last (by simp)).le
          · rw [List.mem_singleton.mp new]
        have newest : latest LedgerEvent.checkpoint
            (events ++ [⟨.brokerCheckpoint state, last.timestamp⟩]) = some (state, last.timestamp) := by
          rw [latest_append]; rfl
        refine ⟨by rw [latest_append, recovered.progress]; rfl, ?_⟩
        rw [replayed_checkpoint steady newest saved upto, recovered.strategy]
      · rw [List.take_append_of_le_length exactly, List.take_of_length_le (not_lt.mp short)]
        exact ⟨recovered.progress, recovered.replayed⟩
    have kept := rateKept_iff (List.append_nil bars).symm chronological whole.1 whole.2 processed
    have ended := paper_done nonempty readable chronological whole.1 whole.2
    exact ⟨fun _ => kept.mpr trivial, fun _ => ⟨_, ended⟩⟩

def hourlyRisk : RiskLimits :=
  { RiskLimits.standard with maxOrdersPerHour := 1, ordersPositive := Nat.one_pos }

theorem hourlyRisk_holds : (1 / 50 : ℚ) ≤ hourlyRisk.maxOrderExposure ∧ (1 / 200 : ℚ) ≤ hourlyRisk.maxPositionExposure ∧
    (1 / 100 : ℚ) ≤ hourlyRisk.maxGrossExposure ∧ 2 ≤ hourlyRisk.maxPositions := by
  simp only [hourlyRisk, RiskLimits.standard]
  norm_num

/-- One approval an hour, a weight raised from bar to bar, and two bars a minute apart. -/
def hourlySetup : Setup ℕ where
  config := { AppConfig.standard ⟨100000, 2, 1, 1, 1 / 100, sampleCash_pos, sampleSlippage_range, samplePoint_range,
      samplePoint_range, samplePercent_range⟩ with
    risk := hourlyRisk
    targetFitsOrder := hourlyRisk_holds.1
    intradayPosition := hourlyRisk_holds.2.1
    intradayGross := hourlyRisk_holds.2.2.1
    intradayPositions := hourlyRisk_holds.2.2.2 }
  hashing := plainHashing
  fingerprint := "settings"
  killSwitch := false
  onBar seen bar :=
    let weight : { w : Weight // 0 ≤ w.value ∧ w.value ≤ 1 } :=
      if seen = 0 then ⟨⟨1 / 100, "0.01", by decide⟩, by norm_num⟩
      else ⟨⟨1 / 50, "0.02", by decide⟩, by norm_num⟩
    (some ⟨"steps", bar.symbol, weight.1, bar.timestamp, "step", weight.2⟩, seen + 1)
  fresh := 0

def minuteBar (n : ℤ) : MarketBar :=
  ⟨"SPY", n * minute, 100, 100, 100, 100, 1000000, hundred_pos, hundred_pos, hundred_pos, million_nonneg,
    hundred_highest, hundred_lowest⟩

def minuteFeed : Feed where
  symbol := "SPY"
  bars := [minuteBar 0, minuteBar 1]
  single := by simp [minuteBar]
  chronological := by simp [minuteBar, minute, second]

/-- Fills of a whole run, and of the run restarted after its first six events. -/
def fillsAfterStop : Option (ℕ × Option ℕ) :=
  (paper hourlySetup minuteFeed.bars []).toOption.map fun whole =>
    (whole.1.fills.values.length,
      (paper hourlySetup minuteFeed.bars (whole.2.take 6)).toOption.map fun resumed =>
        resumed.1.fills.values.length)

theorem paper_resume_between_bars : ∃ final ledger,
    paper hourlySetup minuteFeed.bars [] = .ok (final, ledger) ∧
    ((∃ later, paper hourlySetup minuteFeed.bars (ledger.take 6) = .ok (final, later)) ↔
      RateKept hourlySetup minuteFeed.bars (ledger.take 6)) := by
  have ran : fillsAfterStop = some (1, some 2) := by decide +kernel
  cases whole : paper hourlySetup minuteFeed.bars [] with
  | error => simp [fillsAfterStop, whole, Except.toOption] at ran
  | ok result => exact ⟨result.1, result.2, rfl, paper_resume_iff hourlySetup minuteFeed whole 6⟩

/-- Restarted between the bars, the process approves the order the whole run refuses. -/
theorem restart_forgets_orders : ∃ final ledger,
    paper hourlySetup minuteFeed.bars [] = .ok (final, ledger) ∧
    ¬∃ later, paper hourlySetup minuteFeed.bars (ledger.take 6) = .ok (final, later) := by
  have ran : fillsAfterStop = some (1, some 2) := by decide +kernel
  cases whole : paper hourlySetup minuteFeed.bars [] with
  | error => simp [fillsAfterStop, whole, Except.toOption] at ran
  | ok result =>
    refine ⟨result.1, result.2, rfl, ?_⟩
    rintro ⟨later, resumed⟩
    simp only [fillsAfterStop, whole, Except.toOption, Option.map_some, resumed, Option.some.injEq,
      Prod.mk.injEq] at ran
    omega

end TradeAgent.Trading
