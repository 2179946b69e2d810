import TradeAgent.ShadowIndependence

/-! How much of what is displayed, and of what is sold, the actions of a candidate take. -/
namespace TradeAgent.Scalp.Shadow

open Market (BookLevel MarketEvent)

variable {platform : Platform} {policy : ShadowPolicy} {view : View} {state s : ActionState} {p : Pending}
  {c : ShadowCandidate} {e f : Evaluator} {m : Shown} {event : MarketEvent} {events : List MarketEvent}
  {inputs : List Input} {input : Input}

/-! ## Levels -/

/-- The levels a quantity comes upon, each with what is taken of it. -/
def takes : List BookLevel → ℚ → List (BookLevel × ℚ)
  | [], _ => []
  | level :: rest, remaining =>
    let take := min remaining (max 0 level.quantity)
    (level, take) :: if remaining - take ≤ 0 then [] else takes rest (remaining - take)

def taken (l : List (BookLevel × ℚ)) : ℚ := (l.map Prod.snd).sum

def offered (levels : List BookLevel) : ℚ := (levels.map BookLevel.quantity).sum

theorem offered_nonneg (levels : List BookLevel) : 0 ≤ offered levels := by
  refine List.sum_nonneg fun quantity member => ?_
  obtain ⟨level, -, rfl⟩ := List.mem_map.mp member
  exact level.counted

theorem levelsValue_takes (levels : List BookLevel) (quantity : ℚ) :
    (levelsValue levels quantity).1 = taken (takes levels quantity) := by
  induction levels generalizing quantity with
  | nil => rfl
  | cons level rest ih =>
    unfold levelsValue takes taken
    dsimp only
    split
    next => simp
    next =>
      rw [List.map_cons, List.sum_cons, ih]
      rfl

theorem takes_le (levels : List BookLevel) (quantity : ℚ) : ∀ t ∈ takes levels quantity, t.2 ≤ t.1.quantity := by
  induction levels generalizing quantity with
  | nil => exact nofun
  | cons level rest ih =>
    unfold takes
    dsimp only
    refine List.forall_mem_cons.mpr ⟨?_, ?_⟩
    · exact (min_le_right _ _).trans (max_le level.counted le_rfl)
    · split
      next => exact nofun
      next => exact ih _

/-- What is filled is the quantity or all that is offered, whichever is less. -/
theorem levelsValue_fst (levels : List BookLevel) {quantity : ℚ} (nonneg : 0 ≤ quantity) :
    (levelsValue levels quantity).1 = min quantity (offered levels) := by
  induction levels generalizing quantity with
  | nil => simp [levelsValue, offered, nonneg]
  | cons level rest ih =>
    have more := offered_nonneg rest
    have split : offered (level :: rest) = level.quantity + offered rest := rfl
    have counted := level.counted
    unfold levelsValue
    dsimp only
    rw [max_eq_right counted, split]
    by_cases enough : quantity ≤ level.quantity
    · rw [min_eq_left enough, if_pos (sub_self _).le, min_eq_left (by linarith)]
    · have short := le_of_lt (not_le.mp enough)
      rw [min_eq_right short, if_neg (by linarith), ih (by linarith)]
      change level.quantity + min (quantity - level.quantity) (offered rest) = _
      rw [← min_add_add_left]
      congr 1
      ring

/-! ## An action from its arrival on -/

theorem advanceAction_of_not_passive (other : state.action ≠ .passiveBuy) :
    advanceAction policy event state = state := by
  unfold advanceAction
  split
  next => rw [if_pos (.inr (.inr (.inl other)))]
  next => rfl

theorem advanceAction_of_unsent (unsent : state.sent = false) : advanceAction policy event state = state := by
  unfold advanceAction
  split
  next => rw [if_pos (.inr (.inl unsent))]
  next => rfl

theorem advanceAction_of_rejected (rejected : state.rejectedReason.isSome) :
    advanceAction policy event state = state := by
  unfold advanceAction
  split
  next => rw [if_pos (.inl rejected)]
  next => rfl

/-- What is sold by an event at or below the limit, between the arrival and the expiry. -/
def soldTo (state : ActionState) (event : MarketEvent) : ℚ :=
  match event.content with
  | .trade price quantity _ (some .sell) .. =>
    if state.arrivalAtNs ≤ event.exchangeAtNs ∧ event.receivedAtNs ≤ state.expiresAtNs ∧
        price ≤ state.limitPrice then quantity
    else 0
  | _ => 0

def soldVolume (state : ActionState) (events : List MarketEvent) : ℚ := (events.map (soldTo state)).sum

theorem soldTo_nonneg (state : ActionState) (event : MarketEvent) : 0 ≤ soldTo state event := by
  unfold soldTo
  split
  next counted _ =>
    split
    · exact counted.le
    · exact le_rfl
  next => exact le_rfl

/-- Within the time of an action. -/
def During (state : ActionState) (event : MarketEvent) : Prop :=
  state.arrivalAtNs ≤ event.exchangeAtNs ∧ event.receivedAtNs ≤ state.expiresAtNs

/-- A passive buy that joined the queue, after events: what was sold went to the queue ahead first. -/
structure Queued (policy : ShadowPolicy) (joined : ActionState) (events : List MarketEvent) (state : ActionState) :
    Prop where
  arrivalAtNs : state.arrivalAtNs = joined.arrivalAtNs
  expiresAtNs : state.expiresAtNs = joined.expiresAtNs
  quantity : state.quantity = joined.quantity
  limitPrice : state.limitPrice = joined.limitPrice
  rejectedReason : state.rejectedReason = joined.rejectedReason
  entryNonneg : 0 ≤ state.entryQuantity
  entryLe : state.entryQuantity ≤ state.quantity
  queueNonneg : 0 ≤ state.queueAhead
  /-- What was taken from the queue and what was bought were sold. -/
  consumed : joined.queueAhead - state.queueAhead + state.entryQuantity ≤
    policy.participationRate * soldVolume joined events
  /-- Nothing is bought before the queue is gone. -/
  after : 0 < state.entryQuantity → state.queueAhead = 0
  timed : ∀ at_, state.firstFillAtNs = some at_ ∨ state.lastFillAtNs = some at_ →
    ∃ event ∈ events, at_ = event.receivedAtNs ∧ During joined event

theorem Queued.start (empty : s.entryQuantity = 0) (untimed : s.firstFillAtNs = none ∧ s.lastFillAtNs = none)
    (quantity : 0 ≤ s.quantity) (queue : 0 ≤ s.queueAhead) : Queued policy s [] s where
  arrivalAtNs := rfl
  expiresAtNs := rfl
  quantity := rfl
  limitPrice := rfl
  rejectedReason := rfl
  entryNonneg := empty.ge
  entryLe := empty.trans_le quantity
  queueNonneg := queue
  consumed := by simp [empty, soldVolume]
  after := fun positive => absurd positive (by simp [empty])
  timed := by simp [untimed]

theorem Queued.longer (h : Queued policy s events state) (event : MarketEvent) :
    Queued policy s (events ++ [event]) state := by
  have rate := policy.ratePositive.le
  have more := mul_nonneg rate (soldTo_nonneg s event)
  have total : soldVolume s (events ++ [event]) = soldVolume s events + soldTo s event := by
    simp [soldVolume]
  refine { h with consumed := ?_, timed := fun at_ filled => ?_ }
  · rw [total, mul_add]
    linarith [h.consumed]
  · exact (h.timed at_ filled).imp fun _ => And.imp_left (List.mem_append_left _)

/-- One event of the queue. -/
theorem Queued.advance (h : Queued policy s events state) (event : MarketEvent) :
    Queued policy s (events ++ [event]) (advanceAction policy event state) := by
  have stays := h.longer event
  unfold advanceAction
  split
  next price quantity tradeId priced counted sale =>
    split
    next => exact stays
    next meets =>
      push Not at meets
      obtain ⟨-, -, -, partly, arrived, unexpired, within⟩ := meets
      have during : During s event := ⟨h.arrivalAtNs ▸ arrived, h.expiresAtNs ▸ unexpired⟩
      have sold : soldTo s event = quantity := by
        unfold soldTo
        rw [sale]
        exact if_pos ⟨during.1, during.2, h.limitPrice ▸ within⟩
      have total : soldVolume s (events ++ [event]) = soldVolume s events + quantity := by
        simp [soldVolume, sold]
      have available : 0 ≤ quantity * policy.participationRate := mul_nonneg counted.le policy.ratePositive.le
      have consumed := h.consumed
      have queue := h.queueNonneg
      dsimp only
      split
      next filled =>
        have rest := (lt_min_iff.mp filled).2
        have gone : min (quantity * policy.participationRate) state.queueAhead = state.queueAhead :=
          min_eq_right (le_of_lt (by
            by_contra unmet
            rw [min_eq_left (not_lt.mp unmet)] at rest
            linarith))
        refine { stays with entryNonneg := ?_, entryLe := ?_, queueNonneg := ?_, consumed := ?_, after := ?_, timed := ?_ }
        · exact add_nonneg h.entryNonneg filled.le
        · have := min_le_left (state.quantity - state.entryQuantity)
            (quantity * policy.participationRate - min (quantity * policy.participationRate) state.queueAhead)
          dsimp only
          linarith
        · dsimp only
          rw [gone, sub_self]
        · have := min_le_right (state.quantity - state.entryQuantity)
            (quantity * policy.participationRate - min (quantity * policy.participationRate) state.queueAhead)
          dsimp only
          rw [total]
          linarith
        · intro _
          dsimp only
          rw [gone, sub_self]
        · rintro at_ (first | last)
          · dsimp only at first
            cases before : state.firstFillAtNs.filter (· ≠ 0) with
            | none =>
              rw [before] at first
              exact ⟨event, by simp, (Option.some.inj first).symm, during⟩
            | some earlier =>
              rw [before] at first
              obtain rfl := Option.some.inj first
              have known := (Option.filter_eq_some_iff.mp before).1
              exact stays.timed _ (.inl known)
          · exact ⟨event, by simp, (Option.some.inj last).symm, during⟩
      next => 
        have ahead := min_le_left (quantity * policy.participationRate) state.queueAhead
        have behind := min_le_right (quantity * policy.participationRate) state.queueAhead
        refine { stays with queueNonneg := ?_, consumed := ?_, after := ?_ }
        · dsimp only
          linarith
        · dsimp only
          rw [total]
          linarith
        · intro positive
          dsimp only
          rw [h.after positive, min_eq_right available, sub_self]
  next => exact stays

theorem Queued.all (h : Queued policy s events state) (later : List MarketEvent) :
    Queued policy s (events ++ later) (later.foldl (fun state event => advanceAction policy event state) state) := by
  induction later generalizing events state with
  | nil => rwa [List.append_nil]
  | cons event rest ih =>
    rw [List.append_cons]
    exact ih (h.advance event)

/-! ## An arrival -/

/-- What is offered within the limit of an aggressive buy as it arrives. -/
def eligibleAsks (policy : ShadowPolicy) (view : View) (state : ActionState) : List BookLevel :=
  view.quote.elim [] fun quote =>
    let asks := if fresh (state.arrivalAtNs - view.depthAtNs) policy.arrivalMarketMaxAgeMs then view.asks
      else withBbo view.quote [] .ask
    (withBbo (some quote) asks .ask).filter fun level => level.price ≤ state.limitPrice

/-- An action as it first is. -/
structure ActionState.Unmet (state : ActionState) : Prop where
  sent : state.sent = false
  rejectedReason : state.rejectedReason = none
  entryQuantity : state.entryQuantity = 0
  firstFillAtNs : state.firstFillAtNs = none
  lastFillAtNs : state.lastFillAtNs = none

/-- A passive buy that has arrived bought nothing yet, and has a queue ahead. -/
theorem arrive_passive (unmet : s.Unmet) (passive : s.action = .passiveBuy) (quantity : 0 ≤ s.quantity)
    (queue : 0 ≤ s.queueAhead) (view : View) :
    Queued policy (arrive policy view s) [] (arrive policy view s) ∧
      (arrive policy view s).quantity = s.quantity ∧ (arrive policy view s).arrivalAtNs = s.arrivalAtNs ∧
      (arrive policy view s).expiresAtNs = s.expiresAtNs ∧ (arrive policy view s).limitPrice = s.limitPrice := by
  have kept : (arrive policy view s).entryQuantity = 0 ∧ (arrive policy view s).firstFillAtNs = none ∧
      (arrive policy view s).lastFillAtNs = none ∧ s.queueAhead ≤ (arrive policy view s).queueAhead ∧
      (arrive policy view s).quantity = s.quantity ∧ (arrive policy view s).arrivalAtNs = s.arrivalAtNs ∧
      (arrive policy view s).expiresAtNs = s.expiresAtNs ∧ (arrive policy view s).limitPrice = s.limitPrice := by
    have before : s.entryQuantity = 0 ∧ s.firstFillAtNs = none ∧ s.lastFillAtNs = none :=
      ⟨unmet.entryQuantity, unmet.firstFillAtNs, unmet.lastFillAtNs⟩
    unfold arrive join
    rw [passive]
    dsimp only [ActionState.reject]
    repeat' split
    all_goals simp [before]
  obtain ⟨entry, first, last, queue', quantity', rest⟩ := kept
  exact ⟨.start entry ⟨first, last⟩ (quantity'.symm ▸ quantity) (queue.trans queue'), quantity', rest⟩

/-- An aggressive buy that bought anything took it of what was offered, as it arrived. -/
structure Bought (policy : ShadowPolicy) (view : View) (s bought : ActionState) : Prop where
  rejectedReason : bought.rejectedReason = none
  quantity : bought.entryQuantity = taken (takes (eligibleAsks policy view s) (s.quantity * policy.participationRate))
  firstFillAtNs : bought.firstFillAtNs = some s.arrivalAtNs
  lastFillAtNs : bought.lastFillAtNs = some s.arrivalAtNs
  unexpired : s.arrivalAtNs ≤ s.expiresAtNs

theorem take_filled {quote : ScalpQuote} {asks : List BookLevel} (empty : s.entryQuantity = 0)
    (filled : 0 < (take policy quote asks s).entryQuantity) :
    (take policy quote asks s).rejectedReason = s.rejectedReason ∧
      (take policy quote asks s).entryQuantity = (levelsValue ((withBbo (some quote) asks .ask).filter
        fun level => level.price ≤ s.limitPrice) (s.quantity * policy.participationRate)).1 ∧
      (take policy quote asks s).firstFillAtNs = some s.arrivalAtNs ∧
      (take policy quote asks s).lastFillAtNs = some s.arrivalAtNs := by
  unfold take at filled ⊢
  split at filled
  next => exact absurd filled (by simp [ActionState.reject, empty])
  next limit =>
    rw [if_neg limit]
    dsimp only at filled ⊢
    split at filled
    next => exact absurd filled (by simp [ActionState.reject, empty])
    next bought =>
      rw [if_neg bought]
      exact ⟨rfl, rfl, rfl, rfl⟩

theorem arrive_aggressive (unmet : s.Unmet) (aggressive : s.action = .aggressiveBuy) (view : View)
    (filled : 0 < (arrive policy view s).entryQuantity) : Bought policy view s (arrive policy view s) := by
  have empty {s' : ActionState} (same : s'.entryQuantity = s.entryQuantity) : ¬0 < s'.entryQuantity := by
    rw [same, unmet.entryQuantity]
    exact lt_irrefl 0
  unfold arrive at filled ⊢
  simp only [unmet.sent, unmet.rejectedReason, aggressive, Option.isSome_none, Bool.or_self, Bool.false_eq_true,
    if_false] at filled ⊢
  split at filled
  next => exact absurd filled (empty rfl)
  next expiry =>
    rw [if_neg expiry]
    cases shown : view.quote with
    | none =>
      rw [shown] at filled
      exact absurd filled (empty rfl)
    | some quote =>
      rw [shown] at filled
      dsimp only at filled ⊢
      split at filled
      next => exact absurd filled (empty rfl)
      next timely =>
        rw [if_neg timely]
        obtain ⟨reason, quantity, first, last⟩ := take_filled (by exact unmet.entryQuantity) filled
        refine ⟨reason, quantity.trans ?_, first, last, not_lt.mp expiry⟩
        rw [levelsValue_takes]
        unfold eligibleAsks
        rw [shown]
        rfl

theorem followed_unmet (policy : ShadowPolicy) (c : ShadowCandidate) :
    (followed policy c).passive.Unmet ∧ (followed policy c).aggressive.Unmet :=
  ⟨⟨rfl, rfl, rfl, rfl, rfl⟩, ⟨rfl, rfl, rfl, rfl, rfl⟩⟩

/-! ## What a run shows -/

/-- The events of a symbol a run was given. -/
def eventsOf (symbol : String) (inputs : List Input) : List MarketEvent :=
  inputs.filterMap fun input =>
    match input with
    | .market m => if m.event.symbol = symbol then some m.event else none
    | _ => none

/-- A view of a symbol that a run came to show. -/
def Shows (platform : Platform) (policy : ShadowPolicy) (inputs : List Input) (symbol : String) (view : View) : Prop :=
  ∃ before after e, inputs = before ++ after ∧ Evaluator.run platform policy {} before = .ok e ∧ e.view symbol = view

theorem Shows.more {symbol : String} (h : Shows platform policy inputs symbol view) (later : List Input) :
    Shows platform policy (inputs ++ later) symbol view := by
  obtain ⟨before, after, e, rfl, ran, shown⟩ := h
  exact ⟨before, after ++ later, e, List.append_assoc before after later, ran, shown⟩

/-- The actions of a candidate arrived where a view was shown, and the passive one met these events since. -/
structure Arrived (platform : Platform) (policy : ShadowPolicy) (inputs : List Input) (p : Pending) (view : View)
    (events : List MarketEvent) : Prop where
  shown : Shows platform policy inputs p.candidate.symbol view
  received : events.Sublist (eventsOf p.candidate.symbol inputs)
  passive : p.passive = events.foldl (fun state event => advanceAction policy event state)
    (arrive policy view (followed policy p.candidate).passive)
  aggressive : p.aggressive = arrive policy view (followed policy p.candidate).aggressive

/-- How the actions of a candidate came to be as they are: as they first were, or from an arrival. -/
inductive Came (platform : Platform) (policy : ShadowPolicy) (inputs : List Input) (p : Pending) : Prop
  | waiting (passive : p.passive = (followed policy p.candidate).passive)
      (aggressive : p.aggressive = (followed policy p.candidate).aggressive)
  | arrived (view : View) (events : List MarketEvent) (h : Arrived platform policy inputs p view events)

theorem Came.more (h : Came platform policy inputs p) (later : List Input) :
    Came platform policy (inputs ++ later) p := by
  cases h with
  | waiting passive aggressive => exact .waiting passive aggressive
  | arrived view events arrived =>
    refine .arrived view events
      ⟨arrived.shown.more later, arrived.received.trans ?_, arrived.passive, arrived.aggressive⟩
    unfold eventsOf
    rw [List.filterMap_append]
    exact List.sublist_append_left _ _

/-- A candidate with what it is and how it came. -/
def Accounted (platform : Platform) (policy : ShadowPolicy) (inputs : List Input) (p : Pending) : Prop :=
  p.Of policy p.candidate ∧ Came platform policy inputs p

theorem advance_settled (events : List MarketEvent) (settled : state.settled = true) :
    (events.foldl (fun state event => advanceAction policy event state) state).settled = true := by
  induction events generalizing state with
  | nil => exact settled
  | cons event rest ih => exact ih ((advanceAction_kept policy event state).settled settled)

theorem Accounted.arrived (h : Accounted platform policy inputs p)
    (shown : Shows platform policy inputs p.candidate.symbol view) (nowNs : ℤ) (inclusive : Bool) :
    Accounted platform policy inputs (p.arrived policy view nowNs inclusive) := by
  obtain ⟨of, came⟩ := h
  refine ⟨of.arrived_of view nowNs inclusive, ?_⟩
  rw [of.arrived]
  split
  next =>
    cases came with
    | waiting passive aggressive =>
      refine .arrived view [] ⟨shown, List.nil_sublist _, ?_, ?_⟩
      · exact congrArg (arrive policy view) passive
      · exact congrArg (arrive policy view) aggressive
    | arrived before events arrived =>
      obtain ⟨shown', received, passive, aggressive⟩ := arrived
      refine .arrived before events ⟨shown', received, ?_, ?_⟩
      · refine (arrive_of_settled ?_).trans passive
        rw [passive]
        exact advance_settled events (arrive_kept policy before _).2
      · refine (arrive_of_settled ?_).trans aggressive
        rw [aggressive]
        exact (arrive_kept policy before _).2
  next => exact came

theorem eventsOf_snoc_market {symbol : String} (own : m.event.symbol = symbol) :
    eventsOf symbol (inputs ++ [.market m]) = eventsOf symbol inputs ++ [m.event] := by
  simp [eventsOf, own]

/-- A candidate meets an event, of which a view is shown. -/
theorem Accounted.meet (h : Accounted platform policy inputs p) (own : p.candidate.symbol = m.event.symbol)
    (shown : Shows platform policy (inputs ++ [.market m]) p.candidate.symbol view) :
    Accounted platform policy (inputs ++ [.market m]) (p.meet policy view m) := by
  obtain ⟨of, came⟩ := h
  have same : (p.meet policy view m).candidate = p.candidate := (of.meet view m).candidate
  refine ⟨same.symm ▸ of.meet view m, ?_⟩
  have events : eventsOf p.candidate.symbol (inputs ++ [.market m]) =
      eventsOf p.candidate.symbol inputs ++ [m.event] := eventsOf_snoc_market own.symm
  have actions : (p.meet policy view m).passive = advanceAction policy m.event
        (if p.passive.arrivalAtNs = m.event.receivedAtNs then arrive policy view p.passive else p.passive) ∧
      (p.meet policy view m).aggressive = advanceAction policy m.event
        (if p.aggressive.arrivalAtNs = m.event.receivedAtNs then arrive policy view p.aggressive
          else p.aggressive) := by
    unfold Pending.meet
    dsimp only
    split <;> exact ⟨rfl, rfl⟩
  have untouched : ∀ s : ActionState, s.action = .aggressiveBuy → advanceAction policy m.event s = s :=
    fun s action => advanceAction_of_not_passive (by simp [action])
  have kept (view : View) : (arrive policy view (followed policy p.candidate).aggressive).action = .aggressiveBuy :=
    (arrive_kept policy view _).1.action
  rw [of.passive.2, of.aggressive.2] at actions
  cases came with
  | waiting passive aggressive =>
    rw [passive, aggressive] at actions
    by_cases now : p.candidate.arrivalNs policy = m.event.receivedAtNs
    · rw [if_pos now, if_pos now, untouched _ (kept view)] at actions
      refine .arrived view [m.event] ⟨same ▸ shown, ?_, ?_, ?_⟩
      · rw [same, events]
        exact List.sublist_append_right _ _
      · rw [same]
        exact actions.1
      · rw [same]
        exact actions.2
    · rw [if_neg now, if_neg now, advanceAction_of_unsent rfl, untouched _ rfl] at actions
      refine .waiting ?_ ?_
      · rw [same]
        exact actions.1
      · rw [same]
        exact actions.2
  | arrived before met arrived =>
    obtain ⟨shown', received, passive, aggressive⟩ := arrived
    have settled : p.passive.settled = true := by
      rw [passive]
      exact advance_settled met (arrive_kept policy before _).2
    have settled' : p.aggressive.settled = true := by
      rw [aggressive]
      exact (arrive_kept policy before _).2
    rw [arrive_of_settled settled, arrive_of_settled settled', ite_self, ite_self, passive, aggressive,
      untouched _ (kept before)] at actions
    refine .arrived before (met ++ [m.event]) ⟨same ▸ shown'.more _, ?_, ?_, ?_⟩
    · rw [same, events]
      exact received.append (List.Sublist.refl _)
    · rw [same, List.foldl_append]
      exact actions.1
    · rw [same]
      exact actions.2

/-! ## What a step finishes -/

/-- What the passing of time finishes, as it is then. -/
def Evaluator.finishing (policy : ShadowPolicy) (nowNs : ℤ) (inclusive : Bool) (e : Evaluator) : List Pending :=
  (e.pending.values.map fun p => p.arrived policy (e.view p.candidate.symbol) nowNs inclusive).filter
    fun p => due p.horizonAtNs nowNs inclusive

/-- An evaluator that has met an event, before that finishes anything. -/
def Evaluator.metBy (platform : Platform) (policy : ShadowPolicy) (e : Evaluator) (m : Shown) : Evaluator :=
  let displayed := (Evaluator.advanceTime platform policy { e with lastEventNs := m.event.receivedAtNs }
    m.event.receivedAtNs false).display m
  displayed.pending.entries.foldl (meetOne policy m) displayed

def Evaluator.finishes (platform : Platform) (policy : ShadowPolicy) (e : Evaluator) : Input → List Pending
  | .market m => e.finishing policy m.event.receivedAtNs false ++
      (e.metBy platform policy m).finishing policy m.event.receivedAtNs true
  | .flush at_ => e.finishing policy (datetimeNs at_) true
  | .add _ => []
  | .acknowledge _ => []

variable {nowNs : ℤ} {inclusive : Bool} {P : Pending → Prop}

/-- What is true of all that is followed. -/
def Evaluator.Every (P : Pending → Prop) (e : Evaluator) : Prop := ∀ p ∈ e.pending.values, P p

theorem Evaluator.Every.set (every : e.Every P) {identity : String} (own : P p)
    (same : f.pending = e.pending.set identity p) : f.Every P := by
  intro q member
  obtain ⟨key, found⟩ := Dict.mem_values.mp member
  rw [same, Dict.get?_set] at found
  split at found
  next => exact Option.some.inj found ▸ own
  next => exact every q (Dict.mem_values.mpr ⟨key, found⟩)

/-- A pass keeps what each of its turns keeps. -/
theorem pass_every {Q : Pending → Prop} (step : Evaluator → String × Pending → Evaluator)
    (views : ∀ e entry symbol, (step e entry).view symbol = e.view symbol)
    (turn : ∀ f : Evaluator, (∀ symbol, f.view symbol = e.view symbol) → f.Every P → ∀ entry, Q entry.2 →
      (step f entry).Every P) (held : e.Every Q) (every : e.Every P) : (e.pending.entries.foldl step e).Every P := by
  have all (l : List (String × Pending)) (f : Evaluator) (same : ∀ symbol, f.view symbol = e.view symbol)
      (kept : f.Every P) (own : ∀ entry ∈ l, Q entry.2) : (l.foldl step f).Every P := by
    induction l generalizing f with
    | nil => exact kept
    | cons entry rest ih =>
      refine ih _ (fun symbol => (views f entry symbol).trans (same symbol))
        (turn f same kept entry (own entry List.mem_cons_self)) fun other member => ?_
      exact own other (List.mem_cons_of_mem _ member)
  exact all _ e (fun _ => rfl) every fun entry member => held entry.2 (List.mem_map_of_mem member)

theorem advanceTime_every (arrives : ∀ p, P p → P (p.arrived policy (e.view p.candidate.symbol) nowNs inclusive))
    (every : e.Every P) : (e.advanceTime platform policy nowNs inclusive).Every P := by
  refine pass_every _ (fun _ entry symbol => advanceOne_view entry symbol) (fun f same kept entry own => ?_) every every
  unfold advanceOne
  dsimp only
  split
  next =>
    intro p member
    obtain ⟨key, found⟩ := Dict.mem_values.mp member
    rw [Dict.get?_erase] at found
    split at found
    next => cases found
    next => exact kept p (Dict.mem_values.mpr ⟨key, found⟩)
  next =>
    refine kept.set (p := entry.2.arrived policy (f.view entry.2.candidate.symbol) nowNs inclusive) ?_ rfl
    rw [same]
    exact arrives entry.2 own

theorem metBy_view (keyed : e.Keyed) (symbol : String) : (e.metBy platform policy m).view symbol =
    if m.event.symbol = symbol then (e.view symbol).shown m else e.view symbol := by
  have started := started_keyed keyed m.event.receivedAtNs
  unfold Evaluator.metBy
  rw [meetPass_view (display_keyed (started.advanceTime _ _ _ _) m), view_display, advanceTime_view _ _ _ _ started]
  rfl

theorem onMarket_metBy (done : e.onMarket platform policy m = .ok f) :
    f = (e.metBy platform policy m).advanceTime platform policy m.event.receivedAtNs true := by
  obtain ⟨displayed, rfl, rfl⟩ := onMarket_ok done
  rfl

theorem metBy_keyed (keyed : e.Keyed) : (e.metBy platform policy m).Keyed :=
  meetPass_keyed (display_keyed ((started_keyed keyed m.event.receivedAtNs).advanceTime _ _ _ _) m)

theorem onMarket_view (keyed : e.Keyed) (done : e.onMarket platform policy m = .ok f) (symbol : String) :
    f.view symbol = (e.metBy platform policy m).view symbol := by
  rw [onMarket_metBy done, advanceTime_view _ _ _ _ (metBy_keyed keyed)]

theorem mem_finishing {p : Pending} (member : p ∈ e.finishing policy nowNs inclusive) :
    ∃ q ∈ e.pending.values, p = q.arrived policy (e.view q.candidate.symbol) nowNs inclusive := by
  obtain ⟨q, held, same⟩ := List.mem_map.mp (List.mem_filter.mp member).1
  exact ⟨q, held, same.symm⟩

/-- What becomes ready comes of what is finished. -/
theorem advanceTime_made {o : ShadowActionOutcome}
    (made : o ∈ (e.advanceTime platform policy nowNs inclusive).ready.values) :
    o ∈ e.ready.values ∨ ∃ p ∈ e.finishing policy nowNs inclusive, ∃ sources, o ∈ finish platform policy p sources := by
  have all (l : List (String × Pending)) (f : Evaluator) (same : ∀ symbol, f.view symbol = e.view symbol)
      (held : ∀ entry ∈ l, entry.2 ∈ e.pending.values)
      (made : o ∈ (l.foldl (advanceOne platform policy nowNs inclusive) f).ready.values) :
      o ∈ f.ready.values ∨ ∃ p ∈ e.finishing policy nowNs inclusive, ∃ sources,
        o ∈ finish platform policy p sources := by
    induction l generalizing f with
    | nil => exact .inl made
    | cons entry rest ih =>
      rcases ih _ (fun symbol => (advanceOne_view entry symbol).trans (same symbol))
        (fun other member => held other (List.mem_cons_of_mem _ member)) made with old | new
      · unfold advanceOne at old
        dsimp only at old
        rw [same] at old
        split at old
        next past =>
          refine (mem_recorded old).imp_right fun own => ⟨_, List.mem_filter.mpr ⟨?_, past⟩, _, own⟩
          exact List.mem_map_of_mem (held entry List.mem_cons_self)
        next => exact .inl old
      · exact .inr new
  exact all _ e (fun _ => rfl) (fun entry member => List.mem_map_of_mem member) made

/-- What a step makes ready comes of what it finishes. -/
theorem step_made {o : ShadowActionOutcome} (done : e.step platform policy input = .ok f) (made : o ∈ f.ready.values) :
    o ∈ e.ready.values ∨ ∃ p ∈ e.finishes platform policy input, ∃ sources, o ∈ finish platform policy p sources := by
  cases input with
  | market m =>
    have done : e.onMarket platform policy m = .ok f := done
    rw [onMarket_metBy done] at made
    rcases advanceTime_made made with old | ⟨p, finished, rest⟩
    · unfold Evaluator.metBy at old
      dsimp only at old
      rw [meetPass_ready, display_ready] at old
      exact (advanceTime_made old).imp_right fun ⟨p, finished, rest⟩ => ⟨p, List.mem_append_left _ finished, rest⟩
    · exact .inr ⟨p, List.mem_append_right _ finished, rest⟩
  | flush at_ =>
    obtain rfl := Except.ok.inj done
    exact advanceTime_made made
  | add d =>
    obtain rfl := Except.ok.inj done
    rw [add_ready] at made
    exact .inl made
  | acknowledge outcomes =>
    obtain rfl := Except.ok.inj done
    exact .inl ((acknowledge_apart o.candidate.candidateId e outcomes).ready o made rfl)

/-! ## A run -/

theorem run_append (e : Evaluator) (inputs later : List Input) : Evaluator.run platform policy e (inputs ++ later) =
    (Evaluator.run platform policy e inputs).bind fun e => Evaluator.run platform policy e later := by
  induction inputs generalizing e with
  | nil => rfl
  | cons input rest ih =>
    change (e.step platform policy input).bind (fun e => Evaluator.run platform policy e (rest ++ later)) =
      ((e.step platform policy input).bind fun e => Evaluator.run platform policy e rest).bind _
    cases e.step platform policy input with
    | error fault => rfl
    | ok f => exact ih f

theorem run_snoc (ran : Evaluator.run platform policy {} inputs = .ok e) (done : e.step platform policy input = .ok f) :
    Evaluator.run platform policy {} (inputs ++ [input]) = .ok f := by
  rw [run_append, ran]
  change (e.step platform policy input).bind (fun f => .ok f) = .ok f
  rw [done]
  rfl

theorem Shows.now (ran : Evaluator.run platform policy {} inputs = .ok e) (symbol : String) :
    Shows platform policy inputs symbol (e.view symbol) := ⟨inputs, [], e, by simp, ran, rfl⟩

theorem Accounted.more (h : Accounted platform policy inputs p) (later : List Input) :
    Accounted platform policy (inputs ++ later) p := ⟨h.1, h.2.more later⟩

theorem Accounted.arrived_of_run (h : Accounted platform policy inputs p)
    (ran : Evaluator.run platform policy {} inputs = .ok e) (nowNs : ℤ) (inclusive : Bool) :
    Accounted platform policy inputs (p.arrived policy (e.view p.candidate.symbol) nowNs inclusive) :=
  h.arrived (.now ran p.candidate.symbol) nowNs inclusive

theorem display_pending (e : Evaluator) (m : Shown) : (e.display m).pending = e.pending := by
  unfold Evaluator.display
  split <;> rfl

/-- What has met an event is accounted for, with what the event left to be seen. -/
theorem metBy_every (keyed : e.Keyed) (ran : Evaluator.run platform policy {} inputs = .ok e)
    (done : e.step platform policy (.market m) = .ok f) (every : e.Every (Accounted platform policy inputs)) :
    (e.metBy platform policy m).Every (Accounted platform policy (inputs ++ [.market m])) := by
  have started := started_keyed keyed m.event.receivedAtNs
  have marked : ({ e with lastEventNs := m.event.receivedAtNs } : Evaluator).Every
      (Accounted platform policy inputs) := every
  have advanced : (Evaluator.advanceTime platform policy { e with lastEventNs := m.event.receivedAtNs }
      m.event.receivedAtNs false).Every (Accounted platform policy inputs) :=
    advanceTime_every (fun p own => own.arrived_of_run ran _ _) marked
  have views (symbol : String) := onMarket_view keyed done symbol
  unfold Evaluator.metBy at views ⊢
  dsimp only at views ⊢
  rw [forall_congr' fun symbol => by rw [meetPass_view (display_keyed (started.advanceTime _ _ _ _) m)]] at views
  have displayed : ((Evaluator.advanceTime platform policy { e with lastEventNs := m.event.receivedAtNs }
      m.event.receivedAtNs false).display m).Every (Accounted platform policy inputs) := by
    intro p member
    rw [display_pending] at member
    exact advanced p member
  refine pass_every (meetOne policy m) (fun _ entry symbol => meetOne_view entry symbol)
    (fun g same kept entry own => ?_) displayed fun p member => (displayed p member).more _
  unfold meetOne
  split
  next => exact kept
  next symbol =>
    refine kept.set (p := entry.2.meet policy (g.view m.event.symbol) m) ?_ rfl
    have own' := not_not.mp symbol
    refine own.meet own' ⟨inputs ++ [.market m], [], f, by simp, run_snoc ran done, ?_⟩
    rw [own', same, views]

/-- All that is followed is accounted for, and so is all that a step finishes. -/
theorem step_every (keyed : e.Keyed) (ran : Evaluator.run platform policy {} inputs = .ok e)
    (done : e.step platform policy input = .ok f) (every : e.Every (Accounted platform policy inputs)) :
    f.Every (Accounted platform policy (inputs ++ [input])) ∧
      ∀ p ∈ e.finishes platform policy input, Accounted platform policy (inputs ++ [input]) p := by
  have later := run_snoc ran done
  have finishing {nowNs : ℤ} {inclusive : Bool} (p : Pending) (member : p ∈ e.finishing policy nowNs inclusive) :
      Accounted platform policy (inputs ++ [input]) p := by
    obtain ⟨q, held, rfl⟩ := mem_finishing member
    exact ((every q held).arrived_of_run ran nowNs inclusive).more _
  cases input with
  | market m =>
    have met := metBy_every keyed ran done every
    have views (symbol : String) := onMarket_view keyed done symbol
    have arrives {nowNs : ℤ} {inclusive : Bool} (p : Pending)
        (own : Accounted platform policy (inputs ++ [.market m]) p) :
        Accounted platform policy (inputs ++ [.market m])
          (p.arrived policy ((e.metBy platform policy m).view p.candidate.symbol) nowNs inclusive) := by
      rw [← views]
      exact own.arrived_of_run later nowNs inclusive
    refine ⟨?_, fun p member => ?_⟩
    · have same : f = _ := onMarket_metBy done
      rw [same]
      exact advanceTime_every arrives met
    · rcases List.mem_append.mp member with first | last
      · exact finishing p first
      · obtain ⟨q, held, rfl⟩ := mem_finishing last
        exact arrives q (met q held)
  | flush at_ =>
    obtain rfl := Except.ok.inj done
    refine ⟨fun p member => ?_, finishing⟩
    exact (advanceTime_every (fun _ own => own.arrived_of_run ran _ _) every p member).more _
  | add d =>
    obtain rfl := Except.ok.inj done
    refine ⟨?_, fun _ member => absurd member List.not_mem_nil⟩
    have kept : e.Every (Accounted platform policy (inputs ++ [.add d])) := fun p member => (every p member).more _
    cases placed : e.pending.get? d.candidateId with
    | none =>
      exact kept.set (p := followed policy d) ⟨followed_of, .waiting rfl rfl⟩ (add_fresh policy placed).1
    | some p =>
      unfold Evaluator.add
      rw [placed, if_pos (Option.isSome_some)]
      exact kept
  | acknowledge outcomes =>
    obtain rfl := Except.ok.inj done
    exact ⟨fun p member => (every p member).more _, fun _ member => absurd member List.not_mem_nil⟩

theorem run_every (ran : Evaluator.run platform policy {} inputs = .ok e) :
    e.Keyed ∧ e.Every (Accounted platform policy inputs) := by
  induction inputs using List.reverseRecOn generalizing e with
  | nil =>
    obtain rfl := Except.ok.inj ran
    exact ⟨fun _ _ found => (nomatch found), fun _ member => absurd member List.not_mem_nil⟩
  | append_singleton before input ih =>
    rw [run_append] at ran
    cases first : Evaluator.run platform policy {} before with
    | error fault =>
      rw [first] at ran
      cases ran
    | ok g =>
      rw [first] at ran
      have done : g.step platform policy input = .ok e := by
        change (g.step platform policy input).bind (fun f => .ok f) = .ok e at ran
        cases after : g.step platform policy input with
        | error fault =>
          rw [after] at ran
          cases ran
        | ok h =>
          rw [after] at ran
          exact ran
      obtain ⟨keyed, every⟩ := ih first
      exact ⟨step_keyed keyed done, (step_every keyed first done every).1⟩

/-! ## What the actions take -/

/-- The levels a position is left into at the horizon. -/
def exitLevels (pending : Pending) (policy : ShadowPolicy) : List BookLevel :=
  if fresh (pending.horizonAtNs - pending.horizonDepthAtNs) policy.horizonQuoteMaxAgeMs then
    pending.horizonBidLevels
  else withBbo pending.horizonQuote [] .bid

/-- What a passive buy came to: within the candidate and what was sold to it beyond the queue, in its time. -/
structure PassiveWithin (policy : ShadowPolicy) (inputs : List Input) (view : View) (p : Pending) : Prop where
  within : p.passive.entryQuantity ≤ p.candidate.quantity
  sold : p.passive.entryQuantity ≤ max 0 (policy.participationRate *
    soldVolume (followed policy p.candidate).passive (eventsOf p.candidate.symbol inputs) -
      (arrive policy view (followed policy p.candidate).passive).queueAhead)
  timed : ∀ at_, p.passive.firstFillAtNs = some at_ ∨ p.passive.lastFillAtNs = some at_ →
    ∃ event ∈ eventsOf p.candidate.symbol inputs, at_ = event.receivedAtNs ∧
      During (followed policy p.candidate).passive event

/-- An aggressive buy that bought anything did so at its arrival, before its expiry, of the levels it came upon. -/
def AggressiveOf (policy : ShadowPolicy) (view : View) (p : Pending) : Prop :=
  0 < p.aggressive.entryQuantity → Bought policy view (followed policy p.candidate).aggressive p.aggressive

/-- Of no level more is taken than the share of it. -/
def Shared (policy : ShadowPolicy) (levels : List BookLevel) (quantity : ℚ) : Prop :=
  ∀ t ∈ takes levels (quantity * policy.participationRate), t.2 ≤ policy.participationRate * t.1.quantity

/-- A filled action could be left at the horizon: the market was whole, its quote of the time, and the share
of what it bid enough. -/
structure CanLeave (platform : Platform) (policy : ShadowPolicy) (p : Pending) (state : ActionState) : Prop where
  filled : 0 < state.entryQuantity
  whole : p.integrityLost = false
  fresh : ∃ quote, p.horizonQuote = some quote ∧ platform.olderThan
    (max 0 (p.horizonAtNs - quote.exchangeTimeNs)) policy.horizonQuoteMaxAgeMs = false
  enough : state.entryQuantity ≤ policy.participationRate * offered (exitLevels p policy)

/-- An action was left with all it had bought. -/
def Left (platform : Platform) (policy : ShadowPolicy) (p : Pending) (state : ActionState) : Prop :=
  ∀ sources, (finishAction platform policy p sources state).complete = true ∧
    (finishAction platform policy p sources state).exitQuantity = state.entryQuantity

theorem exitAt_levels (left : 0 < state.entryQuantity ∧ missingBefore platform policy p = []) :
    exitAt platform policy p state =
      levelsValue (exitLevels p policy) (state.entryQuantity * policy.participationRate) := if_pos left

theorem CanLeave.missing (can : CanLeave platform policy p state) : missingBefore platform policy p = [] := by
  obtain ⟨quote, shown, young⟩ := can.fresh
  simp [missingBefore, can.whole, shown, young]

/-- An action that can be left is, with all of it, exactly when all of what is displayed is its share. -/
theorem left_iff (can : CanLeave platform policy p state) (accepted : state.rejectedReason = none) :
    Left platform policy p state ↔ policy.participationRate = 1 := by
  have filled := can.filled
  have nonneg : 0 ≤ state.entryQuantity * policy.participationRate :=
    mul_nonneg filled.le policy.ratePositive.le
  have exit : (exitAt platform policy p state).1 =
      min (state.entryQuantity * policy.participationRate) (offered (exitLevels p policy)) := by
    rw [exitAt_levels ⟨filled, can.missing⟩, levelsValue_fst _ nonneg]
  constructor
  · intro left
    have all : (exitAt platform policy p state).1 = state.entryQuantity := (left []).2
    have le : state.entryQuantity ≤ state.entryQuantity * policy.participationRate := by
      have := min_le_left (state.entryQuantity * policy.participationRate) (offered (exitLevels p policy))
      linarith
    exact le_antisymm policy.rateLe (le_of_mul_le_mul_left (by linarith) filled)
  · intro whole sources
    have enough := can.enough
    rw [whole, one_mul] at enough
    rw [whole, mul_one, min_eq_left enough] at exit
    unfold finishAction
    simp [exit, can.missing, accepted]

theorem shared_of_whole (whole : policy.participationRate = 1) (levels : List BookLevel) (quantity : ℚ) :
    Shared policy levels quantity := by
  intro t member
  rw [whole, one_mul]
  exact takes_le levels _ t member

theorem advance_rejected (events : List MarketEvent) (rejected : state.rejectedReason.isSome) :
    events.foldl (fun state event => advanceAction policy event state) state = state := by
  induction events with
  | nil => rfl
  | cons event rest ih =>
    rw [List.foldl_cons, advanceAction_of_rejected rejected]
    exact ih

theorem soldVolume_le {met : List MarketEvent} (sub : met.Sublist events) (s : ActionState) :
    soldVolume s met ≤ soldVolume s events := by
  unfold soldVolume
  refine (sub.map (soldTo s)).sum_le_sum fun sold member => ?_
  obtain ⟨event, -, rfl⟩ := List.mem_map.mp member
  exact soldTo_nonneg s event

theorem Arrived.rejected (h : Arrived platform policy inputs p view events) (filled : 0 < p.passive.entryQuantity) :
    p.passive.rejectedReason = none := by
  obtain ⟨-, -, passive, -⟩ := h
  have joined := (@arrive_passive policy _ (followed_unmet policy p.candidate).1 rfl
    p.candidate.quantityPositive.le (mul_nonneg p.candidate.queueNonneg (zero_le_one.trans policy.multiplierLe))
    view).1
  have queued := joined.all events
  rw [← passive] at queued
  by_contra rejected
  rw [queued.rejectedReason] at rejected
  rw [advance_rejected events (Option.isSome_iff_ne_none.mpr rejected)] at passive
  rw [passive] at filled
  have empty := joined.consumed
  rw [sub_self, zero_add, soldVolume, List.map_nil, List.sum_nil, mul_zero] at empty
  exact absurd filled (not_lt.mpr empty)

theorem Arrived.passiveWithin (h : Arrived platform policy inputs p view events) :
    PassiveWithin policy inputs view p := by
  obtain ⟨-, received, passive, -⟩ := h
  obtain ⟨joined, quantity, arrival, expiry, limit⟩ := @arrive_passive policy _
    (followed_unmet policy p.candidate).1 rfl p.candidate.quantityPositive.le
    (mul_nonneg p.candidate.queueNonneg (zero_le_one.trans policy.multiplierLe)) view
  have queued := joined.all events
  rw [← passive, List.nil_append] at queued
  have alike : soldTo (arrive policy view (followed policy p.candidate).passive) =
      soldTo (followed policy p.candidate).passive := by
    funext event
    unfold soldTo
    rw [arrival, expiry, limit]
  have volume : soldVolume (arrive policy view (followed policy p.candidate).passive) events ≤
      soldVolume (followed policy p.candidate).passive (eventsOf p.candidate.symbol inputs) := by
    unfold soldVolume
    rw [alike]
    exact soldVolume_le received _
  refine ⟨?_, ?_, fun at_ filled => ?_⟩
  · have le := queued.entryLe
    rwa [queued.quantity, quantity] at le
  · by_cases filled : 0 < p.passive.entryQuantity
    · have consumed := queued.consumed
      have share := mul_le_mul_of_nonneg_left volume policy.ratePositive.le
      rw [queued.after filled, sub_zero] at consumed
      exact le_max_of_le_right (by linarith)
    · exact le_max_of_le_left (not_lt.mp filled)
  · obtain ⟨event, met, at_', during⟩ := queued.timed at_ filled
    refine ⟨event, received.subset met, at_', ?_⟩
    unfold During at during ⊢
    rwa [arrival, expiry] at during

theorem Arrived.aggressiveOf (h : Arrived platform policy inputs p view events) : AggressiveOf policy view p := by
  intro filled
  rw [h.aggressive] at filled ⊢
  exact arrive_aggressive (followed_unmet policy p.candidate).2 rfl view filled

/-- A filled action was not rejected. -/
theorem Came.accepted (h : Came platform policy inputs p) (own : state = p.passive ∨ state = p.aggressive)
    (filled : 0 < state.entryQuantity) : state.rejectedReason = none := by
  cases h with
  | waiting passive aggressive => rcases own with rfl | rfl <;> simp [passive, aggressive, followed]
  | arrived view events arrived =>
    rcases own with rfl | rfl
    · exact arrived.rejected filled
    · exact (arrived.aggressiveOf filled).rejectedReason

/-- What a candidate came to is within what was sold and displayed. -/
structure Within (platform : Platform) (policy : ShadowPolicy) (inputs : List Input) (p : Pending) : Prop where
  entries : (p.passive.entryQuantity = 0 ∧ p.aggressive.entryQuantity = 0) ∨
    ∃ view events, Arrived platform policy inputs p view events ∧ PassiveWithin policy inputs view p ∧
      AggressiveOf policy view p ∧
      Shared policy (eligibleAsks policy view (followed policy p.candidate).aggressive) p.candidate.quantity
  exits : ∀ state, state = p.passive ∨ state = p.aggressive →
    ((exitAt platform policy p state).1 = 0 ∨ (exitAt platform policy p state).1 =
      taken (takes (exitLevels p policy) (state.entryQuantity * policy.participationRate))) ∧
      Shared policy (exitLevels p policy) state.entryQuantity
  left : ∀ state, state = p.passive ∨ state = p.aggressive → CanLeave platform policy p state →
    Left platform policy p state

theorem Came.within (h : Came platform policy inputs p) (whole : policy.participationRate = 1) :
    Within platform policy inputs p where
  entries := by
    cases h with
    | waiting passive aggressive => exact .inl (by simp [passive, aggressive, followed])
    | arrived view events arrived =>
      exact .inr ⟨view, events, arrived, arrived.passiveWithin, arrived.aggressiveOf, shared_of_whole whole _ _⟩
  exits := by
    refine fun state _ => ⟨?_, shared_of_whole whole _ _⟩
    by_cases leaving : 0 < state.entryQuantity ∧ missingBefore platform policy p = []
    · rw [exitAt_levels leaving, levelsValue_takes]
      exact .inr rfl
    · unfold exitAt
      rw [if_neg leaving]
      exact .inl rfl
  left := fun _ own can => (left_iff can (h.accepted own can.filled)).mpr whole

/-- In every run under a policy whose rate is one, what each candidate comes to is within what was sold and
displayed; and an action that can be left is, with all of it, only under such a policy. -/
theorem fills_within (ran : Evaluator.run platform policy {} inputs = .ok e)
    (done : e.step platform policy input = .ok f) :
    (∀ o ∈ f.ready.values, o ∈ e.ready.values ∨ ∃ p ∈ e.finishes platform policy input, ∃ sources,
      o ∈ finish platform policy p sources) ∧
    ∀ p ∈ e.finishes platform policy input,
      (policy.participationRate = 1 → Within platform policy (inputs ++ [input]) p) ∧
      ∀ state, state = p.passive ∨ state = p.aggressive → CanLeave platform policy p state →
        (Left platform policy p state ↔ policy.participationRate = 1) := by
  refine ⟨fun o made => step_made done made, fun p finished => ?_⟩
  obtain ⟨keyed, every⟩ := run_every ran
  obtain ⟨-, came⟩ := (step_every keyed ran done every).2 p finished
  exact ⟨came.within, fun state own can => left_iff can (came.accepted own can.filled)⟩

section samples

/-- The bid at a tenth of a second before the horizon. -/
def horizonShown : Input :=
  .market ⟨sampleEvent "BTC/USD" 5900000000, some (sampleQuote 5900000 (by decide)), [], [], none⟩

def leftInputs : List Input := [.add earlyCandidate, quoteShown, horizonShown]

theorem half_positive : (0 : ℚ) < 1 / 2 := by norm_num

theorem half_le : (1 / 2 : ℚ) ≤ 1 := by norm_num

def halfPolicy : ShadowPolicy :=
  { samplePolicy with participationRate := 1 / 2, ratePositive := half_positive, rateLe := half_le }

/-- What a flush after the horizon finishes. -/
def finishedUnder (policy : ShadowPolicy) : List Pending :=
  match Evaluator.run samplePlatform policy {} leftInputs with
  | .ok e => e.finishes samplePlatform policy (.flush 7000000)
  | .error _ => []

theorem finishedUnder_run (member : p ∈ finishedUnder policy) :
    ∃ e f, Evaluator.run samplePlatform policy {} leftInputs = .ok e ∧
      e.step samplePlatform policy (.flush 7000000) = .ok f ∧ p ∈ e.finishes samplePlatform policy (.flush 7000000) := by
  unfold finishedUnder at member
  split at member
  next e ran => exact ⟨e, _, ran, rfl, member⟩
  next => cases member

/-- Whether the aggressive buy could be left. -/
def leavable (policy : ShadowPolicy) (p : Pending) : Bool :=
  0 < p.aggressive.entryQuantity && !p.integrityLost &&
    (p.horizonQuote.any fun quote => !samplePlatform.olderThan (max 0 (p.horizonAtNs - quote.exchangeTimeNs))
      policy.horizonQuoteMaxAgeMs) &&
    p.aggressive.entryQuantity ≤ policy.participationRate * offered (exitLevels p policy)

theorem leavable_canLeave (leaves : leavable policy p = true) : CanLeave samplePlatform policy p p.aggressive := by
  unfold leavable at leaves
  simp only [Bool.and_eq_true, decide_eq_true_eq, Bool.not_eq_true', Option.any_eq_true] at leaves
  obtain ⟨⟨⟨filled, whole⟩, quote, shown, young⟩, enough⟩ := leaves
  exact ⟨filled, whole, ⟨quote, shown, young⟩, enough⟩

theorem fills_within_whole : ∃ e f p, Evaluator.run samplePlatform samplePolicy {} leftInputs = .ok e ∧
    e.step samplePlatform samplePolicy (.flush 7000000) = .ok f ∧
      p ∈ e.finishes samplePlatform samplePolicy (.flush 7000000) ∧ p.aggressive.entryQuantity = 2 ∧
        Within samplePlatform samplePolicy (leftInputs ++ [.flush 7000000]) p ∧
          Left samplePlatform samplePolicy p p.aggressive := by
  obtain ⟨p, member, bought, leaves⟩ : ∃ p ∈ finishedUnder samplePolicy,
    p.aggressive.entryQuantity = 2 ∧ leavable samplePolicy p = true := by decide +kernel
  obtain ⟨e, f, ran, done, finished⟩ := finishedUnder_run member
  obtain ⟨within, left⟩ := (fills_within ran done).2 p finished
  exact ⟨e, f, p, ran, done, finished, bought, within rfl,
    (left p.aggressive (.inr rfl) (leavable_canLeave leaves)).mpr rfl⟩

/-- At a rate of one half a buy is not left, though its share of what is bid is five times what it bought. -/
theorem fills_beyond : ¬∀ (platform : Platform) (policy : ShadowPolicy) (inputs : List Input) (input : Input)
    (e f : Evaluator) (p : Pending), Evaluator.run platform policy {} inputs = .ok e →
      e.step platform policy input = .ok f → p ∈ e.finishes platform policy input →
      Within platform policy (inputs ++ [input]) p := by
  intro within
  obtain ⟨p, member, leaves, stays⟩ : ∃ p ∈ finishedUnder halfPolicy, leavable halfPolicy p = true ∧
    (finishAction samplePlatform halfPolicy p [] p.aggressive).complete = false := by decide +kernel
  obtain ⟨e, f, ran, done, finished⟩ := finishedUnder_run member
  have left := (within _ _ _ _ e f p ran done finished).left p.aggressive (.inr rfl) (leavable_canLeave leaves)
  rw [(left []).1] at stays
  cases stays

end samples

end TradeAgent.Scalp.Shadow
