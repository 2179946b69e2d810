import TradeAgent.FeatureDepth

/-! A trade the engine has accepted is never accepted again, on whichever connection it returns. -/
namespace TradeAgent.Market

open Procedure (Triple Leaves)

def MarketEvent.identity (event : MarketEvent) : Option TradeIdentity :=
  match event.content with
  | .trade _ _ tradeId .. => some ⟨event.symbol, tradeId, event.exchangeAtNs⟩
  | _ => none

/-- What is known of the trades so far. -/
def SymbolState.known (s : SymbolState) : List TradeIdentity × ℤ := (s.tradeIds, s.lastTradeNs)

/-- The identities in order of time, within the capacity. -/
structure SymbolState.Deduplicated (settings : Settings) (s : SymbolState) : Prop where
  sorted : s.tradeIds.Pairwise fun a b => a.exchangeAtNs ≤ b.exchangeAtNs
  recent : ∀ identity ∈ s.tradeIds, identity.exchangeAtNs ≤ s.lastTradeNs
  sized : s.tradeIds.length ≤ settings.maxEvents

/-- The trade would not be accepted. -/
def SymbolState.Seen (s : SymbolState) (identity : TradeIdentity) : Prop :=
  identity ∈ s.tradeIds ∨ identity.exchangeAtNs < s.lastTradeNs

/-- What handling an event does to the trades known, with what the engine answers. -/
inductive Noted (settings : Settings) (event : MarketEvent) (before : List TradeIdentity × ℤ)
    (s : SymbolState) : Bool → Prop
  | same (answer : Bool) (known : s.known = before) (other : answer = true → event.identity = none) :
      Noted settings event before s answer
  | noted (answer : Bool) (identity : TradeIdentity) (here : event.identity = some identity)
      (unseen : identity ∉ before.1) (late : before.2 ≤ identity.exchangeAtNs)
      (room : settings.maxEvents ≤ before.1.length →
        before.1.head?.map TradeIdentity.exchangeAtNs ≠ some identity.exchangeAtNs)
      (known : s.known =
        ((before.1 ++ [identity]).drop (before.1.length + 1 - settings.maxEvents), identity.exchangeAtNs)) :
      Noted settings event before s answer

/-- The trades that a session has counted. -/
structure Session where
  day : Option ℤ := none
  notional : ℚ := 0
  volume : ℚ := 0
  count : ℕ := 0

def SymbolState.session (s : SymbolState) : Session :=
  ⟨s.sessionDay, s.sessionNotional, s.sessionVolume, s.sessionCount⟩

/-- The session of a day: the one that goes on, or a new one. -/
def Session.opened (session : Session) (day : ℤ) : Session :=
  if session.day = some day then session else { day := some day }

/-- The session with one more trade. -/
def Session.trade (session : Session) (arith : Arithmetic) (price quantity : ℚ) : Except Fault Session := do
  let volume ← arith.add session.volume quantity
  let notional ← (do arith.add session.notional (← arith.mul price quantity))
  return { session with notional, volume, count := session.count + 1 }

def MarketEvent.day (event : MarketEvent) : ℤ := event.exchangeAtNs / dayNs

/-- What is kept of the trades so far. -/
def SymbolState.tape (s : SymbolState) : (List TradeIdentity × ℤ) × Session := (s.known, s.session)

/-- What handling an event does to the trades kept, with what the engine answers: nothing, or it notes a trade that it
has not seen and counts it in the session of its day, unless the numbers of the trade fail. -/
inductive Taped (settings : Settings) (arith : Arithmetic) (event : MarketEvent)
    (before : (List TradeIdentity × ℤ) × Session) (s : SymbolState) : Bool → Prop
  | same (answer : Bool) (tape : s.tape = before) (other : answer = true → event.identity = none) :
      Taped settings arith event before s answer
  | traded (answer : Bool) (price quantity : ℚ) (tradeId : String) (side : Option TakerSide) (priced : 0 < price)
      (counted : 0 < quantity) (content : event.content = .trade price quantity tradeId side priced counted)
      (unseen : (⟨event.symbol, tradeId, event.exchangeAtNs⟩ : TradeIdentity) ∉ before.1.1) (late : before.1.2 ≤ event.exchangeAtNs)
      (room : settings.maxEvents ≤ before.1.1.length →
        before.1.1.head?.map TradeIdentity.exchangeAtNs ≠ some event.exchangeAtNs)
      (known : s.known = ((before.1.1 ++ [(⟨event.symbol, tradeId, event.exchangeAtNs⟩ : TradeIdentity)]).drop
        (before.1.1.length + 1 - settings.maxEvents), event.exchangeAtNs))
      (session : s.session = before.2.opened event.day ∨
        (before.2.opened event.day).trade arith price quantity = .ok s.session) :
      Taped settings arith event before s answer

theorem MarketEvent.identity_trade {event : MarketEvent} {price quantity : ℚ} {tradeId : String}
    {side : Option TakerSide} {priced : 0 < price} {counted : 0 < quantity}
    (content : event.content = .trade price quantity tradeId side priced counted) :
    event.identity = some ⟨event.symbol, tradeId, event.exchangeAtNs⟩ := by
  rw [MarketEvent.identity, content]

theorem Taped.noted {settings : Settings} {arith : Arithmetic} {event : MarketEvent}
    {before : (List TradeIdentity × ℤ) × Session} {s : SymbolState} {answer : Bool}
    (taped : Taped settings arith event before s answer) : Noted settings event before.1 s answer := by
  cases taped with
  | same tape other => exact .same answer (congrArg Prod.fst tape) other
  | traded price quantity tradeId side priced counted content unseen late room known session =>
    exact .noted answer _ (event.identity_trade content) unseen late room known

section leaves

variable {settings : Settings} {arith : Arithmetic} {event : MarketEvent}

theorem observeBbo_tape (bid ask bidSize askSize : ℚ) :
    Leaves SymbolState.tape (observeBbo arith event bid ask bidSize askSize) := by
  refine .bind (.view _) fun previous => .bind (.lift _) fun next => ?_
  cases next with
  | none => exact .pure ()
  | some sample => exact .modify fun _ => rfl

theorem openSession_tape (day : ℤ) (s : SymbolState) : (openSession day s).tape = (s.known, s.session.opened day) := by
  unfold openSession Session.opened
  by_cases same : s.sessionDay = some day
  · rw [if_pos same, if_pos (show s.session.day = some day from same)]
    rfl
  · rw [if_neg same, if_neg (show s.session.day ≠ some day from same)]
    rfl

theorem observeMinute_tape (price : ℚ) (startNs : ℤ) : Leaves SymbolState.tape (observeMinute arith price startNs) := by
  refine .bind (.view id) fun state => ?_
  split
  next => exact .modify fun _ => rfl
  next bar _ =>
    refine .ite (.modify fun _ => rfl) (.ite (.bind (.bind (.view id) fun state => ?_) fun _ =>
      .modify fun _ => rfl) (.modify fun _ => rfl))
    split
    next => exact .bind (.lift _) fun _ => .modify fun _ => rfl
    next => exact .pure ()

/-- Where a session stands with one trade more, or without it. -/
def Counted (arith : Arithmetic) (known : List TradeIdentity × ℤ) (session : Session) (price quantity : ℚ)
    (s : SymbolState) : Prop :=
  s.known = known ∧ (s.session = session ∨ session.trade arith price quantity = .ok s.session)

theorem counted_kept {α : Type} {p : Handler α} (leaves : Leaves SymbolState.tape p) (known : List TradeIdentity × ℤ)
    (session : Session) (price quantity : ℚ) : Procedure.Keeps (Counted arith known session price quantity) p :=
  leaves.keeps fun tape => tape.1 = known ∧ (tape.2 = session ∨ session.trade arith price quantity = .ok tape.2)

theorem observeSession_counted (known : List TradeIdentity × ℤ) (session : Session) (price quantity : ℚ) :
    Triple (fun s => s.tape = (known, session)) (observeSession arith price quantity)
      (fun _ s => Counted arith known session price quantity s)
      fun _ s => Counted arith known session price quantity s := by
  have uncounted {s : SymbolState} (h : s.tape = (known, session)) : Counted arith known session price quantity s :=
    ⟨congrArg Prod.fst h, .inl (congrArg Prod.snd h)⟩
  refine Triple.bindView fun state => ?_
  refine Triple.bind (Q := fun volume s => (s.tape = (known, session) ∧ id s = state) ∧
    arith.add session.volume quantity = .ok volume) (Triple.lift ?_ fun s h _ _ => uncounted h.1) fun volume => ?_
  · rintro s ⟨tape, rfl⟩ volume done
    have same : s.session = session := congrArg Prod.snd tape
    exact ⟨⟨tape, rfl⟩, same ▸ done⟩
  refine Triple.bind (Q := fun notional s => s.tape = (known, session) ∧
    session.trade arith price quantity = .ok { session with notional, volume, count := session.count + 1 })
    (Triple.lift ?_ fun s h _ _ => uncounted h.1.1) fun notional => ?_
  · rintro s ⟨⟨tape, rfl⟩, added⟩ notional done
    have same : s.session = session := congrArg Prod.snd tape
    refine ⟨tape, ?_⟩
    change (do arith.add s.session.notional (← arith.mul price quantity)) = _ at done
    rw [same] at done
    unfold Session.trade
    rw [added]
    change (do let notional ← (do arith.add session.notional (← arith.mul price quantity)); _) = _
    rw [done]
    rfl
  refine Triple.bind (Q := fun _ s => s.tape = (known, session) ∧
    session.trade arith price quantity = .ok { session with notional, volume, count := session.count + 1 })
    (Triple.lift (fun s h _ _ => h) fun s h _ _ => uncounted h.1) fun _ => ?_
  refine Triple.bind (Q := fun _ s => s.tape = (known, session) ∧
    session.trade arith price quantity = .ok { session with notional, volume, count := session.count + 1 })
    (Triple.lift (fun s h _ _ => h) fun s h _ _ => uncounted h.1) fun _ => ?_
  -- The numbers are fine: the session counts the trade, and nothing after that touches it.
  refine Triple.bind (Q := fun _ s => Counted arith known session price quantity s) (Triple.modify ?_) fun _ => ?_
  · rintro s ⟨tape, counted⟩
    obtain ⟨rfl, rfl⟩ := Prod.mk.inj tape
    exact ⟨rfl, .inr counted⟩
  · refine counted_kept ?_ known session price quantity
    exact .ite (.pure ()) (.ite (.modify fun _ => rfl) (.bind (.lift _) fun _ => .modify fun _ => rfl))

variable (arith event) in
theorem observeTrade_counted (known : List TradeIdentity × ℤ) (session : Session) (price quantity : ℚ) :
    Triple (fun s => s.tape = (known, session)) (observeTrade arith event price quantity)
      (fun _ s => Counted arith known (session.opened event.day) price quantity s)
      fun _ s => Counted arith known (session.opened event.day) price quantity s := by
  refine Triple.bind (Q := fun _ s => s.tape = (known, session.opened event.day)) (Triple.modify ?_) fun _ => ?_
  · intro s h
    obtain ⟨rfl, rfl⟩ := Prod.mk.inj h
    exact openSession_tape event.day s
  refine Triple.bind (observeSession_counted known (session.opened event.day) price quantity) fun _ => ?_
  exact counted_kept (observeMinute_tape price _) known (session.opened event.day) price quantity

theorem invalidate_tape (s : SymbolState) (reason : String) (request : Bool) :
    (s.invalidate reason request).tape = s.tape := by
  unfold SymbolState.invalidate
  dsimp only
  split
  next => rfl
  next => split <;> rfl

theorem refuse_tape (reason : String) : Leaves SymbolState.tape (refuse reason) :=
  .bind (.modify fun s => invalidate_tape s _ _) fun _ => .pure false

variable (event) in
theorem accepted_tape : Leaves SymbolState.tape (accepted event) :=
  .bind (.modify fun _ => rfl) fun _ => .pure true

theorem prune_tape (s : SymbolState) (atNs : ℤ) : (s.prune settings atNs).tape = s.tape := by
  unfold SymbolState.prune
  dsimp only
  split <;> rfl

theorem processBook_tape (bids asks : List BookLevel) (reset : Bool) :
    Leaves SymbolState.tape (processBook settings arith event bids asks reset) := by
  refine .bind (.view _) fun before => .bind (.modify fun _ => rfl) fun _ => ?_
  split
  next reason _ => exact refuse_tape reason
  next =>
    refine .bind (.modify fun s => by split <;> rfl) fun _ => .bind ?_ fun _ => .bind ?_ fun _ =>
      accepted_tape _
    · exact .ite (.modify fun _ => rfl) (.bind (.lift _) fun _ => .modify fun _ => rfl)
    · unfold recordBbo
      split
      next => exact observeBbo_tape _ _ _ _
      next => exact .pure ()

theorem processQuote_tape (bid ask : BookLevel) :
    Leaves SymbolState.tape (processQuote arith event bid ask) := by
  refine .bind (.view id) fun state => .ite (.pure false) (.bind (.modify fun _ => rfl) fun _ => ?_)
  refine .ite (refuse_tape _) (.bind (.bind (.view _) fun book => ?_) fun _ => accepted_tape _)
  exact .ite (observeBbo_tape _ _ _ _) (.pure ())

variable (settings arith event) in
theorem applyEvent_taped (before : (List TradeIdentity × ℤ) × Session) :
    Triple (fun s => s.tape = before) (applyEvent settings arith event)
      (fun answer s => Taped settings arith event before s answer)
      fun _ s => Taped settings arith event before s false := by
  have quietly {p : Handler Bool} (leaves : Leaves SymbolState.tape p) (none : event.identity = none) :
      Triple (fun s => s.tape = before) p (fun answer s => Taped settings arith event before s answer)
        fun _ s => Taped settings arith event before s false :=
    (leaves before).conseq (fun _ h => h) (fun answer s h => .same answer h fun _ => none)
      fun _ s h => .same false h fun impossible => nomatch impossible
  have stopped {s : SymbolState} (h : s.tape = before) : Taped settings arith event before s false :=
    .same false h fun impossible => nomatch impossible
  unfold applyEvent
  split
  next reason content =>
    exact quietly (.bind (.modify fun s => invalidate_tape s _ _) fun _ => .pure true)
      (by rw [MarketEvent.identity, content])
  next noReset =>
    refine Triple.ite (fun _ => ?_) fun _ => ?_
    · exact Triple.bind (Q := fun _ s => s.tape = before)
        (Triple.modify fun s h => (invalidate_tape s _ _).trans h) fun _ => Triple.pure false fun s h => stopped h
    refine Triple.bind (Q := fun _ s => s.tape = before)
      (Triple.lift (fun s h _ _ => h) fun s h _ _ => stopped h) fun _ => ?_
    refine Triple.bind (Q := fun _ s => s.tape = before)
      (Triple.modify fun s h => (prune_tape s _).trans h) fun _ => ?_
    split
    next bids asks reset content =>
      exact quietly (processBook_tape bids asks reset) (by rw [MarketEvent.identity, content])
    next bid ask content => exact quietly (processQuote_tape bid ask) (by rw [MarketEvent.identity, content])
    next price quantity tradeId side priced counted content =>
      refine Triple.bindView fun state => Triple.ite (fun _ => Triple.pure false fun s h => stopped h.1)
        fun unseen => Triple.ite (fun _ => Triple.pure false fun s h => stopped h.1) fun late =>
        Triple.ite (fun _ => Triple.bind (Q := fun _ s => s.tape = before)
          (Triple.modify fun s h => h.1) fun _ => Triple.pure false fun s h => stopped h) fun room => ?_
      -- From here on the trade is noted, whatever becomes of the rest.
      have noted {s : SymbolState} (same : state.tape = before) (answer : Bool)
          (h : Counted arith (((state.tradeIds ++
            [(⟨event.symbol, tradeId, event.exchangeAtNs⟩ : TradeIdentity)]).drop
              (state.tradeIds.length + 1 - settings.maxEvents)), event.exchangeAtNs)
            (before.2.opened event.day) price quantity s) : Taped settings arith event before s answer := by
        obtain ⟨known, session⟩ := h
        subst same
        refine .traded answer price quantity tradeId side priced counted content unseen (not_lt.mp late)
          (fun full => ?_) known session
        unfold exhausted at room
        simp only [decide_eq_true_eq, not_or, not_and] at room
        exact room.2 full
      refine Triple.bind (Q := fun _ s => s.tape = ((((state.tradeIds ++
          [(⟨event.symbol, tradeId, event.exchangeAtNs⟩ : TradeIdentity)]).drop
            (state.tradeIds.length + 1 - settings.maxEvents)), event.exchangeAtNs), before.2) ∧ state.tape = before)
        (Triple.modify ?_) fun _ => ?_
      · rintro s ⟨same, rfl⟩
        have session : s.session = before.2 := congrArg Prod.snd same
        exact ⟨Prod.ext rfl session, same⟩
      · refine Triple.given fun same => ?_
        refine Triple.bind ((observeTrade_counted arith event _ before.2 price quantity).conseq (fun s h => h)
          (fun _ s h => h) fun _ s h => noted same false h) fun _ => ?_
        exact (counted_kept (accepted_tape event) _ _ price quantity).conseq (fun s h => h)
          (fun answer s h => noted same answer h) fun _ s h => noted same false h
    next reason content => exact absurd content (noReset reason)

variable (settings arith event) in
theorem handle_taped (s : SymbolState) : Taped settings arith event s.tape
    (Engine.handle settings arith s event).1 (Engine.handle settings arith s event).2 := by
  obtain ⟨returned, raised⟩ := applyEvent_taped settings arith event s.tape s rfl
  unfold Engine.handle
  split
  next answer t ran => exact returned answer t ran
  next fault t ran =>
    have before := raised fault t ran
    have kept := invalidate_tape t "invalid_market_numeric_domain" true
    cases before with
    | same tape other => exact .same false (kept.trans tape) other
    | traded price quantity tradeId side priced counted content unseen late room known session =>
      refine .traded false price quantity tradeId side priced counted content unseen late room
        ((congrArg Prod.fst kept).trans known) ?_
      rw [show (t.invalidate "invalid_market_numeric_domain" true).session = t.session from congrArg Prod.snd kept]
      exact session

theorem handle_noted (s : SymbolState) : Noted settings event s.known
    (Engine.handle settings arith s event).1 (Engine.handle settings arith s event).2 :=
  (handle_taped settings arith event s).noted

end leaves

section seen

variable {settings : Settings} {arith : Arithmetic} {event : MarketEvent} {answer : Bool}
  {s t : SymbolState} {identity : TradeIdentity} {e f : Engine}

theorem Noted.deduplicated (h : s.Deduplicated settings) (noted : Noted settings event s.known t answer) :
    t.Deduplicated settings := by
  cases noted with
  | same known other =>
    obtain ⟨ids, last⟩ := Prod.mk.inj known
    exact ⟨ids ▸ h.sorted, ids ▸ last ▸ h.recent, ids ▸ h.sized⟩
  | noted new here unseen late room known =>
    obtain ⟨ids, last⟩ := Prod.mk.inj known
    have bounded : ∀ a ∈ s.tradeIds, a.exchangeAtNs ≤ new.exchangeAtNs :=
      fun a member => (h.recent a member).trans late
    refine ⟨?_, fun a member => ?_, ?_⟩
    · rw [ids]
      refine List.Pairwise.drop (List.pairwise_append.mpr ⟨h.sorted, List.pairwise_singleton _ _, ?_⟩)
      intro a member b last
      exact List.mem_singleton.mp last ▸ bounded a member
    · rw [ids] at member
      rw [last]
      rcases List.mem_append.mp (List.mem_of_mem_drop member) with old | own
      · exact bounded a old
      · exact (List.mem_singleton.mp own).symm ▸ le_rfl
    · rw [ids, List.length_drop, List.length_append, List.length_singleton]
      dsimp only [SymbolState.known]
      omega

/-- An identity that is evicted is older than the trade that takes its place. -/
theorem Noted.seen (h : s.Deduplicated settings) (noted : Noted settings event s.known t answer)
    (before : s.Seen identity) : t.Seen identity := by
  cases noted with
  | same known other =>
    obtain ⟨ids, last⟩ := Prod.mk.inj known
    exact before.imp (fun member => ids ▸ member) fun early => last ▸ early
  | noted new here unseen late room known =>
    obtain ⟨ids, last⟩ := Prod.mk.inj known
    dsimp only [SymbolState.known] at ids last late room
    rcases before with member | early
    · by_cases full : settings.maxEvents ≤ s.tradeIds.length
      · have one : s.tradeIds.length + 1 - settings.maxEvents = 1 := by have := h.sized; omega
        rw [one] at ids
        cases held : s.tradeIds with
        | nil => simp [held] at member
        | cons first others =>
          rw [held] at ids member
          rcases List.mem_cons.mp member with rfl | inside
          · refine .inr (last ▸ lt_of_le_of_ne ((h.recent _ (held ▸ List.mem_cons_self)).trans late) ?_)
            intro same
            refine room full ?_
            rw [held]
            exact congrArg some same
          · exact .inl (ids ▸ List.mem_append_left _ inside)
      · have none : s.tradeIds.length + 1 - settings.maxEvents = 0 := by omega
        rw [none] at ids
        exact .inl (ids ▸ List.mem_append_left _ member)
    · exact .inr (last ▸ early.trans_le late)

/-- A trade that is noted was not seen before, and is from then on. -/
theorem noted_marks (unseen : identity ∉ s.tradeIds) (late : s.lastTradeNs ≤ identity.exchangeAtNs)
    (known : t.known =
      ((s.tradeIds ++ [identity]).drop (s.tradeIds.length + 1 - settings.maxEvents), identity.exchangeAtNs)) :
    ¬s.Seen identity ∧ t.Seen identity := by
  obtain ⟨ids, last⟩ := Prod.mk.inj known
  refine ⟨?_, ?_⟩
  · rintro (member | early)
    · exact unseen member
    · exact absurd late (not_le.mpr early)
  · have room : s.tradeIds.length + 1 - settings.maxEvents ≤ s.tradeIds.length := by
      have := settings.eventsPositive
      omega
    refine .inl ?_
    rw [ids, List.drop_append_of_le_length room]
    exact List.mem_append_right _ List.mem_cons_self

theorem Noted.accepts (noted : Noted settings event s.known t true)
    (here : event.identity = some identity) : ¬s.Seen identity ∧ t.Seen identity := by
  cases noted with
  | same known other =>
    rw [other rfl] at here
    cases here
  | noted new own unseen late room known =>
    rw [own] at here
    obtain rfl := Option.some.inj here
    exact noted_marks unseen late known

def Engine.Deduplicated (settings : Settings) (e : Engine) : Prop :=
  ∀ symbol s, e.states.get? symbol = some s → s.Deduplicated settings

def Engine.Seen (e : Engine) (identity : TradeIdentity) : Prop :=
  ∀ s, e.states.get? identity.symbol = some s → s.Seen identity

theorem SymbolState.Carried.known (carried : s.Carried t) : t.known = s.known :=
  Prod.ext carried.tradeIds carried.lastTradeNs

theorem Engine.onEvent_noted (h : e.Deduplicated settings) {symbol : String}
    (found : (e.onEvent settings arith event).1.states.get? symbol = some t) :
    ∃ s, e.states.get? symbol = some s ∧ s.Deduplicated settings ∧
      (t.known = s.known ∧ (event.symbol ≠ symbol ∨ (e.onEvent settings arith event).2 = false) ∨
        event.symbol = symbol ∧ Noted settings event s.known t (e.onEvent settings arith event).2) := by
  obtain ⟨old, mid, here, carried, ⟨other, rfl⟩ | ⟨own, rfl, answered⟩⟩ :=
    SymbolState.carried_receives.onEvent found
  · exact ⟨old, here, h symbol old here, .inl ⟨carried.known, other⟩⟩
  · refine ⟨old, here, h symbol old here, .inr ⟨own, ?_⟩⟩
    rw [← answered, ← carried.known]
    exact handle_noted mid

theorem Engine.Deduplicated.onEvent (h : e.Deduplicated settings) (event : MarketEvent) :
    (e.onEvent settings arith event).1.Deduplicated settings := by
  intro symbol t found
  obtain ⟨s, -, before, ⟨same, -⟩ | ⟨-, noted⟩⟩ := Engine.onEvent_noted h found
  · obtain ⟨ids, last⟩ := Prod.mk.inj same
    exact ⟨ids ▸ before.sorted, ids ▸ last ▸ before.recent, ids ▸ before.sized⟩
  · exact noted.deduplicated before

theorem Engine.Seen.onEvent (seen : e.Seen identity) (h : e.Deduplicated settings) (event : MarketEvent) :
    (e.onEvent settings arith event).1.Seen identity := by
  intro t found
  obtain ⟨s, here, before, ⟨same, -⟩ | ⟨-, noted⟩⟩ := Engine.onEvent_noted h found
  · obtain ⟨ids, last⟩ := Prod.mk.inj same
    exact (seen s here).imp (fun member => ids ▸ member) fun early => last ▸ early
  · exact noted.seen before (seen s here)

/-- An accepted trade was not seen before, and is from then on. -/
theorem Engine.onEvent_accepts (h : e.Deduplicated settings)
    (accepted : (e.onEvent settings arith event).2 = true) (here : event.identity = some identity) :
    ¬e.Seen identity ∧ (e.onEvent settings arith event).1.Seen identity := by
  have own : identity.symbol = event.symbol := by
    unfold MarketEvent.identity at here
    split at here
    next => rw [← Option.some.inj here]
    next => cases here
  obtain ⟨t, found⟩ := Engine.onEvent_found accepted
  obtain ⟨s, there, -, ⟨-, other⟩ | ⟨-, noted⟩⟩ := Engine.onEvent_noted h found
  · rcases other with apart | refused
    · exact absurd rfl apart
    · rw [accepted] at refused
      cases refused
  · rw [accepted] at noted
    obtain ⟨unseen, seen⟩ := noted.accepts here
    refine ⟨fun all => unseen (all s (own ▸ there)), fun u at_ => ?_⟩
    rw [own, found] at at_
    exact Option.some.inj at_ ▸ seen

theorem Engine.Deduplicated.start (settings : Settings) : (Engine.start settings).Deduplicated settings := by
  intro symbol state found
  obtain rfl := get?_start symbol state found
  exact ⟨.nil, fun _ member => (nomatch member), Nat.zero_le _⟩

end seen

end TradeAgent.Market
