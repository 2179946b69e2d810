import TradeAgent.FeatureTrades

/-! What the session of a symbol has counted: trades of its day, and each of them once. -/
namespace TradeAgent.Market

/-- Price and quantity of a trade. -/
def MarketEvent.traded (event : MarketEvent) : Option (ℚ × ℚ) :=
  match event.content with
  | .trade price quantity .. => some (price, quantity)
  | _ => none

/-- The session with one more event, if that is a trade. -/
def Session.take (arith : Arithmetic) (session : Session) (event : MarketEvent) : Except Fault Session :=
  match event.traded with
  | some (price, quantity) => session.trade arith price quantity
  | none => .ok session

/-- The events of a symbol on a day. -/
def ofDay (symbol : String) (day : Option ℤ) (events : List MarketEvent) : List MarketEvent :=
  events.filter fun event => event.symbol = symbol ∧ some event.day = day

/-- The session that the trades make, one after the other. -/
def tally (arith : Arithmetic) (day : Option ℤ) (trades : List MarketEvent) : Except Fault Session :=
  trades.foldlM (Session.take arith) { day }

section counting

variable (settings : Settings) (arith : Arithmetic)

/-- After the event the session of its day has one trade more. -/
def Engine.counts (e : Engine) (event : MarketEvent) : Bool :=
  match e.states.get? event.symbol, (e.onEvent settings arith event).1.states.get? event.symbol with
  | some s, some t =>
    t.sessionDay = some event.day ∧ t.sessionCount = (s.session.opened event.day).count + 1
  | _, _ => false

def contribution (e : Engine) : Input → List MarketEvent
  | .event event => if e.counts settings arith event then [event] else []
  | .reset .. => []

/-- The events that are counted along a run. -/
def contributions (e : Engine) : List Input → List MarketEvent
  | [] => []
  | input :: rest => contribution settings arith e input ++ contributions (e.step settings arith input) rest

/-- What is counted are events that were received. -/
theorem contributions_received (e : Engine) (inputs : List Input) :
    ((contributions settings arith e inputs).map Input.event).Sublist inputs := by
  induction inputs generalizing e with
  | nil => exact List.Sublist.refl _
  | cons input rest ih =>
    rw [contributions, List.map_append, ← List.singleton_append]
    refine List.Sublist.append ?_ (ih _)
    cases input with
    | reset name reason => exact List.nil_sublist _
    | event event =>
      by_cases counts : e.counts settings arith event = true
      · rw [show contribution settings arith e (.event event) = [event] from if_pos counts]
        exact List.Sublist.refl _
      · rw [show contribution settings arith e (.event event) = [] from if_neg counts]
        exact List.nil_sublist _

end counting

theorem Session.trade_count {arith : Arithmetic} {session next : Session} {price quantity : ℚ}
    (traded : session.trade arith price quantity = .ok next) :
    next.count = session.count + 1 ∧ next.day = session.day := by
  obtain ⟨volume, -, traded⟩ := bind_ok_iff.mp traded
  obtain ⟨notional, -, traded⟩ := bind_ok_iff.mp traded
  obtain rfl := Except.ok.inj traded
  exact ⟨rfl, rfl⟩

@[simp] theorem Session.opened_day (session : Session) (day : ℤ) : (session.opened day).day = some day := by
  unfold Session.opened
  split
  next same => exact same
  next => rfl

/-- A trade that was not seen before: the session of its day is open, with the trade or without it. -/
structure Fresh (arith : Arithmetic) (event : MarketEvent) (identity : TradeIdentity) (price quantity : ℚ)
    (s t : SymbolState) : Prop where
  traded : event.traded = some (price, quantity)
  here : event.identity = some identity
  unseen : ¬s.Seen identity
  seen : t.Seen identity
  late : s.lastTradeNs ≤ event.exchangeAtNs
  last : t.lastTradeNs = event.exchangeAtNs
  session : t.session = s.session.opened event.day ∨
    (s.session.opened event.day).trade arith price quantity = .ok t.session

theorem SymbolState.tape_receives : Receives fun s t => t.tape = s.tape where
  refl _ := rfl
  trans first second := second.trans first
  invalidated := invalidate_tape
  placed _ _ := rfl
  connected _ _ := rfl

section events

variable {settings : Settings} {arith : Arithmetic} {event : MarketEvent} {e : Engine} {symbol : String}
  {s t : SymbolState}

/-- What an event does to the trades that a symbol keeps. -/
theorem Engine.onEvent_tape (found : (e.onEvent settings arith event).1.states.get? symbol = some t) :
    ∃ s, e.states.get? symbol = some s ∧ (t.tape = s.tape ∨
      event.symbol = symbol ∧ ∃ identity price quantity, Fresh arith event identity price quantity s t) := by
  obtain ⟨s, mid, here, tape, ⟨-, rfl⟩ | ⟨own, rfl, -⟩⟩ := SymbolState.tape_receives.onEvent found
  · exact ⟨s, here, .inl tape⟩
  · refine ⟨s, here, ?_⟩
    have taped := handle_taped settings arith event mid
    rw [tape] at taped
    cases taped with
    | same tape other => exact .inl tape
    | traded price quantity tradeId side priced counted content unseen late room known session =>
      obtain ⟨unseen, seen⟩ := noted_marks unseen late known
      exact .inr ⟨own, _, price, quantity, by rw [MarketEvent.traded, content], event.identity_trade content, unseen,
        seen, late, congrArg Prod.snd known, session⟩

theorem MarketEvent.identity_symbol {event : MarketEvent} {identity : TradeIdentity}
    (here : event.identity = some identity) : identity.symbol = event.symbol ∧
      identity.exchangeAtNs = event.exchangeAtNs := by
  unfold MarketEvent.identity at here
  split at here
  next => rw [← Option.some.inj here]; exact ⟨rfl, rfl⟩
  next => cases here

/-- What is seen, is not later than the last trade. -/
theorem SymbolState.Seen.le (h : s.Deduplicated settings) {identity : TradeIdentity} (seen : s.Seen identity) :
    identity.exchangeAtNs ≤ s.lastTradeNs :=
  seen.elim (h.recent identity) fun early => early.le

end events

/-! ## Along a run -/

/-- What the sessions of an engine have counted: every trade once, and all of the day's. -/
structure Accounted (settings : Settings) (arith : Arithmetic) (e : Engine) (counted : List MarketEvent) : Prop where
  deduplicated : e.Deduplicated settings
  distinct : (counted.map MarketEvent.identity).Nodup
  seen : ∀ event ∈ counted, ∃ identity, event.identity = some identity ∧ e.Seen identity
  current : ∀ symbol s d, e.states.get? symbol = some s → s.session.day = some d → d ≤ s.lastTradeNs / dayNs
  earlier : ∀ symbol s, e.states.get? symbol = some s → ∀ event ∈ counted, event.symbol = symbol →
    ∃ d, s.session.day = some d ∧ event.day ≤ d
  tallied : ∀ symbol s, e.states.get? symbol = some s →
    tally arith s.session.day (ofDay symbol s.session.day counted) = .ok s.session

section accounting

variable {settings : Settings} {arith : Arithmetic} {event : MarketEvent} {e f : Engine} {symbol : String}
  {s t : SymbolState} {counted : List MarketEvent} {identity : TradeIdentity} {price quantity : ℚ}

/-- Nothing is accounted otherwise where the trades kept are the same. -/
theorem Accounted.same (h : Accounted settings arith e counted)
    (kept : e.Relates (fun s t => t.tape = s.tape) f) : Accounted settings arith f counted where
  deduplicated := by
    intro symbol t here
    obtain ⟨s, there, tape⟩ := kept symbol t here
    have before := h.deduplicated symbol s there
    have ids : t.tradeIds = s.tradeIds := congrArg (fun tape => tape.1.1) tape
    have last : t.lastTradeNs = s.lastTradeNs := congrArg (fun tape => tape.1.2) tape
    exact ⟨ids ▸ before.sorted, ids ▸ last ▸ before.recent, ids ▸ before.sized⟩
  distinct := h.distinct
  seen := by
    intro event member
    obtain ⟨identity, here, seen⟩ := h.seen event member
    refine ⟨identity, here, fun t found => ?_⟩
    obtain ⟨s, there, tape⟩ := kept _ t found
    have ids : t.tradeIds = s.tradeIds := congrArg (fun tape => tape.1.1) tape
    have last : t.lastTradeNs = s.lastTradeNs := congrArg (fun tape => tape.1.2) tape
    exact (seen s there).imp (fun member => ids ▸ member) fun early => last ▸ early
  current := by
    intro symbol t d here day
    obtain ⟨s, there, tape⟩ := kept symbol t here
    have session : t.session = s.session := congrArg Prod.snd tape
    have last : t.lastTradeNs = s.lastTradeNs := congrArg (fun tape => tape.1.2) tape
    rw [last]
    exact h.current symbol s d there (session ▸ day)
  earlier := by
    intro symbol t here event member own
    obtain ⟨s, there, tape⟩ := kept symbol t here
    have session : t.session = s.session := congrArg Prod.snd tape
    rw [session]
    exact h.earlier symbol s there event member own
  tallied := by
    intro symbol t here
    obtain ⟨s, there, tape⟩ := kept symbol t here
    have session : t.session = s.session := congrArg Prod.snd tape
    rw [session]
    exact h.tallied symbol s there

/-- The session that a fresh trade opens tallies what was counted of its day. -/
theorem Accounted.opened (h : Accounted settings arith e counted) (found : e.states.get? symbol = some s)
    (late : s.lastTradeNs ≤ event.exchangeAtNs) :
    tally arith (some event.day) (ofDay symbol (some event.day) counted) = .ok (s.session.opened event.day) := by
  unfold Session.opened
  by_cases same : s.session.day = some event.day
  · rw [if_pos same, ← same]
    exact h.tallied symbol s found
  · rw [if_neg same]
    -- Nothing of a later day has been counted yet.
    have none_ : ofDay symbol (some event.day) counted = [] := by
      refine List.filter_eq_nil_iff.mpr fun old member matched => ?_
      simp only [decide_eq_true_eq, Option.some.injEq] at matched
      obtain ⟨d, day, le⟩ := h.earlier symbol s found old member matched.1
      have reached := h.current symbol s d found day
      have ordered : s.lastTradeNs / dayNs ≤ event.day := Int.ediv_le_ediv (by decide) late
      refine same (day.trans (congrArg some ?_))
      rw [matched.2] at le
      omega
    rw [none_]
    rfl

/-- The session after a fresh trade: of its day, with the trade if its numbers did not fail. -/
inductive Tallied (arith : Arithmetic) (event : MarketEvent) (s t : SymbolState) : List MarketEvent → Prop
  | counted (taken : (s.session.opened event.day).take arith event = .ok t.session) : Tallied arith event s t [event]
  | failed (opened : t.session = s.session.opened event.day) : Tallied arith event s t []

theorem Fresh.tallied (fresh : Fresh arith event identity price quantity s t)
    (before : e.states.get? event.symbol = some s)
    (after : (e.onEvent settings arith event).1.states.get? event.symbol = some t) :
    Tallied arith event s t (contribution settings arith e (.event event)) := by
  have day : t.sessionDay = t.session.day := rfl
  have count : t.sessionCount = t.session.count := rfl
  change Tallied arith event s t (if e.counts settings arith event then [event] else [])
  unfold Engine.counts
  rw [before, after]
  rcases fresh.session with opened | traded
  · rw [if_neg]
    · exact .failed opened
    · refine fun counts => ?_
      obtain ⟨-, more⟩ := of_decide_eq_true counts
      rw [count, opened] at more
      omega
  · obtain ⟨more, same⟩ := Session.trade_count traded
    rw [if_pos (decide_eq_true ⟨day.trans (same.trans (Session.opened_day _ _)), count.trans more⟩)]
    refine .counted ?_
    rw [Session.take, fresh.traded]
    exact traded

/-- An event whose symbol keeps the same trades is not counted. -/
theorem uncounted (before : e.states.get? event.symbol = some s)
    (after : (e.onEvent settings arith event).1.states.get? event.symbol = some t) (tape : t.tape = s.tape) :
    e.counts settings arith event = false := by
  have session : t.session = s.session := congrArg Prod.snd tape
  have day : t.sessionDay = s.session.day := congrArg Session.day session
  have count : t.sessionCount = s.session.count := congrArg Session.count session
  unfold Engine.counts
  rw [before, after]
  refine decide_eq_false ?_
  rintro ⟨current, more⟩
  rw [day] at current
  rw [count, Session.opened, if_pos current] at more
  omega

theorem ofDay_append (symbol : String) (day : Option ℤ) (before after : List MarketEvent) :
    ofDay symbol day (before ++ after) = ofDay symbol day before ++ ofDay symbol day after :=
  List.filter_append _ _

theorem tally_append {day : Option ℤ} {trades : List MarketEvent} {session : Session}
    (tallied : tally arith day trades = .ok session) (more : List MarketEvent) :
    tally arith day (trades ++ more) = more.foldlM (Session.take arith) session := by
  unfold tally at tallied ⊢
  rw [List.foldlM_append, tallied]
  rfl

/-- The session of the fresh trade's symbol. -/
theorem Accounted.own (h : Accounted settings arith e counted) (found : e.states.get? event.symbol = some s)
    (late : s.lastTradeNs ≤ event.exchangeAtNs) {more : List MarketEvent} (tallied : Tallied arith event s t more) :
    t.session.day = some event.day ∧
      tally arith (some event.day) (ofDay event.symbol (some event.day) (counted ++ more)) = .ok t.session := by
  have opened := h.opened found late
  rw [ofDay_append]
  cases tallied with
  | counted taken =>
    refine ⟨?_, ?_⟩
    · unfold Session.take at taken
      split at taken
      next => exact (Session.trade_count taken).2.trans (Session.opened_day _ _)
      next =>
        rw [← Except.ok.inj taken]
        exact Session.opened_day _ _
    · have kept : ofDay event.symbol (some event.day) [event] = [event] :=
        List.filter_cons_of_pos (decide_eq_true ⟨rfl, rfl⟩)
      rw [kept, tally_append opened, List.foldlM_cons, taken]
      rfl
  | failed same =>
    rw [same, show ofDay event.symbol (some event.day) [] = [] from rfl, List.append_nil]
    exact ⟨Session.opened_day _ _, opened⟩

/-- A fresh trade is accounted, while the other symbols stay as they are. -/
theorem Accounted.fresh (h : Accounted settings arith e counted) (found : e.states.get? event.symbol = some s)
    (after : f.states.get? event.symbol = some t) (fresh : Fresh arith event identity price quantity s t)
    (others : ∀ symbol u, f.states.get? symbol = some u → event.symbol ≠ symbol →
      ∃ s, e.states.get? symbol = some s ∧ u.tape = s.tape)
    (deduplicated : f.Deduplicated settings) (still : ∀ identity, e.Seen identity → f.Seen identity)
    {more : List MarketEvent} (tallied : Tallied arith event s t more) :
    Accounted settings arith f (counted ++ more) := by
  have only : ∀ new ∈ more, new = event := by
    cases tallied with
    | counted => exact fun new member => List.mem_singleton.mp member
    | failed => exact fun new member => nomatch member
  have ordered : s.lastTradeNs / dayNs ≤ event.day := Int.ediv_le_ediv (by decide) fresh.late
  obtain ⟨own, -⟩ := MarketEvent.identity_symbol fresh.here
  obtain ⟨day, session⟩ := h.own found fresh.late tallied
  refine ⟨deduplicated, ?_, fun old member => ?_, fun symbol u d there at_ => ?_,
    fun symbol u there old member same => ?_, fun symbol u there => ?_⟩
  · rw [List.map_append]
    refine List.Nodup.append h.distinct ?_ fun one before now => ?_
    · cases tallied with
      | counted => exact List.nodup_singleton _
      | failed => exact List.nodup_nil
    · obtain ⟨new, member, rfl⟩ := List.mem_map.mp now
      obtain ⟨old, counted, same⟩ := List.mem_map.mp before
      obtain rfl := only new member
      -- What was counted is seen, but the trade was not.
      obtain ⟨identity, here, seen⟩ := h.seen old counted
      rw [same, fresh.here] at here
      obtain rfl := Option.some.inj here
      exact fresh.unseen (seen s (own ▸ found))
  · rcases List.mem_append.mp member with counted | new
    · obtain ⟨identity, here, seen⟩ := h.seen old counted
      exact ⟨identity, here, still identity seen⟩
    · obtain rfl := only old new
      refine ⟨identity, fresh.here, fun u there => ?_⟩
      rw [own, after] at there
      exact Option.some.inj there ▸ fresh.seen
  · by_cases here : event.symbol = symbol
    · subst here
      rw [after] at there
      obtain rfl := Option.some.inj there
      rw [day] at at_
      rw [← Option.some.inj at_, fresh.last]
      exact le_rfl
    · obtain ⟨v, before, tape⟩ := others symbol u there here
      have same : u.session = v.session := congrArg Prod.snd tape
      have last : u.lastTradeNs = v.lastTradeNs := congrArg (fun tape => tape.1.2) tape
      rw [last]
      exact h.current symbol v d before (same ▸ at_)
  · by_cases here : event.symbol = symbol
    · subst here
      rw [after] at there
      obtain rfl := Option.some.inj there
      refine ⟨event.day, day, ?_⟩
      rcases List.mem_append.mp member with counted | new
      · obtain ⟨d, opened, le⟩ := h.earlier event.symbol s found old counted same
        exact le.trans ((h.current event.symbol s d found opened).trans ordered)
      · rw [only old new]
    · obtain ⟨v, before, tape⟩ := others symbol u there here
      have kept : u.session = v.session := congrArg Prod.snd tape
      rw [kept]
      rcases List.mem_append.mp member with counted | new
      · exact h.earlier symbol v before old counted same
      · rw [only old new] at same
        exact absurd same here
  · by_cases here : event.symbol = symbol
    · subst here
      rw [after] at there
      obtain rfl := Option.some.inj there
      rw [day]
      exact session
    · obtain ⟨v, before, tape⟩ := others symbol u there here
      have kept : u.session = v.session := congrArg Prod.snd tape
      have none_ : ofDay symbol v.session.day more = [] := by
        refine List.filter_eq_nil_iff.mpr fun new member matched => ?_
        rw [only new member] at matched
        exact here (of_decide_eq_true matched).1
      rw [kept, ofDay_append, none_, List.append_nil]
      exact h.tallied symbol v before

/-- An event is accounted once. -/
theorem Accounted.onEvent (h : Accounted settings arith e counted) (event : MarketEvent) :
    Accounted settings arith (e.onEvent settings arith event).1
      (counted ++ contribution settings arith e (.event event)) := by
  have others : ∀ symbol u, (e.onEvent settings arith event).1.states.get? symbol = some u → event.symbol ≠ symbol →
      ∃ s, e.states.get? symbol = some s ∧ u.tape = s.tape := by
    intro symbol u there apart
    obtain ⟨s, before, tape | ⟨own, -⟩⟩ := Engine.onEvent_tape there
    · exact ⟨s, before, tape⟩
    · exact absurd own apart
  cases there : (e.onEvent settings arith event).1.states.get? event.symbol with
  | none =>
    have no : contribution settings arith e (.event event) = [] := by
      refine if_neg fun counts => ?_
      unfold Engine.counts at counts
      rw [there] at counts
      split at counts
      next absent => cases absent
      next => cases counts
    rw [no, List.append_nil]
    refine h.same fun symbol u here => others symbol u here fun own => ?_
    rw [← own, there] at here
    cases here
  | some t =>
    obtain ⟨s, found, tape | ⟨-, identity, price, quantity, fresh⟩⟩ := Engine.onEvent_tape there
    · rw [show contribution settings arith e (.event event) = [] from
        if_neg (by rw [uncounted found there tape]; exact Bool.false_ne_true), List.append_nil]
      refine h.same fun symbol u here => ?_
      by_cases own : event.symbol = symbol
      · subst own
        rw [there] at here
        exact ⟨s, found, Option.some.inj here ▸ tape⟩
      · exact others symbol u here own
    · exact h.fresh found there fresh others (h.deduplicated.onEvent event)
        (fun identity seen => seen.onEvent h.deduplicated event) (fresh.tallied found there)

theorem Accounted.step (h : Accounted settings arith e counted) (input : Input) :
    Accounted settings arith (e.step settings arith input) (counted ++ contribution settings arith e input) := by
  cases input with
  | event event => exact h.onEvent event
  | reset name reason =>
    rw [show contribution settings arith e (.reset name reason) = [] from rfl, List.append_nil]
    refine h.same ?_
    change Engine.Relates _ e ((e.reset name reason).getD e)
    cases done : e.reset name reason with
    | none => exact SymbolState.tape_receives.same e
    | some f => exact SymbolState.tape_receives.reset done

theorem Accounted.run (h : Accounted settings arith e counted) (inputs : List Input) :
    Accounted settings arith (Machine.run (Engine.step settings arith) e inputs)
      (counted ++ contributions settings arith e inputs) := by
  induction inputs generalizing e counted with
  | nil => rw [contributions, List.append_nil]; exact h
  | cons input rest ih =>
    have after := ih (h.step input)
    rw [List.append_assoc] at after
    exact after

end accounting

theorem Accounted.start (settings : Settings) (arith : Arithmetic) :
    Accounted settings arith (Engine.start settings) [] where
  deduplicated := .start settings
  distinct := List.nodup_nil
  seen _ member := nomatch member
  current symbol s d found day := by
    obtain rfl := get?_start symbol s found
    cases day
  earlier _ _ _ _ member := nomatch member
  tallied symbol s found := by
    obtain rfl := get?_start symbol s found
    rfl

theorem tally_count {arith : Arithmetic} {day : Option ℤ} {trades : List MarketEvent} {session : Session}
    (traded : ∀ event ∈ trades, event.traded.isSome) (tallied : tally arith day trades = .ok session) :
    session.count = trades.length := by
  induction trades using List.reverseRecOn generalizing session with
  | nil =>
    rw [← Except.ok.inj tallied]
    rfl
  | append_singleton earlier event ih =>
    unfold tally at tallied
    rw [List.foldlM_append] at tallied
    obtain ⟨before, first, last⟩ := bind_ok_iff.mp tallied
    rw [List.foldlM_cons] at last
    obtain ⟨after, taken, same⟩ := bind_ok_iff.mp last
    obtain rfl := Except.ok.inj same
    obtain ⟨⟨price, quantity⟩, here⟩ := Option.isSome_iff_exists.mp
      (traded event (List.mem_append_right _ List.mem_cons_self))
    rw [Session.take, here] at taken
    rw [(Session.trade_count taken).1, ih (fun old member => traded old (List.mem_append_left _ member)) first,
      List.length_append, List.length_singleton]

theorem MarketEvent.identity_traded {event : MarketEvent} {identity : TradeIdentity}
    (here : event.identity = some identity) : event.traded.isSome := by
  unfold MarketEvent.identity at here
  unfold MarketEvent.traded
  cases content : event.content with
  | trade => rfl
  | _ =>
    rw [content] at here
    cases here

/-- Whatever arrives, no two of the events counted are the same trade, and the session of a symbol is what they make: its
volume, notional and count come from the trades of its day, each of them once. -/
theorem session_counts_once (settings : Settings) (arith : Arithmetic) (inputs : List Input) :
    ((contributions settings arith (Engine.start settings) inputs).map Input.event).Sublist inputs ∧
    ((contributions settings arith (Engine.start settings) inputs).map MarketEvent.identity).Nodup ∧
    (∀ event ∈ contributions settings arith (Engine.start settings) inputs, event.identity.isSome) ∧
    ∀ symbol state, (engineAfter settings arith inputs).states.get? symbol = some state →
      let counted := ofDay symbol state.session.day (contributions settings arith (Engine.start settings) inputs)
      tally arith state.session.day counted = .ok state.session ∧ state.session.count = counted.length := by
  have accounted := (Accounted.start settings arith).run inputs
  rw [List.nil_append] at accounted
  refine ⟨contributions_received settings arith _ inputs, accounted.distinct, fun event member => ?_,
    fun symbol state found => ⟨accounted.tallied symbol state found, ?_⟩⟩
  · obtain ⟨identity, here, -⟩ := accounted.seen event member
    exact Option.isSome_iff_exists.mpr ⟨identity, here⟩
  · refine tally_count (fun event member => ?_) (accounted.tallied symbol state found)
    obtain ⟨identity, here, -⟩ := accounted.seen event (List.mem_of_mem_filter member)
    exact MarketEvent.identity_traded here

end TradeAgent.Market
