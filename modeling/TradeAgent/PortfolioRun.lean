import TradeAgent.PortfolioExposure

/-! Whole runs of the portfolio engine: the ledger's fills are the broker's, their replay
gives the positions, and every exposure sample is the account's, exactly when the forced
liquidation can sell all that is left. -/
namespace TradeAgent.Portfolio

open Paper Risk

variable {σ : Type} (s : Setup σ)

def decisionText (intent : PortfolioIntent) (symbol : String) : String :=
  s.hashing.text intent.strategyId symbol intent.timestamp (weightOf intent symbol)

/-- The texts a run hashes: one per recorded intent and symbol of the universe. -/
def decisionTexts (symbols : List String) (ledger : List LedgerEvent) : Set String :=
  { text | ∃ intent at_, ⟨.portfolioIntent intent, at_⟩ ∈ ledger ∧
    ∃ symbol ∈ symbols, text = decisionText s intent symbol }

/-- Every id a broker has filled belongs to an intent older than the given frames. -/
def Dated (texts : Set String) (frames : List UniverseFrame) (b : PaperBroker) : Prop :=
  ∀ id, b.fills.get? id ≠ none → ∃ intent symbol, id = orderId s intent symbol ∧
    decisionText s intent symbol ∈ texts ∧ ∀ frame ∈ frames, intent.timestamp < frame.timestamp

/-- A strategy's intents carry their frame's time. -/
def Carries : Prop := ∀ state frame intent,
  (s.onFrame state frame).1 = some intent → intent.timestamp = frame.timestamp

variable {s}

/-- Ids without a hash collision tell times apart, and symbols of one strategy. -/
theorem orderId_inj {texts : Set String} (separate : Set.InjOn s.hashing.digest texts)
    {intent other : PortfolioIntent} {x y : String} (known : decisionText s intent x ∈ texts)
    (known' : decisionText s other y ∈ texts) (same : orderId s intent x = orderId s other y) :
    intent.timestamp = other.timestamp ∧ (intent.strategyId = other.strategyId → x = y) :=
  s.hashing.text_inj (separate known known' (s.hashing.decisionId_of_clientOrderId same))

theorem decisionTexts_append {symbols : List String} {ledger later : List LedgerEvent} {texts : Set String}
    (covers : decisionTexts s symbols (ledger ++ later) ⊆ texts) :
    decisionTexts s symbols ledger ⊆ texts ∧ decisionTexts s symbols later ⊆ texts := by
  constructor
  · rintro text ⟨intent, at_, member, rest⟩
    exact covers ⟨intent, at_, List.mem_append_left _ member, rest⟩
  · rintro text ⟨intent, at_, member, rest⟩
    exact covers ⟨intent, at_, List.mem_append_right _ member, rest⟩

theorem exposureRatio_eq (a : AccountSnapshot) : exposureRatio a = a.grossExposure / a.equity :=
  if_pos a.equityPositive

/-- A frame: marks, the strategy's orders if it has an intent, progress and a sample. -/
theorem processFrame_ok {symbols : List String} {e e' : Engine σ} {frame : UniverseFrame}
    {events : List LedgerEvent} {sample : ℚ}
    (done : processFrame s symbols e frame = .ok (e', events, sample)) :
    sortedSymbols frame = symbols ∧
    ∃ (middle : Engine σ) (body : List LedgerEvent) (a : AccountSnapshot),
      account middle.broker frame.timestamp = (e'.broker, .ok a) ∧ sample = exposureRatio a ∧
      e'.risk = middle.risk ∧
      events = body ++
        [⟨.portfolioProgress frame.timestamp s.strategyId s.fingerprint, frame.timestamp⟩] ∧
      (((s.onFrame e.strategy frame).1 = none ∧ body = [] ∧
          middle = ⟨markFrame e.broker frame, e.risk, (s.onFrame e.strategy frame).2⟩) ∨
        ∃ intent orders, (s.onFrame e.strategy frame).1 = some intent ∧
          body = ⟨.portfolioIntent intent, frame.timestamp⟩ :: orders ∧
          executeBars s ⟨markFrame e.broker frame, e.risk, (s.onFrame e.strategy frame).2⟩ frame intent
            (sortedBars frame) = .ok (middle, orders)) := by
  unfold processFrame at done
  split at done
  next => cases done
  next traded =>
    refine ⟨not_not.mp traded, ?_⟩
    rcases emitted : s.onFrame e.strategy frame with ⟨intent, strategy⟩
    simp only [emitted] at done
    cases intent with
    | none =>
      obtain ⟨⟨middle, body⟩, first, rest⟩ := bind_ok_iff.mp done
      cases first
      obtain ⟨⟨broker, a⟩, read, rest⟩ := bind_ok_iff.mp rest
      cases rest
      exact ⟨_, [], a, accept_ok.mp read, rfl, rfl, rfl, .inl ⟨rfl, rfl, rfl⟩⟩
    | some intent =>
      dsimp only at done
      split at done
      next => obtain ⟨_, raised, _⟩ := bind_ok_iff.mp done; cases raised
      next =>
        obtain ⟨⟨middle, body⟩, first, rest⟩ := bind_ok_iff.mp done
        unfold executeTargets at first
        obtain ⟨⟨last, orders⟩, executed, first⟩ := bind_ok_iff.mp first
        cases first
        obtain ⟨⟨broker, a⟩, read, rest⟩ := bind_ok_iff.mp rest
        cases rest
        exact ⟨_, _, a, accept_ok.mp read, rfl, rfl, rfl, .inr ⟨intent, orders, rfl, rfl, executed⟩⟩

/-- One frame keeps the ledger's fills those of the broker. -/
theorem processFrame_open {symbols : List String} {texts : Set String} {e e' : Engine σ}
    {frame : UniverseFrame} {rest : List UniverseFrame} {events : List LedgerEvent} {sample : ℚ}
    (known : Open s symbols e.broker) (dated : Dated s texts (frame :: rest) e.broker)
    (increasing : ∀ later ∈ rest, frame.timestamp < later.timestamp) (carries : Carries s)
    (separate : Set.InjOn s.hashing.digest texts) (covers : decisionTexts s symbols events ⊆ texts)
    (done : processFrame s symbols e frame = .ok (e', events, sample)) :
    Framed s symbols e'.broker ∧ e'.risk.limits = e.risk.limits ∧ Dated s texts rest e'.broker ∧
    e'.broker.fills.values = e.broker.fills.values ++ filledEvents events ∧
    ∃ a, account e'.broker frame.timestamp = (e'.broker, .ok a) ∧
      sample = a.grossExposure / a.equity := by
  obtain ⟨traded, middle, body, a, read, rfl, risk, rfl, acted⟩ := processFrame_ok done
  have marked := known.frame traded
  have fills (b : PaperBroker) : (markFrame b frame).fills = b.fills := by
    unfold markFrame
    generalize frame.bars = bars
    induction bars generalizing b with
    | nil => rfl
    | cons bar rest ih => rw [List.foldl_cons, ih, mark_fills]
  have finish : Framed s symbols middle.broker →
      Framed s symbols e'.broker ∧ e'.broker = middle.broker ∧
        account e'.broker frame.timestamp = (e'.broker, .ok a) := by
    intro framed
    have same := account_settled framed.marked framed.settled read
    exact ⟨same ▸ framed, same, by rw [same] at read ⊢; exact read⟩
  have progress : filledEvents (body ++
      [⟨.portfolioProgress frame.timestamp s.strategyId s.fingerprint, frame.timestamp⟩]) =
        filledEvents body := by
    rw [filledEvents_append]; exact List.append_nil _
  have older : Dated s texts rest (markFrame e.broker frame) := by
    intro id used
    rw [fills] at used
    obtain ⟨intent, symbol, same, inside, before⟩ := dated id used
    exact ⟨intent, symbol, same, inside, fun later member => before later (List.mem_cons_of_mem frame member)⟩
  rcases acted with ⟨_, rfl, rfl⟩ | ⟨intent, orders, emitted, rfl, executed⟩
  · obtain ⟨framed, same, again⟩ := finish marked
    refine ⟨framed, by rw [risk], same ▸ older, ?_, a, again, exposureRatio_eq a⟩
    rw [progress, same, fills]
    simp [filledEvents]
  · have time := carries _ _ _ emitted
    have texts' : ∀ symbol ∈ symbols, decisionText s intent symbol ∈ texts := fun symbol member =>
      covers ⟨intent, frame.timestamp, by simp, symbol, member, rfl⟩
    have inside : ∀ bar ∈ sortedBars frame, bar.symbol ∈ symbols := fun bar member =>
      traded ▸ List.mem_map_of_mem member
    have unused : ∀ bar ∈ sortedBars frame,
        (markFrame e.broker frame).fills.get? (orderId s intent bar.symbol) = none := by
      intro bar member
      by_contra used
      rw [fills] at used
      obtain ⟨older, symbol, same, inTexts, before⟩ := dated _ used
      have equal := (orderId_inj separate (texts' _ (inside bar member)) inTexts same).1
      have less := before frame List.mem_cons_self
      rw [← equal, time] at less
      exact lt_irrefl _ less
    obtain ⟨framed, limits, values, ids⟩ := executeBars_matched marked inside (sortedBars_distinct frame)
      (fun x hx y hy same => (orderId_inj separate (texts' x hx) (texts' y hy) same).2 rfl) unused executed
    obtain ⟨framed, same, again⟩ := finish framed
    refine ⟨framed, by rw [risk]; exact limits, ?_, ?_, a, again, exposureRatio_eq a⟩
    · intro id used
      rw [same] at used
      by_cases mine : ∃ bar ∈ sortedBars frame, id = orderId s intent bar.symbol
      · obtain ⟨bar, member, rfl⟩ := mine
        exact ⟨intent, bar.symbol, rfl, texts' _ (inside bar member), fun later late =>
          time ▸ increasing later late⟩
      · rw [ids id fun bar member clash => mine ⟨bar, member, clash⟩] at used
        exact older id used
    · rw [progress, same, values, fills]
      rfl

theorem processFrames_cons {symbols : List String} {e e' : Engine σ} {frame : UniverseFrame}
    {rest : List UniverseFrame} {events : List LedgerEvent} {samples : List ℚ} :
    processFrames s symbols e (frame :: rest) = .ok (e', events, samples) ↔
    ∃ middle here later sample others, processFrame s symbols e frame = .ok (middle, here, sample) ∧
      processFrames s symbols middle rest = .ok (e', later, others) ∧
      events = here ++ later ∧ samples = sample :: others := by
  rw [processFrames]
  constructor
  · intro done
    obtain ⟨⟨middle, here, sample⟩, first, others⟩ := bind_ok_iff.mp done
    obtain ⟨⟨last, later, samples⟩, second, finished⟩ := bind_ok_iff.mp others
    cases finished
    exact ⟨middle, here, later, sample, samples, first, second, rfl, rfl⟩
  · rintro ⟨middle, here, later, sample, others, first, second, rfl, rfl⟩
    exact bind_ok_iff.mpr ⟨(middle, here, sample), first,
      bind_ok_iff.mpr ⟨(e', later, others), second, rfl⟩⟩

/-- The frames of a run: fills match, and the sample of each frame is read from the broker
that the frames up to it leave. -/
theorem processFrames_open {symbols : List String} {texts : Set String} {e e' : Engine σ}
    {frames : List UniverseFrame} {events : List LedgerEvent} {samples : List ℚ}
    (known : Open s symbols e.broker) (dated : Dated s texts frames e.broker)
    (increasing : frames.Pairwise fun earlier later => earlier.timestamp < later.timestamp)
    (carries : Carries s) (separate : Set.InjOn s.hashing.digest texts)
    (covers : decisionTexts s symbols events ⊆ texts)
    (done : processFrames s symbols e frames = .ok (e', events, samples)) :
    (frames ≠ [] → Framed s symbols e'.broker) ∧ e'.risk.limits = e.risk.limits ∧
    e'.broker.fills.values = e.broker.fills.values ++ filledEvents events ∧
    samples.length = frames.length ∧
    ∀ k frame, frames[k]? = some frame → ∃ (at_ : Engine σ) (ev : List LedgerEvent) (smp : List ℚ)
      (a : AccountSnapshot), processFrames s symbols e (frames.take (k + 1)) = .ok (at_, ev, smp) ∧
        account at_.broker frame.timestamp = (at_.broker, .ok a) ∧
        samples[k]? = some (a.grossExposure / a.equity) := by
  induction frames generalizing e events samples with
  | nil =>
    cases done
    exact ⟨fun none => absurd rfl none, rfl, by simp [filledEvents], rfl, fun k frame found => by
      simp at found⟩
  | cons frame rest ih =>
    obtain ⟨middle, here, later, sample, others, first, second, rfl, rfl⟩ := processFrames_cons.mp done
    obtain ⟨before, increasing⟩ := List.pairwise_cons.mp increasing
    obtain ⟨one, two⟩ := decisionTexts_append covers
    obtain ⟨framed, limits, dated, values, a, read, real⟩ :=
      processFrame_open known dated before carries separate one first
    obtain ⟨kept, limits', values', length, points⟩ := ih framed.toOpen dated increasing two second
    refine ⟨fun _ => ?_, limits'.trans limits, ?_, by simp [length], fun k x found => ?_⟩
    · cases rest with
      | nil => cases second; exact framed
      | cons => exact kept (List.cons_ne_nil _ _)
    · rw [values', values, filledEvents_append, List.append_assoc]
    · cases k with
      | zero =>
        cases found
        refine ⟨middle, here ++ [], [sample], a, ?_, read, by rw [real]; rfl⟩
        exact processFrames_cons.mpr ⟨middle, here, [], sample, [], first, rfl, rfl, rfl⟩
      | succ k =>
        obtain ⟨at_, ev, smp, b, reached, account, real⟩ := points k x found
        exact ⟨at_, here ++ ev, sample :: smp, b,
          processFrames_cons.mpr ⟨middle, here, ev, sample, smp, first, reached, rfl, rfl⟩, account, real⟩

section Positions

variable {symbols : List String} {b : PaperBroker} {a : AccountSnapshot}

theorem held_outside (framed : Framed s symbols b) {symbol : String} (outside : symbol ∉ symbols) :
    held b symbol = 0 := by
  have absent : b.positions.get? symbol = none :=
    Dict.get?_none_iff.mpr fun present => outside (framed.only symbol present)
  rw [held, Dict.getD, absent]
  rfl

/-- The account lists no position exactly when nothing of the universe is held. -/
theorem positions_nil_iff (framed : Framed s symbols b) (reads : Reads b a) :
    a.positions = [] ↔ ∀ symbol ∈ symbols, held b symbol = 0 := by
  constructor
  · intro empty symbol member
    rw [← reads.quantityOf (framed.priced symbol member), AccountSnapshot.quantityOf,
      AccountSnapshot.positionFor, empty]
    rfl
  · intro none
    apply List.eq_nil_iff_forall_not_mem.mpr
    intro p member
    obtain ⟨quantity, moved, _⟩ := reads.position member
    by_cases inside : p.symbol ∈ symbols
    · exact moved (quantity.trans (none p.symbol inside))
    · exact moved (quantity.trans (held_outside framed inside))

theorem grossExposure_zero_iff (reads : Reads b a) : a.grossExposure = 0 ↔ a.positions = [] := by
  constructor
  · intro zero
    apply List.eq_nil_iff_forall_not_mem.mpr
    intro p member
    have nonneg : ∀ x ∈ a.positions.map (fun p => |p.marketValue|), 0 ≤ x := by
      intro x inside
      obtain ⟨q, _, rfl⟩ := List.mem_map.mp inside
      exact abs_nonneg _
    have below := List.single_le_sum nonneg _ (List.mem_map_of_mem member)
    rw [AccountSnapshot.grossExposure] at zero
    rw [zero] at below
    have flat : p.quantity * p.marketPrice = 0 := abs_eq_zero.mp (le_antisymm below (abs_nonneg _))
    rcases mul_eq_zero.mp flat with none | free
    · exact (reads.position member).2.1 none
    · exact p.marketPricePositive.ne' free
  · intro empty
    rw [AccountSnapshot.grossExposure, empty]
    rfl

end Positions

/-- After the frames either nothing is held, or the liquidation runs and zero is noted. -/
theorem finish_ok {symbols : List String} {last : UniverseFrame} {o o' : Outcome σ}
    (framed : Framed s symbols o.engine.broker) (done : finish s last o = .ok o') :
    ∃ a, account o.engine.broker last.timestamp = (o.engine.broker, .ok a) ∧
    ((a.positions = [] ∧ o' = o) ∨
      (a.positions ≠ [] ∧ ∃ (e : Engine σ) (orders : List LedgerEvent) (b : AccountSnapshot),
        executeBars s o.engine last (liquidation s last) (sortedBars last) = .ok (e, orders) ∧
        account e.broker last.timestamp = (o'.engine.broker, .ok b) ∧
        o'.ledger = o.ledger ++ ⟨.portfolioIntent (liquidation s last), last.timestamp⟩ :: orders ∧
        o'.grossExposures = o.grossExposures.dropLast ++ [0])) := by
  unfold finish at done
  obtain ⟨⟨broker, a⟩, accepted, rest⟩ := bind_ok_iff.mp done
  have read := accept_ok.mp accepted
  obtain rfl := account_settled framed.marked framed.settled read
  refine ⟨a, read, ?_⟩
  dsimp only at rest
  split at rest
  next empty => cases rest; exact .inl ⟨List.isEmpty_iff.mp empty, rfl⟩
  next some =>
    obtain ⟨⟨e, events⟩, executed, rest⟩ := bind_ok_iff.mp rest
    unfold executeTargets at executed
    obtain ⟨⟨last', orders⟩, ran, executed⟩ := bind_ok_iff.mp executed
    cases executed
    obtain ⟨⟨after, b⟩, again, rest⟩ := bind_ok_iff.mp rest
    cases rest
    exact .inr ⟨fun empty => some (List.isEmpty_iff.mpr empty), e, orders, b, ran, accept_ok.mp again,
      rfl, rfl⟩

variable (s)

/-- The symbols of a run are those of its first frame. -/
def symbolsOf (frames : List UniverseFrame) : List String :=
  (frames.head?.map sortedSymbols).getD []

/-- The ledger's fills are the broker's, one to one and in order, and replaying them gives
the positions. -/
structure Accounted (o : Outcome σ) : Prop where
  fills : filledEvents o.ledger = o.engine.broker.fills.values
  positions : ∀ symbol, replay (filledEvents o.ledger) symbol = held o.engine.broker symbol

/-- The broker at a sample: after the frames so far, and for the last sample after the run. -/
def AtSample (e : Engine σ) (frames : List UniverseFrame) (o : Outcome σ) (k : ℕ) (b : PaperBroker) :
    Prop :=
  if k + 1 = frames.length then b = o.engine.broker
  else ∃ e' events samples,
    processFrames s (symbolsOf frames) e (frames.take (k + 1)) = .ok (e', events, samples) ∧
    b = e'.broker

/-- Every sample is gross exposure over equity of the account at its point. -/
def Real (e : Engine σ) (frames : List UniverseFrame) (o : Outcome σ) : Prop :=
  o.grossExposures.length = frames.length ∧ ∀ k frame, frames[k]? = some frame →
    ∃ b a, AtSample s e frames o k b ∧ account b frame.timestamp = (b, .ok a) ∧
      o.grossExposures[k]? = some (a.grossExposure / a.equity)

/-- The condition on a run: what is held after the last frame can all be sold there. -/
def Liquidated (e : Engine σ) (frames : List UniverseFrame) : Prop :=
  ∀ last e' events samples, frames.getLast? = some last →
    processFrames s (symbolsOf frames) e frames = .ok (e', events, samples) →
    ∀ bar ∈ last.bars, held e'.broker bar.symbol ≠ 0 → Sellable s last e'.broker bar

variable {s}

theorem run_ok {e : Engine σ} {frames : List UniverseFrame} {o : Outcome σ}
    (fresh : e.broker = init s.config.broker) (returns : run s e frames = .ok o) :
    ∃ (last : UniverseFrame) (e' : Engine σ) (events : List LedgerEvent) (samples : List ℚ)
      (middle : Outcome σ) (a : AccountSnapshot) (state : PaperBrokerState),
      frames.getLast? = some last ∧
      processFrames s (symbolsOf frames) e frames = .ok (e', events, samples) ∧
      finish s last ⟨e', events, samples⟩ = .ok middle ∧
      account middle.engine.broker last.timestamp = (o.engine.broker, .ok a) ∧
      o.ledger = middle.ledger ++ [⟨.brokerCheckpoint state, last.timestamp⟩] ∧
      o.grossExposures = middle.grossExposures := by
  unfold run at returns
  split at returns
  next first last starts ends =>
    obtain ⟨⟨broker, a⟩, accepted, rest⟩ := bind_ok_iff.mp returns
    have read := accept_ok.mp accepted
    have same : broker = e.broker := by
      rw [fresh] at read ⊢
      exact account_settled (init_marked _) (init_settled _) read
    subst same
    obtain ⟨⟨e', events, samples⟩, processed, rest⟩ := bind_ok_iff.mp rest
    obtain ⟨middle, finished, rest⟩ := bind_ok_iff.mp rest
    obtain ⟨⟨after, b⟩, again, rest⟩ := bind_ok_iff.mp rest
    obtain ⟨state, _, rest⟩ := bind_ok_iff.mp rest
    cases rest
    have symbols : symbolsOf frames = sortedSymbols first := by rw [symbolsOf, starts]; rfl
    exact ⟨last, e', events, samples, middle, b, state, ends, symbols ▸ processed, finished,
      accept_ok.mp again, rfl, rfl⟩
  next => cases returns

theorem Accounted.of_fills {symbols : List String} {o : Outcome σ}
    (framed : Framed s symbols o.engine.broker)
    (fills : filledEvents o.ledger = o.engine.broker.fills.values) : Accounted o :=
  ⟨fills, fun symbol => by rw [fills, framed.replayed]⟩

theorem processFrames_symbols {symbols : List String} {e e' : Engine σ} {frames : List UniverseFrame}
    {events : List LedgerEvent} {samples : List ℚ}
    (done : processFrames s symbols e frames = .ok (e', events, samples)) :
    ∀ frame ∈ frames, sortedSymbols frame = symbols := by
  induction frames generalizing e events samples with
  | nil => intro frame member; cases member
  | cons frame rest ih =>
    obtain ⟨middle, here, later, sample, others, first, second, _, _⟩ := processFrames_cons.mp done
    exact List.forall_mem_cons.mpr ⟨(processFrame_ok first).1, ih second⟩

theorem liquidated_iff {e e' : Engine σ} {frames : List UniverseFrame} {last : UniverseFrame}
    {events : List LedgerEvent} {samples : List ℚ} (ends : frames.getLast? = some last)
    (processed : processFrames s (symbolsOf frames) e frames = .ok (e', events, samples)) :
    Liquidated s e frames ↔
      ∀ bar ∈ sortedBars last, held e'.broker bar.symbol ≠ 0 → Sellable s last e'.broker bar := by
  constructor
  · exact fun condition bar member => condition last e' events samples ends processed bar
      (mem_sortedBars.mp member)
  · intro condition last' e'' events' samples' ends' again bar member
    rw [ends] at ends'
    rw [processed] at again
    cases ends'
    cases again
    exact condition bar (mem_sortedBars.mpr member)

/-- On a fresh broker the ledger accounts for the broker and every sample is real exactly
when everything held after the last frame can be sold by its liquidation order. -/
theorem run_real_iff (s : Setup σ) (e : Engine σ) (fresh : e.broker = init s.config.broker)
    (limits : e.risk.limits = s.config.risk) (frames : List UniverseFrame)
    (increasing : frames.Pairwise fun earlier later => earlier.timestamp < later.timestamp)
    (carries : Carries s) {o : Outcome σ} (returns : run s e frames = .ok o)
    (separate : Set.InjOn s.hashing.digest (decisionTexts s (symbolsOf frames) o.ledger)) :
    (Accounted o ∧ Real s e frames o) ↔ Liquidated s e frames := by
  obtain ⟨last, e', events, samples, middle, a, state, ends, processed, finished, read, ledger, exposures⟩ :=
    run_ok fresh returns
  have nonempty : frames ≠ [] := by rintro rfl; cases ends
  have member : last ∈ frames := List.mem_of_getLast? ends
  have checkpoint : filledEvents o.ledger = filledEvents middle.ledger := by
    rw [ledger, filledEvents_append]; exact List.append_nil _
  obtain ⟨texts, all, separate⟩ : ∃ texts, decisionTexts s (symbolsOf frames) o.ledger ⊆ texts ∧
      Set.InjOn s.hashing.digest texts := ⟨_, subset_rfl, separate⟩
  rw [ledger] at all
  have inMiddle := (decisionTexts_append all).1
  have early : ∃ rest, middle.ledger = events ++ rest := by
    unfold finish at finished
    obtain ⟨⟨_, _⟩, _, rest⟩ := bind_ok_iff.mp finished
    dsimp only at rest
    split at rest
    next => cases rest; exact ⟨[], (List.append_nil _).symm⟩
    next =>
      obtain ⟨⟨_, orders⟩, _, rest⟩ := bind_ok_iff.mp rest
      obtain ⟨⟨_, _⟩, _, rest⟩ := bind_ok_iff.mp rest
      cases rest
      exact ⟨orders, rfl⟩
  have covers : decisionTexts s (symbolsOf frames) events ⊆ texts := by
    obtain ⟨rest, early⟩ := early
    rw [early] at inMiddle
    exact (decisionTexts_append inMiddle).1
  have known : Open s (symbolsOf frames) e.broker := fresh ▸ init_open s _
  have dated : Dated s texts frames e.broker := by
    intro id used
    rw [fresh] at used
    exact absurd rfl used
  obtain ⟨framed, limits', values, length, points⟩ :=
    processFrames_open known dated increasing carries separate covers processed
  have framed := framed nonempty
  have start : e.broker.fills.values = [] := by rw [fresh]; rfl
  rw [start, List.nil_append] at values
  have traded := processFrames_symbols processed last member
  have inside : ∀ bar ∈ sortedBars last, bar.symbol ∈ symbolsOf frames := fun bar here =>
    traded ▸ List.mem_map_of_mem here
  have finalFrame : ∀ k frame, k + 1 = frames.length → frames[k]? = some frame → frame = last := by
    intro k frame final found
    rw [List.getLast?_eq_getElem?, ← final] at ends
    exact Option.some.inj (found.symm.trans ends)
  rw [liquidated_iff ends processed]
  obtain ⟨b, current, outcome⟩ := finish_ok (o := ⟨e', events, samples⟩) framed finished
  rcases outcome with ⟨empty, rfl⟩ | ⟨some, e₂, orders, c, executed, again, extended, lastZero⟩
  · -- nothing was held: the last frame's own sample stands
    have same := account_settled framed.marked framed.settled read
    have none := (positions_nil_iff framed (account_ok current).2).mp empty
    refine ⟨fun _ bar here held => absurd (none _ (inside bar here)) held, fun _ => ⟨?_, ?_, ?_⟩⟩
    · exact .of_fills (same ▸ framed) (by rw [checkpoint, same]; exact values.symm)
    · rw [exposures]; exact length
    · intro k frame found
      obtain ⟨at_, ev, smp, a', reached, reads, sample⟩ := points k frame found
      rw [exposures]
      by_cases final : k + 1 = frames.length
      · rw [final, List.take_length, processed] at reached
        cases reached
        exact ⟨e'.broker, a', by rw [AtSample, if_pos final]; exact same.symm, reads, sample⟩
      · exact ⟨at_.broker, a', by rw [AtSample, if_neg final]; exact ⟨at_, ev, smp, reached, rfl⟩,
          reads, sample⟩
  · have hashed : ∀ symbol ∈ symbolsOf frames, decisionText s (liquidation s last) symbol ∈ texts := by
      intro symbol here
      exact inMiddle ⟨liquidation s last, last.timestamp, by rw [extended]; simp, symbol, here, rfl⟩
    obtain ⟨framed₂, _, sold, gained⟩ := liquidateBars framed inside (sortedBars_distinct last)
      (fun bar here => mem_sortedBars.mp here) (limits'.trans limits)
      (fun x hx y hy same => (orderId_inj separate (hashed x hx) (hashed y hy) same).2 rfl) executed
    have mid := account_settled framed₂.marked framed₂.settled again
    rw [mid] at read
    have same := account_settled framed₂.marked framed₂.settled read
    rw [same] at read
    have reads := (account_ok read).2
    have empty : a.grossExposure = 0 ↔ ∀ bar ∈ sortedBars last, held e₂.broker bar.symbol = 0 := by
      rw [grossExposure_zero_iff reads, positions_nil_iff framed₂ reads, ← traded, sortedSymbols,
        List.forall_mem_map]
    constructor
    · rintro ⟨_, count, real⟩
      apply sold.mp
      apply empty.mp
      obtain ⟨n, final⟩ : ∃ n, n + 1 = frames.length :=
        ⟨frames.length - 1, Nat.succ_pred (fun zero => nonempty (List.length_eq_zero_iff.mp zero))⟩
      have found : frames[n]? = Option.some last := by
        rw [List.getLast?_eq_getElem?, ← final] at ends; exact ends
      obtain ⟨broker, a', point, read', sample⟩ := real n last found
      rw [AtSample, if_pos final, same] at point
      subst point
      rw [read] at read'
      cases read'
      have zero : o.grossExposures[n]? = Option.some 0 := by
        rw [exposures, lastZero, List.getElem?_append_right (by rw [List.length_dropLast, length]; omega)]
        rw [List.length_dropLast, length, ← final]
        simp
      rw [zero] at sample
      have ratio := (Option.some.inj sample).symm
      exact (div_eq_zero_iff.mp ratio).resolve_right a.equityPositive.ne'
    · intro sellable
      have gross := empty.mpr (sold.mpr sellable)
      refine ⟨.of_fills (same ▸ framed₂) ?_, ?_, ?_⟩
      · rw [checkpoint, extended, same, gained sellable, values, filledEvents_append]
        rfl
      · rw [exposures, lastZero, List.length_append, List.length_dropLast, length, List.length_singleton]
        have := List.length_pos_iff.mpr nonempty
        omega
      · intro k frame found
        have below : k < frames.length := (List.getElem?_eq_some_iff.mp found).1
        rw [exposures, lastZero]
        by_cases final : k + 1 = frames.length
        · obtain rfl := finalFrame k frame final found
          refine ⟨e₂.broker, a, by rw [AtSample, if_pos final]; exact same.symm, read, ?_⟩
          rw [gross, zero_div, List.getElem?_append_right (by rw [List.length_dropLast, length]; omega)]
          rw [List.length_dropLast, length, ← final]
          simp
        · obtain ⟨at_, ev, smp, a', reached, reads', sample⟩ := points k frame found
          refine ⟨at_.broker, a', by rw [AtSample, if_neg final]; exact ⟨at_, ev, smp, reached, rfl⟩,
            reads', ?_⟩
          rw [List.getElem?_append_left (by rw [List.length_dropLast, length]; omega),
            List.getElem?_dropLast, if_pos (by rw [length]; omega)]
          exact sample

/-! Orders of a fifth of the equity, each of which may be a whole bar's volume. -/

theorem thinOrder_pos : (0 : ℚ) < 1 / 5 := by norm_num

theorem thinVolume_range : (0 : ℚ) < 1 ∧ (1 : ℚ) ≤ 1 := by norm_num

theorem thinOrder_le_gross : (1 / 5 : ℚ) ≤ 1 / 2 := by norm_num

theorem thinOrder_le_position : (1 / 5 : ℚ) ≤ 1 / 5 := le_rfl

def thinRisk : RiskLimits :=
  { RiskLimits.standard with
    maxPositionExposure := 1 / 5
    maxOrderExposure := 1 / 5
    maxVolumeParticipation := 1
    orderPositive := thinOrder_pos
    participationRange := thinVolume_range
    orderWithinPosition := thinOrder_le_position
    positionWithinGross := thinOrder_le_gross }

theorem thinRisk_holds : (1 / 50 : ℚ) ≤ thinRisk.maxOrderExposure ∧ (1 / 200 : ℚ) ≤ thinRisk.maxPositionExposure ∧
    (1 / 100 : ℚ) ≤ thinRisk.maxGrossExposure ∧ 2 ≤ thinRisk.maxPositions := by
  simp only [thinRisk, RiskLimits.standard]
  norm_num

/-- The gateway lets a whole bar's volume pass, the broker one percent of it; the strategy
buys on the first frame and wants to be flat on the second. -/
def thinSetup : Setup ℕ where
  config := { AppConfig.standard ⟨100000, 2, 1, 1, 1 / 100, sampleCash_pos, sampleSlippage_range, samplePoint_range,
      samplePoint_range, samplePercent_range⟩ with
    risk := thinRisk
    targetFitsOrder := thinRisk_holds.1
    intradayPosition := thinRisk_holds.2.1
    intradayGross := thinRisk_holds.2.2.1
    intradayPositions := thinRisk_holds.2.2.2 }
  hashing := plainHashing
  fingerprint := "settings"
  strategyId := "in-and-out"
  onFrame seen frame :=
    let weight : { w : Weight // 0 ≤ w.value ∧ w.value ≤ 1 } :=
      if seen = 0 then ⟨⟨1 / 10, "0.1", by decide⟩, by norm_num⟩
      else ⟨.zero, le_refl _, zero_le_one⟩
    (some ⟨"in-and-out", frame.timestamp, ⟨[("SPY", weight.1)], by simp⟩, "target",
      by simpa [Dict.values] using weight.2, by simpa [Dict.values] using weight.2.2⟩, seen + 1)

def thinFrame (n : ℤ) (volume : ℚ) (traded : 0 ≤ volume) : UniverseFrame where
  timestamp := n * minute
  bars := [⟨"SPY", n * minute, 100, 100, 100, 100, volume, hundred_pos, hundred_pos, hundred_pos, traded,
    hundred_highest, hundred_lowest⟩]
  nonempty := by simp
  distinct := by simp
  sameTime := by simp

theorem thousand_nonneg : (0 : ℚ) ≤ 1000 := by norm_num

def thinFrames : List UniverseFrame :=
  [thinFrame 0 1000000 million_nonneg, thinFrame 1 1000 thousand_nonneg]

def thinStart : Engine ℕ := ⟨init thinSetup.config.broker, { limits := thinSetup.config.risk }, 0⟩

theorem thin_increasing :
    thinFrames.Pairwise fun earlier later => earlier.timestamp < later.timestamp := by
  simp [thinFrames, thinFrame, minute, second]

theorem thin_carries : Carries thinSetup := by
  intro state frame intent emitted
  cases emitted
  rfl

/-- Ledger fills, broker fills, shares left and the last sample. -/
def thinOutcome : Option (ℕ × ℕ × ℚ × Option ℚ) :=
  (run thinSetup thinStart thinFrames).toOption.map fun o =>
    ((filledEvents o.ledger).length, o.engine.broker.fills.values.length, held o.engine.broker "SPY",
      o.grossExposures.getLast?)

theorem run_real_thin : ∃ o, run thinSetup thinStart thinFrames = .ok o ∧
    ((Accounted o ∧ Real thinSetup thinStart thinFrames o) ↔
      Liquidated thinSetup thinStart thinFrames) := by
  have ran : thinOutcome = some (3, 2, 90, some 0) := by decide +kernel
  cases whole : run thinSetup thinStart thinFrames with
  | error => simp [thinOutcome, whole, Except.toOption] at ran
  | ok o => exact ⟨o, rfl, run_real_iff thinSetup thinStart rfl rfl thinFrames thin_increasing thin_carries
      whole (Function.injective_id.injOn)⟩

/-- The liquidation repeats the id of the last frame's partial fill: three fills in the
ledger, two at the broker, ninety shares left and a last sample of zero. -/
theorem liquidation_repeats_id : ∃ o, run thinSetup thinStart thinFrames = .ok o ∧
    (filledEvents o.ledger).length = 3 ∧ o.engine.broker.fills.values.length = 2 ∧
    held o.engine.broker "SPY" = 90 ∧ o.grossExposures.getLast? = some 0 ∧
    ¬(Accounted o ∧ Real thinSetup thinStart thinFrames o) := by
  have ran : thinOutcome = some (3, 2, 90, some 0) := by decide +kernel
  cases whole : run thinSetup thinStart thinFrames with
  | error => simp [thinOutcome, whole, Except.toOption] at ran
  | ok o =>
    simp only [thinOutcome, whole, Except.toOption, Option.map_some, Option.some.injEq,
      Prod.mk.injEq] at ran
    obtain ⟨ledger, broker, left, sample⟩ := ran
    refine ⟨o, rfl, ledger, broker, left, sample, fun accounted => ?_⟩
    have lengths := congrArg List.length accounted.1.fills
    omega

end TradeAgent.Portfolio
