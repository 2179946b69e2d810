import TradeAgent.ShadowApart

/-! What becomes of a candidate is told by its own symbol's events alone, as long as no other candidate was
the last to tell what the symbol shows when its actions meet the market. -/
namespace TradeAgent.Scalp.Shadow

open Market (MarketEvent)

variable {platform : Platform} {policy : ShadowPolicy} {p q : Pending} {c d : ShadowCandidate}
  {e f : Evaluator} {m : Shown} {nowNs : ℤ} {inclusive : Bool}

/-! ## The candidate alone -/

inductive Stage where
  | awaited
  | live (p : Pending) (sources : List String)
  | finished (outcomes : List ShadowActionOutcome)

/-- A candidate followed on its own: what its symbol last showed, and how far it is. -/
structure Track where
  view : View
  stage : Stage

section track

variable (platform : Platform) (policy : ShadowPolicy) (c : ShadowCandidate)

/-- What bears on a candidate: itself, and the events of its symbol received up to its horizon. -/
def relevant : Input → Bool
  | .market m => m.event.symbol = c.symbol && m.event.receivedAtNs ≤ c.horizonNs
  | .add d => d.candidateId = c.candidateId
  | .flush _ | .acknowledge _ => false

def Track.market (t : Track) (m : Shown) : Track :=
  let view := t.view.shown m
  match t.stage with
  | .live p sources =>
    let p := ((p.arrived policy t.view m.event.receivedAtNs false).meet policy view m).arrived policy view
      m.event.receivedAtNs true
    let sources := sources ++ [m.event.eventId]
    if due p.horizonAtNs m.event.receivedAtNs true then ⟨view, .finished (finish platform policy p sources)⟩
    else ⟨view, .live p sources⟩
  | .awaited | .finished _ => ⟨view, t.stage⟩

def Track.input (t : Track) : Input → Track
  | .market m => t.market platform policy m
  | .add d => ⟨t.view.keep d, .live (followed policy d) [d.sourceEventId]⟩
  | .flush _ | .acknowledge _ => t

def track (inputs : List Input) : Track :=
  (inputs.filter (relevant c)).foldl (Track.input platform policy) ⟨⟨none, [], [], 0⟩, .awaited⟩

/-- The outcomes that are there once the candidate's horizon has come. -/
def Track.outcomes (t : Track) : List ShadowActionOutcome :=
  match t.stage with
  | .awaited => []
  | .live p sources => finish platform policy (p.met policy t.view) sources
  | .finished outcomes => outcomes

end track

/-! ## Runs -/

/-- What may come after an input: events in order of receipt, candidates once each and at their send
time, flushes strictly between events. -/
def Follows : Input → Input → Prop
  | .market m, .market n => m.event.receivedAtNs ≤ n.event.receivedAtNs
  | .market m, .add d => m.event.receivedAtNs ≤ d.shadowSendAtNs
  | .market m, .flush at_ => m.event.receivedAtNs < datetimeNs at_
  | .add c, .market n => c.shadowSendAtNs ≤ n.event.receivedAtNs
  | .add c, .add d => c.candidateId ≠ d.candidateId
  | .flush at_, .market n => datetimeNs at_ < n.event.receivedAtNs
  | _, _ => True

instance : DecidableRel Follows
  | .market m, .market n => inferInstanceAs (Decidable (m.event.receivedAtNs ≤ n.event.receivedAtNs))
  | .market m, .add d => inferInstanceAs (Decidable (m.event.receivedAtNs ≤ d.shadowSendAtNs))
  | .market m, .flush at_ => inferInstanceAs (Decidable (m.event.receivedAtNs < datetimeNs at_))
  | .add c, .market n => inferInstanceAs (Decidable (c.shadowSendAtNs ≤ n.event.receivedAtNs))
  | .add c, .add d => inferInstanceAs (Decidable (c.candidateId ≠ d.candidateId))
  | .flush at_, .market n => inferInstanceAs (Decidable (datetimeNs at_ < n.event.receivedAtNs))
  | .market _, .acknowledge _ | .add _, .flush _ | .add _, .acknowledge _ | .flush _, .add _
  | .flush _, .flush _ | .flush _, .acknowledge _ | .acknowledge _, _ => isTrue trivial

/-- Whether what the candidate's symbol shows was told last by one of its own events, or by the candidate. -/
def oursAfter (c : ShadowCandidate) (ours : Prop) (e : Evaluator) : Input → Prop
  | .market m => m.event.symbol = c.symbol ∨ ours
  | .add d =>
    (d.candidateId = c.candidateId ∧
      (e.view d.symbol).quote.all fun previous => previous.receivedAt ≤ d.quote.receivedAt) ∨
    ours ∧ (d.candidateId ≠ c.candidateId → d.symbol = c.symbol →
      (e.keepQuote d).view c.symbol = e.view c.symbol)
  | .flush _ | .acknowledge _ => ours

/-- No event of the symbol is still to come by then. -/
def Passed (symbol : String) (atNs : ℤ) (rest : List Input) : Prop :=
  ∀ m, .market m ∈ rest → m.event.symbol = symbol → atNs < m.event.receivedAtNs

/-- An action of the candidate that meets the market meets what its own symbol's events, or itself, told
last, and no event of another symbol brings on its arrival, or its horizon, ahead of its own of that time. -/
def Undisturbed (policy : ShadowPolicy) (c : ShadowCandidate) (ours : Prop) (e : Evaluator) (rest : List Input) :
    Input → Prop
  | .market m => ∀ q, e.pending.get? c.candidateId = some q →
      (due (c.arrivalNs policy) m.event.receivedAtNs false = true → ours ∨ q.settled = true) ∧
      (m.event.symbol ≠ c.symbol →
        (m.event.receivedAtNs = c.arrivalNs policy →
          q.settled = true ∨ ours ∧ Passed c.symbol (c.arrivalNs policy) rest) ∧
        (m.event.receivedAtNs = c.horizonNs → Passed c.symbol c.horizonNs rest))
  | .flush at_ => ∀ q, e.pending.get? c.candidateId = some q →
      due (c.arrivalNs policy) (datetimeNs at_) true = true → ours ∨ q.settled = true
  | .add _ | .acknowledge _ => True

section agreeing

variable {ours : Prop} {rest : List Input} {t : Track} {input : Input}

/-- An evaluator and the candidate followed alone: it may have met the market earlier there, and be over
earlier, but only when nothing that still comes would have told the difference. -/
inductive Agrees (platform : Platform) (policy : ShadowPolicy) (c : ShadowCandidate)
    (ours : Prop) (rest : List Input) (e : Evaluator) (t : Track) : Prop
  | awaited (stage : t.stage = .awaited) (depth : (e.view c.symbol).depthAtNs = t.view.depthAtNs)
      (view : ours → e.view c.symbol = t.view) (behind : t.view.Behind (e.view c.symbol))
      (none : e.pending.get? c.candidateId = none) (coming : .add c ∈ rest)
      (ready : ∀ o ∈ e.ready.values, o.candidate.candidateId ≠ c.candidateId)
  | live (p q : Pending) (sources : List String) (stage : t.stage = .live p sources) (of : p.Of policy c)
      (here : e.pending.get? c.candidateId = some q) (known : e.sourceIds.get? c.candidateId = some sources)
      (depth : (e.view c.symbol).depthAtNs = t.view.depthAtNs)
      (same : q = p ∧ (ours → e.view c.symbol = t.view) ∨ q = p.met policy t.view ∧
        (p.settled = true ∨ Passed c.symbol (c.arrivalNs policy) rest))
      (once : ∀ d, .add d ∈ rest → d.candidateId ≠ c.candidateId)
      (ready : ∀ o ∈ e.ready.values, o.candidate.candidateId ≠ c.candidateId)
  | finished (none : e.pending.get? c.candidateId = none)
      (ready : ∀ o ∈ e.ready.values, o.candidate.candidateId = c.candidateId → o ∈ t.outcomes platform policy)
      (ended : (∃ outcomes, t.stage = .finished outcomes) ∨ ∃ p sources, t.stage = .live p sources ∧
        Passed c.symbol c.horizonNs rest)
      (once : ∀ d, .add d ∈ rest → d.candidateId ≠ c.candidateId)

/-- The less of what is shown is ours, the less is asked of it. -/
theorem Agrees.imp {less : Prop} (h : Agrees platform policy c ours rest e t) (imp : less → ours) :
    Agrees platform policy c less rest e t := by
  cases h with
  | awaited stage depth view behind none coming ready =>
    exact .awaited stage depth (view ∘ imp) behind none coming ready
  | live p q sources stage of here known depth same once ready =>
    exact .live p q sources stage of here known depth (same.imp_left (And.imp_right (· ∘ imp))) once ready
  | finished none ready ended once => exact .finished none ready ended once

/-- A candidate is left where it is by whatever keeps apart from it. -/
theorem Agrees.apart {f : Evaluator} (h : Agrees platform policy c ours rest e t)
    (apart : Apart c.candidateId e f) (views : f.view c.symbol = e.view c.symbol) :
    Agrees platform policy c ours rest f t := by
  cases h with
  | awaited stage depth view behind none coming ready =>
    exact .awaited stage (views ▸ depth) (views ▸ view) (views ▸ behind) (apart.pending.trans none) coming
      fun o member own => ready o (apart.ready o member own) own
  | live p q sources stage of here known depth same once ready =>
    exact .live p q sources stage of (apart.pending.trans here) (apart.sources.trans known) (views ▸ depth)
      (views ▸ same) once fun o member own => ready o (apart.ready o member own) own
  | finished none ready ended once =>
    exact .finished (apart.pending.trans none) (fun o member own => ready o (apart.ready o member own) own) ended once

theorem Agrees.of (h : Agrees platform policy c ours rest e t) (here : e.pending.get? c.candidateId = some q) :
    q.Of policy c ∧ ∃ sources, e.sourceIds.get? c.candidateId = some sources := by
  cases h with
  | awaited _ _ _ _ none =>
    rw [none] at here
    cases here
  | finished none =>
    rw [none] at here
    cases here
  | live p q' sources _ of there known _ same =>
    rw [here] at there
    obtain rfl := Option.some.inj there
    rcases same with ⟨rfl, -⟩ | ⟨rfl, -⟩
    · exact ⟨of, sources, known⟩
    · exact ⟨of.met t.view, sources, known⟩

/-- Time that advances, with nothing still to come that would tell the difference. -/
theorem Agrees.advance (nowNs : ℤ) (inclusive : Bool) (h : Agrees platform policy c ours rest e t) (keyed : e.Keyed)
    (arrives : c.arrivalNs policy ≤ c.horizonNs)
    (shows : ∀ q, e.pending.get? c.candidateId = some q → due (c.arrivalNs policy) nowNs inclusive = true →
      ours ∨ q.settled = true)
    (arrival : ∀ q, e.pending.get? c.candidateId = some q → due (c.arrivalNs policy) nowNs inclusive = true →
      q.settled = true ∨ Passed c.symbol (c.arrivalNs policy) rest)
    (horizon : ∀ q, e.pending.get? c.candidateId = some q → due c.horizonNs nowNs inclusive = true →
      Passed c.symbol c.horizonNs rest) :
    Agrees platform policy c ours rest (e.advanceTime platform policy nowNs inclusive) t := by
  have views := advanceTime_view platform policy nowNs inclusive keyed c.symbol
  cases placed : e.pending.get? c.candidateId with
  | none => exact h.apart (advanceTime_none _ _ _ _ keyed placed) views
  | some q =>
    cases h with
    | awaited _ _ _ _ none =>
      rw [none] at placed
      cases placed
    | finished none =>
      rw [none] at placed
      cases placed
    | live p q' sources stage of here known depth same once ready =>
      rw [placed] at here
      obtain rfl := Option.some.inj here
      have ofq : q.Of policy c := by
        rcases same with ⟨rfl, -⟩ | ⟨rfl, -⟩
        · exact of
        · exact of.met t.view
      have met : due (c.arrivalNs policy) nowNs inclusive = true →
          q.met policy (e.view c.symbol) = p.met policy t.view := by
        intro reached
        rcases same with ⟨rfl, view⟩ | ⟨rfl, -⟩
        · rcases shows q placed reached with ours | settled
          · rw [view ours]
          · rw [met_of_settled settled, met_of_settled settled]
        · exact met_of_settled (met_settled t.view p)
      obtain ⟨outcomes, turn⟩ := advanceTime_own platform nowNs inclusive keyed placed known ofq
      rw [ofq.arrived] at outcomes turn
      split at turn
      next finished =>
        rw [if_pos (due_mono arrives finished), met (due_mono arrives finished)] at outcomes
        refine .finished turn (fun o member own => ?_) (.inr ⟨p, sources, stage, horizon q placed finished⟩) once
        rcases outcomes o member own with old | ⟨-, new⟩
        · exact absurd own (ready o old)
        · unfold Track.outcomes
          rw [stage]
          exact new
      next open_ =>
        refine .live p _ sources stage of turn.1 turn.2 (views ▸ depth) ?_ once fun o member own => ?_
        · split
          next reached =>
            refine .inr ⟨met reached, ?_⟩
            rcases arrival q placed reached with settled | later
            · rcases same with ⟨rfl, -⟩ | ⟨-, known⟩
              · exact .inl settled
              · exact known
            · exact .inr later
          next => exact views ▸ same
        · rcases outcomes o member own with old | ⟨finished, -⟩
          · exact ready o old own
          · exact open_ finished

/-- Actions that have met the market have met it after time has advanced. -/
theorem advanceTime_settled (h : Agrees platform policy c ours rest e t) (keyed : e.Keyed)
    (settled : ∀ q, e.pending.get? c.candidateId = some q → q.settled = true)
    (here : (e.advanceTime platform policy nowNs inclusive).pending.get? c.candidateId = some q) :
    q.settled = true := by
  cases placed : e.pending.get? c.candidateId with
  | none =>
    rw [(advanceTime_none _ _ _ _ keyed placed).pending, placed] at here
    cases here
  | some old =>
    obtain ⟨of, sources, known⟩ := h.of placed
    obtain ⟨-, turn⟩ := advanceTime_own platform nowNs inclusive keyed placed known of
    split at turn
    next =>
      rw [turn] at here
      cases here
    next =>
      rw [turn.1, of.arrived] at here
      obtain rfl := Option.some.inj here
      split
      · exact met_settled _ old
      · exact settled old placed

theorem Passed.tail {symbol : String} {atNs : ℤ} (passed : Passed symbol atNs (input :: rest)) :
    Passed symbol atNs rest := fun m member => passed m (List.mem_cons_of_mem _ member)

/-- The input is behind. -/
theorem Agrees.past (h : Agrees platform policy c ours (input :: rest) e t) (other : input ≠ .add c) :
    Agrees platform policy c ours rest e t := by
  cases h with
  | awaited stage depth view behind none coming ready =>
    exact .awaited stage depth view behind none ((List.mem_cons.mp coming).resolve_left other.symm) ready
  | live p q sources stage of here known depth same once ready =>
    refine .live p q sources stage of here known depth ?_ (fun d member => once d (List.mem_cons_of_mem _ member)) ready
    exact same.imp_right (And.imp_right (Or.imp_right Passed.tail))
  | finished none ready ended once =>
    refine .finished none ready (ended.imp_right ?_) fun d member => once d (List.mem_cons_of_mem _ member)
    rintro ⟨p, sources, stage, later⟩
    exact ⟨p, sources, stage, later.tail⟩

/-- What is over stays as it is, whatever its symbol shows. -/
theorem Agrees.left {after : Prop} (h : Agrees platform policy c ours rest e t)
    (none : e.pending.get? c.candidateId = none) (begun : t.stage ≠ .awaited) (apart : Apart c.candidateId e f) :
    Agrees platform policy c after rest f t := by
  cases h with
  | awaited stage => exact absurd stage begun
  | live _ _ _ _ _ here =>
    rw [none] at here
    cases here
  | finished none ready ended once =>
    exact .finished (apart.pending.trans none) (fun o member own => ready o (apart.ready o member own) own) ended once

/-- Meeting the event, the candidates of its symbol leave the others alone. -/
theorem Agrees.meetOther (h : Agrees platform policy c ours rest e t) (keyed : e.Keyed)
    (other : m.event.symbol ≠ c.symbol) :
    Agrees platform policy c ours rest (e.pending.entries.foldl (meetOne policy m) e) t ∧
      Apart c.candidateId e (e.pending.entries.foldl (meetOne policy m) e) := by
  have apart : Apart c.candidateId e (e.pending.entries.foldl (meetOne policy m) e) := by
    cases placed : e.pending.get? c.candidateId with
    | none => exact (pass_own _ _ (Apart.refl _) Apart.trans (fun _ entry symbol => meetOne_view entry symbol)
        (fun _ _ apart _ => meetOne_apart apart) keyed).2.1 placed
    | some q => exact meetPass_other keyed placed (h.of placed).1 other
  exact ⟨h.apart apart (meetPass_view keyed c.symbol), apart⟩

/-- An event of another symbol. -/
theorem Agrees.marketOther (h : Agrees platform policy c ours (.market m :: rest) e t) (keyed : e.Keyed)
    (arrives : c.arrivalNs policy ≤ c.horizonNs) (follows : ∀ j ∈ rest, Follows (.market m) j)
    (quiet : Undisturbed policy c ours e rest (.market m)) (other : m.event.symbol ≠ c.symbol)
    (done : e.onMarket platform policy m = .ok f) :
    Agrees platform policy c ours rest f t := by
  have past := h.past nofun
  cases placed : e.pending.get? c.candidateId with
  | none =>
    obtain ⟨apart, views⟩ := onMarket_none keyed placed done
    exact past.apart apart ((views c.symbol).trans (if_neg other))
  | some q =>
    obtain ⟨shows, quiet⟩ := quiet q placed
    obtain ⟨arrival, horizon⟩ := quiet other
    have only {q' : Pending} (here : e.pending.get? c.candidateId = some q') : q = q' :=
      Option.some.inj (placed.symm.trans here)
    have later {atNs : ℤ} (passed : atNs < m.event.receivedAtNs) :
        Passed c.symbol atNs rest :=
      fun n member _ => passed.trans_le (follows _ member)
    obtain ⟨displayed, rfl, rfl⟩ := onMarket_ok done
    have started := past.apart (started_apart c.candidateId e m.event.receivedAtNs) rfl
    have keyed₀ := started_keyed keyed m.event.receivedAtNs
    have first := started.advance m.event.receivedAtNs false keyed₀ arrives
      (fun _ here reached => only here ▸ shows reached)
      (fun _ _ reached => .inr (later (by simpa [due] using reached)))
      (fun _ _ reached => later (by simpa [due] using reached))
    have keyed₁ := keyed₀.advanceTime platform policy m.event.receivedAtNs false
    have second := first.apart (display_apart c.candidateId _ m)
      ((view_display _ m c.symbol).trans (if_neg other))
    have keyed₂ := display_keyed keyed₁ m
    obtain ⟨third, still⟩ := second.meetOther keyed₂ other
    have remains {q' : Pending} (settled : q.settled = true) (here : (Evaluator.display _ m |>.pending.entries.foldl
        (meetOne policy m) _).pending.get? c.candidateId = some q') : q'.settled = true :=
      advanceTime_settled started keyed₀ (fun _ here => only here ▸ settled)
        ((display_apart c.candidateId _ m).pending ▸ still.pending ▸ here)
    refine third.advance _ _ (meetPass_keyed keyed₂) arrives (fun q' here reached => ?_) (fun q' here reached => ?_)
      fun _ _ reached => ?_
    · rcases due_iff.mp reached with passed | ⟨-, now⟩
      · exact (shows (due_iff.mpr (.inl passed))).imp_right fun settled => remains settled here
      · exact (arrival now.symm).symm.imp And.left fun settled => remains settled here
    · rcases due_iff.mp reached with passed | ⟨-, now⟩
      · exact .inr (later passed)
      · exact (arrival now.symm).imp (fun settled => remains settled here) And.right
    · rcases due_iff.mp reached with passed | ⟨-, now⟩
      · exact later passed
      · exact horizon now.symm

/-- An event that comes after the candidate's horizon. -/
theorem Agrees.marketLate {after : Prop} (h : Agrees platform policy c ours (.market m :: rest) e t) (keyed : e.Keyed)
    (arrives : c.arrivalNs policy ≤ c.horizonNs) (follows : ∀ j ∈ rest, Follows (.market m) j)
    (quiet : Undisturbed policy c ours e rest (.market m)) (late : c.horizonNs < m.event.receivedAtNs)
    (done : e.onMarket platform policy m = .ok f) :
    Agrees platform policy c after rest f t := by
  have begun : t.stage ≠ .awaited := by
    intro stage
    cases h with
    | awaited _ _ _ _ _ coming =>
      have sent : m.event.receivedAtNs ≤ c.shadowSendAtNs :=
        follows _ ((List.mem_cons.mp coming).resolve_left nofun)
      have arrived : c.shadowSendAtNs ≤ c.arrivalNs policy := by
        unfold ShadowCandidate.arrivalNs
        omega
      omega
    | live _ _ _ there => exact nomatch stage.symm.trans there
    | finished _ _ ended =>
      rcases ended with ⟨_, there⟩ | ⟨_, _, there, -⟩
      · exact nomatch stage.symm.trans there
      · exact nomatch stage.symm.trans there
  have past := h.past nofun
  cases placed : e.pending.get? c.candidateId with
  | none => exact past.left placed begun (onMarket_none keyed placed done).1
  | some q =>
    obtain ⟨displayed, rfl, rfl⟩ := onMarket_ok done
    have keyed₀ := started_keyed keyed m.event.receivedAtNs
    have started := past.apart (started_apart c.candidateId e m.event.receivedAtNs) rfl
    have later {atNs : ℤ} (le : atNs ≤ c.horizonNs) : Passed c.symbol atNs rest :=
      fun n member _ => (le.trans_lt late).trans_le (follows _ member)
    have first := started.advance m.event.receivedAtNs false keyed₀ arrives
      (fun q here => (quiet q here).1) (fun _ _ _ => .inr (later arrives)) fun _ _ _ => later le_rfl
    obtain ⟨of, sources, known⟩ := h.of placed
    have finished := (advanceTime_own platform m.event.receivedAtNs false
      keyed₀ placed known of).2
    rw [if_pos (due_iff.mpr (.inl late))] at finished
    exact first.left finished begun (displayed_none (keyed₀.advanceTime _ _ _ _) finished)

/-- An event of the candidate's symbol, up to its horizon. -/
theorem Agrees.marketOwn (h : Agrees platform policy c ours (.market m :: rest) e t) (keyed : e.Keyed)
    (quiet : Undisturbed policy c ours e rest (.market m)) (own : m.event.symbol = c.symbol)
    (inTime : m.event.receivedAtNs ≤ c.horizonNs) (done : e.onMarket platform policy m = .ok f) :
    Agrees platform policy c True rest f (t.market platform policy m) := by
  cases h with
  | awaited stage depth view behind none coming ready =>
    obtain ⟨apart, views⟩ := onMarket_none keyed none done
    have shown : t.market platform policy m = ⟨t.view.shown m, .awaited⟩ := by
      unfold Track.market
      rw [stage]
    have same : f.view c.symbol = t.view.shown m := by rw [views, if_pos own, shown_congr depth]
    rw [shown]
    exact .awaited rfl (congrArg View.depthAtNs same) (fun _ => same) (same ▸ fun x member => ⟨x, member, le_rfl⟩)
      (apart.pending.trans none) ((List.mem_cons.mp coming).resolve_left nofun)
      fun o member own => ready o (apart.ready o member own) own
  | finished none ready ended once =>
    obtain ⟨apart, -⟩ := onMarket_none keyed none done
    rcases ended with ⟨outcomes, stage⟩ | ⟨_, _, -, later⟩
    · have shown : t.market platform policy m = ⟨t.view.shown m, .finished outcomes⟩ := by
        unfold Track.market
        rw [stage]
      rw [shown]
      refine .finished (apart.pending.trans none) (fun o member own => ?_) (.inl ⟨outcomes, rfl⟩)
        fun d member => once d (List.mem_cons_of_mem _ member)
      have there := ready o (apart.ready o member own) own
      unfold Track.outcomes at there
      rw [stage] at there
      exact there
    · exact absurd (later m List.mem_cons_self own) (not_lt.mpr inTime)
  | live p q sources stage of here known depth same once ready =>
    obtain ⟨displayed, shape, rfl⟩ := onMarket_ok done
    have keyed₀ := started_keyed keyed m.event.receivedAtNs
    have open_ : ¬due c.horizonNs m.event.receivedAtNs false = true := by
      rw [due_iff]
      rintro (passed | ⟨impossible, -⟩)
      · exact absurd passed (not_lt.mpr inTime)
      · exact nomatch impossible
    have ofq : q.Of policy c := by
      rcases same with ⟨rfl, -⟩ | ⟨rfl, -⟩
      · exact of
      · exact of.met t.view
    have agree : q.arrived policy (e.view c.symbol) m.event.receivedAtNs false =
        p.arrived policy t.view m.event.receivedAtNs false :=
      arrived_agree of m.event.receivedAtNs (same.imp
        (fun ⟨same, view⟩ => ⟨same, fun reached => same ▸ ((quiet q here).1 reached).imp_left view⟩)
        (And.imp_right (Or.imp_right fun later => later m List.mem_cons_self own)))
    obtain ⟨ready₁, turn₁⟩ := advanceTime_own platform m.event.receivedAtNs false keyed₀ here known ofq
    rw [if_neg open_] at turn₁
    obtain ⟨here₁, known₁⟩ := turn₁
    change _ = some (q.arrived policy (e.view c.symbol) m.event.receivedAtNs false) at here₁
    rw [agree] at here₁
    have keyed₂ : displayed.Keyed := shape ▸ display_keyed (keyed₀.advanceTime _ _ _ _) m
    have views₂ : displayed.view c.symbol = t.view.shown m := by
      rw [shape, view_display, if_pos own, advanceTime_view _ _ _ _ keyed₀]
      exact shown_congr depth m
    have apart₂ := display_apart c.candidateId (Evaluator.advanceTime platform policy
      { e with lastEventNs := m.event.receivedAtNs } m.event.receivedAtNs false) m
    rw [← shape] at apart₂
    obtain ⟨here₃, known₃, ready₃⟩ := meetPass_own keyed₂ (apart₂.pending.trans here₁)
      (apart₂.sources.trans known₁) (of.arrived_of t.view _ false) own
    rw [views₂] at here₃
    have of₃ := (of.arrived_of t.view m.event.receivedAtNs false).meet (t.view.shown m) m
    obtain ⟨ready₄, turn₄⟩ := advanceTime_own platform m.event.receivedAtNs true (meetPass_keyed keyed₂) here₃
      known₃ of₃
    have views₄ : Evaluator.view (Evaluator.advanceTime platform policy (displayed.pending.entries.foldl
        (meetOne policy m) displayed) m.event.receivedAtNs true) c.symbol = _ :=
      advanceTime_view _ _ _ _ (meetPass_keyed keyed₂) c.symbol
    rw [meetPass_view keyed₂, views₂] at ready₄ turn₄ views₄
    have of₄ := of₃.arrived_of (t.view.shown m) m.event.receivedAtNs true
    have fresh_ : ∀ o ∈ (displayed.pending.entries.foldl (meetOne policy m) displayed).ready.values,
        o.candidate.candidateId ≠ c.candidateId := by
      intro o member mine
      rcases ready₁ o (apart₂.ready o (ready₃ o member mine) mine) mine with old | ⟨finished, -⟩
      · exact ready o old mine
      · exact open_ finished
    have once' : ∀ d, .add d ∈ rest → d.candidateId ≠ c.candidateId :=
      fun d member => once d (List.mem_cons_of_mem _ member)
    unfold Track.market
    rw [stage]
    dsimp only
    rw [of₄.horizon]
    split at turn₄
    next finished =>
      rw [if_pos finished]
      refine .finished turn₄ (fun o member mine => ?_) (.inl ⟨_, rfl⟩) once'
      rcases ready₄ o member mine with old | ⟨-, new⟩
      · exact absurd mine (fresh_ o old)
      · exact new
    next running =>
      rw [if_neg running]
      refine .live _ _ _ rfl of₄ turn₄.1 turn₄.2 (congrArg View.depthAtNs views₄) (.inl ⟨rfl, fun _ => views₄⟩) once'
        fun o member mine => ?_
      rcases ready₄ o member mine with old | ⟨finished, -⟩
      · exact fresh_ o old mine
      · exact running finished

/-- A candidate that is added. -/
theorem Agrees.added (h : Agrees platform policy c ours (.add d :: rest) e t)
    (follows : ∀ j ∈ rest, Follows (.add d) j) (named : d.candidateId = c.candidateId → d = c) :
    Agrees platform policy c (oursAfter c ours e (.add d)) rest (e.add policy d)
      (if d.candidateId = c.candidateId then t.input platform policy (.add d) else t) := by
  split
  next own =>
    obtain rfl := named own
    cases h with
    | live _ _ _ _ _ _ _ _ _ once => exact absurd rfl (once d List.mem_cons_self)
    | finished _ _ _ once => exact absurd rfl (once d List.mem_cons_self)
    | awaited stage depth view behind none coming ready =>
      obtain ⟨pending, sources, recorded, views⟩ := add_fresh policy none
      have shows : (e.add policy d).view d.symbol = (e.view d.symbol).keep d := (views d.symbol).trans (if_pos rfl)
      refine .live (followed policy d) (followed policy d) [d.sourceEventId] rfl followed_of ?_ ?_ ?_
        (.inl ⟨rfl, fun after => shows.trans ?_⟩) (fun o member => (follows _ member).symm) (recorded ▸ ready)
      · rw [pending, Dict.get?_set, if_pos rfl]
      · rw [sources, Dict.get?_set, if_pos rfl]
      · rw [shows, keep_depth, depth]
        exact (keep_depth t.view d).symm
      · rcases after with ⟨-, kept⟩ | ⟨ours, -⟩
        · rw [keep_kept kept, depth]
          exact (keep_kept (behind.all kept)).symm
        · rw [view ours]
          rfl
  next other =>
    have apart := add_apart policy e other
    obtain ⟨shows, deep⟩ := add_view policy e d c.symbol
    have still : oursAfter c ours e (.add d) → ours ∧ (e.add policy d).view c.symbol = e.view c.symbol := by
      rintro (⟨mine, -⟩ | ⟨ours, kept⟩)
      · exact absurd mine other
      · exact ⟨ours, shows.elim id fun ⟨own, told⟩ => told.trans (kept other own)⟩
    have past := h.past fun same => other (Input.add.inj same ▸ rfl)
    cases past with
    | awaited stage depth view behind none coming ready =>
      refine .awaited stage (deep.trans depth) (fun after => (still after).2.trans (view (still after).1)) ?_
        (apart.pending.trans none) coming fun o member own => ready o (apart.ready o member own) own
      rcases shows with same | ⟨own, told⟩
      · exact same ▸ behind
      · rw [told, view_keepQuote, if_pos own]
        exact behind.keep d
    | finished none ready ended once =>
      exact .finished (apart.pending.trans none) (fun o member own => ready o (apart.ready o member own) own) ended once
    | live p q sources stage of here known depth same once ready =>
      exact .live p q sources stage of (apart.pending.trans here) (apart.sources.trans known) (deep.trans depth)
        (same.imp_left (And.imp_right fun view after => (still after).2.trans (view (still after).1))) once
        fun o member own => ready o (apart.ready o member own) own

/-- A flush, strictly before the events still to come. -/
theorem Agrees.flushed {at_ : Instant} (h : Agrees platform policy c ours (.flush at_ :: rest) e t)
    (keyed : e.Keyed) (arrives : c.arrivalNs policy ≤ c.horizonNs) (follows : ∀ j ∈ rest, Follows (.flush at_) j)
    (quiet : Undisturbed policy c ours e rest (.flush at_)) :
    Agrees platform policy c ours rest (e.flush platform policy at_) t := by
  have later {atNs : ℤ} (reached : due atNs (datetimeNs at_) true = true) :
      Passed c.symbol atNs rest := by
    intro m member _
    have strict : datetimeNs at_ < m.event.receivedAtNs := follows _ member
    rcases due_iff.mp reached with passed | ⟨-, rfl⟩
    · exact passed.trans strict
    · exact strict
  exact (h.past nofun).advance _ _ keyed arrives quiet (fun _ _ reached => .inr (later reached))
    fun _ _ reached => later reached

/-- One input: the candidate alone takes it when it bears on it. -/
theorem Agrees.step (h : Agrees platform policy c ours (input :: rest) e t) (keyed : e.Keyed)
    (arrives : c.arrivalNs policy ≤ c.horizonNs) (follows : ∀ j ∈ rest, Follows input j)
    (named : ∀ d, input = .add d → d.candidateId = c.candidateId → d = c)
    (quiet : Undisturbed policy c ours e rest input) (done : e.step platform policy input = .ok f) :
    Agrees platform policy c (oursAfter c ours e input) rest f
      (if relevant c input then t.input platform policy input else t) := by
  cases input with
  | market m =>
    by_cases own : m.event.symbol = c.symbol
    · by_cases inTime : m.event.receivedAtNs ≤ c.horizonNs
      · rw [if_pos (show relevant c (.market m) = true by simp [relevant, own, inTime])]
        exact (h.marketOwn keyed quiet own inTime done).imp fun _ => trivial
      · rw [if_neg (show ¬relevant c (.market m) = true by simp [relevant, inTime])]
        exact h.marketLate keyed arrives follows quiet (not_le.mp inTime) done
    · rw [if_neg (show ¬relevant c (.market m) = true by simp [relevant, own])]
      exact (h.marketOther keyed arrives follows quiet own done).imp (Or.resolve_left · own)
  | add d =>
    obtain rfl := Except.ok.inj done
    have added := h.added follows (named d rfl)
    by_cases own : d.candidateId = c.candidateId
    · rw [if_pos own] at added
      rw [if_pos (show relevant c (.add d) = true from decide_eq_true own)]
      exact added
    · rw [if_neg own] at added
      rw [if_neg (show ¬relevant c (.add d) = true from fun same => own (of_decide_eq_true same))]
      exact added
  | flush at_ =>
    obtain rfl := Except.ok.inj done
    exact h.flushed keyed arrives follows quiet
  | acknowledge outcomes =>
    obtain rfl := Except.ok.inj done
    exact (h.past nofun).apart (acknowledge_apart c.candidateId e outcomes) rfl

end agreeing

/-! ## Whole runs -/

section runs

variable {ours : Prop} {rest rest' : List Input} {t : Track} {inputs : List Input}

/-- No step of the run disturbs the candidate; `later` is what comes after the run. -/
def Calm (platform : Platform) (policy : ShadowPolicy) (c : ShadowCandidate) (later : List Input) :
    Prop → Evaluator → List Input → Prop
  | _, _, [] => True
  | ours, e, input :: rest => Undisturbed policy c ours e (rest ++ later) input ∧
      ∀ f, e.step platform policy input = .ok f → Calm platform policy c later (oursAfter c ours e input) f rest

/-- What a run makes of a candidate is what its own inputs make of it alone. -/
theorem Agrees.run (h : Agrees platform policy c ours (rest ++ rest') e t) (keyed : e.Keyed)
    (arrives : c.arrivalNs policy ≤ c.horizonNs) (ordered : (rest ++ rest').Pairwise Follows)
    (named : ∀ d, .add d ∈ rest → d.candidateId = c.candidateId → d = c)
    (calm : Calm platform policy c rest' ours e rest) (ran : e.run platform policy rest = .ok f) :
    Agrees platform policy c False rest' f
      ((rest.filter (relevant c)).foldl (Track.input platform policy) t) := by
  induction rest generalizing ours e t with
  | nil =>
    obtain rfl := Except.ok.inj ran
    exact h.imp False.elim
  | cons input rest ih =>
    unfold Evaluator.run at ran
    cases done : e.step platform policy input with
    | error fault =>
      rw [done] at ran
      cases ran
    | ok g =>
      rw [done] at ran
      obtain ⟨follows, later⟩ := List.pairwise_cons.mp ordered
      have next := h.step keyed arrives follows (fun d same => named d (same ▸ List.mem_cons_self)) calm.1 done
      have whole := ih next (step_keyed keyed done) later
        (fun d member => named d (List.mem_cons_of_mem _ member)) (calm.2 g done) ran
      rw [List.filter_cons]
      split
      next bears =>
        rw [if_pos bears] at whole
        exact whole
      next apart =>
        rw [if_neg apart] at whole
        exact whole

/-- What is over is not changed by what still comes of the candidate's symbol. -/
theorem Agrees.made (h : Agrees platform policy c ours rest e t) {o : ShadowActionOutcome}
    (made : o ∈ e.ready.values) (own : o.candidate.candidateId = c.candidateId) :
    o ∈ ((rest.filter (relevant c)).foldl (Track.input platform policy) t).outcomes platform policy := by
  cases h with
  | awaited _ _ _ _ _ _ ready => exact absurd own (ready o made)
  | live _ _ _ _ _ _ _ _ _ _ ready => exact absurd own (ready o made)
  | finished none ready ended once =>
    have there := ready o made own
    have bears : ∀ input ∈ rest.filter (relevant c), ∃ m, input = .market m ∧
        .market m ∈ rest ∧ m.event.symbol = c.symbol ∧ m.event.receivedAtNs ≤ c.horizonNs := by
      intro input member
      obtain ⟨member, bears⟩ := List.mem_filter.mp member
      cases input with
      | market m =>
        rw [relevant, Bool.and_eq_true, decide_eq_true_eq, decide_eq_true_eq] at bears
        exact ⟨m, rfl, member, bears⟩
      | add d => exact absurd (of_decide_eq_true bears) (once d member)
      | flush _ => cases bears
      | acknowledge _ => cases bears
    generalize rest.filter (relevant c) = inputs at bears ⊢
    rcases ended with ⟨outcomes, stage⟩ | ⟨p, sources, -, later⟩
    · induction inputs generalizing t with
      | nil => exact there
      | cons input inputs ih =>
        obtain ⟨m, rfl, -⟩ := bears input List.mem_cons_self
        have shown : t.input platform policy (.market m) = ⟨t.view.shown m, .finished outcomes⟩ := by
          unfold Track.input Track.market
          rw [stage]
        have same : (t.input platform policy (.market m)).outcomes platform policy =
            t.outcomes platform policy := by
          rw [shown]
          unfold Track.outcomes
          rw [stage]
        refine ih (fun o member own => same ▸ ready o member own) (same ▸ there)
          (fun input member => bears input (List.mem_cons_of_mem _ member)) ?_
        rw [shown]
    · cases inputs with
      | nil => exact there
      | cons input inputs =>
        obtain ⟨m, -, member, own, inTime⟩ := bears input List.mem_cons_self
        exact absurd (later m member own) (not_lt.mpr inTime)

/-- The outcomes of a candidate are those of one state of it. -/
def Track.Told (platform : Platform) (policy : ShadowPolicy) (t : Track) : Prop :=
  match t.stage with
  | .awaited => True
  | .live p _ => ∃ c, p.Of policy c
  | .finished outcomes => ∃ c p sources, p.Of policy c ∧ outcomes = finish platform policy p sources

theorem Track.Told.input (told : t.Told platform policy) (input : Input) :
    (t.input platform policy input).Told platform policy := by
  cases input with
  | add d => exact ⟨d, followed_of⟩
  | flush _ => exact told
  | acknowledge _ => exact told
  | market m =>
    unfold Track.Told at told
    unfold Track.input Track.market
    cases stage : t.stage with
    | awaited => exact trivial
    | finished outcomes =>
      rw [stage] at told
      exact told
    | live p sources =>
      rw [stage] at told
      obtain ⟨c, of⟩ := told
      have after := ((of.arrived_of t.view m.event.receivedAtNs false).meet (t.view.shown m) m).arrived_of
        (t.view.shown m) m.event.receivedAtNs true
      dsimp only
      split
      next => exact ⟨c, _, _, after, rfl⟩
      next => exact ⟨c, after⟩

theorem Track.Told.all (told : t.Told platform policy) :
    (inputs.foldl (Track.input platform policy) t).Told platform policy := by
  induction inputs generalizing t with
  | nil => exact told
  | cons input inputs ih => exact ih (told.input input)

/-- The two outcomes of a candidate are told apart by their action. -/
theorem finish_inj (of : p.Of policy c) {sources : List String} {o o' : ShadowActionOutcome}
    (made : o ∈ finish platform policy p sources) (made' : o' ∈ finish platform policy p sources)
    (action : o.action = o'.action) : o = o' := by
  have passive : (finishAction platform policy p sources p.passive).action = .passiveBuy := of.passive.1
  have aggressive : (finishAction platform policy p sources p.aggressive).action = .aggressiveBuy :=
    of.aggressive.1
  unfold finish at made made'
  rw [List.mem_pair] at made made'
  rcases made with rfl | rfl <;> rcases made' with rfl | rfl
  · rfl
  · rw [passive, aggressive] at action
    cases action
  · rw [passive, aggressive] at action
    cases action
  · rfl

theorem Track.Told.inj (told : t.Told platform policy) {o o' : ShadowActionOutcome}
    (made : o ∈ t.outcomes platform policy) (made' : o' ∈ t.outcomes platform policy)
    (action : o.action = o'.action) : o = o' := by
  unfold Track.Told at told
  unfold Track.outcomes at made made'
  cases stage : t.stage with
  | awaited =>
    rw [stage] at made
    cases made
  | live p sources =>
    rw [stage] at told made made'
    obtain ⟨c, of⟩ := told
    exact finish_inj (of.met t.view) made made' action
  | finished outcomes =>
    rw [stage] at told made made'
    obtain ⟨c, p, sources, of, rfl⟩ := told
    exact finish_inj of made made' action

/-- Two inputs that add a candidate add two. -/
def AddApart (input other : Input) : Prop :=
  ∀ c d, input = .add c → other = .add d → c.candidateId ≠ d.candidateId

instance : Std.Symm AddApart := ⟨fun _ _ apart c d first second => (apart d c second first).symm⟩

/-- In order, one identity names one candidate. -/
theorem named_of_ordered (ordered : inputs.Pairwise Follows) (added : .add c ∈ inputs)
    (other : .add d ∈ inputs) (same : d.candidateId = c.candidateId) : d = c := by
  by_contra apart
  have distinct : inputs.Pairwise AddApart := ordered.imp fun {one two} follows c d first second => by
    subst first second
    exact follows
  exact distinct.forall other added (fun same => apart (Input.add.inj same)) d c rfl rfl same

/-- What a run came to of a candidate is what its own inputs come to alone. -/
theorem made_alone {later : List Input} (arrives : c.arrivalNs policy ≤ c.horizonNs)
    (ordered : (inputs ++ later).Pairwise Follows) (added : .add c ∈ inputs ++ later)
    (calm : Calm platform policy c later True {} inputs) (ran : Evaluator.run platform policy {} inputs = .ok e)
    {o : ShadowActionOutcome} (made : o ∈ e.ready.values) (own : o.candidate.candidateId = c.candidateId) :
    o ∈ (track platform policy c (inputs ++ later)).outcomes platform policy := by
  have start : Agrees platform policy c True (inputs ++ later) {} ⟨⟨none, [], [], 0⟩, .awaited⟩ :=
    .awaited rfl rfl (fun _ => rfl) nofun rfl added fun o member => absurd member List.not_mem_nil
  have reached := start.run (fun _ _ found => nomatch found) arrives ordered
    (fun d member => named_of_ordered ordered added (List.mem_append_left _ member)) calm ran
  unfold track
  rw [List.filter_append, List.foldl_append]
  exact reached.made made own

/-- Two runs that agree on a candidate, and on the events of its symbol up to its horizon, come to the same
outcomes of it, where nothing disturbs it in either. -/
theorem outcomes_independent {one two one' two' : List Input} (arrives : c.arrivalNs policy ≤ c.horizonNs)
    (ordered : (one ++ one').Pairwise Follows) (ordered' : (two ++ two').Pairwise Follows)
    (added : .add c ∈ one ++ one') (agree : (one ++ one').filter (relevant c) = (two ++ two').filter (relevant c))
    (calm : Calm platform policy c one' True {} one) (calm' : Calm platform policy c two' True {} two)
    (ran : Evaluator.run platform policy {} one = .ok e) (ran' : Evaluator.run platform policy {} two = .ok f)
    {o o' : ShadowActionOutcome} (made : o ∈ e.ready.values) (made' : o' ∈ f.ready.values)
    (own : o.candidate.candidateId = c.candidateId) (own' : o'.candidate.candidateId = c.candidateId)
    (action : o.action = o'.action) : o = o' := by
  have bears : relevant c (.add c) = true := decide_eq_true rfl
  have added' : .add c ∈ two ++ two' :=
    (List.mem_filter.mp (agree ▸ List.mem_filter.mpr ⟨added, bears⟩)).1
  have first := made_alone arrives ordered added calm ran made own
  have second := made_alone arrives ordered' added' calm' ran' made' own'
  unfold track at first second
  rw [← agree] at second
  have told : Track.Told platform policy ⟨⟨none, [], [], 0⟩, .awaited⟩ := trivial
  exact told.all.inj first second action

section samples

theorem sampleBid_pos : (0 : ℚ) < 99 := by norm_num

theorem sampleAsk_pos : (0 : ℚ) < 100 := by norm_num

theorem sampleBid_le : (99 : ℚ) ≤ 100 := by norm_num

theorem sampleBidSize_nonneg : (0 : ℚ) ≤ 10 := by norm_num

theorem sampleAskSize_nonneg : (0 : ℚ) ≤ 1 := zero_le_one

theorem sampleLimit_pos : (0 : ℚ) < 101 := by norm_num

theorem sampleQuantity_pos : (0 : ℚ) < 2 := zero_lt_two

theorem sampleHorizon_pos : (0 : ℚ) < 5 := by norm_num

theorem sampleHorizon_nonneg : (0 : ℚ) ≤ 5 := by norm_num

theorem sampleCancellation_pos : (0 : ℚ) < 3 := by norm_num

def sampleQuote (at_ : Instant) (positive : 0 < at_ * 1000) : ScalpQuote :=
  ⟨⟨"BTC/USD", at_, at_, 99, 100, 10, 1, sampleBid_pos, sampleAsk_pos, sampleBidSize_nonneg,
    sampleAskSize_nonneg, sampleBid_le, le_rfl⟩, at_ * 1000, positive⟩

/-- A candidate of a quote, for two, sent as it is observed, with a horizon of five seconds. -/
def sampleCandidate (identity symbol : String) (at_ : Instant) (quote : ScalpQuote) (same : quote.symbol = symbol)
    (received : quote.receivedAt ≤ at_) : ShadowCandidate :=
  ⟨identity, symbol, at_, quote, identity, at_ * 1000, 2, 99, 101, 1, 5, 3, same, received,
    (Int.mul_ediv_cancel at_ (by decide : (1000 : ℤ) ≠ 0)).ge, sampleQuantity_pos, sampleBid_pos,
    sampleLimit_pos, sampleAskSize_nonneg, sampleHorizon_pos, sampleCancellation_pos⟩

def shownQuote : ScalpQuote := sampleQuote 1200000 (by decide)

def earlyCandidate : ShadowCandidate :=
  sampleCandidate "early" "BTC/USD" 1000000 (sampleQuote 995000 (by decide)) rfl (by decide +kernel)

/-- Another candidate of the symbol, of the quote that is shown. -/
def lateCandidate : ShadowCandidate :=
  sampleCandidate "late" "BTC/USD" 1250000 shownQuote rfl (by decide +kernel)

def otherCandidate : ShadowCandidate :=
  sampleCandidate "other" "ETH/USD" 1250000 ⟨{ shownQuote.toScalpQuote with symbol := "ETH/USD" },
    1200000000, by decide⟩ rfl (by decide +kernel)

def samplePolicy : ShadowPolicy where
  horizonAgePositive := age_positive
  arrivalAgePositive := age_positive
  multiplierLe := whole_le
  ratePositive := whole_positive
  rateLe := whole_le

def samplePlatform : Platform where
  identity o := o.candidate.candidateId ++ if o.action = .passiveBuy then " passive" else " aggressive"
  sourceDigest sources := ",".intercalate sources
  olderThan ageNs milliseconds := milliseconds * 1000000 < ageNs

def sampleEvent (symbol : String) (receivedAtNs : ℤ) : MarketEvent :=
  { eventId := "e", symbol, exchangeAtNs := receivedAtNs, exchangeTimestamp := "", receivedAtNs
    receivedMonotonicNs := 0, connectionId := "u", receiveSequence := 1
    content := .quote ⟨99, 10, sampleBid_pos, sampleBidSize_nonneg⟩ ⟨100, 1, sampleAsk_pos, sampleAskSize_nonneg⟩ }

/-- The quote, with five more offered behind its one. -/
def quoteShown : Input :=
  .market ⟨sampleEvent "BTC/USD" 1200000000, some shownQuote, [],
    [⟨101, 5, sampleLimit_pos, sampleHorizon_nonneg⟩], none⟩

def otherShown : Input := .market ⟨sampleEvent "ETH/USD" 1210000000, none, [], [], none⟩

/-- What an aggressive buy of the candidate came to. -/
def boughtIn (inputs : List Input) (identity : String) : Option ℚ :=
  match Evaluator.run samplePlatform samplePolicy {} inputs with
  | .ok e => (e.ready.values.find? fun o =>
      o.candidate.candidateId = identity && o.action = .aggressiveBuy).map ShadowActionOutcome.entryQuantity
  | .error _ => none

theorem boughtIn_made {identity : String} {quantity : ℚ} (bought : boughtIn inputs identity = some quantity) :
    ∃ e, Evaluator.run samplePlatform samplePolicy {} inputs = .ok e ∧ ∃ o ∈ e.ready.values,
      o.candidate.candidateId = identity ∧ o.action = .aggressiveBuy ∧ o.entryQuantity = quantity := by
  unfold boughtIn at bought
  split at bought
  next e ran =>
    obtain ⟨o, found, quantity⟩ := Option.map_eq_some_iff.mp bought
    have kind := List.find?_some found
    rw [Bool.and_eq_true, decide_eq_true_eq, decide_eq_true_eq] at kind
    exact ⟨e, ran, o, List.mem_of_find?_eq_some found, kind.1, kind.2, quantity⟩
  next => cases bought

def alone : List Input := [.add earlyCandidate, quoteShown, .flush 7000000]

/-- The same candidate and event, with a flush between, and with what is of another symbol. -/
def amongOthers : List Input :=
  [.add earlyCandidate, .flush 1100000, quoteShown, otherShown, .add otherCandidate, .flush 8000000]

/-- The same candidate and event, and another candidate of the symbol before the arrival. -/
def withLate : List Input := [.add earlyCandidate, quoteShown, .add lateCandidate, .flush 7000000]

theorem relevant_samples : relevant earlyCandidate (.add earlyCandidate) = true ∧
    relevant earlyCandidate quoteShown = true ∧ relevant earlyCandidate otherShown = false ∧
      relevant earlyCandidate (.add otherCandidate) = false ∧
        relevant earlyCandidate (.add lateCandidate) = false := by decide +kernel

theorem relevant_flush (c : ShadowCandidate) (at_ : Instant) : relevant c (.flush at_) = false := rfl

theorem outcomes_independent_alone : ∃ e f, Evaluator.run samplePlatform samplePolicy {} alone = .ok e ∧
    Evaluator.run samplePlatform samplePolicy {} amongOthers = .ok f ∧ ∃ o ∈ e.ready.values, ∃ o' ∈ f.ready.values,
      o.candidate.candidateId = "early" ∧ o.action = .aggressiveBuy ∧ o.entryQuantity = 2 ∧ o = o' := by
  obtain ⟨e, ran, o, made, own, action, bought⟩ :=
    boughtIn_made (show boughtIn alone "early" = some 2 by decide +kernel)
  obtain ⟨f, ran', o', made', own', action', -⟩ :=
    boughtIn_made (show boughtIn amongOthers "early" = some 2 by decide +kernel)
  obtain ⟨candidate, shown, other, otherAdded, -⟩ := relevant_samples
  have ownEvent (ours : Prop) (g : Evaluator) (rest : List Input) :
      Undisturbed samplePolicy earlyCandidate ours g rest quoteShown :=
    fun _ _ => ⟨fun reached => absurd reached (by decide +kernel), fun apart => absurd rfl apart⟩
  have otherEvent (ours : Prop) (g : Evaluator) (rest : List Input) :
      Undisturbed samplePolicy earlyCandidate ours g rest otherShown :=
    fun _ _ => ⟨fun reached => absurd reached (by decide +kernel), fun _ =>
      ⟨fun now => absurd now (by decide +kernel), fun now => absurd now (by decide +kernel)⟩⟩
  have calm : Calm samplePlatform samplePolicy earlyCandidate [] True {} alone :=
    ⟨trivial, fun _ _ => ⟨ownEvent _ _ _, fun _ _ => ⟨fun _ _ _ => .inl (.inl rfl), fun _ _ => trivial⟩⟩⟩
  have calm' : Calm samplePlatform samplePolicy earlyCandidate [] True {} amongOthers := by
    refine ⟨trivial, fun _ _ => ⟨fun _ _ reached => absurd reached (by decide +kernel), fun _ _ =>
      ⟨ownEvent _ _ _, fun _ _ => ⟨otherEvent _ _ _, fun _ _ => ⟨trivial, fun _ _ => ⟨fun _ _ _ => .inl ?_, ?_⟩⟩⟩⟩⟩⟩
    · exact .inr ⟨.inr (.inl rfl), fun _ same => absurd same (by decide +kernel)⟩
    · exact fun _ _ => trivial
  have agree : (alone ++ []).filter (relevant earlyCandidate) =
      (amongOthers ++ []).filter (relevant earlyCandidate) := by
    simp only [alone, amongOthers, List.append_nil, List.filter_cons, candidate, shown, other, otherAdded,
      relevant_flush, Bool.false_eq_true, if_true, if_false]
  exact ⟨e, f, ran, ran', o, made, o', made', own, action, bought,
    outcomes_independent (by decide +kernel) (by decide +kernel) (by decide +kernel) List.mem_cons_self agree
      calm calm' ran ran' made made' own own' (action.trans action'.symm)⟩

/-- Another candidate of the symbol, of the quote already shown, takes what was offered behind the touch from
the one that was there first. -/
theorem outcomes_interfere : ¬∀ (platform : Platform) (policy : ShadowPolicy) (c : ShadowCandidate)
    (one two : List Input) (e f : Evaluator) (o o' : ShadowActionOutcome), one.Pairwise Follows →
      two.Pairwise Follows → .add c ∈ one → one.filter (relevant c) = two.filter (relevant c) →
      Evaluator.run platform policy {} one = .ok e → Evaluator.run platform policy {} two = .ok f →
      o ∈ e.ready.values → o' ∈ f.ready.values → o.candidate.candidateId = c.candidateId →
      o'.candidate.candidateId = c.candidateId → o.action = o'.action → o = o' := by
  intro independent
  obtain ⟨e, ran, o, made, own, action, bought⟩ :=
    boughtIn_made (show boughtIn alone "early" = some 2 by decide +kernel)
  obtain ⟨f, ran', o', made', own', action', bought'⟩ :=
    boughtIn_made (show boughtIn withLate "early" = some 1 by decide +kernel)
  obtain ⟨candidate, shown, -, -, late⟩ := relevant_samples
  have agree : alone.filter (relevant earlyCandidate) = withLate.filter (relevant earlyCandidate) := by
    simp only [alone, withLate, List.filter_cons, candidate, shown, late, relevant_flush, Bool.false_eq_true,
      if_true, if_false]
  have same := independent samplePlatform samplePolicy earlyCandidate alone withLate e f o o' (by decide +kernel)
    (by decide +kernel) List.mem_cons_self agree ran ran' made made' own own' (action.trans action'.symm)
  rw [same, bought'] at bought
  exact absurd bought (by decide)

end samples

end runs

end TradeAgent.Scalp.Shadow
