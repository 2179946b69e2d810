import TradeAgent.ShadowActions

/-! What the inputs of an evaluator do to one candidate, and what they leave alone of it. -/
namespace TradeAgent.Scalp.Shadow

open Market (BookLevel MarketEvent)

variable {platform : Platform} {policy : ShadowPolicy} {view : View} {state : ActionState} {p q : Pending}
  {c d : ShadowCandidate} {e f : Evaluator} {m : Shown} {nowNs : ℤ} {inclusive : Bool}

/-! ## One candidate -/

/-- The action has met the market. -/
def ActionState.settled (state : ActionState) : Bool := state.sent || state.rejectedReason.isSome

def Pending.settled (p : Pending) : Bool := p.passive.settled && p.aggressive.settled

theorem arrive_of_settled (settled : state.settled = true) : arrive policy view state = state := if_pos settled

/-- What meeting the market leaves of an action. -/
structure ActionState.Kept (before after : ActionState) : Prop where
  action : after.action = before.action
  arrivalAtNs : after.arrivalAtNs = before.arrivalAtNs
  settled : before.settled = true → after.settled = true

theorem ActionState.Kept.refl (state : ActionState) : state.Kept state := ⟨rfl, rfl, fun h => h⟩

theorem ActionState.reject_kept (state : ActionState) (reason : String) :
    state.Kept (state.reject reason) := ⟨rfl, rfl, fun _ => Bool.or_true _⟩

theorem join_kept (policy : ShadowPolicy) (quote : ScalpQuote) (bids : List BookLevel) (state : ActionState) :
    state.Kept (join policy quote bids state) := by
  unfold join
  split
  next => exact state.reject_kept _
  next => exact ⟨rfl, rfl, fun h => h⟩

theorem take_kept (policy : ShadowPolicy) (quote : ScalpQuote) (asks : List BookLevel) (state : ActionState) :
    state.Kept (take policy quote asks state) := by
  unfold take
  split
  next => exact state.reject_kept _
  next =>
    dsimp only
    split
    next => exact state.reject_kept _
    next => exact ⟨rfl, rfl, fun h => h⟩

theorem arrive_kept (policy : ShadowPolicy) (view : View) (state : ActionState) :
    state.Kept (arrive policy view state) ∧ (arrive policy view state).settled = true := by
  unfold arrive
  split
  next settled => exact ⟨.refl state, settled⟩
  next =>
    dsimp only
    split
    next => exact ⟨state.reject_kept _, Bool.or_true _⟩
    next =>
      split
      next => exact ⟨⟨rfl, rfl, fun _ => rfl⟩, rfl⟩
      next quote _ =>
        split
        next => exact ⟨⟨rfl, rfl, fun _ => rfl⟩, rfl⟩
        next =>
          split
          next =>
            have kept := join_kept policy quote
              (if fresh (state.arrivalAtNs - view.depthAtNs) policy.arrivalMarketMaxAgeMs then view.bids
                else withBbo view.quote [] .bid) { state with sent := true }
            exact ⟨⟨kept.action, kept.arrivalAtNs, fun _ => kept.settled rfl⟩, kept.settled rfl⟩
          next =>
            have kept := take_kept policy quote
              (if fresh (state.arrivalAtNs - view.depthAtNs) policy.arrivalMarketMaxAgeMs then view.asks
                else withBbo view.quote [] .ask) { state with sent := true }
            exact ⟨⟨kept.action, kept.arrivalAtNs, fun _ => kept.settled rfl⟩, kept.settled rfl⟩

theorem advanceAction_kept (policy : ShadowPolicy) (event : MarketEvent) (state : ActionState) :
    state.Kept (advanceAction policy event state) := by
  unfold advanceAction
  split
  next =>
    split
    next => exact .refl state
    next =>
      dsimp only
      split <;> exact ⟨rfl, rfl, fun h => h⟩
  next => exact .refl state

/-- Both actions meet the market. -/
def Pending.met (policy : ShadowPolicy) (view : View) (p : Pending) : Pending :=
  { p with passive := arrive policy view p.passive, aggressive := arrive policy view p.aggressive }

theorem met_settled (view : View) (p : Pending) : (p.met policy view).settled = true := by
  unfold Pending.settled
  rw [Bool.and_eq_true]
  exact ⟨(arrive_kept policy view p.passive).2, (arrive_kept policy view p.aggressive).2⟩

theorem met_of_settled (settled : p.settled = true) : p.met policy view = p := by
  unfold Pending.settled at settled
  rw [Bool.and_eq_true] at settled
  unfold Pending.met
  rw [arrive_of_settled settled.1, arrive_of_settled settled.2]

/-- What is followed of a candidate: its two actions, both with its arrival, and its horizon. -/
structure Pending.Of (policy : ShadowPolicy) (c : ShadowCandidate) (p : Pending) : Prop where
  candidate : p.candidate = c
  horizon : p.horizonAtNs = c.horizonNs
  passive : p.passive.action = .passiveBuy ∧ p.passive.arrivalAtNs = c.arrivalNs policy
  aggressive : p.aggressive.action = .aggressiveBuy ∧ p.aggressive.arrivalAtNs = c.arrivalNs policy

theorem followed_of : (followed policy c).Of policy c := ⟨rfl, rfl, ⟨rfl, rfl⟩, ⟨rfl, rfl⟩⟩

theorem Pending.Of.met (h : p.Of policy c) (view : View) : (p.met policy view).Of policy c := by
  have passive := (arrive_kept policy view p.passive).1
  have aggressive := (arrive_kept policy view p.aggressive).1
  exact ⟨h.candidate, h.horizon, ⟨passive.action.trans h.passive.1, passive.arrivalAtNs.trans h.passive.2⟩,
    ⟨aggressive.action.trans h.aggressive.1, aggressive.arrivalAtNs.trans h.aggressive.2⟩⟩

theorem Pending.Of.arrived (h : p.Of policy c) (view : View) (nowNs : ℤ) (inclusive : Bool) :
    p.arrived policy view nowNs inclusive =
      if due (c.arrivalNs policy) nowNs inclusive then p.met policy view else p := by
  unfold Pending.arrived
  dsimp only
  rw [h.passive.2, h.aggressive.2]
  split <;> rfl

theorem Pending.Of.arrived_of (h : p.Of policy c) (view : View) (nowNs : ℤ) (inclusive : Bool) :
    (p.arrived policy view nowNs inclusive).Of policy c := by
  rw [h.arrived]
  split
  · exact h.met view
  · exact h

theorem Pending.Of.meet (h : p.Of policy c) (view : View) (m : Shown) :
    (p.meet policy view m).Of policy c := by
  have kept (state : ActionState) : state.Kept (advanceAction policy m.event
      (if state.arrivalAtNs = m.event.receivedAtNs then arrive policy view state else state)) := by
    have later := advanceAction_kept policy m.event
      (if state.arrivalAtNs = m.event.receivedAtNs then arrive policy view state else state)
    split at later
    next now =>
      have first := (arrive_kept policy view state).1
      rw [if_pos now]
      exact ⟨later.action.trans first.action, later.arrivalAtNs.trans first.arrivalAtNs,
        fun h => later.settled (first.settled h)⟩
    next now =>
      rw [if_neg now]
      exact later
  have passive := kept p.passive
  have aggressive := kept p.aggressive
  unfold Pending.meet
  dsimp only
  split <;> exact ⟨h.candidate, h.horizon,
    ⟨passive.action.trans h.passive.1, passive.arrivalAtNs.trans h.passive.2⟩,
    ⟨aggressive.action.trans h.aggressive.1, aggressive.arrivalAtNs.trans h.aggressive.2⟩⟩

theorem due_iff {atNs : ℤ} :
    due atNs nowNs inclusive = true ↔ atNs < nowNs ∨ inclusive = true ∧ atNs = nowNs := by
  simp [due]

theorem due_mono {early late : ℤ} (le : early ≤ late) (reached : due late nowNs inclusive = true) :
    due early nowNs inclusive = true := by
  rw [due_iff] at reached ⊢
  rcases reached with passed | ⟨inclusive, rfl⟩
  · exact .inl (le.trans_lt passed)
  · exact le.lt_or_eq.imp_right fun same => ⟨inclusive, same⟩

/-- Where the two agree, an event comes upon the same actions. -/
theorem arrived_agree (of : p.Of policy c) {v w : View} (now : ℤ)
    (same : q = p ∧ (due (c.arrivalNs policy) now false = true → v = w ∨ p.settled = true) ∨
      q = p.met policy w ∧ (p.settled = true ∨ c.arrivalNs policy < now)) :
    q.arrived policy v now false = p.arrived policy w now false := by
  rcases same with ⟨rfl, shows⟩ | ⟨rfl, settled | passed⟩
  · rw [of.arrived, of.arrived]
    split
    next reached =>
      rcases shows reached with rfl | settled
      · rfl
      · rw [met_of_settled settled, met_of_settled settled]
    next => rfl
  · rw [met_of_settled settled, of.arrived, of.arrived, met_of_settled settled, met_of_settled settled]
  · rw [of.arrived, (of.met w).arrived, if_pos (due_iff.mpr (.inl passed)), if_pos (due_iff.mpr (.inl passed)),
      met_of_settled (met_settled w p)]

/-! ## What belongs to other candidates -/

/-- Each candidate is followed under its own identity. -/
def Evaluator.Keyed (e : Evaluator) : Prop :=
  ∀ identity p, e.pending.get? identity = some p → p.candidate.candidateId = identity

/-- Nothing of one candidate changes, and no outcome of it is added. -/
structure Apart (identity : String) (e f : Evaluator) : Prop where
  pending : f.pending.get? identity = e.pending.get? identity
  sources : f.sourceIds.get? identity = e.sourceIds.get? identity
  ready : ∀ o ∈ f.ready.values, o.candidate.candidateId = identity → o ∈ e.ready.values

theorem Apart.refl (identity : String) (e : Evaluator) : Apart identity e e := ⟨rfl, rfl, fun _ member _ => member⟩

theorem Apart.trans {identity : String} {g : Evaluator} (first : Apart identity e f) (second : Apart identity f g) :
    Apart identity e g :=
  ⟨second.pending.trans first.pending, second.sources.trans first.sources,
    fun o member own => first.ready o (second.ready o member own) own⟩

/-- Recording outcomes adds nothing but them. -/
theorem mem_recorded {outcomes : List ShadowActionOutcome} {ready : Dict String ShadowActionOutcome}
    {o : ShadowActionOutcome} (member : o ∈ (outcomes.foldl
      (fun ready outcome => ready.set (platform.identity outcome) outcome) ready).values) :
    o ∈ ready.values ∨ o ∈ outcomes := by
  induction outcomes generalizing ready with
  | nil => exact .inl member
  | cons first rest ih =>
    rcases ih member with old | new
    · obtain ⟨key, found⟩ := Dict.mem_values.mp old
      rw [Dict.get?_set] at found
      split at found
      next =>
        obtain rfl := Option.some.inj found
        exact .inr List.mem_cons_self
      next => exact .inl (Dict.mem_values.mpr ⟨key, found⟩)
    · exact .inr (List.mem_cons_of_mem _ new)

theorem mem_finish {sources : List String} {o : ShadowActionOutcome}
    (member : o ∈ finish platform policy p sources) : o.candidate = p.candidate := by
  rcases List.mem_cons.mp member with rfl | later
  · rfl
  · obtain rfl := List.mem_singleton.mp later
    rfl

theorem advanceOne_view (entry : String × Pending) (symbol : String) :
    (advanceOne platform policy nowNs inclusive e entry).view symbol = e.view symbol := by
  unfold advanceOne
  dsimp only
  split <;> rfl

theorem advanceOne_apart {identity : String} {entry : String × Pending} (apart : entry.1 ≠ identity)
    (keyed : entry.2.candidate.candidateId = entry.1) :
    Apart identity e (advanceOne platform policy nowNs inclusive e entry) := by
  unfold advanceOne
  dsimp only
  split
  next =>
    refine ⟨?_, ?_, fun o member own => ?_⟩
    · rw [Dict.get?_erase, if_neg apart]
    · rw [Dict.get?_erase, if_neg apart]
    · rcases mem_recorded member with old | new
      · exact old
      · have same := mem_finish new
        change o.candidate = entry.2.candidate at same
        rw [same] at own
        exact absurd (keyed.symm.trans own) apart
  next => exact ⟨by rw [Dict.get?_set, if_neg apart], rfl, fun _ member _ => member⟩

theorem meetOne_view (entry : String × Pending) (symbol : String) :
    (meetOne policy m e entry).view symbol = e.view symbol := by
  unfold meetOne
  split <;> rfl

theorem meetOne_apart {identity : String} {entry : String × Pending} (apart : entry.1 ≠ identity) :
    Apart identity e (meetOne policy m e entry) := by
  unfold meetOne
  split
  next => exact .refl identity e
  next =>
    exact ⟨by rw [Dict.get?_set, if_neg apart], by rw [Dict.get?_modify, if_neg apart], fun _ member _ => member⟩

/-- A pass that leaves the view alone, and does to what concerns a candidate only what is related to it until
the candidate's own turn, comes to that turn. -/
theorem pass_own (step : Evaluator → String × Pending → Evaluator) (identity : String)
    {related : Evaluator → Evaluator → Prop} (refl : ∀ e, related e e)
    (trans : ∀ {e f g}, related e f → related f g → related e g)
    (views : ∀ e entry symbol, (step e entry).view symbol = e.view symbol)
    (others : ∀ e entry, entry.1 ≠ identity → entry.2.candidate.candidateId = entry.1 →
      related e (step e entry)) (keyed : e.Keyed) :
    (∀ symbol, (e.pending.entries.foldl step e).view symbol = e.view symbol) ∧
      (e.pending.get? identity = none → related e (e.pending.entries.foldl step e)) ∧
      ∀ p, e.pending.get? identity = some p → ∃ before, (∀ symbol, before.view symbol = e.view symbol) ∧
        related e before ∧ related (step before (identity, p)) (e.pending.entries.foldl step e) := by
  have all (l : List (String × Pending)) (e : Evaluator) :
      (∀ symbol, (l.foldl step e).view symbol = e.view symbol) ∧
        ((∀ entry ∈ l, entry.1 ≠ identity ∧ entry.2.candidate.candidateId = entry.1) →
          related e (l.foldl step e)) := by
    induction l generalizing e with
    | nil => exact ⟨fun _ => rfl, fun _ => refl e⟩
    | cons entry rest ih =>
      refine ⟨fun symbol => ((ih _).1 symbol).trans (views e entry symbol), fun apart => ?_⟩
      obtain ⟨other, own⟩ := apart entry List.mem_cons_self
      exact trans (others e entry other own)
        ((ih _).2 fun entry member => apart entry (List.mem_cons_of_mem _ member))
  have keys : ∀ entry ∈ e.pending.entries, entry.2.candidate.candidateId = entry.1 :=
    fun entry member => keyed entry.1 entry.2 (Dict.mem_entries.mp member)
  refine ⟨(all _ e).1, fun none => (all _ e).2 fun entry member => ⟨?_, keys entry member⟩, fun p found => ?_⟩
  · rintro rfl
    rw [Dict.mem_entries.mp member] at none
    cases none
  · obtain ⟨before, after, split⟩ := List.append_of_mem (Dict.mem_entries.mpr found)
    have distinct := e.pending.distinct
    rw [split, List.map_append, List.map_cons, List.nodup_append, List.nodup_cons] at distinct
    obtain ⟨-, ⟨later, -⟩, earlier⟩ := distinct
    rw [split] at keys
    refine ⟨before.foldl step e, (all before e).1, (all before e).2 fun entry member => ⟨?_, ?_⟩, ?_⟩
    · exact fun same => earlier entry.1 (List.mem_map_of_mem member) identity List.mem_cons_self same
    · exact keys entry (List.mem_append_left _ member)
    · rw [split, List.foldl_append, List.foldl_cons]
      refine (all after _).2 fun entry member => ⟨fun same => later ?_, ?_⟩
      · exact List.mem_map.mpr ⟨entry, member, same⟩
      · exact keys entry (List.mem_append_right _ (List.mem_cons_of_mem _ member))

section turns

theorem Evaluator.Keyed.set (keyed : e.Keyed) {identity : String} (own : p.candidate.candidateId = identity)
    {after : Evaluator} (same : after.pending = e.pending.set identity p) : after.Keyed := by
  intro other q found
  rw [same, Dict.get?_set] at found
  split at found
  next here =>
    obtain rfl := Option.some.inj found
    exact here ▸ own
  next => exact keyed other q found

theorem Evaluator.Keyed.fold {step : Evaluator → String × Pending → Evaluator} {l : List (String × Pending)}
    (steps : ∀ e entry, e.Keyed → entry.2.candidate.candidateId = entry.1 → (step e entry).Keyed)
    (keyed : e.Keyed) (own : ∀ entry ∈ l, entry.2.candidate.candidateId = entry.1) : (l.foldl step e).Keyed := by
  induction l generalizing e with
  | nil => exact keyed
  | cons entry rest ih =>
    exact ih (steps e entry keyed (own entry List.mem_cons_self))
      fun other member => own other (List.mem_cons_of_mem _ member)

theorem Evaluator.Keyed.entries (keyed : e.Keyed) :
    ∀ entry ∈ e.pending.entries, entry.2.candidate.candidateId = entry.1 :=
  fun entry member => keyed entry.1 entry.2 (Dict.mem_entries.mp member)

theorem Evaluator.Keyed.advanceTime (keyed : e.Keyed) (platform : Platform) (policy : ShadowPolicy) (nowNs : ℤ)
    (inclusive : Bool) :
    (e.advanceTime platform policy nowNs inclusive).Keyed := by
  refine Evaluator.Keyed.fold (fun e entry keyed own => ?_) keyed keyed.entries
  unfold advanceOne
  dsimp only
  split
  next =>
    intro other q found
    rw [Dict.get?_erase] at found
    split at found
    next => cases found
    next => exact keyed other q found
  next => exact keyed.set (p := entry.2.arrived policy (e.view entry.2.candidate.symbol) nowNs inclusive) own rfl

theorem meetPass_keyed (keyed : e.Keyed) : (e.pending.entries.foldl (meetOne policy m) e).Keyed := by
  refine Evaluator.Keyed.fold (fun e entry keyed own => ?_) keyed keyed.entries
  unfold meetOne
  split
  next => exact keyed
  next =>
    refine keyed.set (p := entry.2.meet policy (e.view m.event.symbol) m) ?_ rfl
    unfold Pending.meet
    dsimp only
    split <;> exact own

/-- A candidate after time has advanced: over when its horizon has come, else where its arrival took it. -/
theorem advanceTime_own (platform : Platform) (nowNs : ℤ) (inclusive : Bool) (keyed : e.Keyed)
    {sources : List String}
    (here : e.pending.get? c.candidateId = some p) (known : e.sourceIds.get? c.candidateId = some sources)
    (of : p.Of policy c) :
    (∀ o ∈ (e.advanceTime platform policy nowNs inclusive).ready.values,
        o.candidate.candidateId = c.candidateId → o ∈ e.ready.values ∨ due c.horizonNs nowNs inclusive = true ∧
          o ∈ finish platform policy (p.arrived policy (e.view c.symbol) nowNs inclusive) sources) ∧
      if due c.horizonNs nowNs inclusive then
        (e.advanceTime platform policy nowNs inclusive).pending.get? c.candidateId = none
      else (e.advanceTime platform policy nowNs inclusive).pending.get? c.candidateId =
          some (p.arrived policy (e.view c.symbol) nowNs inclusive) ∧
        (e.advanceTime platform policy nowNs inclusive).sourceIds.get? c.candidateId = some sources := by
  obtain ⟨-, -, turn⟩ := pass_own (advanceOne platform policy nowNs inclusive) c.candidateId
    (Apart.refl _) Apart.trans
    (fun _ entry symbol => advanceOne_view entry symbol) (fun _ _ apart own => advanceOne_apart apart own) keyed
  obtain ⟨before, views, first, last⟩ := turn p here
  have kept := of.arrived_of (e.view c.symbol) nowNs inclusive
  unfold Evaluator.advanceTime
  generalize e.pending.entries.foldl (advanceOne platform policy nowNs inclusive) e = after at last ⊢
  unfold advanceOne at last
  dsimp only at last
  rw [of.candidate, views, kept.horizon] at last
  have bound : before.sourceIds.getD c.candidateId [] = sources := by
    rw [Dict.getD, first.sources, known]
    rfl
  rw [bound] at last
  split at last
  next finished =>
    rw [if_pos finished]
    refine ⟨fun o member own => ?_, ?_⟩
    · rcases mem_recorded (last.ready o member own) with old | new
      · exact .inl (first.ready o old own)
      · exact .inr ⟨finished, new⟩
    · rw [last.pending, Dict.get?_erase, if_pos rfl]
  next open_ =>
    rw [if_neg open_]
    refine ⟨fun o member own => .inl (first.ready o (last.ready o member own) own), ?_, ?_⟩
    · rw [last.pending, Dict.get?_set, if_pos rfl]
    · rw [last.sources, first.sources, known]

theorem advanceTime_view (platform : Platform) (policy : ShadowPolicy) (nowNs : ℤ) (inclusive : Bool)
    (keyed : e.Keyed) (symbol : String) :
    (e.advanceTime platform policy nowNs inclusive).view symbol = e.view symbol :=
  (pass_own _ symbol (Apart.refl _) Apart.trans (fun _ entry symbol => advanceOne_view entry symbol)
    (fun _ _ apart own => advanceOne_apart apart own) keyed).1 symbol

theorem advanceTime_none (platform : Platform) (policy : ShadowPolicy) (nowNs : ℤ) (inclusive : Bool)
    (keyed : e.Keyed) {identity : String} (none : e.pending.get? identity = none) :
    Apart identity e (e.advanceTime platform policy nowNs inclusive) :=
  (pass_own _ _ (Apart.refl _) Apart.trans (fun _ entry symbol => advanceOne_view entry symbol)
    (fun _ _ apart own => advanceOne_apart apart own) keyed).2.1 none

/-- A candidate after an event of its symbol. -/
theorem meetPass_own (keyed : e.Keyed) {sources : List String}
    (here : e.pending.get? c.candidateId = some p) (known : e.sourceIds.get? c.candidateId = some sources)
    (of : p.Of policy c) (symbol : m.event.symbol = c.symbol) :
    (e.pending.entries.foldl (meetOne policy m) e).pending.get? c.candidateId =
        some (p.meet policy (e.view c.symbol) m) ∧
      (e.pending.entries.foldl (meetOne policy m) e).sourceIds.get? c.candidateId =
        some (sources ++ [m.event.eventId]) ∧
      ∀ o ∈ (e.pending.entries.foldl (meetOne policy m) e).ready.values,
        o.candidate.candidateId = c.candidateId → o ∈ e.ready.values := by
  obtain ⟨-, -, turn⟩ := pass_own (meetOne policy m) c.candidateId
    (Apart.refl _) Apart.trans
    (fun _ entry symbol => meetOne_view entry symbol) (fun _ _ apart _ => meetOne_apart apart) keyed
  obtain ⟨before, views, first, last⟩ := turn p here
  generalize e.pending.entries.foldl (meetOne policy m) e = after at last ⊢
  unfold meetOne at last
  dsimp only at last
  rw [of.candidate, symbol, if_neg (not_not.mpr rfl), views] at last
  refine ⟨?_, ?_, fun o member own => first.ready o (last.ready o member own) own⟩
  · rw [last.pending, Dict.get?_set, if_pos rfl]
  · rw [last.sources, Dict.get?_modify, if_pos rfl, first.sources, known]
    rfl

/-- An event of another symbol passes a candidate by. -/
theorem meetPass_other (keyed : e.Keyed) (here : e.pending.get? c.candidateId = some p) (of : p.Of policy c)
    (symbol : m.event.symbol ≠ c.symbol) :
    Apart c.candidateId e (e.pending.entries.foldl (meetOne policy m) e) := by
  obtain ⟨-, -, turn⟩ := pass_own (meetOne policy m) c.candidateId
    (Apart.refl _) Apart.trans
    (fun _ entry symbol => meetOne_view entry symbol) (fun _ _ apart _ => meetOne_apart apart) keyed
  obtain ⟨before, -, first, last⟩ := turn p here
  generalize e.pending.entries.foldl (meetOne policy m) e = after at last ⊢
  unfold meetOne at last
  dsimp only at last
  rw [of.candidate, if_pos (Ne.symm symbol)] at last
  exact first.trans last

end turns

/-! ## What a symbol shows -/

def View.shown (view : View) (m : Shown) : View :=
  match m.quote with
  | some quote => ⟨some quote, withBbo (some quote) m.bidLevels .bid, withBbo (some quote) m.askLevels .ask,
      m.depthAtNs.getD m.event.exchangeAtNs⟩
  | none => ⟨none, [], [], view.depthAtNs⟩

def View.keep (view : View) (c : ShadowCandidate) : View :=
  if view.quote.all fun previous => previous.receivedAt ≤ c.quote.receivedAt then
    ⟨some c.quote, withBbo (some c.quote) [] .bid, withBbo (some c.quote) [] .ask, view.depthAtNs⟩
  else view

theorem view_display (e : Evaluator) (m : Shown) (symbol : String) : (e.display m).view symbol =
    if m.event.symbol = symbol then (e.view symbol).shown m else e.view symbol := by
  unfold Evaluator.display View.shown Evaluator.view
  cases m.quote <;> by_cases same : m.event.symbol = symbol <;> simp [same, Dict.getD]

theorem view_keepQuote (e : Evaluator) (c : ShadowCandidate) (symbol : String) : (e.keepQuote c).view symbol =
    if c.symbol = symbol then (e.view symbol).keep c else e.view symbol := by
  unfold Evaluator.keepQuote View.keep Evaluator.view
  by_cases same : c.symbol = symbol
  · subst same
    dsimp only
    split <;> simp [Dict.getD]
  · split <;> simp [same, Dict.getD]

theorem shown_congr {v w : View} (depth : v.depthAtNs = w.depthAtNs) (m : Shown) : v.shown m = w.shown m := by
  unfold View.shown
  rw [depth]

/-! ## Inputs -/

section inputs

variable {input : Input}

theorem onMarket_ok (done : e.onMarket platform policy m = .ok f) :
    ∃ displayed : Evaluator, displayed = (Evaluator.advanceTime platform policy
        { e with lastEventNs := m.event.receivedAtNs } m.event.receivedAtNs false).display m ∧
      f = (displayed.pending.entries.foldl (meetOne policy m) displayed).advanceTime platform policy
        m.event.receivedAtNs true := by
  unfold Evaluator.onMarket at done
  split at done
  next => cases done
  next => exact ⟨_, rfl, (Except.ok.inj done).symm⟩

theorem started_keyed (keyed : e.Keyed) (at_ : ℤ) : ({ e with lastEventNs := at_ } : Evaluator).Keyed := keyed

theorem onMarket_keyed (keyed : e.Keyed) (done : e.onMarket platform policy m = .ok f) : f.Keyed := by
  obtain ⟨displayed, rfl, rfl⟩ := onMarket_ok done
  refine Evaluator.Keyed.advanceTime (meetPass_keyed ?_) _ _ _ _
  have advanced := (started_keyed keyed m.event.receivedAtNs).advanceTime platform policy m.event.receivedAtNs false
  unfold Evaluator.display
  split <;> exact advanced

theorem display_apart (identity : String) (e : Evaluator) (m : Shown) : Apart identity e (e.display m) := by
  unfold Evaluator.display
  split <;> exact ⟨rfl, rfl, fun _ member _ => member⟩

theorem display_keyed (keyed : e.Keyed) (m : Shown) : (e.display m).Keyed := by
  unfold Evaluator.display
  split <;> exact keyed

theorem meetPass_view (keyed : e.Keyed) (symbol : String) :
    (e.pending.entries.foldl (meetOne policy m) e).view symbol = e.view symbol :=
  (pass_own _ symbol (Apart.refl _) Apart.trans (fun _ entry symbol => meetOne_view entry symbol)
    (fun _ _ apart _ => meetOne_apart apart) keyed).1 symbol

/-- What an event shows, and the candidates that meet it, leave alone a candidate that has no place. -/
theorem displayed_none (keyed : e.Keyed) {identity : String} (none : e.pending.get? identity = none) :
    Apart identity e (((e.display m).pending.entries.foldl (meetOne policy m) (e.display m)).advanceTime
      platform policy m.event.receivedAtNs true) := by
  have first := display_apart identity e m
  have placed := display_keyed keyed m
  have second := first.trans ((pass_own (meetOne policy m) identity (Apart.refl _) Apart.trans
    (fun _ entry symbol => meetOne_view entry symbol) (fun _ _ apart _ => meetOne_apart apart) placed).2.1
      (first.pending.trans none))
  exact second.trans (advanceTime_none _ _ _ _ (meetPass_keyed placed) (second.pending.trans none))

theorem displayed_view (keyed : e.Keyed) (symbol : String) :
    (((e.display m).pending.entries.foldl (meetOne policy m) (e.display m)).advanceTime
      platform policy m.event.receivedAtNs true).view symbol =
        if m.event.symbol = symbol then (e.view symbol).shown m else e.view symbol := by
  have placed := display_keyed keyed m
  rw [advanceTime_view _ _ _ _ (meetPass_keyed placed), meetPass_view placed, view_display]

theorem started_apart (identity : String) (e : Evaluator) (at_ : ℤ) :
    Apart identity e { e with lastEventNs := at_ } := ⟨rfl, rfl, fun _ member _ => member⟩

/-- An event passes a candidate that has no place, but for what it shows. -/
theorem onMarket_none (keyed : e.Keyed) {identity : String} (none : e.pending.get? identity = none)
    (done : e.onMarket platform policy m = .ok f) : Apart identity e f ∧ ∀ symbol, f.view symbol =
      if m.event.symbol = symbol then (e.view symbol).shown m else e.view symbol := by
  obtain ⟨displayed, rfl, rfl⟩ := onMarket_ok done
  have placed := started_keyed keyed m.event.receivedAtNs
  have first := (started_apart identity e m.event.receivedAtNs).trans
    (advanceTime_none platform policy m.event.receivedAtNs false placed none)
  refine ⟨first.trans (displayed_none (placed.advanceTime _ _ _ _) (first.pending.trans none)), fun symbol => ?_⟩
  rw [displayed_view (placed.advanceTime _ _ _ _), advanceTime_view _ _ _ _ placed]
  rfl

theorem keepQuote_kept (e : Evaluator) (d : ShadowCandidate) : (e.keepQuote d).pending = e.pending ∧
    (e.keepQuote d).sourceIds = e.sourceIds ∧ (e.keepQuote d).ready = e.ready := by
  unfold Evaluator.keepQuote
  split <;> exact ⟨rfl, rfl, rfl⟩

theorem add_fresh (policy : ShadowPolicy) (none : e.pending.get? d.candidateId = none) :
    (e.add policy d).pending = e.pending.set d.candidateId (followed policy d) ∧
      (e.add policy d).sourceIds = e.sourceIds.set d.candidateId [d.sourceEventId] ∧
      (e.add policy d).ready = e.ready ∧ ∀ symbol, (e.add policy d).view symbol =
        if d.symbol = symbol then (e.view symbol).keep d else e.view symbol := by
  unfold Evaluator.add
  rw [none, if_neg (by decide)]
  obtain ⟨pending, sources, ready⟩ := keepQuote_kept { e with
    pending := e.pending.set d.candidateId (followed policy d)
    sourceIds := e.sourceIds.set d.candidateId [d.sourceEventId] } d
  exact ⟨pending, sources, ready, fun symbol => view_keepQuote _ d symbol⟩

theorem add_keyed (keyed : e.Keyed) (d : ShadowCandidate) : (e.add policy d).Keyed := by
  cases placed : e.pending.get? d.candidateId with
  | none => exact keyed.set (p := followed policy d) rfl (add_fresh policy placed).1
  | some p =>
    unfold Evaluator.add
    rw [placed, if_pos (Option.isSome_some)]
    exact keyed

theorem add_apart (policy : ShadowPolicy) (e : Evaluator) {identity : String} (other : d.candidateId ≠ identity) :
    Apart identity e (e.add policy d) := by
  cases placed : e.pending.get? d.candidateId with
  | none =>
    obtain ⟨pending, sources, ready, -⟩ := add_fresh policy placed
    refine ⟨by rw [pending, Dict.get?_set, if_neg other], by rw [sources, Dict.get?_set, if_neg other], ?_⟩
    rw [ready]
    exact fun _ member _ => member
  | some p =>
    unfold Evaluator.add
    rw [placed, if_pos (Option.isSome_some)]
    exact .refl identity e

theorem meetPass_ready (m : Shown) (l : List (String × Pending)) (e : Evaluator) :
    (l.foldl (meetOne policy m) e).ready = e.ready := by
  induction l generalizing e with
  | nil => rfl
  | cons entry rest ih =>
    refine (ih _).trans ?_
    unfold meetOne
    split <;> rfl

theorem display_ready (e : Evaluator) (m : Shown) : (e.display m).ready = e.ready := by
  unfold Evaluator.display
  split <;> rfl

theorem add_ready (policy : ShadowPolicy) (e : Evaluator) (d : ShadowCandidate) :
    (e.add policy d).ready = e.ready := by
  unfold Evaluator.add
  split
  next => rfl
  next => exact (keepQuote_kept _ d).2.2

theorem keep_depth (view : View) (d : ShadowCandidate) : (view.keep d).depthAtNs = view.depthAtNs := by
  unfold View.keep
  split <;> rfl

/-- What a symbol shows after a candidate is added. -/
theorem add_view (policy : ShadowPolicy) (e : Evaluator) (d : ShadowCandidate) (symbol : String) :
    ((e.add policy d).view symbol = e.view symbol ∨
      d.symbol = symbol ∧ (e.add policy d).view symbol = (e.keepQuote d).view symbol) ∧
      ((e.add policy d).view symbol).depthAtNs = (e.view symbol).depthAtNs := by
  cases placed : e.pending.get? d.candidateId with
  | some p =>
    unfold Evaluator.add
    rw [placed, if_pos (Option.isSome_some)]
    exact ⟨.inl rfl, rfl⟩
  | none =>
    obtain ⟨-, -, -, views⟩ := add_fresh policy placed
    rw [views, view_keepQuote]
    split
    next own => exact ⟨.inr ⟨own, rfl⟩, keep_depth _ d⟩
    next => exact ⟨.inl rfl, rfl⟩

theorem keep_kept {v : View} (kept : (v.quote.all fun previous => previous.receivedAt ≤ d.quote.receivedAt) = true) :
    v.keep d = ⟨some d.quote, withBbo (some d.quote) [] .bid, withBbo (some d.quote) [] .ask, v.depthAtNs⟩ :=
  if_pos kept

/-- What is behind was received no later. -/
def View.Behind (w v : View) : Prop := ∀ x ∈ w.quote, ∃ y ∈ v.quote, x.receivedAt ≤ y.receivedAt

theorem View.Behind.all {v w : View} {at_ : Instant} (behind : w.Behind v)
    (kept : (v.quote.all fun previous => previous.receivedAt ≤ at_) = true) :
    (w.quote.all fun previous => previous.receivedAt ≤ at_) = true := by
  rw [Option.all_eq_true] at kept ⊢
  intro x member
  obtain ⟨y, later, le⟩ := behind x member
  exact decide_eq_true (le.trans (of_decide_eq_true (kept y later)))

theorem View.Behind.keep {v w : View} (behind : w.Behind v) (d : ShadowCandidate) : w.Behind (v.keep d) := by
  unfold View.keep
  split
  next kept =>
    intro x member
    exact ⟨d.quote, rfl, of_decide_eq_true ((Option.all_eq_true _ _).mp (behind.all kept) x member)⟩
  next => exact behind

theorem acknowledge_apart (identity : String) (e : Evaluator) (outcomes : List ShadowActionOutcome) :
    Apart identity e (e.acknowledge platform outcomes) := by
  refine ⟨rfl, rfl, fun o member _ => ?_⟩
  unfold Evaluator.acknowledge at member
  dsimp only at member
  generalize e.ready = ready at member ⊢
  induction outcomes generalizing ready with
  | nil => exact member
  | cons first later ih =>
    obtain ⟨key, found⟩ := Dict.mem_values.mp (ih _ member)
    rw [Dict.get?_erase] at found
    split at found
    next => cases found
    next => exact Dict.mem_values.mpr ⟨key, found⟩

theorem step_keyed (keyed : e.Keyed) (done : e.step platform policy input = .ok f) : f.Keyed := by
  cases input with
  | market m => exact onMarket_keyed keyed done
  | add d =>
    obtain rfl := Except.ok.inj done
    exact add_keyed keyed d
  | flush at_ =>
    obtain rfl := Except.ok.inj done
    exact keyed.advanceTime _ _ _ _
  | acknowledge outcomes =>
    obtain rfl := Except.ok.inj done
    exact keyed

end inputs

end TradeAgent.Scalp.Shadow
