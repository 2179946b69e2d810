import TradeAgent.ShadowIndependence
import TradeAgent.Library.Rounding
import Mathlib.Data.List.TakeWhile

/-! Candidates simulated over recorded market events: each is added when it was sent, what is ready is
collected after every event that was shown, and what is left is closed ten seconds after the last of them. -/
namespace TradeAgent.Scalp.Shadow

open Market (BookLevel MarketEvent)
open Market.Engine (BookSide)

/-- The feature engine of a simulation, with its states; it may fail. -/
structure FeatureFeed (σ : Type) where
  engine : σ
  restoreReplaySnapshot : σ → ShadowCandidate → Option σ
  onEvent : σ → MarketEvent → Option (σ × Bool)
  quote : σ → String → Option ScalpQuote
  depthTimestampNs : σ → String → Option ℤ
  freshDepth : σ → String → BookSide → (atNs : ℤ) → (maximumAgeMs : ℕ) → List BookLevel

/-- `ns_datetime`. -/
def nsDatetime (ns : ℤ) : Instant := ns / 1000

def ShadowCandidate.shadowSendAt (c : ShadowCandidate) : Instant := nsDatetime c.shadowSendAtNs

section simulation

variable {σ : Type} (platform : Platform) (policy : ShadowPolicy) (feed : FeatureFeed σ)

/-- What the engine shows of the symbol of an event. -/
def FeatureFeed.shown (engine : σ) (event : MarketEvent) : Shown where
  event
  quote := feed.quote engine event.symbol
  bidLevels := feed.freshDepth engine event.symbol .bid event.receivedAtNs policy.horizonQuoteMaxAgeMs
  askLevels := feed.freshDepth engine event.symbol .ask event.receivedAtNs policy.arrivalMarketMaxAgeMs
  depthAtNs := feed.depthTimestampNs engine event.symbol

structure Simulation (σ : Type) where
  evaluator : Evaluator := {}
  engine : σ
  pending : List ShadowCandidate
  results : List ShadowActionOutcome := []
  latestAt : Option Instant := none

def Simulation.add (s : Simulation σ) (c : ShadowCandidate) : Option (Simulation σ) := do
  let engine ← feed.restoreReplaySnapshot s.engine c
  pure { s with evaluator := s.evaluator.add policy c, engine }

/-- The candidates that are next are added, as long as they are due. -/
def Simulation.addWhile (dueNow : ShadowCandidate → Bool) (s : Simulation σ) : Option (Simulation σ) :=
  (s.pending.takeWhile dueNow).foldlM (Simulation.add policy feed) { s with pending := s.pending.dropWhile dueNow }

/-- An event the engine accepts, or after which it shows no quote, is evaluated. -/
def Simulation.meet (s : Simulation σ) (event : MarketEvent) : Option (Simulation σ) := do
  let (engine, accepted) ← feed.onEvent s.engine event
  let shown := feed.shown policy engine event
  if accepted || shown.quote.isNone then
    let evaluator ← (s.evaluator.onMarket platform policy shown).toOption
    let finished := evaluator.ready.values
    pure { s with
      engine
      evaluator := evaluator.acknowledge platform finished
      results := s.results ++ finished }
  else pure { s with engine }

def Simulation.step (s : Simulation σ) (event : MarketEvent) : Option (Simulation σ) := do
  let s ← s.addWhile policy feed fun c => c.shadowSendAtNs < event.receivedAtNs
  let s ← s.meet platform policy feed event
  ({ s with latestAt := some (nsDatetime event.receivedAtNs) }).addWhile policy feed fun c =>
    c.shadowSendAtNs = event.receivedAtNs

def later (latestAt : Option Instant) (at_ : Instant) : Instant := max (latestAt.getD at_) at_

/-- How long after the last of all a simulation is closed. -/
def closing : Instant := 10 * second

def Simulation.close (s : Simulation σ) : Option (List ShadowActionOutcome) := do
  let latestAt := s.pending.foldl (fun latestAt c => some (later latestAt c.shadowSendAt)) s.latestAt
  let s ← s.addWhile policy feed fun _ => true
  pure (s.results ++ latestAt.elim [] fun latestAt =>
    (s.evaluator.flush platform policy (latestAt + closing)).ready.values)

/-- One outcome for each identity. -/
def byIdentity (outcomes : List ShadowActionOutcome) : List ShadowActionOutcome :=
  (Dict.ofList (outcomes.map fun row => (platform.identity row, row))).values

def bySendTime (candidates : List ShadowCandidate) : List ShadowCandidate :=
  candidates.insertionSort fun a b => a.shadowSendAtNs ≤ b.shadowSendAtNs

def simulateCandidates (candidates : List ShadowCandidate) (marketEvents : List MarketEvent) :
    Option (List ShadowActionOutcome) := do
  let s ← marketEvents.foldlM (Simulation.step platform policy feed)
    { engine := feed.engine, pending := bySendTime candidates }
  let results ← s.close platform policy feed
  pure (byIdentity platform results)

/-! ## Windows of a database -/

/-- `timedelta(seconds=…)`. -/
def timedelta (seconds : ℚ) : Instant := Rounding.toIntegral .halfEven (seconds * 1000000)

structure SimulationWindow where
  start : Instant
  end_ : Instant
  candidate : ShadowCandidate

def window (row : ShadowCandidate) : SimulationWindow where
  start := row.shadowSendAt - second
  end_ := row.observedAt + timedelta (row.horizonSeconds + 1)
  candidate := row

def SimulationWindow.before (a b : SimulationWindow) : Prop :=
  a.start < b.start ∨ a.start = b.start ∧
    (a.end_ < b.end_ ∨ a.end_ = b.end_ ∧ a.candidate.candidateId ≤ b.candidate.candidateId)

instance : DecidableRel SimulationWindow.before := fun _ _ => inferInstanceAs (Decidable (_ ∨ _))

structure Cluster where
  start : Instant
  end_ : Instant
  candidates : List ShadowCandidate

def SimulationWindow.opened (w : SimulationWindow) : Cluster := ⟨w.start, w.end_, [w.candidate]⟩

/-- A window joins the cluster before it unless it starts more than a second after its end. -/
def clustersFrom (last : Cluster) : List SimulationWindow → List Cluster
  | [] => [last]
  | w :: rest =>
    if w.start ≤ last.end_ + second then
      clustersFrom ⟨last.start, max last.end_ w.end_, last.candidates ++ [w.candidate]⟩ rest
    else last :: clustersFrom w.opened rest

def clusters (candidates : List ShadowCandidate) : List Cluster :=
  match (candidates.map window).insertionSort SimulationWindow.before with
  | [] => []
  | w :: rest => clustersFrom w.opened rest

variable (readMarketEvents : (start end_ : Instant) → List MarketEvent)

def Cluster.simulate (cluster : Cluster) : Option (List ShadowActionOutcome) :=
  simulateCandidates platform policy feed cluster.candidates
    (readMarketEvents cluster.start (cluster.end_ + second))

def simulateDatabaseCandidates (candidates : List ShadowCandidate) : Option (List ShadowActionOutcome) := do
  let results ← (clusters candidates).mapM (Cluster.simulate platform policy feed readMarketEvents)
  pure (byIdentity platform results.flatten)

end simulation

/-! ## What a simulation comes to -/

/-- The digest tells outcomes of different candidates, and of different actions, apart. -/
def Platform.Distinguishes (platform : Platform) : Prop :=
  ∀ o o', platform.identity o = platform.identity o' →
    o.candidate.candidateId = o'.candidate.candidateId ∧ o.action = o'.action

/-- Of each candidate one outcome for each action, and no other. -/
structure OncePerAction (candidates : List ShadowCandidate) (outcomes : List ShadowActionOutcome) : Prop where
  nodup : outcomes.Nodup
  known : ∀ o ∈ outcomes, o.candidate ∈ candidates
  once : ∀ c ∈ candidates, ∀ action, ∃! o, o ∈ outcomes ∧ o.candidate = c ∧ o.action = action

/-- An event was received, or a candidate sent, no more than ten seconds before the horizon. -/
def Reached (candidates : List ShadowCandidate) (marketEvents : List MarketEvent) (c : ShadowCandidate) : Prop :=
  (∃ event ∈ marketEvents, c.horizonNs ≤ datetimeNs (nsDatetime event.receivedAtNs + closing)) ∨
    ∃ d ∈ candidates, c.horizonNs ≤ datetimeNs (d.shadowSendAt + closing)

variable {σ : Type} {platform : Platform} {policy : ShadowPolicy} {feed : FeatureFeed σ} {p : Pending}
  {c d : ShadowCandidate} {e f : Evaluator} {m : Shown} {nowNs : ℤ} {inclusive : Bool} {identity : String}
  {results outcomes : List ShadowActionOutcome} {s t : Simulation σ}

/-! ### Records under the digest -/

/-- What is ready is kept under its own digest. -/
def Evaluator.Recorded (platform : Platform) (e : Evaluator) : Prop :=
  ∀ key o, e.ready.get? key = some o → platform.identity o = key

def record (platform : Platform) (ready : Dict String ShadowActionOutcome)
    (outcomes : List ShadowActionOutcome) : Dict String ShadowActionOutcome :=
  outcomes.foldl (fun ready outcome => ready.set (platform.identity outcome) outcome) ready

theorem get?_record {ready : Dict String ShadowActionOutcome} {key : String} {o : ShadowActionOutcome}
    (found : (record platform ready outcomes).get? key = some o) :
    (o ∈ outcomes ∧ platform.identity o = key) ∨ ready.get? key = some o := by
  induction outcomes generalizing ready with
  | nil => exact .inr found
  | cons first rest ih =>
    rcases ih found with ⟨new, same⟩ | old
    · exact .inl ⟨List.mem_cons_of_mem _ new, same⟩
    · rw [Dict.get?_set] at old
      split at old
      next same =>
        obtain rfl := Option.some.inj old
        exact .inl ⟨List.mem_cons_self, same⟩
      next => exact .inr old

theorem record_of_absent {ready : Dict String ShadowActionOutcome} {key : String}
    (apart : ∀ o ∈ outcomes, platform.identity o ≠ key) :
    (record platform ready outcomes).get? key = ready.get? key := by
  induction outcomes generalizing ready with
  | nil => rfl
  | cons first rest ih =>
    refine (ih fun o member => apart o (List.mem_cons_of_mem _ member)).trans ?_
    rw [Dict.get?_set, if_neg (apart first List.mem_cons_self)]

theorem record_pair {ready : Dict String ShadowActionOutcome} {o o' : ShadowActionOutcome}
    (apart : platform.identity o ≠ platform.identity o') :
    (record platform ready [o, o']).get? (platform.identity o) = some o ∧
      (record platform ready [o, o']).get? (platform.identity o') = some o' := by
  simp [record, apart.symm]

/-- Nothing of a candidate that was ready is lost. -/
structure Still (platform : Platform) (identity : String) (e f : Evaluator) : Prop where
  apart : Apart identity e f
  recorded : e.Recorded platform → f.Recorded platform
  kept : e.Recorded platform → ∀ o ∈ e.ready.values, o.candidate.candidateId = identity → o ∈ f.ready.values

theorem Still.refl (platform : Platform) (identity : String) (e : Evaluator) : Still platform identity e e :=
  ⟨.refl identity e, fun recorded => recorded, fun _ _ member _ => member⟩

theorem Still.trans {g : Evaluator} (first : Still platform identity e f) (next : Still platform identity f g) :
    Still platform identity e g where
  apart := first.apart.trans next.apart
  recorded := fun recorded => next.recorded (first.recorded recorded)
  kept := fun recorded o member own =>
    next.kept (first.recorded recorded) o (first.kept recorded o member own) own

theorem Still.of_ready (apart : Apart identity e f) (same : f.ready = e.ready) : Still platform identity e f := by
  refine ⟨apart, fun recorded key o found => recorded key o (same ▸ found), fun _ o member _ => ?_⟩
  rw [same]
  exact member

theorem advanceOne_recorded (entry : String × Pending) (recorded : e.Recorded platform) :
    (advanceOne platform policy nowNs inclusive e entry).Recorded platform := by
  unfold advanceOne
  dsimp only
  split
  next => exact fun key o found => (get?_record found).elim And.right (recorded key o)
  next => exact recorded

theorem advanceTime_recorded (recorded : e.Recorded platform) :
    (e.advanceTime platform policy nowNs inclusive).Recorded platform := by
  unfold Evaluator.advanceTime
  generalize e.pending.entries = entries
  induction entries generalizing e with
  | nil => exact recorded
  | cons entry rest ih => exact ih (advanceOne_recorded entry recorded)

theorem advanceOne_still (distinguishes : platform.Distinguishes) {entry : String × Pending}
    (apart : entry.1 ≠ identity) (keyed : entry.2.candidate.candidateId = entry.1) :
    Still platform identity e (advanceOne platform policy nowNs inclusive e entry) := by
  refine ⟨advanceOne_apart apart keyed, advanceOne_recorded entry, ?_⟩
  unfold advanceOne
  dsimp only
  split
  next =>
    intro recorded o member own
    obtain ⟨key, found⟩ := Dict.mem_values.mp member
    refine Dict.mem_values.mpr ⟨key, (record_of_absent fun o' made same => ?_).trans found⟩
    have other := mem_finish made
    have candidates := (distinguishes o' o (same.trans (recorded key o found).symm)).1
    rw [other, own] at candidates
    exact apart (keyed.symm.trans candidates)
  next => exact fun _ o member _ => member

/-! ### The stages of a candidate -/

/-- A candidate is not followed, and these were made of it. -/
structure Rests (identity : String) (outcomes : List ShadowActionOutcome) (e : Evaluator)
    (results : List ShadowActionOutcome) : Prop where
  pending : e.pending.get? identity = none
  made : ∀ o : ShadowActionOutcome, o.candidate.candidateId = identity →
    (o ∈ results ∨ o ∈ e.ready.values ↔ o ∈ outcomes)

/-- A candidate is followed, and nothing was made of it. -/
structure Open (policy : ShadowPolicy) (c : ShadowCandidate) (e : Evaluator)
    (results : List ShadowActionOutcome) : Prop where
  followed : ∃ p sources, e.pending.get? c.candidateId = some p ∧
    e.sourceIds.get? c.candidateId = some sources ∧ p.Of policy c
  unmade : ∀ o : ShadowActionOutcome, o.candidate.candidateId = c.candidateId →
    ¬(o ∈ results ∨ o ∈ e.ready.values)

/-- A candidate was finished once, and what was made of it is what it came to then. -/
def Over (platform : Platform) (policy : ShadowPolicy) (c : ShadowCandidate) (e : Evaluator)
    (results : List ShadowActionOutcome) : Prop :=
  ∃ p sources, p.Of policy c ∧ Rests c.candidateId (finish platform policy p sources) e results

theorem Rests.still (rests : Rests identity outcomes e results) (recorded : e.Recorded platform)
    (still : Still platform identity e f) : Rests identity outcomes f results := by
  refine ⟨still.apart.pending.trans rests.pending, fun o own => ?_⟩
  rw [← rests.made o own]
  exact or_congr_right ⟨fun member => still.apart.ready o member own,
    fun member => still.kept recorded o member own⟩

theorem Over.still (finished : Over platform policy c e results) (recorded : e.Recorded platform)
    (still : Still platform c.candidateId e f) : Over platform policy c f results := by
  obtain ⟨p, sources, of, rests⟩ := finished
  exact ⟨p, sources, of, rests.still recorded still⟩

theorem Open.still (followed : Open policy c e results) (apart : Apart c.candidateId e f) :
    Open policy c f results := by
  obtain ⟨⟨p, sources, here, known, of⟩, unmade⟩ := followed
  refine ⟨⟨p, sources, apart.pending.trans here, apart.sources.trans known, of⟩, fun o own made => ?_⟩
  exact unmade o own (made.imp_right fun member => apart.ready o member own)

theorem finish_recorded (distinguishes : platform.Distinguishes) (of : p.Of policy c) {sources : List String}
    (ready : Dict String ShadowActionOutcome) {o : ShadowActionOutcome}
    (made : o ∈ finish platform policy p sources) :
    o ∈ (record platform ready (finish platform policy p sources)).values := by
  have actions : (finishAction platform policy p sources p.passive).action ≠
      (finishAction platform policy p sources p.aggressive).action := by
    change p.passive.action ≠ p.aggressive.action
    rw [of.passive.1, of.aggressive.1]
    decide
  have pair := @record_pair platform ready _ _ fun same => actions (distinguishes _ _ same).2
  unfold finish at made ⊢
  rcases List.mem_pair.mp made with rfl | rfl
  · exact Dict.mem_values.mpr ⟨_, pair.1⟩
  · exact Dict.mem_values.mpr ⟨_, pair.2⟩

/-- The passing of time leaves alone a candidate that is not followed. -/
theorem advanceTime_still (distinguishes : platform.Distinguishes) (keyed : e.Keyed)
    (none : e.pending.get? identity = none) :
    Still platform identity e (e.advanceTime platform policy nowNs inclusive) :=
  (pass_own _ identity (Still.refl platform identity) Still.trans
    (fun _ entry symbol => advanceOne_view entry symbol)
    (fun _ _ apart own => advanceOne_still distinguishes apart own) keyed).2.1 none

/-- A candidate that is followed is finished when its horizon has come, and only then. -/
theorem Open.advanceTime (followed : Open policy c e results) (distinguishes : platform.Distinguishes)
    (keyed : e.Keyed) (recorded : e.Recorded platform) (nowNs : ℤ) (inclusive : Bool) :
    if due c.horizonNs nowNs inclusive then
      Over platform policy c (e.advanceTime platform policy nowNs inclusive) results
    else Open policy c (e.advanceTime platform policy nowNs inclusive) results := by
  obtain ⟨⟨p, sources, here, known, of⟩, unmade⟩ := followed
  obtain ⟨-, -, turn⟩ := pass_own (advanceOne platform policy nowNs inclusive) c.candidateId
    (Still.refl platform c.candidateId) Still.trans (fun _ entry symbol => advanceOne_view entry symbol)
    (fun _ _ apart own => advanceOne_still distinguishes apart own) keyed
  obtain ⟨before, views, first, last⟩ := turn p here
  have kept := of.arrived_of (e.view c.symbol) nowNs inclusive
  have later := first.recorded recorded
  have afterwards : (advanceOne platform policy nowNs inclusive before (c.candidateId, p)).Recorded platform :=
    advanceOne_recorded (c.candidateId, p) later
  unfold Evaluator.advanceTime
  generalize e.pending.entries.foldl (advanceOne platform policy nowNs inclusive) e = after at last ⊢
  have none (o : ShadowActionOutcome) (own : o.candidate.candidateId = c.candidateId) :
      o ∉ before.ready.values := fun member => unmade o own (.inr (first.apart.ready o member own))
  unfold advanceOne at last afterwards
  dsimp only at last afterwards
  rw [of.candidate, views, kept.horizon] at last afterwards
  have bound : before.sourceIds.getD c.candidateId [] = sources := by
    rw [Dict.getD, first.apart.sources, known]
    rfl
  rw [bound] at last afterwards
  split at last
  next finished =>
    rw [if_pos finished] at afterwards ⊢
    refine ⟨_, sources, kept, ?_⟩
    refine Rests.still ⟨?_, fun o own => ?_⟩ afterwards last
    · rw [Dict.get?_erase, if_pos rfl]
    · refine ⟨fun made => ?_, fun made => .inr ?_⟩
      · rcases made with old | ready
        · exact absurd (.inl old) (unmade o own)
        · exact (mem_recorded ready).resolve_left (none o own)
      · exact finish_recorded distinguishes kept before.ready made
  next open_ =>
    rw [if_neg open_]
    refine Open.still (e := { before with pending := before.pending.set c.candidateId _ })
      ⟨⟨_, sources, ?_, first.apart.sources.trans known, kept⟩, ?_⟩ last.apart
    · rw [Dict.get?_set, if_pos rfl]
    · exact fun o own made => made.elim (fun old => unmade o own (.inl old)) (none o own)

/-! ### Inputs of the evaluator -/

theorem onMarket_recorded (recorded : e.Recorded platform) (done : e.onMarket platform policy m = .ok f) :
    f.Recorded platform := by
  obtain ⟨displayed, rfl, rfl⟩ := onMarket_ok done
  refine advanceTime_recorded fun key o found => ?_
  rw [meetPass_ready, display_ready] at found
  exact advanceTime_recorded (e := { e with lastEventNs := m.event.receivedAtNs }) recorded key o found

theorem meetPass_still (keyed : e.Keyed) (none : e.pending.get? identity = none) :
    Still platform identity e (e.pending.entries.foldl (meetOne policy m) e) :=
  .of_ready ((pass_own (meetOne policy m) identity (Apart.refl _) Apart.trans
    (fun _ entry symbol => meetOne_view entry symbol) (fun _ _ apart _ => meetOne_apart apart) keyed).2.1 none)
    (meetPass_ready m _ e)

/-- What an event shows and what its symbol's candidates make of it leave alone one that is not followed. -/
theorem displayed_still (distinguishes : platform.Distinguishes) (keyed : e.Keyed)
    (none : e.pending.get? identity = none) :
    Still platform identity e (((e.display m).pending.entries.foldl (meetOne policy m) (e.display m)).advanceTime
      platform policy m.event.receivedAtNs true) := by
  have shown : Still platform identity e (e.display m) := .of_ready (display_apart identity e m) (display_ready e m)
  have placed := display_keyed keyed m
  have met := shown.trans (@meetPass_still platform policy _ m _ placed (shown.apart.pending.trans none))
  exact met.trans (advanceTime_still distinguishes (meetPass_keyed placed) (met.apart.pending.trans none))

theorem onMarket_still (distinguishes : platform.Distinguishes) (keyed : e.Keyed)
    (none : e.pending.get? identity = none) (done : e.onMarket platform policy m = .ok f) :
    Still platform identity e f := by
  obtain ⟨displayed, rfl, rfl⟩ := onMarket_ok done
  have started : Still platform identity e { e with lastEventNs := m.event.receivedAtNs } :=
    .of_ready (started_apart identity e _) rfl
  have placed := started_keyed keyed m.event.receivedAtNs
  have first := started.trans
    (@advanceTime_still platform policy _ m.event.receivedAtNs false _ distinguishes placed none)
  exact first.trans (displayed_still distinguishes (placed.advanceTime _ _ _ _) (first.apart.pending.trans none))

theorem Open.meetPass (followed : Open policy c e results) (keyed : e.Keyed) (m : Shown) :
    Open policy c (e.pending.entries.foldl (meetOne policy m) e) results := by
  obtain ⟨⟨p, sources, here, known, of⟩, unmade⟩ := followed
  by_cases symbol : m.event.symbol = c.symbol
  · obtain ⟨pending, later, -⟩ := meetPass_own keyed here known of symbol
    refine ⟨⟨_, _, pending, later, of.meet _ m⟩, ?_⟩
    rw [meetPass_ready]
    exact unmade
  · exact Open.still ⟨⟨p, sources, here, known, of⟩, unmade⟩ (meetPass_other keyed here of symbol)

/-- An event finishes a candidate whose horizon it does not come before. -/
theorem Open.onMarket (followed : Open policy c e results) (distinguishes : platform.Distinguishes)
    (keyed : e.Keyed) (recorded : e.Recorded platform) (done : e.onMarket platform policy m = .ok f) :
    if c.horizonNs ≤ m.event.receivedAtNs then Over platform policy c f results
    else Open policy c f results := by
  obtain ⟨displayed, rfl, rfl⟩ := onMarket_ok done
  have placed := started_keyed keyed m.event.receivedAtNs
  have started : Open policy c { e with lastEventNs := m.event.receivedAtNs } results :=
    followed.still (started_apart _ e _)
  have first := started.advanceTime distinguishes placed recorded m.event.receivedAtNs false
  have advanced := placed.advanceTime platform policy m.event.receivedAtNs false
  have kept : ((Evaluator.advanceTime platform policy { e with lastEventNs := m.event.receivedAtNs }
      m.event.receivedAtNs false).Recorded platform) := advanceTime_recorded recorded
  generalize Evaluator.advanceTime platform policy { e with lastEventNs := m.event.receivedAtNs }
    m.event.receivedAtNs false = g at first advanced kept ⊢
  by_cases past : due c.horizonNs m.event.receivedAtNs false = true
  · rw [if_pos past] at first
    have le : c.horizonNs ≤ m.event.receivedAtNs := by
      rcases due_iff.mp past with earlier | ⟨impossible, -⟩
      · exact earlier.le
      · cases impossible
    rw [if_pos le]
    obtain ⟨p, sources, of, rests⟩ := first
    exact Over.still ⟨p, sources, of, rests⟩ kept (displayed_still distinguishes advanced rests.pending)
  · rw [if_neg past] at first
    have shown := (first.still (display_apart _ g m)).meetPass (display_keyed advanced m) m
    have last := shown.advanceTime distinguishes (meetPass_keyed (display_keyed advanced m)) (by
      intro key o found
      rw [meetPass_ready, display_ready] at found
      exact kept key o found) m.event.receivedAtNs true
    have reached : due c.horizonNs m.event.receivedAtNs true = true ↔ c.horizonNs ≤ m.event.receivedAtNs := by
      rw [due_iff, le_iff_lt_or_eq]
      simp
    by_cases le : c.horizonNs ≤ m.event.receivedAtNs
    · rw [if_pos (reached.mpr le)] at last
      rw [if_pos le]
      exact last
    · rw [if_neg (mt reached.mp le)] at last
      rw [if_neg le]
      exact last

theorem add_still (policy : ShadowPolicy) (e : Evaluator) (other : d.candidateId ≠ identity) :
    Still platform identity e (e.add policy d) :=
  .of_ready (add_apart policy e other) (add_ready policy e d)

/-- A candidate that was never followed is, once it is added. -/
theorem Rests.add (rests : Rests c.candidateId [] e results) : Open policy c (e.add policy c) results := by
  obtain ⟨pending, sources, ready, -⟩ := add_fresh policy rests.pending
  refine ⟨⟨followed policy c, [c.sourceEventId], ?_, ?_, followed_of⟩, fun o own made => ?_⟩
  · rw [pending, Dict.get?_set, if_pos rfl]
  · rw [sources, Dict.get?_set, if_pos rfl]
  · rw [ready] at made
    exact absurd ((rests.made o own).mp made) List.not_mem_nil

/-- What is collected is what was ready. -/
theorem made_collected (e : Evaluator) (results : List ShadowActionOutcome) (o : ShadowActionOutcome) :
    (o ∈ results ++ e.ready.values ∨ o ∈ (e.acknowledge platform e.ready.values).ready.values) ↔
      o ∈ results ∨ o ∈ e.ready.values := by
  rw [List.mem_append]
  refine ⟨fun made => made.elim id fun kept => .inr ?_, .inl⟩
  exact (@acknowledge_apart platform o.candidate.candidateId e e.ready.values).ready o kept rfl

theorem acknowledge_recorded (recorded : e.Recorded platform) (outcomes : List ShadowActionOutcome) :
    (e.acknowledge platform outcomes).Recorded platform := by
  unfold Evaluator.acknowledge Evaluator.Recorded at *
  dsimp only
  generalize e.ready = ready at recorded ⊢
  induction outcomes generalizing ready with
  | nil => exact recorded
  | cons first rest ih =>
    refine ih _ fun key o found => ?_
    rw [Dict.get?_erase] at found
    split at found
    next => cases found
    next => exact recorded key o found

/-! ### A simulation -/

/-- Where a simulation stands: of what was added each is followed, or was finished by an event, and of
nothing else anything was made. -/
structure Simulation.Standing (platform : Platform) (policy : ShadowPolicy) (added : List ShadowCandidate)
    (met : List MarketEvent) (s : Simulation σ) : Prop where
  keyed : s.evaluator.Keyed
  recorded : s.evaluator.Recorded platform
  others : ∀ identity, (∀ c ∈ added, c.candidateId ≠ identity) → Rests identity [] s.evaluator s.results
  each : ∀ c ∈ added, Open policy c s.evaluator s.results ∨
    Over platform policy c s.evaluator s.results ∧ ∃ event ∈ met, c.horizonNs ≤ event.receivedAtNs

variable {added now candidates : List ShadowCandidate} {met marketEvents : List MarketEvent} {event : MarketEvent}

theorem Simulation.Standing.start (candidates : List ShadowCandidate) :
    Simulation.Standing platform policy [] [] ({ engine := feed.engine, pending := candidates } : Simulation σ) where
  keyed := fun _ _ found => nomatch found
  recorded := fun _ _ found => nomatch found
  others := fun _ _ => ⟨rfl, fun _ _ => ⟨fun made => made.elim id id, .inl⟩⟩
  each := fun _ member => absurd member List.not_mem_nil

theorem Simulation.Standing.add (standing : s.Standing platform policy added met)
    (apart : ∀ d ∈ added, d.candidateId ≠ c.candidateId) (done : s.add policy feed c = some t) :
    t.Standing platform policy (added ++ [c]) met ∧ t.pending = s.pending ∧ t.latestAt = s.latestAt := by
  unfold Simulation.add at done
  obtain ⟨engine, -, rfl⟩ := Option.bind_eq_some_iff.mp done |>.imp fun _ h => h.imp_right Option.some.inj
  refine ⟨⟨add_keyed standing.keyed c, ?_, fun identity unknown => ?_, fun d member => ?_⟩, rfl, rfl⟩
  · intro key o found
    rw [add_ready] at found
    exact standing.recorded key o found
  · have other := unknown c (List.mem_append_right _ List.mem_cons_self)
    exact (standing.others identity fun d member => unknown d (List.mem_append_left _ member)).still
      standing.recorded (add_still policy s.evaluator other)
  · rcases List.mem_append.mp member with old | new
    · have still : Still platform d.candidateId s.evaluator (s.evaluator.add policy c) :=
        add_still policy s.evaluator (apart d old).symm
      rcases standing.each d old with followed | ⟨finished, passed⟩
      · exact .inl (followed.still still.apart)
      · exact .inr ⟨finished.still standing.recorded still, passed⟩
    · obtain rfl := List.mem_singleton.mp new
      exact .inl (standing.others _ apart).add

/-- Candidates added in turn. -/
theorem Simulation.Standing.addAll (standing : s.Standing platform policy added met)
    (distinct : ((added ++ now).map ShadowCandidate.candidateId).Nodup)
    (done : now.foldlM (Simulation.add policy feed) s = some t) :
    t.Standing platform policy (added ++ now) met ∧ t.pending = s.pending ∧ t.latestAt = s.latestAt := by
  induction now generalizing added s with
  | nil =>
    obtain rfl := Option.some.inj done
    rw [List.append_nil]
    exact ⟨standing, rfl, rfl⟩
  | cons c rest ih =>
    obtain ⟨between, first, later⟩ := Option.bind_eq_some_iff.mp done
    rw [List.append_cons] at distinct ⊢
    have apart : ∀ d ∈ added, d.candidateId ≠ c.candidateId := by
      intro d member same
      rw [List.map_append, List.map_append, List.append_assoc] at distinct
      exact (List.nodup_append.mp distinct).2.2 _ (List.mem_map_of_mem member) _
        (List.mem_append_left _ List.mem_cons_self) same
    obtain ⟨next, pending, latest⟩ := standing.add apart first
    obtain ⟨last, pending', latest'⟩ := ih next distinct later
    exact ⟨last, pending'.trans pending, latest'.trans latest⟩

theorem Simulation.Standing.addWhile {dueNow : ShadowCandidate → Bool}
    (standing : s.Standing platform policy added met)
    (distinct : ((added ++ s.pending).map ShadowCandidate.candidateId).Nodup)
    (done : s.addWhile policy feed dueNow = some t) :
    ∃ now, s.pending = now ++ t.pending ∧ (∀ c ∈ now, dueNow c = true) ∧
      (∀ c ∈ t.pending.head?, dueNow c = false) ∧ t.Standing platform policy (added ++ now) met ∧
      t.latestAt = s.latestAt := by
  have placed : Simulation.Standing platform policy added met { s with pending := s.pending.dropWhile dueNow } :=
    ⟨standing.keyed, standing.recorded, standing.others, standing.each⟩
  have taken := (List.takeWhile_prefix (l := s.pending) dueNow).sublist
  obtain ⟨after, pending, latest⟩ := placed.addAll (distinct.sublist (.map _ (taken.append_left added))) done
  refine ⟨_, ?_, fun c => List.mem_takeWhile_imp, fun c head => ?_, after, latest⟩
  · rw [pending, List.takeWhile_append_dropWhile]
  · rw [pending] at head
    have refused := List.head?_dropWhile_not dueNow s.pending
    rw [Option.mem_def] at head
    rw [head] at refused
    simpa using refused

/-- What an event finishes has its horizon no later than the event. -/
theorem Simulation.Standing.meet (standing : s.Standing platform policy added met)
    (distinguishes : platform.Distinguishes) (done : s.meet platform policy feed event = some t) :
    t.Standing platform policy added (met ++ [event]) ∧ t.pending = s.pending := by
  have longer {c : ShadowCandidate} (passed : ∃ event ∈ met, c.horizonNs ≤ event.receivedAtNs) :
      ∃ at_ ∈ met ++ [event], c.horizonNs ≤ at_.receivedAtNs :=
    passed.imp fun _ h => h.imp_left (List.mem_append_left _)
  unfold Simulation.meet at done
  obtain ⟨⟨engine, accepted⟩, -, done⟩ := Option.bind_eq_some_iff.mp done
  dsimp only at done
  split at done
  next =>
    obtain ⟨evaluator, ran, rfl⟩ := Option.bind_eq_some_iff.mp done |>.imp fun _ h => h.imp_right Option.some.inj
    have ran : s.evaluator.onMarket platform policy (feed.shown policy engine event) = .ok evaluator := by
      cases outcome : s.evaluator.onMarket platform policy (feed.shown policy engine event) with
      | error fault =>
        rw [outcome] at ran
        cases ran
      | ok after =>
        rw [outcome] at ran
        exact congrArg Except.ok (Option.some.inj ran)
    have keyed := onMarket_keyed standing.keyed ran
    have recorded := onMarket_recorded standing.recorded ran
    have collect {identity : String} {made : List ShadowActionOutcome}
        (rests : Rests identity made evaluator s.results) :
        Rests identity made (evaluator.acknowledge platform evaluator.ready.values)
          (s.results ++ evaluator.ready.values) :=
      ⟨rests.pending, fun o own => (made_collected evaluator s.results o).trans (rests.made o own)⟩
    refine ⟨⟨keyed, acknowledge_recorded recorded _,
      fun identity unknown => ?_, fun c member => ?_⟩, rfl⟩
    · have rests := standing.others identity unknown
      exact collect (rests.still standing.recorded (onMarket_still distinguishes standing.keyed rests.pending ran))
    · rcases standing.each c member with followed | ⟨⟨p, sources, of, rests⟩, passed⟩
      · have after := followed.onMarket distinguishes standing.keyed standing.recorded ran
        split at after
        next reached =>
          obtain ⟨p, sources, of, rests⟩ := after
          exact .inr ⟨⟨p, sources, of, collect rests⟩, event, by simp, reached⟩
        next =>
          exact .inl ⟨after.followed, fun o own made => after.unmade o own ((made_collected _ _ o).mp made)⟩
      · have still := onMarket_still distinguishes standing.keyed rests.pending ran
        exact .inr ⟨⟨p, sources, of, collect (rests.still standing.recorded still)⟩, longer passed⟩
  next =>
    obtain rfl := Option.some.inj done
    exact ⟨⟨standing.keyed, standing.recorded, standing.others,
      fun c member => (standing.each c member).imp_right (And.imp_right longer)⟩, rfl⟩

/-- A simulation under way: what was added comes before what is pending, and was sent by the last event. -/
structure Simulation.Underway (platform : Platform) (policy : ShadowPolicy) (candidates added : List ShadowCandidate)
    (met : List MarketEvent) (s : Simulation σ) : Prop where
  standing : s.Standing platform policy added met
  split : candidates = added ++ s.pending
  latest : s.latestAt = met.getLast?.map fun event => nsDatetime event.receivedAtNs
  sent : ∀ c ∈ added, ∃ event ∈ met, c.shadowSendAtNs ≤ event.receivedAtNs

theorem Simulation.Underway.step (h : s.Underway platform policy candidates added met)
    (distinguishes : platform.Distinguishes) (distinct : (candidates.map ShadowCandidate.candidateId).Nodup)
    (done : s.step platform policy feed event = some t) :
    ∃ more, t.Underway platform policy candidates (added ++ more) (met ++ [event]) := by
  obtain ⟨before, first, done⟩ := Option.bind_eq_some_iff.mp done
  obtain ⟨between, next, last⟩ := Option.bind_eq_some_iff.mp done
  obtain ⟨early, pending, sent, -, standing, -⟩ := h.standing.addWhile (h.split ▸ distinct) first
  obtain ⟨standing, pending'⟩ := standing.meet distinguishes next
  have split : candidates = added ++ early ++ between.pending := by
    rw [pending', List.append_assoc, ← pending]
    exact h.split
  have marked : Simulation.Standing platform policy (added ++ early) (met ++ [event])
      { between with latestAt := some (nsDatetime event.receivedAtNs) } :=
    ⟨standing.keyed, standing.recorded, standing.others, standing.each⟩
  obtain ⟨same, rest, sentNow, -, standing, latest⟩ := marked.addWhile (split ▸ distinct) last
  rw [List.append_assoc] at standing
  refine ⟨early ++ same, standing, ?_, ?_, fun c member => ?_⟩
  · rw [split]
    simp [show between.pending = same ++ t.pending from rest]
  · rw [latest, List.getLast?_append]
    rfl
  · rw [List.mem_append, List.mem_append] at member
    rcases member with old | earlier | now
    · exact (h.sent c old).imp fun _ => And.imp_left (List.mem_append_left _)
    · exact ⟨event, by simp, (of_decide_eq_true (sent c earlier)).le⟩
    · exact ⟨event, by simp, (of_decide_eq_true (sentNow c now)).le⟩

theorem Simulation.Underway.run (h : s.Underway platform policy candidates added met)
    (distinguishes : platform.Distinguishes) (distinct : (candidates.map ShadowCandidate.candidateId).Nodup)
    (ran : marketEvents.foldlM (Simulation.step platform policy feed) s = some t) :
    ∃ added, t.Underway platform policy candidates added (met ++ marketEvents) := by
  induction marketEvents generalizing s added met with
  | nil =>
    obtain rfl := Option.some.inj ran
    rw [List.append_nil]
    exact ⟨added, h⟩
  | cons event rest ih =>
    obtain ⟨between, first, later⟩ := Option.bind_eq_some_iff.mp ran
    obtain ⟨more, next⟩ := h.step distinguishes distinct first
    rw [List.append_cons]
    exact ih next later

/-- The last of all times is one of them, and none is later. -/
theorem later_foldl (pending : List ShadowCandidate) (latestAt : Option Instant) (timed : latestAt ≠ none ∨ pending ≠ []) :
    ∃ last, pending.foldl (fun latestAt c => some (later latestAt c.shadowSendAt)) latestAt = some last ∧
      (last ∈ latestAt ∨ ∃ c ∈ pending, last = c.shadowSendAt) ∧ (∀ at_ ∈ latestAt, at_ ≤ last) ∧
      ∀ c ∈ pending, c.shadowSendAt ≤ last := by
  induction pending generalizing latestAt with
  | nil =>
    obtain ⟨last, rfl⟩ := Option.ne_none_iff_exists'.mp (timed.resolve_right fun some => some rfl)
    exact ⟨last, rfl, .inl rfl, fun at_ same => (Option.some.inj same).ge, fun _ member => nomatch member⟩
  | cons c rest ih =>
    obtain ⟨last, folded, member, above, all⟩ := ih (some (later latestAt c.shadowSendAt)) (.inl nofun)
    have atLeast := above _ rfl
    have own : c.shadowSendAt ≤ last := (le_max_right _ _).trans atLeast
    refine ⟨last, folded, ?_, fun at_ same => ?_, List.forall_mem_cons.mpr ⟨own, all⟩⟩
    · rcases member with same | ⟨d, member, same⟩
      · obtain rfl := Option.some.inj same
        cases latestAt with
        | none => exact .inr ⟨c, List.mem_cons_self, max_self _⟩
        | some at_ =>
          rcases max_choice at_ c.shadowSendAt with first | last
          · exact .inl (congrArg some first.symm)
          · exact .inr ⟨c, List.mem_cons_self, last⟩
      · exact .inr ⟨d, List.mem_cons_of_mem _ member, same⟩
    · rw [Option.mem_def] at same
      subst same
      exact (le_max_left _ _).trans atLeast

/-- A time in nanoseconds, cut to microseconds, comes to less than ten seconds later. -/
theorem le_closing {ns at_ : ℤ} (le : nsDatetime ns ≤ at_) : ns ≤ datetimeNs (at_ + closing) := by
  have cut : ns < (ns / 1000 + 1) * 1000 := Int.lt_ediv_add_one_mul_self ns (by decide)
  unfold nsDatetime at le
  unfold datetimeNs closing second
  linarith

/-! ### What is left of it -/

/-- Of each candidate that is reached there are the outcomes of one state of it, of each other none. -/
structure Concluded (platform : Platform) (policy : ShadowPolicy) (reached : ShadowCandidate → Prop)
    (candidates : List ShadowCandidate) (outcomes : List ShadowActionOutcome) : Prop where
  known : ∀ o ∈ outcomes, ∃ c ∈ candidates, o.candidate.candidateId = c.candidateId
  finished : ∀ c ∈ candidates, reached c → ∃ p sources, p.Of policy c ∧
    ∀ o : ShadowActionOutcome, o.candidate.candidateId = c.candidateId →
      (o ∈ outcomes ↔ o ∈ finish platform policy p sources)
  unfinished : ∀ c ∈ candidates, ¬reached c → ∀ o ∈ outcomes, o.candidate.candidateId ≠ c.candidateId

theorem received_le_last (ordered : marketEvents.Pairwise fun first next => first.receivedAtNs ≤ next.receivedAtNs)
    (member : event ∈ marketEvents) :
    ∃ last, marketEvents.getLast? = some last ∧ event.receivedAtNs ≤ last.receivedAtNs := by
  have ends := List.getLast?_eq_getLast_of_ne_nil (List.ne_nil_of_mem member)
  refine ⟨_, ends, ?_⟩
  obtain ⟨before, split⟩ := List.getLast?_eq_some_iff.mp ends
  generalize marketEvents.getLast _ = last at split ⊢
  subst split
  rcases List.mem_append.mp member with earlier | same
  · exact (List.pairwise_append.mp ordered).2.2 _ earlier _ List.mem_cons_self
  · obtain rfl := List.mem_singleton.mp same
    exact le_rfl

/-- Once all is added, a flush finishes the candidates whose horizon it does not come before. -/
theorem Simulation.Standing.flush (standing : s.Standing platform policy candidates marketEvents)
    (distinguishes : platform.Distinguishes) {reached : ShadowCandidate → Prop} {at_ : Instant}
    (reaches : ∀ c, reached c ↔ c.horizonNs ≤ datetimeNs at_)
    (passed : ∀ event ∈ marketEvents, event.receivedAtNs ≤ datetimeNs at_) :
    Concluded platform policy reached candidates
      (s.results ++ (s.evaluator.flush platform policy at_).ready.values) := by
  have rested {identity : String} {outcomes : List ShadowActionOutcome}
      (rests : Rests identity outcomes s.evaluator s.results) (o : ShadowActionOutcome)
      (own : o.candidate.candidateId = identity) :
      o ∈ s.results ++ (s.evaluator.flush platform policy at_).ready.values ↔ o ∈ outcomes := by
    rw [List.mem_append]
    exact (rests.still standing.recorded (advanceTime_still distinguishes standing.keyed rests.pending)).made o own
  have ended (c : ShadowCandidate) (followed : Open policy c s.evaluator s.results) :=
    followed.advanceTime distinguishes standing.keyed standing.recorded (datetimeNs at_) true
  have due_iff_reached (c : ShadowCandidate) : due c.horizonNs (datetimeNs at_) true = true ↔ reached c := by
    rw [due_iff, reaches, le_iff_lt_or_eq]
    simp
  refine ⟨fun o made => ?_, fun c member here => ?_, fun c member unreached o made own => ?_⟩
  · by_contra unknown
    push Not at unknown
    have rests := standing.others o.candidate.candidateId fun c member => (unknown c member).symm
    exact absurd ((rested rests o rfl).mp made) List.not_mem_nil
  · rcases standing.each c member with followed | ⟨⟨p, sources, of, rests⟩, -⟩
    · have finished := ended c followed
      rw [if_pos ((due_iff_reached c).mpr here)] at finished
      obtain ⟨p, sources, of, rests⟩ := finished
      refine ⟨p, sources, of, fun o own => ?_⟩
      rw [List.mem_append]
      exact rests.made o own
    · exact ⟨p, sources, of, rested rests⟩
  · rcases standing.each c member with followed | ⟨-, event, met, le⟩
    · have still := ended c followed
      rw [if_neg (mt (due_iff_reached c).mp unreached)] at still
      exact still.unmade o own (List.mem_append.mp made)
    · exact unreached ((reaches c).mpr (le.trans (passed event met)))

/-- The time a simulation is closed at reaches a horizon as one of its events or candidates does. -/
theorem Simulation.Underway.reached_iff (h : s.Underway platform policy candidates added marketEvents)
    (ordered : marketEvents.Pairwise fun first next => first.receivedAtNs ≤ next.receivedAtNs) {last : Instant}
    (member : last ∈ s.latestAt ∨ ∃ c ∈ s.pending, last = c.shadowSendAt) (above : ∀ at_ ∈ s.latestAt, at_ ≤ last)
    (all : ∀ c ∈ s.pending, c.shadowSendAt ≤ last) :
    (∀ c, Reached candidates marketEvents c ↔ c.horizonNs ≤ datetimeNs (last + closing)) ∧
      ∀ event ∈ marketEvents, event.receivedAtNs ≤ datetimeNs (last + closing) := by
  have bound : ∀ event ∈ marketEvents, nsDatetime event.receivedAtNs ≤ last := by
    intro event member
    obtain ⟨final, ends, le⟩ := received_le_last ordered member
    refine (Int.ediv_le_ediv (by decide) le).trans (above _ ?_)
    rw [h.latest, ends]
    rfl
  have sends : ∀ d ∈ candidates, d.shadowSendAt ≤ last := by
    intro d member
    rw [h.split] at member
    rcases List.mem_append.mp member with old | left
    · obtain ⟨event, met, le⟩ := h.sent d old
      exact (Int.ediv_le_ediv (by decide) le).trans (bound event met)
    · exact all d left
  have monotone {first next : Instant} (le : first ≤ next) :
      datetimeNs (first + closing) ≤ datetimeNs (next + closing) := by
    unfold datetimeNs
    linarith
  refine ⟨fun c => ⟨?_, fun le => ?_⟩, fun event member => le_closing (bound event member)⟩
  · rintro (⟨event, member, le⟩ | ⟨d, member, le⟩)
    · exact le.trans (monotone (bound event member))
    · exact le.trans (monotone (sends d member))
  · rcases member with latest | ⟨d, left, rfl⟩
    · rw [h.latest, Option.mem_def, Option.map_eq_some_iff] at latest
      obtain ⟨event, ends, rfl⟩ := latest
      exact .inl ⟨event, List.mem_of_getLast? ends, le⟩
    · exact .inr ⟨d, h.split ▸ List.mem_append_right _ left, le⟩

theorem Simulation.Underway.close (h : s.Underway platform policy candidates added marketEvents)
    (distinguishes : platform.Distinguishes) (distinct : (candidates.map ShadowCandidate.candidateId).Nodup)
    (ordered : marketEvents.Pairwise fun first next => first.receivedAtNs ≤ next.receivedAtNs)
    (done : s.close platform policy feed = some results) :
    Concluded platform policy (Reached candidates marketEvents) candidates results := by
  obtain ⟨after, added', rfl⟩ := Option.bind_eq_some_iff.mp done |>.imp fun _ h => h.imp_right Option.some.inj
  obtain ⟨rest, pending, -, all, standing, -⟩ := h.standing.addWhile (h.split ▸ distinct) added'
  have none : after.pending = [] := by
    cases left : after.pending with
    | nil => rfl
    | cons c _ =>
      rw [left] at all
      cases all c rfl
  rw [none, List.append_nil] at pending
  rw [← pending, ← h.split] at standing
  by_cases timed : s.latestAt ≠ Option.none ∨ s.pending ≠ []
  · obtain ⟨last, folded, member, above, all⟩ := later_foldl s.pending s.latestAt timed
    obtain ⟨reaches, passed⟩ := h.reached_iff ordered member above all
    rw [folded, Option.elim_some]
    exact standing.flush distinguishes reaches passed
  · push Not at timed
    obtain ⟨untimed, nothing⟩ := timed
    have calm : marketEvents = [] := by
      rw [h.latest, Option.map_eq_none_iff] at untimed
      exact List.getLast?_eq_none_iff.mp untimed
    have idle : candidates = [] := by
      rw [h.split, nothing, List.append_nil, List.eq_nil_iff_forall_not_mem]
      intro c member
      obtain ⟨event, met, -⟩ := h.sent c member
      rw [calm] at met
      cases met
    subst idle
    rw [untimed, nothing, List.foldl_nil, Option.elim_none, List.append_nil]
    refine ⟨fun o made => ?_, fun _ member => absurd member List.not_mem_nil,
      fun _ member => absurd member List.not_mem_nil⟩
    have rests := standing.others o.candidate.candidateId fun _ member => absurd member List.not_mem_nil
    exact absurd ((rests.made o rfl).mp (.inl made)) List.not_mem_nil

theorem Reached.congr {others : List ShadowCandidate} (same : ∀ c, c ∈ candidates ↔ c ∈ others) (c : ShadowCandidate) :
    Reached candidates marketEvents c ↔ Reached others marketEvents c := by
  unfold Reached
  simp only [same]

section concluded

variable {reached also : ShadowCandidate → Prop} {others : List ShadowCandidate} {more : List ShadowActionOutcome}

theorem Concluded.congr (h : Concluded platform policy reached candidates outcomes)
    (same : ∀ c, c ∈ candidates ↔ c ∈ others) (alike : ∀ c, reached c ↔ also c) :
    Concluded platform policy also others outcomes where
  known := fun o made => (h.known o made).imp fun c => And.imp_left (same c).mp
  finished := fun c member here => h.finished c ((same c).mpr member) ((alike c).mpr here)
  unfinished := fun c member apart => h.unfinished c ((same c).mpr member) (mt (alike c).mp apart)

theorem mem_byIdentity {o : ShadowActionOutcome} (member : o ∈ byIdentity platform outcomes) : o ∈ outcomes := by
  obtain ⟨key, found⟩ := Dict.mem_values.mp member
  obtain ⟨row, made, same⟩ := List.mem_map.mp (Dict.mem_ofList (Dict.mem_entries.mpr found))
  rw [Prod.mk.injEq] at same
  exact same.2 ▸ made

theorem byIdentity_key {key : String} {o : ShadowActionOutcome}
    (found : (Dict.ofList (outcomes.map fun row => (platform.identity row, row))).get? key = some o) :
    platform.identity o = key := by
  obtain ⟨row, -, same⟩ := List.mem_map.mp (Dict.mem_ofList (Dict.mem_entries.mpr found))
  rw [Prod.mk.injEq] at same
  exact same.2 ▸ same.1

theorem byIdentity_of_mem {o : ShadowActionOutcome} (made : o ∈ outcomes) :
    ∃ o' ∈ byIdentity platform outcomes, platform.identity o' = platform.identity o := by
  have there : ((Dict.ofList (outcomes.map fun row => (platform.identity row, row))).get?
      (platform.identity o)).isSome := by
    rw [Dict.isSome_ofList, List.map_map]
    exact List.mem_map_of_mem made
  obtain ⟨o', found⟩ := Option.isSome_iff_exists.mp there
  exact ⟨o', Dict.mem_values.mpr ⟨_, found⟩, byIdentity_key found⟩

theorem byIdentity_nodup (platform : Platform) (outcomes : List ShadowActionOutcome) :
    (byIdentity platform outcomes).Nodup := by
  unfold byIdentity Dict.values
  have distinct := (Dict.ofList (outcomes.map fun row => (platform.identity row, row))).distinct
  refine List.Nodup.of_map platform.identity ?_
  rw [List.map_map]
  refine (List.map_congr_left fun entry member => ?_) ▸ distinct
  exact (byIdentity_key (Dict.mem_entries.mp member)).symm

theorem Concluded.byIdentity (h : Concluded platform policy reached candidates outcomes)
    (distinguishes : platform.Distinguishes) :
    Concluded platform policy reached candidates (byIdentity platform outcomes) := by
  refine ⟨fun o made => h.known o (mem_byIdentity made), fun c member here => ?_,
    fun c member apart o made => h.unfinished c member apart o (mem_byIdentity made)⟩
  obtain ⟨p, sources, of, each⟩ := h.finished c member here
  refine ⟨p, sources, of, fun o own => ⟨fun made => (each o own).mp (mem_byIdentity made), fun made => ?_⟩⟩
  obtain ⟨o', kept, same⟩ := byIdentity_of_mem ((each o own).mpr made)
  obtain ⟨candidate, action⟩ := distinguishes o' o same
  have made' := (each o' (candidate.trans own)).mp (mem_byIdentity kept)
  rwa [finish_inj of made made' action.symm]

/-- Each candidate has its two outcomes when each is reached. -/
theorem Concluded.once_iff (h : Concluded platform policy reached candidates outcomes) (nodup : outcomes.Nodup) :
    OncePerAction candidates outcomes ↔ ∀ c ∈ candidates, reached c := by
  constructor
  · intro once c member
    by_contra apart
    obtain ⟨o, ⟨made, rfl, -⟩, -⟩ := once.once c member .passiveBuy
    exact h.unfinished _ member apart o made rfl
  · intro all
    refine ⟨nodup, fun o made => ?_, fun c member action => ?_⟩
    · obtain ⟨c, member, own⟩ := h.known o made
      obtain ⟨p, sources, of, each⟩ := h.finished c member (all c member)
      rw [mem_finish ((each o own).mp made), of.candidate]
      exact member
    · obtain ⟨p, sources, of, each⟩ := h.finished c member (all c member)
      have own {o : ShadowActionOutcome} (made : o ∈ finish platform policy p sources) : o.candidate = c :=
        (mem_finish made).trans of.candidate
      have here {o : ShadowActionOutcome} (made : o ∈ finish platform policy p sources) : o ∈ outcomes :=
        (each o (congrArg ShadowCandidate.candidateId (own made))).mpr made
      have only {o : ShadowActionOutcome} (made : o ∈ finish platform policy p sources) (acts : o.action = action) :
          ∃! o, o ∈ outcomes ∧ o.candidate = c ∧ o.action = action := by
        refine ⟨o, ⟨here made, own made, acts⟩, ?_⟩
        rintro o' ⟨made', same, acts'⟩
        exact finish_inj of ((each o' (congrArg ShadowCandidate.candidateId same)).mp made') made
          (acts'.trans acts.symm)
      cases action with
      | passiveBuy => exact only List.mem_cons_self of.passive.1
      | aggressiveBuy => exact only (List.mem_cons_of_mem _ List.mem_cons_self) of.aggressive.1

theorem Concluded.append (first : Concluded platform policy reached candidates outcomes)
    (next : Concluded platform policy also others more)
    (apart : ∀ c ∈ candidates, ∀ d ∈ others, c.candidateId ≠ d.candidateId) :
    Concluded platform policy (fun c => c ∈ candidates ∧ reached c ∨ c ∈ others ∧ also c) (candidates ++ others)
      (outcomes ++ more) := by
  have foreign : ∀ c ∈ candidates, ∀ o ∈ more, o.candidate.candidateId ≠ c.candidateId := by
    intro c member o made own
    obtain ⟨d, member', same⟩ := next.known o made
    exact apart c member d member' (own.symm.trans same)
  have foreign' : ∀ c ∈ others, ∀ o ∈ outcomes, o.candidate.candidateId ≠ c.candidateId := by
    intro c member o made own
    obtain ⟨d, member', same⟩ := first.known o made
    exact apart d member' c member (same.symm.trans own)
  refine ⟨fun o made => ?_, fun c _ here => ?_, fun c member there o made own => ?_⟩
  · rcases List.mem_append.mp made with made | made
    · exact (first.known o made).imp fun _ => And.imp_left (List.mem_append_left _)
    · exact (next.known o made).imp fun _ => And.imp_left (List.mem_append_right _)
  · rcases here with ⟨member, here⟩ | ⟨member, here⟩
    · obtain ⟨p, sources, of, each⟩ := first.finished c member here
      refine ⟨p, sources, of, fun o own => ?_⟩
      rw [List.mem_append, or_iff_left fun made => foreign c member o made own]
      exact each o own
    · obtain ⟨p, sources, of, each⟩ := next.finished c member here
      refine ⟨p, sources, of, fun o own => ?_⟩
      rw [List.mem_append, or_iff_right fun made => foreign' c member o made own]
      exact each o own
  · push Not at there
    rcases List.mem_append.mp member with member | member <;> rcases List.mem_append.mp made with made | made
    · exact first.unfinished c member (there.1 member) o made own
    · exact foreign c member o made own
    · exact foreign' c member o made own
    · exact next.unfinished c member (there.2 member) o made own

end concluded

/-- A simulation that returns is concluded, and its outcomes are distinct. -/
theorem simulateCandidates_concluded (distinguishes : platform.Distinguishes)
    (distinct : (candidates.map ShadowCandidate.candidateId).Nodup)
    (ordered : marketEvents.Pairwise fun first next => first.receivedAtNs ≤ next.receivedAtNs)
    (ran : simulateCandidates platform policy feed candidates marketEvents = some outcomes) :
    Concluded platform policy (Reached candidates marketEvents) candidates outcomes ∧ outcomes.Nodup := by
  obtain ⟨s, events, ran⟩ := Option.bind_eq_some_iff.mp ran
  obtain ⟨results, closed, rfl⟩ := Option.bind_eq_some_iff.mp ran |>.imp fun _ h => h.imp_right Option.some.inj
  have perm : (bySendTime candidates).Perm candidates := List.perm_insertionSort _ candidates
  have start : Simulation.Underway platform policy (bySendTime candidates) [] []
      ({ engine := feed.engine, pending := bySendTime candidates } : Simulation σ) :=
    ⟨.start _, rfl, rfl, fun _ member => absurd member List.not_mem_nil⟩
  have placed := (perm.map ShadowCandidate.candidateId).nodup_iff.mpr distinct
  obtain ⟨added, reached⟩ := start.run distinguishes placed events
  have concluded := reached.close distinguishes placed ordered closed
  have same (c : ShadowCandidate) := perm.mem_iff (a := c)
  exact ⟨(concluded.congr same (Reached.congr same)).byIdentity distinguishes, byIdentity_nodup _ _⟩

/-! ### Clusters of a database -/

theorem clustersFrom_candidates (last : Cluster) (windows : List SimulationWindow) :
    (clustersFrom last windows).flatMap Cluster.candidates =
      last.candidates ++ windows.map SimulationWindow.candidate := by
  induction windows generalizing last with
  | nil => simp [clustersFrom]
  | cons w rest ih =>
    unfold clustersFrom
    split
    next => simp [ih]
    next => simp [ih, SimulationWindow.opened]

/-- Every candidate is in a cluster, once. -/
theorem clusters_perm (candidates : List ShadowCandidate) :
    ((clusters candidates).flatMap Cluster.candidates).Perm candidates := by
  have perm := (List.perm_insertionSort SimulationWindow.before (candidates.map window)).map
    SimulationWindow.candidate
  have own : (candidates.map window).map SimulationWindow.candidate = candidates := by
    simp [window, Function.comp_def]
  rw [own] at perm
  unfold clusters
  refine List.Perm.trans (List.Perm.of_eq ?_) perm
  split
  next none => simp [none]
  next w rest some => simp [some, clustersFrom_candidates, SimulationWindow.opened]

variable {readMarketEvents : (start end_ : Instant) → List MarketEvent}

/-- A candidate is reached in its cluster. -/
def Cluster.Reaches (readMarketEvents : (start end_ : Instant) → List MarketEvent) (cluster : Cluster)
    (c : ShadowCandidate) : Prop :=
  Reached cluster.candidates (readMarketEvents cluster.start (cluster.end_ + second)) c

theorem clusters_concluded {all : List Cluster} {each : List (List ShadowActionOutcome)}
    (distinguishes : platform.Distinguishes)
    (distinct : ((all.flatMap Cluster.candidates).map ShadowCandidate.candidateId).Nodup)
    (ordered : ∀ start end_,
      (readMarketEvents start end_).Pairwise fun first next => first.receivedAtNs ≤ next.receivedAtNs)
    (ran : all.mapM (Cluster.simulate platform policy feed readMarketEvents) = some each) :
    Concluded platform policy (fun c => ∃ cluster ∈ all, c ∈ cluster.candidates ∧ cluster.Reaches readMarketEvents c)
      (all.flatMap Cluster.candidates) each.flatten := by
  induction all generalizing each with
  | nil =>
    obtain rfl := Option.some.inj ran
    exact ⟨fun _ made => absurd made List.not_mem_nil, fun _ member => absurd member List.not_mem_nil,
      fun _ member => absurd member List.not_mem_nil⟩
  | cons cluster rest ih =>
    rw [List.mapM_cons] at ran
    obtain ⟨first, done, ran⟩ := Option.bind_eq_some_iff.mp ran
    obtain ⟨later, next, rfl⟩ := Option.bind_eq_some_iff.mp ran |>.imp fun _ h => h.imp_right Option.some.inj
    rw [List.flatMap_cons, List.map_append, List.nodup_append] at distinct
    obtain ⟨own, others, apart⟩ := distinct
    have concluded := (simulateCandidates_concluded distinguishes own (ordered _ _) done).1.append (ih others next)
      fun c member d member' => apart _ (List.mem_map_of_mem member) _ (List.mem_map_of_mem member')
    refine concluded.congr (fun _ => Iff.rfl) fun c => ?_
    rw [List.exists_mem_cons_iff]
    refine or_congr_right ⟨And.right, fun here => ⟨?_, here⟩⟩
    obtain ⟨cluster, member, inside, -⟩ := here
    exact List.mem_flatMap.mpr ⟨cluster, member, inside⟩

/-- A simulation, and one of a database, comes to two outcomes for each candidate exactly when no horizon
lies more than ten seconds after all the events and candidates it was simulated with. -/
theorem simulation_complete_iff (policy : ShadowPolicy) (feed : FeatureFeed σ)
    (distinguishes : platform.Distinguishes) :
    (∀ candidates marketEvents outcomes, (candidates.map ShadowCandidate.candidateId).Nodup →
      marketEvents.Pairwise (fun first next => first.receivedAtNs ≤ next.receivedAtNs) →
      simulateCandidates platform policy feed candidates marketEvents = some outcomes →
      (OncePerAction candidates outcomes ↔ ∀ c ∈ candidates, Reached candidates marketEvents c)) ∧
    ∀ readMarketEvents candidates outcomes, (candidates.map ShadowCandidate.candidateId).Nodup →
      (∀ start end_,
        (readMarketEvents start end_).Pairwise fun first next => first.receivedAtNs ≤ next.receivedAtNs) →
      simulateDatabaseCandidates platform policy feed readMarketEvents candidates = some outcomes →
      (OncePerAction candidates outcomes ↔ ∀ cluster ∈ clusters candidates, ∀ c ∈ cluster.candidates,
        cluster.Reaches readMarketEvents c) := by
  constructor
  · intro candidates marketEvents outcomes distinct ordered ran
    obtain ⟨concluded, nodup⟩ := simulateCandidates_concluded distinguishes distinct ordered ran
    exact concluded.once_iff nodup
  · intro readMarketEvents candidates outcomes distinct ordered ran
    obtain ⟨each, done, rfl⟩ := Option.bind_eq_some_iff.mp ran |>.imp fun _ h => h.imp_right Option.some.inj
    have perm := clusters_perm candidates
    have placed := (perm.map ShadowCandidate.candidateId).nodup_iff.mpr distinct
    have concluded := ((clusters_concluded distinguishes placed ordered done).congr
      (fun c => perm.mem_iff) fun c => Iff.rfl).byIdentity distinguishes
    rw [concluded.once_iff (byIdentity_nodup _ _)]
    have disjoint := (List.nodup_flatMap.mp (List.Nodup.of_map _ placed)).2
    have symmetric : Std.Symm (Function.onFun List.Disjoint Cluster.candidates) := ⟨fun _ _ h => List.Disjoint.symm h⟩
    constructor
    · intro all cluster member c inside
      obtain ⟨other, member', inside', reaches⟩ :=
        all c (perm.mem_iff.mp (List.mem_flatMap.mpr ⟨cluster, member, inside⟩))
      have same : cluster = other := by
        by_contra apart
        exact disjoint.forall member member' apart inside inside'
      exact same ▸ reaches
    · intro all c member
      obtain ⟨cluster, member', inside⟩ := List.mem_flatMap.mp (perm.mem_iff.mpr member)
      exact ⟨cluster, member', inside, all cluster member' c inside⟩

section simulated

/-- A digest that is the action and the candidate. -/
def actionPlatform : Platform where
  identity o := (if o.action = .passiveBuy then "p" else "a") ++ o.candidate.candidateId
  sourceDigest sources := ",".intercalate sources
  olderThan ageNs milliseconds := milliseconds * 1000000 < ageNs

theorem actionPlatform_distinguishes : actionPlatform.Distinguishes := by
  intro o o' same
  have letters := congrArg String.toList same
  unfold actionPlatform at letters
  cases first : o.action <;> cases other : o'.action <;> simp [first, other] at letters
  · exact ⟨String.toList_injective letters, rfl⟩
  · exact ⟨String.toList_injective letters, rfl⟩

def restoringFeed : FeatureFeed Unit where
  engine := ()
  restoreReplaySnapshot _ _ := some ()
  onEvent _ _ := some ((), true)
  quote _ _ := none
  depthTimestampNs _ _ := none
  freshDepth _ _ _ _ _ := []

/-- A candidate with a horizon of twenty seconds. -/
def distantCandidate : ShadowCandidate :=
  { earlyCandidate with horizonSeconds := 20, horizonPositive := by decide +kernel }

theorem simulation_complete_iff_early :
    (∃ outcomes, simulateCandidates actionPlatform samplePolicy restoringFeed [earlyCandidate] [] = some outcomes ∧
      OncePerAction [earlyCandidate] outcomes) ∧
    ∃ outcomes, simulateDatabaseCandidates actionPlatform samplePolicy restoringFeed (fun _ _ => [])
      [earlyCandidate] = some outcomes ∧ OncePerAction [earlyCandidate] outcomes := by
  have complete := simulation_complete_iff samplePolicy restoringFeed actionPlatform_distinguishes
  have near (members : List ShadowCandidate) (here : earlyCandidate ∈ members) :
      Reached members [] earlyCandidate := .inr ⟨_, here, by decide +kernel⟩
  obtain ⟨outcomes, ran⟩ := Option.isSome_iff_exists.mp (show
    (simulateCandidates actionPlatform samplePolicy restoringFeed [earlyCandidate] []).isSome = true by
      decide +kernel)
  obtain ⟨outcomes', ran'⟩ := Option.isSome_iff_exists.mp (show
    (simulateDatabaseCandidates actionPlatform samplePolicy restoringFeed (fun _ _ => [])
      [earlyCandidate]).isSome = true by decide +kernel)
  refine ⟨⟨outcomes, ran, (complete.1 [earlyCandidate] [] outcomes (List.nodup_singleton _) .nil ran).mpr ?_⟩,
    outcomes', ran', (complete.2 _ [earlyCandidate] outcomes' (List.nodup_singleton _) (fun _ _ => .nil) ran').mpr ?_⟩
  · exact List.forall_mem_singleton.mpr (near _ List.mem_cons_self)
  · intro cluster member c inside
    obtain rfl := List.mem_singleton.mp ((clusters_perm _).mem_iff.mp (List.mem_flatMap.mpr ⟨cluster, member, inside⟩))
    exact near _ inside

/-- A candidate alone, with a horizon of twenty seconds, has no outcome. -/
theorem simulation_forgets : ¬∀ (platform : Platform) (policy : ShadowPolicy) (feed : FeatureFeed Unit)
    (candidates : List ShadowCandidate) (marketEvents : List MarketEvent) (outcomes : List ShadowActionOutcome),
      platform.Distinguishes → (candidates.map ShadowCandidate.candidateId).Nodup →
      marketEvents.Pairwise (fun first next => first.receivedAtNs ≤ next.receivedAtNs) →
      simulateCandidates platform policy feed candidates marketEvents = some outcomes →
      OncePerAction candidates outcomes := by
  intro complete
  have none : (simulateCandidates actionPlatform samplePolicy restoringFeed [distantCandidate] []).map List.length =
      some 0 := by decide +kernel
  obtain ⟨outcomes, ran, empty⟩ := Option.map_eq_some_iff.mp none
  obtain rfl := List.eq_nil_of_length_eq_zero empty
  have once := complete actionPlatform samplePolicy restoringFeed [distantCandidate] [] []
    actionPlatform_distinguishes (List.nodup_singleton _) .nil ran
  obtain ⟨o, ⟨made, -⟩, -⟩ := once.once distantCandidate List.mem_cons_self .passiveBuy
  cases made

end simulated

end TradeAgent.Scalp.Shadow
