import Mathlib.Data.Finset.Sort
import Mathlib.Data.Prod.Lex
import Mathlib.Data.String.Basic
import TradeAgent.EventEngine
import TradeAgent.IntradayFeatures
import TradeAgent.Library.History
import TradeAgent.Library.Roster
import TradeAgent.PortfolioEngine

/-! The regime-filtered momentum strategy: frame after frame it drops what lost its momentum or turned volatile, and
with nothing left it picks the strongest. What it holds at the end of any run of frames and quotes is what it picked
once and had no reason to drop since. -/
namespace TradeAgent.Intraday

open Rounding Shadow Portfolio
open Event (Calendar SessionPhase SessionGate)

structure IntradayStrategyConfig where
  openingRangeMinutes : ℤ
  breakoutBufferBps : ℚ
  targetWeight : Weight
  topN : ℕ
  minimumMomentum15m : ℚ
  minimumMomentum30m : ℚ
  minimumMomentum60m : ℚ
  minimumRelativeVolume : ℚ
  maximumSpreadBps : ℚ
  maximumRealizedVolatility : ℚ
  minutesRange : 10 ≤ openingRangeMinutes ∧ openingRangeMinutes ≤ 60
  bufferRange : 0 ≤ breakoutBufferBps ∧ breakoutBufferBps ≤ 100
  weightRange : 0 < targetWeight.value ∧ targetWeight.value ≤ 5 / 1000
  topRange : 1 ≤ topN ∧ topN ≤ 2
  volumePositive : 0 < minimumRelativeVolume
  spreadPositive : 0 < maximumSpreadBps
  volatilityPositive : 0 < maximumRealizedVolatility

/-- The features and the exchange calendar, in one zone. -/
structure StrategySetup (φ : Type) extends FeatureSetup φ where
  calendar : Calendar
  sameZone : calendar.localDate = date

/-! ## What a strategy asks for -/

section intents

variable (config : IntradayStrategyConfig)

/-- At most the members of a roster are given a weight. -/
theorem sum_members_le {members : Finset String} {symbols : List String} (distinct : symbols.Nodup) {weight : ℚ}
    (nonneg : 0 ≤ weight) :
    (symbols.map fun symbol => if symbol ∈ members then weight else 0).sum ≤ members.card * weight := by
  have counted : (symbols.map fun symbol => if symbol ∈ members then weight else 0).sum =
      (symbols.filter fun symbol => symbol ∈ members).length * weight := by
    clear distinct
    induction symbols with
    | nil => simp
    | cons symbol rest ih =>
      by_cases inside : symbol ∈ members
      · simp [ih, inside]
        ring
      · simp [ih, inside]
  have few : (symbols.filter fun symbol => symbol ∈ members).length ≤ members.card := by
    rw [← List.toFinset_card_of_nodup (distinct.filter _)]
    apply Finset.card_le_card
    intro symbol member
    simpa using (List.mem_filter.mp (List.mem_toFinset.mp member)).2
  rw [counted]
  have fewer : ((symbols.filter fun symbol => symbol ∈ members).length : ℚ) ≤ members.card := by exact_mod_cast few
  exact mul_le_mul_of_nonneg_right fewer nonneg

def weightFor (active : Roster String config.topN) (symbol : String) : Weight :=
  if symbol ∈ active.members then config.targetWeight else .zero

def targets (active : Roster String config.topN) (frame : UniverseFrame) : Dict String Weight :=
  .ofList (frame.bars.map fun bar => (bar.symbol, weightFor config active bar.symbol))

variable {config}

theorem targets_distinct (active : Roster String config.topN) (frame : UniverseFrame) :
    ((frame.bars.map fun bar => (bar.symbol, weightFor config active bar.symbol)).map Prod.fst).Nodup := by
  simpa [List.map_map, Function.comp_def] using frame.distinct

theorem targets_values (active : Roster String config.topN) (frame : UniverseFrame) :
    (targets config active frame).values = frame.bars.map fun bar => weightFor config active bar.symbol := by
  simp [targets, Dict.values, Dict.ofList_entries (targets_distinct active frame)]

theorem targets_get? (active : Roster String config.topN) (frame : UniverseFrame) (symbol : String) (weight : Weight) :
    (targets config active frame).get? symbol = some weight ↔
      (∃ bar ∈ frame.bars, bar.symbol = symbol) ∧ weight = weightFor config active symbol := by
  rw [← Dict.mem_entries, targets, Dict.ofList_entries (targets_distinct active frame), List.mem_map]
  constructor
  · rintro ⟨bar, member, same⟩
    cases same
    exact ⟨⟨bar, member, rfl⟩, rfl⟩
  · rintro ⟨⟨bar, member, rfl⟩, rfl⟩
    exact ⟨bar, member, rfl⟩

theorem eq_weightFor (active : Roster String config.topN) (symbol : String) (weight : Weight) :
    weight = weightFor config active symbol ↔ symbol ∈ active.members ∧ weight = config.targetWeight ∨
      symbol ∉ active.members ∧ weight = .zero := by
  unfold weightFor
  split <;> simp [*]

theorem weightFor_range (active : Roster String config.topN) (symbol : String) :
    0 ≤ (weightFor config active symbol).value ∧ (weightFor config active symbol).value ≤ 1 := by
  obtain ⟨positive, small⟩ := config.weightRange
  unfold weightFor
  split
  · constructor <;> linarith
  · simp [Weight.zero]

theorem targets_sum (active : Roster String config.topN) (frame : UniverseFrame) :
    ((targets config active frame).values.map Weight.value).sum ≤ 1 := by
  obtain ⟨positive, small⟩ := config.weightRange
  have few : (active.members.card : ℚ) ≤ 2 := by exact_mod_cast active.few.trans config.topRange.2
  have values : (targets config active frame).values.map Weight.value =
      (frame.bars.map MarketBar.symbol).map fun symbol =>
        if symbol ∈ active.members then config.targetWeight.value else 0 := by
    rw [targets_values, List.map_map, List.map_map]
    apply List.map_congr_left
    intro bar _
    simp only [Function.comp, weightFor]
    split <;> rfl
  rw [values]
  have bound : (_ : List ℚ).sum ≤ active.members.card * config.targetWeight.value :=
    sum_members_le frame.distinct positive.le
  nlinarith

def intentOf (strategyId rationale : String) (active : Roster String config.topN) (frame : UniverseFrame) :
    PortfolioIntent where
  strategyId := strategyId
  timestamp := frame.timestamp
  targetWeights := targets config active frame
  rationale := rationale
  weightRange := by
    intro weight member
    rw [targets_values] at member
    obtain ⟨bar, _, rfl⟩ := List.mem_map.mp member
    exact weightFor_range active bar.symbol
  weightSum := targets_sum active frame

/-- The members in order, or cash. -/
def activeText (active : Roster String config.topN) : String :=
  if active.members = ∅ then "cash" else ",".intercalate (active.members.sort (· ≤ ·))

end intents

/-! ## Momentum -/

variable {φ : Type} (setup : StrategySetup φ) (config : IntradayStrategyConfig)

/-- The bars of a frame, each with what it makes of the engine. -/
def observe : FeatureEngine φ → List MarketBar → List IntradayFeatureVector × FeatureEngine φ
  | e, [] => ([], e)
  | e, bar :: rest =>
    let (vector, e) := e.onBar setup.toFeatureSetup bar
    let (vectors, e) := observe e rest
    (vector :: vectors, e)

def IntradayFeatureVector.lasts (v : IntradayFeatureVector) : Bool :=
  v.momentum30m.any (0 < ·) && v.regime ≠ .highVolatility

def eligible (v : IntradayFeatureVector) : Bool :=
  v.regime = .trending && v.momentum15m.any (config.minimumMomentum15m ≤ ·) &&
    v.momentum30m.any (config.minimumMomentum30m ≤ ·) && v.momentum60m.any (config.minimumMomentum60m ≤ ·) &&
    v.relativeVolume.all (config.minimumRelativeVolume ≤ ·) && v.spreadBps.all (· ≤ config.maximumSpreadBps) &&
    v.realizedVolatility.all (· ≤ config.maximumRealizedVolatility)

/-- The strongest first, and by name. -/
def strength (v : IntradayFeatureVector) : ℚ ×ₗ String := toLex (-(v.momentum60m.getD 0), v.symbol)

structure Momentum (φ : Type) (config : IntradayStrategyConfig) where
  features : FeatureEngine φ := {}
  active : Roster String config.topN := .empty

namespace Momentum

variable {config}

/-- What has no momentum any more or turned volatile is dropped. -/
def kept (vectors : List IntradayFeatureVector) (active : Roster String config.topN) : Roster String config.topN :=
  active.keep fun symbol => (vectors.find? (·.symbol = symbol)).any IntradayFeatureVector.lasts

def select (phase : SessionPhase) (vectors : List IntradayFeatureVector) (active : Roster String config.topN) :
    Roster String config.topN :=
  if phase = .flatten then .empty
  else if phase = .entry ∧ active.members = ∅ then
    .pick ((Ranking.ranked strength (vectors.filter fun v => eligible config v)).map (·.symbol))
  else active

def intent (active : Roster String config.topN) (frame : UniverseFrame) : PortfolioIntent :=
  intentOf "regime-filtered-intraday-momentum-v1"
    ("regime-filtered multi-horizon momentum; active=" ++ activeText active) active frame

/-- An active symbol without a bar raises. -/
def onFrame (m : Momentum φ config) (frame : UniverseFrame) : Option (PortfolioIntent × Momentum φ config) :=
  let gate := setup.calendar.gate frame.timestamp
  let (vectors, features) := observe setup m.features frame.bars
  if ∃ symbol ∈ m.active.members, vectors.find? (·.symbol = symbol) = none then none
  else
    let active := select gate.phase vectors (kept vectors m.active)
    some (intent active frame, ⟨features, active⟩)

def onQuote (m : Momentum φ config) (quote : MarketQuote) : Momentum φ config :=
  { m with features := m.features.onQuote quote }

end Momentum

/-- A frame of the symbols of the first, as the engine demands. -/
structure Panel (names : Finset String) extends UniverseFrame where
  complete : ∀ name, name ∈ names ↔ ∃ bar ∈ bars, bar.symbol = name

/-- The frames, and the quotes between them. -/
inductive Market (names : Finset String) where
  | quote (quote : MarketQuote)
  | frame (panel : Panel names)

variable {names : Finset String}

def Momentum.step (m : Momentum φ config) : Market names → Option (Momentum φ config)
  | .quote quote => some (m.onQuote quote)
  | .frame panel => (m.onFrame setup panel.toUniverseFrame).map Prod.snd

def Momentum.run (past : List (Market names)) : Option (Momentum φ config) :=
  past.foldlM (Momentum.step setup config) {}

/-! ## What was picked and not dropped since -/

def Market.inputs : Market names → List Input
  | .quote q => [.quote q]
  | .frame panel => panel.bars.map .bar

def stream (past : List (Market names)) : List Input := past.flatMap Market.inputs

/-- The features of a bar after a stream of bars and quotes. -/
def featuresAt (past : List (Market names)) (bar : MarketBar) : IntradayFeatureVector :=
  ((Machine.run (FeatureEngine.step setup.toFeatureSetup) {} (stream past)).onBar setup.toFeatureSetup bar).1

def phaseAt (frame : UniverseFrame) : SessionPhase := (setup.calendar.gate frame.timestamp).phase

/-- A symbol still has momentum, and no high volatility. -/
def Lasts (past : List (Market names)) (frame : UniverseFrame) (symbol : String) : Prop :=
  ∃ bar ∈ frame.bars, bar.symbol = symbol ∧ (featuresAt setup past bar).lasts = true

def Lasting (symbol : String) (past : List (Market names)) : Market names → Prop
  | .quote _ => True
  | .frame panel =>
    phaseAt setup panel.toUniverseFrame ≠ .flatten ∧ Lasts setup past panel.toUniverseFrame symbol

/-- In the entry window, with none left of what was held, a symbol is eligible and among the strongest that are. -/
def Picked (symbol : String) (past : List (Market names)) : Market names → Prop
  | .quote _ => False
  | .frame panel => phaseAt setup panel.toUniverseFrame = .entry ∧
    (∃ m, Momentum.run setup config past = some m ∧
      ∀ other ∈ m.active.members, ¬Lasts setup past panel.toUniverseFrame other) ∧
    ∃ bar ∈ panel.bars, bar.symbol = symbol ∧ eligible config (featuresAt setup past bar) = true ∧
      panel.bars.countP (fun other => eligible config (featuresAt setup past other) &&
        decide (strength (featuresAt setup past other) < strength (featuresAt setup past bar))) < config.topN

variable {setup config}

theorem onBar_symbol (e : FeatureEngine φ) (bar : MarketBar) :
    (e.onBar setup.toFeatureSetup bar).1.symbol = bar.symbol := rfl

/-- The bar of another symbol is nothing to the features of a bar. -/
theorem onBar_apart (e : FeatureEngine φ) {bar other : MarketBar} (apart : other.symbol ≠ bar.symbol) :
    ((e.onBar setup.toFeatureSetup other).2.onBar setup.toFeatureSetup bar).1 =
      (e.onBar setup.toFeatureSetup bar).1 := by
  simp [FeatureEngine.onBar, FeatureEngine.current, Dict.get?_set, Dict.getD_set, apart]

theorem observe_features (e : FeatureEngine φ) (bars : List MarketBar) :
    (observe setup e bars).2 = Machine.run (FeatureEngine.step setup.toFeatureSetup) e (bars.map .bar) := by
  induction bars generalizing e with
  | nil => rfl
  | cons bar rest ih => exact ih _

theorem observe_vectors (e : FeatureEngine φ) {bars : List MarketBar} (distinct : (bars.map MarketBar.symbol).Nodup) :
    (observe setup e bars).1 = bars.map fun bar => (e.onBar setup.toFeatureSetup bar).1 := by
  induction bars generalizing e with
  | nil => rfl
  | cons bar rest ih =>
    obtain ⟨fresh, others⟩ := List.nodup_cons.mp distinct
    have tail : (observe setup (e.onBar setup.toFeatureSetup bar).2 rest).1 =
        rest.map fun later => (e.onBar setup.toFeatureSetup later).1 := by
      rw [ih _ others]
      apply List.map_congr_left
      intro later member
      apply onBar_apart
      intro same
      exact fresh (List.mem_map.mpr ⟨later, member, same.symm⟩)
    simp only [observe, tail, List.map_cons]

theorem find_vector {bars : List MarketBar} (distinct : (bars.map MarketBar.symbol).Nodup)
    {vectorOf : MarketBar → IntradayFeatureVector} (named : ∀ bar, (vectorOf bar).symbol = bar.symbol) {bar : MarketBar}
    (member : bar ∈ bars) : (bars.map vectorOf).find? (·.symbol = bar.symbol) = some (vectorOf bar) := by
  induction bars with
  | nil => simp at member
  | cons first rest ih =>
    obtain ⟨fresh, others⟩ := List.nodup_cons.mp distinct
    rcases List.mem_cons.mp member with rfl | later
    · simp [named]
    · have apart : first.symbol ≠ bar.symbol := by
        intro same
        exact fresh (List.mem_map.mpr ⟨bar, later, same.symm⟩)
      simp [named, apart, ih others later]

variable (setup) in
/-- A state that a run reaches. -/
structure Reached (past : List (Market names)) (m : Momentum φ config) : Prop where
  run : Momentum.run setup config past = some m
  features : m.features = Machine.run (FeatureEngine.step setup.toFeatureSetup) {} (stream past)
  known : m.active.members ⊆ names

theorem run_snoc (past : List (Market names)) (input : Market names) : Momentum.run setup config (past ++ [input]) =
    (Momentum.run setup config past).bind fun m => m.step setup config input := by
  simp only [Momentum.run, List.foldlM_append, List.foldlM_cons, List.foldlM_nil, Option.bind_eq_bind]
  simp

variable {past : List (Market names)} {m : Momentum φ config}

theorem Reached.onQuote (h : Reached setup past m) (q : MarketQuote) :
    Reached setup (past ++ [.quote q]) (m.onQuote q) := by
  constructor
  · simp [run_snoc, h.run, Momentum.step]
  · simp [Momentum.onQuote, stream, Market.inputs, Machine.run_append, FeatureEngine.step, h.features]
  · exact h.known

theorem Reached.vectors (h : Reached setup past m) (frame : UniverseFrame) :
    (observe setup m.features frame.bars).1 = frame.bars.map (featuresAt setup past) := by
  rw [observe_vectors m.features frame.distinct, h.features]
  rfl

theorem Reached.find (h : Reached setup past m) (frame : UniverseFrame) {bar : MarketBar} (member : bar ∈ frame.bars) :
    (observe setup m.features frame.bars).1.find? (·.symbol = bar.symbol) = some (featuresAt setup past bar) := by
  rw [h.vectors]
  exact find_vector frame.distinct (fun _ => rfl) member

/-- The test by which a frame keeps a symbol. -/
theorem Reached.lasts_iff (h : Reached setup past m) (panel : Panel names) {symbol : String}
    (known : symbol ∈ names) :
    ((observe setup m.features panel.bars).1.find? (·.symbol = symbol)).any IntradayFeatureVector.lasts = true ↔
      Lasts setup past panel.toUniverseFrame symbol := by
  obtain ⟨bar, member, rfl⟩ := (panel.complete symbol).mp known
  rw [h.find panel.toUniverseFrame member, Option.any_some]
  constructor
  · intro lasts
    exact ⟨bar, member, rfl, lasts⟩
  · rintro ⟨other, inside, same, lasts⟩
    have found := h.find panel.toUniverseFrame inside
    rw [same, h.find panel.toUniverseFrame member] at found
    rw [Option.some.inj found]
    exact lasts

theorem mem_strongest (past : List (Market names)) (frame : UniverseFrame) (symbol : String) :
    symbol ∈ ((Ranking.ranked strength ((frame.bars.map (featuresAt setup past)).filter fun v => eligible config v)).map
        (·.symbol)).take config.topN ↔
      ∃ bar ∈ frame.bars, bar.symbol = symbol ∧ eligible config (featuresAt setup past bar) = true ∧
        frame.bars.countP (fun other => eligible config (featuresAt setup past other) &&
          decide (strength (featuresAt setup past other) < strength (featuresAt setup past bar))) < config.topN := by
  have distinct : (((frame.bars.map (featuresAt setup past)).filter fun v => eligible config v).map strength).Nodup := by
    have names : ((frame.bars.map (featuresAt setup past)).map IntradayFeatureVector.symbol).Nodup := by
      simpa [List.map_map, Function.comp_def, featuresAt, onBar_symbol] using frame.distinct
    apply List.Nodup.of_map fun key => (ofLex key).2
    rw [List.map_map]
    exact names.sublist (List.filter_sublist.map _)
  have counted (v : IntradayFeatureVector) :
      ((frame.bars.map (featuresAt setup past)).filter fun v => eligible config v).countP
          (fun w => decide (strength w < strength v)) =
        frame.bars.countP fun other => eligible config (featuresAt setup past other) &&
          decide (strength (featuresAt setup past other) < strength v) := by
    rw [List.countP_filter, List.countP_map]
    congr 1
    funext other
    simp [Bool.and_comm]
  rw [← List.map_take, List.mem_map]
  constructor
  · rintro ⟨v, first, rfl⟩
    obtain ⟨inside, ahead⟩ := (Ranking.mem_take_ranked distinct _ _).mp first
    obtain ⟨observed, fit⟩ := List.mem_filter.mp inside
    obtain ⟨bar, member, rfl⟩ := List.mem_map.mp observed
    rw [counted] at ahead
    exact ⟨bar, member, rfl, fit, ahead⟩
  · rintro ⟨bar, member, rfl, fit, ahead⟩
    refine ⟨featuresAt setup past bar, (Ranking.mem_take_ranked distinct _ _).mpr ⟨?_, ?_⟩, rfl⟩
    · exact List.mem_filter.mpr ⟨List.mem_map_of_mem member, fit⟩
    · rw [counted]
      exact ahead

theorem Reached.mem_select (h : Reached setup past m) (panel : Panel names) (symbol : String) :
    symbol ∈ (Momentum.select (phaseAt setup panel.toUniverseFrame) (panel.bars.map (featuresAt setup past))
        (Momentum.kept (panel.bars.map (featuresAt setup past)) m.active)).members ↔
      symbol ∈ m.active.members ∧ Lasting setup symbol past (.frame panel) ∨
        Picked setup config symbol past (.frame panel) := by
  have kept (other : String) : other ∈ (Momentum.kept (panel.bars.map (featuresAt setup past)) m.active).members ↔
      other ∈ m.active.members ∧ Lasts setup past panel.toUniverseFrame other := by
    rw [Momentum.kept, Roster.mem_keep, ← h.vectors]
    exact and_congr_right fun member => h.lasts_iff panel (h.known member)
  have idle : (Momentum.kept (panel.bars.map (featuresAt setup past)) m.active).members = ∅ ↔
      ∀ other ∈ m.active.members, ¬Lasts setup past panel.toUniverseFrame other := by
    simp [Finset.eq_empty_iff_forall_notMem, kept]
  have alone : (∃ m, Momentum.run setup config past = some m ∧
      ∀ other ∈ m.active.members, ¬Lasts setup past panel.toUniverseFrame other) ↔
        ∀ other ∈ m.active.members, ¬Lasts setup past panel.toUniverseFrame other := by
    simp [h.run]
  simp only [Momentum.select, Lasting, Picked, alone]
  by_cases flat : phaseAt setup panel.toUniverseFrame = .flatten
  · simp [flat]
  · by_cases entry : phaseAt setup panel.toUniverseFrame = .entry
    · by_cases rest : ∀ other ∈ m.active.members, ¬Lasts setup past panel.toUniverseFrame other
      · rw [if_neg flat, if_pos ⟨entry, idle.mpr rest⟩, Roster.mem_pick, mem_strongest]
        constructor
        · exact fun first => .inr ⟨entry, rest, first⟩
        · rintro (⟨held, _, lasts⟩ | ⟨_, _, first⟩)
          · exact absurd lasts (rest symbol held)
          · exact first
      · rw [if_neg flat, if_neg fun both => rest (idle.mp both.2), kept]
        simp [rest, flat]
    · rw [if_neg flat, if_neg fun both => entry both.1, kept]
      simp [entry, flat]

/-- A frame is taken without an error, and leaves active what lasts of what was, or else what it picks. -/
theorem Reached.onFrame (h : Reached setup past m) (panel : Panel names) :
    ∃ active features,
      m.onFrame setup panel.toUniverseFrame = some (Momentum.intent active panel.toUniverseFrame, ⟨features, active⟩) ∧
      Reached setup (past ++ [.frame panel]) ⟨features, active⟩ ∧
      ∀ symbol, symbol ∈ active.members ↔ symbol ∈ m.active.members ∧ Lasting setup symbol past (.frame panel) ∨
        Picked setup config symbol past (.frame panel) := by
  have present : ¬∃ symbol ∈ m.active.members,
      (observe setup m.features panel.bars).1.find? (·.symbol = symbol) = none := by
    rintro ⟨symbol, member, missing⟩
    obtain ⟨bar, inside, rfl⟩ := (panel.complete symbol).mp (h.known member)
    rw [h.find panel.toUniverseFrame inside] at missing
    cases missing
  obtain ⟨active, chosen⟩ : ∃ active, active = Momentum.select (phaseAt setup panel.toUniverseFrame)
      (observe setup m.features panel.bars).1 (Momentum.kept (observe setup m.features panel.bars).1 m.active) :=
    ⟨_, rfl⟩
  have taken : m.onFrame setup panel.toUniverseFrame =
      some (Momentum.intent active panel.toUniverseFrame, ⟨(observe setup m.features panel.bars).2, active⟩) := by
    simp only [Momentum.onFrame, if_neg present, chosen]
    rfl
  have members (symbol : String) : symbol ∈ active.members ↔
      symbol ∈ m.active.members ∧ Lasting setup symbol past (.frame panel) ∨
        Picked setup config symbol past (.frame panel) := by
    rw [chosen, h.vectors]
    exact h.mem_select panel symbol
  refine ⟨_, _, taken, ⟨?_, ?_, ?_⟩, members⟩
  · simp [run_snoc, h.run, Momentum.step, taken]
  · rw [observe_features, h.features]
    simp [stream, Market.inputs, Machine.run_append]
  · intro symbol member
    rcases (members symbol).mp member with ⟨held, _⟩ | ⟨_, _, bar, inside, same, _⟩
    · exact h.known held
    · exact (panel.complete symbol).mpr ⟨bar, inside, same⟩

variable (setup config) in
theorem reached (past : List (Market names)) : ∃ m : Momentum φ config, Reached setup past m := by
  induction past using List.reverseRecOn with
  | nil => exact ⟨{}, rfl, rfl, by simp [Roster.empty]⟩
  | append_singleton past input ih =>
    obtain ⟨m, h⟩ := ih
    cases input with
    | quote q => exact ⟨_, h.onQuote q⟩
    | frame panel =>
      obtain ⟨_, _, _, next, _⟩ := h.onFrame panel
      exact ⟨_, next⟩

variable (setup config) in
/-- A symbol is active after a run. -/
def Active (symbol : String) (past : List (Market names)) : Prop :=
  ∃ m, Momentum.run setup config past = some m ∧ symbol ∈ m.active.members

theorem Reached.active_iff (h : Reached setup past m) (symbol : String) :
    Active setup config symbol past ↔ symbol ∈ m.active.members := by
  simp [Active, h.run]

theorem active_since (symbol : String) (past : List (Market names)) : Active setup config symbol past ↔
    History.Since (Lasting setup symbol) (Picked setup config symbol) past := by
  refine History.since_iff ?_ ?_ past
  · rintro ⟨m, ran, member⟩
    cases ran
    simp at member
  · intro past input
    obtain ⟨m, h⟩ := reached setup config past
    cases input with
    | quote q =>
      rw [(h.onQuote q).active_iff, h.active_iff]
      simp [Momentum.onQuote, Lasting, Picked]
    | frame panel =>
      obtain ⟨_, _, _, next, members⟩ := h.onFrame panel
      rw [next.active_iff, h.active_iff]
      exact members symbol

/-- After any frames and quotes a frame is taken without an error, and the strategy asks for its weight in exactly the
symbols that it picked at some frame and that lasted at every frame since, and for none of the others. -/
theorem momentum_targets (setup : StrategySetup φ) (config : IntradayStrategyConfig) (names : Finset String)
    (past : List (Market names)) (panel : Panel names) :
    ∃ intent m, ((Momentum.run setup config past).bind fun m => m.onFrame setup panel.toUniverseFrame) =
        some (intent, m) ∧
      ∀ symbol weight, intent.targetWeights.get? symbol = some weight ↔ symbol ∈ names ∧
        (History.Since (Lasting setup symbol) (Picked setup config symbol) (past ++ [.frame panel]) ∧
            weight = config.targetWeight ∨
          ¬History.Since (Lasting setup symbol) (Picked setup config symbol) (past ++ [.frame panel]) ∧
            weight = .zero) := by
  obtain ⟨m, h⟩ := reached setup config past
  obtain ⟨active, features, taken, next, _⟩ := h.onFrame panel
  refine ⟨_, _, by rw [h.run, Option.bind_some, taken], fun symbol weight => ?_⟩
  rw [← active_since, next.active_iff, Momentum.intent, intentOf, targets_get?, eq_weightFor, panel.complete]

end TradeAgent.Intraday
