import TradeAgent.IntradayMomentum

/-! The opening-range breakout strategy. The range of a symbol is exactly that of its bars at the opening of the
session, and what the strategy asks for is what broke out at the last frame that allowed entries and did not fall back
since. -/
namespace TradeAgent.Intraday

open Rounding Shadow Portfolio
open Event (SessionPhase SessionGate)

structure OpeningRange where
  sessionDate : ℤ
  high : ℚ
  low : ℚ

structure Breakout (config : IntradayStrategyConfig) where
  ranges : Dict String OpeningRange := .empty
  active : Roster String config.topN := .empty

/-- A frame in the middle of its bars: what broke out so far, and how far. -/
structure Scan (config : IntradayStrategyConfig) extends Breakout config where
  strengths : List (String × ℚ) := []

section source

variable {φ : Type} (setup : StrategySetup φ) (config : IntradayStrategyConfig)

def minutesFromOpen (gate : SessionGate) (at_ : Instant) : ℤ :=
  match gate.session with
  | some bounds => (at_ - bounds.1) / minute
  | none => -1

def threshold (range : OpeningRange) : ℚ :=
  context (range.high * context (1 + context (config.breakoutBufferBps / 10000)))

/-- The range known of the date, or a new one. -/
def rangeOn (known : Option OpeningRange) (date : ℤ) (bar : MarketBar) : OpeningRange × Bool :=
  match known with
  | some range => if range.sessionDate = date then (range, false) else (⟨date, bar.high, bar.low⟩, true)
  | none => (⟨date, bar.high, bar.low⟩, true)

variable {config}

def Scan.look (phase : SessionPhase) (minutes date : ℤ) (s : Scan config) (bar : MarketBar) : Scan config :=
  let (range, fresh) := rangeOn (s.ranges.get? bar.symbol) date bar
  let active := if fresh then s.active.drop bar.symbol else s.active
  if 0 ≤ minutes ∧ minutes < config.openingRangeMinutes then
    { s with
      ranges := s.ranges.set bar.symbol { range with high := max range.high bar.high, low := min range.low bar.low }
      active }
  else
    let ranges := s.ranges.set bar.symbol range
    if phase = .entry ∧ threshold config range < bar.close then
      { ranges, active, strengths := s.strengths ++ [(bar.symbol, returnOf range.high bar.close)] }
    else if bar.symbol ∈ active.members ∧ bar.close ≤ range.high then
      { s with ranges, active := active.drop bar.symbol }
    else { s with ranges, active }

def rank (e : String × ℚ) : ℚ ×ₗ String := toLex (-e.2, e.1)

def Breakout.select (phase : SessionPhase) (s : Scan config) : Roster String config.topN :=
  if phase = .flatten then .empty
  else if phase = .entry then .pick ((Ranking.ranked rank s.strengths).map Prod.fst)
  else s.active

def Breakout.onFrame (b : Breakout config) (frame : UniverseFrame) : PortfolioIntent × Breakout config :=
  let gate := setup.calendar.gate frame.timestamp
  let scan := frame.bars.foldl
    (Scan.look gate.phase (minutesFromOpen gate frame.timestamp) (setup.date frame.timestamp)) { toBreakout := b }
  let active := Breakout.select gate.phase scan
  (intentOf "opening-range-breakout-v1"
    (toString config.openingRangeMinutes ++ "-minute opening range; active=" ++ activeText active) active frame,
    ⟨scan.ranges, active⟩)

/-- The state after the frames. -/
def Breakout.run (past : List UniverseFrame) : Breakout config :=
  Machine.run (fun b frame => (b.onFrame setup frame).2) {} past

/-! ## What broke out and did not fall back since -/

def barsIn (symbol : String) (past : List UniverseFrame) : List MarketBar :=
  (past.flatMap (·.bars)).filter (·.symbol = symbol)

variable (config)

def inOpening (bar : MarketBar) : Bool :=
  let minutes := minutesFromOpen (setup.calendar.gate bar.timestamp) bar.timestamp
  0 ≤ minutes && minutes < config.openingRangeMinutes

/-- The range of a session: of its first bar and of all that lie in the opening window. -/
def rangeOf (own : List MarketBar) : Option OpeningRange :=
  match own with
  | [] => none
  | first :: rest =>
    let opening := rest.filter fun bar => inOpening setup config bar
    some ⟨setup.date first.timestamp, (opening.map MarketBar.high).foldl max first.high,
      (opening.map MarketBar.low).foldl min first.low⟩

/-- The session of a bar before it. -/
def earlier (past : List UniverseFrame) (bar : MarketBar) : List MarketBar :=
  session setup.toFeatureSetup (barsIn bar.symbol past) (setup.date bar.timestamp)

/-- How far a bar closes above the range of its session, if it breaks out of it. -/
def breakout (past : List UniverseFrame) (bar : MarketBar) : Option ℚ :=
  (rangeOf setup config (earlier setup past bar ++ [bar])).bind fun range =>
    if inOpening setup config bar = false ∧ threshold config range < bar.close then some (returnOf range.high bar.close)
    else none

/-- At a frame that allows entries a symbol breaks out, among the first to do so. -/
def Breaks (symbol : String) (past : List UniverseFrame) (frame : UniverseFrame) : Prop :=
  phaseAt setup frame = .entry ∧ ∃ bar ∈ frame.bars, bar.symbol = symbol ∧
    ∃ strength, breakout setup config past bar = some strength ∧
      frame.bars.countP (fun other => (breakout setup config past other).any fun others =>
        decide (rank (other.symbol, others) < rank (symbol, strength))) < config.topN

/-- A later frame has no entries and leaves a symbol: its session goes on, and it does not close in its range. -/
def Stays (symbol : String) (past : List UniverseFrame) (frame : UniverseFrame) : Prop :=
  phaseAt setup frame ≠ .flatten ∧ phaseAt setup frame ≠ .entry ∧ ∀ bar ∈ frame.bars, bar.symbol = symbol →
    earlier setup past bar ≠ [] ∧ (inOpening setup config bar = true ∨
      ∀ range ∈ rangeOf setup config (earlier setup past bar), range.high < bar.close)

end source

variable {φ : Type} {setup : StrategySetup φ} {config : IntradayStrategyConfig}

/-! ## One frame -/

/-- What a bar makes of the range known of its symbol. -/
def widened (config : IntradayStrategyConfig) (minutes date : ℤ) (known : Option OpeningRange) (bar : MarketBar) :
    OpeningRange :=
  let range := (rangeOn known date bar).1
  if 0 ≤ minutes ∧ minutes < config.openingRangeMinutes then
    { range with high := max range.high bar.high, low := min range.low bar.low }
  else range

def strengthOver (config : IntradayStrategyConfig) (phase : SessionPhase) (minutes date : ℤ)
    (known : Option OpeningRange) (bar : MarketBar) : Option ℚ :=
  let range := (rangeOn known date bar).1
  if ¬(0 ≤ minutes ∧ minutes < config.openingRangeMinutes) ∧ phase = .entry ∧ threshold config range < bar.close then
    some (returnOf range.high bar.close)
  else none

/-- The bar leaves its symbol active. -/
def Survives (config : IntradayStrategyConfig) (phase : SessionPhase) (minutes date : ℤ)
    (known : Option OpeningRange) (bar : MarketBar) : Prop :=
  let (range, fresh) := rangeOn known date bar
  fresh = false ∧ (0 ≤ minutes ∧ minutes < config.openingRangeMinutes ∨
    phase = .entry ∧ threshold config range < bar.close ∨ range.high < bar.close)

theorem look_ranges (phase : SessionPhase) (minutes date : ℤ) (s : Scan config) (bar : MarketBar) :
    (s.look phase minutes date bar).ranges =
      s.ranges.set bar.symbol (widened config minutes date (s.ranges.get? bar.symbol) bar) := by
  simp only [Scan.look, widened]
  generalize (if (rangeOn (s.ranges.get? bar.symbol) date bar).2 = true then s.active.drop bar.symbol else s.active) =
    active
  split
  · rfl
  · split
    · rfl
    · split <;> rfl

theorem look_strengths (phase : SessionPhase) (minutes date : ℤ) (s : Scan config) (bar : MarketBar) :
    (s.look phase minutes date bar).strengths = s.strengths ++
      ((strengthOver config phase minutes date (s.ranges.get? bar.symbol) bar).map fun strength =>
        (bar.symbol, strength)).toList := by
  simp only [Scan.look, strengthOver]
  generalize (if (rangeOn (s.ranges.get? bar.symbol) date bar).2 = true then s.active.drop bar.symbol else s.active) =
    active
  by_cases opening : 0 ≤ minutes ∧ minutes < config.openingRangeMinutes
  · simp [opening]
  · by_cases breaks : phase = .entry ∧ threshold config (rangeOn (s.ranges.get? bar.symbol) date bar).1 < bar.close
    · simp [opening, breaks]
    · simp only [opening, breaks, not_false_eq_true, true_and, if_false, Option.map_none, Option.toList_none,
        List.append_nil]
      split <;> rfl

theorem look_active (phase : SessionPhase) (minutes date : ℤ) (s : Scan config) (bar : MarketBar) (symbol : String) :
    symbol ∈ (s.look phase minutes date bar).active.members ↔ symbol ∈ s.active.members ∧
      (bar.symbol = symbol → Survives config phase minutes date (s.ranges.get? bar.symbol) bar) := by
  simp only [Scan.look, Survives]
  generalize rangeOn (s.ranges.get? bar.symbol) date bar = found
  obtain ⟨range, fresh⟩ := found
  have reset : symbol ∈ (if fresh = true then s.active.drop bar.symbol else s.active).members ↔
      symbol ∈ s.active.members ∧ (bar.symbol = symbol → fresh = false) := by
    cases fresh <;> simp [and_comm, eq_comm]
  generalize (if fresh = true then s.active.drop bar.symbol else s.active) = active at reset
  by_cases opening : 0 ≤ minutes ∧ minutes < config.openingRangeMinutes
  · simp [opening, reset]
  · by_cases breaks : phase = .entry ∧ threshold config range < bar.close
    · simp [opening, breaks, reset]
    · by_cases falls : bar.symbol ∈ active.members ∧ bar.close ≤ range.high
      · simp only [opening, breaks, falls, and_self, if_true, if_false, false_or, falls.2.not_gt, and_false, imp_false,
          Roster.mem_drop, reset]
        tauto
      · have above : symbol ∈ s.active.members → (bar.symbol = symbol → fresh = false) → bar.symbol = symbol →
            range.high < bar.close := by
          intro member kept same
          by_contra below
          exact falls ⟨same ▸ reset.mpr ⟨member, kept⟩, not_lt.mp below⟩
        simp only [opening, breaks, falls, if_false, false_or, reset]
        tauto

/-! What a frame makes of each symbol, whose bar in it is the only one. -/

section scan

variable (phase : SessionPhase) (minutes date : ℤ) (s : Scan config)

theorem scan_ranges_absent {bars : List MarketBar} {symbol : String} (absent : symbol ∉ bars.map MarketBar.symbol) :
    (bars.foldl (Scan.look phase minutes date) s).ranges.get? symbol = s.ranges.get? symbol := by
  induction bars generalizing s with
  | nil => rfl
  | cons bar rest ih =>
    simp only [List.map_cons, List.mem_cons, not_or] at absent
    rw [List.foldl_cons, ih _ absent.2, look_ranges, Dict.get?_set, if_neg (Ne.symm absent.1)]

theorem scan_ranges {bars : List MarketBar} (distinct : (bars.map MarketBar.symbol).Nodup) {bar : MarketBar}
    (member : bar ∈ bars) : (bars.foldl (Scan.look phase minutes date) s).ranges.get? bar.symbol =
      some (widened config minutes date (s.ranges.get? bar.symbol) bar) := by
  induction bars generalizing s with
  | nil => simp at member
  | cons first rest ih =>
    obtain ⟨fresh, others⟩ := List.nodup_cons.mp distinct
    rw [List.foldl_cons]
    rcases List.mem_cons.mp member with rfl | later
    · rw [scan_ranges_absent _ _ _ _ fresh, look_ranges, Dict.get?_set, if_pos rfl]
    · have apart : first.symbol ≠ bar.symbol := by
        intro same
        exact fresh (List.mem_map.mpr ⟨bar, later, same.symm⟩)
      rw [ih _ others later, look_ranges, Dict.get?_set, if_neg apart]

theorem scan_active {bars : List MarketBar} (distinct : (bars.map MarketBar.symbol).Nodup) (symbol : String) :
    symbol ∈ (bars.foldl (Scan.look phase minutes date) s).active.members ↔ symbol ∈ s.active.members ∧
      ∀ bar ∈ bars, bar.symbol = symbol → Survives config phase minutes date (s.ranges.get? bar.symbol) bar := by
  induction bars generalizing s with
  | nil => simp
  | cons first rest ih =>
    obtain ⟨fresh, others⟩ := List.nodup_cons.mp distinct
    have same (bar : MarketBar) (later : bar ∈ rest) :
        (s.look phase minutes date first).ranges.get? bar.symbol = s.ranges.get? bar.symbol := by
      rw [look_ranges, Dict.get?_set, if_neg]
      intro same
      exact fresh (List.mem_map.mpr ⟨bar, later, same.symm⟩)
    rw [List.foldl_cons, ih _ others, look_active, List.forall_mem_cons, and_assoc]
    refine and_congr_right fun _ => and_congr_right fun _ => forall₂_congr fun bar later => ?_
    rw [same bar later]

theorem scan_strengths {bars : List MarketBar} (distinct : (bars.map MarketBar.symbol).Nodup) :
    (bars.foldl (Scan.look phase minutes date) s).strengths = s.strengths ++ bars.filterMap fun bar =>
      (strengthOver config phase minutes date (s.ranges.get? bar.symbol) bar).map fun strength =>
        (bar.symbol, strength) := by
  induction bars generalizing s with
  | nil => simp
  | cons first rest ih =>
    obtain ⟨fresh, others⟩ := List.nodup_cons.mp distinct
    have same : (rest.filterMap fun bar =>
        (strengthOver config phase minutes date ((s.look phase minutes date first).ranges.get? bar.symbol) bar).map
          fun strength => (bar.symbol, strength)) =
        rest.filterMap fun bar => (strengthOver config phase minutes date (s.ranges.get? bar.symbol) bar).map
          fun strength => (bar.symbol, strength) := by
      apply List.filterMap_congr
      intro bar later
      rw [look_ranges, Dict.get?_set, if_neg]
      intro same
      exact fresh (List.mem_map.mpr ⟨bar, later, same.symm⟩)
    rw [List.foldl_cons, ih _ others, same, look_strengths, List.append_assoc, List.filterMap_cons]
    cases strengthOver config phase minutes date (s.ranges.get? first.symbol) first <;> rfl

end scan

/-! ## The ranges of a run -/

variable {past : List UniverseFrame} {frame : UniverseFrame} {bar : MarketBar} {b : Breakout config}

variable (setup) in
/-- The range known of each symbol is that of its last session. -/
def Ranged (b : Breakout config) (past : List UniverseFrame) : Prop :=
  ∀ symbol, b.ranges.get? symbol = (barsIn symbol past).getLast?.bind fun last =>
    rangeOf setup config (session setup.toFeatureSetup (barsIn symbol past) (setup.date last.timestamp))

theorem filter_symbol {bars : List MarketBar} (distinct : (bars.map MarketBar.symbol).Nodup) (member : bar ∈ bars) :
    bars.filter (·.symbol = bar.symbol) = [bar] := by
  induction bars with
  | nil => simp at member
  | cons first rest ih =>
    obtain ⟨fresh, others⟩ := List.nodup_cons.mp distinct
    rcases List.mem_cons.mp member with rfl | later
    · have none_ : rest.filter (fun other => other.symbol = bar.symbol) = [] := by
        rw [List.filter_eq_nil_iff]
        intro other inside same
        exact fresh (List.mem_map.mpr ⟨other, inside, of_decide_eq_true same⟩)
      simp [none_]
    · have apart : first.symbol ≠ bar.symbol := by
        intro same
        exact fresh (List.mem_map.mpr ⟨bar, later, same.symm⟩)
      simp [apart, ih others later]

theorem barsIn_present (member : bar ∈ frame.bars) :
    barsIn bar.symbol (past ++ [frame]) = barsIn bar.symbol past ++ [bar] := by
  simp [barsIn, filter_symbol frame.distinct member]

theorem barsIn_absent {symbol : String} (absent : symbol ∉ frame.bars.map MarketBar.symbol) :
    barsIn symbol (past ++ [frame]) = barsIn symbol past := by
  have none_ : frame.bars.filter (fun bar => bar.symbol = symbol) = [] := by
    rw [List.filter_eq_nil_iff]
    intro bar inside same
    exact absent (List.mem_map.mpr ⟨bar, inside, of_decide_eq_true same⟩)
  simp [barsIn, none_]

theorem session_date {bars : List MarketBar} {date : ℤ} (member : bar ∈ session setup.toFeatureSetup bars date) :
    setup.date bar.timestamp = date := by
  simpa using List.mem_rtakeWhile_imp member

theorem earlier_snoc (past : List UniverseFrame) (bar : MarketBar) :
    session setup.toFeatureSetup (barsIn bar.symbol past ++ [bar]) (setup.date bar.timestamp) =
      earlier setup past bar ++ [bar] := session_snoc _ _

theorem rangeOf_date {own : List MarketBar} {date : ℤ} (all : ∀ bar ∈ own, setup.date bar.timestamp = date)
    {range : OpeningRange} (found : rangeOf setup config own = some range) : range.sessionDate = date := by
  cases own with
  | nil => cases found
  | cons first rest =>
    cases found
    exact all first List.mem_cons_self

/-- What a bar finds of its session. -/
theorem Ranged.rangeOn (h : Ranged setup b past) (bar : MarketBar) :
    rangeOn (b.ranges.get? bar.symbol) (setup.date bar.timestamp) bar =
      match rangeOf setup config (earlier setup past bar) with
      | some range => (range, false)
      | none => (⟨setup.date bar.timestamp, bar.high, bar.low⟩, true) := by
  rw [h]
  cases newest : (barsIn bar.symbol past).getLast? with
  | none =>
    have own : earlier setup past bar = [] := session_other (by simp [newest])
    simp [own, rangeOf, Intraday.rangeOn]
  | some last =>
    by_cases same : setup.date last.timestamp = setup.date bar.timestamp
    · rw [Option.bind_some, same]
      change Intraday.rangeOn (rangeOf setup config (earlier setup past bar)) _ _ = _
      cases found : rangeOf setup config (earlier setup past bar) with
      | none => rfl
      | some range =>
        have date := rangeOf_date (fun other member => session_date member) found
        simp [Intraday.rangeOn, date]
    · have own : earlier setup past bar = [] := session_other (by simpa [newest] using same)
      rw [own, Option.bind_some]
      cases found : rangeOf setup config
          (session setup.toFeatureSetup (barsIn bar.symbol past) (setup.date last.timestamp)) with
      | none => rfl
      | some range =>
        have date := rangeOf_date (fun other member => session_date member) found
        simp [Intraday.rangeOn, date, same, rangeOf]

theorem opening_iff (bar : MarketBar) : inOpening setup config bar = true ↔
    0 ≤ minutesFromOpen (setup.calendar.gate bar.timestamp) bar.timestamp ∧
      minutesFromOpen (setup.calendar.gate bar.timestamp) bar.timestamp < config.openingRangeMinutes := by
  simp [inOpening]

/-- The range of a session with one more bar. -/
theorem Ranged.widened (h : Ranged setup b past) (bar : MarketBar) :
    some (widened config (minutesFromOpen (setup.calendar.gate bar.timestamp) bar.timestamp) (setup.date bar.timestamp)
      (b.ranges.get? bar.symbol) bar) = rangeOf setup config (earlier setup past bar ++ [bar]) := by
  simp only [Intraday.widened, h.rangeOn, ← opening_iff]
  cases own : earlier setup past bar with
  | nil => by_cases opening : inOpening setup config bar = true <;> simp [rangeOf, opening]
  | cons first rest =>
    by_cases opening : inOpening setup config bar = true <;> simp [rangeOf, opening]

theorem Ranged.strengthOver (h : Ranged setup b past) (bar : MarketBar) :
    strengthOver config .entry (minutesFromOpen (setup.calendar.gate bar.timestamp) bar.timestamp)
      (setup.date bar.timestamp) (b.ranges.get? bar.symbol) bar = breakout setup config past bar := by
  simp only [breakout, ← h.widened bar, Intraday.strengthOver, Intraday.widened, ← opening_iff]
  by_cases opening : inOpening setup config bar = true <;> simp [opening]

theorem Ranged.survives (h : Ranged setup b past) {phase : SessionPhase} (idle : phase ≠ .entry) (bar : MarketBar) :
    Survives config phase (minutesFromOpen (setup.calendar.gate bar.timestamp) bar.timestamp)
      (setup.date bar.timestamp) (b.ranges.get? bar.symbol) bar ↔ earlier setup past bar ≠ [] ∧
        (inOpening setup config bar = true ∨
          ∀ range ∈ rangeOf setup config (earlier setup past bar), range.high < bar.close) := by
  simp only [Survives, h.rangeOn, ← opening_iff]
  cases own : earlier setup past bar with
  | nil => simp [rangeOf]
  | cons first rest => simp [rangeOf, idle]

theorem Ranged.onFrame (h : Ranged setup b past) (frame : UniverseFrame) :
    Ranged setup (b.onFrame setup frame).2 (past ++ [frame]) := by
  intro symbol
  by_cases present : symbol ∈ frame.bars.map MarketBar.symbol
  · obtain ⟨bar, member, rfl⟩ := List.mem_map.mp present
    have scanned : (b.onFrame setup frame).2.ranges.get? bar.symbol = _ := scan_ranges _ _ _ _ frame.distinct member
    rw [scanned, barsIn_present member, List.getLast?_concat, Option.bind_some, earlier_snoc, ← frame.sameTime bar member]
    exact h.widened bar
  · have scanned : (b.onFrame setup frame).2.ranges.get? symbol = _ := scan_ranges_absent _ _ _ _ present
    rw [scanned, barsIn_absent present]
    exact h symbol

variable (setup config) in
theorem run_ranged (past : List UniverseFrame) : Ranged setup (Breakout.run setup past : Breakout config) past := by
  induction past using List.reverseRecOn with
  | nil => exact fun _ => rfl
  | append_singleton past frame ih =>
    rw [Breakout.run, Machine.run_append, Machine.run_cons, Machine.run_nil]
    exact ih.onFrame frame

/-! ## What is asked for -/

theorem names_sublist (bars : List MarketBar) (strengthOf : MarketBar → Option ℚ) :
    (bars.filterMap fun bar => (strengthOf bar).map fun _ => bar.symbol).Sublist (bars.map MarketBar.symbol) := by
  induction bars with
  | nil => exact .slnil
  | cons bar rest ih =>
    rw [List.filterMap_cons, List.map_cons]
    cases strengthOf bar with
    | none => exact ih.cons _
    | some strength => exact ih.cons_cons _

theorem mem_first (past : List UniverseFrame) (frame : UniverseFrame) (symbol : String) :
    symbol ∈ ((Ranking.ranked rank (frame.bars.filterMap fun bar => (breakout setup config past bar).map fun strength =>
        (bar.symbol, strength))).map Prod.fst).take config.topN ↔
      ∃ bar ∈ frame.bars, bar.symbol = symbol ∧ ∃ strength, breakout setup config past bar = some strength ∧
        frame.bars.countP (fun other => (breakout setup config past other).any fun others =>
          decide (rank (other.symbol, others) < rank (symbol, strength))) < config.topN := by
  have distinct : ((frame.bars.filterMap fun bar => (breakout setup config past bar).map fun strength =>
      (bar.symbol, strength)).map rank).Nodup := by
    apply List.Nodup.of_map fun key => (ofLex key).2
    rw [List.map_map, List.map_filterMap]
    have names : (frame.bars.filterMap fun bar => ((breakout setup config past bar).map fun strength =>
        (bar.symbol, strength)).map ((fun key => (ofLex key).2) ∘ rank)) =
          frame.bars.filterMap fun bar => (breakout setup config past bar).map fun _ => bar.symbol := by
      apply List.filterMap_congr
      intro bar _
      cases breakout setup config past bar <;> rfl
    rw [names]
    exact frame.distinct.sublist (names_sublist _ _)
  have counted (e : String × ℚ) : (frame.bars.filterMap fun bar => (breakout setup config past bar).map fun strength =>
      (bar.symbol, strength)).countP (fun other => decide (rank other < rank e)) =
        frame.bars.countP fun other => (breakout setup config past other).any fun others =>
          decide (rank (other.symbol, others) < rank e) := by
    rw [List.countP_filterMap]
    congr 1
    funext other
    cases breakout setup config past other <;> rfl
  rw [← List.map_take, List.mem_map]
  constructor
  · rintro ⟨e, first, rfl⟩
    obtain ⟨inside, ahead⟩ := (Ranking.mem_take_ranked distinct _ _).mp first
    obtain ⟨bar, member, strong⟩ := List.mem_filterMap.mp inside
    obtain ⟨strength, breaks, rfl⟩ := Option.map_eq_some_iff.mp strong
    rw [counted] at ahead
    exact ⟨bar, member, rfl, strength, breaks, ahead⟩
  · rintro ⟨bar, member, rfl, strength, breaks, ahead⟩
    refine ⟨(bar.symbol, strength), (Ranking.mem_take_ranked distinct _ _).mpr ⟨?_, ?_⟩, rfl⟩
    · exact List.mem_filterMap.mpr ⟨bar, member, by rw [breaks, Option.map_some]⟩
    · rw [counted]
      exact ahead

/-- What is active after a frame: what it picks if it allows entries, and else what it leaves of what was. -/
theorem Ranged.mem_onFrame (h : Ranged setup b past) (frame : UniverseFrame) (symbol : String) :
    symbol ∈ (b.onFrame setup frame).2.active.members ↔
      symbol ∈ b.active.members ∧ Stays setup config symbol past frame ∨ Breaks setup config symbol past frame := by
  have strengths : (frame.bars.foldl (Scan.look .entry (minutesFromOpen (setup.calendar.gate frame.timestamp)
      frame.timestamp) (setup.date frame.timestamp)) { toBreakout := b }).strengths =
        frame.bars.filterMap fun bar => (breakout setup config past bar).map fun strength => (bar.symbol, strength) := by
    rw [scan_strengths _ _ _ _ frame.distinct, List.nil_append]
    apply List.filterMap_congr
    intro bar member
    rw [← h.strengthOver bar, frame.sameTime bar member]
  have phase : (setup.calendar.gate frame.timestamp).phase = phaseAt setup frame := rfl
  simp only [Breakout.onFrame, Breakout.select, phase, Stays, Breaks]
  by_cases flat : phaseAt setup frame = .flatten
  · simp [flat]
  · by_cases entry : phaseAt setup frame = .entry
    · rw [if_neg flat, if_pos entry, entry, strengths, Roster.mem_pick, mem_first]
      simp
    · rw [if_neg flat, if_neg entry, scan_active _ _ _ _ frame.distinct]
      simp only [flat, entry, ne_eq, not_false_eq_true, true_and, false_and, or_false]
      refine and_congr_right fun _ => forall₂_congr fun bar member => imp_congr_right fun _ => ?_
      rw [← h.survives entry bar, frame.sameTime bar member]

variable (setup config) in
/-- A symbol is active after a run. -/
def BrokenOut (symbol : String) (past : List UniverseFrame) : Prop :=
  symbol ∈ (Breakout.run setup past : Breakout config).active.members

theorem breakout_since (symbol : String) (past : List UniverseFrame) : BrokenOut setup config symbol past ↔
    History.Since (Stays setup config symbol) (Breaks setup config symbol) past := by
  refine History.since_iff ?_ ?_ past
  · exact (Roster.mem_empty symbol).mp
  · intro past frame
    have next : (Breakout.run setup (past ++ [frame]) : Breakout config) =
        ((Breakout.run setup past).onFrame setup frame).2 := by
      rw [Breakout.run, Machine.run_append, Machine.run_cons, Machine.run_nil]
      rfl
    rw [BrokenOut, next]
    exact (run_ranged setup config past).mem_onFrame frame symbol

/-- After any frames the strategy asks, at the next, for its weight in exactly those of its symbols that broke out of
the opening range at some frame, among the first, with no frame for entries since and no close in the range, and for
none of the others. -/
theorem breakout_targets (setup : StrategySetup φ) (config : IntradayStrategyConfig) (past : List UniverseFrame)
    (frame : UniverseFrame) (symbol : String) (weight : Weight) :
    ((Breakout.run setup past : Breakout config).onFrame setup frame).1.targetWeights.get? symbol = some weight ↔
      (∃ bar ∈ frame.bars, bar.symbol = symbol) ∧
        (History.Since (Stays setup config symbol) (Breaks setup config symbol) (past ++ [frame]) ∧
            weight = config.targetWeight ∨
          ¬History.Since (Stays setup config symbol) (Breaks setup config symbol) (past ++ [frame]) ∧
            weight = .zero) := by
  have active : symbol ∈ ((Breakout.run setup past : Breakout config).onFrame setup frame).2.active.members ↔
      History.Since (Stays setup config symbol) (Breaks setup config symbol) (past ++ [frame]) := by
    rw [← breakout_since, BrokenOut, Breakout.run, Breakout.run, Machine.run_append, Machine.run_cons, Machine.run_nil]
  rw [← active]
  exact (targets_get? _ frame symbol weight).trans (and_congr_right fun _ => eq_weightFor _ symbol weight)

end TradeAgent.Intraday
