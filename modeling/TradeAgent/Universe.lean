import Mathlib.Data.List.Sort
import Mathlib.Data.String.Basic
import TradeAgent.Library.EventLog
import TradeAgent.Library.Procedure
import TradeAgent.PortfolioEngine

/-! The universe of a portfolio: the bars of several symbols joined by their timestamps, a frame for each instant
at which every symbol has a bar. -/
namespace TradeAgent.Portfolio

inductive FrameFault where
  | noBars | duplicateSymbols | mixedTimestamps
  deriving DecidableEq, Repr

/-- A frame checks itself as it is built. -/
def UniverseFrame.validate (timestamp : Instant) (bars : List MarketBar) : Except FrameFault UniverseFrame :=
  if nonempty : bars = [] then .error .noBars
  else if distinct : (bars.map MarketBar.symbol).Nodup then
    if sameTime : ∀ bar ∈ bars, bar.timestamp = timestamp then .ok ⟨timestamp, bars, nonempty, distinct, sameTime⟩
    else .error .mixedTimestamps
  else .error .duplicateSymbols

theorem UniverseFrame.ext {one two : UniverseFrame} (timestamp : one.timestamp = two.timestamp)
    (bars : one.bars = two.bars) : one = two := by
  cases one
  cases two
  cases timestamp
  cases bars
  rfl

theorem UniverseFrame.validate_ok {timestamp : Instant} {bars : List MarketBar} {frame : UniverseFrame} :
    UniverseFrame.validate timestamp bars = .ok frame ↔ frame.timestamp = timestamp ∧ frame.bars = bars := by
  constructor
  · intro built
    unfold validate at built
    split_ifs at built
    cases built
    exact ⟨rfl, rfl⟩
  · rintro ⟨rfl, rfl⟩
    simp only [validate, frame.nonempty, frame.distinct, ↓reduceDIte]
    exact dif_pos frame.sameTime

section

-- The symbol a text names: stripped, in capitals.
variable (normalize : String → String)

def UniverseFrame.barFor (frame : UniverseFrame) (symbol : String) : Option MarketBar :=
  frame.bars.find? fun bar => bar.symbol = normalize symbol

structure UniverseManifest where
  datasetHash : String
  symbols : List String
  frames : ℕ
  rows : ℕ
  startedAt : Instant
  endedAt : Instant
  droppedRows : Dict String ℤ

structure UniverseDataset where
  manifest : UniverseManifest
  frames : List UniverseFrame

inductive AlignFault where
  | noSymbols
  | noBars (symbol : String)
  | mismatchedBar (symbol : String)
  | notChronological (symbol : String)
  | nothingShared
  | missing (symbol : String) (timestamp : Instant)
  | frame (fault : FrameFault)
  deriving DecidableEq, Repr

abbrev Indexed := Dict String (Dict Instant MarketBar)

def indexBars (indexed : Indexed) (entry : String × List MarketBar) : Except AlignFault Indexed :=
  let symbol := normalize entry.1
  let timestamps := entry.2.map MarketBar.timestamp
  if entry.2 = [] then .error (.noBars symbol)
  else if entry.2.any fun bar => bar.symbol ≠ symbol then .error (.mismatchedBar symbol)
  else if timestamps ≠ timestamps.insertionSort (· ≤ ·) ∨ ¬timestamps.Nodup then .error (.notChronological symbol)
  else .ok (indexed.set symbol (.ofList (entry.2.map fun bar => (bar.timestamp, bar))))

/-- The instants at which every symbol has a bar. -/
def sharedTimestamps (indexed : Indexed) : List Instant :=
  match indexed.values with
  | [] => []
  | first :: others => first.keys.filter fun at_ => others.all fun bars => at_ ∈ bars.keys

def barAt (indexed : Indexed) (at_ : Instant) (symbol : String) : Except AlignFault MarketBar :=
  match (indexed.get? symbol).bind fun bars => bars.get? at_ with
  | some bar => .ok bar
  | none => .error (.missing symbol at_)

def frameAt (indexed : Indexed) (symbols : List String) (at_ : Instant) : Except AlignFault UniverseFrame := do
  let bars ← symbols.mapM (barAt indexed at_)
  (UniverseFrame.validate at_ bars).mapError .frame

-- The digest of a data set is one of its rows, frame by frame.
variable (hash : List MarketBar → String)

def datasetOf (indexed : Indexed) (frames : List UniverseFrame) : UniverseDataset :=
  let timestamps := frames.map UniverseFrame.timestamp
  { manifest := {
      datasetHash := hash (frames.flatMap UniverseFrame.bars)
      symbols := indexed.keys.insertionSort (· ≤ ·)
      frames := frames.length
      rows := (frames.map fun frame => frame.bars.length).sum
      startedAt := timestamps.headD 0
      endedAt := timestamps.getLastD 0
      droppedRows := .ofList (indexed.entries.map fun e => (e.1, (e.2.keys.length : ℤ) - frames.length)) }
    frames }

def alignUniverse (barsBySymbol : Dict String (List MarketBar)) : Except AlignFault UniverseDataset :=
  if barsBySymbol.entries = [] then .error .noSymbols
  else do
    let indexed ← barsBySymbol.entries.foldlM (indexBars normalize) .empty
    let shared := sharedTimestamps indexed
    if shared = [] then .error .nothingShared
    else do
      let symbols := indexed.keys.insertionSort (· ≤ ·)
      let frames ← (shared.insertionSort (· ≤ ·)).mapM (frameAt indexed symbols)
      .ok (datasetOf hash indexed frames)

end

variable {normalize : String → String} {hash : List MarketBar → String} {indexed indexed' : Indexed}
  {at_ : Instant} {symbol : String} {bars : List MarketBar} {entry : String × List MarketBar}

/-! ## The index -/

/-- Bars by their timestamps. -/
def byTime (bars : List MarketBar) : Dict Instant MarketBar := .ofList (bars.map fun bar => (bar.timestamp, bar))

/-- Bars of one symbol, in order. -/
structure Usable (normalize : String → String) (entry : String × List MarketBar) : Prop where
  nonempty : entry.2 ≠ []
  named : ∀ bar ∈ entry.2, bar.symbol = normalize entry.1
  chronological : (entry.2.map MarketBar.timestamp).Pairwise (· < ·)

theorem chronological_iff {timestamps : List Instant} :
    timestamps = timestamps.insertionSort (· ≤ ·) ∧ timestamps.Nodup ↔ timestamps.Pairwise (· < ·) := by
  constructor
  · rintro ⟨sorted, distinct⟩
    have ordered := List.pairwise_insertionSort (α := Instant) (· ≤ ·) timestamps
    rw [← sorted] at ordered
    exact (ordered.and distinct).imp fun both => lt_of_le_of_ne both.1 both.2
  · intro ordered
    exact ⟨(List.Pairwise.insertionSort_eq (ordered.imp le_of_lt)).symm, ordered.imp ne_of_lt⟩

theorem indexBars_ok : indexBars normalize indexed entry = .ok indexed' ↔
    Usable normalize entry ∧ indexed' = indexed.set (normalize entry.1) (byTime entry.2) := by
  have ordered := @chronological_iff (entry.2.map MarketBar.timestamp)
  unfold indexBars
  simp only
  split_ifs with empty foreign disorder
  all_goals constructor
  · intro done
    cases done
  · rintro ⟨usable, -⟩
    exact absurd empty usable.nonempty
  · intro done
    cases done
  · rintro ⟨usable, -⟩
    obtain ⟨bar, member, other⟩ := List.any_eq_true.mp foreign
    exact absurd (usable.named bar member) (of_decide_eq_true other)
  · intro done
    cases done
  · rintro ⟨usable, -⟩
    have := ordered.mpr usable.chronological
    tauto
  · intro done
    cases done
    exact ⟨⟨empty, by simpa using foreign, ordered.mp (by tauto)⟩, rfl⟩
  · rintro ⟨-, rfl⟩
    rfl

theorem get?_byTime (chronological : (bars.map MarketBar.timestamp).Pairwise (· < ·)) {bar : MarketBar} :
    (byTime bars).get? at_ = some bar ↔ bar ∈ bars ∧ bar.timestamp = at_ := by
  have keys : (bars.map fun bar => (bar.timestamp, bar)).map Prod.fst = bars.map MarketBar.timestamp := by simp
  have distinct : (bars.map MarketBar.timestamp).Nodup := chronological.imp ne_of_lt
  rw [byTime, ← Dict.mem_entries, Dict.ofList_entries (by rw [keys]; exact distinct), List.mem_map]
  constructor
  · rintro ⟨bar', member, same⟩
    cases same
    exact ⟨member, rfl⟩
  · rintro ⟨member, rfl⟩
    exact ⟨bar, member, rfl⟩

theorem keys_byTime (chronological : (bars.map MarketBar.timestamp).Pairwise (· < ·)) :
    (byTime bars).keys = bars.map MarketBar.timestamp := by
  have keys : (bars.map fun bar => (bar.timestamp, bar)).map Prod.fst = bars.map MarketBar.timestamp := by simp
  rw [Dict.keys, byTime, Dict.ofList_entries (by rw [keys]; exact chronological.imp ne_of_lt), keys]

/-! ## What is indexed -/

/-- The bars of a symbol: those of the request that named it last. -/
def barsOf (normalize : String → String) (entries : List (String × List MarketBar)) (symbol : String) :
    Option (List MarketBar) :=
  EventLog.latest (fun entry => some (normalize entry.1, entry.2)) entries symbol

variable {entries : List (String × List MarketBar)}

theorem barsOf_mem (found : barsOf normalize entries symbol = some bars) :
    ∃ requested, (requested, bars) ∈ entries ∧ normalize requested = symbol := by
  obtain ⟨entry, member, named⟩ := EventLog.latest_mem found
  rw [Option.some.injEq, Prod.mk.injEq] at named
  obtain ⟨rfl, rfl⟩ := named
  exact ⟨entry.1, member, rfl⟩

theorem barsOf_isSome : (barsOf normalize entries symbol).isSome ↔ ∃ entry ∈ entries, normalize entry.1 = symbol := by
  unfold barsOf EventLog.latest
  rw [List.findSome?_isSome_iff]
  simp [EventLog.about]

theorem indexed_ok : entries.foldlM (indexBars normalize) indexed = .ok indexed' →
    (∀ entry ∈ entries, Usable normalize entry) ∧
      ∀ symbol, indexed'.get? symbol = ((barsOf normalize entries symbol).map byTime).or (indexed.get? symbol) := by
  intro done
  induction entries generalizing indexed with
  | nil =>
    cases done
    simp [barsOf, EventLog.latest]
  | cons entry rest ih =>
    rw [List.foldlM_cons] at done
    obtain ⟨middle, first, done⟩ := bind_ok_iff.mp done
    obtain ⟨usable, rfl⟩ := indexBars_ok.mp first
    obtain ⟨others, found⟩ := ih done
    refine ⟨List.forall_mem_cons.mpr ⟨usable, others⟩, fun symbol => ?_⟩
    have later : EventLog.latest (fun e : String × List MarketBar => some (normalize e.1, e.2)) ([entry] ++ rest)
        symbol = _ := EventLog.latest_append [entry] rest symbol
    rw [found, Dict.get?_set]
    unfold barsOf
    rw [List.singleton_append] at later
    rw [later]
    cases EventLog.latest (fun e : String × List MarketBar => some (normalize e.1, e.2)) rest symbol with
    | some bars => rfl
    | none =>
      by_cases same : normalize entry.1 = symbol
      · simp [EventLog.latest, EventLog.about, same]
      · simp [EventLog.latest, EventLog.about, same]

theorem indexed_exists (usable : ∀ entry ∈ entries, Usable normalize entry) (indexed : Indexed) :
    ∃ indexed', entries.foldlM (indexBars normalize) indexed = .ok indexed' :=
  ⟨_, foldlM_ok (g := fun indexed entry => indexed.set (normalize entry.1) (byTime entry.2))
    (fun entry member _ => indexBars_ok.mpr ⟨usable entry member, rfl⟩) indexed⟩

/-! ## The frames -/

/-- An index of usable bars: each bar is of its symbol and its instant. -/
structure Indexes (normalize : String → String) (entries : List (String × List MarketBar)) (indexed : Indexed) :
    Prop where
  usable : ∀ entry ∈ entries, Usable normalize entry
  found : ∀ symbol, indexed.get? symbol = (barsOf normalize entries symbol).map byTime

theorem Indexes.of (done : entries.foldlM (indexBars normalize) .empty = .ok indexed) :
    Indexes normalize entries indexed := by
  obtain ⟨usable, found⟩ := indexed_ok done
  exact ⟨usable, fun symbol => by rw [found, Dict.get?_empty, Option.or_none]⟩

variable {symbols : List String} {frame : UniverseFrame} {bar : MarketBar}

namespace Indexes

theorem sound (h : Indexes normalize entries indexed) (found : barsOf normalize entries symbol = some bars) :
    (∀ bar ∈ bars, bar.symbol = symbol) ∧ (bars.map MarketBar.timestamp).Pairwise (· < ·) := by
  obtain ⟨requested, member, rfl⟩ := barsOf_mem found
  exact ⟨(h.usable _ member).named, (h.usable _ member).chronological⟩

theorem mem_keys (h : Indexes normalize entries indexed) :
    symbol ∈ indexed.keys ↔ ∃ entry ∈ entries, normalize entry.1 = symbol := by
  have absent : indexed.get? symbol = none ↔ symbol ∉ indexed.keys := Dict.get?_none_iff
  rw [← barsOf_isSome, ← not_iff_not, ← absent, h.found, Option.map_eq_none_iff, Option.not_isSome_iff_eq_none]

theorem mem_values (h : Indexes normalize entries indexed) {dated : Dict Instant MarketBar} :
    dated ∈ indexed.values ↔ ∃ symbol bars, barsOf normalize entries symbol = some bars ∧ dated = byTime bars := by
  simp only [Dict.mem_values, h.found, Option.map_eq_some_iff]
  exact exists_congr fun _ => exists_congr fun _ => and_congr_right fun _ => eq_comm

theorem barAt_ok (h : Indexes normalize entries indexed) : barAt indexed at_ symbol = .ok bar ↔
    ∃ bars, barsOf normalize entries symbol = some bars ∧ bar ∈ bars ∧ bar.timestamp = at_ := by
  unfold barAt
  rw [h.found]
  cases named : barsOf normalize entries symbol with
  | none => simp
  | some bars =>
    rw [Option.map_some, Option.bind_some]
    have dated := @get?_byTime at_ bars (h.sound named).2
    cases read : (byTime bars).get? at_ with
    | none =>
      simp only [reduceCtorEq, Option.some.injEq, exists_eq_left', false_iff]
      rw [← dated, read]
      simp
    | some other =>
      simp only [Except.ok.injEq, Option.some.injEq, exists_eq_left']
      rw [← dated, read, Option.some.injEq]

theorem mem_shared (h : Indexes normalize entries indexed) (some_ : indexed.values ≠ []) :
    at_ ∈ sharedTimestamps indexed ↔
      ∀ symbol ∈ indexed.keys, ∃ bar, barAt indexed at_ symbol = .ok bar := by
  have inAll : at_ ∈ sharedTimestamps indexed ↔ ∀ dated ∈ indexed.values, at_ ∈ dated.keys := by
    unfold sharedTimestamps
    cases listed : indexed.values with
    | nil => exact absurd listed some_
    | cons first others => simp
  rw [inAll]
  constructor
  · intro inside symbol known
    obtain ⟨bars, named⟩ := Option.isSome_iff_exists.mp (barsOf_isSome.mpr (h.mem_keys.mp known))
    have member := inside _ (h.mem_values.mpr ⟨symbol, bars, named, rfl⟩)
    rw [keys_byTime (h.sound named).2] at member
    obtain ⟨bar, listed, same⟩ := List.mem_map.mp member
    exact ⟨bar, h.barAt_ok.mpr ⟨bars, named, listed, same⟩⟩
  · intro inside dated member
    obtain ⟨symbol, bars, named, rfl⟩ := h.mem_values.mp member
    have known : symbol ∈ indexed.keys := h.mem_keys.mpr (barsOf_isSome.mp (by rw [named]; rfl))
    obtain ⟨bar, read⟩ := inside symbol known
    obtain ⟨bars', named', listed, same⟩ := h.barAt_ok.mp read
    obtain rfl := Option.some.inj (named.symm.trans named')
    rw [keys_byTime (h.sound named).2]
    exact List.mem_map.mpr ⟨bar, listed, same⟩

end Indexes

theorem frameAt_ok : frameAt indexed symbols at_ = .ok frame ↔
    frame.timestamp = at_ ∧ symbols.map (barAt indexed at_) = frame.bars.map .ok := by
  unfold frameAt
  rw [bind_ok_iff]
  constructor
  · rintro ⟨bars, read, built⟩
    cases valid : UniverseFrame.validate at_ bars with
    | error fault =>
      rw [valid] at built
      cases built
    | ok made =>
      rw [valid] at built
      cases built
      obtain ⟨rfl, rfl⟩ := UniverseFrame.validate_ok.mp valid
      exact ⟨rfl, mapM_ok_iff.mp read⟩
  · rintro ⟨rfl, read⟩
    exact ⟨frame.bars, mapM_ok_iff.mpr read, by rw [UniverseFrame.validate_ok.mpr ⟨rfl, rfl⟩]; rfl⟩

theorem Indexes.frame_columns (h : Indexes normalize entries indexed)
    (read : symbols.map (barAt indexed at_) = frame.bars.map .ok) : frame.bars.map MarketBar.symbol = symbols := by
  generalize frame.bars = bars at read
  induction symbols generalizing bars with
  | nil =>
    rw [List.map_nil, eq_comm, List.map_eq_nil_iff] at read
    rw [read, List.map_nil]
  | cons symbol rest ih =>
    cases bars with
    | nil => cases read
    | cons bar others =>
      simp only [List.map_cons, List.cons.injEq] at read ⊢
      obtain ⟨bars, named, member, -⟩ := h.barAt_ok.mp read.1
      exact ⟨(h.sound named).1 bar member, ih others read.2⟩

theorem Indexes.frame_exists (h : Indexes normalize entries indexed) (at_ : Instant) (some_ : symbols ≠ [])
    (distinct : symbols.Nodup)
    (all : ∀ symbol ∈ symbols, ∃ bar, barAt indexed at_ symbol = .ok bar) :
    ∃ frame, frameAt indexed symbols at_ = .ok frame := by
  have listed : ∀ l : List String, (∀ symbol ∈ l, ∃ bar, barAt indexed at_ symbol = .ok bar) →
      ∃ bars : List MarketBar, l.map (barAt indexed at_) = bars.map .ok ∧ bars.map MarketBar.symbol = l ∧
        ∀ bar ∈ bars, bar.timestamp = at_ := by
    intro l
    induction l with
    | nil => exact fun _ => ⟨[], rfl, rfl, by simp⟩
    | cons symbol rest ih =>
      intro all
      obtain ⟨⟨bar, read⟩, others⟩ := List.forall_mem_cons.mp all
      obtain ⟨bars, reads, named, dated⟩ := ih others
      obtain ⟨found, known, member, at_⟩ := h.barAt_ok.mp read
      refine ⟨bar :: bars, by simp [read, reads], ?_, List.forall_mem_cons.mpr ⟨at_, dated⟩⟩
      rw [List.map_cons, named, (h.sound known).1 bar member]
  obtain ⟨bars, reads, named, dated⟩ := listed symbols all
  have nonempty : bars ≠ [] := by
    rintro rfl
    exact some_ named.symm
  exact ⟨⟨at_, bars, nonempty, by rw [named]; exact distinct, dated⟩, frameAt_ok.mpr ⟨rfl, reads⟩⟩

/-! ## The join -/

/-- What a data set has of the bars requested: a frame for each instant that all symbols have, in order. -/
structure Joined (normalize : String → String) (entries : List (String × List MarketBar)) (data : UniverseDataset) :
    Prop where
  ordered : data.manifest.symbols.Pairwise (· < ·)
  named : ∀ symbol, symbol ∈ data.manifest.symbols ↔ ∃ entry ∈ entries, normalize entry.1 = symbol
  chronological : (data.frames.map UniverseFrame.timestamp).Pairwise (· < ·)
  instants : ∀ at_, at_ ∈ data.frames.map UniverseFrame.timestamp ↔
    ∀ symbol ∈ data.manifest.symbols, ∃ bars, barsOf normalize entries symbol = some bars ∧
      at_ ∈ bars.map MarketBar.timestamp
  columns : ∀ frame ∈ data.frames, frame.bars.map MarketBar.symbol = data.manifest.symbols
  drawn : ∀ frame ∈ data.frames, ∀ bar ∈ frame.bars, ∃ bars,
    barsOf normalize entries bar.symbol = some bars ∧ bar ∈ bars
  counted : data.manifest.frames = data.frames.length ∧
    data.manifest.rows = data.frames.length * data.manifest.symbols.length
  spanned : data.frames.head?.map UniverseFrame.timestamp = some data.manifest.startedAt ∧
    data.frames.getLast?.map UniverseFrame.timestamp = some data.manifest.endedAt
  dropped : ∀ symbol ∈ data.manifest.symbols, ∃ bars, barsOf normalize entries symbol = some bars ∧
    data.manifest.droppedRows.get? symbol =
      some ((bars.filter fun bar => bar.timestamp ∉ data.frames.map UniverseFrame.timestamp).length : ℤ)

theorem increasing_sort {α : Type} [LinearOrder α] {l : List α} (distinct : l.Nodup) :
    (l.insertionSort (· ≤ ·)).Pairwise (· < ·) := by
  have ordered := List.pairwise_insertionSort (α := α) (· ≤ ·) l
  have apart : (l.insertionSort (· ≤ ·)).Nodup := (List.perm_insertionSort _ l).nodup_iff.mpr distinct
  exact (ordered.and apart).imp fun both => lt_of_le_of_ne both.1 both.2

theorem shared_nodup (h : Indexes normalize entries indexed) : (sharedTimestamps indexed).Nodup := by
  unfold sharedTimestamps
  split
  next => exact List.nodup_nil
  next first others listed =>
    obtain ⟨symbol, bars, named, rfl⟩ := h.mem_values.mp (listed ▸ List.mem_cons_self)
    apply List.Nodup.filter
    rw [keys_byTime (h.sound named).2]
    exact (h.sound named).2.imp ne_of_lt

/-- Of the instants of a column, those a subset has and those it lacks. -/
theorem length_missing {instants : List Instant} {bars : List MarketBar} (distinct : instants.Nodup)
    (chronological : (bars.map MarketBar.timestamp).Pairwise (· < ·))
    (within : ∀ at_ ∈ instants, at_ ∈ bars.map MarketBar.timestamp) :
    ((bars.filter fun bar => bar.timestamp ∉ instants).length : ℤ) = (bars.length : ℤ) - instants.length := by
  have kept : ((bars.map MarketBar.timestamp).filter (· ∈ instants)).Perm instants := by
    apply (List.perm_ext_iff_of_nodup ((chronological.imp ne_of_lt).filter _) distinct).mpr
    intro at_
    rw [List.mem_filter, decide_eq_true_eq]
    exact ⟨And.right, fun member => ⟨within at_ member, member⟩⟩
  have split := List.length_eq_length_filter_add (l := bars.map MarketBar.timestamp) (· ∈ instants)
  have others : (bars.map MarketBar.timestamp).filter (fun at_ => !decide (at_ ∈ instants)) =
      (bars.filter fun bar => bar.timestamp ∉ instants).map MarketBar.timestamp := by
    rw [List.filter_map]
    congr 1
    apply List.filter_congr
    simp
  rw [others, kept.length_eq, List.length_map, List.length_map] at split
  omega

variable {barsBySymbol : Dict String (List MarketBar)} {data : UniverseDataset}

theorem align_ok : alignUniverse normalize hash barsBySymbol = .ok data ↔
    barsBySymbol.entries ≠ [] ∧ ∃ indexed, barsBySymbol.entries.foldlM (indexBars normalize) .empty = .ok indexed ∧
      sharedTimestamps indexed ≠ [] ∧ ∃ frames,
        ((sharedTimestamps indexed).insertionSort (· ≤ ·)).map
          (frameAt indexed (indexed.keys.insertionSort (· ≤ ·))) = frames.map .ok ∧
        data = datasetOf hash indexed frames := by
  unfold alignUniverse
  by_cases empty : barsBySymbol.entries = []
  · simp [empty]
  · rw [if_neg empty, bind_ok_iff]
    constructor
    · rintro ⟨indexed, done, rest⟩
      refine ⟨empty, indexed, done, ?_⟩
      by_cases unshared : sharedTimestamps indexed = []
      · simp [unshared] at rest
      · simp only [if_neg unshared] at rest
        obtain ⟨frames, made, rest⟩ := bind_ok_iff.mp rest
        cases rest
        exact ⟨unshared, frames, mapM_ok_iff.mp made, rfl⟩
    · rintro ⟨-, indexed, done, shared, frames, made, rfl⟩
      refine ⟨indexed, done, ?_⟩
      simp only [if_neg shared]
      exact bind_ok_iff.mpr ⟨frames, mapM_ok_iff.mpr made, rfl⟩

/-- Frames made one by one are of the instants they were made for. -/
theorem frames_timestamps {instants : List Instant} {frames : List UniverseFrame}
    (made : instants.map (frameAt indexed symbols) = frames.map .ok) :
    frames.map UniverseFrame.timestamp = instants := by
  induction instants generalizing frames with
  | nil =>
    rw [List.map_nil, eq_comm, List.map_eq_nil_iff] at made
    rw [made, List.map_nil]
  | cons at_ rest ih =>
    cases frames with
    | nil => cases made
    | cons frame others =>
      simp only [List.map_cons, List.cons.injEq] at made
      rw [List.map_cons, ih made.2, (frameAt_ok.mp made.1).1]

theorem mem_frames {instants : List Instant} {frames : List UniverseFrame}
    (made : instants.map (frameAt indexed symbols) = frames.map .ok) (member : frame ∈ frames) :
    frameAt indexed symbols frame.timestamp = .ok frame := by
  obtain ⟨at_, -, read⟩ := List.mem_map.mp (made ▸ List.mem_map_of_mem member)
  rw [(frameAt_ok.mp read).1, read]

theorem datasetOf_joined (h : Indexes normalize barsBySymbol.entries indexed) {frames : List UniverseFrame}
    (shared : sharedTimestamps indexed ≠ []) (made : ((sharedTimestamps indexed).insertionSort (· ≤ ·)).map
      (frameAt indexed (indexed.keys.insertionSort (· ≤ ·))) = frames.map .ok) :
    Joined normalize barsBySymbol.entries (datasetOf hash indexed frames) := by
  have instants := frames_timestamps made
  have some_ : indexed.values ≠ [] := by
    intro none_
    simp [sharedTimestamps, none_] at shared
  have sorted := increasing_sort (shared_nodup h)
  have listed : ∀ at_, at_ ∈ frames.map UniverseFrame.timestamp ↔ ∀ symbol ∈ indexed.keys.insertionSort (· ≤ ·),
      ∃ bars, barsOf normalize barsBySymbol.entries symbol = some bars ∧ at_ ∈ bars.map MarketBar.timestamp := by
    intro at_
    rw [instants, List.mem_insertionSort, h.mem_shared some_]
    simp only [h.barAt_ok, List.mem_insertionSort, List.mem_map]
    apply forall_congr'
    intro symbol
    apply imp_congr_right
    intro _
    constructor
    · rintro ⟨bar, bars, named, member, dated⟩
      exact ⟨bars, named, bar, member, dated⟩
    · rintro ⟨bars, named, bar, member, dated⟩
      exact ⟨bar, bars, named, member, dated⟩
  have columns : ∀ frame ∈ frames, frame.bars.map MarketBar.symbol = indexed.keys.insertionSort (· ≤ ·) :=
    fun frame member => h.frame_columns (frameAt_ok.mp (mem_frames made member)).2
  constructor
  · exact increasing_sort indexed.distinct
  · intro symbol
    rw [← h.mem_keys]
    exact List.mem_insertionSort _
  · change (frames.map UniverseFrame.timestamp).Pairwise (· < ·)
    rw [instants]
    exact sorted
  · exact listed
  · exact columns
  · intro frame member bar inside
    have read := (frameAt_ok.mp (mem_frames made member)).2
    obtain ⟨symbol, -, found⟩ := List.mem_map.mp (read ▸ List.mem_map_of_mem inside)
    obtain ⟨bars, named, listed, -⟩ := h.barAt_ok.mp found
    exact ⟨bars, ((h.sound named).1 bar listed).symm ▸ named, listed⟩
  · refine ⟨rfl, ?_⟩
    change (frames.map fun frame => frame.bars.length).sum = frames.length * _
    rw [List.map_congr_left fun frame member => by
      rw [show frame.bars.length = (frame.bars.map MarketBar.symbol).length by rw [List.length_map],
        columns frame member]]
    simp [datasetOf]
  · have nonempty : frames ≠ [] := by
      rintro rfl
      rw [List.map_nil, eq_comm] at instants
      exact shared (List.perm_nil.mp (instants ▸ (List.perm_insertionSort _ _).symm))
    simp only [datasetOf]
    obtain ⟨first, rest, rfl⟩ := List.exists_cons_of_ne_nil nonempty
    simp [List.getLast?_cons, List.getLastD_eq_getLast?]
  · intro symbol known
    have inside := (List.mem_insertionSort _).mp known
    obtain ⟨bars, named⟩ := Option.isSome_iff_exists.mp (barsOf_isSome.mpr (h.mem_keys.mp inside))
    refine ⟨bars, named, ?_⟩
    have entry : (symbol, byTime bars) ∈ indexed.entries := Dict.mem_entries.mpr (by rw [h.found, named]; rfl)
    have distinct : ((indexed.entries.map fun e => (e.1, (e.2.keys.length : ℤ) - frames.length)).map
        Prod.fst).Nodup := by
      rw [List.map_map]
      exact indexed.distinct
    change (Dict.ofList (indexed.entries.map fun e => (e.1, (e.2.keys.length : ℤ) - frames.length))).get? symbol = _
    rw [Dict.get?_ofList distinct, Dict.find_of_mem distinct (List.mem_map_of_mem entry)]
    change some (((byTime bars).keys.length : ℤ) - frames.length) = _
    have apart : (frames.map UniverseFrame.timestamp).Nodup := instants ▸ sorted.imp ne_of_lt
    have missing := length_missing apart (h.sound named).2 (by
      intro at_ member
      obtain ⟨bars', named', found⟩ := (listed at_).mp member symbol known
      obtain rfl := Option.some.inj (named.symm.trans named')
      exact found)
    rw [keys_byTime (h.sound named).2, List.length_map]
    rw [List.length_map] at missing
    exact congrArg some missing.symm

/-- Bars align exactly when each column is usable and some instant is in all of them, and what they align to is
their join. -/
theorem align_universe_joins (normalize : String → String) (hash : List MarketBar → String)
    (barsBySymbol : Dict String (List MarketBar)) :
    ((∃ data, alignUniverse normalize hash barsBySymbol = .ok data) ↔
      barsBySymbol.entries ≠ [] ∧ (∀ entry ∈ barsBySymbol.entries, Usable normalize entry) ∧
        ∃ at_, ∀ entry ∈ barsBySymbol.entries, ∃ bars,
          barsOf normalize barsBySymbol.entries (normalize entry.1) = some bars ∧
            at_ ∈ bars.map MarketBar.timestamp) ∧
    ∀ data, alignUniverse normalize hash barsBySymbol = .ok data →
      Joined normalize barsBySymbol.entries data := by
  have joined : ∀ data, alignUniverse normalize hash barsBySymbol = .ok data →
      Joined normalize barsBySymbol.entries data := by
    intro data done
    obtain ⟨-, indexed, found, shared, frames, made, rfl⟩ := align_ok.mp done
    exact datasetOf_joined (.of found) shared made
  refine ⟨⟨?_, ?_⟩, joined⟩
  · rintro ⟨data, done⟩
    obtain ⟨some_, indexed, found, shared, frames, made, rfl⟩ := align_ok.mp done
    refine ⟨some_, (Indexes.of found).usable, ?_⟩
    have join := joined _ done
    obtain ⟨at_, inside⟩ := List.exists_mem_of_ne_nil _ shared
    have instants := frames_timestamps made
    have shown := (join.instants at_).mp (by
      change at_ ∈ frames.map UniverseFrame.timestamp
      rw [instants]
      exact (List.mem_insertionSort _).mpr inside)
    exact ⟨at_, fun entry member => shown _ ((join.named _).mpr ⟨entry, member, rfl⟩)⟩
  · rintro ⟨some_, usable, at_, shared⟩
    obtain ⟨indexed, found⟩ := indexed_exists usable .empty
    have h := Indexes.of found
    have all : ∀ symbol ∈ indexed.keys, ∃ bar, barAt indexed at_ symbol = .ok bar := by
      intro symbol known
      obtain ⟨entry, member, rfl⟩ := h.mem_keys.mp known
      obtain ⟨bars, named, dated⟩ := shared entry member
      obtain ⟨bar, listed, same⟩ := List.mem_map.mp dated
      exact ⟨bar, h.barAt_ok.mpr ⟨bars, named, listed, same⟩⟩
    obtain ⟨entry, member⟩ := List.exists_mem_of_ne_nil _ some_
    have known : normalize entry.1 ∈ indexed.keys := h.mem_keys.mpr ⟨entry, member, rfl⟩
    have values : indexed.values ≠ [] := by
      obtain ⟨bars, named, -⟩ := shared entry member
      exact List.ne_nil_of_mem (h.mem_values.mpr ⟨_, bars, named, rfl⟩)
    have inside : at_ ∈ sharedTimestamps indexed := (h.mem_shared values).mpr all
    have each : ∀ instants : List Instant, (∀ at_ ∈ instants, at_ ∈ sharedTimestamps indexed) →
        ∃ frames : List UniverseFrame,
          instants.map (frameAt indexed (indexed.keys.insertionSort (· ≤ ·))) = frames.map .ok := by
      intro instants
      induction instants with
      | nil => exact fun _ => ⟨[], rfl⟩
      | cons at_ rest ih =>
        intro within
        obtain ⟨frames, made⟩ := ih fun at_ member => within at_ (List.mem_cons_of_mem _ member)
        obtain ⟨frame, first⟩ := h.frame_exists at_
          (List.ne_nil_of_mem ((List.mem_insertionSort _).mpr known))
          ((List.perm_insertionSort (· ≤ ·) indexed.keys).nodup_iff.mpr indexed.distinct)
          (fun symbol member => (h.mem_shared values).mp (within at_ List.mem_cons_self) symbol
            ((List.mem_insertionSort _).mp member))
        exact ⟨frame :: frames, by simp [first, made]⟩
    obtain ⟨frames, made⟩ := each ((sharedTimestamps indexed).insertionSort (· ≤ ·))
      fun at_ member => (List.mem_insertionSort _).mp member
    exact ⟨_, align_ok.mpr ⟨some_, indexed, found, List.ne_nil_of_mem inside, frames, made, rfl⟩⟩

end TradeAgent.Portfolio
