import Mathlib.Data.List.TakeWhile
import TradeAgent.Library.Machine
import TradeAgent.MinuteBars
import TradeAgent.Universe

/-! Five-minute frames of a live stream of minute bars: a frame once all minutes of all symbols are in, and a report
of whatever kept one from being made. -/
namespace TradeAgent.LiveShadow

open Portfolio

theorem sameBar_iff {a b : MarketBar} :
    (a.symbol = b.symbol ∧ a.timestamp = b.timestamp ∧ a.openPrice = b.openPrice ∧ a.high = b.high ∧ a.low = b.low ∧
      a.close = b.close ∧ a.volume = b.volume) ↔ a = b := by
  cases a
  cases b
  simp

instance : DecidableEq MarketBar := fun _ _ => decidable_of_iff _ sameBar_iff

def oneMinute : ℤ := minute

def fiveMinutes : ℤ := 5 * minute

/-- The bucket of an instant: minutes cut to a multiple of five. -/
def bucketOf (at_ : ℤ) : ℤ := at_ - at_ % fiveMinutes

def expected (bucket : ℤ) : List ℤ := (List.range 5).map fun index : ℕ => bucket + index * oneMinute

/-- No seconds and no microseconds. -/
def aligned (at_ : ℤ) : Bool := at_ % oneMinute = 0

inductive Reason where
  | lateBar
  | incomplete
  | missingBuckets (missingUntil : Instant) (count : ℤ)
  | conflicting (incoming previous : MarketBar)
  | unaligned
  | stopped (stoppedAt : Instant)
  deriving DecidableEq

def Reason.text : Reason → String
  | lateBar => "late_bar_after_bucket_closed"
  | incomplete => "incomplete_five_minute_bucket"
  | missingBuckets .. => "missing_five_minute_buckets"
  | conflicting .. => "conflicting_minute_bar"
  | unaligned => "unaligned_minute_bar"
  | stopped _ => "incomplete_bucket_at_stop"

/-- An unusable frame, with the minutes that each symbol lacks. -/
structure Issue where
  bucketStart : Instant
  reason : Reason
  discoveredEventAt : Instant
  missingMinutes : List (String × List Instant)
  deriving DecidableEq

inductive BuildFault where
  | noSymbols
  | unexpected (symbol : String)
  | missing (symbol : String)
  | frame (fault : FrameFault)
  deriving DecidableEq, Repr

/-- The symbols of a frame, sorted. -/
structure Symbols where
  names : List String
  nonempty : names ≠ []
  sorted : names.Pairwise (· < ·)

def Symbols.of (symbols : List String) : Except BuildFault Symbols :=
  if empty : symbols.dedup.insertionSort (· ≤ ·) = [] then .error .noSymbols
  else .ok ⟨_, empty, increasing_sort symbols.nodup_dedup⟩

abbrev Minutes := Dict String (Dict Instant MarketBar)

/-- The builder; `issues` are the reports of unusable frames, of which it counts all and keeps the last. -/
structure Builder where
  bucket : Option Instant := none
  bars : Minutes := .empty
  emitted : Bool := false
  invalid : Bool := false
  duplicateMinutes : ℕ := 0
  issues : List Issue := []

namespace Builder

def unusableFrames (b : Builder) : ℕ := b.issues.length

def lastUnusable (b : Builder) : Option Issue := b.issues.getLast?

def pendingMinutes (b : Builder) : ℕ := (b.bars.values.map fun minutes => minutes.keys.length).sum

def minuteOf (bars : Minutes) (symbol : String) (minute_ : Instant) : Option MarketBar :=
  (bars.get? symbol).bind fun minutes => minutes.get? minute_

variable (symbols : Symbols)

def missingMinutes (bars : Minutes) (bucket : Instant) : List (String × List Instant) :=
  symbols.names.map fun symbol => (symbol, (expected bucket).filter fun at_ => (minuteOf bars symbol at_).isNone)

def unusable (b : Builder) (bucket : Instant) (reason : Reason) (discovered : Instant) : Builder :=
  { b with issues := b.issues ++ [⟨bucket, reason, discovered, missingMinutes symbols b.bars bucket⟩] }

/-- Leaves the open bucket for that of a later bar. -/
def turn (b : Builder) (bucket at_ : Instant) : Builder :=
  match b.bucket with
  | none => b
  | some opened =>
    if opened < bucket then
      let b := if b.emitted then b else unusable symbols b opened .incomplete at_
      let b :=
        if opened + fiveMinutes < bucket then
          unusable symbols b (opened + fiveMinutes) (.missingBuckets bucket ((bucket - opened) / fiveMinutes - 1)) at_
        else b
      { b with bars := .empty, emitted := false, invalid := false }
    else b

/-- Whether a symbol has exactly the minutes of a bucket. -/
def holdsAll (bars : Minutes) (bucket : Instant) (symbol : String) : Bool :=
  let minutes := (bars.getD symbol .empty).keys
  minutes.all (· ∈ expected bucket) && (expected bucket).all (· ∈ minutes)

def complete (bucket : Instant) (bars : Minutes) (symbol : String) : Except BuildFault MarketBar :=
  match (expected bucket).mapM (minuteOf bars symbol) with
  | some (first :: rest) => .ok (Intraday.combine (bucket + fiveMinutes) first rest)
  | _ => .error (.missing symbol)

def assemble (bucket : Instant) (bars : Minutes) : Except BuildFault UniverseFrame := do
  let completed ← symbols.names.mapM (complete bucket bars)
  (UniverseFrame.validate (bucket + fiveMinutes) completed).mapError .frame

def placeMinute (b : Builder) (bucket : Instant) (bar : MarketBar) :
    Builder × Except BuildFault (Option UniverseFrame) :=
  match minuteOf b.bars bar.symbol bar.timestamp with
  | some prior =>
    if prior = bar then ({ b with duplicateMinutes := b.duplicateMinutes + 1 }, .ok none)
    else (unusable symbols { b with invalid := true } bucket (.conflicting bar prior) bar.timestamp, .ok none)
  | none =>
    if !aligned bar.timestamp then
      (unusable symbols { b with invalid := true } bucket .unaligned bar.timestamp, .ok none)
    else
      let b := { b with bars := b.bars.modify bar.symbol fun minutes => minutes.set bar.timestamp bar }
      if b.emitted || b.invalid || !symbols.names.all (holdsAll b.bars bucket) then (b, .ok none)
      else
        match assemble symbols bucket b.bars with
        | .ok frame => ({ b with emitted := true }, .ok (some frame))
        | .error fault => (b, .error fault)

/-- Puts a bar into its bucket, which is the open one. -/
def place (b : Builder) (bucket : Instant) (bar : MarketBar) : Builder × Except BuildFault (Option UniverseFrame) :=
  placeMinute symbols { b with bucket := some bucket, bars := b.bars.setDefault bar.symbol .empty } bucket bar

def add (b : Builder) (bar : MarketBar) : Builder × Except BuildFault (Option UniverseFrame) :=
  if bar.symbol ∉ symbols.names then (b, .error (.unexpected bar.symbol))
  else
    let bucket := bucketOf bar.timestamp
    if b.bucket.any (bucket < ·) then (unusable symbols b bucket .lateBar bar.timestamp, .ok none)
    else place symbols (turn symbols b bucket bar.timestamp) bucket bar

def finish (b : Builder) (observedAt : Instant) : Builder :=
  let b :=
    match b.bucket with
    | some opened => if b.emitted then b else unusable symbols b opened (.stopped observedAt) opened
    | none => b
  { b with bucket := none, bars := .empty, emitted := false, invalid := false }

end Builder

/-! ## Minutes of a bucket -/

theorem oneMinute_eq : oneMinute = 60000000 := rfl

theorem fiveMinutes_eq : fiveMinutes = 300000000 := rfl

theorem aligned_iff {at_ : ℤ} : aligned at_ = true ↔ at_ % 60000000 = 0 := by
  rw [aligned, decide_eq_true_eq, oneMinute_eq]

theorem mem_expected {bucket at_ : ℤ} :
    at_ ∈ expected bucket ↔ bucket ≤ at_ ∧ at_ < bucket + fiveMinutes ∧ (at_ - bucket) % 60000000 = 0 := by
  simp only [expected, oneMinute_eq, fiveMinutes_eq, List.mem_map, List.mem_range]
  constructor
  · rintro ⟨index, below, rfl⟩
    omega
  · rintro ⟨least, below, whole⟩
    exact ⟨((at_ - bucket) / 60000000).toNat, by omega, by omega⟩

theorem bucketOf_eq (at_ : ℤ) : bucketOf at_ = at_ - at_ % 300000000 := rfl

theorem expected_of_aligned {at_ : ℤ} (whole : aligned at_ = true) : at_ ∈ expected (bucketOf at_) := by
  rw [aligned_iff] at whole
  rw [mem_expected, bucketOf_eq, fiveMinutes_eq]
  omega

theorem bucketOf_expected {bucket at_ : ℤ} (start : bucket % fiveMinutes = 0) (member : at_ ∈ expected bucket) :
    bucketOf at_ = bucket ∧ aligned at_ = true := by
  rw [mem_expected, fiveMinutes_eq] at member
  rw [fiveMinutes_eq] at start
  rw [aligned_iff, bucketOf_eq]
  omega

theorem bucketOf_start (at_ : ℤ) : bucketOf at_ % fiveMinutes = 0 := by
  rw [bucketOf_eq, fiveMinutes_eq]
  omega

/-! ## What a frame is made of -/

abbrev slot (bar : MarketBar) : ℤ := bucketOf bar.timestamp

/-- The bars of a bucket that came before any of a later one. -/
def onTime (seen : List MarketBar) (bucket : ℤ) : List MarketBar :=
  (seen.takeWhile fun bar => slot bar ≤ bucket).filter fun bar => slot bar = bucket

/-- Bars that a frame can be made of: minutes apart, without contradiction, all of them there. -/
structure Whole (symbols : Symbols) (bucket : ℤ) (bars : List MarketBar) : Prop where
  whole : ∀ bar ∈ bars, aligned bar.timestamp = true
  consistent : ∀ x ∈ bars, ∀ y ∈ bars, x.symbol = y.symbol → x.timestamp = y.timestamp → x = y
  full : ∀ symbol ∈ symbols.names, ∀ at_ ∈ expected bucket, ∃ bar ∈ bars, bar.symbol = symbol ∧ bar.timestamp = at_

/-- The frame of a bucket: of each symbol the five minutes combined. -/
structure Shows (symbols : Symbols) (bucket : ℤ) (bars : List MarketBar) (frame : UniverseFrame) : Prop where
  timestamp : frame.timestamp = bucket + fiveMinutes
  columns : frame.bars.map MarketBar.symbol = symbols.names
  combined : ∀ bar ∈ frame.bars, ∃ first rest, bar = Intraday.combine (bucket + fiveMinutes) first rest ∧
    (first :: rest).map MarketBar.timestamp = expected bucket ∧
    ∀ x ∈ first :: rest, x ∈ bars ∧ x.symbol = bar.symbol

/-- Some of the bars on time, up to a moment, make a frame. -/
def Produced (symbols : Symbols) (bucket : ℤ) (own : List MarketBar) : Prop :=
  ∃ p, p <+: own ∧ Whole symbols bucket p

variable {symbols : Symbols} {bucket : ℤ} {own seen : List MarketBar} {bar : MarketBar} {bars : Minutes}
  {b : Builder}

theorem prefix_snoc {α : Type} {p l : List α} {a : α} : p <+: l ++ [a] ↔ p <+: l ∨ p = l ++ [a] := by
  rw [List.prefix_concat_iff, or_comm]

theorem produced_snoc :
    Produced symbols bucket (own ++ [bar]) ↔ Produced symbols bucket own ∨ Whole symbols bucket (own ++ [bar]) := by
  unfold Produced
  simp only [prefix_snoc, or_and_right, exists_or, exists_eq_left]

theorem Whole.congr {own' : List MarketBar} (same : ∀ x, x ∈ own ↔ x ∈ own') (h : Whole symbols bucket own) :
    Whole symbols bucket own' := by
  constructor
  · exact fun x member => h.whole x ((same x).mpr member)
  · exact fun x one y two => h.consistent x ((same x).mpr one) y ((same y).mpr two)
  · intro symbol known at_ member
    obtain ⟨x, inside, fits⟩ := h.full symbol known at_ member
    exact ⟨x, (same x).mp inside, fits⟩

theorem not_produced_nil : ¬Produced symbols bucket [] := by
  rintro ⟨p, start, whole⟩
  obtain rfl := List.prefix_nil.mp start
  obtain ⟨symbol, known⟩ := List.exists_mem_of_ne_nil _ symbols.nonempty
  have first : bucket ∈ expected bucket := by
    rw [mem_expected, fiveMinutes_eq]
    omega
  obtain ⟨bar, member, -⟩ := whole.full symbol known bucket first
  exact List.not_mem_nil member

/-! ## What the builder holds -/

/-- The bars held are of the bucket's own, one for each minute that has any; what contradicts is marked. -/
structure Holds (bucket : ℤ) (own : List MarketBar) (b : Builder) : Prop where
  inBucket : ∀ x ∈ own, slot x = bucket
  drawn : ∀ symbol at_ x, Builder.minuteOf b.bars symbol at_ = some x →
    x ∈ own ∧ x.symbol = symbol ∧ x.timestamp = at_ ∧ aligned at_ = true
  stored : ∀ x ∈ own, aligned x.timestamp = true → ∃ y, Builder.minuteOf b.bars x.symbol x.timestamp = some y
  invalid : b.invalid = true ↔ ¬((∀ x ∈ own, aligned x.timestamp = true) ∧
    ∀ x ∈ own, ∀ y ∈ own, x.symbol = y.symbol → x.timestamp = y.timestamp → x = y)

structure Held (symbols : Symbols) (bucket : ℤ) (own : List MarketBar) (b : Builder) : Prop
    extends Holds bucket own b where
  emitted : b.emitted = true ↔ Produced symbols bucket own

theorem minuteOf_setDefault (bars : Minutes) (symbol other : String) (at_ : Instant) :
    Builder.minuteOf (bars.setDefault symbol .empty) other at_ = Builder.minuteOf bars other at_ := by
  unfold Builder.minuteOf
  rw [Dict.get?_setDefault]
  by_cases same : symbol = other
  · subst same
    cases bars.get? symbol <;> simp
  · simp [same]

theorem minuteOf_modify {bars : Minutes} {symbol : String} (known : (bars.get? symbol).isSome) (bar : MarketBar)
    (other : String) (at_ at' : Instant) :
    Builder.minuteOf (bars.modify symbol fun minutes => minutes.set at' bar) other at_ =
      if symbol = other ∧ at' = at_ then some bar else Builder.minuteOf bars other at_ := by
  unfold Builder.minuteOf
  rw [Dict.get?_modify]
  obtain ⟨minutes, found⟩ := Option.isSome_iff_exists.mp known
  by_cases same : symbol = other
  · subst same
    by_cases now : at' = at_ <;> simp [found, now]
  · simp [same]

theorem isSome_setDefault (bars : Minutes) (symbol : String) :
    ((bars.setDefault symbol .empty).get? symbol).isSome := by
  rw [Dict.get?_setDefault]
  cases bars.get? symbol <;> simp

theorem mem_minutes {symbol : String} {at_ : Instant} :
    at_ ∈ (bars.getD symbol .empty).keys ↔ ∃ x, Builder.minuteOf bars symbol at_ = some x := by
  unfold Builder.minuteOf Dict.getD
  cases found : bars.get? symbol with
  | none => simp [Dict.empty, Dict.keys]
  | some minutes =>
    have absent : minutes.get? at_ = none ↔ at_ ∉ minutes.keys := Dict.get?_none_iff
    rw [Option.getD_some, Option.bind_some, ← Option.ne_none_iff_exists', ne_eq, absent, not_not]

namespace Holds

theorem holdsAll_iff (h : Holds bucket own b) :
    symbols.names.all (Builder.holdsAll b.bars bucket) = true ↔
      ∀ symbol ∈ symbols.names, ∀ at_ ∈ expected bucket, ∃ x, Builder.minuteOf b.bars symbol at_ = some x := by
  simp only [List.all_eq_true, Builder.holdsAll, Bool.and_eq_true, decide_eq_true_eq]
  apply forall_congr'
  intro symbol
  apply imp_congr_right
  intro _
  constructor
  · intro both at_ member
    exact mem_minutes.mp (both.2 at_ member)
  · intro all
    refine ⟨fun at_ member => ?_, fun at_ member => mem_minutes.mpr (all at_ member)⟩
    obtain ⟨x, found⟩ := mem_minutes.mp member
    obtain ⟨inside, -, rfl, whole⟩ := h.drawn symbol at_ x found
    rw [← h.inBucket x inside]
    exact expected_of_aligned whole

/-- The minutes held are those that a frame asks for. -/
theorem full_iff (h : Holds bucket own b) (start : bucket % fiveMinutes = 0) :
    symbols.names.all (Builder.holdsAll b.bars bucket) = true ↔
      ∀ symbol ∈ symbols.names, ∀ at_ ∈ expected bucket, ∃ x ∈ own, x.symbol = symbol ∧ x.timestamp = at_ := by
  rw [h.holdsAll_iff]
  apply forall_congr'
  intro symbol
  apply imp_congr_right
  intro _
  apply forall_congr'
  intro at_
  apply imp_congr_right
  intro member
  constructor
  · rintro ⟨x, found⟩
    obtain ⟨inside, named, dated, -⟩ := h.drawn symbol at_ x found
    exact ⟨x, inside, named, dated⟩
  · rintro ⟨x, inside, rfl, rfl⟩
    exact h.stored x inside (bucketOf_expected start member).2

theorem whole_iff (h : Holds bucket own b) (start : bucket % fiveMinutes = 0) :
    Whole symbols bucket own ↔
      b.invalid = false ∧ symbols.names.all (Builder.holdsAll b.bars bucket) = true := by
  rw [h.full_iff start, ← Bool.not_eq_true, h.invalid, not_not]
  constructor
  · exact fun whole => ⟨⟨whole.whole, whole.consistent⟩, whole.full⟩
  · exact fun both => ⟨both.1.1, both.1.2, both.2⟩

theorem complete_ok (h : Holds bucket own b) {symbol : String}
    (all : ∀ at_ ∈ expected bucket, ∃ x, Builder.minuteOf b.bars symbol at_ = some x) :
    ∃ first rest, Builder.complete bucket b.bars symbol =
        .ok (Intraday.combine (bucket + fiveMinutes) first rest) ∧ first.symbol = symbol ∧
      (first :: rest).map MarketBar.timestamp = expected bucket ∧
      ∀ x ∈ first :: rest, x ∈ own ∧ x.symbol = symbol := by
  have listed : ∀ l : List ℤ, (∀ at_ ∈ l, ∃ x, Builder.minuteOf b.bars symbol at_ = some x) →
      ∃ xs : List MarketBar, l.mapM (Builder.minuteOf b.bars symbol) = some xs ∧ xs.map MarketBar.timestamp = l ∧
        ∀ x ∈ xs, x ∈ own ∧ x.symbol = symbol := by
    intro l
    induction l with
    | nil => exact fun _ => ⟨[], rfl, rfl, by simp⟩
    | cons at_ rest ih =>
      intro all
      obtain ⟨⟨x, found⟩, others⟩ := List.forall_mem_cons.mp all
      obtain ⟨xs, made, dated, drawn⟩ := ih others
      obtain ⟨inside, named, rfl, -⟩ := h.drawn symbol at_ x found
      refine ⟨x :: xs, ?_, by rw [List.map_cons, dated], List.forall_mem_cons.mpr ⟨⟨inside, named⟩, drawn⟩⟩
      rw [List.mapM_cons, found, made]
      rfl
  obtain ⟨xs, made, dated, drawn⟩ := listed _ all
  cases xs with
  | nil => cases dated
  | cons first rest =>
    refine ⟨first, rest, ?_, (drawn first List.mem_cons_self).2, dated, drawn⟩
    unfold Builder.complete
    rw [made]

theorem assemble_ok (h : Holds bucket own b)
    (all : symbols.names.all (Builder.holdsAll b.bars bucket) = true) :
    ∃ frame, Builder.assemble symbols bucket b.bars = .ok frame ∧ Shows symbols bucket own frame := by
  have each := h.holdsAll_iff.mp all
  have listed : ∀ l : List String, (∀ symbol ∈ l, symbol ∈ symbols.names) → ∃ made : List MarketBar,
      l.map (Builder.complete bucket b.bars) = made.map .ok ∧ made.map MarketBar.symbol = l ∧
        ∀ bar ∈ made, bar.timestamp = bucket + fiveMinutes ∧ ∃ first rest,
          bar = Intraday.combine (bucket + fiveMinutes) first rest ∧
          (first :: rest).map MarketBar.timestamp = expected bucket ∧
          ∀ x ∈ first :: rest, x ∈ own ∧ x.symbol = bar.symbol := by
    intro l
    induction l with
    | nil => exact fun _ => ⟨[], rfl, rfl, by simp⟩
    | cons symbol rest ih =>
      intro known
      obtain ⟨here, later⟩ := List.forall_mem_cons.mp known
      obtain ⟨made, done, named, shown⟩ := ih later
      obtain ⟨first, others, completed, same, dated, drawn⟩ := h.complete_ok (each symbol here)
      refine ⟨Intraday.combine (bucket + fiveMinutes) first others :: made, ?_, ?_, ?_⟩
      · rw [List.map_cons, List.map_cons, completed, done]
      · rw [List.map_cons, named]
        exact congrArg (· :: rest) same
      · exact List.forall_mem_cons.mpr ⟨⟨rfl, first, others, rfl, dated,
          fun x member => ⟨(drawn x member).1, (drawn x member).2.trans same.symm⟩⟩, shown⟩
  obtain ⟨made, done, named, shown⟩ := listed symbols.names fun _ member => member
  have nonempty : made ≠ [] := by
    rintro rfl
    exact symbols.nonempty named.symm
  have distinct : (made.map MarketBar.symbol).Nodup := by
    rw [named]
    exact symbols.sorted.imp ne_of_lt
  let frame : UniverseFrame :=
    ⟨bucket + fiveMinutes, made, nonempty, distinct, fun bar member => (shown bar member).1⟩
  have valid : UniverseFrame.validate (bucket + fiveMinutes) made = .ok frame := UniverseFrame.validate_ok.mpr ⟨rfl, rfl⟩
  refine ⟨frame, bind_ok_iff.mpr ⟨made, mapM_ok_iff.mpr done, ?_⟩, ⟨rfl, named, fun bar member => (shown bar member).2⟩⟩
  rw [valid]
  rfl

end Holds

theorem Held.touch (h : Held symbols bucket own b) (symbol : String) :
    Held symbols bucket own { b with bucket := some bucket, bars := b.bars.setDefault symbol .empty } := by
  refine ⟨⟨h.inBucket, fun other at_ x found => ?_, fun x member whole => ?_, h.invalid⟩, h.emitted⟩
  · rw [minuteOf_setDefault] at found
    exact h.drawn other at_ x found
  · rw [minuteOf_setDefault]
    exact h.stored x member whole

/-- Frames that a report says a bucket went without. -/
def Reason.gap : Reason → Bool
  | incomplete | missingBuckets .. => true
  | lateBar | conflicting .. | unaligned | stopped _ => false

/-- What a bar of the open bucket comes to. -/
structure Placed (symbols : Symbols) (bucket : ℤ) (own : List MarketBar) (bar : MarketBar) (b b' : Builder)
    (result : Option UniverseFrame) : Prop where
  held : Held symbols bucket (own ++ [bar]) b'
  opened : b'.bucket = some bucket
  reported : ∃ issues, b'.issues = b.issues ++ issues ∧ ∀ issue ∈ issues, issue.reason.gap = false
  made : ∀ frame, result = some frame → ¬Produced symbols bucket own ∧ Whole symbols bucket (own ++ [bar]) ∧
    Shows symbols bucket (own ++ [bar]) frame
  unmade : result = none → Whole symbols bucket (own ++ [bar]) → Produced symbols bucket own

theorem Held.again (h : Held symbols bucket own b) (member : bar ∈ own) :
    Held symbols bucket (own ++ [bar]) b ∧
      (Whole symbols bucket (own ++ [bar]) → Produced symbols bucket own) := by
  have same : ∀ x, x ∈ own ++ [bar] ↔ x ∈ own := by
    intro x
    rw [List.mem_append, List.mem_singleton, or_iff_left_iff_imp]
    rintro rfl
    exact member
  have again : Whole symbols bucket (own ++ [bar]) → Produced symbols bucket own :=
    fun whole => ⟨own, List.prefix_rfl, whole.congr same⟩
  refine ⟨⟨⟨?_, ?_, ?_, ?_⟩, ?_⟩, again⟩
  · simpa only [same] using h.inBucket
  · simpa only [same] using h.drawn
  · simpa only [same] using h.stored
  · simpa only [same] using h.invalid
  · rw [h.emitted, produced_snoc]
    exact ⟨.inl, fun either => either.elim id again⟩

/-- A bar that contradicts, or lies between the minutes, spoils the bucket. -/
theorem Held.spoil (h : Held symbols bucket own b) (inside : slot bar = bucket)
    (kept : aligned bar.timestamp = true → ∃ y, Builder.minuteOf b.bars bar.symbol bar.timestamp = some y)
    (spoilt : ¬((∀ x ∈ own ++ [bar], aligned x.timestamp = true) ∧ ∀ x ∈ own ++ [bar], ∀ y ∈ own ++ [bar],
      x.symbol = y.symbol → x.timestamp = y.timestamp → x = y)) :
    Held symbols bucket (own ++ [bar]) { b with invalid := true } ∧ ¬Whole symbols bucket (own ++ [bar]) := by
  have never : ¬Whole symbols bucket (own ++ [bar]) := fun whole => spoilt ⟨whole.whole, whole.consistent⟩
  refine ⟨⟨⟨?_, ?_, ?_, ?_⟩, ?_⟩, never⟩
  · exact List.forall_mem_append.mpr ⟨h.inBucket, by simpa using inside⟩
  · intro symbol at_ x found
    obtain ⟨member, rest⟩ := h.drawn symbol at_ x found
    exact ⟨List.mem_append_left _ member, rest⟩
  · exact List.forall_mem_append.mpr ⟨h.stored, by simpa using kept⟩
  · simpa using spoilt
  · rw [produced_snoc, or_iff_left never]
    exact h.emitted

/-- A first bar of its minute is stored. -/
theorem Held.store (h : Held symbols bucket own b) (known : (b.bars.get? bar.symbol).isSome)
    (inside : slot bar = bucket) (whole : aligned bar.timestamp = true)
    (free : Builder.minuteOf b.bars bar.symbol bar.timestamp = none) :
    Holds bucket (own ++ [bar])
      { b with bars := b.bars.modify bar.symbol fun minutes => minutes.set bar.timestamp bar } := by
  refine ⟨List.forall_mem_append.mpr ⟨h.inBucket, by simpa using inside⟩, ?_, ?_, ?_⟩
  · intro symbol at_ x found
    rw [minuteOf_modify known] at found
    split at found
    next same =>
      cases found
      exact ⟨by simp, same.1, same.2, same.2 ▸ whole⟩
    next =>
      obtain ⟨member, rest⟩ := h.drawn symbol at_ x found
      exact ⟨List.mem_append_left _ member, rest⟩
  · intro x member whole'
    rw [minuteOf_modify known]
    split
    next => exact ⟨bar, rfl⟩
    next other =>
      rcases List.mem_append.mp member with old | new
      · exact h.stored x old whole'
      · obtain rfl := List.mem_singleton.mp new
        exact absurd ⟨rfl, rfl⟩ other
  · rw [h.invalid, not_iff_not]
    constructor
    · rintro ⟨all, consistent⟩
      have alone : ∀ x ∈ own, x.symbol = bar.symbol → x.timestamp = bar.timestamp → False := by
        intro x member named dated
        obtain ⟨y, found⟩ := h.stored x member (all x member)
        rw [named, dated, free] at found
        cases found
      refine ⟨List.forall_mem_append.mpr ⟨all, by simpa using whole⟩, ?_⟩
      intro x one y two named dated
      rcases List.mem_append.mp one with old | new <;> rcases List.mem_append.mp two with old' | new'
      · exact consistent x old y old' named dated
      · obtain rfl := List.mem_singleton.mp new'
        exact (alone x old named dated).elim
      · obtain rfl := List.mem_singleton.mp new
        exact (alone y old' named.symm dated.symm).elim
      · rw [List.mem_singleton.mp new, List.mem_singleton.mp new']
    · rintro ⟨all, consistent⟩
      exact ⟨fun x member => all x (List.mem_append_left _ member), fun x one y two =>
        consistent x (List.mem_append_left _ one) y (List.mem_append_left _ two)⟩

theorem Held.placeMinute (h : Held symbols bucket own b) (start : bucket % fiveMinutes = 0)
    (inside : slot bar = bucket) (opened : b.bucket = some bucket) (known : (b.bars.get? bar.symbol).isSome) :
    ∃ b' result, Builder.placeMinute symbols b bucket bar = (b', .ok result) ∧
      Placed symbols bucket own bar b b' result := by
  unfold Builder.placeMinute
  cases found : Builder.minuteOf b.bars bar.symbol bar.timestamp with
  | some prior =>
    obtain ⟨member, named, dated, whole⟩ := h.drawn _ _ _ found
    by_cases same : prior = bar
    · obtain ⟨held, again⟩ := h.again (same ▸ member)
      simp only [if_pos same]
      exact ⟨_, _, rfl, ⟨⟨held.inBucket, held.drawn, held.stored, held.invalid⟩, held.emitted⟩, opened,
        ⟨[], by simp, by simp⟩, by simp, fun _ => again⟩
    · simp only [if_neg same]
      obtain ⟨held, never⟩ := h.spoil inside (fun _ => ⟨prior, found⟩) (by
        rintro ⟨-, consistent⟩
        exact same (consistent prior (List.mem_append_left _ member) bar (by simp) named dated))
      exact ⟨_, _, rfl, ⟨⟨held.inBucket, held.drawn, held.stored, held.invalid⟩, held.emitted⟩, opened,
        ⟨_, rfl, by simp [Reason.gap]⟩, by simp, fun _ whole => absurd whole never⟩
  | none =>
    cases whole : aligned bar.timestamp with
    | false =>
      obtain ⟨held, never⟩ := h.spoil inside (fun true_ => by rw [whole] at true_; cases true_) (by
        rintro ⟨all, -⟩
        have := all bar (by simp)
        rw [whole] at this
        cases this)
      exact ⟨_, _, rfl, ⟨⟨held.inBucket, held.drawn, held.stored, held.invalid⟩, held.emitted⟩, opened,
        ⟨_, rfl, by simp [Reason.gap]⟩, by simp, fun _ whole => absurd whole never⟩
    | true =>
      have stored := h.store known inside whole found
      simp only [Bool.not_true, Bool.false_eq_true, ↓reduceIte]
      by_cases waits : (b.emitted || b.invalid || !symbols.names.all (Builder.holdsAll
          (b.bars.modify bar.symbol fun minutes => minutes.set bar.timestamp bar) bucket)) = true
      · simp only [if_pos waits]
        have late : Whole symbols bucket (own ++ [bar]) → Produced symbols bucket own := by
          intro whole
          obtain ⟨valid, all⟩ := (stored.whole_iff start).mp whole
          rw [all] at waits
          change b.invalid = false at valid
          simp only [valid, Bool.or_false, Bool.not_true] at waits
          exact h.emitted.mp waits
        refine ⟨_, _, rfl, ⟨stored, ?_⟩, opened, ⟨[], by simp, by simp⟩, by simp, fun _ => late⟩
        rw [produced_snoc]
        exact h.emitted.trans ⟨.inl, fun either => either.elim id late⟩
      · simp only [if_neg waits]
        simp only [Bool.or_eq_true, Bool.not_eq_true', not_or, Bool.not_eq_true, Bool.not_eq_false] at waits
        obtain ⟨⟨fresh, valid⟩, all⟩ := waits
        have complete : Whole symbols bucket (own ++ [bar]) := (stored.whole_iff start).mpr ⟨valid, all⟩
        have first : ¬Produced symbols bucket own := by
          rw [← h.emitted, fresh]
          exact Bool.false_ne_true
        obtain ⟨frame, made, shown⟩ := stored.assemble_ok all
        simp only [made]
        refine ⟨_, _, rfl, ⟨⟨stored.inBucket, stored.drawn, stored.stored, stored.invalid⟩, ?_⟩, opened,
          ⟨[], by simp, by simp⟩, ?_, by simp⟩
        · exact ⟨fun _ => produced_snoc.mpr (.inr complete), fun _ => rfl⟩
        · rintro _ ⟨⟩
          exact ⟨first, complete, shown⟩

theorem Held.place (h : Held symbols bucket own b) (start : bucket % fiveMinutes = 0) (inside : slot bar = bucket) :
    ∃ b' result, Builder.place symbols b bucket bar = (b', .ok result) ∧
      Placed symbols bucket own bar b b' result := by
  obtain ⟨b', result, placed, spec⟩ := (h.touch bar.symbol).placeMinute start inside rfl
    (isSome_setDefault b.bars bar.symbol)
  exact ⟨b', result, placed, ⟨spec.held, spec.opened, spec.reported, spec.made, spec.unmade⟩⟩

/-! ## One frame from the same minutes -/

theorem eq_of_map_eq {α β : Type} {f : α → β} {one two : List α} (same : one.map f = two.map f)
    (apart : ∀ x ∈ one, ∀ y ∈ two, f x = f y → x = y) : one = two := by
  induction one generalizing two with
  | nil =>
    rw [List.map_nil, eq_comm, List.map_eq_nil_iff] at same
    exact same.symm
  | cons x rest ih =>
    cases two with
    | nil => cases same
    | cons y others =>
      rw [List.map_cons, List.map_cons, List.cons.injEq] at same
      rw [apart x List.mem_cons_self y List.mem_cons_self same.1, ih same.2 fun x member y member' =>
        apart x (List.mem_cons_of_mem _ member) y (List.mem_cons_of_mem _ member')]

theorem Shows.unique {f g : UniverseFrame} (whole : Whole symbols bucket own) (one : Shows symbols bucket own f)
    (two : Shows symbols bucket own g) : f = g := by
  apply UniverseFrame.ext (one.timestamp.trans two.timestamp.symm)
  apply eq_of_map_eq (one.columns.trans two.columns.symm)
  intro x member y member' named
  obtain ⟨first, rest, rfl, dated, drawn⟩ := one.combined x member
  obtain ⟨first', rest', rfl, dated', drawn'⟩ := two.combined y member'
  have same : first :: rest = first' :: rest' := by
    apply eq_of_map_eq (dated.trans dated'.symm)
    intro x inside y inside' at_
    obtain ⟨listed, own_⟩ := drawn x inside
    obtain ⟨listed', own'⟩ := drawn' y inside'
    exact whole.consistent x listed y listed' (own_.trans (named.trans own'.symm)) at_
  cases same
  rfl

/-- Later bars that do not contradict leave the frame as it was. -/
theorem Shows.earlier {p : List MarketBar} {frame : UniverseFrame} (within : p ⊆ own) (start : Whole symbols bucket p)
    (whole : Whole symbols bucket own) (shown : Shows symbols bucket own frame) : Shows symbols bucket p frame := by
  refine ⟨shown.timestamp, shown.columns, fun bar member => ?_⟩
  obtain ⟨first, rest, rfl, dated, drawn⟩ := shown.combined bar member
  refine ⟨first, rest, rfl, dated, fun x inside => ⟨?_, (drawn x inside).2⟩⟩
  obtain ⟨listed, named⟩ := drawn x inside
  have known : x.symbol ∈ symbols.names := by
    rw [named, ← shown.columns]
    exact List.mem_map_of_mem member
  have minute_ : x.timestamp ∈ expected bucket := dated ▸ List.mem_map_of_mem inside
  obtain ⟨y, there, same, at_⟩ := start.full x.symbol known x.timestamp minute_
  rw [← whole.consistent y (within there) x listed same at_]
  exact there

theorem Whole.nonempty (whole : Whole symbols bucket own) : own ≠ [] := by
  rintro rfl
  exact not_produced_nil ⟨[], List.prefix_rfl, whole⟩

/-! ## What is on time -/

theorem onTime_closed (bar : MarketBar) (closed : ∃ x ∈ seen, bucket < slot x) :
    onTime (seen ++ [bar]) bucket = onTime seen bucket := by
  unfold onTime
  rw [List.takeWhile_append, if_neg]
  intro whole
  obtain ⟨x, member, beyond⟩ := closed
  have all := List.takeWhile_eq_self_iff.mp ((List.takeWhile_sublist _).eq_of_length whole)
  exact absurd (of_decide_eq_true (all x member)) (not_le.mpr beyond)

theorem onTime_whole (open_ : ∀ x ∈ seen, slot x ≤ bucket) : onTime seen bucket = seen.filter (slot · = bucket) := by
  unfold onTime
  rw [List.takeWhile_eq_self_iff.mpr fun x member => decide_eq_true (open_ x member)]

theorem onTime_open (bar : MarketBar) (open_ : ∀ x ∈ seen, slot x ≤ bucket) :
    onTime (seen ++ [bar]) bucket = onTime seen bucket ++ if slot bar = bucket then [bar] else [] := by
  rw [onTime_whole open_]
  unfold onTime
  rw [List.takeWhile_append, List.takeWhile_eq_self_iff.mpr fun x member => decide_eq_true (open_ x member),
    if_pos rfl, List.filter_append]
  congr 1
  by_cases same : slot bar = bucket
  · simp [same]
  · rw [if_neg same]
    by_cases below : slot bar ≤ bucket <;> simp [below, same]

theorem onTime_other (other : slot bar ≠ bucket) : onTime (seen ++ [bar]) bucket = onTime seen bucket := by
  by_cases closed : ∃ x ∈ seen, bucket < slot x
  · exact onTime_closed bar closed
  · rw [onTime_open bar fun x member => not_lt.mp fun beyond => closed ⟨x, member, beyond⟩, if_neg other,
      List.append_nil]

theorem mem_onTime {x : MarketBar} (member : x ∈ onTime seen bucket) : x ∈ seen ∧ slot x = bucket := by
  rw [onTime, List.mem_filter, decide_eq_true_eq] at member
  exact ⟨(List.takeWhile_sublist _).subset member.1, member.2⟩

theorem onTime_beyond (open_ : ∀ x ∈ seen, slot x < bucket) : onTime seen bucket = [] := by
  rw [List.eq_nil_iff_forall_not_mem]
  intro x member
  obtain ⟨inside, same⟩ := mem_onTime member
  exact absurd same (ne_of_lt (open_ x inside))

/-! ## A session -/

/-- A builder and the frames that it made. -/
structure Session where
  builder : Builder := {}
  frames : List UniverseFrame := []

def Session.step (symbols : Symbols) (s : Session) (bar : MarketBar) : Session :=
  let (builder, result) := s.builder.add symbols bar
  { builder, frames := s.frames ++ (result.toOption.join).toList }

/-- The bars of the symbols asked for; others raise. -/
def relevant (symbols : Symbols) (bars : List MarketBar) : List MarketBar := bars.filter (·.symbol ∈ symbols.names)

def Closed (seen : List MarketBar) (bucket : ℤ) : Prop := ∃ x ∈ seen, bucket < slot x

/-- What is reported of the buckets left behind: those whose bars made no frame, and those that had no bars. -/
structure Reports (symbols : Symbols) (seen : List MarketBar) (reported : List Issue) : Prop where
  incomplete : ∀ bucket, (∃ issue ∈ reported, issue.reason = .incomplete ∧ issue.bucketStart = bucket) ↔
    Closed seen bucket ∧ onTime seen bucket ≠ [] ∧ ¬Produced symbols bucket (onTime seen bucket)
  missing : ∀ bucket, bucket % fiveMinutes = 0 →
    ((∃ issue ∈ reported, ∃ until_ count, issue.reason = .missingBuckets until_ count ∧
      issue.bucketStart ≤ bucket ∧ bucket < until_) ↔
    Closed seen bucket ∧ onTime seen bucket = [] ∧ ∃ x, seen.head? = some x ∧ slot x < bucket)
  counted : ∀ issue ∈ reported, ∀ until_ count, issue.reason = .missingBuckets until_ count →
    count * fiveMinutes = until_ - issue.bucketStart

/-- The open bucket is the latest seen. -/
def Newest (seen : List MarketBar) : Option Instant → Prop
  | none => seen = []
  | some bucket => (∃ x ∈ seen, slot x = bucket) ∧ ∀ x ∈ seen, slot x ≤ bucket

structure Tracks (symbols : Symbols) (start : List Issue) (seen : List MarketBar) (s : Session) : Prop where
  newest : Newest seen s.builder.bucket
  held : Held symbols (s.builder.bucket.getD 0) (s.builder.bucket.elim [] (onTime seen)) s.builder
  frames : ∀ frame, frame ∈ s.frames ↔
    ∃ bucket p, p <+: onTime seen bucket ∧ Whole symbols bucket p ∧ Shows symbols bucket p frame
  increasing : (s.frames.map UniverseFrame.timestamp).Pairwise (· < ·)
  issues : ∃ reported, s.builder.issues = start ++ reported ∧ Reports symbols seen reported

theorem onTime_nil (bucket : ℤ) : onTime [] bucket = [] := rfl

theorem Holds.initial (bucket : ℤ) (clear : b.bars = .empty) (valid : b.invalid = false) : Holds bucket [] b := by
  constructor
  · simp
  · intro symbol at_ x found
    rw [clear] at found
    cases found
  · simp
  · simp [valid]

theorem Held.initial (clear : b.bars = .empty) (valid : b.invalid = false) (fresh : b.emitted = false) :
    Held symbols bucket [] b :=
  ⟨.initial bucket clear valid, by rw [fresh]; exact iff_of_false Bool.false_ne_true not_produced_nil⟩

theorem Tracks.initial (symbols : Symbols) (earlier : Builder) (observedAt : Instant) :
    Tracks symbols (earlier.finish symbols observedAt).issues [] ⟨earlier.finish symbols observedAt, []⟩ := by
  refine ⟨rfl, .initial rfl rfl rfl, ?_, List.Pairwise.nil, [], by simp, ?_, ?_, ?_⟩
  · intro frame
    simp only [List.not_mem_nil, false_iff, onTime_nil]
    rintro ⟨bucket, p, start, whole, -⟩
    exact not_produced_nil ⟨p, start, whole⟩
  · simp [Closed]
  · simp [Closed]
  · simp

/-- The issues of turning to a later bucket: the one left without a frame, and those passed. -/
structure Gaps (symbols : Symbols) (seen : List MarketBar) (opened : Option Instant) (bucket : ℤ)
    (gaps : List Issue) : Prop where
  incomplete : ∀ c, (∃ issue ∈ gaps, issue.reason = .incomplete ∧ issue.bucketStart = c) ↔
    opened = some c ∧ c < bucket ∧ ¬Produced symbols c (onTime seen c)
  missing : ∀ c, c % fiveMinutes = 0 →
    ((∃ issue ∈ gaps, ∃ until_ count, issue.reason = .missingBuckets until_ count ∧
      issue.bucketStart ≤ c ∧ c < until_) ↔ ∃ before ∈ opened, before < c ∧ c < bucket)
  counted : ∀ issue ∈ gaps, ∀ until_ count, issue.reason = .missingBuckets until_ count →
    count * fiveMinutes = until_ - issue.bucketStart

theorem next_bucket {before c : ℤ} (start : before % fiveMinutes = 0) (grid : c % fiveMinutes = 0) :
    before + fiveMinutes ≤ c ↔ before < c := by
  rw [fiveMinutes_eq] at *
  omega

theorem passed_count {before bucket : ℤ} (start : before % fiveMinutes = 0) (grid : bucket % fiveMinutes = 0) :
    ((bucket - before) / fiveMinutes - 1) * fiveMinutes = bucket - (before + fiveMinutes) := by
  rw [fiveMinutes_eq] at *
  omega

variable {start : List Issue} {s : Session}

theorem Tracks.turn (h : Tracks symbols start seen s) (bar : MarketBar) (on : ∀ x ∈ seen, slot x ≤ slot bar) :
    Held symbols (slot bar) (onTime seen (slot bar)) (Builder.turn symbols s.builder (slot bar) bar.timestamp) ∧
    ∃ gaps, (Builder.turn symbols s.builder (slot bar) bar.timestamp).issues = s.builder.issues ++ gaps ∧
      Gaps symbols seen s.builder.bucket (slot bar) gaps := by
  have newest := h.newest
  have held := h.held
  unfold Builder.turn
  cases opened : s.builder.bucket with
  | none =>
    rw [opened] at newest held
    change seen = [] at newest
    subst newest
    refine ⟨⟨⟨by simp [onTime_nil], held.drawn, held.stored, held.invalid⟩, held.emitted.trans ?_⟩,
      [], by simp, by simp, by simp, by simp⟩
    exact iff_of_false not_produced_nil not_produced_nil
  | some before =>
    rw [opened] at newest held
    obtain ⟨⟨first, member, same⟩, all⟩ := newest
    by_cases later : before < slot bar
    · simp only [if_pos later]
      have fresh : onTime seen (slot bar) = [] := onTime_beyond fun x inside => (all x inside).trans_lt later
      rw [fresh]
      refine ⟨.initial rfl rfl rfl, ?_⟩
      have grid : before % fiveMinutes = 0 := same ▸ bucketOf_start first.timestamp
      have made : s.builder.emitted = true ↔ Produced symbols before (onTime seen before) := held.emitted
      have open_ : ∃ gaps, (if s.builder.emitted = true then s.builder else
            Builder.unusable symbols s.builder before .incomplete bar.timestamp).issues = s.builder.issues ++ gaps ∧
          (∀ c, (∃ issue ∈ gaps, issue.reason = .incomplete ∧ issue.bucketStart = c) ↔
            c = before ∧ ¬Produced symbols c (onTime seen c)) ∧ ∀ issue ∈ gaps, issue.reason = .incomplete := by
        by_cases emitted : s.builder.emitted = true
        · rw [if_pos emitted]
          refine ⟨[], by simp, fun c => ?_, by simp⟩
          simp only [List.not_mem_nil, false_and, exists_false, false_iff]
          rintro ⟨rfl, unmade⟩
          exact unmade (made.mp emitted)
        · rw [if_neg emitted]
          refine ⟨_, rfl, fun c => ?_, by simp⟩
          simp only [List.mem_singleton, exists_eq_left, true_and]
          constructor
          · rintro rfl
            exact ⟨rfl, fun produced => emitted (made.mpr produced)⟩
          · exact fun both => both.1.symm
      obtain ⟨one, listed, incomplete, only⟩ := open_
      by_cases passed : before + fiveMinutes < slot bar
      · simp only [if_pos passed]
        refine ⟨one ++ [_], by rw [Builder.unusable, listed, List.append_assoc], ?_, ?_, ?_⟩
        · intro c
          simp only [List.mem_append, List.mem_singleton, or_and_right, exists_or, exists_eq_left, reduceCtorEq,
            false_and, or_false, incomplete c, Option.some.injEq]
          constructor
          · rintro ⟨rfl, unmade⟩
            exact ⟨rfl, later, unmade⟩
          · rintro ⟨rfl, -, unmade⟩
            exact ⟨rfl, unmade⟩
        · intro c start
          simp only [List.mem_append, List.mem_singleton, or_and_right, exists_or, exists_eq_left,
            Reason.missingBuckets.injEq, Option.mem_def, Option.some.injEq, exists_eq_left']
          rw [← next_bucket grid start]
          constructor
          · rintro (⟨issue, inside, _, _, reason, -⟩ | ⟨_, _, ⟨rfl, rfl⟩, both⟩)
            · rw [only issue inside] at reason
              cases reason
            · exact both
          · exact fun both => .inr ⟨_, _, ⟨rfl, rfl⟩, both⟩
        · intro issue inside until_ count reason
          rcases List.mem_append.mp inside with old | new
          · rw [only issue old] at reason
            cases reason
          · obtain rfl := List.mem_singleton.mp new
            cases reason
            exact passed_count grid (bucketOf_start bar.timestamp)
      · simp only [if_neg passed]
        refine ⟨one, listed, ?_, ?_, ?_⟩
        · intro c
          rw [incomplete c, Option.some.injEq]
          constructor
          · rintro ⟨rfl, unmade⟩
            exact ⟨rfl, later, unmade⟩
          · rintro ⟨rfl, -, unmade⟩
            exact ⟨rfl, unmade⟩
        · intro c start
          simp only [Option.mem_def, Option.some.injEq, exists_eq_left']
          constructor
          · rintro ⟨issue, inside, _, _, reason, -⟩
            rw [only issue inside] at reason
            cases reason
          · rintro ⟨after, below⟩
            exact absurd (((next_bucket grid start).mpr after).trans_lt below) passed
        · intro issue inside until_ count reason
          rw [only issue inside] at reason
          cases reason
    · have same' : before = slot bar := le_antisymm (same ▸ on first member) (not_lt.mp later)
      simp only [if_neg later]
      subst same'
      refine ⟨held, [], by simp, ?_, ?_, by simp⟩
      · intro c
        simp only [List.not_mem_nil, false_and, exists_false, Option.some.injEq, false_iff]
        rintro ⟨rfl, below, -⟩
        exact later below
      · intro c start
        simp only [List.not_mem_nil, false_and, exists_false, Option.mem_def, Option.some.injEq, exists_eq_left',
          false_iff, not_and, not_lt]
        exact le_of_lt

theorem Closed.snoc : Closed (seen ++ [bar]) bucket ↔ Closed seen bucket ∨ bucket < slot bar := by
  simp [Closed, or_and_right, exists_or]

theorem head_snoc {seen : List MarketBar} {x bar : MarketBar} (head : seen.head? = some x) :
    (seen ++ [bar]).head? = some x := by
  rw [List.head?_append, head, Option.some_or]

/-- What is reported with a bar of the open or a later bucket. -/
theorem Reports.snoc {reported gaps more : List Issue} (h : Reports symbols seen reported) {opened : Option Instant}
    (newest : Newest seen opened) (on : ∀ x ∈ seen, slot x ≤ slot bar) (passed : Gaps symbols seen opened (slot bar) gaps)
    (quiet : ∀ issue ∈ more, issue.reason.gap = false) :
    Reports symbols (seen ++ [bar]) (reported ++ (gaps ++ more)) := by
  have notMore : ∀ issue ∈ more, issue.reason ≠ .incomplete ∧ ∀ until_ count,
      issue.reason ≠ .missingBuckets until_ count := by
    intro issue inside
    have := quiet issue inside
    constructor
    · intro reason
      rw [reason] at this
      cases this
    · intro until_ count reason
      rw [reason] at this
      cases this
  have opens : ∀ {c : ℤ}, opened = some c → (∃ x ∈ seen, slot x = c) ∧ ∀ x ∈ seen, slot x ≤ c := by
    rintro c rfl
    exact newest
  constructor
  · intro c
    have others : (∃ issue ∈ reported ++ (gaps ++ more), issue.reason = .incomplete ∧ issue.bucketStart = c) ↔
        (∃ issue ∈ reported, issue.reason = .incomplete ∧ issue.bucketStart = c) ∨
        ∃ issue ∈ gaps, issue.reason = .incomplete ∧ issue.bucketStart = c := by
      simp only [List.mem_append, or_and_right, exists_or]
      constructor
      · rintro (old | new | ⟨issue, inside, reason, -⟩)
        · exact .inl old
        · exact .inr new
        · exact absurd reason (notMore issue inside).1
      · rintro (old | new)
        · exact .inl old
        · exact .inr (.inl new)
    rw [others, h.incomplete c, passed.incomplete c, Closed.snoc]
    by_cases same : slot bar = c
    · subst same
      have notClosed : ¬Closed seen (slot bar) := by
        rintro ⟨x, inside, beyond⟩
        exact absurd (on x inside) (not_le.mpr beyond)
      simp [notClosed]
    · rw [onTime_other same]
      constructor
      · rintro (⟨closed, rest⟩ | ⟨opening, below, unmade⟩)
        · exact ⟨.inl closed, rest⟩
        · obtain ⟨⟨x, inside, at_⟩, all⟩ := opens opening
          refine ⟨.inr below, List.ne_nil_of_mem (a := x) ?_, unmade⟩
          rw [onTime_whole all, List.mem_filter]
          exact ⟨inside, decide_eq_true at_⟩
      · rintro ⟨either, nonempty, unmade⟩
        by_cases closed : Closed seen c
        · exact .inl ⟨closed, nonempty, unmade⟩
        · have below := either.resolve_left closed
          obtain ⟨x, inside⟩ := List.exists_mem_of_ne_nil _ nonempty
          obtain ⟨there, at_⟩ := mem_onTime inside
          refine .inr ⟨?_, below, unmade⟩
          cases opening : opened with
          | none =>
            rw [opening] at newest
            change seen = [] at newest
            rw [newest] at there
            cases there
          | some before =>
            obtain ⟨⟨y, here, same⟩, all⟩ := opens opening
            have least : c ≤ before := at_ ▸ all x there
            have most : before ≤ c := by
              rw [← same]
              exact not_lt.mp fun beyond => closed ⟨y, here, beyond⟩
            rw [le_antisymm most least]
  · intro c grid
    have others : (∃ issue ∈ reported ++ (gaps ++ more), ∃ until_ count, issue.reason = .missingBuckets until_ count ∧
          issue.bucketStart ≤ c ∧ c < until_) ↔
        (∃ issue ∈ reported, ∃ until_ count, issue.reason = .missingBuckets until_ count ∧
          issue.bucketStart ≤ c ∧ c < until_) ∨
        ∃ issue ∈ gaps, ∃ until_ count, issue.reason = .missingBuckets until_ count ∧
          issue.bucketStart ≤ c ∧ c < until_ := by
      simp only [List.mem_append, or_and_right, exists_or]
      constructor
      · rintro (old | new | ⟨issue, inside, until_, count, reason, -⟩)
        · exact .inl old
        · exact .inr new
        · exact absurd reason ((notMore issue inside).2 until_ count)
      · rintro (old | new)
        · exact .inl old
        · exact .inr (.inl new)
    rw [others, h.missing c grid, passed.missing c grid, Closed.snoc]
    constructor
    · rintro (⟨closed, empty, x, head, before⟩ | ⟨before, opening, after, below⟩)
      · have other : slot bar ≠ c := by
          rintro rfl
          obtain ⟨y, inside, beyond⟩ := closed
          exact absurd (on y inside) (not_le.mpr beyond)
        exact ⟨.inl closed, by rw [onTime_other other, empty], x, head_snoc head, before⟩
      · obtain ⟨⟨y, inside, same⟩, all⟩ := opens opening
        obtain ⟨x, head⟩ : ∃ x, seen.head? = some x := by
          cases listed : seen with
          | nil =>
            rw [listed] at inside
            cases inside
          | cons x rest => exact ⟨x, rfl⟩
        have first : slot x ≤ before := all x (List.mem_of_mem_head? head)
        refine ⟨.inr below, ?_, x, head_snoc head, first.trans_lt after⟩
        rw [onTime_other (ne_of_gt below), onTime_beyond fun z there => (all z there).trans_lt after]
    · rintro ⟨either, empty, x, head, before⟩
      by_cases closed : Closed seen c
      · refine .inl ⟨closed, ?_, x, ?_, before⟩
        · rwa [onTime_closed bar closed] at empty
        · obtain ⟨y, inside, -⟩ := closed
          cases listed : seen with
          | nil =>
            rw [listed] at inside
            cases inside
          | cons z rest =>
            rw [listed] at head
            exact head
      · have below := either.resolve_left closed
        refine .inr ?_
        cases opening : opened with
        | none =>
          rw [opening] at newest
          change seen = [] at newest
          subst newest
          cases head
          exact absurd (below.trans before) (lt_irrefl _)
        | some latest =>
          obtain ⟨⟨y, here, same⟩, all⟩ := opens opening
          refine ⟨latest, rfl, lt_of_le_of_ne ?_ ?_, below⟩
          · rw [← same]
            exact not_lt.mp fun beyond => closed ⟨y, here, beyond⟩
          · rintro rfl
            rw [onTime_other (ne_of_gt below), onTime_whole all, List.filter_eq_nil_iff] at empty
            exact empty y here (decide_eq_true same)
  · intro issue inside until_ count reason
    rcases List.mem_append.mp inside with old | new
    · exact h.counted issue old until_ count reason
    · rcases List.mem_append.mp new with gap | other
      · exact passed.counted issue gap until_ count reason
      · exact absurd reason ((notMore issue other).2 until_ count)

theorem onTime_late (late : Closed seen (slot bar)) (c : ℤ) : onTime (seen ++ [bar]) c = onTime seen c := by
  by_cases same : slot bar = c
  · exact onTime_closed bar (same ▸ late)
  · exact onTime_other same

theorem closed_late (late : Closed seen (slot bar)) {c : ℤ} : Closed (seen ++ [bar]) c ↔ Closed seen c := by
  rw [Closed.snoc, or_iff_left_iff_imp]
  obtain ⟨x, inside, beyond⟩ := late
  exact fun below => ⟨x, inside, below.trans beyond⟩

/-- A late bar changes nothing but that it is reported. -/
theorem Reports.late {reported : List Issue} (h : Reports symbols seen reported) (late : Closed seen (slot bar))
    {issue : Issue} (reason : issue.reason = .lateBar) : Reports symbols (seen ++ [bar]) (reported ++ [issue]) := by
  have head : ∀ x, (seen ++ [bar]).head? = some x ↔ seen.head? = some x := by
    intro x
    obtain ⟨y, inside, -⟩ := late
    cases seen with
    | nil => cases inside
    | cons z rest => rfl
  constructor
  · intro c
    rw [onTime_late late, closed_late late, ← h.incomplete c]
    simp [or_and_right, exists_or, reason]
  · intro c grid
    simp only [onTime_late late, closed_late late, head]
    rw [← h.missing c grid]
    simp [or_and_right, exists_or, reason]
  · intro other inside until_ count named
    rcases List.mem_append.mp inside with old | new
    · exact h.counted other old until_ count named
    · rw [List.mem_singleton.mp new, reason] at named
      cases named

theorem Tracks.late (h : Tracks symbols start seen s) (late : Closed seen (slot bar)) (discovered : Instant) :
    Tracks symbols start (seen ++ [bar])
      ⟨Builder.unusable symbols s.builder (slot bar) .lateBar discovered, s.frames⟩ := by
  obtain ⟨reported, listed, reports⟩ := h.issues
  have held := h.held
  have newest := h.newest
  refine ⟨?_, ?_, ?_, h.increasing,
    reported ++ [⟨slot bar, .lateBar, discovered, Builder.missingMinutes symbols s.builder.bars (slot bar)⟩], ?_,
    reports.late late rfl⟩
  · change Newest (seen ++ [bar]) s.builder.bucket
    cases opened : s.builder.bucket with
    | none =>
      rw [opened] at newest
      change seen = [] at newest
      subst newest
      obtain ⟨x, inside, -⟩ := late
      cases inside
    | some before =>
      rw [opened] at newest
      obtain ⟨⟨x, inside, same⟩, all⟩ := newest
      obtain ⟨y, there, beyond⟩ := late
      refine ⟨⟨x, List.mem_append_left _ inside, same⟩, List.forall_mem_append.mpr ⟨all, ?_⟩⟩
      simpa using (beyond.le.trans (all y there))
  · change Held symbols (s.builder.bucket.getD 0) (s.builder.bucket.elim [] (onTime (seen ++ [bar]))) _
    rw [show onTime (seen ++ [bar]) = onTime seen from funext (onTime_late late)]
    exact ⟨⟨held.inBucket, held.drawn, held.stored, held.invalid⟩, held.emitted⟩
  · intro frame
    rw [h.frames frame]
    simp only [onTime_late late]
  · rw [Builder.unusable, listed, List.append_assoc]

theorem Tracks.placed (h : Tracks symbols start seen s) (on : ∀ x ∈ seen, slot x ≤ slot bar) :
    ∃ b' result, Builder.place symbols (Builder.turn symbols s.builder (slot bar) bar.timestamp) (slot bar) bar =
        (b', .ok result) ∧ Tracks symbols start (seen ++ [bar]) ⟨b', s.frames ++ result.toList⟩ := by
  obtain ⟨held, gaps, listed, passed⟩ := h.turn bar on
  obtain ⟨b', result, done, spec⟩ := held.place (bucketOf_start bar.timestamp) rfl
  obtain ⟨more, appended, quiet⟩ := spec.reported
  obtain ⟨reported, issues, reports⟩ := h.issues
  have own : onTime (seen ++ [bar]) (slot bar) = onTime seen (slot bar) ++ [bar] := by
    rw [onTime_open bar on, if_pos rfl]
  have onNow : ∀ x ∈ seen ++ [bar], slot x ≤ slot bar := List.forall_mem_append.mpr ⟨on, by simp⟩
  have framed : ∀ frame, frame ∈ s.frames ++ result.toList ↔ ∃ bucket p, p <+: onTime (seen ++ [bar]) bucket ∧
      Whole symbols bucket p ∧ Shows symbols bucket p frame := by
    intro frame
    rw [List.mem_append, h.frames, Option.mem_toList]
    constructor
    · rintro (⟨bucket, p, within, whole, shown⟩ | made)
      · refine ⟨bucket, p, within.trans ?_, whole, shown⟩
        by_cases same : slot bar = bucket
        · subst same
          rw [own]
          exact List.prefix_append _ _
        · rw [onTime_other same]
      · obtain ⟨-, whole, shown⟩ := spec.made frame made
        exact ⟨slot bar, _, own ▸ List.prefix_rfl, whole, shown⟩
    · rintro ⟨bucket, p, within, whole, shown⟩
      by_cases same : slot bar = bucket
      · subst same
        rw [own, prefix_snoc] at within
        rcases within with old | rfl
        · exact .inl ⟨_, p, old, whole, shown⟩
        · cases result with
          | none =>
            obtain ⟨q, before, whole'⟩ := spec.unmade rfl whole
            exact .inl ⟨_, q, before, whole', shown.earlier
              (fun x inside => List.mem_append_left _ (before.subset inside)) whole' whole⟩
          | some made =>
            obtain ⟨-, whole', shown'⟩ := spec.made made rfl
            rw [shown.unique whole shown']
            exact .inr rfl
      · rw [onTime_other same] at within
        exact .inl ⟨bucket, p, within, whole, shown⟩
  refine ⟨b', result, done, ?_, ?_, framed, ?_, reported ++ (gaps ++ more), ?_, ?_⟩
  · rw [show (⟨b', s.frames ++ result.toList⟩ : Session).builder.bucket = some (slot bar) from spec.opened]
    exact ⟨⟨bar, by simp, rfl⟩, onNow⟩
  · rw [show (⟨b', s.frames ++ result.toList⟩ : Session).builder.bucket = some (slot bar) from spec.opened]
    change Held symbols (slot bar) (onTime (seen ++ [bar]) (slot bar)) b'
    rw [own]
    exact spec.held
  · cases result with
    | none => simpa using h.increasing
    | some made =>
      obtain ⟨first, -, shown⟩ := spec.made made rfl
      change ((s.frames ++ [made]).map UniverseFrame.timestamp).Pairwise (· < ·)
      rw [List.map_append, List.pairwise_append]
      refine ⟨h.increasing, List.pairwise_singleton _ _, ?_⟩
      intro earlier member later inside
      obtain ⟨frame, there, rfl⟩ := List.mem_map.mp member
      obtain rfl := List.mem_singleton.mp inside
      obtain ⟨bucket, p, within, whole, shown'⟩ := (h.frames frame).mp there
      obtain ⟨x, listed'⟩ := List.exists_mem_of_ne_nil _ whole.nonempty
      obtain ⟨seen', rfl⟩ := mem_onTime (within.subset listed')
      have below : slot x < slot bar := by
        refine lt_of_le_of_ne (on x seen') fun same => first ⟨p, ?_, same ▸ whole⟩
        rw [← same]
        exact within
      rw [shown'.timestamp, shown.timestamp]
      exact add_lt_add_left below _
  · change b'.issues = _
    rw [appended, listed, issues]
    simp
  · exact reports.snoc h.newest on passed quiet

theorem Tracks.step (h : Tracks symbols start seen s) (known : bar.symbol ∈ symbols.names) :
    Tracks symbols start (seen ++ [bar]) (s.step symbols bar) := by
  have newest := h.newest
  unfold Session.step Builder.add
  rw [if_neg (not_not.mpr known)]
  by_cases late : s.builder.bucket.any (slot bar < ·) = true
  · simp only [if_pos late]
    have closed : Closed seen (slot bar) := by
      obtain ⟨before, opened, beyond⟩ := (Option.any_eq_true _ _).mp late
      rw [opened] at newest
      obtain ⟨⟨x, inside, same⟩, -⟩ := newest
      exact ⟨x, inside, by rw [same]; exact of_decide_eq_true beyond⟩
    have none_ : (Except.ok none : Except BuildFault (Option UniverseFrame)).toOption.join.toList = [] := rfl
    rw [none_, List.append_nil]
    exact h.late closed bar.timestamp
  · simp only [if_neg late]
    have on : ∀ x ∈ seen, slot x ≤ slot bar := by
      cases opened : s.builder.bucket with
      | none =>
        rw [opened] at newest
        change seen = [] at newest
        simp [newest]
      | some before =>
        rw [opened] at newest late
        rw [Option.any_some, decide_eq_true_eq, not_lt] at late
        exact fun x inside => (newest.2 x inside).trans late
    obtain ⟨b', result, done, tracks⟩ := h.placed on
    rw [done]
    exact tracks

theorem step_other (other : bar.symbol ∉ symbols.names) : s.step symbols bar = s := by
  simp [Session.step, Builder.add, other, Except.toOption]

theorem run_tracks (symbols : Symbols) (earlier : Builder) (observedAt : Instant) (bars : List MarketBar) :
    Tracks symbols (earlier.finish symbols observedAt).issues (relevant symbols bars)
      (Machine.run (Session.step symbols) ⟨earlier.finish symbols observedAt, []⟩ bars) := by
  induction bars using List.reverseRecOn with
  | nil => exact .initial symbols earlier observedAt
  | append_singleton before bar ih =>
    rw [Machine.run_append, Machine.run_cons, Machine.run_nil]
    by_cases known : bar.symbol ∈ symbols.names
    · have listed : relevant symbols (before ++ [bar]) = relevant symbols before ++ [bar] := by simp [relevant, known]
      rw [listed]
      exact ih.step known
    · have listed : relevant symbols (before ++ [bar]) = relevant symbols before := by simp [relevant, known]
      rw [listed, step_other known]
      exact ih

/-- From a stop on, whatever came before it: there is a frame of a bucket exactly if at some moment the bars of it that
were on time made one up, and no other; the frames come in order. -/
theorem frames_of_minutes (symbols : Symbols) (earlier : Builder) (observedAt : Instant) (bars : List MarketBar) :
    let s := Machine.run (Session.step symbols) ⟨earlier.finish symbols observedAt, []⟩ bars
    (∀ frame, frame ∈ s.frames ↔ ∃ bucket p, p <+: onTime (relevant symbols bars) bucket ∧ Whole symbols bucket p ∧
      Shows symbols bucket p frame) ∧ (s.frames.map UniverseFrame.timestamp).Pairwise (· < ·) :=
  ⟨(run_tracks symbols earlier observedAt bars).frames, (run_tracks symbols earlier observedAt bars).increasing⟩

/-- Every bucket left behind without a frame is reported, as incomplete if it had bars and as missing if it had none;
no other is. -/
theorem gaps_reported (symbols : Symbols) (earlier : Builder) (observedAt : Instant) (bars : List MarketBar) :
    ∃ reported, (Machine.run (Session.step symbols) ⟨earlier.finish symbols observedAt, []⟩ bars).builder.issues =
        (earlier.finish symbols observedAt).issues ++ reported ∧ Reports symbols (relevant symbols bars) reported :=
  (run_tracks symbols earlier observedAt bars).issues

/-! ## The edge of the frames -/

/-- The instant up to which an open bucket has had its frame. -/
def Builder.edge (b : Builder) : Option Instant :=
  b.bucket.map fun bucket => if b.emitted then bucket + fiveMinutes else bucket

/-- What a bar does to the edge, while nothing is reported. -/
structure Edged (b b' : Builder) (result : Except BuildFault (Option UniverseFrame)) : Prop where
  reported : ∃ fresh, b'.issues = b.issues ++ fresh
  made : ∀ frame, result = .ok (some frame) → b'.edge = some frame.timestamp ∧
    (b'.issues = b.issues → ∀ edge, b.edge = some edge → frame.timestamp = edge + fiveMinutes)
  kept : (∀ frame, result ≠ .ok (some frame)) → b'.issues = b.issues → ∀ edge, b.edge = some edge → b'.edge = some edge

theorem assemble_timestamp {frame : UniverseFrame} (made : Builder.assemble symbols bucket bars = .ok frame) :
    frame.timestamp = bucket + fiveMinutes := by
  obtain ⟨completed, -, built⟩ := bind_ok_iff.mp made
  cases valid : UniverseFrame.validate (bucket + fiveMinutes) completed with
  | error fault =>
    rw [valid] at built
    cases built
  | ok made =>
    rw [valid] at built
    cases built
    exact (UniverseFrame.validate_ok.mp valid).1

/-- The open bucket stays, and has its frame if one was made now. -/
theorem placeMinute_edge {b' : Builder} {result : Except BuildFault (Option UniverseFrame)}
    (placed : Builder.placeMinute symbols b bucket bar = (b', result)) :
    (∃ fresh, b'.issues = b.issues ++ fresh) ∧ b'.bucket = b.bucket ∧
      ((∀ frame, result ≠ .ok (some frame)) ∧ b'.emitted = b.emitted ∨
        ∃ frame, result = .ok (some frame) ∧ b.emitted = false ∧ b'.emitted = true ∧
          frame.timestamp = bucket + fiveMinutes) := by
  unfold Builder.placeMinute at placed
  split at placed
  next prior found =>
    split at placed
    next => cases placed; exact ⟨⟨[], by simp⟩, rfl, .inl ⟨by simp, rfl⟩⟩
    next => cases placed; exact ⟨⟨_, rfl⟩, rfl, .inl ⟨by simp, rfl⟩⟩
  next free =>
    split at placed
    next => cases placed; exact ⟨⟨_, rfl⟩, rfl, .inl ⟨by simp, rfl⟩⟩
    next =>
      simp only at placed
      split at placed
      next => cases placed; exact ⟨⟨[], by simp⟩, rfl, .inl ⟨by simp, rfl⟩⟩
      next goes =>
        simp only [Bool.or_eq_true, not_or, Bool.not_eq_true] at goes
        split at placed
        next frame made =>
          cases placed
          exact ⟨⟨[], by simp⟩, rfl, .inr ⟨frame, rfl, goes.1.1, rfl, assemble_timestamp made⟩⟩
        next => cases placed; exact ⟨⟨[], by simp⟩, rfl, .inl ⟨by simp, rfl⟩⟩

/-- Turning to a later bucket without a report is going from a bucket that had its frame to the next. -/
theorem turn_edge (symbols : Symbols) (b : Builder) (at_ : Instant) (start : bucket % fiveMinutes = 0)
    (grid : ∀ opened ∈ b.bucket, opened % fiveMinutes = 0 ∧ opened ≤ bucket) :
    (∃ gaps, (b.turn symbols bucket at_).issues = b.issues ++ gaps) ∧
      ((b.turn symbols bucket at_).issues = b.issues → ∀ edge, b.edge = some edge →
        edge = if (b.turn symbols bucket at_).emitted then bucket + fiveMinutes else bucket) := by
  unfold Builder.turn Builder.edge
  cases opened : b.bucket with
  | none => exact ⟨⟨[], by simp⟩, by simp⟩
  | some before =>
    obtain ⟨aligned, least⟩ := grid before opened
    by_cases later : before < bucket
    · have next := next_bucket aligned start
      simp only [if_pos later]
      by_cases emitted : b.emitted = true <;> by_cases passed : before + fiveMinutes < bucket
      · simp only [if_pos emitted, if_pos passed]
        exact ⟨⟨_, rfl⟩, fun same => by simp [Builder.unusable] at same⟩
      · simp only [if_pos emitted, if_neg passed]
        refine ⟨⟨[], by simp⟩, fun _ edge same => ?_⟩
        cases same
        exact le_antisymm (next.mpr later) (not_lt.mp passed)
      · simp only [if_neg emitted, if_pos passed]
        exact ⟨⟨_, List.append_assoc _ _ _⟩, fun same => by simp [Builder.unusable] at same⟩
      · simp only [if_neg emitted, if_neg passed]
        exact ⟨⟨_, rfl⟩, fun same => by simp [Builder.unusable] at same⟩
    · obtain rfl := le_antisymm least (not_lt.mp later)
      simp only [if_neg later]
      refine ⟨⟨[], by simp⟩, fun _ edge same => ?_⟩
      cases same
      rfl

theorem add_edge (symbols : Symbols) (b : Builder) (bar : MarketBar) (grid : ∀ opened ∈ b.bucket, opened % fiveMinutes = 0) :
    Edged b (b.add symbols bar).1 (b.add symbols bar).2 := by
  unfold Builder.add
  split
  next => exact ⟨⟨[], by simp⟩, by simp, fun _ _ _ same => same⟩
  next =>
    by_cases late : b.bucket.any (slot bar < ·) = true
    · simp only [if_pos late]
      refine ⟨⟨_, rfl⟩, by simp, fun _ same => ?_⟩
      simp [Builder.unusable] at same
    · simp only [if_neg late]
      have on : ∀ opened ∈ b.bucket, opened % fiveMinutes = 0 ∧ opened ≤ slot bar := by
        intro opened member
        refine ⟨grid opened member, not_lt.mp fun beyond => late ?_⟩
        exact (Option.any_eq_true _ _).mpr ⟨opened, member, decide_eq_true beyond⟩
      obtain ⟨⟨gaps, turned⟩, edge⟩ := turn_edge symbols b bar.timestamp (bucketOf_start bar.timestamp) on
      unfold Builder.place
      generalize done : Builder.placeMinute symbols _ (slot bar) bar = placed
      obtain ⟨b', result⟩ := placed
      obtain ⟨⟨fresh, listed⟩, bucket_, outcome⟩ := placeMinute_edge done
      change b'.bucket = some (slot bar) at bucket_
      change b'.issues = (b.turn symbols (slot bar) bar.timestamp).issues ++ fresh at listed
      have quiet : b'.issues = b.issues → (b.turn symbols (slot bar) bar.timestamp).issues = b.issues := by
        intro same
        rw [listed, turned, List.append_assoc, List.append_right_eq_self, List.append_eq_nil_iff] at same
        rw [turned, same.1, List.append_nil]
      refine ⟨⟨gaps ++ fresh, by rw [listed, turned, List.append_assoc]⟩, ?_, ?_⟩
      · intro frame made
        rcases outcome with ⟨none_, -⟩ | ⟨frame', result_, before, after, at_⟩
        · exact absurd made (none_ frame)
        · change result = _ at made
          rw [made] at result_
          cases result_
          refine ⟨by simp [Builder.edge, bucket_, after, at_], fun same e held => ?_⟩
          have := edge (quiet same) e held
          change (b.turn symbols (slot bar) bar.timestamp).emitted = false at before
          rw [before] at this
          rw [at_, this]
          rfl
      · intro none_ same e held
        rcases outcome with ⟨-, emitted⟩ | ⟨frame, result_, -⟩
        · have := edge (quiet same) e held
          change b'.emitted = (b.turn symbols (slot bar) bar.timestamp).emitted at emitted
          rw [← emitted] at this
          simp [Builder.edge, bucket_, this]
        · exact absurd result_ (none_ frame)

end TradeAgent.LiveShadow
