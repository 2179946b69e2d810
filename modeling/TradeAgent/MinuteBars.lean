import TradeAgent.Domain
import TradeAgent.Library.Dict
import Mathlib.Data.List.Flatten
import Mathlib.Data.List.Sort
import Mathlib.Tactic.Linarith

/-! Minute bars of one symbol put together to bars of a longer interval, by the buckets that the interval cuts
each exchange session into. -/
namespace TradeAgent.Intraday

/-- The exchange's calendar, and the day an instant falls on at the exchange. -/
structure SessionCalendar where
  localDate : Instant → ℤ
  sessionBounds : ℤ → Option (Instant × Instant)

/-- The sessions of two days do not overlap. -/
def SessionCalendar.Apart (calendar : SessionCalendar) : Prop :=
  ∀ one two bounds other, calendar.sessionBounds one = some bounds → calendar.sessionBounds two = some other →
    one ≠ two → bounds.2 ≤ other.1 ∨ other.2 ≤ bounds.1

inductive AggregationError where
  | intervalNotPositive
  | noBars
  | severalSymbols
  | notChronological
  | gap (prior current : Instant)
  | outsideSession
  deriving DecidableEq, Repr

structure AggregationResult where
  bars : List MarketBar
  droppedIncompleteBars : ℕ

/-! ## The aggregation -/

/-- Every bar comes a minute after the one before it. -/
def checkMinutes : List MarketBar → Except AggregationError Unit
  | prior :: current :: rest =>
    if current.timestamp ≤ prior.timestamp then .error .notChronological
    else if current.timestamp - prior.timestamp ≠ minute then .error (.gap prior.timestamp current.timestamp)
    else checkMinutes (current :: rest)
  | _ => .ok ()

/-- The most extreme of some values is one of them, and none is more extreme. -/
theorem foldl_extreme {α : Type*} {most : α → α → α} {below : α → α → Prop} (refl : ∀ a, below a a)
    (trans : ∀ a b c, below a b → below b c → below a c) (left : ∀ a b, below a (most a b))
    (right : ∀ a b, below b (most a b)) (picks : ∀ a b, most a b = a ∨ most a b = b) (l : List α) (a : α) :
    l.foldl most a ∈ a :: l ∧ ∀ b ∈ a :: l, below b (l.foldl most a) := by
  induction l generalizing a with
  | nil => simp [refl]
  | cons b l ih =>
    obtain ⟨member, bounds⟩ := ih (most a b)
    have first := bounds _ List.mem_cons_self
    constructor
    · rw [List.foldl_cons]
      rcases List.mem_cons.mp member with same | later
      · rw [same]
        rcases picks a b with picked | picked <;> simp [picked]
      · simp [later]
    · intro c one
      rcases List.mem_cons.mp one with rfl | one
      · exact trans _ _ _ (left c b) first
      · rcases List.mem_cons.mp one with rfl | one
        · exact trans _ _ _ (right a c) first
        · exact bounds c (List.mem_cons_of_mem _ one)

theorem foldl_max_spec (l : List ℚ) (a : ℚ) : l.foldl max a ∈ a :: l ∧ ∀ b ∈ a :: l, b ≤ l.foldl max a :=
  foldl_extreme le_refl (fun _ _ _ => le_trans) le_max_left le_max_right max_choice l a

theorem foldl_min_spec (l : List ℚ) (a : ℚ) : l.foldl min a ∈ a :: l ∧ ∀ b ∈ a :: l, l.foldl min a ≤ b :=
  @foldl_extreme ℚ min (fun one two => two ≤ one) le_refl (fun _ _ _ first second => second.trans first)
    min_le_left min_le_right min_choice l a

section

variable (calendar : SessionCalendar) (intervalMinutes : ℤ)

/-- Where the bucket of an instant starts, if the instant is within a session. -/
def bucketStart (at_ : Instant) : Option Instant :=
  (calendar.sessionBounds (calendar.localDate at_)).bind fun bounds =>
    if bounds.1 ≤ at_ ∧ at_ < bounds.2 then
      some (bounds.1 + (at_ - bounds.1) / minute / intervalMinutes * intervalMinutes * minute)
    else none

abbrev Buckets := Dict Instant (List MarketBar)

def place (grouped : Buckets) (bar : MarketBar) : Except AggregationError Buckets :=
  match bucketStart calendar intervalMinutes bar.timestamp with
  | some start => .ok (grouped.set start (grouped.getD start [] ++ [bar]))
  | none => .error .outsideSession

/-- A bar of several, which are valid. -/
def combine (timestamp : Instant) (first : MarketBar) (rest : List MarketBar) : MarketBar where
  symbol := first.symbol
  timestamp
  openPrice := first.openPrice
  high := (rest.map MarketBar.high).foldl max first.high
  low := (rest.map MarketBar.low).foldl min first.low
  close := ((first :: rest).getLast (List.cons_ne_nil _ _)).close
  volume := ((first :: rest).map MarketBar.volume).sum
  openPositive := first.openPositive
  closePositive := MarketBar.closePositive _
  lowPositive := by
    have member := (foldl_min_spec (rest.map MarketBar.low) first.low).1
    rw [← List.map_cons] at member
    obtain ⟨bar, -, same⟩ := List.mem_map.mp member
    exact same ▸ bar.lowPositive
  volumeNonneg := by
    apply List.sum_nonneg
    intro volume member
    obtain ⟨bar, -, rfl⟩ := List.mem_map.mp member
    exact bar.volumeNonneg
  highest := by
    obtain ⟨-, all⟩ := foldl_max_spec (rest.map MarketBar.high) first.high
    rw [← List.map_cons] at all
    have closing := List.getLast_mem (List.cons_ne_nil first rest)
    apply max_le
    · exact (le_max_left _ _).trans (first.highest.trans (all _ List.mem_cons_self))
    · exact (le_max_right _ _).trans ((MarketBar.highest _).trans (all _ (List.mem_map_of_mem closing)))
  lowest := by
    obtain ⟨-, all⟩ := foldl_min_spec (rest.map MarketBar.low) first.low
    rw [← List.map_cons] at all
    have closing := List.getLast_mem (List.cons_ne_nil first rest)
    apply le_min
    · exact (all _ List.mem_cons_self).trans (first.lowest.trans (min_le_left _ _))
    · exact (all _ (List.mem_map_of_mem closing)).trans ((MarketBar.lowest _).trans (min_le_right _ _))

/-- A bucket that has all its minutes gives a bar, stamped with the bucket's end. -/
def emit (entry : Instant × List MarketBar) : Option MarketBar :=
  match entry.2 with
  | [] => none
  | first :: rest =>
    if (entry.2.length : ℤ) = intervalMinutes then
      some (combine (entry.1 + intervalMinutes * minute) first rest)
    else none

def aggregateMinuteBars (bars : List MarketBar) : Except AggregationError AggregationResult := do
  if intervalMinutes ≤ 0 then throw .intervalNotPositive
  if bars = [] then throw .noBars
  if (bars.map MarketBar.symbol).dedup.length ≠ 1 then throw .severalSymbols
  checkMinutes bars
  let grouped ← bars.foldlM (place calendar intervalMinutes) .empty
  let entries := grouped.entries.insertionSort fun one two => one.1 ≤ two.1
  return ⟨entries.filterMap (emit intervalMinutes),
    (entries.filter fun entry => (emit intervalMinutes entry).isNone).length⟩

end

variable {calendar : SessionCalendar} {intervalMinutes : ℤ} {bars later : List MarketBar} {bar : MarketBar}
  {start : Instant}

/-! ## Buckets -/

/-- Where an instant's bucket lies: within its day's session, and around the instant. -/
theorem bucketStart_spec {at_ : Instant} (positive : 0 < intervalMinutes)
    (found : bucketStart calendar intervalMinutes at_ = some start) :
    ∃ bounds, calendar.sessionBounds (calendar.localDate at_) = some bounds ∧ bounds.1 ≤ at_ ∧ at_ < bounds.2 ∧
      (∃ k : ℕ, start = bounds.1 + k * intervalMinutes * minute) ∧ start ≤ at_ ∧
      at_ < start + intervalMinutes * minute := by
  unfold bucketStart at found
  cases session : calendar.sessionBounds (calendar.localDate at_) with
  | none => simp [session] at found
  | some bounds =>
    simp only [session, Option.bind_some, Option.ite_none_right_eq_some, Option.some.injEq] at found
    obtain ⟨⟨opened, closes⟩, rfl⟩ := found
    have minutes : 0 < minute := by decide
    have elapsed : 0 ≤ (at_ - bounds.1) / minute := Int.ediv_nonneg (sub_nonneg.mpr opened) minutes.le
    have count : 0 ≤ (at_ - bounds.1) / minute / intervalMinutes := Int.ediv_nonneg elapsed positive.le
    have low := Int.ediv_mul_le ((at_ - bounds.1) / minute) positive.ne'
    have high := Int.lt_ediv_add_one_mul_self ((at_ - bounds.1) / minute) positive
    have lowMinute := Int.ediv_mul_le (at_ - bounds.1) minutes.ne'
    have highMinute := Int.lt_ediv_add_one_mul_self (at_ - bounds.1) minutes
    refine ⟨bounds, rfl, opened, closes, ⟨((at_ - bounds.1) / minute / intervalMinutes).toNat, ?_⟩, ?_, ?_⟩
    · rw [Int.toNat_of_nonneg count]
    · nlinarith
    · nlinarith

/-- Buckets follow one another as instants do. -/
theorem bucketStart_mono (apart : calendar.Apart) (positive : 0 < intervalMinutes) {early late : Instant}
    {first second : Instant} (le : early ≤ late) (one : bucketStart calendar intervalMinutes early = some first)
    (two : bucketStart calendar intervalMinutes late = some second) : first ≤ second := by
  obtain ⟨bounds, session, opened, closes, -, begun, -⟩ := bucketStart_spec positive one
  obtain ⟨other, session', opened', closes', ⟨k, from_⟩, -, -⟩ := bucketStart_spec positive two
  by_cases same : calendar.localDate early = calendar.localDate late
  · have alike : bounds = other := Option.some.inj (session.symm.trans (same ▸ session'))
    subst alike
    unfold bucketStart at one two
    simp only [session, session', Option.bind_some, Option.ite_none_right_eq_some, Option.some.injEq] at one two
    rw [← one.2, ← two.2]
    have minutes : 0 < minute := by decide
    have counts : (early - bounds.1) / minute / intervalMinutes ≤ (late - bounds.1) / minute / intervalMinutes :=
      Int.ediv_le_ediv positive (Int.ediv_le_ediv minutes (sub_le_sub_right le _))
    have scaled := Int.mul_le_mul_of_nonneg_right counts positive.le
    have whole := Int.mul_le_mul_of_nonneg_right scaled minutes.le
    linarith
  · have beyond : other.1 ≤ second := by
      have minutes : 0 < minute := by decide
      have ahead : 0 ≤ (k : ℤ) * intervalMinutes * minute := by positivity
      linarith
    rcases apart _ _ _ _ session session' same with before | after <;> linarith

/-- One bucket is of one day's session. -/
theorem bucketStart_date (apart : calendar.Apart) (positive : 0 < intervalMinutes) {one two : Instant}
    (first : bucketStart calendar intervalMinutes one = some start)
    (second : bucketStart calendar intervalMinutes two = some start) :
    calendar.localDate one = calendar.localDate two := by
  obtain ⟨bounds, session, opened, closes, ⟨k, from_⟩, begun, -⟩ := bucketStart_spec positive first
  obtain ⟨other, session', opened', closes', ⟨k', from_'⟩, begun', -⟩ := bucketStart_spec positive second
  by_contra different
  have minutes : 0 < minute := by decide
  have ahead : 0 ≤ (k : ℤ) * intervalMinutes * minute := by positivity
  have ahead' : 0 ≤ (k' : ℤ) * intervalMinutes * minute := by positivity
  rcases apart _ _ _ _ session session' different with before | after <;> linarith

/-! ## Minutes -/

def Minutes (bars : List MarketBar) : Prop :=
  bars.IsChain fun prior current => current.timestamp = prior.timestamp + minute

theorem checkMinutes_ok (checked : checkMinutes bars = .ok ()) : Minutes bars := by
  induction bars using checkMinutes.induct with
  | case1 prior current rest early =>
    simp [checkMinutes, early] at checked
  | case2 prior current rest early apart =>
    simp [checkMinutes, early, apart] at checked
  | case3 prior current rest early apart ih =>
    simp only [checkMinutes, early, apart, if_false] at checked
    refine List.IsChain.cons_cons ?_ (ih checked)
    have step := not_not.mp apart
    linarith
  | case4 bars short =>
    match bars, short with
    | [], _ => exact .nil
    | [_], _ => exact .singleton _
    | one :: two :: rest, short => exact absurd rfl (short one two rest)

theorem Minutes.sorted (minutes : Minutes bars) :
    bars.Pairwise fun prior current => prior.timestamp < current.timestamp := by
  have : Trans (fun one two : MarketBar => one.timestamp < two.timestamp)
      (fun one two : MarketBar => one.timestamp < two.timestamp)
      (fun one two : MarketBar => one.timestamp < two.timestamp) := ⟨fun first second => lt_trans first second⟩
  apply List.IsChain.pairwise
  apply minutes.imp
  intro prior current step
  have positive : 0 < minute := by decide
  linarith

/-- Of consecutive minutes the last is as many after the first. -/
theorem Minutes.last {first : MarketBar} {rest : List MarketBar} (minutes : Minutes (first :: rest)) :
    ((first :: rest).getLast (List.cons_ne_nil _ _)).timestamp = first.timestamp + rest.length * minute := by
  induction rest generalizing first with
  | nil => simp
  | cons second rest ih =>
    rw [List.getLast_cons (List.cons_ne_nil _ _), ih minutes.tail]
    have step : second.timestamp = first.timestamp + minute := (List.isChain_cons_cons.mp minutes).1
    rw [step, List.length_cons]
    push_cast
    ring

/-- A bucket has room for its minutes. -/
theorem Minutes.room (positive : 0 < intervalMinutes) {bucket : List MarketBar} (minutes : Minutes bucket)
    (own : ∀ bar ∈ bucket, bucketStart calendar intervalMinutes bar.timestamp = some start) :
    (bucket.length : ℤ) ≤ intervalMinutes := by
  cases bucket with
  | nil => simpa using positive.le
  | cons first rest =>
    obtain ⟨-, -, -, -, -, begun, -⟩ := bucketStart_spec positive (own first List.mem_cons_self)
    obtain ⟨-, -, -, -, -, -, ends⟩ := bucketStart_spec positive (own _ (List.getLast_mem (List.cons_ne_nil first rest)))
    rw [minutes.last] at ends
    have minutes : 0 < minute := by decide
    have less : (rest.length : ℤ) * minute < intervalMinutes * minute := by linarith
    have short := Int.lt_of_mul_lt_mul_right less minutes.le
    rw [List.length_cons]
    push_cast
    omega

/-! ## Grouping -/

/-- The bars grouped so far: all of them in order, each under its own bucket, the buckets one after another. -/
structure Grouped (calendar : SessionCalendar) (intervalMinutes : ℤ) (bars : List MarketBar)
    (entries : List (Instant × List MarketBar)) : Prop where
  whole : entries.flatMap Prod.snd = bars
  filled : ∀ entry ∈ entries, entry.2 ≠ []
  own : ∀ entry ∈ entries, ∀ bar ∈ entry.2, bucketStart calendar intervalMinutes bar.timestamp = some entry.1
  ascending : (entries.map Prod.fst).Pairwise (· < ·)

theorem Grouped.member (grouped : Grouped calendar intervalMinutes bars entries) {entry : Instant × List MarketBar}
    (member : entry ∈ entries) :
    ∃ bar ∈ bars, bar ∈ entry.2 ∧ bucketStart calendar intervalMinutes bar.timestamp = some entry.1 := by
  obtain ⟨bar, inside⟩ := List.exists_mem_of_ne_nil _ (grouped.filled entry member)
  refine ⟨bar, ?_, inside, grouped.own entry member bar inside⟩
  rw [← grouped.whole]
  exact List.mem_flatMap.mpr ⟨entry, member, inside⟩

/-- A bar that comes last goes to the last bucket, or opens one after all others. What has been emitted stays. -/
theorem place_grouped (apart : calendar.Apart) (positive : 0 < intervalMinutes) {grouped after : Buckets}
    (minutes : Minutes (bars ++ [bar])) (before : Grouped calendar intervalMinutes bars grouped.entries)
    (placed : place calendar intervalMinutes grouped bar = .ok after) :
    Grouped calendar intervalMinutes (bars ++ [bar]) after.entries ∧
      grouped.entries.filterMap (emit intervalMinutes) <+: after.entries.filterMap (emit intervalMinutes) := by
  unfold place at placed
  cases found : bucketStart calendar intervalMinutes bar.timestamp with
  | none => simp [found] at placed
  | some start =>
    simp only [found, Except.ok.injEq] at placed
    subst placed
    have earlier : ∀ entry ∈ grouped.entries, entry.1 ≤ start := by
      intro entry member
      obtain ⟨prior, inside, -, same⟩ := before.member member
      have order := (List.pairwise_append.mp minutes.sorted).2.2 prior inside bar (List.mem_singleton.mpr rfl)
      exact bucketStart_mono apart positive order.le same found
    cases present : grouped.get? start with
    | none =>
      have fresh : start ∉ grouped.entries.map Prod.fst := Dict.get?_none_iff.mp present
      have entries : (grouped.set start (grouped.getD start [] ++ [bar])).entries = grouped.entries ++ [(start, [bar])] := by
        rw [Dict.getD, present]
        exact Dict.put_fresh fresh _
      rw [entries]
      refine ⟨⟨?_, ?_, ?_, ?_⟩, ?_⟩
      · simp [List.flatMap_append, before.whole]
      · intro entry member
        rcases List.mem_append.mp member with old | new
        · exact before.filled entry old
        · simp [List.mem_singleton.mp new]
      · intro entry member other inside
        rcases List.mem_append.mp member with old | new
        · exact before.own entry old other inside
        · obtain rfl := List.mem_singleton.mp new
          obtain rfl := List.mem_singleton.mp inside
          exact found
      · rw [List.map_append, List.pairwise_append]
        refine ⟨before.ascending, List.pairwise_singleton _ _, ?_⟩
        intro key member last same
        obtain rfl := List.mem_singleton.mp same
        obtain ⟨entry, inside, rfl⟩ := List.mem_map.mp member
        exact lt_of_le_of_ne (earlier entry inside) fun same => fresh (same ▸ member)
      · rw [List.filterMap_append]
        exact List.prefix_append _ _
    | some old =>
      obtain ⟨front, tail, split⟩ := List.append_of_mem (Dict.mem_entries.mpr present)
      have ascending := before.ascending
      rw [split, List.map_append, List.map_cons, List.pairwise_append, List.pairwise_cons] at ascending
      obtain ⟨-, ⟨beyond, -⟩, below⟩ := ascending
      have none_ : tail = [] := by
        cases tail with
        | nil => rfl
        | cons entry tail =>
          have greater := beyond entry.1 List.mem_cons_self
          exact absurd (earlier entry (by simp [split])) (not_le.mpr greater)
      subst none_
      have fresh : start ∉ front.map Prod.fst := fun member => lt_irrefl _ (below start member start List.mem_cons_self)
      have entries : (grouped.set start (grouped.getD start [] ++ [bar])).entries = front ++ [(start, old ++ [bar])] := by
        rw [Dict.getD, present]
        change Dict.put grouped.entries start _ = _
        rw [split]
        exact Dict.put_last fresh _ _
      have own : ∀ other ∈ old ++ [bar], bucketStart calendar intervalMinutes other.timestamp = some start := by
        intro other member
        rcases List.mem_append.mp member with old | new
        · exact before.own (start, _) (by simp [split]) other old
        · obtain rfl := List.mem_singleton.mp new
          exact found
      have whole := before.whole
      rw [split, List.flatMap_append] at whole
      simp only [List.flatMap_cons, List.flatMap_nil, List.append_nil] at whole
      rw [entries]
      refine ⟨⟨?_, ?_, ?_, ?_⟩, ?_⟩
      · simp [List.flatMap_append, ← whole]
      · intro entry member
        rcases List.mem_append.mp member with inside | new
        · exact before.filled entry (by simp [split, inside])
        · simp [List.mem_singleton.mp new]
      · intro entry member
        rcases List.mem_append.mp member with inside | new
        · exact before.own entry (by simp [split, inside])
        · obtain rfl := List.mem_singleton.mp new
          exact own
      · simpa [split] using before.ascending
      · -- There was room for the bar, so its bucket had not been emitted.
        have chain : Minutes (old ++ [bar]) := by
          rw [← whole, List.append_assoc] at minutes
          exact minutes.right_of_append
        have room := chain.room positive own
        rw [List.length_append] at room
        push_cast at room
        have incomplete : (old.length : ℤ) ≠ intervalMinutes := by
          simp only [List.length_singleton] at room
          omega
        have silent : emit intervalMinutes (start, old) = none := by
          unfold emit
          cases old with
          | nil => rfl
          | cons first rest => exact if_neg incomplete
        rw [split, List.filterMap_append, List.filterMap_append]
        simp only [List.filterMap_cons, silent, List.filterMap_nil, List.append_nil]
        exact List.prefix_append _ _

/-- All bars of a list, placed one after another. -/
theorem foldlM_grouped (apart : calendar.Apart) (positive : 0 < intervalMinutes) {grouped after : Buckets}
    (minutes : Minutes (bars ++ later)) (before : Grouped calendar intervalMinutes bars grouped.entries)
    (placed : later.foldlM (place calendar intervalMinutes) grouped = .ok after) :
    Grouped calendar intervalMinutes (bars ++ later) after.entries ∧
      grouped.entries.filterMap (emit intervalMinutes) <+: after.entries.filterMap (emit intervalMinutes) := by
  induction later generalizing bars grouped with
  | nil =>
    obtain rfl := Except.ok.inj placed
    rw [List.append_nil]
    exact ⟨before, List.prefix_rfl⟩
  | cons bar later ih =>
    rw [List.foldlM_cons] at placed
    cases one : place calendar intervalMinutes grouped bar with
    | error fault =>
      rw [one] at placed
      cases placed
    | ok next =>
      rw [one] at placed
      rw [← List.singleton_append, ← List.append_assoc] at minutes ⊢
      obtain ⟨here, kept⟩ := place_grouped apart positive minutes.left_of_append before one
      obtain ⟨there, still⟩ := ih minutes here placed
      exact ⟨there, kept.trans still⟩

/-- What an accepted aggregation has passed, and come to. -/
theorem aggregate_ok {result : AggregationResult}
    (accepted : aggregateMinuteBars calendar intervalMinutes bars = .ok result) : 0 < intervalMinutes ∧
      Minutes bars ∧ ∃ grouped, bars.foldlM (place calendar intervalMinutes) .empty = .ok grouped ∧
        result.bars = (grouped.entries.insertionSort fun one two => one.1 ≤ two.1).filterMap (emit intervalMinutes) := by
  unfold aggregateMinuteBars at accepted
  by_cases positive : intervalMinutes ≤ 0
  · simp [positive, throw, throwThe, MonadExceptOf.throw, bind, Except.bind] at accepted
  by_cases none_ : bars = []
  · simp [positive, none_, throw, throwThe, MonadExceptOf.throw, bind, Except.bind] at accepted
  by_cases symbols : (bars.map MarketBar.symbol).dedup.length ≠ 1
  · simp [positive, none_, symbols, throw, throwThe, MonadExceptOf.throw, bind, Except.bind] at accepted
  simp only [positive, none_, symbols, if_false] at accepted
  cases checked : checkMinutes bars with
  | error fault =>
    rw [checked] at accepted
    cases accepted
  | ok passed =>
    rw [checked] at accepted
    cases placed : bars.foldlM (place calendar intervalMinutes) .empty with
    | error fault =>
      rw [placed] at accepted
      cases accepted
    | ok grouped =>
      rw [placed] at accepted
      obtain rfl := Except.ok.inj accepted
      exact ⟨not_le.mp positive, checkMinutes_ok checked, grouped, rfl, rfl⟩

theorem grouped_empty : Grouped calendar intervalMinutes [] (Dict.empty : Buckets).entries :=
  ⟨rfl, nofun, nofun, List.Pairwise.nil⟩

theorem Grouped.sorted {entries : List (Instant × List MarketBar)}
    (grouped : Grouped calendar intervalMinutes bars entries) :
    (entries.insertionSort fun one two => one.1 ≤ two.1) = entries := by
  apply List.Pairwise.insertionSort_eq
  exact (List.pairwise_map.mp grouped.ascending).imp fun less => le_of_lt less

/-- A bar that is emitted, and the bars it is made of: all the minutes of one bucket, in one session. -/
structure Emission (calendar : SessionCalendar) (intervalMinutes : ℤ) (bars : List MarketBar)
    (entry : Instant × List MarketBar) (out : MarketBar) : Prop where
  consecutive : ∃ before after, bars = before ++ entry.2 ++ after
  complete : (entry.2.length : ℤ) = intervalMinutes
  aligned : ∃ session bounds, calendar.sessionBounds session = some bounds ∧
    (∃ k : ℕ, entry.1 = bounds.1 + k * intervalMinutes * minute) ∧
    ∀ bar ∈ entry.2, calendar.localDate bar.timestamp = session ∧ bounds.1 ≤ bar.timestamp ∧
      bar.timestamp < bounds.2 ∧ entry.1 ≤ bar.timestamp ∧ bar.timestamp < entry.1 + intervalMinutes * minute
  timestamp : out.timestamp = entry.1 + intervalMinutes * minute
  opening : ∃ bar, entry.2.head? = some bar ∧ out.symbol = bar.symbol ∧ out.openPrice = bar.openPrice
  closing : ∃ bar, entry.2.getLast? = some bar ∧ out.close = bar.close
  highest : (∃ bar ∈ entry.2, out.high = bar.high) ∧ ∀ bar ∈ entry.2, bar.high ≤ out.high
  lowest : (∃ bar ∈ entry.2, out.low = bar.low) ∧ ∀ bar ∈ entry.2, out.low ≤ bar.low
  volume : out.volume = (entry.2.map MarketBar.volume).sum

theorem Grouped.emission (apart : calendar.Apart) (positive : 0 < intervalMinutes)
    {entries : List (Instant × List MarketBar)} (grouped : Grouped calendar intervalMinutes bars entries)
    {entry : Instant × List MarketBar} {out : MarketBar} (member : entry ∈ entries)
    (emitted : emit intervalMinutes entry = some out) : Emission calendar intervalMinutes bars entry out := by
  have own := grouped.own entry member
  have whole := grouped.whole
  obtain ⟨start, bucket⟩ := entry
  obtain ⟨front, tail, split⟩ := List.append_of_mem member
  unfold emit at emitted
  cases bucket with
  | nil => cases emitted
  | cons first rest =>
    simp only [Option.ite_none_right_eq_some, Option.some.injEq] at emitted
    obtain ⟨complete, rfl⟩ := emitted
    obtain ⟨highest, above⟩ := foldl_max_spec (rest.map MarketBar.high) first.high
    obtain ⟨lowest, below⟩ := foldl_min_spec (rest.map MarketBar.low) first.low
    rw [← List.map_cons] at highest above lowest below
    refine ⟨?_, complete, ?_, rfl, ⟨first, rfl, rfl, rfl⟩, ⟨_, List.getLast?_eq_getLast_of_ne_nil (List.cons_ne_nil _ _), rfl⟩,
      ⟨?_, fun bar inside => above _ (List.mem_map_of_mem inside)⟩,
      ⟨?_, fun bar inside => below _ (List.mem_map_of_mem inside)⟩, rfl⟩
    · refine ⟨front.flatMap Prod.snd, tail.flatMap Prod.snd, ?_⟩
      rw [← whole, split]
      simp [List.flatMap_append]
    · obtain ⟨bounds, session, -, -, start_, -, -⟩ := bucketStart_spec positive (own first List.mem_cons_self)
      refine ⟨_, bounds, session, start_, fun bar inside => ?_⟩
      have same := bucketStart_date apart positive (own bar inside) (own first List.mem_cons_self)
      obtain ⟨other, session', opened, closes, -, begun, ends⟩ := bucketStart_spec positive (own bar inside)
      obtain rfl : bounds = other := Option.some.inj (session.symm.trans (same ▸ session'))
      exact ⟨same, opened, closes, begun, ends⟩
    · obtain ⟨bar, inside, same⟩ := List.mem_map.mp highest
      exact ⟨bar, inside, same.symm⟩
    · obtain ⟨bar, inside, same⟩ := List.mem_map.mp lowest
      exact ⟨bar, inside, same.symm⟩

/-- A bucket has all bars of its start. -/
theorem Grouped.filter {entries : List (Instant × List MarketBar)}
    (grouped : Grouped calendar intervalMinutes bars entries) {entry : Instant × List MarketBar}
    (member : entry ∈ entries) :
    (bars.filter fun bar => bucketStart calendar intervalMinutes bar.timestamp = some entry.1) = entry.2 := by
  obtain ⟨front, tail, split⟩ := List.append_of_mem member
  have ascending := grouped.ascending
  rw [split, List.map_append, List.map_cons, List.pairwise_append, List.pairwise_cons] at ascending
  obtain ⟨-, ⟨beyond, -⟩, below⟩ := ascending
  have others (part : List (Instant × List MarketBar)) (inside : ∀ other ∈ part, other ∈ entries ∧ other.1 ≠ entry.1) :
      ((part.flatMap Prod.snd).filter fun bar =>
        bucketStart calendar intervalMinutes bar.timestamp = some entry.1) = [] := by
    rw [List.filter_eq_nil_iff]
    intro bar here same
    obtain ⟨other, there, own⟩ := List.mem_flatMap.mp here
    obtain ⟨known, apart⟩ := inside other there
    have two := (grouped.own other known bar own).symm.trans (of_decide_eq_true same)
    exact apart (Option.some.inj two)
  rw [← grouped.whole, split, List.flatMap_append, List.flatMap_cons, List.filter_append, List.filter_append,
    others front, others tail, List.nil_append, List.append_nil, List.filter_eq_self]
  · exact fun bar own => decide_eq_true (grouped.own entry member bar own)
  · intro other there
    exact ⟨by simp [split, there], (beyond other.1 (List.mem_map_of_mem there)).ne'⟩
  · intro other there
    exact ⟨by simp [split, there], (below other.1 (List.mem_map_of_mem there) entry.1 List.mem_cons_self).ne⟩

theorem emit_complete {entry : Instant × List MarketBar} (filled : entry.2 ≠ [])
    (complete : (entry.2.length : ℤ) = intervalMinutes) : (emit intervalMinutes entry).isSome = true := by
  obtain ⟨start, bucket⟩ := entry
  cases bucket with
  | nil => exact absurd rfl filled
  | cons first rest => simp [emit, ← complete]

theorem forall₂_filterMap {α β : Type*} {f : α → Option β} {related : α → β → Prop} {l : List α}
    (all : ∀ a ∈ l, ∀ b, f a = some b → related a b) :
    List.Forall₂ related (l.filter fun a => (f a).isSome) (l.filterMap f) := by
  induction l with
  | nil => exact .nil
  | cons a l ih =>
    have rest := ih fun a member => all a (List.mem_cons_of_mem _ member)
    cases image : f a with
    | none => simpa [List.filter_cons, List.filterMap_cons, image] using rest
    | some b =>
      simp only [List.filter_cons, List.filterMap_cons, image, Option.isSome_some, if_true]
      exact .cons (all a List.mem_cons_self b image) rest

/-- The bars that come out are made of disjoint buckets of the bars that go in, one for each complete bucket,
and bars that come later change none of them. -/
theorem aggregation_partitions (apart : calendar.Apart) {result : AggregationResult}
    (accepted : aggregateMinuteBars calendar intervalMinutes bars = .ok result) :
    ∃ buckets : List (Instant × List MarketBar),
      List.Forall₂ (Emission calendar intervalMinutes bars) buckets result.bars ∧
      (buckets.flatMap Prod.snd).Sublist bars ∧ (buckets.map Prod.fst).Pairwise (· < ·) ∧
      (∀ start, let bucket := bars.filter fun bar => bucketStart calendar intervalMinutes bar.timestamp = some start
        (bucket.length : ℤ) = intervalMinutes → (start, bucket) ∈ buckets) ∧
      ∀ later extended, aggregateMinuteBars calendar intervalMinutes (bars ++ later) = .ok extended →
        result.bars <+: extended.bars := by
  obtain ⟨positive, minutes, grouped, placed, emitted⟩ := aggregate_ok accepted
  have all := (foldlM_grouped apart positive (by simpa using minutes) grouped_empty placed).1
  rw [List.nil_append] at all
  rw [all.sorted] at emitted
  refine ⟨grouped.entries.filter fun entry => (emit intervalMinutes entry).isSome, ?_, ?_, ?_, ?_, ?_⟩
  · rw [emitted]
    exact forall₂_filterMap fun entry member out made => all.emission apart positive member made
  · rw [← all.whole]
    exact List.filter_sublist.flatMap _
  · exact all.ascending.sublist (List.filter_sublist.map _)
  · intro start bucket complete
    have filled : bucket ≠ [] := by
      intro none_
      rw [none_] at complete
      simp only [List.length_nil, Nat.cast_zero] at complete
      omega
    obtain ⟨bar, inside⟩ := List.exists_mem_of_ne_nil _ filled
    obtain ⟨known, own⟩ := List.mem_filter.mp inside
    rw [← all.whole] at known
    obtain ⟨entry, member, here⟩ := List.mem_flatMap.mp known
    have same : entry.1 = start :=
      Option.some.inj ((all.own entry member bar here).symm.trans (of_decide_eq_true own))
    have bars_ : bucket = entry.2 := by
      subst same
      exact all.filter member
    rw [bars_] at filled complete ⊢
    rw [← same]
    exact List.mem_filter.mpr ⟨member, emit_complete filled complete⟩
  · intro later extended also
    obtain ⟨-, more, whole, placed', emitted'⟩ := aggregate_ok also
    rw [List.foldlM_append, placed] at placed'
    obtain ⟨after, kept⟩ := foldlM_grouped apart positive more all placed'
    rw [after.sorted] at emitted'
    rw [emitted, emitted']
    exact kept

/-- Sessions of six and a half hours from half past one, each on its own day. -/
def sampleCalendar : SessionCalendar where
  localDate at_ := at_ / day
  sessionBounds date := some (date * day + 810 * minute, date * day + 1200 * minute)

theorem sampleCalendar_apart : sampleCalendar.Apart := by
  rintro one two bounds other early late different
  obtain rfl := Option.some.inj early
  obtain rfl := Option.some.inj late
  have days : (one + 1 ≤ two) ∨ two + 1 ≤ one := by omega
  simp only [day, minute, second]
  exact days.imp (fun less => by linarith) fun less => by linarith

def sampleBar (minutes : ℤ) : MarketBar where
  symbol := "SPY"
  timestamp := (810 + minutes) * minute
  openPrice := 100
  high := 101
  low := 99
  close := 100
  volume := 10
  openPositive := by norm_num
  closePositive := by norm_num
  lowPositive := by norm_num
  volumeNonneg := by norm_num
  highest := by norm_num
  lowest := by norm_num

theorem aggregation_partitions_sample : ∃ result, aggregateMinuteBars sampleCalendar 2
    [sampleBar 0, sampleBar 1, sampleBar 2] = .ok result ∧ result.bars.length = 1 ∧
      ∃ buckets : List (Instant × List MarketBar),
        List.Forall₂ (Emission sampleCalendar 2 [sampleBar 0, sampleBar 1, sampleBar 2]) buckets result.bars := by
  have length : (aggregateMinuteBars sampleCalendar 2 [sampleBar 0, sampleBar 1, sampleBar 2]).toOption.map
      (fun result => result.bars.length) = some 1 := by decide +kernel
  cases accepted : aggregateMinuteBars sampleCalendar 2 [sampleBar 0, sampleBar 1, sampleBar 2] with
  | error fault => simp [accepted, Except.toOption] at length
  | ok result =>
    obtain ⟨buckets, made, -⟩ := aggregation_partitions sampleCalendar_apart accepted
    refine ⟨result, rfl, ?_, buckets, made⟩
    simpa [accepted, Except.toOption] using length

end TradeAgent.Intraday
