import TradeAgent.ScalpOrder

/-! Deliveries of one broker history converge: whatever order and repetition the snapshots
arrive in, over REST or the stream, the stored order ends where its last snapshot puts it. -/
namespace TradeAgent.Scalp

/-- The filled notional a snapshot reports, nothing while it has no price. -/
def AlpacaPaperOrder.notionalFilled (s : AlpacaPaperOrder) : ℚ :=
  s.filledQuantity * s.filledAveragePrice.getD 0

/-- One snapshot of a broker history before a later one. -/
structure Precedes (s later : AlpacaPaperOrder) : Prop where
  version : ∃ a b, s.updatedAt = some (.aware a) ∧ later.updatedAt = some (.aware b) ∧ a < b
  quantity : s.filledQuantity ≤ later.filledQuantity
  notional : s.notionalFilled ≤ later.notionalFilled

/-- A broker's history of one order, oldest first. -/
structure Chronicle (history : List AlpacaPaperOrder) : Prop where
  ordered : history.Pairwise Precedes
  priced : ∀ s ∈ history, 0 < s.filledQuantity → s.filledAveragePrice ≠ none
  unfinished : ∀ s ∈ history.dropLast, s.status.final = false

theorem ignored_false_iff {previous : Option AlpacaPaperOrder} {status : OrderStatus}
    {s : AlpacaPaperOrder} : ignored previous status s = .ok false ↔
      olderVersion previous s = .ok false ∧ previousQuantity previous ≤ s.filledQuantity ∧
      regressiveNotional previous s = false ∧ (status.final = true → s.status.final = true) := by
  unfold ignored
  cases olderVersion previous s with
  | error e => simp [bind, Except.bind]
  | ok older =>
    cases older <;> cases regressiveNotional previous s <;> cases status.final <;>
      cases s.status.final <;> simp [bind, Except.bind, pure, Except.pure]

/-- Against the same stored snapshot, a later version is no staler than an earlier one. -/
theorem olderVersion_later {previous : Option AlpacaPaperOrder} {s later : AlpacaPaperOrder}
    (precedes : Precedes s later) (fresh : olderVersion previous s = .ok false) :
    olderVersion previous later = .ok false := by
  obtain ⟨a, b, versionS, versionLater, before⟩ := precedes.version
  unfold olderVersion at fresh ⊢
  rw [versionS] at fresh
  rw [versionLater]
  cases stored : previous.bind AlpacaPaperOrder.updatedAt with
  | none => rfl
  | some u =>
    rw [stored] at fresh
    cases u with
    | naive => cases fresh
    | aware t =>
      simp only [stamp, bind, Except.bind, pure, Except.pure, Except.ok.injEq, Bool.and_eq_false_iff,
        decide_eq_false_iff_not, not_lt, not_le] at fresh ⊢
      rcases fresh with current | more
      · exact .inl (current.trans before.le)
      · exact .inr (lt_of_lt_of_le more precedes.quantity)

theorem regressiveNotional_false_iff {p s : AlpacaPaperOrder} :
    regressiveNotional (some p) s = false ↔ p.filledAveragePrice = none ∨ s.filledAveragePrice = none ∨
      context p.notionalFilled ≤ context s.notionalFilled := by
  unfold regressiveNotional AlpacaPaperOrder.notionalFilled
  cases stored : p.filledAveragePrice with
  | none => simp [stored]
  | some pp =>
    cases priced : s.filledAveragePrice with
    | none => simp [stored]
    | some price =>
      simp only [Option.bind_some, stored, previousQuantity, Option.map_some, Option.getD_some,
        reduceCtorEq, false_or]
      exact ⟨fun test => not_lt.mp (of_decide_eq_false test), fun le => decide_eq_false (not_lt.mpr le)⟩

section Matching

variable {intent : OrderIntent} {s last : AlpacaPaperOrder}

theorem OrderIntent.Matches.notional_nonneg (matching : intent.Matches s) : 0 ≤ s.notionalFilled := by
  refine mul_nonneg matching.nonneg ?_
  cases priced : s.filledAveragePrice with
  | none => simp
  | some p => exact (matching.priced p priced).le

/-- What is fresh against the stored snapshot stays fresh when a later one is delivered
in its place. -/
theorem ignored_later {previous : Option AlpacaPaperOrder} {status : OrderStatus}
    (sound : ∀ p ∈ previous, intent.Matches p) (matching : intent.Matches s)
    (precedes : Precedes s last) (priced : 0 < s.filledQuantity → s.filledAveragePrice ≠ none)
    (unfinished : s.status.final = false) (fresh : ignored previous status s = .ok false) :
    ignored previous status last = .ok false := by
  rw [ignored_false_iff] at fresh ⊢
  obtain ⟨version, quantity, notional, reopened⟩ := fresh
  refine ⟨olderVersion_later precedes version, quantity.trans precedes.quantity, ?_, ?_⟩
  · cases previous with
    | none => rfl
    | some p =>
      rw [regressiveNotional_false_iff] at notional ⊢
      rcases notional with unpriced | unpriced | le
      · exact .inl unpriced
      · -- An unpriced snapshot has filled nothing, so neither has the stored one.
        have none_filled : p.filledQuantity = 0 := by
          have low : ¬0 < s.filledQuantity := fun positive => priced positive unpriced
          exact le_antisymm (quantity.trans (not_lt.mp low)) (sound p rfl).nonneg
        have zero : p.notionalFilled = 0 := by simp [AlpacaPaperOrder.notionalFilled, none_filled]
        have nonneg := matching.notional_nonneg.trans precedes.notional
        exact .inr (.inr (context_mono (sound p rfl).notional_nonneg (zero ▸ nonneg)))
      · exact .inr (.inr (le.trans (context_mono matching.notional_nonneg precedes.notional)))
  · intro finished
    have closed := reopened finished
    rw [unfinished] at closed
    cases closed

/-- The last snapshot is fresh against any earlier one. -/
theorem ignored_stored (matching : intent.Matches s) (precedes : Precedes s last)
    (unfinished : s.status.final = false) :
    ignored (some s) (.broker s.status) last = .ok false := by
  rw [ignored_false_iff]
  obtain ⟨a, b, versionS, versionLast, before⟩ := precedes.version
  refine ⟨?_, precedes.quantity, ?_, ?_⟩
  · simp [olderVersion, versionS, versionLast, stamp, bind, Except.bind, pure, Except.pure,
      not_lt.mpr before.le]
  · rw [regressiveNotional_false_iff]
    exact .inr (.inr (context_mono matching.notional_nonneg precedes.notional))
  · intro finished
    simp [OrderStatus.final, unfinished] at finished

/-- An earlier snapshot is stale once the last one is stored. -/
theorem ignored_earlier (precedes : Precedes s last) (status : OrderStatus) :
    ignored (some last) status s ≠ .ok false := by
  rw [Ne, ignored_false_iff]
  obtain ⟨a, b, versionS, versionLast, before⟩ := precedes.version
  rintro ⟨version, -⟩
  simp only [olderVersion, versionS, versionLast, Option.bind_some, stamp, bind, Except.bind, pure,
    Except.pure, Except.ok.injEq, Bool.and_eq_false_iff, decide_eq_false_iff_not] at version
  rcases version with current | more
  · exact current before
  · exact more precedes.quantity

end Matching

/-- What a stored order shows of its broker's state. -/
structure Progress where
  status : OrderStatus
  filledQuantity : ℚ
  brokerOrderId : Option String
  broker : Option AlpacaPaperOrder
  deriving DecidableEq

def OwnedOrder.progress (order : OwnedOrder) : Progress :=
  ⟨order.status, order.filledQuantity, order.brokerOrderId, order.broker⟩

/-- The progress of an order that last stored this snapshot. -/
def AlpacaPaperOrder.progress (s : AlpacaPaperOrder) : Progress :=
  ⟨.broker s.status, s.filledQuantity, some s.id, some s⟩

theorem deliver_intent (order : OwnedOrder) (d : Delivery) : (deliver order d).intent = order.intent := by
  obtain ⟨received, updated⟩ := d.updated order
  unfold deliver
  generalize d.apply order = result at updated
  cases updated <;> rfl

section Converge

variable {order : OwnedOrder} {earlier : List AlpacaPaperOrder} {last : AlpacaPaperOrder}
  (chronicle : Chronicle (earlier ++ [last]))
include chronicle

theorem Chronicle.before_last {s : AlpacaPaperOrder} (member : s ∈ earlier) :
    Precedes s last ∧ (0 < s.filledQuantity → s.filledAveragePrice ≠ none) ∧
    s.status.final = false := by
  have ordered := (List.pairwise_append.mp chronicle.ordered).2.2 s member last (by simp)
  exact ⟨ordered, chronicle.priced s (List.mem_append_left _ member),
    chronicle.unfinished s (by simpa using member)⟩

/-- Once the last snapshot is stored, no delivery of the history moves the order. -/
theorem deliver_settled (settled : order.progress = last.progress) {d : Delivery}
    (admissible : Admissible order.intent d) (known : d.snapshot ∈ earlier ++ [last]) :
    (deliver order d).progress = last.progress := by
  simp only [OwnedOrder.progress, AlpacaPaperOrder.progress, Progress.mk.injEq] at settled
  rcases List.mem_append.mp known with before | here
  · obtain ⟨precedes, -, -⟩ := chronicle.before_last before
    have stale : ignored order.broker order.status d.snapshot ≠ .ok false := by
      rw [settled.2.2.2]; exact ignored_earlier precedes _
    rw [deliver_stale stale]
    simp only [OwnedOrder.progress, AlpacaPaperOrder.progress, settled]
  · rw [List.mem_singleton] at here
    by_cases fresh : ignored order.broker order.status d.snapshot = .ok false
    · obtain ⟨first, stored⟩ := deliver_fresh admissible fresh
      rw [stored, ← here]
      rfl
    · rw [deliver_stale fresh]
      simp only [OwnedOrder.progress, AlpacaPaperOrder.progress, settled]

/-- An order that would take the last snapshot would still take it after any other
delivery, and has it after that one. -/
theorem deliver_open (fresh : ignored order.broker order.status last = .ok false) {d : Delivery}
    (admissible : Admissible order.intent d) (known : d.snapshot ∈ earlier ++ [last]) :
    (deliver order d).progress = last.progress ∨ d.snapshot ≠ last ∧
      ignored (deliver order d).broker (deliver order d).status last = .ok false := by
  by_cases takes : ignored order.broker order.status d.snapshot = .ok false
  · obtain ⟨first, stored⟩ := deliver_fresh admissible takes
    by_cases here : d.snapshot = last
    · left
      rw [stored, ← here]
      rfl
    · right
      have before : d.snapshot ∈ earlier := by simpa [here] using known
      obtain ⟨precedes, -, unfinished⟩ := chronicle.before_last before
      rw [stored]
      exact ⟨here, ignored_stored admissible.matching precedes unfinished⟩
  · right
    rw [deliver_stale takes]
    exact ⟨fun here => takes (here ▸ fresh), fresh⟩

theorem deliverAll_settled (settled : order.progress = last.progress) {ds : List Delivery}
    (admissible : ∀ d ∈ ds, Admissible order.intent d)
    (known : ∀ d ∈ ds, d.snapshot ∈ earlier ++ [last]) :
    (deliverAll order ds).progress = last.progress := by
  induction ds generalizing order with
  | nil => exact settled
  | cons d rest ih =>
    rw [List.forall_mem_cons] at admissible known
    exact ih (deliver_settled chronicle settled admissible.1 known.1)
      (by rw [deliver_intent]; exact admissible.2) known.2

theorem deliverAll_open (fresh : ignored order.broker order.status last = .ok false)
    {ds : List Delivery} (admissible : ∀ d ∈ ds, Admissible order.intent d)
    (known : ∀ d ∈ ds, d.snapshot ∈ earlier ++ [last]) (delivered : ∃ d ∈ ds, d.snapshot = last) :
    (deliverAll order ds).progress = last.progress := by
  induction ds generalizing order with
  | nil => obtain ⟨d, member, -⟩ := delivered; cases member
  | cons d rest ih =>
    rw [List.forall_mem_cons] at admissible known
    have later : ∀ d' ∈ rest, Admissible (deliver order d).intent d' := by
      rw [deliver_intent]; exact admissible.2
    rcases deliver_open chronicle fresh admissible.1 known.1 with settled | ⟨other, still⟩
    · exact deliverAll_settled chronicle settled later known.2
    · refine ih still later known.2 ?_
      obtain ⟨d', member, same⟩ := delivered
      rcases List.mem_cons.mp member with rfl | after
      · exact absurd same other
      · exact ⟨d', after, same⟩

/-- An order that ignores the last snapshot ignores the whole history. -/
theorem deliverAll_closed (stale : ignored order.broker order.status last ≠ .ok false)
    {ds : List Delivery} (admissible : ∀ d ∈ ds, Admissible order.intent d)
    (known : ∀ d ∈ ds, d.snapshot ∈ earlier ++ [last]) : deliverAll order ds = order := by
  induction ds with
  | nil => rfl
  | cons d rest ih =>
    rw [List.forall_mem_cons] at admissible known
    have refused : ignored order.broker order.status d.snapshot ≠ .ok false := by
      intro fresh
      rcases List.mem_append.mp known.1 with before | here
      · obtain ⟨precedes, priced, unfinished⟩ := chronicle.before_last before
        exact stale (ignored_later order.sound admissible.1.matching precedes priced unfinished fresh)
      · rw [List.mem_singleton] at here
        exact stale (here ▸ fresh)
    change deliverAll (deliver order d) rest = order
    rw [deliver_stale refused]
    exact ih admissible.2 known.2

end Converge

/-- Delivering a history in any order, with any repetition and over either channel, ends
where delivering its last snapshot alone does. -/
theorem deliveries_converge (order : OwnedOrder) (earlier : List AlpacaPaperOrder)
    (last : AlpacaPaperOrder) (chronicle : Chronicle (earlier ++ [last])) (ds : List Delivery)
    (admissible : ∀ d ∈ ds, Admissible order.intent d)
    (known : ∀ d ∈ ds, d.snapshot ∈ earlier ++ [last])
    (complete : ∀ s ∈ earlier ++ [last], ∃ d ∈ ds, d.snapshot = s) (only : Delivery)
    (onlyAdmissible : Admissible order.intent only) (onlyLast : only.snapshot = last) :
    (deliverAll order ds).progress = (deliverAll order [only]).progress := by
  have alone : ∀ d ∈ [only], Admissible order.intent d := by simpa using onlyAdmissible
  have aloneKnown : ∀ d ∈ [only], d.snapshot ∈ earlier ++ [last] := by simp [onlyLast]
  by_cases fresh : ignored order.broker order.status last = .ok false
  · rw [deliverAll_open chronicle fresh admissible known (complete last (by simp)),
      deliverAll_open chronicle fresh alone aloneKnown ⟨only, by simp, onlyLast⟩]
  · rw [deliverAll_closed chronicle fresh admissible known,
      deliverAll_closed chronicle fresh alone aloneKnown]

theorem twoFills_chronicle : Chronicle ([partialFill] ++ [completeFill]) where
  ordered := by
    simp only [List.singleton_append, List.pairwise_cons, List.mem_singleton, forall_eq,
      List.not_mem_nil, false_implies, implies_true, List.Pairwise.nil, and_self, and_true]
    exact ⟨⟨1, 2, rfl, rfl, by decide⟩, by decide +kernel, by decide +kernel⟩
  priced := by simp [partialFill, completeFill, snapshotAt]
  unfinished := by simp [partialFill, snapshotAt, BrokerStatus.final]

theorem rest_admissible {s : AlpacaPaperOrder} (either : s = partialFill ∨ s = completeFill) :
    Admissible boughtIntent (.rest s 5) := by
  rcases either with rfl | rfl <;>
    exact ⟨by decide +kernel, ⟨0, rfl, by decide, fun _ => ⟨5, rfl, by decide, by decide⟩⟩, trivial⟩

/-- The last snapshot first, then the stale one, then the last again. -/
theorem deliveries_converge_late :
    (deliverAll { intent := boughtIntent, updatedAt := 0, sound := by simp }
      [.rest completeFill 5, .rest partialFill 5, .rest completeFill 5]).progress =
    (deliverAll { intent := boughtIntent, updatedAt := 0, sound := by simp }
      [.rest completeFill 5]).progress :=
  deliveries_converge _ [partialFill] completeFill twoFills_chronicle _
    (by simp only [List.forall_mem_cons, List.not_mem_nil, false_implies, implies_true, and_true]
        exact ⟨rest_admissible (.inr rfl), rest_admissible (.inl rfl), rest_admissible (.inr rfl)⟩)
    (by simp [Delivery.snapshot]) (by simp [Delivery.snapshot]) _ (rest_admissible (.inr rfl)) rfl

end TradeAgent.Scalp
