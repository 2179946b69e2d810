import TradeAgent.CausalGrid

/-! What pruning costs a grid. Every selection from the ring is compared with the one from
the complete history, over any calls and any schedule of `advance`. -/
namespace TradeAgent.Confirmation

open Retention (Retains)

/-- The selection over the complete history of a symbol, nothing pruned. -/
def complete (log : List Item) (symbol : Symbol) (target known : ℤ) (decision : Bool) : Option Quote :=
  select (seen symbol log) target known decision

/-- A selection from the ring against the one from the complete history: nothing else is
ever found, and nothing accepted in the last seventy seconds is missed. -/
structure Recalls (clock : ℤ) (found whole : Option Quote) : Prop where
  sound : found = whole ∨ found = none
  retained : ∀ q, whole = some q → clock - 70 * ns ≤ q.acceptedNs → found = some q

theorem Recalls.of_retains {clock : ℤ} {log kept : List Item} {target known : ℤ}
    {decision : Bool} (retains : Retains Item.acceptedNs (clock - 70 * ns) log kept) :
    Recalls clock (select kept target known decision) (select log target known decision) where
  sound := by
    cases found : select kept target known decision with
    | none => exact .inr rfl
    | some q => exact .inl (retains.latest_sound found).symm
  retained q whole recent := by
    refine retains.latest_complete whole fun item taken => ?_
    obtain ⟨rfl, -⟩ := judge_take taken
    exact recent

/-- An evaluation as made, against what its call could have known. -/
structure Recorded (protocol : ConfirmationProtocol) (m : Evaluation × Sighting) : Prop where
  atNs : m.1.atNs = slotNs protocol m.1.slot
  entry : m.1.missedScheduledSlot = false →
    Recalls m.2.clock m.1.entry (complete m.2.log m.1.symbol m.1.atNs m.1.atNs true)

/-- A label as returned, against what its call could have known. -/
structure Measured (l : Label × Sighting) : Prop where
  future : Recalls l.2.clock l.1.future
    (complete l.2.log l.1.evaluation.symbol (l.1.evaluation.atNs + 60 * ns)
      (l.1.evaluation.atNs + 62 * ns) false)

/-- What holds after any calls, raising ones included. -/
structure Faithful (t : Trace) : Prop where
  retains : ∀ symbol,
    Retains Item.acceptedNs (t.grid.lastClock - 70 * ns) (seen symbol t.log) (t.grid.history symbol)
  inside : t.grid.nextSlot ≤ slots
  recorded : ∀ m ∈ t.made, Recorded t.grid.protocol m ∧ m.2.log <+: t.log
  pending : ∀ e ∈ t.grid.pending, ∃ m ∈ t.made, m.1 = e
  measured : ∀ l ∈ t.labels, Measured l ∧ l.2.log <+: t.log ∧ ∃ m ∈ t.made, m.1 = l.1.evaluation

theorem start_faithful (protocol : ConfirmationProtocol) : Faithful (start protocol) where
  retains symbol := .whole _ _
  inside := Nat.zero_le _
  recorded := by simp [start]
  pending := by simp [start, Grid.init]
  measured := by simp [start]

theorem Faithful.owned {t : Trace} (faithful : Faithful t) : Owned t.grid := by
  intro symbol q member
  have relevant := (List.mem_filter.mp ((faithful.retains symbol).subset member)).2
  simpa [concerns] using relevant

theorem Faithful.receive {t : Trace} (faithful : Faithful t) {item : Item}
    {outcome : Grid × Except GridError Unit} (received : Received t.grid item outcome) :
    Faithful (t.receive item outcome) := by
  cases received with
  | regressed backwards =>
    have unchanged : (t.receive item (t.grid, .error .clockRegression)).log = t.log := if_pos backwards
    exact ⟨by rw [unchanged]; exact faithful.retains, faithful.inside,
      by rw [unchanged]; exact faithful.recorded, faithful.pending,
      by rw [unchanged]; exact faithful.measured⟩
  | stored kept cache result forwards retains sound =>
    have grown : (t.receive item ({ t.grid with
        lastClock := item.acceptedNs, history := kept, maximumCache := cache }, result)).log =
        t.log ++ [item] := if_neg (not_lt.mpr forwards)
    have longer : t.log <+: t.log ++ [item] := List.prefix_append _ _
    constructor
    · intro symbol
      rw [grown, seen, List.filter_append]
      apply retains
      exact ((faithful.retains symbol).later (by simpa using forwards)).push _
    · exact faithful.inside
    · intro m member
      rw [grown]
      exact ⟨(faithful.recorded m member).1, (faithful.recorded m member).2.trans longer⟩
    · exact faithful.pending
    · intro l member
      rw [grown]
      obtain ⟨measured, known, made⟩ := faithful.measured l member
      exact ⟨measured, known.trans longer, made⟩

theorem Faithful.recorded_evaluated {t : Trace} (faithful : Faithful t) {now : ℤ} {e : Evaluation}
    (evaluated : Evaluated t.grid now e) : Recorded t.grid.protocol (e, t.sighting) where
  atNs := evaluated.atNs
  entry shown := by
    rw [evaluated.entry shown]
    exact .of_retains (faithful.retains e.symbol)

theorem Faithful.measured_settled {t : Trace} (faithful : Faithful t) {now : ℤ} {l : Label}
    (settled : Settled t.grid now l) : Measured (l, t.sighting) where
  future := by
    rw [settled.future]
    exact .of_retains (faithful.retains l.evaluation.symbol)

theorem Faithful.sweep {t t' : Trace} (faithful : Faithful t) {now : ℤ} {next : Grid}
    {es : List Evaluation} {ls : List Label} (swept : Swept t.grid now next es ls)
    (grid : t'.grid = next) (log : t'.log = t.log) (made : t'.made = t.made ++ es.map (·, t.sighting))
    (labels : ∀ l ∈ t'.labels, l ∈ t.labels ∨ ∃ r ∈ ls, l = (r, t.sighting)) : Faithful t' := by
  have queued : ∀ e ∈ t.grid.pending ++ es, ∃ m ∈ t'.made, m.1 = e := by
    intro e member
    rw [made]
    rcases List.mem_append.mp member with before | fresh
    · obtain ⟨m, kept, same⟩ := faithful.pending e before
      exact ⟨m, List.mem_append_left _ kept, same⟩
    · exact ⟨(e, t.sighting), List.mem_append_right _ (List.mem_map_of_mem fresh), rfl⟩
  constructor
  · intro symbol
    rw [grid, log, swept.lastClock]
    exact swept.history symbol _ ((faithful.retains symbol).later (by simpa using swept.forwards))
  · rw [grid]; exact swept.progress.2
  · intro m member
    rw [made] at member
    rw [grid, log, swept.protocol]
    rcases List.mem_append.mp member with before | fresh
    · exact faithful.recorded m before
    · obtain ⟨e, here, rfl⟩ := List.mem_map.mp fresh
      exact ⟨faithful.recorded_evaluated (swept.evaluated e here), List.prefix_rfl⟩
  · intro e member
    rw [grid] at member
    apply queued
    rw [← swept.queue]
    exact List.mem_append_right _ member
  · intro l member
    rw [log]
    rcases labels l member with before | ⟨r, fresh, rfl⟩
    · obtain ⟨measured, known, m, kept, same⟩ := faithful.measured l before
      exact ⟨measured, known, m, by rw [made]; exact List.mem_append_left _ kept, same⟩
    · refine ⟨faithful.measured_settled (swept.settled r fresh), List.prefix_rfl, ?_⟩
      apply queued
      rw [← swept.queue]
      exact List.mem_append_left _ (List.mem_map_of_mem fresh)

theorem step_faithful {t : Trace} (faithful : Faithful t) (op : Op) : Faithful (step t op) := by
  cases op with
  | accept q => exact faithful.receive (accept_received t.grid q)
  | invalidate i => exact faithful.receive (invalidate_received t.grid i)
  | advance now =>
    have outcome := advance_outcome faithful.owned faithful.inside now
    simp only [step]
    generalize advance t.grid now = result at outcome
    generalize madeBy t.grid now = es at outcome
    cases outcome with
    | regressed backwards =>
      exact ⟨faithful.retains, faithful.inside, by simpa using faithful.recorded,
        by simpa using faithful.pending, by simpa using faithful.measured⟩
    | overdue forwards =>
      exact ⟨fun symbol => (faithful.retains symbol).later (by simpa using forwards),
        faithful.inside, by simpa using faithful.recorded, by simpa using faithful.pending,
        by simpa using faithful.measured⟩
    | overfull next es ls swept =>
      exact faithful.sweep swept rfl rfl rfl fun l member => .inl (by simpa using member)
    | returned next es ls swept =>
      refine faithful.sweep swept rfl rfl rfl fun l member => ?_
      rcases List.mem_append.mp member with before | fresh
      · exact .inl before
      · obtain ⟨r, here, same⟩ := List.mem_map.mp fresh
        exact .inr ⟨r, here, same.symm⟩

theorem run_faithful (protocol : ConfirmationProtocol) (ops : List Op) :
    Faithful (run protocol ops) := by
  suffices keeps : ∀ t, Faithful t → Faithful (ops.foldl step t) from
    keeps _ (start_faithful protocol)
  induction ops with
  | nil => exact fun _ faithful => faithful
  | cons op rest ih => exact fun t faithful => ih _ (step_faithful faithful op)

theorem step_protocol {t : Trace} (faithful : Faithful t) (op : Op) :
    (step t op).grid.protocol = t.grid.protocol := by
  cases op with
  | accept q =>
    have received := accept_received t.grid q
    simp only [step, Trace.receive]
    generalize accept t.grid q = outcome at received
    cases received <;> rfl
  | invalidate i =>
    have received := invalidate_received t.grid i
    simp only [step, Trace.receive]
    generalize invalidate t.grid i = outcome at received
    cases received <;> rfl
  | advance now =>
    have outcome := advance_outcome faithful.owned faithful.inside now
    simp only [step]
    generalize advance t.grid now = result at outcome
    generalize madeBy t.grid now = es at outcome
    cases outcome with
    | regressed => rfl
    | overdue => rfl
    | overfull next es ls swept => exact swept.protocol
    | returned next es ls swept => exact swept.protocol

theorem run_protocol (protocol : ConfirmationProtocol) (ops : List Op) :
    (run protocol ops).grid.protocol = protocol := by
  suffices keeps : ∀ t, Faithful t → (ops.foldl step t).grid.protocol = t.grid.protocol from
    keeps _ (start_faithful protocol)
  induction ops with
  | nil => exact fun _ _ => rfl
  | cons op rest ih =>
    exact fun t faithful => (ih _ (step_faithful faithful op)).trans (step_protocol faithful op)

/-- The items of a run's calls, in order. -/
def items (ops : List Op) : List Item := ops.filterMap fun
  | .accept q => some (.quote q)
  | .invalidate i => some (.invalidation i)
  | .advance _ => none

/-- Calls whose clocks never run backwards, the freeze clock before the first. -/
def Chronological (protocol : ConfirmationProtocol) (ops : List Op) : Prop :=
  (datetimeNs protocol.frozenAt :: ops.map Op.atNs).Pairwise (· ≤ ·)

theorem step_lastClock (t : Trace) (op : Op) (forwards : t.grid.lastClock ≤ op.atNs)
    (faithful : Faithful t) : (step t op).grid.lastClock = op.atNs := by
  cases op with
  | accept q =>
    have received := accept_received t.grid q
    simp only [step, Trace.receive]
    generalize accept t.grid q = outcome at received
    cases received with
    | regressed backwards => exact absurd backwards (not_lt.mpr forwards)
    | stored => rfl
  | invalidate i =>
    have received := invalidate_received t.grid i
    simp only [step, Trace.receive]
    generalize invalidate t.grid i = outcome at received
    cases received with
    | regressed backwards => exact absurd backwards (not_lt.mpr forwards)
    | stored => rfl
  | advance now =>
    have outcome := advance_outcome faithful.owned faithful.inside now
    simp only [step]
    generalize advance t.grid now = result at outcome
    generalize madeBy t.grid now = es at outcome
    cases outcome with
    | regressed backwards => exact absurd backwards (not_lt.mpr forwards)
    | overdue => rfl
    | overfull next es ls swept => exact swept.lastClock
    | returned next es ls swept => exact swept.lastClock

theorem step_log (t : Trace) (op : Op) (forwards : t.grid.lastClock ≤ op.atNs) :
    (step t op).log = t.log ++ items [op] := by
  cases op with
  | accept q => exact if_neg (not_lt.mpr forwards)
  | invalidate i => exact if_neg (not_lt.mpr forwards)
  | advance now => simp [step, items]

/-- Without a clock regression every item is logged. -/
theorem run_log {protocol : ConfirmationProtocol} {ops : List Op}
    (chronological : Chronological protocol ops) : (run protocol ops).log = items ops := by
  suffices keeps : ∀ t, Faithful t → (t.grid.lastClock :: ops.map Op.atNs).Pairwise (· ≤ ·) →
      (ops.foldl step t).log = t.log ++ items ops from
    (keeps _ (start_faithful protocol) chronological).trans (by simp [start])
  clear chronological
  induction ops with
  | nil => intro t _ _; simp [items]
  | cons op rest ih =>
    intro t faithful ordered
    rw [List.map_cons, List.pairwise_cons] at ordered
    have forwards := ordered.1 _ List.mem_cons_self
    rw [List.foldl_cons, ih _ (step_faithful faithful op)
      (by rw [step_lastClock t op forwards faithful]; exact ordered.2), step_log t op forwards,
      List.append_assoc]
    simp only [items, ← List.filterMap_append, List.singleton_append]

/-- A call that had received everything accepted by `known`, with the selected quote of the
whole run still in the ring. -/
structure Timely (ops : List Op) (s : Sighting) (symbol : Symbol) (target known : ℤ)
    (decision : Bool) : Prop where
  arrived : ∀ item ∈ (items ops).drop s.log.length, known < item.acceptedNs
  retained : ∀ q ∈ complete (items ops) symbol target known decision,
    s.clock - 70 * ns ≤ q.acceptedNs

theorem Recalls.timely {ops : List Op} {s : Sighting} {symbol : Symbol} {target known : ℤ}
    {decision : Bool} {found : Option Quote} (timely : Timely ops s symbol target known decision)
    (prior : s.log <+: items ops)
    (recalls : Recalls s.clock found (complete s.log symbol target known decision)) :
    found = complete (items ops) symbol target known decision := by
  obtain ⟨later, whole⟩ := prior
  have same : complete (items ops) symbol target known decision =
      complete s.log symbol target known decision := by
    have arrived := timely.arrived
    rw [← whole, List.drop_left] at arrived
    rw [← whole, complete, complete, seen, List.filter_append, select, List.reverse_append]
    apply Retention.latest_skip
    intro item member
    rw [List.mem_reverse, List.mem_filter] at member
    exact if_pos (arrived item member.1)
  rw [same]
  rcases recalls.sound with equal | missing
  · exact equal
  · cases expected : complete s.log symbol target known decision with
    | none => exact missing
    | some q => exact recalls.retained q expected (timely.retained q (same.trans expected))

/-- A label both of whose calls, the one that made its evaluation and the one that
resolved it, were timely. -/
structure Prompt (protocol : ConfirmationProtocol) (ops : List Op) (l : Label × Sighting) : Prop where
  decided : ∃ m ∈ (run protocol ops).made, m.1 = l.1.evaluation ∧
    Timely ops m.2 m.1.symbol m.1.atNs m.1.atNs true
  settled : Timely ops l.2 l.1.evaluation.symbol (l.1.evaluation.atNs + 60 * ns)
    (l.1.evaluation.atNs + 62 * ns) false

/-- A prompt label depends on the history of the whole run only. -/
theorem Prompt.quotes {protocol : ConfirmationProtocol} {ops : List Op} {l : Label × Sighting}
    (prompt : Prompt protocol ops l) (chronological : Chronological protocol ops)
    (member : l ∈ (run protocol ops).labels) (shown : l.1.evaluation.missedScheduledSlot = false) :
    let e := l.1.evaluation
    e.atNs = slotNs protocol e.slot ∧
    e.entry = complete (items ops) e.symbol e.atNs e.atNs true ∧
    l.1.future = complete (items ops) e.symbol (e.atNs + 60 * ns) (e.atNs + 62 * ns) false := by
  have faithful := run_faithful protocol ops
  obtain ⟨m, made, same, timely⟩ := prompt.decided
  obtain ⟨recorded, priorMade⟩ := faithful.recorded m made
  obtain ⟨measured, priorLabel, -⟩ := faithful.measured l member
  rw [run_log chronological] at priorMade priorLabel
  rw [← same] at shown
  refine ⟨?_, ?_, measured.future.timely prompt.settled priorLabel⟩
  · rw [← same, recorded.atNs, run_protocol]
  · rw [← same]
    exact (recorded.entry shown).timely timely priorMade

/-- Labels against the complete history: a future or an entry is the complete selection or
missing, and is missed only past the ring's seventy seconds. Two schedules over one history
agree on every label that is prompt under both. -/
theorem run_labels_recall (protocol : ConfirmationProtocol) (ops : List Op) :
    (∀ l ∈ (run protocol ops).labels, l.1.evaluation.missedScheduledSlot = false →
      let e := l.1.evaluation
      Recalls l.2.clock l.1.future
        (complete l.2.log e.symbol (e.atNs + 60 * ns) (e.atNs + 62 * ns) false) ∧
      (∃ m ∈ (run protocol ops).made, m.1 = e ∧
        Recalls m.2.clock e.entry (complete m.2.log e.symbol e.atNs e.atNs true)) ∧
      l.1.eligibility = measure e.entry l.1.future e.atNs ∧
      l.1.longGrossBps = longGross l.1.eligibility e.entry l.1.future) ∧
    ∀ others, Chronological protocol ops → Chronological protocol others →
      items ops = items others →
      ∀ l ∈ (run protocol ops).labels, ∀ l' ∈ (run protocol others).labels,
      key l.1.evaluation = key l'.1.evaluation →
      l.1.evaluation.missedScheduledSlot = false → l'.1.evaluation.missedScheduledSlot = false →
      Prompt protocol ops l → Prompt protocol others l' →
      l.1.future = l'.1.future ∧ l.1.eligibility = l'.1.eligibility ∧
      l.1.longGrossBps = l'.1.longGrossBps := by
  refine ⟨fun l member shown => ?_, fun others forwards forwards' same l member l' member' keys
    shown shown' prompt prompt' => ?_⟩
  · have faithful := run_faithful protocol ops
    obtain ⟨measured, -, m, made, same⟩ := faithful.measured l member
    refine ⟨measured.future, ⟨m, made, same, ?_⟩, l.1.primary, l.1.scalar⟩
    rw [← same] at shown ⊢
    exact (faithful.recorded m made).1.entry shown
  · obtain ⟨time, entry, future⟩ := prompt.quotes forwards member shown
    obtain ⟨time', entry', future'⟩ := prompt'.quotes forwards' member' shown'
    simp only [key, Prod.mk.injEq] at keys
    obtain ⟨slot, symbol⟩ := keys
    have atNs : l.1.evaluation.atNs = l'.1.evaluation.atNs := by rw [time, time', slot]
    have entries : l.1.evaluation.entry = l'.1.evaluation.entry := by
      rw [entry, entry', same, symbol, atNs]
    have futures : l.1.future = l'.1.future := by rw [future, future', same, symbol, atNs]
    have eligible : l.1.eligibility = l'.1.eligibility := by
      rw [l.1.primary, l'.1.primary, entries, futures, atNs]
    exact ⟨futures, eligible, by rw [l.1.scalar, l'.1.scalar, eligible, entries, futures]⟩

/-- A window from a Friday midnight, frozen a day before. -/
def friday : ConfirmationProtocol where
  frozenAt := 20454 * day
  start := 20455 * day
  frozenBefore := by decide
  aligned := by decide
  mixedDays := ⟨1, by decide, 0, by decide, by decide⟩

/-- A sound quote of one coin at 100 against 101, stamped with one clock throughout. -/
def par (frame : ℕ) (atNs : ℤ) : Quote where
  bid := .ofInt 100
  ask := .ofInt 101
  bidSize := .ofInt 1
  askSize := .ofInt 1
  providerBookUpdateNs := atNs
  bidPriceLastChangedNs := atNs
  askPriceLastChangedNs := atNs
  bidSizeLastChangedNs := atNs
  askSizeLastChangedNs := atNs
  checksumExpected := 0
  checksumComputed := 0
  bidPositive := by norm_num [Numeral.value, Numeral.scale, Numeral.ofInt]
  askPositive := by norm_num [Numeral.value, Numeral.scale, Numeral.ofInt]
  bidSizePositive := by norm_num [Numeral.value, Numeral.scale, Numeral.ofInt]
  askSizePositive := by norm_num [Numeral.value, Numeral.scale, Numeral.ofInt]
  symbol := .btc
  frameId := frame + 1
  connectionId := "one"
  epoch := 0
  receivedNs := atNs
  receivedMonotonicNs := atNs
  acceptedNs := atNs
  framePositive := Nat.succ_pos _
  causal := ⟨le_refl _, le_refl _⟩
  uncrossed := by norm_num [Numeral.value, Numeral.scale, Numeral.ofInt]
  changesCausal := ⟨le_refl _, le_refl _, le_refl _, le_refl _⟩

/-- The first slot is decided on time, then nothing advances for 140 seconds while quotes
keep arriving. -/
def stalled : List Op :=
  let start := slotNs friday 0
  [.accept (par 0 (start - 1)), .advance start, .accept (par 1 (start + 60 * ns - 1)),
    .accept (par 2 (start + 140 * ns)), .advance (start + 140 * ns)]

/-- The fresh horizon quote of the first slot has left the ring when the stall ends. -/
theorem stalled_label_forgets : ¬ ∀ protocol ops, Chronological protocol ops →
    ∀ l ∈ (run protocol ops).labels, l.1.evaluation.missedScheduledSlot = false →
      l.1.future = complete l.2.log l.1.evaluation.symbol (l.1.evaluation.atNs + 60 * ns)
        (l.1.evaluation.atNs + 62 * ns) false := by
  have forgotten : ∃ l ∈ (run friday stalled).labels, l.1.evaluation.missedScheduledSlot = false ∧
      l.1.future ≠ complete l.2.log l.1.evaluation.symbol (l.1.evaluation.atNs + 60 * ns)
        (l.1.evaluation.atNs + 62 * ns) false := by
    decide +kernel
  intro claim
  obtain ⟨l, member, shown, differs⟩ := forgotten
  exact differs (claim friday stalled (by unfold Chronological; decide) l member shown)

end TradeAgent.Confirmation
