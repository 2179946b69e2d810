import TradeAgent.CausalGridRetention

/-! The grid's schedule over runs in which no call raises: every slot is evaluated once and
in order, labelled once it has settled, and no record the grid builds is refused. -/
namespace TradeAgent.Confirmation

/-- Slots whose time, put off by `delay`, the last advance has reached. -/
def dueBy (protocol : ConfirmationProtocol) (delay : ℤ) (lastAdvance : Option ℤ) : List ℕ :=
  (List.range slots).filter fun slot => lastAdvance.any fun now => slotNs protocol slot + delay ≤ now

/-- The clock of the last advance among the calls. -/
def lastAdvance (ops : List Op) : Option ℤ :=
  (ops.filterMap fun | .advance now => some now | _ => none).getLast?

theorem slotNs_mono (protocol : ConfirmationProtocol) {a b : ℕ} (le : a ≤ b) :
    slotNs protocol a ≤ slotNs protocol b := by
  simp only [slotNs, ns]
  omega

/-- What holds as long as no call raised. -/
structure Orderly (t : Trace) : Prop where
  reached : ∀ slot < slots,
    slot < t.grid.nextSlot ↔ ∃ now ∈ t.lastAdvance, slotNs t.grid.protocol slot ≤ now
  keys : t.evaluations.map key = (List.range t.grid.nextSlot).flatMap slotKeys
  times : ∀ e ∈ t.evaluations, e.atNs = slotNs t.grid.protocol e.slot
  queue : t.labels.map (fun l => l.1.evaluation) ++ t.grid.pending = t.evaluations
  matured : ∀ l ∈ t.labels, ∃ now ∈ t.lastAdvance, l.1.evaluation.atNs + 62 * ns ≤ now
  waiting : ∀ e ∈ t.grid.pending, ∀ now ∈ t.lastAdvance, now < e.atNs + 62 * ns
  clock : ∀ now ∈ t.lastAdvance, now ≤ t.grid.lastClock

theorem start_orderly (protocol : ConfirmationProtocol) : Orderly (start protocol) where
  reached := by simp [start, Grid.init]
  keys := rfl
  times := by simp [start]
  queue := rfl
  matured := by simp [start]
  waiting := by simp [start]
  clock := by simp [start]

/-- Evaluations whose keys run through the slots come in order of time. -/
theorem sorted_of_keys {protocol : ConfirmationProtocol} {es : List Evaluation} {count : ℕ}
    (keys : es.map key = (List.range count).flatMap slotKeys)
    (times : ∀ e ∈ es, e.atNs = slotNs protocol e.slot) :
    es.Pairwise fun a b => a.atNs ≤ b.atNs := by
  have slotsSorted : es.Pairwise fun a b => (key a).1 ≤ (key b).1 := by
    have inKeys : (es.map key).Pairwise fun a b => a.1 ≤ b.1 := by
      rw [keys]
      refine List.pairwise_flatMap.mpr ⟨fun slot _ => ?_, ?_⟩
      · simp [slotKeys, symbols]
      · refine List.pairwise_lt_range.imp fun {a b} less => ?_
        simp only [slotKeys, List.mem_map]
        rintro _ ⟨s, -, rfl⟩ _ ⟨s', -, rfl⟩
        exact less.le
    rwa [List.pairwise_map] at inKeys
  refine slotsSorted.imp_of_mem fun {a b} memberA memberB le => ?_
  rw [times a memberA, times b memberB]
  exact slotNs_mono _ le

theorem Orderly.receive {t : Trace} (orderly : Orderly t) {item : Item}
    {outcome : Grid × Except GridError Unit} (received : Received t.grid item outcome) :
    Orderly (t.receive item outcome) := by
  cases received with
  | regressed => exact ⟨orderly.reached, orderly.keys, orderly.times, orderly.queue,
      orderly.matured, orderly.waiting, orderly.clock⟩
  | stored kept cache result forwards =>
    exact ⟨orderly.reached, orderly.keys, orderly.times, orderly.queue, orderly.matured,
      orderly.waiting, fun now last => (orderly.clock now last).trans forwards⟩

theorem Orderly.sweep {t t' : Trace} (orderly : Orderly t) {now : ℤ} {next : Grid}
    {es : List Evaluation} {ls : List Label} (swept : Swept t.grid now next es ls)
    (grid : t'.grid = next) (evaluations : t'.evaluations = t.evaluations ++ es)
    (labels : t'.labels = t.labels ++ ls.map (·, t.sighting)) (last : t'.lastAdvance = some now) :
    Orderly t' := by
  have keys : (t.evaluations ++ es).map key = (List.range next.nextSlot).flatMap slotKeys := by
    obtain ⟨more, split⟩ := Nat.exists_eq_add_of_le swept.progress.1
    have ran : List.range next.nextSlot =
        List.range t.grid.nextSlot ++ List.range' t.grid.nextSlot (next.nextSlot - t.grid.nextSlot) := by
      rw [split, Nat.add_sub_cancel_left, List.range_eq_range', List.range_eq_range',
        ← List.range'_append_1]
      simp
    rw [List.map_append, orderly.keys, swept.keys, ran, List.flatMap_append]
  have times : ∀ e ∈ t.evaluations ++ es, e.atNs = slotNs t.grid.protocol e.slot := by
    intro e member
    rcases List.mem_append.mp member with before | fresh
    · exact orderly.times e before
    · exact (swept.evaluated e fresh).atNs
  have queue : (t.labels ++ ls.map (·, t.sighting)).map (fun l => l.1.evaluation) ++ next.pending =
      t.evaluations ++ es := by
    have swept_queue := swept.queue
    rw [List.map_append, List.map_map, List.append_assoc]
    change _ ++ (ls.map Label.evaluation ++ next.pending) = _
    rw [swept_queue, ← List.append_assoc, orderly.queue]
  constructor
  · intro slot inside
    rw [grid, last, swept.protocol]
    simp only [Option.mem_def, Option.some.injEq, exists_eq_left']
    constructor
    · intro less
      by_cases old : slot < t.grid.nextSlot
      · obtain ⟨previous, here, early⟩ := (orderly.reached slot inside).mp old
        exact early.trans ((orderly.clock previous here).trans swept.forwards)
      · exact swept.early slot (not_lt.mp old) less
    · intro early
      by_contra beyond
      have stop := swept.stopped (by omega)
      have mono := slotNs_mono t.grid.protocol (not_lt.mp beyond)
      omega
  · rw [evaluations, grid]; exact keys
  · rw [evaluations, grid, swept.protocol]; exact times
  · rw [labels, evaluations, grid]; exact queue
  · intro l member
    rw [labels] at member
    refine ⟨now, last, ?_⟩
    rcases List.mem_append.mp member with before | fresh
    · obtain ⟨previous, here, matured⟩ := orderly.matured l before
      exact matured.trans ((orderly.clock previous here).trans swept.forwards)
    · obtain ⟨r, here, rfl⟩ := List.mem_map.mp fresh
      have resolved := (swept.settled r here).resolvedNs
      exact resolved ▸ r.matured.2
  · intro e member now' here
    rw [last] at here
    cases here
    rw [grid] at member
    have sorted := sorted_of_keys keys times
    rw [← queue] at sorted
    have tail := (List.pairwise_append.mp sorted).2.1
    have waiting := swept.waiting
    cases queued : next.pending with
    | nil => rw [queued] at member; cases member
    | cons head rest =>
      rw [queued] at member tail waiting
      have first := waiting head rfl
      rcases List.mem_cons.mp member with rfl | later
      · exact first
      · have after := List.rel_of_pairwise_cons tail later
        omega
  · intro now' here
    rw [last] at here
    cases here
    rw [grid, swept.lastClock]

theorem step_orderly {t : Trace} (faithful : Faithful t) (orderly : Orderly t) {op : Op}
    (sound : (step t op).raised = []) : Orderly (step t op) := by
  cases op with
  | accept q => exact orderly.receive (accept_received t.grid q)
  | invalidate i => exact orderly.receive (invalidate_received t.grid i)
  | advance now =>
    have outcome := advance_outcome faithful.owned faithful.inside now
    simp only [step] at sound ⊢
    generalize advance t.grid now = result at outcome sound ⊢
    generalize madeBy t.grid now = es at outcome sound ⊢
    cases outcome with
    | returned next es ls swept => exact orderly.sweep swept rfl rfl rfl rfl
    | _ => simp [failure] at sound

theorem step_raised (t : Trace) (op : Op) : ∃ more, (step t op).raised = t.raised ++ more := by
  cases op <;> exact ⟨_, rfl⟩

theorem foldl_raised (t : Trace) (ops : List Op) :
    ∃ more, (ops.foldl step t).raised = t.raised ++ more := by
  induction ops generalizing t with
  | nil => exact ⟨[], by simp⟩
  | cons op rest ih =>
    obtain ⟨first, here⟩ := step_raised t op
    obtain ⟨later, all⟩ := ih (step t op)
    exact ⟨first ++ later, by rw [List.foldl_cons, all, here, List.append_assoc]⟩

theorem run_orderly {protocol : ConfirmationProtocol} {ops : List Op}
    (sound : (run protocol ops).raised = []) : Orderly (run protocol ops) := by
  suffices keeps : ∀ t, Faithful t → Orderly t → (ops.foldl step t).raised = [] →
      Orderly (ops.foldl step t) from
    keeps _ (start_faithful protocol) (start_orderly protocol) sound
  clear sound
  induction ops with
  | nil => exact fun _ _ orderly _ => orderly
  | cons op rest ih =>
    intro t faithful orderly sound
    obtain ⟨more, later⟩ := foldl_raised (step t op) rest
    rw [List.foldl_cons, later] at sound
    have here : (step t op).raised = [] := (List.append_eq_nil_iff.mp sound).1
    exact ih _ (step_faithful faithful op) (step_orderly faithful orderly here)
      (by rw [later]; exact sound)

theorem run_lastAdvance (protocol : ConfirmationProtocol) (ops : List Op) :
    (run protocol ops).lastAdvance = lastAdvance ops := by
  suffices keeps : ∀ t, (ops.foldl step t).lastAdvance = (lastAdvance ops).or t.lastAdvance by
    rw [run, keeps]
    cases lastAdvance ops <;> rfl
  induction ops with
  | nil => intro t; simp [lastAdvance]
  | cons op rest ih =>
    intro t
    rw [List.foldl_cons, ih]
    cases op with
    | accept q => rfl
    | invalidate i => rfl
    | advance now =>
      simp only [lastAdvance, List.filterMap_cons, List.getLast?_cons, step]
      cases (rest.filterMap _).getLast? <;> rfl

/-- A record's validator never refuses what the grid builds. -/
theorem step_validators {t : Trace} (faithful : Faithful t) (op : Op) :
    ∃ more, (step t op).raised = t.raised ++ more ∧ ∀ e ∈ more, e.validator = false := by
  cases op with
  | accept q =>
    refine ⟨_, rfl, ?_⟩
    have received := accept_received t.grid q
    generalize accept t.grid q = outcome at received
    cases received with
    | regressed => simp [failure, GridError.validator]
    | stored kept cache result forwards retains sound =>
      rcases sound with rfl | rfl <;> simp [failure, GridError.validator]
  | invalidate i =>
    refine ⟨_, rfl, ?_⟩
    have received := invalidate_received t.grid i
    generalize invalidate t.grid i = outcome at received
    cases received with
    | regressed => simp [failure, GridError.validator]
    | stored kept cache result forwards retains sound =>
      rcases sound with rfl | rfl <;> simp [failure, GridError.validator]
  | advance now =>
    refine ⟨_, rfl, ?_⟩
    have outcome := advance_outcome faithful.owned faithful.inside now
    generalize advance t.grid now = result at outcome
    generalize madeBy t.grid now = es at outcome
    cases outcome <;> simp [failure, GridError.validator]

theorem keys_filter {es : List Evaluation} {order : List ℕ} (keys : es.map key = order.flatMap slotKeys)
    (p : ℕ → Bool) : (es.filter fun e => p e.slot).map key = (order.filter p).flatMap slotKeys := by
  have through : (es.filter fun e => p e.slot).map key = (es.map key).filter fun k => p k.1 := by
    rw [List.filter_map]
    rfl
  rw [through, keys, List.filter_flatMap]
  clear keys through
  induction order with
  | nil => rfl
  | cons slot rest ih =>
    rw [List.flatMap_cons, ih, List.filter_cons]
    cases here : p slot <;> simp [slotKeys, symbols, here]

theorem range_filter_lt {n m : ℕ} (le : m ≤ n) : (List.range n).filter (· < m) = List.range m := by
  obtain ⟨k, rfl⟩ := Nat.exists_eq_add_of_le le
  rw [List.range_add, List.filter_append, List.filter_eq_self.mpr (by simp),
    List.filter_eq_nil_iff.mpr (by simp), List.append_nil]

namespace Orderly

variable {t : Trace} (orderly : Orderly t) (inside : t.grid.nextSlot ≤ slots)
include orderly inside

/-- The slots evaluated are those the last advance has reached. -/
theorem evaluated_slots : dueBy t.grid.protocol 0 t.lastAdvance = List.range t.grid.nextSlot := by
  rw [← range_filter_lt inside, dueBy]
  refine List.filter_congr fun slot member => ?_
  have reached := orderly.reached slot (List.mem_range.mp member)
  simp only [Option.mem_def] at reached
  rw [Bool.eq_iff_iff, decide_eq_true_iff, reached]
  simp [Option.any_eq_true]

theorem settled_slots : (List.range t.grid.nextSlot).filter (fun slot =>
      t.lastAdvance.any fun now => slotNs t.grid.protocol slot + 62 * ns ≤ now) =
    dueBy t.grid.protocol (62 * ns) t.lastAdvance := by
  rw [← orderly.evaluated_slots inside, dueBy, dueBy, List.filter_filter]
  refine List.filter_congr fun slot _ => ?_
  cases t.lastAdvance with
  | none => rfl
  | some now =>
    rw [Option.any_some, Option.any_some, Bool.eq_iff_iff, Bool.and_eq_true, decide_eq_true_iff,
      decide_eq_true_iff]
    simp only [ns]
    omega

omit inside in
/-- Labelled evaluations are the settled ones, pending ones the rest. -/
theorem labelled_evaluations : t.labels.map (fun l => l.1.evaluation) = t.evaluations.filter fun e =>
    t.lastAdvance.any fun now => slotNs t.grid.protocol e.slot + 62 * ns ≤ now := by
  have times := orderly.times
  rw [← orderly.queue] at times ⊢
  rw [List.filter_append, List.filter_eq_self.mpr, List.filter_eq_nil_iff.mpr, List.append_nil]
  · intro e member
    rw [← times e (List.mem_append_right _ member)]
    have waiting := orderly.waiting e member
    cases last : t.lastAdvance with
    | none => simp
    | some now => simpa using waiting now last
  · intro e member
    rw [← times e (List.mem_append_left _ member)]
    obtain ⟨l, here, rfl⟩ := List.mem_map.mp member
    obtain ⟨now, last, matured⟩ := orderly.matured l here
    rw [Option.mem_def] at last
    simpa [last] using matured

theorem labelled_keys : t.labels.map (fun l => key l.1.evaluation) =
    (dueBy t.grid.protocol (62 * ns) t.lastAdvance).flatMap slotKeys := by
  have labelled := orderly.labelled_evaluations
  rw [← orderly.settled_slots inside, ← keys_filter orderly.keys, ← labelled, List.map_map]
  rfl

/-- Pending evaluations of one symbol are at most seven: their slots lie within the
settlement span behind the last advance. -/
theorem pending_bound (symbol : Symbol) :
    (t.grid.pending.filter fun e => e.symbol = symbol).length ≤ 7 := by
  have keys := orderly.keys
  have times := orderly.times
  have member : ∀ e ∈ t.grid.pending, e ∈ t.evaluations := fun e waits => by
    rw [← orderly.queue]; exact List.mem_append_right _ waits
  have distinct : (t.grid.pending.filter fun e => e.symbol = symbol).Pairwise
      fun a b => a.slot ≠ b.slot := by
    have all : (t.evaluations.map key).Pairwise fun a b => a ≠ b := by
      rw [keys]
      refine List.pairwise_flatMap.mpr ⟨fun slot _ => ?_, ?_⟩
      · simp [slotKeys, symbols]
      · refine List.pairwise_lt_range.imp fun {a b} less => ?_
        simp only [slotKeys, List.mem_map]
        rintro _ ⟨s, -, rfl⟩ _ ⟨s', -, rfl⟩ same
        cases same
        exact less.ne rfl
    rw [List.pairwise_map, ← orderly.queue] at all
    have pending := ((List.pairwise_append.mp all).2.1).filter fun e => e.symbol = symbol
    refine pending.imp_of_mem fun {a b} memberA memberB apart same => apart ?_
    have symbolA := (List.mem_filter.mp memberA).2
    have symbolB := (List.mem_filter.mp memberB).2
    simp only [decide_eq_true_eq] at symbolA symbolB
    simp [key, same, symbolA, symbolB]
  have close : ((t.grid.pending.filter fun e => e.symbol = symbol).map Evaluation.slot) ⊆
      List.range' (t.grid.nextSlot - 7) 7 := by
    intro slot here
    obtain ⟨e, kept, rfl⟩ := List.mem_map.mp here
    have waits := (List.mem_filter.mp kept).1
    have evaluated : e.slot < t.grid.nextSlot := by
      have named : key e ∈ t.evaluations.map key := List.mem_map_of_mem (member e waits)
      rw [keys, List.mem_flatMap] at named
      obtain ⟨slot, low, same⟩ := named
      obtain ⟨s, -, equal⟩ := List.mem_map.mp same
      have slot_eq : slot = e.slot := congrArg Prod.fst equal
      exact slot_eq ▸ List.mem_range.mp low
    obtain ⟨now, last, reached⟩ := (orderly.reached (t.grid.nextSlot - 1) (by omega)).mp (by omega)
    have waiting := orderly.waiting e waits now last
    rw [times e (member e waits)] at waiting
    rw [List.mem_range'_1]
    simp only [slotNs, ns] at waiting reached
    omega
  have nodup : ((t.grid.pending.filter fun e => e.symbol = symbol).map Evaluation.slot).Nodup :=
    List.pairwise_map.mpr distinct
  simpa using (nodup.subperm close).length_le

end Orderly

/-- Over every run in which no call raised: the slots reached are evaluated once each and in
order, the settled ones are labelled once each, inputs are causal, at most seven slots of a
symbol are pending, and whatever the next call raises is no validator's doing. -/
theorem run_exactly_once (protocol : ConfirmationProtocol) (ops : List Op)
    (sound : (run protocol ops).raised = []) :
    let t := run protocol ops
    t.evaluations.map key = (dueBy protocol 0 (lastAdvance ops)).flatMap slotKeys ∧
    t.labels.map (fun l => key l.1.evaluation) =
      (dueBy protocol (62 * ns) (lastAdvance ops)).flatMap slotKeys ∧
    (∀ e ∈ t.evaluations, e.atNs = slotNs protocol e.slot ∧
      ∀ q ∈ e.entry, q.symbol = e.symbol ∧ q.acceptedNs ≤ e.atNs) ∧
    (∀ l ∈ t.labels, l.1.evaluation ∈ t.evaluations ∧
      l.1.evaluation.atNs + 62 * ns ≤ l.1.resolvedNs ∧
      ∀ q ∈ l.1.future, q.receivedNs ≤ l.1.evaluation.atNs + 60 * ns ∧
        q.acceptedNs ≤ l.1.evaluation.atNs + 62 * ns) ∧
    (∀ symbol, (t.grid.pending.filter fun e => e.symbol = symbol).length ≤ 7) ∧
    ∀ op, ∀ e ∈ (step t op).raised, e.validator = false := by
  have faithful := run_faithful protocol ops
  have orderly := run_orderly sound
  have evaluated := orderly.evaluated_slots faithful.inside
  have labelled := orderly.labelled_keys faithful.inside
  have times := orderly.times
  rw [run_protocol] at evaluated labelled times
  rw [run_lastAdvance] at evaluated labelled
  refine ⟨by rw [orderly.keys, evaluated], labelled, fun e member => ⟨times e member, fun q found =>
    (e.decision q found).2⟩, fun l member => ⟨?_, ?_, l.1.horizon⟩,
    orderly.pending_bound faithful.inside, fun op e member => ?_⟩
  · rw [← orderly.queue]
    exact List.mem_append_left _ (List.mem_map_of_mem member)
  · exact l.1.matured.2
  · obtain ⟨more, raised, validators⟩ := step_validators faithful op
    rw [raised, sound] at member
    exact validators e member

/-- A run with a quote, a decision on time and a label two seconds after its horizon. -/
def settledRun : List Op :=
  let start := slotNs friday 0
  [.accept (par 0 (start - 1)), .advance start, .accept (par 1 (start + 60 * ns - 1)),
    .advance (start + 62 * ns)]

theorem run_exactly_once_settled :
    (run friday settledRun).labels.map (fun l => key l.1.evaluation) =
      (dueBy friday (62 * ns) (lastAdvance settledRun)).flatMap slotKeys :=
  (run_exactly_once friday settledRun (by decide +kernel)).2.1

end TradeAgent.Confirmation
