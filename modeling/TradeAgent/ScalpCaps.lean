import TradeAgent.ScalpClosedCycles
import TradeAgent.ScalpCohorts

/-! The caps of the paper experiments hold over whole runs. A cohort that counts its cycles counts
every one of the day, and where all cycles are closed it counts every one that has an entry or may
still get one; what it then reserves is one cycle more. -/
namespace TradeAgent.Scalp.Experiment

namespace Runtime

section Caps

variable (s : Runtime)

/-- The cycles of a cohort that were created on a day. -/
def submittedOn (c : Cohort) (on : ℤ) : ℕ :=
  s.tally fun cycle => s.belongs c cycle && decide (date cycle.createdAt = on)

def filledCyclesOn (c : Cohort) (on : ℤ) : ℕ :=
  s.tally fun cycle => s.belongs c cycle &&
    (decide (date cycle.createdAt = on) && decide (0 < cycle.columns.entryQuantity))

/-- Those of them that have an entry or may still get one. -/
def fillableOn (c : Cohort) (on : ℤ) : ℕ :=
  s.tally fun cycle => s.belongs c cycle && (decide (date cycle.createdAt = on) && cycle.mayFill)

/-- No cycle but this one is open. -/
def Alone (cycleId : String) : Prop := ∀ other cycle, s.engine.cycles.get? other = some cycle →
  cycle.state.closed = false → other = cycleId

end Caps

/-- The call under way: what it reserves is for its own cycle, and nothing else is open. -/
structure Submitting (setup : Setup) (s : Runtime) (submission : Submission) : Prop where
  busy : ∃ t, s.engine.job = .task t
  before : submission.now < (setup.policy submission.cohort).authorizationCutoff
  reserving : ∀ r, s.engine.job = .task (.reserving r) →
    r.intent.cycleId = submission.cycleId ∧ s.Alone submission.cycleId

structure Sound (setup : Setup) (s : Runtime) : Prop where
  steady : s.engine.Steady
  labelled : ∀ cycleId c, s.labels.get? cycleId = some c → (s.engine.cycles.get? cycleId).isSome
  before : ∀ cycleId c cycle, s.labels.get? cycleId = some c → s.engine.cycles.get? cycleId = some cycle →
    cycle.createdAt < (setup.policy c).authorizationCutoff
  submitted : ∀ c on, s.submittedOn c on ≤ (setup.policy c).dailySubmittedCap
  fillable : ∀ c on, c.classification ≠ .executionAcceptanceTest →
    s.fillableOn c on ≤ (setup.policy c).dailyFilledCycleCap
  submission : ∀ submission, s.submission = some submission → s.Submitting setup submission

variable {setup : Setup} {s s' : Runtime}

section Tallies

theorem Sound.named (sound : s.Sound setup) {cycleId : String} {cycle : OwnedCycle}
    (stored : s.engine.cycles.get? cycleId = some cycle) : cycle.cycleId = cycleId :=
  (sound.steady.sound.cycles cycleId cycle stored).named

/-- A tally is monotone in its test, on the stored cycles. -/
theorem tally_mono {test test' : OwnedCycle → Bool}
    (weaker : ∀ cycleId cycle, s.engine.cycles.get? cycleId = some cycle → test cycle → test' cycle) :
    s.tally test ≤ s.tally test' :=
  Dict.countP_le fun key cycle stored passes => ⟨cycle, stored, weaker key cycle stored passes⟩

theorem filledCyclesOn_le (c : Cohort) (on : ℤ) : s.filledCyclesOn c on ≤ s.fillableOn c on := by
  refine tally_mono fun _ cycle _ passes => ?_
  simp only [Bool.and_eq_true, decide_eq_true_eq] at passes ⊢
  exact ⟨passes.1, passes.2.1, by simp [OwnedCycle.mayFill, passes.2.2]⟩

theorem dayStart_le {at_ now : Instant} (same : date at_ = date now) : dayStart now ≤ at_ := by
  unfold dayStart
  rw [← same]
  exact Int.ediv_mul_le at_ (by decide)

theorem closed_of_inactive (inactive : s.active = false) {cycleId : String} {cycle : OwnedCycle}
    (stored : s.engine.cycles.get? cycleId = some cycle) : cycle.state.closed := by
  have closed := List.any_eq_false.mp inactive cycle (Dict.mem_values.mpr ⟨cycleId, stored⟩)
  simpa using closed

/-- With every cycle closed, only one that has an entry may fill. -/
theorem filled_of_mayFill (inactive : s.active = false) {cycleId : String} {cycle : OwnedCycle}
    (stored : s.engine.cycles.get? cycleId = some cycle) (may : cycle.mayFill) :
    0 < cycle.columns.entryQuantity := by
  simpa [OwnedCycle.mayFill, closed_of_inactive inactive stored] using may

theorem submittedOn_le_counts (c : Cohort) (now : Instant) :
    s.submittedOn c (date now) ≤ (s.counts c now).submitted := by
  refine tally_mono fun _ cycle _ passes => ?_
  simp only [Bool.and_eq_true, decide_eq_true_eq] at passes ⊢
  exact ⟨passes.1, dayStart_le passes.2⟩

theorem fillableOn_le_counts (inactive : s.active = false) (c : Cohort) (now : Instant) :
    s.fillableOn c (date now) ≤ (s.counts c now).filled := by
  refine tally_mono fun _ cycle stored passes => ?_
  simp only [Bool.and_eq_true, decide_eq_true_eq] at passes ⊢
  exact ⟨⟨passes.1, dayStart_le passes.2.1⟩, filled_of_mayFill inactive stored passes.2.2⟩

theorem Sound.before_cutoff (sound : s.Sound setup) {c : Cohort} {cycleId : String} {cycle : OwnedCycle}
    (stored : s.engine.cycles.get? cycleId = some cycle) (own : s.belongs c cycle) :
    cycle.createdAt < (setup.policy c).authorizationCutoff := by
  rw [belongs, decide_eq_true_eq, sound.named stored] at own
  exact sound.before cycleId c cycle own stored

/-- The probes' own cutoff leaves none of their cycles out. -/
theorem Sound.submittedOn_le_probeCounts (sound : s.Sound setup) (c : Cohort) (now : Instant) :
    s.submittedOn c (date now) ≤ (s.probeCounts (setup.policy c) c now).submitted := by
  refine tally_mono fun _ cycle stored passes => ?_
  simp only [Bool.and_eq_true, decide_eq_true_eq] at passes ⊢
  exact ⟨⟨passes.1, sound.before_cutoff stored passes.1⟩, dayStart_le passes.2⟩

theorem Sound.fillableOn_le_probeCounts (sound : s.Sound setup) (inactive : s.active = false) (c : Cohort)
    (now : Instant) : s.fillableOn c (date now) ≤ (s.probeCounts (setup.policy c) c now).filled := by
  refine tally_mono fun _ cycle stored passes => ?_
  simp only [Bool.and_eq_true, decide_eq_true_eq] at passes ⊢
  exact ⟨⟨⟨passes.1, sound.before_cutoff stored passes.1⟩, dayStart_le passes.2.1⟩,
    filled_of_mayFill inactive stored passes.2.2⟩

end Tallies

section Kept

/-- What a step that stores no cycle of a cohort keeps. -/
structure Kept (s s' : Runtime) : Prop where
  labels : s'.labels = s.labels
  present : ∀ cycleId, (s.engine.cycles.get? cycleId).isSome → (s'.engine.cycles.get? cycleId).isSome
  continues : ∀ cycleId c cycle', s.labels.get? cycleId = some c →
    s'.engine.cycles.get? cycleId = some cycle' →
    ∃ cycle, s.engine.cycles.get? cycleId = some cycle ∧ cycle.Continues cycle'

theorem Kept.rows (labels : s'.labels = s.labels) (cycles : s'.engine.cycles = s.engine.cycles) :
    s.Kept s' where
  labels := labels
  present _ := by rw [cycles]; exact id
  continues _ _ cycle' _ stored := ⟨cycle', cycles ▸ stored, .refl cycle'⟩

theorem Kept.trans {u : Runtime} (first : s.Kept s') (later : s'.Kept u) : s.Kept u where
  labels := later.labels.trans first.labels
  present cycleId := later.present cycleId ∘ first.present cycleId
  continues cycleId c cycle' label stored := by
    obtain ⟨middle, present, after⟩ := later.continues cycleId c cycle' (first.labels ▸ label) stored
    obtain ⟨cycle, found, before⟩ := first.continues cycleId c middle label present
    exact ⟨cycle, found, after.cycleId.trans before.cycleId, after.createdAt.trans before.createdAt,
      before.mayFill ∘ after.mayFill⟩

/-- A tally of a cohort's cycles does not grow where no test begins to hold of one. -/
theorem Kept.tally_le (kept : s.Kept s') (steady : s'.engine.Steady) (c : Cohort)
    {test : OwnedCycle → Bool} (under : ∀ {cycle cycle' : OwnedCycle}, cycle.Continues cycle' →
      test cycle' → test cycle) :
    (s'.tally fun cycle => s'.belongs c cycle && test cycle) ≤
      s.tally fun cycle => s.belongs c cycle && test cycle := by
  refine Dict.countP_le fun cycleId cycle' stored passes => ?_
  rw [Bool.and_eq_true, belongs, decide_eq_true_eq, kept.labels] at passes
  have named := (steady.sound.cycles cycleId cycle' stored).named
  obtain ⟨cycle, found, continues⟩ := kept.continues cycleId c cycle' (named ▸ passes.1) stored
  refine ⟨cycle, found, ?_⟩
  rw [Bool.and_eq_true, belongs, decide_eq_true_eq, ← continues.cycleId]
  exact ⟨passes.1, under continues passes.2⟩

theorem Sound.kept (sound : s.Sound setup) (kept : s.Kept s') (steady : s'.engine.Steady)
    (submission : ∀ submission, s'.submission = some submission → s'.Submitting setup submission) :
    s'.Sound setup where
  steady := steady
  labelled cycleId c label := kept.present cycleId (sound.labelled cycleId c (kept.labels ▸ label))
  before cycleId c cycle' label stored := by
    obtain ⟨cycle, found, continues⟩ := kept.continues cycleId c cycle' (kept.labels ▸ label) stored
    rw [continues.createdAt]
    exact sound.before cycleId c cycle (kept.labels ▸ label) found
  submitted c on := (kept.tally_le steady c fun continues passes => by
    rwa [continues.createdAt] at passes).trans (sound.submitted c on)
  fillable c on other := (kept.tally_le steady c fun continues passes => by
    rw [Bool.and_eq_true, continues.createdAt] at passes
    rw [Bool.and_eq_true]
    exact ⟨passes.1, continues.mayFill passes.2⟩).trans (sound.fillable c on other)
  submission := submission

end Kept

section Moves

theorem settled_engine (s : Runtime) : s.settled.engine = s.engine ∧ s.settled.labels = s.labels := by
  unfold settled
  split <;> exact ⟨rfl, rfl⟩

/-- A submission that is still under way when the call is not over. -/
theorem settled_submission {submission : Submission} (underWay : s.settled.submission = some submission) :
    s.submission = some submission ∧ s.engine.job ≠ .idle := by
  unfold settled at underWay
  split at underWay
  next => cases underWay
  next busy => exact ⟨underWay, busy⟩

theorem admitted_steady {m m' : Move} (steady : s.engine.Steady) (admitted : s.admitted m = some m') :
    (s.engine.step m').Steady := by
  cases m with
  | enter r =>
    rw [Runtime.admitted] at admitted
    split at admitted
    next opened =>
      cases admitted
      cases stored : s.engine.cycles.get? r.intent.cycleId with
      | none => simp [stored] at opened
      | some cycle => exact steady.enter stored (by simpa [stored] using opened)
    next => cases admitted
  | _ =>
    cases admitted
    exact steady.step fun _ other => by cases other

/-- A submission goes on until its call is over. -/
theorem Submitting.step {submission : Submission} (submitting : s.Submitting setup submission) (m : Move)
    (busy : (s.engine.step m).job ≠ .idle) :
    Submitting setup { s with engine := s.engine.step m } submission where
  busy := by
    obtain ⟨t, held⟩ := submitting.busy
    rcases Engine.step_task held m with idle | ⟨t', next, -⟩
    · exact absurd idle busy
    · exact ⟨t', next⟩
  before := submitting.before
  reserving r reserving := by
    obtain ⟨t, held⟩ := submitting.busy
    rcases Engine.step_task held m with idle | ⟨t', next, same | other⟩
    · exact absurd idle busy
    · rw [next, same] at reserving
      rw [← held] at reserving
      obtain ⟨own, alone⟩ := submitting.reserving r reserving
      refine ⟨own, fun other cycle stored => alone other cycle ?_⟩
      rw [← Engine.step_cycles_reserving reserving m]
      exact stored
    · rw [next] at reserving
      exact absurd (Job.task.inj reserving) (other r)

theorem Sound.move (sound : s.Sound setup) (m : Move) : (s.move m).Sound setup ∧ s.Kept (s.move m) := by
  unfold Runtime.move
  split
  next m' admitted =>
    have steady := admitted_steady sound.steady admitted
    have recycles := sound.steady.sound.step_recycles sound.steady.closed m'
    obtain ⟨engine, labels⟩ := settled_engine { s with engine := s.engine.step m' }
    have kept : s.Kept (settled { s with engine := s.engine.step m' }) := by
      constructor
      case labels => exact labels
      case present => rw [engine]; exact recycles.kept
      case continues =>
        intro cycleId c cycle' label stored
        rw [engine] at stored
        rcases recycles.continues cycleId cycle' stored with old | absent
        · exact old
        · have present := sound.labelled cycleId c label
          rw [absent] at present
          cases present
    refine ⟨sound.kept kept (by rw [engine]; exact steady) fun submission underWay => ?_, kept⟩
    obtain ⟨before, busy⟩ := settled_submission underWay
    have submitting := (sound.submission submission before).step m' busy
    unfold settled
    split
    next idle => exact absurd idle busy
    next => exact submitting
  next => exact ⟨sound, .rows rfl rfl⟩

theorem Sound.moves (sound : s.Sound setup) (ms : List Move) :
    (s.moves ms).Sound setup ∧ s.Kept (s.moves ms) := by
  induction ms generalizing s with
  | nil => exact ⟨sound, .rows rfl rfl⟩
  | cons m rest ih =>
    obtain ⟨moved, kept⟩ := sound.move m
    obtain ⟨done, later⟩ := ih moved
    exact ⟨done, kept.trans later⟩

end Moves

section Entries

/-- What a cohort has made sure of where it reserves an entry. -/
structure Enters (setup : Setup) (s : Runtime) (c : Cohort) (v : Visit) (symbol : String) (r : Reservation) :
    Prop where
  idle : s.engine.job = .idle
  buy : r.intent.side = .buy
  own : r.intent.cycleId = setup.cycleId c v.now symbol
  unknown : s.engine.cycles.get? (setup.cycleId c v.now symbol) = none
  inactive : s.active = false
  before : v.now < (setup.policy c).authorizationCutoff
  submitted : s.submittedOn c (date v.now) < (setup.policy c).dailySubmittedCap
  fillable : c.classification ≠ .executionAcceptanceTest →
    s.fillableOn c (date v.now) < (setup.policy c).dailyFilledCycleCap

variable {c : Cohort} {v : Visit} {symbol : String} {r : Reservation}

theorem Enters.engine (enters : s.Enters setup c v symbol r) : (s.enter setup c v symbol r).engine =
    { s.engine with
      cycles := s.engine.cycles.set (setup.cycleId c v.now symbol)
        (newCycle (setup.cycleId c v.now symbol) symbol v.now)
      job := .task (.reserving r) } := by
  simp [enter, Engine.step, enters.idle, enters.buy, Dict.setDefault_of_absent enters.unknown]

theorem Enters.steady (enters : s.Enters setup c v symbol r) (steady : s.engine.Steady) :
    (s.enter setup c v symbol r).engine.Steady := by
  have opened : (s.engine.step (.openCycle (setup.cycleId c v.now symbol) symbol v.now)).cycles.get?
      r.intent.cycleId = some (newCycle (setup.cycleId c v.now symbol) symbol v.now) := by
    simp [Engine.step, enters.idle, Dict.setDefault_of_absent enters.unknown, enters.own]
  have first : (s.engine.step (.openCycle (setup.cycleId c v.now symbol) symbol v.now)).Steady :=
    steady.step fun _ other => by cases other
  exact first.enter opened rfl

/-- A stored cycle is not the new one, and its label is what it was. -/
theorem Enters.label (enters : s.Enters setup c v symbol r) {cycleId : String}
    (stored : (s.engine.cycles.get? cycleId).isSome) :
    (s.enter setup c v symbol r).labels.get? cycleId = s.labels.get? cycleId := by
  have apart : setup.cycleId c v.now symbol ≠ cycleId := by
    rintro rfl
    rw [enters.unknown] at stored
    cases stored
  simp [enter, apart]

/-- A tally of a cohort's cycles grows by the new one at most. -/
theorem Enters.tally_eq (enters : s.Enters setup c v symbol r) (sound : s.Sound setup) (c' : Cohort)
    (test : OwnedCycle → Bool) :
    ((s.enter setup c v symbol r).tally fun cycle =>
        (s.enter setup c v symbol r).belongs c' cycle && test cycle) =
      (s.tally fun cycle => s.belongs c' cycle && test cycle) +
        if c = c' ∧ test (newCycle (setup.cycleId c v.now symbol) symbol v.now) then 1 else 0 := by
  unfold tally
  rw [enters.engine, Dict.values_set_absent enters.unknown, List.countP_append]
  congr 1
  · refine List.countP_congr fun cycle member => ?_
    obtain ⟨cycleId, stored⟩ := Dict.mem_values.mp member
    have label : (s.enter setup c v symbol r).labels.get? cycle.cycleId = s.labels.get? cycle.cycleId :=
      enters.label (by rw [sound.named stored, stored]; rfl)
    rw [belongs, belongs, label]
  · have label : (s.enter setup c v symbol r).labels.get? (setup.cycleId c v.now symbol) = some c := by
      simp [enter]
    rw [List.countP_singleton]
    exact if_congr (by simp [belongs, newCycle, label]) rfl rfl

theorem Enters.submittedOn_eq (enters : s.Enters setup c v symbol r) (sound : s.Sound setup) (c' : Cohort)
    (on : ℤ) : (s.enter setup c v symbol r).submittedOn c' on =
      s.submittedOn c' on + if c = c' ∧ date v.now = on then 1 else 0 := by
  rw [submittedOn, enters.tally_eq sound c' fun cycle => decide (date cycle.createdAt = on)]
  exact congrArg _ (if_congr (and_congr_right fun _ => decide_eq_true_iff) rfl rfl)

theorem Enters.fillableOn_eq (enters : s.Enters setup c v symbol r) (sound : s.Sound setup) (c' : Cohort)
    (on : ℤ) : (s.enter setup c v symbol r).fillableOn c' on =
      s.fillableOn c' on + if c = c' ∧ date v.now = on then 1 else 0 := by
  rw [fillableOn, enters.tally_eq sound c' fun cycle => decide (date cycle.createdAt = on) && cycle.mayFill]
  refine congrArg _ (if_congr (and_congr_right fun _ => ?_) rfl rfl)
  rw [Bool.and_eq_true, decide_eq_true_iff]
  exact and_iff_left rfl

/-- The new cycle is the only one that is open. -/
theorem Enters.alone (enters : s.Enters setup c v symbol r) :
    (s.enter setup c v symbol r).Alone (setup.cycleId c v.now symbol) := by
  intro other cycle stored opened
  rw [enters.engine, Dict.get?_set] at stored
  split at stored
  next same => exact same.symm
  next =>
    rw [closed_of_inactive enters.inactive stored] at opened
    cases opened

theorem Enters.sound (enters : s.Enters setup c v symbol r) (sound : s.Sound setup) :
    (s.enter setup c v symbol r).Sound setup where
  steady := enters.steady sound.steady
  labelled cycleId c' label := by
    rw [enters.engine, Dict.get?_set]
    split
    next => rfl
    next apart =>
      refine sound.labelled cycleId c' ?_
      simpa [enter, apart] using label
  before cycleId c' cycle label stored := by
    rw [enters.engine, Dict.get?_set] at stored
    split at stored
    next same =>
      cases stored
      obtain rfl : c = c' := by simpa [enter, same] using label
      exact enters.before
    next =>
      rw [enters.label (by rw [stored]; rfl)] at label
      exact sound.before cycleId c' cycle label stored
  submitted c' on := by
    rw [enters.submittedOn_eq sound]
    split
    next own =>
      obtain ⟨rfl, rfl⟩ := own
      exact enters.submitted
    next => exact sound.submitted c' on
  fillable c' on other := by
    rw [enters.fillableOn_eq sound]
    split
    next own =>
      obtain ⟨rfl, rfl⟩ := own
      exact enters.fillable other
    next => exact sound.fillable c' on other
  submission submission underWay := by
    cases underWay
    refine ⟨⟨.reserving r, ?_⟩, enters.before, fun r' reserving => ?_⟩
    · rw [enters.engine]
    · rw [enters.engine] at reserving
      cases reserving
      exact ⟨enters.own, enters.alone⟩

/-- A submission that is taken has found everything in order. -/
theorem submit_enters {quote : ScalpQuote} {next : Runtime} (taken : s.submit setup c v quote = .ok (some next))
    (idle : s.engine.job = .idle)
    (submitted : s.submittedOn c (date v.now) < (setup.policy c).dailySubmittedCap)
    (fillable : s.active = false → c.classification ≠ .executionAcceptanceTest →
      s.fillableOn c (date v.now) < (setup.policy c).dailyFilledCycleCap) :
    ∃ r, next = s.enter setup c v quote.symbol r ∧ s.Enters setup c v quote.symbol r := by
  unfold submit at taken
  dsimp only at taken
  split at taken
  next =>
    split at taken
    all_goals cases taken
  next asset _ =>
    split at taken
    next => cases taken
    next => cases taken
    next order sized =>
      cases taken
      obtain ⟨accepted, -, inactive, unknown, -⟩ := submit_reserves sized
      rw [account, Bool.or_eq_false_iff] at unknown
      exact ⟨_, rfl, idle, rfl, rfl, by simpa using unknown.1, inactive, accepted.before, submitted,
        fillable inactive⟩

end Entries

section Steps

/-- All that a step of a runtime comes to: no new cycle of a cohort, or one as its last act. -/
inductive Stepped (setup : Setup) (s : Runtime) : Runtime → Prop
  | quiet {s' : Runtime} (sound : s'.Sound setup) (kept : s.Kept s') : Stepped setup s s'
  | entered {middle : Runtime} (sound : middle.Sound setup) (kept : s.Kept middle) {c : Cohort} {v : Visit}
      {symbol : String} {r : Reservation} (enters : middle.Enters setup c v symbol r) :
      Stepped setup s (middle.enter setup c v symbol r)

theorem Stepped.sound (stepped : Stepped setup s s') : s'.Sound setup := by
  cases stepped with
  | quiet sound => exact sound
  | entered sound _ enters => exact enters.sound sound

theorem Stepped.after {middle : Runtime} (stepped : Stepped setup middle s') (kept : s.Kept middle) :
    Stepped setup s s' := by
  cases stepped with
  | quiet sound later => exact .quiet sound (kept.trans later)
  | entered sound later enters => exact .entered sound (kept.trans later) enters

theorem Sound.stays (sound : s.Sound setup) : Stepped setup s s := .quiet sound (.rows rfl rfl)

/-- What the cohorts remember plays no part in the caps. -/
theorem Sound.remembering (sound : s.Sound setup) (slots : Cohort → Option ℤ)
    (evaluations : Cohort → Option Instant) :
    Sound setup { s with lastSlot := slots, lastScheduleEvaluationAt := evaluations } where
  steady := sound.steady
  labelled := sound.labelled
  before := sound.before
  submitted := sound.submitted
  fillable := sound.fillable
  submission submission underWay :=
    have submitting := sound.submission submission underWay
    ⟨submitting.busy, submitting.before, submitting.reserving⟩

theorem Sound.visitedAt (sound : s.Sound setup) (c : Cohort) (slot : ℤ) :
    (s.visitedAt c slot).Sound setup ∧ s.Kept (s.visitedAt c slot) :=
  ⟨sound.remembering _ _, .rows rfl rfl⟩

variable {c : Cohort} {v : Visit}

theorem Sound.submitted_stepped (sound : s.Sound setup) (idle : s.engine.job = .idle)
    (submitted : s.submittedOn c (date v.now) < (setup.policy c).dailySubmittedCap)
    (fillable : s.active = false → c.classification ≠ .executionAcceptanceTest →
      s.fillableOn c (date v.now) < (setup.policy c).dailyFilledCycleCap) (quote : ScalpQuote) :
    Stepped setup s (s.submitted setup c v quote) := by
  unfold Runtime.submitted
  split
  next next taken =>
    obtain ⟨r, rfl, enters⟩ := submit_enters taken idle submitted fillable
    exact .entered sound (.rows rfl rfl) enters
  next => exact sound.stays

theorem Sound.acceptanceStep (sound : s.Sound setup) (idle : s.engine.job = .idle) (cohortId : String)
    (v : Visit) : Stepped setup s (s.acceptanceStep setup cohortId v) := by
  unfold Runtime.acceptanceStep
  dsimp only
  split
  next => exact sound.stays
  next =>
    obtain ⟨visited, kept⟩ := sound.visitedAt ⟨.executionAcceptanceTest, cohortId⟩
      (scheduleSlot (setup.policy ⟨.executionAcceptanceTest, cohortId⟩).toPolicy v.now)
    refine Stepped.after ?_ kept
    split
    next => exact visited.stays
    next =>
      split
      next => exact visited.stays
      next =>
        split
        next => exact visited.stays
        next quote _ =>
          split
          next passes =>
            simp only [passed, acceptanceChecks, List.all_cons, Bool.and_eq_true, decide_eq_true_eq] at passes
            refine visited.submitted_stepped idle ?_ (fun _ other => absurd rfl other) quote
            exact (submittedOn_le_counts _ _).trans_lt passes.2.2.1
          next => exact visited.stays

theorem Sound.experimentalStep (sound : s.Sound setup) (idle : s.engine.job = .idle) (cohortId : String)
    (signals : List Candidate) (v : Visit) :
    Stepped setup s (s.experimentalStep setup cohortId signals v) := by
  unfold Runtime.experimentalStep
  dsimp only
  split
  next => exact sound.stays
  next =>
    obtain ⟨visited, kept⟩ := sound.visitedAt ⟨.experimentalSignalScalp, cohortId⟩
      (scheduleSlot (setup.policy ⟨.experimentalSignalScalp, cohortId⟩).toPolicy v.now)
    refine Stepped.after ?_ kept
    split
    next => exact visited.stays
    next quote _ =>
      split
      next passes =>
        simp only [passed, experimentalChecks, List.all_cons, Bool.and_eq_true, decide_eq_true_eq] at passes
        obtain ⟨-, -, submitted, filled, -⟩ := passes
        refine visited.submitted_stepped idle ?_ (fun inactive _ => ?_) quote
        · exact (submittedOn_le_counts _ _).trans_lt submitted
        · exact (fillableOn_le_counts inactive _ _).trans_lt filled
      next => exact visited.stays

theorem Sound.tryProbes (sound : s.Sound setup) (idle : s.engine.job = .idle)
    (submitted : s.submittedOn c (date v.now) < (setup.policy c).dailySubmittedCap)
    (fillable : s.active = false → c.classification ≠ .executionAcceptanceTest →
      s.fillableOn c (date v.now) < (setup.policy c).dailyFilledCycleCap) (symbols : List String) :
    Stepped setup s (s.tryProbes setup c v symbols) := by
  induction symbols with
  | nil => exact sound.stays
  | cons symbol rest ih =>
    rw [Runtime.tryProbes]
    split
    next => exact ih
    next quote _ =>
      split
      next next taken =>
        obtain ⟨r, rfl, enters⟩ := submit_enters taken idle submitted fillable
        exact .entered sound (.rows rfl rfl) enters
      next => exact ih
      next => exact sound.stays

theorem Sound.probeAfter (sound : s.Sound setup) (idle : s.engine.job = .idle) (due : Bool) :
    Stepped setup s (s.probeAfter setup c due v) := by
  have evaluated : ∀ {s' : Runtime}, s'.Sound setup → s'.engine.job = .idle → Stepped setup s'
      (if probeEligible (setup.policy c) (s'.probeCounts (setup.policy c) c v.now) due v.now then
        s'.tryProbes setup c v (probeSymbols (setup.policy c) (s'.probeCounts (setup.policy c) c v.now) v.quotes)
      else s') := by
    intro s' sound idle
    split
    next eligible =>
      simp only [probeEligible, Bool.and_eq_true, decide_eq_true_eq] at eligible
      obtain ⟨⟨⟨⟨-, submitted⟩, filled⟩, -⟩, -⟩ := eligible
      refine sound.tryProbes idle ?_ (fun inactive _ => ?_) _
      · exact (sound.submittedOn_le_probeCounts _ _).trans_lt submitted
      · exact (sound.fillableOn_le_probeCounts inactive _ _).trans_lt filled
    next => exact sound.stays
  unfold Runtime.probeAfter
  dsimp only
  cases due with
  | true =>
    have remembered := sound.remembering s.lastSlot
      (Function.update s.lastScheduleEvaluationAt c (some v.now))
    have stepped := evaluated remembered idle
    exact stepped.after (.rows rfl rfl)
  | false => exact evaluated sound idle

theorem Sound.probeStep (sound : s.Sound setup) (cohortId : String) (v : Visit) (reconciliation : List Move)
    (raises : Bool) : Stepped setup s (s.probeStep setup cohortId v reconciliation raises) := by
  unfold Runtime.probeStep
  dsimp only
  split
  next => exact sound.stays
  next =>
    obtain ⟨reconciled, kept⟩ := sound.moves (reconciliation.filter reconciles)
    refine Stepped.after ?_ kept
    split
    next =>
      obtain ⟨crashed, lost⟩ := reconciled.move .crash
      exact .quiet crashed lost
    next =>
      split
      next idle => exact reconciled.probeAfter idle _
      next => exact reconciled.stays

theorem Sound.restarted (sound : s.Sound setup) : Stepped setup s s.restarted := by
  have kept : s.Kept s.restarted := .rows rfl rfl
  have steady : (s.engine.step .crash).Steady := sound.steady.step fun _ => nofun
  exact .quiet (sound.kept kept steady fun _ => nofun) kept

theorem Sound.step (sound : s.Sound setup) (action : Action) : Stepped setup s (s.step setup action) := by
  unfold Runtime.step
  split
  next _ m =>
    obtain ⟨moved, kept⟩ := sound.move m
    exact .quiet moved kept
  next => exact sound.restarted
  next idle => exact sound.acceptanceStep idle _ _
  next idle => exact sound.experimentalStep idle _ _ _
  next => exact sound.probeStep _ _ _ _
  next => exact sound.stays

theorem Sound.initial (setup : Setup) (lease : Option Lease) : (initial lease).Sound setup where
  steady := .initial lease
  labelled _ _ label := nomatch label
  before _ _ _ label := nomatch label
  submitted _ _ := Nat.zero_le _
  fillable _ _ _ := Nat.zero_le _
  submission _ underWay := nomatch underWay

theorem Sound.run (sound : s.Sound setup) (actions : List Action) : (s.run setup actions).Sound setup := by
  induction actions generalizing s with
  | nil => exact sound
  | cons action rest ih => exact ih (sound.step action).sound

end Steps

section Reservations

/-- A step reserves an entry of a cohort: it stores the cycle, or an order of the call under way. -/
inductive Entered (s s' : Runtime) : Cohort → String → Instant → Prop
  | cycle {cycleId : String} {cycle : OwnedCycle} {c : Cohort} (absent : s.engine.cycles.get? cycleId = none)
      (stored : s'.engine.cycles.get? cycleId = some cycle) (labelled : s'.labels.get? cycleId = some c) :
      Entered s s' c cycleId cycle.createdAt
  | order {clientId : String} {row : OwnedOrder} {submission : Submission}
      (underWay : s.submission = some submission) (absent : s.engine.store.orders.get? clientId = none)
      (stored : s'.engine.store.orders.get? clientId = some row) :
      Entered s s' submission.cohort row.intent.cycleId row.updatedAt

/-- A cycle that a step stores is the one it entered. -/
theorem Stepped.entered_cycle (stepped : Stepped setup s s') (sound : s.Sound setup) {cycleId : String}
    {cycle : OwnedCycle} {c : Cohort} (absent : s.engine.cycles.get? cycleId = none)
    (stored : s'.engine.cycles.get? cycleId = some cycle) (labelled : s'.labels.get? cycleId = some c) :
    s'.Alone cycleId ∧ cycle.createdAt < (setup.policy c).authorizationCutoff := by
  have unlabelled : s.labels.get? cycleId = none := by
    cases label : s.labels.get? cycleId with
    | none => rfl
    | some c =>
      have present := sound.labelled cycleId c label
      rw [absent] at present
      cases present
  have after := stepped.sound.before cycleId c cycle labelled stored
  cases stepped with
  | quiet _ kept =>
    rw [kept.labels, unlabelled] at labelled
    cases labelled
  | @entered middle _ kept c' v symbol r enters =>
    refine ⟨?_, after⟩
    by_cases own : setup.cycleId c' v.now symbol = cycleId
    · exact own ▸ enters.alone
    · have label : (middle.enter setup c' v symbol r).labels.get? cycleId = middle.labels.get? cycleId := by
        simp [enter, own]
      rw [label, kept.labels, unlabelled] at labelled
      cases labelled

/-- What the call under way adds is reserved at the time of its step. -/
theorem admitted_adds {m m' : Move} {row : OwnedOrder} {submission : Submission}
    (admitted : s.admitted m = some m') (held : s.engine.adds m' = some row)
    (underWay : s.submission = some submission) : row.updatedAt = submission.now := by
  cases m with
  | act ownerId outside taken =>
    cases admitted
    unfold Engine.adds at held
    dsimp only at held
    split at held
    next t task =>
      cases t with
      | reserving r =>
        rw [task, underWay] at held
        cases held
        rfl
      | _ => cases held
    next => cases held
  | enter r =>
    rw [Runtime.admitted] at admitted
    split at admitted
    all_goals
      cases admitted
    cases held
  | _ =>
    cases admitted
    cases held

theorem Sound.entered_order (sound : s.Sound setup) (m : Move) {clientId : String} {row : OwnedOrder}
    {submission : Submission} (underWay : s.submission = some submission)
    (absent : s.engine.store.orders.get? clientId = none)
    (stored : (s.move m).engine.store.orders.get? clientId = some row) :
    (s.move m).Alone row.intent.cycleId ∧
      row.updatedAt < (setup.policy submission.cohort).authorizationCutoff := by
  obtain ⟨-, before, reserving⟩ := sound.submission submission underWay
  unfold Runtime.move at stored ⊢
  split at stored
  next m' admitted =>
    obtain ⟨engine, -⟩ := settled_engine { s with engine := s.engine.step m' }
    rw [engine] at stored
    have rewrites := sound.steady.sound.step_rewrites m'
    generalize orders : (s.engine.step m').store.orders = next at rewrites
    replace stored : next.get? clientId = some row := orders ▸ stored
    cases rewrites with
    | same =>
      rw [absent] at stored
      cases stored
    | changed present _ =>
      rw [Dict.get?_set] at stored
      split at stored
      next same =>
        rw [← same, present] at absent
        cases absent
      next =>
        rw [absent] at stored
        cases stored
    | @added added held _ =>
      rw [Dict.get?_set] at stored
      split at stored
      next =>
        cases stored
        obtain ⟨⟨r, job, intent⟩, cycles⟩ := Engine.adds_reserving held
        obtain ⟨own, alone⟩ := reserving r (Job.reserving_some job)
        constructor
        · rw [intent, own]
          intro other cycle present
          rw [engine] at present
          exact alone other cycle (cycles ▸ present)
        · rw [admitted_adds admitted held underWay]
          exact before
      next =>
        rw [absent] at stored
        cases stored
  next =>
    rw [absent] at stored
    cases stored

/-- Whatever reserves an entry, nothing else is open then, and the cutoff is still to come. -/
theorem Sound.entered (sound : s.Sound setup) {action : Action} {c : Cohort} {cycleId : String} {at_ : Instant}
    (entered : s.Entered (s.step setup action) c cycleId at_) :
    (s.step setup action).Alone cycleId ∧ at_ < (setup.policy c).authorizationCutoff := by
  cases entered with
  | cycle absent stored labelled => exact (sound.step action).entered_cycle sound absent stored labelled
  | order underWay absent stored =>
    obtain ⟨t, busy⟩ := (sound.submission _ underWay).busy
    cases action with
    | engine m => exact sound.entered_order m underWay absent stored
    | restart =>
      have kept : (s.step setup .restart).engine.store.orders = s.engine.store.orders := rfl
      rw [kept, absent] at stored
      cases stored
    | acceptance | experimental | probe =>
      simp only [Runtime.step, busy] at stored
      rw [absent] at stored
      cases stored

end Reservations

/-- Over every run, whatever is stepped, restarted, traded or heard of the orders: no cohort has more
cycles of a day than its submitted cap, and none but the acceptance cohorts more of them with an entry
than its filled-cycle cap; an entry is reserved before its policy's cutoff and while no other cycle is
open. -/
theorem run_capped (setup : Setup) (lease : Option Lease) (actions : List Action) :
    let s := (initial lease).run setup actions
    (∀ c on, s.submittedOn c on ≤ (setup.policy c).dailySubmittedCap) ∧
    (∀ c on, c.classification ≠ .executionAcceptanceTest →
      s.filledCyclesOn c on ≤ (setup.policy c).dailyFilledCycleCap) ∧
    ∀ action c cycleId at_, s.Entered (s.step setup action) c cycleId at_ →
      (s.step setup action).Alone cycleId ∧ at_ < (setup.policy c).authorizationCutoff := by
  have sound := (Sound.initial setup lease).run actions
  refine ⟨sound.submitted, fun c on other => ?_, fun action c cycleId at_ entered => sound.entered entered⟩
  exact (filledCyclesOn_le c on).trans (sound.fillable c on other)

/-- The acceptance policy of the source, with digests for one cycle and one order. -/
def acceptanceSetup : Setup where
  fees := defaultFees
  policy _ := { defaultPolicy with
    identity := "acceptance", decisionPrefix := "accept", dailySubmittedCap := 3, dailyFilledCycleCap := 1
    scheduleIntervalSeconds := 5, maxQuoteAge := second, entryTtlSeconds := 5, intervalPositive := by decide }
  uuid5 _ := "cycle"
  sha256 _ := "order"

theorem leastSize_pos : (0 : ℚ) < 1 / 10000 := by norm_num

theorem leastIncrement_pos : (0 : ℚ) < 1 / 1000000 := by norm_num

theorem cent_pos : (0 : ℚ) < 1 / 100 := by norm_num

def acceptanceVisit : Visit where
  now := second
  ownerId := "worker"
  quotes := .ofList [("BTC/USD", quoteAt 100 hundred_pos)]
  asset _ := some ⟨1 / 10000, 1 / 1000000, 1 / 100, leastSize_pos, leastIncrement_pos, cent_pos⟩
  modeledNetPnl _ := none
  knownElsewhere _ := false

/-- A step that submits, and the reservation of its entry. -/
example :
    let s := (initial (some ⟨"worker", 0⟩)).run acceptanceSetup
      [.acceptance "r5" acceptanceVisit, .engine (.act "worker" ⟨0, .nothing⟩ false)]
    s.submittedOn ⟨.executionAcceptanceTest, "r5"⟩ 0 = 1 ∧ s.engine.store.orders.keys = ["ta30x-order"] := by
  decide +kernel

end Runtime

end TradeAgent.Scalp.Experiment
