import TradeAgent.PaperWorker

/-! What a process has done before it releases the switch and before it delivers an event, whatever the others do in
between. -/
namespace TradeAgent.PaperWorker

open Shadow (StreamEvent)

/-- Whose entry it is. -/
def Entry.worker : Entry → Option ℕ
  | .wrote writer _ => writer
  | .reconciled worker _ | .authorized worker | .refreshed worker _ | .delivered worker _ _ _ => some worker

def Entry.own (e : Entry) : Option (ℕ × Entry) := e.worker.map fun worker => (worker, e)

def Entry.written : Entry → Option (Option ℕ × String)
  | .wrote writer value => some (writer, value)
  | _ => none

/-- A process sets the switch. -/
def Entry.fences (worker : ℕ) : Entry → Bool
  | .wrote writer value => writer = some worker && value = "active"
  | _ => false

/-- What a process did last. -/
def lastOwn (worker : ℕ) (log : List Entry) : Option Entry := EventLog.latest Entry.own log worker

/-- What it wrote last. -/
def ownWrite (worker : ℕ) (log : List Entry) : Option String := EventLog.latest Entry.written log (some worker)

/-- A process releases the switch only after it has set it, and since then found the broker reconciled and been
authorized. -/
structure Vetted (worker : ℕ) (before : List Entry) : Prop where
  fenced : .wrote (some worker) "active" ∈ before
  reconciled : .reconciled worker true ∈ History.since (Entry.fences worker) before
  authorized : .authorized worker ∈ History.since (Entry.fences worker) before

/-- A process that delivers an event may, has released the switch and not fenced since, and owned the lease when it
looked last, which was after the event it delivered before. -/
structure Guarded (launch : Launch) (worker : ℕ) (event : StreamEvent) (canEnter : Bool) (at_ : Instant)
    (before : List Entry) : Prop where
  may : Deliverable launch event canEnter at_
  released : ownWrite worker before = some "inactive"
  leased : lastOwn worker before = some (.refreshed worker true)

def Fits (launches : ℕ → Launch) (before : List Entry) (entry : Entry) : Prop :=
  (∀ worker, entry = .wrote (some worker) "inactive" → Vetted worker before) ∧
    ∀ worker event canEnter at_, entry = .delivered worker event canEnter at_ →
      Guarded (launches worker) worker event canEnter at_ before

/-- What a process has done where it stands. -/
def Prepared (worker : ℕ) (log : List Entry) : Stage → Prop
  | .greeting | .greeted | .reconciling => .wrote (some worker) "active" ∈ log
  | .authorizing => .wrote (some worker) "active" ∈ log ∧
      .reconciled worker true ∈ History.since (Entry.fences worker) log
  | .releasing => Vetted worker log
  | .beating | .delivering _ => ownWrite worker log = some "inactive"
  | .beaten | .waiting => ownWrite worker log = some "inactive" ∧ lastOwn worker log = some (.refreshed worker true)
  | _ => True

theorem Turned.worker {launch : Launch} {worker : ℕ} {stage stage' : Stage} {entries : List Entry}
    (h : Turned launch worker stage entries stage') : ∀ entry ∈ entries, entry.worker = some worker := by
  cases h <;> simp [Entry.worker]

variable {worker : ℕ} {log entries : List Entry}

theorem ownWrite_append (log entries : List Entry) (worker : ℕ) :
    ownWrite worker (log ++ entries) = (ownWrite worker entries).or (ownWrite worker log) :=
  EventLog.latest_append log entries (some worker)

theorem lastOwn_append (log entries : List Entry) (worker : ℕ) :
    lastOwn worker (log ++ entries) = (lastOwn worker entries).or (lastOwn worker log) :=
  EventLog.latest_append log entries worker

section others

variable (others : ∀ entry ∈ entries, entry.worker ≠ some worker)
include others

theorem ownWrite_others : ownWrite worker (log ++ entries) = ownWrite worker log := by
  have silent : ownWrite worker entries = none := by
    apply EventLog.latest_none
    intro entry member
    have apart := others entry member
    cases entry <;> simp_all [EventLog.about, Entry.written, Entry.worker]
  rw [ownWrite_append, silent, Option.none_or]

theorem lastOwn_others : lastOwn worker (log ++ entries) = lastOwn worker log := by
  have silent : lastOwn worker entries = none := by
    apply EventLog.latest_none
    intro entry member
    have apart := others entry member
    cases found : entry.worker <;> simp_all [EventLog.about, Entry.own]
  rw [lastOwn_append, silent, Option.none_or]

theorem mem_since_others {entry : Entry} (member : entry ∈ History.since (Entry.fences worker) log) :
    entry ∈ History.since (Entry.fences worker) (log ++ entries) := by
  have quiet : ∀ other ∈ entries, other.fences worker = false := by
    intro other inside
    have apart := others other inside
    cases other <;> simp_all [Entry.fences, Entry.worker]
  rw [History.since_append quiet]
  exact List.mem_append_right _ member

theorem Vetted.kept (h : Vetted worker log) : Vetted worker (log ++ entries) where
  fenced := List.mem_append_left _ h.fenced
  reconciled := mem_since_others others h.reconciled
  authorized := mem_since_others others h.authorized

theorem Prepared.kept {stage : Stage} (h : Prepared worker log stage) : Prepared worker (log ++ entries) stage := by
  cases stage with
  | greeting => exact List.mem_append_left _ h
  | greeted => exact List.mem_append_left _ h
  | reconciling => exact List.mem_append_left _ h
  | authorizing => exact ⟨List.mem_append_left _ h.1, mem_since_others others h.2⟩
  | releasing => exact Vetted.kept others h
  | beating => exact (ownWrite_others others).trans h
  | delivering event => exact (ownWrite_others others).trans h
  | beaten => exact ⟨(ownWrite_others others).trans h.1, (lastOwn_others others).trans h.2⟩
  | waiting => exact ⟨(ownWrite_others others).trans h.1, (lastOwn_others others).trans h.2⟩
  | _ => trivial

end others

theorem mem_since_snoc {entry last : Entry} (quiet : last.fences worker = false) :
    entry ∈ History.since (Entry.fences worker) (log ++ [last]) ↔
      entry = last ∨ entry ∈ History.since (Entry.fences worker) log := by
  rw [History.since_append (by simpa using quiet)]
  simp

/-- A step takes a process from what it has done to what it has done after. -/
theorem Turned.prepared {launch : Launch} {stage stage' : Stage} (h : Turned launch worker stage entries stage')
    (p : Prepared worker log stage) : Prepared worker (log ++ entries) stage' := by
  cases h with
  | fenced => exact List.mem_append_right _ (by simp)
  | greeted => exact List.mem_append_left _ p
  | recorded => exact List.mem_append_left _ p
  | reconciled => exact ⟨List.mem_append_left _ p, (mem_since_snoc rfl).mpr (.inl rfl)⟩
  | authorized =>
    exact ⟨List.mem_append_left _ p.1, (mem_since_snoc rfl).mpr (.inr p.2), (mem_since_snoc rfl).mpr (.inl rfl)⟩
  | released =>
    change ownWrite _ _ = _
    simp [ownWrite, EventLog.latest, EventLog.about, Entry.written]
  | held =>
    constructor
    · rw [ownWrite_append]
      exact p
    · simp [lastOwn, EventLog.latest, EventLog.about, Entry.own, Entry.worker]
  | beaten =>
    rw [List.append_nil]
    exact p
  | skipped =>
    rw [List.append_nil]
    exact p.1
  | delivers may =>
    change ownWrite _ _ = _
    rw [ownWrite_append]
    exact p.1
  | processed =>
    rw [List.append_nil]
    exact p
  | closes gone => cases stage' <;> trivial
  | parts before after => cases stage' <;> trivial
  | _ => trivial

theorem Turned.fits {launches : ℕ → Launch} {stage stage' : Stage}
    (h : Turned (launches worker) worker stage entries stage') (p : Prepared worker log stage) :
    History.Extends (Fits launches) log entries := by
  cases h with
  | released =>
    refine ⟨⟨?_, by simp⟩, trivial⟩
    intro other same
    cases same
    exact p
  | releasedUnheard =>
    refine ⟨⟨?_, by simp⟩, trivial⟩
    intro other same
    cases same
    exact p
  | delivers may =>
    refine ⟨⟨by simp, ?_⟩, trivial⟩
    intro other event canEnter at_ same
    cases same
    exact ⟨may, p.1, p.2⟩
  | fenced => exact ⟨⟨by simp, by simp⟩, trivial⟩
  | alarms inside => exact ⟨⟨by simp, by simp⟩, trivial⟩
  | closes gone => exact ⟨⟨by simp, by simp⟩, trivial⟩
  | reconciled => exact ⟨⟨by simp, by simp⟩, trivial⟩
  | mismatched => exact ⟨⟨by simp, by simp⟩, trivial⟩
  | authorized => exact ⟨⟨by simp, by simp⟩, trivial⟩
  | held => exact ⟨⟨by simp, by simp⟩, trivial⟩
  | lost => exact ⟨⟨by simp, by simp⟩, trivial⟩
  | refreshedUnheard owned => exact ⟨⟨by simp, by simp⟩, trivial⟩
  | _ => trivial

/-- All that is known of a state on the way. -/
structure Kept (launches : ℕ → Launch) (s : System) : Prop where
  switched : Switched s
  prepared : ∀ worker, Prepared worker s.log (s.threads worker).stage
  fits : History.Each (Fits launches) s.log

theorem Kept.turned {launches : ℕ → Launch} {s : System} (h : Kept launches s) {r : Repository} {t : Thread}
    (turned : Turned (launches worker) worker (s.threads worker).stage entries t.stage)
    (switched : Switched ⟨r, Function.update s.threads worker t, s.log ++ entries⟩) :
    Kept launches ⟨r, Function.update s.threads worker t, s.log ++ entries⟩ := by
  refine ⟨switched, fun other => ?_, h.fits.append (turned.fits (h.prepared worker))⟩
  by_cases own : other = worker
  · subst own
    simpa using turned.prepared (h.prepared other)
  · have apart : ∀ entry ∈ entries, entry.worker ≠ some other := by
      intro entry member same
      rw [turned.worker entry member] at same
      exact own (Option.some.inj same).symm
    simpa [Function.update_of_ne own] using (h.prepared other).kept apart

theorem step_kept (launches : ℕ → Launch) (s : System) (move : Move) (h : Kept launches s) :
    Kept launches (step launches s move) := by
  have switched := step_switched launches s move h.switched
  cases move with
  | step worker a => exact h.turned (step_turned (launches worker) worker s.repository (s.threads worker) a) switched
  | crash worker =>
    have next := h.turned (crash_turned (launches worker) worker (s.threads worker)) (r := s.repository)
    simp only [List.append_nil] at next
    exact next switched
  | control value =>
    have apart (worker : ℕ) : ∀ entry ∈ [Entry.wrote none value], entry.worker ≠ some worker := by
      simp [Entry.worker]
    refine ⟨switched, fun worker => (h.prepared worker).kept (apart worker), h.fits.append ⟨⟨?_, ?_⟩, trivial⟩⟩
    · simp
    · simp

theorem run_kept (launches : ℕ → Launch) (moves : List Move) : Kept launches (run launches moves) := by
  apply Machine.run_invariant (step_kept launches)
  exact ⟨⟨rfl, by simp [lastWrite, EventLog.latest]⟩, fun _ => trivial, History.Each.nil⟩

/-- In whatever order the processes and the other writers take their steps, fail and die, the switch is as it was
written last. Whoever releases it has set it before, and since then found the broker reconciled and been authorized;
and while its release stands, it runs, or it died before it could set the switch on its way out. -/
theorem switch_supervised (launches : ℕ → Launch) (moves : List Move) :
    (run launches moves).repository.killSwitch = (lastWrite (run launches moves).log).map Prod.snd ∧
      (∀ worker, lastWrite (run launches moves).log = some (some worker, "inactive") →
        ((run launches moves).threads worker).stage.armed = true) ∧
      History.Each (fun before entry => ∀ worker, entry = .wrote (some worker) "inactive" → Vetted worker before)
        (run launches moves).log := by
  have kept := run_kept launches moves
  refine ⟨kept.switched.held, kept.switched.armed, fun before entry after split worker same => ?_⟩
  exact (kept.fits before entry after split).1 worker same

/-- No process delivers an event that is stale, in the future or of a closed session, or before it has released the
switch or after it has set it again; and after each event it looks again whether it owns the lease, so that of a lease
it has lost it delivers no more than the event in its hands. -/
theorem deliveries_guarded (launches : ℕ → Launch) (moves : List Move) :
    History.Each (fun before entry => ∀ worker event canEnter at_, entry = .delivered worker event canEnter at_ →
      Guarded (launches worker) worker event canEnter at_ before) (run launches moves).log := by
  intro before entry after split worker event canEnter at_ same
  exact ((run_kept launches moves).fits before entry after split).2 worker event canEnter at_ same

end TradeAgent.PaperWorker
