import Mathlib.Data.List.Chain
import TradeAgent.ScheduledPaper

/-! A session is certified only on an unbroken proof, and issued once. -/
namespace TradeAgent.Scheduled

open Event (Fault)

/-! ## What a certificate proves -/

/-- Windows that follow on each other, each closed late enough, and together long and recent. -/
structure WindowsProve (windows : List Window) (now : Instant) : Prop where
  contiguous : windows.IsChain fun window next => next.since = window.until_
  closed : ∀ window ∈ windows, 600 * second ≤ window.until_ - window.first.untilExchangeAt
  covered : 1800 * second ≤ (windows.map fun window => window.until_ - window.since).sum
  recent : ∃ last, windows.getLast? = some last ∧ 0 ≤ now - last.until_ ∧
    now - last.until_ ≤ 90 * second

/-- The attempts at an observation of a session, in order; none where one failed with an error. One
that a stop cut off, or a fault no step answers for, is not on record. -/
def attempts (sessionId : String) (log : List Entry) : List (Option Observation) :=
  log.filterMap fun
    | .observed other observation => if other = sessionId then some (some observation) else none
    | .errored other _ => if other = sessionId then some none else none
    | _ => none

/-- Passing observations of one identity, none far from the one before it. -/
structure Unbroken (identity : ObservationIdentity) (chain : List Observation) : Prop where
  passing : ∀ observation ∈ chain, observation.failures = [] ∧ observation.identity = identity
  close : chain.IsChain fun before after =>
    0 ≤ after.at_ - before.at_ ∧ after.at_ - before.at_ ≤ maximumObservationGap

/-- The latest attempts are an unbroken chain of observations between two times. -/
def Continuous (log : List Entry) (sessionId : String) (identity : ObservationIdentity)
    (startedAt : Instant) (last : Observation) : Prop :=
  ∃ earlier chain first, attempts sessionId log = earlier ++ chain.map some ∧
    Unbroken identity chain ∧ chain.head? = some first ∧ first.at_ = startedAt ∧
    chain.getLast? = some last

/-- What a log must show before a session is issued. -/
structure Certified (log : List Entry) (sessionId : String) (now : Instant)
    (windows : List Window) : Prop where
  observed : ∃ identity startedAt last, Continuous log sessionId identity startedAt last ∧
    last.at_ = now ∧ last.windows = windows ∧ 1800 * second ≤ now - startedAt
  physical : WindowsProve windows now

section coverage

variable {now : Instant}

/-- The loop over the windows, from any point of it. -/
theorem covers_spec {windows : List Window} {covered : ℤ} {previousEnd : Option Instant}
    (valid : covers now windows covered previousEnd = true) :
    windows.IsChain (fun window next => next.since = window.until_) ∧
      (∀ window ∈ windows.head?, ∀ ended ∈ previousEnd, window.since = ended) ∧
      (∀ window ∈ windows, 600 * second ≤ window.until_ - window.first.untilExchangeAt) ∧
      1800 * second ≤ covered + (windows.map fun window => window.until_ - window.since).sum ∧
      ∃ ended, ((windows.getLast?.map Window.until_).or previousEnd) = some ended ∧
        0 ≤ now - ended ∧ now - ended ≤ 90 * second := by
  induction windows generalizing covered previousEnd with
  | nil =>
    cases previousEnd with
    | none => simp [covers] at valid
    | some ended =>
      simp only [covers, decide_eq_true_eq] at valid
      simpa using valid
  | cons window rest ih =>
    unfold covers at valid
    split at valid
    next => cases valid
    next accepted =>
      simp only [not_or, not_lt, not_exists, not_and, not_not] at accepted
      obtain ⟨-, closed, follows, -⟩ := accepted
      obtain ⟨chain, next, others, long, ended, last, recent⟩ := ih valid
      refine ⟨List.isChain_cons.mpr ⟨fun next' member => next next' member _ rfl, chain⟩, ?_, ?_,
        ?_, ended, ?_, recent⟩
      · simpa using follows
      · simpa using ⟨closed, others⟩
      · rw [List.map_cons, List.sum_cons, ← Int.add_assoc]
        exact long
      · rw [← last, List.getLast?_cons]
        cases rest.getLast? <;> simp

theorem physicalCoverageValid_proves {windows : List Window}
    (valid : physicalCoverageValid windows now = true) : WindowsProve windows now := by
  obtain ⟨chain, -, closed, long, ended, last, recent⟩ := covers_spec valid
  refine ⟨chain, closed, by simpa using long, ?_⟩
  cases final : windows.getLast? with
  | none => simp [final] at last
  | some window =>
    simp only [final, Option.map_some, Option.some_or, Option.some.injEq] at last
    exact ⟨window, rfl, last ▸ recent⟩

end coverage

/-! ## What every step keeps -/

/-- What steps write: the schedules and the log. -/
def Desk.record (desk : Desk) : Dict String Schedule × List Entry := (desk.schedules, desk.log)

def scheduleOf (schedules : Dict String Schedule) (sessionId : String) : Schedule :=
  schedules.getD sessionId {}

/-- The stored progress only counts time that the log bears out. -/
def Progress.Borne (progress : Progress) (log : List Entry) (sessionId : String) : Prop :=
  ∀ startedAt, progress.startedAt = some startedAt → ∃ identity last,
    progress.observationIdentity = some identity ∧ progress.lastAt = some last.at_ ∧
      Continuous log sessionId identity startedAt last

/-- Nothing is reserved or delegated for a session after it was missed. -/
def Precedes (entry later : Entry) : Prop :=
  ∀ sessionId reason, entry = .missed sessionId reason →
    later ≠ .reserved sessionId ∧ later ≠ .delegated sessionId

structure Recorded (record : Dict String Schedule × List Entry) : Prop where
  borne : ∀ sessionId progress, (scheduleOf record.1 sessionId).progress = some progress →
    progress.Borne record.2 sessionId
  certified : ∀ before sessionId now windows,
    before ++ [.issuing sessionId now windows] <+: record.2 →
      Certified before sessionId now windows
  reserved : ∀ sessionId, record.2.count (.reserved sessionId) =
    if (scheduleOf record.1 sessionId).delegation = none then 0 else 1
  delegated : ∀ sessionId, record.2.count (.delegated sessionId) =
    if (scheduleOf record.1 sessionId).delegation = none then 0 else 1
  ended : ∀ sessionId reason, .missed sessionId reason ∈ record.2 →
    (scheduleOf record.1 sessionId).terminal ≠ none
  settled : record.2.Pairwise Precedes

section recording

variable {schedules : Dict String Schedule} {log entries : List Entry} {sessionId other : String}
variable {schedule : Schedule}

theorem scheduleOf_set : scheduleOf (schedules.set sessionId schedule) other =
    if sessionId = other then schedule else scheduleOf schedules other := Dict.getD_set _ _ _ _ _

theorem attempts_append : attempts sessionId (log ++ entries) =
    attempts sessionId log ++ attempts sessionId entries := List.filterMap_append

theorem Continuous.append {identity : ObservationIdentity} {startedAt : Instant}
    {last : Observation} (continuous : Continuous log sessionId identity startedAt last)
    (silent : attempts sessionId entries = []) :
    Continuous (log ++ entries) sessionId identity startedAt last := by
  obtain ⟨earlier, chain, first, split, rest⟩ := continuous
  exact ⟨earlier, chain, first, by rw [attempts_append, silent, List.append_nil, split], rest⟩

theorem Progress.Borne.append {progress : Progress} (borne : progress.Borne log sessionId)
    (silent : attempts sessionId entries = []) : progress.Borne (log ++ entries) sessionId := by
  intro startedAt started
  obtain ⟨identity, last, same, lastAt, continuous⟩ := borne startedAt started
  exact ⟨identity, last, same, lastAt, continuous.append silent⟩

/-- An entry after which a prefix ends stands in the old log or among the new entries. -/
theorem prefix_append_mem {before : List Entry} {entry : Entry}
    (cut : before ++ [entry] <+: log ++ entries) : before ++ [entry] <+: log ∨ entry ∈ entries := by
  rcases List.prefix_or_prefix_of_prefix cut (List.prefix_append log entries) with within | beyond
  · exact .inl within
  · rcases List.prefix_concat_iff.mp beyond with same | ⟨between, rfl⟩
    · exact .inl (same ▸ List.prefix_rfl)
    · rw [List.append_assoc, List.prefix_append_right_inj] at cut
      exact .inr (cut.subset (by simp))

theorem certified_append (certified : ∀ before sessionId now windows,
      before ++ [.issuing sessionId now windows] <+: log → Certified before sessionId now windows)
    (quiet : ∀ sessionId now windows, .issuing sessionId now windows ∉ entries) :
    ∀ before sessionId now windows,
      before ++ [.issuing sessionId now windows] <+: log ++ entries →
        Certified before sessionId now windows := by
  intro before sessionId now windows cut
  rcases prefix_append_mem cut with within | new
  · exact certified before sessionId now windows within
  · exact absurd new (quiet sessionId now windows)

theorem attempts_elsewhere (own : ∀ entry ∈ entries, entry.sessionId = sessionId)
    (apart : sessionId ≠ other) : attempts other entries = [] := by
  refine List.filterMap_eq_nil_iff.mpr fun entry member => ?_
  have named := own entry member
  cases entry with
  | observed | errored =>
    obtain rfl : _ = sessionId := named
    exact if_neg apart
  | issuing | reserved | delegated | missed => rfl

theorem count_elsewhere {e : Entry} (own : ∀ entry ∈ entries, entry.sessionId = sessionId)
    (apart : sessionId ≠ e.sessionId) : entries.count e = 0 :=
  List.count_eq_zero.mpr fun member => apart (own e member).symm

/-- One write: a session's schedule, with what is logged of that session. -/
theorem Recorded.write (recorded : Recorded (schedules, log))
    (own : ∀ entry ∈ entries, entry.sessionId = sessionId)
    (borne : ∀ progress, schedule.progress = some progress →
      progress.Borne (log ++ entries) sessionId)
    (certified : ∀ now windows, .issuing sessionId now windows ∉ entries)
    (reserved : log.count (.reserved sessionId) + entries.count (.reserved sessionId) =
      if schedule.delegation = none then 0 else 1)
    (delegated : log.count (.delegated sessionId) + entries.count (.delegated sessionId) =
      if schedule.delegation = none then 0 else 1)
    (ended : ∀ reason, .missed sessionId reason ∈ log ++ entries → schedule.terminal ≠ none)
    (late : ∀ reason, .missed sessionId reason ∈ log →
      .reserved sessionId ∉ entries ∧ .delegated sessionId ∉ entries)
    (inside : entries.Pairwise Precedes) :
    Recorded (schedules.set sessionId schedule, log ++ entries) := by
  refine ⟨fun other progress found => ?_, certified_append recorded.certified ?_, fun other => ?_,
    fun other => ?_, fun other reason member => ?_,
    List.pairwise_append.mpr ⟨recorded.settled, inside, ?_⟩⟩
  · rw [scheduleOf_set] at found
    split at found
    next here => exact here ▸ borne progress found
    next apart =>
      exact (recorded.borne other progress found).append (attempts_elsewhere own apart)
  · intro other now windows member
    obtain rfl : other = sessionId := own _ member
    exact certified now windows member
  · rw [List.count_append, scheduleOf_set]
    split
    next here => exact here ▸ reserved
    next apart =>
      rw [count_elsewhere (e := .reserved other) own apart]
      exact recorded.reserved other
  · rw [List.count_append, scheduleOf_set]
    split
    next here => exact here ▸ delegated
    next apart =>
      rw [count_elsewhere (e := .delegated other) own apart]
      exact recorded.delegated other
  · rw [scheduleOf_set]
    split
    next here => exact ended reason (here ▸ member)
    next apart =>
      rcases List.mem_append.mp member with old | new
      · exact recorded.ended other reason old
      · exact absurd (own _ new).symm apart
  · rintro entry old later new other reason rfl
    constructor
    · rintro rfl
      obtain rfl : other = sessionId := own _ new
      exact (late reason old).1 new
    · rintro rfl
      obtain rfl : other = sessionId := own _ new
      exact (late reason old).2 new

theorem Recorded.store (recorded : Recorded (schedules, log)) {progress : Progress}
    (borne : progress.Borne (log ++ entries) sessionId)
    (attempted : entries = [] ∨ (∃ observation, entries = [.observed sessionId observation]) ∨
      ∃ at_, entries = [.errored sessionId at_]) :
    Recorded (schedules.set sessionId
      { scheduleOf schedules sessionId with progress := some progress }, log ++ entries) := by
  have reserved := recorded.reserved sessionId
  have delegated := recorded.delegated sessionId
  have ended := recorded.ended sessionId
  have borne : ∀ stored, some progress = some stored →
      stored.Borne (log ++ entries) sessionId := by
    intro stored same
    obtain rfl := Option.some.inj same
    exact borne
  obtain rfl | ⟨observation, rfl⟩ | ⟨at_, rfl⟩ := attempted
  all_goals
    refine recorded.write (by simp [Entry.sessionId]) borne (by simp) ?_ ?_ ?_ (by simp) (by simp)
    · simpa using reserved
    · simpa using delegated
    · simpa using ended

/-- The first reason a session is missed for is written only while there is none. -/
theorem Recorded.miss (recorded : Recorded (schedules, log)) (reason : Reason) :
    Recorded (schedules.set sessionId
      { scheduleOf schedules sessionId with terminal := some reason },
      log ++ [.missed sessionId reason]) := by
  refine recorded.write (by simp [Entry.sessionId]) (fun progress stored => ?_) (by simp) ?_ ?_
    (by simp) (by simp) (by simp)
  · exact (recorded.borne sessionId progress stored).append rfl
  · simpa using recorded.reserved sessionId
  · simpa using recorded.delegated sessionId

theorem Recorded.delegate (recorded : Recorded (schedules, log))
    (open_ : (scheduleOf schedules sessionId).terminal = none)
    (unissued : (scheduleOf schedules sessionId).delegation = none)
    (request : OperatorPaperRequest) (proof : Proof) :
    Recorded (schedules.set sessionId
      { scheduleOf schedules sessionId with delegation := some request, certificate := some proof },
      log ++ [.reserved sessionId, .delegated sessionId]) := by
  have ended := recorded.ended sessionId
  have reserved := recorded.reserved sessionId
  have delegated := recorded.delegated sessionId
  rw [if_pos unissued] at reserved delegated
  refine recorded.write (by simp [Entry.sessionId]) (fun progress stored => ?_) (by simp) ?_ ?_ ?_
    ?_ (by simp [Precedes])
  · exact (recorded.borne sessionId progress stored).append rfl
  · simp [reserved]
  · simp [delegated]
  · simpa using ended
  · exact fun reason missed => absurd open_ (ended reason missed)

/-- Issuing is logged where the log before it certifies it. -/
theorem Recorded.issue (recorded : Recorded (schedules, log)) {now : Instant}
    {windows : List Window} (certified : Certified log sessionId now windows) :
    Recorded (schedules, log ++ [.issuing sessionId now windows]) := by
  refine ⟨fun other progress found => (recorded.borne other progress found).append rfl, ?_,
    fun other => ?_, fun other => ?_, fun other reason member => ?_,
    List.pairwise_append.mpr ⟨recorded.settled, by simp, ?_⟩⟩
  · intro before other later windows' cut
    rcases List.prefix_concat_iff.mp cut with same | within
    · obtain ⟨rfl, issuing⟩ := List.append_inj' same rfl
      cases issuing
      exact certified
    · exact recorded.certified before other later windows' within
  · simpa using recorded.reserved other
  · simpa using recorded.delegated other
  · exact recorded.ended other reason (by simpa using member)
  · rintro entry old later new other reason rfl
    obtain rfl := List.mem_singleton.mp new
    simp

end recording

/-! ## The steps between the writes -/

section quiet

variable {α : Type}

theorem tick_leaves : Procedure.Leaves Desk.record tick :=
  Procedure.Leaves.attempt fun desk _ next done => by
    split at done
    · cases done
    · cases done; rfl

theorem ask_leaves (call : Desk → Except Fault α) : Procedure.Leaves Desk.record (ask call) :=
  tick_leaves.bind fun _ => Procedure.Leaves.attempt fun desk answer next done => by
    cases called : call desk with
    | error fault => rw [called] at done; cases done
    | ok value => rw [called] at done; cases done; rfl

theorem importBaseline_leaves (report : Event.Baseline) (now : Instant) :
    Procedure.Leaves Desk.record (importBaseline report now) :=
  tick_leaves.bind fun _ => Procedure.Leaves.attempt fun desk _ next done => by
    cases saved : desk.books.saveBaseline report now with
    | error fault => rw [saved] at done; cases done
    | ok books => rw [saved] at done; cases done; rfl

variable (worker : Worker) (out : Outside) (session : ScheduledPaperSession)

theorem collectReadiness_leaves (since : Instant) (includePhysical : Bool) :
    Procedure.Leaves Desk.record (collectReadiness worker out since includePhysical) := by
  refine (Procedure.Leaves.view _).bind fun beganAt => ?_
  refine Procedure.Leaves.ite ((Procedure.Leaves.raise _).bind fun _ => ?_) ?_
  all_goals
    refine (ask_leaves _).bind fun reading => ?_
    dsimp only
    split
    · exact (importBaseline_leaves _ _).bind fun _ => Procedure.Leaves.pure _
    · exact Procedure.Leaves.pure _

theorem physicalAnchor_leaves (since : Instant) :
    Procedure.Leaves Desk.record (physicalAnchor out since) :=
  (ask_leaves _).bind fun _ => Procedure.Leaves.pure _

theorem closeWindow_leaves (windows : List Window) (anchor : Endpoint)
    (endpoint : Option Endpoint) (now : Instant) :
    Procedure.Leaves Desk.record (closeWindow out windows anchor endpoint now) := by
  unfold closeWindow
  cases endpoint with
  | none => exact Procedure.Leaves.pure _
  | some endpoint =>
    dsimp only
    refine Procedure.Leaves.ite (Procedure.Leaves.pure _) (Procedure.Leaves.ite ?_
      (Procedure.Leaves.pure _))
    exact (physicalAnchor_leaves out now).bind fun _ => Procedure.Leaves.pure _

theorem examine_leaves (carried : Progress) (due : Bool) (sample : Sample) :
    Procedure.Leaves Desk.record (examine out carried due sample) := by
  unfold examine
  split
  · exact closeWindow_leaves out _ _ _ _
  · exact Procedure.Leaves.pure _

theorem keepAnchor_leaves (now : Instant) (anchor : Option Endpoint) :
    Procedure.Leaves Desk.record (keepAnchor out now anchor) := by
  cases anchor with
  | some anchor => exact Procedure.Leaves.pure _
  | none => exact physicalAnchor_leaves out now

/-- The progress after an observation of what was carried. -/
structure Progress.Follows (progress carried : Progress) (sample : Sample) : Prop where
  lastAt : progress.lastAt = some sample.observedAt
  identity : progress.observationIdentity = some sample.identity
  started : ∀ startedAt, progress.startedAt = some startedAt →
    progress.failures = [] ∧ startedAt = carried.startedAt.getD sample.observedAt

theorem observe_follows (progress : Progress) (due : Bool) (sample : Sample)
    (record : Dict String Schedule × List Entry) :
    Procedure.Triple (fun desk => desk.record = record) (observe out progress due sample)
      (fun after desk => desk.record = record ∧
        after.Follows (progress.carried sample.observedAt sample.identity) sample)
      fun _ desk => desk.record = record := by
  refine Procedure.Triple.bind (examine_leaves out _ _ _ record) ?_
  rintro ⟨failures, windows, anchor⟩
  refine Procedure.Triple.ite (fun failed => ?_) fun passed => ?_
  · exact Procedure.Triple.pure _ fun desk same => ⟨same, rfl, rfl, fun _ started => nomatch started⟩
  · refine Procedure.Triple.bind (keepAnchor_leaves out _ anchor record) fun anchor => ?_
    refine Procedure.Triple.pure _ fun desk same => ⟨same, rfl, rfl, fun startedAt started => ?_⟩
    exact ⟨rfl, (Option.some.inj started).symm⟩

end quiet

/-! ## The writes -/

section writes

variable {I J : Dict String Schedule × List Entry → Prop}

theorem write_triple {change : Desk → Desk}
    (step : ∀ desk : Desk, I desk.record → J (change desk).record) :
    Procedure.Triple (fun desk => I desk.record) (write change) (fun _ desk => J desk.record)
      fun _ desk => I desk.record :=
  Procedure.Triple.bind (tick_leaves.keeps I) fun _ => Procedure.Triple.attempt
    (fun desk holds _ next done => by cases done; exact step desk holds)
    fun _ _ _ raised => nomatch raised

variable (worker : Worker) (out : Outside) (session : ScheduledPaperSession)

theorem storeProgress_triple {progress : Progress} {entries : List Entry}
    (step : ∀ schedules log, I (schedules, log) → J (schedules.set session.sessionId
      { scheduleOf schedules session.sessionId with progress := some progress }, log ++ entries)) :
    Procedure.Triple (fun desk => I desk.record) (storeProgress session progress entries)
      (fun _ desk => J desk.record) fun _ desk => I desk.record :=
  write_triple fun desk holds => step desk.schedules desk.log holds

theorem terminate_keeps (reason : Reason) :
    Procedure.Keeps (fun desk => Recorded desk.record) (terminate out session reason) := by
  refine Procedure.Keeps.bind (Procedure.Keeps.view _) fun schedule => ?_
  refine Procedure.Keeps.ite (fun _ => ?_) fun _ => Procedure.Keeps.pure _
  refine Procedure.Keeps.bind ?_ fun _ => ?_
  · exact write_triple fun desk recorded => recorded.miss reason
  · exact Procedure.Keeps.bind ((ask_leaves _).keeps Recorded) fun _ => Procedure.Keeps.pure _

theorem delegate_recorded {desk next : Desk} {proof : Proof} {now : Instant}
    {request : OperatorPaperRequest} (recorded : Recorded desk.record)
    (done : desk.delegate out session proof now = .ok (request, next)) : Recorded next.record := by
  unfold Desk.delegate at done
  dsimp only at done
  split at done
  next => cases done
  next =>
  split at done
  next => cases done
  next =>
  split at done
  next => cases done
  next standing =>
  split at done
  next prior _ =>
    cases done
    exact recorded
  next unissued =>
  split at done
  next => cases done
  next =>
    obtain ⟨books, -, done⟩ := bind_ok_iff.mp done
    cases done
    have open_ : (desk.schedule session.sessionId).terminal = none := by
      by_contra ended
      exact standing (.inl ended)
    exact recorded.delegate open_ unissued _ _

theorem issue_keeps (proof : Proof) :
    Procedure.Keeps (fun desk => Recorded desk.record) (issue out session proof) := by
  refine Procedure.Keeps.bind ((ask_leaves _).keeps Recorded) fun history => ?_
  refine Procedure.Keeps.bind (Procedure.Keeps.view _) fun now => ?_
  refine Procedure.Keeps.guard fun proven => Procedure.Keeps.guard fun timely => ?_
  refine Procedure.Keeps.bind ((importBaseline_leaves _ _).keeps Recorded) fun _ => ?_
  refine Procedure.Keeps.bind (tick_leaves.keeps Recorded) fun _ => ?_
  exact Procedure.Keeps.attempt fun desk recorded request next done =>
    delegate_recorded out session recorded done

/-- Progress handed on is what was stored, or nothing. -/
theorem resume_cases {now : Instant} {stored : Option Progress} {progress : Progress}
    (resumed : resume now stored = .ok progress) : progress = {} ∨ stored = some progress := by
  unfold resume at resumed
  split at resumed
  next => cases resumed; exact .inl rfl
  next =>
    split at resumed
    next => cases resumed
    next =>
      split at resumed
      next => cases resumed; exact .inr rfl
      next => cases resumed; exact .inl rfl

/-- Time is carried on only from progress of the same identity, and not across a gap. -/
theorem carried_started {progress : Progress} {now startedAt : Instant}
    {identity : ObservationIdentity}
    (started : (progress.carried now identity).startedAt = some startedAt) :
    progress.startedAt = some startedAt ∧ progress.observationIdentity = some identity ∧
      ∀ lastAt, progress.lastAt = some lastAt →
        0 ≤ now - lastAt ∧ now - lastAt ≤ maximumObservationGap := by
  have kept : ∀ source : Progress,
      (if source.observationIdentity = some identity then source else {}).startedAt =
        some startedAt →
      source.startedAt = some startedAt ∧ source.observationIdentity = some identity := by
    intro source held
    split at held
    next same => exact ⟨held, same⟩
    next => cases held
  unfold Progress.carried at started
  dsimp only at started
  cases known : progress.lastAt with
  | none =>
    rw [known] at started
    obtain ⟨before, same⟩ := kept progress started
    exact ⟨before, same, nofun⟩
  | some lastAt =>
    rw [known] at started
    by_cases near : 0 ≤ now - lastAt ∧ now - lastAt ≤ maximumObservationGap
    · simp only [if_pos near] at started
      obtain ⟨before, same⟩ := kept progress started
      refine ⟨before, same, fun other last => ?_⟩
      obtain rfl := Option.some.inj last
      exact near
    · simp only [if_neg near] at started
      exact nomatch (kept {} started).1

/-- An observation that starts or carries on a chain is the last of it. -/
theorem Progress.Follows.continuous {progress after : Progress} {sample : Sample}
    {log : List Entry} {sessionId : String} {startedAt : Instant} {windows : List Window}
    (follows : after.Follows (progress.carried sample.observedAt sample.identity) sample)
    (borne : progress.Borne log sessionId) (started : after.startedAt = some startedAt) :
    Continuous (log ++ [.observed sessionId
        ⟨sample.observedAt, after.failures, sample.identity, windows⟩])
      sessionId sample.identity startedAt
      ⟨sample.observedAt, after.failures, sample.identity, windows⟩ := by
  obtain ⟨passed, since⟩ := follows.started startedAt started
  have latest : attempts sessionId [.observed sessionId
      ⟨sample.observedAt, after.failures, sample.identity, windows⟩] =
      [some ⟨sample.observedAt, after.failures, sample.identity, windows⟩] := by
    simp [attempts]
  cases carried : (progress.carried sample.observedAt sample.identity).startedAt with
  | none =>
    rw [carried] at since
    refine ⟨attempts sessionId log, [_], _, by rw [attempts_append, latest]; rfl,
      ⟨by simp [passed], .singleton _⟩, rfl, since.symm, rfl⟩
  | some earlier =>
    rw [carried] at since
    obtain rfl : startedAt = earlier := since
    obtain ⟨before, same, near⟩ := carried_started carried
    obtain ⟨identity, last, known, lastAt, continuous⟩ := borne startedAt before
    obtain rfl := Option.some.inj (known.symm.trans same)
    obtain ⟨older, chain, first, split, unbroken, head, at_, final⟩ := continuous
    refine ⟨older, chain ++ [_], first, ?_, ⟨?_, ?_⟩, ?_, at_, List.getLast?_concat⟩
    · rw [attempts_append, latest, split, List.map_append, List.append_assoc]
      rfl
    · intro observation member
      rcases List.mem_append.mp member with old | new
      · exact unbroken.passing observation old
      · obtain rfl := List.mem_singleton.mp new
        exact ⟨passed, rfl⟩
    · refine List.isChain_append.mpr ⟨unbroken.close, .singleton _, ?_⟩
      rintro x ends y begins
      obtain rfl := Option.some.inj (final.symm.trans ends)
      obtain rfl := Option.some.inj begins
      exact near _ lastAt
    · rw [List.head?_append, head]
      rfl

/-- What certification starts from: the progress handed on is what is stored, or nothing. -/
def Handed (progress : Progress) (sessionId : String)
    (record : Dict String Schedule × List Entry) : Prop :=
  Recorded record ∧
    (progress = {} ∨ (scheduleOf record.1 sessionId).progress = some progress)

theorem Handed.borne {progress : Progress} {sessionId : String}
    {record : Dict String Schedule × List Entry} (handed : Handed progress sessionId record) :
    progress.Borne record.2 sessionId := by
  obtain ⟨recorded, rfl | stored⟩ := handed
  · exact nofun
  · exact recorded.borne sessionId progress stored

/-- What holds once an observation is stored: the time counted ends with it. -/
def Observed (progress : Progress) (observation : Observation) (sessionId : String)
    (record : Dict String Schedule × List Entry) : Prop :=
  Recorded record ∧ ∀ startedAt, progress.startedAt = some startedAt →
    Continuous record.2 sessionId observation.identity startedAt observation

/-- Stores the observation and, with it, the time it carries on. -/
theorem storeObservation_triple {progress after : Progress} {sample : Sample}
    {record : Dict String Schedule × List Entry} (handed : Handed progress session.sessionId record)
    (follows : after.Follows (progress.carried sample.observedAt sample.identity) sample) :
    Procedure.Triple (fun desk => desk.record = record)
      (storeProgress session after [.observed session.sessionId
        ⟨sample.observedAt, after.failures, sample.identity, after.physicalProofs⟩])
      (fun _ desk => Observed after
        ⟨sample.observedAt, after.failures, sample.identity, after.physicalProofs⟩
        session.sessionId desk.record)
      fun _ desk => Recorded desk.record := by
  refine (storeProgress_triple (I := fun r => r = record) session ?_).conseq (fun _ same => same)
    (fun _ _ observed => observed) fun _ desk same => ?_
  · rintro schedules log rfl
    have continuous := fun startedAt (started : after.startedAt = some startedAt) =>
      @Progress.Follows.continuous progress after sample log session.sessionId startedAt
        after.physicalProofs follows handed.borne started
    refine ⟨handed.1.store (fun startedAt started => ?_) (.inr (.inl ⟨_, rfl⟩)), continuous⟩
    exact ⟨_, _, follows.identity, follows.lastAt, continuous startedAt started⟩
  · exact same ▸ handed.1

theorem certify_keeps {progress : Progress} (due : Bool) (sample : Sample) :
    Procedure.Triple (fun desk => Handed progress session.sessionId desk.record)
      (certify out session progress due sample) (fun _ desk => Recorded desk.record)
      fun _ desk => Recorded desk.record := by
  unfold certify
  dsimp only
  refine Procedure.Triple.ite (fun _ => ?_) fun _ => ?_
  · exact (terminate_keeps out session _).pre fun desk handed => handed.1
  refine Procedure.Triple.reading (f := Desk.record) fun record handed => ?_
  refine Procedure.Triple.bind ((observe_follows out progress due sample record).conseq
    (fun _ same => same) (fun _ _ both => both) fun _ desk same => same ▸ handed.1) fun after => ?_
  refine Procedure.Triple.given fun follows => ?_
  refine Procedure.Triple.bind (storeObservation_triple session handed follows) fun _ => ?_
  refine Procedure.Triple.bind (((ask_leaves _).keeps _).conseq (fun _ observed => observed)
    (fun _ _ observed => observed) fun _ _ observed => observed.1) fun _ => ?_
  split
  next startedAt started =>
    refine Procedure.Triple.ite (fun _ => Procedure.Triple.pure _ fun _ observed => observed.1)
      fun proven => ?_
    obtain ⟨long, timely, covered⟩ := not_not.mp proven
    refine Procedure.Triple.bind
      (Q := fun _ (desk : Desk) => Observed after _ session.sessionId desk.record)
      (Procedure.Triple.view fun _ observed => observed) fun valid => ?_
    refine Procedure.Triple.ite (fun _ => ?_) fun _ => ?_
    · refine Procedure.Triple.bind ((storeProgress_triple (J := Recorded) session ?_).conseq
        (fun _ observed => observed) (fun _ _ recorded => recorded)
        fun _ _ observed => observed.1) fun _ => Procedure.Keeps.pure _
      rintro schedules log ⟨recorded, continuous⟩
      refine recorded.store ?_ (.inl rfl)
      rw [List.append_nil]
      exact fun startedAt started => ⟨_, _, follows.identity, follows.lastAt,
        continuous startedAt started⟩
    · refine Procedure.Triple.bind (Q := fun _ (desk : Desk) => Recorded desk.record)
        (Procedure.Triple.attempt ?_ fun _ _ _ raised => nomatch raised) fun _ => ?_
      · rintro desk ⟨recorded, continuous⟩ _ next done
        cases done
        exact recorded.issue ⟨⟨_, _, _, continuous startedAt started, rfl, rfl, long⟩,
          physicalCoverageValid_proves covered⟩
      · exact Procedure.Keeps.bind (issue_keeps out session _) fun _ => Procedure.Keeps.pure _
  next => exact Procedure.Triple.pure _ fun _ observed => observed.1

theorem blockedBy_keeps (now : Instant) (outcome : Except Fault Status) :
    Procedure.Keeps (fun desk => Recorded desk.record) (blockedBy out session now outcome) := by
  cases outcome with
  | ok status => exact Procedure.Keeps.pure _
  | error fault =>
    unfold blockedBy
    refine Procedure.Keeps.guard fun _ => ?_
    refine Procedure.Keeps.bind ?_ fun _ => Procedure.Keeps.pure _
    exact storeProgress_triple session fun schedules log recorded =>
      recorded.store (fun _ started => nomatch started) (.inr (.inr ⟨now, rfl⟩))

theorem readinessStep_keeps (now : Instant) :
    Procedure.Keeps (fun desk => Recorded desk.record) (readinessStep worker out session now) := by
  refine Procedure.Triple.reading (f := Desk.record) fun record recorded => ?_
  refine Procedure.Triple.bind (Q := fun stored (desk : Desk) => desk.record = record ∧
    stored = (scheduleOf record.1 session.sessionId).progress)
    (Procedure.Triple.view fun desk same => ⟨same, same ▸ rfl⟩) fun stored => ?_
  refine Procedure.Triple.given fun known => ?_
  refine Procedure.Triple.bind (Q := fun progress (desk : Desk) =>
    Handed progress session.sessionId desk.record) (Procedure.Triple.lift ?_ ?_) fun progress => ?_
  · rintro desk rfl progress resumed
    exact ⟨recorded, known ▸ resume_cases resumed⟩
  · rintro desk rfl fault -
    exact recorded
  have collected := Procedure.Keeps.caught
    ((collectReadiness_leaves worker out ((progress.anchor.map (·.sinceExchangeAt)).getD now)
      (physicalDue session progress now)).keeps (Handed progress session.sessionId))
  refine Procedure.Triple.bind (collected.conseq (fun _ handed => handed) (fun _ _ handed => handed)
    fun _ _ handed => handed.1) fun outcome => ?_
  cases outcome with
  | error fault => exact (blockedBy_keeps out session now _).pre fun _ handed => handed.1
  | ok sample =>
    have certified : Procedure.Triple _ _ _ fun _ (desk : Desk) => Recorded desk.record :=
      Procedure.Triple.caught
        (@certify_keeps out session progress (physicalDue session progress now) sample)
    refine Procedure.Triple.bind (certified.post fun outcome desk ended => ?_) fun outcome =>
      blockedBy_keeps out session _ outcome
    cases outcome with
    | ok status => exact ended.1 status rfl
    | error fault => exact ended.2 fault rfl

theorem recheck_keeps (request : OperatorPaperRequest) (now : Instant) :
    Procedure.Keeps (fun desk => Recorded desk.record) (recheck worker out session request now) := by
  refine Procedure.Keeps.bind ((collectReadiness_leaves worker out _ _).keeps Recorded)
    fun current => ?_
  refine Procedure.Keeps.bind (Procedure.Keeps.view _) fun certificate => ?_
  refine Procedure.Keeps.bind (Procedure.Keeps.view _) fun valid => ?_
  exact Procedure.Keeps.ite (fun _ => terminate_keeps out session _) fun _ => Procedure.Keeps.pure _

theorem delegatedStep_keeps (request : OperatorPaperRequest) (now : Instant) (collect : Bool) :
    Procedure.Keeps (fun desk => Recorded desk.record)
      (delegatedStep worker out session request now collect) := by
  refine Procedure.Keeps.bind (Procedure.Keeps.view _) fun finished => ?_
  refine Procedure.Keeps.ite (fun _ => Procedure.Keeps.pure _) fun _ => ?_
  refine Procedure.Keeps.bind (Procedure.Keeps.view _) fun untouched => ?_
  refine Procedure.Keeps.ite (fun _ => Procedure.Keeps.pure _) fun _ => ?_
  refine Procedure.Keeps.ite (fun _ => terminate_keeps out session _) fun _ => ?_
  refine Procedure.Keeps.bind (Procedure.Keeps.caught (recheck_keeps worker out session _ _))
    fun outcome => ?_
  cases outcome with
  | ok status => exact Procedure.Keeps.pure _
  | error fault =>
    exact Procedure.Keeps.ite (fun _ => terminate_keeps out session _) fun _ =>
      Procedure.Keeps.raise _

theorem sessionStep_keeps (now : Instant) (collect : Bool) :
    Procedure.Keeps (fun desk => Recorded desk.record)
      (sessionStep worker out session now collect) := by
  refine Procedure.Keeps.bind (Procedure.Keeps.view _) fun schedule => ?_
  split
  · exact Procedure.Keeps.pure _
  · exact delegatedStep_keeps worker out session _ _ _
  · refine Procedure.Keeps.bind (Procedure.Keeps.view _) fun changed => ?_
    refine Procedure.Keeps.ite (fun _ => terminate_keeps out session _) fun _ => ?_
    refine Procedure.Keeps.ite (fun _ => terminate_keeps out session _) fun _ => ?_
    refine Procedure.Keeps.ite (fun _ => Procedure.Keeps.pure _) fun _ => ?_
    refine Procedure.Keeps.ite (fun _ => Procedure.Keeps.pure _) fun _ => ?_
    exact readinessStep_keeps worker out session now

theorem step_keeps (now : Instant) (collect : Bool) :
    Procedure.Keeps (fun desk => Recorded desk.record) (step worker out now collect) := by
  refine Procedure.Keeps.ite (fun _ => Procedure.Keeps.pure _) fun _ => ?_
  refine Procedure.Keeps.bind (Procedure.Keeps.caught ((ask_leaves _).keeps Recorded))
    fun loaded => ?_
  split
  · exact Procedure.Keeps.ite (fun _ => Procedure.Keeps.pure _) fun _ => Procedure.Keeps.raise _
  · exact Procedure.Keeps.pure _
  · exact sessionStep_keeps worker out _ now collect

end writes

/-! ## Runs -/

/-- A step, by whatever process and ended after any number of its writes; or anything that others do
to the books and to the operator's controls in between. -/
inductive Act where
  | step (worker : Worker) (out : Outside) (now : Instant) (collect : Bool) (writes : ℕ)
  | elsewhere (books : Event.Books) (revoked : List String)
      (operatorActive : Option OperatorPaperRequest)
      (operatorRequests : Dict String OperatorPaperRequest)
      (operatorTerminals : Dict String String) (operatorScopes : Dict String OperatorPaperRequest)

def Desk.act (desk : Desk) : Act → Desk
  | .step worker out now collect writes =>
    (step worker out now collect { desk with life := writes }).2
  | .elsewhere books revoked operatorActive operatorRequests operatorTerminals operatorScopes =>
    { desk with
      books, revoked, operatorActive, operatorRequests, operatorTerminals, operatorScopes }

def run (acts : List Act) : Desk := acts.foldl Desk.act Desk.empty

theorem act_recorded {desk : Desk} (recorded : Recorded desk.record) (act : Act) :
    Recorded (desk.act act).record := by
  cases act with
  | step worker out now collect writes =>
    have writes : Recorded (Desk.record { desk with life := writes }) := recorded
    exact (step_keeps worker out now collect).after writes
  | elsewhere => exact recorded

theorem empty_recorded : Recorded Desk.empty.record where
  borne _ _ stored := nomatch stored
  certified before _ _ _ cut := by simp [Desk.record, Desk.empty] at cut
  reserved _ := rfl
  delegated _ := rfl
  ended _ _ member := nomatch member
  settled := .nil

theorem run_recorded (acts : List Act) : Recorded (run acts).record := by
  have steps : ∀ desk : Desk, Recorded desk.record →
      Recorded (acts.foldl Desk.act desk).record := by
    induction acts with
    | nil => exact fun _ recorded => recorded
    | cons act rest ih => exact fun desk recorded => ih _ (act_recorded recorded act)
  exact steps _ empty_recorded

/-- However steps, restarts and errors follow on each other, issuing is reached only on an unbroken
chain of passing observations and on windows that prove themselves; and a session is reserved and
delegated at most once, and never after it was missed. -/
theorem run_issues_once (acts : List Act) :
    (∀ before sessionId now windows after,
      (run acts).log = before ++ .issuing sessionId now windows :: after →
        Certified before sessionId now windows) ∧
      ∀ sessionId, (run acts).log.count (.reserved sessionId) ≤ 1 ∧
        (run acts).log.count (.delegated sessionId) ≤ 1 ∧
        ∀ before reason after, (run acts).log = before ++ .missed sessionId reason :: after →
          .reserved sessionId ∉ after ∧ .delegated sessionId ∉ after := by
  have recorded := run_recorded acts
  refine ⟨fun before sessionId now windows after split => ?_, fun sessionId => ⟨?_, ?_, ?_⟩⟩
  · refine recorded.certified before sessionId now windows ⟨after, ?_⟩
    rw [List.append_assoc]
    exact split.symm
  · refine (recorded.reserved sessionId).trans_le ?_
    split <;> decide
  · refine (recorded.delegated sessionId).trans_le ?_
    split <;> decide
  · intro before reason after split
    have settled := recorded.settled
    have log : (run acts).record.2 = before ++ .missed sessionId reason :: after := split
    rw [log] at settled
    have later := (List.pairwise_cons.mp (List.pairwise_append.mp settled).2.1).1
    exact ⟨fun member => (later _ member sessionId reason rfl).1 rfl,
      fun member => (later _ member sessionId reason rfl).2 rfl⟩

/-! A session that is observed every minute, and passes, is delegated after half an hour. -/

def steadyRows (now : Instant) : List MarketRow :=
  recorderSymbols.map fun symbol => ⟨symbol, now + 1, now, now, now⟩

def steadySession : ScheduledPaperSession where
  sessionId := "session"
  requestId := "request"
  operatorCohortId := "operator"
  workerCohortId := "worker"
  workerConfigHash := "config"
  codeSha := "code"
  accountDigest := "account"
  sessionDate := 0
  approvedAt := 0
  notBefore := 0
  entryDeadline := 60 * minute
  controlVersions := []

def steadyWorker : Worker :=
  ⟨true, true, "instance", "code", "config", "worker", some "account", some 0⟩

def steadyOutside (now : Instant) : Outside where
  loadSession _ := .ok (some steadySession)
  controlVersions _ := []
  opening _ := 0
  clock _ := now
  collect _ := .ok ⟨now, none, [("quote", true)], ⟨steadyRows now, steadyRows now, steadyRows now⟩,
    none, none, none, none, none⟩
  windowCounts _ := .ok (now, ⟨steadyRows now, steadyRows now, steadyRows now⟩)
  accountHistory _ := .ok ⟨"account", now, [], [], .empty⟩
  audit _ := .ok ()
  leaseAndControlsKept _ := true
  authorityKept _ := true
  delegationValid _ _ := true
  entryObservationValid _ _ := true
  faultText _ := ""

def steadyActs : List Act := (List.range 33).map fun n =>
  .step steadyWorker (steadyOutside (n * minute)) (n * minute) true 20

example : (run (steadyActs.take 30)).log.count (.delegated "session") = 0 ∧
    (run steadyActs).log.count (.delegated "session") = 1 := by decide +kernel

end TradeAgent.Scheduled
