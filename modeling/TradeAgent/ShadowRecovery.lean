import TradeAgent.ShadowSimulation

/-! Recovery after a restart: candidates that were recorded and never evaluated get an outcome for each action
that says so, a bounded number of them at a time. -/
namespace TradeAgent.Scalp.Shadow

/-- A `scalp_shadow_action_candidate` event. -/
structure CandidateRow where
  runId : String
  occurredAt : Instant
  candidate : ShadowCandidate

/-- A `scalp_shadow_action_outcome` event. -/
structure OutcomeRow where
  runId : String
  occurredAt : Instant
  outcome : ShadowActionOutcome

/-- The events, by their ids: each candidate is recorded once, and each outcome under the id of its digest. -/
structure History {ι : Type} [DecidableEq ι] (eventId : String → ShadowActionOutcome → ι) where
  candidates : List CandidateRow
  outcomes : Dict ι OutcomeRow
  distinct : (candidates.map fun row => row.candidate.candidateId).Nodup
  keyed : ∀ key row, outcomes.get? key = some row → eventId row.runId row.outcome = key

section recovery

variable {ι : Type} [DecidableEq ι] (platform : Platform) {eventId : String → ShadowActionOutcome → ι}

/-- `insert_once`. -/
def History.insertOnce (h : History eventId) (row : OutcomeRow) : History eventId where
  candidates := h.candidates
  outcomes := h.outcomes.setDefault (eventId row.runId row.outcome) row
  distinct := h.distinct
  keyed := by
    intro key other found
    rw [Dict.get?_setDefault] at found
    split at found
    next same =>
      subst same
      cases stored : h.outcomes.get? (eventId row.runId row.outcome) with
      | none =>
        rw [stored] at found
        exact Option.some.inj found ▸ rfl
      | some old =>
        rw [stored] at found
        exact h.keyed _ other (stored.trans found)
    next => exact h.keyed key other found

def ShadowPolicy.default : ShadowPolicy where
  horizonAgePositive := age_positive
  arrivalAgePositive := age_positive
  multiplierLe := whole_le
  ratePositive := whole_positive
  rateLe := whole_le

/-- The outcome of a candidate that was not evaluated. -/
def abandonedOutcome (c : ShadowCandidate) (action : ShadowAction) : ShadowActionOutcome where
  candidate := c
  policy := .default
  action
  arrivalAtNs := c.arrivalNs .default
  horizonAtNs := datetimeNs (c.observedAt + timedelta c.horizonSeconds)
  quantity := c.quantity
  entryQuantity := 0
  entryValue := 0
  fillDelayNs := none
  exitQuantity := 0
  exitValue := 0
  grossReturnBps := none
  directionalReturnBps := none
  horizonMid := none
  complete := false
  missingReasons := ["process_restarted_before_shadow_outcome"]
  sourceEventFirst := some c.sourceEventId
  sourceEventLast := some c.sourceEventId
  sourceEventCount := 1
  sourceEventSha256 := platform.sourceDigest [c.sourceEventId]

variable (runId : String)

/-- The candidates that have an outcome in the run. -/
def History.outcomeIds (h : History eventId) : List String :=
  (h.outcomes.values.filter fun row => row.runId = runId).map fun row => row.outcome.candidate.candidateId

/-- The candidates of the run up to a time. -/
def History.upTo (h : History eventId) (cutoff : Instant) : List CandidateRow :=
  h.candidates.filter fun row => row.runId = runId && row.occurredAt ≤ cutoff

def History.recoverOne (now : Instant) (h : History eventId) (row : CandidateRow) : History eventId :=
  [ShadowAction.passiveBuy, .aggressiveBuy].foldl (fun h action =>
    h.insertOnce ⟨runId, now, abandonedOutcome platform row.candidate action⟩) h

/-- The candidates of a window, but for those that had an outcome before. -/
def History.recover (h : History eventId) (now : Instant) (window : List CandidateRow) : History eventId × ℕ :=
  let outcomeIds := h.outcomeIds runId
  window.foldl (fun (h, recovered) row =>
    if row.candidate.candidateId ∈ outcomeIds then (h, recovered)
    else (h.recoverOne platform runId now row, recovered + 2)) (h, 0)

variable (featureHorizonSeconds : ℚ) (limit : ℕ)

def cutoffAt (now : Instant) : Instant := now - timedelta (featureHorizonSeconds + 1)

/-- `recover_abandoned_candidates`, on the candidates in the order the query comes to. -/
def History.recoverAbandonedCandidates (h : History eventId) (now : Instant) (ordered : List CandidateRow) :
    Option (History eventId × ℕ) :=
  if limit < 1 then none else some (h.recover platform runId now (ordered.take limit))

/-- A query orders by the time alone. -/
structure Ordered (rows ordered : List CandidateRow) : Prop where
  perm : ordered.Perm rows
  inTime : ordered.Pairwise fun first next => first.occurredAt ≤ next.occurredAt

/-- One call. -/
def Recovers (now : Instant) (h h' : History eventId) (recovered : ℕ) : Prop :=
  ∃ ordered, Ordered (h.upTo runId (cutoffAt featureHorizonSeconds now)) ordered ∧
    h.recoverAbandonedCandidates platform runId limit now ordered = some (h', recovered)

/-- Calls until one recovers none; that one is made at a given time. -/
inductive RecoversAll (now : Instant) : History eventId → History eventId → Prop
  | last {h h'} : Recovers platform runId featureHorizonSeconds limit now h h' 0 → RecoversAll now h h'
  | more {h h' h'' earlier recovered} : recovered ≠ 0 →
      Recovers platform runId featureHorizonSeconds limit earlier h h' recovered → RecoversAll now h' h'' →
      RecoversAll now h h''

/-- There is an outcome of an action. -/
def History.Has (h : History eventId) (identity : String) (action : ShadowAction) : Prop :=
  ∃ row ∈ h.outcomes.values, row.runId = runId ∧ row.outcome.candidate.candidateId = identity ∧
    row.outcome.action = action

/-- Every candidate up to a time has its outcomes, and to none that had one any was added. -/
structure AllRecovered (cutoff : Instant) (h h' : History eventId) : Prop where
  all : ∀ row ∈ h.upTo runId cutoff, ∀ action, h'.Has runId row.candidate.candidateId action
  untouched : ∀ row : OutcomeRow, row.runId = runId → row.outcome.candidate.candidateId ∈ h.outcomeIds runId →
    (row ∈ h'.outcomes.values ↔ row ∈ h.outcomes.values)

/-- Those before a candidate leave room for it, and no candidate has one outcome alone. -/
structure Recoverable (cutoff : Instant) (h : History eventId) : Prop where
  near : ∀ row ∈ h.upTo runId cutoff, row.candidate.candidateId ∉ h.outcomeIds runId →
    ((h.upTo runId cutoff).filter fun other => other.candidate.candidateId ≠ row.candidate.candidateId &&
      other.occurredAt ≤ row.occurredAt).length < limit
  both : ∀ row ∈ h.upTo runId cutoff, row.candidate.candidateId ∈ h.outcomeIds runId →
    ∀ action, h.Has runId row.candidate.candidateId action

end recovery

/-- Outcomes of different runs, candidates or actions have different ids. -/
def IdsDistinguish {ι : Type} (eventId : String → ShadowActionOutcome → ι) : Prop :=
  ∀ runId o runId' o', eventId runId o = eventId runId' o' →
    runId = runId' ∧ o.candidate.candidateId = o'.candidate.candidateId ∧ o.action = o'.action

variable {ι : Type} [DecidableEq ι] {platform : Platform} {eventId : String → ShadowActionOutcome → ι}
  {h h' h'' : History eventId}
  {runId identity : String} {now cutoff : Instant} {limit recovered : ℕ} {featureHorizonSeconds : ℚ}
  {window ordered rows : List CandidateRow} {row : CandidateRow} {stored : OutcomeRow} {action : ShadowAction}

/-! ## One call -/

theorem mem_insertOnce {other : OutcomeRow} : other ∈ (h.insertOnce stored).outcomes.values ↔
    other ∈ h.outcomes.values ∨ h.outcomes.get? (eventId stored.runId stored.outcome) = none ∧ other = stored := by
  unfold History.insertOnce
  dsimp only
  simp only [Dict.mem_values, Dict.get?_setDefault]
  constructor
  · rintro ⟨key, found⟩
    split at found
    next same =>
      cases before : h.outcomes.get? (eventId stored.runId stored.outcome) with
      | none =>
        rw [before] at found
        exact .inr ⟨rfl, (Option.some.inj found).symm⟩
      | some old =>
        rw [before] at found
        exact .inl ⟨_, before.trans found⟩
    next => exact .inl ⟨key, found⟩
  · rintro (⟨key, found⟩ | ⟨absent, rfl⟩)
    · refine ⟨key, ?_⟩
      split
      next same =>
        subst same
        rw [found]
        rfl
      next => exact found
    · exact ⟨_, by rw [if_pos rfl, absent]; rfl⟩

/-- After an outcome is inserted there is one of its action, its own or one that was there. -/
theorem has_insertOnce (distinguishes : IdsDistinguish eventId) (h : History eventId) (stored : OutcomeRow) :
    (h.insertOnce stored).Has stored.runId stored.outcome.candidate.candidateId stored.outcome.action := by
  cases before : h.outcomes.get? (eventId stored.runId stored.outcome) with
  | none => exact ⟨stored, mem_insertOnce.mpr (.inr ⟨before, rfl⟩), rfl, rfl, rfl⟩
  | some old =>
    obtain ⟨run, candidate, action⟩ := distinguishes _ _ _ _ (h.keyed _ old before)
    exact ⟨old, mem_insertOnce.mpr (.inl (Dict.mem_values.mpr ⟨_, before⟩)), run, candidate, action⟩

theorem mem_outcomeIds : identity ∈ h.outcomeIds runId ↔
    ∃ row ∈ h.outcomes.values, row.runId = runId ∧ row.outcome.candidate.candidateId = identity := by
  unfold History.outcomeIds
  simp [and_assoc]

/-- A history after calls: what was stored stays, and what is new is of candidates without an outcome,
and of both actions. -/
structure Grown (runId : String) (identities : List String) (h h' : History eventId) : Prop where
  candidates : h'.candidates = h.candidates
  kept : ∀ row ∈ h.outcomes.values, row ∈ h'.outcomes.values
  added : ∀ row ∈ h'.outcomes.values, row ∈ h.outcomes.values ∨
    row.runId = runId ∧ row.outcome.candidate.candidateId ∈ identities
  both : ∀ identity ∈ identities, ∀ action, h'.Has runId identity action

theorem History.Has.kept (has : h.Has runId identity action)
    (kept : ∀ row ∈ h.outcomes.values, row ∈ h'.outcomes.values) : h'.Has runId identity action :=
  has.imp fun row => And.imp_left (kept row)

theorem Grown.refl (runId : String) (h : History eventId) : Grown runId [] h h :=
  ⟨rfl, fun _ member => member, fun _ => .inl, fun _ member => absurd member List.not_mem_nil⟩

theorem Grown.trans {first next : List String} (one : Grown runId first h h') (two : Grown runId next h' h'') :
    Grown runId (first ++ next) h h'' := by
  refine ⟨two.candidates.trans one.candidates, fun row member => two.kept row (one.kept row member),
    fun row member => ?_, fun identity member action => ?_⟩
  · rcases two.added row member with old | ⟨run, new⟩
    · exact (one.added row old).imp_right (And.imp_right (List.mem_append_left _))
    · exact .inr ⟨run, List.mem_append_right _ new⟩
  · rcases List.mem_append.mp member with old | new
    · exact (one.both identity old action).kept two.kept
    · exact two.both identity new action

theorem recoverOne_grown (distinguishes : IdsDistinguish eventId) (platform : Platform) (runId : String)
    (now : Instant) (h : History eventId) (row : CandidateRow) :
    Grown runId [row.candidate.candidateId] h (h.recoverOne platform runId now row) := by
  have first := has_insertOnce distinguishes h ⟨runId, now, abandonedOutcome platform row.candidate .passiveBuy⟩
  have last := has_insertOnce distinguishes
    (h.insertOnce ⟨runId, now, abandonedOutcome platform row.candidate .passiveBuy⟩)
    ⟨runId, now, abandonedOutcome platform row.candidate .aggressiveBuy⟩
  have kept {h : History eventId} {stored : OutcomeRow} :
      ∀ row ∈ h.outcomes.values, row ∈ (h.insertOnce stored).outcomes.values :=
    fun _ member => mem_insertOnce.mpr (.inl member)
  refine ⟨rfl, fun other member => kept other (kept other member), fun other member => ?_, ?_⟩
  · rcases mem_insertOnce.mp member with member | ⟨-, rfl⟩
    · rcases mem_insertOnce.mp member with member | ⟨-, rfl⟩
      · exact .inl member
      · exact .inr ⟨rfl, List.mem_cons_self⟩
    · exact .inr ⟨rfl, List.mem_cons_self⟩
  · rintro identity member action
    obtain rfl := List.mem_singleton.mp member
    cases action with
    | passiveBuy => exact first.kept kept
    | aggressiveBuy => exact last

/-- What a call comes upon that had no outcome. -/
def unfinished (runId : String) (h : History eventId) (window : List CandidateRow) : List String :=
  (window.map fun row => row.candidate.candidateId).filter (· ∉ h.outcomeIds runId)

theorem recover_grown (distinguishes : IdsDistinguish eventId) (platform : Platform) (runId : String) (now : Instant)
    (h : History eventId) (window : List CandidateRow) :
    Grown runId (unfinished runId h window) h (h.recover platform runId now window).1 ∧
      (h.recover platform runId now window).2 = 2 * (unfinished runId h window).length := by
  have all (l : List CandidateRow) (g : History eventId) (n : ℕ) :
      Grown runId (unfinished runId h l) g (l.foldl (fun (g, recovered) row =>
        if row.candidate.candidateId ∈ h.outcomeIds runId then (g, recovered)
        else (g.recoverOne platform runId now row, recovered + 2)) (g, n)).1 ∧
      (l.foldl (fun (g, recovered) row =>
        if row.candidate.candidateId ∈ h.outcomeIds runId then (g, recovered)
        else (g.recoverOne platform runId now row, recovered + 2)) (g, n)).2 =
          n + 2 * (unfinished runId h l).length := by
    induction l generalizing g n with
    | nil => exact ⟨.refl runId g, rfl⟩
    | cons row rest ih =>
      rw [List.foldl_cons]
      dsimp only
      by_cases old : row.candidate.candidateId ∈ h.outcomeIds runId
      · have same : unfinished runId h (row :: rest) = unfinished runId h rest := by
          simp [unfinished, old]
        rw [if_pos old, same]
        exact ih g n
      · have more : unfinished runId h (row :: rest) = [row.candidate.candidateId] ++ unfinished runId h rest := by
          simp [unfinished, old]
        obtain ⟨grown, count⟩ := ih (g.recoverOne platform runId now row) (n + 2)
        rw [if_neg old, more]
        refine ⟨(recoverOne_grown distinguishes platform runId now g row).trans grown, ?_⟩
        rw [count, List.length_append, List.length_singleton]
        omega
  have result := all window h 0
  rw [zero_add] at result
  exact result

/-! ## The window -/

theorem upTo_distinct (h : History eventId) (runId : String) (cutoff : Instant) :
    ((h.upTo runId cutoff).map fun row => row.candidate.candidateId).Nodup :=
  h.distinct.sublist (List.filter_sublist.map _)

/-- A candidate with room before it is in every window. -/
theorem mem_take_of_near (order : Ordered rows ordered)
    (distinct : (rows.map fun row => row.candidate.candidateId).Nodup) (member : row ∈ rows)
    (near : (rows.filter fun other => other.candidate.candidateId ≠ row.candidate.candidateId &&
      other.occurredAt ≤ row.occurredAt).length < limit) : row ∈ ordered.take limit := by
  obtain ⟨before, after, rfl⟩ := List.append_of_mem (order.perm.mem_iff.mpr member)
  have apart := (order.perm.map fun row => row.candidate.candidateId).nodup_iff.mpr distinct
  rw [List.map_append, List.nodup_append] at apart
  have early : ∀ other ∈ before, (other.candidate.candidateId ≠ row.candidate.candidateId &&
      other.occurredAt ≤ row.occurredAt : Bool) = true := by
    intro other earlier
    have differs := apart.2.2 _ (List.mem_map_of_mem earlier) _ (List.mem_map_of_mem List.mem_cons_self)
    have inTime := (List.pairwise_append.mp order.inTime).2.2 other earlier row List.mem_cons_self
    simp [differs, inTime]
  have count : before.length ≤ (rows.filter fun other =>
      other.candidate.candidateId ≠ row.candidate.candidateId && other.occurredAt ≤ row.occurredAt).length := by
    rw [← (order.perm.filter _).length_eq, List.filter_append, List.length_append,
      List.filter_eq_self.mpr early]
    exact Nat.le_add_right _ _
  rw [List.take_append, List.mem_append]
  refine .inr ?_
  obtain ⟨more, room⟩ := Nat.exists_eq_add_of_lt (count.trans_lt near)
  rw [room, show before.length + more + 1 - before.length = more + 1 by omega]
  exact List.mem_cons_self

def byTime (rows : List CandidateRow) : List CandidateRow :=
  rows.insertionSort fun first next => first.occurredAt ≤ next.occurredAt

theorem byTime_ordered (rows : List CandidateRow) : Ordered rows (byTime rows) := by
  refine ⟨List.perm_insertionSort _ _, ?_⟩
  have total : Std.Total fun first next : CandidateRow => first.occurredAt ≤ next.occurredAt :=
    ⟨fun first next => le_total first.occurredAt next.occurredAt⟩
  have trans : IsTrans CandidateRow fun first next => first.occurredAt ≤ next.occurredAt :=
    ⟨fun _ _ _ => le_trans⟩
  exact List.pairwise_insertionSort _ rows

/-- Of all orders by time there is one in which a candidate comes after all that were recorded no later. -/
theorem exists_ordered_last (distinct : (rows.map fun row => row.candidate.candidateId).Nodup) (member : row ∈ rows)
    (far : limit ≤ (rows.filter fun other => other.candidate.candidateId ≠ row.candidate.candidateId &&
      other.occurredAt ≤ row.occurredAt).length) : ∃ ordered, Ordered rows ordered ∧ row ∉ ordered.take limit := by
  obtain ⟨before, after, rfl⟩ := List.append_of_mem member
  have order := byTime_ordered (before ++ after)
  have middle : (before ++ row :: after).Perm (row :: (before ++ after)) := List.perm_middle
  have apart := (middle.map fun row => row.candidate.candidateId).nodup_iff.mp distinct
  rw [List.map_cons, List.nodup_cons] at apart
  have differs : ∀ other ∈ byTime (before ++ after), other.candidate.candidateId ≠ row.candidate.candidateId :=
    fun other held same => apart.1 (List.mem_map.mpr ⟨other, order.perm.mem_iff.mp held, same⟩)
  let early := (byTime (before ++ after)).filter fun other => other.occurredAt ≤ row.occurredAt
  let late := (byTime (before ++ after)).filter fun other => !(other.occurredAt ≤ row.occurredAt : Bool)
  have count : (before ++ row :: after |>.filter fun other =>
      other.candidate.candidateId ≠ row.candidate.candidateId && other.occurredAt ≤ row.occurredAt).length =
        early.length := by
    rw [(middle.filter _).length_eq, List.filter_cons_of_neg (by simp), ← (order.perm.filter _).length_eq]
    refine congrArg List.length (List.filter_congr fun other held => ?_)
    simp [differs other held]
  refine ⟨early ++ row :: late, ⟨?_, ?_⟩, fun inside => ?_⟩
  · exact (List.perm_middle.trans ((List.filter_append_perm _ _).trans order.perm |>.cons row)).trans middle.symm
  · rw [List.pairwise_append, List.pairwise_cons]
    refine ⟨order.inTime.sublist List.filter_sublist, ⟨fun other held => ?_,
      order.inTime.sublist List.filter_sublist⟩, fun one held other held' => ?_⟩
    · have later := (List.mem_filter.mp held).2
      rw [Bool.not_eq_true', decide_eq_false_iff_not] at later
      exact (not_le.mp later).le
    · have first : one.occurredAt ≤ row.occurredAt := of_decide_eq_true (List.mem_filter.mp held).2
      rcases List.mem_cons.mp held' with rfl | held'
      · exact first
      · have later := (List.mem_filter.mp held').2
        rw [Bool.not_eq_true', decide_eq_false_iff_not] at later
        exact first.trans (not_le.mp later).le
  · rw [List.take_append_of_le_length (count ▸ far)] at inside
    exact differs row (List.mem_of_mem_filter (List.mem_of_mem_take inside)) rfl

/-! ## All calls -/

theorem Grown.upTo {identities : List String} (grown : Grown runId identities h h') (cutoff : Instant) :
    h'.upTo runId cutoff = h.upTo runId cutoff := by
  unfold History.upTo
  rw [grown.candidates]

theorem Grown.untouched {identities : List String} (grown : Grown runId identities h h')
    (fresh : ∀ identity ∈ identities, identity ∉ h.outcomeIds runId)
    (known : stored.outcome.candidate.candidateId ∈ h.outcomeIds runId) :
    stored ∈ h'.outcomes.values ↔ stored ∈ h.outcomes.values := by
  refine ⟨fun member => (grown.added stored member).resolve_right ?_, grown.kept stored⟩
  exact fun new => fresh _ new.2 known

theorem unfinished_fresh : ∀ identity ∈ unfinished runId h window, identity ∉ h.outcomeIds runId :=
  fun _ member => of_decide_eq_true (List.mem_filter.mp member).2

theorem Recovers.grown (call : Recovers platform runId featureHorizonSeconds limit now h h' recovered)
    (distinguishes : IdsDistinguish eventId) :
    ∃ ordered, Ordered (h.upTo runId (cutoffAt featureHorizonSeconds now)) ordered ∧
      Grown runId (unfinished runId h (ordered.take limit)) h h' ∧
      recovered = 2 * (unfinished runId h (ordered.take limit)).length := by
  obtain ⟨ordered, order, done⟩ := call
  unfold History.recoverAbandonedCandidates at done
  split at done
  next => cases done
  next =>
    have grown := recover_grown distinguishes platform runId now h (ordered.take limit)
    rw [Option.some.inj done] at grown
    exact ⟨ordered, order, grown⟩

/-- What all calls together add is of candidates that had no outcome, of both actions. -/
theorem RecoversAll.grown (calls : RecoversAll platform runId featureHorizonSeconds limit now h h')
    (distinguishes : IdsDistinguish eventId) :
    ∃ identities, Grown runId identities h h' ∧ (∀ identity ∈ identities, identity ∉ h.outcomeIds runId) ∧
      ∃ ordered, Ordered (h.upTo runId (cutoffAt featureHorizonSeconds now)) ordered ∧
        ∀ row ∈ ordered.take limit, row.candidate.candidateId ∈ h.outcomeIds runId ∨
          row.candidate.candidateId ∈ identities := by
  induction calls with
  | @last h _ call =>
    obtain ⟨ordered, order, grown, -⟩ := call.grown distinguishes
    refine ⟨_, grown, unfinished_fresh, ordered, order, fun row member => ?_⟩
    by_cases known : row.candidate.candidateId ∈ h.outcomeIds runId
    · exact .inl known
    · exact .inr (List.mem_filter.mpr ⟨List.mem_map_of_mem member, decide_eq_true known⟩)
  | more some call rest ih =>
    obtain ⟨ordered, -, grown, -⟩ := call.grown distinguishes
    obtain ⟨identities, later, fresh, last, order, all⟩ := ih
    refine ⟨_, grown.trans later, fun identity member => ?_, last, grown.upTo _ ▸ order, fun row member => ?_⟩
    · rcases List.mem_append.mp member with first | next
      · exact unfinished_fresh identity first
      · intro known
        obtain ⟨stored, held, own⟩ := mem_outcomeIds.mp known
        exact fresh identity next (mem_outcomeIds.mpr ⟨stored, grown.kept stored held, own⟩)
    · rcases all row member with known | new
      · obtain ⟨stored, held, run, same⟩ := mem_outcomeIds.mp known
        rcases grown.added stored held with old | ⟨-, new⟩
        · exact .inl (mem_outcomeIds.mpr ⟨stored, old, run, same⟩)
        · exact .inr (List.mem_append_left _ (same ▸ new))
      · exact .inr (List.mem_append_right _ new)

/-- Two calls at one time, in one order, recover all they can. -/
theorem exists_recoversAll (distinguishes : IdsDistinguish eventId) (positive : 0 < limit)
    (order : Ordered (h.upTo runId (cutoffAt featureHorizonSeconds now)) ordered) :
    ∃ h', RecoversAll platform runId featureHorizonSeconds limit now h h' ∧
      Grown runId (unfinished runId h (ordered.take limit)) h h' := by
  have call (h : History eventId) : h.recoverAbandonedCandidates platform runId limit now ordered =
      some (h.recover platform runId now (ordered.take limit)) := if_neg (by omega)
  obtain ⟨grown, count⟩ := recover_grown distinguishes platform runId now h (ordered.take limit)
  have first : Recovers platform runId featureHorizonSeconds limit now h
      (h.recover platform runId now (ordered.take limit)).1 (h.recover platform runId now (ordered.take limit)).2 :=
    ⟨ordered, order, call h⟩
  generalize (h.recover platform runId now (ordered.take limit)).1 = middle at *
  generalize (h.recover platform runId now (ordered.take limit)).2 = recovered at *
  by_cases done : recovered = 0
  · subst done
    exact ⟨middle, .last first, grown⟩
  · have none : unfinished runId middle (ordered.take limit) = [] := by
      refine List.filter_eq_nil_iff.mpr fun identity member => ?_
      rw [decide_eq_true_eq, not_not]
      by_cases known : identity ∈ h.outcomeIds runId
      · obtain ⟨stored, held, own⟩ := mem_outcomeIds.mp known
        exact mem_outcomeIds.mpr ⟨stored, grown.kept stored held, own⟩
      · obtain ⟨stored, held, run, same, -⟩ :=
          grown.both identity (List.mem_filter.mpr ⟨member, decide_eq_true known⟩) .passiveBuy
        exact mem_outcomeIds.mpr ⟨stored, held, run, same⟩
    obtain ⟨again, count⟩ := recover_grown distinguishes platform runId now middle (ordered.take limit)
    rw [none] at again count
    have last : Recovers platform runId featureHorizonSeconds limit now middle
        (middle.recover platform runId now (ordered.take limit)).1 0 := by
      refine ⟨ordered, (grown.upTo _).symm ▸ order, (call middle).trans ?_⟩
      exact congrArg some (Prod.ext rfl count)
    refine ⟨_, .more done first (.last last), ?_⟩
    have both := grown.trans again
    rwa [List.append_nil] at both

/-- Repeated calls recover every candidate, however the query orders equal times, exactly when those recorded
no later leave room for each in the limit, and none has one outcome alone. -/
theorem recovers_all_iff (platform : Platform) (runId : String) (featureHorizonSeconds : ℚ) (now : Instant)
    (h : History eventId) (distinguishes : IdsDistinguish eventId) (positive : 0 < limit) :
    (∃ h', RecoversAll platform runId featureHorizonSeconds limit now h h') ∧
      ((∀ h', RecoversAll platform runId featureHorizonSeconds limit now h h' →
        AllRecovered runId (cutoffAt featureHorizonSeconds now) h h') ↔
        Recoverable runId limit (cutoffAt featureHorizonSeconds now) h) := by
  have inOrder := byTime_ordered (h.upTo runId (cutoffAt featureHorizonSeconds now))
  obtain ⟨after, calls, -⟩ : ∃ h', RecoversAll platform runId featureHorizonSeconds limit now h h' ∧
      Grown runId _ h h' := exists_recoversAll distinguishes positive inOrder
  refine ⟨⟨after, calls⟩, fun all => ⟨fun row member abandoned => ?_, fun row member known action => ?_⟩,
    fun recoverable h' calls => ?_⟩
  · by_contra far
    have distinct := upTo_distinct h runId (cutoffAt featureHorizonSeconds now)
    obtain ⟨ordered, order, outside⟩ := exists_ordered_last distinct member (not_lt.mp far)
    obtain ⟨h', calls, grown⟩ : ∃ h', RecoversAll platform runId featureHorizonSeconds limit now h h' ∧
        Grown runId (unfinished runId h (ordered.take limit)) h h' :=
      exists_recoversAll distinguishes positive order
    obtain ⟨stored, held, run, same, -⟩ := (all h' calls).all row member .passiveBuy
    rcases grown.added stored held with old | ⟨-, new⟩
    · exact abandoned (mem_outcomeIds.mpr ⟨stored, old, run, same⟩)
    · obtain ⟨other, inside, same'⟩ := List.mem_map.mp (List.mem_filter.mp new).1
      have one : other = row := List.inj_on_of_nodup_map distinct
        (order.perm.mem_iff.mp (List.mem_of_mem_take inside)) member (same'.trans same)
      exact outside (one ▸ inside)
  · obtain ⟨stored, held, run, same, kind⟩ := (all after calls).all row member action
    have old := ((all after calls).untouched stored run (same.symm ▸ known)).mp held
    exact ⟨stored, old, run, same, kind⟩
  · obtain ⟨identities, grown, fresh, ordered, order, inside⟩ := calls.grown distinguishes
    refine ⟨fun row member action => ?_, fun stored _ known => grown.untouched fresh known⟩
    by_cases known : row.candidate.candidateId ∈ h.outcomeIds runId
    · exact (recoverable.both row member known action).kept grown.kept
    · have near := mem_take_of_near order (upTo_distinct h runId _) member (recoverable.near row member known)
      exact grown.both _ ((inside row near).resolve_left known) action

section samples

def sampleEventId (runId : String) (o : ShadowActionOutcome) : String × String × ShadowAction :=
  (runId, o.candidate.candidateId, o.action)

theorem sampleEventId_distinguishes : IdsDistinguish sampleEventId := by
  intro runId o runId' o' same
  unfold sampleEventId at same
  rw [Prod.mk.injEq, Prod.mk.injEq] at same
  exact same

/-- Two candidates of a run, recorded a second apart. -/
def recorded : List CandidateRow := [⟨"run", 1000000, earlyCandidate⟩, ⟨"run", 2000000, lateCandidate⟩]

/-- Neither has an outcome. -/
def untoldHistory : History sampleEventId where
  candidates := recorded
  outcomes := .empty
  distinct := by decide +kernel
  keyed := by simp

/-- The first has both its outcomes. -/
def toldHistory : History sampleEventId :=
  untoldHistory.recoverOne actionPlatform "run" 5000000 ⟨"run", 1000000, earlyCandidate⟩

theorem recovers_all_iff_both : ∃ h', RecoversAll actionPlatform "run" 5 2 60000000 untoldHistory h' ∧
    AllRecovered "run" (cutoffAt 5 60000000) untoldHistory h' := by
  obtain ⟨⟨h', calls⟩, exactly⟩ := recovers_all_iff actionPlatform "run" 5 60000000 untoldHistory
    sampleEventId_distinguishes (show 0 < 2 by decide)
  have all : ∀ row ∈ untoldHistory.upTo "run" (cutoffAt 5 60000000),
      ((untoldHistory.upTo "run" (cutoffAt 5 60000000)).filter fun other =>
        other.candidate.candidateId ≠ row.candidate.candidateId && other.occurredAt ≤ row.occurredAt).length < 2 := by
    decide +kernel
  exact ⟨h', calls, exactly.mpr ⟨fun row member _ => all row member,
    fun row _ known => absurd known List.not_mem_nil⟩ h' calls⟩

/-- With a limit of one, a candidate after one that is done is never come upon. -/
theorem recovers_first_alone : ¬∀ (platform : Platform) (runId : String) (featureHorizonSeconds : ℚ) (limit : ℕ)
    (now : Instant) (h h' : History sampleEventId), IdsDistinguish sampleEventId → 0 < limit →
      RecoversAll platform runId featureHorizonSeconds limit now h h' →
      AllRecovered runId (cutoffAt featureHorizonSeconds now) h h' := by
  intro all
  have old : ∀ row ∈ recorded, (row.runId = "run" && row.occurredAt ≤ cutoffAt 5 60000000 : Bool) = true := by
    decide +kernel
  have order : Ordered (toldHistory.upTo "run" (cutoffAt 5 60000000)) recorded :=
    ⟨List.Perm.of_eq (List.filter_eq_self.mpr old).symm, by decide +kernel⟩
  obtain ⟨h', calls, grown⟩ : ∃ h', RecoversAll actionPlatform "run" 5 1 60000000 toldHistory h' ∧
      Grown "run" (unfinished "run" toldHistory (recorded.take 1)) toldHistory h' :=
    exists_recoversAll sampleEventId_distinguishes one_pos order
  have none : unfinished "run" toldHistory (recorded.take 1) = [] := by decide +kernel
  rw [none] at grown
  have member : (⟨"run", 2000000, lateCandidate⟩ : CandidateRow) ∈ toldHistory.upTo "run" (cutoffAt 5 60000000) :=
    order.perm.mem_iff.mp (by simp [recorded])
  obtain ⟨stored, held, -, same, -⟩ := (all actionPlatform "run" 5 1 60000000 toldHistory h'
    sampleEventId_distinguishes one_pos calls).all _ member .passiveBuy
  have kept := (grown.added stored held).resolve_right fun new => absurd new.2 List.not_mem_nil
  have early : ∀ stored ∈ toldHistory.outcomes.values, stored.outcome.candidate.candidateId = "early" := by
    decide +kernel
  rw [early stored kept] at same
  exact absurd same (by decide)

end samples

end TradeAgent.Scalp.Shadow
